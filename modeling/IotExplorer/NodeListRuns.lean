import IotExplorer.NodeLists

/-!
Runs of the operations on a list of the utilities, beside the same operations on a list of
entries. An entry is a node with its value; nodes that are not in the list are held by the
callers. An iterator stands at the entry that it returns next, and may be used as long as
that entry is in the list.
-/
namespace IotExplorer.NodeListRuns

open Basis.LinkedLists Basis.Runs NodeLists

/-- An operation, with the memory that it is given where it allocates any. -/
inductive Op (A V I : Type*) where
  | listNodeNew (memory : Option A) (val : V)
  | rpush (node : Option A)
  | lpush (node : Option A)
  | rpop
  | lpop
  | remove (node : A)
  | find (val : V) (memory : Bool)
  | listAt (index : Int32) (memory : Bool)
  | iteratorNew (memory : Option I) (direction : ListDirection)
  | iteratorNext (iterator : I)
  | iteratorDestroy (iterator : I)

inductive Reply (A I : Type*) where
  | node (node : Option A)
  | iterator (iterator : Option I)
  | done
  deriving DecidableEq

variable {A V I : Type*} [DecidableEq A]

section Code
variable [DecidableEq V] [DecidableEq I]

def attempt (fuel : ℕ) : Op A V I → Store A V I → Option (Store A V I × List (Reply A I))
  | .listNodeNew memory val, s =>
      some ((listNodeNew s memory val).1, [.node (listNodeNew s memory val).2])
  | .rpush node, s => (qcloudListRpush s node).map fun (s, node) => (s, [.node node])
  | .lpush node, s => (qcloudListLpush s node).map fun (s, node) => (s, [.node node])
  | .rpop, s => (qcloudListRpop s).map fun (s, node) => (s, [.node node])
  | .lpop, s => (qcloudListLpop s).map fun (s, node) => (s, [.node node])
  | .remove node, s => (qcloudListRemove s node).map fun s => (s, [.done])
  | .find val memory, s => (qcloudListFind fuel s val memory).map fun node => (s, [.node node])
  | .listAt index memory, s => (qcloudListAt s index memory).map fun node => (s, [.node node])
  | .iteratorNew memory direction, s =>
      match memory, qcloudListIteratorNew memory.isSome s.list direction with
      | some i, some it =>
          some ({ s with iterators := Function.update s.iterators i (some it) }, [.iterator i])
      | _, _ => some (s, [.iterator none])
  | .iteratorNext i, s =>
      (s.iterators i).bind fun it =>
      (qcloudListIteratorNext s.heap it).map fun (it, node) =>
      ({ s with iterators := Function.update s.iterators i (some it) }, [.node node])
  | .iteratorDestroy i, s =>
      (s.iterators i).map fun _ =>
      ({ s with iterators := Function.update s.iterators i none }, [.done])

def start (free : Bool) (matcher : Option (V → V → Bool)) : Store A V I :=
  ⟨qcloudListNew free matcher, fun _ => none, fun _ => none, []⟩

end Code

section Entries
variable [DecidableEq V] [DecidableEq I]

/-- The entries of the list, the nodes that the callers hold, the iterators, and the values
that were released. -/
structure Entries (A V I : Type*) where
  items : List (A × V)
  held : A → Option V
  iterators : I → Option (ListIterator A)
  freed : List V

def Entries.empty : Entries A V I := ⟨[], fun _ => none, fun _ => none, []⟩

/-- An entry that the callers hold goes into the list. -/
def Entries.put (m : Entries A V I) (a : A) (items : List (A × V)) : Entries A V I :=
  { m with items := items, held := Function.update m.held a none }

/-- An entry that leaves the list is held by the callers. -/
def Entries.take (m : Entries A V I) (x : A × V) (items : List (A × V)) : Entries A V I :=
  { m with items := items, held := Function.update m.held x.1 (some x.2) }

/-- What an operation is for. -/
def act (free : Bool) (matcher : Option (V → V → Bool)) :
    Op A V I → Entries A V I → Entries A V I × List (Reply A I)
  | .listNodeNew none _, m => (m, [.node none])
  | .listNodeNew (some a) val, m =>
      ({ m with held := Function.update m.held a (some val) }, [.node a])
  | .rpush none, m => (m, [.node none])
  | .rpush (some a), m =>
      (m.put a (m.items ++ ((m.held a).map fun v => (a, v)).toList), [.node a])
  | .lpush none, m => (m, [.node none])
  | .lpush (some a), m =>
      (m.put a (((m.held a).map fun v => (a, v)).toList ++ m.items), [.node a])
  | .rpop, m =>
      match m.items.getLast? with
      | none => (m, [.node none])
      | some x => (m.take x m.items.dropLast, [.node x.1])
  | .lpop, m =>
      match m.items with
      | [] => (m, [.node none])
      | x :: items => (m.take x items, [.node x.1])
  | .remove a, m =>
      ({ m with
          items := m.items.filter fun x => x.1 ≠ a
          freed := if free then m.freed ++ (m.items.filter fun x => x.1 = a).map Prod.snd
            else m.freed }, [.done])
  | .find val memory, m =>
      (m, [.node (if memory then (m.items.find? fun x => found matcher val x.2).map Prod.fst
        else none)])
  | .listAt index memory, m =>
      (m, [.node (if memory then (elementAt m.items index).map Prod.fst else none)])
  | .iteratorNew none _, m => (m, [.iterator none])
  | .iteratorNew (some i) direction, m =>
      ({ m with
          iterators := Function.update m.iterators i
            (some ⟨(ordered direction m.items).head?.map Prod.fst, direction⟩) }, [.iterator i])
  | .iteratorNext i, m =>
      match m.iterators i with
      | none => (m, [.node none])
      | some it =>
          ({ m with
              iterators := Function.update m.iterators i
                (some ⟨it.next.bind fun a => after a (ordered it.direction m.items),
                  it.direction⟩) },
            [.node it.next])
  | .iteratorDestroy i, m => ({ m with iterators := Function.update m.iterators i none }, [.done])

/-- What callers keep to: memory that is allocated is not in use, a node that is pushed is
held and can still be counted, a node that is removed is in the list, and an iterator that is
used exists and the entry it stands at is in the list. -/
def Allowed (m : Entries A V I) : Op A V I → Prop
  | .listNodeNew memory _ => ∀ a ∈ memory, m.held a = none ∧ a ∉ m.items.map Prod.fst
  | .rpush node | .lpush node => ∀ a ∈ node, m.held a ≠ none ∧ m.items.length + 1 < 2 ^ 32
  | .remove a => a ∈ m.items.map Prod.fst
  | .iteratorNext i => ∃ it ∈ m.iterators i, ∀ a ∈ it.next, a ∈ m.items.map Prod.fst
  | .iteratorDestroy i => m.iterators i ≠ none
  | _ => True

instance decidableAllowed (m : Entries A V I) : (op : Op A V I) → Decidable (Allowed m op)
  | .listNodeNew memory _ =>
      inferInstanceAs (Decidable (∀ a ∈ memory, m.held a = none ∧ a ∉ m.items.map Prod.fst))
  | .rpush node | .lpush node =>
      inferInstanceAs (Decidable (∀ a ∈ node, m.held a ≠ none ∧ m.items.length + 1 < 2 ^ 32))
  | .remove a => inferInstanceAs (Decidable (a ∈ m.items.map Prod.fst))
  | .iteratorNext i =>
      inferInstanceAs
        (Decidable (∃ it ∈ m.iterators i, ∀ a ∈ it.next, a ∈ m.items.map Prod.fst))
  | .iteratorDestroy i => inferInstanceAs (Decidable (m.iterators i ≠ none))
  | .rpop | .lpop | .find .. | .listAt .. | .iteratorNew .. => isTrue trivial

end Entries

section Steps
variable {free : Bool} {matcher : Option (V → V → Bool)} {s s' : Store A V I} {m : Entries A V I}
  {items : List (A × V)} {a : A} {x : A × V}

structure Represents (free : Bool) (matcher : Option (V → V → Bool)) (s : Store A V I)
    (m : Entries A V I) : Prop where
  holds : Holds s m.items
  held : ∀ a v, m.held a = some v →
    a ∉ m.items.map Prod.fst ∧ ∃ c, s.heap a = some c ∧ c.val = v
  iterators : s.iterators = m.iterators
  freed : s.freed = m.freed
  free_eq : s.list.free = free
  matcher_eq : s.list.matcher = matcher

omit [DecidableEq A] in
theorem start_represents :
    Represents free matcher (start free matcher : Store A V I) Entries.empty :=
  ⟨⟨linked_nil _, rfl⟩, (fun _ _ h => nomatch h), rfl, rfl, rfl, rfl⟩

/-- A push adds one entry to those of the list. -/
theorem Represents.put (h : Represents free matcher s m) (hholds : Holds s' items)
    (hframe : Frame s s' (a :: m.items.map Prod.fst)) (hfreed : s'.freed = s.freed)
    (hitems : ∀ b, b ∈ items.map Prod.fst → b = a ∨ b ∈ m.items.map Prod.fst) :
    Represents free matcher s' (m.put a items) := by
  refine ⟨hholds, fun b v hb => ?_, hframe.iterators.trans h.iterators, hfreed.trans h.freed,
    hframe.free.trans h.free_eq, hframe.matcher.trans h.matcher_eq⟩
  by_cases hba : b = a
  · simp [Entries.put, hba] at hb
  · have hheld : m.held b = some v := by simpa [Entries.put, hba] using hb
    obtain ⟨hout, hcell⟩ := h.held b v hheld
    refine ⟨fun hmem => (hitems b hmem).elim hba hout, ?_⟩
    rwa [hframe.heap b fun hmem => (List.mem_cons.mp hmem).elim hba hout]

/-- A pop takes one entry from those of the list. -/
theorem Represents.take (h : Represents free matcher s m) (hholds : Holds s' items)
    (hframe : Frame s s' (m.items.map Prod.fst)) (hfreed : s'.freed = s.freed)
    (hcell : s'.heap x.1 = some ⟨none, none, x.2⟩)
    (hitems : ∀ b ∈ items.map Prod.fst, b ≠ x.1 ∧ b ∈ m.items.map Prod.fst) :
    Represents free matcher s' (m.take x items) := by
  refine ⟨hholds, fun b v hb => ?_, hframe.iterators.trans h.iterators, hfreed.trans h.freed,
    hframe.free.trans h.free_eq, hframe.matcher.trans h.matcher_eq⟩
  by_cases hbx : b = x.1
  · have hval : x.2 = v := by simpa [Entries.take, hbx] using hb
    subst hbx
    exact ⟨fun hmem => (hitems _ hmem).1 rfl, _, hcell, hval⟩
  · have hheld : m.held b = some v := by simpa [Entries.take, hbx] using hb
    obtain ⟨hout, hcell⟩ := h.held b v hheld
    refine ⟨fun hmem => hout (hitems b hmem).2, ?_⟩
    rwa [hframe.heap b hout]

omit [DecidableEq A] in
/-- An iterator is made, moved or destroyed. -/
theorem Represents.set_iterator [DecidableEq I] (h : Represents free matcher s m) (i : I)
    (it : Option (ListIterator A)) :
    Represents free matcher { s with iterators := Function.update s.iterators i it }
      { m with iterators := Function.update m.iterators i it } := by
  refine ⟨⟨h.holds.linked, h.holds.len_eq⟩, h.held, ?_, h.freed, h.free_eq, h.matcher_eq⟩
  rw [h.iterators]

section Attempts
variable [DecidableEq V] [DecidableEq I] (h : Represents free matcher s m)
include h

theorem listNodeNew_represents {fuel : ℕ} {memory : Option A} {val : V}
    (hallowed : Allowed m (.listNodeNew memory val : Op A V I)) :
    ∃ s', attempt fuel (.listNodeNew memory val) s =
        some (s', (act free matcher (.listNodeNew memory val) m).2) ∧
      Represents free matcher s' (act free matcher (.listNodeNew memory val) m).1 := by
  cases memory with
  | none => exact ⟨s, rfl, h⟩
  | some a =>
    obtain ⟨-, hout⟩ := hallowed a rfl
    have hsame (b : A) (hb : b ∈ m.items.map Prod.fst) :
        store s.heap a (some ⟨none, none, val⟩) b = s.heap b :=
      store_of_ne fun heq => hout (heq ▸ hb)
    have hlinked := h.holds.linked
    refine ⟨_, rfl, ⟨⟨⟨hlinked.segment.congr hsame, hlinked.nodup, hlinked.head_eq,
      hlinked.tail_eq⟩, h.holds.len_eq⟩, fun b v hb => ?_, h.iterators, h.freed, h.free_eq,
      h.matcher_eq⟩⟩
    by_cases hba : b = a
    · subst hba
      have hval : val = v := by simpa [act] using hb
      exact ⟨hout, _, store_self, hval⟩
    · have hheld : m.held b = some v := by simpa [act, hba] using hb
      obtain ⟨hnot, c, hc, hval⟩ := h.held b v hheld
      exact ⟨hnot, c, (store_of_ne hba).trans hc, hval⟩

theorem rpush_represents {fuel : ℕ} {node : Option A}
    (hallowed : Allowed m (.rpush node : Op A V I)) :
    ∃ s', attempt fuel (.rpush node) s = some (s', (act free matcher (.rpush node) m).2) ∧
      Represents free matcher s' (act free matcher (.rpush node) m).1 := by
  cases node with
  | none => exact ⟨s, rfl, h⟩
  | some a =>
    obtain ⟨hheld, hroom⟩ := hallowed a rfl
    obtain ⟨v, hv⟩ := Option.ne_none_iff_exists'.mp hheld
    obtain ⟨hout, c, hc, rfl⟩ := h.held a v hv
    obtain ⟨s', hpush, hholds, hframe, hfreed⟩ := rpush_holds h.holds hc hout hroom
    refine ⟨s', by simp [attempt, act, hpush], ?_⟩
    have hput := h.put hholds hframe hfreed fun b hb => by simpa [or_comm] using hb
    simpa [act, hv] using hput

theorem lpush_represents {fuel : ℕ} {node : Option A}
    (hallowed : Allowed m (.lpush node : Op A V I)) :
    ∃ s', attempt fuel (.lpush node) s = some (s', (act free matcher (.lpush node) m).2) ∧
      Represents free matcher s' (act free matcher (.lpush node) m).1 := by
  cases node with
  | none => exact ⟨s, rfl, h⟩
  | some a =>
    obtain ⟨hheld, hroom⟩ := hallowed a rfl
    obtain ⟨v, hv⟩ := Option.ne_none_iff_exists'.mp hheld
    obtain ⟨hout, c, hc, rfl⟩ := h.held a v hv
    obtain ⟨s', hpush, hholds, hframe, hfreed⟩ := lpush_holds h.holds hc hout hroom
    refine ⟨s', by simp [attempt, act, hpush], ?_⟩
    have hput := h.put hholds hframe hfreed fun b hb => by simpa using hb
    simpa [act, hv] using hput

theorem rpop_represents {fuel : ℕ} :
    ∃ s', attempt fuel .rpop s = some (s', (act free matcher .rpop m).2) ∧
      Represents free matcher s' (act free matcher .rpop m).1 := by
  rcases List.eq_nil_or_concat' m.items with hnil | ⟨l, x, hitems⟩
  · have hempty : s.list.len = 0 := h.holds.len_zero.mpr hnil
    have hpop : qcloudListRpop s = some (s, none) := if_pos hempty
    exact ⟨s, by simp [attempt, act, hpop, hnil], by simpa [act, hnil] using h⟩
  · have hholds := h.holds
    rw [hitems] at hholds
    obtain ⟨s', hpop, hholds', hframe, hfreed, hcell⟩ := rpop_holds hholds
    have hout := hholds.linked.nodup
    rw [List.map_append, List.map_singleton, List.nodup_append] at hout
    refine ⟨s', by simp [attempt, act, hpop, hitems], ?_⟩
    have htake := h.take hholds' (hitems ▸ hframe) hfreed hcell fun b hb =>
      ⟨hout.2.2 b hb x.1 (List.mem_singleton_self _), by simp [hitems, hb]⟩
    simpa [act, hitems] using htake

theorem lpop_represents {fuel : ℕ} :
    ∃ s', attempt fuel .lpop s = some (s', (act free matcher .lpop m).2) ∧
      Represents free matcher s' (act free matcher .lpop m).1 := by
  cases hitems : m.items with
  | nil =>
    have hempty : s.list.len = 0 := h.holds.len_zero.mpr hitems
    have hpop : qcloudListLpop s = some (s, none) := if_pos hempty
    exact ⟨s, by simp [attempt, act, hpop, hitems], by simpa [act, hitems] using h⟩
  | cons x r =>
    have hholds := h.holds
    rw [hitems] at hholds
    obtain ⟨s', hpop, hholds', hframe, hfreed, hcell⟩ := lpop_holds hholds
    obtain ⟨hout, -⟩ := List.nodup_cons.mp hholds.linked.nodup
    refine ⟨s', by simp [attempt, act, hpop, hitems], ?_⟩
    have htake := h.take hholds' (hitems ▸ hframe) hfreed hcell fun b hb =>
      ⟨fun heq => hout (heq ▸ hb), by simp [hitems, hb]⟩
    simpa [act, hitems] using htake

theorem remove_represents {fuel : ℕ} {a : A} (hallowed : Allowed m (.remove a : Op A V I)) :
    ∃ s', attempt fuel (.remove a) s = some (s', (act free matcher (.remove a) m).2) ∧
      Represents free matcher s' (act free matcher (.remove a) m).1 := by
  obtain ⟨x, hx, rfl⟩ := List.mem_map.mp hallowed
  obtain ⟨l, r, hitems⟩ := List.append_of_mem hx
  have hholds := h.holds
  rw [hitems] at hholds
  obtain ⟨s', hremove, hholds', hframe, hfreed⟩ := remove_holds hholds
  have hnodup := hholds.linked.nodup
  rw [List.map_append, List.map_cons, List.nodup_append, List.nodup_cons] at hnodup
  have hl (y : A × V) (hy : y ∈ l) : y.1 ≠ x.1 :=
    hnodup.2.2 _ (List.mem_map_of_mem hy) _ List.mem_cons_self
  have hr (y : A × V) (hy : y ∈ r) : y.1 ≠ x.1 :=
    fun heq => hnodup.2.1.1 (heq ▸ List.mem_map_of_mem hy)
  have hkept : (m.items.filter fun y => y.1 ≠ x.1) = l ++ r := by
    rw [hitems, List.filter_append, List.filter_cons_of_neg (by simp),
      List.filter_eq_self.mpr (by simpa using hl), List.filter_eq_self.mpr (by simpa using hr)]
  have hgone : (m.items.filter fun y => y.1 = x.1) = [x] := by
    rw [hitems, List.filter_append, List.filter_cons_of_pos (by simp),
      List.filter_eq_nil_iff.mpr (by simpa using hl),
      List.filter_eq_nil_iff.mpr (by simpa using hr)]
    rfl
  refine ⟨s', by simp [attempt, act, hremove], ?_, fun b v hb => ?_,
    hframe.iterators.trans h.iterators, ?_, hframe.free.trans h.free_eq,
    hframe.matcher.trans h.matcher_eq⟩
  · simpa only [act, hkept] using hholds'
  · obtain ⟨hout, hcell⟩ := h.held b v hb
    refine ⟨fun hmem => hout ?_, ?_⟩
    · obtain ⟨y, hy, rfl⟩ := List.mem_map.mp hmem
      exact List.mem_map_of_mem (List.mem_of_mem_filter hy)
    · rwa [hframe.heap b (hitems ▸ hout)]
  · rw [hfreed, h.free_eq, h.freed]
    simp only [act, hgone, List.map_singleton]

theorem iteratorNew_represents {fuel : ℕ} {memory : Option I} {direction : ListDirection} :
    ∃ s', attempt fuel (.iteratorNew memory direction) s =
        some (s', (act free matcher (.iteratorNew memory direction) m).2) ∧
      Represents free matcher s' (act free matcher (.iteratorNew memory direction) m).1 := by
  cases memory with
  | none => exact ⟨s, rfl, h⟩
  | some i =>
    have hnode : (if direction = .listHead then s.list.head else s.list.tail) =
        (ordered direction m.items).head?.map Prod.fst := by
      rw [h.holds.linked.head_eq, h.holds.linked.tail_eq, ← first_eq_head?]
      cases direction with
      | listHead => rfl
      | listTail => exact first_reverse.symm
    refine ⟨_, rfl, ?_⟩
    rw [hnode]
    exact h.set_iterator i _

theorem iteratorNext_represents {fuel : ℕ} {i : I}
    (hallowed : Allowed m (.iteratorNext i : Op A V I)) :
    ∃ s', attempt fuel (.iteratorNext i) s =
        some (s', (act free matcher (.iteratorNext i) m).2) ∧
      Represents free matcher s' (act free matcher (.iteratorNext i) m).1 := by
  obtain ⟨⟨next, direction⟩, hit, hvalid⟩ := hallowed
  have hit' : s.iterators i = some ⟨next, direction⟩ := h.iterators ▸ hit
  have hit'' : m.iterators i = some ⟨next, direction⟩ := hit
  have hnext : qcloudListIteratorNext s.heap ⟨next, direction⟩ =
      some (⟨next.bind fun a => after a (ordered direction m.items), direction⟩, next) := by
    cases next with
    | none => rfl
    | some a =>
      obtain ⟨x, hx, rfl⟩ := List.mem_map.mp (hvalid a rfl)
      obtain ⟨l, r, hitems⟩ := List.append_of_mem hx
      have hholds := h.holds
      rw [hitems] at hholds
      have hnodup := hholds.linked.nodup
      rw [List.map_append, List.map_cons, List.nodup_append, List.nodup_cons] at hnodup
      rw [next_holds hholds, Option.bind_some, hitems]
      cases direction with
      | listHead =>
        have hout : x.1 ∉ l.map Prod.fst := fun hl => hnodup.2.2 _ hl _ List.mem_cons_self rfl
        simp [ordered, after_append hout]
      | listTail =>
        have hback : ordered .listTail (l ++ x :: r) = (l ++ x :: r).reverse := rfl
        rw [hback, after_reverse hnodup.2.1.1]
        rfl
  refine ⟨{ s with iterators := Function.update s.iterators i (some
      ⟨next.bind fun a => after a (ordered direction m.items), direction⟩) },
    by simp [attempt, act, hit', hit'', hnext], ?_⟩
  simp only [act, hit'']
  exact h.set_iterator i _

/-- The step: an operation that is allowed succeeds and does what it is for. -/
theorem attempt_represents {fuel : ℕ} {op : Op A V I} (hallowed : Allowed m op)
    (hfuel : m.items.length < fuel) :
    ∃ s', attempt fuel op s = some (s', (act free matcher op m).2) ∧
      Represents free matcher s' (act free matcher op m).1 := by
  cases op with
  | listNodeNew memory val => exact listNodeNew_represents h hallowed
  | rpush node => exact rpush_represents h hallowed
  | lpush node => exact lpush_represents h hallowed
  | rpop => exact rpop_represents h
  | lpop => exact lpop_represents h
  | remove node => exact remove_represents h hallowed
  | find val memory =>
    have hfind := find_holds h.holds hfuel val memory
    rw [h.matcher_eq] at hfind
    exact ⟨s, by rw [attempt, hfind]; rfl, h⟩
  | listAt index memory => exact ⟨s, by rw [attempt, at_holds h.holds]; rfl, h⟩
  | iteratorNew memory direction => exact iteratorNew_represents h
  | iteratorNext i => exact iteratorNext_represents h hallowed
  | iteratorDestroy i =>
    obtain ⟨it, hit⟩ := Option.ne_none_iff_exists'.mp hallowed
    refine ⟨_, ?_, h.set_iterator i none⟩
    rw [attempt, h.iterators, hit]
    rfl

end Attempts

end Steps

section Runs
variable {free : Bool} {matcher : Option (V → V → Bool)} [DecidableEq V] [DecidableEq I]

theorem length_act (op : Op A V I) (m : Entries A V I) :
    (act free matcher op m).1.items.length ≤ m.items.length + 1 := by
  cases op with
  | listNodeNew memory val => cases memory <;> exact Nat.le_succ _
  | rpush node =>
    rcases node with - | a
    · exact Nat.le_succ _
    · cases hheld : m.held a <;> simp [act, Entries.put, hheld]
  | lpush node =>
    rcases node with - | a
    · exact Nat.le_succ _
    · cases hheld : m.held a <;> simp [act, Entries.put, hheld]
  | rpop =>
    rcases hlast : m.items.getLast? with - | x
    · simp [act, hlast]
    · simp only [act, hlast, Entries.take, List.length_dropLast]
      omega
  | lpop =>
    rcases hitems : m.items with - | ⟨x, items⟩
    · simp [act, hitems]
    · simp only [act, hitems, Entries.take, List.length_cons]
      omega
  | remove a => exact Nat.le_succ_of_le (List.length_filter_le ..)
  | find val memory => exact Nat.le_succ _
  | listAt index memory => exact Nat.le_succ _
  | iteratorNew memory direction => cases memory <;> exact Nat.le_succ _
  | iteratorNext i => cases hit : m.iterators i <;> simp [act, hit]
  | iteratorDestroy i => exact Nat.le_succ _

/-- A list is never longer than the number of operations so far. -/
theorem along_length {fuel : ℕ} {ops : List (Op A V I)} {m : Entries A V I}
    (h : m.items.length + ops.length < fuel) :
    Along (act free matcher) (fun m _ => m.items.length < fuel) ops m := by
  induction ops generalizing m with
  | nil => trivial
  | cons op ops ih =>
    have hlen : (act free matcher op m).1.items.length ≤ m.items.length + 1 := length_act op m
    rw [List.length_cons] at h
    exact ⟨by omega, ih (by omega)⟩

theorem run_represents {fuel : ℕ} {ops : List (Op A V I)} (hfuel : ops.length < fuel)
    (hallowed : Along (act free matcher) Allowed ops Entries.empty) :
    ∃ s, runAttempts (attempt fuel) ops (start free matcher) =
        some (s, (run (act free matcher) ops Entries.empty).2) ∧
      Represents free matcher s (run (act free matcher) ops Entries.empty).1 := by
  have hlength : Along (act free matcher) (fun m _ => m.items.length < fuel) ops Entries.empty :=
    along_length (by rwa [Entries.empty, List.length_nil, Nat.zero_add])
  refine runAttempts_refines ?_ start_represents (hallowed.and hlength)
  intro s m op h hcond
  exact attempt_represents h hcond.1 hcond.2

/-- In every run the list is that of its entries: both walks, the counter and the ends are
those of the entries, each node has its value, and every operation returns what it returns
for the entries. -/
theorem lists_represent (free : Bool) (matcher : Option (V → V → Bool)) (ops : List (Op A V I))
    (fuel : ℕ) (hfuel : ops.length < fuel)
    (hallowed : Along (act free matcher) Allowed ops Entries.empty) :
    ∃ s, runAttempts (attempt fuel) ops (start free matcher) =
        some (s, (run (act free matcher) ops Entries.empty).2) ∧
      let items := (run (act free matcher) ops Entries.empty).1.items
      Walks Cell.next s.heap s.list.head (items.map Prod.fst) ∧
      Walks Cell.prev s.heap s.list.tail (items.map Prod.fst).reverse ∧
      (∀ x ∈ items, ∃ c, s.heap x.1 = some c ∧ c.val = x.2) ∧
      s.list.len.toNat = items.length ∧
      s.list.head = items.head?.map Prod.fst ∧ s.list.tail = items.getLast?.map Prod.fst ∧
      (s.list.head = none ↔ items = []) ∧ (s.list.tail = none ↔ items = []) := by
  obtain ⟨s, hrun, h⟩ := run_represents hfuel hallowed
  have hlinked := h.holds.linked
  refine ⟨s, hrun, hlinked.walks_next, ?_, fun x hx => hlinked.segment.cell hx, h.holds.len_eq,
    hlinked.head_eq.trans first_eq_head?, hlinked.tail_eq.trans last_eq_getLast?,
    hlinked.ends_none⟩
  rw [← List.map_reverse]
  exact hlinked.walks_prev

/-- The second of three nodes is removed right after an iterator has returned it. -/
theorem lists_represent_removal :
    ∃ s, runAttempts (attempt 14)
        [.listNodeNew (some 0) 5, .rpush (some 0), .listNodeNew (some 1) 6, .lpush (some 1),
          .listNodeNew (some 2) 7, .rpush (some 2), .iteratorNew (some 0) .listHead,
          .iteratorNext 0, .iteratorNext 0, .remove 0, .iteratorNext 0, .find 5 true,
          .listAt (-1) true] (start false none : Store ℕ ℕ ℕ) =
        some (s, [.node (some 0), .node (some 0), .node (some 1), .node (some 1), .node (some 2),
          .node (some 2), .iterator (some 0), .node (some 1), .node (some 0), .done,
          .node (some 2), .node none, .node (some 2)]) ∧
      Walks Cell.next s.heap s.list.head [1, 2] ∧ s.list.len.toNat = 2 := by
  obtain ⟨s, hrun, hnext, -, -, hlen, -⟩ := lists_represent false none
    [.listNodeNew (some 0) 5, .rpush (some 0), .listNodeNew (some 1) 6, .lpush (some 1),
      .listNodeNew (some 2) 7, .rpush (some 2), .iteratorNew (some 0) .listHead,
      .iteratorNext 0, .iteratorNext 0, .remove 0, .iteratorNext 0, .find 5 true,
      .listAt (-1) true] 14 (by decide) (by decide)
  exact ⟨s, hrun, hnext, hlen⟩

end Runs

section Iterations
variable {free : Bool} {matcher : Option (V → V → Bool)} [DecidableEq V] [DecidableEq I]
  {m : Entries A V I} {i : I} {direction : ListDirection} {seen rest : List (A × V)}

/-- A loop over entries that removes some, each right after the iterator has returned it. -/
def sweep (i : I) (drop : A × V → Bool) : List (A × V) → List (Op A V I)
  | [] => [.iteratorNext i]
  | x :: rest =>
      .iteratorNext i :: ((if drop x then [.remove x.1] else []) ++ sweep i drop rest)

/-- What the operations of the loop return: every entry once, and then null. -/
def visits (drop : A × V → Bool) : List (A × V) → List (Reply A I)
  | [] => [.node none]
  | x :: rest => .node x.1 :: ((if drop x then [.done] else []) ++ visits drop rest)

omit [DecidableEq A] [DecidableEq V] in
theorem ordered_filter (keep : A × V → Bool) (items : List (A × V)) :
    ordered direction (items.filter keep) = (ordered direction items).filter keep := by
  cases direction with
  | listHead => rfl
  | listTail => exact (List.filter_reverse ..).symm

/-- A loop meets each entry once, in the order of its iterator, and leaves those that it does not
remove. -/
theorem run_sweep (drop : A × V → Bool) (hnodup : ((seen ++ rest).map Prod.fst).Nodup)
    (hit : m.iterators i = some ⟨first none rest, direction⟩)
    (hitems : ordered direction m.items = seen ++ rest) :
    (run (act free matcher) (sweep i drop rest) m).2 = visits drop rest ∧
      ordered direction (run (act free matcher) (sweep i drop rest) m).1.items =
        seen ++ rest.filter (fun x => !drop x) := by
  induction rest generalizing m seen with
  | nil =>
    simpa [sweep, visits, act, hit] using hitems
  | cons x rest ih =>
    have hparts := hnodup
    rw [List.map_append, List.map_cons, List.nodup_append, List.nodup_cons] at hparts
    have hseen (y : A × V) (hy : y ∈ seen) : y.1 ≠ x.1 :=
      hparts.2.2 _ (List.mem_map_of_mem hy) _ List.mem_cons_self
    have hrest (y : A × V) (hy : y ∈ rest) : y.1 ≠ x.1 :=
      fun heq => hparts.2.1.1 (heq ▸ List.mem_map_of_mem hy)
    have hafter : after x.1 (ordered direction m.items) = first none rest := by
      rw [hitems]
      refine after_append fun hmem => ?_
      obtain ⟨y, hy, heq⟩ := List.mem_map.mp hmem
      exact hseen y hy heq
    have hnext : act free matcher (.iteratorNext i) m =
        ({ m with iterators := Function.update m.iterators i (some ⟨first none rest, direction⟩) },
          [.node x.1]) := by
      simp only [act, hit, first_cons, Option.bind_some, hafter]
    cases hdrop : drop x with
    | false =>
      have hsplit : ((seen ++ [x]) ++ rest) = seen ++ x :: rest := List.append_cons .. |>.symm
      have hlater := @ih { m with
          iterators := Function.update m.iterators i (some ⟨first none rest, direction⟩) }
        (seen ++ [x]) (hsplit ▸ hnodup) (Function.update_self ..) (hsplit ▸ hitems)
      simpa [sweep, visits, hdrop, hnext] using hlater
    | true =>
      have hleft : ordered direction (m.items.filter fun y => y.1 ≠ x.1) = seen ++ rest := by
        rw [ordered_filter, hitems, List.filter_append, List.filter_cons_of_neg (by simp),
          List.filter_eq_self.mpr (by simpa using hseen),
          List.filter_eq_self.mpr (by simpa using hrest)]
      have hlater := @ih (act free matcher (.remove x.1) { m with
          iterators := Function.update m.iterators i (some ⟨first none rest, direction⟩) }).1
        seen (hnodup.sublist (by simp)) (Function.update_self ..) hleft
      rw [sweep, if_pos hdrop, List.singleton_append, run_cons, hnext, run_cons, visits,
        if_pos hdrop, List.filter_cons_of_neg (by simp [hdrop])]
      exact ⟨congrArg (fun replies => [Reply.node (some x.1), Reply.done] ++ replies) hlater.1,
        hlater.2⟩

end Iterations

section Overflow

def pushes : ℕ → List (Op ℕ ℕ ℕ)
  | 0 => []
  | n + 1 => pushes n ++ [.listNodeNew (some n) 0, .rpush (some n)]

theorem length_pushes (n : ℕ) : (pushes n).length = 2 * n := by
  induction n with
  | zero => rfl
  | succ n ih =>
    rw [pushes, List.length_append, ih]
    rfl

/-- The entries after so many pushes. -/
theorem run_pushes (n : ℕ) :
    let entries := (run (act false none) (pushes n) Entries.empty).1
    entries.items = (List.range n).map (fun a => (a, 0)) ∧ ∀ a ≥ n, entries.held a = none := by
  induction n with
  | zero => exact ⟨rfl, fun _ _ => rfl⟩
  | succ n ih =>
    obtain ⟨hitems, hheld⟩ := ih
    rw [pushes, run_append]
    constructor
    · simp [act, Entries.put, hitems, List.range_succ]
    · intro a ha
      have hne : a ≠ n := by omega
      simp [act, Entries.put, hne, hheld a (by omega)]

theorem pushes_allowed {n : ℕ} (hn : n < 2 ^ 32) :
    Along (act false none) Allowed (pushes n) Entries.empty := by
  induction n with
  | zero => trivial
  | succ n ih =>
    obtain ⟨hitems, hheld⟩ := run_pushes n
    rw [pushes, along_append]
    refine ⟨ih (by omega), ?_, ?_, trivial⟩
    · rintro a ⟨⟩
      exact ⟨hheld n (Nat.le_refl n), by simp [hitems]⟩
    · rintro a ⟨⟩
      refine ⟨by simp [act], ?_⟩
      simpa [act, hitems] using hn

/-- With the last node the counter goes back to zero. -/
theorem pushes_overflow {n fuel : ℕ} (hn : n + 1 = 2 ^ 32) (hfuel : (pushes n).length < fuel) :
    ∃ s, (runAttempts (attempt fuel) (pushes (n + 1)) (start false none)).map Prod.fst = some s ∧
      Walks Cell.next s.heap s.list.head (List.range (n + 1)) ∧ s.list.len = 0 := by
  obtain ⟨hitems, hheld⟩ := run_pushes n
  obtain ⟨s, hrun, h⟩ := run_represents hfuel (pushes_allowed (n := n) (by omega))
  have hfresh : Allowed (run (act false none) (pushes n) Entries.empty).1
      (.listNodeNew (some n) 0 : Op ℕ ℕ ℕ) := by
    rintro a ⟨⟩
    exact ⟨hheld n (Nat.le_refl n), by simp [hitems]⟩
  have hshort : (run (act false none) (pushes n) Entries.empty).1.items.length < fuel := by
    rw [length_pushes] at hfuel
    rw [hitems, List.length_map, List.length_range]
    omega
  obtain ⟨s₁, hnew, h₁⟩ := attempt_represents h hfresh hshort
  obtain ⟨hout, c, hc, -⟩ := h₁.held n 0 (by simp [act])
  obtain ⟨s₂, hpush, hlinked, hlen, -⟩ := rpush_linked h₁.holds hc hout
  refine ⟨s₂, ?_, ?_, ?_⟩
  · rw [pushes, runAttempts_append, hrun, Option.bind_some, runAttempts, hnew, Option.bind_some,
      runAttempts, attempt, hpush]
    rfl
  · have hwalk := hlinked.walks_next
    simpa [act, hitems, List.range_succ, Function.comp_def] using hwalk
  · have hcount := h₁.holds.len_eq
    rw [← UInt32.toNat_inj, hlen, UInt32.toNat_add, hcount]
    simp [act, hitems, hn]

/-- Without memory for the iterator a node of the list is not found, and with the node number
2^32 the counter is zero again. -/
theorem lists_wrong :
    (∃ s, runAttempts (attempt 4) [.listNodeNew (some 0) 5, .rpush (some 0), .find 5 false]
          (start false none : Store ℕ ℕ ℕ) =
        some (s, [.node (some 0), .node (some 0), .node none]) ∧
      s.list.head = some 0 ∧ (s.heap 0).map Cell.val = some 5) ∧
    ∃ s, (runAttempts (attempt (2 ^ 34)) (pushes (2 ^ 32)) (start false none)).map Prod.fst =
        some s ∧
      Walks Cell.next s.heap s.list.head (List.range (2 ^ 32)) ∧ s.list.len = 0 := by
  refine ⟨⟨_, rfl, rfl, rfl⟩, ?_⟩
  have hfuel : (pushes (2 ^ 32 - 1)).length < 2 ^ 34 := by
    rw [length_pushes]
    omega
  exact pushes_overflow (by omega) hfuel

end Overflow

end IotExplorer.NodeListRuns
