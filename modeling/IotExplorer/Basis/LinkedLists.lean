import Mathlib.Data.List.Nodup
import Mathlib.Logic.Function.Basic

/-!
Doubly linked lists in a heap. A heap gives an address its cell, if one is there. A
segment is a stretch of a list between two outer pointers; segments are joined and cut,
a write outside a segment leaves it alone, and the pointer at either end of it can be
turned. The addresses that are met on a walk along the pointers are those of the list.
-/
namespace IotExplorer.Basis.LinkedLists

structure Cell (A V : Type*) where
  prev : Option A
  next : Option A
  val : V

abbrev Heap (A V : Type*) := A → Option (Cell A V)

variable {A V : Type*}

section Segments

/-- The address of the first entry, or what comes behind an empty list. -/
def first (n : Option A) : List (A × V) → Option A
  | [] => n
  | x :: _ => some x.1

/-- The address of the last entry, or what comes in front of an empty list. -/
def last (p : Option A) : List (A × V) → Option A
  | [] => p
  | x :: xs => last (some x.1) xs

/-- The cells of the entries point to each other, and outwards to `p` and `n`. -/
def Segment (h : Heap A V) : Option A → List (A × V) → Option A → Prop
  | _, [], _ => True
  | p, x :: xs, n => h x.1 = some ⟨p, first n xs, x.2⟩ ∧ Segment h (some x.1) xs n

variable {h h' : Heap A V} {p n : Option A} {x : A × V} {xs ys : List (A × V)}

@[simp] theorem first_nil : first n ([] : List (A × V)) = n := rfl

@[simp] theorem first_cons : first n (x :: xs) = some x.1 := rfl

@[simp] theorem last_nil : last p ([] : List (A × V)) = p := rfl

@[simp] theorem last_cons : last p (x :: xs) = last (some x.1) xs := rfl

theorem first_append : first n (xs ++ ys) = first (first n ys) xs := by
  cases xs <;> rfl

theorem last_append : last p (xs ++ ys) = last (last p xs) ys := by
  induction xs generalizing p with
  | nil => rfl
  | cons x xs ih => exact ih

theorem last_concat : last p (xs ++ [x]) = some x.1 := last_append

theorem first_eq_head? : first none xs = xs.head?.map Prod.fst := by
  cases xs <;> rfl

theorem last_eq_getLast? : last none xs = xs.getLast?.map Prod.fst := by
  rcases List.eq_nil_or_concat xs with rfl | ⟨l, x, rfl⟩
  · rfl
  · rw [List.concat_eq_append, last_concat, List.getLast?_concat, Option.map_some]

theorem first_reverse : first none xs.reverse = last none xs := by
  rw [first_eq_head?, last_eq_getLast?, List.head?_reverse]

theorem segment_append :
    Segment h p (xs ++ ys) n ↔ Segment h p xs (first n ys) ∧ Segment h (last p xs) ys n := by
  induction xs generalizing p with
  | nil => simp [Segment]
  | cons x xs ih =>
    simp only [List.cons_append, Segment, last_cons, ih, first_append, and_assoc]

theorem segment_concat :
    Segment h p (xs ++ [x]) n ↔ Segment h p xs (some x.1) ∧ h x.1 = some ⟨last p xs, n, x.2⟩ := by
  rw [segment_append]
  simp [Segment]

/-- A segment depends on the cells of its own entries only. -/
theorem Segment.congr (hseg : Segment h p xs n) (hsame : ∀ a ∈ xs.map Prod.fst, h' a = h a) :
    Segment h' p xs n := by
  induction xs generalizing p with
  | nil => trivial
  | cons x xs ih =>
    obtain ⟨hx, hxs⟩ := hseg
    refine ⟨(hsame x.1 List.mem_cons_self).trans hx, ih hxs fun a ha => ?_⟩
    exact hsame a (List.mem_cons_of_mem x.1 ha)

/-- Each entry of a segment has a cell with its value. -/
theorem Segment.cell (hseg : Segment h p xs n) (hx : x ∈ xs) :
    ∃ c, h x.1 = some c ∧ c.val = x.2 := by
  obtain ⟨l, r, rfl⟩ := List.append_of_mem hx
  exact ⟨_, (segment_append.mp hseg).2.1, rfl⟩

end Segments

section Writes
variable [DecidableEq A] {h : Heap A V} {p n : Option A} {a : A} {c : Cell A V}
  {xs : List (A × V)}

def store (h : Heap A V) (a : A) (c : Option (Cell A V)) : Heap A V := Function.update h a c

/-- The pointer to the previous cell is written, if there is a cell. -/
def setPrev (h : Heap A V) (a p : Option A) : Option (Heap A V) :=
  a.bind fun a => (h a).map fun c => store h a (some { c with prev := p })

/-- The pointer to the next cell is written, if there is a cell. -/
def setNext (h : Heap A V) (a n : Option A) : Option (Heap A V) :=
  a.bind fun a => (h a).map fun c => store h a (some { c with next := n })

@[simp] theorem store_self {c : Option (Cell A V)} : store h a c a = c := by
  simp [store]

theorem store_of_ne {b : A} {c : Option (Cell A V)} (hne : b ≠ a) : store h a c b = h b := by
  simp [store, hne]

@[simp] theorem store_store {c d : Option (Cell A V)} : store (store h a c) a d = store h a d := by
  simp [store]

theorem setPrev_some (hc : h a = some c) :
    setPrev h (some a) p = some (store h a (some { c with prev := p })) := by
  simp [setPrev, hc]

theorem setNext_some (hc : h a = some c) :
    setNext h (some a) n = some (store h a (some { c with next := n })) := by
  simp [setNext, hc]

theorem Segment.stored (hseg : Segment h p xs n) {c : Option (Cell A V)}
    (ha : a ∉ xs.map Prod.fst) : Segment (store h a c) p xs n :=
  hseg.congr fun _ hb => store_of_ne fun heq => ha (heq ▸ hb)

/-- The pointer at the end of a segment is turned. -/
theorem Segment.turn_next (hseg : Segment h p xs n) (hnodup : (xs.map Prod.fst).Nodup)
    (hne : xs ≠ []) (m : Option A) :
    ∃ h', setNext h (last p xs) m = some h' ∧ Segment h' p xs m ∧
      ∀ a ∉ xs.map Prod.fst, h' a = h a := by
  obtain ⟨l, x, rfl⟩ := (List.eq_nil_or_concat' xs).resolve_left hne
  obtain ⟨hl, hx⟩ := segment_concat.mp hseg
  rw [List.map_append, List.map_singleton, List.nodup_append] at hnodup
  have hout : x.1 ∉ l.map Prod.fst :=
    fun hmem => hnodup.2.2 _ hmem _ (List.mem_singleton_self _) rfl
  refine ⟨_, last_concat ▸ setNext_some hx, segment_concat.mpr ⟨hl.stored hout, store_self⟩, ?_⟩
  intro a ha
  exact store_of_ne fun heq => ha (heq ▸ List.mem_map_of_mem (by simp))

/-- The pointer at the beginning of a segment is turned. -/
theorem Segment.turn_prev (hseg : Segment h p xs n) (hnodup : (xs.map Prod.fst).Nodup)
    (hne : xs ≠ []) (q : Option A) :
    ∃ h', setPrev h (first n xs) q = some h' ∧ Segment h' q xs n ∧
      ∀ a ∉ xs.map Prod.fst, h' a = h a := by
  obtain ⟨x, r, rfl⟩ := List.exists_cons_of_ne_nil hne
  obtain ⟨hx, hr⟩ := hseg
  have hout : x.1 ∉ r.map Prod.fst := (List.nodup_cons.mp hnodup).1
  refine ⟨_, setPrev_some hx, ⟨store_self, hr.stored hout⟩, ?_⟩
  intro a ha
  exact store_of_ne fun heq => ha (heq ▸ List.mem_cons_self)

end Writes

section Lists

/-- The heap holds this list between these two ends. -/
structure Linked (h : Heap A V) (head tail : Option A) (xs : List (A × V)) : Prop where
  segment : Segment h none xs none
  nodup : (xs.map Prod.fst).Nodup
  head_eq : head = first none xs
  tail_eq : tail = last none xs

/-- A walk from a pointer along one kind of pointers meets these addresses, and ends. -/
inductive Walks (follow : Cell A V → Option A) (h : Heap A V) : Option A → List A → Prop
  | ends : Walks follow h none []
  | meets {a : A} {c : Cell A V} {as : List A} :
      h a = some c → Walks follow h (follow c) as → Walks follow h (some a) (a :: as)

variable {h : Heap A V} {head tail p n : Option A} {xs : List (A × V)} {as : List A}

theorem Segment.walks_next (hseg : Segment h p xs n) (hwalk : Walks Cell.next h n as) :
    Walks Cell.next h (first n xs) (xs.map Prod.fst ++ as) := by
  induction xs generalizing p with
  | nil => exact hwalk
  | cons x xs ih => exact .meets hseg.1 (ih hseg.2)

theorem Segment.walks_prev (hseg : Segment h p xs n) (hwalk : Walks Cell.prev h p as) :
    Walks Cell.prev h (last p xs) ((xs.map Prod.fst).reverse ++ as) := by
  induction xs generalizing p as with
  | nil => exact hwalk
  | cons x xs ih =>
    rw [List.map_cons, List.reverse_cons, List.append_assoc]
    exact ih hseg.2 (.meets hseg.1 hwalk)

theorem Linked.walks_next (hlinked : Linked h head tail xs) :
    Walks Cell.next h head (xs.map Prod.fst) := by
  have hwalk := hlinked.segment.walks_next .ends
  rwa [List.append_nil, ← hlinked.head_eq] at hwalk

theorem Linked.walks_prev (hlinked : Linked h head tail xs) :
    Walks Cell.prev h tail (xs.reverse.map Prod.fst) := by
  have hwalk := hlinked.segment.walks_prev .ends
  rwa [List.append_nil, ← hlinked.tail_eq, ← List.map_reverse] at hwalk

theorem linked_nil (h : Heap A V) : Linked h none none ([] : List (A × V)) :=
  ⟨trivial, List.nodup_nil, rfl, rfl⟩

/-- Both ends are null exactly for the empty list. -/
theorem Linked.ends_none (hlinked : Linked h head tail xs) :
    (head = none ↔ xs = []) ∧ (tail = none ↔ xs = []) := by
  rw [hlinked.head_eq, hlinked.tail_eq, first_eq_head?, last_eq_getLast?]
  simp

end Lists

section Successors
variable [DecidableEq A] {a : A} {x : A × V} {xs l r : List (A × V)}

def after (a : A) : List (A × V) → Option A
  | [] => none
  | x :: xs => if x.1 = a then first none xs else after a xs

theorem after_append (hx : x.1 ∉ l.map Prod.fst) : after x.1 (l ++ x :: r) = first none r := by
  induction l with
  | nil => exact if_pos rfl
  | cons y l ih =>
    rw [List.map_cons, List.mem_cons, not_or] at hx
    exact (if_neg (Ne.symm hx.1)).trans (ih hx.2)

theorem after_reverse (hx : x.1 ∉ r.map Prod.fst) :
    after x.1 (l ++ x :: r).reverse = last none l := by
  rw [List.reverse_append, List.reverse_cons, List.append_assoc, List.singleton_append,
    after_append (by rwa [List.map_reverse, List.mem_reverse]), first_reverse]

end Successors

end IotExplorer.Basis.LinkedLists
