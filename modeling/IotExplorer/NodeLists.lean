import IotExplorer.Basis.LinkedLists
import IotExplorer.Basis.Runs
import Mathlib.Algebra.Group.Nat.Defs

/-!
The list of the utilities, a doubly linked list with a counter of 32 bits, and its
iterators. Addresses are those of the nodes; a null pointer is `none`. An access through a
null pointer or to a node that has been released makes a function fail, as does a
search that does not end with its fuel.
-/
namespace IotExplorer.NodeLists

open Basis.LinkedLists Basis.Runs

inductive ListDirection where
  | listHead | listTail
  deriving DecidableEq

structure ListIterator (A : Type*) where
  next : Option A
  direction : ListDirection
  deriving DecidableEq

/-- `List`; of the function that releases a value only whether it is there. -/
structure NodeList (A V : Type*) where
  head : Option A
  tail : Option A
  len : UInt32
  free : Bool
  matcher : Option (V → V → Bool)

/-- The memory: the list, the nodes, the iterators that are in use, and the values that
were handed to the function that releases them. -/
structure Store (A V I : Type*) where
  list : NodeList A V
  heap : Heap A V
  iterators : I → Option (ListIterator A)
  freed : List V

section Functions
variable {A V I : Type*} [DecidableEq A] [DecidableEq V] [DecidableEq I]

/-- `qcloud_list_new`, with the two functions that its callers set. -/
def qcloudListNew (free : Bool) (matcher : Option (V → V → Bool)) : NodeList A V :=
  ⟨none, none, 0, free, matcher⟩

/-- `list_node_new`, with the address that HAL_Malloc returns. -/
def listNodeNew (s : Store A V I) (memory : Option A) (val : V) : Store A V I × Option A :=
  match memory with
  | none => (s, none)
  | some self => ({ s with heap := store s.heap self (some ⟨none, none, val⟩) }, some self)

def qcloudListRpush (s : Store A V I) (node : Option A) : Option (Store A V I × Option A) :=
  if node = none then some (s, none)
  else if s.list.len ≠ 0 then
    (setPrev s.heap node s.list.tail).bind fun heap =>
    (setNext heap node none).bind fun heap =>
    (setNext heap s.list.tail node).map fun heap =>
    ({ s with heap := heap, list := { s.list with tail := node, len := s.list.len + 1 } }, node)
  else
    (setNext s.heap node none).bind fun heap =>
    (setPrev heap node none).map fun heap =>
    ({ s with
        heap := heap
        list := { s.list with head := node, tail := node, len := s.list.len + 1 } }, node)

def qcloudListLpush (s : Store A V I) (node : Option A) : Option (Store A V I × Option A) :=
  if node = none then some (s, none)
  else if s.list.len ≠ 0 then
    (setNext s.heap node s.list.head).bind fun heap =>
    (setPrev heap node none).bind fun heap =>
    (setPrev heap s.list.head node).map fun heap =>
    ({ s with heap := heap, list := { s.list with head := node, len := s.list.len + 1 } }, node)
  else
    (setNext s.heap node none).bind fun heap =>
    (setPrev heap node none).map fun heap =>
    ({ s with
        heap := heap
        list := { s.list with head := node, tail := node, len := s.list.len + 1 } }, node)

/-- A cell is read, if there is one. -/
def load (heap : Heap A V) (node : Option A) : Option (Cell A V) := node.bind heap

/-- `node->next = node->prev = NULL`, with which both pops end. -/
def detach (s : Store A V I) (node : Option A) : Option (Store A V I × Option A) :=
  (setPrev s.heap node none).bind fun heap =>
  (setNext heap node none).map fun heap => ({ s with heap := heap }, node)

def qcloudListRpop (s : Store A V I) : Option (Store A V I × Option A) :=
  if s.list.len = 0 then some (s, none)
  else
    let node := s.list.tail
    let len := s.list.len - 1
    if len ≠ 0 then
      (load s.heap node).bind fun cell =>
      (setNext s.heap cell.prev none).bind fun heap =>
      detach { s with heap := heap, list := { s.list with tail := cell.prev, len := len } } node
    else detach { s with list := { s.list with head := none, tail := none, len := len } } node

def qcloudListLpop (s : Store A V I) : Option (Store A V I × Option A) :=
  if s.list.len = 0 then some (s, none)
  else
    let node := s.list.head
    let len := s.list.len - 1
    if len ≠ 0 then
      (load s.heap node).bind fun cell =>
      (setPrev s.heap cell.next none).bind fun heap =>
      detach { s with heap := heap, list := { s.list with head := cell.next, len := len } } node
    else detach { s with list := { s.list with head := none, tail := none, len := len } } node

/-- The node in front of a node that is removed, or the head of the list, goes past it. -/
def passForward (s : Store A V I) (node : Cell A V) : Option (Store A V I) :=
  match node.prev with
  | some prev => (setNext s.heap (some prev) node.next).map fun heap => { s with heap := heap }
  | none => some { s with list := { s.list with head := node.next } }

/-- The node behind a node that is removed, or the tail of the list, goes past it. -/
def passBackward (s : Store A V I) (node : Cell A V) : Option (Store A V I) :=
  match node.next with
  | some next => (setPrev s.heap (some next) node.prev).map fun heap => { s with heap := heap }
  | none => some { s with list := { s.list with tail := node.prev } }

def qcloudListRemove (s : Store A V I) (node : A) : Option (Store A V I) :=
  (s.heap node).bind fun cell =>
  (passForward s cell).bind fun s =>
  (s.heap node).bind fun cell =>
  (passBackward s cell).bind fun s =>
  (s.heap node).map fun cell =>
  { s with
    heap := store s.heap node none
    freed := if s.list.free then s.freed ++ [cell.val] else s.freed
    list := { s.list with len := if s.list.len ≠ 0 then s.list.len - 1 else s.list.len } }

/-- `qcloud_list_iterator_new_from_node`, with whether there is memory. -/
def qcloudListIteratorNewFromNode (memory : Bool) (node : Option A) (direction : ListDirection) :
    Option (ListIterator A) :=
  if memory then some ⟨node, direction⟩ else none

def qcloudListIteratorNew (memory : Bool) (list : NodeList A V) (direction : ListDirection) :
    Option (ListIterator A) :=
  let node := if direction = .listHead then list.head else list.tail
  qcloudListIteratorNewFromNode memory node direction

def qcloudListIteratorNext (heap : Heap A V) (self : ListIterator A) :
    Option (ListIterator A × Option A) :=
  match self.next with
  | none => some (self, none)
  | some curr =>
      (heap curr).map fun cell =>
      ({ self with next := if self.direction = .listHead then cell.next else cell.prev }, some curr)

/-- The loop of `qcloud_list_find`, from the call that gets the next node. -/
def findLoop (heap : Heap A V) (matcher : Option (V → V → Bool)) (val : V) :
    ℕ → ListIterator A → Option (Option A)
  | 0, _ => none
  | fuel + 1, it =>
      (qcloudListIteratorNext heap it).bind fun (it, node) =>
      match node with
      | none => some none
      | some node =>
          (heap node).bind fun cell =>
          match matcher with
          | some f => if f val cell.val then some (some node) else findLoop heap matcher val fuel it
          | none => if val = cell.val then some (some node) else findLoop heap matcher val fuel it

def qcloudListFind (fuel : ℕ) (s : Store A V I) (val : V) (memory : Bool) : Option (Option A) :=
  match qcloudListIteratorNew memory s.list .listHead with
  | none => some none
  | some it => findLoop s.heap s.list.matcher val fuel it

/-- The loop of `qcloud_list_at`, which goes on so many nodes. -/
def atLoop (heap : Heap A V) : ℕ → ListIterator A → Option A → Option (Option A)
  | 0, _, node => some node
  | index + 1, it, _ =>
      (qcloudListIteratorNext heap it).bind fun (it, node) => atLoop heap index it node

def qcloudListAt (s : Store A V I) (index : Int32) (memory : Bool) : Option (Option A) :=
  let direction := if index < 0 then .listTail else .listHead
  let index := if index < 0 then ~~~index else index
  if index.toUInt32 < s.list.len then
    match qcloudListIteratorNew memory s.list direction with
    | none => some none
    | some it =>
        (qcloudListIteratorNext s.heap it).bind fun (it, node) =>
        atLoop s.heap index.toUInt32.toNat it node
  else some none

end Functions

section Specifications
variable {A V I : Type*} {s s' : Store A V I} {items l r : List (A × V)}

/-- The memory holds this list, and the counter counts it. -/
structure Holds (s : Store A V I) (items : List (A × V)) : Prop where
  linked : Linked s.heap s.list.head s.list.tail items
  len_eq : s.list.len.toNat = items.length

/-- Only the list, apart from its functions, and the nodes at these addresses have changed. -/
structure Frame (s s' : Store A V I) (touched : List A) : Prop where
  heap : ∀ a ∉ touched, s'.heap a = s.heap a
  iterators : s'.iterators = s.iterators
  free : s'.list.free = s.list.free
  matcher : s'.list.matcher = s.list.matcher

theorem len_succ {len : UInt32} {n : ℕ} (hlen : len.toNat = n) (hroom : n + 1 < 2 ^ 32) :
    (len + 1).toNat = n + 1 := by
  have hone : (1 : UInt32).toNat = 1 := rfl
  rw [UInt32.toNat_add, hlen, hone, Nat.mod_eq_of_lt hroom]

theorem len_pred {len : UInt32} {n : ℕ} (hlen : len.toNat = n + 1) : (len - 1).toNat = n := by
  have hone : (1 : UInt32).toNat = 1 := rfl
  have hle : (1 : UInt32) ≤ len := by
    rw [UInt32.le_iff_toNat_le, hone]
    omega
  rw [UInt32.toNat_sub_of_le _ _ hle, hlen, hone, Nat.add_sub_cancel]

theorem len_zero {len : UInt32} {n : ℕ} (hlen : len.toNat = n) : len = 0 ↔ n = 0 := by
  rw [← UInt32.toNat_inj, hlen]
  rfl

theorem Holds.len_zero (hs : Holds s items) : s.list.len = 0 ↔ items = [] := by
  rw [NodeLists.len_zero hs.len_eq, List.length_eq_zero_iff]

/-- The cell in the middle of a list. -/
theorem Holds.cell {x : A × V} (hs : Holds s (l ++ x :: r)) :
    s.heap x.1 = some ⟨last none l, first none r, x.2⟩ :=
  (segment_append.mp hs.linked.segment).2.1

section Changes
variable [DecidableEq A] {a : A} {c : Cell A V} {x : A × V}

/-- A node is put behind the others; the counter goes on by one, back to zero at its bound. -/
theorem rpush_linked (hs : Holds s items) (hc : s.heap a = some c) (hout : a ∉ items.map Prod.fst) :
    ∃ s', qcloudListRpush s (some a) = some (s', some a) ∧
      Linked s'.heap s'.list.head s'.list.tail (items ++ [(a, c.val)]) ∧
      s'.list.len = s.list.len + 1 ∧ Frame s s' (a :: items.map Prod.fst) ∧ s'.freed = s.freed := by
  unfold qcloudListRpush
  rw [if_neg (Option.some_ne_none a)]
  by_cases hempty : items = []
  · subst hempty
    rw [if_neg (not_not.mpr (hs.len_zero.mpr rfl)), setNext_some hc, Option.bind_some,
      setPrev_some store_self, store_store]
    refine ⟨_, rfl, ⟨⟨store_self, trivial⟩, List.nodup_singleton a, rfl, rfl⟩, rfl, ?_, rfl⟩
    exact ⟨fun b hb => store_of_ne (List.ne_of_not_mem_cons hb), rfl, rfl, rfl⟩
  · rw [if_pos (mt hs.len_zero.mp hempty), setPrev_some hc, Option.bind_some,
      setNext_some store_self, store_store, Option.bind_some, hs.linked.tail_eq]
    obtain ⟨heap, hwrite, hseg, hsame⟩ :=
      (hs.linked.segment.stored hout).turn_next hs.linked.nodup hempty (some a)
    rw [hwrite]
    have hnew := (hsame a hout).trans store_self
    refine ⟨_, rfl, ⟨segment_concat.mpr ⟨hseg, hnew⟩, ?_, ?_, ?_⟩, rfl, ?_, rfl⟩
    · rw [List.map_append, List.map_singleton, ← List.concat_eq_append]
      exact hs.linked.nodup.concat hout
    · rw [hs.linked.head_eq, first_append]
      obtain ⟨x, xs, rfl⟩ := List.exists_cons_of_ne_nil hempty
      rfl
    · exact (last_concat (x := (a, c.val))).symm
    · refine ⟨fun b hb => ?_, rfl, rfl, rfl⟩
      rw [List.mem_cons, not_or] at hb
      exact (hsame b hb.2).trans (store_of_ne hb.1)

theorem rpush_holds (hs : Holds s items) (hc : s.heap a = some c) (hout : a ∉ items.map Prod.fst)
    (hroom : items.length + 1 < 2 ^ 32) :
    ∃ s', qcloudListRpush s (some a) = some (s', some a) ∧ Holds s' (items ++ [(a, c.val)]) ∧
      Frame s s' (a :: items.map Prod.fst) ∧ s'.freed = s.freed := by
  obtain ⟨s', hpush, hlinked, hlen, hframe⟩ := rpush_linked hs hc hout
  refine ⟨s', hpush, ⟨hlinked, ?_⟩, hframe⟩
  rw [hlen, List.length_append]
  exact len_succ hs.len_eq hroom

theorem lpush_holds (hs : Holds s items) (hc : s.heap a = some c) (hout : a ∉ items.map Prod.fst)
    (hroom : items.length + 1 < 2 ^ 32) :
    ∃ s', qcloudListLpush s (some a) = some (s', some a) ∧ Holds s' ((a, c.val) :: items) ∧
      Frame s s' (a :: items.map Prod.fst) ∧ s'.freed = s.freed := by
  have hlen := len_succ hs.len_eq hroom
  unfold qcloudListLpush
  rw [if_neg (Option.some_ne_none a)]
  by_cases hempty : items = []
  · subst hempty
    rw [if_neg (not_not.mpr (hs.len_zero.mpr rfl)), setNext_some hc, Option.bind_some,
      setPrev_some store_self, store_store]
    refine ⟨_, rfl, ⟨⟨⟨store_self, trivial⟩, List.nodup_singleton a, rfl, rfl⟩, hlen⟩, ?_, rfl⟩
    exact ⟨fun b hb => store_of_ne (List.ne_of_not_mem_cons hb), rfl, rfl, rfl⟩
  · rw [if_pos (mt hs.len_zero.mp hempty), setNext_some hc, Option.bind_some,
      setPrev_some store_self, store_store, Option.bind_some, hs.linked.head_eq]
    obtain ⟨heap, hwrite, hseg, hsame⟩ :=
      (hs.linked.segment.stored hout).turn_prev hs.linked.nodup hempty (some a)
    rw [hwrite]
    have hnew := (hsame a hout).trans store_self
    have hnodup := List.nodup_cons.mpr ⟨hout, hs.linked.nodup⟩
    refine ⟨_, rfl, ⟨⟨⟨hnew, hseg⟩, hnodup, rfl, ?_⟩, hlen⟩, ?_, rfl⟩
    · obtain ⟨x, xs, rfl⟩ := List.exists_cons_of_ne_nil hempty
      exact hs.linked.tail_eq
    · refine ⟨fun b hb => ?_, rfl, rfl, rfl⟩
      rw [List.mem_cons, not_or] at hb
      exact (hsame b hb.2).trans (store_of_ne hb.1)

/-- Both pointers of the node that a pop returns are null. -/
theorem detach_some (hc : s.heap a = some c) :
    detach s (some a) =
      some ({ s with heap := store s.heap a (some ⟨none, none, c.val⟩) }, some a) := by
  rw [detach, setPrev_some hc, Option.bind_some, setNext_some store_self, store_store]
  rfl

theorem rpop_holds (hs : Holds s (l ++ [x])) :
    ∃ s', qcloudListRpop s = some (s', some x.1) ∧ Holds s' l ∧
      Frame s s' ((l ++ [x]).map Prod.fst) ∧ s'.freed = s.freed ∧
      s'.heap x.1 = some ⟨none, none, x.2⟩ := by
  have hcell := hs.cell
  obtain ⟨hl, -⟩ := segment_concat.mp hs.linked.segment
  have hlen : (s.list.len - 1).toNat = l.length := by
    refine len_pred (hs.len_eq.trans ?_)
    rw [List.length_append, List.length_singleton]
  have htail : s.list.tail = some x.1 := hs.linked.tail_eq.trans last_concat
  have hnodup := hs.linked.nodup
  rw [List.map_append, List.map_singleton, List.nodup_append] at hnodup
  have hout : x.1 ∉ l.map Prod.fst :=
    fun hmem => hnodup.2.2 _ hmem _ (List.mem_singleton_self _) rfl
  have hmem : x.1 ∈ (l ++ [x]).map Prod.fst := List.mem_map_of_mem (by simp)
  unfold qcloudListRpop
  rw [if_neg (mt hs.len_zero.mp (by simp)), htail]
  dsimp only
  by_cases hempty : l = []
  · subst hempty
    rw [if_neg (not_not.mpr ((len_zero hlen).mpr rfl))]
    refine ⟨_, detach_some hcell, ⟨linked_nil _, hlen⟩, ⟨fun b hb => ?_, rfl, rfl, rfl⟩, rfl,
      store_self⟩
    exact store_of_ne fun heq => hb (heq ▸ hmem)
  · obtain ⟨heap, hwrite, hseg, hsame⟩ := hl.turn_next hnodup.1 hempty none
    have hlast := (hsame x.1 hout).trans hcell
    rw [if_pos (mt (len_zero hlen).mp (by simpa using hempty)), load, Option.bind_some, hcell,
      Option.bind_some, hwrite, Option.bind_some]
    refine ⟨_, detach_some hlast, ⟨⟨hseg.stored hout, hnodup.1, ?_, rfl⟩, hlen⟩,
      ⟨fun b hb => ?_, rfl, rfl, rfl⟩, rfl, store_self⟩
    · obtain ⟨y, ys, rfl⟩ := List.exists_cons_of_ne_nil hempty
      exact hs.linked.head_eq
    · rw [List.map_append, List.mem_append, not_or] at hb
      exact (store_of_ne (List.ne_of_not_mem_cons hb.2)).trans (hsame b hb.1)

theorem lpop_holds (hs : Holds s (x :: r)) :
    ∃ s', qcloudListLpop s = some (s', some x.1) ∧ Holds s' r ∧
      Frame s s' ((x :: r).map Prod.fst) ∧ s'.freed = s.freed ∧
      s'.heap x.1 = some ⟨none, none, x.2⟩ := by
  obtain ⟨hcell, hr⟩ := hs.linked.segment
  have hlen : (s.list.len - 1).toNat = r.length := len_pred hs.len_eq
  have hhead : s.list.head = some x.1 := hs.linked.head_eq
  obtain ⟨hout, hnodup⟩ := List.nodup_cons.mp hs.linked.nodup
  unfold qcloudListLpop
  rw [if_neg (mt hs.len_zero.mp (List.cons_ne_nil x r)), hhead]
  dsimp only
  by_cases hempty : r = []
  · subst hempty
    rw [if_neg (not_not.mpr ((len_zero hlen).mpr rfl))]
    refine ⟨_, detach_some hcell, ⟨linked_nil _, hlen⟩, ⟨fun b hb => ?_, rfl, rfl, rfl⟩, rfl,
      store_self⟩
    exact store_of_ne (List.ne_of_not_mem_cons hb)
  · obtain ⟨heap, hwrite, hseg, hsame⟩ := hr.turn_prev hnodup hempty none
    have hfirst := (hsame x.1 hout).trans hcell
    rw [if_pos (mt (len_zero hlen).mp (by simpa using hempty)), load, Option.bind_some, hcell,
      Option.bind_some, hwrite, Option.bind_some]
    refine ⟨_, detach_some hfirst, ⟨⟨hseg.stored hout, hnodup, rfl, ?_⟩, hlen⟩,
      ⟨fun b hb => ?_, rfl, rfl, rfl⟩, rfl, store_self⟩
    · obtain ⟨y, ys, rfl⟩ := List.exists_cons_of_ne_nil hempty
      exact hs.linked.tail_eq
    · rw [List.map_cons, List.mem_cons, not_or] at hb
      exact (store_of_ne hb.1).trans (hsame b hb.2)

/-- What is in front of a node that is removed ends at what is behind it. -/
theorem passForward_some {n : Option A} (hl : Segment s.heap none l n)
    (hnodup : (l.map Prod.fst).Nodup) (hprev : c.prev = last none l)
    (hhead : s.list.head = first n l) :
    ∃ heap, passForward s c =
        some { s with heap := heap, list := { s.list with head := first c.next l } } ∧
      Segment heap none l c.next ∧ ∀ b ∉ l.map Prod.fst, heap b = s.heap b := by
  by_cases hempty : l = []
  · subst hempty
    refine ⟨s.heap, ?_, trivial, fun b _ => rfl⟩
    rw [passForward, hprev]
    rfl
  · obtain ⟨heap, hwrite, hseg, hsame⟩ := hl.turn_next hnodup hempty c.next
    refine ⟨heap, ?_, hseg, hsame⟩
    have hkeeps : first c.next l = s.list.head := by
      obtain ⟨y, ys, rfl⟩ := List.exists_cons_of_ne_nil hempty
      exact hhead.symm
    obtain ⟨b, hb⟩ : ∃ b, last none l = some b := by
      obtain ⟨ys, y, rfl⟩ := (List.eq_nil_or_concat' l).resolve_left hempty
      exact ⟨y.1, last_concat⟩
    rw [hb] at hprev hwrite
    rw [passForward, hprev, hkeeps]
    dsimp only
    rw [hwrite, Option.map_some]

/-- What is behind a node that is removed begins at what is in front of it. -/
theorem passBackward_some {p : Option A} (hr : Segment s.heap p r none)
    (hnodup : (r.map Prod.fst).Nodup) (hnext : c.next = first none r)
    (htail : s.list.tail = last p r) :
    ∃ heap, passBackward s c =
        some { s with heap := heap, list := { s.list with tail := last c.prev r } } ∧
      Segment heap c.prev r none ∧ ∀ b ∉ r.map Prod.fst, heap b = s.heap b := by
  by_cases hempty : r = []
  · subst hempty
    refine ⟨s.heap, ?_, trivial, fun b _ => rfl⟩
    rw [passBackward, hnext]
    rfl
  · obtain ⟨heap, hwrite, hseg, hsame⟩ := hr.turn_prev hnodup hempty c.prev
    refine ⟨heap, ?_, hseg, hsame⟩
    obtain ⟨y, ys, rfl⟩ := List.exists_cons_of_ne_nil hempty
    have hkeeps : last c.prev (y :: ys) = s.list.tail := htail.symm
    rw [passBackward, hnext, hkeeps]
    dsimp only [first_cons]
    rw [first_cons] at hwrite
    rw [hwrite, Option.map_some]

theorem remove_holds (hs : Holds s (l ++ x :: r)) :
    ∃ s', qcloudListRemove s x.1 = some s' ∧ Holds s' (l ++ r) ∧
      Frame s s' ((l ++ x :: r).map Prod.fst) ∧
      s'.freed = if s.list.free then s.freed ++ [x.2] else s.freed := by
  obtain ⟨hl, hcell, hr⟩ := segment_append.mp hs.linked.segment
  have hnodup := hs.linked.nodup
  rw [List.map_append, List.map_cons, List.nodup_append, List.nodup_cons] at hnodup
  obtain ⟨hnodupl, ⟨houtr, hnodupr⟩, hdisjoint⟩ := hnodup
  have houtl : x.1 ∉ l.map Prod.fst := fun hmem => hdisjoint _ hmem _ List.mem_cons_self rfl
  have hlr : ∀ b ∈ l.map Prod.fst, b ∉ r.map Prod.fst :=
    fun b hb hmem => hdisjoint b hb b (List.mem_cons_of_mem x.1 hmem) rfl
  have hrl : ∀ b ∈ r.map Prod.fst, b ∉ l.map Prod.fst := fun b hb hmem => hlr b hmem hb
  obtain ⟨heap₁, hforward, hl₁, hsame₁⟩ :=
    passForward_some (c := ⟨last none l, first none r, x.2⟩) hl hnodupl rfl
      (hs.linked.head_eq.trans first_append)
  have hcell₁ := (hsame₁ x.1 houtl).trans hcell
  obtain ⟨heap₂, hbackward, hr₂, hsame₂⟩ :=
    passBackward_some (c := ⟨last none l, first none r, x.2⟩)
      (s := { s with heap := heap₁, list := { s.list with head := first (first none r) l } })
      (hr.congr fun b hb => hsame₁ b (hrl b hb)) hnodupr rfl (hs.linked.tail_eq.trans last_append)
  have hcell₂ := (hsame₂ x.1 houtr).trans hcell₁
  have hlen : (s.list.len - 1).toNat = (l ++ r).length := by
    refine len_pred (hs.len_eq.trans ?_)
    rw [List.length_append, List.length_append, List.length_cons, Nat.add_assoc]
  have hsome : s.list.len ≠ 0 := mt hs.len_zero.mp (by simp)
  dsimp only at hforward hbackward
  simp only [qcloudListRemove, hcell, hforward, hcell₁, hbackward, hcell₂, Option.bind_some,
    Option.map_some, if_pos hsome]
  refine ⟨_, rfl, ⟨⟨?_, ?_, first_append.symm, ?_⟩, hlen⟩, ⟨?_, rfl, rfl, rfl⟩, rfl⟩
  · refine segment_append.mpr ⟨(hl₁.congr fun b hb => hsame₂ b (hlr b hb)).stored houtl, ?_⟩
    exact hr₂.stored houtr
  · rw [List.map_append]
    refine List.nodup_append.mpr ⟨hnodupl, hnodupr, fun b hb b' hb' => ?_⟩
    exact hdisjoint b hb b' (List.mem_cons_of_mem x.1 hb')
  · exact last_append.symm
  · intro b hb
    rw [List.map_append, List.map_cons, List.mem_append, List.mem_cons, not_or, not_or] at hb
    exact (store_of_ne hb.2.1).trans ((hsame₂ b hb.2.2).trans (hsame₁ b hb.1))

end Changes

section Searches
variable {heap : Heap A V} {p : Option A} {direction : ListDirection} {as : List A}

def follow (direction : ListDirection) (cell : Cell A V) : Option A :=
  if direction = .listHead then cell.next else cell.prev

def ordered (direction : ListDirection) (items : List (A × V)) : List (A × V) :=
  if direction = .listHead then items else items.reverse

/-- The element with an index; the last one has the index -1. -/
def elementAt (items : List (A × V)) (index : Int32) : Option (A × V) :=
  if index.toInt < 0 then items.reverse[(-index.toInt - 1).toNat]? else items[index.toInt.toNat]?

/-- Whether a value is the one that is looked for. -/
def found [DecidableEq V] (matcher : Option (V → V → Bool)) (val v : V) : Bool :=
  match matcher with
  | some f => f val v
  | none => val = v

theorem next_holds {x : A × V} (hs : Holds s (l ++ x :: r)) (direction : ListDirection) :
    qcloudListIteratorNext s.heap ⟨some x.1, direction⟩ =
      some (⟨if direction = .listHead then first none r else last none l, direction⟩,
        some x.1) := by
  rw [qcloudListIteratorNext]
  dsimp only
  rw [hs.cell]
  rfl

/-- The iterator of either direction starts a walk over the list in that order. -/
theorem Holds.walks (hs : Holds s items) (direction : ListDirection) :
    Walks (follow direction) s.heap (if direction = .listHead then s.list.head else s.list.tail)
      ((ordered direction items).map Prod.fst) := by
  cases direction with
  | listHead => exact hs.linked.walks_next
  | listTail => exact hs.linked.walks_prev

theorem findLoop_segment [DecidableEq V] (matcher : Option (V → V → Bool)) (val : V) {fuel : ℕ}
    (hseg : Segment heap p items none) (hfuel : items.length < fuel) :
    findLoop heap matcher val fuel ⟨first none items, .listHead⟩ =
      some ((items.find? fun x => found matcher val x.2).map Prod.fst) := by
  induction items generalizing p fuel with
  | nil =>
    obtain ⟨fuel, rfl⟩ := Nat.exists_eq_succ_of_ne_zero (Nat.ne_zero_of_lt hfuel)
    rfl
  | cons x xs ih =>
    obtain ⟨fuel, rfl⟩ := Nat.exists_eq_succ_of_ne_zero (Nat.ne_zero_of_lt hfuel)
    obtain ⟨hx, hxs⟩ := hseg
    have hrest := ih hxs (Nat.lt_of_succ_lt_succ hfuel)
    rw [findLoop, qcloudListIteratorNext]
    simp only [first_cons, hx, Option.map_some, Option.bind_some, if_true, List.find?_cons]
    cases matcher with
    | none => by_cases hval : val = x.2 <;> simp [found, hval, hrest]
    | some f => cases hval : f val x.2 <;> simp [found, hval, hrest]

theorem find_holds [DecidableEq V] {fuel : ℕ} (hs : Holds s items) (hfuel : items.length < fuel)
    (val : V) (memory : Bool) :
    qcloudListFind fuel s val memory =
      some (if memory then (items.find? fun x => found s.list.matcher val x.2).map Prod.fst
        else none) := by
  cases memory with
  | false => rfl
  | true =>
    have hloop := findLoop_segment s.list.matcher val hs.linked.segment hfuel
    rwa [← hs.linked.head_eq] at hloop

theorem atLoop_walks (hwalk : Walks (follow direction) heap p as) (index : ℕ) (node : Option A) :
    atLoop heap index ⟨p, direction⟩ node = some (if index = 0 then node else as[index - 1]?) := by
  induction index generalizing p as node with
  | zero => rfl
  | succ index ih =>
    rw [atLoop, qcloudListIteratorNext]
    cases hwalk with
    | ends =>
      refine (ih .ends none).trans ?_
      simp
    | meets hcell hrest =>
      dsimp only
      rw [hcell, Option.map_some, Option.bind_some]
      refine (ih hrest _).trans ?_
      cases index <;> simp

theorem at_walks (hwalk : Walks (follow direction) heap p as) (index : ℕ) :
    ((qcloudListIteratorNext heap ⟨p, direction⟩).bind fun (it, node) =>
      atLoop heap index it node) =
      some as[index]? := by
  have hgo := atLoop_walks hwalk (index + 1) none
  rwa [atLoop, if_neg (Nat.succ_ne_zero index), Nat.add_sub_cancel] at hgo

/-- An index that is not negative, as a number without sign. -/
theorem toUInt32_of_nonneg {index : Int32} (h : ¬ index.toInt < 0) :
    index.toUInt32.toNat = index.toInt.toNat := by
  have hbits : index.toUInt32.toNat = index.toBitVec.toNat := rfl
  have hint : index.toInt = index.toBitVec.toInt := rfl
  have hlt := index.toBitVec.isLt
  rw [hint, BitVec.toInt_eq_toNat_cond] at h
  rw [hbits, hint, BitVec.toInt_eq_toNat_cond]
  split_ifs at h ⊢ <;> omega

/-- The complement of a negative index counts from the end. -/
theorem toUInt32_complement {index : Int32} (h : index.toInt < 0) :
    (~~~index).toUInt32.toNat = (-index.toInt - 1).toNat := by
  have hbits : (~~~index).toUInt32.toNat = (~~~index.toBitVec).toNat := rfl
  have hint : index.toInt = index.toBitVec.toInt := rfl
  have hlt := index.toBitVec.isLt
  rw [hint, BitVec.toInt_eq_toNat_cond] at h
  rw [hbits, hint, BitVec.toNat_not, BitVec.toInt_eq_toNat_cond]
  split_ifs at h ⊢ <;> omega

/-- The search for an element from either end. -/
theorem at_direction (hs : Holds s items) (direction : ListDirection) (index : UInt32)
    (memory : Bool) :
    (if index < s.list.len then
      match qcloudListIteratorNew memory s.list direction with
      | none => some none
      | some it =>
          (qcloudListIteratorNext s.heap it).bind fun (it, node) =>
          atLoop s.heap index.toNat it node
    else some none) =
      some (if memory then ((ordered direction items)[index.toNat]?).map Prod.fst else none) := by
  have hlength : (ordered direction items).length = items.length := by
    cases direction with
    | listHead => rfl
    | listTail => exact List.length_reverse
  split_ifs with hroom hmemory hmemory
  · subst hmemory
    refine (at_walks (hs.walks direction) index.toNat).trans ?_
    rw [List.getElem?_map]
  · rw [Bool.not_eq_true] at hmemory
    subst hmemory
    rfl
  · rw [UInt32.lt_iff_toNat_lt, hs.len_eq, ← hlength, Nat.not_lt] at hroom
    rw [List.getElem?_eq_none hroom, Option.map_none]
  · rfl

theorem at_holds (hs : Holds s items) (index : Int32) (memory : Bool) :
    qcloudListAt s index memory =
      some (if memory then (elementAt items index).map Prod.fst else none) := by
  have hzero : index < 0 ↔ index.toInt < 0 := Int32.lt_iff_toInt_lt
  unfold qcloudListAt elementAt
  by_cases hneg : index.toInt < 0
  · simp only [hzero, if_pos hneg]
    exact (at_direction hs .listTail _ memory).trans (by rw [toUInt32_complement hneg]; rfl)
  · simp only [hzero, if_neg hneg]
    exact (at_direction hs .listHead _ memory).trans (by rw [toUInt32_of_nonneg hneg]; rfl)

end Searches

end Specifications

end IotExplorer.NodeLists
