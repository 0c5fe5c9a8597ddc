import IotExplorer.Basis.Runs
import Mathlib.Algebra.Group.Int.Defs
import Mathlib.Algebra.Group.Nat.Defs
import Mathlib.Data.List.Nodup
import Mathlib.Data.List.Range

/-!
The packets that a socket has received and not yet handed out. A put appends a packet, a
get reads bytes over the ends of packets and gives back the buffers that it has passed. A
packet of which a get reads exactly the last byte stays in the list.
-/
namespace IotExplorer.AtPackets

open Basis.Runs

section Packets

/-- `at_recv_pkt`, with a number for the buffer that was handed over; the size is that of the
buffer. -/
structure RecvPkt where
  buff : List UInt8
  bfszIndex : ℕ
  number : ℕ
  deriving DecidableEq, Repr

def RecvPkt.rest (pkt : RecvPkt) : List UInt8 := pkt.buff.drop pkt.bfszIndex

def contents (pkts : List RecvPkt) : List UInt8 := pkts.flatMap RecvPkt.rest

/-- The list of a socket, and how many packets have been put into it. -/
structure RecvList where
  pkts : List RecvPkt
  puts : ℕ
  deriving DecidableEq, Repr

/-- `_at_recvpkt_put`, where the packet and its node can be allocated or not. -/
def atRecvpktPut (pktAlloc nodeAlloc : Bool) (packet : List UInt8) (rlist : RecvList) :
    RecvList × ℤ :=
  if 10 < rlist.pkts.length then (rlist, -1001)
  else if !pktAlloc then (rlist, -1001)
  else if !nodeAlloc then (rlist, -1001)
  else (⟨rlist.pkts ++ [⟨packet, 0, rlist.puts⟩], rlist.puts + 1⟩,
    (packet.length : ℤ).bmod (2 ^ 32))

/-- The loop of `_at_recvpkt_get`: the packets that stay, the bytes that were read, and the buffers
that were freed. -/
def readLoop : List RecvPkt → ℕ → List RecvPkt × List UInt8 × List ℕ
  | [], _ => ([], [], [])
  | pkt :: pkts, len =>
      if len ≤ pkt.rest.length then
        ({ pkt with bfszIndex := pkt.bfszIndex + len } :: pkts, pkt.rest.take len, [])
      else
        let read := readLoop pkts (len - pkt.rest.length)
        (read.1, pkt.rest ++ read.2.1, pkt.number :: read.2.2)

end Packets

section Steps

/-- A packet arrives, or bytes are asked for; memory is there or not. -/
inductive Step
  | put (pktAlloc nodeAlloc : Bool) (packet : List UInt8)
  | get (iterAlloc : Bool) (len : ℕ)

/-- What is seen of a step: what is returned, and what is read and freed. -/
inductive Event
  | put (packet : List UInt8) (returned : ℤ)
  | got (bytes : List UInt8) (freed : List ℕ) (returned : ℤ)
  deriving DecidableEq, Repr

/-- `_at_recvpkt_get`, where the iterator can be allocated or not. -/
def atRecvpktGet (iterAlloc : Bool) (len : ℕ) (rlist : RecvList) : RecvList × Event :=
  if rlist.pkts.length = 0 then (rlist, .got [] [] 0)
  else if !iterAlloc then (rlist, .got [] [] (-606))
  else
    let read := readLoop rlist.pkts len
    (⟨read.1, rlist.puts⟩, .got read.2.1 read.2.2 ((read.2.1.length : ℤ).bmod (2 ^ 32)))

def step : Step → RecvList → RecvList × List Event
  | .put pktAlloc nodeAlloc packet, rlist =>
      let put := atRecvpktPut pktAlloc nodeAlloc packet rlist
      (put.1, [.put packet put.2])
  | .get iterAlloc len, rlist =>
      let read := atRecvpktGet iterAlloc len rlist
      (read.1, [read.2])

/-- The packets whose put succeeded, the bytes that were returned, and the buffers that were
freed. -/
structure Record where
  accepted : List (List UInt8)
  got : List UInt8
  freed : List ℕ
  deriving DecidableEq, Repr

def Record.note (record : Record) : Event → Record
  | .put packet returned =>
      if 0 ≤ returned then { record with accepted := record.accepted ++ [packet] } else record
  | .got bytes freed _ => { record with got := record.got ++ bytes, freed := record.freed ++ freed }

abbrev Observed := RecvList × Record

def fresh : Observed := (⟨[], 0⟩, ⟨[], [], []⟩)

def observe (s : Step) (observed : Observed) : Observed × List Event :=
  (((step s observed.1).1, (step s observed.1).2.foldl Record.note observed.2),
    (step s observed.1).2)

end Steps

section Right

/-- A buffer is freed once, and, if there is something in it, as soon as all of it has been read. -/
def Released (record : Record) : Prop :=
  ∀ number packet, record.accepted[number]? = some packet → record.freed.count number ≤ 1 ∧
    (packet ≠ [] → (record.freed.count number = 1 ↔
      (record.accepted.take (number + 1)).flatten.length ≤ record.got.length))

/-- What a call returns: a put succeeds exactly if its packet is in the list, and a get that has
memory returns as many bytes as were asked for, or as there are. -/
def Returns (rlist : RecvList) : Step → Prop
  | .put pktAlloc nodeAlloc packet =>
      0 ≤ (atRecvpktPut pktAlloc nodeAlloc packet rlist).2 ↔
        (atRecvpktPut pktAlloc nodeAlloc packet rlist).1.puts = rlist.puts + 1
  | .get iterAlloc len => iterAlloc = true → ∃ bytes freed,
      (atRecvpktGet iterAlloc len rlist).2 =
        .got bytes freed (min len (contents rlist.pkts).length : ℕ)

/-- A step returns what it should, and behind it what was read is the beginning of what was put, and
what was read whole is freed. -/
structure StepRight (observed : Observed) (s : Step) : Prop where
  returns : Returns observed.1 s
  order : (observe s observed).1.2.got <+: (observe s observed).1.2.accepted.flatten
  released : Released (observe s observed).1.2

/-- The end of a packet is so many bytes ahead. -/
def EndsAt (pkts : List RecvPkt) (len : ℕ) : Prop :=
  ∃ front back, pkts = front ++ back ∧ (contents front).length = len

/-- The lengths can be returned as an `int`, and no get reads exactly up to the end of a packet. -/
def Meets (observed : Observed) : Step → Prop
  | .put pktAlloc nodeAlloc packet =>
      observed.1.pkts.length ≤ 10 → pktAlloc = true → nodeAlloc = true →
        packet.length % 2 ^ 32 < 2 ^ 31
  | .get iterAlloc len => iterAlloc = true →
      min len (contents observed.1.pkts).length < 2 ^ 31 ∧ (0 < len → ¬ EndsAt observed.1.pkts len)

end Right

section Reading
variable {pkts : List RecvPkt} {len : ℕ}

end Reading

section Invariant
variable {rlist : RecvList} {record : Record} {pkts : List RecvPkt}

/-- Only of the first packet something has been read, and not all. -/
def HeadOnly : List RecvPkt → Prop
  | [] => True
  | pkt :: pkts =>
      (pkt.bfszIndex = 0 ∨ pkt.bfszIndex < pkt.buff.length) ∧ ∀ q ∈ pkts, q.bfszIndex = 0

/-- What a run keeps: the packets that were accepted are those whose buffers have been freed and,
behind them, those in the list, and what was read of them is followed by what can be read. -/
structure Inv (observed : Observed) : Prop where
  puts : observed.1.puts = observed.2.accepted.length
  split : ∃ done, observed.2.accepted = done ++ observed.1.pkts.map RecvPkt.buff ∧
    observed.2.freed = List.range done.length ∧
    observed.1.pkts.map RecvPkt.number = List.range' done.length observed.1.pkts.length
  stream : observed.2.accepted.flatten = observed.2.got ++ contents observed.1.pkts
  head : HeadOnly observed.1.pkts

theorem inv_fresh : Inv fresh := ⟨rfl, ⟨[], rfl, rfl, rfl⟩, rfl, trivial⟩

theorem contents_whole (h : ∀ pkt ∈ pkts, pkt.bfszIndex = 0) :
    contents pkts = (pkts.map RecvPkt.buff).flatten := by
  induction pkts with
  | nil => rfl
  | cons pkt pkts ih =>
    have hrest : pkt.rest = pkt.buff := by
      rw [RecvPkt.rest, h pkt (List.mem_cons_self ..), List.drop_zero]
    have hcons : contents (pkt :: pkts) = pkt.rest ++ contents pkts := List.flatMap_cons
    rw [hcons, hrest, ih fun q hq => h q (List.mem_cons_of_mem pkt hq), List.map_cons,
      List.flatten_cons]

/-- How much has been read, in terms of the first packet in the list. -/
theorem Inv.got_length {pkt : RecvPkt} {done : List (List UInt8)} (h : Inv (rlist, record))
    (hpkts : rlist.pkts = pkt :: pkts)
    (hdone : record.accepted = done ++ rlist.pkts.map RecvPkt.buff) :
    record.got.length = done.flatten.length + pkt.bfszIndex ∧ pkt.bfszIndex ≤ pkt.buff.length := by
  have hhead := h.head
  dsimp only at hhead
  rw [hpkts] at hhead
  have hindex : pkt.bfszIndex ≤ pkt.buff.length := by
    rcases hhead.1 with hzero | hlt <;> omega
  have hstream := congrArg List.length h.stream
  have hcons : contents (pkt :: pkts) = pkt.rest ++ contents pkts := List.flatMap_cons
  have hrest : pkt.rest.length = pkt.buff.length - pkt.bfszIndex := List.length_drop ..
  dsimp only at hstream
  rw [hdone, hpkts, hcons, contents_whole hhead.2, List.map_cons, List.flatten_append,
    List.flatten_cons, List.length_append, List.length_append, List.length_append,
    List.length_append, hrest] at hstream
  omega

theorem flatten_take_le (l : List (List UInt8)) (n : ℕ) :
    (l.take n).flatten.length ≤ l.flatten.length := by
  have hsplit := congrArg (fun l => l.flatten.length) (List.take_append_drop n l)
  simp only [List.flatten_append, List.length_append] at hsplit
  omega

/-- What has been freed was read. -/
theorem Inv.done_le {done : List (List UInt8)} (h : Inv (rlist, record))
    (hdone : record.accepted = done ++ rlist.pkts.map RecvPkt.buff) :
    done.flatten.length ≤ record.got.length := by
  cases hpkts : rlist.pkts with
  | nil =>
    have hstream := congrArg List.length h.stream
    dsimp only at hstream
    rw [hdone, hpkts] at hstream
    simp only [List.map_nil, List.append_nil, contents, List.flatMap_nil] at hstream
    omega
  | cons pkt pkts =>
    have hgot := (h.got_length hpkts hdone).1
    omega

/-- What is in the list has not been read whole. -/
theorem Inv.released (h : Inv (rlist, record)) : Released record := by
  obtain ⟨done, hdone, hfreed, -⟩ := h.split
  dsimp only at hdone hfreed
  intro number packet hpacket
  rw [hfreed]
  refine ⟨List.nodup_iff_count_le_one.mp List.nodup_range number, fun hne => ?_⟩
  by_cases hnumber : number < done.length
  · refine iff_of_true (List.count_eq_one_of_mem List.nodup_range (List.mem_range.mpr hnumber)) ?_
    rw [hdone, List.take_append_of_le_length (by omega)]
    exact (flatten_take_le done _).trans (h.done_le hdone)
  · have hnone : number ∉ List.range done.length := fun hmem => hnumber (List.mem_range.mp hmem)
    rw [List.count_eq_zero.mpr hnone]
    refine iff_of_false (by decide) (Nat.not_le.mpr ?_)
    rw [hdone, List.getElem?_append_right (by omega)] at hpacket
    cases hpkts : rlist.pkts with
    | nil =>
      rw [hpkts] at hpacket
      simp at hpacket
    | cons pkt pkts =>
      obtain ⟨hgot, hindex⟩ := h.got_length hpkts hdone
      have hhead := h.head
      dsimp only at hhead
      rw [hpkts] at hhead hpacket
      have htake : (done ++ (pkt :: pkts).map RecvPkt.buff).take (number + 1) =
          done ++ (pkt.buff :: (pkts.map RecvPkt.buff).take (number - done.length)) := by
        rw [List.take_append, List.take_of_length_le (show done.length ≤ number + 1 by omega),
          show number + 1 - done.length = number - done.length + 1 by omega, List.map_cons,
          List.take_succ_cons]
      rw [hdone, hpkts, htake, List.flatten_append, List.flatten_cons, List.length_append,
        List.length_append, hgot]
      cases hplace : number - done.length with
      | zero =>
        rw [hplace, List.map_cons, List.getElem?_cons_zero] at hpacket
        have hpos : 0 < pkt.buff.length := by
          rw [Option.some.inj hpacket]
          exact List.length_pos_iff.mpr hne
        rcases hhead.1 with hzero | hlt <;> omega
      | succ place =>
        rw [hplace, List.map_cons, List.getElem?_cons_succ] at hpacket
        have hmem : packet ∈ (pkts.map RecvPkt.buff).take (place + 1) :=
          List.mem_of_getElem? (i := place) (by rw [List.getElem?_take_of_succ]; exact hpacket)
        have hle := (List.sublist_flatten_of_mem hmem).length_le
        have hpos := List.length_pos_iff.mpr hne
        omega

theorem HeadOnly.back {front back : List RecvPkt} {pkt : RecvPkt}
    (h : HeadOnly (front ++ pkt :: back)) :
    ∀ q ∈ back, q.bfszIndex = 0 := by
  cases front with
  | nil => exact h.2
  | cons first front =>
    intro q hq
    exact h.2 q (List.mem_append_right front (List.mem_cons_of_mem pkt hq))

theorem HeadOnly.concat (h : HeadOnly pkts) (pkt : RecvPkt) (hpkt : pkt.bfszIndex = 0) :
    HeadOnly (pkts ++ [pkt]) := by
  cases pkts with
  | nil => exact ⟨.inl hpkt, fun q hq => absurd hq List.not_mem_nil⟩
  | cons first pkts =>
    refine ⟨h.1, fun q hq => ?_⟩
    rcases List.mem_append.mp hq with hq | hq
    · exact h.2 q hq
    · rw [List.mem_singleton.mp hq, hpkt]

end Invariant

end IotExplorer.AtPackets
