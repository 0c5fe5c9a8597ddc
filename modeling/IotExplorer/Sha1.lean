import IotExplorer.Basis.Digests
import Mathlib.Data.List.Range

/-!
SHA-1 as the clients use it. The code keeps sixteen words of the message schedule and writes each
new one over the oldest, and its five registers stay where they are while their roles turn; behind
eighty operations this is the compression of the standard with its schedule of eighty words.
-/
namespace IotExplorer.Sha1

open Basis.Digests Basis.Absorption

structure State where
  a : UInt32
  b : UInt32
  c : UInt32
  d : UInt32
  e : UInt32
  deriving DecidableEq, Repr

section Standard

def rotl (x n : UInt32) : UInt32 := (x <<< n) ||| (x >>> (32 - n))

def roundFunction (t : ℕ) (x y z : UInt32) : UInt32 :=
  if t < 20 then (x &&& y) ^^^ (~~~x &&& z)
  else if t < 40 then x ^^^ y ^^^ z
  else if t < 60 then (x &&& y) ^^^ (x &&& z) ^^^ (y &&& z)
  else x ^^^ y ^^^ z

def roundConstant (t : ℕ) : UInt32 :=
  if t < 20 then 0x5A827999
  else if t < 40 then 0x6ED9EBA1
  else if t < 60 then 0x8F1BBCDC
  else 0xCA62C1D6

def scheduleWord (block : ℕ → UInt32) (t : ℕ) : UInt32 :=
  if t < 16 then block t
  else rotl (scheduleWord block (t - 3) ^^^ scheduleWord block (t - 8) ^^^
    scheduleWord block (t - 14) ^^^ scheduleWord block (t - 16)) 1

def round (w : ℕ → UInt32) (s : State) (t : ℕ) : State :=
  ⟨rotl s.a 5 + roundFunction t s.b s.c s.d + s.e + roundConstant t + w t, s.a, rotl s.b 30, s.c,
    s.d⟩

def blockWord (block : List UInt8) (i : ℕ) : UInt32 :=
  (block.getD (4 * i) 0).toUInt32 <<< 24 ||| (block.getD (4 * i + 1) 0).toUInt32 <<< 16 |||
    (block.getD (4 * i + 2) 0).toUInt32 <<< 8 ||| (block.getD (4 * i + 3) 0).toUInt32

def compress (s : State) (block : List UInt8) : State :=
  let r := (List.range 80).foldl (round (scheduleWord (blockWord block))) s
  ⟨s.a + r.a, s.b + r.b, s.c + r.c, s.d + r.d, s.e + r.e⟩

def initial : State := ⟨0x67452301, 0xEFCDAB89, 0x98BADCFE, 0x10325476, 0xC3D2E1F0⟩

/-- The length of a message in bits, in 64 bits. -/
def lengthField (bits : ℕ) : List UInt8 :=
  (List.range 8).map fun i => UInt8.ofNat (bits / 256 ^ (7 - i))

/-- `IOT_SHA1_PUT_UINT32_BE`. -/
def putUint32Be (n : UInt32) : List UInt8 :=
  [(n >>> 24).toUInt8, (n >>> 16).toUInt8, (n >>> 8).toUInt8, n.toUInt8]

def State.bytes (s : State) : List UInt8 :=
  putUint32Be s.a ++ putUint32Be s.b ++ putUint32Be s.c ++ putUint32Be s.d ++ putUint32Be s.e

def sha1 (message : List UInt8) : List UInt8 := (digest compress initial lengthField message).bytes

end Standard

section Process

/-- The variables of `utils_sha1_process`. -/
inductive Register
  | A
  | B
  | C
  | D
  | E
  deriving DecidableEq

structure Registers where
  A : UInt32
  B : UInt32
  C : UInt32
  D : UInt32
  E : UInt32

def Registers.get (regs : Registers) : Register → UInt32
  | .A => regs.A
  | .B => regs.B
  | .C => regs.C
  | .D => regs.D
  | .E => regs.E

def Registers.set (regs : Registers) (x : UInt32) : Register → Registers
  | .A => { regs with A := x }
  | .B => { regs with B := x }
  | .C => { regs with C := x }
  | .D => { regs with D := x }
  | .E => { regs with E := x }

/-- `W`. -/
abbrev Words := Vector UInt32 16

/-- `W[i & 0x0F]`. -/
def Words.word (w : Words) (i : ℕ) : UInt32 := w[i % 16]

def Words.store (w : Words) (i : ℕ) (x : UInt32) : Words := w.set (i % 16) x

structure Working where
  regs : Registers
  words : Words

def rotate (x n : UInt32) : UInt32 := (x <<< n) ||| ((x &&& 0xFFFFFFFF) >>> (32 - n))

/-- `R`: the next word, in the place of the oldest. -/
def nextWord (t : ℕ) (w : Words) : UInt32 :=
  rotate (w.word (t - 3) ^^^ w.word (t - 8) ^^^ w.word (t - 14) ^^^ w.word t) 1

/-- `P` at registers, with a word. -/
def operate (f : UInt32 → UInt32 → UInt32 → UInt32) (k : UInt32) (a b c d e : Register)
    (x : UInt32) (regs : Registers) : Registers :=
  let regs := regs.set (regs.get e +
    (rotate (regs.get a) 5 + f (regs.get b) (regs.get c) (regs.get d) + k + x)) e
  regs.set (rotate (regs.get b) 30) b

/-- `P` with the word of its turn: one of the block, or the next one. -/
def operation (f : UInt32 → UInt32 → UInt32 → UInt32) (k : UInt32) (a b c d e : Register) (t : ℕ)
    (s : Working) : Working :=
  if t < 16 then ⟨operate f k a b c d e (s.words.word t) s.regs, s.words⟩
  else
    let x := nextWord t s.words
    ⟨operate f k a b c d e x s.regs, s.words.store t x⟩

/-- Five operations, behind which each register has its role again. -/
def fiveOperations (f : UInt32 → UInt32 → UInt32 → UInt32) (k : UInt32) (t : ℕ) (s : Working) :
    Working :=
  let s := operation f k .A .B .C .D .E t s
  let s := operation f k .E .A .B .C .D (t + 1) s
  let s := operation f k .D .E .A .B .C (t + 2) s
  let s := operation f k .C .D .E .A .B (t + 3) s
  operation f k .B .C .D .E .A (t + 4) s

/-- The twenty operations with one `F` and one `K`. -/
def twentyOperations (f : UInt32 → UInt32 → UInt32 → UInt32) (k : UInt32) (t : ℕ) (s : Working) :
    Working :=
  fiveOperations f k (t + 15) (fiveOperations f k (t + 10) (fiveOperations f k (t + 5)
    (fiveOperations f k t s)))

def utilsSha1Process (s : State) (data : List UInt8) : State :=
  let w := twentyOperations (fun x y z => z ^^^ (x &&& (y ^^^ z))) 0x5A827999 0
    ⟨⟨s.a, s.b, s.c, s.d, s.e⟩, Vector.ofFn fun i => blockWord data i⟩
  let w := twentyOperations (fun x y z => x ^^^ y ^^^ z) 0x6ED9EBA1 20 w
  let w := twentyOperations (fun x y z => (x &&& y) ||| (z &&& (x ||| y))) 0x8F1BBCDC 40 w
  let w := twentyOperations (fun x y z => x ^^^ y ^^^ z) 0xCA62C1D6 60 w
  ⟨s.a + w.regs.A, s.b + w.regs.B, s.c + w.regs.C, s.d + w.regs.D, s.e + w.regs.E⟩

end Process

section Contexts

/-- `iot_sha1_context`. -/
abbrev Context := Basis.Digests.Context State

def utilsSha1Init : Context := ⟨0, 0, ⟨0, 0, 0, 0, 0⟩, fun _ => 0⟩

def utilsSha1Starts (ctx : Context) : Context :=
  { ctx with total0 := 0, total1 := 0, state := initial }

def utilsSha1Update (ctx : Context) (input : List UInt8) : Context :=
  update utilsSha1Process ctx input

/-- `utils_sha1_finish`: the context it leaves, and the digest. -/
def utilsSha1Finish (ctx : Context) : Context × List UInt8 :=
  let ctx := finish utilsSha1Process (fun high low => putUint32Be high ++ putUint32Be low) ctx
  (ctx, ctx.state.bytes)

def utilsSha1 (input : List UInt8) : List UInt8 :=
  (utilsSha1Finish (utilsSha1Update (utilsSha1Starts utilsSha1Init) input)).2

end Contexts

section Schedule
variable {block : ℕ → UInt32} {t : ℕ} {w : Words}

theorem word_store (w : Words) (i j : ℕ) (x : UInt32) :
    (w.store i x).word j = if j % 16 = i % 16 then x else w.word j := by
  simp only [Words.word, Words.store, Vector.getElem_set, eq_comm]

theorem word_congr (w : Words) {i j : ℕ} (h : i % 16 = j % 16) : w.word i = w.word j := by
  simp only [Words.word, h]

/-- The words are the last sixteen of the schedule up to a turn. -/
def Holds (block : ℕ → UInt32) (t : ℕ) (w : Words) : Prop :=
  ∀ u < max 16 t, max 16 t ≤ u + 16 → w.word u = scheduleWord block u

theorem holds_start (data : List UInt8) :
    Holds (blockWord data) 0 (Vector.ofFn fun i => blockWord data i) := by
  intro u hu _
  have hu' : u < 16 := hu
  rw [scheduleWord, if_pos hu', Words.word, Vector.getElem_ofFn]
  exact congrArg (blockWord data) (Nat.mod_eq_of_lt hu')

theorem rotate_eq (x n : UInt32) : rotate x n = rotl x n := by
  have hmask : x &&& 0xFFFFFFFF = x := UInt32.and_neg_one
  rw [rotate, rotl, hmask]

/-- The next word is that of the schedule. -/
theorem Holds.next (h : Holds block t w) (ht : 16 ≤ t) : nextWord t w = scheduleWord block t := by
  have h3 := h (t - 3) (by omega) (by omega)
  have h8 := h (t - 8) (by omega) (by omega)
  have h14 := h (t - 14) (by omega) (by omega)
  have h16 := h (t - 16) (by omega) (by omega)
  have hsame : w.word t = w.word (t - 16) := word_congr w (by omega)
  rw [nextWord, rotate_eq, hsame, h3, h8, h14, h16]
  conv_rhs => rw [scheduleWord, if_neg (by omega)]

theorem Holds.store (h : Holds block t w) (ht : 16 ≤ t) :
    Holds block (t + 1) (w.store t (scheduleWord block t)) := by
  intro u hu hlast
  rw [word_store]
  split
  · rename_i hplace
    rw [show u = t by omega]
  · exact h u (by omega) (by omega)

end Schedule

section Rounds
variable {f : UInt32 → UInt32 → UInt32 → UInt32} {k : UInt32} {a b c d e : Register}
  {block : ℕ → UInt32} {s : State} {t : ℕ} {working : Working}

def view (a b c d e : Register) (regs : Registers) : State :=
  ⟨regs.get a, regs.get b, regs.get c, regs.get d, regs.get e⟩

theorem get_set (regs : Registers) (x : UInt32) (i j : Register) :
    (regs.set x i).get j = if j = i then x else regs.get j := by
  cases i <;> cases j <;> rfl

/-- The logical function and the constant of the rounds from one on. -/
def Rules (f : UInt32 → UInt32 → UInt32 → UInt32) (k : UInt32) (t n : ℕ) : Prop :=
  ∀ u, t ≤ u → u < t + n → roundFunction u = f ∧ roundConstant u = k

theorem Rules.part {n : ℕ} (h : Rules f k t n) {u m : ℕ} (hle : t ≤ u) (hlast : u + m ≤ t + n) :
    Rules f k u m :=
  fun v hv hv' => h v (by omega) (by omega)

/-- So many rounds have been done, and the registers are in these roles. -/
structure InRound (block : ℕ → UInt32) (s : State) (a b c d e : Register) (t : ℕ)
    (working : Working) : Prop where
  regs : view a b c d e working.regs = (List.range t).foldl (round (scheduleWord block)) s
  words : Holds block t working.words

/-- An operation is a round, behind which the roles have turned. -/
theorem InRound.operation (h : InRound block s a b c d e t working)
    (hnodup : [a, b, c, d, e].Nodup) (hrules : Rules f k t 1) :
    InRound block s e a b c d (t + 1) (operation f k a b c d e t working) := by
  obtain ⟨hfunction, hconstant⟩ := hrules t le_rfl (Nat.lt_succ_self t)
  simp only [List.nodup_cons, List.mem_cons, List.not_mem_nil, or_false, not_or,
    List.nodup_nil, and_true, not_false_eq_true] at hnodup
  obtain ⟨⟨hab, hac, had, hae⟩, ⟨hbc, hbd, hbe⟩, ⟨hcd, hce⟩, hde⟩ := hnodup
  have hround (x : UInt32) (hx : x = scheduleWord block t) :
      view e a b c d (operate f k a b c d e x working.regs) =
        (List.range (t + 1)).foldl (round (scheduleWord block)) s := by
    rw [List.range_succ, List.foldl_concat, ← h.regs, round, hfunction, hconstant, ← hx]
    simp only [view, operate, get_set, rotate_eq, if_neg hab, if_neg hae, if_neg hbe,
      if_neg (Ne.symm hbc), if_neg (Ne.symm hbd), if_neg (Ne.symm hbe), if_neg hce, if_neg hde,
      if_true]
    congr 1
    ac_rfl
  rw [Sha1.operation]
  split
  · rename_i hfirst
    refine ⟨hround _ (h.words t (by omega) (by omega)), fun u hu hlast => ?_⟩
    exact h.words u (by omega) (by omega)
  · rename_i hnext
    have hx := h.words.next (Nat.le_of_not_lt hnext)
    refine ⟨hround _ hx, ?_⟩
    dsimp only
    rw [hx]
    exact h.words.store (Nat.le_of_not_lt hnext)

theorem InRound.five (h : InRound block s .A .B .C .D .E t working) (hrules : Rules f k t 5) :
    InRound block s .A .B .C .D .E (t + 5) (fiveOperations f k t working) := by
  have h1 := h.operation (by decide) (hrules.part (u := t) (m := 1) le_rfl (by omega))
  have h2 := h1.operation (by decide) (hrules.part (u := t + 1) (m := 1) (by omega) (by omega))
  have h3 := h2.operation (by decide) (hrules.part (u := t + 2) (m := 1) (by omega) (by omega))
  have h4 := h3.operation (by decide) (hrules.part (u := t + 3) (m := 1) (by omega) (by omega))
  exact h4.operation (by decide) (hrules.part (by omega) (by omega))

theorem InRound.twenty (h : InRound block s .A .B .C .D .E t working) (hrules : Rules f k t 20) :
    InRound block s .A .B .C .D .E (t + 20) (twentyOperations f k t working) := by
  have h1 := h.five (hrules.part (u := t) (m := 5) le_rfl (by omega))
  have h2 := h1.five (hrules.part (u := t + 5) (m := 5) (by omega) (by omega))
  have h3 := h2.five (hrules.part (u := t + 10) (m := 5) (by omega) (by omega))
  exact h3.five (hrules.part (by omega) (by omega))

theorem choose_eq (x y z : UInt32) :
    (x &&& y) ^^^ (~~~x &&& z) = z ^^^ (x &&& (y ^^^ z)) := by
  apply UInt32.toBitVec_inj.mp
  ext i hi
  simp only [UInt32.toBitVec_xor, UInt32.toBitVec_and, UInt32.toBitVec_not, BitVec.getElem_xor,
    BitVec.getElem_and, BitVec.getElem_not]
  cases x.toBitVec[i] <;> cases y.toBitVec[i] <;> cases z.toBitVec[i] <;> rfl

theorem majority_eq (x y z : UInt32) :
    (x &&& y) ^^^ (x &&& z) ^^^ (y &&& z) = (x &&& y) ||| (z &&& (x ||| y)) := by
  apply UInt32.toBitVec_inj.mp
  ext i hi
  simp only [UInt32.toBitVec_xor, UInt32.toBitVec_and, UInt32.toBitVec_or, BitVec.getElem_xor,
    BitVec.getElem_and, BitVec.getElem_or]
  cases x.toBitVec[i] <;> cases y.toBitVec[i] <;> cases z.toBitVec[i] <;> rfl

/-- The code compresses a block as the standard does. -/
theorem process_eq : utilsSha1Process = compress := by
  funext s data
  have hfirst : Rules (fun x y z => z ^^^ (x &&& (y ^^^ z))) 0x5A827999 0 20 := by
    intro u _ hu
    have hu' : u < 20 := by omega
    refine ⟨?_, if_pos hu'⟩
    funext x y z
    rw [roundFunction, if_pos hu', choose_eq]
  have hsecond : Rules (fun x y z => x ^^^ y ^^^ z) 0x6ED9EBA1 20 20 := by
    intro u hle hu
    refine ⟨?_, ?_⟩
    · funext x y z
      rw [roundFunction, if_neg (by omega), if_pos (by omega)]
    · rw [roundConstant, if_neg (by omega), if_pos (by omega)]
  have hthird : Rules (fun x y z => (x &&& y) ||| (z &&& (x ||| y))) 0x8F1BBCDC 40 20 := by
    intro u hle hu
    refine ⟨?_, ?_⟩
    · funext x y z
      rw [roundFunction, if_neg (by omega), if_neg (by omega), if_pos (by omega), majority_eq]
    · rw [roundConstant, if_neg (by omega), if_neg (by omega), if_pos (by omega)]
  have hfourth : Rules (fun x y z => x ^^^ y ^^^ z) 0xCA62C1D6 60 20 := by
    intro u hle hu
    refine ⟨?_, ?_⟩
    · funext x y z
      rw [roundFunction, if_neg (by omega), if_neg (by omega), if_neg (by omega)]
    · rw [roundConstant, if_neg (by omega), if_neg (by omega), if_neg (by omega)]
  have hstart : InRound (blockWord data) s .A .B .C .D .E 0
      ⟨⟨s.a, s.b, s.c, s.d, s.e⟩, Vector.ofFn fun i => blockWord data i⟩ :=
    ⟨rfl, holds_start data⟩
  have h20 : InRound _ s .A .B .C .D .E 20 _ := hstart.twenty hfirst
  have h40 : InRound _ s .A .B .C .D .E 40 _ := h20.twenty hsecond
  have h60 : InRound _ s .A .B .C .D .E 60 _ := h40.twenty hthird
  have h80 : InRound _ s .A .B .C .D .E 80 _ := h60.twenty hfourth
  have hfields := h80.regs
  rw [utilsSha1Process, compress]
  generalize twentyOperations _ _ 60 _ = w at hfields
  rw [← hfields]
  rfl

end Rounds

section Digests
variable {ctx : Context} {fed : List UInt8}

theorem lengthField_length (bits : ℕ) : (lengthField bits).length = 8 := by
  rw [lengthField, List.length_map, List.length_range]

/-- The two words of the length are its field. -/
theorem writesLength : WritesLength (fun high low => putUint32Be high ++ putUint32Be low)
    lengthField := by
  intro high low bits hlow hhigh
  have hfield : lengthField bits = [UInt8.ofNat (bits / 256 ^ 7), UInt8.ofNat (bits / 256 ^ 6),
      UInt8.ofNat (bits / 256 ^ 5), UInt8.ofNat (bits / 256 ^ 4), UInt8.ofNat (bits / 256 ^ 3),
      UInt8.ofNat (bits / 256 ^ 2), UInt8.ofNat (bits / 256 ^ 1), UInt8.ofNat (bits / 256 ^ 0)] :=
    rfl
  have h24 : (24 : UInt32).toNat % 32 = 24 := rfl
  have h16 : (16 : UInt32).toNat % 32 = 16 := rfl
  have h8 : (8 : UInt32).toNat % 32 = 8 := rfl
  dsimp only [putUint32Be]
  rw [hfield, byte_of_shift high 24 (bits / 256 ^ 7) (by rw [h24]; omega),
    byte_of_shift high 16 (bits / 256 ^ 6) (by rw [h16]; omega),
    byte_of_shift high 8 (bits / 256 ^ 5) (by rw [h8]; omega),
    last_byte (n := high) (m := bits / 256 ^ 4) (by omega),
    byte_of_shift low 24 (bits / 256 ^ 3) (by rw [h24]; omega),
    byte_of_shift low 16 (bits / 256 ^ 2) (by rw [h16]; omega),
    byte_of_shift low 8 (bits / 256 ^ 1) (by rw [h8]; omega),
    last_byte (n := low) (m := bits / 256 ^ 0) (by omega)]
  rfl

theorem inStep_starts (ctx : Context) : InStep compress initial (utilsSha1Starts ctx) [] :=
  inStep_start ctx.buffer

theorem utilsSha1Update_eq : utilsSha1Update = update compress := by
  funext ctx input
  rw [utilsSha1Update, process_eq]

theorem finish_eq (h : InStep compress initial ctx fed) : (utilsSha1Finish ctx).2 = sha1 fed := by
  have hstate := h.finish writesLength lengthField_length
  rw [utilsSha1Finish, process_eq]
  exact congrArg State.bytes hstate

/-- However a message is cut into pieces, its digest is that of the standard, also in a context
that was used before. -/
theorem sha1_of_pieces (ctx : Context) (pieces : List (List UInt8))
    (hlen : ∀ piece ∈ pieces, piece.length < 2 ^ 32) :
    (utilsSha1Finish (pieces.foldl utilsSha1Update (utilsSha1Starts ctx))).2 =
      sha1 pieces.flatten := by
  have hpieces := (inStep_starts ctx).updates hlen
  rw [utilsSha1Update_eq]
  exact finish_eq hpieces

theorem sha1_of_pieces_abc :
    (utilsSha1Finish ([[0x61], [0x62, 0x63]].foldl utilsSha1Update
      (utilsSha1Starts utilsSha1Init))).2 = sha1 [0x61, 0x62, 0x63] :=
  sha1_of_pieces utilsSha1Init [[0x61], [0x62, 0x63]] (by decide)

example : utilsSha1 [0x61, 0x62, 0x63] =
    [0xA9, 0x99, 0x3E, 0x36, 0x47, 0x06, 0x81, 0x6A, 0xBA, 0x3E, 0x25, 0x71, 0x78, 0x50, 0xC2,
      0x6C, 0x9C, 0xD0, 0xD8, 0x9D] := by
  decide +kernel

end Digests

end IotExplorer.Sha1
