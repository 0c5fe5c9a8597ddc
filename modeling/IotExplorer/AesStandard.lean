import IotExplorer.AesTables
import IotExplorer.Basis.BlockCiphers
import IotExplorer.Basis.ByteWords

/-!
The cipher that the AES functions are for, in the words of its standard. A block has four
columns, a column is a word with its first row in the lowest byte. A round substitutes the
bytes, shifts the rows and mixes the columns; the key schedule makes the words of the round
keys. What undoes a round is there too.
-/
namespace IotExplorer.AesStandard

open Basis.ByteField Basis.ByteWords Basis.BlockCiphers
open AesTables (affine fsb rsb rsb_fsb)

section Rounds

structure Block where
  x0 : UInt32
  x1 : UInt32
  x2 : UInt32
  x3 : UInt32
  deriving DecidableEq, Repr

def Block.add (x y : Block) : Block :=
  ⟨x.x0 ^^^ y.x0, x.x1 ^^^ y.x1, x.x2 ^^^ y.x2, x.x3 ^^^ y.x3⟩

def Block.map (f : UInt32 → UInt32) (x : Block) : Block := ⟨f x.x0, f x.x1, f x.x2, f x.x3⟩

/-- The affine image of the inverse. -/
noncomputable def box (x : UInt8) : UInt8 := affine (Classical.choose (exists_isInverse x))

/-- `SubBytes` for a column, with any box. -/
def subWord (box : UInt8 → UInt8) (w : UInt32) : UInt32 :=
  word (box w.toUInt8) (box (w >>> 8).toUInt8) (box (w >>> 16).toUInt8) (box (w >>> 24).toUInt8)

/-- `ShiftRows`: a row is turned by its number to the left. -/
def shiftRows (x : Block) : Block :=
  ⟨word x.x0.toUInt8 (x.x1 >>> 8).toUInt8 (x.x2 >>> 16).toUInt8 (x.x3 >>> 24).toUInt8,
    word x.x1.toUInt8 (x.x2 >>> 8).toUInt8 (x.x3 >>> 16).toUInt8 (x.x0 >>> 24).toUInt8,
    word x.x2.toUInt8 (x.x3 >>> 8).toUInt8 (x.x0 >>> 16).toUInt8 (x.x1 >>> 24).toUInt8,
    word x.x3.toUInt8 (x.x0 >>> 8).toUInt8 (x.x1 >>> 16).toUInt8 (x.x2 >>> 24).toUInt8⟩

/-- `InvShiftRows`: a row is turned to the right. -/
def unshiftRows (x : Block) : Block :=
  ⟨word x.x0.toUInt8 (x.x3 >>> 8).toUInt8 (x.x2 >>> 16).toUInt8 (x.x1 >>> 24).toUInt8,
    word x.x1.toUInt8 (x.x0 >>> 8).toUInt8 (x.x3 >>> 16).toUInt8 (x.x2 >>> 24).toUInt8,
    word x.x2.toUInt8 (x.x1 >>> 8).toUInt8 (x.x0 >>> 16).toUInt8 (x.x3 >>> 24).toUInt8,
    word x.x3.toUInt8 (x.x2 >>> 8).toUInt8 (x.x1 >>> 16).toUInt8 (x.x0 >>> 24).toUInt8⟩

/-- The product of a column with a circulant matrix, of which this is the first row. -/
def circulant (r0 r1 r2 r3 : UInt8) (w : UInt32) : UInt32 :=
  let a := w.toUInt8
  let b := (w >>> 8).toUInt8
  let c := (w >>> 16).toUInt8
  let d := (w >>> 24).toUInt8
  word (mul r0 a ^^^ mul r1 b ^^^ mul r2 c ^^^ mul r3 d)
    (mul r3 a ^^^ mul r0 b ^^^ mul r1 c ^^^ mul r2 d)
    (mul r2 a ^^^ mul r3 b ^^^ mul r0 c ^^^ mul r1 d)
    (mul r1 a ^^^ mul r2 b ^^^ mul r3 c ^^^ mul r0 d)

def mixColumn : UInt32 → UInt32 := circulant 0x02 0x03 0x01 0x01

/-- `InvMixColumns` for a column. -/
def unmixColumn : UInt32 → UInt32 := circulant 0x0E 0x0B 0x0D 0x09

/-- What a round substitutes and mixes. -/
def substitute (box : UInt8 → UInt8) (x : Block) : Block := shiftRows (x.map (subWord box))

def mix (x : Block) : Block := x.map mixColumn

/-- What undoes it. -/
def unsubstitute (unbox : UInt8 → UInt8) (x : Block) : Block := (unshiftRows x).map (subWord unbox)

def unmix (x : Block) : Block := x.map unmixColumn

end Rounds

section Schedule

def rotWord (w : UInt32) : UInt32 :=
  word (w >>> 8).toUInt8 (w >>> 16).toUInt8 (w >>> 24).toUInt8 w.toUInt8

/-- A word of the key schedule for a key of so many words. -/
noncomputable def scheduleWord (nk : ℕ) (key : ℕ → UInt32) (i : ℕ) : UInt32 :=
  if _h : i < nk ∨ nk = 0 then key i
  else
    scheduleWord nk key (i - nk) ^^^
      (if i % nk = 0 then
        subWord box (rotWord (scheduleWord nk key (i - 1))) ^^^
          (double^[i / nk - 1] 1).toUInt32
      else if 6 < nk ∧ i % nk = 4 then subWord box (scheduleWord nk key (i - 1))
      else scheduleWord nk key (i - 1))
termination_by i

def roundKey (w : ℕ → UInt32) (r : ℕ) : Block :=
  ⟨w (4 * r), w (4 * r + 1), w (4 * r + 2), w (4 * r + 3)⟩

/-- The round keys between the first and the last one. -/
def middleKeys (w : ℕ → UInt32) (nr : ℕ) : List Block := (List.range' 1 (nr - 1)).map (roundKey w)

/-- The cipher with these words of the key schedule. -/
def cipherWith (box : UInt8 → UInt8) (nr : ℕ) (w : ℕ → UInt32) (x : Block) : Block :=
  alternate Block.add (mix ∘ substitute box) (substitute box) (roundKey w 0) (middleKeys w nr)
    (roundKey w nr) x

noncomputable def cipher (nk : ℕ) (key : ℕ → UInt32) (x : Block) : Block :=
  cipherWith box (nk + 6) (scheduleWord nk key) x

end Schedule

section Words
variable {nk i : ℕ} {key : ℕ → UInt32}

theorem scheduleWord_key (h : i < nk) : scheduleWord nk key i = key i := by
  rw [scheduleWord, dif_pos (Or.inl h)]

theorem scheduleWord_first (hnk : 0 < nk) (hle : nk ≤ i) (hmod : i % nk = 0) :
    scheduleWord nk key i = scheduleWord nk key (i - nk) ^^^
      (subWord box (rotWord (scheduleWord nk key (i - 1))) ^^^
        (double^[i / nk - 1] 1).toUInt32) := by
  rw [scheduleWord, dif_neg (by omega), if_pos hmod]

theorem scheduleWord_box (hnk : 6 < nk) (hle : nk ≤ i) (hmod : i % nk = 4) :
    scheduleWord nk key i =
      scheduleWord nk key (i - nk) ^^^ subWord box (scheduleWord nk key (i - 1)) := by
  rw [scheduleWord, dif_neg (by omega), if_neg (by omega), if_pos ⟨hnk, hmod⟩]

theorem scheduleWord_sum (hnk : 0 < nk) (hle : nk ≤ i) (hzero : i % nk ≠ 0)
    (hfour : ¬ (6 < nk ∧ i % nk = 4)) :
    scheduleWord nk key i = scheduleWord nk key (i - nk) ^^^ scheduleWord nk key (i - 1) := by
  rw [scheduleWord, dif_neg (by omega), if_neg hzero, if_neg hfour]

end Words

section Inverses

theorem Block.add_add (x y : Block) : (x.add y).add y = x := by
  simp only [Block.add, UInt32.xor_assoc, UInt32.xor_self, UInt32.xor_zero]

theorem fsb_eq_box : fsb = box := by
  funext x
  have hinverse := (AesTables.inverse_spec x).right_unique
    (Classical.choose_spec (exists_isInverse x))
  rw [AesTables.fsb_eq, hinverse, box]

theorem unshiftRows_shiftRows (x : Block) : unshiftRows (shiftRows x) = x := by
  simp only [shiftRows, unshiftRows, word_byte0, word_byte1, word_byte2, word_byte3, word_bytes]

theorem subWord_subWord {box unbox : UInt8 → UInt8} (h : ∀ x, unbox (box x) = x) (w : UInt32) :
    subWord unbox (subWord box w) = w := by
  simp only [subWord, word_byte0, word_byte1, word_byte2, word_byte3, h, word_bytes]

theorem unsubstitute_substitute (x : Block) :
    unsubstitute rsb (substitute fsb x) = x := by
  simp only [unsubstitute, substitute, unshiftRows_shiftRows, Block.map, subWord_subWord rsb_fsb]

theorem circulant_xor (r0 r1 r2 r3 : UInt8) (w v : UInt32) :
    circulant r0 r1 r2 r3 (w ^^^ v) = circulant r0 r1 r2 r3 w ^^^ circulant r0 r1 r2 r3 v := by
  have hsum (p q r s p' q' r' s' : UInt8) : p ^^^ p' ^^^ (q ^^^ q') ^^^ (r ^^^ r') ^^^ (s ^^^ s') =
      p ^^^ q ^^^ r ^^^ s ^^^ (p' ^^^ q' ^^^ r' ^^^ s') := by ac_rfl
  unfold circulant
  simp only [word_xor, UInt32.shiftRight_xor, UInt32.toUInt8_xor, mul_xor, hsum]

/-- The product of two circulant matrices. -/
theorem circulant_circulant (r0 r1 r2 r3 s0 s1 s2 s3 : UInt8) (w : UInt32) :
    circulant r0 r1 r2 r3 (circulant s0 s1 s2 s3 w) =
      circulant (mul r0 s0 ^^^ mul r1 s3 ^^^ mul r2 s2 ^^^ mul r3 s1)
        (mul r0 s1 ^^^ mul r1 s0 ^^^ mul r2 s3 ^^^ mul r3 s2)
        (mul r0 s2 ^^^ mul r1 s1 ^^^ mul r2 s0 ^^^ mul r3 s3)
        (mul r0 s3 ^^^ mul r1 s2 ^^^ mul r2 s1 ^^^ mul r3 s0) w := by
  unfold circulant
  simp only [word_byte0, word_byte1, word_byte2, word_byte3, mul_xor, xor_mul, mul_assoc]
  congr 1 <;> ac_rfl

theorem circulant_one (w : UInt32) : circulant 1 0 0 0 w = w := by
  simp only [circulant, one_mul, zero_mul, UInt8.xor_zero, UInt8.zero_xor, word_bytes]

theorem unmixColumn_mixColumn (w : UInt32) : unmixColumn (mixColumn w) = w := by
  rw [unmixColumn, mixColumn, circulant_circulant]
  exact circulant_one w

theorem unmix_mix (x : Block) : unmix (mix x) = x := by
  simp only [unmix, mix, Block.map, unmixColumn_mixColumn]

theorem unmix_add (x y : Block) : unmix (x.add y) = (unmix x).add (unmix y) := by
  simp only [unmix, Block.map, Block.add, unmixColumn, circulant_xor]

end Inverses

end IotExplorer.AesStandard
