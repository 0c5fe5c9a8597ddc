import Mathlib.Data.UInt

/-!
Words of 32 bits as four bytes, the lowest one first.
-/
namespace IotExplorer.Basis.ByteWords

def word (a b c d : UInt8) : UInt32 :=
  a.toUInt32 ^^^ b.toUInt32 <<< 8 ^^^ c.toUInt32 <<< 16 ^^^ d.toUInt32 <<< 24

/-- Words with the same bytes are the same. -/
theorem ext_bytes {w v : UInt32} (h0 : w.toUInt8 = v.toUInt8)
    (h1 : (w >>> 8).toUInt8 = (v >>> 8).toUInt8) (h2 : (w >>> 16).toUInt8 = (v >>> 16).toUInt8)
    (h3 : (w >>> 24).toUInt8 = (v >>> 24).toUInt8) : w = v := by
  have hw := w.toNat_lt
  have hv := v.toNat_lt
  have key {k : UInt32} {a b : UInt32} (h : (a >>> k).toUInt8 = (b >>> k).toUInt8) :
      a.toNat / 2 ^ (k.toNat % 32) % 256 = b.toNat / 2 ^ (k.toNat % 32) % 256 := by
    have hnat := congrArg UInt8.toNat h
    rwa [UInt32.toNat_toUInt8, UInt32.toNat_toUInt8, UInt32.toNat_shiftRight,
      UInt32.toNat_shiftRight, Nat.shiftRight_eq_div_pow, Nat.shiftRight_eq_div_pow] at hnat
  have k0 := congrArg UInt8.toNat h0
  rw [UInt32.toNat_toUInt8, UInt32.toNat_toUInt8] at k0
  have k1 := key h1
  have k2 := key h2
  have k3 := key h3
  simp only [UInt32.reduceToNat, Nat.reduceMod, Nat.reducePow] at k1 k2 k3
  apply UInt32.toNat_inj.mp
  omega

/-- A byte that is shifted up is found where it is, and nowhere else. -/
theorem shifted (x : UInt8) :
    (x.toUInt32.toUInt8 = x ∧ (x.toUInt32 >>> 8).toUInt8 = 0 ∧ (x.toUInt32 >>> 16).toUInt8 = 0 ∧
      (x.toUInt32 >>> 24).toUInt8 = 0) ∧
    ((x.toUInt32 <<< 8).toUInt8 = 0 ∧ (x.toUInt32 <<< 8 >>> 8).toUInt8 = x ∧
      (x.toUInt32 <<< 8 >>> 16).toUInt8 = 0 ∧ (x.toUInt32 <<< 8 >>> 24).toUInt8 = 0) ∧
    ((x.toUInt32 <<< 16).toUInt8 = 0 ∧ (x.toUInt32 <<< 16 >>> 8).toUInt8 = 0 ∧
      (x.toUInt32 <<< 16 >>> 16).toUInt8 = x ∧ (x.toUInt32 <<< 16 >>> 24).toUInt8 = 0) ∧
    ((x.toUInt32 <<< 24).toUInt8 = 0 ∧ (x.toUInt32 <<< 24 >>> 8).toUInt8 = 0 ∧
      (x.toUInt32 <<< 24 >>> 16).toUInt8 = 0 ∧ (x.toUInt32 <<< 24 >>> 24).toUInt8 = x) := by
  have hx : x.toNat < 256 := x.toNat_lt
  simp only [← UInt8.toNat_inj, UInt32.toNat_toUInt8, UInt32.toNat_shiftRight,
    UInt32.toNat_shiftLeft, UInt8.toNat_toUInt32, Nat.shiftLeft_eq, Nat.shiftRight_eq_div_pow,
    UInt32.reduceToNat, UInt8.reduceToNat, Nat.reduceMod, Nat.reducePow]
  refine ⟨⟨?_, ?_, ?_, ?_⟩, ⟨?_, ?_, ?_, ?_⟩, ⟨?_, ?_, ?_, ?_⟩, ⟨?_, ?_, ?_, ?_⟩⟩ <;> omega

variable (a b c d : UInt8)

@[simp] theorem word_byte0 : (word a b c d).toUInt8 = a := by
  simp only [word, UInt32.toUInt8_xor, shifted, UInt8.xor_zero]

@[simp] theorem word_byte1 : (word a b c d >>> 8).toUInt8 = b := by
  simp only [word, UInt32.shiftRight_xor, UInt32.toUInt8_xor, shifted, UInt8.xor_zero,
    UInt8.zero_xor]

@[simp] theorem word_byte2 : (word a b c d >>> 16).toUInt8 = c := by
  simp only [word, UInt32.shiftRight_xor, UInt32.toUInt8_xor, shifted, UInt8.xor_zero,
    UInt8.zero_xor]

@[simp] theorem word_byte3 : (word a b c d >>> 24).toUInt8 = d := by
  simp only [word, UInt32.shiftRight_xor, UInt32.toUInt8_xor, shifted, UInt8.zero_xor]

theorem word_bytes (w : UInt32) :
    word w.toUInt8 (w >>> 8).toUInt8 (w >>> 16).toUInt8 (w >>> 24).toUInt8 = w :=
  ext_bytes (by simp) (by simp) (by simp) (by simp)

/-- A word is added byte by byte. -/
theorem word_xor (a' b' c' d' : UInt8) :
    word a b c d ^^^ word a' b' c' d' = word (a ^^^ a') (b ^^^ b') (c ^^^ c') (d ^^^ d') := by
  apply ext_bytes <;> simp [UInt32.shiftRight_xor]

/-- The bytes may be joined instead of added. -/
theorem word_or :
    a.toUInt32 ||| b.toUInt32 <<< 8 ||| c.toUInt32 <<< 16 ||| d.toUInt32 <<< 24 = word a b c d := by
  apply ext_bytes <;>
    simp only [UInt32.shiftRight_or, UInt32.toUInt8_or, shifted, UInt8.or_zero, UInt8.zero_or,
      word_byte0, word_byte1, word_byte2, word_byte3]

/-- The rotation by a byte. -/
theorem word_rotate : (word a b c d <<< 8) ||| (word a b c d >>> 24) = word d a b c := by
  have hup (x : UInt8) : x.toUInt32 <<< 8 <<< 8 = x.toUInt32 <<< 16 ∧
      x.toUInt32 <<< 16 <<< 8 = x.toUInt32 <<< 24 ∧ x.toUInt32 <<< 24 <<< 8 = 0 := by
    have hx : x.toNat < 256 := x.toNat_lt
    simp only [← UInt32.toNat_inj, UInt32.toNat_shiftLeft, UInt8.toNat_toUInt32, Nat.shiftLeft_eq,
      UInt32.reduceToNat, Nat.reduceMod, Nat.reducePow]
    refine ⟨?_, ?_, ?_⟩ <;> omega
  have hdown (x : UInt8) : x.toUInt32 >>> 24 = 0 ∧ x.toUInt32 <<< 8 >>> 24 = 0 ∧
      x.toUInt32 <<< 16 >>> 24 = 0 ∧ x.toUInt32 <<< 24 >>> 24 = x.toUInt32 := by
    have hx : x.toNat < 256 := x.toNat_lt
    simp only [← UInt32.toNat_inj, UInt32.toNat_shiftRight, UInt32.toNat_shiftLeft,
      UInt8.toNat_toUInt32, Nat.shiftLeft_eq, Nat.shiftRight_eq_div_pow, UInt32.reduceToNat,
      Nat.reduceMod, Nat.reducePow]
    refine ⟨?_, ?_, ?_, ?_⟩ <;> omega
  have hleft : word a b c d <<< 8 =
      a.toUInt32 <<< 8 ^^^ b.toUInt32 <<< 16 ^^^ c.toUInt32 <<< 24 := by
    simp only [word, UInt32.shiftLeft_xor, hup, UInt32.xor_zero]
  have hright : word a b c d >>> 24 = d.toUInt32 := by
    simp only [word, UInt32.shiftRight_xor, hdown, UInt32.zero_xor]
  rw [hleft, hright]
  apply ext_bytes <;>
    simp only [UInt32.shiftRight_or, UInt32.toUInt8_or, UInt32.shiftRight_xor, UInt32.toUInt8_xor,
      shifted, UInt8.or_zero, UInt8.zero_or, UInt8.xor_zero, UInt8.zero_xor, word_byte0,
      word_byte1, word_byte2, word_byte3]

end IotExplorer.Basis.ByteWords
