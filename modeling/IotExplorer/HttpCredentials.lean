import IotExplorer.Base64

/-!
`_http_client_base64enc`, the encoder that the HTTP client uses for its
credentials. It goes over signed chars with one accumulator, so a char that is
negative overwrites the bits of the char before it that are still to be written.
-/
namespace IotExplorer.HttpCredentials

open TemplateJson
open Base64 (base64EncMap encodedText encodeAsked pad)

section SignedChars

/-- The bits of a `char`, which is signed, in an `int`. -/
def charBits (c : UInt8) : ℕ := if c.toNat < 128 then c.toNat else 2 ^ 32 - 256 + c.toNat

/-- The inner loop: six of the bits that are left at a time, from the top. -/
def drained (x : ℕ) : ℕ → List UInt8
  | l + 6 => base64EncMap (x / 2 ^ l % 64) :: drained x l
  | _ => []

/-- The outer loop with the accumulator and the number of bits left in it, and the last
bits behind it. -/
def packed : ℕ → ℕ → List UInt8 → List UInt8
  | x, l, [] => if l > 0 then [base64EncMap (x * 2 ^ (6 - l) % 64)] else []
  | x, l, c :: src =>
      let x := (x * 2 ^ 8 % 2 ^ 32) ||| charBits c
      drained x (l + 8) ++ packed x ((l + 8) % 6) src

def padded (out : List UInt8) : List UInt8 :=
  out ++ List.replicate ((4 - out.length % 4) % 4) pad

/-- `_http_client_base64enc` on the text in front of the NUL, up to where its index, an `int`,
overflows. -/
def httpClientBase64enc (src : List UInt8) : Option (List UInt8) :=
  let out := padded (packed 0 0 src)
  if out.length < 2 ^ 31 then some (out ++ [0]) else none

/-- A char that is negative sets all bits in front of it. -/
theorem charBits_or (x : ℕ) (c : UInt8) :
    (x * 2 ^ 8 % 2 ^ 32) ||| charBits c =
      if c.toNat < 128 then x % 2 ^ 24 * 256 + c.toNat else 2 ^ 32 - 256 + c.toNat := by
  have hc := c.toNat_lt
  have hx : x * 2 ^ 8 % 2 ^ 32 = 2 ^ 8 * (x % 2 ^ 24) := by omega
  rw [hx, charBits]
  split
  · rw [← Nat.two_pow_add_eq_or_of_lt hc]
    omega
  · have hsplit : 2 ^ 32 - 256 + c.toNat = 2 ^ 8 * (2 ^ 24 - 1) ||| c.toNat := by
      rw [← Nat.two_pow_add_eq_or_of_lt hc]
      omega
    have hones : (x % 2 ^ 24) ||| (2 ^ 24 - 1) = 2 ^ 24 - 1 := by
      apply Nat.eq_of_testBit_eq
      intro i
      rw [Nat.testBit_or, Nat.testBit_mod_two_pow, Nat.testBit_two_pow_sub_one]
      cases decide (i < 24) <;> simp
    have hmul : 2 ^ 8 * (x % 2 ^ 24) ||| 2 ^ 8 * (2 ^ 24 - 1) = 2 ^ 8 * (2 ^ 24 - 1) := by
      have h := Nat.shiftLeft_or_distrib (a := x % 2 ^ 24) (b := 2 ^ 24 - 1) (i := 8)
      rw [hones] at h
      simpa only [Nat.shiftLeft_eq, Nat.mul_comm] using h.symm
    rw [hsplit, ← Nat.or_assoc, hmul]

/-- The first char of a group: two bits of it stay. -/
theorem packed_first (x : ℕ) (c : UInt8) (src : List UInt8) :
    ∃ y, y % 4 = c.toNat % 4 ∧
      packed x 0 (c :: src) = base64EncMap (c.toNat / 4) :: packed y 2 src := by
  have hc := c.toNat_lt
  refine ⟨(x * 2 ^ 8 % 2 ^ 32) ||| charBits c, ?_, ?_⟩
  · rw [charBits_or]
    split <;> omega
  · have htop : ((x * 2 ^ 8 % 2 ^ 32) ||| charBits c) / 2 ^ 2 % 64 = c.toNat / 4 := by
      rw [charBits_or]
      split <;> omega
    simp only [packed, Nat.zero_add, drained, htop, Nat.reduceMod, List.cons_append,
      List.nil_append]

/-- The second char: the two bits in front of it are its own sign's if it is negative. -/
theorem packed_second (x : ℕ) (c : UInt8) (src : List UInt8) :
    ∃ y, y % 16 = c.toNat % 16 ∧
      packed x 2 (c :: src) =
        base64EncMap ((if c.toNat < 128 then x % 4 else 3) * 16 + c.toNat / 16) ::
          packed y 4 src := by
  have hc := c.toNat_lt
  refine ⟨(x * 2 ^ 8 % 2 ^ 32) ||| charBits c, ?_, ?_⟩
  · rw [charBits_or]
    split <;> omega
  · have htop : ((x * 2 ^ 8 % 2 ^ 32) ||| charBits c) / 2 ^ 4 % 64 =
        (if c.toNat < 128 then x % 4 else 3) * 16 + c.toNat / 16 := by
      rw [charBits_or]
      split <;> omega
    simp only [packed, Nat.reduceAdd, drained, htop, Nat.reduceMod, List.cons_append,
      List.nil_append]

/-- The third char, with the four bits in front of it. -/
theorem packed_third (x : ℕ) (c : UInt8) (src : List UInt8) :
    ∃ y, packed x 4 (c :: src) =
      base64EncMap ((if c.toNat < 128 then x % 16 else 15) * 4 + c.toNat / 64) ::
        base64EncMap (c.toNat % 64) :: packed y 0 src := by
  have hc := c.toNat_lt
  refine ⟨(x * 2 ^ 8 % 2 ^ 32) ||| charBits c, ?_⟩
  have htop : ((x * 2 ^ 8 % 2 ^ 32) ||| charBits c) / 2 ^ 6 % 64 =
      (if c.toNat < 128 then x % 16 else 15) * 4 + c.toNat / 64 := by
    rw [charBits_or]
    split <;> omega
  have hlow : ((x * 2 ^ 8 % 2 ^ 32) ||| charBits c) / 2 ^ 0 % 64 = c.toNat % 64 := by
    rw [charBits_or]
    split <;> omega
  simp only [packed, Nat.reduceAdd, drained, htop, hlow, Nat.reduceMod, List.cons_append,
    List.nil_append]

/-- The chars of every group of three whose signs change nothing: where a char is negative,
the bits of the char before it that are still in the accumulator are all set. -/
def signsHarmless : List UInt8 → Prop
  | c1 :: c2 :: c3 :: src =>
      (c2.toNat < 128 ∨ c1.toNat % 4 = 3) ∧ (c3.toNat < 128 ∨ c2.toNat % 16 = 15) ∧
        signsHarmless src
  | [c1, c2] => c2.toNat < 128 ∨ c1.toNat % 4 = 3
  | _ => True

instance : (src : List UInt8) → Decidable (signsHarmless src)
  | c1 :: c2 :: c3 :: src =>
      have := instDecidableSignsHarmless src
      inferInstanceAs (Decidable ((c2.toNat < 128 ∨ c1.toNat % 4 = 3) ∧
        (c3.toNat < 128 ∨ c2.toNat % 16 = 15) ∧ signsHarmless src))
  | [c1, c2] => inferInstanceAs (Decidable (c2.toNat < 128 ∨ c1.toNat % 4 = 3))
  | [_] => inferInstanceAs (Decidable True)
  | [] => inferInstanceAs (Decidable True)

end SignedChars

section Texts

theorem padded_group (a b c d : UInt8) (out : List UInt8) :
    padded (a :: b :: c :: d :: out) = a :: b :: c :: d :: padded out := by
  have hmod : (out.length + 4) % 4 = out.length % 4 := Nat.add_mod_right _ _
  simp only [padded, List.length_cons, hmod, List.cons_append]

theorem symbol_eq_iff {i j : ℕ} (hi : i < 64) (hj : j < 64) :
    base64EncMap i = base64EncMap j ↔ i = j :=
  ⟨Base64.symbol_injective hi hj, fun h => by rw [h]⟩

/-- Without the signs, the accumulator gives the same text as the groups of three. -/
theorem padded_packed_iff (x : ℕ) (src : List UInt8) :
    padded (packed x 0 src) = encodedText src ↔ signsHarmless src := by
  fun_induction encodedText src generalizing x with
  | case1 => simp [packed, padded, signsHarmless]
  | case2 c1 =>
      obtain ⟨y, hy, htext⟩ := packed_first x c1 []
      have hc := c1.toNat_lt
      have hlow : y * 2 ^ (6 - 2) % 64 = c1.toNat % 4 * 16 % 64 := by omega
      have htop : c1.toNat / 4 % 64 = c1.toNat / 4 := by omega
      rw [htext, htop, ← hlow]
      simp [packed, padded, signsHarmless]
  | case3 c1 c2 =>
      obtain ⟨y, hy, htext⟩ := packed_first x c1 [c2]
      obtain ⟨z, hz, hnext⟩ := packed_second y c2 []
      have h1 := c1.toNat_lt
      have h2 := c2.toNat_lt
      have hlow : z * 2 ^ (6 - 4) % 64 = c2.toNat % 16 * 4 % 64 := by omega
      have htop : c1.toNat / 4 % 64 = c1.toNat / 4 := by omega
      have hmid : base64EncMap ((if c2.toNat < 128 then y % 4 else 3) * 16 + c2.toNat / 16) =
          base64EncMap ((c1.toNat % 4 * 16 + c2.toNat / 16) % 64) ↔
            (c2.toNat < 128 ∨ c1.toNat % 4 = 3) := by
        rw [symbol_eq_iff (by split <;> omega) (by omega)]
        split <;> omega
      have hend : packed z 4 [] = [base64EncMap (z * 2 ^ (6 - 4) % 64)] := rfl
      have hpad (a b c : UInt8) : padded [a, b, c] = [a, b, c, pad] := rfl
      rw [htext, hnext, hend, htop, ← hlow, hpad]
      simp only [List.cons.injEq, true_and, and_true, hmid, signsHarmless]
  | case4 c1 c2 c3 src ih =>
      obtain ⟨y, hy, htext⟩ := packed_first x c1 (c2 :: c3 :: src)
      obtain ⟨z, hz, hnext⟩ := packed_second y c2 (c3 :: src)
      obtain ⟨w, hlast⟩ := packed_third z c3 src
      have h1 := c1.toNat_lt
      have h2 := c2.toNat_lt
      have h3 := c3.toNat_lt
      have htop : c1.toNat / 4 % 64 = c1.toNat / 4 := by omega
      have hsecond : base64EncMap ((if c2.toNat < 128 then y % 4 else 3) * 16 + c2.toNat / 16) =
          base64EncMap ((c1.toNat % 4 * 16 + c2.toNat / 16) % 64) ↔
            (c2.toNat < 128 ∨ c1.toNat % 4 = 3) := by
        rw [symbol_eq_iff (by split <;> omega) (by omega)]
        split <;> omega
      have hthird : base64EncMap ((if c3.toNat < 128 then z % 16 else 15) * 4 + c3.toNat / 64) =
          base64EncMap ((c2.toNat % 16 * 4 + c3.toNat / 64) % 64) ↔
            (c3.toNat < 128 ∨ c2.toNat % 16 = 15) := by
        rw [symbol_eq_iff (by split <;> omega) (by omega)]
        split <;> omega
      rw [htext, hnext, hlast, padded_group, htop]
      simp only [List.cons.injEq, true_and, hsecond, hthird, ih w, signsHarmless]

theorem packed_length (x l : ℕ) (hl : l = 0 ∨ l = 2 ∨ l = 4) (src : List UInt8) :
    (packed x l src).length = (l + 8 * src.length + 5) / 6 := by
  induction src generalizing x l with
  | nil => rcases hl with rfl | rfl | rfl <;> rfl
  | cons c src ih =>
      rcases hl with rfl | rfl | rfl
      · obtain ⟨y, -, h⟩ := packed_first x c src
        rw [h, List.length_cons, ih y 2 (by decide), List.length_cons]
        omega
      · obtain ⟨y, -, h⟩ := packed_second x c src
        rw [h, List.length_cons, ih y 4 (by decide), List.length_cons]
        omega
      · obtain ⟨y, h⟩ := packed_third x c src
        rw [h, List.length_cons, List.length_cons, ih y 0 (by decide), List.length_cons]
        omega

theorem padded_length (x : ℕ) (src : List UInt8) :
    (padded (packed x 0 src)).length = 4 * ((src.length + 2) / 3) := by
  rw [padded, List.length_append, List.length_replicate, packed_length x 0 (by decide)]
  omega

/-- On a text without NUL that is not empty, the two encoders agree exactly when no negative
char changes the bits in front of it and the index stays an `int`. -/
theorem credentials_encoded_iff (sizeBits : ℕ) (hbits : 32 ≤ sizeBits) (src : List UInt8)
    (hne : src ≠ []) :
    (encodeAsked sizeBits src).code = .success ∧
        httpClientBase64enc src = some (encodeAsked sizeBits src).written ↔
      signsHarmless src ∧ 4 * ((src.length + 2) / 3) < 2 ^ 31 := by
  have hbig : 2 ^ 32 ≤ 2 ^ sizeBits := Nat.pow_le_pow_right (by decide) hbits
  simp only [httpClientBase64enc, padded_length]
  by_cases hfit : 4 * ((src.length + 2) / 3) < 2 ^ 31
  · rw [Base64.encodeAsked_eq sizeBits src hne (by omega), if_pos hfit]
    simp only [true_and, Option.some.injEq, List.append_left_inj, hfit, and_true]
    exact padded_packed_iff 0 src
  · rw [if_neg hfit]
    refine iff_of_false ?_ (fun h => hfit h.2)
    rintro ⟨-, h⟩
    cases h

/-- Letters and digits are encoded alike. -/
theorem credentials_encoded_iff_user :
    httpClientBase64enc (ascii "user:pass") =
      some (encodeAsked 32 (ascii "user:pass")).written :=
  ((credentials_encoded_iff 32 (by decide) (ascii "user:pass") (by decide)).mpr
    (by decide)).2

/-- `a` followed by a byte above 127. -/
theorem credentials_encoded_differently :
    ¬ ∀ src : List UInt8, src ≠ [] → 0 ∉ src →
      httpClientBase64enc src = some (encodeAsked 32 src).written := by
  intro h
  have hsame := h [0x61, 0xE9] (by decide) (by decide)
  revert hsame
  decide +kernel

end Texts

end IotExplorer.HttpCredentials
