import IotExplorer.TemplateJson
import Mathlib.Algebra.Group.Int.Defs
import Mathlib.Algebra.Group.Nat.Defs
import Mathlib.Data.Nat.Notation

/-!
`qcloud_iot_utils_base64encode` and `qcloud_iot_utils_base64decode`. The decoder
goes over its text twice: the first pass checks the text and computes the room
that is needed, the second one writes. The room is computed in a `size_t`, so it
is right only as long as six bits for each character can be counted in one.
-/
namespace IotExplorer.Base64

open TemplateJson

section Codecs

def newline : UInt8 := 0x0A
def carriageReturn : UInt8 := 0x0D
def blank : UInt8 := 0x20
def pad : UInt8 := 0x3D

def base64EncMap (index : ℕ) : UInt8 :=
  (ascii "ABCDEFGHIJKLMNOPQRSTUVWXYZabcdefghijklmnopqrstuvwxyz0123456789+/").getD index 0

/-- `base64_dec_map`; a byte above 127 is told apart before it is looked up. -/
def base64DecMap (c : UInt8) : ℕ :=
  [127, 127, 127, 127, 127, 127, 127, 127, 127, 127, 127, 127, 127, 127, 127, 127, 127, 127, 127,
    127, 127, 127, 127, 127, 127, 127, 127, 127, 127, 127, 127, 127, 127, 127, 127, 127, 127, 127,
    127, 127, 127, 127, 127, 62, 127, 127, 127, 63, 52, 53, 54, 55, 56, 57, 58, 59, 60, 61, 127,
    127, 127, 64, 127, 127, 127, 0, 1, 2, 3, 4, 5, 6, 7, 8, 9, 10, 11, 12, 13, 14, 15, 16, 17, 18,
    19, 20, 21, 22, 23, 24, 25, 127, 127, 127, 127, 127, 127, 26, 27, 28, 29, 30, 31, 32, 33, 34,
    35, 36, 37, 38, 39, 40, 41, 42, 43, 44, 45, 46, 47, 48, 49, 50, 51, 127, 127, 127, 127,
    127].getD c.toNat 127

def encodedText : List UInt8 → List UInt8
  | [] => []
  | [c1] =>
      [base64EncMap (c1.toNat / 4 % 64), base64EncMap (c1.toNat % 4 * 16 % 64), pad, pad]
  | [c1, c2] =>
      [base64EncMap (c1.toNat / 4 % 64), base64EncMap ((c1.toNat % 4 * 16 + c2.toNat / 16) % 64),
        base64EncMap (c2.toNat % 16 * 4 % 64), pad]
  | c1 :: c2 :: c3 :: src =>
      base64EncMap (c1.toNat / 4 % 64) ::
        base64EncMap ((c1.toNat % 4 * 16 + c2.toNat / 16) % 64) ::
        base64EncMap ((c2.toNat % 16 * 4 + c3.toNat / 64) % 64) ::
        base64EncMap (c3.toNat % 64) :: encodedText src

inductive Base64Code
  | success
  | failure
  deriving DecidableEq, Repr

/-- What a call leaves: its code, `*olen` if it is set, and the bytes from `dst` on. -/
structure Result where
  code : Base64Code
  olen : Option ℕ
  written : List UInt8
  deriving DecidableEq, Repr

variable (sizeBits : ℕ)

/-- `qcloud_iot_utils_base64encode` with a `size_t` of so many bits; `dst` may be NULL. -/
def utilsBase64encode (dst : Bool) (dlen : ℕ) (src : List UInt8) : Result :=
  if src.length = 0 then ⟨.success, some 0, []⟩
  else
    let n := src.length / 3 + if src.length % 3 ≠ 0 then 1 else 0
    if n > (2 ^ sizeBits - 1 - 1) / 4 then ⟨.failure, some (2 ^ sizeBits - 1), []⟩
    else if dlen < n * 4 + 1 ∨ !dst then ⟨.failure, some (n * 4 + 1), []⟩
    else ⟨.success, some (encodedText src).length, encodedText src ++ [0]⟩

/-- The first pass: the number `n` of characters that count and the number `j` of pads among
them, if the text is valid; `spaced` tells whether there are spaces in front. -/
def checkText : Bool → ℕ → ℕ → List UInt8 → Option (ℕ × ℕ)
  | _, n, j, [] => some (n, j)
  | spaced, n, j, c :: src =>
      if c = blank then checkText true n j src
      else if c = carriageReturn ∧ src.head? = some newline then checkText false n j src
      else if c = newline then checkText false n j src
      else if spaced then none
      else
        let j := if c = pad then j + 1 else j
        if j > 2 then none
        else if base64DecMap c = 127 then none
        else if base64DecMap c < 64 ∧ j ≠ 0 then none
        else checkText false (n + 1) j src

/-- The second pass: `j` bytes are written for every fourth character. -/
def decodedBytes : ℕ → ℕ → ℕ → List UInt8 → List UInt8
  | _, _, _, [] => []
  | j, n, x, c :: src =>
      if c = carriageReturn ∨ c = newline ∨ c = blank then decodedBytes j n x src
      else
        let j := j - if base64DecMap c = 64 then 1 else 0
        let x := (x * 64 % 2 ^ 32) ||| (base64DecMap c % 64)
        if n + 1 = 4 then
          (if j > 0 then [UInt8.ofNat (x / 2 ^ 16)] else []) ++
            (if j > 1 then [UInt8.ofNat (x / 2 ^ 8)] else []) ++
            (if j > 2 then [UInt8.ofNat x] else []) ++ decodedBytes j 0 x src
        else decodedBytes j (n + 1) x src

def roomAsked (n j : ℕ) : ℕ :=
  (((n * 6 + 7) % 2 ^ sizeBits / 8 : ℕ) - j : ℤ) % 2 ^ sizeBits |>.toNat

def utilsBase64decode (dst : Bool) (dlen : ℕ) (src : List UInt8) : Result :=
  match checkText false 0 0 src with
  | none => ⟨.failure, none, []⟩
  | some (n, j) =>
      if n = 0 then ⟨.success, some 0, []⟩
      else if !dst ∨ dlen < roomAsked sizeBits n j then
        ⟨.failure, some (roomAsked sizeBits n j), []⟩
      else
        let out := decodedBytes 3 0 0 src
        ⟨.success, some out.length, out⟩

end Codecs

section Symbols

theorem symbol_value (i : ℕ) (h : i < 64) :
    base64DecMap (base64EncMap i) = i ∧ base64EncMap i ≠ blank ∧
      base64EncMap i ≠ carriageReturn ∧ base64EncMap i ≠ newline ∧ base64EncMap i ≠ pad := by
  revert i
  decide +kernel

theorem symbol_injective {i j : ℕ} (hi : i < 64) (hj : j < 64)
    (h : base64EncMap i = base64EncMap j) : i = j := by
  rw [← (symbol_value i hi).1, h, (symbol_value j hj).1]

theorem pad_value : base64DecMap pad = 64 ∧ pad ≠ blank ∧ pad ≠ carriageReturn ∧ pad ≠ newline := by
  decide

theorem value_eq_pad (c : UInt8) : base64DecMap c = 64 ↔ c = pad := by
  refine ⟨fun h => ?_, fun h => by rw [h]; exact pad_value.1⟩
  revert h
  rw [← UInt8.ofNat_toNat (x := c)]
  have hc := c.toNat_lt
  revert hc
  generalize c.toNat = n
  revert n
  decide +kernel

theorem value_lt {c : UInt8} (h : base64DecMap c ≠ 127) (hpad : base64DecMap c ≠ 64) :
    base64DecMap c < 64 := by
  revert h hpad
  rw [← UInt8.ofNat_toNat (x := c)]
  have hc := c.toNat_lt
  revert hc
  generalize c.toNat = n
  revert n
  decide +kernel

end Symbols

section RoundTrip

/-- What the passes make of one character of the alphabet. -/
theorem checkText_symbol (i n : ℕ) (h : i < 64) (src : List UInt8) :
    checkText false n 0 (base64EncMap i :: src) = checkText false (n + 1) 0 src := by
  obtain ⟨hv, hb, hc, hn, hp⟩ := symbol_value i h
  have hlt : i ≠ 127 := by omega
  simp [checkText, hv, hb, hc, hn, hp, hlt]

theorem checkText_pad (n j : ℕ) (h : j < 2) (src : List UInt8) :
    checkText false n j (pad :: src) = checkText false (n + 1) (j + 1) src := by
  obtain ⟨hv, hb, hc, hn⟩ := pad_value
  have hj : ¬ 2 < j + 1 := by omega
  simp [checkText, hv, hb, hc, hn, hj]

/-- The pads at the end of the text of so many bytes. -/
def padsOf (length : ℕ) : ℕ := if length % 3 = 0 then 0 else 3 - length % 3

theorem encodedText_length (src : List UInt8) :
    (encodedText src).length = 4 * ((src.length + 2) / 3) := by
  fun_induction encodedText src with
  | case1 => rfl
  | case2 c1 => simp
  | case3 c1 c2 => simp
  | case4 c1 c2 c3 src ih => simp [ih]; omega

theorem checkText_encodedText (n : ℕ) (src : List UInt8) :
    checkText false n 0 (encodedText src) =
      some (n + (encodedText src).length, padsOf src.length) := by
  fun_induction encodedText src generalizing n with
  | case1 => simp [checkText, padsOf]
  | case2 c1 =>
      rw [checkText_symbol _ _ (Nat.mod_lt _ (by decide)),
        checkText_symbol _ _ (Nat.mod_lt _ (by decide)), checkText_pad _ _ (by decide),
        checkText_pad _ _ (by decide)]
      simp [checkText, padsOf]
  | case3 c1 c2 =>
      rw [checkText_symbol _ _ (Nat.mod_lt _ (by decide)),
        checkText_symbol _ _ (Nat.mod_lt _ (by decide)),
        checkText_symbol _ _ (Nat.mod_lt _ (by decide)), checkText_pad _ _ (by decide)]
      simp [checkText, padsOf]
  | case4 c1 c2 c3 src ih =>
      rw [checkText_symbol _ _ (Nat.mod_lt _ (by decide)),
        checkText_symbol _ _ (Nat.mod_lt _ (by decide)),
        checkText_symbol _ _ (Nat.mod_lt _ (by decide)),
        checkText_symbol _ _ (Nat.mod_lt _ (by decide)), ih]
      have hpads : padsOf (c1 :: c2 :: c3 :: src).length = padsOf src.length := by
        have hmod : (src.length + 3) % 3 = src.length % 3 := Nat.add_mod_right _ _
        simp only [padsOf, List.length_cons, hmod]
      rw [hpads]
      simp only [List.length_cons]
      congr 2
      omega

/-- Six more bits in the accumulator. -/
theorem accumulated (x a : ℕ) (h : a < 64) :
    (x * 64 % 2 ^ 32) ||| a = x % 2 ^ 26 * 64 + a := by
  have hx : x * 64 % 2 ^ 32 = 2 ^ 6 * (x % 2 ^ 26) := by omega
  rw [hx, ← Nat.two_pow_add_eq_or_of_lt h]
  omega

theorem decodedBytes_symbol (j n x i : ℕ) (h : i < 64) (hn : n < 3) (src : List UInt8) :
    decodedBytes j n x (base64EncMap i :: src) =
      decodedBytes j (n + 1) (x % 2 ^ 26 * 64 + i) src := by
  obtain ⟨hv, hb, hc, hl, -⟩ := symbol_value i h
  have h64 : i ≠ 64 := by omega
  have h4 : n + 1 ≠ 4 := by omega
  rw [decodedBytes]
  simp only [hb, hc, hl, hv, h64, h4, or_self, if_false, Nat.sub_zero, Nat.mod_eq_of_lt h,
    accumulated x i h]

theorem decodedBytes_last (x i : ℕ) (h : i < 64) (src : List UInt8) :
    decodedBytes 3 3 x (base64EncMap i :: src) =
      UInt8.ofNat ((x % 2 ^ 26 * 64 + i) / 2 ^ 16) :: UInt8.ofNat ((x % 2 ^ 26 * 64 + i) / 2 ^ 8) ::
        UInt8.ofNat (x % 2 ^ 26 * 64 + i) :: decodedBytes 3 0 (x % 2 ^ 26 * 64 + i) src := by
  obtain ⟨hv, hb, hc, hl, -⟩ := symbol_value i h
  have h64 : i ≠ 64 := by omega
  rw [decodedBytes]
  simp only [hb, hc, hl, hv, h64, or_self, if_false, Nat.sub_zero, Nat.mod_eq_of_lt h,
    accumulated x i h]
  rfl

/-- The pads in the third and the fourth place. -/
theorem decodedBytes_pads (x : ℕ) :
    decodedBytes 3 2 x [pad, pad] = [UInt8.ofNat (x % 2 ^ 20 * 2 ^ 12 / 2 ^ 16)] := by
  have hacc := accumulated (x % 2 ^ 26 * 64) 0 (by decide)
  have hfirst := accumulated x 0 (by decide)
  have hx : x % 2 ^ 26 * 64 % 2 ^ 26 * 64 = x % 2 ^ 20 * 2 ^ 12 := by omega
  simp only [Nat.add_zero] at hacc hfirst
  rw [hx] at hacc
  simp only [decodedBytes, pad_value, or_self, if_false, if_true, Nat.mod_self, hfirst, hacc]
  simp

theorem decodedBytes_pad (x : ℕ) :
    decodedBytes 3 3 x [pad] =
      [UInt8.ofNat (x % 2 ^ 26 * 64 / 2 ^ 16), UInt8.ofNat (x % 2 ^ 26 * 64 / 2 ^ 8)] := by
  have hacc := accumulated x 0 (by decide)
  simp only [Nat.add_zero] at hacc
  simp only [decodedBytes, pad_value, or_self, if_false, if_true, Nat.mod_self, hacc]
  simp

theorem ofNat_eq_of_mod {n : ℕ} {c : UInt8} (h : n % 256 = c.toNat) : UInt8.ofNat n = c :=
  UInt8.toNat_inj.mp (by rw [UInt8.toNat_ofNat']; exact h)

theorem decodedBytes_encodedText (x : ℕ) (src : List UInt8) :
    decodedBytes 3 0 x (encodedText src) = src := by
  have hlt (n : ℕ) : n % 64 < 64 := Nat.mod_lt _ (by decide)
  fun_induction encodedText src generalizing x with
  | case1 => rfl
  | case2 c1 =>
      have h1 := c1.toNat_lt
      rw [decodedBytes_symbol _ _ _ _ (hlt _) (by decide),
        decodedBytes_symbol _ _ _ _ (hlt _) (by decide), decodedBytes_pads,
        ofNat_eq_of_mod (c := c1) (by omega)]
  | case3 c1 c2 =>
      have h1 := c1.toNat_lt
      have h2 := c2.toNat_lt
      rw [decodedBytes_symbol _ _ _ _ (hlt _) (by decide),
        decodedBytes_symbol _ _ _ _ (hlt _) (by decide),
        decodedBytes_symbol _ _ _ _ (hlt _) (by decide), decodedBytes_pad,
        ofNat_eq_of_mod (c := c1) (by omega), ofNat_eq_of_mod (c := c2) (by omega)]
  | case4 c1 c2 c3 src ih =>
      have h1 := c1.toNat_lt
      have h2 := c2.toNat_lt
      have h3 := c3.toNat_lt
      rw [decodedBytes_symbol _ _ _ _ (hlt _) (by decide),
        decodedBytes_symbol _ _ _ _ (hlt _) (by decide),
        decodedBytes_symbol _ _ _ _ (hlt _) (by decide), decodedBytes_last _ _ (hlt _), ih,
        ofNat_eq_of_mod (c := c1) (by omega), ofNat_eq_of_mod (c := c2) (by omega),
        ofNat_eq_of_mod (c := c3) (by omega)]

/-- A caller who asks for the size before it encodes. -/
def encodeAsked (sizeBits : ℕ) (src : List UInt8) : Result :=
  utilsBase64encode sizeBits true ((utilsBase64encode sizeBits false 0 src).olen.getD 0) src

def decodeAsked (sizeBits : ℕ) (text : List UInt8) : Result :=
  utilsBase64decode sizeBits true ((utilsBase64decode sizeBits false 0 text).olen.getD 0) text

theorem encodeAsked_eq (sizeBits : ℕ) (src : List UInt8) (hne : src ≠ [])
    (hfit : 4 * ((src.length + 2) / 3) + 1 < 2 ^ sizeBits) :
    encodeAsked sizeBits src =
      ⟨.success, some (encodedText src).length, encodedText src ++ [0]⟩ := by
  have hpos := List.length_pos_iff.mpr hne
  have hn : (src.length / 3 + if src.length % 3 ≠ 0 then 1 else 0) = (src.length + 2) / 3 := by
    split <;> omega
  have hsmall : ¬ (src.length + 2) / 3 > (2 ^ sizeBits - 1 - 1) / 4 := by omega
  have hzero : src.length ≠ 0 := by omega
  simp only [encodeAsked, utilsBase64encode, hzero, if_false, hn, hsmall]
  simp

/-- With the room that is asked for, the second pass runs. -/
theorem decodeAsked_eq (sizeBits : ℕ) (text : List UInt8) {n j : ℕ} (hn : n ≠ 0)
    (h : checkText false 0 0 text = some (n, j)) :
    decodeAsked sizeBits text =
      ⟨.success, some (decodedBytes 3 0 0 text).length, decodedBytes 3 0 0 text⟩ := by
  simp [decodeAsked, utilsBase64decode, h, hn]

/-- What is encoded and decoded with the sizes that are asked for is what it was. -/
theorem decodeAsked_encodeAsked (sizeBits : ℕ) (src : List UInt8)
    (hfit : 4 * ((src.length + 2) / 3) + 1 < 2 ^ sizeBits) :
    (encodeAsked sizeBits src).code = .success ∧
      decodeAsked sizeBits
          ((encodeAsked sizeBits src).written.take ((encodeAsked sizeBits src).olen.getD 0)) =
        ⟨.success, some src.length, src⟩ := by
  by_cases hne : src = []
  · subst hne
    exact ⟨rfl, rfl⟩
  · have hpos := List.length_pos_iff.mpr hne
    have hn : 0 + (encodedText src).length ≠ 0 := by
      rw [encodedText_length]
      omega
    rw [encodeAsked_eq sizeBits src hne hfit]
    refine ⟨rfl, ?_⟩
    rw [Option.getD_some, List.take_left,
      decodeAsked_eq sizeBits _ hn (checkText_encodedText 0 src), decodedBytes_encodedText]

end RoundTrip

section Room

/-- How many bytes the second pass writes: three for each group of four characters, less the
pads that stand in the last whole group. -/
def writtenCount (n j : ℕ) : ℕ := 3 * (n / 4) - (j - n % 4)

theorem checkText_pads {spaced : Bool} {n j N J : ℕ} {src : List UInt8} (hj : j ≤ 2)
    (hjn : j ≤ n) (h : checkText spaced n j src = some (N, J)) :
    J ≤ 2 ∧ J ≤ N ∧ N ≤ n + src.length := by
  fun_induction checkText spaced n j src with
  | case1 spaced n j =>
      obtain ⟨rfl, rfl⟩ := Prod.mk.inj (Option.some.inj h)
      exact ⟨hj, hjn, by simp⟩
  | case2 spaced n j src ih =>
      have hrest := ih hj hjn h
      simp only [List.length_cons]
      omega
  | case3 spaced n j c src hb hc ih =>
      have hrest := ih hj hjn h
      simp only [List.length_cons]
      omega
  | case4 spaced n j src hb hc ih =>
      have hrest := ih hj hjn h
      simp only [List.length_cons]
      omega
  | case5 => cases h
  | case6 => cases h
  | case7 => cases h
  | case8 => cases h
  | case9 spaced n j c src hb hc hl hs j' htwo hval hpad ih =>
      have hle : j' ≤ j + 1 := by
        simp only [j']
        split <;> omega
      have hrest := ih (by omega) (by omega) h
      simp only [List.length_cons]
      omega

theorem skipped (j n x : ℕ) {c : UInt8} (src : List UInt8)
    (h : c = carriageReturn ∨ c = newline ∨ c = blank) :
    decodedBytes j n x (c :: src) = decodedBytes j n x src := by
  rw [decodedBytes, if_pos h]

/-- The bytes of a whole group, by the number of its characters that are no pads. -/
theorem group_length (j x : ℕ) (h : j ≤ 3) :
    ((if j > 0 then [UInt8.ofNat (x / 2 ^ 16)] else []) ++
      (if j > 1 then [UInt8.ofNat (x / 2 ^ 8)] else []) ++
      (if j > 2 then [UInt8.ofNat x] else [])).length = j := by
  obtain rfl | rfl | rfl | rfl : j = 0 ∨ j = 1 ∨ j = 2 ∨ j = 3 := by omega
  all_goals rfl

/-- What is still written in the second pass brings the count from the one of the characters
read to the one of the whole text. The pads are the last characters that count. -/
theorem decodedBytes_length {spaced : Bool} {n j N J : ℕ} {src : List UInt8} (x : ℕ)
    (hj : j ≤ 2) (hjn : j ≤ n) (h : checkText spaced n j src = some (N, J)) :
    writtenCount n j + (decodedBytes (3 - j) (n % 4) x src).length = writtenCount N J := by
  fun_induction checkText spaced n j src generalizing x with
  | case1 spaced n j =>
      obtain ⟨rfl, rfl⟩ := Prod.mk.inj (Option.some.inj h)
      rfl
  | case2 spaced n j src ih =>
      rw [skipped _ _ _ _ (.inr (.inr rfl))]
      exact ih x hj hjn h
  | case3 spaced n j c src hb hc ih =>
      rw [skipped _ _ _ _ (.inl hc.1)]
      exact ih x hj hjn h
  | case4 spaced n j src hb hc ih =>
      rw [skipped _ _ _ _ (.inr (.inl rfl))]
      exact ih x hj hjn h
  | case5 => cases h
  | case6 => cases h
  | case7 => cases h
  | case8 => cases h
  | case9 spaced n j c src hb hc hl hs j' htwo hval hpad ih =>
      have hret : c ≠ carriageReturn := by
        rintro rfl
        exact hval rfl
      -- a character that is no pad comes before all pads
      have hj' : j' = j + 1 ∧ base64DecMap c = 64 ∨ j' = j ∧ j = 0 ∧ base64DecMap c ≠ 64 := by
        by_cases hp : c = pad
        · exact .inl ⟨if_pos hp, (value_eq_pad c).mpr hp⟩
        · have heq : j' = j := if_neg hp
          have h64 : base64DecMap c ≠ 64 := fun h => hp ((value_eq_pad c).mp h)
          have hlt : base64DecMap c < 64 := value_lt hval h64
          exact .inr ⟨heq, by simpa [heq, hlt] using hpad, h64⟩
      have hleft : (3 - j - if base64DecMap c = 64 then 1 else 0) = 3 - j' := by
        rcases hj' with ⟨heq, hv⟩ | ⟨heq, -, hv⟩
        · rw [if_pos hv, heq]
          omega
        · rw [if_neg hv, heq, Nat.sub_zero]
      rw [decodedBytes, if_neg (by simp [hret, hl, hb])]
      simp only [hleft]
      split
      · rename_i hfull
        have hmod : (n + 1) % 4 = 0 := by omega
        have hrest := ih (x * 64 % 2 ^ 32 ||| base64DecMap c % 64) (by omega) (by omega) h
        rw [hmod] at hrest
        rw [List.length_append, group_length _ _ (by omega), ← hrest]
        simp only [writtenCount]
        omega
      · rename_i hfull
        have hmod : (n + 1) % 4 = n % 4 + 1 := by omega
        have hrest := ih (x * 64 % 2 ^ 32 ||| base64DecMap c % 64) (by omega) (by omega) h
        rw [hmod] at hrest
        rw [← hrest]
        simp only [writtenCount]
        omega

/-- Whether the room that is asked for holds what is written. The sum in bits may overflow;
what is left is then too little, unless the pads are more than its whole bytes. -/
def roomSuffices (sizeBits : ℕ) (text : List UInt8) : Prop :=
  match checkText false 0 0 text with
  | none => True
  | some (n, j) => n * 6 + 7 < 2 ^ sizeBits ∨ (n * 6 + 7) % 2 ^ sizeBits / 8 < j

instance (sizeBits : ℕ) (text : List UInt8) : Decidable (roomSuffices sizeBits text) := by
  unfold roomSuffices
  split <;> infer_instance

theorem roomAsked_eq (sizeBits n j : ℕ) (hbits : 16 ≤ sizeBits) (hj : j ≤ 2) :
    roomAsked sizeBits n j =
      if (n * 6 + 7) % 2 ^ sizeBits / 8 < j then 2 ^ sizeBits + (n * 6 + 7) % 2 ^ sizeBits / 8 - j
      else (n * 6 + 7) % 2 ^ sizeBits / 8 - j := by
  have hbig : 2 ^ 16 ≤ 2 ^ sizeBits := Nat.pow_le_pow_right (by decide) hbits
  have hlt : (n * 6 + 7) % 2 ^ sizeBits / 8 < 2 ^ sizeBits := by
    have hmod := Nat.mod_lt (n * 6 + 7) (show 0 < 2 ^ sizeBits by omega)
    omega
  unfold roomAsked
  generalize (n * 6 + 7) % 2 ^ sizeBits / 8 = m at *
  have hcast : ((2 : ℤ) ^ sizeBits) = ((2 ^ sizeBits : ℕ) : ℤ) := by push_cast; rfl
  rw [hcast]
  generalize 2 ^ sizeBits = w at *
  split
  · rename_i hlt
    rw [← Int.add_emod_right, Int.emod_eq_of_lt (by omega) (by omega)]
    omega
  · rw [Int.emod_eq_of_lt (by omega) (by omega)]
    omega

theorem written_le_room_iff (sizeBits n j : ℕ) (hbits : 16 ≤ sizeBits) (hn : n < 2 ^ sizeBits)
    (hj : j ≤ 2) (hjn : j ≤ n) :
    writtenCount n j ≤ roomAsked sizeBits n j ↔
      n * 6 + 7 < 2 ^ sizeBits ∨ (n * 6 + 7) % 2 ^ sizeBits / 8 < j := by
  have hbig : 2 ^ 16 ≤ 2 ^ sizeBits := Nat.pow_le_pow_right (by decide) hbits
  rw [roomAsked_eq sizeBits n j hbits hj]
  simp only [writtenCount]
  by_cases hsum : n * 6 + 7 < 2 ^ sizeBits
  · rw [Nat.mod_eq_of_lt hsum]
    refine iff_of_true ?_ (.inl hsum)
    split <;> omega
  · have hdiv := Nat.div_add_mod (n * 6 + 7) (2 ^ sizeBits)
    have hquot : 1 ≤ (n * 6 + 7) / 2 ^ sizeBits := Nat.div_pos (by omega) (by omega)
    have hsub : (n * 6 + 7) % 2 ^ sizeBits ≤ n * 6 + 7 - 2 ^ sizeBits := by
      have hmul := Nat.mul_le_mul_left (2 ^ sizeBits) hquot
      omega
    generalize (n * 6 + 7) % 2 ^ sizeBits = m at *
    generalize 2 ^ sizeBits = w at *
    split
    · rename_i hlt
      exact iff_of_true (by omega) (.inr hlt)
    · rename_i hge
      refine iff_of_false (by omega) ?_
      rintro (h | h)
      · exact hsum h
      · exact hge h

/-- What a decoder owes its caller: it stays inside the buffer, and the length it reports is
the one it has written. -/
def decodeRight (sizeBits : ℕ) (text : List UInt8) : Prop :=
  ∀ (dst : Bool) (dlen : ℕ),
    (utilsBase64decode sizeBits dst dlen text).written.length ≤ dlen ∧
      ((utilsBase64decode sizeBits dst dlen text).code = .success →
        (utilsBase64decode sizeBits dst dlen text).olen =
          some (utilsBase64decode sizeBits dst dlen text).written.length)

theorem decodeRight_iff (sizeBits : ℕ) (hbits : 16 ≤ sizeBits) (text : List UInt8)
    (hlen : text.length < 2 ^ sizeBits) :
    decodeRight sizeBits text ↔ roomSuffices sizeBits text := by
  unfold decodeRight roomSuffices utilsBase64decode
  cases hcheck : checkText false 0 0 text with
  | none => simp
  | some counts =>
      obtain ⟨n, j⟩ := counts
      obtain ⟨hj, hjn, hle⟩ := checkText_pads (by decide) (by decide) hcheck
      have hwritten := decodedBytes_length 0 (by decide) (by decide) hcheck
      have hlength : (decodedBytes 3 0 0 text).length = writtenCount n j := by
        simpa [writtenCount] using hwritten
      by_cases hn : n = 0
      · subst hn
        have hbig : 2 ^ 16 ≤ 2 ^ sizeBits := Nat.pow_le_pow_right (by decide) hbits
        simp
        omega
      · have hroom := written_le_room_iff sizeBits n j hbits (by omega) hj hjn
        simp only [hn, if_false, ← hroom]
        constructor
        · intro h
          have hasked := (h true (roomAsked sizeBits n j)).1
          simpa [hlength] using hasked
        · intro h dst dlen
          split
          · simp
          · rename_i hgiven
            rw [not_or, Nat.not_lt] at hgiven
            exact ⟨by simp only [hlength]; omega, fun _ => rfl⟩

end Room

/-- Encoded bytes come back from the decoder, and for every text, valid or not, the decoder
stays inside its buffer and reports what it wrote exactly when the room it asks for suffices. -/
theorem base64_right_iff (sizeBits : ℕ) (hbits : 16 ≤ sizeBits) :
    (∀ src : List UInt8, 4 * ((src.length + 2) / 3) + 1 < 2 ^ sizeBits →
      (encodeAsked sizeBits src).code = .success ∧
        decodeAsked sizeBits
            ((encodeAsked sizeBits src).written.take ((encodeAsked sizeBits src).olen.getD 0)) =
          ⟨.success, some src.length, src⟩) ∧
      ∀ text : List UInt8, text.length < 2 ^ sizeBits →
        (decodeRight sizeBits text ↔ roomSuffices sizeBits text) :=
  ⟨fun src hfit => decodeAsked_encodeAsked sizeBits src hfit,
    fun text hlen => decodeRight_iff sizeBits hbits text hlen⟩

/-- Five bytes go through, and so does a text that is valid. -/
theorem base64_right_iff_fooba :
    decodeAsked 32 ((encodeAsked 32 (ascii "fooba")).written.take
        ((encodeAsked 32 (ascii "fooba")).olen.getD 0)) =
      ⟨.success, some (ascii "fooba").length, ascii "fooba"⟩ ∧
      decodeRight 32 (ascii "Zm9v\r\nYmE=") :=
  ⟨((base64_right_iff 32 (by decide)).1 (ascii "fooba") (by decide)).2,
    ((base64_right_iff 32 (by decide)).2 (ascii "Zm9v\r\nYmE=") (by decide)).mpr
      (by decide +kernel)⟩

/-- Letters only: all of them count. -/
theorem checkText_letters (n k : ℕ) :
    checkText false n 0 (List.replicate k (base64EncMap 0)) = some (n + k, 0) := by
  induction k generalizing n with
  | zero => simp [checkText]
  | succ k ih =>
      rw [List.replicate_succ, checkText_symbol 0 n (by decide), ih]
      simp only [Nat.add_assoc, Nat.add_comm 1]

/-- With a `size_t` of 32 bits, a long text asks for no room at all and is then written. -/
theorem decode_overruns :
    ¬ ∀ text : List UInt8, text.length < 2 ^ 32 → decodeRight 32 text := by
  intro h
  have hlen : (List.replicate 715827882 (base64EncMap 0)).length < 2 ^ 32 := by
    rw [List.length_replicate]
    decide
  have hright := h _ hlen
  rw [decodeRight_iff 32 (by decide) _ hlen, roomSuffices, checkText_letters] at hright
  revert hright
  decide

example : (utilsBase64decode 32 true 9 (ascii "Zm9v\r\nYmE=")).written = ascii "fooba" := by
  decide +kernel

end IotExplorer.Base64
