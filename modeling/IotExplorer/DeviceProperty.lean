import IotExplorer.Basis.Decimals
import IotExplorer.TemplateJson
import Mathlib.Tactic.IntervalCases

/-!
The properties of a device and the texts that `snprintf` makes of their values.
A text that the application hands over has no NUL in it. A struct has its members
in a list, and the buffer length that a property keeps stands with the values
that have one.
-/
namespace IotExplorer.DeviceProperty

open Basis.JsonText Basis.Decimals TemplateJson

abbrev CString := {text : List UInt8 // (0 : UInt8) ∉ text}

section Printf

def sign (negative : Bool) : List UInt8 := if negative then [minus] else []

/-- `%d`, and `%u` for a natural number. -/
def signedText (value : ℤ) : List UInt8 := sign (decide (value < 0)) ++ decimal value.natAbs

/-- A binary format of IEEE 754: the widths of its exponent field and its fraction. -/
structure Format where
  fieldBits : ℕ
  fractionBits : ℕ

def binary32 : Format := ⟨8, 23⟩
def binary64 : Format := ⟨11, 52⟩

def Format.negative (format : Format) (bits : ℕ) : Bool :=
  bits / 2 ^ (format.fieldBits + format.fractionBits) % 2 == 1

def Format.field (format : Format) (bits : ℕ) : ℕ :=
  bits / 2 ^ format.fractionBits % 2 ^ format.fieldBits

def Format.fraction (format : Format) (bits : ℕ) : ℕ := bits % 2 ^ format.fractionBits

/-- Neither an infinity nor a NaN. -/
def Format.finite (format : Format) (bits : ℕ) : Bool :=
  format.field bits != 2 ^ format.fieldBits - 1

/-- A quotient rounded to the nearest integer, a tie to the even one. -/
def roundHalfEven (n d : ℕ) : ℕ :=
  if 2 * (n % d) < d then n / d
  else if d < 2 * (n % d) then n / d + 1
  else n / d + n / d % 2

/-- The magnitude of a finite number in millionths: the significand is a whole number of
units of the least subnormal, doubled for each step of the field above one. -/
def Format.millionths (format : Format) (bits : ℕ) : ℕ :=
  let significand :=
    if format.field bits = 0 then format.fraction bits
    else 2 ^ format.fractionBits + format.fraction bits
  roundHalfEven (significand * 2 ^ max (format.field bits) 1 * 10 ^ 6)
    (2 ^ (2 ^ (format.fieldBits - 1) - 1 + format.fractionBits))

def sixDigits (millionths : ℕ) : List UInt8 := (decimal (10 ^ 6 + millionths % 10 ^ 6)).tail

/-- `%f`. -/
def fixedText (format : Format) (bits : ℕ) : List UInt8 :=
  sign (format.negative bits) ++
    if format.finite bits then
      decimal (format.millionths bits / 10 ^ 6) ++ dot :: sixDigits (format.millionths bits)
    else if format.fraction bits = 0 then ascii "inf"
    else ascii "nan"

end Printf

/-- What the data of a property points to, by its `JsonDataType`; a float is kept by its
bits, and a text with its `data_buff_len`. -/
inductive Scalar where
  | int32 (value : Int32)
  | int16 (value : Int16)
  | int8 (value : Int8)
  | uint32 (value : UInt32)
  | uint16 (value : UInt16)
  | uint8 (value : UInt8)
  | float (bits : UInt32)
  | double (bits : UInt64)
  | boolean (value : Bool)
  | string (text : CString) (dataBuffLen : UInt16)
  | array (text : CString) (dataBuffLen : UInt16)

/-- What the formats of `_format_json_buffer` and of `put_json_node` print in front of the
comma. -/
def Scalar.text : Scalar → List UInt8
  | .int32 value => signedText value.toInt
  | .int16 value => signedText value.toInt
  | .int8 value => signedText value.toInt
  | .uint32 value => signedText value.toNat
  | .uint16 value => signedText value.toNat
  | .uint8 value => signedText value.toNat
  | .float bits => fixedText binary32 bits.toNat
  | .double bits => fixedText binary64 bits.toNat
  | .boolean value => if value then ascii "true" else ascii "false"
  | .string text _ => quote :: (text ++ [quote])
  | .array text _ => text

/-- `DeviceProperty`: its key and what its data points to, NULL, a value or the members of a
struct. -/
inductive Property where
  | null (key : Option CString)
  | scalar (key : Option CString) (data : Scalar)
  | struct (key : Option CString) (members : List Property)

def Property.key : Property → Option CString
  | .null key => key
  | .scalar key _ => key
  | .struct key _ => key

section Numbers

/-- The number that `%d` prints. -/
def signedNumber (value : ℤ) : Number := ⟨decide (value < 0), decimal value.natAbs, none, none⟩

/-- The number that `%f` prints for a finite value. -/
def fixedNumber (format : Format) (bits : ℕ) : Number :=
  ⟨format.negative bits, decimal (format.millionths bits / 10 ^ 6),
    some (sixDigits (format.millionths bits)), none⟩

/-- Digits without a leading zero. -/
theorem decimal_wellFormed (n : ℕ) :
    (digits (decimal n) && ((decimal n).length == 1 || (decimal n).head? != some 0x30)) = true := by
  rw [digits_decimal, Bool.true_and]
  by_cases hn : n = 0
  · rw [hn]
    rfl
  · rw [bne_iff_ne.mpr (decimal_head n hn), Bool.or_true]

theorem signedNumber_wellFormed (value : ℤ) : (signedNumber value).wellFormed = true := by
  rw [Number.wellFormed, signedNumber, decimal_wellFormed]
  rfl

theorem signedNumber_text (value : ℤ) : (signedNumber value).text = signedText value := by
  simp [Number.text, Number.mantissa, signedNumber, signedText, sign]

theorem digits_sixDigits (n : ℕ) : digits (sixDigits n) = true := by
  have hlong : 2 ≤ (decimal (10 ^ 6 + n % 10 ^ 6)).length := by
    rw [decimal_eq, if_neg (by omega), List.length_append]
    have hpos := List.length_pos_of_ne_nil (decimal_ne_nil ((10 ^ 6 + n % 10 ^ 6) / 10))
    rw [List.length_singleton]
    omega
  rw [digits, sixDigits, Bool.and_eq_true, List.all_eq_true]
  constructor
  · cases h : (decimal (10 ^ 6 + n % 10 ^ 6)).tail with
    | nil =>
      have hlen := congrArg List.length h
      rw [List.length_tail, List.length_nil] at hlen
      omega
    | cons c rest => rfl
  · intro c hmem
    exact isDigit_of_mem_decimal _ c (List.mem_of_mem_tail hmem)

theorem fixedNumber_wellFormed (format : Format) (bits : ℕ) :
    (fixedNumber format bits).wellFormed = true := by
  rw [Number.wellFormed, fixedNumber, decimal_wellFormed, Option.all_some, digits_sixDigits]
  rfl

theorem fixedNumber_text {format : Format} {bits : ℕ} (h : format.finite bits = true) :
    (fixedNumber format bits).text = fixedText format bits := by
  rw [Number.text, Number.mantissa, fixedNumber, fixedText, if_pos h, Option.getD_none,
    List.append_nil, List.append_assoc]
  rfl

end Numbers

end IotExplorer.DeviceProperty
