import IotExplorer.JsonLookup
import Mathlib.Algebra.Group.Int.Defs
import Mathlib.Algebra.Group.Nat.Defs

/-!
The fields of a data template message, each found by its path with
`LITE_json_value_of`, and the numbers that `sscanf` reads from them. A value out
of the range of its type is reduced as the C library does it: to the range of a
long first, then to the bits of the type.
-/
namespace IotExplorer.TemplateJson

open Basis.JsonText JsonParser JsonLookup

/-- The bytes of a text in the source. -/
def ascii (text : String) : List UInt8 := text.toList.map fun c => UInt8.ofNat c.toNat

section Scanf

def isSpace (c : UInt8) : Bool := c == space || (0x09 ≤ c && c ≤ 0x0D)

def digitValue (base : ℕ) (c : UInt8) : Option ℕ :=
  let value :=
    if isDigit c then c.toNat - 0x30
    else if 0x61 ≤ c ∧ c ≤ 0x66 then c.toNat - 0x57
    else if 0x41 ≤ c ∧ c ≤ 0x46 then c.toNat - 0x37
    else 16
  if value < base then some value else none

/-- The digits at the start of a text, added to the value read so far. -/
def readDigits (base : ℕ) : ℕ → List UInt8 → ℕ
  | value, [] => value
  | value, c :: text =>
      match digitValue base c with
      | some digit => readDigits base (value * base + digit) text
      | none => value

def scanDigits (base : ℕ) : List UInt8 → Option ℕ
  | [] => none
  | c :: text => (digitValue base c).map fun digit => readDigits base digit text

/-- The digits of `%i`: the prefix tells the base. -/
def scanPrefixed : List UInt8 → Option ℕ
  | 0x30 :: 0x78 :: text => scanDigits 16 text
  | 0x30 :: 0x58 :: text => scanDigits 16 text
  | 0x30 :: text => scanDigits 8 (0x30 :: text)
  | text => scanDigits 10 text

/-- Blanks and a sign in front of the digits. -/
def scanSigned (digits : List UInt8 → Option ℕ) (text : List UInt8) : Option ℤ :=
  match text.dropWhile isSpace with
  | 0x2D :: rest => (digits rest).map fun value => -(value : ℤ)
  | 0x2B :: rest => (digits rest).map Int.ofNat
  | rest => (digits rest).map Int.ofNat

/-- `sscanf` with the `%i` of a signed type of this many bits. -/
def scanInt (bits : ℕ) (text : List UInt8) : Option ℤ :=
  (scanSigned scanPrefixed text).map fun value =>
    (max (-2 ^ 63) (min (2 ^ 63 - 1) value)).bmod (2 ^ bits)

/-- `sscanf` with the `%u` of a type of this many bits; a sign negates the value. -/
def scanUint (bits : ℕ) (text : List UInt8) : Option ℕ :=
  (scanSigned (scanDigits 10) text).map fun value =>
    ((if value.natAbs < 2 ^ 64 then value else 2 ^ 64 - 1) % 2 ^ bits).toNat

end Scanf

section Fields

def parseClientToken (doc : Ptr) : Except Overrun (Option (List UInt8)) :=
  liteJsonValueOf (ascii "clientToken") doc

def parseTemplateMethodType (doc : Ptr) : Except Overrun (Option (List UInt8)) :=
  liteJsonValueOf (ascii "method") doc

def parseStatusReturn (doc : Ptr) : Except Overrun (Option (List UInt8)) :=
  liteJsonValueOf (ascii "status") doc

def parseActionId (doc : Ptr) : Except Overrun (Option (List UInt8)) :=
  liteJsonValueOf (ascii "actionId") doc

/-- `parse_action_input` and `parse_template_cmd_control`. -/
def parseParams (doc : Ptr) : Except Overrun (Option (List UInt8)) :=
  liteJsonValueOf (ascii "params") doc

def parseTemplateGetControl (doc : Ptr) : Except Overrun (Option (List UInt8)) :=
  liteJsonValueOf (ascii "data.control") doc

def parseCodeReturn (doc : Ptr) : Except Overrun (Option ℤ) :=
  (liteJsonValueOf (ascii "code") doc).map fun code => code.bind (scanInt 32)

/-- `parse_time_stamp`; the `%u` is read into an int. -/
def parseTimeStamp (doc : Ptr) : Except Overrun (Option ℕ) :=
  (liteJsonValueOf (ascii "timestamp") doc).map fun timestamp => timestamp.bind (scanUint 32)

end Fields

end IotExplorer.TemplateJson
