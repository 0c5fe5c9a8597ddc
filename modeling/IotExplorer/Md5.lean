import IotExplorer.Basis.Digests
import IotExplorer.OtaClient

/-!
MD5 as the clients use it: a context that is started, fed with pieces and finished. The
context is in step with the bytes it has been fed; finishing it feeds the padding and
the length of these bytes, and leaves a context that has been fed with them too.
-/
namespace IotExplorer.Md5

open Basis.Digests Basis.Absorption
open OtaClient (md5Padding)

section Process

structure State where
  a : UInt32
  b : UInt32
  c : UInt32
  d : UInt32
  deriving DecidableEq, Repr

/-- `IOT_MD5_GET_UINT32_LE` at a word of the block. -/
def word (data : List UInt8) (k : ℕ) : UInt32 :=
  (data.getD (4 * k) 0).toUInt32 ||| (data.getD (4 * k + 1) 0).toUInt32 <<< 8 |||
    (data.getD (4 * k + 2) 0).toUInt32 <<< 16 ||| (data.getD (4 * k + 3) 0).toUInt32 <<< 24

/-- `IOT_MD5_PUT_UINT32_LE`. -/
def wordBytes (n : UInt32) : List UInt8 :=
  [n.toUInt8, (n >>> 8).toUInt8, (n >>> 16).toUInt8, (n >>> 24).toUInt8]

/-- A rotation, `S`. -/
def rotate (x n : UInt32) : UInt32 := (x <<< n) ||| (x >>> (32 - n))

/-- `P`, and the exchange of the words for the next one. -/
def operate (f : UInt32 → UInt32 → UInt32 → UInt32) (data : List UInt8) (s : State)
    (op : ℕ × UInt32 × UInt32) : State :=
  let a := s.a + f s.b s.c s.d + word data op.1 + op.2.2
  ⟨s.d, rotate a op.2.1 + s.b, s.b, s.c⟩

/-- The operations of the four rounds: the word, the rotation and the constant of each. -/
def firstRound : List (ℕ × UInt32 × UInt32) :=
  [(0, 7, 0xD76AA478), (1, 12, 0xE8C7B756), (2, 17, 0x242070DB), (3, 22, 0xC1BDCEEE),
    (4, 7, 0xF57C0FAF), (5, 12, 0x4787C62A), (6, 17, 0xA8304613), (7, 22, 0xFD469501),
    (8, 7, 0x698098D8), (9, 12, 0x8B44F7AF), (10, 17, 0xFFFF5BB1), (11, 22, 0x895CD7BE),
    (12, 7, 0x6B901122), (13, 12, 0xFD987193), (14, 17, 0xA679438E), (15, 22, 0x49B40821)]

def secondRound : List (ℕ × UInt32 × UInt32) :=
  [(1, 5, 0xF61E2562), (6, 9, 0xC040B340), (11, 14, 0x265E5A51), (0, 20, 0xE9B6C7AA),
    (5, 5, 0xD62F105D), (10, 9, 0x02441453), (15, 14, 0xD8A1E681), (4, 20, 0xE7D3FBC8),
    (9, 5, 0x21E1CDE6), (14, 9, 0xC33707D6), (3, 14, 0xF4D50D87), (8, 20, 0x455A14ED),
    (13, 5, 0xA9E3E905), (2, 9, 0xFCEFA3F8), (7, 14, 0x676F02D9), (12, 20, 0x8D2A4C8A)]

def thirdRound : List (ℕ × UInt32 × UInt32) :=
  [(5, 4, 0xFFFA3942), (8, 11, 0x8771F681), (11, 16, 0x6D9D6122), (14, 23, 0xFDE5380C),
    (1, 4, 0xA4BEEA44), (4, 11, 0x4BDECFA9), (7, 16, 0xF6BB4B60), (10, 23, 0xBEBFBC70),
    (13, 4, 0x289B7EC6), (0, 11, 0xEAA127FA), (3, 16, 0xD4EF3085), (6, 23, 0x04881D05),
    (9, 4, 0xD9D4D039), (12, 11, 0xE6DB99E5), (15, 16, 0x1FA27CF8), (2, 23, 0xC4AC5665)]

def fourthRound : List (ℕ × UInt32 × UInt32) :=
  [(0, 6, 0xF4292244), (7, 10, 0x432AFF97), (14, 15, 0xAB9423A7), (5, 21, 0xFC93A039),
    (12, 6, 0x655B59C3), (3, 10, 0x8F0CCC92), (10, 15, 0xFFEFF47D), (1, 21, 0x85845DD1),
    (8, 6, 0x6FA87E4F), (15, 10, 0xFE2CE6E0), (6, 15, 0xA3014314), (13, 21, 0x4E0811A1),
    (4, 6, 0xF7537E82), (11, 10, 0xBD3AF235), (2, 15, 0x2AD7D2BB), (9, 21, 0xEB86D391)]

def utilsMd5Process (s : State) (data : List UInt8) : State :=
  let s1 := firstRound.foldl (operate (fun x y z => z ^^^ (x &&& (y ^^^ z))) data) s
  let s2 := secondRound.foldl (operate (fun x y z => y ^^^ (z &&& (x ^^^ y))) data) s1
  let s3 := thirdRound.foldl (operate (fun x y z => x ^^^ y ^^^ z) data) s2
  let s4 := fourthRound.foldl (operate (fun x y z => y ^^^ (x ||| ~~~z)) data) s3
  ⟨s.a + s4.a, s.b + s4.b, s.c + s4.c, s.d + s4.d⟩

end Process

section Contexts

/-- `iot_md5_context`. -/
abbrev Context := Basis.Digests.Context State

def initial : State := ⟨0x67452301, 0xEFCDAB89, 0x98BADCFE, 0x10325476⟩

/-- `utils_md5_init` and `utils_md5_starts`. -/
def utilsMd5Starts : Context := ⟨0, 0, initial, fun _ => 0⟩

def utilsMd5Update (ctx : Context) (input : List UInt8) : Context :=
  update utilsMd5Process ctx input

def State.digest (s : State) : Vector UInt8 16 :=
  ⟨(wordBytes s.a ++ wordBytes s.b ++ wordBytes s.c ++ wordBytes s.d).toArray, rfl⟩

/-- `utils_md5_finish`: the context it leaves, and the digest. -/
def utilsMd5Finish (ctx : Context) : Context × Vector UInt8 16 :=
  let ctx := finish utilsMd5Process (fun high low => wordBytes low ++ wordBytes high) ctx
  (ctx, ctx.state.digest)

def utilsMd5 (input : List UInt8) : Vector UInt8 16 :=
  (utilsMd5Finish (utilsMd5Update utilsMd5Starts input)).2

end Contexts

section Digests
variable {ctx : Context} {fed input : List UInt8}

def absorbed (fed : List UInt8) : Absorbed State UInt8 :=
  absorb 64 utilsMd5Process ⟨initial, []⟩ fed

/-- The digest of the bytes that a context was fed since its start. -/
def md5Digest : OtaClient.Md5 := fun fed => (absorbed (fed ++ md5Padding fed.length)).state.digest

/-- The length of a message in bits, the lowest byte first. -/
def lengthField (bits : ℕ) : List UInt8 :=
  (List.range 8).map fun i => UInt8.ofNat (bits / 256 ^ i)

theorem lengthField_length (bits : ℕ) : (lengthField bits).length = 8 := by
  rw [lengthField, List.length_map, List.length_range]

/-- The two words of the length are its field. -/
theorem writesLength : WritesLength (fun high low => wordBytes low ++ wordBytes high)
    lengthField := by
  intro high low bits hlow hhigh
  have hfield : lengthField bits = [UInt8.ofNat (bits / 256 ^ 0), UInt8.ofNat (bits / 256 ^ 1),
      UInt8.ofNat (bits / 256 ^ 2), UInt8.ofNat (bits / 256 ^ 3), UInt8.ofNat (bits / 256 ^ 4),
      UInt8.ofNat (bits / 256 ^ 5), UInt8.ofNat (bits / 256 ^ 6), UInt8.ofNat (bits / 256 ^ 7)] :=
    rfl
  have h24 : (24 : UInt32).toNat % 32 = 24 := rfl
  have h16 : (16 : UInt32).toNat % 32 = 16 := rfl
  have h8 : (8 : UInt32).toNat % 32 = 8 := rfl
  dsimp only [wordBytes]
  rw [hfield, last_byte (n := low) (m := bits / 256 ^ 0) (by omega),
    byte_of_shift low 8 (bits / 256 ^ 1) (by rw [h8]; omega),
    byte_of_shift low 16 (bits / 256 ^ 2) (by rw [h16]; omega),
    byte_of_shift low 24 (bits / 256 ^ 3) (by rw [h24]; omega),
    last_byte (n := high) (m := bits / 256 ^ 4) (by omega),
    byte_of_shift high 8 (bits / 256 ^ 5) (by rw [h8]; omega),
    byte_of_shift high 16 (bits / 256 ^ 6) (by rw [h16]; omega),
    byte_of_shift high 24 (bits / 256 ^ 7) (by rw [h24]; omega)]
  rfl

/-- The bytes that the client feeds are the mark, the zeros and the length. -/
theorem append_md5Padding (fed : List UInt8) :
    fed ++ md5Padding fed.length = marked fed ++ lengthField (8 * fed.length) := by
  have hzeros : (if fed.length % 64 < 56 then 56 - fed.length % 64
      else 120 - fed.length % 64) - 1 = (119 - fed.length % 64) % 64 := by
    split <;> omega
  rw [md5Padding, marked, lengthField, Nat.mul_comm 8, List.append_assoc, hzeros]

theorem inStep_starts : InStep utilsMd5Process initial utilsMd5Starts [] :=
  inStep_start _

/-- What finishing a context gives: the digest of the bytes it was fed, and a context that was fed
with the padding too. -/
theorem finish_inStep (h : InStep utilsMd5Process initial ctx fed) :
    InStep utilsMd5Process initial (utilsMd5Finish ctx).1 (fed ++ md5Padding fed.length) ∧
      (utilsMd5Finish ctx).2 = md5Digest fed := by
  have hstep := h.finished writesLength lengthField_length
  rw [← append_md5Padding] at hstep
  exact ⟨hstep, congrArg State.digest hstep.state⟩

/-- `utils_md5` on less than 2^32 bytes gives their digest. -/
theorem utilsMd5_eq (hlen : input.length < 2 ^ 32) : utilsMd5 input = md5Digest input :=
  (finish_inStep (inStep_starts.update hlen)).2

example : OtaClient.digestText (utilsMd5 (TemplateJson.ascii "abc")) =
    TemplateJson.ascii "900150983cd24fb0d6963f7d28e17f72" := by decide +kernel

end Digests

end IotExplorer.Md5
