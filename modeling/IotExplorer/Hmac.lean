import IotExplorer.Md5
import IotExplorer.Sha1

/-!
The keyed digests of `utils_hmac.c` against HMAC over MD5 and over SHA-1. The code takes two
passes over a pad of 64 bytes. A longer key is refused, where the standard would digest it first.
-/
namespace IotExplorer.Hmac

open Basis.Memory OtaClient

section Standard

/-- A key as a block: a long one is digested, a short one is filled with zeros. -/
def keyBlock (hash : List UInt8 → List UInt8) (key : List UInt8) : List UInt8 :=
  let key := if 64 < key.length then hash key else key
  key ++ List.replicate (64 - key.length) 0

/-- HMAC over a digest with blocks of 64 bytes. -/
def hmac (hash : List UInt8 → List UInt8) (key message : List UInt8) : List UInt8 :=
  let block := keyBlock hash key
  hash (block.map (· ^^^ 0x5C) ++ hash (block.map (· ^^^ 0x36) ++ message))

end Standard

section Code

def keyIopadSize : ℕ := 64

/-- `k_ipad` or `k_opad`: the key at the start of zeros, and each byte changed by `value`. -/
def pad (key : List UInt8) (value : UInt8) : List UInt8 :=
  (slice (memcpy 0 key fun _ => 0) 0 keyIopadSize).map (· ^^^ value)

/-- The two passes, by a digest of what is fed in pieces. -/
def twoPasses (digestOf : List (List UInt8) → List UInt8) (msg key : List UInt8) : List UInt8 :=
  let out := digestOf [pad key 0x36, msg]
  digestOf [pad key 0x5C, out]

def md5Of (pieces : List (List UInt8)) : List UInt8 :=
  (Md5.utilsMd5Finish (pieces.foldl Md5.utilsMd5Update Md5.utilsMd5Starts)).2.toList

def sha1Of (pieces : List (List UInt8)) : List UInt8 :=
  (Sha1.utilsSha1Finish (pieces.foldl Sha1.utilsSha1Update
    (Sha1.utilsSha1Starts Sha1.utilsSha1Init))).2

def hexText (bytes : List UInt8) : List UInt8 :=
  bytes.flatMap fun (byte : UInt8) => [utilsHb2hex (byte >>> 4), utilsHb2hex byte]

/-- `utils_hmac_md5`: what it leaves of the memory at `digest`. -/
def utilsHmacMd5 (msg : List UInt8) (digest : ℕ → UInt8) (key : List UInt8) : ℕ → UInt8 :=
  if keyIopadSize < key.length then digest
  else memcpy 0 (hexText (twoPasses md5Of msg key)) digest

/-- `utils_hmac_sha1`: what it leaves of the memory at `digest`. -/
def utilsHmacSha1 (msg : List UInt8) (digest : ℕ → UInt8) (key : List UInt8) : ℕ → UInt8 :=
  if keyIopadSize < key.length then digest
  else memcpy 0 (hexText (twoPasses sha1Of msg key)) digest

/-- `utils_hmac_sha1_hex`, with the length it returns; the digest is not written as digits. -/
def utilsHmacSha1Hex (msg : List UInt8) (digest : ℕ → UInt8) (key : List UInt8) :
    (ℕ → UInt8) × ℕ :=
  if keyIopadSize < key.length then (digest, 0)
  else (memcpy 0 (twoPasses sha1Of msg key) digest, 20)

end Code

section Passes
variable {key msg : List UInt8}

theorem pad_eq (hash : List UInt8 → List UInt8) (value : UInt8) (hkey : key.length ≤ 64) :
    pad key value = (keyBlock hash key).map (· ^^^ value) := by
  have hzeros : slice (memcpy 0 key fun _ => (0 : UInt8)) key.length 64 =
      List.replicate (64 - key.length) 0 := by
    rw [slice_memcpy_outside (Or.inr (by omega)), slice, List.map_const', List.length_range']
  have hkeys := slice_memcpy 0 key fun _ => (0 : UInt8)
  rw [Nat.zero_add] at hkeys
  rw [pad, keyIopadSize, keyBlock, if_neg (by omega),
    ← slice_append _ (Nat.zero_le key.length) hkey, hkeys, hzeros]

theorem pad_length (key : List UInt8) (value : UInt8) : (pad key value).length = 64 := by
  rw [pad, List.length_map, slice, List.length_map, List.length_range']
  rfl

/-- The two passes are HMAC, for any digest that does not care how its message is cut. -/
theorem twoPasses_eq {digestOf : List (List UInt8) → List UInt8} {hash : List UInt8 → List UInt8}
    (hdigest : ∀ first last : List UInt8, first.length < 2 ^ 32 → last.length < 2 ^ 32 →
      digestOf [first, last] = hash (first ++ last))
    (hhash : ∀ message, (hash message).length < 2 ^ 32)
    (hkey : key.length ≤ 64) (hmsg : msg.length < 2 ^ 32) :
    twoPasses digestOf msg key = hmac hash key msg := by
  have hpad (value : UInt8) : (pad key value).length < 2 ^ 32 := by
    rw [pad_length]
    decide
  rw [twoPasses, hdigest _ _ (hpad 0x36) hmsg, hdigest _ _ (hpad 0x5C) (hhash _),
    pad_eq hash 0x36 hkey, pad_eq hash 0x5C hkey]
  rfl

theorem md5Of_eq {first last : List UInt8} (hfirst : first.length < 2 ^ 32)
    (hlast : last.length < 2 ^ 32) :
    md5Of [first, last] = (Md5.md5Digest (first ++ last)).toList := by
  have hstep := (Md5.inStep_starts.update hfirst).update hlast
  exact congrArg Vector.toList (Md5.finish_inStep hstep).2

theorem sha1Of_eq {first last : List UInt8} (hfirst : first.length < 2 ^ 32)
    (hlast : last.length < 2 ^ 32) : sha1Of [first, last] = Sha1.sha1 (first ++ last) := by
  have hstep := ((Sha1.inStep_starts Sha1.utilsSha1Init).update hfirst).update hlast
  rw [sha1Of, Sha1.utilsSha1Update_eq]
  exact Sha1.finish_eq hstep

/-- The two passes of the code, for a key that fits a pad. -/
theorem hmac_passes (hkey : key.length ≤ 64) (hmsg : msg.length < 2 ^ 31) :
    twoPasses md5Of msg key = hmac (fun m => (Md5.md5Digest m).toList) key msg ∧
      twoPasses sha1Of msg key = hmac Sha1.sha1 key msg := by
  have hlen : msg.length < 2 ^ 32 := by omega
  constructor
  · refine twoPasses_eq (fun _ _ => md5Of_eq) (fun message => ?_) hkey hlen
    rw [Vector.length_toList]
    decide
  · refine twoPasses_eq (fun _ _ => sha1Of_eq) (fun message => ?_) hkey hlen
    exact (by decide : 20 < 2 ^ 32)

/-- Each of the three writes HMAC when the key fits a pad, and nothing at all otherwise. -/
theorem hmac_standard (digest : ℕ → UInt8) (key : List UInt8) (hmsg : msg.length < 2 ^ 31) :
    utilsHmacMd5 msg digest key =
        (if key.length ≤ 64 then
          memcpy 0 (hexText (hmac (fun m => (Md5.md5Digest m).toList) key msg)) digest
        else digest) ∧
      utilsHmacSha1 msg digest key =
        (if key.length ≤ 64 then memcpy 0 (hexText (hmac Sha1.sha1 key msg)) digest
        else digest) ∧
      utilsHmacSha1Hex msg digest key =
        if key.length ≤ 64 then
          (memcpy 0 (hmac Sha1.sha1 key msg) digest, (hmac Sha1.sha1 key msg).length)
        else (digest, 0) := by
  rw [utilsHmacMd5, utilsHmacSha1, utilsHmacSha1Hex, keyIopadSize]
  by_cases hkey : key.length ≤ 64
  · obtain ⟨hmd5, hsha1⟩ := hmac_passes hkey hmsg
    have hlong : ¬ 64 < key.length := by omega
    simp only [if_pos hkey, if_neg hlong, hmd5, hsha1]
    exact ⟨trivial, trivial, rfl⟩
  · have hlong : 64 < key.length := by omega
    simp only [if_neg hkey, if_pos hlong]
    exact ⟨trivial, trivial, trivial⟩

theorem hmac_standard_small :
    utilsHmacMd5 [1] (fun _ => 0) [107] =
        (if [(107 : UInt8)].length ≤ 64 then
          memcpy 0 (hexText (hmac (fun m => (Md5.md5Digest m).toList) [107] [1])) fun _ => 0
        else fun _ => 0) ∧
      utilsHmacSha1 [1] (fun _ => 0) [107] =
        (if [(107 : UInt8)].length ≤ 64 then
          memcpy 0 (hexText (hmac Sha1.sha1 [107] [1])) fun _ => 0
        else fun _ => 0) ∧
      utilsHmacSha1Hex [1] (fun _ => 0) [107] =
        if [(107 : UInt8)].length ≤ 64 then
          (memcpy 0 (hmac Sha1.sha1 [107] [1]) fun _ => 0, (hmac Sha1.sha1 [107] [1]).length)
        else (fun _ => 0, 0) :=
  hmac_standard (fun _ => 0) [107] (by decide : [(1 : UInt8)].length < 2 ^ 31)

end Passes

end IotExplorer.Hmac
