import IotExplorer.ControlPackets
import Mathlib.Tactic.NormNum
import Mathlib.Tactic.Linarith

/-!
The user name of a CONNECT packet, `client_id;app_id;conn_id;expiry`, and the
block that is allocated for it. The size counts 20 bytes for the delimiters and
the time stamp, but three delimiters, the last digit and the NUL leave room for
17 digits only; an access that never expires is written as `LONG_MAX`.
-/
namespace IotExplorer.ConnectUsername

open Basis.Decimals Protocol ControlPackets

def maxConnIdLen : ℕ := 6

/-- One character of the connection id, for two draws of `rand`. -/
def connIdChar (flag draw : ℕ) : UInt8 :=
  if flag % 3 = 0 then UInt8.ofNat (draw % 26 + 97)
  else if flag % 3 = 1 then UInt8.ofNat (draw % 26 + 65)
  else UInt8.ofNat (draw % 10 + 48)

/-- `get_next_conn_id`, before its NUL; `rand i` is the i-th draw. -/
def getNextConnId (rand : ℕ → ℕ) : List UInt8 :=
  (List.range (maxConnIdLen - 1)).map fun i => connIdChar (rand (2 * i)) (rand (2 * i + 1))

def longMax (longBits : ℕ) : ℤ := 2 ^ (longBits - 1) - 1

/-- The sum of the current time and `MAX_ACCESS_EXPIRE_TIMEOUT / 1000` in a `long`
that wraps. -/
def curTimesec (longBits : ℕ) (maxAccessExpireTimeout now : ℤ) : ℤ :=
  (now + maxAccessExpireTimeout.tdiv 1000).bmod (2 ^ longBits)

/-- The time stamp that `_serialize_connect_packet` writes. -/
def accessExpiry (longBits : ℕ) (maxAccessExpireTimeout now : ℤ) : ℤ :=
  if curTimesec longBits maxAccessExpireTimeout now ≤ 0 ∨ maxAccessExpireTimeout ≤ 0 then
    longMax longBits
  else curTimesec longBits maxAccessExpireTimeout now

def usernameLen (clientId : List UInt8) : ℕ :=
  clientId.length + deviceSdkAppid.length + maxConnIdLen + 20

/-- The whole text; the time stamp is positive. -/
def usernameText (clientId connId : List UInt8) (expiry : ℤ) : List UInt8 :=
  clientId ++ [59] ++ deviceSdkAppid ++ [59] ++ connId ++ [59] ++ decimal expiry.toNat

/-- What `HAL_Snprintf` leaves in the block before the NUL. -/
def username (clientId connId : List UInt8) (expiry : ℤ) : List UInt8 :=
  (usernameText clientId connId expiry).take (usernameLen clientId - 1)

/-- The CONNECT packet carries this user name, with the settings of the repository
on a platform with a `long` of 64 bits, whatever the time is. -/
theorem connectUsername_eq (clientId connId : List UInt8) (now : ℤ) :
    connectUsername clientId connId = username clientId connId (accessExpiry 64 0 now) := by
  have hexpiry : accessExpiry 64 0 now = 9223372036854775807 := by
    unfold accessExpiry longMax
    rw [if_pos (.inr (Int.le_refl 0))]
    norm_num
  rw [hexpiry]
  rfl

/-- The block is large enough for the text and its NUL, and the text is written
in full. -/
structure UsernameWhole (clientId connId : List UInt8) (expiry : ℤ) : Prop where
  fits : (usernameText clientId connId expiry).length + 1 ≤ usernameLen clientId
  whole : username clientId connId expiry = usernameText clientId connId expiry

section Lengths
variable {clientId : List UInt8} {expiry : ℤ}

theorem getNextConnId_length (rand : ℕ → ℕ) : (getNextConnId rand).length = 5 := by
  unfold getNextConnId
  rw [List.length_map, List.length_range]
  rfl

theorem deviceSdkAppid_length : deviceSdkAppid.length = 8 := by decide

/-- There is room for 17 digits. -/
theorem usernameWhole_iff_digits (rand : ℕ → ℕ) :
    UsernameWhole clientId (getNextConnId rand) expiry ↔ expiry.toNat < 10 ^ 17 := by
  have hlen : (usernameText clientId (getNextConnId rand) expiry).length =
      clientId.length + 16 + (decimal expiry.toNat).length := by
    unfold usernameText
    simp only [List.length_append, List.length_singleton, deviceSdkAppid_length,
      getNextConnId_length]
  have hsize : usernameLen clientId = clientId.length + 34 := by
    unfold usernameLen maxConnIdLen
    rw [deviceSdkAppid_length]
  rw [← decimal_length_le_iff _ 17 (by decide)]
  constructor
  · intro hwhole
    have hfits := hwhole.fits
    omega
  · intro hdigits
    constructor
    · omega
    · apply List.take_of_length_le
      omega

/-- `LONG_MAX` has at most 17 digits in a `long` of up to 57 bits. -/
theorem longMax_digits_iff (longBits : ℕ) : (longMax longBits).toNat < 10 ^ 17 ↔ longBits ≤ 57 := by
  have hnat : (longMax longBits).toNat = 2 ^ (longBits - 1) - 1 := by
    have hcast : (2 : ℤ) ^ (longBits - 1) = ((2 ^ (longBits - 1) : ℕ) : ℤ) := by norm_num
    unfold longMax
    rw [hcast]
    omega
  rw [hnat]
  constructor
  · intro hlt
    by_contra hmore
    have hpow : 2 ^ 57 ≤ 2 ^ (longBits - 1) := Nat.pow_le_pow_right (by decide) (by omega)
    omega
  · intro hle
    have hpow : 2 ^ (longBits - 1) ≤ 2 ^ 56 := Nat.pow_le_pow_right (by decide) (by omega)
    omega

end Lengths

/-- The user name is written in full exactly if accesses expire, at a positive time
of at most 17 digits, or else `LONG_MAX` is that short. -/
theorem username_whole_iff (longBits : ℕ) (maxAccessExpireTimeout now : ℤ)
    (clientId : List UInt8) (rand : ℕ → ℕ) :
    UsernameWhole clientId (getNextConnId rand)
        (accessExpiry longBits maxAccessExpireTimeout now) ↔
      if 0 < maxAccessExpireTimeout ∧ 0 < curTimesec longBits maxAccessExpireTimeout now then
        curTimesec longBits maxAccessExpireTimeout now < 10 ^ 17
      else longBits ≤ 57 := by
  rw [usernameWhole_iff_digits]
  unfold accessExpiry
  by_cases hexpires : 0 < maxAccessExpireTimeout ∧
      0 < curTimesec longBits maxAccessExpireTimeout now
  · rw [if_pos hexpires, if_neg (by omega)]
    omega
  · rw [if_neg hexpires, if_pos (by omega)]
    exact longMax_digits_iff longBits

/-- With the settings of the repository and a `long` of 64 bits the last two digits
of the time stamp are lost. -/
theorem username_cut : ¬ ∀ (clientId : List UInt8) (rand : ℕ → ℕ) (now : ℤ),
    UsernameWhole clientId (getNextConnId rand) (accessExpiry 64 0 now) := by
  intro h
  have hwhole := (h [97] (fun _ => 0) 1700000000).fits
  revert hwhole
  decide +kernel

end IotExplorer.ConnectUsername
