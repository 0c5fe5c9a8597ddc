import IotExplorer.Base64
import IotExplorer.ClientPackets
import IotExplorer.Hmac

/-!
The password of a connection without TLS. The client decodes the secret of its device and signs
the user name with it. A server that has the secret finds in the CONNECT request a signature of
the user name that stands in the same request.
-/
namespace IotExplorer.ConnectSignature

open Basis.Memory Base64 OtaClient ControlPackets PacketLengths ClientPackets Protocol Hmac
open PacketBytes TemplateJson

section Signing

def decodePskLength : ℕ := 48

/-- The secret that `IOT_MQTT_Construct` decodes into `psk_decode`, with a `size_t` of so many
bits. -/
def decodedSecret (sizeBits : ℕ) (deviceSecret : List UInt8) : Option (List UInt8) :=
  let r := utilsBase64decode sizeBits true decodePskLength deviceSecret
  if r.code = .success then some (r.written.take (r.olen.getD 0)) else none

/-- The text in `sign` that `_serialize_connect_packet` prints. -/
def sign (username secret : List UInt8) : List UInt8 :=
  (slice (utilsHmacSha1 username (fun _ => 0) secret) 0 41).takeWhile (· ≠ 0)

/-- The CONNECT request of `IOT_MQTT_Construct` in a build with `AUTH_WITH_NOTLS` and
`AUTH_MODE_KEY`. -/
def signedConnectPacket (sizeBits : ℕ) (deviceSecret : List UInt8) (options : ConnectOptions)
    (connId : List UInt8) (usernameOk passwordOk : Bool) : Except ReturnCode (List UInt8) :=
  match decodedSecret sizeBits deviceSecret with
  | none => .error .failure
  | some secret => serializeConnectPacketFull sign true mqttTxBufLen options none (some secret)
      connId usernameOk passwordOk

end Signing

section Digits

theorem utilsHb2hex_ne_zero (hb : UInt8) : utilsHb2hex hb ≠ 0 := by
  have hnibble : (hb &&& 0xF).toNat < 16 := by
    rw [UInt8.toNat_and]
    exact Nat.and_lt_two_pow _ (by decide : 15 < 2 ^ 4)
  unfold utilsHb2hex
  generalize hb &&& 0xF = nibble at hnibble ⊢
  split
  · intro h
    have hnat := congrArg UInt8.toNat h
    rw [UInt8.toNat_add] at hnat
    change (48 + nibble.toNat) % 256 = 0 at hnat
    omega
  next hten =>
    have hge : 10 ≤ nibble.toNat := by
      rw [UInt8.lt_iff_toNat_lt] at hten
      exact Nat.le_of_not_lt hten
    intro h
    have hnat := congrArg UInt8.toNat h
    rw [UInt8.toNat_add, UInt8.toNat_sub] at hnat
    change ((256 - 10 + nibble.toNat) % 256 + 97) % 256 = 0 at hnat
    omega

theorem hexText_length (bytes : List UInt8) : (hexText bytes).length = 2 * bytes.length := by
  induction bytes with
  | nil => rfl
  | cons byte bytes ih =>
    rw [hexText, List.flatMap_cons, List.length_append, ← hexText, ih, List.length_cons]
    simp only [List.length_cons, List.length_nil]
    omega

theorem hexText_ne_zero (bytes : List UInt8) : ∀ b ∈ hexText bytes, b ≠ 0 := by
  intro b hb
  obtain ⟨byte, -, hdigit⟩ := List.mem_flatMap.mp hb
  simp only [List.mem_cons, List.not_mem_nil, or_false] at hdigit
  rcases hdigit with rfl | rfl
  · exact utilsHb2hex_ne_zero _
  · exact utilsHb2hex_ne_zero _

end Digits

section Signature
variable {secret username : List UInt8}

theorem hmac_sha1_length (key message : List UInt8) :
    (hmac Sha1.sha1 key message).length = 20 := rfl

/-- What is printed is the whole signature. -/
theorem sign_eq (hsecret : secret.length ≤ 64) (hname : username.length < 2 ^ 31) :
    sign username secret = hexText (hmac Sha1.sha1 secret username) := by
  have hlong : ¬ keyIopadSize < secret.length := Nat.not_lt.mpr hsecret
  have hlen : (hexText (hmac Sha1.sha1 secret username)).length = 40 := hexText_length _
  have hslice := slice_memcpy 0 (hexText (hmac Sha1.sha1 secret username)) fun _ => (0 : UInt8)
  rw [hlen] at hslice
  have hzero : slice (memcpy 0 (hexText (hmac Sha1.sha1 secret username)) fun _ => 0) 40 41 =
      [0] := by
    rw [slice_memcpy_outside (Or.inr (by omega))]
    rfl
  rw [sign, utilsHmacSha1, if_neg hlong, (hmac_passes hsecret hname).2,
    ← slice_append _ (by decide : 0 ≤ 40) (by decide : 40 ≤ 41), hslice, hzero,
    List.takeWhile_append_of_pos]
  · rw [List.takeWhile_cons_of_neg (by decide), List.append_nil]
  · intro b hb
    exact decide_eq_true (hexText_ne_zero _ b hb)

theorem decodedSecret_encodedText (sizeBits : ℕ) (hlen : secret.length ≤ 48)
    (hbits : 16 ≤ sizeBits) : decodedSecret sizeBits (encodedText secret) = some secret := by
  by_cases hempty : secret = []
  · subst hempty
    rfl
  have hpos := List.length_pos_iff.mpr hempty
  have htext := encodedText_length secret
  have hbig : 2 ^ 16 ≤ 2 ^ sizeBits := Nat.pow_le_pow_right (by decide) hbits
  have hpads : padsOf secret.length ≤ 2 := by
    unfold padsOf
    split <;> omega
  have hroom : roomAsked sizeBits (0 + (encodedText secret).length) (padsOf secret.length) =
      secret.length := by
    rw [roomAsked_eq sizeBits _ _ hbits hpads, Nat.mod_eq_of_lt (by omega), padsOf]
    split <;> split <;> omega
  have hsome : ¬ 0 + (encodedText secret).length = 0 := by omega
  have hfit : ¬ ((!true) = true ∨ decodePskLength < secret.length) := by
    rw [decodePskLength]
    simp only [Bool.not_true, Bool.false_eq_true, false_or]
    omega
  have hdecode : utilsBase64decode sizeBits true decodePskLength (encodedText secret) =
      ⟨.success, some secret.length, secret⟩ := by
    unfold utilsBase64decode
    rw [checkText_encodedText 0 secret]
    dsimp only
    rw [if_neg hsome, hroom, if_neg hfit, decodedBytes_encodedText]
  unfold decodedSecret
  rw [hdecode]
  exact congrArg some (List.take_of_length_le (Nat.le_refl _))

theorem connectPassword_sign (hlen : secret.length ≤ 48) (hname : username.length < 2 ^ 31) :
    connectPassword sign true username none (some secret) =
      some (hexText (hmac Sha1.sha1 secret username) ++ ascii ";hmacsha1") := by
  have hfit : (hexText (hmac Sha1.sha1 secret username) ++ ascii ";hmacsha1").length ≤ 50 := by
    rw [List.length_append, hexText_length, hmac_sha1_length]
    decide
  rw [connectPassword, signedPassword, sign_eq (by omega) hname]
  exact congrArg some (List.take_of_length_le hfit)

/-- The request of a device whose client id has at most `MAX_SIZE_OF_CLIENT_ID` characters. -/
theorem signedConnectPacket_ok {sizeBits : ℕ} {options : ConnectOptions} (connId : List UInt8)
    (hbits : 16 ≤ sizeBits) (hlen : secret.length ≤ 48)
    (hid : options.clientId ≠ []) (hclient : options.clientId.length ≤ 80) :
    ∃ packet, signedConnectPacket sizeBits (encodedText secret) options connId true true =
      .ok packet := by
  have hname := connectUsername_length_le connId options.clientId
  have hroom (password : List UInt8) (hpassword : password.length = 49) :
      ¬ getMqttPacketLen (connectRemLen options (connectUsername options.clientId connId)
        (some password)) > mqttTxBufLen := by
    have hremLen : connectRemLen options (connectUsername options.clientId connId)
        (some password) ≤ 300 := by
      rw [connectRemLen, passwordLen, hpassword]
      refine (Nat.mod_le _ _).trans ?_
      split_ifs <;> omega
    generalize connectRemLen options _ _ = remLen at hremLen ⊢
    unfold getMqttPacketLen mqttTxBufLen
    dsimp only
    split_ifs <;> omega
  unfold signedConnectPacket
  rw [decodedSecret_encodedText sizeBits hlen hbits]
  dsimp only
  unfold serializeConnectPacketFull
  rw [if_neg hid, if_neg (by decide), if_neg (by simp)]
  dsimp only
  rw [connectPassword_sign hlen (by omega), if_neg (hroom _ (by
    rw [List.length_append, hexText_length, hmac_sha1_length]
    decide))]
  exact ⟨_, rfl⟩

/-- A device whose secret was handed out in base 64 connects with a request in which the server,
with the same secret, verifies the signature of the user name, as far as that was printed. -/
theorem signed_connect_verifies {sizeBits : ℕ} {options : ConnectOptions} {connId : List UInt8}
    {usernameOk passwordOk : Bool} {packet : List UInt8} (hbits : 16 ≤ sizeBits)
    (hlen : secret.length ≤ 48)
    (hversion : options.mqttVersion = 3 ∨ options.mqttVersion = 4)
    (hkeepAlive : options.keepAliveInterval < 2 ^ 16) (hclient : options.clientId.length < 2 ^ 27)
    (h : signedConnectPacket sizeBits (encodedText secret) options connId usernameOk passwordOk =
      .ok packet) :
    let username := connectUsername options.clientId connId
    readPacket packet = some (.connect (UInt8.ofNat options.mqttVersion)
      options.cleanSession options.keepAliveInterval options.clientId (some username)
      (some (hexText (hmac Sha1.sha1 secret username) ++ ascii ";hmacsha1"))) := by
  have hname := connectUsername_length_le connId options.clientId
  unfold signedConnectPacket at h
  rw [decodedSecret_encodedText sizeBits hlen hbits] at h
  have hread := read_connect (by decide) hversion hkeepAlive hclient (Nat.zero_le _) rfl h
  rwa [connectPassword_sign hlen (by omega)] at hread

theorem signed_connect_verifies_dev :
    ∃ packet,
      signedConnectPacket 32 (encodedText [107]) sampleOptions [65] true true = .ok packet ∧
      readPacket packet = some (.connect 4 true 240 [97] (some (connectUsername [97] [65]))
        (some (hexText (hmac Sha1.sha1 [107] (connectUsername [97] [65])) ++
          ascii ";hmacsha1"))) := by
  obtain ⟨packet, h⟩ := @signedConnectPacket_ok [107] 32 sampleOptions [65]
    (by decide : 16 ≤ 32) (by decide) (by decide) (by decide)
  exact ⟨packet, h, signed_connect_verifies (by decide) (by decide) (by decide) (by decide)
    (by decide) h⟩

end Signature

end IotExplorer.ConnectSignature
