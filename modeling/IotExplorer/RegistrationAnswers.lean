import IotExplorer.AesCbc
import IotExplorer.DeviceRegistration
import IotExplorer.JsonPaths
import IotExplorer.PrintedTexts

/-!
The answer to a dynamic registration with the cipher that is there. A text that is padded,
enciphered with the secret of the product and written in base 64 comes back behind the decoder and
the cipher, with a NUL; that one more block than the text has is deciphered does not show.
-/
namespace IotExplorer.RegistrationAnswers

open Basis.Memory Basis.Outcomes Basis.JsonText AesCbc DeviceRegistration
open JsonParser JsonLookup JsonObjects JsonPaths JsonPayload
open TemplateJson (ascii)
open ReportArray (rawString_of_plain)
open GatewayMessages (member)
open PrintedTexts
open DataTemplate (strncpy)
open Base64 (utilsBase64decode encodedText)

def bytesOf (l : List UInt8) (i : ℕ) : UInt8 := l.getD i 0

/-- `utils_aes_cbc` as `_parse_devinfo` calls it. -/
def aesCipher : Cipher where
  aesCbc key data :=
    let (ret, _, m) := utilsAesCbc 0 data.length 0 256 0 (bytesOf key) 128 (fun _ => 0x30)
      (bytesOf data)
    (ret, slice m 0 data.length)
  length_aesCbc key data := by rw [length_slice, Nat.sub_zero]

def paddedLength (length : ℕ) : ℕ := length + (16 - length % 16)

/-- A text that is enciphered in place with the secret of the product. -/
def sealed (productSecret plain : List UInt8) : List UInt8 :=
  slice (utilsAesCbc 0 plain.length 0 (plain.length + 16) 1 (bytesOf (strncpy 16 productSecret)) 128
    (fun _ => 0x30) (bytesOf plain)).2.2 0 (paddedLength plain.length)

section Decoded

theorem length_sealed (productSecret plain : List UInt8) :
    (sealed productSecret plain).length = paddedLength plain.length := by
  rw [sealed, length_slice, Nat.sub_zero]

theorem sealed_ne_nil {productSecret plain : List UInt8} : sealed productSecret plain ≠ [] := by
  rw [← List.length_pos_iff, length_sealed, paddedLength]
  omega

theorem slice_bytesOf (l : List UInt8) : slice (bytesOf l) 0 l.length = l := by
  apply List.ext_getElem
  · simp [length_slice]
  · intro i hi hi'
    simp [slice, bytesOf, hi']

/-- What is written in base 64 is decoded in the buffer, if it fits. -/
theorem decode_encodedText {sizeBits : ℕ} (hbits : 16 ≤ sizeBits) {src : List UInt8}
    (hne : src ≠ []) (hfits : src.length ≤ 256) :
    utilsBase64decode sizeBits true 256 (encodedText src) = ⟨.success, some src.length, src⟩ := by
  have hbig : 2 ^ 16 ≤ 2 ^ sizeBits := Nat.pow_le_pow_right (by decide) hbits
  have hpos := List.length_pos_iff.mpr hne
  have hpads : Base64.padsOf src.length ≤ 2 := by
    unfold Base64.padsOf
    split_ifs <;> omega
  have hlength := Base64.encodedText_length src
  have hroom : ¬ 256 < Base64.roomAsked sizeBits (0 + (encodedText src).length)
      (Base64.padsOf src.length) := by
    rw [Base64.roomAsked_eq sizeBits _ _ hbits hpads, hlength, Nat.mod_eq_of_lt (by omega)]
    unfold Base64.padsOf
    split_ifs <;> omega
  rw [utilsBase64decode, Base64.checkText_encodedText]
  dsimp only
  rw [if_neg (by omega), if_neg (by simpa using hroom), Base64.decodedBytes_encodedText]

/-- What is sealed is restored behind the cipher, with a NUL. -/
theorem decrypted_sealed {env : Env} (hcipher : env.cipher = aesCipher) (info : DeviceInfo)
    {plain : List UInt8} (hshort : plain.length < 240) :
    ∃ after, decrypted env info (sealed info.productSecret plain) = (0, plain ++ 0 :: after) := by
  have hlength := length_sealed info.productSecret plain
  have hpadded : paddedLength plain.length ≤ 240 ∧ paddedLength plain.length % 16 = 0 ∧
      plain.length < paddedLength plain.length := by
    unfold paddedLength
    omega
  have hdatalen : datalen (paddedLength plain.length) = paddedLength plain.length + 16 := by
    unfold datalen
    omega
  obtain ⟨-, -, hrestored⟩ := @aesCbc_restores 128 (bytesOf (strncpy 16 info.productSecret))
    (Or.inl rfl) 0 0 plain.length (plain.length + 16) le_rfl (by omega) (Or.inl le_rfl)
    (fun _ => 0x30) (bytesOf plain)
  generalize hdata : (decodeBuff (sealed info.productSecret plain)).take
    (paddedLength plain.length + 16) = data
  have hdatalength : data.length = paddedLength plain.length + 16 := by
    rw [← hdata, decodeBuff, List.length_take, List.length_append, List.length_replicate, hlength]
    omega
  obtain ⟨hzero, hslice, -⟩ := hrestored 1 0 256 (bytesOf data) fun i hi => by
    have hin : i < (sealed info.productSecret plain).length := by
      rw [hlength]
      exact hi
    have hbyte : data[i]? = some (sealed info.productSecret plain)[i] := by
      rw [← hdata, List.getElem?_take_of_lt (by omega), decodeBuff,
        List.getElem?_append_left hin, List.getElem?_eq_getElem hin]
    rw [Nat.zero_add, bytesOf, List.getD_eq_getElem?_getD, hbyte, Option.getD_some]
    simp [sealed, slice]
  have hplain := hslice.trans (slice_padded 0 plain.length (bytesOf plain))
  rw [Nat.zero_add, Nat.zero_add, slice_bytesOf] at hplain
  generalize hdec : utilsAesCbc 0 _ 0 256 0 (bytesOf (strncpy 16 info.productSecret)) 128
    (fun _ => 0x30) (bytesOf data) = dec at hzero hplain
  obtain ⟨ret, iv, m⟩ := dec
  obtain rfl : ret = 0 := hzero
  have hfront : slice m 0 (paddedLength plain.length) =
      plain ++ 0 :: List.replicate (15 - plain.length % 16) 0 := by
    rw [← List.replicate_succ, show 15 - plain.length % 16 + 1 = 16 - plain.length % 16 by omega]
    exact hplain
  have hwhole : decrypted env info (sealed info.productSecret plain) =
      (0, slice m 0 (paddedLength plain.length + 16) ++
        (decodeBuff (sealed info.productSecret plain)).drop (paddedLength plain.length + 16)) := by
    have hdec' : utilsAesCbc 0 (paddedLength plain.length + 16) 0 256 0
        (bytesOf (strncpy 16 info.productSecret)) 128 (fun _ => 0x30) (bytesOf data) = (0, iv, m) :=
      hdec
    rw [decrypted, hcipher, hlength, hdatalen, hdata, aesCipher]
    dsimp only
    rw [hdatalength, hdec']
  rw [hwhole, ← slice_append m (Nat.zero_le _) (Nat.le_add_right _ 16), hfront, List.append_assoc,
    List.append_assoc, List.cons_append]
  exact ⟨_, rfl⟩

end Decoded

section Documents

/-- An object as it is written, whose strings are plain. -/
structure Document where
  blank : List UInt8
  members : List (Layout × Json)
  wellFormed : (Json.object blank members).wellFormed = true
  plain : (Json.object blank members).spelled plainByte = true

def Document.text (document : Document) : List UInt8 :=
  (Json.object document.blank document.members).text

/-- What is copied of the value under a name. -/
def Document.value (document : Document) (name : List UInt8) : Option (List UInt8) :=
  (arrive [name] document.members).map copied

/-- A search in the memory of a document has its value. -/
theorem liteJsonValueOf_document (document : Document) (after : Ptr) {name : List UInt8}
    (hdot : dot ∉ name) :
    liteJsonValueOf name (document.text ++ 0 :: after) = .ok (document.value name) := by
  obtain ⟨blank, members, hwf, hspelled⟩ := document
  have hname : name.splitOn dot = [name] := by
    have hsplit := List.splitOn_intercalate dot (List.forall_mem_singleton.mpr hdot)
      (List.cons_ne_nil name [])
    simpa using hsplit
  have htext : (Json.object blank members).text ++ 0 :: after =
      streamText (within blank members []) (withinTail blank members [] (0 :: after)) :=
    within_text blank members [] (0 :: after)
  have hsrc : jsonGetObject .object ((Json.object blank members).text ++ 0 :: after) =
      .ok (some (streamText (within blank members [])
        (withinTail blank members [] (0 :: after)))) := by
    rw [htext, within_object]
  have htail : LastPart (withinTail blank members [] (0 :: after)) := by
    refine ⟨lastGap (openBrace :: blank) members ++ [closeBrace], after, ?_, by simp,
      (within_between hwf).2⟩
    rw [withinTail, reopenTail, if_pos List.isEmpty_nil]
  have hplain : ∀ piece ∈ within blank members [], Plain piece :=
    within_plain hwf hspelled (by simp)
  have hmembers : (within blank members []).map Piece.member = members :=
    (within_members blank members []).trans (List.append_nil members)
  rw [liteJsonValueOf, hname, Document.value]
  dsimp only [Document.text]
  rcases followNames_stream (List.cons_ne_nil name []) hsrc (htext ▸ List.suffix_rfl) hplain
    htail with ⟨hnone, hfollow⟩ | ⟨v, rest, hsome, hfollow, hmem, hvalue⟩
  · rw [hmembers] at hnone
    rw [hfollow, hnone]
    rfl
  · obtain ⟨n, hn, hlen⟩ := copy_valuePtr hvalue hmem
    rw [hmembers] at hsome
    rw [hfollow, hsome]
    dsimp only
    rw [hn]
    dsimp only
    rw [Nat.min_eq_left hlen, copied_valuePtr]
    rfl

/-- What is written in base 64 needs no escapes. -/
theorem encodedText_plain (src : List UInt8) :
    ∀ c ∈ encodedText src, 0x20 ≤ c ∧ plainByte c = true := by
  have hsymbol (i : ℕ) : 0x20 ≤ Base64.base64EncMap (i % 64) ∧
      plainByte (Base64.base64EncMap (i % 64)) = true := by
    have hall : ∀ j < 64, 0x20 ≤ Base64.base64EncMap j ∧
        plainByte (Base64.base64EncMap j) = true := by decide +kernel
    exact hall _ (Nat.mod_lt i (by decide))
  have hpad : 0x20 ≤ Base64.pad ∧ plainByte Base64.pad = true := by decide
  fun_induction encodedText src with
  | case1 => exact fun c hc => absurd hc List.not_mem_nil
  | case2 c1 => simp [hsymbol, hpad]
  | case3 c1 c2 => simp [hsymbol, hpad]
  | case4 c1 c2 c3 src ih => simpa [hsymbol] using ih

end Documents

section Stored
variable {env : Env} {info : DeviceInfo} {psk : List UInt8}

/-- The secret of an answer that is sealed for the product is stored. -/
theorem sealed_answer_stored (hcipher : env.cipher = aesCipher) (hbits : 16 ≤ env.sizeBits)
    (halloc : ∀ key, env.alloc key = true) (answer plain : Document) (after : Ptr)
    (hcode : jsonNumber (answer.value (ascii "code")) = 0)
    (hpayload : answer.value (ascii "payload") =
      some (encodedText (sealed info.productSecret plain.text)))
    (hshort : plain.text.length < 240)
    (htype : jsonNumber (plain.value (ascii "encryptionType")) = 2)
    (hpsk : plain.value (ascii "psk") = some psk) (hfits : psk.length ≤ 64) :
    ∃ secret, parseDevinfo env (answer.text ++ 0 :: after) info =
        .ok (0, { info with deviceSecret := secret }) ∧ Stored secret psk := by
  have hlength := length_sealed info.productSecret plain.text
  have hpadded : 0 < paddedLength plain.text.length ∧ paddedLength plain.text.length ≤ 240 := by
    unfold paddedLength
    omega
  have hvalue (document : Document) (after : Ptr) {key : List UInt8} (hdot : dot ∉ key) :
      valueOf env (document.text ++ 0 :: after) key = .ok (document.value key) := by
    rw [valueOf, liteJsonValueOf_document document after hdot, halloc key]
    rfl
  have hanswer {key : List UInt8} (hdot : dot ∉ key) :
      answerValue env (answer.text ++ 0 :: after) key = answer.value key := by
    rw [answerValue, hvalue answer after hdot]
  have hdecoded : decodedPayload env (answer.text ++ 0 :: after) =
      some (sealed info.productSecret plain.text) := by
    rw [decodedPayload, hanswer (by decide), if_pos hcode, hanswer (by decide), hpayload,
      Option.bind_some, decode_encodedText hbits sealed_ne_nil (by omega)]
    rfl
  obtain ⟨rest, hdecrypted⟩ := decrypted_sealed hcipher info hshort
  rcases parseDevinfo_cases env (answer.text ++ 0 :: after) info with
    ⟨hnone, -⟩ | ⟨decoded, hsome, hparse⟩
  · rw [hdecoded] at hnone
    cases hnone
  · obtain rfl := Option.some.inj (hdecoded.symm.trans hsome)
    have hfound : valueOf env (plain.text ++ 0 :: rest) (ascii "psk") = .ok (some psk) := by
      rw [hvalue plain rest (by decide), hpsk]
    obtain ⟨secret, hstore, hstored⟩ := runs_iff.mp
      ((runs_storePsk info.deviceSecret (valueOf_noNul hfound)).mpr hfits)
    refine ⟨secret, ?_, hstored⟩
    rw [hparse, if_pos (by omega), hdecrypted, if_neg (not_not.mpr rfl), parsePlain,
      hvalue plain rest (by decide), ok_bind, htype, if_neg (by decide), if_neg (by decide), hfound,
      ok_bind]
    dsimp only
    rw [hstore]
    rfl

def answerMembers (src : List UInt8) : List (Layout × Json) :=
  [(member "code", .number ⟨false, [0x30], none, none⟩), textMember "payload" (encodedText src)]

theorem answerMembers_wellFormed (src : List UInt8) :
    (Json.object [] (answerMembers src)).wellFormed = true := by
  have hraw : rawString (encodedText src) = true := by
    apply rawString_of_plain
    rw [ReportArray.plain, List.all_eq_true]
    intro c hc
    obtain ⟨hcontrol, hplain⟩ := encodedText_plain src c hc
    have hquiet : c ≠ quote ∧ c ≠ backslash := by
      constructor <;> rintro rfl <;> exact absurd hplain (by decide)
    simp [hcontrol, hquiet]
  have hcode : rawString (ascii "code") = true := by decide +kernel
  have hpayload : rawString (ascii "payload") = true := by decide +kernel
  exact object_wellFormed (membersWellFormed_member hcode (by decide)
    (membersWellFormed_text hpayload hraw membersWellFormed_nil))

theorem answerMembers_plain (src : List UInt8) :
    (Json.object [] (answerMembers src)).spelled plainByte = true := by
  have hplain : (encodedText src).all plainByte = true :=
    List.all_eq_true.mpr fun c hc => (encodedText_plain src c hc).2
  have hnames : (ascii "code").all plainByte = true ∧ (ascii "payload").all plainByte = true := by
    decide +kernel
  simp [answerMembers, Json.spelled, membersSpelled, textMember, member, hplain, hnames]

/-- The answer with the code 0 and such a payload. -/
def answerOf (src : List UInt8) : Document :=
  ⟨[], answerMembers src, answerMembers_wellFormed src, answerMembers_plain src⟩

theorem answerOf_code (src : List UInt8) : jsonNumber ((answerOf src).value (ascii "code")) = 0 :=
  rfl

theorem answerOf_payload {src : List UInt8} (hne : src ≠ []) :
    (answerOf src).value (ascii "payload") = some (encodedText src) := by
  have hlength : (encodedText src).length ≠ 0 := by
    have hpos := List.length_pos_iff.mpr hne
    rw [Base64.encodedText_length]
    omega
  have hother : filled (ascii "payload")
      (member "code", .number ⟨false, [0x30], none, none⟩) = false := by decide +kernel
  have hnamed : named (ascii "payload") (textMember "payload" (encodedText src)) = true :=
    beq_self_eq_true (ascii "payload")
  have hname : ascii "payload" ≠ [] := by decide
  have hfilled : filled (ascii "payload") (textMember "payload" (encodedText src)) = true := by
    rw [filled_eq hname hnamed]
    simpa [textMember, scannedLen] using hlength
  have harrive :
      arrive [ascii "payload"] (answerMembers src) = some (.string (encodedText src)) := by
    rw [arrive, answerMembers, pick, hother, if_neg Bool.false_ne_true, pick, if_pos hfilled]
    rfl
  change (arrive [ascii "payload"] (answerMembers src)).map copied = _
  rw [harrive]
  rfl

def plainAb : Document where
  blank := []
  members := [(member "encryptionType", .number ⟨false, [0x32], none, none⟩),
    textMember "psk" (ascii "ab")]
  wellFormed := by decide +kernel
  plain := by decide +kernel

theorem sealed_answer_stored_ab :
    ∃ secret,
      parseDevinfo ⟨32, fun _ => true, fun _ => none, aesCipher⟩
          ((answerOf (sealed (ascii "secret") plainAb.text)).text ++ [0])
          ⟨ascii "secret", ⟨List.replicate 65 0, rfl⟩⟩ =
        .ok (0, ⟨ascii "secret", secret⟩) ∧ Stored secret (ascii "ab") :=
  @sealed_answer_stored ⟨32, fun _ => true, fun _ => none, aesCipher⟩
    ⟨ascii "secret", ⟨List.replicate 65 0, rfl⟩⟩ (ascii "ab") rfl (by decide) (fun _ => rfl)
    (answerOf (sealed (ascii "secret") plainAb.text)) plainAb [] (answerOf_code _)
    (answerOf_payload sealed_ne_nil) (by decide) (by decide) (by decide) (by decide)

end Stored

end IotExplorer.RegistrationAnswers
