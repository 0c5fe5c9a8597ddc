import IotExplorer.Base64
import IotExplorer.Basis.Outcomes
import IotExplorer.JsonPayload
import IotExplorer.StringStore

/-!
The answer to a dynamic registration. Its payload is decoded and decrypted in a buffer, which is
read as a JSON text again, and a string of that text becomes the secret of the device. The length
that is decrypted is the next multiple of a block, and a text that fills the buffer has no NUL.
-/
namespace IotExplorer.DeviceRegistration

open Basis.Outcomes Basis.JsonText JsonParser JsonLookup JsonPayload TemplateJson
open Base64 (utilsBase64decode)
open DataTemplate (strncpy)
open StringStore (strncpy_length)

section Answer

/-- `device_secret`, with the place for a NUL. -/
abbrev DeviceSecret := { bytes : List UInt8 // bytes.length = 65 }

/-- What `DeviceInfo` has for the registration. -/
structure DeviceInfo where
  productSecret : List UInt8
  deviceSecret : DeviceSecret

/-- `utils_aes_cbc` for decryption: its return, and what it leaves of the bytes it is given. -/
structure Cipher where
  aesCbc : List UInt8 → List UInt8 → ℤ × List UInt8
  length_aesCbc : ∀ key data, (aesCbc key data).2.length = data.length

/-- What an answer meets: the bits of a `size_t`, memory for the copy of a value, the value that a
search finds behind the memory of the answer, and the cipher. -/
structure Env where
  sizeBits : ℕ
  alloc : List UInt8 → Bool
  beyond : List UInt8 → Option (List UInt8)
  cipher : Cipher

/-- `strcpy` into the secret. -/
def strcpy (secret : DeviceSecret) (text : List UInt8) : Except Overrun DeviceSecret :=
  if h : text.length + 1 ≤ 65 then
    .ok ⟨text ++ 0 :: secret.val.drop (text.length + 1), by
      rw [List.length_append, List.length_cons, List.length_drop, secret.property]
      omega⟩
  else .error .overrun

def storePsk (secret : DeviceSecret) (psk : List UInt8) : Except Overrun DeviceSecret :=
  if psk.length > 64 then strcpy secret psk
  else .ok ⟨strncpy 64 psk ++ [0], by rw [List.length_append, strncpy_length]; rfl⟩

variable (env : Env)

/-- `LITE_json_value_of`, whose allocation may fail. -/
def valueOf (doc : Ptr) (key : List UInt8) : Except Overrun (Option (List UInt8)) :=
  (liteJsonValueOf key doc).map fun value => if env.alloc key then value else none

/-- The same in the answer. -/
def answerValue (jdoc : Ptr) (key : List UInt8) : Option (List UInt8) :=
  match valueOf env jdoc key with
  | .ok value => value
  | .error _ => env.beyond key

/-- The number of `_get_json_result_code` and `_get_json_encry_type`. -/
def jsonNumber (value : Option (List UInt8)) : ℤ := (value.bind (scanInt 32)).getD (-1)

/-- `decodeBuff` behind so many bytes. -/
def decodeBuff (decoded : List UInt8) : List UInt8 :=
  decoded ++ List.replicate (256 - decoded.length) 0

def datalen (len : ℕ) : ℕ := len + (16 - len % 16)

/-- The return of the cipher, and `decodeBuff` behind it. -/
def decrypted (info : DeviceInfo) (decoded : List UInt8) : ℤ × Ptr :=
  let (ret, data) := env.cipher.aesCbc (strncpy 16 info.productSecret)
    ((decodeBuff decoded).take (datalen decoded.length))
  (ret, data ++ (decodeBuff decoded).drop (datalen decoded.length))

/-- The part of `_parse_devinfo` behind the cipher. -/
def parsePlain (buff : Ptr) (info : DeviceInfo) : Except Overrun (ℤ × DeviceInfo) := do
  let enType := jsonNumber (← valueOf env buff (ascii "encryptionType"))
  if enType < 0 then return (-1001, info)
  else if enType ≠ 2 then return (-1001, info)
  else
    match ← valueOf env buff (ascii "psk") with
    | none => return (0, info)
    | some psk => return (0, { info with deviceSecret := ← storePsk info.deviceSecret psk })

def parseDevinfo (jdoc : Ptr) (info : DeviceInfo) : Except Overrun (ℤ × DeviceInfo) :=
  let ret := jsonNumber (answerValue env jdoc (ascii "code"))
  if ret ≠ 0 then .ok (ret, info)
  else
    match answerValue env jdoc (ascii "payload") with
    | none => .ok (-1001, info)
    | some payload =>
        let decoded := utilsBase64decode env.sizeBits true 256 payload
        if 256 < decoded.written.length then .error .overrun
        else if decoded.code = .failure then .ok (-1001, info)
        else if 256 < datalen (decoded.olen.getD 0) then .error .overrun
        else
          let (ret, buff) := decrypted env info decoded.written
          if ret ≠ 0 then .ok (ret, info) else parsePlain env buff info

end Answer

section Right
variable (env : Env)

/-- What an answer with the code 0 has as a payload, decoded. -/
def decodedPayload (jdoc : Ptr) : Option (List UInt8) :=
  if jsonNumber (answerValue env jdoc (ascii "code")) = 0 then
    (answerValue env jdoc (ascii "payload")).bind fun payload =>
      let decoded := utilsBase64decode env.sizeBits true 256 payload
      if decoded.code = .success then some decoded.written else none
  else none

/-- There is such a psk in the answer. -/
def Present (jdoc : Ptr) (info : DeviceInfo) (psk : List UInt8) : Prop :=
  ∃ decoded ∈ decodedPayload env jdoc, (decrypted env info decoded).1 = 0 ∧
    valueOf env (decrypted env info decoded).2 (ascii "psk") = .ok (some psk)

/-- The secret is this text, and its NULs. -/
structure Stored (secret : DeviceSecret) (psk : List UInt8) : Prop where
  fits : psk.length ≤ 64
  noNul : (0 : UInt8) ∉ psk
  bytes : secret.val = psk ++ List.replicate (65 - psk.length) 0

/-- The buffer and the secret are not left, and after a success the secret is that of the answer. -/
def Right (jdoc : Ptr) (info : DeviceInfo) : Prop :=
  Runs (parseDevinfo env jdoc info) fun result => result.1 = 0 →
    ∃ psk, Present env jdoc info psk ∧ Stored result.2.deviceSecret psk

/-- A text of the type 2 has a psk that fits, and its searches stay in the buffer. -/
def PlainFits (buff : Ptr) : Prop :=
  Runs (valueOf env buff (ascii "encryptionType")) fun enType => jsonNumber enType = 2 →
    Runs (valueOf env buff (ascii "psk")) fun psk => ∃ text ∈ psk, text.length ≤ 64

/-- The payload is shorter than the buffer, and what it is decrypted to fits. -/
def AnswerFits (jdoc : Ptr) (info : DeviceInfo) : Prop :=
  ∀ decoded ∈ decodedPayload env jdoc, decoded.length < 256 ∧
    ((decrypted env info decoded).1 = 0 → PlainFits env (decrypted env info decoded).2)

/-- What is decrypted is not of the type 2, or has a psk that fits. -/
def PskFits (jdoc : Ptr) (info : DeviceInfo) : Prop :=
  ∀ decoded ∈ decodedPayload env jdoc, (decrypted env info decoded).1 = 0 →
    ∀ enType, valueOf env (decrypted env info decoded).2 (ascii "encryptionType") = .ok enType →
      jsonNumber enType = 2 → ∃ psk, Present env jdoc info psk ∧ psk.length ≤ 64

end Right

section Texts
variable {env : Env} {buff : Ptr} {info : DeviceInfo}

/-- The copy of a value has no NUL. -/
theorem valueOf_noNul {key value : List UInt8} (h : valueOf env buff key = .ok (some value)) :
    (0 : UInt8) ∉ value := by
  unfold valueOf at h
  cases hvalue : liteJsonValueOf key buff with
  | error e =>
    rw [hvalue] at h
    cases h
  | ok found =>
    rw [hvalue, Except.map] at h
    obtain ⟨-, rfl⟩ : env.alloc key = true ∧ found = some value := by simpa using h
    exact liteJsonValueOf_noNul hvalue

/-- A psk is stored exactly if it fits, and then with its NULs. -/
theorem runs_storePsk (secret : DeviceSecret) {psk : List UInt8} (hnul : (0 : UInt8) ∉ psk) :
    Runs (storePsk secret psk) (fun secret => Stored secret psk) ↔ psk.length ≤ 64 := by
  unfold storePsk
  split_ifs with hlong
  · have hout : ¬ psk.length + 1 ≤ 65 := by omega
    rw [strcpy, dif_neg hout, runs_error]
    exact iff_of_false id (by omega)
  · have hfits : psk.length ≤ 64 := by omega
    refine iff_of_true ⟨hfits, hnul, ?_⟩ hfits
    change strncpy 64 psk ++ [0] = _
    rw [strncpy, List.take_append, List.take_of_length_le hfits, List.take_replicate,
      List.append_assoc, ← List.replicate_succ',
      show min (64 - psk.length) 64 + 1 = 65 - psk.length by omega]

/-- What is decrypted is right exactly if it fits. -/
theorem parsePlain_iff (buff : Ptr) (info : DeviceInfo) :
    Runs (parsePlain env buff info) (fun result => result.1 = 0 →
      ∃ psk, valueOf env buff (ascii "psk") = .ok (some psk) ∧ Stored result.2.deviceSecret psk) ↔
        PlainFits env buff := by
  have hfailure : (-1001 : ℤ) ≠ 0 := by decide
  unfold parsePlain PlainFits
  rw [runs_bind]
  refine runs_congr fun enType _ => ?_
  dsimp only
  split_ifs with hnegative hother
  · exact iff_of_true (fun h => absurd h hfailure) fun h => by omega
  · exact iff_of_true (fun h => absurd h hfailure) fun h => absurd h hother
  · rw [imp_iff_right (not_not.mp hother), runs_bind]
    refine runs_congr fun psk hpsk => ?_
    cases psk with
    | none =>
      rw [runs_pure, hpsk]
      simp
    | some psk =>
      have hnul := valueOf_noNul hpsk
      rw [runs_bind]
      simp only [runs_pure, forall_const, hpsk, Except.ok.injEq, Option.some.injEq, exists_eq_left',
        Option.mem_some_iff]
      exact runs_storePsk info.deviceSecret hnul

end Texts

section Searches
variable {p q value after : Ptr}

/-- In a text no literal is cut off. -/
theorem literalInside_inText {literals : List (List UInt8)} (h : InText value)
    (hliterals : ∀ literal ∈ literals, (0 : UInt8) ∉ literal) :
    literalInside literals value = scanLiteral literals value := by
  obtain ⟨n, hn⟩ := strlen_inText h
  have hwhole : (literals.any fun literal => value.isPrefixOf literal) = false := by
    rw [List.any_eq_false]
    intro literal hmem hleft
    obtain ⟨text, rfl, -⟩ := h
    have hsub := (List.isPrefixOf_iff_prefix.mp hleft).subset
    exact hliterals literal hmem (hsub (List.mem_append_right text List.mem_cons_self))
  unfold literalInside scanLiteral
  rw [hn, hwhole]
  rfl

theorem getValueInside_inText (key : Ptr) (keyLen : ℕ) (h : InText p) :
    getValueInside key keyLen p = getValue key keyLen p := by
  unfold getValueInside getValue
  rcases findValue_inText h with hnone | ⟨_, rest, _, _, hfind, _⟩ |
    ⟨type, value, pos, htype, hfind, hvalue, hpos, htext⟩
  · rw [hnone]
  · rw [hfind]
    rfl
  · have hne : value ≠ [] := fun hnil => htext.ne_nil (List.suffix_nil.mp (hnil ▸ hpos))
    have hvalueText := h.suffix hvalue hne
    have hsame : valueLenInside type value pos = valueLen type value pos := by
      cases type with
      | boolean => exact literalInside_inText hvalueText (by decide)
      | null => exact literalInside_inText hvalueText (by decide)
      | _ => rfl
    cases hlen : valueLen type value pos with
    | error e => simp only [hfind, hsame, hlen]
    | ok len => simp only [hfind, hsame, hlen]

/-- In a text, a member that is found ends inside. -/
theorem nextInside_inText (h : InText p) : nextInside p = jsonGetNextObject .object p := by
  rw [nextInside, jsonGetNextObject, if_pos rfl]
  cases hkey : getKey p with
  | error e => rfl
  | ok found =>
    cases found with
    | none => rfl
    | some found =>
      obtain ⟨key, keyLen, pos⟩ := found
      dsimp only
      by_cases hne : pos = []
      · rw [hne]
        rfl
      · exact getValueInside_inText key keyLen (h.suffix (getKey_some hkey).2.1 hne)

/-- A part of what ends in two NULs ends in them as well, or is the last of them. -/
theorem suffix_closed (h : [0, 0] <:+ p) (hsuffix : q <:+ p) (hne : q ≠ []) :
    q = [0] ∨ [0, 0] <:+ q := by
  rcases Nat.lt_or_ge q.length 2 with hshort | hlong
  · left
    have hlast : q <:+ [0, 0] := List.suffix_of_suffix_length_le hsuffix h (Nat.le_of_lt hshort)
    rcases List.suffix_cons_iff.mp hlast with rfl | hlast
    · exact absurd hshort (by decide)
    · rcases List.suffix_cons_iff.mp hlast with rfl | hlast
      · rfl
      · exact absurd (List.suffix_nil.mp hlast) hne
  · exact .inr (List.suffix_of_suffix_length_le h hsuffix hlong)

/-- A step of a loop in what ends in two NULs comes to an end, or to a part that is not empty. -/
theorem jsonGetNextObject_closed {c : UInt8} (h : [0, 0] <:+ c :: p) (hc : c ≠ 0) :
    jsonGetNextObject .object (c :: p) = .ok none ∨
      ∃ entry, jsonGetNextObject .object (c :: p) = .ok (some entry) ∧ entry.val <:+ c :: p ∧
        (0 : UInt8) ∈ entry.val ∧ entry.next <:+ p ∧ entry.next ≠ [] := by
  have hmem : (0 : UInt8) ∈ c :: p := h.subset (by decide)
  obtain ⟨front, after, hsplit, hfront⟩ := List.eq_append_cons_of_mem hmem
  have htext : InText (front ++ [0]) := ⟨front, rfl, hfront⟩
  have hafter : (0 : UInt8) ∈ after := by
    have hpart : 0 :: after <:+ c :: p := ⟨front, hsplit.symm⟩
    cases after with
    | nil =>
      have hlast : [0] ++ [0] <:+ front ++ [0] := hsplit ▸ h
      exact absurd ((List.suffix_append_self_iff.mp hlast).subset List.mem_cons_self) hfront
    | cons c' after =>
      have htwo : [(0 : UInt8), 0].length ≤ (0 :: c' :: after).length := Nat.le_add_left 2 _
      have hend : [0, 0] <:+ 0 :: c' :: after := List.suffix_of_suffix_length_le h hpart htwo
      rcases List.suffix_cons_iff.mp hend with heq | hin
      · rw [← (List.cons.inj heq).2]
        exact List.mem_cons_self
      · exact hin.subset List.mem_cons_self
  cases front with
  | nil => exact absurd (List.cons.inj hsplit).1 hc
  | cons c' front =>
    obtain ⟨hfirst, hrest⟩ := List.cons.inj hsplit
    subst hfirst
    have htail : (front ++ [0]) ++ after = p := by
      rw [hrest, List.append_assoc]
      rfl
    have hwhole : (c :: (front ++ [0])) ++ after = c :: p := by rw [List.cons_append, htail]
    have hnext := nextInside_inText htext
    rcases jsonGetNextObject_inText .object htext hc with ⟨hnone, -⟩ |
      ⟨entry, hentry, hval, hlen, hsuffix, -⟩
    · left
      rw [if_pos rfl] at hnone
      rw [← hwhole]
      exact nextInside_onto hafter (hnext.trans hnone)
    · right
      rw [if_pos rfl] at hentry
      refine ⟨onto after entry, ?_, ?_, List.mem_append_right _ hafter, ?_, ?_⟩
      · rw [← hwhole]
        exact nextInside_onto hafter (hnext.trans hentry)
      · rw [← hwhole]
        exact List.suffix_append_self_iff.mpr hval
      · rw [← htail]
        exact List.suffix_append_self_iff.mpr hsuffix
      · exact List.append_ne_nil_of_right_ne_nil _ (List.ne_nil_of_mem hafter)

/-- A loop over what ends in two NULs comes to its end. -/
theorem walk_closed (fuel : ℕ) (h : p = [0] ∨ [0, 0] <:+ p) (hfuel : p.length ≤ fuel) :
    (walk .object fuel p).ending = .finished ∧
      ∀ entry ∈ (walk .object fuel p).entries, entry.val <:+ p ∧ (0 : UInt8) ∈ entry.val := by
  induction fuel generalizing p with
  | zero =>
    obtain rfl : p = [] := List.eq_nil_of_length_eq_zero (Nat.le_zero.mp hfuel)
    exact absurd h (by decide)
  | succ fuel ih =>
    cases p with
    | nil => exact absurd h (by decide)
    | cons c p =>
      by_cases hc : c = 0
      · rw [walk, if_pos hc]
        exact ⟨rfl, by simp⟩
      · have hclosed : [0, 0] <:+ c :: p := h.resolve_left fun heq => hc (List.cons.inj heq).1
        rcases jsonGetNextObject_closed hclosed hc with hnone |
          ⟨entry, hentry, hval, hnul, hnext, hne⟩
        · rw [walk_none fuel hnone]
          exact ⟨rfl, by simp⟩
        · rw [walk_some fuel hentry]
          have hwhole := hnext.trans (List.suffix_cons c p)
          have hlength := hnext.length_le
          rw [List.length_cons] at hfuel
          obtain ⟨hending, hentries⟩ := ih (suffix_closed hclosed hwhole hne) (by omega)
          refine ⟨hending, ?_⟩
          intro entry' hmem
          rcases List.mem_cons.mp hmem with rfl | hmem
          · exact ⟨hval, hnul⟩
          · exact ⟨(hentries entry' hmem).1.trans hwhole, (hentries entry' hmem).2⟩

theorem jsonGetObject_ne_nil {pos : Ptr} (h : jsonGetObject .object p = .ok (some pos)) :
    pos ≠ [] := by
  induction p with
  | nil => cases h
  | cons c p ih =>
    rw [jsonGetObject, if_pos rfl] at h
    split_ifs at h
    · cases h
    · exact ih h
    · cases h
      exact List.cons_ne_nil c p
    · cases h

/-- A search in what ends in two NULs stays inside. -/
theorem liteJsonValueOf_closed {key : List UInt8} (hdot : dot ∉ key) (h : [0, 0] <:+ p) :
    ∃ value, liteJsonValueOf key p = .ok value := by
  have hmem : (0 : UInt8) ∈ p := h.subset (by decide)
  have hwalk : (forEach .object p).ending = .finished ∧
      ∀ entry ∈ (forEach .object p).entries, entry.val <:+ p ∧ (0 : UInt8) ∈ entry.val := by
    rw [forEach]
    cases hobject : jsonGetObject .object p with
    | error e => exact absurd (List.all_eq_true.mp (jsonGetObject_error hobject) 0 hmem) (by decide)
    | ok pos =>
      cases pos with
      | none => exact ⟨rfl, by simp⟩
      | some pos =>
        have hsuffix := jsonGetObject_suffix hobject
        have hlength := hsuffix.length_le
        have hne : pos ≠ [] := jsonGetObject_ne_nil hobject
        have hclosed := suffix_closed h hsuffix hne
        obtain ⟨hending, hentries⟩ := walk_closed (p.length + 1) hclosed (by omega)
        refine ⟨hending, ?_⟩
        intro entry hentry
        obtain ⟨hval, hnul⟩ := hentries entry hentry
        exact ⟨hval.trans hsuffix, hnul⟩
  have hlookup : lookup key (forEach .object p) = .ok ((forEach .object p).entries.find?
      fun entry => reported entry && nameMatches key entry) := by
    rw [lookup]
    cases (forEach .object p).entries.find?
        fun entry => reported entry && nameMatches key entry with
    | none => exact if_pos hwalk.1
    | some entry => rfl
  exact ⟨_, liteJsonValueOf_name hdot hmem hlookup fun entry hentry =>
    hwalk.2 entry (List.mem_of_find?_eq_some hentry)⟩

end Searches

section Answers
variable {env : Env} {jdoc : Ptr} {info : DeviceInfo}

/-- A success of the decoder reports what it has written, and a failure has written nothing. -/
theorem decode_cases (sizeBits : ℕ) (payload : List UInt8) :
    ((utilsBase64decode sizeBits true 256 payload).code = .failure ∧
        (utilsBase64decode sizeBits true 256 payload).written = []) ∨
      (utilsBase64decode sizeBits true 256 payload).code = .success ∧
        (utilsBase64decode sizeBits true 256 payload).olen =
          some (utilsBase64decode sizeBits true 256 payload).written.length := by
  unfold utilsBase64decode
  split
  · exact .inl ⟨rfl, rfl⟩
  · split_ifs
    · exact .inr ⟨rfl, rfl⟩
    · exact .inl ⟨rfl, rfl⟩
    · exact .inr ⟨rfl, rfl⟩

/-- What is decrypted ends in the buffer exactly if there is room behind what was decoded. -/
theorem datalen_le_iff (len : ℕ) : datalen len ≤ 256 ↔ len < 256 := by
  unfold datalen
  omega

/-- Without a payload that can be decoded an answer is an error; otherwise it is decrypted. -/
theorem parseDevinfo_cases (env : Env) (jdoc : Ptr) (info : DeviceInfo) :
    (decodedPayload env jdoc = none ∧ ∃ ret ≠ 0, parseDevinfo env jdoc info = .ok (ret, info)) ∨
      ∃ decoded, decodedPayload env jdoc = some decoded ∧ parseDevinfo env jdoc info =
        if decoded.length < 256 then
          if (decrypted env info decoded).1 ≠ 0 then .ok ((decrypted env info decoded).1, info)
          else parsePlain env (decrypted env info decoded).2 info
        else .error .overrun := by
  unfold parseDevinfo decodedPayload
  dsimp only
  by_cases hcode : jsonNumber (answerValue env jdoc (ascii "code")) = 0
  · rw [if_neg (not_not_intro hcode), if_pos hcode]
    cases answerValue env jdoc (ascii "payload") with
    | none => exact .inl ⟨rfl, -1001, by decide, rfl⟩
    | some payload =>
      dsimp only [Option.bind_some]
      rcases decode_cases env.sizeBits payload with ⟨hfailure, hwritten⟩ | ⟨hsuccess, holen⟩
      · left
        rw [hwritten, hfailure]
        exact ⟨rfl, -1001, by decide, rfl⟩
      · right
        rw [hsuccess, holen]
        generalize (utilsBase64decode env.sizeBits true 256 payload).written = decoded
        refine ⟨decoded, rfl, ?_⟩
        rw [Option.getD_some, if_neg (by decide : ¬ Base64.Base64Code.success = .failure)]
        have hdatalen := datalen_le_iff decoded.length
        by_cases hfits : decoded.length < 256
        · rw [if_neg (by omega), if_neg (by omega), if_pos hfits]
        · rw [if_neg hfits]
          by_cases hwritten : 256 < decoded.length
          · rw [if_pos hwritten]
          · rw [if_neg hwritten, if_pos (by omega)]
  · rw [if_pos hcode, if_neg hcode]
    exact .inl ⟨rfl, _, hcode, rfl⟩

/-- An answer is parsed right exactly if it fits. -/
theorem parseDevinfo_iff (env : Env) (jdoc : Ptr) (info : DeviceInfo) :
    Right env jdoc info ↔ AnswerFits env jdoc info := by
  unfold Right AnswerFits
  rcases parseDevinfo_cases env jdoc info with ⟨hnone, ret, hret, hparse⟩ | ⟨decoded, hsome, hparse⟩
  · rw [hparse, hnone]
    simp [hret]
  · rw [hparse, hsome]
    simp only [Option.mem_some_iff, forall_eq']
    split_ifs with hfits hcipher
    · rw [runs_ok, and_iff_right hfits]
      exact iff_of_true (fun h => absurd h hcipher) fun h => absurd h hcipher
    · rw [and_iff_right hfits, imp_iff_right (not_not.mp hcipher), ← parsePlain_iff _ info]
      refine runs_congr fun result _ => ?_
      simp only [Present, hsome, Option.mem_some_iff, exists_eq_left', not_not.mp hcipher, true_and]
    · rw [runs_error]
      exact iff_of_false id fun h => hfits h.1

/-- Three bytes are written for four characters at most. -/
theorem written_length_le (sizeBits : ℕ) (payload : List UInt8) :
    (utilsBase64decode sizeBits true 256 payload).written.length ≤ 3 * (payload.length / 4) := by
  unfold utilsBase64decode
  cases hcheck : Base64.checkText false 0 0 payload with
  | none => exact Nat.zero_le _
  | some counts =>
    obtain ⟨n, j⟩ := counts
    obtain ⟨-, -, hcount⟩ := Base64.checkText_pads (by decide) (by decide) hcheck
    have hlength := Base64.decodedBytes_length 0 (by decide) (by decide) hcheck
    dsimp only
    split_ifs
    · exact Nat.zero_le _
    · exact Nat.zero_le _
    · have hwritten : (Base64.decodedBytes 3 0 0 payload).length = Base64.writtenCount n j := by
        simpa [Base64.writtenCount] using hlength
      rw [Base64.writtenCount] at hwritten
      dsimp only
      omega

/-- A payload that the buffer of the response can hold is short. -/
theorem decodedPayload_length {decoded : List UInt8}
    (hshort : ∀ payload ∈ answerValue env jdoc (ascii "payload"), payload.length ≤ 256)
    (h : decodedPayload env jdoc = some decoded) : decoded.length ≤ 192 := by
  unfold decodedPayload at h
  split_ifs at h
  obtain ⟨payload, hpayload, hdecode⟩ := Option.bind_eq_some_iff.mp h
  dsimp only at hdecode
  split_ifs at hdecode
  obtain rfl := Option.some.inj hdecode
  have hwritten := written_length_le env.sizeBits payload
  have hpayload := hshort payload hpayload
  omega

/-- Behind a short payload the buffer ends in NULs. -/
theorem decrypted_closed {decoded : List UInt8} (h : decoded.length ≤ 192) :
    [0, 0] <:+ (decrypted env info decoded).2 := by
  have hdatalen : datalen decoded.length ≤ 208 ∧ decoded.length ≤ datalen decoded.length := by
    unfold datalen
    omega
  have hend : (decodeBuff decoded).drop (datalen decoded.length) =
      List.replicate (254 - datalen decoded.length) 0 ++ [0, 0] := by
    rw [decodeBuff, List.drop_append, List.drop_eq_nil_of_le hdatalen.2, List.nil_append,
      List.drop_replicate, show [(0 : UInt8), 0] = List.replicate 2 0 from rfl,
      List.replicate_append_replicate]
    congr 1
    omega
  change [0, 0] <:+ _ ++ (decodeBuff decoded).drop (datalen decoded.length)
  rw [hend, ← List.append_assoc]
  exact List.suffix_append _ _

/-- An answer with a short payload fits exactly if its psk does. -/
theorem answerFits_iff
    (hshort : ∀ payload ∈ answerValue env jdoc (ascii "payload"), payload.length ≤ 256) :
    AnswerFits env jdoc info ↔ PskFits env jdoc info := by
  unfold AnswerFits PskFits
  refine forall₂_congr fun decoded hdecoded => ?_
  have hlength := decodedPayload_length hshort hdecoded
  rw [and_iff_right (by omega : decoded.length < 256)]
  refine imp_congr_right fun hcipher => ?_
  have hclosed := @decrypted_closed env info decoded hlength
  have hfound (key : List UInt8) (hdot : dot ∉ key) :
      ∃ value, valueOf env (decrypted env info decoded).2 key = .ok value := by
    obtain ⟨value, hvalue⟩ := liteJsonValueOf_closed hdot hclosed
    rw [valueOf, hvalue]
    exact ⟨_, rfl⟩
  obtain ⟨enType, htype⟩ := hfound (ascii "encryptionType") (by decide)
  obtain ⟨psk, hpsk⟩ := hfound (ascii "psk") (by decide)
  rw [PlainFits, htype, hpsk]
  simp only [runs_ok, Except.ok.injEq, forall_eq']
  refine imp_congr_right fun _ => ?_
  constructor
  · rintro ⟨text, rfl, hfits⟩
    exact ⟨text, ⟨decoded, hdecoded, hcipher, hpsk⟩, hfits⟩
  · rintro ⟨text, ⟨decoded', hdecoded', -, hpresent⟩, hfits⟩
    obtain rfl := Option.some.inj (hdecoded.symm.trans hdecoded')
    rw [hpsk] at hpresent
    exact ⟨text, Except.ok.inj hpresent, hfits⟩

/-- An answer is parsed right exactly if it fits. If its payload fits the buffer of the response,
the psk decides. -/
theorem parseDevinfo_right_iff (env : Env) (jdoc : Ptr) (info : DeviceInfo) :
    (Right env jdoc info ↔ AnswerFits env jdoc info) ∧
      ((∀ payload ∈ answerValue env jdoc (ascii "payload"), payload.length ≤ 256) →
        (Right env jdoc info ↔ PskFits env jdoc info)) :=
  ⟨parseDevinfo_iff env jdoc info,
    fun hshort => (parseDevinfo_iff env jdoc info).trans (answerFits_iff hshort)⟩

/-- The cipher that changes nothing, on 64 bits. -/
def plainEnv : Env := ⟨64, fun _ => true, fun _ => none, fun _ data => (0, data), fun _ _ => rfl⟩

def newDevice : DeviceInfo := ⟨ascii "0123456789abcdef", List.replicate 65 0, by decide⟩

def noPsk : List UInt8 := ascii "\x7b\"encryptionType\":2\x7d"

def noPskAnswer : Ptr :=
  ascii "\x7b\"code\":0,\"payload\":\"eyJlbmNyeXB0aW9uVHlwZSI6Mn0=\"\x7d" ++ [0]

/-- An answer of the type 2 without a psk is a success that leaves the secret. -/
theorem not_right_of_noPsk {decoded : List UInt8} {enType : Option (List UInt8)}
    (hdecoded : decodedPayload env jdoc = some decoded)
    (hcipher : (decrypted env info decoded).1 = 0)
    (htype : valueOf env (decrypted env info decoded).2 (ascii "encryptionType") = .ok enType)
    (htwo : jsonNumber enType = 2)
    (hpsk : valueOf env (decrypted env info decoded).2 (ascii "psk") = .ok none) :
    ¬ Right env jdoc info := by
  intro h
  have hplain := ((parseDevinfo_iff env jdoc info).mp h decoded hdecoded).2 hcipher
  rw [PlainFits, htype, hpsk] at hplain
  obtain ⟨psk, hmem, -⟩ := hplain htwo
  cases hmem

theorem parseDevinfo_noPsk : ¬ Right plainEnv noPskAnswer newDevice := by
  have hdecoded : decodedPayload plainEnv noPskAnswer = some noPsk ∧
      (decrypted plainEnv newDevice noPsk).1 = 0 := by decide +kernel
  have hvalues : valueOf plainEnv (decrypted plainEnv newDevice noPsk).2 (ascii "encryptionType") =
        .ok (some (ascii "2")) ∧ jsonNumber (some (ascii "2")) = 2 ∧
      valueOf plainEnv (decrypted plainEnv newDevice noPsk).2 (ascii "psk") = .ok none := by
    decide +kernel
  exact not_right_of_noPsk hdecoded.1 hdecoded.2 hvalues.1 hvalues.2.1 hvalues.2.2

end Answers

end IotExplorer.DeviceRegistration
