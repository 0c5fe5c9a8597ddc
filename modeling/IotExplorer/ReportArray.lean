import IotExplorer.DeviceProperty
import Mathlib.Data.Int.Init

/-!
`IOT_Template_JSON_ConstructReportArray` with the writers of
data_template_client_json.c. A write replaces what is behind its place in the
text, and the buffer remembers how far it was written to. The report is right
when no write leaves the buffer, no place outside the list is read, and a report
that is said to be a success is an object with the properties as its params.
-/
namespace IotExplorer.ReportArray

open Basis.JsonText Basis.Decimals TemplateJson DeviceProperty

inductive JsonCode where
  | success | inval | bufferTruncated | bufferTooSmall | json
  deriving DecidableEq

/-- The memory behind a pointer: the text up to its NUL, and how far it was written to. -/
structure Buffer where
  text : List UInt8
  reach : ℕ

section Writers

/-- `HAL_Snprintf` at a place in the text. The length is taken as an int, and one that is
negative then is a size beyond INT_MAX, which a `vsnprintf` of POSIX refuses with -1. -/
def halSnprintf (buffer : Buffer) (place len : ℕ) (out : List UInt8) : ℤ × Buffer :=
  let n := (len : ℤ).bmod (2 ^ 32)
  if n < 0 then (-1, buffer)
  else
    let kept := out.take (n.toNat - 1)
    (if out.length < 2 ^ 31 then out.length else -1,
      if n = 0 then buffer
      else ⟨buffer.text.take place ++ kept, max buffer.reach (place + kept.length + 1)⟩)

/-- `check_snprintf_return`; the comparison is between `size_t` values. -/
def checkSnprintfReturn (returnCode : ℤ) (maxSizeOfWrite : ℕ) : JsonCode :=
  if maxSizeOfWrite ≤ (returnCode % 2 ^ 64).toNat then .bufferTruncated
  else if returnCode < 0 then .json
  else .success

/-- A write with the check of its return. -/
def print (buffer : Buffer) (place len : ℕ) (out : List UInt8) : JsonCode × Buffer :=
  let result := halSnprintf buffer place len out
  (checkSnprintfReturn result.1 len, result.2)

/-- What follows a call whose failure is returned. -/
def andThen (result : JsonCode × Buffer) (next : Buffer → JsonCode × Buffer) : JsonCode × Buffer :=
  if result.1 = .success then next result.2 else result

/-- What is printed for a key; `STRING_PTR_PRINT_SANITY_CHECK` stands in for NULL. -/
def keyText (key : Option CString) : List UInt8 :=
  quote :: (key.elim (ascii "null") Subtype.val ++ [quote, colon])

/-- The key part of `put_json_node`, for a text of length `current` in a buffer of size `size`
at `base`. A rest of the buffer that is not greater than one is tested as a signed number. -/
def putKey (base size current : ℕ) (key : Option CString) (buffer : Buffer) : JsonCode × Buffer :=
  if size ≤ current + 1 then (.bufferTooSmall, buffer)
  else
    andThen (print buffer (base + current) (size - current) (keyText key)) fun buffer =>
      if size ≤ current + (keyText key).length + 1 then (.bufferTooSmall, buffer)
      else (.success, buffer)

mutual

/-- `put_json_node` on the buffer of size `size` at `base`. -/
def putJsonNode (base size : ℕ) : Property → Buffer → JsonCode × Buffer
  | .null key, buffer =>
      let current := buffer.text.length - base + (keyText key).length
      andThen (putKey base size (buffer.text.length - base) key buffer) fun buffer =>
        print buffer (base + current) (size - current) (ascii "null,")
  | .scalar key data, buffer =>
      let current := buffer.text.length - base + (keyText key).length
      andThen (putKey base size (buffer.text.length - base) key buffer) fun buffer =>
        print buffer (base + current) (size - current) (data.text ++ [comma])
  | .struct key members, buffer =>
      let current := buffer.text.length - base + (keyText key).length
      andThen (putKey base size (buffer.text.length - base) key buffer) fun buffer =>
        andThen (print buffer (base + current) (size - current) [openBrace]) fun buffer =>
          if size ≤ current + 2 then (.bufferTooSmall, buffer)
          else putMembers base size (current + 1) members buffer

/-- The members of a struct; the closing brace replaces the comma of the last one. A member
without a key is left out. -/
def putMembers (base size current : ℕ) : List Property → Buffer → JsonCode × Buffer
  | [], buffer => print buffer (base + current - 1) (size - current) [closeBrace, comma]
  | member :: rest, buffer =>
      if member.key = none then putMembers base size current rest buffer
      else
        andThen (putJsonNode (base + current) (size - current) member buffer) fun buffer =>
          if size ≤ buffer.text.length - base + 1 then (.bufferTooSmall, buffer)
          else putMembers base size (buffer.text.length - base) rest buffer

end

end Writers

section Report

/-- What a report reads of the template: its product id and the number of the next token. -/
structure Template where
  productId : CString
  short : productId.val.length ≤ 10
  tokenNum : UInt32

def Template.clientToken (template : Template) : List UInt8 :=
  template.productId ++ minus :: decimal template.tokenNum.toNat

/-- `build_empty_json`, which does not know the size of the buffer. -/
def buildEmptyJson (template : Template) : Buffer :=
  (halSnprintf ⟨[], 0⟩ 0 110
    (ascii "\x7b\"clientToken\":\"" ++ template.clientToken ++ ascii "\"\x7d")).2

/-- How the construction of a report ends: it returns, or it reads a place outside the list. -/
inductive ReportEnd where
  | returned (code : JsonCode)
  | outside
  deriving DecidableEq

/-- The loop over the list from the index on, which is a signed byte; the index is less than
the count as long as it is negative. -/
def reportLoop (size : ℕ) : Int8 → List (Option Property) → Buffer → ReportEnd × Buffer
  | index, [], buffer => (if index.toInt < 0 then .outside else .returned .success, buffer)
  | index, node :: rest, buffer =>
      if index.toInt < 0 then (.outside, buffer)
      else
        match node with
        | none => (.returned .inval, buffer)
        | some property =>
            if property.key = none then (.returned .inval, buffer)
            else
              let result := putJsonNode 0 size property buffer
              if result.1 = .success then reportLoop size (index + 1) rest result.2
              else (.returned result.1, result.2)

/-- `IOT_Template_JSON_ConstructReportArray`; the loop works with the rest that was left
behind the empty JSON. -/
def constructReportArray (template : Template) (sizeOfBuffer : ℕ)
    (properties : List (Option Property)) : ReportEnd × Buffer :=
  let buffer := buildEmptyJson template
  let remain := sizeOfBuffer - buffer.text.length
  if remain ≤ 1 then (.returned .bufferTooSmall, buffer)
  else
    let head := print buffer (buffer.text.length - 1) remain (ascii ", \"params\":\x7b")
    if head.1 ≠ .success then (.returned head.1, head.2)
    else
      let result := reportLoop remain 0 properties head.2
      if result.1 ≠ .returned .success then result
      else
        let last := sizeOfBuffer - result.2.text.length
        if last ≤ 1 then (.returned .bufferTooSmall, result.2)
        else
          let tail := print result.2 (result.2.text.length - 1) last (ascii "\x7d\x7d")
          (.returned tail.1, tail.2)

end Report

section Texts

mutual

/-- What `put_json_node` writes when there is room. -/
def nodeText : Property → List UInt8
  | .null key => keyText key ++ ascii "null,"
  | .scalar key data => keyText key ++ (data.text ++ [comma])
  | .struct key members =>
      keyText key ++ ((openBrace :: nodesText members).dropLast ++ [closeBrace, comma])

def nodesText : List Property → List UInt8
  | [] => []
  | member :: rest => (if member.key = none then [] else nodeText member) ++ nodesText rest

end

/-- The bytes that have to be left behind a property: one behind a struct. -/
def slack : Property → ℕ
  | .struct .. => 1
  | _ => 0

/-- There is room for the properties one behind the other, from a length of the text on. -/
def fits (size : ℕ) : ℕ → List Property → Bool
  | _, [] => true
  | length, property :: rest =>
      decide (length + (nodeText property).length + slack property < size) &&
        fits size (length + (nodeText property).length) rest

end Texts

section Writes
variable {base size current place len : ℕ} {buffer : Buffer} {out : List UInt8}

/-- What a write of `written` behind the text comes to when it stays within `limit`; there is
room for it when `room` holds. -/
structure Puts (limit : ℕ) (buffer : Buffer) (room : Prop) (text : List UInt8)
    (result : JsonCode × Buffer) : Prop where
  reach : result.2.reach ≤ max buffer.reach limit
  done : room → result.1 = .success ∧ result.2.text = text
  full : ¬ room → result.1 ≠ .success

/-- What the check makes of the length of a text. -/
theorem checkSnprintfReturn_length (n : ℕ) (hint : len < 2 ^ 31) :
    checkSnprintfReturn (if n < 2 ^ 31 then n else -1) len =
      if len ≤ n then .bufferTruncated else .success := by
  by_cases hn : n < 2 ^ 31
  · have hmod : ((n : ℤ) % 2 ^ 64).toNat = n := by omega
    rw [if_pos hn, checkSnprintfReturn, hmod, if_neg (Int.not_lt.mpr (Int.natCast_nonneg n))]
  · have hmod : ((-1 : ℤ) % 2 ^ 64).toNat = 2 ^ 64 - 1 := rfl
    rw [if_neg hn, checkSnprintfReturn, hmod, if_pos (by omega), if_pos (by omega)]

theorem halSnprintf_eq (hlen : 0 < len) (hint : len < 2 ^ 31) :
    halSnprintf buffer place len out =
      (if out.length < 2 ^ 31 then (out.length : ℤ) else -1,
        ⟨buffer.text.take place ++ out.take (len - 1),
          max buffer.reach (place + (out.take (len - 1)).length + 1)⟩) := by
  have hbmod : (len : ℤ).bmod (2 ^ 32) = len := by
    apply Int.bmod_eq_of_le <;> omega
  have hneg : ¬ (len : ℤ) < 0 := by omega
  have hzero : ¬ (len : ℤ) = 0 := by omega
  unfold halSnprintf
  rw [hbmod]
  dsimp only
  rw [if_neg hneg, if_neg hzero, Int.toNat_natCast]

theorem print_puts (buffer : Buffer) (place : ℕ) (out : List UInt8) (hlen : 0 < len)
    (hint : len < 2 ^ 31) :
    Puts (place + len) buffer (out.length < len) (buffer.text.take place ++ out)
      (print buffer place len out) := by
  have hkept : (out.take (len - 1)).length = min (len - 1) out.length := List.length_take
  rw [print, halSnprintf_eq hlen hint, checkSnprintfReturn_length _ hint]
  refine ⟨?_, ?_, ?_⟩
  · dsimp only
    rw [hkept]
    omega
  · intro hroom
    have hall : out.take (len - 1) = out := List.take_of_length_le (by omega)
    rw [if_neg (by omega), hall]
    exact ⟨rfl, rfl⟩
  · intro hroom
    rw [if_pos (by omega)]
    exact JsonCode.noConfusion

variable {limit : ℕ} {room room' : Prop} {text text' : List UInt8} {result : JsonCode × Buffer}

theorem Puts.congr (h : Puts limit buffer room text result) (hroom : room' ↔ room) :
    Puts limit buffer room' text result :=
  ⟨h.reach, fun h' => h.done (hroom.mp h'), fun h' => h.full fun h'' => h' (hroom.mpr h'')⟩

theorem Puts.mono (h : Puts limit buffer room text result) {limit' : ℕ} (hlimit : limit ≤ limit') :
    Puts limit' buffer room text result := by
  refine ⟨?_, h.done, h.full⟩
  have hreach := h.reach
  omega

/-- A write after a write that may fail. -/
theorem Puts.andThen {next : Buffer → JsonCode × Buffer} (h : Puts limit buffer room text result)
    (hnext : ∀ buffer' : Buffer, buffer'.text = text → room →
      Puts limit buffer' room' text' (next buffer')) :
    Puts limit buffer (room ∧ room') text' (ReportArray.andThen result next) := by
  have hreach := h.reach
  unfold ReportArray.andThen
  by_cases hroom : room
  · obtain ⟨hsuccess, htext⟩ := h.done hroom
    have hrest := hnext result.2 htext hroom
    have hreach' := hrest.reach
    rw [if_pos hsuccess]
    exact ⟨by omega, fun h' => hrest.done h'.2, fun h' => hrest.full fun h'' => h' ⟨hroom, h''⟩⟩
  · rw [if_neg (h.full hroom)]
    exact ⟨h.reach, fun h' => absurd h'.1 hroom, fun _ => h.full hroom⟩

/-- A write that is given up when the rest of the buffer is too small. -/
theorem Puts.guard {n : ℕ} (h : n < size → Puts limit buffer room text result) :
    Puts limit buffer (n < size ∧ room) text
      (if size ≤ n then (.bufferTooSmall, buffer) else result) := by
  by_cases hsize : size ≤ n
  · rw [if_pos hsize]
    exact ⟨by dsimp only; omega, fun h' => absurd h'.1 (by omega), fun _ => JsonCode.noConfusion⟩
  · rw [if_neg hsize]
    have hroom := h (by omega)
    exact ⟨hroom.reach, fun h' => hroom.done h'.2,
      fun h' => hroom.full fun h'' => h' ⟨by omega, h''⟩⟩

/-- A write behind the text. -/
theorem print_end (out : List UInt8) (hplace : base + current = buffer.text.length)
    (hcurrent : current < size)
    (hsize : size < 2 ^ 31) :
    Puts (base + size) buffer (current + out.length < size) (buffer.text ++ out)
      (print buffer (base + current) (size - current) out) := by
  have hputs : Puts (base + current + (size - current)) buffer (out.length < size - current)
      (buffer.text.take (base + current) ++ out)
        (print buffer (base + current) (size - current) out) :=
    print_puts _ _ _ (by omega) (by omega)
  rw [hplace, List.take_length, ← hplace] at hputs
  exact (hputs.mono (by omega)).congr (by omega)

theorem putKey_puts (key : Option CString) (hplace : base + current = buffer.text.length)
    (hsize : size < 2 ^ 31) :
    Puts (base + size) buffer (current + (keyText key).length + 1 < size)
      (buffer.text ++ keyText key) (putKey base size current key buffer) := by
  have hputs : Puts (base + size) buffer
      (current + 1 < size ∧ current + (keyText key).length < size ∧
        current + (keyText key).length + 1 < size ∧ True)
      (buffer.text ++ keyText key) (putKey base size current key buffer) := by
    apply Puts.guard
    intro hroom
    apply (print_end _ hplace (by omega) hsize).andThen
    intro buffer' htext _
    apply Puts.guard
    intro _
    exact ⟨by dsimp only; omega, fun _ => ⟨rfl, htext⟩, fun h => absurd trivial h⟩
  apply hputs.congr
  rw [and_true]
  omega

theorem slack_le_one (property : Property) : slack property ≤ 1 := by
  cases property <;> simp [slack]

/-- What `put_json_node` does when it has written the key and has one more text to write. -/
theorem putKey_print (key : Option CString) (out : List UInt8) (hout : out ≠ [])
    (hplace : base + current = buffer.text.length) (hsize : size < 2 ^ 31) :
    Puts (base + size) buffer (current + (keyText key ++ out).length < size)
      (buffer.text ++ (keyText key ++ out))
      (andThen (putKey base size current key buffer) fun buffer =>
        print buffer (base + (current + (keyText key).length))
          (size - (current + (keyText key).length)) out) := by
  have hputs : Puts (base + size) buffer
      (current + (keyText key).length + 1 < size ∧
        current + (keyText key).length + out.length < size)
      (buffer.text ++ (keyText key ++ out))
      (andThen (putKey base size current key buffer) fun buffer =>
        print buffer (base + (current + (keyText key).length))
          (size - (current + (keyText key).length)) out) := by
    apply (putKey_puts key hplace hsize).andThen
    intro buffer' htext hroom
    have hplace' : base + (current + (keyText key).length) = buffer'.text.length := by
      rw [htext, List.length_append]
      omega
    have hend := print_end out hplace' (by omega) hsize
    rw [htext, List.append_assoc] at hend
    exact hend
  apply hputs.congr
  have hpos := List.length_pos_of_ne_nil hout
  rw [List.length_append]
  omega

mutual

/-- `put_json_node` appends the text of the property when there is room for it, and fails
otherwise; it does not leave its buffer. -/
theorem putJsonNode_puts : (property : Property) → {base size : ℕ} → {buffer : Buffer} →
    size < 2 ^ 31 → base ≤ buffer.text.length →
    Puts (base + size) buffer
      (buffer.text.length - base + (nodeText property).length + slack property < size)
      (buffer.text ++ nodeText property) (putJsonNode base size property buffer)
  | .null key, base, size, buffer, hsize, hbase =>
      putKey_print key _ (by decide) (Nat.add_sub_cancel' hbase) hsize
  | .scalar key data, base, size, buffer, hsize, hbase =>
      putKey_print key _ (by simp) (Nat.add_sub_cancel' hbase) hsize
  | .struct key members, base, size, buffer, hsize, hbase => by
      have hplace : base + (buffer.text.length - base) = buffer.text.length :=
        Nat.add_sub_cancel' hbase
      rw [putJsonNode, nodeText, slack]
      generalize buffer.text.length - base = current at hplace ⊢
      have hputs : Puts (base + size) buffer
          (current + (keyText key).length + 1 < size ∧ current + (keyText key).length + 1 < size ∧
            current + (keyText key).length + 2 < size ∧
            current + (keyText key).length + 1 + (nodesText members).length + 2 < size)
          ((buffer.text ++ keyText key ++ [openBrace] ++ nodesText members).dropLast ++
            [closeBrace, comma])
          (andThen (putKey base size current key buffer) fun buffer =>
            andThen (print buffer (base + (current + (keyText key).length))
                (size - (current + (keyText key).length)) [openBrace]) fun buffer =>
              if size ≤ current + (keyText key).length + 2 then (.bufferTooSmall, buffer)
              else putMembers base size (current + (keyText key).length + 1) members buffer) := by
        apply (putKey_puts key hplace hsize).andThen
        intro buffer' htext hroom
        have hplace' : base + (current + (keyText key).length) = buffer'.text.length := by
          rw [htext, List.length_append]
          omega
        have hopen := print_end [openBrace] hplace' (by omega) hsize
        rw [htext] at hopen
        apply hopen.andThen
        intro buffer'' htext' hroom'
        apply Puts.guard
        intro hguard
        have hplace'' : base + (current + (keyText key).length + 1) = buffer''.text.length := by
          rw [htext', List.length_append, ← htext, ← hplace', List.length_singleton]
          omega
        have hmembers := putMembers_puts members hsize hplace'' (by omega) (by omega)
        rw [htext'] at hmembers
        exact hmembers
      have hdrop : (buffer.text ++ keyText key ++ [openBrace] ++ nodesText members).dropLast ++
            [closeBrace, comma] =
          buffer.text ++ (keyText key ++ ((openBrace :: nodesText members).dropLast ++
            [closeBrace, comma])) := by
        rw [List.append_assoc _ [openBrace], List.singleton_append,
          List.dropLast_append_of_ne_nil (List.cons_ne_nil _ _)]
        simp only [List.append_assoc]
      rw [hdrop] at hputs
      apply hputs.congr
      simp only [List.length_append, List.length_dropLast, List.length_cons, List.length_nil]
      omega

/-- The members of a struct: the last character of the text is replaced. -/
theorem putMembers_puts : (members : List Property) → {base size current : ℕ} →
    {buffer : Buffer} → size < 2 ^ 31 → base + current = buffer.text.length → 0 < current →
    current + 1 < size →
    Puts (base + size) buffer (current + (nodesText members).length + 2 < size)
      ((buffer.text ++ nodesText members).dropLast ++ [closeBrace, comma])
      (putMembers base size current members buffer)
  | [], base, size, current, buffer, hsize, hplace, hpos, hroom => by
      have hputs : Puts (base + current - 1 + (size - current)) buffer
          ([closeBrace, comma].length < size - current)
          (buffer.text.take (base + current - 1) ++ [closeBrace, comma])
          (print buffer (base + current - 1) (size - current) [closeBrace, comma]) :=
        print_puts _ _ _ (by omega) (by omega)
      rw [hplace, ← List.dropLast_eq_take, ← hplace] at hputs
      rw [nodesText, putMembers, List.append_nil, List.length_nil]
      exact (hputs.mono (by omega)).congr (by rw [List.length_cons, List.length_singleton]; omega)
  | member :: rest, base, size, current, buffer, hsize, hplace, hpos, hroom => by
      rw [nodesText, putMembers]
      by_cases hkey : member.key = none
      · rw [if_pos hkey, if_pos hkey, List.nil_append]
        exact putMembers_puts rest hsize hplace hpos hroom
      · rw [if_neg hkey, if_neg hkey]
        have hslack := slack_le_one member
        have hputs : Puts (base + size) buffer
            (buffer.text.length - (base + current) + (nodeText member).length + slack member <
                size - current ∧
              current + (nodeText member).length + 1 < size ∧
              current + (nodeText member).length + (nodesText rest).length + 2 < size)
            ((buffer.text ++ nodeText member ++ nodesText rest).dropLast ++ [closeBrace, comma])
            (andThen (putJsonNode (base + current) (size - current) member buffer) fun buffer =>
              if size ≤ buffer.text.length - base + 1 then (.bufferTooSmall, buffer)
              else putMembers base size (buffer.text.length - base) rest buffer) := by
          have hinner : size - current < 2 ^ 31 := by omega
          have hmember := putJsonNode_puts member hinner (Nat.le_of_eq hplace)
          apply (hmember.mono (by omega)).andThen
          intro buffer' htext hroom'
          have hlength : buffer'.text.length - base = current + (nodeText member).length := by
            rw [htext, List.length_append]
            omega
          rw [hlength]
          apply Puts.guard
          intro hguard
          have hplace' : base + (current + (nodeText member).length) = buffer'.text.length := by
            rw [htext, List.length_append]
            omega
          have hrest := putMembers_puts rest hsize hplace' (by omega) (by omega)
          rw [htext] at hrest
          exact hrest
        rw [List.append_assoc] at hputs
        apply hputs.congr
        rw [List.length_append]
        omega

end

end Writes

section Loop
variable {size : ℕ} {index : Int8} {buffer : Buffer}

/-- How the loop ends from index `i` on, of the 128 that a signed byte can count. -/
structure Loops (size i : ℕ) (properties : List Property) (buffer : Buffer)
    (result : ReportEnd × Buffer) : Prop where
  reach : result.2.reach ≤ max buffer.reach size
  done : fits size buffer.text.length (properties.take (128 - i)) = true →
    i + properties.length < 128 →
    result.1 = .returned .success ∧ result.2.text = buffer.text ++ nodesText properties
  outside : fits size buffer.text.length (properties.take (128 - i)) = true →
    128 ≤ i + properties.length → result.1 = .outside
  full : fits size buffer.text.length (properties.take (128 - i)) = false →
    ∃ code, code ≠ .success ∧ result.1 = .returned code

theorem toInt_index {i : ℕ} (hi : i ≤ 128) (hindex : index = Int8.ofNat i) :
    index.toInt < 0 ↔ i = 128 := by
  rw [hindex, Int8.toInt_ofNat']
  have hbmod : (i : ℤ).bmod Int8.size = if i = 128 then -128 else (i : ℤ) := by
    split
    · next h => rw [h]; rfl
    · apply Int.bmod_eq_of_le <;> simp only [Int8.size] <;> omega
  rw [hbmod]
  split <;> omega

/-- Behind the last index that a signed byte can count, the loop leaves the list. -/
theorem reportLoop_wrapped (properties : List (Option Property)) (h : index.toInt < 0) :
    reportLoop size index properties buffer = (.outside, buffer) := by
  cases properties with
  | nil => rw [reportLoop, if_pos h]
  | cons node rest => cases node <;> rw [reportLoop, if_pos h]

theorem reportLoop_loops (hsize : size < 2 ^ 31) (properties : List Property)
    (hkeys : ∀ property ∈ properties, property.key ≠ none) (buffer : Buffer) {i : ℕ} (hi : i ≤ 128)
    (hindex : index = Int8.ofNat i) :
    Loops size i properties buffer (reportLoop size index (properties.map some) buffer) := by
  induction properties generalizing i index buffer with
  | nil =>
    by_cases hwrap : i = 128
    · rw [List.map_nil, reportLoop_wrapped [] ((toInt_index hi hindex).mpr hwrap)]
      refine ⟨by dsimp only; omega, ?_, fun _ _ => rfl, ?_⟩
      · intro _ hlast
        rw [List.length_nil] at hlast
        omega
      · intro hfull
        rw [List.take_nil] at hfull
        cases hfull
    · have hindex' : ¬ index.toInt < 0 := fun h => hwrap ((toInt_index hi hindex).mp h)
      rw [List.map_nil, reportLoop, if_neg hindex']
      refine ⟨by dsimp only; omega, ?_, ?_, ?_⟩
      · intro _ _
        rw [nodesText, List.append_nil]
        exact ⟨rfl, rfl⟩
      · intro _ hlast
        rw [List.length_nil] at hlast
        omega
      · intro hfull
        rw [List.take_nil] at hfull
        cases hfull
  | cons property rest ih =>
    by_cases hwrap : i = 128
    · rw [reportLoop_wrapped _ ((toInt_index hi hindex).mpr hwrap), hwrap]
      refine ⟨by dsimp only; omega, ?_, fun _ _ => rfl, ?_⟩
      · intro _ hlast
        omega
      · intro hfull
        rw [Nat.sub_self, List.take_zero] at hfull
        cases hfull
    · have hindex' : ¬ index.toInt < 0 := fun h => hwrap ((toInt_index hi hindex).mp h)
      have hkey := hkeys property (List.mem_cons_self ..)
      have hputs : Puts (0 + size) buffer
          (buffer.text.length - 0 + (nodeText property).length + slack property < size)
          (buffer.text ++ nodeText property) (putJsonNode 0 size property buffer) :=
        putJsonNode_puts property hsize (Nat.zero_le _)
      rw [Nat.zero_add, Nat.sub_zero] at hputs
      have htake : (property :: rest).take (128 - i) = property :: rest.take (128 - (i + 1)) := by
        have hsucc : 128 - i = (128 - (i + 1)) + 1 := by omega
        rw [hsucc, List.take_succ_cons]
      have htext : nodesText (property :: rest) = nodeText property ++ nodesText rest := by
        rw [nodesText, if_neg hkey]
      have hlength : i + (property :: rest).length = (i + 1) + rest.length := by
        rw [List.length_cons]
        omega
      have hreach := hputs.reach
      rw [List.map_cons, reportLoop, if_neg hindex']
      dsimp only
      rw [if_neg hkey]
      by_cases hroom : buffer.text.length + (nodeText property).length + slack property < size
      · obtain ⟨hsuccess, hput⟩ := hputs.done hroom
        have hnext : index + 1 = Int8.ofNat (i + 1) := by rw [hindex, Int8.ofNat_add]; rfl
        have hrest := ih (fun p hp => hkeys p (List.mem_cons_of_mem property hp))
          (putJsonNode 0 size property buffer).2 (by omega) hnext
        have hreach' := hrest.reach
        have hfits : fits size buffer.text.length ((property :: rest).take (128 - i)) =
            fits size (putJsonNode 0 size property buffer).2.text.length
              (rest.take (128 - (i + 1))) := by
          rw [htake, fits, decide_eq_true hroom, Bool.true_and, hput, List.length_append]
        rw [if_pos hsuccess]
        refine ⟨by omega, ?_, ?_, ?_⟩
        · intro hfit hlast
          rw [htext, ← List.append_assoc, ← hput]
          exact hrest.done (hfits ▸ hfit) (by omega)
        · intro hfit hlast
          exact hrest.outside (hfits ▸ hfit) (by omega)
        · intro hfull
          exact hrest.full (hfits ▸ hfull)
      · have hnofit : fits size buffer.text.length ((property :: rest).take (128 - i)) = false := by
          rw [htake, fits, decide_eq_false hroom, Bool.false_and]
        rw [if_neg (hputs.full hroom)]
        refine ⟨hreach, ?_, ?_, fun _ => ⟨_, hputs.full hroom, rfl⟩⟩
        · intro hfit
          rw [hnofit] at hfit
          cases hfit
        · intro hfit
          rw [hnofit] at hfit
          cases hfit

end Loop

section Ends

/-- The length of the empty JSON. -/
def Template.emptyLength (template : Template) : ℕ := template.clientToken.length + 18

def reportHead (template : Template) : List UInt8 :=
  ascii "\x7b\"clientToken\":\"" ++ template.clientToken ++ ascii "\", \"params\":\x7b"

/-- The empty JSON fits into the length that it is printed with. -/
theorem clientToken_length_le (template : Template) : template.clientToken.length ≤ 21 := by
  have hshort := template.short
  have hnum : (decimal template.tokenNum.toNat).length ≤ 10 := by
    rw [decimal_length_le_iff _ _ (by decide)]
    have hlt := template.tokenNum.toNat_lt
    omega
  rw [Template.clientToken, List.length_append, List.length_cons]
  omega

theorem emptyJson_length (template : Template) :
    (ascii "\x7b\"clientToken\":\"" ++ template.clientToken ++ ascii "\"\x7d").length =
      template.emptyLength := by
  have hfront : (ascii "\x7b\"clientToken\":\"").length = 16 := by decide
  have hback : (ascii "\"\x7d").length = 2 := by decide
  rw [List.length_append, List.length_append, Template.emptyLength]
  omega

theorem buildEmptyJson_eq (template : Template) :
    buildEmptyJson template =
      ⟨ascii "\x7b\"clientToken\":\"" ++ template.clientToken ++ ascii "\"\x7d",
        template.emptyLength + 1⟩ := by
  have hlength := emptyJson_length template
  have hshort := clientToken_length_le template
  have htake : (ascii "\x7b\"clientToken\":\"" ++ template.clientToken ++
      ascii "\"\x7d").take (110 - 1) =
      ascii "\x7b\"clientToken\":\"" ++ template.clientToken ++ ascii "\"\x7d" := by
    apply List.take_of_length_le
    rw [hlength, Template.emptyLength]
    omega
  rw [buildEmptyJson, halSnprintf_eq (by decide) (by decide), htake, hlength]
  simp

theorem buildEmptyJson_length (template : Template) :
    (buildEmptyJson template).text.length = template.emptyLength := by
  rw [buildEmptyJson_eq, emptyJson_length]

theorem reportHead_length (template : Template) :
    (reportHead template).length = template.emptyLength + 11 := by
  have hfront : (ascii "\x7b\"clientToken\":\"").length = 16 := by decide
  have hback : (ascii "\", \"params\":\x7b").length = 13 := by decide
  rw [reportHead, List.length_append, List.length_append, Template.emptyLength]
  omega

/-- There is room for all properties that the loop comes to. -/
def RoomForAll (template : Template) (size : ℕ) (properties : List Property) : Prop :=
  template.emptyLength + 12 < size ∧
    fits (size - template.emptyLength) (template.emptyLength + 11) (properties.take 128) = true

/-- What a report of this size comes to: how far it writes, when it leaves the list, and when it
is a success, with which text. -/
structure Ends (template : Template) (size : ℕ) (properties : List Property)
    (result : ReportEnd × Buffer) : Prop where
  reach : result.2.reach ≤ size
  outside : result.1 = .outside ↔
    template.emptyLength + 12 < size ∧
      fits (size - template.emptyLength) (template.emptyLength + 11) (properties.take 128) = true ∧
      128 ≤ properties.length
  success : result.1 = .returned .success ↔
    template.emptyLength + 12 < size ∧
      fits (size - template.emptyLength) (template.emptyLength + 11) (properties.take 128) = true ∧
      properties.length < 128 ∧
      template.emptyLength + 11 + (nodesText properties).length + 2 < size
  text : result.1 = .returned .success →
    result.2.text = (reportHead template ++ nodesText properties).dropLast ++ ascii "\x7d\x7d"

variable {template : Template} {size : ℕ} {properties : List Property}

variable (properties) in
/-- A buffer that cannot hold the empty JSON is overrun by it. -/
theorem constructReportArray_short (hsize : size ≤ template.emptyLength) :
    size < (constructReportArray template size (properties.map some)).2.reach := by
  rw [constructReportArray]
  dsimp only
  rw [buildEmptyJson_length, if_pos (by omega), buildEmptyJson_eq]
  dsimp only
  omega

/-- The opening of the params replaces the last brace of the empty JSON. -/
theorem print_params (hempty : template.emptyLength < size) (hsize : size < 2 ^ 31) :
    Puts size (buildEmptyJson template) (template.emptyLength + 12 < size) (reportHead template)
      (print (buildEmptyJson template) (template.emptyLength - 1) (size - template.emptyLength)
        (ascii ", \"params\":\x7b")) := by
  have hpos : 18 ≤ template.emptyLength := Nat.le_add_left 18 _
  have hparams : (ascii ", \"params\":\x7b").length = 12 := by decide
  have hlen : 0 < size - template.emptyLength := by omega
  have hint : size - template.emptyLength < 2 ^ 31 := by omega
  have hputs := print_puts (buildEmptyJson template) (template.emptyLength - 1)
    (ascii ", \"params\":\x7b") hlen hint
  have hback : ascii "\"\x7d" = [quote] ++ [closeBrace] := by decide
  have hhead : reportHead template =
      ascii "\x7b\"clientToken\":\"" ++ template.clientToken ++ [quote] ++
        ascii ", \"params\":\x7b" := by
    rw [reportHead]
    simp only [List.append_assoc]
    rfl
  have htake : (buildEmptyJson template).text.take (template.emptyLength - 1) =
      ascii "\x7b\"clientToken\":\"" ++ template.clientToken ++ [quote] := by
    rw [← buildEmptyJson_length, ← List.dropLast_eq_take, buildEmptyJson_eq]
    dsimp only
    rw [hback, ← List.append_assoc, List.dropLast_append_of_ne_nil (by simp)]
    simp
  rw [htake, ← hhead] at hputs
  exact (hputs.mono (by omega)).congr (by rw [hparams]; omega)

/-- The end of the report replaces the last character of the text. -/
theorem print_close (buffer : Buffer) (hpos : 0 < buffer.text.length)
    (hroom : buffer.text.length < size) (hsize : size < 2 ^ 31) :
    Puts size buffer (buffer.text.length + 2 < size) (buffer.text.dropLast ++ ascii "\x7d\x7d")
      (print buffer (buffer.text.length - 1) (size - buffer.text.length) (ascii "\x7d\x7d")) := by
  have hclose : (ascii "\x7d\x7d").length = 2 := by decide
  have hlen : 0 < size - buffer.text.length := by omega
  have hint : size - buffer.text.length < 2 ^ 31 := by omega
  have hputs := print_puts buffer (buffer.text.length - 1) (ascii "\x7d\x7d") hlen hint
  rw [← List.dropLast_eq_take] at hputs
  exact (hputs.mono (by omega)).congr (by rw [hclose]; omega)

theorem Ends.failure {code : JsonCode} {buffer : Buffer} (hcode : code ≠ .success)
    (hreach : buffer.reach ≤ size)
    (hno : ¬ (RoomForAll template size properties ∧ (properties.length < 128 →
      template.emptyLength + 11 + (nodesText properties).length + 2 < size))) :
    Ends template size properties (.returned code, buffer) := by
  have hne : (ReportEnd.returned code) ≠ .returned .success := by
    intro h
    injection h with h
    exact hcode h
  refine ⟨hreach, ⟨ReportEnd.noConfusion, ?_⟩, ⟨fun h => absurd h hne, ?_⟩, fun h => absurd h hne⟩
  · rintro ⟨hroom, hfit, hlong⟩
    exact absurd ⟨⟨hroom, hfit⟩, fun h => absurd h (Nat.not_lt.mpr hlong)⟩ hno
  · rintro ⟨hroom, hfit, -, hlast⟩
    exact absurd ⟨⟨hroom, hfit⟩, fun _ => hlast⟩ hno

theorem Ends.left {buffer : Buffer} (hreach : buffer.reach ≤ size)
    (hroom : RoomForAll template size properties) (hlong : 128 ≤ properties.length) :
    Ends template size properties (.outside, buffer) := by
  refine ⟨hreach, ⟨fun _ => ⟨hroom.1, hroom.2, hlong⟩, fun _ => rfl⟩,
    ⟨ReportEnd.noConfusion, ?_⟩, ReportEnd.noConfusion⟩
  rintro ⟨-, -, hshort, -⟩
  exact absurd hshort (Nat.not_lt.mpr hlong)

theorem Ends.succeeded {buffer : Buffer} (hreach : buffer.reach ≤ size)
    (hroom : RoomForAll template size properties) (hshort : properties.length < 128)
    (hlast : template.emptyLength + 11 + (nodesText properties).length + 2 < size)
    (htext : buffer.text =
      (reportHead template ++ nodesText properties).dropLast ++ ascii "\x7d\x7d") :
    Ends template size properties (.returned .success, buffer) := by
  refine ⟨hreach, ⟨ReportEnd.noConfusion, ?_⟩,
    ⟨fun _ => ⟨hroom.1, hroom.2, hshort, hlast⟩, fun _ => rfl⟩, fun _ => htext⟩
  rintro ⟨-, -, hlong⟩
  exact absurd hshort (Nat.not_lt.mpr hlong)

/-- The end of the function, behind a loop that ends as it should. -/
theorem ends_of_loop (hsize : size < 2 ^ 31) {result : ReportEnd × Buffer}
    (hreach : result.2.reach ≤ size) (hroom : RoomForAll template size properties)
    (hshort : properties.length < 128)
    (htext : result.2.text = reportHead template ++ nodesText properties) :
    Ends template size properties
      (if size - result.2.text.length ≤ 1 then (.returned .bufferTooSmall, result.2)
      else
        (.returned (print result.2 (result.2.text.length - 1) (size - result.2.text.length)
            (ascii "\x7d\x7d")).1,
          (print result.2 (result.2.text.length - 1) (size - result.2.text.length)
            (ascii "\x7d\x7d")).2)) := by
  have hlength : result.2.text.length =
      template.emptyLength + 11 + (nodesText properties).length := by
    rw [htext, List.length_append, reportHead_length]
  by_cases hsmall : size - result.2.text.length ≤ 1
  · rw [if_pos hsmall]
    refine Ends.failure JsonCode.noConfusion hreach fun h => ?_
    have hroom' := h.2 hshort
    omega
  · rw [if_neg hsmall]
    have hclose := print_close result.2 (by omega) (by omega) hsize
    have hreach' := hclose.reach.trans (Nat.max_le.mpr ⟨hreach, Nat.le_refl size⟩)
    by_cases hlast : result.2.text.length + 2 < size
    · obtain ⟨hcode, hfinal⟩ := hclose.done hlast
      rw [hcode]
      rw [hlength] at hlast
      rw [htext] at hfinal
      rw [htext] at hreach' ⊢
      exact Ends.succeeded hreach' hroom hshort hlast hfinal
    · refine Ends.failure (hclose.full hlast) hreach' fun h => hlast ?_
      rw [hlength]
      exact h.2 hshort

theorem constructReportArray_ends (hempty : template.emptyLength < size) (hsize : size < 2 ^ 31)
    (hkeys : ∀ property ∈ properties, property.key ≠ none) :
    Ends template size properties
      (constructReportArray template size (properties.map some)) := by
  have hbuild : (buildEmptyJson template).reach ≤ size := by
    rw [buildEmptyJson_eq]
    exact hempty
  have hparams := print_params hempty hsize
  rw [constructReportArray]
  dsimp only
  rw [buildEmptyJson_length]
  generalize print (buildEmptyJson template) (template.emptyLength - 1)
    (size - template.emptyLength) (ascii ", \"params\":\x7b") = head at hparams ⊢
  have hhead := hparams.reach.trans (Nat.max_le.mpr ⟨hbuild, Nat.le_refl size⟩)
  by_cases hsmall : size - template.emptyLength ≤ 1
  · rw [if_pos hsmall]
    refine Ends.failure JsonCode.noConfusion hbuild fun h => ?_
    have hroom := h.1.1
    omega
  rw [if_neg hsmall]
  by_cases hroom : template.emptyLength + 12 < size
  · obtain ⟨hsuccess, htext⟩ := hparams.done hroom
    have hremain : size - template.emptyLength < 2 ^ 31 := by omega
    have hloop : Loops (size - template.emptyLength) 0 properties head.2
        (reportLoop (size - template.emptyLength) 0 (properties.map some) head.2) :=
      reportLoop_loops hremain properties hkeys head.2 (Nat.zero_le 128) rfl
    rw [if_neg (not_not_intro hsuccess)]
    generalize reportLoop (size - template.emptyLength) 0 (properties.map some) head.2 = result
      at hloop ⊢
    have hreach : result.2.reach ≤ size :=
      hloop.reach.trans (Nat.max_le.mpr ⟨hhead, Nat.sub_le size _⟩)
    obtain ⟨-, hdone, houtside, hfull⟩ := hloop
    rw [htext, reportHead_length, Nat.sub_zero] at hdone houtside hfull
    rw [Nat.zero_add] at hdone houtside
    cases hfit : fits (size - template.emptyLength) (template.emptyLength + 11)
        (properties.take 128) with
    | false =>
      obtain ⟨code, hcode, hend⟩ := hfull hfit
      have hne : result.1 ≠ .returned .success := by
        rw [hend]
        intro h
        injection h with h
        exact hcode h
      have hpair : result = (.returned code, result.2) := Prod.ext hend rfl
      rw [if_pos hne, hpair]
      refine Ends.failure hcode hreach fun h => ?_
      rw [RoomForAll, hfit] at h
      exact Bool.false_ne_true h.1.2
    | true =>
      by_cases hshort : properties.length < 128
      · obtain ⟨hreturned, hloopText⟩ := hdone hfit hshort
        rw [if_neg (not_not_intro hreturned)]
        exact ends_of_loop hsize hreach ⟨hroom, hfit⟩ hshort hloopText
      · have hend := houtside hfit (Nat.not_lt.mp hshort)
        have hpair : result = (.outside, result.2) := Prod.ext hend rfl
        rw [hpair, if_pos ReportEnd.noConfusion]
        exact Ends.left hreach ⟨hroom, hfit⟩ (Nat.not_lt.mp hshort)
  · rw [if_pos (hparams.full hroom)]
    exact Ends.failure (hparams.full hroom) hhead fun h => hroom h.1.1

end Ends

section Values

/-- A text without quotes, backslashes and control characters, which is its own spelling. -/
def plain (text : List UInt8) : Bool :=
  text.all fun c => decide (0x20 ≤ c) && c != quote && c != backslash

/-- The value of a property that is neither an array nor a number without a decimal text. -/
def scalarJson : Scalar → Option Json
  | .int32 value => some (.number (signedNumber value.toInt))
  | .int16 value => some (.number (signedNumber value.toInt))
  | .int8 value => some (.number (signedNumber value.toInt))
  | .uint32 value => some (.number (signedNumber value.toNat))
  | .uint16 value => some (.number (signedNumber value.toNat))
  | .uint8 value => some (.number (signedNumber value.toNat))
  | .float bits =>
      if binary32.finite bits.toNat then some (.number (fixedNumber binary32 bits.toNat)) else none
  | .double bits =>
      if binary64.finite bits.toNat then some (.number (fixedNumber binary64 bits.toNat)) else none
  | .boolean value => some (.boolean value)
  | .string text _ => some (.string text)
  | .array .. => none

/-- A JSON array with this text and these blanks around it. -/
def ArrayText (text before after : List UInt8) (value : Json) : Prop :=
  ∃ blank items, value = .array blank items ∧ text = before ++ value.text ++ after

mutual

def Renders : Property → Layout → Json → Prop
  | .null _, _, value => value = .null
  | .scalar _ (.array text _), layout, value =>
      ArrayText text layout.beforeValue layout.afterValue value
  | .scalar _ data, _, value => scalarJson data = some value
  | .struct _ properties, _, value =>
      ∃ blank members, value = .object blank members ∧ RendersAll properties members

/-- The members of an object are these properties in order, each under its key. -/
def RendersAll : List Property → List (Layout × Json) → Prop
  | [], members => members = []
  | property :: rest, members =>
      ∃ layout value members', members = (layout, value) :: members' ∧
        property.key.elim False (fun key => plain key.val = true ∧ layout.name = key.val) ∧
        Renders property layout value ∧ RendersAll rest members'

end

/-- The text is a JSON object with the client token and the properties as its params. -/
def HoldsReport (template : Template) (properties : List Property) (text : List UInt8) : Prop :=
  ∃ blank idLayout paramsLayout inner members,
    text = (Json.object blank [(idLayout, .string template.clientToken),
      (paramsLayout, .object inner members)]).text ∧
    (Json.object blank [(idLayout, .string template.clientToken),
      (paramsLayout, .object inner members)]).wellFormed = true ∧
    idLayout.name = ascii "clientToken" ∧ paramsLayout.name = ascii "params" ∧
    RendersAll properties members

/-- No write leaves the buffer, nothing outside the list is read, and a report that is said to
be a success is one. -/
def ReportRight (template : Template) (size : ℕ) (properties : List Property) : Prop :=
  (constructReportArray template size (properties.map some)).2.reach ≤ size ∧
    (constructReportArray template size (properties.map some)).1 ≠ .outside ∧
    ((constructReportArray template size (properties.map some)).1 = .returned .success →
      HoldsReport template properties
        (constructReportArray template size (properties.map some)).2.text)

mutual

/-- A property as it is handed over: keys that are given, plain strings, and arrays that are
JSON texts. -/
def Valid : Property → Prop
  | .null key => key ≠ none
  | .scalar key (.string text _) => key ≠ none ∧ plain text.val = true
  | .scalar key (.array text _) => key ≠ none ∧
      ∃ before after value, before.all isBlank = true ∧ after.all isBlank = true ∧
        value.wellFormed = true ∧ ArrayText text before after value
  | .scalar key _ => key ≠ none
  | .struct key members => key ≠ none ∧ ValidAll members

def ValidAll : List Property → Prop
  | [] => True
  | property :: rest => Valid property ∧ ValidAll rest

end

/-- `%f` prints a decimal number. -/
def scalarFinite : Scalar → Bool
  | .float bits => binary32.finite bits.toNat
  | .double bits => binary64.finite bits.toNat
  | _ => true

mutual

/-- What is printed for a property is a member of an object: its keys need no escapes, its
numbers are finite, and no struct in it is empty. -/
def printsRight : Property → Bool
  | .null key => key.all fun key => plain key.val
  | .scalar key data => (key.all fun key => plain key.val) && scalarFinite data
  | .struct key members =>
      (key.all fun key => plain key.val) && !members.isEmpty && allPrintRight members

def allPrintRight : List Property → Bool
  | [] => true
  | property :: rest => printsRight property && allPrintRight rest

end

section Members

theorem rawString_of_plain {text : List UInt8} (h : plain text = true) : rawString text = true := by
  induction text with
  | nil => rfl
  | cons c rest ih =>
    rw [plain, List.all_cons, Bool.and_eq_true, Bool.and_eq_true, Bool.and_eq_true] at h
    obtain ⟨⟨⟨hcontrol, hquote⟩, hback⟩, hrest⟩ := h
    rw [rawString.eq_def]
    dsimp only
    rw [if_neg (bne_iff_ne.mp hback), hcontrol, ih hrest, Bool.true_and, Bool.and_true]
    exact decide_eq_true (bne_iff_ne.mp hquote)

theorem keyText_eq (layout : Layout) {k : CString} (hname : layout.name = k.val)
    (hbefore : layout.before = []) (hafter : layout.afterName = []) :
    keyText (some k) ++ layout.beforeValue = layout.front := by
  simp [keyText, Layout.front, hname, hbefore, hafter]

theorem keyText_length_le (layout : Layout) {key : CString} (hname : layout.name = key.val) :
    (keyText (some key)).length + layout.beforeValue.length ≤ layout.front.length := by
  rw [keyText, Layout.front, hname]
  simp only [Option.elim_some, List.length_append, List.length_cons, List.length_nil]
  omega

/-- A value that is no array is printed as its JSON text. -/
theorem scalarJson_text {data : Scalar} {value : Json} (h : scalarJson data = some value) :
    value.text = data.text := by
  cases data with
  | float bits =>
    rw [scalarJson] at h
    split at h
    · next hfinite =>
      obtain rfl := Option.some.inj h
      exact fixedNumber_text hfinite
    · cases h
  | double bits =>
    rw [scalarJson] at h
    split at h
    · next hfinite =>
      obtain rfl := Option.some.inj h
      exact fixedNumber_text hfinite
    · cases h
  | boolean value =>
    obtain rfl := Option.some.inj h
    cases value <;> decide
  | array text dataBuffLen => cases h
  | string text dataBuffLen =>
    obtain rfl := Option.some.inj h
    rfl
  | _ =>
    obtain rfl := Option.some.inj h
    exact signedNumber_text _

/-- The members that are printed for a property. -/
structure Member (property : Property) (layout : Layout) (value : Json) : Prop where
  spelled : layout.wellFormed = true
  wellFormed : value.wellFormed = true
  key : property.key.elim False fun key => plain key.val = true ∧ layout.name = key.val
  renders : Renders property layout value
  text : nodeText property = layout.front ++ value.text ++ layout.afterValue ++ [comma]

theorem exists_scalar {key : CString} (hkey : plain key.val = true) {data : Scalar} {value : Json}
    (hvalue : scalarJson data = some value) (hwf : value.wellFormed = true)
    (hrenders : ∀ layout, Renders (.scalar (some key) data) layout value) :
    ∃ layout value, Member (.scalar (some key) data) layout value := by
  refine ⟨⟨[], key.val, [], [], []⟩, value, ?_, hwf, ⟨hkey, rfl⟩, hrenders _, ?_⟩
  · simp [Layout.wellFormed, rawString_of_plain hkey]
  · have hfront := keyText_eq ⟨[], key.val, [], [], []⟩ (k := key) rfl rfl rfl
    rw [List.append_nil] at hfront
    rw [nodeText, hfront, ← scalarJson_text hvalue, List.append_nil, List.append_assoc]

mutual

/-- What is printed for a property that prints right is a member of an object. -/
theorem exists_member : (property : Property) → Valid property → printsRight property = true →
    ∃ layout value, Member property layout value
  | .null none, hvalid, _ => absurd rfl hvalid
  | .null (some key), _, hright => by
      refine ⟨⟨[], key.val, [], [], []⟩, .null, ?_, rfl, ⟨hright, rfl⟩, ?_, ?_⟩
      · have hkey : plain key.val = true := hright
        simp [Layout.wellFormed, rawString_of_plain hkey]
      · rw [Renders]
      · have hfront := keyText_eq ⟨[], key.val, [], [], []⟩ (k := key) rfl rfl rfl
        rw [List.append_nil] at hfront
        have hnull : ascii "null," = nullText ++ [comma] := by decide
        rw [nodeText, hfront, Json.text, hnull, List.append_nil, List.append_assoc]
  | .scalar none data, hvalid, _ => by cases data <;> simp [Valid] at hvalid
  | .scalar (some key) data, hvalid, hright => by
      rw [printsRight, Bool.and_eq_true] at hright
      obtain ⟨hkey, hfinite⟩ := hright
      cases data with
      | array text dataBuffLen =>
        obtain ⟨-, before, after, value, hbefore, hafter, hwf, htext⟩ := hvalid
        refine ⟨⟨[], key.val, [], before, after⟩, value, ?_, hwf, ⟨hkey, rfl⟩, htext, ?_⟩
        · have hraw : rawString key.val = true := rawString_of_plain hkey
          simp [Layout.wellFormed, hraw, hbefore, hafter]
        · obtain ⟨blank, items, -, hsplit⟩ := htext
          have hfront := keyText_eq ⟨[], key.val, [], before, after⟩ (k := key) rfl rfl rfl
          rw [nodeText, ← hfront, Scalar.text, hsplit]
          simp only [List.append_assoc]
      | float bits =>
        have hjson : scalarJson (.float bits) = some (.number (fixedNumber binary32 bits.toNat)) :=
          if_pos hfinite
        exact exists_scalar hkey hjson (fixedNumber_wellFormed _ _) fun _ => hjson
      | double bits =>
        have hjson : scalarJson (.double bits) = some (.number (fixedNumber binary64 bits.toNat)) :=
          if_pos hfinite
        exact exists_scalar hkey hjson (fixedNumber_wellFormed _ _) fun _ => hjson
      | string text dataBuffLen =>
        exact exists_scalar hkey rfl (rawString_of_plain hvalid.2) fun _ => rfl
      | boolean value => exact exists_scalar hkey rfl rfl fun _ => rfl
      | int32 value => exact exists_scalar hkey rfl (signedNumber_wellFormed _) fun _ => rfl
      | int16 value => exact exists_scalar hkey rfl (signedNumber_wellFormed _) fun _ => rfl
      | int8 value => exact exists_scalar hkey rfl (signedNumber_wellFormed _) fun _ => rfl
      | uint32 value => exact exists_scalar hkey rfl (signedNumber_wellFormed _) fun _ => rfl
      | uint16 value => exact exists_scalar hkey rfl (signedNumber_wellFormed _) fun _ => rfl
      | uint8 value => exact exists_scalar hkey rfl (signedNumber_wellFormed _) fun _ => rfl
  | .struct none members, hvalid, _ => absurd rfl hvalid.1
  | .struct (some key) members, hvalid, hright => by
      rw [printsRight, Bool.and_eq_true, Bool.and_eq_true] at hright
      obtain ⟨⟨hkey, hne⟩, hmembers⟩ := hright
      have hne : members ≠ [] := by
        rintro rfl
        cases hne
      obtain ⟨ms, hwf, hrenders, htext⟩ := exists_members members hvalid.2 hmembers
      refine ⟨⟨[], key.val, [], [], []⟩, .object [] ms, ?_, ?_, ⟨hkey, rfl⟩,
        ⟨[], ms, rfl, hrenders⟩, ?_⟩
      · have hraw : rawString key.val = true := rawString_of_plain hkey
        simp [Layout.wellFormed, hraw]
      · rw [Json.wellFormed, hwf]
        rfl
      · have hfront := keyText_eq ⟨[], key.val, [], [], []⟩ (k := key) rfl rfl rfl
        rw [List.append_nil] at hfront
        rw [nodeText, hfront, htext hne, ← List.cons_append, List.dropLast_concat, Json.text]
        simp

/-- What is printed for properties that print right are the members of an object, with a comma
behind the last one. -/
theorem exists_members : (properties : List Property) → ValidAll properties →
    allPrintRight properties = true →
    ∃ members, membersWellFormed members = true ∧ RendersAll properties members ∧
      (properties ≠ [] → nodesText properties = membersText members ++ [comma])
  | [], _, _ => ⟨[], rfl, rfl, fun h => absurd rfl h⟩
  | property :: rest, hvalid, hright => by
      rw [allPrintRight, Bool.and_eq_true] at hright
      obtain ⟨layout, value, hmember⟩ := exists_member property hvalid.1 hright.1
      obtain ⟨members, hwf, hrenders, htext⟩ := exists_members rest hvalid.2 hright.2
      have hkey : property.key ≠ none := by
        intro hnone
        have hkey := hmember.key
        rw [hnone] at hkey
        exact hkey
      refine ⟨(layout, value) :: members, ?_, ⟨layout, value, members, rfl, hmember.key,
        hmember.renders, hrenders⟩, ?_⟩
      · rw [membersWellFormed, hmember.spelled, hmember.wellFormed, hwf]
        rfl
      · intro _
        rw [nodesText, if_neg hkey, hmember.text, membersText_cons]
        cases rest with
        | nil =>
          obtain rfl : members = [] := hrenders
          simp [nodesText, separator, membersText]
        | cons next rest =>
          obtain ⟨layout', value', members', rfl, -⟩ := hrenders
          rw [htext (List.cons_ne_nil _ _), separator]
          simp

end

mutual

/-- What is printed for a property is no longer than a member that renders it, and shorter when
it does not print right. -/
theorem renders_length : (property : Property) → {layout : Layout} → {value : Json} →
    (property.key.elim False fun key => plain key.val = true ∧ layout.name = key.val) →
    Renders property layout value →
    (nodeText property).length + (if printsRight property = true then 0 else 1) ≤
      layout.front.length + value.text.length + layout.afterValue.length + 1
  | .null none, _, _, hkey, _ => hkey.elim
  | .null (some key), layout, value, hkey, hrenders => by
      rw [Renders] at hrenders
      have hfront := keyText_length_le layout hkey.2
      have hright : printsRight (.null (some key)) = true := hkey.1
      have hnull : (ascii "null,").length = 5 := by decide
      have hvalue : value.text.length = 4 := by rw [hrenders]; rfl
      rw [if_pos hright, nodeText, List.length_append, hnull, hvalue]
      omega
  | .scalar none _, _, _, hkey, _ => hkey.elim
  | .scalar (some key) data, layout, value, hkey, hrenders => by
      have hfront := keyText_length_le layout hkey.2
      have hplain : plain key.val = true := hkey.1
      have hright : (∃ text dataBuffLen, data = .array text dataBuffLen) ∨
          scalarJson data = some value := by
        cases data with
        | array text dataBuffLen => exact .inl ⟨text, dataBuffLen, rfl⟩
        | _ => exact .inr hrenders
      rw [nodeText, List.length_append, List.length_append, List.length_singleton]
      rcases hright with ⟨text, dataBuffLen, rfl⟩ | hjson
      · obtain ⟨blank, items, -, htext⟩ := hrenders
        have hright : printsRight (.scalar (some key) (.array text dataBuffLen)) = true := by
          rw [printsRight, Option.all_some, hplain]
          rfl
        rw [if_pos hright, Scalar.text, htext, List.length_append, List.length_append]
        omega
      · have hfinite : scalarFinite data = true := by
          cases data with
          | float bits =>
            rw [scalarJson] at hjson
            split at hjson
            · next h => exact h
            · cases hjson
          | double bits =>
            rw [scalarJson] at hjson
            split at hjson
            · next h => exact h
            · cases hjson
          | _ => rfl
        have hright : printsRight (.scalar (some key) data) = true := by
          rw [printsRight, Option.all_some, hplain, hfinite]
          rfl
        rw [if_pos hright, ← scalarJson_text hjson]
        omega
  | .struct none _, _, _, hkey, _ => hkey.elim
  | .struct (some key) properties, layout, value, hkey, hrenders => by
      obtain ⟨blank, members, rfl, hmembers⟩ := hrenders
      have hfront := keyText_length_le layout hkey.2
      have hplain : plain key.val = true := hkey.1
      have hlength := rendersAll_length properties hmembers
      rw [nodeText, printsRight, Option.all_some, hplain, Bool.true_and, Json.text]
      simp only [List.length_append, List.length_dropLast, List.length_cons, List.length_nil]
      cases properties with
      | nil =>
        simp only [nodesText, List.length_nil]
        split <;> omega
      | cons property rest =>
        rw [List.isEmpty_cons, Bool.not_false, Bool.true_and]
        rw [List.isEmpty_cons, if_neg Bool.false_ne_true] at hlength
        omega

theorem rendersAll_length : (properties : List Property) → {members : List (Layout × Json)} →
    RendersAll properties members →
    (nodesText properties).length + (if allPrintRight properties = true then 0 else 1) ≤
      (membersText members).length + (if properties.isEmpty = true then 0 else 1)
  | [], members, hrenders => by
      obtain rfl : members = [] := hrenders
      exact Nat.le_refl 0
  | property :: rest, members, hrenders => by
      obtain ⟨layout, value, members', rfl, hkey, hvalue, hrest⟩ := hrenders
      have hmember := renders_length property hkey hvalue
      have hmembers := rendersAll_length rest hrest
      have hgiven : property.key ≠ none := by
        intro hnone
        rw [hnone] at hkey
        exact hkey
      have hempty : (separator members').length = if rest.isEmpty = true then 0 else 1 := by
        cases rest with
        | nil =>
          obtain rfl : members' = [] := hrest
          rfl
        | cons next rest =>
          obtain ⟨layout', value', members', rfl, -⟩ := hrest
          rfl
      rw [nodesText, if_neg hgiven, membersText_cons, allPrintRight]
      simp only [List.length_append, hempty, List.isEmpty_cons, Bool.false_eq_true, if_false,
        Bool.and_eq_true]
      by_cases hright : printsRight property = true
      · rw [if_pos hright] at hmember
        by_cases hrestRight : allPrintRight rest = true
        · rw [if_pos hrestRight] at hmembers
          rw [if_pos ⟨hright, hrestRight⟩]
          omega
        · rw [if_neg hrestRight] at hmembers
          rw [if_neg fun h => hrestRight h.2]
          omega
      · rw [if_neg hright] at hmember
        rw [if_neg fun h => hright h.1]
        split at hmembers <;> omega

end

/-- What a report of the properties is when it is said to be a success. -/
def reportText (template : Template) (properties : List Property) : List UInt8 :=
  (reportHead template ++ nodesText properties).dropLast ++ ascii "\x7d\x7d"

variable (template : Template) (properties : List Property)

theorem reportText_length :
    (reportText template properties).length =
      template.clientToken.length + 30 + (nodesText properties).length := by
  have hclose : (ascii "\x7d\x7d").length = 2 := by decide
  rw [reportText, List.length_append, List.length_dropLast, List.length_append, reportHead_length,
    hclose, Template.emptyLength]
  omega

/-- A space follows the comma behind the client token. -/
theorem reportText_space : ∃ rest, reportText template properties =
    ascii "\x7b\"clientToken\":\"" ++ template.clientToken ++ [quote, comma] ++ space :: rest := by
  have hsplit : ascii "\", \"params\":\x7b" =
      [quote, comma] ++ space :: ascii "\"params\":\x7b" := by
    decide
  have hne : ascii "\"params\":\x7b" ++ nodesText properties ≠ [] := by
    rw [Ne, List.append_eq_nil_iff, not_and_or]
    exact .inl (by decide)
  refine ⟨(ascii "\"params\":\x7b" ++ nodesText properties).dropLast ++ ascii "\x7d\x7d", ?_⟩
  have hhead : reportHead template ++ nodesText properties =
      ascii "\x7b\"clientToken\":\"" ++ template.clientToken ++ [quote, comma] ++
        space :: (ascii "\"params\":\x7b" ++ nodesText properties) := by
    rw [reportHead, hsplit]
    simp only [List.append_assoc, List.cons_append]
  rw [reportText, hhead, List.dropLast_append_of_ne_nil (List.cons_ne_nil _ _),
    List.dropLast_cons_of_ne_nil hne]
  simp only [List.append_assoc, List.cons_append]

variable {template properties}

/-- A report that is an object with the properties as its params has some, and they print
right. -/
theorem printRight_of_holdsReport
    (h : HoldsReport template properties (reportText template properties)) :
    properties ≠ [] ∧ rawString template.clientToken = true ∧ allPrintRight properties = true := by
  obtain ⟨blank, idLayout, paramsLayout, inner, members, htext, hwf, hid, hparams, hrenders⟩ := h
  have hmembers := rendersAll_length properties hrenders
  have htoken : rawString template.clientToken = true := by
    simp only [Json.wellFormed, membersWellFormed, Bool.and_eq_true] at hwf
    exact hwf.2.1.2
  by_cases hright : properties ≠ [] ∧ allPrintRight properties = true
  · exact ⟨hright.1, htoken, hright.2⟩
  · exfalso
    have hlong : (nodesText properties).length ≤ (membersText members).length := by
      cases properties with
      | nil => exact Nat.zero_le _
      | cons property rest =>
        have hwrong : ¬ allPrintRight (property :: rest) = true :=
          fun h => hright ⟨List.cons_ne_nil _ _, h⟩
        rw [if_neg hwrong, List.isEmpty_cons, if_neg Bool.false_ne_true] at hmembers
        omega
    have hidLength : idLayout.name.length = 11 := by rw [hid]; rfl
    have hparamsLength : paramsLayout.name.length = 6 := by rw [hparams]; rfl
    obtain ⟨rest, hspace⟩ := reportText_space template properties
    have hlength := congrArg List.length htext
    rw [reportText_length] at hlength
    simp only [Json.text, membersText, Layout.front, List.length_append, List.length_cons,
      List.length_nil, List.isEmpty_nil, List.isEmpty_cons, Bool.false_eq_true, if_true, if_false,
      hidLength, hparamsLength] at hlength
    have hblank : blank = [] := List.length_eq_zero_iff.mp (by omega)
    have hbefore : idLayout.before = [] := List.length_eq_zero_iff.mp (by omega)
    have hafterName : idLayout.afterName = [] := List.length_eq_zero_iff.mp (by omega)
    have hbeforeValue : idLayout.beforeValue = [] := List.length_eq_zero_iff.mp (by omega)
    have hafterValue : idLayout.afterValue = [] := List.length_eq_zero_iff.mp (by omega)
    have hnext : paramsLayout.before = [] := List.length_eq_zero_iff.mp (by omega)
    have hfront : ascii "\x7b\"clientToken\":\"" =
        openBrace :: quote :: (ascii "clientToken" ++ [quote, colon, quote]) := by decide
    rw [hspace, hfront, Json.text, membersText, membersText, Layout.front, Layout.front,
      hid, hblank, hbefore, hafterName, hbeforeValue, hafterValue, hnext, Json.text] at htext
    simp only [List.append_assoc, List.cons_append, List.nil_append, List.isEmpty_cons,
      Bool.false_eq_true, if_false, List.cons.injEq, List.append_cancel_left_eq, true_and] at htext
    exact absurd htext.1 (by decide)

end Members

end Values

section Right
variable {template : Template} {size : ℕ} {properties : List Property}

theorem key_of_valid : (properties : List Property) → ValidAll properties →
    ∀ property ∈ properties, property.key ≠ none
  | [], _ => fun _ hmem => absurd hmem List.not_mem_nil
  | property :: rest, hvalid => by
      intro property' hmem
      rcases List.mem_cons.mp hmem with rfl | hmem
      · have hfirst := hvalid.1
        cases property' with
        | null key => exact hfirst
        | scalar key data => cases data <;> simp_all [Valid, Property.key]
        | struct key members => exact hfirst.1
      · exact key_of_valid rest hvalid.2 property' hmem

/-- Properties that fit end in front of the end of the buffer. -/
theorem length_of_fits {start : ℕ} (hkeys : ∀ property ∈ properties, property.key ≠ none)
    (hfit : fits size start properties = true) (hne : properties ≠ []) :
    start + (nodesText properties).length < size := by
  induction properties generalizing start with
  | nil => exact absurd rfl hne
  | cons property rest ih =>
    have hkey := hkeys property (List.mem_cons_self ..)
    rw [fits, Bool.and_eq_true, decide_eq_true_eq] at hfit
    rw [nodesText, if_neg hkey, List.length_append]
    cases rest with
    | nil =>
      rw [nodesText, List.length_nil]
      omega
    | cons next rest =>
      have hrest := ih (fun p hp => hkeys p (List.mem_cons_of_mem property hp)) hfit.2
        (List.cons_ne_nil _ _)
      omega

/-- A report whose properties print right holds them. -/
theorem holdsReport_of_printRight (hvalid : ValidAll properties) (hne : properties ≠ [])
    (htoken : rawString template.clientToken = true) (hright : allPrintRight properties = true) :
    HoldsReport template properties (reportText template properties) := by
  obtain ⟨members, hwf, hrenders, htext⟩ := exists_members properties hvalid hright
  have hhead : reportHead template ++ (membersText members ++ [comma]) =
      (reportHead template ++ membersText members) ++ [comma] := by
    rw [List.append_assoc]
  have hfront : ascii "\x7b\"clientToken\":\"" =
      openBrace :: quote :: (ascii "clientToken" ++ [quote, colon, quote]) := by decide
  have hmiddle : ascii "\", \"params\":\x7b" =
      quote :: comma :: space :: quote :: (ascii "params" ++ [quote, colon, openBrace]) := by decide
  have hclose : ascii "\x7d\x7d" = [closeBrace, closeBrace] := by decide
  have hidName : rawString (ascii "clientToken") = true := rawString_of_plain (by decide)
  have hparamsName : rawString (ascii "params") = true := rawString_of_plain (by decide)
  refine ⟨[], ⟨[], ascii "clientToken", [], [], []⟩, ⟨[space], ascii "params", [], [], []⟩, [],
    members, ?_, ?_, rfl, rfl, hrenders⟩
  · rw [reportText, htext hne, hhead, List.dropLast_concat, reportHead, hfront, hmiddle, hclose]
    simp only [Json.text, membersText, Layout.front, List.append_assoc, List.cons_append,
      List.nil_append, List.isEmpty_cons, List.isEmpty_nil, Bool.false_eq_true, if_false, if_true]
  · have hspace : [space].all isBlank = true := by decide
    have hnone : ([] : List UInt8).all isBlank = true := rfl
    simp only [Json.wellFormed, membersWellFormed, Layout.wellFormed, hidName, hparamsName, htoken,
      hwf, hspace, hnone, Bool.and_self]

/-- A report comes out right exactly if the buffer holds the empty JSON, and, when there is room
for the properties, there are less than 128 of them, none only if there is no room for the end,
and what is printed for the client token and for each property is well-formed. -/
theorem constructReportArray_right_iff (template : Template) (size : ℕ) (properties : List Property)
    (hsize : size < 2 ^ 31) (hvalid : ValidAll properties) :
    ReportRight template size properties ↔
      template.emptyLength < size ∧
        (RoomForAll template size properties →
          properties.length < 128 ∧ (properties = [] → size ≤ template.emptyLength + 13) ∧
            (properties ≠ [] →
              rawString template.clientToken = true ∧ allPrintRight properties = true)) := by
  have hkeys := key_of_valid properties hvalid
  have hpos : 18 ≤ template.emptyLength := Nat.le_add_left 18 _
  by_cases hempty : template.emptyLength < size
  · have hends := constructReportArray_ends hempty hsize hkeys
    have hlast : RoomForAll template size properties → properties.length < 128 →
        properties ≠ [] →
        template.emptyLength + 11 + (nodesText properties).length + 2 < size := by
      intro hroom hshort hne
      have hfit := hroom.2
      rw [List.take_of_length_le (Nat.le_of_lt hshort)] at hfit
      have hlength := length_of_fits hkeys hfit hne
      omega
    constructor
    · rintro ⟨-, hinside, hholds⟩
      refine ⟨hempty, fun hroom => ?_⟩
      have hshort : properties.length < 128 := by
        rw [Ne, hends.outside] at hinside
        exact Nat.not_le.mp fun hlong => hinside ⟨hroom.1, hroom.2, hlong⟩
      have hreport : template.emptyLength + 11 + (nodesText properties).length + 2 < size →
          properties ≠ [] ∧ rawString template.clientToken = true ∧
            allPrintRight properties = true := by
        intro hend
        have hsuccess := hends.success.mpr ⟨hroom.1, hroom.2, hshort, hend⟩
        have hholds' := hholds hsuccess
        rw [hends.text hsuccess] at hholds'
        exact printRight_of_holdsReport hholds'
      refine ⟨hshort, ?_, fun hne => (hreport (hlast hroom hshort hne)).2⟩
      rintro rfl
      by_contra hlong
      rw [nodesText, List.length_nil] at hreport
      exact (hreport (by omega)).1 rfl
    · rintro ⟨-, hroom⟩
      refine ⟨hends.reach, ?_, ?_⟩
      · intro houtside
        obtain ⟨hhead, hfit, hlong⟩ := hends.outside.mp houtside
        exact absurd (hroom ⟨hhead, hfit⟩).1 (Nat.not_lt.mpr hlong)
      · intro hsuccess
        obtain ⟨hhead, hfit, -, hend⟩ := hends.success.mp hsuccess
        obtain ⟨-, hnone, hsome⟩ := hroom ⟨hhead, hfit⟩
        rw [hends.text hsuccess]
        by_cases hne : properties = []
        · have hshort := hnone hne
          rw [hne, nodesText, List.length_nil] at hend
          omega
        · obtain ⟨htoken, hright⟩ := hsome hne
          exact holdsReport_of_printRight hvalid hne htoken hright
  · have hover := constructReportArray_short properties (Nat.not_lt.mp hempty)
    constructor
    · rintro ⟨hreach, -⟩
      exact absurd hover (Nat.not_lt.mpr hreach)
    · rintro ⟨hsize', -⟩
      exact absurd hsize' hempty

def productP : Template := ⟨⟨ascii "P", by decide⟩, by decide, 0⟩

theorem a_noNul : (0 : UInt8) ∉ ascii "a" := by decide

def five : Property := .scalar (some ⟨ascii "a", a_noNul⟩) (.int32 5)

theorem constructReportArray_right_five : ReportRight productP 100 [five] :=
  (constructReportArray_right_iff productP 100 [five] (by decide)
    ⟨by simp [Valid, five], trivial⟩).mpr
    ⟨by decide, fun _ => ⟨by decide, fun h => absurd h (List.cons_ne_nil _ _),
      fun _ => ⟨rawString_of_plain (by decide), by decide⟩⟩⟩

/-- A report of no properties is said to be a success, and its params are no value. -/
theorem constructReportArray_none :
    (constructReportArray productP 100 []).1 = .returned .success ∧
      ¬ ReportRight productP 100 [] := by
  have hsuccess : (constructReportArray productP 100 []).1 = .returned .success := by decide
  have htext : (constructReportArray productP 100 []).2.text = reportText productP [] := by decide
  refine ⟨hsuccess, ?_⟩
  rintro ⟨-, -, hholds⟩
  have hreport := hholds hsuccess
  rw [List.map_nil, htext] at hreport
  exact (printRight_of_holdsReport hreport).1 rfl

end Right

end IotExplorer.ReportArray
