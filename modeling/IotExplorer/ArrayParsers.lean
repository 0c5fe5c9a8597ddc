import IotExplorer.DeviceProperty
import Mathlib.Data.List.GetD

/-!
The parsers that cut the caller's text while they work on it: a NUL is written
behind the entry that is looked at and the old character is put back. The three
array parsers do not put it back when they stop at an entry because the output is
full, and `json_parse_name_value` does not when the text was longer than it was
told, since the text it then measures is the cut one.
-/
namespace IotExplorer.ArrayParsers

open Basis.JsonText JsonParser JsonLookup TemplateJson DeviceProperty

section Cuts
variable {mem : List UInt8} {i : ℕ} {c : UInt8}

/-- A character that is written and put back leaves the memory as it was. -/
theorem restore_set (mem : List UInt8) (i : ℕ) : (mem.set i 0).set i (mem.getD i 0) = mem := by
  rw [List.set_set]
  by_cases hi : i < mem.length
  · rw [List.getD_eq_getElem _ _ hi, List.set_getElem_self]
  · exact List.set_eq_of_length_le (by omega)

/-- A cut shows exactly where there was no NUL. -/
theorem set_zero_eq_iff (mem : List UInt8) (i : ℕ) : mem.set i 0 = mem ↔ mem.getD i 0 = 0 := by
  constructor
  · intro h
    by_cases hi : i < mem.length
    · rw [List.getD_eq_getElem _ _ hi]
      have hget := List.getElem_set_self (l := mem) (a := (0 : UInt8)) (by simpa using hi)
      simpa [h] using hget
    · rw [List.getD_eq_default _ _ (by omega)]
  · intro h
    have hback := restore_set mem i
    rw [h, List.set_set] at hback
    exact hback

end Cuts

section Loop
variable {α : Type*}

/-- What the array parsers differ in: the entries that they take, whether the
output is full after so many results, and what is stored for an entry with this
text and length. -/
structure ArrayParser (α : Type*) where
  entryType : JsonType
  full : ℕ → Bool
  convert : Ptr → ℕ → α

/-- The memory of the text, what was stored, and how the loop ended. -/
structure Parsed (α : Type*) where
  mem : List UInt8
  results : List α
  ending : Ending

/-- The loop `json_array_for_each_entry` with the body of the parsers; `pos` is the
offset of the cursor. -/
def parseLoop (parser : ArrayParser α) : ℕ → ℕ → List α → List UInt8 → Parsed α
  | 0, _, results, mem => ⟨mem, results, .unfinished⟩
  | fuel + 1, pos, results, mem =>
      match mem.drop pos with
      | [] => ⟨mem, results, .overrun⟩
      | c :: p =>
          if c = 0 then ⟨mem, results, .finished⟩
          else
            match jsonGetNextObject .array p with
            | .error _ => ⟨mem, results, .overrun⟩
            | .ok none => ⟨mem, results, .finished⟩
            | .ok (some found) =>
                let entry := mem.length - found.val.length
                let next := mem.length - found.next.length
                if found.valType ≠ parser.entryType then parseLoop parser fuel next results mem
                else
                  let oldCh := mem.getD (entry + found.valLen) 0
                  let cut := mem.set (entry + found.valLen) 0
                  if parser.full results.length then ⟨cut, results, .finished⟩
                  else
                    let result := parser.convert (cut.drop entry) found.valLen
                    parseLoop parser fuel next (results ++ [result])
                      (cut.set (entry + found.valLen) oldCh)

/-- An array parser on the memory from `json_str` on. -/
def parseArray (parser : ArrayParser α) (mem : List UInt8) : Parsed α :=
  match jsonGetObject .array mem with
  | .error _ => ⟨mem, [], .overrun⟩
  | .ok none => ⟨mem, [], .finished⟩
  | .ok (some pos) => parseLoop parser (mem.length + 1) (mem.length - pos.length) [] mem

/-- A difference of sizes, read as `ssize_t`. -/
def ssize (n : ℤ) : ℤ := n.bmod (2 ^ 64)

/-- The `type` argument of the primitive parser. -/
inductive PrimitiveType where
  | int32 | float | other
  deriving DecidableEq

/-- A value of a primitive array, or nothing where the text of the entry has none. -/
inductive Primitive where
  | int32 (value : Option ℤ)
  | float (bits : Option UInt32)
  deriving DecidableEq

/-- The bytes before the NUL. -/
def textAt (p : Ptr) : List UInt8 := p.takeWhile (· != 0)

/-- `LITE_dt_parse_primitive_array`, or nothing for another type; an element has
four bytes. -/
def liteDtParsePrimitiveArray (scanFloat : List UInt8 → Option UInt32) (outLen : ℕ)
    (type : PrimitiveType) (mem : List UInt8) : Option (Parsed Primitive) :=
  let full : ℕ → Bool := fun n => ssize ((outLen : ℤ) - 4 * n) ≤ 0
  match type with
  | .int32 => some (parseArray ⟨.number, full, fun p _ => .int32 (scanInt 32 (textAt p))⟩ mem)
  | .float => some (parseArray ⟨.number, full, fun p _ => .float (scanFloat (textAt p))⟩ mem)
  | .other => none

/-- `LITE_dt_parse_str_array`; a string is cut to its array and padded with NULs. -/
def liteDtParseStrArray (arrLen strLen : ℕ) (mem : List UInt8) : Parsed (List UInt8) :=
  parseArray
    { entryType := .string
      full := fun n => arrLen ≤ n
      convert := fun p _ => (textAt p ++ List.replicate strLen 0).take (strLen - 1) ++ [0] } mem

/-- `LITE_dt_parse_obj_array`; the parsing function reads the text only. -/
def liteDtParseObjArray (parseFn : Ptr → ℕ → α) (outLen objLen : ℕ) (mem : List UInt8) :
    Parsed α :=
  parseArray
    { entryType := .object
      full := fun n => ssize ((outLen : ℤ) - objLen * n) ≤ 0
      convert := parseFn } mem

end Loop

section NameValue
variable {σ : Type*}

/-- The calls of `json_parse_name_value`, up to one that finishes; the flag tells
whether there was any. -/
def callBack (pfnCB : σ → Entry → σ × Bool) : List Entry → σ → Bool → σ × Bool
  | [], data, ret => (data, ret)
  | entry :: entries, data, ret =>
      if reported entry then
        let called := pfnCB data entry
        if called.2 then (called.1, true) else callBack pfnCB entries called.1 true
      else callBack pfnCB entries data ret

/-- How `json_parse_name_value` ends: the memory of the text, the data of the
callback, and whether it reports success. -/
structure NameValues (σ : Type*) where
  mem : List UInt8
  data : σ
  ok : Bool

/-- `json_parse_name_value`; the callback reads the text only. -/
def jsonParseNameValue (pfnCB : σ → Entry → σ × Bool) (strLen : ℕ) (data : σ)
    (mem : List UInt8) : Except Overrun (NameValues σ) :=
  if strLen = 0 then .ok ⟨mem, data, false⟩
  else
    match strlen mem with
    | .error e => .error e
    | .ok n =>
        let lastChar := if strLen ≠ n then mem.getD strLen 0 else 0
        let cut := if strLen ≠ n then mem.set strLen 0 else mem
        let called := callBack pfnCB (forEach .object cut).entries data false
        match strlen cut with
        | .error e => .error e
        | .ok n => .ok ⟨if strLen ≠ n then cut.set strLen lastChar else cut, called.1, called.2⟩

end NameValue

section Texts
variable {text rest : List UInt8} {i : ℕ}

/-- The length of a text that was cut. -/
theorem strlen_set (hnul : (0 : UInt8) ∉ text) :
    strlen ((text ++ 0 :: rest).set i 0) = .ok (min i text.length) := by
  by_cases hi : i < text.length
  · have hsplit : (text ++ 0 :: rest).set i 0 = text.take i ++ 0 ::
        (text.drop (i + 1) ++ 0 :: rest) := by
      rw [List.set_append_left _ _ hi, List.set_eq_take_append_cons_drop, if_pos hi,
        List.append_assoc]
      rfl
    rw [hsplit, strlen_text fun hmem => hnul (List.mem_of_mem_take hmem), List.length_take]
  · have hsplit : ∃ rest', (text ++ 0 :: rest).set i 0 = text ++ 0 :: rest' := by
      rw [List.set_append_right _ _ (by omega)]
      cases i - text.length with
      | zero => exact ⟨rest, rfl⟩
      | succ k => exact ⟨rest.set k 0, rfl⟩
    obtain ⟨rest', hset⟩ := hsplit
    rw [hset, strlen_text hnul, Nat.min_eq_right (by omega)]

/-- `json_parse_name_value` leaves the text as it was exactly if it was not told a
smaller length than the text has. -/
theorem jsonParseNameValue_mem {σ : Type*} (pfnCB : σ → Entry → σ × Bool) (strLen : ℕ) (data : σ)
    (hnul : (0 : UInt8) ∉ text) :
    ∃ result, jsonParseNameValue pfnCB strLen data (text ++ 0 :: rest) = .ok result ∧
      (result.mem = text ++ 0 :: rest ↔ strLen = 0 ∨ text.length ≤ strLen) := by
  unfold jsonParseNameValue
  by_cases hzero : strLen = 0
  · rw [if_pos hzero]
    exact ⟨_, rfl, iff_of_true rfl (.inl hzero)⟩
  rw [if_neg hzero, strlen_text hnul]
  dsimp only
  by_cases heq : strLen = text.length
  · simp only [heq, ne_eq, not_true_eq_false, if_false, strlen_text hnul]
    exact ⟨_, rfl, iff_of_true rfl (.inr (Nat.le_refl _))⟩
  simp only [ne_eq, heq, not_false_eq_true, if_true, strlen_set hnul]
  refine ⟨_, rfl, ?_⟩
  dsimp only
  by_cases hlt : strLen < text.length
  · -- the cut text has the length that the function was told
    have hmin : strLen = min strLen text.length := by omega
    rw [if_neg (not_not.mpr hmin), set_zero_eq_iff]
    apply iff_of_false
    · rw [List.getD_append _ _ _ _ hlt, List.getD_eq_getElem _ _ hlt]
      intro hnone
      exact hnul (hnone ▸ List.getElem_mem hlt)
    · omega
  · have hmin : ¬ strLen = min strLen text.length := by omega
    rw [if_pos hmin]
    exact iff_of_true (restore_set _ _) (.inr (by omega))

end Texts

section Scans
variable {p q value pos : Ptr} {type : JsonType} {entry : Entry}

theorem findValue_suffix (h : findValue p = .ok (some (type, value, pos))) : value <:+ p := by
  induction p with
  | nil => cases h
  | cons c p ih =>
    unfold findValue at h
    have hhere (hvalue : c :: p = value) : value <:+ c :: p := hvalue ▸ List.suffix_rfl
    split_ifs at h
    · simp at h
    · obtain ⟨-, rfl, -⟩ : _ ∧ p = value ∧ _ := by simpa using h
      exact List.suffix_cons c p
    · exact hhere (by simp at h; exact h.2.1)
    · exact hhere (by simp at h; exact h.2.1)
    · exact hhere (by simp at h; exact h.2.1)
    · exact hhere (by simp at h; exact h.2.1)
    · exact hhere (by simp at h; exact h.2.1)
    · exact (ih h).trans (List.suffix_cons c p)

/-- The entry of an array and the cursor behind it are in the text. -/
theorem jsonGetNextObject_suffix (h : jsonGetNextObject .array p = .ok (some entry)) :
    entry.val <:+ p ∧ entry.next <:+ p := by
  unfold jsonGetNextObject getValue at h
  rw [if_neg (by decide)] at h
  split at h
  · cases h
  · cases h
  next type value start hfind =>
    split at h
    · cases h
    next len hlen =>
      obtain rfl := Option.some.inj (Except.ok.inj h)
      have hvalue := findValue_suffix hfind
      exact ⟨hvalue, (List.drop_suffix _ value).trans hvalue⟩

theorem jsonGetObject_suffix (h : jsonGetObject type p = .ok (some q)) : q <:+ p := by
  induction p with
  | nil => cases h
  | cons c p ih =>
    unfold jsonGetObject at h
    split_ifs at h
    · simp at h
    · exact (ih h).trans (List.suffix_cons c p)
    all_goals
      first
      | exact (Option.some.inj (Except.ok.inj h)) ▸ List.suffix_rfl
      | simp at h

/-- The offset of a part of the memory leads back to it. -/
theorem drop_offset (h : q <:+ p) : p.drop (p.length - q.length) = q := by
  obtain ⟨front, rfl⟩ := h
  rw [List.length_append, Nat.add_sub_cancel, List.drop_left]

end Scans

section Walks
variable {α : Type*} {mem p : List UInt8}

/-- The offset of the character behind an entry. -/
def behind (mem : List UInt8) (entry : Entry) : ℕ :=
  mem.length - entry.val.length + entry.valLen

/-- The entry at which the parser stops with `n` results, because the output is full. -/
def stopEntry (full : ℕ → Bool) : ℕ → List Entry → Option Entry
  | _, [] => none
  | n, entry :: entries => if full n then some entry else stopEntry full (n + 1) entries

/-- What the parser stores for the entries that it meets with `n` results. -/
def stored (parser : ArrayParser α) (mem : List UInt8) : ℕ → List Entry → List α
  | _, [] => []
  | n, entry :: entries =>
      if parser.full n then []
      else
        parser.convert ((mem.set (behind mem entry) 0).drop (mem.length - entry.val.length))
            entry.valLen ::
          stored parser mem (n + 1) entries

/-- The end of a loop over these entries. -/
def parsedAt (parser : ArrayParser α) (mem : List UInt8) (results : List α) (loop : Walk) :
    Parsed α :=
  let wanted := loop.entries.filter fun entry => entry.valType = parser.entryType
  let values := results ++ stored parser mem results.length wanted
  match stopEntry parser.full results.length wanted with
  | some entry => ⟨mem.set (behind mem entry) 0, values, .finished⟩
  | none => ⟨mem, values, loop.ending⟩

/-- The loop of the parsers on the memory as it was: each entry that is not the last
one is cut off and put back. -/
theorem parseLoop_eq (parser : ArrayParser α) (fuel pos : ℕ) (results : List α)
    (hp : mem.drop pos = p) :
    parseLoop parser fuel pos results mem = parsedAt parser mem results (walk .array fuel p) := by
  induction fuel generalizing pos results p with
  | zero =>
    unfold parseLoop walk parsedAt
    simp [stored, stopEntry]
  | succ fuel ih =>
    unfold parseLoop
    rw [hp]
    cases p with
    | nil =>
      unfold walk parsedAt
      simp [stored, stopEntry]
    | cons c p =>
      unfold walk
      dsimp only
      by_cases hc : c = 0
      · rw [if_pos hc, if_pos hc]
        simp [parsedAt, stored, stopEntry]
      rw [if_neg hc, if_neg hc, if_neg (by decide)]
      cases hnext : jsonGetNextObject .array p with
      | error e => simp [parsedAt, stored, stopEntry]
      | ok found =>
        cases found with
        | none => simp [parsedAt, stored, stopEntry]
        | some entry =>
          dsimp only
          have hsuffix : p <:+ mem := by
            have hdrop := List.drop_suffix pos mem
            rw [hp] at hdrop
            exact (List.suffix_cons c p).trans hdrop
          have hcursor := drop_offset ((jsonGetNextObject_suffix hnext).2.trans hsuffix)
          by_cases htype : entry.valType = parser.entryType
          · rw [if_neg (not_not.mpr htype)]
            by_cases hfull : parser.full results.length
            · rw [if_pos hfull]
              simp [parsedAt, stored, stopEntry, htype, hfull, behind]
            · rw [if_neg hfull, restore_set, ih _ _ hcursor]
              simp [parsedAt, stored, stopEntry, htype, hfull, behind]
          · rw [if_pos htype, ih _ _ hcursor]
            simp [parsedAt, htype]

theorem parseArray_eq (parser : ArrayParser α) (mem : List UInt8) :
    parseArray parser mem = parsedAt parser mem [] (forEach .array mem) := by
  unfold parseArray forEach
  cases hstart : jsonGetObject .array mem with
  | error e => simp [parsedAt, stored, stopEntry]
  | ok start =>
    cases start with
    | none => simp [parsedAt, stored, stopEntry]
    | some pos =>
      dsimp only
      apply parseLoop_eq
      exact drop_offset (jsonGetObject_suffix hstart)

theorem stopEntry_eq_some_iff {full : ℕ → Bool} {n : ℕ} {entries : List Entry} {entry : Entry} :
    stopEntry full n entries = some entry ↔
      ∃ k, entries[k]? = some entry ∧ full (n + k) = true ∧ ∀ m, m < k → full (n + m) = false := by
  induction entries generalizing n with
  | nil => simp [stopEntry]
  | cons first entries ih =>
    unfold stopEntry
    cases hfull : full n with
    | true =>
      rw [if_pos rfl]
      constructor
      · intro h
        exact ⟨0, h, hfull, fun m hm => absurd hm (Nat.not_lt_zero m)⟩
      · rintro ⟨k, hk, -, hbefore⟩
        cases k with
        | zero => exact hk
        | succ k =>
          have hzero := hbefore 0 (Nat.succ_pos k)
          rw [Nat.add_zero, hfull] at hzero
          cases hzero
    | false =>
      rw [if_neg Bool.false_ne_true, ih]
      constructor
      · rintro ⟨k, hk, hstop, hbefore⟩
        refine ⟨k + 1, hk, ?_, ?_⟩
        · rw [← Nat.add_assoc, Nat.add_right_comm]
          exact hstop
        · intro m hm
          cases m with
          | zero => exact hfull
          | succ m =>
            rw [← Nat.add_assoc, Nat.add_right_comm]
            exact hbefore m (by omega)
      · rintro ⟨k, hk, hstop, hbefore⟩
        cases k with
        | zero =>
          rw [Nat.add_zero, hfull] at hstop
          cases hstop
        | succ k =>
          refine ⟨k, hk, ?_, ?_⟩
          · rw [Nat.add_right_comm, Nat.add_assoc]
            exact hstop
          · intro m hm
            rw [Nat.add_right_comm, Nat.add_assoc]
            exact hbefore (m + 1) (by omega)

variable (full : ℕ → Bool) (entries : List Entry) (entry : Entry) in
theorem stopEntry_zero_iff :
    stopEntry full 0 entries = some entry ↔
      ∃ k, entries[k]? = some entry ∧ full k = true ∧ ∀ m, m < k → full m = false := by
  rw [stopEntry_eq_some_iff]
  simp only [Nat.zero_add]

/-- The entry of this type at which a parser stops, because its output is full, if
there is one, ends the text. -/
def StopsAtEnd (type : JsonType) (full : ℕ → Bool) (mem : List UInt8) : Prop :=
  ∀ n entry, ((forEach .array mem).entries.filter fun entry => entry.valType = type)[n]? =
      some entry →
    full n = true → (∀ m, m < n → full m = false) → mem.getD (behind mem entry) 0 = 0

theorem parseArray_mem_iff (parser : ArrayParser α) (mem : List UInt8) :
    (parseArray parser mem).mem = mem ↔ StopsAtEnd parser.entryType parser.full mem := by
  rw [parseArray_eq]
  unfold parsedAt StopsAtEnd
  dsimp only [List.length_nil]
  cases hstop : stopEntry parser.full 0
    ((forEach .array mem).entries.filter fun entry => entry.valType = parser.entryType) with
  | none =>
    apply iff_of_true rfl
    intro n entry hentry hfull hbefore
    have hsome := (stopEntry_zero_iff _ _ _).mpr ⟨n, hentry, hfull, hbefore⟩
    rw [hstop] at hsome
    cases hsome
  | some entry =>
    dsimp only
    rw [set_zero_eq_iff]
    constructor
    · intro hend n entry' hentry hfull hbefore
      have hsome := (stopEntry_zero_iff _ _ _).mpr ⟨n, hentry, hfull, hbefore⟩
      rw [hstop] at hsome
      rw [← Option.some.inj hsome]
      exact hend
    · intro hend
      obtain ⟨n, hentry, hfull, hbefore⟩ := (stopEntry_zero_iff _ _ _).mp hstop
      exact hend n entry hentry hfull hbefore

end Walks

/-- The text is left as it was by `json_parse_name_value` exactly if it is not longer
than the function is told, and by an array parser exactly if the entry at which
it stops for want of room, if any, ends the text. -/
theorem texts_kept_iff {σ α : Type} (pfnCB : σ → Entry → σ × Bool) (strLen : ℕ) (data : σ)
    (scanFloat : List UInt8 → Option UInt32) (type : PrimitiveType) (outLen arrLen itemLen : ℕ)
    (parseFn : Ptr → ℕ → α) (text : CString) (rest mem : List UInt8)
    (hmem : mem = text.val ++ 0 :: rest) :
    (∃ result, jsonParseNameValue pfnCB strLen data mem = .ok result ∧
      (result.mem = mem ↔ strLen = 0 ∨ text.val.length ≤ strLen)) ∧
    (∀ result, liteDtParsePrimitiveArray scanFloat outLen type mem = some result →
      (result.mem = mem ↔
        StopsAtEnd .number (fun n => ssize ((outLen : ℤ) - 4 * n) ≤ 0) mem)) ∧
    ((liteDtParseStrArray arrLen itemLen mem).mem = mem ↔
      StopsAtEnd .string (fun n => arrLen ≤ n) mem) ∧
    ((liteDtParseObjArray parseFn outLen itemLen mem).mem = mem ↔
      StopsAtEnd .object (fun n => ssize ((outLen : ℤ) - itemLen * n) ≤ 0) mem) := by
  refine ⟨?_, ?_, parseArray_mem_iff _ mem, parseArray_mem_iff _ mem⟩
  · rw [hmem]
    exact jsonParseNameValue_mem pfnCB strLen data text.property
  · intro result hresult
    cases type with
    | int32 =>
      obtain rfl := Option.some.inj hresult
      exact parseArray_mem_iff _ mem
    | float =>
      obtain rfl := Option.some.inj hresult
      exact parseArray_mem_iff _ mem
    | other => cases hresult

/-- The text `[1,2]`, with room for one number. -/
theorem texts_kept_iff_pair :
    (∃ result, jsonParseNameValue (fun n (_ : Entry) => (n + 1, false)) 5 0
        [0x5B, 0x31, 0x2C, 0x32, 0x5D, 0] = .ok result ∧
      (result.mem = [0x5B, 0x31, 0x2C, 0x32, 0x5D, 0] ↔ 5 = 0 ∨ 5 ≤ 5)) ∧
    (∀ result, liteDtParsePrimitiveArray (fun _ => none) 4 .int32
        [0x5B, 0x31, 0x2C, 0x32, 0x5D, 0] = some result →
      (result.mem = [0x5B, 0x31, 0x2C, 0x32, 0x5D, 0] ↔
        StopsAtEnd .number (fun n => ssize (4 - 4 * n) ≤ 0) [0x5B, 0x31, 0x2C, 0x32, 0x5D, 0])) ∧
    ((liteDtParseStrArray 1 4 [0x5B, 0x31, 0x2C, 0x32, 0x5D, 0]).mem =
        [0x5B, 0x31, 0x2C, 0x32, 0x5D, 0] ↔
      StopsAtEnd .string (fun n => 1 ≤ n) [0x5B, 0x31, 0x2C, 0x32, 0x5D, 0]) ∧
    ((liteDtParseObjArray (fun _ len => len) 4 4 [0x5B, 0x31, 0x2C, 0x32, 0x5D, 0]).mem =
        [0x5B, 0x31, 0x2C, 0x32, 0x5D, 0] ↔
      StopsAtEnd .object (fun n => ssize (4 - 4 * n) ≤ 0) [0x5B, 0x31, 0x2C, 0x32, 0x5D, 0]) :=
  texts_kept_iff (fun n (_ : Entry) => (n + 1, false)) 5 0 (fun _ => none) .int32 4 1 4
    (fun _ len => len) ⟨[0x5B, 0x31, 0x2C, 0x32, 0x5D], by decide⟩ []
    [0x5B, 0x31, 0x2C, 0x32, 0x5D, 0] rfl

/-- The text `[1,2]` ends behind its 2 after it was read into one number, and an
object of which the last character is to be ignored loses that character. -/
theorem texts_left_cut :
    (¬ ∀ (outLen : ℕ) (mem : List UInt8) (result : Parsed Primitive),
      liteDtParsePrimitiveArray (fun _ => none) outLen .int32 mem = some result →
        result.mem = mem) ∧
    ¬ ∀ (strLen : ℕ) (mem : List UInt8) (result : NameValues ℕ),
      jsonParseNameValue (fun n (_ : Entry) => (n + 1, false)) strLen 0 mem = .ok result →
        result.mem = mem := by
  constructor
  · intro h
    have hkept := h 4 [0x5B, 0x31, 0x2C, 0x32, 0x5D, 0]
      ⟨[0x5B, 0x31, 0x2C, 0x32, 0, 0], [.int32 (some 1)], .finished⟩ (by rfl)
    exact absurd hkept (by decide)
  · intro h
    have hkept := h 2 [0x7B, 0x7D, 0x7D, 0] ⟨[0x7B, 0x7D, 0, 0], 0, false⟩ (by rfl)
    exact absurd hkept (by decide)

end IotExplorer.ArrayParsers
