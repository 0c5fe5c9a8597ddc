import IotExplorer.Basis.Memory
import IotExplorer.DataTemplate
import IotExplorer.PropertyUpdate

/-!
The two ways in which a value of the cloud gets into the array of a string property.
`LITE_get_string`, which `_direct_update_value` calls, ends the value behind the last
byte that it may copy; `_parse_action_input` copies without an end.
-/
namespace IotExplorer.StringStore

open Basis.Memory JsonParser JsonLookup TemplateJson DeviceProperty DataTemplate PropertyUpdate

section Stores

/-- The array of a string property: its address, and the `data_buff_len` of the property,
which is the number of bytes in the array. -/
structure StringProperty where
  data : ℕ
  dataBuffLen : UInt16

def liteGetString (value : ℕ) (src : CString) (maxLen : UInt16) (mem : ℕ → UInt8) : ℕ → UInt8 :=
  memset (value + min src.val.length maxLen.toNat) 0 1
    (memcpy value (strncpy maxLen.toNat src.val) mem)

/-- `_direct_update_value` for a string or an array. -/
def directUpdateText (property : StringProperty) (value : CString) (mem : ℕ → UInt8) : ℕ → UInt8 :=
  liteGetString property.data value property.dataBuffLen mem

/-- A store writes to the array only, and leaves a NUL in it, whatever the memory holds. -/
structure StoredRight (property : StringProperty) (store : (ℕ → UInt8) → ℕ → UInt8) : Prop where
  inside : ∀ mem i, i < property.data ∨ property.data + property.dataBuffLen.toNat ≤ i →
    store mem i = mem i
  terminated : ∀ mem, ∃ i, i < property.dataBuffLen.toNat ∧ store mem (property.data + i) = 0

end Stores

section Copies
variable {property : StringProperty} {text : CString} {n : ℕ}

theorem strncpy_length (n : ℕ) (text : List UInt8) : (strncpy n text).length = n := by
  unfold strncpy
  rw [List.length_take, List.length_append, List.length_replicate]
  omega

/-- The copy: the characters of the text, then NULs. -/
theorem strncpy_getElem (n : ℕ) (text : List UInt8) {i : ℕ} (hi : i < (strncpy n text).length) :
    (strncpy n text)[i] = text.getD i 0 := by
  simp only [strncpy, List.getElem_take, List.getElem_append, List.getElem_replicate]
  split
  · next hlt => rw [List.getD_eq_getElem _ _ hlt]
  · next hge => rw [List.getD_eq_default _ _ (Nat.le_of_not_lt hge)]

theorem getD_ne_zero {i : ℕ} (hi : i < text.val.length) : text.val.getD i 0 ≠ 0 := by
  rw [List.getD_eq_getElem _ _ hi]
  intro hzero
  have hmem := List.getElem_mem hi
  rw [hzero] at hmem
  exact text.property hmem

/-- A copy is right exactly if the text is shorter than the array. -/
theorem strncpy_storedRight_iff (property : StringProperty) (text : CString) :
    StoredRight property (memcpy property.data (strncpy property.dataBuffLen.toNat text.val)) ↔
      text.val.length < property.dataBuffLen.toNat := by
  have hlen := strncpy_length property.dataBuffLen.toNat text.val
  constructor
  · intro hright
    obtain ⟨i, hi, hzero⟩ := hright.terminated fun _ => 0
    rw [memcpy_inside (by omega), strncpy_getElem] at hzero
    by_contra hlong
    exact getD_ne_zero (by omega) hzero
  · intro hshort
    constructor
    · intro mem i hi
      exact memcpy_outside (by omega)
    · intro mem
      refine ⟨text.val.length, hshort, ?_⟩
      rw [memcpy_inside (by omega), strncpy_getElem, List.getD_eq_default _ _ (Nat.le_refl _)]

/-- `LITE_get_string` is right exactly if the text is shorter than the array. -/
theorem directUpdateText_storedRight_iff (property : StringProperty) (text : CString) :
    StoredRight property (directUpdateText property text) ↔
      text.val.length < property.dataBuffLen.toNat := by
  have hlen := strncpy_length property.dataBuffLen.toNat text.val
  unfold directUpdateText liteGetString
  constructor
  · intro hright
    by_contra hlong
    -- the NUL behind the array
    have hkept := hright.inside (fun _ => 1) (property.data + property.dataBuffLen.toNat)
      (.inr (Nat.le_refl _))
    rw [memset_inside (by omega) (by omega)] at hkept
    exact absurd hkept (by decide)
  · intro hshort
    constructor
    · intro mem i hi
      rw [memset_outside (by omega), memcpy_outside (by omega)]
    · intro mem
      refine ⟨text.val.length, hshort, ?_⟩
      exact memset_inside (by omega) (by omega)

/-- What `LITE_get_string` leaves: the characters that it may copy, and a NUL. -/
theorem slice_liteGetString (value : ℕ) (src : CString) (maxLen : UInt16) (mem : ℕ → UInt8) :
    slice (liteGetString value src maxLen mem) value (value + min src.val.length maxLen.toNat + 1) =
      src.val.take maxLen.toNat ++ [0] := by
  have hlen := strncpy_length maxLen.toNat src.val
  apply List.ext_getElem
  · rw [length_slice, List.length_append, List.length_take, List.length_singleton]
    omega
  · intro i hi _
    have hcell : (slice (liteGetString value src maxLen mem) value
        (value + min src.val.length maxLen.toNat + 1))[i] =
        liteGetString value src maxLen mem (value + i) := by
      simp [slice]
    rw [length_slice] at hi
    rw [hcell]
    unfold liteGetString
    by_cases hlast : i = min src.val.length maxLen.toNat
    · rw [memset_inside (by omega) (by omega)]
      simp [hlast]
    · rw [memset_outside (by omega), memcpy_inside (by omega), strncpy_getElem,
        List.getElem_append_left (by rw [List.length_take]; omega), List.getElem_take,
        List.getD_eq_getElem _ _ (by omega)]

theorem cut_append (text : CString) (n : ℕ) (rest : List UInt8) :
    cut (text.val.take n ++ 0 :: rest) = cut (text.val.take n) := by
  apply Subtype.ext
  have hkept : ∀ c ∈ text.val.take n, (c != 0) = true := by
    intro c hmem
    rw [bne_iff_ne]
    rintro rfl
    exact text.property (List.mem_of_mem_take hmem)
  unfold cut
  dsimp only
  rw [List.takeWhile_append_of_pos hkept, List.takeWhile_cons_of_neg (by decide),
    List.append_nil, List.takeWhile_eq_self_iff.mpr hkept]

/-- It is the value that `_direct_update_value` gives the property. -/
theorem directUpdateValue_text (scanFloat : ScanFloat) (property : StringProperty)
    (text old : CString) (mem : ℕ → UInt8) :
    directUpdateValue scanFloat text.val (.string old property.dataBuffLen) =
      .string (cut (slice (directUpdateText property text mem) property.data
        (property.data + property.dataBuffLen.toNat + 1))) property.dataBuffLen := by
  have hfront := slice_liteGetString property.data text property.dataBuffLen mem
  rw [← slice_append _ (show property.data ≤
      property.data + min text.val.length property.dataBuffLen.toNat + 1 by omega) (by omega),
    directUpdateText, hfront, List.append_assoc, List.singleton_append, cut_append]
  rfl

end Copies

section Inputs
variable {scanFloat : List UInt8 → Option UInt32} {doc : Ptr} {inputs inputs' : List ActionInput}
  {input : ActionInput} {ok : Bool} {i : ℕ}

/-- What `_parse_action_input` leaves of an input: it was not come to, or its value was found
and read. -/
theorem parseActionInput_at (hparsed : parseActionInput scanFloat doc inputs = .ok (inputs', ok))
    (hinput : inputs[i]? = some input) :
    (ok = false ∧ inputs'[i]? = some input) ∨
      ∃ text data, liteJsonValueOf input.key doc = .ok (some text) ∧
        readInput scanFloat input text = some data ∧
        inputs'[i]? = some { input with data := data } := by
  induction inputs generalizing inputs' ok i with
  | nil => cases hinput
  | cons first inputs ih =>
    unfold parseActionInput at hparsed
    cases hvalue : liteJsonValueOf first.key doc with
    | error e =>
      rw [hvalue] at hparsed
      cases hparsed
    | ok value =>
      rw [hvalue] at hparsed
      cases value with
      | none =>
        cases hparsed
        exact .inl ⟨rfl, hinput⟩
      | some text =>
        dsimp only at hparsed
        cases hread : readInput scanFloat first text with
        | none =>
          rw [hread] at hparsed
          cases hparsed
          exact .inl ⟨rfl, hinput⟩
        | some data =>
          rw [hread] at hparsed
          dsimp only at hparsed
          cases hrest : parseActionInput scanFloat doc inputs with
          | error e =>
            rw [hrest] at hparsed
            cases hparsed
          | ok rest =>
            obtain ⟨others, ok'⟩ := rest
            rw [hrest] at hparsed
            cases hparsed
            cases i with
            | zero =>
              obtain rfl := Option.some.inj hinput
              exact .inr ⟨text, data, hvalue, hread, rfl⟩
            | succ i =>
              have hat := ih hrest hinput
              exact hat

end Inputs

/-- The bytes that `_parse_action_input` stores for a string. -/
theorem readInput_string {text : List UInt8} {data : InputData} (htype : input.type = .string)
    (hread : readInput scanFloat input text = some data) :
    data = .string (DataTemplate.strncpy input.dataBuffLen text) := by
  unfold readInput at hread
  rw [htype] at hread
  exact (Option.some.inj hread).symm

/-- A value of the cloud that is stored by `_direct_update_value`, or by a run of
`_parse_action_input` that comes to the property, stays in the array and ends there exactly
if it is shorter than the array. -/
theorem strings_stored_iff (property : StringProperty) (text : CString) :
    (StoredRight property (directUpdateText property text) ↔
      text.val.length < property.dataBuffLen.toNat) ∧
    ∀ (scanFloat : List UInt8 → Option UInt32) (doc : Ptr) (inputs inputs' : List ActionInput)
      (ok : Bool) (i : ℕ) (input : ActionInput),
      inputs[i]? = some input → input.type = .string →
      input.dataBuffLen = property.dataBuffLen.toNat →
      liteJsonValueOf input.key doc = .ok (some text.val) →
      parseActionInput scanFloat doc inputs = .ok (inputs', ok) →
        (ok = false ∧ inputs'[i]? = some input) ∨
          ∃ bytes, inputs'[i]? = some { input with data := .string bytes } ∧
            (StoredRight property (memcpy property.data bytes) ↔
              text.val.length < property.dataBuffLen.toNat) := by
  refine ⟨directUpdateText_storedRight_iff property text, ?_⟩
  intro scanFloat doc inputs inputs' ok i input hinput htype hsize hvalue hparsed
  rcases parseActionInput_at hparsed hinput with hnot | ⟨found, data, hfound, hread, hat⟩
  · exact .inl hnot
  · rw [hvalue] at hfound
    obtain rfl := Option.some.inj (Except.ok.inj hfound)
    obtain rfl := readInput_string htype hread
    refine .inr ⟨_, hat, ?_⟩
    rw [hsize]
    exact strncpy_storedRight_iff property text

/-- The value `abc` for an array of four bytes. -/
theorem strings_stored_iff_abc :
    (StoredRight ⟨0, 4⟩ (directUpdateText ⟨0, 4⟩ ⟨ascii "abc", by decide⟩) ↔ 3 < 4) ∧
      (((true = false) ∧
        ([⟨ascii "k", .string, 4, .string (ascii "abc" ++ [0])⟩] : List ActionInput)[0]? =
          some ⟨ascii "k", .string, 4, .string []⟩) ∨
        ∃ bytes, ([⟨ascii "k", .string, 4, .string (ascii "abc" ++ [0])⟩] : List ActionInput)[0]? =
            some ⟨ascii "k", .string, 4, .string bytes⟩ ∧
          (StoredRight ⟨0, 4⟩ (memcpy 0 bytes) ↔ 3 < 4)) := by
  have h := strings_stored_iff ⟨0, 4⟩ ⟨ascii "abc", by decide⟩
  exact ⟨h.1, h.2 (fun _ => none) (ascii "\x7b\"k\":\"abc\"\x7d" ++ [0])
    [⟨ascii "k", .string, 4, .string []⟩] [⟨ascii "k", .string, 4, .string (ascii "abc" ++ [0])⟩]
    true 0 ⟨ascii "k", .string, 4, .string []⟩ rfl rfl rfl (by decide +kernel) (by rfl)⟩

/-- The value `abcd` for an array of four bytes: `LITE_get_string` writes a NUL behind the
array, and `_parse_action_input` leaves none in it. -/
theorem strings_not_stored :
    (¬ ∀ (property : StringProperty) (text : CString),
      StoredRight property (directUpdateText property text)) ∧
    ¬ ∀ (property : StringProperty) (doc : Ptr) (input : ActionInput) (text bytes : List UInt8),
      input.type = .string → input.dataBuffLen = property.dataBuffLen.toNat →
      liteJsonValueOf input.key doc = .ok (some text) →
      parseActionInput (fun _ => none) doc [input] =
          .ok ([{ input with data := .string bytes }], true) →
        StoredRight property (memcpy property.data bytes) := by
  constructor
  · intro h
    have hright := h ⟨0, 4⟩ ⟨ascii "abcd", by decide⟩
    rw [directUpdateText_storedRight_iff] at hright
    exact absurd hright (by decide)
  · intro h
    have hright := h ⟨0, 4⟩ (ascii "\x7b\"k\":\"abcd\"\x7d" ++ [0])
      ⟨ascii "k", .string, 4, .string []⟩ (ascii "abcd") (ascii "abcd") rfl rfl
      (by decide +kernel) (by rfl)
    obtain ⟨i, hi, hzero⟩ := hright.terminated fun _ => 0
    have hcells : ∀ i < 4, memcpy 0 (ascii "abcd") (fun _ => 0) (0 + i) ≠ 0 := by decide
    exact hcells i hi hzero

end IotExplorer.StringStore
