import IotExplorer.ArrayFormat
import IotExplorer.ArrayParsers
import IotExplorer.PropertyUpdate

/-!
Numbers that `LITE_dt_format_primitive_array` wrote and `LITE_dt_parse_primitive_array`
reads. The parser counts the bytes of the output down to zero, so that a rest of
less than a number takes one more.
-/
namespace IotExplorer.ArrayRoundTrip

open Basis.JsonText Basis.Decimals Basis.Memory JsonParser JsonObjects TemplateJson DeviceProperty
open ArrayFormat ArrayParsers PropertyUpdate

section Walks
variable {text : List UInt8} {texts : List (List UInt8)} {rest : Ptr}

def NumberText (text : List UInt8) : Prop :=
  ∃ c body, text = c :: body ∧ c ≠ 0 ∧ (c = minus ∨ isDigit c = true) ∧
    ∀ d ∈ body, isDigit d = true

theorem numberText_signed (value : ℤ) : NumberText (signedText value) := by
  have hdigit : ∀ c ∈ decimal value.natAbs, isDigit c = true := isDigit_of_mem_decimal _
  unfold signedText sign
  by_cases hneg : value < 0
  · rw [decide_eq_true hneg, if_pos rfl]
    exact ⟨minus, decimal value.natAbs, rfl, by decide, .inl rfl, hdigit⟩
  · rw [decide_eq_false hneg, if_neg Bool.false_ne_true, List.nil_append]
    cases htext : decimal value.natAbs with
    | nil => exact absurd htext (decimal_ne_nil _)
    | cons c body =>
      rw [htext] at hdigit
      obtain ⟨hc, hbody⟩ := List.forall_mem_cons.mp hdigit
      refine ⟨c, body, rfl, ?_, .inr hc, hbody⟩
      rintro rfl
      exact absurd hc (by decide)

/-- The memory behind an element: the others, each with its comma, the bracket and the
NUL. -/
def remaining (rest : Ptr) (texts : List (List UInt8)) : Ptr :=
  (texts.map fun text => comma :: text).flatten ++ closeBracket :: 0 :: rest

theorem remaining_cons (rest : Ptr) (text : List UInt8) (texts : List (List UInt8)) :
    remaining rest (text :: texts) = comma :: (text ++ remaining rest texts) := by
  unfold remaining
  rw [List.map_cons, List.flatten_cons, List.cons_append, List.cons_append, List.append_assoc]

/-- The character behind an element. -/
theorem remaining_ends (rest : Ptr) (texts : List (List UInt8)) :
    ∃ c, remaining rest texts = c :: (remaining rest texts).tail ∧ endsNumber c = true ∧ c ≠ 0 := by
  cases texts with
  | nil => exact ⟨closeBracket, rfl, by decide, by decide⟩
  | cons text texts =>
    rw [remaining_cons]
    exact ⟨comma, rfl, by decide, by decide⟩

theorem length_le_remaining (rest : Ptr) (texts : List (List UInt8)) :
    texts.length ≤ (remaining rest texts).length := by
  induction texts with
  | nil => exact Nat.zero_le _
  | cons text texts ih =>
    rw [remaining_cons, List.length_cons, List.length_cons, List.length_append]
    omega

theorem arrayText_cons (rest : Ptr) (text : List UInt8) (texts : List (List UInt8)) :
    arrayText [comma] (text :: texts) ++ 0 :: rest =
      openBracket :: (text ++ remaining rest texts) := by
  have hinter : [comma].intercalate (text :: texts) =
      text ++ (texts.map fun text => comma :: text).flatten := by
    induction texts generalizing text with
    | nil => rw [List.intercalate_singleton, List.map_nil, List.flatten_nil, List.append_nil]
    | cons next texts ih =>
      rw [List.intercalate_cons_cons, ih, List.map_cons, List.flatten_cons, List.append_assoc]
      rfl
  unfold arrayText remaining
  rw [hinter]
  simp only [List.cons_append, List.append_assoc, List.nil_append]

/-- What the loop reports for an element. -/
def numberEntry (rest : Ptr) (text : List UInt8) (texts : List (List UInt8)) : Entry where
  key := []
  keyLen := 0
  val := text ++ remaining rest texts
  valLen := text.length
  valType := .number
  next := remaining rest texts

def numberEntries (rest : Ptr) : List (List UInt8) → List Entry
  | [] => []
  | text :: texts => numberEntry rest text texts :: numberEntries rest texts

theorem jsonGetNextObject_element (rest : Ptr) (htext : NumberText text)
    (texts : List (List UInt8)) :
    jsonGetNextObject .array (text ++ remaining rest texts) =
      .ok (some (numberEntry rest text texts)) := by
  obtain ⟨c, body, rfl, hzero, hfirst, hbody⟩ := htext
  obtain ⟨stop, hstop, hend, -⟩ := remaining_ends rest texts
  have hfind : findValue (c :: body ++ remaining rest texts) =
      .ok (some (.number, c :: body ++ remaining rest texts, body ++ remaining rest texts)) :=
    findValue_number hzero hfirst
  have hlen : valueLen .number (c :: body ++ remaining rest texts) (body ++ remaining rest texts) =
      .ok (c :: body).length := by
    show scanNumber _ _ = _
    rw [hstop, scanNumber_digits _ _ (fun d hmem => .inl (hbody d hmem)) hend, List.length_append,
      Nat.add_sub_cancel]
  show getValue [] 0 _ = _
  rw [getValue_of [] 0 hfind hlen, numberEntry, if_neg (by decide), Nat.add_zero, List.drop_left]

/-- The loop behind an element. -/
theorem walk_remaining (rest : Ptr) (htexts : ∀ text ∈ texts, NumberText text) (fuel : ℕ)
    (hfuel : texts.length < fuel) :
    walk .array fuel (remaining rest texts) = ⟨numberEntries rest texts, .finished⟩ := by
  induction texts generalizing fuel with
  | nil =>
    cases fuel with
    | zero => cases hfuel
    | succ fuel => rfl
  | cons text texts ih =>
    obtain ⟨htext, hrest⟩ := List.forall_mem_cons.mp htexts
    cases fuel with
    | zero => cases hfuel
    | succ fuel =>
      rw [remaining_cons]
      unfold walk
      rw [if_neg (by decide), if_neg (by decide), jsonGetNextObject_element rest htext]
      dsimp only [numberEntry]
      rw [ih hrest fuel (Nat.lt_of_succ_lt_succ hfuel)]
      rfl

/-- The loop over an array of numbers. -/
theorem forEach_numbers (rest : Ptr) (htexts : ∀ text ∈ texts, NumberText text) :
    forEach .array (arrayText [comma] texts ++ 0 :: rest) =
      ⟨numberEntries rest texts, .finished⟩ := by
  cases texts with
  | nil => rfl
  | cons text texts =>
    obtain ⟨htext, hrest⟩ := List.forall_mem_cons.mp htexts
    have hopen : jsonGetObject .array (openBracket :: (text ++ remaining rest texts)) =
        .ok (some (openBracket :: (text ++ remaining rest texts))) := rfl
    have hlong := length_le_remaining rest texts
    rw [arrayText_cons]
    unfold forEach
    rw [hopen]
    dsimp only
    unfold walk
    rw [if_neg (by decide), if_neg (by decide), jsonGetNextObject_element rest htext]
    dsimp only [numberEntry]
    rw [walk_remaining rest hrest _ (by simp only [List.length_cons, List.length_append]; omega)]
    rfl

end Walks

section Reading
variable {α : Type*} {mem : List UInt8} {text : List UInt8} {texts : List (List UInt8)} {rest : Ptr}

/-- The text that is converted for an element: the memory behind it is cut off. -/
theorem textAt_cut (front : List UInt8) (hnul : (0 : UInt8) ∉ text) (c : UInt8) (after : Ptr) :
    textAt (((front ++ (text ++ c :: after)).set (front.length + text.length) 0).drop
      front.length) =
      text := by
  have hset : (front ++ (text ++ c :: after)).set (front.length + text.length) 0 =
      front ++ (text ++ 0 :: after) := by
    rw [List.set_append_right _ _ (by omega), Nat.add_sub_cancel_left,
      List.set_append_right _ _ (Nat.le_refl _), Nat.sub_self, List.set_cons_zero]
  have hkept : ∀ d ∈ text, (d != 0) = true := fun d hmem =>
    bne_iff_ne.mpr fun hd => hnul (hd ▸ hmem)
  rw [hset, List.drop_left, textAt, List.takeWhile_append_of_pos hkept,
    List.takeWhile_cons_of_neg (by decide), List.append_nil]

/-- What a parser stores for numbers: the first ones, up to `room`, each by its text. -/
theorem stored_numbers (convert : List UInt8 → α) (full : ℕ → Bool) {room : ℕ}
    (hbefore : ∀ m, m < room → full m = false) (hroom : full room = true)
    (hnul : ∀ text ∈ texts, (0 : UInt8) ∉ text) (hmem : (remaining rest texts).tail <:+ mem)
    (n : ℕ) (hn : n ≤ room) :
    stored ⟨.number, full, fun p _ => convert (textAt p)⟩ mem n (numberEntries rest texts) =
      (texts.map convert).take (room - n) := by
  induction texts generalizing n with
  | nil =>
    rw [List.map_nil, List.take_nil]
    rfl
  | cons text texts ih =>
    obtain ⟨htext, hrest⟩ := List.forall_mem_cons.mp hnul
    obtain ⟨c, hc, -, -⟩ := remaining_ends rest texts
    rw [remaining_cons, List.tail_cons] at hmem
    obtain ⟨front, hfront⟩ := hmem
    unfold numberEntries stored
    dsimp only
    rcases Nat.lt_or_eq_of_le hn with hlt | rfl
    · have hstart : mem.length - (text ++ remaining rest texts).length = front.length := by
        rw [← hfront, List.length_append, Nat.add_sub_cancel]
      have hbehind : behind mem (numberEntry rest text texts) = front.length + text.length := by
        unfold behind numberEntry
        rw [hstart]
      have hcut : textAt ((mem.set (front.length + text.length) 0).drop front.length) = text := by
        rw [← hfront, hc]
        exact textAt_cut front htext c _
      have hnext : (remaining rest texts).tail <:+ mem := by
        rw [← hfront]
        refine List.IsSuffix.trans ?_ (List.suffix_append front _)
        exact (List.tail_suffix _).trans (List.suffix_append text _)
      have hstep : room - n = room - (n + 1) + 1 := by omega
      rw [if_neg (by rw [hbefore n hlt]; decide), hbehind]
      dsimp only [numberEntry]
      rw [hstart, hcut, ih hrest hnext (n + 1) hlt, List.map_cons, hstep, List.take_succ_cons]
    · rw [if_pos hroom, Nat.sub_self, List.take_zero]

theorem filter_numberEntries (rest : Ptr) (texts : List (List UInt8)) :
    ((numberEntries rest texts).filter fun entry => entry.valType = .number) =
      numberEntries rest texts := by
  rw [List.filter_eq_self]
  induction texts with
  | nil => exact fun entry hmem => absurd hmem List.not_mem_nil
  | cons text texts ih => exact List.forall_mem_cons.mpr ⟨by rfl, ih⟩

theorem remaining_suffix (rest : Ptr) (texts : List (List UInt8)) :
    (remaining rest texts).tail <:+ arrayText [comma] texts ++ 0 :: rest := by
  cases texts with
  | nil => exact ⟨[openBracket, closeBracket], rfl⟩
  | cons text texts =>
    rw [arrayText_cons, remaining_cons]
    exact List.suffix_cons ..

/-- How many numbers the parser stores for an output of this many bytes. -/
def slots (outLen : ℕ) : ℕ := if outLen < 2 ^ 63 then (outLen + 3) / 4 else 0

theorem ssize_of_lt {n : ℤ} (hlow : -2 ^ 63 ≤ n) (hhigh : n < 2 ^ 63) : ssize n = n :=
  Int.bmod_eq_of_le hlow hhigh

theorem slots_before {outLen m : ℕ} (hm : m < slots outLen) :
    decide (ssize ((outLen : ℤ) - 4 * m) ≤ 0) = false := by
  unfold slots at hm
  split_ifs at hm with hsmall
  · rw [ssize_of_lt (by omega) (by omega), decide_eq_false_iff_not]
    omega
  · cases hm

theorem slots_full {outLen : ℕ} (hout : outLen < 2 ^ 64) :
    decide (ssize ((outLen : ℤ) - 4 * slots outLen) ≤ 0) = true := by
  rw [decide_eq_true_eq]
  unfold slots
  split_ifs with hsmall
  · rw [ssize_of_lt (by omega) (by omega)]
    omega
  · have hwrap : ssize ((outLen : ℤ) - 4 * (0 : ℕ)) = outLen - 2 ^ 64 := by
      unfold ssize
      rw [Int.bmod_def]
      omega
    rw [hwrap]
    omega

/-- `LITE_dt_parse_primitive_array` on the text of numbers. -/
theorem parse_numbers (scanFloat : List UInt8 → Option UInt32) (rest : Ptr) (values : List Int32)
    {outLen : ℕ} (hout : outLen < 2 ^ 64) :
    ∃ result, liteDtParsePrimitiveArray scanFloat outLen .int32
        (arrayText [comma] (numberTexts values) ++ 0 :: rest) = some result ∧
      result.ending = .finished ∧
      result.results = (values.take (slots outLen)).map fun value => .int32 (some value.toInt) := by
  have hnumbers : ∀ text ∈ numberTexts values, NumberText text := by
    intro text hmem
    obtain ⟨value, -, rfl⟩ := List.mem_map.mp hmem
    exact numberText_signed _
  have hread : (numberTexts values).map (fun text => Primitive.int32 (scanInt 32 text)) =
      values.map fun value => Primitive.int32 (some value.toInt) := by
    rw [numberTexts, List.map_map]
    apply List.map_congr_left
    intro value _
    have hlow := Int32.le_toInt value
    have hhigh := Int32.toInt_lt value
    show Primitive.int32 (scanInt 32 (signedText value.toInt)) = _
    rw [scanInt_text (Int32.toInt_bmod value) (by omega) (by omega)]
  have hstored := stored_numbers (fun text => Primitive.int32 (scanInt 32 text))
    (fun n => decide (ssize ((outLen : ℤ) - 4 * n) ≤ 0)) (fun m => slots_before) (slots_full hout)
    (numberTexts_nul values) (remaining_suffix rest (numberTexts values)) 0 (Nat.zero_le _)
  rw [Nat.sub_zero, hread, ← List.map_take] at hstored
  refine ⟨_, rfl, ?_⟩
  rw [parseArray_eq, forEach_numbers rest hnumbers]
  unfold parsedAt
  rw [filter_numberEntries]
  dsimp only [List.nil_append, List.length_nil]
  rw [hstored]
  split
  · exact ⟨rfl, rfl⟩
  · exact ⟨rfl, rfl⟩

end Reading

section RoundTrips
variable {outSz outLen : ℕ}

/-- The numbers are written to a buffer, and its text is read into an output of `outLen`
bytes. -/
def writeAndRead (scanFloat : List UInt8 → Option UInt32) (mem : ℕ → UInt8)
    (values : List Int32) (outSz outLen : ℕ) : Option (Parsed Primitive) :=
  liteDtParsePrimitiveArray scanFloat outLen .int32
    (slice (liteDtFormatPrimitiveArray (.int32 values) (.start mem outSz)).2.mem 0 outSz)

/-- The numbers are read as they were written, as many as have room. -/
def RoundTrips (values : List Int32) (outLen : ℕ) (parsed : Option (Parsed Primitive)) : Prop :=
  ∃ result, parsed = some result ∧ result.ending = .finished ∧
    result.results.length = min (outLen / 4) values.length ∧
    result.results = (values.take (outLen / 4)).map fun value => .int32 (some value.toInt)

/-- There are no more numbers than bytes in their text with its NUL. -/
theorem length_le_arrayText (values : List Int32) :
    values.length ≤ (arrayText [comma] (numberTexts values)).length + 1 := by
  cases values with
  | nil => exact Nat.zero_le _
  | cons value values =>
    have htext := congrArg List.length
      (arrayText_cons [] (signedText value.toInt) (numberTexts values))
    have hlong := length_le_remaining [] (numberTexts values)
    have hcount : (numberTexts values).length = values.length := List.length_map ..
    have hcons : numberTexts (value :: values) = signedText value.toInt :: numberTexts values := rfl
    rw [hcons, List.length_cons]
    simp only [List.length_append, List.length_cons, List.length_nil] at htext
    omega

/-- Numbers are lost or come in addition exactly if the counts differ. -/
theorem roundTrips_iff_counts (scanFloat : List UInt8 → Option UInt32) (mem : ℕ → UInt8)
    (values : List Int32) (hsize : outSz < 2 ^ 31)
    (hroom : (arrayText [comma] (numberTexts values)).length < outSz) (hout : outLen < 2 ^ 64) :
    RoundTrips values outLen (writeAndRead scanFloat mem values outSz outLen) ↔
      min (slots outLen) values.length = min (outLen / 4) values.length := by
  have hcount := length_le_arrayText values
  obtain ⟨rest, hmem⟩ := primitive_printed mem values (by omega) hroom
  -- the buffer is too small for more elements than an int counts
  have hall : values.take (loopRounds values.length + 1) = values := by
    rw [loopRounds_short (by omega)]
    exact List.take_of_length_le (by omega)
  rw [hall] at hmem
  obtain ⟨result, hparsed, hending, hresults⟩ := parse_numbers scanFloat rest values hout
  unfold RoundTrips writeAndRead
  rw [hmem, hparsed]
  constructor
  · rintro ⟨result', heq, -, hlen, -⟩
    obtain rfl := Option.some.inj heq
    rw [hresults, List.length_map, List.length_take] at hlen
    exact hlen
  · intro hcounts
    refine ⟨result, rfl, hending, ?_, ?_⟩
    · rw [hresults, List.length_map, List.length_take, hcounts]
    · rw [hresults, List.take_eq_take_iff.mpr hcounts]

/-- The numbers are read back as they were written exactly if there are none, or if the
size of the output is one that `ssize_t` holds and is a multiple of four or has room for all
numbers. The buffer is one whose size an int holds, as `HAL_Snprintf` takes it. -/
theorem numbers_read_back_iff (scanFloat : List UInt8 → Option UInt32) (mem : ℕ → UInt8)
    (values : List Int32) (outSz outLen : ℕ) (hsize : outSz < 2 ^ 31)
    (hroom : (arrayText [comma] (numberTexts values)).length < outSz) (hout : outLen < 2 ^ 64) :
    RoundTrips values outLen (writeAndRead scanFloat mem values outSz outLen) ↔
      values = [] ∨ (outLen < 2 ^ 63 ∧ (4 ∣ outLen ∨ values.length ≤ outLen / 4)) := by
  rw [roundTrips_iff_counts scanFloat mem values hsize hroom hout, ← List.length_eq_zero_iff]
  unfold slots
  split_ifs <;> omega

/-- Three numbers and room for two. -/
theorem numbers_read_back_iff_three :
    RoundTrips [-5, 0, 7] 8 (writeAndRead (fun _ => none) (fun _ => 0) [-5, 0, 7] 16 8) ↔
      ([-5, 0, 7] : List Int32) = [] ∨
        (8 < 2 ^ 63 ∧ (4 ∣ 8 ∨ ([-5, 0, 7] : List Int32).length ≤ 8 / 4)) :=
  numbers_read_back_iff (fun _ => none) (fun _ => 0) [-5, 0, 7] 16 8 (by decide) (by decide)
    (by decide)

/-- Into an output of six bytes, which has room for one number, two numbers are read. -/
theorem numbers_not_read_back :
    ¬ ∀ (mem : ℕ → UInt8) (values : List Int32) (outSz outLen : ℕ), outSz < 2 ^ 31 →
      (arrayText [comma] (numberTexts values)).length < outSz → outLen < 2 ^ 63 →
        RoundTrips values outLen (writeAndRead (fun _ => none) mem values outSz outLen) := by
  intro h
  have hread := h (fun _ => 0) [1, 2] 16 6 (by decide) (by decide) (by decide)
  rw [roundTrips_iff_counts _ _ _ (by decide) (by decide) (by decide)] at hread
  exact absurd hread (by decide)

end RoundTrips

end IotExplorer.ArrayRoundTrip
