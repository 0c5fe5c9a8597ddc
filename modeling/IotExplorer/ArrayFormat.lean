import IotExplorer.Basis.Memory
import IotExplorer.DeviceProperty
import Mathlib.Data.List.GetD

/-!
The two writers of JSON arrays, `LITE_dt_format_strobj_array` and
`LITE_dt_format_primitive_array`. They print the array piece by piece, and take
what `HAL_Snprintf` returns off the size that is left. That is the length of the
whole piece, also where it did not fit; and the number of elements is turned into
an int.
-/
namespace IotExplorer.ArrayFormat

open Basis.JsonText Basis.Decimals Basis.Memory DeviceProperty

section Writers

inductive FormatCode where
  | success | failure | json
  deriving DecidableEq

/-- The output while it is written: the memory from `out_res` on, the offset of the
cursor and the size that is left. How far the memory was written to and whether the
size ever went below zero are remembered. -/
structure Output where
  mem : ℕ → UInt8
  pos : ℕ
  leftSz : ℕ
  reach : ℕ
  wrapped : Bool

def Output.start (mem : ℕ → UInt8) (outSz : ℕ) : Output := ⟨mem, 0, outSz, 0, false⟩

/-- An snprintf at the cursor: it writes at most `left_sz` bytes with the NUL, and
returns the length of the text; a length that no int holds is an error. `left_sz` is the
size_t of C99; the `len` of `HAL_Snprintf` is an int and agrees with it below 2^31. -/
def halSnprintf (text : List UInt8) (out : Output) : ℤ × Output :=
  (if text.length < 2 ^ 31 then text.length else -1,
    if out.leftSz = 0 then out
    else
      { out with
        mem := memcpy out.pos (text.take (out.leftSz - 1) ++ [0]) out.mem
        reach := max out.reach (out.pos + (text.take (out.leftSz - 1)).length + 1) })

/-- `p += ret` and `left_sz -= ret`. -/
def Output.advance (ret : ℤ) (out : Output) : Output :=
  { out with
    pos := (out.pos + ret).toNat
    leftSz := ((out.leftSz - ret) % 2 ^ 64).toNat
    wrapped := out.wrapped || (out.leftSz : ℤ) < ret }

/-- Pieces that are printed one after another, up to one for which nothing is returned. -/
def printPieces : List (List UInt8) → Output → Bool × Output
  | [], out => (true, out)
  | piece :: pieces, out =>
      let printed := halSnprintf piece out
      if printed.1 ≤ 0 then (false, printed.2)
      else printPieces pieces (printed.2.advance printed.1)

/-- The number of rounds of the loop over all elements but the last; the count is an int. -/
def loopRounds (count : ℕ) : ℕ := ((count : ℤ).bmod (2 ^ 32) - 1).toNat

def liteDtFormatStrobjArray (items : List CString) (out : Output) : FormatCode × Output :=
  let opened := printPieces [[openBracket]] out
  if !opened.1 then (.failure, opened.2)
  else
    let i := loopRounds items.length
    let looped := printPieces ((items.take i).map fun item => item.val ++ [comma, space]) opened.2
    if !looped.1 then (.failure, looped.2)
    else
      let closed : ℤ × Output :=
        match items[i]? with
        | some item => halSnprintf (item.val ++ [closeBracket]) looped.2
        | none => halSnprintf [closeBracket] looped.2
      (if closed.1 < 0 then .failure else .success, closed.2)

/-- The data of a primitive array by its `type`; a float is kept by its bits. -/
inductive PrimitiveData where
  | int32 (values : List Int32)
  | float (values : List UInt32)
  | other

/-- What `%d` and `%f` print for the elements. -/
def PrimitiveData.texts : PrimitiveData → Option (List (List UInt8))
  | .int32 values => some (values.map fun value => signedText value.toInt)
  | .float values => some (values.map fun bits => fixedText binary32 bits.toNat)
  | .other => none

/-- `LITE_dt_format_primitive_array`; a list that is not empty has an element at every
index the loop comes to. -/
def liteDtFormatPrimitiveArray (data : PrimitiveData) (out : Output) : FormatCode × Output :=
  match data.texts with
  | none => (.failure, out)
  | some texts =>
      if texts = [] then
        let printed := halSnprintf [openBracket, closeBracket] out
        (if 0 < printed.1 then .success else .failure, printed.2)
      else
        let opened := printPieces [[openBracket]] out
        if !opened.1 then (.failure, opened.2)
        else
          let i := loopRounds texts.length
          let looped := printPieces ((texts.take i).map fun text => text ++ [comma]) opened.2
          if !looped.1 then (.json, looped.2)
          else
            let closed := halSnprintf (texts.getD i [] ++ [closeBracket]) looped.2
            (if 0 < closed.1 then .success else .failure, closed.2)

def arrayText (separator : List UInt8) (elements : List (List UInt8)) : List UInt8 :=
  openBracket :: (separator.intercalate elements ++ [closeBracket])

end Writers

section Pieces
variable {outSz n : ℕ} {text piece : List UInt8} {out : Output}

/-- What was printed so far has length `n` and is not longer than the buffer; the rest of
the size is left. -/
structure Tracks (outSz n : ℕ) (out : Output) : Prop where
  pos : out.pos = n
  leftSz : out.leftSz + n = outSz
  reach : out.reach ≤ outSz
  wrapped : out.wrapped = false

/-- All that was printed fitted, and the output holds it. -/
structure Fits (outSz : ℕ) (text : List UInt8) (out : Output) : Prop
    extends Tracks outSz text.length out where
  room : text.length < outSz
  mem : slice out.mem 0 text.length = text

/-- Something was cut: the last byte of the buffer is NUL, and the cursor is behind it. -/
structure Cut (outSz : ℕ) (out : Output) : Prop where
  pos : outSz ≤ out.pos
  mem : out.mem (outSz - 1) = 0

theorem fits_start (mem : ℕ → UInt8) (hpos : 1 ≤ outSz) : Fits outSz [] (.start mem outSz) where
  pos := rfl
  leftSz := rfl
  room := hpos
  reach := Nat.zero_le _
  wrapped := rfl
  mem := slice_self mem 0

theorem snprintf_ret (h : piece.length < 2 ^ 31) : (halSnprintf piece out).1 = piece.length :=
  if_pos h

theorem snprintf_ret_long (h : 2 ^ 31 ≤ piece.length) : (halSnprintf piece out).1 = -1 :=
  if_neg (Nat.not_lt.mpr h)

/-- A write keeps to the size that is left. -/
theorem Tracks.snprintf (h : Tracks outSz n out) (piece : List UInt8) :
    Tracks outSz n (halSnprintf piece out).2 := by
  have hleft := h.leftSz
  have hpos := h.pos
  have hreach := h.reach
  unfold halSnprintf
  dsimp only
  split_ifs with hnone
  · exact h
  · refine ⟨hpos, hleft, ?_, h.wrapped⟩
    dsimp only
    rw [List.length_take]
    omega

theorem Tracks.advance (h : Tracks outSz n out) (hsize : outSz < 2 ^ 64) {ret : ℕ}
    (hfit : n + ret ≤ outSz) : Tracks outSz (n + ret) (out.advance ret) := by
  have hleft := h.leftSz
  have hpos := h.pos
  unfold Output.advance
  refine ⟨?_, ?_, h.reach, ?_⟩
  · dsimp only
    omega
  · dsimp only
    omega
  · dsimp only
    rw [h.wrapped, Bool.false_or, decide_eq_false_iff_not]
    omega

theorem Tracks.advance_wrapped (h : Tracks outSz n out) {ret : ℕ} (hfull : outSz < n + ret) :
    (out.advance ret).wrapped = true := by
  have hleft := h.leftSz
  unfold Output.advance
  dsimp only
  rw [h.wrapped, Bool.false_or, decide_eq_true_eq]
  omega

theorem snprintf_wrapped (h : out.wrapped = true) (piece : List UInt8) :
    (halSnprintf piece out).2.wrapped = true := by
  unfold halSnprintf
  dsimp only
  split_ifs
  · exact h
  · exact h

theorem advance_wrapped (h : out.wrapped = true) (ret : ℤ) : (out.advance ret).wrapped = true := by
  unfold Output.advance
  dsimp only
  rw [h, Bool.true_or]

/-- A write behind the buffer keeps what is in it. -/
theorem Cut.snprintf (h : Cut outSz out) (hpos : 1 ≤ outSz) (piece : List UInt8) :
    Cut outSz (halSnprintf piece out).2 := by
  have hbehind := h.pos
  unfold halSnprintf
  dsimp only
  split_ifs
  · exact h
  · refine ⟨hbehind, ?_⟩
    dsimp only
    rw [memcpy_outside (by omega)]
    exact h.mem

theorem Cut.advance (h : Cut outSz out) (ret : ℕ) : Cut outSz (out.advance ret) := by
  have hpos := h.pos
  refine ⟨?_, h.mem⟩
  unfold Output.advance
  dsimp only
  omega

/-- A piece that fits is written in full. -/
theorem Fits.snprintf (h : Fits outSz text out) (hfit : text.length + piece.length < outSz) :
    slice (halSnprintf piece out).2.mem 0 (text.length + piece.length + 1) =
      text ++ piece ++ [0] := by
  have hleft := h.leftSz
  have hpos := h.pos
  have hnone : out.leftSz ≠ 0 := by omega
  have hwhole : piece.take (out.leftSz - 1) = piece := List.take_of_length_le (by omega)
  unfold halSnprintf
  dsimp only
  rw [if_neg hnone, hwhole, hpos]
  rw [← slice_append _ (Nat.zero_le text.length) (by omega),
    slice_memcpy_outside (.inl (Nat.le_refl _)), h.mem, List.append_assoc]
  congr 1
  have hlen : text.length + piece.length + 1 = text.length + (piece ++ [0]).length := by
    rw [List.length_append, List.length_singleton, Nat.add_assoc]
  rw [hlen, slice_memcpy]

/-- A piece that does not fit fills the buffer up to its NUL. -/
theorem Fits.snprintf_cut (h : Fits outSz text out)
    (hfull : outSz ≤ text.length + piece.length) :
    (halSnprintf piece out).2.mem (outSz - 1) = 0 := by
  have hleft := h.leftSz
  have hpos := h.pos
  have hroom := h.room
  have hnone : out.leftSz ≠ 0 := by omega
  have hkept : (piece.take (out.leftSz - 1)).length = out.leftSz - 1 := by
    rw [List.length_take]
    omega
  unfold halSnprintf
  dsimp only
  rw [if_neg hnone]
  dsimp only
  have hlast : outSz - 1 = out.pos + (out.leftSz - 1) := by omega
  rw [hlast, memcpy_inside (by rw [List.length_append, hkept, List.length_singleton]; omega),
    List.getElem_append_right (by omega)]
  simp [hkept]

/-- A piece that fits, with the cursor moved behind it. -/
theorem Fits.advance (h : Fits outSz text out) (hsize : outSz < 2 ^ 64)
    (hfit : text.length + piece.length < outSz) :
    Fits outSz (text ++ piece) ((halSnprintf piece out).2.advance piece.length) := by
  have hsplit := slice_append (halSnprintf piece out).2.mem
    (Nat.zero_le (text.length + piece.length)) (Nat.le_succ _)
  rw [h.snprintf hfit] at hsplit
  have htracks := (h.toTracks.snprintf piece).advance hsize (Nat.le_of_lt hfit)
  rw [← List.length_append] at htracks hfit hsplit
  refine ⟨htracks, hfit, ?_⟩
  apply (List.append_inj' hsplit _).1
  rw [length_slice, List.length_singleton]
  omega

/-- A piece that was cut, with the cursor moved as if it had been written. -/
theorem Fits.advance_cut (h : Fits outSz text out) (hfull : outSz ≤ text.length + piece.length) :
    Cut outSz ((halSnprintf piece out).2.advance piece.length) := by
  have hpos := (h.toTracks.snprintf piece).pos
  refine ⟨?_, h.snprintf_cut hfull⟩
  unfold Output.advance
  dsimp only
  omega

end Pieces

section Runs
variable {outSz n : ℕ} {text : List UInt8} {out : Output} {pieces : List (List UInt8)}

/-- A piece that is printed and taken off the size: it is not empty, and an int holds its
length. -/
def Printable (piece : List UInt8) : Prop := piece ≠ [] ∧ piece.length < 2 ^ 31

/-- One round of the loop. -/
theorem printPieces_cons {piece : List UInt8} (hpiece : Printable piece) :
    printPieces (piece :: pieces) out =
      printPieces pieces ((halSnprintf piece out).2.advance piece.length) := by
  have hlen : piece.length ≠ 0 := by
    intro hzero
    exact hpiece.1 (List.length_eq_zero_iff.mp hzero)
  show (if (halSnprintf piece out).1 ≤ 0 then (false, (halSnprintf piece out).2)
    else printPieces pieces ((halSnprintf piece out).2.advance (halSnprintf piece out).1)) = _
  rw [snprintf_ret hpiece.2, if_neg (by omega)]

theorem printPieces_append {before : List (List UInt8)}
    (hbefore : ∀ piece ∈ before, Printable piece) :
    printPieces (before ++ pieces) out = printPieces pieces (printPieces before out).2 := by
  induction before generalizing out with
  | nil => rfl
  | cons piece before ih =>
    obtain ⟨hpiece, hrest⟩ := List.forall_mem_cons.mp hbefore
    rw [List.cons_append, printPieces_cons hpiece, printPieces_cons hpiece, ih hrest]

theorem printPieces_ok (hpieces : ∀ piece ∈ pieces, Printable piece) :
    (printPieces pieces out).1 = true := by
  induction pieces generalizing out with
  | nil => rfl
  | cons piece pieces ih =>
    obtain ⟨hpiece, hrest⟩ := List.forall_mem_cons.mp hpieces
    rw [printPieces_cons hpiece]
    exact ih hrest

/-- The loop stops at a piece that no int can count. -/
theorem printPieces_long {long : List UInt8} (hlong : 2 ^ 31 ≤ long.length) :
    printPieces (long :: pieces) out = (false, (halSnprintf long out).2) := by
  show (if (halSnprintf long out).1 ≤ 0 then (false, (halSnprintf long out).2)
    else printPieces pieces ((halSnprintf long out).2.advance (halSnprintf long out).1)) = _
  rw [snprintf_ret_long hlong, if_pos (by decide)]

theorem wrapped_printed (h : out.wrapped = true) (hpieces : ∀ piece ∈ pieces, Printable piece) :
    (printPieces pieces out).2.wrapped = true := by
  induction pieces generalizing out with
  | nil => exact h
  | cons piece pieces ih =>
    obtain ⟨hpiece, hrest⟩ := List.forall_mem_cons.mp hpieces
    rw [printPieces_cons hpiece]
    exact ih (advance_wrapped (snprintf_wrapped h piece) _) hrest

/-- The size that is left is right, or it went below zero. -/
theorem Tracks.printed (h : Tracks outSz n out) (hsize : outSz < 2 ^ 64)
    (hpieces : ∀ piece ∈ pieces, Printable piece) :
    (n + pieces.flatten.length ≤ outSz →
        Tracks outSz (n + pieces.flatten.length) (printPieces pieces out).2) ∧
      (outSz < n + pieces.flatten.length → (printPieces pieces out).2.wrapped = true) := by
  induction pieces generalizing n out with
  | nil =>
    have hleft := h.leftSz
    rw [List.flatten_nil, List.length_nil]
    exact ⟨fun _ => h, fun hfull => absurd hfull (by omega)⟩
  | cons piece pieces ih =>
    obtain ⟨hpiece, hrest⟩ := List.forall_mem_cons.mp hpieces
    have hlen : n + (piece :: pieces).flatten.length =
        n + piece.length + pieces.flatten.length := by
      rw [List.flatten_cons, List.length_append, Nat.add_assoc]
    rw [printPieces_cons hpiece, hlen]
    by_cases hfit : n + piece.length ≤ outSz
    · exact ih ((h.snprintf piece).advance hsize hfit) hrest
    · refine ⟨fun hall => absurd hall (by omega), fun _ => ?_⟩
      exact wrapped_printed ((h.snprintf piece).advance_wrapped (by omega)) hrest

/-- Behind a cut, printing goes on behind the buffer. -/
theorem Cut.printed (h : Cut outSz out) (hpos : 1 ≤ outSz)
    (hpieces : ∀ piece ∈ pieces, Printable piece) : Cut outSz (printPieces pieces out).2 := by
  induction pieces generalizing out with
  | nil => exact h
  | cons piece pieces ih =>
    obtain ⟨hpiece, hrest⟩ := List.forall_mem_cons.mp hpieces
    rw [printPieces_cons hpiece]
    exact ih ((h.snprintf hpos piece).advance _) hrest

/-- Pieces that follow what fits: they all fit, or something is cut. -/
theorem Fits.printed (h : Fits outSz text out) (hsize : outSz < 2 ^ 64)
    (hpieces : ∀ piece ∈ pieces, Printable piece) :
    (text.length + pieces.flatten.length < outSz →
        Fits outSz (text ++ pieces.flatten) (printPieces pieces out).2) ∧
      (outSz ≤ text.length + pieces.flatten.length → Cut outSz (printPieces pieces out).2) := by
  induction pieces generalizing text out with
  | nil =>
    have hroom := h.room
    rw [List.flatten_nil, List.append_nil, List.length_nil]
    exact ⟨fun _ => h, fun hfull => absurd hfull (by omega)⟩
  | cons piece pieces ih =>
    obtain ⟨hpiece, hrest⟩ := List.forall_mem_cons.mp hpieces
    have hlen : (piece :: pieces).flatten.length = piece.length + pieces.flatten.length := by
      rw [List.flatten_cons, List.length_append]
    rw [printPieces_cons hpiece, hlen, List.flatten_cons]
    by_cases hfit : text.length + piece.length < outSz
    · obtain ⟨hfits, hcut⟩ := ih (h.advance hsize hfit) hrest
      rw [List.length_append, List.append_assoc] at hfits
      rw [List.length_append] at hcut
      exact ⟨fun hall => hfits (by omega), fun hfull => hcut (by omega)⟩
    · have hpos : 1 ≤ outSz := Nat.one_le_of_lt h.room
      refine ⟨fun hall => absurd hall (by omega), fun _ => ?_⟩
      exact (h.advance_cut (Nat.le_of_not_lt hfit)).printed hpos hrest

end Runs

section Right

/-- What a writer has to do in a buffer of this size, for the text of an array. -/
structure FormatRight (outSz : ℕ) (text : List UInt8) (result : FormatCode × Output) : Prop where
  inside : result.2.reach ≤ outSz
  noWrap : result.2.wrapped = false
  complete : result.1 = .success → slice result.2.mem 0 (text.length + 1) = text ++ [0]

/-- A writer prints these pieces and, if it was not stopped, the last one. -/
structure Writes (pieces : List (List UInt8)) (last : List UInt8) (out : Output)
    (result : FormatCode × Output) : Prop where
  stopped : (printPieces pieces out).1 = false →
    result.1 ≠ .success ∧ result.2 = (printPieces pieces out).2
  ended : (printPieces pieces out).1 = true →
    (result.1 = .success ↔ last.length < 2 ^ 31) ∧
      result.2 = (halSnprintf last (printPieces pieces out).2).2

/-- The pieces in front of the first one whose length no int holds. -/
def counted (pieces : List (List UInt8)) : List (List UInt8) :=
  pieces.takeWhile fun piece => piece.length < 2 ^ 31

variable {outSz : ℕ} {mem : ℕ → UInt8} {text last : List UInt8} {pieces : List (List UInt8)}
  {result : FormatCode × Output} {small : Prop}

theorem counted_split {before after : List (List UInt8)} {long : List UInt8}
    (hbefore : ∀ piece ∈ before, piece.length < 2 ^ 31) (hlong : 2 ^ 31 ≤ long.length) :
    counted (before ++ long :: after) = before := by
  unfold counted
  rw [List.takeWhile_append_of_pos fun piece hmem => decide_eq_true (hbefore piece hmem),
    List.takeWhile_cons_of_neg (by simpa using hlong), List.append_nil]

/-- The first piece that is too long. -/
theorem exists_long (h : ¬ ∀ piece ∈ pieces, piece.length < 2 ^ 31) :
    ∃ before long after, pieces = before ++ long :: after ∧
      (∀ piece ∈ before, piece.length < 2 ^ 31) ∧ 2 ^ 31 ≤ long.length := by
  induction pieces with
  | nil => exact absurd (fun piece hmem => absurd hmem List.not_mem_nil) h
  | cons piece pieces ih =>
    by_cases hpiece : piece.length < 2 ^ 31
    · have hrest : ¬ ∀ piece ∈ pieces, piece.length < 2 ^ 31 := fun hall =>
        h (List.forall_mem_cons.mpr ⟨hpiece, hall⟩)
      obtain ⟨before, long, after, rfl, hbefore, hlong⟩ := ih hrest
      exact ⟨piece :: before, long, after, rfl, List.forall_mem_cons.mpr ⟨hpiece, hbefore⟩, hlong⟩
    · exact ⟨[], piece, pieces, rfl, fun _ hmem => absurd hmem List.not_mem_nil,
        Nat.le_of_not_lt hpiece⟩

/-- The memory of a complete text has no NUL in front of its end. -/
theorem length_le_of_nul {m : ℕ → UInt8} {i : ℕ} (hnul : (0 : UInt8) ∉ text)
    (hmem : slice m 0 (text.length + 1) = text ++ [0]) (hzero : m i = 0) : text.length ≤ i := by
  by_contra hlt
  have hcell : (slice m 0 (text.length + 1))[i]? = some (m i) := by
    simp only [slice, List.getElem?_map]
    rw [List.getElem?_range' (by omega)]
    simp
  rw [hmem, List.getElem?_append_left (by omega), List.getElem?_eq_getElem (by omega), hzero,
    Option.some.injEq] at hcell
  exact hnul (hcell ▸ List.getElem_mem _)

/-- What is printed and fits is complete, and stays inside the buffer. -/
theorem Writes.printed (h : Writes pieces last (.start mem outSz) result)
    (hsize : outSz < 2 ^ 64) (hpieces : ∀ piece ∈ pieces, Printable piece)
    (hroom : (pieces.flatten ++ last).length < outSz) :
    result.2.reach ≤ outSz ∧ result.2.wrapped = false ∧
      slice result.2.mem 0 ((pieces.flatten ++ last).length + 1) =
        pieces.flatten ++ last ++ [0] := by
  rw [List.length_append] at hroom ⊢
  have hfits := ((fits_start mem (by omega)).printed hsize hpieces).1
  rw [List.nil_append, List.length_nil, Nat.zero_add] at hfits
  have hbefore := hfits (by omega)
  have htracks := hbefore.toTracks.snprintf last
  rw [(h.ended (printPieces_ok hpieces)).2]
  exact ⟨htracks.reach, htracks.wrapped, hbefore.snprintf hroom⟩

/-- What is printed and does not fit ends with the buffer. -/
theorem Writes.cut (h : Writes pieces last (.start mem outSz) result) (hpos : 1 ≤ outSz)
    (hsize : outSz < 2 ^ 64) (hpieces : ∀ piece ∈ pieces, Printable piece)
    (hfull : outSz ≤ (pieces.flatten ++ last).length) : result.2.mem (outSz - 1) = 0 := by
  rw [List.length_append] at hfull
  obtain ⟨hfits, hcut⟩ := (fits_start mem hpos).printed hsize hpieces
  rw [List.length_nil, Nat.zero_add] at hfits hcut
  rw [List.nil_append] at hfits
  rw [(h.ended (printPieces_ok hpieces)).2]
  by_cases hbefore : pieces.flatten.length < outSz
  · exact (hfits hbefore).snprintf_cut hfull
  · exact ((hcut (by omega)).snprintf hpos last).mem

/-- Where an int holds the length of each piece, the writer is right exactly if it
prints the whole text (the count is `small`), and the text fits. -/
theorem Writes.right_counted (h : Writes pieces last (.start mem outSz) result)
    (hpos : 1 ≤ outSz) (hsize : outSz < 2 ^ 64) (hpieces : ∀ piece ∈ pieces, Printable piece)
    (hlast : last.length < 2 ^ 31) (hnul : (0 : UInt8) ∉ text)
    (hprinted : small ∧ pieces.flatten ++ last = text ∨
      ¬ small ∧ (pieces.flatten ++ last).length < text.length) :
    FormatRight outSz text result ↔ small ∧ text.length < outSz := by
  constructor
  · intro hright
    have hok := (h.ended (printPieces_ok hpieces)).1
    have hwhole := hright.complete (hok.mpr hlast)
    by_cases hroom : (pieces.flatten ++ last).length < outSz
    · -- the NUL behind what was printed
      have hend : result.2.mem (pieces.flatten ++ last).length = 0 := by
        obtain ⟨-, -, hmem⟩ := h.printed hsize hpieces hroom
        rw [← slice_append _ (Nat.zero_le (pieces.flatten ++ last).length) (Nat.le_succ _)] at hmem
        have hnull := (List.append_inj' hmem
          (by rw [length_slice, List.length_singleton]; omega)).2
        simpa [slice] using hnull
      have hle := length_le_of_nul hnul hwhole hend
      rcases hprinted with ⟨hsmall, heq⟩ | ⟨-, hlt⟩
      · exact ⟨hsmall, heq ▸ hroom⟩
      · omega
    · have hend := h.cut hpos hsize hpieces (Nat.le_of_not_lt hroom)
      have hle := length_le_of_nul hnul hwhole hend
      rcases hprinted with ⟨-, heq⟩ | ⟨-, hlt⟩
      · rw [heq] at hroom
        omega
      · omega
  · rintro ⟨hsmall, hroom⟩
    obtain ⟨-, rfl⟩ := hprinted.resolve_right fun hlong => hlong.1 hsmall
    obtain ⟨hreach, hwrapped, hmem⟩ := h.printed hsize hpieces hroom
    exact ⟨hreach, hwrapped, fun _ => hmem⟩

/-- Where a piece is too long for an int, the writer reports an error; it is right
exactly if what it printed in front of that piece is not longer than the buffer. -/
theorem right_stopped {before : List (List UInt8)} {long : List UInt8}
    (hpos : 1 ≤ outSz) (hsize : outSz < 2 ^ 64) (hbefore : ∀ piece ∈ before, Printable piece)
    (hcode : result.1 ≠ .success)
    (hout : result.2 = (halSnprintf long (printPieces before (.start mem outSz)).2).2) :
    FormatRight outSz text result ↔ before.flatten.length ≤ outSz := by
  obtain ⟨htracks, hwrap⟩ := (fits_start mem hpos).toTracks.printed hsize hbefore
  rw [List.length_nil, Nat.zero_add] at htracks hwrap
  constructor
  · intro hright
    by_contra hfull
    have hwrapped := snprintf_wrapped (hwrap (Nat.lt_of_not_le hfull)) long
    rw [← hout, hright.noWrap] at hwrapped
    cases hwrapped
  · intro hfit
    have hdone := (htracks hfit).snprintf long
    rw [← hout] at hdone
    exact ⟨hdone.reach, hdone.wrapped, fun hsuccess => absurd hsuccess hcode⟩

/-- When a writer is right. -/
theorem Writes.right_iff (h : Writes pieces last (.start mem outSz) result)
    (hpos : 1 ≤ outSz) (hsize : outSz < 2 ^ 64) (hpieces : ∀ piece ∈ pieces, piece ≠ [])
    (hnul : (0 : UInt8) ∉ text)
    (hprinted : small ∧ pieces.flatten ++ last = text ∨
      ¬ small ∧ (pieces.flatten ++ last).length < text.length) :
    FormatRight outSz text result ↔
      if (pieces ++ [last]).all (fun piece => piece.length < 2 ^ 31) then small ∧
        text.length < outSz
      else (counted (pieces ++ [last])).flatten.length ≤ outSz := by
  by_cases hshort : ∀ piece ∈ pieces, piece.length < 2 ^ 31
  · have hprintable : ∀ piece ∈ pieces, Printable piece := fun piece hmem =>
      ⟨hpieces piece hmem, hshort piece hmem⟩
    by_cases hlast : last.length < 2 ^ 31
    · have hall : (pieces ++ [last]).all (fun piece => piece.length < 2 ^ 31) = true := by
        rw [List.all_eq_true]
        intro piece hmem
        apply decide_eq_true
        rcases List.mem_append.mp hmem with hmem | hmem
        · exact hshort piece hmem
        · rw [List.mem_singleton.mp hmem]
          exact hlast
      rw [if_pos hall]
      exact h.right_counted hpos hsize hprintable hlast hnul hprinted
    · have hall : ¬ (pieces ++ [last]).all (fun piece => piece.length < 2 ^ 31) = true := by
        rw [List.all_eq_true]
        intro hall
        have hmem : last ∈ pieces ++ [last] := List.mem_append_right _ (List.mem_singleton_self _)
        exact hlast (of_decide_eq_true (hall last hmem))
      have hfront : counted (pieces ++ [last]) = pieces :=
        counted_split hshort (Nat.le_of_not_lt hlast)
      obtain ⟨hok, hout⟩ := h.ended (printPieces_ok hprintable)
      rw [if_neg hall, hfront]
      exact right_stopped hpos hsize hprintable (fun hsuccess => hlast (hok.mp hsuccess)) hout
  · have hall : ¬ (pieces ++ [last]).all (fun piece => piece.length < 2 ^ 31) = true := by
      rw [List.all_eq_true]
      intro hall
      apply hshort
      intro piece hmem
      exact of_decide_eq_true (hall piece (List.mem_append_left _ hmem))
    obtain ⟨before, long, after, rfl, hbefore, hlong⟩ := exists_long hshort
    have hprintable : ∀ piece ∈ before, Printable piece := fun piece hmem =>
      ⟨hpieces piece (List.mem_append_left _ hmem), hbefore piece hmem⟩
    have hrun : printPieces (before ++ long :: after) (.start mem outSz) =
        (false, (halSnprintf long (printPieces before (.start mem outSz)).2).2) := by
      rw [printPieces_append hprintable, printPieces_long hlong]
    obtain ⟨hcode, hout⟩ := h.stopped (by rw [hrun])
    rw [hrun] at hout
    rw [if_neg hall, List.append_assoc, List.cons_append, counted_split hbefore hlong]
    exact right_stopped hpos hsize hprintable hcode hout

end Right

section Arrays
variable {sep : List UInt8} {elements front back : List (List UInt8)}

variable (sep) in
theorem intercalate_append (hfront : front ≠ []) (hback : back ≠ []) :
    sep.intercalate (front ++ back) = sep.intercalate front ++ sep ++ sep.intercalate back := by
  induction front with
  | nil => exact absurd rfl hfront
  | cons x front ih =>
    cases front with
    | nil =>
      rw [List.singleton_append, List.intercalate_cons_of_ne_nil hback, List.intercalate_singleton]
    | cons y front =>
      rw [List.cons_append, List.intercalate_cons_of_ne_nil (by simp), ih (by simp),
        List.intercalate_cons_cons]
      simp only [List.append_assoc]

/-- The pieces of all elements but the last, which the separator follows, and the last. -/
theorem flatten_separated (elements : List (List UInt8)) (last : List UInt8) :
    (elements.map (· ++ sep)).flatten ++ last = sep.intercalate (elements ++ [last]) := by
  induction elements with
  | nil => rw [List.map_nil, List.flatten_nil, List.nil_append, List.nil_append,
      List.intercalate_singleton]
  | cons x elements ih =>
    rw [List.map_cons, List.flatten_cons, List.append_assoc, ih, List.cons_append,
      List.intercalate_cons_of_ne_nil (by simp)]

/-- The text of some of the elements of an array is shorter. -/
theorem arrayText_take {k : ℕ} (hsep : sep ≠ []) (hk : 1 ≤ k) (hlt : k < elements.length) :
    (arrayText sep (elements.take k)).length < (arrayText sep elements).length := by
  have hfront : elements.take k ≠ [] := by
    rw [← List.length_pos_iff, List.length_take]
    omega
  have hback : elements.drop k ≠ [] := by
    rw [← List.length_pos_iff, List.length_drop]
    omega
  have hlen : sep.length ≠ 0 := fun hzero => hsep (List.length_eq_zero_iff.mp hzero)
  have hall := intercalate_append sep hfront hback
  rw [List.take_append_drop] at hall
  unfold arrayText
  rw [hall]
  simp only [List.length_cons, List.length_append]
  omega

/-- How many elements a writer prints. -/
theorem loopRounds_short {n : ℕ} (h : n < 2 ^ 31) : loopRounds n = n - 1 := by
  have hn : (n : ℤ).bmod (2 ^ 32) = n := Int.bmod_eq_of_le (by omega) (by omega)
  unfold loopRounds
  rw [hn]
  omega

theorem loopRounds_long {n : ℕ} (h : 2 ^ 31 ≤ n) : loopRounds n + 1 < n := by
  have hlt := Int.bmod_lt (x := (n : ℤ)) (m := 2 ^ 32) (by decide)
  unfold loopRounds
  omega

/-- The pieces that a writer prints for these elements. -/
def arrayPieces (sep : List UInt8) (elements : List (List UInt8)) : List (List UInt8) :=
  [openBracket] :: (elements.take (loopRounds elements.length)).map (· ++ sep)

/-- The last piece; it has the last element, if there is one. -/
def lastPiece (elements : List (List UInt8)) : List UInt8 :=
  elements.getD (loopRounds elements.length) [] ++ [closeBracket]

theorem arrayPieces_ne_nil (hsep : sep ≠ []) : ∀ piece ∈ arrayPieces sep elements, piece ≠ [] := by
  intro piece hmem
  rcases List.mem_cons.mp hmem with rfl | hmem
  · exact List.cons_ne_nil _ _
  · obtain ⟨element, -, rfl⟩ := List.mem_map.mp hmem
    exact List.append_ne_nil_of_right_ne_nil _ hsep

variable (sep) in
/-- A writer prints the text of the elements that its loop comes to, and of the next. -/
theorem arrayPieces_flatten (hne : elements ≠ []) :
    (arrayPieces sep elements).flatten ++ lastPiece elements =
      arrayText sep (elements.take (loopRounds elements.length + 1)) := by
  have hpos : 0 < elements.length := List.length_pos_of_ne_nil hne
  have hindex : loopRounds elements.length < elements.length := by
    by_cases hshort : elements.length < 2 ^ 31
    · rw [loopRounds_short hshort]
      omega
    · have hlong := loopRounds_long (Nat.le_of_not_lt hshort)
      omega
  unfold arrayPieces lastPiece arrayText
  rw [List.flatten_cons, List.append_assoc, ← List.append_assoc _ _ [closeBracket],
    flatten_separated, List.take_add_one, List.getElem?_eq_getElem hindex,
    List.getD_eq_getElem _ _ hindex, Option.toList_some, List.singleton_append]

/-- The pieces are about as long as the elements. -/
theorem arrayPieces_length {k : ℕ} (h : ∀ element ∈ elements, element.length ≤ k) :
    ∀ piece ∈ arrayPieces sep elements, piece.length ≤ k + sep.length + 1 := by
  intro piece hmem
  rcases List.mem_cons.mp hmem with rfl | hmem
  · rw [List.length_singleton]
    omega
  · obtain ⟨element, helement, rfl⟩ := List.mem_map.mp hmem
    have hle := h element (List.mem_of_mem_take helement)
    rw [List.length_append]
    omega

theorem lastPiece_length {k : ℕ} (h : ∀ element ∈ elements, element.length ≤ k) :
    (lastPiece elements).length ≤ k + 1 := by
  unfold lastPiece
  rw [List.length_append, List.length_singleton]
  apply Nat.succ_le_succ
  by_cases hindex : loopRounds elements.length < elements.length
  · rw [List.getD_eq_getElem _ _ hindex]
    exact h _ (List.getElem_mem hindex)
  · rw [List.getD_eq_default _ _ (by omega)]
    exact Nat.zero_le k

/-- What is printed: the text of the array, or for too many elements a shorter one. -/
theorem arrayPieces_printed (hsep : sep ≠ []) (elements : List (List UInt8)) :
    (elements.length < 2 ^ 31 ∧
        (arrayPieces sep elements).flatten ++ lastPiece elements = arrayText sep elements) ∨
      (¬ elements.length < 2 ^ 31 ∧
        ((arrayPieces sep elements).flatten ++ lastPiece elements).length <
          (arrayText sep elements).length) := by
  by_cases hshort : elements.length < 2 ^ 31
  · refine .inl ⟨hshort, ?_⟩
    by_cases hne : elements = []
    · subst hne
      rfl
    · rw [arrayPieces_flatten sep hne, List.take_of_length_le]
      rw [loopRounds_short hshort]
      omega
  · have hlong := loopRounds_long (Nat.le_of_not_lt hshort)
    have hne : elements ≠ [] := by
      rintro rfl
      exact hshort (by decide)
    refine .inr ⟨hshort, ?_⟩
    rw [arrayPieces_flatten sep hne]
    exact arrayText_take hsep (by omega) hlong

end Arrays

section Results
variable {outSz : ℕ} {out : Output}

section Codes
variable {pieces : List (List UInt8)} {last : List UInt8} {code : FormatCode} {done : Output}

theorem writes_stopped (hrun : (printPieces pieces out).1 = false) (hcode : code ≠ .success)
    (hdone : done = (printPieces pieces out).2) : Writes pieces last out (code, done) := by
  constructor
  · intro _
    exact ⟨hcode, hdone⟩
  · intro hok
    rw [hrun] at hok
    cases hok

theorem writes_ended (hrun : (printPieces pieces out).1 = true)
    (hcode : code = .success ↔ last.length < 2 ^ 31)
    (hdone : done = (halSnprintf last (printPieces pieces out).2).2) :
    Writes pieces last out (code, done) := by
  constructor
  · intro hstop
    rw [hrun] at hstop
    cases hstop
  · intro _
    exact ⟨hcode, hdone⟩

/-- A formatter prints the opening bracket, the pieces of its loop and a last text, whose
returned length decides. -/
theorem writes_opened (stopCode : FormatCode) (endCode : ℤ → FormatCode)
    (hstop : stopCode ≠ .success)
    (hend : ∀ done, endCode (halSnprintf last done).1 = .success ↔ last.length < 2 ^ 31) :
    Writes ([openBracket] :: pieces) last out
      (let opened := printPieces [[openBracket]] out
        if !opened.1 then (.failure, opened.2)
        else
          let looped := printPieces pieces opened.2
          if !looped.1 then (stopCode, looped.2)
          else
            let closed := halSnprintf last looped.2
            (endCode closed.1, closed.2)) := by
  have hopened : (printPieces [[openBracket]] out).1 = true := rfl
  have hloop : printPieces ([openBracket] :: pieces) out =
      printPieces pieces (printPieces [[openBracket]] out).2 := rfl
  dsimp only
  rw [← hloop, if_neg (by rw [hopened]; decide)]
  cases hrun : (printPieces ([openBracket] :: pieces) out).1 with
  | false => exact writes_stopped hrun hstop rfl
  | true => exact writes_ended hrun (hend _) rfl

end Codes

theorem strobj_writes (items : List CString) :
    Writes (arrayPieces [comma, space] (items.map Subtype.val)) (lastPiece (items.map Subtype.val))
      out (liteDtFormatStrobjArray items out) := by
  have hlast (done : Output) :
      (match items[loopRounds items.length]? with
        | some item => halSnprintf (item.val ++ [closeBracket]) done
        | none => halSnprintf [closeBracket] done) =
      halSnprintf (lastPiece (items.map Subtype.val)) done := by
    unfold lastPiece
    rw [List.length_map, List.getD_eq_getElem?_getD, List.getElem?_map]
    cases items[loopRounds items.length]? <;> rfl
  have hpieces : (items.take (loopRounds items.length)).map
      (fun item => item.val ++ [comma, space]) =
      ((items.map Subtype.val).take (loopRounds (items.map Subtype.val).length)).map
        (· ++ [comma, space]) := by
    rw [List.length_map, ← List.map_take, List.map_map]
    rfl
  unfold arrayPieces liteDtFormatStrobjArray
  rw [← hpieces]
  dsimp only
  rw [hlast]
  refine writes_opened .failure (fun ret => if ret < 0 then .failure else .success)
    (fun hsuccess => FormatCode.noConfusion hsuccess) fun done => ?_
  by_cases hint : (lastPiece (items.map Subtype.val)).length < 2 ^ 31
  · rw [snprintf_ret hint, if_neg (by omega)]
    exact iff_of_true rfl hint
  · rw [snprintf_ret_long (Nat.le_of_not_lt hint), if_pos (by decide)]
    exact iff_of_false (fun hsuccess => FormatCode.noConfusion hsuccess) hint

theorem primitive_writes {texts : List (List UInt8)} {data : PrimitiveData}
    (htexts : data.texts = some texts) (hne : texts ≠ []) :
    Writes (arrayPieces [comma] texts) (lastPiece texts) out
      (liteDtFormatPrimitiveArray data out) := by
  have hlast : texts.getD (loopRounds texts.length) [] ++ [closeBracket] = lastPiece texts := rfl
  have hlen : (lastPiece texts).length ≠ 0 := by
    rw [lastPiece, List.length_append, List.length_singleton]
    omega
  unfold arrayPieces liteDtFormatPrimitiveArray
  rw [htexts]
  dsimp only
  rw [hlast, if_neg hne]
  refine writes_opened .json (fun ret => if 0 < ret then .success else .failure)
    (fun hsuccess => FormatCode.noConfusion hsuccess) fun done => ?_
  by_cases hint : (lastPiece texts).length < 2 ^ 31
  · rw [snprintf_ret hint, if_pos (by omega)]
    exact iff_of_true rfl hint
  · rw [snprintf_ret_long (Nat.le_of_not_lt hint), if_neg (by decide)]
    exact iff_of_false (fun hsuccess => FormatCode.noConfusion hsuccess) hint

/-- An empty array is printed at once. -/
theorem primitive_writes_nil {data : PrimitiveData} (htexts : data.texts = some []) :
    Writes [] [openBracket, closeBracket] out (liteDtFormatPrimitiveArray data out) := by
  unfold liteDtFormatPrimitiveArray
  rw [htexts]
  constructor
  · intro hstop
    cases hstop
  · intro _
    exact ⟨iff_of_true rfl (by decide), rfl⟩

/-- The text of an array of C strings or of numbers. -/
theorem arrayText_nul {sep : List UInt8} {elements : List (List UInt8)} (hsep : (0 : UInt8) ∉ sep)
    (helements : ∀ element ∈ elements, (0 : UInt8) ∉ element) :
    (0 : UInt8) ∉ arrayText sep elements := by
  have hinter : (0 : UInt8) ∉ sep.intercalate elements := by
    induction elements with
    | nil => exact List.not_mem_nil
    | cons x elements ih =>
      obtain ⟨hx, hrest⟩ := List.forall_mem_cons.mp helements
      cases elements with
      | nil =>
        rw [List.intercalate_singleton]
        exact hx
      | cons y elements =>
        rw [List.intercalate_cons_cons]
        intro hmem
        rcases List.mem_append.mp hmem with hmem | hmem
        · rcases List.mem_append.mp hmem with hmem | hmem
          · exact hx hmem
          · exact hsep hmem
        · exact ih hrest hmem
  unfold arrayText
  intro hmem
  rcases List.mem_cons.mp hmem with hmem | hmem
  · exact absurd hmem (by decide)
  · rcases List.mem_append.mp hmem with hmem | hmem
    · exact hinter hmem
    · exact absurd hmem (by decide)

theorem signedText_nul (value : ℤ) : (0 : UInt8) ∉ signedText value := by
  have hdigits : (0 : UInt8) ∉ decimal value.natAbs := by
    intro hmem
    exact absurd (isDigit_of_mem_decimal _ _ hmem) (by decide)
  unfold signedText sign
  intro hmem
  rcases List.mem_append.mp hmem with hmem | hmem
  · split_ifs at hmem
    · exact absurd hmem (by decide)
    · exact List.not_mem_nil hmem
  · exact hdigits hmem

theorem signedText_length (value : Int32) : (signedText value.toInt).length ≤ 11 := by
  have hlow := Int32.le_toInt value
  have hhigh := Int32.toInt_lt value
  have hdigits : (decimal value.toInt.natAbs).length ≤ 10 := by
    rw [decimal_length_le_iff _ _ (by decide)]
    omega
  unfold signedText sign
  rw [List.length_append]
  split_ifs
  · rw [List.length_singleton]
    omega
  · rw [List.length_nil]
    omega
/-- When `LITE_dt_format_strobj_array` is right. -/
theorem strobj_right_iff (mem : ℕ → UInt8) (items : List CString) (hpos : 1 ≤ outSz)
    (hsize : outSz < 2 ^ 64) :
    let elements := items.map Subtype.val
    let pieces := arrayPieces [comma, space] elements ++ [lastPiece elements]
    FormatRight outSz (arrayText [comma, space] elements)
        (liteDtFormatStrobjArray items (.start mem outSz)) ↔
      if pieces.all (fun piece => piece.length < 2 ^ 31) then
        items.length < 2 ^ 31 ∧ (arrayText [comma, space] elements).length < outSz
      else (counted pieces).flatten.length ≤ outSz := by
  dsimp only
  have hprinted := arrayPieces_printed (List.cons_ne_nil comma [space]) (items.map Subtype.val)
  have hnul : (0 : UInt8) ∉ arrayText [comma, space] (items.map Subtype.val) := by
    apply arrayText_nul (by decide)
    intro element hmem
    obtain ⟨item, -, rfl⟩ := List.mem_map.mp hmem
    exact item.property
  rw [List.length_map] at hprinted
  exact (strobj_writes items).right_iff hpos hsize (arrayPieces_ne_nil (List.cons_ne_nil _ _)) hnul
    hprinted

def numberTexts (values : List Int32) : List (List UInt8) :=
  values.map fun value => signedText value.toInt

theorem int32_texts (values : List Int32) :
    (PrimitiveData.int32 values).texts = some (numberTexts values) := rfl

theorem numberTexts_length (values : List Int32) :
    ∀ text ∈ numberTexts values, text.length ≤ 11 := by
  intro text hmem
  obtain ⟨value, -, rfl⟩ := List.mem_map.mp hmem
  exact signedText_length value

theorem numberTexts_nul (values : List Int32) :
    ∀ text ∈ numberTexts values, (0 : UInt8) ∉ text := by
  intro text hmem
  obtain ⟨value, -, rfl⟩ := List.mem_map.mp hmem
  exact signedText_nul _

/-- All that the writer prints for numbers is short. -/
theorem arrayPieces_printable (values : List Int32) :
    (∀ piece ∈ arrayPieces [comma] (numberTexts values), Printable piece) ∧
      (lastPiece (numberTexts values)).length < 2 ^ 31 := by
  constructor
  · intro piece hmem
    refine ⟨arrayPieces_ne_nil (List.cons_ne_nil _ _) piece hmem, ?_⟩
    exact Nat.lt_of_le_of_lt (arrayPieces_length (numberTexts_length values) piece hmem) (by decide)
  · exact Nat.lt_of_le_of_lt (lastPiece_length (numberTexts_length values)) (by decide)

/-- When `LITE_dt_format_primitive_array` is right. -/
theorem primitive_right_iff (mem : ℕ → UInt8) (values : List Int32) (hpos : 1 ≤ outSz)
    (hsize : outSz < 2 ^ 64) :
    let text := arrayText [comma] (values.map fun value => signedText value.toInt)
    FormatRight outSz text (liteDtFormatPrimitiveArray (.int32 values) (.start mem outSz)) ↔
      values.length < 2 ^ 31 ∧ text.length < outSz := by
  show FormatRight outSz (arrayText [comma] (numberTexts values)) _ ↔
    values.length < 2 ^ 31 ∧ (arrayText [comma] (numberTexts values)).length < outSz
  by_cases hne : values = []
  · subst hne
    exact (primitive_writes_nil rfl).right_counted hpos hsize
      (fun piece hmem => absurd hmem List.not_mem_nil) (by decide) (by decide)
      (.inl ⟨by decide, rfl⟩)
  · have hprinted := arrayPieces_printed (List.cons_ne_nil comma []) (numberTexts values)
    rw [numberTexts, List.length_map] at hprinted
    have hwrites : Writes _ _ (.start mem outSz) _ :=
      primitive_writes (int32_texts values) fun hnil => hne (List.map_eq_nil_iff.mp hnil)
    obtain ⟨hpieces, hlast⟩ := arrayPieces_printable values
    exact hwrites.right_counted hpos hsize hpieces hlast
      (arrayText_nul (by decide) (numberTexts_nul values)) hprinted

/-- What `LITE_dt_format_primitive_array` leaves in a buffer that has room for the text: the
text of the elements that its loop comes to, and of the next. -/
theorem primitive_printed (mem : ℕ → UInt8) (values : List Int32) (hsize : outSz < 2 ^ 64)
    (hroom : (arrayText [comma] (numberTexts values)).length < outSz) :
    ∃ rest, slice (liteDtFormatPrimitiveArray (.int32 values) (.start mem outSz)).2.mem 0 outSz =
      arrayText [comma] (numberTexts (values.take (loopRounds values.length + 1))) ++
        0 :: rest := by
  have hwhole : ∀ {text : List UInt8} {m : ℕ → UInt8}, text.length < outSz →
      slice m 0 (text.length + 1) = text ++ [0] → ∃ rest, slice m 0 outSz = text ++ 0 :: rest := by
    intro text m hlt hmem
    refine ⟨slice m (text.length + 1) outSz, ?_⟩
    rw [← slice_append m (Nat.zero_le (text.length + 1)) hlt, hmem, List.append_assoc,
      List.singleton_append]
  by_cases hne : values = []
  · subst hne
    obtain ⟨-, -, hmem⟩ := (primitive_writes_nil (int32_texts [])).printed hsize
      (fun piece hmem => absurd hmem List.not_mem_nil) hroom
    exact hwhole hroom hmem
  · have hnumbers : numberTexts values ≠ [] := fun hnil => hne (List.map_eq_nil_iff.mp hnil)
    have hwrites : Writes _ _ (.start mem outSz) _ := primitive_writes (int32_texts values) hnumbers
    have hflatten := arrayPieces_flatten [comma] hnumbers
    have hlen : (numberTexts values).length = values.length := List.length_map ..
    have hshort : ((arrayPieces [comma] (numberTexts values)).flatten ++
        lastPiece (numberTexts values)).length < outSz := by
      rcases arrayPieces_printed (List.cons_ne_nil comma []) (numberTexts values) with
        ⟨-, heq⟩ | ⟨-, hlt⟩
      · rw [heq]
        exact hroom
      · omega
    obtain ⟨-, -, hmem⟩ := hwrites.printed hsize (arrayPieces_printable values).1 hshort
    rw [hflatten, hlen] at hmem hshort
    have htake : (numberTexts values).take (loopRounds values.length + 1) =
        numberTexts (values.take (loopRounds values.length + 1)) := List.map_take.symm
    rw [htake] at hmem hshort
    exact hwhole hshort hmem

end Results

section Main

/-- The array writers stay inside the buffer, keep their counter right and report
success for complete texts only, exactly if the text fits and an int holds the number
of elements; or, for items of which one is too long for an int, if what is printed in
front of that one is not longer than the buffer. -/
theorem arrays_formatted_iff (mem : ℕ → UInt8) (items : List CString) (values : List Int32)
    (outSz : ℕ) (hpos : 1 ≤ outSz) (hsize : outSz < 2 ^ 64) :
    let elements := items.map Subtype.val
    let pieces := arrayPieces [comma, space] elements ++ [lastPiece elements]
    let text := arrayText [comma] (values.map fun value => signedText value.toInt)
    (FormatRight outSz (arrayText [comma, space] elements)
        (liteDtFormatStrobjArray items (.start mem outSz)) ↔
      if pieces.all (fun piece => piece.length < 2 ^ 31) then
        items.length < 2 ^ 31 ∧ (arrayText [comma, space] elements).length < outSz
      else (counted pieces).flatten.length ≤ outSz) ∧
    (FormatRight outSz text (liteDtFormatPrimitiveArray (.int32 values) (.start mem outSz)) ↔
      values.length < 2 ^ 31 ∧ text.length < outSz) :=
  ⟨strobj_right_iff mem items hpos hsize, primitive_right_iff mem values hpos hsize⟩

/-- An array of two numbers in a buffer of eight bytes. -/
theorem arrays_formatted_iff_pair :
    (FormatRight 8 (arrayText [comma, space] [])
        (liteDtFormatStrobjArray [] (.start (fun _ => 0) 8)) ↔
      if (arrayPieces [comma, space] [] ++ [lastPiece []]).all
        (fun piece => piece.length < 2 ^ 31) then
        ([] : List CString).length < 2 ^ 31 ∧ (arrayText [comma, space] []).length < 8
      else (counted (arrayPieces [comma, space] [] ++ [lastPiece []])).flatten.length ≤ 8) ∧
    (FormatRight 8 (arrayText [comma] [[0x31], [0x2D, 0x32]])
        (liteDtFormatPrimitiveArray (.int32 [1, -2]) (.start (fun _ => 0) 8)) ↔
      2 < 2 ^ 31 ∧ (arrayText [comma] [[0x31], [0x2D, 0x32]]).length < 8) :=
  arrays_formatted_iff (fun _ => 0) [] [1, -2] 8 (by decide) (by decide)

/-- Two elements of three characters in a buffer of four bytes: the counter wraps, and the
last element is printed behind the buffer, by both writers. -/
theorem arrays_behind_buffer :
    (¬ ∀ (mem : ℕ → UInt8) (items : List CString) (outSz : ℕ), 1 ≤ outSz → outSz < 2 ^ 64 →
      FormatRight outSz (arrayText [comma, space] (items.map Subtype.val))
        (liteDtFormatStrobjArray items (.start mem outSz))) ∧
    ¬ ∀ (mem : ℕ → UInt8) (values : List Int32) (outSz : ℕ), 1 ≤ outSz → outSz < 2 ^ 64 →
      FormatRight outSz (arrayText [comma] (values.map fun value => signedText value.toInt))
        (liteDtFormatPrimitiveArray (.int32 values) (.start mem outSz)) := by
  constructor
  · intro h
    have hright := h (fun _ => 0)
      [⟨[0x61, 0x61, 0x61], by decide⟩, ⟨[0x62, 0x62, 0x62], by decide⟩] 4 (by decide) (by decide)
    exact absurd hright.inside (by decide)
  · intro h
    have hright := h (fun _ => 0) [111, 222] 4 (by decide) (by decide)
    exact absurd hright.inside (by decide +kernel)

end Main

end IotExplorer.ArrayFormat
