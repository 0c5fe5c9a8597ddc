import IotExplorer.GatewayMessages

/-!
Texts that are printed into a buffer one behind another. Each print begins where the text of the
buffer ends, and what does not fit is cut off.
-/
namespace IotExplorer.PrintedTexts

open Basis.JsonText TemplateJson DeviceProperty ReportArray GatewayMessages

section Strings

/-- A text without quotes, backslashes and control characters. -/
abbrev Plain := {text : List UInt8 // plain text = true}

def shownText (text : Option Plain) : List UInt8 := text.elim (ascii "null") Subtype.val

theorem shownText_raw (text : Option Plain) : rawString (shownText text) = true := by
  cases text with
  | none => decide +kernel
  | some text => exact rawString_of_plain text.2

def textMember (name : String) (text : List UInt8) : Layout × Json := (member name, .string text)

section Members
variable {name : String} {members rest : List (Layout × Json)}

theorem membersWellFormed_nil : membersWellFormed [] = true := rfl

theorem membersWellFormed_member (hname : rawString (ascii name) = true) {value : Json}
    (hvalue : value.wellFormed = true) (hrest : membersWellFormed rest = true) :
    membersWellFormed ((member name, value) :: rest) = true := by
  simp [membersWellFormed, Layout.wellFormed, member, hname, hvalue, hrest]

theorem membersWellFormed_text (hname : rawString (ascii name) = true) {text : List UInt8}
    (htext : rawString text = true) (hrest : membersWellFormed rest = true) :
    membersWellFormed (textMember name text :: rest) = true :=
  membersWellFormed_member hname htext hrest

theorem object_wellFormed (h : membersWellFormed members = true) :
    (Json.object [] members).wellFormed = true := by
  rw [Json.wellFormed, h]
  rfl

end Members

end Strings

section Prints
variable {len : ℤ} {text out : List UInt8} {buffer : Buffer}

/-- What has been printed of a text in a buffer. -/
structure Printed (len : ℤ) (text : List UInt8) (buffer : Buffer) : Prop where
  text : buffer.text = text.take (len - 1).toNat
  inside : (buffer.reach : ℤ) ≤ len

theorem printAt_room {place : ℕ} {room : ℤ} (hplace : place ≤ buffer.text.length) (hroom : 0 < room)
    (hint : room < 2 ^ 31) (out : List UInt8) : printAt buffer place room out =
      (if out.length < 2 ^ 31 then (out.length : ℤ) else -1,
        ⟨buffer.text.take place ++ out.take (room.toNat - 1),
          max buffer.reach (place + (out.take (room.toNat - 1)).length + 1)⟩) := by
  unfold printAt
  rw [if_neg (Int.not_lt.mpr hroom.le), halSnprintf_eq (by omega) (by omega)]
  dsimp only
  rw [if_pos hplace]

theorem printed_nil {reach : ℕ} (hreach : (reach : ℤ) ≤ len) : Printed len [] ⟨[], reach⟩ :=
  ⟨List.take_nil.symm, hreach⟩

/-- How much is left of the buffer. -/
theorem Printed.left (h : Printed len text buffer) (hpos : 0 < len) :
    len - buffer.text.length = max 1 (len - text.length) := by
  rw [h.text, List.length_take]
  omega

/-- A print at the end of what has been printed. -/
theorem Printed.print (h : Printed len text buffer) (hpos : 0 < len) (hint : len < 2 ^ 31)
    (out : List UInt8) :
    Printed len (text ++ out)
      (printAt buffer buffer.text.length (len - buffer.text.length) out).2 := by
  have hleft := h.left hpos
  have hroom : (len - buffer.text.length).toNat - 1 = (len - 1).toNat - text.length := by omega
  have hkept : (out.take ((len - 1).toNat - text.length)).length ≤ (len - 1).toNat - text.length :=
    List.length_take_le ..
  have hinside := h.inside
  rw [printAt_room (Nat.le_refl _) (by omega) (by omega), hroom]
  constructor
  · dsimp only
    rw [List.take_length, h.text, List.take_append]
  · dsimp only
    push_cast
    omega

/-- A print at the end of the text fails if what is printed is too long. -/
theorem Printed.print_fails (h : Printed len text buffer) (hpos : 0 < len) (hint : len < 2 ^ 31) :
    (printAt buffer buffer.text.length (len - buffer.text.length) out).1 < 0 ↔
      ¬ out.length < 2 ^ 31 := by
  have hleft := h.left hpos
  rw [printAt_room (Nat.le_refl _) (by omega) (by omega)]
  split_ifs with hshort
  · exact iff_of_false (Int.not_lt.mpr (Int.natCast_nonneg _)) (not_not_intro hshort)
  · exact iff_of_true (Int.negSucc_lt_zero 0) hshort

/-- A print at a place with the room that was computed for it. In front of the buffer, and where the
room is negative, nothing bounds it: a `vsnprintf` that does not refuse such a size, as `printAt`
supposes, takes it for one without an end, and that is the behaviour that counts here. -/
def printBound (buffer : Buffer) (place room : ℤ) (out : List UInt8) : Option (ℤ × Buffer) :=
  if place < 0 ∨ room < 0 then none else some (printAt buffer place.toNat room out)

/-- A print at the end of what should have been printed, unless that is longer than the buffer. -/
theorem Printed.bound (h : Printed len text buffer) (hint : len < 2 ^ 31)
    (hout : out.length < 2 ^ 31) :
    (len < text.length ∧ printBound buffer text.length (len - text.length) out = none) ∨
      ((text.length : ℤ) ≤ len ∧ ∃ buffer',
        printBound buffer text.length (len - text.length) out = some ((out.length : ℤ), buffer') ∧
        Printed len (text ++ out) buffer') := by
  unfold printBound
  by_cases hlong : len < text.length
  · left
    exact ⟨hlong, if_pos (by omega)⟩
  · right
    have htext := h.text
    rw [if_neg (by omega), Int.toNat_natCast]
    by_cases hfull : (text.length : ℤ) = len
    · have hroom : len - text.length = 0 := by omega
      rw [hroom, printAt_zero _ _ hout]
      refine ⟨hfull.le, buffer, rfl, ?_, h.inside⟩
      rw [htext, List.take_append_of_le_length (by omega)]
    · have hkept : buffer.text.length = text.length := by
        rw [htext, List.length_take]
        omega
      have hprinted := h.print (by omega) hint out
      rw [hkept] at hprinted
      refine ⟨Int.not_lt.mp hlong, _, ?_, hprinted⟩
      rw [printAt_room hkept.ge (by omega) (by omega), if_pos hout]

/-- The first print into a buffer keeps what fits. -/
theorem printBound_start {buffer : Buffer} (hpos : 0 < len) (hint : len < 2 ^ 31)
    (out : List UInt8) :
    ∃ printed buffer', printBound buffer 0 len out = some (printed, buffer') ∧
      buffer'.text = out.take (len.toNat - 1) := by
  rw [printBound, if_neg (by omega), Int.toNat_zero, printAt_room (Nat.zero_le _) hpos hint]
  exact ⟨_, _, rfl, by rw [List.take_zero, List.nil_append]⟩

/-- A print that fits behind what has been printed. -/
theorem Printed.bound_fits (h : Printed len text buffer) (hint : len < 2 ^ 31)
    (hfits : ((text ++ out).length : ℤ) < len) : ∃ buffer',
      printBound buffer text.length (len - text.length) out = some ((out.length : ℤ), buffer') ∧
      Printed len (text ++ out) buffer' := by
  rw [List.length_append] at hfits
  push_cast at hfits
  rcases @Printed.bound len text out buffer h hint (by omega) with ⟨hlong, -⟩ | ⟨-, hprinted⟩
  · omega
  · exact hprinted

/-- A text that fits has been printed as it is. -/
theorem Printed.whole (h : Printed len text buffer) (hfits : (text.length : ℤ) < len) :
    buffer.text = text := by
  rw [h.text, List.take_of_length_le (by omega)]

end Prints

end IotExplorer.PrintedTexts
