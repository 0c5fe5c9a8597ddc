import IotExplorer.JsonObjects

/-!
Dotted paths. A search by name in a nested object goes on in the members that
follow this object in the enclosing ones. The searches of a path are traced on
the members themselves, and compared with the value that the names reach inside
the nested objects.
-/
namespace IotExplorer.JsonPaths

open Basis.JsonText JsonParser JsonLookup JsonObjects

/-- The bytes of a string without quotes, backslashes, braces and brackets. -/
def plainByte (c : UInt8) : Bool :=
  c != quote && c != backslash && c != openBrace && c != closeBrace && c != openBracket &&
    c != closeBracket

/-- The first member of a kind, and those behind it. -/
def pick (kind : Layout × Json → Bool) : List (Layout × Json) → Option (Json × List (Layout × Json))
  | [] => none
  | member :: rest => if kind member then some (member.2, rest) else pick kind rest

/-- The value at which the searches of a path arrive: a search in a nested object goes over
its members and those that follow it. -/
def arrive : List (List UInt8) → List (Layout × Json) → Option Json
  | [], _ => none
  | name :: names, members =>
      match pick (filled name) members with
      | none => none
      | some (value, later) =>
          if names.isEmpty then some value
          else
            match value with
            | .object _ inner => arrive names (inner ++ later)
            | _ => none

/-- The value that the names reach inside the nested objects. -/
def follow : List (List UInt8) → Json → Option Json
  | [], value => some value
  | name :: names, .object _ members =>
      match pick (named name) members with
      | none => none
      | some (value, _) => follow names value
  | _ :: _, _ => none

/-- The text of a value; a string is without its quotes. -/
def contents : Json → List UInt8
  | .string raw => raw
  | value => value.text

/-- The text that is copied: an exponent is cut off. -/
def copied : Json → List UInt8
  | .string raw => raw
  | .number number => number.mantissa
  | value => value.text

/-- Where a path leaves the nested objects, or is led on by an empty string, no value is found
among the members that follow; and a value it reaches is not empty and has no exponent. -/
def Confined : List (List UInt8) → List (Layout × Json) → List (Layout × Json) → Prop
  | [], _, _ => True
  | name :: names, members, later =>
      match pick (named name) members with
      | none => arrive (name :: names) later = none
      | some (value, behind) =>
          if names.isEmpty then contents value ≠ [] ∧ plainNumber value = true
          else
            match value with
            | .object _ inner => Confined names inner (behind ++ later)
            | .string [] => arrive (name :: names) (behind ++ later) = none
            | _ => True

section Members
variable {name : List UInt8} {names : List (List UInt8)}
  {members later behind : List (Layout × Json)}
  {kind : Layout × Json → Bool} {v : Json}

theorem pick_append_none (h : pick kind members = none) :
    pick kind (members ++ later) = pick kind later := by
  induction members with
  | nil => rfl
  | cons member rest ih =>
    rw [pick] at h
    by_cases hkind : kind member = true
    · rw [if_pos hkind] at h
      cases h
    · rw [if_neg hkind] at h
      rw [List.cons_append, pick, if_neg hkind]
      exact ih h

theorem pick_append_some (later : List (Layout × Json)) (h : pick kind members = some (v, behind)) :
    pick kind (members ++ later) = some (v, behind ++ later) := by
  induction members with
  | nil => cases h
  | cons member rest ih =>
    rw [pick] at h
    rw [List.cons_append, pick]
    by_cases hkind : kind member = true
    · rw [if_pos hkind] at h ⊢
      obtain ⟨rfl, rfl⟩ := Prod.mk.inj (Option.some.inj h)
      rfl
    · rw [if_neg hkind] at h ⊢
      exact ih h

theorem pick_some (h : pick kind members = some (v, behind)) :
    ∃ layout, (layout, v) ∈ members ∧ kind (layout, v) = true ∧ behind <:+ members := by
  induction members with
  | nil => cases h
  | cons member rest ih =>
    obtain ⟨layout, value⟩ := member
    rw [pick] at h
    by_cases hkind : kind (layout, value) = true
    · rw [if_pos hkind] at h
      obtain ⟨rfl, rfl⟩ := Prod.mk.inj (Option.some.inj h)
      exact ⟨layout, List.mem_cons_self .., hkind, List.suffix_cons _ _⟩
    · rw [if_neg hkind] at h
      obtain ⟨layout', hmem, hkind', hsuffix⟩ := ih h
      exact ⟨layout', List.mem_cons_of_mem _ hmem, hkind', hsuffix.trans (List.suffix_cons _ _)⟩

theorem named_of_filled {member : Layout × Json} (h : filled name member = true) :
    named name member = true := by
  simp only [filled, Bool.and_eq_true] at h
  exact h.1.1

theorem filled_eq {member : Layout × Json} (hname : name ≠ []) (h : named name member = true) :
    filled name member = (scannedLen member.2 != 0) := by
  have hempty : name.isEmpty = false := by simpa using hname
  rw [named] at h
  rw [filled, h, hempty]
  rfl

theorem pick_filled_none (h : pick (named name) members = none) :
    pick (filled name) members = none := by
  induction members with
  | nil => rfl
  | cons member rest ih =>
    rw [pick] at h ⊢
    by_cases hnamed : named name member = true
    · rw [if_pos hnamed] at h
      cases h
    · rw [if_neg hnamed] at h
      rw [if_neg fun hfilled => hnamed (named_of_filled hfilled)]
      exact ih h

/-- A search finishes at the first member of the name, unless its value is empty. -/
theorem pick_filled (hname : name ≠ []) (h : pick (named name) members = some (v, behind)) :
    pick (filled name) members =
      if scannedLen v = 0 then pick (filled name) behind else some (v, behind) := by
  induction members with
  | nil => cases h
  | cons member rest ih =>
    rw [pick] at h ⊢
    by_cases hnamed : named name member = true
    · rw [if_pos hnamed] at h
      obtain ⟨rfl, rfl⟩ := Prod.mk.inj (Option.some.inj h)
      rw [filled_eq hname hnamed]
      by_cases hlen : scannedLen member.2 = 0
      · rw [if_pos hlen, if_neg (by simpa using hlen)]
      · rw [if_neg hlen, if_pos (by simpa using hlen)]
    · rw [if_neg hnamed] at h
      rw [if_neg fun hfilled => hnamed (named_of_filled hfilled)]
      exact ih h

theorem pick_append_congr (h : pick kind members = pick kind behind) :
    pick kind (members ++ later) = pick kind (behind ++ later) := by
  cases hpick : pick kind behind with
  | none => rw [pick_append_none (h.trans hpick), pick_append_none hpick]
  | some picked =>
    obtain ⟨value, rest⟩ := picked
    rw [pick_append_some later (h.trans hpick), pick_append_some later hpick]

/-- Names reach nothing inside a value that is no object. -/
theorem follow_none (hne : names ≠ []) (hv : jsonType v ≠ .object) : follow names v = none := by
  cases names with
  | nil => exact absurd rfl hne
  | cons name names =>
    cases v with
    | object blank members => exact absurd rfl hv
    | _ => rfl

theorem copied_length (v : Json) : (copied v).length = scannedLen v := by
  cases v <;> rfl

/-- What is copied is not empty. -/
theorem copied_arrive (h : arrive names members = some v) : copied v ≠ [] := by
  induction names generalizing members with
  | nil => cases h
  | cons name names ih =>
    rw [arrive] at h
    cases hpick : pick (filled name) members with
    | none =>
      rw [hpick] at h
      cases h
    | some picked =>
      obtain ⟨value, behind⟩ := picked
      rw [hpick] at h
      dsimp only at h
      split at h
      · obtain rfl := Option.some.inj h
        obtain ⟨layout, -, hfilled, -⟩ := pick_some hpick
        simp only [filled, Bool.and_eq_true, bne_iff_ne] at hfilled
        intro hempty
        apply hfilled.2
        rw [← copied_length, hempty]
        rfl
      · cases value with
        | object blank inner => exact ih h
        | _ => cases h

/-- The copy is the text of the value exactly if an exponent is not cut off. -/
theorem copied_eq_contents (hwf : v.wellFormed = true) :
    copied v = contents v ↔ plainNumber v = true := by
  cases v with
  | number number =>
    have hcontents : contents (.number number) = number.mantissa ++ number.exponent.getD [] := rfl
    rw [copied, hcontents, plainNumber, Option.isNone_iff_eq_none]
    simp only [Json.wellFormed, Number.wellFormed, Bool.and_eq_true] at hwf
    cases hpart : number.exponent with
    | none => simp
    | some exponent =>
      rw [hpart, Option.all_some] at hwf
      have hne : exponent ≠ [] := by
        rintro rfl
        cases hwf.2
      simpa using hne
  | _ => simp [copied, contents, plainNumber]

/-- The searches of a path copy what the names reach inside the nested objects exactly if the
path is confined. -/
theorem arrive_eq_follow_iff (hne : names ≠ []) (hnames : ∀ name ∈ names, name ≠ [])
    (blank : List UInt8) (hwf : membersWellFormed members = true) :
    (arrive names (members ++ later)).map copied =
    (follow names (.object blank members)).map contents ↔
      Confined names members later := by
  induction names generalizing blank members later with
  | nil => exact absurd rfl hne
  | cons name names ih =>
    have hname := hnames name (List.mem_cons_self ..)
    have hrest := fun name' hmem => hnames name' (List.mem_cons_of_mem name hmem)
    rw [follow, Confined]
    cases hpick : pick (named name) members with
    | none =>
      have harrive : arrive (name :: names) (members ++ later) = arrive (name :: names) later := by
        rw [arrive, pick_append_none (pick_filled_none hpick), arrive]
      rw [harrive]
      exact Option.map_eq_none_iff
    | some picked =>
      obtain ⟨value, behind⟩ := picked
      obtain ⟨layout, hmem, -, -⟩ := pick_some hpick
      have hvalue := (wellFormed_of_mem hwf hmem).2
      have hfilled := pick_filled hname hpick
      dsimp only
      by_cases hlast : names = []
      · subst hlast
        rw [List.isEmpty_nil, if_pos rfl, follow, Option.map_some]
        by_cases hempty : contents value = []
        · refine ⟨?_, fun h => absurd hempty h.1⟩
          intro heq
          rw [hempty] at heq
          obtain ⟨v, harrive, hcopied⟩ := Option.map_eq_some_iff.mp heq
          exact absurd hcopied (copied_arrive harrive)
        · have hlen : scannedLen value ≠ 0 := by
            intro hzero
            obtain rfl := (scannedLen_eq_zero hvalue).mp hzero
            exact hempty rfl
          rw [if_neg hlen] at hfilled
          rw [arrive, pick_append_some later hfilled]
          dsimp only
          rw [if_pos List.isEmpty_nil, Option.map_some, Option.some.injEq,
            copied_eq_contents hvalue]
          exact ⟨fun h => ⟨hempty, h⟩, fun h => h.2⟩
      · have hgo : ¬ names.isEmpty = true := by simpa using hlast
        rw [if_neg hgo]
        by_cases hlen : scannedLen value = 0
        · -- an empty string is passed over
          obtain rfl := (scannedLen_eq_zero hvalue).mp hlen
          rw [if_pos hlen] at hfilled
          have harrive : arrive (name :: names) (members ++ later) =
              arrive (name :: names) (behind ++ later) := by
            rw [arrive, pick_append_congr hfilled, arrive]
          rw [harrive, follow_none hlast (by simp [jsonType]), Option.map_none]
          exact Option.map_eq_none_iff
        · rw [if_neg hlen] at hfilled
          rw [arrive, pick_append_some later hfilled]
          dsimp only
          rw [if_neg hgo]
          cases value with
          | object blank' inner =>
            rw [Json.wellFormed, Bool.and_eq_true] at hvalue
            exact ih hlast hrest blank' hvalue.2
          | string raw =>
            rw [follow_none hlast (by simp [jsonType])]
            cases raw with
            | nil => exact absurd rfl hlen
            | cons c raw => exact ⟨fun _ => trivial, fun _ => rfl⟩
          | _ =>
            rw [follow_none hlast (by simp [jsonType])]
            exact ⟨fun _ => trivial, fun _ => rfl⟩

end Members

section Nesting
variable {mark₀ mark₁ : UInt8} {text text' : List UInt8}

/-- The text closes the brackets of this kind that it opens, and no others. -/
def Level (mark₀ mark₁ : UInt8) (text : List UInt8) : Prop :=
  ∀ depth rest, closesAtEnd mark₀ mark₁ depth (text ++ rest) = closesAtEnd mark₀ mark₁ depth rest

def bracketByte (c : UInt8) : Bool :=
  c == openBrace || c == closeBrace || c == openBracket || c == closeBracket

def Marks (mark₀ mark₁ : UInt8) : Prop :=
  mark₀ = openBrace ∧ mark₁ = closeBrace ∨ mark₀ = openBracket ∧ mark₁ = closeBracket

theorem Level.append (h : Level mark₀ mark₁ text) (h' : Level mark₀ mark₁ text') :
    Level mark₀ mark₁ (text ++ text') := by
  intro depth rest
  rw [List.append_assoc, h depth, h' depth]

theorem Level.nil : Level mark₀ mark₁ [] := fun _ _ => rfl

theorem Level.single {c : UInt8} (h₀ : c ≠ mark₀) (h₁ : c ≠ mark₁) : Level mark₀ mark₁ [c] := by
  intro depth rest
  rw [List.cons_append, List.nil_append, closesAtEnd, if_neg h₁, if_neg h₀]

theorem Level.wrap (hne : mark₀ ≠ mark₁) (h : Level mark₀ mark₁ text) :
    Level mark₀ mark₁ (mark₀ :: (text ++ [mark₁])) := by
  intro depth rest
  rw [List.cons_append, List.append_assoc, closesAtEnd, if_neg hne, if_pos rfl, h,
    List.cons_append, List.nil_append, closesAtEnd, if_pos rfl, if_neg (Nat.succ_ne_zero depth),
    Nat.add_sub_cancel]

/-- A text without brackets is level. -/
theorem level_of_all (hmarks : Marks mark₀ mark₁) (h : (text.all fun c => !bracketByte c) = true) :
    Level mark₀ mark₁ text := by
  induction text with
  | nil => exact Level.nil
  | cons c text ih =>
    rw [List.all_cons, Bool.and_eq_true] at h
    have hc : c ≠ mark₀ ∧ c ≠ mark₁ := by
      rcases hmarks with ⟨rfl, rfl⟩ | ⟨rfl, rfl⟩
      · constructor <;> rintro rfl <;> exact absurd h.1 (by decide)
      · constructor <;> rintro rfl <;> exact absurd h.1 (by decide)
    exact (Level.single hc.1 hc.2).append (ih h.2)

theorem level_blank (hmarks : Marks mark₀ mark₁) (h : text.all isBlank = true) :
    Level mark₀ mark₁ text := by
  apply level_of_all hmarks
  rw [List.all_eq_true] at h ⊢
  intro c hmem
  have hc := h c hmem
  simp only [isBlank, Bool.or_eq_true, beq_iff_eq] at hc
  rcases hc with ((rfl | rfl) | rfl) | rfl <;> decide

theorem level_plain (hmarks : Marks mark₀ mark₁) (h : text.all plainByte = true) :
    Level mark₀ mark₁ text := by
  apply level_of_all hmarks
  rw [List.all_eq_true] at h ⊢
  intro c hmem
  have hc := h c hmem
  simp only [plainByte, Bool.and_eq_true, bne_iff_ne] at hc
  simp only [bracketByte, Bool.not_eq_true', Bool.or_eq_false_iff, beq_eq_false_iff_ne]
  exact ⟨⟨⟨hc.1.1.1.2, hc.1.1.2⟩, hc.1.2⟩, hc.2⟩

/-- A token that is no bracket. -/
theorem level_token (hmarks : Marks mark₀ mark₁) {c : UInt8} (hc : bracketByte c = false) :
    Level mark₀ mark₁ [c] := by
  apply level_of_all hmarks
  rw [List.all_cons, hc]
  rfl

theorem level_array (hmarks : Marks mark₀ mark₁) (h : Level mark₀ mark₁ text) :
    Level mark₀ mark₁ (openBracket :: (text ++ [closeBracket])) := by
  rcases hmarks with ⟨rfl, rfl⟩ | ⟨rfl, rfl⟩
  · exact (Level.single (by decide) (by decide)).append
      (h.append (Level.single (by decide) (by decide)))
  · exact Level.wrap (by decide) h

theorem level_object (hmarks : Marks mark₀ mark₁) (h : Level mark₀ mark₁ text) :
    Level mark₀ mark₁ (openBrace :: (text ++ [closeBrace])) := by
  rcases hmarks with ⟨rfl, rfl⟩ | ⟨rfl, rfl⟩
  · exact Level.wrap (by decide) h
  · exact (Level.single (by decide) (by decide)).append
      (h.append (Level.single (by decide) (by decide)))

mutual

/-- A value whose strings have no brackets is level. -/
theorem level_text (hmarks : Marks mark₀ mark₁) : (value : Json) → value.wellFormed = true →
    value.spelled plainByte = true → Level mark₀ mark₁ value.text
  | .string raw, _, hspelled =>
      (level_token hmarks (by decide)).append
        ((level_plain hmarks hspelled).append (level_token hmarks (by decide)))
  | .number number, hwf, _ => by
      apply level_of_all hmarks
      apply Number.text_all _ (by decide) (by decide) hwf
      intro c hc
      cases hbracket : bracketByte c with
      | false => rfl
      | true =>
        simp only [bracketByte, Bool.or_eq_true, beq_iff_eq] at hbracket
        rcases hbracket with ((rfl | rfl) | rfl) | rfl <;> cases hc
  | .boolean value, _, _ => by
      apply level_of_all hmarks
      cases value <;> decide
  | .null, _, _ => level_of_all hmarks (by decide)
  | .array blank items, hwf, hspelled => by
      rw [Json.wellFormed, Bool.and_eq_true] at hwf
      rw [Json.text]
      exact level_array hmarks ((level_blank hmarks hwf.1).append
        (level_itemsText hmarks items hwf.2 hspelled))
  | .object blank members, hwf, hspelled => by
      rw [Json.wellFormed, Bool.and_eq_true] at hwf
      rw [Json.text]
      exact level_object hmarks ((level_blank hmarks hwf.1).append
        (level_membersText hmarks members hwf.2 hspelled))

theorem level_itemsText (hmarks : Marks mark₀ mark₁) : (items : List (Gaps × Json)) →
    itemsWellFormed items = true → itemsSpelled plainByte items = true →
    Level mark₀ mark₁ (itemsText items)
  | [], _, _ => Level.nil
  | (gaps, item) :: rest, hwf, hspelled => by
      simp only [itemsWellFormed, Bool.and_eq_true] at hwf
      obtain ⟨⟨⟨hbefore, hitem⟩, hafter⟩, hrest⟩ := hwf
      rw [itemsSpelled, Bool.and_eq_true] at hspelled
      have htext := level_text hmarks item hitem hspelled.1
      have hrestText := level_itemsText hmarks rest hrest hspelled.2
      rw [itemsText]
      apply (((level_blank hmarks hbefore).append htext).append (level_blank hmarks hafter)).append
      split
      · exact Level.nil
      · exact (level_token hmarks (c := comma) (by decide)).append hrestText

theorem level_membersText (hmarks : Marks mark₀ mark₁) : (members : List (Layout × Json)) →
    membersWellFormed members = true → membersSpelled plainByte members = true →
    Level mark₀ mark₁ (membersText members)
  | [], _, _ => Level.nil
  | (layout, value) :: rest, hwf, hspelled => by
      simp only [membersWellFormed, Layout.wellFormed, Bool.and_eq_true] at hwf
      obtain ⟨⟨⟨⟨⟨⟨hbefore, -⟩, hafterName⟩, hbeforeValue⟩, hafterValue⟩, hvalue⟩, hrest⟩ := hwf
      rw [membersSpelled, Bool.and_eq_true, Bool.and_eq_true] at hspelled
      have htext := level_text hmarks value hvalue hspelled.1.2
      have hrestText := level_membersText hmarks rest hrest hspelled.2
      have hfront : Level mark₀ mark₁ layout.front :=
        (level_blank hmarks hbefore).append ((level_token hmarks (c := quote) (by decide)).append
          ((level_plain hmarks hspelled.1.1).append
            ((level_token hmarks (c := quote) (by decide)).append
            ((level_blank hmarks hafterName).append
              ((level_token hmarks (c := colon) (by decide)).append
              (level_blank hmarks hbeforeValue))))))
      rw [membersText]
      apply ((hfront.append htext).append (level_blank hmarks hafterValue)).append
      split
      · exact Level.nil
      · exact (level_token hmarks (c := comma) (by decide)).append hrestText

end

theorem closesAtEnd_level (h : Level mark₀ mark₁ text) :
    closesAtEnd mark₀ mark₁ 0 (text ++ [mark₁]) = true := by
  rw [h, closesAtEnd, if_pos rfl, if_pos rfl]
  rfl

/-- A value whose strings have no brackets is scanned right. -/
theorem scansRight_plain (final : Bool) {value : Json} (hwf : value.wellFormed = true)
    (hspelled : value.spelled plainByte = true) : scansRight final value = true := by
  cases value with
  | string raw =>
    rw [scansRight, Bool.or_eq_true, bne_iff_ne]
    right
    intro hlast
    exact absurd (List.all_eq_true.mp hspelled backslash (List.mem_of_getLast? hlast)) (by decide)
  | array blank items =>
    rw [Json.wellFormed, Bool.and_eq_true] at hwf
    rw [scansRight, Json.text, List.tail_cons]
    have hmarks : Marks openBracket closeBracket := .inr ⟨rfl, rfl⟩
    exact closesAtEnd_level ((level_blank hmarks hwf.1).append
      (level_itemsText hmarks items hwf.2 hspelled))
  | object blank members =>
    rw [Json.wellFormed, Bool.and_eq_true] at hwf
    rw [scansRight, Json.text, List.tail_cons]
    have hmarks : Marks openBrace closeBrace := .inl ⟨rfl, rfl⟩
    exact closesAtEnd_level ((level_blank hmarks hwf.1).append
      (level_membersText hmarks members hwf.2 hspelled))
  | _ => rfl

end Nesting

section Searches
variable {src tail rest : Ptr} {pieces behind : List Piece} {piece : Piece} {name : List UInt8}
  {names : List (List UInt8)} {v : Json}

structure Plain (piece : Piece) : Prop where
  wellFormed : piece.WellFormed
  name : piece.member.1.name.all plainByte = true
  value : piece.member.2.spelled plainByte = true

theorem quiet_plain {text : List UInt8} (h : text.all plainByte = true) : quote ∉ text := by
  intro hmem
  exact absurd (List.all_eq_true.mp h quote hmem) (by decide)

theorem nameScansRight_plain {text : List UInt8} (h : text.all plainByte = true) :
    nameScansRight text = true := by
  have hnone : (text.dropWhile fun c => c != quote) = [] := by
    rw [List.dropWhile_eq_nil_iff]
    intro c hmem
    rw [bne_iff_ne]
    rintro rfl
    exact quiet_plain h hmem
  rw [nameScansRight, hnone]
  rfl

theorem scansUpTo_plain (h : ∀ piece ∈ pieces, Plain piece) :
    scansUpTo name (pieces.map Piece.member) = true := by
  induction pieces with
  | nil => rfl
  | cons piece pieces ih =>
    have hpiece := h piece (List.mem_cons_self ..)
    rw [List.map_cons, scansUpTo, nameScansRight_plain hpiece.name,
      scansRight_plain _ hpiece.wellFormed.value hpiece.value,
      ih fun piece' hmem => h piece' (List.mem_cons_of_mem piece hmem), Bool.or_true]
    rfl

theorem pick_none_of_findPiece (h : findPiece name pieces = none) :
    pick (filled name) (pieces.map Piece.member) = none := by
  induction pieces with
  | nil => rfl
  | cons piece pieces ih =>
    rw [findPiece] at h
    rw [List.map_cons, pick]
    by_cases hfilled : filled name piece.member = true
    · rw [if_pos hfilled] at h
      cases h
    · rw [if_neg hfilled] at h ⊢
      exact ih h

theorem pick_of_findPiece (tail : Ptr) (h : findPiece name pieces = some (piece, behind)) :
    pick (filled name) (pieces.map Piece.member) = some (piece.member.2, behind.map Piece.member) ∧
      piece ∈ pieces ∧ behind <:+ pieces ∧
      piece.member.2.text ++ streamText behind tail <:+ streamText pieces tail := by
  induction pieces with
  | nil => cases h
  | cons first pieces ih =>
    rw [findPiece] at h
    rw [List.map_cons, pick, streamText]
    by_cases hfilled : filled name first.member = true
    · rw [if_pos hfilled] at h ⊢
      obtain ⟨rfl, rfl⟩ := Prod.mk.inj (Option.some.inj h)
      exact ⟨rfl, List.mem_cons_self .., List.suffix_cons _ _,
        (List.suffix_append _ _).trans (List.suffix_append _ _)⟩
    · rw [if_neg hfilled] at h ⊢
      obtain ⟨hpick, hmem, hbehind, hsuffix⟩ := ih h
      refine ⟨hpick, List.mem_cons_of_mem _ hmem, hbehind.trans (List.suffix_cons _ _), ?_⟩
      exact hsuffix.trans ((List.suffix_append _ _).trans
        ((List.suffix_append _ _).trans (List.suffix_append _ _)))

theorem valuePtr_suffix (v : Json) (rest : Ptr) : valuePtr v rest <:+ v.text ++ rest := by
  cases v with
  | string raw =>
    refine ⟨[quote], ?_⟩
    simp [valuePtr, Json.text]
  | _ => exact List.suffix_rfl

theorem stepInto_eq (hmem : (0 : UInt8) ∈ src) :
    stepInto src name =
      (lookup name (forEach .object src)).map fun result => result.bind (found src false) := by
  obtain ⟨n, hn⟩ := strlen_of_mem hmem
  rw [stepInto, hn]
  dsimp only
  rw [jsonGetValueByName, hn]
  by_cases hzero : n = 0
  · subst hzero
    rw [if_pos rfl]
    cases src with
    | nil => cases hmem
    | cons c src =>
      have hc : c = 0 := by
        by_contra hc
        rw [strlen, if_neg hc] at hn
        cases hstrlen : strlen src with
        | error e =>
          rw [hstrlen] at hn
          cases hn
        | ok m =>
          rw [hstrlen] at hn
          cases hn
      rw [hc, forEach, jsonGetObject, if_pos rfl]
      rfl
  · rw [if_neg hzero]
    dsimp only
    rw [if_pos rfl]
    rcases lookup name (forEach .object src) with e | _ | entry <;> rfl

/-- A search in a value that is no object. -/
theorem stepInto_none (hmem : (0 : UInt8) ∈ src) (h : jsonGetObject .object src = .ok none) :
    stepInto src name = .ok none := by
  rw [stepInto_eq hmem, forEach, h]
  rfl

/-- A search in an object and what follows it. -/
theorem stepInto_stream (hsrc : jsonGetObject .object src = .ok (some (streamText pieces tail)))
    (hsuffix : streamText pieces tail <:+ src) (hplain : ∀ piece ∈ pieces, Plain piece)
    (htail : LastPart tail) :
    (findPiece name pieces = none ∧ stepInto src name = .ok none) ∨
      ∃ piece behind value, findPiece name pieces = some (piece, behind) ∧
        stepInto src name = .ok (some value) ∧
        src.drop value.start = valuePtr piece.member.2 (streamText behind tail) ∧
        value.len = scannedLen piece.member.2 := by
  have hmem : (0 : UInt8) ∈ src := by
    obtain ⟨c, rest, heq, -, hmem⟩ :=
      streamText_ends (fun piece h => (hplain piece h).wellFormed) htail
    exact hsuffix.mem (heq ▸ List.mem_cons_of_mem c hmem)
  have hnames : ∀ piece ∈ pieces,
      (keyName piece.member.1.name = name ↔ piece.member.1.name = name) := by
    intro piece h
    rw [keyName_of_quiet (quiet_plain (hplain piece h).name)]
  rw [stepInto_eq hmem]
  rcases lookup_object hsrc hsuffix (fun piece h => (hplain piece h).wellFormed) hnames htail
    (scansUpTo_plain hplain) with ⟨hnone, hlookup⟩ |
    ⟨piece, behind, entry, hpiece, hlookup, hval, hlen, htype⟩
  · left
    rw [hlookup]
    exact ⟨hnone, rfl⟩
  · right
    have hentry : entry.val <:+ src := by
      rw [hval]
      exact (valuePtr_suffix _ _).trans ((pick_of_findPiece tail hpiece).2.2.2.trans hsuffix)
    refine ⟨piece, behind, ⟨src.length - entry.val.length, entry.valLen, entry.valType⟩, hpiece, ?_,
      ?_, hlen⟩
    · rw [hlookup, Except.map, Option.bind_some, found, if_neg (by simp)]
    · rw [← hval]
      exact (List.suffix_iff_eq_drop.mp hentry).symm

/-- The members behind an object, with the end of this object in front of them. -/
def reopen (gap : List UInt8) : List Piece → List Piece
  | [] => []
  | piece :: pieces => ⟨gap ++ piece.pre, piece.member⟩ :: pieces

/-- The end of the text behind an object, likewise. -/
def reopenTail (gap : List UInt8) (pieces : List Piece) (tail : Ptr) : Ptr :=
  if pieces.isEmpty then gap ++ tail else tail

theorem streamText_reopen (front : List Piece) (gap : List UInt8) (pieces : List Piece)
    (tail : Ptr) :
    streamText front (gap ++ streamText pieces tail) =
      streamText (front ++ reopen gap pieces) (reopenTail gap pieces tail) := by
  induction front with
  | nil =>
    cases pieces with
    | nil => rfl
    | cons piece pieces =>
      rw [List.nil_append, reopen, reopenTail, if_neg (by simp), streamText, streamText, streamText,
        List.append_assoc]
  | cons first front ih => rw [streamText, ih, List.cons_append, streamText]

theorem reopen_members (gap : List UInt8) (pieces : List Piece) :
    (reopen gap pieces).map Piece.member = pieces.map Piece.member := by
  cases pieces <;> rfl

theorem lastPart_reopen {gap : List UInt8} (hgap : Between gap) (pieces : List Piece)
    (htail : LastPart tail) : LastPart (reopenTail gap pieces tail) := by
  unfold reopenTail
  split
  · obtain ⟨gap', after, rfl, hne, hgap'⟩ := htail
    exact ⟨gap ++ gap', after, by simp, by simp [hne], hgap.append hgap'⟩
  · exact htail

theorem plain_reopen {gap : List UInt8} (hgap : Between gap) (h : ∀ piece ∈ pieces, Plain piece) :
    ∀ piece ∈ reopen gap pieces, Plain piece := by
  cases pieces with
  | nil => simp [reopen]
  | cons first pieces =>
    intro piece hmem
    rcases List.mem_cons.mp hmem with rfl | hmem
    · have hfirst := h first (List.mem_cons_self ..)
      refine ⟨⟨hgap.append hfirst.wellFormed.between, ?_, hfirst.wellFormed.layout,
        hfirst.wellFormed.value⟩, hfirst.name, hfirst.value⟩
      simp [hfirst.wellFormed.apart]
    · exact h piece (List.mem_cons_of_mem first hmem)

theorem plain_memberPieces {pre : List UInt8} {members : List (Layout × Json)} (hpre : Between pre)
    (hne : pre ≠ []) (hwf : membersWellFormed members = true)
    (hspelled : membersSpelled plainByte members = true) :
    ∀ piece ∈ memberPieces pre members, Plain piece := by
  intro piece hmem
  have hpiece := memberPieces_wellFormed hpre hne hwf piece hmem
  have hmember : piece.member ∈ members := by
    rw [← memberPieces_members pre members]
    exact List.mem_map_of_mem hmem
  have hall := spelled_of_mem hspelled hmember
  exact ⟨hpiece, hall.1, hall.2⟩

theorem jsonGetObject_none {text : List UInt8} {c : UInt8} (htext : openBrace ∉ text)
    (hc : c ≠ space ∧ c ≠ openBrace) : jsonGetObject .object (text ++ c :: rest) = .ok none := by
  induction text with
  | nil =>
    rw [List.nil_append, jsonGetObject, if_neg hc.1, if_pos rfl, if_neg hc.2]
    split <;> rfl
  | cons c' text ih =>
    have hbrace : c' ≠ openBrace := fun h => htext (h ▸ List.mem_cons_self ..)
    rw [List.cons_append, jsonGetObject, if_pos rfl, if_neg hbrace]
    split
    · rfl
    · split
      · exact ih fun h => htext (List.mem_cons_of_mem c' h)
      · rfl

/-- What a search in a nested object goes over: its members and those behind it. -/
def within (blank : List UInt8) (inner : List (Layout × Json)) (behind : List Piece) : List Piece :=
  memberPieces (openBrace :: blank) inner ++
    reopen (lastGap (openBrace :: blank) inner ++ [closeBrace]) behind

/-- The end of the text in such a search. -/
def withinTail (blank : List UInt8) (inner : List (Layout × Json)) (behind : List Piece)
    (tail : Ptr) : Ptr :=
  reopenTail (lastGap (openBrace :: blank) inner ++ [closeBrace]) behind tail

theorem within_text (blank : List UInt8) (inner : List (Layout × Json)) (behind : List Piece)
    (tail : Ptr) :
    (Json.object blank inner).text ++ streamText behind tail =
      streamText (within blank inner behind) (withinTail blank inner behind tail) := by
  rw [within, withinTail, object_stream, ← streamText_reopen, List.append_assoc]
  rfl

theorem within_members (blank : List UInt8) (inner : List (Layout × Json)) (behind : List Piece) :
    (within blank inner behind).map Piece.member = inner ++ behind.map Piece.member := by
  rw [within, List.map_append, memberPieces_members, reopen_members]

theorem within_between {blank : List UInt8} {inner : List (Layout × Json)}
    (hwf : (Json.object blank inner).wellFormed = true) :
    Between (openBrace :: blank) ∧
      Between (lastGap (openBrace :: blank) inner ++ [closeBrace]) := by
  rw [Json.wellFormed, Bool.and_eq_true] at hwf
  have hpre : Between ([openBrace] ++ blank) :=
    (Between.of_mark (by decide)).append (Between.of_blank hwf.1)
  exact ⟨hpre, between_closeBrace hpre hwf.2⟩

theorem within_plain {blank : List UInt8} {inner : List (Layout × Json)}
    (hwf : (Json.object blank inner).wellFormed = true)
    (hspelled : (Json.object blank inner).spelled plainByte = true)
    (hbehind : ∀ piece ∈ behind, Plain piece) :
    ∀ piece ∈ within blank inner behind, Plain piece := by
  obtain ⟨hpre, hgap⟩ := within_between hwf
  rw [Json.wellFormed, Bool.and_eq_true] at hwf
  intro piece hmem
  rcases List.mem_append.mp hmem with hmem | hmem
  · exact plain_memberPieces hpre (List.cons_ne_nil _ _) hwf.2 hspelled piece hmem
  · exact plain_reopen hgap hbehind piece hmem

theorem within_object (blank : List UInt8) (inner : List (Layout × Json)) (behind : List Piece)
    (tail : Ptr) :
    jsonGetObject .object
        (streamText (within blank inner behind) (withinTail blank inner behind tail)) =
      .ok (some (streamText (within blank inner behind) (withinTail blank inner behind tail))) := by
  rw [← within_text, jsonGetObject_object, object_stream]

theorem mem_valuePtr (v : Json) (h : (0 : UInt8) ∈ rest) : (0 : UInt8) ∈ valuePtr v rest := by
  cases v <;> simp [valuePtr, h]

/-- A value that is no object has no object in front. -/
theorem jsonGetObject_value (hwf : v.wellFormed = true) (hspelled : v.spelled plainByte = true)
    (hobject : jsonType v ≠ .object) (rest : Ptr) :
    jsonGetObject .object (valuePtr v rest) = .ok none := by
  cases v with
  | string raw =>
    apply jsonGetObject_none _ (by decide)
    intro hmem
    exact absurd (List.all_eq_true.mp hspelled openBrace hmem) (by decide)
  | number number =>
    obtain ⟨d, ds, hmantissa, hfirst, -⟩ := Number.mantissa_cases hwf
    have hd : d ≠ space ∧ d ≠ openBrace := by
      constructor <;> rintro rfl <;> rcases hfirst with h | h <;> exact absurd h (by decide)
    rw [valuePtr, Json.text, Number.text, hmantissa]
    · exact jsonGetObject_none List.not_mem_nil hd
    · simp
  | boolean value => cases value <;> exact jsonGetObject_none List.not_mem_nil (by decide)
  | null => exact jsonGetObject_none List.not_mem_nil (by decide)
  | array blank items =>
    rw [valuePtr, Json.text]
    · exact jsonGetObject_none List.not_mem_nil (by decide)
    · simp
  | object blank members => exact absurd rfl hobject

/-- The searches of a path in an object and what follows it arrive at the value that they do
among the members. -/
theorem followNames_stream (hne : names ≠ [])
    (hsrc : jsonGetObject .object src = .ok (some (streamText pieces tail)))
    (hsuffix : streamText pieces tail <:+ src) (hplain : ∀ piece ∈ pieces, Plain piece)
    (htail : LastPart tail) :
    (arrive names (pieces.map Piece.member) = none ∧ followNames names src = .ok none) ∨
      ∃ v rest, arrive names (pieces.map Piece.member) = some v ∧
        followNames names src = .ok (some (valuePtr v rest, scannedLen v)) ∧
        (0 : UInt8) ∈ rest ∧ v.wellFormed = true := by
  induction names generalizing src pieces tail with
  | nil => exact absurd rfl hne
  | cons name names ih =>
    rw [followNames, arrive]
    rcases stepInto_stream hsrc hsuffix hplain htail with ⟨hnone, hstep⟩ |
      ⟨piece, behind, value, hpiece, hstep, hdrop, hlen⟩
    · left
      rw [hstep, pick_none_of_findPiece hnone]
      exact ⟨rfl, rfl⟩
    · obtain ⟨hpick, hmem, hbehind, -⟩ := pick_of_findPiece tail hpiece
      have hvalue := hplain piece hmem
      have hlater : ∀ piece ∈ behind, Plain piece := fun piece h => hplain piece (hbehind.mem h)
      obtain ⟨c, rest, heq, -, hnul⟩ :=
        streamText_ends (fun piece h => (hlater piece h).wellFormed) htail
      rw [hstep, hpick]
      dsimp only
      rw [hdrop, hlen]
      by_cases hlast : names = []
      · right
        subst hlast
        exact ⟨piece.member.2, streamText behind tail, rfl, rfl, heq ▸ List.mem_cons_of_mem c hnul,
          hvalue.wellFormed.value⟩
      · rw [if_neg (by simpa using hlast), if_neg (by simpa using hlast)]
        by_cases hobject : jsonType piece.member.2 = .object
        · cases hinner : piece.member.2 with
          | object blank inner =>
            have hwf := hvalue.wellFormed.value
            have hspelled := hvalue.value
            rw [hinner] at hwf hspelled
            have hptr : valuePtr (.object blank inner) (streamText behind tail) =
                streamText (within blank inner behind) (withinTail blank inner behind tail) :=
              within_text blank inner behind tail
            dsimp only
            rw [hptr, ← within_members blank inner behind]
            exact ih hlast (within_object blank inner behind tail) List.suffix_rfl
              (within_plain hwf hspelled hlater)
                (lastPart_reopen (within_between hwf).2 behind htail)
          | _ =>
            rw [hinner] at hobject
            cases hobject
        · left
          have hnone := jsonGetObject_value hvalue.wellFormed.value hvalue.value hobject
            (streamText behind tail)
          have hzero := mem_valuePtr piece.member.2 (heq ▸ List.mem_cons_of_mem c hnul)
          constructor
          · cases hscalar : piece.member.2 with
            | object blank inner =>
              rw [hscalar] at hobject
              exact absurd rfl hobject
            | _ => rfl
          · cases names with
            | nil => exact absurd rfl hlast
            | cons name' names =>
              rw [followNames, stepInto_none hzero hnone]

theorem copied_valuePtr (v : Json) (rest : Ptr) :
    (valuePtr v rest).take (scannedLen v) = copied v := by
  cases v with
  | string raw => exact List.take_left
  | number number =>
    have hvalue : valuePtr (.number number) rest =
        number.mantissa ++ (number.exponent.getD [] ++ rest) := by
      rw [← List.append_assoc]
      rfl
    rw [hvalue]
    exact List.take_left
  | _ => exact List.take_left

/-- The copy of a value ends where the scanner ends it. -/
theorem copy_valuePtr (hwf : v.wellFormed = true) (hmem : (0 : UInt8) ∈ rest) :
    ∃ n, strlen (valuePtr v rest) = .ok n ∧ scannedLen v ≤ n := by
  obtain ⟨m, hm⟩ := strlen_of_mem hmem
  have htext := printable_ne_zero (Json.printable_text v hwf)
  cases v with
  | string raw =>
    have hrest : strlen (quote :: rest) = .ok (m + 1) := by
      rw [strlen, if_neg (by decide), hm]
    exact ⟨_, strlen_append (printable_ne_zero (printable_of_rawString hwf)) hrest,
      Nat.le_add_right _ _⟩
  | number number =>
    refine ⟨_, strlen_append htext hm, ?_⟩
    rw [scannedLen, Json.text, Number.text, List.length_append]
    omega
  | _ => exact ⟨_, strlen_append htext hm, Nat.le_add_right _ _⟩

/-- A path in a well-formed object whose strings are plain is followed inside the nested objects
exactly if the object starts behind spaces and the path is confined, or nothing is to be found
behind another blank. -/
theorem liteJsonValueOf_follow_iff {lead trail blank : List UInt8} {members : List (Layout × Json)}
    (after : Ptr) (hlead : lead.all isBlank = true) (htrail : trail.all isBlank = true)
    (hwf : (Json.object blank members).wellFormed = true)
    (hspelled : (Json.object blank members).spelled plainByte = true) (hne : names ≠ [])
    (hnames : ∀ name ∈ names, name ≠ [] ∧ dot ∉ name) :
    liteJsonValueOf ([dot].intercalate names)
        (lead ++ ((Json.object blank members).text ++ (trail ++ 0 :: after))) =
          .ok ((follow names (.object blank members)).map contents) ↔
      if lead.all (· == space) then Confined names members []
      else follow names (.object blank members) = none := by
  have hnul : (0 : UInt8) ∈ lead ++
      ((Json.object blank members).text ++ (trail ++ 0 :: after)) := by
    simp
  rw [liteJsonValueOf, List.splitOn_intercalate dot (fun name hmem => (hnames name hmem).2) hne]
  by_cases hspaces : lead.all (· == space) = true
  · rw [if_pos hspaces]
    have hmembers := hwf
    rw [Json.wellFormed, Bool.and_eq_true] at hmembers
    have hconfined : (arrive names (members ++ [])).map copied =
        (follow names (.object blank members)).map contents ↔ Confined names members [] :=
      arrive_eq_follow_iff hne (fun name hmem => (hnames name hmem).1) blank hmembers.2
    have htail : LastPart (withinTail blank members [] (trail ++ 0 :: after)) := by
      refine ⟨lastGap (openBrace :: blank) members ++ [closeBrace] ++ trail, after, ?_, by simp,
        (within_between hwf).2.append (Between.of_blank htrail)⟩
      rw [withinTail, reopenTail, if_pos List.isEmpty_nil, List.append_assoc _ trail]
    have htext : (Json.object blank members).text ++ (trail ++ 0 :: after) =
        streamText (within blank members []) (withinTail blank members [] (trail ++ 0 :: after)) :=
      within_text blank members [] (trail ++ 0 :: after)
    have hsrc : jsonGetObject .object
        (lead ++ ((Json.object blank members).text ++ (trail ++ 0 :: after))) =
        .ok (some (streamText (within blank members [])
          (withinTail blank members [] (trail ++ 0 :: after)))) := by
      rw [jsonGetObject_spaces .object hspaces, htext, within_object]
    have hsuffix : streamText (within blank members [])
        (withinTail blank members [] (trail ++ 0 :: after)) <:+
          lead ++ ((Json.object blank members).text ++ (trail ++ 0 :: after)) :=
      htext ▸ List.suffix_append _ _
    rw [← hconfined, ← List.map_nil (f := Piece.member), ← within_members blank members []]
    rcases followNames_stream hne hsrc hsuffix (within_plain hwf hspelled (by simp)) htail with
      ⟨harrive, hfollow⟩ | ⟨v, rest, harrive, hfollow, hmem, hvalue⟩
    · rw [hfollow, harrive]
      dsimp only
      rw [Except.ok.injEq, Option.map_none]
    · obtain ⟨n, hn, hlen⟩ := copy_valuePtr hvalue hmem
      rw [hfollow, harrive]
      dsimp only
      rw [hn]
      dsimp only
      rw [Nat.min_eq_left hlen, copied_valuePtr, Except.ok.injEq, Option.map_some]
  · rw [if_neg hspaces]
    cases names with
    | nil => exact absurd rfl hne
    | cons name names =>
      rw [followNames, stepInto_none hnul (jsonGetObject_blank hlead hspaces)]
      dsimp only
      rw [Except.ok.injEq, eq_comm]
      exact Option.map_eq_none_iff

/-- In `{"a":{},"b":2}` the path `a.b` leads out of the nested object. -/
theorem liteJsonValueOf_sibling :
    (Json.object [] (members₂ (.object [] []) (.number ⟨false, [0x32], none, none⟩))).wellFormed =
        true ∧
      (Json.object [] (members₂ (.object [] []) (.number ⟨false, [0x32], none, none⟩))).spelled
        plainByte = true ∧
      (follow [[0x61], [0x62]]
        (.object [] (members₂ (.object [] []) (.number ⟨false, [0x32], none, none⟩)))).map
          contents =
          none ∧
      liteJsonValueOf ([dot].intercalate [[0x61], [0x62]])
          ((Json.object [] (members₂ (.object [] []) (.number ⟨false, [0x32], none, none⟩))).text ++
            [0]) = .ok (some [0x32]) := by
  decide

/-- In `{"a":{"a":true,"b":null},"b":2}` the path `a.b` is followed. -/
theorem liteJsonValueOf_nested :
    liteJsonValueOf ([dot].intercalate [[0x61], [0x62]])
        ([] ++ ((Json.object [] (members₂ (.object [] (members₂ (.boolean true) .null))
          (.number ⟨false, [0x32], none, none⟩))).text ++ ([] ++ 0 :: []))) = .ok (some nullText) :=
  (@liteJsonValueOf_follow_iff [[0x61], [0x62]] [] [] []
    (members₂ (.object [] (members₂ (.boolean true) .null)) (.number ⟨false, [0x32], none, none⟩))
    []
    rfl rfl rfl rfl (by decide) (by decide)).mpr ⟨by decide, rfl⟩

end Searches

end IotExplorer.JsonPaths
