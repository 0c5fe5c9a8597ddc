import IotExplorer.Basis.JsonScan
import Mathlib.Algebra.Ring.Int.Defs

/-!
The marks of a text outside of its strings: how many brackets are open, and whether two
marks follow each other that never do. The text of a value closes what it opens, and in it
no comma follows an opening bracket or another comma, and no closing bracket a comma.
-/
namespace IotExplorer.Basis.JsonMarks

open JsonText JsonScan

/-- The place in a text, the last mark outside of strings, the brackets that are open, and whether
two marks have clashed. -/
structure Marks where
  mode : Mode
  last : UInt8
  depth : ℤ
  bad : Bool
  deriving DecidableEq

/-- What a mark adds to the brackets that are open. -/
def weight (c : UInt8) : ℤ :=
  if c = openBrace ∨ c = openBracket then 1
  else if c = closeBrace ∨ c = closeBracket then -1
  else 0

/-- Two marks that do not follow each other in the text of a value. -/
def clash (last c : UInt8) : Bool :=
  (c == comma && (last == comma || last == colon || last == openBrace || last == openBracket)) ||
    ((c == closeBrace || c == closeBracket) && (last == comma || last == colon))

def Marks.step (s : Marks) (c : UInt8) : Marks :=
  match s.mode with
  | .outside =>
      if c = quote then { s with mode := .inside }
      else if isBlank c then s
      else ⟨.outside, c, s.depth + weight c, s.bad || clash s.last c⟩
  | .inside =>
      if c = backslash then { s with mode := .escaped }
      else if c = quote then { s with mode := .outside, last := quote }
      else s
  | .escaped => { s with mode := .inside }

def marks (s : Marks) (text : List UInt8) : Marks := text.foldl Marks.step s

@[simp] theorem marks_nil (s : Marks) : marks s [] = s := rfl

@[simp] theorem marks_cons (s : Marks) (c : UInt8) (text : List UInt8) :
    marks s (c :: text) = marks (s.step c) text := rfl

@[simp] theorem marks_append (s : Marks) (front back : List UInt8) :
    marks s (front ++ back) = marks (marks s front) back := List.foldl_append

section Values
variable {last : UInt8} {depth : ℤ} {bad : Bool} {text : List UInt8}

/-- A mark behind which a comma may follow, or a bracket may be closed. -/
def ended (c : UInt8) : Bool := c != comma && c != colon && c != openBrace && c != openBracket

theorem marks_blank (h : text.all isBlank = true) :
    marks ⟨.outside, last, depth, bad⟩ text = ⟨.outside, last, depth, bad⟩ := by
  induction text with
  | nil => rfl
  | cons c text ih =>
    rw [List.all_cons, Bool.and_eq_true] at h
    have hquote : c ≠ quote := by
      rintro rfl
      exact absurd h.1 (by decide)
    rw [marks_cons, Marks.step]
    dsimp only
    rw [if_neg hquote, if_pos h.1]
    exact ih h.2

theorem marks_rawString (h : rawString text = true) :
    marks ⟨.inside, last, depth, bad⟩ text = ⟨.inside, last, depth, bad⟩ := by
  apply foldl_rawString Marks.step ⟨.inside, last, depth, bad⟩ ⟨.escaped, last, depth, bad⟩ rfl
    (fun _ => rfl) _ h
  intro c hback hquote
  rw [Marks.step]
  dsimp only
  rw [if_neg hback, if_neg hquote]

theorem marks_string (h : rawString text = true) :
    marks ⟨.outside, last, depth, bad⟩ (quote :: (text ++ [quote])) =
      ⟨.outside, quote, depth, bad⟩ := by
  have hopen : Marks.step ⟨.outside, last, depth, bad⟩ quote = ⟨.inside, last, depth, bad⟩ := rfl
  rw [marks_cons, hopen, marks_append, marks_rawString h]
  rfl

/-- A mark outside of strings. -/
theorem step_mark {c : UInt8} (hquote : c ≠ quote) (hblank : isBlank c = false) :
    Marks.step ⟨.outside, last, depth, bad⟩ c =
      ⟨.outside, c, depth + weight c, bad || clash last c⟩ := by
  rw [Marks.step]
  dsimp only
  rw [if_neg hquote, hblank, if_neg Bool.false_ne_true]

/-- A mark that is no bracket, colon, comma or quote. -/
def bare (c : UInt8) : Bool :=
  c != quote && !isBlank c && c != comma && c != colon && c != openBrace && c != openBracket &&
    c != closeBrace && c != closeBracket

theorem marks_bare (h : text.all bare = true) (hne : text ≠ []) :
    ∃ last', ended last' = true ∧
      marks ⟨.outside, last, depth, bad⟩ text = ⟨.outside, last', depth, bad⟩ := by
  induction text generalizing last with
  | nil => exact absurd rfl hne
  | cons c text ih =>
    rw [List.all_cons, Bool.and_eq_true, bare] at h
    simp only [Bool.and_eq_true, bne_iff_ne, Bool.not_eq_true'] at h
    obtain ⟨⟨⟨⟨⟨⟨⟨⟨hquote, hblank⟩, hcomma⟩, hcolon⟩, hopen⟩, hopen'⟩, hclose⟩, hclose'⟩, hrest⟩ :=
      h
    have hweight : weight c = 0 := by
      rw [weight, if_neg (not_or.mpr ⟨hopen, hopen'⟩), if_neg (not_or.mpr ⟨hclose, hclose'⟩)]
    have hclash : clash last c = false := by
      rw [clash, beq_false_of_ne hcomma, beq_false_of_ne hclose, beq_false_of_ne hclose']
      rfl
    rw [marks_cons, step_mark hquote hblank, hweight, hclash, add_zero, Bool.or_false]
    by_cases hend : text = []
    · rw [hend]
      refine ⟨c, ?_, rfl⟩
      simp [ended, hcomma, hcolon, hopen, hopen']
    · exact ih hrest hend

theorem marks_number {number : Number} (h : number.wellFormed = true) :
    ∃ last', ended last' = true ∧
      marks ⟨.outside, last, depth, bad⟩ number.text = ⟨.outside, last', depth, bad⟩ := by
  have hdigit : ∀ c, isDigit c = true → bare c = true := by
    intro c hc
    have hnot : ∀ mark : UInt8, isDigit mark = false → c ≠ mark := by
      rintro mark hmark rfl
      exact absurd hc (by rw [hmark]; decide)
    simp only [bare, isBlank, Bool.and_eq_true, bne_iff_ne, Bool.not_eq_true',
      Bool.or_eq_false_iff, beq_eq_false_iff_ne]
    exact ⟨⟨⟨⟨⟨⟨⟨hnot _ rfl, ⟨⟨hnot _ rfl, hnot _ rfl⟩, hnot _ rfl⟩, hnot _ rfl⟩, hnot _ rfl⟩,
      hnot _ rfl⟩, hnot _ rfl⟩, hnot _ rfl⟩, hnot _ rfl⟩, hnot _ rfl⟩
  apply marks_bare (Number.text_all hdigit (by decide) (by decide) h)
  obtain ⟨c, rest, hmantissa, -⟩ := Number.mantissa_cases h
  rw [Number.text, hmantissa]
  exact List.cons_ne_nil _ _

/-- A member up to its value ends with its colon. -/
theorem marks_front {layout : Layout} (h : layout.wellFormed = true) :
    marks ⟨.outside, last, depth, bad⟩ layout.front = ⟨.outside, colon, depth, bad⟩ := by
  simp only [Layout.wellFormed, Bool.and_eq_true] at h
  obtain ⟨⟨⟨⟨hbefore, hname⟩, hafterName⟩, hbeforeValue⟩, -⟩ := h
  have hsplit : layout.front = layout.before ++ (quote :: (layout.name ++ [quote])) ++
      (layout.afterName ++ colon :: layout.beforeValue) := by
    simp [Layout.front]
  rw [hsplit, marks_append, marks_append _ layout.before, marks_append _ layout.afterName,
    marks_blank hbefore, marks_string hname, marks_blank hafterName, marks_cons,
    step_mark (by decide) (by decide), marks_blank hbeforeValue,
    show weight colon = 0 by decide, show clash quote colon = false by decide, add_zero,
    Bool.or_false]

/-- A comma behind a mark that ends something. -/
theorem step_comma (h : ended last = true) :
    Marks.step ⟨.outside, last, depth, bad⟩ comma = ⟨.outside, comma, depth, bad⟩ := by
  have hclash : clash last comma = false := by
    simp only [ended, Bool.and_eq_true, bne_iff_ne] at h
    obtain ⟨⟨⟨hcomma, hcolon⟩, hopen⟩, hopen'⟩ := h
    simp [clash, hcomma, hcolon, hopen, hopen', show ¬ comma = closeBrace by decide,
      show ¬ comma = closeBracket by decide]
  rw [step_mark (by decide) (by decide), hclash, show weight comma = 0 by decide, add_zero,
    Bool.or_false]

/-- A mark behind which a bracket may be closed. -/
def closable (c : UInt8) : Bool := c != comma && c != colon

theorem closable_of_ended {c : UInt8} (h : ended c = true) : closable c = true := by
  simp only [ended, Bool.and_eq_true] at h
  rw [closable, Bool.and_eq_true]
  exact h.1.1

/-- A bracket that is closed. -/
theorem step_close {c : UInt8} (hc : c = closeBrace ∨ c = closeBracket)
    (h : closable last = true) :
    Marks.step ⟨.outside, last, depth, bad⟩ c = ⟨.outside, c, depth - 1, bad⟩ := by
  have hclash : clash last c = false := by
    simp only [closable, Bool.and_eq_true, bne_iff_ne] at h
    rcases hc with rfl | rfl <;>
      simp [clash, h.1, h.2, show ¬ closeBrace = comma by decide,
        show ¬ closeBracket = comma by decide]
  have hweight : weight c = -1 := by
    rcases hc with rfl | rfl <;> decide
  rcases hc with rfl | rfl <;>
    rw [step_mark (by decide) (by decide), hclash, hweight, Bool.or_false, sub_eq_add_neg]

/-- A bracket that is opened. -/
theorem step_open {c : UInt8} (hc : c = openBrace ∨ c = openBracket) :
    Marks.step ⟨.outside, last, depth, bad⟩ c = ⟨.outside, c, depth + 1, bad⟩ := by
  rcases hc with rfl | rfl
  · rw [step_mark (by decide) (by decide), show clash last openBrace = false from rfl,
      show weight openBrace = 1 by decide, Bool.or_false]
  · rw [step_mark (by decide) (by decide), show clash last openBracket = false from rfl,
      show weight openBracket = 1 by decide, Bool.or_false]

mutual

/-- The text of a value closes what it opens, and no marks in it clash. -/
theorem marks_value : (value : Json) → value.wellFormed = true → ∀ last depth bad,
    ∃ last', ended last' = true ∧
      marks ⟨.outside, last, depth, bad⟩ value.text = ⟨.outside, last', depth, bad⟩
  | .string raw, h, last, depth, bad => ⟨quote, by decide, marks_string h⟩
  | .number number, h, last, depth, bad => marks_number h
  | .boolean value, _, last, depth, bad => by
      cases value <;> exact marks_bare (by decide) (by decide)
  | .null, _, last, depth, bad => marks_bare (by decide) (by decide)
  | .array blank items, h, last, depth, bad => by
      rw [Json.wellFormed, Bool.and_eq_true] at h
      obtain ⟨last', hclosable, hitems⟩ :=
        marks_items items h.2 openBracket (depth + 1) bad fun _ => by decide
      refine ⟨closeBracket, by decide, ?_⟩
      rw [Json.text, marks_cons, step_open (.inr rfl), marks_append, marks_append, marks_blank h.1,
        hitems, marks_cons, step_close (.inr rfl) hclosable, marks_nil, add_sub_cancel_right]
  | .object blank members, h, last, depth, bad => by
      rw [Json.wellFormed, Bool.and_eq_true] at h
      obtain ⟨last', hclosable, hmembers⟩ :=
        marks_members members h.2 openBrace (depth + 1) bad fun _ => by decide
      refine ⟨closeBrace, by decide, ?_⟩
      rw [Json.text, marks_cons, step_open (.inl rfl), marks_append, marks_append, marks_blank h.1,
        hmembers, marks_cons, step_close (.inl rfl) hclosable, marks_nil, add_sub_cancel_right]

theorem marks_items : (items : List (Gaps × Json)) → itemsWellFormed items = true →
    ∀ last depth bad, (items = [] → closable last = true) →
    ∃ last', closable last' = true ∧
      marks ⟨.outside, last, depth, bad⟩ (itemsText items) = ⟨.outside, last', depth, bad⟩
  | [], _, last, depth, bad, hlast => ⟨last, hlast rfl, rfl⟩
  | (gaps, item) :: rest, h, last, depth, bad, _ => by
      simp only [itemsWellFormed, Bool.and_eq_true] at h
      obtain ⟨⟨⟨hbefore, hitem⟩, hafter⟩, hrest⟩ := h
      obtain ⟨last', hended, hvalue⟩ := marks_value item hitem last depth bad
      rw [itemsText, marks_append, marks_append, marks_append, marks_blank hbefore, hvalue,
        marks_blank hafter]
      split
      · exact ⟨last', closable_of_ended hended, rfl⟩
      · next hmore =>
        rw [marks_cons, step_comma hended]
        exact marks_items rest hrest comma depth bad fun hnil => absurd (hnil ▸ rfl) hmore

theorem marks_members : (members : List (Layout × Json)) → membersWellFormed members = true →
    ∀ last depth bad, (members = [] → closable last = true) →
    ∃ last', closable last' = true ∧
      marks ⟨.outside, last, depth, bad⟩ (membersText members) = ⟨.outside, last', depth, bad⟩
  | [], _, last, depth, bad, hlast => ⟨last, hlast rfl, rfl⟩
  | (layout, value) :: rest, h, last, depth, bad, _ => by
      rw [membersWellFormed, Bool.and_eq_true, Bool.and_eq_true] at h
      obtain ⟨⟨hlayout, hvalue⟩, hrest⟩ := h
      have hafterValue : layout.afterValue.all isBlank = true := (Bool.and_eq_true_iff.mp hlayout).2
      obtain ⟨last', hended, hvalue'⟩ := marks_value value hvalue colon depth bad
      rw [membersText, marks_append, marks_append, marks_append, marks_front hlayout, hvalue',
        marks_blank hafterValue]
      split
      · exact ⟨last', closable_of_ended hended, rfl⟩
      · next hmore =>
        rw [marks_cons, step_comma hended]
        exact marks_members rest hrest comma depth bad fun hnil => absurd (hnil ▸ rfl) hmore

end

end Values

section Broken
variable {text front back : List UInt8}

/-- The text of a value, with blanks around it. -/
def IsJson (text : List UInt8) : Prop :=
  ∃ (gaps : Gaps) (value : Json), gaps.before.all isBlank = true ∧ value.wellFormed = true ∧
    gaps.after.all isBlank = true ∧ text = gaps.before ++ (value.text ++ gaps.after)

theorem isJson_text (value : Json) (h : value.wellFormed = true) (htext : text = value.text) :
    IsJson text :=
  ⟨⟨[], []⟩, value, rfl, h, rfl, htext.trans (List.append_nil _).symm⟩

def start : Marks := ⟨.outside, colon, 0, false⟩

/-- The whole of a value has been read. -/
theorem IsJson.marks_eq (h : IsJson text) :
    ∃ last, marks start text = ⟨.outside, last, 0, false⟩ := by
  obtain ⟨gaps, value, hbefore, hwf, hafter, rfl⟩ := h
  obtain ⟨last, -, heq⟩ := marks_value value hwf colon 0 false
  refine ⟨last, ?_⟩
  rw [marks_append, marks_append, start, marks_blank hbefore, heq, marks_blank hafter]

theorem bad_marks {s : Marks} (h : s.bad = true) (text : List UInt8) :
    (marks s text).bad = true := by
  induction text generalizing s with
  | nil => exact h
  | cons c text ih =>
    apply ih
    rw [Marks.step]
    split
    · split_ifs
      · exact h
      · exact h
      · dsimp only
        rw [h, Bool.true_or]
    · split_ifs <;> exact h
    · exact h

/-- Two marks that clash are in the text of no value. -/
theorem not_isJson_of_bad (h : (marks start front).bad = true) : ¬ IsJson (front ++ back) := by
  intro hjson
  obtain ⟨last, heq⟩ := hjson.marks_eq
  have hbad := bad_marks h back
  rw [← marks_append, heq] at hbad
  cases hbad

/-- A text with open brackets is no value. -/
theorem not_isJson_of_depth (h : (marks start text).depth ≠ 0) : ¬ IsJson text := by
  intro hjson
  obtain ⟨last, heq⟩ := hjson.marks_eq
  exact h (congrArg Marks.depth heq)

theorem depth_of_close {s : Marks} {c : UInt8} (hc : c = closeBrace ∨ c = closeBracket)
    (h : (s.step c).mode = .outside) : s.mode = .outside ∧ s.depth = (s.step c).depth + 1 := by
  obtain ⟨mode, last, depth, bad⟩ := s
  cases mode with
  | outside =>
    have hweight : weight c = -1 := by
      rcases hc with rfl | rfl <;> decide
    have hquote : c ≠ quote := by
      rcases hc with rfl | rfl <;> decide
    have hblank : isBlank c = false := by
      rcases hc with rfl | rfl <;> decide
    rw [step_mark hquote hblank, hweight]
    exact ⟨rfl, (neg_add_cancel_right depth 1).symm⟩
  | inside => rcases hc with rfl | rfl <;> cases h
  | escaped => cases h

/-- In front of brackets that are closed, they are open. -/
theorem depth_of_closers {s : Marks} (hback : ∀ c ∈ back, c = closeBrace ∨ c = closeBracket)
    (h : (marks s (text ++ back)).mode = .outside) : (marks s text).mode = .outside ∧
      (marks s text).depth = (marks s (text ++ back)).depth + back.length := by
  induction back generalizing text with
  | nil =>
    rw [List.append_nil] at h ⊢
    exact ⟨h, (add_zero _).symm⟩
  | cons c back ih =>
    rw [List.append_cons] at h ⊢
    obtain ⟨hmode, hdepth⟩ := ih (fun c' hc' => hback c' (List.mem_cons_of_mem c hc')) h
    rw [marks_append, marks_cons, marks_nil] at hmode hdepth
    obtain ⟨hmode', hdepth'⟩ := depth_of_close (hback c (List.mem_cons_self ..)) hmode
    refine ⟨hmode', ?_⟩
    rw [hdepth', hdepth, List.length_cons, Nat.cast_add, Nat.cast_one, add_assoc]

/-- Without its last brackets, a text is no value. -/
theorem IsJson.cut (h : IsJson (text ++ back)) (hne : back ≠ [])
    (hback : ∀ c ∈ back, c = closeBrace ∨ c = closeBracket) : ¬ IsJson text := by
  obtain ⟨last, heq⟩ := h.marks_eq
  obtain ⟨-, hdepth⟩ := depth_of_closers hback (by rw [heq])
  apply not_isJson_of_depth
  rw [hdepth, heq, zero_add]
  exact Int.natCast_ne_zero.mpr fun hzero => hne (List.length_eq_zero_iff.mp hzero)

end Broken

end IotExplorer.Basis.JsonMarks
