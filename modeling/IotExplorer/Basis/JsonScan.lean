import IotExplorer.Basis.JsonText
import Mathlib.Algebra.Group.Nat.Even
import Mathlib.Data.List.Count

/-!
A scan of a text that follows its strings and remembers the last mark outside of them.
In the text of a value no brace is closed behind a colon or a comma, so that a text
where one is closed there is the text of no value.
-/
namespace IotExplorer.Basis.JsonScan

open JsonText

inductive Mode
  | outside
  | inside
  | escaped
  deriving DecidableEq

/-- The place in a text, the last mark outside of strings, and whether a brace has been closed
behind a colon or a comma. -/
structure Scan where
  mode : Mode
  last : UInt8
  bad : Bool
  deriving DecidableEq

def Scan.step (s : Scan) (c : UInt8) : Scan :=
  match s.mode with
  | .outside =>
      if c = quote then { s with mode := .inside }
      else if isBlank c then s
      else { s with
        last := c
        bad := s.bad || (c == closeBrace && (s.last == colon || s.last == comma)) }
  | .inside =>
      if c = backslash then { s with mode := .escaped }
      else if c = quote then { s with mode := .outside, last := quote }
      else s
  | .escaped => { s with mode := .inside }

def scan (s : Scan) (text : List UInt8) : Scan := text.foldl Scan.step s

@[simp] theorem scan_nil (s : Scan) : scan s [] = s := rfl

@[simp] theorem scan_cons (s : Scan) (c : UInt8) (text : List UInt8) :
    scan s (c :: text) = scan (s.step c) text := rfl

@[simp] theorem scan_append (s : Scan) (front back : List UInt8) :
    scan s (front ++ back) = scan (scan s front) back := List.foldl_append

section Values
variable {last : UInt8} {bad : Bool} {text : List UInt8}

/-- A mark that a brace may be closed behind. -/
def Settled (last : UInt8) : Prop := last ≠ colon ∧ last ≠ comma

theorem scan_blank (h : text.all isBlank = true) :
    scan ⟨.outside, last, bad⟩ text = ⟨.outside, last, bad⟩ := by
  induction text with
  | nil => rfl
  | cons c text ih =>
    rw [List.all_cons, Bool.and_eq_true] at h
    have hquote : c ≠ quote := by
      rintro rfl
      exact absurd h.1 (by decide)
    rw [scan_cons, Scan.step]
    dsimp only
    rw [if_neg hquote, if_pos h.1]
    exact ih h.2

/-- A mark other than a closing brace. -/
theorem step_mark {c : UInt8} (hquote : c ≠ quote) (hblank : isBlank c = false)
    (hclose : c ≠ closeBrace) :
    Scan.step ⟨.outside, last, bad⟩ c = ⟨.outside, c, bad⟩ := by
  rw [Scan.step]
  dsimp only
  rw [if_neg hquote, hblank, if_neg Bool.false_ne_true, beq_false_of_ne hclose, Bool.false_and,
    Bool.or_false]

theorem step_close (h : Settled last) :
    Scan.step ⟨.outside, last, bad⟩ closeBrace = ⟨.outside, closeBrace, bad⟩ := by
  rw [Scan.step]
  dsimp only
  rw [if_neg (by decide), if_neg (by decide), beq_false_of_ne h.1, beq_false_of_ne h.2,
    Bool.or_self, Bool.and_false, Bool.or_false]

/-- Marks that settle what is in front of them. -/
def settles (c : UInt8) : Bool :=
  c != quote && !isBlank c && c != closeBrace && c != colon && c != comma

theorem scan_settles (h : text.all settles = true) (hne : text ≠ []) :
    ∃ last', Settled last' ∧ scan ⟨.outside, last, bad⟩ text = ⟨.outside, last', bad⟩ := by
  induction text generalizing last with
  | nil => exact absurd rfl hne
  | cons c text ih =>
    rw [List.all_cons, Bool.and_eq_true, settles] at h
    simp only [Bool.and_eq_true, bne_iff_ne, Bool.not_eq_true'] at h
    obtain ⟨⟨⟨⟨⟨hquote, hblank⟩, hclose⟩, hcolon⟩, hcomma⟩, hrest⟩ := h
    rw [scan_cons, step_mark hquote hblank hclose]
    by_cases hend : text = []
    · rw [hend]
      exact ⟨c, ⟨hcolon, hcomma⟩, rfl⟩
    · exact ih hrest hend

/-- A fold that stays at a state with the plain bytes of a string, and comes back to it behind what
follows a backslash, stays there with the whole spelling of a string. -/
theorem foldl_rawString {S : Type*} (f : S → UInt8 → S) (inside escaped : S)
    (hescape : f inside backslash = escaped) (hafter : ∀ c, f escaped c = inside)
    (hplain : ∀ c, c ≠ backslash → c ≠ quote → f inside c = inside) (h : rawString text = true) :
    text.foldl f inside = inside := by
  have hhex : ∀ c : UInt8, isHexDigit c = true → f inside c = inside := by
    intro c hc
    refine hplain c ?_ ?_ <;> (rintro rfl; exact absurd hc (by decide))
  induction text using rawString.induct with
  | case1 => rfl
  | case2 => cases h
  | case3 a b c d rest ih =>
    simp only [rawString, if_true, Bool.and_eq_true] at h
    obtain ⟨⟨⟨⟨ha, hb⟩, hc⟩, hd⟩, hrest⟩ := h
    simp only [List.foldl_cons, hescape, hafter, hhex a ha, hhex b hb, hhex c hc, hhex d hd]
    exact ih hrest
  | case4 rest hshort =>
    rw [rawString, if_pos rfl, if_pos rfl] at h
    · cases h
    · exact hshort
  | case5 e rest he ih =>
    rw [rawString.eq_def] at h
    dsimp only at h
    rw [if_pos rfl, if_neg he, Bool.and_eq_true] at h
    rw [List.foldl_cons, List.foldl_cons, hescape, hafter]
    exact ih h.2
  | case6 c rest hc ih =>
    rw [rawString.eq_def] at h
    dsimp only at h
    rw [if_neg hc, Bool.and_eq_true, Bool.and_eq_true, decide_eq_true_eq] at h
    rw [List.foldl_cons, hplain c hc (by simpa using h.1.2)]
    exact ih h.2

/-- Spellings of strings one behind the other. -/
theorem rawString_append {back : List UInt8} (h : rawString text = true)
    (hback : rawString back = true) :
    rawString (text ++ back) = true := by
  induction text using rawString.induct with
  | case1 => exact hback
  | case2 => cases h
  | case3 a b c d rest ih =>
    simp only [rawString, if_true, Bool.and_eq_true] at h
    simp only [List.cons_append, rawString, if_true, Bool.and_eq_true]
    exact ⟨h.1, ih h.2⟩
  | case4 rest hshort =>
    rw [rawString, if_pos rfl, if_pos rfl] at h
    · cases h
    · exact hshort
  | case5 e rest he ih =>
    rw [rawString.eq_def] at h ⊢
    dsimp only [List.cons_append] at h ⊢
    rw [if_pos rfl, if_neg he, Bool.and_eq_true] at h ⊢
    exact ⟨h.1, ih h.2⟩
  | case6 c rest hc ih =>
    rw [rawString.eq_def] at h ⊢
    dsimp only [List.cons_append] at h ⊢
    rw [if_neg hc, Bool.and_eq_true] at h ⊢
    exact ⟨h.1, ih h.2⟩

/-- The spelling of a string stays within it. -/
theorem scan_rawString (h : rawString text = true) :
    scan ⟨.inside, last, bad⟩ text = ⟨.inside, last, bad⟩ := by
  apply foldl_rawString Scan.step ⟨.inside, last, bad⟩ ⟨.escaped, last, bad⟩ rfl (fun _ => rfl) _ h
  intro c hback hquote
  rw [Scan.step]
  dsimp only
  rw [if_neg hback, if_neg hquote]

theorem scan_string (h : rawString text = true) :
    scan ⟨.outside, last, bad⟩ (quote :: (text ++ [quote])) = ⟨.outside, quote, bad⟩ := by
  have hopen : Scan.step ⟨.outside, last, bad⟩ quote = ⟨.inside, last, bad⟩ := rfl
  rw [scan_cons, hopen, scan_append, scan_rawString h]
  rfl

theorem scan_number {number : Number} (h : number.wellFormed = true) :
    ∃ last', Settled last' ∧ scan ⟨.outside, last, bad⟩ number.text = ⟨.outside, last', bad⟩ := by
  have hdigit : ∀ c, isDigit c = true → settles c = true := by
    intro c hc
    have hnot : ∀ mark : UInt8, isDigit mark = false → c ≠ mark := by
      rintro mark hmark rfl
      exact absurd hc (by rw [hmark]; decide)
    simp only [settles, isBlank, Bool.and_eq_true, bne_iff_ne, Bool.not_eq_true',
      Bool.or_eq_false_iff, beq_eq_false_iff_ne]
    exact ⟨⟨⟨⟨hnot _ rfl, ⟨⟨hnot _ rfl, hnot _ rfl⟩, hnot _ rfl⟩, hnot _ rfl⟩, hnot _ rfl⟩,
      hnot _ rfl⟩, hnot _ rfl⟩
  apply scan_settles (Number.text_all hdigit (by decide) (by decide) h)
  obtain ⟨c, rest, hmantissa, -⟩ := Number.mantissa_cases h
  rw [Number.text, hmantissa]
  exact List.cons_ne_nil _ _

/-- A member up to its value ends with its colon. -/
theorem scan_front {layout : Layout} (h : layout.wellFormed = true) :
    scan ⟨.outside, last, bad⟩ layout.front = ⟨.outside, colon, bad⟩ := by
  simp only [Layout.wellFormed, Bool.and_eq_true] at h
  obtain ⟨⟨⟨⟨hbefore, hname⟩, hafterName⟩, hbeforeValue⟩, -⟩ := h
  have hsplit : layout.front = layout.before ++ (quote :: (layout.name ++ [quote])) ++
      (layout.afterName ++ colon :: layout.beforeValue) := by
    simp [Layout.front]
  rw [hsplit, scan_append, scan_append _ layout.before, scan_append _ layout.afterName,
    scan_blank hbefore, scan_string hname, scan_blank hafterName, scan_cons,
    step_mark (by decide) (by decide) (by decide), scan_blank hbeforeValue]

mutual

/-- The text of a value closes no brace behind a colon or a comma. -/
theorem scan_value : (value : Json) → value.wellFormed = true → ∀ last bad,
    ∃ last', Settled last' ∧ scan ⟨.outside, last, bad⟩ value.text = ⟨.outside, last', bad⟩
  | .string raw, h, last, bad => ⟨quote, by rw [Settled]; decide, scan_string h⟩
  | .number number, h, last, bad => scan_number h
  | .boolean value, _, last, bad => by
      cases value <;> exact scan_settles (by decide) (by decide)
  | .null, _, last, bad => scan_settles (by decide) (by decide)
  | .array blank items, h, last, bad => by
      rw [Json.wellFormed, Bool.and_eq_true] at h
      obtain ⟨last', hitems⟩ := scan_items items h.2 openBracket bad
      refine ⟨closeBracket, by rw [Settled]; decide, ?_⟩
      rw [Json.text, scan_cons, step_mark (by decide) (by decide) (by decide), scan_append,
        scan_append, scan_blank h.1, hitems, scan_cons,
          step_mark (by decide) (by decide) (by decide), scan_nil]
  | .object blank members, h, last, bad => by
      rw [Json.wellFormed, Bool.and_eq_true] at h
      obtain ⟨last', hsettled, hmembers⟩ :=
        scan_members members h.2 openBrace bad fun _ => by rw [Settled]; decide
      refine ⟨closeBrace, by rw [Settled]; decide, ?_⟩
      rw [Json.text, scan_cons, step_mark (by decide) (by decide) (by decide), scan_append,
        scan_append, scan_blank h.1, hmembers, scan_cons, step_close hsettled, scan_nil]

theorem scan_items : (items : List (Gaps × Json)) → itemsWellFormed items = true → ∀ last bad,
    ∃ last', scan ⟨.outside, last, bad⟩ (itemsText items) = ⟨.outside, last', bad⟩
  | [], _, last, bad => ⟨last, rfl⟩
  | (gaps, item) :: rest, h, last, bad => by
      simp only [itemsWellFormed, Bool.and_eq_true] at h
      obtain ⟨⟨⟨hbefore, hitem⟩, hafter⟩, hrest⟩ := h
      obtain ⟨last', -, hvalue⟩ := scan_value item hitem last bad
      rw [itemsText, scan_append, scan_append, scan_append, scan_blank hbefore, hvalue,
        scan_blank hafter]
      split
      · exact ⟨last', rfl⟩
      · rw [scan_cons, step_mark (by decide) (by decide) (by decide)]
        exact scan_items rest hrest comma bad

/-- No member is missing behind a comma. -/
theorem scan_members : (members : List (Layout × Json)) → membersWellFormed members = true →
    ∀ last bad, (members = [] → Settled last) →
    ∃ last', Settled last' ∧
      scan ⟨.outside, last, bad⟩ (membersText members) = ⟨.outside, last', bad⟩
  | [], _, last, bad, hlast => ⟨last, hlast rfl, rfl⟩
  | (layout, value) :: rest, h, last, bad, _ => by
      rw [membersWellFormed, Bool.and_eq_true, Bool.and_eq_true] at h
      obtain ⟨⟨hlayout, hvalue⟩, hrest⟩ := h
      have hafterValue : layout.afterValue.all isBlank = true := (Bool.and_eq_true_iff.mp hlayout).2
      obtain ⟨last', hsettled, hvalue'⟩ := scan_value value hvalue colon bad
      rw [membersText, scan_append, scan_append, scan_append, scan_front hlayout, hvalue',
        scan_blank hafterValue]
      split
      · exact ⟨last', hsettled, rfl⟩
      · next hmore =>
        rw [scan_cons, step_mark (by decide) (by decide) (by decide)]
        exact scan_members rest hrest comma bad fun hnil => absurd (hnil ▸ rfl) hmore

end

end Values

section Closed
variable {text front back : List UInt8}

/-- A text that ends outside of strings where it begins there. -/
def Closed (text : List UInt8) : Prop :=
  ∀ last bad, (scan ⟨.outside, last, bad⟩ text).mode = .outside

theorem Closed.append (hfront : Closed front) (hback : Closed back) : Closed (front ++ back) := by
  intro last bad
  have houtside := hfront last bad
  rw [scan_append]
  generalize scan ⟨.outside, last, bad⟩ front = s at houtside ⊢
  obtain ⟨mode, last', bad'⟩ := s
  obtain rfl : mode = .outside := houtside
  exact hback last' bad'

/-- The last mark of a text that is no quote does not end a string. -/
theorem Closed.of_concat {c : UInt8} (h : Closed (front ++ [c])) (hc : c ≠ quote) :
    Closed front := by
  intro last bad
  have houtside := h last bad
  rw [scan_append, scan_cons, scan_nil] at houtside
  generalize scan ⟨.outside, last, bad⟩ front = s at houtside ⊢
  obtain ⟨mode, last', bad'⟩ := s
  cases mode with
  | outside => rfl
  | inside =>
    rw [Scan.step] at houtside
    dsimp only at houtside
    rw [if_neg hc] at houtside
    split at houtside <;> cases houtside
  | escaped => cases houtside

theorem closed_of_wellFormed {value : Json} (h : value.wellFormed = true) : Closed value.text := by
  intro last bad
  obtain ⟨last', -, heq⟩ := scan_value value h last bad
  rw [heq]

theorem closed_front {layout : Layout} (h : layout.wellFormed = true) : Closed layout.front := by
  intro last bad
  rw [scan_front h]

theorem closed_blank {blank : List UInt8} (h : blank.all isBlank = true) : Closed blank := by
  intro last bad
  rw [scan_blank h]

theorem step_mode {s : Scan} {c : UInt8} (hs : s.mode ≠ .escaped) (hc : c ≠ backslash) :
    (s.step c).mode =
      if c = quote then (if s.mode = .outside then .inside else .outside) else s.mode := by
  obtain ⟨mode, last, bad⟩ := s
  rw [Scan.step]
  cases mode with
  | outside =>
    dsimp only
    rw [if_pos rfl]
    split_ifs <;> rfl
  | inside =>
    dsimp only
    rw [if_neg hc, if_neg (show Mode.inside ≠ .outside from Mode.noConfusion)]
    split_ifs <;> rfl
  | escaped => exact absurd rfl hs

/-- Without backslashes a text ends outside of strings when its quotes come in pairs. -/
theorem scan_mode {s : Scan} (hs : s.mode ≠ .escaped) (hback : backslash ∉ text) :
    (scan s text).mode =
      if Even (text.count quote) then s.mode
      else if s.mode = .outside then .inside else .outside := by
  induction text generalizing s with
  | nil => rfl
  | cons c text ih =>
    rw [List.mem_cons, not_or] at hback
    have hstep := step_mode hs (Ne.symm hback.1)
    have hescaped : (s.step c).mode ≠ .escaped := by
      rw [hstep]
      split_ifs
      · exact Mode.noConfusion
      · exact Mode.noConfusion
      · exact hs
    rw [scan_cons, ih hescaped hback.2, hstep]
    by_cases hquote : c = quote
    · rw [if_pos hquote, hquote, List.count_cons_self]
      by_cases heven : Even (text.count quote)
      · rw [if_pos heven, if_neg (Nat.even_add_one.not.mpr (not_not_intro heven))]
      · rw [if_neg heven, if_pos (Nat.even_add_one.mpr heven)]
        obtain ⟨mode, last, bad⟩ := s
        cases mode with
        | outside => rfl
        | inside => rfl
        | escaped => exact absurd rfl hs
    · rw [if_neg hquote, List.count_cons_of_ne hquote]

theorem closed_of_even (hback : backslash ∉ text) (heven : Even (text.count quote)) :
    Closed text := by
  intro last bad
  rw [scan_mode Mode.noConfusion hback, if_pos heven]

/-- A text without backslashes, and whether the number of its quotes is odd. -/
structure Quotes (odd : Bool) (text : List UInt8) : Prop where
  noBackslash : backslash ∉ text
  count : text.count quote % 2 = odd.toNat

instance (odd : Bool) (text : List UInt8) : Decidable (Quotes odd text) :=
  decidable_of_iff (backslash ∉ text ∧ text.count quote % 2 = odd.toNat)
    ⟨fun h => ⟨h.1, h.2⟩, fun h => ⟨h.1, h.2⟩⟩

theorem Quotes.append {odd odd' : Bool} (hfront : Quotes odd front) (hback : Quotes odd' back) :
    Quotes (odd ^^ odd') (front ++ back) := by
  constructor
  · rw [List.mem_append, not_or]
    exact ⟨hfront.noBackslash, hback.noBackslash⟩
  · have hfrontCount := hfront.count
    have hbackCount := hback.count
    rw [List.count_append, Nat.add_mod, hfrontCount, hbackCount]
    cases odd <;> cases odd' <;> rfl

theorem Quotes.closed (h : Quotes false text) : Closed text :=
  closed_of_even h.noBackslash (Nat.even_iff.mpr h.count)

theorem bad_scan {s : Scan} (h : s.bad = true) (text : List UInt8) : (scan s text).bad = true := by
  induction text generalizing s with
  | nil => exact h
  | cons c text ih =>
    apply ih
    rw [Scan.step]
    split
    · split_ifs
      · exact h
      · exact h
      · dsimp only
        rw [h, Bool.true_or]
    · split_ifs <;> exact h
    · exact h

/-- A text in which a brace is closed behind a colon or a comma is the text of no value. -/
theorem dangling_ne_text {mark : UInt8} {blank : List UInt8} {value : Json} (hfront : Closed front)
    (hmark : mark = colon ∨ mark = comma) (hblank : blank.all isBlank = true)
    (h : value.wellFormed = true) :
    front ++ mark :: (blank ++ closeBrace :: back) ≠ value.text := by
  intro htext
  obtain ⟨last', -, hvalue⟩ := scan_value value h 0 false
  have houtside := hfront 0 false
  rw [← htext, scan_append] at hvalue
  generalize scan ⟨.outside, 0, false⟩ front = s at houtside hvalue
  obtain ⟨mode, last, bad⟩ := s
  obtain rfl : mode = .outside := houtside
  have hstep : Scan.step ⟨.outside, last, bad⟩ mark = ⟨.outside, mark, bad⟩ := by
    rcases hmark with rfl | rfl <;> exact step_mark (by decide) (by decide) (by decide)
  have hclose : (Scan.step ⟨.outside, mark, bad⟩ closeBrace).bad = true := by
    rcases hmark with rfl | rfl <;> cases bad <;> rfl
  rw [scan_cons, hstep, scan_append, scan_blank hblank, scan_cons] at hvalue
  have hbad := bad_scan hclose back
  rw [hvalue] at hbad
  cases hbad

end Closed

end IotExplorer.Basis.JsonScan
