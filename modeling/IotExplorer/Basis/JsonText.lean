import Mathlib.Data.List.Basic
import Mathlib.Data.Nat.Notation

/-!
JSON texts as bytes. A value keeps the spelling of its strings and numbers and
the blanks between its tokens, so that every text of the grammar is the text of
one value. Members are in the order of the text and may repeat a name.
-/
namespace IotExplorer.Basis.JsonText

def quote : UInt8 := 0x22
def backslash : UInt8 := 0x5C
def colon : UInt8 := 0x3A
def comma : UInt8 := 0x2C
def space : UInt8 := 0x20
def minus : UInt8 := 0x2D
def dot : UInt8 := 0x2E
def openBrace : UInt8 := 0x7B
def closeBrace : UInt8 := 0x7D
def openBracket : UInt8 := 0x5B
def closeBracket : UInt8 := 0x5D

def isDigit (c : UInt8) : Bool := 0x30 ≤ c && c ≤ 0x39

def isHexDigit (c : UInt8) : Bool := isDigit c || (0x41 ≤ c && c ≤ 0x46) || (0x61 ≤ c && c ≤ 0x66)

/-- Space, tab, line feed and carriage return. -/
def isBlank (c : UInt8) : Bool := c == 0x20 || c == 0x09 || c == 0x0A || c == 0x0D

/-- What may follow a backslash, apart from the four digits of a code point. -/
def isEscape (c : UInt8) : Bool :=
  c == 0x22 || c == 0x5C || c == 0x2F || c == 0x62 || c == 0x66 || c == 0x6E || c == 0x72
    || c == 0x74

def trueText : List UInt8 := [0x74, 0x72, 0x75, 0x65]
def falseText : List UInt8 := [0x66, 0x61, 0x6C, 0x73, 0x65]
def nullText : List UInt8 := [0x6E, 0x75, 0x6C, 0x6C]

/-- The spelling of a string between its quotes. -/
def rawString : List UInt8 → Bool
  | [] => true
  | c :: rest =>
      if c = backslash then
        match rest with
        | [] => false
        | e :: rest =>
            if e = 0x75 then
              match rest with
              | a :: b :: c :: d :: rest =>
                  isHexDigit a && isHexDigit b && isHexDigit c && isHexDigit d && rawString rest
              | _ => false
            else isEscape e && rawString rest
      else 0x20 ≤ c && c ≠ quote && rawString rest

/-- The parts of a number; the exponent is spelled with its letter and sign. -/
structure Number where
  negative : Bool
  int : List UInt8
  fraction : Option (List UInt8)
  exponent : Option (List UInt8)
  deriving DecidableEq

def digits (text : List UInt8) : Bool := !text.isEmpty && text.all isDigit

/-- The letter of an exponent, an optional sign and digits. -/
def exponentText : List UInt8 → Bool
  | letter :: 0x2B :: rest => (letter == 0x65 || letter == 0x45) && digits rest
  | letter :: 0x2D :: rest => (letter == 0x65 || letter == 0x45) && digits rest
  | letter :: rest => (letter == 0x65 || letter == 0x45) && digits rest
  | [] => false

def Number.wellFormed (number : Number) : Bool :=
  digits number.int && (number.int.length == 1 || number.int.head? != some 0x30) &&
    (number.fraction.all digits) && (number.exponent.all exponentText)

def Number.mantissa (number : Number) : List UInt8 :=
  (if number.negative then [minus] else []) ++ number.int ++
    number.fraction.elim [] fun fraction => dot :: fraction

def Number.text (number : Number) : List UInt8 := number.mantissa ++ number.exponent.getD []

/-- The name of a member as it is spelled, and the blanks around its tokens. -/
structure Layout where
  before : List UInt8
  name : List UInt8
  afterName : List UInt8
  beforeValue : List UInt8
  afterValue : List UInt8
  deriving DecidableEq

def Layout.wellFormed (layout : Layout) : Bool :=
  layout.before.all isBlank && rawString layout.name && layout.afterName.all isBlank &&
    layout.beforeValue.all isBlank && layout.afterValue.all isBlank

/-- The blanks around an item of an array. -/
structure Gaps where
  before : List UInt8
  after : List UInt8
  deriving DecidableEq

/-- A value with its spelling; the blank of an array or an object follows the opening
bracket. -/
inductive Json where
  | string (raw : List UInt8)
  | number (number : Number)
  | boolean (value : Bool)
  | null
  | array (blank : List UInt8) (items : List (Gaps × Json))
  | object (blank : List UInt8) (members : List (Layout × Json))

def Layout.front (layout : Layout) : List UInt8 :=
  layout.before ++ quote ::
    (layout.name ++ quote :: (layout.afterName ++ colon :: layout.beforeValue))

mutual

def Json.text : Json → List UInt8
  | .string raw => quote :: (raw ++ [quote])
  | .number number => number.text
  | .boolean value => if value then trueText else falseText
  | .null => nullText
  | .array blank items => openBracket :: (blank ++ itemsText items ++ [closeBracket])
  | .object blank members => openBrace :: (blank ++ membersText members ++ [closeBrace])

def itemsText : List (Gaps × Json) → List UInt8
  | [] => []
  | (gaps, item) :: rest =>
      gaps.before ++ item.text ++ gaps.after ++
        (if rest.isEmpty then [] else comma :: itemsText rest)

def membersText : List (Layout × Json) → List UInt8
  | [] => []
  | (layout, value) :: rest =>
      layout.front ++ value.text ++ layout.afterValue ++
        (if rest.isEmpty then [] else comma :: membersText rest)

end

mutual

/-- The spellings and blanks of a value are those of the grammar. -/
def Json.wellFormed : Json → Bool
  | .string raw => rawString raw
  | .number number => number.wellFormed
  | .boolean _ => true
  | .null => true
  | .array blank items => blank.all isBlank && itemsWellFormed items
  | .object blank members => blank.all isBlank && membersWellFormed members

def itemsWellFormed : List (Gaps × Json) → Bool
  | [] => true
  | (gaps, item) :: rest =>
      gaps.before.all isBlank && item.wellFormed && gaps.after.all isBlank && itemsWellFormed rest

def membersWellFormed : List (Layout × Json) → Bool
  | [] => true
  | (layout, value) :: rest => layout.wellFormed && value.wellFormed && membersWellFormed rest

end

mutual

/-- The strings of a value and the names in it are spelled with bytes of this kind. -/
def Json.spelled (kind : UInt8 → Bool) : Json → Bool
  | .string raw => raw.all kind
  | .number _ => true
  | .boolean _ => true
  | .null => true
  | .array _ items => itemsSpelled kind items
  | .object _ members => membersSpelled kind members

def itemsSpelled (kind : UInt8 → Bool) : List (Gaps × Json) → Bool
  | [] => true
  | (_, item) :: rest => item.spelled kind && itemsSpelled kind rest

def membersSpelled (kind : UInt8 → Bool) : List (Layout × Json) → Bool
  | [] => true
  | (layout, value) :: rest =>
      layout.name.all kind && value.spelled kind && membersSpelled kind rest

end

/-- What is in front of the next member. -/
def separator (rest : List (Layout × Json)) : List UInt8 := if rest.isEmpty then [] else [comma]

theorem membersText_cons (layout : Layout) (value : Json) (rest : List (Layout × Json)) :
    membersText ((layout, value) :: rest) =
      layout.front ++ value.text ++ layout.afterValue ++ separator rest ++ membersText rest := by
  rw [membersText, separator]
  cases rest with
  | nil => simp [membersText]
  | cons member rest => simp

theorem wellFormed_of_mem {members : List (Layout × Json)} (h : membersWellFormed members = true)
    {member : Layout × Json} (hmem : member ∈ members) :
    member.1.wellFormed = true ∧ member.2.wellFormed = true := by
  induction members with
  | nil => exact absurd hmem List.not_mem_nil
  | cons first rest ih =>
    obtain ⟨layout, value⟩ := first
    rw [membersWellFormed, Bool.and_eq_true, Bool.and_eq_true] at h
    rcases List.mem_cons.mp hmem with rfl | hmem
    · exact h.1
    · exact ih h.2 hmem

theorem spelled_of_mem {kind : UInt8 → Bool} {members : List (Layout × Json)}
    (h : membersSpelled kind members = true) {member : Layout × Json} (hmem : member ∈ members) :
    member.1.name.all kind = true ∧ member.2.spelled kind = true := by
  induction members with
  | nil => exact absurd hmem List.not_mem_nil
  | cons first rest ih =>
    obtain ⟨layout, value⟩ := first
    rw [membersSpelled, Bool.and_eq_true, Bool.and_eq_true] at h
    rcases List.mem_cons.mp hmem with rfl | hmem
    · exact h.1
    · exact ih h.2 hmem

section Bytes

/-- The bytes of a text: no control character but the blanks. -/
def printable (c : UInt8) : Bool := 0x20 ≤ c || isBlank c

theorem printable_ne_zero {text : List UInt8} (h : text.all printable = true) :
    (0 : UInt8) ∉ text := by
  intro hmem
  exact absurd (List.all_eq_true.mp h 0 hmem) (by decide)

theorem printable_of_blank {text : List UInt8} (h : text.all isBlank = true) :
    text.all printable = true := by
  rw [List.all_eq_true] at h ⊢
  intro c hmem
  rw [printable, h c hmem, Bool.or_true]

theorem printable_of_digit {c : UInt8} (h : isDigit c = true) : printable c = true := by
  simp only [isDigit, Bool.and_eq_true, decide_eq_true_eq, UInt8.le_iff_toNat_le] at h
  simp only [printable, Bool.or_eq_true, decide_eq_true_eq, UInt8.le_iff_toNat_le]
  left
  have hdigit := h.1
  have hspace : (0x20 : UInt8).toNat ≤ (0x30 : UInt8).toNat := by decide
  omega

theorem printable_of_hex {c : UInt8} (h : isHexDigit c = true) : printable c = true := by
  simp only [isHexDigit, Bool.or_eq_true, Bool.and_eq_true, decide_eq_true_eq,
    UInt8.le_iff_toNat_le] at h
  rcases h with (h | h) | h
  · exact printable_of_digit h
  · simp only [printable, Bool.or_eq_true, decide_eq_true_eq, UInt8.le_iff_toNat_le]
    have hspace : (0x20 : UInt8).toNat ≤ (0x41 : UInt8).toNat := by decide
    omega
  · simp only [printable, Bool.or_eq_true, decide_eq_true_eq, UInt8.le_iff_toNat_le]
    have hspace : (0x20 : UInt8).toNat ≤ (0x61 : UInt8).toNat := by decide
    omega

theorem printable_of_escape {c : UInt8} (h : isEscape c = true) : printable c = true := by
  simp only [isEscape, Bool.or_eq_true, beq_iff_eq] at h
  rcases h with ((((((rfl | rfl) | rfl) | rfl) | rfl) | rfl) | rfl) | rfl <;> decide

theorem printable_of_rawString {raw : List UInt8} (h : rawString raw = true) :
    raw.all printable = true := by
  induction raw using rawString.induct with
  | case1 => rfl
  | case2 => cases h
  | case3 a b c d rest ih =>
    simp only [rawString, if_true, Bool.and_eq_true] at h
    obtain ⟨⟨⟨⟨ha, hb⟩, hc⟩, hd⟩, hrest⟩ := h
    simp only [List.all_cons, Bool.and_eq_true]
    exact ⟨by decide, by decide, printable_of_hex ha, printable_of_hex hb, printable_of_hex hc,
      printable_of_hex hd, ih hrest⟩
  | case4 rest hshort =>
    rw [rawString, if_pos rfl, if_pos rfl] at h
    · cases h
    · exact hshort
  | case5 e rest he ih =>
    rw [rawString.eq_def] at h
    dsimp only at h
    rw [if_pos rfl, if_neg he, Bool.and_eq_true] at h
    simp only [List.all_cons, Bool.and_eq_true]
    exact ⟨by decide, printable_of_escape h.1, ih h.2⟩
  | case6 c rest hc ih =>
    rw [rawString.eq_def] at h
    dsimp only at h
    rw [if_neg hc, Bool.and_eq_true, Bool.and_eq_true] at h
    rw [List.all_cons, Bool.and_eq_true, printable, h.1.1, Bool.true_or]
    exact ⟨rfl, ih h.2⟩

/-- The bytes of an exponent are of a kind if the digits and the marks are. -/
theorem exponentText_all {kind : UInt8 → Bool} (hdigit : ∀ c, isDigit c = true → kind c = true)
    (hmarks : kind minus = true ∧ kind 0x2B = true ∧ kind 0x65 = true ∧ kind 0x45 = true)
    {text : List UInt8} (h : exponentText text = true) : text.all kind = true := by
  have hletter : ∀ letter : UInt8, (letter == 0x65 || letter == 0x45) = true →
      kind letter = true := by
    intro letter hletter
    simp only [Bool.or_eq_true, beq_iff_eq] at hletter
    rcases hletter with rfl | rfl
    · exact hmarks.2.2.1
    · exact hmarks.2.2.2
  have hdigits : ∀ rest, digits rest = true → rest.all kind = true := by
    intro rest hrest
    rw [digits, Bool.and_eq_true, List.all_eq_true] at hrest
    rw [List.all_eq_true]
    exact fun c hmem => hdigit c (hrest.2 c hmem)
  unfold exponentText at h
  split at h
  all_goals try rw [Bool.and_eq_true] at h
  · simp only [List.all_cons, Bool.and_eq_true]
    exact ⟨hletter _ h.1, hmarks.2.1, hdigits _ h.2⟩
  · simp only [List.all_cons, Bool.and_eq_true]
    exact ⟨hletter _ h.1, hmarks.1, hdigits _ h.2⟩
  · simp only [List.all_cons, Bool.and_eq_true]
    exact ⟨hletter _ h.1, hdigits _ h.2⟩
  · cases h

/-- The bytes of a number without its exponent: digits and a dot behind the first. -/
theorem Number.mantissa_cases {number : Number} (h : number.wellFormed = true) :
    ∃ c rest, number.mantissa = c :: rest ∧ (c = minus ∨ isDigit c = true) ∧
      ∀ c' ∈ rest, isDigit c' = true ∨ c' = dot := by
  simp only [Number.wellFormed, Bool.and_eq_true] at h
  obtain ⟨⟨⟨hint, -⟩, hfraction⟩, -⟩ := h
  rw [digits, Bool.and_eq_true, List.all_eq_true] at hint
  obtain ⟨hne, hdigits⟩ := hint
  have htail : ∀ c' ∈ number.fraction.elim [] fun fraction => dot :: fraction,
      isDigit c' = true ∨ c' = dot := by
    cases hpart : number.fraction with
    | none => simp
    | some fraction =>
      rw [hpart, Option.all_some, digits, Bool.and_eq_true, List.all_eq_true] at hfraction
      intro c' hmem
      rcases List.mem_cons.mp hmem with rfl | hmem
      · exact .inr rfl
      · exact .inl (hfraction.2 c' hmem)
  have hint : ∃ d ds, number.int = d :: ds := by
    cases hlist : number.int with
    | nil =>
      rw [hlist] at hne
      cases hne
    | cons d ds => exact ⟨d, ds, rfl⟩
  obtain ⟨d, ds, hlist⟩ := hint
  rw [hlist] at hdigits
  unfold Number.mantissa
  rw [hlist]
  cases number.negative with
  | true =>
    refine ⟨minus, _, rfl, .inl rfl, ?_⟩
    intro c' hmem
    rcases List.mem_append.mp hmem with hmem | hmem
    · exact .inl (hdigits c' hmem)
    · exact htail c' hmem
  | false =>
    refine ⟨d, _, rfl, .inr (hdigits d (List.mem_cons_self ..)), ?_⟩
    intro c' hmem
    rcases List.mem_append.mp hmem with hmem | hmem
    · exact .inl (hdigits c' (List.mem_cons_of_mem d hmem))
    · exact htail c' hmem

/-- The bytes of a number are of a kind if the digits and the marks are. -/
theorem Number.text_all {kind : UInt8 → Bool} (hdigit : ∀ c, isDigit c = true → kind c = true)
    (hmarks : kind minus = true ∧ kind 0x2B = true ∧ kind 0x65 = true ∧ kind 0x45 = true)
    (hdot : kind dot = true) {number : Number} (h : number.wellFormed = true) :
    number.text.all kind = true := by
  obtain ⟨c, rest, hmantissa, hfirst, hrest⟩ := Number.mantissa_cases h
  simp only [Number.wellFormed, Bool.and_eq_true] at h
  rw [Number.text, List.all_append, Bool.and_eq_true]
  constructor
  · rw [hmantissa, List.all_cons, Bool.and_eq_true, List.all_eq_true]
    constructor
    · rcases hfirst with rfl | hc
      · exact hmarks.1
      · exact hdigit c hc
    · intro c' hmem
      rcases hrest c' hmem with hc' | rfl
      · exact hdigit c' hc'
      · exact hdot
  · cases hpart : number.exponent with
    | none => rfl
    | some exponent =>
      rw [hpart, Option.all_some] at h
      exact exponentText_all hdigit hmarks h.2

theorem Number.printable_text {number : Number} (h : number.wellFormed = true) :
    number.text.all printable = true :=
  Number.text_all (fun c => printable_of_digit) (by decide) (by decide) h

mutual

theorem Json.printable_text : (value : Json) → value.wellFormed = true →
    value.text.all printable = true
  | .string raw, h => by
      have hquote : printable quote = true := by decide
      simp only [Json.text, List.all_cons, List.all_append, List.all_nil, hquote, Bool.and_true,
        Bool.true_and]
      exact printable_of_rawString h
  | .number number, h => Number.printable_text h
  | .boolean value, _ => by cases value <;> decide
  | .null, _ => by decide
  | .array blank items, h => by
      rw [Json.wellFormed, Bool.and_eq_true] at h
      have hopen : printable openBracket = true := by decide
      have hclose : printable closeBracket = true := by decide
      simp only [Json.text, List.all_cons, List.all_append, List.all_nil, hopen, hclose,
        Bool.and_true, Bool.true_and, printable_of_blank h.1]
      exact printable_itemsText items h.2
  | .object blank members, h => by
      rw [Json.wellFormed, Bool.and_eq_true] at h
      have hopen : printable openBrace = true := by decide
      have hclose : printable closeBrace = true := by decide
      simp only [Json.text, List.all_cons, List.all_append, List.all_nil, hopen, hclose,
        Bool.and_true, Bool.true_and, printable_of_blank h.1]
      exact printable_membersText members h.2

theorem printable_itemsText : (items : List (Gaps × Json)) → itemsWellFormed items = true →
    (itemsText items).all printable = true
  | [], _ => rfl
  | (gaps, item) :: rest, h => by
      simp only [itemsWellFormed, Bool.and_eq_true] at h
      obtain ⟨⟨⟨hbefore, hitem⟩, hafter⟩, hrest⟩ := h
      have hcomma : printable comma = true := by decide
      have htext := Json.printable_text item hitem
      have hrestText := printable_itemsText rest hrest
      rw [itemsText]
      simp only [List.all_append, printable_of_blank hbefore, htext, printable_of_blank hafter,
        Bool.true_and]
      split
      · rfl
      · rw [List.all_cons, hcomma, hrestText]
        rfl

theorem printable_membersText : (members : List (Layout × Json)) →
    membersWellFormed members = true → (membersText members).all printable = true
  | [], _ => rfl
  | (layout, value) :: rest, h => by
      simp only [membersWellFormed, Layout.wellFormed, Bool.and_eq_true] at h
      obtain ⟨⟨⟨⟨⟨⟨hbefore, hname⟩, hafterName⟩, hbeforeValue⟩, hafterValue⟩, hvalue⟩, hrest⟩ := h
      have hmarks : printable comma = true ∧ printable quote = true ∧ printable colon = true := by
        decide
      have htext := Json.printable_text value hvalue
      have hrestText := printable_membersText rest hrest
      rw [membersText, Layout.front]
      simp only [List.all_append, List.all_cons, hmarks, printable_of_blank hbefore,
        printable_of_rawString hname, printable_of_blank hafterName,
        printable_of_blank hbeforeValue, printable_of_blank hafterValue, htext, Bool.true_and]
      split
      · rfl
      · rw [List.all_cons, hmarks.1, hrestText]
        rfl

end

end Bytes

section Strings

/-- There is no quote in an exponent. -/
theorem exponentText_quiet {text : List UInt8} (h : exponentText text = true) : quote ∉ text := by
  have hquiet : ∀ c, isDigit c = true → (c != quote) = true := by
    intro c hc
    rw [bne_iff_ne]
    rintro rfl
    exact absurd hc (by decide)
  have hall := exponentText_all hquiet (by decide) h
  intro hmem
  exact absurd (List.all_eq_true.mp hall quote hmem) (by decide)

/-- Every quote follows a backslash; `last` is in front of the text. -/
def quotesEscaped : UInt8 → List UInt8 → Bool
  | _, [] => true
  | last, c :: rest => (c != quote || last == backslash) && quotesEscaped c rest

/-- In the spelling of a string every quote follows a backslash. -/
theorem quotesEscaped_of_rawString {raw : List UInt8} (h : rawString raw = true) (last : UInt8) :
    quotesEscaped last raw = true := by
  have hescape : ∀ (last e : UInt8) (rest : List UInt8), (∀ last, quotesEscaped last rest = true) →
      quotesEscaped last (backslash :: e :: rest) = true := by
    intro last e rest hrest
    have hback : (backslash != quote) = true := by decide
    rw [quotesEscaped, quotesEscaped, hrest, hback]
    simp only [beq_self_eq_true, Bool.or_true, Bool.true_or, Bool.and_true]
  have hplain : ∀ (last c : UInt8) (rest : List UInt8), c ≠ quote →
      (∀ last, quotesEscaped last rest = true) → quotesEscaped last (c :: rest) = true := by
    intro last c rest hc hrest
    rw [quotesEscaped, hrest, Bool.and_true, bne_iff_ne.mpr hc, Bool.true_or]
  have hhex : ∀ c : UInt8, isHexDigit c = true → c ≠ quote := by
    rintro c hc rfl
    exact absurd hc (by decide)
  induction raw using rawString.induct generalizing last with
  | case1 => rfl
  | case2 => cases h
  | case3 a b c d rest ih =>
    simp only [rawString, if_true, Bool.and_eq_true] at h
    obtain ⟨⟨⟨⟨ha, hb⟩, hc⟩, hd⟩, hrest⟩ := h
    apply hescape
    intro last
    apply hplain last a _ (hhex a ha)
    intro last
    apply hplain last b _ (hhex b hb)
    intro last
    apply hplain last c _ (hhex c hc)
    intro last
    exact hplain last d rest (hhex d hd) (ih hrest)
  | case4 rest hshort =>
    rw [rawString, if_pos rfl, if_pos rfl] at h
    · cases h
    · exact hshort
  | case5 e rest he ih =>
    rw [rawString.eq_def] at h
    dsimp only at h
    rw [if_pos rfl, if_neg he, Bool.and_eq_true] at h
    exact hescape last e rest (ih h.2)
  | case6 c rest hc ih =>
    rw [rawString.eq_def] at h
    dsimp only at h
    rw [if_neg hc, Bool.and_eq_true, Bool.and_eq_true, decide_eq_true_eq] at h
    exact hplain last c rest (by simpa using h.1.2) (ih h.2)

end Strings

end IotExplorer.Basis.JsonText
