import IotExplorer.Basis.JsonText
import Mathlib.Logic.Relation

/-!
The JSON scanner of json_parser.c. A pointer is the memory from it on, so that a
scan consumes a list, pointer differences are differences of lengths, and a
character beyond the memory is a fault. A loop over the members of an object or
the entries of an array is walked to its end; what a callback sees of it is an
initial part of the walk. Texts are shorter than 2^31 bytes, so that the int lengths
of the source do not wrap.
-/
namespace IotExplorer.JsonParser

open Basis.JsonText

/-- A pointer into a text: the memory from it on. -/
abbrev Ptr := List UInt8

/-- A character beyond the memory was examined. -/
inductive Overrun where
  | overrun
  deriving DecidableEq

/-- `JSONTYPE` of a value that was found. -/
inductive JsonType where
  | string | object | array | number | boolean | null
  deriving DecidableEq

def capitalTrue : List UInt8 := [0x54, 0x52, 0x55, 0x45]
def capitalFalse : List UInt8 := [0x46, 0x41, 0x4C, 0x53, 0x45]
def capitalNull : List UInt8 := [0x4E, 0x55, 0x4C, 0x4C]

section CString

def strlen : Ptr → Except Overrun ℕ
  | [] => .error .overrun
  | c :: p =>
      if c = 0 then .ok 0
      else
        match strlen p with
        | .error e => .error e
        | .ok n => .ok (n + 1)

/-- `strchr`; `ch` is not NUL. -/
def strchr (ch : UInt8) : Ptr → Except Overrun (Option Ptr)
  | [] => .error .overrun
  | c :: p =>
      if c = ch then .ok (some (c :: p))
      else if c = 0 then .ok none
      else strchr ch p

end CString

section Scanner

/-- `json_get_object`: the opening bracket after spaces, or NULL. -/
def jsonGetObject (type : JsonType) : Ptr → Except Overrun (Option Ptr)
  | [] => .error .overrun
  | c :: p =>
      if c = 0 then .ok none
      else if c = space then jsonGetObject type p
      else if c = (if type = .object then openBrace else openBracket) then .ok (some (c :: p))
      else .ok none

/-- The first loop of `json_get_next_object`: the type, `p_cValue` and `p_cPos`. -/
def findValue : Ptr → Except Overrun (Option (JsonType × Ptr × Ptr))
  | [] => .error .overrun
  | c :: p =>
      if c = 0 then .ok none
      else if c = quote then .ok (some (.string, p, p))
      else if c = openBrace then .ok (some (.object, c :: p, p))
      else if c = openBracket then .ok (some (.array, c :: p, p))
      else if c = minus ∨ isDigit c then .ok (some (.number, c :: p, p))
      else if c = 0x74 ∨ c = 0x54 ∨ c = 0x66 ∨ c = 0x46 then .ok (some (.boolean, c :: p, c :: p))
      else if c = 0x6E ∨ c = 0x4E then .ok (some (.null, c :: p, c :: p))
      else findValue p

/-- The second loop for a number: its length, or zero when the text ends in it. -/
def scanNumber (value : Ptr) : Ptr → Except Overrun ℕ
  | [] => .error .overrun
  | c :: p =>
      if c = 0 then .ok 0
      else if !isDigit c ∧ c ≠ dot then .ok (value.length - (c :: p).length)
      else scanNumber value p

/-- The second loop for a string, an object or an array, with the depth, the last
character and the length so far. -/
def scanMarked (type : JsonType) (mark₀ mark₁ : UInt8) (value : Ptr) :
    ℕ → UInt8 → ℕ → Ptr → Except Overrun ℕ
  | _, _, _, [] => .error .overrun
  | depth, last, len, c :: p =>
      if c = 0 then .ok len
      else if c = mark₁ then
        if depth = 0 then
          let len := value.length - (c :: p).length + if type = .string then 0 else 1
          if type = .string ∧ last = backslash then
            match p with
            | [] => .error .overrun
            | next :: _ => scanMarked type mark₀ mark₁ value depth next len p
          else .ok len
        else scanMarked type mark₀ mark₁ value (depth - 1) c len p
      else if c = mark₀ then scanMarked type mark₀ mark₁ value (depth + 1) c len p
      else scanMarked type mark₀ mark₁ value depth c len p

/-- The second loop for a literal: its length, or zero when it is spelled otherwise. -/
def scanLiteral (literals : List (List UInt8)) (value : Ptr) : Except Overrun ℕ :=
  match strlen value with
  | .error e => .error e
  | .ok _ =>
      match literals.find? fun literal => literal.isPrefixOf value with
      | some literal => .ok literal.length
      | none => .ok 0

/-- The second loop of `json_get_next_object`: `iValueLen`. -/
def valueLen (type : JsonType) (value pos : Ptr) : Except Overrun ℕ :=
  match type with
  | .string => scanMarked .string quote quote value 0 quote 0 pos
  | .object => scanMarked .object openBrace closeBrace value 0 space 0 pos
  | .array => scanMarked .array openBracket closeBracket value 0 space 0 pos
  | .number => scanNumber value pos
  | .boolean => scanLiteral [trueText, capitalTrue, falseText, capitalFalse] value
  | .null => scanLiteral [nullText, capitalNull] value

/-- What a step of a loop reports, and where it continues. -/
structure Entry where
  key : Ptr
  keyLen : ℕ
  val : Ptr
  valLen : ℕ
  valType : JsonType
  next : Ptr
  deriving DecidableEq

/-- The value part of `json_get_next_object`, for a key that was found. -/
def getValue (key : Ptr) (keyLen : ℕ) (pos : Ptr) : Except Overrun (Option Entry) :=
  match findValue pos with
  | .error e => .error e
  | .ok none => .ok none
  | .ok (some (type, value, start)) =>
      match valueLen type value start with
      | .error e => .error e
      | .ok len =>
          .ok (some
            { key := key
              keyLen := keyLen
              val := value
              valLen := len
              valType := type
              next := value.drop (len + if type = .string then 1 else 0) })

/-- The key part of `json_get_next_object`: the key, its length, and the position of
the colon. -/
def getKey (str : Ptr) : Except Overrun (Option (Ptr × ℕ × Ptr)) :=
  match strchr quote str with
  | .error e => .error e
  | .ok none => .ok none
  | .ok (some start) =>
      match strchr quote start.tail with
      | .error e => .error e
      | .ok none => .ok none
      | .ok (some stop) =>
          match strchr colon stop with
          | .error e => .error e
          | .ok none => .ok none
          | .ok (some pos) => .ok (some (start.tail, start.tail.length - stop.length, pos))

/-- `json_get_next_object`; NULL when no value follows. An array has no keys. -/
def jsonGetNextObject (type : JsonType) (str : Ptr) : Except Overrun (Option Entry) :=
  if type = .object then
    match getKey str with
    | .error e => .error e
    | .ok none => .ok none
    | .ok (some (key, keyLen, pos)) => getValue key keyLen pos
  else getValue [] 0 str

inductive Ending where
  | finished | overrun | unfinished
  deriving DecidableEq

/-- The entries of a loop that runs to its end. -/
structure Walk where
  entries : List Entry
  ending : Ending
  deriving DecidableEq

/-- The steps of a loop from a position on. -/
def walk (type : JsonType) : ℕ → Ptr → Walk
  | 0, _ => ⟨[], .unfinished⟩
  | _ + 1, [] => ⟨[], .overrun⟩
  | fuel + 1, c :: p =>
      if c = 0 then ⟨[], .finished⟩
      else
        match jsonGetNextObject type (if type = .object then c :: p else p) with
        | .error _ => ⟨[], .overrun⟩
        | .ok none => ⟨[], .finished⟩
        | .ok (some entry) =>
            let rest := walk type fuel entry.next
            ⟨entry :: rest.entries, rest.ending⟩

/-- `json_object_for_each_kv` for objects, `json_array_for_each_entry` for arrays. -/
def forEach (type : JsonType) (str : Ptr) : Walk :=
  match jsonGetObject type str with
  | .error _ => ⟨[], .overrun⟩
  | .ok none => ⟨[], .finished⟩
  | .ok (some pos) => walk type (str.length + 1) pos

end Scanner

section Text
variable {p q : Ptr} {ch : UInt8}

/-- A pointer at or before the NUL of a text. -/
def InText (p : Ptr) : Prop := ∃ text, p = text ++ [0] ∧ 0 ∉ text

theorem InText.cons {c : UInt8} (h : InText (c :: p)) (hc : c ≠ 0) : InText p := by
  obtain ⟨text, htext, hnul⟩ := h
  cases text with
  | nil =>
    rw [List.nil_append, List.cons.injEq] at htext
    exact absurd htext.1 hc
  | cons t text =>
    rw [List.cons_append, List.cons.injEq] at htext
    exact ⟨text, htext.2, fun hmem => hnul (List.mem_cons_of_mem t hmem)⟩

theorem InText.end {c : UInt8} (h : InText (c :: p)) (hc : c = 0) : p = [] := by
  obtain ⟨text, htext, hnul⟩ := h
  cases text with
  | nil => exact (List.cons.inj htext).2
  | cons t text =>
    rw [List.cons_append, List.cons.injEq] at htext
    have ht : (0 : UInt8) = t := hc.symm.trans htext.1
    exact absurd (ht ▸ List.mem_cons_self ..) hnul

theorem InText.ne_nil (h : InText p) : p ≠ [] := by
  obtain ⟨text, rfl, -⟩ := h
  simp

/-- A part of a text that is not behind its NUL is one as well. -/
theorem InText.suffix (h : InText p) (hsuffix : q <:+ p) (hne : q ≠ []) : InText q := by
  obtain ⟨text, rfl, hnul⟩ := h
  obtain ⟨front, hfront⟩ := hsuffix
  obtain ⟨init, last, rfl⟩ := List.eq_nil_or_concat q |>.resolve_left hne
  rw [List.concat_eq_append, ← List.append_assoc] at hfront
  obtain ⟨hinit, hlast⟩ := List.append_inj' hfront rfl
  refine ⟨init, by rw [List.concat_eq_append, hlast], ?_⟩
  intro hmem
  exact hnul (hinit ▸ List.mem_append_right front hmem)

/-- There is no NUL in front of a part of a text. -/
theorem InText.front {front : List UInt8} (h : InText (front ++ q)) (hne : q ≠ []) :
    (0 : UInt8) ∉ front := by
  obtain ⟨text, heq, hnul⟩ := h
  obtain ⟨init, last, rfl⟩ := List.eq_nil_or_concat q |>.resolve_left hne
  rw [List.concat_eq_append, ← List.append_assoc] at heq
  obtain ⟨rfl, -⟩ := List.append_inj' heq rfl
  intro hmem
  exact hnul (List.mem_append_left init hmem)

theorem InText.drop (h : InText p) {n : ℕ} (hn : n < p.length) : InText (p.drop n) := by
  apply h.suffix (List.drop_suffix n p)
  intro hnil
  rw [List.drop_eq_nil_iff] at hnil
  omega

theorem strlen_inText (h : InText p) : ∃ n, strlen p = .ok n := by
  obtain ⟨text, rfl, hnul⟩ := h
  induction text with
  | nil => exact ⟨0, rfl⟩
  | cons t text ih =>
    obtain ⟨n, hn⟩ := ih fun hmem => hnul (List.mem_cons_of_mem t hmem)
    have ht : t ≠ 0 := fun ht => hnul (ht ▸ List.mem_cons_self ..)
    refine ⟨n + 1, ?_⟩
    rw [List.cons_append, strlen, if_neg ht, hn]

/-- What `strchr` finds in a text: the first occurrence, or nothing up to the NUL. -/
theorem strchr_inText (ch : UInt8) (hch : ch ≠ 0) (h : InText p) :
    (strchr ch p = .ok none ∧ ch ∉ p) ∨
      ∃ front q, strchr ch p = .ok (some (ch :: q)) ∧ p = front ++ ch :: q ∧ ch ∉ front := by
  obtain ⟨text, rfl, hnul⟩ := h
  induction text with
  | nil =>
    left
    rw [List.nil_append, strchr, if_neg hch.symm, if_pos rfl]
    exact ⟨rfl, by simpa using hch⟩
  | cons t text ih =>
    have ht : t ≠ 0 := fun ht => hnul (ht ▸ List.mem_cons_self ..)
    by_cases hfound : t = ch
    · right
      refine ⟨[], text ++ [0], ?_, ?_, List.not_mem_nil⟩
      · rw [List.cons_append, strchr, if_pos hfound, hfound]
      · rw [hfound]
        rfl
    · rw [List.cons_append, strchr, if_neg hfound, if_neg ht]
      rcases ih fun hmem => hnul (List.mem_cons_of_mem t hmem) with ⟨hnone, hmem⟩ |
        ⟨front, q, hsome, heq, hmem⟩
      · left
        refine ⟨hnone, ?_⟩
        intro hin
        rcases List.mem_cons.mp hin with heq | hin
        · exact hfound heq.symm
        · exact hmem hin
      · right
        refine ⟨t :: front, q, hsome, by rw [heq]; rfl, ?_⟩
        intro hin
        rcases List.mem_cons.mp hin with heq | hin
        · exact hfound heq.symm
        · exact hmem hin

theorem strchr_append {front : List UInt8} (hch : ch ∉ front) (hnul : (0 : UInt8) ∉ front) :
    strchr ch (front ++ ch :: q) = .ok (some (ch :: q)) := by
  induction front with
  | nil => rw [List.nil_append, strchr, if_pos rfl]
  | cons c front ih =>
    have hne : c ≠ ch := fun h => hch (h ▸ List.mem_cons_self ..)
    have hzero : c ≠ 0 := fun h => hnul (h ▸ List.mem_cons_self ..)
    rw [List.cons_append, strchr, if_neg hne, if_neg hzero]
    exact ih (fun h => hch (List.mem_cons_of_mem c h)) fun h => hnul (List.mem_cons_of_mem c h)

def startsValue (c : UInt8) : Bool :=
  c == quote || c == openBrace || c == openBracket || c == minus || isDigit c ||
    c == 0x74 || c == 0x54 || c == 0x66 || c == 0x46 || c == 0x6E || c == 0x4E

/-- The search for a value skips what starts none. -/
theorem findValue_skip {gap : List UInt8} (hgap : ∀ c ∈ gap, startsValue c = false)
    (hnul : (0 : UInt8) ∉ gap) : findValue (gap ++ p) = findValue p := by
  induction gap with
  | nil => rfl
  | cons c gap ih =>
    have hzero : c ≠ 0 := fun h => hnul (h ▸ List.mem_cons_self ..)
    have hc := hgap c (List.mem_cons_self ..)
    simp only [startsValue, Bool.or_eq_false_iff, beq_eq_false_iff_ne] at hc
    rw [List.cons_append, findValue]
    simp only [hzero, hc, if_false, or_self, Bool.false_eq_true]
    exact ih (fun c' h => hgap c' (List.mem_cons_of_mem c h)) fun h => hnul
      (List.mem_cons_of_mem c h)

/-- What the search for a value finds in a text. -/
theorem findValue_inText (h : InText p) :
    findValue p = .ok none ∨
      (∃ gap rest, p = gap ++ quote :: rest ∧ (∀ c ∈ gap, startsValue c = false) ∧
        findValue p = .ok (some (.string, rest, rest)) ∧ InText rest) ∨
      ∃ type value pos, type ≠ .string ∧ findValue p = .ok (some (type, value, pos)) ∧
        value <:+ p ∧ pos <:+ value ∧ InText pos := by
  induction p with
  | nil => exact absurd rfl h.ne_nil
  | cons c p ih =>
    rw [findValue]
    split_ifs with hzero hquote hbrace hbracket hnumber hboolean hnull
    · exact .inl rfl
    · refine .inr (.inl ⟨[], p, by rw [hquote]; rfl, by simp, rfl, h.cons hzero⟩)
    · exact .inr
        (.inr ⟨_, _, _, by decide, rfl, List.suffix_rfl, List.suffix_cons c p, h.cons hzero⟩)
    · exact .inr
        (.inr ⟨_, _, _, by decide, rfl, List.suffix_rfl, List.suffix_cons c p, h.cons hzero⟩)
    · exact .inr
        (.inr ⟨_, _, _, by decide, rfl, List.suffix_rfl, List.suffix_cons c p, h.cons hzero⟩)
    · exact .inr (.inr ⟨_, _, _, by decide, rfl, List.suffix_rfl, List.suffix_rfl, h⟩)
    · exact .inr (.inr ⟨_, _, _, by decide, rfl, List.suffix_rfl, List.suffix_rfl, h⟩)
    · have hc : startsValue c = false := by
        simp only [startsValue, Bool.or_eq_false_iff, beq_eq_false_iff_ne]
        simp only [not_or, Bool.not_eq_true] at hnumber hboolean hnull
        tauto
      rcases ih (h.cons hzero) with hnone | ⟨gap, rest, heq, hgap, hfind, hrest⟩ |
        ⟨type, value, pos, htype, hfind, hvalue, hpos, htext⟩
      · exact .inl hnone
      · refine .inr (.inl ⟨c :: gap, rest, by rw [heq]; rfl, ?_, hfind, hrest⟩)
        intro c' hmem
        rcases List.mem_cons.mp hmem with rfl | hmem
        · exact hc
        · exact hgap c' hmem
      · exact .inr (.inr ⟨type, value, pos, htype, hfind, hvalue.trans (List.suffix_cons c p), hpos,
          htext⟩)

theorem scanNumber_inText {value : Ptr} (h : InText p) (hsuffix : p <:+ value) :
    ∃ len, scanNumber value p = .ok len ∧ len < value.length := by
  induction p with
  | nil => exact absurd rfl h.ne_nil
  | cons c p ih =>
    have hlength := hsuffix.length_le
    rw [List.length_cons] at hlength
    rw [scanNumber]
    split_ifs with hzero hend
    · exact ⟨0, rfl, by omega⟩
    · exact ⟨_, rfl, by rw [List.length_cons]; omega⟩
    · exact ih (h.cons hzero) ((List.suffix_cons c p).trans hsuffix)

/-- A scan between marks ends in the text; behind a string there is room for its closing
quote. -/
theorem scanMarked_inText {type : JsonType} {mark₀ mark₁ : UInt8} {value : Ptr} {depth : ℕ}
    {last : UInt8} {len : ℕ} (h : InText p) (hsuffix : p <:+ value)
    (hlen : len = 0 ∨ len + (if type = .string then 1 else 0) < value.length) :
    ∃ len', scanMarked type mark₀ mark₁ value depth last len p = .ok len' ∧
      (len' = 0 ∨ len' + (if type = .string then 1 else 0) < value.length) := by
  induction p generalizing depth last len with
  | nil => exact absurd rfl h.ne_nil
  | cons c p ih =>
    have hlength := hsuffix.length_le
    rw [List.length_cons] at hlength
    have hrest : c ≠ 0 → InText p ∧ p <:+ value := by
      intro hzero
      exact ⟨h.cons hzero, (List.suffix_cons c p).trans hsuffix⟩
    rw [scanMarked]
    by_cases hzero : c = 0
    · rw [if_pos hzero]
      exact ⟨len, rfl, hlen⟩
    rw [if_neg hzero]
    obtain ⟨htext, hsuffix'⟩ := hrest hzero
    have hpos : 0 < p.length := List.length_pos_of_ne_nil htext.ne_nil
    by_cases hclose : c = mark₁
    · rw [if_pos hclose]
      by_cases hdepth : depth = 0
      · rw [if_pos hdepth]
        have hclosed : value.length - (c :: p).length + (if type = .string then 0 else 1) +
            (if type = .string then 1 else 0) < value.length := by
          rw [List.length_cons]
          split <;> omega
        dsimp only
        by_cases hescaped : type = .string ∧ last = backslash
        · rw [if_pos hescaped]
          cases p with
          | nil => exact absurd rfl htext.ne_nil
          | cons next p => exact ih htext hsuffix' (.inr hclosed)
        · rw [if_neg hescaped]
          exact ⟨_, rfl, .inr hclosed⟩
      · rw [if_neg hdepth]
        exact ih htext hsuffix' hlen
    · rw [if_neg hclose]
      by_cases hopen : c = mark₀
      · rw [if_pos hopen]
        exact ih htext hsuffix' hlen
      · rw [if_neg hopen]
        exact ih htext hsuffix' hlen

theorem scanLiteral_inText {literals : List (List UInt8)} (h : InText p)
    (hliterals : ∀ literal ∈ literals, (0 : UInt8) ∉ literal) :
    ∃ len, scanLiteral literals p = .ok len ∧ len < p.length := by
  have hpos : 0 < p.length := List.length_pos_of_ne_nil h.ne_nil
  obtain ⟨n, hn⟩ := strlen_inText h
  unfold scanLiteral
  rw [hn]
  dsimp only
  split
  next literal hfind =>
    refine ⟨literal.length, rfl, ?_⟩
    have hleft : literal <+: p := by simpa using List.find?_some hfind
    have hnul := hliterals literal (List.mem_of_find?_eq_some hfind)
    rcases Nat.lt_or_ge literal.length p.length with hlt | hge
    · exact hlt
    · have heq := hleft.eq_of_length_le hge
      obtain ⟨text, rfl, -⟩ := h
      rw [heq] at hnul
      simp at hnul
  · exact ⟨0, rfl, hpos⟩

/-- The length of a value stays in the text, and so does the closing quote of a string
that is not empty. -/
theorem valueLen_inText (type : JsonType) {value : Ptr} (h : InText p) (hvalue : InText value)
    (hsuffix : p <:+ value) :
    ∃ len, valueLen type value p = .ok len ∧
      (len = 0 ∨ len + (if type = .string then 1 else 0) < value.length) := by
  cases type with
  | string => exact scanMarked_inText h hsuffix (.inl rfl)
  | object => exact scanMarked_inText h hsuffix (.inl rfl)
  | array => exact scanMarked_inText h hsuffix (.inl rfl)
  | number =>
    obtain ⟨len, hscan, hlen⟩ := scanNumber_inText h hsuffix
    exact ⟨len, hscan, .inr hlen⟩
  | boolean =>
    have hliterals : ∀ literal ∈ [trueText, capitalTrue, falseText, capitalFalse],
      (0 : UInt8) ∉ literal := by decide
    obtain ⟨len, hscan, hlen⟩ := scanLiteral_inText hvalue hliterals
    exact ⟨len, hscan, .inr hlen⟩
  | null =>
    have hliterals : ∀ literal ∈ [nullText, capitalNull], (0 : UInt8) ∉ literal := by decide
    obtain ⟨len, hscan, hlen⟩ := scanLiteral_inText hvalue hliterals
    exact ⟨len, hscan, .inr hlen⟩

end Text

section Loops
variable {p q : Ptr}

/-- A text that ends in a quote, before which no value starts. -/
def EndsInQuote (p : Ptr) : Prop :=
  ∃ gap, p = gap ++ [quote, 0] ∧ ∀ c ∈ gap, startsValue c = false

theorem EndsInQuote.findValue (h : EndsInQuote p) (htext : InText p) :
    findValue p = .ok (some (.string, [0], [0])) := by
  obtain ⟨gap, rfl, hgap⟩ := h
  rw [findValue_skip hgap (htext.front (List.cons_ne_nil _ _))]
  rfl

/-- What the value part reports in a text lies in it. It continues behind the text only
after a string whose opening quote is the last character. -/
theorem getValue_inText (key : Ptr) (keyLen : ℕ) (h : InText p) :
    (getValue key keyLen p = .ok none ∧ ¬ EndsInQuote p) ∨
      ∃ entry, getValue key keyLen p = .ok (some entry) ∧ entry.key = key ∧
        entry.keyLen = keyLen ∧ entry.val <:+ p ∧ entry.valLen < entry.val.length ∧
        entry.next <:+ p ∧ (entry.next = [] ↔ EndsInQuote p) := by
  unfold getValue
  rcases findValue_inText h with hnone | ⟨gap, rest, heq, hgap, hfind, hrest⟩ |
    ⟨type, value, pos, htype, hfind, hvalue, hpos, htext⟩
  · left
    rw [hnone]
    refine ⟨rfl, ?_⟩
    intro hends
    rw [hends.findValue h] at hnone
    cases hnone
  · right
    have hsuffix : rest <:+ p := ⟨gap ++ [quote], by rw [heq, List.append_assoc]; rfl⟩
    have hpos : 0 < rest.length := List.length_pos_of_ne_nil hrest.ne_nil
    obtain ⟨len, hlen, hbound⟩ := valueLen_inText .string hrest hrest List.suffix_rfl
    rw [hfind]
    dsimp only
    rw [hlen]
    rw [if_pos rfl] at hbound
    refine ⟨_, rfl, rfl, rfl, hsuffix, by dsimp only; omega,
      (List.drop_suffix _ rest).trans hsuffix, ?_⟩
    dsimp only
    rw [if_pos rfl, List.drop_eq_nil_iff]
    constructor
    · intro hend
      obtain ⟨text, rfl, -⟩ := hrest
      rw [List.length_append, List.length_singleton] at hend hbound
      have htext : text = [] := List.eq_nil_of_length_eq_zero (by omega)
      refine ⟨gap, ?_, hgap⟩
      rw [heq, htext]
      rfl
    · intro hends
      rw [hends.findValue h] at hfind
      obtain rfl : [0] = rest := by simpa using hfind
      rw [List.length_singleton]
      omega
  · right
    have hvalueText : InText value := h.suffix hvalue (by
      intro hnil
      rw [hnil, List.suffix_nil] at hpos
      exact htext.ne_nil hpos)
    have hposValue : 0 < value.length := List.length_pos_of_ne_nil hvalueText.ne_nil
    obtain ⟨len, hlen, hbound⟩ := valueLen_inText type htext hvalueText hpos
    rw [hfind]
    dsimp only
    rw [hlen]
    rw [if_neg htype] at hbound
    refine ⟨_, rfl, rfl, rfl, hvalue, by dsimp only; omega,
      (List.drop_suffix _ value).trans hvalue, ?_⟩
    dsimp only
    rw [if_neg htype, List.drop_eq_nil_iff]
    constructor
    · intro hend
      omega
    · intro hends
      rw [hends.findValue h] at hfind
      simp only [Except.ok.injEq, Option.some.injEq, Prod.mk.injEq] at hfind
      exact absurd hfind.1.symm htype

/-- The key part on a text that has a key. -/
theorem getKey_append {before key gap : List UInt8} (rest : Ptr) (hbefore : quote ∉ before)
    (hkey : quote ∉ key) (hgap : colon ∉ gap)
    (hnul : (0 : UInt8) ∉ before ∧ (0 : UInt8) ∉ key ∧ (0 : UInt8) ∉ gap) :
    getKey (before ++ quote :: (key ++ quote :: (gap ++ colon :: rest))) =
      .ok (some (key ++ quote :: (gap ++ colon :: rest), key.length, colon :: rest)) := by
  have hgap' : colon ∉ quote :: gap := by
    intro hmem
    rcases List.mem_cons.mp hmem with heq | hmem
    · exact absurd heq (by decide)
    · exact hgap hmem
  have hnul' : (0 : UInt8) ∉ quote :: gap := by
    intro hmem
    rcases List.mem_cons.mp hmem with heq | hmem
    · exact absurd heq (by decide)
    · exact hnul.2.2 hmem
  have hcolon : strchr colon (quote :: gap ++ colon :: rest) = .ok (some (colon :: rest)) :=
    strchr_append hgap' hnul'
  rw [List.cons_append] at hcolon
  unfold getKey
  rw [strchr_append hbefore hnul.1]
  dsimp only [List.tail_cons]
  rw [strchr_append hkey hnul.2.1]
  dsimp only
  rw [hcolon]
  dsimp only
  rw [List.length_append, Nat.add_sub_cancel]

/-- What the key part finds in a text. -/
theorem getKey_inText (h : InText p) :
    getKey p = .ok none ∨
      ∃ before key gap rest, p = before ++ quote :: (key ++ quote :: (gap ++ colon :: rest)) ∧
        quote ∉ before ∧ quote ∉ key ∧ colon ∉ gap := by
  unfold getKey
  rcases strchr_inText quote (by decide) h with ⟨hnone, -⟩ |
    ⟨before, p₁, hstart, heq₁, hbefore⟩
  · left
    rw [hnone]
  have htext₁ : InText p₁ :=
    (h.suffix ⟨before, heq₁.symm⟩ (List.cons_ne_nil _ _)).cons (by decide)
  rw [hstart]
  dsimp only [List.tail_cons]
  rcases strchr_inText quote (by decide) htext₁ with ⟨hnone, -⟩ |
    ⟨key, p₂, hstop, heq₂, hkey⟩
  · left
    rw [hnone]
  have htext₂ : InText p₂ :=
    (htext₁.suffix ⟨key, heq₂.symm⟩ (List.cons_ne_nil _ _)).cons (by decide)
  rw [hstop]
  dsimp only
  have hquote : ∀ q, strchr colon (quote :: q) = strchr colon q := by
    intro q
    rw [strchr, if_neg (by decide), if_neg (by decide)]
  rw [hquote]
  rcases strchr_inText colon (by decide) htext₂ with ⟨hnone, -⟩ |
    ⟨gap, rest, hcolon, heq₃, hgap⟩
  · left
    rw [hnone]
  · right
    exact ⟨before, key, gap, rest, by rw [heq₁, heq₂, heq₃], hbefore, hkey, hgap⟩

/-- The position of a loop is one from which it continues behind the text: a value
follows that is a string, and its opening quote is the last character. -/
def Dangling (type : JsonType) (p : Ptr) : Prop :=
  if type = .object then
    ∃ before key gap rest, p = before ++ quote :: (key ++ quote :: (gap ++ colon :: rest)) ∧
      quote ∉ before ∧ quote ∉ key ∧ colon ∉ gap ∧ EndsInQuote (colon :: rest)
  else EndsInQuote p.tail

/-- A loop continues from one position at another. -/
def Continues (type : JsonType) (p q : Ptr) : Prop :=
  p ≠ [] ∧ p.head? ≠ some 0 ∧
    ∃ entry, jsonGetNextObject type (if type = .object then p else p.tail) = .ok (some entry) ∧
      entry.next = q

/-- The positions at which a loop over this memory tests for its end. -/
def Reached (type : JsonType) (str q : Ptr) : Prop :=
  ∃ start, jsonGetObject type str = .ok (some start) ∧
    Relation.ReflTransGen (Continues type) start q

/-- A loop over a text ends, examines nothing behind the NUL, and reports slices of the
text. -/
structure StaysInside (text : List UInt8) (loop : Walk) : Prop where
  ending : loop.ending = .finished
  slices : ∀ entry ∈ loop.entries, entry.val <:+ text ++ [0] ∧ entry.valLen < entry.val.length

/-- One step of a loop in a text. -/
theorem jsonGetNextObject_inText {c : UInt8} (type : JsonType) (h : InText (c :: p)) (hc : c ≠ 0) :
    (jsonGetNextObject type (if type = .object then c :: p else p) = .ok none ∧
        ¬ Dangling type (c :: p)) ∨
      ∃ entry, jsonGetNextObject type (if type = .object then c :: p else p) = .ok (some entry) ∧
        entry.val <:+ c :: p ∧ entry.valLen < entry.val.length ∧ entry.next <:+ p ∧
        (entry.next = [] ↔ Dangling type (c :: p)) := by
  unfold jsonGetNextObject Dangling
  by_cases htype : type = .object
  · simp only [htype, if_true]
    have hfound : ∀ before key gap rest,
        c :: p = before ++ quote :: (key ++ quote :: (gap ++ colon :: rest)) →
        quote ∉ before → quote ∉ key → colon ∉ gap →
        getKey (c :: p) =
          .ok (some (key ++ quote :: (gap ++ colon :: rest), key.length, colon :: rest)) := by
      intro before key gap rest heq hbefore hkey hgap
      rw [heq] at h ⊢
      have htext₁ : InText (key ++ quote :: (gap ++ colon :: rest)) :=
        (h.suffix (List.suffix_append before _) (List.cons_ne_nil _ _)).cons (by decide)
      have htext₂ : InText (gap ++ colon :: rest) :=
        (htext₁.suffix (List.suffix_append key _) (List.cons_ne_nil _ _)).cons (by decide)
      exact getKey_append rest hbefore hkey hgap ⟨h.front (List.cons_ne_nil _ _),
        htext₁.front (List.cons_ne_nil _ _), htext₂.front (List.cons_ne_nil _ _)⟩
    rcases getKey_inText h with hnone | ⟨before, key, gap, rest, heq, hbefore, hkey, hgap⟩
    · left
      rw [hnone]
      refine ⟨rfl, ?_⟩
      rintro ⟨before, key, gap, rest, heq, hbefore, hkey, hgap, -⟩
      rw [hfound before key gap rest heq hbefore hkey hgap] at hnone
      cases hnone
    · have hsome := hfound before key gap rest heq hbefore hkey hgap
      have hpos : colon :: rest <:+ p := by
        have hall : colon :: rest <:+ c :: p :=
          ⟨before ++ quote :: (key ++ quote :: gap), by rw [heq]; simp⟩
        rcases List.suffix_cons_iff.mp hall with hwhole | hpart
        · have hlength := congrArg List.length (hwhole.trans heq)
          simp only [List.length_cons, List.length_append] at hlength
          omega
        · exact hpart
      have htext : InText (colon :: rest) :=
        h.suffix (hpos.trans (List.suffix_cons c p)) (List.cons_ne_nil _ _)
      have hunique : (∃ before key gap rest,
          c :: p = before ++ quote :: (key ++ quote :: (gap ++ colon :: rest)) ∧
          quote ∉ before ∧ quote ∉ key ∧ colon ∉ gap ∧ EndsInQuote (colon :: rest)) ↔
          EndsInQuote (colon :: rest) := by
        constructor
        · rintro ⟨before', key', gap', rest', heq', hbefore', hkey', hgap', hends⟩
          have hsome' := hfound before' key' gap' rest' heq' hbefore' hkey' hgap'
          rw [hsome] at hsome'
          simp only [Except.ok.injEq, Option.some.injEq, Prod.mk.injEq] at hsome'
          rwa [hsome'.2.2]
        · intro hends
          exact ⟨before, key, gap, rest, heq, hbefore, hkey, hgap, hends⟩
      rw [hsome, hunique]
      dsimp only
      rcases getValue_inText (key ++ quote :: (gap ++ colon :: rest)) key.length htext with
        hnone | ⟨entry, hentry, -, -, hval, hlen, hnext, hends⟩
      · exact .inl hnone
      · exact .inr ⟨entry, hentry, (hval.trans hpos).trans (List.suffix_cons c p), hlen,
          hnext.trans hpos, hends⟩
  · simp only [htype, if_false, List.tail_cons]
    rcases getValue_inText [] 0 (h.cons hc) with hnone |
      ⟨entry, hentry, -, -, hval, hlen, hnext, hends⟩
    · exact .inl hnone
    · exact .inr ⟨entry, hentry, hval.trans (List.suffix_cons c p), hlen, hnext, hends⟩

theorem not_dangling_end (type : JsonType) : ¬ Dangling type [0] := by
  unfold Dangling
  split
  · rintro ⟨before, key, gap, rest, heq, -⟩
    have hlength := congrArg List.length heq
    simp only [List.length_cons, List.length_append, List.length_nil] at hlength
    omega
  · rintro ⟨gap, heq, -⟩
    exact absurd heq.symm (by simp)

/-- A walk from a position in a text: with enough fuel it ends, and inside the text unless
it comes to a position that dangles. -/
theorem walk_inText (type : JsonType) (fuel : ℕ) (h : InText p) (hfuel : p.length ≤ fuel) :
    ((walk type fuel p).ending = .finished ↔
        ∀ q, Relation.ReflTransGen (Continues type) p q → ¬ Dangling type q) ∧
      (walk type fuel p).ending ≠ .unfinished ∧
      ∀ entry ∈ (walk type fuel p).entries, entry.val <:+ p ∧ entry.valLen < entry.val.length := by
  induction fuel generalizing p with
  | zero => exact absurd (List.eq_nil_of_length_eq_zero (Nat.le_zero.mp hfuel)) h.ne_nil
  | succ fuel ih =>
    cases p with
    | nil => exact absurd rfl h.ne_nil
    | cons c p =>
      rw [List.length_cons] at hfuel
      have hstuck : (∀ q, ¬ Continues type (c :: p) q) → ¬ Dangling type (c :: p) →
          ∀ q, Relation.ReflTransGen (Continues type) (c :: p) q → ¬ Dangling type q := by
        intro hno hkept q hreach
        rcases Relation.ReflTransGen.cases_head hreach with rfl | ⟨q', hstep, -⟩
        · exact hkept
        · exact absurd hstep (hno q')
      rw [walk]
      by_cases hc : c = 0
      · rw [if_pos hc]
        have hkept : ¬ Dangling type (c :: p) := by
          rw [h.end hc, hc]
          exact not_dangling_end type
        have hno : ∀ q, ¬ Continues type (c :: p) q := by
          rintro q ⟨-, hhead, -⟩
          rw [hc] at hhead
          exact hhead rfl
        exact ⟨⟨fun _ => hstuck hno hkept, fun _ => rfl⟩, by simp, by simp⟩
      rw [if_neg hc]
      rcases jsonGetNextObject_inText type h hc with ⟨hnone, hkept⟩ |
        ⟨entry, hentry, hval, hlen, hnext, hends⟩
      · rw [hnone]
        have hno : ∀ q, ¬ Continues type (c :: p) q := by
          rintro q ⟨-, -, entry, hentry, -⟩
          rw [List.tail_cons, hnone] at hentry
          cases hentry
        exact ⟨⟨fun _ => hstuck hno hkept, fun _ => rfl⟩, by simp, by simp⟩
      · rw [hentry]
        dsimp only
        have hstep : Continues type (c :: p) entry.next := by
          refine ⟨List.cons_ne_nil c p, ?_, entry, hentry, rfl⟩
          simpa using hc
        by_cases hend : entry.next = []
        · -- the loop continues behind the text
          have hover : walk type fuel entry.next = ⟨[], .overrun⟩ := by
            have hpos : 0 < p.length := List.length_pos_of_ne_nil (h.cons hc).ne_nil
            obtain ⟨fuel', rfl⟩ : ∃ fuel', fuel = fuel' + 1 := ⟨fuel - 1, by omega⟩
            rw [hend, walk]
          rw [hover]
          refine ⟨⟨?_, ?_⟩, by simp, ?_⟩
          · intro hfinished
            cases hfinished
          · intro hall
            exact absurd (hends.mp hend) (hall (c :: p) .refl)
          · intro entry' hmem
            obtain rfl := List.mem_singleton.mp hmem
            exact ⟨hval, hlen⟩
        · have hnextText : InText entry.next := (h.cons hc).suffix hnext hend
          have hlength := hnext.length_le
          obtain ⟨hfinished, hfueled, hslices⟩ := ih hnextText (by omega)
          refine ⟨hfinished.trans ⟨?_, ?_⟩, hfueled, ?_⟩
          · intro hall q hreach
            rcases Relation.ReflTransGen.cases_head hreach with rfl | ⟨q', hfirst, hrest⟩
            · exact fun hdangling => hend (hends.mpr hdangling)
            · obtain ⟨-, -, entry', hentry', rfl⟩ := hfirst
              rw [List.tail_cons, hentry] at hentry'
              obtain rfl := Option.some.inj (Except.ok.inj hentry')
              exact hall q hrest
          · intro hall q hreach
            exact hall q (.head hstep hreach)
          · intro entry' hmem
            rcases List.mem_cons.mp hmem with rfl | hmem
            · exact ⟨hval, hlen⟩
            · obtain ⟨hval', hlen'⟩ := hslices entry' hmem
              exact ⟨hval'.trans (hnext.trans (List.suffix_cons c p)), hlen'⟩

theorem jsonGetObject_inText (type : JsonType) (h : InText p) :
    jsonGetObject type p = .ok none ∨
      ∃ start, jsonGetObject type p = .ok (some start) ∧ start <:+ p ∧ start ≠ [] := by
  induction p with
  | nil => exact absurd rfl h.ne_nil
  | cons c p ih =>
    rw [jsonGetObject]
    by_cases hzero : c = 0
    · rw [if_pos hzero]
      exact .inl rfl
    rw [if_neg hzero]
    by_cases hspace : c = space
    · rw [if_pos hspace]
      rcases ih (h.cons hzero) with hnone | ⟨start, hsome, hsuffix, hne⟩
      · exact .inl hnone
      · exact .inr ⟨start, hsome, hsuffix.trans (List.suffix_cons c p), hne⟩
    rw [if_neg hspace]
    by_cases hopen : c = (if type = .object then openBrace else openBracket)
    · rw [if_pos hopen]
      exact .inr ⟨c :: p, rfl, List.suffix_rfl, List.cons_ne_nil c p⟩
    · rw [if_neg hopen]
      exact .inl rfl

/-- A loop over a NUL-terminated text ends, stays inside the text and reports slices of it
exactly if it comes to no position that dangles. -/
theorem forEach_staysInside_iff (type : JsonType) (text : List UInt8) (hnul : (0 : UInt8) ∉ text) :
    StaysInside text (forEach type (text ++ [0])) ↔
      ∀ q, Reached type (text ++ [0]) q → ¬ Dangling type q := by
  have htext : InText (text ++ [0]) := ⟨text, rfl, hnul⟩
  unfold forEach Reached
  rcases jsonGetObject_inText type htext with hnone | ⟨start, hsome, hsuffix, hne⟩
  · rw [hnone]
    refine ⟨?_, fun _ => ⟨rfl, by simp⟩⟩
    rintro - q ⟨start, hstart, -⟩
    cases hstart
  · rw [hsome]
    dsimp only
    have hlength := hsuffix.length_le
    obtain ⟨hfinished, -, hslices⟩ := walk_inText type ((text ++ [0]).length + 1)
      (htext.suffix hsuffix hne) (by omega)
    have hreach : (∀ q, Relation.ReflTransGen (Continues type) start q → ¬ Dangling type q) ↔
        ∀ q,
          (∃ start', Except.ok (some start) =
          (Except.ok (some start') : Except Overrun (Option Ptr)) ∧
          Relation.ReflTransGen (Continues type) start' q) → ¬ Dangling type q := by
      constructor
      · rintro hall q ⟨start', heq, hreach⟩
        obtain rfl := Option.some.inj (Except.ok.inj heq)
        exact hall q hreach
      · intro hall q hreach
        exact hall q ⟨start, rfl, hreach⟩
    rw [← hreach, ← hfinished]
    constructor
    · exact StaysInside.ending
    · intro hend
      refine ⟨hend, ?_⟩
      intro entry hmem
      obtain ⟨hval, hlen⟩ := hslices entry hmem
      exact ⟨hval.trans hsuffix, hlen⟩

/-- An object whose text ends with the opening quote of a value, as in `{"a":"`. -/
theorem forEach_dangling_quote :
    ¬ StaysInside [openBrace, quote, 0x61, quote, colon, quote]
      (forEach .object ([openBrace, quote, 0x61, quote, colon, quote] ++ [0])) := by
  intro h
  exact absurd h.ending (by decide)

/-- A loop over the object `{"a":"b"}`. -/
theorem forEach_staysInside_object :
    StaysInside [openBrace, quote, 0x61, quote, colon, quote, 0x62, quote, closeBrace]
        (forEach .object ([openBrace, quote, 0x61, quote, colon, quote, 0x62, quote,
          closeBrace] ++ [0])) ∧
      ∀ q, Reached .object
        ([openBrace, quote, 0x61, quote, colon, quote, 0x62, quote, closeBrace] ++ [0]) q →
        ¬ Dangling .object q := by
  have hinside : StaysInside [openBrace, quote, 0x61, quote, colon, quote, 0x62, quote, closeBrace]
      (forEach .object ([openBrace, quote, 0x61, quote, colon, quote, 0x62, quote,
        closeBrace] ++ [0])) :=
    ⟨by decide, by decide⟩
  exact ⟨hinside, (forEach_staysInside_iff .object _ (by decide)).mp hinside⟩

end Loops

end IotExplorer.JsonParser
