import IotExplorer.JsonLookup
import Mathlib.Data.List.TakeWhile

/-!
What the scanner makes of a well-formed object. A member is scanned right when
no colon follows a quote in its name, a string value does not end in a backslash,
unless nothing quoted follows it, and the brackets of a nested value, those in its
strings counted as well, first close at its end. As long as the members are
scanned right, the loop reports them one by one, and a search by name returns the
first member of that name.
-/
namespace IotExplorer.JsonObjects

open Basis.JsonText JsonParser JsonLookup

def jsonType : Json → JsonType
  | .string _ => .string
  | .number _ => .number
  | .boolean _ => .boolean
  | .null => .null
  | .array .. => .array
  | .object .. => .object

/-- Counting only this kind of bracket, the closing one that belongs to an opening one in
front of the text is the last character of the text. -/
def closesAtEnd (mark₀ mark₁ : UInt8) : ℕ → List UInt8 → Bool
  | _, [] => false
  | depth, c :: rest =>
      if c = mark₁ then
        if depth = 0 then rest.isEmpty else closesAtEnd mark₀ mark₁ (depth - 1) rest
      else if c = mark₀ then closesAtEnd mark₀ mark₁ (depth + 1) rest
      else closesAtEnd mark₀ mark₁ depth rest

/-- The scanner delimits the value right; nothing quoted follows a final one. -/
def scansRight (final : Bool) (value : Json) : Bool :=
  match value with
  | .string raw => final || raw.getLast? != some backslash
  | .array .. => closesAtEnd openBracket closeBracket 0 value.text.tail
  | .object .. => closesAtEnd openBrace closeBrace 0 value.text.tail
  | _ => true

/-- What the scanner takes for the name of a member: up to the first quote. -/
def keyName (name : List UInt8) : List UInt8 := name.takeWhile fun c => c != quote

/-- The scanner finds the colon behind the name. -/
def nameScansRight (name : List UInt8) : Bool :=
  !(name.dropWhile fun c => c != quote).contains colon

/-- There is no quote from here to the end of the text. -/
def Quiet (p : Ptr) : Prop :=
  ∃ front after, p = front ++ 0 :: after ∧ quote ∉ front ∧ (0 : UInt8) ∉ front

/-- Where the value pointer points, for a value in front of `rest`. -/
def valuePtr (value : Json) (rest : Ptr) : Ptr :=
  match value with
  | .string raw => raw ++ quote :: rest
  | value => value.text ++ rest

/-- The length that the scanner reports: an exponent is cut off. -/
def scannedLen : Json → ℕ
  | .string raw => raw.length
  | .number number => number.mantissa.length
  | value => value.text.length

def continuation (value : Json) (rest : Ptr) : Ptr :=
  match value with
  | .number number => number.exponent.getD [] ++ rest
  | _ => rest

def endsNumber (c : UInt8) : Bool := c != 0 && !isDigit c && c != dot

section Values
variable {p : Ptr}

/-- The scan of a string when no further quote follows: it runs on to the end, and keeps the
length up to the closing quote. -/
theorem scanMarked_quiet (value : Ptr) {front : List UInt8} (after : Ptr) (last : UInt8) (len : ℕ)
    (hquote : quote ∉ front) (hnul : (0 : UInt8) ∉ front) :
    scanMarked .string quote quote value 0 last len (front ++ 0 :: after) = .ok len := by
  induction front generalizing last with
  | nil => rw [List.nil_append, scanMarked, if_pos rfl]
  | cons c front ih =>
    have hzero : c ≠ 0 := fun h => hnul (h ▸ List.mem_cons_self ..)
    have hc : c ≠ quote := fun h => hquote (h ▸ List.mem_cons_self ..)
    rw [List.cons_append, scanMarked, if_neg hzero, if_neg hc, if_neg hc]
    exact ih c (fun h => hquote (List.mem_cons_of_mem c h)) fun h => hnul (List.mem_cons_of_mem c h)

/-- The scan of a string to its closing quote. -/
theorem scanMarked_string (value rest : Ptr) {raw : List UInt8} {last : UInt8} (len : ℕ)
    (hraw : quotesEscaped last raw = true) (hnul : (0 : UInt8) ∉ raw)
    (hlast : raw.getLast?.getD last ≠ backslash ∨ Quiet rest) :
    scanMarked .string quote quote value 0 last len (raw ++ quote :: rest) =
      .ok (value.length - (quote :: rest).length) := by
  induction raw generalizing last len with
  | nil =>
    rw [List.nil_append, scanMarked, if_neg (by decide), if_pos rfl, if_pos rfl]
    dsimp only
    rw [if_pos rfl, Nat.add_zero]
    by_cases hback : last = backslash
    · rw [if_pos ⟨rfl, hback⟩]
      obtain ⟨front, after, rfl, hquote, hzero⟩ := hlast.resolve_left fun h => h hback
      cases front with
      | nil => exact scanMarked_quiet value after 0 _ hquote hzero
      | cons next front => exact scanMarked_quiet value after next _ hquote hzero
    · rw [if_neg fun h => hback h.2]
  | cons c raw ih =>
    rw [quotesEscaped, Bool.and_eq_true] at hraw
    obtain ⟨hc, hrest⟩ := hraw
    have hzero : c ≠ 0 := fun h => hnul (h ▸ List.mem_cons_self ..)
    have hnulRest : (0 : UInt8) ∉ raw := fun h => hnul (List.mem_cons_of_mem c h)
    have hlastRest : raw.getLast?.getD c ≠ backslash ∨ Quiet rest := by
      rwa [List.getLast?_cons, Option.getD_some] at hlast
    rw [List.cons_append, scanMarked, if_neg hzero]
    by_cases hquote : c = quote
    · -- an escaped quote; the scan goes on with the next character as the last one
      have hescaped : last = backslash := by
        rw [hquote] at hc
        simpa using hc
      rw [if_pos hquote, if_pos rfl]
      dsimp only
      rw [if_pos ⟨rfl, hescaped⟩]
      cases raw with
      | nil => exact ih _ rfl hnulRest (.inl (by decide))
      | cons next raw =>
        apply ih _ _ hnulRest
        · rw [List.getLast?_cons, Option.getD_some] at hlastRest ⊢
          exact hlastRest
        · rw [quotesEscaped, hquote, Bool.and_eq_true] at hrest
          rw [quotesEscaped, Bool.and_eq_true]
          refine ⟨?_, hrest.2⟩
          have hnext : next ≠ quote := by
            intro heq
            rw [heq] at hrest
            exact absurd hrest.1 (by decide)
          simpa using Or.inl hnext
    · rw [if_neg hquote, if_neg hquote]
      exact ih len hrest hnulRest hlastRest

/-- The scan between brackets, when they first close at the end. -/
theorem scanMarked_brackets {type : JsonType} {mark₀ mark₁ : UInt8} (value rest : Ptr)
    (htype : type ≠ .string) {body : List UInt8} {depth : ℕ} (last : UInt8) (len : ℕ)
    (hbody : closesAtEnd mark₀ mark₁ depth body = true) (hnul : (0 : UInt8) ∉ body)
    (hvalue : (body ++ rest).length ≤ value.length) :
    scanMarked type mark₀ mark₁ value depth last len (body ++ rest) =
      .ok (value.length - rest.length) := by
  induction body generalizing depth last len with
  | nil => cases hbody
  | cons c body ih =>
    have hzero : c ≠ 0 := fun h => hnul (h ▸ List.mem_cons_self ..)
    have hnulRest : (0 : UInt8) ∉ body := fun h => hnul (List.mem_cons_of_mem c h)
    have hvalueRest : (body ++ rest).length ≤ value.length := by
      rw [List.cons_append, List.length_cons] at hvalue
      omega
    rw [closesAtEnd] at hbody
    rw [List.cons_append, scanMarked, if_neg hzero]
    by_cases hclose : c = mark₁
    · rw [if_pos hclose] at hbody ⊢
      by_cases hdepth : depth = 0
      · rw [if_pos hdepth] at hbody ⊢
        obtain rfl : body = [] := List.isEmpty_iff.mp hbody
        dsimp only
        rw [if_neg fun h => htype h.1, if_neg htype]
        rw [List.nil_append, List.cons_append, List.nil_append, List.length_cons] at *
        congr 1
        omega
      · rw [if_neg hdepth] at hbody ⊢
        exact ih c len hbody hnulRest hvalueRest
    · rw [if_neg hclose] at hbody ⊢
      by_cases hopen : c = mark₀
      · rw [if_pos hopen] at hbody ⊢
        exact ih c len hbody hnulRest hvalueRest
      · rw [if_neg hopen] at hbody ⊢
        exact ih c len hbody hnulRest hvalueRest

/-- The scan of a number up to the character that ends it. -/
theorem scanNumber_digits {body : List UInt8} {c : UInt8} (value rest : Ptr)
    (hbody : ∀ d ∈ body, isDigit d = true ∨ d = dot) (hend : endsNumber c = true) :
    scanNumber value (body ++ c :: rest) = .ok (value.length - (c :: rest).length) := by
  induction body with
  | nil =>
    simp only [endsNumber, Bool.and_eq_true, bne_iff_ne, Bool.not_eq_true'] at hend
    rw [List.nil_append, scanNumber, if_neg hend.1.1,
      if_pos ⟨by rw [hend.1.2]; rfl, hend.2⟩]
  | cons d body ih =>
    have hd := hbody d (List.mem_cons_self ..)
    have hzero : d ≠ 0 := by
      rintro rfl
      rcases hd with h | h <;> exact absurd h (by decide)
    rw [List.cons_append, scanNumber, if_neg hzero]
    have hgo : ¬ ((!isDigit d) = true ∧ d ≠ dot) := by
      rintro ⟨hdigit, hdot⟩
      rcases hd with h | h
      · rw [h] at hdigit
        cases hdigit
      · exact hdot h
    rw [if_neg hgo]
    exact ih fun d' hmem => hbody d' (List.mem_cons_of_mem d hmem)

theorem findValue_number {c : UInt8} (hzero : c ≠ 0) (hc : c = minus ∨ isDigit c = true) :
    findValue (c :: p) = .ok (some (.number, c :: p, p)) := by
  have hother : ∀ c' : UInt8, c' ≠ minus → isDigit c' = false → c ≠ c' := by
    rintro c' hminus hdigit rfl
    rcases hc with h | h
    · exact hminus h
    · rw [hdigit] at h
      cases h
  rw [findValue, if_neg hzero, if_neg (hother quote (by decide) (by decide)),
    if_neg (hother openBrace (by decide) (by decide)),
    if_neg (hother openBracket (by decide) (by decide)), if_pos hc]

/-- The continuation begins with a character that ends a number. -/
theorem continuation_ends (v : Json) {c : UInt8} (rest : Ptr) (hwf : v.wellFormed = true)
    (hend : endsNumber c = true) :
    ∃ c' rest', continuation v (c :: rest) = c' :: rest' ∧ endsNumber c' = true := by
  cases v with
  | number number =>
    simp only [Json.wellFormed, Number.wellFormed, Bool.and_eq_true] at hwf
    cases hpart : number.exponent with
    | none => exact ⟨c, rest, by rw [continuation, hpart]; rfl, hend⟩
    | some exponent =>
      rw [hpart, Option.all_some] at hwf
      have hletter : ∀ letter : UInt8, (letter == 0x65 || letter == 0x45) = true →
          endsNumber letter = true := by
        intro letter hletter
        simp only [Bool.or_eq_true, beq_iff_eq] at hletter
        rcases hletter with rfl | rfl <;> decide
      have hexponent := hwf.2
      cases exponent with
      | nil => cases hexponent
      | cons letter text =>
        refine ⟨letter, text ++ c :: rest, by rw [continuation, hpart]; rfl, ?_⟩
        unfold exponentText at hexponent
        split at hexponent
        next heq =>
          rw [Bool.and_eq_true] at hexponent
          exact (List.cons.inj heq).1 ▸ hletter _ hexponent.1
        next heq =>
          rw [Bool.and_eq_true] at hexponent
          exact (List.cons.inj heq).1 ▸ hletter _ hexponent.1
        next heq =>
          rw [Bool.and_eq_true] at hexponent
          exact (List.cons.inj heq).1 ▸ hletter _ hexponent.1
        · cases hexponent
  | _ => exact ⟨c, rest, rfl, hend⟩

theorem getValue_of {type : JsonType} {value start : Ptr} {len : ℕ} (key : Ptr) (keyLen : ℕ)
    (hfind : findValue p = .ok (some (type, value, start)))
    (hlen : valueLen type value start = .ok len) :
    getValue key keyLen p =
      .ok (some
        { key := key
          keyLen := keyLen
          val := value
          valLen := len
          valType := type
          next := value.drop (len + if type = .string then 1 else 0) }) := by
  rw [getValue, hfind]
  dsimp only
  rw [hlen]

theorem scanLiteral_prefix {literals : List (List UInt8)} {literal : List UInt8} {rest : Ptr}
    (hfind : (literals.find? fun literal' => literal'.isPrefixOf (literal ++ rest)) = some literal)
    (hmem : (0 : UInt8) ∈ rest) : scanLiteral literals (literal ++ rest) = .ok literal.length := by
  obtain ⟨n, hn⟩ := strlen_of_mem (List.mem_append_right literal hmem)
  rw [scanLiteral, hn]
  dsimp only
  rw [hfind]

/-- The scan of an array or an object that closes at its end. -/
theorem scanMarked_value {type : JsonType} {mark₀ mark₁ : UInt8} {text : List UInt8} (rest : Ptr)
    (htype : type ≠ .string) (hne : text ≠ []) (hbody : closesAtEnd mark₀ mark₁ 0 text.tail = true)
    (hnul : (0 : UInt8) ∉ text) (last : UInt8) :
    scanMarked type mark₀ mark₁ (text ++ rest) 0 last 0 (text.tail ++ rest) = .ok text.length := by
  cases text with
  | nil => exact absurd rfl hne
  | cons c body =>
    have hnulBody : (0 : UInt8) ∉ body := fun h => hnul (List.mem_cons_of_mem c h)
    rw [List.tail_cons] at hbody ⊢
    rw [List.cons_append, scanMarked_brackets _ rest htype last 0 hbody hnulBody (Nat.le_succ _),
      List.length_cons, List.length_append, List.length_cons]
    congr 1
    omega

/-- A string that closes at its end. -/
theorem getValue_string {raw : List UInt8} {tail : Ptr} (key : Ptr) (keyLen : ℕ)
    (hfind : findValue p = findValue ((Json.string raw).text ++ tail))
    (hraw : rawString raw = true)
    (hlast : raw.getLast?.getD quote ≠ backslash ∨ Quiet tail) :
    getValue key keyLen p =
      .ok (some
        { key := key
          keyLen := keyLen
          val := raw ++ quote :: tail
          valLen := raw.length
          valType := .string
          next := tail }) := by
  have hnul := printable_ne_zero (printable_of_rawString hraw)
  have hlen := scanMarked_string (raw ++ quote :: tail) tail 0
    (quotesEscaped_of_rawString hraw quote) hnul hlast
  rw [List.length_append, Nat.add_sub_cancel] at hlen
  have hopen : findValue ((Json.string raw).text ++ tail) =
      .ok (some (.string, raw ++ quote :: tail, raw ++ quote :: tail)) := by
    rw [Json.text, List.cons_append, List.append_assoc]
    rfl
  have hnext : (raw ++ quote :: tail).drop (raw.length + 1) = tail := by
    rw [← List.drop_drop, List.drop_left]
    rfl
  rw [getValue_of key keyLen (hfind.trans hopen) hlen, if_pos rfl, hnext]

/-- A number, up to what ends its mantissa. -/
theorem getValue_number {number : Number} {c : UInt8} {rest : Ptr} (key : Ptr) (keyLen : ℕ)
    (hfind : findValue p = findValue (number.mantissa ++ c :: rest))
    (hwf : number.wellFormed = true) (hend : endsNumber c = true) :
    getValue key keyLen p =
      .ok (some
        { key := key
          keyLen := keyLen
          val := number.mantissa ++ c :: rest
          valLen := number.mantissa.length
          valType := .number
          next := c :: rest }) := by
  obtain ⟨d, ds, hmantissa, hfirst, hdigits⟩ := Number.mantissa_cases hwf
  have hzero : d ≠ 0 := by
    rintro rfl
    rcases hfirst with h | h <;> exact absurd h (by decide)
  have htext : number.mantissa ++ c :: rest = d :: (ds ++ c :: rest) := by
    rw [hmantissa]
    rfl
  have hlen := scanNumber_digits (number.mantissa ++ c :: rest) rest hdigits hend
  rw [List.length_append, Nat.add_sub_cancel] at hlen
  have hopen : findValue (number.mantissa ++ c :: rest) =
      .ok (some (.number, number.mantissa ++ c :: rest, ds ++ c :: rest)) := by
    rw [htext]
    exact findValue_number hzero hfirst
  rw [getValue_of key keyLen (hfind.trans hopen) hlen, if_neg (by decide), Nat.add_zero,
    List.drop_left]

/-- An array or an object that closes at its end. -/
theorem getValue_marked {type : JsonType} {mark₀ mark₁ : UInt8} {text : List UInt8} {tail : Ptr}
    (key : Ptr) (keyLen : ℕ)
    (hfind : findValue p = .ok (some (type, text ++ tail, text.tail ++ tail)))
    (hscan : valueLen type (text ++ tail) (text.tail ++ tail) =
      scanMarked type mark₀ mark₁ (text ++ tail) 0 space 0 (text.tail ++ tail))
    (htype : type ≠ .string) (hne : text ≠ [])
    (hbody : closesAtEnd mark₀ mark₁ 0 text.tail = true) (hnul : (0 : UInt8) ∉ text) :
    getValue key keyLen p =
      .ok (some
        { key := key
          keyLen := keyLen
          val := text ++ tail
          valLen := text.length
          valType := type
          next := tail }) := by
  have hlen := hscan.trans (scanMarked_value tail htype hne hbody hnul space)
  rw [getValue_of key keyLen hfind hlen, if_neg htype, Nat.add_zero, List.drop_left]

/-- A value that is scanned right is reported with its text and its type, and the loop
continues behind it. -/
theorem getValue_scanned (key : Ptr) (keyLen : ℕ) {v : Json} {gap : List UInt8} {c : UInt8}
    {rest : Ptr} (hwf : v.wellFormed = true) {final : Bool} (hscan : scansRight final v = true)
    (hfinal : final = true → Quiet (c :: rest))
    (hgap : ∀ c ∈ gap, startsValue c = false) (hnul : (0 : UInt8) ∉ gap)
    (hend : endsNumber c = true) (hmem : (0 : UInt8) ∈ rest) :
    getValue key keyLen (gap ++ (v.text ++ c :: rest)) =
      .ok (some
        { key := key
          keyLen := keyLen
          val := valuePtr v (c :: rest)
          valLen := scannedLen v
          valType := jsonType v
          next := continuation v (c :: rest) }) := by
  have htext := printable_ne_zero (Json.printable_text v hwf)
  have hskip : findValue (gap ++ (v.text ++ c :: rest)) = findValue (v.text ++ c :: rest) :=
    findValue_skip hgap hnul
  have hmem' : (0 : UInt8) ∈ c :: rest := List.mem_cons_of_mem c hmem
  cases v with
  | string raw =>
    have hlast : raw.getLast?.getD quote ≠ backslash ∨ Quiet (c :: rest) := by
      rw [scansRight, Bool.or_eq_true, bne_iff_ne] at hscan
      rcases hscan with hlast | hscan
      · exact .inr (hfinal hlast)
      · left
        cases hraw : raw.getLast? with
        | none => decide
        | some last =>
          rw [hraw] at hscan
          simpa using hscan
    exact getValue_string key keyLen hskip hwf hlast
  | number number =>
    obtain ⟨c', rest', hcontinuation, hend'⟩ := continuation_ends (.number number) rest hwf
      hend
    have hsplit : (Json.number number).text ++ c :: rest = number.mantissa ++ c' :: rest' := by
      rw [← hcontinuation, Json.text, Number.text, continuation]
      simp
    rw [hsplit] at hskip
    have hval : valuePtr (.number number) (c :: rest) = number.mantissa ++ c' :: rest' := hsplit
    rw [hsplit, getValue_number key keyLen hskip hwf hend', hval, hcontinuation]
    rfl
  | boolean value =>
    cases value with
    | true =>
      have hlen : scanLiteral [trueText, capitalTrue, falseText, capitalFalse]
          (trueText ++ c :: rest) =
          .ok trueText.length := scanLiteral_prefix rfl hmem'
      rw [getValue_of key keyLen (hskip.trans rfl) hlen, if_neg (by decide)]
      rfl
    | false =>
      have hlen : scanLiteral [trueText, capitalTrue, falseText, capitalFalse]
          (falseText ++ c :: rest) =
          .ok falseText.length := scanLiteral_prefix rfl hmem'
      rw [getValue_of key keyLen (hskip.trans rfl) hlen, if_neg (by decide)]
      rfl
  | null =>
    have hlen : scanLiteral [nullText, capitalNull] (nullText ++ c :: rest) = .ok nullText.length :=
      scanLiteral_prefix rfl hmem'
    rw [getValue_of key keyLen (hskip.trans rfl) hlen, if_neg (by decide)]
    rfl
  | array blank items =>
    have hne : (Json.array blank items).text ≠ [] := by
      rw [Json.text]
      exact List.cons_ne_nil _ _
    have harray : JsonType.array ≠ .string := by decide
    have hfind : findValue ((Json.array blank items).text ++ c :: rest) =
        .ok (some (.array, (Json.array blank items).text ++ c :: rest,
          (Json.array blank items).text.tail ++ c :: rest)) := by
      rw [Json.text]
      rfl
    exact getValue_marked key keyLen (hskip.trans hfind) rfl harray hne hscan htext
  | object blank members =>
    have hne : (Json.object blank members).text ≠ [] := by
      rw [Json.text]
      exact List.cons_ne_nil _ _
    have hobject : JsonType.object ≠ .string := by decide
    have hfind : findValue ((Json.object blank members).text ++ c :: rest) =
        .ok (some (.object, (Json.object blank members).text ++ c :: rest,
          (Json.object blank members).text.tail ++ c :: rest)) := by
      rw [Json.text]
      rfl
    exact getValue_marked key keyLen (hskip.trans hfind) rfl hobject hne hscan htext

end Values

section Streams

/-- A member, with what the loop meets in front of it. -/
structure Piece where
  pre : List UInt8
  member : Layout × Json

/-- What a loop goes over: members, and a rest without one. -/
def streamText : List Piece → Ptr → Ptr
  | [], tail => tail
  | piece :: pieces, tail =>
      piece.pre ++ (piece.member.1.front ++ (piece.member.2.text ++ streamText pieces tail))

/-- What may stand between two members: no quote, and first no digit of a number before it. -/
structure Between (gap : List UInt8) : Prop where
  ends : ∀ c rest, gap = c :: rest → endsNumber c = true
  quiet : quote ∉ gap
  nul : (0 : UInt8) ∉ gap

/-- A member is spelled right, and something is in front of it. -/
structure Piece.WellFormed (piece : Piece) : Prop where
  between : Between piece.pre
  apart : piece.pre ≠ []
  layout : piece.member.1.wellFormed = true
  value : piece.member.2.wellFormed = true

/-- The end of a text in which no member follows. -/
def LastPart (tail : Ptr) : Prop :=
  ∃ gap after, tail = gap ++ 0 :: after ∧ gap ≠ [] ∧ Between gap

/-- A search for the name finishes at this member: it has the name, and neither the name nor
the text of its value is empty. -/
def filled (name : List UInt8) (member : Layout × Json) : Bool :=
  member.1.name == name && !name.isEmpty && scannedLen member.2 != 0

/-- The member at which a search finishes, and those behind it. -/
def findPiece (name : List UInt8) : List Piece → Option (Piece × List Piece)
  | [] => none
  | piece :: pieces =>
      if filled name piece.member then some (piece, pieces) else findPiece name pieces

/-- The members are scanned right, up to the one at which the search finishes. -/
def scansUpTo (name : List UInt8) : List (Layout × Json) → Bool
  | [] => true
  | member :: rest =>
      nameScansRight member.1.name && scansRight rest.isEmpty member.2 &&
        (filled name member || scansUpTo name rest)

variable {pieces : List Piece} {tail : Ptr} {name : List UInt8}

theorem blank_quiet {blanks : List UInt8} (h : blanks.all isBlank = true) {c : UInt8}
    (hc : isBlank c = false) : c ∉ blanks := by
  intro hmem
  rw [List.all_eq_true.mp h c hmem] at hc
  cases hc

theorem blank_startsValue {c : UInt8} (h : isBlank c = true) : startsValue c = false := by
  simp only [isBlank, Bool.or_eq_true, beq_iff_eq] at h
  rcases h with ((rfl | rfl) | rfl) | rfl <;> decide

theorem blank_endsNumber {c : UInt8} (h : isBlank c = true) : endsNumber c = true := by
  simp only [isBlank, Bool.or_eq_true, beq_iff_eq] at h
  rcases h with ((rfl | rfl) | rfl) | rfl <;> decide

theorem Between.nil : Between [] := ⟨by simp, List.not_mem_nil, List.not_mem_nil⟩

theorem Between.append {gap gap' : List UInt8} (h : Between gap) (h' : Between gap') :
    Between (gap ++ gap') := by
  refine ⟨?_, ?_, ?_⟩
  · intro c rest heq
    cases gap with
    | nil => exact h'.ends c rest heq
    | cons c' gap =>
      rw [List.cons_append, List.cons.injEq] at heq
      exact h.ends c gap (by rw [heq.1])
  · rw [List.mem_append, not_or]
    exact ⟨h.quiet, h'.quiet⟩
  · rw [List.mem_append, not_or]
    exact ⟨h.nul, h'.nul⟩

theorem Between.of_blank {blanks : List UInt8} (h : blanks.all isBlank = true) :
    Between blanks := by
  refine ⟨?_, blank_quiet h (by decide), blank_quiet h (by decide)⟩
  rintro c rest rfl
  rw [List.all_cons, Bool.and_eq_true] at h
  exact blank_endsNumber h.1

theorem Between.of_mark {c : UInt8} (hc : endsNumber c = true ∧ c ≠ quote) : Between [c] := by
  have hzero : c ≠ 0 := by
    rintro rfl
    exact absurd hc.1 (by decide)
  refine ⟨?_, by simpa using hc.2.symm, by simpa using hzero.symm⟩
  intro c' rest heq
  rw [List.cons.injEq] at heq
  exact heq.1 ▸ hc.1

/-- The text goes on behind a member. -/
theorem streamText_ends (hpieces : ∀ piece ∈ pieces, piece.WellFormed) (htail : LastPart tail) :
    ∃ c rest, streamText pieces tail = c :: rest ∧ endsNumber c = true ∧ (0 : UInt8) ∈ rest := by
  have hnul : ∀ pieces : List Piece, (0 : UInt8) ∈ streamText pieces tail := by
    intro pieces
    induction pieces with
    | nil =>
      obtain ⟨gap, after, rfl, -⟩ := htail
      simp [streamText]
    | cons piece pieces ih =>
      rw [streamText]
      simp [ih]
  have hfirst : ∃ gap rest, streamText pieces tail = gap ++ rest ∧ gap ≠ [] ∧ Between gap := by
    cases pieces with
    | nil =>
      obtain ⟨gap, after, rfl, hne, hgap⟩ := htail
      exact ⟨gap, 0 :: after, rfl, hne, hgap⟩
    | cons piece pieces =>
      have hpiece := hpieces piece (List.mem_cons_self ..)
      exact ⟨piece.pre, _, rfl, hpiece.apart, hpiece.between⟩
  obtain ⟨gap, rest, heq, hne, hgap⟩ := hfirst
  cases gap with
  | nil => exact absurd rfl hne
  | cons c gap =>
    refine ⟨c, gap ++ rest, heq, hgap.ends c gap rfl, ?_⟩
    have hmem := hnul pieces
    rw [heq, List.cons_append] at hmem
    rcases List.mem_cons.mp hmem with hzero | hmem
    · exact absurd (hzero ▸ List.mem_cons_self ..) hgap.nul
    · exact hmem

/-- The key part for the name of a member. -/
theorem getKey_name {before name gap : List UInt8} (rest : Ptr) (hbefore : quote ∉ before)
    (hname : nameScansRight name = true) (hgap : colon ∉ gap)
    (hnul : (0 : UInt8) ∉ before ∧ (0 : UInt8) ∉ name ∧ (0 : UInt8) ∉ gap) :
    ∃ key, getKey (before ++ quote :: (name ++ quote :: (gap ++ colon :: rest))) =
        .ok (some (key, (keyName name).length, colon :: rest)) ∧
      key.take (keyName name).length = keyName name := by
  have hkey : quote ∉ keyName name := by
    intro hmem
    exact absurd (List.mem_takeWhile_imp hmem) (by decide)
  have hsplit : keyName name ++ name.dropWhile (fun c => c != quote) = name :=
    List.takeWhile_append_dropWhile
  rw [nameScansRight, Bool.not_eq_true', List.contains_eq_mem, decide_eq_false_iff_not] at hname
  have hhead : ∀ c behind, name.dropWhile (fun c => c != quote) = c :: behind → c = quote := by
    intro c behind hcons
    have hfirst := List.head_dropWhile_not (fun c => c != quote) (l := name) (by rw [hcons]; simp)
    simpa [hcons] using hfirst
  cases hbehind : name.dropWhile (fun c => c != quote) with
  | nil =>
    rw [hbehind, List.append_nil] at hsplit
    rw [hsplit] at hkey ⊢
    exact ⟨_, getKey_append rest hbefore hkey hgap hnul, List.take_left⟩
  | cons c behind =>
    obtain rfl := hhead c behind hbehind
    rw [hbehind] at hsplit hname
    have hgap' : colon ∉ behind ++ quote :: gap := by
      simp only [List.mem_append, List.mem_cons, not_or] at hname ⊢
      exact ⟨hname.2, by decide, hgap⟩
    have hnul' : (0 : UInt8) ∉ before ∧ (0 : UInt8) ∉ keyName name ∧
        (0 : UInt8) ∉ behind ++ quote :: gap := by
      rw [← hsplit] at hnul
      simp only [List.mem_append, List.mem_cons, not_or] at hnul ⊢
      exact ⟨hnul.1, hnul.2.1.1, hnul.2.1.2.2, by decide, hnul.2.2⟩
    have htext : before ++ quote :: (name ++ quote :: (gap ++ colon :: rest)) =
        before ++ quote ::
          (keyName name ++ quote :: ((behind ++ quote :: gap) ++ colon :: rest)) := by
      nth_rewrite 1 [← hsplit]
      simp
    rw [htext]
    exact ⟨_, getKey_append rest hbefore hkey hgap' hnul', List.take_left⟩

/-- The step of a loop to a member that is scanned right. -/
theorem jsonGetNextObject_member {pre : List UInt8} {layout : Layout} {v : Json} {c : UInt8}
    {rest : Ptr} {final : Bool} (hquiet : quote ∉ pre) (hnul : (0 : UInt8) ∉ pre)
    (hlayout : layout.wellFormed = true) (hname : nameScansRight layout.name = true)
    (hwf : v.wellFormed = true) (hscan : scansRight final v = true)
    (hfinal : final = true → Quiet (c :: rest)) (hend : endsNumber c = true)
    (hmem : (0 : UInt8) ∈ rest) :
    ∃ entry, jsonGetNextObject .object (pre ++ (layout.front ++ (v.text ++ c :: rest))) =
        .ok (some entry) ∧
      entry.keyLen = (keyName layout.name).length ∧
      entry.key.take (keyName layout.name).length = keyName layout.name ∧
      entry.val = valuePtr v (c :: rest) ∧ entry.valLen = scannedLen v ∧
      entry.valType = jsonType v ∧ entry.next = continuation v (c :: rest) := by
  simp only [Layout.wellFormed, Bool.and_eq_true] at hlayout
  obtain ⟨⟨⟨⟨hbefore, hraw⟩, hafterName⟩, hbeforeValue⟩, -⟩ := hlayout
  have hzero : ∀ blanks : List UInt8, blanks.all isBlank = true → (0 : UInt8) ∉ blanks :=
    fun blanks h => blank_quiet h (by decide)
  have hsplit : pre ++ (layout.front ++ (v.text ++ c :: rest)) =
      (pre ++ layout.before) ++ quote :: (layout.name ++ quote :: (layout.afterName ++
        colon :: (layout.beforeValue ++ (v.text ++ c :: rest)))) := by
    simp [Layout.front]
  have hfront : quote ∉ pre ++ layout.before := by
    rw [List.mem_append]
    rintro (h | h)
    · exact hquiet h
    · exact blank_quiet hbefore (by decide) h
  have hfrontNul : (0 : UInt8) ∉ pre ++ layout.before := by
    rw [List.mem_append]
    rintro (h | h)
    · exact hnul h
    · exact hzero _ hbefore h
  obtain ⟨key, hkey, htake⟩ := getKey_name (layout.beforeValue ++ (v.text ++ c :: rest)) hfront
    hname (blank_quiet hafterName (by decide))
    ⟨hfrontNul, printable_ne_zero (printable_of_rawString hraw), hzero _ hafterName⟩
  have hgap : ∀ c ∈ colon :: layout.beforeValue, startsValue c = false := by
    intro c hc
    rcases List.mem_cons.mp hc with rfl | hc
    · decide
    · exact blank_startsValue (List.all_eq_true.mp hbeforeValue c hc)
  have hgapNul : (0 : UInt8) ∉ colon :: layout.beforeValue := by
    intro hc
    rcases List.mem_cons.mp hc with hcolon | hc
    · exact absurd hcolon (by decide)
    · exact hzero _ hbeforeValue hc
  have hvalue := getValue_scanned key (keyName layout.name).length hwf hscan hfinal hgap hgapNul
    hend hmem
  rw [List.cons_append] at hvalue
  rw [hsplit, jsonGetNextObject, if_pos rfl, hkey]
  dsimp only
  rw [hvalue]
  exact ⟨_, rfl, rfl, htake, rfl, rfl, rfl, rfl⟩

/-- The end of a loop. -/
theorem jsonGetNextObject_last {pre : List UInt8} (hquiet : quote ∉ pre) (hnul : (0 : UInt8) ∉ pre)
    (htail : LastPart tail) : jsonGetNextObject .object (pre ++ tail) = .ok none := by
  obtain ⟨gap, after, rfl, -, hgap⟩ := htail
  have hnone : strchr quote ((pre ++ gap) ++ 0 :: after) = .ok none := by
    apply strchr_none (by decide)
    · rw [List.mem_append, not_or]
      exact ⟨hquiet, hgap.quiet⟩
    · rw [List.mem_append, not_or]
      exact ⟨hnul, hgap.nul⟩
  rw [← List.append_assoc, jsonGetNextObject, if_pos rfl, getKey, hnone]

/-- What the loop skips of a number. -/
theorem exponent_quiet {number : Number} (h : number.wellFormed = true) :
    quote ∉ number.exponent.getD [] ∧ (0 : UInt8) ∉ number.exponent.getD [] := by
  have hnul := printable_ne_zero (Number.printable_text h)
  rw [Number.text, List.mem_append, not_or] at hnul
  refine ⟨?_, hnul.2⟩
  simp only [Number.wellFormed, Bool.and_eq_true] at h
  cases hpart : number.exponent with
  | none => exact List.not_mem_nil
  | some exponent =>
    rw [hpart, Option.all_some] at h
    exact exponentText_quiet h.2

/-- The loop goes on at the rest, behind what is quiet. -/
theorem continuation_eq {v : Json} (hwf : v.wellFormed = true) :
    ∃ skipped, quote ∉ skipped ∧ (0 : UInt8) ∉ skipped ∧
      ∀ rest, continuation v rest = skipped ++ rest := by
  cases v with
  | number number =>
    obtain ⟨hquote, hzero⟩ := exponent_quiet hwf
    exact ⟨number.exponent.getD [], hquote, hzero, fun rest => rfl⟩
  | _ => exact ⟨[], List.not_mem_nil, List.not_mem_nil, fun rest => rfl⟩

/-- A name without a quote is taken as it is. -/
theorem keyName_of_quiet {raw : List UInt8} (h : quote ∉ raw) : keyName raw = raw := by
  rw [keyName, List.takeWhile_eq_self_iff]
  intro c hmem
  rw [bne_iff_ne]
  rintro rfl
  exact h hmem

/-- A name with a quote is cut behind a backslash. -/
theorem backslash_mem_keyName {raw : List UInt8} {last : UInt8} (hlast : last ≠ backslash)
    (h : quotesEscaped last raw = true) (hquote : quote ∈ raw) : backslash ∈ keyName raw := by
  induction raw generalizing last with
  | nil => exact absurd hquote List.not_mem_nil
  | cons c raw ih =>
    rw [quotesEscaped, Bool.and_eq_true] at h
    have hc : c ≠ quote := by
      rintro rfl
      simp only [bne_self_eq_false, Bool.false_or, beq_iff_eq] at h
      exact hlast h.1
    have hkey : keyName (c :: raw) = c :: keyName raw := by
      rw [keyName, List.takeWhile_cons, if_pos (bne_iff_ne.mpr hc)]
      rfl
    rw [hkey]
    by_cases hback : c = backslash
    · rw [hback]
      exact List.mem_cons_self ..
    · rcases List.mem_cons.mp hquote with heq | hmem
      · exact absurd heq.symm hc
      · exact List.mem_cons_of_mem c (ih hback h.2 hmem)

/-- What the scanner takes for a name, compared with one that needs no escapes. -/
theorem keyName_eq_iff {raw : List UInt8} (hraw : rawString raw = true) (hquote : quote ∉ name)
    (hback : backslash ∉ name) : keyName raw = name ↔ raw = name := by
  by_cases hmem : quote ∈ raw
  · have hzero : (0 : UInt8) ≠ backslash := by decide
    have hcut := backslash_mem_keyName hzero (quotesEscaped_of_rawString hraw 0) hmem
    constructor
    · rintro rfl
      exact absurd hcut hback
    · rintro rfl
      exact absurd hmem hquote
  · rw [keyName_of_quiet hmem]

/-- The callback finishes at the members that a search selects. -/
theorem selects_eq {member : Layout × Json} {entry : Entry}
    (hname : keyName member.1.name = name ↔ member.1.name = name)
    (hkeyLen : entry.keyLen = (keyName member.1.name).length)
    (hkey : entry.key.take (keyName member.1.name).length = keyName member.1.name)
    (hval : entry.valLen = scannedLen member.2) :
    (reported entry && nameMatches name entry) = filled name member := by
  unfold reported nameMatches filled
  rw [hkeyLen, hval]
  by_cases hnamed : member.1.name = name
  · have hkeyName := hname.mpr hnamed
    rw [hkeyName] at hkey ⊢
    rw [hkey, hnamed]
    cases name <;> simp
  · have hno : ((keyName member.1.name).length == name.length &&
        entry.key.take name.length == name) = false := by
      rw [Bool.and_eq_false_iff]
      by_cases hlen : (keyName member.1.name).length = name.length
      · right
        rw [← hlen, hkey, beq_eq_false_iff_ne]
        exact fun h => hnamed (hname.mp h)
      · left
        simpa using hlen
    rw [hno, Bool.and_false, beq_eq_false_iff_ne.mpr hnamed]
    rfl

/-- A search in a loop over members that are scanned right finishes at the first member
that it selects. -/
theorem lookup_stream (fuel : ℕ) {pre : List UInt8} (hquiet : quote ∉ pre)
    (hnul : (0 : UInt8) ∉ pre) (hpieces : ∀ piece ∈ pieces, piece.WellFormed)
    (hnames : ∀ piece ∈ pieces,
      (keyName piece.member.1.name = name ↔ piece.member.1.name = name))
    (htail : LastPart tail) (hscan : scansUpTo name (pieces.map Piece.member) = true)
    (hfuel : pieces.length < fuel) :
    (findPiece name pieces = none ∧
        lookup name (walk .object fuel (pre ++ streamText pieces tail)) = .ok none) ∨
      ∃ piece rest entry, findPiece name pieces = some (piece, rest) ∧
        lookup name (walk .object fuel (pre ++ streamText pieces tail)) = .ok (some entry) ∧
        entry.val = valuePtr piece.member.2 (streamText rest tail) ∧
        entry.valLen = scannedLen piece.member.2 ∧ entry.valType = jsonType piece.member.2 := by
  obtain ⟨fuel, rfl⟩ : ∃ fuel', fuel = fuel' + 1 := ⟨fuel - 1, by omega⟩
  induction pieces generalizing pre fuel with
  | nil =>
    left
    rw [streamText, walk_none fuel (jsonGetNextObject_last hquiet hnul htail)]
    exact ⟨rfl, rfl⟩
  | cons piece pieces ih =>
    have hpiece := hpieces piece (List.mem_cons_self ..)
    have hrest := fun piece' hmem => hpieces piece' (List.mem_cons_of_mem piece hmem)
    have hrestNames := fun piece' hmem => hnames piece' (List.mem_cons_of_mem piece hmem)
    rw [List.map_cons, scansUpTo, Bool.and_eq_true, Bool.and_eq_true] at hscan
    obtain ⟨⟨hname, hvalue⟩, hfollowing⟩ := hscan
    obtain ⟨c, rest, hstream, hend, hmem⟩ := streamText_ends hrest htail
    have hfinal : (pieces.map Piece.member).isEmpty = true → Quiet (c :: rest) := by
      intro hempty
      obtain rfl : pieces = [] := by simpa using hempty
      obtain ⟨gap, after, htail', -, hgap⟩ := htail
      rw [← hstream, streamText, htail']
      exact ⟨gap, after, rfl, hgap.quiet, hgap.nul⟩
    have hquiet' : quote ∉ pre ++ piece.pre := by
      rw [List.mem_append, not_or]
      exact ⟨hquiet, hpiece.between.quiet⟩
    have hnul' : (0 : UInt8) ∉ pre ++ piece.pre := by
      rw [List.mem_append, not_or]
      exact ⟨hnul, hpiece.between.nul⟩
    obtain ⟨entry, hentry, hkeyLen, hkey, hval, hvalLen, hvalType, hnext⟩ :=
      jsonGetNextObject_member hquiet' hnul' hpiece.layout hname hpiece.value hvalue
        hfinal hend hmem
    rw [← hstream] at hentry hval hnext
    have htext : pre ++ streamText (piece :: pieces) tail =
        (pre ++ piece.pre) ++
          (piece.member.1.front ++ (piece.member.2.text ++ streamText pieces tail)) := by
      rw [streamText, List.append_assoc]
    rw [htext, walk_some fuel hentry, lookup_cons,
      selects_eq (hnames piece (List.mem_cons_self ..)) hkeyLen hkey hvalLen, findPiece]
    by_cases hfilled : filled name piece.member = true
    · right
      rw [if_pos hfilled, if_pos hfilled]
      exact ⟨piece, pieces, entry, rfl, rfl, hval, hvalLen, hvalType⟩
    · rw [if_neg hfilled, if_neg hfilled]
      rw [Bool.or_eq_true] at hfollowing
      obtain ⟨skipped, hskippedQuiet, hskippedNul, hskipped⟩ := continuation_eq hpiece.value
      rw [List.length_cons] at hfuel
      obtain ⟨fuel', rfl⟩ : ∃ fuel', fuel = fuel' + 1 := ⟨fuel - 1, by omega⟩
      rw [hnext, hskipped]
      exact ih hskippedQuiet hskippedNul hrest hrestNames (hfollowing.resolve_left hfilled) fuel'
        (by omega)

theorem length_le_streamText (pieces : List Piece) (tail : Ptr) :
    pieces.length ≤ (streamText pieces tail).length := by
  induction pieces with
  | nil => exact Nat.zero_le _
  | cons piece pieces ih =>
    rw [streamText, Layout.front]
    simp only [List.length_append, List.length_cons]
    omega

/-- A search in an object whose members, with what follows them, are scanned right. -/
theorem lookup_object {src : Ptr}
    (hsrc : jsonGetObject .object src = .ok (some (streamText pieces tail)))
    (hsuffix : streamText pieces tail <:+ src) (hpieces : ∀ piece ∈ pieces, piece.WellFormed)
    (hnames : ∀ piece ∈ pieces,
      (keyName piece.member.1.name = name ↔ piece.member.1.name = name))
    (htail : LastPart tail) (hscan : scansUpTo name (pieces.map Piece.member) = true) :
    (findPiece name pieces = none ∧ lookup name (forEach .object src) = .ok none) ∨
      ∃ piece rest entry, findPiece name pieces = some (piece, rest) ∧
        lookup name (forEach .object src) = .ok (some entry) ∧
        entry.val = valuePtr piece.member.2 (streamText rest tail) ∧
        entry.valLen = scannedLen piece.member.2 ∧ entry.valType = jsonType piece.member.2 := by
  have hfuel : pieces.length < src.length + 1 :=
    Nat.lt_succ_of_le ((length_le_streamText pieces tail).trans hsuffix.length_le)
  have hlookup := lookup_stream (src.length + 1) List.not_mem_nil List.not_mem_nil hpieces hnames
    htail hscan hfuel
  rw [forEach, hsrc]
  exact hlookup

end Streams

section Members
variable {members : List (Layout × Json)} {tail : Ptr} {name : List UInt8}

/-- The members of an object as a loop meets them. -/
def memberPieces (pre : List UInt8) : List (Layout × Json) → List Piece
  | [] => []
  | (layout, value) :: rest =>
      ⟨pre, (layout, value)⟩ :: memberPieces (layout.afterValue ++ separator rest) rest

/-- What is behind the last member. -/
def lastGap (pre : List UInt8) : List (Layout × Json) → List UInt8
  | [] => pre
  | (layout, _) :: rest => lastGap (layout.afterValue ++ separator rest) rest

theorem streamText_members (pre : List UInt8) (members : List (Layout × Json)) (tail : Ptr) :
    streamText (memberPieces pre members) (lastGap pre members ++ tail) =
      pre ++ (membersText members ++ tail) := by
  induction members generalizing pre with
  | nil => rfl
  | cons member rest ih =>
    obtain ⟨layout, value⟩ := member
    rw [memberPieces, lastGap, streamText, ih, membersText_cons]
    simp only [List.append_assoc]

theorem between_separator (layout : Layout) (rest : List (Layout × Json))
    (hlayout : layout.wellFormed = true) : Between (layout.afterValue ++ separator rest) := by
  simp only [Layout.wellFormed, Bool.and_eq_true] at hlayout
  apply Between.append (Between.of_blank hlayout.2)
  cases rest with
  | nil => exact Between.nil
  | cons member rest => exact Between.of_mark (by decide)

theorem memberPieces_wellFormed {pre : List UInt8} (hpre : Between pre) (hne : pre ≠ [])
    (hmembers : membersWellFormed members = true) :
    ∀ piece ∈ memberPieces pre members, piece.WellFormed := by
  induction members generalizing pre with
  | nil =>
    intro piece hmem
    exact absurd hmem List.not_mem_nil
  | cons member rest ih =>
    obtain ⟨layout, value⟩ := member
    rw [membersWellFormed, Bool.and_eq_true, Bool.and_eq_true] at hmembers
    obtain ⟨⟨hlayout, hvalue⟩, hrest⟩ := hmembers
    intro piece hmem
    rw [memberPieces] at hmem
    rcases List.mem_cons.mp hmem with rfl | hmem
    · exact ⟨hpre, hne, hlayout, hvalue⟩
    · have hcomma : layout.afterValue ++ separator rest ≠ [] := by
        cases rest with
        | nil => exact absurd hmem List.not_mem_nil
        | cons member rest => simp [separator]
      exact ih (between_separator layout rest hlayout) hcomma hrest piece hmem

theorem lastGap_between {pre : List UInt8} (hpre : Between pre)
    (hmembers : membersWellFormed members = true) : Between (lastGap pre members) := by
  induction members generalizing pre with
  | nil => exact hpre
  | cons member rest ih =>
    obtain ⟨layout, value⟩ := member
    rw [membersWellFormed, Bool.and_eq_true, Bool.and_eq_true] at hmembers
    exact ih (between_separator layout rest hmembers.1.1) hmembers.2

/-- The members end in front of a closing brace. -/
theorem between_closeBrace {pre : List UInt8} (hpre : Between pre)
    (hmembers : membersWellFormed members = true) :
    Between (lastGap pre members ++ [closeBrace]) :=
  (lastGap_between hpre hmembers).append (Between.of_mark (by decide))

/-- The first member of the kind, with the place of its value when the members start at
`start`. -/
def locate (kind : Layout × Json → Bool) : ℕ → List (Layout × Json) → Option (ℕ × Json)
  | _, [] => none
  | start, (layout, value) :: rest =>
      if kind (layout, value) then some (start + layout.front.length, value)
      else
        locate kind
          (start + (layout.front ++ value.text ++ layout.afterValue ++ separator rest).length) rest

def named (name : List UInt8) (member : Layout × Json) : Bool := member.1.name == name

/-- What a search by name is to return for a value at this place: nothing for a null and
an empty string, and a string without its quotes. -/
def expected : Option (ℕ × Json) → Option Found
  | none => none
  | some (start, value) =>
      match value with
      | .null => none
      | .string [] => none
      | .string raw => some ⟨start + 1, raw.length, .string⟩
      | value => some ⟨start, value.text.length, jsonType value⟩

theorem locate_some {kind : Layout × Json → Bool} {start place : ℕ} {v : Json}
    (h : locate kind start members = some (place, v)) :
    ∃ layout, (layout, v) ∈ members ∧ kind (layout, v) = true := by
  induction members generalizing start with
  | nil => cases h
  | cons member rest ih =>
    obtain ⟨layout, value⟩ := member
    rw [locate] at h
    by_cases hkind : kind (layout, value) = true
    · rw [if_pos hkind] at h
      obtain ⟨-, rfl⟩ := Prod.mk.inj (Option.some.inj h)
      exact ⟨layout, List.mem_cons_self .., hkind⟩
    · rw [if_neg hkind] at h
      obtain ⟨layout', hmem, hkind'⟩ := ih h
      exact ⟨layout', List.mem_cons_of_mem _ hmem, hkind'⟩

/-- The search among the pieces finds the member that `locate` finds, at its place. -/
theorem findPiece_members (name : List UInt8) (start : ℕ) (pre : List UInt8)
    (members : List (Layout × Json))
    (tail : Ptr) :
    (findPiece name (memberPieces pre members) = none ∧
        locate (filled name) start members = none) ∨
      ∃ piece rest, findPiece name (memberPieces pre members) = some (piece, rest) ∧
        ∃ place, locate (filled name) start members = some (place, piece.member.2) ∧
          place + (piece.member.2.text ++ streamText rest (lastGap pre members ++ tail)).length =
            start + (membersText members ++ tail).length := by
  induction members generalizing start pre with
  | nil => exact .inl ⟨rfl, rfl⟩
  | cons member rest ih =>
    obtain ⟨layout, value⟩ := member
    rw [memberPieces, findPiece, locate, lastGap]
    by_cases hfilled : filled name (layout, value) = true
    · right
      rw [if_pos hfilled, if_pos hfilled]
      refine ⟨_, _, rfl, _, rfl, ?_⟩
      rw [streamText_members, membersText_cons]
      simp only [List.length_append]
      omega
    · rw [if_neg hfilled, if_neg hfilled]
      rcases ih (start + (layout.front ++ value.text ++ layout.afterValue ++ separator rest).length)
        (layout.afterValue ++ separator rest) with hnone |
          ⟨piece, later, hpiece, place, hplace, hlength⟩
      · exact .inl hnone
      · refine .inr ⟨piece, later, hpiece, place, hplace, ?_⟩
        rw [hlength, membersText_cons]
        simp only [List.length_append]
        omega

theorem scannedLen_eq_zero {v : Json} (hwf : v.wellFormed = true) :
    scannedLen v = 0 ↔ v = .string [] := by
  cases v with
  | string raw => simp [scannedLen]
  | number number =>
    obtain ⟨c, rest, hmantissa, -⟩ := Number.mantissa_cases hwf
    simp [scannedLen, hmantissa]
  | boolean value => cases value <;> simp [scannedLen, Json.text, trueText, falseText]
  | null => simp [scannedLen, Json.text, nullText]
  | array blank items => simp [scannedLen, Json.text]
  | object blank members => simp [scannedLen, Json.text]

/-- The first member of the name is the first filled one, when its value is not empty. -/
theorem locate_filled {start place : ℕ} {v : Json} (hname : name ≠ [])
    (h : locate (named name) start members = some (place, v)) (hlen : scannedLen v ≠ 0) :
    locate (filled name) start members = some (place, v) := by
  induction members generalizing start with
  | nil => cases h
  | cons member rest ih =>
    obtain ⟨layout, value⟩ := member
    rw [locate] at h ⊢
    by_cases hnamed : named name (layout, value) = true
    · rw [if_pos hnamed] at h
      obtain ⟨-, rfl⟩ := Prod.mk.inj (Option.some.inj h)
      have hfilled : filled name (layout, value) = true := by
        have hempty : name.isEmpty = false := by simpa using hname
        simp only [filled, Bool.and_eq_true]
        exact ⟨⟨hnamed, by rw [hempty]; rfl⟩, by simpa using hlen⟩
      rw [if_pos hfilled]
      exact h
    · rw [if_neg hnamed] at h
      have hfilled : ¬ filled name (layout, value) = true := by
        intro hfilled
        simp only [filled, Bool.and_eq_true] at hfilled
        exact hnamed hfilled.1.1
      rw [if_neg hfilled]
      exact ih h

end Members

section ByName
variable {text lead trail blank name : List UInt8} {members : List (Layout × Json)} {after p : Ptr}

def plainNumber : Json → Bool
  | .number number => number.exponent.isNone
  | _ => true

/-- What a search by name can miss in a text that is scanned right: a value behind another
blank than spaces or under an empty name, and that a member without a value was the first of
its name. -/
structure Answerable (lead name : List UInt8) (start : ℕ) (members : List (Layout × Json)) :
    Prop where
  found : expected (locate (named name) start members) ≠ none →
    lead.all (· == space) = true ∧ name ≠ []
  missing : lead.all (· == space) = true → expected (locate (named name) start members) = none →
    expected (locate (filled name) start members) = none

theorem jsonGetObject_spaces (type : JsonType) (h : lead.all (· == space) = true) :
    jsonGetObject type (lead ++ p) = jsonGetObject type p := by
  induction lead with
  | nil => rfl
  | cons c lead ih =>
    rw [List.all_cons, Bool.and_eq_true, beq_iff_eq] at h
    rw [List.cons_append, jsonGetObject, if_neg (by rw [h.1]; decide), if_pos h.1]
    exact ih h.2

/-- A blank other than a space hides the object behind it. -/
theorem jsonGetObject_blank (hlead : lead.all isBlank = true)
    (h : ¬ lead.all (· == space) = true) : jsonGetObject .object (lead ++ p) = .ok none := by
  induction lead with
  | nil => exact absurd rfl h
  | cons c lead ih =>
    rw [List.all_cons, Bool.and_eq_true] at hlead h
    have hzero : c ≠ 0 := by
      rintro rfl
      exact absurd hlead.1 (by decide)
    have hbrace : c ≠ openBrace := by
      rintro rfl
      exact absurd hlead.1 (by decide)
    rw [List.cons_append, jsonGetObject, if_neg hzero]
    by_cases hspace : c = space
    · rw [if_pos hspace]
      exact ih hlead.2 fun hrest => h ⟨by simpa using hspace, hrest⟩
    · rw [if_neg hspace, if_pos rfl, if_neg hbrace]

/-- A search goes over the text up to the given length. -/
theorem jsonGetValueByName_text (wantsType : Bool) (hne : text ≠ []) (hnul : (0 : UInt8) ∉ text)
    (hafter : (0 : UInt8) ∈ after) :
    jsonGetValueByName (text ++ after) text.length name wantsType =
      (lookup name (forEach .object (text ++ 0 :: after.tail))).map fun result =>
        result.bind (found (text ++ after) wantsType) := by
  have hlength : text.length ≠ 0 := fun h => hne (List.eq_nil_of_length_eq_zero h)
  rw [jsonGetValueByName, if_neg hlength]
  cases after with
  | nil => exact absurd hafter List.not_mem_nil
  | cons c after =>
    rw [List.tail_cons]
    by_cases hc : c = 0
    · subst hc
      rw [strlen_text hnul]
      dsimp only
      rw [if_pos rfl]
      rcases lookup name (forEach .object (text ++ 0 :: after)) with e | _ | entry <;> rfl
    · -- the text is cut for the time of the search
      have hmem : (0 : UInt8) ∈ after := by
        rcases List.mem_cons.mp hafter with heq | hmem
        · exact absurd heq.symm hc
        · exact hmem
      obtain ⟨n, hn⟩ := strlen_of_mem hmem
      have hlonger : strlen (c :: after) = .ok (n + 1) := by
        rw [strlen, if_neg hc, hn]
      rw [strlen_append hnul hlonger]
      dsimp only
      rw [if_neg (by omega), List.set_append_right _ _ (Nat.le_refl _), Nat.sub_self,
        List.set_cons_zero]
      rcases lookup name (forEach .object (text ++ 0 :: after)) with e | _ | entry <;> rfl

theorem memberPieces_members (pre : List UInt8) (members : List (Layout × Json)) :
    (memberPieces pre members).map Piece.member = members := by
  induction members generalizing pre with
  | nil => rfl
  | cons member rest ih =>
    obtain ⟨layout, value⟩ := member
    rw [memberPieces, List.map_cons, ih]

/-- What is returned for an entry of a member that is not empty. -/
theorem found_expected {str rest : Ptr} {entry : Entry} {v : Json} {place : ℕ}
    (hval : entry.val = valuePtr v rest) (hlen : entry.valLen = scannedLen v)
    (htype : entry.valType = jsonType v) (hplain : plainNumber v = true) (hne : scannedLen v ≠ 0)
    (hplace : place + (v.text ++ rest).length = str.length) :
    found str true entry = expected (some (place, v)) := by
  have hoffset : ∀ q : Ptr, valuePtr v rest = q → q.length = (v.text ++ rest).length →
      str.length - entry.val.length = place := by
    intro q hq hlength
    rw [hval, hq, hlength]
    omega
  unfold found
  rw [hlen, htype]
  cases v with
  | string raw =>
    cases raw with
    | nil => exact absurd rfl hne
    | cons c raw =>
      have hstart : str.length - entry.val.length = place + 1 := by
        rw [hval, valuePtr]
        simp only [Json.text, List.length_append, List.length_cons, List.length_nil] at hplace ⊢
        omega
      rw [hstart]
      rfl
  | number number =>
    rw [plainNumber, Option.isNone_iff_eq_none] at hplain
    have hmantissa : scannedLen (.number number) = (Json.number number).text.length := by
      rw [scannedLen, Json.text, Number.text, hplain, Option.getD_none, List.append_nil]
    rw [hoffset _ rfl rfl, hmantissa]
    rfl
  | boolean value =>
    rw [hoffset _ rfl rfl]
    rfl
  | null => rfl
  | array blank items =>
    rw [hoffset _ rfl rfl]
    rfl
  | object blank members =>
    rw [hoffset _ rfl rfl]
    rfl

/-- An object, with what is behind it, as a loop goes over it. -/
theorem object_stream (blank : List UInt8) (members : List (Layout × Json)) (tail : Ptr) :
    (Json.object blank members).text ++ tail =
      streamText (memberPieces (openBrace :: blank) members)
        (lastGap (openBrace :: blank) members ++ closeBrace :: tail) := by
  rw [streamText_members, Json.text]
  simp

theorem jsonGetObject_object (blank : List UInt8) (members : List (Layout × Json)) (tail : Ptr) :
    jsonGetObject .object ((Json.object blank members).text ++ tail) =
      .ok (some (streamText (memberPieces (openBrace :: blank) members)
        (lastGap (openBrace :: blank) members ++ closeBrace :: tail))) := by
  rw [← object_stream, Json.text, List.cons_append, jsonGetObject, if_neg (by decide),
    if_neg (by decide), if_pos (by decide)]

/-- A search in an object whose members are scanned right. -/
theorem jsonGetValueByName_members (hlead : lead.all (· == space) = true)
    (htrail : trail.all isBlank = true) (hwf : (Json.object blank members).wellFormed = true)
    (hplain : ∀ member ∈ members, plainNumber member.2 = true) (hquote : quote ∉ name)
    (hback : backslash ∉ name) (hafter : (0 : UInt8) ∈ after)
    (hscan : scansUpTo name members = true) :
    jsonGetValueByName (lead ++ (Json.object blank members).text ++ trail ++ after)
        (lead ++ (Json.object blank members).text ++ trail).length name true =
      .ok (expected (locate (filled name) (lead.length + 1 + blank.length) members)) := by
  have hnul := printable_ne_zero (Json.printable_text _ hwf)
  rw [Json.wellFormed, Bool.and_eq_true] at hwf
  have hpre : Between ([openBrace] ++ blank) :=
    (Between.of_mark (by decide)).append (Between.of_blank hwf.1)
  have hleadNul : (0 : UInt8) ∉ lead := by
    intro hmem
    exact absurd (List.all_eq_true.mp hlead 0 hmem) (by decide)
  have htextNul : (0 : UInt8) ∉ lead ++ (Json.object blank members).text ++ trail := by
    simp only [List.mem_append, not_or]
    exact ⟨⟨hleadNul, hnul⟩, blank_quiet htrail (by decide)⟩
  have hpieces : ∀ piece ∈ memberPieces (openBrace :: blank) members, piece.WellFormed :=
    memberPieces_wellFormed hpre (List.cons_ne_nil _ _) hwf.2
  have hnames : ∀ piece ∈ memberPieces (openBrace :: blank) members,
      (keyName piece.member.1.name = name ↔ piece.member.1.name = name) := by
    intro piece hmem
    have hlayout := (hpieces piece hmem).layout
    simp only [Layout.wellFormed, Bool.and_eq_true] at hlayout
    exact keyName_eq_iff hlayout.1.1.1.2 hquote hback
  have htail : LastPart (lastGap (openBrace :: blank) members ++
      closeBrace :: (trail ++ 0 :: after.tail)) := by
    refine ⟨lastGap (openBrace :: blank) members ++ [closeBrace] ++ trail, after.tail, by simp,
      by simp, ?_⟩
    exact (between_closeBrace hpre hwf.2).append (Between.of_blank htrail)
  have hstart : jsonGetObject .object (lead ++ (Json.object blank members).text ++ trail ++
      0 :: after.tail) = .ok (some (streamText (memberPieces (openBrace :: blank) members)
        (lastGap (openBrace :: blank) members ++ closeBrace :: (trail ++ 0 :: after.tail)))) := by
    simp only [List.append_assoc]
    rw [jsonGetObject_spaces .object hlead, jsonGetObject_object]
  have hsuffix : streamText (memberPieces (openBrace :: blank) members)
        (lastGap (openBrace :: blank) members ++ closeBrace :: (trail ++ 0 :: after.tail)) <:+
      lead ++ (Json.object blank members).text ++ trail ++ 0 :: after.tail :=
    ⟨lead, by rw [← object_stream]; simp⟩
  have hne : lead ++ (Json.object blank members).text ++ trail ≠ [] := by
    simp [Json.text]
  have htotal : (lead ++ (Json.object blank members).text ++ trail ++ after).length =
      lead.length + 1 + blank.length +
        (membersText members ++ closeBrace :: (trail ++ 0 :: after.tail)).length := by
    have hpos := List.length_pos_of_mem hafter
    simp only [Json.text, List.length_append, List.length_cons, List.length_tail, List.length_nil]
    omega
  rw [jsonGetValueByName_text true hne htextNul hafter]
  have hlookup := lookup_object hstart hsuffix hpieces hnames htail
    ((memberPieces_members (openBrace :: blank) members).symm ▸ hscan)
  rcases findPiece_members name (lead.length + 1 + blank.length) (openBrace :: blank) members
    (closeBrace :: (trail ++ 0 :: after.tail)) with ⟨hnoPiece, hnoPlace⟩ |
    ⟨piece, rest, hpiece, place, hplace, hlength⟩
  · rcases hlookup with ⟨-, hnone⟩ | ⟨piece, rest, entry, hpiece, -⟩
    · rw [hnone, hnoPlace]
      rfl
    · rw [hnoPiece] at hpiece
      cases hpiece
  · rcases hlookup with ⟨hnone, -⟩ |
      ⟨piece', rest', entry, hpiece', hentry, hval, hvalLen, hvalType⟩
    · rw [hnone] at hpiece
      cases hpiece
    · rw [hpiece] at hpiece'
      obtain ⟨rfl, rfl⟩ := Prod.mk.inj (Option.some.inj hpiece')
      obtain ⟨layout, hmem, hfilled⟩ := locate_some hplace
      simp only [filled, Bool.and_eq_true, bne_iff_ne] at hfilled
      have hfound := found_expected hval hvalLen hvalType (hplain (layout, _) hmem) hfilled.2
        (hlength.trans htotal.symm)
      rw [hentry, hplace, ← hfound]
      rfl

theorem locate_empty (start : ℕ) : locate (filled []) start members = none := by
  induction members generalizing start with
  | nil => rfl
  | cons member rest ih =>
    obtain ⟨layout, value⟩ := member
    rw [locate, ih]
    simp [filled]

/-- A search in a well-formed object whose members are scanned right returns the value of the
first member of the name exactly if nothing keeps it from one. -/
theorem jsonGetValueByName_first_iff (hlead : lead.all isBlank = true)
    (htrail : trail.all isBlank = true) (hwf : (Json.object blank members).wellFormed = true)
    (hplain : ∀ member ∈ members, plainNumber member.2 = true) (hquote : quote ∉ name)
    (hback : backslash ∉ name) (hafter : (0 : UInt8) ∈ after)
    (hscan : lead.all (· == space) = true → scansUpTo name members = true) :
    jsonGetValueByName (lead ++ (Json.object blank members).text ++ trail ++ after)
        (lead ++ (Json.object blank members).text ++ trail).length name true =
          .ok (expected (locate (named name) (lead.length + 1 + blank.length) members)) ↔
      Answerable lead name (lead.length + 1 + blank.length) members := by
  by_cases hspaces : lead.all (· == space) = true
  · rw [jsonGetValueByName_members hspaces htrail hwf hplain hquote hback hafter (hscan hspaces),
      Except.ok.injEq]
    constructor
    · intro heq
      refine ⟨?_, fun _ hnone => heq.trans hnone⟩
      intro hsome
      refine ⟨hspaces, ?_⟩
      rintro rfl
      rw [locate_empty] at heq
      exact hsome heq.symm
    · intro hanswer
      by_cases hnone : expected (locate (named name) (lead.length + 1 + blank.length) members) =
        none
      · rw [hnone]
        exact hanswer.missing hspaces hnone
      · cases hplace : locate (named name) (lead.length + 1 + blank.length) members with
        | none =>
          rw [hplace] at hnone
          exact absurd rfl hnone
        | some found =>
          obtain ⟨place, v⟩ := found
          have hname := (hanswer.found hnone).2
          obtain ⟨layout, hmem, -⟩ := locate_some hplace
          rw [Json.wellFormed, Bool.and_eq_true] at hwf
          have hlen : scannedLen v ≠ 0 := by
            intro hzero
            obtain rfl := (scannedLen_eq_zero (wellFormed_of_mem hwf.2 hmem).2).mp hzero
            rw [hplace] at hnone
            exact hnone rfl
          rw [locate_filled hname hplace hlen]
  · have hnul := printable_ne_zero (Json.printable_text _ hwf)
    have htextNul : (0 : UInt8) ∉ lead ++ (Json.object blank members).text ++ trail := by
      simp only [List.mem_append, not_or]
      exact ⟨⟨blank_quiet hlead (by decide), hnul⟩, blank_quiet htrail (by decide)⟩
    have hne : lead ++ (Json.object blank members).text ++ trail ≠ [] := by
      simp [Json.text]
    have hloop :
        forEach .object (lead ++ (Json.object blank members).text ++ trail ++ 0 :: after.tail) =
        ⟨[], .finished⟩ := by
      simp only [forEach, List.append_assoc]
      rw [jsonGetObject_blank hlead hspaces]
    have hmiss : jsonGetValueByName (lead ++ (Json.object blank members).text ++ trail ++ after)
        (lead ++ (Json.object blank members).text ++ trail).length name true = .ok none := by
      rw [jsonGetValueByName_text true hne htextNul hafter, hloop]
      rfl
    rw [hmiss, Except.ok.injEq]
    constructor
    · intro hnone
      exact ⟨fun hsome => absurd hnone.symm hsome, fun h => absurd h hspaces⟩
    · intro hanswer
      by_contra hsome
      exact hspaces (hanswer.found fun h => hsome h.symm).1

/-- The members `"a"` and `"b"` of an object without blanks. -/
def members₂ (a b : Json) : List (Layout × Json) :=
  [(⟨[], [0x61], [], [], []⟩, a), (⟨[], [0x62], [], [], []⟩, b)]

/-- In `{"a":{"s":"}"},"b":1}` the brace in the string hides the member behind the object. -/
theorem jsonGetValueByName_brace :
    (Json.object [] (members₂ (.object [] [(⟨[], [0x73], [], [], []⟩, .string [closeBrace])])
        (.number ⟨false, [0x31], none, none⟩))).wellFormed = true ∧
      expected (locate (named [0x62]) 1
          (members₂ (.object [] [(⟨[], [0x73], [], [], []⟩, .string [closeBrace])])
            (.number ⟨false, [0x31], none, none⟩))) = some ⟨19, 1, .number⟩ ∧
      jsonGetValueByName
          ((Json.object [] (members₂ (.object [] [(⟨[], [0x73], [], [], []⟩, .string [closeBrace])])
            (.number ⟨false, [0x31], none, none⟩))).text ++ [0]) 21 [0x62] true = .ok none := by
  decide

/-- A search in ` {"a":true,"b":1}`. -/
theorem jsonGetValueByName_second :
    jsonGetValueByName
        ([space] ++
          (Json.object [] (members₂ (.boolean true) (.number ⟨false, [0x31], none, none⟩))).text ++
          [] ++ [0]) 17 [0x62] true = .ok (some ⟨15, 1, .number⟩) :=
  (@jsonGetValueByName_first_iff [space] [] [] [0x62]
    (members₂ (.boolean true) (.number ⟨false, [0x31], none, none⟩)) [0] rfl rfl rfl (by decide)
    (by decide) (by decide) (by decide) (by decide)).mpr ⟨by decide, by decide⟩

end ByName

end IotExplorer.JsonObjects
