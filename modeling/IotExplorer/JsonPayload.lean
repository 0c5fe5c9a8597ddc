import IotExplorer.JsonPaths

/-!
A search in the first bytes of a text: the same scan, which gives up when it
would have to examine a character behind these bytes. What it finds is found
whatever follows. Where it gives up, the bytes that follow decide: two
continuations lead to different values.
-/
namespace IotExplorer.JsonPayload

open Basis.JsonText JsonParser JsonLookup JsonObjects JsonPaths

/-- The length of a literal at the start of a value, unless the value ends in one. -/
def literalInside (literals : List (List UInt8)) (value : Ptr) : Except Overrun ℕ :=
  match literals.find? fun literal => literal.isPrefixOf value with
  | some literal => .ok literal.length
  | none => if literals.any fun literal => value.isPrefixOf literal then .error .overrun else .ok 0

def valueLenInside (type : JsonType) (value pos : Ptr) : Except Overrun ℕ :=
  match type with
  | .boolean => literalInside [trueText, capitalTrue, falseText, capitalFalse] value
  | .null => literalInside [nullText, capitalNull] value
  | _ => valueLen type value pos

def getValueInside (key : Ptr) (keyLen : ℕ) (pos : Ptr) : Except Overrun (Option Entry) :=
  match findValue pos with
  | .error e => .error e
  | .ok none => .ok none
  | .ok (some (type, value, start)) =>
      match valueLenInside type value start with
      | .error e => .error e
      | .ok len =>
          .ok (some
            { key := key
              keyLen := keyLen
              val := value
              valLen := len
              valType := type
              next := value.drop (len + if type = .string then 1 else 0) })

def nextInside (str : Ptr) : Except Overrun (Option Entry) :=
  match getKey str with
  | .error e => .error e
  | .ok none => .ok none
  | .ok (some (key, keyLen, pos)) => getValueInside key keyLen pos

/-- The search for a member among those that end inside. -/
def searchInside (name : List UInt8) : ℕ → Ptr → Except Overrun (Option Entry)
  | 0, _ => .error .overrun
  | _ + 1, [] => .error .overrun
  | fuel + 1, c :: p =>
      if c = 0 then .ok none
      else
        match nextInside (c :: p) with
        | .error e => .error e
        | .ok none => .ok none
        | .ok (some entry) =>
            if reported entry && nameMatches name entry then .ok (some entry)
            else searchInside name fuel entry.next

def copyOf (entry : Entry) : List UInt8 := (entry.val.take entry.valLen).takeWhile (· ≠ 0)

def valueInside (name : List UInt8) (payload : List UInt8) : Except Overrun (Option (List UInt8)) :=
  match jsonGetObject .object payload with
  | .error e => .error e
  | .ok none => .ok none
  | .ok (some pos) => (searchInside name (payload.length + 1) pos).map fun found => found.map copyOf

section Onto
variable {p value after : Ptr} {name : List UInt8}

/-- An entry when something follows the text. -/
def onto (after : Ptr) (entry : Entry) : Entry :=
  { entry with
    key := entry.key ++ after
    val := entry.val ++ after
    next := entry.next ++ after }

theorem strchr_onto {ch : UInt8} {found : Option Ptr} (after : Ptr) (h : strchr ch p = .ok found) :
    strchr ch (p ++ after) = .ok (found.map (· ++ after)) := by
  induction p with
  | nil => cases h
  | cons c p ih =>
    rw [strchr] at h
    rw [List.cons_append, strchr]
    split_ifs at h ⊢
    · cases h
      rfl
    · cases h
      rfl
    · exact ih h

theorem jsonGetObject_onto {found : Option Ptr} (after : Ptr)
    (h : jsonGetObject .object p = .ok found) :
    jsonGetObject .object (p ++ after) = .ok (found.map (· ++ after)) := by
  induction p with
  | nil => cases h
  | cons c p ih =>
    rw [jsonGetObject, if_pos rfl] at h
    rw [List.cons_append, jsonGetObject, if_pos rfl]
    split_ifs at h ⊢
    · cases h
      rfl
    · exact ih h
    · cases h
      rfl
    · cases h
      rfl

theorem findValue_onto {found : Option (JsonType × Ptr × Ptr)} (after : Ptr)
    (h : findValue p = .ok found) :
    findValue (p ++ after) =
      .ok (found.map fun found => (found.1, found.2.1 ++ after, found.2.2 ++ after)) := by
  induction p with
  | nil => cases h
  | cons c p ih =>
    rw [findValue] at h
    rw [List.cons_append, findValue]
    split_ifs at h ⊢
    case neg => exact ih h
    all_goals
      cases h
      rfl

theorem length_sub_onto (value p after : Ptr) :
    (value ++ after).length - (p ++ after).length = value.length - p.length := by
  rw [List.length_append, List.length_append]
  omega

theorem scanNumber_onto {n : ℕ} (after : Ptr) (h : scanNumber value p = .ok n) :
    scanNumber (value ++ after) (p ++ after) = .ok n := by
  induction p with
  | nil => cases h
  | cons c p ih =>
    rw [scanNumber] at h
    rw [List.cons_append, scanNumber]
    split_ifs at h ⊢
    · exact h
    · rw [← List.cons_append, length_sub_onto]
      exact h
    · exact ih h

theorem scanMarked_onto {type : JsonType} {mark₀ mark₁ last : UInt8} {depth len n : ℕ} (after : Ptr)
    (h : scanMarked type mark₀ mark₁ value depth last len p = .ok n) :
    scanMarked type mark₀ mark₁ (value ++ after) depth last len (p ++ after) = .ok n := by
  induction p generalizing depth last len with
  | nil => cases h
  | cons c p ih =>
    rw [scanMarked] at h
    rw [List.cons_append, scanMarked, ← List.cons_append, length_sub_onto]
    by_cases hzero : c = 0
    · rw [if_pos hzero] at h ⊢
      exact h
    · rw [if_neg hzero] at h ⊢
      by_cases hclose : c = mark₁
      · rw [if_pos hclose] at h ⊢
        by_cases hdepth : depth = 0
        · rw [if_pos hdepth] at h ⊢
          dsimp only at h ⊢
          by_cases hescaped : type = .string ∧ last = backslash
          · rw [if_pos hescaped] at h ⊢
            cases p with
            | nil => cases h
            | cons next p => exact ih h
          · rw [if_neg hescaped] at h ⊢
            exact h
        · rw [if_neg hdepth] at h ⊢
          exact ih h
      · rw [if_neg hclose] at h ⊢
        by_cases hopen : c = mark₀
        · rw [if_pos hopen] at h ⊢
          exact ih h
        · rw [if_neg hopen] at h ⊢
          exact ih h

/-- No literal of a kind starts with another one. -/
def Apart (literals : List (List UInt8)) : Prop :=
  ∀ literal ∈ literals, ∀ other ∈ literals, literal <+: other → literal = other

/-- The literal at the start of a text is the one that is found. -/
theorem find_literal {literals : List (List UInt8)} {literal text : List UInt8}
    (hapart : Apart literals) (hmem : literal ∈ literals) (hleft : literal <+: text) :
    (literals.find? fun literal => literal.isPrefixOf text) = some literal := by
  cases hfind : literals.find? fun literal => literal.isPrefixOf text with
  | none =>
    rw [List.find?_eq_none] at hfind
    exact absurd (List.isPrefixOf_iff_prefix.mpr hleft) (hfind literal hmem)
  | some other =>
    have hother := List.mem_of_find?_eq_some hfind
    have hfound := List.find?_some hfind
    have hfound := List.isPrefixOf_iff_prefix.mp hfound
    rcases List.prefix_or_prefix_of_prefix hleft hfound with hle | hle
    · rw [hapart literal hmem other hother hle]
    · rw [hapart other hother literal hmem hle]

theorem literalInside_onto {literals : List (List UInt8)} {n : ℕ} (hapart : Apart literals)
    (hnul : (0 : UInt8) ∈ after) (h : literalInside literals value = .ok n) :
    scanLiteral literals (value ++ after) = .ok n := by
  obtain ⟨m, hm⟩ := strlen_of_mem (List.mem_append_right value hnul)
  rw [scanLiteral, hm]
  rw [literalInside] at h
  dsimp only
  cases hfind : literals.find? fun literal => literal.isPrefixOf value with
  | some literal =>
    rw [hfind] at h
    have hleft := List.find?_some hfind
    have hleft := List.isPrefixOf_iff_prefix.mp hleft
    have honto := find_literal hapart (List.mem_of_find?_eq_some hfind)
      (hleft.trans (List.prefix_append value after))
    rw [honto]
    exact h
  | none =>
    rw [hfind] at h
    dsimp only at h
    split_ifs at h with hany
    have honto : (literals.find? fun literal => literal.isPrefixOf (value ++ after)) = none := by
      rw [List.find?_eq_none] at hfind ⊢
      intro literal hmem hleft
      have hleft := List.isPrefixOf_iff_prefix.mp hleft
      rcases List.prefix_or_prefix_of_prefix hleft (List.prefix_append value after) with hle | hle
      · exact hfind literal hmem (List.isPrefixOf_iff_prefix.mpr hle)
      · apply hany
        rw [List.any_eq_true]
        exact ⟨literal, hmem, List.isPrefixOf_iff_prefix.mpr hle⟩
    rw [honto]
    exact h

theorem valueLenInside_onto {type : JsonType} {n : ℕ} (hnul : (0 : UInt8) ∈ after)
    (h : valueLenInside type value p = .ok n) :
    valueLen type (value ++ after) (p ++ after) = .ok n := by
  cases type with
  | string => exact scanMarked_onto after h
  | object => exact scanMarked_onto after h
  | array => exact scanMarked_onto after h
  | number => exact scanNumber_onto after h
  | boolean => exact literalInside_onto (by unfold Apart; decide) hnul h
  | null => exact literalInside_onto (by unfold Apart; decide) hnul h

theorem findValue_some {type : JsonType} {start : Ptr}
    (h : findValue p = .ok (some (type, value, start))) :
    value <:+ p ∧ start.length ≤ value.length ∧ (type ≠ .string → value ≠ []) := by
  induction p with
  | nil => cases h
  | cons c p ih =>
    rw [findValue] at h
    split_ifs at h
    case neg =>
      obtain ⟨hsuffix, hstart⟩ := ih h
      exact ⟨hsuffix.trans (List.suffix_cons c p), hstart⟩
    all_goals cases h
    all_goals simp

theorem scanMarked_le {type : JsonType} {mark₀ mark₁ last : UInt8} {depth len n : ℕ}
    (h : scanMarked type mark₀ mark₁ value depth last len p = .ok n) (hp : p.length ≤ value.length)
    (hlen : len + (if type = .string then 1 else 0) ≤ value.length ∨ len = 0) :
    n + (if type = .string then 1 else 0) ≤ value.length := by
  induction p generalizing depth last len with
  | nil => cases h
  | cons c p ih =>
    rw [List.length_cons] at hp
    rw [scanMarked] at h
    by_cases hzero : c = 0
    · rw [if_pos hzero] at h
      cases h
      split_ifs at hlen ⊢ <;> omega
    · rw [if_neg hzero] at h
      by_cases hclose : c = mark₁
      · rw [if_pos hclose] at h
        by_cases hdepth : depth = 0
        · rw [if_pos hdepth] at h
          dsimp only at h
          have hnew : value.length - (c :: p).length + (if type = .string then 0 else 1) +
              (if type = .string then 1 else 0) ≤ value.length := by
            rw [List.length_cons]
            split_ifs <;> omega
          by_cases hescaped : type = .string ∧ last = backslash
          · rw [if_pos hescaped] at h
            cases p with
            | nil => cases h
            | cons next p => exact ih h (by omega) (.inl hnew)
          · rw [if_neg hescaped] at h
            cases h
            exact hnew
        · rw [if_neg hdepth] at h
          exact ih h (by omega) hlen
      · rw [if_neg hclose] at h
        split_ifs at h <;> exact ih h (by omega) hlen

theorem scanNumber_le {n : ℕ} (h : scanNumber value p = .ok n) : n ≤ value.length := by
  induction p with
  | nil => cases h
  | cons c p ih =>
    rw [scanNumber] at h
    split_ifs at h
    · cases h
      exact Nat.zero_le _
    · cases h
      exact Nat.sub_le _ _
    · exact ih h

theorem literalInside_le {literals : List (List UInt8)} {n : ℕ}
    (h : literalInside literals value = .ok n) : n ≤ value.length := by
  rw [literalInside] at h
  split at h
  · rename_i literal hfind
    have hleft := List.find?_some hfind
    cases h
    exact (List.isPrefixOf_iff_prefix.mp hleft).length_le
  · split_ifs at h
    cases h
    exact Nat.zero_le _

theorem valueLenInside_le {type : JsonType} {start : Ptr} {n : ℕ}
    (hstart : start.length ≤ value.length)
    (h : valueLenInside type value start = .ok n) :
    n + (if type = .string then 1 else 0) ≤ value.length := by
  cases type with
  | string => exact scanMarked_le h hstart (.inr rfl)
  | object => exact scanMarked_le h hstart (.inr rfl)
  | array => exact scanMarked_le h hstart (.inr rfl)
  | number => exact scanNumber_le h
  | boolean => exact literalInside_le h
  | null => exact literalInside_le h

theorem strchr_suffix {ch : UInt8} {q : Ptr} (h : strchr ch p = .ok (some q)) :
    q <:+ p ∧ q ≠ [] := by
  induction p with
  | nil => cases h
  | cons c p ih =>
    rw [strchr] at h
    split_ifs at h
    · cases h
      exact ⟨List.suffix_rfl, List.cons_ne_nil c p⟩
    · cases h
    · exact ⟨(ih h).1.trans (List.suffix_cons c p), (ih h).2⟩

/-- A key, when something follows the text. -/
theorem getKey_onto {found : Option (Ptr × ℕ × Ptr)} (after : Ptr) (h : getKey p = .ok found) :
    getKey (p ++ after) =
      .ok (found.map fun found => (found.1 ++ after, found.2.1, found.2.2 ++ after)) := by
  rw [getKey] at h ⊢
  cases hopen : strchr quote p with
  | error e =>
    rw [hopen] at h
    cases h
  | ok start =>
    rw [hopen] at h
    rw [strchr_onto after hopen]
    cases start with
    | none =>
      cases h
      rfl
    | some start =>
      have hne := (strchr_suffix hopen).2
      dsimp only [Option.map_some] at h ⊢
      rw [List.tail_append_of_ne_nil hne]
      cases hclose : strchr quote start.tail with
      | error e =>
        rw [hclose] at h
        cases h
      | ok stop =>
        rw [hclose] at h
        rw [strchr_onto after hclose]
        cases stop with
        | none =>
          cases h
          rfl
        | some stop =>
          dsimp only [Option.map_some] at h ⊢
          cases hcolon : strchr colon stop with
          | error e =>
            rw [hcolon] at h
            cases h
          | ok pos =>
            rw [hcolon] at h
            rw [strchr_onto after hcolon]
            cases pos with
            | none =>
              cases h
              rfl
            | some pos =>
              cases h
              dsimp only [Option.map_some]
              rw [length_sub_onto]

theorem getKey_some {key pos : Ptr} {keyLen : ℕ} (h : getKey p = .ok (some (key, keyLen, pos))) :
    keyLen ≤ key.length ∧ pos <:+ p ∧ pos.length < p.length := by
  rw [getKey] at h
  cases hopen : strchr quote p with
  | error e =>
    rw [hopen] at h
    cases h
  | ok start =>
    rw [hopen] at h
    cases start with
    | none => cases h
    | some start =>
      obtain ⟨hstart, hne⟩ := strchr_suffix hopen
      dsimp only at h
      cases hclose : strchr quote start.tail with
      | error e =>
        rw [hclose] at h
        cases h
      | ok stop =>
        rw [hclose] at h
        cases stop with
        | none => cases h
        | some stop =>
          obtain ⟨hstop, -⟩ := strchr_suffix hclose
          dsimp only at h
          cases hcolon : strchr colon stop with
          | error e =>
            rw [hcolon] at h
            cases h
          | ok pos' =>
            rw [hcolon] at h
            cases pos' with
            | none => cases h
            | some pos' =>
              obtain ⟨hpos, -⟩ := strchr_suffix hcolon
              cases h
              have htail := hpos.trans hstop
              refine ⟨Nat.sub_le _ _, htail.trans ((List.tail_suffix start).trans hstart), ?_⟩
              have hle := htail.length_le
              have hle' := hstart.length_le
              rw [List.length_tail] at hle
              have hpositive := List.length_pos_iff.mpr hne
              omega

/-- A member that ends inside is found whatever follows. -/
theorem nextInside_onto {found : Option Entry} (hnul : (0 : UInt8) ∈ after)
    (h : nextInside p = .ok found) :
    jsonGetNextObject .object (p ++ after) = .ok (found.map (onto after)) := by
  rw [jsonGetNextObject, if_pos rfl]
  rw [nextInside] at h
  cases hkey : getKey p with
  | error e =>
    rw [hkey] at h
    cases h
  | ok key =>
    rw [hkey] at h
    rw [getKey_onto after hkey]
    cases key with
    | none =>
      cases h
      rfl
    | some key =>
      obtain ⟨key, keyLen, pos⟩ := key
      dsimp only [Option.map_some] at h ⊢
      rw [getValueInside] at h
      rw [getValue]
      cases hvalue : findValue pos with
      | error e =>
        rw [hvalue] at h
        cases h
      | ok value =>
        rw [hvalue] at h
        rw [findValue_onto after hvalue]
        cases value with
        | none =>
          cases h
          rfl
        | some value =>
          obtain ⟨type, value, start⟩ := value
          dsimp only [Option.map_some] at h ⊢
          cases hlen : valueLenInside type value start with
          | error e =>
            rw [hlen] at h
            cases h
          | ok len =>
            rw [hlen] at h
            rw [valueLenInside_onto hnul hlen]
            cases h
            have hle := valueLenInside_le (findValue_some hvalue).2.1 hlen
            dsimp only [Option.map_some, onto]
            rw [List.drop_append_of_le_length hle]

/-- What is known about a member that ends inside. -/
theorem nextInside_some {entry : Entry} (h : nextInside p = .ok (some entry)) :
    entry.keyLen ≤ entry.key.length ∧ entry.valLen ≤ entry.val.length ∧ entry.val <:+ p ∧
      entry.next <:+ p ∧ entry.next.length < p.length := by
  rw [nextInside] at h
  cases hkey : getKey p with
  | error e =>
    rw [hkey] at h
    cases h
  | ok key =>
    rw [hkey] at h
    cases key with
    | none => cases h
    | some key =>
      obtain ⟨key, keyLen, pos⟩ := key
      obtain ⟨hkeyLen, hpos, hshort⟩ := getKey_some hkey
      dsimp only at h
      rw [getValueInside] at h
      cases hvalue : findValue pos with
      | error e =>
        rw [hvalue] at h
        cases h
      | ok value =>
        rw [hvalue] at h
        cases value with
        | none => cases h
        | some value =>
          obtain ⟨type, value, start⟩ := value
          obtain ⟨hsuffix, hstart, -⟩ := findValue_some hvalue
          dsimp only at h
          cases hlen : valueLenInside type value start with
          | error e =>
            rw [hlen] at h
            cases h
          | ok len =>
            rw [hlen] at h
            cases h
            have hle := valueLenInside_le hstart hlen
            have hdrop := List.drop_suffix (len + if type = .string then 1 else 0) value
            refine ⟨hkeyLen, by dsimp only; omega, hsuffix.trans hpos,
              (hdrop.trans hsuffix).trans hpos, ?_⟩
            exact Nat.lt_of_le_of_lt (hdrop.trans hsuffix).length_le hshort

theorem nameMatches_append {entry : Entry} {key : Ptr} (hkey : entry.key = key ++ after)
    (hlen : entry.keyLen ≤ key.length) :
    nameMatches name entry = (entry.keyLen == name.length && key.take name.length == name) := by
  rw [nameMatches, hkey]
  by_cases hsame : entry.keyLen = name.length
  · rw [List.take_append_of_le_length (by omega)]
  · rw [beq_false_of_ne hsame, Bool.false_and, Bool.false_and]

/-- A search that ends inside finds the same whatever follows. -/
theorem searchInside_onto {found : Option Entry} {fuel fuel' : ℕ} (hnul : (0 : UInt8) ∈ after)
    (hfuel : fuel ≤ fuel') (h : searchInside name fuel p = .ok found) :
    lookup name (walk .object fuel' (p ++ after)) = .ok (found.map (onto after)) := by
  induction fuel generalizing p fuel' with
  | zero => cases h
  | succ fuel ih =>
    obtain ⟨fuel', rfl⟩ : ∃ n, fuel' = n + 1 := ⟨fuel' - 1, by omega⟩
    cases p with
    | nil => cases h
    | cons c p =>
      rw [searchInside] at h
      by_cases hzero : c = 0
      · rw [if_pos hzero] at h
        cases h
        rw [List.cons_append, walk, if_pos hzero]
        rfl
      · rw [if_neg hzero] at h
        cases hnext : nextInside (c :: p) with
        | error e =>
          rw [hnext] at h
          cases h
        | ok entry =>
          rw [hnext] at h
          have honto := nextInside_onto hnul hnext
          cases entry with
          | none =>
            cases h
            rw [walk_none fuel' honto]
            rfl
          | some entry =>
            obtain ⟨hkeyLen, -⟩ := nextInside_some hnext
            have hsame : (reported (onto after entry) && nameMatches name (onto after entry)) =
                (reported entry && nameMatches name entry) := by
              have hkey : (onto after entry).key = entry.key ++ after := rfl
              rw [nameMatches_append hkey hkeyLen]
              rfl
            rw [walk_some fuel' honto, lookup_cons, hsame]
            dsimp only at h
            by_cases hmatch : (reported entry && nameMatches name entry) = true
            · rw [if_pos hmatch] at h ⊢
              cases h
              rfl
            · rw [if_neg hmatch] at h ⊢
              exact ih (Nat.le_of_succ_le_succ hfuel) h

theorem searchInside_some {entry : Entry} {fuel : ℕ}
    (h : searchInside name fuel p = .ok (some entry)) :
    entry.valLen ≤ entry.val.length ∧ entry.val <:+ p := by
  induction fuel generalizing p with
  | zero => cases h
  | succ fuel ih =>
    cases p with
    | nil => cases h
    | cons c p =>
      rw [searchInside] at h
      split_ifs at h
      · cases h
      · cases hnext : nextInside (c :: p) with
        | error e =>
          rw [hnext] at h
          cases h
        | ok entry' =>
          rw [hnext] at h
          cases entry' with
          | none => cases h
          | some entry' =>
            obtain ⟨-, hlen, hval, hsuffix, -⟩ := nextInside_some hnext
            dsimp only at h
            split_ifs at h
            · cases h
              exact ⟨hlen, hval⟩
            · obtain ⟨hlen', hval'⟩ := ih h
              exact ⟨hlen', hval'.trans hsuffix⟩

theorem jsonGetObject_suffix {pos : Ptr} (h : jsonGetObject .object p = .ok (some pos)) :
    pos <:+ p := by
  induction p with
  | nil => cases h
  | cons c p ih =>
    rw [jsonGetObject, if_pos rfl] at h
    split_ifs at h
    · cases h
    · exact (ih h).trans (List.suffix_cons c p)
    · cases h
      exact List.suffix_rfl
    · cases h

/-- The copy that `HAL_Snprintf` makes of a value. -/
theorem take_strlen {n : ℕ} (len : ℕ) (h : strlen p = .ok n) :
    p.take (min len n) = (p.take len).takeWhile (· ≠ 0) := by
  induction p generalizing n len with
  | nil => cases h
  | cons c p ih =>
    rw [strlen] at h
    cases len with
    | zero => simp
    | succ len =>
      by_cases hc : c = 0
      · rw [if_pos hc] at h
        cases h
        simp [hc]
      · rw [if_neg hc] at h
        cases hp : strlen p with
        | error e =>
          rw [hp] at h
          cases h
        | ok m =>
          rw [hp] at h
          cases h
          rw [Nat.add_min_add_right, List.take_succ_cons, List.take_succ_cons, ih len hp,
            List.takeWhile_cons_of_pos (by simpa using hc)]

/-- `LITE_json_value_of` with a name that has no dots. -/
theorem liteJsonValueOf_name (hdot : dot ∉ name) (hnul : (0 : UInt8) ∈ p) {found : Option Entry}
    (h : lookup name (forEach .object p) = .ok found)
    (hsuffix : ∀ entry, found = some entry → entry.val <:+ p ∧ (0 : UInt8) ∈ entry.val) :
    liteJsonValueOf name p = .ok (found.map copyOf) := by
  have hsplit : name.splitOn dot = [name] := by
    have h : ([dot].intercalate [name]).splitOn dot = [name] :=
      List.splitOn_intercalate dot (by simpa using hdot) (by simp)
    simpa using h
  rw [liteJsonValueOf, hsplit, followNames, stepInto_eq hnul, h]
  cases found with
  | none => rfl
  | some entry =>
    obtain ⟨hval, hzero⟩ := hsuffix entry rfl
    obtain ⟨n, hn⟩ := strlen_of_mem hzero
    have hdrop : p.drop (p.length - entry.val.length) = entry.val :=
      (List.suffix_iff_eq_drop.mp hval).symm
    simp only [Except.map, Option.bind_some, found, Bool.false_eq_true, false_and, if_false,
      List.isEmpty_nil, if_true, hdrop, hn, take_strlen entry.valLen hn]
    rfl

/-- A value that is found inside is the one that is found, whatever follows. -/
theorem valueInside_onto {value : Option (List UInt8)} (hdot : dot ∉ name)
    (hnul : (0 : UInt8) ∈ after)
    (h : valueInside name p = .ok value) : liteJsonValueOf name (p ++ after) = .ok value := by
  rw [valueInside] at h
  have hmem : (0 : UInt8) ∈ p ++ after := List.mem_append_right p hnul
  cases hobject : jsonGetObject .object p with
  | error e =>
    rw [hobject] at h
    cases h
  | ok pos =>
    rw [hobject] at h
    have honto := jsonGetObject_onto after hobject
    cases pos with
    | none =>
      cases h
      have hlookup : lookup name (forEach .object (p ++ after)) = .ok none := by
        rw [forEach, honto]
        rfl
      exact liteJsonValueOf_name hdot hmem hlookup (by simp)
    | some pos =>
      dsimp only at h
      have hpos := jsonGetObject_suffix hobject
      cases hsearch : searchInside name (p.length + 1) pos with
      | error e =>
        rw [hsearch] at h
        cases h
      | ok found =>
        rw [hsearch] at h
        cases h
        have hlookup : lookup name (forEach .object (p ++ after)) =
            .ok (found.map (onto after)) := by
          rw [forEach, honto]
          apply searchInside_onto hnul _ hsearch
          rw [List.length_append]
          omega
        rw [liteJsonValueOf_name hdot hmem hlookup]
        · cases found with
          | none => rfl
          | some entry =>
            obtain ⟨hlen, -⟩ := searchInside_some hsearch
            simp only [Option.map_some, copyOf, onto, List.take_append_of_le_length hlen]
        · intro entry hentry
          cases found with
          | none => cases hentry
          | some entry' =>
            cases hentry
            obtain ⟨-, hval⟩ := searchInside_some hsearch
            refine ⟨?_, List.mem_append_right _ hnul⟩
            exact List.suffix_append_self_iff.mpr (hval.trans hpos)

end Onto

/-- What is asked of the name of a field: it can be written as it is, and its last letter is
not an `x`, with which a key that is cut off is told from it. -/
structure FieldName (name : List UInt8) : Prop where
  ne_nil : name ≠ []
  noDot : dot ∉ name
  noQuote : quote ∉ name
  noNul : (0 : UInt8) ∉ name
  noX : 0x78 ∉ name

/-- A member with the name, and the end of the text. -/
def ending (name : List UInt8) (d : UInt8) : Ptr :=
  quote :: (name ++ quote :: colon :: [quote, d, quote, 0])

/-- A walk from this position comes to a member of the name with this value. -/
def Finds (name : List UInt8) (p : Ptr) (text : List UInt8) : Prop :=
  ∀ fuel, p.length < fuel → ∃ entry, lookup name (walk .object fuel p) = .ok (some entry) ∧
    copyOf entry = text ∧ entry.val <:+ p ∧ (0 : UInt8) ∈ entry.val

/-- What follows the position decides which value is found. -/
def Undecided (name : List UInt8) (p : Ptr) : Prop :=
  ∃ (rest : UInt8 → Ptr) (text : UInt8 → List UInt8),
    (∀ d : UInt8, isDigit d = true → (0 : UInt8) ∈ rest d ∧ Finds name (p ++ rest d) (text d)) ∧
    text 0x30 ≠ text 0x31

section Open
variable {p value : Ptr} {name : List UInt8} {d : UInt8}

theorem digit_ne (hd : isDigit d = true) : d ≠ 0 ∧ d ≠ quote ∧ d ≠ backslash ∧ d ≠ openBrace ∧
    d ≠ closeBrace ∧ d ≠ openBracket ∧ d ≠ closeBracket := by
  refine ⟨?_, ?_, ?_, ?_, ?_, ?_, ?_⟩
  all_goals
    rintro rfl
    cases hd

/-- The closing marks end a value at its depth. -/
theorem scanMarked_marks {type : JsonType} {mark₀ mark₁ last : UInt8} (value rest : Ptr)
    (depth len : ℕ)
    (hmarks : mark₁ ≠ 0 ∧ mark₁ ≠ backslash) (hlast : last ≠ backslash) :
    scanMarked type mark₀ mark₁ value depth last len (List.replicate (depth + 1) mark₁ ++ rest) =
      .ok (value.length - (mark₁ :: rest).length + if type = .string then 0 else 1) := by
  induction depth generalizing last with
  | zero =>
    rw [List.replicate_one, List.cons_append, List.nil_append, scanMarked, if_neg hmarks.1,
      if_pos rfl, if_pos rfl]
    dsimp only
    rw [if_neg fun h => hlast h.2]
  | succ depth ih =>
    rw [List.replicate_succ, List.cons_append, scanMarked, if_neg hmarks.1, if_pos rfl,
      if_neg (Nat.succ_ne_zero depth), Nat.add_sub_cancel]
    exact ih hmarks.2

/-- A digit and the closing marks end a value at its depth, whatever came last. -/
theorem scanMarked_digit {type : JsonType} {mark₀ mark₁ : UInt8} (value rest : Ptr) (depth : ℕ)
    (last : UInt8) (len : ℕ) (hmarks : mark₁ ≠ 0 ∧ mark₁ ≠ backslash)
    (hd : d ≠ 0 ∧ d ≠ backslash ∧ d ≠ mark₀ ∧ d ≠ mark₁) :
    scanMarked type mark₀ mark₁ (value ++ d :: (List.replicate (depth + 1) mark₁ ++ rest))
      depth last
        len (d :: (List.replicate (depth + 1) mark₁ ++ rest)) =
      .ok (value.length + depth + 1 + if type = .string then 0 else 1) := by
  rw [scanMarked, if_neg hd.1, if_neg hd.2.2.2, if_neg hd.2.2.1,
    scanMarked_marks _ rest depth len hmarks hd.2.1]
  congr 2
  rw [List.length_append, List.length_cons, List.length_append, List.length_replicate,
    List.length_cons]
  omega

/-- The scan of a value that is cut off ends once a digit and enough closing marks follow. -/
theorem scanMarked_closes {type : JsonType} {mark₀ mark₁ last : UInt8} {depth len : ℕ} {e : Overrun}
    (hmarks : mark₁ ≠ 0 ∧ mark₁ ≠ backslash)
    (h : scanMarked type mark₀ mark₁ value depth last len p = .error e) :
    (0 : UInt8) ∉ p ∧ ∃ depth', ∀ (d : UInt8) (rest : Ptr),
      d ≠ 0 ∧ d ≠ backslash ∧ d ≠ mark₀ ∧ d ≠ mark₁ →
        scanMarked type mark₀ mark₁ (value ++ d :: (List.replicate (depth' + 1) mark₁ ++ rest))
            depth last len (p ++ d :: (List.replicate (depth' + 1) mark₁ ++ rest)) =
          .ok (value.length + depth' + 1 + if type = .string then 0 else 1) := by
  induction p generalizing depth last len with
  | nil =>
    exact ⟨List.not_mem_nil, depth,
      fun d rest hd => scanMarked_digit value rest depth last len hmarks hd⟩
  | cons c p ih =>
    rw [scanMarked] at h
    by_cases hzero : c = 0
    · rw [if_pos hzero] at h
      cases h
    · have hnul : (0 : UInt8) ∉ p → (0 : UInt8) ∉ c :: p := by
        intro hp hmem
        rcases List.mem_cons.mp hmem with heq | hmem
        · exact hzero heq.symm
        · exact hp hmem
      rw [if_neg hzero] at h
      by_cases hclose : c = mark₁
      · rw [if_pos hclose] at h
        by_cases hdepth : depth = 0
        · rw [if_pos hdepth] at h
          dsimp only at h
          by_cases hescaped : type = .string ∧ last = backslash
          · rw [if_pos hescaped] at h
            cases p with
            | nil =>
              refine ⟨hnul List.not_mem_nil, depth, ?_⟩
              intro d rest hd
              rw [List.cons_append, scanMarked, if_neg hzero, if_pos hclose, if_pos hdepth]
              dsimp only
              rw [if_pos hescaped, List.nil_append]
              exact scanMarked_digit value rest depth d _ hmarks hd
            | cons next p =>
              obtain ⟨hp, depth', hcloses⟩ := ih h
              refine ⟨hnul hp, depth', ?_⟩
              intro d rest hd
              have hlen := length_sub_onto value (c :: next :: p)
                (d :: (List.replicate (depth' + 1) mark₁ ++ rest))
              rw [List.cons_append] at hlen
              rw [List.cons_append, scanMarked, if_neg hzero, if_pos hclose, if_pos hdepth]
              dsimp only
              rw [if_pos hescaped, hlen]
              exact hcloses d rest hd
          · rw [if_neg hescaped] at h
            cases h
        · rw [if_neg hdepth] at h
          obtain ⟨hp, depth', hcloses⟩ := ih h
          refine ⟨hnul hp, depth', ?_⟩
          intro d rest hd
          rw [List.cons_append, scanMarked, if_neg hzero, if_pos hclose, if_neg hdepth]
          exact hcloses d rest hd
      · rw [if_neg hclose] at h
        by_cases hopen : c = mark₀
        · rw [if_pos hopen] at h
          obtain ⟨hp, depth', hcloses⟩ := ih h
          refine ⟨hnul hp, depth', ?_⟩
          intro d rest hd
          rw [List.cons_append, scanMarked, if_neg hzero, if_neg hclose, if_pos hopen]
          exact hcloses d rest hd
        · rw [if_neg hopen] at h
          obtain ⟨hp, depth', hcloses⟩ := ih h
          refine ⟨hnul hp, depth', ?_⟩
          intro d rest hd
          rw [List.cons_append, scanMarked, if_neg hzero, if_neg hclose, if_neg hopen]
          exact hcloses d rest hd

/-- The scan of a number that is cut off goes on with a digit and ends at a comma. -/
theorem scanNumber_closes {e : Overrun} (hd : isDigit d = true) (rest : Ptr)
    (h : scanNumber value p = .error e) :
    (0 : UInt8) ∉ p ∧
      scanNumber (value ++ d :: comma :: rest) (p ++ d :: comma :: rest) =
        .ok (value.length + 1) := by
  have hbody : ∀ c ∈ p, isDigit c = true ∨ c = dot := by
    induction p with
    | nil => simp
    | cons c p ih =>
      rw [scanNumber] at h
      split_ifs at h with hzero hends
      intro c' hmem
      rcases List.mem_cons.mp hmem with rfl | hmem
      · rw [not_and_or, not_not] at hends
        simpa using hends
      · exact ih h c' hmem
  constructor
  · intro hmem
    rcases hbody 0 hmem with hdigit | hdot
    · cases hdigit
    · cases hdot
  · have hdigits : ∀ c ∈ p ++ [d], isDigit c = true ∨ c = dot := by
      intro c hmem
      rcases List.mem_append.mp hmem with hmem | hmem
      · exact hbody c hmem
      · rw [List.mem_singleton.mp hmem]
        exact .inl hd
    have hscan := scanNumber_digits (value ++ d :: comma :: rest) rest hdigits
      (show endsNumber comma = true by decide)
    rw [List.append_assoc, List.cons_append, List.nil_append] at hscan
    rw [hscan]
    congr 1
    rw [List.length_append, List.length_cons, List.length_cons]
    omega

/-- A value that is cut off in a literal is none when a comma follows. -/
theorem scanLiteral_comma {literals : List (List UInt8)} {e : Overrun} {rest : Ptr}
    (hcomma : ∀ literal ∈ literals, comma ∉ literal) (hnul : (0 : UInt8) ∈ rest)
    (h : literalInside literals value = .error e) :
    (∃ literal ∈ literals, value <+: literal) ∧
      scanLiteral literals (value ++ comma :: rest) = .ok 0 := by
  obtain ⟨n, hn⟩ := strlen_of_mem
    (List.mem_append_right value (List.mem_cons_of_mem comma hnul))
  rw [literalInside] at h
  cases hfind : literals.find? fun literal => literal.isPrefixOf value with
  | some literal =>
    rw [hfind] at h
    cases h
  | none =>
    rw [hfind] at h
    dsimp only at h
    split_ifs at h with hany
    rw [List.any_eq_true] at hany
    obtain ⟨literal, hmem, hleft⟩ := hany
    refine ⟨⟨literal, hmem, List.isPrefixOf_iff_prefix.mp hleft⟩, ?_⟩
    have hnone : (literals.find? fun literal => literal.isPrefixOf (value ++ comma :: rest)) =
        none := by
      rw [List.find?_eq_none] at hfind ⊢
      intro other hother hbefore
      have hbefore := List.isPrefixOf_iff_prefix.mp hbefore
      have hcut : value ++ [comma] <+: value ++ comma :: rest := ⟨rest, by simp⟩
      rcases List.prefix_or_prefix_of_prefix hbefore hcut with hle | hle
      · rcases List.prefix_concat_iff.mp hle with heq | hle
        · apply hcomma other hother
          rw [heq]
          simp
        · exact hfind other hother (List.isPrefixOf_iff_prefix.mpr hle)
      · apply hcomma other hother
        apply hle.subset
        simp
    rw [scanLiteral, hn]
    dsimp only
    rw [hnone]

/-- Where the parts of an entry lie. -/
theorem jsonGetNextObject_suffix {entry : Entry}
    (h : jsonGetNextObject .object p = .ok (some entry)) :
    entry.val <:+ p ∧ entry.next <:+ entry.val ∧ entry.next.length < p.length := by
  rw [jsonGetNextObject, if_pos rfl] at h
  cases hkey : getKey p with
  | error e =>
    rw [hkey] at h
    cases h
  | ok key =>
    rw [hkey] at h
    cases key with
    | none => cases h
    | some key =>
      obtain ⟨key, keyLen, pos⟩ := key
      obtain ⟨-, hpos, hshort⟩ := getKey_some hkey
      dsimp only at h
      rw [getValue] at h
      cases hvalue : findValue pos with
      | error e =>
        rw [hvalue] at h
        cases h
      | ok value =>
        rw [hvalue] at h
        cases value with
        | none => cases h
        | some value =>
          obtain ⟨type, value, start⟩ := value
          obtain ⟨hsuffix, -⟩ := findValue_some hvalue
          dsimp only at h
          cases hlen : valueLen type value start with
          | error e =>
            rw [hlen] at h
            cases h
          | ok len =>
            rw [hlen] at h
            cases h
            have hdrop := List.drop_suffix (len + if type = .string then 1 else 0) value
            refine ⟨hsuffix.trans hpos, hdrop, ?_⟩
            exact Nat.lt_of_le_of_lt (hdrop.trans hsuffix).length_le hshort

/-- A step of the walk: its value if it has the name, else what the rest of the walk finds. -/
theorem Finds.step {entry : Entry} {text : List UInt8}
    (h : jsonGetNextObject .object p = .ok (some entry)) (hnul : (0 : UInt8) ∈ entry.next)
    (hrest : Finds name entry.next text) :
    Finds name p (if reported entry && nameMatches name entry then copyOf entry else text) := by
  obtain ⟨hval, hnext, hshort⟩ := jsonGetNextObject_suffix h
  intro fuel hfuel
  obtain ⟨fuel, rfl⟩ : ∃ n, fuel = n + 1 := ⟨fuel - 1, by omega⟩
  rw [walk_some fuel h, lookup_cons]
  by_cases hselected : (reported entry && nameMatches name entry) = true
  · rw [if_pos hselected, if_pos hselected]
    exact ⟨entry, rfl, rfl, hval, hnext.mem hnul⟩
  · rw [if_neg hselected, if_neg hselected]
    obtain ⟨entry', hlookup, hcopy, hval', hnul'⟩ := hrest fuel (by omega)
    exact ⟨entry', hlookup, hcopy, hval'.trans (hnext.trans hval), hnul'⟩

/-- The value of a string is found behind the colon. -/
theorem getValue_digit (key : Ptr) (keyLen : ℕ) {gap : Ptr} (rest : Ptr) (hd : isDigit d = true)
    (hgap : ∀ c ∈ gap, startsValue c = false) (hnul : (0 : UInt8) ∉ gap) :
    getValue key keyLen (gap ++ quote :: d :: quote :: rest) =
      .ok (some ⟨key, keyLen, d :: quote :: rest, 1, .string, rest⟩) := by
  obtain ⟨hzero, hquote, hback, -⟩ := digit_ne hd
  have hscan : valueLen .string (d :: quote :: rest) (d :: quote :: rest) = .ok 1 :=
    scanMarked_digit [] rest 0 quote 0 (by decide) ⟨hzero, hback, hquote, hquote⟩
  have hfind : findValue (gap ++ quote :: d :: quote :: rest) =
      .ok (some (.string, d :: quote :: rest, d :: quote :: rest)) := by
    rw [findValue_skip hgap hnul]
    rfl
  rw [getValue_of key keyLen hfind hscan]
  rfl

/-- A step to a member whose value is a digit in quotes. -/
theorem jsonGetNextObject_digit {before key gap gap' : Ptr} (rest : Ptr) (hd : isDigit d = true)
    (hbefore : quote ∉ before) (hkey : quote ∉ key) (hgap : colon ∉ gap)
    (hgap' : ∀ c ∈ gap', startsValue c = false)
    (hnul : (0 : UInt8) ∉ before ∧ (0 : UInt8) ∉ key ∧ (0 : UInt8) ∉ gap)
    (hnul' : (0 : UInt8) ∉ gap') :
    jsonGetNextObject .object
      (before ++ quote :: (key ++ quote :: (gap ++ colon :: (gap' ++ quote ::
        d :: quote :: rest)))) =
      .ok (some ⟨key ++ quote :: (gap ++ colon :: (gap' ++ quote :: d :: quote :: rest)),
        key.length, d :: quote :: rest, 1, .string, rest⟩) := by
  have hcolon : ∀ c ∈ colon :: gap', startsValue c = false := by
    intro c hmem
    rcases List.mem_cons.mp hmem with rfl | hmem
    · decide
    · exact hgap' c hmem
  have hcolonNul : (0 : UInt8) ∉ colon :: gap' := by
    intro hmem
    rcases List.mem_cons.mp hmem with heq | hmem
    · exact absurd heq (by decide)
    · exact hnul' hmem
  rw [jsonGetNextObject, if_pos rfl, getKey_append _ hbefore hkey hgap hnul]
  dsimp only
  exact @getValue_digit d _ _ (colon :: gap') rest hd hcolon hcolonNul

theorem nameMatches_key {entry : Entry} {key rest : Ptr} (hkey : entry.key = key ++ rest)
    (hlen : entry.keyLen = key.length) : nameMatches name entry = (key == name) := by
  rw [nameMatches_append hkey hlen.le, hlen]
  by_cases hsame : key.length = name.length
  · rw [← hsame, List.take_length, beq_self_eq_true, Bool.true_and]
  · rw [beq_false_of_ne hsame, Bool.false_and, beq_false_of_ne]
    rintro rfl
    exact hsame rfl

theorem finds_ending (hname : FieldName name) (hd : isDigit d = true) {gap : Ptr}
    (hquiet : quote ∉ gap) (hnul : (0 : UInt8) ∉ gap) : Finds name (gap ++ ending name d) [d] := by
  obtain ⟨hzero, -⟩ := digit_ne hd
  have hstep : jsonGetNextObject .object (gap ++ ending name d) =
      .ok (some ⟨name ++ quote :: colon :: [quote, d, quote, 0], name.length, [d, quote, 0], 1,
        .string, [0]⟩) :=
    @jsonGetNextObject_digit d gap name [] [] [0] hd hquiet hname.noQuote List.not_mem_nil
      (by simp) ⟨hnul, hname.noNul, List.not_mem_nil⟩ List.not_mem_nil
  intro fuel hfuel
  obtain ⟨fuel, rfl⟩ : ∃ n, fuel = n + 1 := ⟨fuel - 1, by omega⟩
  obtain ⟨hval, -⟩ := jsonGetNextObject_suffix hstep
  have hlen : name.length ≠ 0 := fun h => hname.ne_nil (List.length_eq_zero_iff.mp h)
  rw [walk_some fuel hstep, lookup_cons, nameMatches_key rfl rfl, beq_self_eq_true, Bool.and_true,
    reported, if_pos (by simpa using hlen)]
  refine ⟨_, rfl, ?_, hval, by simp⟩
  simp [copyOf, hzero]

/-- A step that is completed by what follows, up to the last member. -/
theorem Undecided.of_step (hname : FieldName name) {gap : Ptr} (rest : UInt8 → Ptr)
    (entry : UInt8 → Entry) (selected : Bool) (hquiet : quote ∉ gap) (hnul : (0 : UInt8) ∉ gap)
    (hstep : ∀ d, isDigit d = true →
      jsonGetNextObject .object (p ++ rest d) = .ok (some (entry d)) ∧
        (entry d).next = gap ++ ending name d ∧ ending name d <:+ rest d ∧
        (reported (entry d) && nameMatches name (entry d)) = selected)
    (hcopy : selected = true → copyOf (entry 0x30) ≠ copyOf (entry 0x31)) : Undecided name p := by
  refine ⟨rest, fun d => if selected then copyOf (entry d) else [d], ?_, ?_⟩
  · intro d hd
    obtain ⟨hobject, hnext, hsuffix, hselected⟩ := hstep d hd
    have hending : (0 : UInt8) ∈ ending name d := by simp [ending]
    refine ⟨hsuffix.mem hending, ?_⟩
    have hrest : Finds name (entry d).next [d] := by
      rw [hnext]
      exact finds_ending hname hd hquiet hnul
    have hfinds := Finds.step hobject (by rw [hnext]; exact List.mem_append_right gap hending) hrest
    rwa [hselected] at hfinds
  · cases selected with
    | true => exact hcopy rfl
    | false => simp

theorem strchr_error {ch : UInt8} {e : Overrun} (h : strchr ch p = .error e) :
    ch ∉ p ∧ (0 : UInt8) ∉ p := by
  induction p with
  | nil => exact ⟨List.not_mem_nil, List.not_mem_nil⟩
  | cons c p ih =>
    rw [strchr] at h
    split_ifs at h with hfound hzero
    obtain ⟨hch, hnul⟩ := ih h
    constructor
    · rw [List.mem_cons, not_or]
      exact ⟨fun heq => hfound heq.symm, hch⟩
    · rw [List.mem_cons, not_or]
      exact ⟨fun heq => hzero heq.symm, hnul⟩

theorem strchr_some {ch : UInt8} {q : Ptr} (h : strchr ch p = .ok (some q)) :
    ∃ front rest, p = front ++ ch :: rest ∧ q = ch :: rest ∧ ch ∉ front ∧ (0 : UInt8) ∉ front := by
  induction p with
  | nil => cases h
  | cons c p ih =>
    rw [strchr] at h
    split_ifs at h with hfound hzero
    · cases h
      exact ⟨[], p, by rw [hfound]; rfl, by rw [hfound], List.not_mem_nil, List.not_mem_nil⟩
    · cases h
    · obtain ⟨front, rest, hp, hq, hch, hnul⟩ := ih h
      refine ⟨c :: front, rest, by rw [hp]; rfl, hq, ?_, ?_⟩
      · rw [List.mem_cons, not_or]
        exact ⟨fun heq => hfound heq.symm, hch⟩
      · rw [List.mem_cons, not_or]
        exact ⟨fun heq => hzero heq.symm, hnul⟩

theorem findValue_error {e : Overrun} (h : findValue p = .error e) :
    (∀ c ∈ p, startsValue c = false) ∧ (0 : UInt8) ∉ p := by
  induction p with
  | nil => exact ⟨by simp, List.not_mem_nil⟩
  | cons c p ih =>
    rw [findValue] at h
    split_ifs at h with hzero hquote hbrace hbracket hnumber hboolean hnull
    obtain ⟨hstarts, hnul⟩ := ih h
    have hc : startsValue c = false := by
      simp only [startsValue, Bool.or_eq_false_iff, beq_eq_false_iff_ne]
      simp only [not_or, Bool.not_eq_true] at hnumber hboolean hnull
      tauto
    constructor
    · intro c' hmem
      rcases List.mem_cons.mp hmem with rfl | hmem
      · exact hc
      · exact hstarts c' hmem
    · rw [List.mem_cons, not_or]
      exact ⟨fun heq => hzero heq.symm, hnul⟩

/-- The search for a key is cut off. -/
theorem undecided_key (hname : FieldName name) {e : Overrun} (h : getKey p = .error e) :
    Undecided name p := by
  rw [getKey] at h
  cases hopen : strchr quote p with
  | error e =>
    obtain ⟨hquote, hnul⟩ := strchr_error hopen
    refine ⟨ending name, fun d => [d], ?_, by decide⟩
    exact fun d hd => ⟨by simp [ending], finds_ending hname hd hquote hnul⟩
  | ok start =>
    rw [hopen] at h
    cases start with
    | none => cases h
    | some start =>
      obtain ⟨before, key, rfl, rfl, hbefore, hbeforeNul⟩ := strchr_some hopen
      dsimp only [List.tail_cons] at h
      cases hclose : strchr quote key with
      | error e =>
        obtain ⟨hkey, hkeyNul⟩ := strchr_error hclose
        have hkey' : quote ∉ key ++ [0x78] ∧ (0 : UInt8) ∉ key ++ [0x78] := by
          simp only [List.mem_append, List.mem_singleton, not_or]
          exact ⟨⟨hkey, by decide⟩, hkeyNul, by decide⟩
        refine @Undecided.of_step _ _ hname []
          (fun d => 0x78 :: quote :: colon :: quote :: d :: quote :: ending name d)
          (fun d => ⟨(key ++ [0x78]) ++ quote :: colon :: quote :: d :: quote :: ending name d,
            (key ++ [0x78]).length, d :: quote :: ending name d, 1, .string, ending name d⟩)
          false List.not_mem_nil List.not_mem_nil ?_ (fun h => by cases h)
        intro d hd
        have hstep :=
          @jsonGetNextObject_digit d before (key ++ [0x78]) [] [] (ending name d) hd hbefore
          hkey'.1 List.not_mem_nil (by simp) ⟨hbeforeNul, hkey'.2, List.not_mem_nil⟩
            List.not_mem_nil
        have htext : before ++ quote :: key ++
            0x78 :: quote :: colon :: quote :: d :: quote :: ending name d =
              before ++ quote :: ((key ++ [0x78]) ++
                quote :: colon :: quote :: d :: quote :: ending name d) := by simp
        refine ⟨(congrArg (jsonGetNextObject .object) htext).trans hstep, rfl, ?_, ?_⟩
        · exact ⟨0x78 :: quote :: colon :: quote :: d :: [quote], by simp⟩
        · rw [nameMatches_key rfl rfl, beq_false_of_ne, Bool.and_false]
          intro heq
          apply hname.noX
          rw [← heq]
          simp
      | ok stop =>
        rw [hclose] at h
        cases stop with
        | none => cases h
        | some stop =>
          obtain ⟨key, gap, rfl, rfl, hkey, hkeyNul⟩ := strchr_some hclose
          dsimp only at h
          cases hcolon : strchr colon (quote :: gap) with
          | ok pos =>
            rw [hcolon] at h
            cases pos <;> cases h
          | error e =>
            obtain ⟨hgap, hgapNul⟩ := strchr_error hcolon
            rw [List.mem_cons, not_or] at hgap hgapNul
            refine @Undecided.of_step _ _ hname []
              (fun d => colon :: quote :: d :: quote :: ending name d)
              (fun d => ⟨key ++ quote :: (gap ++ colon :: quote :: d :: quote :: ending name d),
                key.length, d :: quote :: ending name d, 1, .string, ending name d⟩)
              (key.length != 0 && key == name) List.not_mem_nil List.not_mem_nil ?_ ?_
            · intro d hd
              have hstep :=
                @jsonGetNextObject_digit d before key gap [] (ending name d) hd hbefore hkey
                hgap.2 (by simp) ⟨hbeforeNul, hkeyNul, hgapNul.2⟩ List.not_mem_nil
              have htext : before ++ quote :: (key ++ quote :: gap) ++
                  colon :: quote :: d :: quote :: ending name d =
                    before ++ quote :: (key ++ quote ::
                      (gap ++ colon :: quote :: d :: quote :: ending name d)) := by simp
              refine ⟨(congrArg (jsonGetNextObject .object) htext).trans hstep, rfl, ?_, ?_⟩
              · exact ⟨colon :: quote :: d :: [quote], by simp⟩
              · rw [nameMatches_key rfl rfl, reported]
                simp
            · intro _
              simp [copyOf]

/-- A value that is cut off, and is ended by what follows. -/
theorem Undecided.of_value (hname : FieldName name) {key pos start gap : Ptr} {keyLen len : ℕ}
    {type : JsonType} (hkey : getKey p = .ok (some (key, keyLen, pos)))
    (hvalue : findValue pos = .ok (some (type, value, start))) (rest : UInt8 → Ptr)
    (hquiet : quote ∉ gap) (hnul : (0 : UInt8) ∉ gap)
    (hlen : ∀ d, isDigit d = true →
      valueLen type (value ++ rest d) (start ++ rest d) = .ok len ∧
        (value ++ rest d).drop (len + if type = .string then 1 else 0) = gap ++ ending name d ∧
        ending name d <:+ rest d)
    (hcopy : len ≠ 0 → ((value ++ rest 0x30).take len).takeWhile (· ≠ 0) ≠
      ((value ++ rest 0x31).take len).takeWhile (· ≠ 0)) : Undecided name p := by
  refine Undecided.of_step hname rest
    (fun d => ⟨key ++ rest d, keyLen, value ++ rest d, len, type,
      (value ++ rest d).drop (len + if type = .string then 1 else 0)⟩)
    ((keyLen != 0 && len != 0) && (keyLen == name.length && key.take name.length == name))
    hquiet hnul ?_ ?_
  · intro d hd
    obtain ⟨hvalueLen, hnext, hsuffix⟩ := hlen d hd
    refine ⟨?_, hnext, hsuffix, ?_⟩
    · rw [jsonGetNextObject, if_pos rfl, getKey_onto _ hkey]
      exact getValue_of _ _ (findValue_onto (rest d) hvalue) hvalueLen
    · rw [nameMatches_append rfl (getKey_some hkey).1]
      rfl
  · intro hselected
    rw [Bool.and_eq_true, Bool.and_eq_true] at hselected
    exact hcopy (by simpa using hselected.1.2)

/-- The copies of a value that goes on with different digits differ. -/
theorem copy_digit_ne {len : ℕ} (rest rest' : Ptr) (hnul : (0 : UInt8) ∉ value)
    (hlen : value.length < len) :
    ((value ++ 0x30 :: rest).take len).takeWhile (· ≠ 0) ≠
      ((value ++ 0x31 :: rest').take len).takeWhile (· ≠ 0) := by
  have hcopy : ∀ (d : UInt8) (rest : Ptr), d ≠ 0 → ∃ more,
      ((value ++ d :: rest).take len).takeWhile (· ≠ 0) = value ++ d :: more := by
    intro d rest hd
    obtain ⟨k, rfl⟩ : ∃ k, len = value.length + (k + 1) := ⟨len - value.length - 1, by omega⟩
    have hall : ∀ c ∈ value, decide (c ≠ 0) = true := by
      intro c hmem
      simp only [decide_eq_true_eq]
      rintro rfl
      exact hnul hmem
    rw [List.take_length_add_append, List.take_succ_cons,
      List.takeWhile_append_of_pos hall, List.takeWhile_cons_of_pos (by simpa using hd)]
    exact ⟨_, rfl⟩
  obtain ⟨more, hmore⟩ := hcopy 0x30 rest (by decide)
  obtain ⟨more', hmore'⟩ := hcopy 0x31 rest' (by decide)
  rw [hmore, hmore']
  intro heq
  have heq := List.append_cancel_left heq
  rw [List.cons.injEq] at heq
  exact absurd heq.1 (by decide)

/-- The characters of a value are its first one and those from the position on. -/
theorem findValue_start {type : JsonType} {start : Ptr}
    (h : findValue p = .ok (some (type, value, start))) (hnul : (0 : UInt8) ∉ start) :
    (0 : UInt8) ∉ value := by
  induction p with
  | nil => cases h
  | cons c p ih =>
    rw [findValue] at h
    split_ifs at h with hzero
    case neg => exact ih h
    all_goals cases h
    all_goals first
      | exact hnul
      | exact fun hmem => (List.mem_cons.mp hmem).elim (fun heq => hzero heq.symm) hnul

/-- A string, an object or an array that is cut off. -/
theorem undecided_marked (hname : FieldName name) {key pos start : Ptr} {keyLen : ℕ}
    {type : JsonType}
    {mark₀ mark₁ last : UInt8} {e : Overrun} (hkey : getKey p = .ok (some (key, keyLen, pos)))
    (hvalue : findValue pos = .ok (some (type, value, start)))
    (hscan : ∀ value start,
      valueLen type value start = scanMarked type mark₀ mark₁ value 0 last 0 start)
    (hmarks : isDigit mark₀ = false ∧ isDigit mark₁ = false ∧ mark₁ ≠ 0 ∧ mark₁ ≠ backslash)
    (h : scanMarked type mark₀ mark₁ value 0 last 0 start = .error e) : Undecided name p := by
  obtain ⟨hstart, depth, hcloses⟩ := scanMarked_closes hmarks.2.2 h
  have hne : ∀ d mark : UInt8, isDigit d = true → isDigit mark = false → d ≠ mark := by
    rintro d mark hd hmark rfl
    rw [hd] at hmark
    cases hmark
  refine @Undecided.of_value _ _ _ hname _ _ _ [] _
    (value.length + depth + 1 + if type = .string then 0 else 1)
    _ hkey hvalue (fun d => d :: (List.replicate (depth + 1) mark₁ ++ ending name d))
    List.not_mem_nil List.not_mem_nil ?_ ?_
  · intro d hd
    obtain ⟨hzero, -, hback, -⟩ := digit_ne hd
    refine ⟨?_, ?_, ?_⟩
    · rw [hscan]
      exact hcloses d (ending name d) ⟨hzero, hback, hne d _ hd hmarks.1, hne d _ hd hmarks.2.1⟩
    · have hlen : (value.length + depth + 1 + if type = .string then 0 else 1) +
          (if type = .string then 1 else 0) =
            (value ++ d :: List.replicate (depth + 1) mark₁).length := by
        rw [List.length_append, List.length_cons, List.length_replicate]
        split_ifs <;> omega
      have htext : value ++ d :: (List.replicate (depth + 1) mark₁ ++ ending name d) =
          (value ++ d :: List.replicate (depth + 1) mark₁) ++ ending name d := by simp
      rw [hlen, htext, List.drop_left]
      rfl
    · exact (List.suffix_append _ _).trans (List.suffix_cons d _)
  · intro _
    apply copy_digit_ne _ _ (findValue_start hvalue hstart)
    omega

/-- A number that is cut off. -/
theorem undecided_number (hname : FieldName name) {key pos start : Ptr} {keyLen : ℕ} {e : Overrun}
    (hkey : getKey p = .ok (some (key, keyLen, pos)))
    (hvalue : findValue pos = .ok (some (.number, value, start)))
    (h : scanNumber value start = .error e) : Undecided name p := by
  obtain ⟨hstart, -⟩ := scanNumber_closes (d := 0x30) (by decide) [] h
  refine @Undecided.of_value _ _ _ hname _ _ _ [comma] _ (value.length + 1) _ hkey hvalue
    (fun d => d :: comma :: ending name d) (by decide) (by decide) ?_ ?_
  · intro d hd
    refine ⟨(scanNumber_closes hd (ending name d) h).2, ?_, ⟨[d, comma], rfl⟩⟩
    have htext : value ++ d :: comma :: ending name d =
        (value ++ [d]) ++ comma :: ending name d := by
      simp
    rw [htext, List.drop_left' (by simp)]
    rfl
  · intro _
    exact copy_digit_ne _ _ (findValue_start hvalue hstart) (Nat.lt_succ_self _)

/-- A literal that is cut off. -/
theorem undecided_literal (hname : FieldName name) {key pos start : Ptr} {keyLen : ℕ}
    {type : JsonType}
    {literals : List (List UInt8)} {e : Overrun} (hkey : getKey p = .ok (some (key, keyLen, pos)))
    (hvalue : findValue pos = .ok (some (type, value, start)))
    (hscan : ∀ value start, valueLen type value start = scanLiteral literals value)
    (htype : type ≠ .string)
    (hletters : ∀ literal ∈ literals, comma ∉ literal ∧ quote ∉ literal ∧ (0 : UInt8) ∉ literal)
    (h : literalInside literals value = .error e) : Undecided name p := by
  have hending : ∀ d, (0 : UInt8) ∈ ending name d := fun d => by simp [ending]
  obtain ⟨⟨literal, hmem, hleft⟩, -⟩ :=
    scanLiteral_comma (fun literal hmem => (hletters literal hmem).1) (hending 0) h
  have hquiet : ∀ c, c ∉ literal → c ≠ comma → c ∉ value ++ [comma] := by
    intro c hliteral hcomma
    rw [List.mem_append, List.mem_singleton, not_or]
    exact ⟨fun hc => hliteral (hleft.subset hc), hcomma⟩
  refine @Undecided.of_value _ _ _ hname _ _ _ (value ++ [comma]) _ 0 _ hkey hvalue
    (fun d => comma :: ending name d) (hquiet quote (hletters literal hmem).2.1 (by decide))
    (hquiet 0 (hletters literal hmem).2.2 (by decide)) ?_ (fun h => absurd rfl h)
  intro d _
  refine ⟨?_, ?_, List.suffix_cons comma _⟩
  · rw [hscan]
    exact (scanLiteral_comma (fun literal hmem => (hletters literal hmem).1) (hending d) h).2
  · rw [if_neg htype]
    simp

/-- The scan of a value is cut off. -/
theorem undecided_value (hname : FieldName name) {key pos : Ptr} {keyLen : ℕ} {e : Overrun}
    (hkey : getKey p = .ok (some (key, keyLen, pos)))
    (h : getValueInside key keyLen pos = .error e) : Undecided name p := by
  rw [getValueInside] at h
  cases hvalue : findValue pos with
  | error e =>
    obtain ⟨hstarts, hnul⟩ := findValue_error hvalue
    refine @Undecided.of_step _ _ hname []
      (fun d => quote :: d :: quote :: ending name d)
      (fun d => ⟨key ++ quote :: d :: quote :: ending name d, keyLen,
        d :: quote :: ending name d, 1, .string, ending name d⟩)
      (keyLen != 0 && (keyLen == name.length && key.take name.length == name))
      List.not_mem_nil List.not_mem_nil ?_ ?_
    · intro d hd
      refine ⟨?_, rfl, ⟨quote :: d :: [quote], by simp⟩, ?_⟩
      · rw [jsonGetNextObject, if_pos rfl, getKey_onto _ hkey]
        exact getValue_digit _ _ _ hd hstarts hnul
      · rw [nameMatches_append rfl (getKey_some hkey).1, reported]
        simp
    · intro _
      simp [copyOf]
  | ok found =>
    rw [hvalue] at h
    cases found with
    | none => cases h
    | some found =>
      obtain ⟨type, value, start⟩ := found
      dsimp only at h
      cases hlen : valueLenInside type value start with
      | ok len =>
        rw [hlen] at h
        cases h
      | error e =>
        cases type with
        | string => exact undecided_marked hname hkey hvalue (fun _ _ => rfl) (by decide) hlen
        | object => exact undecided_marked hname hkey hvalue (fun _ _ => rfl) (by decide) hlen
        | array => exact undecided_marked hname hkey hvalue (fun _ _ => rfl) (by decide) hlen
        | number => exact undecided_number hname hkey hvalue hlen
        | boolean =>
          exact undecided_literal hname hkey hvalue (fun _ _ => rfl) (by decide) (by decide) hlen
        | null =>
          exact undecided_literal hname hkey hvalue (fun _ _ => rfl) (by decide) (by decide) hlen

/-- The search is cut off. -/
theorem undecided_search (hname : FieldName name) {fuel : ℕ} {e : Overrun} (hfuel : p.length < fuel)
    (h : searchInside name fuel p = .error e) : Undecided name p := by
  induction fuel generalizing p with
  | zero => exact absurd hfuel (Nat.not_lt_zero _)
  | succ fuel ih =>
    cases p with
    | nil =>
      refine ⟨ending name, fun d => [d], ?_, by decide⟩
      exact fun d hd => ⟨by simp [ending], finds_ending hname hd List.not_mem_nil List.not_mem_nil⟩
    | cons c p =>
      rw [searchInside] at h
      by_cases hzero : c = 0
      · rw [if_pos hzero] at h
        cases h
      · rw [if_neg hzero] at h
        cases hnext : nextInside (c :: p) with
        | error e =>
          rw [nextInside] at hnext
          cases hkey : getKey (c :: p) with
          | error e => exact undecided_key hname hkey
          | ok found =>
            rw [hkey] at hnext
            cases found with
            | none => cases hnext
            | some found => exact undecided_value hname hkey hnext
        | ok entry =>
          rw [hnext] at h
          cases entry with
          | none => cases h
          | some entry =>
            dsimp only at h
            obtain ⟨hkeyLen, -, -, -, hshort⟩ := nextInside_some hnext
            split_ifs at h with hselected
            obtain ⟨rest, text, hfinds, hne⟩ := ih (by omega) h
            refine ⟨rest, text, ?_, hne⟩
            intro d hd
            obtain ⟨hnul, hfind⟩ := hfinds d hd
            refine ⟨hnul, ?_⟩
            have hstep :=
              Finds.step (nextInside_onto hnul hnext) (List.mem_append_right entry.next hnul)
              hfind
            have hsame : (reported (onto (rest d) entry) && nameMatches name
                (onto (rest d) entry)) =
                (reported entry && nameMatches name entry) := by
              have hkey : (onto (rest d) entry).key = entry.key ++ rest d := rfl
              rw [nameMatches_append hkey hkeyLen]
              rfl
            rwa [hsame, if_neg hselected] at hstep

theorem jsonGetObject_error {e : Overrun} (h : jsonGetObject .object p = .error e) :
    p.all (· == space) = true := by
  induction p with
  | nil => rfl
  | cons c p ih =>
    rw [jsonGetObject, if_pos rfl] at h
    split_ifs at h with hzero hspace
    rw [List.all_cons, ih h, hspace]
    rfl

/-- Where the search gives up, two continuations lead to different values. -/
theorem valueInside_error (hname : FieldName name) {e : Overrun}
    (h : valueInside name p = .error e) :
    ∃ after after' : Ptr, (0 : UInt8) ∈ after ∧ (0 : UInt8) ∈ after' ∧
      liteJsonValueOf name (p ++ after) ≠ liteJsonValueOf name (p ++ after') := by
  -- a place in the text behind which the walk is undecided
  have hundecided : ∃ lead pos, Undecided name pos ∧ ∀ rest, (0 : UInt8) ∈ rest →
      jsonGetObject .object (p ++ (lead ++ rest)) = .ok (some (pos ++ rest)) ∧
        pos ++ rest <:+ p ++ (lead ++ rest) := by
    rw [valueInside] at h
    cases hobject : jsonGetObject .object p with
    | error e =>
      refine ⟨[openBrace], [openBrace], ?_, ?_⟩
      · refine ⟨ending name, fun d => [d], ?_, by decide⟩
        exact fun d hd => ⟨by simp [ending], finds_ending hname hd (by decide) (by decide)⟩
      · intro rest _
        refine ⟨?_, List.suffix_append _ _⟩
        rw [jsonGetObject_spaces .object (jsonGetObject_error hobject)]
        rfl
    | ok pos =>
      rw [hobject] at h
      cases pos with
      | none => cases h
      | some pos =>
        dsimp only at h
        have hpos := jsonGetObject_suffix hobject
        cases hsearch : searchInside name (p.length + 1) pos with
        | ok found =>
          rw [hsearch] at h
          cases h
        | error e =>
          refine ⟨[], pos, undecided_search hname (Nat.lt_succ_of_le hpos.length_le) hsearch, ?_⟩
          intro rest _
          exact ⟨jsonGetObject_onto rest hobject, List.suffix_append_self_iff.mpr hpos⟩
  obtain ⟨lead, pos, ⟨rest, text, hfinds, hne⟩, hobject⟩ := hundecided
  have hvalue : ∀ d, isDigit d = true →
      (0 : UInt8) ∈ lead ++ rest d ∧ liteJsonValueOf name (p ++ (lead ++ rest d)) =
        .ok (some (text d)) := by
    intro d hd
    obtain ⟨hnul, hfind⟩ := hfinds d hd
    obtain ⟨hpos, hsuffix⟩ := hobject (rest d) hnul
    have hmem := List.mem_append_right lead hnul
    obtain ⟨entry, hlookup, hcopy, hval, hzero⟩ :=
      hfind ((p ++ (lead ++ rest d)).length + 1) (Nat.lt_succ_of_le hsuffix.length_le)
    have hforEach : lookup name (forEach .object (p ++ (lead ++ rest d))) = .ok (some entry) := by
      rw [forEach, hpos]
      exact hlookup
    refine ⟨hmem, ?_⟩
    rw [liteJsonValueOf_name hname.noDot (List.mem_append_right p hmem) hforEach,
      Option.map_some, hcopy]
    intro entry' heq
    cases heq
    exact ⟨hval.trans hsuffix, hzero⟩
  obtain ⟨hnul, hzero⟩ := hvalue 0x30 (by decide)
  obtain ⟨hnul', hone⟩ := hvalue 0x31 (by decide)
  refine ⟨_, _, hnul, hnul', ?_⟩
  rw [hzero, hone]
  intro heq
  exact hne (Option.some.inj (Except.ok.inj heq))

/-- A search is decided by the first bytes exactly if it ends inside them. -/
theorem liteJsonValueOf_inside_iff (hname : FieldName name) :
    (∀ after after' : Ptr, (0 : UInt8) ∈ after → (0 : UInt8) ∈ after' →
      liteJsonValueOf name (p ++ after) = liteJsonValueOf name (p ++ after')) ↔
        ∃ value, valueInside name p = .ok value := by
  constructor
  · intro hsame
    cases h : valueInside name p with
    | ok value => exact ⟨value, rfl⟩
    | error e =>
      obtain ⟨after, after', hnul, hnul', hne⟩ := valueInside_error hname h
      exact absurd (hsame after after' hnul hnul') hne
  · rintro ⟨value, h⟩ after after' hnul hnul'
    rw [valueInside_onto hname.noDot hnul h, valueInside_onto hname.noDot hnul' h]

end Open

end IotExplorer.JsonPayload
