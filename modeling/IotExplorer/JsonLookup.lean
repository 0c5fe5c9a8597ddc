import IotExplorer.JsonParser

/-!
Looking a value up by its name: `json_get_value_by_name` over the loop of
json_parser.c, and the dotted paths of json_token.c, which continue each search
at the value that the last one found. Copies of values can be allocated.
-/
namespace IotExplorer.JsonLookup

open Basis.JsonText JsonParser

/-- The test with which `json_parse_name_value` calls its callback. -/
def reported (entry : Entry) : Bool := entry.keyLen != 0 && entry.valLen != 0

/-- The test of `json_get_value_by_name_cb`. -/
def nameMatches (name : List UInt8) (entry : Entry) : Bool :=
  entry.keyLen == name.length && entry.key.take name.length == name

/-- `json_parse_name_value` with `json_get_value_by_name_cb`, which finishes at the first
entry of the name. -/
def lookup (name : List UInt8) (loop : Walk) : Except Overrun (Option Entry) :=
  match loop.entries.find? fun entry => reported entry && nameMatches name entry with
  | some entry => .ok (some entry)
  | none => if loop.ending = .finished then .ok none else .error .overrun

/-- A value that was found: its offset, its length and its type. -/
structure Found where
  start : ℕ
  len : ℕ
  type : JsonType
  deriving DecidableEq

/-- What `json_get_value_by_name` returns for an entry; a null is returned only to a
caller that does not ask for the type. -/
def found (str : Ptr) (wantsType : Bool) (entry : Entry) : Option Found :=
  if wantsType ∧ entry.valType = .null then none
  else some ⟨str.length - entry.val.length, entry.valLen, entry.valType⟩

/-- `json_get_value_by_name`. A text that is longer than the given length is cut while it
is searched. -/
def jsonGetValueByName (str : Ptr) (strLen : ℕ) (name : List UInt8) (wantsType : Bool) :
    Except Overrun (Option Found) :=
  if strLen = 0 then .ok none
  else
    match strlen str with
    | .error e => .error e
    | .ok n =>
        match lookup name (forEach .object (if strLen = n then str else str.set strLen 0)) with
        | .error e => .error e
        | .ok none => .ok none
        | .ok (some entry) => .ok (found str wantsType entry)

/-- A step of `LITE_json_value_of`: the search in the whole rest of the text. -/
def stepInto (src : Ptr) (name : List UInt8) : Except Overrun (Option Found) :=
  match strlen src with
  | .error e => .error e
  | .ok n => jsonGetValueByName src n name false

/-- The loop of `LITE_json_value_of` over the names of the path: the value of the last. -/
def followNames : List (List UInt8) → Ptr → Except Overrun (Option (Ptr × ℕ))
  | [], _ => .ok none
  | name :: names, src =>
      match stepInto src name with
      | .error e => .error e
      | .ok none => .ok none
      | .ok (some value) =>
          if names.isEmpty then .ok (some (src.drop value.start, value.len))
          else followNames names (src.drop value.start)

/-- `LITE_json_value_of`: the copy of a value. -/
def liteJsonValueOf (key : List UInt8) (src : Ptr) : Except Overrun (Option (List UInt8)) :=
  match followNames (key.splitOn dot) src with
  | .error e => .error e
  | .ok none => .ok none
  | .ok (some (value, len)) =>
      match strlen value with
      | .error e => .error e
      | .ok n => .ok (some (value.take (min len n)))

section Steps
variable {p : Ptr} {entry : Entry} {name : List UInt8}

theorem strlen_text {text after : List UInt8} (h : (0 : UInt8) ∉ text) :
    strlen (text ++ 0 :: after) = .ok text.length := by
  induction text with
  | nil => rfl
  | cons c text ih =>
    have hc : c ≠ 0 := fun hc => h (hc ▸ List.mem_cons_self ..)
    rw [List.cons_append, strlen, if_neg hc, ih fun hmem => h (List.mem_cons_of_mem c hmem)]
    rfl

theorem strlen_append {text : List UInt8} {n : ℕ} (h : (0 : UInt8) ∉ text)
    (hp : strlen p = .ok n) : strlen (text ++ p) = .ok (text.length + n) := by
  induction text with
  | nil => rw [List.nil_append, hp, List.length_nil, Nat.zero_add]
  | cons c text ih =>
    have hc : c ≠ 0 := fun hc => h (hc ▸ List.mem_cons_self ..)
    rw [List.cons_append, strlen, if_neg hc, ih fun hmem => h (List.mem_cons_of_mem c hmem)]
    dsimp only
    rw [List.length_cons]
    congr 1
    omega

theorem strlen_of_mem (h : (0 : UInt8) ∈ p) : ∃ n, strlen p = .ok n := by
  induction p with
  | nil => exact absurd h List.not_mem_nil
  | cons c p ih =>
    rw [strlen]
    by_cases hc : c = 0
    · rw [if_pos hc]
      exact ⟨0, rfl⟩
    · rw [if_neg hc]
      rcases List.mem_cons.mp h with heq | hmem
      · exact absurd heq.symm hc
      · obtain ⟨n, hn⟩ := ih hmem
        rw [hn]
        exact ⟨n + 1, rfl⟩

theorem strchr_none {ch : UInt8} {front after : List UInt8} (hzero : ch ≠ 0) (h : ch ∉ front)
    (hnul : (0 : UInt8) ∉ front) : strchr ch (front ++ 0 :: after) = .ok none := by
  induction front with
  | nil => rw [List.nil_append, strchr, if_neg hzero.symm, if_pos rfl]
  | cons c front ih =>
    have hne : c ≠ ch := fun heq => h (heq ▸ List.mem_cons_self ..)
    have hc : c ≠ 0 := fun heq => hnul (heq ▸ List.mem_cons_self ..)
    rw [List.cons_append, strchr, if_neg hne, if_neg hc]
    exact ih (fun hmem => h (List.mem_cons_of_mem c hmem))
      fun hmem => hnul (List.mem_cons_of_mem c hmem)

/-- A loop goes one step when there is a next object. -/
theorem walk_some (fuel : ℕ) (h : jsonGetNextObject .object p = .ok (some entry)) :
    walk .object (fuel + 1) p =
      ⟨entry :: (walk .object fuel entry.next).entries, (walk .object fuel entry.next).ending⟩ := by
  cases p with
  | nil => cases h
  | cons c p =>
    have hc : c ≠ 0 := by
      rintro rfl
      cases h
    rw [walk, if_neg hc, if_pos rfl, h]

/-- A loop ends when there is none. -/
theorem walk_none (fuel : ℕ) (h : jsonGetNextObject .object p = .ok none) :
    walk .object (fuel + 1) p = ⟨[], .finished⟩ := by
  cases p with
  | nil => cases h
  | cons c p =>
    rw [walk]
    split
    · rfl
    · rw [if_pos rfl, h]

theorem lookup_cons (entries : List Entry) (ending : Ending) :
    lookup name ⟨entry :: entries, ending⟩ =
      if reported entry && nameMatches name entry then .ok (some entry)
      else lookup name ⟨entries, ending⟩ := by
  unfold lookup
  rw [List.find?_cons]
  cases reported entry && nameMatches name entry <;> rfl

/-- The copy of a value ends in front of its NUL. -/
theorem strlen_take {p : Ptr} {n : ℕ} (h : strlen p = .ok n) : (0 : UInt8) ∉ p.take n := by
  induction p generalizing n with
  | nil => cases h
  | cons c p ih =>
    rw [strlen] at h
    by_cases hc : c = 0
    · rw [if_pos hc] at h
      injection h with h
      rw [← h, List.take_zero]
      exact List.not_mem_nil
    · rw [if_neg hc] at h
      cases hrest : strlen p with
      | error e =>
        rw [hrest] at h
        cases h
      | ok m =>
        rw [hrest] at h
        injection h with h
        subst h
        rw [List.take_succ_cons, List.mem_cons, not_or]
        exact ⟨fun h => hc h.symm, ih hrest⟩

theorem liteJsonValueOf_noNul {key src value : List UInt8}
    (h : liteJsonValueOf key src = .ok (some value)) :
    (0 : UInt8) ∉ value := by
  rw [liteJsonValueOf] at h
  split at h
  · cases h
  · cases h
  · next text len _ =>
    split at h
    · cases h
    · next n hlen =>
      injection h with h
      injection h with h
      rw [← h]
      intro hmem
      have hmem' : (0 : UInt8) ∈ (text.take n).take len := by
        rwa [List.take_take]
      exact strlen_take hlen (List.mem_of_mem_take hmem')

end Steps

end IotExplorer.JsonLookup
