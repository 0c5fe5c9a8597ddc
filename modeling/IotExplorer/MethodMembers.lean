import IotExplorer.DataTemplate
import IotExplorer.JsonLookup
import IotExplorer.ReportArray
import Mathlib.Data.List.Induction

/-!
The insertion of a string into another one in its place, and of the method into the document
of a template request. The part behind the place is moved up byte by byte from its end; the
room for it is the caller's. Lengths are converted to ints.
-/
namespace IotExplorer.MethodMembers

open Basis.JsonText PublishPacket JsonParser JsonLookup DeviceProperty TemplateJson DataTemplate
  ReportArray

section Functions

/-- A byte at an offset from the pointer. -/
def load (mem : Ptr) (i : ℤ) : Except Overrun UInt8 :=
  if 0 ≤ i then
    match mem[i.toNat]? with
    | some c => .ok c
    | none => .error .overrun
  else .error .overrun

/-- A byte is stored at an offset from the pointer. -/
def store (mem : Ptr) (i : ℤ) (c : UInt8) : Except Overrun Ptr :=
  if 0 ≤ i ∧ i < mem.length then .ok (mem.set i.toNat c) else .error .overrun

/-- The loop that moves the bytes from the position on up, the last of them first. -/
def moveUp (pos nlen : ℤ) : ℕ → Ptr → Except Overrun Ptr
  | 0, mem => .ok mem
  | rounds + 1, mem =>
      (load mem (pos + rounds)).bind fun c =>
      (store mem (pos + rounds + nlen) c).bind (moveUp pos nlen rounds)

/-- The loop that writes the inserted bytes. -/
def writeFrom (place : ℤ) : List UInt8 → Ptr → Except Overrun Ptr
  | [], mem => .ok mem
  | c :: cs, mem => (store mem place c).bind (writeFrom (place + 1) cs)

def toInt (n : ℕ) : ℤ := (n : ℤ).bmod (2 ^ 32)

/-- `insert_str`. The smallest int has no predecessor. -/
def insertStr (dest : Ptr) (source : List UInt8) (pos : ℤ) : Except Overrun Ptr :=
  (strlen dest).bind fun destLen =>
  let len := toInt destLen
  let nlen := toInt source.length
  if len = -2 ^ 31 then .error .overrun
  else
    (moveUp pos nlen (len - pos).toNat dest).bind fun mem =>
    (writeFrom pos (source.take nlen.toNat) mem).bind fun mem =>
    store mem (len + nlen) 0

def methodFormat (method : Method) : List UInt8 :=
  quote :: (ascii "method" ++ [quote, colon, quote]) ++ method.text ++ [quote, comma, space]

/-- What `HAL_Snprintf` leaves in the 64 bytes for the member. -/
def jsonNodeStr (method : Method) : List UInt8 :=
  (halSnprintf ⟨[], 0⟩ 0 64 (methodFormat method)).2.text

/-- `_set_template_json_type`; no method is one beyond those of the type. -/
def setTemplateJsonType (doc : Option Ptr) (sizeOfBuffer : ℕ) (method : Option Method) :
    Except Overrun (JsonCode × Option Ptr) :=
  match doc, method with
  | none, _ => .ok (.inval, none)
  | some mem, none => .ok (.inval, some mem)
  | some mem, some method =>
      (strlen mem).bind fun jsonLen =>
      let remainSize := toSizeT (sizeOfBuffer - jsonLen)
      if toSizeT (remainSize - 1) ≤ (jsonNodeStr method).length then .ok (.inval, some mem)
      else (insertStr mem (jsonNodeStr method) 1).map fun mem => (.success, some mem)

end Functions

section Loops
variable {front back : List UInt8} {c d : UInt8} {i : ℤ}

theorem load_here (hi : i = front.length) : load (front ++ c :: back) i = .ok c := by
  subst hi
  rw [load, if_pos (Int.natCast_nonneg _), Int.toNat_natCast,
    List.getElem?_append_right (Nat.le_refl _), Nat.sub_self]
  rfl

theorem store_here (hi : i = front.length) :
    store (front ++ c :: back) i d = .ok (front ++ d :: back) := by
  subst hi
  rw [store, if_pos (by simp), Int.toNat_natCast, List.set_append_right _ _ (Nat.le_refl _),
    Nat.sub_self, List.set_cons_zero]

theorem store_ok {mem mem' : Ptr} (h : store mem i c = .ok mem') :
    0 ≤ i ∧ mem'[i.toNat]? = some c := by
  rw [store] at h
  split_ifs at h with hin
  obtain rfl := Except.ok.inj h
  exact ⟨hin.1, List.getElem?_set_self (by omega)⟩

theorem bind_ok {α β : Type} {first : Except Overrun α} {next : α → Except Overrun β} {b : β}
    (h : first.bind next = .ok b) : ∃ a, first = .ok a ∧ next a = .ok b := by
  cases first with
  | error e => cases h
  | ok a => exact ⟨a, rfl, h⟩

/-- The gap behind the moved bytes goes in front of them. -/
theorem moveUp_gap {pos nlen : ℤ} {pre moved gap tail : List UInt8} (hpos : pos = pre.length)
    (hgap : nlen = gap.length) : ∃ gap' : List UInt8, gap'.length = gap.length ∧
      moveUp pos nlen moved.length (pre ++ (moved ++ (gap ++ tail))) =
        .ok (pre ++ (gap' ++ (moved ++ tail))) := by
  induction moved using List.reverseRecOn generalizing gap tail with
  | nil => exact ⟨gap, rfl, rfl⟩
  | append_singleton moved c ih =>
    obtain ⟨gap', last, hlast⟩ := List.eq_nil_or_concat' (c :: gap) |>.resolve_left (by simp)
    have hlength : gap'.length = gap.length := by
      have hsame := congrArg List.length hlast
      simpa using hsame.symm
    obtain ⟨gap'', hgap'', hloop⟩ := @ih gap' (c :: tail) (by rw [hgap, hlength])
    refine ⟨gap'', hgap''.trans hlength, ?_⟩
    have hload : load (pre ++ (moved ++ [c] ++ (gap ++ tail))) (pos + moved.length) = .ok c := by
      have hmem : pre ++ (moved ++ [c] ++ (gap ++ tail)) =
          (pre ++ moved) ++ c :: (gap ++ tail) := by
        simp
      rw [hmem]
      exact load_here (by simp [hpos])
    have hstore : store (pre ++ (moved ++ [c] ++ (gap ++ tail))) (pos + moved.length + nlen) c =
        .ok (pre ++ (moved ++ (gap' ++ c :: tail))) := by
      have hmem : pre ++ (moved ++ [c] ++ (gap ++ tail)) =
          (pre ++ moved ++ gap') ++ last :: tail := by
        have hfirst : c :: (gap ++ tail) = gap' ++ last :: tail := by
          rw [← List.cons_append, hlast, List.append_assoc]
          rfl
        simp [hfirst]
      rw [hmem, store_here (by simp [hpos, hgap, hlength]; omega)]
      simp
    rw [List.length_append, List.length_singleton, moveUp, hload, Except.bind, hstore, Except.bind,
      hloop]
    simp

/-- The written bytes are in the place of as many others. -/
theorem writeFrom_gap {place : ℤ} {pre gap new tail : List UInt8} (hplace : place = pre.length)
    (hgap : gap.length = new.length) :
    writeFrom place new (pre ++ (gap ++ tail)) = .ok (pre ++ (new ++ tail)) := by
  induction new generalizing place pre gap with
  | nil => rw [List.eq_nil_of_length_eq_zero hgap]; rfl
  | cons c cs ih =>
    obtain ⟨d, gap, rfl⟩ := List.exists_cons_of_length_eq_add_one hgap
    have hwritten := @ih (place + 1) (pre ++ [c]) gap (by simp [hplace]) (by simpa using hgap)
    rw [writeFrom, List.cons_append, store_here hplace, Except.bind]
    simpa using hwritten

end Loops

section Insertions
variable {text inserted after : List UInt8} {pos n : ℕ}

/-- The two strings with one inserted into the other. -/
def splice (text inserted : List UInt8) (pos : ℕ) : List UInt8 :=
  text.take pos ++ (inserted ++ text.drop pos)

/-- With room behind the terminator the splice is made, and what is behind it is as it was. -/
def Inserts (text inserted : List UInt8) (pos : ℕ) : Prop :=
  ∀ after, inserted.length ≤ after.length →
    insertStr (text ++ 0 :: after) inserted pos =
      .ok (splice text inserted pos ++ 0 :: after.drop inserted.length)

theorem toInt_of_lt (h : n < 2 ^ 31) : toInt n = n := by
  unfold toInt
  rw [Int.bmod_def]
  split_ifs <;> omega

theorem toInt_le (n : ℕ) : toInt n ≤ n := by
  unfold toInt
  rw [Int.bmod_def]
  split_ifs <;> omega

theorem toInt_lt (n : ℕ) : toInt n < 2 ^ 31 := by
  unfold toInt
  rw [Int.bmod_def]
  split_ifs <;> omega

theorem length_splice (text inserted : List UInt8) (pos : ℕ) :
    (splice text inserted pos).length = text.length + inserted.length := by
  simp only [splice, List.length_append, List.length_take, List.length_drop]
  omega

theorem splice_nul (htext : (0 : UInt8) ∉ text) (hinserted : (0 : UInt8) ∉ inserted) :
    (0 : UInt8) ∉ splice text inserted pos := by
  simp only [splice, List.mem_append, not_or]
  exact ⟨fun h => htext (List.mem_of_mem_take h), hinserted,
    fun h => htext (List.mem_of_mem_drop h)⟩

/-- The splice of strings whose lengths are ints. -/
theorem insertStr_splice (hnul : (0 : UInt8) ∉ text) (htext : text.length < 2 ^ 31)
    (hinserted : inserted.length < 2 ^ 31) (hpos : pos ≤ text.length) :
    Inserts text inserted pos := by
  intro after hroom
  obtain ⟨gap, d, tail, hbehind, hgap, htail⟩ : ∃ gap d tail, 0 :: after = gap ++ d :: tail ∧
      gap.length = inserted.length ∧ tail = after.drop inserted.length := by
    obtain ⟨d, tail, hdrop⟩ := List.exists_cons_of_length_pos
      (show 0 < ((0 :: after).drop inserted.length).length by simp; omega)
    refine ⟨(0 :: after).take inserted.length, d, tail, ?_, by simp; omega, ?_⟩
    · rw [← hdrop, List.take_append_drop]
    · have htail := congrArg List.tail hdrop
      rwa [List.tail_drop, List.drop_succ_cons, List.tail_cons, eq_comm] at htail
  have hmem : text ++ 0 :: after = text.take pos ++ (text.drop pos ++ (gap ++ d :: tail)) := by
    rw [hbehind, ← List.append_assoc (text.take pos), List.take_append_drop]
  have hpre : (pos : ℤ) = (text.take pos).length := by
    rw [List.length_take, Nat.min_eq_left hpos]
  obtain ⟨gap', hgap', hmoved⟩ := @moveUp_gap pos inserted.length (text.take pos) (text.drop pos)
    gap (d :: tail) hpre (by rw [hgap])
  have hrounds : ((text.length : ℤ) - pos).toNat = (text.drop pos).length := by
    rw [List.length_drop]
    omega
  rw [insertStr, strlen_text hnul, Except.bind, toInt_of_lt htext, toInt_of_lt hinserted]
  dsimp only
  rw [if_neg (by omega), hrounds, hmem, hmoved, Except.bind, Int.toNat_natCast, List.take_length,
    writeFrom_gap hpre (hgap'.trans hgap), Except.bind, ← htail]
  have hsplice : text.take pos ++ (inserted ++ (text.drop pos ++ d :: tail)) =
      splice text inserted pos ++ d :: tail := by
    simp [splice]
  rw [hsplice]
  exact store_here (by rw [length_splice, Nat.cast_add])

/-- A terminator in its place has both lengths as ints. -/
theorem insertStr_short (htext : (0 : UInt8) ∉ text) (hinserted : (0 : UInt8) ∉ inserted)
    {rest : List UInt8} (h : insertStr (text ++ 0 :: after) inserted pos =
      .ok (splice text inserted pos ++ 0 :: rest)) :
    text.length < 2 ^ 31 ∧ inserted.length < 2 ^ 31 := by
  rw [insertStr, strlen_text htext, Except.bind] at h
  dsimp only at h
  split_ifs at h
  obtain ⟨moved, -, h⟩ := bind_ok h
  obtain ⟨written, -, h⟩ := bind_ok h
  obtain ⟨hplace, hzero⟩ := store_ok h
  have hbehind : (splice text inserted pos).length ≤
      (toInt text.length + toInt inserted.length).toNat := by
    by_contra hin
    rw [List.getElem?_append_left (by omega)] at hzero
    exact splice_nul htext hinserted (List.mem_of_getElem? hzero)
  rw [length_splice] at hbehind
  have htextLe := toInt_le text.length
  have hinsertedLe := toInt_le inserted.length
  have htextLt := toInt_lt text.length
  have hinsertedLt := toInt_lt inserted.length
  omega

theorem inserts_iff (text inserted : CString) (hpos : pos ≤ text.1.length) :
    Inserts text.1 inserted.1 pos ↔ text.1.length < 2 ^ 31 ∧ inserted.1.length < 2 ^ 31 := by
  constructor
  · intro hinserts
    exact insertStr_short text.2 inserted.2
      (hinserts (List.replicate inserted.1.length 0) (by rw [List.length_replicate]))
  · rintro ⟨htext, hinserted⟩
    exact insertStr_splice text.2 htext hinserted hpos

end Insertions

section Members
variable {text after : List UInt8} {size n : ℕ} {method : Method}

/-- The member of each method is in the bytes for it. -/
theorem jsonNodeStr_eq (method : Method) : jsonNodeStr method = methodFormat method := by
  cases method <;> decide

theorem methodFormat_nul (method : Method) : (0 : UInt8) ∉ methodFormat method := by
  cases method <;> decide

theorem methodFormat_length (method : Method) : (methodFormat method).length < 64 := by
  cases method <;> decide

/-- The document is refused as it is, or gets the member behind its first character with its
terminator still in the buffer. -/
def Fills (text : List UInt8) (size : ℕ) (method : Method) : Prop :=
  ∀ after, size ≤ (text ++ 0 :: after).length →
    setTemplateJsonType (some (text ++ 0 :: after)) size (some method) =
        .ok (.inval, some (text ++ 0 :: after)) ∨
      text.length + (methodFormat method).length < size ∧
        setTemplateJsonType (some (text ++ 0 :: after)) size (some method) =
          .ok (.success, some (splice text (methodFormat method) 1 ++
            0 :: after.drop (methodFormat method).length))

/-- Without a document or a method nothing is written. -/
theorem setTemplateJsonType_refused (doc : Option Ptr) (method : Option Method)
    (h : doc = none ∨ method = none) : setTemplateJsonType doc size method = .ok (.inval, doc) := by
  rcases h with rfl | rfl
  · rfl
  · cases doc <;> rfl

/-- The test of the sizes is the one for room, as the text is inside the buffer. -/
theorem hasRoom_iff {node : List UInt8} (hin : text.length < size) (hsize : size < 2 ^ 64) :
    toSizeT (toSizeT ((size : ℤ) - text.length) - 1) ≤ node.length ↔
      size ≤ text.length + node.length + 1 := by
  unfold toSizeT
  omega

theorem setTemplateJsonType_eq (hnul : (0 : UInt8) ∉ text) (hin : text.length < size)
    (hsize : size < 2 ^ 64) :
    setTemplateJsonType (some (text ++ 0 :: after)) size (some method) =
      if size ≤ text.length + (methodFormat method).length + 1 then
        .ok (.inval, some (text ++ 0 :: after))
      else
        (insertStr (text ++ 0 :: after) (methodFormat method) 1).map fun mem =>
          (.success, some mem) := by
  rw [setTemplateJsonType, strlen_text hnul, Except.bind, jsonNodeStr_eq]
  exact if_congr (hasRoom_iff hin hsize) rfl rfl

/-- For a text whose length is an int it is the document of the template client. -/
theorem setTemplateJsonType_text (hnul : (0 : UInt8) ∉ text) (hone : 1 ≤ text.length)
    (hshort : text.length < 2 ^ 31) (hin : text.length < size) (hsize : size < 2 ^ 64)
    (hafter : size ≤ (text ++ 0 :: after).length) :
    setTemplateJsonType (some (text ++ 0 :: after)) size (some method) =
      match DataTemplate.setTemplateJsonType text size method with
      | some doc => .ok (.success, some (doc ++ 0 :: after.drop (methodFormat method).length))
      | none => .ok (.inval, some (text ++ 0 :: after)) := by
  have hnode : ascii "\"method\":\"" ++ method.text ++ ascii "\", " = methodFormat method := by
    cases method <;> decide
  have hdoc : DataTemplate.setTemplateJsonType text size method =
      if size ≤ text.length + (methodFormat method).length + 1 then none
      else some (splice text (methodFormat method) 1) := by
    unfold DataTemplate.setTemplateJsonType
    rw [hnode]
    exact if_congr (hasRoom_iff hin hsize) rfl (congrArg some (List.append_assoc _ _ _))
  have hmember := methodFormat_length method
  rw [setTemplateJsonType_eq hnul hin hsize, hdoc]
  by_cases hroom : size ≤ text.length + (methodFormat method).length + 1
  · rw [if_pos hroom, if_pos hroom]
  · have hfits : (methodFormat method).length ≤ after.length := by
      simp only [List.length_append, List.length_cons] at hafter
      omega
    have hinsert := insertStr_splice hnul hshort (by omega) hone after hfits
    rw [if_neg hroom, if_neg hroom]
    exact congrArg (Except.map _) hinsert

theorem fills_iff (text : CString) (hone : 1 ≤ text.1.length) (hin : text.1.length < size)
    (hsize : size < 2 ^ 64) :
    Fills text.1 size method ↔
      text.1.length < 2 ^ 31 ∨ size ≤ text.1.length + (methodFormat method).length + 1 := by
  by_cases hroom : size ≤ text.1.length + (methodFormat method).length + 1
  · refine iff_of_true (fun after _ => .inl ?_) (.inr hroom)
    rw [setTemplateJsonType_eq text.2 hin hsize, if_pos hroom]
  · rw [or_iff_left hroom]
    have hmember := methodFormat_length method
    constructor
    · intro hfills
      have hresult := hfills (List.replicate size 0) (by simp; omega)
      rw [setTemplateJsonType_eq text.2 hin hsize, if_neg hroom] at hresult
      cases hinsert : insertStr (text.1 ++ 0 :: List.replicate size 0) (methodFormat method) 1 with
      | error e => simp [hinsert, Except.map] at hresult
      | ok mem =>
        obtain ⟨-, rfl⟩ : text.1.length + (methodFormat method).length < size ∧
            mem = splice text.1 (methodFormat method) 1 ++
              0 :: (List.replicate size 0).drop (methodFormat method).length := by
          simpa [hinsert, Except.map] using hresult
        exact (insertStr_short text.2 (methodFormat_nul method) hinsert).1
    · intro hshort after hafter
      have hfits : (methodFormat method).length ≤ after.length := by
        simp only [List.length_append, List.length_cons] at hafter
        omega
      have hinsert := insertStr_splice text.2 hshort (by omega) hone after hfits
      refine .inr ⟨by omega, ?_⟩
      rw [setTemplateJsonType_eq text.2 hin hsize, if_neg hroom]
      exact congrArg (Except.map _) hinsert

/-- An insertion is right exactly if the lengths of the strings are ints, and a document is
filled or refused exactly if its length is one or there is no room for the member. -/
theorem insertions_right_iff (text inserted : CString) (pos : ℕ) (hpos : pos ≤ text.1.length) :
    (Inserts text.1 inserted.1 pos ↔
      text.1.length < 2 ^ 31 ∧ inserted.1.length < 2 ^ 31) ∧
    ∀ (size : ℕ) (method : Method), 1 ≤ text.1.length → text.1.length < size → size < 2 ^ 64 →
      (Fills text.1 size method ↔
        text.1.length < 2 ^ 31 ∨ size ≤ text.1.length + (methodFormat method).length + 1) :=
  ⟨inserts_iff text inserted hpos, fun _ _ hone hin hsize => fills_iff text hone hin hsize⟩

/-- The member of a report goes into an empty object in a buffer of 64 bytes. -/
theorem insertions_right_object :
    Inserts [openBrace, closeBrace] [space] 1 ∧ Fills [openBrace, closeBrace] 64 .report := by
  have hright := insertions_right_iff ⟨[openBrace, closeBrace], by decide⟩ ⟨[space], by decide⟩ 1
    (by decide)
  exact ⟨hright.1.2 ⟨by decide, by decide⟩,
    (hright.2 64 .report (by decide) (by decide) (by decide)).2 (.inl (by decide))⟩

/-- A text that is too long for an int gets the terminator of the splice somewhere else. -/
theorem inserts_long (hn : 2 ^ 31 ≤ n) : ¬Inserts (List.replicate n 97) [98] 0 := by
  intro hinserts
  have hshort := insertStr_short (by simp [List.mem_replicate]) (by decide)
    (hinserts [0] (Nat.le_refl 1))
  rw [List.length_replicate] at hshort
  omega

theorem fills_long (hn : 2 ^ 31 ≤ n) (hroom : n + 64 < size) (hsize : size < 2 ^ 64) :
    ¬Fills (List.replicate n 97) size method := by
  have hmember := methodFormat_length method
  intro hfills
  have hshort := (@fills_iff size method ⟨List.replicate n 97, by simp [List.mem_replicate]⟩
    (by simp; omega) (by simp; omega) hsize).1 hfills
  simp only [List.length_replicate] at hshort
  omega

/-- A text of more than two gigabytes. -/
theorem insertions_wrong :
    ¬Inserts (List.replicate (2 ^ 31 + 1) 97) [98] 0 ∧
    ¬Fills (List.replicate (2 ^ 31 + 1) 97) (2 ^ 32) .report :=
  ⟨inserts_long (by norm_num), fills_long (by norm_num) (by norm_num) (by norm_num)⟩

end Members

end IotExplorer.MethodMembers
