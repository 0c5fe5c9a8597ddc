import IotExplorer.JsonLookup
import IotExplorer.DeviceProperty
import Mathlib.Data.List.Chain

/-!
The functions that strip a character from a string in place. Their loop moves what is behind an
occurrence one byte down and goes on behind the byte that has come to its place, so that it
passes over that byte. Two of them move one byte from behind the terminator as well.
-/
namespace IotExplorer.StripChars

open JsonParser JsonLookup DeviceProperty

section Functions

/-- The `memmove` of so many bytes to the place in front of them. -/
def moveDown (mem : Ptr) (src n : ℕ) : Except Overrun Ptr :=
  if src + 1 + n ≤ mem.length then
    .ok (mem.take src ++ (mem.drop (src + 1)).take n ++ mem.drop (src + n))
  else .error .overrun

/-- The loop, with so many bytes of the memory to go; `back` is how far the end moves with
each occurrence. A number of bytes below zero is a huge one without its sign. -/
def stripLoop (ch : UInt8) (back : ℕ) : ℕ → Ptr → ℕ → ℤ → Except Overrun Ptr
  | 0, _, _, _ => .error .overrun
  | steps + 1, mem, src, stop =>
      match mem[src]? with
      | none => .error .overrun
      | some c =>
          if c = 0 then .ok mem
          else if c = ch then
            if stop < src then .error .overrun
            else
              (moveDown mem src (stop - src).toNat).bind fun mem =>
              stripLoop ch back steps mem (src + 1) (stop - back)
          else stripLoop ch back steps mem (src + 1) stop

/-- The loop from the beginning of a string, with the end so far behind the terminator. -/
def strip (ahead back : ℕ) (mem : Ptr) (ch : UInt8) : Except Overrun Ptr :=
  (strlen mem).bind fun len => stripLoop ch back mem.length mem 0 (len + ahead)

def liteStringStripChar : Ptr → UInt8 → Except Overrun Ptr := strip 1 1

def liteStrStripChar : Ptr → UInt8 → Except Overrun Ptr := strip 1 1

def chrStrip : Ptr → UInt8 → Except Overrun Ptr := strip 0 0

end Functions

section Texts
variable {ch : UInt8} {text : List UInt8}

/-- What is left when the character behind each occurrence is passed over. -/
def skipStrip (ch : UInt8) : List UInt8 → List UInt8
  | [] => []
  | c :: cs =>
      if c = ch then
        match cs with
        | [] => []
        | d :: ds => d :: skipStrip ch ds
      else c :: skipStrip ch cs

/-- No two occurrences are adjacent. -/
def Isolated (ch : UInt8) (text : List UInt8) : Prop :=
  text.IsChain fun a b => ¬(a = ch ∧ b = ch)

theorem skipStrip_other {c : UInt8} (hc : c ≠ ch) (cs : List UInt8) :
    skipStrip ch (c :: cs) = c :: skipStrip ch cs := by
  rw [skipStrip.eq_def]
  exact if_neg hc

theorem skipStrip_last : skipStrip ch [ch] = [] := by
  rw [skipStrip.eq_def]
  exact if_pos rfl

theorem skipStrip_passed (d : UInt8) (ds : List UInt8) :
    skipStrip ch (ch :: d :: ds) = d :: skipStrip ch ds := by
  rw [skipStrip.eq_def]
  exact if_pos rfl

/-- All occurrences go exactly if no two of them are adjacent. -/
theorem skipStrip_eq_filter_iff (ch : UInt8) (text : List UInt8) :
    skipStrip ch text = text.filter (fun c => c ≠ ch) ↔ Isolated ch text := by
  induction text using skipStrip.induct ch with
  | case1 => exact iff_of_true rfl .nil
  | case2 => exact iff_of_true (by simp [skipStrip_last]) (.singleton ch)
  | case3 d ds ih =>
    rw [skipStrip_passed, List.filter_cons_of_neg (by simp), Isolated, List.isChain_cons_cons]
    by_cases hd : d = ch
    · subst hd
      refine iff_of_false (fun heq => ?_) fun hisolated => hisolated.1 ⟨rfl, rfl⟩
      have hmem : d ∈ (d :: ds).filter fun c => c ≠ d := heq ▸ List.mem_cons_self
      simp at hmem
    · rw [List.filter_cons_of_pos (by simpa using hd), List.cons.injEq, and_iff_right rfl, ih,
        Isolated, List.isChain_cons, and_iff_right (fun h => hd h.2),
        and_iff_right fun _ _ h => hd h.1]
  | case4 c cs hc ih =>
    rw [skipStrip_other hc, List.filter_cons_of_pos (by simpa using hc), List.cons.injEq,
      and_iff_right rfl, ih, Isolated, Isolated, List.isChain_cons,
      and_iff_right fun _ _ h => hc h.1]

theorem skipStrip_nul (hnul : (0 : UInt8) ∉ text) : (0 : UInt8) ∉ skipStrip ch text := by
  induction text using skipStrip.induct ch with
  | case1 => exact hnul
  | case2 => simp [skipStrip_last]
  | case3 d ds ih =>
    rw [skipStrip_passed]
    simp only [List.mem_cons, not_or] at hnul ⊢
    exact ⟨hnul.2.1, ih hnul.2.2⟩
  | case4 c cs hc ih =>
    rw [skipStrip_other hc]
    simp only [List.mem_cons, not_or] at hnul ⊢
    exact ⟨hnul.1, ih hnul.2⟩

end Texts

section Loops
variable {ch : UInt8} {back : ℕ} {before cur after : List UInt8} {k steps : ℕ} {stop : ℤ}

/-- The memory in the loop: what it has passed, what is left of the text, and zeros. -/
def layout (before cur : List UInt8) (k : ℕ) (after : List UInt8) : List UInt8 :=
  before ++ (cur ++ (List.replicate (k + 1) 0 ++ after))

theorem length_layout :
    (layout before cur k after).length = before.length + cur.length + k + 1 + after.length := by
  simp only [layout, List.length_append, List.length_replicate]
  omega

theorem layout_here {c : UInt8} : (layout before (c :: cur) k after)[before.length]? = some c := by
  rw [layout, List.getElem?_append_right (Nat.le_refl _), Nat.sub_self]
  rfl

theorem layout_end : (layout before [] k after)[before.length]? = some 0 := by
  rw [layout, List.getElem?_append_right (Nat.le_refl _), Nat.sub_self]
  rfl

theorem layout_pass {c : UInt8} :
    layout before (c :: cur) k after = layout (before ++ [c]) cur k after := by
  simp [layout]

/-- Among the zeros, moving down one byte drops the first byte of what is left. -/
theorem moveDown_layout {c : UInt8} {n : ℕ} (hlow : cur.length + 1 ≤ n)
    (hhigh : n ≤ cur.length + 1 + k) :
    moveDown (layout before (c :: cur) k after) before.length n =
      .ok (layout before cur (k + 1) after) := by
  have hfits : before.length + 1 + n ≤ (layout before (c :: cur) k after).length := by
    rw [length_layout, List.length_cons]
    omega
  obtain ⟨j, rfl⟩ := Nat.exists_eq_add_of_le hlow
  have hfirst : (layout before (c :: cur) k after).take before.length = before := by
    rw [layout, List.take_left]
  have hmoved : ((layout before (c :: cur) k after).drop (before.length + 1)).take
      (cur.length + 1 + j) = cur ++ List.replicate (1 + j) 0 := by
    rw [layout, ← List.drop_drop, List.drop_left, List.cons_append, List.drop_succ_cons,
      List.drop_zero, Nat.add_assoc, List.take_length_add_append,
      List.take_append_of_le_length (by rw [List.length_replicate]; omega), List.take_replicate,
      Nat.min_eq_left (by omega)]
  have hkept : (layout before (c :: cur) k after).drop (before.length + (cur.length + 1 + j)) =
      List.replicate (k + 1 - j) 0 ++ after := by
    have hlength : (c :: cur).length = cur.length + 1 := rfl
    rw [layout, ← List.drop_drop, List.drop_left, ← hlength, ← List.drop_drop, List.drop_left,
      List.drop_append_of_le_length (by rw [List.length_replicate]; omega), List.drop_replicate]
  have hzeros : List.replicate (1 + j) (0 : UInt8) ++ List.replicate (k + 1 - j) 0 =
      List.replicate (k + 1 + 1) 0 := by
    rw [List.replicate_append_replicate]
    congr 1
    omega
  rw [moveDown, if_pos hfits, hfirst, hmoved, hkept, layout, ← hzeros]
  simp only [List.append_assoc]

/-- The loop ends in front of a zero. -/
theorem stripLoop_end :
    stripLoop ch back (steps + 1) (layout before [] k after) before.length stop =
      .ok (layout before [] k after) := by
  rw [stripLoop, layout_end]
  exact if_pos rfl

/-- Another character is passed. -/
theorem stripLoop_pass {c : UInt8} (hzero : c ≠ 0) (hc : c ≠ ch) :
    stripLoop ch back (steps + 1) (layout before (c :: cur) k after) before.length stop =
      stripLoop ch back steps (layout (before ++ [c]) cur k after) (before ++ [c]).length stop := by
  rw [stripLoop, layout_here]
  dsimp only
  rw [if_neg hzero, if_neg hc, layout_pass, List.length_append, List.length_singleton]

/-- An occurrence is dropped, and the loop goes on behind its place. -/
theorem stripLoop_drop (hzero : ch ≠ 0) (hlow : (before.length + cur.length + 1 : ℤ) ≤ stop)
    (hhigh : stop ≤ before.length + cur.length + 1 + k) :
    stripLoop ch back (steps + 1) (layout before (ch :: cur) k after) before.length stop =
      stripLoop ch back steps (layout before cur (k + 1) after) (before.length + 1)
        (stop - back) := by
  rw [stripLoop, layout_here]
  dsimp only
  rw [if_neg hzero, if_pos rfl, if_neg (by omega), moveDown_layout (by omega) (by omega)]
  rfl

/-- The loop among zeros leaves the text without those that it does not pass over. -/
theorem stripLoop_layout (hback : back ≤ 1) (hnul : (0 : UInt8) ∉ cur)
    (hlow : (before.length + cur.length : ℤ) ≤ stop)
    (hhigh : stop ≤ before.length + cur.length + k) (hsteps : cur.length < steps) :
    ∃ k', stripLoop ch back steps (layout before cur k after) before.length stop =
      .ok (layout (before ++ skipStrip ch cur) [] k' after) := by
  induction cur using skipStrip.induct ch generalizing before k steps stop with
  | case1 =>
    obtain ⟨steps, rfl⟩ := Nat.exists_eq_succ_of_ne_zero (Nat.ne_zero_of_lt hsteps)
    refine ⟨k, ?_⟩
    rw [skipStrip, List.append_nil]
    exact stripLoop_end
  | case2 =>
    obtain ⟨steps, rfl⟩ := Nat.exists_eq_add_of_lt hsteps
    simp only [List.mem_singleton, List.length_singleton] at hnul hlow hhigh
    -- the loop goes on behind the first of the zeros
    have hlater : layout before [] (k + 1) after = layout (before ++ [0]) [] k after := by
      simp [layout, List.replicate_succ]
    have hend := @stripLoop_end ch back (before ++ [0]) after k steps (stop - back)
    rw [List.length_append, List.length_singleton, ← hlater] at hend
    refine ⟨k + 1, ?_⟩
    rw [List.length_singleton, Nat.add_comm 1,
      stripLoop_drop (Ne.symm hnul) (by simp; omega) (by simp; omega), skipStrip_last,
      List.append_nil]
    exact hend
  | case3 d ds ih =>
    obtain ⟨steps, rfl⟩ := Nat.exists_eq_succ_of_ne_zero (Nat.ne_zero_of_lt hsteps)
    simp only [List.mem_cons, not_or, List.length_cons] at hnul hsteps hlow hhigh
    obtain ⟨k', hloop⟩ := @ih (before ++ [d]) (k + 1) steps (stop - back) hnul.2.2
      (by simp; omega) (by simp; omega) (by omega)
    refine ⟨k', ?_⟩
    rw [stripLoop_drop (Ne.symm hnul.1) (by simp; omega) (by simp; omega), layout_pass,
      skipStrip_passed]
    simpa using hloop
  | case4 c cs hc ih =>
    obtain ⟨steps, rfl⟩ := Nat.exists_eq_succ_of_ne_zero (Nat.ne_zero_of_lt hsteps)
    simp only [List.mem_cons, not_or, List.length_cons] at hnul hsteps hlow hhigh
    obtain ⟨k', hloop⟩ := @ih (before ++ [c]) k steps stop hnul.2 (by simp; omega) (by simp; omega)
      (by omega)
    refine ⟨k', ?_⟩
    rw [stripLoop_pass (Ne.symm hnul.1) hc, skipStrip_other hc, hloop, List.append_assoc]
    rfl

/-- Without an occurrence the loop changes nothing. -/
theorem stripLoop_absent (hnul : (0 : UInt8) ∉ cur) (hch : ch ∉ cur) (hsteps : cur.length < steps) :
    stripLoop ch back steps (layout before cur k after) before.length stop =
      .ok (layout before cur k after) := by
  induction cur generalizing before steps with
  | nil =>
    obtain ⟨steps, rfl⟩ := Nat.exists_eq_succ_of_ne_zero (Nat.ne_zero_of_lt hsteps)
    exact stripLoop_end
  | cons c cs ih =>
    obtain ⟨steps, rfl⟩ := Nat.exists_eq_succ_of_ne_zero (Nat.ne_zero_of_lt hsteps)
    simp only [List.mem_cons, not_or, List.length_cons] at hnul hch hsteps
    rw [stripLoop_pass (Ne.symm hnul.1) (Ne.symm hch.1), layout_pass]
    exact ih hnul.2 hch.2 (by omega)

/-- With its end behind the memory the loop moves a byte that is not there. -/
theorem stripLoop_overrun (hnul : (0 : UInt8) ∉ cur) (hch : ch ∈ cur)
    (hstop : stop = (layout before cur 0 []).length) :
    stripLoop ch back steps (layout before cur 0 []) before.length stop = .error .overrun := by
  induction cur generalizing before steps with
  | nil => exact absurd hch List.not_mem_nil
  | cons c cs ih =>
    cases steps with
    | zero => rfl
    | succ steps =>
      simp only [List.mem_cons, not_or] at hnul
      by_cases hc : c = ch
      · have hlength := hstop
        rw [length_layout, List.length_cons, List.length_nil] at hlength
        have hbehind : ¬before.length + 1 + (stop - before.length).toNat ≤
            (layout before (c :: cs) 0 []).length := by
          rw [length_layout, List.length_cons, List.length_nil]
          omega
        rw [stripLoop, layout_here]
        dsimp only
        rw [if_neg (Ne.symm hnul.1), if_pos hc, if_neg (by omega), moveDown, if_neg hbehind]
        rfl
      · have hcs : ch ∈ cs := (List.mem_cons.1 hch).resolve_left (Ne.symm hc)
        rw [layout_pass] at hstop
        rw [stripLoop_pass (Ne.symm hnul.1) hc]
        exact ih hnul.2 hcs hstop

end Loops

section Strings
variable {ch : UInt8}

/-- The string is left without the character, and what is behind the given bytes as it was. -/
def Strips (strip : Ptr → UInt8 → Except Overrun Ptr) (behind text : List UInt8) (ch : UInt8) :
    Prop :=
  ∀ after, ∃ rest, strip (text ++ 0 :: (behind ++ after)) ch =
    .ok (text.filter (fun c => c ≠ ch) ++ 0 :: (rest ++ after))

/-- The string is left without the character, and all that is behind it as it was. -/
def Right (strip : Ptr → UInt8 → Except Overrun Ptr) (text : List UInt8) (ch : UInt8) : Prop :=
  Strips strip [] text ch

/-- A string in memory is the text in front of its terminator. -/
theorem text_eq_of_append {a b p q : List UInt8} (ha : (0 : UInt8) ∉ a) (hb : (0 : UInt8) ∉ b)
    (h : a ++ 0 :: p = b ++ 0 :: q) : a = b := by
  have hlength := congrArg strlen h
  rw [strlen_text ha, strlen_text hb, Except.ok.injEq] at hlength
  exact (List.append_inj h hlength).1

theorem strip_text {text after : List UInt8} {ahead back : ℕ} (hnul : (0 : UInt8) ∉ text) :
    strip ahead back (text ++ 0 :: after) ch =
      stripLoop ch back (text ++ 0 :: after).length (text ++ 0 :: after) 0
        (text.length + ahead) := by
  rw [strip, strlen_text hnul]
  rfl

/-- With zeros up to its end, the loop leaves the string without those that it passes. -/
theorem strip_zeros {text after : List UInt8} {k back : ℕ} (hnul : (0 : UInt8) ∉ text)
    (hback : back ≤ 1) : ∃ k', strip k back (layout [] text k after) ch =
      .ok (layout (skipStrip ch text) [] k' after) := by
  have htext : layout [] text k after = text ++ 0 :: (List.replicate k 0 ++ after) := rfl
  rw [htext, strip_text hnul, ← htext]
  exact stripLoop_layout hback hnul (by simp) (by simp) (by rw [length_layout]; simp; omega)

/-- Among zeros the loop is right exactly if no two occurrences are adjacent. -/
theorem strip_zeros_iff (text : CString) {k back : ℕ} (hback : back ≤ 1) :
    Strips (strip k back) (List.replicate k 0) text.1 ch ↔ Isolated ch text.1 := by
  rw [← skipStrip_eq_filter_iff]
  constructor
  · intro hstrips
    obtain ⟨rest, hrest⟩ := hstrips []
    obtain ⟨k', hk⟩ := @strip_zeros ch text.1 [] k back text.2 hback
    have hmem := Except.ok.inj (hk.symm.trans hrest)
    exact text_eq_of_append (skipStrip_nul text.2) (fun h => text.2 (List.mem_of_mem_filter h)) hmem
  · intro hfilter after
    obtain ⟨k', hk⟩ := @strip_zeros ch text.1 after k back text.2 hback
    exact ⟨List.replicate k' 0, by rw [← hfilter]; exact hk⟩

/-- A loop to behind the terminator is right exactly if the character is absent. -/
theorem strip_behind_iff (text : CString) : Right (strip 1 1) text.1 ch ↔ ch ∉ text.1 := by
  constructor
  · intro hright hch
    obtain ⟨rest, hrest⟩ := hright []
    have hover := @stripLoop_overrun ch 1 [] text.1 (text.1 ++ [0]).length (text.1.length + 1)
      text.2 hch (by rw [length_layout]; simp)
    have hstrip : strip 1 1 (text.1 ++ [0]) ch = .error .overrun := (strip_text text.2).trans hover
    exact absurd (hstrip.symm.trans hrest) (by simp)
  · intro hch after
    have hfilter : text.1.filter (fun c => c ≠ ch) = text.1 :=
      List.filter_eq_self.2 fun c hc => by
        rw [decide_eq_true_eq]
        exact ne_of_mem_of_not_mem hc hch
    refine ⟨[], ?_⟩
    rw [hfilter]
    refine (strip_text text.2).trans ?_
    exact @stripLoop_absent ch 1 [] text.1 after 0 _ _ text.2 hch (by simp)

/-- The functions of the library leave the string right exactly if the character is not in it,
`chr_strip` exactly if no two occurrences are adjacent, as those of the library do where the
byte behind the terminator is theirs to move and a zero. -/
theorem strip_right_iff (text : CString) (ch : UInt8) :
    (Right liteStringStripChar text.1 ch ↔ ch ∉ text.1) ∧
    (Right liteStrStripChar text.1 ch ↔ ch ∉ text.1) ∧
    (Right chrStrip text.1 ch ↔ Isolated ch text.1) ∧
    (Strips liteStringStripChar [0] text.1 ch ↔ Isolated ch text.1) ∧
    (Strips liteStrStripChar [0] text.1 ch ↔ Isolated ch text.1) := by
  have hbehind : Right (strip 1 1) text.1 ch ↔ ch ∉ text.1 := strip_behind_iff text
  have hzero : Strips (strip 1 1) [0] text.1 ch ↔ Isolated ch text.1 :=
    strip_zeros_iff text (Nat.le_refl 1)
  have hend : Right (strip 0 0) text.1 ch ↔ Isolated ch text.1 :=
    strip_zeros_iff text (Nat.zero_le 1)
  exact ⟨hbehind, hbehind, hend, hzero, hzero⟩

/-- Of two backslashes one is left, and for one at the end the loop of the library moves a byte
from behind the terminator. -/
theorem strip_wrong :
    chrStrip [92, 92, 0] 92 = .ok [92, 0, 0] ∧ ¬Right chrStrip [92, 92] 92 ∧
    liteStringStripChar [97, 92, 0, 98, 0] 92 = .ok [97, 0, 98, 98, 0] ∧
    ¬Right liteStringStripChar [97, 92] 92 ∧ ¬Right liteStrStripChar [97, 92] 92 := by
  have htwo : chrStrip [92, 92, 0] 92 = .ok [92, 0, 0] := by decide
  have hend : strip 1 1 [97, 92, 0] 92 = .error .overrun := by decide
  have hbehind : ¬Right (strip 1 1) [97, 92] 92 := by
    intro hright
    obtain ⟨rest, hrest⟩ := hright []
    exact absurd (hend.symm.trans hrest) (by simp)
  refine ⟨htwo, ?_, by decide, hbehind, hbehind⟩
  intro hright
  obtain ⟨rest, hrest⟩ := hright []
  exact absurd (htwo.symm.trans hrest) (by simp)

end Strings

end IotExplorer.StripChars
