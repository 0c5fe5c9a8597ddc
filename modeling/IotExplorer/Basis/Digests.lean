import IotExplorer.Basis.Absorption
import IotExplorer.Basis.Memory
import Mathlib.Algebra.Group.Nat.Defs

/-!
Digests of a stream that is fed in pieces. A context has the state behind the blocks of 64 bytes
that are complete, a buffer for the next one, and the count of the bytes in two words. Finishing
it feeds a mark, zeros and the count of the bits, so that the last block is complete.
-/
namespace IotExplorer.Basis.Digests

open Absorption Memory

variable {σ : Type*}

section Contexts

structure Context (σ : Type*) where
  total0 : UInt32
  total1 : UInt32
  state : σ
  buffer : ℕ → UInt8

variable (process : σ → List UInt8 → σ)

/-- The loop over whole blocks: the state behind so many of them, and what is left. -/
def processBlocks : ℕ → σ → List UInt8 → σ × List UInt8
  | 0, s, input => (s, input)
  | count + 1, s, input => processBlocks count (process s (input.take 64)) (input.drop 64)

def update (ctx : Context σ) (input : List UInt8) : Context σ :=
  if input.length = 0 then ctx
  else
    let left := (ctx.total0 &&& 0x3F).toNat
    let fill := 64 - left
    let ilen := UInt32.ofNat input.length
    let total0 := ctx.total0 + ilen
    let total1 := if total0 < ilen then ctx.total1 + 1 else ctx.total1
    let completes : Bool := left ≠ 0 && fill ≤ input.length
    let buffer := if completes then memcpy left (input.take fill) ctx.buffer else ctx.buffer
    let state := if completes then process ctx.state (slice buffer 0 64) else ctx.state
    let input := if completes then input.drop fill else input
    let left := if completes then 0 else left
    let rest := processBlocks process (input.length / 64) state input
    ⟨total0, total1, rest.1, memcpy left rest.2 buffer⟩

/-- What is fed behind a stream, before its length. -/
def padding : List UInt8 := 0x80 :: List.replicate 63 0

/-- A context is finished; the length is written by `lengthBytes`, from its two words. -/
def finish (lengthBytes : UInt32 → UInt32 → List UInt8) (ctx : Context σ) : Context σ :=
  let high := (ctx.total0 >>> 29) ||| (ctx.total1 <<< 3)
  let low := ctx.total0 <<< 3
  let last := (ctx.total0 &&& 0x3F).toNat
  let padn := if last < 56 then 56 - last else 120 - last
  update process (update process ctx (padding.take padn)) (lengthBytes high low)

/-- A message with a mark and zeros, up to the place for its length. -/
def marked (message : List UInt8) : List UInt8 :=
  message ++ 0x80 :: List.replicate ((119 - message.length % 64) % 64) 0

/-- The state behind the blocks of a message and its length. -/
def digest (initial : σ) (lengthField : ℕ → List UInt8) (message : List UInt8) : σ :=
  let text := marked message ++ lengthField (8 * message.length)
  (blocksOf 64 (text.length / 64) text).foldl process initial

end Contexts

section InStep
variable {process : σ → List UInt8 → σ} {initial : σ} {ctx : Context σ} {fed input : List UInt8}

/-- A context that was fed with so many bytes. -/
structure InStep (process : σ → List UInt8 → σ) (initial : σ) (ctx : Context σ)
    (fed : List UInt8) : Prop where
  total : ctx.total0.toNat + 2 ^ 32 * ctx.total1.toNat = fed.length % 2 ^ 64
  state : ctx.state = (absorb 64 process ⟨initial, []⟩ fed).state
  buffer : slice ctx.buffer 0 (fed.length % 64) = (absorb 64 process ⟨initial, []⟩ fed).pending

theorem inStep_start (buffer : ℕ → UInt8) : InStep process initial ⟨0, 0, initial, buffer⟩ [] :=
  ⟨rfl, rfl, slice_self buffer 0⟩

theorem pending_eq (fed : List UInt8) :
    (absorb 64 process ⟨initial, []⟩ fed).pending.length = fed.length % 64 := by
  have h : (absorb 64 process ⟨initial, []⟩ fed).pending.length = (0 + fed.length) % 64 :=
    pending_length (by decide) (by rw [List.length_nil]; decide)
  rwa [Nat.zero_add] at h

theorem processBlocks_eq (count : ℕ) (s : σ) (input : List UInt8) :
    processBlocks process count s input =
      ((blocksOf 64 count input).foldl process s, input.drop (64 * count)) := by
  induction count generalizing s input with
  | zero => rfl
  | succ count ih =>
    rw [processBlocks, ih, blocksOf, List.foldl_cons, List.drop_drop, Nat.add_comm 64,
      ← Nat.mul_succ]

/-- The loop leaves what the state absorbs. -/
theorem whole_eq (s : σ) (input : List UInt8) :
    absorb 64 process ⟨s, []⟩ input =
      ⟨(processBlocks process (input.length / 64) s input).1,
        (processBlocks process (input.length / 64) s input).2⟩ := by
  have hle : 64 * (input.length / 64) ≤ input.length := Nat.mul_div_le _ _
  rw [absorb_blocks (by decide) (input.length / 64) s hle, processBlocks_eq]
  refine absorb_short ?_
  rw [List.length_drop, List.length_nil]
  omega

theorem low_bits (t : UInt32) : (t &&& 0x3F).toNat = t.toNat % 64 := by
  rw [UInt32.toNat_and]
  exact Nat.and_two_pow_sub_one_eq_mod t.toNat 6

theorem InStep.low (h : InStep process initial ctx fed) :
    (ctx.total0 &&& 0x3F).toNat = fed.length % 64 := by
  have htotal := h.total
  rw [low_bits]
  omega

/-- The count is kept, as long as a piece is shorter than 2^32. -/
theorem total_update (t0 t1 : UInt32) (count length : ℕ) (hlen : length < 2 ^ 32)
    (h : t0.toNat + 2 ^ 32 * t1.toNat = count % 2 ^ 64) :
    (t0 + UInt32.ofNat length).toNat + 2 ^ 32 *
        (if t0 + UInt32.ofNat length < UInt32.ofNat length then t1 + 1 else t1).toNat =
      (count + length) % 2 ^ 64 := by
  have h0 := t0.toNat_lt
  have h1 := t1.toNat_lt
  have hof : (UInt32.ofNat length).toNat = length := UInt32.toNat_ofNat_of_lt' hlen
  have hone : (1 : UInt32).toNat = 1 := rfl
  simp only [UInt32.lt_iff_toNat_lt, UInt32.toNat_add, hof]
  split
  · rw [UInt32.toNat_add, hone]
    omega
  · omega

/-- What is left behind whole blocks is at the start of the buffer. -/
theorem inStep_whole {t0 t1 : UInt32} {s : σ} {buffer : ℕ → UInt8}
    (htotal : t0.toNat + 2 ^ 32 * t1.toNat = fed.length % 2 ^ 64)
    (hfed : absorb 64 process ⟨initial, []⟩ fed = absorb 64 process ⟨s, []⟩ input) :
    InStep process initial ⟨t0, t1, (processBlocks process (input.length / 64) s input).1,
      memcpy 0 (processBlocks process (input.length / 64) s input).2 buffer⟩ fed := by
  rw [whole_eq s] at hfed
  have hlen := @pending_eq σ process initial fed
  rw [hfed] at hlen
  have hslice := slice_memcpy 0 (processBlocks process (input.length / 64) s input).2 buffer
  rw [Nat.zero_add, hlen] at hslice
  exact ⟨htotal, by rw [hfed], by rw [hfed]; exact hslice⟩

/-- A context that is fed with a piece is in step with the longer stream. -/
theorem InStep.update (h : InStep process initial ctx fed) (hlen : input.length < 2 ^ 32) :
    InStep process initial (update process ctx input) (fed ++ input) := by
  have hleft := h.low
  have hpending := @pending_eq σ process initial fed
  have htotal := total_update ctx.total0 ctx.total1 fed.length input.length hlen h.total
  rw [← List.length_append] at htotal
  by_cases hempty : input.length = 0
  · rw [Digests.update, if_pos hempty, List.length_eq_zero_iff.mp hempty, List.append_nil]
    exact h
  rw [Digests.update, if_neg hempty]
  simp only [hleft]
  by_cases hfill : fed.length % 64 ≠ 0 ∧ 64 - fed.length % 64 ≤ input.length
  · -- the piece completes the block in the buffer
    have hcompletes : (decide (fed.length % 64 ≠ 0) &&
        decide (64 - fed.length % 64 ≤ input.length)) = true := by simpa using hfill
    simp only [hcompletes, if_true]
    have hpiece : (input.take (64 - fed.length % 64)).length = 64 - fed.length % 64 := by
      rw [List.length_take]
      omega
    have hne : input.take (64 - fed.length % 64) ≠ [] := by
      rw [← List.length_pos_iff]
      omega
    have hblock : slice (memcpy (fed.length % 64) (input.take (64 - fed.length % 64)) ctx.buffer)
        0 64 = (absorb 64 process ⟨initial, []⟩ fed).pending ++
          input.take (64 - fed.length % 64) := by
      have hfront : slice (memcpy (fed.length % 64) (input.take (64 - fed.length % 64)) ctx.buffer)
          0 (fed.length % 64) = slice ctx.buffer 0 (fed.length % 64) :=
        slice_memcpy_outside (Or.inl (Nat.le_refl (fed.length % 64)))
      have hback := slice_memcpy (fed.length % 64) (input.take (64 - fed.length % 64)) ctx.buffer
      have hend : fed.length % 64 + (64 - fed.length % 64) = 64 := by omega
      rw [hpiece, hend] at hback
      rw [← slice_append _ (Nat.zero_le (fed.length % 64)) (by omega), hfront, hback, h.buffer]
    have hfull : absorb 64 process (absorb 64 process ⟨initial, []⟩ fed)
        (input.take (64 - fed.length % 64)) = ⟨process ctx.state (slice (memcpy (fed.length % 64)
          (input.take (64 - fed.length % 64)) ctx.buffer) 0 64), []⟩ := by
      rw [absorb_fill hne (by rw [hpending, hpiece]; omega), hblock, h.state]
    refine inStep_whole htotal ?_
    rw [← hfull, ← absorb_append, ← absorb_append, List.take_append_drop]
  · have hcompletes : (decide (fed.length % 64 ≠ 0) &&
        decide (64 - fed.length % 64 ≤ input.length)) = false := by
      rw [← Bool.not_eq_true]
      simpa using hfill
    simp only [hcompletes, Bool.false_eq_true, if_false]
    by_cases hzero : fed.length % 64 = 0
    · -- the buffer is empty
      have hnil : (absorb 64 process ⟨initial, []⟩ fed).pending = [] :=
        List.length_eq_zero_iff.mp (by omega)
      have habsorbed : absorb 64 process ⟨initial, []⟩ fed = ⟨ctx.state, []⟩ := by
        rw [h.state]
        exact congrArg (Absorbed.mk _) hnil
      simp only [hzero]
      refine inStep_whole htotal ?_
      rw [absorb_append, habsorbed]
    · -- the piece is put behind what is in the buffer
      have hshort : fed.length % 64 + input.length < 64 := by omega
      have hnone : input.length / 64 = 0 := by omega
      have habsorbed : absorb 64 process ⟨initial, []⟩ (fed ++ input) =
          ⟨(absorb 64 process ⟨initial, []⟩ fed).state,
            (absorb 64 process ⟨initial, []⟩ fed).pending ++ input⟩ := by
        rw [absorb_append]
        exact absorb_short (by omega)
      have hmod : (fed ++ input).length % 64 = fed.length % 64 + input.length := by
        rw [List.length_append]
        omega
      simp only [hnone, processBlocks]
      refine ⟨htotal, by rw [habsorbed]; exact h.state, ?_⟩
      have hfront : slice (memcpy (fed.length % 64) input ctx.buffer) 0 (fed.length % 64) =
          slice ctx.buffer 0 (fed.length % 64) :=
        slice_memcpy_outside (Or.inl (Nat.le_refl (fed.length % 64)))
      rw [hmod, ← slice_append _ (Nat.zero_le (fed.length % 64)) (by omega), habsorbed, ← h.buffer]
      congr 1
      exact slice_memcpy (fed.length % 64) input ctx.buffer

/-- Pieces of any sizes are what they are together. -/
theorem InStep.updates (h : InStep process initial ctx fed) {pieces : List (List UInt8)}
    (hlen : ∀ piece ∈ pieces, piece.length < 2 ^ 32) :
    InStep process initial (pieces.foldl (Digests.update process) ctx) (fed ++ pieces.flatten) := by
  induction pieces generalizing ctx fed with
  | nil => simpa using h
  | cons piece pieces ih =>
    have hrest := ih (h.update (hlen piece List.mem_cons_self)) fun other hmem =>
      hlen other (List.mem_cons_of_mem piece hmem)
    rwa [List.append_assoc, ← List.flatten_cons] at hrest

/-- The two words are the count of the bits. -/
theorem bits_eq {t0 t1 : UInt32} {count : ℕ} (h : t0.toNat + 2 ^ 32 * t1.toNat = count % 2 ^ 64) :
    (t0 <<< 3).toNat = 8 * count % 2 ^ 32 ∧
      ((t0 >>> 29) ||| (t1 <<< 3)).toNat = 8 * count / 2 ^ 32 % 2 ^ 32 := by
  have h0 := t0.toNat_lt
  have h1 := t1.toNat_lt
  have h3 : (3 : UInt32).toNat % 32 = 3 := rfl
  have h29 : (29 : UInt32).toNat % 32 = 29 := rfl
  have hdisjoint : t1.toNat * 2 ^ 3 % 2 ^ 32 = 2 ^ 3 * (t1.toNat % 2 ^ 29) := by omega
  constructor
  · rw [UInt32.toNat_shiftLeft, Nat.shiftLeft_eq, h3]
    omega
  · rw [UInt32.toNat_or, UInt32.toNat_shiftRight, UInt32.toNat_shiftLeft, h29, h3,
      Nat.shiftRight_eq_div_pow, Nat.shiftLeft_eq, Nat.or_comm, hdisjoint,
      ← Nat.two_pow_add_eq_or_of_lt (by omega)]
    omega

/-- The length that is written is the field that the standard asks for. -/
def WritesLength (lengthBytes : UInt32 → UInt32 → List UInt8) (lengthField : ℕ → List UInt8) :
    Prop :=
  ∀ high low : UInt32, ∀ bits : ℕ, low.toNat = bits % 2 ^ 32 →
    high.toNat = bits / 2 ^ 32 % 2 ^ 32 → lengthBytes high low = lengthField bits

/-- A context that is finished was fed with the mark, the zeros and the length too. -/
theorem InStep.finished (h : InStep process initial ctx fed)
    {lengthBytes : UInt32 → UInt32 → List UInt8} {lengthField : ℕ → List UInt8}
    (hwrites : WritesLength lengthBytes lengthField)
    (height : ∀ bits, (lengthField bits).length = 8) :
    InStep process initial (finish process lengthBytes ctx)
      (marked fed ++ lengthField (8 * fed.length)) := by
  obtain ⟨hlow, hhigh⟩ := bits_eq h.total
  have hleft := h.low
  have hlength := hwrites _ _ _ hlow hhigh
  have hpadding : padding.take (if (ctx.total0 &&& 0x3F).toNat < 56
      then 56 - (ctx.total0 &&& 0x3F).toNat else 120 - (ctx.total0 &&& 0x3F).toNat) =
        0x80 :: List.replicate ((119 - fed.length % 64) % 64) 0 := by
    obtain ⟨n, hn, hcount⟩ : ∃ n, (if (ctx.total0 &&& 0x3F).toNat < 56
        then 56 - (ctx.total0 &&& 0x3F).toNat else 120 - (ctx.total0 &&& 0x3F).toNat) = n + 1 ∧
          n = (119 - fed.length % 64) % 64 := by
      refine ⟨_, ?_, rfl⟩
      rw [hleft]
      split <;> omega
    rw [hn, padding, List.take_succ_cons, List.take_replicate, ← hcount, Nat.min_eq_left (by omega)]
  have hmark : (0x80 :: List.replicate ((119 - fed.length % 64) % 64) (0 : UInt8)).length <
      2 ^ 32 := by
    rw [List.length_cons, List.length_replicate]
    omega
  have hfield : (lengthField (8 * fed.length)).length < 2 ^ 32 := by
    rw [height]
    decide
  rw [Digests.finish, hpadding, hlength]
  exact (h.update hmark).update hfield

/-- What a context that is finished has is the digest of what it was fed. -/
theorem InStep.finish (h : InStep process initial ctx fed)
    {lengthBytes : UInt32 → UInt32 → List UInt8} {lengthField : ℕ → List UInt8}
    (hwrites : WritesLength lengthBytes lengthField)
    (height : ∀ bits, (lengthField bits).length = 8) :
    (finish process lengthBytes ctx).state = digest process initial lengthField fed := by
  have hwhole : (marked fed ++ lengthField (8 * fed.length)).length % 64 = 0 := by
    rw [List.length_append, height, marked, List.length_append, List.length_cons,
      List.length_replicate]
    omega
  rw [(h.finished hwrites height).state, digest]
  generalize marked fed ++ lengthField (8 * fed.length) = text at hwhole
  have hle : 64 * (text.length / 64) ≤ text.length := Nat.mul_div_le _ _
  have hnil : text.drop (64 * (text.length / 64)) = [] := List.drop_eq_nil_iff.mpr (by omega)
  rw [absorb_blocks (by decide) (text.length / 64) initial hle, hnil, absorb_nil]

/-- A byte of a word, as the byte of a number. -/
theorem byte_of_shift (n k : UInt32) (m : ℕ) (h : n.toNat / 2 ^ (k.toNat % 32) % 256 = m % 256) :
    (n >>> k).toUInt8 = UInt8.ofNat m := by
  apply UInt8.toNat_inj.mp
  rw [UInt32.toNat_toUInt8, UInt32.toNat_shiftRight, Nat.shiftRight_eq_div_pow,
    UInt8.toNat_ofNat', h]

theorem last_byte {n : UInt32} {m : ℕ} (h : n.toNat % 256 = m % 256) :
    n.toUInt8 = UInt8.ofNat m := by
  apply UInt8.toNat_inj.mp
  rw [UInt32.toNat_toUInt8, UInt8.toNat_ofNat', h]

end InStep

end IotExplorer.Basis.Digests
