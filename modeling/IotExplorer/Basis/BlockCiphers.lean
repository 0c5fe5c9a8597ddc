import Mathlib.Data.List.Induction

/-!
Block ciphers whose rounds alternate with the addition of round keys, and the chaining of their
blocks. A round substitutes and then mixes; the last one does not mix. What undoes the mixing is
additive, so that the inverse can be computed in rounds of the same form, with keys that have
been unmixed beforehand. A chain adds to each block the cipher block before it.
-/
namespace IotExplorer.Basis.BlockCiphers

variable {β : Type*} (add : β → β → β)

section Rounds

/-- The rounds between the first key and the last one. -/
def rounds (round : β → β) (keys : List β) (x : β) : β :=
  keys.foldl (fun y key => add (round y) key) x

/-- A first key, the rounds, and a last round that is shorter. -/
def alternate (round short : β → β) (first : β) (keys : List β) (last x : β) : β :=
  add (short (rounds add round keys (add x first))) last

variable {add} {sub mix unsub unmix : β → β}

theorem rounds_concat (round : β → β) (keys : List β) (key x : β) :
    rounds add round (keys ++ [key]) x = add (round (rounds add round keys x)) key :=
  List.foldl_append

/-- The rounds of the inverse go back to what the first round has substituted. -/
theorem rounds_inverse (hadd : ∀ x key, add (add x key) key = x) (hsub : ∀ x, unsub (sub x) = x)
    (hmix : ∀ x, unmix (mix x) = x) (hunmix : ∀ x y, unmix (add x y) = add (unmix x) (unmix y))
    (keys : List β) (x : β) :
    rounds add (unmix ∘ unsub) (keys.reverse.map unmix)
      (sub (rounds add (mix ∘ sub) keys x)) = sub x := by
  induction keys using List.reverseRecOn with
  | nil => rfl
  | append_singleton keys key ih =>
    have hround : add (unmix (unsub (sub (rounds add (mix ∘ sub) (keys ++ [key]) x))))
        (unmix key) = sub (rounds add (mix ∘ sub) keys x) := by
      rw [hsub, ← hunmix, rounds_concat, hadd]
      exact hmix _
    rw [List.reverse_concat, List.map_cons, rounds, List.foldl_cons]
    dsimp only [Function.comp_apply]
    rw [hround]
    exact ih

/-- The inverse in rounds of the same form. -/
theorem alternate_inverse (hadd : ∀ x key, add (add x key) key = x)
    (hsub : ∀ x, unsub (sub x) = x) (hmix : ∀ x, unmix (mix x) = x)
    (hunmix : ∀ x y, unmix (add x y) = add (unmix x) (unmix y))
    (first : β) (keys : List β) (last x : β) :
    alternate add (unmix ∘ unsub) unsub last (keys.reverse.map unmix) first
      (alternate add (mix ∘ sub) sub first keys last x) = x := by
  rw [alternate, alternate, hadd, rounds_inverse hadd hsub hmix hunmix, hsub, hadd]

end Rounds

section Chains

/-- Each block is added to the one before it, then enciphered. -/
def chainEncrypt (encrypt : β → β) : β → List β → List β
  | _, [] => []
  | iv, x :: xs => encrypt (add x iv) :: chainEncrypt encrypt (encrypt (add x iv)) xs

/-- Each block is deciphered, then added to the one before it. -/
def chainDecrypt (decrypt : β → β) : β → List β → List β
  | _, [] => []
  | iv, y :: ys => add (decrypt y) iv :: chainDecrypt decrypt y ys

variable {add} {encrypt decrypt : β → β}

theorem chainDecrypt_chainEncrypt (hadd : ∀ x key, add (add x key) key = x)
    (hcipher : ∀ x, decrypt (encrypt x) = x) (iv : β) (xs : List β) :
    chainDecrypt add decrypt iv (chainEncrypt add encrypt iv xs) = xs := by
  induction xs generalizing iv with
  | nil => rfl
  | cons x xs ih => rw [chainEncrypt, chainDecrypt, hcipher, hadd, ih]

/-- A chain goes on with the last cipher block. -/
theorem chainDecrypt_append (iv : β) (ys ys' : List β) :
    chainDecrypt add decrypt iv (ys ++ ys') =
      chainDecrypt add decrypt iv ys ++ chainDecrypt add decrypt (ys.getLastD iv) ys' := by
  induction ys generalizing iv with
  | nil => rfl
  | cons y ys ih =>
    rw [List.cons_append, chainDecrypt, chainDecrypt, ih, List.cons_append, List.getLastD_cons]

end Chains

end IotExplorer.Basis.BlockCiphers
