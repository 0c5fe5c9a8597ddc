import IotExplorer.AesCipher
import IotExplorer.Basis.Memory
import Mathlib.Data.List.GetD

/-!
The chaining of blocks over a text in memory, and `utils_aes_cbc`, which pads a text with zeros
before it is enciphered. The padding is put where the output goes, while the text is read from
the input; in place they are the same.
-/
namespace IotExplorer.AesCbc

open Basis.Memory Basis.BlockCiphers AesStandard AesCipher

section Functions

def utilsAesCryptEcb (ctx : Context) (mode : ℕ) (input : ℕ → UInt8) : List UInt8 :=
  if mode = 1 then utilsInternalAesEncrypt ctx input else utilsInternalAesDecrypt ctx input

/-- The sixteen bytes at an address are added to the vector, one after the other. -/
def addVector (src dst : ℕ) (iv m : ℕ → UInt8) : ℕ → UInt8 :=
  (List.range 16).foldl (fun m i => Function.update m (dst + i) (m (src + i) ^^^ iv i)) m

/-- The loop for decryption: the vector and the memory behind it. -/
def decryptLoop (ctx : Context) (mode : ℕ) :
    ℕ → ℕ → ℕ → (ℕ → UInt8) → (ℕ → UInt8) → (ℕ → UInt8) × (ℕ → UInt8)
  | 0, _, _, iv, m => (iv, m)
  | n + 1, input, output, iv, m =>
      let temp := slice m input (input + 16)
      let m := memcpy output (utilsAesCryptEcb ctx mode fun i => m (input + i)) m
      let m := addVector output output iv m
      decryptLoop ctx mode n (input + 16) (output + 16) (memcpy 0 temp iv) m

def encryptLoop (ctx : Context) (mode : ℕ) :
    ℕ → ℕ → ℕ → (ℕ → UInt8) → (ℕ → UInt8) → (ℕ → UInt8) × (ℕ → UInt8)
  | 0, _, _, iv, m => (iv, m)
  | n + 1, input, output, iv, m =>
      let m := addVector input output iv m
      let m := memcpy output (utilsAesCryptEcb ctx mode fun i => m (output + i)) m
      encryptLoop ctx mode n (input + 16) (output + 16)
        (memcpy 0 (slice m output (output + 16)) iv) m

/-- `utils_aes_crypt_cbc`: its return, the vector and the memory. -/
def utilsAesCryptCbc (ctx : Context) (mode length : ℕ) (iv : ℕ → UInt8) (input output : ℕ)
    (m : ℕ → UInt8) : ℤ × (ℕ → UInt8) × (ℕ → UInt8) :=
  if length % 16 ≠ 0 then (-0x0022, iv, m)
  else if mode = 0 then (0, decryptLoop ctx mode (length / 16) input output iv m)
  else (0, encryptLoop ctx mode (length / 16) input output iv m)

def utilsAesCbc (pInData datalen pOutData outBuffLen mode : ℕ) (key : ℕ → UInt8) (keybits : ℕ)
    (iv m : ℕ → UInt8) : ℤ × (ℕ → UInt8) × (ℕ → UInt8) :=
  if mode = 1 then
    let (ret, ctx) := utilsAesSetkeyEnc utilsAesInit key keybits
    if ret ≠ 0 then (-1001, iv, m)
    else if outBuffLen < (datalen + 16) % 2 ^ 32 then (-1001, iv, m)
    else
      let padlen := 16 - datalen % 16
      let m := memmove pOutData pInData datalen m
      let m := memset (pOutData + datalen) 0 padlen m
      let (ret, iv, m) :=
        utilsAesCryptCbc ctx mode ((datalen + padlen) % 2 ^ 32) iv pInData pOutData m
      (if ret ≠ 0 then -1001 else 0, iv, m)
  else
    let (ret, ctx) := utilsAesSetkeyDec utilsAesInit key keybits
    if ret ≠ 0 then (-1001, iv, m)
    else
      let (ret, iv, m) := utilsAesCryptCbc ctx mode datalen iv pInData pOutData m
      (if ret ≠ 0 then -1001 else 0, iv, m)

end Functions

section Blocks
variable {m m' iv : ℕ → UInt8} {a : ℕ}

def blockAt (m : ℕ → UInt8) (a : ℕ) : Block := inputBlock fun i => m (a + i)

def blocksAt (m : ℕ → UInt8) (a : ℕ) : ℕ → List Block
  | 0 => []
  | n + 1 => blockAt m a :: blocksAt m (a + 16) n

theorem inputBlock_congr {b b' : ℕ → UInt8} (h : ∀ i < 16, b i = b' i) :
    inputBlock b = inputBlock b' := by
  have hword {i : ℕ} (hi : i + 3 < 16) : getUint32Le b i = getUint32Le b' i := by
    unfold getUint32Le
    rw [h i (by omega), h (i + 1) (by omega), h (i + 2) (by omega), h (i + 3) (by omega)]
  unfold inputBlock
  rw [hword (by decide), hword (by decide), hword (by decide), hword (by decide)]

theorem blocksAt_congr {b n : ℕ} (h : ∀ i < 16 * n, m (a + i) = m' (b + i)) :
    blocksAt m a n = blocksAt m' b n := by
  induction n generalizing a b with
  | zero => rfl
  | succ n ih =>
    have hblock : blockAt m a = blockAt m' b := inputBlock_congr fun i hi => h i (by omega)
    have hrest := ih (a := a + 16) (b := b + 16) fun i hi => by
      have hi' := h (16 + i) (by omega)
      rwa [← Nat.add_assoc, ← Nat.add_assoc] at hi'
    rw [blocksAt, hblock, hrest, blocksAt]

theorem blocksAt_add (m : ℕ → UInt8) (a n k : ℕ) :
    blocksAt m a (n + k) = blocksAt m a n ++ blocksAt m (a + 16 * n) k := by
  induction n generalizing a with
  | zero => rw [Nat.zero_add]; rfl
  | succ n ih =>
    have hnext : a + 16 + 16 * n = a + 16 * (n + 1) := by omega
    rw [Nat.succ_add, blocksAt, ih, hnext, blocksAt, List.cons_append]

theorem length_blocksAt (m : ℕ → UInt8) (a n : ℕ) : (blocksAt m a n).length = n := by
  induction n generalizing a with
  | zero => rfl
  | succ n ih => rw [blocksAt, List.length_cons, ih]

theorem blockAt_memcpy (x : Block) : blockAt (memcpy a (output x) m) a = x := by
  have h : blockAt (memcpy a (output x) m) a = inputBlock fun i => (output x).getD i 0 := by
    refine inputBlock_congr fun i hi => ?_
    have hlen : i < (output x).length := hi
    rw [memcpy_inside hlen, List.getD_eq_getElem _ _ hlen]
  rw [h, inputBlock_output]

/-- The vector is added to a block. -/
theorem addVector_spec {src dst : ℕ} (h : dst ≤ src ∨ src + 16 ≤ dst) (iv m : ℕ → UInt8) :
    (∀ i < 16, addVector src dst iv m (dst + i) = m (src + i) ^^^ iv i) ∧
      ∀ i, i < dst ∨ dst + 16 ≤ i → addVector src dst iv m i = m i := by
  have key (n : ℕ) (hn : n ≤ 16) :
      let m' := (List.range n).foldl
        (fun m i => Function.update m (dst + i) (m (src + i) ^^^ iv i)) m
      (∀ i < n, m' (dst + i) = m (src + i) ^^^ iv i) ∧
        ∀ i, i < dst ∨ dst + n ≤ i → m' i = m i := by
    induction n with
    | zero => exact ⟨fun i hi => absurd hi (Nat.not_lt_zero i), fun i _ => rfl⟩
    | succ n ih =>
      obtain ⟨hinside, houtside⟩ := ih (by omega)
      dsimp only
      rw [List.range_succ, List.foldl_concat]
      refine ⟨fun i hi => ?_, fun i hi => ?_⟩
      · by_cases heq : i = n
        · rw [heq, Function.update_self, houtside _ (by omega)]
        · rw [Function.update_of_ne (by omega)]
          exact hinside i (by omega)
      · rw [Function.update_of_ne (by omega)]
        exact houtside i (by omega)
  exact key 16 le_rfl

theorem getUint32Le_xor (b iv : ℕ → UInt8) (i : ℕ) :
    getUint32Le (fun i => b i ^^^ iv i) i = getUint32Le b i ^^^ getUint32Le iv i := by
  simp only [getUint32Le_eq, Basis.ByteWords.word_xor]

theorem inputBlock_xor (b iv : ℕ → UInt8) :
    inputBlock (fun i => b i ^^^ iv i) = (inputBlock b).add (inputBlock iv) := by
  simp only [inputBlock, getUint32Le_xor, Block.add]

theorem blockAt_addVector {src dst : ℕ} (h : dst ≤ src ∨ src + 16 ≤ dst) :
    blockAt (addVector src dst iv m) dst = (blockAt m src).add (inputBlock iv) := by
  rw [blockAt, blockAt, ← inputBlock_xor]
  exact inputBlock_congr (addVector_spec h iv m).1

theorem inputBlock_memcpy (l : List UInt8) (hl : l = slice m a (a + 16)) :
    inputBlock (memcpy 0 l iv) = blockAt m a := by
  refine inputBlock_congr fun i hi => ?_
  have hlen : i < l.length := by
    rw [hl, length_slice]
    omega
  have h := memcpy_inside (d := 0) (m := iv) hlen
  rw [Nat.zero_add] at h
  rw [h]
  simp [hl, slice]

end Blocks

section Loops
variable {ctx : Context} {mode : ℕ}

/-- The loop for encryption leaves the chain, and its last block in the vector. -/
theorem encryptLoop_spec {encrypt : Block → Block}
    (hcipher : ∀ b, utilsAesCryptEcb ctx mode b = output (encrypt (inputBlock b)))
    (n : ℕ) {input out : ℕ} (iv m : ℕ → UInt8) (h : out ≤ input ∨ input + 16 * n ≤ out) :
    blocksAt (encryptLoop ctx mode n input out iv m).2 out n =
        chainEncrypt Block.add encrypt (inputBlock iv) (blocksAt m input n) ∧
      ∀ i, i < out ∨ out + 16 * n ≤ i → (encryptLoop ctx mode n input out iv m).2 i = m i := by
  induction n generalizing input out iv m with
  | zero => exact ⟨rfl, fun i _ => rfl⟩
  | succ n ih =>
    have hnear : out ≤ input ∨ input + 16 ≤ out := by omega
    rw [encryptLoop, hcipher]
    generalize hm1 : addVector input out iv m = m1
    generalize hy : encrypt (blockAt m1 out) = y
    have hy' : (inputBlock fun i => m1 (out + i)) = blockAt m1 out := rfl
    rw [hy', hy]
    generalize hm2 : memcpy out (output y) m1 = m2
    generalize hiv' : memcpy 0 (slice m2 out (out + 16)) iv = iv'
    have hsum : blockAt m1 out = (blockAt m input).add (inputBlock iv) := by
      rw [← hm1, blockAt_addVector hnear]
    have hblock : blockAt m2 out = y := by
      rw [← hm2, blockAt_memcpy]
    have hvector : inputBlock iv' = y := by
      rw [← hiv', inputBlock_memcpy _ rfl, hblock]
    have hframe (i : ℕ) (hi : i < out ∨ out + 16 ≤ i) : m2 i = m i := by
      rw [← hm2, memcpy_outside hi, ← hm1, (addVector_spec hnear iv m).2 i hi]
    have hnext : out + 16 ≤ input + 16 ∨ input + 16 + 16 * n ≤ out + 16 := by omega
    obtain ⟨hblocks, houtside⟩ := ih iv' m2 hnext
    have hfirst : blockAt (encryptLoop ctx mode n (input + 16) (out + 16) iv' m2).2 out = y := by
      rw [← hblock]
      exact inputBlock_congr fun i hi => houtside _ (by omega)
    have hrest : blocksAt m2 (input + 16) n = blocksAt m (input + 16) n :=
      blocksAt_congr fun i hi => hframe _ (by omega)
    refine ⟨?_, fun i hi => ?_⟩
    · rw [blocksAt, hfirst, hblocks, hrest, hvector, blocksAt, chainEncrypt, ← hsum, hy]
    · rw [houtside i (by omega), hframe i (by omega)]

/-- The loop for decryption undoes the chain. -/
theorem decryptLoop_spec {decrypt : Block → Block}
    (hcipher : ∀ b, utilsAesCryptEcb ctx mode b = output (decrypt (inputBlock b)))
    (n : ℕ) {input out : ℕ} (iv m : ℕ → UInt8) (h : out ≤ input ∨ input + 16 * n ≤ out) :
    blocksAt (decryptLoop ctx mode n input out iv m).2 out n =
        chainDecrypt Block.add decrypt (inputBlock iv) (blocksAt m input n) ∧
      ∀ i, i < out ∨ out + 16 * n ≤ i → (decryptLoop ctx mode n input out iv m).2 i = m i := by
  induction n generalizing input out iv m with
  | zero => exact ⟨rfl, fun i _ => rfl⟩
  | succ n ih =>
    rw [decryptLoop, hcipher]
    have hx' : (inputBlock fun i => m (input + i)) = blockAt m input := rfl
    rw [hx']
    generalize hm1 : memcpy out (output (decrypt (blockAt m input))) m = m1
    generalize hm2 : addVector out out iv m1 = m2
    generalize hiv' : memcpy 0 (slice m input (input + 16)) iv = iv'
    have hblock : blockAt m2 out = (decrypt (blockAt m input)).add (inputBlock iv) := by
      rw [← hm2, blockAt_addVector (Or.inl le_rfl), ← hm1, blockAt_memcpy]
    have hvector : inputBlock iv' = blockAt m input := by
      rw [← hiv', inputBlock_memcpy _ rfl]
    have hframe (i : ℕ) (hi : i < out ∨ out + 16 ≤ i) : m2 i = m i := by
      rw [← hm2, (addVector_spec (Or.inl le_rfl) iv m1).2 i hi, ← hm1, memcpy_outside hi]
    have hnext : out + 16 ≤ input + 16 ∨ input + 16 + 16 * n ≤ out + 16 := by omega
    obtain ⟨hblocks, houtside⟩ := ih iv' m2 hnext
    have hfirst : blockAt (decryptLoop ctx mode n (input + 16) (out + 16) iv' m2).2 out =
        blockAt m2 out := inputBlock_congr fun i hi => houtside _ (by omega)
    have hrest : blocksAt m2 (input + 16) n = blocksAt m (input + 16) n :=
      blocksAt_congr fun i hi => hframe _ (by omega)
    refine ⟨?_, fun i hi => ?_⟩
    · rw [blocksAt, hfirst, hblock, hblocks, hrest, hvector, blocksAt, chainDecrypt]
    · rw [houtside i (by omega), hframe i (by omega)]

end Loops

section RoundTrip
variable {key : ℕ → UInt8} {keybits : ℕ}

theorem bytes_of_inputBlock {b b' : ℕ → UInt8} (h : inputBlock b = inputBlock b') :
    ∀ i < 16, b i = b' i := by
  have hmap : (List.range 16).map b = (List.range 16).map b' := by
    rw [← output_inputBlock, h, output_inputBlock]
  intro i hi
  exact List.map_inj_left.mp hmap i (List.mem_range.mpr hi)

theorem bytes_of_blocksAt {m m' : ℕ → UInt8} {a b n : ℕ} (h : blocksAt m a n = blocksAt m' b n) :
    ∀ i < 16 * n, m (a + i) = m' (b + i) := by
  induction n generalizing a b with
  | zero => exact fun i hi => absurd hi (Nat.not_lt_zero i)
  | succ n ih =>
    rw [blocksAt, blocksAt, List.cons.injEq] at h
    intro i hi
    by_cases hfirst : i < 16
    · exact bytes_of_inputBlock h.1 i hfirst
    · have hrest := ih h.2 (i - 16) (by omega)
      rwa [show a + 16 + (i - 16) = a + i by omega,
        show b + 16 + (i - 16) = b + i by omega] at hrest

/-- A decryption restores what the encryption has read, whatever follows what it left. -/
theorem cryptCbc_restores (key : ℕ → UInt8) (hbits : keybits = 128 ∨ keybits = 192 ∨ keybits = 256)
    {n input out : ℕ} (h : out ≤ input ∨ input + 16 * n ≤ out) (iv m : ℕ → UInt8) :
    ∃ enc dec iv' m',
      utilsAesSetkeyEnc utilsAesInit key keybits = (0, enc) ∧
      utilsAesSetkeyDec utilsAesInit key keybits = (0, dec) ∧
      utilsAesCryptCbc enc 1 (16 * n) iv input out m = (0, iv', m') ∧
      (∀ i, i < out ∨ out + 16 * n ≤ i → m' i = m i) ∧
      ∀ k q m1, (∀ i < 16 * n, m1 (q + i) = m' (out + i)) →
        ∃ iv'' m'', utilsAesCryptCbc dec 0 (16 * (n + k)) iv q q m1 = (0, iv'', m'') ∧
          (∀ i < 16 * n, m'' (q + i) = m (input + i)) ∧
          ∀ i, i < q ∨ q + 16 * (n + k) ≤ i → m'' i = m1 i := by
  obtain ⟨encrypt, decrypt, hinverse, henc, hdec, hencrypt, hdecrypt⟩ :=
    exists_ciphers utilsAesInit utilsAesInit key hbits
  generalize hencctx : utilsAesSetkeyEnc utilsAesInit key keybits = enc at henc hencrypt
  generalize hdecctx : utilsAesSetkeyDec utilsAesInit key keybits = dec at hdec hdecrypt
  obtain ⟨ret, enc⟩ := enc
  obtain ⟨ret', dec⟩ := dec
  obtain rfl : ret = 0 := henc
  obtain rfl : ret' = 0 := hdec
  have hmod (n : ℕ) : ¬ 16 * n % 16 ≠ 0 := by omega
  have hdiv (n : ℕ) : 16 * n / 16 = n := by omega
  have hencrypt' (b : ℕ → UInt8) : utilsAesCryptEcb enc 1 b = output (encrypt (inputBlock b)) :=
    hencrypt b
  have hdecrypt' (b : ℕ → UInt8) : utilsAesCryptEcb dec 0 b = output (decrypt (inputBlock b)) :=
    hdecrypt b
  obtain ⟨hblocks, houtside⟩ := encryptLoop_spec hencrypt' n iv m h
  generalize hm' : encryptLoop enc 1 n input out iv m = m' at hblocks houtside
  refine ⟨enc, dec, m'.1, m'.2, rfl, rfl, ?_, houtside, fun k q m1 hsame => ?_⟩
  · rw [utilsAesCryptCbc, if_neg (hmod n), if_neg (by decide), hdiv, hm']
  · obtain ⟨hblocks', houtside'⟩ :=
      decryptLoop_spec hdecrypt' (n + k) iv m1 (Or.inl (le_refl q))
    generalize hm'' : decryptLoop dec 0 (n + k) q q iv m1 = m'' at hblocks' houtside'
    refine ⟨m''.1, m''.2, ?_, ?_, houtside'⟩
    · rw [utilsAesCryptCbc, if_neg (hmod _), if_pos rfl, hdiv, hm'']
    · have hcipher : blocksAt m1 q n =
          chainEncrypt Block.add encrypt (inputBlock iv) (blocksAt m input n) := by
        rw [← hblocks]
        exact blocksAt_congr hsame
      rw [blocksAt_add, blocksAt_add, chainDecrypt_append, hcipher,
        chainDecrypt_chainEncrypt Block.add_add hinverse] at hblocks'
      have hfront := List.append_inj_left hblocks' (by rw [length_blocksAt, length_blocksAt])
      exact bytes_of_blocksAt hfront

/-- What is enciphered is the text behind the padding, as the input then has it. -/
theorem aesCbc_restores (key : ℕ → UInt8)
    (hbits : keybits = 128 ∨ keybits = 192 ∨ keybits = 256) {pIn pOut datalen room : ℕ}
    (hroom : datalen + 16 ≤ room) (hword : room < 2 ^ 32)
    (h : pOut ≤ pIn ∨ pIn + (datalen + (16 - datalen % 16)) ≤ pOut) (iv m : ℕ → UInt8) :
    let total := datalen + (16 - datalen % 16)
    let padded := memset (pOut + datalen) 0 (16 - datalen % 16) (memmove pOut pIn datalen m)
    let enc := utilsAesCbc pIn datalen pOut room 1 key keybits iv m
    enc.1 = 0 ∧ (∀ i, i < pOut ∨ pOut + total ≤ i → enc.2.2 i = m i) ∧
      ∀ k q room' m1, (∀ i < total, m1 (q + i) = enc.2.2 (pOut + i)) →
        let dec := utilsAesCbc q (total + 16 * k) q room' 0 key keybits iv m1
        dec.1 = 0 ∧ slice dec.2.2 q (q + total) = slice padded pIn (pIn + total) ∧
          ∀ i, i < q ∨ q + (total + 16 * k) ≤ i → dec.2.2 i = m1 i := by
  dsimp only
  obtain ⟨n, hn⟩ : ∃ n, datalen + (16 - datalen % 16) = 16 * n :=
    ⟨datalen / 16 + 1, by omega⟩
  rw [hn] at h ⊢
  obtain ⟨enc, dec, iv', m', henc, hdec, hcbc, hframe, hrestored⟩ :=
    cryptCbc_restores key hbits h iv
      (memset (pOut + datalen) 0 (16 - datalen % 16) (memmove pOut pIn datalen m))
  have hfits : ¬ room < (datalen + 16) % 2 ^ 32 := by omega
  have hmod : (16 * n) % 2 ^ 32 = 16 * n := Nat.mod_eq_of_lt (by omega)
  have hencrypted : utilsAesCbc pIn datalen pOut room 1 key keybits iv m = (0, iv', m') := by
    unfold utilsAesCbc
    rw [if_pos rfl, henc]
    dsimp only
    rw [if_neg (not_not.mpr rfl), if_neg hfits, hn, hmod, hcbc]
    rfl
  rw [hencrypted]
  refine ⟨rfl, fun i hi => ?_, fun k q room' m1 hsame => ?_⟩
  · change m' i = m i
    rw [hframe i hi, memset_outside (by omega), memmove_outside (by omega)]
  · obtain ⟨iv'', m'', hcbc', hbytes, hframe'⟩ := hrestored k q m1 hsame
    have hdecrypted : utilsAesCbc q (16 * n + 16 * k) q room' 0 key keybits iv m1 =
        (0, iv'', m'') := by
      unfold utilsAesCbc
      rw [if_neg (by decide), hdec]
      dsimp only
      rw [if_neg (not_not.mpr rfl), ← Nat.mul_add, hcbc']
      rfl
    rw [hdecrypted]
    exact ⟨rfl, slice_eq_slice _ hbytes, fun i hi => hframe' i (by omega)⟩

/-- In place the text is read with its padding. -/
theorem slice_padded (p datalen : ℕ) (m : ℕ → UInt8) :
    slice (memset (p + datalen) 0 (16 - datalen % 16) (memmove p p datalen m)) p
        (p + (datalen + (16 - datalen % 16))) =
      slice m p (p + datalen) ++ List.replicate (16 - datalen % 16) 0 := by
  rw [← Nat.add_assoc, ← slice_append _ (Nat.le_add_right p datalen) (Nat.le_add_right _ _),
    slice_memset, slice_memset_outside (Or.inl le_rfl), slice_memmove]

/-- In place a text comes back with the zeros that it was padded with. -/
theorem aes_cbc_in_place (key : ℕ → UInt8)
    (hbits : keybits = 128 ∨ keybits = 192 ∨ keybits = 256) {p datalen room : ℕ}
    (hroom : datalen + 16 ≤ room) (hword : room < 2 ^ 32) (iv m : ℕ → UInt8) :
    let total := datalen + (16 - datalen % 16)
    let enc := utilsAesCbc p datalen p room 1 key keybits iv m
    let dec := utilsAesCbc p total p room 0 key keybits iv enc.2.2
    enc.1 = 0 ∧ dec.1 = 0 ∧ slice dec.2.2 p (p + total) =
        slice m p (p + datalen) ++ List.replicate (16 - datalen % 16) 0 ∧
      ∀ i, i < p ∨ p + total ≤ i → dec.2.2 i = m i := by
  obtain ⟨henc, hframe, hrestored⟩ :=
    aesCbc_restores key hbits hroom hword (Or.inl (le_refl p)) iv m
  obtain ⟨hdec, hslice, hframe'⟩ := hrestored 0 p room _ fun i _ => rfl
  exact ⟨henc, hdec, hslice.trans (slice_padded p datalen m),
    fun i hi => (hframe' i hi).trans (hframe i hi)⟩

theorem aes_cbc_in_place_hello :
    let enc := utilsAesCbc 0 5 0 32 1 (fun _ => 0x6B) 128 (fun _ => 0x30) fun _ => 0x61
    let dec := utilsAesCbc 0 16 0 32 0 (fun _ => 0x6B) 128 (fun _ => 0x30) enc.2.2
    enc.1 = 0 ∧ dec.1 = 0 ∧
      slice dec.2.2 0 16 = slice (fun _ => 0x61) 0 5 ++ List.replicate 11 0 ∧
      ∀ i, i < 0 ∨ 16 ≤ i → dec.2.2 i = 0x61 :=
  @aes_cbc_in_place 128 (fun _ => 0x6B) (Or.inl rfl) 0 5 32 (by decide) (by decide)
    (fun _ => 0x30) fun _ => 0x61

/-- In another place it is padded with what is behind it, whatever that is. -/
theorem aes_cbc_elsewhere_iff (key : ℕ → UInt8)
    (hbits : keybits = 128 ∨ keybits = 192 ∨ keybits = 256) {pIn pOut datalen room : ℕ}
    (hroom : datalen + 16 ≤ room) (hword : room < 2 ^ 32)
    (hapart : pOut + (datalen + (16 - datalen % 16)) ≤ pIn ∨
      pIn + (datalen + (16 - datalen % 16)) ≤ pOut) (iv m : ℕ → UInt8) :
    let total := datalen + (16 - datalen % 16)
    let enc := utilsAesCbc pIn datalen pOut room 1 key keybits iv m
    let dec := utilsAesCbc pOut total pOut room 0 key keybits iv enc.2.2
    enc.1 = 0 ∧ dec.1 = 0 ∧
      (slice dec.2.2 pOut (pOut + total) =
          slice m pIn (pIn + datalen) ++ List.replicate (16 - datalen % 16) 0 ↔
        ∀ i, pIn + datalen ≤ i → i < pIn + total → m i = 0) := by
  obtain ⟨henc, -, hrestored⟩ := aesCbc_restores key hbits hroom hword
    (hapart.imp (fun h => by omega) id) iv m
  obtain ⟨hdec, hslice, -⟩ := hrestored 0 pOut room _ fun i _ => rfl
  refine ⟨henc, hdec, (iff_of_eq (congrArg (· = _) hslice)).trans ?_⟩
  rw [slice_memset_outside (by omega), slice_memmove_outside (by omega),
    ← slice_append m (Nat.le_add_right pIn datalen) (by omega), List.append_cancel_left_eq,
    List.eq_replicate_iff, length_slice]
  constructor
  · rintro ⟨-, hzero⟩ i hi hi'
    exact hzero _ (mem_slice.mpr ⟨i, hi, hi', rfl⟩)
  · intro hzero
    refine ⟨by omega, fun b hb => ?_⟩
    obtain ⟨i, hi, hi', rfl⟩ := mem_slice.mp hb
    exact hzero i hi hi'

/-- Five bytes with zeros behind them. -/
theorem aes_cbc_elsewhere_iff_zeros :
    let m : ℕ → UInt8 := fun i => if i < 5 then 0x61 else 0
    let enc := utilsAesCbc 0 5 16 32 1 (fun _ => 0x6B) 128 (fun _ => 0x30) m
    let dec := utilsAesCbc 16 16 16 32 0 (fun _ => 0x6B) 128 (fun _ => 0x30) enc.2.2
    enc.1 = 0 ∧ dec.1 = 0 ∧ slice dec.2.2 16 32 = slice m 0 5 ++ List.replicate 11 0 := by
  obtain ⟨henc, hdec, hiff⟩ := @aes_cbc_elsewhere_iff 128 (fun _ => 0x6B) (Or.inl rfl) 0 16 5 32
    (by decide) (by decide) (Or.inr (by decide)) (fun _ => 0x30) fun i => if i < 5 then 0x61 else 0
  exact ⟨henc, hdec, hiff.mpr fun i hi _ => if_neg (by omega)⟩

end RoundTrip

end IotExplorer.AesCbc
