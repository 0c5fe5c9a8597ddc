import IotExplorer.AesStandard

/-!
The AES functions on a context and a block. The words of the round keys are read one behind
the other while the rounds look the mixed columns up in the tables; the keys for decryption are
those for encryption in the other order, unmixed. With the key of the standard this is its
cipher, and decryption undoes encryption.
-/
namespace IotExplorer.AesCipher

open Basis.ByteField Basis.ByteWords Basis.BlockCiphers AesTables AesStandard

section Keys

def getUint32Le (b : ℕ → UInt8) (i : ℕ) : UInt32 :=
  (b i).toUInt32 ||| (b (i + 1)).toUInt32 <<< 8 ||| (b (i + 2)).toUInt32 <<< 16 |||
    (b (i + 3)).toUInt32 <<< 24

def putUint32Le (n : UInt32) : List UInt8 :=
  [n.toUInt8, (n >>> 8).toUInt8, (n >>> 16).toUInt8, (n >>> 24).toUInt8]

/-- `utils_aes_context`; `rk` is the start of `buf`. -/
structure Context where
  nr : ℕ
  buf : ℕ → UInt32

def utilsAesInit : Context := ⟨0, fun _ => 0⟩

/-- The bytes of a word in the forward box, turned. -/
def boxTurned (w : UInt32) : UInt32 :=
  (fsb (w >>> 8).toUInt8).toUInt32 ^^^ (fsb (w >>> 16).toUInt8).toUInt32 <<< 8 ^^^
    (fsb (w >>> 24).toUInt8).toUInt32 <<< 16 ^^^ (fsb w.toUInt8).toUInt32 <<< 24

/-- The bytes of a word in the forward box. -/
def boxWord (w : UInt32) : UInt32 :=
  (fsb w.toUInt8).toUInt32 ^^^ (fsb (w >>> 8).toUInt8).toUInt32 <<< 8 ^^^
    (fsb (w >>> 16).toUInt8).toUInt32 <<< 16 ^^^ (fsb (w >>> 24).toUInt8).toUInt32 <<< 24

def loadKey (key : ℕ → UInt8) : ℕ → (ℕ → UInt32) → ℕ → UInt32
  | 0, buf => buf
  | n + 1, buf => Function.update (loadKey key n buf) n (getUint32Le key (n <<< 2))

/-- Words that are the sum of the last one and that of one key before. -/
def sumWords (nk start : ℕ) : ℕ → (ℕ → UInt32) → ℕ → UInt32
  | 0, buf => buf
  | n + 1, buf =>
      let buf := sumWords nk start n buf
      Function.update buf (start + n) (buf (start + n - nk) ^^^ buf (start + n - 1))

/-- A round of the key schedule at `RK`, for 10 and 12 rounds of the cipher. -/
def expandKey (nk : ℕ) (buf : ℕ → UInt32) (i : ℕ) : ℕ → UInt32 :=
  let rk := nk * i
  let buf := Function.update buf (rk + nk) (buf rk ^^^ rcon i ^^^ boxTurned (buf (rk + nk - 1)))
  sumWords nk (rk + nk + 1) (nk - 1) buf

/-- A round for 14 rounds of the cipher. -/
def expandLongKey (buf : ℕ → UInt32) (i : ℕ) : ℕ → UInt32 :=
  let rk := 8 * i
  let buf := Function.update buf (rk + 8) (buf rk ^^^ rcon i ^^^ boxTurned (buf (rk + 7)))
  let buf := sumWords 8 (rk + 9) 3 buf
  let buf := Function.update buf (rk + 12) (buf (rk + 4) ^^^ boxWord (buf (rk + 11)))
  sumWords 8 (rk + 13) 3 buf

def utilsAesSetkeyEnc (ctx : Context) (key : ℕ → UInt8) (keybits : ℕ) : ℤ × Context :=
  if keybits = 128 then
    (0, ⟨10, (List.range 10).foldl (expandKey 4) (loadKey key (keybits >>> 5) ctx.buf)⟩)
  else if keybits = 192 then
    (0, ⟨12, (List.range 8).foldl (expandKey 6) (loadKey key (keybits >>> 5) ctx.buf)⟩)
  else if keybits = 256 then
    (0, ⟨14, (List.range 7).foldl expandLongKey (loadKey key (keybits >>> 5) ctx.buf)⟩)
  else (-0x0020, ctx)

/-- Four words from `SK` to `RK`. -/
def copyWords (f : UInt32 → UInt32) (sk : ℕ → UInt32) (s r : ℕ) (buf : ℕ → UInt32) : ℕ → UInt32 :=
  let buf := Function.update buf r (f (sk s))
  let buf := Function.update buf (r + 1) (f (sk (s + 1)))
  let buf := Function.update buf (r + 2) (f (sk (s + 2)))
  Function.update buf (r + 3) (f (sk (s + 3)))

/-- The reverse tables at the box of each byte. -/
def unboxed (w : UInt32) : UInt32 :=
  rt0 (fsb w.toUInt8) ^^^ rt1 (fsb (w >>> 8).toUInt8) ^^^ rt2 (fsb (w >>> 16).toUInt8) ^^^
    rt3 (fsb (w >>> 24).toUInt8)

/-- The loop over the middle keys, and the copy of the last words. -/
def reverseKeys (sk : ℕ → UInt32) : ℕ → ℕ → ℕ → (ℕ → UInt32) → ℕ → UInt32
  | 0, s, r, buf => copyWords (fun w => w) sk s r buf
  | i + 1, s, r, buf => reverseKeys sk i (s + 4 - 8) (r + 4) (copyWords unboxed sk s r buf)

def utilsAesSetkeyDec (ctx : Context) (key : ℕ → UInt8) (keybits : ℕ) : ℤ × Context :=
  let (ret, cty) := utilsAesSetkeyEnc utilsAesInit key keybits
  if ret ≠ 0 then (ret, ctx)
  else
    let sk := cty.nr * 4
    (ret, ⟨cty.nr, reverseKeys cty.buf (cty.nr - 1) (sk + 4 - 8) 4
      (copyWords (fun w => w) cty.buf sk 0 ctx.buf)⟩)

end Keys

section Blocks

/-- A column of `AES_FROUND`. -/
def fcolumn (key y0 y1 y2 y3 : UInt32) : UInt32 :=
  key ^^^ ft0 y0.toUInt8 ^^^ ft1 (y1 >>> 8).toUInt8 ^^^ ft2 (y2 >>> 16).toUInt8 ^^^
    ft3 (y3 >>> 24).toUInt8

/-- `AES_FROUND`, with the keys at `RK`. -/
def fround (buf : ℕ → UInt32) (rk : ℕ) (y : Block) : Block :=
  ⟨fcolumn (buf rk) y.x0 y.x1 y.x2 y.x3, fcolumn (buf (rk + 1)) y.x1 y.x2 y.x3 y.x0,
    fcolumn (buf (rk + 2)) y.x2 y.x3 y.x0 y.x1, fcolumn (buf (rk + 3)) y.x3 y.x0 y.x1 y.x2⟩

/-- A column of `AES_RROUND`. -/
def rcolumn (key y0 y1 y2 y3 : UInt32) : UInt32 :=
  key ^^^ rt0 y0.toUInt8 ^^^ rt1 (y1 >>> 8).toUInt8 ^^^ rt2 (y2 >>> 16).toUInt8 ^^^
    rt3 (y3 >>> 24).toUInt8

/-- `AES_RROUND`. -/
def rround (buf : ℕ → UInt32) (rk : ℕ) (y : Block) : Block :=
  ⟨rcolumn (buf rk) y.x0 y.x3 y.x2 y.x1, rcolumn (buf (rk + 1)) y.x1 y.x0 y.x3 y.x2,
    rcolumn (buf (rk + 2)) y.x2 y.x1 y.x0 y.x3, rcolumn (buf (rk + 3)) y.x3 y.x2 y.x1 y.x0⟩

def roundLoop (round : ℕ → Block → Block) : ℕ → ℕ → Block → Block
  | 0, _, x => x
  | i + 1, rk, x => roundLoop round i (rk + 8) (round (rk + 4) (round rk x))

/-- A column of the last round, in a box. -/
def lastColumn (box : UInt8 → UInt8) (key y0 y1 y2 y3 : UInt32) : UInt32 :=
  key ^^^ (box y0.toUInt8).toUInt32 ^^^ (box (y1 >>> 8).toUInt8).toUInt32 <<< 8 ^^^
    (box (y2 >>> 16).toUInt8).toUInt32 <<< 16 ^^^ (box (y3 >>> 24).toUInt8).toUInt32 <<< 24

/-- The block of an input, with the first words of the key. -/
def firstBlock (buf : ℕ → UInt32) (input : ℕ → UInt8) : Block :=
  ⟨getUint32Le input 0 ^^^ buf 0, getUint32Le input 4 ^^^ buf 1, getUint32Le input 8 ^^^ buf 2,
    getUint32Le input 12 ^^^ buf 3⟩

def output (x : Block) : List UInt8 :=
  putUint32Le x.x0 ++ putUint32Le x.x1 ++ putUint32Le x.x2 ++ putUint32Le x.x3

def utilsInternalAesEncrypt (ctx : Context) (input : ℕ → UInt8) : List UInt8 :=
  let i := (ctx.nr >>> 1) - 1
  let y := fround ctx.buf (4 + 8 * i) (roundLoop (fround ctx.buf) i 4 (firstBlock ctx.buf input))
  let rk := 8 + 8 * i
  output ⟨lastColumn fsb (ctx.buf rk) y.x0 y.x1 y.x2 y.x3,
    lastColumn fsb (ctx.buf (rk + 1)) y.x1 y.x2 y.x3 y.x0,
    lastColumn fsb (ctx.buf (rk + 2)) y.x2 y.x3 y.x0 y.x1,
    lastColumn fsb (ctx.buf (rk + 3)) y.x3 y.x0 y.x1 y.x2⟩

def utilsInternalAesDecrypt (ctx : Context) (input : ℕ → UInt8) : List UInt8 :=
  let i := (ctx.nr >>> 1) - 1
  let y := rround ctx.buf (4 + 8 * i) (roundLoop (rround ctx.buf) i 4 (firstBlock ctx.buf input))
  let rk := 8 + 8 * i
  output ⟨lastColumn rsb (ctx.buf rk) y.x0 y.x3 y.x2 y.x1,
    lastColumn rsb (ctx.buf (rk + 1)) y.x1 y.x0 y.x3 y.x2,
    lastColumn rsb (ctx.buf (rk + 2)) y.x2 y.x1 y.x0 y.x3,
    lastColumn rsb (ctx.buf (rk + 3)) y.x3 y.x2 y.x1 y.x0⟩

end Blocks

section Columns

theorem mul_two (x : UInt8) : mul 0x02 x = double x := by
  have h := double_mul 1 x
  rwa [one_mul] at h

theorem mul_three (x : UInt8) : mul 0x03 x = triple x := by
  have h := triple_mul 1 x
  rwa [one_mul] at h

theorem rotl8_word (a b c d : UInt8) : rotl8 (word a b c d) = word d a b c := word_rotate a b c d

/-- The forward tables have the columns of the mixing. -/
theorem ft_eq (i : UInt8) :
    ft0 i = word (mul 0x02 (fsb i)) (fsb i) (fsb i) (mul 0x03 (fsb i)) ∧
    ft1 i = word (mul 0x03 (fsb i)) (mul 0x02 (fsb i)) (fsb i) (fsb i) ∧
    ft2 i = word (fsb i) (mul 0x03 (fsb i)) (mul 0x02 (fsb i)) (fsb i) ∧
    ft3 i = word (fsb i) (fsb i) (mul 0x03 (fsb i)) (mul 0x02 (fsb i)) := by
  have h0 : ft0 i = word (mul 0x02 (fsb i)) (fsb i) (fsb i) (mul 0x03 (fsb i)) := by
    rw [ft0, xtime_eq, mul_two, mul_three, triple, UInt8.xor_comm (fsb i)]
    rfl
  have h1 : ft1 i = word (mul 0x03 (fsb i)) (mul 0x02 (fsb i)) (fsb i) (fsb i) := by
    rw [ft1, h0, rotl8_word]
  have h2 : ft2 i = word (fsb i) (mul 0x03 (fsb i)) (mul 0x02 (fsb i)) (fsb i) := by
    rw [ft2, h1, rotl8_word]
  exact ⟨h0, h1, h2, by rw [ft3, h2, rotl8_word]⟩

/-- The reverse tables have the columns of what undoes it. -/
theorem rt_eq (i : UInt8) :
    rt0 i = word (mul 0x0E (rsb i)) (mul 0x09 (rsb i)) (mul 0x0D (rsb i)) (mul 0x0B (rsb i)) ∧
    rt1 i = word (mul 0x0B (rsb i)) (mul 0x0E (rsb i)) (mul 0x09 (rsb i)) (mul 0x0D (rsb i)) ∧
    rt2 i = word (mul 0x0D (rsb i)) (mul 0x0B (rsb i)) (mul 0x0E (rsb i)) (mul 0x09 (rsb i)) ∧
    rt3 i = word (mul 0x09 (rsb i)) (mul 0x0D (rsb i)) (mul 0x0B (rsb i)) (mul 0x0E (rsb i)) := by
  have h0 : rt0 i =
      word (mul 0x0E (rsb i)) (mul 0x09 (rsb i)) (mul 0x0D (rsb i)) (mul 0x0B (rsb i)) := by
    rw [rt0, mulTable_eq, mulTable_eq, mulTable_eq, mulTable_eq]
    rfl
  have h1 : rt1 i =
      word (mul 0x0B (rsb i)) (mul 0x0E (rsb i)) (mul 0x09 (rsb i)) (mul 0x0D (rsb i)) := by
    rw [rt1, h0, rotl8_word]
  have h2 : rt2 i =
      word (mul 0x0D (rsb i)) (mul 0x0B (rsb i)) (mul 0x0E (rsb i)) (mul 0x09 (rsb i)) := by
    rw [rt2, h1, rotl8_word]
  exact ⟨h0, h1, h2, by rw [rt3, h2, rotl8_word]⟩

theorem key_last (key a b c d : UInt32) :
    key ^^^ a ^^^ b ^^^ c ^^^ d = a ^^^ b ^^^ c ^^^ d ^^^ key := by
  ac_rfl

theorem fcolumn_eq (key y0 y1 y2 y3 : UInt32) :
    fcolumn key y0 y1 y2 y3 = mixColumn (word (fsb y0.toUInt8) (fsb (y1 >>> 8).toUInt8)
      (fsb (y2 >>> 16).toUInt8) (fsb (y3 >>> 24).toUInt8)) ^^^ key := by
  rw [fcolumn, key_last, (ft_eq _).1, (ft_eq _).2.1, (ft_eq _).2.2.1, (ft_eq _).2.2.2, word_xor,
    word_xor, word_xor, mixColumn, circulant]
  simp only [word_byte0, word_byte1, word_byte2, word_byte3, one_mul]

theorem rcolumn_eq (key y0 y1 y2 y3 : UInt32) :
    rcolumn key y0 y1 y2 y3 = unmixColumn (word (rsb y0.toUInt8) (rsb (y1 >>> 8).toUInt8)
      (rsb (y2 >>> 16).toUInt8) (rsb (y3 >>> 24).toUInt8)) ^^^ key := by
  rw [rcolumn, key_last, (rt_eq _).1, (rt_eq _).2.1, (rt_eq _).2.2.1, (rt_eq _).2.2.2, word_xor,
    word_xor, word_xor, unmixColumn, circulant]
  simp only [word_byte0, word_byte1, word_byte2, word_byte3]

theorem lastColumn_eq (box : UInt8 → UInt8) (key y0 y1 y2 y3 : UInt32) :
    lastColumn box key y0 y1 y2 y3 = word (box y0.toUInt8) (box (y1 >>> 8).toUInt8)
      (box (y2 >>> 16).toUInt8) (box (y3 >>> 24).toUInt8) ^^^ key := by
  rw [lastColumn, key_last, word]

end Columns

section Rounds

def inputBlock (input : ℕ → UInt8) : Block :=
  ⟨getUint32Le input 0, getUint32Le input 4, getUint32Le input 8, getUint32Le input 12⟩

theorem fround_eq (buf : ℕ → UInt32) (r : ℕ) (y : Block) :
    fround buf (4 * r) y = Block.add ((mix ∘ substitute fsb) y) (roundKey buf r) := by
  simp only [fround, fcolumn_eq, Function.comp_apply, mix, substitute, shiftRows, Block.map,
    Block.add, roundKey, subWord, word_byte0, word_byte1, word_byte2, word_byte3]

theorem rround_eq (buf : ℕ → UInt32) (r : ℕ) (y : Block) :
    rround buf (4 * r) y = Block.add ((unmix ∘ unsubstitute rsb) y) (roundKey buf r) := by
  simp only [rround, rcolumn_eq, Function.comp_apply, unmix, unsubstitute, unshiftRows, Block.map,
    Block.add, roundKey, subWord, word_byte0, word_byte1, word_byte2, word_byte3]

/-- The loop does an even number of rounds, each with the next key. -/
theorem roundLoop_eq {round : ℕ → Block → Block} {f : Block → Block} {buf : ℕ → UInt32}
    (h : ∀ r y, round (4 * r) y = Block.add (f y) (roundKey buf r)) (i r : ℕ) (x : Block) :
    roundLoop round i (4 * r) x =
      rounds Block.add f ((List.range' r (2 * i)).map (roundKey buf)) x := by
  induction i generalizing r x with
  | zero => rfl
  | succ i ih =>
    have hnext : 4 * r + 8 = 4 * (r + 2) := by omega
    have hsecond : 4 * r + 4 = 4 * (r + 1) := by omega
    rw [roundLoop, hnext, hsecond, ih, h, h, Nat.mul_succ, List.range'_succ, List.range'_succ]
    rfl

/-- All rounds with the middle keys, one behind the loop. -/
theorem roundLoop_middle {round : ℕ → Block → Block} {f : Block → Block} {buf : ℕ → UInt32}
    (h : ∀ r y, round (4 * r) y = Block.add (f y) (roundKey buf r)) (i : ℕ) (x : Block) :
    round (4 + 8 * i) (roundLoop round i 4 x) =
      rounds Block.add f (middleKeys buf (2 * (i + 1))) x := by
  have hloop := roundLoop_eq h i 1 x
  have hlast : 4 + 8 * i = 4 * (1 + 2 * i) := by omega
  have hkeys : middleKeys buf (2 * (i + 1)) =
      (List.range' 1 (2 * i)).map (roundKey buf) ++ [roundKey buf (1 + 2 * i)] := by
    rw [middleKeys, show 2 * (i + 1) - 1 = 2 * i + 1 by omega, List.range'_1_concat,
      List.map_append]
    rfl
  rw [hlast, h, hkeys, rounds_concat, ← hloop]

theorem half_eq (i : ℕ) : ((2 * (i + 1)) >>> 1) - 1 = i := by
  rw [Nat.shiftRight_eq_div_pow]
  omega

/-- With the tables an encryption is the cipher with the words of the context. -/
theorem encrypt_eq (ctx : Context) (input : ℕ → UInt8) {i : ℕ} (h : ctx.nr = 2 * (i + 1)) :
    utilsInternalAesEncrypt ctx input =
      output (cipherWith fsb ctx.nr ctx.buf (inputBlock input)) := by
  have hrounds := roundLoop_middle (fround_eq ctx.buf) i (firstBlock ctx.buf input)
  have hlast : 8 + 8 * i = 4 * (2 * (i + 1)) := by omega
  rw [utilsInternalAesEncrypt, h, half_eq]
  rw [hrounds, hlast]
  simp only [lastColumn_eq, cipherWith, alternate, substitute, shiftRows, Block.map, Block.add,
    roundKey, subWord, word_byte0, word_byte1, word_byte2, word_byte3]
  rfl

/-- With the tables a decryption goes through rounds of the same form. -/
theorem decrypt_eq (ctx : Context) (input : ℕ → UInt8) {i : ℕ} (h : ctx.nr = 2 * (i + 1)) :
    utilsInternalAesDecrypt ctx input =
      output (alternate Block.add (unmix ∘ unsubstitute rsb) (unsubstitute rsb)
        (roundKey ctx.buf 0) (middleKeys ctx.buf ctx.nr) (roundKey ctx.buf ctx.nr)
        (inputBlock input)) := by
  have hrounds := roundLoop_middle (rround_eq ctx.buf) i (firstBlock ctx.buf input)
  have hlast : 8 + 8 * i = 4 * (2 * (i + 1)) := by omega
  rw [utilsInternalAesDecrypt, h, half_eq]
  rw [hrounds, hlast]
  simp only [lastColumn_eq, alternate, unsubstitute, unshiftRows, Block.map, Block.add, roundKey,
    subWord, word_byte0, word_byte1, word_byte2, word_byte3]
  rfl

end Rounds

section Schedule
variable {nk : ℕ} {key : ℕ → UInt32} {buf : ℕ → UInt32}

theorem boxTurned_eq (w : UInt32) : boxTurned w = subWord box (rotWord w) := by
  rw [boxTurned, subWord, rotWord, fsb_eq_box]
  simp only [word_byte0, word_byte1, word_byte2, word_byte3]
  rfl

theorem boxWord_eq (w : UInt32) : boxWord w = subWord box w := by
  rw [boxWord, subWord, fsb_eq_box]
  rfl

theorem getUint32Le_eq (b : ℕ → UInt8) (i : ℕ) :
    getUint32Le b i = word (b i) (b (i + 1)) (b (i + 2)) (b (i + 3)) :=
  word_or ..

/-- The first words of the buffer are those of the key schedule. -/
def Filled (nk : ℕ) (key buf : ℕ → UInt32) (n : ℕ) : Prop := ∀ i < n, buf i = scheduleWord nk key i

theorem Filled.write {n : ℕ} {w : UInt32} (h : Filled nk key buf n)
    (hw : w = scheduleWord nk key n) : Filled nk key (Function.update buf n w) (n + 1) := by
  intro i hi
  by_cases heq : i = n
  · rw [heq, Function.update_self, hw]
  · rw [Function.update_of_ne heq]
    exact h i (by omega)

theorem filled_loadKey (k : ℕ → UInt8) {n : ℕ} (hn : n ≤ nk) :
    Filled nk (fun i => getUint32Le k (4 * i)) (loadKey k n buf) n := by
  induction n with
  | zero => exact fun i hi => absurd hi (Nat.not_lt_zero i)
  | succ n ih =>
    refine (ih (by omega)).write ?_
    rw [scheduleWord_key hn, Nat.shiftLeft_eq, Nat.mul_comm]

/-- Words that are sums. -/
theorem filled_sumWords {start n : ℕ} (h : Filled nk key buf start) (hnk : 0 < nk)
    (hstart : nk ≤ start)
    (hplain : ∀ i < n, (start + i) % nk ≠ 0 ∧ ¬ (6 < nk ∧ (start + i) % nk = 4)) :
    Filled nk key (sumWords nk start n buf) (start + n) := by
  induction n with
  | zero => exact h
  | succ n ih =>
    have hfilled := ih fun i hi => hplain i (by omega)
    obtain ⟨hzero, hfour⟩ := hplain n (by omega)
    refine hfilled.write ?_
    rw [scheduleWord_sum hnk (by omega) hzero hfour, hfilled _ (by omega), hfilled _ (by omega)]

/-- The first word of a round. -/
theorem first_word {i : ℕ} (hnk : 0 < nk) (h : Filled nk key buf (nk * (i + 1))) :
    buf (nk * i) ^^^ rcon i ^^^ boxTurned (buf (nk * i + nk - 1)) =
      scheduleWord nk key (nk * i + nk) := by
  have hmod : (nk * i + nk) % nk = 0 := by rw [Nat.add_mod_right, Nat.mul_mod_right]
  have hdiv : (nk * i + nk) / nk - 1 = i := by
    rw [Nat.add_div_right _ hnk, Nat.mul_div_cancel_left i hnk, Nat.succ_sub_one]
  have hrcon : rcon i = (double^[i] 1).toUInt32 := by
    rw [rcon]
    congr 2
    funext x
    exact xtime_eq x
  rw [Nat.mul_succ] at h
  rw [scheduleWord_first hnk (by omega) hmod, hdiv, h _ (by omega), h _ (by omega),
    Nat.add_sub_cancel, boxTurned_eq, hrcon, UInt32.xor_assoc,
    UInt32.xor_comm (double^[i] 1).toUInt32]

theorem filled_expandKey {i : ℕ} (hnk : 0 < nk) (hshort : nk ≤ 6)
    (h : Filled nk key buf (nk * (i + 1))) :
    Filled nk key (expandKey nk buf i) (nk * (i + 2)) := by
  have hfirst := first_word hnk h
  have hnext : nk * (i + 1) = nk * i + nk := Nat.mul_succ nk i
  have hend : nk * (i + 2) = nk * i + nk + 1 + (nk - 1) := by
    rw [Nat.mul_succ, hnext]
    omega
  rw [hnext] at h
  rw [hend]
  refine filled_sumWords (h.write hfirst) hnk (by omega) fun j hj => ⟨?_, by omega⟩
  have hmod : (nk * i + nk + 1 + j) % nk = 1 + j := by
    rw [Nat.add_assoc, Nat.add_assoc, Nat.mul_add_mod, Nat.add_mod_left,
      Nat.mod_eq_of_lt (by omega)]
  omega

theorem filled_expandLongKey {i : ℕ} (h : Filled 8 key buf (8 * (i + 1))) :
    Filled 8 key (expandLongKey buf i) (8 * (i + 2)) := by
  have hbox {buf : ℕ → UInt32} (h : Filled 8 key buf (8 * i + 12)) :
      buf (8 * i + 4) ^^^ boxWord (buf (8 * i + 11)) = scheduleWord 8 key (8 * i + 12) := by
    rw [scheduleWord_box (by decide) (by omega) (by omega), h _ (by omega), h _ (by omega),
      boxWord_eq]
    rfl
  have hfront := filled_sumWords (n := 3) (h.write (first_word (by decide) h)) (by decide)
    (by omega) fun j hj => ⟨by omega, by omega⟩
  exact filled_sumWords (n := 3) (hfront.write (hbox hfront)) (by decide) (by omega)
    fun j hj => ⟨by omega, by omega⟩

/-- The buffer after the key is expanded in so many rounds. -/
theorem filled_foldl {expand : (ℕ → UInt32) → ℕ → ℕ → UInt32} (n : ℕ)
    (hstep : ∀ i buf, Filled nk key buf (nk * (i + 1)) →
      Filled nk key (expand buf i) (nk * (i + 2))) (h : Filled nk key buf nk) :
    Filled nk key ((List.range n).foldl expand buf) (nk * (n + 1)) := by
  induction n with
  | zero => rwa [Nat.mul_one]
  | succ n ih =>
    rw [List.range_succ, List.foldl_concat]
    exact hstep n _ ih

/-- The words of the round keys are those of the key schedule. -/
theorem setkeyEnc_spec {ctx : Context} {k : ℕ → UInt8} {keybits : ℕ}
    (h : (utilsAesSetkeyEnc ctx k keybits).1 = 0) :
    (keybits = 128 ∨ keybits = 192 ∨ keybits = 256) ∧
      (utilsAesSetkeyEnc ctx k keybits).2.nr = keybits / 32 + 6 ∧
      Filled (keybits / 32) (fun i => getUint32Le k (4 * i)) (utilsAesSetkeyEnc ctx k keybits).2.buf
        (4 * (keybits / 32 + 7)) := by
  have hmono {nk m n : ℕ} {key buf : ℕ → UInt32} (h : Filled nk key buf n) (hle : m ≤ n) :
      Filled nk key buf m := fun i hi => h i (by omega)
  unfold utilsAesSetkeyEnc at h ⊢
  split_ifs at h ⊢ with h4 h6 h8
  · rw [h4]
    exact ⟨Or.inl rfl, rfl, filled_foldl 10
      (fun i buf => filled_expandKey (by decide) (by decide)) (filled_loadKey k le_rfl)⟩
  · rw [h6]
    exact ⟨Or.inr (Or.inl rfl), rfl, hmono (filled_foldl 8
      (fun i buf => filled_expandKey (by decide) (by decide)) (filled_loadKey k le_rfl))
      (by decide)⟩
  · rw [h8]
    exact ⟨Or.inr (Or.inr rfl), rfl, hmono (filled_foldl 7
      (fun i buf => filled_expandLongKey) (filled_loadKey k le_rfl)) (by decide)⟩
  · exact absurd h (show (-0x0020 : ℤ) ≠ 0 by decide)

end Schedule

section ReverseKeys
variable {sk : ℕ → UInt32}

theorem unboxed_eq (w : UInt32) : unboxed w = unmixColumn w := by
  have h := rcolumn_eq 0 (subWord fsb w) (subWord fsb w) (subWord fsb w) (subWord fsb w)
  simp only [subWord, word_byte0, word_byte1, word_byte2, word_byte3, rsb_fsb, word_bytes,
    rcolumn, UInt32.xor_zero, UInt32.zero_xor] at h
  exact h

theorem roundKey_copyWords (f : UInt32 → UInt32) (sk : ℕ → UInt32) (s r : ℕ) (buf : ℕ → UInt32) :
    roundKey (copyWords f sk (4 * s) (4 * r) buf) r = (roundKey sk s).map f := by
  simp [roundKey, copyWords, Block.map]

theorem copyWords_outside {f : UInt32 → UInt32} {s r i : ℕ} {buf : ℕ → UInt32}
    (h : i < r ∨ r + 4 ≤ i) : copyWords f sk s r buf i = buf i := by
  unfold copyWords
  rw [Function.update_of_ne (by omega), Function.update_of_ne (by omega),
    Function.update_of_ne (by omega), Function.update_of_ne (by omega)]

theorem roundKey_copyWords_of_ne {f : UInt32 → UInt32} {s r q : ℕ} {buf : ℕ → UInt32}
    (h : q ≠ r) : roundKey (copyWords f sk s (4 * r) buf) q = roundKey buf q := by
  unfold roundKey
  rw [copyWords_outside (by omega), copyWords_outside (by omega), copyWords_outside (by omega),
    copyWords_outside (by omega)]

/-- The middle keys come unmixed and in the other order, then the first key. -/
theorem reverseKeys_spec (sk : ℕ → UInt32) (i r : ℕ) (buf : ℕ → UInt32) :
    (∀ q < r, roundKey (reverseKeys sk i (4 * i) (4 * r) buf) q = roundKey buf q) ∧
      (∀ j < i, roundKey (reverseKeys sk i (4 * i) (4 * r) buf) (r + j) =
        unmix (roundKey sk (i - j))) ∧
      roundKey (reverseKeys sk i (4 * i) (4 * r) buf) (r + i) = roundKey sk 0 := by
  induction i generalizing r buf with
  | zero =>
    refine ⟨fun q hq => roundKey_copyWords_of_ne (by omega), fun j hj => by omega, ?_⟩
    exact roundKey_copyWords (fun w => w) sk 0 r buf
  | succ i ih =>
    have hs : 4 * (i + 1) + 4 - 8 = 4 * i := by omega
    obtain ⟨hbefore, hkeys, hlast⟩ := ih (r + 1) (copyWords unboxed sk (4 * (i + 1)) (4 * r) buf)
    have hr : 4 * r + 4 = 4 * (r + 1) := by omega
    rw [reverseKeys, hs, hr]
    refine ⟨fun q hq => ?_, fun j hj => ?_, ?_⟩
    · rw [hbefore q (by omega), roundKey_copyWords_of_ne (by omega)]
    · cases j with
      | zero =>
        have hunboxed : unboxed = unmixColumn := funext unboxed_eq
        have hkey := hbefore r (by omega)
        rw [roundKey_copyWords] at hkey
        rw [unmix, Nat.sub_zero, ← hunboxed]
        exact hkey
      | succ j =>
        have hkey := hkeys j (by omega)
        rwa [Nat.add_assoc, Nat.add_comm 1 j, ← Nat.succ_sub_succ_eq_sub i j] at hkey
    · rwa [Nat.add_assoc, Nat.add_comm 1 i] at hlast

/-- The round keys of a buffer that has the key schedule. -/
theorem Filled.roundKeys {nk nr : ℕ} {key buf : ℕ → UInt32}
    (h : Filled nk key buf (4 * (nr + 1))) :
    (∀ r ≤ nr, roundKey buf r = roundKey (scheduleWord nk key) r) ∧
      middleKeys buf nr = middleKeys (scheduleWord nk key) nr := by
  have hkey (r : ℕ) (hr : r ≤ nr) : roundKey buf r = roundKey (scheduleWord nk key) r := by
    unfold roundKey
    rw [h _ (by omega), h _ (by omega), h _ (by omega), h _ (by omega)]
  refine ⟨hkey, List.map_congr_left fun r hr => ?_⟩
  obtain ⟨hle, hlt⟩ := List.mem_range'_1.mp hr
  exact hkey r (by omega)

/-- The keys for decryption are those for encryption in the other order, the middle ones
unmixed. -/
theorem reverseKeys_keys (sk : ℕ → UInt32) (n : ℕ) (buf : ℕ → UInt32) :
    let dec := reverseKeys sk n (4 * n) 4 (copyWords (fun w => w) sk (4 * (n + 1)) 0 buf)
    roundKey dec 0 = roundKey sk (n + 1) ∧
      middleKeys dec (n + 1) = (middleKeys sk (n + 1)).reverse.map unmix ∧
      roundKey dec (n + 1) = roundKey sk 0 := by
  obtain ⟨hfirst, hmiddle, hlast⟩ :=
    reverseKeys_spec sk n 1 (copyWords (fun w => w) sk (4 * (n + 1)) (4 * 0) buf)
  refine ⟨?_, ?_, ?_⟩
  · rw [hfirst 0 (by decide), roundKey_copyWords]
    rfl
  · apply List.ext_getElem
    · simp [middleKeys]
    · intro j hj hj'
      have hlt : j < n := by simpa [middleKeys] using hj
      have hindex : 1 + (n - 1 - j) = n - j := by omega
      have hkey := hmiddle j hlt
      simpa [middleKeys, hindex] using hkey
  · rwa [Nat.add_comm 1 n] at hlast

end ReverseKeys

section Cipher
variable {key : ℕ → UInt8} {keybits : ℕ}

theorem inputBlock_output (x : Block) : inputBlock (fun i => (output x).getD i 0) = x := by
  have hword (w : UInt32) :
      w.toUInt8.toUInt32 ||| (w >>> 8).toUInt8.toUInt32 <<< 8 |||
        (w >>> 16).toUInt8.toUInt32 <<< 16 ||| (w >>> 24).toUInt8.toUInt32 <<< 24 = w := by
    rw [word_or, word_bytes]
  have h0 := hword x.x0
  have h1 := hword x.x1
  have h2 := hword x.x2
  have h3 := hword x.x3
  simp only [inputBlock, getUint32Le, output, putUint32Le, List.cons_append, List.nil_append,
    List.getD_cons_zero, List.getD_cons_succ, h0, h1, h2, h3]

theorem output_inputBlock (input : ℕ → UInt8) :
    output (inputBlock input) = (List.range 16).map input := by
  simp only [output, inputBlock, putUint32Le, getUint32Le_eq, word_byte0, word_byte1, word_byte2,
    word_byte3]
  rfl

/-- An encryption with the tables and the expanded key is the cipher of the standard. -/
theorem aes_encrypt_standard (ctx : Context) (input : ℕ → UInt8)
    (h : (utilsAesSetkeyEnc ctx key keybits).1 = 0) :
    utilsInternalAesEncrypt (utilsAesSetkeyEnc ctx key keybits).2 input =
      output (cipher (keybits / 32) (fun i => getUint32Le key (4 * i)) (inputBlock input)) := by
  obtain ⟨hbits, hnr, hfilled⟩ := setkeyEnc_spec h
  obtain ⟨hkeys, hmiddle⟩ := @Filled.roundKeys _ (keybits / 32 + 6) _ _ hfilled
  have heven : keybits / 32 + 6 = 2 * ((keybits / 64 + 2) + 1) := by omega
  rw [encrypt_eq _ input (hnr.trans heven), hnr, cipher, cipherWith, cipherWith, hkeys 0 (by omega),
    hkeys _ le_rfl, hmiddle, fsb_eq_box]

theorem aes_encrypt_standard_zero :
    utilsInternalAesEncrypt (utilsAesSetkeyEnc utilsAesInit (fun _ => 0) 128).2 (fun _ => 0) =
      output (cipher (128 / 32) (fun i => getUint32Le (fun _ => 0) (4 * i))
        (inputBlock fun _ => 0)) :=
  aes_encrypt_standard utilsAesInit (fun _ => 0) rfl

/-- The context for decryption has the keys of the schedule in the other order, the middle ones
unmixed. -/
theorem setkeyDec_spec (ctx : Context) (key : ℕ → UInt8)
    (hbits : keybits = 128 ∨ keybits = 192 ∨ keybits = 256) :
    let nr := keybits / 32 + 6
    let w := scheduleWord (keybits / 32) fun i => getUint32Le key (4 * i)
    let dec := utilsAesSetkeyDec ctx key keybits
    dec.1 = 0 ∧ dec.2.nr = nr ∧ roundKey dec.2.buf 0 = roundKey w nr ∧
      middleKeys dec.2.buf nr = (middleKeys w nr).reverse.map unmix ∧
      roundKey dec.2.buf nr = roundKey w 0 := by
  have hzero : (utilsAesSetkeyEnc utilsAesInit key keybits).1 = 0 := by
    rcases hbits with rfl | rfl | rfl <;> rfl
  obtain ⟨-, hnr, hfilled⟩ := setkeyEnc_spec hzero
  obtain ⟨hkeys, hmiddle⟩ := @Filled.roundKeys _ (keybits / 32 + 6) _ _ hfilled
  obtain ⟨hfirst, hreverse, hlast⟩ :=
    reverseKeys_keys (utilsAesSetkeyEnc utilsAesInit key keybits).2.buf (keybits / 32 + 5) ctx.buf
  have hs : (keybits / 32 + 6) * 4 = 4 * (keybits / 32 + 5 + 1) := by omega
  have hnext : 4 * (keybits / 32 + 5 + 1) + 4 - 8 = 4 * (keybits / 32 + 5) := by omega
  have hdec : utilsAesSetkeyDec ctx key keybits = (0, ⟨keybits / 32 + 6,
      reverseKeys (utilsAesSetkeyEnc utilsAesInit key keybits).2.buf (keybits / 32 + 5)
        (4 * (keybits / 32 + 5)) 4 (copyWords (fun w => w)
          (utilsAesSetkeyEnc utilsAesInit key keybits).2.buf (4 * (keybits / 32 + 5 + 1)) 0
          ctx.buf)⟩) := by
    rw [utilsAesSetkeyDec]
    dsimp only
    rw [if_neg (not_not.mpr hzero), hzero, hnr, hs, hnext]
    rfl
  rw [hdec]
  exact ⟨rfl, rfl, hfirst.trans (hkeys _ le_rfl), hreverse.trans (by rw [hmiddle]),
    hlast.trans (hkeys 0 (by omega))⟩

/-- Both contexts of a key are made, and what they do to blocks undoes each other. -/
theorem exists_ciphers (ctx ctx' : Context) (key : ℕ → UInt8)
    (hbits : keybits = 128 ∨ keybits = 192 ∨ keybits = 256) :
    ∃ encrypt decrypt : Block → Block, (∀ x, decrypt (encrypt x) = x) ∧
      (utilsAesSetkeyEnc ctx key keybits).1 = 0 ∧ (utilsAesSetkeyDec ctx' key keybits).1 = 0 ∧
      (∀ b, utilsInternalAesEncrypt (utilsAesSetkeyEnc ctx key keybits).2 b =
        output (encrypt (inputBlock b))) ∧
      ∀ b, utilsInternalAesDecrypt (utilsAesSetkeyDec ctx' key keybits).2 b =
        output (decrypt (inputBlock b)) := by
  have hzero : (utilsAesSetkeyEnc ctx key keybits).1 = 0 := by
    rcases hbits with rfl | rfl | rfl <;> rfl
  obtain ⟨-, hnr, hfilled⟩ := setkeyEnc_spec hzero
  obtain ⟨hkeys, hmiddle⟩ := @Filled.roundKeys _ (keybits / 32 + 6) _ _ hfilled
  obtain ⟨hzero', hnr', hfirst, hreverse, hlast⟩ := setkeyDec_spec ctx' key hbits
  have heven : keybits / 32 + 6 = 2 * ((keybits / 64 + 2) + 1) := by omega
  have hinverse := alternate_inverse Block.add_add unsubstitute_substitute unmix_mix unmix_add
  refine ⟨_, _, fun x => ?_, hzero, hzero', fun b => encrypt_eq _ b (hnr.trans heven),
    fun b => decrypt_eq _ b (hnr'.trans heven)⟩
  rw [hnr', hnr, cipherWith, hkeys 0 (by omega), hkeys _ le_rfl, hmiddle, hfirst, hreverse, hlast,
    hinverse]

/-- A decryption undoes an encryption with the same key. -/
theorem aes_decrypt_encrypt (ctx ctx' : Context) (input : ℕ → UInt8)
    (h : (utilsAesSetkeyEnc ctx key keybits).1 = 0) :
    utilsInternalAesDecrypt (utilsAesSetkeyDec ctx' key keybits).2
        (fun i => (utilsInternalAesEncrypt (utilsAesSetkeyEnc ctx key keybits).2 input).getD i 0) =
      (List.range 16).map input := by
  obtain ⟨encrypt, decrypt, hinverse, -, -, hencrypt, hdecrypt⟩ :=
    exists_ciphers ctx ctx' key (setkeyEnc_spec h).1
  rw [hencrypt, hdecrypt, inputBlock_output, hinverse, output_inputBlock]

theorem aes_decrypt_encrypt_zero :
    utilsInternalAesDecrypt (utilsAesSetkeyDec utilsAesInit (fun _ => 0) 256).2 (fun i =>
        (utilsInternalAesEncrypt (utilsAesSetkeyEnc utilsAesInit (fun _ => 0) 256).2
          (fun _ => 0x61)).getD i 0) =
      (List.range 16).map fun _ => 0x61 :=
  aes_decrypt_encrypt utilsAesInit utilsAesInit (fun _ => 0x61) rfl

end Cipher

end IotExplorer.AesCipher
