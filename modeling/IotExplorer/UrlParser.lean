import IotExplorer.Basis.Memory
import IotExplorer.DeviceProperty
import IotExplorer.HttpDownload

/-!
`_http_client_parse_url` and `_http_client_parse_host`. Pointers into the URL are indices,
the lengths that the parsers compute from them are of type `uint32_t`, and what is
copied may reach beyond the URL's NUL into the memory behind it.
-/
namespace IotExplorer.UrlParser

open Basis.Memory TemplateJson
open DeviceProperty (CString)
open HttpClient (indexOf cstr)

section Parsers

def colon : UInt8 := 0x3A
def slash : UInt8 := 0x2F
def hash : UInt8 := 0x23
def separator : List UInt8 := [colon, slash, slash]

inductive ParseCode
  | success
  | httpParse
  deriving DecidableEq, Repr

/-- What `_http_client_parse_url` leaves: its code, the port if it is set, and the bytes that
are put in the three buffers, each from the front. -/
structure Parsed where
  code : ParseCode
  port : Option ℕ
  scheme : List UInt8
  host : List UInt8
  path : List UInt8
  deriving DecidableEq, Repr

/-- `strchr` from an index on. -/
def strchr (text : List UInt8) (start : ℕ) (c : UInt8) : Option ℕ :=
  ((text.drop start).findIdx? (· == c)).map (start + ·)

variable (url : CString) (behind : ℕ → UInt8)

/-- The memory from the URL on. -/
def memory : ℕ → UInt8 := memcpy 0 (url.val ++ [0]) behind

/-- `memcpy` of a part of the URL, and a NUL behind it. -/
def copied (start length : ℕ) : List UInt8 :=
  slice (memory url behind) start (start + length) ++ [0]

/-- `path_len`, from the first `/` of the path to the fragment or to the end. -/
def pathLength (hostPtr pathPtr : ℕ) : ℕ :=
  match strchr url.val hostPtr hash with
  | some fragmentPtr => (((fragmentPtr : ℤ) - pathPtr) % 2 ^ 32).toNat
  | none => (url.val.length - pathPtr) % 2 ^ 32

def httpClientParseUrl (maxSchemeLen maxhostLen maxPathLen : UInt32) : Parsed :=
  match indexOf separator url.val with
  | none => ⟨.httpParse, none, [], [], []⟩
  | some hostPtr =>
      if maxSchemeLen.toNat < hostPtr + 1 then ⟨.httpParse, none, [], [], []⟩
      else
        let scheme := copied url behind 0 hostPtr
        let hostPtr := hostPtr + 3
        match strchr url.val hostPtr slash with
        | none =>
            let hostLen := (url.val.length - hostPtr) % 2 ^ 32
            ⟨.success, some 0, scheme, copied url behind hostPtr hostLen, [slash, 0]⟩
        | some pathPtr =>
            let hostLen := (pathPtr - hostPtr) % 2 ^ 32
            if maxhostLen.toNat < (hostLen + 1) % 2 ^ 32 then ⟨.httpParse, some 0, scheme, [], []⟩
            else
              let host := copied url behind hostPtr hostLen
              let pathLen := pathLength url hostPtr pathPtr
              if maxPathLen.toNat < (pathLen + 1) % 2 ^ 32 then
                ⟨.httpParse, some 0, scheme, host, []⟩
              else ⟨.success, some 0, scheme, host, copied url behind pathPtr pathLen⟩

/-- `_http_client_parse_host`: its code and what is put in the buffer. -/
def httpClientParseHost (hostMaxLen : UInt32) : ParseCode × List UInt8 :=
  match indexOf separator url.val with
  | none => (.httpParse, [])
  | some hostPtr =>
      let hostPtr := hostPtr + 3
      let proLen := hostPtr % 2 ^ 32
      let hostLen :=
        match strchr url.val hostPtr slash with
        | some pathPtr => (pathPtr - hostPtr) % 2 ^ 32
        | none => (url.val.length - proLen) % 2 ^ 32
      if hostMaxLen.toNat < (hostLen + 1) % 2 ^ 32 then (.httpParse, [])
      else (.success, copied url behind hostPtr hostLen)

end Parsers

section Purpose

/-- The URL without its fragment. -/
def upToFragment (url : List UInt8) : List UInt8 := url.takeWhile (· != hash)

/-- Whether a `/` stands between `://` and the fragment. -/
def hasPath (url : List UInt8) : Bool :=
  match indexOf separator url with
  | none => false
  | some hostPtr => ((upToFragment url).drop (hostPtr + 3)).contains slash

/-- What scheme, host and path have to be together. -/
def wholeUrl (url : List UInt8) : List UInt8 :=
  if hasPath url then upToFragment url else upToFragment url ++ [slash]

/-- What a call of `_http_client_parse_url` owes its caller. -/
structure ParseRight (url : CString) (behind : ℕ → UInt8)
    (maxSchemeLen maxhostLen maxPathLen : UInt32) (parsed : Parsed) : Prop where
  scheme : parsed.scheme.length ≤ maxSchemeLen.toNat
  host : parsed.host.length ≤ maxhostLen.toNat
  path : parsed.path.length ≤ maxPathLen.toNat
  whole : parsed.code = .success →
    cstr parsed.scheme ++ separator ++ cstr parsed.host ++ cstr parsed.path = wholeUrl url.val
  parseHost : parsed.code = .success →
    ∃ host, httpClientParseHost url behind maxhostLen = (.success, host) ∧
      cstr host = cstr parsed.host

/-- The URLs and the sizes with which all goes well: without a `/` behind `://` the host, which
is not checked, fits, and so does the path, and there is no fragment (a host of 2^32 bytes or
more may end at it); with a `/`, host and path are refused or they fit and the fragment begins
behind that `/`. -/
def partsFit (url : CString) (maxSchemeLen maxhostLen maxPathLen : UInt32) : Prop :=
  match indexOf separator url.val with
  | none => True
  | some schemeLen =>
      maxSchemeLen.toNat < schemeLen + 1 ∨
        match strchr url.val (schemeLen + 3) slash with
        | none =>
            let hostLen := (url.val.length - (schemeLen + 3)) % 2 ^ 32
            hostLen + 1 ≤ maxhostLen.toNat ∧ 2 ≤ maxPathLen.toNat ∧
              (upToFragment url.val).length = schemeLen + 3 + hostLen
        | some pathPtr =>
            let hostLen := pathPtr - (schemeLen + 3)
            maxhostLen.toNat < (hostLen % 2 ^ 32 + 1) % 2 ^ 32 ∨
              hostLen % 2 ^ 32 + 1 ≤ maxhostLen.toNat ∧
                maxPathLen.toNat < (pathLength url (schemeLen + 3) pathPtr + 1) % 2 ^ 32 ∨
              hostLen + 1 ≤ maxhostLen.toNat ∧ pathPtr < (upToFragment url.val).length ∧
                (upToFragment url.val).length - pathPtr + 1 ≤ maxPathLen.toNat

end Purpose

section Places
variable {url : CString} (behind : ℕ → UInt8) {c : UInt8} {text : List UInt8} {start pos : ℕ}

theorem strchr_some (h : strchr text start c = some pos) :
    start ≤ pos ∧ text[pos]? = some c ∧ ∀ i, start ≤ i → i < pos → text[i]? ≠ some c := by
  rw [strchr, Option.map_eq_some_iff] at h
  obtain ⟨k, hk, rfl⟩ := h
  obtain ⟨hlt, hat, hbefore⟩ := List.findIdx?_eq_some_iff_getElem.mp hk
  refine ⟨Nat.le_add_right _ _, ?_, fun i hi hlt' hc => ?_⟩
  · rw [← List.getElem?_drop, List.getElem?_eq_getElem hlt, beq_iff_eq.mp hat]
  · obtain ⟨j, rfl⟩ := Nat.exists_eq_add_of_le hi
    have hj : j < k := by omega
    rw [← List.getElem?_drop, List.getElem?_eq_getElem (by omega)] at hc
    exact hbefore j hj (beq_iff_eq.mpr (Option.some.inj hc))

theorem strchr_none (h : strchr text start c = none) {i : ℕ} (hi : start ≤ i) :
    text[i]? ≠ some c := by
  rw [strchr, Option.map_eq_none_iff, List.findIdx?_eq_none_iff] at h
  obtain ⟨j, rfl⟩ := Nat.exists_eq_add_of_le hi
  rw [← List.getElem?_drop]
  intro hc
  exact absurd (h c (List.mem_of_getElem? hc)) (by simp)

theorem memory_of_getElem? {i : ℕ} (h : url.val[i]? = some c) :
    i < url.val.length ∧ memory url behind i = c := by
  obtain ⟨hlt, hc⟩ := List.getElem?_eq_some_iff.mp h
  refine ⟨hlt, ?_⟩
  have hin := memcpy_inside (d := 0) (m := behind) (l := url.val ++ [0]) (i := i) (by simp; omega)
  rw [Nat.zero_add] at hin
  rw [memory, hin, List.getElem_append_left hlt, hc]

theorem getElem?_of_memory {i : ℕ} (hi : i < url.val.length) :
    url.val[i]? = some (memory url behind i) := by
  obtain ⟨-, h⟩ := memory_of_getElem? behind (List.getElem?_eq_getElem hi)
  rw [List.getElem?_eq_getElem hi, h]

theorem slice_memory (hle : pos ≤ url.val.length) :
    slice (memory url behind) 0 pos = url.val.take pos := by
  apply List.ext_getElem?
  intro i
  by_cases hi : i < pos
  · rw [List.getElem?_take_of_lt hi, getElem?_of_memory behind (by omega), slice,
      List.getElem?_map, List.getElem?_range' (by omega)]
    simp
  · rw [List.getElem?_eq_none (by rw [length_slice]; omega),
      List.getElem?_eq_none (by rw [List.length_take]; omega)]

theorem zero_notMem_slice {stop : ℕ} (hle : stop ≤ url.val.length) :
    (0 : UInt8) ∉ slice (memory url behind) start stop := by
  intro hmem
  obtain ⟨i, -, hi, hzero⟩ := mem_slice.mp hmem
  have hget := getElem?_of_memory behind (show i < url.val.length by omega)
  rw [hzero] at hget
  exact url.property (List.mem_of_getElem? hget)

/-- What is copied from within the URL is read back. -/
theorem cstr_copied {length : ℕ} (hle : start + length ≤ url.val.length) :
    cstr (copied url behind start length) = slice (memory url behind) start (start + length) := by
  have hcstr : cstr ([0] : List UInt8) = [] := rfl
  rw [copied, HttpDownload.cstr_append (zero_notMem_slice _ hle), hcstr, List.append_nil]

theorem copied_length (length : ℕ) : (copied url behind start length).length = length + 1 := by
  rw [copied, List.length_append, length_slice]
  simp

theorem indexOf_split {needle : List UInt8} (h : indexOf needle text = some pos) :
    needle <+: text.drop pos := by
  induction text generalizing pos with
  | nil =>
      rw [indexOf] at h
      split at h
      · next hnil =>
        rw [List.isEmpty_iff.mp hnil]
        exact List.nil_prefix
      · cases h
  | cons c text ih =>
      rw [indexOf] at h
      split at h
      · next hleft =>
        injection h with h
        rw [← h]
        exact List.isPrefixOf_iff_prefix.mp hleft
      · rw [Option.map_eq_some_iff] at h
        obtain ⟨pos', hpos', rfl⟩ := h
        exact ih hpos'

/-- The separator, where it is found. -/
theorem separator_slice (h : indexOf separator url.val = some pos) :
    pos + 3 ≤ url.val.length ∧ slice (memory url behind) pos (pos + 3) = separator := by
  have hle : pos + 3 ≤ url.val.length := HttpDownload.indexOf_le h
  refine ⟨hle, ?_⟩
  obtain ⟨rest, hrest⟩ := indexOf_split h
  apply List.ext_getElem?
  intro i
  by_cases hi : i < 3
  · have hget := getElem?_of_memory behind (show pos + i < url.val.length by omega)
    rw [← List.getElem?_drop, ← hrest, List.getElem?_append_left hi] at hget
    rw [hget, slice, List.getElem?_map, List.getElem?_range' (by omega)]
    simp
  · rw [List.getElem?_eq_none (by rw [length_slice]; omega),
      List.getElem?_eq_none (by rw [show separator.length = 3 from rfl]; omega)]

end Places

section Fragments
variable {url : CString} (behind : ℕ → UInt8)

theorem upToFragment_le : (upToFragment url.val).length ≤ url.val.length :=
  (List.takeWhile_prefix _).length_le

theorem upToFragment_slice :
    upToFragment url.val = slice (memory url behind) 0 (upToFragment url.val).length := by
  rw [slice_memory _ upToFragment_le]
  exact List.prefix_iff_eq_take.mp (List.takeWhile_prefix _)

theorem hash_notMem_upToFragment (url : CString) : hash ∉ upToFragment url.val := by
  intro hmem
  have hne := List.mem_takeWhile_imp hmem
  simp at hne

theorem fragment_place (h : (upToFragment url.val).length < url.val.length) :
    memory url behind (upToFragment url.val).length = hash := by
  have hsplit := List.takeWhile_append_dropWhile (p := (· != hash)) (l := url.val)
  have hhead := List.head?_dropWhile_not (· != hash) url.val
  cases hback : url.val.dropWhile (· != hash) with
  | nil =>
      rw [hback, List.append_nil] at hsplit
      rw [upToFragment, hsplit] at h
      omega
  | cons c back =>
      rw [hback] at hhead hsplit
      have hc : c = hash := by simpa using hhead
      refine (memory_of_getElem? _ ?_).2
      have hat : (upToFragment url.val ++ c :: back)[(upToFragment url.val).length]? = some c := by
        simp
      rwa [upToFragment, hsplit, hc] at hat

theorem memory_ne_hash {i : ℕ} (h : i < (upToFragment url.val).length) :
    memory url behind i ≠ hash := by
  intro hi
  apply hash_notMem_upToFragment url
  rw [upToFragment_slice behind]
  exact mem_slice.mpr ⟨i, Nat.zero_le _, h, hi⟩

theorem hash_notMem_wholeUrl (url : CString) : hash ∉ wholeUrl url.val := by
  unfold wholeUrl
  split
  · exact hash_notMem_upToFragment url
  · rw [List.mem_append, not_or]
    exact ⟨hash_notMem_upToFragment url, by decide⟩

theorem hasPath_iff {schemeLen : ℕ} (hs : indexOf separator url.val = some schemeLen) :
    hasPath url.val = true ↔
      ∃ i, schemeLen + 3 ≤ i ∧ i < (upToFragment url.val).length ∧ memory url behind i = slash := by
  rw [hasPath, hs]
  simp only [List.contains_eq_mem, decide_eq_true_eq, List.mem_iff_getElem?, List.getElem?_drop]
  have hget {i : ℕ} (hi : i < (upToFragment url.val).length) :
      (upToFragment url.val)[i]? = some (memory url behind i) := by
    have hle : (upToFragment url.val).length ≤ url.val.length := upToFragment_le
    have htake : upToFragment url.val = url.val.take (upToFragment url.val).length :=
      List.prefix_iff_eq_take.mp (List.takeWhile_prefix _)
    rw [htake, List.getElem?_take_of_lt hi]
    exact getElem?_of_memory _ (by omega)
  constructor
  · rintro ⟨k, hk⟩
    have hlt : schemeLen + 3 + k < (upToFragment url.val).length :=
      (List.getElem?_eq_some_iff.mp hk).1
    rw [hget hlt] at hk
    exact ⟨schemeLen + 3 + k, by omega, hlt, Option.some.inj hk⟩
  · rintro ⟨i, hle, hlt, hi⟩
    obtain ⟨k, rfl⟩ := Nat.exists_eq_add_of_le hle
    exact ⟨k, by rw [hget hlt, hi]⟩

end Fragments

section Parts
variable {url : CString} (behind : ℕ → UInt8) {schemeLen : ℕ}

/-- Scheme, separator and the first bytes of the host are the front of the URL. -/
theorem front_eq (hs : indexOf separator url.val = some schemeLen) {hostLen : ℕ}
    (hle : schemeLen + 3 + hostLen ≤ url.val.length) :
    cstr (copied url behind 0 schemeLen) ++ separator ++
        cstr (copied url behind (schemeLen + 3) hostLen) =
      slice (memory url behind) 0 (schemeLen + 3 + hostLen) := by
  obtain ⟨hin, hsep⟩ := separator_slice behind hs
  rw [cstr_copied _ (by omega), cstr_copied _ hle, Nat.zero_add, ← hsep,
    slice_append _ (by omega) (by omega), slice_append _ (by omega) (by omega)]

theorem whole_without_slash (hs : indexOf separator url.val = some schemeLen)
    (hnone : strchr url.val (schemeLen + 3) slash = none) {hostLen : ℕ}
    (hle : schemeLen + 3 + hostLen ≤ url.val.length) :
    cstr (copied url behind 0 schemeLen) ++ separator ++
        cstr (copied url behind (schemeLen + 3) hostLen) ++ cstr [slash, 0] = wholeUrl url.val ↔
      (upToFragment url.val).length = schemeLen + 3 + hostLen := by
  have hpath : ¬ hasPath url.val = true := by
    rw [hasPath_iff behind hs]
    rintro ⟨i, hi, hlt, hslash⟩
    have hle : (upToFragment url.val).length ≤ url.val.length := upToFragment_le
    apply strchr_none hnone hi
    rw [getElem?_of_memory behind (by omega), hslash]
  have hslash : cstr [slash, 0] = [slash] := rfl
  rw [front_eq _ hs hle, hslash, wholeUrl, if_neg hpath, List.append_left_inj]
  constructor
  · intro h
    rw [← h, length_slice, Nat.sub_zero]
  · intro h
    rw [upToFragment_slice behind, h]

/-- Where the search for the fragment ends. -/
theorem strchr_hash {start : ℕ} (hge : start ≤ (upToFragment url.val).length) :
    strchr url.val start hash =
      if (upToFragment url.val).length < url.val.length then some (upToFragment url.val).length
      else none := by
  cases hfind : strchr url.val start hash with
  | none =>
      rw [if_neg]
      intro h
      apply strchr_none hfind hge
      rw [getElem?_of_memory (fun _ => 0) h, fragment_place _ h]
  | some fragmentPtr =>
      obtain ⟨-, hat, hbefore⟩ := strchr_some hfind
      obtain ⟨hlt, hhash⟩ := memory_of_getElem? (fun _ => 0) hat
      have hfirst : ¬ fragmentPtr < (upToFragment url.val).length :=
        fun h => memory_ne_hash _ h hhash
      have hlast : ¬ (upToFragment url.val).length < fragmentPtr := by
        intro h
        apply hbefore _ hge h
        rw [getElem?_of_memory (fun _ => 0) (by omega), fragment_place _ (by omega)]
      rw [if_pos (by omega)]
      congr 1
      omega

theorem pathLength_eq {pathPtr : ℕ} (hle : schemeLen + 3 ≤ pathPtr)
    (hlt : pathPtr < (upToFragment url.val).length) :
    pathLength url (schemeLen + 3) pathPtr =
      ((upToFragment url.val).length - pathPtr) % 2 ^ 32 := by
  have hin : (upToFragment url.val).length ≤ url.val.length := upToFragment_le
  rw [pathLength, strchr_hash (by omega)]
  split
  · rename_i fragmentPtr h
    split at h
    · injection h with h
      omega
    · cases h
  · rename_i h
    split at h
    · cases h
    · congr 2
      omega

/-- A fragment that begins in front of the first `/` makes the length negative. -/
theorem pathLength_wraps {pathPtr : ℕ} (hge : schemeLen + 3 ≤ (upToFragment url.val).length)
    (hlt : (upToFragment url.val).length < pathPtr) (hin : pathPtr ≤ url.val.length) :
    pathLength url (schemeLen + 3) pathPtr =
      ((((upToFragment url.val).length : ℤ) - pathPtr) % 2 ^ 32).toNat := by
  rw [pathLength, strchr_hash hge, if_pos (by omega)]

/-- With the fragment in front of the first `/`, what is left behind `://` is no URL any more. -/
theorem whole_behind_fragment (hs : indexOf separator url.val = some schemeLen) {pathPtr : ℕ}
    (hslash : strchr url.val (schemeLen + 3) slash = some pathPtr)
    (hlt : (upToFragment url.val).length < pathPtr) :
    slice (memory url behind) 0 (schemeLen + 3 + (pathPtr - (schemeLen + 3)) % 2 ^ 32) ++
        cstr (copied url behind pathPtr (pathLength url (schemeLen + 3) pathPtr)) ≠
      wholeUrl url.val := by
  obtain ⟨hge, hat, hbefore⟩ := strchr_some hslash
  obtain ⟨hin, hmem⟩ := memory_of_getElem? behind hat
  have hpath : ¬ hasPath url.val = true := by
    rw [hasPath_iff behind hs]
    rintro ⟨i, hi, hif, hi'⟩
    apply hbefore i hi (by omega)
    rw [getElem?_of_memory behind (by omega), hi']
  have hmod := Nat.mod_le (pathPtr - (schemeLen + 3)) (2 ^ 32)
  generalize hfront : schemeLen + 3 + (pathPtr - (schemeLen + 3)) % 2 ^ 32 = front
  intro h
  have hfrag : front ≤ (upToFragment url.val).length := by
    by_contra hover
    have hhash := fragment_place behind (show _ < url.val.length by omega)
    apply hash_notMem_wholeUrl url
    rw [← h]
    exact List.mem_append_left _ (mem_slice.mpr ⟨_, Nat.zero_le _, by omega, hhash⟩)
  have hlen : pathLength url (schemeLen + 3) pathPtr =
      ((((upToFragment url.val).length : ℤ) - pathPtr) % 2 ^ 32).toNat :=
    pathLength_wraps (by omega) hlt (by omega)
  rw [wholeUrl, if_neg hpath] at h
  cases hpl : pathLength url (schemeLen + 3) pathPtr with
  | zero =>
      have hempty : copied url behind pathPtr 0 = [0] := by
        rw [copied, Nat.add_zero, slice_self, List.nil_append]
      have hcount := congrArg List.length h
      rw [hpl, hempty, List.length_append, length_slice, List.length_append] at hcount
      simp [cstr] at hcount
      omega
  | succ n =>
      have hcons : cstr (copied url behind pathPtr (n + 1)) =
          slash :: cstr (slice (memory url behind) (pathPtr + 1) (pathPtr + (n + 1)) ++ [0]) := by
        rw [copied, ← slice_append _ (show pathPtr ≤ pathPtr + 1 by omega) (by omega)]
        simp [slice, hmem, cstr, slash]
      have hplace := congrArg (fun text => text[front]?) h
      have hleft : (slice (memory url behind) 0 front).length = front := by
        rw [length_slice, Nat.sub_zero]
      rw [hpl, hcons] at hplace
      simp only [List.getElem?_append_right (Nat.le_of_eq hleft), hleft, Nat.sub_self,
        List.getElem?_cons_zero] at hplace
      by_cases hend : front = (upToFragment url.val).length
      · omega
      · rw [List.getElem?_append_left (by omega), upToFragment_slice behind,
          slice_memory _ upToFragment_le, List.getElem?_take_of_lt (by omega)] at hplace
        exact hbefore front (by omega) (by omega) hplace.symm

/-- With a `/`, the parts make up the URL up to its fragment only when none of the lengths has
wrapped and the fragment is behind the `/`. -/
theorem whole_with_slash (hs : indexOf separator url.val = some schemeLen) {pathPtr : ℕ}
    (hslash : strchr url.val (schemeLen + 3) slash = some pathPtr) :
    cstr (copied url behind 0 schemeLen) ++ separator ++
        cstr (copied url behind (schemeLen + 3) ((pathPtr - (schemeLen + 3)) % 2 ^ 32)) ++
        cstr (copied url behind pathPtr (pathLength url (schemeLen + 3) pathPtr)) =
      wholeUrl url.val ↔
      pathPtr < (upToFragment url.val).length ∧ pathPtr - (schemeLen + 3) < 2 ^ 32 ∧
        (upToFragment url.val).length - pathPtr < 2 ^ 32 := by
  obtain ⟨hge, hat, hbefore⟩ := strchr_some hslash
  obtain ⟨hin, hmem⟩ := memory_of_getElem? behind hat
  have hfrag : (upToFragment url.val).length ≤ url.val.length := upToFragment_le
  have hmod := Nat.mod_le (pathPtr - (schemeLen + 3)) (2 ^ 32)
  rw [front_eq _ hs (by omega)]
  by_cases hlt : pathPtr < (upToFragment url.val).length
  · have hpath := pathLength_eq hge hlt
    have hmod' := Nat.mod_le ((upToFragment url.val).length - pathPtr) (2 ^ 32)
    rw [hpath, cstr_copied _ (by omega), wholeUrl,
      if_pos ((hasPath_iff behind hs).mpr ⟨pathPtr, hge, hlt, hmem⟩)]
    constructor
    · intro h
      have hlen := congrArg List.length h
      rw [List.length_append, length_slice, length_slice] at hlen
      refine ⟨hlt, ?_, ?_⟩ <;> omega
    · rintro ⟨-, hhost, hrest⟩
      rw [Nat.mod_eq_of_lt hhost, Nat.mod_eq_of_lt hrest, upToFragment_slice behind]
      have hstart : schemeLen + 3 + (pathPtr - (schemeLen + 3)) = pathPtr := by omega
      have hstop : pathPtr + ((upToFragment url.val).length - pathPtr) =
          (upToFragment url.val).length := by omega
      rw [length_slice, Nat.sub_zero, hstart, hstop, slice_append _ (by omega) (by omega)]
  · refine iff_of_false ?_ (fun h => hlt h.1)
    intro h
    have hne : (upToFragment url.val).length ≠ pathPtr := by
      intro heq
      have hhash := fragment_place behind (show _ < url.val.length by omega)
      rw [heq, hmem] at hhash
      exact absurd hhash (by decide)
    exact whole_behind_fragment _ hs hslash (by omega) h

end Parts

section Agreement
variable (url : CString) (behind : ℕ → UInt8) (maxSchemeLen maxhostLen maxPathLen : UInt32)

/-- Nothing is owed for a URL that is refused, if what is written fits. -/
theorem ParseRight.refused {scheme host : List UInt8} {port : Option ℕ}
    (hscheme : scheme.length ≤ maxSchemeLen.toNat) (hhost : host.length ≤ maxhostLen.toNat) :
    ParseRight url behind maxSchemeLen maxhostLen maxPathLen
      ⟨.httpParse, port, scheme, host, []⟩ :=
  ⟨hscheme, hhost, Nat.zero_le _, fun h => (by cases h), fun h => (by cases h)⟩

theorem parseHost_without_slash {schemeLen : ℕ} (hs : indexOf separator url.val = some schemeLen)
    (hnone : strchr url.val (schemeLen + 3) slash = none)
    (hfit : (url.val.length - (schemeLen + 3)) % 2 ^ 32 + 1 ≤ maxhostLen.toNat) :
    httpClientParseHost url behind maxhostLen =
      (.success,
        copied url behind (schemeLen + 3) ((url.val.length - (schemeLen + 3)) % 2 ^ 32)) := by
  have hle : schemeLen + 3 ≤ url.val.length := HttpDownload.indexOf_le hs
  have hmax := maxhostLen.toNat_lt
  have hlen : (url.val.length - (schemeLen + 3) % 2 ^ 32) % 2 ^ 32 =
      (url.val.length - (schemeLen + 3)) % 2 ^ 32 := by omega
  have hshort : ¬ maxhostLen.toNat <
      ((url.val.length - (schemeLen + 3)) % 2 ^ 32 + 1) % 2 ^ 32 := by omega
  rw [httpClientParseHost, hs]
  simp only [hnone, hlen, hshort, if_false]

theorem parseHost_with_slash {schemeLen pathPtr : ℕ}
    (hs : indexOf separator url.val = some schemeLen)
    (hslash : strchr url.val (schemeLen + 3) slash = some pathPtr)
    (hfit : ¬ maxhostLen.toNat < ((pathPtr - (schemeLen + 3)) % 2 ^ 32 + 1) % 2 ^ 32) :
    httpClientParseHost url behind maxhostLen =
      (.success, copied url behind (schemeLen + 3) ((pathPtr - (schemeLen + 3)) % 2 ^ 32)) := by
  rw [httpClientParseHost, hs]
  simp only [hslash, hfit, if_false]

/-- The parser stays inside its buffers, gives the parts of the URL and agrees with the parser of
the host exactly when the parts fit. -/
theorem parse_url_right_iff :
    ParseRight url behind maxSchemeLen maxhostLen maxPathLen
        (httpClientParseUrl url behind maxSchemeLen maxhostLen maxPathLen) ↔
      partsFit url maxSchemeLen maxhostLen maxPathLen := by
  unfold httpClientParseUrl partsFit
  cases hs : indexOf separator url.val with
  | none =>
      exact iff_of_true (.refused _ _ _ _ _ (Nat.zero_le _) (Nat.zero_le _)) trivial
  | some schemeLen =>
      have hle : schemeLen + 3 ≤ url.val.length := HttpDownload.indexOf_le hs
      by_cases hscheme : maxSchemeLen.toNat < schemeLen + 1
      · simp only [hscheme, if_true, true_or]
        exact iff_of_true (.refused _ _ _ _ _ (Nat.zero_le _) (Nat.zero_le _)) trivial
      · have hfits : (copied url behind 0 schemeLen).length ≤ maxSchemeLen.toNat := by
          rw [copied_length _]
          omega
        simp only [hscheme, if_false, false_or]
        cases hslash : strchr url.val (schemeLen + 3) slash with
        | none =>
            have hmod := Nat.mod_le (url.val.length - (schemeLen + 3)) (2 ^ 32)
            have hwhole := whole_without_slash behind hs hslash
              (show schemeLen + 3 + (url.val.length - (schemeLen + 3)) % 2 ^ 32 ≤ _ by omega)
            constructor
            · rintro ⟨-, hhost, hpath, hall, -⟩
              rw [copied_length _] at hhost
              exact ⟨hhost, hpath, hwhole.mp (hall rfl)⟩
            · rintro ⟨hhost, hpath, hall⟩
              refine ⟨hfits, ?_, hpath, fun _ => hwhole.mpr hall, fun _ => ⟨_, ?_, rfl⟩⟩
              · rw [copied_length _]
                exact hhost
              · exact parseHost_without_slash url behind maxhostLen hs hslash hhost
        | some pathPtr =>
            have hwhole := whole_with_slash behind hs hslash
            have hmax := maxhostLen.toNat_lt
            have hmax' := maxPathLen.toNat_lt
            simp only
            split
            · rename_i hlong
              exact iff_of_true (.refused _ _ _ _ _ hfits (Nat.zero_le _)) (.inl hlong)
            · rename_i hshort
              split
              · rename_i hlong
                constructor
                · rintro ⟨-, hhost, -, -, -⟩
                  rw [copied_length _] at hhost
                  exact .inr (.inl ⟨hhost, hlong⟩)
                · rintro (h | ⟨hhost, -⟩ | ⟨hhost, -, -⟩)
                  · exact absurd h hshort
                  · exact .refused _ _ _ _ _ hfits (by rw [copied_length _]; exact hhost)
                  · refine .refused _ _ _ _ _ hfits ?_
                    rw [copied_length _]
                    omega
              · rename_i hfit
                constructor
                · rintro ⟨-, hhost, hpath, hall, -⟩
                  obtain ⟨hfrag, hsmall, hrest⟩ := hwhole.mp (hall rfl)
                  obtain ⟨hge, -⟩ := strchr_some hslash
                  rw [copied_length _] at hhost hpath
                  rw [pathLength_eq hge hfrag] at hpath
                  refine .inr (.inr ⟨?_, hfrag, ?_⟩) <;> omega
                · rintro (h | ⟨-, h⟩ | ⟨hhost, hfrag, hpath⟩)
                  · exact absurd h hshort
                  · exact absurd h hfit
                  · obtain ⟨hge, -⟩ := strchr_some hslash
                    refine ⟨hfits, ?_, ?_, fun _ => ?_, fun _ => ⟨_, ?_, rfl⟩⟩
                    · rw [copied_length _]
                      omega
                    · rw [copied_length _, pathLength_eq hge hfrag]
                      omega
                    · exact hwhole.mpr ⟨hfrag, by omega, by omega⟩
                    · exact parseHost_with_slash url behind maxhostLen hs hslash hshort

/-- A host of three bytes without a path, and two bytes for it. -/
theorem host_overruns :
    ¬ ∀ (url : CString) (behind : ℕ → UInt8) (maxSchemeLen maxhostLen maxPathLen : UInt32),
      ParseRight url behind maxSchemeLen maxhostLen maxPathLen
        (httpClientParseUrl url behind maxSchemeLen maxhostLen maxPathLen) := by
  intro h
  have hhost := (h ⟨ascii "a://bcd", by decide⟩ (fun _ => 0) 8 2 8).host
  revert hhost
  decide

end Agreement

end IotExplorer.UrlParser
