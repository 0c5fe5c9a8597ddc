import IotExplorer.JsonPayload
import IotExplorer.ReportArray

/-!
`update_value_if_key_match` on the text that `put_json_node` writes. The copy of a
value that is looked up ends with its NUL, and a float is read as the C library
does it. A property finds its value as long as the braces of every struct, those
in its keys and strings counted as well, first close at its end.
-/
namespace IotExplorer.PropertyUpdate

open Basis.JsonText Basis.Decimals JsonParser JsonLookup JsonObjects JsonPaths JsonPayload
open TemplateJson DeviceProperty ReportArray

section Updates

/-- A text up to its NUL. -/
def cut (text : List UInt8) : CString :=
  ⟨text.takeWhile fun c => c != 0, fun hmem => absurd (List.mem_takeWhile_imp hmem) (by decide)⟩

/-- What `sscanf` reads for a `%f`, the bits of a float or a double. -/
abbrev ScanFloat := Format → List UInt8 → Option ℕ

/-- `_direct_update_value` for a value; a text that `sscanf` cannot read leaves it. -/
def directUpdateValue (scanFloat : ScanFloat) (text : List UInt8) : Scalar → Scalar
  | .int32 value => .int32 ((scanInt 32 text).elim value Int32.ofInt)
  | .int16 value => .int16 ((scanInt 16 text).elim value Int16.ofInt)
  | .int8 value => .int8 ((scanInt 8 text).elim value Int8.ofInt)
  | .uint32 value => .uint32 ((scanUint 32 text).elim value UInt32.ofNat)
  | .uint16 value => .uint16 ((scanUint 16 text).elim value UInt16.ofNat)
  | .uint8 value => .uint8 ((scanUint 8 text).elim value UInt8.ofNat)
  | .float bits => .float ((scanFloat binary32 text).elim bits UInt32.ofNat)
  | .double bits => .double ((scanFloat binary64 text).elim bits UInt64.ofNat)
  | .boolean _ => .boolean (text != ascii "false")
  | .string _ dataBuffLen => .string (cut (text.take dataBuffLen.toNat)) dataBuffLen
  | .array _ dataBuffLen => .array (cut (text.take dataBuffLen.toNat)) dataBuffLen

def startsNull (text : List UInt8) : Bool :=
  text.take 4 == ascii "null" || text.take 4 == ascii "NULL"

/-- The value that is looked up for a key, unless it is a null; a key must not be NULL. -/
def propertyData (key : Option CString) (doc : Ptr) : Except Overrun (Option (List UInt8)) :=
  match key with
  | none => .error .overrun
  | some key => (liteJsonValueOf key doc).map fun found => found.filter fun text => !startsNull text

mutual

/-- `update_value_if_key_match`: whether there is a value, and the property afterwards. Data
that is NULL is written through. -/
def updateValueIfKeyMatch (scanFloat : ScanFloat) :
    Property → Ptr → Except Overrun (Bool × Property)
  | .null key, doc =>
      match propertyData key doc with
      | .error e => .error e
      | .ok none => .ok (false, .null key)
      | .ok (some _) => .error .overrun
  | .scalar key data, doc =>
      match propertyData key doc with
      | .error e => .error e
      | .ok none => .ok (false, .scalar key data)
      | .ok (some text) => .ok (true, .scalar key (directUpdateValue scanFloat text data))
  | .struct key members, doc =>
      match propertyData key doc with
      | .error e => .error e
      | .ok none => .ok (false, .struct key members)
      | .ok (some text) =>
          (updateMembers scanFloat members (text ++ [0])).map fun members =>
            (true, .struct key members)

/-- `_direct_update_value` for the members of a struct; one without a key is left out. -/
def updateMembers (scanFloat : ScanFloat) : List Property → Ptr → Except Overrun (List Property)
  | [], _ => .ok []
  | member :: rest, doc =>
      match if member.key = none then .ok (false, member)
        else updateValueIfKeyMatch scanFloat member doc with
      | .error e => .error e
      | .ok updated => (updateMembers scanFloat rest doc).map fun rest => updated.2 :: rest

end

/-- `put_json_node` for each property of a list, in one buffer. -/
def putNodes (size : ℕ) : List Property → Buffer → JsonCode × Buffer
  | [], buffer => (.success, buffer)
  | property :: rest, buffer => andThen (putJsonNode 0 size property buffer) (putNodes size rest)

end Updates

section Lists

mutual

/-- Another value of the same type under the same key. -/
def Alike : Property → Property → Prop
  | .null key, other => other = .null key
  | .scalar key (.int32 _), other => ∃ value, other = .scalar key (.int32 value)
  | .scalar key (.int16 _), other => ∃ value, other = .scalar key (.int16 value)
  | .scalar key (.int8 _), other => ∃ value, other = .scalar key (.int8 value)
  | .scalar key (.uint32 _), other => ∃ value, other = .scalar key (.uint32 value)
  | .scalar key (.uint16 _), other => ∃ value, other = .scalar key (.uint16 value)
  | .scalar key (.uint8 _), other => ∃ value, other = .scalar key (.uint8 value)
  | .scalar key (.float _), other => ∃ bits, other = .scalar key (.float bits)
  | .scalar key (.double _), other => ∃ bits, other = .scalar key (.double bits)
  | .scalar key (.boolean _), other => ∃ value, other = .scalar key (.boolean value)
  | .scalar key (.string _ n), other => ∃ text, other = .scalar key (.string text n)
  | .scalar key (.array _ n), other => ∃ text, other = .scalar key (.array text n)
  | .struct key members, other => ∃ others, other = .struct key others ∧ AllAlike members others

def AllAlike : List Property → List Property → Prop
  | [], others => others = []
  | member :: rest, others => ∃ other others', others = other :: others' ∧ Alike member other ∧
      AllAlike rest others'

end

def Distinct (properties : List Property) : Prop :=
  properties.Pairwise fun property property' => property.key ≠ property'.key

structure PathKey (key : List UInt8) : Prop where
  ne_nil : key ≠ []
  noDot : dot ∉ key
  noQuote : quote ∉ key

mutual

/-- A property of an integer type, a Boolean, a string that fits its buffer, or a struct of
such, under keys that a path takes as they are. -/
def Restorable : Property → Prop
  | .null _ => False
  | .scalar key data =>
      (∃ k, key = some k ∧ PathKey k.val) ∧
        match data with
        | .float _ => False
        | .double _ => False
        | .array .. => False
        | .string text n => text.val ≠ [] ∧ plain text.val = true ∧ text.val.length ≤ n.toNat
        | _ => True
  | .struct key members =>
      (∃ k, key = some k ∧ PathKey k.val) ∧ Distinct members ∧ AllRestorable members

def AllRestorable : List Property → Prop
  | [] => True
  | property :: rest => Restorable property ∧ AllRestorable rest

end

def valueText : Property → List UInt8
  | .null _ => ascii "null"
  | .scalar _ data => data.text
  | .struct _ members => (openBrace :: nodesText members).dropLast ++ [closeBrace]

mutual

/-- Every struct has members, and its braces first close at its end. -/
def bracesRight : Property → Bool
  | .struct key members =>
      !members.isEmpty &&
        closesAtEnd openBrace closeBrace 0 (valueText (.struct key members)).tail &&
        allBracesRight members
  | _ => true

def allBracesRight : List Property → Bool
  | [] => true
  | property :: rest => bracesRight property && allBracesRight rest

end

mutual

/-- No string begins like a null. -/
def keepsStrings : Property → Bool
  | .scalar _ (.string text _) => !startsNull text.val
  | .struct _ members => allKeepStrings members
  | _ => true

def allKeepStrings : List Property → Bool
  | [] => true
  | property :: rest => keepsStrings property && allKeepStrings rest

end

/-- Whatever values the properties have had, the text brings back these. -/
def Restores (scanFloat : ScanFloat) (properties : List Property) (doc : Ptr) : Prop :=
  ∀ property ∈ properties, ∀ old, Alike property old →
    (updateValueIfKeyMatch scanFloat old doc).map Prod.snd = .ok property

end Lists

section Reading
variable {property : Property} {c : UInt8} {rest : Ptr}

def copyText : Property → List UInt8
  | .scalar _ (.string text _) => text
  | property => valueText property

theorem nodeText_eq (property : Property) :
    nodeText property = keyText property.key ++ (valueText property ++ [comma]) := by
  cases property with
  | null key =>
    have hnull : ascii "null," = ascii "null" ++ [comma] := by decide
    rw [nodeText, hnull]
    rfl
  | scalar key data => rfl
  | struct key members =>
    rw [nodeText, valueText, List.append_assoc]
    rfl

/-- The value part of the loop on the text of a property reports its copy and goes on
behind it. -/
structure ReadsAs (copy : List UInt8) (source next : Ptr) (entry : Entry) : Prop where
  copy : copyOf entry = copy
  nonempty : entry.valLen ≠ 0
  suffix : entry.val <:+ source
  nul : (0 : UInt8) ∈ entry.val
  next : entry.next = next

/-- What the application hands over as a scalar is a value of the grammar. -/
theorem scalarJson_restorable {key : Option CString} {data : Scalar}
    (h : Restorable (.scalar key data)) :
    ∃ v, scalarJson data = some v ∧ v.wellFormed = true ∧ scansRight false v = true ∧
      copied v = copyText (.scalar key data) ∧ (∀ rest, continuation v rest = rest) ∧
      copied v ≠ [] := by
  have hsigned : ∀ value : ℤ, (signedNumber value).mantissa = signedText value := by
    intro value
    rw [← signedNumber_text, Number.text]
    exact (List.append_nil _).symm
  have hne : ∀ value : ℤ, signedText value ≠ [] := by
    intro value hnil
    rw [signedText, List.append_eq_nil_iff] at hnil
    exact decimal_ne_nil _ hnil.2
  have hnumber : ∀ value : ℤ, copied (.number (signedNumber value)) = signedText value := hsigned
  have hnumberNe : ∀ value : ℤ, copied (.number (signedNumber value)) ≠ [] := by
    intro value
    rw [hnumber]
    exact hne value
  have hboolean : ∀ value : Bool, (if value then trueText else falseText) =
      if value then ascii "true" else ascii "false" := by decide
  obtain ⟨-, hdata⟩ := h
  cases data with
  | float bits => exact hdata.elim
  | double bits => exact hdata.elim
  | array text n => exact hdata.elim
  | string text n =>
    obtain ⟨hnonempty, hplain, -⟩ := hdata
    refine ⟨.string text, rfl, rawString_of_plain hplain, ?_, rfl, fun _ => rfl, hnonempty⟩
    rw [scansRight, Bool.false_or, bne_iff_ne]
    intro hlast
    have hmem := List.mem_of_getLast? hlast
    rw [plain, List.all_eq_true] at hplain
    exact absurd (hplain backslash hmem) (by decide)
  | boolean value =>
    refine ⟨.boolean value, rfl, rfl, rfl, hboolean value, fun _ => rfl, ?_⟩
    cases value <;> decide
  | _ => exact ⟨_, rfl, signedNumber_wellFormed _, rfl, hnumber _, fun _ => rfl, hnumberNe _⟩

theorem copyOf_scanned {entry : Entry} {v : Json} (hwf : v.wellFormed = true)
    (hval : entry.val = valuePtr v rest) (hlen : entry.valLen = scannedLen v) :
    copyOf entry = copied v := by
  have hnul : (0 : UInt8) ∉ copied v := by
    have htext := printable_ne_zero (Json.printable_text v hwf)
    cases v with
    | string raw => exact printable_ne_zero (printable_of_rawString hwf)
    | number number =>
      intro hmem
      exact htext (List.mem_append_left _ hmem)
    | _ => exact htext
  rw [copyOf, hval, hlen, copied_valuePtr, List.takeWhile_eq_self_iff]
  intro c hmem
  exact decide_eq_true fun hc => hnul (hc ▸ hmem)

/-- The value part of the loop for a scalar. -/
theorem getValue_scalar {key : Option CString} {data : Scalar} (k : Ptr) (keyLen : ℕ)
    (h : Restorable (.scalar key data)) (hend : endsNumber c = true) (hmem : (0 : UInt8) ∈ rest) :
    ∃ entry, getValue k keyLen (colon :: (valueText (.scalar key data) ++ c :: rest)) =
        .ok (some entry) ∧ entry.key = k ∧ entry.keyLen = keyLen ∧
      ReadsAs (copyText (.scalar key data)) (valueText (.scalar key data) ++ c :: rest) (c :: rest)
        entry := by
  obtain ⟨v, hjson, hwf, hscan, hcopied, hcontinuation, hne⟩ := scalarJson_restorable h
  have hgap : ∀ c' ∈ [colon], startsValue c' = false := by
    intro c' hc'
    rw [List.mem_singleton] at hc'
    rw [hc']
    decide
  have hvalue := getValue_scanned k keyLen hwf hscan (fun h => absurd h (by decide)) hgap
    (by decide) hend hmem
  rw [scalarJson_text hjson, List.singleton_append] at hvalue
  refine ⟨_, hvalue, rfl, rfl, ?_⟩
  refine ⟨?_, ?_, ?_, mem_valuePtr v (List.mem_cons_of_mem c hmem), hcontinuation _⟩
  · rw [← hcopied]
    exact copyOf_scanned hwf rfl rfl
  · rw [← copied_length]
    exact Nat.ne_of_gt (List.length_pos_of_ne_nil hne)
  · have hsuffix := valuePtr_suffix v (c :: rest)
    rwa [scalarJson_text hjson] at hsuffix

/-- The value part of the loop for a struct whose braces close at its end. -/
theorem getValue_struct {key : Option CString} {members : List Property} (k : Ptr) (keyLen : ℕ)
    (hne : members ≠ []) (hkeys : ∀ member ∈ members, member.key ≠ none)
    (hcloses : closesAtEnd openBrace closeBrace 0 (valueText (.struct key members)).tail = true)
    (hnul : (0 : UInt8) ∉ valueText (.struct key members)) (hmem : (0 : UInt8) ∈ rest) :
    ∃ entry, getValue k keyLen (colon :: (valueText (.struct key members) ++ c :: rest)) =
        .ok (some entry) ∧ entry.key = k ∧ entry.keyLen = keyLen ∧
      ReadsAs (valueText (.struct key members)) (valueText (.struct key members) ++ c :: rest)
        (c :: rest) entry := by
  have hnodes : nodesText members ≠ [] := by
    cases members with
    | nil => exact absurd rfl hne
    | cons member rest =>
      rw [nodesText, if_neg (hkeys member (List.mem_cons_self ..)), nodeText_eq, keyText]
      simp
  obtain ⟨body, hbody⟩ : ∃ body, valueText (.struct key members) = openBrace :: body := by
    refine ⟨(nodesText members).dropLast ++ [closeBrace], ?_⟩
    rw [valueText, List.dropLast_cons_of_ne_nil hnodes]
    rfl
  have htext : valueText (.struct key members) ≠ [] := by
    rw [hbody]
    exact List.cons_ne_nil _ _
  have hobject : JsonType.object ≠ .string := by decide
  have hlen := scanMarked_value (c :: rest) hobject htext hcloses hnul space
  have hfind : findValue (colon :: (valueText (.struct key members) ++ c :: rest)) =
      .ok (some (.object, valueText (.struct key members) ++ c :: rest,
        (valueText (.struct key members)).tail ++ c :: rest)) := by
    rw [hbody]
    rfl
  refine ⟨_, getValue_of k keyLen hfind hlen, rfl, rfl, ?_⟩
  refine ⟨?_, Nat.ne_of_gt (List.length_pos_of_ne_nil htext), List.suffix_rfl,
    List.mem_append_right _ (List.mem_cons_of_mem c hmem), ?_⟩
  · rw [copyOf, List.take_left, List.takeWhile_eq_self_iff]
    intro c' hmem'
    exact decide_eq_true fun hc => hnul (hc ▸ hmem')
  · dsimp only
    rw [if_neg (by decide), Nat.add_zero, List.drop_left]

end Reading

section Streams
variable {property : Property} {properties : List Property} {c : UInt8} {rest pre : Ptr}

/-- The members as they are printed, without the last comma. -/
def fieldsText : List Property → List UInt8
  | [] => []
  | property :: rest =>
      keyText property.key ++ (valueText property ++
        if rest.isEmpty then [] else comma :: fieldsText rest)

theorem Restorable.key (h : Restorable property) : ∃ k, property.key = some k ∧ PathKey k.val := by
  cases property with
  | null key => exact h.elim
  | scalar key data => exact h.1
  | struct key members => exact h.1

theorem AllRestorable.mem (h : AllRestorable properties) (hmem : property ∈ properties) :
    Restorable property := by
  induction properties with
  | nil => exact absurd hmem List.not_mem_nil
  | cons first rest ih =>
    rcases List.mem_cons.mp hmem with rfl | hmem
    · exact h.1
    · exact ih h.2 hmem

theorem AllRestorable.keys (h : AllRestorable properties) :
    ∀ property ∈ properties, property.key ≠ none := by
  intro property hmem hnone
  obtain ⟨k, hkey, -⟩ := (h.mem hmem).key
  rw [hkey] at hnone
  cases hnone

theorem bracesRight_of_mem (h : allBracesRight properties = true) (hmem : property ∈ properties) :
    bracesRight property = true := by
  induction properties with
  | nil => exact absurd hmem List.not_mem_nil
  | cons first rest ih =>
    rw [allBracesRight, Bool.and_eq_true] at h
    rcases List.mem_cons.mp hmem with rfl | hmem
    · exact h.1
    · exact ih h.2 hmem

/-- A comma stands behind the members that are printed. -/
theorem nodesText_eq (hne : properties ≠ [])
    (hkeys : ∀ property ∈ properties, property.key ≠ none) :
    nodesText properties = fieldsText properties ++ [comma] := by
  induction properties with
  | nil => exact absurd rfl hne
  | cons property rest ih =>
    rw [nodesText, if_neg (hkeys property (List.mem_cons_self ..)), nodeText_eq, fieldsText]
    cases rest with
    | nil => simp [nodesText]
    | cons next rest =>
      rw [ih (List.cons_ne_nil _ _) fun p hp => hkeys p (List.mem_cons_of_mem property hp)]
      simp

theorem valueText_struct {key : Option CString} (hne : properties ≠ [])
    (hkeys : ∀ property ∈ properties, property.key ≠ none) :
    valueText (.struct key properties) = openBrace :: (fieldsText properties ++ [closeBrace]) := by
  rw [valueText, nodesText_eq hne hkeys, ← List.cons_append, List.dropLast_concat]
  rfl

theorem nul_keyText (key : Option CString) : (0 : UInt8) ∉ keyText key := by
  have hname : (0 : UInt8) ∉ key.elim (ascii "null") Subtype.val := by
    cases key with
    | none => decide
    | some key => exact key.property
  rw [keyText, List.mem_cons, List.mem_append, not_or, not_or]
  exact ⟨by decide, hname, by decide⟩

mutual

/-- There is no NUL in what is printed. -/
theorem nul_nodeText : (property : Property) → Restorable property →
    (0 : UInt8) ∉ nodeText property
  | .null _, h => h.elim
  | .scalar key data, h => by
      obtain ⟨v, hjson, hwf, -⟩ := scalarJson_restorable h
      have htext := printable_ne_zero (Json.printable_text v hwf)
      rw [scalarJson_text hjson] at htext
      rw [nodeText, List.mem_append, List.mem_append, not_or, not_or]
      exact ⟨nul_keyText key, htext, by decide⟩
  | .struct key members, h => by
      have hmembers := nul_nodesText members h.2.2
      rw [nodeText, List.mem_append, List.mem_append, not_or, not_or]
      refine ⟨nul_keyText key, ?_, by decide⟩
      intro hmem
      rcases List.mem_cons.mp ((List.dropLast_sublist _).mem hmem) with hopen | hmem
      · exact absurd hopen (by decide)
      · exact hmembers hmem

theorem nul_nodesText : (properties : List Property) → AllRestorable properties →
    (0 : UInt8) ∉ nodesText properties
  | [], _ => List.not_mem_nil
  | property :: rest, h => by
      have hfirst := nul_nodeText property h.1
      have hrest := nul_nodesText rest h.2
      rw [nodesText, List.mem_append, not_or]
      refine ⟨?_, hrest⟩
      split
      · exact List.not_mem_nil
      · exact hfirst

end

theorem nul_valueText (h : Restorable property) : (0 : UInt8) ∉ valueText property := by
  have hnode := nul_nodeText property h
  rw [nodeText_eq, List.mem_append, List.mem_append, not_or, not_or] at hnode
  exact hnode.2.1

/-- The value part of the loop for a property whose braces are right. -/
theorem getValue_property (k : Ptr) (keyLen : ℕ) (h : Restorable property)
    (hbraces : bracesRight property = true) (hend : endsNumber c = true)
    (hmem : (0 : UInt8) ∈ rest) :
    ∃ entry, getValue k keyLen (colon :: (valueText property ++ c :: rest)) = .ok (some entry) ∧
      entry.key = k ∧ entry.keyLen = keyLen ∧
      ReadsAs (copyText property) (valueText property ++ c :: rest) (c :: rest) entry := by
  cases property with
  | null key => exact h.elim
  | scalar key data => exact getValue_scalar k keyLen h hend hmem
  | struct key members =>
    have hnul := nul_valueText h
    rw [bracesRight, Bool.and_eq_true, Bool.and_eq_true] at hbraces
    have hne : members ≠ [] := by
      rintro rfl
      exact absurd hbraces.1.1 (by decide)
    exact getValue_struct k keyLen hne h.2.2.keys hbraces.1.2 hnul hmem

/-- The step of a loop to a property. -/
theorem jsonGetNextObject_property {k : CString} (hkey : property.key = some k)
    (h : Restorable property) (hbraces : bracesRight property = true) (hquiet : quote ∉ pre)
    (hnul : (0 : UInt8) ∉ pre) (hend : endsNumber c = true) (hmem : (0 : UInt8) ∈ rest) :
    ∃ entry, jsonGetNextObject .object
        (pre ++ (keyText property.key ++ (valueText property ++ c :: rest))) = .ok (some entry) ∧
      entry.keyLen = k.val.length ∧ entry.key.take k.val.length = k.val ∧
      ReadsAs (copyText property)
        (pre ++ (keyText property.key ++ (valueText property ++ c :: rest))) (c :: rest) entry := by
  have hpath : PathKey k.val := by
    obtain ⟨k', hkey', hpath⟩ := h.key
    obtain rfl : k' = k := Option.some.inj (hkey'.symm.trans hkey)
    exact hpath
  have hgap : colon ∉ ([] : List UInt8) := List.not_mem_nil
  have hname := getKey_append (valueText property ++ c :: rest) hquiet hpath.noQuote hgap
    ⟨hnul, k.property, List.not_mem_nil⟩
  have htext : pre ++ (keyText property.key ++ (valueText property ++ c :: rest)) =
      pre ++ quote :: (k.val ++ quote :: ([] ++ colon :: (valueText property ++ c :: rest))) := by
    rw [hkey, keyText]
    simp
  obtain ⟨entry, hvalue, hk, hlen, hreads⟩ :=
    getValue_property (k.val ++ quote :: ([] ++ colon :: (valueText property ++ c :: rest)))
      k.val.length h hbraces hend hmem
  rw [List.nil_append] at hname
  refine ⟨entry, ?_, hlen, ?_, hreads.copy, hreads.nonempty, ?_, hreads.nul, hreads.next⟩
  · rw [htext, jsonGetNextObject, if_pos rfl, List.nil_append, hname]
    exact hvalue
  · rw [hk, List.take_left]
  · exact hreads.suffix.trans ((List.suffix_append _ _).trans (List.suffix_append _ _))

/-- A search for the key of one of the properties, which are pairwise distinct, finds it. -/
theorem lookup_fields {k : CString} (hmem : property ∈ properties) (hkey : property.key = some k)
    (h : AllRestorable properties) (hdistinct : Distinct properties)
    (hbraces : allBracesRight properties = true) (hquiet : quote ∉ pre) (hnul : (0 : UInt8) ∉ pre)
    (hend : endsNumber c = true) (hzero : (0 : UInt8) ∈ rest) {fuel : ℕ}
    (hfuel : properties.length ≤ fuel) :
    ∃ entry, lookup k.val (walk .object fuel (pre ++ (fieldsText properties ++ c :: rest))) =
        .ok (some entry) ∧ copyOf entry = copyText property ∧
      entry.val <:+ pre ++ (fieldsText properties ++ c :: rest) ∧ (0 : UInt8) ∈ entry.val := by
  induction properties generalizing pre fuel with
  | nil => exact absurd hmem List.not_mem_nil
  | cons first others ih =>
    obtain ⟨fuel, rfl⟩ : ∃ fuel', fuel = fuel' + 1 := by
      rw [List.length_cons] at hfuel
      exact ⟨fuel - 1, by omega⟩
    obtain ⟨c', rest', htext, hend', hzero'⟩ : ∃ c' rest',
        fieldsText (first :: others) ++ c :: rest =
          keyText first.key ++ (valueText first ++ c' :: rest') ∧ endsNumber c' = true ∧
        (0 : UInt8) ∈ rest' := by
      cases others with
      | nil => exact ⟨c, rest, by simp [fieldsText], hend, hzero⟩
      | cons next others =>
        refine ⟨comma, fieldsText (next :: others) ++ c :: rest, by simp [fieldsText], by decide,
          ?_⟩
        exact List.mem_append_right _ (List.mem_cons_of_mem c hzero)
    obtain ⟨k', hkey', hpath⟩ := h.1.key
    obtain ⟨entry, hnext, hlen, htake, hreads⟩ := jsonGetNextObject_property hkey' h.1
      (bracesRight_of_mem hbraces (List.mem_cons_self ..)) hquiet hnul hend' hzero'
    rw [← htext] at hnext hreads
    rw [walk_some fuel hnext, lookup_cons]
    rcases List.mem_cons.mp hmem with rfl | hmem
    · -- the property itself
      obtain rfl : k' = k := Option.some.inj (hkey'.symm.trans hkey)
      have hfound : (reported entry && nameMatches k'.val entry) = true := by
        have hlong := List.length_pos_of_ne_nil hpath.ne_nil
        simp only [reported, nameMatches, hlen, htake, Bool.and_eq_true, bne_iff_ne,
          beq_self_eq_true, and_self, and_true]
        exact ⟨by omega, hreads.nonempty⟩
      rw [if_pos hfound]
      exact ⟨entry, rfl, hreads.copy, hreads.suffix, hreads.nul⟩
    · -- a property with another key
      have hother : k' ≠ k := by
        rintro rfl
        exact (List.pairwise_cons.mp hdistinct).1 property hmem (hkey'.trans hkey.symm)
      have hpass : ¬ (reported entry && nameMatches k.val entry) = true := by
        intro hfound
        simp only [nameMatches, hlen, Bool.and_eq_true, beq_iff_eq] at hfound
        rw [← hfound.2.1, htake] at hfound
        exact hother (Subtype.ext hfound.2.2)
      rw [if_neg hpass, hreads.next]
      have hne : others ≠ [] := List.ne_nil_of_mem hmem
      rw [allBracesRight, Bool.and_eq_true] at hbraces
      have hcomma : c' :: rest' = [comma] ++ (fieldsText others ++ c :: rest) := by
        cases others with
        | nil => exact absurd rfl hne
        | cons next others =>
          rw [fieldsText, List.isEmpty_cons, if_neg Bool.false_ne_true] at htext
          simp only [List.append_assoc, List.append_cancel_left_eq, List.cons_append] at htext
          rw [← htext]
          rfl
      have hrestFuel : others.length ≤ fuel := by
        rw [List.length_cons] at hfuel
        omega
      have hquiet' : quote ∉ [comma] := by decide
      have hnul' : (0 : UInt8) ∉ [comma] := by decide
      obtain ⟨found, hlookup, hcopy, hsuffix, hval⟩ :=
        ih hmem h.2 (List.pairwise_cons.mp hdistinct).2 hbraces.2 hquiet' hnul' hrestFuel
      rw [hcomma]
      refine ⟨found, hlookup, hcopy, hsuffix.trans ?_, hval⟩
      rw [← hcomma, htext]
      exact (List.suffix_append _ _).trans ((List.suffix_append _ _).trans (List.suffix_append _ _))

end Streams

section Scans

theorem digitValue_digitByte {digit : ℕ} (h : digit < 10) :
    digitValue 10 (digitByte digit) = some digit := by
  interval_cases digit <;> rfl

theorem digitValue_of_isDigit {c : UInt8} (h : isDigit c = true) :
    ∃ d, digitValue 10 c = some d := by
  have hdigit := h
  simp only [isDigit, Bool.and_eq_true, decide_eq_true_eq, UInt8.le_iff_toNat_le] at hdigit
  have hlow : (0x30 : UInt8).toNat = 48 := rfl
  have hhigh : (0x39 : UInt8).toNat = 57 := rfl
  refine ⟨c.toNat - 0x30, ?_⟩
  rw [digitValue, if_pos h]
  exact if_pos (by omega)

theorem readDigits_append {digits : List UInt8} (h : ∀ c ∈ digits, isDigit c = true) (value : ℕ)
    (text : List UInt8) :
    readDigits 10 value (digits ++ text) = readDigits 10 (readDigits 10 value digits) text := by
  induction digits generalizing value with
  | nil => rfl
  | cons c rest ih =>
    obtain ⟨d, hd⟩ := digitValue_of_isDigit (h c (List.mem_cons_self ..))
    rw [List.cons_append, readDigits, hd, readDigits, hd]
    exact ih (fun c' hmem => h c' (List.mem_cons_of_mem c hmem)) _

/-- Decimal digits are read back. -/
theorem readDigits_decimal (n : ℕ) : readDigits 10 0 (decimal n) = n := by
  induction n using Nat.strong_induction_on with
  | _ n ih =>
    have hlast : n % 10 < 10 := Nat.mod_lt n (by decide)
    rw [decimal_eq]
    by_cases hsmall : n < 10
    · rw [if_pos hsmall, List.nil_append, readDigits, digitValue_digitByte hlast]
      dsimp only
      rw [readDigits]
      omega
    · rw [if_neg hsmall, readDigits_append (isDigit_of_mem_decimal _), ih (n / 10) (by omega),
        readDigits, digitValue_digitByte hlast]
      dsimp only
      rw [readDigits]
      omega

theorem scanDigits_decimal (n : ℕ) : scanDigits 10 (decimal n) = some n := by
  have hread := readDigits_decimal n
  cases htext : decimal n with
  | nil => exact absurd htext (decimal_ne_nil n)
  | cons c rest =>
    rw [htext] at hread
    have hc : isDigit c = true :=
      isDigit_of_mem_decimal n c (htext ▸ List.mem_cons_self ..)
    obtain ⟨d, hd⟩ := digitValue_of_isDigit hc
    rw [readDigits, hd] at hread
    rw [scanDigits, hd, Option.map_some]
    dsimp only at hread
    rw [Nat.zero_mul, Nat.zero_add] at hread
    rw [hread]

theorem scanPrefixed_decimal (n : ℕ) : scanPrefixed (decimal n) = some n := by
  by_cases hn : n = 0
  · rw [hn]
    rfl
  · have hhead := decimal_head n hn
    rw [← scanDigits_decimal n]
    cases htext : decimal n with
    | nil => exact absurd htext (decimal_ne_nil n)
    | cons c rest =>
      rw [htext, List.head?_cons] at hhead
      unfold scanPrefixed
      split
      · next heq => exact absurd (congrArg some (List.cons.inj heq).1) hhead
      · next heq => exact absurd (congrArg some (List.cons.inj heq).1) hhead
      · next heq => exact absurd (congrArg some (List.cons.inj heq).1) hhead
      · rfl

/-- A sign and digits are read back. -/
theorem scanSigned_text {digits : List UInt8 → Option ℕ}
    (hdigits : ∀ n, digits (decimal n) = some n) (value : ℤ) :
    scanSigned digits (signedText value) = some value := by
  have hfirst : ∀ n, ∃ c rest, decimal n = c :: rest ∧ isSpace c = false ∧ c ≠ 0x2D ∧ c ≠ 0x2B := by
    intro n
    cases htext : decimal n with
    | nil => exact absurd htext (decimal_ne_nil n)
    | cons c rest =>
      have hc : isDigit c = true := isDigit_of_mem_decimal n c (htext ▸ List.mem_cons_self ..)
      refine ⟨c, rest, rfl, ?_, ?_, ?_⟩
      · simp only [isDigit, Bool.and_eq_true, decide_eq_true_eq, UInt8.le_iff_toNat_le] at hc
        have hlow : (0x30 : UInt8).toNat = 48 := rfl
        have hspace : (0x0D : UInt8).toNat = 13 := rfl
        have hne : c ≠ space := by
          rintro rfl
          exact absurd hc.1 (by decide)
        rw [isSpace, beq_eq_false_iff_ne.mpr hne, Bool.false_or, Bool.and_eq_false_iff]
        right
        rw [decide_eq_false_iff_not, UInt8.le_iff_toNat_le]
        omega
      · rintro rfl
        exact absurd hc (by decide)
      · rintro rfl
        exact absurd hc (by decide)
  obtain ⟨c, rest, htext, hspace, hminus, hplus⟩ := hfirst value.natAbs
  by_cases hneg : value < 0
  · have hsigned : signedText value = 0x2D :: decimal value.natAbs := by
      rw [signedText, sign, decide_eq_true hneg]
      rfl
    have hdrop : (0x2D :: decimal value.natAbs).dropWhile isSpace = 0x2D :: decimal value.natAbs :=
      List.dropWhile_cons_of_neg (by decide)
    have hread : scanSigned digits (0x2D :: decimal value.natAbs) = some (-(value.natAbs : ℤ)) := by
      simp only [scanSigned, hdrop, hdigits]
      rfl
    rw [hsigned, hread]
    congr 1
    omega
  · have hsigned : signedText value = decimal value.natAbs := by
      rw [signedText, sign, decide_eq_false hneg]
      rfl
    have hdrop : (c :: rest).dropWhile isSpace = c :: rest :=
      List.dropWhile_cons_of_neg (by rw [hspace]; decide)
    have hread : digits (c :: rest) = some value.natAbs := by rw [← htext, hdigits]
    rw [hsigned, htext, scanSigned, hdrop]
    split
    · next heq => exact absurd (List.cons.inj heq).1 hminus
    · next heq => exact absurd (List.cons.inj heq).1 hplus
    · rw [hread, Option.map_some]
      congr 1
      exact Int.natAbs_of_nonneg (Int.not_lt.mp hneg)

theorem scanInt_text {bits : ℕ} {value : ℤ} (hbmod : value.bmod (2 ^ bits) = value)
    (hlow : -2 ^ 63 ≤ value) (hhigh : value ≤ 2 ^ 63 - 1) :
    scanInt bits (signedText value) = some value := by
  rw [scanInt, scanSigned_text scanPrefixed_decimal, Option.map_some, min_eq_right hhigh,
    max_eq_right hlow, hbmod]

theorem scanUint_text {bits n : ℕ} (hn : n < 2 ^ bits) (hbits : bits ≤ 64) :
    scanUint bits (signedText n) = some n := by
  have hlong : n < 2 ^ 64 := hn.trans_le (Nat.pow_le_pow_right (by decide) hbits)
  rw [scanUint, scanSigned_text scanDigits_decimal, Option.map_some, Int.natAbs_natCast,
    if_pos hlong]
  congr 1
  have hpow : ((2 : ℤ) ^ bits) = ((2 ^ bits : ℕ) : ℤ) := by simp
  rw [hpow, ← Int.natCast_mod, Int.toNat_natCast, Nat.mod_eq_of_lt hn]

end Scans

section Restoring
variable {scanFloat : ScanFloat}

theorem cut_eq {text : CString} {n : ℕ} (h : text.val.length ≤ n) :
    cut (text.val.take n) = text := by
  apply Subtype.ext
  rw [cut, List.take_of_length_le h]
  dsimp only
  rw [List.takeWhile_eq_self_iff]
  intro c hmem
  exact bne_iff_ne.mpr fun hc => text.property (hc ▸ hmem)

/-- The value of a scalar is read back from its copy. -/
theorem directUpdateValue_copy {key : Option CString} {data old : Scalar}
    (h : Restorable (.scalar key data)) (halike : Alike (.scalar key data) (.scalar key old)) :
    directUpdateValue scanFloat (copyText (.scalar key data)) old = data := by
  have hsmall : ∀ (bits : ℕ) {value : ℤ}, bits ≤ 32 → 0 < bits → -2 ^ (bits - 1) ≤ value →
      value < 2 ^ (bits - 1) → scanInt bits (signedText value) = some value := by
    intro bits value hbits hpos hlow hhigh
    obtain ⟨b, rfl⟩ : ∃ b, bits = b + 1 := ⟨bits - 1, by omega⟩
    rw [Nat.add_sub_cancel] at hlow hhigh
    have hpow : (2 : ℤ) ^ b ≤ 2 ^ 31 := by
      exact_mod_cast Nat.pow_le_pow_right (by decide : 0 < 2) (by omega : b ≤ 31)
    have hsucc : (2 : ℕ) ^ (b + 1) = 2 * 2 ^ b := by rw [Nat.pow_succ, Nat.mul_comm]
    have hcast : ((2 ^ b : ℕ) : ℤ) = 2 ^ b := by simp
    apply scanInt_text
    · rw [hsucc]
      apply Int.bmod_eq_of_le <;> omega
    · omega
    · omega
  obtain ⟨-, hdata⟩ := h
  cases data with
  | float bits => exact hdata.elim
  | double bits => exact hdata.elim
  | array text n => exact hdata.elim
  | int32 value =>
    obtain ⟨other, heq⟩ := halike
    injection heq with _ heq
    have hcopy : copyText (.scalar key (.int32 value)) = signedText value.toInt := rfl
    have hread := hsmall 32 (by decide) (by decide) (Int32.le_toInt value) (Int32.toInt_lt value)
    rw [heq, hcopy, directUpdateValue, hread, Option.elim_some, Int32.ofInt_toInt]
  | int16 value =>
    obtain ⟨other, heq⟩ := halike
    injection heq with _ heq
    have hcopy : copyText (.scalar key (.int16 value)) = signedText value.toInt := rfl
    have hread := hsmall 16 (by decide) (by decide) (Int16.le_toInt value) (Int16.toInt_lt value)
    rw [heq, hcopy, directUpdateValue, hread, Option.elim_some, Int16.ofInt_toInt]
  | int8 value =>
    obtain ⟨other, heq⟩ := halike
    injection heq with _ heq
    have hcopy : copyText (.scalar key (.int8 value)) = signedText value.toInt := rfl
    have hread := hsmall 8 (by decide) (by decide) (Int8.le_toInt value) (Int8.toInt_lt value)
    rw [heq, hcopy, directUpdateValue, hread, Option.elim_some, Int8.ofInt_toInt]
  | uint32 value =>
    obtain ⟨other, heq⟩ := halike
    injection heq with _ heq
    have hcopy : copyText (.scalar key (.uint32 value)) = signedText value.toNat := rfl
    have hread : scanUint 32 (signedText value.toNat) = some value.toNat :=
      scanUint_text value.toNat_lt (by decide)
    rw [heq, hcopy, directUpdateValue, hread, Option.elim_some, UInt32.ofNat_toNat]
  | uint16 value =>
    obtain ⟨other, heq⟩ := halike
    injection heq with _ heq
    have hcopy : copyText (.scalar key (.uint16 value)) = signedText value.toNat := rfl
    have hread : scanUint 16 (signedText value.toNat) = some value.toNat :=
      scanUint_text value.toNat_lt (by decide)
    rw [heq, hcopy, directUpdateValue, hread, Option.elim_some, UInt16.ofNat_toNat]
  | uint8 value =>
    obtain ⟨other, heq⟩ := halike
    injection heq with _ heq
    have hcopy : copyText (.scalar key (.uint8 value)) = signedText value.toNat := rfl
    have hread : scanUint 8 (signedText value.toNat) = some value.toNat :=
      scanUint_text value.toNat_lt (by decide)
    rw [heq, hcopy, directUpdateValue, hread, Option.elim_some, UInt8.ofNat_toNat]
  | boolean value =>
    obtain ⟨other, heq⟩ := halike
    injection heq with _ heq
    have hboolean : ∀ value : Bool,
        ((if value then ascii "true" else ascii "false") != ascii "false") = value := by decide
    have hcopy : copyText (.scalar key (.boolean value)) =
        if value then ascii "true" else ascii "false" := rfl
    rw [heq, hcopy, directUpdateValue, hboolean]
  | string text n =>
    obtain ⟨other, heq⟩ := halike
    injection heq with _ heq
    rw [heq, directUpdateValue, copyText, cut_eq hdata.2.2]

theorem startsNull_cons {c : UInt8} (rest : List UInt8) (hlower : c ≠ 0x6E) (hupper : c ≠ 0x4E) :
    startsNull (c :: rest) = false := by
  have hnull : ascii "null" = [0x6E, 0x75, 0x6C, 0x6C] := by decide
  have hNULL : ascii "NULL" = [0x4E, 0x55, 0x4C, 0x4C] := by decide
  rw [startsNull, hnull, hNULL, List.take_succ_cons, Bool.or_eq_false_iff, beq_eq_false_iff_ne,
    beq_eq_false_iff_ne]
  exact ⟨fun h => hlower (List.cons.inj h).1, fun h => hupper (List.cons.inj h).1⟩

/-- What is printed for a number is no null. -/
theorem startsNull_signedText (value : ℤ) : startsNull (signedText value) = false := by
  rw [signedText, sign]
  by_cases hneg : value < 0
  · rw [decide_eq_true hneg, if_pos rfl]
    exact startsNull_cons _ (by decide) (by decide)
  · rw [decide_eq_false hneg, if_neg Bool.false_ne_true, List.nil_append]
    cases htext : decimal value.natAbs with
    | nil => exact absurd htext (decimal_ne_nil _)
    | cons c rest =>
      have hc : isDigit c = true :=
        isDigit_of_mem_decimal _ c (htext ▸ List.mem_cons_self ..)
      apply startsNull_cons
      · rintro rfl
        exact absurd hc (by decide)
      · rintro rfl
        exact absurd hc (by decide)

/-- Only a string is taken for a null. -/
theorem startsNull_copyText {property : Property} (h : Restorable property)
    (hbraces : bracesRight property = true) :
    startsNull (copyText property) = true ↔
      ∃ key text n, property = .scalar key (.string text n) ∧ startsNull text.val = true := by
  have hno : startsNull (copyText property) = false →
      (∀ key text n, property ≠ .scalar key (.string text n)) →
      (startsNull (copyText property) = true ↔
        ∃ key text n, property = .scalar key (.string text n) ∧ startsNull text.val = true) := by
    intro hfalse hother
    rw [hfalse]
    constructor
    · intro h
      cases h
    · rintro ⟨key, text, n, heq, -⟩
      exact absurd heq (hother key text n)
  cases property with
  | null key => exact h.elim
  | struct key members =>
    apply hno
    · have hne : members ≠ [] := by
        rintro rfl
        rw [bracesRight] at hbraces
        exact absurd hbraces (by simp)
      have hcopy : copyText (.struct key members) = valueText (.struct key members) := rfl
      rw [hcopy, valueText_struct hne h.2.2.keys]
      exact startsNull_cons _ (by decide) (by decide)
    · intro key' text n heq
      cases heq
  | scalar key data =>
    obtain ⟨-, hdata⟩ := h
    cases data with
    | float bits => exact hdata.elim
    | double bits => exact hdata.elim
    | array text n => exact hdata.elim
    | string text n =>
      constructor
      · intro h
        exact ⟨key, text, n, rfl, h⟩
      · rintro ⟨key', text', n', heq, hnull⟩
        injection heq with _ heq
        injection heq with heq _
        exact heq ▸ hnull
    | boolean value =>
      have hboolean : ∀ value : Bool,
          startsNull (if value then ascii "true" else ascii "false") = false := by decide
      apply hno (hboolean value)
      intro key' text n heq
      injection heq with _ heq
      cases heq
    | _ =>
      apply hno (startsNull_signedText _)
      intro key' text n heq
      injection heq with _ heq
      cases heq

def document (properties : List Property) (c : UInt8) (rest : Ptr) : Ptr :=
  openBrace :: (fieldsText properties ++ c :: rest)

theorem length_le_fieldsText (properties : List Property) :
    properties.length ≤ (fieldsText properties).length := by
  induction properties with
  | nil => exact Nat.le_refl 0
  | cons property rest ih =>
    rw [fieldsText, keyText]
    cases rest with
    | nil =>
      simp only [List.length_append, List.length_cons, List.length_nil]
      omega
    | cons next rest =>
      rw [List.isEmpty_cons, if_neg Bool.false_ne_true]
      simp only [List.length_append, List.length_cons] at ih ⊢
      omega

/-- The value of each property is found under its key. -/
theorem liteJsonValueOf_fields {property : Property} {properties : List Property} {k : CString}
    {c : UInt8} {rest : Ptr} (hmem : property ∈ properties) (hkey : property.key = some k)
    (h : AllRestorable properties) (hdistinct : Distinct properties)
    (hbraces : allBracesRight properties = true) (hend : endsNumber c = true)
    (hzero : (0 : UInt8) ∈ rest) :
    liteJsonValueOf k.val (document properties c rest) = .ok (some (copyText property)) := by
  have hpath : PathKey k.val := by
    obtain ⟨k', hkey', hpath⟩ := (h.mem hmem).key
    obtain rfl : k' = k := Option.some.inj (hkey'.symm.trans hkey)
    exact hpath
  have hfuel : properties.length ≤ (document properties c rest).length + 1 := by
    have hlong := length_le_fieldsText properties
    rw [document, List.length_cons, List.length_append]
    omega
  have hquiet : quote ∉ [openBrace] := by decide
  have hnul : (0 : UInt8) ∉ [openBrace] := by decide
  obtain ⟨entry, hlookup, hcopy, hsuffix, hval⟩ :=
    lookup_fields hmem hkey h hdistinct hbraces hquiet hnul hend hzero hfuel
  have hforEach : lookup k.val (forEach .object (document properties c rest)) = .ok (some entry) :=
    hlookup
  have hdoc : (0 : UInt8) ∈ document properties c rest :=
    List.mem_cons_of_mem _ (List.mem_append_right _ (List.mem_cons_of_mem c hzero))
  rw [liteJsonValueOf_name hpath.noDot hdoc hforEach, Option.map_some, hcopy]
  intro entry' heq
  obtain rfl := Option.some.inj heq
  exact ⟨hsuffix, hval⟩

/-- The value of the property is found under its key in this text. -/
def FoundIn (doc : Ptr) (property : Property) : Prop :=
  ∀ k, property.key = some k → liteJsonValueOf k.val doc = .ok (some (copyText property))

/-- The members of a struct are found in the copy of its text. -/
theorem foundIn_struct {key : Option CString} {members : List Property}
    (h : Restorable (.struct key members)) (hbraces : bracesRight (.struct key members) = true) :
    ∀ member ∈ members, FoundIn (copyText (.struct key members) ++ [0]) member := by
  rw [bracesRight, Bool.and_eq_true, Bool.and_eq_true] at hbraces
  have hne : members ≠ [] := by
    rintro rfl
    exact absurd hbraces.1.1 (by decide)
  have hcopy : copyText (.struct key members) = valueText (.struct key members) := rfl
  have hdoc : copyText (.struct key members) ++ [0] = document members closeBrace [0] := by
    rw [hcopy, valueText_struct hne h.2.2.keys, document]
    simp
  intro member hmem k hkey
  rw [hdoc]
  exact liteJsonValueOf_fields hmem hkey h.2.2 h.2.1 hbraces.2 (by decide) (by decide)

theorem propertyData_found {doc : Ptr} {property : Property} {k : CString}
    (hkey : property.key = some k) (hfound : FoundIn doc property) :
    propertyData (some k) doc =
      .ok (if startsNull (copyText property) then none else some (copyText property)) := by
  rw [propertyData, hfound k hkey]
  cases hnull : startsNull (copyText property) <;> simp [Except.map, Option.filter, hnull]

end Restoring

section Runs
variable {scanFloat : ScanFloat} {doc : Ptr}

theorem Alike.scalar {key : Option CString} {data : Scalar} {old : Property}
    (h : Alike (.scalar key data) old) : ∃ old', old = .scalar key old' := by
  cases data with
  | string text n =>
    obtain ⟨text', rfl⟩ := h
    exact ⟨_, rfl⟩
  | array text n =>
    obtain ⟨text', rfl⟩ := h
    exact ⟨_, rfl⟩
  | _ =>
    obtain ⟨value, rfl⟩ := h
    exact ⟨_, rfl⟩

theorem Alike.key {property old : Property} (h : Restorable property)
    (halike : Alike property old) :
    old.key = property.key := by
  cases property with
  | null key => exact h.elim
  | scalar key data =>
    obtain ⟨old', rfl⟩ := halike.scalar
    rfl
  | struct key members =>
    obtain ⟨others, rfl, -⟩ := halike
    rfl

theorem keepsStrings_scalar {key : Option CString} {data : Scalar}
    (h : Restorable (.scalar key data)) (hkeeps : keepsStrings (.scalar key data) = true) :
    startsNull (copyText (.scalar key data)) = false := by
  by_contra hnull
  rw [Bool.not_eq_false, startsNull_copyText h rfl] at hnull
  obtain ⟨key', text, n, heq, hnull⟩ := hnull
  injection heq with _ heq
  rw [heq, keepsStrings, hnull] at hkeeps
  cases hkeeps

theorem copyText_struct_kept {key : Option CString} {members : List Property}
    (h : Restorable (.struct key members)) (hbraces : bracesRight (.struct key members) = true) :
    startsNull (copyText (.struct key members)) = false := by
  by_contra hnull
  rw [Bool.not_eq_false, startsNull_copyText h hbraces] at hnull
  obtain ⟨key', text, n, heq, -⟩ := hnull
  cases heq

mutual

/-- A property whose strings are no nulls is restored. -/
theorem update_restores : (property : Property) → Restorable property →
    bracesRight property = true → keepsStrings property = true → ∀ old, Alike property old →
    ∀ doc, FoundIn doc property →
    updateValueIfKeyMatch scanFloat old doc = .ok (true, property)
  | .null _, h, _, _, _, _, _, _ => h.elim
  | .scalar key data, h, _, hkeeps, old, halike, doc, hfound => by
      obtain ⟨old', rfl⟩ := halike.scalar
      obtain ⟨k, rfl, -⟩ := h.1
      rw [updateValueIfKeyMatch, propertyData_found rfl hfound, keepsStrings_scalar h hkeeps,
        if_neg Bool.false_ne_true]
      dsimp only
      rw [directUpdateValue_copy h halike]
  | .struct key members, h, hbraces, hkeeps, old, halike, doc, hfound => by
      obtain ⟨others, rfl, hothers⟩ := halike
      obtain ⟨k, rfl, -⟩ := h.1
      have hmembers := updateMembers_restores members h.2.2
        (by rw [bracesRight, Bool.and_eq_true] at hbraces; exact hbraces.2) hkeeps others hothers
        _ (foundIn_struct h hbraces)
      rw [updateValueIfKeyMatch, propertyData_found rfl hfound, copyText_struct_kept h hbraces,
        if_neg Bool.false_ne_true]
      dsimp only
      rw [hmembers]
      rfl

theorem updateMembers_restores : (members : List Property) → AllRestorable members →
    allBracesRight members = true → allKeepStrings members = true →
    ∀ others, AllAlike members others → ∀ doc, (∀ member ∈ members, FoundIn doc member) →
    updateMembers scanFloat others doc = .ok members
  | [], _, _, _, others, halike, doc, _ => by
      rw [show others = [] from halike]
      rfl
  | member :: rest, h, hbraces, hkeeps, others, halike, doc, hfound => by
      obtain ⟨other, others', rfl, hother, hothers⟩ := halike
      rw [allBracesRight, Bool.and_eq_true] at hbraces
      rw [allKeepStrings, Bool.and_eq_true] at hkeeps
      have hfirst := update_restores member h.1 hbraces.1 hkeeps.1 other hother doc
        (hfound member (List.mem_cons_self ..))
      have hrest := updateMembers_restores rest h.2 hbraces.2 hkeeps.2 others' hothers doc
        fun m hm => hfound m (List.mem_cons_of_mem member hm)
      have hkey : other.key ≠ none := by
        rw [Alike.key h.1 hother]
        exact h.keys member (List.mem_cons_self ..)
      rw [updateMembers, if_neg hkey, hfirst]
      dsimp only
      rw [hrest]
      rfl

end

mutual

theorem Alike.refl : (property : Property) → Restorable property → Alike property property
  | .null _, h => h.elim
  | .scalar key data, _ => by cases data <;> exact ⟨_, rfl⟩
  | .struct key members, h => ⟨members, rfl, AllAlike.refl members h.2.2⟩

theorem AllAlike.refl : (properties : List Property) → AllRestorable properties →
    AllAlike properties properties
  | [], _ => rfl
  | property :: rest, h => ⟨property, rest, rfl, Alike.refl property h.1, AllAlike.refl rest h.2⟩

end

theorem updateMembers_cons {other : Property} {others members : List Property} {member : Property}
    (h : updateMembers scanFloat (other :: others) doc = .ok (member :: members))
    (hkey : other.key ≠ none) :
    (updateValueIfKeyMatch scanFloat other doc).map Prod.snd = .ok member ∧
      updateMembers scanFloat others doc = .ok members := by
  rw [updateMembers, if_neg hkey] at h
  cases hfirst : updateValueIfKeyMatch scanFloat other doc with
  | error e =>
    rw [hfirst] at h
    cases h
  | ok updated =>
    rw [hfirst] at h
    dsimp only at h
    cases hrest : updateMembers scanFloat others doc with
    | error e =>
      rw [hrest] at h
      cases h
    | ok rest =>
      rw [hrest] at h
      injection h with h
      obtain ⟨hhead, htail⟩ := List.cons.inj h
      rw [← hhead, ← htail]
      exact ⟨rfl, rfl⟩

mutual

/-- A property with a string that begins like a null is not restored from every value. -/
theorem update_not_restores : (property : Property) → Restorable property →
    bracesRight property = true → keepsStrings property = false →
    ∃ old, Alike property old ∧ ∀ doc, FoundIn doc property →
      (updateValueIfKeyMatch scanFloat old doc).map Prod.snd ≠ .ok property
  | .null _, h, _, _ => h.elim
  | .scalar key (.string text n), h, _, hkeeps => by
      rw [keepsStrings, Bool.not_eq_false'] at hkeeps
      obtain ⟨k, rfl, -⟩ := h.1
      have hne : cut [] ≠ text := by
        rintro rfl
        exact h.2.1 rfl
      refine ⟨.scalar (some k) (.string (cut []) n), ⟨_, rfl⟩, ?_⟩
      intro doc hfound hrestored
      have hcopy : copyText (.scalar (some k) (.string text n)) = text.val := rfl
      rw [updateValueIfKeyMatch, propertyData_found rfl hfound, hcopy, if_pos hkeeps] at hrestored
      injection hrestored with heq
      injection heq with _ heq
      injection heq with heq _
      exact hne heq
  | .struct key members, h, hbraces, hkeeps => by
      have hmembers := hbraces
      rw [bracesRight, Bool.and_eq_true] at hmembers
      obtain ⟨others, halike, hnot⟩ := updateMembers_not_restores members h.2.2 hmembers.2 hkeeps
      obtain ⟨k, rfl, -⟩ := h.1
      refine ⟨.struct (some k) others, ⟨others, rfl, halike⟩, ?_⟩
      intro doc hfound hrestored
      rw [updateValueIfKeyMatch, propertyData_found rfl hfound, copyText_struct_kept h hbraces,
        if_neg Bool.false_ne_true] at hrestored
      dsimp only at hrestored
      apply hnot _ (foundIn_struct h hbraces)
      cases hupdate : updateMembers scanFloat others
          (copyText (.struct (some k) members) ++ [0]) with
      | error e =>
        rw [hupdate] at hrestored
        cases hrestored
      | ok updated =>
        rw [hupdate] at hrestored
        injection hrestored with heq
        injection heq with _ heq
        rw [heq]

theorem updateMembers_not_restores : (members : List Property) → AllRestorable members →
    allBracesRight members = true → allKeepStrings members = false →
    ∃ others, AllAlike members others ∧ ∀ doc, (∀ member ∈ members, FoundIn doc member) →
      updateMembers scanFloat others doc ≠ .ok members
  | [], _, _, hkeeps => absurd hkeeps (by decide)
  | member :: rest, h, hbraces, hkeeps => by
      rw [allBracesRight, Bool.and_eq_true] at hbraces
      rw [allKeepStrings, Bool.and_eq_false_iff] at hkeeps
      rcases hkeeps with hkeeps | hkeeps
      · -- the first member
        obtain ⟨old, halike, hnot⟩ := update_not_restores member h.1 hbraces.1 hkeeps
        refine ⟨old :: rest, ⟨old, rest, rfl, halike, AllAlike.refl rest h.2⟩, ?_⟩
        intro doc hfound hrestored
        have hkey : old.key ≠ none := by
          rw [Alike.key h.1 halike]
          exact h.keys member (List.mem_cons_self ..)
        exact hnot doc (hfound member (List.mem_cons_self ..)) (updateMembers_cons hrestored hkey).1
      · -- the members behind it
        obtain ⟨others, halike, hnot⟩ := updateMembers_not_restores rest h.2 hbraces.2 hkeeps
        refine ⟨member :: others, ⟨member, others, rfl, Alike.refl member h.1, halike⟩, ?_⟩
        intro doc hfound hrestored
        exact hnot doc (fun m hm => hfound m (List.mem_cons_of_mem member hm))
          (updateMembers_cons hrestored (h.keys member (List.mem_cons_self ..))).2

end

end Runs

section Lists
variable {scanFloat : ScanFloat}

theorem putNodes_text {size : ℕ} {properties : List Property} {buffer buffer' : Buffer}
    (hsize : size < 2 ^ 31) (hkeys : ∀ property ∈ properties, property.key ≠ none)
    (h : putNodes size properties buffer = (.success, buffer')) :
    buffer'.text = buffer.text ++ nodesText properties := by
  induction properties generalizing buffer with
  | nil =>
    injection h with _ h
    rw [← h, nodesText, List.append_nil]
  | cons property rest ih =>
    have hputs := @putJsonNode_puts property 0 size buffer hsize (Nat.zero_le _)
    rw [putNodes, andThen] at h
    by_cases hsuccess : (putJsonNode 0 size property buffer).1 = .success
    · rw [if_pos hsuccess] at h
      have htext := ih (fun p hp => hkeys p (List.mem_cons_of_mem property hp)) h
      have hroom := not_not.mp fun hroom => hputs.full hroom hsuccess
      rw [htext, (hputs.done hroom).2, nodesText,
        if_neg (hkeys property (List.mem_cons_self ..)), List.append_assoc]
    · rw [if_neg hsuccess] at h
      rw [h] at hsuccess
      exact absurd rfl hsuccess

/-- The printed text, in braces. -/
theorem document_eq {size : ℕ} {properties : List Property} {buffer : Buffer} {behind : Ptr}
    (hsize : size < 2 ^ 31) (hkeys : ∀ property ∈ properties, property.key ≠ none)
    (hne : properties ≠ []) (h : putNodes size properties ⟨[], 0⟩ = (.success, buffer)) :
    openBrace :: (buffer.text ++ closeBrace :: 0 :: behind) =
      document properties comma (closeBrace :: 0 :: behind) := by
  rw [putNodes_text hsize hkeys h, List.nil_append, nodesText_eq hne hkeys, document]
  simp

theorem keepsStrings_of_mem {properties : List Property} {property : Property}
    (h : allKeepStrings properties = true) (hmem : property ∈ properties) :
    keepsStrings property = true := by
  induction properties with
  | nil => exact absurd hmem List.not_mem_nil
  | cons first rest ih =>
    rw [allKeepStrings, Bool.and_eq_true] at h
    rcases List.mem_cons.mp hmem with rfl | hmem
    · exact h.1
    · exact ih h.2 hmem

theorem exists_not_keepsStrings {properties : List Property}
    (h : ¬ allKeepStrings properties = true) :
    ∃ property ∈ properties, keepsStrings property = false := by
  induction properties with
  | nil => exact absurd rfl h
  | cons first rest ih =>
    rw [allKeepStrings, Bool.and_eq_true, not_and_or] at h
    rcases h with h | h
    · exact ⟨first, List.mem_cons_self .., Bool.eq_false_of_not_eq_true h⟩
    · obtain ⟨property, hmem, hnot⟩ := ih h
      exact ⟨property, List.mem_cons_of_mem first hmem, hnot⟩

/-- Properties whose structs' braces are right are restored from the text that is printed for them,
in braces, exactly when no string in them begins like a null. -/
theorem put_update_restores_iff {size : ℕ} {properties : List Property} {buffer : Buffer}
    (behind : Ptr) (hsize : size < 2 ^ 31) (h : AllRestorable properties)
    (hdistinct : Distinct properties) (hbraces : allBracesRight properties = true)
    (hput : putNodes size properties ⟨[], 0⟩ = (.success, buffer)) :
    Restores scanFloat properties (openBrace :: (buffer.text ++ closeBrace :: 0 :: behind)) ↔
      allKeepStrings properties = true := by
  have hfound : ∀ property ∈ properties,
      FoundIn (openBrace :: (buffer.text ++ closeBrace :: 0 :: behind)) property := by
    intro property hmem k hkey
    rw [document_eq hsize h.keys (List.ne_nil_of_mem hmem) hput]
    exact liteJsonValueOf_fields hmem hkey h hdistinct hbraces (by decide) (by simp)
  constructor
  · intro hrestores
    by_contra hnot
    obtain ⟨property, hmem, hkeeps⟩ := exists_not_keepsStrings hnot
    obtain ⟨old, halike, hlost⟩ := @update_not_restores scanFloat property
      (h.mem hmem) (bracesRight_of_mem hbraces hmem) hkeeps
    exact hlost _ (hfound property hmem) (hrestores property hmem old halike)
  · intro hkeeps property hmem old halike
    rw [update_restores property (h.mem hmem) (bracesRight_of_mem hbraces hmem)
      (keepsStrings_of_mem hkeeps hmem) old halike _ (hfound property hmem)]
    rfl

/-- A struct with two members, `{"p":{"a":5,"b":"x"}}`. -/
def point : Property :=
  .struct (some ⟨ascii "p", by decide⟩)
    [.scalar (some ⟨ascii "a", a_noNul⟩) (.int32 5),
      .scalar (some ⟨ascii "b", by decide⟩) (.string ⟨ascii "x", by decide⟩ 8)]

theorem allRestorable_point : AllRestorable [point] := by
  have hkey : ∀ c ∈ ascii "pab", PathKey [c] := by
    intro c hmem
    have hall : (ascii "pab").all fun c => dot ≠ c ∧ quote ≠ c := by decide
    have hplain := of_decide_eq_true (List.all_eq_true.mp hall c hmem)
    exact ⟨List.cons_ne_nil _ _, by simpa using hplain.1, by simpa using hplain.2⟩
  have hdistinct : Distinct [
      .scalar (some ⟨ascii "a", by decide⟩) (.int32 5),
      .scalar (some ⟨ascii "b", by decide⟩) (.string ⟨ascii "x", by decide⟩ 8)] := by
    apply List.pairwise_pair.mpr
    decide
  refine ⟨⟨⟨_, rfl, hkey _ (by decide)⟩, hdistinct, ?_⟩, trivial⟩
  refine ⟨⟨⟨_, rfl, hkey _ (by decide)⟩, trivial⟩, ⟨⟨_, rfl, hkey _ (by decide)⟩, ?_⟩, trivial⟩
  exact ⟨by decide, by decide, by decide⟩

theorem put_update_restores_point :
    Restores (fun _ _ => none) [point]
        (openBrace :: ((putNodes 64 [point] ⟨[], 0⟩).2.text ++ closeBrace :: 0 :: [])) ↔
      allKeepStrings [point] = true := by
  have hsize : 64 < 2 ^ 31 := by decide
  have hsuccess : (putNodes 64 [point] ⟨[], 0⟩).1 = .success := by decide
  have hput : putNodes 64 [point] ⟨[], 0⟩ = (.success, (putNodes 64 [point] ⟨[], 0⟩).2) := by
    rw [← hsuccess]
  exact put_update_restores_iff [] hsize allRestorable_point (List.pairwise_singleton _ _)
    (by decide) hput

/-- A string that begins like a null is taken for one. -/
def nullText : Property :=
  .scalar (some ⟨ascii "a", a_noNul⟩) (.string ⟨ascii "null", by decide⟩ 8)

theorem put_update_restores_null : ¬ ∀ (scanFloat : ScanFloat) (size : ℕ)
    (properties : List Property) (buffer : Buffer) (behind : Ptr), size < 2 ^ 31 →
    AllRestorable properties → Distinct properties →
    putNodes size properties ⟨[], 0⟩ = (.success, buffer) →
    Restores scanFloat properties (openBrace :: (buffer.text ++ closeBrace :: 0 :: behind)) := by
  intro hall
  have hkey : PathKey (ascii "a") := ⟨by decide, by decide, by decide⟩
  have hrestorable : AllRestorable [nullText] :=
    ⟨⟨⟨_, rfl, hkey⟩, by decide, by decide, by decide⟩, trivial⟩
  have hrestores := hall (fun _ _ => none) 64 [nullText] _ [] (by decide) hrestorable
    (List.pairwise_singleton _ _) rfl
  have hread := hrestores nullText (List.mem_singleton_self _)
    (.scalar (some ⟨ascii "a", by decide⟩) (.string ⟨ascii "x", by decide⟩ 8)) ⟨_, rfl⟩
  have htext := congrArg (fun read => (read.map copyText).toOption) hread
  exact absurd htext (by decide)

end Lists

end IotExplorer.PropertyUpdate
