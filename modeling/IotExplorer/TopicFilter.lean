import IotExplorer.Basis.Levels

/-!
The topic matcher of mqtt_client_common.c. A C string is the list of its bytes
before the terminating NUL. The two cursors are list suffixes; the byte before
the topic cursor is carried along, since the end test reads it. At the start of
the topic that byte lies before the buffer and is whatever memory holds there.
-/
namespace IotExplorer.TopicFilter

open Basis.Levels

def slash : UInt8 := 47
def plus : UInt8 := 43
def hash : UInt8 := 35

/-- `while (nextpos < curn_end && *nextpos != '/') nextpos = ++curn + 1`, with
the closing `curn++`: the last byte of the level and what follows it. -/
def skipLevel : UInt8 → List UInt8 → UInt8 × List UInt8
  | c, [] => (c, [])
  | c, d :: rest => if d = slash then (c, d :: rest) else skipLevel d rest

/-- The main loop of `_is_topic_matched`: filter cursor, byte before the topic
cursor, topic cursor. -/
def topicScan : List UInt8 → UInt8 → List UInt8 → List UInt8 × UInt8 × List UInt8
  | [], prev, curn => ([], prev, curn)
  | f :: fs, prev, [] => (f :: fs, prev, [])
  | f :: fs, prev, n :: ns =>
      if f = plus ∧ n = slash then topicScan fs prev (n :: ns)
      else if n = slash ∧ f ≠ slash then (f :: fs, prev, n :: ns)
      else if f ≠ plus ∧ f ≠ hash ∧ f ≠ n then (f :: fs, prev, n :: ns)
      else if f = plus then topicScan fs (skipLevel n ns).1 (skipLevel n ns).2
      else if f = hash then topicScan fs ((n :: ns).getLast (List.cons_ne_nil n ns)) []
      else topicScan fs n ns

/-- `_is_topic_matched`; `prev` is the byte before `topicName`. -/
def isTopicMatched (prev : UInt8) (topicFilter topicName : List UInt8) : Bool :=
  match topicScan topicFilter prev topicName with
  | ([], _, curn) => curn.isEmpty
  | (c :: cs, last, _) =>
      c == hash || cs.head? == some hash || (c == plus && last == slash)

def isTopicEquals (topicFilter topicName : List UInt8) : Bool :=
  topicFilter.length == topicName.length && topicFilter == topicName

/-- One level of a filter: `+`, `#` or a literal. -/
def segment (level : List UInt8) : Segment (List UInt8) :=
  if level = [plus] then .any else if level = [hash] then .rest else .exact level

def levels (topic : List UInt8) : List (List UInt8) := topic.splitOn slash

def segments (filter : List UInt8) : List (Segment (List UInt8)) :=
  (levels filter).map segment

/-- A filter matches a topic name level by level. -/
def TopicMatches (filter topic : List UInt8) : Prop :=
  Matches (segments filter) (levels topic)

instance (filter topic : List UInt8) : Decidable (TopicMatches filter topic) := by
  unfold TopicMatches
  infer_instance

/-- A level without wildcard characters. -/
def Literal (level : List UInt8) : Prop := plus ∉ level ∧ hash ∉ level

/-- `+` only as a whole level, `#` only as the whole last level. -/
def ValidLevels : List (List UInt8) → Prop
  | [] => True
  | [level] => Literal level ∨ level = [plus] ∨ level = [hash]
  | level :: rest => (Literal level ∨ level = [plus]) ∧ ValidLevels rest

def ValidFilter (filter : List UInt8) : Prop := ValidLevels (levels filter)

instance (level : List UInt8) : Decidable (Literal level) :=
  inferInstanceAs (Decidable (_ ∧ _))

instance decidableValidLevels : (ls : List (List UInt8)) → Decidable (ValidLevels ls)
  | [] => isTrue trivial
  | [_] => inferInstanceAs (Decidable (_ ∨ _ ∨ _))
  | _ :: level :: rest =>
      have := decidableValidLevels (level :: rest)
      inferInstanceAs (Decidable (_ ∧ _))

instance (filter : List UInt8) : Decidable (ValidFilter filter) :=
  decidableValidLevels (levels filter)

theorem segment_literal (level : List UInt8) (h : Literal level) :
    segment level = .exact level := by
  have hplus : level ≠ [plus] := by
    rintro rfl
    exact h.1 (List.mem_singleton.mpr rfl)
  have hhash : level ≠ [hash] := by
    rintro rfl
    exact h.2 (List.mem_singleton.mpr rfl)
  simp [segment, hplus, hhash]

theorem segment_eq_rest_iff (level : List UInt8) : segment level = .rest ↔ level = [hash] := by
  unfold segment
  split
  next h => subst h; decide
  next h =>
    split
    next h' => simp [h']
    next h' => simp [h']

@[simp] theorem topicScan_nil (prev : UInt8) (curn : List UInt8) :
    topicScan [] prev curn = ([], prev, curn) := by
  cases curn <;> rfl

@[simp] theorem topicScan_end (prev f : UInt8) (fs : List UInt8) :
    topicScan (f :: fs) prev [] = (f :: fs, prev, []) := rfl

theorem topicScan_cons (prev f n : UInt8) (fs ns : List UInt8) :
    topicScan (f :: fs) prev (n :: ns) =
      if f = plus ∧ n = slash then topicScan fs prev (n :: ns)
      else if n = slash ∧ f ≠ slash then (f :: fs, prev, n :: ns)
      else if f ≠ plus ∧ f ≠ hash ∧ f ≠ n then (f :: fs, prev, n :: ns)
      else if f = plus then topicScan fs (skipLevel n ns).1 (skipLevel n ns).2
      else if f = hash then topicScan fs ((n :: ns).getLast (List.cons_ne_nil n ns)) []
      else topicScan fs n ns := rfl

@[simp] theorem isTopicMatched_nil (prev : UInt8) (t : List UInt8) :
    isTopicMatched prev [] t = t.isEmpty := by
  simp [isTopicMatched]

@[simp] theorem isTopicMatched_end (prev f : UInt8) (fs : List UInt8) :
    isTopicMatched prev (f :: fs) [] =
      (f == hash || fs.head? == some hash || (f == plus && prev == slash)) := by
  simp [isTopicMatched]

theorem isTopicMatched_step (prev c : UInt8) (fs ns : List UInt8)
    (hp : c ≠ plus) (hh : c ≠ hash) :
    isTopicMatched prev (c :: fs) (c :: ns) = isTopicMatched c fs ns := by
  simp [isTopicMatched, topicScan_cons, hp, hh]

/-- At a differing byte the scan stops, and only a `#` one byte on accepts. -/
theorem isTopicMatched_stop (prev f n : UInt8) (fs ns : List UInt8)
    (hp : f ≠ plus) (hh : f ≠ hash) (hne : f ≠ n) :
    isTopicMatched prev (f :: fs) (n :: ns) = (fs.head? == some hash) := by
  have hscan : topicScan (f :: fs) prev (n :: ns) = (f :: fs, prev, n :: ns) := by
    simp [topicScan_cons, hp, hh, hne]
  have hplus : (f == plus) = false := beq_eq_false_iff_ne.mpr hp
  have hhash : (f == hash) = false := beq_eq_false_iff_ne.mpr hh
  simp only [isTopicMatched, hscan, hplus, hhash, Bool.false_or, Bool.false_and, Bool.or_false]

theorem isTopicMatched_plus_slash (prev : UInt8) (fs ns : List UInt8) :
    isTopicMatched prev (plus :: fs) (slash :: ns) = isTopicMatched prev fs (slash :: ns) := by
  simp [isTopicMatched, topicScan_cons]

theorem isTopicMatched_plus (prev n : UInt8) (fs ns : List UInt8) (hn : n ≠ slash) :
    isTopicMatched prev (plus :: fs) (n :: ns) =
      isTopicMatched (skipLevel n ns).1 fs (skipLevel n ns).2 := by
  simp [isTopicMatched, topicScan_cons, hn]

theorem isTopicMatched_hash (prev : UInt8) (t : List UInt8) :
    isTopicMatched prev [hash] t = true := by
  cases t with
  | nil => simp
  | cons n ns =>
    by_cases hn : n = slash
    · subst n
      simp [isTopicMatched, topicScan_cons, plus, hash, slash]
    · simp [isTopicMatched, topicScan_cons, plus, hash, hn]

/-- What follows a whole level in a filter: the end, or a separator. -/
def LevelEnd (g : List UInt8) : Prop := g = [] ∨ ∃ rest, g = slash :: rest

theorem LevelEnd.head_ne_hash {g : List UInt8} (h : LevelEnd g) : g.head? ≠ some hash := by
  rcases h with rfl | ⟨rest, rfl⟩
  · simp
  · simp [slash, hash]

/-- Between two levels the byte before the cursor no longer matters. -/
theorem isTopicMatched_levelEnd (p q : UInt8) (g t : List UInt8) (h : LevelEnd g) :
    isTopicMatched p g t = isTopicMatched q g t := by
  rcases h with rfl | ⟨g, rfl⟩
  · simp
  · cases t with
    | nil => simp [slash, plus]
    | cons n ns =>
      by_cases hn : slash = n
      · subst n
        rw [isTopicMatched_step p slash g ns (by decide) (by decide),
          isTopicMatched_step q slash g ns (by decide) (by decide)]
      · rw [isTopicMatched_stop p slash n g ns (by decide) (by decide) hn,
          isTopicMatched_stop q slash n g ns (by decide) (by decide) hn]

/-- Past a common literal prefix the scan goes on; otherwise it stops inside
the literal and the end test refuses. -/
theorem isTopicMatched_literal (prev : UInt8) (l g t : List UInt8)
    (hl : Literal l) (hg : LevelEnd g) :
    isTopicMatched prev (l ++ g) t = true ↔
      ∃ rest, t = l ++ rest ∧ isTopicMatched prev g rest = true := by
  induction l generalizing prev t with
  | nil => simp
  | cons c l ih =>
    have hp : c ≠ plus := fun h => hl.1 (h ▸ List.mem_cons_self ..)
    have hh : c ≠ hash := fun h => hl.2 (h ▸ List.mem_cons_self ..)
    have hl' : Literal l :=
      ⟨fun h => hl.1 (List.mem_cons_of_mem c h), fun h => hl.2 (List.mem_cons_of_mem c h)⟩
    have hnext : ((l ++ g).head? == some hash) = false := by
      apply beq_eq_false_iff_ne.mpr
      cases l with
      | nil => exact hg.head_ne_hash
      | cons d l =>
        intro h
        have hd : d = hash := by simpa using h
        exact hl'.2 (hd ▸ List.mem_cons_self ..)
    cases t with
    | nil =>
      have hplus : (c == plus) = false := beq_eq_false_iff_ne.mpr hp
      have hhash : (c == hash) = false := beq_eq_false_iff_ne.mpr hh
      rw [List.cons_append, isTopicMatched_end, hnext, hplus, hhash]
      simp
    | cons n ns =>
      by_cases hcn : c = n
      · subst n
        rw [List.cons_append, isTopicMatched_step prev c _ ns hp hh, ih c ns hl']
        simp only [isTopicMatched_levelEnd c prev g _ hg, List.cons_append, List.cons.injEq,
          true_and]
      · rw [List.cons_append, isTopicMatched_stop prev c n _ ns hp hh hcn, hnext]
        have hnc : n ≠ c := Ne.symm hcn
        simp [hnc]

theorem skipLevel_snd (n : UInt8) (ns rest : List UInt8) (h : slash ∉ ns) :
    (skipLevel n (ns ++ slash :: rest)).2 = slash :: rest := by
  induction ns generalizing n with
  | nil => simp [skipLevel]
  | cons d ns ih =>
    have hd : d ≠ slash := fun e => h (e ▸ List.mem_cons_self ..)
    simpa [skipLevel, hd] using ih d (fun hm => h (List.mem_cons_of_mem d hm))

theorem skipLevel_snd_last (n : UInt8) (ns : List UInt8) (h : slash ∉ ns) :
    (skipLevel n ns).2 = [] := by
  induction ns generalizing n with
  | nil => simp [skipLevel]
  | cons d ns ih =>
    have hd : d ≠ slash := fun e => h (e ▸ List.mem_cons_self ..)
    simpa [skipLevel, hd] using ih d (fun hm => h (List.mem_cons_of_mem d hm))

/-- A `+` takes a whole level of a nonempty topic; the rest of the filter goes
on at the separator or at the end. -/
theorem isTopicMatched_plus_level (prev : UInt8) (g t rest : List UInt8)
    (ht : slash ∉ t) (hrest : LevelEnd rest) (hne : t ++ rest ≠ []) :
    ∃ last, isTopicMatched prev (plus :: g) (t ++ rest) = isTopicMatched last g rest := by
  cases t with
  | nil =>
    rcases hrest with rfl | ⟨rest, rfl⟩
    · exact absurd rfl hne
    · exact ⟨prev, isTopicMatched_plus_slash prev g rest⟩
  | cons n ns =>
    have hn : n ≠ slash := fun e => ht (e ▸ List.mem_cons_self ..)
    have hns : slash ∉ ns := fun hm => ht (List.mem_cons_of_mem n hm)
    refine ⟨(skipLevel n (ns ++ rest)).1, ?_⟩
    rw [List.cons_append, isTopicMatched_plus prev n g _ hn]
    rcases hrest with rfl | ⟨rest, rfl⟩
    · rw [List.append_nil, skipLevel_snd_last n ns hns]
    · rw [skipLevel_snd n ns rest hns]

/-- The kinds of filter and topic on which the end test answers 1 although the
filter does not match. -/
inductive Misrouted : List (List UInt8) → List (List UInt8) → Prop
  /-- `l/#` against a level that properly extends `l`. -/
  | longer (l t : List UInt8) (ts : List (List UInt8)) :
      Literal l → l <+: t → l ≠ t → Misrouted [l, [hash]] (t :: ts)
  /-- An empty last level against a `+` that is followed by more than `/#`. -/
  | emptyLast (fs : List (List UInt8)) :
      fs ≠ [] → fs ≠ [[hash]] → Misrouted ([plus] :: fs) [[]]
  /-- One of these kinds after levels that match. -/
  | level (f t : List UInt8) (fs ts : List (List UInt8)) :
      f = [plus] ∨ f = t → Misrouted fs ts → Misrouted (f :: fs) (t :: ts)

theorem not_misrouted_nil_left (ts : List (List UInt8)) : ¬ Misrouted [] ts := by
  rintro ⟨⟩

theorem not_misrouted_nil_right (fs : List (List UInt8)) : ¬ Misrouted fs [] := by
  rintro ⟨⟩

theorem not_literal_plus : ¬ Literal [plus] := fun h => h.1 (List.mem_singleton.mpr rfl)

theorem misrouted_literal_iff (l t : List UInt8) (fs ts : List (List UInt8)) (hl : Literal l) :
    Misrouted (l :: fs) (t :: ts) ↔
      (fs = [[hash]] ∧ l <+: t ∧ l ≠ t) ∨ (l = t ∧ Misrouted fs ts) := by
  constructor
  · intro h
    cases h with
    | longer _ _ _ _ hpre hne => exact Or.inl ⟨rfl, hpre, hne⟩
    | emptyLast _ _ _ => exact absurd hl not_literal_plus
    | level _ _ _ _ hlevel hrest =>
      rcases hlevel with rfl | rfl
      · exact absurd hl not_literal_plus
      · exact Or.inr ⟨rfl, hrest⟩
  · rintro (⟨rfl, hpre, hne⟩ | ⟨rfl, hrest⟩)
    · exact Misrouted.longer l t ts hl hpre hne
    · exact Misrouted.level l l fs ts (Or.inr rfl) hrest

theorem misrouted_plus_iff (t : List UInt8) (fs ts : List (List UInt8)) :
    Misrouted ([plus] :: fs) (t :: ts) ↔
      (fs ≠ [] ∧ fs ≠ [[hash]] ∧ t = [] ∧ ts = []) ∨ Misrouted fs ts := by
  constructor
  · intro h
    cases h with
    | longer _ _ _ hl _ _ => exact absurd hl not_literal_plus
    | emptyLast _ hne hhash => exact Or.inl ⟨hne, hhash, rfl, rfl⟩
    | level _ _ _ _ _ hrest => exact Or.inr hrest
  · rintro (⟨hne, hhash, rfl, rfl⟩ | hrest)
    · exact Misrouted.emptyLast fs hne hhash
    · exact Misrouted.level [plus] t fs ts (Or.inl rfl) hrest

theorem levels_ne_nil (w : List UInt8) : levels w ≠ [] := List.splitOn_ne_nil slash w

theorem levels_single {w : List UInt8} (h : slash ∉ w) : levels w = [w] :=
  List.splitOn_eq_singleton h

theorem levels_cons {l : List UInt8} (rest : List UInt8) (h : slash ∉ l) :
    levels (l ++ slash :: rest) = l :: levels rest :=
  List.splitOn_append_cons_self_of_not_mem h rest

theorem levels_eq_singleton_iff (w l : List UInt8) (h : slash ∉ l) : levels w = [l] ↔ w = l := by
  constructor
  · intro heq
    have hjoin : [slash].intercalate (w.splitOn slash) = w := List.intercalate_splitOn slash
    change [slash].intercalate (levels w) = w at hjoin
    simpa [heq] using hjoin.symm
  · rintro rfl
    exact levels_single h

theorem validLevels_cons_iff (l : List UInt8) (fs : List (List UInt8)) (h : fs ≠ []) :
    ValidLevels (l :: fs) ↔ (Literal l ∨ l = [plus]) ∧ ValidLevels fs := by
  cases fs with
  | nil => exact absurd rfl h
  | cons f fs => simp only [ValidLevels]

/-- In a valid filter a leading `#` is the whole filter. -/
theorem head_eq_hash_iff (filter : List UInt8) (hv : ValidFilter filter) :
    filter.head? = some hash ↔ filter = [hash] := by
  constructor
  · intro hhead
    rcases splitOn_cases slash filter with ⟨hs, heq⟩ | ⟨l, rest, hs, rfl, heq⟩
    · have hlevel : Literal filter ∨ filter = [plus] ∨ filter = [hash] := by
        simpa [ValidFilter, levels, heq, ValidLevels] using hv
      rcases hlevel with hl | rfl | h
      · exact absurd (List.mem_of_mem_head? hhead) hl.2
      · simp [plus, hash] at hhead
      · exact h
    · have hlevel : Literal l ∨ l = [plus] := by
        have hv' : ValidLevels
            (l :: levels rest) := by simpa [ValidFilter, levels_cons rest hs] using hv
        exact ((validLevels_cons_iff l _ (levels_ne_nil rest)).mp hv').1
      cases l with
      | nil => simp [slash, hash] at hhead
      | cons c l =>
        have hc : c = hash := by simpa using hhead
        subst hc
        rcases hlevel with hl | hl
        · exact absurd (List.mem_cons_self ..) hl.2
        · simp [plus, hash] at hl
  · rintro rfl
    rfl

/-- At a separator of the filter, either the topic has one too, or only `/#` accepts. -/
theorem isTopicMatched_slash (prev : UInt8) (filter t : List UInt8) (hv : ValidFilter filter) :
    isTopicMatched prev (slash :: filter) t = true ↔
      (filter = [hash] ∧ t.head? ≠ some slash) ∨
        ∃ rest, t = slash :: rest ∧ isTopicMatched slash filter rest = true := by
  cases t with
  | nil =>
    rw [isTopicMatched_end, ← head_eq_hash_iff filter hv]
    simp [slash, plus, hash]
  | cons n ns =>
    by_cases hn : slash = n
    · subst n
      rw [isTopicMatched_step prev slash filter ns (by decide) (by decide)]
      simp
    · have hn' : n ≠ slash := Ne.symm hn
      rw [isTopicMatched_stop prev slash n filter ns (by decide) (by decide) hn,
        ← head_eq_hash_iff filter hv]
      simp [hn']

/-- The scan answers 1 on this filter and topic, as the filter demands or by a misrouting. -/
def Accepts (filter topic : List UInt8) : Prop :=
  TopicMatches filter topic ∨ Misrouted (levels filter) (levels topic)

theorem segments_cons {l : List UInt8} (rest : List UInt8) (h : slash ∉ l) :
    segments (l ++ slash :: rest) = segment l :: segments rest := by
  simp only [segments, levels_cons rest h, List.map_cons]

theorem segments_eq_rest_iff (filter : List UInt8) :
    segments filter = [.rest] ↔ filter = [hash] := by
  constructor
  · intro h
    obtain ⟨l, hl, hseg⟩ := List.map_eq_singleton_iff.mp h
    rw [segment_eq_rest_iff] at hseg
    exact (levels_eq_singleton_iff filter [hash] (by decide)).mp (by rw [hl, hseg])
  · rintro rfl
    decide

theorem matches_segments_nil_iff (filter : List UInt8) :
    Matches (segments filter) [] ↔ filter = [hash] := by
  have hne : segments filter ≠ [] := by simpa [segments] using levels_ne_nil filter
  rw [matches_nil_right_iff, segments_eq_rest_iff]
  simp [hne]

/-- A literal first level: the topic's first level equals it and the rest goes
on, or the rest is `/#` and the first level only starts with it. -/
theorem accepts_literal_iff (l filter t : List UInt8) (hl : Literal l) (hs : slash ∉ l)
    (ts : List (List UInt8)) (topic : List UInt8) (ht : levels topic = t :: ts) :
    Accepts (l ++ slash :: filter) topic ↔
      (l = t ∧ (Matches (segments filter) ts ∨ Misrouted (levels filter) ts)) ∨
        (filter = [hash] ∧ l <+: t) := by
  have hhash : levels filter = [[hash]] ↔ filter = [hash] :=
    levels_eq_singleton_iff filter [hash] (by decide)
  have hseg : segment l = .exact l := segment_literal l hl
  unfold Accepts TopicMatches
  rw [segments_cons filter hs, levels_cons filter hs, ht, hseg,
    matches_cons_cons_iff _ _ _ _ (by simp), misrouted_literal_iff l t _ ts hl, hhash]
  constructor
  · rintro (⟨hlt, hm⟩ | ⟨hf, hpre, -⟩ | ⟨hlt, hm⟩)
    · exact Or.inl ⟨hlt, Or.inl hm⟩
    · exact Or.inr ⟨hf, hpre⟩
    · exact Or.inl ⟨hlt, Or.inr hm⟩
  · rintro (⟨hlt, hm | hm⟩ | ⟨hf, hpre⟩)
    · exact Or.inl ⟨hlt, hm⟩
    · exact Or.inr (Or.inr ⟨hlt, hm⟩)
    · by_cases hlt : l = t
      · subst hf
        exact Or.inl ⟨hlt, matches_rest ts⟩
      · exact Or.inr (Or.inl ⟨hf, hpre, hlt⟩)

/-- A `+` as first level: the rest goes on after the topic's first level; an
empty last level is accepted whatever follows the `+`. -/
theorem accepts_plus_iff (filter t : List UInt8) (ts : List (List UInt8))
    (topic : List UInt8) (ht : levels topic = t :: ts) :
    Accepts (plus :: slash :: filter) topic ↔
      (Matches (segments filter) ts ∨ Misrouted (levels filter) ts) ∨ (t = [] ∧ ts = []) := by
  have hs : slash ∉ [plus] := by decide
  have hsegs : segments (plus :: slash :: filter) = .any :: segments filter :=
    segments_cons filter hs
  have hlevels : levels (plus :: slash :: filter) = [plus] :: levels filter :=
    levels_cons filter hs
  have hhash : levels filter = [[hash]] ↔ filter = [hash] :=
    levels_eq_singleton_iff filter [hash] (by decide)
  unfold Accepts TopicMatches
  rw [hsegs, hlevels, ht, matches_cons_cons_iff _ _ _ _ (by simp), misrouted_plus_iff, Ne, Ne,
    hhash]
  constructor
  · rintro (⟨-, hm⟩ | ⟨-, -, hempty⟩ | hm)
    · exact Or.inl (Or.inl hm)
    · exact Or.inr hempty
    · exact Or.inl (Or.inr hm)
  · rintro ((hm | hm) | ⟨rfl, rfl⟩)
    · exact Or.inl ⟨trivial, hm⟩
    · exact Or.inr (Or.inr hm)
    · by_cases hf : filter = [hash]
      · exact Or.inl ⟨trivial, (matches_segments_nil_iff filter).mpr hf⟩
      · exact Or.inr (Or.inl ⟨levels_ne_nil filter, hf, rfl, rfl⟩)

theorem not_misrouted_single (f : List UInt8) (ts : List (List UInt8)) :
    ¬ Misrouted [f] ts := by
  intro h
  generalize hfs : [f] = fs at h
  cases h with
  | longer => simp at hfs
  | emptyLast _ hne _ => simp_all
  | level _ _ _ _ _ hrest =>
    obtain ⟨-, rfl⟩ := List.cons.inj hfs
    exact not_misrouted_nil_left _ hrest

/-- A filter of one level is matched exactly. -/
theorem isTopicMatched_single (prev : UInt8) (filter topic : List UInt8)
    (hs : slash ∉ filter) (hl : Literal filter ∨ filter = [plus] ∨ filter = [hash])
    (hprev : prev = slash ∨ topic ≠ [] ∨ filter.head? ≠ some plus) :
    isTopicMatched prev filter topic = true ↔ Accepts filter topic := by
  have hlevels : levels filter = [filter] := levels_single hs
  unfold Accepts TopicMatches segments
  rw [hlevels, or_iff_left (not_misrouted_single filter _), List.map_singleton]
  rcases hl with hl | rfl | rfl
  · rw [segment_literal filter hl, matches_exact_iff, levels_eq_singleton_iff topic filter hs]
    have hscan := isTopicMatched_literal prev filter [] topic hl (Or.inl rfl)
    simpa using hscan
  · rw [show segment [plus] = .any from by decide, matches_any_iff]
    by_cases hempty : topic = []
    · subst hempty
      have hslash : prev = slash := by simpa using hprev
      simp [hslash, levels]
    · rcases splitOn_cases slash topic with ⟨ht, heq⟩ | ⟨t, rest, ht, rfl, heq⟩
      · obtain ⟨last, hscan⟩ := isTopicMatched_plus_level prev [] topic [] ht (Or.inl rfl)
          (by simpa using hempty)
        rw [List.append_nil] at hscan
        simp [hscan, levels_single ht]
      · obtain ⟨last, hscan⟩ := isTopicMatched_plus_level prev [] t (slash :: rest) ht
          (Or.inr ⟨rest, rfl⟩) (by simp)
        simp [hscan, levels_cons rest ht, levels_ne_nil rest]
  · rw [isTopicMatched_hash, show segment [hash] = .rest from by decide]
    simpa using matches_rest (levels topic)

theorem accepts_nil_iff (filter : List UInt8) :
    (Matches (segments filter) [] ∨ Misrouted (levels filter) []) ↔ filter = [hash] := by
  rw [matches_segments_nil_iff, or_iff_left (not_misrouted_nil_right (levels filter))]

/-- A literal first level against the last level of a topic. -/
theorem isTopicMatched_literal_last (prev : UInt8) (l filter topic : List UInt8)
    (hl : Literal l) (hv : ValidFilter filter) (ht : slash ∉ topic) :
    isTopicMatched prev (l ++ slash :: filter) topic = true ↔ filter = [hash] ∧ l <+: topic := by
  rw [isTopicMatched_literal prev l _ topic hl (Or.inr ⟨filter, rfl⟩)]
  constructor
  · rintro ⟨rest, rfl, hscan⟩
    rcases (isTopicMatched_slash prev filter rest hv).mp hscan with ⟨hf, -⟩ | ⟨rest, rfl, -⟩
    · exact ⟨hf, List.prefix_append l rest⟩
    · exact absurd (List.mem_append_right l (List.mem_cons_self ..)) ht
  · rintro ⟨hf, rest, rfl⟩
    refine ⟨rest, rfl, (isTopicMatched_slash prev filter rest hv).mpr (Or.inl ⟨hf, ?_⟩)⟩
    intro hhead
    exact ht (List.mem_append_right l (List.mem_of_mem_head? hhead))

/-- A literal first level against a level that others follow. -/
theorem isTopicMatched_literal_inner (prev : UInt8) (l filter t topic : List UInt8)
    (hl : Literal l) (hs : slash ∉ l) (hv : ValidFilter filter) (ht : slash ∉ t) :
    isTopicMatched prev (l ++ slash :: filter) (t ++ slash :: topic) = true ↔
      (l = t ∧ isTopicMatched slash filter topic = true) ∨ (filter = [hash] ∧ l <+: t) := by
  rw [isTopicMatched_literal prev l _ _ hl (Or.inr ⟨filter, rfl⟩)]
  constructor
  · rintro ⟨rest, heq, hscan⟩
    -- Either `l` runs past `t`, which the separator forbids, or it is a prefix of it.
    rcases List.append_eq_append_iff.mp heq with ⟨more, rfl, hmore⟩ | ⟨more, rfl, rfl⟩
    · cases more with
      | nil =>
        rw [List.nil_append] at hmore
        subst hmore
        rw [isTopicMatched_step prev slash _ _ (by decide) (by decide)] at hscan
        exact Or.inl ⟨List.append_nil t, hscan⟩
      | cons c more =>
        obtain ⟨rfl, -⟩ := List.cons.inj hmore
        exact absurd (List.mem_append_right t (List.mem_cons_self ..)) hs
    · cases more with
      | nil =>
        rw [List.nil_append, isTopicMatched_step prev slash _ _ (by decide) (by decide)] at hscan
        exact Or.inl ⟨(List.append_nil l).symm, hscan⟩
      | cons c more =>
        have hc : c ≠ slash := fun h => ht (List.mem_append_right l (h ▸ List.mem_cons_self ..))
        rcases (isTopicMatched_slash prev filter _ hv).mp hscan with ⟨hf, -⟩ | ⟨rest, hrest, -⟩
        · exact Or.inr ⟨hf, List.prefix_append l _⟩
        · exact absurd (List.cons.inj hrest).1 hc
  · rintro (⟨rfl, hscan⟩ | ⟨rfl, more, rfl⟩)
    · refine ⟨slash :: topic, rfl, ?_⟩
      rwa [isTopicMatched_step prev slash _ _ (by decide) (by decide)]
    · refine ⟨more ++ slash :: topic, List.append_assoc l more _, ?_⟩
      rw [isTopicMatched_slash prev [hash] _ hv]
      cases more with
      | nil => exact Or.inr ⟨topic, rfl, isTopicMatched_hash slash topic⟩
      | cons c more =>
        have hc : c ≠ slash := fun h => ht (List.mem_append_right l (h ▸ List.mem_cons_self ..))
        exact Or.inl ⟨rfl, by simpa using hc⟩

/-- A `+` as first level against the last level of a topic. -/
theorem isTopicMatched_plus_last (prev : UInt8) (filter topic : List UInt8)
    (hv : ValidFilter filter) (ht : slash ∉ topic) (hprev : prev = slash ∨ topic ≠ []) :
    isTopicMatched prev (plus :: slash :: filter) topic = true ↔
      filter = [hash] ∨ topic = [] := by
  by_cases hempty : topic = []
  · subst hempty
    have hslash : prev = slash := by simpa using hprev
    simp [hslash]
  · obtain ⟨last, hscan⟩ := isTopicMatched_plus_level prev (slash :: filter) topic [] ht
      (Or.inl rfl) (by simpa using hempty)
    rw [List.append_nil] at hscan
    rw [hscan, isTopicMatched_slash last filter [] hv]
    simp [hempty]

/-- What `_is_topic_matched` computes. The induction is on the levels of the
filter; the invariant is that both cursors stand at the start of a level, so
the byte before the topic cursor is a separator unless nothing was consumed. -/
theorem isTopicMatched_iff_accepts (prev : UInt8) (filter topic : List UInt8)
    (hv : ValidFilter filter)
    (hprev : prev = slash ∨ topic ≠ [] ∨ filter.head? ≠ some plus) :
    isTopicMatched prev filter topic = true ↔ Accepts filter topic := by
  induction hn : filter.length using Nat.strongRecOn generalizing prev filter topic with
  | ind n ih =>
    rcases splitOn_cases slash filter with ⟨hs, heq⟩ | ⟨l, filter, hs, rfl, heq⟩
    · have hl : Literal filter ∨ filter = [plus] ∨ filter = [hash] := by
        simpa [ValidFilter, levels, heq, ValidLevels] using hv
      exact isTopicMatched_single prev filter topic hs hl hprev
    · have hv' : ValidLevels (l :: levels filter) := by
        simpa [ValidFilter, levels_cons filter hs] using hv
      obtain ⟨hl, hvrest⟩ := (validLevels_cons_iff l _ (levels_ne_nil filter)).mp hv'
      have hlen : filter.length < n := by
        rw [← hn, List.length_append, List.length_cons]
        omega
      have hrest : ∀ rest, isTopicMatched slash filter rest = true ↔
          Matches (segments filter) (levels rest) ∨ Misrouted (levels filter) (levels rest) :=
        fun rest => ih filter.length hlen slash filter rest hvrest (Or.inl rfl) rfl
      rcases splitOn_cases slash topic with ⟨ht, -⟩ | ⟨t, topic, ht, rfl, -⟩
      · rcases hl with hl | rfl
        · rw [isTopicMatched_literal_last prev l filter topic hl hvrest ht,
            accepts_literal_iff l filter topic hl hs [] topic (levels_single ht),
            accepts_nil_iff]
          constructor
          · exact Or.inr
          · rintro (⟨rfl, hf⟩ | h)
            · exact ⟨hf, List.prefix_rfl⟩
            · exact h
        · have hprev' : prev = slash ∨ topic ≠ [] := by simpa using hprev
          rw [show [plus] ++ slash :: filter = plus :: slash :: filter from rfl,
            isTopicMatched_plus_last prev filter topic hvrest ht hprev',
            accepts_plus_iff filter topic [] topic (levels_single ht), accepts_nil_iff]
          simp
      · rcases hl with hl | rfl
        · rw [isTopicMatched_literal_inner prev l filter t topic hl hs hvrest ht,
            accepts_literal_iff l filter t hl hs _ _ (levels_cons topic ht), hrest topic]
        · obtain ⟨last, hscan⟩ := isTopicMatched_plus_level prev (slash :: filter) t
            (slash :: topic) ht (Or.inr ⟨topic, rfl⟩) (by simp)
          rw [show [plus] ++ slash :: filter = plus :: slash :: filter from rfl, hscan,
            isTopicMatched_step last slash _ _ (by decide) (by decide),
            accepts_plus_iff filter t _ _ (levels_cons topic ht), hrest topic]
          simp [levels_ne_nil]

/-- A misrouted pair does not match. -/
theorem Misrouted.not_matches {fs ts : List (List UInt8)} (h : Misrouted fs ts) :
    ¬ Matches (fs.map segment) ts := by
  induction h with
  | longer l t ts hl hpre hne =>
    intro hm
    rw [List.map_cons, segment_literal l hl, matches_cons_cons_iff _ _ _ _ (by simp)] at hm
    exact hne hm.1
  | emptyLast fs hne hhash =>
    intro hm
    rw [List.map_cons, show segment [plus] = .any from by decide,
      matches_cons_cons_iff _ _ _ _ (by simp), matches_nil_right_iff] at hm
    rcases hm.2 with hnil | hrest
    · exact hne (List.map_eq_nil_iff.mp hnil)
    · obtain ⟨l, hl, hseg⟩ := List.map_eq_singleton_iff.mp hrest
      rw [segment_eq_rest_iff] at hseg
      exact hhash (by rw [hl, hseg])
  | level f t fs ts hlevel hrest ih =>
    intro hm
    have hne : fs.map segment ≠ [] := by
      intro hnil
      rw [List.map_eq_nil_iff] at hnil
      exact not_misrouted_nil_left ts (hnil ▸ hrest)
    rw [List.map_cons, matches_cons_cons_iff _ _ _ _ (by simp [hne])] at hm
    exact ih hm.2

/-- A topic without wildcards is accepted as its own filter. -/
theorem isTopicMatched_self (prev : UInt8) (topic : List UInt8) (h : Literal topic) :
    isTopicMatched prev topic topic = true := by
  induction topic generalizing prev with
  | nil => simp
  | cons c topic ih =>
    have hp : c ≠ plus := fun e => h.1 (e ▸ List.mem_cons_self ..)
    have hh : c ≠ hash := fun e => h.2 (e ▸ List.mem_cons_self ..)
    rw [isTopicMatched_step prev c topic topic hp hh]
    exact ih c ⟨fun hm => h.1 (List.mem_cons_of_mem c hm),
      fun hm => h.2 (List.mem_cons_of_mem c hm)⟩

/-- In a valid filter a leading `+` is a whole level. -/
theorem plus_cons_cases (fs : List UInt8) (hv : ValidFilter (plus :: fs)) :
    fs = [] ∨ ∃ rest, fs = slash :: rest := by
  rcases splitOn_cases slash (plus :: fs) with ⟨hs, heq⟩ | ⟨l, rest, hs, heq, -⟩
  · have hlevel : Literal (plus :: fs) ∨ plus :: fs = [plus] ∨ plus :: fs = [hash] := by
      simpa only [ValidFilter, levels, heq, ValidLevels] using hv
    rcases hlevel with hl | h | h
    · exact absurd (List.mem_cons_self ..) hl.1
    · exact Or.inl (List.cons.inj h).2
    · exact absurd (List.cons.inj h).1 (by decide)
  · cases l with
    | nil => exact absurd (List.cons.inj heq).1 (by decide)
    | cons c l =>
      obtain ⟨rfl, rfl⟩ := List.cons.inj heq
      have hv' : ValidLevels ((plus :: l) :: levels rest) := by
        rw [← levels_cons rest hs]
        exact hv
      rcases ((validLevels_cons_iff _ _ (levels_ne_nil rest)).mp hv').1 with hl | hl
      · exact absurd (List.mem_cons_self ..) hl.1
      · obtain rfl := (List.cons.inj hl).2
        exact Or.inr ⟨rest, rfl⟩

end IotExplorer.TopicFilter
