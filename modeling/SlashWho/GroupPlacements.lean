import SlashWho.GroupSubjects

/-!
Where a page places its characters. Folding by a shared id rearranges the candidates into
groups without losing or repeating one, so every member and every manual target without a
character is placed once over the selected, skipped and excluded rows.
-/

namespace SlashWho.GroupPlacements

open List Characters ComparatorSort GroupPages GroupSubjects KeyedBuckets Relation

section Folding
variable {T : Type} [DecidableEq T] {lower : String → String} {keyOf : T → CharacterKey}
  {choosePrimary : List T → Option T}

theorem primary_cons_aliases_perm {all : List T} {primary : T} (hdistinct : all.Nodup)
    (hin : primary ∈ all) :
    List.Perm (primary :: all.filter (fun member => member ≠ primary)) all := by
  have hrest : all.filter (fun member => member ≠ primary) = all.erase primary := by
    rw [hdistinct.erase_eq_filter]
    apply filter_congr
    intro member _
    by_cases heq : member = primary
    · simp [heq]
    · simp [heq]
  rw [hrest]
  exact (perm_cons_erase hin).symm

theorem flatMap_groups_perm (groups : List (List T)) (hdistinct : ∀ all ∈ groups, all.Nodup)
    (hchoose : ∀ all ∈ groups, ∃ primary ∈ all, choosePrimary all = some primary) :
    List.Perm ((groups.filterMap (fun all => (choosePrimary all).map (fun primary =>
      (⟨primary, all.filter (fun member => member ≠ primary)⟩ : SharedIdentityGroup T)))).flatMap
        (fun identity => identity.primary :: identity.aliases)) groups.flatten := by
  induction groups with
  | nil => rfl
  | cons all rest ih =>
    obtain ⟨primary, hin, hprimary⟩ := hchoose all mem_cons_self
    have hrest := ih (fun other hother => hdistinct other (mem_cons_of_mem _ hother))
      (fun other hother => hchoose other (mem_cons_of_mem _ hother))
    have hone := primary_cons_aliases_perm (hdistinct all mem_cons_self) hin
    rw [filterMap_cons_some (by rw [hprimary]; rfl), flatMap_cons, flatten_cons]
    exact hone.append hrest

theorem groupBySharedWarcraftLogsId_perm {candidates : List T} (recorded : List (CharacterKey × ℕ))
    (hdistinct : candidates.Nodup)
    (hchoose : ∀ all : List T, all ≠ [] → ∃ primary ∈ all, choosePrimary all = some primary) :
    List.Perm ((groupBySharedWarcraftLogsId lower keyOf candidates recorded choosePrimary).flatMap
      (fun identity => identity.primary :: identity.aliases)) candidates := by
  have hbucket : ∀ all ∈ (bucketsBy (identityName lower keyOf recorded) candidates).values,
      all.Nodup ∧ all ≠ [] := by
    intro all hall
    obtain ⟨entry, hentry, heq⟩ := mem_map.mp hall
    obtain ⟨hfilter, hnonempty⟩ := (mem_entries_bucketsBy _).mp hentry
    rw [← heq]
    refine ⟨?_, hnonempty⟩
    rw [hfilter]
    exact hdistinct.filter _
  unfold groupBySharedWarcraftLogsId
  exact (flatMap_groups_perm _ (fun all hall => (hbucket all hall).1)
    (fun all hall => hchoose all (hbucket all hall).2)).trans (flatten_values_perm _ candidates)

end Folding

section Candidates
variable {lower : String → String} {localeCompare : String → String → Ordering}
  {pathStrengths : String → List StrengthLink → OrderedMap String LinkStrength}
  {graph : GroupGraph lower} {originKey : CharacterKey} {originId : String}

/-- A character of a page, under its canonical id. -/
def MemberId (graph : GroupGraph lower) (originId : String) (canonical : CanonicalId) : Prop :=
  ∃ id ∈ pageMembers graph originId, ∃ character, graph.characters.get? id = some character ∧
    canonicalCharacterId lower character.key = canonical

/-- A manual target of a page that no character has been found for. -/
def UndiscoveredId (graph : GroupGraph lower) (originId : String) (canonical : CanonicalId) :
    Prop :=
  ∃ row ∈ graph.undiscoveredManualTargets, row.makerId ∈ pageMembers graph originId ∧
    graph.idOf row.targetKey = none ∧ canonicalCharacterId lower row.targetKey = canonical

/-- A maker on the page has excluded the character or the target so named. No maker
excludes the origin, or a character by another of its own names. -/
def ExcludedId (graph : GroupGraph lower) (originId : String) (canonical : CanonicalId) : Prop :=
  (∃ id ∈ pageMembers graph originId, id ≠ originId ∧
    (∃ character, graph.characters.get? id = some character ∧
      canonicalCharacterId lower character.key = canonical) ∧
    ∃ maker ∈ pageMembers graph originId, id ∉ graph.sharedIdentity maker ∧
      (⟨maker, id, true⟩ ∈ graph.manual ∨ ⟨maker, id⟩ ∈ graph.discoveredExclusions)) ∨
  ∃ row ∈ graph.undiscoveredManualTargets, row.makerId ∈ pageMembers graph originId ∧
    graph.idOf row.targetKey = none ∧ canonicalCharacterId lower row.targetKey = canonical ∧
    row.excluded = true

def canonicalOf (lower : String → String) (candidate : RankedSubject) : CanonicalId :=
  canonicalCharacterId lower candidate.key

variable {id : String}

theorem subject_eq_some {strengths : OrderedMap String LinkStrength} {found : RankedSubject}
    (h : subject graph originId strengths id = some found) :
    ∃ character, graph.characters.get? id = some character ∧ found.key = character.key ∧
      found.warcraftLogsAliases = none := by
  obtain ⟨character, hget, heq⟩ := Option.map_eq_some_iff.mp h
  rw [← heq]
  exact ⟨character, hget, rfl, rfl⟩

theorem subject_of_get? (originId : String) (strengths : OrderedMap String LinkStrength)
    {character : GroupCharacter} (h : graph.characters.get? id = some character) :
    ∃ found, subject graph originId strengths id = some found ∧ found.key = character.key := by
  unfold subject
  rw [h]
  exact ⟨_, rfl, rfl⟩

theorem id_unique {other : String} {character otherCharacter : GroupCharacter}
    (h : graph.characters.get? id = some character)
    (h' : graph.characters.get? other = some otherCharacter)
    (hsame : canonicalCharacterId lower character.key =
      canonicalCharacterId lower otherCharacter.key) : id = other := by
  have hid := (graph.named otherCharacter.key id).mpr ⟨character, h, hsame⟩
  have hother := (graph.named otherCharacter.key other).mpr ⟨otherCharacter, h', rfl⟩
  rw [hid] at hother
  exact Option.some.inj hother

theorem mem_undiscoveredRows {row : UndiscoveredManualTarget} {members : List String} :
    row ∈ undiscoveredRows graph members ↔
      row ∈ graph.undiscoveredManualTargets ∧ row.makerId ∈ members ∧
        graph.idOf row.targetKey = none := by
  unfold undiscoveredRows
  rw [mem_filter, Bool.and_eq_true, decide_eq_true_eq, Option.isNone_iff_eq_none]

theorem mem_excludedIds {members : List String} :
    id ∈ excludedIds graph originId members ↔ id ≠ originId ∧ ∃ maker ∈ members,
      id ∉ graph.sharedIdentity maker ∧
        (⟨maker, id, true⟩ ∈ graph.manual ∨ ⟨maker, id⟩ ∈ graph.discoveredExclusions) := by
  unfold excludedIds isSelfExclusion
  simp only [mem_filter, mem_append, mem_map, Bool.and_eq_true, decide_eq_true_eq,
    Bool.not_eq_true', decide_eq_false_iff_not]
  constructor
  · rintro ⟨⟨row, ⟨hrow, ⟨hexcluded, hmaker⟩, hself⟩, rfl⟩ | ⟨row, ⟨hrow, hmaker, hself⟩, rfl⟩, hne⟩
    · obtain ⟨maker, target, excluded⟩ := row
      obtain rfl : excluded = true := hexcluded
      exact ⟨hne, maker, hmaker, hself, .inl hrow⟩
    · exact ⟨hne, row.makerId, hmaker, hself, .inr hrow⟩
  · rintro ⟨hne, maker, hmaker, hself, hrow | hrow⟩
    · exact ⟨.inl ⟨_, ⟨hrow, ⟨rfl, hmaker⟩, hself⟩, rfl⟩, hne⟩
    · exact ⟨.inr ⟨_, ⟨hrow, hmaker, hself⟩, rfl⟩, hne⟩

theorem idByCanonical_get? {members : List String} {character : GroupCharacter}
    {canonical : CanonicalId} (hid : id ∈ members) (hget : graph.characters.get? id = some character)
    (hkey : canonicalCharacterId lower character.key = canonical) :
    (idByCanonical graph members).get? canonical = some id := by
  apply OrderedMap.get?_ofList_of_forall
  intro other
  rw [mem_filterMap, Option.some_inj]
  constructor
  · rintro ⟨found, -, hfound⟩
    obtain ⟨character', hget', heq⟩ := Option.map_eq_some_iff.mp hfound
    obtain ⟨hsame, rfl⟩ := Prod.mk.inj heq
    exact id_unique hget hget' (hkey.trans hsame.symm)
  · rintro rfl
    exact ⟨id, hid, Option.map_eq_some_iff.mpr ⟨character, hget, by rw [hkey]⟩⟩

theorem excludedSubject_iff {candidate : RankedSubject} :
    excludedSubject graph originId (pageMembers graph originId) candidate = true ↔
      ExcludedId graph originId (canonicalOf lower candidate) := by
  unfold excludedSubject ExcludedId canonicalOf
  simp only [Bool.or_eq_true, decide_eq_true_eq]
  refine or_congr ⟨fun h => ?_, ?_⟩ ?_
  · cases hfound : (idByCanonical graph (pageMembers graph originId)).get?
        (canonicalCharacterId lower candidate.key) with
    | none =>
      rw [hfound] at h
      obtain ⟨-, maker, -, -, hrow | hrow⟩ := mem_excludedIds.mp h
      · exact absurd (mem_append_left _ (mem_map_of_mem hrow)) graph.targets
      · exact absurd (mem_append_right _ (mem_map_of_mem hrow)) graph.targets
    | some id =>
      rw [hfound] at h
      obtain ⟨hne, hmakers⟩ := mem_excludedIds.mp h
      obtain ⟨member, hmember, heq⟩ := mem_filterMap.mp (OrderedMap.mem_of_mem_entries_ofList
        ((OrderedMap.mem_entries_iff _ _ _).mpr hfound))
      obtain ⟨character, hget, hpair⟩ := Option.map_eq_some_iff.mp heq
      obtain ⟨hkey, rfl⟩ := Prod.mk.inj hpair
      exact ⟨member, hmember, hne, ⟨character, hget, hkey⟩, hmakers⟩
  · rintro ⟨id, hid, hne, ⟨character, hget, hkey⟩, hmakers⟩
    rw [idByCanonical_get? hid hget hkey]
    exact mem_excludedIds.mpr ⟨hne, hmakers⟩
  · unfold undiscoveredExcluded
    rw [mem_map]
    constructor
    · rintro ⟨row, hrow, hkey⟩
      obtain ⟨hrow, hexcluded⟩ := mem_filter.mp hrow
      obtain ⟨hin, hmaker, hnone⟩ := mem_undiscoveredRows.mp hrow
      exact ⟨row, hin, hmaker, hnone, hkey, hexcluded⟩
    · rintro ⟨row, hin, hmaker, hnone, hkey, hexcluded⟩
      exact ⟨row, mem_filter.mpr ⟨mem_undiscoveredRows.mpr ⟨hin, hmaker, hnone⟩, hexcluded⟩, hkey⟩

theorem undiscovered_spec (graph : GroupGraph lower) (members : List String) :
    (undiscovered graph members).FiledBy (canonicalOf lower) ∧
      (∀ found ∈ (undiscovered graph members).values,
        ∃ row ∈ undiscoveredRows graph members, found = undiscoveredSubject row) ∧
      ∀ canonical, canonical ∈ (undiscovered graph members).keys ↔
        ∃ row ∈ undiscoveredRows graph members,
          canonicalCharacterId lower row.targetKey = canonical := by
  unfold undiscovered
  induction undiscoveredRows graph members using List.reverseRecOn with
  | nil =>
    refine ⟨OrderedMap.filedBy_empty _, ?_, ?_⟩
    · intro found hfound
      cases hfound
    · intro canonical
      constructor
      · intro h
        cases h
      · intro h
        obtain ⟨row, hrow, -⟩ := h
        cases hrow
  | append_singleton before row ih =>
    obtain ⟨hfiled, hvalues, hkeys⟩ := ih
    rw [foldl_append, foldl_cons, foldl_nil]
    generalize before.foldl (addUndiscovered lower) .empty = subjects at hfiled hvalues hkeys ⊢
    unfold addUndiscovered
    simp only
    split
    · rename_i hhas
      rw [OrderedMap.has_iff] at hhas
      refine ⟨hfiled, ?_, ?_⟩
      · intro found hfound
        obtain ⟨first, hfirst, heq⟩ := hvalues found hfound
        exact ⟨first, mem_append_left _ hfirst, heq⟩
      · intro canonical
        rw [hkeys]
        constructor
        · intro h
          obtain ⟨first, hfirst, heq⟩ := h
          exact ⟨first, mem_append_left _ hfirst, heq⟩
        · intro h
          obtain ⟨first, hfirst, heq⟩ := h
          rcases mem_append.mp hfirst with hin | hin
          · exact ⟨first, hin, heq⟩
          · rw [mem_singleton.mp hin] at heq
            rw [heq, hkeys] at hhas
            exact hhas
    · rename_i hhas
      have hnone : subjects.get? (canonicalCharacterId lower row.targetKey) = none := by
        rw [← Option.not_isSome_iff_eq_none]
        exact hhas
      refine ⟨hfiled.set rfl, ?_, ?_⟩
      · intro found hfound
        rw [OrderedMap.mem_values_set_of_new _ _ _ hnone] at hfound
        rcases hfound with hin | heq
        · obtain ⟨first, hfirst, heq⟩ := hvalues found hin
          exact ⟨first, mem_append_left _ hfirst, heq⟩
        · exact ⟨row, mem_append_right _ mem_cons_self, heq⟩
      · intro canonical
        rw [OrderedMap.mem_keys_set, hkeys]
        constructor
        · intro h
          rcases h with heq | ⟨first, hfirst, heq⟩
          · exact ⟨row, mem_append_right _ mem_cons_self, heq.symm⟩
          · exact ⟨first, mem_append_left _ hfirst, heq⟩
        · intro h
          obtain ⟨first, hfirst, heq⟩ := h
          rcases mem_append.mp hfirst with hin | hin
          · exact .inr ⟨first, hin, heq⟩
          · rw [mem_singleton.mp hin] at heq
            exact .inl heq.symm

theorem memberIds_spec (graph : GroupGraph lower) (originId : String)
    (strengths : OrderedMap String LinkStrength) :
    (((pageMembers graph originId).filterMap (subject graph originId strengths)).map
      (canonicalOf lower)).Nodup ∧
      ∀ canonical, canonical ∈ ((pageMembers graph originId).filterMap
        (subject graph originId strengths)).map (canonicalOf lower) ↔
          MemberId graph originId canonical := by
  constructor
  · rw [map_filterMap]
    apply (nodup_pageMembers graph originId).filterMap
    intro id other canonical hid hother
    obtain ⟨found, hfound, heq⟩ := Option.map_eq_some_iff.mp hid
    obtain ⟨found', hfound', heq'⟩ := Option.map_eq_some_iff.mp hother
    obtain ⟨character, hget, hkey, -⟩ := subject_eq_some hfound
    obtain ⟨character', hget', hkey', -⟩ := subject_eq_some hfound'
    apply id_unique hget hget'
    unfold canonicalOf at heq heq'
    rw [← hkey, ← hkey', heq, heq']
  · intro canonical
    rw [mem_map]
    constructor
    · intro h
      obtain ⟨found, hfound, heq⟩ := h
      obtain ⟨id, hid, hsubject⟩ := mem_filterMap.mp hfound
      obtain ⟨character, hget, hkey, -⟩ := subject_eq_some hsubject
      exact ⟨id, hid, character, hget, by rw [← hkey]; exact heq⟩
    · intro h
      obtain ⟨id, hid, character, hget, heq⟩ := h
      obtain ⟨found, hfound, hkey⟩ := subject_of_get? originId strengths hget
      refine ⟨found, mem_filterMap.mpr ⟨id, hid, hfound⟩, ?_⟩
      unfold canonicalOf
      rw [hkey]
      exact heq

/-- The candidates of a page: each under a canonical id of its own, the members' and the
undiscovered targets'. -/
theorem candidates_spec (pathStrengths : String → List StrengthLink → OrderedMap String LinkStrength)
    (graph : GroupGraph lower) (originId : String) :
    ((candidates pathStrengths graph originId (pageMembers graph originId)).map
      (canonicalOf lower)).Nodup ∧
      (∀ canonical, canonical ∈ (candidates pathStrengths graph originId
        (pageMembers graph originId)).map (canonicalOf lower) ↔
          MemberId graph originId canonical ∨ UndiscoveredId graph originId canonical) ∧
      ∀ candidate ∈ candidates pathStrengths graph originId (pageMembers graph originId),
        candidate.warcraftLogsAliases = none := by
  obtain ⟨hmembers, hmemberIds⟩ := memberIds_spec graph originId
    (memberStrengths pathStrengths graph originId (pageMembers graph originId))
  obtain ⟨hfiled, hvalues, hkeys⟩ := undiscovered_spec graph (pageMembers graph originId)
  have hundiscovered : ∀ canonical, canonical ∈
      (undiscovered graph (pageMembers graph originId)).values.map (canonicalOf lower) ↔
        UndiscoveredId graph originId canonical := by
    intro canonical
    rw [hfiled.map_values, hkeys]
    constructor
    · intro h
      obtain ⟨row, hrow, heq⟩ := h
      obtain ⟨hin, hmaker, hnone⟩ := mem_undiscoveredRows.mp hrow
      exact ⟨row, hin, hmaker, hnone, heq⟩
    · intro h
      obtain ⟨row, hin, hmaker, hnone, heq⟩ := h
      exact ⟨row, mem_undiscoveredRows.mpr ⟨hin, hmaker, hnone⟩, heq⟩
  unfold candidates
  refine ⟨?_, ?_, ?_⟩
  · rw [map_append, nodup_append]
    refine ⟨hmembers, hfiled.nodup_values, ?_⟩
    intro canonical hcanonical other hother heq
    rw [hmemberIds] at hcanonical
    rw [hundiscovered, ← heq] at hother
    obtain ⟨id, -, character, hget, hkey⟩ := hcanonical
    obtain ⟨row, -, -, hnone, hrow⟩ := hother
    have hid := (graph.named row.targetKey id).mpr ⟨character, hget, hkey.trans hrow.symm⟩
    rw [hnone] at hid
    cases hid
  · intro canonical
    rw [map_append, mem_append, hmemberIds, hundiscovered]
  · intro candidate hcandidate
    rcases mem_append.mp hcandidate with hin | hin
    · obtain ⟨id, -, hsubject⟩ := mem_filterMap.mp hin
      obtain ⟨_, -, -, hnone⟩ := subject_eq_some hsubject
      exact hnone
    · obtain ⟨row, -, heq⟩ := hvalues candidate hin
      rw [heq]
      rfl

end Candidates

section Placing
variable {lower : String → String} (localeCompare : String → String → Ordering)
  (pathStrengths : String → List StrengthLink → OrderedMap String LinkStrength)
  (graph : GroupGraph lower) {originKey : CharacterKey} {originId : String}

/-- The canonical ids a row stands for: its own and those of its aliases. -/
def rowIds (lower : String → String) (row : RankedSubject) : List CanonicalId :=
  (row.key :: row.warcraftLogsAliases.getD []).map (canonicalCharacterId lower)

/-- The characters a page places, in any of its lists, as a row or an alias of one. -/
def placed (lower : String → String) (subjects : Subjects) : List CanonicalId :=
  (subjects.selected ++ subjects.skipped ++ subjects.excluded).flatMap (rowIds lower)

theorem isOrigin_iff {candidate : RankedSubject} :
    isOrigin lower originKey candidate = true ↔
      canonicalOf lower candidate = canonicalCharacterId lower originKey := by
  unfold isOrigin canonicalOf
  rw [decide_eq_true_eq]

variable {identity : SharedIdentityGroup RankedSubject}

theorem rowIds_rowOf (hplain : identity.primary.warcraftLogsAliases = none) :
    rowIds lower (rowOf identity) =
      (identity.primary :: identity.aliases).map (canonicalOf lower) := by
  obtain ⟨primary, aliases⟩ := identity
  unfold rowIds rowOf
  cases aliases with
  | nil =>
    simp only [isEmpty_nil, if_true] at hplain ⊢
    rw [hplain]
    rfl
  | cons first rest =>
    simp only [isEmpty_cons, Bool.false_eq_true, if_false, Option.getD_some, map_cons,
      List.map_map]
    rfl

theorem key_rowOf (identity : SharedIdentityGroup RankedSubject) :
    (rowOf identity).key = identity.primary.key := by
  unfold rowOf
  split
  · rfl
  · rfl

theorem choosePrimary_mem (members : List String) {all : List RankedSubject} (hne : all ≠ []) :
    ∃ primary ∈ all, choosePrimary graph originKey originId members all = some primary := by
  unfold choosePrimary
  cases horigin : all.find? (isOrigin lower originKey) with
  | some primary => exact ⟨primary, mem_of_find?_eq_some horigin, rfl⟩
  | none =>
    cases hexcluded : all.find? (excludedSubject graph originId members) with
    | some primary => exact ⟨primary, mem_of_find?_eq_some hexcluded, rfl⟩
    | none =>
      cases all with
      | nil => exact absurd rfl hne
      | cons first rest => exact ⟨first, mem_cons_self, rfl⟩

theorem ordered_perm (originKey : CharacterKey) (originId : String) :
    List.Perm (ordered localeCompare pathStrengths graph originKey originId
      (pageMembers graph originId)) (candidates pathStrengths graph originId
        (pageMembers graph originId)) :=
  perm_sortBy _ _

theorem nodup_ordered (originKey : CharacterKey) (originId : String) :
    (ordered localeCompare pathStrengths graph originKey originId
      (pageMembers graph originId)).Nodup := by
  rw [(ordered_perm localeCompare pathStrengths graph originKey originId).nodup_iff]
  exact (candidates_spec pathStrengths graph originId).1.of_map

theorem identities_perm (originKey : CharacterKey) (originId : String) :
    List.Perm ((identities localeCompare pathStrengths graph originKey originId
      (pageMembers graph originId)).flatMap
        (fun identity => identity.primary :: identity.aliases))
      (candidates pathStrengths graph originId (pageMembers graph originId)) :=
  (groupBySharedWarcraftLogsId_perm _ (nodup_ordered localeCompare pathStrengths graph originKey
    originId) (fun _ hne => choosePrimary_mem graph _ hne)).trans
      (ordered_perm localeCompare pathStrengths graph originKey originId)

theorem plain_primary
    (h : identity ∈ identities localeCompare pathStrengths graph originKey originId
      (pageMembers graph originId)) : identity.primary.warcraftLogsAliases = none := by
  apply (candidates_spec pathStrengths graph originId).2.2
  rw [← (identities_perm localeCompare pathStrengths graph originKey originId).mem_iff]
  exact mem_flatMap.mpr ⟨identity, h, mem_cons_self⟩

theorem isExcluded_iff (h : identity ∈ identities localeCompare pathStrengths graph originKey
      originId (pageMembers graph originId)) :
    isExcluded graph originKey originId (pageMembers graph originId) identity = true ↔
      canonicalCharacterId lower (rowOf identity).key ≠ canonicalCharacterId lower originKey ∧
        ∃ name ∈ rowIds lower (rowOf identity), ExcludedId graph originId name := by
  rw [rowIds_rowOf (plain_primary localeCompare pathStrengths graph h), key_rowOf]
  unfold isExcluded
  rw [Bool.and_eq_true, Bool.not_eq_true', ← Bool.not_eq_true, isOrigin_iff, any_eq_true]
  simp only [excludedSubject_iff]
  refine and_congr Iff.rfl ⟨?_, ?_⟩
  · rintro ⟨candidate, hin, hexcluded⟩
    exact ⟨_, mem_map_of_mem hin, hexcluded⟩
  · rintro ⟨name, hname, hexcluded⟩
    obtain ⟨candidate, hin, rfl⟩ := mem_map.mp hname
    exact ⟨candidate, hin, hexcluded⟩

theorem mem_excluded_iff {row : RankedSubject}
    (h : row ∈ included localeCompare pathStrengths graph originKey originId
        (pageMembers graph originId) ++
      excluded localeCompare pathStrengths graph originKey originId (pageMembers graph originId)) :
    row ∈ excluded localeCompare pathStrengths graph originKey originId
        (pageMembers graph originId) ↔
      canonicalCharacterId lower row.key ≠ canonicalCharacterId lower originKey ∧
        ∃ name ∈ rowIds lower row, ExcludedId graph originId name := by
  constructor
  · intro hrow
    obtain ⟨identity, hidentity, rfl⟩ := mem_map.mp hrow
    obtain ⟨hin, hexcluded⟩ := mem_filter.mp hidentity
    exact (isExcluded_iff localeCompare pathStrengths graph hin).mp hexcluded
  · intro hnamed
    rcases mem_append.mp h with hrow | hrow
    · obtain ⟨identity, hidentity, rfl⟩ := mem_map.mp hrow
      have hin := (mem_filter.mp hidentity).1
      exact mem_map_of_mem (mem_filter.mpr
        ⟨hin, (isExcluded_iff localeCompare pathStrengths graph hin).mpr hnamed⟩)
    · exact hrow

theorem rows_perm (originKey : CharacterKey) (originId : String) :
    List.Perm
      ((included localeCompare pathStrengths graph originKey originId
          (pageMembers graph originId) ++
        excluded localeCompare pathStrengths graph originKey originId
          (pageMembers graph originId)).flatMap (rowIds lower))
      ((candidates pathStrengths graph originId (pageMembers graph originId)).map
        (canonicalOf lower)) := by
  have hsplit := filter_append_perm
    (isExcluded graph originKey originId (pageMembers graph originId))
    (identities localeCompare pathStrengths graph originKey originId (pageMembers graph originId))
  have hrows : List.Perm
      (included localeCompare pathStrengths graph originKey originId (pageMembers graph originId) ++
        excluded localeCompare pathStrengths graph originKey originId (pageMembers graph originId))
      ((identities localeCompare pathStrengths graph originKey originId
        (pageMembers graph originId)).map rowOf) := by
    have hmapped := (perm_append_comm.trans hsplit).map rowOf
    rw [map_append] at hmapped
    exact hmapped
  have hids : ((identities localeCompare pathStrengths graph originKey originId
      (pageMembers graph originId)).map rowOf).flatMap (rowIds lower) =
      ((identities localeCompare pathStrengths graph originKey originId
        (pageMembers graph originId)).flatMap
          (fun identity => identity.primary :: identity.aliases)).map (canonicalOf lower) := by
    rw [flatMap_map, map_flatMap]
    apply flatMap_congr
    intro identity hidentity
    exact rowIds_rowOf (plain_primary localeCompare pathStrengths graph hidentity)
  have hall := hrows.flatMap_right (rowIds lower)
  rw [hids] at hall
  exact hall.trans ((identities_perm localeCompare pathStrengths graph originKey originId).map _)

theorem exists_origin (hid : graph.idOf originKey = some originId)
    (hfree : originId ∉ graph.suppressed) :
    ∃ origin ∈ candidates pathStrengths graph originId (pageMembers graph originId),
      isOrigin lower originKey origin = true ∧
        ∀ other ∈ candidates pathStrengths graph originId (pageMembers graph originId),
          other ≠ origin → isOrigin lower originKey other = false := by
  obtain ⟨hdistinct, hids, -⟩ := candidates_spec pathStrengths graph originId
  have hpage : originId ∈ pageMembers graph originId :=
    (mem_pageMembers graph originId originId).mpr ⟨hfree, .refl⟩
  obtain ⟨character, hget, hkey⟩ := (graph.named originKey originId).mp hid
  have hin := (hids (canonicalCharacterId lower originKey)).mpr
    (.inl ⟨originId, hpage, character, hget, hkey⟩)
  obtain ⟨origin, horigin, heq⟩ := mem_map.mp hin
  refine ⟨origin, horigin, isOrigin_iff.mpr heq, ?_⟩
  intro other hother hne
  rw [Bool.eq_false_iff]
  intro hsame
  exact hne (inj_on_of_nodup_map hdistinct hother horigin
    ((isOrigin_iff.mp hsame).trans heq.symm))

theorem head?_included (hid : graph.idOf originKey = some originId)
    (hfree : originId ∉ graph.suppressed) :
    ∃ row, (included localeCompare pathStrengths graph originKey originId
      (pageMembers graph originId)).head? = some row ∧
        canonicalCharacterId lower row.key = canonicalCharacterId lower originKey := by
  obtain ⟨origin, horigin, his, hothers⟩ := exists_origin pathStrengths graph hid hfree
  have hhead : (ordered localeCompare pathStrengths graph originKey originId
      (pageMembers graph originId)).head? = some origin := by
    apply head?_sortBy _ horigin (candidates_spec pathStrengths graph originId).1.of_map
    intro other hother hne
    unfold compareRanked
    rw [his, hothers other hother hne]
    exact ⟨rfl, rfl⟩
  obtain ⟨rest, hordered⟩ := head?_eq_some_iff.mp hhead
  obtain ⟨bucket, hbucket⟩ := head?_values_bucketsBy
    (identityName lower RankedSubject.key (recorded graph (pageMembers graph originId))) origin rest
  obtain ⟨buckets, hbuckets⟩ := head?_eq_some_iff.mp hbucket
  -- the first group holds the origin at its head, so the origin is its primary
  have hprimary : choosePrimary graph originKey originId (pageMembers graph originId)
      (origin :: bucket) = some origin := by
    unfold choosePrimary
    rw [find?_cons_of_pos his]
    rfl
  have hidentities : ∃ aliases others, identities localeCompare pathStrengths graph originKey
      originId (pageMembers graph originId) = ⟨origin, aliases⟩ :: others := by
    unfold identities groupBySharedWarcraftLogsId
    rw [hordered, hbuckets, filterMap_cons_some (by rw [hprimary]; rfl)]
    exact ⟨_, _, rfl⟩
  obtain ⟨aliases, others, hidentities⟩ := hidentities
  have hkept : isExcluded graph originKey originId (pageMembers graph originId)
      ⟨origin, aliases⟩ = false := by
    unfold isExcluded
    rw [his]
    rfl
  refine ⟨rowOf ⟨origin, aliases⟩, ?_, ?_⟩
  · unfold included
    rw [hidentities, filter_cons_of_pos (by rw [hkept]; rfl)]
    rfl
  · rw [key_rowOf]
    exact isOrigin_iff.mp his

/-- A page resolved for an origin: every member has a row, and it and the undiscovered
targets are each placed once, none suppressed; the origin comes first; the excluded rows are
those with an excluded name, and only the others fill the ceiling. -/
structure PlacesOnce (graph : GroupGraph lower) (originKey : CharacterKey) (originId : String)
    (ceiling : ℕ) (subjects : Subjects) : Prop where
  known : ∀ id ∈ pageMembers graph originId, id ∈ graph.characters.keys
  once : (placed lower subjects).Nodup
  placed_iff : ∀ canonical, canonical ∈ placed lower subjects ↔
    MemberId graph originId canonical ∨ UndiscoveredId graph originId canonical
  originFirst : 1 ≤ ceiling → ∃ row, subjects.selected.head? = some row ∧
    canonicalCharacterId lower row.key = canonicalCharacterId lower originKey
  notSuppressed : ∀ id ∈ graph.suppressed, ∀ character, graph.characters.get? id = some character →
    canonicalCharacterId lower character.key ∉ placed lower subjects
  excluded_iff : ∀ row ∈ subjects.selected ++ subjects.skipped ++ subjects.excluded,
    row ∈ subjects.excluded ↔
      canonicalCharacterId lower row.key ≠ canonicalCharacterId lower originKey ∧
        ∃ name ∈ rowIds lower row, ExcludedId graph originId name
  fills : subjects.selected.length = min ceiling (subjects.selected ++ subjects.skipped).length

/-- A character that is placed is not suppressed: a member is not, and a target without a
character names none. -/
theorem not_suppressed_of_placed {id : String} {character : GroupCharacter}
    (hget : graph.characters.get? id = some character)
    (h : MemberId graph originId (canonicalCharacterId lower character.key) ∨
      UndiscoveredId graph originId (canonicalCharacterId lower character.key)) :
    id ∉ graph.suppressed := by
  rcases h with ⟨member, hmember, other, hother, hsame⟩ | ⟨row, -, -, hnone, hsame⟩
  · rw [← id_unique hother hget hsame]
    exact ((mem_pageMembers graph originId member).mp hmember).not_suppressed
  · have hid := (graph.named row.targetKey id).mpr ⟨character, hget, hsame.symm⟩
    rw [hnone] at hid
    cases hid

theorem resolve_spec (hid : graph.idOf originKey = some originId)
    (hfree : originId ∉ graph.suppressed) (ceiling : ℕ) :
    ∃ subjects, resolveGroupSubjects localeCompare pathStrengths graph originKey ceiling =
        some subjects ∧ PlacesOnce graph originKey originId ceiling subjects ∧
      subjects.selected ++ subjects.skipped = included localeCompare pathStrengths graph originKey
        originId (pageMembers graph originId) ∧
      subjects.excluded = sortBy (compareByLevelThenKey localeCompare) (excluded localeCompare
        pathStrengths graph originKey originId (pageMembers graph originId)) := by
  unfold resolveGroupSubjects
  rw [hid]
  simp only
  rw [if_neg hfree]
  refine ⟨_, rfl, ?_, take_append_drop _ _, rfl⟩
  obtain ⟨hdistinct, hids, -⟩ := candidates_spec pathStrengths graph originId
  have hplaced : List.Perm (placed lower
      { selected := (included localeCompare pathStrengths graph originKey originId
          (pageMembers graph originId)).take ceiling
        skipped := (included localeCompare pathStrengths graph originKey originId
          (pageMembers graph originId)).drop ceiling
        excluded := sortBy (compareByLevelThenKey localeCompare) (excluded localeCompare
          pathStrengths graph originKey originId (pageMembers graph originId))
        research := research graph originId (pageMembers graph originId) })
      ((candidates pathStrengths graph originId (pageMembers graph originId)).map
        (canonicalOf lower)) := by
    unfold placed
    simp only
    rw [take_append_drop]
    exact (((perm_sortBy _ _).append_left _).flatMap_right _).trans
      (rows_perm localeCompare pathStrengths graph originKey originId)
  obtain ⟨character, hget, -⟩ := (graph.named originKey originId).mp hid
  refine ⟨?_, ?_, ?_, ?_, ?_, ?_, ?_⟩
  · intro id hmember
    exact known_of_mem hmember ((graph.characters.mem_keys_iff originId).mpr ⟨character, hget⟩)
  · exact hplaced.nodup_iff.mpr hdistinct
  · intro canonical
    rw [hplaced.mem_iff]
    exact hids canonical
  · intro hceiling
    obtain ⟨row, hrow, heq⟩ := head?_included localeCompare pathStrengths graph hid hfree
    refine ⟨row, ?_, heq⟩
    rw [head?_take, if_neg (by omega)]
    exact hrow
  · intro id hsuppressed other hother hin
    rw [hplaced.mem_iff, hids] at hin
    exact not_suppressed_of_placed graph hother hin hsuppressed
  · intro row hrow
    simp only [take_append_drop, mem_append, mem_sortBy] at hrow ⊢
    exact mem_excluded_iff localeCompare pathStrengths graph (mem_append.mpr hrow)
  · simp only [take_append_drop, length_take]

theorem placed_symm {a b : String} (h : b ∈ pageMembers graph a) (canonical : CanonicalId) :
    (MemberId graph a canonical ∨ UndiscoveredId graph a canonical) ↔
      (MemberId graph b canonical ∨ UndiscoveredId graph b canonical) := by
  have hpage := (mem_pageMembers graph a b).mp h
  have hsame : ∀ id, id ∈ pageMembers graph a ↔ id ∈ pageMembers graph b := by
    intro id
    rw [mem_pageMembers, mem_pageMembers]
    exact ⟨hpage.symm.trans, hpage.trans⟩
  unfold MemberId UndiscoveredId
  simp only [hsame]

/-- Pages hold what the links inside their group reach past no suppressed character; two
characters share one page or neither is on the other's; and a page places each of its
characters once, the same ones whichever of them it is of, with the ceiling filled by the
rows that are not excluded. -/
theorem pages_exact :
    (∀ originId id, id ∈ pageMembers graph originId ↔ OnPage graph originId id) ∧
    (∀ a b, a ∉ graph.suppressed → b ∉ graph.suppressed →
      (b ∈ pageMembers graph a ↔ a ∈ pageMembers graph b) ∧
        (b ∈ pageMembers graph a → ∀ id, id ∈ pageMembers graph a ↔ id ∈ pageMembers graph b)) ∧
    (∀ originKey ceiling,
      resolveGroupSubjects localeCompare pathStrengths graph originKey ceiling = none ↔
        ∀ originId, graph.idOf originKey = some originId → originId ∈ graph.suppressed) ∧
    (∀ originKey originId ceiling subjects, graph.idOf originKey = some originId →
      resolveGroupSubjects localeCompare pathStrengths graph originKey ceiling = some subjects →
      PlacesOnce graph originKey originId ceiling subjects ∧
        ∀ otherCeiling others,
          resolveGroupSubjects localeCompare pathStrengths graph originKey otherCeiling =
            some others →
          others.selected ++ others.skipped = subjects.selected ++ subjects.skipped ∧
            others.excluded = subjects.excluded) ∧
    ∀ aKey bKey a b aCeiling bCeiling aSubjects bSubjects,
      graph.idOf aKey = some a → graph.idOf bKey = some b → b ∈ pageMembers graph a →
      resolveGroupSubjects localeCompare pathStrengths graph aKey aCeiling = some aSubjects →
      resolveGroupSubjects localeCompare pathStrengths graph bKey bCeiling = some bSubjects →
      ∀ canonical, canonical ∈ placed lower aSubjects ↔ canonical ∈ placed lower bSubjects := by
  have hfreeOf : ∀ originKey originId ceiling subjects, graph.idOf originKey = some originId →
      resolveGroupSubjects localeCompare pathStrengths graph originKey ceiling = some subjects →
      originId ∉ graph.suppressed := by
    intro originKey originId ceiling subjects hid hresolved hsuppressed
    unfold resolveGroupSubjects at hresolved
    rw [hid] at hresolved
    simp only at hresolved
    rw [if_pos hsuppressed] at hresolved
    cases hresolved
  have hspec : ∀ originKey originId ceiling subjects, graph.idOf originKey = some originId →
      resolveGroupSubjects localeCompare pathStrengths graph originKey ceiling = some subjects →
      PlacesOnce graph originKey originId ceiling subjects ∧
        subjects.selected ++ subjects.skipped = included localeCompare pathStrengths graph originKey
          originId (pageMembers graph originId) ∧
        subjects.excluded = sortBy (compareByLevelThenKey localeCompare) (excluded localeCompare
          pathStrengths graph originKey originId (pageMembers graph originId)) := by
    intro originKey originId ceiling subjects hid hresolved
    obtain ⟨found, hfound, hspec⟩ := resolve_spec localeCompare pathStrengths graph hid
      (hfreeOf originKey originId ceiling subjects hid hresolved) ceiling
    rw [hresolved] at hfound
    rw [Option.some.inj hfound]
    exact hspec
  refine ⟨mem_pageMembers graph, ?_, ?_, ?_, ?_⟩
  · intro a b _ _
    rw [mem_pageMembers, mem_pageMembers]
    refine ⟨⟨OnPage.symm, OnPage.symm⟩, ?_⟩
    intro h id
    rw [mem_pageMembers, mem_pageMembers]
    exact ⟨h.symm.trans, h.trans⟩
  · intro originKey ceiling
    constructor
    · intro hnone originId hid
      by_contra hfree
      obtain ⟨subjects, hresolved, -⟩ :=
        resolve_spec localeCompare pathStrengths graph hid hfree ceiling
      rw [hnone] at hresolved
      cases hresolved
    · intro hall
      unfold resolveGroupSubjects
      cases hid : graph.idOf originKey with
      | none => rfl
      | some originId =>
        simp only
        rw [if_pos (hall originId hid)]
  · intro originKey originId ceiling subjects hid hresolved
    obtain ⟨hplaces, hincluded, hexcluded⟩ := hspec originKey originId ceiling subjects hid hresolved
    refine ⟨hplaces, ?_⟩
    intro otherCeiling others hothers
    obtain ⟨-, hincluded', hexcluded'⟩ := hspec originKey originId otherCeiling others hid hothers
    rw [hincluded, hincluded', hexcluded, hexcluded']
    exact ⟨rfl, rfl⟩
  · intro aKey bKey a b aCeiling bCeiling aSubjects bSubjects ha hb hpage haResolved hbResolved
      canonical
    rw [(hspec aKey a aCeiling aSubjects ha haResolved).1.placed_iff,
      (hspec bKey b bCeiling bSubjects hb hbResolved).1.placed_iff]
    exact placed_symm graph hpage canonical

end Placing

section Crossing

/-- A step over any link, of whatever groups. -/
def LinkStep {lower : String → String} (graph : GroupGraph lower) (a b : String) : Prop :=
  (∃ link ∈ graph.links, (link.a = a ∧ link.b = b) ∨ (link.a = b ∧ link.b = a)) ∧
    a ∉ graph.suppressed ∧ b ∉ graph.suppressed

def characterNamed (name : String) : GroupCharacter :=
  ⟨⟨.eu, "silvermoon", name⟩, name, "Mage", 80, ""⟩

/-- A character in a group, and one in no group yet that was just added to it by hand. -/
def justLinked : GroupGraph (fun name => name) where
  characters := ⟨[("1", characterNamed "anna"), ("2", characterNamed "bert")], by decide⟩
  idOf := fun key =>
    if key = (characterNamed "anna").key then some "1"
    else if key = (characterNamed "bert").key then some "2"
    else none
  groupOf := ⟨[("1", "g")], by decide⟩
  links := [⟨"1", "2", .manual⟩]
  manual := [⟨"1", "2", false⟩]
  undiscoveredManualTargets := []
  discoveredExclusions := []
  suppressed := []
  warcraftLogsIds := .empty
  sharedIdentity := fun id => [id]
  latestSnapshot := .empty
  known := by decide
  targets := by decide
  named := by
    intro key id
    have hcanonical : ∀ key other : CharacterKey, canonicalCharacterId (fun name => name) key =
        canonicalCharacterId (fun name => name) other ↔ key = other := by
      intro key other
      obtain ⟨region, realm, name⟩ := key
      obtain ⟨region', realm', name'⟩ := other
      cases region <;> cases region' <;> simp [canonicalCharacterId, Region.code]
    have hget : ∀ character, OrderedMap.get? ⟨[("1", characterNamed "anna"),
        ("2", characterNamed "bert")], by decide⟩ id = some character ↔
        (id = "1" ∧ character = characterNamed "anna") ∨
          (id = "2" ∧ character = characterNamed "bert") := by
      intro character
      rw [← OrderedMap.mem_entries_iff]
      simp
    have hnamed : (∃ character, ((id = "1" ∧ character = characterNamed "anna") ∨
        (id = "2" ∧ character = characterNamed "bert")) ∧ character.key = key) ↔
          (id = "1" ∧ (characterNamed "anna").key = key) ∨
            (id = "2" ∧ (characterNamed "bert").key = key) := by
      constructor
      · intro h
        obtain ⟨character, ⟨hid, heq⟩ | ⟨hid, heq⟩, hkey⟩ := h
        · exact .inl ⟨hid, by rw [← heq]; exact hkey⟩
        · exact .inr ⟨hid, by rw [← heq]; exact hkey⟩
      · intro h
        rcases h with ⟨hid, hkey⟩ | ⟨hid, hkey⟩
        · exact ⟨_, .inl ⟨hid, rfl⟩, hkey⟩
        · exact ⟨_, .inr ⟨hid, rfl⟩, hkey⟩
    simp only [hcanonical, hget]
    rw [hnamed]
    have hapart : (characterNamed "bert").key ≠ (characterNamed "anna").key := by decide
    split
    · rename_i hanna
      rw [hanna]
      simp [hapart, eq_comm]
    · rename_i hanna
      split
      · rename_i hbert
        rw [hbert]
        simp [hapart.symm, eq_comm]
      · rename_i hbert
        simp [Ne.symm hanna, Ne.symm hbert]

/-- The walk does not follow a link out of the group, so such a character is not on the page. -/
theorem ungrouped_not_on_page :
    ¬ ∀ (graph : GroupGraph (fun name => name)) (originId id : String),
      id ∈ pageMembers graph originId ↔
        originId ∉ graph.suppressed ∧ ReflTransGen (LinkStep graph) originId id := by
  intro h
  have hin := (h justLinked "1" "2").mpr ⟨by decide, .single ⟨⟨⟨"1", "2", .manual⟩,
    mem_cons_self, .inl ⟨rfl, rfl⟩⟩, by decide, by decide⟩⟩
  revert hin
  decide

end Crossing

end SlashWho.GroupPlacements
