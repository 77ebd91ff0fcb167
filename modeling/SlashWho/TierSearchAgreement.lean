import SlashWho.TierSearchStates

/-!
Where the dossier's view of a tier and a press on it say the same. The view credits a search to the
character that last took its name and ends it as its spacing ends; the reservation looks at the one
name the character is shown by and still counts the search at that instant. They agree exactly when
the newest search of its shown name is dated as the newest shown, and does not end just then.
-/

namespace SlashWho.TierSearchAgreement

open List Characters ComparatorSort DossierConnections EvidenceMerge EvidenceRetryPolicy
  EvidenceRuns EvidenceReservations TierSearchStates

variable {lower : String → String}

/-! ### The newest run -/

variable {s : Store} {qualifies : EvidenceRun → Bool}

theorem newestCreated_eq_none :
    newestCreated s qualifies = none ↔ ∀ run ∈ s.runs.values, qualifies run = false := by
  unfold newestCreated OrderedMap.values
  rw [argmax_eq_none, filter_eq_nil_iff, forall_mem_map]
  simp only [Bool.not_eq_true]

theorem newestCreated_spec {entry : ℕ × EvidenceRun} (h : newestCreated s qualifies = some entry) :
    entry.2 ∈ s.runs.values ∧ qualifies entry.2 = true ∧
      ∀ run ∈ s.runs.values, qualifies run = true → run.createdAt ≤ entry.2.createdAt := by
  have hmem := mem_filter.mp (argmax_mem h)
  refine ⟨mem_map_of_mem hmem.1, hmem.2, ?_⟩
  intro run hrun hqualifies
  obtain ⟨other, hother, rfl⟩ := mem_map.mp hrun
  have hle : Tables.createdOrder other ≤ Tables.createdOrder entry :=
    le_of_mem_argmax (mem_filter.mpr ⟨hother, hqualifies⟩) h
  exact Prod.Lex.monotone_fst _ _ hle

/-! ### The repository's answers -/

theorem since_le_iff (ms : ℕ) (createdAt : ℕ) :
    date ms - tierSearchSpacing ≤ createdAt ↔
      date ms ≤ dateOf createdAt + tierSearchSpacing := by
  show ms * 1000 - 24 * 60 * 60 * 1000 * 1000 ≤ createdAt ↔
    ms * 1000 ≤ createdAt - createdAt % 1000 + 24 * 60 * 60 * 1000 * 1000
  omega

variable {collation : String → String → Ordering} {keys : List CharacterKey} {since : Instant}
  {search : LatestTierSearch}

variable {key : CharacterKey} {raidId : String}

theorem mem_searchedTiers :
    (key, raidId) ∈ searchedTiers collation s keys ↔
      key ∈ keys ∧ ∃ run ∈ s.runs.values, run.key = key ∧ run.mode = .tierSearch raidId := by
  unfold searchedTiers
  rw [mem_sortBy, mem_dedup, mem_filterMap]
  constructor
  · rintro ⟨run, hrun, hmode⟩
    obtain ⟨hrun, hkey⟩ := mem_filter.mp hrun
    obtain ⟨raid, hraid, heq⟩ := Option.map_eq_some_iff.mp hmode
    obtain ⟨hkeyEq, hraidEq⟩ := Prod.mk.inj heq
    subst hkeyEq hraidEq
    refine ⟨by simpa using hkey, run, hrun, rfl, ?_⟩
    cases hrunMode : run.mode with
    | full => simp [hrunMode, EvidenceRunMode.tierSearchRaidId] at hraid
    | tierSearch other =>
      simp only [hrunMode, EvidenceRunMode.tierSearchRaidId, Option.some.injEq] at hraid
      rw [hraid]
  · rintro ⟨hkey, run, hrun, hrunKey, hmode⟩
    subst hrunKey
    refine ⟨run, mem_filter.mpr ⟨hrun, by simpa using hkey⟩, ?_⟩
    rw [hmode]
    rfl

theorem searchedSince_iff {run : EvidenceRun} :
    searchedSince key raidId since run = true ↔
      run.key = key ∧ run.mode = .tierSearch raidId ∧ since ≤ run.createdAt := by
  simp [searchedSince, Tables.searchesOf, and_assoc]

theorem mem_latestTierSearches :
    search ∈ latestTierSearches collation s keys since ↔
      search.key ∈ keys ∧ latestTierSearch s since search.key search.raidId = some search := by
  unfold latestTierSearches
  rw [mem_filterMap]
  constructor
  · rintro ⟨tier, htier, hsearch⟩
    obtain ⟨entry, hentry, heq⟩ := Option.map_eq_some_iff.mp hsearch
    subst heq
    exact ⟨(mem_searchedTiers.mp htier).1, hsearch⟩
  · rintro ⟨hkey, hsearch⟩
    refine ⟨(search.key, search.raidId), mem_searchedTiers.mpr ⟨hkey, ?_⟩, hsearch⟩
    obtain ⟨entry, hentry, -⟩ := Option.map_eq_some_iff.mp hsearch
    obtain ⟨hmem, hqualifies, -⟩ := newestCreated_spec hentry
    obtain ⟨hrunKey, hmode, -⟩ := searchedSince_iff.mp hqualifies
    exact ⟨entry.2, hmem, hrunKey, hmode⟩

theorem run_of_latestTierSearch (h : latestTierSearch s since key raidId = some search) :
    search.key = key ∧ search.raidId = raidId ∧ ∃ run ∈ s.runs.values,
      searchedSince key raidId since run = true ∧ search.status = run.status ∧
      search.createdAt = dateOf run.createdAt := by
  obtain ⟨entry, hentry, heq⟩ := Option.map_eq_some_iff.mp h
  subst heq
  obtain ⟨hmem, hqualifies, -⟩ := newestCreated_spec hentry
  exact ⟨rfl, rfl, entry.2, hmem, hqualifies, rfl, rfl⟩

theorem dateOf_le_dateOf {a b : ℕ} (h : a ≤ b) : dateOf a ≤ dateOf b := by
  show a - a % 1000 ≤ b - b % 1000
  omega

theorem latestTierSearch_of_run {run : EvidenceRun} (hrun : run ∈ s.runs.values)
    (h : searchedSince key raidId since run = true) :
    ∃ search, latestTierSearch s since key raidId = some search ∧
      dateOf run.createdAt ≤ search.createdAt := by
  cases hnewest : newestCreated s (searchedSince key raidId since) with
  | none =>
    have hnot := newestCreated_eq_none.mp hnewest run hrun
    rw [h] at hnot
    cases hnot
  | some entry =>
    have hle := (newestCreated_spec hnewest).2.2 run hrun h
    exact ⟨_, by rw [latestTierSearch, hnewest]; rfl, dateOf_le_dateOf hle⟩

/-! ### Whose search it is -/

/-- The character at a place has the name, and no later one takes it over. -/
def FiledUnder (subjects : List (TierSearchSubject lower)) (i : ℕ) (key : CharacterKey) : Prop :=
  (∃ subject, subjects[i]? = some subject ∧ key ∈ subject.names.map LookupKey.toCharacterKey) ∧
    ∀ j subject, i < j → subjects[j]? = some subject →
      key ∉ subject.names.map LookupKey.toCharacterKey

theorem mem_ids_iff {names : List (LookupKey lower)} {name : LookupKey lower} :
    name.id ∈ names.map LookupKey.id ↔
      name.toCharacterKey ∈ names.map LookupKey.toCharacterKey := by
  rw [mem_map, mem_map]
  constructor
  · rintro ⟨other, hother, heq⟩
    obtain rfl := (LookupKey.id_eq_iff other name).mp heq
    exact ⟨other, hother, rfl⟩
  · rintro ⟨other, hother, heq⟩
    exact ⟨other, hother, congrArg (canonicalCharacterId lower) heq⟩

theorem subjectOf_concat (subjects : List (TierSearchSubject lower))
    (subject : TierSearchSubject lower) (id : CanonicalId) :
    (subjectOf (subjects ++ [subject])).get? id =
      if id ∈ subject.names.map LookupKey.id then some subjects.length
      else (subjectOf subjects).get? id := by
  unfold subjectOf OrderedMap.ofList
  rw [zipIdx_append, flatMap_append, OrderedMap.setAll_append, OrderedMap.get?_setAll]
  have hlast : ∀ names : List (LookupKey lower),
      ((names.map (fun key => (key.id, subjects.length))).reverse.lookup id) =
        if id ∈ names.map LookupKey.id then some subjects.length else none := by
    intro names
    have hget := OrderedMap.get?_ofList (names.map (fun key => (key.id, subjects.length))) id
    rw [← hget]
    split
    · next hmem =>
      have hkey : id ∈ (OrderedMap.ofList
          (names.map (fun key => (key.id, subjects.length)))).keys := by
        rw [OrderedMap.mem_keys_ofList, map_map]
        exact hmem
      obtain ⟨place, hplace⟩ := (OrderedMap.mem_keys_iff _ id).mp hkey
      have hentry := OrderedMap.mem_of_mem_entries_ofList
        ((OrderedMap.mem_entries_iff _ id place).mpr hplace)
      obtain ⟨key, -, heq⟩ := mem_map.mp hentry
      rw [hplace, ← (Prod.mk.inj heq).2]
    · next hmem =>
      cases hplace : (OrderedMap.ofList
          (names.map (fun key => (key.id, subjects.length)))).get? id with
      | none => rfl
      | some place =>
        have hkey := (OrderedMap.mem_keys_iff _ id).mpr ⟨place, hplace⟩
        rw [OrderedMap.mem_keys_ofList, map_map] at hkey
        exact absurd hkey hmem
  simp only [zipIdx_singleton, flatMap_singleton, Nat.zero_add, hlast]
  split <;> rfl

theorem subjectOf_eq_some_iff (subjects : List (TierSearchSubject lower)) (i : ℕ)
    (name : LookupKey lower) :
    (subjectOf subjects).get? name.id = some i ↔ FiledUnder subjects i name.toCharacterKey := by
  induction subjects using List.reverseRecOn with
  | nil => simp [subjectOf, OrderedMap.ofList, OrderedMap.setAll, FiledUnder]
  | append_singleton subjects subject ih =>
    rw [subjectOf_concat]
    have hlast : (subjects ++ [subject])[subjects.length]? = some subject := by simp
    split
    · next hmem =>
      have hnamed := mem_ids_iff.mp hmem
      constructor
      · intro h
        obtain rfl := Option.some.inj h
        refine ⟨⟨subject, hlast, hnamed⟩, ?_⟩
        intro j other hj hother
        have hlt := (List.getElem?_eq_some_iff.mp hother).1
        rw [length_append, length_singleton] at hlt
        omega
      · rintro ⟨⟨other, hother, -⟩, hlater⟩
        have hlt := (List.getElem?_eq_some_iff.mp hother).1
        rw [length_append, length_singleton] at hlt
        by_cases heq : i = subjects.length
        · rw [heq]
        · exact absurd hnamed (hlater subjects.length subject (by omega) hlast)
    · next hmem =>
      have hunnamed : name.toCharacterKey ∉ subject.names.map LookupKey.toCharacterKey :=
        fun h => hmem (mem_ids_iff.mpr h)
      rw [ih]
      have hbefore : ∀ (j : ℕ) (other : TierSearchSubject lower),
          (subjects ++ [subject])[j]? = some other →
          subjects[j]? = some other ∨ other = subject := by
        intro j other hother
        by_cases hj : j < subjects.length
        · rw [getElem?_append_left hj] at hother
          exact .inl hother
        · rw [getElem?_append_right (by omega)] at hother
          exact .inr (mem_singleton.mp (mem_of_getElem? hother))
      have hafter : ∀ (j : ℕ) (other : TierSearchSubject lower), subjects[j]? = some other →
          (subjects ++ [subject])[j]? = some other := by
        intro j other hother
        rw [getElem?_append_left (List.getElem?_eq_some_iff.mp hother).1]
        exact hother
      constructor
      · rintro ⟨⟨other, hother, hnamed⟩, hlater⟩
        refine ⟨⟨other, hafter i other hother, hnamed⟩, ?_⟩
        intro j later hj hlaterAt
        rcases hbefore j later hlaterAt with hold | heq
        · exact hlater j later hj hold
        · rw [heq]
          exact hunnamed
      · rintro ⟨⟨other, hother, hnamed⟩, hlater⟩
        rcases hbefore i other hother with hold | heq
        · exact ⟨⟨other, hold, hnamed⟩, fun j later hj hlaterAt =>
            hlater j later hj (hafter j later hlaterAt)⟩
        · rw [heq] at hnamed
          exact absurd hnamed hunnamed

/-! ### The newest search per character -/

def kept (newest : OrderedMap String (OrderedMap ℕ LatestTierSearch)) (raidId : String) (i : ℕ) :
    Option LatestTierSearch :=
  (newest.get? raidId).bind (fun bySubject => bySubject.get? i)

def newer (current : Option LatestTierSearch) (search : LatestTierSearch) : LatestTierSearch :=
  match current with
  | none => search
  | some current => if current.createdAt < search.createdAt then search else current

theorem kept_keepNewest (newest : OrderedMap String (OrderedMap ℕ LatestTierSearch))
    (item : ℕ × LatestTierSearch) (raidId : String) (i : ℕ) :
    kept (keepNewest newest item) raidId i =
      if item.2.raidId = raidId ∧ item.1 = i then some (newer (kept newest raidId i) item.2)
      else kept newest raidId i := by
  obtain ⟨index, search⟩ := item
  have hheld : ∀ i, kept newest search.raidId i =
      ((newest.get? search.raidId).getD .empty).get? i := by
    intro i
    unfold kept
    cases newest.get? search.raidId <;> rfl
  by_cases hraid : search.raidId = raidId
  · subst hraid
    have hset : kept (keepNewest newest (index, search)) search.raidId i =
        (match ((newest.get? search.raidId).getD .empty).get? index with
          | none => ((newest.get? search.raidId).getD .empty).set index search
          | some current =>
            if current.createdAt < search.createdAt then
              ((newest.get? search.raidId).getD .empty).set index search
            else (newest.get? search.raidId).getD .empty).get? i := by
      unfold kept keepNewest
      rw [OrderedMap.get?_set_self]
      rfl
    rw [hset, hheld i]
    by_cases hindex : index = i
    · subst hindex
      rw [if_pos ⟨rfl, rfl⟩]
      cases hcurrent : ((newest.get? search.raidId).getD .empty).get? index with
      | none => exact OrderedMap.get?_set_self _ _ _
      | some current =>
        unfold newer
        by_cases hlt : current.createdAt < search.createdAt
        · simp only [if_pos hlt]
          exact OrderedMap.get?_set_self _ _ _
        · simp only [if_neg hlt]
          exact hcurrent
    · rw [if_neg (fun h => hindex h.2)]
      have hother := OrderedMap.get?_set_ne ((newest.get? search.raidId).getD .empty) search
        (Ne.symm hindex)
      split
      · exact hother
      · split
        · exact hother
        · rfl
  · rw [if_neg (fun h => hraid h.1)]
    unfold kept keepNewest
    rw [OrderedMap.get?_set_ne _ _ (Ne.symm hraid)]

theorem kept_foldl (items : List (ℕ × LatestTierSearch)) (raidId : String) (i : ℕ) :
    match kept (items.foldl keepNewest .empty) raidId i with
    | none => ∀ item ∈ items, ¬ (item.2.raidId = raidId ∧ item.1 = i)
    | some search => (i, search) ∈ items ∧ search.raidId = raidId ∧
        ∀ item ∈ items, item.2.raidId = raidId ∧ item.1 = i →
          item.2.createdAt ≤ search.createdAt := by
  induction items using List.reverseRecOn with
  | nil =>
    intro item hitem
    cases hitem
  | append_singleton items item ih =>
    rw [foldl_append, foldl_cons, foldl_nil, kept_keepNewest]
    by_cases hhere : item.2.raidId = raidId ∧ item.1 = i
    · rw [if_pos hhere]
      obtain ⟨hraid, hindex⟩ := hhere
      have hself : (i, item.2) ∈ items ++ [item] := by
        rw [← hindex]
        exact mem_append_right _ mem_cons_self
      cases hkept : kept (items.foldl keepNewest .empty) raidId i with
      | none =>
        rw [hkept] at ih
        refine ⟨hself, hraid, ?_⟩
        intro other hother hat
        rcases mem_append.mp hother with hold | hnew
        · exact absurd hat (ih other hold)
        · rw [mem_singleton.mp hnew]
          exact le_refl _
      | some current =>
        rw [hkept] at ih
        obtain ⟨hmem, hcurrent, hmax⟩ := ih
        unfold newer
        simp only
        by_cases hlt : current.createdAt < item.2.createdAt
        · rw [if_pos hlt]
          refine ⟨hself, hraid, ?_⟩
          intro other hother hat
          rcases mem_append.mp hother with hold | hnew
          · exact le_of_lt (lt_of_le_of_lt (hmax other hold hat) hlt)
          · rw [mem_singleton.mp hnew]
        · rw [if_neg hlt]
          refine ⟨mem_append_left _ hmem, hcurrent, ?_⟩
          intro other hother hat
          rcases mem_append.mp hother with hold | hnew
          · exact hmax other hold hat
          · rw [mem_singleton.mp hnew]
            exact not_lt.mp hlt
    · rw [if_neg hhere]
      cases hkept : kept (items.foldl keepNewest .empty) raidId i with
      | none =>
        rw [hkept] at ih
        intro other hother
        rcases mem_append.mp hother with hold | hnew
        · exact ih other hold
        · rw [mem_singleton.mp hnew]
          exact hhere
      | some search =>
        rw [hkept] at ih
        obtain ⟨hmem, hraid, hmax⟩ := ih
        refine ⟨mem_append_left _ hmem, hraid, ?_⟩
        intro other hother hat
        rcases mem_append.mp hother with hold | hnew
        · exact hmax other hold hat
        · rw [mem_singleton.mp hnew] at hat
          exact absurd hat hhere

/-! ### One character of the view -/

theorem get?_tierSearchStates (now : Instant) (withEvidence : Option (List CanonicalId))
    (subjects : List (TierSearchSubject lower)) (latest : List LatestTierSearch)
    (raidId : String) :
    (tierSearchStates now withEvidence subjects latest).get? raidId =
      ((newestSearches subjects latest).get? raidId).bind
        (tierState now withEvidence subjects) := by
  let newest := newestSearches subjects latest
  have hentries : newest.entries.filterMap (fun entry =>
        (tierState now withEvidence subjects entry.2).map (fun state => (entry.1, state))) =
      newest.keys.filterMap (fun raidId =>
        ((newest.get? raidId).bind (tierState now withEvidence subjects)).map
          (fun state => (raidId, state))) := by
    unfold OrderedMap.keys
    rw [filterMap_map]
    apply filterMap_congr
    intro entry hentry
    rw [Function.comp_apply, (newest.mem_entries_iff entry.1 entry.2).mp hentry, Option.bind_some]
  change (OrderedMap.ofList (newest.entries.filterMap _)).get? raidId = (newest.get? raidId).bind _
  rw [hentries, OrderedMap.get?_ofList_filterMap]
  split
  · rfl
  · next hkey =>
    cases hget : newest.get? raidId with
    | none => rfl
    | some bySubject => exact absurd ((newest.mem_keys_iff raidId).mpr ⟨bySubject, hget⟩) hkey

variable {now : Instant} {withEvidence : Option (List CanonicalId)}
  {subjects : List (TierSearchSubject lower)} {latest : List LatestTierSearch} {i : ℕ}
  {subject : TierSearchSubject lower}

theorem isIdle_idleState (withEvidence : Option (List CanonicalId))
    (subject : TierSearchSubject lower) : isIdle (idleState withEvidence subject) = true := by
  unfold idleState
  cases withEvidence with
  | none => rfl
  | some ids =>
    show isIdle (if subject.key.id ∈ ids then .notSearched else .noEvidence) = true
    split <;> rfl

theorem tierSearchStates_spec (now : Instant) (withEvidence : Option (List CanonicalId))
    (latest : List LatestTierSearch) (raidId : String) (hsubject : subjects[i]? = some subject) :
    match (tierSearchStates now withEvidence subjects latest).get? raidId with
    | none => isIdle (shownCharacter now withEvidence subject
        (kept (newestSearches subjects latest) raidId i)).state = true
    | some tier => tier.characters[i]? = some (shownCharacter now withEvidence subject
        (kept (newestSearches subjects latest) raidId i)) := by
  rw [get?_tierSearchStates]
  unfold kept
  cases hnewest : (newestSearches subjects latest).get? raidId with
  | none => exact isIdle_idleState withEvidence subject
  | some bySubject =>
    rw [Option.bind_some, Option.bind_some]
    have hshown : (subjects.zipIdx.map (fun entry =>
          shownCharacter now withEvidence entry.1 (bySubject.get? entry.2)))[i]? =
        some (shownCharacter now withEvidence subject (bySubject.get? i)) := by
      rw [getElem?_map, getElem?_zipIdx, hsubject]
      simp
    unfold tierState
    by_cases hsearched : ((subjects.zipIdx.map (fun entry =>
        shownCharacter now withEvidence entry.1 (bySubject.get? entry.2))).filter
          (fun character => !isIdle character.state)) = []
    · simp only [if_pos hsearched]
      have hall := filter_eq_nil_iff.mp hsearched _ (mem_of_getElem? hshown)
      simpa using hall
    · simp only [if_neg hsearched]
      exact hshown

theorem characterState_ended {status : EvidenceRunStatus} {searchableAgainAt : Instant}
    (hended : status.isActive = false) :
    (searchableAgainAt ≤ now → characterState status searchableAgainAt now = .notSearched) ∧
    (now < searchableAgainAt → isIdle (characterState status searchableAgainAt now) = false) := by
  constructor
  · intro hle
    cases status with
    | queued | running | retrying => cases hended
    | complete | partial_ | failed => exact if_pos hle
  · intro hlt
    have hnot : ¬ searchableAgainAt ≤ now := not_le.mpr hlt
    cases status with
    | queued | running | retrying => cases hended
    | complete | partial_ | failed =>
      simp only [characterState, if_neg hnot]
      rfl

theorem shownCharacter_ended {search : LatestTierSearch}
    (hended : search.status.isActive = false) :
    (search.createdAt + tierSearchSpacing ≤ now →
      shownCharacter now withEvidence subject (some search) =
        idleCharacter withEvidence subject) ∧
    (now < search.createdAt + tierSearchSpacing →
      isIdle (shownCharacter now withEvidence subject (some search)).state = false ∧
      (shownCharacter now withEvidence subject (some search)).searchableAgainAt =
        some (search.createdAt + tierSearchSpacing)) := by
  constructor
  · intro hle
    exact if_pos ((characterState_ended hended).1 hle)
  · intro hlt
    have hshown := (characterState_ended hended).2 hlt
    have hne : characterState search.status (search.createdAt + tierSearchSpacing) now ≠
        .notSearched := by
      intro heq
      rw [heq] at hshown
      cases hshown
    unfold shownCharacter
    simp only [if_neg hne]
    exact ⟨hshown, trivial⟩

/-! ### One raid, asked about at one instant -/

variable {ms : ℕ}

/-- A search of the raid that the character at a place is credited with. -/
def Credited (subjects : List (TierSearchSubject lower)) (i : ℕ) (raidId : String)
    (run : EvidenceRun) : Prop :=
  FiledUnder subjects i run.key ∧ run.mode = .tierSearch raidId

/-- The date a search may be repeated at is still to come. -/
def Cooling (ms : ℕ) (run : EvidenceRun) : Prop :=
  date ms < dateOf run.createdAt + tierSearchSpacing

/-- The search of the raid that the view holds for the character at a place. -/
def shownSearch (collation : String → String → Ordering) (s : Store)
    (subjects : List (TierSearchSubject lower)) (i : ℕ) (raidId : String) (ms : ℕ) :
    Option LatestTierSearch :=
  kept (newestSearches subjects (latestTierSearches collation s
    ((subjects.flatMap TierSearchSubject.names).map LookupKey.toCharacterKey)
    (date ms - tierSearchSpacing))) raidId i

theorem run_of_filed {search : LatestTierSearch}
    (h : (i, search) ∈ filedSearches subjects (latestTierSearches collation s
      ((subjects.flatMap TierSearchSubject.names).map LookupKey.toCharacterKey)
      (date ms - tierSearchSpacing))) (hraid : search.raidId = raidId) :
    ∃ run ∈ s.runs.values, Credited subjects i raidId run ∧ search.status = run.status ∧
      search.createdAt = dateOf run.createdAt := by
  obtain ⟨search', hsearch, hplace⟩ := mem_filterMap.mp h
  obtain ⟨place, hget, heq⟩ := Option.map_eq_some_iff.mp hplace
  obtain ⟨hplaceEq, hsearchEq⟩ := Prod.mk.inj heq
  subst hplaceEq hsearchEq
  obtain ⟨hkey, hlatest⟩ := mem_latestTierSearches.mp hsearch
  obtain ⟨name, -, hname⟩ := mem_map.mp hkey
  obtain ⟨-, -, run, hrun, hsince, hstatus, hcreated⟩ := run_of_latestTierSearch hlatest
  obtain ⟨hrunKey, hmode, -⟩ := searchedSince_iff.mp hsince
  refine ⟨run, hrun, ⟨?_, hraid ▸ hmode⟩, hstatus, hcreated⟩
  rw [← hname] at hget
  rw [hrunKey, ← hname]
  exact (subjectOf_eq_some_iff subjects place name).mp hget

variable {run : EvidenceRun}

theorem filed_of_run (hrun : run ∈ s.runs.values) (hcredited : Credited subjects i raidId run)
    (hwindow : date ms ≤ dateOf run.createdAt + tierSearchSpacing) :
    ∃ search, (i, search) ∈ filedSearches subjects (latestTierSearches collation s
        ((subjects.flatMap TierSearchSubject.names).map LookupKey.toCharacterKey)
        (date ms - tierSearchSpacing)) ∧
      search.raidId = raidId ∧ dateOf run.createdAt ≤ search.createdAt := by
  obtain ⟨hfiled, hmode⟩ := hcredited
  obtain ⟨subject, hsubject, hnamed⟩ := hfiled.1
  obtain ⟨name, hname, hkey⟩ := mem_map.mp hnamed
  have hsince : searchedSince run.key raidId (date ms - tierSearchSpacing) run = true :=
    searchedSince_iff.mpr ⟨rfl, hmode, (since_le_iff ms run.createdAt).mpr hwindow⟩
  obtain ⟨search, hlatest, hle⟩ := latestTierSearch_of_run hrun hsince
  obtain ⟨hsearchKey, hsearchRaid, -⟩ := run_of_latestTierSearch hlatest
  refine ⟨search, mem_filterMap.mpr ⟨search, ?_, ?_⟩, hsearchRaid, hle⟩
  · refine mem_latestTierSearches.mpr ⟨?_, ?_⟩
    · rw [hsearchKey, ← hkey]
      exact mem_map_of_mem (mem_flatMap.mpr
        ⟨subject, mem_of_getElem? hsubject, hname⟩)
    · rw [hsearchKey, hsearchRaid]
      exact hlatest
  · have hget := (subjectOf_eq_some_iff subjects i name).mpr (hkey ▸ hfiled)
    rw [hsearchKey, ← hkey]
    change Option.map _ ((subjectOf subjects).get? name.id) = _
    rw [hget]
    rfl

theorem shownSearch_spec (collation : String → String → Ordering) (s : Store)
    (subjects : List (TierSearchSubject lower)) (i : ℕ) (raidId : String) (ms : ℕ) :
    match shownSearch collation s subjects i raidId ms with
    | none => ∀ run ∈ s.runs.values, Credited subjects i raidId run →
        ¬ date ms ≤ dateOf run.createdAt + tierSearchSpacing
    | some search =>
      (∃ run ∈ s.runs.values, Credited subjects i raidId run ∧ search.status = run.status ∧
        search.createdAt = dateOf run.createdAt) ∧
      ∀ run ∈ s.runs.values, Credited subjects i raidId run →
        date ms ≤ dateOf run.createdAt + tierSearchSpacing →
        dateOf run.createdAt ≤ search.createdAt := by
  have hkept := kept_foldl (filedSearches subjects (latestTierSearches collation s
    ((subjects.flatMap TierSearchSubject.names).map LookupKey.toCharacterKey)
    (date ms - tierSearchSpacing))) raidId i
  unfold shownSearch newestSearches
  split
  · next hnone =>
    rw [hnone] at hkept
    intro run hrun hcredited hwindow
    obtain ⟨search, hmem, hraid, -⟩ := filed_of_run hrun hcredited hwindow
    exact hkept (i, search) hmem ⟨hraid, rfl⟩
  · next search hsome =>
    rw [hsome] at hkept
    obtain ⟨hmem, hraid, hmax⟩ := hkept
    refine ⟨run_of_filed hmem hraid, ?_⟩
    intro run hrun hcredited hwindow
    obtain ⟨other, hother, hotherRaid, hle⟩ := filed_of_run hrun hcredited hwindow
    exact le_trans hle (hmax (i, other) hother ⟨hotherRaid, rfl⟩)

/-- The search of the raid under the character's own name that a press would find. -/
def ownSearch (s : Store) (subject : TierSearchSubject lower) (raidId : String) (ms : ℕ) :
    Option (ℕ × EvidenceRun) :=
  newestCreated s
    (searchedSince subject.key.toCharacterKey raidId (date ms - tierSearchSpacing))

theorem ownSearch_spec (s : Store) (subject : TierSearchSubject lower) (raidId : String)
    (ms : ℕ) :
    match ownSearch s subject raidId ms with
    | none => ∀ run ∈ s.runs.values,
        Tables.searchesOf subject.key.toCharacterKey raidId run = true →
        ¬ date ms ≤ dateOf run.createdAt + tierSearchSpacing
    | some entry => entry.2 ∈ s.runs.values ∧
        Tables.searchesOf subject.key.toCharacterKey raidId entry.2 = true ∧
        date ms ≤ dateOf entry.2.createdAt + tierSearchSpacing ∧
        ∀ run ∈ s.runs.values,
          Tables.searchesOf subject.key.toCharacterKey raidId run = true →
          date ms ≤ dateOf run.createdAt + tierSearchSpacing →
          dateOf run.createdAt ≤ dateOf entry.2.createdAt := by
  have hsince : ∀ run : EvidenceRun,
      searchedSince subject.key.toCharacterKey raidId (date ms - tierSearchSpacing) run = true ↔
        Tables.searchesOf subject.key.toCharacterKey raidId run = true ∧
          date ms ≤ dateOf run.createdAt + tierSearchSpacing := by
    intro run
    rw [← since_le_iff ms run.createdAt]
    simp [searchedSince]
  unfold ownSearch
  split
  · next hnone =>
    intro run hrun hown hwindow
    have hnot := newestCreated_eq_none.mp hnone run hrun
    rw [(hsince run).mpr ⟨hown, hwindow⟩] at hnot
    cases hnot
  · next entry hsome =>
    obtain ⟨hmem, hqualifies, hmax⟩ := newestCreated_spec hsome
    obtain ⟨hown, hwindow⟩ := (hsince entry.2).mp hqualifies
    refine ⟨hmem, hown, hwindow, ?_⟩
    intro run hrun hrunOwn hrunWindow
    exact dateOf_le_dateOf (hmax run hrun ((hsince run).mpr ⟨hrunOwn, hrunWindow⟩))

theorem pressTierSearch_eq (phasePlan : List String) {id : ℕ} (hraid : raidId ≠ "")
    (hid : s.runs.has id = false)
    (hidle : s.hasActive subject.key.toCharacterKey = false) :
    pressTierSearch s subject.key.toCharacterKey raidId (date ms) phasePlan id =
      match ownSearch s subject raidId ms with
      | some run => .ok (.recent run)
      | none =>
        if hasCompletedEvidence s subject.key.toCharacterKey then .ok (.reserved id)
        else .ok .noEvidence := by
  have hactive : newestCreated s
      (fun run => run.key = subject.key.toCharacterKey && run.isActive) = none := by
    rw [newestCreated_eq_none]
    intro run hrun
    have hnot := any_eq_false.mp hidle run hrun
    simpa using hnot
  unfold pressTierSearch reserveTierSearch
  rw [if_neg hraid, hactive]
  unfold ownSearch
  simp only
  cases newestCreated s
      (searchedSince subject.key.toCharacterKey raidId (date ms - tierSearchSpacing)) with
  | some run => rfl
  | none =>
    simp only
    by_cases hevidence : hasCompletedEvidence s subject.key.toCharacterKey = true
    · rw [if_pos hevidence, if_pos hevidence]
      unfold Store.insertRun
      rw [if_neg (by simp [hid, hidle])]
    · rw [if_neg hevidence, if_neg hevidence]

/-! ### When the two agree -/

/-- What the view shows of the character at a place says what a press would answer. -/
def Agrees (view : Option (DossierTierSearch lower)) (i : ℕ)
    (answer : Except Fault TierSearchReservation) : Prop :=
  match view with
  | none => ∀ run, answer ≠ .ok (.recent run)
  | some tier => ∃ character, tier.characters[i]? = some character ∧
      (character.state = .notSearched ↔ ∃ id, answer = .ok (.reserved id)) ∧
      (character.state = .noEvidence ↔ answer = .ok .noEvidence) ∧
      (character.state ≠ .notSearched → character.state ≠ .noEvidence →
        ∃ run, answer = .ok (.recent run) ∧
          character.searchableAgainAt = some (dateOf run.2.createdAt + tierSearchSpacing))

/-- The searches under the name the character is shown by and those it is credited with
speak alike at an instant. -/
structure SearchesAlike (s : Store) (subjects : List (TierSearchSubject lower)) (i : ℕ)
    (subject : TierSearchSubject lower) (raidId : String) (ms : ℕ) : Prop where
  /-- No search under the shown name ends its spacing just then, unless a newer one goes on. -/
  ended : ∀ run ∈ s.runs.values, Tables.searchesOf subject.key.toCharacterKey raidId run = true →
    dateOf run.createdAt + tierSearchSpacing = date ms →
    ∃ later ∈ s.runs.values,
      Tables.searchesOf subject.key.toCharacterKey raidId later = true ∧ Cooling ms later
  /-- A credited search that is cooling down is matched by one under the shown name. -/
  merged : ∀ run ∈ s.runs.values, Credited subjects i raidId run → Cooling ms run →
    ∃ own ∈ s.runs.values, Tables.searchesOf subject.key.toCharacterKey raidId own = true ∧
      dateOf run.createdAt ≤ dateOf own.createdAt
  /-- And one under the shown name by a credited one. -/
  credited : ∀ run ∈ s.runs.values,
    Tables.searchesOf subject.key.toCharacterKey raidId run = true → Cooling ms run →
    ∃ other ∈ s.runs.values, Credited subjects i raidId other ∧
      dateOf run.createdAt ≤ dateOf other.createdAt

theorem Cooling.of_le {later : EvidenceRun} (h : Cooling ms run)
    (hle : dateOf run.createdAt ≤ dateOf later.createdAt) : Cooling ms later :=
  lt_of_lt_of_le h (Nat.add_le_add_right hle _)

theorem searchesAlike_iff_of_none
    (hnone : ∀ run ∈ s.runs.values, Credited subjects i raidId run → ¬ Cooling ms run) :
    SearchesAlike s subjects i subject raidId ms ↔ ownSearch s subject raidId ms = none := by
  have hspec := ownSearch_spec s subject raidId ms
  constructor
  · intro halike
    cases hown : ownSearch s subject raidId ms with
    | none => rfl
    | some entry =>
      rw [hown] at hspec
      obtain ⟨hmem, hsearch, hwindow, -⟩ := hspec
      have hcooling : ∃ later ∈ s.runs.values,
          Tables.searchesOf subject.key.toCharacterKey raidId later = true ∧
            Cooling ms later := by
        rcases eq_or_lt_of_le hwindow with hend | hlt
        · exact halike.ended entry.2 hmem hsearch hend.symm
        · exact ⟨entry.2, hmem, hsearch, hlt⟩
      obtain ⟨later, hlater, hlaterOwn, hlaterCooling⟩ := hcooling
      obtain ⟨other, hother, hcredited, hle⟩ :=
        halike.credited later hlater hlaterOwn hlaterCooling
      exact absurd (hlaterCooling.of_le hle) (hnone other hother hcredited)
  · intro hown
    rw [hown] at hspec
    constructor
    · intro run hrun hsearch hend
      exact absurd (le_of_eq hend.symm) (hspec run hrun hsearch)
    · intro run hrun hcredited hcooling
      exact absurd hcooling (hnone run hrun hcredited)
    · intro run hrun hsearch hcooling
      exact absurd (le_of_lt hcooling) (hspec run hrun hsearch)

theorem searchesAlike_iff_of_some {shown : EvidenceRun} (hshown : shown ∈ s.runs.values)
    (hcredited : Credited subjects i raidId shown) (hcooling : Cooling ms shown)
    (hmax : ∀ run ∈ s.runs.values, Credited subjects i raidId run →
      date ms ≤ dateOf run.createdAt + tierSearchSpacing →
      dateOf run.createdAt ≤ dateOf shown.createdAt) :
    SearchesAlike s subjects i subject raidId ms ↔
      ∃ entry, ownSearch s subject raidId ms = some entry ∧
        dateOf entry.2.createdAt = dateOf shown.createdAt := by
  have hspec := ownSearch_spec s subject raidId ms
  constructor
  · intro halike
    obtain ⟨own, hown, hsearch, hle⟩ := halike.merged shown hshown hcredited hcooling
    cases hnewest : ownSearch s subject raidId ms with
    | none =>
      rw [hnewest] at hspec
      exact absurd (le_of_lt (hcooling.of_le hle)) (hspec own hown hsearch)
    | some entry =>
      rw [hnewest] at hspec
      obtain ⟨hmem, hentry, hwindow, hnewestMax⟩ := hspec
      have hownLe := hnewestMax own hown hsearch (le_of_lt (hcooling.of_le hle))
      obtain ⟨other, hother, hotherCredited, hotherLe⟩ := halike.credited entry.2 hmem hentry
        (hcooling.of_le (le_trans hle hownLe))
      have hotherMax := hmax other hother hotherCredited
        (le_of_lt (hcooling.of_le (le_trans hle (le_trans hownLe hotherLe))))
      exact ⟨entry, rfl, le_antisymm (le_trans hotherLe hotherMax) (le_trans hle hownLe)⟩
  · rintro ⟨entry, hnewest, hdate⟩
    rw [hnewest] at hspec
    obtain ⟨hmem, hentry, -, hnewestMax⟩ := hspec
    constructor
    · intro run hrun hsearch hend
      exact ⟨entry.2, hmem, hentry, hcooling.of_le (le_of_eq hdate.symm)⟩
    · intro run hrun hrunCredited hrunCooling
      refine ⟨entry.2, hmem, hentry, ?_⟩
      rw [hdate]
      exact hmax run hrun hrunCredited (le_of_lt hrunCooling)
    · intro run hrun hsearch hrunCooling
      refine ⟨shown, hshown, hcredited, ?_⟩
      rw [← hdate]
      exact hnewestMax run hrun hsearch (le_of_lt hrunCooling)

/-- A character is to search, rather than without evidence, where a press finds evidence. -/
theorem idleState_eq (hsubject : subjects[i]? = some subject) :
    idleState (some ((withCompletedEvidence s
        (subjects.map (fun subject => subject.key.toCharacterKey))).map
          (canonicalCharacterId lower))) subject =
      if hasCompletedEvidence s subject.key.toCharacterKey then .notSearched
      else .noEvidence := by
  have hmem : subject.key.id ∈ (withCompletedEvidence s
        (subjects.map (fun subject => subject.key.toCharacterKey))).map
          (canonicalCharacterId lower) ↔
      hasCompletedEvidence s subject.key.toCharacterKey = true := by
    unfold withCompletedEvidence
    rw [mem_map]
    constructor
    · rintro ⟨key, hkey, hid⟩
      obtain ⟨hkey, hevidence⟩ := mem_filter.mp hkey
      obtain ⟨other, -, rfl⟩ := mem_map.mp hkey
      obtain heq := (LookupKey.id_eq_iff other.key subject.key).mp hid
      rw [← heq]
      exact hevidence
    · intro hevidence
      exact ⟨subject.key.toCharacterKey, mem_filter.mpr
        ⟨mem_map_of_mem (mem_of_getElem? hsubject), hevidence⟩, rfl⟩
  unfold idleState
  simp only [hmem]

theorem Credited.ended (hcredited : Credited subjects i raidId run) (hrun : run ∈ s.runs.values)
    (hsubject : subjects[i]? = some subject)
    (hidle : ∀ name ∈ subject.names, s.hasActive name.toCharacterKey = false) :
    run.status.isActive = false := by
  obtain ⟨⟨other, hother, hnamed⟩, -⟩ := hcredited.1
  obtain rfl := Option.some.inj (hsubject.symm.trans hother)
  obtain ⟨name, hname, hkey⟩ := mem_map.mp hnamed
  have hnot := any_eq_false.mp (hidle name hname) run hrun
  simpa [hkey, EvidenceRun.isActive] using hnot

variable {character : DossierTierSearchCharacter lower}

theorem agrees_iff_of_idle {view : Option (DossierTierSearch lower)}
    {own : Option (ℕ × EvidenceRun)} {evidence : Bool} {id : ℕ}
    (hview : ∀ tier, view = some tier → tier.characters[i]? = some character)
    (hstate : character.state = if evidence then .notSearched else .noEvidence) :
    Agrees view i (match own with
      | some run => .ok (.recent run)
      | none => if evidence then .ok (.reserved id) else .ok .noEvidence) ↔ own = none := by
  cases own with
  | none =>
    refine iff_of_true ?_ rfl
    cases view with
    | none => cases evidence <;> exact fun run h => by cases h
    | some tier =>
      refine ⟨character, hview tier rfl, ?_⟩
      rw [hstate]
      cases evidence <;> simp
  | some run =>
    refine iff_of_false ?_ (by simp)
    cases view with
    | none => exact fun h => h run rfl
    | some tier =>
      rintro ⟨other, hother, hreserved, hnone, -⟩
      obtain rfl := Option.some.inj ((hview tier rfl).symm.trans hother)
      rw [hstate] at hreserved hnone
      cases evidence
      · exact absurd (hnone.mp rfl) (by simp)
      · obtain ⟨id', hid'⟩ := hreserved.mp rfl
        cases hid'

theorem agrees_iff_of_shown {tier : DossierTierSearch lower} {own : Option (ℕ × EvidenceRun)}
    {evidence : Bool} {id : ℕ} {createdAt : Instant} (hview : tier.characters[i]? = some character)
    (hstate : isIdle character.state = false)
    (hagain : character.searchableAgainAt = some (createdAt + tierSearchSpacing)) :
    Agrees (some tier) i (match own with
      | some run => .ok (.recent run)
      | none => if evidence then .ok (.reserved id) else .ok .noEvidence) ↔
      ∃ entry, own = some entry ∧ dateOf entry.2.createdAt = createdAt := by
  obtain ⟨hsearched, hevidence⟩ : character.state ≠ .notSearched ∧
      character.state ≠ .noEvidence := by
    unfold isIdle at hstate
    rw [Bool.or_eq_false_iff, decide_eq_false_iff_not, decide_eq_false_iff_not] at hstate
    exact hstate
  constructor
  · rintro ⟨other, hother, -, -, hrecent⟩
    obtain rfl := Option.some.inj (hview.symm.trans hother)
    obtain ⟨run, hrun, hsame⟩ := hrecent hsearched hevidence
    rw [hagain] at hsame
    have hdate : dateOf run.2.createdAt = createdAt :=
      (Nat.add_right_cancel (Option.some.inj hsame)).symm
    cases own with
    | none => cases evidence <;> cases hrun
    | some entry =>
      cases hrun
      exact ⟨_, rfl, hdate⟩
  · rintro ⟨entry, rfl, hdate⟩
    refine ⟨character, hview, ?_, ?_, fun _ _ => ⟨entry, rfl, ?_⟩⟩
    · exact iff_of_false hsearched (fun h => by obtain ⟨id', hid'⟩ := h; cases hid')
    · exact iff_of_false hevidence (by simp)
    · rw [hagain, hdate]

/-- The view and a press agree for a character exactly when its searches speak alike. -/
theorem search_view_agrees_iff (collation : String → String → Ordering) (s : Store)
    (subjects : List (TierSearchSubject lower)) (i : ℕ) (subject : TierSearchSubject lower)
    (raidId : String) (ms : ℕ) (phasePlan : List String) (id : ℕ)
    (hraid : raidId ≠ "") (hid : s.runs.has id = false) (hsubject : subjects[i]? = some subject)
    (hidle : ∀ name ∈ subject.names, s.hasActive name.toCharacterKey = false) :
    Agrees ((dossierTierSearches collation s subjects (date ms)).get? raidId) i
        (pressTierSearch s subject.key.toCharacterKey raidId (date ms) phasePlan id) ↔
      SearchesAlike s subjects i subject raidId ms := by
  rw [pressTierSearch_eq phasePlan hraid hid (hidle subject.key mem_cons_self)]
  have hview := tierSearchStates_spec (date ms)
    (some ((withCompletedEvidence s
      (subjects.map (fun subject => subject.key.toCharacterKey))).map
        (canonicalCharacterId lower)))
    (latestTierSearches collation s
      ((subjects.flatMap TierSearchSubject.names).map LookupKey.toCharacterKey)
      (date ms - tierSearchSpacing)) raidId hsubject
  have hspec := shownSearch_spec collation s subjects i raidId ms
  have hstate := idleState_eq (s := s) hsubject
  change match (dossierTierSearches collation s subjects (date ms)).get? raidId with
    | none => isIdle (shownCharacter _ _ _ (shownSearch collation s subjects i raidId ms)).state =
        true
    | some tier => tier.characters[i]? =
        some (shownCharacter _ _ _ (shownSearch collation s subjects i raidId ms)) at hview
  -- with no search to show the two agree when a press finds none of its own
  have hidleView : ∀ character,
      shownCharacter (date ms) (some ((withCompletedEvidence s
        (subjects.map (fun subject => subject.key.toCharacterKey))).map
          (canonicalCharacterId lower))) subject
        (shownSearch collation s subjects i raidId ms) = character →
      ∀ tier, (dossierTierSearches collation s subjects (date ms)).get? raidId = some tier →
        tier.characters[i]? = some character := by
    intro character hcharacter tier htier
    rw [htier] at hview
    rw [← hcharacter]
    exact hview
  cases hshown : shownSearch collation s subjects i raidId ms with
  | none =>
    rw [hshown] at hspec hidleView
    rw [searchesAlike_iff_of_none (fun run hrun hcredited hcooling =>
      hspec run hrun hcredited (le_of_lt hcooling))]
    exact agrees_iff_of_idle (hidleView _ rfl) hstate
  | some search =>
    rw [hshown] at hspec hidleView hview
    obtain ⟨⟨run, hrun, hcredited, hstatus, hcreated⟩, hmax⟩ := hspec
    have hended : search.status.isActive = false := by
      rw [hstatus]
      exact hcredited.ended hrun hsubject hidle
    by_cases hle : search.createdAt + tierSearchSpacing ≤ date ms
    · have hnone : ∀ other ∈ s.runs.values, Credited subjects i raidId other →
          ¬ Cooling ms other := by
        intro other hother hotherCredited hcooling
        have hother := hmax other hother hotherCredited (le_of_lt hcooling)
        exact absurd hle (not_le.mpr (lt_of_lt_of_le hcooling (Nat.add_le_add_right hother _)))
      rw [searchesAlike_iff_of_none hnone]
      exact agrees_iff_of_idle
        (hidleView _ ((shownCharacter_ended hended).1 hle)) hstate
    · have hlt := not_le.mp hle
      obtain ⟨hshownState, hagain⟩ := (shownCharacter_ended hended).2 hlt
      rw [hcreated] at hmax hlt
      rw [searchesAlike_iff_of_some hrun hcredited hlt hmax]
      cases hget : (dossierTierSearches collation s subjects (date ms)).get? raidId with
      | none =>
        rw [hget] at hview
        rw [hshownState] at hview
        cases hview
      | some tier =>
        exact agrees_iff_of_shown (hidleView _ rfl tier hget) hshownState (hcreated ▸ hagain)

/-! ### A search at the end of its spacing, and one under another name -/

def shownName : LookupKey (fun text => text) := ⟨⟨.eu, "draenor", "ryii"⟩, rfl⟩

def mergedName : LookupKey (fun text => text) := ⟨⟨.eu, "draenor", "ryal"⟩, rfl⟩

def mergedSubject : TierSearchSubject (fun text => text) := ⟨shownName, "Ryii", [mergedName]⟩

/-- A character with evidence whose tier was searched under one of its names at the epoch. -/
def searchedStore (name : LookupKey (fun text => text)) : Store :=
  { Store.empty with
    runs := OrderedMap.ofList
      [(1, { Store.queuedRun 0 shownName.toCharacterKey .full with status := .complete }),
       (2, { Store.queuedRun 0 name.toCharacterKey (.tierSearch "1180") with
         status := .complete })] }

theorem search_view_agrees_iff_at_end :
    Agrees ((dossierTierSearches text (searchedStore shownName) [mergedSubject]
        (date 86400000)).get? "1180") 0
      (pressTierSearch (searchedStore shownName) shownName.toCharacterKey "1180"
        (date 86400000) ["history"] 3) ↔
      SearchesAlike (searchedStore shownName) [mergedSubject] 0 mergedSubject "1180" 86400000 :=
  search_view_agrees_iff text (searchedStore shownName) [mergedSubject] 0 mergedSubject "1180"
    86400000 ["history"] 3 (by decide) (by decide +kernel) rfl (by decide +kernel)

/-- As its spacing ends the search is hidden while a press is still refused; and one made under
a merged name is shown while a press reserves another. -/
theorem search_view_disagrees :
    (∀ name ∈ mergedSubject.names,
        (searchedStore shownName).hasActive name.toCharacterKey = false) ∧
      ¬ Agrees ((dossierTierSearches text (searchedStore shownName) [mergedSubject]
          (date 86400000)).get? "1180") 0
        (pressTierSearch (searchedStore shownName) shownName.toCharacterKey "1180"
          (date 86400000) ["history"] 3) ∧
      (∀ name ∈ mergedSubject.names,
        (searchedStore mergedName).hasActive name.toCharacterKey = false) ∧
      ¬ Agrees ((dossierTierSearches text (searchedStore mergedName) [mergedSubject]
          (date 3600000)).get? "1180") 0
        (pressTierSearch (searchedStore mergedName) shownName.toCharacterKey "1180"
          (date 3600000) ["history"] 3) := by
  refine ⟨by decide +kernel, ?_, by decide +kernel, ?_⟩
  · have hview : ((dossierTierSearches text (searchedStore shownName) [mergedSubject]
        (date 86400000)).get? "1180").isNone = true := by decide +kernel
    have hanswer : pressTierSearch (searchedStore shownName) shownName.toCharacterKey "1180"
        (date 86400000) ["history"] 3 = .ok (.recent (2, { Store.queuedRun 0
          shownName.toCharacterKey (.tierSearch "1180") with status := .complete })) := by
      rfl
    rw [Option.isNone_iff_eq_none.mp hview, hanswer]
    exact fun h => h _ rfl
  · have hview : (((dossierTierSearches text (searchedStore mergedName) [mergedSubject]
        (date 3600000)).get? "1180").bind (fun tier => tier.characters[0]?)).any
          (fun character => character.state = .completed) = true := by decide +kernel
    have hanswer : pressTierSearch (searchedStore mergedName) shownName.toCharacterKey "1180"
        (date 3600000) ["history"] 3 = .ok (.reserved 3) := by
      rfl
    rw [hanswer]
    cases htier : (dossierTierSearches text (searchedStore mergedName) [mergedSubject]
        (date 3600000)).get? "1180" with
    | none =>
      rw [htier] at hview
      cases hview
    | some tier =>
      rw [htier] at hview
      rintro ⟨character, hcharacter, hreserved, -⟩
      rw [Option.bind_some, hcharacter, Option.any_some, decide_eq_true_eq] at hview
      have hstate := hreserved.mpr ⟨3, rfl⟩
      rw [hview] at hstate
      cases hstate

end SlashWho.TierSearchAgreement
