import SlashWho.EvidenceStore

/-!
What a character's publishes keep, over any sequence of them. A partial run or
a search carries every fight held outside the zones known not to be raids, a
complete run those a search confirmed and those of the raids it is finished
with; no publish drops a tier best. A time is stamped anew only on what the run
itself came back with; everything else keeps the latest time it was stored with.
-/

namespace SlashWho.EvidencePublishes

open List EvidenceMerge EvidenceStore

/-- One publish: its run, the raids terminal for kills when it publishes, and
what the run came back with. -/
structure Publication where
  id : ℕ
  tierSearchRaidId : Option String
  terminalKillRaidIds : Finset String
  input : EvidencePublishInput

def Publication.targeted (p : Publication) : Bool := p.tierSearchRaidId.isSome

/-- The publish carries everything held, or is a complete ordinary one. -/
def Publication.CarriesAll (p : Publication) : Prop :=
  p.input.state = .partial_ ∨ p.targeted = true

variable (isNonRaidZone : String → Bool) (lookupRaid : MythicKill → Option String)

def storedFor (runs : List PublishedRun) (p : Publication) : StoredEvidenceForMerge :=
  storedEvidenceForMerge isNonRaidZone lookupRaid p.terminalKillRaidIds runs p.input.state
    p.targeted

def mergedFor (runs : List PublishedRun) (p : Publication) : MergedEvidence :=
  mergePublishedEvidence (storedFor isNonRaidZone lookupRaid runs p) p.input p.targeted

def publishNext (runs : List PublishedRun) (p : Publication) : List PublishedRun :=
  publish isNonRaidZone lookupRaid p.terminalKillRaidIds runs p.id p.tierSearchRaidId p.input

def publishAll (publications : List Publication) : List PublishedRun :=
  publications.foldl (publishNext isNonRaidZone lookupRaid) []

/-! What is held before a publish. -/

/-- The kills held, whatever their zone: the newest copy of each fight. -/
def heldKills (runs : List PublishedRun) : List MythicKill :=
  (newestCopies MythicKill.fightUrl
    ((positiveWindow (newestFirst runs)).flatMap PublishedRun.storedKills)).values

def heldWipes (runs : List PublishedRun) : List MythicWipe :=
  (newestCopies MythicWipe.fightUrl
    ((positiveWindow (newestFirst runs)).flatMap PublishedRun.wipes)).values

def StoredRow (runs : List PublishedRun) (url : String) (row : MergedKill) : Prop :=
  (∃ run ∈ runs, row ∈ run.kills) ∧ row.fightUrl = url

variable {runs : List PublishedRun}

theorem mem_newestFirst {run : PublishedRun} :
    run ∈ newestFirst runs ↔ run ∈ runs := by
  unfold newestFirst
  rw [mem_insertionSort]

theorem mem_storedRows_iff {row : MergedKill} :
    row ∈ (newestFirst runs).flatMap PublishedRun.kills ↔ ∃ run ∈ runs, row ∈ run.kills := by
  simp only [mem_flatMap, mem_newestFirst]

theorem mem_of_mem_newestCopies {α : Type*} {url : α → String} {rows : List α} {row : α}
    (h : row ∈ (newestCopies url rows).values) : row ∈ rows :=
  mem_of_find?_eq_some ((mem_newestCopies_values_iff url rows row).mp h)

theorem exists_row_of_held {kill : MythicKill} (h : kill ∈ heldKills runs) :
    ∃ row, StoredRow runs kill.fightUrl row ∧ storedKill row = kill := by
  have hmem := mem_of_mem_newestCopies h
  obtain ⟨run, hrun, hkill⟩ := mem_flatMap.mp hmem
  obtain ⟨row, hrow, rfl⟩ := mem_map.mp hkill
  have hin := mem_newestFirst.mp ((positiveWindow_isInitial _).subset hrun)
  exact ⟨row, ⟨⟨run, hin, hrow⟩, rfl⟩, rfl⟩

/-- What is held of a fight is its newest row, read back. -/
theorem newestRow_of_held {kill : MythicKill} (h : kill ∈ heldKills runs) :
    ∃ row, (newestRows runs).get? kill.fightUrl = some row ∧ storedKill row = kill := by
  have hfind := (mem_newestCopies_values_iff _ _ _).mp h
  obtain ⟨rest, hwindow⟩ := positiveWindow_isInitial (newestFirst runs)
  unfold PublishedRun.storedKills at hfind
  rw [← map_flatMap, find?_map] at hfind
  obtain ⟨row, hrow, hback⟩ := Option.map_eq_some_iff.mp hfind
  refine ⟨row, ?_, hback⟩
  unfold newestRows
  rw [newestCopies_get?, ← hwindow, flatMap_append, find?_append]
  exact congrArg (Option.or · _) hrow

theorem exists_row_of_searched {lookupRaid : MythicKill → Option String} {kill : MythicKill}
    (h : kill ∈ loadLatestTierSearchKills lookupRaid runs) :
    ∃ row, StoredRow runs kill.fightUrl row ∧ storedKill row = kill := by
  obtain ⟨⟨raid, run⟩, hsearch, hkill⟩ := mem_flatMap.mp h
  obtain ⟨row, hrow, rfl⟩ := mem_map.mp (mem_filter.mp hkill).1
  have hlatest := OrderedMap.mem_of_mem_entries_ofList hsearch
  obtain ⟨other, hother, heq⟩ := mem_filterMap.mp (mem_reverse.mp hlatest)
  obtain ⟨raid', -, hpair⟩ := Option.map_eq_some_iff.mp heq
  obtain ⟨-, rfl⟩ := Prod.mk.inj hpair
  exact ⟨row, ⟨⟨other, mem_newestFirst.mp hother, hrow⟩, rfl⟩, rfl⟩

/-! Times. -/

structure IsLatest (runs : List PublishedRun) (url : String) (time : MergedKill → Option Instant)
    (latest : Instant) : Prop where
  stored : ∃ row, StoredRow runs url row ∧ time row = some latest
  latest : ∀ row t, StoredRow runs url row → time row = some t → t ≤ latest

def latestTime (runs : List PublishedRun) (time : MergedKill → Option Instant) (url : String) :
    Option Instant :=
  (((newestFirst runs).flatMap PublishedRun.kills).filterMap (fun row =>
    if row.kill.fightUrl = url then time row else none)).max?

variable {time : MergedKill → Option Instant} {url : String}

theorem mem_times_iff {t : Instant} :
    t ∈ ((newestFirst runs).flatMap PublishedRun.kills).filterMap (fun row =>
        if row.kill.fightUrl = url then time row else none) ↔
      ∃ row, StoredRow runs url row ∧ time row = some t := by
  rw [mem_filterMap]
  constructor
  · rintro ⟨row, hrow, htime⟩
    split at htime
    · next hurl => exact ⟨row, ⟨mem_storedRows_iff.mp hrow, hurl⟩, htime⟩
    · cases htime
  · rintro ⟨row, ⟨hrow, hurl⟩, htime⟩
    exact ⟨row, mem_storedRows_iff.mpr hrow, (if_pos hurl).trans htime⟩

theorem isLatest_iff {t : Instant} :
    IsLatest runs url time t ↔ latestTime runs time url = some t := by
  unfold latestTime
  rw [max?_eq_some_iff]
  constructor
  · rintro ⟨hstored, hlatest⟩
    refine ⟨mem_times_iff.mpr hstored, fun b hb => ?_⟩
    obtain ⟨row, hrow, htime⟩ := mem_times_iff.mp hb
    exact hlatest row b hrow htime
  · rintro ⟨hmem, hle⟩
    refine ⟨mem_times_iff.mp hmem, fun row b hrow htime => ?_⟩
    exact hle b (mem_times_iff.mpr ⟨row, hrow, htime⟩)

theorem mem_newestRows_keys :
    url ∈ (newestRows runs).keys ↔ ∃ row, StoredRow runs url row := by
  unfold newestRows newestCopies
  rw [OrderedMap.mem_keys_ofList]
  simp only [map_map, map_reverse, mem_reverse, mem_map, Function.comp_apply]
  constructor
  · rintro ⟨row, hrow, hurl⟩
    exact ⟨row, mem_storedRows_iff.mp hrow, hurl⟩
  · rintro ⟨row, hrow, hurl⟩
    exact ⟨row, mem_storedRows_iff.mpr hrow, hurl⟩

theorem latestTime_eq_none (h : ¬ ∃ row, StoredRow runs url row) :
    latestTime runs time url = none := by
  cases htime : latestTime runs time url with
  | none => rfl
  | some t =>
    obtain ⟨⟨row, hrow, -⟩, -⟩ := isLatest_iff.mpr htime
    exact absurd ⟨row, hrow⟩ h

theorem get?_latestTimes (runs : List PublishedRun) (time : MergedKill → Option Instant)
    (url : String) :
    (OrderedMap.ofList ((newestRows runs).keys.filterMap (fun url =>
      (latestTime runs time url).map (fun latest => (url, latest))))).get? url =
      latestTime runs time url := by
  rw [OrderedMap.get?_ofList_filterMap]
  split
  · rfl
  · next hnone => exact (latestTime_eq_none (fun h => hnone (mem_newestRows_keys.mpr h))).symm

theorem storedCollectedAt_get? (runs : List PublishedRun) (url : String) :
    (loadStoredCollectedAt runs).get? url =
      latestTime runs (fun row => some row.collectedAt) url :=
  get?_latestTimes runs (fun row => some row.collectedAt) url

theorem storedParsesReadAt_get? (runs : List PublishedRun) (url : String) :
    (loadStoredParsesReadAt runs).get? url = latestTime runs MergedKill.parsesReadAt url :=
  get?_latestTimes runs MergedKill.parsesReadAt url

/-! One publish. -/

variable (runs : List PublishedRun) (p : Publication)

/-- The kills and wipes held outside the zones known not to be raids. -/
def raidKills : List MythicKill :=
  (heldKills runs).filter (fun kill => !isNonRaidZone kill.raidName)

def raidWipes : List MythicWipe :=
  (heldWipes runs).filter (fun wipe => !isNonRaidZone wipe.raidName)

theorem positive_kills : (storedFor isNonRaidZone lookupRaid runs p).positive.kills =
    raidKills isNonRaidZone runs := rfl

theorem filedBy_newestCopies {α : Type*} (url : α → String) (rows : List α) :
    (newestCopies url rows).FiledBy url := OrderedMap.filedBy_ofList url _

theorem nodup_raidKills : ((raidKills isNonRaidZone runs).map MythicKill.fightUrl).Nodup := by
  have hnodup := (filedBy_newestCopies MythicKill.fightUrl
    ((positiveWindow (newestFirst runs)).flatMap PublishedRun.storedKills)).nodup_values
  exact hnodup.sublist (filter_sublist.map _)

variable {isNonRaidZone lookupRaid runs p}

variable {row : MergedKill}

theorem row_of_carried (hrow : row ∈ (mergedFor isNonRaidZone lookupRaid runs p).kills)
    (hurl : row.fightUrl ∉ incomingFightUrls p.input) :
    ∃ kill, copyToCarry (storedFor isNonRaidZone lookupRaid runs p) p.input p.targeted
        row.fightUrl = some kill ∧
      row = publishKill (storedFor isNonRaidZone lookupRaid runs p) p.input p.targeted
        ⟨kill, kill.performance⟩ := by
  obtain ⟨entry, hentry, hrowEq⟩ := (mem_published_kills_iff _ _ _ row).mp hrow
  rw [mergedKillEntries_get?_of_not_incoming _ _ _ hurl, carriedEntries_get?] at hentry
  obtain ⟨kill, hkill, rfl⟩ := Option.map_eq_some_iff.mp hentry
  exact ⟨kill, hkill, hrowEq⟩

theorem exists_row_of_url {url : String}
    (h : url ∈ (mergedFor isNonRaidZone lookupRaid runs p).kills.map MergedKill.fightUrl) :
    ∃ row ∈ (mergedFor isNonRaidZone lookupRaid runs p).kills, row.fightUrl = url := by
  obtain ⟨row, hrow, hurl⟩ := mem_map.mp h
  exact ⟨row, hrow, hurl⟩

theorem complete_of_not_carriesAll (h : ¬ p.CarriesAll) :
    p.input.state = .complete ∧ p.targeted = false := by
  unfold Publication.CarriesAll at h
  cases hstate : p.input.state <;> cases htargeted : p.targeted <;> simp_all

theorem previousKills_of_carriesAll (h : p.CarriesAll) :
    previousKills (storedFor isNonRaidZone lookupRaid runs p) p.input p.targeted =
      raidKills isNonRaidZone runs := if_pos h

theorem previousWipes_of_carriesAll (h : p.CarriesAll) :
    previousWipes (storedFor isNonRaidZone lookupRaid runs p) p.input p.targeted =
      raidWipes isNonRaidZone runs := if_pos h

theorem storedHistoricRanks_get? (url : String) :
    (loadStoredHistoricRanks runs).get? url = ((newestRows runs).get? url).map
      (fun row => ⟨row.historicWorldRank, row.historicRankCheckedAt⟩) :=
  OrderedMap.get?_ofList_entries (newestRows runs)
    (fun row => HistoricRank.mk row.historicWorldRank row.historicRankCheckedAt) url

/-- A held kill that is published as it stands is read back as it was held. -/
theorem storedKill_of_held {kill : MythicKill} (h : kill ∈ heldKills runs) :
    storedKill (publishKill (storedFor isNonRaidZone lookupRaid runs p) p.input p.targeted
      ⟨kill, kill.performance⟩) = kill := by
  obtain ⟨row, hrow, hback⟩ := newestRow_of_held h
  have hrank : (storedFor isNonRaidZone lookupRaid runs p).historicRankByFightUrl.get?
      kill.fightUrl = some ⟨row.historicWorldRank, row.historicRankCheckedAt⟩ := by
    refine (storedHistoricRanks_get? kill.fightUrl).trans ?_
    rw [hrow]
    rfl
  unfold storedKill publishKill
  rw [hrank, ← hback]
  simp only [storedKill, Option.bind_some, Option.or_self]

/-- A partial run and a search keep every kill held outside the zones known not
to be raids, as it was held unless they came back with it. -/
theorem carriesAll_keeps_kill (h : p.CarriesAll) {kill : MythicKill}
    (hkill : kill ∈ heldKills runs) (hzone : isNonRaidZone kill.raidName = false) :
    ∃ row ∈ (mergedFor isNonRaidZone lookupRaid runs p).kills,
      row.fightUrl = kill.fightUrl ∧
      (kill.fightUrl ∉ incomingFightUrls p.input → row.kill = kill ∧ storedKill row = kill) := by
  have hraid : kill ∈ raidKills isNonRaidZone runs :=
    mem_filter.mpr ⟨hkill, by simp [hzone]⟩
  have hmem := (mem_published_urls_iff (storedFor isNonRaidZone lookupRaid runs p) p.input
    p.targeted kill.fightUrl).mpr (by
      rw [previousKills_of_carriesAll h]
      exact .inl (mem_map_of_mem hraid))
  obtain ⟨row, hrow, hurl⟩ := exists_row_of_url hmem
  refine ⟨row, hrow, hurl, fun hnew => ?_⟩
  obtain ⟨copy, hcopy, hrowEq⟩ := row_of_carried hrow (hurl ▸ hnew)
  rw [← lastCopy_previousKills, previousKills_of_carriesAll h, hurl,
    lastCopy_of_nodup (nodup_raidKills isNonRaidZone runs) hraid] at hcopy
  obtain rfl := Option.some.inj hcopy
  rw [hrowEq]
  exact ⟨rfl, storedKill_of_held hkill⟩

theorem carriesAll_keeps_wipe (h : p.CarriesAll) {wipe : MythicWipe}
    (hwipe : wipe ∈ heldWipes runs) (hzone : isNonRaidZone wipe.raidName = false) :
    ∃ wipe' ∈ (mergedFor isNonRaidZone lookupRaid runs p).wipes,
      wipe'.fightUrl = wipe.fightUrl := by
  have hraid : wipe ∈ raidWipes isNonRaidZone runs :=
    mem_filter.mpr ⟨hwipe, by simp [hzone]⟩
  have hurl := (mem_published_wipe_urls_iff (storedFor isNonRaidZone lookupRaid runs p) p.input
    p.targeted wipe.fightUrl).mpr (by
      rw [previousWipes_of_carriesAll h, map_append, mem_append]
      exact .inl (mem_map_of_mem hraid))
  obtain ⟨wipe', hwipe', hurl'⟩ := mem_map.mp hurl
  exact ⟨wipe', hwipe', hurl'⟩

/-- The kills of a complete ordinary run are its own, the latest searches' and
those held in raids terminal for kills. -/
theorem complete_kill_urls (h : ¬ p.CarriesAll) (url : String) :
    url ∈ (mergedFor isNonRaidZone lookupRaid runs p).kills.map MergedKill.fightUrl ↔
      url ∈ incomingFightUrls p.input ∨
      (∃ kill ∈ loadLatestTierSearchKills lookupRaid runs, kill.fightUrl = url) ∨
      ∃ kill ∈ raidKills isNonRaidZone runs,
        kill.fightUrl = url ∧ kill.raidId ∈ p.terminalKillRaidIds := by
  obtain ⟨hstate, htargeted⟩ := complete_of_not_carriesAll h
  have hsearched : (storedFor isNonRaidZone lookupRaid runs p).tierSearchKills =
      loadLatestTierSearchKills lookupRaid runs := if_pos ⟨hstate, htargeted⟩
  have hprevious : previousKills (storedFor isNonRaidZone lookupRaid runs p) p.input
      p.targeted = _ := if_neg h
  rw [mergedFor, mem_published_urls_iff, hprevious,
    (OrderedMap.filedBy_ofList MythicKill.fightUrl _).map_values, OrderedMap.mem_keys_ofList,
    map_map, hsearched, positive_kills, or_comm]
  apply or_congr_right
  simp only [mem_map, mem_append, mem_filter, Function.comp_apply,
    decide_eq_true_eq]
  constructor
  · rintro ⟨kill, hsearch | ⟨hheld, hterminal⟩, hurl⟩
    · exact .inl ⟨kill, hsearch, hurl⟩
    · exact .inr ⟨kill, hheld, hurl, hterminal⟩
  · rintro (⟨kill, hsearch, hurl⟩ | ⟨kill, hheld, hurl, hterminal⟩)
    · exact ⟨kill, .inl hsearch, hurl⟩
    · exact ⟨kill, .inr ⟨hheld, hterminal⟩, hurl⟩

theorem complete_wipe_urls (h : ¬ p.CarriesAll) (url : String) :
    url ∈ (mergedFor isNonRaidZone lookupRaid runs p).wipes.map MythicWipe.fightUrl ↔
      url ∈ p.input.wipes.map MythicWipe.fightUrl ∨
      ∃ wipe ∈ raidWipes isNonRaidZone runs,
        wipe.fightUrl = url ∧ wipe.raidId ∈ p.terminalKillRaidIds := by
  have hprevious : previousWipes (storedFor isNonRaidZone lookupRaid runs p) p.input
      p.targeted = (raidWipes isNonRaidZone runs).filter
        (fun wipe => wipe.raidId ∈ p.terminalKillRaidIds) := if_neg h
  rw [mergedFor, mem_published_wipe_urls_iff, hprevious, map_append, mem_append,
    or_comm]
  apply or_congr_right
  simp only [mem_map, mem_filter, decide_eq_true_eq]
  constructor
  · rintro ⟨wipe, ⟨hheld, hterminal⟩, hurl⟩
    exact ⟨wipe, hheld, hurl, hterminal⟩
  · rintro ⟨wipe, hheld, hurl, hterminal⟩
    exact ⟨wipe, ⟨hheld, hterminal⟩, hurl⟩

/-! Tier bests. -/

def tierBestKey (best : StoredTierBest) : String × String :=
  (best.tierBest.raidId, best.tierBest.bossId)

variable (isNonRaidZone lookupRaid runs p) in
/-- The tier bests a publish writes, by raid and boss. -/
def mergedTierBests : OrderedMap (String × String) StoredTierBest :=
  p.input.tierBests.foldl (addIncomingTierBest p.input)
    (storedFor isNonRaidZone lookupRaid runs p).tierBests

theorem mergedFor_tierBests : (mergedFor isNonRaidZone lookupRaid runs p).tierBests =
    (mergedTierBests isNonRaidZone lookupRaid runs p).values := rfl

theorem storedTierBests_get? (key : String × String) :
    (loadStoredTierBestParses runs).get? key =
      ((newestFirst runs).flatMap PublishedRun.tierBests).find?
        (fun best => tierBestKey best = key) := by
  unfold loadStoredTierBestParses
  have h := OrderedMap.get?_ofList_map tierBestKey
    ((newestFirst runs).flatMap PublishedRun.tierBests).reverse key
  rw [reverse_reverse] at h
  exact h

/-- A tier best the run came back with, over the one held so far. -/
def tierBestOver (input : EvidencePublishInput) (held : Option StoredTierBest)
    (best : TierBestParse) : StoredTierBest where
  tierBest := best
  performance :=
    match held with
    | none => best.performance
    | some previous => mergePerformanceValues previous.performance best.performance
  collectedAt := input.completedAt

variable (isNonRaidZone lookupRaid runs p) in
theorem mergedTierBests_get? (key : String × String) :
    (mergedTierBests isNonRaidZone lookupRaid runs p).get? key =
      (p.input.tierBests.filter (fun best => (best.raidId, best.bossId) = key)).foldl
        (fun held best => some (tierBestOver p.input held best))
        ((loadStoredTierBestParses runs).get? key) :=
  OrderedMap.get?_foldl_set (fun best : TierBestParse => (best.raidId, best.bossId))
    (tierBestOver p.input) p.input.tierBests (loadStoredTierBestParses runs) key

theorem filedBy_mergedTierBests :
    (mergedTierBests isNonRaidZone lookupRaid runs p).FiledBy tierBestKey := by
  have hfold : ∀ (bests : List TierBestParse)
      (m : OrderedMap (String × String) StoredTierBest), m.FiledBy tierBestKey →
      (bests.foldl (addIncomingTierBest p.input) m).FiledBy tierBestKey := by
    intro bests
    induction bests with
    | nil => exact fun _ h => h
    | cons best rest ih => exact fun m h => ih _ (h.set rfl)
  exact hfold _ _ (OrderedMap.filedBy_ofList tierBestKey _)

theorem keeps_tierBest {run : PublishedRun} (hrun : run ∈ runs) {best : StoredTierBest}
    (hbest : best ∈ run.tierBests) :
    ∃ best' ∈ (mergedFor isNonRaidZone lookupRaid runs p).tierBests,
      tierBestKey best' = tierBestKey best := by
  have hstored : ∃ held, (loadStoredTierBestParses runs).get? (tierBestKey best) = some held := by
    rw [storedTierBests_get?]
    refine Option.isSome_iff_exists.mp (find?_isSome.mpr ⟨best, ?_, by simp⟩)
    exact mem_flatMap.mpr ⟨run, mem_newestFirst.mpr hrun, hbest⟩
  have hsome : ∀ (bests : List TierBestParse) (held : Option StoredTierBest),
      held.isSome = true →
      (bests.foldl (fun held best => some (tierBestOver p.input held best)) held).isSome =
        true := by
    intro bests
    induction bests with
    | nil => exact fun _ h => h
    | cons first rest ih => exact fun _ _ => ih _ rfl
  obtain ⟨held, hheld⟩ := hstored
  have hmerged := hsome (p.input.tierBests.filter
    (fun tier => (tier.raidId, tier.bossId) = tierBestKey best)) (some held) rfl
  have hget := mergedTierBests_get? isNonRaidZone lookupRaid runs p (tierBestKey best)
  rw [hheld] at hget
  obtain ⟨best', hbest'⟩ := Option.isSome_iff_exists.mp (hget ▸ hmerged)
  refine ⟨best', ?_, filedBy_mergedTierBests _ _ hbest'⟩
  rw [mergedFor_tierBests, OrderedMap.mem_values_iff]
  exact ⟨_, hbest'⟩

/-- No tier best of its raid and boss is stored by a newer publication. -/
def NewestTierBest (runs : List PublishedRun) (best : StoredTierBest) : Prop :=
  ((newestFirst runs).flatMap PublishedRun.tierBests).find?
    (fun other => tierBestKey other = tierBestKey best) = some best

/-- A zone the run did not return keeps its stored tier best, time and all. -/
theorem tierBest_of_unread {best : StoredTierBest}
    (hbest : best ∈ (mergedFor isNonRaidZone lookupRaid runs p).tierBests)
    (hunread : ∀ tier ∈ p.input.tierBests, (tier.raidId, tier.bossId) ≠ tierBestKey best) :
    NewestTierBest runs best := by
  rw [mergedFor_tierBests] at hbest
  have hget := filedBy_mergedTierBests.get?_of_mem hbest
  have hnone : p.input.tierBests.filter
      (fun tier => (tier.raidId, tier.bossId) = tierBestKey best) = [] :=
    filter_eq_nil_iff.mpr fun tier htier => by simpa using hunread tier htier
  rw [mergedTierBests_get?, hnone, foldl_nil, storedTierBests_get?] at hget
  exact hget

/-! Times. -/

theorem copyToCarry_stored {url : String} {kill : MythicKill}
    (h : copyToCarry (storedFor isNonRaidZone lookupRaid runs p) p.input p.targeted url =
      some kill) : ∃ row, StoredRow runs url row ∧ storedKill row = kill := by
  have hurl : kill.fightUrl = url := by
    rw [← lastCopy_previousKills] at h
    exact lastCopy_fightUrl h
  subst hurl
  unfold copyToCarry at h
  have hraid : ∀ {kill : MythicKill}, kill ∈ raidKills isNonRaidZone runs →
      ∃ row, StoredRow runs kill.fightUrl row ∧ storedKill row = kill :=
    fun hkill => exists_row_of_held (mem_filter.mp hkill).1
  have hmem : ∀ {kills : List MythicKill} {copy : MythicKill} {url : String},
      lastCopy kills url = some copy → copy ∈ kills :=
    fun hcopy => mem_reverse.mp (mem_of_find?_eq_some hcopy)
  split at h
  · exact hraid (hmem h)
  · rcases Option.or_eq_some_iff.mp h with hterminal | ⟨-, hsearched⟩
    · exact hraid (mem_filter.mp (hmem hterminal)).1
    · have hin := hmem hsearched
      unfold storedFor storedEvidenceForMerge at hin
      dsimp only at hin
      split at hin
      · exact exists_row_of_searched hin
      · cases hin

/-- A fight the run did not come back with is a stored row's, parses and all. -/
theorem stored_of_carried (hrow : row ∈ (mergedFor isNonRaidZone lookupRaid runs p).kills)
    (hurl : row.fightUrl ∉ incomingFightUrls p.input) :
    ∃ stored, StoredRow runs row.fightUrl stored ∧ row.kill = storedKill stored ∧
      row.performance = stored.performance := by
  obtain ⟨kill, hcopy, hrowEq⟩ := row_of_carried hrow hurl
  obtain ⟨stored, hstored, rfl⟩ := copyToCarry_stored hcopy
  refine ⟨stored, hstored, ?_⟩
  rw [hrowEq]
  exact ⟨rfl, rfl⟩

/-- Only a fight the run came back with is stamped as collected anew. -/
theorem collectedAt_of_carried (hrow : row ∈ (mergedFor isNonRaidZone lookupRaid runs p).kills)
    (hurl : row.fightUrl ∉ incomingFightUrls p.input) :
    IsLatest runs row.fightUrl (fun row => some row.collectedAt) row.collectedAt := by
  obtain ⟨kill, -, hrowEq⟩ := row_of_carried hrow hurl
  obtain ⟨stored, hstored, -⟩ := stored_of_carried hrow hurl
  have hcollected : row.collectedAt = ((loadStoredCollectedAt runs).get? row.fightUrl).getD
      p.input.completedAt := by
    have hsame : row.fightUrl = kill.fightUrl := by rw [hrowEq]; rfl
    rw [hsame] at hurl ⊢
    rw [hrowEq]
    exact if_neg hurl
  rw [storedCollectedAt_get?] at hcollected
  obtain ⟨latest, hlatest⟩ : ∃ latest,
      latestTime runs (fun row => some row.collectedAt) row.fightUrl = some latest := by
    refine Option.isSome_iff_exists.mp ?_
    unfold latestTime
    rw [isSome_max?_iff]
    exact ne_nil_of_mem (mem_times_iff.mpr ⟨stored, hstored, rfl⟩)
  rw [hlatest] at hcollected
  rw [hcollected]
  exact isLatest_iff.mpr hlatest

/-- Only a fight the run answered, and published if it is a search, is stamped
as read anew. -/
theorem parsesReadAt_of_unanswered (hrow : row ∈ (mergedFor isNonRaidZone lookupRaid runs p).kills)
    (hurl : row.fightUrl ∉ parsedFightUrls p.input p.targeted) (t : Instant) :
    row.parsesReadAt = some t ↔ IsLatest runs row.fightUrl MergedKill.parsesReadAt t := by
  obtain ⟨entry, hentry, hrowEq⟩ := (mem_published_kills_iff _ _ _ row).mp hrow
  have hread : row.parsesReadAt = (loadStoredParsesReadAt runs).get? row.fightUrl := by
    have hsame : row.fightUrl = entry.kill.fightUrl := by rw [hrowEq]; rfl
    rw [hsame] at hurl ⊢
    rw [hrowEq]
    exact if_neg hurl
  rw [hread, storedParsesReadAt_get?, isLatest_iff]

end SlashWho.EvidencePublishes
