import SlashWho.CatalogueLookups
import SlashWho.EvidenceRuns
import SlashWho.RepublishedEvidence
import SlashWho.StagedCollections

/-!
Whether a read that found a character's evidence stale may queue a light run,
one page of reports, and what the publish of that run keeps. The decision reads
the raids held and the raids terminal for kills; the merge reads the terminal
raids again to say which stored rows a complete publish carries. A row of a raid
both call terminal is carried by either state of publish.
-/

namespace SlashWho.SettledCollections

open List EvidenceMerge EvidencePublishes EvidenceRuns EvidenceStore KillScanFloor
open RaidCatalogue RepublishedEvidence
open Characters (CharacterKey)
open StagedCollections (HistoricAliasScanProgress)

def raiderIoRecoveryRecheckMs : ℕ := 7 * 24 * 60 * 60 * 1000

structure EvidenceSettlementKill where
  raidId : String
  killedAt : Instant
  fightUrl : String

/-- What is held, the kills and wipes each by their raid. -/
structure StoredTiers where
  kills : List String
  wipes : List String
  lastCleanKillScanAt : Option Instant
  historyScanResumePage : Option ℕ
  historicAliasProgress : Option (List HistoricAliasScanProgress)

structure EvidenceSchedulingReads where
  storedEvidenceTiers : StoredTiers
  terminalTiers : List TerminalTier
  lastRaiderIoRecoveryAt : Option Instant
  hydratedFightUrls : Instant → List String
  collectedTierZones : List (String × Instant)

def isTerminal (terminal : List TerminalTier) (domain : TerminalDomain) (raidId : String) : Bool :=
  terminal.any (fun tier => tier.domain = domain && tier.raidId = raidId)

/-- Every tier the character holds kills in is finished in every domain. -/
def killTiersAreSettled (kills : List EvidenceSettlementKill) (terminal : List TerminalTier)
    (settledBefore : Instant) (evidence : EvidenceSchedulingReads) : Bool :=
  [TerminalDomain.kills, .parses, .tierBests].all (fun domain =>
      kills.all (fun kill => isTerminal terminal domain kill.raidId)) &&
    kills.all (fun kill => kill.fightUrl ∈ evidence.hydratedFightUrls settledBefore) &&
    kills.all (fun kill =>
      match (OrderedMap.ofList evidence.collectedTierZones).get? kill.raidId with
      | none => false
      | some collectedAt => kill.killedAt < collectedAt)

section Windows
variable (rt : Runtime) (generated : Generated)

def currentContentWindows : List ScheduledWindow :=
  (preLegionContentWindows.map Prod.fst ++ reviewedContentWindows.map Prod.fst ++
    (raiderIoRaidSlugs.map Prod.fst).filter (fun raidId =>
      (generatedContentWindow generated raidId).isSome)).dedup.filterMap
        (resolveContentWindow rt generated)

/-- A start that cannot be read counts as opened. -/
def raidContentWindowOpenedBetween (since at_ : Instant) : Bool :=
  (currentContentWindows rt generated).any (fun window =>
    match rt.parseDate window.startsAt with
    | none => true
    | some startsAt => (since : ℤ) < startsAt && startsAt ≤ (at_ : ℤ))

/-- The newest page of reports is all there is left to read. -/
def staleReadNeedsOnlyNewestPage (at_ : Instant) (completed : Option EvidenceRun)
    (completedVersionCurrent : Bool) (loadKills : List EvidenceSettlementKill)
    (evidence : EvidenceSchedulingReads) : Bool :=
  match completed with
  | none => false
  | some run =>
    if !completedVersionCurrent || run.limitationCode.isSome || run.parseLimitationCode.isSome
    then false
    else
      let stored := evidence.storedEvidenceTiers
      let terminal := evidence.terminalTiers
      match evidence.lastRaiderIoRecoveryAt, stored.lastCleanKillScanAt with
      | some recoveredAt, some lastCleanKillScanAt =>
        if recoveredAt + raiderIoRecoveryRecheckMs ≤ at_ ||
            (stored.kills ++ stored.wipes).any (fun raidId =>
              raidId ∉ terminalKillRaids terminal) ||
            stored.historyScanResumePage.isSome ||
            (stored.historicAliasProgress.getD []).any (fun alias_ =>
              alias_.historyScanResumePage.isSome) ||
            raidContentWindowOpenedBetween rt generated lastCleanKillScanAt at_
        then false
        else killTiersAreSettled loadKills terminal at_ evidence
      | _, _ => false

end Windows

/-! The reads, of the runs published. -/

def isHydrated (row : MergedKill) (before : Instant) : Bool :=
  row.kill.killedAt < before &&
    (if row.performance.damage.isAvailable || row.performance.healing.isAvailable ||
        row.performance.bossDamage.isAvailable
    then row.performance.spec.isSome
    else row.parsesReadAt.isSome)

def collectedTierZones (runs : List PublishedRun) : List (String × Instant) :=
  let bests := runs.flatMap PublishedRun.tierBests
  (bests.map (fun best => best.tierBest.raidId)).dedup.filterMap (fun raidId =>
    ((bests.filter (fun best => best.tierBest.raidId = raidId)).map
      StoredTierBest.collectedAt).max?.map (fun collectedAt => (raidId, collectedAt)))

/-- What the decision reads of columns the store here leaves out. -/
structure OtherColumns where
  completedVersionCurrent : Bool
  historicAliasProgress : List HistoricAliasScanProgress
  lastRaiderIoRecoveryAt : Option Instant

def snapshotKills (s : Store) (key : CharacterKey) : List MergedKill :=
  ((loadCompletedEvidence (s.publishedRuns key)).map PublishedRun.kills).getD []

def snapshotWipes (s : Store) (key : CharacterKey) : List MythicWipe :=
  ((loadCompletedEvidence (s.publishedRuns key)).map PublishedRun.wipes).getD []

def createSchedulingReads (s : Store) (key : CharacterKey) (columns : OtherColumns) :
    EvidenceSchedulingReads where
  storedEvidenceTiers :=
    { kills := ((snapshotKills s key).map (fun row => row.kill.raidId)).dedup
      wipes := ((snapshotWipes s key).map MythicWipe.raidId).dedup
      lastCleanKillScanAt := s.lastCleanKillScanAt key
      historyScanResumePage := (s.storedEvidenceTiers key none).historyScanResumePage
      historicAliasProgress := some columns.historicAliasProgress }
  terminalTiers := (s.terminalTiers.filter (fun mark => mark.1 = key)).map Prod.snd
  lastRaiderIoRecoveryAt := columns.lastRaiderIoRecoveryAt
  hydratedFightUrls before :=
    ((snapshotKills s key).filter (isHydrated · before)).map MergedKill.fightUrl
  collectedTierZones := collectedTierZones (s.publishedRuns key)

def completedSettlementKills (s : Store) (key : CharacterKey) : List EvidenceSettlementKill :=
  (snapshotKills s key).map (fun row => ⟨row.kill.raidId, row.kill.killedAt, row.fightUrl⟩)

/-- The decision as a reservation makes it, under the character's lock. -/
def prepareNewRun (rt : Runtime) (generated : Generated) (at_ : Instant) (key : CharacterKey)
    (columns : OtherColumns) (s : Store) : Bool :=
  staleReadNeedsOnlyNewestPage rt generated at_ (s.completedRun key)
    columns.completedVersionCurrent (completedSettlementKills s key)
    (createSchedulingReads s key columns)

/-- What the dossier shows, less the rows in a zone known not to be a raid. -/
def shownEvidence (catalogue : Catalogue) (s : Store) (key : CharacterKey) : PositiveEvidence where
  kills := ((snapshotKills s key).map storedKill).filter
    (fun kill => !catalogue.isNonRaidZone kill.raidName)
  wipes := (snapshotWipes s key).filter (fun wipe => !catalogue.isNonRaidZone wipe.raidName)

/-- The rows written hold every fight of the evidence, and what the run did not
come back with is held as it was. -/
structure Keeps (evidence : PositiveEvidence) (input : EvidencePublishInput)
    (kills : List MergedKill) (wipes : List MythicWipe) : Prop where
  kill : ∀ kill ∈ evidence.kills, ∃ row ∈ kills, row.fightUrl = kill.fightUrl ∧
    (kill.fightUrl ∉ incomingFightUrls input →
      row.kill ∈ evidence.kills ∧ row.performance = row.kill.performance)
  wipe : ∀ wipe ∈ evidence.wipes, ∃ row ∈ wipes, row.fightUrl = wipe.fightUrl ∧
    (wipe.fightUrl ∉ input.wipes.map MythicWipe.fightUrl → row ∈ evidence.wipes)

section Decision
variable {rt : Runtime} {generated : Generated} {at_ : Instant} {completed : Option EvidenceRun}
  {completedVersionCurrent : Bool} {loadKills : List EvidenceSettlementKill}
  {evidence : EvidenceSchedulingReads}

theorem terminal_of_stored (h : staleReadNeedsOnlyNewestPage rt generated at_ completed
      completedVersionCurrent loadKills evidence = true) {raidId : String}
    (hheld : raidId ∈ evidence.storedEvidenceTiers.kills ∨
      raidId ∈ evidence.storedEvidenceTiers.wipes) :
    raidId ∈ terminalKillRaids evidence.terminalTiers := by
  by_contra hopen
  have hany : (evidence.storedEvidenceTiers.kills ++ evidence.storedEvidenceTiers.wipes).any
      (fun raidId => raidId ∉ terminalKillRaids evidence.terminalTiers) = true :=
    any_eq_true.mpr ⟨raidId, mem_append.mpr hheld, by simpa using hopen⟩
  unfold staleReadNeedsOnlyNewestPage at h
  cases completed with
  | none => cases h
  | some run =>
    dsimp only at h
    split at h
    · cases h
    · split at h
      · rw [hany] at h
        simp at h
      · cases h

end Decision

section Carried
variable {stored : StoredEvidenceForMerge} {input : EvidencePublishInput}

theorem copyToCarry_of_terminal {kill : MythicKill} (hkill : kill ∈ stored.positive.kills)
    (hraid : kill.raidId ∈ stored.terminalKillRaidIds) :
    ∃ copy ∈ stored.positive.kills, copy.fightUrl = kill.fightUrl ∧
      copyToCarry stored input false kill.fightUrl = some copy := by
  have hlast : ∀ kills : List MythicKill, kill ∈ kills →
      ∃ copy ∈ kills, lastCopy kills kill.fightUrl = some copy := by
    intro kills hmem
    cases hcopy : lastCopy kills kill.fightUrl with
    | none =>
      have hnone := find?_eq_none.mp hcopy kill (mem_reverse.mpr hmem)
      simp at hnone
    | some copy => exact ⟨copy, mem_reverse.mp (mem_of_find?_eq_some hcopy), rfl⟩
  unfold copyToCarry
  by_cases hall : input.state = .partial_ ∨ false = true
  · obtain ⟨copy, hmem, hcopy⟩ := hlast _ hkill
    refine ⟨copy, hmem, lastCopy_fightUrl hcopy, ?_⟩
    rw [if_pos hall, hcopy]
  · obtain ⟨copy, hmem, hcopy⟩ := hlast (stored.positive.kills.filter
        (fun kill => kill.raidId ∈ stored.terminalKillRaidIds))
      (mem_filter.mpr ⟨hkill, by simpa using hraid⟩)
    refine ⟨copy, (mem_filter.mp hmem).1, lastCopy_fightUrl hcopy, ?_⟩
    rw [if_neg hall, hcopy, Option.some_or]

theorem keeps_kill {kill : MythicKill} (hkill : kill ∈ stored.positive.kills)
    (hraid : kill.raidId ∈ stored.terminalKillRaidIds) :
    ∃ row ∈ (mergePublishedEvidence stored input false).kills, row.fightUrl = kill.fightUrl ∧
      (kill.fightUrl ∉ incomingFightUrls input →
        row.kill ∈ stored.positive.kills ∧ row.performance = row.kill.performance) := by
  have hurl := (mem_published_urls_iff stored input false kill.fightUrl).mpr
    (.inl (mem_previousKills_urls_of_terminal stored input false hkill hraid))
  obtain ⟨row, hrow, hrowUrl⟩ := mem_map.mp hurl
  refine ⟨row, hrow, hrowUrl, fun hnew => ?_⟩
  obtain ⟨entry, hentry, hrowEq⟩ := (mem_published_kills_iff stored input false row).mp hrow
  obtain ⟨copy, hmem, -, hcopy⟩ := @copyToCarry_of_terminal stored input kill hkill hraid
  rw [hrowUrl, mergedKillEntries_get?_of_not_incoming _ _ _ hnew, carriedEntries_get?, hcopy,
    Option.map_some, Option.some_inj] at hentry
  rw [hrowEq, ← hentry]
  exact ⟨hmem, rfl⟩

theorem keeps_wipe {wipe : MythicWipe} (hwipe : wipe ∈ stored.positive.wipes)
    (hraid : wipe.raidId ∈ stored.terminalKillRaidIds) :
    ∃ row ∈ (mergePublishedEvidence stored input false).wipes, row.fightUrl = wipe.fightUrl ∧
      (wipe.fightUrl ∉ input.wipes.map MythicWipe.fightUrl → row ∈ stored.positive.wipes) := by
  have hprevious := mem_previousWipes_of_terminal stored input false hwipe hraid
  have hurl := (mem_published_wipe_urls_iff stored input false wipe.fightUrl).mpr
    (mem_map_of_mem (mem_append_left _ hprevious))
  obtain ⟨row, hrow, hrowUrl⟩ := mem_map.mp hurl
  refine ⟨row, hrow, hrowUrl, fun hnew => ?_⟩
  obtain ⟨key, hget⟩ := (OrderedMap.mem_values_iff _ _).mp hrow
  have hmem : row ∈ previousWipes stored input false ++ input.wipes := by
    unfold mergedWipes at hget
    rw [OrderedMap.get?_ofList_map] at hget
    exact mem_reverse.mp (mem_of_find?_eq_some hget)
  have hheld : row ∈ previousWipes stored input false := by
    refine (mem_append.mp hmem).resolve_right fun hincoming => hnew ?_
    exact hrowUrl ▸ mem_map_of_mem hincoming
  unfold previousWipes at hheld
  split at hheld
  · exact hheld
  · exact (mem_filter.mp hheld).1

end Carried

section Publishes
variable {catalogue : Catalogue} {s : Store} {key : CharacterKey}

theorem exists_snapshot_of_kill {row : MergedKill} (hrow : row ∈ snapshotKills s key) :
    ∃ run, loadCompletedEvidence (s.publishedRuns key) = some run ∧ row ∈ run.kills := by
  unfold snapshotKills at hrow
  cases hrun : loadCompletedEvidence (s.publishedRuns key) with
  | none =>
    rw [hrun] at hrow
    exact absurd hrow not_mem_nil
  | some run =>
    rw [hrun] at hrow
    exact ⟨run, rfl, hrow⟩

theorem exists_snapshot_of_wipe {wipe : MythicWipe} (hwipe : wipe ∈ snapshotWipes s key) :
    ∃ run, loadCompletedEvidence (s.publishedRuns key) = some run ∧ wipe ∈ run.wipes := by
  unfold snapshotWipes at hwipe
  cases hrun : loadCompletedEvidence (s.publishedRuns key) with
  | none =>
    rw [hrun] at hwipe
    exact absurd hwipe not_mem_nil
  | some run =>
    rw [hrun] at hwipe
    exact ⟨run, rfl, hwipe⟩

theorem positive_of_shown_kill {kill : MythicKill}
    (h : kill ∈ (shownEvidence catalogue s key).kills) :
    kill ∈ (loadPositiveEvidenceForPartial catalogue.isNonRaidZone
      (s.publishedRuns key)).kills := by
  obtain ⟨hmem, hzone⟩ := mem_filter.mp h
  obtain ⟨row, hrow, rfl⟩ := mem_map.mp hmem
  obtain ⟨run, hrun, hrow⟩ := exists_snapshot_of_kill hrow
  refine mem_filter.mpr ⟨newestCopy_of_snapshot _ hrun ?_ (mem_map_of_mem hrow), hzone⟩
  have hnodup := run.nodup_kills
  unfold PublishedRun.storedKills
  rw [map_map]
  exact hnodup

theorem positive_of_shown_wipe {wipe : MythicWipe}
    (h : wipe ∈ (shownEvidence catalogue s key).wipes) :
    wipe ∈ (loadPositiveEvidenceForPartial catalogue.isNonRaidZone
      (s.publishedRuns key)).wipes := by
  obtain ⟨hmem, hzone⟩ := mem_filter.mp h
  obtain ⟨run, hrun, hwipe⟩ := exists_snapshot_of_wipe hmem
  exact mem_filter.mpr ⟨newestCopy_of_snapshot _ hrun run.nodup_wipes hwipe, hzone⟩

end Publishes

section Window
variable {isNonRaidZone : String → Bool} {lookupRaid : MythicKill → Option String}
  {older : List PublishedRun} {p : Publication}

theorem newest_holds_kill (hnewest : OwnNewest isNonRaidZone lookupRaid older p) {kill : MythicKill}
    (hkill : kill ∈ (loadPositiveEvidenceForPartial isNonRaidZone
      (publishNext isNonRaidZone lookupRaid older p)).kills) :
    kill ∈ (ownRun isNonRaidZone lookupRaid older p).storedKills := by
  obtain ⟨hmem, hzone⟩ := mem_filter.mp hkill
  have hheld : heldCopy (publishNext isNonRaidZone lookupRaid older p) kill.fightUrl =
      some kill := (filedBy_newestCopies _ _).get?_of_mem hmem
  rw [heldCopy_publishNext hnewest] at hheld
  cases hrow : publishedRow isNonRaidZone lookupRaid older p kill.fightUrl with
  | some row =>
    rw [hrow, Option.map_some, Option.some_or, Option.some_inj] at hheld
    exact mem_map.mpr ⟨row, (publishedRow_mem hrow).1, hheld⟩
  | none =>
    -- a fight left out by a partial publish was not held before it either
    rw [hrow, Option.map_none, Option.none_or] at hheld
    split at hheld
    · cases hheld
    · next hstate =>
      have hpartial : p.CarriesAll := by
        refine .inl ?_
        cases hcase : p.input.state with
        | complete => exact absurd hcase hstate
        | partial_ => rfl
      have hkept : ∃ row ∈ (mergedFor isNonRaidZone lookupRaid older p).kills,
          row.fightUrl = kill.fightUrl ∧
          (kill.fightUrl ∉ incomingFightUrls p.input → row.kill = kill ∧ storedKill row = kill) :=
        carriesAll_keeps_kill hpartial ((OrderedMap.mem_values_iff _ _).mpr ⟨_, hheld⟩)
          (by simpa using hzone)
      obtain ⟨row, hmemRow, hurl, -⟩ := hkept
      have hout := find?_eq_none.mp hrow row hmemRow
      have hne : ¬ row.kill.fightUrl = kill.fightUrl := by simpa using hout
      exact absurd hurl hne

theorem newest_holds_wipe (hnewest : OwnNewest isNonRaidZone lookupRaid older p)
    {wipe : MythicWipe} (hwipe : wipe ∈ (loadPositiveEvidenceForPartial isNonRaidZone
      (publishNext isNonRaidZone lookupRaid older p)).wipes) :
    wipe ∈ (ownRun isNonRaidZone lookupRaid older p).wipes := by
  obtain ⟨hmem, hzone⟩ := mem_filter.mp hwipe
  have hheld : heldWipe (publishNext isNonRaidZone lookupRaid older p) wipe.fightUrl =
      some wipe := (filedBy_newestCopies _ _).get?_of_mem hmem
  rw [heldWipe_publishNext hnewest] at hheld
  cases hrow : (mergedWipes (storedFor isNonRaidZone lookupRaid older p) p.input
      p.targeted).get? wipe.fightUrl with
  | some row =>
    rw [hrow, Option.some_or, Option.some_inj] at hheld
    subst hheld
    exact (OrderedMap.mem_values_iff _ _).mpr ⟨_, hrow⟩
  | none =>
    rw [hrow, Option.none_or] at hheld
    split at hheld
    · cases hheld
    · next hstate =>
      -- what a partial publish found nothing of, it carries as held
      have hcarries : carriesWipe isNonRaidZone p wipe = true := by
        unfold carriesWipe
        cases hcase : p.input.state with
        | complete => exact absurd hcase hstate
        | partial_ => simpa using hzone
      rw [mergedWipes_get?, hheld, Option.filter_some, if_pos hcarries] at hrow
      cases hfound : p.input.wipes.reverse.find? (fun row => row.fightUrl = wipe.fightUrl) with
      | none =>
        rw [hfound] at hrow
        cases hrow
      | some found =>
        rw [hfound] at hrow
        cases hrow

end Window

section Light
variable {catalogue : Catalogue} {s later : Store} {key : CharacterKey}

/-- The publish of a light run: the run is the character's own and searches no
tier, and the publish reads the rows and marks the decision read. -/
structure LightPublish (catalogue : Catalogue) (s : Store) (key : CharacterKey) (later : Store)
    (id : ℕ) (input : EvidencePublication) (publishedFrom : PublishedFrom) (after : Store) :
    Prop where
  rows : later.publishedRuns key = s.publishedRuns key
  marks : later.terminalKillRaidIds key = s.terminalKillRaidIds key
  light : ∃ run, later.activeRun id = some run ∧ run.key = key ∧ run.mode = .full
  published : later.publish catalogue id input publishedFrom = (.ok (), after)

/-- What the merge of a light run's publish reads. -/
def lightStored (catalogue : Catalogue) (s : Store) (key : CharacterKey) (state : PublishState) :
    StoredEvidenceForMerge :=
  storedEvidenceForMerge catalogue.isNonRaidZone catalogue.lookupRaid (s.terminalKillRaidIds key)
    (s.publishedRuns key) state false

theorem rows_of_lightPublish {id : ℕ} {input : EvidencePublication} {publishedFrom : PublishedFrom}
    {after : Store} (h : LightPublish catalogue s key later id input publishedFrom after) :
    ∃ rows, after.evidence.get? id = some rows ∧
      rows.kills = (mergePublishedEvidence (lightStored catalogue s key input.state)
        input.merged false).kills ∧
      rows.wipes = (mergePublishedEvidence (lightStored catalogue s key input.state)
        input.merged false).wipes := by
  obtain ⟨run, hactive, hkey, hmode⟩ := h.light
  have hread : storedEvidenceForMerge catalogue.isNonRaidZone catalogue.lookupRaid
      (later.terminalKillRaidIds run.key) (later.publishedRuns run.key) input.state
        run.mode.tierSearchRaidId.isSome = lightStored catalogue s key input.state := by
    rw [hkey, hmode, h.rows, h.marks]
    rfl
  have htargeted : run.mode.tierSearchRaidId.isSome = false := by rw [hmode]; rfl
  have hkills : (Store.publishedEvidence catalogue later id run input).kills =
      (mergePublishedEvidence (lightStored catalogue s key input.state) input.merged
        false).kills := by
    rw [← hread, ← htargeted]
    rfl
  have hwipes : (Store.publishedEvidence catalogue later id run input).wipes =
      (mergePublishedEvidence (lightStored catalogue s key input.state) input.merged
        false).wipes := by
    rw [← hread, ← htargeted]
    rfl
  have hpublished := h.published
  unfold Store.publish at hpublished
  split at hpublished
  · cases hpublished
  · rw [hactive] at hpublished
    have hafter := (Prod.mk.inj hpublished).2
    refine ⟨Store.publishedEvidence catalogue later id run input, ?_, hkills, hwipes⟩
    rw [← hafter]
    exact OrderedMap.get?_set_self _ _ _

theorem keeps_of_terminal {stored : StoredEvidenceForMerge} {input : EvidencePublishInput}
    (hkills : ∀ kill ∈ stored.positive.kills, kill.raidId ∈ stored.terminalKillRaidIds)
    (hwipes : ∀ wipe ∈ stored.positive.wipes, wipe.raidId ∈ stored.terminalKillRaidIds) :
    Keeps stored.positive input (mergePublishedEvidence stored input false).kills
      (mergePublishedEvidence stored input false).wipes where
  kill kill hkill := keeps_kill hkill (hkills kill hkill)
  wipe wipe hwipe := keeps_wipe hwipe (hwipes wipe hwipe)

section Settled
variable {rt : Runtime} {generated : Generated} {at_ : Instant} {columns : OtherColumns}
  (hsettled : prepareNewRun rt generated at_ key columns s = true)
include hsettled

theorem terminal_of_snapshot_kill {row : MergedKill} (hrow : row ∈ snapshotKills s key) :
    row.kill.raidId ∈ s.terminalKillRaidIds key := by
  have hheld : row.kill.raidId ∈
      (createSchedulingReads s key columns).storedEvidenceTiers.kills :=
    mem_dedup.mpr (mem_map.mpr ⟨row, hrow, rfl⟩)
  exact terminal_of_stored hsettled (.inl hheld)

theorem terminal_of_snapshot_wipe {wipe : MythicWipe} (hwipe : wipe ∈ snapshotWipes s key) :
    wipe.raidId ∈ s.terminalKillRaidIds key := by
  have hheld : wipe.raidId ∈
      (createSchedulingReads s key columns).storedEvidenceTiers.wipes :=
    mem_dedup.mpr (mem_map_of_mem hwipe)
  exact terminal_of_stored hsettled (.inr hheld)

theorem keeps_shown (input : EvidencePublication) :
    Keeps (shownEvidence catalogue s key) input.merged
      (mergePublishedEvidence (lightStored catalogue s key input.state) input.merged false).kills
      (mergePublishedEvidence (lightStored catalogue s key input.state) input.merged
        false).wipes where
  kill kill hkill := by
    have hpositive := positive_of_shown_kill hkill
    obtain ⟨row, hrow, hraid⟩ := mem_map.mp (mem_filter.mp hkill).1
    have hterminal : kill.raidId ∈ s.terminalKillRaidIds key := by
      rw [← hraid]
      exact terminal_of_snapshot_kill hsettled hrow
    obtain ⟨published, hmem, hurl, hsame⟩ := @keeps_kill
      (lightStored catalogue s key input.state) input.merged kill hpositive hterminal
    refine ⟨published, hmem, hurl, fun hnew => ?_⟩
    obtain ⟨hheld, hperformance⟩ := hsame hnew
    have heq : published.kill = kill := inj_on_of_nodup_map
      (nodup_raidKills catalogue.isNonRaidZone (s.publishedRuns key)) hheld hpositive hurl
    exact ⟨heq ▸ hkill, hperformance⟩
  wipe wipe hwipe := by
    have hpositive := positive_of_shown_wipe hwipe
    have hterminal := terminal_of_snapshot_wipe hsettled (mem_filter.mp hwipe).1
    obtain ⟨published, hmem, hurl, hsame⟩ := @keeps_wipe
      (lightStored catalogue s key input.state) input.merged wipe hpositive hterminal
    refine ⟨published, hmem, hurl, fun hnew => ?_⟩
    have hnodup := (filedBy_newestCopies MythicWipe.fightUrl ((positiveWindow
      (newestFirst (s.publishedRuns key))).flatMap PublishedRun.wipes)).nodup_values
    have heq : published = wipe := inj_on_of_nodup_map
      (hnodup.sublist (filter_sublist.map _)) (hsame hnew) hpositive hurl
    exact heq ▸ hwipe

theorem keeps_positive {older : List PublishedRun} {p : Publication}
    (hlast : newestFirst (s.publishedRuns key) = newestFirst (publishNext catalogue.isNonRaidZone
      catalogue.lookupRaid older p))
    (hnewest : OwnNewest catalogue.isNonRaidZone catalogue.lookupRaid older p)
    (input : EvidencePublication) :
    Keeps (loadPositiveEvidenceForPartial catalogue.isNonRaidZone (s.publishedRuns key))
      input.merged
      (mergePublishedEvidence (lightStored catalogue s key input.state) input.merged false).kills
      (mergePublishedEvidence (lightStored catalogue s key input.state) input.merged
        false).wipes := by
  have hsnapshot : loadCompletedEvidence (s.publishedRuns key) =
      some (ownRun catalogue.isNonRaidZone catalogue.lookupRaid older p) := by
    unfold loadCompletedEvidence
    rw [hlast, newestFirst_publishNext hnewest]
    rfl
  have hpositive : loadPositiveEvidenceForPartial catalogue.isNonRaidZone (s.publishedRuns key) =
      loadPositiveEvidenceForPartial catalogue.isNonRaidZone (publishNext catalogue.isNonRaidZone
        catalogue.lookupRaid older p) := by
    unfold loadPositiveEvidenceForPartial
    rw [hlast]
  refine @keeps_of_terminal (lightStored catalogue s key input.state) input.merged ?_ ?_
  · intro kill hkill
    have hheld : kill ∈ (loadPositiveEvidenceForPartial catalogue.isNonRaidZone
      (s.publishedRuns key)).kills := hkill
    rw [hpositive] at hheld
    obtain ⟨row, hrow, hraid⟩ := mem_map.mp (newest_holds_kill hnewest hheld)
    have hshown : row ∈ snapshotKills s key := by
      unfold snapshotKills
      rw [hsnapshot]
      exact hrow
    rw [← hraid]
    exact terminal_of_snapshot_kill hsettled hshown
  · intro wipe hwipe
    have hheld : wipe ∈ (loadPositiveEvidenceForPartial catalogue.isNonRaidZone
      (s.publishedRuns key)).wipes := hwipe
    rw [hpositive] at hheld
    have hshown : wipe ∈ snapshotWipes s key := by
      unfold snapshotWipes
      rw [hsnapshot]
      exact newest_holds_wipe hnewest hheld
    exact terminal_of_snapshot_wipe hsettled hshown

end Settled

end Light

/-- Whatever a read of any evidence, marks and scan times allows a light run
for, every publish of it keeps: of one stored evidence that both the decision
and the merge read; and of the store, where the decision is made under the
reservation and the publish of the run comes later, what the dossier shows, and
all that a publish may carry where the newest publication was made last. -/
theorem light_publish_keeps_evidence (rt : Runtime) (generated : Generated) (at_ : Instant) :
    (∀ completed completedVersionCurrent loadKills evidence,
      staleReadNeedsOnlyNewestPage rt generated at_ completed completedVersionCurrent loadKills
        evidence = true →
      ∀ stored : StoredEvidenceForMerge,
        stored.terminalKillRaidIds = terminalKillRaids evidence.terminalTiers →
        (∀ kill ∈ stored.positive.kills, kill.raidId ∈ evidence.storedEvidenceTiers.kills) →
        (∀ wipe ∈ stored.positive.wipes, wipe.raidId ∈ evidence.storedEvidenceTiers.wipes) →
        ∀ input, Keeps stored.positive input (mergePublishedEvidence stored input false).kills
          (mergePublishedEvidence stored input false).wipes) ∧
    ∀ (catalogue : Catalogue) (s : Store) (key : CharacterKey) (columns : OtherColumns),
      prepareNewRun rt generated at_ key columns s = true →
      ∀ later id input publishedFrom after,
        LightPublish catalogue s key later id input publishedFrom after →
        ∃ rows, after.evidence.get? id = some rows ∧
          Keeps (shownEvidence catalogue s key) input.merged rows.kills rows.wipes ∧
          ∀ older p,
            newestFirst (s.publishedRuns key) = newestFirst (publishNext catalogue.isNonRaidZone
              catalogue.lookupRaid older p) →
            OwnNewest catalogue.isNonRaidZone catalogue.lookupRaid older p →
            Keeps (loadPositiveEvidenceForPartial catalogue.isNonRaidZone (s.publishedRuns key))
              input.merged rows.kills rows.wipes := by
  constructor
  · intro completed completedVersionCurrent loadKills evidence hsettled stored hmarks hkills hwipes
      input
    refine keeps_of_terminal (fun kill hkill => ?_) (fun wipe hwipe => ?_)
    · rw [hmarks]
      exact terminal_of_stored hsettled (.inl (hkills kill hkill))
    · rw [hmarks]
      exact terminal_of_stored hsettled (.inr (hwipes wipe hwipe))
  · intro catalogue s key columns hsettled later id input publishedFrom after hpublish
    obtain ⟨rows, hrows, hkills, hwipes⟩ := rows_of_lightPublish hpublish
    refine ⟨rows, hrows, ?_, fun older p hlast hnewest => ?_⟩
    · rw [hkills, hwipes]
      exact keeps_shown hsettled input
    · rw [hkills, hwipes]
      exact keeps_positive hsettled hlast hnewest input

/-! A settled character. -/

def wrathionKill : MythicKill where
  raidId := "1180"
  raidName := "Ny'alotha, the Waking City"
  bossId := "2368"
  bossName := "Wrathion"
  journalBossId := some "2368"
  killedAt := 1582232400000
  fightUrl := "https://www.warcraftlogs.com/reports/aBcD#fight=3"
  historicWorldRank := none
  historicRankCheckedAt := none
  performance := ⟨none, .unavailable, .unavailable, .unavailable⟩

def settledKey : CharacterKey := ⟨.eu, "tarren-mill", "ward"⟩

/-- A full run's publication of one kill, its parses and its tier's bests read. -/
def settledPublication : EvidencePublication where
  state := .complete
  scanSkipped := false
  omittedInvalidTimestamp := false
  historyScanResumePage := none
  historyScanResumeBoundaryReportCode := none
  rankedBackfillCursor := none
  limitationCode := none
  parseLimitationCode := none
  parseLimitationCodesSeen := []
  retryAfterAt := none
  kills := [wrathionKill]
  wipes := []
  tierBests := [⟨"1180", "2368", wrathionKill.performance⟩]
  cuttingEdges := []
  raiderIoFirstKills := none
  parsedFightUrls := [wrathionKill.fightUrl]
  completedAt := 1790000000000

def anyCatalogue : EvidenceRuns.Catalogue := ⟨fun _ => false, fun _ => none, compare⟩

/-- A character whose one raid is terminal in every domain. -/
def settledStore : Store :=
  let reserved := (Store.insertRun 1789999999000 1 settledKey .full ["publication"] .empty).2
  let published := (reserved.publish anyCatalogue 1 settledPublication (.collection true)).2
  published.markTerminalTiers settledKey [⟨"1180", .kills⟩, ⟨"1180", .parses⟩, ⟨"1180", .tierBests⟩]

def readingRuntime : Runtime := { plainRuntime with parseDate := IsoTimestamps.readISOString }
def lightStore : Store :=
  (settledStore.insertRun 1790000001000 2 settledKey .full ["publication"]).2

/-- A light run that read the newest page and found nothing on it. -/
def lightPublication : EvidencePublication :=
  { settledPublication with
    kills := []
    tierBests := []
    parsedFightUrls := []
    completedAt := 1790000002000 }

theorem light_publish_keeps_evidence_settled :
    ∃ rows, (lightStore.publish anyCatalogue 2 lightPublication (.collection true)).2.evidence.get?
        2 = some rows ∧
      Keeps (shownEvidence anyCatalogue settledStore settledKey) lightPublication.merged rows.kills
        rows.wipes := by
  have hsettled : prepareNewRun readingRuntime wakingCity.toGenerated 1790000001000 settledKey
      ⟨true, [], some 1790000000000⟩ settledStore = true := by decide +kernel
  have hpublish : LightPublish anyCatalogue settledStore settledKey lightStore 2 lightPublication
      (.collection true)
      (lightStore.publish anyCatalogue 2 lightPublication (.collection true)).2 := by
    refine ⟨rfl, by decide +kernel, ⟨_, rfl, rfl, rfl⟩, rfl⟩
  obtain ⟨rows, hrows, hkeeps, -⟩ := (light_publish_keeps_evidence readingRuntime
    wakingCity.toGenerated 1790000001000).2 anyCatalogue settledStore settledKey _ hsettled
      lightStore 2 lightPublication (.collection true) _ hpublish
  exact ⟨rows, hrows, hkeeps⟩

end SlashWho.SettledCollections
