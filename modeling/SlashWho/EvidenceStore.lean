import Mathlib.Data.List.Sort
import SlashWho.EvidenceMerge

/-!
The published runs of one character and what a publish reads back from them.
A published row is what an earlier merge wrote. The zone and raid catalogues
are generated data, so what they answer is a parameter here.
-/

namespace SlashWho.EvidenceStore

open EvidenceMerge

/-- One run whose status is complete or partial, with the rows it wrote. A
tier search names the raid it searched. -/
structure PublishedRun where
  id : ℕ
  completedAt : Instant
  status : PublishState
  tierSearchRaidId : Option String
  kills : List MergedKill
  wipes : List MythicWipe
  tierBests : List StoredTierBest
  nodup_kills : (kills.map MergedKill.fightUrl).Nodup
  nodup_wipes : (wipes.map MythicWipe.fightUrl).Nodup

/-- `ORDER BY completed_at DESC, id DESC`. -/
def PublishedRun.newerEq (a b : PublishedRun) : Prop :=
  b.completedAt < a.completedAt ∨ (b.completedAt = a.completedAt ∧ b.id ≤ a.id)

instance : DecidableRel PublishedRun.newerEq :=
  fun _ _ => inferInstanceAs (Decidable (_ ∨ _))

variable (runs : List PublishedRun)

def newestFirst : List PublishedRun :=
  runs.insertionSort PublishedRun.newerEq

/-- A stored row as it is mapped back: its own parses and rank lookup. -/
def storedKill (row : MergedKill) : MythicKill :=
  { row.kill with
    performance := row.performance
    historicWorldRank := row.historicWorldRank
    historicRankCheckedAt := row.historicRankCheckedAt }

def PublishedRun.storedKills (run : PublishedRun) : List MythicKill := run.kills.map storedKill

/-- The snapshot the newest publication holds, whatever its scope. -/
def loadCompletedEvidence : Option PublishedRun :=
  (newestFirst runs).head?

/-- The runs down to and including the newest complete one. -/
def positiveWindow : List PublishedRun → List PublishedRun
  | [] => []
  | run :: rest => if run.status = .complete then [run] else run :: positiveWindow rest

/-- `DISTINCT ON (fight_url)` over rows listed newest first: the newest copy of
each fight is set last and wins. -/
def newestCopies {α : Type*} (url : α → String) (rows : List α) : OrderedMap String α :=
  .ofList (rows.reverse.map (fun row => (url row, row)))

variable (isNonRaidZone : String → Bool)

def loadPositiveEvidenceForPartial (runs : List PublishedRun) : PositiveEvidence where
  kills := (newestCopies MythicKill.fightUrl
    ((positiveWindow (newestFirst runs)).flatMap PublishedRun.storedKills)).values.filter
      (fun kill => !isNonRaidZone kill.raidName)
  wipes := (newestCopies MythicWipe.fightUrl
    ((positiveWindow (newestFirst runs)).flatMap PublishedRun.wipes)).values.filter
      (fun wipe => !isNonRaidZone wipe.raidName)

/-- The newest published search of each raid, and the kills in it that the
catalogue places in that raid. -/
def loadLatestTierSearchKills (lookupRaid : MythicKill → Option String)
    (runs : List PublishedRun) : List MythicKill :=
  let searches := (newestFirst runs).filterMap
    (fun run => run.tierSearchRaidId.map (fun raid => (raid, run)))
  let latest : OrderedMap String PublishedRun := .ofList searches.reverse
  latest.entries.flatMap (fun search =>
    search.2.storedKills.filter (fun kill => lookupRaid kill = some search.1))

def newestRows : OrderedMap String MergedKill :=
  newestCopies (fun row => row.kill.fightUrl) ((newestFirst runs).flatMap PublishedRun.kills)

def loadStoredPerformanceByFightUrl :
    OrderedMap String PerformanceValues :=
  .ofList ((newestRows runs).entries.map (fun row => (row.1, row.2.performance)))

def loadStoredCollectedAt : OrderedMap String Instant :=
  .ofList ((newestRows runs).keys.filterMap (fun url =>
    (((newestFirst runs).flatMap PublishedRun.kills).filterMap (fun row =>
      if row.kill.fightUrl = url then some row.collectedAt else none)).max?.map
        (fun latest => (url, latest))))

def loadStoredParsesReadAt : OrderedMap String Instant :=
  .ofList ((newestRows runs).keys.filterMap (fun url =>
    (((newestFirst runs).flatMap PublishedRun.kills).filterMap (fun row =>
      if row.kill.fightUrl = url then row.parsesReadAt else none)).max?.map
        (fun latest => (url, latest))))

def loadStoredHistoricRanks : OrderedMap String HistoricRank :=
  .ofList ((newestRows runs).entries.map (fun row =>
    (row.1, ⟨row.2.historicWorldRank, row.2.historicRankCheckedAt⟩)))

def loadStoredTierBestParses :
    OrderedMap (String × String) StoredTierBest :=
  .ofList (((newestFirst runs).flatMap PublishedRun.tierBests).reverse.map (fun best =>
    ((best.tierBest.raidId, best.tierBest.bossId), best)))

/-- What `publish` reads inside its transaction before it merges. -/
def storedEvidenceForMerge (lookupRaid : MythicKill → Option String)
    (terminalKillRaidIds : Finset String) (runs : List PublishedRun) (state : PublishState)
    (targeted : Bool) :
    StoredEvidenceForMerge where
  positive := loadPositiveEvidenceForPartial isNonRaidZone runs
  tierSearchKills :=
    if state = .complete ∧ targeted = false then loadLatestTierSearchKills lookupRaid runs else []
  terminalKillRaidIds := terminalKillRaidIds
  performanceByFightUrl := loadStoredPerformanceByFightUrl runs
  collectedAtByFightUrl := loadStoredCollectedAt runs
  parsesReadAtByFightUrl := loadStoredParsesReadAt runs
  historicRankByFightUrl := loadStoredHistoricRanks runs
  tierBests := loadStoredTierBestParses runs

/-- One publication: the merged rows become the run's own. A tier search is
targeted, whatever its input says. -/
def publish (lookupRaid : MythicKill → Option String) (terminalKillRaidIds : Finset String)
    (runs : List PublishedRun) (id : ℕ) (tierSearchRaidId : Option String)
    (input : EvidencePublishInput) : List PublishedRun :=
  let targeted := tierSearchRaidId.isSome
  let merged := mergePublishedEvidence
    (storedEvidenceForMerge isNonRaidZone lookupRaid terminalKillRaidIds runs input.state targeted)
    input targeted
  runs ++ [
    { id := id
      completedAt := input.completedAt
      status := input.state
      tierSearchRaidId := tierSearchRaidId
      kills := merged.kills
      wipes := merged.wipes
      tierBests := merged.tierBests
      nodup_kills := nodup_published_kill_urls _ _ _
      nodup_wipes := nodup_published_wipe_urls _ _ _ }]

variable {α : Type*} (url : α → String) (rows : List α)

theorem newestCopies_get? (key : String) :
    (newestCopies url rows).get? key = rows.find? (fun row => url row = key) := by
  rw [newestCopies, OrderedMap.get?_ofList_map, List.reverse_reverse]

theorem mem_newestCopies_values_iff (row : α) :
    row ∈ (newestCopies url rows).values ↔ rows.find? (fun r => url r = url row) = some row := by
  rw [OrderedMap.mem_values_iff]
  constructor
  · rintro ⟨key, hkey⟩
    rw [newestCopies_get?] at hkey
    have hurl : url row = key := by simpa using List.find?_some hkey
    rw [hurl]
    exact hkey
  · intro h
    exact ⟨url row, by rw [newestCopies_get?]; exact h⟩

theorem positiveWindow_isInitial : positiveWindow runs <+: runs := by
  induction runs with
  | nil => exact List.prefix_rfl
  | cons run rest ih =>
    unfold positiveWindow
    split
    · exact List.prefix_cons_iff.mpr (.inr ⟨[], rfl, List.nil_prefix⟩)
    · exact (List.prefix_cons_inj run).mpr ih

theorem head?_positiveWindow :
    (positiveWindow runs).head? = runs.head? := by
  cases runs with
  | nil => rfl
  | cons run rest =>
    unfold positiveWindow
    split <;> rfl

theorem newestCopy_of_snapshot {α : Type*} {url : α → String} {rows : PublishedRun → List α}
    {run : PublishedRun} (hrun : loadCompletedEvidence runs = some run)
    (hnodup : ((rows run).map url).Nodup) {row : α} (hrow : row ∈ rows run) :
    row ∈ (newestCopies url ((positiveWindow (newestFirst runs)).flatMap rows)).values := by
  rw [mem_newestCopies_values_iff]
  unfold loadCompletedEvidence at hrun
  rw [← head?_positiveWindow, List.head?_eq_some_iff] at hrun
  obtain ⟨rest, hwindow⟩ := hrun
  rw [hwindow, List.flatMap_cons, List.find?_append,
    find?_eq_some_of_nodup url hnodup hrow, Option.some_or]

end SlashWho.EvidenceStore
