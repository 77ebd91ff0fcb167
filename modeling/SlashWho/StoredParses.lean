import SlashWho.EvidenceStore

/-!
Whether a publish keeps the parses stored for a fight. The newest stored copy
of each fight is read for every publish, but only the run's own kills are
merged with it: a carried fight is published from the copy that carries it. A
complete ordinary publish carries a searched fight from its raid's latest
search, which may be older and blanker than the newest copy.
-/

namespace SlashWho.StoredParses

open EvidenceMerge EvidenceStore

variable (stored : StoredEvidenceForMerge) (input : EvidencePublishInput) (targeted : Bool)

/-- Every published metric whose newest stored copy is available is available,
and is another value only when the run supplied one. -/
def KeepsStoredParses : Prop :=
  ∀ row ∈ (mergePublishedEvidence stored input targeted).kills, ∀ (m : MetricName) newest,
    stored.performanceByFightUrl.get? row.kill.fightUrl = some newest →
    (newest.metric m).isAvailable = true →
      (row.performance.metric m).isAvailable = true ∧
        (row.performance.metric m ≠ newest.metric m →
          Supplies input.kills row.kill.fightUrl m)

/-- Wherever the run supplies nothing, the copy a publish takes for a fight
agrees with the newest stored copy on every metric that copy has. -/
def CarriedCopiesCurrent : Prop :=
  ∀ url kill (m : MetricName) newest,
    copyToCarry stored input targeted url = some kill →
    stored.performanceByFightUrl.get? url = some newest →
    (newest.metric m).isAvailable = true →
      Supplies input.kills url m ∨ kill.performance.metric m = newest.metric m

theorem exists_percentile {metric : ParseMetric} (h : metric.isAvailable = true) :
    ∃ p, metric = .available p := by
  cases metric with
  | available p => exact ⟨p, rfl⟩
  | notApplicable => simp [ParseMetric.isAvailable] at h
  | unavailable => simp [ParseMetric.isAvailable] at h

theorem holdsMetric_iff_of_entry {kills : OrderedMap String KillEntry} {url : String}
    {entry : KillEntry} (h : kills.get? url = some entry) (m : MetricName) (p : Percentile) :
    HoldsMetric stored kills url m p ↔ entry.performance.metric m = .available p := by
  simp [HoldsMetric, storedPerformance, h]

theorem holdsMetric_carriedEntries (url : String) (m : MetricName) (p : Percentile) :
    HoldsMetric stored (carriedEntries stored input targeted) url m p ↔
      match copyToCarry stored input targeted url with
      | some kill => kill.performance.metric m = .available p
      | none => ∃ newest, stored.performanceByFightUrl.get? url = some newest ∧
          newest.metric m = .available p := by
  unfold HoldsMetric storedPerformance
  rw [carriedEntries_get?]
  cases copyToCarry stored input targeted url <;> simp

theorem keepsStoredParses_of_current (h : CarriedCopiesCurrent stored input targeted) :
    KeepsStoredParses stored input targeted := by
  intro row hrow m newest hnewest hav
  obtain ⟨entry, hentry, rfl⟩ := (mem_published_kills_iff stored input targeted row).mp hrow
  change (entry.performance.metric m).isAvailable = true ∧ (_ → _)
  have hfinal := holdsMetric_iff_of_entry stored hentry m
  set url := (publishKill stored input targeted entry).kill.fightUrl
  by_cases hsup : Supplies input.kills url m
  · obtain ⟨p, hp⟩ := holdsMetric_foldl_of_supplies stored input.kills
      (carriedEntries stored input targeted) url m hsup
    exact ⟨by rw [(hfinal p).mp hp]; rfl, fun _ => hsup⟩
  · obtain ⟨p, hp⟩ := exists_percentile hav
    have hstart : HoldsMetric stored (carriedEntries stored input targeted) url m p := by
      rw [holdsMetric_carriedEntries]
      cases hc : copyToCarry stored input targeted url with
      | none => exact ⟨newest, hnewest, hp⟩
      | some kill => exact ((h url kill m newest hc hnewest hav).resolve_left hsup).trans hp
    have hend := (hfinal p).mp ((holdsMetric_foldl_of_not_supplies stored input.kills _ url m p
      hsup).mpr hstart)
    exact ⟨by rw [hend]; rfl, fun hne => absurd (hend.trans hp.symm) hne⟩

theorem current_of_keepsStoredParses (h : KeepsStoredParses stored input targeted) :
    CarriedCopiesCurrent stored input targeted := by
  intro url kill m newest hc hnewest hav
  by_cases hsup : Supplies input.kills url m
  · exact .inl hsup
  right
  have hcopy := (lastCopy_previousKills stored input targeted url).trans hc
  have hcarried : url ∈ (previousKills stored input targeted).map MythicKill.fightUrl :=
    List.mem_map.mpr ⟨kill, List.mem_reverse.mp (List.mem_of_find?_eq_some hcopy),
      lastCopy_fightUrl hcopy⟩
  obtain ⟨row, hrow, rfl⟩ := List.mem_map.mp
    ((mem_published_urls_iff stored input targeted url).mpr (.inl hcarried))
  obtain ⟨hrowAv, hsame⟩ := h row hrow m newest hnewest hav
  have heq : row.performance.metric m = newest.metric m := by
    by_contra hne
    exact hsup (hsame hne)
  obtain ⟨p, hp⟩ := exists_percentile hav
  obtain ⟨entry, hentry, rfl⟩ := (mem_published_kills_iff stored input targeted row).mp hrow
  have hend : HoldsMetric stored (mergedKillEntries stored input targeted)
      (publishKill stored input targeted entry).kill.fightUrl m p :=
    (holdsMetric_iff_of_entry stored hentry m p).mpr (heq.trans hp)
  have hstart := (holdsMetric_foldl_of_not_supplies stored input.kills _ _ m p hsup).mp hend
  rw [holdsMetric_carriedEntries, hc] at hstart
  exact hstart.trans hp.symm

/-- A publish keeps the stored parses exactly when what it carries is current. -/
theorem keepsStoredParses_iff :
    KeepsStoredParses stored input targeted ↔ CarriedCopiesCurrent stored input targeted :=
  ⟨current_of_keepsStoredParses stored input targeted,
    keepsStoredParses_of_current stored input targeted⟩

/-! A searched fight, parsed by a later run, then carried by a complete one. -/

def searchedKill (damage : ParseMetric) : MythicKill where
  raidId := "zone"
  raidName := "Raid"
  bossId := "boss"
  bossName := "Boss"
  journalBossId := none
  killedAt := 1
  fightUrl := "fight"
  historicWorldRank := none
  historicRankCheckedAt := none
  performance := ⟨none, damage, .unavailable, .unavailable⟩

def publishInput (state : PublishState) (completedAt : Instant) (kills : List MythicKill) :
    EvidencePublishInput where
  state := state
  completedAt := completedAt
  kills := kills
  wipes := []
  tierBests := []
  parsedFightUrls := none

/-- A complete search of the raid, then a partial run that read the parse. -/
def searchedThenParsed : List PublishedRun :=
  publish (fun _ => false) (fun _ => some "raid") ∅
    (publish (fun _ => false) (fun _ => some "raid") ∅ [] 1 (some "raid")
      (publishInput .complete 10 [searchedKill .unavailable]))
    2 none (publishInput .partial_ 20 [searchedKill (.available ⟨87, by decide⟩)])

def storedAfterSearch : StoredEvidenceForMerge :=
  storedEvidenceForMerge (fun _ => false) (fun _ => some "raid") ∅ searchedThenParsed
    .complete false

/-- The complete run that follows publishes the search's blank copy. -/
theorem complete_publish_blanks_searched_parse :
    ¬ KeepsStoredParses storedAfterSearch (publishInput .complete 30 []) false := by
  intro h
  have hcurrent := current_of_keepsStoredParses _ _ _ h
  have hcopy : copyToCarry storedAfterSearch (publishInput .complete 30 []) false "fight" =
      some (searchedKill .unavailable) := by decide
  have hnewest : storedAfterSearch.performanceByFightUrl.get? "fight" =
      some ⟨none, .available ⟨87, by decide⟩, .unavailable, .unavailable⟩ := by decide
  rcases hcurrent "fight" _ .damage _ hcopy hnewest rfl with ⟨kill, hkill, -⟩ | heq
  · simp [publishInput] at hkill
  · simp [searchedKill, PerformanceValues.metric] at heq

end SlashWho.StoredParses
