import SlashWho.EvidencePublishes

/-!
Publishing the same findings again over their own publication. Merging parses
is associative and idempotent, so what a fight was merged from once adds
nothing the second time; and the copy the second publish carries of a fight is
the first one's own row, or the searched copy that row was carried from.
-/

namespace SlashWho.RepublishedEvidence

open List EvidenceMerge EvidenceStore EvidencePublishes

/-! Merging parses. -/

theorem mergeParseMetric_assoc (a b c : ParseMetric) :
    mergeParseMetric (mergeParseMetric a b) c = mergeParseMetric a (mergeParseMetric b c) := by
  cases a <;> cases b <;> cases c <;> rfl

theorem mergeParseMetric_self (a : ParseMetric) : mergeParseMetric a a = a := by
  cases a <;> rfl

theorem mergePerformanceValues_assoc (a b c : PerformanceValues) :
    mergePerformanceValues (mergePerformanceValues a b) c =
      mergePerformanceValues a (mergePerformanceValues b c) := by
  unfold mergePerformanceValues
  simp only [mergeParseMetric_assoc, Option.or_assoc]

theorem mergePerformanceValues_self (a : PerformanceValues) : mergePerformanceValues a a = a := by
  unfold mergePerformanceValues
  simp only [mergeParseMetric_self, Option.or_self]

/-- Performances merged one after the other over what was held. -/
def mergeOver (held : Option PerformanceValues) (incoming : List PerformanceValues) :
    Option PerformanceValues :=
  incoming.foldl (fun held performance =>
    some (match held with
      | none => performance
      | some previous => mergePerformanceValues previous performance)) held

theorem mergeOver_some (previous : PerformanceValues) (incoming : List PerformanceValues) :
    mergeOver (some previous) incoming =
      some (incoming.foldl mergePerformanceValues previous) := by
  induction incoming generalizing previous with
  | nil => rfl
  | cons first rest ih => exact ih (mergePerformanceValues previous first)

theorem foldl_merge_eq (previous first : PerformanceValues) (rest : List PerformanceValues) :
    (first :: rest).foldl mergePerformanceValues previous =
      mergePerformanceValues previous (rest.foldl mergePerformanceValues first) := by
  have : Std.Associative mergePerformanceValues := ⟨mergePerformanceValues_assoc⟩
  rw [foldl_cons, foldl_assoc]

theorem mergeOver_idem (held : Option PerformanceValues) (incoming : List PerformanceValues) :
    mergeOver (mergeOver held incoming) incoming = mergeOver held incoming := by
  cases incoming with
  | nil => rfl
  | cons first rest =>
    have hnone : mergeOver none (first :: rest) =
        some (rest.foldl mergePerformanceValues first) := mergeOver_some first rest
    cases held with
    | none =>
      rw [hnone, mergeOver_some, foldl_merge_eq, mergePerformanceValues_self]
    | some previous =>
      rw [mergeOver_some, mergeOver_some, foldl_merge_eq, foldl_merge_eq,
        mergePerformanceValues_assoc, mergePerformanceValues_self]

/-! What a fight's own findings come to. -/

variable (stored : StoredEvidenceForMerge)

/-- An incoming kill, over the entry held so far for its fight. -/
def entryOver (held : Option KillEntry) (kill : MythicKill) :
    KillEntry where
  kill := kill
  performance :=
    match (held.map KillEntry.performance).or
        (stored.performanceByFightUrl.get? kill.fightUrl) with
    | none => kill.performance
    | some previous => mergePerformanceValues previous kill.performance

theorem addIncomingKill_eq (kills : OrderedMap String KillEntry) (kill : MythicKill) :
    addIncomingKill stored kills kill =
      kills.set kill.fightUrl (entryOver stored (kills.get? kill.fightUrl) kill) := by
  unfold addIncomingKill storedPerformance entryOver
  cases kills.get? kill.fightUrl <;> rfl

theorem foldl_entryOver {stored : StoredEvidenceForMerge} {url : String}
    (kills : List MythicKill) (hurl : ∀ kill ∈ kills, kill.fightUrl = url)
    (held : Option KillEntry) :
    kills.foldl (fun held kill => some (entryOver stored held kill)) held =
      match kills.getLast? with
      | none => held
      | some last =>
        (mergeOver ((held.map KillEntry.performance).or (stored.performanceByFightUrl.get? url))
          (kills.map MythicKill.performance)).map (fun performance => ⟨last, performance⟩) := by
  induction kills generalizing held with
  | nil => rfl
  | cons kill rest ih =>
    rw [foldl_cons, ih (fun other hother => hurl other (mem_cons_of_mem _ hother))]
    have hkill := hurl kill mem_cons_self
    cases hlast : rest.getLast? with
    | none =>
      obtain rfl := getLast?_eq_none_iff.mp hlast
      simp only [getLast?_singleton, entryOver, hkill]
      rfl
    | some last =>
      rw [getLast?_cons, hlast]
      simp only [Option.getD_some, Option.map_some, Option.some_or, map_cons]
      unfold entryOver
      rw [hkill]
      rfl

theorem mergedKillEntries_get? (input : EvidencePublishInput) (targeted : Bool) (url : String) :
    (mergedKillEntries stored input targeted).get? url =
      match (input.kills.filter (fun kill => kill.fightUrl = url)).getLast? with
      | none => (copyToCarry stored input targeted url).map (fun kill => ⟨kill, kill.performance⟩)
      | some last =>
        (mergeOver (((copyToCarry stored input targeted url).map MythicKill.performance).or
            (stored.performanceByFightUrl.get? url))
          ((input.kills.filter (fun kill => kill.fightUrl = url)).map
            MythicKill.performance)).map (fun performance => ⟨last, performance⟩) := by
  unfold mergedKillEntries
  rw [show addIncomingKill stored = _ from
    funext fun kills => funext fun kill => addIncomingKill_eq stored kills kill,
    OrderedMap.get?_foldl_set MythicKill.fightUrl (entryOver stored), carriedEntries_get?,
    foldl_entryOver _ (fun kill hkill => by simpa using (mem_filter.mp hkill).2)]
  rw [Option.map_map]
  rfl

/-! The publication read back. -/

variable (isNonRaidZone : String → Bool) (lookupRaid : MythicKill → Option String)
variable (runs : List PublishedRun) (p : Publication)

def ownRun : PublishedRun where
  id := p.id
  completedAt := p.input.completedAt
  status := p.input.state
  tierSearchRaidId := p.tierSearchRaidId
  kills := (mergedFor isNonRaidZone lookupRaid runs p).kills
  wipes := (mergedFor isNonRaidZone lookupRaid runs p).wipes
  tierBests := (mergedFor isNonRaidZone lookupRaid runs p).tierBests
  nodup_kills := nodup_published_kill_urls _ _ _
  nodup_wipes := nodup_published_wipe_urls _ _ _

theorem publishNext_eq : publishNext isNonRaidZone lookupRaid runs p =
    runs ++ [ownRun isNonRaidZone lookupRaid runs p] := rfl

def OwnNewest : Prop :=
  ∀ run ∈ runs, ¬ run.newerEq (ownRun isNonRaidZone lookupRaid runs p)

theorem insertionSort_append_newest (own : PublishedRun)
    (h : ∀ run ∈ runs, ¬ run.newerEq own) : newestFirst (runs ++ [own]) =
      own :: newestFirst runs := by
  unfold newestFirst
  induction runs with
  | nil => rfl
  | cons run rest ih =>
    have hrun := h run mem_cons_self
    rw [cons_append, insertionSort_cons,
      ih (fun other hother => h other (mem_cons_of_mem _ hother)),
      List.orderedInsert, if_neg hrun, insertionSort_cons]

variable {isNonRaidZone lookupRaid runs p}

theorem newestFirst_publishNext (hnewest : OwnNewest isNonRaidZone lookupRaid runs p) :
    newestFirst (publishNext isNonRaidZone lookupRaid runs p) =
      ownRun isNonRaidZone lookupRaid runs p :: newestFirst runs :=
  insertionSort_append_newest runs _ hnewest

section Published
variable (isNonRaidZone lookupRaid runs p)

/-- What a publish holds of each fight. -/
abbrev entriesOf : OrderedMap String KillEntry :=
  mergedKillEntries (storedFor isNonRaidZone lookupRaid runs p) p.input p.targeted

abbrev rowOf (entry : KillEntry) : MergedKill :=
  publishKill (storedFor isNonRaidZone lookupRaid runs p) p.input p.targeted entry

abbrev carriedCopy (url : String) : Option MythicKill :=
  copyToCarry (storedFor isNonRaidZone lookupRaid runs p) p.input p.targeted url

/-- What its findings of a fight are merged over. -/
abbrev priorPerformance (url : String) : Option PerformanceValues :=
  ((carriedCopy isNonRaidZone lookupRaid runs p url).map MythicKill.performance).or
    ((loadStoredPerformanceByFightUrl runs).get? url)

theorem entriesOf_get? (url : String) : (entriesOf isNonRaidZone lookupRaid runs p).get? url =
    match (p.input.kills.filter (fun kill => kill.fightUrl = url)).getLast? with
    | none => (carriedCopy isNonRaidZone lookupRaid runs p url).map
        (fun kill => ⟨kill, kill.performance⟩)
    | some last =>
      (mergeOver (priorPerformance isNonRaidZone lookupRaid runs p url)
        ((p.input.kills.filter (fun kill => kill.fightUrl = url)).map
          MythicKill.performance)).map (fun performance => ⟨last, performance⟩) :=
  mergedKillEntries_get? _ _ _ url

end Published

theorem find?_published (url : String) :
    (mergedFor isNonRaidZone lookupRaid runs p).kills.find? (fun row => row.kill.fightUrl = url) =
      ((entriesOf isNonRaidZone lookupRaid runs p).get?
        url).map (rowOf isNonRaidZone lookupRaid runs p) := by
  have hfiled := filedBy_mergedKillEntries (storedFor isNonRaidZone lookupRaid runs p) p.input
    p.targeted
  rw [← hfiled.find?_front]
  unfold mergedFor mergePublishedEvidence
  rw [find?_map]
  rfl

variable (isNonRaidZone lookupRaid runs p) in
/-- The row a publish writes for a fight, if it writes one. -/
def publishedRow (url : String) : Option MergedKill :=
  (mergedFor isNonRaidZone lookupRaid runs p).kills.find? (fun row => row.kill.fightUrl = url)

theorem newestCopies_publishNext {α : Type} (hnewest : OwnNewest isNonRaidZone lookupRaid runs p)
    (key : α → String) (rows : PublishedRun → List α) (url : String) :
    (newestCopies key ((positiveWindow (newestFirst
        (publishNext isNonRaidZone lookupRaid runs p))).flatMap rows)).get? url =
      ((rows (ownRun isNonRaidZone lookupRaid runs p)).find? (fun row => key row = url)).or
        (if p.input.state = .complete then none
        else (newestCopies key ((positiveWindow (newestFirst runs)).flatMap rows)).get? url) := by
  have hstatus : (ownRun isNonRaidZone lookupRaid runs p).status = p.input.state := rfl
  rw [newestCopies_get?, newestCopies_get?, newestFirst_publishNext hnewest, positiveWindow,
    hstatus]
  split
  · rw [flatMap_singleton, Option.or_none]
  · rw [flatMap_cons, find?_append]

theorem newestRows_publishNext (hnewest : OwnNewest isNonRaidZone lookupRaid runs p)
    (url : String) :
    (newestRows (publishNext isNonRaidZone lookupRaid runs p)).get? url =
      (publishedRow isNonRaidZone lookupRaid runs p url).or ((newestRows runs).get? url) := by
  unfold newestRows
  rw [newestCopies_get?, newestCopies_get?, newestFirst_publishNext hnewest, flatMap_cons,
    find?_append]
  rfl

theorem storedPerformance_get? (url : String) :
    (loadStoredPerformanceByFightUrl runs).get? url =
      ((newestRows runs).get? url).map MergedKill.performance :=
  OrderedMap.get?_ofList_entries (newestRows runs) MergedKill.performance url

/-- The copy the window holds of a fight. -/
def heldCopy (runs : List PublishedRun) (url : String) : Option MythicKill :=
  (newestCopies MythicKill.fightUrl
    ((positiveWindow (newestFirst runs)).flatMap PublishedRun.storedKills)).get? url

/-- The copy held of a fight after the publish: its own row, or what was held
before if it left the fight out and is not a baseline. -/
theorem heldCopy_publishNext (hnewest : OwnNewest isNonRaidZone lookupRaid runs p)
    (url : String) :
    heldCopy (publishNext isNonRaidZone lookupRaid runs p) url =
      ((publishedRow isNonRaidZone lookupRaid runs p url).map storedKill).or
        (if p.input.state = .complete then none else heldCopy runs url) := by
  have hown : (ownRun isNonRaidZone lookupRaid runs p).storedKills.find?
      (fun kill => kill.fightUrl = url) =
        (publishedRow isNonRaidZone lookupRaid runs p url).map storedKill := by
    unfold PublishedRun.storedKills
    rw [find?_map]
    rfl
  unfold heldCopy
  rw [newestCopies_publishNext hnewest, hown]

/-! The stamps of a row published again. -/

variable {url : String}

variable {row : MergedKill}

theorem publishedRow_mem (h : publishedRow isNonRaidZone lookupRaid runs p url = some row) :
    row ∈ (mergedFor isNonRaidZone lookupRaid runs p).kills ∧ row.fightUrl = url := by
  have hurl : row.kill.fightUrl = url := by simpa using find?_some h
  exact ⟨mem_of_find?_eq_some h, hurl⟩

theorem storedRow_publishNext :
    StoredRow (publishNext isNonRaidZone lookupRaid runs p) url row ↔
      StoredRow runs url row ∨ publishedRow isNonRaidZone lookupRaid runs p url = some row := by
  rw [publishNext_eq]
  constructor
  · rintro ⟨⟨run, hrun, hrow⟩, hurl⟩
    rcases mem_append.mp hrun with hold | hown
    · exact .inl ⟨⟨run, hold, hrow⟩, hurl⟩
    · right
      rw [mem_singleton] at hown
      subst hown
      have hfind := find?_eq_some_of_nodup MergedKill.fightUrl
        (ownRun isNonRaidZone lookupRaid runs p).nodup_kills hrow
      rw [hurl] at hfind
      exact hfind
  · rintro (⟨⟨run, hrun, hrow⟩, hurl⟩ | hown)
    · exact ⟨⟨run, mem_append_left _ hrun, hrow⟩, hurl⟩
    · obtain ⟨hrow, hurl⟩ := publishedRow_mem hown
      exact ⟨⟨_, mem_append_right _ (mem_singleton_self _), hrow⟩, hurl⟩

theorem latestTime_publishNext (time : MergedKill → Option Instant)
    (hrow : publishedRow isNonRaidZone lookupRaid runs p url = some row)
    (htime : ∀ t, time row = some t ↔ IsLatest runs url time t) :
    latestTime (publishNext isNonRaidZone lookupRaid runs p) time url = time row := by
  cases hown : time row with
  | some t =>
    have hlatest := (htime t).mp hown
    refine isLatest_iff.mp ⟨⟨row, storedRow_publishNext.mpr (.inr hrow), hown⟩, ?_⟩
    intro other t' hother ht'
    rcases storedRow_publishNext.mp hother with hold | hnew
    · exact hlatest.latest other t' hold ht'
    · obtain rfl := Option.some.inj (hrow.symm.trans hnew)
      rw [hown] at ht'
      exact (Option.some.inj ht').ge
  | none =>
    cases hlatest : latestTime (publishNext isNonRaidZone lookupRaid runs p) time url with
    | none => rfl
    | some t =>
      have h := isLatest_iff.mpr hlatest
      obtain ⟨other, hother, ht⟩ := h.stored
      have hbefore : IsLatest runs url time t := by
        refine ⟨⟨other, ?_, ht⟩, fun row' t' hrow' ht' => h.latest row' t'
          (storedRow_publishNext.mpr (.inl hrow')) ht'⟩
        rcases storedRow_publishNext.mp hother with hold | hnew
        · exact hold
        · obtain rfl := Option.some.inj (hrow.symm.trans hnew)
          rw [hown] at ht
          cases ht
      rw [(htime t).mpr hbefore] at hown
      cases hown

/-- A row as it is stored: its kill with its parses and rank, and its two times. -/
def storedRow (row : MergedKill) : MythicKill × Instant × Option Instant :=
  (storedKill row, row.collectedAt, row.parsesReadAt)

/-- The entry a publish held for a fight, held again with the kill it was
published from or the row it became, is published as the same row. -/
theorem storedRow_republished (hnewest : OwnNewest isNonRaidZone lookupRaid runs p)
    {entry entry' : KillEntry}
    (hentry : (entriesOf isNonRaidZone lookupRaid runs p).get? url = some entry)
    (hkill : entry'.kill = entry.kill ∨
      entry'.kill = storedKill (rowOf isNonRaidZone lookupRaid runs p entry))
    (hperformance : entry'.performance = entry.performance) :
    storedRow (rowOf isNonRaidZone lookupRaid
        (publishNext isNonRaidZone lookupRaid runs p) p entry') =
      storedRow (rowOf isNonRaidZone lookupRaid runs p
        entry) := by
  set row := rowOf isNonRaidZone lookupRaid runs p entry
    with hrowDef
  have hrow : publishedRow isNonRaidZone lookupRaid runs p url = some row := by
    unfold publishedRow
    rw [find?_published, hentry]
    rfl
  have hurl : entry.kill.fightUrl = url := (publishedRow_mem hrow).2
  have hurl' : entry'.kill.fightUrl = url := by
    rcases hkill with hsame | hstored
    · rw [hsame]
      exact hurl
    · rw [hstored]
      exact hurl
  have hrank : (loadStoredHistoricRanks (publishNext isNonRaidZone lookupRaid runs p)).get? url =
      some ⟨row.historicWorldRank, row.historicRankCheckedAt⟩ := by
    rw [storedHistoricRanks_get?, newestRows_publishNext hnewest, hrow]
    rfl
  have hworld : entry'.kill.historicWorldRank.or row.historicWorldRank =
      row.historicWorldRank := by
    rcases hkill with hsame | hstored
    · rw [hsame, hrowDef]
      exact Option.or_assoc.symm.trans (congrArg (Option.or · _) Option.or_self)
    · rw [hstored]
      exact Option.or_self
  have hchecked : entry'.kill.historicRankCheckedAt.or row.historicRankCheckedAt =
      row.historicRankCheckedAt := by
    rcases hkill with hsame | hstored
    · rw [hsame, hrowDef]
      exact Option.or_assoc.symm.trans (congrArg (Option.or · _) Option.or_self)
    · rw [hstored]
      exact Option.or_self
  have hcollected : (rowOf isNonRaidZone lookupRaid
      (publishNext isNonRaidZone lookupRaid runs p) p entry').collectedAt =
        row.collectedAt := by
    by_cases hincoming : url ∈ incomingFightUrls p.input
    · exact (if_pos (hurl' ▸ hincoming)).trans (if_pos (hurl ▸ hincoming)).symm
    · have hlatest := collectedAt_of_carried (publishedRow_mem hrow).1
        ((publishedRow_mem hrow).2 ▸ hincoming)
      rw [(publishedRow_mem hrow).2] at hlatest
      have hsame := latestTime_publishNext (fun row => some row.collectedAt) hrow
        (fun t => by rw [isLatest_iff, isLatest_iff.mp hlatest])
      refine (if_neg (hurl' ▸ hincoming)).trans ?_
      show ((loadStoredCollectedAt _).get? entry'.kill.fightUrl).getD _ = _
      rw [storedCollectedAt_get?, hurl', hsame]
      rfl
  have hread : (rowOf isNonRaidZone lookupRaid
      (publishNext isNonRaidZone lookupRaid runs p) p entry').parsesReadAt =
        row.parsesReadAt := by
    by_cases hparsed : url ∈ parsedFightUrls p.input p.targeted
    · exact (if_pos (hurl' ▸ hparsed)).trans (if_pos (hurl ▸ hparsed)).symm
    · have hunanswered := parsesReadAt_of_unanswered (publishedRow_mem hrow).1
        ((publishedRow_mem hrow).2 ▸ hparsed)
      rw [(publishedRow_mem hrow).2] at hunanswered
      refine (if_neg (hurl' ▸ hparsed)).trans ?_
      show (loadStoredParsesReadAt _).get? entry'.kill.fightUrl = _
      rw [storedParsesReadAt_get?, hurl']
      exact latestTime_publishNext MergedKill.parsesReadAt hrow hunanswered
  have hstored : storedKill (rowOf isNonRaidZone lookupRaid
      (publishNext isNonRaidZone lookupRaid runs p) p entry') =
        storedKill row := by
    have hranks : (storedFor isNonRaidZone lookupRaid
        (publishNext isNonRaidZone lookupRaid runs p) p).historicRankByFightUrl.get?
          entry'.kill.fightUrl = some ⟨row.historicWorldRank, row.historicRankCheckedAt⟩ := by
      rw [hurl']
      exact hrank
    unfold storedKill rowOf publishKill
    rw [hranks]
    dsimp only [Option.bind_some]
    rw [hworld, hchecked, hperformance]
    rcases hkill with hsame | hstored
    · rw [hsame]
      rfl
    · rw [hstored]
      rfl
  unfold storedRow
  rw [hstored, hcollected, hread]

/-! The copies the second publish carries. -/

variable (isNonRaidZone p) in
/-- What a complete ordinary publish carries of the kills held. -/
def heldTerminal (kill : MythicKill) : Bool :=
  !isNonRaidZone kill.raidName && decide (kill.raidId ∈ p.terminalKillRaidIds)

theorem copyToCarry_of_carriesAll (h : p.CarriesAll) (url : String) :
    carriedCopy isNonRaidZone lookupRaid runs p url =
      (heldCopy runs url).filter (fun kill => !isNonRaidZone kill.raidName) :=
  (if_pos h).trans ((filedBy_newestCopies MythicKill.fightUrl _).find?_filter _ url)

theorem copyToCarry_of_complete (h : ¬ p.CarriesAll) (url : String) :
    carriedCopy isNonRaidZone lookupRaid runs p url =
      ((heldCopy runs url).filter (heldTerminal isNonRaidZone p)).or
        (lastCopy (loadLatestTierSearchKills lookupRaid runs) url) := by
  have hterminal : lastCopy ((raidKills isNonRaidZone runs).filter
      (fun kill => kill.raidId ∈ p.terminalKillRaidIds)) url =
        (heldCopy runs url).filter (heldTerminal isNonRaidZone p) := by
    unfold lastCopy raidKills heldKills
    rw [filter_filter, (filedBy_newestCopies MythicKill.fightUrl _).find?_filter]
    unfold heldCopy heldTerminal
    congr 1
    funext kill
    rw [Bool.and_comm]
  have hsearched : (storedFor isNonRaidZone lookupRaid runs p).tierSearchKills =
      loadLatestTierSearchKills lookupRaid runs := if_pos (complete_of_not_carriesAll h)
  refine (if_neg h).trans ?_
  rw [hsearched]
  exact congrArg (Option.or · _) hterminal

variable (isNonRaidZone lookupRaid runs p) in
/-- The run takes no searched fight out of a raid it is held terminal in. -/
def KeepsTerminalRaids : Prop :=
  ∀ kill ∈ p.input.kills,
    (∃ held ∈ raidKills isNonRaidZone runs,
      held.fightUrl = kill.fightUrl ∧ held.raidId ∈ p.terminalKillRaidIds) →
    (∃ searched ∈ loadLatestTierSearchKills lookupRaid runs,
      searched.fightUrl = kill.fightUrl) →
    kill.raidId ∈ p.terminalKillRaidIds ∧ isNonRaidZone kill.raidName = false

theorem filter_storedKill (keep : MythicKill → Bool) (row : MergedKill)
    (hkeep : keep (storedKill row) = keep row.kill) :
    (some (storedKill row)).filter keep =
      if keep row.kill = true then some (storedKill row) else none := by
  rw [Option.filter_some, hkeep]

section Again
variable (hnewest : OwnNewest isNonRaidZone lookupRaid runs p)
include hnewest

theorem loadLatestTierSearchKills_publishNext (h : ¬ p.CarriesAll) :
    loadLatestTierSearchKills lookupRaid (publishNext isNonRaidZone lookupRaid runs p) =
      loadLatestTierSearchKills lookupRaid runs := by
  have hordinary : p.tierSearchRaidId = none := by
    simpa [Publication.targeted] using (complete_of_not_carriesAll h).2
  have hown : (ownRun isNonRaidZone lookupRaid runs p).tierSearchRaidId = none := hordinary
  unfold loadLatestTierSearchKills
  rw [newestFirst_publishNext hnewest, filterMap_cons_none (by rw [hown]; rfl)]

theorem heldCopy_of_entry {entry : KillEntry}
    (hentry : (entriesOf isNonRaidZone lookupRaid runs p).get? url = some entry) :
    heldCopy (publishNext isNonRaidZone lookupRaid runs p) url =
      some (storedKill (rowOf isNonRaidZone lookupRaid runs p entry)) := by
  rw [heldCopy_publishNext hnewest, publishedRow, find?_published, hentry]
  rfl

theorem copyToCarry_of_left_out
    (hentry : (entriesOf isNonRaidZone lookupRaid runs p).get? url = none)
    (hcopy : carriedCopy isNonRaidZone lookupRaid runs p url =
      none) :
    carriedCopy isNonRaidZone lookupRaid (publishNext isNonRaidZone lookupRaid runs p) p url =
      none := by
  have hheld : heldCopy (publishNext isNonRaidZone lookupRaid runs p) url =
      if p.input.state = .complete then none else heldCopy runs url := by
    rw [heldCopy_publishNext hnewest, publishedRow, find?_published, hentry]
    rfl
  by_cases hall : p.CarriesAll
  · rw [copyToCarry_of_carriesAll hall] at hcopy ⊢
    rw [hheld]
    split
    · rfl
    · exact hcopy
  · rw [copyToCarry_of_complete hall] at hcopy ⊢
    rw [hheld, if_pos (complete_of_not_carriesAll hall).1,
      loadLatestTierSearchKills_publishNext hnewest hall]
    exact (Option.or_eq_none_iff.mp hcopy).2

/-- A carried fight is carried again, from the row it became or from the same copy. -/
theorem copyToCarry_of_carried {kill : MythicKill}
    (hentry : (entriesOf isNonRaidZone lookupRaid runs p).get? url = some ⟨kill, kill.performance⟩)
    (hcopy : carriedCopy isNonRaidZone lookupRaid runs p url =
      some kill) :
    ∃ kill', carriedCopy isNonRaidZone lookupRaid
        (publishNext isNonRaidZone lookupRaid runs p) p url = some kill' ∧
      (kill' = kill ∨ kill' = storedKill (rowOf isNonRaidZone lookupRaid runs p
          ⟨kill, kill.performance⟩)) := by
  have hheld := heldCopy_of_entry hnewest hentry
  by_cases hall : p.CarriesAll
  · rw [copyToCarry_of_carriesAll hall] at hcopy ⊢
    have hzone := (Option.filter_eq_some_iff.mp hcopy).2
    rw [hheld, filter_storedKill _ _ rfl]
    exact ⟨_, if_pos hzone, .inr rfl⟩
  · rw [copyToCarry_of_complete hall] at hcopy ⊢
    rw [hheld, filter_storedKill _ _ rfl, loadLatestTierSearchKills_publishNext hnewest hall]
    split
    · exact ⟨_, rfl, .inr rfl⟩
    · next hnot =>
      rcases Option.or_eq_some_iff.mp hcopy with hterminal | ⟨-, hsearched⟩
      · exact absurd (Option.filter_eq_some_iff.mp hterminal).2 hnot
      · exact ⟨kill, hsearched, .inl rfl⟩

variable (hkeeps : p.CarriesAll ∨ KeepsTerminalRaids isNonRaidZone lookupRaid runs p)
include hkeeps

/-- What a fight's findings are merged over the second time is what they came
to the first time, or what they were merged over then. -/
theorem prior_republished {last : MythicKill}
    (hlast : last ∈ p.input.kills) (hurl : last.fightUrl = url) {performance : PerformanceValues}
    (hentry : (entriesOf isNonRaidZone lookupRaid runs p).get? url = some ⟨last, performance⟩) :
    priorPerformance isNonRaidZone lookupRaid (publishNext isNonRaidZone lookupRaid runs p) p url =
        some performance ∨
      priorPerformance isNonRaidZone lookupRaid (publishNext isNonRaidZone lookupRaid runs p) p
        url = priorPerformance isNonRaidZone lookupRaid runs p url := by
  have hheld := heldCopy_of_entry hnewest hentry
  have hnewestPerformance : (loadStoredPerformanceByFightUrl
      (publishNext isNonRaidZone lookupRaid runs p)).get? url = some performance := by
    rw [storedPerformance_get?, newestRows_publishNext hnewest, publishedRow, find?_published,
      hentry]
    rfl
  unfold priorPerformance
  rw [hnewestPerformance]
  by_cases hall : p.CarriesAll
  · left
    rw [copyToCarry_of_carriesAll hall, hheld, filter_storedKill _ _ rfl]
    split <;> rfl
  · rw [copyToCarry_of_complete hall, copyToCarry_of_complete hall, hheld,
      filter_storedKill _ _ rfl, loadLatestTierSearchKills_publishNext hnewest hall]
    split
    · exact .inl rfl
    · next hopen =>
      cases hsearched : lastCopy (loadLatestTierSearchKills lookupRaid runs) url with
      | none => exact .inl rfl
      | some searched =>
        right
        have hnone : (heldCopy runs url).filter (heldTerminal isNonRaidZone p) = none := by
          by_contra hsome
          obtain ⟨held, hheldEq⟩ := Option.ne_none_iff_exists'.mp hsome
          obtain ⟨hget, hterminal⟩ := Option.filter_eq_some_iff.mp hheldEq
          obtain ⟨hzone, hraid⟩ := Bool.and_eq_true_iff.mp hterminal
          have hheldUrl := filedBy_newestCopies MythicKill.fightUrl _ _ _ hget
          have hmem : held ∈ raidKills isNonRaidZone runs :=
            mem_filter.mpr ⟨(OrderedMap.mem_values_iff _ _).mpr ⟨url, hget⟩, hzone⟩
          have hback := (hkeeps.resolve_left hall) last hlast
            ⟨held, hmem, hheldUrl.trans hurl.symm, of_decide_eq_true hraid⟩
            ⟨searched, mem_reverse.mp (mem_of_find?_eq_some hsearched),
              (lastCopy_fightUrl hsearched).trans hurl.symm⟩
          apply hopen
          show heldTerminal isNonRaidZone p last = true
          unfold heldTerminal
          simp [hback.1, hback.2]
        rw [hnone]
        rfl

/-- What the second publish holds of a fight, against what the first one did. -/
theorem entry_republished (url : String) :
    match (entriesOf isNonRaidZone lookupRaid runs p).get? url with
    | none => (entriesOf isNonRaidZone lookupRaid
        (publishNext isNonRaidZone lookupRaid runs p) p).get? url = none
    | some entry => ∃ entry', (entriesOf isNonRaidZone lookupRaid
          (publishNext isNonRaidZone lookupRaid runs p) p).get? url = some entry' ∧
        (entry'.kill = entry.kill ∨
          entry'.kill = storedKill (rowOf isNonRaidZone lookupRaid runs p entry)) ∧
        entry'.performance = entry.performance := by
  cases hentry : (entriesOf isNonRaidZone lookupRaid runs p).get? url with
  | none =>
    have hfirst := hentry
    dsimp only
    rw [entriesOf_get?] at hfirst ⊢
    cases hlast : (p.input.kills.filter (fun kill => kill.fightUrl = url)).getLast? with
    | none =>
      rw [hlast] at hfirst
      rw [copyToCarry_of_left_out hnewest hentry (Option.map_eq_none_iff.mp hfirst)]
      rfl
    | some last =>
      exfalso
      rw [hlast] at hfirst
      have hincoming : url ∈ incomingFightUrls p.input := by
        have hmem := mem_filter.mp (mem_of_getLast? hlast)
        exact mem_map.mpr ⟨last, hmem.1, by simpa using hmem.2⟩
      have hkey := (mem_keys_mergedKillEntries (storedFor isNonRaidZone lookupRaid runs p)
        p.input p.targeted url).mpr (.inr hincoming)
      obtain ⟨entry, hsome⟩ := (OrderedMap.mem_keys_iff _ _).mp hkey
      rw [hentry] at hsome
      cases hsome
  | some entry =>
    have hfirst := hentry
    dsimp only
    rw [entriesOf_get?] at hfirst ⊢
    cases hlast : (p.input.kills.filter (fun kill => kill.fightUrl = url)).getLast? with
    | none =>
      rw [hlast] at hfirst
      obtain ⟨kill, hcopy, rfl⟩ := Option.map_eq_some_iff.mp hfirst
      obtain ⟨kill', hcopy', hkill'⟩ := copyToCarry_of_carried hnewest hentry hcopy
      refine ⟨⟨kill', kill'.performance⟩, by rw [hcopy']; rfl, hkill', ?_⟩
      rcases hkill' with rfl | rfl
      · rfl
      · rfl
    | some last =>
      rw [hlast] at hfirst
      obtain ⟨performance, hmerged, rfl⟩ := Option.map_eq_some_iff.mp hfirst
      have hmem := mem_filter.mp (mem_of_getLast? hlast)
      have hprior := prior_republished hnewest hkeeps hmem.1 (by simpa using hmem.2) hentry
      refine ⟨⟨last, performance⟩, ?_, .inl rfl, rfl⟩
      dsimp only
      rw [Option.map_eq_some_iff]
      refine ⟨performance, ?_, rfl⟩
      rcases hprior with hsame | hbefore
      · refine (congrArg (mergeOver · _) hsame).trans ?_
        rw [← hmerged]
        exact mergeOver_idem _ _
      · exact (congrArg (mergeOver · _) hbefore).trans hmerged

theorem kills_republished (row : MythicKill × Instant × Option Instant) :
    row ∈ (mergedFor isNonRaidZone lookupRaid (publishNext isNonRaidZone lookupRaid runs p)
        p).kills.map storedRow ↔
      row ∈ (mergedFor isNonRaidZone lookupRaid runs p).kills.map storedRow := by
  have hiff : ∀ (runs : List PublishedRun),
      row ∈ (mergedFor isNonRaidZone lookupRaid runs p).kills.map storedRow ↔
        ∃ url entry, (entriesOf isNonRaidZone lookupRaid runs p).get? url = some entry ∧
          storedRow (rowOf isNonRaidZone lookupRaid runs p
            entry) = row := by
    intro runs
    rw [mem_map]
    constructor
    · rintro ⟨published, hpublished, heq⟩
      obtain ⟨entry, hentry, rfl⟩ := (mem_published_kills_iff _ _ _ _).mp hpublished
      exact ⟨_, entry, hentry, heq⟩
    · rintro ⟨url, entry, hentry, heq⟩
      have hfiled := filedBy_mergedKillEntries (storedFor isNonRaidZone lookupRaid runs p)
        p.input p.targeted _ _ hentry
      refine ⟨_, (mem_published_kills_iff _ _ _ _).mpr ⟨entry, ?_, rfl⟩, heq⟩
      have hurl : entry.kill.fightUrl = url := hfiled
      show (entriesOf isNonRaidZone lookupRaid runs p).get? entry.kill.fightUrl = some entry
      rw [hurl]
      exact hentry
  rw [hiff, hiff]
  constructor
  · rintro ⟨url, entry', hentry', heq⟩
    have hback := entry_republished hnewest hkeeps url
    cases hentry : (entriesOf isNonRaidZone lookupRaid runs p).get? url with
    | none =>
      rw [hentry] at hback
      rw [hback] at hentry'
      cases hentry'
    | some entry =>
      rw [hentry] at hback
      obtain ⟨other, hother, hkill, hperformance⟩ := hback
      obtain rfl := Option.some.inj (hentry'.symm.trans hother)
      refine ⟨url, entry, hentry, ?_⟩
      rw [← storedRow_republished hnewest hentry hkill hperformance]
      exact heq
  · rintro ⟨url, entry, hentry, heq⟩
    have hback := entry_republished hnewest hkeeps url
    rw [hentry] at hback
    obtain ⟨entry', hentry', hkill, hperformance⟩ := hback
    refine ⟨url, entry', hentry', ?_⟩
    rw [storedRow_republished hnewest hentry hkill hperformance]
    exact heq

end Again

/-! Wipes. -/

def heldWipe (runs : List PublishedRun) (url : String) : Option MythicWipe :=
  (newestCopies MythicWipe.fightUrl
    ((positiveWindow (newestFirst runs)).flatMap PublishedRun.wipes)).get? url

variable (isNonRaidZone p) in
/-- What a publish carries of the wipes held. -/
def carriesWipe (wipe : MythicWipe) : Bool :=
  !isNonRaidZone wipe.raidName &&
    (decide (p.input.state = .partial_ ∨ p.targeted = true) ||
      decide (wipe.raidId ∈ p.terminalKillRaidIds))

theorem previousWipes_eq :
    previousWipes (storedFor isNonRaidZone lookupRaid runs p) p.input p.targeted =
      (heldWipes runs).filter (carriesWipe isNonRaidZone p) := by
  by_cases hall : p.CarriesAll
  · rw [previousWipes_of_carriesAll hall]
    apply filter_congr
    intro wipe _
    unfold carriesWipe
    rw [decide_eq_true (show p.input.state = .partial_ ∨ p.targeted = true from hall),
      Bool.true_or, Bool.and_true]
  · refine (if_neg hall).trans ?_
    show ((heldWipes runs).filter _).filter _ = _
    rw [filter_filter]
    apply filter_congr
    intro wipe _
    unfold carriesWipe
    rw [decide_eq_false (show ¬ (p.input.state = .partial_ ∨ p.targeted = true) from hall),
      Bool.false_or, Bool.and_comm]
    rfl

variable (isNonRaidZone lookupRaid runs p) in
theorem mergedWipes_get? (url : String) :
    (mergedWipes (storedFor isNonRaidZone lookupRaid runs p) p.input p.targeted).get? url =
      (p.input.wipes.reverse.find? (fun wipe => wipe.fightUrl = url)).or
        ((heldWipe runs url).filter (carriesWipe isNonRaidZone p)) := by
  unfold mergedWipes heldWipe
  rw [OrderedMap.get?_ofList_map, reverse_append, find?_append, previousWipes_eq]
  unfold heldWipes
  rw [(filedBy_newestCopies MythicWipe.fightUrl _).find?_filter]

theorem heldWipe_publishNext (hnewest : OwnNewest isNonRaidZone lookupRaid runs p)
    (url : String) :
    heldWipe (publishNext isNonRaidZone lookupRaid runs p) url =
      ((mergedWipes (storedFor isNonRaidZone lookupRaid runs p) p.input p.targeted).get?
        url).or (if p.input.state = .complete then none else heldWipe runs url) := by
  have hown : (ownRun isNonRaidZone lookupRaid runs p).wipes.find?
      (fun wipe => wipe.fightUrl = url) =
        (mergedWipes (storedFor isNonRaidZone lookupRaid runs p) p.input p.targeted).get? url :=
    (filedBy_mergedWipes _ _ _).find?_front url
  unfold heldWipe
  rw [newestCopies_publishNext hnewest, hown]

theorem wipes_republished (hnewest : OwnNewest isNonRaidZone lookupRaid runs p)
    (wipe : MythicWipe) :
    wipe ∈ (mergedFor isNonRaidZone lookupRaid (publishNext isNonRaidZone lookupRaid runs p)
        p).wipes ↔ wipe ∈ (mergedFor isNonRaidZone lookupRaid runs p).wipes := by
  have hsame : ∀ url, (mergedWipes (storedFor isNonRaidZone lookupRaid
      (publishNext isNonRaidZone lookupRaid runs p) p) p.input p.targeted).get? url =
        (mergedWipes (storedFor isNonRaidZone lookupRaid runs p) p.input p.targeted).get?
          url := by
    intro url
    have hfirst := mergedWipes_get? isNonRaidZone lookupRaid runs p url
    rw [mergedWipes_get?, heldWipe_publishNext hnewest, hfirst]
    cases p.input.wipes.reverse.find? (fun wipe => wipe.fightUrl = url) with
    | some incoming => rfl
    | none =>
      rw [Option.none_or, Option.none_or]
      cases hcarried : (heldWipe runs url).filter (carriesWipe isNonRaidZone p) with
      | some held =>
        rw [Option.some_or, Option.filter_some,
          if_pos (Option.filter_eq_some_iff.mp hcarried).2]
      | none =>
        rw [Option.none_or]
        split
        · rfl
        · exact hcarried
  have hmem : ∀ runs : List PublishedRun,
      wipe ∈ (mergedFor isNonRaidZone lookupRaid runs p).wipes ↔
        ∃ url, (mergedWipes (storedFor isNonRaidZone lookupRaid runs p) p.input
          p.targeted).get? url = some wipe :=
    fun runs => OrderedMap.mem_values_iff _ _
  rw [hmem, hmem]
  simp only [hsame]

/-! Tier bests. -/

theorem foldl_tierBestOver (input : EvidencePublishInput) (bests : List TierBestParse)
    (held : Option StoredTierBest) :
    bests.foldl (fun held best => some (tierBestOver input held best)) held =
      match bests.getLast? with
      | none => held
      | some last =>
        (mergeOver (held.map StoredTierBest.performance)
          (bests.map TierBestParse.performance)).map
            (fun performance => ⟨last, performance, input.completedAt⟩) := by
  induction bests generalizing held with
  | nil => rfl
  | cons best rest ih =>
    rw [foldl_cons, ih]
    cases hlast : rest.getLast? with
    | none =>
      obtain rfl := getLast?_eq_none_iff.mp hlast
      cases held <;> rfl
    | some last =>
      rw [getLast?_cons, hlast]
      cases held <;> rfl

theorem storedTierBests_publishNext (hnewest : OwnNewest isNonRaidZone lookupRaid runs p)
    (key : String × String) :
    (loadStoredTierBestParses (publishNext isNonRaidZone lookupRaid runs p)).get? key =
      ((mergedTierBests isNonRaidZone lookupRaid runs p).get? key).or
        ((loadStoredTierBestParses runs).get? key) := by
  have hown : (ownRun isNonRaidZone lookupRaid runs p).tierBests.find?
      (fun best => tierBestKey best = key) =
        (mergedTierBests isNonRaidZone lookupRaid runs p).get? key :=
    filedBy_mergedTierBests.find?_front key
  rw [storedTierBests_get?, storedTierBests_get?, newestFirst_publishNext hnewest,
    flatMap_cons, find?_append, hown]

theorem tierBests_republished (hnewest : OwnNewest isNonRaidZone lookupRaid runs p)
    (best : StoredTierBest) :
    best ∈ (mergedFor isNonRaidZone lookupRaid (publishNext isNonRaidZone lookupRaid runs p)
        p).tierBests ↔ best ∈ (mergedFor isNonRaidZone lookupRaid runs p).tierBests := by
  have hsame : ∀ key, (mergedTierBests isNonRaidZone lookupRaid
      (publishNext isNonRaidZone lookupRaid runs p) p).get? key =
        (mergedTierBests isNonRaidZone lookupRaid runs p).get? key := by
    intro key
    have hfirst := mergedTierBests_get? isNonRaidZone lookupRaid runs p key
    rw [foldl_tierBestOver] at hfirst
    rw [mergedTierBests_get?, storedTierBests_publishNext hnewest, foldl_tierBestOver, hfirst]
    cases (p.input.tierBests.filter (fun best => (best.raidId, best.bossId) = key)).getLast? with
    | none => exact Option.or_self
    | some last =>
      dsimp only
      generalize hheld : (loadStoredTierBestParses runs).get? key = held
      generalize (p.input.tierBests.filter
        (fun best => (best.raidId, best.bossId) = key)).map TierBestParse.performance = incoming
      have hidem := mergeOver_idem (held.map StoredTierBest.performance) incoming
      cases hmerged : mergeOver (held.map StoredTierBest.performance) incoming with
      | none =>
        rw [Option.map_none, Option.none_or]
        exact congrArg _ hmerged
      | some performance =>
        rw [hmerged] at hidem
        exact congrArg _ hidem
  rw [mergedFor_tierBests, mergedFor_tierBests, OrderedMap.mem_values_iff,
    OrderedMap.mem_values_iff]
  simp only [hsame]

theorem carriesAll_keeps_wipe_as_held (h : p.CarriesAll) {wipe : MythicWipe}
    (hwipe : wipe ∈ heldWipes runs) (hzone : isNonRaidZone wipe.raidName = false)
    (hnew : wipe.fightUrl ∉ p.input.wipes.map MythicWipe.fightUrl) :
    wipe ∈ (mergedFor isNonRaidZone lookupRaid runs p).wipes := by
  have hheld : heldWipe runs wipe.fightUrl = some wipe :=
    (filedBy_newestCopies MythicWipe.fightUrl _).get?_of_mem hwipe
  have hincoming : p.input.wipes.reverse.find?
      (fun other => other.fightUrl = wipe.fightUrl) = none := by
    refine find?_eq_none.mpr fun other hother hurl => hnew ?_
    exact mem_map.mpr ⟨other, mem_reverse.mp hother, by simpa using hurl⟩
  have hcarries : carriesWipe isNonRaidZone p wipe = true := by
    unfold carriesWipe
    rw [hzone, decide_eq_true (show p.input.state = .partial_ ∨ p.targeted = true from h)]
    rfl
  refine (OrderedMap.mem_values_iff _ _).mpr ⟨wipe.fightUrl, ?_⟩
  rw [mergedWipes_get?, hincoming, hheld, Option.none_or, Option.filter_some, if_pos hcarries]

variable (isNonRaidZone lookupRaid runs p) in
/-- What one publish keeps, writes and stamps, and what it writes again when it
is repeated as the newest one. -/
structure PublishLaw : Prop where
  keeps_kills : p.CarriesAll → ∀ kill ∈ heldKills runs, isNonRaidZone kill.raidName = false →
    ∃ row ∈ (mergedFor isNonRaidZone lookupRaid runs p).kills, row.fightUrl = kill.fightUrl ∧
      (kill.fightUrl ∉ incomingFightUrls p.input → row.kill = kill ∧ storedKill row = kill)
  keeps_wipes : p.CarriesAll → ∀ wipe ∈ heldWipes runs, isNonRaidZone wipe.raidName = false →
    ∃ wipe' ∈ (mergedFor isNonRaidZone lookupRaid runs p).wipes,
      wipe'.fightUrl = wipe.fightUrl ∧
      (wipe.fightUrl ∉ p.input.wipes.map MythicWipe.fightUrl → wipe' = wipe)
  complete_kills : ¬ p.CarriesAll → ∀ url,
    (url ∈ (mergedFor isNonRaidZone lookupRaid runs p).kills.map MergedKill.fightUrl ↔
      url ∈ incomingFightUrls p.input ∨
      (∃ kill ∈ loadLatestTierSearchKills lookupRaid runs, kill.fightUrl = url) ∨
      ∃ kill ∈ raidKills isNonRaidZone runs,
        kill.fightUrl = url ∧ kill.raidId ∈ p.terminalKillRaidIds)
  complete_wipes : ¬ p.CarriesAll → ∀ url,
    (url ∈ (mergedFor isNonRaidZone lookupRaid runs p).wipes.map MythicWipe.fightUrl ↔
      url ∈ p.input.wipes.map MythicWipe.fightUrl ∨
      ∃ wipe ∈ raidWipes isNonRaidZone runs,
        wipe.fightUrl = url ∧ wipe.raidId ∈ p.terminalKillRaidIds)
  nodup_kills :
    ((mergedFor isNonRaidZone lookupRaid runs p).kills.map MergedKill.fightUrl).Nodup
  nodup_wipes :
    ((mergedFor isNonRaidZone lookupRaid runs p).wipes.map MythicWipe.fightUrl).Nodup
  keeps_tierBests : ∀ run ∈ runs, ∀ best ∈ run.tierBests,
    ∃ best' ∈ (mergedFor isNonRaidZone lookupRaid runs p).tierBests,
      tierBestKey best' = tierBestKey best
  carried : ∀ row ∈ (mergedFor isNonRaidZone lookupRaid runs p).kills,
    row.fightUrl ∉ incomingFightUrls p.input → ∃ stored, StoredRow runs row.fightUrl stored ∧
      row.kill = storedKill stored ∧ row.performance = stored.performance
  collectedAt : ∀ row ∈ (mergedFor isNonRaidZone lookupRaid runs p).kills,
    row.fightUrl ∉ incomingFightUrls p.input →
      IsLatest runs row.fightUrl (fun row => some row.collectedAt) row.collectedAt
  tierBest_collectedAt : ∀ best ∈ (mergedFor isNonRaidZone lookupRaid runs p).tierBests,
    (∀ tier ∈ p.input.tierBests, (tier.raidId, tier.bossId) ≠ tierBestKey best) →
      NewestTierBest runs best
  parsesReadAt : ∀ row ∈ (mergedFor isNonRaidZone lookupRaid runs p).kills,
    row.fightUrl ∉ parsedFightUrls p.input p.targeted →
      ∀ t, row.parsesReadAt = some t ↔ IsLatest runs row.fightUrl MergedKill.parsesReadAt t
  republished : OwnNewest isNonRaidZone lookupRaid runs p →
    p.CarriesAll ∨ KeepsTerminalRaids isNonRaidZone lookupRaid runs p →
      let again := mergedFor isNonRaidZone lookupRaid
        (publishNext isNonRaidZone lookupRaid runs p) p
      (∀ row, row ∈ again.kills.map storedRow ↔
        row ∈ (mergedFor isNonRaidZone lookupRaid runs p).kills.map storedRow) ∧
      (∀ wipe, wipe ∈ again.wipes ↔
        wipe ∈ (mergedFor isNonRaidZone lookupRaid runs p).wipes) ∧
      ∀ best, best ∈ again.tierBests ↔
        best ∈ (mergedFor isNonRaidZone lookupRaid runs p).tierBests

/-- Whatever was published before, the next publish obeys the law. -/
theorem publishLaw_publishAll (isNonRaidZone : String → Bool)
    (lookupRaid : MythicKill → Option String) (history : List Publication) (p : Publication) :
    PublishLaw isNonRaidZone lookupRaid (publishAll isNonRaidZone lookupRaid history) p where
  keeps_kills h _ hkill hzone := carriesAll_keeps_kill h hkill hzone
  keeps_wipes h wipe hwipe hzone := by
    by_cases hnew : wipe.fightUrl ∈ p.input.wipes.map MythicWipe.fightUrl
    · obtain ⟨wipe', hmem, hurl⟩ := carriesAll_keeps_wipe h hwipe hzone
      exact ⟨wipe', hmem, hurl, fun hout => absurd hnew hout⟩
    · exact ⟨wipe, carriesAll_keeps_wipe_as_held h hwipe hzone hnew, rfl, fun _ => rfl⟩
  complete_kills h url := complete_kill_urls h url
  complete_wipes h url := complete_wipe_urls h url
  nodup_kills := nodup_published_kill_urls _ _ _
  nodup_wipes := nodup_published_wipe_urls _ _ _
  keeps_tierBests _ hrun _ hbest := keeps_tierBest hrun hbest
  carried _ hrow hurl := stored_of_carried hrow hurl
  collectedAt _ hrow hurl := collectedAt_of_carried hrow hurl
  tierBest_collectedAt _ hbest hunread := tierBest_of_unread hbest hunread
  parsesReadAt _ hrow hurl t := parsesReadAt_of_unanswered hrow hurl t
  republished hnewest hkeeps :=
    ⟨kills_republished hnewest hkeeps, wipes_republished hnewest, tierBests_republished hnewest⟩

/-! A kill stored in a dungeon zone. -/

def dungeonZone (zoneName : String) : Bool := zoneName = "Mythic+ Season 1"

def dungeonKill : MythicKill where
  raidId := "zone-39"
  raidName := "Mythic+ Season 1"
  bossId := "encounter-1"
  bossName := "Boss"
  journalBossId := none
  killedAt := 1
  fightUrl := "fight"
  historicWorldRank := none
  historicRankCheckedAt := none
  performance := ⟨none, .unavailable, .unavailable, .unavailable⟩

def publication (id : ℕ) (state : PublishState) (kills : List MythicKill) : Publication where
  id := id
  tierSearchRaidId := none
  terminalKillRaidIds := ∅
  input :=
    { state := state
      completedAt := id
      kills := kills
      wipes := []
      tierBests := []
      parsedFightUrls := none }

/-- A partial publish drops the dungeon kill the run before it stored. -/
theorem partial_publish_drops_dungeonKill :
    (publication 2 .partial_ []).CarriesAll ∧
    dungeonKill ∈ heldKills (publishAll dungeonZone (fun _ => none)
      [publication 1 .complete [dungeonKill]]) ∧
    dungeonKill.fightUrl ∉ (mergedFor dungeonZone (fun _ => none)
      (publishAll dungeonZone (fun _ => none) [publication 1 .complete [dungeonKill]])
        (publication 2 .partial_ [])).kills.map MergedKill.fightUrl := by
  refine ⟨.inl rfl, by decide, by decide⟩

end SlashWho.RepublishedEvidence
