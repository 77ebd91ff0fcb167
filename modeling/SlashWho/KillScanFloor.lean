import SlashWho.HistoryScan
import SlashWho.RepublishedEvidence

/-!
The instant a history scan may stop at. The floor is derived from the stored
kills and wipes and the raids terminal for kills; the scan stops at the first
page wholly below it; and a complete publish then carries what the terminal
rule covers. Below the floor the three agree: everything held there is in a
terminal raid, so it is carried without being read again.
-/

namespace SlashWho.KillScanFloor

open List EvidenceMerge EvidenceStore EvidencePublishes HistoryScan

inductive TerminalDomain
  | kills
  | parses
  | tierBests
  deriving DecidableEq

structure TerminalTier where
  raidId : String
  domain : TerminalDomain

def terminalKillRaids (terminal : List TerminalTier) : Finset String :=
  ((terminal.filter (fun tier => tier.domain = .kills)).map TerminalTier.raidId).toFinset

/-- A stored kill or wipe, as the floor weighs it. -/
structure HeldEvidence where
  raidId : String
  raidName : String
  date : Instant

def heldKill (kill : MythicKill) : HeldEvidence := ⟨kill.raidId, kill.raidName, kill.killedAt⟩

def heldWipe (wipe : MythicWipe) : HeldEvidence := ⟨wipe.raidId, wipe.raidName, wipe.attemptedAt⟩

def oldestDate (first : Instant) (held : List HeldEvidence) : Instant :=
  held.foldl (fun oldest evidence => if evidence.date < oldest then evidence.date else oldest) first

def newestDate (first : Instant) (held : List HeldEvidence) : Instant :=
  held.foldl (fun newest evidence => if evidence.date > newest then evidence.date else newest) first

/-- Stored kills and wipes, less the rows in a zone known not to be a raid. -/
def heldEvidence (isNonRaidZone : String → Bool) (kills : List MythicKill)
    (wipes : List MythicWipe) : List HeldEvidence :=
  (kills.map heldKill ++ wipes.map heldWipe).filter
    (fun evidence => !isNonRaidZone evidence.raidName)

def outstanding (terminal : List TerminalTier) (held : List HeldEvidence) : List HeldEvidence :=
  held.filter (fun evidence => evidence.raidId ∉ terminalKillRaids terminal)

def killScanFloorFrom (isNonRaidZone : String → Bool) (terminal : List TerminalTier)
    (kills : List MythicKill) (wipes : List MythicWipe) : Option Instant :=
  if terminalKillRaids terminal = ∅ ∨ kills = [] then none
  else
    match heldEvidence isNonRaidZone kills wipes with
    | [] => none
    | first :: rest =>
      match outstanding terminal (first :: rest) with
      | oldest :: others => some (oldestDate oldest.date (oldest :: others))
      | [] => some (newestDate first.date (first :: rest))

theorem oldestDate_le (held : List HeldEvidence) (first : Instant) :
    oldestDate first held ≤ first ∧ ∀ evidence ∈ held, oldestDate first held ≤ evidence.date := by
  induction held generalizing first with
  | nil => simp [oldestDate]
  | cons evidence rest ih =>
    have hrest := ih (if evidence.date < first then evidence.date else first)
    have heq : oldestDate first (evidence :: rest) =
        oldestDate (if evidence.date < first then evidence.date else first) rest := rfl
    rw [heq]
    have hmin : (if evidence.date < first then evidence.date else first) ≤ first ∧
        (if evidence.date < first then evidence.date else first) ≤ evidence.date := by
      split
      · next hlt => exact ⟨hlt.le, le_refl _⟩
      · next hge => exact ⟨le_refl _, not_lt.mp hge⟩
    refine ⟨hrest.1.trans hmin.1, ?_⟩
    intro e he
    rcases mem_cons.mp he with rfl | he
    · exact hrest.1.trans hmin.2
    · exact hrest.2 e he

section Floor
variable (isNonRaidZone : String → Bool) (terminal : List TerminalTier)

theorem terminal_of_before_floor {kills : List MythicKill} {wipes : List MythicWipe}
    {floor : Instant} (h : killScanFloorFrom isNonRaidZone terminal kills wipes = some floor)
    {evidence : HeldEvidence} (hheld : evidence ∈ kills.map heldKill ++ wipes.map heldWipe)
    (hraid : isNonRaidZone evidence.raidName = false) (hbefore : evidence.date < floor) :
    evidence.raidId ∈ terminalKillRaids terminal := by
  have hin : evidence ∈ heldEvidence isNonRaidZone kills wipes :=
    mem_filter.mpr ⟨hheld, by simp [hraid]⟩
  by_contra hopen
  unfold killScanFloorFrom at h
  split at h
  · simp at h
  cases hfirst : heldEvidence isNonRaidZone kills wipes with
  | nil => simp [hfirst] at hin
  | cons first rest =>
    have hout : evidence ∈ outstanding terminal (first :: rest) :=
      mem_filter.mpr ⟨hfirst ▸ hin, by simpa using hopen⟩
    cases hrest : outstanding terminal (first :: rest) with
    | nil => simp [hrest] at hout
    | cons oldest others =>
      rw [hrest] at hout
      simp only [hfirst, hrest, Option.some.injEq] at h
      have hle := (oldestDate_le (oldest :: others) oldest.date).2 evidence hout
      rw [h] at hle
      exact absurd hbefore (not_lt.mpr hle)

end Floor

section Carry
variable (isNonRaidZone : String → Bool) (lookupRaid : MythicKill → Option String)
  (terminalRaids : Finset String) (runs : List PublishedRun)

variable {snapshot : PublishedRun}

theorem nodup_storedKills (run : PublishedRun) :
    (run.storedKills.map MythicKill.fightUrl).Nodup := by
  have h := run.nodup_kills
  unfold PublishedRun.storedKills
  rw [map_map]
  exact h

/-- What a complete ordinary publish of an input writes over the stored runs. -/
def completePublish (input : EvidencePublishInput) : MergedEvidence :=
  mergePublishedEvidence
    (storedEvidenceForMerge isNonRaidZone lookupRaid terminalRaids runs .complete false)
    { input with state := .complete } false

def completePublication (input : EvidencePublishInput) : Publication where
  id := 0
  tierSearchRaidId := none
  terminalKillRaidIds := terminalRaids
  input := { input with state := .complete }

theorem not_carriesAll (input : EvidencePublishInput) :
    ¬ (completePublication terminalRaids input).CarriesAll := by
  rintro (h | h) <;> cases h

/-- The fight is published, and as it was held, parses and rank included, unless
the run came back with it. -/
def CarriesKill (published : MergedEvidence) (input : EvidencePublishInput)
    (kill : MythicKill) : Prop :=
  ∃ row ∈ published.kills, row.fightUrl = kill.fightUrl ∧
    (kill.fightUrl ∉ incomingFightUrls input → row.kill = kill ∧ storedKill row = kill)

def CarriesWipe (published : MergedEvidence) (input : EvidencePublishInput)
    (wipe : MythicWipe) : Prop :=
  ∃ row ∈ published.wipes, row.fightUrl = wipe.fightUrl ∧
    (wipe.fightUrl ∉ input.wipes.map MythicWipe.fightUrl → row = wipe)

theorem completePublish_carries_kill (h : loadCompletedEvidence runs = some snapshot)
    {kill : MythicKill} (hkill : kill ∈ snapshot.storedKills)
    (hraid : isNonRaidZone kill.raidName = false) (hterminal : kill.raidId ∈ terminalRaids)
    (input : EvidencePublishInput) :
    CarriesKill (completePublish isNonRaidZone lookupRaid terminalRaids runs input) input kill := by
  have hall := not_carriesAll terminalRaids input
  have hheld : kill ∈ heldKills runs :=
    newestCopy_of_snapshot runs h (nodup_storedKills snapshot) hkill
  have hpositive : kill ∈ raidKills isNonRaidZone runs :=
    mem_filter.mpr ⟨hheld, by simp [hraid]⟩
  have hin : kill.fightUrl ∈ (mergedFor isNonRaidZone lookupRaid runs
      (completePublication terminalRaids input)).kills.map MergedKill.fightUrl :=
    (complete_kill_urls hall kill.fightUrl).mpr
      (.inr (.inr ⟨kill, hpositive, rfl, hterminal⟩))
  obtain ⟨row, hrow, hurl⟩ := exists_row_of_url hin
  refine ⟨row, hrow, hurl, fun hout => ?_⟩
  obtain ⟨copy, hcopy, rfl⟩ := row_of_carried hrow (hurl ▸ hout)
  have hget : RepublishedEvidence.heldCopy runs kill.fightUrl = some kill :=
    (filedBy_newestCopies MythicKill.fightUrl _).get?_of_mem hheld
  have hkeeps : RepublishedEvidence.heldTerminal isNonRaidZone
      (completePublication terminalRaids input) kill = true :=
    Bool.and_eq_true_iff.mpr ⟨by rw [hraid]; rfl, decide_eq_true hterminal⟩
  rw [hurl] at hcopy
  have hsame := (RepublishedEvidence.copyToCarry_of_complete hall _).symm.trans hcopy
  rw [hget, Option.filter_some, if_pos hkeeps, Option.some_or, Option.some_inj] at hsame
  subst hsame
  exact ⟨rfl, storedKill_of_held hheld⟩

theorem completePublish_carries_wipe (h : loadCompletedEvidence runs = some snapshot)
    {wipe : MythicWipe} (hwipe : wipe ∈ snapshot.wipes)
    (hraid : isNonRaidZone wipe.raidName = false) (hterminal : wipe.raidId ∈ terminalRaids)
    (input : EvidencePublishInput) :
    CarriesWipe (completePublish isNonRaidZone lookupRaid terminalRaids runs input) input wipe := by
  have hheld : wipe ∈ heldWipes runs :=
    newestCopy_of_snapshot runs h snapshot.nodup_wipes hwipe
  have hpositive : wipe ∈ raidWipes isNonRaidZone runs :=
    mem_filter.mpr ⟨hheld, by simp [hraid]⟩
  have hin : wipe.fightUrl ∈ (mergedFor isNonRaidZone lookupRaid runs
      (completePublication terminalRaids input)).wipes.map MythicWipe.fightUrl :=
    (complete_wipe_urls (not_carriesAll terminalRaids input) wipe.fightUrl).mpr
      (.inr ⟨wipe, hpositive, rfl, hterminal⟩)
  obtain ⟨row, hrow, hurl⟩ := mem_map.mp hin
  refine ⟨row, hrow, hurl, fun hout => ?_⟩
  have hnew : input.wipes.reverse.find? (fun other => other.fightUrl = wipe.fightUrl) = none := by
    refine find?_eq_none.mpr fun other hother hsame => hout ?_
    exact mem_map.mpr ⟨other, mem_reverse.mp hother, by simpa using hsame⟩
  have hheldWipe : RepublishedEvidence.heldWipe runs wipe.fightUrl = some wipe :=
    (filedBy_newestCopies MythicWipe.fightUrl _).get?_of_mem hheld
  have hcarries : RepublishedEvidence.carriesWipe isNonRaidZone
      (completePublication terminalRaids input) wipe = true := by
    unfold RepublishedEvidence.carriesWipe
    rw [hraid, decide_eq_true (show wipe.raidId ∈
      (completePublication terminalRaids input).terminalKillRaidIds from hterminal), Bool.or_true]
    rfl
  have hget := RepublishedEvidence.mergedWipes_get? isNonRaidZone lookupRaid runs
    (completePublication terminalRaids input) wipe.fightUrl
  rw [show (completePublication terminalRaids input).input.wipes = input.wipes from rfl, hnew,
    hheldWipe, Option.none_or, Option.filter_some, if_pos hcarries, ← hurl] at hget
  exact Option.some.inj (((filedBy_mergedWipes _ _ _).get?_of_mem hrow).symm.trans hget)

end Carry

/-- What a run publishes includes everything its scan found. -/
def PublishesScan (scan : ScanState) (input : EvidencePublishInput) : Prop :=
  (∀ url ∈ scan.kills.keys, url ∈ incomingFightUrls input) ∧
    (∀ url ∈ scan.wipes.keys, url ∈ input.wipes.map MythicWipe.fightUrl)

/-- Some page of the listing still has the kill, dated as it is held. -/
def ListsKill (readPage : ℕ → PageRead) (kill : MythicKill) : Prop :=
  ∃ i page, 1 ≤ i ∧ readPage i = .success page ∧ ∃ listed ∈ page.kills,
    listed.fightUrl = kill.fightUrl ∧ listed.killedAt = kill.killedAt

def ListsWipe (readPage : ℕ → PageRead) (wipe : MythicWipe) : Prop :=
  ∃ i page, 1 ≤ i ∧ readPage i = .success page ∧ ∃ listed ∈ page.wipes,
    listed.fightUrl = wipe.fightUrl ∧ listed.attemptedAt = wipe.attemptedAt

section Scan
variable (isNonRaidZone : String → Bool) (lookupRaid : MythicKill → Option String)
  (terminal : List TerminalTier) (runs : List PublishedRun)
  (options : ScanOptions) (readPage : ℕ → PageRead)

variable {floor : Instant} {input : EvidencePublishInput}

/-- A listed kill the scan had to reach comes back with the run. -/
theorem mem_incoming_of_listsKill (hpaged : NewestFirst readPage)
    (hoption : options.killScanFloor = some floor) {scan : ScanState}
    (hscan : scanHistory options readPage = .historyScan scan false)
    (hfinished : scan.finished = true) (hinput : PublishesScan scan input) {kill : MythicKill}
    (hlisted : ListsKill readPage kill) (hlate : floor ≤ kill.killedAt) :
    kill.fightUrl ∈ incomingFightUrls input := by
  obtain ⟨i, page, hi, hread, listed, hkill, hurl, hdate⟩ := hlisted
  have hheld := holdsPage_of_reach options readPage hpaged hoption hscan hfinished hi hread
    (page.kill_reached listed hkill) (hdate ▸ hlate)
  rw [← hurl]
  exact hinput.1 _ (hheld.1 listed hkill)

theorem mem_incoming_of_listsWipe (hpaged : NewestFirst readPage)
    (hoption : options.killScanFloor = some floor) {scan : ScanState}
    (hscan : scanHistory options readPage = .historyScan scan false)
    (hfinished : scan.finished = true) (hinput : PublishesScan scan input) {wipe : MythicWipe}
    (hlisted : ListsWipe readPage wipe) (hlate : floor ≤ wipe.attemptedAt) :
    wipe.fightUrl ∈ input.wipes.map MythicWipe.fightUrl := by
  obtain ⟨i, page, hi, hread, listed, hwipe, hurl, hdate⟩ := hlisted
  have hheld := holdsPage_of_reach options readPage hpaged hoption hscan hfinished hi hread
    (page.wipe_reached listed hwipe) (hdate ▸ hlate)
  rw [← hurl]
  exact hinput.2 _ (hheld.2 listed hwipe)

/-- A raid kill that the publish loses was held at or past the floor, in an
open raid, and did not come back with the run. -/
theorem lost_kill {snapshot : PublishedRun} (h : loadCompletedEvidence runs = some snapshot)
    (hfloor : killScanFloorFrom isNonRaidZone terminal snapshot.storedKills
      snapshot.wipes = some floor) {kill : MythicKill} (hkill : kill ∈ snapshot.storedKills)
    (hraid : isNonRaidZone kill.raidName = false)
    (hlost : kill.fightUrl ∉ (completePublish isNonRaidZone lookupRaid
      (terminalKillRaids terminal) runs input).kills.map MergedKill.fightUrl) :
    floor ≤ kill.killedAt ∧ kill.raidId ∉ terminalKillRaids terminal ∧
      kill.fightUrl ∉ incomingFightUrls input := by
  have hopen : kill.raidId ∉ terminalKillRaids terminal := by
    intro hterminal
    obtain ⟨row, hrow, hurl, -⟩ := completePublish_carries_kill isNonRaidZone lookupRaid
      (terminalKillRaids terminal) runs h hkill hraid hterminal input
    exact hlost (hurl ▸ mem_map_of_mem hrow)
  refine ⟨not_lt.mp fun hbefore => hopen ?_, hopen, fun hincoming => hlost ?_⟩
  · exact terminal_of_before_floor isNonRaidZone terminal hfloor
      (mem_append_left _ (mem_map_of_mem hkill)) hraid hbefore
  · exact (mem_published_urls_iff _ { input with state := .complete } false _).mpr
      (.inr hincoming)

theorem lost_wipe {snapshot : PublishedRun} (h : loadCompletedEvidence runs = some snapshot)
    (hfloor : killScanFloorFrom isNonRaidZone terminal snapshot.storedKills
      snapshot.wipes = some floor) {wipe : MythicWipe} (hwipe : wipe ∈ snapshot.wipes)
    (hraid : isNonRaidZone wipe.raidName = false)
    (hlost : wipe.fightUrl ∉ (completePublish isNonRaidZone lookupRaid
      (terminalKillRaids terminal) runs input).wipes.map MythicWipe.fightUrl) :
    floor ≤ wipe.attemptedAt ∧ wipe.raidId ∉ terminalKillRaids terminal ∧
      wipe.fightUrl ∉ input.wipes.map MythicWipe.fightUrl := by
  have hopen : wipe.raidId ∉ terminalKillRaids terminal := by
    intro hterminal
    obtain ⟨row, hrow, hurl, -⟩ := completePublish_carries_wipe isNonRaidZone lookupRaid
      (terminalKillRaids terminal) runs h hwipe hraid hterminal input
    exact hlost (hurl ▸ mem_map_of_mem hrow)
  refine ⟨not_lt.mp fun hbefore => hopen ?_, hopen, fun hincoming => hlost ?_⟩
  · exact terminal_of_before_floor isNonRaidZone terminal hfloor
      (mem_append_right _ (mem_map_of_mem hwipe)) hraid hbefore
  · refine (mem_published_wipe_urls_iff _ { input with state := .complete } false _).mpr ?_
    rw [map_append]
    exact mem_append_right _ hincoming

/-- Everything held below the floor is carried, and what a finished scan and
its complete publish lose was held at or past the floor, in a raid still open,
and is no longer listed. -/
theorem scan_then_publish_keeps {snapshot : PublishedRun}
    (h : loadCompletedEvidence runs = some snapshot) {floor : Instant}
    (hfloor : killScanFloorFrom isNonRaidZone terminal snapshot.storedKills snapshot.wipes =
      some floor) :
    (∀ kill ∈ snapshot.storedKills, isNonRaidZone kill.raidName = false → kill.killedAt < floor →
      kill.raidId ∈ terminalKillRaids terminal ∧ ∀ input, CarriesKill
        (completePublish isNonRaidZone lookupRaid (terminalKillRaids terminal) runs input)
          input kill) ∧
    (∀ wipe ∈ snapshot.wipes, isNonRaidZone wipe.raidName = false → wipe.attemptedAt < floor →
      wipe.raidId ∈ terminalKillRaids terminal ∧ ∀ input, CarriesWipe
        (completePublish isNonRaidZone lookupRaid (terminalKillRaids terminal) runs input)
          input wipe) ∧
    (NewestFirst readPage → options.killScanFloor = some floor →
      ∀ scan input, scanHistory options readPage = .historyScan scan false →
        scan.finished = true → PublishesScan scan input →
        (∀ kill ∈ snapshot.storedKills, isNonRaidZone kill.raidName = false →
          kill.fightUrl ∉ (completePublish isNonRaidZone lookupRaid (terminalKillRaids terminal)
            runs input).kills.map MergedKill.fightUrl →
          floor ≤ kill.killedAt ∧ kill.raidId ∉ terminalKillRaids terminal ∧
            ¬ ListsKill readPage kill) ∧
        (∀ wipe ∈ snapshot.wipes, isNonRaidZone wipe.raidName = false →
          wipe.fightUrl ∉ (completePublish isNonRaidZone lookupRaid (terminalKillRaids terminal)
            runs input).wipes.map MythicWipe.fightUrl →
          floor ≤ wipe.attemptedAt ∧ wipe.raidId ∉ terminalKillRaids terminal ∧
            ¬ ListsWipe readPage wipe)) := by
  refine ⟨?_, ?_, ?_⟩
  · intro kill hkill hraid hbefore
    have hterminal := terminal_of_before_floor isNonRaidZone terminal hfloor
      (mem_append_left _ (mem_map_of_mem hkill)) hraid hbefore
    exact ⟨hterminal, completePublish_carries_kill isNonRaidZone lookupRaid
      (terminalKillRaids terminal) runs h hkill hraid hterminal⟩
  · intro wipe hwipe hraid hbefore
    have hterminal := terminal_of_before_floor isNonRaidZone terminal hfloor
      (mem_append_right _ (mem_map_of_mem hwipe)) hraid hbefore
    exact ⟨hterminal, completePublish_carries_wipe isNonRaidZone lookupRaid
      (terminalKillRaids terminal) runs h hwipe hraid hterminal⟩
  · intro hpaged hoption scan input hscan hfinished hinput
    constructor
    · intro kill hkill hraid hlost
      obtain ⟨hlate, hopen, hout⟩ := lost_kill isNonRaidZone lookupRaid terminal runs h hfloor
        hkill hraid hlost
      exact ⟨hlate, hopen, fun hlisted => hout (mem_incoming_of_listsKill options readPage hpaged
        hoption hscan hfinished hinput hlisted hlate)⟩
    · intro wipe hwipe hraid hlost
      obtain ⟨hlate, hopen, hout⟩ := lost_wipe isNonRaidZone lookupRaid terminal runs h hfloor
        hwipe hraid hlost
      exact ⟨hlate, hopen, fun hlisted => hout (mem_incoming_of_listsWipe options readPage hpaged
        hoption hscan hfinished hinput hlisted hlate)⟩

end Scan

/-! A kill at the floor, in an open raid, whose report is gone from the listing. -/

def raidKill (raidId fightUrl : String) (killedAt : Instant) : MythicKill where
  raidId := raidId
  raidName := "Raid"
  bossId := "boss"
  bossName := "Boss"
  journalBossId := none
  killedAt := killedAt
  fightUrl := fightUrl
  historicWorldRank := none
  historicRankCheckedAt := none
  performance := ⟨none, .unavailable, .unavailable, .unavailable⟩

def openKill : MythicKill := raidKill "open" "first" 100

def settledKill : MythicKill := raidKill "settled" "second" 50

def settledMarks : List TerminalTier := [⟨"settled", .kills⟩]

def publishInput (completedAt : Instant) (kills : List MythicKill) : EvidencePublishInput where
  state := .complete
  completedAt := completedAt
  kills := kills
  wipes := []
  tierBests := []
  parsedFightUrls := none

def heldRuns : List PublishedRun :=
  publish (fun _ => false) (fun _ => none) ∅ [] 1 none (publishInput 110 [openKill, settledKill])

/-- One report page, wholly below the held open kill. -/
def settledPage : HistoryPage where
  decoded := .evidence [settledKill] [] false none
  reach := [50]
  reportCodes := ["report"]
  lastReportCode := some "report"
  hasMorePages := some true
  kill_reached := by decide
  wipe_reached := by decide

def settledListing : ℕ → PageRead := fun _ => .success settledPage

def floorOptions : ScanOptions where
  targetedOnly := false
  requestCap := 5
  historyScanStartPage := none
  historyScanResumeBoundaryReportCode := none
  killScanFloor := some 100
  storedKills := []

def flooredScan : ScanState :=
  scanPages floorOptions settledListing 5 1 (ScanState.start floorOptions)

theorem newestFirst_settledListing : NewestFirst settledListing where
  below := by
    rintro i j page later floor - - hpage hlater hbelow
    obtain rfl := PageRead.success.inj hpage
    obtain rfl := PageRead.success.inj hlater
    exact (by simpa [belowFloor] using hbelow : _ ∧ ∀ at_ ∈ settledPage.reach, at_ < floor).2
  exhausted := by
    rintro i j page later - - hpage - hmore
    obtain rfl := PageRead.success.inj hpage
    simp [settledPage] at hmore

theorem scan_then_publish_keeps_settledKill :
    (settledKill.raidId ∈ terminalKillRaids settledMarks ∧ ∀ input, CarriesKill
      (completePublish (fun _ => false) (fun _ => none) (terminalKillRaids settledMarks) heldRuns
        input) input settledKill) ∧ ¬ ListsKill settledListing openKill := by
  have hsnapshot : loadCompletedEvidence heldRuns = some (heldRuns.head (by decide)) := rfl
  have hfloor : killScanFloorFrom (fun _ => false) settledMarks
      (heldRuns.head (by decide)).storedKills (heldRuns.head (by decide)).wipes = some 100 := by
    decide
  have hkeeps := scan_then_publish_keeps (fun _ => false) (fun _ => none) settledMarks heldRuns
    floorOptions settledListing hsnapshot hfloor
  refine ⟨hkeeps.1 settledKill (by decide) rfl (by decide), ?_⟩
  exact ((hkeeps.2.2 newestFirst_settledListing rfl flooredScan
    (publishInput 120 [settledKill]) rfl (by decide) ⟨by decide, by decide⟩).1 openKill
      (by decide) rfl (by decide)).2.2

/-- The scan stops cleanly at the floor and never meets the kill held there;
the complete publish of what it found drops it. -/
theorem floored_scan_drops_openKill :
    ∃ snapshot, loadCompletedEvidence heldRuns = some snapshot ∧
      killScanFloorFrom (fun _ => false) settledMarks snapshot.storedKills snapshot.wipes =
        some 100 ∧
      scanHistory floorOptions settledListing = .historyScan flooredScan false ∧
      flooredScan.finished = true ∧ flooredScan.limitation = none ∧
      openKill ∈ snapshot.storedKills ∧ openKill.fightUrl ∉ flooredScan.kills.keys ∧
      openKill.fightUrl ∉ (completePublish (fun _ => false) (fun _ => none)
        (terminalKillRaids settledMarks) heldRuns
          (publishInput 120 flooredScan.kills.values)).kills.map MergedKill.fightUrl :=
  ⟨heldRuns.head (by decide), rfl, by decide, rfl, by decide, by decide, by decide, by decide,
    by decide⟩

end SlashWho.KillScanFloor
