import SlashWho.CatalogueLookups
import SlashWho.EvidenceCollections
import SlashWho.PublicationWrites

/-!
A stage stands in for the run that collected it. What it is read back as differs
from what was staged only in the spelling of a false flag and of a missing retry,
which storage reads alike, so publishing it writes the same. The marks computed
from it are the run's own at the time it completed.
-/

namespace SlashWho.StagedPublications

open EvidenceMerge EvidenceRetryPolicy IsoTimestamps RaidCatalogue TerminalTiers
open EvidenceCollections PublicationWrites StagedCollections
open KillScanFloor (TerminalTier)

/-- A publication as its stage is read back: a flag that is not set and a retry
that is null are absent. -/
def asRead (publication : EvidencePublication) : EvidencePublication :=
  { publication with
    scanSkipped := trueOrAbsent publication.scanSkipped
    omittedInvalidTimestamp := trueOrAbsent publication.omittedInvalidTimestamp
    retryAfterAt := publication.retryAfterAt.join.map some }

/-- The stage as it comes back from its JSON. -/
def readStage (staged : StagedEvidenceCollection) : Option StagedEvidenceCollection :=
  stageCodec.decode (stageCodec.encode staged)

def stagedKill (kill : CharacterMythicKillInput) : TerminalTierKill where
  raidId := kill.raidId
  raidName := kill.raidName
  killedAt := kill.killedAt
  bossName := some kill.bossName
  journalBossId := some kill.journalBossId

/-- A stage that cannot say which raids were troubled settles nothing. -/
def terminalTiersFromStage (rt : Runtime) (generated : Generated) (dates : DateReading)
    (staged : StagedEvidenceCollection) (settleMs : ℤ) : List TerminalTier :=
  match staged.troubledRaidIds, dates.parse staged.completedAt with
  | some troubledRaidIds, some completedAt =>
    terminalTiersFrom rt generated dates
      { at_ := some completedAt
        settleMs := settleMs
        kills := staged.kills.map stagedKill
        scanSkipped := staged.scanSkipped = some true
        scanLimitation := staged.limitationCode
        troubledRaidIds := troubledRaidIds }
  | _, _ => []

variable (value : Option Bool)

@[simp] theorem trueOrAbsent_trueOrAbsent :
    trueOrAbsent (trueOrAbsent value) = trueOrAbsent value := by
  unfold trueOrAbsent
  split_ifs <;> simp_all

@[simp] theorem getD_trueOrAbsent :
    (trueOrAbsent value).getD false = value.getD false := by
  rcases value with _ | _ | _ <;> rfl

@[simp] theorem trueOrAbsent_eq_some_true :
    trueOrAbsent value = some true ↔ value = some true := by
  rcases value with _ | _ | _ <;> simp [trueOrAbsent]

theorem toISOString_ne_empty (t : TimeValue) : toISOString t.1 ≠ "" := by
  intro hempty
  have hread := readISOString_toISOString t.2
  rw [hempty] at hread
  cases hread

variable {publication : EvidencePublication} {troubled : Option TroubledRaidIds}
  {staged : StagedEvidenceCollection}

theorem toStagedCollection_eq_ok (h : toStagedCollection publication troubled = .ok staged) :
    ∃ completedAt : TimeValue, ∃ retryAfterAt : Option TimeValue,
      publication.completedAt = some completedAt ∧
      publication.retryAfterAt.join = retryAfterAt.map some ∧
      staged.completedAt = toISOString completedAt.1 ∧
      staged.retryAfterAt = retryAfterAt.map (fun t => toISOString t.1) ∧
      staged = {
        state := publication.state
        scanSkipped := trueOrAbsent publication.scanSkipped
        omittedInvalidTimestamp := trueOrAbsent publication.omittedInvalidTimestamp
        historyScanResumePage := publication.historyScanResumePage
        historyScanResumeBoundaryReportCode := publication.historyScanResumeBoundaryReportCode
        historicAliasProgress := publication.historicAliasProgress
        rankedBackfillCursor := publication.rankedBackfillCursor
        limitationCode := publication.limitationCode
        parseLimitationCode := publication.parseLimitationCode
        parseLimitationCodesSeen := some publication.parseLimitationCodesSeen
        retryAfterAt := staged.retryAfterAt
        kills := publication.kills
        wipes := publication.wipes
        tierBests := publication.tierBests
        cuttingEdges := some publication.cuttingEdges
        raiderIoFirstKills := publication.raiderIoFirstKills
        parsedFightUrls := some publication.parsedFightUrls
        completedAt := staged.completedAt
        troubledRaidIds := troubled } := by
  unfold toStagedCollection at h
  obtain ⟨retry, hretry, h⟩ := Fallible.ok_of_bind_ok h
  obtain ⟨completed, hcompleted, h⟩ := Fallible.ok_of_bind_ok h
  obtain rfl := Except.ok.inj h
  cases hdate : publication.completedAt with
  | none =>
    rw [hdate] at hcompleted
    cases hcompleted
  | some completedAt =>
    rw [hdate] at hcompleted
    obtain rfl := Except.ok.inj hcompleted
    cases hagain : publication.retryAfterAt.join with
    | none =>
      rw [hagain] at hretry
      obtain rfl := Except.ok.inj hretry
      exact ⟨completedAt, none, rfl, rfl, rfl, rfl, rfl⟩
    | some date =>
      rw [hagain] at hretry
      obtain ⟨written, hwritten, hretry⟩ := Fallible.ok_of_bind_ok hretry
      obtain rfl := Except.ok.inj hretry
      cases date with
      | none => cases hwritten
      | some retryAfterAt =>
        obtain rfl := Except.ok.inj hwritten
        exact ⟨completedAt, some retryAfterAt, rfl, rfl, rfl, rfl, rfl⟩

theorem fromStagedCollection_of_staged (dates : DateReading)
    (h : toStagedCollection publication troubled = .ok staged) :
    fromStagedCollection dates staged = asRead publication := by
  obtain ⟨completedAt, retryAfterAt, hcompleted, hretry, hcompletedText, hretryText, hstaged⟩ :=
    toStagedCollection_eq_ok h
  have hread : (truthy staged.retryAfterAt).map (fun written => some (dates.parse written)) =
      publication.retryAfterAt.join.map some := by
    rw [hretryText, hretry]
    cases retryAfterAt with
    | none => rfl
    | some t =>
      rw [Option.map_some, truthy, Option.filter_some, if_pos (by simpa using toISOString_ne_empty t)]
      simp only [Option.map_some, dates.parse_toISOString]
  have hdate : dates.parse staged.completedAt = publication.completedAt := by
    rw [hcompletedText, dates.parse_toISOString, hcompleted]
  unfold fromStagedCollection asRead
  rw [hread, hdate, hstaged]
  simp

variable {localeCompare : String → String → Ordering} {evidenceVersion : ℕ}
  {stored : StoredEvidence} {targeted : Bool} {run : RunColumns}

theorem mapM_map_some (date : Option Date) :
    ((date.map some).join.mapM timestampParameter) = date.mapM timestampParameter := by
  cases date <;> rfl

theorem runUpdate_asRead (publication : EvidencePublication) (completedAt : TimeValue) :
    runUpdate evidenceVersion targeted run (asRead publication) completedAt =
      runUpdate evidenceVersion targeted run publication completedAt := by
  unfold runUpdate asRead
  simp only [getD_trueOrAbsent, mapM_map_some]

theorem partialNamesNoReason_asRead (publication : EvidencePublication) :
    partialNamesNoReason (asRead publication) = partialNamesNoReason publication := by
  unfold partialNamesNoReason asRead
  simp only [ne_eq, trueOrAbsent_eq_some_true]

theorem publish_asRead (publication : EvidencePublication) :
    publish localeCompare evidenceVersion stored targeted run (asRead publication) =
      publish localeCompare evidenceVersion stored targeted run publication := by
  unfold publish
  rw [partialNamesNoReason_asRead]
  have hsame : (asRead publication).completedAt = publication.completedAt := rfl
  rw [hsame]
  cases publication.completedAt with
  | none => rfl
  | some completedAt =>
    simp only [runUpdate_asRead]
    rfl

theorem dates_of_publish {publication : EvidencePublication} {write : PublicationWrite}
    (h : publish localeCompare evidenceVersion stored targeted run publication = .ok write) :
    publication.completedAt.isSome ∧ publication.retryAfterAt.join ≠ some none := by
  unfold publish at h
  cases hcompleted : publication.completedAt with
  | none =>
    rw [hcompleted] at h
    cases h
  | some completedAt =>
    rw [hcompleted] at h
    refine ⟨rfl, fun hinvalid => ?_⟩
    have hupdate : runUpdate evidenceVersion targeted run publication completedAt =
        .error (authored "invalid input syntax for type timestamp with time zone") := by
      unfold runUpdate
      rw [hinvalid]
      rfl
    dsimp only at h
    split at h
    · cases h
    · obtain ⟨_, _, h⟩ := Fallible.ok_of_bind_ok h
      obtain ⟨_, _, h⟩ := Fallible.ok_of_bind_ok h
      obtain ⟨_, hcolumns, _⟩ := Fallible.ok_of_bind_ok h
      rw [hupdate] at hcolumns
      cases hcolumns

theorem publish_of_unstaged {publication : EvidencePublication} {troubled : Option TroubledRaidIds}
    {fault : Fault} (h : toStagedCollection publication troubled = .error fault) :
    ∃ fault, publish localeCompare evidenceVersion stored targeted run publication =
      .error fault := by
  cases hpublish : publish localeCompare evidenceVersion stored targeted run publication with
  | error fault => exact ⟨fault, rfl⟩
  | ok write =>
    exfalso
    obtain ⟨hcompleted, hretry⟩ := dates_of_publish hpublish
    obtain ⟨completedAt, hcompleted⟩ := Option.isSome_iff_exists.mp hcompleted
    unfold toStagedCollection at h
    rw [hcompleted] at h
    cases hjoin : publication.retryAfterAt.join with
    | none =>
      rw [hjoin] at h
      cases h
    | some date =>
      rw [hjoin] at h
      cases date with
      | none => exact hretry hjoin
      | some t => cases h

variable {rt : Runtime} {generated : Generated} {dates : DateReading}

theorem stagedKill_withRank (lookup : CharacterMythicKillInput → Option RankLookup)
    (kill : FirstKillEvidence) :
    stagedKill (withRank lookup (toCharacterMythicKillInput kill)) =
      CollectedRun.markedKill kill := by
  unfold withRank
  cases lookup (toCharacterMythicKillInput kill) <;> rfl

theorem terminalTiersFromStage_eq {run : CollectedRun} {response : ReportResult}
    {staged : StagedEvidenceCollection} {settleMs : ℤ}
    (h : toStagedCollection (run.publicationOf rt generated response)
      (run.troubledRaidIds response) = .ok staged) :
    terminalTiersFromStage rt generated dates staged settleMs =
      run.marks rt generated dates settleMs run.completedAt response := by
  obtain ⟨completedAt, -, hcompleted, -, hcompletedText, -, hstaged⟩ := toStagedCollection_eq_ok h
  have hdate : dates.parse staged.completedAt = some completedAt := by
    rw [hcompletedText, dates.parse_toISOString]
  have hat : run.completedAt = some completedAt := by
    cases response <;> exact hcompleted
  unfold terminalTiersFromStage
  rw [hdate, hat]
  cases response with
  | limitation own =>
    rw [hstaged]
    simp only [CollectedRun.troubledRaidIds, CollectedRun.marks]
    cases run.targeted with
    | true => rfl
    | false => rfl
  | evidence response =>
    rw [hstaged]
    simp only [CollectedRun.troubledRaidIds, CollectedRun.marks]
    cases htargeted : run.targeted with
    | true => rfl
    | false =>
      have hkills : (run.settledPublication rt generated response).kills.map stagedKill =
          (run.allKills rt generated response).map CollectedRun.markedKill := by
        change (((run.allKills rt generated response).map toCharacterMythicKillInput).map
          (withRank run.rankLookup)).map stagedKill = _
        rw [List.map_map, List.map_map]
        exact List.map_congr_left fun kill _ => stagedKill_withRank run.rankLookup kill
      have hskipped : trueOrAbsent (run.settledPublication rt generated response).scanSkipped =
          some true ↔ response.scanSkipped = some true := by
        rw [trueOrAbsent_eq_some_true]
        simp [CollectedRun.settledPublication, htargeted]
      simp only [CollectedRun.publicationOf, hkills, hskipped, Bool.false_eq_true, if_false]
      rfl

theorem marks_later {run : CollectedRun} {response : ReportResult} {settleMs : ℤ}
    {at_ later : TimeValue} (hlater : at_.1 ≤ later.1) {tier : TerminalTier}
    (h : tier ∈ run.marks rt generated dates settleMs (some at_) response) :
    tier ∈ run.marks rt generated dates settleMs (some later) response := by
  cases response with
  | limitation own => exact h
  | evidence response =>
    unfold CollectedRun.marks at h ⊢
    cases htargeted : run.targeted with
    | true => simp [htargeted] at h
    | false =>
      rw [htargeted] at h
      exact terminalTiersFrom_later
        { at_ := some at_
          settleMs := settleMs
          kills := (run.allKills rt generated response).map CollectedRun.markedKill
          scanSkipped := response.scanSkipped = some true
          scanLimitation := response.limitation.map fun limitation => codeText limitation.code
          troubledRaidIds := response.troubledRaidIds } hlater h

theorem readStage_eq (staged : StagedEvidenceCollection) : readStage staged = some staged :=
  stageCodec.decode_encode staged

/-- A run's stage, read back, publishes as the run's own publication does; what
cannot be staged cannot be published. Its marks are the run's at the time it
completed, and the run marking later would give them all. -/
theorem staged_stands_for_run (localeCompare : String → String → Ordering) (evidenceVersion : ℕ)
    (rt : Runtime) (generated : Generated) (dates : DateReading) :
    (∀ (publication : EvidencePublication) (troubled : Option TroubledRaidIds)
      (staged : StagedEvidenceCollection),
      toStagedCollection publication troubled = .ok staged →
      (readStage staged).map (fromStagedCollection dates) = some (asRead publication) ∧
      ∀ stored targeted run,
        publish localeCompare evidenceVersion stored targeted run (asRead publication) =
          publish localeCompare evidenceVersion stored targeted run publication) ∧
    (∀ (publication : EvidencePublication) (troubled : Option TroubledRaidIds) (fault : Fault),
      toStagedCollection publication troubled = .error fault →
      ∀ stored targeted run, ∃ fault,
        publish localeCompare evidenceVersion stored targeted run publication = .error fault) ∧
    ∀ (run : CollectedRun) (response : ReportResult) (settleMs : ℤ)
      (staged : StagedEvidenceCollection),
      toStagedCollection (run.publicationOf rt generated response)
        (run.troubledRaidIds response) = .ok staged →
      ∃ read completedAt, readStage staged = some read ∧ run.completedAt = some completedAt ∧
        terminalTiersFromStage rt generated dates read settleMs =
          run.marks rt generated dates settleMs (some completedAt) response ∧
        ∀ later : TimeValue, completedAt.1 ≤ later.1 →
          ∀ tier ∈ terminalTiersFromStage rt generated dates read settleMs,
            tier ∈ run.marks rt generated dates settleMs (some later) response := by
  refine ⟨?_, ?_, ?_⟩
  · intro publication troubled staged h
    refine ⟨?_, fun stored targeted run => publish_asRead publication⟩
    rw [readStage_eq, Option.map_some, fromStagedCollection_of_staged dates h]
  · intro publication troubled fault h stored targeted run
    exact publish_of_unstaged h
  · intro run response settleMs staged h
    obtain ⟨completedAt, -, hcompleted, -⟩ := toStagedCollection_eq_ok h
    have hat : run.completedAt = some completedAt := by
      cases response <;> exact hcompleted
    have hmarks : terminalTiersFromStage rt generated dates staged settleMs =
        run.marks rt generated dates settleMs (some completedAt) response := by
      rw [terminalTiersFromStage_eq h, hat]
    refine ⟨staged, completedAt, readStage_eq staged, hat, hmarks, ?_⟩
    intro later hlater tier htier
    rw [hmarks] at htier
    exact marks_later hlater htier

/-- A kill of a raid no longer current, whose uploader was not asked for. -/
def mautKill : FirstKillEvidence where
  raidId := "24"
  raidName := "Ny'alotha, the Waking City"
  bossId := "2364"
  bossName := "Maut"
  journalBossId := none
  bossOrder := 2
  killedAt := "2020-02-20T21:00:00.000Z"
  reportCode := "aBcD"
  fightId := 7
  difficulty := 5
  performance := ⟨some none, .available (some 93), .notApplicable, .unavailable⟩
  reportUrl := "https://www.warcraftlogs.com/reports/aBcD"
  fightUrl := "https://www.warcraftlogs.com/reports/aBcD#fight=7"
  guild := some ⟨"Remnant", .eu, "draenor"⟩
  uploader := none

/-- A scan to the end of the history, that found it. -/
def wholeHistory : ReportResult := .evidence
  { omittedInvalidTimestamp := true
    scanSkipped := none
    historyScanLimitReached := false
    historyScanResumePage := none
    historyScanResumeBoundaryReportCode := none
    kills := [mautKill]
    wipes := []
    tierBests := []
    parsedFightUrls := [mautKill.fightUrl]
    troubledRaidIds := ⟨[], []⟩
    limitation := none
    parseLimitation := none
    parseLimitations := none
    rankedBackfillCursor := some none }

/-- A run of the year after, which knows the kill's rank and was stopped on page 3 before. -/
def laterRun : CollectedRun where
  tierSearchRaidId := none
  light := false
  hasAliases := false
  historicAliasProgress := []
  storedResumePage := some 3
  storedResumeBoundaryReportCode := none
  carriedRankedKills := []
  delays := ⟨1000, 1000⟩
  rankLookup := fun _ => some ⟨"2021-03-01T00:00:00.000Z", some 412⟩
  raiderIoFirstKills := none
  cuttingEdges := []
  retryFrom := some ⟨1614556800000, by decide⟩
  completedAt := some ⟨1614556800000, by decide⟩

theorem staged_stands_for_later_run :
    ∃ staged read completedAt,
      toStagedCollection (laterRun.publicationOf plainRuntime wakingCity.toGenerated wholeHistory)
        (laterRun.troubledRaidIds wholeHistory) = .ok staged ∧ staged.kills.length = 1 ∧
      readStage staged = some read ∧ laterRun.completedAt = some completedAt ∧
      terminalTiersFromStage plainRuntime wakingCity.toGenerated isoReading read 0 =
        laterRun.marks plainRuntime wakingCity.toGenerated isoReading 0 (some completedAt)
          wholeHistory ∧
      terminalTiersFromStage plainRuntime wakingCity.toGenerated isoReading read 0 ≠ [] := by
  obtain ⟨staged, hstaged⟩ : ∃ staged, toStagedCollection
      (laterRun.publicationOf plainRuntime wakingCity.toGenerated wholeHistory)
      (laterRun.troubledRaidIds wholeHistory) = .ok staged := ⟨_, rfl⟩
  obtain ⟨read, completedAt, hread, hcompleted, hmarks, -⟩ := (staged_stands_for_run compare 1
    plainRuntime wakingCity.toGenerated isoReading).2.2 laterRun wholeHistory 0 staged hstaged
  refine ⟨staged, read, completedAt, hstaged, ?_, hread, hcompleted, hmarks, ?_⟩
  · cases hstaged
    rfl
  · rw [hmarks, ← hcompleted]
    decide +kernel

end SlashWho.StagedPublications
