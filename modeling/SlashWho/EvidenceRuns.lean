import Mathlib.Data.List.MinMax
import Mathlib.Data.Prod.Lex
import SlashWho.Characters
import SlashWho.EvidenceRetryPolicy
import SlashWho.KillScanFloor
import SlashWho.RaiderIoFirstKills

/-!
The evidence runs of every character and the statements that write them. A
statement, or a transaction of several, is one function of the store; where it
throws it leaves the store as it was. The zone and raid catalogues are generated
data and the text order is the runtime's own, so what they answer is a
parameter. Credentials, and columns that no statement here reads, are left out.
-/

namespace SlashWho.EvidenceRuns

open Characters EvidenceMerge EvidenceStore EvidenceRetryPolicy KillScanFloor

inductive EvidenceRunStatus
  | queued
  | running
  | retrying
  | complete
  | partial_
  | failed
  deriving DecidableEq

/-- `status IN ('queued', 'running', 'retrying')` -/
def EvidenceRunStatus.isActive : EvidenceRunStatus → Bool
  | .queued | .running | .retrying => true
  | .complete | .partial_ | .failed => false

/-- `status IN ('complete', 'partial')` -/
def EvidenceRunStatus.published : EvidenceRunStatus → Option PublishState
  | .complete => some .complete
  | .partial_ => some .partial_
  | _ => none

def EvidenceRunStatus.ofPublish : PublishState → EvidenceRunStatus
  | .complete => .complete
  | .partial_ => .partial_

/-- What a run was reserved to do; a tier search names its Journal raid. -/
inductive EvidenceRunMode
  | full
  | tierSearch (raidId : String)
  deriving DecidableEq

def EvidenceRunMode.tierSearchRaidId : EvidenceRunMode → Option String
  | .full => none
  | .tierSearch raidId => some raidId

inductive PublicationScope
  | full
  | tier
  deriving DecidableEq

/-- Where a capped ranked walk goes on. -/
structure StoredRankedBackfillCursor where
  journalRaidId : String
  zoneIds : List ℕ
  acceptedFightKeys : List String
  zoneIndex : ℕ
  encounterIndex : ℕ
  metricIndex : ℕ
  reportIndex : ℕ
  deriving DecidableEq

/-- A row of `character_evidence_runs`. -/
structure EvidenceRun where
  key : CharacterKey
  mode : EvidenceRunMode
  queueJobId : Option String
  status : EvidenceRunStatus
  attempt : ℕ
  limitationCode : Option String
  parseLimitationCode : Option String
  parseLimitationCodesSeen : Option (List String)
  raiderIoLimitationCode : Option String
  omittedInvalidTimestamp : Bool
  killScanSkipped : Bool
  killScanCompletedAt : Option Instant
  killScanResumePage : Option ℕ
  killScanResumeBoundaryReportCode : Option String
  rankedBackfillCursor : Option StoredRankedBackfillCursor
  rankedBackfillAttempted : Bool
  publicationScope : PublicationScope
  retryAfterAt : Option Instant
  errorCode : Option String
  createdAt : Instant
  startedAt : Option Instant
  completedAt : Option Instant
  deriving DecidableEq

def EvidenceRun.isActive (run : EvidenceRun) : Bool := run.status.isActive

inductive PhaseState
  | pending
  | active
  | completed
  | skipped
  | limited
  | failed
  | cancelled
  deriving DecidableEq

/-- A row of `character_evidence_run_phases`. -/
structure EvidenceRunPhase where
  ordinal : ℕ
  state : PhaseState
  startedAt : Option Instant
  completedAt : Option Instant
  limitationCode : Option String
  deriving DecidableEq

structure CuttingEdge where
  achievementId : String
  completedAt : Instant
  deriving DecidableEq

/-- The rows one publication wrote. -/
structure RunEvidence where
  kills : List MergedKill
  wipes : List MythicWipe
  tierBests : List StoredTierBest
  cuttingEdges : List CuttingEdge
  firstKills : List RaiderIoFirstKills.FirstKill
  nodup_kills : (kills.map MergedKill.fightUrl).Nodup
  nodup_wipes : (wipes.map MythicWipe.fightUrl).Nodup
  nodup_firstKills : (firstKills.map RaiderIoFirstKills.firstKillKey).Nodup

/-- What one run hands to storage when its collection is done. A field that is
absent is not one that is null: storage reads presence of the history page and
of the ranked cursor. A kill's guild is one `publish` lets through. -/
structure EvidencePublication where
  state : PublishState
  scanSkipped : Bool
  omittedInvalidTimestamp : Bool
  historyScanResumePage : Option (Option ℕ)
  historyScanResumeBoundaryReportCode : Option (Option String)
  rankedBackfillCursor : Option (Option StoredRankedBackfillCursor)
  limitationCode : Option String
  parseLimitationCode : Option String
  parseLimitationCodesSeen : List String
  retryAfterAt : Option Instant
  kills : List MythicKill
  wipes : List MythicWipe
  tierBests : List TierBestParse
  cuttingEdges : List CuttingEdge
  raiderIoFirstKills : Option RaiderIoFirstKills.Publication
  parsedFightUrls : List String
  completedAt : Instant

/-- What the merge reads of a publication. -/
def EvidencePublication.merged (p : EvidencePublication) : EvidencePublishInput where
  state := p.state
  completedAt := p.completedAt
  kills := p.kills
  wipes := p.wipes
  tierBests := p.tierBests
  parsedFightUrls := some p.parsedFightUrls

structure TroubledRaidIds where
  parses : List String
  tierBests : List String
  deriving DecidableEq

/-- One run's collection, staged between its scan and its publication. Older
stages lack the fields that are optional here. -/
structure StagedEvidenceCollection where
  state : PublishState
  scanSkipped : Bool
  omittedInvalidTimestamp : Bool
  historyScanResumePage : Option (Option ℕ)
  historyScanResumeBoundaryReportCode : Option (Option String)
  rankedBackfillCursor : Option (Option StoredRankedBackfillCursor)
  limitationCode : Option String
  parseLimitationCode : Option String
  parseLimitationCodesSeen : Option (List String)
  retryAfterAt : Option Instant
  kills : List MythicKill
  wipes : List MythicWipe
  tierBests : List TierBestParse
  cuttingEdges : Option (List CuttingEdge)
  raiderIoFirstKills : Option RaiderIoFirstKills.Publication
  parsedFightUrls : Option (List String)
  completedAt : Instant
  troubledRaidIds : Option TroubledRaidIds

/-! The store. The last two types are history variables: no statement reads
what they record. -/

/-- What a publication was made from: a collection, which read the history or
not, or a stop. -/
inductive PublishedFrom
  | collection (readHistory : Bool)
  | stop
  deriving DecidableEq

inductive Event
  | claimed (id attempt : ℕ)
  | settled (id : ℕ) (status : EvidenceRunStatus) (publishedFrom : Option PublishedFrom)
  deriving DecidableEq

/-- A stage, and whether the attempt that collected it read the history. -/
structure Stage where
  payload : StagedEvidenceCollection
  readHistory : Bool

structure Store where
  runs : OrderedMap ℕ EvidenceRun
  phases : OrderedMap (ℕ × String) EvidenceRunPhase
  evidence : OrderedMap ℕ RunEvidence
  collections : OrderedMap ℕ Stage
  terminalTiers : List (CharacterKey × TerminalTier)
  history : List Event

def Store.empty : Store := ⟨.empty, .empty, .empty, .empty, [], []⟩

structure Catalogue where
  isNonRaidZone : String → Bool
  lookupRaid : MythicKill → Option String
  localeCompare : String → String → Ordering

namespace Store

variable (s : Store)

/-- `WHERE id = $1 AND status IN ('queued', 'running', 'retrying')` -/
def activeRun (id : ℕ) : Option EvidenceRun :=
  (s.runs.get? id).filter EvidenceRun.isActive

def hasActive (key : CharacterKey) : Bool :=
  s.runs.values.any (fun run => run.key = key ∧ run.isActive)

variable (now : Instant)

/-- The row of a run that is active when it is inserted. -/
def queuedRun (key : CharacterKey) (mode : EvidenceRunMode) : EvidenceRun where
  key := key
  mode := mode
  queueJobId := none
  status := .queued
  attempt := 0
  limitationCode := none
  parseLimitationCode := none
  parseLimitationCodesSeen := none
  raiderIoLimitationCode := none
  omittedInvalidTimestamp := false
  killScanSkipped := false
  killScanCompletedAt := none
  killScanResumePage := none
  killScanResumeBoundaryReportCode := none
  rankedBackfillCursor := none
  rankedBackfillAttempted := false
  publicationScope := .full
  retryAfterAt := none
  errorCode := none
  createdAt := now
  startedAt := none
  completedAt := none

/-- `23505`: a row with the key is there already. -/
def uniqueViolation : Fault := ⟨true, "error", "duplicate key value", some "23505"⟩

/-- The insert of a reservation. The id is new, and the partial unique index
holds at most one active run a character. -/
def insertRun (id : ℕ) (key : CharacterKey) (mode : EvidenceRunMode) (phasePlan : List String)
    (s : Store) : Except Fault Unit × Store :=
  if (s.runs.has id ∨ s.hasActive key) then (.error uniqueViolation, s)
  else
    (.ok (), { s with
      runs := s.runs.set id (queuedRun now key mode)
      phases := s.phases.setAll (phasePlan.zipIdx.map (fun phase =>
        ((id, phase.1), ⟨phase.2 + 1, .pending, none, none, none⟩))) })

def claim (id attempt : ℕ) (s : Store) :
    Except Fault (Option EvidenceRun) × Store :=
  if attempt < 1 then (.error (rangeError "character_evidence_attempt_invalid"), s)
  else
    match s.activeRun id with
    | none => (.ok none, s)
    | some run =>
      if run.attempt < attempt then
        let claimed := { run with
          status := .running
          attempt := attempt
          startedAt := run.startedAt.or (some now)
          errorCode := none
          limitationCode := none }
        (.ok (some claimed), { s with
          runs := s.runs.set id claimed
          history := s.history ++ [.claimed id attempt] })
      else (.ok none, s)

def markEnqueued (id : ℕ) (queueJobId : String) (s : Store) : Except Fault Unit × Store :=
  match s.runs.get? id with
  | none => (.error (authored "character_evidence_run_not_enqueuable"), s)
  | some run =>
    if run.status = .queued ∧ (run.queueJobId = none ∨ run.queueJobId = some queueJobId) then
      (.ok (), { s with runs := s.runs.set id { run with queueJobId := some queueJobId } })
    else (.error (authored "character_evidence_run_not_enqueuable"), s)

def recordLimitation (id : ℕ) (code : String) (s : Store) : Except Fault Unit × Store :=
  if code.length = 0 then (.error (rangeError "character_evidence_limitation_invalid"), s)
  else
    match s.activeRun id with
    | none => (.ok (), s)
    | some run =>
      (.ok (), { s with runs := s.runs.set id { run with limitationCode := some code } })

/-- `ORDER BY completed_at DESC, id DESC`, where a null comes first. -/
def completedOrder (entry : ℕ × EvidenceRun) : WithTop Instant ×ₗ ℕ :=
  toLex (match entry.2.completedAt with
    | none => ⊤
    | some at_ => WithTop.some at_, entry.1)

/-- A published run with the rows it wrote. -/
def publishedRun (entry : ℕ × EvidenceRun) : Option (PublishedRun × RunEvidence) := do
  let state ← entry.2.status.published
  let completedAt ← entry.2.completedAt
  let rows ← s.evidence.get? entry.1
  some ({ id := entry.1
          completedAt := completedAt
          status := state
          tierSearchRaidId := entry.2.mode.tierSearchRaidId
          kills := rows.kills
          wipes := rows.wipes
          tierBests := rows.tierBests
          nodup_kills := rows.nodup_kills
          nodup_wipes := rows.nodup_wipes }, rows)

def publishedRuns (key : CharacterKey) : List PublishedRun :=
  ((s.runs.entries.filter (fun entry => entry.2.key = key)).filterMap s.publishedRun).map Prod.fst

def firstKillRuns (key : CharacterKey) : List RaiderIoFirstKills.FirstKillRun :=
  ((s.runs.entries.filter (fun entry => entry.2.key = key)).filterMap s.publishedRun).map
    (fun published => ⟨published.1.id, published.1.completedAt, published.2.firstKills,
      published.2.nodup_firstKills⟩)

def terminalKillRaidIds (key : CharacterKey) : Finset String :=
  terminalKillRaids ((s.terminalTiers.filter (fun mark => mark.1 = key)).map Prod.snd)

/-- A partial run that names nothing it fell short of. -/
def partialNamesNoReason (input : EvidencePublication) : Bool :=
  input.state = .partial_ && input.limitationCode.isNone && input.parseLimitationCode.isNone &&
    !input.scanSkipped &&
    (input.raiderIoFirstKills.bind RaiderIoFirstKills.Publication.limitationCode).isNone

/-- `character_evidence_publication_invalid` -/
def invalidPublication (input : EvidencePublication) : Bool :=
  (input.state = .complete && input.limitationCode.isSome) || partialNamesNoReason input

variable (catalogue : Catalogue)

/-- The rows a publication writes, merged with what the character has stored. -/
def publishedEvidence (s : Store) (id : ℕ) (run : EvidenceRun) (input : EvidencePublication) :
    RunEvidence :=
  let targeted := run.mode.tierSearchRaidId.isSome
  let stored := storedEvidenceForMerge catalogue.isNonRaidZone catalogue.lookupRaid
    (s.terminalKillRaidIds run.key) (s.publishedRuns run.key) input.state targeted
  { kills := (mergePublishedEvidence stored input.merged targeted).kills
    wipes := (mergePublishedEvidence stored input.merged targeted).wipes
    tierBests := (mergePublishedEvidence stored input.merged targeted).tierBests
    cuttingEdges := if targeted then [] else input.cuttingEdges
    firstKills := RaiderIoFirstKills.mergeRaiderIoFirstKills catalogue.localeCompare
      (RaiderIoFirstKills.loadLatestRaiderIoFirstKills (s.firstKillRuns run.key))
      ⟨id, input.completedAt, input.state, targeted, input.raiderIoFirstKills⟩
    nodup_kills := nodup_published_kill_urls _ _ _
    nodup_wipes := nodup_published_wipe_urls _ _ _
    nodup_firstKills := RaiderIoFirstKills.nodup_written _ _ _ }

def publishedRow (run : EvidenceRun) (input : EvidencePublication) : EvidenceRun :=
  let targeted := run.mode.tierSearchRaidId.isSome
  let skipped := targeted || input.scanSkipped
  let moves := !targeted && input.historyScanResumePage.isSome
  { run with
    status := .ofPublish input.state
    limitationCode := input.limitationCode
    parseLimitationCode := input.parseLimitationCode
    parseLimitationCodesSeen := some input.parseLimitationCodesSeen
    omittedInvalidTimestamp := input.omittedInvalidTimestamp
    retryAfterAt := input.retryAfterAt
    errorCode := none
    completedAt := some input.completedAt
    killScanSkipped := skipped
    killScanCompletedAt :=
      if skipped || input.limitationCode.isSome then run.killScanCompletedAt
      else some input.completedAt
    killScanResumePage :=
      if moves then input.historyScanResumePage.join else run.killScanResumePage
    killScanResumeBoundaryReportCode :=
      if moves then input.historyScanResumeBoundaryReportCode.join
      else run.killScanResumeBoundaryReportCode
    rankedBackfillCursor :=
      if input.rankedBackfillCursor.isSome then input.rankedBackfillCursor.join
      else run.rankedBackfillCursor
    rankedBackfillAttempted := input.rankedBackfillCursor.isSome
    publicationScope := if targeted then .tier else .full
    raiderIoLimitationCode :=
      input.raiderIoFirstKills.bind RaiderIoFirstKills.Publication.limitationCode }

/-- The terminal marker of the publication's own phase. -/
def publicationPhase (at_ : Instant) (state : PhaseState) (code : Option String)
    (row : EvidenceRunPhase) : EvidenceRunPhase :=
  { row with
    state := state
    startedAt := row.startedAt.or (some at_)
    completedAt := some at_
    limitationCode := code }

def markPublicationPhase (id : ℕ) (at_ : Instant) (state : PhaseState) (code : Option String)
    (phases : OrderedMap (ℕ × String) EvidenceRunPhase) :
    OrderedMap (ℕ × String) EvidenceRunPhase :=
  match phases.get? (id, "publication") with
  | none => phases
  | some row => phases.set (id, "publication") (publicationPhase at_ state code row)

def publish (id : ℕ) (input : EvidencePublication) (publishedFrom : PublishedFrom) (s : Store) :
    Except Fault Unit × Store :=
  if invalidPublication input then
    (.error (rangeError "character_evidence_publication_invalid"), s)
  else
    match s.activeRun id with
    | none => (.error (authored "character_evidence_run_not_active"), s)
    | some run =>
      let stopped := input.limitationCode = some "collection_failed"
      (.ok (), { s with
        runs := s.runs.set id (publishedRow run input)
        phases := markPublicationPhase id input.completedAt
          (if stopped then .failed else .completed)
          (if stopped then input.limitationCode else none) s.phases
        evidence := s.evidence.set id (publishedEvidence catalogue s id run input)
        collections := s.collections.erase id
        history := s.history ++
          [.settled id (.ofPublish input.state) (some publishedFrom)] })

def failedRow (code : String) (run : EvidenceRun) : EvidenceRun :=
  { run with
    status := .failed
    errorCode := some code
    completedAt := some now }

def fail (id : ℕ) (code : String) (s : Store) : Except Fault Unit × Store :=
  if code.length = 0 then (.error (rangeError "character_evidence_error_invalid"), s)
  else
    match s.activeRun id with
    | none => (.error (authored "character_evidence_run_not_active"), s)
    | some run =>
      (.ok (), { s with
        runs := s.runs.set id (failedRow now code run)
        phases := markPublicationPhase id now .failed (some code) s.phases
        history := s.history ++ [.settled id .failed none] })

/-- One row of the update that releases abandoned runs. -/
def releaseRun (s : Store) (id : ℕ) : Store :=
  match s.activeRun id with
  | none => s
  | some run =>
    { s with
      runs := s.runs.set id (failedRow now "abandoned" run)
      history := s.history ++ [.settled id .failed none] }

/-- The update, and how many rows it changed. -/
def releaseAbandoned (runIds : List ℕ) (s : Store) : ℕ × Store :=
  ((runIds.dedup.filter (fun id => (s.activeRun id).isSome)).length,
    runIds.foldl (releaseRun now) s)

variable (key : CharacterKey)

def markTerminalTiers (tiers : List TerminalTier) (s : Store) : Store :=
  { s with terminalTiers := s.terminalTiers ++ tiers.map (fun tier => (key, tier)) }

/-- Run by a reservation, which has found no active run of the character. -/
def invalidateHistoricAliasKillScan (s : Store) : Store :=
  { s with
    terminalTiers :=
      s.terminalTiers.filter (fun mark => ¬ (mark.1 = key ∧ mark.2.domain = .kills))
    runs := (s.runs.entries.filter (fun entry =>
        entry.2.key = key ∧ entry.2.status.published.isSome)).foldl (fun runs entry =>
      runs.set entry.1 { entry.2 with
        killScanCompletedAt := none
        killScanResumePage := none
        killScanResumeBoundaryReportCode := none }) s.runs }

/-! What a run reads of the ones before it. -/

/-- The newest row of those that qualify. -/
def newestCompleted (qualifies : EvidenceRun → Bool) : Option (ℕ × EvidenceRun) :=
  (s.runs.entries.filter (fun entry => qualifies entry.2)).argmax completedOrder

/-- A published run that read the history, or speaks for where it was left. -/
def scansHistory (run : EvidenceRun) : Bool :=
  run.key = key && run.status.published.isSome && !run.killScanSkipped

/-- A published search of the raid that walked its ranked reports. -/
def walkedRanked (raidId : String) (run : EvidenceRun) : Bool :=
  run.key = key && run.mode.tierSearchRaidId = some raidId && run.status.published.isSome &&
    run.rankedBackfillAttempted

/-- The run whose completion and shortfalls speak for a character: the newest
publication, or the newest full one where that is a search. -/
def completedRun (key : CharacterKey) : Option EvidenceRun :=
  let published (run : EvidenceRun) : Bool := run.key = key && run.status.published.isSome
  match s.newestCompleted published with
  | none => none
  | some snapshot =>
    if snapshot.2.publicationScope = .tier then
      ((s.newestCompleted (fun run => published run && run.publicationScope = .full)).map
        Prod.snd).or (some snapshot.2)
    else some snapshot.2

/-- The completion of the newest clean history scan. -/
def lastCleanKillScanAt (key : CharacterKey) : Option Instant :=
  ((s.runs.values.filter (fun run => run.key = key ∧ run.killScanSkipped = false ∧
    run.killScanCompletedAt.isSome)).argmax (fun run => run.killScanCompletedAt.getD 0)).bind
      EvidenceRun.completedAt

structure StoredEvidenceTiers where
  lastCleanKillScanAt : Option Instant
  parseWorkOutstanding : Bool
  historyScanResumePage : Option ℕ
  historyScanResumeBoundaryReportCode : Option String
  identityScanTurn : ℕ
  rankedBackfillCursor : Option StoredRankedBackfillCursor
  deriving DecidableEq

/-- A page of zero or an empty report code reads as none. -/
def storedEvidenceTiers (tierSearchRaidId : Option String) (s : Store) :
    StoredEvidenceTiers where
  lastCleanKillScanAt := s.lastCleanKillScanAt key
  parseWorkOutstanding :=
    (s.completedRun key).any (fun run =>
      run.limitationCode.isNone && run.parseLimitationCode.isSome)
  historyScanResumePage :=
    ((s.newestCompleted (scansHistory key)).bind (fun entry => entry.2.killScanResumePage)).filter
      (fun page => page ≠ 0)
  historyScanResumeBoundaryReportCode :=
    ((s.newestCompleted (scansHistory key)).bind
      (fun entry => entry.2.killScanResumeBoundaryReportCode)).filter (fun code => code ≠ "")
  identityScanTurn := (s.runs.values.filter (scansHistory key)).length
  rankedBackfillCursor :=
    tierSearchRaidId.bind (fun raidId =>
      (s.newestCompleted (walkedRanked key raidId)).bind
        (fun entry => entry.2.rankedBackfillCursor))

end Store

end SlashWho.EvidenceRuns
