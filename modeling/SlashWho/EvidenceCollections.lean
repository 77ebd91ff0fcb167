import SlashWho.RankingDecode
import SlashWho.TerminalTiers

/-!
What the gateway answers about one identity, how the answers about a character's
former names are merged into the answer about its current one, and what the run
publishes and marks of the whole. A limitation of any identity limits the run. The
rank lookups and the other providers are asked elsewhere, and what they
answered is a parameter.
-/

namespace SlashWho.EvidenceCollections

open Characters EvidenceMerge IsoTimestamps RaidCatalogue TerminalTiers
open KillScanFloor (TerminalTier)
open RankingDecode (Limitation LimitationCode)
open StagedCollections (EvidencePublication CharacterMythicKillInput CharacterMythicWipeInput CharacterTierBestParseInput CharacterCuttingEdgeInput RaiderIoFirstKillsPublication HistoricAliasScanProgress StoredRankedBackfillCursor TroubledRaidIds KillPerformance Date DateReading)

/-! The retry policy of a limitation. -/

def codeText : LimitationCode → String
  | .notFound => "not_found"
  | .private_ => "private"
  | .rateLimited => "rate_limited"
  | .pointsBudgetLow => "points_budget_low"
  | .requestCap => "request_cap"
  | .historyLimit => "history_limit"
  | .unavailable => "unavailable"
  | .schemaDrift => "schema_drift"
  | .parsePrivate => "parse_private"
  | .parseRateLimited => "parse_rate_limited"
  | .parseRequestCap => "parse_request_cap"
  | .parseUnavailable => "parse_unavailable"
  | .parseIdentityUnmatched => "parse_identity_unmatched"
  | .parseSchemaDrift => "parse_schema_drift"

structure RetryDelays where
  transientRetryMs : ℚ
  capRetryMs : ℚ

def retryDelayMsFor (delays : RetryDelays) : LimitationCode → Option ℚ
  | .unavailable | .parseUnavailable | .rateLimited | .parseRateLimited =>
    some delays.transientRetryMs
  | .requestCap | .parseRequestCap => some delays.capRetryMs
  | .notFound | .historyLimit | .private_ | .parsePrivate => none
  | .schemaDrift | .parseSchemaDrift => none
  | .parseIdentityUnmatched => some delays.transientRetryMs
  | .pointsBudgetLow => none

def retryDelayMs (delays : RetryDelays) (limitation : Limitation) : Option ℚ :=
  limitation.retryAfterMs.or (retryDelayMsFor delays limitation.code)

/-- The first limitation that earns a retry, else the first. -/
def drivingLimitation (delays : RetryDelays) (limitations : List Limitation) : Option Limitation :=
  (limitations.find? fun limitation => (retryDelayMs delays limitation).isSome).or
    limitations.head?

/-! The gateway's answers. -/

structure EvidenceGuild where
  name : String
  region : Region
  realm : String
  deriving DecidableEq

structure FirstKillEvidence where
  raidId : String
  raidName : String
  bossId : String
  bossName : String
  journalBossId : Option String
  bossOrder : ℤ
  killedAt : String
  reportCode : String
  fightId : ℤ
  difficulty : ℤ
  performance : KillPerformance
  reportUrl : String
  fightUrl : String
  guild : Option EvidenceGuild
  uploader : Option (Option String)
  deriving DecidableEq

/-- A read that came back with evidence. The parse limitation it reports is one
of those it lists. -/
structure ReportEvidence where
  omittedInvalidTimestamp : Bool
  scanSkipped : Option Bool
  historyScanLimitReached : Bool
  historyScanResumePage : Option ℤ
  historyScanResumeBoundaryReportCode : Option String
  kills : List FirstKillEvidence
  wipes : List CharacterMythicWipeInput
  tierBests : List CharacterTierBestParseInput
  parsedFightUrls : List String
  troubledRaidIds : TroubledRaidIds
  limitation : Option Limitation
  parseLimitation : Option Limitation
  parseLimitations : Option (List Limitation)
  rankedBackfillCursor : Option (Option StoredRankedBackfillCursor)
  deriving DecidableEq

inductive ReportResult
  | evidence (evidence : ReportEvidence)
  | limitation (limitation : Limitation)
  deriving DecidableEq

/-! What the run publishes. -/

def toCharacterMythicKillInput (kill : FirstKillEvidence) : CharacterMythicKillInput where
  raidId := kill.raidId
  raidName := kill.raidName
  bossId := kill.bossId
  bossName := kill.bossName
  journalBossId := kill.journalBossId
  bossOrder := kill.bossOrder
  killedAt := kill.killedAt
  reportUrl := kill.reportUrl
  fightUrl := kill.fightUrl
  guild := kill.guild.map fun guild => ⟨guild.name, guild.realm, some guild.region⟩
  uploader := kill.uploader
  historicWorldRank := none
  historicRankCheckedAt := none
  performance := kill.performance

/-- What a rank lookup of this run came back with. -/
structure RankLookup where
  checkedAt : String
  historicWorldRank : Option ℤ

def withRank (lookup : CharacterMythicKillInput → Option RankLookup)
    (kill : CharacterMythicKillInput) : CharacterMythicKillInput :=
  match lookup kill with
  | none => kill
  | some found =>
    { kill with
      historicRankCheckedAt := some (some found.checkedAt)
      historicWorldRank := some found.historicWorldRank }

/-- What an attempt has in hand beside the gateway's answer: its job and the
stored history cursor, the former names' progress, the kills a ranked walk
accepted before, and what the other providers answered. -/
structure CollectedRun where
  tierSearchRaidId : Option String
  light : Bool
  hasAliases : Bool
  historicAliasProgress : List HistoricAliasScanProgress
  storedResumePage : Option ℤ
  storedResumeBoundaryReportCode : Option String
  carriedRankedKills : List FirstKillEvidence
  delays : RetryDelays
  rankLookup : CharacterMythicKillInput → Option RankLookup
  raiderIoFirstKills : Option RaiderIoFirstKillsPublication
  cuttingEdges : List CharacterCuttingEdgeInput
  retryFrom : Date
  completedAt : Date

namespace CollectedRun

variable (rt : Runtime) (generated : Generated) (run : CollectedRun)

def targeted : Bool := run.tierSearchRaidId.isSome

def movesHistoryBookmark : Bool := !run.targeted && !run.light

structure Bookmark where
  page : Option (Option ℤ)
  boundaryReportCode : Option (Option String)

def Bookmark.absent : Bookmark := ⟨none, none⟩

def Bookmark.cleared : Bookmark := ⟨some none, some none⟩

/-- The stored cursor, for a run that must not move it. -/
def carriedHistoryBookmark : Bookmark :=
  match run.storedResumePage with
  | none => .absent
  | some page => ⟨some (some page), some run.storedResumeBoundaryReportCode⟩

variable (response : ReportEvidence)

def historyBookmark : Bookmark :=
  if run.targeted || response.scanSkipped = some true then .absent
  else if response.historyScanLimitReached then .cleared
  else if !run.movesHistoryBookmark then run.carriedHistoryBookmark
  else
    match response.historyScanResumePage with
    | some page => ⟨some (some page), some response.historyScanResumeBoundaryReportCode⟩
    | none =>
      if response.limitation.isNone then
        if run.storedResumePage.isSome then .cleared else .absent
      else run.carriedHistoryBookmark

/-- A targeted search publishes only its own raid, which the boss decides. -/
def inScope (raidName bossName : String) (journalBossId : Option String) : Bool :=
  match run.tierSearchRaidId with
  | none => true
  | some raidId =>
    (lookupRaidForEvidence rt generated raidName bossName journalBossId).map
      RaidCatalogueRaid.raidId = some raidId

def allKills : List FirstKillEvidence :=
  ((OrderedMap.ofList (run.carriedRankedKills.map fun kill => (kill.fightUrl, kill))).setAll
    ((response.kills.filter fun kill =>
      run.inScope rt generated kill.raidName kill.bossName kill.journalBossId).map
        fun kill => (kill.fightUrl, kill))).values

def parseLimitationsSeen : List Limitation :=
  response.parseLimitations.getD response.parseLimitation.toList

def drivingParse : Option Limitation :=
  drivingLimitation run.delays (parseLimitationsSeen response)

/-- Honest about the run: any shortfall makes it partial. -/
def incomplete : Bool :=
  response.limitation.isSome || (run.drivingParse response).isSome ||
    (!run.targeted && response.scanSkipped = some true) ||
    (run.raiderIoFirstKills.bind RaiderIoFirstKillsPublication.limitationCode).isSome

/-- A date some milliseconds on, a fraction of one cut off. -/
def dateAfter (date : Date) (ms : ℚ) : Date :=
  date.bind fun t =>
    let value := (t.1 : ℚ) + ms
    let whole := if 0 ≤ value then ⌊value⌋ else ⌈value⌉
    if h : InRange whole then some ⟨whole, h⟩ else none

def retryAfterMs : ℚ :=
  max ((response.limitation.bind (retryDelayMs run.delays)).getD 0)
    (((run.drivingParse response).bind (retryDelayMs run.delays)).getD 0)

def settledPublication : EvidencePublication where
  state := if run.incomplete response then .partial_ else .complete
  scanSkipped :=
    if run.targeted || response.scanSkipped = some true then some true else none
  omittedInvalidTimestamp := if response.omittedInvalidTimestamp then some true else none
  historyScanResumePage := (run.historyBookmark response).page
  historyScanResumeBoundaryReportCode := (run.historyBookmark response).boundaryReportCode
  historicAliasProgress :=
    if !run.targeted && run.hasAliases then some run.historicAliasProgress else none
  rankedBackfillCursor := response.rankedBackfillCursor
  limitationCode := response.limitation.map fun limitation => codeText limitation.code
  parseLimitationCode := (run.drivingParse response).map fun limitation => codeText limitation.code
  parseLimitationCodesSeen :=
    (parseLimitationsSeen response).map fun limitation => codeText limitation.code
  retryAfterAt :=
    if 0 < run.retryAfterMs response then
      some (some (dateAfter run.retryFrom (run.retryAfterMs response)))
    else none
  kills := ((run.allKills rt generated response).map toCharacterMythicKillInput).map
    (withRank run.rankLookup)
  wipes := response.wipes.filter fun wipe =>
    run.inScope rt generated wipe.raidName wipe.bossName wipe.journalBossId
  tierBests := response.tierBests.filter fun parse =>
    run.inScope rt generated parse.raidName parse.bossName none
  cuttingEdges := run.cuttingEdges
  raiderIoFirstKills := run.raiderIoFirstKills
  parsedFightUrls :=
    if run.targeted then
      response.parsedFightUrls.filter fun url =>
        url ∈ (run.allKills rt generated response).map FirstKillEvidence.fightUrl
    else response.parsedFightUrls
  completedAt := run.completedAt

/-- The scan stopped before any parse work. -/
def limitedPublication (limitation : Limitation) : EvidencePublication where
  state := .partial_
  scanSkipped := if run.targeted then some true else none
  omittedInvalidTimestamp := none
  historyScanResumePage := if run.targeted then none else run.carriedHistoryBookmark.page
  historyScanResumeBoundaryReportCode :=
    if run.targeted then none else run.carriedHistoryBookmark.boundaryReportCode
  historicAliasProgress :=
    if !run.targeted && run.hasAliases then some run.historicAliasProgress else none
  rankedBackfillCursor := none
  limitationCode := some (codeText limitation.code)
  parseLimitationCode := none
  parseLimitationCodesSeen := []
  retryAfterAt :=
    (retryDelayMs run.delays limitation).map fun ms => some (dateAfter run.retryFrom ms)
  kills := []
  wipes := []
  tierBests := []
  cuttingEdges := []
  raiderIoFirstKills := none
  parsedFightUrls := []
  completedAt := run.completedAt

def publicationOf : ReportResult → EvidencePublication
  | .evidence response => run.settledPublication rt generated response
  | .limitation limitation => run.limitedPublication limitation

/-- The trouble sets that travel with the stage. -/
def troubledRaidIds : ReportResult → Option TroubledRaidIds
  | .evidence response => if run.targeted then none else some response.troubledRaidIds
  | .limitation _ => if run.targeted then none else some ⟨[], []⟩

/-! What the run marks, once it has published. -/

def markedKill (kill : FirstKillEvidence) : TerminalTierKill where
  raidId := kill.raidId
  raidName := kill.raidName
  killedAt := kill.killedAt
  bossName := some kill.bossName
  journalBossId := some kill.journalBossId

/-- A targeted search and a run whose scan stopped settle nothing. -/
def marks (dates : DateReading) (settleMs : ℤ) (at_ : Date) : ReportResult → List TerminalTier
  | .limitation _ => []
  | .evidence response =>
    if run.targeted then []
    else terminalTiersFrom rt generated dates
      { at_ := at_
        settleMs := settleMs
        kills := (run.allKills rt generated response).map markedKill
        scanSkipped := response.scanSkipped = some true
        scanLimitation := response.limitation.map fun limitation => codeText limitation.code
        troubledRaidIds := response.troubledRaidIds }

end CollectedRun

end SlashWho.EvidenceCollections
