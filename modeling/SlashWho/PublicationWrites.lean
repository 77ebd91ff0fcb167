import SlashWho.ComparatorSort
import SlashWho.StageCodecs

/-!
What a publication writes of one run: the merged rows of every table, the run's
own columns and the terminal marker of its last phase. Presence of a field, not
its value, decides whether the history cursor, the former names' progress and
the ranked cursor move. What is stored for the character is read before and is
a parameter; the rows are kept as the entries the inserts read their columns of.
-/

namespace SlashWho.PublicationWrites

open EvidenceMerge EvidenceRetryPolicy JsonNarrowing JsonCodecs
open StagedCollections (EvidencePublication CharacterMythicKillInput CharacterMythicWipeInput CharacterTierBestParseInput CharacterCuttingEdgeInput CharacterRaiderIoFirstKillInput RaiderIoFirstKillsPublication HistoricAliasScanProgress KillPerformance KillParseMetric TimeValue Date)

/-! The parses of a kill, as `publish` lets them through. -/

def parseMetricValues : KillParseMetric → Except Fault ParseMetric
  | .available (some percentile) =>
    if h : 0 ≤ percentile ∧ percentile ≤ 100 then .ok (.available ⟨percentile, h⟩)
    else .error (rangeError "character_mythic_kill_parse_invalid")
  | .available none => .error (rangeError "character_mythic_kill_parse_invalid")
  | .notApplicable => .ok .notApplicable
  | .unavailable => .ok .unavailable

def parsePerformanceValues (performance : KillPerformance) : Except Fault PerformanceValues := do
  let damage ← parseMetricValues performance.damage
  let healing ← parseMetricValues performance.healing
  let bossDamage ← parseMetricValues performance.bossDamage
  return ⟨performance.spec.join, damage, healing, bossDamage⟩

/-! The rows. -/

structure HistoricRank where
  historicWorldRank : Option ℤ
  historicRankCheckedAt : Option String

structure KillEntry where
  kill : CharacterMythicKillInput
  performance : PerformanceValues
  deriving DecidableEq

structure StoredTierBest where
  tierBest : CharacterTierBestParseInput
  performance : PerformanceValues
  collectedAt : TimeValue
  deriving DecidableEq

structure MergedKill where
  kill : CharacterMythicKillInput
  performance : PerformanceValues
  historicWorldRank : Option ℤ
  historicRankCheckedAt : Option String
  collectedAt : TimeValue
  parsesReadAt : Option TimeValue
  deriving DecidableEq

/-- What the transaction reads of the character before it writes. -/
structure StoredEvidence where
  kills : List CharacterMythicKillInput
  wipes : List CharacterMythicWipeInput
  tierSearchKills : List CharacterMythicKillInput
  terminalKillRaidIds : List String
  performanceByFightUrl : OrderedMap String PerformanceValues
  collectedAtByFightUrl : OrderedMap String TimeValue
  parsesReadAtByFightUrl : OrderedMap String TimeValue
  historicRankByFightUrl : OrderedMap String HistoricRank
  tierBests : OrderedMap (String × String) StoredTierBest
  firstKills : List CharacterRaiderIoFirstKillInput

structure MergedEvidence where
  kills : List MergedKill
  wipes : List CharacterMythicWipeInput
  tierBests : List StoredTierBest
  deriving DecidableEq

variable (stored : StoredEvidence) (input : EvidencePublication) (completedAt : TimeValue)
  (targeted : Bool)

def entryOf (kill : CharacterMythicKillInput) : Except Fault KillEntry :=
  (parsePerformanceValues kill.performance).map fun performance => ⟨kill, performance⟩

/-- The kills loaded from the latest search of each tier, for a complete ordinary publish. -/
def loadedTierSearchKills : List CharacterMythicKillInput :=
  if input.state = .complete ∧ targeted = false then stored.tierSearchKills else []

def previousKills : List CharacterMythicKillInput :=
  if input.state = .partial_ ∨ targeted then stored.kills
  else (OrderedMap.ofList
    ((loadedTierSearchKills stored input targeted ++
      stored.kills.filter (fun kill => kill.raidId ∈ stored.terminalKillRaidIds)).map
        (fun kill => (kill.fightUrl, kill)))).values

def previousWipes : List CharacterMythicWipeInput :=
  if input.state = .partial_ ∨ targeted then stored.wipes
  else stored.wipes.filter (fun wipe => wipe.raidId ∈ stored.terminalKillRaidIds)

def incomingFightUrls : List String := input.kills.map CharacterMythicKillInput.fightUrl

/-- A targeted search vouches only for the fights it publishes. -/
def parsedFightUrls : List String :=
  input.parsedFightUrls.filter (fun url => !targeted || url ∈ incomingFightUrls input)

def addIncomingKill (kills : OrderedMap String KillEntry) (entry : KillEntry) :
    OrderedMap String KillEntry :=
  kills.set entry.kill.fightUrl
    { kill := entry.kill
      performance :=
        match ((kills.get? entry.kill.fightUrl).map KillEntry.performance).or
            (stored.performanceByFightUrl.get? entry.kill.fightUrl) with
        | none => entry.performance
        | some previous => mergePerformanceValues previous entry.performance }

def publishedKill (entry : KillEntry) : MergedKill where
  kill := entry.kill
  performance := entry.performance
  historicWorldRank :=
    entry.kill.historicWorldRank.join.or
      ((stored.historicRankByFightUrl.get? entry.kill.fightUrl).bind
        HistoricRank.historicWorldRank)
  historicRankCheckedAt :=
    entry.kill.historicRankCheckedAt.join.or
      ((stored.historicRankByFightUrl.get? entry.kill.fightUrl).bind
        HistoricRank.historicRankCheckedAt)
  collectedAt :=
    if entry.kill.fightUrl ∈ incomingFightUrls input then completedAt
    else (stored.collectedAtByFightUrl.get? entry.kill.fightUrl).getD completedAt
  parsesReadAt :=
    if entry.kill.fightUrl ∈ parsedFightUrls input targeted then some completedAt
    else stored.parsesReadAtByFightUrl.get? entry.kill.fightUrl

def addIncomingTierBest (tierBests : OrderedMap (String × String) StoredTierBest)
    (tierBest : CharacterTierBestParseInput) :
    Except Fault (OrderedMap (String × String) StoredTierBest) := do
  let performance ← parsePerformanceValues tierBest.performance
  return tierBests.set (tierBest.raidId, tierBest.bossId)
    { tierBest := tierBest
      performance :=
        match tierBests.get? (tierBest.raidId, tierBest.bossId) with
        | none => performance
        | some previous => mergePerformanceValues previous.performance performance
      collectedAt := completedAt }

def mergePublishedEvidence : Except Fault MergedEvidence := do
  let incoming ← input.kills.mapM entryOf
  let previous ← (previousKills stored input targeted).mapM entryOf
  let carried := OrderedMap.ofList (previous.map fun entry => (entry.kill.fightUrl, entry))
  let tierBests ← input.tierBests.foldlM (addIncomingTierBest completedAt) stored.tierBests
  return {
    kills := (incoming.foldl (addIncomingKill stored) carried).values.map
      (publishedKill stored input completedAt targeted)
    wipes := (OrderedMap.ofList ((previousWipes stored input targeted ++ input.wipes).map
      (fun wipe => (wipe.fightUrl, wipe)))).values
    tierBests := tierBests.values }

/-! The Raider.IO first kills. -/

def firstKillKey (kill : CharacterRaiderIoFirstKillInput) : String :=
  kill.raidSlug ++ "\x00" ++ kill.bossSlug

/-- A read first kill is not lost to a later read that failed. -/
def mergeFirstKill (previous incoming : CharacterRaiderIoFirstKillInput) :
    CharacterRaiderIoFirstKillInput :=
  let keepRead := previous.encounterState = .read ∧ incoming.encounterState ≠ .read ∧
    (incoming.loggedEncounterId = none ∨
      previous.loggedEncounterId = incoming.loggedEncounterId)
  let rank := if incoming.historicRankCheckedAt.isSome then incoming else previous
  let kept := if keepRead then
      { incoming with
        killedAt := previous.killedAt
        loggedEncounterId := previous.loggedEncounterId
        encounterState := .read
        encounterLimitationCode := none
        presenceChecked := some (previous.presenceChecked = some true) }
    else incoming
  { kept with
    historicWorldRank := rank.historicWorldRank
    historicRankCheckedAt := rank.historicRankCheckedAt }

def mergeRaiderIoFirstKills (localeCompare : String → String → Ordering)
    (stored : List CharacterRaiderIoFirstKillInput)
    (input : Option RaiderIoFirstKillsPublication) (state : PublishState) (targeted : Bool) :
    List CharacterRaiderIoFirstKillInput :=
  let asked := (input.map RaiderIoFirstKillsPublication.askedRaidSlugs).getD []
  let carried := stored.filter fun kill =>
    input.isNone || targeted || state = .partial_ || kill.raidSlug ∉ asked
  let previous := OrderedMap.ofList (stored.map fun kill => (firstKillKey kill, kill))
  let incoming := if targeted then [] else
    (input.map RaiderIoFirstKillsPublication.kills).getD []
  let merged := incoming.map fun kill =>
    match previous.get? (firstKillKey kill) with
    | none => kill
    | some before => mergeFirstKill before kill
  ComparatorSort.sortBy
    (fun a b => (localeCompare a.killedAt b.killedAt).then
      (localeCompare (firstKillKey a) (firstKillKey b)))
    (OrderedMap.ofList ((carried ++ merged).map fun kill => (firstKillKey kill, kill))).values

/-! The run's columns. -/

inductive PublicationScope
  | full
  | tier
  deriving DecidableEq

/-- The columns of an active run that a publication sets or keeps. A cursor is
its JSON, and SQL's null is `none`. -/
structure RunColumns where
  status : Option PublishState
  limitationCode : Option String
  parseLimitationCode : Option String
  parseLimitationCodesSeen : Option (List String)
  omittedInvalidTimestamp : Bool
  retryAfterAt : Option TimeValue
  errorCode : Option String
  completedAt : Option TimeValue
  evidenceVersion : Option ℕ
  killScanSkipped : Bool
  killScanCompletedAt : Option TimeValue
  killScanResumePage : Option ℤ
  killScanResumeBoundaryReportCode : Option String
  rankedBackfillCursor : Option Json
  rankedBackfillAttempted : Bool
  historicAliasProgress : Option Json
  publicationScope : PublicationScope
  raiderIoLimitationCode : Option String

def aliasProgressJson (progress : Option (List HistoricAliasScanProgress)) : Json :=
  match progress with
  | none => .null
  | some progress => (list StagedCollections.aliasProgressCodec).encode progress

/-- A partial run must name what it fell short of. -/
def partialNamesNoReason (input : EvidencePublication) : Bool :=
  input.state = .partial_ && input.limitationCode.isNone && input.parseLimitationCode.isNone &&
    input.scanSkipped ≠ some true &&
    (input.raiderIoFirstKills.bind RaiderIoFirstKillsPublication.limitationCode).isNone

def guildInvalid (kill : CharacterMythicKillInput) : Bool :=
  kill.guild.any fun guild => guild.name.isEmpty || guild.realm.isEmpty

/-- What is checked of a kill before the transaction opens. -/
def checkKill (kill : CharacterMythicKillInput) : Except Fault Unit :=
  if guildInvalid kill then .error (rangeError "character_evidence_guild_invalid")
  else (parsePerformanceValues kill.performance).map fun _ => ()

/-- A timestamp column takes no invalid date. -/
def timestampParameter : Date → Except Fault TimeValue
  | none => .error (authored "invalid input syntax for type timestamp with time zone")
  | some t => .ok t

/-- `CURRENT_EVIDENCE_VERSION` is a constant of another module. -/
def runUpdate (evidenceVersion : ℕ) (targeted : Bool) (run : RunColumns)
    (input : EvidencePublication) (completedAt : TimeValue) : Except Fault RunColumns := do
  let retryAfterAt ← input.retryAfterAt.join.mapM timestampParameter
  let skipped := targeted || input.scanSkipped.getD false
  let movesHistory := !targeted && input.historyScanResumePage.isSome
  return {
    status := some input.state
    limitationCode := input.limitationCode
    parseLimitationCode := input.parseLimitationCode
    parseLimitationCodesSeen := some input.parseLimitationCodesSeen
    omittedInvalidTimestamp := input.omittedInvalidTimestamp.getD false
    retryAfterAt := retryAfterAt
    errorCode := none
    completedAt := some completedAt
    evidenceVersion := some evidenceVersion
    killScanSkipped := skipped
    killScanCompletedAt :=
      if skipped || input.limitationCode.isSome then run.killScanCompletedAt
      else some completedAt
    killScanResumePage :=
      if movesHistory then input.historyScanResumePage.join else run.killScanResumePage
    killScanResumeBoundaryReportCode :=
      if movesHistory then input.historyScanResumeBoundaryReportCode.join
      else run.killScanResumeBoundaryReportCode
    rankedBackfillCursor :=
      if input.rankedBackfillCursor.isSome then
        input.rankedBackfillCursor.join.map StagedCollections.cursorCodec.encode
      else run.rankedBackfillCursor
    rankedBackfillAttempted := input.rankedBackfillCursor.isSome
    historicAliasProgress :=
      if !targeted && input.historicAliasProgress.isSome then
        some (aliasProgressJson input.historicAliasProgress)
      else run.historicAliasProgress
    publicationScope := if targeted then .tier else .full
    raiderIoLimitationCode :=
      input.raiderIoFirstKills.bind RaiderIoFirstKillsPublication.limitationCode }

/-- What the transaction writes; the phase marker is the limitation it failed under. -/
structure PublicationWrite where
  evidence : MergedEvidence
  cuttingEdges : List CharacterCuttingEdgeInput
  firstKills : List CharacterRaiderIoFirstKillInput
  publicationPhase : Option String
  run : RunColumns

/-- `publish` of an active run. What throws writes nothing. -/
def publish (localeCompare : String → String → Ordering) (evidenceVersion : ℕ)
    (stored : StoredEvidence) (targeted : Bool) (run : RunColumns)
    (input : EvidencePublication) : Except Fault PublicationWrite :=
  match input.completedAt with
  | none => .error (rangeError "character_evidence_publication_invalid")
  | some completedAt =>
    if (input.state = .complete && input.limitationCode.isSome) || partialNamesNoReason input then
      .error (rangeError "character_evidence_publication_invalid")
    else do
      input.kills.forM checkKill
      let evidence ← mergePublishedEvidence stored input completedAt targeted
      let columns ← runUpdate evidenceVersion targeted run input completedAt
      return {
        evidence := evidence
        cuttingEdges := if targeted then [] else input.cuttingEdges
        firstKills := mergeRaiderIoFirstKills localeCompare stored.firstKills
          input.raiderIoFirstKills input.state targeted
        publicationPhase := input.limitationCode.filter (· = "collection_failed")
        run := columns }

end SlashWho.PublicationWrites
