import SlashWho.Characters
import SlashWho.EvidenceMerge
import SlashWho.EvidenceRetryPolicy
import SlashWho.IsoTimestamps
import SlashWho.JsonCodecs

/-!
What one run hands to storage, and the stage that holds it between the scan and
the publication. A field that may be absent is an option, and one that may also
be `null` an option of an option. The stage crosses a JSON boundary: its two
timestamps travel as text, and the rest as it is. A limitation code is text, as
storage takes it.
-/

namespace SlashWho.StagedCollections

open Characters EvidenceMerge EvidenceRetryPolicy IsoTimestamps JsonCodecs

/-! The dates of the runtime. -/

abbrev TimeValue := { t : ℤ // InRange t }

/-- A date, `none` where it is an invalid one. -/
abbrev Date := Option TimeValue

def dateToISOString : Date → Except Fault String
  | none => .error (rangeError "Invalid time value")
  | some t => .ok (toISOString t.1)

/-- How the runtime reads the text of a date. Text in other forms than the one
it writes is read as the runtime will. -/
structure DateReading where
  parse : String → Date
  parse_toISOString : ∀ t : TimeValue, parse (toISOString t.1) = some t

/-- The reading that knows no other form. -/
def isoReading : DateReading where
  parse text := (readISOString text).bind fun t => if h : InRange t then some ⟨t, h⟩ else none
  parse_toISOString t := by
    rw [readISOString_toISOString t.2, Option.bind_some, dif_pos t.2]

/-! What the rows are made of. -/

/-- A metric as the gateway states it; a percentile that is not finite is `none`. -/
inductive KillParseMetric
  | available (percentile : Option ℚ)
  | notApplicable
  | unavailable
  deriving DecidableEq

structure KillPerformance where
  spec : Option (Option KillSpec)
  damage : KillParseMetric
  healing : KillParseMetric
  bossDamage : KillParseMetric
  deriving DecidableEq

structure KillGuild where
  name : String
  realm : String
  region : Option Region
  deriving DecidableEq

structure CharacterMythicKillInput where
  raidId : String
  raidName : String
  bossId : String
  bossName : String
  journalBossId : Option String
  bossOrder : ℤ
  killedAt : String
  reportUrl : String
  fightUrl : String
  guild : Option KillGuild
  uploader : Option (Option String)
  historicWorldRank : Option (Option ℤ)
  historicRankCheckedAt : Option (Option String)
  performance : KillPerformance
  deriving DecidableEq

structure CharacterTierBestParseInput where
  raidId : String
  raidName : String
  bossId : String
  bossName : String
  rankingsUrl : String
  performance : KillPerformance
  deriving DecidableEq

structure WipeGuild where
  name : String
  realm : String
  deriving DecidableEq

structure CharacterMythicWipeInput where
  raidId : String
  raidName : String
  bossId : String
  bossName : String
  journalBossId : Option String
  bossOrder : ℤ
  attemptedAt : String
  reportUrl : String
  fightUrl : String
  guild : Option (Option WipeGuild)
  uploader : Option (Option String)
  deriving DecidableEq

structure CharacterCuttingEdgeInput where
  achievementId : String
  completedAt : String
  deriving DecidableEq

structure FirstKillGuild where
  name : String
  realm : String
  region : String
  deriving DecidableEq

inductive EncounterState
  | read
  | unavailable
  deriving DecidableEq

structure CharacterRaiderIoFirstKillInput where
  raidSlug : String
  bossSlug : String
  killedAt : String
  guild : Option FirstKillGuild
  loggedEncounterId : Option ℤ
  encounterState : EncounterState
  encounterLimitationCode : Option String
  historicWorldRank : Option ℤ
  historicRankCheckedAt : Option String
  presenceChecked : Option Bool
  deriving DecidableEq

structure RaiderIoFirstKillsPublication where
  kills : List CharacterRaiderIoFirstKillInput
  askedRaidSlugs : List String
  limitationCode : Option String
  deriving DecidableEq

structure HistoricAliasScanProgress where
  key : CharacterKey
  historyScanResumePage : Option ℤ
  historyScanResumeBoundaryReportCode : Option String
  historyComplete : Option Bool
  parseWorkOutstanding : Option Bool
  pendingParseFightUrls : Option (List String)
  deriving DecidableEq

structure StoredRankedBackfillCursor where
  journalRaidId : String
  characterId : Option ℤ
  zoneIds : List ℤ
  partitionIds : Option (List ℤ)
  zoneEncounterIds : Option (List (Option (List ℤ)))
  acceptedFightKeys : Option (List String)
  zonesLoaded : Bool
  zoneIndex : ℤ
  encounterIds : List ℤ
  encountersLoaded : Bool
  encounterIndex : ℤ
  metricIndex : ℤ
  reportIndex : ℤ
  deriving DecidableEq

structure TroubledRaidIds where
  parses : List String
  tierBests : List String
  deriving DecidableEq

/-- What one run hands to storage when its collection is done. -/
structure EvidencePublication where
  state : PublishState
  scanSkipped : Option Bool
  omittedInvalidTimestamp : Option Bool
  historyScanResumePage : Option (Option ℤ)
  historyScanResumeBoundaryReportCode : Option (Option String)
  historicAliasProgress : Option (List HistoricAliasScanProgress)
  rankedBackfillCursor : Option (Option StoredRankedBackfillCursor)
  limitationCode : Option String
  parseLimitationCode : Option String
  parseLimitationCodesSeen : List String
  retryAfterAt : Option (Option Date)
  kills : List CharacterMythicKillInput
  wipes : List CharacterMythicWipeInput
  tierBests : List CharacterTierBestParseInput
  cuttingEdges : List CharacterCuttingEdgeInput
  raiderIoFirstKills : Option RaiderIoFirstKillsPublication
  parsedFightUrls : List String
  completedAt : Date
  deriving DecidableEq

/-- The stage. Those written before a field existed lack it. -/
structure StagedEvidenceCollection where
  state : PublishState
  scanSkipped : Option Bool
  omittedInvalidTimestamp : Option Bool
  historyScanResumePage : Option (Option ℤ)
  historyScanResumeBoundaryReportCode : Option (Option String)
  historicAliasProgress : Option (List HistoricAliasScanProgress)
  rankedBackfillCursor : Option (Option StoredRankedBackfillCursor)
  limitationCode : Option String
  parseLimitationCode : Option String
  parseLimitationCodesSeen : Option (List String)
  retryAfterAt : Option String
  kills : List CharacterMythicKillInput
  wipes : List CharacterMythicWipeInput
  tierBests : List CharacterTierBestParseInput
  cuttingEdges : Option (List CharacterCuttingEdgeInput)
  raiderIoFirstKills : Option RaiderIoFirstKillsPublication
  parsedFightUrls : Option (List String)
  completedAt : String
  troubledRaidIds : Option TroubledRaidIds
  deriving DecidableEq

/-- `...(value ? { key: true } : {})` -/
def trueOrAbsent (value : Option Bool) : Option Bool :=
  if value = some true then some true else none

/-- An invalid date has no text, and throws. -/
def toStagedCollection (publication : EvidencePublication)
    (troubledRaidIds : Option TroubledRaidIds) : Except Fault StagedEvidenceCollection := do
  let retryAfterAt ← publication.retryAfterAt.join.mapM dateToISOString
  let completedAt ← dateToISOString publication.completedAt
  return {
    state := publication.state
    scanSkipped := trueOrAbsent publication.scanSkipped
    omittedInvalidTimestamp := trueOrAbsent publication.omittedInvalidTimestamp
    historyScanResumePage := publication.historyScanResumePage
    historyScanResumeBoundaryReportCode := publication.historyScanResumeBoundaryReportCode
    historicAliasProgress := publication.historicAliasProgress
    rankedBackfillCursor := publication.rankedBackfillCursor
    limitationCode := publication.limitationCode
    parseLimitationCode := publication.parseLimitationCode
    parseLimitationCodesSeen := some publication.parseLimitationCodesSeen
    retryAfterAt := retryAfterAt
    kills := publication.kills
    wipes := publication.wipes
    tierBests := publication.tierBests
    cuttingEdges := some publication.cuttingEdges
    raiderIoFirstKills := publication.raiderIoFirstKills
    parsedFightUrls := some publication.parsedFightUrls
    completedAt := completedAt
    troubledRaidIds := troubledRaidIds }

/-- The text of a field that is read only where it is not empty. -/
def truthy (value : Option String) : Option String := value.filter (· ≠ "")

def fromStagedCollection (dates : DateReading) (staged : StagedEvidenceCollection) :
    EvidencePublication where
  state := staged.state
  scanSkipped := trueOrAbsent staged.scanSkipped
  omittedInvalidTimestamp := trueOrAbsent staged.omittedInvalidTimestamp
  historyScanResumePage := staged.historyScanResumePage
  historyScanResumeBoundaryReportCode := staged.historyScanResumeBoundaryReportCode
  historicAliasProgress := staged.historicAliasProgress
  rankedBackfillCursor := staged.rankedBackfillCursor
  limitationCode := staged.limitationCode
  parseLimitationCode := staged.parseLimitationCode
  parseLimitationCodesSeen :=
    staged.parseLimitationCodesSeen.getD (truthy staged.parseLimitationCode).toList
  retryAfterAt := (truthy staged.retryAfterAt).map fun written => some (dates.parse written)
  kills := staged.kills
  wipes := staged.wipes
  tierBests := staged.tierBests
  cuttingEdges := staged.cuttingEdges.getD []
  raiderIoFirstKills := staged.raiderIoFirstKills
  parsedFightUrls := staged.parsedFightUrls.getD []
  completedAt := dates.parse staged.completedAt

end SlashWho.StagedCollections
