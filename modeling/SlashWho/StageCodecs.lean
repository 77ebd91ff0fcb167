import SlashWho.StagedCollections

/-!
The JSON of a stage. Each record is an object under the source's own keys; a
field that is absent is not written. What a stage is read back as is the stage.
-/

namespace SlashWho.StagedCollections

open Characters EvidenceMerge JsonNarrowing JsonCodecs

def nullableText : Codec (Option String) := nullable text nofun

def nullableRational : Codec (Option ℚ) := nullable rational nofun

def nullableInteger : Codec (Option ℤ) := nullable integer nofun

def nullableIntegers : Codec (Option (List ℤ)) := nullable (list integer) nofun

def regionCodec : Codec Region :=
  oneOf [.us, .eu, .kr, .tw] Region.code (by intro a; cases a <;> decide)

def PublishState.code : PublishState → String
  | .complete => "complete"
  | .partial_ => "partial"

def stateCodec : Codec PublishState :=
  oneOf [.complete, .partial_] PublishState.code (by intro a; cases a <;> decide)

def EncounterState.code : EncounterState → String
  | .read => "read"
  | .unavailable => "unavailable"

def encounterStateCodec : Codec EncounterState :=
  oneOf [.read, .unavailable] EncounterState.code (by intro a; cases a <;> decide)

def keyCodec : Codec CharacterKey where
  encode key := objectOf
    [("region", some (regionCodec.encode key.region)), ("realm", some (text.encode key.realm)),
      ("name", some (text.encode key.name))]
  decode value := do
    return {
      region := ← requiredField regionCodec value "region"
      realm := ← requiredField text value "realm"
      name := ← requiredField text value "name" }
  decode_encode key := by simp [requiredField]

def specCodec : Codec KillSpec where
  encode spec := objectOf
    [("name", some (text.encode spec.name)), ("iconUrl", some (text.encode spec.iconUrl))]
  decode value := do
    return {
      name := ← requiredField text value "name"
      iconUrl := ← requiredField text value "iconUrl" }
  decode_encode spec := by simp [requiredField]

/-- A spec the gateway knows to be none is `null`; one it does not state is not written. -/
def nullableSpec : Codec (Option KillSpec) :=
  nullable specCodec fun _ => objectOf_ne_null _

/-- A percentile that is not finite is written `null`. -/
def metricCodec : Codec KillParseMetric where
  encode
    | .available percentile => objectOf
        [("state", some (text.encode "available")),
          ("percentile", some (nullableRational.encode percentile))]
    | .notApplicable => objectOf [("state", some (text.encode "not_applicable"))]
    | .unavailable => objectOf [("state", some (text.encode "unavailable"))]
  decode value := do
    match ← requiredField text value "state" with
    | "available" => return .available (← requiredField nullableRational value "percentile")
    | "not_applicable" => return .notApplicable
    | "unavailable" => return .unavailable
    | _ => none
  decode_encode metric := by cases metric <;> simp [requiredField]

def performanceCodec : Codec KillPerformance where
  encode performance := objectOf
    [("spec", performance.spec.map nullableSpec.encode),
      ("damage", some (metricCodec.encode performance.damage)),
      ("healing", some (metricCodec.encode performance.healing)),
      ("bossDamage", some (metricCodec.encode performance.bossDamage))]
  decode value := do
    return {
      spec := ← optionalField nullableSpec value "spec"
      damage := ← requiredField metricCodec value "damage"
      healing := ← requiredField metricCodec value "healing"
      bossDamage := ← requiredField metricCodec value "bossDamage" }
  decode_encode performance := by simp [requiredField, optionalField]

/-- The region may be absent; the name and the realm may not. -/
def killGuildCodec : Codec KillGuild where
  encode guild := objectOf
    [("name", some (text.encode guild.name)), ("realm", some (text.encode guild.realm)),
      ("region", guild.region.map regionCodec.encode)]
  decode value := do
    return {
      name := ← requiredField text value "name"
      realm := ← requiredField text value "realm"
      region := ← optionalField regionCodec value "region" }
  decode_encode guild := by simp [requiredField, optionalField]

def nullableKillGuild : Codec (Option KillGuild) :=
  nullable killGuildCodec fun _ => objectOf_ne_null _

/-- A kill's uploader and rank may be absent, or known to be none. -/
def killCodec : Codec CharacterMythicKillInput where
  encode kill := objectOf
    [("raidId", some (text.encode kill.raidId)), ("raidName", some (text.encode kill.raidName)),
      ("bossId", some (text.encode kill.bossId)), ("bossName", some (text.encode kill.bossName)),
      ("journalBossId", some (nullableText.encode kill.journalBossId)),
      ("bossOrder", some (integer.encode kill.bossOrder)),
      ("killedAt", some (text.encode kill.killedAt)),
      ("reportUrl", some (text.encode kill.reportUrl)),
      ("fightUrl", some (text.encode kill.fightUrl)),
      ("guild", some (nullableKillGuild.encode kill.guild)),
      ("uploader", kill.uploader.map nullableText.encode),
      ("historicWorldRank", kill.historicWorldRank.map nullableInteger.encode),
      ("historicRankCheckedAt", kill.historicRankCheckedAt.map nullableText.encode),
      ("performance", some (performanceCodec.encode kill.performance))]
  decode value := do
    return {
      raidId := ← requiredField text value "raidId"
      raidName := ← requiredField text value "raidName"
      bossId := ← requiredField text value "bossId"
      bossName := ← requiredField text value "bossName"
      journalBossId := ← requiredField nullableText value "journalBossId"
      bossOrder := ← requiredField integer value "bossOrder"
      killedAt := ← requiredField text value "killedAt"
      reportUrl := ← requiredField text value "reportUrl"
      fightUrl := ← requiredField text value "fightUrl"
      guild := ← requiredField nullableKillGuild value "guild"
      uploader := ← optionalField nullableText value "uploader"
      historicWorldRank := ← optionalField nullableInteger value "historicWorldRank"
      historicRankCheckedAt := ← optionalField nullableText value "historicRankCheckedAt"
      performance := ← requiredField performanceCodec value "performance" }
  decode_encode kill := by simp [requiredField, optionalField]

def tierBestCodec : Codec CharacterTierBestParseInput where
  encode tierBest := objectOf
    [("raidId", some (text.encode tierBest.raidId)),
      ("raidName", some (text.encode tierBest.raidName)),
      ("bossId", some (text.encode tierBest.bossId)),
      ("bossName", some (text.encode tierBest.bossName)),
      ("rankingsUrl", some (text.encode tierBest.rankingsUrl)),
      ("performance", some (performanceCodec.encode tierBest.performance))]
  decode value := do
    return {
      raidId := ← requiredField text value "raidId"
      raidName := ← requiredField text value "raidName"
      bossId := ← requiredField text value "bossId"
      bossName := ← requiredField text value "bossName"
      rankingsUrl := ← requiredField text value "rankingsUrl"
      performance := ← requiredField performanceCodec value "performance" }
  decode_encode tierBest := by simp [requiredField]

def wipeGuildCodec : Codec WipeGuild where
  encode guild := objectOf
    [("name", some (text.encode guild.name)), ("realm", some (text.encode guild.realm))]
  decode value := do
    return {
      name := ← requiredField text value "name"
      realm := ← requiredField text value "realm" }
  decode_encode guild := by simp [requiredField]

def nullableWipeGuild : Codec (Option WipeGuild) :=
  nullable wipeGuildCodec fun _ => objectOf_ne_null _

/-- A wipe may lack its guild and its uploader. -/
def wipeCodec : Codec CharacterMythicWipeInput where
  encode wipe := objectOf
    [("raidId", some (text.encode wipe.raidId)), ("raidName", some (text.encode wipe.raidName)),
      ("bossId", some (text.encode wipe.bossId)), ("bossName", some (text.encode wipe.bossName)),
      ("journalBossId", some (nullableText.encode wipe.journalBossId)),
      ("bossOrder", some (integer.encode wipe.bossOrder)),
      ("attemptedAt", some (text.encode wipe.attemptedAt)),
      ("reportUrl", some (text.encode wipe.reportUrl)),
      ("fightUrl", some (text.encode wipe.fightUrl)),
      ("guild", wipe.guild.map nullableWipeGuild.encode),
      ("uploader", wipe.uploader.map nullableText.encode)]
  decode value := do
    return {
      raidId := ← requiredField text value "raidId"
      raidName := ← requiredField text value "raidName"
      bossId := ← requiredField text value "bossId"
      bossName := ← requiredField text value "bossName"
      journalBossId := ← requiredField nullableText value "journalBossId"
      bossOrder := ← requiredField integer value "bossOrder"
      attemptedAt := ← requiredField text value "attemptedAt"
      reportUrl := ← requiredField text value "reportUrl"
      fightUrl := ← requiredField text value "fightUrl"
      guild := ← optionalField nullableWipeGuild value "guild"
      uploader := ← optionalField nullableText value "uploader" }
  decode_encode wipe := by simp [requiredField, optionalField]

def cuttingEdgeCodec : Codec CharacterCuttingEdgeInput where
  encode edge := objectOf
    [("achievementId", some (text.encode edge.achievementId)),
      ("completedAt", some (text.encode edge.completedAt))]
  decode value := do
    return {
      achievementId := ← requiredField text value "achievementId"
      completedAt := ← requiredField text value "completedAt" }
  decode_encode edge := by simp [requiredField]

def firstKillGuildCodec : Codec FirstKillGuild where
  encode guild := objectOf
    [("name", some (text.encode guild.name)), ("realm", some (text.encode guild.realm)),
      ("region", some (text.encode guild.region))]
  decode value := do
    return {
      name := ← requiredField text value "name"
      realm := ← requiredField text value "realm"
      region := ← requiredField text value "region" }
  decode_encode guild := by simp [requiredField]

def nullableFirstKillGuild : Codec (Option FirstKillGuild) :=
  nullable firstKillGuildCodec fun _ => objectOf_ne_null _

/-- A first kill may lack `presenceChecked` alone. -/
def firstKillCodec : Codec CharacterRaiderIoFirstKillInput where
  encode kill := objectOf
    [("raidSlug", some (text.encode kill.raidSlug)),
      ("bossSlug", some (text.encode kill.bossSlug)),
      ("killedAt", some (text.encode kill.killedAt)),
      ("guild", some (nullableFirstKillGuild.encode kill.guild)),
      ("loggedEncounterId", some (nullableInteger.encode kill.loggedEncounterId)),
      ("encounterState", some (encounterStateCodec.encode kill.encounterState)),
      ("encounterLimitationCode", some (nullableText.encode kill.encounterLimitationCode)),
      ("historicWorldRank", some (nullableInteger.encode kill.historicWorldRank)),
      ("historicRankCheckedAt", some (nullableText.encode kill.historicRankCheckedAt)),
      ("presenceChecked", kill.presenceChecked.map flag.encode)]
  decode value := do
    return {
      raidSlug := ← requiredField text value "raidSlug"
      bossSlug := ← requiredField text value "bossSlug"
      killedAt := ← requiredField text value "killedAt"
      guild := ← requiredField nullableFirstKillGuild value "guild"
      loggedEncounterId := ← requiredField nullableInteger value "loggedEncounterId"
      encounterState := ← requiredField encounterStateCodec value "encounterState"
      encounterLimitationCode := ← requiredField nullableText value "encounterLimitationCode"
      historicWorldRank := ← requiredField nullableInteger value "historicWorldRank"
      historicRankCheckedAt := ← requiredField nullableText value "historicRankCheckedAt"
      presenceChecked := ← optionalField flag value "presenceChecked" }
  decode_encode kill := by simp [requiredField, optionalField]

def firstKillsCodec : Codec RaiderIoFirstKillsPublication where
  encode publication := objectOf
    [("kills", some ((list firstKillCodec).encode publication.kills)),
      ("askedRaidSlugs", some ((list text).encode publication.askedRaidSlugs)),
      ("limitationCode", some (nullableText.encode publication.limitationCode))]
  decode value := do
    return {
      kills := ← requiredField (list firstKillCodec) value "kills"
      askedRaidSlugs := ← requiredField (list text) value "askedRaidSlugs"
      limitationCode := ← requiredField nullableText value "limitationCode" }
  decode_encode publication := by simp [requiredField]

/-- How far the scan of one former name has come. -/
def aliasProgressCodec : Codec HistoricAliasScanProgress where
  encode progress := objectOf
    [("key", some (keyCodec.encode progress.key)),
      ("historyScanResumePage", progress.historyScanResumePage.map integer.encode),
      ("historyScanResumeBoundaryReportCode",
        progress.historyScanResumeBoundaryReportCode.map text.encode),
      ("historyComplete", progress.historyComplete.map flag.encode),
      ("parseWorkOutstanding", progress.parseWorkOutstanding.map flag.encode),
      ("pendingParseFightUrls", progress.pendingParseFightUrls.map (list text).encode)]
  decode value := do
    return {
      key := ← requiredField keyCodec value "key"
      historyScanResumePage := ← optionalField integer value "historyScanResumePage"
      historyScanResumeBoundaryReportCode :=
        ← optionalField text value "historyScanResumeBoundaryReportCode"
      historyComplete := ← optionalField flag value "historyComplete"
      parseWorkOutstanding := ← optionalField flag value "parseWorkOutstanding"
      pendingParseFightUrls := ← optionalField (list text) value "pendingParseFightUrls" }
  decode_encode progress := by simp [requiredField, optionalField]

/-- A ranked walk where it stopped; what it had not loaded by then may be absent. -/
def cursorCodec : Codec StoredRankedBackfillCursor where
  encode cursor := objectOf
    [("journalRaidId", some (text.encode cursor.journalRaidId)),
      ("characterId", cursor.characterId.map integer.encode),
      ("zoneIds", some ((list integer).encode cursor.zoneIds)),
      ("partitionIds", cursor.partitionIds.map (list integer).encode),
      ("zoneEncounterIds", cursor.zoneEncounterIds.map (list nullableIntegers).encode),
      ("acceptedFightKeys", cursor.acceptedFightKeys.map (list text).encode),
      ("zonesLoaded", some (flag.encode cursor.zonesLoaded)),
      ("zoneIndex", some (integer.encode cursor.zoneIndex)),
      ("encounterIds", some ((list integer).encode cursor.encounterIds)),
      ("encountersLoaded", some (flag.encode cursor.encountersLoaded)),
      ("encounterIndex", some (integer.encode cursor.encounterIndex)),
      ("metricIndex", some (integer.encode cursor.metricIndex)),
      ("reportIndex", some (integer.encode cursor.reportIndex))]
  decode value := do
    return {
      journalRaidId := ← requiredField text value "journalRaidId"
      characterId := ← optionalField integer value "characterId"
      zoneIds := ← requiredField (list integer) value "zoneIds"
      partitionIds := ← optionalField (list integer) value "partitionIds"
      zoneEncounterIds := ← optionalField (list nullableIntegers) value "zoneEncounterIds"
      acceptedFightKeys := ← optionalField (list text) value "acceptedFightKeys"
      zonesLoaded := ← requiredField flag value "zonesLoaded"
      zoneIndex := ← requiredField integer value "zoneIndex"
      encounterIds := ← requiredField (list integer) value "encounterIds"
      encountersLoaded := ← requiredField flag value "encountersLoaded"
      encounterIndex := ← requiredField integer value "encounterIndex"
      metricIndex := ← requiredField integer value "metricIndex"
      reportIndex := ← requiredField integer value "reportIndex" }
  decode_encode cursor := by simp [requiredField, optionalField]

def nullableCursor : Codec (Option StoredRankedBackfillCursor) :=
  nullable cursorCodec fun _ => objectOf_ne_null _

/-- The raids whose parses, and whose tier bests, ran into trouble. -/
def troubledCodec : Codec TroubledRaidIds where
  encode troubled := objectOf
    [("parses", some ((list text).encode troubled.parses)),
      ("tierBests", some ((list text).encode troubled.tierBests))]
  decode value := do
    return {
      parses := ← requiredField (list text) value "parses"
      tierBests := ← requiredField (list text) value "tierBests" }
  decode_encode troubled := by simp [requiredField]

/-- The whole stage. A list it lacks is read back as lacking, not as empty. -/
def stageCodec : Codec StagedEvidenceCollection where
  encode staged := objectOf
    [("state", some (stateCodec.encode staged.state)),
      ("scanSkipped", staged.scanSkipped.map flag.encode),
      ("omittedInvalidTimestamp", staged.omittedInvalidTimestamp.map flag.encode),
      ("historyScanResumePage", staged.historyScanResumePage.map nullableInteger.encode),
      ("historyScanResumeBoundaryReportCode",
        staged.historyScanResumeBoundaryReportCode.map nullableText.encode),
      ("historicAliasProgress", staged.historicAliasProgress.map (list aliasProgressCodec).encode),
      ("rankedBackfillCursor", staged.rankedBackfillCursor.map nullableCursor.encode),
      ("limitationCode", some (nullableText.encode staged.limitationCode)),
      ("parseLimitationCode", some (nullableText.encode staged.parseLimitationCode)),
      ("parseLimitationCodesSeen", staged.parseLimitationCodesSeen.map (list text).encode),
      ("retryAfterAt", some (nullableText.encode staged.retryAfterAt)),
      ("kills", some ((list killCodec).encode staged.kills)),
      ("wipes", some ((list wipeCodec).encode staged.wipes)),
      ("tierBests", some ((list tierBestCodec).encode staged.tierBests)),
      ("cuttingEdges", staged.cuttingEdges.map (list cuttingEdgeCodec).encode),
      ("raiderIoFirstKills", staged.raiderIoFirstKills.map firstKillsCodec.encode),
      ("parsedFightUrls", staged.parsedFightUrls.map (list text).encode),
      ("completedAt", some (text.encode staged.completedAt)),
      ("troubledRaidIds", staged.troubledRaidIds.map troubledCodec.encode)]
  decode value :=
    StagedEvidenceCollection.mk <$> requiredField stateCodec value "state"
      <*> optionalField flag value "scanSkipped"
      <*> optionalField flag value "omittedInvalidTimestamp"
      <*> optionalField nullableInteger value "historyScanResumePage"
      <*> optionalField nullableText value "historyScanResumeBoundaryReportCode"
      <*> optionalField (list aliasProgressCodec) value "historicAliasProgress"
      <*> optionalField nullableCursor value "rankedBackfillCursor"
      <*> requiredField nullableText value "limitationCode"
      <*> requiredField nullableText value "parseLimitationCode"
      <*> optionalField (list text) value "parseLimitationCodesSeen"
      <*> requiredField nullableText value "retryAfterAt"
      <*> requiredField (list killCodec) value "kills"
      <*> requiredField (list wipeCodec) value "wipes"
      <*> requiredField (list tierBestCodec) value "tierBests"
      <*> optionalField (list cuttingEdgeCodec) value "cuttingEdges"
      <*> optionalField firstKillsCodec value "raiderIoFirstKills"
      <*> optionalField (list text) value "parsedFightUrls"
      <*> requiredField text value "completedAt"
      <*> optionalField troubledCodec value "troubledRaidIds"
  decode_encode staged := by simp [requiredField, optionalField, Seq.seq]

end SlashWho.StagedCollections
