import SlashWho.ParsePlan

/-!
What the rankings answers are decoded to: the rows of a report that rank the character,
the character's own id among those it was asked to confirm, the percentiles of each
fight, and the best parse of each encounter of a zone. A field that does not narrow is
schema drift, and a report that ranks others beside the character is an answer of its own.
-/

namespace SlashWho.RankingDecode

open Characters ComparatorSort EvidenceMerge JsonNarrowing ParsePlan ReportDecoding

inductive LimitationCode
  | notFound
  | private_
  | rateLimited
  | pointsBudgetLow
  | requestCap
  | historyLimit
  | unavailable
  | schemaDrift
  | parsePrivate
  | parseRateLimited
  | parseRequestCap
  | parseUnavailable
  | parseIdentityUnmatched
  | parseSchemaDrift
  deriving DecidableEq

structure Limitation where
  code : LimitationCode
  retryAfterMs : Option ℚ
  deriving DecidableEq

def parseSchemaDrift : Limitation := ⟨.parseSchemaDrift, none⟩

def narrowed {α : Type} (value : Option α) : Except Limitation α :=
  match value with
  | some found => .ok found
  | none => .error parseSchemaDrift

structure RankingIdentity where
  id : ℕ
  name : String
  realm : String
  region : String
  deriving DecidableEq

structure SpecIdentity where
  className : Option String
  specName : String
  deriving DecidableEq

structure RankingRow where
  metric : MetricName
  fightId : ℕ
  characterId : ℕ
  spec : Option SpecIdentity
  percentile : Option Percentile
  deriving DecidableEq

def metrics : List MetricName := [.damage, .healing, .bossDamage]

def metricField : MetricName → String
  | .damage => "damage"
  | .healing => "healing"
  | .bossDamage => "bossDamage"

def warcraftLogsClassNames : List (ℚ × String) :=
  [(1, "DeathKnight"), (2, "Druid"), (3, "Hunter"), (4, "Mage"), (5, "Monk"), (6, "Paladin"),
    (7, "Priest"), (8, "Rogue"), (9, "Shaman"), (10, "Warlock"), (11, "Warrior"),
    (12, "DemonHunter"), (13, "Evoker")]

def reportedClassName : Option Json → Option String
  | some (.number value) => warcraftLogsClassNames.lookup value
  | value => nonEmptyString value

/-- A rank's percentile, where it is one. -/
def rankPercent : Option Json → Option Percentile
  | some (.number value) => if h : 0 ≤ value ∧ value ≤ 100 then some ⟨value, h⟩ else none
  | _ => none

variable (runtime : Runtime) (specIconUrl : String → Option String → Option String)

def rankingIdentity (value : Json) : Except Limitation RankingIdentity := do
  let character ← narrowed (record (some value))
  let server ← narrowed (record (character.lookup "server"))
  let id ← narrowed (positiveInteger (character.lookup "id"))
  let name ← narrowed (nonEmptyString (character.lookup "name"))
  let realm ← narrowed (nonEmptyString (server.lookup "name"))
  let region ← narrowed (nonEmptyString (server.lookup "region"))
  return { id, name, realm, region }

/-- A player of a report under a name on a realm. -/
def isActor (name realm : String) (actorValue : Json) : Bool :=
  match record (some actorValue) with
  | none => false
  | some actor =>
    match actor.lookup "type", actor.lookup "name", actor.lookup "server" with
    | some (.string type), some (.string actorName), some (.string server) =>
      type = "Player" && runtime.lower actorName = runtime.lower name &&
        normalizedRealm runtime server = normalizedRealm runtime realm
    | _, _, _ => false

def actorsIncludeKey (actors : List Json) (requestedKey : CharacterKey) : Bool :=
  actors.any (isActor runtime requestedKey.name requestedKey.realm)

def isRequested (requestedKey : CharacterKey) (identity : RankingIdentity) : Bool :=
  runtime.lower identity.name = runtime.lower requestedKey.name &&
    normalizedRealm runtime identity.realm = normalizedRealm runtime requestedKey.realm &&
    runtime.lower identity.region = runtime.lower requestedKey.region.code

/-- The identities read so far, and the rows. -/
structure Ranked where
  identities : OrderedMap ℕ RankingIdentity
  rows : List RankingRow

/-- One ranked character; an id that names two is drift. -/
def readCharacter (metric : MetricName) (fightId : ℕ) (ranked : Ranked) (characterValue : Json) :
    Except Limitation Ranked := do
  let identity ← rankingIdentity characterValue
  let character := (record (some characterValue)).getD []
  match ranked.identities.get? identity.id with
  | some knownIdentity =>
    if knownIdentity.name ≠ identity.name || knownIdentity.realm ≠ identity.realm ||
        knownIdentity.region ≠ identity.region then
      throw parseSchemaDrift
  | none => pure ()
  return {
    identities := ranked.identities.set identity.id identity
    rows := ranked.rows ++ [{
      metric, fightId
      characterId := identity.id
      spec := (nonEmptyString (character.lookup "spec")).map (fun specName =>
        ⟨reportedClassName (character.lookup "class"), specName⟩)
      percentile := rankPercent (character.lookup "rankPercent") }] }

def readRole (metric : MetricName) (fightId : ℕ) (roles : Fields) (ranked : Ranked)
    (roleName : String) : Except Limitation Ranked := do
  let role ← narrowed (record (roles.lookup roleName))
  let characters ← narrowed (array (role.lookup "characters"))
  characters.foldlM (readCharacter metric fightId) ranked

/-- The row describes a fight that was asked about. -/
def isExpected (scope : ParseGroup) (fightId encounterId difficulty : ℕ) : Bool :=
  match scope.fights.get? fightId with
  | none => false
  | some fight => fight.encounterId = some (encounterId : ℚ) && fight.difficulty = difficulty

/-- A row of another fight is left out, not refused. -/
def readMetricRow (scope : ParseGroup) (metric : MetricName) (ranked : Ranked)
    (metricRowValue : Json) : Except Limitation Ranked := do
  let metricRow ← narrowed (record (some metricRowValue))
  let fightId ← narrowed (positiveInteger (metricRow.lookup "fightID"))
  let encounter ← narrowed (record (metricRow.lookup "encounter"))
  let encounterId ← narrowed (positiveInteger (encounter.lookup "id"))
  let difficulty ← narrowed (positiveInteger (metricRow.lookup "difficulty"))
  let roles ← narrowed (record (metricRow.lookup "roles"))
  if isExpected scope fightId encounterId difficulty then
    ["tanks", "healers", "dps"].foldlM (readRole metric fightId roles) ranked
  else return ranked

def readMetric (scope : ParseGroup) (report : Fields) (ranked : Ranked) (metric : MetricName) :
    Except Limitation Ranked := do
  let metricValue ← narrowed (record (report.lookup (metricField metric)))
  let metricRows ← narrowed (array (metricValue.lookup "data"))
  metricRows.foldlM (readMetricRow scope metric) ranked

structure RankingRows where
  identities : List RankingIdentity
  rows : List RankingRow
  actors : List Json

def maxRankingIdentities : ℕ := 50

/-- What a report's rows come to for the requested character. -/
def requestedRows (requestedKey : CharacterKey) (actors : List Json) (ranked : Ranked) :
    Except Limitation RankingRows :=
  let requestedIdentities :=
    ranked.identities.values.filter (isRequested runtime requestedKey)
  if maxRankingIdentities < requestedIdentities.length then .error parseSchemaDrift
  else if requestedIdentities.isEmpty && !ranked.identities.values.isEmpty &&
      actorsIncludeKey runtime actors requestedKey then
    .error ⟨.parseIdentityUnmatched, none⟩
  else
    .ok {
      identities := requestedIdentities
      rows := ranked.rows.filter (fun row =>
        row.characterId ∈ requestedIdentities.map RankingIdentity.id)
      actors }

def decodeRankingRows (value : Json) (scope : ParseGroup) (requestedKey : CharacterKey) :
    Except Limitation RankingRows := do
  let envelope ← narrowed (record (some value))
  let data ← narrowed (record (envelope.lookup "data"))
  let reportData ← narrowed (record (data.lookup "reportData"))
  let report ← narrowed (record (reportData.lookup "report"))
  let code ← narrowed (nonEmptyString (report.lookup "code"))
  if code ≠ scope.reportCode then throw parseSchemaDrift
  let actors ← narrowed (reportActors report)
  let ranked ← metrics.foldlM (readMetric scope report) ⟨.empty, []⟩
  requestedRows runtime requestedKey actors ranked

/-- Each identity has to be confirmed and be one player of the report. -/
def confirmIdentity (canonicalIds : List ℕ) (actors : List Json) (requestedKey : CharacterKey)
    (requestedIds : List ℕ) (identity : RankingIdentity) : Except Limitation (List ℕ) :=
  if identity.id ∉ canonicalIds then .error parseSchemaDrift
  else if (actors.filter (isActor runtime identity.name identity.realm)).length ≠ 1 then
    .error parseSchemaDrift
  else if isRequested runtime requestedKey identity then .ok (requestedIds ++ [identity.id])
  else .ok requestedIds

def canonicalRankingCharacterIdsByIdentity (canonicalIds : List ℕ)
    (identities : List RankingIdentity) (actors : List Json) (requestedKey : CharacterKey) :
    Except Limitation (List ℕ) := do
  let requestedIds ←
    identities.foldlM (confirmIdentity runtime canonicalIds actors requestedKey) []
  if 1 < requestedIds.length then throw parseSchemaDrift
  return requestedIds

/-- One answer of the identity lookup, which has to be the identity it was asked about. -/
def canonicalId (characterData : Fields) (index : ℕ) (identity : RankingIdentity) :
    Except Limitation ℕ := do
  let character ← narrowed (record (characterData.lookup ("character" ++ toString index)))
  let server ← narrowed (record (character.lookup "server"))
  let region ← narrowed (record (server.lookup "region"))
  let id ← narrowed (positiveInteger (character.lookup "id"))
  let name ← narrowed (nonEmptyString (character.lookup "name"))
  let realm ← narrowed (nonEmptyString (server.lookup "slug"))
  let regionSlug ← narrowed (nonEmptyString (region.lookup "slug"))
  if id ≠ identity.id || runtime.lower name ≠ runtime.lower identity.name ||
      normalizedRealm runtime realm ≠ normalizedRealm runtime identity.realm ||
      runtime.lower regionSlug ≠ runtime.lower identity.region then
    throw parseSchemaDrift
  return id

def decodeCanonicalIdentityIds (value : Json) (identities : List RankingIdentity) :
    Except Limitation (List ℕ) := do
  let envelope ← narrowed (record (some value))
  let data ← narrowed (record (envelope.lookup "data"))
  let characterData ← narrowed (record (data.lookup "characterData"))
  identities.zipIdx.mapM (fun entry => canonicalId runtime characterData entry.2 entry.1)

def specPerformance (identity : Option SpecIdentity) (knownClassName : Option String) :
    Option KillSpec :=
  identity.bind (fun identity =>
    (specIconUrl identity.specName (identity.className.or knownClassName)).map (fun iconUrl =>
      ⟨identity.specName, iconUrl⟩))

/-- The highest percentile read for a fight and metric. -/
def addValue (requestedIds : List ℕ) (values : OrderedMap (ℕ × MetricName) Percentile)
    (row : RankingRow) : OrderedMap (ℕ × MetricName) Percentile :=
  match row.percentile with
  | none => values
  | some percentile =>
    if row.characterId ∈ requestedIds then
      let key := (row.fightId, row.metric)
      values.set key (max ((values.get? key).getD percentile) percentile)
    else values

def addSpec (specs : OrderedMap ℕ SpecIdentity) (row : RankingRow) : OrderedMap ℕ SpecIdentity :=
  match row.spec with
  | none => specs
  | some spec => specs.set row.fightId spec

def metricOf {κ : Type} [DecidableEq κ] (values : OrderedMap (κ × MetricName) Percentile)
    (subject : κ) (metric : MetricName) : ParseMetric :=
  match values.get? (subject, metric) with
  | some percentile => .available percentile
  | none => .unavailable

def fightPerformance (values : OrderedMap (ℕ × MetricName) Percentile)
    (specs : OrderedMap ℕ SpecIdentity) (knownClassName : Option String) (subject : ℕ) :
    PerformanceValues where
  spec := specPerformance specIconUrl (specs.get? subject) knownClassName
  damage := metricOf values subject .damage
  healing := metricOf values subject .healing
  bossDamage := metricOf values subject .bossDamage

/-- A metric that no row ranks the character in stays unavailable. -/
def normalizedPerformance (rows : List RankingRow) (requestedIds fightIds : List ℕ)
    (knownClassName : Option String) : OrderedMap ℕ PerformanceValues :=
  let values := rows.foldl (addValue requestedIds) .empty
  let specs := rows.foldl addSpec .empty
  .ofList (fightIds.map (fun fightId =>
    (fightId, fightPerformance specIconUrl values specs knownClassName fightId)))

structure WarcraftLogsTierBestParse where
  raidId : String
  raidName : String
  bossId : String
  bossName : String
  rankingsUrl : String
  performance : PerformanceValues

def characterRankingsUrl (key : CharacterKey) (zoneId encounterId : ℕ) : String :=
  let path := String.intercalate "/"
    ([key.region.code, key.realm, key.name].map runtime.encodeURIComponent)
  "https://www.warcraftlogs.com/character/" ++ path ++ "#zone=" ++ toString zoneId ++ "&boss=" ++
    toString encounterId ++ "&difficulty=" ++ toString mythicDifficulty

/-- What a zone's rankings name, and the highest percentile of each metric. -/
structure ZoneRanks where
  percentiles : OrderedMap (ℕ × MetricName) Percentile
  bossNames : OrderedMap ℕ String
  specs : OrderedMap ℕ SpecIdentity

def addRanking (metric : MetricName) (ranks : ZoneRanks) (rankingValue : Json) :
    Except Limitation ZoneRanks := do
  let ranking ← narrowed (record (some rankingValue))
  let encounter ← narrowed (record (ranking.lookup "encounter"))
  let encounterId ← narrowed (positiveInteger (encounter.lookup "id"))
  let bossName ← narrowed (nonEmptyString (encounter.lookup "name"))
  let specName :=
    (nonEmptyString (ranking.lookup "bestSpec")).or (nonEmptyString (ranking.lookup "spec"))
  let key := (encounterId, metric)
  return {
    percentiles :=
      match rankPercent (ranking.lookup "rankPercent") with
      | none => ranks.percentiles
      | some percentile =>
        ranks.percentiles.set key (max ((ranks.percentiles.get? key).getD percentile) percentile)
    bossNames := ranks.bossNames.set encounterId bossName
    specs :=
      match specName with
      | some specName =>
        if ranks.specs.has encounterId then ranks.specs
        else ranks.specs.set encounterId ⟨reportedClassName (ranking.lookup "class"), specName⟩
      | none => ranks.specs }

/-- An error in place of rankings declines the question, and is no drift. -/
def declines (metricValue : Option Fields) : Bool :=
  match metricValue with
  | none => false
  | some fields =>
    (fields.lookup "rankings").isNone && (nonEmptyString (fields.lookup "error")).isSome

def addMetric (entry : Fields) (ranks : ZoneRanks) (metric : MetricName) :
    Except Limitation ZoneRanks :=
  let metricValue := record (entry.lookup (metricField metric))
  match array (andField metricValue "rankings") with
  | some rankings => rankings.foldlM (addRanking metric) ranks
  | none => if declines metricValue then .ok ranks else .error parseSchemaDrift

def tierBestsOf (zone : TierZone) (key : CharacterKey) (knownClassName : Option String)
    (ranks : ZoneRanks) : List WarcraftLogsTierBestParse :=
  (sortBy (readBy Prod.fst compare) (ranks.bossNames.entries.filter (fun boss =>
    metrics.any (fun metric => ranks.percentiles.has (boss.1, metric))))).map (fun boss =>
      { raidId := toString zone.zoneId
        raidName := zone.raidName
        bossId := toString boss.1
        bossName := boss.2
        rankingsUrl := characterRankingsUrl runtime key zone.zoneId boss.1
        performance :=
          fightPerformance specIconUrl ranks.percentiles ranks.specs knownClassName boss.1 })

def decodeZoneRankings (value : Json) (zone : TierZone) (key : CharacterKey)
    (knownClassName : Option String) : Except Limitation (List WarcraftLogsTierBestParse) := do
  let data := record (andField (record (some value)) "data")
  let characterData := record (andField data "characterData")
  match andField characterData "character" with
  | some .null => throw ⟨.parseUnavailable, none⟩
  | character =>
    let entry ← narrowed (record character)
    let ranks ← metrics.foldlM (addMetric entry) ⟨.empty, .empty, .empty⟩
    return tierBestsOf runtime specIconUrl zone key knownClassName ranks

end SlashWho.RankingDecode
