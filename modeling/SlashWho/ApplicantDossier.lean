import Mathlib.Algebra.GroupWithZero.Nat
import SlashWho.Characters
import SlashWho.EvidenceMerge
import SlashWho.RaidCatalogue

/-!
The dossier's raids: supplied kills placed by the catalogue, Raider.IO first kills matched to them,
and the boss cards, events, parses, reports and wipes drawn from both. An event keeps the kills it
was built from, which the source drops once the card is drawn. Compound keys are tuples, since no
part of them holds the separator; a canonical id compares by its JSON text.
-/

namespace SlashWho.ApplicantDossier

open ComparatorSort KeyedBuckets RaidCatalogue Characters EvidenceMerge

structure DisplayName where
  value : String
  nonempty : value ≠ ""

structure DossierCharacter where
  key : CharacterKey
  displayName : DisplayName

/-- What a kill keeps whatever encounter it is placed in. -/
structure KillFacts where
  character : CharacterKey
  killedAt : String
  guild : Option CharacterGuild
  historicWorldRank : Option ℕ
  reportUrl : Option String
  uploader : Option String
  loggedAs : Option CharacterKey
  performance : PerformanceValues
  deriving DecidableEq

/-- A kill with the names the evidence ordering reads. -/
structure Evidence extends KillFacts where
  raidName : String
  bossName : String
  bossOrder : ℕ
  deriving DecidableEq

structure DossierKillEvidence extends Evidence where
  journalBossId : Option String
  deriving DecidableEq

structure DossierTierBestParse where
  raidName : String
  bossName : String
  character : CharacterKey
  rankingsUrl : String
  loggedAs : Option CharacterKey
  performance : PerformanceValues

structure DossierWipeEvidence where
  raidName : String
  bossName : String
  journalBossId : Option String
  character : CharacterKey
  attemptedAt : String
  reportUrl : String
  guild : Option CharacterGuild
  uploader : Option String

inductive LimitationSource
  | raiderio
  | warcraftLogs
  | blizzard
  deriving DecidableEq

structure DossierLimitationEncounter where
  raidName : String
  bossName : Option String
  kills : ℕ
  deriving DecidableEq

inductive Recovery
  | automatic
  | none

structure DossierLimitation where
  source : LimitationSource
  character : Option CharacterKey
  code : String
  observedAt : Option String
  retryAt : Option String
  encounters : Option (List DossierLimitationEncounter)
  recovery : Option Recovery

inductive RosterRole
  | tank
  | healer
  | dps
  deriving DecidableEq

structure DossierRosterMember where
  name : String
  realm : String
  region : String
  className : String
  specName : String
  role : RosterRole
  itemLevel : Option ℚ
  deriving DecidableEq

structure RoleCounts where
  tank : ℕ
  healer : ℕ
  dps : ℕ
  deriving DecidableEq

structure ItemLevels where
  average : ℚ
  min : ℚ
  max : ℚ
  deriving DecidableEq

inductive LoggedRoster
  | available (roleCounts : RoleCounts) (members : List DossierRosterMember)
  | private_
  deriving DecidableEq

structure DossierLoggedEncounter where
  pulledAt : String
  durationMs : ℕ
  guild : Option CharacterGuild
  itemLevel : ItemLevels
  deathCount : ℕ
  vantusCount : Option ℕ
  roster : LoggedRoster
  deriving DecidableEq

inductive FirstKillEncounter
  | read (encounter : DossierLoggedEncounter)
  | notRead
  | none
  deriving DecidableEq

structure DossierRaiderIoFirstKill where
  character : CharacterKey
  slugs : RaiderIoBoss
  killedAt : String
  guild : Option CharacterGuild
  historicWorldRank : Option ℕ
  encounter : FirstKillEncounter
  deriving DecidableEq

structure BuildApplicantDossierInput where
  characters : List DossierCharacter
  kills : List DossierKillEvidence
  wipes : Option (List DossierWipeEvidence)
  tierBests : List DossierTierBestParse
  completeWarcraftLogsCharacters : Option (List CharacterKey)
  raiderIoFirstKills : List DossierRaiderIoFirstKill
  limitations : List DossierLimitation

variable (rt : Runtime)

def hexDigit (n : ℕ) : Char := Char.ofNat (if n < 10 then 0x30 + n else 0x57 + n)

/-- One character of a JSON string. -/
def jsonEscape (c : Char) : List Char :=
  match c.toNat with
  | 0x22 => ['\\', '"']
  | 0x5c => ['\\', '\\']
  | 0x08 => ['\\', 'b']
  | 0x09 => ['\\', 't']
  | 0x0a => ['\\', 'n']
  | 0x0c => ['\\', 'f']
  | 0x0d => ['\\', 'r']
  | n => if n < 0x20 then ['\\', 'u', '0', '0', hexDigit (n / 16), hexDigit (n % 16)] else [c]

def jsonQuote (s : String) : List Char := '"' :: s.toList.flatMap jsonEscape ++ ['"']

def idText (key : CharacterKey) : String :=
  let id := canonicalCharacterId rt.lower key
  String.ofList ('[' :: jsonQuote id.region ++ ',' :: jsonQuote id.realm ++
    ',' :: jsonQuote id.name ++ [']'])

def compareGuild : CharacterGuild → CharacterGuild → Ordering :=
  compareLex (readBy CharacterGuild.name text) (readBy CharacterGuild.realm text)

/-- Every normalized field takes part, so equal times do not tie by themselves. -/
def compareEvidence : Evidence → Evidence → Ordering :=
  compareLex (readBy (fun k => k.killedAt) text) <|
  compareLex (readBy (fun k => k.raidName) text) <|
  compareLex (readBy (fun k => k.bossName) text) <|
  compareLex (readBy (fun k => k.bossOrder) compare) <|
  compareLex (readBy (fun k => k.reportUrl) (absentFirst text)) <|
  compareLex (readBy (fun k => k.guild) (absentFirst compareGuild)) <|
  compareLex (readBy (fun k => k.historicWorldRank) (absentFirst compare))
    (readBy (fun k => idText rt k.character) text)

instance : Std.TransCmp compareGuild :=
  inferInstanceAs (Std.TransCmp (compareLex (readBy CharacterGuild.name text)
    (readBy CharacterGuild.realm text)))

instance : Std.TransCmp (compareEvidence rt) := by
  unfold compareEvidence
  infer_instance

/-- A kill in the encounter it was placed in, with the first kill it was matched to. -/
structure CatalogueMatchedKill extends KillFacts where
  encounter : RaidCatalogueEncounter
  raiderIoFirstKill : Option DossierRaiderIoFirstKill
  deriving DecidableEq

namespace CatalogueMatchedKill

/-- The kill as the ordering reads it, under the catalogue's names. -/
def evidence (kill : CatalogueMatchedKill) : Evidence where
  toKillFacts := kill.toKillFacts
  raidName := kill.encounter.raidName
  bossName := kill.encounter.bossName
  bossOrder := kill.encounter.bossOrder

def hasPublicLog (kill : CatalogueMatchedKill) : Bool :=
  kill.raiderIoFirstKill.isNone || kill.reportUrl.isSome

end CatalogueMatchedKill

def compareKills : CatalogueMatchedKill → CatalogueMatchedKill → Ordering :=
  readBy CatalogueMatchedKill.evidence (compareEvidence rt)

instance : Std.TransCmp (compareKills rt) :=
  inferInstanceAs (Std.TransCmp (readBy CatalogueMatchedKill.evidence (compareEvidence rt)))

inductive ReportSource
  | guildLog
  | personalLog
  deriving DecidableEq

def reportSource (guild : Option CharacterGuild) : ReportSource :=
  if guild.isSome then .guildLog else .personalLog

def ReportSource.rank : ReportSource → ℕ
  | .guildLog => 0
  | .personalLog => 1

/-- Guild logs first, then by report. -/
def compareReportEvidence : CatalogueMatchedKill → CatalogueMatchedKill → Ordering :=
  compareLex (readBy (fun k => (reportSource k.guild).rank) compare) <|
  compareLex (readBy (fun k => k.reportUrl) (absentFirst text)) (compareKills rt)

structure ApplicantDossierReport where
  reportUrl : String
  source : ReportSource
  uploader : Option String
  guild : Option CharacterGuild
  deriving DecidableEq

def reportsFor (evidence : List CatalogueMatchedKill) : List ApplicantDossierReport :=
  let unique := (sortBy (compareReportEvidence rt) evidence).foldl
    (fun (unique : OrderedMap String CatalogueMatchedKill) kill =>
      match kill.reportUrl with
      | none => unique
      | some url => if unique.has url then unique else unique.set url kill) .empty
  unique.entries.map (fun entry =>
    { reportUrl := entry.1
      source := reportSource entry.2.guild
      uploader := entry.2.uploader
      guild := entry.2.guild })

/-- What groups one night's evidence: the day, or the report where no day can be read. -/
inductive EventDay
  | utcDate (day : String)
  | report (url : String)
  | character (id : CanonicalId) (killedAt : String)
  deriving DecidableEq

structure EventKey where
  region : Region
  day : EventDay
  deriving DecidableEq

def sharedEvidenceKey (kill : CatalogueMatchedKill) : EventDay :=
  match kill.reportUrl with
  | none => .character (canonicalCharacterId rt.lower kill.character) kill.killedAt
  | some url => .report url

def killEventKey (kill : CatalogueMatchedKill) : EventKey where
  region := kill.character.region
  day :=
    match rt.parseDate kill.killedAt with
    | none => sharedEvidenceKey rt kill
    | some timestamp => .utcDate (rt.utcDate timestamp)

def reportIdentity (reportUrl : String) : String :=
  String.ofList (reportUrl.toList.takeWhile (· ≠ '#'))

def normalizedGuildText (value : String) : String :=
  rt.lower (String.ofList (trimChars value.toList))

def compareAttributedGuild : CharacterGuild → CharacterGuild → Ordering :=
  compareLex (readBy (fun g => normalizedGuildText rt g.name) text) <|
  compareLex (readBy (fun g => normalizedGuildText rt g.realm) text) <|
  compareLex (readBy CharacterGuild.name text) (readBy CharacterGuild.realm text)

def sameAttributedGuild (a b : CharacterGuild) : Bool :=
  normalizedGuildText rt a.name = normalizedGuildText rt b.name &&
    normalizedGuildText rt a.realm = normalizedGuildText rt b.realm

def RosterRole.order : RosterRole → ℕ
  | .tank => 0
  | .healer => 1
  | .dps => 2

structure ApplicantDossierRosterMember where
  member : DossierRosterMember
  isDossierCharacter : Bool
  deriving DecidableEq

inductive RosterReason
  | hidden
  | noLoggedEncounter
  | notRead
  deriving DecidableEq

structure AvailableRoster where
  playerCount : ℕ
  roleCounts : RoleCounts
  itemLevel : ItemLevels
  pulledAt : String
  durationMs : ℕ
  deathCount : ℕ
  vantusCount : Option ℕ
  members : List ApplicantDossierRosterMember
  deriving DecidableEq

inductive ApplicantDossierKillRoster
  | available (roster : AvailableRoster)
  | unavailable (reason : RosterReason)
  deriving DecidableEq

def compareMembers : DossierRosterMember → DossierRosterMember → Ordering :=
  compareLex (readBy (fun m => m.role.order) compare) <|
  compareLex (readBy DossierRosterMember.name text) (readBy DossierRosterMember.realm text)

def readEncounter (first : DossierRaiderIoFirstKill) : Option DossierLoggedEncounter :=
  match first.encounter with
  | .read encounter => some encounter
  | .notRead | .none => none

def loggedRoster (dossierCharacterIds : List (String × String × String))
    (encounter : DossierLoggedEncounter) : ApplicantDossierKillRoster :=
  match encounter.roster with
  | .private_ => .unavailable .hidden
  | .available roleCounts members =>
    if members.length = 0 then .unavailable .hidden
    else
      .available
        { playerCount := roleCounts.tank + roleCounts.healer + roleCounts.dps
          roleCounts := roleCounts
          itemLevel := encounter.itemLevel
          pulledAt := encounter.pulledAt
          durationMs := encounter.durationMs
          deathCount := encounter.deathCount
          vantusCount := encounter.vantusCount
          members := (sortBy compareMembers members).map (fun member =>
            { member := member
              isDossierCharacter := decide ((rt.lower member.region, rt.lower member.realm,
                rt.lower member.name) ∈ dossierCharacterIds) }) }

/-- The roster of the first parsed log among an event's first kills. -/
def killRoster (shared : List CatalogueMatchedKill)
    (dossierCharacterIds : List (String × String × String)) :
    Option ApplicantDossierKillRoster :=
  let firsts := shared.filterMap CatalogueMatchedKill.raiderIoFirstKill
  match firsts, firsts.findSome? readEncounter with
  | [], _ => none
  | _, some encounter => some (loggedRoster rt dossierCharacterIds encounter)
  | firsts, none =>
    some (.unavailable
      (if firsts.any (fun first => first.encounter = .notRead) then .notRead
      else .noLoggedEncounter))

inductive ApplicantDossierParseMetric
  | available (percentile : Percentile) (reportUrl : String)
  | notApplicable
  | unavailable
  deriving DecidableEq

structure ParseCandidate where
  metric : ApplicantDossierParseMetric
  loggedAs : Option CharacterKey
  deriving DecidableEq

structure AvailableParse where
  percentile : Percentile
  reportUrl : String
  loggedAs : Option CharacterKey
  deriving DecidableEq

def ParseCandidate.available (candidate : ParseCandidate) : Option AvailableParse :=
  match candidate.metric with
  | .available percentile reportUrl => some ⟨percentile, reportUrl, candidate.loggedAs⟩
  | .notApplicable | .unavailable => none

/-- The best percentile, then the current name, then the report. -/
def compareParses : AvailableParse → AvailableParse → Ordering :=
  compareLex (readBy (fun p => p.percentile.val) (descending compare)) <|
  compareLex (readBy (fun p => p.loggedAs.isSome) compare)
    (readBy AvailableParse.reportUrl text)

def selectParseMetric (candidates : List ParseCandidate) : ParseCandidate :=
  match sortBy compareParses (candidates.filterMap ParseCandidate.available) with
  | best :: _ => ⟨.available best.percentile best.reportUrl, best.loggedAs⟩
  | [] =>
    ⟨if candidates.any (fun candidate => candidate.metric = .notApplicable) then .notApplicable
      else .unavailable, none⟩

/-- The identity behind the highest of the selected numbers. -/
def rowLoggedAs (selected : List ParseCandidate) : Option CharacterKey :=
  ((selected.filterMap ParseCandidate.available).foldl
    (fun (leading : Option AvailableParse) candidate =>
      match leading with
      | none => some candidate
      | some held =>
        if held.percentile.val < candidate.percentile.val then some candidate else leading)
    none).bind AvailableParse.loggedAs

def parseCandidate (kill : CatalogueMatchedKill) : ParseMetric → ApplicantDossierParseMetric
  | .available percentile =>
    match kill.reportUrl with
    | none => .unavailable
    | some reportUrl => .available percentile reportUrl
  | .notApplicable => .notApplicable
  | .unavailable => .unavailable

def tierBestCandidate (tierBest : DossierTierBestParse) :
    ParseMetric → ApplicantDossierParseMetric
  | .available percentile => .available percentile tierBest.rankingsUrl
  | .notApplicable => .notApplicable
  | .unavailable => .unavailable

def formatCharacterDisplayName (name : DisplayName) : String :=
  match name.value.toList with
  | [] => ""
  | initial :: remaining =>
    rt.upper (String.ofList [initial]) ++ rt.lower (String.ofList remaining)

structure ApplicantDossierCharacterParses where
  character : String
  spec : Option KillSpec
  loggedAs : Option CharacterKey
  damage : ApplicantDossierParseMetric
  healing : ApplicantDossierParseMetric
  bossDamage : ApplicantDossierParseMetric
  deriving DecidableEq

def sameCharacter (a b : CharacterKey) : Bool :=
  canonicalCharacterId rt.lower a = canonicalCharacterId rt.lower b

/-- One character's row over its kills and the tier bests offered beside them. -/
def characterParses (character : DossierCharacter) (kills : List CatalogueMatchedKill)
    (tierBests : List DossierTierBestParse) : ApplicantDossierCharacterParses :=
  let candidates := fun metric : MetricName =>
    kills.map (fun kill =>
      ParseCandidate.mk (parseCandidate kill (kill.performance.metric metric)) kill.loggedAs) ++
    tierBests.map (fun tierBest =>
      ⟨tierBestCandidate tierBest (tierBest.performance.metric metric), tierBest.loggedAs⟩)
  let spec := (kills.findSome? (fun kill => kill.performance.spec)).or
    (tierBests.findSome? (fun tierBest => tierBest.performance.spec))
  let damage := selectParseMetric (candidates .damage)
  let healing := selectParseMetric (candidates .healing)
  let bossDamage := selectParseMetric (candidates .bossDamage)
  { character := formatCharacterDisplayName rt character.displayName
    spec := spec
    loggedAs := rowLoggedAs [damage, healing, bossDamage]
    damage := damage.metric
    healing := healing.metric
    bossDamage := bossDamage.metric }

def aggregateEventParses (kills : List CatalogueMatchedKill)
    (characters : List DossierCharacter) (tierBests : List DossierTierBestParse) :
    List ApplicantDossierCharacterParses :=
  characters.filterMap (fun character =>
    let characterKills := kills.filter (fun kill => sameCharacter rt kill.character character.key)
    if characterKills.isEmpty then none
    else some (characterParses rt character characterKills
      (tierBests.filter (fun tierBest => sameCharacter rt tierBest.character character.key))))

abbrev EncounterTally := OrderedMap String DossierLimitationEncounter

def tallyEncounter (tally : EncounterTally) (raidName bossName : String) : EncounterTally :=
  let key := raidName ++ "\x00" ++ bossName
  let entry := (tally.get? key).getD ⟨raidName, some bossName, 0⟩
  tally.set key { entry with kills := entry.kills + 1 }

/-- Most kills first, then by raid and boss. -/
def encounterList (tally : EncounterTally) : List DossierLimitationEncounter :=
  sortBy (compareLex (readBy DossierLimitationEncounter.kills (descending compare)) <|
    compareLex (readBy DossierLimitationEncounter.raidName text)
      (readBy (fun e => e.bossName.getD "") text)) tally.values

structure WithheldKey where
  source : LimitationSource
  code : String
  character : CanonicalId
  deriving DecidableEq

/-- One sentence for a character and reason, and the encounters it covers. -/
structure WithheldReason where
  source : LimitationSource
  character : CharacterKey
  code : String
  encounters : EncounterTally

abbrev WithheldReasons := OrderedMap WithheldKey WithheldReason

def withhold (reasons : WithheldReasons) (code : String) (character : CharacterKey)
    (raidName bossName : String) (source : LimitationSource) : WithheldReasons :=
  let key : WithheldKey := ⟨source, code, canonicalCharacterId rt.lower character⟩
  let entry := (reasons.get? key).getD ⟨source, character, code, .empty⟩
  reasons.set key { entry with encounters := tallyEncounter entry.encounters raidName bossName }

def withheldLimitation (reason : WithheldReason) : DossierLimitation where
  source := reason.source
  character := some reason.character
  code := reason.code
  observedAt := none
  retryAt := none
  encounters := some (encounterList reason.encounters)
  recovery := none

def withheldCode : Option Bool → String
  | some false => "current_content_evidence_withheld"
  | _ => "current_content_window_unknown"

variable (generated : Generated)

def catalogueEncounter (raidName bossName : String) (journalBossId : Option String) :
    Option RaidCatalogueEncounter :=
  if isNonRaidZone rt generated raidName then none
  else lookupRaidEncounterForEvidence rt generated raidName bossName journalBossId

def placedKill (supplied : DossierKillEvidence) (metadata : RaidCatalogueEncounter) :
    CatalogueMatchedKill where
  toKillFacts := supplied.toKillFacts
  encounter := metadata
  raiderIoFirstKill := none

structure KillScan where
  allKills : List CatalogueMatchedKill
  withheldWarcraftLogsKills : List CatalogueMatchedKill
  withheldKillReasons : WithheldReasons

def scanKill (scan : KillScan) (supplied : DossierKillEvidence) : KillScan :=
  match catalogueEncounter rt generated supplied.raidName supplied.bossName
      supplied.journalBossId with
  | none =>
    if isNonRaidZone rt generated supplied.raidName then scan
    else
      { scan with
        withheldKillReasons := withhold rt scan.withheldKillReasons "unmatched_encounter"
          supplied.character supplied.raidName supplied.bossName .warcraftLogs }
  | some metadata =>
    let kill := placedKill supplied metadata
    match currentContentEligibilityByRaidId rt generated kill.killedAt metadata.raidId with
    | some true => { scan with allKills := scan.allKills ++ [kill] }
    | eligible =>
      { scan with
        withheldWarcraftLogsKills := scan.withheldWarcraftLogsKills ++ [kill]
        withheldKillReasons := withhold rt scan.withheldKillReasons (withheldCode eligible)
          kill.character metadata.raidName metadata.bossName .warcraftLogs }

def scanKills (kills : List DossierKillEvidence) : KillScan :=
  kills.foldl (scanKill rt generated) ⟨[], [], .empty⟩

def storedKillMatchMs : ℤ := 2 * 60 * 60 * 1000

structure MatchKey where
  character : CanonicalId
  boss : RaiderIoBoss
  deriving DecidableEq

/-- The bucket a placed kill is indexed under, asked by its encounter's names. -/
def killMatchKey (kill : CatalogueMatchedKill) : Option MatchKey :=
  (lookupRaiderIoBoss rt generated kill.encounter.raidName kill.encounter.bossName).map
    (fun boss => ⟨canonicalCharacterId rt.lower kill.character, boss⟩)

variable (first : DossierRaiderIoFirstKill)

def firstMatchKey : MatchKey :=
  ⟨canonicalCharacterId rt.lower first.character, first.slugs⟩

/-- How far apart two times lie, where both can be read. -/
def distance (a b : String) : Option ℤ :=
  match rt.parseDate a, rt.parseDate b with
  | some a, some b => some |a - b|
  | _, _ => none

def withinMatch (a b : String) : Bool :=
  (distance rt a b).any (fun d => decide (d ≤ storedKillMatchMs))

/-- A placed kill indexed under a first kill's key. -/
def isIndexed (kill : CatalogueMatchedKill) : Bool :=
  killMatchKey rt generated kill = some (firstMatchKey rt first)

structure Match where
  kill : CatalogueMatchedKill
  index : ℕ
  distance : ℤ

/-- A candidate takes over only when it is nearer, or as near and earlier in the ordering. -/
def considerCandidate (matched : Option Match) (candidate : CatalogueMatchedKill × ℕ) :
    Option Match :=
  match distance rt candidate.1.killedAt first.killedAt with
  | none => matched
  | some d =>
    if candidate.1.raiderIoFirstKill.isSome || !decide (d ≤ storedKillMatchMs) then matched
    else
      match matched with
      | none => some ⟨candidate.1, candidate.2, d⟩
      | some held =>
        if d < held.distance ||
            (d = held.distance && compareKills rt candidate.1 held.kill = .lt) then
          some ⟨candidate.1, candidate.2, d⟩
        else matched

def nearestKill (kills : List CatalogueMatchedKill) :
    Option Match :=
  (kills.zipIdx.filter (fun candidate => isIndexed rt generated first candidate.1)).foldl
    (considerCandidate rt first) none

def raiderIoKill (metadata : RaidCatalogueEncounter) :
    CatalogueMatchedKill where
  character := first.character
  killedAt := first.killedAt
  guild := match first.encounter with
    | .read encounter => encounter.guild
    | .notRead | .none => first.guild
  historicWorldRank := first.historicWorldRank
  reportUrl := none
  uploader := none
  loggedAs := none
  performance := ⟨none, .unavailable, .unavailable, .unavailable⟩
  encounter := metadata
  raiderIoFirstKill := some first

/-- The kills so far: the supplied ones, which alone are indexed, and behind
them in one array the first kills that stand alone. -/
structure MatchState where
  supplied : List CatalogueMatchedKill
  alone : List CatalogueMatchedKill
  withheldKillReasons : WithheldReasons

/-- What the loop does with one first kill. -/
inductive FirstKillOutcome
  | unplaced
  | matched (found : Match)
  | plain
  | alone (kill : CatalogueMatchedKill)
  | copyWithheld
  | withheld (code : String) (kill : CatalogueMatchedKill)

def firstKillOutcome (withheldKills : List CatalogueMatchedKill)
    (supplied : List CatalogueMatchedKill) (first : DossierRaiderIoFirstKill) :
    FirstKillOutcome :=
  match lookupRaidEncounterByRaiderIoSlugs rt generated first.slugs with
  | none => .unplaced
  | some metadata =>
    match nearestKill rt generated first supplied with
    | some found => .matched found
    | none =>
      if first.encounter = .none then .plain
      else
        let kill := raiderIoKill first metadata
        match currentContentEligibilityByRaidId rt generated kill.killedAt metadata.raidId with
        | some true => .alone kill
        | eligible =>
          if withheldKills.any (fun withheld => isIndexed rt generated first withheld &&
              withinMatch rt withheld.killedAt first.killedAt) then .copyWithheld
          else .withheld (withheldCode eligible) kill

def matchFirst (withheldKills : List CatalogueMatchedKill) (state : MatchState)
    (first : DossierRaiderIoFirstKill) : MatchState :=
  match firstKillOutcome rt generated withheldKills state.supplied first with
  | .unplaced | .plain | .copyWithheld => state
  | .matched found =>
    { state with
      supplied := state.supplied.set found.index
        { found.kill with raiderIoFirstKill := some first } }
  | .alone kill => { state with alone := state.alone ++ [kill] }
  | .withheld code kill =>
    { state with
      withheldKillReasons := withhold rt state.withheldKillReasons code kill.character
        kill.encounter.raidName kill.encounter.bossName .raiderio }

def matchFirsts (scan : KillScan) (firsts : List DossierRaiderIoFirstKill) : MatchState :=
  firsts.foldl (matchFirst rt generated scan.withheldWarcraftLogsKills)
    ⟨scan.allKills, [], scan.withheldKillReasons⟩

def MatchState.allKills (state : MatchState) : List CatalogueMatchedKill :=
  state.supplied ++ state.alone

variable (input : BuildApplicantDossierInput)

def displayedCharacters (ids : List CanonicalId) : List CharacterKey :=
  (input.characters.filter (fun character =>
    decide (canonicalCharacterId rt.lower character.key ∈ ids))).map DossierCharacter.key

structure ApplicantDossierWipe where
  attemptedAt : String
  reportUrl : String
  source : ReportSource
  uploader : Option String
  guild : Option CharacterGuild
  characters : List CharacterKey
  deriving DecidableEq

/-- The wipes of one report, told by the latest attempt. -/
def sharedWipe (shared : List DossierWipeEvidence) : Option ApplicantDossierWipe :=
  (sortBy (compareLex (readBy DossierWipeEvidence.attemptedAt (descending text))
    (readBy DossierWipeEvidence.reportUrl text)) shared).head?.map (fun selected =>
      { attemptedAt := selected.attemptedAt
        reportUrl := selected.reportUrl
        source := reportSource selected.guild
        uploader := selected.uploader
        guild := selected.guild
        characters := displayedCharacters rt input
          (shared.map (fun wipe => canonicalCharacterId rt.lower wipe.character)) })

def aggregateWipes (wipes : List DossierWipeEvidence) : List ApplicantDossierWipe :=
  sortBy (compareLex (readBy ApplicantDossierWipe.attemptedAt (descending text))
    (readBy ApplicantDossierWipe.reportUrl text))
    ((bucketsBy DossierWipeEvidence.reportUrl wipes).values.filterMap (sharedWipe rt input))

abbrev BossKey := String × String

def wipesByBoss : OrderedMap BossKey (List (BossKey × DossierWipeEvidence)) :=
  bucketsBy Prod.fst ((input.wipes.getD []).filterMap (fun wipe =>
    (catalogueEncounter rt generated wipe.raidName wipe.bossName wipe.journalBossId).map
      (fun metadata => ((metadata.raidId, metadata.bossId), wipe))))

def wipesOf (key : BossKey) : List DossierWipeEvidence :=
  (((wipesByBoss rt generated input).get? key).getD []).map Prod.snd

def tierBestsOf (key : BossKey) : List DossierTierBestParse :=
  (((bucketsBy Prod.fst (input.tierBests.filterMap (fun tierBest =>
    (catalogueEncounter rt generated tierBest.raidName tierBest.bossName none).map
      (fun metadata => ((metadata.raidId, metadata.bossId), tierBest))))).get? key).getD []).map
    Prod.snd

structure ApplicantDossierFirstKill where
  killedAt : String
  guild : Option CharacterGuild
  historicWorldRank : Option ℕ
  reportUrl : Option String
  reportUrls : List String
  reports : List ApplicantDossierReport
  characters : List CharacterKey
  parses : List ApplicantDossierCharacterParses
  roster : Option ApplicantDossierKillRoster
  deriving DecidableEq

/-- One night's event: the kills it was built from and what is shown of them. -/
structure EventEntry where
  selected : CatalogueMatchedKill
  shared : List CatalogueMatchedKill
  logged : List CatalogueMatchedKill
  firstKill : ApplicantDossierFirstKill
  deriving DecidableEq

/-- Verbatim keys, as the roster's lower-cased members are compared with. -/
def dossierCharacterIds : List (String × String × String) :=
  input.characters.map (fun character =>
    (character.key.region.code, character.key.realm, character.key.name))

variable (shared : List CatalogueMatchedKill)

def attributedGuild : Option CharacterGuild :=
  (sortBy (compareAttributedGuild rt) (shared.filterMap (fun kill => kill.guild))).head?

/-- The one rank the attributed guild's kills agree on. -/
def agreedRank : Option ℕ :=
  match attributedGuild rt shared with
  | none => none
  | some attributed =>
    match (shared.filterMap (fun kill =>
        if kill.guild.any (fun guild => sameAttributedGuild rt guild attributed) then
          kill.historicWorldRank
        else none)).dedup with
    | [rank] => some rank
    | _ => none

def eventEntry : Option EventEntry :=
  (sortBy (compareKills rt) shared).head?.map (fun selected =>
    let reports := reportsFor rt shared
    let logged := shared.filter CatalogueMatchedKill.hasPublicLog
    { selected := selected
      shared := shared
      logged := logged
      firstKill :=
        { killedAt := selected.killedAt
          guild := attributedGuild rt shared
          historicWorldRank := agreedRank rt shared
          reportUrl := (reports.head?.map ApplicantDossierReport.reportUrl).or selected.reportUrl
          reportUrls := reports.map ApplicantDossierReport.reportUrl
          reports := reports
          characters := displayedCharacters rt input
            (shared.map (fun kill => canonicalCharacterId rt.lower kill.character))
          parses := aggregateEventParses rt logged input.characters []
          roster := killRoster rt shared (dossierCharacterIds input) } })

variable (kills : List CatalogueMatchedKill)

def eventEntries : List EventEntry :=
  sortBy (readBy EventEntry.selected (descending (compareKills rt)))
    ((bucketsBy (killEventKey rt) (sortBy (compareKills rt) kills)).values.filterMap
      (eventEntry rt input))

structure BossMetadata where
  bossId : String
  bossName : String
  bossOrder : ℕ
  imageUrl : Option String
  deriving DecidableEq

/-- A boss with kills: its events latest first, the oldest of them the first kill. -/
structure KillBoss where
  metadata : BossMetadata
  firstKill : ApplicantDossierFirstKill
  firstKills : List EventEntry
  bestParses : List ApplicantDossierCharacterParses
  wipes : List ApplicantDossierWipe
  deriving DecidableEq

inductive ApplicantDossierBoss
  | kill (boss : KillBoss)
  | wipe (metadata : BossMetadata) (latest : ApplicantDossierWipe)
      (wipes : List ApplicantDossierWipe)
  | noLogs (metadata : BossMetadata)
  | incomplete (metadata : BossMetadata)
  deriving DecidableEq

/-- A boss with kills as it is collected under its raid. -/
structure AggregatedDossierBoss where
  boss : KillBoss
  isFinalBoss : Bool
  raidId : String
  raidName : String
  deriving DecidableEq

def bossImageUrl (encounter : RaidCatalogueEncounter) : Option String :=
  ((lookupJournalEncounter rt generated encounter.bossId).bind
    RaidCatalogueEncounter.imageUrl).or
    ((lookupRaidBossByName rt generated encounter.raidName encounter.bossName).bind
      RaidCatalogueEncounter.imageUrl)

def killReportUrls : List String :=
  kills.filterMap (fun kill => kill.reportUrl.map reportIdentity)

def wipesBeside (reportUrls : List String) (wipes : List DossierWipeEvidence) :
    List DossierWipeEvidence :=
  wipes.filter (fun wipe => !decide (reportIdentity wipe.reportUrl ∈ reportUrls))

def bossCard : Option AggregatedDossierBoss := do
  let firstKills := eventEntries rt input kills
  let latest ← firstKills.head?
  let oldest ← firstKills.getLast?
  let encounter := latest.selected.encounter
  let key : BossKey := (encounter.raidId, encounter.bossId)
  return {
    boss :=
      { metadata := ⟨encounter.bossId, encounter.bossName, encounter.bossOrder,
          bossImageUrl rt generated encounter⟩
        firstKill := oldest.firstKill
        firstKills := firstKills
        bestParses := aggregateEventParses rt (firstKills.flatMap EventEntry.logged)
          input.characters (tierBestsOf rt generated input key)
        wipes := aggregateWipes rt input
          (wipesBeside (killReportUrls kills) (wipesOf rt generated input key)) }
    isFinalBoss := encounter.isFinalBoss
    raidId := encounter.raidId
    raidName := encounter.raidName }

def killBossKey (kill : CatalogueMatchedKill) : BossKey :=
  (kill.encounter.raidId, kill.encounter.bossId)

def bossCards (allKills : List CatalogueMatchedKill) : List AggregatedDossierBoss :=
  (bucketsBy killBossKey allKills).values.filterMap (bossCard rt generated input)

structure ApplicantDossierRaid where
  raidId : String
  raidName : String
  imageUrl : Option String
  bosses : List ApplicantDossierBoss
  deriving DecidableEq

/-- A raid as its first card opened it, with every card collected under it. -/
structure ObservedRaid where
  raidId : String
  raidName : String
  imageUrl : Option String
  tierOrdinal : Option ℕ
  bosses : List AggregatedDossierBoss

def observedRaid (entry : String × List AggregatedDossierBoss) : Option ObservedRaid :=
  entry.2.head?.map (fun first =>
    let raid := lookupRaidByName rt generated first.raidName
    { raidId := entry.1
      raidName := first.raidName
      imageUrl := raid.bind RaidCatalogueRaid.imageUrl
      tierOrdinal := raid.map RaidCatalogueRaid.tierOrdinal
      bosses := entry.2 })

def observedRaids (cards : List AggregatedDossierBoss) : List ObservedRaid :=
  (bucketsBy AggregatedDossierBoss.raidId cards).entries.filterMap (observedRaid rt generated)

/-- The final boss first, then from the last boss to the first. -/
def compareBosses : AggregatedDossierBoss → AggregatedDossierBoss → Ordering :=
  compareLex (readBy AggregatedDossierBoss.isFinalBoss (descending compare)) <|
  compareLex (readBy (fun b => b.boss.metadata.bossOrder) (descending compare)) <|
  compareLex (readBy (fun b => b.boss.metadata.bossName) text)
    (readBy (fun b => b.boss.metadata.bossId) text)

/-- The newest tier first, raids outside the catalogue last, then by name. -/
def compareRaids : ObservedRaid → ObservedRaid → Ordering :=
  compareLex (readBy ObservedRaid.tierOrdinal (descending (absentFirst compare))) <|
  compareLex (readBy ObservedRaid.raidName text) (readBy ObservedRaid.raidId text)

def shownRaid (raid : ObservedRaid) : ApplicantDossierRaid where
  raidId := raid.raidId
  raidName := raid.raidName
  imageUrl := raid.imageUrl
  bosses := (sortBy compareBosses raid.bosses).map (fun card =>
    .kill { card.boss with
      wipes := aggregateWipes rt input
        (wipesOf rt generated input (raid.raidId, card.boss.metadata.bossId)) })

def raidsWithKills (cards : List AggregatedDossierBoss) : List ApplicantDossierRaid :=
  (sortBy compareRaids (observedRaids rt generated cards)).map (shownRaid rt generated input)

def allWarcraftLogsComplete : Bool :=
  input.characters.all (fun character =>
    decide (canonicalCharacterId rt.lower character.key ∈
      (input.completeWarcraftLogsCharacters.getD []).map (canonicalCharacterId rt.lower)))

/-- One catalogued boss: its kills, or else its wipes, or else that there is nothing. -/
def catalogueBoss (observed : Option ObservedRaid) (raidId : String)
    (encounter : RaidCatalogueEncounter) : ApplicantDossierBoss :=
  let wipes := wipesOf rt generated input (raidId, encounter.bossId)
  let metadata : BossMetadata :=
    ⟨encounter.bossId, encounter.bossName, encounter.bossOrder, encounter.imageUrl⟩
  match observed.bind (fun raid =>
      raid.bosses.find? (fun card => card.boss.metadata.bossId = encounter.bossId)) with
  | some card =>
    .kill { card.boss with
      wipes := aggregateWipes rt input (wipesBeside (card.boss.firstKills.flatMap (fun entry =>
        entry.firstKill.reportUrls.map reportIdentity)) wipes) }
  | none =>
    match aggregateWipes rt input wipes with
    | latest :: others => .wipe metadata latest (latest :: others)
    | [] => if allWarcraftLogsComplete rt input then .noLogs metadata else .incomplete metadata

def catalogueRaid (observed : List ObservedRaid) (entry : SupportedRaidCatalogueEntry) :
    ApplicantDossierRaid where
  raidId := entry.raid.raidId
  raidName := entry.raid.raidName
  imageUrl := entry.raid.imageUrl
  bosses := entry.encounters.map (catalogueBoss rt generated input
    (observed.find? (fun raid => raid.raidId = entry.raid.raidId)) entry.raid.raidId)

def includeCatalogueGaps : Bool :=
  input.wipes.isSome || input.completeWarcraftLogsCharacters.isSome

structure Dossier where
  raids : List ApplicantDossierRaid
  limitations : List DossierLimitation

def matchedKills : MatchState :=
  matchFirsts rt generated (scanKills rt generated input.kills) input.raiderIoFirstKills

/-- The dossier, which a catalogue with two raids of one name refuses to draw gaps for. -/
def buildApplicantDossier : Option Dossier :=
  let state := matchedKills rt generated input
  let cards := bossCards rt generated input state.allKills
  let limitations := input.limitations ++
    state.withheldKillReasons.values.map withheldLimitation
  if includeCatalogueGaps input then
    (supportedRaidCatalogue rt generated).map (fun entries =>
      { raids := entries.map (catalogueRaid rt generated input (observedRaids rt generated cards))
        limitations := limitations })
  else
    some { raids := raidsWithKills rt generated input cards, limitations := limitations }

end SlashWho.ApplicantDossier
