import SlashWho.Characters
import SlashWho.Fallible
import SlashWho.HistoryScan
import SlashWho.JsonNarrowing
import Mathlib.Data.List.Sort

/-!
Decoding one page of a character's report history. Reports and their fights are
walked in order, and a field that does not narrow ends the walk as schema drift
with what was decoded before it. A fight becomes a kill or a wipe only on Mythic
and only where an actor of its report is the character and took part.
-/

namespace SlashWho.ReportDecoding

open Characters EvidenceMerge HistoryScan JsonNarrowing

/-- What the runtime makes of text, and the catalogue's word on a zone. -/
structure Runtime where
  lower : String → String
  lettersAndNumbers : String → String
  encodeURIComponent : String → String
  toISOString : ℕ → String
  localeCompare : String → String → Ordering
  isNonRaidZone : String → Bool

def mythicDifficulty : ℤ := 5

def unavailablePerformance : PerformanceValues where
  spec := none
  damage := .unavailable
  healing := .unavailable
  bossDamage := .unavailable

structure FirstKillEvidence where
  raidId : String
  raidName : String
  bossId : String
  bossName : String
  journalBossId : Option String
  bossOrder : ℕ
  killedAt : String
  reportCode : String
  fightId : ℕ
  difficulty : ℤ
  performance : PerformanceValues
  reportUrl : String
  fightUrl : String
  guild : Option CharacterGuild
  uploader : Option String
  deriving DecidableEq

structure WipeEvidence where
  raidId : String
  raidName : String
  bossId : String
  bossName : String
  journalBossId : Option String
  bossOrder : ℕ
  attemptedAt : String
  reportUrl : String
  fightUrl : String
  guild : Option CharacterGuild
  uploader : Option String
  deriving DecidableEq

/-- The page asks about no rankings, so it names no tier best and no parse. -/
structure ReportEvidence where
  omittedInvalidTimestampReportCodes : Option (List String)
  kills : List FirstKillEvidence
  wipes : List WipeEvidence
  tierBests : List TierBestParse
  parsedFightUrls : List String
  troubledParses : List String
  troubledTierBests : List String
  limitation : Option LimitationCode

inductive ReportResult
  | limitation (code : LimitationCode)
  | evidence (page : ReportEvidence)

/-- What the walk over a page's reports has gathered. -/
structure Decoded where
  kills : OrderedMap String FirstKillEvidence
  wipes : OrderedMap String WipeEvidence
  killedByReportBoss : List String
  omittedInvalidTimestamp : Bool
  omittedInvalidTimestampReportCodes : List String

def Decoded.start : Decoded where
  kills := .empty
  wipes := .empty
  killedByReportBoss := []
  omittedInvalidTimestamp := false
  omittedInvalidTimestampReportCodes := []

/-- Set aside one fight whose times are impossible. -/
def Decoded.omit (d : Decoded) (code : String) : Decoded :=
  { d with
    omittedInvalidTimestamp := true
    omittedInvalidTimestampReportCodes :=
      if code ∈ d.omittedInvalidTimestampReportCodes then d.omittedInvalidTimestampReportCodes
      else d.omittedInvalidTimestampReportCodes ++ [code] }

def Decoded.omittedCodes (d : Decoded) : Option (List String) :=
  if d.omittedInvalidTimestamp then some d.omittedInvalidTimestampReportCodes else none

def reportBoss (reportUrl bossId : String) : String := reportUrl ++ "\x00" ++ bossId

/-- Drift keeps what was decoded before it, unfiltered and in the order it was met. -/
def Decoded.schemaDrift (d : Decoded) : ReportResult :=
  if d.kills.entries ≠ [] ∨ d.wipes.entries ≠ [] ∨ d.omittedInvalidTimestamp = true then
    .evidence {
      omittedInvalidTimestampReportCodes := d.omittedCodes
      kills := d.kills.values
      wipes := d.wipes.values
      tierBests := []
      parsedFightUrls := []
      troubledParses := []
      troubledTierBests := []
      limitation := some .schemaDrift }
  else .limitation .schemaDrift

variable (runtime : Runtime)

def normalizedRealm (value : String) : String := runtime.lower (runtime.lettersAndNumbers value)

def supportedRegion (code : String) : Option Region :=
  [Region.us, .eu, .kr, .tw].find? fun region => region.code = code

/-- The guild a report names: none when it names none, a drift when it names half of one. -/
def reportGuild : Option Json → Option (Option CharacterGuild)
  | none => some none
  | some .null => some none
  | some value => do
    let guild ← record (some value)
    let server ← record (guild.lookup "server")
    let region ← record (server.lookup "region")
    let name ← nonEmptyString (guild.lookup "name")
    let realm ← nonEmptyString (server.lookup "slug")
    let slug ← nonEmptyString (region.lookup "slug")
    let region ← supportedRegion (runtime.lower slug)
    return some { name, region, realm }

/-- Encounter Journal ids by encounter, where the zone gives both. -/
def journalBossIds (zoneEncounters : Option Json) : OrderedMap ℕ String :=
  .ofList (((array zoneEncounters).getD []).filterMap fun encounterValue => do
    let encounter ← record (some encounterValue)
    let encounterId ← positiveInteger (encounter.lookup "id")
    let journalId ← positiveInteger (encounter.lookup "journalID")
    return (encounterId, toString journalId))

/-- What a report gives every fight on it. -/
structure ReportHead where
  code : String
  startTime : ℕ
  guild : Option CharacterGuild
  uploader : Option String
  raidId : ℕ
  raidName : String
  journalBossIds : OrderedMap ℕ String

def reportHead (report : Fields) : Option ReportHead := do
  let code ← nonEmptyString (report.lookup "code")
  let startTime ← validTimestampMilliseconds (report.lookup "startTime")
  let zone ← record (report.lookup "zone")
  let raidId ← positiveInteger (zone.lookup "id")
  let raidName ← nonEmptyString (zone.lookup "name")
  let guild ← reportGuild runtime (report.lookup "guild")
  let uploader := nonEmptyString (andField (record (report.lookup "owner")) "name")
  return {
    code, startTime, guild, uploader, raidId, raidName
    journalBossIds := journalBossIds (zone.lookup "encounters") }

def reportActors (report : Fields) : Option (List Json) :=
  array (andField (record (report.lookup "masterData")) "actors")

/-- The id of an actor that is the character; an incomplete identity is nobody's. -/
def participantId (key : CharacterKey) (actorValue : Json) : Option ℕ := do
  let actor ← record (some actorValue)
  let type ← nonEmptyString (actor.lookup "type")
  guard (type = "Player")
  let actorId ← positiveInteger (actor.lookup "id")
  let name ← nonEmptyString (actor.lookup "name")
  let server ← nonEmptyString (actor.lookup "server")
  guard (runtime.lower name = key.name ∧
    normalizedRealm runtime server = normalizedRealm runtime key.realm)
  return actorId

def participantIds (key : CharacterKey) (actors : List Json) : List ℕ :=
  actors.filterMap (participantId runtime key)

/-- A boss fight whose fields narrow. -/
structure BossFight where
  id : ℕ
  encounterId : ℕ
  bossName : Option String
  killed : Bool
  difficulty : ℤ
  friendlyPlayers : List ℕ
  raidId : ℕ
  raidName : String
  startTime : Option ℕ
  endTime : Option ℕ

/-- What a fight narrows to. Trash pulls carry encounter 0 and no boss identity. -/
inductive FightRead
  | drift
  | trash
  | boss (fight : BossFight)

def readFight (head : ReportHead) (fightValue : Json) : FightRead :=
  let fight := record (some fightValue)
  let fightZone := record (andField fight "gameZone")
  match positiveInteger (andField fight "id"),
    nonNegativeInteger (andField fight "encounterID") with
  | some id, some encounterId =>
    if encounterId = 0 then .trash
    else
      match boolean (andField fight "kill"), safeInteger (andField fight "difficulty"),
        (array (andField fight "friendlyPlayers")).bind
          (·.mapM fun player => positiveInteger (some player)) with
      | some killed, some difficulty, some friendlyPlayers =>
        .boss {
          id, encounterId, killed, difficulty, friendlyPlayers
          bossName := nonEmptyString (andField fight "name")
          raidId := (positiveInteger (andField fightZone "id")).getD head.raidId
          raidName := (nonEmptyString (andField fightZone "name")).getD head.raidName
          startTime := validTimestampMilliseconds (andField fight "startTime")
          endTime := validTimestampMilliseconds (andField fight "endTime") }
      | _, _, _ => .drift
  | _, _ => .drift

/-- When a fight of a report ended, where both times can be trusted. -/
def evidenceAt (head : ReportHead) (fight : BossFight) : Option ℕ := do
  let startTime ← fight.startTime
  let endTime ← fight.endTime
  guard (startTime ≤ endTime)
  return head.startTime + endTime

def reportUrlOf (code : String) : String :=
  "https://www.warcraftlogs.com/reports/" ++ runtime.encodeURIComponent code

def fightUrlOf (code : String) (id : ℕ) : String :=
  reportUrlOf runtime code ++ "#fight=" ++ toString id

def killOf (head : ReportHead) (fight : BossFight) (bossName : String) (time : ℕ) :
    FirstKillEvidence where
  raidId := toString fight.raidId
  raidName := fight.raidName
  bossId := toString fight.encounterId
  bossName
  journalBossId := head.journalBossIds.get? fight.encounterId
  bossOrder := fight.encounterId
  killedAt := runtime.toISOString time
  reportCode := head.code
  fightId := fight.id
  difficulty := fight.difficulty
  performance := unavailablePerformance
  reportUrl := reportUrlOf runtime head.code
  fightUrl := fightUrlOf runtime head.code fight.id
  guild := head.guild
  uploader := head.uploader

def wipeOf (head : ReportHead) (fight : BossFight) (bossName : String) (time : ℕ) :
    WipeEvidence where
  raidId := toString fight.raidId
  raidName := fight.raidName
  bossId := toString fight.encounterId
  bossName
  journalBossId := head.journalBossIds.get? fight.encounterId
  bossOrder := fight.encounterId
  attemptedAt := runtime.toISOString time
  reportUrl := reportUrlOf runtime head.code
  fightUrl := fightUrlOf runtime head.code fight.id
  guild := head.guild
  uploader := head.uploader

def Decoded.addKill (d : Decoded) (kill : FirstKillEvidence) : Decoded :=
  { d with
    killedByReportBoss := reportBoss kill.reportUrl kill.bossId :: d.killedByReportBoss
    kills := d.kills.set kill.fightUrl kill }

def Decoded.addWipe (d : Decoded) (wipe : WipeEvidence) : Decoded :=
  { d with wipes := d.wipes.set wipe.fightUrl wipe }

/-- A Mythic boss fight the character took part in. -/
def attributed (participants : List ℕ) (fight : BossFight) : Bool :=
  fight.difficulty = mythicDifficulty && fight.friendlyPlayers.any (· ∈ participants)

def addFight (head : ReportHead) (d : Decoded) (fight : BossFight) : Except Decoded Decoded :=
  match evidenceAt head fight with
  | none => .ok (d.omit head.code)
  | some time =>
    if runtime.isNonRaidZone fight.raidName then .ok d
    else
      match fight.bossName with
      | none => .error d
      | some bossName =>
        if time > maxSafeInteger ∨ time > maxDateMilliseconds then .ok (d.omit head.code)
        else if fight.killed then .ok (d.addKill (killOf runtime head fight bossName time))
        else .ok (d.addWipe (wipeOf runtime head fight bossName time))

/-- One fight of a report. The error is a drift, with what was gathered before it. -/
def decodeFight (head : ReportHead) (participants : List ℕ) (d : Decoded) (fightValue : Json) :
    Except Decoded Decoded :=
  match readFight head fightValue with
  | .drift => .error d
  | .trash => .ok d
  | .boss fight => if attributed participants fight then addFight runtime head d fight else .ok d

variable (key : CharacterKey)

def decodeReport (d : Decoded) (reportValue : Json) : Except Decoded Decoded :=
  match record (some reportValue) with
  | none => .error d
  | some report =>
    match reportHead runtime report, reportActors report, array (report.lookup "fights") with
    | some head, some actors, some fights =>
      fights.foldlM (decodeFight runtime head (participantIds runtime key actors)) d
    | _, _, _ => .error d

def killOrder (a b : FirstKillEvidence) : Prop :=
  ((compare a.bossOrder b.bossOrder).then
    ((runtime.localeCompare a.killedAt b.killedAt).then
      (runtime.localeCompare a.fightUrl b.fightUrl))) ≠ .gt

instance : DecidableRel (killOrder runtime) := fun _ _ => inferInstanceAs (Decidable (_ ≠ _))

/-- Newest attempt first within one boss. -/
def wipeOrder (a b : WipeEvidence) : Prop :=
  ((runtime.localeCompare a.raidId b.raidId).then
    ((compare a.bossOrder b.bossOrder).then
      ((runtime.localeCompare b.attemptedAt a.attemptedAt).then
        (runtime.localeCompare a.fightUrl b.fightUrl)))) ≠ .gt

instance : DecidableRel (wipeOrder runtime) := fun _ _ => inferInstanceAs (Decidable (_ ≠ _))

/-- A page read to its end. A wipe on a boss killed in the same report says nothing more. -/
def Decoded.evidence (d : Decoded) : ReportResult :=
  .evidence {
    omittedInvalidTimestampReportCodes := d.omittedCodes
    kills := d.kills.values.insertionSort (killOrder runtime)
    wipes := (d.wipes.values.filter fun wipe =>
      reportBoss wipe.reportUrl wipe.bossId ∉ d.killedByReportBoss).insertionSort
        (wipeOrder runtime)
    tierBests := []
    parsedFightUrls := []
    troubledParses := []
    troubledTierBests := []
    limitation := none }

def decodeReports (reports : List Json) : ReportResult :=
  match reports.foldlM (decodeReport runtime key) Decoded.start with
  | .error d => d.schemaDrift
  | .ok d => d.evidence runtime

/-- A character that reads as `null` is not found, and so is one below a value
that is no record. -/
def firstKillReports (value : Option Json) : ReportResult :=
  let envelope := record value
  let data := record (andField envelope "data")
  let characterData := record (andField data "characterData")
  match andField characterData "character" with
  | some .null => .limitation .notFound
  | character =>
    let entry := record character
    let characterServer := record (andField entry "server")
    let recentReports := record (andField entry "recentReports")
    match nonEmptyString (andField characterServer "normalizedName"),
      array (andField recentReports "data"), boolean (andField recentReports "has_more_pages") with
    | some _, some reports, some _ => decodeReports runtime key reports
    | _, _, _ => .limitation .schemaDrift

variable {report : Fields}

theorem reportHead_eq_of_lookup {report' : Fields}
    (h : ∀ field, field ≠ "masterData" → report'.lookup field = report.lookup field) :
    reportHead runtime report' = reportHead runtime report := by
  have hcode := h "code" (by decide)
  have hstart := h "startTime" (by decide)
  have hzone := h "zone" (by decide)
  have hguild := h "guild" (by decide)
  have howner := h "owner" (by decide)
  simp only [reportHead, hcode, hstart, hzone, hguild, howner]

theorem decodeReport_eq_of_lookup {report' : Fields} (d : Decoded)
    (h : ∀ field, field ≠ "masterData" → report'.lookup field = report.lookup field)
    (hactors : reportActors report' = reportActors report) :
    decodeReport runtime key d (.object report') = decodeReport runtime key d (.object report) := by
  simp only [decodeReport, record_object, hactors, reportHead_eq_of_lookup runtime h,
    h "fights" (by decide)]

theorem decodeReport_of_head_none (d : Decoded) (h : reportHead runtime report = none) :
    decodeReport runtime key d (.object report) = .error d := by
  simp only [decodeReport, record_object, h]

theorem reportHead_of_code_none (h : nonEmptyString (report.lookup "code") = none) :
    reportHead runtime report = none := by
  simp [reportHead, h]

variable {head : ReportHead}

theorem boss_of_readFight {fightValue : Json} {fight : BossFight}
    (h : readFight head fightValue = .boss fight) :
    ∃ fields, record (some fightValue) = some fields ∧
      positiveInteger (fields.lookup "encounterID") = some fight.encounterId ∧
      safeInteger (fields.lookup "difficulty") = some fight.difficulty := by
  cases hrecord : record (some fightValue) with
  | none =>
    have hid : positiveInteger (andField none "id") = none := rfl
    simp [readFight, hrecord, hid] at h
  | some fields =>
    refine ⟨fields, rfl, ?_⟩
    simp only [readFight, hrecord, andField_some] at h
    split at h
    · next id encounterId hid hencounter =>
      split at h
      · cases h
      · next hzero =>
        split at h
        · next killed difficulty players hkill hdifficulty hplayers =>
          cases h
          exact ⟨positiveInteger_of_nonNegativeInteger hencounter hzero, hdifficulty⟩
        · cases h
    · cases h

theorem foldlM_decodeFight_of_not_mythic {fights : List Json}
    (h : ∀ fightValue ∈ fights, ∀ fight, readFight head fightValue = .boss fight →
      fight.difficulty ≠ mythicDifficulty) (participants : List ℕ) (d : Decoded) :
    fights.foldlM (decodeFight runtime head participants) d =
      fights.foldlM (decodeFight runtime head []) d := by
  apply Fallible.foldlM_congr
  intro fightValue hin next
  cases hread : readFight head fightValue with
  | drift => simp only [decodeFight, hread]
  | trash => simp only [decodeFight, hread]
  | boss fight =>
    have hother := h fightValue hin fight hread
    simp [decodeFight, hread, attributed, hother]

end SlashWho.ReportDecoding
