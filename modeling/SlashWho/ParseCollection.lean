import SlashWho.RankingDecode

/-!
The parse side of one run: the tier bests of the planned zones, the rankings of the
planned reports, and the shared lookup that confirms the identities they rank. What a
read did not come to is written to a ledger, by raid and by fight. Every request is kept
with what upstream answered it; a cancelled one ends the run where it stands.
-/

namespace SlashWho.ParseCollection

open Characters ComparatorSort EvidenceMerge JsonNarrowing ParsePlan RankingDecode ReportDecoding

/-- What the parse side of one read ran into. -/
structure ParseLedger where
  parseLimitation : Option Limitation
  tierParseLimitation : Option Limitation
  seen : OrderedMap LimitationCode Limitation
  troubledTierBestRaidIds : List String
  troubledParseRaidIds : List String
  parsedFightUrls : List String

def ParseLedger.start : ParseLedger := ⟨none, none, .empty, [], [], []⟩

def addOnce (held : List String) (value : String) : List String :=
  if value ∈ held then held else held ++ [value]

variable (ledger : ParseLedger)

def ParseLedger.raise (limitation : Limitation) (preferExisting : Bool) :
    ParseLedger :=
  { ledger with
    seen :=
      if ledger.seen.has limitation.code then ledger.seen
      else ledger.seen.set limitation.code limitation
    parseLimitation :=
      if !preferExisting || ledger.parseLimitation.isNone then some limitation
      else ledger.parseLimitation }

def ParseLedger.raiseTier (limitation : Limitation) : ParseLedger :=
  { ledger with tierParseLimitation := some limitation }

def ParseLedger.troubleParses (raidId : String) : ParseLedger :=
  { ledger with troubledParseRaidIds := addOnce ledger.troubledParseRaidIds raidId }

def ParseLedger.troubleTierBests (raidId : String) : ParseLedger :=
  { ledger with troubledTierBestRaidIds := addOnce ledger.troubledTierBestRaidIds raidId }

def ParseLedger.markParsed (fightUrl : String) : ParseLedger :=
  { ledger with parsedFightUrls := addOnce ledger.parsedFightUrls fightUrl }

structure TroubledRaidIds where
  parses : List String
  tierBests : List String

structure ParseLedgerOutcome where
  parseLimitation : Option Limitation
  parseLimitations : List Limitation
  troubledRaidIds : TroubledRaidIds
  parsedFightUrls : List String

def ParseLedger.outcome : ParseLedgerOutcome where
  parseLimitation := ledger.parseLimitation.or ledger.tierParseLimitation
  parseLimitations :=
    (match ledger.tierParseLimitation with
    | none => ledger.seen
    | some limitation =>
      if ledger.seen.has limitation.code then ledger.seen
      else ledger.seen.set limitation.code limitation).values
  troubledRaidIds := {
    parses := sortBy text ledger.troubledParseRaidIds
    tierBests := sortBy text ledger.troubledTierBestRaidIds }
  parsedFightUrls := sortBy text ledger.parsedFightUrls

/-- A request's limitation, restated as the parse gap it leaves. -/
def toParseLimitation (limitation : Limitation) : Limitation :=
  match limitation.code with
  | .private_ => ⟨.parsePrivate, none⟩
  | .rateLimited => ⟨.parseRateLimited, limitation.retryAfterMs⟩
  | .schemaDrift => ⟨.parseSchemaDrift, none⟩
  | _ => ⟨.parseUnavailable, none⟩

inductive ParseQuery
  | zoneRankings (zoneId : ℕ)
  | fightParses (code : String) (fightIds : List ℕ)
  | rankingIdentities (identities : List RankingIdentity)

/-- How a request ends. A run's own deadline counts as upstream being unavailable; a
cancelled request throws. -/
inductive Reply
  | success (value : Json)
  | limitation (limitation : Limitation)
  | timedOut
  | cancelled

/-- What a request comes to where it is not cancelled. -/
inductive GraphqlResult
  | success (value : Json)
  | limitation (limitation : Limitation)

def unavailableOnTimeout : Reply → Option GraphqlResult
  | .success value => some (.success value)
  | .limitation limitation => some (.limitation limitation)
  | .timedOut => some (.limitation ⟨.unavailable, none⟩)
  | .cancelled => none

/-- What upstream answers each request, given how many went before it. -/
abbrev Upstream := ℕ → ParseQuery → Reply

structure CollectionRun where
  kills : OrderedMap String FirstKillEvidence
  parseRequests : ℕ
  asked : List (ParseQuery × Reply)
  ledger : ParseLedger

def CollectionRun.counted (upstream : Upstream) (run : CollectionRun) (query : ParseQuery) :
    CollectionRun :=
  { run with asked := run.asked ++ [(query, upstream run.asked.length query)] }

def CollectionRun.noted (run : CollectionRun) (note : ParseLedger → ParseLedger) : CollectionRun :=
  { run with ledger := note run.ledger }

/-- A request that is counted against the parse cap, and what it comes to. -/
def CollectionRun.spent (upstream : Upstream) (run : CollectionRun) (query : ParseQuery) :
    CollectionRun :=
  { run.counted upstream query with parseRequests := run.parseRequests + 1 }

def answerOf (upstream : Upstream) (run : CollectionRun) (query : ParseQuery) :
    Option GraphqlResult :=
  unavailableOnTimeout (upstream run.asked.length query)

/-- A run asks for at least one parse request, as the call checks. -/
structure Options where
  key : CharacterKey
  className : Option String
  parseRequestCap : ℕ
  plan : CollectionPlanOptions
  positive : 0 < parseRequestCap

abbrev RunKills :=
  { kills : OrderedMap String FirstKillEvidence // kills.FiledBy FirstKillEvidence.fightUrl }

variable (runtime : Runtime) (specIconUrl : String → Option String → Option String)
  (options : Options) (upstream : Upstream)

/-- A cancelled request ends the run as it stands. -/
abbrev Collected (α : Type) := Except CollectionRun α

def troubleFrom (zones : List TierZone) (ledger : ParseLedger) : ParseLedger :=
  zones.foldl (fun ledger zone => ledger.troubleTierBests (toString zone.zoneId)) ledger

/-- Drift is that of one zone's answer, so the next zone is read; any other failure leaves
the zones that follow unread. -/
def readZones : List TierZone → CollectionRun → List WarcraftLogsTierBestParse →
    Collected (CollectionRun × List WarcraftLogsTierBestParse)
  | [], run, tierBests => .ok (run, tierBests)
  | zone :: rest, run, tierBests =>
    let query := ParseQuery.zoneRankings zone.zoneId
    let asked := run.spent upstream query
    match answerOf upstream run query with
    | none => .error asked
    | some (.limitation limitation) =>
      .ok (asked.noted (fun ledger =>
        troubleFrom rest ((ledger.troubleTierBests (toString zone.zoneId)).raiseTier
          (toParseLimitation limitation))), tierBests)
    | some (.success value) =>
      match decodeZoneRankings runtime specIconUrl value zone options.key options.className with
      | .ok decoded => readZones rest asked (tierBests ++ decoded)
      | .error limitation =>
        let troubled := asked.noted (fun ledger =>
          (ledger.troubleTierBests (toString zone.zoneId)).raiseTier limitation)
        if limitation.code = .parseSchemaDrift then readZones rest troubled tierBests
        else .ok (troubled.noted (troubleFrom rest), tierBests)

def zonePlan (catalogue : Catalogue) (run : CollectionRun) : TierZonePlan :=
  tierZonePlan catalogue options.plan run.kills.values options.parseRequestCap

def collectTierBests (catalogue : Catalogue) (run : CollectionRun) :
    Collected (CollectionRun × List WarcraftLogsTierBestParse) :=
  let plan := zonePlan options catalogue run
  let started :=
    if plan.unreached.isEmpty then run
    else run.noted (fun ledger =>
      troubleFrom plan.unreached (ledger.raiseTier ⟨.parseRequestCap, none⟩))
  readZones runtime specIconUrl options upstream plan.zones started []

structure DecodedGroup where
  group : ParseGroup
  decoded : RankingRows

structure FightParseHydration where
  plan : ParseGroupPlan
  decodedGroups : List DecodedGroup
  identities : OrderedMap ℕ RankingIdentity

def troubleGroups (plan : ParseGroupPlan) (scopes : List ParseGroup) (ledger : ParseLedger) :
    ParseLedger :=
  scopes.foldl (fun ledger scope =>
    ((plan.raidIds.get? scope.reportCode).getD []).foldl ParseLedger.troubleParses ledger) ledger

def markGroupsRead (plan : ParseGroupPlan) (scopes : List ParseGroup) (ledger : ParseLedger) :
    ParseLedger :=
  scopes.foldl (fun ledger scope =>
    ((plan.fightUrls.get? scope.reportCode).getD []).foldl ParseLedger.markParsed ledger) ledger

def fightQuery (group : ParseGroup) : ParseQuery :=
  .fightParses group.reportCode group.fights.keys

/-- One request of the cap is kept back for the identity lookup. -/
def readGroups (plan : ParseGroupPlan) : List ParseGroup → CollectionRun → List DecodedGroup →
    Collected (CollectionRun × List DecodedGroup)
  | [], run, decodedGroups => .ok (run, decodedGroups)
  | group :: rest, run, decodedGroups =>
    if options.parseRequestCap ≤ run.parseRequests + 1 then
      .ok (run.noted (fun ledger =>
        troubleGroups plan (group :: rest) (ledger.raise ⟨.parseRequestCap, none⟩ false)),
          decodedGroups)
    else
      let asked := run.spent upstream (fightQuery group)
      match answerOf upstream run (fightQuery group) with
      | none => .error asked
      | some (.limitation limitation) =>
        .ok (asked.noted (fun ledger =>
          troubleGroups plan (group :: rest) (ledger.raise (toParseLimitation limitation) false)),
            decodedGroups)
      | some (.success value) =>
        match decodeRankingRows runtime value group options.key with
        | .ok decoded => readGroups plan rest asked (decodedGroups ++ [⟨group, decoded⟩])
        | .error limitation =>
          let raised := asked.noted (fun ledger => ledger.raise limitation false)
          if limitation.code = .parseSchemaDrift || limitation.code = .parseIdentityUnmatched then
            -- an unmatched identity is an answer, and drift is none
            let marked :=
              if limitation.code = .parseIdentityUnmatched then
                raised.noted (markGroupsRead plan [group])
              else raised
            readGroups plan rest (marked.noted (troubleGroups plan [group])) decodedGroups
          else .ok (raised.noted (troubleGroups plan (group :: rest)), decodedGroups)

def groupPlan (catalogue : Catalogue) (run : CollectionRun) : ParseGroupPlan :=
  parseGroupPlan catalogue options.plan run.kills.values

def identitiesOf (decodedGroups : List DecodedGroup) : OrderedMap ℕ RankingIdentity :=
  .ofList (decodedGroups.flatMap (fun entry =>
    entry.decoded.identities.map (fun identity => (identity.id, identity))))

def hydrateFightParses (catalogue : Catalogue) (run : CollectionRun) :
    Collected (CollectionRun × FightParseHydration) := do
  let plan := groupPlan options catalogue run
  let (read, decodedGroups) ← readGroups runtime options upstream plan plan.groups run []
  return (read, ⟨plan, decodedGroups, identitiesOf decodedGroups⟩)

def writeFight (group : ParseGroup) (fightId : ℕ) (value : PerformanceValues)
    (kill : FirstKillEvidence) : FirstKillEvidence :=
  if kill.reportCode = group.reportCode && kill.fightId = fightId then
    { kill with performance := value }
  else kill

/-- The percentiles of a report's fights, written to its kills. -/
def writePerformance (group : ParseGroup) (performance : OrderedMap ℕ PerformanceValues)
    (run : CollectionRun) : CollectionRun :=
  { run with
    kills := performance.entries.foldl (fun kills entry =>
      kills.mapValues (fun _ kill => writeFight group entry.1 entry.2 kill)) run.kills }

/-- Each decoded group in turn; one whose identity is not confirmed keeps its own trouble.
A report's percentiles are never refused, so no group ends the loop. -/
def applyGroups (plan : ParseGroupPlan) (canonicalIds : List ℕ) :
    List DecodedGroup → CollectionRun → CollectionRun
  | [], run => run
  | ⟨group, decoded⟩ :: rest, run =>
    match canonicalRankingCharacterIdsByIdentity runtime canonicalIds decoded.identities
        decoded.actors options.key with
    | .error limitation =>
      applyGroups plan canonicalIds rest (run.noted (fun ledger =>
        troubleGroups plan [group] (ledger.raise limitation false)))
    | .ok [] => applyGroups plan canonicalIds rest (run.noted (markGroupsRead plan [group]))
    | .ok requestedIds =>
      let performance := normalizedPerformance specIconUrl decoded.rows requestedIds
        group.fights.keys options.className
      applyGroups plan canonicalIds rest
        (writePerformance group performance (run.noted (markGroupsRead plan [group])))

def applyCanonicalIdentities (run : CollectionRun) (hydration : FightParseHydration) :
    Collected CollectionRun :=
  let plan := hydration.plan
  let groups := hydration.decodedGroups.map DecodedGroup.group
  let canonicalIdentities := hydration.identities.values
  if canonicalIdentities.isEmpty then .ok (run.noted (markGroupsRead plan groups))
  else if options.parseRequestCap ≤ run.parseRequests then
    .ok (run.noted (fun ledger =>
      troubleGroups plan groups (ledger.raise ⟨.parseRequestCap, none⟩ true)))
  else
    let query := ParseQuery.rankingIdentities canonicalIdentities
    let asked := run.counted upstream query
    match answerOf upstream run query with
    | none => .error asked
    | some (.limitation limitation) =>
      .ok (asked.noted (fun ledger =>
        troubleGroups plan groups (ledger.raise (toParseLimitation limitation) false)))
    | some (.success value) =>
      match decodeCanonicalIdentityIds runtime value canonicalIdentities with
      | .error limitation =>
        .ok (asked.noted (fun ledger => troubleGroups plan groups (ledger.raise limitation false)))
      | .ok canonicalIds =>
        .ok (applyGroups runtime specIconUrl options plan canonicalIds hydration.decodedGroups
          asked)

/-- The parse side of a run over the kills that discovery left it. -/
def collectParses (catalogue : Catalogue) (kills : RunKills) :
    Collected (CollectionRun × List WarcraftLogsTierBestParse) := do
  let (zoned, tierBests) ← collectTierBests runtime specIconUrl options upstream catalogue
    ⟨kills.val, 0, [], .start⟩
  let (read, hydration) ← hydrateFightParses runtime options upstream catalogue zoned
  let applied ← applyCanonicalIdentities runtime specIconUrl options upstream read hydration
  return (applied, tierBests)

end SlashWho.ParseCollection
