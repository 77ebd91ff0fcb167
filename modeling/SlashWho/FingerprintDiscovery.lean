import Mathlib.Data.List.Sort
import Mathlib.Data.Rat.Floor
import SlashWho.Characters
import SlashWho.OrderedMap

/-!
A fingerprint sweep up to its candidate reads. Every read of the gateway first
takes a request from the sweep's own budget; the gateway may refuse it at its
cap. The root's roster and fingerprint are read, then the historical guilds'
rosters, and the candidates they name are merged, sorted and cut to those after
the cursor. Whatever ends the sweep here ends it before any candidate is read.
-/

namespace SlashWho.FingerprintDiscovery

open Characters

/-- What the runtime computes: lower-casing, string order, and the double of
`identical / common * 100`. -/
structure Runtime where
  lower : String → String
  compareIds : CanonicalId → CanonicalId → Ordering
  compareGuildIds : String → String → Ordering
  percent : ℕ → ℕ → ℚ

structure FingerprintCandidate where
  key : CharacterKey
  displayName : String
  className : String
  level : ℕ
  guild : Option CharacterGuild

/-- Achievement ids and their timestamps. -/
abbrev Fingerprint := OrderedMap ℚ ℚ

/-- An upstream failure. A retry delay that is not a finite number is no delay. -/
inductive UpstreamFailure
  | notFound
  | forbidden
  | transient (status : Option ℕ) (retryAfterMs : Option ℚ)
  | schemaDrift

/-- What the gateway throws of its own: an upstream failure, or anything else. -/
inductive Fault
  | upstream (failure : UpstreamFailure)
  | other

inductive Thrown
  | fault (fault : Fault)
  | capReached

/-- The gateway's answers, each a value or `none` for one of another shape, and
the place in the order of its calls from which it refuses them at its cap. -/
structure Gateway where
  guildRoster : Except Fault (Option (List FingerprintCandidate))
  guildRosterByIdentity : CharacterGuild → Except Fault (Option (List FingerprintCandidate))
  achievementFingerprint : CharacterKey → Except Fault (Option Fingerprint)
  refusesFrom : Option ℕ

def Gateway.refuses (gateway : Gateway) (call : ℕ) : Bool :=
  gateway.refusesFrom.any (fun first => first ≤ call)

structure DiscoverOptions where
  requestCap : Option ℚ
  minimumCommon : ℚ
  minimumIdenticalPercent : ℚ
  isSuppressed : CharacterKey → Bool
  resumeAfter : Option CanonicalId
  historicalGuilds : List CharacterGuild
  readConcurrency : Option ℤ

inductive FailureCode
  | upstreamUnavailable
  | upstreamSchemaChanged
  deriving DecidableEq

/-- What a sweep returns; a count of zero skipped guilds stands for none named. -/
inductive FingerprintSweepOutcome
  | matched (characters : List DiscoveredCharacter) (requestsUsed : ℕ) (unreadRoot : Bool)
      (skippedHistoricalGuilds : ℕ)
  | capped (characters : List DiscoveredCharacter) (requestsUsed : ℕ)
      (resumeAfter : Option CanonicalId) (skippedHistoricalGuilds : ℕ)
  | failure (code : FailureCode) (retryable : Bool) (retryAfterMs : Option ℚ)
  deriving DecidableEq

def readConcurrency (value : Option ℤ) : ℕ :=
  match value with
  | some n => if n ≥ 1 then n.toNat else 1
  | none => 1

theorem readConcurrency_pos (value : Option ℤ) : 0 < readConcurrency value := by
  cases value with
  | none => exact Nat.one_pos
  | some n =>
    show 0 < if n ≥ 1 then n.toNat else 1
    split <;> omega

def isNotFound : Thrown → Bool
  | .fault (.upstream .notFound) => true
  | _ => false

def isCapReached : Thrown → Bool
  | .capReached => true
  | _ => false

def schemaDrift : Thrown := .fault (.upstream .schemaDrift)

def failureOutcome : Thrown → FingerprintSweepOutcome
  | .fault (.upstream .schemaDrift) => .failure .upstreamSchemaChanged false none
  | .fault (.upstream (.transient _ (some retryAfterMs))) =>
    .failure .upstreamUnavailable true (if retryAfterMs ≥ 0 then some retryAfterMs else none)
  | _ => .failure .upstreamUnavailable true none

/-- The sweep's own catch: a cap ends it as capped, anything else as failed. -/
def caught (error : Thrown) (characters : List DiscoveredCharacter) (requestsUsed : ℕ)
    (lastSweptId : Option CanonicalId) (skippedHistoricalGuilds : ℕ) : FingerprintSweepOutcome :=
  if isCapReached error then .capped characters requestsUsed lastSweptId skippedHistoricalGuilds
  else failureOutcome error

/-! Requests. -/

/-- The sweep's request accounts, and how many calls the gateway has had. -/
structure Budget where
  remainingRequests : ℕ
  requestsUsed : ℕ
  capped : Bool
  calls : ℕ

/-- What a request comes back with. -/
inductive Answer (α : Type)
  | exhausted
  | thrown (error : Thrown)
  | malformed
  | value (value : α)

/-- The gateway's answer to one call. -/
def Gateway.answer {α : Type} (gateway : Gateway) (call : ℕ)
    (reply : Except Fault (Option α)) : Answer α :=
  if gateway.refuses call then .thrown .capReached
  else
    match reply with
    | .error fault => .thrown (.fault fault)
    | .ok none => .malformed
    | .ok (some value) => .value value

def request {α : Type} (gateway : Gateway) (b : Budget) (reply : Except Fault (Option α)) :
    Budget × Answer α :=
  if b.remainingRequests = 0 then ({ b with capped := true }, .exhausted)
  else
    ({ b with
        remainingRequests := b.remainingRequests - 1
        requestsUsed := b.requestsUsed + 1
        calls := b.calls + 1 },
      gateway.answer b.calls reply)

def startBudget (requestCap : Option ℚ) : Budget where
  remainingRequests :=
    match requestCap with
    | some cap => ⌊cap⌋.toNat
    | none => 0
  requestsUsed := 0
  capped := false
  calls := 0

/-! The rosters. -/

/-- A read of the root itself. Not found makes the root unsweepable, not the
upstream broken, so the sweep ends matched with nothing read. -/
def rootRead {α : Type} : Budget × Answer α → Except FingerprintSweepOutcome (Budget × α)
  | (b, .exhausted) => .error (.capped [] b.requestsUsed none 0)
  | (b, .thrown error) =>
    if isNotFound error then .error (.matched [] b.requestsUsed true 0)
    else .error (caught error [] b.requestsUsed none 0)
  | (b, .malformed) => .error (caught schemaDrift [] b.requestsUsed none 0)
  | (b, .value value) => .ok (b, value)

def canonicalGuildId (guild : CharacterGuild) : String :=
  guild.region.code ++ "/" ++ guild.realm ++ "/" ++ guild.name

/-- The rosters of the historical guilds, each read once. A guild not found is
skipped; the budget's end leaves the rest unread. -/
def readHistorical (gateway : Gateway) (b : Budget) (seenGuilds : List String)
    (rosters : List FingerprintCandidate) (skipped : ℕ) :
    List CharacterGuild → Except FingerprintSweepOutcome (Budget × List FingerprintCandidate × ℕ)
  | [] => .ok (b, rosters, skipped)
  | guild :: rest =>
    if canonicalGuildId guild ∈ seenGuilds then
      readHistorical gateway b seenGuilds rosters skipped rest
    else
      let seenGuilds := canonicalGuildId guild :: seenGuilds
      match request gateway b (gateway.guildRosterByIdentity guild) with
      | (b, .exhausted) => .ok (b, rosters, skipped)
      | (b, .malformed) => .error (caught schemaDrift [] b.requestsUsed none skipped)
      | (b, .thrown error) =>
        if isNotFound error then readHistorical gateway b seenGuilds rosters (skipped + 1) rest
        else .error (caught error [] b.requestsUsed none skipped)
      | (b, .value roster) =>
        readHistorical gateway b seenGuilds
          (rosters ++ roster.map (fun candidate =>
            { candidate with guild := candidate.guild.orElse (fun _ => some guild) }))
          skipped rest

variable (runtime : Runtime)

def candidateId (candidate : FingerprintCandidate) : CanonicalId :=
  canonicalCharacterId runtime.lower candidate.key

def compareCandidates (left right : FingerprintCandidate) : Prop :=
  runtime.compareIds (candidateId runtime left) (candidateId runtime right) ≠ .gt

instance : DecidableRel (compareCandidates runtime) :=
  fun _ _ => inferInstanceAs (Decidable (_ ≠ _))

def compareGuilds (left right : CharacterGuild) : Prop :=
  runtime.compareGuildIds (canonicalGuildId left) (canonicalGuildId right) ≠ .gt

instance : DecidableRel (compareGuilds runtime) := fun _ _ => inferInstanceAs (Decidable (_ ≠ _))

/-- The candidates by canonical id, the first one named under each. -/
def candidatesById (candidates : List FingerprintCandidate) :
    OrderedMap CanonicalId FingerprintCandidate :=
  candidates.foldl (fun byId candidate =>
    if byId.has (candidateId runtime candidate) then byId
    else byId.set (candidateId runtime candidate) candidate) .empty

def sortedCandidates (candidates : List FingerprintCandidate) : List FingerprintCandidate :=
  (candidatesById runtime candidates).values.insertionSort (compareCandidates runtime)

/-- Resumption is strictly after the last candidate a previous cycle swept. -/
def resumedCandidates (resumeAfter : Option CanonicalId)
    (sorted : List FingerprintCandidate) : List FingerprintCandidate :=
  match resumeAfter with
  | some cursor =>
    sorted.filter (fun item => runtime.compareIds (candidateId runtime item) cursor = .gt)
  | none => sorted

structure Eligible where
  candidate : FingerprintCandidate
  id : CanonicalId

/-- The candidates to read: in the root's region, not the root, each id once. -/
def eligibleFrom (root : CharacterKey) (seen : List CanonicalId) :
    List FingerprintCandidate → List Eligible
  | [] => []
  | candidate :: rest =>
    if candidateId runtime candidate = canonicalCharacterId runtime.lower root ∨
        candidateId runtime candidate ∈ seen ∨ candidate.key.region ≠ root.region then
      eligibleFrom root seen rest
    else
      ⟨candidate, candidateId runtime candidate⟩ ::
        eligibleFrom root (candidateId runtime candidate :: seen) rest

/-- A sweep ready to read its candidates. -/
structure Prepared where
  budget : Budget
  skippedHistoricalGuilds : ℕ
  rootFingerprint : Fingerprint
  eligible : List Eligible

/-- Everything before the candidate reads, which may end the sweep itself. -/
def prepare (root : CharacterKey) (gateway : Gateway) (options : DiscoverOptions) :
    Except FingerprintSweepOutcome Prepared := do
  let (b, roster) ← rootRead (request gateway (startBudget options.requestCap) gateway.guildRoster)
  let (b, rootFingerprint) ← rootRead (request gateway b (gateway.achievementFingerprint root))
  let (b, historicalRosters, skipped) ← readHistorical gateway b [] [] 0
    (options.historicalGuilds.insertionSort (compareGuilds runtime))
  .ok {
    budget := b
    skippedHistoricalGuilds := skipped
    rootFingerprint := rootFingerprint
    eligible := eligibleFrom runtime root [] (resumedCandidates runtime options.resumeAfter
      (sortedCandidates runtime (roster ++ historicalRosters))) }

/-! One candidate. -/

def toRaiderIoUrl (key : CharacterKey) : String :=
  "https://raider.io/characters/" ++ key.region.code ++ "/" ++ key.realm ++ "/" ++ key.name

def discoveredCharacter (candidate : FingerprintCandidate) : DiscoveredCharacter where
  key := candidate.key
  displayName := candidate.displayName
  className := candidate.className
  level := candidate.level
  guild := candidate.guild
  raiderIoUrl := toRaiderIoUrl candidate.key
  source := .fingerprint

def fingerprintMatches (root candidate : Fingerprint) (options : DiscoverOptions) : Bool :=
  let common := root.entries.countP (fun e => candidate.has e.1)
  let identical := root.entries.countP (fun e => candidate.get? e.1 = some e.2)
  let identicalPercent := if common = 0 then 0 else runtime.percent identical common
  (common : ℚ) ≥ max 200 options.minimumCommon ∧
    identicalPercent ≥ max 20 options.minimumIdenticalPercent

/-- What a candidate's read comes to. -/
inductive Verdict
  | exhausted
  | refused
  | unmatched
  | matched
  | failed (error : Thrown)

def verdict (rootFingerprint : Fingerprint) (options : DiscoverOptions) :
    Answer Fingerprint → Verdict
  | .exhausted => .exhausted
  | .malformed => .failed schemaDrift
  | .value candidateFingerprint =>
    if fingerprintMatches runtime rootFingerprint candidateFingerprint options then .matched
    else .unmatched
  | .thrown error =>
    if isNotFound error then .unmatched
    else if isCapReached error then .refused
    else .failed error

end SlashWho.FingerprintDiscovery
