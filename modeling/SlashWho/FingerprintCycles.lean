import SlashWho.CursorWalk
import SlashWho.FingerprintLoop

/-!
The sweep cycles of one run. Each cycle sweeps from the cursor the run has
stored, under a cap of its own; what it found is published, by the first cycle
with the snapshot and by a later one as an amendment, and the cursor it stops
at is stored for the next. A capped cycle that swept nothing leaves both.
-/

namespace SlashWho.FingerprintDiscovery

open Characters

/-- What differs between the cycles of a run: how much each may request, how
many reads it has in flight, and from which of its calls the gateway refuses. -/
structure CycleLimits where
  requestCap : Option ℚ
  readConcurrency : Option ℤ
  refusesFrom : Option ℕ

/-- What the cycles of a run share. The limits and the cursor its gateway and
options name are not used. -/
structure SweptRun where
  runtime : Runtime
  root : CharacterKey
  gateway : Gateway
  options : DiscoverOptions
  raiderIoCharacters : List DiscoveredCharacter
  excludedTournamentCharacterIds : List CanonicalId

def FingerprintSweepOutcome.characters : FingerprintSweepOutcome → List DiscoveredCharacter
  | .matched characters _ _ _ => characters
  | .capped characters _ _ _ => characters
  | .failure _ _ _ => []

/-- What is stored of a run between its cycles. -/
structure StoredRun where
  snapshot : List DiscoveredCharacter
  resumeAfter : Option CanonicalId

def characterIdentity (key : CharacterKey) : String :=
  key.region.code ++ "/" ++ key.realm ++ "/" ++ key.name

/-- The characters of an amendment whose identity is not present yet, each once. -/
def additions (present : List String) : List DiscoveredCharacter → List DiscoveredCharacter
  | [] => []
  | character :: rest =>
    if characterIdentity character.key ∈ present then additions present rest
    else character :: additions (characterIdentity character.key :: present) rest

namespace SweptRun
variable (run : SweptRun)

def cycleOptions (limits : CycleLimits) (resumeAfter : Option CanonicalId) : DiscoverOptions where
  requestCap := limits.requestCap
  minimumCommon := run.options.minimumCommon
  minimumIdenticalPercent := run.options.minimumIdenticalPercent
  isSuppressed := run.options.isSuppressed
  resumeAfter := resumeAfter
  historicalGuilds := run.options.historicalGuilds
  readConcurrency := limits.readConcurrency

def cycleGateway (limits : CycleLimits) : Gateway :=
  { run.gateway with refusesFrom := limits.refusesFrom }

def CycleReturns (limits : CycleLimits) (resumeAfter : Option CanonicalId)
    (sweep : FingerprintSweepOutcome) : Prop :=
  MayReturn run.runtime run.root (run.cycleGateway limits)
    (run.cycleOptions limits resumeAfter) sweep

def excluded (character : DiscoveredCharacter) : Bool :=
  canonicalCharacterId run.runtime.lower character.key ∈ run.excludedTournamentCharacterIds

/-- The snapshot the first cycle creates. -/
def createSnapshot (sweepCharacters : List DiscoveredCharacter) : List DiscoveredCharacter :=
  (deduplicateCharacters run.runtime.lower (run.raiderIoCharacters ++ sweepCharacters)).filter
    (fun character => !run.excluded character)

/-- The snapshot a continuation amends. -/
def amendSnapshot (snapshot sweepCharacters : List DiscoveredCharacter) :
    List DiscoveredCharacter :=
  snapshot ++
    additions (snapshot.map (fun character => characterIdentity character.key))
      (sweepCharacters.filter (fun character => !run.excluded character))

/-- What a cycle leaves stored. The first cycle has nothing to resume. -/
def publish (resume : Option StoredRun) (sweep : FingerprintSweepOutcome) : Option StoredRun :=
  match resume, sweep with
  | resume, .failure _ _ _ => resume
  | none, .matched characters _ _ _ => some ⟨run.createSnapshot characters, none⟩
  | none, .capped characters _ resumeAfter _ =>
    some ⟨run.createSnapshot characters, resumeAfter⟩
  | some stored, .matched characters _ _ _ =>
    some ⟨run.amendSnapshot stored.snapshot characters, none⟩
  | some stored, .capped characters _ (some resumeAfter) _ =>
    some ⟨run.amendSnapshot stored.snapshot characters, some resumeAfter⟩
  -- no cursor progress means there is no amendment to publish
  | some stored, .capped _ _ none _ => some stored

def cursor (resume : Option StoredRun) : Option CanonicalId := resume.bind StoredRun.resumeAfter

/-- Cycles one after the other, each at the cursor the last one left stored,
until one returns matched. -/
inductive Chain : Option StoredRun → List FingerprintSweepOutcome → Prop
  | sealed {resume : Option StoredRun} {limits : CycleLimits}
      {characters : List DiscoveredCharacter} {requestsUsed : ℕ} {unreadRoot : Bool}
      {skipped : ℕ}
      (h : run.CycleReturns limits (cursor resume)
        (.matched characters requestsUsed unreadRoot skipped)) :
      Chain resume [.matched characters requestsUsed unreadRoot skipped]
  | capped {resume : Option StoredRun} {limits : CycleLimits}
      {characters : List DiscoveredCharacter} {requestsUsed : ℕ}
      {resumeAfter : Option CanonicalId} {skipped : ℕ} {cycles : List FingerprintSweepOutcome}
      (h : run.CycleReturns limits (cursor resume)
        (.capped characters requestsUsed resumeAfter skipped))
      (hrest : Chain (run.publish resume (.capped characters requestsUsed resumeAfter skipped))
        cycles) :
      Chain resume (.capped characters requestsUsed resumeAfter skipped :: cycles)

variable (cycles : List FingerprintSweepOutcome)

def storedAt (index : ℕ) : Option StoredRun :=
  (cycles.take index).foldl run.publish none

/-- The characters published before the cycle at `index`: Raider.IO's, until the
first cycle publishes. -/
def publishedAt (index : ℕ) :
    List DiscoveredCharacter :=
  match run.storedAt cycles index with
  | none => run.raiderIoCharacters
  | some stored => stored.snapshot

def Admitted (index : ℕ) (character : DiscoveredCharacter) : Prop :=
  character ∈ run.publishedAt cycles (index + 1) ∧ character ∉ run.publishedAt cycles index

end SweptRun

/-- A read that does not fail: it has a value, or there is nothing to find. -/
def Reads {α : Type} (reply : Except Fault (Option α)) : Prop :=
  (∃ value, reply = .ok (some value)) ∨ reply = .error (.upstream .notFound)

structure NoFailingReads (gateway : Gateway) : Prop where
  guildRoster : Reads gateway.guildRoster
  guildRosterByIdentity : ∀ guild, Reads (gateway.guildRosterByIdentity guild)
  achievementFingerprint : ∀ key, Reads (gateway.achievementFingerprint key)

/-! What the cycles walk over. -/

/-- The rosters of the historical guilds when nothing caps their reads. -/
def historicalRosters
    (guildRosterByIdentity : CharacterGuild → Except Fault (Option (List FingerprintCandidate)))
    (seenGuilds : List String) : List CharacterGuild → List FingerprintCandidate
  | [] => []
  | guild :: rest =>
    if canonicalGuildId guild ∈ seenGuilds then
      historicalRosters guildRosterByIdentity seenGuilds rest
    else
      let later := historicalRosters guildRosterByIdentity
        (canonicalGuildId guild :: seenGuilds) rest
      match guildRosterByIdentity guild with
      | .ok (some roster) =>
        roster.map (fun candidate =>
          { candidate with guild := candidate.guild.orElse (fun _ => some guild) }) ++ later
      | _ => later

namespace SweptRun
variable (run : SweptRun)

/-- The root's own roster and fingerprint, unless it has none to read. -/
def rootReads : Option (List FingerprintCandidate × Fingerprint) :=
  match run.gateway.guildRoster, run.gateway.achievementFingerprint run.root with
  | .ok (some roster), .ok (some rootFingerprint) => some (roster, rootFingerprint)
  | _, _ => none

def allCandidates (roster : List FingerprintCandidate) : List FingerprintCandidate :=
  sortedCandidates run.runtime (roster ++ historicalRosters run.gateway.guildRosterByIdentity []
    (run.options.historicalGuilds.insertionSort (compareGuilds run.runtime)))

def allEligible : List Eligible :=
  match run.rootReads with
  | some (roster, _) => eligibleFrom run.runtime run.root [] (run.allCandidates roster)
  | none => []

/-- What a candidate's read finds, if the candidate is not suppressed. -/
def found (entry : Eligible) : List DiscoveredCharacter :=
  match run.rootReads, run.gateway.achievementFingerprint entry.candidate.key with
  | some (_, rootFingerprint), .ok (some candidateFingerprint) =>
    if !run.options.isSuppressed entry.candidate.key ∧
        fingerprintMatches run.runtime rootFingerprint candidateFingerprint run.options then
      [discoveredCharacter entry.candidate]
    else []
  | _, _ => []

end SweptRun

end SlashWho.FingerprintDiscovery
