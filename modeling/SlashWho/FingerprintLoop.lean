import SlashWho.FingerprintDiscovery
import SlashWho.Transitions

/-!
The candidate reads of a sweep as the event loop runs them. The dispatcher
offers reads in candidate order, as many at once as it may, looking suppression
up ahead; the reads answer in any order, and each answer's callbacks run in
their own turns. A step is one turn; a sweep returns once the dispatcher has
left its loop and no read is in flight.
-/

namespace SlashWho.FingerprintDiscovery

open Characters

inductive CandidateResult
  | skipped
  | swept (id : CanonicalId) (found : Option DiscoveredCharacter)
  | unread (id : CanonicalId)

/-- Where a read in flight is: its answer on the way, its match awaiting the
suppression check before admission, its error on the way to the catch, or done
but for leaving the set of reads in flight. -/
inductive ReadPhase
  | requested (answer : Answer Fingerprint)
  | admitting
  | throwing (error : Thrown)
  | done

structure InFlightRead where
  index : ℕ
  entry : Eligible
  phase : ReadPhase

/-- Where the dispatcher is: at the top of its loop, awaiting the suppression
check of the candidate at its index, or out of the loop. -/
inductive Dispatcher
  | top
  | checking (isSuppressed : Bool)
  | finished

structure LoopState where
  budget : Budget
  dispatcher : Dispatcher
  index : ℕ
  settled : ℕ → Option CandidateResult
  inFlight : List InFlightRead
  suppressionChecks : ℕ → Option Bool
  stopped : Bool
  failure : Option (ℕ × Thrown)

/-- What a sweep reads its candidates with. -/
structure SweepConfig where
  runtime : Runtime
  gateway : Gateway
  options : DiscoverOptions
  prepared : Prepared

namespace SweepConfig
variable (c : SweepConfig)

def concurrency : ℕ := readConcurrency c.options.readConcurrency

def suppressed (entry : Eligible) : Bool := c.options.isSuppressed entry.candidate.key

def reply (entry : Eligible) : Except Fault (Option Fingerprint) :=
  c.gateway.achievementFingerprint entry.candidate.key

def verdict (answer : Answer Fingerprint) : Verdict :=
  FingerprintDiscovery.verdict c.runtime c.prepared.rootFingerprint c.options answer

def start : LoopState where
  budget := c.prepared.budget
  dispatcher := .top
  index := 0
  settled := fun _ => none
  inFlight := []
  suppressionChecks := fun _ => none
  stopped := false
  failure := none

/-- Starts the checks of the next window of candidates that have none yet. -/
def lookAhead (checks : ℕ → Option Bool) (index ahead : ℕ) : Option Bool :=
  if index ≤ ahead ∧ ahead < index + c.concurrency ∧ checks ahead = none then
    (c.prepared.eligible[ahead]?).map c.suppressed
  else checks ahead

/-- The read at `index` answers: its result settles, or it waits on a further turn. -/
def answered (s : LoopState) (read : InFlightRead) (answer : Answer Fingerprint) :
    LoopState × ReadPhase :=
  match c.verdict answer with
  | .exhausted =>
    ({ s with
        settled := Function.update s.settled read.index (some (.unread read.entry.id))
        stopped := true }, .done)
  | .refused =>
    ({ s with
        budget := { s.budget with
          requestsUsed := s.budget.requestsUsed - 1
          capped := true }
        settled := Function.update s.settled read.index (some (.unread read.entry.id))
        stopped := true }, .done)
  | .unmatched =>
    ({ s with
        settled := Function.update s.settled read.index (some (.swept read.entry.id none)) },
      .done)
  | .matched => (s, .admitting)
  | .failed error => (s, .throwing error)

/-- A match is admitted unless its character is suppressed by now. -/
def admission (entry : Eligible) : CandidateResult :=
  .swept entry.id
    (if c.suppressed entry then none else some (discoveredCharacter entry.candidate))

/-- The earliest candidate's failure wins. -/
def keepEarliest (failure : Option (ℕ × Thrown)) (index : ℕ) (error : Thrown) :
    Option (ℕ × Thrown) :=
  match failure with
  | none => some (index, error)
  | some (first, earlier) => if index < first then some (index, error) else some (first, earlier)

/-- One turn of the event loop. -/
inductive Step : LoopState → LoopState → Prop
  | exhausted {s : LoopState} (htop : s.dispatcher = .top)
      (hend : c.prepared.eligible.length ≤ s.index) :
      Step s { s with dispatcher := .finished }
  | stoppedAtTop {s : LoopState} (htop : s.dispatcher = .top) (hstopped : s.stopped = true) :
      Step s { s with dispatcher := .finished }
  | check {s : LoopState} {entry : Eligible} {isSuppressed : Bool} (htop : s.dispatcher = .top)
      (hentry : c.prepared.eligible[s.index]? = some entry)
      (hroom : s.inFlight.length < c.concurrency) (hopen : s.stopped = false)
      (hcheck : c.lookAhead s.suppressionChecks s.index s.index = some isSuppressed) :
      Step s { s with
        dispatcher := .checking isSuppressed
        suppressionChecks :=
          Function.update (c.lookAhead s.suppressionChecks s.index) s.index none }
  | stoppedAtCheck {s : LoopState} {isSuppressed : Bool}
      (hchecking : s.dispatcher = .checking isSuppressed) (hstopped : s.stopped = true) :
      Step s { s with dispatcher := .finished }
  | skip {s : LoopState} (hchecking : s.dispatcher = .checking true)
      (hopen : s.stopped = false) :
      Step s { s with
        dispatcher := .top
        index := s.index + 1
        settled := Function.update s.settled s.index (some .skipped) }
  | dispatch {s : LoopState} {entry : Eligible} (hchecking : s.dispatcher = .checking false)
      (hopen : s.stopped = false) (hentry : c.prepared.eligible[s.index]? = some entry) :
      Step s { s with
        budget := (request c.gateway s.budget (c.reply entry)).1
        dispatcher := .top
        index := s.index + 1
        inFlight := s.inFlight ++
          [⟨s.index, entry, .requested (request c.gateway s.budget (c.reply entry)).2⟩] }
  | answer {s : LoopState} {before after : List InFlightRead} {read : InFlightRead}
      {answer : Answer Fingerprint} (hin : s.inFlight = before ++ read :: after)
      (hphase : read.phase = .requested answer) :
      Step s { (c.answered s read answer).1 with
        inFlight := before ++ { read with phase := (c.answered s read answer).2 } :: after }
  | settle {s : LoopState} {before after : List InFlightRead} {read : InFlightRead}
      (hin : s.inFlight = before ++ read :: after) (hphase : read.phase = .admitting) :
      Step s { s with
        settled := Function.update s.settled read.index (some (c.admission read.entry))
        inFlight := before ++ { read with phase := .done } :: after }
  | fail {s : LoopState} {before after : List InFlightRead} {read : InFlightRead}
      {error : Thrown} (hin : s.inFlight = before ++ read :: after)
      (hphase : read.phase = .throwing error) :
      Step s { s with
        stopped := true
        failure := keepEarliest s.failure read.index error
        inFlight := before ++ { read with phase := .done } :: after }
  | leave {s : LoopState} {before after : List InFlightRead} {read : InFlightRead}
      (hin : s.inFlight = before ++ read :: after) (hphase : read.phase = .done) :
      Step s { s with inFlight := before ++ after }

abbrev Runs : LoopState → LoopState → Prop := Relation.ReflTransGen c.Step

end SweepConfig

/-- The sweep waits for nothing more. -/
def LoopState.Returned (s : LoopState) : Prop := s.dispatcher = .finished ∧ s.inFlight = []

/-- What a reading of the candidates amounts to. -/
structure Reading where
  characters : List DiscoveredCharacter
  lastSweptId : Option CanonicalId
  requestsUsed : ℕ
  capped : Bool
  failure : Option Thrown

/-- Folds the settled results in candidate order, from `index` on, up to the
first candidate whose read never completed. -/
def foldSettled (settled : ℕ → Option CandidateResult) :
    (remaining index : ℕ) → (lastSweptId : Option CanonicalId) →
    List DiscoveredCharacter × Option CanonicalId
  | 0, _, lastSweptId => ([], lastSweptId)
  | remaining + 1, index, lastSweptId =>
    match settled index with
    | none => ([], lastSweptId)
    | some (.unread _) => ([], lastSweptId)
    | some .skipped => foldSettled settled remaining (index + 1) lastSweptId
    | some (.swept id found) =>
      let (characters, last) := foldSettled settled remaining (index + 1) (some id)
      (found.toList ++ characters, last)

def LoopState.reading (s : LoopState) (candidates : ℕ) : Reading where
  characters := (foldSettled s.settled candidates 0 none).1
  lastSweptId := (foldSettled s.settled candidates 0 none).2
  requestsUsed := s.budget.requestsUsed
  capped := s.budget.capped
  failure := s.failure.map Prod.snd

/-- What a sweep returns of its reading. A failure is thrown before any fold. -/
def Reading.outcome (reading : Reading) (skippedHistoricalGuilds : ℕ) : FingerprintSweepOutcome :=
  match reading.failure with
  | some error => caught error [] reading.requestsUsed none skippedHistoricalGuilds
  | none =>
    if reading.capped then
      .capped reading.characters reading.requestsUsed reading.lastSweptId skippedHistoricalGuilds
    else .matched reading.characters reading.requestsUsed false skippedHistoricalGuilds

/-- The outcomes `discoverFingerprintMatches` may return, over every order in
which reads in flight settle. -/
def MayReturn (runtime : Runtime) (root : CharacterKey) (gateway : Gateway)
    (options : DiscoverOptions) (outcome : FingerprintSweepOutcome) : Prop :=
  match prepare runtime root gateway options with
  | .error early => outcome = early
  | .ok prepared =>
    let c : SweepConfig := ⟨runtime, gateway, options, prepared⟩
    ∃ s, c.Runs c.start s ∧ s.Returned ∧
      outcome = (s.reading prepared.eligible.length).outcome prepared.skippedHistoricalGuilds

/-- The sweep returns in the end: no run goes on forever, and one that cannot go
on has returned. -/
def Returns (runtime : Runtime) (root : CharacterKey) (gateway : Gateway)
    (options : DiscoverOptions) : Prop :=
  match prepare runtime root gateway options with
  | .error _ => True
  | .ok prepared =>
    let c : SweepConfig := ⟨runtime, gateway, options, prepared⟩
    (∀ run : ℕ → LoopState, run 0 = c.start → ¬ ∀ n, c.Step (run n) (run (n + 1))) ∧
      ∀ s, c.Runs c.start s → (∀ s', ¬ c.Step s s') → s.Returned

end SlashWho.FingerprintDiscovery
