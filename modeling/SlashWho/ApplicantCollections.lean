import SlashWho.DiscoveryReservations
import SlashWho.EvidencePhases

/-!
The collection a source intent starts. A replay reserves a discovery run and an evidence run for the
applicant, each where what is stored is older than a cutoff that the intent fixes, and hands what it
reserved to the queue. A replay may crash at any of its awaits; between them workers, visitors and
other replays change the same tables. What a replay reserved is noted, unread.
-/

namespace SlashWho.ApplicantCollections

open Characters EvidenceMerge EvidenceRetryPolicy
open EvidenceReservations (CURRENT_EVIDENCE_VERSION Tables dateOf)
open EvidenceRuns (Catalogue EvidencePublication EvidenceRun EvidenceRunMode PublishedFrom)
open DiscoveryReservations (DiscoveryTables)

def hour : ℕ := 60 * 60 * 1000 * 1000

/-- What one intent asks for, in every replay of it. -/
structure CollectionInput where
  key : CharacterKey
  observedAt : Instant
  discoveryFreshnessHours : ℕ
  evidenceFreshnessHours : ℕ
  discoveryFreshnessHours_pos : 0 < discoveryFreshnessHours

def CollectionInput.discoveryCutoff (input : CollectionInput) : ℤ :=
  (dateOf input.observedAt : ℤ) - input.discoveryFreshnessHours * hour

/-- Nothing was published before the epoch. -/
def CollectionInput.evidenceCutoff (input : CollectionInput) : Instant :=
  dateOf input.observedAt - input.evidenceFreshnessHours * hour

inductive Outcome
  | started
  | reused
  | suppressed
  | unavailable
  deriving DecidableEq

/-- What a replay waits for, with what it will go on with. -/
inductive Await
  | isActive
  | reserve
  | getCharacter (run : ℕ)
  | cancel (run : ℕ)
  | enqueue (run : ℕ) (reserved : Bool)
  | markEnqueued (run : ℕ) (queueJobId : String) (reserved : Bool)
  | isActiveAgain (reserved : Bool)
  | reserveEvidence (reserved : Bool)
  | enqueueEvidence (run : ℕ) (outcome : Outcome)
  | markEvidenceEnqueued (run : ℕ) (queueJobId : String) (outcome : Outcome)
  | promote (outcome : Outcome)
  deriving DecidableEq

/-- The next await of a replay, or how it ended. -/
inductive Next
  | await (next : Await)
  | returned (outcome : Outcome)
  | threw

/-- What an await finds outside the tables: the id the database generates, and
whether and with what job a gateway or the queue answers. -/
structure Response where
  id : ℕ
  answers : Bool
  queueJobId : String

structure World where
  clock : Instant
  discovery : DiscoveryTables
  evidence : Tables
  replays : ℕ → Option Await
  /-- The discovery and the evidence runs that replays reserved. -/
  discoveryReserved : List ℕ
  evidenceReserved : List ℕ
  results : List (ℕ × Option Outcome)

def World.start : World where
  clock := 0
  discovery := .empty
  evidence := ⟨.empty, fun _ => 0, fun _ => none⟩
  replays := fun _ => none
  discoveryReserved := []
  evidenceReserved := []
  results := []

section Replay
variable (collation : String → String → Ordering) (input : CollectionInput)

/-- A run that the replay joins: one with a job is promoted, and one left
without is handed to the queue again. -/
def join (joined : Option (ℕ × EvidenceRun)) (outcome : Outcome) : Next :=
  match joined with
  | none => .returned outcome
  | some run =>
    match run.2.queueJobId with
    | some queueJobId => if queueJobId = "" then .returned outcome else .await (.promote outcome)
    | none =>
      if run.2.status = .queued then .await (.enqueueEvidence run.1 outcome)
      else .returned outcome

def discoveryRequest (now : Instant) : DiscoveryReservations.ReserveInput where
  key := input.key
  callerBucketHash := "applicant-sheet"
  limit := 1000000
  now := now
  expiresAt := now + hour
  freshnessCutoff := input.discoveryCutoff

def evidenceRequest (now : Instant) : EvidenceReservations.ReserveInput where
  key := input.key
  freshnessCutoff := input.evidenceCutoff
  now := now
  phasePlan := EvidencePhases.fullEvidencePhasePlan.map EvidencePhases.EvidencePhaseId.text
  lightRefresh := false
  prepareNewRun := none

def onDiscoveryReservation (w : World) :
    Except Fault DiscoveryReservations.Reservation × DiscoveryTables → World × Next
  | (.error _, _) => (w, .threw)
  | (.ok reservation, discovery) =>
    let w' := { w with discovery := discovery }
    match reservation with
    | .suppressed => (w', .returned .suppressed)
    | .rateLimited _ | .negative => (w', .returned .unavailable)
    | .fresh => (w', .await (.isActiveAgain false))
    | .reserved id =>
      ({ w' with discoveryReserved := w.discoveryReserved ++ [id] }, .await (.getCharacter id))
    | .active id run =>
      -- a reservation whose job was never made is handed to the queue
      if run.status = .queued ∧ run.queueJobId = none then (w', .await (.enqueue id false))
      else (w', .await (.isActiveAgain false))

def reserveDiscovery (response : Response) (w : World) : World × Next :=
  onDiscoveryReservation w (DiscoveryReservations.reserve
    (discoveryRequest input (dateOf w.clock)) response.id w.clock w.discovery)

def onEvidenceReservation (reserved : Bool) (w : World) :
    Except Fault EvidenceReservations.Reservation × Tables → World × Next
  | (.error _, _) => (w, .threw)
  | (.ok reservation, evidence) =>
    let w' := { w with evidence := evidence }
    let outcome := if reserved then .started else .reused
    match reservation with
    | .fresh _ active _ => (w', join active outcome)
    | .active run _ => (w', join (some run) outcome)
    | .reserved id _ _ _ =>
      ({ w' with evidenceReserved := w.evidenceReserved ++ [id] },
        .await (.enqueueEvidence id .started))

def reserveEvidence (response : Response) (reserved : Bool) (w : World) : World × Next :=
  onEvidenceReservation reserved w (EvidenceReservations.reserve collation w.evidence
    (evidenceRequest input (dateOf w.clock)) response.id w.clock)

/-- One await of `startApplicantCollection`, and what follows it. -/
def advance (response : Response) (w : World) : Await → World × Next
  | .isActive =>
    if w.discovery.isSuppressed input.key (dateOf w.clock) then (w, .returned .suppressed)
    else (w, .await .reserve)
  | .reserve => reserveDiscovery input response w
  | .getCharacter run => (w, .await (if response.answers then .enqueue run true else .cancel run))
  | .cancel run =>
    match DiscoveryReservations.cancel run w.discovery with
    | (.error _, _) => (w, .threw)
    | (.ok _, discovery) => ({ w with discovery := discovery }, .returned .unavailable)
  | .enqueue run reserved =>
    if response.answers then (w, .await (.markEnqueued run response.queueJobId reserved))
    -- only a run the replay reserved is left to the recovery of pending searches
    else (w, if reserved then .returned .unavailable else .threw)
  | .markEnqueued run queueJobId reserved =>
    match DiscoveryReservations.markEnqueued run queueJobId w.discovery with
    | (.error _, _) => (w, if reserved then .returned .unavailable else .threw)
    | (.ok _, discovery) => ({ w with discovery := discovery }, .await (.isActiveAgain reserved))
  | .isActiveAgain reserved =>
    if w.discovery.isSuppressed input.key (dateOf w.clock) then (w, .returned .suppressed)
    else (w, .await (.reserveEvidence reserved))
  | .reserveEvidence reserved => reserveEvidence collation input response reserved w
  | .enqueueEvidence run outcome =>
    if response.answers then (w, .await (.markEvidenceEnqueued run response.queueJobId outcome))
    else (w, .threw)
  | .markEvidenceEnqueued run queueJobId outcome =>
    match w.evidence.store.markEnqueued run queueJobId with
    | (.error _, _) => (w, .threw)
    | (.ok _, store) =>
      ({ w with evidence := { w.evidence with store := store } }, .returned outcome)
  | .promote outcome => (w, if response.answers then .returned outcome else .threw)

def goOn (replay : ℕ) : World × Next → World
  | (w, .await next) => { w with replays := Function.update w.replays replay (some next) }
  | (w, .returned outcome) =>
    { w with
      replays := Function.update w.replays replay none
      results := w.results ++ [(replay, some outcome)] }
  | (w, .threw) =>
    { w with
      replays := Function.update w.replays replay none
      results := w.results ++ [(replay, none)] }

end Replay

/-! What the workers, the visitors and the operators do to the evidence. -/

inductive EvidenceOperation
  | reserve (input : EvidenceReservations.ReserveInput) (id : ℕ)
  | insertRun (id : ℕ) (key : CharacterKey) (mode : EvidenceRunMode) (phasePlan : List String)
  | markEnqueued (id : ℕ) (queueJobId : String)
  | claim (id attempt : ℕ)
  | recordLimitation (id : ℕ) (code : String)
  | publish (id : ℕ) (input : EvidencePublication) (publishedFrom : PublishedFrom)
  | fail (id : ℕ) (code : String)
  | releaseAbandoned (ids : List ℕ)
  | requestAliasRecollection (key : CharacterKey)

section Evidence
variable (collation : String → String → Ordering) (catalogue : Catalogue)

/-- A publication is of the version the collector has, and dated by a clock read
after the run was reserved. -/
def publishEvidence (id : ℕ) (input : EvidencePublication) (publishedFrom : PublishedFrom)
    (t : Tables) : Tables :=
  match t.store.activeRun id with
  | none => t
  | some run =>
    if dateOf run.createdAt ≤ input.completedAt then
      match t.store.publish catalogue id input publishedFrom with
      | (.error _, _) => t
      | (.ok _, store) =>
        { t with
          store := store
          evidenceVersions := Function.update t.evidenceVersions id CURRENT_EVIDENCE_VERSION }
    else t

def performEvidence (now : Instant) (t : Tables) : EvidenceOperation → Tables
  | .reserve input id => (EvidenceReservations.reserve collation t input id now).2
  | .insertRun id key mode phasePlan =>
    { t with store := (t.store.insertRun now id key mode phasePlan).2 }
  | .markEnqueued id queueJobId => { t with store := (t.store.markEnqueued id queueJobId).2 }
  | .claim id attempt => { t with store := (t.store.claim now id attempt).2 }
  | .recordLimitation id code => { t with store := (t.store.recordLimitation id code).2 }
  | .publish id input publishedFrom => publishEvidence catalogue id input publishedFrom t
  | .fail id code => { t with store := (t.store.fail now id code).2 }
  | .releaseAbandoned ids => { t with store := (t.store.releaseAbandoned now ids).2 }
  | .requestAliasRecollection key =>
    { t with aliasRecollections := Function.update t.aliasRecollections key (some now) }

end Evidence

inductive Action
  | tick (passed : ℕ)
  | start (replay : ℕ)
  | advance (replay : ℕ) (response : Response)
  | crash (replay : ℕ)
  | discovery (operation : DiscoveryReservations.Operation)
  | evidence (operation : EvidenceOperation)

section Step
variable (collation : String → String → Ordering) (catalogue : Catalogue)
  (input : CollectionInput)

/-- A replay starts once the intent has been observed. -/
def step (w : World) : Action → World
  | .tick passed => { w with clock := w.clock + passed }
  | .start replay =>
    if input.observedAt ≤ w.clock ∧ w.replays replay = none then
      { w with replays := Function.update w.replays replay (some .isActive) }
    else w
  | .advance replay response =>
    match w.replays replay with
    | none => w
    | some await => goOn replay (advance collation input response w await)
  | .crash replay => { w with replays := Function.update w.replays replay none }
  | .discovery operation =>
    { w with discovery := DiscoveryReservations.perform w.clock w.discovery operation }
  | .evidence operation =>
    { w with evidence := performEvidence collation catalogue w.clock w.evidence operation }

end Step

end SlashWho.ApplicantCollections
