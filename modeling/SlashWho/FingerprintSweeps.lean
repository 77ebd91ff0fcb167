import Mathlib.Algebra.GroupWithZero.Nat
import Mathlib.Data.List.MinMax
import Mathlib.Data.Prod.Lex
import Mathlib.Order.Lattice.Nat
import SlashWho.Characters

/-!
The tables behind fingerprint sweeps and the transactions that change them, each under the
fingerprint lock. An admission queues a run for a sweep; its reservation sets requests aside from
the hourly budget; a state row keeps where the next cycle resumes. Instants are milliseconds, row
ids stand for the generated ones, and a transaction that throws leaves the tables as they were.
-/

namespace SlashWho.FingerprintSweeps

open Characters

inductive AdmissionStatus
  | waiting
  | admitted
  | notDue
  | released
  | finished
  deriving DecidableEq

inductive DispatchKind
  | ordinary
  | continuation
  deriving DecidableEq

inductive RunStatus
  | queued
  | running
  | retrying
  | complete
  | failed
  deriving DecidableEq

structure DiscoveryRun where
  id : ℕ
  rootKey : CharacterKey
  status : RunStatus
  attempt : ℕ

def DiscoveryRun.active (run : DiscoveryRun) : Bool :=
  run.status = .queued || run.status = .running || run.status = .retrying

structure Snapshot where
  id : ℕ
  discoveryRunId : ℕ

structure Admission where
  id : ℕ
  queueOrder : ℕ
  discoveryRunId : ℕ
  key : CharacterKey
  requestCap : ℕ
  hourlyBudget : ℕ
  cadenceCutoff : ℕ
  requestedAt : ℕ
  status : AdmissionStatus
  dispatchedAt : Option ℕ
  consumedAt : Option ℕ
  attemptBase : Option ℕ
  dispatchKind : Option DispatchKind
  executionJobId : Option ℕ
  executionAttempt : ℕ
  executionMaxAttempts : Option ℕ
  executionToken : Option ℕ

structure Reservation where
  id : ℕ
  admissionId : ℕ
  requestCap : ℕ
  usedCount : ℕ
  admittedAt : ℕ
  expiresAt : ℕ
  releasedAt : Option ℕ
  finishedAt : Option ℕ
  published : Bool
  limitationCode : Option String

structure RequestEvent where
  reservationId : ℕ
  requestedAt : ℕ

structure SweepState where
  key : CharacterKey
  lastPublishedAt : Option ℕ
  resumeAfter : Option String
  resumeLimitationCode : Option String
  resumeHistoricalGuilds : Option (List CharacterGuild)
  resumeExcludedTournamentCharacters : Option (List String)
  resumeSnapshotId : Option ℕ
  continuationFailures : ℕ

structure SweepTables where
  runs : List DiscoveryRun
  snapshots : List Snapshot
  states : List SweepState
  admissions : List Admission
  reservations : List Reservation
  requestEvents : List RequestEvent
  nextQueueOrder : ℕ

inductive SweepError
  | requestCapOutOfRange
  | hourlyBudgetOutOfRange
  | requestCapExceedsHourlyBudget
  | requestCountOutOfRange
  | reservationNotActive
  | waitingRunNotRunning
  | strandedLimitOutOfRange
  | strandedFailuresOutOfRange
  | uniqueViolation
  | foreignKeyViolation
  deriving DecidableEq

def SweepError.message : SweepError → String
  | .requestCapOutOfRange => "fingerprint_request_cap_out_of_range"
  | .hourlyBudgetOutOfRange => "fingerprint_hourly_budget_out_of_range"
  | .requestCapExceedsHourlyBudget => "fingerprint_request_cap_exceeds_hourly_budget"
  | .requestCountOutOfRange => "fingerprint_request_count_out_of_range"
  | .reservationNotActive => "fingerprint_reservation_not_active"
  | .waitingRunNotRunning => "fingerprint_waiting_run_not_running"
  | .strandedLimitOutOfRange => "fingerprint_stranded_limit_out_of_range"
  | .strandedFailuresOutOfRange => "fingerprint_stranded_failures_out_of_range"
  | .uniqueViolation => "unique_violation"
  | .foreignKeyViolation => "foreign_key_violation"

inductive FingerprintAdmission
  | admitted (reservationId requestCap : ℕ) (committedRequests hourlyBudget : Option ℕ)
  | waiting (retryAt : ℕ) (blockedSince : Option ℕ)
  | notDue

/-- What dispatching a queued run is told. -/
inductive QueuedAdmission
  | admitted
  | waiting (retryAt : ℕ) (blockedSince : Option ℕ)
  | notDue
  | settled

def FingerprintAdmission.queued : FingerprintAdmission → QueuedAdmission
  | .admitted .. => .admitted
  | .waiting retryAt blockedSince => .waiting retryAt blockedSince
  | .notDue => .notDue

def hour : ℕ := 3600000

namespace SweepTables

variable (t : SweepTables)

def findRun (id : ℕ) : Option DiscoveryRun :=
  t.runs.find? (fun run => run.id = id)

def findState (key : CharacterKey) : Option SweepState :=
  t.states.find? (fun state => state.key = key)

/-- The run whose snapshot a state row's cursor extends. -/
def resumeRun (state : SweepState) : Option ℕ :=
  state.resumeSnapshotId.bind (fun id =>
    (t.snapshots.find? (fun snapshot => snapshot.id = id)).map Snapshot.discoveryRunId)

def updateRuns (p : DiscoveryRun → Bool) (f : DiscoveryRun → DiscoveryRun) : SweepTables :=
  { t with runs := t.runs.map (fun run => if p run then f run else run) }

def updateAdmissions (p : Admission → Bool) (f : Admission → Admission) :
    SweepTables :=
  { t with admissions := t.admissions.map (fun a => if p a then f a else a) }

def updateReservations (p : Reservation → Bool) (f : Reservation → Reservation) : SweepTables :=
  { t with reservations := t.reservations.map (fun r => if p r then f r else r) }

/-- A state row is inserted, or the one its character has is updated. -/
def upsertState (row : SweepState) (f : SweepState → SweepState) : SweepTables :=
  if t.states.any (fun state => state.key = row.key) then
    { t with states := t.states.map (fun state => if state.key = row.key then f state else state) }
  else { t with states := t.states ++ [row] }

end SweepTables

def Reservation.unreleased (r : Reservation) : Bool := r.releasedAt.isNone

def Reservation.live (at_ : ℕ) (r : Reservation) : Bool := r.unreleased && at_ < r.expiresAt

def Reservation.release (at_ : ℕ) (r : Reservation) : Reservation := { r with releasedAt := some at_ }

variable (t : SweepTables)

/-- Requests recorded in the hour that ends now, and requests reserved. -/
def commitment (at_ : ℕ) : ℕ :=
  t.requestEvents.countP (fun e => at_ < e.requestedAt + hour) +
    ((t.reservations.filter (Reservation.live at_)).map (fun r => r.requestCap - r.usedCount)).sum

def fingerprintRetryAt (at_ : ℕ) : ℕ :=
  let retained := (t.reservations.filter (Reservation.live at_)).map Reservation.expiresAt ++
    (t.requestEvents.map (fun e => e.requestedAt + hour)).filter (fun retryAt => at_ < retryAt)
  retained.min?.getD at_

def Admission.isWaiting (a : Admission) : Bool := a.status = .waiting && a.consumedAt.isNone

/-- Waiting rows are taken in the order they were requested. -/
def queuePosition (a : Admission) : ℕ ×ₗ ℕ := toLex (a.requestedAt, a.queueOrder)

def cadencePasses (bypassCadenceFor : Option ℕ) (a : Admission) : Bool :=
  match (t.findState a.key).bind SweepState.lastPublishedAt with
  | none => true
  | some last => last ≤ a.cadenceCutoff || bypassCadenceFor = some a.id

def queueHead (at_ : ℕ) (bypassCadenceFor : Option ℕ) : Option Admission :=
  (t.admissions.filter (fun a =>
    a.isWaiting && a.requestedAt ≤ at_ && cadencePasses t bypassCadenceFor a)).argmin queuePosition

/-- An admission holds one reservation at most, by the unique index. -/
def insertReservation (row : Reservation) : Except SweepError SweepTables :=
  if t.reservations.any (fun r => r.id = row.id || r.admissionId = row.admissionId) then
    .error .uniqueViolation
  else .ok { t with reservations := t.reservations ++ [row] }

/-- A retried continuation joins the queue at its own time; any other row
retries when the budget next frees. -/
def waitForTurn (admissionId at_ : ℕ) : FingerprintAdmission :=
  match (t.admissions.find? (fun a => a.id = admissionId)).map Admission.requestedAt with
  | none => .waiting (fingerprintRetryAt t at_) none
  | some requestedAt =>
    if requestedAt > at_ then .waiting requestedAt (some requestedAt)
    else .waiting (fingerprintRetryAt t at_) (some requestedAt)

def admitFingerprintWaitingRun (admissionId at_ : ℕ) (bypassCadenceFor : Option ℕ)
    (newReservation : ℕ) :
    Except SweepError (SweepTables × FingerprintAdmission) :=
  match queueHead t at_ bypassCadenceFor with
  | none => .ok (t, waitForTurn t admissionId at_)
  | some candidate =>
    if candidate.id ≠ admissionId then .ok (t, waitForTurn t admissionId at_)
    else if commitment t at_ + candidate.requestCap > candidate.hourlyBudget then
      .ok (t, .waiting (fingerprintRetryAt t at_) (some candidate.requestedAt))
    else do
      let reserved ← insertReservation t
        { id := newReservation
          admissionId := admissionId
          requestCap := candidate.requestCap
          usedCount := 0
          admittedAt := at_
          expiresAt := at_ + hour
          releasedAt := none
          finishedAt := none
          published := false
          limitationCode := none }
      .ok (reserved.updateAdmissions (fun a => a.id = admissionId)
          (fun a => { a with status := .admitted, dispatchedAt := none }),
        .admitted newReservation candidate.requestCap
          (some (commitment t at_ + candidate.requestCap)) (some candidate.hourlyBudget))

/-- A new waiting row, at the end of the queue. -/
def insertAdmission (id runId : ℕ) (key : CharacterKey)
    (requestCap hourlyBudget cadenceCutoff requestedAt : ℕ) (kind : DispatchKind) :
    Except SweepError SweepTables :=
  if t.admissions.any (fun a => a.id = id) then .error .uniqueViolation
  else
    match t.findRun runId with
    | none => .error .foreignKeyViolation
    | some run => .ok { t with
        admissions := t.admissions ++ [
          { id := id
            queueOrder := t.nextQueueOrder
            discoveryRunId := runId
            key := key
            requestCap := requestCap
            hourlyBudget := hourlyBudget
            cadenceCutoff := cadenceCutoff
            requestedAt := requestedAt
            status := .waiting
            dispatchedAt := none
            consumedAt := none
            attemptBase := some run.attempt
            dispatchKind := some kind
            executionJobId := none
            executionAttempt := 0
            executionMaxAttempts := some 5
            executionToken := none }]
        nextQueueOrder := t.nextQueueOrder + 1 }

structure AdmissionInput where
  runId : ℕ
  key : CharacterKey
  requestCap : ℕ
  hourlyBudget : ℕ
  cadenceCutoff : ℕ
  at_ : ℕ
  continuation : Bool

def assertFingerprintAdmissionInput (input : AdmissionInput) : Except SweepError Unit :=
  if input.requestCap < 1 then .error .requestCapOutOfRange
  else if input.hourlyBudget < 1 then .error .hourlyBudgetOutOfRange
  else if input.requestCap > input.hourlyBudget then .error .requestCapExceedsHourlyBudget
  else .ok ()

/-- The run's unreleased reservation under an admitted row, newest request first. -/
def existingAdmission (runId : ℕ) : Option (Admission × Reservation) :=
  (t.admissions.flatMap (fun a =>
    if a.discoveryRunId = runId && a.status = .admitted then
      (t.reservations.filter (fun r => r.admissionId = a.id && r.unreleased)).map (fun r => (a, r))
    else [])).argmax (fun pair => pair.1.requestedAt)

/-- The run's first waiting row. -/
def waitingAdmission (runId : ℕ) : Option Admission :=
  (t.admissions.filter (fun a => a.discoveryRunId = runId && a.isWaiting)).argmin queuePosition

/-- The waiting row a request is queued under: the run's own, brought up to
date, or a new one that retires every other row of the run. -/
def queueRequest (input : AdmissionInput) (newAdmission : ℕ) :
    Except SweepError (SweepTables × ℕ) :=
  match waitingAdmission t input.runId with
  | some waiting =>
    .ok (t.updateAdmissions (fun a => a.id = waiting.id) (fun a =>
      { a with
        requestCap := input.requestCap
        hourlyBudget := input.hourlyBudget
        cadenceCutoff := input.cadenceCutoff }), waiting.id)
  | none => do
    let queued ← insertAdmission t newAdmission input.runId input.key input.requestCap
      input.hourlyBudget input.cadenceCutoff input.at_
      (if input.continuation then .continuation else .ordinary)
    .ok (queued.updateAdmissions
      (fun a => a.discoveryRunId = input.runId && a.id ≠ newAdmission)
      (fun a => { a with consumedAt := a.consumedAt.or (some input.at_) }), newAdmission)

/-- A run left waiting goes back to the queue, unless it is a continuation. -/
def deferWaitingRun (runId : ℕ) : Except SweepError SweepTables :=
  if t.runs.any (fun run => run.id = runId && (run.status = .running || run.status = .queued)) then
    .ok (t.updateRuns
      (fun run => run.id = runId && (run.status = .running || run.status = .queued))
      (fun run => { run with status := .queued }))
  else .error .waitingRunNotRunning

def publishedSince (key : CharacterKey) (cutoff : ℕ) : Bool :=
  match (t.findState key).bind SweepState.lastPublishedAt with
  | none => false
  | some last => last > cutoff

def requestAdmission (input : AdmissionInput) (newAdmission newReservation : ℕ) :
    Except SweepError (SweepTables × FingerprintAdmission) := do
  assertFingerprintAdmissionInput input
  match existingAdmission t input.runId with
  | some (_, reservation) =>
    .ok (t, .admitted reservation.id reservation.requestCap none none)
  | none =>
    if !input.continuation && publishedSince t input.key input.cadenceCutoff then
      .ok (t.updateAdmissions (fun a => a.discoveryRunId = input.runId && a.isWaiting)
        (fun a => { a with status := .notDue }), .notDue)
    else
      let (queued, admissionId) ← queueRequest t input newAdmission
      let (result, outcome) ← admitFingerprintWaitingRun queued admissionId input.at_
        (if input.continuation then some admissionId else none) newReservation
      match outcome with
      | .waiting _ _ =>
        if input.continuation then .ok (result, outcome)
        else do
          let deferred ← deferWaitingRun result input.runId
          .ok (deferred, outcome)
      | _ => .ok (result, outcome)

/-- What a run with no waiting row is told: its latest row while the run, or
the chain it continues, is still open. -/
def settledAdmission (runId : ℕ) : QueuedAdmission :=
  let latest := (t.admissions.filter (fun a =>
    a.discoveryRunId = runId && a.consumedAt.isNone &&
      match t.findRun runId with
      | none => false
      | some run => run.active ||
          (a.dispatchKind = some .continuation && run.status = .complete &&
            t.states.any (fun state => t.resumeRun state = some runId && state.resumeAfter.isSome))
    )).argmax queuePosition
  match latest.map Admission.status with
  | some .notDue => .notDue
  | some .admitted => .admitted
  | _ => .settled

/-- The run owns the cursor its character's next cycle resumes from. -/
def ownsCursor (key : CharacterKey) (runId : ℕ) : Bool :=
  match t.findState key with
  | none => false
  | some state => state.resumeAfter.isSome && t.resumeRun state = some runId

def admitWaiting (runId at_ newReservation : ℕ) :
    Except SweepError (SweepTables × QueuedAdmission) :=
  match waitingAdmission t runId with
  | none => .ok (t, settledAdmission t runId)
  | some admission =>
    let liveContinuation := ownsCursor t admission.key runId
    if !liveContinuation && publishedSince t admission.key admission.cadenceCutoff then
      .ok (t.updateAdmissions (fun a => a.id = admission.id)
        (fun a => { a with status := .notDue }), .notDue)
    else do
      let (result, outcome) ← admitFingerprintWaitingRun t admission.id at_
        (if liveContinuation then some admission.id else none) newReservation
      .ok (result, outcome.queued)

/-- The reservation a call names, while it is held. -/
def Reservation.isHeld (id : ℕ) (r : Reservation) : Bool := r.id = id && r.unreleased

/-- The reservation a call names, while it can still take that many requests. -/
def Reservation.accepts (id count at_ : ℕ) (r : Reservation) : Bool :=
  r.id = id && r.live at_ && r.usedCount + count ≤ r.requestCap

def Reservation.use (count : ℕ) (r : Reservation) : Reservation :=
  { r with usedCount := r.usedCount + count }

def recordRequest (reservationId count at_ : ℕ) :
    Except SweepError SweepTables :=
  if count < 1 then .error .requestCountOutOfRange
  else if t.reservations.countP (Reservation.accepts reservationId count at_) ≠ 1 then
    .error .reservationNotActive
  else
    let used := t.updateReservations (Reservation.accepts reservationId count at_)
      (Reservation.use count)
    .ok { used with
      requestEvents := used.requestEvents ++ List.replicate count ⟨reservationId, at_⟩ }

def release (reservationId at_ : ℕ) : Except SweepError SweepTables :=
  match t.reservations.find? (Reservation.isHeld reservationId) with
  | none => .error .reservationNotActive
  | some row =>
    .ok ((t.updateReservations (Reservation.isHeld reservationId)
        (Reservation.release at_)).updateAdmissions
      (fun a => a.id = row.admissionId) (fun a => { a with status := .released }))

structure SweepCursor where
  resumeAfter : Option String
  resumeLimitationCode : Option String
  historicalGuilds : List CharacterGuild
  excludedTournamentCharacterIds : List String
  resumeSnapshotId : Option ℕ
  advanced : Bool

structure ContinuationAdmission where
  requestCap : ℕ
  hourlyBudget : ℕ
  cadenceCutoff : ℕ

structure FinishInput where
  published : Bool
  at_ : ℕ
  limitationCode : Option String
  continuationAdmission : Option ContinuationAdmission
  cursor : Option SweepCursor

def Reservation.finish (input : FinishInput) (r : Reservation) : Reservation :=
  { r with
    releasedAt := some input.at_
    finishedAt := some input.at_
    published := input.published
    limitationCode := input.limitationCode }

def Admission.finish (input : FinishInput) (a : Admission) : Admission :=
  { a with
    status := .finished
    consumedAt := if input.published then some input.at_ else a.consumedAt }

/-- `greatest` ignores a null. -/
def greatest (old : Option ℕ) (new : ℕ) : Option ℕ :=
  some (max (old.getD new) new)

/-- Publishing a sweep stamps the character's state, and moves its cursor when
the caller owns one. -/
def writeSweepState (key : CharacterKey) (input : FinishInput) : SweepTables :=
  match input.cursor with
  | none =>
    t.upsertState
      { key := key
        lastPublishedAt := some input.at_
        resumeAfter := none
        resumeLimitationCode := none
        resumeHistoricalGuilds := none
        resumeExcludedTournamentCharacters := none
        resumeSnapshotId := none
        continuationFailures := 0 }
      (fun state => { state with lastPublishedAt := greatest state.lastPublishedAt input.at_ })
  | some cursor =>
    let guilds := cursor.resumeAfter.map (fun _ => cursor.historicalGuilds)
    let excluded := cursor.resumeAfter.map (fun _ => cursor.excludedTournamentCharacterIds)
    t.upsertState
      { key := key
        lastPublishedAt := some input.at_
        resumeAfter := cursor.resumeAfter
        resumeLimitationCode := cursor.resumeLimitationCode
        resumeHistoricalGuilds := guilds
        resumeExcludedTournamentCharacters := excluded
        resumeSnapshotId := cursor.resumeSnapshotId
        continuationFailures := 0 }
      (fun state => { state with
        lastPublishedAt := greatest state.lastPublishedAt input.at_
        resumeAfter := cursor.resumeAfter
        resumeLimitationCode := cursor.resumeLimitationCode
        resumeHistoricalGuilds := guilds
        resumeExcludedTournamentCharacters := excluded
        resumeSnapshotId := cursor.resumeSnapshotId
        continuationFailures := if cursor.advanced then 0 else state.continuationFailures })

/-- A cursor left behind queues the next cycle, unless the run already has one
queued or admitted. -/
def queueContinuation (runId : ℕ) (key : CharacterKey) (input : FinishInput) (newAdmission : ℕ) :
    Except SweepError SweepTables :=
  match input.cursor.bind SweepCursor.resumeAfter, input.continuationAdmission with
  | some _, some continuation =>
    if t.admissions.any (fun a =>
        a.discoveryRunId = runId && (a.status = .waiting || a.status = .admitted)) then .ok t
    else
      insertAdmission t newAdmission runId key continuation.requestCap continuation.hourlyBudget
        continuation.cadenceCutoff input.at_ .continuation
  | _, _ => .ok t

def finishFingerprintSweep (reservationId : ℕ) (input : FinishInput) (newAdmission : ℕ) :
    Except SweepError SweepTables :=
  match t.reservations.find? (Reservation.isHeld reservationId) with
  | none => .error .reservationNotActive
  | some row =>
    match t.admissions.find? (fun a => a.id = row.admissionId) with
    | none => .error .reservationNotActive
    | some admission =>
      let finished := (t.updateReservations (Reservation.isHeld reservationId)
          (Reservation.finish input)).updateAdmissions
        (fun a => a.id = row.admissionId) (Admission.finish input)
      if input.published = false then .ok finished
      else queueContinuation (writeSweepState finished admission.key input)
        admission.discoveryRunId admission.key input newAdmission

/-- The `finish` call knows nothing of the sweep's cursor. -/
def finish (reservationId : ℕ) (published : Bool) (at_ : ℕ) (limitationCode : Option String)
    (newAdmission : ℕ) : Except SweepError SweepTables :=
  finishFingerprintSweep t reservationId ⟨published, at_, limitationCode, none, none⟩ newAdmission

def cleanupExpired (at_ : ℕ) : SweepTables :=
  { t with requestEvents := t.requestEvents.filter (fun e => at_ < e.requestedAt + hour) }

/-- A run still waiting for a sweep, or holding one it may still use. -/
def hasLiveAdmission (runId at_ : ℕ) : Bool :=
  t.admissions.any (fun a => a.discoveryRunId = runId &&
    (a.isWaiting || (a.status = .admitted &&
      t.reservations.any (fun r => r.admissionId = a.id && r.live at_))))

structure RequeueInput where
  at_ : ℕ
  notBefore : ℕ
  runId : Option ℕ
  maxFailures : Option ℕ
  limit : ℕ

/-- A run's row requested last. -/
def latestAdmission (runId : ℕ) : Option Admission :=
  (t.admissions.filter (fun a => a.discoveryRunId = runId)).argmax queuePosition

def chainPosition (chain : SweepState × Admission) : WithTop ℕ ×ₗ ℕ :=
  toLex (chain.1.lastPublishedAt, chain.2.discoveryRunId)

/-- The chains with a cursor and nothing live to read it, oldest first, each
with its run's latest row. -/
def strandedChains (input : RequeueInput) : List (SweepState × Admission) :=
  let chains := t.states.filterMap (fun state =>
    ((t.resumeRun state).bind (latestAdmission t)).map (fun previous => (state, previous)))
  ((chains.filter (fun chain =>
    chain.1.resumeAfter.isSome &&
      (input.runId.isNone || input.runId = some chain.2.discoveryRunId) &&
      (match input.maxFailures with
        | none => true
        | some most => chain.1.continuationFailures < most) &&
      !hasLiveAdmission t chain.2.discoveryRunId input.at_)).insertionSort
    (fun left right => chainPosition left ≤ chainPosition right)).take input.limit

/-- The next cycle takes its caps from the run's latest row. -/
def requeueChain (input : RequeueInput) (newAdmission : ℕ → ℕ) (t : SweepTables)
    (chain : (SweepState × Admission) × ℕ) : Except SweepError SweepTables :=
  insertAdmission t (newAdmission chain.2) chain.1.2.discoveryRunId chain.1.1.key
    chain.1.2.requestCap chain.1.2.hourlyBudget input.at_ input.notBefore .continuation

/-- Each stranded chain gets a waiting row, and the run's older rows are retired. -/
def requeueContinuations (input : RequeueInput) (newAdmission : ℕ → ℕ) :
    Except SweepError SweepTables := do
  let chains := strandedChains t input
  let queued ← chains.zipIdx.foldlM (requeueChain input newAdmission) t
  .ok (queued.updateAdmissions
    (fun a => a.consumedAt.isNone &&
      (chains.map (fun chain => chain.2.discoveryRunId)).contains a.discoveryRunId &&
      queued.admissions.any (fun n =>
        n.discoveryRunId = a.discoveryRunId && n.queueOrder > a.queueOrder))
    (fun a => { a with consumedAt := some input.at_ }))

def heldByRun (runId : ℕ) (r : Reservation) : Bool :=
  r.unreleased && t.admissions.any (fun a =>
    a.id = r.admissionId && a.discoveryRunId = runId && a.status = .admitted)

/-- The cycle that ended gives back what it still holds, then queues the next. -/
def requeueContinuation (runId at_ notBefore : ℕ) (newAdmission : ℕ → ℕ) :
    Except SweepError SweepTables :=
  let left := (t.updateReservations (heldByRun t runId) (Reservation.release at_)).updateAdmissions
    (fun a => t.reservations.any (fun r => r.admissionId = a.id && heldByRun t runId r))
    (fun a => { a with status := .released })
  requeueContinuations left ⟨at_, notBefore, some runId, none, 1⟩ newAdmission

def requeueStrandedContinuations (at_ maxFailures limit : ℕ) (newAdmission : ℕ → ℕ) :
    Except SweepError SweepTables :=
  if limit < 1 ∨ limit > 1000 then .error .strandedLimitOutOfRange
  else if maxFailures < 1 then .error .strandedFailuresOutOfRange
  else requeueContinuations t ⟨at_, at_, none, some maxFailures, limit⟩ newAdmission

end SlashWho.FingerprintSweeps
