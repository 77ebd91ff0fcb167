import SlashWho.FingerprintChanges

/-!
Deliveries of fingerprint work. A delivery is accepted when its job's claim on
an admission commits, or when the admission it asked for itself is bound to it;
either way it gets a token, and each of its write transactions checks that
token under the fingerprint lock before it writes anything. The locks are held
until the transaction commits, so a transaction is one step.
-/

namespace SlashWho.FingerprintDelivery

open Characters FingerprintSweeps

structure Fence where
  admissionId : ℕ
  runId : ℕ
  token : ℕ
  deriving DecidableEq

variable (t : SweepTables)

/-- No row of the run was queued after this one. -/
def isNewest (a : Admission) : Bool :=
  !t.admissions.any (fun n => n.discoveryRunId = a.discoveryRunId && n.queueOrder > a.queueOrder)

def ownsExecution (fence : Fence) (a : Admission) : Bool :=
  a.id = fence.admissionId && a.discoveryRunId = fence.runId &&
    a.executionToken = some fence.token && a.consumedAt.isNone &&
    (a.dispatchKind = some .ordinary || ownsCursor t a.key a.discoveryRunId) && isNewest t a

def lockAndCheck (fence : Fence) : Bool :=
  t.admissions.countP (ownsExecution t fence) = 1

structure Delivery where
  runId : ℕ
  jobId : ℕ
  attempt : ℕ
  maxAttempts : ℕ
  baseline : ℕ
  fence : Option Fence

/-- What a write transaction of a delivery checks first. An original delivery
has no fence until an admission is bound to it. -/
def check (d : Delivery) : Bool :=
  match d.fence with
  | some fence => lockAndCheck t fence
  | none => ((t.findRun d.runId).map DiscoveryRun.attempt).getD 0 ≤ d.attempt

def bindable (d : Delivery) (a : Admission) : Bool :=
  a.discoveryRunId = d.runId && a.status = .admitted && a.consumedAt.isNone &&
    a.executionJobId.isNone && a.dispatchedAt.isNone && isNewest t a

def Admission.bind (d : Delivery) (token at_ : ℕ) (a : Admission) : Admission :=
  { a with
    attemptBase := some d.baseline
    executionJobId := some d.jobId
    executionAttempt := d.attempt
    executionMaxAttempts := some d.maxAttempts
    executionToken := some token
    dispatchedAt := some at_ }

/-- An admission granted at once stays with the job already executing. -/
def bindAdmission (d : Delivery) (token at_ : ℕ) : SweepTables × Option Fence :=
  (t.updateAdmissions (bindable t d) (Admission.bind d token at_),
    (t.admissions.find? (bindable t d)).map (fun a => ⟨a.id, d.runId, token⟩))

/-- The delivery's admission is over: its run failed, an ordinary run is
complete, or its chain was given up. -/
def isOver (fence : Fence) (a : Admission) : Bool :=
  a.id = fence.admissionId && a.executionToken = some fence.token && a.consumedAt.isNone &&
    match t.findRun a.discoveryRunId with
    | none => false
    | some run => run.status = .failed ||
        (run.status = .complete && a.dispatchKind = some .ordinary) ||
        (a.dispatchKind = some .continuation &&
          match t.findState a.key with
          | none => false
          | some state => state.continuationFailures ≥ 5)

/-- What a delivery's transaction does last, before it commits. -/
def consumeFinished (fence : Option Fence) (at_ : ℕ) : SweepTables :=
  match fence with
  | none => t
  | some fence =>
    let consumed := t.updateAdmissions (isOver t fence)
      (fun a => { a with consumedAt := some at_ })
    consumed.updateReservations
      (fun r => r.unreleased && consumed.admissions.any (fun a => a.id = r.admissionId &&
        a.id = fence.admissionId && a.executionToken = some fence.token && a.consumedAt.isSome))
      (Reservation.release at_)

structure ExecuteInput where
  runId : ℕ
  admissionId : ℕ
  jobId : ℕ
  attempt : ℕ
  maxAttempts : ℕ

def executable (input : ExecuteInput) (a : Admission) : Bool :=
  a.id = input.admissionId && a.discoveryRunId = input.runId && a.consumedAt.isNone &&
    a.attemptBase.isSome && a.status ≠ .waiting &&
    (a.executionJobId.isNone || a.executionJobId = some input.jobId) &&
    a.executionAttempt < input.attempt && input.attempt ≤ input.maxAttempts &&
    a.executionMaxAttempts = some input.maxAttempts && isNewest t a

def Admission.execute (input : ExecuteInput) (token at_ : ℕ) (a : Admission) : Admission :=
  { a with
    executionJobId := some input.jobId
    executionAttempt := input.attempt
    executionToken := some token
    dispatchedAt := a.dispatchedAt.or (some at_) }

/-- The claim an ordinary delivery makes on its run. -/
def claimable (runId attempt : ℕ) (run : DiscoveryRun) : Bool :=
  run.id = runId && run.active && run.attempt < attempt

/-- The transaction that accepts a delivery. It accepts nothing when the row is
not there to execute, when an ordinary run cannot be claimed, or when a
continuation's run no longer owns the cursor. -/
def accept (input : ExecuteInput) (token at_ : ℕ) : Option (SweepTables × ℕ) :=
  match t.findRun input.runId, t.admissions.find? (executable t input) with
  | some run, some a =>
    let accepted := t.updateAdmissions (executable t input) (Admission.execute input token at_)
    let base := a.attemptBase.getD 0
    if a.dispatchKind = some .ordinary then
      if t.runs.any (claimable input.runId (base + input.attempt)) then
        some (accepted.updateRuns (claimable input.runId (base + input.attempt))
          (fun run => { run with status := .running, attempt := base + input.attempt }), base)
      else none
    else if ownsCursor t run.rootKey input.runId then some (accepted, base)
    else none
  | _, _ => none

def markDispatched (admissionId at_ : ℕ) : SweepTables :=
  t.updateAdmissions
    (fun a => a.id = admissionId && a.consumedAt.isNone && a.dispatchedAt.isNone)
    (fun a => { a with dispatchedAt := some at_ })

/-- A row whose job ended without finishing it. -/
def isAbandoned (jobLive : ℕ → Bool) (admissionId : ℕ) (a : Admission) : Bool :=
  a.id = admissionId && a.consumedAt.isNone && isNewest t a &&
    match a.executionJobId with
    | none => true
    | some job => !jobLive job

/-- Two minutes, doubled for each failure, an hour at most. -/
def retryDelay (failures : ℕ) : ℕ := min hour (2 * 60000 * 2 ^ (failures - 1))

/-- A dead delivery's row is retired with its reservation. An ordinary run
fails; a continuation's chain is queued again until it has failed too often. -/
def recoverTerminal (jobLive : ℕ → Bool) (admissionId runId : ℕ) (key : CharacterKey) (at_ : ℕ)
    (newAdmission : ℕ → ℕ) : Except SweepError SweepTables :=
  match t.admissions.find? (isAbandoned t jobLive admissionId) with
  | none => .ok t
  | some a =>
    let retired := (t.updateAdmissions (isAbandoned t jobLive admissionId)
        (fun a => { a with consumedAt := some at_, status := .released })).updateReservations
      (fun r => r.admissionId = admissionId)
      (fun r => { r with releasedAt := r.releasedAt.or (some at_) })
    if a.dispatchKind = some .ordinary then
      .ok (retired.updateRuns (fun run => run.id = runId && run.active)
        (fun run => { run with status := .failed }))
    else
      let owned := fun state : SweepState =>
        state.key = key && t.resumeRun state = some runId
      let counted := { retired with
        states := retired.states.map (fun state =>
          if owned state then { state with continuationFailures := state.continuationFailures + 1 }
          else state) }
      let failures := ((t.states.find? owned).map
        (fun state => state.continuationFailures + 1)).getD 5
      if failures ≥ 5 then .ok counted
      else requeueContinuations counted ⟨at_, at_ + retryDelay failures, some runId, some 5, 1⟩
        newAdmission

variable {allowed : ℕ → Prop} {at_ : ℕ}

theorem consumeFinished_changes (t : SweepTables) (fence : Option Fence) :
    Changes allowed at_ t (consumeFinished t fence at_) [] := by
  unfold consumeFinished
  cases fence with
  | none => exact .refl t
  | some fence =>
    refine (rows_changes t _ _ fun a => ?_).then (release_rows_changes _ _ _ fun r => ?_)
    · exact ⟨rfl, rfl, rfl, rfl, rfl, rfl, rfl, fun _ => rfl, .inl rfl⟩
    · exact ⟨rfl, rfl, rfl, rfl⟩

end SlashWho.FingerprintDelivery
