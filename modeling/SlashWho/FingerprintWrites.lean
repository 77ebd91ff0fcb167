import SlashWho.FingerprintFence

/-!
Everything that writes the admissions of sweeps, and what it comes to row by row. Each
transaction is a sequence of a few kinds of write, so an invariant that each kind keeps holds
in every state the admissions can be in.
-/

namespace SlashWho.FingerprintWrites

open Characters FingerprintSweeps FingerprintDelivery FingerprintFence Fallible

/-! ### The upgrade of rows without a delivery -/

/-- A row of the run from before deliveries were identified. -/
def isLegacy (runId : ℕ) (a : Admission) : Bool :=
  a.discoveryRunId = runId && a.attemptBase.isNone && a.consumedAt.isNone

def Admission.consume (at_ : ℕ) (a : Admission) : Admission := { a with consumedAt := some at_ }

/-- The row is settled, or another of the run is queued behind it. -/
def isRetired (t : SweepTables) (runId : ℕ) (a : Admission) : Bool :=
  isLegacy runId a &&
    (!(a.status = .waiting || a.status = .admitted || a.status = .notDue) || !isNewest t a)

def isActionable (t : SweepTables) (run : DiscoveryRun) (a : Admission) : Bool :=
  isLegacy run.id a && (run.active || (run.status = .complete &&
    ownsCursor t run.rootKey run.id && (a.status = .waiting || a.status = .admitted)))

def Admission.identify (baseline : ℕ) (kind : DispatchKind) (a : Admission) : Admission :=
  { a with
    attemptBase := some baseline
    dispatchKind := some kind
    executionMaxAttempts := some 5
    dispatchedAt := none }

/-- The upgrade's transaction for one run; the baseline is what its old job had tried. -/
def recoverLegacy (t : SweepTables) (runId baseline at_ : ℕ) : SweepTables :=
  let retired := t.updateAdmissions (isRetired t runId) (Admission.consume at_)
  match t.findRun runId with
  | none => retired.updateAdmissions (isLegacy runId) (Admission.consume at_)
  | some run =>
    match (retired.admissions.filter (isActionable retired run)).argmax Admission.queueOrder with
    | none => retired.updateAdmissions (isLegacy runId) (Admission.consume at_)
    | some row =>
      let kind : DispatchKind := if run.status = .complete then .continuation else .ordinary
      let identified := retired.updateAdmissions
        (fun a => a.id = row.id && a.attemptBase.isNone) (Admission.identify baseline kind)
      if kind = .ordinary then
        identified.updateRuns (fun run => run.id = runId && run.status = .running)
          (fun run => { run with status := .queued })
      else identified

/-- `markDispatched` of the sweeps, by run. -/
def markRunDispatched (t : SweepTables) (runId at_ : ℕ) : SweepTables :=
  t.updateAdmissions
    (fun a => a.discoveryRunId = runId && a.status = .admitted && a.dispatchedAt.isNone)
    (fun a => { a with dispatchedAt := some at_ })

/-! ### The states the admissions can be in -/

/-- One transaction on the admissions. A cycle continues with the caps its own request was
checked with. Runs, snapshots and sweep states are written by other code as well. -/
inductive Step : SweepTables → SweepTables → Prop
  | requestAdmission (t t' : SweepTables) (input : AdmissionInput)
      (newAdmission newReservation : ℕ) (outcome : FingerprintAdmission)
      (h : FingerprintSweeps.requestAdmission t input newAdmission newReservation =
        .ok (t', outcome)) : Step t t'
  | admitWaiting (t t' : SweepTables) (runId at_ newReservation : ℕ) (outcome : QueuedAdmission)
      (h : FingerprintSweeps.admitWaiting t runId at_ newReservation = .ok (t', outcome)) :
      Step t t'
  | recordRequest (t t' : SweepTables) (reservationId count at_ : ℕ)
      (h : FingerprintSweeps.recordRequest t reservationId count at_ = .ok t') : Step t t'
  | release (t t' : SweepTables) (reservationId at_ : ℕ)
      (h : FingerprintSweeps.release t reservationId at_ = .ok t') : Step t t'
  | finish (t t' : SweepTables) (reservationId : ℕ) (input : FinishInput) (newAdmission : ℕ)
      (hcaps : ∀ c, input.continuationAdmission = some c → c.requestCap ≤ c.hourlyBudget)
      (h : finishFingerprintSweep t reservationId input newAdmission = .ok t') : Step t t'
  | cleanupExpired (t : SweepTables) (at_ : ℕ) : Step t (FingerprintSweeps.cleanupExpired t at_)
  | requeueContinuation (t t' : SweepTables) (runId at_ notBefore : ℕ) (newAdmission : ℕ → ℕ)
      (h : FingerprintSweeps.requeueContinuation t runId at_ notBefore newAdmission = .ok t') :
      Step t t'
  | requeueStranded (t t' : SweepTables) (at_ maxFailures limit : ℕ) (newAdmission : ℕ → ℕ)
      (h : requeueStrandedContinuations t at_ maxFailures limit newAdmission = .ok t') : Step t t'
  | recoverTerminal (t t' : SweepTables) (jobLive : ℕ → Bool) (admissionId runId : ℕ)
      (key : CharacterKey) (at_ : ℕ) (newAdmission : ℕ → ℕ)
      (h : FingerprintDelivery.recoverTerminal t jobLive admissionId runId key at_ newAdmission =
        .ok t') : Step t t'
  | bindAdmission (t : SweepTables) (d : Delivery) (token at_ : ℕ) :
      Step t (FingerprintDelivery.bindAdmission t d token at_).1
  | execute (t t' : SweepTables) (input : ExecuteInput) (token at_ base : ℕ)
      (h : accept t input token at_ = some (t', base)) : Step t t'
  | consumeFinished (t : SweepTables) (fence : Option Fence) (at_ : ℕ) :
      Step t (FingerprintDelivery.consumeFinished t fence at_)
  | markDispatched (t : SweepTables) (admissionId at_ : ℕ) :
      Step t (FingerprintDelivery.markDispatched t admissionId at_)
  | markRunDispatched (t : SweepTables) (runId at_ : ℕ) :
      Step t (FingerprintWrites.markRunDispatched t runId at_)
  | recoverLegacy (t : SweepTables) (runId baseline at_ : ℕ) :
      Step t (FingerprintWrites.recoverLegacy t runId baseline at_)
  | elsewhere (t : SweepTables) (runs : List DiscoveryRun) (snapshots : List Snapshot)
      (states : List SweepState) :
      Step t { t with runs := runs, snapshots := snapshots, states := states }

inductive Reachable (Start : SweepTables → Prop) : SweepTables → Prop
  | start {t : SweepTables} (h : Start t) : Reachable Start t
  | step {t t' : SweepTables} (h : Reachable Start t) (hstep : Step t t') : Reachable Start t'

/-! ### Writes -/

/-- A row no job has claimed had no attempt, and once identified has all five to make. -/
def Identified (a : Admission) : Prop :=
  a.executionJobId = none → a.executionAttempt = 0 ∧
    (a.attemptBase.isSome = true → a.executionMaxAttempts = some 5 ∧ a.dispatchKind.isSome = true)

/-- A rewritten row keeps its place in the queue, never waits again, and keeps what its caps
and its delivery columns promise. -/
structure Rewrites (a a' : Admission) : Prop where
  id : a'.id = a.id
  queueOrder : a'.queueOrder = a.queueOrder
  status : a.status ≠ .waiting → a'.status ≠ .waiting
  caps : a.requestCap ≤ a.hourlyBudget → a'.requestCap ≤ a'.hourlyBudget
  delivery : Identified a → Identified a'

inductive Write : SweepTables → SweepTables → Prop
  | rows {t : SweepTables} (p : Admission → Bool) (f : Admission → Admission)
      (h : ∀ a, Rewrites a (f a)) : Write t (t.updateAdmissions p f)
  | insert {t t' : SweepTables} {id runId : ℕ} {key : CharacterKey}
      {requestCap hourlyBudget cadenceCutoff requestedAt : ℕ} {kind : DispatchKind}
      (h : insertAdmission t id runId key requestCap hourlyBudget cadenceCutoff requestedAt
        kind = .ok t')
      (hcaps : (∀ a ∈ t.admissions, a.requestCap ≤ a.hourlyBudget) →
        requestCap ≤ hourlyBudget) : Write t t'
  | grant {t reserved : SweepTables} {row : Reservation} {candidate : Admission}
      (h : insertReservation t row = .ok reserved) (hin : candidate ∈ t.admissions)
      (hid : candidate.id = row.admissionId) :
      Write t (reserved.updateAdmissions (fun a => a.id = row.admissionId)
        (fun a => { a with status := .admitted, dispatchedAt := none }))
  | reservations {t : SweepTables} (p : Reservation → Bool) (f : Reservation → Reservation)
      (h : ∀ r, (f r).admissionId = r.admissionId) : Write t (t.updateReservations p f)
  | beside {t : SweepTables} (runs : List DiscoveryRun) (snapshots : List Snapshot)
      (states : List SweepState) (requestEvents : List RequestEvent) :
      Write t { t with
        runs := runs, snapshots := snapshots, states := states, requestEvents := requestEvents }

/-- Several writes, one after the other. -/
abbrev Writes : SweepTables → SweepTables → Prop := Relation.ReflTransGen Write

variable {t t' : SweepTables}

theorem writes_rows (t : SweepTables) (p : Admission → Bool) (f : Admission → Admission)
    (h : ∀ a, Rewrites a (f a)) : Writes t (t.updateAdmissions p f) := .single (.rows p f h)

theorem writes_runs (t : SweepTables) (runs : List DiscoveryRun) :
    Writes t { t with runs := runs } :=
  .single (.beside runs t.snapshots t.states t.requestEvents)

theorem writes_states (t : SweepTables) (states : List SweepState) :
    Writes t { t with states := states } :=
  .single (.beside t.runs t.snapshots states t.requestEvents)

variable {admissionId at_ newReservation : ℕ}

theorem writes_admitRun {bypass : Option ℕ} {outcome : FingerprintAdmission}
    (h : admitFingerprintWaitingRun t admissionId at_ bypass newReservation = .ok (t', outcome)) :
    Writes t t' := by
  unfold admitFingerprintWaitingRun at h
  cases hhead : queueHead t at_ bypass with
  | none =>
    rw [hhead] at h
    obtain ⟨rfl, -⟩ := Prod.mk.inj (Except.ok.inj h)
    exact .refl
  | some candidate =>
    rw [hhead] at h
    simp only at h
    split at h
    · obtain ⟨rfl, -⟩ := Prod.mk.inj (Except.ok.inj h)
      exact .refl
    · next hsame =>
      split at h
      · obtain ⟨rfl, -⟩ := Prod.mk.inj (Except.ok.inj h)
        exact .refl
      · obtain ⟨reserved, hreserved, hdone⟩ := ok_of_bind_ok h
        obtain ⟨rfl, -⟩ := Prod.mk.inj (Except.ok.inj hdone)
        have hin : candidate ∈ t.admissions :=
          (List.mem_filter.mp (List.argmin_mem hhead)).1
        exact .single (.grant hreserved hin (not_not.mp hsame))

variable {input : AdmissionInput}

theorem writes_queueRequest {newAdmission : ℕ} (hcaps : input.requestCap ≤ input.hourlyBudget)
    (h : queueRequest t input newAdmission = .ok (t', admissionId)) : Writes t t' := by
  unfold queueRequest at h
  split at h
  · obtain ⟨rfl, -⟩ := Prod.mk.inj (Except.ok.inj h)
    exact writes_rows t _ _ (fun a => ⟨rfl, rfl, id, fun _ => hcaps, id⟩)
  · obtain ⟨inserted, hinserted, hdone⟩ := ok_of_bind_ok h
    obtain ⟨rfl, -⟩ := Prod.mk.inj (Except.ok.inj hdone)
    have hinsert : Writes t inserted := .single (.insert hinserted (fun _ => hcaps))
    exact hinsert.trans (writes_rows inserted _ _ (fun a => ⟨rfl, rfl, id, id, id⟩))

theorem caps_of_assert {u : Unit} (h : assertFingerprintAdmissionInput input = .ok u) :
    input.requestCap ≤ input.hourlyBudget := by
  unfold assertFingerprintAdmissionInput at h
  split at h
  · cases h
  · split at h
    · cases h
    · split at h
      · cases h
      · omega

theorem writes_requestAdmission {newAdmission : ℕ} {outcome : FingerprintAdmission}
    (h : FingerprintSweeps.requestAdmission t input newAdmission newReservation =
      .ok (t', outcome)) : Writes t t' := by
  unfold FingerprintSweeps.requestAdmission at h
  obtain ⟨checked, hchecked, h⟩ := ok_of_bind_ok h
  have hcaps := caps_of_assert hchecked
  split at h
  · obtain ⟨rfl, -⟩ := Prod.mk.inj (Except.ok.inj h)
    exact .refl
  · split at h
    · obtain ⟨rfl, -⟩ := Prod.mk.inj (Except.ok.inj h)
      exact writes_rows t _ _ (fun a => ⟨rfl, rfl, fun _ => nofun, id, id⟩)
    · obtain ⟨⟨queued, admissionId⟩, hqueued, h⟩ := ok_of_bind_ok h
      obtain ⟨⟨result, decided⟩, hadmit, h⟩ := ok_of_bind_ok h
      have hresult : Writes t result :=
        (writes_queueRequest hcaps hqueued).trans (writes_admitRun hadmit)
      cases decided with
      | waiting retryAt blockedSince =>
        simp only at h
        split at h
        · obtain ⟨rfl, -⟩ := Prod.mk.inj (Except.ok.inj h)
          exact hresult
        · obtain ⟨deferred, hdeferred, hdone⟩ := ok_of_bind_ok h
          obtain ⟨rfl, -⟩ := Prod.mk.inj (Except.ok.inj hdone)
          unfold deferWaitingRun at hdeferred
          split at hdeferred
          · obtain rfl := Except.ok.inj hdeferred
            exact hresult.trans (writes_runs result _)
          · cases hdeferred
      | admitted | notDue =>
        obtain ⟨rfl, -⟩ := Prod.mk.inj (Except.ok.inj h)
        exact hresult

theorem writes_admitWaiting {runId : ℕ} {outcome : QueuedAdmission}
    (h : FingerprintSweeps.admitWaiting t runId at_ newReservation = .ok (t', outcome)) :
    Writes t t' := by
  unfold FingerprintSweeps.admitWaiting at h
  split at h
  · obtain ⟨rfl, -⟩ := Prod.mk.inj (Except.ok.inj h)
    exact .refl
  · simp only at h
    split at h
    · obtain ⟨rfl, -⟩ := Prod.mk.inj (Except.ok.inj h)
      exact writes_rows t _ _ (fun a => ⟨rfl, rfl, fun _ => nofun, id, id⟩)
    · obtain ⟨⟨result, decided⟩, hresult, hdone⟩ := ok_of_bind_ok h
      obtain ⟨rfl, -⟩ := Prod.mk.inj (Except.ok.inj hdone)
      exact writes_admitRun hresult

theorem writes_release {reservationId : ℕ}
    (h : FingerprintSweeps.release t reservationId at_ = .ok t') : Writes t t' := by
  unfold FingerprintSweeps.release at h
  split at h
  · cases h
  · obtain rfl := Except.ok.inj h
    have hreservations := Write.reservations (t := t) (Reservation.isHeld reservationId)
      (Reservation.release at_) (fun _ => rfl)
    exact (Relation.ReflTransGen.single hreservations).trans
      (writes_rows _ _ _ (fun a => ⟨rfl, rfl, fun _ => nofun, id, id⟩))

variable {newAdmission : ℕ → ℕ}

/-- Requeued chains take their caps from a row that is there already. -/
theorem writes_requeueChains {input : RequeueInput} (chains : List ((SweepState × Admission) × ℕ))
    {queued : SweepTables} (hrows : ∀ chain ∈ chains, chain.1.2 ∈ t.admissions)
    (h : chains.foldlM (requeueChain input newAdmission) t = .ok queued) : Writes t queued := by
  induction chains generalizing t with
  | nil =>
    obtain rfl := Except.ok.inj h
    exact .refl
  | cons chain rest ih =>
    rw [List.foldlM_cons] at h
    obtain ⟨inserted, hinserted, hrest⟩ := ok_of_bind_ok h
    have hinsert : Writes t inserted := .single (.insert hinserted
      (fun hcaps => hcaps chain.1.2 (hrows chain List.mem_cons_self)))
    refine hinsert.trans (ih ?_ hrest)
    intro later hlater
    obtain ⟨row, -, hqueued⟩ := insertAdmission_ok hinserted
    rw [hqueued]
    exact List.mem_append_left _ (hrows later (List.mem_cons_of_mem _ hlater))

theorem writes_requeueContinuations {input : RequeueInput}
    (h : requeueContinuations t input newAdmission = .ok t') : Writes t t' := by
  unfold requeueContinuations at h
  obtain ⟨queued, hqueued, hdone⟩ := ok_of_bind_ok h
  obtain rfl := Except.ok.inj hdone
  have hchains : Writes t queued := by
    refine writes_requeueChains _ ?_ hqueued
    intro chain hchain
    exact mem_admissions_of_strandedChains (List.fst_mem_of_mem_zipIdx hchain)
  exact hchains.trans (writes_rows queued _ _ (fun a => ⟨rfl, rfl, id, id, id⟩))

theorem writes_finish {reservationId newAdmission : ℕ} {input : FinishInput}
    (hcaps : ∀ c, input.continuationAdmission = some c → c.requestCap ≤ c.hourlyBudget)
    (h : finishFingerprintSweep t reservationId input newAdmission = .ok t') : Writes t t' := by
  unfold finishFingerprintSweep at h
  split at h
  · cases h
  · next row _ =>
    split at h
    · cases h
    · next admission _ =>
      have hsettled : Writes t ((t.updateReservations (Reservation.isHeld reservationId)
          (Reservation.finish input)).updateAdmissions
          (fun a => a.id = row.admissionId) (Admission.finish input)) := by
        have hreservations := Write.reservations (t := t) (Reservation.isHeld reservationId)
          (Reservation.finish input) (fun _ => rfl)
        exact (Relation.ReflTransGen.single hreservations).trans
          (writes_rows _ _ _ (fun a => ⟨rfl, rfl, fun _ => nofun, id, id⟩))
      simp only at h
      split at h
      · obtain rfl := Except.ok.inj h
        exact hsettled
      · have hstate : ∀ u, Writes u (writeSweepState u admission.key input) := by
          intro u
          unfold writeSweepState SweepTables.upsertState
          split
          · split
            · exact writes_states u _
            · exact writes_states u _
          · simp only
            split
            · exact writes_states u _
            · exact writes_states u _
        have hwritten := hsettled.trans (hstate _)
        unfold queueContinuation at h
        split at h
        · next continuation _ hcontinuation =>
          split at h
          · obtain rfl := Except.ok.inj h
            exact hwritten
          · exact hwritten.trans (.single (.insert h (fun _ => hcaps _ hcontinuation)))
        · obtain rfl := Except.ok.inj h
          exact hwritten

theorem writes_recoverTerminal {jobLive : ℕ → Bool} {runId : ℕ} {key : CharacterKey}
    (h : FingerprintDelivery.recoverTerminal t jobLive admissionId runId key at_ newAdmission =
      .ok t') : Writes t t' := by
  unfold FingerprintDelivery.recoverTerminal at h
  split at h
  · obtain rfl := Except.ok.inj h
    exact .refl
  · have hrows := writes_rows t (isAbandoned t jobLive admissionId)
      (fun a => { a with consumedAt := some at_, status := .released })
      (fun a => ⟨rfl, rfl, fun _ => nofun, id, id⟩)
    have hretired := hrows.trans (.single (.reservations (fun r => r.admissionId = admissionId)
      (fun r => { r with releasedAt := r.releasedAt.or (some at_) }) (fun _ => rfl)))
    simp only at h
    split at h
    · obtain rfl := Except.ok.inj h
      exact hretired.trans (writes_runs _ _)
    · split at h
      · obtain rfl := Except.ok.inj h
        exact hretired.trans (writes_states _ _)
      · exact (hretired.trans (writes_states _ _)).trans (writes_requeueContinuations h)

theorem writes_accept {input : ExecuteInput} {token base : ℕ}
    (h : accept t input token at_ = some (t', base)) : Writes t t' := by
  have hclaimed := writes_rows t (executable t input) (Admission.execute input token at_)
    (fun a => ⟨rfl, rfl, id, id, fun _ hjob => by cases hjob⟩)
  unfold accept at h
  split at h
  · simp only at h
    split at h
    · split at h
      · obtain ⟨rfl, -⟩ := Prod.mk.inj (Option.some.inj h)
        exact hclaimed.trans (writes_runs _ _)
      · cases h
    · split at h
      · obtain ⟨rfl, -⟩ := Prod.mk.inj (Option.some.inj h)
        exact hclaimed
      · cases h
  · cases h

theorem writes_consumeFinished (t : SweepTables) (fence : Option Fence) (at_ : ℕ) :
    Writes t (FingerprintDelivery.consumeFinished t fence at_) := by
  unfold FingerprintDelivery.consumeFinished
  split
  · exact .refl
  · next fence =>
    have hrows := writes_rows t (isOver t fence) (fun a => { a with consumedAt := some at_ })
      (fun a => ⟨rfl, rfl, id, id, id⟩)
    exact hrows.trans (.single (.reservations _ _ (fun _ => rfl)))

theorem writes_recoverLegacy (t : SweepTables) (runId baseline at_ : ℕ) :
    Writes t (FingerprintWrites.recoverLegacy t runId baseline at_) := by
  have hconsume : ∀ u p, Writes u (u.updateAdmissions p (Admission.consume at_)) :=
    fun u p => writes_rows u p _ (fun a => ⟨rfl, rfl, id, id, id⟩)
  have hretired := hconsume t (isRetired t runId)
  unfold FingerprintWrites.recoverLegacy
  simp only
  split
  · exact hretired.trans (hconsume _ _)
  · next run _ =>
    split
    · exact hretired.trans (hconsume _ _)
    · next row _ =>
      have hidentified := fun kind => hretired.trans (writes_rows _
        (fun a => a.id = row.id && a.attemptBase.isNone) (Admission.identify baseline kind)
        (fun a => ⟨rfl, rfl, id, id, fun ha hjob => ⟨(ha hjob).1, fun _ => ⟨rfl, rfl⟩⟩⟩))
      by_cases hcomplete : run.status = .complete
      · simp only [if_pos hcomplete, reduceCtorEq, if_false]
        exact hidentified .continuation
      · simp only [if_neg hcomplete, if_true]
        exact (hidentified .ordinary).trans (writes_runs _ _)

theorem writes_of_step (hstep : Step t t') : Writes t t' := by
  cases hstep with
  | requestAdmission t' input newAdmission newReservation outcome hrequest =>
    exact writes_requestAdmission hrequest
  | admitWaiting t' runId at_ newReservation outcome hadmit => exact writes_admitWaiting hadmit
  | recordRequest t' reservationId count at_ hrecord =>
    obtain ⟨-, rfl⟩ := recordRequest_ok hrecord
    have hused := Write.reservations (t := t) (Reservation.accepts reservationId count at_)
      (Reservation.use count) (fun _ => rfl)
    exact (Relation.ReflTransGen.single hused).trans
      (.single (.beside t.runs t.snapshots t.states _))
  | release t' reservationId at_ hrelease => exact writes_release hrelease
  | finish t' reservationId input newAdmission hcaps hfinish => exact writes_finish hcaps hfinish
  | cleanupExpired at_ => exact .single (.beside t.runs t.snapshots t.states _)
  | requeueContinuation t' runId at_ notBefore newAdmission hrequeue =>
    unfold FingerprintSweeps.requeueContinuation at hrequeue
    have hreleased := Write.reservations (t := t) (heldByRun t runId) (Reservation.release at_)
      (fun _ => rfl)
    refine ((Relation.ReflTransGen.single hreleased).trans (writes_rows _ _ _ ?_)).trans
      (writes_requeueContinuations hrequeue)
    exact fun a => ⟨rfl, rfl, fun _ => nofun, id, id⟩
  | requeueStranded t' at_ maxFailures limit newAdmission hrequeue =>
    unfold requeueStrandedContinuations at hrequeue
    split at hrequeue
    · cases hrequeue
    · split at hrequeue
      · cases hrequeue
      · exact writes_requeueContinuations hrequeue
  | recoverTerminal t' jobLive admissionId runId key at_ newAdmission hrecover =>
    exact writes_recoverTerminal hrecover
  | bindAdmission d token at_ =>
    exact writes_rows t _ _ (fun a => ⟨rfl, rfl, id, id, fun _ hjob => by cases hjob⟩)
  | execute t' input token at_ base haccept => exact writes_accept haccept
  | consumeFinished fence at_ => exact writes_consumeFinished t fence at_
  | markDispatched admissionId at_ =>
    exact writes_rows t _ _ (fun a => ⟨rfl, rfl, id, id, id⟩)
  | markRunDispatched runId at_ =>
    exact writes_rows t _ _ (fun a => ⟨rfl, rfl, id, id, id⟩)
  | recoverLegacy runId baseline at_ => exact writes_recoverLegacy t runId baseline at_
  | elsewhere runs snapshots states => exact .single (.beside runs snapshots states t.requestEvents)

theorem inv_of_writes {Inv : SweepTables → Prop}
    (hwrite : ∀ t t', Inv t → Write t t' → Inv t') (h : Inv t) (hwrites : Writes t t') :
    Inv t' := by
  induction hwrites with
  | refl => exact h
  | tail _ hlast ih => exact hwrite _ _ ih hlast

/-- What every kind of write keeps holds in every state that can be reached. -/
theorem Reachable.keeps {Start Inv : SweepTables → Prop} (hstart : ∀ t, Start t → Inv t)
    (hwrite : ∀ t t', Inv t → Write t t' → Inv t') (h : Reachable Start t) : Inv t := by
  induction h with
  | start hbegin => exact hstart _ hbegin
  | step _ hstep ih => exact inv_of_writes hwrite ih (writes_of_step hstep)

/-! ### The queue stays in order -/

theorem queueInv_write (h : QueueInv t) (hwrite : Write t t') : QueueInv t' := by
  cases hwrite with
  | rows p f hf =>
    exact queueInv_updateAdmissions h p f (fun a => (hf a).id) (fun a => (hf a).queueOrder)
  | insert hinsert =>
    obtain ⟨row, hrow, rfl⟩ := insertAdmission_ok hinsert
    exact queueInv_append h (fun old hold => hrow.id ▸ hrow.fresh old hold) hrow.queueOrder
  | grant hreserve hin hid =>
    rw [insertReservation_ok hreserve]
    refine queueInv_updateAdmissions ?_ _ _ (fun _ => rfl) (fun _ => rfl)
    exact ⟨h.nodup_ids, h.sorted, h.bounded⟩
  | reservations | beside => exact ⟨h.nodup_ids, h.sorted, h.bounded⟩

end SlashWho.FingerprintWrites
