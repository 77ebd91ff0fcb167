import SlashWho.Fallible
import SlashWho.FingerprintSweeps

/-!
What the sweep transactions do to their tables, row by row. Every transaction
that commits is a sequence of a few kinds of change; an invariant that each
kind keeps is kept by all of them.
-/

namespace SlashWho.FingerprintSweeps

open List Characters Fallible

/-- An updated row stays the same row of the queue: its delivery columns are
untouched, it is not taken back once consumed, and its budget is its own or one
a caller may name. -/
structure KeepsRow (allowed : ℕ → Prop) (a a' : Admission) : Prop where
  id : a'.id = a.id
  queueOrder : a'.queueOrder = a.queueOrder
  discoveryRunId : a'.discoveryRunId = a.discoveryRunId
  key : a'.key = a.key
  executionJobId : a'.executionJobId = a.executionJobId
  executionAttempt : a'.executionAttempt = a.executionAttempt
  executionToken : a'.executionToken = a.executionToken
  consumed : a.consumedAt.isSome = true → a'.consumedAt.isSome = true
  budget : a'.hourlyBudget = a.hourlyBudget ∨ allowed a'.hourlyBudget

theorem KeepsRow.refl (allowed : ℕ → Prop) (a : Admission) : KeepsRow allowed a a :=
  ⟨rfl, rfl, rfl, rfl, rfl, rfl, rfl, fun hconsumed => hconsumed, .inl rfl⟩

theorem KeepsRow.trans {allowed : ℕ → Prop} {a b c : Admission} (h : KeepsRow allowed a b)
    (h' : KeepsRow allowed b c) : KeepsRow allowed a c where
  id := h'.id.trans h.id
  queueOrder := h'.queueOrder.trans h.queueOrder
  discoveryRunId := h'.discoveryRunId.trans h.discoveryRunId
  key := h'.key.trans h.key
  executionJobId := h'.executionJobId.trans h.executionJobId
  executionAttempt := h'.executionAttempt.trans h.executionAttempt
  executionToken := h'.executionToken.trans h.executionToken
  consumed := fun hconsumed => h'.consumed (h.consumed hconsumed)
  budget := by
    rcases h'.budget with hsame | hnew
    · rw [hsame]
      exact h.budget
    · exact .inr hnew

/-- A rewritten reservation is released, and otherwise what it was. -/
structure ReleasesRow (r r' : Reservation) : Prop where
  requestCap : r'.requestCap = r.requestCap
  usedCount : r'.usedCount = r.usedCount
  expiresAt : r'.expiresAt = r.expiresAt
  released : r'.releasedAt.isSome = true

def NamesBudget (allowed : ℕ → Prop) (t : SweepTables) (budget : ℕ) : Prop :=
  allowed budget ∨ ∃ a ∈ t.admissions, a.hourlyBudget = budget

/-- One change to the tables at an instant, and the requests it records. -/
inductive Change (allowed : ℕ → Prop) (at_ : ℕ) : SweepTables → SweepTables → List ℕ → Prop
  | runs {t : SweepTables} (runs : List DiscoveryRun) : Change allowed at_ t { t with runs := runs } []
  | snapshots {t : SweepTables} (snapshots : List Snapshot) :
      Change allowed at_ t { t with snapshots := snapshots } []
  | states {t : SweepTables} (states : List SweepState) :
      Change allowed at_ t { t with states := states } []
  | rows {t : SweepTables} (p : Admission → Bool) (f : Admission → Admission)
      (h : ∀ a, KeepsRow allowed a (f a)) : Change allowed at_ t (t.updateAdmissions p f) []
  | queue {t t' : SweepTables} (id runId : ℕ) (key : CharacterKey)
      (requestCap hourlyBudget cadenceCutoff requestedAt : ℕ) (kind : DispatchKind)
      (h : insertAdmission t id runId key requestCap hourlyBudget cadenceCutoff requestedAt kind =
        .ok t') (hbudget : NamesBudget allowed t hourlyBudget) : Change allowed at_ t t' []
  | reserve {t t' : SweepTables} (row : Reservation) (a : Admission)
      (h : insertReservation t row = .ok t') (ha : a ∈ t.admissions)
      (hfresh : row.usedCount = 0) (hopen : row.releasedAt = none)
      (hroom : commitment t at_ + row.requestCap ≤ a.hourlyBudget) : Change allowed at_ t t' []
  | record {t t' : SweepTables} (reservationId count : ℕ)
      (h : recordRequest t reservationId count at_ = .ok t') :
      Change allowed at_ t t' (List.replicate count at_)
  | release {t : SweepTables} (p : Reservation → Bool) (f : Reservation → Reservation)
      (h : ∀ r, ReleasesRow r (f r)) : Change allowed at_ t (t.updateReservations p f) []
  | prune {t : SweepTables} : Change allowed at_ t (cleanupExpired t at_) []

inductive Changes (allowed : ℕ → Prop) (at_ : ℕ) : SweepTables → SweepTables → List ℕ → Prop
  | refl (t : SweepTables) : Changes allowed at_ t t []
  | step {t t' t'' : SweepTables} {recorded later : List ℕ} (h : Change allowed at_ t t' recorded)
      (rest : Changes allowed at_ t' t'' later) : Changes allowed at_ t t'' (recorded ++ later)

variable {allowed : ℕ → Prop} {at_ : ℕ}

variable {t t' : SweepTables}

theorem Change.changes {recorded : List ℕ} (h : Change allowed at_ t t' recorded) :
    Changes allowed at_ t t' recorded := by
  have hone := Changes.step h (.refl t')
  rwa [append_nil] at hone

theorem Changes.trans {t'' : SweepTables} {recorded later : List ℕ}
    (h : Changes allowed at_ t t' recorded) (h' : Changes allowed at_ t' t'' later) :
    Changes allowed at_ t t'' (recorded ++ later) := by
  induction h with
  | refl => exact h'
  | step hstep _ ih =>
    rw [append_assoc]
    exact .step hstep (ih h')

theorem Changes.then {t'' : SweepTables} (h : Changes allowed at_ t t' [])
    (h' : Changes allowed at_ t' t'' []) : Changes allowed at_ t t'' [] := h.trans h'

theorem rows_changes (t : SweepTables) (p : Admission → Bool) (f : Admission → Admission)
    (h : ∀ a, KeepsRow allowed a (f a)) : Changes allowed at_ t (t.updateAdmissions p f) [] :=
  (Change.rows p f h).changes

theorem release_rows_changes (t : SweepTables) (p : Reservation → Bool)
    (f : Reservation → Reservation) (h : ∀ r, ReleasesRow r (f r)) :
    Changes allowed at_ t (t.updateReservations p f) [] := (Change.release p f h).changes

theorem upsertState_changes (t : SweepTables) (row : SweepState) (f : SweepState → SweepState) :
    Changes allowed at_ t (t.upsertState row f) [] := by
  unfold SweepTables.upsertState
  split
  · exact (Change.states _).changes
  · exact (Change.states _).changes

theorem writeSweepState_changes (t : SweepTables) (key : CharacterKey) (input : FinishInput) :
    Changes allowed at_ t (writeSweepState t key input) [] := by
  unfold writeSweepState
  split
  · exact upsertState_changes t _ _
  · exact upsertState_changes t _ _

variable {newReservation : ℕ}

/-- Granting a waiting run reserves its cap within its own budget. -/
theorem admitFingerprintWaitingRun_changes {admissionId : ℕ} {bypass : Option ℕ}
    {outcome : FingerprintAdmission}
    (h : admitFingerprintWaitingRun t admissionId at_ bypass newReservation = .ok (t', outcome)) :
    Changes allowed at_ t t' [] := by
  unfold admitFingerprintWaitingRun at h
  cases hhead : queueHead t at_ bypass with
  | none =>
    simp only [hhead, Except.ok.injEq, Prod.mk.injEq] at h
    obtain ⟨rfl, -⟩ := h
    exact .refl t
  | some candidate =>
    have hin : candidate ∈ t.admissions :=
      (mem_filter.mp (argmin_mem hhead)).1
    simp only [hhead] at h
    split at h
    · obtain ⟨rfl, -⟩ := Prod.mk.inj (Except.ok.inj h)
      exact .refl t
    · split at h
      · obtain ⟨rfl, -⟩ := Prod.mk.inj (Except.ok.inj h)
        exact .refl t
      · next hroom =>
        obtain ⟨reserved, hreserved, hdone⟩ := ok_of_bind_ok h
        obtain ⟨rfl, -⟩ := Prod.mk.inj (Except.ok.inj hdone)
        have hgrant : Change allowed at_ t reserved [] :=
          .reserve _ candidate hreserved hin rfl rfl (not_lt.mp hroom)
        refine hgrant.changes.then (rows_changes reserved _ _ fun a => ?_)
        exact ⟨rfl, rfl, rfl, rfl, rfl, rfl, rfl, id, .inl rfl⟩

theorem queueRequest_changes {input : AdmissionInput} {newAdmission admissionId : ℕ}
    (hbudget : allowed input.hourlyBudget)
    (h : queueRequest t input newAdmission = .ok (t', admissionId)) :
    Changes allowed at_ t t' [] := by
  unfold queueRequest at h
  cases hwaiting : waitingAdmission t input.runId with
  | some waiting =>
    simp only [hwaiting] at h
    obtain ⟨rfl, -⟩ := Prod.mk.inj (Except.ok.inj h)
    refine rows_changes t _ _ fun a => ?_
    exact ⟨rfl, rfl, rfl, rfl, rfl, rfl, rfl, id, .inr hbudget⟩
  | none =>
    simp only [hwaiting] at h
    obtain ⟨queued, hqueued, hdone⟩ := ok_of_bind_ok h
    obtain ⟨rfl, -⟩ := Prod.mk.inj (Except.ok.inj hdone)
    have hqueue : Change allowed at_ t queued [] :=
      .queue _ _ _ _ _ _ _ _ hqueued (.inl hbudget)
    refine hqueue.changes.then (rows_changes queued _ _ fun a => ?_)
    refine ⟨rfl, rfl, rfl, rfl, rfl, rfl, rfl, fun hconsumed => ?_, .inl rfl⟩
    obtain ⟨when_, hwhen⟩ := Option.isSome_iff_exists.mp hconsumed
    simp [hwhen]

variable {runId : ℕ}

theorem deferWaitingRun_changes (h : deferWaitingRun t runId = .ok t') :
    Changes allowed at_ t t' [] := by
  unfold deferWaitingRun at h
  split at h
  · obtain rfl := Except.ok.inj h
    exact (Change.runs _).changes
  · cases h

theorem requestAdmission_changes {input : AdmissionInput} {newAdmission : ℕ}
    {outcome : FingerprintAdmission} (hbudget : allowed input.hourlyBudget)
    (h : requestAdmission t input newAdmission newReservation = .ok (t', outcome)) :
    Changes allowed input.at_ t t' [] := by
  unfold requestAdmission at h
  obtain ⟨-, -, h⟩ := ok_of_bind_ok h
  cases hexisting : existingAdmission t input.runId with
  | some existing =>
    simp only [hexisting] at h
    obtain ⟨rfl, -⟩ := Prod.mk.inj (Except.ok.inj h)
    exact .refl t
  | none =>
    simp only [hexisting] at h
    split at h
    · obtain ⟨rfl, -⟩ := Prod.mk.inj (Except.ok.inj h)
      refine rows_changes t _ _ fun a => ?_
      exact ⟨rfl, rfl, rfl, rfl, rfl, rfl, rfl, id, .inl rfl⟩
    · obtain ⟨⟨queued, admissionId⟩, hqueued, h⟩ := ok_of_bind_ok h
      obtain ⟨⟨result, decided⟩, hadmit, h⟩ := ok_of_bind_ok h
      have hchanges : Changes allowed input.at_ t result [] :=
        (queueRequest_changes hbudget hqueued).then (admitFingerprintWaitingRun_changes hadmit)
      cases decided with
      | waiting retryAt blockedSince =>
        simp only at h
        split at h
        · obtain ⟨rfl, -⟩ := Prod.mk.inj (Except.ok.inj h)
          exact hchanges
        · obtain ⟨deferred, hdeferred, h⟩ := ok_of_bind_ok h
          obtain ⟨rfl, -⟩ := Prod.mk.inj (Except.ok.inj h)
          exact hchanges.then (deferWaitingRun_changes hdeferred)
      | admitted | notDue =>
        obtain ⟨rfl, -⟩ := Prod.mk.inj (Except.ok.inj h)
        exact hchanges

theorem admitWaiting_changes {outcome : QueuedAdmission}
    (h : admitWaiting t runId at_ newReservation = .ok (t', outcome)) :
    Changes allowed at_ t t' [] := by
  unfold admitWaiting at h
  cases hwaiting : waitingAdmission t runId with
  | none =>
    simp only [hwaiting] at h
    obtain ⟨rfl, -⟩ := Prod.mk.inj (Except.ok.inj h)
    exact .refl t
  | some admission =>
    simp only [hwaiting] at h
    split at h
    · obtain ⟨rfl, -⟩ := Prod.mk.inj (Except.ok.inj h)
      refine rows_changes t _ _ fun a => ?_
      exact ⟨rfl, rfl, rfl, rfl, rfl, rfl, rfl, id, .inl rfl⟩
    · obtain ⟨⟨result, decided⟩, hadmit, h⟩ := ok_of_bind_ok h
      obtain ⟨rfl, -⟩ := Prod.mk.inj (Except.ok.inj h)
      exact admitFingerprintWaitingRun_changes hadmit

variable {reservationId : ℕ}

theorem release_changes (h : release t reservationId at_ = .ok t') :
    Changes allowed at_ t t' [] := by
  unfold release at h
  split at h
  · cases h
  · obtain rfl := Except.ok.inj h
    refine (release_rows_changes t _ _ fun r => ?_).then (rows_changes _ _ _ fun a => ?_)
    · exact ⟨rfl, rfl, rfl, rfl⟩
    · exact ⟨rfl, rfl, rfl, rfl, rfl, rfl, rfl, id, .inl rfl⟩

theorem queueContinuation_changes {newAdmission : ℕ} {key : CharacterKey} {input : FinishInput}
    (hbudget : ∀ c, input.continuationAdmission = some c → allowed c.hourlyBudget)
    (h : queueContinuation t runId key input newAdmission = .ok t') :
    Changes allowed at_ t t' [] := by
  unfold queueContinuation at h
  split at h
  · next continuation _ hcontinuation =>
    split at h
    · obtain rfl := Except.ok.inj h
      exact .refl t
    · exact (Change.queue _ _ _ _ _ _ _ _ h (.inl (hbudget _ hcontinuation))).changes
  · obtain rfl := Except.ok.inj h
    exact .refl t

theorem finishFingerprintSweep_changes {newAdmission : ℕ} {input : FinishInput}
    (hbudget : ∀ c, input.continuationAdmission = some c → allowed c.hourlyBudget)
    (h : finishFingerprintSweep t reservationId input newAdmission = .ok t') :
    Changes allowed at_ t t' [] := by
  unfold finishFingerprintSweep at h
  split at h
  · cases h
  · split at h
    · cases h
    · have hfinish : ∀ id, Changes allowed at_ t
          ((t.updateReservations (Reservation.isHeld reservationId)
            (Reservation.finish input)).updateAdmissions (fun a => a.id = id)
              (Admission.finish input)) [] := by
        intro id
        refine (release_rows_changes t _ _ fun r => ?_).then (rows_changes _ _ _ fun a => ?_)
        · exact ⟨rfl, rfl, rfl, rfl⟩
        · refine ⟨rfl, rfl, rfl, rfl, rfl, rfl, rfl, fun hconsumed => ?_, .inl rfl⟩
          unfold Admission.finish
          simp only
          split
          · rfl
          · exact hconsumed
      simp only at h
      split at h
      · obtain rfl := Except.ok.inj h
        exact hfinish _
      · exact (hfinish _).then ((writeSweepState_changes _ _ _).then
          (queueContinuation_changes hbudget h))

/-- A queued row is new: last in the queue, with no delivery and no reservation yet. -/
structure NewRow (t : SweepTables) (newId runId hourlyBudget : ℕ) (kind : DispatchKind)
    (a : Admission) : Prop where
  id : a.id = newId
  fresh : ∀ old ∈ t.admissions, old.id ≠ newId
  queueOrder : a.queueOrder = t.nextQueueOrder
  discoveryRunId : a.discoveryRunId = runId
  dispatchKind : a.dispatchKind = some kind
  hourlyBudget : a.hourlyBudget = hourlyBudget
  executionJobId : a.executionJobId = none
  executionAttempt : a.executionAttempt = 0
  executionToken : a.executionToken = none

theorem insertAdmission_ok {id : ℕ} {key : CharacterKey}
    {requestCap hourlyBudget cadenceCutoff requestedAt : ℕ} {kind : DispatchKind}
    (h : insertAdmission t id runId key requestCap hourlyBudget cadenceCutoff requestedAt kind =
      .ok t') :
    ∃ row, NewRow t id runId hourlyBudget kind row ∧
      t' = { t with
        admissions := t.admissions ++ [row]
        nextQueueOrder := t.nextQueueOrder + 1 } := by
  unfold insertAdmission at h
  split at h
  · cases h
  · next hid =>
    cases hrun : t.findRun runId with
    | none => simp [hrun] at h
    | some run =>
      simp only [hrun, Except.ok.injEq] at h
      refine ⟨_, ?_, h.symm⟩
      exact ⟨rfl, by simpa using hid, rfl, rfl, rfl, rfl, rfl, rfl, rfl⟩

theorem insertReservation_ok {row : Reservation} (h : insertReservation t row = .ok t') :
    t' = { t with reservations := t.reservations ++ [row] } := by
  unfold insertReservation at h
  split at h
  · cases h
  · exact (Except.ok.inj h).symm

theorem recordRequest_ok {count : ℕ} (h : recordRequest t reservationId count at_ = .ok t') :
    t.reservations.countP (Reservation.accepts reservationId count at_) = 1 ∧
      t' = { t.updateReservations (Reservation.accepts reservationId count at_)
          (Reservation.use count) with
        requestEvents := t.requestEvents ++ List.replicate count ⟨reservationId, at_⟩ } := by
  unfold recordRequest at h
  split at h
  · cases h
  · split at h
    · cases h
    · next hone => exact ⟨not_not.mp hone, (Except.ok.inj h).symm⟩

theorem NamesBudget.mono {budget : ℕ} (h : NamesBudget allowed t budget)
    (hrows : ∀ a ∈ t.admissions, a ∈ t'.admissions) : NamesBudget allowed t' budget := by
  rcases h with h | ⟨a, ha, hbudget⟩
  · exact .inl h
  · exact .inr ⟨a, hrows a ha, hbudget⟩

variable {newAdmission : ℕ → ℕ}

variable {input : RequeueInput}

theorem requeueChains_changes (chains : List ((SweepState × Admission) × ℕ))
    (hbudget : ∀ chain ∈ chains, NamesBudget allowed t chain.1.2.hourlyBudget)
    (h : chains.foldlM (requeueChain input newAdmission) t = .ok t') :
    Changes allowed at_ t t' [] := by
  induction chains generalizing t with
  | nil =>
    obtain rfl := Except.ok.inj h
    exact .refl t
  | cons chain rest ih =>
    rw [foldlM_cons] at h
    obtain ⟨queued, hqueued, hrest⟩ := ok_of_bind_ok h
    have hqueue : Change allowed at_ t queued [] :=
      .queue _ _ _ _ _ _ _ _ hqueued (hbudget chain mem_cons_self)
    obtain ⟨row, -, rfl⟩ := insertAdmission_ok hqueued
    refine hqueue.changes.then (ih (fun later hlater => ?_) hrest)
    exact (hbudget later (mem_cons_of_mem chain hlater)).mono
      fun a ha => mem_append_left _ ha

theorem mem_admissions_of_strandedChains {chain : SweepState × Admission}
    (h : chain ∈ strandedChains t input) :
    chain.2 ∈ t.admissions := by
  have hchain := (mem_filter.mp ((mem_insertionSort _).mp (mem_of_mem_take h))).1
  obtain ⟨state, -, hstate⟩ := mem_filterMap.mp hchain
  obtain ⟨previous, hprevious, rfl⟩ := Option.map_eq_some_iff.mp hstate
  obtain ⟨runId, -, hlatest⟩ := Option.bind_eq_some_iff.mp hprevious
  exact (mem_filter.mp (argmax_mem hlatest)).1

theorem requeueContinuations_changes (h : requeueContinuations t input newAdmission = .ok t') :
    Changes allowed at_ t t' [] := by
  unfold requeueContinuations at h
  obtain ⟨queued, hqueued, h⟩ := ok_of_bind_ok h
  obtain rfl := Except.ok.inj h
  have hnamed : ∀ chain ∈ (strandedChains t input).zipIdx,
      NamesBudget allowed t chain.1.2.hourlyBudget := by
    intro chain hchain
    have hin : chain.1 ∈ strandedChains t input := fst_mem_of_mem_zipIdx hchain
    exact .inr ⟨chain.1.2, mem_admissions_of_strandedChains hin, rfl⟩
  refine (requeueChains_changes _ hnamed hqueued).then (rows_changes queued _ _ fun a => ?_)
  exact ⟨rfl, rfl, rfl, rfl, rfl, rfl, rfl, fun _ => rfl, .inl rfl⟩

theorem requeueContinuation_changes {notBefore : ℕ}
    (h : requeueContinuation t runId at_ notBefore newAdmission = .ok t') :
    Changes allowed at_ t t' [] := by
  unfold requeueContinuation at h
  refine Changes.then ?_ (requeueContinuations_changes h)
  refine (release_rows_changes t _ _ fun r => ?_).then (rows_changes _ _ _ fun a => ?_)
  · exact ⟨rfl, rfl, rfl, rfl⟩
  · exact ⟨rfl, rfl, rfl, rfl, rfl, rfl, rfl, id, .inl rfl⟩

theorem requeueStrandedContinuations_changes {maxFailures limit : ℕ}
    (h : requeueStrandedContinuations t at_ maxFailures limit newAdmission = .ok t') :
    Changes allowed at_ t t' [] := by
  unfold requeueStrandedContinuations at h
  split at h
  · cases h
  · split at h
    · cases h
    · exact requeueContinuations_changes h

theorem cleanupExpired_changes (t : SweepTables) :
    Changes allowed at_ t (cleanupExpired t at_) [] := Change.prune.changes

end SlashWho.FingerprintSweeps
