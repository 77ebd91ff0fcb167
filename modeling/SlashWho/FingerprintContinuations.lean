import SlashWho.FingerprintLiveRows

/-!
The transactions on a run's admissions, each with what it does to the live row. A
request or a requeue queues a row only for a run that has none waiting; only a
recovery sweep looks at whether the reservation of an admitted row has expired, and
so may queue behind one.
-/

namespace SlashWho.FingerprintContinuations

open List Characters FingerprintSweeps FingerprintDelivery FingerprintFence Fallible

variable {admittedToo : Bool} {t t' : SweepTables}

variable {a : Admission}

theorem ChainInv.isWaiting (h : ChainInv admittedToo t) (ha : a ∈ t.admissions)
    (hstatus : a.status = .waiting) : a.isWaiting = true := by
  have hopen := (h.latest a ha (.inl hstatus)).1
  simp [Admission.isWaiting, hstatus, hopen]

theorem status_of_isWaiting (h : a.isWaiting = true) : a.status = .waiting := by
  simp only [Admission.isWaiting, Bool.and_eq_true, decide_eq_true_eq] at h
  exact h.1

variable {runId : ℕ}

theorem not_waiting_of_none (h : waitingAdmission t runId = none) (ha : a ∈ t.admissions)
    (hrun : a.discoveryRunId = runId) : a.isWaiting = false := by
  unfold waitingAdmission at h
  rw [argmin_eq_none, filter_eq_nil_iff] at h
  simpa [hrun] using h a ha

theorem not_held_of_none (h : existingAdmission t runId = none) (ha : a ∈ t.admissions)
    (hrun : a.discoveryRunId = runId) (hstatus : a.status = .admitted) {r : Reservation}
    (hr : r ∈ t.reservations) (hof : r.admissionId = a.id) :
    r.unreleased = false := by
  unfold existingAdmission at h
  rw [argmax_eq_none, flatMap_eq_nil_iff] at h
  have hnone := h a ha
  rw [if_pos (by simp [hrun, hstatus]), map_eq_nil_iff, filter_eq_nil_iff] at hnone
  simpa [hof] using hnone r hr

/-- A run with no waiting row, and no admitted one that it still holds, is bare. -/
theorem ChainInv.bare (h : ChainInv admittedToo t) (hwaiting : waitingAdmission t runId = none)
    (hexisting : existingAdmission t runId = none) :
    Bare admittedToo t runId := by
  intro a ha hrun hlive
  rcases hlive with hstatus | ⟨-, hstatus⟩
  · have hrow := h.isWaiting ha hstatus
    rw [not_waiting_of_none hwaiting ha hrun] at hrow
    cases hrow
  · obtain ⟨r, hr, hof, hunreleased⟩ := h.holds a ha hstatus
    rw [not_held_of_none hexisting ha hrun hstatus hr hof] at hunreleased
    cases hunreleased

variable {at_ : ℕ}

variable {admissionId newReservation : ℕ}

theorem ChainInv.admitRun (h : ChainInv admittedToo t) {bypass : Option ℕ}
    {outcome : FingerprintAdmission}
    (hadmits : admitFingerprintWaitingRun t admissionId at_ bypass newReservation =
      .ok (t', outcome)) :
    ChainInv admittedToo t' := by
  unfold admitFingerprintWaitingRun at hadmits
  cases hhead : queueHead t at_ bypass with
  | none =>
    simp only [hhead, Except.ok.injEq, Prod.mk.injEq] at hadmits
    exact hadmits.1 ▸ h
  | some candidate =>
    have hcandidate := mem_filter.mp (argmin_mem hhead)
    simp only [hhead] at hadmits
    split at hadmits
    · exact (Prod.mk.inj (Except.ok.inj hadmits)).1 ▸ h
    · next hid =>
      split at hadmits
      · exact (Prod.mk.inj (Except.ok.inj hadmits)).1 ▸ h
      · obtain ⟨reserved, hreserved, hdone⟩ := ok_of_bind_ok hadmits
        obtain ⟨hgranted, -⟩ := Prod.mk.inj (Except.ok.inj hdone)
        have hwaiting : candidate.isWaiting = true := by
          have hchosen := hcandidate.2
          simp only [Bool.and_eq_true] at hchosen
          exact hchosen.1.1
        rw [← hgranted]
        exact h.grant hcandidate.1 (not_not.mp hid) (status_of_isWaiting hwaiting) rfl hreserved

theorem ChainInv.queueRequest (h : ChainInv admittedToo t) {input : AdmissionInput}
    {newAdmission : ℕ} (hroot : HasRoot t input.runId input.key)
    (hexisting : existingAdmission t input.runId = none)
    (hqueue : queueRequest t input newAdmission = .ok (t', admissionId)) :
    ChainInv admittedToo t' := by
  unfold FingerprintSweeps.queueRequest at hqueue
  cases hwaiting : waitingAdmission t input.runId with
  | some waiting =>
    simp only [hwaiting] at hqueue
    obtain ⟨hrows, -⟩ := Prod.mk.inj (Except.ok.inj hqueue)
    rw [← hrows]
    exact h.rows _ (fun _ => ⟨rfl, rfl, rfl, rfl⟩) (fun _ _ _ hlive => ⟨hlive, rfl⟩)
      (fun _ _ _ => Iff.rfl)
  | none =>
    simp only [hwaiting] at hqueue
    obtain ⟨queued, hqueued, hdone⟩ := ok_of_bind_ok hqueue
    obtain ⟨hrows, -⟩ := Prod.mk.inj (Except.ok.inj hdone)
    have hinv := h.enqueue hroot (h.bare hwaiting hexisting) hqueued
    obtain ⟨row, hrow, hadmissions⟩ := insertAdmission_row hqueued
    rw [← hrows]
    refine hinv.rows _ (fun _ => ⟨rfl, rfl, rfl, rfl⟩) (fun a ha hother hlive => ?_)
      (fun _ _ _ => Iff.rfl)
    -- the run's live row is the one just queued, which is not retired
    simp only [Bool.and_eq_true, decide_eq_true_eq] at hother
    have hnew : row ∈ queued.admissions := by
      rw [hadmissions]
      exact mem_append_right _ mem_cons_self
    have heq := hinv.eq_of_live ha hnew (hother.1.trans hrow.discoveryRunId.symm) hlive
      (.inl hrow.status)
    exact absurd (heq ▸ hrow.id) hother.2

theorem find?_map_keeps {α : Type} {rows : List α} {p : α → Bool} {f : α → α}
    (hp : ∀ a, p (f a) = p a) : (rows.map f).find? p = (rows.find? p).map f := by
  rw [find?_map]
  have heq : p ∘ f = p := funext hp
  rw [heq]

theorem beside_runs (t : SweepTables) {f : DiscoveryRun → DiscoveryRun}
    (hf : ∀ run, (f run).id = run.id ∧ (f run).rootKey = run.rootKey) :
    Beside t { t with runs := t.runs.map f } where
  admissions := ⟨id, (map_id _).symm, fun _ => ⟨⟨rfl, rfl, rfl, rfl⟩, rfl, rfl⟩⟩
  nextQueueOrder := rfl
  reservations := ⟨id, (map_id _).symm, fun _ => ⟨rfl, rfl, rfl⟩⟩
  states := ⟨id, (map_id _).symm, fun _ => ⟨rfl, rfl⟩⟩
  roots := by
    intro runId key hroot
    unfold HasRoot SweepTables.findRun at *
    rw [find?_map_keeps (fun run => by rw [(hf run).1]), Option.map_map]
    have heq : DiscoveryRun.rootKey ∘ f = DiscoveryRun.rootKey := funext fun run => (hf run).2
    rw [heq]
    exact hroot
  snapshots := fun _ _ hrun => hrun

theorem beside_updateRuns (t : SweepTables) (p : DiscoveryRun → Bool)
    {f : DiscoveryRun → DiscoveryRun}
    (hf : ∀ run, (f run).id = run.id ∧ (f run).rootKey = run.rootKey) :
    Beside t (t.updateRuns p f) := by
  unfold SweepTables.updateRuns
  refine beside_runs t fun run => ?_
  split
  · exact hf run
  · exact ⟨rfl, rfl⟩

theorem ChainInv.requestAdmission (h : ChainInv admittedToo t) {input : AdmissionInput}
    {newAdmission : ℕ} {outcome : FingerprintAdmission} (hroot : HasRoot t input.runId input.key)
    (hrequest : requestAdmission t input newAdmission newReservation = .ok (t', outcome)) :
    ChainInv admittedToo t' := by
  unfold FingerprintSweeps.requestAdmission at hrequest
  obtain ⟨-, -, hrequest⟩ := ok_of_bind_ok hrequest
  cases hexisting : existingAdmission t input.runId with
  | some existing =>
    simp only [hexisting] at hrequest
    exact (Prod.mk.inj (Except.ok.inj hrequest)).1 ▸ h
  | none =>
    simp only [hexisting] at hrequest
    split at hrequest
    · obtain ⟨hrows, -⟩ := Prod.mk.inj (Except.ok.inj hrequest)
      rw [← hrows]
      refine h.rows _ (fun _ => ⟨rfl, rfl, rfl, rfl⟩) (fun _ _ _ hlive => ?_)
        (fun a _ hwaiting => ?_)
      · rcases hlive with hlive | ⟨-, hlive⟩ <;> cases hlive
      · simp only [Bool.and_eq_true] at hwaiting
        simp [status_of_isWaiting hwaiting.2]
    · obtain ⟨⟨queued, admissionId⟩, hqueued, hrequest⟩ := ok_of_bind_ok hrequest
      obtain ⟨⟨result, decided⟩, hadmits, hrequest⟩ := ok_of_bind_ok hrequest
      have hresult := (h.queueRequest hroot hexisting hqueued).admitRun hadmits
      cases decided with
      | waiting retryAt blockedSince =>
        simp only at hrequest
        split at hrequest
        · exact (Prod.mk.inj (Except.ok.inj hrequest)).1 ▸ hresult
        · obtain ⟨deferred, hdeferred, hrequest⟩ := ok_of_bind_ok hrequest
          obtain ⟨hrows, -⟩ := Prod.mk.inj (Except.ok.inj hrequest)
          rw [← hrows]
          unfold deferWaitingRun at hdeferred
          split at hdeferred
          · rw [← Except.ok.inj hdeferred]
            exact hresult.beside (beside_updateRuns _ _ fun _ => ⟨rfl, rfl⟩)
          · cases hdeferred
      | admitted | notDue =>
        exact (Prod.mk.inj (Except.ok.inj hrequest)).1 ▸ hresult

theorem ChainInv.admitWaiting (h : ChainInv admittedToo t) {outcome : QueuedAdmission}
    (hadmits : admitWaiting t runId at_ newReservation = .ok (t', outcome)) :
    ChainInv admittedToo t' := by
  unfold FingerprintSweeps.admitWaiting at hadmits
  cases hwaiting : waitingAdmission t runId with
  | none =>
    simp only [hwaiting] at hadmits
    exact (Prod.mk.inj (Except.ok.inj hadmits)).1 ▸ h
  | some admission =>
    obtain ⟨hin, hof⟩ := mem_filter.mp (argmin_mem hwaiting)
    simp only [Bool.and_eq_true] at hof
    simp only [hwaiting] at hadmits
    split at hadmits
    · obtain ⟨hrows, -⟩ := Prod.mk.inj (Except.ok.inj hadmits)
      rw [← hrows]
      refine h.rows _ (fun _ => ⟨rfl, rfl, rfl, rfl⟩) (fun _ _ _ hlive => ?_)
        (fun a ha hid => ?_)
      · rcases hlive with hlive | ⟨-, hlive⟩ <;> cases hlive
      · rw [eq_of_id_eq h.queue ha hin (of_decide_eq_true hid)]
        simp [status_of_isWaiting hof.2]
    · obtain ⟨⟨result, decided⟩, hadmits, hdone⟩ := ok_of_bind_ok hadmits
      obtain ⟨hrows, -⟩ := Prod.mk.inj (Except.ok.inj hdone)
      rw [← hrows]
      exact h.admitRun hadmits

theorem ChainInv.settle (h : ChainInv admittedToo t) {p : Admission → Bool}
    {q : Reservation → Bool} {f : Admission → Admission} {g : Reservation → Reservation}
    (hf : ∀ a, StaysInPlace a (f a))
    (hg : ∀ r, (g r).id = r.id ∧ (g r).admissionId = r.admissionId)
    (hover : ∀ a, (f a).status ≠ .waiting ∧ (f a).status ≠ .admitted)
    (hreleased : ∀ r, (g r).unreleased = false)
    (htogether : ∀ a ∈ t.admissions, ∀ r ∈ t.reservations, a.id = r.admissionId →
      (p a = true ↔ q r = true)) :
    ChainInv admittedToo ((t.updateReservations q g).updateAdmissions p f) := by
  refine h.rewrite (f := fun a => if p a then f a else a) (g := fun r => if q r then g r else r)
    ?_ ?_ ?_ ?_ ?_ ?_
  · intro a
    split
    · exact hf a
    · exact ⟨rfl, rfl, rfl, rfl⟩
  · intro r
    split
    · exact hg r
    · exact ⟨rfl, rfl⟩
  · intro a ha hlive
    by_cases hp : p a = true
    · rw [if_pos hp] at hlive
      rcases hlive with hlive | ⟨-, hlive⟩
      · exact absurd hlive (hover a).1
      · exact absurd hlive (hover a).2
    · rw [if_neg hp] at hlive ⊢
      exact ⟨hlive, rfl⟩
  · intro a ha hadmitted
    by_cases hp : p a = true
    · rw [if_pos hp] at hadmitted
      exact absurd hadmitted (hover a).2
    · rwa [if_neg hp] at hadmitted
  · intro r hr a ha hof hadmitted hunreleased
    by_cases hp : p a = true
    · rw [if_pos hp, if_pos ((htogether a ha r hr hof).mp hp), hreleased r]
      exact ⟨fun hfalse => absurd hfalse Bool.false_ne_true,
        fun hstill => absurd hstill (hover a).2⟩
    · rw [if_neg hp, if_neg fun hq => hp ((htogether a ha r hr hof).mpr hq)]
      exact ⟨fun _ => hadmitted, fun _ => hunreleased⟩
  · intro r hr hunreleased
    by_cases hq : q r = true
    · rw [if_pos hq, hreleased r] at hunreleased
      cases hunreleased
    · rwa [if_neg hq] at hunreleased

variable {reservationId : ℕ}

/-- A held reservation is settled with its row. -/
theorem ChainInv.settleHeld (h : ChainInv admittedToo t) {row : Reservation}
    (hrow : t.reservations.find? (Reservation.isHeld reservationId) = some row)
    {f : Admission → Admission} {g : Reservation → Reservation} (hf : ∀ a, StaysInPlace a (f a))
    (hg : ∀ r, (g r).id = r.id ∧ (g r).admissionId = r.admissionId)
    (hover : ∀ a, (f a).status ≠ .waiting ∧ (f a).status ≠ .admitted)
    (hreleased : ∀ r, (g r).unreleased = false) :
    ChainInv admittedToo ((t.updateReservations (Reservation.isHeld reservationId) g).updateAdmissions
      (fun a => a.id = row.admissionId) f) := by
  have hin := mem_of_find?_eq_some hrow
  have hheld := find?_some hrow
  refine h.settle hf hg hover hreleased fun a _ r hr hof => ?_
  rw [decide_eq_true_eq, hof]
  constructor
  · intro hsame
    have heq : r = row := inj_on_of_nodup_map h.oneEach hr hin hsame
    rw [heq]
    exact hheld
  · intro hheld'
    simp only [Reservation.isHeld, Bool.and_eq_true, decide_eq_true_eq] at hheld hheld'
    have heq : r = row :=
      inj_on_of_nodup_map h.reservationIds hr hin (hheld'.1.trans hheld.1.symm)
    rw [heq]

theorem ChainInv.release (h : ChainInv admittedToo t)
    (hrelease : release t reservationId at_ = .ok t') : ChainInv admittedToo t' := by
  unfold FingerprintSweeps.release at hrelease
  split at hrelease
  · cases hrelease
  · next row hrow =>
    rw [← Except.ok.inj hrelease]
    exact h.settleHeld hrow (fun _ => ⟨rfl, rfl, rfl, rfl⟩) (fun _ => ⟨rfl, rfl⟩)
      (fun _ => ⟨by simp, by simp⟩) (fun _ => rfl)

theorem ChainInv.writeSweepState (h : ChainInv admittedToo t) (key : CharacterKey)
    {input : FinishInput}
    (howned : ∀ cursor snapshotId, input.cursor = some cursor →
      cursor.resumeSnapshotId = some snapshotId → OwnedBy t key snapshotId) :
    ChainInv admittedToo (writeSweepState t key input) := by
  unfold FingerprintSweeps.writeSweepState
  split
  · refine h.upsert (fun _ => rfl) (fun snapshotId hresume => ?_)
      (fun state hstate hkey snapshotId hresume => ?_)
    · cases hresume
    · have hkey : state.key = key := hkey
      exact hkey ▸ h.owned state hstate snapshotId hresume
  · next cursor hcursor =>
    exact h.upsert (fun _ => rfl) (fun snapshotId => howned cursor snapshotId hcursor)
      (fun _ _ _ snapshotId => howned cursor snapshotId hcursor)

theorem ChainInv.queueContinuation (h : ChainInv admittedToo t) {newAdmission : ℕ}
    {key : CharacterKey} {input : FinishInput} (hroot : HasRoot t runId key)
    (hqueue : queueContinuation t runId key input newAdmission = .ok t') :
    ChainInv admittedToo t' := by
  unfold FingerprintSweeps.queueContinuation at hqueue
  split at hqueue
  · split at hqueue
    · exact Except.ok.inj hqueue ▸ h
    · next hnone =>
      refine h.enqueue hroot (fun a ha hrun hlive => hnone ?_) hqueue
      refine any_eq_true.mpr ⟨a, ha, ?_⟩
      rcases hlive with hstatus | ⟨-, hstatus⟩ <;> simp [hrun, hstatus]
  · exact Except.ok.inj hqueue ▸ h

/-- What a finish starts with: the held reservation and its row. -/
structure Finishing (t : SweepTables) (reservationId : ℕ) (row : Reservation)
    (admission : Admission) : Prop where
  reserved : t.reservations.find? (Reservation.isHeld reservationId) = some row
  queued : t.admissions.find? (fun a => a.id = row.admissionId) = some admission

def finishRow (t : SweepTables) (reservationId : ℕ) (row : Reservation) (input : FinishInput) :
    SweepTables :=
  (t.updateReservations (Reservation.isHeld reservationId)
    (Reservation.finish input)).updateAdmissions (fun a => a.id = row.admissionId)
      (Admission.finish input)

/-- A finish settles its row, and a publication then writes the state row and queues
the next cycle. -/
theorem finish_cases {newAdmission : ℕ} {input : FinishInput}
    (h : finishFingerprintSweep t reservationId input newAdmission = .ok t') :
    ∃ row admission, Finishing t reservationId row admission ∧
      ((input.published = false ∧ t' = finishRow t reservationId row input) ∨
        (input.published = true ∧
          queueContinuation (writeSweepState (finishRow t reservationId row input) admission.key
            input) admission.discoveryRunId admission.key input newAdmission = .ok t')) := by
  unfold finishFingerprintSweep at h
  split at h
  · cases h
  · next row hrow =>
    split at h
    · cases h
    · next admission hadmission =>
      refine ⟨row, admission, ⟨hrow, hadmission⟩, ?_⟩
      simp only at h
      split at h
      · next hpublished => exact .inl ⟨hpublished, (Except.ok.inj h).symm⟩
      · next hpublished => exact .inr ⟨by simpa using hpublished, h⟩

theorem ChainInv.finishRow (h : ChainInv admittedToo t) {row : Reservation}
    (hrow : t.reservations.find? (Reservation.isHeld reservationId) = some row)
    (input : FinishInput) : ChainInv admittedToo (finishRow t reservationId row input) :=
  h.settleHeld hrow (fun _ => ⟨rfl, rfl, rfl, rfl⟩) (fun _ => ⟨rfl, rfl⟩)
    (fun _ => ⟨by simp [Admission.finish], by simp [Admission.finish]⟩) (fun _ => rfl)

theorem upsertState_tables (t : SweepTables) (row : SweepState) (f : SweepState → SweepState) :
    (t.upsertState row f).runs = t.runs ∧ (t.upsertState row f).admissions = t.admissions ∧
      (t.upsertState row f).snapshots = t.snapshots := by
  unfold SweepTables.upsertState
  split <;> exact ⟨rfl, rfl, rfl⟩

theorem writeSweepState_tables (t : SweepTables) (key : CharacterKey) (input : FinishInput) :
    (writeSweepState t key input).runs = t.runs ∧
      (writeSweepState t key input).admissions = t.admissions ∧
      (writeSweepState t key input).snapshots = t.snapshots := by
  unfold writeSweepState
  split
  · exact upsertState_tables t _ _
  · exact upsertState_tables t _ _

theorem ChainInv.finish (h : ChainInv admittedToo t) {newAdmission : ℕ} {input : FinishInput}
    (howned : ∀ row admission, Finishing t reservationId row admission →
      ∀ cursor snapshotId, input.cursor = some cursor →
        cursor.resumeSnapshotId = some snapshotId → OwnedBy t admission.key snapshotId)
    (hfinish : finishFingerprintSweep t reservationId input newAdmission = .ok t') :
    ChainInv admittedToo t' := by
  obtain ⟨row, admission, hfinishing, ⟨-, rfl⟩ | ⟨-, hqueue⟩⟩ := finish_cases hfinish
  · exact h.finishRow hfinishing.reserved input
  · have hsettled := h.finishRow hfinishing.reserved input
    have hwritten := hsettled.writeSweepState admission.key
      (howned row admission hfinishing)
    refine hwritten.queueContinuation ?_ hqueue
    have hroot := h.rooted admission (mem_of_find?_eq_some hfinishing.queued)
    unfold HasRoot SweepTables.findRun at *
    rw [(writeSweepState_tables _ _ _).1]
    exact hroot

/-- A chain that is requeued: its cursor's run, that run's latest row, and nothing of
the run live. -/
structure Stranded (t : SweepTables) (at_ : ℕ) (chain : SweepState × Admission) : Prop where
  state : chain.1 ∈ t.states
  resume : t.resumeRun chain.1 = some chain.2.discoveryRunId
  open_ : chain.1.resumeAfter.isSome = true
  latest : chain.2 ∈ t.admissions
  dead : hasLiveAdmission t chain.2.discoveryRunId at_ = false

variable {input : RequeueInput} {chain : SweepState × Admission}

theorem stranded_of_mem (h : chain ∈ strandedChains t input) : Stranded t input.at_ chain := by
  obtain ⟨hchain, hkept⟩ :=
    mem_filter.mp ((mem_insertionSort _).mp (mem_of_mem_take h))
  obtain ⟨state, hin, hstate⟩ := mem_filterMap.mp hchain
  obtain ⟨previous, hprevious, rfl⟩ := Option.map_eq_some_iff.mp hstate
  obtain ⟨runId, hresume, hlatest⟩ := Option.bind_eq_some_iff.mp hprevious
  obtain ⟨hprevious, hrun⟩ := mem_filter.mp (argmax_mem hlatest)
  have hrun : previous.discoveryRunId = runId := of_decide_eq_true hrun
  simp only [Bool.and_eq_true, Bool.not_eq_true'] at hkept
  exact ⟨hin, hrun ▸ hresume, hkept.1.1.1, hprevious, hkept.2⟩

theorem ChainInv.chains_distinct (h : ChainInv admittedToo t) (input : RequeueInput) :
    (strandedChains t input).Pairwise
      (fun chain other => chain.2.discoveryRunId ≠ other.2.discoveryRunId) := by
  have hroot : ∀ state ∈ t.states, ∀ runId, t.resumeRun state = some runId →
      HasRoot t runId state.key := by
    intro state hstate runId hresume
    rw [resumeRun_eq] at hresume
    obtain ⟨snapshotId, hsnapshot, hrun⟩ := Option.bind_eq_some_iff.mp hresume
    obtain ⟨owner, howner, hroot⟩ := h.owned state hstate snapshotId hsnapshot
    have heq : runId = owner := Option.some.inj (hrun.symm.trans howner)
    exact heq ▸ hroot
  have hstates : t.states.Pairwise (fun state other =>
      ∀ runId, t.resumeRun state = some runId → t.resumeRun other ≠ some runId) := by
    have hkeys : t.states.Pairwise (fun state other => state.key ≠ other.key) :=
      pairwise_map.mp h.stateKeys
    refine hkeys.imp_of_mem fun hstate hother hne runId hrun hrun' => hne ?_
    have hkey := (hroot _ hstate runId hrun).symm.trans (hroot _ hother runId hrun')
    exact Option.some.inj hkey
  have hchains : (t.states.filterMap (fun state =>
      ((t.resumeRun state).bind (latestAdmission t)).map (fun previous => (state, previous)))).Pairwise
        (fun chain other => chain.2.discoveryRunId ≠ other.2.discoveryRunId) := by
    refine hstates.filterMap _ fun state other hne chain hchain chain' hchain' heq => ?_
    have hof : ∀ state chain, ((t.resumeRun state).bind (latestAdmission t)).map
        (fun previous => (state, previous)) = some chain →
          t.resumeRun state = some chain.2.discoveryRunId := by
      intro state chain hsome
      obtain ⟨previous, hprevious, rfl⟩ := Option.map_eq_some_iff.mp hsome
      obtain ⟨runId, hresume, hlatest⟩ := Option.bind_eq_some_iff.mp hprevious
      have hrun := (mem_filter.mp (argmax_mem hlatest)).2
      rw [hresume, of_decide_eq_true hrun]
    exact hne _ (hof state chain hchain) (heq ▸ hof other chain' hchain')
  have hne : ∀ chain other : SweepState × Admission,
      chain.2.discoveryRunId ≠ other.2.discoveryRunId →
        other.2.discoveryRunId ≠ chain.2.discoveryRunId := fun _ _ hne => hne.symm
  unfold strandedChains
  refine List.Pairwise.sublist (take_sublist _ _) ?_
  exact ((perm_insertionSort _ _).symm.pairwise_iff fun {a b} hab => hne a b hab).mp
    (hchains.filter _)

variable {newAdmission : ℕ → ℕ}

theorem ChainInv.requeueChains (chains : List ((SweepState × Admission) × ℕ)) {t t' : SweepTables}
    (h : ChainInv admittedToo t) (hdistinct : chains.Pairwise
      (fun chain other => chain.1.2.discoveryRunId ≠ other.1.2.discoveryRunId))
    (hroot : ∀ chain ∈ chains, HasRoot t chain.1.2.discoveryRunId chain.1.1.key)
    (hbare : ∀ chain ∈ chains, Bare admittedToo t chain.1.2.discoveryRunId)
    (hqueue : chains.foldlM (requeueChain input newAdmission) t = .ok t') :
    ChainInv admittedToo t' := by
  induction chains generalizing t with
  | nil => exact Except.ok.inj hqueue ▸ h
  | cons chain rest ih =>
    rw [foldlM_cons] at hqueue
    obtain ⟨queued, hqueued, hrest⟩ := ok_of_bind_ok hqueue
    have hfirst := h.enqueue (hroot chain mem_cons_self) (hbare chain mem_cons_self)
      hqueued
    obtain ⟨row, hrow, hadmissions⟩ := insertAdmission_row hqueued
    rw [pairwise_cons] at hdistinct
    refine ih hfirst hdistinct.2 (fun later hlater => ?_) (fun later hlater => ?_) hrest
    · have hold := hroot later (mem_cons_of_mem _ hlater)
      unfold HasRoot SweepTables.findRun at *
      rw [hadmissions]
      exact hold
    · intro a ha hrun hlive
      rw [hadmissions] at ha
      rcases mem_append.mp ha with ha | ha
      · exact hbare later (mem_cons_of_mem _ hlater) a ha hrun hlive
      · rw [mem_singleton.mp ha, hrow.discoveryRunId] at hrun
        exact hdistinct.1 later hlater hrun

/-- A requeue keeps the invariant where the runs it queues are bare: a live row is
the newest of its run, and is not retired. -/
theorem ChainInv.requeueContinuations (h : ChainInv admittedToo t)
    (hbare : ∀ chain ∈ strandedChains t input, Bare admittedToo t chain.2.discoveryRunId)
    (hrequeue : requeueContinuations t input newAdmission = .ok t') :
    ChainInv admittedToo t' := by
  unfold FingerprintSweeps.requeueContinuations at hrequeue
  obtain ⟨queued, hqueued, hdone⟩ := ok_of_bind_ok hrequeue
  rw [← Except.ok.inj hdone]
  have hdistinct : ((strandedChains t input).zipIdx).Pairwise
      (fun chain other => chain.1.2.discoveryRunId ≠ other.1.2.discoveryRunId) := by
    have hmapped := h.chains_distinct input
    rw [← zipIdx_map_fst 0 (strandedChains t input), pairwise_map] at hmapped
    exact hmapped
  have hinv : ChainInv admittedToo queued := by
    refine h.requeueChains _ hdistinct (fun chain hchain => ?_) (fun chain hchain => ?_) hqueued
    · have hstranded := stranded_of_mem (fst_mem_of_mem_zipIdx hchain)
      have hresume := hstranded.resume
      rw [resumeRun_eq] at hresume
      obtain ⟨snapshotId, hsnapshot, hrun⟩ := Option.bind_eq_some_iff.mp hresume
      obtain ⟨owner, howner, hroot⟩ := h.owned _ hstranded.state snapshotId hsnapshot
      have heq : chain.1.2.discoveryRunId = owner := Option.some.inj (hrun.symm.trans howner)
      exact heq ▸ hroot
    · exact hbare chain.1 (fst_mem_of_mem_zipIdx hchain)
  refine hinv.rows _ (fun _ => ⟨rfl, rfl, rfl, rfl⟩) (fun a ha hretired hlive => ?_)
    (fun _ _ _ => Iff.rfl)
  simp only [Bool.and_eq_true, any_eq_true, decide_eq_true_eq] at hretired
  obtain ⟨-, newer, hnewer, hrun, hlater⟩ := hretired
  exact absurd hlater (not_lt.mpr ((hinv.latest a ha hlive).2 newer hnewer hrun))

theorem ChainInv.not_waiting_of_stranded (h : ChainInv admittedToo t)
    (hstranded : Stranded t at_ chain) (ha : a ∈ t.admissions)
    (hrun : a.discoveryRunId = chain.2.discoveryRunId) :
    a.status ≠ .waiting := by
  intro hstatus
  have hdead := hstranded.dead
  unfold hasLiveAdmission at hdead
  rw [any_eq_false] at hdead
  apply hdead a ha
  simp [hrun, h.isWaiting ha hstatus]

/-- A stranded chain is bare unless a row of its run still says `admitted`. -/
theorem ChainInv.bare_of_stranded (h : ChainInv admittedToo t) (hstranded : Stranded t at_ chain)
    (hadmitted : admittedToo = true → ∀ a ∈ t.admissions,
      a.discoveryRunId = chain.2.discoveryRunId → a.status ≠ .admitted) :
    Bare admittedToo t chain.2.discoveryRunId := by
  intro a ha hrun hlive
  rcases hlive with hstatus | ⟨htoo, hstatus⟩
  · exact h.not_waiting_of_stranded hstranded ha hrun hstatus
  · exact hadmitted htoo a ha hrun hstatus

/-- The recovery sweep queues no chain of a run one of whose rows still says `admitted`. -/
def QueuesBehindNone (t : SweepTables) (at_ maxFailures limit : ℕ) : Prop :=
  ∀ chain ∈ strandedChains t ⟨at_, at_, none, some maxFailures, limit⟩, ∀ a ∈ t.admissions,
    a.discoveryRunId = chain.2.discoveryRunId → a.status ≠ .admitted

theorem ChainInv.requeueStranded (h : ChainInv admittedToo t) {maxFailures limit : ℕ}
    (hnone : admittedToo = true → QueuesBehindNone t at_ maxFailures limit)
    (hrequeue : requeueStrandedContinuations t at_ maxFailures limit newAdmission = .ok t') :
    ChainInv admittedToo t' := by
  unfold requeueStrandedContinuations at hrequeue
  split at hrequeue
  · cases hrequeue
  · split at hrequeue
    · cases hrequeue
    · exact h.requeueContinuations (fun chain hchain => h.bare_of_stranded
        (stranded_of_mem hchain) fun htoo => hnone htoo chain hchain) hrequeue

theorem run_of_mem (hinput : input.runId = some runId) (h : chain ∈ strandedChains t input) :
    chain.2.discoveryRunId = runId := by
  have hkept := (mem_filter.mp ((mem_insertionSort _).mp (mem_of_mem_take h))).2
  simp only [hinput, Bool.and_eq_true, Bool.or_eq_true, Option.isNone_some, Bool.false_eq_true,
    false_or, decide_eq_true_eq, Option.some.injEq] at hkept
  exact hkept.1.1.2.symm

/-- A cycle that ended gives back what its run holds, so none of the run's rows still
says `admitted` when the next one is queued. -/
theorem ChainInv.requeueContinuation (h : ChainInv admittedToo t) {notBefore : ℕ}
    (hrequeue : requeueContinuation t runId at_ notBefore newAdmission = .ok t') :
    ChainInv admittedToo t' := by
  unfold FingerprintSweeps.requeueContinuation at hrequeue
  have hheld : ∀ a ∈ t.admissions, ∀ r ∈ t.reservations, a.id = r.admissionId →
      (t.reservations.any (fun r => r.admissionId = a.id && heldByRun t runId r) = true ↔
        heldByRun t runId r = true) := by
    intro a _ r hr hof
    rw [any_eq_true]
    constructor
    · intro hany
      obtain ⟨other, hother, hboth⟩ := hany
      rw [Bool.and_eq_true, decide_eq_true_eq] at hboth
      have heq : other = r :=
        inj_on_of_nodup_map h.oneEach hother hr (hboth.1.trans hof)
      exact heq ▸ hboth.2
    · intro hheld
      exact ⟨r, hr, by rw [hheld, decide_eq_true hof.symm]; rfl⟩
  have hleft := h.settle (f := fun a => { a with status := .released })
    (g := Reservation.release at_) (fun _ => ⟨rfl, rfl, rfl, rfl⟩) (fun _ => ⟨rfl, rfl⟩)
    (fun _ => ⟨by simp, by simp⟩) (fun _ => rfl) hheld
  refine ChainInv.requeueContinuations hleft (fun chain hchain => ?_) hrequeue
  refine hleft.bare_of_stranded (stranded_of_mem hchain) fun _ a' ha' hrun hadmitted => ?_
  rw [run_of_mem rfl hchain] at hrun
  obtain ⟨a, ha, rfl⟩ := mem_map.mp ha'
  split at hadmitted
  · cases hadmitted
  · next hnone =>
    rw [if_neg hnone] at hrun
    obtain ⟨r, hr, hof, hunreleased⟩ := h.holds a ha hadmitted
    apply hnone
    rw [hheld a ha r hr hof.symm]
    unfold heldByRun
    rw [hunreleased, Bool.true_and, any_eq_true]
    exact ⟨a, ha, by simp [hof, hrun, hadmitted]⟩

theorem beside_states (t : SweepTables) {f : SweepState → SweepState}
    (hf : ∀ state, (f state).key = state.key ∧
      (f state).resumeSnapshotId = state.resumeSnapshotId) :
    Beside t { t with states := t.states.map f } where
  admissions := ⟨id, (map_id _).symm, fun _ => ⟨⟨rfl, rfl, rfl, rfl⟩, rfl, rfl⟩⟩
  nextQueueOrder := rfl
  reservations := ⟨id, (map_id _).symm, fun _ => ⟨rfl, rfl, rfl⟩⟩
  states := ⟨f, rfl, hf⟩
  roots := fun _ _ hroot => hroot
  snapshots := fun _ _ hrun => hrun

/-- The transaction that gives up a dead delivery takes the newest row of its run. -/
theorem ChainInv.recoverTerminal (h : ChainInv admittedToo t) {jobLive : ℕ → Bool}
    {key : CharacterKey} (hof : ∀ a ∈ t.admissions, a.id = admissionId → a.discoveryRunId = runId)
    (hrecover : recoverTerminal t jobLive admissionId runId key at_ newAdmission = .ok t') :
    ChainInv admittedToo t' := by
  unfold FingerprintDelivery.recoverTerminal at hrecover
  cases hfound : t.admissions.find? (isAbandoned t jobLive admissionId) with
  | none =>
    simp only [hfound] at hrecover
    exact Except.ok.inj hrecover ▸ h
  | some a =>
    have hin := mem_of_find?_eq_some hfound
    have habandoned := find?_some hfound
    have hid : a.id = admissionId := by
      simp only [isAbandoned, Bool.and_eq_true, decide_eq_true_eq] at habandoned
      exact habandoned.1.1.1
    have hnewest : isNewest t a = true := by
      simp only [isAbandoned, Bool.and_eq_true] at habandoned
      exact habandoned.1.2
    have honly : ∀ b ∈ t.admissions, b.id = admissionId → b = a := fun b hb hbid =>
      eq_of_id_eq h.queue hb hin (hbid.trans hid.symm)
    have hretired := h.settle (p := isAbandoned t jobLive admissionId)
      (q := fun r => r.admissionId = admissionId)
      (f := fun a => { a with consumedAt := some at_, status := .released })
      (g := fun r => { r with releasedAt := r.releasedAt.or (some at_) })
      (fun _ => ⟨rfl, rfl, rfl, rfl⟩) (fun _ => ⟨rfl, rfl⟩) (fun _ => ⟨by simp, by simp⟩)
      (fun r => by unfold Reservation.unreleased; cases r.releasedAt <;> rfl)
      (fun b hb r _ hof => by
        rw [decide_eq_true_eq, ← hof]
        constructor
        · intro habandoned'
          simp only [isAbandoned, Bool.and_eq_true, decide_eq_true_eq] at habandoned'
          exact habandoned'.1.1.1
        · intro hbid
          rw [honly b hb hbid]
          exact habandoned)
    simp only [hfound] at hrecover
    split at hrecover
    · rw [← Except.ok.inj hrecover]
      exact hretired.beside (beside_updateRuns _ _ fun _ => ⟨rfl, rfl⟩)
    · have hcounted := hretired.beside (beside_states _
        (f := fun state => if state.key = key && t.resumeRun state = some runId then
          { state with continuationFailures := state.continuationFailures + 1 } else state)
        fun state => by
          split
          · exact ⟨rfl, rfl⟩
          · exact ⟨rfl, rfl⟩)
      split at hrecover
      · exact Except.ok.inj hrecover ▸ hcounted
      · refine ChainInv.requeueContinuations hcounted (fun chain hchain => ?_) hrecover
        -- an admitted row left would be the run's newest, which is the one retired
        refine hcounted.bare_of_stranded (stranded_of_mem hchain) fun htoo b' hb' hrun hadmitted => ?_
        rw [run_of_mem rfl hchain] at hrun
        obtain ⟨b, hb, rfl⟩ := mem_map.mp hb'
        split at hadmitted
        · cases hadmitted
        · next hother =>
          rw [if_neg hother] at hrun
          have hle := (h.latest b hb (.inr ⟨htoo, hadmitted⟩)).2 a hin
            ((hof a hin hid).trans hrun.symm)
          have hge := le_of_isNewest hnewest hb (hrun.trans (hof a hin hid).symm)
          have heq : b = a := eq_of_queueOrder_eq h.queue hb hin (le_antisymm hge hle)
          exact hother (heq ▸ habandoned)

end SlashWho.FingerprintContinuations
