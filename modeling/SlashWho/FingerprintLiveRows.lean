import SlashWho.FingerprintFence

/-!
Which admission of a run is live. A run's waiting row is its newest, and no row is
queued behind one, so a run never waits twice. An admitted row holds the one
reservation of its own, until both are settled together; a recovery sweep may still
queue a row behind it once that reservation has expired. Where none does, the
admitted row too is the newest of its run.
-/

namespace SlashWho.FingerprintContinuations

open List Characters FingerprintSweeps FingerprintDelivery FingerprintFence

def snapshotRun (t : SweepTables) (snapshotId : ℕ) : Option ℕ :=
  (t.snapshots.find? (fun snapshot => snapshot.id = snapshotId)).map Snapshot.discoveryRunId

def HasRoot (t : SweepTables) (runId : ℕ) (key : CharacterKey) : Prop :=
  (t.findRun runId).map DiscoveryRun.rootKey = some key

/-- The snapshot is of a run that sweeps for this root. -/
def OwnedBy (t : SweepTables) (key : CharacterKey) (snapshotId : ℕ) : Prop :=
  ∃ runId, snapshotRun t snapshotId = some runId ∧ HasRoot t runId key

def NewestRow (t : SweepTables) (a : Admission) : Prop :=
  ∀ n ∈ t.admissions, n.discoveryRunId = a.discoveryRunId → n.queueOrder ≤ a.queueOrder

/-- The statuses that only a run's newest row has: waiting, and admitted too where
no sweep queues a row behind an admitted one. -/
def Live (admittedToo : Bool) (status : AdmissionStatus) : Prop :=
  status = .waiting ∨ (admittedToo = true ∧ status = .admitted)

def Bare (admittedToo : Bool) (t : SweepTables) (runId : ℕ) : Prop :=
  ∀ a ∈ t.admissions, a.discoveryRunId = runId → ¬ Live admittedToo a.status

structure ChainInv (admittedToo : Bool) (t : SweepTables) : Prop where
  queue : QueueInv t
  rooted : ∀ a ∈ t.admissions, HasRoot t a.discoveryRunId a.key
  latest : ∀ a ∈ t.admissions, Live admittedToo a.status → a.consumedAt = none ∧ NewestRow t a
  reservationIds : (t.reservations.map Reservation.id).Nodup
  oneEach : (t.reservations.map Reservation.admissionId).Nodup
  held : ∀ r ∈ t.reservations, r.unreleased = true →
    ∃ a ∈ t.admissions, a.id = r.admissionId ∧ a.status = .admitted
  holds : ∀ a ∈ t.admissions, a.status = .admitted →
    ∃ r ∈ t.reservations, r.admissionId = a.id ∧ r.unreleased = true
  stateKeys : (t.states.map SweepState.key).Nodup
  owned : ∀ state ∈ t.states, ∀ snapshotId, state.resumeSnapshotId = some snapshotId →
    OwnedBy t state.key snapshotId

variable {admittedToo : Bool} {t t' : SweepTables}

theorem resumeRun_eq (t : SweepTables) (state : SweepState) :
    t.resumeRun state = state.resumeSnapshotId.bind (snapshotRun t) := rfl

theorem ChainInv.eq_of_live (h : ChainInv admittedToo t) {a b : Admission}
    (ha : a ∈ t.admissions) (hb : b ∈ t.admissions) (hrun : a.discoveryRunId = b.discoveryRunId)
    (hlive : Live admittedToo a.status) (hlive' : Live admittedToo b.status) : a = b := by
  have hle := (h.latest a ha hlive).2 b hb hrun.symm
  have hge := (h.latest b hb hlive').2 a ha hrun
  exact eq_of_queueOrder_eq h.queue ha hb (le_antisymm hge hle)

theorem ChainInv.waiting_one (h : ChainInv admittedToo t) (runId : ℕ) :
    t.admissions.countP (fun a => a.discoveryRunId = runId && a.isWaiting) ≤ 1 := by
  have hnodup : t.admissions.Nodup := List.Nodup.of_map _ h.queue.nodup_ids
  rw [countP_eq_length_filter]
  have hfiltered : (t.admissions.filter
      (fun a => a.discoveryRunId = runId && a.isWaiting)).Nodup := hnodup.filter _
  by_contra hmany
  obtain ⟨a, b, rest, hrows⟩ : ∃ a b rest, t.admissions.filter
      (fun a => a.discoveryRunId = runId && a.isWaiting) = a :: b :: rest := by
    match hfilter : t.admissions.filter (fun a => a.discoveryRunId = runId && a.isWaiting) with
    | [] => simp [hfilter] at hmany
    | [a] => simp [hfilter] at hmany
    | a :: b :: rest => exact ⟨a, b, rest, hfilter⟩
  have hin : ∀ c ∈ a :: b :: rest, c ∈ t.admissions ∧ c.discoveryRunId = runId ∧
      Live admittedToo c.status := by
    intro c hc
    rw [← hrows, mem_filter] at hc
    obtain ⟨hc, hwaiting⟩ := hc
    simp only [Admission.isWaiting, Bool.and_eq_true, decide_eq_true_eq] at hwaiting
    exact ⟨hc, hwaiting.1, .inl hwaiting.2.1⟩
  obtain ⟨ha, harun, halive⟩ := hin a mem_cons_self
  obtain ⟨hb, hbrun, hblive⟩ := hin b (mem_cons_of_mem _ mem_cons_self)
  have heq := h.eq_of_live ha hb (harun.trans hbrun.symm) halive hblive
  rw [hrows, heq, nodup_cons] at hfiltered
  exact hfiltered.1 mem_cons_self

/-- A rewritten row stays in its place of the queue. -/
structure StaysInPlace (a a' : Admission) : Prop where
  id : a'.id = a.id
  queueOrder : a'.queueOrder = a.queueOrder
  discoveryRunId : a'.discoveryRunId = a.discoveryRunId
  key : a'.key = a.key

/-- What other code may do beside the chain transactions: rewrite delivery columns,
count requests and failures, add runs and snapshots and change a run's status. -/
structure Beside (t t' : SweepTables) : Prop where
  admissions : ∃ f, t'.admissions = t.admissions.map f ∧
    ∀ a, StaysInPlace a (f a) ∧ (f a).status = a.status ∧ (f a).consumedAt = a.consumedAt
  nextQueueOrder : t'.nextQueueOrder = t.nextQueueOrder
  reservations : ∃ f, t'.reservations = t.reservations.map f ∧
    ∀ r, (f r).id = r.id ∧ (f r).admissionId = r.admissionId ∧ (f r).releasedAt = r.releasedAt
  states : ∃ f, t'.states = t.states.map f ∧
    ∀ s, (f s).key = s.key ∧ (f s).resumeSnapshotId = s.resumeSnapshotId
  roots : ∀ runId key, HasRoot t runId key → HasRoot t' runId key
  snapshots : ∀ snapshotId runId, snapshotRun t snapshotId = some runId →
    snapshotRun t' snapshotId = some runId

theorem nodup_map_congr {α β : Type} [DecidableEq β] {rows : List α} {f : α → α} {key : α → β}
    (hkey : ∀ a, key (f a) = key a) (h : (rows.map key).Nodup) :
    ((rows.map f).map key).Nodup := by
  rw [map_map]
  have heq : rows.map (key ∘ f) = rows.map key := map_congr_left fun a _ => hkey a
  rw [heq]
  exact h

variable {f : Admission → Admission}

theorem newestRow_map (hf : ∀ a, StaysInPlace a (f a)) (hrows : t'.admissions = t.admissions.map f)
    {a : Admission} (h : NewestRow t a) :
    NewestRow t' (f a) := by
  intro n' hn' hrun
  rw [hrows] at hn'
  obtain ⟨n, hn, rfl⟩ := mem_map.mp hn'
  rw [(hf n).discoveryRunId, (hf a).discoveryRunId] at hrun
  rw [(hf n).queueOrder, (hf a).queueOrder]
  exact h n hn hrun

/-- Rows and their reservations are rewritten together: a row that still says
`waiting` or `admitted` is as it was, and a reservation is released exactly with its
row. -/
theorem ChainInv.rewrite (h : ChainInv admittedToo t) {g : Reservation → Reservation}
    (hf : ∀ a, StaysInPlace a (f a)) (hg : ∀ r, (g r).id = r.id ∧ (g r).admissionId = r.admissionId)
    (hlive : ∀ a ∈ t.admissions, Live admittedToo (f a).status →
      Live admittedToo a.status ∧ (f a).consumedAt = a.consumedAt)
    (hkept : ∀ a ∈ t.admissions, (f a).status = .admitted → a.status = .admitted)
    (hsettled : ∀ r ∈ t.reservations, ∀ a ∈ t.admissions, a.id = r.admissionId →
      a.status = .admitted → r.unreleased = true →
        ((g r).unreleased = true ↔ (f a).status = .admitted))
    (hreleased : ∀ r ∈ t.reservations, (g r).unreleased = true → r.unreleased = true) :
    ChainInv admittedToo { t with
      admissions := t.admissions.map f
      reservations := t.reservations.map g } where
  queue := by
    have hqueue := queueInv_map h.queue f (fun a => (hf a).id) fun a => (hf a).queueOrder
    exact ⟨hqueue.nodup_ids, hqueue.sorted, hqueue.bounded⟩
  rooted := by
    intro a' ha'
    obtain ⟨a, ha, rfl⟩ := mem_map.mp ha'
    rw [(hf a).discoveryRunId, (hf a).key]
    exact h.rooted a ha
  latest := by
    intro a' ha' hstatus
    obtain ⟨a, ha, rfl⟩ := mem_map.mp ha'
    obtain ⟨hbefore, hconsumed⟩ := hlive a ha hstatus
    obtain ⟨hopen, hnewest⟩ := h.latest a ha hbefore
    exact ⟨hconsumed.trans hopen, newestRow_map hf rfl hnewest⟩
  reservationIds := nodup_map_congr (fun r => (hg r).1) h.reservationIds
  oneEach := nodup_map_congr (fun r => (hg r).2) h.oneEach
  held := by
    intro r' hr' hunreleased
    obtain ⟨r, hr, rfl⟩ := mem_map.mp hr'
    have hbefore := hreleased r hr hunreleased
    obtain ⟨a, ha, hid, hadmitted⟩ := h.held r hr hbefore
    refine ⟨f a, mem_map_of_mem ha, ?_, ?_⟩
    · rw [(hf a).id, (hg r).2]
      exact hid
    · exact (hsettled r hr a ha hid hadmitted hbefore).mp hunreleased
  holds := by
    intro a' ha' hstatus
    obtain ⟨a, ha, rfl⟩ := mem_map.mp ha'
    have hadmitted := hkept a ha hstatus
    obtain ⟨r, hr, hof, hunreleased⟩ := h.holds a ha hadmitted
    refine ⟨g r, mem_map_of_mem hr, ?_, ?_⟩
    · rw [(hf a).id, (hg r).2]
      exact hof
    · exact (hsettled r hr a ha hof.symm hadmitted hunreleased).mpr hstatus
  stateKeys := h.stateKeys
  owned := h.owned

theorem ChainInv.rows (h : ChainInv admittedToo t) (p : Admission → Bool)
    (hf : ∀ a, StaysInPlace a (f a))
    (hlive : ∀ a ∈ t.admissions, p a = true → Live admittedToo (f a).status →
      Live admittedToo a.status ∧ (f a).consumedAt = a.consumedAt)
    (hsame : ∀ a ∈ t.admissions, p a = true → ((f a).status = .admitted ↔ a.status = .admitted)) :
    ChainInv admittedToo (t.updateAdmissions p f) := by
  have hrewrite := h.rewrite (f := fun a => if p a then f a else a) (g := id)
    (fun a => by
      split
      · exact hf a
      · exact ⟨rfl, rfl, rfl, rfl⟩)
    (fun r => ⟨rfl, rfl⟩)
    (fun a ha hstatus => by
      by_cases hp : p a = true
      · rw [if_pos hp] at hstatus ⊢
        exact hlive a ha hp hstatus
      · rw [if_neg hp] at hstatus ⊢
        exact ⟨hstatus, rfl⟩)
    (fun a ha hstatus => by
      by_cases hp : p a = true
      · rw [if_pos hp] at hstatus
        exact (hsame a ha hp).mp hstatus
      · rwa [if_neg hp] at hstatus)
    (fun r _ a ha _ hadmitted hunreleased => by
      by_cases hp : p a = true
      · rw [if_pos hp]
        exact ⟨fun _ => (hsame a ha hp).mpr hadmitted, fun _ => hunreleased⟩
      · rw [if_neg hp]
        exact ⟨fun _ => hadmitted, fun _ => hunreleased⟩)
    (fun r _ hunreleased => hunreleased)
  simpa [SweepTables.updateAdmissions] using hrewrite

structure QueuedRow (t : SweepTables) (newId runId : ℕ) (key : CharacterKey) (requestedAt : ℕ)
    (a : Admission) : Prop where
  id : a.id = newId
  fresh : ∀ old ∈ t.admissions, old.id ≠ newId
  queueOrder : a.queueOrder = t.nextQueueOrder
  discoveryRunId : a.discoveryRunId = runId
  key : a.key = key
  status : a.status = .waiting
  consumedAt : a.consumedAt = none
  requestedAt : a.requestedAt = requestedAt

theorem insertAdmission_row {id runId requestCap hourlyBudget cadenceCutoff requestedAt : ℕ}
    {key : CharacterKey} {kind : DispatchKind}
    (h : insertAdmission t id runId key requestCap hourlyBudget cadenceCutoff requestedAt kind =
      .ok t') :
    ∃ row, QueuedRow t id runId key requestedAt row ∧
      t' = { t with
        admissions := t.admissions ++ [row]
        nextQueueOrder := t.nextQueueOrder + 1 } := by
  unfold insertAdmission at h
  split at h
  · cases h
  · next hid =>
    cases hrun : t.findRun runId with
    | none => simp [hrun] at h
    | some run =>
      simp only [hrun, Except.ok.injEq] at h
      refine ⟨_, ?_, h.symm⟩
      exact ⟨rfl, by simpa using hid, rfl, rfl, rfl, rfl, rfl, rfl⟩

theorem ChainInv.enqueue (h : ChainInv admittedToo t) {id runId requestCap hourlyBudget : ℕ}
    {cadenceCutoff requestedAt : ℕ} {key : CharacterKey} {kind : DispatchKind}
    (hroot : HasRoot t runId key) (hbare : Bare admittedToo t runId)
    (hinsert : insertAdmission t id runId key requestCap hourlyBudget cadenceCutoff requestedAt
      kind = .ok t') :
    ChainInv admittedToo t' := by
  obtain ⟨row, hrow, hqueued⟩ := insertAdmission_row hinsert
  have hfresh : ∀ old ∈ t.admissions, old.id ≠ row.id := fun old hold => hrow.id ▸ hrow.fresh old hold
  have hqueue := queueInv_append h.queue hfresh hrow.queueOrder
  subst hqueued
  refine ⟨hqueue, ?_, ?_, h.reservationIds, h.oneEach, ?_, ?_, h.stateKeys, h.owned⟩
  · intro a ha
    rcases mem_append.mp ha with ha | ha
    · exact h.rooted a ha
    · rw [mem_singleton.mp ha, hrow.discoveryRunId, hrow.key]
      exact hroot
  · intro a ha hlive
    rcases mem_append.mp ha with ha | ha
    · obtain ⟨hopen, hnewest⟩ := h.latest a ha hlive
      refine ⟨hopen, fun n hn hrun => ?_⟩
      rcases mem_append.mp hn with hn | hn
      · exact hnewest n hn hrun
      · rw [mem_singleton.mp hn, hrow.discoveryRunId] at hrun
        exact absurd hlive (hbare a ha hrun.symm)
    · rw [mem_singleton.mp ha]
      refine ⟨hrow.consumedAt, fun n hn _ => ?_⟩
      rcases mem_append.mp hn with hn | hn
      · rw [hrow.queueOrder]
        exact (h.queue.bounded n hn).le
      · rw [mem_singleton.mp hn]
  · intro r hr hunreleased
    obtain ⟨a, ha, hof⟩ := h.held r hr hunreleased
    exact ⟨a, mem_append_left _ ha, hof⟩
  · intro a ha hadmitted
    rcases mem_append.mp ha with ha | ha
    · exact h.holds a ha hadmitted
    · rw [mem_singleton.mp ha, hrow.status] at hadmitted
      cases hadmitted

/-- A waiting row is admitted, under a reservation of its own. -/
theorem ChainInv.grant (h : ChainInv admittedToo t) {row : Reservation} {candidate : Admission}
    {reserved : SweepTables} (hin : candidate ∈ t.admissions) (hid : candidate.id = row.admissionId)
    (hwaiting : candidate.status = .waiting) (hopen : row.releasedAt = none)
    (hreserve : insertReservation t row = .ok reserved) :
    ChainInv admittedToo (reserved.updateAdmissions (fun a => a.id = row.admissionId)
      (fun a => { a with status := .admitted, dispatchedAt := none })) := by
  have hfree : ∀ r ∈ t.reservations, r.id ≠ row.id ∧ r.admissionId ≠ row.admissionId := by
    unfold insertReservation at hreserve
    split at hreserve
    · cases hreserve
    · next hnone =>
      intro r hr
      simp only [any_eq_true, Bool.or_eq_true, decide_eq_true_eq, not_exists, not_and,
        not_or] at hnone
      exact hnone r hr
  obtain rfl := insertReservation_ok hreserve
  have hunreleased : row.unreleased = true := by rw [Reservation.unreleased, hopen]; rfl
  have hnamed : ∀ a ∈ t.admissions, a.id = row.admissionId → a = candidate := fun a ha ha' =>
    eq_of_id_eq h.queue ha hin (ha'.trans hid.symm)
  let f : Admission → Admission := fun a =>
    if a.id = row.admissionId then { a with status := .admitted, dispatchedAt := none } else a
  have hplace : ∀ a, StaysInPlace a (f a) := by
    intro a
    unfold f
    split
    · exact ⟨rfl, rfl, rfl, rfl⟩
    · exact ⟨rfl, rfl, rfl, rfl⟩
  have hrows : (SweepTables.updateAdmissions
      { t with reservations := t.reservations ++ [row] } (fun a => a.id = row.admissionId)
      (fun a => { a with status := .admitted, dispatchedAt := none })) =
      { t with reservations := t.reservations ++ [row], admissions := t.admissions.map f } := by
    simp [SweepTables.updateAdmissions, f]
  rw [hrows]
  have hqueue := queueInv_map h.queue f (fun a => (hplace a).id) fun a => (hplace a).queueOrder
  refine ⟨⟨hqueue.nodup_ids, hqueue.sorted, hqueue.bounded⟩, ?_, ?_, ?_, ?_, ?_, ?_, h.stateKeys,
    h.owned⟩
  · intro a' ha'
    obtain ⟨a, ha, rfl⟩ := mem_map.mp ha'
    rw [(hplace a).discoveryRunId, (hplace a).key]
    exact h.rooted a ha
  · intro a' ha' hlive
    obtain ⟨a, ha, rfl⟩ := mem_map.mp ha'
    have hbefore : Live admittedToo a.status ∧ (f a).consumedAt = a.consumedAt := by
      by_cases hat : a.id = row.admissionId
      · rw [hnamed a ha hat, hwaiting]
        refine ⟨.inl rfl, ?_⟩
        unfold f
        split <;> rfl
      · have hfa : f a = a := if_neg hat
        rw [hfa] at hlive
        exact ⟨hlive, by rw [hfa]⟩
    obtain ⟨hconsumed, hnewest⟩ := h.latest a ha hbefore.1
    exact ⟨hbefore.2.trans hconsumed, newestRow_map hplace rfl hnewest⟩
  · rw [map_append, nodup_append]
    refine ⟨h.reservationIds, nodup_singleton _, ?_⟩
    intro id hold id' hnew
    obtain ⟨r, hr, rfl⟩ := mem_map.mp hold
    rw [mem_singleton.mp hnew]
    exact (hfree r hr).1
  · rw [map_append, nodup_append]
    refine ⟨h.oneEach, nodup_singleton _, ?_⟩
    intro id hold id' hnew
    obtain ⟨r, hr, rfl⟩ := mem_map.mp hold
    rw [mem_singleton.mp hnew]
    exact (hfree r hr).2
  · intro r hr hheld
    rcases mem_append.mp hr with hr | hr
    · obtain ⟨a, ha, hof, hadmitted⟩ := h.held r hr hheld
      have hfa : f a = a := if_neg (hof ▸ (hfree r hr).2)
      exact ⟨f a, mem_map_of_mem ha, by rw [hfa]; exact hof, by rw [hfa]; exact hadmitted⟩
    · rw [mem_singleton.mp hr]
      have hfa : f candidate = { candidate with status := .admitted, dispatchedAt := none } :=
        if_pos hid
      exact ⟨f candidate, mem_map_of_mem hin, by rw [hfa]; exact hid, by rw [hfa]⟩
  · intro a' ha' hadmitted
    obtain ⟨a, ha, rfl⟩ := mem_map.mp ha'
    by_cases hat : a.id = row.admissionId
    · refine ⟨row, mem_append_right _ mem_cons_self, ?_, hunreleased⟩
      rw [(hplace a).id, hat]
    · have hfa : f a = a := if_neg hat
      rw [hfa] at hadmitted ⊢
      obtain ⟨r, hr, hof⟩ := h.holds a ha hadmitted
      exact ⟨r, mem_append_left _ hr, hof⟩

/-- A state row is written whose snapshot, if it names one, is its root's. -/
theorem ChainInv.upsert (h : ChainInv admittedToo t) {row : SweepState}
    {f : SweepState → SweepState} (hkey : ∀ state, (f state).key = state.key)
    (hrow : ∀ snapshotId, row.resumeSnapshotId = some snapshotId → OwnedBy t row.key snapshotId)
    (hf : ∀ state ∈ t.states, state.key = row.key →
      ∀ snapshotId, (f state).resumeSnapshotId = some snapshotId → OwnedBy t row.key snapshotId) :
    ChainInv admittedToo (t.upsertState row f) := by
  unfold SweepTables.upsertState
  split
  · refine { h with
      queue := ⟨h.queue.nodup_ids, h.queue.sorted, h.queue.bounded⟩
      stateKeys := ?_
      owned := ?_ }
    · refine nodup_map_congr (fun state => ?_) h.stateKeys
      split
      · exact hkey state
      · rfl
    · intro state' hstate' snapshotId hresume
      obtain ⟨state, hstate, rfl⟩ := mem_map.mp hstate'
      by_cases hat : state.key = row.key
      · rw [if_pos hat] at hresume ⊢
        rw [hkey, hat]
        exact hf state hstate hat snapshotId hresume
      · rw [if_neg hat] at hresume ⊢
        exact h.owned state hstate snapshotId hresume
  · next hnone =>
    refine { h with
      queue := ⟨h.queue.nodup_ids, h.queue.sorted, h.queue.bounded⟩
      stateKeys := ?_
      owned := ?_ }
    · rw [map_append, nodup_append]
      refine ⟨h.stateKeys, nodup_singleton _, ?_⟩
      intro key hold key' hnew
      obtain ⟨state, hstate, rfl⟩ := mem_map.mp hold
      rw [mem_singleton.mp hnew]
      intro heq
      apply hnone
      exact any_eq_true.mpr ⟨state, hstate, decide_eq_true heq⟩
    · intro state hstate snapshotId hresume
      rcases mem_append.mp hstate with hstate | hstate
      · exact h.owned state hstate snapshotId hresume
      · rw [mem_singleton.mp hstate] at hresume ⊢
        exact hrow snapshotId hresume

theorem ChainInv.beside (h : ChainInv admittedToo t) (hbeside : Beside t t') :
    ChainInv admittedToo t' := by
  obtain ⟨f, hrows, hf⟩ := hbeside.admissions
  obtain ⟨g, hreservations, hg⟩ := hbeside.reservations
  obtain ⟨e, hstates, he⟩ := hbeside.states
  have hrewritten := h.rewrite (f := f) (g := g) (fun a => (hf a).1)
    (fun r => ⟨(hg r).1, (hg r).2.1⟩)
    (fun a _ hlive => ⟨(hf a).2.1 ▸ hlive, (hf a).2.2⟩)
    (fun a _ hadmitted => (hf a).2.1 ▸ hadmitted)
    (fun r _ a _ _ hadmitted hunreleased => by
      rw [Reservation.unreleased, (hg r).2.2, (hf a).2.1]
      exact ⟨fun _ => hadmitted, fun _ => hunreleased⟩)
    (fun r _ hunreleased => by rwa [Reservation.unreleased, (hg r).2.2] at hunreleased)
  refine ⟨⟨?_, ?_, ?_⟩, ?_, ?_, ?_, ?_, ?_, ?_, ?_, ?_⟩
  · exact hrows ▸ hrewritten.queue.nodup_ids
  · exact hrows ▸ hrewritten.queue.sorted
  · rw [hrows, hbeside.nextQueueOrder]
    exact hrewritten.queue.bounded
  · intro a ha
    exact hbeside.roots _ _ (hrewritten.rooted a (hrows ▸ ha))
  · intro a ha hlive
    obtain ⟨hopen, hnewest⟩ := hrewritten.latest a (hrows ▸ ha) hlive
    exact ⟨hopen, fun n hn => hnewest n (hrows ▸ hn)⟩
  · exact hreservations ▸ hrewritten.reservationIds
  · exact hreservations ▸ hrewritten.oneEach
  · rw [hrows, hreservations]
    exact hrewritten.held
  · rw [hrows, hreservations]
    exact hrewritten.holds
  · rw [hstates]
    exact nodup_map_congr (fun s => (he s).1) h.stateKeys
  · intro state' hstate' snapshotId hresume
    rw [hstates] at hstate'
    obtain ⟨state, hstate, rfl⟩ := mem_map.mp hstate'
    rw [(he state).2] at hresume
    obtain ⟨runId, hrun, hroot⟩ := h.owned state hstate snapshotId hresume
    rw [(he state).1]
    exact ⟨runId, hbeside.snapshots _ _ hrun, hbeside.roots _ _ hroot⟩

end SlashWho.FingerprintContinuations
