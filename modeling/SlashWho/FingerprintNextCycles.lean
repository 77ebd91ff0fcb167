import SlashWho.FingerprintPublications

/-!
Whether a chain goes on by itself. A publication that leaves its run a cursor queues the run's next
cycle unless a row of the run still says `waiting` or `admitted`. A row that a recovery sweep queued
behind, its reservation expired, keeps saying `admitted`. Where no recovery sweep queues behind an
admitted row, every such publication leaves its run waiting.
-/

namespace SlashWho.FingerprintContinuations

open List Characters FingerprintSweeps FingerprintDelivery FingerprintFence Fallible Snapshots

/-- The run waits for its next cycle. -/
def Waits (t : SweepTables) (runId : ℕ) : Prop :=
  ∃ a ∈ t.admissions, a.discoveryRunId = runId ∧ a.isWaiting = true

/-- The rows of the run that say `admitted` are the reservation's. -/
def OnlyAdmits (t : SweepTables) (reservationId runId : ℕ) : Prop :=
  ∀ a ∈ t.admissions, a.discoveryRunId = runId → a.status = .admitted →
    ∃ r ∈ t.reservations, r.isHeld reservationId = true ∧ r.admissionId = a.id

/-- The run owns a cursor to resume from. -/
def LeavesCursor (t : SweepTables) (runId : ℕ) : Prop :=
  ∃ state ∈ t.states, state.resumeAfter.isSome = true ∧ t.resumeRun state = some runId

instance (t : SweepTables) (runId : ℕ) : Decidable (Waits t runId) :=
  inferInstanceAs (Decidable (∃ a ∈ t.admissions, a.discoveryRunId = runId ∧ a.isWaiting = true))

instance (t : SweepTables) (runId : ℕ) : Decidable (LeavesCursor t runId) :=
  inferInstanceAs (Decidable
    (∃ state ∈ t.states, state.resumeAfter.isSome = true ∧ t.resumeRun state = some runId))

variable {admittedToo : Bool} {t t' : SweepTables}

variable {runId : ℕ} {key : CharacterKey}

theorem HasRoot.unique {key' : CharacterKey} (h : HasRoot t runId key) (h' : HasRoot t runId key') :
    key = key' :=
  Option.some.inj (h.symm.trans h')

theorem Finishing.named {reservationId : ℕ} {row : Reservation}
    {admission : Admission} (h : Finishing t reservationId row admission) :
    admission.id = row.admissionId := by
  have hfound := find?_some h.queued
  exact of_decide_eq_true hfound

variable {input : FinishInput}

theorem resume_of_leaves (h : ChainInv admittedToo t') {settled : SweepTables}
    {cursor : SweepCursor} (hroot : HasRoot t' runId key) (hcursor : input.cursor = some cursor)
    (hstates : t'.states = (writeSweepState settled key input).states)
    (hleaves : LeavesCursor t' runId) : cursor.resumeAfter.isSome = true := by
  obtain ⟨state, hstate, hopen, hresume⟩ := hleaves
  rw [resumeRun_eq] at hresume
  obtain ⟨snapshotId, hsnapshot, hrun⟩ := Option.bind_eq_some_iff.mp hresume
  obtain ⟨owner, howner, hown⟩ := h.owned state hstate snapshotId hsnapshot
  have hsame : owner = runId := Option.some.inj (howner.symm.trans hrun)
  have hkey : state.key = key := (hsame ▸ hown).unique hroot
  rw [hstates] at hstate
  simp only [writeSweepState, hcursor] at hstate
  unfold SweepTables.upsertState at hstate
  split at hstate
  · obtain ⟨old, -, rfl⟩ := mem_map.mp hstate
    by_cases hold : old.key = key
    · rw [if_pos hold] at hopen
      exact hopen
    · rw [if_neg hold] at hkey
      exact absurd hkey hold
  · next hnone =>
    rcases mem_append.mp hstate with hstate | hstate
    · refine absurd ?_ hnone
      exact any_eq_true.mpr ⟨state, hstate, decide_eq_true hkey⟩
    · rw [mem_singleton.mp hstate] at hopen
      exact hopen

theorem queueContinuation_states {newAdmission : ℕ}
    (h : queueContinuation t runId key input newAdmission = .ok t') : t'.states = t.states := by
  unfold queueContinuation at h
  split at h
  · split at h
    · exact congrArg SweepTables.states (Except.ok.inj h).symm
    · obtain ⟨row, -, rfl⟩ := insertAdmission_row h
      rfl
  · exact congrArg SweepTables.states (Except.ok.inj h).symm

/-- A finish that leaves a cursor, and may queue the next cycle, leaves its run
waiting exactly where a row of the run waits already or no row but its own says
`admitted`. -/
theorem finish_waits (h : ChainInv admittedToo t) {reservationId newAdmission : ℕ}
    {row : Reservation} {admission : Admission} {after : String}
    {continuation : ContinuationAdmission} (hfinishing : Finishing t reservationId row admission)
    (hafter : input.cursor.bind SweepCursor.resumeAfter = some after)
    (hcontinuation : input.continuationAdmission = some continuation)
    (hqueue : queueContinuation (writeSweepState (finishRow t reservationId row input)
      admission.key input) admission.discoveryRunId admission.key input newAdmission = .ok t') :
    Waits t' admission.discoveryRunId ↔
      Waits t admission.discoveryRunId ∨ OnlyAdmits t reservationId admission.discoveryRunId := by
  have hrow := mem_of_find?_eq_some hfinishing.reserved
  have hheld := find?_some hfinishing.reserved
  have hadmission := mem_of_find?_eq_some hfinishing.queued
  have hid := hfinishing.named
  have hown : admission.status = .admitted := by
    obtain ⟨a, ha, hof, hadmitted⟩ := h.held row hrow (by
      simp only [Reservation.isHeld, Bool.and_eq_true] at hheld
      exact hheld.2)
    rw [← eq_of_id_eq h.queue ha hadmission (hof.trans hid.symm)]
    exact hadmitted
  have hrows : (writeSweepState (finishRow t reservationId row input) admission.key
      input).admissions = t.admissions.map
        (fun a => if a.id = row.admissionId then a.finish input else a) := by
    rw [(writeSweepState_tables _ _ _).2.1]
    simp [finishRow, SweepTables.updateAdmissions, SweepTables.updateReservations]
  -- the rows still live once the publication has settled its own
  have hkept : ∀ a ∈ t.admissions, a.status = .waiting ∨ a.status = .admitted →
      a.id ≠ row.admissionId → a ∈ (writeSweepState (finishRow t reservationId row input)
        admission.key input).admissions := by
    intro a ha _ hne
    rw [hrows]
    exact mem_map.mpr ⟨a, ha, if_neg hne⟩
  have hother : ∀ a ∈ (writeSweepState (finishRow t reservationId row input)
      admission.key input).admissions, a.status = .waiting ∨ a.status = .admitted →
        a ∈ t.admissions ∧ a.id ≠ row.admissionId := by
    intro a' ha' hlive
    rw [hrows] at ha'
    obtain ⟨a, ha, rfl⟩ := mem_map.mp ha'
    by_cases hsame : a.id = row.admissionId
    · rw [if_pos hsame] at hlive
      rcases hlive with hlive | hlive <;> cases hlive
    · rw [if_neg hsame]
      exact ⟨ha, hsame⟩
  have hwaiting : ∀ a ∈ t.admissions, a.isWaiting = true → a.id ≠ row.admissionId := by
    intro a ha hwaits hsame
    rw [eq_of_id_eq h.queue ha hadmission (hsame.trans hid.symm)] at hwaits
    rw [status_of_isWaiting hwaits] at hown
    cases hown
  unfold queueContinuation at hqueue
  rw [hafter, hcontinuation] at hqueue
  simp only at hqueue
  split at hqueue
  · next hany =>
    rw [← Except.ok.inj hqueue]
    constructor
    · intro hwaits
      obtain ⟨a, ha, hrun, hwaits⟩ := hwaits
      exact .inl ⟨a, (hother a ha (.inl (status_of_isWaiting hwaits))).1, hrun, hwaits⟩
    · intro hholds
      rcases hholds with ⟨a, ha, hrun, hwaits⟩ | honly
      · exact ⟨a, hkept a ha (.inl (status_of_isWaiting hwaits)) (hwaiting a ha hwaits), hrun,
          hwaits⟩
      · obtain ⟨a, ha, hlive⟩ := any_eq_true.mp hany
        simp only [Bool.and_eq_true, Bool.or_eq_true, decide_eq_true_eq] at hlive
        obtain ⟨hin, hne⟩ := hother a ha hlive.2
        rcases hlive.2 with hstatus | hstatus
        · exact ⟨a, ha, hlive.1, h.isWaiting hin hstatus⟩
        · obtain ⟨r, hr, hsame, hof⟩ := honly a hin hlive.1 hstatus
          simp only [Reservation.isHeld, Bool.and_eq_true, decide_eq_true_eq] at hheld hsame
          have heq : r = row :=
            inj_on_of_nodup_map h.reservationIds hr hrow (hsame.1.trans hheld.1.symm)
          exact absurd (heq ▸ hof).symm hne
  · next hnone =>
    obtain ⟨next, hnext, rfl⟩ := insertAdmission_row hqueue
    refine ⟨fun _ => .inr fun a ha hrun hadmitted => ?_, fun _ => ?_⟩
    · by_cases hsame : a.id = row.admissionId
      · exact ⟨row, hrow, hheld, hsame.symm⟩
      · refine absurd (any_eq_true.mpr ⟨a, hkept a ha (.inr hadmitted) hsame, ?_⟩) hnone
        simp [hrun, hadmitted]
    · refine ⟨next, mem_append_right _ mem_cons_self, hnext.discoveryRunId, ?_⟩
      simp [Admission.isWaiting, hnext.status, hnext.consumedAt]

theorem Waits.not_settled (h : Waits t runId) {at_ newReservation : ℕ} {outcome : QueuedAdmission}
    (hadmits : admitWaiting t runId at_ newReservation = .ok (t', outcome)) :
    outcome ≠ .settled := by
  obtain ⟨a, ha, hrun, hwaits⟩ := h
  unfold admitWaiting at hadmits
  cases hwaiting : waitingAdmission t runId with
  | none =>
    rw [not_waiting_of_none hwaiting ha hrun] at hwaits
    cases hwaits
  | some first =>
    simp only [hwaiting] at hadmits
    split at hadmits
    · obtain ⟨-, rfl⟩ := Prod.mk.inj (Except.ok.inj hadmits)
      simp
    · obtain ⟨⟨result, decided⟩, -, hdone⟩ := ok_of_bind_ok hadmits
      obtain ⟨-, rfl⟩ := Prod.mk.inj (Except.ok.inj hdone)
      cases decided <;> simp [FingerprintAdmission.queued]

/-! ### Every interleaving of the transactions -/

/-- One transaction on the chains. Reservations expire as time passes, which no
transaction writes; a run's sweep is requested for its own root and publishes under
its own reservation. In a `clean` run no recovery sweep queues a chain behind an
admitted row. -/
inductive Step (clean : Bool) : SnapshotTables → SnapshotTables → Prop
  | requestAdmission (t t' : SnapshotTables) (input : AdmissionInput)
      (newAdmission newReservation : ℕ) (outcome : FingerprintAdmission)
      (hroot : HasRoot t.sweepTables input.runId input.key)
      (h : FingerprintSweeps.requestAdmission t.sweepTables input newAdmission newReservation =
        .ok (t'.sweepTables, outcome)) : Step clean t t'
  | admitWaiting (t t' : SnapshotTables) (runId at_ newReservation : ℕ) (outcome : QueuedAdmission)
      (h : FingerprintSweeps.admitWaiting t.sweepTables runId at_ newReservation =
        .ok (t'.sweepTables, outcome)) : Step clean t t'
  | release (t t' : SnapshotTables) (reservationId at_ : ℕ)
      (h : FingerprintSweeps.release t.sweepTables reservationId at_ = .ok t'.sweepTables) :
      Step clean t t'
  | finish (t t' : SnapshotTables) (reservationId : ℕ) (published : Bool) (at_ : ℕ)
      (limitationCode : Option String) (newAdmission : ℕ)
      (h : FingerprintSweeps.finish t.sweepTables reservationId published at_ limitationCode
        newAdmission = .ok t'.sweepTables) : Step clean t t'
  | requeueContinuation (t t' : SnapshotTables) (runId at_ notBefore : ℕ) (newAdmission : ℕ → ℕ)
      (h : FingerprintSweeps.requeueContinuation t.sweepTables runId at_ notBefore newAdmission =
        .ok t'.sweepTables) : Step clean t t'
  | requeueStranded (t t' : SnapshotTables) (at_ maxFailures limit : ℕ) (newAdmission : ℕ → ℕ)
      (hclean : clean = true → QueuesBehindNone t.sweepTables at_ maxFailures limit)
      (h : requeueStrandedContinuations t.sweepTables at_ maxFailures limit newAdmission =
        .ok t'.sweepTables) : Step clean t t'
  | recoverTerminal (t t' : SnapshotTables) (jobLive : ℕ → Bool) (admissionId runId : ℕ)
      (key : CharacterKey) (at_ : ℕ) (newAdmission : ℕ → ℕ)
      (hof : ∀ a ∈ t.sweepTables.admissions, a.id = admissionId → a.discoveryRunId = runId)
      (h : FingerprintDelivery.recoverTerminal t.sweepTables jobLive admissionId runId key at_
        newAdmission = .ok t'.sweepTables) : Step clean t t'
  | publish (t t' : SnapshotTables) (publication : Publication) (fingerprint : FingerprintFinish)
      (cursor : FingerprintSweepCursor) (g : Generated)
      (hreserved : ReservedFor t.sweepTables fingerprint.reservationId fingerprint.runId)
      (h : publication.Commits t fingerprint cursor g t') : Step clean t t'
  | elsewhere (t t' : SnapshotTables) (h : Beside t.sweepTables t'.sweepTables) : Step clean t t'

/-- No run has asked for a sweep yet. -/
def Unasked (t : SweepTables) : Prop :=
  t.admissions = [] ∧ t.reservations = [] ∧ t.states = []

inductive Reachable (clean : Bool) : SnapshotTables → Prop
  | start {t : SnapshotTables} (h : Unasked t.sweepTables) : Reachable clean t
  | step {t t' : SnapshotTables} (h : Reachable clean t) (hstep : Step clean t t') :
      Reachable clean t'

variable {clean : Bool} {t t' : SnapshotTables} {fingerprint : FingerprintFinish}
  {cursor : FingerprintSweepCursor} {g : Generated}

theorem Unasked.inv {t : SweepTables} (h : Unasked t) : ChainInv clean t := by
  obtain ⟨hadmissions, hreservations, hstates⟩ := h
  refine ⟨⟨?_, ?_, ?_⟩, ?_, ?_, ?_, ?_, ?_, ?_, ?_, ?_⟩ <;>
    simp [hadmissions, hreservations, hstates]

/-- A publication's cursor names the snapshot it publishes, which its run owns. -/
theorem finishInput_owned {t : SweepTables} (h : ChainInv clean t) {snapshotId at_ : ℕ}
    (howner : snapshotRun t snapshotId = some fingerprint.runId)
    (hreserved : ReservedFor t fingerprint.reservationId fingerprint.runId)
    {row : Reservation} {admission : Admission}
    (hfinishing : Finishing t fingerprint.reservationId row admission) {swept : SweepCursor}
    {resume : ℕ} (hcursor : (finishInput fingerprint cursor snapshotId at_).cursor = some swept)
    (hresume : swept.resumeSnapshotId = some resume) : OwnedBy t admission.key resume := by
  have hadmission := mem_of_find?_eq_some hfinishing.queued
  have hrun : admission.discoveryRunId = fingerprint.runId :=
    hreserved row (mem_of_find?_eq_some hfinishing.reserved)
      (find?_some hfinishing.reserved) admission hadmission hfinishing.named
  have hsame : resume = snapshotId := by
    unfold finishInput at hcursor
    rw [← Option.some.inj hcursor] at hresume
    obtain ⟨-, -, hsame⟩ := Option.map_eq_some_iff.mp hresume
    exact hsame.symm
  rw [hsame]
  exact ⟨fingerprint.runId, howner, hrun ▸ h.rooted admission hadmission⟩

theorem ChainInv.publish (h : ChainInv clean t.sweepTables) {publication : Publication}
    (hreserved : ReservedFor t.sweepTables fingerprint.reservationId fingerprint.runId)
    (hcommits : publication.Commits t fingerprint cursor g t') : ChainInv clean t'.sweepTables := by
  obtain ⟨before, snapshotId, at_, hbeside, hadmissions, hreservations, howner, hfinish⟩ :=
    commits_finish hcommits
  have hbefore := h.beside hbeside
  refine hbefore.finish (fun row admission hfinishing swept resume hcursor hresume => ?_) hfinish
  have hown : ReservedFor before fingerprint.reservationId fingerprint.runId := by
    unfold ReservedFor
    rw [hadmissions, hreservations]
    exact hreserved
  exact finishInput_owned hbefore howner hown hfinishing hcursor hresume

theorem ChainInv.step (h : ChainInv clean t.sweepTables) (hstep : Step clean t t') :
    ChainInv clean t'.sweepTables := by
  cases hstep with
  | requestAdmission input newAdmission newReservation outcome hroot hrequest =>
    exact h.requestAdmission hroot hrequest
  | admitWaiting runId at_ newReservation outcome hadmits => exact h.admitWaiting hadmits
  | release reservationId at_ hrelease => exact h.release hrelease
  | finish reservationId published at_ limitationCode newAdmission hfinish =>
    exact h.finish (fun _ _ _ _ _ hcursor => by cases hcursor) hfinish
  | requeueContinuation runId at_ notBefore newAdmission hrequeue =>
    exact h.requeueContinuation hrequeue
  | requeueStranded at_ maxFailures limit newAdmission hclean hrequeue =>
    exact h.requeueStranded hclean hrequeue
  | recoverTerminal jobLive admissionId runId key at_ newAdmission hof hrecover =>
    exact h.recoverTerminal hof hrecover
  | publish publication fingerprint cursor g hreserved hcommits => exact h.publish hreserved hcommits
  | elsewhere hbeside => exact h.beside hbeside

theorem Reachable.inv (h : Reachable clean t) : ChainInv clean t.sweepTables := by
  induction h with
  | start hunasked => exact hunasked.inv
  | step _ hstep ih => exact ih.step hstep

/-- What a publication that may queue the next cycle leaves of its run. -/
structure GoesOn (clean : Bool) (t t' : SweepTables) (reservationId runId : ℕ) : Prop where
  exact_ : Waits t' runId ↔ Waits t runId ∨ OnlyAdmits t reservationId runId
  waits : clean = true → Waits t' runId
  not_settled : Waits t' runId → ∀ at_ newReservation result outcome,
    admitWaiting t' runId at_ newReservation = .ok (result, outcome) → outcome ≠ .settled

/-- In a clean run a sweep's own row is the only one of its run that says `admitted`. -/
theorem ChainInv.onlyAdmits {t : SweepTables} (h : ChainInv true t) {reservationId : ℕ}
    {row : Reservation} {admission : Admission} (hfinishing : Finishing t reservationId row admission) :
    OnlyAdmits t reservationId admission.discoveryRunId := by
  have hrow := mem_of_find?_eq_some hfinishing.reserved
  have hheld := find?_some hfinishing.reserved
  have hadmission := mem_of_find?_eq_some hfinishing.queued
  obtain ⟨a, ha, hof, hadmitted⟩ := h.held row hrow (by
    simp only [Reservation.isHeld, Bool.and_eq_true] at hheld
    exact hheld.2)
  have hown : a = admission := eq_of_id_eq h.queue ha hadmission (hof.trans hfinishing.named.symm)
  intro b hb hrun hlive
  have heq := h.eq_of_live hb hadmission hrun (.inr ⟨rfl, hlive⟩)
    (.inr ⟨rfl, hown ▸ hadmitted⟩)
  exact ⟨row, hrow, hheld, by rw [heq, hfinishing.named]⟩

theorem ChainInv.goesOn (h : ChainInv clean t.sweepTables) {publication : Publication}
    (hreserved : ReservedFor t.sweepTables fingerprint.reservationId fingerprint.runId)
    (hcommits : publication.Commits t fingerprint cursor g t')
    (hcontinuation : fingerprint.continuationAdmission.isSome = true)
    (hleaves : LeavesCursor t'.sweepTables fingerprint.runId) :
    GoesOn clean t.sweepTables t'.sweepTables fingerprint.reservationId fingerprint.runId := by
  have hafterwards := h.publish hreserved hcommits
  obtain ⟨before, snapshotId, at_, hbeside, hadmissions, hreservations, howner, hfinish⟩ :=
    commits_finish hcommits
  have hbefore := h.beside hbeside
  have hruns := (finish_tables hfinish).1
  obtain ⟨row, admission, hfinishing, ⟨hunpublished, -⟩ | ⟨-, hqueue⟩⟩ := finish_cases hfinish
  · cases hunpublished
  · have hadmission := mem_of_find?_eq_some hfinishing.queued
    have hrun : admission.discoveryRunId = fingerprint.runId :=
      hreserved row (hreservations ▸ mem_of_find?_eq_some hfinishing.reserved)
        (find?_some hfinishing.reserved) admission (hadmissions ▸ hadmission)
        hfinishing.named
    have hroot : HasRoot t'.sweepTables fingerprint.runId admission.key := by
      unfold HasRoot SweepTables.findRun
      rw [hruns, ← hrun]
      exact hbefore.rooted admission hadmission
    have hopen := resume_of_leaves hafterwards hroot rfl (queueContinuation_states hqueue) hleaves
    obtain ⟨after, hafter⟩ := Option.isSome_iff_exists.mp hopen
    obtain ⟨continuation, hgiven⟩ := Option.isSome_iff_exists.mp hcontinuation
    have hresume : (finishInput fingerprint cursor snapshotId at_).cursor.bind
        SweepCursor.resumeAfter = some after := hafter
    have hwaits := finish_waits hbefore hfinishing hresume hgiven hqueue
    have hsame : Waits before fingerprint.runId ↔ Waits t.sweepTables fingerprint.runId := by
      unfold Waits
      rw [hadmissions]
    have honly : OnlyAdmits before fingerprint.reservationId fingerprint.runId ↔
        OnlyAdmits t.sweepTables fingerprint.reservationId fingerprint.runId := by
      unfold OnlyAdmits
      rw [hadmissions, hreservations]
    rw [hrun, hsame, honly] at hwaits
    refine ⟨hwaits, fun hclean => hwaits.mpr (.inr ?_), fun hwaiting _ _ _ _ => hwaiting.not_settled⟩
    subst hclean
    exact honly.mp (hrun ▸ hbefore.onlyAdmits hfinishing)

/-- However the transactions interleave, a run waits once at most; a publication that
leaves its run a cursor leaves it waiting exactly where one of its rows waits already
or no other of them still says `admitted`; and where no recovery sweep queues behind
an admitted row, it always does. -/
theorem publications_queue_next_cycle (t : SnapshotTables) :
    (Reachable false t → ∀ runId,
      t.admissions.countP (fun a => a.discoveryRunId = runId && a.isWaiting) ≤ 1) ∧
    ∀ clean t' fingerprint cursor g, ∀ publication : Publication, Reachable clean t →
      ReservedFor t.sweepTables fingerprint.reservationId fingerprint.runId →
      publication.Commits t fingerprint cursor g t' →
      fingerprint.continuationAdmission.isSome = true →
      LeavesCursor t'.sweepTables fingerprint.runId →
        GoesOn clean t.sweepTables t'.sweepTables fingerprint.reservationId fingerprint.runId := by
  constructor
  · intro hreachable runId
    exact hreachable.inv.waiting_one runId
  · intro clean t' fingerprint cursor g publication hreachable hreserved hcommits hcontinuation
      hleaves
    exact hreachable.inv.goesOn hreserved hcommits hcontinuation hleaves

/-! One run that asks for a sweep and publishes, and whose second cycle stops without
a word: its reservation expires, and a recovery sweep queues the third behind it. -/

def chainKey : CharacterKey := ⟨.eu, "draenor", "thrall"⟩

def chainInput : AdmissionInput := ⟨1, chainKey, 10, 100, 0, 0, false⟩

def chainFinish (reservationId finishedAt : ℕ) : FingerprintFinish where
  runId := 1
  reservationId := reservationId
  finishedAt := some finishedAt
  limitationCode := some "request_cap"
  continuationAdmission := some ⟨10, 100, 0⟩

def chainCursor (resumeAfter : String) : FingerprintSweepCursor where
  resumeAfter := some resumeAfter
  limitationCode := some "request_cap"
  historicalGuilds := []
  excludedTournamentCharacterIds := []
  advanced := true

def chainSnapshot : CreateSnapshotInput :=
  { sampleInput with state := .incomplete, limitationCode := some "request_cap" }

/-- The rows a sweep transaction leaves, which writes no run here. -/
def swept (t : SnapshotTables) (work : Except SweepError SweepTables) : SnapshotTables :=
  match work with
  | .ok written => t.withSweepTables written
  | .error _ => t

def askedTables : SnapshotTables :=
  swept sampleTables ((requestAdmission sampleTables.sweepTables chainInput 1 1).map Prod.fst)

def publishedTables : SnapshotTables :=
  withTransaction askedTables (createAndFinishFingerprintSweep askedTables chainSnapshot
    (chainFinish 1 10) (chainCursor "a") ⟨10, fun n => n + 20, 7, 2⟩)

def secondTables : SnapshotTables :=
  swept publishedTables ((admitWaiting publishedTables.sweepTables 1 20 2).map Prod.fst)

/-- The second reservation expired a moment ago. -/
def requeuedTables : SnapshotTables :=
  swept secondTables
    (requeueStrandedContinuations secondTables.sweepTables (hour + 30) 5 10 (fun n => n + 3))

def thirdTables : SnapshotTables :=
  swept requeuedTables ((admitWaiting requeuedTables.sweepTables 1 (hour + 40) 3).map Prod.fst)

def amendedTables : SnapshotTables :=
  withTransaction thirdTables (amendAndFinishFingerprintSweep thirdTables 7 [] (chainFinish 3 (hour + 50))
    (chainCursor "b") ⟨hour + 50, fun n => n + 20, 8, 4⟩)

theorem commits_create {t : SnapshotTables} {input : CreateSnapshotInput}
    {fingerprint : FingerprintFinish} {cursor : FingerprintSweepCursor} {g : Generated}
    (hrun : fingerprint.runId = input.runId)
    (hok : (createAndFinishFingerprintSweep t input fingerprint cursor g).isOk = true) :
    (Publication.create input).Commits t fingerprint cursor g
      (withTransaction t (createAndFinishFingerprintSweep t input fingerprint cursor g)) := by
  cases hwork : createAndFinishFingerprintSweep t input fingerprint cursor g with
  | error e =>
    rw [hwork] at hok
    cases hok
  | ok written => exact ⟨hrun, written.2, hwork⟩

theorem commits_amend {t : SnapshotTables} {snapshotId : ℕ}
    {characters : List SnapshotCharacterInput} {fingerprint : FingerprintFinish}
    {cursor : FingerprintSweepCursor} {g : Generated}
    (hok : ((amendAndFinishFingerprintSweep t snapshotId characters fingerprint cursor g).map
      (fun written => written.2.isSome)) = .ok true) :
    (Publication.amend snapshotId characters).Commits t fingerprint cursor g
      (withTransaction t
        (amendAndFinishFingerprintSweep t snapshotId characters fingerprint cursor g)) := by
  cases hwork : amendAndFinishFingerprintSweep t snapshotId characters fingerprint cursor g with
  | error e =>
    rw [hwork] at hok
    cases hok
  | ok written =>
    rw [hwork] at hok
    obtain ⟨snapshot, hsnapshot⟩ := Option.isSome_iff_exists.mp (Except.ok.inj hok)
    refine ⟨snapshot, ?_⟩
    rw [hwork, ← hsnapshot]
    rfl

theorem reachable_askedTables (clean : Bool) : Reachable clean askedTables :=
  .step (.start (t := sampleTables) ⟨rfl, rfl, rfl⟩)
    (.requestAdmission _ _ chainInput 1 1 (.admitted 1 10 (some 10) (some 100)) rfl rfl)

theorem reservedFor_askedTables : ReservedFor askedTables.sweepTables 1 1 := by
  unfold ReservedFor
  decide +kernel

theorem commits_publishedTables :
    (Publication.create chainSnapshot).Commits askedTables (chainFinish 1 10) (chainCursor "a")
      ⟨10, fun n => n + 20, 7, 2⟩ publishedTables :=
  commits_create rfl (by decide +kernel)

theorem publications_queue_next_cycle_first : Waits publishedTables.sweepTables 1 :=
  ((publications_queue_next_cycle _).2 true _ _ _ _ _ (reachable_askedTables true)
    reservedFor_askedTables commits_publishedTables rfl (by decide +kernel)).waits rfl

theorem reachable_thirdTables : Reachable false thirdTables := by
  have hpublished : Reachable false publishedTables :=
    (reachable_askedTables false).step
      (.publish _ _ _ _ _ _ reservedFor_askedTables commits_publishedTables)
  have hsecond : Reachable false secondTables :=
    hpublished.step (.admitWaiting _ _ 1 20 2 .admitted rfl)
  have hrequeued : Reachable false requeuedTables :=
    hsecond.step (.requeueStranded _ _ (hour + 30) 5 10 (fun n => n + 3) (fun h => by cases h) rfl)
  exact hrequeued.step (.admitWaiting _ _ 1 (hour + 40) 3 .admitted rfl)

/-- The third cycle publishes, leaves its run a cursor, and queues no fourth: the
admission job that follows finds the run settled. -/
theorem requeued_publication_queues_none :
    ¬ ∀ t t' fingerprint cursor g, ∀ publication : Publication, Reachable false t →
      ReservedFor t.sweepTables fingerprint.reservationId fingerprint.runId →
      publication.Commits t fingerprint cursor g t' →
      fingerprint.continuationAdmission.isSome = true →
      LeavesCursor t'.sweepTables fingerprint.runId →
        Waits t'.sweepTables fingerprint.runId ∧
          ∀ at_ newReservation result outcome, admitWaiting t'.sweepTables fingerprint.runId at_
            newReservation = .ok (result, outcome) → outcome ≠ .settled := by
  intro h
  have hreserved : ReservedFor thirdTables.sweepTables 3 1 := by
    unfold ReservedFor
    decide +kernel
  have hcommits : (Publication.amend 7 []).Commits thirdTables (chainFinish 3 (hour + 50))
      (chainCursor "b") ⟨hour + 50, fun n => n + 20, 8, 4⟩ amendedTables :=
    commits_amend (by decide +kernel)
  have hnone : ¬ Waits amendedTables.sweepTables 1 := by decide +kernel
  exact hnone (h _ _ _ _ _ _ reachable_thirdTables hreserved hcommits rfl (by decide +kernel)).1

end SlashWho.FingerprintContinuations
