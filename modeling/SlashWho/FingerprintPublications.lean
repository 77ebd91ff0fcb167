import SlashWho.FingerprintContinuations
import SlashWho.SnapshotMembers

/-!
The transactions of fingerprint chains beside the two publications that move a chain's cursor. A row
that a recovery sweep queued behind after its reservation expired says `admitted` for good, so the
next cycle is queued exactly where the publication's own row is the last to say so, or one is
waiting.
-/

namespace SlashWho.FingerprintContinuations

open List FingerprintSweeps Fallible Snapshots

variable {t t' : SnapshotTables}

theorem upsertCharacter_view {character : SnapshotCharacterInput} {newCharacter id : ℕ}
    (h : upsertCharacter t character newCharacter = .ok (t', id)) :
    t'.sweepTables = t.sweepTables := by
  unfold upsertCharacter at h
  split at h
  · obtain ⟨hrows, -⟩ := Prod.mk.inj (Except.ok.inj h)
    rw [← hrows]
    rfl
  · split at h
    · cases h
    · obtain ⟨hrows, -⟩ := Prod.mk.inj (Except.ok.inj h)
      rw [← hrows]
      rfl

variable {characters : List SnapshotCharacterInput} {characterIds : OrderedMap String ℕ}

theorem upsertCharacters_view {newCharacter : ℕ → ℕ}
    (h : upsertCharacters t characters newCharacter = .ok (t', characterIds)) :
    t'.sweepTables = t.sweepTables := by
  unfold upsertCharacters at h
  refine foldlM_keeps (f := upsertNext newCharacter)
    (P := fun acc => acc.1.sweepTables = t.sweepTables) (fun item _ acc acc' hacc hstep => ?_) rfl h
  unfold upsertNext at hstep
  obtain ⟨⟨written, id⟩, hwrite, hdone⟩ := ok_of_bind_ok hstep
  rw [← Except.ok.inj hdone]
  exact (upsertCharacter_view hwrite).trans hacc

variable {snapshotId : ℕ}

theorem insertMembership_view {first : ℕ}
    (h : insertMembership t snapshotId first characters characterIds = .ok t') :
    t'.sweepTables = t.sweepTables := by
  unfold insertMembership at h
  refine foldlM_keeps (f := insertMember snapshotId first characterIds)
    (P := fun acc => acc.sweepTables = t.sweepTables) (fun item _ acc acc' hacc hstep => ?_) rfl h
  unfold insertMember at hstep
  split at hstep
  · cases hstep
  · split at hstep
    · cases hstep
    · rw [← Except.ok.inj hstep]
      exact hacc

variable {snapshot : StoredSnapshot}

theorem loadSnapshot_id {now id : ℕ} (h : loadSnapshot t now id = some snapshot) :
    snapshot.id = id := by
  unfold loadSnapshot at h
  obtain ⟨row, hrow, h⟩ := Option.bind_eq_some_iff.mp h
  obtain ⟨root, -, h⟩ := Option.bind_eq_some_iff.mp h
  have hid := find?_some hrow
  split at h
  · cases h
  · rw [← Option.some.inj h]
    exact of_decide_eq_true hid

def completed (runId : ℕ) (run : DiscoveryRun) : DiscoveryRun :=
  if run.id = runId && run.active then { run with status := .complete } else run

theorem completed_root (runId : ℕ) (run : DiscoveryRun) :
    (completed runId run).id = run.id ∧ (completed runId run).rootKey = run.rootKey := by
  unfold completed
  split
  · exact ⟨rfl, rfl⟩
  · exact ⟨rfl, rfl⟩

theorem publishRun_view {runId now : ℕ} (h : publishRun t runId snapshotId now = .ok t') :
    t'.sweepTables =
      { t.sweepTables with runs := t.sweepTables.runs.map (completed runId) } := by
  unfold publishRun at h
  split at h
  · rw [← Except.ok.inj h]
    simp only [SnapshotTables.sweepTables, map_map, SweepTables.mk.injEq, and_true]
    refine map_congr_left fun run _ => ?_
    simp only [Function.comp_apply, completed]
    by_cases hactive : activeRun runId run = true
    · rw [if_pos hactive]
      exact (if_pos hactive).symm
    · rw [if_neg hactive]
      exact (if_neg hactive).symm
  · cases h

theorem setRootCharacter_view (t : SnapshotTables) (runId rootId : ℕ) :
    (setRootCharacter t runId rootId).sweepTables = t.sweepTables := by
  simp only [SnapshotTables.sweepTables, setRootCharacter, map_map, SweepTables.mk.injEq,
    and_true]
  refine map_congr_left fun run _ => ?_
  simp only [Function.comp_apply]
  split <;> rfl

theorem createSnapshot_view {input : CreateSnapshotInput} {g : Generated}
    (h : createSnapshot t input g = .ok (t', snapshot)) :
    snapshot.id ∉ t.sweepTables.snapshots.map Snapshot.id ∧
      t'.sweepTables = { t.sweepTables with
        runs := t.sweepTables.runs.map (completed input.runId)
        snapshots := t.sweepTables.snapshots ++ [⟨snapshot.id, input.runId⟩] } := by
  unfold createSnapshot at h
  split at h
  · cases h
  · obtain ⟨⟨upserted, characterIds⟩, hupserted, h⟩ := ok_of_bind_ok h
    dsimp only at h
    split at h
    · cases h
    · obtain ⟨inserted, hinserted, h⟩ := ok_of_bind_ok h
      obtain ⟨joined, hjoined, h⟩ := ok_of_bind_ok h
      obtain ⟨published, hpublished, h⟩ := ok_of_bind_ok h
      split at h
      · cases h
      · next loaded hloaded =>
        obtain ⟨hrows, hsnapshot⟩ := Prod.mk.inj (Except.ok.inj h)
        obtain ⟨hnew, hfresh⟩ := insertSnapshot_ok hinserted
        have hview := upsertCharacters_view hupserted
        rw [← hsnapshot, loadSnapshot_id hloaded, ← hview]
        refine ⟨by simpa [SnapshotTables.sweepTables, Function.comp_def] using hfresh, ?_⟩
        rw [← hrows, publishRun_view hpublished, insertMembership_view hjoined,
          setRootCharacter_view, hnew]
        simp [SnapshotTables.sweepTables]

theorem amendSnapshot_view (t : SnapshotTables) (snapshotId appended : ℕ)
    (limitationCode : Option String) :
    SnapshotTables.sweepTables { t with
      snapshots := t.snapshots.map (amendSnapshot snapshotId appended limitationCode) } =
      t.sweepTables := by
  simp only [SnapshotTables.sweepTables, map_map, SweepTables.mk.injEq, and_true, true_and]
  refine map_congr_left fun s _ => ?_
  simp only [Function.comp_apply, amendSnapshot]
  split <;> rfl

theorem snapshotRun_of_owner {root : CharacterRow} {runId : ℕ}
    (h : ownsSweepCursor t root.key snapshotId runId = true) :
    snapshotRun t.sweepTables snapshotId = some runId := by
  unfold ownsSweepCursor at h
  split at h
  · cases h
  · simp only [Bool.and_eq_true, decide_eq_true_eq] at h
    obtain ⟨hresume, hrun⟩ := h
    rw [hresume, Option.bind_some] at hrun
    unfold snapshotRun SnapshotTables.sweepTables
    rw [find?_map, Option.map_map]
    exact hrun

theorem createSnapshot_beside {input : CreateSnapshotInput} {g : Generated}
    (h : createSnapshot t input g = .ok (t', snapshot)) :
    Beside t.sweepTables t'.sweepTables ∧
      snapshotRun t'.sweepTables snapshot.id = some input.runId := by
  obtain ⟨hfresh, hview⟩ := createSnapshot_view h
  rw [hview]
  refine ⟨{ beside_runs t.sweepTables (completed_root input.runId) with snapshots := ?_ }, ?_⟩
  · intro snapshotId runId hrun
    obtain ⟨s, hfound, hof⟩ := Option.map_eq_some_iff.mp hrun
    unfold snapshotRun
    rw [find?_append, hfound]
    exact congrArg some hof
  · unfold snapshotRun
    have hnone : t.sweepTables.snapshots.find? (fun s => s.id = snapshot.id) = none := by
      rw [find?_eq_none]
      intro s hs hsame
      exact hfresh (mem_map.mpr ⟨s, hs, of_decide_eq_true hsame⟩)
    rw [find?_append, hnone]
    simp

/-! ### Publications -/

/-- Publications commit a snapshot with the end of its sweep: a new one, or one that
a later cycle amends. -/
inductive Publication
  | create (input : CreateSnapshotInput)
  | amend (snapshotId : ℕ) (characters : List SnapshotCharacterInput)

/-- The publication commits. An amend by a caller that does not own the cursor writes
nothing and is told so. -/
def Publication.Commits (publication : Publication) (t : SnapshotTables)
    (fingerprint : FingerprintFinish) (cursor : FingerprintSweepCursor) (g : Generated)
    (t' : SnapshotTables) : Prop :=
  match publication with
  | .create input =>
    fingerprint.runId = input.runId ∧ ∃ snapshot,
      createAndFinishFingerprintSweep t input fingerprint cursor g = .ok (t', snapshot)
  | .amend snapshotId characters =>
    ∃ snapshot, amendAndFinishFingerprintSweep t snapshotId characters fingerprint cursor g =
      .ok (t', some snapshot)

/-- A sweep publishes under the reservation its own run was admitted with. -/
def ReservedFor (t : SweepTables) (reservationId runId : ℕ) : Prop :=
  ∀ r ∈ t.reservations, r.isHeld reservationId = true →
    ∀ a ∈ t.admissions, a.id = r.admissionId → a.discoveryRunId = runId

variable {admittedToo : Bool} {fingerprint : FingerprintFinish} {cursor : FingerprintSweepCursor}
  {g : Generated}

theorem finish_tables {t t' : SweepTables} {reservationId newAdmission : ℕ} {input : FinishInput}
    (h : finishFingerprintSweep t reservationId input newAdmission = .ok t') :
    t'.runs = t.runs ∧ t'.snapshots = t.snapshots := by
  obtain ⟨row, admission, -, ⟨-, rfl⟩ | ⟨-, hqueue⟩⟩ := finish_cases h
  · exact ⟨rfl, rfl⟩
  · obtain ⟨hruns, -, hsnapshots⟩ :=
      writeSweepState_tables (finishRow t reservationId row input) admission.key input
    unfold queueContinuation at hqueue
    split at hqueue
    · split at hqueue
      · rw [← Except.ok.inj hqueue]
        exact ⟨hruns, hsnapshots⟩
      · obtain ⟨queued, -, rfl⟩ := insertAdmission_row hqueue
        exact ⟨hruns, hsnapshots⟩
    · rw [← Except.ok.inj hqueue]
      exact ⟨hruns, hsnapshots⟩

theorem finishSweep_view {snapshotId at_ : ℕ}
    (h : finishSweep t fingerprint cursor snapshotId at_ g = .ok t') :
    finishFingerprintSweep t.sweepTables fingerprint.reservationId
      (finishInput fingerprint cursor snapshotId at_) g.newAdmission = .ok t'.sweepTables := by
  unfold finishSweep at h
  split at h
  · cases h
  · next finished hfinished =>
    obtain ⟨hruns, hsnapshots⟩ := finish_tables hfinished
    have hview : (t.withSweepTables finished).sweepTables =
        { finished with runs := t.sweepTables.runs, snapshots := t.sweepTables.snapshots } := rfl
    rw [← Except.ok.inj h, hview, ← hruns, ← hsnapshots]
    exact hfinished

theorem beside_refl (t : SweepTables) : Beside t t where
  admissions := ⟨id, (map_id _).symm, fun _ => ⟨⟨rfl, rfl, rfl, rfl⟩, rfl, rfl⟩⟩
  nextQueueOrder := rfl
  reservations := ⟨id, (map_id _).symm, fun _ => ⟨rfl, rfl, rfl⟩⟩
  states := ⟨id, (map_id _).symm, fun _ => ⟨rfl, rfl⟩⟩
  roots := fun _ _ hroot => hroot
  snapshots := fun _ _ hrun => hrun

/-- Whatever a publication does first leaves the chains as they were, and the
snapshot it then finishes is its run's. -/
theorem commits_finish {publication : Publication}
    (h : publication.Commits t fingerprint cursor g t') :
    ∃ before snapshotId at_, Beside t.sweepTables before ∧
      before.admissions = t.sweepTables.admissions ∧
      before.reservations = t.sweepTables.reservations ∧
      snapshotRun before snapshotId = some fingerprint.runId ∧
      finishFingerprintSweep before fingerprint.reservationId
        (finishInput fingerprint cursor snapshotId at_) g.newAdmission = .ok t'.sweepTables := by
  cases publication with
  | create input =>
    obtain ⟨hrun, snapshot, h⟩ := h
    unfold createAndFinishFingerprintSweep at h
    split at h
    · cases h
    · next at_ _ =>
      obtain ⟨⟨created, made⟩, hcreated, h⟩ := ok_of_bind_ok h
      obtain ⟨finished, hfinished, h⟩ := ok_of_bind_ok h
      obtain ⟨hrows, hmade⟩ := Prod.mk.inj (Except.ok.inj h)
      obtain ⟨hbeside, howner⟩ := createSnapshot_beside hcreated
      obtain ⟨-, hview⟩ := createSnapshot_view hcreated
      refine ⟨created.sweepTables, made.id, at_, hbeside, ?_, ?_, ?_, ?_⟩
      · rw [hview]
      · rw [hview]
      · rw [hrun]
        exact howner
      · rw [← hrows]
        exact finishSweep_view hfinished
  | amend snapshotId characters =>
    obtain ⟨snapshot, h⟩ := h
    unfold amendAndFinishFingerprintSweep at h
    split at h
    · cases h
    · next at_ _ =>
      split at h
      · cases h
      · split at h
        · cases h
        · next root _ howns =>
          obtain ⟨⟨upserted, characterIds⟩, hupserted, h⟩ := ok_of_bind_ok h
          obtain ⟨joined, hjoined, h⟩ := ok_of_bind_ok h
          obtain ⟨finished, hfinished, h⟩ := ok_of_bind_ok h
          split at h
          · cases h
          · obtain ⟨hrows, -⟩ := Prod.mk.inj (Except.ok.inj h)
            have hbefore := (amendSnapshot_view joined snapshotId
              (additionsFrom (((t.members snapshotId).filterMap t.memberKey).map
                characterIdentity) characters).length fingerprint.limitationCode).trans
              ((insertMembership_view hjoined).trans (upsertCharacters_view hupserted))
            refine ⟨t.sweepTables, snapshotId, at_, beside_refl _, rfl, rfl,
              snapshotRun_of_owner (by simpa using howns), ?_⟩
            rw [← hrows, ← hbefore]
            exact finishSweep_view hfinished

end SlashWho.FingerprintContinuations
