import SlashWho.FingerprintBacklog
import SlashWho.FingerprintWrites

/-!
The dispatch loop in every state the admissions can be in. A row that no job has claimed yet
carries what its insertion, or the upgrade of a row from before deliveries were identified,
gave it: no attempt made, five to make, and what kind of job it is dispatched as. So the job
the loop sends for a row names a delivery that will be accepted as the first attempt.
-/

namespace SlashWho.FingerprintBacklog

open List FingerprintSweeps FingerprintDelivery FingerprintFence FingerprintWrites

/-- A row as the migration that added the delivery columns left it. -/
def Unidentified (a : Admission) : Prop :=
  a.attemptBase = none ∧ a.executionJobId = none ∧ a.executionAttempt = 0

def Migrated (t : SweepTables) : Prop := QueueInv t ∧ ∀ a ∈ t.admissions, Unidentified a

def AllIdentified (t : SweepTables) : Prop := ∀ a ∈ t.admissions, Identified a

variable {t t' : SweepTables}

theorem AllIdentified.update (h : AllIdentified t) (p : Admission → Bool)
    {f : Admission → Admission} (hf : ∀ a, Identified a → Identified (f a)) :
    AllIdentified (t.updateAdmissions p f) := by
  intro a' ha'
  obtain ⟨a, ha, rfl⟩ := mem_map.mp ha'
  split
  · exact hf a (h a ha)
  · exact h a ha

theorem AllIdentified.write (h : AllIdentified t) (hwrite : Write t t') : AllIdentified t' := by
  cases hwrite with
  | rows p f hf => exact h.update p (fun a => (hf a).delivery)
  | insert hinsert =>
    unfold insertAdmission at hinsert
    split at hinsert
    · cases hinsert
    · split at hinsert
      · cases hinsert
      · obtain rfl := Except.ok.inj hinsert
        intro a ha
        rcases mem_append.mp ha with hold | hnew
        · exact h a hold
        · rw [mem_singleton.mp hnew]
          exact fun _ => ⟨rfl, fun _ => ⟨rfl, rfl⟩⟩
  | grant hreserve hin hid =>
    rw [insertReservation_ok hreserve]
    exact AllIdentified.update h _ (fun a ha => ha)
  | reservations | beside => exact h

theorem inv_of_reachable (h : Reachable Migrated t) : QueueInv t ∧ AllIdentified t := by
  have hstart : ∀ t, Migrated t → QueueInv t ∧ AllIdentified t := by
    intro t hmigrated
    refine ⟨hmigrated.1, ?_⟩
    intro a ha hjob
    obtain ⟨hbase, -, hattempt⟩ := hmigrated.2 a ha
    refine ⟨hattempt, ?_⟩
    rw [hbase]
    intro hsome
    cases hsome
  have hwrite : ∀ t t', QueueInv t ∧ AllIdentified t → Write t t' →
      QueueInv t' ∧ AllIdentified t' :=
    fun t t' hinv hwrite => ⟨queueInv_write hinv.1 hwrite, hinv.2.write hwrite⟩
  exact h.keeps hstart hwrite

/-! ### What the loop sends -/

/-- The queue tries a discovery job this often again. -/
def retryLimit : ℕ := 4

/-- The first delivery of a job. -/
def DiscoverCharacterJob.delivery (job : DiscoverCharacterJob) (jobId : ℕ) : ExecuteInput where
  runId := job.runId
  admissionId := job.admissionId
  jobId := jobId
  attempt := 1
  maxAttempts := retryLimit + 1

variable {a : Admission} {run : DiscoveryRun}

theorem accept_of_owed (hinv : QueueInv t) (ha : a ∈ t.admissions) (howed : Owed t a)
    (hidentified : Identified a) (hrun : t.findRun a.discoveryRunId = some run)
    (hordinary : a.dispatchKind = some .ordinary → run.attempt = a.attemptBase.getD 0)
    (hcontinues : a.dispatchKind = some .continuation →
      ownsCursor t run.rootKey a.discoveryRunId = true) (jobId token at_ : ℕ) :
    ∃ accepted, accept t ((jobOf a.discoveryRunId run a).delivery jobId) token at_ =
      some (accepted, a.attemptBase.getD 0) := by
  obtain ⟨hattempt, hdelivery⟩ := hidentified howed.executionJobId
  obtain ⟨hmax, hkind⟩ := hdelivery howed.attemptBase
  let input := (jobOf a.discoveryRunId run a).delivery jobId
  have hexecutable : executable t input a = true := by
    have hstatus : a.status ≠ .waiting := by
      intro hwaiting
      rcases howed.status with h | h <;> rw [h] at hwaiting <;> cases hwaiting
    simp [executable, input, DiscoverCharacterJob.delivery, jobOf, retryLimit, hattempt, hmax,
      hstatus, howed.consumedAt, howed.executionJobId, howed.attemptBase, howed.newest]
  have hfound : t.admissions.find? (executable t input) = some a := by
    cases hfind : t.admissions.find? (executable t input) with
    | none => exact absurd hexecutable (find?_eq_none.mp hfind a ha)
    | some b =>
      have hb := find?_some hfind
      simp only [executable, Bool.and_eq_true, decide_eq_true_eq] at hb
      have hid : b.id = a.id := hb.1.1.1.1.1.1.1.1.1
      rw [eq_of_id_eq hinv (mem_of_find?_eq_some hfind) ha hid]
  have hruns : t.findRun input.runId = some run := hrun
  change ∃ accepted, accept t input token at_ = _
  unfold accept
  rw [hruns, hfound]
  simp only
  by_cases hkindIs : a.dispatchKind = some .ordinary
  · have hclaim : t.runs.any (claimable input.runId (a.attemptBase.getD 0 + input.attempt)) =
        true := by
      have hmem := mem_of_find?_eq_some hrun
      have hrunId := find?_some hrun
      have hactive : run.active = true := by
        have hawaits := howed.awaits
        unfold runAwaits at hawaits
        rw [hrun] at hawaits
        simpa [hkindIs] using hawaits
      refine any_eq_true.mpr ⟨run, hmem, ?_⟩
      unfold claimable
      rw [hactive, hordinary hkindIs]
      have hlt : a.attemptBase.getD 0 < a.attemptBase.getD 0 + input.attempt :=
        Nat.lt_succ_self _
      simp only [Bool.and_true, Bool.and_eq_true, decide_eq_true_eq]
      exact ⟨of_decide_eq_true hrunId, hlt⟩
    rw [if_pos hkindIs, if_pos hclaim]
    exact ⟨_, rfl⟩
  · have hcontinuation : a.dispatchKind = some .continuation := by
      cases hkindOf : a.dispatchKind with
      | none =>
        rw [hkindOf] at hkind
        cases hkind
      | some kind =>
        cases kind with
        | ordinary => exact absurd hkindOf hkindIs
        | continuation => rfl
    have howns : ownsCursor t run.rootKey input.runId = true := hcontinues hcontinuation
    rw [if_neg hkindIs, if_pos howns]
    exact ⟨_, rfl⟩

theorem mem_jobsOf {rows : List Admission} {job : DiscoverCharacterJob} :
    job ∈ jobsOf t rows ↔ ∃ a ∈ rows, ∃ run, t.findRun a.discoveryRunId = some run ∧
      jobOf a.discoveryRunId run a = job := by
  unfold jobsOf
  rw [mem_filterMap]
  simp only [Option.map_eq_some_iff]

theorem jobsOf_admissions {rows : List Admission} (h : ∀ a ∈ rows, isListed t a = true) :
    (jobsOf t rows).map DiscoverCharacterJob.admissionId = rows.map Admission.id := by
  induction rows with
  | nil => rfl
  | cons a rest ih =>
    obtain ⟨run, hrun⟩ := exists_run (h a mem_cons_self)
    have hrest := ih (fun b hb => h b (mem_cons_of_mem _ hb))
    unfold jobsOf at hrest ⊢
    rw [filterMap_cons, hrun, Option.map_some]
    simp only [map_cons, hrest]
    rfl

/-- The loop ends with nothing listed. It has sent every listed row once and no other, each is
the row its run is described by, and each job is accepted as its first delivery. -/
theorem backlog_dispatched (h : Reachable Migrated t) (clock : ℕ → ℕ) :
    (∀ a ∈ undispatched t, descriptor t a.discoveryRunId = some a ∧
      ∀ at_, undispatched (markDispatched t a.id at_) =
        (undispatched t).filter (fun b => decide (b.id ≠ a.id))) ∧
    ∃ t' jobs, (∀ rounds, (undispatched t).length < rounds →
        drainAdmitted clock rounds t = some (t', jobs)) ∧
      listAdmittedUndispatched t' 100 = [] ∧
      jobs.map DiscoverCharacterJob.admissionId = (undispatched t).map Admission.id ∧
      ((undispatched t).map Admission.id).Nodup ∧
      ∀ job ∈ jobs, ∃ run, t.findRun job.runId = some run ∧ job.key = run.rootKey ∧
        ((job.continuation = false → run.attempt = job.attemptBase) →
          (job.continuation = true → ownsCursor t run.rootKey job.runId = true) →
          ∀ jobId token at_, ∃ accepted,
            accept t (job.delivery jobId) token at_ = some (accepted, job.attemptBase)) := by
  obtain ⟨hinv, hidentified⟩ := inv_of_reachable h
  refine ⟨?_, ?_⟩
  · intro a ha
    obtain ⟨hin, hlisted⟩ := mem_undispatched.mp ha
    exact ⟨descriptor_of_listed hinv hin hlisted, undispatched_markDispatched hinv hin hlisted⟩
  obtain ⟨t', hdrained, hnone, -⟩ := drainAdmitted_ends clock hinv
  refine ⟨t', jobsOf t (undispatched t), hdrained, ?_, ?_, nodup_undispatched hinv, ?_⟩
  · unfold listAdmittedUndispatched
    rw [hnone]
    rfl
  · exact jobsOf_admissions (fun a ha => (mem_undispatched.mp ha).2)
  · intro job hjob
    obtain ⟨a, ha, run, hrun, hjobOf⟩ := mem_jobsOf.mp hjob
    subst hjobOf
    obtain ⟨hin, hlisted⟩ := mem_undispatched.mp ha
    refine ⟨run, hrun, rfl, ?_⟩
    intro hordinary hcontinues jobId token at_
    refine accept_of_owed hinv hin (isListed_iff.mp hlisted).1 (hidentified a hin) hrun ?_ ?_
      jobId token at_
    · intro hkind
      exact hordinary (by simp [jobOf, hkind])
    · intro hkind
      exact hcontinues (by simp [jobOf, hkind])

def runningTables : SweepTables :=
  ⟨[⟨7, ⟨.eu, "draenor", "ryii"⟩, .running, 1⟩], [], [], [], [], [], 0⟩

def firstRequest : AdmissionInput := ⟨7, ⟨.eu, "draenor", "ryii"⟩, 10, 100, 0, 5, false⟩

theorem migrated_running : Migrated runningTables :=
  ⟨⟨nodup_nil, List.Pairwise.nil, fun _ ha => absurd ha not_mem_nil⟩,
    fun _ ha => absurd ha not_mem_nil⟩

/-- The tables once the running run's request was admitted, and no job was bound to it. -/
def admittedTables : SweepTables :=
  match FingerprintSweeps.requestAdmission runningTables firstRequest 1 2 with
  | .ok (t, _) => t
  | .error _ => runningTables

theorem backlog_dispatched_admitted :
    (undispatched admittedTables).length = 1 ∧
    (∀ a ∈ undispatched admittedTables, descriptor admittedTables a.discoveryRunId = some a ∧
      ∀ at_, undispatched (markDispatched admittedTables a.id at_) =
        (undispatched admittedTables).filter (fun b => decide (b.id ≠ a.id))) ∧
    ∃ t' jobs, (∀ rounds, (undispatched admittedTables).length < rounds →
        drainAdmitted id rounds admittedTables = some (t', jobs)) ∧
      listAdmittedUndispatched t' 100 = [] ∧
      jobs.map DiscoverCharacterJob.admissionId =
        (undispatched admittedTables).map Admission.id ∧
      ((undispatched admittedTables).map Admission.id).Nodup ∧
      ∀ job ∈ jobs, ∃ run, admittedTables.findRun job.runId = some run ∧ job.key = run.rootKey ∧
        ((job.continuation = false → run.attempt = job.attemptBase) →
          (job.continuation = true → ownsCursor admittedTables run.rootKey job.runId = true) →
          ∀ jobId token at_, ∃ accepted, accept admittedTables (job.delivery jobId) token at_ =
            some (accepted, job.attemptBase)) :=
  ⟨by decide +kernel, backlog_dispatched
    ((Reachable.start migrated_running).step (.requestAdmission runningTables admittedTables
      firstRequest 1 2 (.admitted 2 10 (some 10) (some 100)) rfl)) id⟩

end SlashWho.FingerprintBacklog
