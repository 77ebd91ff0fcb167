import SlashWho.EvidenceReservations
import SlashWho.SearchCharges

/-!
Discovery runs as they are reserved and as they end, each operation of the
repositories being one transaction. A run publishes a snapshot of its own, or
completes with the snapshot that its root's sweep cursor is still extending,
which another run published; a reservation finds a root fresh by the snapshots
alone. No run and no snapshot is ever removed, and a complete run stays so.
-/

namespace SlashWho.DiscoveryReservations

open Characters EvidenceMerge EvidenceRetryPolicy
open EvidenceReservations (dateOf)
open EvidenceRuns.Store (uniqueViolation)
open SearchCharges (Status)

structure DiscoveryRun where
  rootKey : CharacterKey
  status : Status
  attempt : ℕ
  queueJobId : Option String
  snapshotId : Option ℕ
  createdAt : Instant
  deriving DecidableEq

structure Snapshot where
  root : CharacterKey
  discoveryRunId : ℕ
  refreshedAt : Instant

/-- Where a root's fingerprint sweep resumes, and the snapshot it extends. -/
structure SweepState where
  resumeAfter : Option String
  resumeSnapshotId : Option ℕ

structure RateLimitEvent where
  callerBucketHash : String
  discoveryRunId : ℕ
  expiresAt : Instant

structure DiscoveryTables where
  runs : OrderedMap ℕ DiscoveryRun
  snapshots : OrderedMap ℕ Snapshot
  sweepStates : OrderedMap CharacterKey SweepState
  /-- When each suppression expires, if it does. -/
  suppressed : OrderedMap CharacterKey (Option Instant)
  negative : OrderedMap CharacterKey Instant
  charges : List RateLimitEvent

namespace DiscoveryTables

def empty : DiscoveryTables := ⟨.empty, .empty, .empty, .empty, .empty, []⟩

variable (t : DiscoveryTables)

variable (key : CharacterKey)

/-- `suppressions.isActive` -/
def isSuppressed (at_ : Instant) : Bool :=
  match t.suppressed.get? key with
  | none => false
  | some none => true
  | some (some expiresAt) => at_ < expiresAt

/-- The root has a snapshot, of a complete run, refreshed after the cutoff. -/
def hasCurrent (freshnessCutoff : ℤ) : Bool :=
  t.snapshots.values.any (fun snapshot =>
    snapshot.root = key && freshnessCutoff < (snapshot.refreshedAt : ℤ) &&
      (t.runs.get? snapshot.discoveryRunId).any (fun run => run.status = .complete))

def isNegative (at_ : Instant) : Bool :=
  (t.negative.get? key).any (fun expiresAt => at_ < expiresAt)

def activeRun : Option (ℕ × DiscoveryRun) :=
  t.runs.entries.find? (fun entry => entry.2.rootKey = key && entry.2.status.active)

def setRun (id : ℕ) (run : DiscoveryRun) : DiscoveryTables := { t with runs := t.runs.set id run }

end DiscoveryTables

structure ReserveInput where
  key : CharacterKey
  callerBucketHash : String
  limit : ℕ
  now : Instant
  expiresAt : Instant
  freshnessCutoff : ℤ

inductive Reservation
  | suppressed
  | fresh
  | negative
  | active (id : ℕ) (run : DiscoveryRun)
  | rateLimited (retryAt : Instant)
  | reserved (id : ℕ)

/-- `searchReservations.reserve`; the database gives the id and the instant. -/
def reserve (input : ReserveInput) (id : ℕ) (createdAt : Instant) (t : DiscoveryTables) :
    Except Fault Reservation × DiscoveryTables :=
  if input.limit < 1 then (.error (rangeError "rate_limit_out_of_range"), t)
  else if input.expiresAt ≤ input.now then
    (.error (rangeError "rate_limit_expiry_out_of_range"), t)
  else if t.isSuppressed input.key input.now then (.ok .suppressed, t)
  else if t.hasCurrent input.key input.freshnessCutoff then (.ok .fresh, t)
  else if t.isNegative input.key input.now then (.ok .negative, t)
  else
    match t.activeRun input.key with
    | some entry => (.ok (.active entry.1 entry.2), t)
    | none =>
      let usage := t.charges.filter (fun charge =>
        charge.callerBucketHash = input.callerBucketHash && input.now < charge.expiresAt)
      if input.limit ≤ usage.length then
        match (usage.map RateLimitEvent.expiresAt).min? with
        | none => (.error (authored "rate_limit_retry_missing"), t)
        | some retryAt => (.ok (.rateLimited retryAt), t)
      else if t.runs.has id then (.error uniqueViolation, t)
      else
        (.ok (.reserved id), { t.setRun id ⟨input.key, .queued, 0, none, none, createdAt⟩ with
          charges := t.charges ++ [⟨input.callerBucketHash, id, input.expiresAt⟩] })

/-- `searchReservations.cancel` -/
def cancel (id : ℕ) (t : DiscoveryTables) : Except Fault Unit × DiscoveryTables :=
  match t.runs.get? id with
  | none => (.error (authored "search_reservation_not_cancellable"), t)
  | some run =>
    if run.status ≠ .queued then (.error (authored "search_reservation_not_cancellable"), t)
    else if t.charges.countP (fun charge => charge.discoveryRunId = id) ≠ 1 then
      (.error (authored "search_reservation_charge_missing"), t)
    else
      (.ok (), { t.setRun id { run with status := .failed } with
        charges := t.charges.filter (fun charge => charge.discoveryRunId ≠ id) })

/-- `searchReservations.markEnqueued` -/
def markEnqueued (id : ℕ) (queueJobId : String) (t : DiscoveryTables) :
    Except Fault Unit × DiscoveryTables :=
  match t.runs.get? id with
  | none => (.error (authored "search_reservation_not_found"), t)
  | some run =>
    if run.queueJobId = none ∨ run.queueJobId = some queueJobId then
      (.ok (), t.setRun id { run with queueJobId := some queueJobId })
    else (.error (authored "search_reservation_not_found"), t)

def updateActive (id : ℕ) (change : DiscoveryRun → DiscoveryRun) (t : DiscoveryTables) :
    DiscoveryTables :=
  match t.runs.get? id with
  | none => t
  | some run => if run.status.active then t.setRun id (change run) else t

/-- `runs.claim`; a claim counts one attempt more than the last. -/
def claim (id attempt : ℕ) : DiscoveryTables → DiscoveryTables :=
  updateActive id (fun run =>
    if run.attempt < attempt then { run with status := .running, attempt := attempt } else run)

def markRetrying (id attempt : ℕ) : DiscoveryTables → DiscoveryTables :=
  updateActive id (fun run => { run with status := .retrying, attempt := attempt })

/-- `runs.fail` -/
def fail (id : ℕ) : DiscoveryTables → DiscoveryTables :=
  updateActive id (fun run => { run with status := .failed })

/-- The run waits for the fingerprint admission it asked for. -/
def deferRun (id : ℕ) : DiscoveryTables → DiscoveryTables :=
  updateActive id (fun run =>
    if run.status = .retrying then run else { run with status := .queued })

/-- `negativeCache.putAndFailRun` -/
def putAndFailRun (id : ℕ) (expiresAt : Instant) (t : DiscoveryTables) : DiscoveryTables :=
  match t.runs.get? id with
  | none => t
  | some run =>
    if run.status.active then
      { t.setRun id { run with status := .failed } with
        negative := t.negative.set run.rootKey expiresAt }
    else t

/-- `snapshots.create`, and with a cursor `createAndFinishFingerprintSweep`. The
worker read its clock for the refresh after the run was reserved. -/
def createSnapshot (id snapshotId : ℕ) (refreshedAt : Instant)
    (cursor : Option (Option String)) (t : DiscoveryTables) : DiscoveryTables :=
  match t.runs.get? id with
  | none => t
  | some run =>
    if run.status.active && !t.snapshots.has snapshotId && dateOf run.createdAt ≤ refreshedAt then
      let t := t.setRun id { run with status := .complete, snapshotId := some snapshotId }
      { t with
        snapshots := t.snapshots.set snapshotId ⟨run.rootKey, id, refreshedAt⟩
        sweepStates :=
          match cursor with
          | none => t.sweepStates
          | some resumeAfter =>
            t.sweepStates.set run.rootKey ⟨resumeAfter, resumeAfter.map (fun _ => snapshotId)⟩ }
    else t

/-- `snapshots.amendAndFinishFingerprintSweep`, what it writes of the cursor. -/
def amendSnapshot (id snapshotId : ℕ) (resumeAfter : Option String) (t : DiscoveryTables) :
    DiscoveryTables :=
  match t.snapshots.get? snapshotId with
  | none => t
  | some snapshot =>
    if (t.sweepStates.get? snapshot.root).any (fun state =>
        state.resumeSnapshotId = some snapshotId) && snapshot.discoveryRunId = id then
      { t with
        sweepStates := t.sweepStates.set snapshot.root
          ⟨resumeAfter, resumeAfter.map (fun _ => snapshotId)⟩ }
    else t

/-- `runs.completeWithLiveSweepSnapshot`, of a run still active. -/
def completeWithLiveSweepSnapshot (id snapshotId : ℕ) (t : DiscoveryTables) : DiscoveryTables :=
  match t.runs.get? id with
  | none => t
  | some run =>
    if run.status.active && (t.sweepStates.get? run.rootKey).any (fun state =>
        state.resumeAfter.isSome && state.resumeSnapshotId = some snapshotId) then
      t.setRun id { run with status := .complete, snapshotId := some snapshotId }
    else t

/-- What workers, visitors and operators do to the tables. -/
inductive Operation
  | reserve (input : ReserveInput) (id : ℕ)
  | cancel (id : ℕ)
  | markEnqueued (id : ℕ) (queueJobId : String)
  | claim (id attempt : ℕ)
  | markRetrying (id attempt : ℕ)
  | fail (id : ℕ)
  | deferRun (id : ℕ)
  | putAndFailRun (id : ℕ) (expiresAt : Instant)
  | createSnapshot (id snapshotId : ℕ) (refreshedAt : Instant) (cursor : Option (Option String))
  | amendSnapshot (id snapshotId : ℕ) (resumeAfter : Option String)
  | completeWithLiveSweepSnapshot (id snapshotId : ℕ)
  | suppress (key : CharacterKey) (expiresAt : Option Instant)
  | cleanup (now : Instant)

/-- The tables after an operation that the database carries out at the instant. -/
def perform (now : Instant) (t : DiscoveryTables) : Operation → DiscoveryTables
  | .reserve input id => (reserve input id now t).2
  | .cancel id => (cancel id t).2
  | .markEnqueued id queueJobId => (markEnqueued id queueJobId t).2
  | .claim id attempt => claim id attempt t
  | .markRetrying id attempt => markRetrying id attempt t
  | .fail id => fail id t
  | .deferRun id => deferRun id t
  | .putAndFailRun id expiresAt => putAndFailRun id expiresAt t
  | .createSnapshot id snapshotId refreshedAt cursor =>
    createSnapshot id snapshotId refreshedAt cursor t
  | .amendSnapshot id snapshotId resumeAfter => amendSnapshot id snapshotId resumeAfter t
  | .completeWithLiveSweepSnapshot id snapshotId => completeWithLiveSweepSnapshot id snapshotId t
  | .suppress key expiresAt => { t with suppressed := t.suppressed.set key expiresAt }
  | .cleanup at_ =>
    { t with
      suppressed := t.suppressed.filterValues (fun expiresAt => expiresAt.all (at_ < ·))
      negative := t.negative.filterValues (at_ < ·)
      charges := t.charges.filter (fun charge => at_ < charge.expiresAt) }

/-! What every operation keeps. -/

/-- A complete run has a snapshot of its root, its own or another's; a snapshot's
own run is complete and was reserved before the refresh; a cursor extends a
snapshot of its root. -/
structure Sound (t : DiscoveryTables) : Prop where
  owned : ∀ id snapshot, t.snapshots.get? id = some snapshot →
    ∃ run, t.runs.get? snapshot.discoveryRunId = some run ∧ run.status = .complete ∧
      run.rootKey = snapshot.root ∧ dateOf run.createdAt ≤ snapshot.refreshedAt
  completed : ∀ id run, t.runs.get? id = some run → run.status = .complete →
    ∃ snapshotId snapshot, run.snapshotId = some snapshotId ∧
      t.snapshots.get? snapshotId = some snapshot ∧ snapshot.root = run.rootKey
  extended : ∀ key state snapshotId, t.sweepStates.get? key = some state →
    state.resumeSnapshotId = some snapshotId →
    ∃ snapshot, t.snapshots.get? snapshotId = some snapshot ∧ snapshot.root = key

theorem sound_empty : Sound .empty where
  owned id snapshot h := by cases h
  completed id run h := by cases h
  extended key state snapshotId h := by cases h

/-- A row keeps what it was reserved for, and a complete one what it ended with. -/
structure Follows (run run' : DiscoveryRun) : Prop where
  rootKey : run'.rootKey = run.rootKey
  createdAt : run'.createdAt = run.createdAt
  complete : run.status = .complete → run'.status = .complete ∧ run'.snapshotId = run.snapshotId

theorem Follows.refl (run : DiscoveryRun) : Follows run run := ⟨rfl, rfl, fun h => ⟨h, rfl⟩⟩

def Extends (t t' : DiscoveryTables) : Prop :=
  ∀ id run, t.runs.get? id = some run → ∃ run', t'.runs.get? id = some run' ∧ Follows run run'

theorem Extends.refl (t : DiscoveryTables) : Extends t t :=
  fun _ run h => ⟨run, h, .refl run⟩

variable {t : DiscoveryTables}

variable {id : ℕ} {run run' : DiscoveryRun}

theorem extends_setRun (hrun : t.runs.get? id = some run) (h : Follows run run') :
    Extends t (t.setRun id run') := by
  intro other row hrow
  by_cases hother : other = id
  · subst hother
    have hsame : row = run := Option.some.inj (hrow.symm.trans hrun)
    subst hsame
    exact ⟨run', OrderedMap.get?_set_self _ _ _, h⟩
  · exact ⟨row, (OrderedMap.get?_set_ne _ _ hother).trans hrow, .refl row⟩

theorem Sound.setRun (hsound : Sound t) (hrun : t.runs.get? id = some run) (h : Follows run run')
    (hcomplete : run'.status = .complete → ∃ snapshotId snapshot,
      run'.snapshotId = some snapshotId ∧ t.snapshots.get? snapshotId = some snapshot ∧
        snapshot.root = run'.rootKey) : Sound (t.setRun id run') where
  owned snapshotId snapshot hsnapshot := by
    obtain ⟨row, hrow, hstatus, hroot, hdate⟩ := hsound.owned snapshotId snapshot hsnapshot
    obtain ⟨row', hrow', hfollows⟩ := extends_setRun hrun h _ row hrow
    refine ⟨row', hrow', (hfollows.complete hstatus).1, hfollows.rootKey.trans hroot, ?_⟩
    rw [hfollows.createdAt]
    exact hdate
  completed other row hrow hstatus := by
    by_cases hother : other = id
    · subst hother
      have hsame : run' = row := Option.some.inj
        ((OrderedMap.get?_set_self t.runs other run').symm.trans hrow)
      subst hsame
      exact hcomplete hstatus
    · have hold : t.runs.get? other = some row :=
        (OrderedMap.get?_set_ne t.runs run' hother).symm.trans hrow
      exact hsound.completed other row hold hstatus
  extended := hsound.extended

theorem Sound.insertRun (hsound : Sound t) (hnew : t.runs.get? id = none)
    (hstatus : run'.status ≠ .complete) :
    Sound (t.setRun id run') where
  owned snapshotId snapshot hsnapshot := by
    obtain ⟨row, hrow, hrest⟩ := hsound.owned snapshotId snapshot hsnapshot
    have hother : snapshot.discoveryRunId ≠ id := by
      intro hsame
      rw [hsame, hnew] at hrow
      cases hrow
    exact ⟨row, (OrderedMap.get?_set_ne t.runs run' hother).trans hrow, hrest⟩
  completed other row hrow hcomplete := by
    by_cases hother : other = id
    · subst hother
      have hsame : run' = row := Option.some.inj
        ((OrderedMap.get?_set_self t.runs other run').symm.trans hrow)
      subst hsame
      exact absurd hcomplete hstatus
    · have hold : t.runs.get? other = some row :=
        (OrderedMap.get?_set_ne t.runs run' hother).symm.trans hrow
      exact hsound.completed other row hold hcomplete
  extended := hsound.extended

theorem extends_insertRun (hnew : t.runs.get? id = none) :
    Extends t (t.setRun id run') := by
  intro other row hrow
  have hother : other ≠ id := by
    intro hsame
    rw [hsame, hnew] at hrow
    cases hrow
  exact ⟨row, (OrderedMap.get?_set_ne t.runs run' hother).trans hrow, .refl row⟩

/-- A step keeps the tables sound and loses no row. -/
structure Kept (t t' : DiscoveryTables) : Prop where
  sound : Sound t → Sound t'
  rows : Extends t t'

theorem Kept.refl (t : DiscoveryTables) : Kept t t := ⟨id, .refl t⟩

theorem Kept.congr {t' t'' : DiscoveryTables} (h : Kept t t') (hruns : t''.runs = t'.runs)
    (hsnapshots : t''.snapshots = t'.snapshots) (hstates : t''.sweepStates = t'.sweepStates) :
    Kept t t'' where
  sound hsound := by
    have hkept := h.sound hsound
    constructor
    · rw [hruns, hsnapshots]
      exact hkept.owned
    · rw [hruns, hsnapshots]
      exact hkept.completed
    · rw [hsnapshots, hstates]
      exact hkept.extended
  rows := by
    unfold Extends
    rw [hruns]
    exact h.rows

theorem kept_setRun (hrun : t.runs.get? id = some run) (h : Follows run run')
    (hcomplete : run'.status = .complete → run.status = .complete) : Kept t (t.setRun id run') where
  sound hsound := hsound.setRun hrun h fun hstatus => by
    have hbefore := hcomplete hstatus
    obtain ⟨snapshotId, snapshot, hid, hsnapshot, hroot⟩ := hsound.completed id run hrun hbefore
    exact ⟨snapshotId, snapshot, (h.complete hbefore).2.trans hid, hsnapshot,
      hroot.trans h.rootKey.symm⟩
  rows := extends_setRun hrun h

theorem follows_of_active (hactive : run.status.active = true) (hroot : run'.rootKey = run.rootKey)
    (hcreated : run'.createdAt = run.createdAt) :
    Follows run run' := by
  refine ⟨hroot, hcreated, fun hcomplete => ?_⟩
  rw [hcomplete] at hactive
  cases hactive

theorem kept_updateActive (id : ℕ) {change : DiscoveryRun → DiscoveryRun}
    (hroot : ∀ run, (change run).rootKey = run.rootKey)
    (hcreated : ∀ run, (change run).createdAt = run.createdAt)
    (hstatus : ∀ run, run.status.active = true → (change run).status ≠ .complete) :
    Kept t (updateActive id change t) := by
  unfold updateActive
  cases hrun : t.runs.get? id with
  | none => exact .refl t
  | some run =>
    dsimp only
    split
    · next hactive =>
      exact kept_setRun hrun (follows_of_active hactive (hroot run) (hcreated run))
        fun hcomplete => absurd hcomplete (hstatus run hactive)
    · exact .refl t

theorem kept_reserve (input : ReserveInput) (id : ℕ) (createdAt : Instant) :
    Kept t (reserve input id createdAt t).2 := by
  fun_cases reserve input id createdAt t
  case case10 hid =>
    have hnew : t.runs.get? id = none := by
      unfold OrderedMap.has at hid
      simpa using hid
    have hinsert : Kept t (t.setRun id ⟨input.key, .queued, 0, none, none, createdAt⟩) :=
      ⟨fun hsound => hsound.insertRun hnew nofun, extends_insertRun hnew⟩
    exact hinsert.congr rfl rfl rfl
  all_goals exact .refl t

theorem kept_cancel (id : ℕ) : Kept t (cancel id t).2 := by
  fun_cases cancel id t
  case case4 run hrun hqueued _ =>
    have hstatus : run.status = .queued := not_not.mp hqueued
    have hset : Kept t (t.setRun id { run with status := .failed }) :=
      kept_setRun hrun (follows_of_active (by rw [hstatus]; rfl) rfl rfl) (by intro h; cases h)
    exact hset.congr rfl rfl rfl
  all_goals exact .refl t

theorem kept_markEnqueued (id : ℕ) (queueJobId : String) :
    Kept t (markEnqueued id queueJobId t).2 := by
  fun_cases markEnqueued id queueJobId t
  case case2 run hrun _ => exact kept_setRun hrun ⟨rfl, rfl, fun h => ⟨h, rfl⟩⟩ (fun h => h)
  all_goals exact .refl t

theorem kept_putAndFailRun (id : ℕ) (expiresAt : Instant) :
    Kept t (putAndFailRun id expiresAt t) := by
  fun_cases putAndFailRun id expiresAt t
  case case2 run hrun hactive _ =>
    have hset : Kept t (t.setRun id { run with status := .failed }) :=
      kept_setRun hrun (follows_of_active hactive rfl rfl) (by intro h; cases h)
    exact hset.congr rfl rfl rfl
  all_goals exact .refl t

theorem kept_completeWithLiveSweepSnapshot (id snapshotId : ℕ) :
    Kept t (completeWithLiveSweepSnapshot id snapshotId t) := by
  fun_cases completeWithLiveSweepSnapshot id snapshotId t
  case case2 run hrun hlive =>
    rw [Bool.and_eq_true, Option.any_eq_true] at hlive
    obtain ⟨hactive, state, hstate, hcursor⟩ := hlive
    have hextends := of_decide_eq_true (Bool.and_elim_right hcursor)
    have hfollows : Follows run { run with status := .complete, snapshotId := some snapshotId } :=
      follows_of_active hactive rfl rfl
    refine ⟨fun hsound => hsound.setRun hrun hfollows fun _ => ?_, extends_setRun hrun hfollows⟩
    obtain ⟨snapshot, hsnapshot, hroot⟩ := hsound.extended run.rootKey state snapshotId hstate
      hextends
    exact ⟨snapshotId, snapshot, rfl, hsnapshot, hroot⟩
  all_goals exact .refl t

theorem kept_createSnapshot (id snapshotId : ℕ) (refreshedAt : Instant)
    (cursor : Option (Option String)) : Kept t (createSnapshot id snapshotId refreshedAt cursor t) := by
  unfold createSnapshot
  cases hrun : t.runs.get? id with
  | none => exact .refl t
  | some run =>
    dsimp only
    split
    · next hguard =>
      obtain ⟨⟨hactive, hfree⟩, hdate⟩ := by simpa only [Bool.and_eq_true] using hguard
      have hnew : t.snapshots.get? snapshotId = none := by
        unfold OrderedMap.has at hfree
        simpa using hfree
      have hold : ∀ {other : ℕ} {snapshot : Snapshot}, t.snapshots.get? other = some snapshot →
          (t.snapshots.set snapshotId ⟨run.rootKey, id, refreshedAt⟩).get? other =
            some snapshot := by
        intro other snapshot hsnapshot
        have hother : other ≠ snapshotId := by
          intro hsame
          rw [hsame, hnew] at hsnapshot
          cases hsnapshot
        exact (OrderedMap.get?_set_ne _ _ hother).trans hsnapshot
      have hfollows : Follows run
          { run with status := .complete, snapshotId := some snapshotId } :=
        follows_of_active hactive rfl rfl
      have hextends := extends_setRun hrun hfollows
      refine ⟨fun hsound => ⟨?_, ?_, ?_⟩, hextends⟩
      · intro other snapshot hsnapshot
        by_cases hother : other = snapshotId
        · subst hother
          have hsame : ⟨run.rootKey, id, refreshedAt⟩ = snapshot := Option.some.inj
            ((OrderedMap.get?_set_self _ _ _).symm.trans hsnapshot)
          subst hsame
          exact ⟨_, OrderedMap.get?_set_self _ _ _, rfl, rfl, of_decide_eq_true hdate⟩
        · have hbefore : t.snapshots.get? other = some snapshot :=
            (OrderedMap.get?_set_ne _ _ hother).symm.trans hsnapshot
          obtain ⟨row, hrow, hstatus, hroot, hrefreshed⟩ := hsound.owned other snapshot hbefore
          obtain ⟨row', hrow', hkept⟩ := hextends _ row hrow
          refine ⟨row', hrow', (hkept.complete hstatus).1, hkept.rootKey.trans hroot, ?_⟩
          rw [hkept.createdAt]
          exact hrefreshed
      · intro other row hrow hstatus
        by_cases hother : other = id
        · subst hother
          have hsame : { run with status := .complete, snapshotId := some snapshotId } = row :=
            Option.some.inj ((OrderedMap.get?_set_self t.runs other _).symm.trans hrow)
          subst hsame
          exact ⟨snapshotId, _, rfl, OrderedMap.get?_set_self _ _ _, rfl⟩
        · have hbefore : t.runs.get? other = some row :=
            (OrderedMap.get?_set_ne t.runs _ hother).symm.trans hrow
          obtain ⟨held, snapshot, hheld, hsnapshot, hroot⟩ :=
            hsound.completed other row hbefore hstatus
          exact ⟨held, snapshot, hheld, hold hsnapshot, hroot⟩
      · intro key state held hstate hheld
        have hextended : t.sweepStates.get? key = some state →
            ∃ snapshot, (t.snapshots.set snapshotId ⟨run.rootKey, id, refreshedAt⟩).get? held =
              some snapshot ∧ snapshot.root = key := by
          intro hbefore
          obtain ⟨snapshot, hsnapshot, hroot⟩ := hsound.extended key state held hbefore hheld
          exact ⟨snapshot, hold hsnapshot, hroot⟩
        cases cursor with
        | none => exact hextended hstate
        | some resumeAfter =>
          by_cases hkey : key = run.rootKey
          · subst hkey
            have hsame : ⟨resumeAfter, resumeAfter.map (fun _ => snapshotId)⟩ = state :=
              Option.some.inj ((OrderedMap.get?_set_self _ _ _).symm.trans hstate)
            rw [← hsame] at hheld
            obtain ⟨_, -, hid⟩ := Option.map_eq_some_iff.mp hheld
            rw [← hid]
            exact ⟨_, OrderedMap.get?_set_self _ _ _, rfl⟩
          · exact hextended ((OrderedMap.get?_set_ne _ _ hkey).symm.trans hstate)
    · exact .refl t

theorem kept_amendSnapshot (id snapshotId : ℕ) (resumeAfter : Option String) :
    Kept t (amendSnapshot id snapshotId resumeAfter t) := by
  fun_cases amendSnapshot id snapshotId resumeAfter t
  case case2 snapshot hsnapshot _ =>
    refine ⟨fun hsound => ⟨hsound.owned, hsound.completed, ?_⟩, .refl t⟩
    intro key state held hstate hheld
    by_cases hkey : key = snapshot.root
    · subst hkey
      have hsame : ⟨resumeAfter, resumeAfter.map (fun _ => snapshotId)⟩ = state :=
        Option.some.inj ((OrderedMap.get?_set_self _ _ _).symm.trans hstate)
      rw [← hsame] at hheld
      obtain ⟨_, -, hid⟩ := Option.map_eq_some_iff.mp hheld
      rw [← hid]
      exact ⟨snapshot, hsnapshot, rfl⟩
    · exact hsound.extended key state held
        ((OrderedMap.get?_set_ne _ _ hkey).symm.trans hstate) hheld
  all_goals exact .refl t

theorem kept_perform (now : Instant) (operation : Operation) : Kept t (perform now t operation) := by
  cases operation with
  | reserve input id => exact kept_reserve input id now
  | cancel id => exact kept_cancel id
  | markEnqueued id queueJobId => exact kept_markEnqueued id queueJobId
  | claim id attempt =>
    refine kept_updateActive id (fun run => ?_) (fun run => ?_) (fun run hactive => ?_)
    · split <;> rfl
    · split <;> rfl
    · split
      · nofun
      · intro hcomplete
        rw [hcomplete] at hactive
        cases hactive
  | markRetrying id attempt =>
    exact kept_updateActive id (fun _ => rfl) (fun _ => rfl) (fun _ _ => nofun)
  | fail id => exact kept_updateActive id (fun _ => rfl) (fun _ => rfl) (fun _ _ => nofun)
  | deferRun id =>
    refine kept_updateActive id (fun run => ?_) (fun run => ?_) (fun run hactive => ?_)
    · split <;> rfl
    · split <;> rfl
    · split
      · next hretrying =>
        rw [hretrying]
        nofun
      · nofun
  | putAndFailRun id expiresAt => exact kept_putAndFailRun id expiresAt
  | createSnapshot id snapshotId refreshedAt cursor =>
    exact kept_createSnapshot id snapshotId refreshedAt cursor
  | amendSnapshot id snapshotId resumeAfter => exact kept_amendSnapshot id snapshotId resumeAfter
  | completeWithLiveSweepSnapshot id snapshotId =>
    exact kept_completeWithLiveSweepSnapshot id snapshotId
  | suppress key expiresAt => exact (Kept.refl t).congr rfl rfl rfl
  | cleanup at_ => exact (Kept.refl t).congr rfl rfl rfl

theorem row_of_reserved {input : ReserveInput} {reserved : ℕ} {createdAt : Instant}
    (h : (reserve input id createdAt t).1 = .ok (.reserved reserved)) :
    ∃ run, (reserve input id createdAt t).2.runs.get? reserved = some run ∧
      run.rootKey = input.key ∧ run.createdAt = createdAt := by
  revert h
  fun_cases reserve input id createdAt t
  case case10 =>
    intro h
    obtain rfl : id = reserved := by
      injection h with h
      injection h
    exact ⟨_, OrderedMap.get?_set_self _ _ _, rfl, rfl⟩
  all_goals
    intro h
    cases h

theorem reserve_of_current {input : ReserveInput} (hcurrent :
    t.hasCurrent input.key input.freshnessCutoff = true) (id : ℕ) (createdAt : Instant)
    (reserved : ℕ) : (reserve input id createdAt t).1 ≠ .ok (.reserved reserved) := by
  fun_cases reserve input id createdAt t
  case case10 hstale _ _ _ _ _ => exact absurd hcurrent hstale
  all_goals nofun

theorem hasCurrent_of_complete (hsound : Sound t) {snapshotId : ℕ} {snapshot : Snapshot}
    {freshnessCutoff : ℤ} (hrun : t.runs.get? id = some run) (hstatus : run.status = .complete)
    (hid : run.snapshotId = some snapshotId)
    (hsnapshot : t.snapshots.get? snapshotId = some snapshot)
    (hfresh : freshnessCutoff < snapshot.refreshedAt) :
    t.hasCurrent run.rootKey freshnessCutoff = true := by
  obtain ⟨own, hown, hcomplete, -, -⟩ := hsound.owned snapshotId snapshot hsnapshot
  obtain ⟨held, snapshot', hheld, hsnapshot', hroot⟩ := hsound.completed id run hrun hstatus
  obtain rfl : snapshotId = held := Option.some.inj (hid.symm.trans hheld)
  obtain rfl : snapshot = snapshot' := Option.some.inj (hsnapshot.symm.trans hsnapshot')
  unfold DiscoveryTables.hasCurrent
  refine List.any_eq_true.mpr
    ⟨snapshot, (OrderedMap.mem_values_iff _ _).mpr ⟨snapshotId, hsnapshot⟩, ?_⟩
  rw [hown]
  simp [hroot, hfresh, hcomplete]

end SlashWho.DiscoveryReservations
