import SlashWho.ApplicantCollections
import SlashWho.EvidenceResumes

/-!
What the replays of one intent reserve. The intent's cutoffs do not move, so a run that ended with a
snapshot of its own, or with evidence published in full, stays newer than what the replays ask for.
Not so a run completed with a live sweep's older snapshot, nor evidence for which something has
fallen due since.
-/

namespace SlashWho.ApplicantCollections

open List Characters EvidenceMerge EvidenceRetryPolicy
open EvidenceReservations (CURRENT_EVIDENCE_VERSION Tables dateOf RankedContinuation)
open EvidenceRuns (Catalogue EvidencePublication EvidenceRun EvidenceRunMode PublishedFrom Store)
open DiscoveryReservations (DiscoveryTables)

/-! The rows of evidence runs. -/

/-- A row keeps what it was reserved for, and one that has ended how it did. -/
structure Traces (run run' : EvidenceRun) : Prop where
  key : run'.key = run.key
  mode : run'.mode = run.mode
  createdAt : run'.createdAt = run.createdAt
  ended : run.isActive = false → run'.status = run.status ∧ run'.completedAt = run.completedAt ∧
    run'.publicationScope = run.publicationScope

theorem Traces.refl (run : EvidenceRun) : Traces run run := ⟨rfl, rfl, rfl, fun _ => ⟨rfl, rfl, rfl⟩⟩

theorem Traces.trans {a b c : EvidenceRun} (h : Traces a b) (h' : Traces b c) : Traces a c where
  key := h'.key.trans h.key
  mode := h'.mode.trans h.mode
  createdAt := h'.createdAt.trans h.createdAt
  ended hended := by
    obtain ⟨hstatus, hcompleted, hscope⟩ := h.ended hended
    have hended' : b.isActive = false := by
      unfold EvidenceRun.isActive
      rw [hstatus]
      exact hended
    obtain ⟨hstatus', hcompleted', hscope'⟩ := h'.ended hended'
    exact ⟨hstatus'.trans hstatus, hcompleted'.trans hcompleted, hscope'.trans hscope⟩

/-- A published row is of the current version, dated after its reservation, and
in full where it searched no tier. -/
def Dated (version : ℕ) (run : EvidenceRun) : Prop :=
  run.status.published.isSome = true →
    CURRENT_EVIDENCE_VERSION ≤ version ∧
    (∃ completedAt, run.completedAt = some completedAt ∧ dateOf run.createdAt ≤ completedAt) ∧
    (run.mode = .full → run.publicationScope = .full)

def AllDated (t : Tables) : Prop :=
  ∀ id run, t.store.runs.get? id = some run → Dated (t.evidenceVersions id) run

/-- A step keeps every row dated and loses none. -/
structure KeepsRows (t t' : Tables) : Prop where
  dated : AllDated t → AllDated t'
  rows : ∀ id run, t.store.runs.get? id = some run →
    ∃ run', t'.store.runs.get? id = some run' ∧ Traces run run'

theorem isActive_of_published {run : EvidenceRun} (h : run.status.published.isSome = true) :
    run.isActive = false := by
  unfold EvidenceRun.isActive
  cases hstatus : run.status with
  | complete | partial_ => rfl
  | queued | running | retrying | failed =>
    rw [hstatus] at h
    cases h

section Rows
variable {t t' t'' : Tables}

theorem KeepsRows.refl (t : Tables) : KeepsRows t t := ⟨id, fun _ run h => ⟨run, h, .refl run⟩⟩

theorem KeepsRows.trans (h : KeepsRows t t') (h' : KeepsRows t' t'') : KeepsRows t t'' where
  dated hdated := h'.dated (h.dated hdated)
  rows id run hrun := by
    obtain ⟨run', hrun', htraces⟩ := h.rows id run hrun
    obtain ⟨run'', hrun'', htraces'⟩ := h'.rows id run' hrun'
    exact ⟨run'', hrun'', htraces.trans htraces'⟩

theorem keepsRows_of_eq (hruns : t'.store.runs = t.store.runs)
    (hversions : t'.evidenceVersions = t.evidenceVersions) : KeepsRows t t' where
  dated hdated := by
    intro id run hrun
    rw [hversions]
    rw [hruns] at hrun
    exact hdated id run hrun
  rows id run hrun := ⟨run, by rw [hruns]; exact hrun, .refl run⟩

variable {id : ℕ}

theorem keepsRows_of_set {run : EvidenceRun} (run' : EvidenceRun)
    (hrun : t.store.runs.get? id = some run) (hruns : t'.store.runs = t.store.runs.set id run')
    (htraces : Traces run run') (hdated : Dated (t'.evidenceVersions id) run')
    (hversions : ∀ other, other ≠ id → t'.evidenceVersions other = t.evidenceVersions other) :
    KeepsRows t t' where
  dated hall other row hrow := by
    rw [hruns] at hrow
    by_cases hother : other = id
    · rw [hother, OrderedMap.get?_set_self] at hrow
      rw [hother, ← Option.some.inj hrow]
      exact hdated
    · rw [OrderedMap.get?_set_ne _ _ hother] at hrow
      rw [hversions other hother]
      exact hall other row hrow
  rows other row hrow := by
    rw [hruns]
    by_cases hother : other = id
    · rw [hother, hrun] at hrow
      rw [hother, OrderedMap.get?_set_self, ← Option.some.inj hrow]
      exact ⟨run', rfl, htraces⟩
    · exact ⟨row, (OrderedMap.get?_set_ne _ _ hother).trans hrow, .refl row⟩

theorem keepsRows_of_active {run : EvidenceRun} (run' : EvidenceRun)
    (hrun : t.store.activeRun id = some run) (hruns : t'.store.runs = t.store.runs.set id run')
    (hversions : t'.evidenceVersions = t.evidenceVersions) (hkey : run'.key = run.key)
    (hmode : run'.mode = run.mode) (hcreated : run'.createdAt = run.createdAt)
    (hstatus : run'.status.published = none) : KeepsRows t t' := by
  obtain ⟨hget, hactive⟩ := Option.filter_eq_some_iff.mp hrun
  refine keepsRows_of_set run' hget hruns ⟨hkey, hmode, hcreated, fun hended => ?_⟩ (fun hpublished => ?_)
    (fun other _ => by rw [hversions])
  · rw [hactive] at hended
    cases hended
  · rw [hstatus] at hpublished
    cases hpublished

theorem keepsRows_of_insert (run' : EvidenceRun) (hnew : t.store.runs.get? id = none)
    (hruns : t'.store.runs = t.store.runs.set id run')
    (hversions : t'.evidenceVersions = t.evidenceVersions)
    (hstatus : run'.status.published = none) : KeepsRows t t' where
  dated hall other row hrow := by
    rw [hruns] at hrow
    rw [hversions]
    by_cases hother : other = id
    · rw [hother, OrderedMap.get?_set_self] at hrow
      intro hpublished
      rw [← Option.some.inj hrow, hstatus] at hpublished
      cases hpublished
    · rw [OrderedMap.get?_set_ne _ _ hother] at hrow
      exact hall other row hrow
  rows other row hrow := by
    have hother : other ≠ id := by
      intro hsame
      rw [hsame, hnew] at hrow
      cases hrow
    rw [hruns]
    exact ⟨row, (OrderedMap.get?_set_ne _ _ hother).trans hrow, .refl row⟩

theorem keepsRows_insertRun (t : Tables) (now : Instant) (id : ℕ) (key : CharacterKey)
    (mode : EvidenceRunMode) (phasePlan : List String) :
    KeepsRows t { t with store := (t.store.insertRun now id key mode phasePlan).2 } := by
  by_cases hrefused : t.store.runs.has id ∨ t.store.hasActive key
  · refine keepsRows_of_eq ?_ rfl
    unfold Store.insertRun
    rw [if_pos hrefused]
  · have hnew : t.store.runs.get? id = none := by
      have hfree := (not_or.mp hrefused).1
      unfold OrderedMap.has at hfree
      simpa using hfree
    refine keepsRows_of_insert (Store.queuedRun now key mode) hnew ?_ rfl rfl
    unfold Store.insertRun
    rw [if_neg hrefused]

/-- Rows that differ in what no reservation reads. -/
structure Agrees (run run' : EvidenceRun) : Prop where
  key : run'.key = run.key
  mode : run'.mode = run.mode
  createdAt : run'.createdAt = run.createdAt
  status : run'.status = run.status
  completedAt : run'.completedAt = run.completedAt
  publicationScope : run'.publicationScope = run.publicationScope

def AgreesAll (runs runs' : OrderedMap ℕ EvidenceRun) : Prop :=
  ∀ id, (runs.get? id = none → runs'.get? id = none) ∧
    ∀ run, runs.get? id = some run → ∃ run', runs'.get? id = some run' ∧ Agrees run run'

theorem keepsRows_of_agrees (h : AgreesAll t.store.runs t'.store.runs)
    (hversions : t'.evidenceVersions = t.evidenceVersions) : KeepsRows t t' where
  dated hall id run' hrun' := by
    cases hrun : t.store.runs.get? id with
    | none =>
      rw [(h id).1 hrun] at hrun'
      cases hrun'
    | some run =>
      obtain ⟨row, hrow, hagrees⟩ := (h id).2 run hrun
      obtain rfl : row = run' := Option.some.inj (hrow.symm.trans hrun')
      intro hpublished
      rw [hversions, hagrees.completedAt, hagrees.createdAt, hagrees.mode, hagrees.publicationScope]
      rw [hagrees.status] at hpublished
      exact hall id run hrun hpublished
  rows id run hrun := by
    obtain ⟨run', hrun', hagrees⟩ := (h id).2 run hrun
    exact ⟨run', hrun', hagrees.key, hagrees.mode, hagrees.createdAt,
      fun _ => ⟨hagrees.status, hagrees.completedAt, hagrees.publicationScope⟩⟩

/-- Clearing what runs noted of their scans changes nothing else of them. -/
theorem keepsRows_consume (t : Tables) (key : CharacterKey) :
    KeepsRows t (EvidenceReservations.consumeAliasRecollection t key) := by
  have hfold : ∀ (entries : List (ℕ × EvidenceRun)) (runs : OrderedMap ℕ EvidenceRun),
      (∀ entry ∈ entries, t.store.runs.get? entry.1 = some entry.2) →
      AgreesAll t.store.runs runs →
      AgreesAll t.store.runs (entries.foldl (fun runs entry => runs.set entry.1 { entry.2 with
        killScanCompletedAt := none
        killScanResumePage := none
        killScanResumeBoundaryReportCode := none }) runs) := by
    intro entries
    induction entries with
    | nil => exact fun runs _ hruns => hruns
    | cons entry rest ih =>
      intro runs hentries hruns
      refine ih _ (fun e he => hentries e (mem_cons_of_mem _ he)) fun id => ?_
      have hentry := hentries entry mem_cons_self
      by_cases hid : id = entry.1
      · subst hid
        refine ⟨fun hnone => ?_, fun run hrun => ?_⟩
        · rw [hentry] at hnone
          cases hnone
        · obtain rfl : entry.2 = run := Option.some.inj (hentry.symm.trans hrun)
          exact ⟨_, OrderedMap.get?_set_self _ _ _, rfl, rfl, rfl, rfl, rfl, rfl⟩
      · rw [OrderedMap.get?_set_ne _ _ hid]
        exact hruns id
  unfold EvidenceReservations.consumeAliasRecollection
  split
  · refine keepsRows_of_agrees (hfold _ t.store.runs (fun entry hentry => ?_) fun id => ?_) rfl
    · exact (t.store.runs.mem_entries_iff _ _).mp (mem_filter.mp hentry).1
    · exact ⟨fun h => h, fun run hrun => ⟨run, hrun, rfl, rfl, rfl, rfl, rfl, rfl⟩⟩
  · exact .refl t

theorem get?_insertRun {s store : Store} {now : Instant} {key : CharacterKey}
    {mode : EvidenceRunMode} {phasePlan : List String}
    (h : s.insertRun now id key mode phasePlan = (.ok (), store)) :
    store.runs.get? id = some (Store.queuedRun now key mode) := by
  unfold Store.insertRun at h
  split at h
  · cases h
  · have hstore := (Prod.mk.inj h).2
    rw [← hstore]
    exact OrderedMap.get?_set_self _ _ _

/-- A run is inserted once the request to collect the aliases again is taken back. -/
theorem keepsRows_inserted {key : CharacterKey} {now : Instant} {mode : EvidenceRunMode}
    {phasePlan : List String} {store : Store}
    (h : (EvidenceReservations.consumeAliasRecollection t key).store.insertRun now id key mode
      phasePlan = (.ok (), store)) :
    KeepsRows t { EvidenceReservations.consumeAliasRecollection t key with store := store } := by
  have hkeeps := keepsRows_insertRun (EvidenceReservations.consumeAliasRecollection t key) now id
    key mode phasePlan
  rw [h] at hkeeps
  exact (keepsRows_consume t key).trans hkeeps

/-- What a reservation wrote: nothing, or the row of the run it reserved. -/
def Writes (t : Tables) (key : CharacterKey) (now : Instant)
    (result : Except Fault EvidenceReservations.Reservation × Tables) : Prop :=
  KeepsRows t result.2 ∧
    ∀ id light completed current, result.1 = .ok (.reserved id light completed current) →
      ∃ run, result.2.store.runs.get? id = some run ∧ run.key = key ∧ run.createdAt = now

theorem writes_insertReservation (t : Tables) (request : EvidenceReservations.ReserveInput) (id : ℕ)
    (now : Instant) (completed : Option EvidenceReservations.CompletedEvidenceSelection)
    (continuation : Option RankedContinuation) :
    Writes t request.key now (EvidenceReservations.reserve.insertReservation t request id now
      completed continuation) := by
  unfold EvidenceReservations.reserve.insertReservation
  cases EvidenceReservations.activeOf t request.key with
  | some run =>
    refine ⟨.refl t, ?_⟩
    intro reserved light completed' current hanswer
    injection hanswer with hanswer
    injection hanswer
  | none =>
    dsimp only
    split
    · refine ⟨.refl t, ?_⟩
      intro reserved light completed' current hanswer
      injection hanswer
    · next store hinserted =>
      refine ⟨keepsRows_inserted hinserted, ?_⟩
      intro reserved light completed' current hanswer
      injection hanswer with hanswer
      injection hanswer with hreserved
      rw [← hreserved]
      exact ⟨_, get?_insertRun hinserted, rfl, rfl⟩

theorem writes_reserve (collation : String → String → Ordering) (t : Tables)
    (request : EvidenceReservations.ReserveInput) (id : ℕ) (now : Instant) :
    Writes t request.key now (EvidenceReservations.reserve collation t request id now) := by
  unfold EvidenceReservations.reserve
  dsimp only
  split
  · split
    · refine ⟨.refl t, ?_⟩
      intro reserved light completed' current hanswer
      injection hanswer with hanswer
      injection hanswer
    · exact writes_insertReservation t request id now _ _
  · exact writes_insertReservation t request id now _ _

/-! The other operations. -/

theorem keepsRows_markEnqueued (t : Tables) (id : ℕ) (queueJobId : String) :
    KeepsRows t { t with store := (t.store.markEnqueued id queueJobId).2 } := by
  unfold Store.markEnqueued
  cases hrun : t.store.runs.get? id with
  | none => exact .refl t
  | some run =>
    dsimp only
    split
    · next hqueued =>
      have hactive : t.store.activeRun id = some run := by
        unfold Store.activeRun
        rw [hrun, Option.filter_some, if_pos]
        unfold EvidenceRun.isActive
        rw [hqueued.1]
        rfl
      exact keepsRows_of_active { run with queueJobId := some queueJobId } hactive rfl rfl
        rfl rfl rfl (by rw [hqueued.1]; rfl)
    · exact .refl t

theorem keepsRows_claim (t : Tables) (now : Instant) (id attempt : ℕ) :
    KeepsRows t { t with store := (t.store.claim now id attempt).2 } := by
  unfold Store.claim
  split
  · exact .refl t
  · cases hrun : t.store.activeRun id with
    | none => exact .refl t
    | some run =>
      dsimp only
      split
      · exact keepsRows_of_active { run with
          status := .running
          attempt := attempt
          startedAt := run.startedAt.or (some now)
          errorCode := none
          limitationCode := none } hrun rfl rfl rfl rfl rfl rfl
      · exact .refl t

theorem keepsRows_recordLimitation (t : Tables) (id : ℕ) (code : String) :
    KeepsRows t { t with store := (t.store.recordLimitation id code).2 } := by
  unfold Store.recordLimitation
  split
  · exact .refl t
  · cases hrun : t.store.activeRun id with
    | none => exact .refl t
    | some run =>
      obtain ⟨-, hactive⟩ := Option.filter_eq_some_iff.mp hrun
      refine keepsRows_of_active { run with limitationCode := some code } hrun rfl rfl
        rfl rfl rfl ?_
      cases hpublished : run.status.published with
      | none => rfl
      | some state =>
        have hended : run.isActive = false := by
          apply isActive_of_published
          rw [hpublished]
          rfl
        rw [hended] at hactive
        cases hactive

theorem keepsRows_releaseRun (t : Tables) (now : Instant) (id : ℕ) :
    KeepsRows t { t with store := Store.releaseRun now t.store id } := by
  unfold Store.releaseRun
  cases hrun : t.store.activeRun id with
  | none => exact .refl t
  | some run =>
    exact keepsRows_of_active (Store.failedRow now "abandoned" run) hrun rfl rfl rfl rfl
      rfl rfl

theorem keepsRows_releaseAbandoned (t : Tables) (now : Instant) (ids : List ℕ) :
    KeepsRows t { t with store := (t.store.releaseAbandoned now ids).2 } := by
  unfold Store.releaseAbandoned
  induction ids generalizing t with
  | nil => exact .refl t
  | cons id rest ih =>
    exact (keepsRows_releaseRun t now id).trans
      (ih { t with store := Store.releaseRun now t.store id })

theorem keepsRows_fail (t : Tables) (now : Instant) (id : ℕ) (code : String) :
    KeepsRows t { t with store := (t.store.fail now id code).2 } := by
  unfold Store.fail
  split
  · exact .refl t
  · cases hrun : t.store.activeRun id with
    | none => exact .refl t
    | some run =>
      exact keepsRows_of_active (Store.failedRow now code run) hrun rfl rfl rfl rfl rfl rfl

/-- A publication is dated after its run's reservation, and in full where the
run searches no tier. -/
theorem keepsRows_publish (t : Tables) (catalogue : Catalogue) (id : ℕ) (input : EvidencePublication)
    (publishedFrom : PublishedFrom) :
    KeepsRows t (publishEvidence catalogue id input publishedFrom t) := by
  unfold publishEvidence
  cases hrun : t.store.activeRun id with
  | none => exact .refl t
  | some run =>
    dsimp only
    split
    · next hdated =>
      split
      · exact .refl t
      · next store hpublished =>
        obtain ⟨hget, hactive⟩ := Option.filter_eq_some_iff.mp hrun
        have hruns : store.runs = t.store.runs.set id (Store.publishedRow run input) := by
          unfold Store.publish at hpublished
          split at hpublished
          · cases hpublished
          · rw [hrun, Prod.mk.injEq] at hpublished
            rw [← hpublished.2]
        refine keepsRows_of_set (Store.publishedRow run input) hget hruns
          ⟨rfl, rfl, rfl, fun hended => ?_⟩ (fun _ => ?_)
          (fun other hother => Function.update_of_ne hother _ _)
        · rw [hactive] at hended
          cases hended
        · refine ⟨?_, ⟨input.completedAt, rfl, hdated⟩, fun hmode => ?_⟩
          · dsimp only
            rw [Function.update_self]
          · have hfull : run.mode = .full := hmode
            unfold Store.publishedRow
            rw [hfull]
            rfl
    · exact .refl t

theorem keepsRows_performEvidence (collation : String → String → Ordering) (catalogue : Catalogue)
    (now : Instant) (t : Tables) (operation : EvidenceOperation) :
    KeepsRows t (performEvidence collation catalogue now t operation) := by
  cases operation with
  | reserve input id => exact (writes_reserve collation t input id now).1
  | insertRun id key mode phasePlan => exact keepsRows_insertRun t now id key mode phasePlan
  | markEnqueued id queueJobId => exact keepsRows_markEnqueued t id queueJobId
  | claim id attempt => exact keepsRows_claim t now id attempt
  | recordLimitation id code => exact keepsRows_recordLimitation t id code
  | publish id input publishedFrom => exact keepsRows_publish t catalogue id input publishedFrom
  | fail id code => exact keepsRows_fail t now id code
  | releaseAbandoned ids => exact keepsRows_releaseAbandoned t now ids
  | requestAliasRecollection key => exact keepsRows_of_eq rfl rfl

end Rows

/-! What a reservation finds fresh. -/

/-- Nothing asks for the character's evidence again: no re-collection of its
aliases, no capped walk that is due, and no retry that has passed of its newest
full publication. -/
def NothingDue (collation : String → String → Ordering) (t : Tables) (key : CharacterKey)
    (now : Instant) : Prop :=
  t.aliasRecollections key = none ∧
    (∀ row ∈ EvidenceReservations.rankedContinuations collation t key, now < row.dueAt) ∧
    ∀ latest, t.latestFull key = some latest →
      ∀ retryAfterAt, latest.2.retryAfterAt = some retryAfterAt → now < dateOf retryAfterAt

theorem dateOf_mono {a b : ℕ} (h : a ≤ b) : dateOf a ≤ dateOf b := by
  show a - a % 1000 ≤ b - b % 1000
  omega

theorem dateOf_dateOf (a : ℕ) : dateOf (dateOf a) = dateOf a := by
  show a - a % 1000 - (a - a % 1000) % 1000 = a - a % 1000
  omega

section Fresh
variable {t : Tables} {key : CharacterKey}

theorem exists_latestFull (hdated : AllDated t) {id : ℕ} {run : EvidenceRun}
    (hrun : t.store.runs.get? id = some run) (hkey : run.key = key)
    (hpublished : run.status.published.isSome = true) (hmode : run.mode = .full) :
    ∃ latest completedAt, t.latestFull key = some latest ∧
      t.store.runs.get? latest.1 = some latest.2 ∧
      latest.2.status.published.isSome = true ∧ latest.2.completedAt = some completedAt ∧
      dateOf run.createdAt ≤ dateOf completedAt := by
  obtain ⟨-, ⟨own, hown, hafter⟩, hscope⟩ := hdated id run hrun hpublished
  have hmem : (id, run) ∈ t.store.runs.entries.filter (fun entry =>
      Tables.isPublished key entry.2 && entry.2.publicationScope = .full) := by
    refine mem_filter.mpr ⟨(t.store.runs.mem_entries_iff _ _).mpr hrun, ?_⟩
    unfold EvidenceReservations.Tables.isPublished
    simp [hkey, hpublished, hscope hmode]
  cases hlatest : t.latestFull key with
  | none =>
    have hempty := argmax_eq_none.mp hlatest
    rw [hempty] at hmem
    exact absurd hmem not_mem_nil
  | some latest =>
    have hlatestMem := mem_filter.mp (argmax_mem hlatest)
    have hget := (t.store.runs.mem_entries_iff latest.1 latest.2).mp hlatestMem.1
    have hlatestPublished : latest.2.status.published.isSome = true := by
      have hboth := hlatestMem.2
      unfold EvidenceReservations.Tables.isPublished at hboth
      simp only [Bool.and_eq_true] at hboth
      exact hboth.1.2
    obtain ⟨-, ⟨completedAt, hcompleted, -⟩, -⟩ := hdated latest.1 latest.2 hget hlatestPublished
    have horder : Store.completedOrder (id, run) ≤ Store.completedOrder latest :=
      le_of_mem_argmax hmem hlatest
    have hle : own ≤ completedAt := by
      unfold Store.completedOrder at horder
      rw [hown, hcompleted, Prod.Lex.toLex_le_toLex] at horder
      rcases horder with hlt | hsame
      · exact (WithTop.coe_lt_coe.mp hlt).le
      · exact (WithTop.coe_eq_coe.mp hsame.1).le
    refine ⟨latest, completedAt, rfl, hget, hlatestPublished, hcompleted, ?_⟩
    rw [← dateOf_dateOf run.createdAt]
    exact dateOf_mono (hafter.trans hle)

theorem reserve_fresh (collation : String → String → Ordering) (hdated : AllDated t) {id : ℕ}
    {run : EvidenceRun} {request : EvidenceReservations.ReserveInput}
    (hrun : t.store.runs.get? id = some run) (hkey : run.key = request.key)
    (hpublished : run.status.published.isSome = true) (hmode : run.mode = .full)
    (hcutoff : request.freshnessCutoff ≤ dateOf run.createdAt)
    (hdue : NothingDue collation t request.key request.now) (new : ℕ) (now : Instant) :
    ∃ completed active resumesAt,
      EvidenceReservations.reserve collation t request new now =
        (.ok (.fresh completed active resumesAt), t) := by
  obtain ⟨latest, completedAt, hlatest, hget, hlatestPublished, hcompleted, hle⟩ :=
    exists_latestFull hdated hrun hkey hpublished hmode
  obtain ⟨hversion, -, -⟩ := hdated latest.1 latest.2 hget hlatestPublished
  obtain ⟨halias, hwalks, hretry⟩ := hdue
  have hselection : ∃ selection, t.loadCompletedEvidenceSelection request.key = some selection ∧
      selection.evidenceVersion = t.evidenceVersions selection.run.1 := by
    unfold EvidenceReservations.Tables.loadCompletedEvidenceSelection
    cases hsnapshot : t.store.newestCompleted (Tables.isPublished request.key) with
    | some snapshot => exact ⟨_, rfl, rfl⟩
    | none =>
      have hempty := argmax_eq_none.mp hsnapshot
      have hmem : (id, run) ∈ t.store.runs.entries.filter (fun entry =>
          Tables.isPublished request.key entry.2) := by
        refine mem_filter.mpr ⟨(t.store.runs.mem_entries_iff _ _).mpr hrun, ?_⟩
        unfold EvidenceReservations.Tables.isPublished
        simp [hkey, hpublished]
      rw [hempty] at hmem
      exact absurd hmem not_mem_nil
  obtain ⟨selection, hselection, hselected⟩ := hselection
  have hsame := EvidenceReservations.run_of_selection hselection hlatest
  have hfresh : EvidenceReservations.isFresh selection request.freshnessCutoff request.now =
      true := by
    unfold EvidenceReservations.isFresh EvidenceReservations.isEvidenceFresh
    rw [hselected, hsame, hcompleted]
    have hcutoff' := hcutoff.trans hle
    cases hretryAt : latest.2.retryAfterAt with
    | none => simp [hversion, hcutoff']
    | some retryAfterAt =>
      have hlater := hretry latest hlatest retryAfterAt hretryAt
      simp [hversion, hcutoff', hlater]
  have hnone : (EvidenceReservations.rankedContinuations collation t request.key).find?
      (fun row => row.dueAt ≤ request.now) = none := by
    rw [find?_eq_none]
    intro row hrow
    have hlater := hwalks row hrow
    simpa using hlater
  unfold EvidenceReservations.reserve
  dsimp only
  rw [hselection, hnone, halias]
  dsimp only
  rw [hfresh]
  exact ⟨_, _, _, rfl⟩

end Fresh

/-! What one await does. -/

section Turns
variable (collation : String → String → Ordering) (catalogue : Catalogue)
  (input : CollectionInput)

/-- An await keeps the rows of both tables, and what it reserves is a run of the
intent's character, of now. -/
structure Turn (w w' : World) : Prop where
  clock : w'.clock = w.clock
  discovery : DiscoveryReservations.Kept w.discovery w'.discovery
  evidence : KeepsRows w.evidence w'.evidence
  discoveryReserved : w'.discoveryReserved = w.discoveryReserved ∨
    ∃ id run, w'.discoveryReserved = w.discoveryReserved ++ [id] ∧
      w'.discovery.runs.get? id = some run ∧ run.rootKey = input.key ∧ run.createdAt = w.clock
  evidenceReserved : w'.evidenceReserved = w.evidenceReserved ∨
    ∃ id run, w'.evidenceReserved = w.evidenceReserved ++ [id] ∧
      w'.evidence.store.runs.get? id = some run ∧ run.key = input.key ∧ run.createdAt = w.clock

theorem Turn.refl (w : World) : Turn input w w :=
  ⟨rfl, .refl _, .refl _, .inl rfl, .inl rfl⟩

variable {input}

theorem Turn.ofDiscovery {w : World} {discovery : DiscoveryTables}
    (h : DiscoveryReservations.Kept w.discovery discovery) :
    Turn input w { w with discovery := discovery } :=
  ⟨rfl, h, .refl _, .inl rfl, .inl rfl⟩

theorem Turn.ofEvidence {w : World} {evidence : Tables} (h : KeepsRows w.evidence evidence) :
    Turn input w { w with evidence := evidence } :=
  ⟨rfl, .refl _, h, .inl rfl, .inl rfl⟩

variable (input)

theorem turn_onDiscoveryReservation {w : World}
    {result : Except Fault DiscoveryReservations.Reservation × DiscoveryTables}
    (hkept : DiscoveryReservations.Kept w.discovery result.2)
    (hrow : ∀ id, result.1 = .ok (.reserved id) → ∃ run, result.2.runs.get? id = some run ∧
      run.rootKey = input.key ∧ run.createdAt = w.clock) :
    Turn input w (onDiscoveryReservation w result).1 := by
  obtain ⟨answer, discovery⟩ := result
  cases answer with
  | error fault => exact .refl input w
  | ok reservation =>
    cases reservation with
    | suppressed | fresh | negative | rateLimited _ => exact .ofDiscovery hkept
    | active id run =>
      unfold onDiscoveryReservation
      dsimp only
      split <;> exact .ofDiscovery hkept
    | reserved id =>
      obtain ⟨run, hget, hroot, hcreated⟩ := hrow id rfl
      exact ⟨rfl, hkept, .refl _, .inr ⟨id, run, rfl, hget, hroot, hcreated⟩, .inl rfl⟩

variable (response : Response)

theorem turn_reserveDiscovery (w : World) :
    Turn input w (reserveDiscovery input response w).1 :=
  turn_onDiscoveryReservation input (DiscoveryReservations.kept_reserve _ _ _)
    (fun _ h => DiscoveryReservations.row_of_reserved h)

theorem turn_onEvidenceReservation (reserved : Bool) {w : World}
    {result : Except Fault EvidenceReservations.Reservation × Tables}
    (h : Writes w.evidence input.key w.clock result) :
    Turn input w (onEvidenceReservation reserved w result).1 := by
  obtain ⟨answer, evidence⟩ := result
  obtain ⟨hkept, hrow⟩ := h
  cases answer with
  | error fault => exact .refl input w
  | ok reservation =>
    cases reservation with
    | fresh _ _ _ | active _ _ => exact .ofEvidence hkept
    | reserved id light completed current =>
      obtain ⟨run, hget, hkey, hcreated⟩ := hrow id light completed current rfl
      exact ⟨rfl, .refl _, hkept, .inl rfl, .inr ⟨id, run, rfl, hget, hkey, hcreated⟩⟩

theorem turn_reserveEvidence (reserved : Bool) (w : World) :
    Turn input w (reserveEvidence collation input response reserved w).1 :=
  turn_onEvidenceReservation input reserved
    (writes_reserve collation w.evidence (evidenceRequest input (dateOf w.clock)) _ _)

theorem turn_advance (w : World) (await : Await) :
    Turn input w (advance collation input response w await).1 := by
  cases await with
  | isActive | isActiveAgain _ =>
    unfold advance
    dsimp only
    split <;> exact .refl input w
  | reserve => exact turn_reserveDiscovery input response w
  | getCharacter run => exact .refl input w
  | cancel run =>
    have hkept := @DiscoveryReservations.kept_cancel w.discovery run
    unfold advance
    dsimp only
    split
    · exact .refl input w
    · next discovery hcancel =>
      rw [hcancel] at hkept
      exact .ofDiscovery hkept
  | enqueue run reserved =>
    unfold advance
    dsimp only
    split <;> exact .refl input w
  | markEnqueued run queueJobId reserved =>
    have hkept := @DiscoveryReservations.kept_markEnqueued w.discovery run queueJobId
    unfold advance
    dsimp only
    split
    · exact .refl input w
    · next discovery hmark =>
      rw [hmark] at hkept
      exact .ofDiscovery hkept
  | reserveEvidence reserved => exact turn_reserveEvidence collation input response reserved w
  | enqueueEvidence run outcome =>
    unfold advance
    dsimp only
    split <;> exact .refl input w
  | markEvidenceEnqueued run queueJobId outcome =>
    have hkept := keepsRows_markEnqueued w.evidence run queueJobId
    unfold advance
    dsimp only
    split
    · exact .refl input w
    · next store hmark =>
      rw [hmark] at hkept
      exact .ofEvidence hkept
  | promote outcome => exact .refl input w

end Turns

/-! What holds along a run. -/

section Runs
variable {collation : String → String → Ordering} {catalogue : Catalogue}
  {input : CollectionInput}

/-- The tables are sound, a replay under way was started after the intent was
observed, and what replays reserved are runs of its character, reserved since. -/
structure Held (input : CollectionInput) (w : World) : Prop where
  discovery : DiscoveryReservations.Sound w.discovery
  evidence : AllDated w.evidence
  started : ∀ replay, w.replays replay ≠ none → input.observedAt ≤ w.clock
  discoveryReserved : ∀ id ∈ w.discoveryReserved, ∃ run, w.discovery.runs.get? id = some run ∧
    run.rootKey = input.key ∧ input.observedAt ≤ run.createdAt
  evidenceReserved : ∀ id ∈ w.evidenceReserved, ∃ run, w.evidence.store.runs.get? id = some run ∧
    run.key = input.key ∧ input.observedAt ≤ run.createdAt

theorem held_start : Held input .start where
  discovery := DiscoveryReservations.sound_empty
  evidence id run h := by cases h
  started replay h := absurd rfl h
  discoveryReserved id h := absurd h not_mem_nil
  evidenceReserved id h := absurd h not_mem_nil

variable {w : World}

variable {w' : World}

theorem Held.keep (h : Held input w)
    (hdiscovery : DiscoveryReservations.Kept w.discovery w'.discovery)
    (hevidence : KeepsRows w.evidence w'.evidence)
    (hstarted : ∀ replay, w'.replays replay ≠ none → input.observedAt ≤ w'.clock)
    (hdiscoveryReserved : ∀ id ∈ w'.discoveryReserved, id ∈ w.discoveryReserved ∨
      ∃ run, w'.discovery.runs.get? id = some run ∧ run.rootKey = input.key ∧
        input.observedAt ≤ run.createdAt)
    (hevidenceReserved : ∀ id ∈ w'.evidenceReserved, id ∈ w.evidenceReserved ∨
      ∃ run, w'.evidence.store.runs.get? id = some run ∧ run.key = input.key ∧
        input.observedAt ≤ run.createdAt) : Held input w' where
  discovery := hdiscovery.sound h.discovery
  evidence := hevidence.dated h.evidence
  started := hstarted
  discoveryReserved id hid := by
    rcases hdiscoveryReserved id hid with hold | hnew
    · obtain ⟨run, hrun, hroot, hcreated⟩ := h.discoveryReserved id hold
      obtain ⟨run', hrun', hfollows⟩ := hdiscovery.rows id run hrun
      refine ⟨run', hrun', hfollows.rootKey.trans hroot, ?_⟩
      rw [hfollows.createdAt]
      exact hcreated
    · exact hnew
  evidenceReserved id hid := by
    rcases hevidenceReserved id hid with hold | hnew
    · obtain ⟨run, hrun, hkey, hcreated⟩ := h.evidenceReserved id hold
      obtain ⟨run', hrun', htraces⟩ := hevidence.rows id run hrun
      refine ⟨run', hrun', htraces.key.trans hkey, ?_⟩
      rw [htraces.createdAt]
      exact hcreated
    · exact hnew

theorem Held.turn (h : Held input w) (hobserved : input.observedAt ≤ w.clock)
    (hturn : Turn input w w') (replays : ℕ → Option Await) (results : List (ℕ × Option Outcome)) :
    Held input { w' with replays := replays, results := results } := by
  have hclock : input.observedAt ≤ w'.clock := by
    rw [hturn.clock]
    exact hobserved
  refine h.keep hturn.discovery hturn.evidence (fun _ _ => hclock) (fun id hid => ?_)
    (fun id hid => ?_)
  · rcases hturn.discoveryReserved with hsame | ⟨new, run, hnew, hget, hroot, hcreated⟩
    · exact .inl (hsame ▸ hid)
    · have hmem : id ∈ w.discoveryReserved ++ [new] := hnew ▸ hid
      rcases mem_append.mp hmem with hold | hlast
      · exact .inl hold
      · rw [mem_singleton.mp hlast]
        exact .inr ⟨run, hget, hroot, hcreated ▸ hobserved⟩
  · rcases hturn.evidenceReserved with hsame | ⟨new, run, hnew, hget, hkey, hcreated⟩
    · exact .inl (hsame ▸ hid)
    · have hmem : id ∈ w.evidenceReserved ++ [new] := hnew ▸ hid
      rcases mem_append.mp hmem with hold | hlast
      · exact .inl hold
      · rw [mem_singleton.mp hlast]
        exact .inr ⟨run, hget, hkey, hcreated ▸ hobserved⟩

theorem Held.goOn (h : Held input w) (hobserved : input.observedAt ≤ w.clock)
    (hturn : Turn input w w') (replay : ℕ) (next : Next) : Held input (goOn replay (w', next)) := by
  cases next with
  | await next => exact h.turn hobserved hturn _ w'.results
  | returned outcome => exact h.turn hobserved hturn _ _
  | threw => exact h.turn hobserved hturn _ _

theorem held_step (h : Held input w) (action : Action) :
    Held input (step collation catalogue input w action) := by
  cases action with
  | tick passed =>
    refine h.keep (.refl _) (.refl _) (fun replay hreplay => ?_) (fun _ => .inl) (fun _ => .inl)
    exact (h.started replay hreplay).trans (Nat.le_add_right _ _)
  | start replay =>
    unfold step
    dsimp only
    split
    · next hstart =>
      exact h.keep (.refl _) (.refl _) (fun _ _ => hstart.1) (fun _ => .inl) (fun _ => .inl)
    · exact h
  | advance replay response =>
    unfold step
    dsimp only
    cases hawait : w.replays replay with
    | none => exact h
    | some await =>
      have hobserved : input.observedAt ≤ w.clock :=
        h.started replay (by rw [hawait]; exact Option.some_ne_none _)
      exact h.goOn hobserved (turn_advance collation input response w await) replay _
  | crash replay =>
    refine h.keep (.refl _) (.refl _) (fun other hother => ?_) (fun _ => .inl) (fun _ => .inl)
    by_cases hsame : other = replay
    · subst hsame
      exact absurd (Function.update_self _ _ _) hother
    · have hbefore : (step collation catalogue input w (.crash replay)).replays other =
          w.replays other := Function.update_of_ne hsame _ _
      exact h.started other (hbefore ▸ hother)
  | discovery operation =>
    exact h.keep (DiscoveryReservations.kept_perform _ _) (.refl _) h.started (fun _ => .inl)
      (fun _ => .inl)
  | evidence operation =>
    exact h.keep (.refl _) (keepsRows_performEvidence collation catalogue _ _ _) h.started
      (fun _ => .inl) (fun _ => .inl)

theorem held_of_run (actions : List Action) :
    Held input (Runs.after (step collation catalogue input) .start actions) :=
  Runs.keeps (Held input) (fun _ action h => held_step h action) held_start actions

/-- A discovery run reserved for the intent ended with a snapshot of its own, or
with a live sweep's that was refreshed after the cutoff. -/
def DiscoveryCompleted (input : CollectionInput) (w : World) : Prop :=
  ∃ id run snapshotId snapshot, id ∈ w.discoveryReserved ∧
    w.discovery.runs.get? id = some run ∧ run.status = .complete ∧
    run.snapshotId = some snapshotId ∧ w.discovery.snapshots.get? snapshotId = some snapshot ∧
    (snapshot.discoveryRunId = id ∨ input.discoveryCutoff < snapshot.refreshedAt)

/-- An evidence run reserved for the intent, and not to search a tier, was
published complete. -/
def EvidenceCompleted (w : World) : Prop :=
  ∃ id run, id ∈ w.evidenceReserved ∧ w.evidence.store.runs.get? id = some run ∧
    run.mode = .full ∧ run.status = .complete

/-- The root is current for every replay once a run reserved for it has so ended. -/
theorem current_of_completed (h : Held input w) (hcompleted : DiscoveryCompleted input w) :
    w.discovery.hasCurrent input.key input.discoveryCutoff = true := by
  obtain ⟨id, run, snapshotId, snapshot, hid, hrun, hstatus, hsnapshotId, hsnapshot, hends⟩ :=
    hcompleted
  obtain ⟨row, hrow, hroot, hcreated⟩ := h.discoveryReserved id hid
  obtain rfl : row = run := Option.some.inj (hrow.symm.trans hrun)
  have hfresh : input.discoveryCutoff < snapshot.refreshedAt := by
    rcases hends with hown | hfresh
    · obtain ⟨owner, howner, -, -, hrefreshed⟩ := h.discovery.owned snapshotId snapshot hsnapshot
      rw [hown] at howner
      obtain rfl : owner = row := Option.some.inj (howner.symm.trans hrow)
      have hobserved := (dateOf_mono hcreated).trans hrefreshed
      have hhours : 0 < input.discoveryFreshnessHours * hour :=
        Nat.mul_pos input.discoveryFreshnessHours_pos (by decide)
      unfold CollectionInput.discoveryCutoff
      have hobserved' : (dateOf input.observedAt : ℤ) ≤ (snapshot.refreshedAt : ℤ) :=
        Int.ofNat_le.mpr hobserved
      have hhours' : (0 : ℤ) < input.discoveryFreshnessHours * hour := by
        exact_mod_cast hhours
      omega
    · exact hfresh
  rw [← hroot]
  exact DiscoveryReservations.hasCurrent_of_complete h.discovery hrow hstatus hsnapshotId hsnapshot
    hfresh

theorem onDiscoveryReservation_reserved
    {result : Except Fault DiscoveryReservations.Reservation × DiscoveryTables}
    (h : ∀ id, result.1 ≠ .ok (.reserved id)) :
    (onDiscoveryReservation w result).1.discoveryReserved = w.discoveryReserved := by
  obtain ⟨answer, discovery⟩ := result
  cases answer with
  | error fault => rfl
  | ok reservation =>
    cases reservation with
    | suppressed | fresh | negative | rateLimited _ => rfl
    | active id run =>
      unfold onDiscoveryReservation
      dsimp only
      split <;> rfl
    | reserved id => exact absurd rfl (h id)

theorem onDiscoveryReservation_evidence (w : World)
    (result : Except Fault DiscoveryReservations.Reservation × DiscoveryTables) :
    (onDiscoveryReservation w result).1.evidenceReserved = w.evidenceReserved := by
  obtain ⟨answer, discovery⟩ := result
  cases answer with
  | error fault => rfl
  | ok reservation =>
    cases reservation with
    | suppressed | fresh | negative | rateLimited _ | reserved _ => rfl
    | active id run =>
      unfold onDiscoveryReservation
      dsimp only
      split <;> rfl

theorem onEvidenceReservation_discovery (reserved : Bool) (w : World)
    (result : Except Fault EvidenceReservations.Reservation × Tables) :
    (onEvidenceReservation reserved w result).1.discoveryReserved = w.discoveryReserved := by
  obtain ⟨answer, evidence⟩ := result
  cases answer with
  | error fault => rfl
  | ok reservation => cases reservation <;> rfl

variable (response : Response)

theorem reserved_advance (w : World) {await : Await} (hdiscovery : await ≠ .reserve)
    (hevidence : ∀ reserved, await ≠ .reserveEvidence reserved) :
    (advance collation input response w await).1.discoveryReserved = w.discoveryReserved ∧
    (advance collation input response w await).1.evidenceReserved = w.evidenceReserved := by
  cases await with
  | reserve => exact absurd rfl hdiscovery
  | reserveEvidence reserved => exact absurd rfl (hevidence reserved)
  | getCharacter run | promote outcome => exact ⟨rfl, rfl⟩
  | isActive | isActiveAgain _ | cancel _ | enqueue _ _ | markEnqueued _ _ _ | enqueueEvidence _ _
  | markEvidenceEnqueued _ _ _ =>
    unfold advance
    dsimp only
    split <;> exact ⟨rfl, rfl⟩

/-- An await of a current root reserves no discovery run. -/
theorem discoveryReserved_advance
    (hcurrent : w.discovery.hasCurrent input.key input.discoveryCutoff = true) (await : Await) :
    (advance collation input response w await).1.discoveryReserved = w.discoveryReserved := by
  by_cases hreserve : await = .reserve
  · subst hreserve
    exact onDiscoveryReservation_reserved (DiscoveryReservations.reserve_of_current hcurrent _ _)
  · by_cases hevidence : ∃ reserved, await = .reserveEvidence reserved
    · obtain ⟨reserved, rfl⟩ := hevidence
      exact onEvidenceReservation_discovery reserved w _
    · exact (reserved_advance response w hreserve (fun reserved h => hevidence ⟨reserved, h⟩)).1

/-- An await reserves no evidence run once one was published and nothing is due. -/
theorem evidenceReserved_advance (h : Held input w) (hcompleted : EvidenceCompleted w)
    (hdue : NothingDue collation w.evidence input.key (dateOf w.clock)) (await : Await) :
    (advance collation input response w await).1.evidenceReserved = w.evidenceReserved := by
  by_cases hreserve : await = .reserve
  · subst hreserve
    exact onDiscoveryReservation_evidence w _
  · by_cases hevidence : ∃ reserved, await = .reserveEvidence reserved
    · obtain ⟨reserved, rfl⟩ := hevidence
      obtain ⟨id, run, hid, hrun, hmode, hstatus⟩ := hcompleted
      obtain ⟨row, hrow, hkey, hcreated⟩ := h.evidenceReserved id hid
      obtain rfl : row = run := Option.some.inj (hrow.symm.trans hrun)
      have hcutoff : input.evidenceCutoff ≤ dateOf row.createdAt :=
        (Nat.sub_le _ _).trans (dateOf_mono hcreated)
      obtain ⟨completed, active, resumesAt, hfresh⟩ := @reserve_fresh w.evidence collation
        h.evidence id row (evidenceRequest input (dateOf w.clock)) hrow hkey (by rw [hstatus]; rfl)
        hmode hcutoff hdue response.id w.clock
      show (onEvidenceReservation reserved w _).1.evidenceReserved = _
      rw [hfresh]
      rfl
    · exact (reserved_advance response w hreserve (fun reserved h => hevidence ⟨reserved, h⟩)).2

theorem goOn_reserved (replay : ℕ) (result : World × Next) :
    (goOn replay result).discoveryReserved = result.1.discoveryReserved ∧
    (goOn replay result).evidenceReserved = result.1.evidenceReserved := by
  obtain ⟨w, next⟩ := result
  cases next <;> exact ⟨rfl, rfl⟩

end Runs

/-- Of all the replays of an intent, wherever each of them crashes and whatever
else is done to the tables, none reserves a discovery run once one ended with a
snapshot of its own or with one newer than the cutoff, and none reserves an
evidence run once one was published complete, unless something fell due since. -/
theorem replays_reserve_once (collation : String → String → Ordering) (catalogue : Catalogue)
    (input : CollectionInput) (actions : List Action) (action : Action) :
    let w := Runs.after (step collation catalogue input) .start actions
    let w' := step collation catalogue input w action
    (DiscoveryCompleted input w → w'.discoveryReserved = w.discoveryReserved) ∧
    (EvidenceCompleted w → NothingDue collation w.evidence input.key (dateOf w.clock) →
      w'.evidenceReserved = w.evidenceReserved) := by
  intro w w'
  have hheld : Held input w := held_of_run actions
  cases action with
  | tick passed | crash replay | discovery operation | evidence operation =>
    exact ⟨fun _ => rfl, fun _ _ => rfl⟩
  | start replay =>
    have hstart : w'.discoveryReserved = w.discoveryReserved ∧
        w'.evidenceReserved = w.evidenceReserved := by
      show (step collation catalogue input w (.start replay)).discoveryReserved =
          w.discoveryReserved ∧
        (step collation catalogue input w (.start replay)).evidenceReserved = w.evidenceReserved
      unfold step
      dsimp only
      split <;> exact ⟨rfl, rfl⟩
    exact ⟨fun _ => hstart.1, fun _ _ => hstart.2⟩
  | advance replay response =>
    cases hawait : w.replays replay with
    | none =>
      have hsame : w' = w := by
        show step collation catalogue input w (.advance replay response) = w
        unfold step
        dsimp only
        rw [hawait]
      rw [hsame]
      exact ⟨fun _ => rfl, fun _ _ => rfl⟩
    | some await =>
      have hnext : w' = goOn replay (advance collation input response w await) := by
        show step collation catalogue input w (.advance replay response) = _
        unfold step
        dsimp only
        rw [hawait]
      have hreserved := goOn_reserved replay (advance collation input response w await)
      rw [hnext, hreserved.1, hreserved.2]
      exact ⟨fun hcompleted => discoveryReserved_advance response
          (current_of_completed hheld hcompleted) await,
        fun hcompleted hdue => evidenceReserved_advance response hheld hcompleted hdue await⟩

/-! Replays that reserve again. -/

def sheetKey : CharacterKey := ⟨.eu, "draenor", "ana"⟩

/-- An applicant observed a day and an hour after the epoch. -/
def sheetIntent : CollectionInput := ⟨sheetKey, 25 * hour, 24, 72, by decide⟩

def noRaids : Catalogue := ⟨fun _ => false, fun _ => none, compare⟩

def answered (id : ℕ) : Response := ⟨id, true, "job"⟩

/-- A visitor's run publishes a snapshot that its sweep goes on extending; a day
later a replay reserves a run and crashes, and that run is completed with the
snapshot of the day before. -/
def completedByLiveSweep : List Action :=
  [.discovery (.reserve ⟨sheetKey, "visitor", 10, 0, hour, -1⟩ 0), .discovery (.claim 0 1),
    .discovery (.createSnapshot 0 0 0 (some (some "thrall"))), .tick (25 * hour), .start 0,
    .advance 0 (answered 1), .advance 0 (answered 1), .advance 0 (answered 1),
    .advance 0 (answered 1), .advance 0 (answered 1), .crash 0, .discovery (.claim 1 1),
    .discovery (.completeWithLiveSweepSnapshot 1 0), .start 1, .advance 1 (answered 2)]

def nothingFound : EvidencePublication where
  state := .complete
  scanSkipped := false
  omittedInvalidTimestamp := false
  historyScanResumePage := none
  historyScanResumeBoundaryReportCode := none
  rankedBackfillCursor := none
  limitationCode := none
  parseLimitationCode := none
  parseLimitationCodesSeen := []
  retryAfterAt := none
  kills := []
  wipes := []
  tierBests := []
  cuttingEdges := []
  raiderIoFirstKills := none
  parsedFightUrls := []
  completedAt := 25 * hour

/-- A replay reserves both runs and crashes; both are published, and then the
character's aliases are asked to be collected again. -/
def aliasesAskedFor : List Action :=
  [.tick (25 * hour), .start 0, .advance 0 (answered 1), .advance 0 (answered 1),
    .advance 0 (answered 1), .advance 0 (answered 1), .advance 0 (answered 1),
    .advance 0 (answered 1), .advance 0 (answered 1), .crash 0, .discovery (.claim 1 1),
    .discovery (.createSnapshot 1 0 (25 * hour) none), .evidence (.claim 1 1),
    .evidence (.publish 1 nothingFound (.collection true)),
    .evidence (.requestAliasRecollection sheetKey), .start 1, .advance 1 (answered 2),
    .advance 1 (answered 2), .advance 1 (answered 2)]

theorem replays_reserve_again :
    let swept := Runs.after (step compare noRaids sheetIntent) .start completedByLiveSweep
    let asked := Runs.after (step compare noRaids sheetIntent) .start aliasesAskedFor
    (swept.discoveryReserved = [1] ∧
      (swept.discovery.runs.get? 1).map DiscoveryReservations.DiscoveryRun.status =
        some .complete ∧
      (step compare noRaids sheetIntent swept (.advance 1 (answered 2))).discoveryReserved =
        [1, 2]) ∧
    asked.evidenceReserved = [1] ∧
      (asked.evidence.store.runs.get? 1).map EvidenceRun.status = some .complete ∧
      (step compare noRaids sheetIntent asked (.advance 1 (answered 2))).evidenceReserved =
        [1, 2] := by
  refine ⟨⟨?_, ?_, ?_⟩, ?_, ?_, ?_⟩ <;> decide +kernel

end SlashWho.ApplicantCollections
