import SlashWho.FingerprintFence

/-!
The dispatch loop over admitted rows that were never sent back to discovery. It lists a
page of their runs, sends each run the message of the row it is described by, marks that row
dispatched and lists again until nothing is listed. The queue accepts what it is sent, and
nobody else writes meanwhile.
-/

namespace SlashWho.FingerprintBacklog

open List Characters FingerprintSweeps FingerprintDelivery FingerprintFence

/-- The run is open, or the row continues a chain. -/
def runAwaits (t : SweepTables) (a : Admission) : Bool :=
  match t.findRun a.discoveryRunId with
  | none => false
  | some run => run.active || a.dispatchKind = some .continuation

def isListed (t : SweepTables) (a : Admission) : Bool :=
  (a.status = .admitted || a.status = .notDue) && a.dispatchedAt.isNone &&
    a.consumedAt.isNone && a.executionJobId.isNone && a.attemptBase.isSome && runAwaits t a &&
    isNewest t a

/-- The rows a dispatch is owed to, in the order they were requested. -/
def undispatched (t : SweepTables) : List Admission :=
  (t.admissions.filter (isListed t)).insertionSort
    (fun left right => queuePosition left ≤ queuePosition right)

def listAdmittedUndispatched (t : SweepTables) (limit : ℕ) : List ℕ :=
  ((undispatched t).take limit).map Admission.discoveryRunId

def isDescribed (t : SweepTables) (runId : ℕ) (a : Admission) : Bool :=
  a.discoveryRunId = runId && a.consumedAt.isNone &&
    (a.status = .admitted || a.status = .notDue) && a.attemptBase.isSome &&
    a.executionJobId.isNone && runAwaits t a && isNewest t a

def descriptor (t : SweepTables) (runId : ℕ) : Option Admission :=
  (t.admissions.filter (isDescribed t runId)).argmax Admission.queueOrder

/-- What is sent to discovery. -/
structure DiscoverCharacterJob where
  runId : ℕ
  key : CharacterKey
  admissionId : ℕ
  attemptBase : ℕ
  continuation : Bool
  deriving DecidableEq

def jobOf (runId : ℕ) (run : DiscoveryRun) (a : Admission) : DiscoverCharacterJob where
  runId := runId
  key := run.rootKey
  admissionId := a.id
  attemptBase := a.attemptBase.getD 0
  continuation := a.dispatchKind = some .continuation

/-- Sends an admitted run back to discovery. -/
def dispatch (clock : ℕ → ℕ) (t : SweepTables) (runId : ℕ) :
    SweepTables × List DiscoverCharacterJob :=
  match t.findRun runId with
  | none => (t, [])
  | some run =>
    match descriptor t runId with
    | none => (t, [])
    | some a => (markDispatched t a.id (clock a.id), [jobOf runId run a])

def dispatchAll (clock : ℕ → ℕ) (t : SweepTables) :
    List ℕ → SweepTables × List DiscoverCharacterJob
  | [] => (t, [])
  | runId :: rest =>
    let first := dispatch clock t runId
    let others := dispatchAll clock first.1 rest
    (others.1, first.2 ++ others.2)

/-- The loop, for so many rounds at most. -/
def drainAdmitted (clock : ℕ → ℕ) : ℕ → SweepTables →
    Option (SweepTables × List DiscoverCharacterJob)
  | 0, _ => none
  | rounds + 1, t =>
    match listAdmittedUndispatched t 100 with
    | [] => some (t, [])
    | runIds =>
      let page := dispatchAll clock t runIds
      (drainAdmitted clock rounds page.1).map (fun rest => (rest.1, page.2 ++ rest.2))

/-! ### The predicates agree -/

variable {t t' : SweepTables} {a b : Admission}

/-- What the list and the descriptor ask of a row, its dispatch apart. -/
structure Owed (t : SweepTables) (a : Admission) : Prop where
  status : a.status = .admitted ∨ a.status = .notDue
  consumedAt : a.consumedAt = none
  executionJobId : a.executionJobId = none
  attemptBase : a.attemptBase.isSome = true
  awaits : runAwaits t a = true
  newest : isNewest t a = true

theorem isListed_iff : isListed t a = true ↔ Owed t a ∧ a.dispatchedAt = none := by
  simp only [isListed, Bool.and_eq_true, Bool.or_eq_true, decide_eq_true_eq,
    Option.isNone_iff_eq_none]
  constructor
  · rintro ⟨⟨⟨⟨⟨⟨hstatus, hdispatched⟩, hconsumed⟩, hjob⟩, hbase⟩, hawaits⟩, hnewest⟩
    exact ⟨⟨hstatus, hconsumed, hjob, hbase, hawaits, hnewest⟩, hdispatched⟩
  · rintro ⟨howed, hdispatched⟩
    exact ⟨⟨⟨⟨⟨⟨howed.status, hdispatched⟩, howed.consumedAt⟩, howed.executionJobId⟩,
      howed.attemptBase⟩, howed.awaits⟩, howed.newest⟩

theorem isDescribed_iff {runId : ℕ} :
    isDescribed t runId a = true ↔ a.discoveryRunId = runId ∧ Owed t a := by
  simp only [isDescribed, Bool.and_eq_true, Bool.or_eq_true, decide_eq_true_eq,
    Option.isNone_iff_eq_none]
  constructor
  · rintro ⟨⟨⟨⟨⟨⟨hrun, hconsumed⟩, hstatus⟩, hbase⟩, hjob⟩, hawaits⟩, hnewest⟩
    exact ⟨hrun, hstatus, hconsumed, hjob, hbase, hawaits, hnewest⟩
  · rintro ⟨hrun, howed⟩
    exact ⟨⟨⟨⟨⟨⟨hrun, howed.consumedAt⟩, howed.status⟩, howed.attemptBase⟩,
      howed.executionJobId⟩, howed.awaits⟩, howed.newest⟩

theorem descriptor_of_listed (hinv : QueueInv t) (ha : a ∈ t.admissions)
    (h : isListed t a = true) : descriptor t a.discoveryRunId = some a := by
  obtain ⟨howed, -⟩ := isListed_iff.mp h
  have hmem : a ∈ t.admissions.filter (isDescribed t a.discoveryRunId) :=
    mem_filter.mpr ⟨ha, isDescribed_iff.mpr ⟨rfl, howed⟩⟩
  unfold descriptor
  cases hdescribed : (t.admissions.filter (isDescribed t a.discoveryRunId)).argmax
      Admission.queueOrder with
  | none =>
    rw [argmax_eq_none.mp hdescribed] at hmem
    cases hmem
  | some b =>
    obtain ⟨hb, hdescribes⟩ := mem_filter.mp (argmax_mem hdescribed)
    obtain ⟨hrun, hbOwed⟩ := isDescribed_iff.mp hdescribes
    rw [eq_of_isNewest hinv hb ha hrun hbOwed.newest howed.newest]

/-- Tables whose rows were marked dispatched, and which are otherwise the same. -/
structure Marked (t t' : SweepTables) : Prop where
  runs : t'.runs = t.runs
  snapshots : t'.snapshots = t.snapshots
  states : t'.states = t.states
  nextQueueOrder : t'.nextQueueOrder = t.nextQueueOrder
  rows : ∃ f : Admission → Admission, t'.admissions = t.admissions.map f ∧
    ∀ a, ∃ dispatchedAt, f a = { a with dispatchedAt := dispatchedAt }

theorem Marked.refl (t : SweepTables) : Marked t t :=
  ⟨rfl, rfl, rfl, rfl, id, (map_id _).symm, fun a => ⟨a.dispatchedAt, rfl⟩⟩

theorem Marked.trans {t'' : SweepTables} (h : Marked t t') (h' : Marked t' t'') :
    Marked t t'' := by
  obtain ⟨f, hrows, hf⟩ := h.rows
  obtain ⟨g, hrows', hg⟩ := h'.rows
  refine ⟨h'.runs.trans h.runs, h'.snapshots.trans h.snapshots, h'.states.trans h.states,
    h'.nextQueueOrder.trans h.nextQueueOrder, g ∘ f, ?_, ?_⟩
  · rw [hrows', hrows, map_map]
  · intro a
    obtain ⟨first, hfirst⟩ := hf a
    obtain ⟨second, hsecond⟩ := hg (f a)
    refine ⟨second, ?_⟩
    rw [Function.comp_apply, hsecond, hfirst]

theorem marked_markDispatched (t : SweepTables) (admissionId at_ : ℕ) :
    Marked t (markDispatched t admissionId at_) := by
  refine ⟨rfl, rfl, rfl, rfl, _, rfl, ?_⟩
  intro a
  split
  · exact ⟨_, rfl⟩
  · exact ⟨a.dispatchedAt, rfl⟩

theorem Marked.queueInv (h : Marked t t') (hinv : QueueInv t) : QueueInv t' := by
  obtain ⟨f, hrows, hf⟩ := h.rows
  have hmapped : QueueInv { t with admissions := t.admissions.map f } := by
    refine queueInv_map hinv f ?_ ?_
    · intro a
      obtain ⟨dispatchedAt, ha⟩ := hf a
      rw [ha]
    · intro a
      obtain ⟨dispatchedAt, ha⟩ := hf a
      rw [ha]
  refine ⟨?_, ?_, ?_⟩
  · rw [hrows]
    exact hmapped.nodup_ids
  · rw [hrows]
    exact hmapped.sorted
  · rw [hrows, h.nextQueueOrder]
    exact hmapped.bounded

theorem Marked.isNewest_eq (h : Marked t t') (b : Admission) : isNewest t' b = isNewest t b := by
  obtain ⟨f, hrows, hf⟩ := h.rows
  have hsame : (fun n : Admission =>
        decide (n.discoveryRunId = b.discoveryRunId) && decide (n.queueOrder > b.queueOrder)) ∘ f =
      fun n => decide (n.discoveryRunId = b.discoveryRunId) &&
        decide (n.queueOrder > b.queueOrder) := by
    funext n
    obtain ⟨dispatchedAt, hn⟩ := hf n
    rw [Function.comp_apply, hn]
  unfold isNewest
  rw [hrows, any_map, hsame]

theorem Marked.runAwaits_eq (h : Marked t t') (b : Admission) :
    runAwaits t' b = runAwaits t b := by
  unfold runAwaits SweepTables.findRun
  rw [h.runs]

theorem Marked.isListed_eq (h : Marked t t') (b : Admission) : isListed t' b = isListed t b := by
  unfold isListed
  rw [h.isNewest_eq, h.runAwaits_eq]

theorem undispatched_markDispatched (hinv : QueueInv t) (ha : a ∈ t.admissions)
    (h : isListed t a = true) (at_ : ℕ) :
    undispatched (markDispatched t a.id at_) =
      (undispatched t).filter (fun b => decide (b.id ≠ a.id)) := by
  have hmarked := marked_markDispatched t a.id at_
  obtain ⟨howed, hdispatched⟩ := isListed_iff.mp h
  let mark := fun b : Admission =>
    if b.id = a.id && b.consumedAt.isNone && b.dispatchedAt.isNone then
      { b with dispatchedAt := some at_ } else b
  -- the row itself is marked, and it alone
  have hrows : ∀ rows : List Admission, (∀ b ∈ rows, b ∈ t.admissions) →
      (rows.map mark).filter (isListed t) =
        (rows.filter (isListed t)).filter (fun b => decide (b.id ≠ a.id)) := by
    intro rows hin
    induction rows with
    | nil => rfl
    | cons b rest ih =>
      have hrest := ih (fun c hc => hin c (mem_cons_of_mem _ hc))
      rw [map_cons]
      by_cases hid : b.id = a.id
      · obtain rfl := eq_of_id_eq hinv (hin b mem_cons_self) ha hid
        have hmark : isListed t (mark b) = false := by
          have hset : mark b = { b with dispatchedAt := some at_ } := by
            simp [mark, howed.consumedAt, hdispatched]
          rw [hset, Bool.eq_false_iff]
          intro hlisted
          cases (isListed_iff.mp hlisted).2
        rw [filter_cons_of_neg (by rw [hmark]; exact Bool.false_ne_true), hrest,
          filter_cons_of_pos h, filter_cons_of_neg (by simp)]
      · have hmark : mark b = b := by simp [mark, hid]
        rw [hmark]
        cases hb : isListed t b with
        | true =>
          rw [filter_cons_of_pos hb, filter_cons_of_pos hb,
            filter_cons_of_pos (by simpa using hid), hrest]
        | false =>
          rw [filter_cons_of_neg (by rw [hb]; exact Bool.false_ne_true),
            filter_cons_of_neg (by rw [hb]; exact Bool.false_ne_true), hrest]
  have hlisted : (markDispatched t a.id at_).admissions.filter
        (isListed (markDispatched t a.id at_)) =
      (t.admissions.filter (isListed t)).filter (fun b => decide (b.id ≠ a.id)) := by
    have hpred : isListed (markDispatched t a.id at_) = isListed t :=
      funext hmarked.isListed_eq
    rw [hpred]
    exact hrows t.admissions (fun b hb => hb)
  unfold undispatched
  rw [hlisted]
  refine List.Perm.eq_of_pairwise ?_ (pairwise_insertionSort _ _)
    ((pairwise_insertionSort _ _).filter _) ?_
  · intro b c hb hc hle hge
    have hbIn := (mem_filter.mp (mem_filter.mp
      ((mem_insertionSort _).mp hb)).1).1
    have hcIn := (mem_filter.mp ((mem_insertionSort _).mp
      (mem_filter.mp hc).1)).1
    have hplace : queuePosition b = queuePosition c := le_antisymm hle hge
    have horder : b.queueOrder = c.queueOrder := congrArg (fun p => (ofLex p).2) hplace
    exact eq_of_queueOrder_eq hinv hbIn hcIn horder
  · exact (perm_insertionSort _ _).trans
      ((perm_insertionSort _ (t.admissions.filter (isListed t))).symm.filter _)

theorem mem_undispatched : a ∈ undispatched t ↔ a ∈ t.admissions ∧ isListed t a = true := by
  unfold undispatched
  rw [mem_insertionSort, mem_filter]

theorem nodup_undispatched (hinv : QueueInv t) : ((undispatched t).map Admission.id).Nodup :=
  ((perm_insertionSort _ _).map Admission.id).nodup_iff.mpr
    (List.Nodup.sublist (List.Sublist.map _ filter_sublist) hinv.nodup_ids)

/-! ### The loop -/

variable (clock : ℕ → ℕ)

def jobsOf (t : SweepTables) (rows : List Admission) : List DiscoverCharacterJob :=
  rows.filterMap (fun a => (t.findRun a.discoveryRunId).map (fun run =>
    jobOf a.discoveryRunId run a))

theorem Marked.jobsOf_eq {t' : SweepTables} (h : Marked t t') (rows : List Admission) :
    jobsOf t' rows = jobsOf t rows := by
  unfold jobsOf SweepTables.findRun
  rw [h.runs]

theorem exists_run {a : Admission} (h : isListed t a = true) :
    ∃ run, t.findRun a.discoveryRunId = some run := by
  have hawaits := (isListed_iff.mp h).1.awaits
  unfold runAwaits at hawaits
  cases hrun : t.findRun a.discoveryRunId with
  | none =>
    rw [hrun] at hawaits
    cases hawaits
  | some run => exact ⟨run, rfl⟩

/-- The first row listed is sent, and the others are still listed. -/
theorem dispatch_first (hinv : QueueInv t) {a : Admission} {rest : List Admission}
    (hlist : undispatched t = a :: rest) :
    undispatched (dispatch clock t a.discoveryRunId).1 = rest ∧
      (dispatch clock t a.discoveryRunId).2 = jobsOf t [a] ∧
      Marked t (dispatch clock t a.discoveryRunId).1 := by
  have hmem : a ∈ undispatched t := hlist ▸ mem_cons_self
  obtain ⟨ha, hlisted⟩ := mem_undispatched.mp hmem
  obtain ⟨run, hrun⟩ := exists_run hlisted
  have hdispatch : dispatch clock t a.discoveryRunId =
      (markDispatched t a.id (clock a.id), [jobOf a.discoveryRunId run a]) := by
    unfold dispatch
    rw [hrun]
    simp only
    rw [descriptor_of_listed hinv ha hlisted]
  rw [hdispatch]
  refine ⟨?_, ?_, marked_markDispatched t a.id (clock a.id)⟩
  · rw [undispatched_markDispatched hinv ha hlisted, hlist,
      filter_cons_of_neg (by simp), filter_eq_self]
    have hnodup := nodup_undispatched hinv
    rw [hlist, map_cons, nodup_cons] at hnodup
    intro b hb
    have hne : b.id ≠ a.id := by
      intro heq
      exact hnodup.1 (heq ▸ mem_map_of_mem hb)
    exact decide_eq_true hne
  · simp [jobsOf, hrun]

theorem dispatchAll_page (hinv : QueueInv t) (n : ℕ) :
    undispatched (dispatchAll clock t (((undispatched t).take n).map
        Admission.discoveryRunId)).1 = (undispatched t).drop n ∧
      (dispatchAll clock t (((undispatched t).take n).map Admission.discoveryRunId)).2 =
        jobsOf t ((undispatched t).take n) ∧
      Marked t (dispatchAll clock t (((undispatched t).take n).map
        Admission.discoveryRunId)).1 := by
  induction n generalizing t with
  | zero => exact ⟨rfl, rfl, .refl t⟩
  | succ n ih =>
    cases hlist : undispatched t with
    | nil => exact ⟨hlist, rfl, .refl t⟩
    | cons a rest =>
      obtain ⟨hrest, hsent, hmarked⟩ := dispatch_first clock hinv hlist
      obtain ⟨hdropped, hjobs, hmarkedRest⟩ := ih (hmarked.queueInv hinv)
      rw [hrest] at hdropped hjobs hmarkedRest
      rw [take_succ_cons, map_cons]
      refine ⟨hdropped, ?_, hmarked.trans hmarkedRest⟩
      change (dispatch clock t a.discoveryRunId).2 ++ _ = _
      rw [hjobs, hsent]
      rw [hmarked.jobsOf_eq]
      exact filterMap_append.symm

/-- The loop ends, after one round for each page of rows: what was listed was sent, each row
once and in order, and nothing is listed any more. -/
theorem drainAdmitted_ends (hinv : QueueInv t) :
    ∃ t', (∀ rounds, (undispatched t).length < rounds →
        drainAdmitted clock rounds t = some (t', jobsOf t (undispatched t))) ∧
      undispatched t' = [] ∧ Marked t t' := by
  induction hlength : (undispatched t).length using Nat.strong_induction_on generalizing t with
  | h length ih =>
    cases hlist : undispatched t with
    | nil =>
      refine ⟨t, ?_, hlist, .refl t⟩
      intro rounds hrounds
      obtain ⟨rounds, rfl⟩ := Nat.exists_eq_add_one_of_ne_zero (Nat.ne_zero_of_lt hrounds)
      unfold drainAdmitted listAdmittedUndispatched
      rw [hlist]
      rfl
    | cons a rest =>
      obtain ⟨hdropped, hjobs, hmarked⟩ := dispatchAll_page clock hinv 100
      have hshorter : ((undispatched t).drop 100).length < length := by
        rw [length_drop, hlength, ← hlength, hlist, length_cons]
        omega
      obtain ⟨t', hdrained, hnone, hmarkedRest⟩ := ih _ hshorter (hmarked.queueInv hinv)
        (congrArg List.length hdropped)
      refine ⟨t', ?_, hnone, hmarked.trans hmarkedRest⟩
      intro rounds hrounds
      obtain ⟨rounds, rfl⟩ := Nat.exists_eq_add_one_of_ne_zero (Nat.ne_zero_of_lt hrounds)
      have hrest := hdrained rounds (by omega)
      have hall : jobsOf t ((undispatched t).take 100) ++ jobsOf t ((undispatched t).drop 100) =
          jobsOf t (undispatched t) := by
        unfold jobsOf
        rw [← filterMap_append, take_append_drop]
      unfold drainAdmitted listAdmittedUndispatched
      rw [hmarked.jobsOf_eq, hdropped] at hrest
      rw [hlist] at hrest hjobs hall
      rw [take_succ_cons, map_cons] at hrest hjobs
      rw [hlist, take_succ_cons, map_cons]
      simp only
      rw [hrest, hjobs, Option.map_some, ← hall, take_succ_cons]

end SlashWho.FingerprintBacklog
