import Mathlib.Logic.Relation
import SlashWho.FingerprintDelivery

/-!
The fence around a delivery's writes. Any number of deliveries of a run execute
at once, resume at any point, and interleave with admission, publication,
recovery and expiry. Rows are only ever added to the queue, and a token is only
ever replaced by a fresh one, so a delivery that was overtaken can never pass
its check again.
-/

namespace SlashWho.FingerprintFence

open List FingerprintSweeps FingerprintDelivery

/-- Rows are listed in the order they were queued. -/
structure QueueInv (t : SweepTables) : Prop where
  nodup_ids : (t.admissions.map Admission.id).Nodup
  sorted : t.admissions.Pairwise (fun a b => a.queueOrder < b.queueOrder)
  bounded : ∀ a ∈ t.admissions, a.queueOrder < t.nextQueueOrder

/-- Every row of one table is still there in another, as a later version of itself. -/
def RowsKept (t t' : SweepTables) : Prop :=
  ∀ a ∈ t.admissions, ∃ a' ∈ t'.admissions, KeepsRow (fun _ => True) a a'

theorem RowsKept.refl (t : SweepTables) : RowsKept t t := fun a ha => ⟨a, ha, KeepsRow.refl _ a⟩

variable {t : SweepTables}

theorem RowsKept.trans {t' t'' : SweepTables} (h : RowsKept t t') (h' : RowsKept t' t'') :
    RowsKept t t'' := by
  intro a ha
  obtain ⟨a', ha', hkept⟩ := h a ha
  obtain ⟨a'', ha'', hkept'⟩ := h' a' ha'
  exact ⟨a'', ha'', hkept.trans hkept'⟩

theorem queueInv_map (h : QueueInv t) (f : Admission → Admission) (hid : ∀ a, (f a).id = a.id)
    (horder : ∀ a, (f a).queueOrder = a.queueOrder) :
    QueueInv { t with admissions := t.admissions.map f } := by
  refine ⟨?_, ?_, ?_⟩
  · have hids : (t.admissions.map f).map Admission.id = t.admissions.map Admission.id := by
      rw [map_map]
      exact map_congr_left fun a _ => hid a
    rw [hids]
    exact h.nodup_ids
  · rw [pairwise_map]
    simpa only [horder] using h.sorted
  · intro a' ha'
    obtain ⟨a, ha, rfl⟩ := mem_map.mp ha'
    rw [horder]
    exact h.bounded a ha

theorem queueInv_updateAdmissions (h : QueueInv t) (p : Admission → Bool)
    (f : Admission → Admission) (hid : ∀ a, (f a).id = a.id)
    (horder : ∀ a, (f a).queueOrder = a.queueOrder) : QueueInv (t.updateAdmissions p f) := by
  apply queueInv_map h
  · intro a
    split
    · exact hid a
    · rfl
  · intro a
    split
    · exact horder a
    · rfl

theorem queueInv_append (h : QueueInv t) {row : Admission}
    (hfresh : ∀ old ∈ t.admissions, old.id ≠ row.id) (horder : row.queueOrder = t.nextQueueOrder) :
    QueueInv { t with
      admissions := t.admissions ++ [row], nextQueueOrder := t.nextQueueOrder + 1 } := by
  refine ⟨?_, ?_, ?_⟩
  · rw [map_append, nodup_append]
    refine ⟨h.nodup_ids, nodup_singleton _, ?_⟩
    intro id hold id' hnew
    obtain ⟨old, hin, rfl⟩ := mem_map.mp hold
    rw [mem_singleton.mp hnew]
    exact hfresh old hin
  · rw [pairwise_append]
    refine ⟨h.sorted, pairwise_singleton _ _, ?_⟩
    intro old hold new hnew
    rw [mem_singleton.mp hnew, horder]
    exact h.bounded old hold
  · intro a ha
    rcases mem_append.mp ha with ha | ha
    · exact (h.bounded a ha).trans (Nat.lt_succ_self _)
    · rw [mem_singleton.mp ha, horder]
      exact Nat.lt_succ_self _

theorem eq_of_id_eq (h : QueueInv t) {a b : Admission} (ha : a ∈ t.admissions)
    (hb : b ∈ t.admissions) (hid : a.id = b.id) : a = b :=
  inj_on_of_nodup_map h.nodup_ids ha hb hid

theorem eq_of_queueOrder_eq (h : QueueInv t) {a b : Admission} (ha : a ∈ t.admissions)
    (hb : b ∈ t.admissions) (horder : a.queueOrder = b.queueOrder) :
    a = b := by
  have hnodup : (t.admissions.map Admission.queueOrder).Nodup := by
    rw [List.Nodup, pairwise_map]
    exact h.sorted.imp fun hlt => hlt.ne
  exact inj_on_of_nodup_map hnodup ha hb horder

theorem rowsKept_of_change {at_ : ℕ} {t' : SweepTables} {recorded : List ℕ}
    (change : Change (fun _ => True) at_ t t' recorded) (h : QueueInv t) :
    RowsKept t t' ∧ QueueInv t' := by
  cases change with
  | runs | snapshots | states | release | prune =>
    exact ⟨RowsKept.refl t, h.nodup_ids, h.sorted, h.bounded⟩
  | rows p f hf =>
    refine ⟨fun a ha => ⟨_, mem_map_of_mem ha, ?_⟩,
      queueInv_updateAdmissions h p f (fun a => (hf a).id) fun a => (hf a).queueOrder⟩
    split
    · exact hf a
    · exact KeepsRow.refl _ a
  | queue newId runId key requestCap hourlyBudget cadenceCutoff requestedAt kind hqueue hbudget =>
    obtain ⟨row, hrow, rfl⟩ := insertAdmission_ok hqueue
    refine ⟨fun a ha => ⟨a, mem_append_left _ ha, KeepsRow.refl _ a⟩, ?_⟩
    exact queueInv_append h (fun old hold => hrow.id ▸ hrow.fresh old hold) hrow.queueOrder
  | reserve row a hreserve ha hfresh hopen hroom =>
    obtain rfl := insertReservation_ok hreserve
    exact ⟨RowsKept.refl t, h.nodup_ids, h.sorted, h.bounded⟩
  | record reservationId count hrecord =>
    obtain ⟨-, rfl⟩ := recordRequest_ok hrecord
    exact ⟨RowsKept.refl t, h.nodup_ids, h.sorted, h.bounded⟩

theorem rowsKept_of_changes {at_ : ℕ} {t' : SweepTables} {recorded : List ℕ}
    (changes : Changes (fun _ => True) at_ t t' recorded) (h : QueueInv t) :
    RowsKept t t' ∧ QueueInv t' := by
  induction changes with
  | refl t => exact ⟨RowsKept.refl t, h⟩
  | step change _ ih =>
    obtain ⟨hkept, hinv⟩ := rowsKept_of_change change h
    obtain ⟨hrest, hinv'⟩ := ih hinv
    exact ⟨hkept.trans hrest, hinv'⟩

/-- The fence was overtaken: its row has another token, or a later row is queued. -/
def Overtaken (t : SweepTables) (fence : Fence) : Prop :=
  ∃ a ∈ t.admissions, a.id = fence.admissionId ∧ a.discoveryRunId = fence.runId ∧
    (a.executionToken ≠ some fence.token ∨
      ∃ n ∈ t.admissions, n.discoveryRunId = fence.runId ∧ a.queueOrder < n.queueOrder)

/-- The fence's row is the newest of its run, and has the fence's token. -/
def Current (t : SweepTables) (fence : Fence) : Prop :=
  ∃ a ∈ t.admissions, a.id = fence.admissionId ∧ a.discoveryRunId = fence.runId ∧
    a.executionToken = some fence.token ∧
    ∀ n ∈ t.admissions, n.discoveryRunId = fence.runId → n.queueOrder ≤ a.queueOrder

/-- The fence names a row of its run. -/
def Names (t : SweepTables) (fence : Fence) : Prop :=
  ∃ a ∈ t.admissions, a.id = fence.admissionId ∧ a.discoveryRunId = fence.runId

variable {t' : SweepTables} {fence other : Fence}

theorem Names.kept (h : Names t fence) (hkept : RowsKept t t') : Names t' fence := by
  obtain ⟨a, ha, hid, hrun⟩ := h
  obtain ⟨a', ha', hrow⟩ := hkept a ha
  exact ⟨a', ha', hrow.id.trans hid, hrow.discoveryRunId.trans hrun⟩

theorem Overtaken.kept (h : Overtaken t fence) (hkept : RowsKept t t') : Overtaken t' fence := by
  obtain ⟨a, ha, hid, hrun, hover⟩ := h
  obtain ⟨a', ha', hrow⟩ := hkept a ha
  refine ⟨a', ha', hrow.id.trans hid, hrow.discoveryRunId.trans hrun, ?_⟩
  rcases hover with htoken | ⟨n, hn, hnrun, hlater⟩
  · exact .inl (hrow.executionToken ▸ htoken)
  · obtain ⟨n', hn', hnrow⟩ := hkept n hn
    refine .inr ⟨n', hn', hnrow.discoveryRunId.trans hnrun, ?_⟩
    rw [hrow.queueOrder, hnrow.queueOrder]
    exact hlater

variable {a : Admission}

theorem le_of_isNewest {n : Admission} (hnewest : isNewest t a = true) (hn : n ∈ t.admissions)
    (hrun : n.discoveryRunId = a.discoveryRunId) : n.queueOrder ≤ a.queueOrder := by
  by_contra hlater
  simp only [isNewest, Bool.not_eq_true', any_eq_false, Bool.and_eq_true,
    decide_eq_true_eq] at hnewest
  exact hnewest n hn ⟨hrun, not_le.mp hlater⟩

theorem eq_of_isNewest (hinv : QueueInv t) {b : Admission} (ha : a ∈ t.admissions)
    (hb : b ∈ t.admissions) (hrun : a.discoveryRunId = b.discoveryRunId)
    (hanewest : isNewest t a = true) (hbnewest : isNewest t b = true) : a = b :=
  eq_of_queueOrder_eq hinv ha hb
    (le_antisymm (le_of_isNewest hbnewest ha hrun) (le_of_isNewest hanewest hb hrun.symm))

theorem current_of_isNewest (ha : a ∈ t.admissions) (hid : a.id = fence.admissionId)
    (hrun : a.discoveryRunId = fence.runId) (htoken : a.executionToken = some fence.token)
    (hnewest : isNewest t a = true) :
    Current t fence :=
  ⟨a, ha, hid, hrun, htoken, fun _ hn hnrun => le_of_isNewest hnewest hn (hnrun.trans hrun.symm)⟩

theorem current_of_lockAndCheck (h : lockAndCheck t fence = true) : Current t fence := by
  unfold lockAndCheck at h
  have hpos : 0 < t.admissions.countP (ownsExecution t fence) := by
    rw [of_decide_eq_true h]
    exact Nat.one_pos
  obtain ⟨a, ha, howns⟩ := countP_pos_iff.mp hpos
  simp only [ownsExecution, Bool.and_eq_true, decide_eq_true_eq] at howns
  exact current_of_isNewest ha howns.1.1.1.1.1 howns.1.1.1.1.2 howns.1.1.1.2 howns.2

theorem not_current_of_overtaken (hinv : QueueInv t) (h : Overtaken t fence) :
    ¬ Current t fence := by
  rintro ⟨a, ha, hid, hrun, htoken, hnewest⟩
  obtain ⟨b, hb, hbid, hbrun, hover⟩ := h
  obtain rfl := eq_of_id_eq hinv ha hb (hid.trans hbid.symm)
  rcases hover with hother | ⟨n, hn, hnrun, hlater⟩
  · exact hother htoken
  · exact absurd hlater (not_lt.mpr (hnewest n hn hnrun))

theorem eq_of_current (hinv : QueueInv t) (h : Current t fence) (h' : Current t other)
    (hrun : fence.runId = other.runId) : fence = other := by
  obtain ⟨a, ha, hid, harun, htoken, hnewest⟩ := h
  obtain ⟨b, hb, hbid, hbrun, hbtoken, hbnewest⟩ := h'
  have hle := hnewest b hb (hbrun.trans hrun.symm)
  have hge := hbnewest a ha (harun.trans hrun)
  obtain rfl := eq_of_queueOrder_eq hinv ha hb (le_antisymm hge hle)
  have htok : fence.token = other.token := Option.some.inj (htoken.symm.trans hbtoken)
  have hadmission : fence.admissionId = other.admissionId := hid.symm.trans hbid
  cases fence
  cases other
  simp_all

theorem overtaken_of_current (hinv : QueueInv t) (h : Current t other) (hnames : Names t fence)
    (hrun : fence.runId = other.runId) (htoken : fence.token ≠ other.token) :
    Overtaken t fence := by
  obtain ⟨a, ha, hid, harun⟩ := hnames
  obtain ⟨b, hb, hbid, hbrun, hbtoken, hbnewest⟩ := h
  refine ⟨a, ha, hid, harun, ?_⟩
  by_cases hsame : a = b
  · left
    rw [hsame, hbtoken]
    exact fun heq => htoken (Option.some.inj heq).symm
  · right
    refine ⟨b, hb, hbrun.trans hrun.symm, lt_of_le_of_ne (hbnewest a ha (harun.trans hrun)) ?_⟩
    exact fun heq => hsame (eq_of_queueOrder_eq hinv ha hb heq)

/-- What happened, in order: a delivery was accepted under a fence, at an
attempt of its admission, or a write transaction of a delivery committed. -/
inductive Event
  | accepted (delivery : ℕ) (fence : Fence) (attempt : ℕ)
  | committed (delivery : ℕ)

/-- Deliveries hold their own fences; tokens are never issued twice. -/
structure System where
  tables : SweepTables
  deliveries : ℕ → Option Delivery
  usedTokens : List ℕ
  log : List Event

/-- Once its transaction's own writes are done, a delivery that asked for
admission takes on the admission it was granted. -/
def System.takeOn (s : System) (id : ℕ) (d : Delivery) (written : SweepTables) (token at_ : ℕ) :
    System :=
  match bindAdmission written d token at_ with
  | (bound, some fence) =>
    { tables := consumeFinished bound (some fence) at_
      deliveries := Function.update s.deliveries id (some { d with fence := some fence })
      usedTokens := token :: s.usedTokens
      log := s.log ++ [.committed id] ++ [.accepted id fence d.attempt] }
  | (bound, none) =>
    { s with
      tables := consumeFinished bound d.fence at_
      log := s.log ++ [.committed id] }

/-- One transaction commits, or a delivery starts. The fence a delivery writes
under is the one it holds when its transaction begins. -/
inductive Step : System → System → Prop
  | elsewhere (s : System) (at_ : ℕ) (tables : SweepTables) (recorded : List ℕ)
      (h : Changes (fun _ => True) at_ s.tables tables recorded) :
      Step s { s with tables := tables }
  | original (s : System) (id : ℕ) (d : Delivery) (hid : s.deliveries id = none)
      (hfence : d.fence = none) :
      Step s { s with deliveries := Function.update s.deliveries id (some d) }
  | execute (s : System) (id : ℕ) (input : ExecuteInput) (token at_ : ℕ) (tables : SweepTables)
      (base : ℕ) (hid : s.deliveries id = none) (htoken : token ∉ s.usedTokens)
      (h : accept s.tables input token at_ = some (tables, base)) :
      Step s
        { tables := tables
          deliveries := Function.update s.deliveries id
            (some ⟨input.runId, input.jobId, input.attempt, input.maxAttempts, base,
              some ⟨input.admissionId, input.runId, token⟩⟩)
          usedTokens := token :: s.usedTokens
          log := s.log ++ [.accepted id ⟨input.admissionId, input.runId, token⟩ input.attempt] }
  | write (s : System) (id : ℕ) (d : Delivery) (at_ : ℕ) (written : SweepTables)
      (recorded : List ℕ) (hd : s.deliveries id = some d) (hcheck : check s.tables d = true)
      (h : Changes (fun _ => True) at_ s.tables written recorded) :
      Step s { s with
        tables := consumeFinished written d.fence at_
        log := s.log ++ [.committed id] }
  | takeOn (s : System) (id : ℕ) (d : Delivery) (at_ : ℕ) (written : SweepTables)
      (recorded : List ℕ) (token : ℕ) (hd : s.deliveries id = some d)
      (hcheck : check s.tables d = true) (htoken : token ∉ s.usedTokens)
      (h : Changes (fun _ => True) at_ s.tables written recorded) :
      Step s (s.takeOn id d written token at_)

inductive Reachable : System → Prop
  | start (t : SweepTables) (h : QueueInv t) : Reachable ⟨t, fun _ => none, [], []⟩
  | step {s s' : System} (h : Reachable s) (hstep : Step s s') : Reachable s'

/-- The delivery was accepted, and a later delivery of its run was after it. -/
def Superseded (log : List Event) (id : ℕ) : Prop :=
  ∃ before after fence attempt id' fence' attempt',
    log = before ++ .accepted id' fence' attempt' :: after ∧ id ≠ id' ∧
      fence.runId = fence'.runId ∧ .accepted id fence attempt ∈ before

structure System.Inv (s : System) : Prop where
  queue : QueueInv s.tables
  holds : ∀ id d fence, s.deliveries id = some d → d.fence = some fence →
    fence.runId = d.runId ∧ fence.token ∈ s.usedTokens ∧ Names s.tables fence
  accepted : ∀ id fence attempt, .accepted id fence attempt ∈ s.log →
    ∃ d held, s.deliveries id = some d ∧ d.fence = some held ∧ d.runId = fence.runId
  counted : ∀ id fence attempt, .accepted id fence attempt ∈ s.log →
    ∃ a ∈ s.tables.admissions, a.id = fence.admissionId ∧ a.executionJobId.isSome = true ∧
      attempt ≤ a.executionAttempt
  overtaken : ∀ id, Superseded s.log id →
    ∃ d fence, s.deliveries id = some d ∧ d.fence = some fence ∧ Overtaken s.tables fence
  silent : ∀ before id after, s.log = before ++ .committed id :: after → ¬ Superseded before id
  increasing : ∀ before after id fence attempt id' fence' attempt',
    s.log = before ++ .accepted id' fence' attempt' :: after →
      .accepted id fence attempt ∈ before → fence.admissionId = fence'.admissionId →
        attempt < attempt'

theorem eq_append_cons_of_append_singleton {α : Type} {log before after : List α} {e x : α}
    (h : log ++ [e] = before ++ x :: after) :
    (log = before ∧ e = x) ∨ ∃ rest, log = before ++ x :: rest := by
  rcases eq_nil_or_concat after with rfl | ⟨rest, last, rfl⟩
  · obtain ⟨hlog, he⟩ := append_inj' h rfl
    exact .inl ⟨hlog, head_eq_of_cons_eq he⟩
  · right
    have hsplit : log ++ [e] = (before ++ x :: rest) ++ [last] := by
      rw [h, concat_eq_append, append_assoc, cons_append]
    exact ⟨rest, (append_inj' hsplit rfl).1⟩

theorem superseded_append {log : List Event} {e : Event} {id : ℕ}
    (h : Superseded (log ++ [e]) id) :
    Superseded log id ∨ ∃ fence attempt id' fence' attempt',
      e = .accepted id' fence' attempt' ∧ id ≠ id' ∧ fence.runId = fence'.runId ∧
        .accepted id fence attempt ∈ log := by
  obtain ⟨before, after, fence, attempt, id', fence', attempt', hlog, hne, hrun, hin⟩ := h
  rcases eq_append_cons_of_append_singleton hlog with ⟨rfl, rfl⟩ | ⟨rest, rfl⟩
  · exact .inr ⟨fence, attempt, id', fence', attempt', rfl, hne, hrun, hin⟩
  · exact .inl ⟨before, rest, fence, attempt, id', fence', attempt', rfl, hne, hrun, hin⟩

variable {s : System}

theorem System.Inv.elsewhere (h : s.Inv) (hkept : RowsKept s.tables t') (hqueue : QueueInv t') :
    ({ s with tables := t' } : System).Inv where
  queue := hqueue
  holds := by
    intro id d fence hd hfence
    obtain ⟨hrun, htoken, hnames⟩ := h.holds id d fence hd hfence
    exact ⟨hrun, htoken, hnames.kept hkept⟩
  accepted := h.accepted
  counted := by
    intro id fence attempt hin
    obtain ⟨a, ha, hid, hjob, hle⟩ := h.counted id fence attempt hin
    obtain ⟨a', ha', hrow⟩ := hkept a ha
    exact ⟨a', ha', hrow.id.trans hid, hrow.executionJobId ▸ hjob, hrow.executionAttempt ▸ hle⟩
  overtaken := by
    intro id hsuper
    obtain ⟨d, fence, hd, hfence, hover⟩ := h.overtaken id hsuper
    exact ⟨d, fence, hd, hfence, hover.kept hkept⟩
  silent := h.silent
  increasing := h.increasing

variable {d : Delivery}

variable {id : ℕ}

theorem System.Inv.not_superseded (h : s.Inv) (hd : s.deliveries id = some d)
    (hcheck : check s.tables d = true) :
    ¬ Superseded s.log id := by
  intro hsuper
  obtain ⟨d', fence, hd', hfence, hover⟩ := h.overtaken id hsuper
  obtain rfl := Option.some.inj (hd.symm.trans hd')
  unfold check at hcheck
  rw [hfence] at hcheck
  exact not_current_of_overtaken h.queue hover (current_of_lockAndCheck hcheck)

theorem System.Inv.commit (h : s.Inv) (hd : s.deliveries id = some d)
    (hcheck : check s.tables d = true) :
    ({ s with log := s.log ++ [.committed id] } : System).Inv where
  queue := h.queue
  holds := h.holds
  accepted := by
    intro id' fence attempt hin
    rcases mem_append.mp hin with hin | hin
    · exact h.accepted id' fence attempt hin
    · simp at hin
  counted := by
    intro id' fence attempt hin
    rcases mem_append.mp hin with hin | hin
    · exact h.counted id' fence attempt hin
    · simp at hin
  overtaken := by
    intro id' hsuper
    rcases superseded_append hsuper with hsuper | ⟨_, _, _, _, _, he, -⟩
    · exact h.overtaken id' hsuper
    · simp at he
  silent := by
    intro before id' after hlog
    rcases eq_append_cons_of_append_singleton hlog with ⟨rfl, he⟩ | ⟨rest, hlog⟩
    · obtain rfl := Event.committed.inj he
      exact h.not_superseded hd hcheck
    · exact h.silent before id' rest hlog
  increasing := by
    intro before after id' fence attempt id'' fence' attempt' hlog
    rcases eq_append_cons_of_append_singleton hlog with ⟨rfl, he⟩ | ⟨rest, hlog⟩
    · simp at he
    · exact h.increasing before rest id' fence attempt id'' fence' attempt' hlog

/-- What an acceptance does to a row: nothing, or the new token and a higher attempt. -/
structure AcceptsRow (fence : Fence) (attempt : ℕ) (a a' : Admission) : Prop where
  id : a'.id = a.id
  queueOrder : a'.queueOrder = a.queueOrder
  discoveryRunId : a'.discoveryRunId = a.discoveryRunId
  token : a'.executionToken = a.executionToken ∨ a'.executionToken = some fence.token
  delivery : (a'.executionJobId = a.executionJobId ∧ a'.executionAttempt = a.executionAttempt) ∨
    (a'.executionJobId.isSome = true ∧ a'.executionAttempt = attempt ∧
      (a.executionJobId.isSome = true → a.executionAttempt < attempt))

/-- A fence is accepted: its row is the newest of its run and takes the token
and the attempt, which no earlier delivery of that row had reached. -/
structure Accepts (t t' : SweepTables) (fence : Fence) (attempt : ℕ) : Prop where
  queue : QueueInv t'
  current : Current t' fence
  rows : ∀ a ∈ t.admissions, ∃ a' ∈ t'.admissions, AcceptsRow fence attempt a a'
  taken : ∃ a ∈ t'.admissions, a.id = fence.admissionId ∧ a.executionJobId.isSome = true ∧
    a.executionAttempt = attempt
  higher : ∀ a ∈ t.admissions, a.id = fence.admissionId → a.executionJobId.isSome = true →
    a.executionAttempt < attempt

variable {attempt : ℕ}

theorem Names.accepts {other : Fence} (h : Names t other) (haccepts : Accepts t t' fence attempt) :
    Names t' other := by
  obtain ⟨a, ha, hid, hrun⟩ := h
  obtain ⟨a', ha', hrow⟩ := haccepts.rows a ha
  exact ⟨a', ha', hrow.id.trans hid, hrow.discoveryRunId.trans hrun⟩

theorem Overtaken.accepts {other : Fence} (h : Overtaken t other)
    (haccepts : Accepts t t' fence attempt) (htoken : other.token ≠ fence.token) :
    Overtaken t' other := by
  obtain ⟨a, ha, hid, hrun, hover⟩ := h
  obtain ⟨a', ha', hrow⟩ := haccepts.rows a ha
  refine ⟨a', ha', hrow.id.trans hid, hrow.discoveryRunId.trans hrun, ?_⟩
  rcases hover with hother | ⟨n, hn, hnrun, hlater⟩
  · left
    rcases hrow.token with hsame | hnew
    · rw [hsame]
      exact hother
    · rw [hnew]
      exact fun heq => htoken (Option.some.inj heq).symm
  · right
    obtain ⟨n', hn', hnrow⟩ := haccepts.rows n hn
    refine ⟨n', hn', hnrow.discoveryRunId.trans hnrun, ?_⟩
    rw [hrow.queueOrder, hnrow.queueOrder]
    exact hlater

theorem System.Inv.accept (h : s.Inv) (haccepts : Accepts s.tables t' fence attempt)
    (hfresh : fence.token ∉ s.usedTokens) (hfence : d.fence = some fence)
    (hrun : fence.runId = d.runId) (hbefore : ∀ d', s.deliveries id = some d' → d'.runId = d.runId)
    (hopen : ¬ Superseded s.log id) :
    (System.mk t' (Function.update s.deliveries id (some d)) (fence.token :: s.usedTokens)
      (s.log ++ [.accepted id fence attempt])).Inv := by
  have hother : ∀ {id' : ℕ} {d' : Delivery}, id' ≠ id → s.deliveries id' = some d' →
      Function.update s.deliveries id (some d) id' = some d' := by
    intro id' d' hne hd'
    rw [Function.update_of_ne hne]
    exact hd'
  refine ⟨haccepts.queue, ?_, ?_, ?_, ?_, ?_, ?_⟩
  · intro id' d' fence' hd' hfence'
    simp only at hd'
    by_cases hid : id' = id
    · subst hid
      rw [Function.update_self] at hd'
      obtain rfl := Option.some.inj hd'
      obtain rfl := Option.some.inj (hfence'.symm.trans hfence)
      obtain ⟨a, ha, haid, harun, -⟩ := haccepts.current
      exact ⟨hrun, mem_cons_self, a, ha, haid, harun⟩
    · rw [Function.update_of_ne hid] at hd'
      obtain ⟨hrun', htoken', hnames⟩ := h.holds id' d' fence' hd' hfence'
      exact ⟨hrun', mem_cons_of_mem _ htoken', hnames.accepts haccepts⟩
  · intro id' fence' attempt' hin
    rcases mem_append.mp hin with hin | hin
    · obtain ⟨d', held, hd', hheld, hrun'⟩ := h.accepted id' fence' attempt' hin
      by_cases hid : id' = id
      · subst hid
        exact ⟨d, fence, Function.update_self _ _ _, hfence, (hbefore d' hd').symm.trans hrun'⟩
      · exact ⟨d', held, hother hid hd', hheld, hrun'⟩
    · obtain ⟨rfl, rfl, rfl⟩ := Event.accepted.inj (mem_singleton.mp hin)
      exact ⟨d, fence', Function.update_self _ _ _, hfence, hrun.symm⟩
  · intro id' fence' attempt' hin
    rcases mem_append.mp hin with hin | hin
    · obtain ⟨a, ha, haid, hjob, hle⟩ := h.counted id' fence' attempt' hin
      obtain ⟨a', ha', hrow⟩ := haccepts.rows a ha
      refine ⟨a', ha', hrow.id.trans haid, ?_⟩
      rcases hrow.delivery with ⟨hjob', hattempt'⟩ | ⟨hjob', hattempt', hhigher⟩
      · exact ⟨hjob' ▸ hjob, hattempt' ▸ hle⟩
      · exact ⟨hjob', by have hlt := hhigher hjob; omega⟩
    · obtain ⟨rfl, rfl, rfl⟩ := Event.accepted.inj (mem_singleton.mp hin)
      obtain ⟨a, ha, haid, hjob, hattempt⟩ := haccepts.taken
      exact ⟨a, ha, haid, hjob, hattempt.ge⟩
  · intro id' hsuper
    rcases superseded_append hsuper with hsuper | ⟨f, n, id'', f', n', he, hne, hfrun, hin⟩
    · have hid : id' ≠ id := fun heq => hopen (heq ▸ hsuper)
      obtain ⟨d', f, hd', hf, hover⟩ := h.overtaken id' hsuper
      have htoken : f.token ≠ fence.token :=
        fun heq => hfresh (heq ▸ (h.holds id' d' f hd' hf).2.1)
      exact ⟨d', f, hother hid hd', hf, hover.accepts haccepts htoken⟩
    · obtain ⟨rfl, rfl, rfl⟩ := Event.accepted.inj he
      obtain ⟨d', held, hd', hheld, hrun'⟩ := h.accepted id' f n hin
      obtain ⟨hheldrun, htoken', hnames⟩ := h.holds id' d' held hd' hheld
      have htoken : held.token ≠ fence.token := fun heq => hfresh (heq ▸ htoken')
      refine ⟨d', held, hother hne hd', hheld, ?_⟩
      exact overtaken_of_current haccepts.queue haccepts.current (hnames.accepts haccepts)
        (hheldrun.trans (hrun'.trans hfrun)) htoken
  · intro before id' after hlog
    rcases eq_append_cons_of_append_singleton hlog with ⟨-, he⟩ | ⟨rest, hlog⟩
    · simp at he
    · exact h.silent before id' rest hlog
  · intro before after id' f n id'' f' n' hlog hin hsame
    rcases eq_append_cons_of_append_singleton hlog with ⟨rfl, he⟩ | ⟨rest, hlog⟩
    · obtain ⟨rfl, rfl, rfl⟩ := Event.accepted.inj he
      obtain ⟨a, ha, haid, hjob, hle⟩ := h.counted id' f n hin
      exact hle.trans_lt (haccepts.higher a ha (haid.trans hsame) hjob)
    · exact h.increasing before rest id' f n id'' f' n' hlog hin hsame

theorem accepts_of_update (hinv : QueueInv t) {p : Admission → Bool} {f : Admission → Admission}
    {row : Admission} (hrow : row ∈ t.admissions) (hp : p row = true)
    (hid : row.id = fence.admissionId)
    (hnewest : ∀ a, p a = true → a.discoveryRunId = fence.runId ∧ isNewest t a = true)
    (hf : ∀ a, (f a).id = a.id ∧ (f a).queueOrder = a.queueOrder ∧
      (f a).discoveryRunId = a.discoveryRunId ∧ (f a).executionToken = some fence.token ∧
      (f a).executionJobId.isSome = true ∧ (f a).executionAttempt = attempt)
    (hhigher : row.executionJobId.isSome = true → row.executionAttempt < attempt) :
    Accepts t (t.updateAdmissions p f) fence attempt := by
  have honly : ∀ a ∈ t.admissions, p a = true → a = row := by
    intro a ha hpa
    exact eq_of_isNewest hinv ha hrow ((hnewest a hpa).1.trans (hnewest row hp).1.symm)
      (hnewest a hpa).2 (hnewest row hp).2
  have htaken : f row ∈ (t.updateAdmissions p f).admissions := by
    refine mem_map.mpr ⟨row, hrow, ?_⟩
    rw [if_pos hp]
  obtain ⟨hfid, hforder, hfrun, hftoken, hfjob, hfattempt⟩ := hf row
  refine ⟨queueInv_updateAdmissions hinv p f (fun a => (hf a).1) fun a => (hf a).2.1, ?_, ?_, ?_,
    ?_⟩
  · refine ⟨f row, htaken, hfid.trans hid, hfrun.trans (hnewest row hp).1, hftoken, ?_⟩
    intro n hn hnrun
    obtain ⟨a, ha, rfl⟩ := mem_map.mp hn
    rw [hforder]
    split at hnrun
    · next hpa => rw [if_pos hpa, (hf a).2.1, honly a ha hpa]
    · next hpa =>
      rw [if_neg hpa]
      exact le_of_isNewest (hnewest row hp).2 ha (hnrun.trans (hnewest row hp).1.symm)
  · intro a ha
    refine ⟨_, mem_map_of_mem ha, ?_⟩
    by_cases hpa : p a = true
    · rw [if_pos hpa]
      obtain rfl := honly a ha hpa
      exact ⟨hfid, hforder, hfrun, .inr hftoken, .inr ⟨hfjob, hfattempt, hhigher⟩⟩
    · rw [if_neg hpa]
      exact ⟨rfl, rfl, rfl, .inl rfl, .inl ⟨rfl, rfl⟩⟩
  · exact ⟨f row, htaken, hfid.trans hid, hfjob, hfattempt⟩
  · intro a ha haid hjob
    obtain rfl := eq_of_id_eq hinv ha hrow (haid.trans hid.symm)
    exact hhigher hjob

variable {token : ℕ}

theorem accepts_of_accept {input : ExecuteInput} {at_ base : ℕ} (hinv : QueueInv t)
    (h : FingerprintDelivery.accept t input token at_ = some (t', base)) :
    Accepts t t' ⟨input.admissionId, input.runId, token⟩ input.attempt := by
  have hclaimed : ∀ row, t.admissions.find? (executable t input) = some row →
      Accepts t (t.updateAdmissions (executable t input) (Admission.execute input token at_))
        ⟨input.admissionId, input.runId, token⟩ input.attempt := by
    intro row hrow
    have hp := find?_some hrow
    have hfields : ∀ a, executable t input a = true → a.id = input.admissionId ∧
        a.discoveryRunId = input.runId ∧ a.executionAttempt < input.attempt ∧
        isNewest t a = true := by
      intro a ha
      simp only [executable, Bool.and_eq_true, decide_eq_true_eq] at ha
      exact ⟨by tauto, by tauto, by tauto, ha.2⟩
    obtain ⟨hid, hrun, hhigher, hnewest⟩ := hfields row hp
    refine accepts_of_update hinv (mem_of_find?_eq_some hrow) hp hid
      (fun a ha => ⟨(hfields a ha).2.1, (hfields a ha).2.2.2⟩)
      (fun a => ⟨rfl, rfl, rfl, rfl, rfl, rfl⟩) fun _ => hhigher
  unfold FingerprintDelivery.accept at h
  split at h
  · next run row _ hrow =>
    have haccepts := hclaimed row hrow
    simp only at h
    split at h
    · split at h
      · obtain ⟨rfl, -⟩ := Prod.mk.inj (Option.some.inj h)
        -- the claim on the run leaves the queue as it is
        exact ⟨⟨haccepts.queue.nodup_ids, haccepts.queue.sorted, haccepts.queue.bounded⟩,
          haccepts.current, haccepts.rows, haccepts.taken, haccepts.higher⟩
      · cases h
    · split at h
      · obtain ⟨rfl, -⟩ := Prod.mk.inj (Option.some.inj h)
        exact haccepts
      · cases h
  · cases h

theorem accepts_of_bindAdmission {at_ : ℕ} (hinv : QueueInv t)
    (h : bindAdmission t d token at_ = (t', some fence)) :
    Accepts t t' fence d.attempt ∧ fence.runId = d.runId ∧ fence.token = token := by
  unfold bindAdmission at h
  obtain ⟨rfl, hgranted⟩ := Prod.mk.inj h
  obtain ⟨row, hrow, rfl⟩ := Option.map_eq_some_iff.mp hgranted
  have hp := find?_some hrow
  have hfields : ∀ a, bindable t d a = true → a.discoveryRunId = d.runId ∧
      a.executionJobId.isNone = true ∧ isNewest t a = true := by
    intro a ha
    simp only [bindable, Bool.and_eq_true, decide_eq_true_eq] at ha
    exact ⟨by tauto, by tauto, ha.2⟩
  refine ⟨accepts_of_update hinv (mem_of_find?_eq_some hrow) hp rfl
    (fun a ha => ⟨(hfields a ha).1, (hfields a ha).2.2⟩)
    (fun a => ⟨rfl, rfl, rfl, rfl, rfl, rfl⟩) ?_, rfl, rfl⟩
  intro hjob
  have hnone := (hfields row hp).2.1
  rw [Option.isNone_iff_eq_none] at hnone
  simp [hnone] at hjob

theorem bindAdmission_none {at_ : ℕ} (h : bindAdmission t d token at_ = (t', none)) :
    t' = t := by
  unfold bindAdmission at h
  obtain ⟨rfl, hgranted⟩ := Prod.mk.inj h
  rw [Option.map_eq_none_iff, find?_eq_none] at hgranted
  have hrows : t.admissions.map (fun a => if bindable t d a then Admission.bind d token at_ a
      else a) = t.admissions := by
    conv_rhs => rw [← map_id t.admissions]
    exact map_congr_left fun a ha => if_neg (hgranted a ha)
  unfold SweepTables.updateAdmissions
  rw [hrows]

theorem consumeFinished_kept (at_ : ℕ) (t : SweepTables) (fence : Option Fence) (h : QueueInv t) :
    RowsKept t (consumeFinished t fence at_) ∧ QueueInv (consumeFinished t fence at_) :=
  rowsKept_of_changes (consumeFinished_changes t fence) h

theorem System.Inv.original (h : s.Inv) (hid : s.deliveries id = none) (hfence : d.fence = none) :
    ({ s with deliveries := Function.update s.deliveries id (some d) } : System).Inv := by
  have hother : ∀ {id' : ℕ} {d' : Delivery}, s.deliveries id' = some d' →
      Function.update s.deliveries id (some d) id' = some d' := by
    intro id' d' hd'
    have hne : id' ≠ id := by
      rintro rfl
      rw [hid] at hd'
      cases hd'
    rw [Function.update_of_ne hne]
    exact hd'
  refine ⟨h.queue, ?_, ?_, h.counted, ?_, h.silent, h.increasing⟩
  · intro id' d' fence hd' hfence'
    simp only at hd'
    by_cases hsame : id' = id
    · subst hsame
      rw [Function.update_self] at hd'
      obtain rfl := Option.some.inj hd'
      rw [hfence] at hfence'
      cases hfence'
    · rw [Function.update_of_ne hsame] at hd'
      exact h.holds id' d' fence hd' hfence'
  · intro id' fence attempt hin
    obtain ⟨d', held, hd', hrest⟩ := h.accepted id' fence attempt hin
    exact ⟨d', held, hother hd', hrest⟩
  · intro id' hsuper
    obtain ⟨d', fence, hd', hrest⟩ := h.overtaken id' hsuper
    exact ⟨d', fence, hother hd', hrest⟩

theorem System.Inv.step {s' : System} (h : s.Inv) (hstep : Step s s') : s'.Inv := by
  cases hstep with
  | elsewhere at_ tables recorded hchanges =>
    obtain ⟨hkept, hqueue⟩ := rowsKept_of_changes hchanges h.queue
    exact h.elsewhere hkept hqueue
  | original id d hid hfence => exact h.original hid hfence
  | execute id input token at_ tables base hid htoken haccept =>
    refine h.accept (accepts_of_accept h.queue haccept) htoken rfl rfl ?_ ?_
    · intro d' hd'
      rw [hid] at hd'
      cases hd'
    · intro hsuper
      obtain ⟨d', fence, hd', -⟩ := h.overtaken id hsuper
      rw [hid] at hd'
      cases hd'
  | write id d at_ written recorded hd hcheck hchanges =>
    obtain ⟨hkept, hqueue⟩ := rowsKept_of_changes (hchanges.trans
      (consumeFinished_changes written d.fence)) h.queue
    exact (h.commit hd hcheck).elsewhere hkept hqueue
  | takeOn id d at_ written recorded token hd hcheck htoken hchanges =>
    have hcommitted := h.commit hd hcheck
    obtain ⟨hkept, hqueue⟩ := rowsKept_of_changes hchanges h.queue
    have hwritten := hcommitted.elsewhere hkept hqueue
    unfold System.takeOn
    cases hbind : bindAdmission written d token at_ with
    | mk bound granted =>
      cases granted with
      | none =>
        obtain rfl := bindAdmission_none hbind
        obtain ⟨hkept', hqueue'⟩ := consumeFinished_kept at_ bound d.fence hqueue
        exact hwritten.elsewhere hkept' hqueue'
      | some fence =>
        obtain ⟨haccepts, hrun, rfl⟩ := accepts_of_bindAdmission hqueue hbind
        obtain ⟨hkept', hqueue'⟩ := consumeFinished_kept at_ bound (some fence) haccepts.queue
        refine System.Inv.elsewhere (hwritten.accept (d := { d with fence := some fence }) haccepts
          htoken rfl hrun ?_ ?_) hkept' hqueue'
        · intro d' hd'
          obtain rfl := Option.some.inj (hd.symm.trans hd')
          rfl
        · intro hsuper
          rcases superseded_append hsuper with hsuper | ⟨_, _, _, _, _, he, -⟩
          · exact h.not_superseded hd hcheck hsuper
          · simp at he

theorem inv_of_reachable (h : Reachable s) : s.Inv := by
  induction h with
  | start t hqueue =>
    refine ⟨hqueue, by simp, by simp, by simp, ?_, by simp, by simp⟩
    rintro id ⟨before, after, fence, attempt, id', fence', attempt', hlog, -⟩
    simp at hlog
  | step _ hstep ih => exact ih.step hstep

/-- The attempt a delivery without an admission is held to. -/
def runAttempt (t : SweepTables) (runId : ℕ) : ℕ :=
  ((t.findRun runId).map DiscoveryRun.attempt).getD 0

theorem check_of_below (hfence : d.fence = none) (hbelow : d.attempt < runAttempt t d.runId) :
    check t d = false := by
  unfold check
  rw [hfence]
  exact decide_eq_false (Nat.not_le.mpr hbelow)

theorem unbound_step {s' : System} (hd : s.deliveries id = some d) (hfence : d.fence = none)
    (hbelow : d.attempt < runAttempt s.tables d.runId) (hstep : Step s s') :
    s'.deliveries id = some d ∧ ∃ rest, s'.log = s.log ++ rest ∧ .committed id ∉ rest := by
  have hnew : ∀ {id' : ℕ} {d' : Delivery}, s.deliveries id' = none →
      Function.update s.deliveries id' (some d') id = some d := by
    intro id' d' hnone
    rw [Function.update_of_ne, hd]
    rintro rfl
    rw [hnone] at hd
    cases hd
  have hblocked := check_of_below hfence hbelow
  have hother : ∀ {id' : ℕ} {d' : Delivery}, s.deliveries id' = some d' →
      check s.tables d' = true → id ≠ id' := by
    rintro id' d' hd' hcheck rfl
    obtain rfl := Option.some.inj (hd.symm.trans hd')
    rw [hblocked] at hcheck
    cases hcheck
  cases hstep with
  | elsewhere at_ tables recorded hchanges =>
    exact ⟨hd, [], (append_nil _).symm, not_mem_nil⟩
  | original id' d' hid =>
    exact ⟨hnew hid, [], (append_nil _).symm, not_mem_nil⟩
  | execute id' input token at_ tables base hid => exact ⟨hnew hid, _, rfl, by simp⟩
  | write id' d' at_ written recorded hd' hcheck =>
    exact ⟨hd, _, rfl, by simpa using hother hd' hcheck⟩
  | takeOn id' d' at_ written recorded token hd' hcheck =>
    have hne := hother hd' hcheck
    unfold System.takeOn
    split
    · refine ⟨?_, _, append_assoc _ _ _, by simpa using hne⟩
      exact (Function.update_of_ne hne _ _).trans hd
    · exact ⟨hd, _, rfl, by simpa using hne⟩

theorem unbound_run {s' : System} (hd : s.deliveries id = some d) (hfence : d.fence = none)
    (hrun : Relation.ReflTransGen
      (fun u v => d.attempt < runAttempt u.tables d.runId ∧ Step u v) s s') :
    s'.deliveries id = some d ∧ ∃ rest, s'.log = s.log ++ rest ∧ .committed id ∉ rest := by
  induction hrun with
  | refl => exact ⟨hd, [], (append_nil _).symm, not_mem_nil⟩
  | tail _ hstep ih =>
    obtain ⟨hbefore, rest, hlog, hnone⟩ := ih
    obtain ⟨hafter, rest', hlog', hnone'⟩ := unbound_step hbefore hfence hstep.1 hstep.2
    refine ⟨hafter, rest ++ rest', ?_, ?_⟩
    · rw [hlog', hlog, append_assoc]
    · rw [mem_append]
      exact not_or.mpr ⟨hnone, hnone'⟩

theorem runs_of_accept {input : ExecuteInput} {at_ base : ℕ}
    (h : FingerprintDelivery.accept t input token at_ = some (t', base))
    (hids : (t.runs.map DiscoveryRun.id).Nodup) :
    if (t.admissions.find? (executable t input)).bind Admission.dispatchKind = some .ordinary then
      runAttempt t input.runId < base + input.attempt ∧
        runAttempt t' input.runId = base + input.attempt
    else t'.runs = t.runs := by
  unfold FingerprintDelivery.accept at h
  split at h
  · next run row hrun hrow =>
    rw [hrow, Option.bind_some]
    simp only at h
    split at h
    · next hkind =>
      rw [if_pos hkind]
      split at h
      · next hclaimed =>
        obtain ⟨rfl, rfl⟩ := Prod.mk.inj (Option.some.inj h)
        obtain ⟨claimed, hin, hclaims⟩ := any_eq_true.mp hclaimed
        have hfields := hclaims
        simp only [claimable, Bool.and_eq_true, decide_eq_true_eq] at hfields
        have hid : run.id = input.runId := by simpa using find?_some hrun
        obtain rfl : run = claimed := inj_on_of_nodup_map hids
          (mem_of_find?_eq_some hrun) hin (hid.trans hfields.1.1.symm)
        unfold runAttempt
        rw [hrun]
        refine ⟨hfields.2, ?_⟩
        unfold SweepTables.findRun SweepTables.updateRuns SweepTables.updateAdmissions
        rw [find?_map]
        have hfound : t.runs.find? ((fun run => decide (run.id = input.runId)) ∘ fun run =>
            if claimable input.runId (row.attemptBase.getD 0 + input.attempt) run then
              { run with
                status := .running, attempt := row.attemptBase.getD 0 + input.attempt }
            else run) = some run := by
          rw [← hrun]
          unfold SweepTables.findRun
          congr 1
          funext other
          dsimp only [Function.comp_apply]
          split <;> rfl
        rw [hfound, Option.map_some, if_pos hclaims]
        rfl
      · cases h
    · next hkind =>
      rw [if_neg hkind]
      split at h
      · obtain ⟨rfl, -⟩ := Prod.mk.inj (Option.some.inj h)
        rfl
      · cases h
  · cases h

/-- What the fence promises of everything that happened, of the tables now, and
of what happens next. -/
structure Fenced (s : System) : Prop where
  silent : ∀ before mid after id fence attempt id' fence' attempt',
    s.log = before ++ .accepted id fence attempt :: mid ++ .accepted id' fence' attempt' :: after →
      id ≠ id' → fence.runId = fence'.runId → .committed id ∉ after
  /-- A delivery without an admission is silent while its run's attempt is above its own. -/
  unbound : ∀ id d s', s.deliveries id = some d → d.fence = none →
    Relation.ReflTransGen (fun u v => d.attempt < runAttempt u.tables d.runId ∧ Step u v) s s' →
      ∃ rest, s'.log = s.log ++ rest ∧ .committed id ∉ rest
  /-- The acceptance of an ordinary admission raises that attempt, that of a
  continuation leaves it. -/
  raised : ∀ input token at_ tables base, accept s.tables input token at_ = some (tables, base) →
    (s.tables.runs.map DiscoveryRun.id).Nodup →
      if (s.tables.admissions.find? (executable s.tables input)).bind Admission.dispatchKind =
          some .ordinary then
        runAttempt s.tables input.runId < base + input.attempt ∧
          runAttempt tables input.runId = base + input.attempt
      else tables.runs = s.tables.runs
  single : ∀ fence fence', lockAndCheck s.tables fence = true →
    lockAndCheck s.tables fence' = true → fence.runId = fence'.runId → fence = fence'
  increasing : ∀ before mid after id fence attempt id' fence' attempt',
    s.log = before ++ .accepted id fence attempt :: mid ++ .accepted id' fence' attempt' :: after →
      fence.admissionId = fence'.admissionId → attempt < attempt'

/-- However deliveries interleave: once a later delivery of a run is accepted, no
write transaction of an earlier one that holds an admission commits; one without
is held to its run's attempt; one token of a run is accepted at a time; and the
accepted attempts of an admission strictly increase. -/
theorem delivery_fenced {s : System} (h : Reachable s) : Fenced s := by
  have hinv := inv_of_reachable h
  refine ⟨?_, ?_, ?_, ?_, ?_⟩
  · intro before mid after id fence attempt id' fence' attempt' hlog hne hrun hin
    obtain ⟨done, rest, rfl⟩ := append_of_mem hin
    refine hinv.silent (before ++ .accepted id fence attempt :: mid ++
      .accepted id' fence' attempt' :: done) id rest ?_ ?_
    · rw [hlog]
      simp
    · exact ⟨before ++ .accepted id fence attempt :: mid, done, fence, attempt, id', fence',
        attempt', rfl, hne, hrun, by simp⟩
  · intro id d s' hd hfence hrun
    exact (unbound_run hd hfence hrun).2
  · intro input token at_ tables base haccept hids
    exact runs_of_accept haccept hids
  · intro fence fence' hfence hfence' hrun
    exact eq_of_current hinv.queue (current_of_lockAndCheck hfence)
      (current_of_lockAndCheck hfence') hrun
  · intro before mid after id fence attempt id' fence' attempt' hlog hsame
    exact hinv.increasing (before ++ .accepted id fence attempt :: mid) after id fence attempt id'
      fence' attempt' hlog (by simp) hsame

/-! One admission, executed by a job and then by its redelivery. -/

def sampleRow : Admission where
  id := 1
  queueOrder := 0
  discoveryRunId := 1
  key := ⟨.eu, "realm", "name"⟩
  requestCap := 2
  hourlyBudget := 3
  cadenceCutoff := 0
  requestedAt := 0
  status := .admitted
  dispatchedAt := none
  consumedAt := none
  attemptBase := some 0
  dispatchKind := some .ordinary
  executionJobId := none
  executionAttempt := 0
  executionMaxAttempts := some 5
  executionToken := none

def sampleTables : SweepTables :=
  ⟨[⟨1, ⟨.eu, "realm", "name"⟩, .queued, 0⟩], [], [], [sampleRow], [], [], 1⟩

theorem queueInv_sampleTables : QueueInv sampleTables :=
  ⟨by decide, by simp [sampleTables], by decide⟩

theorem delivery_fenced_redelivery :
    ∃ s, Reachable s ∧ s.log = [.accepted 0 ⟨1, 1, 100⟩ 1, .committed 0, .accepted 1 ⟨1, 1, 101⟩ 2] ∧
      Fenced s := by
  have hstart := Reachable.start sampleTables queueInv_sampleTables
  have hfirst := hstart.step (.execute _ 0 ⟨1, 1, 7, 1, 5⟩ 100 10 _ _ rfl (by simp) rfl)
  have hwrite := hfirst.step (.write _ 0 _ 20 _ _ rfl (by decide) (.refl _))
  have hsecond := hwrite.step (.execute _ 1 ⟨1, 1, 7, 2, 5⟩ 101 30 _ _ rfl (by simp) rfl)
  exact ⟨_, hsecond, rfl, delivery_fenced hsecond⟩

/-- The same run, complete at its first attempt, with a continuation to dispatch. -/
def continuedTables : SweepTables :=
  ⟨[⟨1, ⟨.eu, "realm", "name"⟩, .complete, 1⟩], [⟨2, 1⟩],
    [⟨⟨.eu, "realm", "name"⟩, none, some "guild", none, none, none, some 2, 0⟩],
    [{ sampleRow with attemptBase := some 1, dispatchKind := some .continuation }], [], [], 1⟩

theorem queueInv_continuedTables : QueueInv continuedTables :=
  ⟨by decide, by simp [continuedTables], by decide⟩

/-- A delivery without an admission commits after a continuation of its run is
accepted, since that leaves the attempt it is held to. -/
theorem unbound_original_commits :
    ¬ ∀ (s s' : System) (id : ℕ) (d : Delivery) (before after : List Event) (id' : ℕ)
      (fence : Fence) (attempt : ℕ), Reachable s → s.deliveries id = some d →
        Relation.ReflTransGen Step s s' →
          s'.log = s.log ++ before ++ .accepted id' fence attempt :: after →
            fence.runId = d.runId → id ≠ id' → .committed id ∉ after := by
  intro hsilent
  let d : Delivery := ⟨1, 6, 1, 5, 0, none⟩
  have horiginal := (Reachable.start continuedTables queueInv_continuedTables).step
    (.original _ 0 d rfl rfl)
  refine hsilent _ _ 0 d [] [.committed 0] 1 ⟨1, 1, 100⟩ 1 horiginal rfl
    ((Relation.ReflTransGen.refl.tail
      (.execute _ 1 ⟨1, 1, 7, 1, 5⟩ 100 10 _ _ rfl (by simp) rfl)).tail
      (.write _ 0 d 20 _ _ rfl (by decide) (.refl _))) rfl rfl (by decide) ?_
  exact mem_singleton.mpr rfl

end SlashWho.FingerprintFence
