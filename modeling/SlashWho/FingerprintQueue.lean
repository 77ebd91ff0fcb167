import SlashWho.FingerprintWrites

/-!
Turns of the admission queue. The one who is admitted is the first of the rows that wait and
whose cadence passes, whatever is excused from the cadence, so nobody is admitted past an
earlier one. And the first row that waits at all is never refused for itself alone: with
nothing reserved and nothing requested lately it is admitted, or settled as not due.
-/

namespace SlashWho.FingerprintQueue

open List FingerprintSweeps FingerprintDelivery FingerprintFence FingerprintWrites Fallible

/-- A row that waits for its turn at an instant: requested by then, and its root has not
published since its own cutoff. -/
def Eligible (t : SweepTables) (at_ : ℕ) (a : Admission) : Prop :=
  a.isWaiting = true ∧ a.requestedAt ≤ at_ ∧ cadencePasses t none a = true

/-! ### What holds of every queue -/

def NoneAsked (t : SweepTables) : Prop := t.admissions = [] ∧ t.reservations = []

/-- A row's own budget has room for its cap, and every reservation is of a row that was
admitted. -/
structure Fits (t : SweepTables) : Prop where
  queue : QueueInv t
  caps : ∀ a ∈ t.admissions, a.requestCap ≤ a.hourlyBudget
  reserved : ∀ r ∈ t.reservations, ∃ a ∈ t.admissions, a.id = r.admissionId ∧ a.status ≠ .waiting

variable {t t' : SweepTables}

theorem fits_of_noneAsked (h : NoneAsked t) : Fits t := by
  obtain ⟨hadmissions, hreservations⟩ := h
  refine ⟨⟨?_, ?_, ?_⟩, ?_, ?_⟩ <;> simp [hadmissions, hreservations]

theorem Fits.write (h : Fits t) (hwrite : Write t t') : Fits t' := by
  have hqueue := queueInv_write h.queue hwrite
  cases hwrite with
  | rows p f hf =>
    refine ⟨hqueue, ?_, ?_⟩
    · intro a' ha'
      obtain ⟨a, ha, rfl⟩ := mem_map.mp ha'
      split
      · exact (hf a).caps (h.caps a ha)
      · exact h.caps a ha
    · intro r hr
      obtain ⟨a, ha, hid, hstatus⟩ := h.reserved r hr
      refine ⟨_, mem_map_of_mem ha, ?_⟩
      split
      · exact ⟨(hf a).id.trans hid, (hf a).status hstatus⟩
      · exact ⟨hid, hstatus⟩
  | insert hinsert hcaps =>
    have hcap := hcaps h.caps
    unfold insertAdmission at hinsert
    split at hinsert
    · cases hinsert
    · split at hinsert
      · cases hinsert
      · obtain rfl := Except.ok.inj hinsert
        refine ⟨hqueue, ?_, ?_⟩
        · intro a ha
          rcases mem_append.mp ha with hold | hnew
          · exact h.caps a hold
          · rw [mem_singleton.mp hnew]
            exact hcap
        · intro r hr
          obtain ⟨a, ha, hrow⟩ := h.reserved r hr
          exact ⟨a, mem_append_left _ ha, hrow⟩
  | grant hreserve hin hid =>
    have hok := insertReservation_ok hreserve
    subst hok
    refine ⟨hqueue, ?_, ?_⟩
    · intro a' ha'
      obtain ⟨a, ha, rfl⟩ := mem_map.mp ha'
      have hcap := h.caps a ha
      split
      · exact hcap
      · exact hcap
    · intro r hr
      rcases mem_append.mp hr with hold | hnew
      · obtain ⟨a, ha, hrow, hstatus⟩ := h.reserved r hold
        refine ⟨_, mem_map_of_mem ha, ?_⟩
        split
        · exact ⟨hrow, nofun⟩
        · exact ⟨hrow, hstatus⟩
      · rw [mem_singleton.mp hnew]
        refine ⟨_, mem_map_of_mem hin, ?_⟩
        rw [if_pos (decide_eq_true hid)]
        exact ⟨hid, nofun⟩
  | reservations p f hf =>
    refine ⟨hqueue, h.caps, ?_⟩
    intro r' hr'
    obtain ⟨r, hr, rfl⟩ := mem_map.mp hr'
    obtain ⟨a, ha, hid, hstatus⟩ := h.reserved r hr
    refine ⟨a, ha, ?_, hstatus⟩
    split
    · rw [hf r]
      exact hid
    · exact hid
  | beside => exact ⟨hqueue, h.caps, h.reserved⟩

theorem fits_of_reachable (h : Reachable NoneAsked t) : Fits t :=
  h.keeps (fun _ hstart => fits_of_noneAsked hstart) (fun _ _ hfits hwrite => hfits.write hwrite)

/-! ### Nobody is admitted past an earlier one -/

variable {at_ : ℕ}

variable {bypass : Option ℕ}

theorem cadencePasses_of_none {a : Admission} (h : cadencePasses t none a = true) :
    cadencePasses t bypass a = true := by
  unfold cadencePasses at h ⊢
  split
  · rfl
  · next last hlast =>
    rw [hlast] at h
    simp only [reduceCtorEq, decide_false, Bool.or_false] at h
    rw [h, Bool.true_or]

theorem before_of_queueHead (hqueue : QueueInv t) {head b : Admission}
    (hhead : queueHead t at_ bypass = some head) (hb : b ∈ t.admissions)
    (heligible : Eligible t at_ b) (hne : b ≠ head) : queuePosition head < queuePosition b := by
  obtain ⟨hwaiting, hrequested, hcadence⟩ := heligible
  have hin := (mem_filter.mp (argmin_mem hhead)).1
  have hmem : b ∈ t.admissions.filter (fun a =>
      a.isWaiting && a.requestedAt ≤ at_ && cadencePasses t bypass a) := by
    refine mem_filter.mpr ⟨hb, ?_⟩
    simp [hwaiting, hrequested, cadencePasses_of_none hcadence]
  refine lt_of_le_of_ne (le_of_mem_argmin hmem hhead) ?_
  intro hsame
  have horder : head.queueOrder = b.queueOrder := congrArg (fun p => (ofLex p).2) hsame
  exact hne (eq_of_queueOrder_eq hqueue hin hb horder).symm

/-- A row is admitted at an instant before every other one that waits for its turn then. -/
def TurnKept (t t' : SweepTables) (at_ : ℕ) : Prop :=
  ∀ a' ∈ t'.admissions, a'.status = .admitted →
    (∃ a ∈ t.admissions, a.id = a'.id ∧ a.status = .admitted) ∨
      ∀ b ∈ t'.admissions, Eligible t' at_ b → queuePosition a' < queuePosition b

theorem turnKept_refl (t : SweepTables) (at_ : ℕ) : TurnKept t t at_ :=
  fun a' ha' hadmitted => .inl ⟨a', ha', rfl, hadmitted⟩

theorem turnKept_rows (t : SweepTables) (at_ : ℕ) (p : Admission → Bool)
    {f : Admission → Admission} (hf : ∀ a, (f a).id = a.id ∧
      ((f a).status = .admitted → a.status = .admitted)) :
    TurnKept t (t.updateAdmissions p f) at_ := by
  intro a' ha' hadmitted
  obtain ⟨a, ha, rfl⟩ := mem_map.mp ha'
  left
  refine ⟨a, ha, ?_⟩
  split at hadmitted
  · next hp => rw [if_pos hp]; exact ⟨(hf a).1.symm, (hf a).2 hadmitted⟩
  · next hp => rw [if_neg hp]; exact ⟨rfl, hadmitted⟩

variable {newReservation : ℕ}

theorem turnKept_admitRun (hqueue : QueueInv t) {admissionId : ℕ} {outcome : FingerprintAdmission}
    (h : admitFingerprintWaitingRun t admissionId at_ bypass newReservation = .ok (t', outcome)) :
    TurnKept t t' at_ := by
  unfold admitFingerprintWaitingRun at h
  cases hhead : queueHead t at_ bypass with
  | none =>
    rw [hhead] at h
    obtain ⟨rfl, -⟩ := Prod.mk.inj (Except.ok.inj h)
    exact turnKept_refl t at_
  | some candidate =>
    rw [hhead] at h
    simp only at h
    split at h
    · obtain ⟨rfl, -⟩ := Prod.mk.inj (Except.ok.inj h)
      exact turnKept_refl t at_
    · next hsame =>
      split at h
      · obtain ⟨rfl, -⟩ := Prod.mk.inj (Except.ok.inj h)
        exact turnKept_refl t at_
      · obtain ⟨reserved, hreserved, hdone⟩ := ok_of_bind_ok h
        obtain ⟨rfl, -⟩ := Prod.mk.inj (Except.ok.inj hdone)
        have hid : candidate.id = admissionId := not_not.mp hsame
        have hin := (mem_filter.mp (argmin_mem hhead)).1
        obtain rfl := insertReservation_ok hreserved
        intro a' ha' hadmitted
        obtain ⟨a, ha, rfl⟩ := mem_map.mp ha'
        by_cases hgranted : a.id = admissionId
        · right
          obtain rfl := eq_of_id_eq hqueue ha hin (hgranted.trans hid.symm)
          intro b' hb' heligible
          obtain ⟨b, hb, rfl⟩ := mem_map.mp hb'
          by_cases hother : b.id = admissionId
          · -- the granted row no longer waits
            obtain ⟨hwaiting, -, -⟩ := heligible
            simp [hother, Admission.isWaiting] at hwaiting
          · have hne : b ≠ a := fun heq => hother (heq ▸ hgranted)
            simp only [hother, decide_false, Bool.false_eq_true, if_false] at heligible ⊢
            simp only [hgranted, decide_true, if_true]
            change queuePosition a < queuePosition b
            exact before_of_queueHead hqueue hhead hb heligible hne
        · left
          simp only [hgranted, decide_false, Bool.false_eq_true, if_false] at hadmitted ⊢
          exact ⟨a, ha, rfl, hadmitted⟩

theorem queued_admitted {input : AdmissionInput} {newAdmission admissionId : ℕ}
    {queued : SweepTables} (h : queueRequest t input newAdmission = .ok (queued, admissionId)) :
    ∀ a' ∈ queued.admissions, a'.status = .admitted →
      ∃ a ∈ t.admissions, a.id = a'.id ∧ a.status = .admitted := by
  unfold queueRequest at h
  split at h
  · obtain ⟨rfl, -⟩ := Prod.mk.inj (Except.ok.inj h)
    intro a' ha' hadmitted
    obtain ⟨a, ha, rfl⟩ := mem_map.mp ha'
    refine ⟨a, ha, ?_⟩
    split at hadmitted
    · next hp => rw [if_pos hp]; exact ⟨rfl, hadmitted⟩
    · next hp => rw [if_neg hp]; exact ⟨rfl, hadmitted⟩
  · obtain ⟨inserted, hinserted, hdone⟩ := ok_of_bind_ok h
    obtain ⟨rfl, -⟩ := Prod.mk.inj (Except.ok.inj hdone)
    unfold insertAdmission at hinserted
    split at hinserted
    · cases hinserted
    · split at hinserted
      · cases hinserted
      · obtain rfl := Except.ok.inj hinserted
        intro a' ha' hadmitted
        obtain ⟨a, ha, rfl⟩ := mem_map.mp ha'
        have hstatus : a.status = .admitted := by
          split at hadmitted
          · exact hadmitted
          · exact hadmitted
        rcases mem_append.mp ha with hold | hnew
        · refine ⟨a, hold, ?_, hstatus⟩
          split
          · rfl
          · rfl
        · rw [mem_singleton.mp hnew] at hstatus
          cases hstatus

theorem turnKept_requestAdmission (hqueue : QueueInv t) {input : AdmissionInput} {newAdmission : ℕ}
    {outcome : FingerprintAdmission}
    (h : requestAdmission t input newAdmission newReservation = .ok (t', outcome)) :
    TurnKept t t' input.at_ := by
  unfold requestAdmission at h
  obtain ⟨checked, hchecked, h⟩ := ok_of_bind_ok h
  split at h
  · obtain ⟨rfl, -⟩ := Prod.mk.inj (Except.ok.inj h)
    exact turnKept_refl t input.at_
  · split at h
    · obtain ⟨rfl, -⟩ := Prod.mk.inj (Except.ok.inj h)
      exact turnKept_rows t input.at_ _ (fun a => ⟨rfl, nofun⟩)
    · obtain ⟨⟨queued, admissionId⟩, hqueued, h⟩ := ok_of_bind_ok h
      obtain ⟨⟨result, decided⟩, hadmits, h⟩ := ok_of_bind_ok h
      have hqueuedInv : QueueInv queued :=
        inv_of_writes (fun _ _ => queueInv_write) hqueue
          (writes_queueRequest (caps_of_assert hchecked) hqueued)
      have hresult : TurnKept t result input.at_ := by
        intro a' ha' hadmitted
        rcases turnKept_admitRun hqueuedInv hadmits a' ha' hadmitted with hbefore | hturn
        · obtain ⟨a, ha, hid, hstatus⟩ := hbefore
          obtain ⟨first, hfirst, hfirstId, hfirstStatus⟩ := queued_admitted hqueued a ha hstatus
          exact .inl ⟨first, hfirst, hfirstId.trans hid, hfirstStatus⟩
        · exact .inr hturn
      cases decided with
      | waiting retryAt blockedSince =>
        simp only at h
        split at h
        · obtain ⟨rfl, -⟩ := Prod.mk.inj (Except.ok.inj h)
          exact hresult
        · obtain ⟨deferred, hdeferred, hdone⟩ := ok_of_bind_ok h
          obtain ⟨rfl, -⟩ := Prod.mk.inj (Except.ok.inj hdone)
          unfold deferWaitingRun at hdeferred
          split at hdeferred
          · obtain rfl := Except.ok.inj hdeferred
            exact hresult
          · cases hdeferred
      | admitted | notDue =>
        obtain ⟨rfl, -⟩ := Prod.mk.inj (Except.ok.inj h)
        exact hresult

theorem turnKept_admitWaiting (hqueue : QueueInv t) {runId : ℕ} {outcome : QueuedAdmission}
    (h : admitWaiting t runId at_ newReservation = .ok (t', outcome)) : TurnKept t t' at_ := by
  unfold admitWaiting at h
  split at h
  · obtain ⟨rfl, -⟩ := Prod.mk.inj (Except.ok.inj h)
    exact turnKept_refl t at_
  · simp only at h
    split at h
    · obtain ⟨rfl, -⟩ := Prod.mk.inj (Except.ok.inj h)
      exact turnKept_rows t at_ _ (fun a => ⟨rfl, nofun⟩)
    · obtain ⟨⟨result, decided⟩, hresult, hdone⟩ := ok_of_bind_ok h
      obtain ⟨rfl, -⟩ := Prod.mk.inj (Except.ok.inj hdone)
      exact turnKept_admitRun hqueue hresult

/-! ### The first row that waits is not refused -/

/-- A page of the runs that wait. -/
def listWaiting (t : SweepTables) (limit offset : ℕ) : List ℕ :=
  ((((t.admissions.filter Admission.isWaiting).insertionSort
    (fun left right => queuePosition left ≤ queuePosition right)).drop offset).take limit).map
      Admission.discoveryRunId

/-- Asking for each of some runs at an instant, each with the id its reservation would get. -/
def admitEach (t : SweepTables) (at_ : ℕ) : List (ℕ × ℕ) → SweepTables
  | [] => t
  | call :: rest =>
    match admitWaiting t call.1 at_ call.2 with
    | .ok (t', _) => admitEach t' at_ rest
    | .error _ => admitEach t at_ rest

/-- A call admitted a waiting row of its run, or settled it as not due. -/
def Turned (t : SweepTables) (at_ : ℕ) (call : ℕ × ℕ) : Prop :=
  ∃ t' outcome, admitWaiting t call.1 at_ call.2 = .ok (t', outcome) ∧
    (outcome = .admitted ∨ outcome = .notDue) ∧
    ∃ a ∈ t.admissions, a.isWaiting = true ∧ a.discoveryRunId = call.1 ∧
      ∃ a' ∈ t'.admissions, a'.id = a.id ∧ (a'.status = .admitted ∨ a'.status = .notDue)

theorem admitRun_cases {admissionId : ℕ} {bypass : Option ℕ} {outcome : FingerprintAdmission}
    (h : admitFingerprintWaitingRun t admissionId at_ bypass newReservation = .ok (t', outcome)) :
    t' = t ∨ outcome.queued = .admitted ∧
      ∀ a ∈ t.admissions, a.id = admissionId →
        ∃ a' ∈ t'.admissions, a'.id = a.id ∧ a'.status = .admitted := by
  unfold admitFingerprintWaitingRun at h
  split at h
  · obtain ⟨rfl, -⟩ := Prod.mk.inj (Except.ok.inj h)
    exact .inl rfl
  · split at h
    · obtain ⟨rfl, -⟩ := Prod.mk.inj (Except.ok.inj h)
      exact .inl rfl
    · split at h
      · obtain ⟨rfl, -⟩ := Prod.mk.inj (Except.ok.inj h)
        exact .inl rfl
      · obtain ⟨reserved, hreserved, hdone⟩ := ok_of_bind_ok h
        obtain ⟨rfl, rfl⟩ := Prod.mk.inj (Except.ok.inj hdone)
        obtain rfl := insertReservation_ok hreserved
        refine .inr ⟨rfl, ?_⟩
        intro a ha hid
        refine ⟨_, mem_map_of_mem ha, ?_⟩
        rw [if_pos (decide_eq_true hid)]
        exact ⟨rfl, rfl⟩

theorem turned_of_changed {call : ℕ × ℕ} {outcome : QueuedAdmission}
    (h : admitWaiting t call.1 at_ call.2 = .ok (t', outcome)) : t' = t ∨ Turned t at_ call := by
  have hcall := h
  unfold admitWaiting at h
  cases hwaiting : waitingAdmission t call.1 with
  | none =>
    rw [hwaiting] at h
    obtain ⟨rfl, -⟩ := Prod.mk.inj (Except.ok.inj h)
    exact .inl rfl
  | some admission =>
    have hmem := mem_filter.mp (argmin_mem hwaiting)
    obtain ⟨hin, hof⟩ := hmem
    rw [Bool.and_eq_true, decide_eq_true_eq] at hof
    rw [hwaiting] at h
    simp only at h
    split at h
    · obtain ⟨rfl, rfl⟩ := Prod.mk.inj (Except.ok.inj h)
      refine .inr ⟨_, _, hcall, .inr rfl, admission, hin, hof.2, hof.1, _,
        mem_map_of_mem hin, ?_⟩
      rw [if_pos (decide_eq_true rfl)]
      exact ⟨rfl, .inr rfl⟩
    · obtain ⟨⟨result, decided⟩, hresult, hdone⟩ := ok_of_bind_ok h
      obtain ⟨rfl, rfl⟩ := Prod.mk.inj (Except.ok.inj hdone)
      rcases admitRun_cases hresult with hsame | ⟨hadmitted, hrow⟩
      · exact .inl hsame
      · obtain ⟨a', ha', hid, hstatus⟩ := hrow admission hin rfl
        exact .inr ⟨_, _, hcall, .inl hadmitted, admission, hin, hof.2, hof.1, a', ha', hid,
          .inl hstatus⟩

/-- The first of the rows that wait. -/
def IsFirst (t : SweepTables) (first : Admission) : Prop :=
  first ∈ t.admissions ∧ first.isWaiting = true ∧
    ∀ b ∈ t.admissions, b.isWaiting = true → queuePosition first ≤ queuePosition b

theorem exists_first (h : ∃ a ∈ t.admissions, a.isWaiting = true ∧ a.requestedAt ≤ at_)
    {limit : ℕ} (hlimit : 0 < limit) :
    ∃ first, IsFirst t first ∧ first.requestedAt ≤ at_ ∧
      first.discoveryRunId ∈ listWaiting t limit 0 := by
  obtain ⟨a, ha, hwaiting, hrequested⟩ := h
  have hsorted := pairwise_insertionSort
    (fun left right : Admission => queuePosition left ≤ queuePosition right)
    (t.admissions.filter Admission.isWaiting)
  have hmem : ∀ b, b ∈ (t.admissions.filter Admission.isWaiting).insertionSort
      (fun left right => queuePosition left ≤ queuePosition right) ↔
      b ∈ t.admissions ∧ b.isWaiting = true := by
    intro b
    rw [mem_insertionSort, mem_filter]
  cases hlist : (t.admissions.filter Admission.isWaiting).insertionSort
      (fun left right => queuePosition left ≤ queuePosition right) with
  | nil =>
    have hin := (hmem a).mpr ⟨ha, hwaiting⟩
    rw [hlist] at hin
    cases hin
  | cons first rest =>
    rw [hlist] at hsorted hmem
    obtain ⟨hbefore, -⟩ := pairwise_cons.mp hsorted
    have hle : ∀ b, b ∈ first :: rest → queuePosition first ≤ queuePosition b := by
      intro b hb
      rcases mem_cons.mp hb with heq | htail
      · rw [heq]
      · exact hbefore b htail
    obtain ⟨hin, hfirst⟩ := (hmem first).mp mem_cons_self
    refine ⟨first, ⟨hin, hfirst, fun b hb hbWaits => hle b ((hmem b).mpr ⟨hb, hbWaits⟩)⟩, ?_, ?_⟩
    · have hposition := Prod.Lex.monotone_fst _ _ (hle a ((hmem a).mpr ⟨ha, hwaiting⟩))
      exact le_trans hposition hrequested
    · unfold listWaiting
      obtain ⟨limit, rfl⟩ := Nat.exists_eq_add_one_of_ne_zero (Nat.ne_of_gt hlimit)
      rw [hlist, drop_zero, take_succ_cons, map_cons]
      exact mem_cons_self

variable {first : Admission}

theorem IsFirst.argmin (hqueue : QueueInv t) (h : IsFirst t first) {p : Admission → Bool}
    (hp : p first = true) (hwaits : ∀ b ∈ t.admissions, p b = true → b.isWaiting = true) :
    (t.admissions.filter p).argmin queuePosition = some first := by
  obtain ⟨hin, -, hbefore⟩ := h
  have hmem := mem_filter.mpr ⟨hin, hp⟩
  cases hargmin : (t.admissions.filter p).argmin queuePosition with
  | none =>
    rw [argmin_eq_none.mp hargmin] at hmem
    cases hmem
  | some b =>
    obtain ⟨hb, hbp⟩ := mem_filter.mp (argmin_mem hargmin)
    have hle := le_of_mem_argmin hmem hargmin
    have hge := hbefore b hb (hwaits b hb hbp)
    have horder : b.queueOrder = first.queueOrder :=
      congrArg (fun p => (ofLex p).2) (le_antisymm hle hge)
    rw [eq_of_queueOrder_eq hqueue hb hin horder]

theorem admitRun_first (h : Fits t) (hfirst : IsFirst t first)
    (hrequested : first.requestedAt ≤ at_) (hfree : commitment t at_ = 0)
    (hnew : ∀ r ∈ t.reservations, r.id ≠ newReservation) {bypass : Option ℕ}
    (hcadence : cadencePasses t bypass first = true) :
    ∃ t' outcome, admitFingerprintWaitingRun t first.id at_ bypass newReservation =
      .ok (t', outcome) ∧ outcome.queued = .admitted ∧
      ∃ a' ∈ t'.admissions, a'.id = first.id ∧ a'.status = .admitted := by
  obtain ⟨hin, hwaiting, -⟩ := id hfirst
  have hhead : queueHead t at_ bypass = some first := by
    refine hfirst.argmin h.queue (by simp [hwaiting, hrequested, hcadence]) ?_
    intro b _ hb
    rw [Bool.and_eq_true, Bool.and_eq_true] at hb
    exact hb.1.1
  have hunreserved : ∀ r ∈ t.reservations, r.admissionId ≠ first.id := by
    intro r hr heq
    obtain ⟨a, ha, hid, hstatus⟩ := h.reserved r hr
    obtain rfl := eq_of_id_eq h.queue ha hin (hid.trans heq)
    unfold Admission.isWaiting at hwaiting
    rw [Bool.and_eq_true, decide_eq_true_eq] at hwaiting
    exact hstatus hwaiting.1
  have hroom : ¬ commitment t at_ + first.requestCap > first.hourlyBudget := by
    rw [hfree, Nat.zero_add]
    exact not_lt.mpr (h.caps first hin)
  have hfree : ∀ row : Reservation, row.id = newReservation → row.admissionId = first.id →
      insertReservation t row = .ok { t with reservations := t.reservations ++ [row] } := by
    intro row hid hof
    unfold insertReservation
    rw [if_neg]
    rw [Bool.not_eq_true, any_eq_false]
    intro r hr
    simp [hid, hof, hnew r hr, hunreserved r hr]
  unfold admitFingerprintWaitingRun
  rw [hhead]
  simp only [ne_eq, not_true_eq_false, if_false, if_neg hroom]
  rw [hfree _ rfl rfl]
  refine ⟨_, _, rfl, rfl, _, mem_map_of_mem hin, ?_⟩
  rw [if_pos (decide_eq_true rfl)]
  exact ⟨rfl, rfl⟩

theorem turned_of_first (h : Fits t) (hfirst : IsFirst t first)
    (hrequested : first.requestedAt ≤ at_) (hfree : commitment t at_ = 0)
    (hnew : ∀ r ∈ t.reservations, r.id ≠ newReservation) :
    Turned t at_ (first.discoveryRunId, newReservation) := by
  obtain ⟨hin, hwaiting, -⟩ := id hfirst
  have hown : waitingAdmission t first.discoveryRunId = some first := by
    refine hfirst.argmin h.queue (by simp [hwaiting]) ?_
    intro b _ hb
    rw [Bool.and_eq_true] at hb
    exact hb.2
  have hturn : ∃ t' outcome, admitWaiting t first.discoveryRunId at_ newReservation =
      .ok (t', outcome) ∧ (outcome = .admitted ∨ outcome = .notDue) ∧
      ∃ a' ∈ t'.admissions, a'.id = first.id ∧ (a'.status = .admitted ∨ a'.status = .notDue) := by
    unfold admitWaiting
    rw [hown]
    simp only
    by_cases hdue : (!ownsCursor t first.key first.discoveryRunId &&
        publishedSince t first.key first.cadenceCutoff) = true
    · rw [if_pos hdue]
      refine ⟨_, _, rfl, .inr rfl, _, mem_map_of_mem hin, ?_⟩
      rw [if_pos (decide_eq_true rfl)]
      exact ⟨rfl, .inr rfl⟩
    · rw [if_neg hdue]
      -- a live chain is excused from its cadence, and any other row's passes
      have hcadence : cadencePasses t (if ownsCursor t first.key first.discoveryRunId then
          some first.id else none) first = true := by
        unfold cadencePasses
        split
        · rfl
        · next last hlast =>
          by_cases howns : ownsCursor t first.key first.discoveryRunId = true
          · rw [if_pos howns]
            simp
          · simp only [howns, Bool.not_false, Bool.true_and, publishedSince, hlast] at hdue
            have hle : last ≤ first.cadenceCutoff := by
              by_contra hgt
              exact hdue (decide_eq_true (not_le.mp hgt))
            simp [hle]
      obtain ⟨t', outcome, hadmits, hadmitted, a', ha', hid, hstatus⟩ :=
        admitRun_first h hfirst hrequested hfree hnew hcadence
      rw [hadmits]
      exact ⟨t', outcome.queued, rfl, .inl hadmitted, a', ha', hid, .inl hstatus⟩
  obtain ⟨t', outcome, hcall, houtcome, hrow⟩ := hturn
  exact ⟨t', outcome, hcall, houtcome, first, hin, hwaiting, rfl, hrow⟩

theorem exists_turned {runId : ℕ} {calls : List (ℕ × ℕ)}
    (hturns : ∀ call ∈ calls, call.1 = runId → Turned t at_ call)
    (hcalled : ∃ call ∈ calls, call.1 = runId) :
    ∃ before call rest, calls = before ++ call :: rest ∧
      Turned (admitEach t at_ before) at_ call := by
  induction calls with
  | nil =>
    obtain ⟨call, hcall, -⟩ := hcalled
    cases hcall
  | cons call rest ih =>
    by_cases hturned : Turned t at_ call
    · exact ⟨[], call, rest, rfl, hturned⟩
    · have hrest : ∃ later ∈ rest, later.1 = runId := by
        obtain ⟨later, hlater, hrun⟩ := hcalled
        rcases mem_cons.mp hlater with heq | hin
        · exact absurd (hturns call mem_cons_self (heq ▸ hrun)) hturned
        · exact ⟨later, hin, hrun⟩
      obtain ⟨before, turning, after, hsplit, hturnedLater⟩ :=
        ih (fun later hlater => hturns later (mem_cons_of_mem _ hlater)) hrest
      refine ⟨call :: before, turning, after, by rw [hsplit]; rfl, ?_⟩
      have hkept : admitEach t at_ (call :: before) = admitEach t at_ before := by
        unfold admitEach
        split
        · next t' outcome hcall =>
          rw [(turned_of_changed hcall).resolve_right hturned]
          cases before <;> rfl
        · cases before <;> rfl
      rw [hkept]
      exact hturnedLater

/-- The instant of a call that may admit a row, and what it makes of the tables. -/
def AsksAt (t t' : SweepTables) (at_ : ℕ) : Prop :=
  (∃ input newAdmission newReservation outcome, input.at_ = at_ ∧
    requestAdmission t input newAdmission newReservation = .ok (t', outcome)) ∨
  ∃ runId newReservation outcome, admitWaiting t runId at_ newReservation = .ok (t', outcome)

/-- Nobody is admitted while an earlier row waits for its turn; and with nothing reserved and
nothing requested lately, asking for every run that is listed as waiting admits one of them or
settles it as not due. -/
theorem queue_moves {t : SweepTables} (h : Reachable NoneAsked t) (at_ : ℕ) :
    (∀ t', AsksAt t t' at_ → TurnKept t t' at_) ∧
    ((∀ r ∈ t.reservations, r.live at_ = false) →
      (∀ e ∈ t.requestEvents, ¬ at_ < e.requestedAt + hour) →
      (∃ a ∈ t.admissions, a.isWaiting = true ∧ a.requestedAt ≤ at_) →
      ∀ limit calls, 0 < limit →
        (∀ runId ∈ listWaiting t limit 0, ∃ call ∈ calls, call.1 = runId) →
        (∀ call ∈ calls, ∀ r ∈ t.reservations, r.id ≠ call.2) →
        ∃ before call rest, calls = before ++ call :: rest ∧
          Turned (admitEach t at_ before) at_ call) := by
  have hfits := fits_of_reachable h
  constructor
  · rintro t' (⟨input, newAdmission, newReservation, outcome, rfl, hrequest⟩ |
      ⟨runId, newReservation, outcome, hadmits⟩)
    · exact turnKept_requestAdmission hfits.queue hrequest
    · exact turnKept_admitWaiting hfits.queue hadmits
  · intro hreservations hevents hwaits limit calls hlimit hcalls hnew
    have hfree : commitment t at_ = 0 := by
      have hlive : t.reservations.filter (Reservation.live at_) = [] := by
        rw [filter_eq_nil_iff]
        intro r hr
        rw [hreservations r hr]
        exact Bool.false_ne_true
      unfold commitment
      rw [hlive, countP_eq_zero.mpr (fun e he => by simpa using hevents e he)]
      rfl
    obtain ⟨first, hfirst, hrequested, hlisted⟩ := exists_first hwaits hlimit
    refine exists_turned ?_ (hcalls first.discoveryRunId hlisted)
    intro call hcall hrun
    have hturned := turned_of_first hfits hfirst hrequested hfree (hnew call hcall)
    rw [← hrun] at hturned
    exact hturned

/-- Two runs ask for the whole hourly budget; the second waits, and the first gives it back. -/
def askedTables : SweepTables :=
  ⟨[⟨7, ⟨.eu, "draenor", "ryii"⟩, .running, 1⟩, ⟨8, ⟨.eu, "draenor", "ryal"⟩, .running, 1⟩],
    [], [], [], [], [], 0⟩

def okTables {α : Type} (t : SweepTables) (result : Except SweepError (SweepTables × α)) :
    SweepTables :=
  match result with
  | .ok (t', _) => t'
  | .error _ => t

def firstAdmitted : SweepTables :=
  okTables askedTables
    (requestAdmission askedTables ⟨7, ⟨.eu, "draenor", "ryii"⟩, 10, 10, 0, 5, false⟩ 1 1)

def secondWaits : SweepTables :=
  okTables firstAdmitted
    (requestAdmission firstAdmitted ⟨8, ⟨.eu, "draenor", "ryal"⟩, 10, 10, 0, 6, false⟩ 2 2)

def secondAlone : SweepTables :=
  match release secondWaits 1 7 with
  | .ok t => t
  | .error _ => secondWaits

theorem reachable_secondAlone : Reachable NoneAsked secondAlone :=
  (((Reachable.start (t := askedTables) ⟨rfl, rfl⟩).step
    (.requestAdmission askedTables firstAdmitted ⟨7, ⟨.eu, "draenor", "ryii"⟩, 10, 10, 0, 5, false⟩
      1 1 (.admitted 1 10 (some 10) (some 10)) rfl)).step
    (.requestAdmission firstAdmitted secondWaits ⟨8, ⟨.eu, "draenor", "ryal"⟩, 10, 10, 0, 6, false⟩
      2 2 (.waiting 3600005 (some 6)) rfl)).step
    (.release secondWaits secondAlone 1 7 rfl)

theorem queue_moves_secondAlone :
    (∀ t', AsksAt secondAlone t' 20 → TurnKept secondAlone t' 20) ∧
    ∃ before call rest, [(8, 3)] = before ++ call :: rest ∧
      Turned (admitEach secondAlone 20 before) 20 call :=
  ⟨(queue_moves reachable_secondAlone 20).1, (queue_moves reachable_secondAlone 20).2
    (by decide +kernel) (by decide +kernel) (by decide +kernel) 100 [(8, 3)] (by decide)
    (by decide +kernel) (by decide +kernel)⟩

end SlashWho.FingerprintQueue
