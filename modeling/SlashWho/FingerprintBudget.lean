import SlashWho.RollingBudget
import SlashWho.FingerprintChanges

/-!
The hourly fingerprint budget. The sweep tables are a ledger of the rolling
budget: their request events are its events, and their reservations its
reservations. Every change the transactions make is a step of that budget, so
what is recorded in the trailing hour and what is reserved stay within it, in
every state the transactions can reach, whatever their order.
-/

namespace SlashWho.FingerprintBudget

open List FingerprintSweeps

def reservationOf (r : Reservation) : RollingBudget.Reservation where
  cap := r.requestCap
  used := r.usedCount
  expiresAt := r.expiresAt
  released := r.releasedAt.isSome

def ledger (t : SweepTables) : RollingBudget.Ledger where
  events := t.requestEvents.map RequestEvent.requestedAt
  reservations := t.reservations.map reservationOf

theorem live_reservationOf (at_ : ℕ) (r : Reservation) :
    (reservationOf r).live at_ = r.live at_ := by
  unfold reservationOf RollingBudget.Reservation.live Reservation.live Reservation.unreleased
  cases r.releasedAt <;> rfl

theorem commitment_eq (t : SweepTables) (at_ : ℕ) :
    commitment t at_ = (ledger t).commitment hour at_ := by
  unfold commitment RollingBudget.Ledger.commitment RollingBudget.trailing RollingBudget.reserved
    ledger
  simp only [countP_map, filter_map, map_map]
  have hlive : RollingBudget.Reservation.live at_ ∘ reservationOf = Reservation.live at_ :=
    funext (live_reservationOf at_)
  rw [hlive]
  rfl

/-- Every row of the queue has the one hourly budget. -/
def OneBudget (budget : ℕ) (t : SweepTables) : Prop :=
  ∀ a ∈ t.admissions, a.hourlyBudget = budget

section Change
variable {budget at_ : ℕ}

variable {t : SweepTables}

theorem oneBudget_updateAdmissions (h : OneBudget budget t) (p : Admission → Bool)
    (f : Admission → Admission) (hf : ∀ a, KeepsRow (· = budget) a (f a)) :
    OneBudget budget (t.updateAdmissions p f) := by
  intro a' ha'
  obtain ⟨a, ha, rfl⟩ := mem_map.mp ha'
  split
  · rcases (hf a).budget with hsame | hnew
    · exact hsame.trans (h a ha)
    · exact hnew
  · exact h a ha

theorem map_ite_of_countP_eq_one {α : Type} {p : α → Bool} (f : α → α) {rows : List α}
    (h : rows.countP p = 1) : ∃ before row after, rows = before ++ row :: after ∧ p row = true ∧
      rows.map (fun r => if p r then f r else r) = before ++ f row :: after := by
  have hunchanged : ∀ others : List α, others.countP p = 0 →
      others.map (fun r => if p r then f r else r) = others := by
    intro others hnone
    rw [countP_eq_zero] at hnone
    conv_rhs => rw [← map_id others]
    exact map_congr_left fun r hr => if_neg (hnone r hr)
  induction rows with
  | nil => simp at h
  | cons row rest ih =>
    by_cases hp : p row = true
    · rw [countP_cons_of_pos hp] at h
      refine ⟨[], row, rest, rfl, hp, ?_⟩
      rw [map_cons, if_pos hp, hunchanged rest (by omega)]
      rfl
    · rw [countP_cons_of_neg hp] at h
      obtain ⟨before, found, after, rfl, hfound, hmap⟩ := ih h
      refine ⟨row :: before, found, after, rfl, hfound, ?_⟩
      rw [map_cons, if_neg hp, hmap]
      rfl

variable {t' : SweepTables} {recorded : List ℕ}

theorem Change.oneBudget (change : Change (· = budget) at_ t t' recorded) (h : OneBudget budget t) :
    OneBudget budget t' := by
  cases change with
  | runs | snapshots | states | release | prune => exact h
  | rows p f hf => exact oneBudget_updateAdmissions h p f hf
  | queue newId runId key requestCap hourlyBudget cadenceCutoff requestedAt kind hqueue hbudget =>
    obtain ⟨row, hrow, rfl⟩ := insertAdmission_ok hqueue
    intro a ha
    rcases mem_append.mp ha with ha | ha
    · exact h a ha
    · rw [mem_singleton.mp ha, hrow.hourlyBudget]
      rcases hbudget with hbudget | ⟨old, hold, hbudget⟩
      · exact hbudget
      · exact hbudget.symm.trans (h old hold)
  | reserve row a hreserve ha hfresh hopen hroom =>
    obtain rfl := insertReservation_ok hreserve
    exact h
  | record reservationId count hrecord =>
    obtain ⟨-, rfl⟩ := recordRequest_ok hrecord
    exact h

theorem Change.ledger_step (change : Change (· = budget) at_ t t' recorded)
    (h : OneBudget budget t) :
    RollingBudget.Step hour budget at_ (ledger t) (ledger t') recorded := by
  cases change with
  | runs | snapshots | states | rows => exact .idle _
  | queue newId runId key requestCap hourlyBudget cadenceCutoff requestedAt kind hqueue hbudget =>
    obtain ⟨row, hrow, rfl⟩ := insertAdmission_ok hqueue
    exact .idle _
  | reserve row a hreserve ha hfresh hopen hroom =>
    obtain rfl := insertReservation_ok hreserve
    rw [commitment_eq, h a ha] at hroom
    have hnew : (ledger { t with reservations := t.reservations ++ [row] }) =
        { ledger t with
          reservations := (ledger t).reservations ++
            [⟨row.requestCap, 0, row.expiresAt, false⟩] } := by
      simp [ledger, reservationOf, hfresh, hopen]
    rw [hnew]
    exact .reserve _ _ _ hroom
  | record reservationId count hrecord =>
    obtain ⟨hone, rfl⟩ := recordRequest_ok hrecord
    obtain ⟨before, row, after, hrows, haccepts, hupdated⟩ :=
      map_ite_of_countP_eq_one (Reservation.use count) hone
    simp only [Reservation.accepts, Bool.and_eq_true, decide_eq_true_eq] at haccepts
    have hlive : (reservationOf row).live at_ = true := by
      rw [live_reservationOf]
      exact haccepts.1.2
    have hcap : (reservationOf row).used + count ≤ (reservationOf row).cap := haccepts.2
    have hold : ledger t = ⟨t.requestEvents.map RequestEvent.requestedAt,
        before.map reservationOf ++ reservationOf row :: after.map reservationOf⟩ := by
      simp [ledger, hrows]
    have hnew : ledger { t.updateReservations (Reservation.accepts reservationId count at_)
          (Reservation.use count) with
        requestEvents := t.requestEvents ++ List.replicate count ⟨reservationId, at_⟩ } =
        ⟨t.requestEvents.map RequestEvent.requestedAt ++ List.replicate count at_,
          before.map reservationOf ++
            { reservationOf row with used := (reservationOf row).used + count } ::
              after.map reservationOf⟩ := by
      simp only [ledger, SweepTables.updateReservations, hupdated, map_append, map_cons,
        map_replicate]
      rfl
    rw [hold, hnew]
    exact .record _ _ _ _ count hlive hcap
  | release p f hrelease =>
    refine .release _ _ _ ?_
    rw [SweepTables.updateReservations, map_map, List.forall₂_map_left_iff,
      List.forall₂_map_right_iff, List.forall₂_same]
    intro r _
    simp only [Function.comp_apply]
    split
    · right
      obtain ⟨hcap, hused, hexpires, hreleased⟩ := hrelease r
      simp [reservationOf, hcap, hused, hexpires, hreleased]
    · left
      rfl
  | prune =>
    have hpruned : ledger (cleanupExpired t at_) =
        { ledger t with
          events := (ledger t).events.filter (RollingBudget.inWindow hour at_) } := by
      simp only [ledger, cleanupExpired, filter_map]
      rfl
    rw [hpruned]
    exact .prune _ _ fun e he => he

theorem Changes.inv (changes : Changes (· = budget) at_ t t' recorded) {log : List ℕ}
    (h : OneBudget budget t) (hinv : (RollingBudget.Run.mk at_ (ledger t) log).Inv hour budget) :
    OneBudget budget t' ∧
      (RollingBudget.Run.mk at_ (ledger t') (log ++ recorded)).Inv hour budget := by
  induction changes generalizing log with
  | refl t => exact ⟨h, by rwa [append_nil]⟩
  | step change _ ih =>
    rw [← append_assoc]
    exact ih (Change.oneBudget change h) (hinv.step (Change.ledger_step change h))

end Change

/-- One transaction on the sweep tables, less the instant it runs at. -/
inductive SweepOp
  | requestAdmission (input : AdmissionInput) (newAdmission newReservation : ℕ)
  | admitWaiting (runId newReservation : ℕ)
  | recordRequest (reservationId count : ℕ)
  | release (reservationId : ℕ)
  | finish (reservationId : ℕ) (input : FinishInput) (newAdmission : ℕ)
  | cleanupExpired
  | requeueContinuation (runId notBefore : ℕ) (newAdmission : ℕ → ℕ)
  | requeueStrandedContinuations (maxFailures limit : ℕ) (newAdmission : ℕ → ℕ)

namespace SweepOp

def perform (at_ : ℕ) (t : SweepTables) : SweepOp → Except SweepError SweepTables
  | .requestAdmission input newAdmission newReservation =>
    (FingerprintSweeps.requestAdmission t { input with at_ := at_ } newAdmission
      newReservation).map Prod.fst
  | .admitWaiting runId newReservation =>
    (FingerprintSweeps.admitWaiting t runId at_ newReservation).map Prod.fst
  | .recordRequest reservationId count =>
    FingerprintSweeps.recordRequest t reservationId count at_
  | .release reservationId => FingerprintSweeps.release t reservationId at_
  | .finish reservationId input newAdmission =>
    finishFingerprintSweep t reservationId { input with at_ := at_ } newAdmission
  | .cleanupExpired => .ok (FingerprintSweeps.cleanupExpired t at_)
  | .requeueContinuation runId notBefore newAdmission =>
    FingerprintSweeps.requeueContinuation t runId at_ notBefore newAdmission
  | .requeueStrandedContinuations maxFailures limit newAdmission =>
    FingerprintSweeps.requeueStrandedContinuations t at_ maxFailures limit newAdmission

/-- The requests an operation that commits at an instant records. -/
def recorded (at_ : ℕ) : SweepOp → List ℕ
  | .recordRequest _ count => List.replicate count at_
  | _ => []

/-- Every budget an operation names is one it is allowed to name. -/
def NamesOnly (allowed : ℕ → Prop) : SweepOp → Prop
  | .requestAdmission input _ _ => allowed input.hourlyBudget
  | .finish _ input _ => ∀ c, input.continuationAdmission = some c → allowed c.hourlyBudget
  | _ => True

theorem ok_of_map_ok {ε α β : Type} {x : Except ε α} {f : α → β} {b : β}
    (h : x.map f = .ok b) : ∃ a, x = .ok a ∧ f a = b := by
  cases x with
  | error e => cases h
  | ok a => exact ⟨a, rfl, Except.ok.inj h⟩

theorem perform_changes {allowed : ℕ → Prop} {at_ : ℕ} {op : SweepOp} {t t' : SweepTables}
    (hbudget : op.NamesOnly allowed) (h : op.perform at_ t = .ok t') :
    Changes allowed at_ t t' (op.recorded at_) := by
  cases op with
  | requestAdmission input newAdmission newReservation =>
    obtain ⟨⟨result, outcome⟩, hrequest, rfl⟩ := ok_of_map_ok h
    have hallowed : allowed { input with at_ := at_ }.hourlyBudget := hbudget
    exact requestAdmission_changes hallowed hrequest
  | admitWaiting runId newReservation =>
    obtain ⟨⟨result, outcome⟩, hadmit, rfl⟩ := ok_of_map_ok h
    exact admitWaiting_changes hadmit
  | recordRequest reservationId count => exact (Change.record reservationId count h).changes
  | release reservationId => exact release_changes h
  | finish reservationId input newAdmission =>
    have hallowed : ∀ c, { input with at_ := at_ }.continuationAdmission = some c →
        allowed c.hourlyBudget := hbudget
    exact finishFingerprintSweep_changes hallowed h
  | cleanupExpired =>
    obtain rfl := Except.ok.inj h
    exact cleanupExpired_changes t
  | requeueContinuation runId notBefore newAdmission => exact requeueContinuation_changes h
  | requeueStrandedContinuations maxFailures limit newAdmission =>
    exact requeueStrandedContinuations_changes h

end SweepOp

/-- The tables, their clock, and every request ever recorded. -/
structure SweepRun where
  now : ℕ
  tables : SweepTables
  log : List ℕ

/-- An operation commits, or throws and leaves the tables as they were. -/
def SweepRun.perform (s : SweepRun) (at_ : ℕ) (op : SweepOp) : SweepRun :=
  match op.perform at_ s.tables with
  | .ok tables => ⟨at_, tables, s.log ++ op.recorded at_⟩
  | .error _ => ⟨at_, s.tables, s.log⟩

/-- The states reached from empty sweep tables, at non-decreasing times, with
one hourly budget. Discovery runs, snapshots and sweep states are other code's
too, and change as it likes. -/
inductive Reachable (budget : ℕ) : SweepRun → Prop
  | start (now : ℕ) (runs : List DiscoveryRun) (snapshots : List Snapshot)
      (states : List SweepState) :
      Reachable budget ⟨now, ⟨runs, snapshots, states, [], [], [], 0⟩, []⟩
  | perform {s : SweepRun} (h : Reachable budget s) (at_ : ℕ) (hlater : s.now ≤ at_) (op : SweepOp)
      (hbudget : op.NamesOnly (· = budget)) : Reachable budget (s.perform at_ op)
  | elsewhere {s : SweepRun} (h : Reachable budget s) (runs : List DiscoveryRun)
      (snapshots : List Snapshot) (states : List SweepState) :
      Reachable budget { s with tables := { s.tables with
        runs := runs, snapshots := snapshots, states := states } }

/-- The invariant of the sweep tables: the one budget, and the rolling budget's own. -/
structure SweepRun.Inv (budget : ℕ) (s : SweepRun) : Prop where
  oneBudget : OneBudget budget s.tables
  rolling : (RollingBudget.Run.mk s.now (ledger s.tables) s.log).Inv hour budget

section Reach
variable {budget : ℕ}

theorem SweepRun.Inv.perform {s : SweepRun} (h : s.Inv budget) {at_ : ℕ} (hlater : s.now ≤ at_)
    {op : SweepOp} (hbudget : op.NamesOnly (· = budget)) : (s.perform at_ op).Inv budget := by
  have hwaited := h.rolling.wait hlater
  unfold SweepRun.perform
  cases hop : op.perform at_ s.tables with
  | error e => exact ⟨h.oneBudget, hwaited⟩
  | ok tables =>
    obtain ⟨hone, hrolling⟩ := Changes.inv (op.perform_changes hbudget hop) h.oneBudget hwaited
    exact ⟨hone, hrolling⟩

theorem inv_of_reachable {s : SweepRun} (h : Reachable budget s) : s.Inv budget := by
  induction h with
  | start now runs snapshots states =>
    exact ⟨fun a ha => by simp at ha, RollingBudget.inv_start now⟩
  | perform _ at_ hlater op hbudget ih => exact ih.perform hlater hbudget
  | elsewhere _ runs snapshots states ih => exact ⟨ih.oneBudget, ih.rolling⟩

/-- In every reachable state the requests of the trailing hour and the unused
requests reserved stay within the budget, no reservation is overdrawn, and no
hour of the whole history holds more than the budget. -/
theorem hourly_budget_held {s : SweepRun} (h : Reachable budget s) :
    commitment s.tables s.now ≤ budget ∧
      (∀ r ∈ s.tables.reservations, r.usedCount ≤ r.requestCap) ∧
      ∀ start, s.log.countP (fun requestedAt =>
        start < requestedAt ∧ requestedAt ≤ start + hour) ≤ budget := by
  have hinv := inv_of_reachable h
  refine ⟨?_, ?_, hinv.rolling.within⟩
  · rw [commitment_eq]
    exact hinv.rolling.commitment_le
  · intro r hr
    exact hinv.rolling.used_le (reservationOf r) (mem_map_of_mem hr)

end Reach

def sampleInput : AdmissionInput where
  runId := 1
  key := ⟨.eu, "realm", "name"⟩
  requestCap := 2
  hourlyBudget := 3
  cadenceCutoff := 0
  at_ := 10
  continuation := false

/-- A run is admitted and makes both its requests. -/
def sampleRun : SweepRun :=
  ((SweepRun.mk 0 ⟨[⟨1, ⟨.eu, "realm", "name"⟩, .running, 1⟩], [], [], [], [], [], 0⟩ []).perform
    10 (.requestAdmission sampleInput 1 1)).perform 20 (.recordRequest 1 2)

theorem hourly_budget_held_sampleRun :
    commitment sampleRun.tables sampleRun.now ≤ 3 ∧
      (∀ r ∈ sampleRun.tables.reservations, r.usedCount ≤ r.requestCap) ∧
      ∀ start, sampleRun.log.countP (fun requestedAt =>
        start < requestedAt ∧ requestedAt ≤ start + hour) ≤ 3 :=
  hourly_budget_held (((Reachable.start 0 _ [] []).perform 10 (Nat.zero_le 10)
    (.requestAdmission sampleInput 1 1) rfl).perform 20 (by decide) (.recordRequest 1 2) trivial)

example : sampleRun.log = [20, 20] := by decide

end SlashWho.FingerprintBudget
