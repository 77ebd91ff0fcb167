import Mathlib.Algebra.GroupWithZero.Nat
import Mathlib.Algebra.Order.BigOperators.Group.List

/-!
A budget on a rolling window. Events are counted while they are younger than the window; a
reservation sets part of the budget aside for events to come, and gives back what is unused when it
is released or expires. The invariant is that events in the window and reserved events still to come
stay within the budget, and it follows that no window of the whole event log ever holds more.
-/

namespace SlashWho.RollingBudget

open List

structure Reservation where
  cap : ℕ
  used : ℕ
  expiresAt : ℕ
  released : Bool

def Reservation.live (now : ℕ) (r : Reservation) : Bool := !r.released && now < r.expiresAt

def Reservation.unused (r : Reservation) : ℕ := r.cap - r.used

structure Ledger where
  events : List ℕ
  reservations : List Reservation

def inWindow (width now event : ℕ) : Bool := now < event + width

/-- Events in the window that ends now. -/
def trailing (width now : ℕ) (events : List ℕ) : ℕ := events.countP (inWindow width now)

def reserved (now : ℕ) (reservations : List Reservation) : ℕ :=
  ((reservations.filter (Reservation.live now)).map Reservation.unused).sum

def Ledger.commitment (width now : ℕ) (l : Ledger) : ℕ :=
  trailing width now l.events + reserved now l.reservations

/-- What one step at an instant may do, and the events it records. -/
inductive Step (width budget now : ℕ) : Ledger → Ledger → List ℕ → Prop
  | idle (l : Ledger) : Step width budget now l l []
  | reserve (l : Ledger) (cap expiresAt : ℕ) (h : l.commitment width now + cap ≤ budget) :
      Step width budget now l
        { l with reservations := l.reservations ++ [⟨cap, 0, expiresAt, false⟩] } []
  | record (events : List ℕ) (before after : List Reservation) (r : Reservation) (count : ℕ)
      (hlive : r.live now = true) (hcap : r.used + count ≤ r.cap) :
      Step width budget now ⟨events, before ++ r :: after⟩
        ⟨events ++ List.replicate count now, before ++ { r with used := r.used + count } :: after⟩
        (List.replicate count now)
  | release (events : List ℕ) (held left : List Reservation)
      (h : List.Forall₂ (fun r r' => r' = r ∨ r' = { r with released := true }) held left) :
      Step width budget now ⟨events, held⟩ ⟨events, left⟩ []
  | prune (l : Ledger) (kept : ℕ → Bool) (h : ∀ e, inWindow width now e = true → kept e = true) :
      Step width budget now l { l with events := l.events.filter kept } []

theorem reserved_cons (now : ℕ) (r : Reservation) (rest : List Reservation) :
    reserved now (r :: rest) = (if r.live now then r.unused else 0) + reserved now rest := by
  unfold reserved
  by_cases h : r.live now = true
  · simp [h]
  · simp [h]

theorem reserved_append (now : ℕ) (left right : List Reservation) :
    reserved now (left ++ right) = reserved now left + reserved now right := by
  simp [reserved]

theorem reserved_mono {now later : ℕ} (h : now ≤ later) (reservations : List Reservation) :
    reserved later reservations ≤ reserved now reservations := by
  induction reservations with
  | nil => simp [reserved]
  | cons r rest ih =>
    rw [reserved_cons, reserved_cons]
    have hlive : r.live later = true → r.live now = true := by
      simp only [Reservation.live, Bool.and_eq_true, decide_eq_true_eq]
      exact fun hl => ⟨hl.1, by omega⟩
    by_cases hl : r.live later = true
    · rw [if_pos hl, if_pos (hlive hl)]
      omega
    · rw [if_neg hl]
      omega

theorem reserved_release {held left : List Reservation} (now : ℕ)
    (h : List.Forall₂ (fun r r' => r' = r ∨ r' = { r with released := true }) held left) :
    reserved now left ≤ reserved now held := by
  induction h with
  | nil => exact le_refl _
  | cons hr _ ih =>
    rw [reserved_cons, reserved_cons]
    rcases hr with rfl | rfl
    · omega
    · simp only [Reservation.live, Bool.not_true, Bool.false_and, Bool.false_eq_true, if_false]
      omega

variable (width : ℕ)

theorem trailing_append (now : ℕ) (left right : List ℕ) :
    trailing width now (left ++ right) = trailing width now left + trailing width now right :=
  countP_append

theorem trailing_replicate_le (now count event : ℕ) :
    trailing width now (List.replicate count event) ≤ count := by
  have h := countP_le_length (p := inWindow width now) (l := List.replicate count event)
  rwa [length_replicate] at h

/-- Events only leave the window as time goes on. -/
theorem trailing_mono {now later : ℕ} (h : now ≤ later) (events : List ℕ) :
    trailing width later events ≤ trailing width now events := by
  apply countP_mono_left
  intro e _ he
  simp only [inWindow, decide_eq_true_eq] at he ⊢
  omega

theorem trailing_filter {now later : ℕ} (hlater : now ≤ later) (kept : ℕ → Bool)
    (h : ∀ e, inWindow width now e = true → kept e = true) (events : List ℕ) :
    trailing width later (events.filter kept) = trailing width later events := by
  unfold trailing
  rw [countP_filter]
  apply countP_congr
  intro e _
  simp only [Bool.and_eq_true, and_iff_left_iff_imp]
  intro he
  apply h
  simp only [inWindow, decide_eq_true_eq] at he ⊢
  omega

def WithinBudget (width budget : ℕ) (log : List ℕ) : Prop :=
  ∀ start, log.countP (fun e => start < e ∧ e ≤ start + width) ≤ budget

/-- Recording at the end of the log keeps every window within the budget when
it keeps the window that ends there. -/
theorem withinBudget_append {width budget now count : ℕ} {log : List ℕ}
    (h : WithinBudget width budget log)
    (htrailing : trailing width now (log ++ List.replicate count now) ≤ budget) :
    WithinBudget width budget (log ++ List.replicate count now) := by
  intro start
  by_cases hin : start < now ∧ now ≤ start + width
  · refine le_trans (countP_mono_left ?_) htrailing
    intro e _ he
    simp only [inWindow, decide_eq_true_eq] at he ⊢
    omega
  · rw [countP_append, countP_replicate, if_neg (by simpa using hin)]
    exact h start

/-- The ledger with its clock and the log of every event ever recorded. -/
structure Run where
  now : ℕ
  ledger : Ledger
  log : List ℕ

structure Run.Inv (width budget : ℕ) (s : Run) : Prop where
  commitment_le : s.ledger.commitment width s.now ≤ budget
  used_le : ∀ r ∈ s.ledger.reservations, r.used ≤ r.cap
  log_counted : ∀ later, s.now ≤ later →
    trailing width later s.log = trailing width later s.ledger.events
  within : WithinBudget width budget s.log

variable {width budget : ℕ}

theorem inv_start (now : ℕ) : (Run.mk now ⟨[], []⟩ []).Inv width budget where
  commitment_le := by simp [Ledger.commitment, trailing, reserved]
  used_le := by simp
  log_counted := by simp
  within := by simp [WithinBudget]

theorem Run.Inv.wait {s : Run} (h : s.Inv width budget) {later : ℕ} (hlater : s.now ≤ later) :
    ({ s with now := later } : Run).Inv width budget where
  commitment_le := by
    have hevents := trailing_mono width hlater s.ledger.events
    have hreserved := reserved_mono hlater s.ledger.reservations
    have hle := h.commitment_le
    unfold Ledger.commitment at hle ⊢
    simp only
    omega
  used_le := h.used_le
  log_counted := fun t ht => h.log_counted t (hlater.trans ht)
  within := h.within

variable {l' : Ledger} {recorded : List ℕ}

variable {now : ℕ} {l : Ledger}

theorem Step.commitment_le (step : Step width budget now l l' recorded)
    (h : l.commitment width now ≤ budget) (hused : ∀ r ∈ l.reservations, r.used ≤ r.cap) :
    l'.commitment width now ≤ budget := by
  cases step with
  | idle => exact h
  | reserve _ cap expiresAt hroom =>
    have hnew : reserved now [⟨cap, 0, expiresAt, false⟩] ≤ cap := by
      rw [reserved_cons]
      split <;> simp [reserved, Reservation.unused]
    unfold Ledger.commitment at hroom ⊢
    simp only [reserved_append]
    omega
  | record events before after r count hlive hcap =>
    have hnew := trailing_replicate_le width now count now
    have hlive' : ({ r with used := r.used + count } : Reservation).live now = true := hlive
    unfold Ledger.commitment at h ⊢
    simp only [reserved_append, reserved_cons, if_pos hlive] at h
    simp only [trailing_append, reserved_append, reserved_cons, if_pos hlive']
    have hr : ({ r with used := r.used + count } : Reservation).unused + count = r.unused := by
      unfold Reservation.unused
      simp only
      omega
    omega
  | release events held left hleft =>
    have hle := reserved_release now hleft
    unfold Ledger.commitment at h ⊢
    simp only at h ⊢
    omega
  | prune _ kept hkept =>
    unfold Ledger.commitment at h ⊢
    rw [trailing_filter width (le_refl now) kept hkept]
    exact h

theorem Step.used_le (step : Step width budget now l l' recorded)
    (h : ∀ r ∈ l.reservations, r.used ≤ r.cap) :
    ∀ r ∈ l'.reservations, r.used ≤ r.cap := by
  cases step with
  | idle => exact h
  | reserve _ cap expiresAt hroom =>
    intro r hr
    rcases mem_append.mp hr with hr | hr
    · exact h r hr
    · rw [mem_singleton.mp hr]
      exact Nat.zero_le _
  | record events before after r count hlive hcap =>
    intro r' hr'
    rcases mem_append.mp hr' with hr' | hr'
    · exact h r' (mem_append_left _ hr')
    rcases mem_cons.mp hr' with rfl | hr'
    · exact hcap
    · exact h r' (mem_append_right _ (mem_cons_of_mem _ hr'))
  | release events held left hleft =>
    intro r' hr'
    simp only at h hr'
    induction hleft with
    | nil => simp at hr'
    | @cons r first held left hr _ ih =>
      rcases mem_cons.mp hr' with rfl | hr'
      · have hused : r.used ≤ r.cap := h r mem_cons_self
        rcases hr with rfl | rfl
        · exact hused
        · exact hused
      · exact ih (fun r hmem => h r (mem_cons_of_mem _ hmem)) hr'
  | prune _ kept hkept => exact h

theorem Step.recorded_eq (step : Step width budget now l l' recorded) :
    recorded = List.replicate recorded.length now := by
  cases step <;> simp

theorem Step.trailing_eq (step : Step width budget now l l' recorded) {later : ℕ}
    (hlater : now ≤ later) :
    trailing width later l'.events = trailing width later (l.events ++ recorded) := by
  cases step with
  | idle | reserve | release => rw [append_nil]
  | record => rfl
  | prune _ kept hkept => rw [append_nil, trailing_filter width hlater kept hkept]

theorem Run.Inv.step {s : Run} (h : s.Inv width budget)
    (step : Step width budget s.now s.ledger l' recorded) :
    (Run.mk s.now l' (s.log ++ recorded)).Inv width budget := by
  have hcommitment := step.commitment_le h.commitment_le h.used_le
  have hcounted : ∀ later, s.now ≤ later →
      trailing width later (s.log ++ recorded) = trailing width later l'.events := by
    intro later hlater
    rw [step.trailing_eq hlater, trailing_append, trailing_append, h.log_counted later hlater]
  refine ⟨hcommitment, step.used_le h.used_le, hcounted, ?_⟩
  rw [step.recorded_eq]
  apply withinBudget_append h.within
  rw [← step.recorded_eq, hcounted s.now (le_refl s.now)]
  unfold Ledger.commitment at hcommitment
  omega

end SlashWho.RollingBudget
