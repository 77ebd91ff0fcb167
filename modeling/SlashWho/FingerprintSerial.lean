import SlashWho.FingerprintLoop

/-!
The reading a sweep makes one candidate at a time, and the request accounts as
candidates are dispatched in order. The accounts do not depend on how reads
answer, so a read's answer is fixed by its place in the order; and once the
budget or the gateway's cap has ended, every later read is refused too.
-/

namespace SlashWho.FingerprintDiscovery

open Characters

theorem request_of_exhausted {α : Type} {gateway : Gateway} {b : Budget}
    (h : b.remainingRequests = 0) (reply : Except Fault (Option α)) :
    request gateway b reply = ({ b with capped := true }, .exhausted) := by
  rw [request, if_pos h]

theorem request_of_remaining {α : Type} {gateway : Gateway} {b : Budget}
    (h : b.remainingRequests ≠ 0) (reply : Except Fault (Option α)) :
    request gateway b reply =
      (⟨b.remainingRequests - 1, b.requestsUsed + 1, b.capped, b.calls + 1⟩,
        gateway.answer b.calls reply) := by
  rw [request, if_neg h]

/-- What is left to a read that comes later: no more budget, no earlier call. -/
structure Later (b b' : Budget) : Prop where
  remaining : b'.remainingRequests ≤ b.remainingRequests
  calls : b.calls ≤ b'.calls
  capped : b.capped = true → b'.capped = true

theorem later_request {α : Type} (gateway : Gateway) (b : Budget)
    (reply : Except Fault (Option α)) : Later b (request gateway b reply).1 := by
  by_cases h : b.remainingRequests = 0
  · rw [request_of_exhausted h]
    exact ⟨le_refl _, le_refl _, fun _ => rfl⟩
  · rw [request_of_remaining h]
    exact ⟨Nat.sub_le _ _, Nat.le_succ _, fun hcapped => hcapped⟩

namespace SweepConfig
variable (c : SweepConfig)

/-- The candidates read one at a time, in order, until one is not read. -/
def serialReading : Budget → Option CanonicalId → List Eligible → Reading
  | b, lastSweptId, [] => ⟨[], lastSweptId, b.requestsUsed, b.capped, none⟩
  | b, lastSweptId, entry :: rest =>
    if c.suppressed entry then serialReading b lastSweptId rest
    else
      let (b, answer) := request c.gateway b (c.reply entry)
      match c.verdict answer with
      | .exhausted => ⟨[], lastSweptId, b.requestsUsed, b.capped, none⟩
      | .refused => ⟨[], lastSweptId, b.requestsUsed - 1, true, none⟩
      | .failed error => ⟨[], none, b.requestsUsed, b.capped, some error⟩
      | .unmatched => serialReading b (some entry.id) rest
      | .matched =>
        let later := serialReading b (some entry.id) rest
        { later with characters := discoveredCharacter entry.candidate :: later.characters }

/-- The accounts once a candidate has been dispatched, if it is not suppressed. -/
def dispatchBudget (b : Budget) (entry : Eligible) : Budget :=
  if c.suppressed entry then b else (request c.gateway b (c.reply entry)).1

/-- The accounts when the candidate at `index` is about to be dispatched. -/
def budgetAt (index : ℕ) : Budget :=
  (c.prepared.eligible.take index).foldl c.dispatchBudget c.prepared.budget

def answerAt (index : ℕ) (entry : Eligible) : Answer Fingerprint :=
  (request c.gateway (c.budgetAt index) (c.reply entry)).2

def verdictAt (index : ℕ) (entry : Eligible) : Verdict := c.verdict (c.answerAt index entry)

structure ReadAt (index : ℕ) (entry : Eligible) : Prop where
  found : c.prepared.eligible[index]? = some entry
  unsuppressed : c.suppressed entry = false

/-- Whether a read ends the sweep's cap: out of budget, or refused at the gateway. -/
def CappedAt (index : ℕ) (entry : Eligible) : Prop :=
  c.verdictAt index entry = .exhausted ∨ c.verdictAt index entry = .refused

/-- Whether a read stops the dispatcher. -/
def StopsAt (index : ℕ) (entry : Eligible) : Prop :=
  c.CappedAt index entry ∨ ∃ error, c.verdictAt index entry = .failed error

/-- How many reads before `index` the gateway refuses. -/
def refusalsBefore : ℕ → ℕ
  | 0 => 0
  | index + 1 =>
    match c.prepared.eligible[index]? with
    | none => refusalsBefore index
    | some entry =>
      match c.suppressed entry, c.verdictAt index entry with
      | false, .refused => refusalsBefore index + 1
      | _, _ => refusalsBefore index

variable {c}

@[simp] theorem budgetAt_zero : c.budgetAt 0 = c.prepared.budget := rfl

variable {index : ℕ} {entry : Eligible}

theorem budgetAt_succ (h : c.prepared.eligible[index]? = some entry) :
    c.budgetAt (index + 1) = c.dispatchBudget (c.budgetAt index) entry := by
  unfold budgetAt
  rw [List.take_add_one, h, Option.toList_some, List.foldl_append]
  rfl

theorem budgetAt_succ_of_suppressed (h : c.prepared.eligible[index]? = some entry)
    (hsuppressed : c.suppressed entry = true) :
    c.budgetAt (index + 1) = c.budgetAt index := by
  rw [budgetAt_succ h, dispatchBudget, if_pos hsuppressed]

theorem budgetAt_succ_of_read (h : c.ReadAt index entry) :
    c.budgetAt (index + 1) = (request c.gateway (c.budgetAt index) (c.reply entry)).1 := by
  rw [budgetAt_succ h.found, dispatchBudget, if_neg (by simp [h.unsuppressed])]

theorem budgetAt_succ_of_none (h : c.prepared.eligible[index]? = none) :
    c.budgetAt (index + 1) = c.budgetAt index := by
  unfold budgetAt
  rw [List.take_add_one, h, Option.toList_none, List.append_nil]

/-- What happens at a place in the order: nothing there, skipped, or read. -/
theorem place_cases (c : SweepConfig) (index : ℕ) :
    c.prepared.eligible[index]? = none ∨
      (∃ entry, c.prepared.eligible[index]? = some entry ∧ c.suppressed entry = true) ∨
      ∃ entry, c.ReadAt index entry := by
  cases hentry : c.prepared.eligible[index]? with
  | none => exact .inl rfl
  | some entry =>
    cases hsuppressed : c.suppressed entry with
    | true => exact .inr (.inl ⟨entry, rfl, hsuppressed⟩)
    | false => exact .inr (.inr ⟨entry, hentry, hsuppressed⟩)

/-! The verdicts of a request. -/

theorem verdict_eq_exhausted_iff {b : Budget} (reply : Except Fault (Option Fingerprint)) :
    c.verdict (request c.gateway b reply).2 = .exhausted ↔ b.remainingRequests = 0 := by
  by_cases h : b.remainingRequests = 0
  · rw [request_of_exhausted h]
    exact ⟨fun _ => h, fun _ => rfl⟩
  · rw [request_of_remaining h]
    refine ⟨fun hverdict => ?_, fun hzero => absurd hzero h⟩
    unfold SweepConfig.verdict Gateway.answer at hverdict
    split at hverdict
    · cases hverdict
    · rcases reply with fault | value
      · dsimp only [FingerprintDiscovery.verdict] at hverdict
        split at hverdict <;> cases hverdict
      · cases value with
        | none => cases hverdict
        | some value =>
          dsimp only [FingerprintDiscovery.verdict] at hverdict
          split at hverdict <;> cases hverdict

theorem verdict_eq_refused_iff {b : Budget} (reply : Except Fault (Option Fingerprint)) :
    c.verdict (request c.gateway b reply).2 = .refused ↔
      b.remainingRequests ≠ 0 ∧ c.gateway.refuses b.calls = true := by
  by_cases h : b.remainingRequests = 0
  · rw [request_of_exhausted h]
    exact ⟨fun hverdict => (by cases hverdict), fun hrest => absurd h hrest.1⟩
  · rw [request_of_remaining h]
    unfold SweepConfig.verdict Gateway.answer
    by_cases hrefuses : c.gateway.refuses b.calls = true
    · rw [if_pos hrefuses]
      exact ⟨fun _ => ⟨h, hrefuses⟩, fun _ => rfl⟩
    · rw [if_neg hrefuses]
      refine ⟨fun hverdict => ?_, fun hrest => absurd hrest.2 hrefuses⟩
      rcases reply with fault | value
      · dsimp only [FingerprintDiscovery.verdict] at hverdict
        split at hverdict <;> cases hverdict
      · cases value with
        | none => cases hverdict
        | some value =>
          dsimp only [FingerprintDiscovery.verdict] at hverdict
          split at hverdict <;> cases hverdict

theorem not_capReached_of_failed {answer : Answer Fingerprint} {error : Thrown}
    (h : c.verdict answer = .failed error) : isCapReached error = false := by
  unfold SweepConfig.verdict FingerprintDiscovery.verdict at h
  split at h
  · cases h
  · obtain rfl := Verdict.failed.inj h
    rfl
  · split at h <;> cases h
  · split at h
    · cases h
    · split at h
      · cases h
      · next hcap =>
        obtain rfl := Verdict.failed.inj h
        simpa using hcap

/-! Once capped, capped. -/

variable {first : ℕ}

theorem later_budgetAt {last : ℕ} (h : first ≤ last) :
    Later (c.budgetAt first) (c.budgetAt last) := by
  induction last, h using Nat.le_induction with
  | base => exact ⟨le_refl _, le_refl _, fun hcapped => hcapped⟩
  | succ last _ ih =>
    rcases place_cases c last with hnone | ⟨entry, hentry, hsuppressed⟩ | ⟨entry, hread⟩
    · rw [budgetAt_succ_of_none hnone]
      exact ih
    · rw [budgetAt_succ_of_suppressed hentry hsuppressed]
      exact ih
    · rw [budgetAt_succ_of_read hread]
      have hstep := later_request c.gateway (c.budgetAt last) (c.reply entry)
      exact ⟨hstep.remaining.trans ih.remaining, ih.calls.trans hstep.calls,
        fun hcapped => hstep.capped (ih.capped hcapped)⟩

theorem refuses_mono {gateway : Gateway} {call call' : ℕ} (h : call ≤ call')
    (hrefuses : gateway.refuses call = true) : gateway.refuses call' = true := by
  unfold Gateway.refuses at *
  obtain ⟨first, hfirst, hle⟩ := (Option.any_eq_true _ _).mp hrefuses
  have hle : first ≤ call := by simpa using hle
  rw [hfirst]
  simp only [Option.any_some, decide_eq_true_eq]
  omega

theorem cappedAt_of_le {last : ℕ} (later : Eligible) (hle : first ≤ last)
    (h : c.CappedAt first entry) : c.CappedAt last later := by
  have hlater := later_budgetAt (c := c) hle
  by_cases hremaining : (c.budgetAt last).remainingRequests = 0
  · exact .inl ((verdict_eq_exhausted_iff _).mpr hremaining)
  · right
    rcases h with hexhausted | hrefused
    · have hzero := (verdict_eq_exhausted_iff _).mp hexhausted
      have hle := hlater.remaining
      omega
    · have hrefuses := ((verdict_eq_refused_iff _).mp hrefused).2
      exact (verdict_eq_refused_iff _).mpr ⟨hremaining, refuses_mono hlater.calls hrefuses⟩

/-! Refusals give their requests back. -/

theorem refusalsBefore_succ_of_refused (hread : c.ReadAt index entry)
    (hrefused : c.verdictAt index entry = .refused) :
    c.refusalsBefore (index + 1) = c.refusalsBefore index + 1 := by
  rw [refusalsBefore, hread.found]
  simp only [hread.unsuppressed, hrefused]

theorem refusalsBefore_succ_of_ne
    (h : ∀ entry, c.ReadAt index entry → c.verdictAt index entry ≠ .refused) :
    c.refusalsBefore (index + 1) = c.refusalsBefore index := by
  rw [refusalsBefore]
  split
  · rfl
  · next entry hentry =>
    split
    · next hsuppressed hrefused => exact absurd hrefused (h entry ⟨hentry, hsuppressed⟩)
    · rfl

theorem refusalsBefore_le (index : ℕ) :
    c.refusalsBefore index ≤ (c.budgetAt index).requestsUsed := by
  induction index with
  | zero => exact Nat.zero_le _
  | succ index ih =>
    rcases place_cases c index with hnone | ⟨entry, hentry, hsuppressed⟩ | ⟨entry, hread⟩
    · rw [budgetAt_succ_of_none hnone, refusalsBefore_succ_of_ne]
      · exact ih
      · intro entry hread
        rw [hread.found] at hnone
        cases hnone
    · rw [budgetAt_succ_of_suppressed hentry hsuppressed, refusalsBefore_succ_of_ne]
      · exact ih
      · intro other hread
        obtain rfl := Option.some.inj (hentry.symm.trans hread.found)
        rw [hread.unsuppressed] at hsuppressed
        cases hsuppressed
    · rw [budgetAt_succ_of_read hread]
      by_cases hremaining : (c.budgetAt index).remainingRequests = 0
      · rw [request_of_exhausted hremaining, refusalsBefore_succ_of_ne]
        · exact ih
        · intro other hother hrefused
          exact ((verdict_eq_refused_iff _).mp hrefused).1 hremaining
      · rw [request_of_remaining hremaining]
        show c.refusalsBefore (index + 1) ≤ (c.budgetAt index).requestsUsed + 1
        by_cases hrefused : c.verdictAt index entry = .refused
        · rw [refusalsBefore_succ_of_refused hread hrefused]
          omega
        · rw [refusalsBefore_succ_of_ne]
          · omega
          · intro other hother
            obtain rfl := Option.some.inj (hread.found.symm.trans hother.found)
            exact hrefused

/-- From a capped read on, requests taken are requests given back. -/
theorem requestsUsed_of_capped {last : ℕ} (hle : first ≤ last) (h : c.CappedAt first entry) :
    (c.budgetAt last).requestsUsed + c.refusalsBefore first =
      (c.budgetAt first).requestsUsed + c.refusalsBefore last := by
  induction last, hle using Nat.le_induction with
  | base => rfl
  | succ last hle ih =>
    rcases place_cases c last with hnone | ⟨other, hentry, hsuppressed⟩ | ⟨other, hread⟩
    · rw [budgetAt_succ_of_none hnone, refusalsBefore_succ_of_ne, ih]
      intro entry hread
      rw [hread.found] at hnone
      cases hnone
    · rw [budgetAt_succ_of_suppressed hentry hsuppressed, refusalsBefore_succ_of_ne, ih]
      intro entry hread
      obtain rfl := Option.some.inj (hentry.symm.trans hread.found)
      rw [hread.unsuppressed] at hsuppressed
      cases hsuppressed
    · rw [budgetAt_succ_of_read hread]
      rcases cappedAt_of_le other hle h with hexhausted | hrefused
      · have hzero := (verdict_eq_exhausted_iff _).mp hexhausted
        rw [request_of_exhausted hzero, refusalsBefore_succ_of_ne]
        · exact ih
        · intro entry hentry hrefused
          exact ((verdict_eq_refused_iff _).mp hrefused).1 hzero
      · have hremaining := ((verdict_eq_refused_iff _).mp hrefused).1
        rw [request_of_remaining hremaining, refusalsBefore_succ_of_refused hread hrefused]
        show (c.budgetAt last).requestsUsed + 1 + _ = _
        omega

theorem refusalsBefore_eq_zero
    (h : ∀ j < index, ∀ entry, c.ReadAt j entry → c.verdictAt j entry ≠ .refused) :
    c.refusalsBefore index = 0 := by
  induction index with
  | zero => rfl
  | succ index ih =>
    rw [refusalsBefore_succ_of_ne fun entry => h index (Nat.lt_succ_self _) entry]
    exact ih fun j hj => h j (by omega)

end SweepConfig

end SlashWho.FingerprintDiscovery
