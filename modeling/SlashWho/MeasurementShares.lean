import SlashWho.MeasurementScope
import SlashWho.Timelines

/-!
What a scope with shared overlapping charges. Between two readings of the clock
the calls that are running and outside their sections stay the same, and they
are the frames in the set; each is handed its part of the time when the next
reading comes. What a call was charged is so the integral of its share of every
instant, and the shares of an instant add up to one at most.
-/

namespace SlashWho.MeasurementScope

open List Timelines

/-! Where a call stands after one more reading. -/

section Readings

variable {past : List Reading} {reading : Reading} {k : ℕ}

theorem count_next (mark : Mark) :
    count (past ++ [reading]) k mark =
      count past k mark + if reading.call = k ∧ reading.mark = mark then 1 else 0 := by
  unfold count
  rw [countP_append, countP_singleton]
  simp only [decide_eq_true_eq]

theorem charging_other (h : k ≠ reading.call) :
    Charging (past ++ [reading]) k ↔ Charging past k := by
  unfold Charging
  simp only [count_next, h.symm, false_and, if_false, Nat.add_zero]

theorem inSection_other (h : k ≠ reading.call) :
    InSection (past ++ [reading]) k ↔ InSection past k := by
  unfold InSection
  simp only [count_next, h.symm, false_and, if_false, Nat.add_zero]

theorem charging_self (h : Allowed past reading) :
    Charging (past ++ [reading]) reading.call ↔
      reading.mark = .start ∨ reading.mark = .leave := by
  obtain ⟨k, mark, at_⟩ := reading
  unfold Charging
  simp only [count_next]
  cases mark with
  | start =>
    have hnone : ∀ mark, count past k mark = 0 := h
    simp [hnone]
  | enter =>
    obtain ⟨-, -, hleft⟩ : Charging past k := h
    simp [hleft]
  | leave =>
    obtain ⟨hstart, hfinish, hin⟩ : InSection past k := h
    simp [hstart, hfinish, hin]
  | finish =>
    simp

theorem inSection_self (h : Allowed past reading) :
    InSection (past ++ [reading]) reading.call ↔ reading.mark = .enter := by
  obtain ⟨k, mark, at_⟩ := reading
  unfold InSection
  simp only [count_next]
  cases mark with
  | start =>
    have hnone : ∀ mark, count past k mark = 0 := h
    simp [hnone]
  | enter =>
    obtain ⟨hstart, hfinish, hleft⟩ : Charging past k := h
    simp [hstart, hfinish, hleft]
  | leave =>
    obtain ⟨-, -, hin⟩ : InSection past k := h
    simp [hin]
  | finish =>
    simp

theorem Legal.last (h : Legal (past ++ [reading])) :
    Legal past ∧ (∀ earlier ∈ past, earlier.at_ ≤ reading.at_) ∧ Allowed past reading := by
  generalize hall : past ++ [reading] = all at h
  cases h with
  | nil => simp at hall
  | next hpast hclock hallowed =>
    obtain ⟨rfl, hlast⟩ := append_inj' hall rfl
    obtain rfl := singleton_inj.mp hlast
    exact ⟨hpast, hclock, hallowed⟩

theorem Legal.head (h : Legal past) : (past.filter (·.mark = .start)).head? = past.head? := by
  induction h with
  | nil => rfl
  | @next past reading hpast hclock hallowed ih =>
    cases past with
    | nil =>
      obtain ⟨k, mark, at_⟩ := reading
      cases mark with
      | start => rfl
      | enter | leave | finish => exact absurd hallowed.1 Nat.zero_ne_one
    | cons first rest =>
      rw [head?_cons] at ih
      rw [filter_append, head?_append, ih]
      rfl

def ended (past : List Reading) : Finset ℕ :=
  ((past.filter (·.mark = .finish)).map Reading.call).toFinset

theorem ended_next : ended (past ++ [reading]) =
    if reading.mark = .finish then insert reading.call (ended past) else ended past := by
  unfold ended
  rw [filter_append]
  split
  · next h =>
    rw [filter_cons_of_pos (by simpa using h), filter_nil, map_append,
      toFinset_append, Finset.union_comm]
    rfl
  · next h =>
    rw [filter_cons_of_neg (by simpa using h), filter_nil, append_nil]

theorem not_charging_of_ended (h : k ∈ ended past) : ¬ Charging past k := by
  rintro ⟨-, hnone, -⟩
  obtain ⟨reading, hin, rfl⟩ := mem_map.mp (mem_toFinset.mp h)
  obtain ⟨hpast, hfinish⟩ := mem_filter.mp hin
  exact countP_eq_zero.mp hnone reading hpast
    (by simpa using of_decide_eq_true hfinish)

end Readings

/-- A call's part of an instant: one over the number of calls then charging, if it is one. -/
noncomputable def share (k : ℕ) (past : List Reading) : ℝ :=
  if Charging past k then 1 / ({j | Charging past j}.ncard : ℝ) else 0

/-- However many calls there are, their parts of an instant make one at most. -/
theorem sum_share_le (calls : Finset ℕ) (past : List Reading) :
    ∑ k ∈ calls, share k past ≤ 1 := by
  unfold share
  rw [← Finset.sum_filter, Finset.sum_const, nsmul_eq_mul]
  by_cases hfinite : {j | Charging past j}.Finite
  · have hle : (calls.filter (Charging past)).card ≤ {j | Charging past j}.ncard := by
      rw [← Set.ncard_coe_finset]
      refine Set.ncard_le_ncard (fun k hk => ?_) hfinite
      exact (Finset.mem_filter.mp hk).2
    have hle' : ((calls.filter (Charging past)).card : ℝ) ≤ {j | Charging past j}.ncard := by
      exact_mod_cast hle
    rw [mul_one_div]
    exact div_le_one_of_le₀ hle' (Nat.cast_nonneg _)
  · rw [Set.Infinite.ncard hfinite]
    simp

/-! What one event does to a scope. -/

section Steps

variable (options : Options) (given : ℕ → Given) (thresholds : String → Option ℚ)

theorem step_cases (s : Scope) (event : Event) :
    (∃ reading, event = .time reading) ∨
      readings [event] = [] ∧ ∃ tallies, step options given s event = { s with tallies } := by
  cases event with
  | time reading => exact .inl ⟨reading, rfl⟩
  | observe | observeMax | observeSlowest | increment | mark => exact .inr ⟨rfl, _, rfl⟩

theorem scopeOf_append (before : List Event) (event : Event) :
    scopeOf options given (before ++ [event]) =
      step options given (scopeOf options given before) event :=
  Runs.after_append _ _ _ _

theorem readings_append (before : List Event) (event : Event) :
    readings (before ++ [event]) = readings before ++ readings [event] :=
  filterMap_append

theorem scopeOf_keeps (Inv : Scope → List Reading → Prop) (hstart : Inv Scope.initial [])
    (htallies : ∀ s past tallies, Inv s past → Inv { s with tallies } past)
    (htime : ∀ s past reading, Inv s past → (∀ earlier ∈ past, earlier.at_ ≤ reading.at_) →
      Allowed past reading → Inv (time options given reading s) (past ++ [reading]))
    {events : List Event} (h : Legal (readings events)) :
    Inv (scopeOf options given events) (readings events) := by
  induction events using List.reverseRecOn with
  | nil => exact hstart
  | append_singleton before event ih =>
    rw [scopeOf_append, readings_append]
    rw [readings_append] at h
    rcases step_cases options given (scopeOf options given before) event with
      ⟨reading, rfl⟩ | ⟨hnone, tallies, hstep⟩
    · obtain ⟨hpast, hclock, hallowed⟩ := h.last
      exact htime _ _ _ (ih hpast) hclock hallowed
    · rw [hnone, append_nil] at h ⊢
      rw [hstep]
      exact htallies _ _ _ (ih h)

variable (s : Scope) (reading : Reading)

theorem time_chargedUntil :
    (time ⟨.shared, thresholds⟩ given reading s).chargedUntil = reading.at_ := by
  obtain ⟨k, mark, at_⟩ := reading
  cases mark <;> rfl

theorem time_charging :
    (time ⟨.shared, thresholds⟩ given reading s).charging =
      if reading.mark = .start ∨ reading.mark = .leave then addFrame reading.call s.charging
      else s.charging.erase reading.call := by
  obtain ⟨k, mark, at_⟩ := reading
  cases mark <;> rfl

/-- A new frame has been charged nothing, as has one that no call had yet. -/
theorem time_charged (h : reading.mark = .start → s.charged reading.call = 0) :
    (time ⟨.shared, thresholds⟩ given reading s).charged = (advance reading.at_ s).charged := by
  obtain ⟨k, mark, at_⟩ := reading
  cases mark with
  | start =>
    have hsame : Function.update s.charged k 0 = s.charged := by
      rw [← h rfl]
      exact Function.update_eq_self k s.charged
    change (advance at_ { s with charged := Function.update s.charged k 0 }).charged = _
    rw [hsame]
  | enter | leave | finish => rfl

theorem time_sharedTotals :
    (time ⟨.shared, thresholds⟩ given reading s).sharedTotals =
      if reading.mark = .finish then
        s.sharedTotals.set (given reading.call).bucket
          ((s.sharedTotals.get? (given reading.call).bucket).getD 0 +
            (advance reading.at_ s).charged reading.call)
      else s.sharedTotals := by
  obtain ⟨k, mark, at_⟩ := reading
  cases mark <;> rfl

/-- What a call's closure holds does not depend on how time is charged. -/
theorem calls_eq (other : Options) (events : List Event) :
    (scopeOf options given events).calls = (scopeOf other given events).calls := by
  induction events using List.reverseRecOn with
  | nil => rfl
  | append_singleton before event ih =>
    rw [scopeOf_append, scopeOf_append]
    have htime : ∀ (options : Options) (reading : Reading) (s : Scope),
        (time options given reading s).calls =
          (time ⟨.summed, fun _ => none⟩ given reading s).calls := by
      rintro ⟨overlapping, thresholds⟩ ⟨k, mark, at_⟩ s
      cases overlapping <;> cases mark <;> rfl
    cases event with
    | time reading =>
      change (time _ _ _ _).calls = (time _ _ _ _).calls
      rw [htime options, htime other]
      obtain ⟨k, mark, at_⟩ := reading
      cases mark with
      | start => exact congrArg (fun calls => Function.update calls k ⟨at_, 0, at_⟩) ih
      | enter =>
        exact congrArg (fun calls : ℕ → Call =>
          Function.update calls k { calls k with innerStartedAt := at_ }) ih
      | leave =>
        exact congrArg (fun calls : ℕ → Call => Function.update calls k { calls k with
          excludedMs := (calls k).excludedMs + max 0 (at_ - (calls k).innerStartedAt) }) ih
      | finish => exact ih
    | observe | observeMax | observeSlowest | increment | mark => exact ih

end Steps

/-- The part of the frames, the clock and the totals in what was read so far. -/
structure Holds (s : Scope) (past : List Reading) : Prop where
  charging : ∀ k, k ∈ s.charging ↔ Charging past k
  apart : s.charging.Nodup
  clock : ∀ reading ∈ past, reading.at_ ≤ s.chargedUntil
  last : ∀ reading, past.getLast? = some reading → s.chargedUntil = reading.at_
  fresh : ∀ k, (∀ mark, count past k mark = 0) → s.charged k = 0
  nonneg : ∀ k, 0 ≤ s.charged k
  area : ∀ first, past.head? = some first → ∀ k,
    Area Reading.at_ (share k) past first.at_ s.chargedUntil (s.charged k)
  total : (s.sharedTotals.entries.map Prod.snd).sum = ∑ k ∈ ended past, s.charged k

section Charges

variable {s : Scope} {past : List Reading} {reading : Reading} {now : ℚ} {k : ℕ}
  (thresholds : String → Option ℚ) (given : ℕ → Given)

theorem Holds.ncard_charging (h : Holds s past) :
    {j | Charging past j}.ncard = s.charging.length := by
  have hset : {j | Charging past j} = (s.charging.toFinset : Set ℕ) := by
    ext j
    simp [h.charging]
  rw [hset, Set.ncard_coe_finset, toFinset_card_of_nodup h.apart]

/-- What is handed out to a frame is its share for as long as it has lasted. -/
theorem Holds.advance_charged (h : Holds s past) (hle : s.chargedUntil ≤ now) (k : ℕ) :
    ((advance now s).charged k : ℝ) =
      s.charged k + ((now : ℝ) - s.chargedUntil) * share k past := by
  unfold advance share
  dsimp only
  rw [h.ncard_charging]
  by_cases hk : k ∈ s.charging
  · rw [if_pos hk, if_pos ((h.charging k).mp hk), max_eq_right (sub_nonneg.mpr hle)]
    push_cast
    ring
  · rw [if_neg hk, if_neg (fun hc => hk ((h.charging k).mpr hc)), mul_zero, add_zero]

theorem advance_idle (hk : k ∉ s.charging) : (advance now s).charged k = s.charged k :=
  if_neg hk

theorem Holds.charging_next (h : Holds s past) (hallowed : Allowed past reading) (k : ℕ) :
    k ∈ (time ⟨.shared, thresholds⟩ given reading s).charging ↔
      Charging (past ++ [reading]) k := by
  rw [time_charging]
  by_cases hk : k = reading.call
  · subst hk
    rw [charging_self hallowed]
    split
    · next hin =>
      unfold addFrame
      split
      · next hmem => exact iff_of_true hmem hin
      · exact iff_of_true (mem_append_right _ (mem_singleton_self _)) hin
    · next hout => exact iff_of_false (fun hmem => (h.apart.mem_erase_iff.mp hmem).1 rfl) hout
  · rw [charging_other hk, ← h.charging]
    split
    · unfold addFrame
      split
      · exact Iff.rfl
      · rw [mem_append, mem_singleton, or_iff_left hk]
    · exact mem_erase_of_ne hk

/-- A call that starts has had no reading yet, so its frame was charged nothing. -/
theorem Holds.time_charged (h : Holds s past) (hallowed : Allowed past reading) :
    (time ⟨.shared, thresholds⟩ given reading s).charged = (advance reading.at_ s).charged := by
  apply MeasurementScope.time_charged
  intro hstart
  unfold Allowed at hallowed
  rw [hstart] at hallowed
  exact h.fresh _ hallowed

theorem Holds.le_next (h : Holds s past) (hclock : ∀ earlier ∈ past, earlier.at_ ≤ reading.at_)
    (hne : past ≠ []) : s.chargedUntil ≤ reading.at_ := by
  have hlast := getLast?_eq_some_getLast hne
  rw [h.last _ hlast]
  exact hclock _ (getLast_mem hne)

theorem Holds.first_le (h : Holds s past) {first : Reading} (hfirst : past.head? = some first) :
    first.at_ ≤ s.chargedUntil :=
  h.clock first (mem_of_mem_head? hfirst)

theorem Holds.time (h : Holds s past) (hclock : ∀ earlier ∈ past, earlier.at_ ≤ reading.at_)
    (hallowed : Allowed past reading) :
    Holds (MeasurementScope.time ⟨.shared, thresholds⟩ given reading s) (past ++ [reading]) := by
  have hcharged := h.time_charged thresholds given hallowed
  -- a frame that is not charging keeps what it was charged
  have hidle : ∀ k, ¬ Charging past k → (advance reading.at_ s).charged k = s.charged k :=
    fun k hk => advance_idle (fun hmem => hk ((h.charging k).mp hmem))
  refine ⟨h.charging_next thresholds given hallowed, ?_, ?_, ?_, ?_, ?_, ?_, ?_⟩
  · rw [time_charging]
    split
    · unfold addFrame
      split
      · exact h.apart
      · next hnew =>
        rw [← concat_eq_append]
        exact h.apart.concat hnew
    · exact h.apart.erase _
  · rw [time_chargedUntil]
    intro other hother
    rcases mem_append.mp hother with hpast | hnew
    · exact hclock other hpast
    · rw [mem_singleton.mp hnew]
  · rw [time_chargedUntil]
    intro other hother
    rw [getLast?_append_of_ne_nil _ (cons_ne_nil _ _), getLast?_singleton] at hother
    rw [← Option.some.inj hother]
  · intro k hnone
    have hpast : ∀ mark, count past k mark = 0 := by
      intro mark
      have hsum := hnone mark
      rw [count_next] at hsum
      omega
    rw [hcharged, hidle k (fun hc => by have := hpast .start; rw [hc.1] at this; omega)]
    exact h.fresh k hpast
  · intro k
    rw [hcharged]
    unfold advance
    dsimp only
    split
    · exact add_nonneg (h.nonneg k) (div_nonneg (le_max_left _ _) (Nat.cast_nonneg _))
    · exact h.nonneg k
  · intro first hfirst k
    rw [time_chargedUntil, hcharged]
    by_cases hne : past = []
    · subst hne
      obtain rfl := Option.some.inj hfirst
      rw [hidle k (fun hc => absurd hc.1 Nat.zero_ne_one), h.fresh k (fun _ => rfl), Rat.cast_zero]
      exact area_refl _ _
    · rw [head?_append_of_ne_nil _ hne] at hfirst
      have hle := h.le_next hclock hne
      rw [h.advance_charged hle k]
      exact (h.area first hfirst k).next (h.first_le hfirst) h.clock hle
  · have hkept : ∑ k ∈ ended past, (advance reading.at_ s).charged k =
        ∑ k ∈ ended past, s.charged k :=
      Finset.sum_congr rfl fun k hk => hidle k (not_charging_of_ended hk)
    rw [hcharged, time_sharedTotals, ended_next]
    split
    · next hfinish =>
      have hnew : reading.call ∉ ended past := by
        intro hin
        refine not_charging_of_ended hin ?_
        unfold Allowed at hallowed
        rw [hfinish] at hallowed
        exact hallowed
      have hsum := s.sharedTotals.sum_entries_update (given reading.call).bucket 0
        (· + (advance reading.at_ s).charged reading.call) Prod.snd rfl
      rw [Finset.sum_insert hnew, hkept, ← h.total]
      dsimp only at hsum
      linarith
    · rw [hkept]
      exact h.total

theorem holds_initial : Holds Scope.initial [] := by
  refine ⟨fun k => ?_, nodup_nil, nofun, nofun, fun _ _ => rfl, fun _ => le_refl _, nofun, rfl⟩
  exact iff_of_false not_mem_nil (fun h => absurd h.1 Nat.zero_ne_one)

/-- All that was charged lies between the first reading and the last. -/
theorem Holds.sum_le (h : Holds s past) {first : Reading} (hfirst : past.head? = some first)
    (calls : Finset ℕ) : ∑ k ∈ calls, s.charged k ≤ s.chargedUntil - first.at_ := by
  have hle := sum_area_le calls (h.first_le hfirst) (sum_share_le calls) (h.area first hfirst)
  exact_mod_cast hle

/-- What the buckets hold was charged by the last end. -/
def Within (s : Scope) (past : List Reading) : Prop :=
  ∀ first last, past.head? = some first →
    (past.filter (·.mark = .finish)).getLast? = some last →
      (s.sharedTotals.entries.map Prod.snd).sum ≤ last.at_ - first.at_

theorem Within.time (h : Within s past)
    (hnext : Holds (MeasurementScope.time ⟨.shared, thresholds⟩ given reading s)
      (past ++ [reading])) :
    Within (MeasurementScope.time ⟨.shared, thresholds⟩ given reading s) (past ++ [reading]) := by
  intro first last hfirst hlast
  rw [filter_append] at hlast
  by_cases hfinish : reading.mark = .finish
  · rw [filter_cons_of_pos (by simpa using hfinish), filter_nil,
      getLast?_append_of_ne_nil _ (cons_ne_nil _ _), getLast?_singleton] at hlast
    obtain rfl := Option.some.inj hlast
    have hle := hnext.sum_le hfirst (ended (past ++ [reading]))
    rw [← hnext.total, time_chargedUntil] at hle
    exact hle
  · rw [filter_cons_of_neg (by simpa using hfinish), filter_nil,
      append_nil] at hlast
    rw [time_sharedTotals, if_neg hfinish]
    have hne : past ≠ [] := by
      rintro rfl
      cases hlast
    rw [head?_append_of_ne_nil _ hne] at hfirst
    exact h first last hfirst hlast

/-- Until an instant, no other call is charging while this one is. -/
def AloneUntil (past : List Reading) (k : ℕ) (now : ℚ) : Prop :=
  ∀ x : ℝ, x < now → ∀ j, Charging (upTo Reading.at_ past x) k →
    Charging (upTo Reading.at_ past x) j → j = k

/-- The own time of a call that was alone is what its frame was charged. -/
structure Own (s : Scope) (past : List Reading) : Prop where
  running : ∀ k, AloneUntil past k s.chargedUntil → Charging past k →
    s.charged k = s.chargedUntil - (s.calls k).startedAt - (s.calls k).excludedMs
  excluded : ∀ k, AloneUntil past k s.chargedUntil → InSection past k →
    s.charged k = (s.calls k).innerStartedAt - (s.calls k).startedAt - (s.calls k).excludedMs ∧
      (s.calls k).innerStartedAt ≤ s.chargedUntil

theorem AloneUntil.before (h : AloneUntil (past ++ [reading]) k reading.at_)
    (hle : now ≤ reading.at_) : AloneUntil past k now := by
  intro x hx j hk hj
  have hle' : (now : ℝ) ≤ reading.at_ := by exact_mod_cast hle
  have hx' := hx.trans_le hle'
  rw [← upTo_before hx'] at hk hj
  exact h x hx' j hk hj

theorem Holds.advance_alone (h : Holds s past) (hle : s.chargedUntil ≤ reading.at_)
    (halone : AloneUntil (past ++ [reading]) k reading.at_) (hk : Charging past k) :
    (advance reading.at_ s).charged k = s.charged k + (reading.at_ - s.chargedUntil) := by
  have hmem := (h.charging k).mpr hk
  unfold advance
  dsimp only
  rw [if_pos hmem, max_eq_right (sub_nonneg.mpr hle)]
  rcases hle.lt_or_eq with hlt | heq
  · -- the calls at the last reading are those until the next one
    have hlt' : (s.chargedUntil : ℝ) < reading.at_ := by exact_mod_cast hlt
    have hnow : upTo Reading.at_ (past ++ [reading]) s.chargedUntil = past := by
      rw [upTo_before hlt', upTo_all]
      exact fun earlier hearlier => by exact_mod_cast h.clock earlier hearlier
    have hothers : ∀ j ∈ s.charging, j = k := by
      intro j hj
      refine halone _ hlt' j ?_ ?_
      · rw [hnow]
        exact hk
      · rw [hnow]
        exact (h.charging j).mp hj
    have hone : s.charging = [k] := by
      obtain ⟨n, hrep⟩ : ∃ n, s.charging = List.replicate n k :=
        ⟨_, eq_replicate_iff.mpr ⟨rfl, hothers⟩⟩
      have hapart := h.apart
      rw [hrep] at hmem hapart ⊢
      have hle := nodup_replicate.mp hapart
      have hpos := (mem_replicate.mp hmem).1
      obtain rfl : n = 1 := by omega
      rfl
    rw [hone, length_singleton, Nat.cast_one, div_one]
  · rw [heq, sub_self, zero_div]

/-- So an alone call's frame holds its own time at the next reading. -/
theorem Own.reach (h : Own s past) (hholds : Holds s past) (hle : s.chargedUntil ≤ reading.at_)
    (halone : AloneUntil (past ++ [reading]) k reading.at_) (hk : Charging past k) :
    (advance reading.at_ s).charged k =
      reading.at_ - (s.calls k).startedAt - (s.calls k).excludedMs := by
  rw [hholds.advance_alone hle halone hk, h.running k (halone.before hle) hk]
  ring

theorem Own.time (h : Own s past) (hholds : Holds s past)
    (hclock : ∀ earlier ∈ past, earlier.at_ ≤ reading.at_) (hallowed : Allowed past reading) :
    Own (MeasurementScope.time ⟨.shared, thresholds⟩ given reading s) (past ++ [reading]) := by
  have hcharged := hholds.time_charged thresholds given hallowed
  have hle : ∀ k, Charging past k ∨ InSection past k → s.chargedUntil ≤ reading.at_ := by
    intro k hk
    refine hholds.le_next hclock ?_
    rintro rfl
    rcases hk with hk | hk
    · exact absurd hk.1 Nat.zero_ne_one
    · exact absurd hk.1 Nat.zero_ne_one
  have hother : ∀ k, k ≠ reading.call →
      (MeasurementScope.time ⟨.shared, thresholds⟩ given reading s).calls k = s.calls k := by
    intro k hne
    obtain ⟨call, mark, at_⟩ := reading
    cases mark with
    | start | enter | leave => exact Function.update_of_ne hne _ _
    | finish => rfl
  have hstays : ∀ k, InSection past k → (advance reading.at_ s).charged k = s.charged k := by
    intro k hin
    refine advance_idle fun hmem => ?_
    have hsame := ((hholds.charging k).mp hmem).2.2
    have hone := hin.2.2
    omega
  constructor
  · intro k halone hk
    rw [time_chargedUntil] at halone ⊢
    rw [hcharged]
    by_cases hne : k = reading.call
    · subst hne
      rcases (charging_self hallowed).mp hk with hmark | hmark
      · -- it starts: nothing charged, and no time of its own
        unfold Allowed at hallowed
        rw [hmark] at hallowed
        rw [advance_idle (fun hmem => absurd ((hholds.charging _).mp hmem).1
          (by rw [hallowed]; exact Nat.zero_ne_one)), hholds.fresh _ hallowed]
        obtain ⟨call, mark, at_⟩ := reading
        subst hmark
        change 0 = at_ - (Function.update s.calls call ⟨at_, 0, at_⟩ call).startedAt -
          (Function.update s.calls call ⟨at_, 0, at_⟩ call).excludedMs
        rw [Function.update_self]
        ring
      · -- it leaves a section, whose time is excluded from its own
        unfold Allowed at hallowed
        rw [hmark] at hallowed
        have hlast := hle _ (.inr hallowed)
        obtain ⟨hown, hinner⟩ := h.excluded _ (halone.before hlast) hallowed
        rw [hstays _ hallowed, hown]
        obtain ⟨call, mark, at_⟩ := reading
        subst hmark
        change _ = at_ - (Function.update s.calls call _ call).startedAt -
          (Function.update s.calls call _ call).excludedMs
        rw [Function.update_self]
        dsimp only
        rw [max_eq_right (sub_nonneg.mpr (hinner.trans hlast))]
        ring
    · rw [charging_other hne] at hk
      rw [hother k hne]
      exact h.reach hholds (hle k (.inl hk)) halone hk
  · intro k halone hk
    rw [time_chargedUntil] at halone ⊢
    rw [hcharged]
    by_cases hne : k = reading.call
    · subst hne
      have hmark := (inSection_self hallowed).mp hk
      unfold Allowed at hallowed
      rw [hmark] at hallowed
      rw [h.reach hholds (hle _ (.inl hallowed)) halone hallowed]
      obtain ⟨call, mark, at_⟩ := reading
      subst hmark
      change _ = (Function.update s.calls call _ call).innerStartedAt -
        (Function.update s.calls call _ call).startedAt -
          (Function.update s.calls call _ call).excludedMs ∧
            (Function.update s.calls call _ call).innerStartedAt ≤ at_
      rw [Function.update_self]
      exact ⟨rfl, le_refl _⟩
    · rw [inSection_other hne] at hk
      have hlast := hle k (.inr hk)
      obtain ⟨hown, hinner⟩ := h.excluded k (halone.before hlast) hk
      rw [hother k hne, hstays k hk]
      exact ⟨hown, hinner.trans hlast⟩

end Charges

end SlashWho.MeasurementScope
