import SlashWho.MeasurementShares

/-!
What the buckets report of the time they split, and that splitting is nothing
to a call that is alone: summed, it adds its own time rounded.
-/

namespace SlashWho.MeasurementScope

open Timelines

variable {s : Scope} {reading : Reading} {given : ℕ → Given} {thresholds : String → Option ℚ}

theorem get?_add {field other : String} (value : ℚ) (t : Tallies) (h : field ≠ other) :
    (t.add other value).values.get? field = t.values.get? field :=
  OrderedMap.get?_set_ne _ _ h

theorem get?_slowest {field other : String} (value : ℚ) (label : Option String) (t : Tallies)
    (h : field ≠ other ++ "Ms") :
    (t.slowest other value label).values.get? field = t.values.get? field := by
  unfold Tallies.slowest
  split
  · exact OrderedMap.get?_set_ne _ _ h
  · rfl

theorem get?_fastEnd {bucket : String} (elapsed : ℚ) (threshold : Option ℚ) (succeeded : Bool)
    (t : Tallies) :
    (t.fastEnd bucket elapsed threshold succeeded).values.get? (bucket ++ "Ms") =
      t.values.get? (bucket ++ "Ms") := by
  have hne : ∀ suffix, "Ms" ≠ suffix → bucket ++ "Ms" ≠ bucket ++ suffix :=
    fun suffix h heq => h ((String.append_right_inj bucket).mp heq)
  unfold Tallies.fastEnd
  split
  · dsimp only
    rw [OrderedMap.get?_set_ne _ _ (hne _ (by decide)), get?_add _ _ (hne _ (by decide)),
      OrderedMap.get?_set_ne _ _ (hne _ (by decide))]
  · rfl

theorem summed_finish (hfinish : reading.mark = .finish) :
    (time ⟨.summed, thresholds⟩ given reading s).tallies.values.get?
        ((given reading.call).bucket ++ "Ms") =
      some ((s.tallies.values.get? ((given reading.call).bucket ++ "Ms")).getD 0 +
        elapsedOf (s.calls reading.call) reading.at_) := by
  obtain ⟨k, mark, at_⟩ := reading
  subst hfinish
  have hne : ∀ suffix, "Ms" ≠ suffix → (given k).bucket ++ "Ms" ≠ (given k).bucket ++ suffix :=
    fun suffix h heq => h ((String.append_right_inj _).mp heq)
  unfold time finish
  dsimp only
  rw [get?_fastEnd, get?_slowest, get?_add _ _ (hne _ (by decide))]
  · exact OrderedMap.get?_set_self _ _ _
  · rw [String.append_assoc]
    exact hne _ (by decide)

theorem abs_mathRound_sub_le (x : ℚ) : |(mathRound x : ℚ) - x| ≤ 1 / 2 := by
  unfold mathRound
  have hle := Int.floor_le (x + 1 / 2)
  have hlt := Int.lt_floor_add_one (x + 1 / 2)
  rw [abs_le]
  constructor <;> linarith

/-- No other call is ever charging while this one is. -/
def Alone (events : List Event) (k : ℕ) : Prop :=
  ∀ (x : ℝ) (j : ℕ), Charging (upTo Reading.at_ (readings events) x) k →
    Charging (upTo Reading.at_ (readings events) x) j → j = k

variable (thresholds : String → Option ℚ) (given : ℕ → Given)

structure Splits (events : List Event) : Prop where
  /-- Every call is charged the integral of its part of each instant. -/
  charged : ∀ first last, (readings events).head? = some first →
    (readings events).getLast? = some last → ∀ k,
      ((scopeOf ⟨.shared, thresholds⟩ given events).charged k : ℝ) =
        ∫ x in (first.at_ : ℝ)..last.at_, share k (upTo Reading.at_ (readings events) x)
  /-- A call that ends leaves its charge in its bucket. -/
  recorded : ∀ before reading, events = before ++ [.time reading] → reading.mark = .finish →
    (scopeOf ⟨.shared, thresholds⟩ given events).sharedTotals.get? (given reading.call).bucket =
      some (((scopeOf ⟨.shared, thresholds⟩ given before).sharedTotals.get?
          (given reading.call).bucket).getD 0 +
        (scopeOf ⟨.shared, thresholds⟩ given events).charged reading.call)
  /-- A bucket is reported as what it holds, rounded down, unless a name or a flag is over it. -/
  reported : ∀ bucket charged,
    (scopeOf ⟨.shared, thresholds⟩ given events).sharedTotals.get? bucket = some charged →
    (scopeOf ⟨.shared, thresholds⟩ given events).tallies.names.get? (bucket ++ "Ms") = none →
    bucket ++ "Ms" ∉ (scopeOf ⟨.shared, thresholds⟩ given events).tallies.flags →
      (totals (scopeOf ⟨.shared, thresholds⟩ given events)).get? (bucket ++ "Ms") =
        some (.number ⌊charged⌋)
  /-- Together the buckets report no more than the time from the first start to the last end. -/
  within : ∀ first last, ((readings events).filter (·.mark = .start)).head? = some first →
    ((readings events).filter (·.mark = .finish)).getLast? = some last →
      ((((sharedBuckets (scopeOf ⟨.shared, thresholds⟩ given events)).map Prod.snd).sum : ℤ) : ℚ) ≤
        last.at_ - first.at_
  /-- A call that was alone adds to its bucket in summed mode what it is charged, rounded. -/
  alone : ∀ before reading, events = before ++ [.time reading] → reading.mark = .finish →
    Alone events reading.call → ∃ added : ℤ,
      (scopeOf ⟨.summed, thresholds⟩ given events).tallies.values.get?
          ((given reading.call).bucket ++ "Ms") =
        some (((scopeOf ⟨.summed, thresholds⟩ given before).tallies.values.get?
          ((given reading.call).bucket ++ "Ms")).getD 0 + added) ∧
      added = mathRound ((scopeOf ⟨.shared, thresholds⟩ given events).charged reading.call) ∧
      |added - (scopeOf ⟨.shared, thresholds⟩ given events).charged reading.call| ≤ 1 / 2

variable {events before : List Event}

theorem shared_keeps (h : Legal (readings events)) :
    Holds (scopeOf ⟨.shared, thresholds⟩ given events) (readings events) ∧
      Within (scopeOf ⟨.shared, thresholds⟩ given events) (readings events) ∧
      Own (scopeOf ⟨.shared, thresholds⟩ given events) (readings events) := by
  refine scopeOf_keeps _ _ (fun s past => Holds s past ∧ Within s past ∧ Own s past) ?_ ?_ ?_ h
  · refine ⟨holds_initial, nofun, ⟨?_, ?_⟩⟩
    · exact fun k _ hk => absurd hk.1 Nat.zero_ne_one
    · exact fun k _ hk => absurd hk.1 Nat.zero_ne_one
  · rintro s past tallies ⟨hholds, hwithin, hown⟩
    exact ⟨⟨hholds.charging, hholds.apart, hholds.clock, hholds.last, hholds.fresh, hholds.nonneg,
      hholds.area, hholds.total⟩, hwithin, ⟨hown.running, hown.excluded⟩⟩
  · rintro s past reading ⟨hholds, hwithin, hown⟩ hclock hallowed
    have hnext := hholds.time thresholds given hclock hallowed
    exact ⟨hnext, hwithin.time thresholds given hnext,
      hown.time thresholds given hholds hclock hallowed⟩

theorem sum_sharedBuckets_le (s : Scope) :
    ((((sharedBuckets s).map Prod.snd).sum : ℤ) : ℚ) ≤
      (s.sharedTotals.entries.map Prod.snd).sum := by
  unfold sharedBuckets
  rw [List.map_map]
  induction s.sharedTotals.entries with
  | nil => exact le_refl _
  | cons e rest ih =>
    rw [List.map_cons, List.map_cons, List.sum_cons, List.sum_cons, Int.cast_add]
    exact add_le_add (Int.floor_le e.2) ih

theorem charged_of_alone (h : Legal (readings (before ++ [.time reading])))
    (hfinish : reading.mark = .finish) (halone : Alone (before ++ [.time reading]) reading.call) :
    (scopeOf ⟨.shared, thresholds⟩ given (before ++ [.time reading])).charged reading.call =
      reading.at_ -
        ((scopeOf ⟨.shared, thresholds⟩ given before).calls reading.call).startedAt -
          ((scopeOf ⟨.shared, thresholds⟩ given before).calls reading.call).excludedMs := by
  rw [readings_append] at h
  obtain ⟨hpast, hclock, hallowed⟩ := h.last
  obtain ⟨hholds, -, hown⟩ := shared_keeps thresholds given hpast
  have hcharging : Charging (readings before) reading.call := by
    have hends := hallowed
    unfold Allowed at hends
    rw [hfinish] at hends
    exact hends
  have hne : readings before ≠ [] := by
    intro hnil
    rw [hnil] at hcharging
    exact absurd hcharging.1 Nat.zero_ne_one
  rw [scopeOf_append]
  change (time _ _ _ _).charged _ = _
  rw [hholds.time_charged thresholds given hallowed]
  refine hown.reach hholds (hholds.le_next hclock hne) (fun x _ j hk hj => ?_) hcharging
  rw [Alone, readings_append] at halone
  exact halone x j hk hj

theorem totals_bucket {s : Scope} {bucket : String} {charged : ℚ}
    (hbucket : s.sharedTotals.get? bucket = some charged)
    (hname : s.tallies.names.get? (bucket ++ "Ms") = none)
    (hflag : bucket ++ "Ms" ∉ s.tallies.flags) :
    (totals s).get? (bucket ++ "Ms") = some (.number ⌊charged⌋) := by
  have hnone : ∀ (es : List (String × Total)), (∀ e ∈ es, e.1 ≠ bucket ++ "Ms") →
      es.reverse.lookup (bucket ++ "Ms") = none := by
    intro es hall
    refine List.lookup_eq_none_iff.mpr fun e he => bne_iff_ne.mpr ?_
    exact (hall e (List.mem_reverse.mp he)).symm
  have hshared : (OrderedMap.ofList ((sharedBuckets s).map
      (fun e => (e.1, Total.number e.2)))).get? (bucket ++ "Ms") = some (.number ⌊charged⌋) := by
    apply OrderedMap.get?_ofList_of_forall
    intro v
    simp only [sharedBuckets, List.map_map, List.mem_map, Function.comp_apply, Prod.mk.injEq]
    constructor
    · rintro ⟨e, he, hkey, hvalue⟩
      obtain rfl := String.append_left_inj _ |>.mp hkey
      rw [(OrderedMap.mem_entries_iff _ _ _).mp he] at hbucket
      rw [← hvalue, Option.some.inj hbucket]
    · intro hvalue
      exact ⟨(bucket, charged), (OrderedMap.mem_entries_iff _ _ _).mpr hbucket, rfl,
        Option.some.inj hvalue⟩
  unfold totals
  rw [OrderedMap.get?_ofList] at hshared
  rw [OrderedMap.get?_setAll, OrderedMap.get?_setAll, OrderedMap.get?_setAll, hshared, hnone,
    hnone]
  · rfl
  · intro e he hkey
    obtain ⟨⟨field, label⟩, hin, rfl⟩ := List.mem_map.mp he
    obtain rfl : field = bucket ++ "Ms" := hkey
    rw [(OrderedMap.mem_entries_iff _ _ _).mp hin] at hname
    cases hname
  · intro e he hkey
    obtain ⟨field, hin, rfl⟩ := List.mem_map.mp he
    exact hflag (hkey ▸ hin)

/-- Whatever calls and sections there are, in whatever order, a scope with shared overlapping
charges each call its part of every instant, reports no more than the time there was, and charges
a call that was alone what summed mode adds for it before it is rounded. -/
theorem shared_splits (thresholds : String → Option ℚ) (given : ℕ → Given) {events : List Event}
    (h : Legal (readings events)) : Splits thresholds given events := by
  obtain ⟨hholds, hwithin, -⟩ := shared_keeps thresholds given h
  refine ⟨?_, ?_, fun _ _ => totals_bucket, ?_, ?_⟩
  · intro first last hfirst hlast k
    rw [← hholds.last last hlast]
    exact (hholds.area first hfirst k).integral.symm
  · intro before reading hevents hfinish
    subst hevents
    rw [readings_append] at h
    obtain ⟨hpast, -, hallowed⟩ := h.last
    obtain ⟨hbefore, -⟩ := shared_keeps thresholds given hpast
    rw [scopeOf_append]
    change (time _ _ _ _).sharedTotals.get? _ = some (_ + (time _ _ _ _).charged _)
    rw [time_sharedTotals, if_pos hfinish, hbefore.time_charged thresholds given hallowed]
    exact OrderedMap.get?_set_self _ _ _
  · intro first last hfirst hlast
    rw [h.head] at hfirst
    have hle := hwithin first last hfirst hlast
    exact (sum_sharedBuckets_le _).trans hle
  · intro before reading hevents hfinish halone
    subst hevents
    have hcharged := charged_of_alone thresholds given h hfinish halone
    have hnonneg := hholds.nonneg reading.call
    generalize (scopeOf ⟨.shared, thresholds⟩ given (before ++ [.time reading])).charged
      reading.call = charged at hcharged hnonneg ⊢
    refine ⟨mathRound charged, ?_, rfl, abs_mathRound_sub_le charged⟩
    have hround : (0 : ℤ) ≤ mathRound charged := Int.floor_nonneg.mpr (by linarith)
    have hround' : (0 : ℚ) ≤ mathRound charged := by exact_mod_cast hround
    rw [scopeOf_append]
    change (time _ _ _ _).tallies.values.get? _ = _
    rw [summed_finish hfinish, calls_eq _ _ ⟨.shared, thresholds⟩]
    unfold elapsedOf
    rw [← hcharged, max_eq_right hround']

/-- Two calls that overlap, the second with a section that is not its own. -/
def overlappingCalls : List Event :=
  [.time ⟨0, .start, 0⟩, .time ⟨1, .start, 2⟩, .time ⟨1, .enter, 4⟩, .time ⟨1, .leave, 6⟩,
    .time ⟨0, .finish, 8⟩, .time ⟨1, .finish, 10⟩]

theorem legal_overlappingCalls : Legal (readings overlappingCalls) := by
  change Legal ([] ++ [⟨0, .start, 0⟩] ++ [⟨1, .start, 2⟩] ++ [⟨1, .enter, 4⟩] ++
    [⟨1, .leave, 6⟩] ++ [⟨0, .finish, 8⟩] ++ [⟨1, .finish, 10⟩])
  refine .next (.next (.next (.next (.next (.next .nil ?_ ?_) ?_ ?_) ?_ ?_) ?_ ?_) ?_ ?_) ?_ ?_
  · exact nofun
  · exact fun _ => rfl
  · decide +kernel
  · exact fun mark => by cases mark <;> rfl
  · decide +kernel
  · exact ⟨rfl, rfl, rfl⟩
  · decide +kernel
  · exact ⟨rfl, rfl, rfl⟩
  · decide +kernel
  · exact ⟨rfl, rfl, rfl⟩
  · decide +kernel
  · exact ⟨rfl, rfl, rfl⟩

theorem shared_splits_overlapping :
    (6 : ℝ) = ∫ x in (0 : ℝ)..10, share 0 (upTo Reading.at_ (readings overlappingCalls) x) := by
  have hsplits := shared_splits (fun _ => none) (fun k => ⟨k.repr, none, true⟩)
    legal_overlappingCalls
  have hcharged := hsplits.charged ⟨0, .start, 0⟩ ⟨1, .finish, 10⟩ rfl rfl 0
  have hsix : (scopeOf ⟨.shared, fun _ => none⟩ (fun k => ⟨k.repr, none, true⟩)
      overlappingCalls).charged 0 = 6 := by decide +kernel
  rw [hsix] at hcharged
  simpa using hcharged

end SlashWho.MeasurementScope
