import SlashWho.EvidenceReservations

/-!
The sweep's list and the reservation agree. Whatever makes a character due there, an
elapsed retry of its newest full publication, a capped ranked walk past its cooldown or
an asked re-collection, keeps the reservation from answering fresh.
-/

namespace SlashWho.EvidenceReservations

open List Characters ComparatorSort EvidenceMerge EvidenceRuns

theorem dateOf_le (column : Instant) : dateOf column ≤ column := Nat.sub_le _ _

variable {t : Tables} {key : CharacterKey} {now : Instant}

theorem eq_of_completedOrder_eq {a b : ℕ × EvidenceRun} (ha : a ∈ t.store.runs.entries)
    (hb : b ∈ t.store.runs.entries) (h : Store.completedOrder a = Store.completedOrder b) :
    a = b := by
  have hid : a.1 = b.1 := congrArg (fun order => (ofLex order).2) h
  have hgetA := (t.store.runs.mem_entries_iff a.1 a.2).mp ha
  have hgetB := (t.store.runs.mem_entries_iff b.1 b.2).mp hb
  rw [hid, hgetB] at hgetA
  exact Prod.ext hid (Option.some.inj hgetA).symm

variable {selection : CompletedEvidenceSelection}

/-- The completion of a character is its newest full publication's, where it has one. -/
theorem run_of_selection {latest : ℕ × EvidenceRun}
    (hselection : t.loadCompletedEvidenceSelection key = some selection)
    (hlatest : t.latestFull key = some latest) : selection.run = latest := by
  obtain ⟨snapshot, hsnapshot, rfl⟩ := Option.map_eq_some_iff.mp hselection
  by_cases hscope : snapshot.2.publicationScope = .tier
  · simp only [if_pos hscope, hlatest, Option.getD_some]
  · simp only [if_neg hscope]
    have hfull : snapshot.2.publicationScope = .full := by
      cases hcase : snapshot.2.publicationScope with
      | full => rfl
      | tier => exact absurd hcase hscope
    unfold Tables.latestFull Store.newestCompleted at hlatest
    unfold Store.newestCompleted at hsnapshot
    obtain ⟨hmem, hpublished⟩ := mem_filter.mp (argmax_mem hsnapshot)
    obtain ⟨hmem', hpublished'⟩ := mem_filter.mp (argmax_mem hlatest)
    rw [Bool.and_eq_true] at hpublished'
    have hle : Store.completedOrder latest ≤ Store.completedOrder snapshot :=
      le_of_mem_argmax (mem_filter.mpr ⟨hmem', hpublished'.1⟩) hsnapshot
    have hge : Store.completedOrder snapshot ≤ Store.completedOrder latest := by
      refine le_of_mem_argmax (mem_filter.mpr ⟨hmem, ?_⟩) hlatest
      simp only [hpublished, hfull, decide_true, Bool.and_self]
    exact eq_of_completedOrder_eq hmem hmem' (le_antisymm hge hle)

theorem not_isFresh_of_publicationDue (h : t.publicationDue now key ≠ [])
    (hselection : t.loadCompletedEvidenceSelection key = some selection) (cutoff : Instant) :
    isFresh selection cutoff now = false := by
  unfold Tables.publicationDue at h
  cases hlatest : t.latestFull key with
  | none =>
    rw [hlatest] at h
    exact absurd rfl h
  | some latest =>
    rw [hlatest] at h
    simp only at h
    by_cases hwalk : (latest.2.mode.tierSearchRaidId.isSome &&
        latest.2.rankedBackfillCursor.isSome) = true
    · rw [if_pos hwalk] at h
      exact absurd rfl h
    · rw [if_neg hwalk] at h
      obtain ⟨due, hdue⟩ := exists_mem_of_ne_nil _ h
      obtain ⟨hretry, hpast⟩ := mem_filter.mp hdue
      rw [Option.mem_toList] at hretry
      have hle : dateOf due ≤ now := (dateOf_le due).trans (of_decide_eq_true hpast)
      have hretry' : selection.run.2.retryAfterAt = some due := by
        rw [run_of_selection hselection hlatest]
        exact hretry
      unfold isFresh isEvidenceFresh
      rw [hretry']
      cases selection.run.2.completedAt with
      | none => simp
      | some completedAt => simp [Nat.not_lt.mpr hle]

theorem foldl_max_le {l : List ℕ} {start bound : ℕ} (hstart : start ≤ bound)
    (h : ∀ a ∈ l, a ≤ bound) : l.foldl max start ≤ bound := by
  induction l generalizing start with
  | nil => exact hstart
  | cons a rest ih =>
    exact ih (max_le hstart (h a mem_cons_self)) fun b hb => h b (mem_cons_of_mem _ hb)

theorem exists_continuation (collation : String → String → Ordering) {raidId : String}
    (hraid : raidId ∈ t.searchedRaids key) (h : t.continuationDue now key raidId ≠ []) :
    ((rankedContinuations collation t key).find? (fun row => row.dueAt ≤ now)).isSome = true := by
  unfold Tables.continuationDue at h
  cases hsearch : t.latestSearch key raidId with
  | none =>
    rw [hsearch] at h
    exact absurd rfl h
  | some search =>
    rw [hsearch] at h
    obtain ⟨retry, hin⟩ := exists_mem_of_ne_nil _ h
    obtain ⟨hretry, hdue⟩ := mem_filter.mp hin
    rw [Option.mem_toList] at hretry
    simp only [Bool.and_eq_true, decide_eq_true_eq, Bool.not_eq_true', any_eq_false,
      not_lt] at hdue
    obtain ⟨hpast, hquiet⟩ := hdue
    have hrow : ∃ row, continuationOf t key raidId = some row ∧ row.dueAt ≤ now := by
      unfold continuationOf
      simp only [hsearch, hretry, Option.bind_eq_bind, Option.bind_some]
      refine ⟨_, rfl, ?_⟩
      simp only
      refine (dateOf_le _).trans ?_
      by_cases hnone : t.failuresSince key raidId search.2 = []
      · rw [if_pos hnone]
        exact hpast
      · rw [if_neg hnone]
        obtain ⟨first, hfirst⟩ := exists_mem_of_ne_nil _ hnone
        have hfirstQuiet := hquiet first hfirst
        have hbound : (t.failuresSince key raidId search.2).foldl max 0 ≤ now - cooldown := by
          refine foldl_max_le (Nat.zero_le _) fun failedAt hfailed => ?_
          have hfailedQuiet := hquiet failedAt hfailed
          omega
        have hroom : cooldown ≤ now := by omega
        exact max_le hpast (Nat.add_le_of_le_sub hroom hbound)
    obtain ⟨row, hrow, hdueAt⟩ := hrow
    rw [find?_isSome]
    refine ⟨row, ?_, decide_eq_true hdueAt⟩
    unfold rankedContinuations
    rw [mem_sortBy]
    exact mem_filterMap.mpr ⟨raidId, hraid, hrow⟩

theorem activeOf_eq_none (h : t.store.hasActive key = false) : activeOf t key = none := by
  unfold activeOf
  rw [argmax_eq_none, filter_eq_nil_iff]
  intro entry hentry hactive
  unfold Store.hasActive at h
  rw [any_eq_false] at h
  have hvalue : entry.2 ∈ t.store.runs.values := mem_map_of_mem hentry
  refine h entry.2 hvalue ?_
  simpa using hactive

/-- Taking a request back clears what runs have noted, and neither adds one nor starts one. -/
theorem runs_consumed (id : ℕ) (run : EvidenceRun) (key : CharacterKey)
    (h : (consumeAliasRecollection t key).store.runs.get? id = some run) :
    ∃ old, t.store.runs.get? id = some old ∧ run.key = old.key ∧ run.status = old.status := by
  have hfold : ∀ (entries : List (ℕ × EvidenceRun)) (runs : OrderedMap ℕ EvidenceRun),
      (∀ entry ∈ entries, t.store.runs.get? entry.1 = some entry.2) →
      (∀ id run, runs.get? id = some run →
        ∃ old, t.store.runs.get? id = some old ∧ run.key = old.key ∧ run.status = old.status) →
      ∀ id run, (entries.foldl (fun runs entry => runs.set entry.1 { entry.2 with
          killScanCompletedAt := none
          killScanResumePage := none
          killScanResumeBoundaryReportCode := none }) runs).get? id = some run →
        ∃ old, t.store.runs.get? id = some old ∧ run.key = old.key ∧ run.status = old.status := by
    intro entries
    induction entries with
    | nil => exact fun runs _ hruns => hruns
    | cons entry rest ih =>
      intro runs hentries hruns
      refine ih _ (fun e he => hentries e (mem_cons_of_mem _ he)) fun id' run' hget => ?_
      by_cases hid : id' = entry.1
      · rw [hid, OrderedMap.get?_set_self] at hget
        rw [hid, ← Option.some.inj hget]
        exact ⟨entry.2, hentries entry mem_cons_self, rfl, rfl⟩
      · rw [OrderedMap.get?_set_ne runs _ hid] at hget
        exact hruns id' run' hget
  unfold consumeAliasRecollection at h
  split at h
  · refine hfold _ t.store.runs (fun entry hentry => ?_) (fun id run hget => ⟨run, hget, rfl, rfl⟩)
      id run h
    exact (t.store.runs.mem_entries_iff _ _).mp (mem_filter.mp hentry).1
  · exact ⟨run, h, rfl, rfl⟩

theorem insert_consumed (hquiet : t.store.hasActive key = false) {id : ℕ}
    (hnew : t.store.runs.has id = false) (createdAt : Instant) (mode : EvidenceRunMode)
    (phasePlan : List String) :
    ∃ store, (consumeAliasRecollection t key).store.insertRun createdAt id key mode phasePlan =
        (.ok (), store) ∧
      store.runs.get? id = some (Store.queuedRun createdAt key mode) := by
  have hhas : (consumeAliasRecollection t key).store.runs.has id = false := by
    by_contra htrue
    rw [Bool.not_eq_false] at htrue
    obtain ⟨run, hrun⟩ := Option.isSome_iff_exists.mp htrue
    obtain ⟨old, hold, -⟩ := runs_consumed id run key hrun
    unfold OrderedMap.has at hnew
    rw [hold] at hnew
    cases hnew
  have hactive : (consumeAliasRecollection t key).store.hasActive key = false := by
    unfold Store.hasActive at hquiet ⊢
    rw [any_eq_false] at hquiet ⊢
    intro run hrun htrue
    obtain ⟨id', hid'⟩ := (OrderedMap.mem_values_iff _ _).mp hrun
    obtain ⟨old, hold, hkey, hstatus⟩ := runs_consumed id' run key hid'
    refine hquiet old ((OrderedMap.mem_values_iff _ _).mpr ⟨id', hold⟩) ?_
    unfold EvidenceRun.isActive at htrue ⊢
    rw [← hkey, ← hstatus]
    exact htrue
  unfold Store.insertRun
  rw [hhas, hactive, if_neg (by simp)]
  exact ⟨_, rfl, OrderedMap.get?_set_self _ _ _⟩

variable (collation : String → String → Ordering)

theorem insertReservation_of_quiet {input : ReserveInput} {id : ℕ} (createdAt : Instant)
    (hquiet : t.store.hasActive input.key = false) (hnew : t.store.runs.has id = false)
    (completed : Option CompletedEvidenceSelection) (continuation : Option RankedContinuation) :
    ∃ light current t' mode,
      reserve.insertReservation t input id createdAt completed continuation =
        (.ok (.reserved id light completed current), t') ∧
      t'.store.runs.get? id = some (Store.queuedRun createdAt input.key mode) := by
  unfold reserve.insertReservation
  rw [activeOf_eq_none hquiet]
  cases continuation with
  | none =>
    obtain ⟨store, hinsert, hget⟩ := insert_consumed hquiet hnew createdAt .full input.phasePlan
    simp only [hinsert]
    exact ⟨_, _, _, _, rfl, hget⟩
  | some row =>
    obtain ⟨store, hinsert, hget⟩ :=
      insert_consumed hquiet hnew createdAt (.tierSearch row.raidId) input.phasePlan
    simp only [hinsert]
    exact ⟨_, _, _, _, rfl, hget⟩

theorem reserve_eq_insert {input : ReserveInput} {id : ℕ} {createdAt : Instant}
    (hdue : t.dueTimes input.now input.key ≠ []) :
    reserve collation t input id createdAt =
      reserve.insertReservation t input id createdAt
        (t.loadCompletedEvidenceSelection input.key)
        ((rankedContinuations collation t input.key).find? (fun row => row.dueAt ≤ input.now)) := by
  unfold reserve
  cases hcompleted : t.loadCompletedEvidenceSelection input.key with
  | none => rfl
  | some selection =>
    refine if_neg fun hfresh => ?_
    simp only [Bool.and_eq_true, Option.isNone_iff_eq_none] at hfresh
    obtain ⟨⟨hfresh, hunasked⟩, hnone⟩ := hfresh
    obtain ⟨due, hin⟩ := exists_mem_of_ne_nil _ hdue
    unfold Tables.dueTimes at hin
    rcases mem_append.mp hin with hin | hin
    · rcases mem_append.mp hin with hin | hin
      · rw [not_isFresh_of_publicationDue (ne_nil_of_mem hin) hcompleted] at hfresh
        cases hfresh
      · obtain ⟨raidId, hraid, hwalk⟩ := mem_flatMap.mp hin
        have hsome := exists_continuation collation hraid (ne_nil_of_mem hwalk)
        rw [hnone] at hsome
        cases hsome
    · rw [hunasked] at hin
      cases hin

/-- A character the sweep lists is reserved a run at that instant, whatever freshness is
asked for; and while the run is under way the sweep does not list the character again. -/
theorem reserve_of_listed (collation : String → String → Ordering) {t : Tables} {now : Instant}
    {limit : ℕ} {keys : List CharacterKey} (hlisting : t.IsListing now limit keys)
    {input : ReserveInput} (hkey : input.key ∈ keys) (hnow : input.now = now) {id : ℕ}
    (hnew : t.store.runs.has id = false) (createdAt : Instant) :
    ∃ light completed current t',
      reserve collation t input id createdAt = (.ok (.reserved id light completed current), t') ∧
      (∃ run, t'.store.runs.get? id = some run ∧ run.key = input.key ∧ run.isActive = true) ∧
      ∀ later limit' keys', t'.IsListing later limit' keys' → input.key ∉ keys' := by
  obtain ⟨all, -, hall, -, rfl⟩ := hlisting
  obtain ⟨hdue, hquiet⟩ := (hall input.key).mp (mem_of_mem_take hkey)
  rw [← hnow] at hdue
  rw [reserve_eq_insert collation hdue]
  obtain ⟨light, current, t', mode, hreserved, hrun⟩ := insertReservation_of_quiet
    createdAt hquiet hnew (t.loadCompletedEvidenceSelection input.key)
    ((rankedContinuations collation t input.key).find? (fun row => row.dueAt ≤ input.now))
  refine ⟨light, _, current, t', hreserved, ⟨_, hrun, rfl, rfl⟩, ?_⟩
  intro later limit' keys' hlater hin
  obtain ⟨all', -, hall', -, rfl⟩ := hlater
  obtain ⟨-, hquiet'⟩ := (hall' input.key).mp (mem_of_mem_take hin)
  unfold Store.hasActive at hquiet'
  rw [any_eq_false] at hquiet'
  refine hquiet' _ ((OrderedMap.mem_values_iff _ _).mpr ⟨id, hrun⟩) ?_
  exact decide_eq_true ⟨rfl, rfl⟩

def askedKey : CharacterKey := ⟨.eu, "draenor", "al"⟩

/-- A full run that was stopped, with a retry. -/
def stoppedRun : EvidenceRun :=
  { Store.queuedRun 500 askedKey .full with
    status := .partial_
    retryAfterAt := some 1000
    completedAt := some 900 }

def oneStopped : Tables where
  store := { Store.empty with runs := .ofList [(1, stoppedRun)] }
  evidenceVersions := fun _ => CURRENT_EVIDENCE_VERSION
  aliasRecollections := fun _ => none

theorem isListing_oneStopped : oneStopped.IsListing 2000 1 [askedKey] := by
  refine ⟨[askedKey], nodup_singleton _, fun key => ?_, pairwise_singleton _ _, rfl⟩
  rw [mem_singleton]
  constructor
  · rintro rfl
    exact ⟨by decide +kernel, by decide +kernel⟩
  · intro hresumable
    by_contra hne
    refine hresumable.1 ?_
    have hother : Tables.isPublished key stoppedRun = false :=
      Bool.and_eq_false_imp.mpr fun hkey => absurd (of_decide_eq_true hkey).symm hne
    have hfull : oneStopped.latestFull key = none := by
      have hnone : [(1, stoppedRun)].filter (fun entry =>
          Tables.isPublished key entry.2 && entry.2.publicationScope = .full) = [] := by
        simp only [filter_cons, hother, Bool.false_and, Bool.false_eq_true, if_false,
          filter_nil]
      exact congrArg (List.argmax Store.completedOrder) hnone
    have hraids : oneStopped.searchedRaids key = [] := by
      have hnone : [stoppedRun].filter (Tables.isPublished key) = [] := by
        simp only [filter_cons, hother, Bool.false_eq_true, if_false, filter_nil]
      exact congrArg (fun runs : List EvidenceRun =>
        (runs.filterMap fun run => run.mode.tierSearchRaidId).eraseDups) hnone
    unfold Tables.dueTimes Tables.publicationDue
    rw [hfull, hraids]
    rfl

/-- The run is newer than the cutoff, and only its retry makes it due. -/
theorem reserve_of_listed_stopped : ∃ light completed current t',
    reserve compare oneStopped ⟨askedKey, 0, 2000, [], true, none⟩ 2 2000 =
      (.ok (.reserved 2 light completed current), t') ∧
    (∃ run, t'.store.runs.get? 2 = some run ∧ run.key = askedKey ∧ run.isActive = true) ∧
    ∀ later limit' keys', t'.IsListing later limit' keys' → askedKey ∉ keys' :=
  reserve_of_listed compare isListing_oneStopped (mem_singleton_self _) rfl rfl 2000

end SlashWho.EvidenceReservations
