import Mathlib.Data.List.Perm.Basic
import SlashWho.ApplicantIntents

/-!
How often the drain dispatches one applicant. The look for an earlier intent of
the same time and character goes only one way along the sequence, and passes
over suppressed intents, so a second intent is dispatched where a later one was
charged before it. Where no admission meets such rows, every dispatch keeps a
charged row of its own. The budget, and the single charge of each intent, hold
in every run.
-/

namespace SlashWho.ApplicantIntents

open List

variable (sequence : ℕ)

@[simp] theorem updateIntent_cons (change : Intent → Intent) (row : Intent) (rest : List Intent) :
    updateIntent sequence change (row :: rest) =
      (if row.sequence = sequence then change row else row) ::
        updateIntent sequence change rest := rfl

theorem map_updateIntent {β : Type*} (read : Intent → β) (change : Intent → Intent)
    (hread : ∀ row, read (change row) = read row) (sequence : ℕ) (intents : List Intent) :
    (updateIntent sequence change intents).map read = intents.map read := by
  unfold updateIntent
  rw [map_map]
  apply map_congr_left
  intro row _
  rw [Function.comp_apply]
  split
  · exact hread row
  · rfl

theorem map_updateClaimed {β : Type*} (read : Intent → β) (change : Intent → Intent)
    (hread : ∀ row, read (change row) = read row) (sequence : ℕ) (intents : List Intent) :
    (updateClaimed sequence change intents).map read = intents.map read := by
  apply map_updateIntent
  intro row
  split
  · exact hread row
  · rfl

theorem updateIntent_of_absent {sequence : ℕ} {intents : List Intent}
    (h : sequence ∉ intents.map Intent.sequence) (change : Intent → Intent) :
    updateIntent sequence change intents = intents := by
  induction intents with
  | nil => rfl
  | cons row rest ih =>
    rw [map_cons, mem_cons, not_or] at h
    rw [updateIntent_cons, if_neg (Ne.symm h.1), ih h.2]

theorem findIntent_cons (row : Intent) (rest : List Intent) :
    findIntent sequence (row :: rest) =
      if row.sequence = sequence then some row else findIntent sequence rest := by
  unfold findIntent
  by_cases h : row.sequence = sequence <;> simp [h]

def chargedOf (intents : List Intent) : List (ℕ × ℤ) :=
  intents.filterMap (fun row => row.chargedAt.map (fun t => (row.sequence, t)))

theorem chargedOf_map (intents : List Intent) :
    chargedOf intents = (intents.map (fun row => (row.sequence, row.chargedAt))).filterMap
      (fun entry => entry.2.map (fun t => (entry.1, t))) := by
  unfold chargedOf
  rw [filterMap_map]
  rfl

theorem chargedOf_congr {intents intents' : List Intent}
    (h : intents.map (fun row => (row.sequence, row.chargedAt)) =
      intents'.map (fun row => (row.sequence, row.chargedAt))) :
    chargedOf intents = chargedOf intents' := by
  rw [chargedOf_map, chargedOf_map, h]

theorem spentToday_eq (now : ℤ) (intents : List Intent) :
    spentToday now intents = (chargedOf intents).countP (fun entry => dayStart now ≤ entry.2) := by
  unfold spentToday chargedOf
  induction intents with
  | nil => rfl
  | cons row rest ih =>
    rw [countP_cons, ih]
    cases hcharged : row.chargedAt with
    | none => simp [hcharged]
    | some t => simp [hcharged, countP_cons]

/-- The update of a granted admission. -/
def chargeRow (now : ℤ) (canonicalIdentity : String) (row : Intent) : Intent :=
  { row with
    canonicalIdentity := some canonicalIdentity
    chargedAt := row.chargedAt <|> some now }

theorem chargedOf_chargeRow {intents : List Intent}
    (hnodup : (intents.map Intent.sequence).Nodup) (sequence : ℕ) (now : ℤ)
    (canonicalIdentity : String) :
    (chargedOf (updateClaimed sequence (chargeRow now canonicalIdentity) intents)).Perm
      (if isClaimed sequence intents && isUncharged sequence intents then
        (sequence, now) :: chargedOf intents
      else chargedOf intents) := by
  induction intents with
  | nil => simp [isClaimed, findIntent, updateClaimed, updateIntent, chargedOf]
  | cons row rest ih =>
    rw [map_cons, nodup_cons] at hnodup
    have hrow : ∀ row : Intent, ∀ rest, chargedOf (row :: rest) =
        (row.chargedAt.map (fun t => (row.sequence, t))).toList ++ chargedOf rest := by
      intro row rest
      unfold chargedOf
      cases hcharged : row.chargedAt <;> simp [hcharged]
    unfold updateClaimed at ih ⊢
    rw [updateIntent_cons, hrow, hrow row rest]
    unfold isClaimed isUncharged at ih ⊢
    rw [findIntent_cons]
    by_cases hsequence : row.sequence = sequence
    · subst hsequence
      rw [if_pos rfl, if_pos rfl, updateIntent_of_absent hnodup.1]
      by_cases hclaimed : row.state = .claimed
      · rw [if_pos hclaimed]
        cases hcharged : row.chargedAt with
        | none => simp [chargeRow, hclaimed, hcharged]
        | some t => simp [chargeRow, hcharged]
      · rw [if_neg hclaimed]
        simp [hclaimed]
    · rw [if_neg hsequence, if_neg hsequence]
      have hrest := ih hnodup.2
      split at hrest
      · next hcond =>
        rw [if_pos hcond]
        refine (hrest.append_left _).trans ?_
        exact perm_middle
      · next hcond =>
        rw [if_neg hcond]
        exact hrest.append_left _

variable {perDay : ℕ} {drain : Drain}

/-- What every run keeps: the numbering, the charges and the record of what was done. -/
structure Recorded (perDay : ℕ) (drain : Drain) : Prop where
  nodup : (drain.intents.map Intent.sequence).Nodup
  below : ∀ n ∈ drain.intents.map Intent.sequence, n < drain.nextSequence
  charges : drain.charges.Perm (chargedOf drain.intents)
  perDay : ∀ day, drain.charges.countP (fun entry => dayStart entry.2 = day) ≤ perDay
  task : ∀ worker intent canonicalIdentity,
    drain.workers worker = some (.admitted intent canonicalIdentity) →
      dispatchOf intent canonicalIdentity ∈ drain.dispatches
  settled : ∀ settlement ∈ drain.settlements, settlement.asDuplicate = false →
    settlement.toDispatch ∈ drain.dispatches

variable {intents : List Intent}

theorem Recorded.withIntents (h : Recorded perDay drain)
    (hrows : intents.map (fun row => (row.sequence, row.chargedAt)) =
      drain.intents.map (fun row => (row.sequence, row.chargedAt))) :
    Recorded perDay { drain with intents := intents } := by
  have hsequences : intents.map Intent.sequence = drain.intents.map Intent.sequence := by
    have hfst := congrArg (List.map Prod.fst) hrows
    rw [map_map, map_map] at hfst
    exact hfst
  refine ⟨?_, ?_, ?_, h.perDay, h.task, h.settled⟩
  · rw [hsequences]
    exact h.nodup
  · rw [hsequences]
    exact h.below
  · rw [chargedOf_congr hrows]
    exact h.charges

theorem setTask_some {workers : ℕ → Option Task} {worker other : ℕ} {task : Option Task}
    {found : Task} (h : setTask workers worker task other = some found) :
    task = some found ∨ workers other = some found := by
  unfold setTask at h
  split at h
  · exact .inl h
  · exact .inr h

theorem Recorded.withTask (h : Recorded perDay drain) (worker : ℕ) {task : Option Task}
    (htask : ∀ intent canonicalIdentity, task ≠ some (.admitted intent canonicalIdentity)) :
    Recorded perDay { drain with workers := setTask drain.workers worker task } := by
  refine ⟨h.nodup, h.below, h.charges, h.perDay, ?_, h.settled⟩
  intro other intent canonicalIdentity hother
  rcases setTask_some hother with hnew | hold
  · exact absurd hnew (htask intent canonicalIdentity)
  · exact h.task other intent canonicalIdentity hold

theorem Recorded.withSettlement (h : Recorded perDay drain) {settlement : Settlement}
    (hsettlement : settlement.asDuplicate = false → settlement.toDispatch ∈ drain.dispatches)
    (condition : Bool) :
    Recorded perDay { drain with
      settlements := if condition then settlement :: drain.settlements
        else drain.settlements } := by
  refine ⟨h.nodup, h.below, h.charges, h.perDay, h.task, ?_⟩
  intro other hother
  cases condition with
  | false => exact h.settled other hother
  | true =>
    rcases mem_cons.mp hother with hsame | hold
    · rw [hsame]
      exact hsettlement
    · exact h.settled other hold

theorem Recorded.recordIntent (h : Recorded perDay drain) (skipped : ℕ) (identity : String)
    (observedAt : ℤ) (suppressed : Bool) :
    Recorded perDay (recordIntent drain skipped identity observedAt suppressed) := by
  unfold ApplicantIntents.recordIntent
  refine ⟨?_, ?_, ?_, h.perDay, h.task, h.settled⟩
  · rw [map_append, nodup_append]
    refine ⟨h.nodup, pairwise_singleton _ _, ?_⟩
    intro n hn m hm
    have hlt := h.below n hn
    rw [map_singleton, mem_singleton] at hm
    simp only at hm
    omega
  · intro n hn
    rw [map_append, mem_append, map_singleton, mem_singleton] at hn
    rcases hn with hn | hn
    · have hlt := h.below n hn
      change n < drain.nextSequence + skipped + 1
      omega
    · change n < drain.nextSequence + skipped + 1
      simp only at hn
      omega
  · have hnew : chargedOf (drain.intents ++ [{
        sequence := drain.nextSequence + skipped
        identity := identity
        canonicalIdentity := none
        observedAt := observedAt
        state := if suppressed then .suppressed else .pending
        claimedUntil := none
        claimedAt := none
        chargedAt := none
        attempts := 0
        retryAfter := none }]) = chargedOf drain.intents := by
      unfold chargedOf
      rw [filterMap_append]
      exact append_nil _
    simp only [hnew]
    exact h.charges

theorem map_claimNext (now : ℤ) (locked : ℕ → Bool) (intents : List Intent) :
    (claimNext now locked intents).2.map (fun row => (row.sequence, row.chargedAt)) =
      intents.map (fun row => (row.sequence, row.chargedAt)) := by
  unfold claimNext
  split
  · rfl
  · apply map_updateIntent
    intro row
    rfl

variable {now : ℤ}

theorem Recorded.withCharge (h : Recorded perDay drain) {sequence : ℕ}
    (hbudget : isUncharged sequence drain.intents = true →
      spentToday now drain.intents < perDay) (canonicalIdentity : String) :
    Recorded perDay { drain with
      intents := updateClaimed sequence (chargeRow now canonicalIdentity) drain.intents
      charges :=
        if isClaimed sequence drain.intents && isUncharged sequence drain.intents then
          (sequence, now) :: drain.charges
        else drain.charges } := by
  have hsequences := map_updateClaimed Intent.sequence (chargeRow now canonicalIdentity)
    (fun _ => rfl) sequence drain.intents
  have hcharged := chargedOf_chargeRow h.nodup sequence now canonicalIdentity
  refine ⟨?_, ?_, ?_, ?_, h.task, h.settled⟩
  · simp only [hsequences]
    exact h.nodup
  · simp only [hsequences]
    exact h.below
  · refine List.Perm.trans ?_ hcharged.symm
    split
    · exact h.charges.cons _
    · exact h.charges
  · intro day
    by_cases hcond : (isClaimed sequence drain.intents &&
        isUncharged sequence drain.intents) = true
    · simp only [hcond, if_true]
      rw [countP_cons]
      have hbefore := h.perDay day
      by_cases hday : dayStart now = day
      · have hspent := hbudget (Bool.and_eq_true_iff.mp hcond).2
        rw [spentToday_eq, ← h.charges.countP_eq] at hspent
        have hle : drain.charges.countP (fun entry => dayStart entry.2 = day) ≤
            drain.charges.countP (fun entry => dayStart now ≤ entry.2) := by
          apply countP_mono_left
          intro entry _ hentry
          have hmod := Int.emod_nonneg entry.2 (b := ApplicantIntents.day) (by decide)
          rw [decide_eq_true_eq] at hentry ⊢
          unfold dayStart at hentry hday ⊢
          omega
        rw [if_pos (by simpa using hday)]
        omega
      · rw [if_neg (by simpa using hday)]
        omega
    · simp only [hcond]
      exact h.perDay day

variable {intent : IntentRow} {canonicalIdentity : String}

theorem map_admit_refused (perDay : ℕ)
    (h : (admitCanonicalIntent now intent canonicalIdentity perDay intents).1 ≠ .admitted) :
    (admitCanonicalIntent now intent canonicalIdentity perDay intents).2.map
        (fun row => (row.sequence, row.chargedAt)) =
      intents.map (fun row => (row.sequence, row.chargedAt)) := by
  unfold admitCanonicalIntent at h ⊢
  split
  · split
    · apply map_updateClaimed
      intro row
      rfl
    · apply map_updateClaimed
      intro row
      rfl
  · split
    · apply map_updateClaimed
      intro row
      rfl
    · next hearlier hbudget =>
      rw [hearlier] at h
      simp only [hbudget] at h
      exact absurd rfl h

/-- An admission is granted where no earlier intent stands and the intent is
charged already or the day has budget left. -/
theorem admitted_iff :
    (admitCanonicalIntent now intent canonicalIdentity perDay intents).1 = .admitted ↔
      (∀ row ∈ intents, isEarlier intent canonicalIdentity row = false) ∧
        (isUncharged intent.sequence intents = true → spentToday now intents < perDay) := by
  unfold admitCanonicalIntent earlierIntent
  cases hearlier : (intents.filter (isEarlier intent canonicalIdentity)).argmin
      Intent.sequence with
  | some earlier =>
    have hmem := mem_filter.mp (argmin_mem hearlier)
    have hleft : ∀ P : Prop, ¬ ((∀ row ∈ intents,
        isEarlier intent canonicalIdentity row = false) ∧ P) := by
      intro P hall
      have hnot := hall.1 earlier hmem.1
      rw [hmem.2] at hnot
      exact absurd hnot (by decide)
    simp only [hleft, iff_false]
    split <;> simp
  | none =>
    have hnone := filter_eq_nil_iff.mp (argmin_eq_none.mp hearlier)
    have hall : ∀ row ∈ intents, isEarlier intent canonicalIdentity row = false := by
      intro row hrow
      simpa using hnone row hrow
    simp only
    cases isUncharged intent.sequence intents with
    | false =>
      simp only [Bool.false_and, Bool.false_eq_true, if_false, false_implies, and_true, true_iff]
      exact hall
    | true =>
      by_cases hbudget : perDay ≤ spentToday now intents
      · simp [hbudget, Nat.not_lt.mpr hbudget]
      · simp only [hbudget, decide_false, Bool.and_false, Bool.false_eq_true, if_false,
          true_implies, true_iff]
        exact ⟨hall, Nat.lt_of_not_le hbudget⟩

theorem admitted_intents
    (h : (admitCanonicalIntent now intent canonicalIdentity perDay intents).1 = .admitted) :
    (admitCanonicalIntent now intent canonicalIdentity perDay intents).2 =
      updateClaimed intent.sequence (chargeRow now canonicalIdentity) intents := by
  unfold admitCanonicalIntent at h ⊢
  split
  · next earlier hearlier =>
    rw [hearlier] at h
    simp only at h
    split at h <;> cases h
  · next hearlier =>
    rw [hearlier] at h
    simp only at h
    split
    · next hbudget =>
      rw [if_pos hbudget] at h
      cases h
    · rfl

theorem recorded_admitTask (h : Recorded perDay drain) (worker : ℕ) (now : ℤ)
    (intent : IntentRow) (canonicalIdentity : String) :
    Recorded perDay (admitTask perDay drain worker now intent canonicalIdentity) := by
  unfold admitTask
  simp only
  have hidle : ∀ intent canonicalIdentity,
      (none : Option Task) ≠ some (.admitted intent canonicalIdentity) := by
    intro intent canonicalIdentity hnone
    cases hnone
  cases hadmission : (admitCanonicalIntent now intent canonicalIdentity perDay
      drain.intents).1 with
  | admitted =>
    have hbudget := (admitted_iff.mp hadmission).2
    have hcharge := h.withCharge hbudget canonicalIdentity
    simp only [admitted_intents hadmission]
    refine ⟨hcharge.nodup, hcharge.below, hcharge.charges, hcharge.perDay, ?_, ?_⟩
    · intro other found canonical hother
      rcases setTask_some hother with hnew | hold
      · cases hnew
        exact mem_cons_self
      · exact mem_cons_of_mem _ (h.task other found canonical hold)
    · intro settlement hsettlement hdispatched
      exact mem_cons_of_mem _ (h.settled settlement hsettlement hdispatched)
  | duplicate =>
    have hrows := map_admit_refused perDay (by rw [hadmission]; decide)
    exact ((h.withIntents hrows).withTask worker hidle).withSettlement
      (fun hfalse => absurd hfalse Bool.true_eq_false_eq_False) _
  | wait =>
    have hrows := map_admit_refused perDay (by rw [hadmission]; decide)
    exact (h.withIntents hrows).withTask worker hidle
  | dailyLimit =>
    have hrows := map_admit_refused perDay (by rw [hadmission]; decide)
    exact (h.withIntents hrows).withTask worker hidle

theorem recorded_step (h : Recorded perDay drain) (action : Action) :
    Recorded perDay (step perDay drain action) := by
  have hidle : ∀ intent canonicalIdentity,
      (none : Option Task) ≠ some (.admitted intent canonicalIdentity) := by
    intro intent canonicalIdentity hnone
    cases hnone
  cases action with
  | record skipped identity observedAt suppressed =>
    exact h.recordIntent skipped identity observedAt suppressed
  | claim worker now locked =>
    unfold step
    simp only
    split
    · next intent intents _ hclaim =>
      have hrows := map_claimNext now locked drain.intents
      rw [hclaim] at hrows
      exact (h.withIntents hrows).withTask worker
        (fun intent canonicalIdentity hsome => by cases hsome)
    · exact h
  | admitIntent worker now canonicalIdentity =>
    unfold step
    simp only
    split
    · exact recorded_admitTask h worker now _ canonicalIdentity
    · exact h
  | settle worker settled =>
    unfold step
    simp only
    split
    · next intent canonicalIdentity htask =>
      have hrows : (settle intent settled drain.intents).map
          (fun row => (row.sequence, row.chargedAt)) = drain.intents.map
          (fun row => (row.sequence, row.chargedAt)) := by
        apply map_updateClaimed
        intro row
        rfl
      exact ((h.withIntents hrows).withTask worker hidle).withSettlement
        (fun _ => h.task worker intent canonicalIdentity htask) _
    · exact h
  | putBack worker now =>
    unfold step
    simp only
    split
    · next task _ =>
      have hrows : (putBack now task.intent drain.intents).map
          (fun row => (row.sequence, row.chargedAt)) = drain.intents.map
          (fun row => (row.sequence, row.chargedAt)) := by
        apply map_updateClaimed
        intro row
        rfl
      exact (h.withIntents hrows).withTask worker hidle
    · exact h
  | crash worker => exact h.withTask worker hidle

theorem recorded_start : Recorded perDay .start := by
  refine ⟨nodup_nil, ?_, List.Perm.nil, ?_, ?_, ?_⟩ <;> simp [Drain.start]

variable (perDay : ℕ)

/-- One applicant is dispatched through one intent, and the budget is kept. -/
structure DispatchesOnce (drain : Drain) : Prop where
  /-- The dispatches of one time and character are of one intent. -/
  one_intent : ∀ a ∈ drain.dispatches, ∀ b ∈ drain.dispatches, a.observedAt = b.observedAt →
    a.canonicalIdentity = b.canonicalIdentity → a.sequence = b.sequence
  /-- The others of that time and character are settled as its duplicates. -/
  others_duplicate : ∀ settlement ∈ drain.settlements, ∀ a ∈ drain.dispatches,
    settlement.observedAt = a.observedAt →
      settlement.canonicalIdentity = a.canonicalIdentity →
        settlement.sequence ≠ a.sequence → settlement.asDuplicate = true
  charged_once : (drain.charges.map Prod.fst).Nodup
  within_day : ∀ day, drain.charges.countP (fun entry => dayStart entry.2 = day) ≤ perDay

/-- The admission of a claimed intent meets rows it can tell its own from. Once
charged, the intent stands for the character it resolves to now; and an earlier
intent of its time and character stands, or it is uncharged on a day whose budget
is spent, or its claim or its charge stands and no other intent of its time and
character is charged. -/
def FindsOwn (drain : Drain) : Action → Prop
  | .admitIntent worker now canonicalIdentity =>
    ∀ task ∈ drain.workers worker, task = .claimed task.intent →
      ∀ row ∈ drain.intents, row.sequence = task.intent.sequence →
        (row.chargedAt ≠ none → row.canonicalIdentity = some canonicalIdentity) ∧
        ((∃ earlier ∈ drain.intents, earlier.observedAt = task.intent.observedAt ∧
            earlier.canonicalIdentity = some canonicalIdentity ∧
            earlier.sequence < row.sequence ∧ earlier.state ≠ .suppressed) ∨
          (isUncharged row.sequence drain.intents = true ∧
            perDay ≤ spentToday now drain.intents) ∨
          ((row.state = .claimed ∨ row.chargedAt ≠ none) ∧
            ∀ other ∈ drain.intents, other.observedAt = task.intent.observedAt →
              other.canonicalIdentity = some canonicalIdentity → other.chargedAt ≠ none →
                other.sequence = row.sequence))
  | _ => True

instance (drain : Drain) : DecidablePred (FindsOwn perDay drain)
  | .admitIntent .. => by
    dsimp only [FindsOwn]
    refine @Option.decidableForallMem _ _ (fun task => @forall_prop_decidable _ _ _ fun _ => ?_) _
    refine @List.decidableBAll _ _ (fun row => @forall_prop_decidable _ _ _ fun _ => ?_) _
    infer_instance
  | .record .. | .claim .. | .settle .. | .putBack .. | .crash .. => isTrue trivial

variable {perDay}

theorem isEarlier_iff {intent : IntentRow} {canonicalIdentity : String} {row : Intent} :
    isEarlier intent canonicalIdentity row = true ↔
      row.observedAt = intent.observedAt ∧ row.canonicalIdentity = some canonicalIdentity ∧
        row.sequence < intent.sequence ∧ row.state ≠ .suppressed := by
  unfold isEarlier
  cases hstate : row.state <;> simp [IntentState.isLive, and_assoc]

theorem charged_once_of_recorded (h : Recorded perDay drain) :
    (drain.charges.map Prod.fst).Nodup := by
  have hperm := h.charges.map Prod.fst
  refine hperm.nodup_iff.mpr ?_
  have hsublist : List.Sublist ((chargedOf drain.intents).map Prod.fst)
      (drain.intents.map Intent.sequence) := by
    unfold chargedOf
    induction drain.intents with
    | nil => exact List.Sublist.slnil
    | cons row rest ih =>
      cases hcharged : row.chargedAt with
      | none =>
        rw [filterMap_cons_none (by rw [hcharged]; rfl), map_cons]
        exact ih.cons _
      | some t =>
        rw [filterMap_cons_some (by rw [hcharged]; rfl), map_cons, map_cons]
        exact ih.cons_cons _
  exact h.nodup.sublist hsublist

theorem dispatchesOnce_of_recorded (h : Recorded perDay drain)
    (hone : ∀ a ∈ drain.dispatches, ∀ b ∈ drain.dispatches, a.observedAt = b.observedAt →
      a.canonicalIdentity = b.canonicalIdentity → a.sequence = b.sequence) :
    DispatchesOnce perDay drain := by
  refine ⟨hone, ?_, charged_once_of_recorded h, h.perDay⟩
  intro settlement hsettlement a ha htime hcharacter hne
  by_contra hdispatched
  rw [Bool.not_eq_true] at hdispatched
  have hmem := h.settled settlement hsettlement hdispatched
  exact hne (hone _ hmem a ha htime hcharacter)

theorem dispatches_step (perDay : ℕ) (drain : Drain) (action : Action) :
    (step perDay drain action).dispatches = drain.dispatches ∨
      ∃ worker now canonicalIdentity intent,
        action = .admitIntent worker now canonicalIdentity ∧
        drain.workers worker = some (.claimed intent) ∧
        (admitCanonicalIntent now intent canonicalIdentity perDay drain.intents).1 = .admitted ∧
        (step perDay drain action).dispatches =
          dispatchOf intent canonicalIdentity :: drain.dispatches := by
  cases action with
  | record skipped identity observedAt suppressed => exact .inl rfl
  | claim worker now locked =>
    left
    unfold step
    simp only
    split <;> rfl
  | admitIntent worker now canonicalIdentity =>
    cases htask : drain.workers worker with
    | none =>
      left
      unfold step
      simp only [htask]
    | some task =>
      cases task with
      | admitted intent canonical =>
        left
        unfold step
        simp only [htask]
      | claimed intent =>
        cases hadmission : (admitCanonicalIntent now intent canonicalIdentity perDay
            drain.intents).1 with
        | admitted =>
          right
          refine ⟨worker, now, canonicalIdentity, intent, rfl, htask, hadmission, ?_⟩
          unfold step admitTask
          simp only [htask, hadmission]
        | duplicate =>
          left
          unfold step admitTask
          simp only [htask, hadmission]
        | wait =>
          left
          unfold step admitTask
          simp only [htask, hadmission]
        | dailyLimit =>
          left
          unfold step admitTask
          simp only [htask, hadmission]
  | settle worker settled =>
    left
    unfold step
    simp only
    split <;> rfl
  | putBack worker now =>
    left
    unfold step
    simp only
    split <;> rfl
  | crash worker => exact .inl rfl

/-! What a run keeps of its rows. -/

/-- The row is there still, and stands for what it was charged for. -/
def RowKept (intents : List Intent) (row : Intent) : Prop :=
  ∃ row' ∈ intents, row'.sequence = row.sequence ∧ row'.observedAt = row.observedAt ∧
    (row.chargedAt ≠ none → row'.chargedAt ≠ none ∧
      row'.canonicalIdentity = row.canonicalIdentity)

variable {sequence : ℕ} {change : Intent → Intent} {row : Intent}

theorem rowKept_of_mem (h : row ∈ intents) : RowKept intents row :=
  ⟨row, h, rfl, rfl, fun hcharged => ⟨hcharged, rfl⟩⟩

/-- What the update of a worker may do to its row, its character and state apart. -/
structure Keeps (change : Intent → Intent) : Prop where
  sequence : ∀ row, (change row).sequence = row.sequence
  observedAt : ∀ row, (change row).observedAt = row.observedAt
  attempts : ∀ row, (change row).attempts = row.attempts
  charged : ∀ row : Intent, row.chargedAt ≠ none → (change row).chargedAt ≠ none

theorem rowKept_updateClaimed (h : row ∈ intents) (hkeeps : Keeps change)
    (hchange : row.sequence = sequence → row.chargedAt ≠ none →
      (change row).canonicalIdentity = row.canonicalIdentity) :
    RowKept (updateClaimed sequence change intents) row := by
  refine ⟨_, mem_map_of_mem h, ?_⟩
  dsimp only
  split
  · next hsequence =>
    split
    · exact ⟨hkeeps.sequence row, hkeeps.observedAt row,
        fun hcharged => ⟨hkeeps.charged row hcharged, hchange hsequence hcharged⟩⟩
    · exact ⟨rfl, rfl, fun hcharged => ⟨hcharged, rfl⟩⟩
  · exact ⟨rfl, rfl, fun hcharged => ⟨hcharged, rfl⟩⟩

theorem admit_update (perDay : ℕ) (now : ℤ) (intent : IntentRow) (canonicalIdentity : String)
    (intents : List Intent) :
    ∃ change, Keeps change ∧
      (admitCanonicalIntent now intent canonicalIdentity perDay intents).2 =
        updateClaimed intent.sequence change intents ∧
      (∀ row, (change row).canonicalIdentity = some canonicalIdentity) ∧
      ((admitCanonicalIntent now intent canonicalIdentity perDay intents).1 = .admitted →
        ∀ row, (change row).state = row.state) ∧
      ((admitCanonicalIntent now intent canonicalIdentity perDay intents).1 ≠ .admitted →
        ∀ row, (change row).state ≠ .claimed) := by
  unfold admitCanonicalIntent
  split
  · split
    · refine ⟨_, ?_, rfl, ?_, ?_, ?_⟩
      · exact ⟨fun _ => rfl, fun _ => rfl, fun _ => rfl, fun _ => id⟩
      · exact fun _ => rfl
      · simp
      · simp
    · refine ⟨_, ?_, rfl, ?_, ?_, ?_⟩
      · exact ⟨fun _ => rfl, fun _ => rfl, fun _ => rfl, fun _ => id⟩
      · exact fun _ => rfl
      · simp
      · simp
  · split
    · refine ⟨_, ?_, rfl, ?_, ?_, ?_⟩
      · exact ⟨fun _ => rfl, fun _ => rfl, fun _ => rfl, fun _ => id⟩
      · exact fun _ => rfl
      · simp
      · simp
    · refine ⟨_, ?_, rfl, ?_, ?_, ?_⟩
      · refine ⟨fun _ => rfl, fun _ => rfl, fun _ => rfl, fun row hcharged => ?_⟩
        dsimp only
        cases hrow : row.chargedAt with
        | none => exact absurd hrow hcharged
        | some t => simp
      · exact fun _ => rfl
      · simp
      · simp

theorem admitTask_intents (perDay : ℕ) (drain : Drain) (worker : ℕ) (now : ℤ) (intent : IntentRow)
    (canonicalIdentity : String) :
    (admitTask perDay drain worker now intent canonicalIdentity).intents =
      (admitCanonicalIntent now intent canonicalIdentity perDay drain.intents).2 := by
  unfold admitTask
  simp only
  split <;> rfl

theorem rowKept_step {action : Action} (hfinds : FindsOwn perDay drain action)
    (hrow : row ∈ drain.intents) : RowKept (step perDay drain action).intents row := by
  cases action with
  | record skipped identity observedAt suppressed =>
    exact rowKept_of_mem (mem_append_left _ hrow)
  | claim worker now locked =>
    unfold step
    simp only
    split
    · next intent intents _ hclaim =>
      unfold claimNext at hclaim
      split at hclaim
      · cases hclaim
      · obtain ⟨-, rfl⟩ := Prod.mk.inj hclaim
        refine ⟨_, mem_map_of_mem hrow, ?_⟩
        dsimp only
        split <;> exact ⟨rfl, rfl, fun hcharged => ⟨hcharged, rfl⟩⟩
    · exact rowKept_of_mem hrow
  | admitIntent worker now canonicalIdentity =>
    unfold step
    simp only
    split
    · next intent htask =>
      obtain ⟨change, hkeeps, hintents, hcanonical, -⟩ :=
        admit_update perDay now intent canonicalIdentity drain.intents
      rw [admitTask_intents, hintents]
      apply rowKept_updateClaimed hrow hkeeps
      intro hsequence hcharged
      rw [hcanonical, (hfinds _ htask rfl row hrow hsequence).1 hcharged]
    · exact rowKept_of_mem hrow
  | settle worker settled =>
    unfold step
    simp only
    split
    · exact rowKept_updateClaimed hrow
        ⟨fun _ => rfl, fun _ => rfl, fun _ => rfl, fun _ => id⟩ (fun _ _ => rfl)
    · exact rowKept_of_mem hrow
  | putBack worker now =>
    unfold step
    simp only
    split
    · exact rowKept_updateClaimed hrow
        ⟨fun _ => rfl, fun _ => rfl, fun _ => rfl, fun _ => id⟩ (fun _ _ => rfl)
    · exact rowKept_of_mem hrow
  | crash worker => exact rowKept_of_mem hrow

theorem task_of_step {action : Action} {worker : ℕ} {task : Task}
    (h : (step perDay drain action).workers worker = some task) :
    (∃ old, drain.workers worker = some old ∧ old.intent = task.intent) ∨
      ∃ row ∈ drain.intents, rowOf row = task.intent := by
  have hset : ∀ {w : ℕ} {found : Option Task}, setTask drain.workers w found worker = some task →
      (∀ found', found = some found' → ∃ old, drain.workers w = some old ∧
        old.intent = found'.intent) →
      ∃ old, drain.workers worker = some old ∧ old.intent = task.intent := by
    intro w found hfound hold
    unfold setTask at hfound
    split at hfound
    · next hsame => exact hsame ▸ hold task hfound
    · exact ⟨task, hfound, rfl⟩
  cases action with
  | record skipped identity observedAt suppressed => exact .inl ⟨task, h, rfl⟩
  | claim w now locked =>
    unfold step at h
    simp only at h
    split at h
    · next intent intents _ hclaim =>
      unfold claimNext at hclaim
      split at hclaim
      · cases hclaim
      · next row hrow =>
        obtain ⟨hintent, -⟩ := Prod.mk.inj hclaim
        rcases setTask_some h with hnew | hold
        · obtain rfl := Option.some.inj hnew
          exact .inr ⟨row, (mem_filter.mp (argmin_mem hrow)).1,
            Option.some.inj hintent⟩
        · exact .inl ⟨task, hold, rfl⟩
    · exact .inl ⟨task, h, rfl⟩
  | admitIntent w now canonicalIdentity =>
    unfold step at h
    simp only at h
    split at h
    · next intent htask =>
      left
      unfold admitTask at h
      simp only at h
      split at h
      · refine hset h fun found hfound => ⟨_, htask, ?_⟩
        rw [← Option.some.inj hfound]
        rfl
      · exact hset h fun found hfound => by cases hfound
      · exact hset h fun found hfound => by cases hfound
      · exact hset h fun found hfound => by cases hfound
    · exact .inl ⟨task, h, rfl⟩
  | settle w settled =>
    unfold step at h
    simp only at h
    split at h
    · exact .inl (hset h fun found hfound => by cases hfound)
    · exact .inl ⟨task, h, rfl⟩
  | putBack w now =>
    unfold step at h
    simp only at h
    split at h
    · exact .inl (hset h fun found hfound => by cases hfound)
    · exact .inl ⟨task, h, rfl⟩
  | crash w => exact .inl (hset h fun found hfound => by cases hfound)

/-- Every intent at work has its row, and every dispatch a charged one of its character. -/
structure Booked (drain : Drain) : Prop where
  task : ∀ worker task, drain.workers worker = some task → ∃ row ∈ drain.intents,
    row.sequence = task.intent.sequence ∧ row.observedAt = task.intent.observedAt
  dispatch : ∀ a ∈ drain.dispatches, ∃ row ∈ drain.intents, row.sequence = a.sequence ∧
    row.observedAt = a.observedAt ∧ row.canonicalIdentity = some a.canonicalIdentity ∧
      row.chargedAt ≠ none

variable {worker : ℕ}

theorem granted_spec (hfinds : FindsOwn perDay drain (.admitIntent worker now canonicalIdentity))
    (htask : drain.workers worker = some (.claimed intent))
    (hadmitted : (admitCanonicalIntent now intent canonicalIdentity perDay drain.intents).1 =
      .admitted) (hrow : row ∈ drain.intents) (hsequence : row.sequence = intent.sequence) :
    (row.state = .claimed ∨ row.chargedAt ≠ none) ∧
      ∀ other ∈ drain.intents, other.observedAt = intent.observedAt →
        other.canonicalIdentity = some canonicalIdentity → other.chargedAt ≠ none →
          other.sequence = intent.sequence := by
  obtain ⟨hearlier, hbudget⟩ := admitted_iff.mp hadmitted
  have hmeets := (hfinds _ htask rfl row hrow hsequence).2
  rw [hsequence, show (Task.claimed intent).intent = intent from rfl] at hmeets
  rcases hmeets with hstands | hspent | hown
  · obtain ⟨earlier, hin, hstanding⟩ := hstands
    have hnot := hearlier earlier hin
    rw [isEarlier_iff.mpr hstanding] at hnot
    exact absurd hnot (by decide)
  · have hlt := hbudget hspent.1
    omega
  · exact hown

theorem charged_of_granted
    (hfinds : FindsOwn perDay drain (.admitIntent worker now canonicalIdentity))
    (htask : drain.workers worker = some (.claimed intent))
    (hadmitted : (admitCanonicalIntent now intent canonicalIdentity perDay drain.intents).1 =
      .admitted) (hrow : row ∈ drain.intents) (hsequence : row.sequence = intent.sequence) :
    ∃ row' ∈ updateClaimed intent.sequence (chargeRow now canonicalIdentity) drain.intents,
      row'.sequence = row.sequence ∧ row'.observedAt = row.observedAt ∧
        row'.canonicalIdentity = some canonicalIdentity ∧ row'.chargedAt ≠ none := by
  refine ⟨_, mem_map_of_mem hrow, ?_⟩
  rw [if_pos hsequence]
  dsimp only
  split
  · refine ⟨rfl, rfl, rfl, ?_⟩
    unfold chargeRow
    cases row.chargedAt <;> simp
  · next hstate =>
    have hcharged := (granted_spec hfinds htask hadmitted hrow hsequence).1.resolve_left hstate
    exact ⟨rfl, rfl, (hfinds _ htask rfl row hrow hsequence).1 hcharged, hcharged⟩

theorem booked_step (h : Booked drain) {action : Action} (hfinds : FindsOwn perDay drain action) :
    Booked (step perDay drain action) where
  task := by
    intro worker task htask
    have hold : ∃ row ∈ drain.intents, row.sequence = task.intent.sequence ∧
        row.observedAt = task.intent.observedAt := by
      rcases task_of_step htask with ⟨old, hbefore, hsame⟩ | ⟨row, hrow, hsame⟩
      · rw [← hsame]
        exact h.task worker old hbefore
      · rw [← hsame]
        exact ⟨row, hrow, rfl, rfl⟩
    obtain ⟨row, hrow, hsequence, htime⟩ := hold
    obtain ⟨row', hrow', hsequence', htime', -⟩ := rowKept_step hfinds hrow
    exact ⟨row', hrow', hsequence'.trans hsequence, htime'.trans htime⟩
  dispatch := by
    have hkept : ∀ a ∈ drain.dispatches, ∃ row ∈ (step perDay drain action).intents,
        row.sequence = a.sequence ∧ row.observedAt = a.observedAt ∧
          row.canonicalIdentity = some a.canonicalIdentity ∧ row.chargedAt ≠ none := by
      intro a ha
      obtain ⟨row, hrow, hsequence, htime, hcanonical, hcharged⟩ := h.dispatch a ha
      obtain ⟨row', hrow', hsequence', htime', hcharge⟩ := rowKept_step hfinds hrow
      obtain ⟨hcharged', hcanonical'⟩ := hcharge hcharged
      exact ⟨row', hrow', hsequence'.trans hsequence, htime'.trans htime,
        hcanonical'.trans hcanonical, hcharged'⟩
    rcases dispatches_step perDay drain action with hsame | hnew
    · rw [hsame]
      exact hkept
    · obtain ⟨worker, now, canonicalIdentity, intent, rfl, htask, hadmitted, hdispatches⟩ := hnew
      rw [hdispatches]
      intro a ha
      rcases mem_cons.mp ha with rfl | hold
      · obtain ⟨row, hrow, hsequence, htime⟩ := h.task worker _ htask
        obtain ⟨row', hrow', hsequence', htime', hcharge⟩ :=
          charged_of_granted hfinds htask hadmitted hrow hsequence
        have hintents : (step perDay drain (.admitIntent worker now canonicalIdentity)).intents =
            updateClaimed intent.sequence (chargeRow now canonicalIdentity) drain.intents := by
          unfold step
          simp only [htask]
          rw [admitTask_intents, admitted_intents hadmitted]
        rw [hintents]
        exact ⟨row', hrow', hsequence'.trans hsequence, htime'.trans htime, hcharge⟩
      · exact hkept a hold

theorem one_intent_step (hbooked : Booked drain) (h : DispatchesOnce perDay drain)
    {action : Action} (hfinds : FindsOwn perDay drain action) :
    ∀ a ∈ (step perDay drain action).dispatches, ∀ b ∈ (step perDay drain action).dispatches,
      a.observedAt = b.observedAt → a.canonicalIdentity = b.canonicalIdentity →
        a.sequence = b.sequence := by
  rcases dispatches_step perDay drain action with hsame | hnew
  · rw [hsame]
    exact h.one_intent
  · obtain ⟨worker, now, canonicalIdentity, intent, rfl, htask, hadmitted, hdispatches⟩ := hnew
    have hown : ∀ a ∈ drain.dispatches, a.observedAt = intent.observedAt →
        a.canonicalIdentity = canonicalIdentity → a.sequence = intent.sequence := by
      intro a ha htime hcharacter
      obtain ⟨own, hrow, hsequence, -⟩ := hbooked.task worker _ htask
      obtain ⟨row, hin, hrowSequence, hrowTime, hcanonical, hcharged⟩ := hbooked.dispatch a ha
      rw [← hrowSequence]
      exact (granted_spec hfinds htask hadmitted hrow hsequence).2 row hin
        (hrowTime.trans htime) (hcharacter ▸ hcanonical) hcharged
    rw [hdispatches]
    intro a ha b hb htime hcharacter
    rcases mem_cons.mp ha with ha | ha
    · rcases mem_cons.mp hb with hb | hb
      · rw [ha, hb]
      · rw [ha] at htime hcharacter ⊢
        exact (hown b hb htime.symm hcharacter.symm).symm
    · rcases mem_cons.mp hb with hb | hb
      · rw [hb] at htime hcharacter ⊢
        exact hown a ha htime hcharacter
      · exact h.one_intent a ha b hb htime hcharacter

variable (perDay)

/-- A run whose admissions all find their own dispatches each applicant through
one intent, in every state it passes through. -/
theorem dispatchesOnce_of_findsOwn (actions : List Action)
    (hfinds : ∀ p ∈ Runs.steps (step perDay) .start actions, FindsOwn perDay p.1 p.2) :
    ∀ before, before <+: actions →
      DispatchesOnce perDay (Runs.after (step perDay) .start before) := by
  intro before hbefore
  have hstep : ∀ drain action,
      Recorded perDay drain ∧ Booked drain ∧ DispatchesOnce perDay drain →
      FindsOwn perDay drain action → Recorded perDay (step perDay drain action) ∧
        Booked (step perDay drain action) ∧ DispatchesOnce perDay (step perDay drain action) := by
    intro drain action h hmeets
    have hrecorded := recorded_step h.1 action
    exact ⟨hrecorded, booked_step h.2.1 hmeets,
      dispatchesOnce_of_recorded hrecorded (one_intent_step h.2.1 h.2.2 hmeets)⟩
  have hstart : Recorded perDay .start ∧ Booked .start ∧ DispatchesOnce perDay .start := by
    refine ⟨recorded_start, ⟨fun worker task htask => ?_, fun a ha => ?_⟩,
      dispatchesOnce_of_recorded recorded_start fun a ha => ?_⟩
    · cases htask
    · cases ha
    · cases ha
  exact (Runs.keeps_prefixes (fun drain => Recorded perDay drain ∧ Booked drain ∧
    DispatchesOnce perDay drain) (FindsOwn perDay) hstep hstart hfinds hbefore).2.2

/-- Two intents of one character, the second claimed once the first is done. -/
def laterDuplicate : List Action :=
  [.record 0 "warcraftlogs_id:7" 0 false,
    .record 0 "character:[\"eu\",\"draenor\",\"ana\"]" 0 false,
    .claim 0 (minutes 1) (fun _ => false),
    .admitIntent 0 (minutes 1) "character:[\"eu\",\"draenor\",\"ana\"]",
    .settle 0 .done,
    .claim 1 (minutes 2) (fun _ => false),
    .admitIntent 1 (minutes 2) "character:[\"eu\",\"draenor\",\"ana\"]"]

theorem laterDuplicate_dispatchesOnce :
    (Runs.after (step 5) .start laterDuplicate).settlements.map Settlement.asDuplicate =
        [true, false] ∧
      DispatchesOnce 5 (Runs.after (step 5) .start laterDuplicate) :=
  ⟨by decide +kernel,
    dispatchesOnce_of_findsOwn 5 laterDuplicate (by decide +kernel) _ (prefix_refl _)⟩

/-- A Warcraft Logs id that could not be read at first, and its character. -/
def lateResolution : List Action :=
  [.record 0 "warcraftlogs_id:7" 0 false,
    .record 0 "character:[\"eu\",\"draenor\",\"ana\"]" 0 false,
    .claim 0 (minutes 1) (fun _ => false),
    .putBack 0 (minutes 1),
    .claim 0 (minutes 1) (fun _ => false),
    .admitIntent 0 (minutes 1) "character:[\"eu\",\"draenor\",\"ana\"]",
    .settle 0 .done,
    .claim 0 (minutes 10) (fun _ => false),
    .admitIntent 0 (minutes 10) "character:[\"eu\",\"draenor\",\"ana\"]"]

/-- Both its intents are charged and dispatched. -/
theorem lateResolution_dispatches_twice :
    ¬ ∀ (perDay : ℕ) (actions : List Action),
      DispatchesOnce perDay (Runs.after (step perDay) .start actions) := by
  intro honce
  have htwice := (honce 5 lateResolution).one_intent
  have hdispatches : (Runs.after (step 5) .start lateResolution).dispatches =
      [⟨1, 0, "character:[\"eu\",\"draenor\",\"ana\"]"⟩,
        ⟨2, 0, "character:[\"eu\",\"draenor\",\"ana\"]"⟩] := by
    decide +kernel
  rw [hdispatches] at htwice
  exact absurd (htwice _ mem_cons_self _
    (mem_cons_of_mem _ mem_cons_self) rfl rfl) (by decide)

end SlashWho.ApplicantIntents
