import SlashWho.ApplicantDispatches

/-!
What a worker does to an intent after its claim has expired and been taken by
another. Each claim counts an attempt on the row, so the number a worker was
handed says whether its claim is still the intent's last one. The later updates
do not ask: a worker whose claim is lost leaves the intent alone only where it
finds it no longer claimed, and at an admission only where it is refused too.
-/

namespace SlashWho.ApplicantIntents

theorem findIntent_updateIntent {sequence other : ℕ} {change : Intent → Intent}
    (hsequence : ∀ row, (change row).sequence = row.sequence) (intents : List Intent) :
    findIntent other (updateIntent sequence change intents) =
      if other = sequence then (findIntent other intents).map change
      else findIntent other intents := by
  induction intents with
  | nil => simp [findIntent, updateIntent]
  | cons row rest ih =>
    rw [updateIntent_cons, findIntent_cons, findIntent_cons, ih]
    by_cases hrow : row.sequence = sequence
    · rw [if_pos hrow, hsequence]
      by_cases hother : row.sequence = other
      · rw [if_pos hother, if_pos hother, if_pos (hother.symm.trans hrow), Option.map_some]
      · rw [if_neg hother, if_neg hother]
    · rw [if_neg hrow]
      by_cases hother : row.sequence = other
      · rw [if_pos hother, if_pos hother, if_neg (fun h => hrow (hother.trans h))]
      · rw [if_neg hother, if_neg hother]

theorem updateClaimed_of_not_claimed {sequence : ℕ} {intents : List Intent}
    (hnodup : (intents.map Intent.sequence).Nodup) (h : isClaimed sequence intents = false)
    (change : Intent → Intent) : updateClaimed sequence change intents = intents := by
  unfold isClaimed at h
  unfold updateClaimed
  induction intents with
  | nil => rfl
  | cons row rest ih =>
    rw [List.map_cons, List.nodup_cons] at hnodup
    rw [findIntent_cons] at h
    rw [updateIntent_cons]
    by_cases hsequence : row.sequence = sequence
    · subst hsequence
      rw [if_pos rfl, Option.any_some, decide_eq_false_iff_not] at h
      rw [if_pos rfl, if_neg h, updateIntent_of_absent hnodup.1]
    · rw [if_neg hsequence] at h
      rw [if_neg hsequence, ih hnodup.2 h]

theorem findIntent_of_mem {intents : List Intent} (hnodup : (intents.map Intent.sequence).Nodup)
    {row : Intent} (h : row ∈ intents) : findIntent row.sequence intents = some row := by
  induction intents with
  | nil => cases h
  | cons first rest ih =>
    rw [List.map_cons, List.nodup_cons] at hnodup
    rw [findIntent_cons]
    rcases List.mem_cons.mp h with hsame | hrest
    · rw [hsame, if_pos rfl]
    · have hne : first.sequence ≠ row.sequence := by
        intro heq
        apply hnodup.1
        rw [heq]
        exact List.mem_map_of_mem hrest
      rw [if_neg hne]
      exact ih hnodup.2 hrest

variable (perDay : ℕ)

/-- A worker acting on an intent it has claimed: an admission, or the settlement
of a dispatch, or putting the intent back. -/
def Acts (action : Action) (worker : ℕ) (task : Task) : Prop :=
  match action, task with
  | .admitIntent actor _ _, .claimed _ => actor = worker
  | .settle actor _, .admitted _ _ => actor = worker
  | .putBack actor _, _ => actor = worker
  | _, _ => False

/-- The claim behind a task has been taken by another: the row counts an attempt
beyond it. -/
def IsLost (drain : Drain) (task : Task) : Prop :=
  ∃ row, findIntent task.intent.sequence drain.intents = some row ∧
    task.intent.attempts + 1 < row.attempts

/-- An action leaves alone the intents of lost claims, so that a live claim is
not put back, and dispatches none that is settled. -/
structure LeavesLost (drain : Drain) (action : Action) : Prop where
  unchanged : ∀ worker task, Acts action worker task → drain.workers worker = some task →
    IsLost drain task → (step perDay drain action).intents = drain.intents ∧
      (step perDay drain action).dispatches = drain.dispatches
  settled_final : ∀ worker now canonicalIdentity intent row,
    action = .admitIntent worker now canonicalIdentity →
      drain.workers worker = some (.claimed intent) →
        findIntent intent.sequence drain.intents = some row →
          row.state = .done ∨ row.state = .suppressed →
            (step perDay drain action).dispatches = drain.dispatches

/-- A step on a lost claim finds the intent no longer claimed; an admission also
finds an earlier intent that stands, or an uncharged one on a spent day. -/
def FindsTaken (drain : Drain) (action : Action) : Prop :=
  ∀ worker task, Acts action worker task → drain.workers worker = some task →
    IsLost drain task →
      isClaimed task.intent.sequence drain.intents = false ∧
      ∀ now canonicalIdentity, action = .admitIntent worker now canonicalIdentity →
        (∃ row ∈ drain.intents, row.observedAt = task.intent.observedAt ∧
          row.canonicalIdentity = some canonicalIdentity ∧
            row.sequence < task.intent.sequence ∧ row.state ≠ .suppressed) ∨
        (isUncharged task.intent.sequence drain.intents = true ∧
          perDay ≤ spentToday now drain.intents)

variable {perDay : ℕ} {drain : Drain}

variable {action : Action}

theorem acts_update (perDay : ℕ) {worker : ℕ} {task : Task} (hacts : Acts action worker task)
    (htask : drain.workers worker = some task) :
    ∃ change, Keeps change ∧
      (step perDay drain action).intents =
        updateClaimed task.intent.sequence change drain.intents ∧
      (((step perDay drain action).dispatches = drain.dispatches ∧
          (step perDay drain action).workers = setTask drain.workers worker none ∧
          ∀ row, (change row).state ≠ .claimed) ∨
        ∃ now canonicalIdentity, action = .admitIntent worker now canonicalIdentity ∧
          (admitCanonicalIntent now task.intent canonicalIdentity perDay drain.intents).1 =
            .admitted ∧
          (step perDay drain action).dispatches =
            dispatchOf task.intent canonicalIdentity :: drain.dispatches ∧
          (step perDay drain action).workers =
            setTask drain.workers worker (some (.admitted task.intent canonicalIdentity)) ∧
          ∀ row, (change row).state = row.state) := by
  cases action with
  | admitIntent actor now canonicalIdentity =>
    cases task with
    | admitted intent canonical => exact absurd hacts id
    | claimed intent =>
      have hactor : actor = worker := hacts
      subst hactor
      obtain ⟨change, hkeeps, hupdate, -, hgranted, hrefused⟩ :=
        admit_update perDay now intent canonicalIdentity drain.intents
      have hstep : step perDay drain (.admitIntent actor now canonicalIdentity) =
          admitTask perDay drain actor now intent canonicalIdentity := by
        unfold step
        simp only [htask]
      rw [hstep]
      refine ⟨change, hkeeps, (admitTask_intents perDay drain actor now intent canonicalIdentity).trans
        hupdate, ?_⟩
      unfold admitTask
      simp only
      cases hadmission : (admitCanonicalIntent now intent canonicalIdentity perDay
          drain.intents).1 with
      | admitted =>
        right
        exact ⟨now, canonicalIdentity, rfl, hadmission, rfl, rfl, hgranted hadmission⟩
      | duplicate =>
        left
        exact ⟨rfl, rfl, hrefused (by rw [hadmission]; decide)⟩
      | wait =>
        left
        exact ⟨rfl, rfl, hrefused (by rw [hadmission]; decide)⟩
      | dailyLimit =>
        left
        exact ⟨rfl, rfl, hrefused (by rw [hadmission]; decide)⟩
  | settle actor settled =>
    cases task with
    | claimed intent => exact absurd hacts id
    | admitted intent canonicalIdentity =>
      have hactor : actor = worker := hacts
      subst hactor
      unfold step
      simp only [htask]
      refine ⟨_, ?_, rfl, .inl ⟨trivial, trivial, ?_⟩⟩
      · exact ⟨fun _ => rfl, fun _ => rfl, fun _ => rfl, fun _ => id⟩
      · intro row
        cases settled <;> simp [Settled.state]
  | putBack actor now =>
    have hactor : actor = worker := hacts
    subst hactor
    unfold step
    simp only [htask]
    refine ⟨_, ?_, rfl, .inl ⟨trivial, trivial, ?_⟩⟩
    · exact ⟨fun _ => rfl, fun _ => rfl, fun _ => rfl, fun _ => id⟩
    · simp
  | record skipped identity observedAt suppressed => exact absurd hacts id
  | claim actor now locked => exact absurd hacts id
  | crash actor => exact absurd hacts id

theorem Keeps.claimed {change : Intent → Intent} (h : Keeps change) (row : Intent) :
    (if row.state = .claimed then change row else row).sequence = row.sequence := by
  split
  · exact h.sequence row
  · rfl

theorem findIntent_updateClaimed {change : Intent → Intent} (h : Keeps change)
    (sequence other : ℕ) (intents : List Intent) :
    findIntent other (updateClaimed sequence change intents) =
      if other = sequence then
        (findIntent other intents).map (fun row =>
          if row.state = .claimed then change row else row)
      else findIntent other intents :=
  findIntent_updateIntent h.claimed intents

theorem unchanged_of_findsTaken (hnodup : (drain.intents.map Intent.sequence).Nodup)
    (hfinds : FindsTaken perDay drain action) {worker : ℕ} {task : Task}
    (hacts : Acts action worker task) (htask : drain.workers worker = some task)
    (hlost : IsLost drain task) :
    (step perDay drain action).intents = drain.intents ∧
      (step perDay drain action).dispatches = drain.dispatches := by
  obtain ⟨hnotClaimed, hrefused⟩ := hfinds worker task hacts htask hlost
  obtain ⟨change, hkeeps, hintents, hcases⟩ := acts_update perDay hacts htask
  refine ⟨hintents.trans (updateClaimed_of_not_claimed hnodup hnotClaimed change), ?_⟩
  rcases hcases with hidle | hgranted
  · exact hidle.1
  · obtain ⟨now, canonicalIdentity, haction, hadmitted, -⟩ := hgranted
    obtain ⟨hearlier, hbudget⟩ := admitted_iff.mp hadmitted
    rcases hrefused now canonicalIdentity haction with hstands | hspent
    · obtain ⟨row, hrow, hstanding⟩ := hstands
      have hnot := hearlier row hrow
      rw [isEarlier_iff.mpr hstanding] at hnot
      exact absurd hnot (by decide)
    · have hlt := hbudget hspent.1
      omega

theorem findsTaken_of_unchanged (h : LeavesLost perDay drain action) :
    FindsTaken perDay drain action := by
  intro worker task hacts htask hlost
  obtain ⟨hsame, hquiet⟩ := h.unchanged worker task hacts htask hlost
  obtain ⟨change, hkeeps, hintents, hcases⟩ := acts_update perDay hacts htask
  have hrefused : (step perDay drain action).workers = setTask drain.workers worker none ∧
      ∀ row, (change row).state ≠ .claimed := by
    rcases hcases with hidle | hgranted
    · exact hidle.2
    · obtain ⟨now, canonicalIdentity, -, -, hdispatches, -⟩ := hgranted
      rw [hquiet] at hdispatches
      have hlength := congrArg List.length hdispatches
      rw [List.length_cons] at hlength
      omega
  constructor
  · by_contra hclaimed
    rw [Bool.not_eq_false] at hclaimed
    unfold isClaimed at hclaimed
    rw [Option.any_eq_true] at hclaimed
    obtain ⟨row, hrow, hstate⟩ := hclaimed
    rw [decide_eq_true_eq] at hstate
    have hfound := findIntent_updateClaimed hkeeps task.intent.sequence task.intent.sequence
      drain.intents
    rw [← hintents, hsame, if_pos rfl, hrow, Option.map_some, if_pos hstate] at hfound
    apply hrefused.2 row
    rw [← Option.some.inj hfound]
    exact hstate
  · intro now canonicalIdentity haction
    by_contra hnone
    have hadmitted : (admitCanonicalIntent now task.intent canonicalIdentity perDay
        drain.intents).1 = .admitted := by
      rw [not_or] at hnone
      refine admitted_iff.mpr ⟨?_, ?_⟩
      · intro row hrow
        by_contra hearlier
        exact hnone.1 ⟨row, hrow, isEarlier_iff.mp (Bool.eq_true_of_not_eq_false hearlier)⟩
      · intro huncharged
        by_contra hspent
        exact hnone.2 ⟨huncharged, Nat.not_lt.mp hspent⟩
    subst haction
    cases task with
    | admitted intent canonical => exact hacts
    | claimed intent =>
      have hdispatches : (step perDay drain (.admitIntent worker now canonicalIdentity)).dispatches =
          dispatchOf intent canonicalIdentity :: drain.dispatches := by
        unfold step admitTask
        simp only [htask]
        have hadmission : (admitCanonicalIntent now intent canonicalIdentity perDay
          drain.intents).1 = .admitted := hadmitted
        simp only [hadmission]
      rw [hquiet] at hdispatches
      have hlength := congrArg List.length hdispatches
      rw [List.length_cons] at hlength
      omega

/-- Where a run leaves lost claims alone, a worker whose claim is the intent's last
one finds the intent claimed. -/
structure Held (drain : Drain) : Prop where
  found : ∀ worker task, drain.workers worker = some task →
    ∃ row, findIntent task.intent.sequence drain.intents = some row ∧
      task.intent.attempts + 1 ≤ row.attempts
  apart : ∀ worker other task task', worker ≠ other → drain.workers worker = some task →
    drain.workers other = some task' → task.intent.sequence = task'.intent.sequence →
      task.intent.attempts ≠ task'.intent.attempts
  claimed : ∀ worker task row, drain.workers worker = some task →
    findIntent task.intent.sequence drain.intents = some row →
      row.attempts = task.intent.attempts + 1 → row.state = .claimed

theorem held_start : Held .start := by
  refine ⟨?_, ?_, ?_⟩ <;> simp [Drain.start]

variable {worker : ℕ}

theorem Held.withTask (h : Held drain) {task : Task} (htask : drain.workers worker = some task)
    {next : Option Task} (hnext : ∀ task', next = some task' → task'.intent = task.intent) :
    Held { drain with workers := setTask drain.workers worker next } := by
  have hold : ∀ other task', setTask drain.workers worker next other = some task' →
      ∃ before, drain.workers other = some before ∧ before.intent = task'.intent := by
    intro other task' hother
    unfold setTask at hother
    split at hother
    · next hsame =>
      rw [hsame]
      exact ⟨task, htask, (hnext task' hother).symm⟩
    · exact ⟨task', hother, rfl⟩
  refine ⟨?_, ?_, ?_⟩
  · intro other task' hother
    obtain ⟨before, hbefore, hintent⟩ := hold other task' hother
    rw [← hintent]
    exact h.found other before hbefore
  · intro other third task' task'' hne hother hthird hsequence
    obtain ⟨before, hbefore, hintent⟩ := hold other task' hother
    obtain ⟨before', hbefore', hintent'⟩ := hold third task'' hthird
    rw [← hintent, ← hintent'] at hsequence ⊢
    exact h.apart other third before before' hne hbefore hbefore' hsequence
  · intro other task' row hother hrow hattempts
    obtain ⟨before, hbefore, hintent⟩ := hold other task' hother
    rw [← hintent] at hrow hattempts
    exact h.claimed other before row hbefore hrow hattempts

theorem findIntent_append {sequence : ℕ} {intents new : List Intent} {row : Intent}
    (h : findIntent sequence intents = some row) :
    findIntent sequence (intents ++ new) = some row := by
  unfold findIntent at h ⊢
  rw [List.find?_append, h]
  rfl

theorem held_recordIntent (h : Held drain) (skipped : ℕ) (identity : String) (observedAt : ℤ)
    (suppressed : Bool) :
    Held (recordIntent drain skipped identity observedAt suppressed) := by
  unfold recordIntent
  refine ⟨?_, h.apart, ?_⟩
  · intro worker task htask
    obtain ⟨row, hrow, hattempts⟩ := h.found worker task htask
    exact ⟨row, findIntent_append hrow, hattempts⟩
  · intro worker task row htask hrow hattempts
    obtain ⟨before, hbefore, -⟩ := h.found worker task htask
    have hsame := (findIntent_append hbefore).symm.trans hrow
    rw [Option.some.injEq] at hsame
    rw [hsame] at hbefore
    exact h.claimed worker task row htask hbefore hattempts

theorem held_claim (hnodup : (drain.intents.map Intent.sequence).Nodup) (h : Held drain) {now : ℤ}
    {locked : ℕ → Bool} {intent : IntentRow} {intents : List Intent}
    (hclaim : claimNext now locked drain.intents = (some intent, intents)) :
    Held { drain with
      intents := intents
      workers := setTask drain.workers worker (some (.claimed intent)) } := by
  obtain ⟨row, hrow, hintent, change, hsequence, hattempts, hstate, hintents⟩ :
      ∃ row ∈ drain.intents, intent = rowOf row ∧ ∃ change : Intent → Intent,
        (∀ row, (change row).sequence = row.sequence) ∧
        (∀ row, (change row).attempts = row.attempts + 1) ∧
        (∀ row, (change row).state = .claimed) ∧
        intents = updateIntent row.sequence change drain.intents := by
    unfold claimNext at hclaim
    split at hclaim
    · cases hclaim
    · next row hrow =>
      cases hclaim
      refine ⟨row, (List.mem_filter.mp (List.argmin_mem hrow)).1, rfl, _, ?_, ?_, ?_, rfl⟩
      · intro row
        rfl
      · intro row
        rfl
      · intro row
        rfl
  subst hintent
  have hfound := findIntent_of_mem hnodup hrow
  have hafter : ∀ other, findIntent other intents = if other = row.sequence then
      some (change row) else findIntent other drain.intents := by
    intro other
    rw [hintents, findIntent_updateIntent hsequence]
    split
    · next hother =>
      rw [hother, hfound, Option.map_some]
    · rfl
  have hlater : ∀ other task, drain.workers other = some task →
      task.intent.sequence = row.sequence → task.intent.attempts + 1 ≤ row.attempts := by
    intro other task htask hother
    obtain ⟨row', hrow', hle⟩ := h.found other task htask
    rw [hother, hfound, Option.some.injEq] at hrow'
    rw [hrow']
    exact hle
  refine ⟨?_, ?_, ?_⟩
  · intro other task htask
    simp only [hafter]
    rcases setTask_some htask with hnew | hold
    · rw [Option.some.injEq] at hnew
      subst hnew
      refine ⟨change row, if_pos rfl, ?_⟩
      rw [hattempts]
      exact Nat.le_refl _
    · by_cases hother : task.intent.sequence = row.sequence
      · have hle := hlater other task hold hother
        refine ⟨change row, if_pos hother, ?_⟩
        rw [hattempts]
        omega
      · rw [if_neg hother]
        exact h.found other task hold
  · intro other third task task' hne htask htask' hsame
    have hnew : ∀ n t, setTask drain.workers worker (some (.claimed (rowOf row))) n = some t →
        (n = worker ∧ t.intent = rowOf row) ∨ drain.workers n = some t := by
      intro n t ht
      unfold setTask at ht
      split at ht
      · next hn =>
        left
        rw [Option.some.injEq] at ht
        exact ⟨hn, by rw [← ht]; rfl⟩
      · exact .inr ht
    rcases hnew other task htask with hleft | hleft
    · rcases hnew third task' htask' with hright | hright
      · exact absurd (hleft.1.trans hright.1.symm) hne
      · rw [hleft.2] at hsame ⊢
        have hle := hlater third task' hright hsame.symm
        change row.attempts ≠ task'.intent.attempts
        omega
    · rcases hnew third task' htask' with hright | hright
      · rw [hright.2] at hsame ⊢
        have hle := hlater other task hleft hsame
        change task.intent.attempts ≠ row.attempts
        omega
      · exact h.apart other third task task' hne hleft hright hsame
  · intro other task row' htask hrow' hcount
    simp only [hafter] at hrow'
    by_cases hother : task.intent.sequence = row.sequence
    · rw [if_pos hother, Option.some.injEq] at hrow'
      rw [← hrow']
      exact hstate row
    · rw [if_neg hother] at hrow'
      rcases setTask_some htask with hnew | hold
      · rw [Option.some.injEq] at hnew
        subst hnew
        exact absurd rfl hother
      · exact h.claimed other task row' hold hrow' hcount

theorem held_update (h : Held drain) {task : Task} (htask : drain.workers worker = some task)
    {change : Intent → Intent} (hkeeps : Keeps change) (hlast : ¬ IsLost drain task)
    {next : Option Task} (hnext : ∀ task', next = some task' → task'.intent = task.intent)
    (hfree : next = none ∨ ∀ row, (change row).state = row.state) :
    Held { drain with
      intents := updateClaimed task.intent.sequence change drain.intents
      workers := setTask drain.workers worker next } := by
  have hfind := findIntent_updateClaimed hkeeps task.intent.sequence
  have hattempts : ∀ row : Intent,
      (if row.state = .claimed then change row else row).attempts = row.attempts := by
    intro row
    split
    · exact hkeeps.attempts row
    · rfl
  have hbase := h.withTask htask hnext
  refine ⟨?_, hbase.apart, ?_⟩
  · intro other task' htask'
    obtain ⟨row, hrow, hle⟩ := hbase.found other task' htask'
    simp only at hrow ⊢
    rw [hfind]
    split
    · refine ⟨_, by rw [hrow]; rfl, ?_⟩
      rw [hattempts]
      exact hle
    · exact ⟨row, hrow, hle⟩
  · intro other task' row' htask' hrow' hcount
    simp only at hrow'
    rw [hfind] at hrow'
    split at hrow'
    · next hother =>
      obtain ⟨row, hrow, hrow'⟩ := Option.map_eq_some_iff.mp hrow'
      have hclaimed : row.state = .claimed := by
        apply hbase.claimed other task' row htask' hrow
        rw [← hcount, ← hrow', hattempts]
      rw [if_pos hclaimed] at hrow'
      rw [← hrow']
      rcases hfree with hnone | hstate
      · -- a worker that goes idle held the last claim, so no other task has it
        exfalso
        have hothers : other ≠ worker ∧ drain.workers other = some task' := by
          simp only at htask'
          unfold setTask at htask'
          split at htask'
          · rw [hnone] at htask'
            cases htask'
          · next hne => exact ⟨hne, htask'⟩
        obtain ⟨row'', hrow'', hle⟩ := h.found worker task htask
        have hsame : row'' = row := by
          rw [hother] at hrow
          exact Option.some.inj (hrow''.symm.trans hrow)
        have hnotLost : ¬ task.intent.attempts + 1 < row''.attempts :=
          fun hlt => hlast ⟨row'', hrow'', hlt⟩
        have hne := h.apart other worker task' task hothers.1 hothers.2 htask hother
        have hcount' := hkeeps.attempts row
        rw [hrow'] at hcount'
        rw [hsame] at hle hnotLost
        omega
      · rw [hstate]
        exact hclaimed
    · exact hbase.claimed other task' row' htask' hrow' hcount

theorem held_step_idle (hnodup : (drain.intents.map Intent.sequence).Nodup) (h : Held drain)
    (hidle : ∀ worker task, drain.workers worker = some task → ¬ Acts action worker task) :
    Held (step perDay drain action) := by
  cases action with
  | record skipped identity observedAt suppressed =>
    exact held_recordIntent h skipped identity observedAt suppressed
  | claim worker now locked =>
    unfold step
    simp only
    split
    · next hclaim => exact held_claim hnodup h hclaim
    · exact h
  | admitIntent worker now canonicalIdentity =>
    unfold step
    simp only
    split
    · next intent htask => exact absurd rfl (hidle worker (.claimed intent) htask)
    · exact h
  | settle worker settled =>
    unfold step
    simp only
    split
    · next intent canonicalIdentity htask =>
      exact absurd rfl (hidle worker (.admitted intent canonicalIdentity) htask)
    · exact h
  | putBack worker now =>
    unfold step
    simp only
    split
    · next task htask =>
      have hacts : Acts (.putBack worker now) worker task := by cases task <;> rfl
      exact absurd hacts (hidle worker task htask)
    · exact h
  | crash worker =>
    cases htask : drain.workers worker with
    | some task => exact h.withTask htask (by simp)
    | none =>
      have hworkers : setTask drain.workers worker none = drain.workers := by
        funext other
        unfold setTask
        split
        · next hother => rw [hother, htask]
        · rfl
      unfold step
      simp only [hworkers]
      exact h

theorem held_step (hrecorded : Recorded perDay drain) (h : Held drain)
    (hfinds : FindsTaken perDay drain action) : Held (step perDay drain action) := by
  by_cases hacts : ∃ worker task, drain.workers worker = some task ∧ Acts action worker task
  · obtain ⟨worker, task, htask, hacts⟩ := hacts
    obtain ⟨change, hkeeps, hintents, hcases⟩ := acts_update perDay hacts htask
    obtain ⟨next, hworkers, hnext, hfree⟩ : ∃ next,
        (step perDay drain action).workers = setTask drain.workers worker next ∧
        (∀ task', next = some task' → task'.intent = task.intent) ∧
        (next = none ∨ ∀ row, (change row).state = row.state) := by
      rcases hcases with hidle | hgranted
      · exact ⟨none, hidle.2.1, by simp, .inl rfl⟩
      · obtain ⟨now, canonicalIdentity, -, -, -, hworkers, hstate⟩ := hgranted
        refine ⟨_, hworkers, ?_, .inr hstate⟩
        intro task' htask'
        cases htask'
        rfl
    have hheld : Held { drain with
        intents := (step perDay drain action).intents
        workers := (step perDay drain action).workers } := by
      by_cases hlost : IsLost drain task
      · rw [(unchanged_of_findsTaken hrecorded.nodup hfinds hacts htask hlost).1, hworkers]
        exact h.withTask htask hnext
      · rw [hintents, hworkers]
        exact held_update h htask hkeeps hlost hnext hfree
    exact ⟨hheld.found, hheld.apart, hheld.claimed⟩
  · push Not at hacts
    exact held_step_idle hrecorded.nodup h hacts

theorem leavesLost_of_held (hrecorded : Recorded perDay drain) (h : Held drain)
    (hfinds : FindsTaken perDay drain action) : LeavesLost perDay drain action := by
  constructor
  · intro worker task hacts htask hlost
    exact unchanged_of_findsTaken hrecorded.nodup hfinds hacts htask hlost
  · intro worker now canonicalIdentity intent row haction htask hrow hsettled
    subst haction
    obtain ⟨row', hrow', hle⟩ := h.found worker _ htask
    have hsame : row' = row := Option.some.inj (hrow'.symm.trans hrow)
    subst hsame
    have hlost : IsLost drain (.claimed intent) := by
      refine ⟨row', hrow', ?_⟩
      by_contra hlast
      have hclaimed := h.claimed worker _ row' htask hrow' (by omega)
      rcases hsettled with hdone | hsuppressed
      · rw [hdone] at hclaimed
        cases hclaimed
      · rw [hsuppressed] at hclaimed
        cases hclaimed
    have hacts : Acts (.admitIntent worker now canonicalIdentity) worker (.claimed intent) := rfl
    exact (unchanged_of_findsTaken hrecorded.nodup hfinds hacts htask hlost).2

variable (perDay)

/-- A run leaves lost claims alone at every step if and only if each of its steps
on a lost claim finds the intent taken. -/
theorem leavesLost_iff_findsTaken (actions : List Action) :
    (∀ p ∈ Runs.steps (step perDay) .start actions, LeavesLost perDay p.1 p.2) ↔
      ∀ p ∈ Runs.steps (step perDay) .start actions, FindsTaken perDay p.1 p.2 := by
  constructor
  · intro hleaves p hp
    exact findsTaken_of_unchanged (hleaves p hp)
  · intro hfinds p hp
    have hstep : ∀ drain action, Recorded perDay drain ∧ Held drain →
        FindsTaken perDay drain action →
          Recorded perDay (step perDay drain action) ∧ Held (step perDay drain action) := by
      intro drain action h hmeets
      exact ⟨recorded_step h.1 action, held_step h.1 h.2 hmeets⟩
    obtain ⟨before, hbefore, hstate⟩ := Runs.prefix_of_mem_steps _ hp
    have hkept := Runs.keeps_prefixes (fun drain => Recorded perDay drain ∧ Held drain)
      (FindsTaken perDay) hstep ⟨recorded_start, held_start⟩ hfinds
      ((List.prefix_append before [p.2]).trans hbefore)
    rw [← hstate] at hkept
    exact leavesLost_of_held hkept.1 hkept.2 (hfinds p hp)

/-- A worker slower than its claim, and the one that settled the intent meanwhile. -/
def slowWorker : List Action :=
  [.record 0 "character:[\"eu\",\"draenor\",\"ana\"]" 0 false,
    .claim 0 (minutes 1) (fun _ => false),
    .claim 1 (minutes 12) (fun _ => false),
    .admitIntent 1 (minutes 12) "character:[\"eu\",\"draenor\",\"ana\"]",
    .settle 1 .done]

def slowAdmission : Action := .admitIntent 0 (minutes 13) "character:[\"eu\",\"draenor\",\"ana\"]"

/-- The slow worker dispatches the settled intent once more. -/
theorem slowWorker_dispatches_again :
    ¬ ∀ (perDay : ℕ) (actions : List Action),
      ∀ p ∈ Runs.steps (step perDay) .start actions, LeavesLost perDay p.1 p.2 := by
  intro hleaves
  have hmem : (Runs.after (step 5) .start slowWorker, slowAdmission) ∈
      Runs.steps (step 5) .start (slowWorker ++ [slowAdmission]) :=
    (Runs.mem_steps_iff _).mpr ⟨slowWorker, [], rfl, rfl⟩
  have hsettled := (hleaves 5 _ _ hmem).settled_final 0 (minutes 13)
    "character:[\"eu\",\"draenor\",\"ana\"]"
    ⟨1, "character:[\"eu\",\"draenor\",\"ana\"]", 0, 0⟩
    ((findIntent 1 (Runs.after (step 5) .start slowWorker).intents).get (by decide +kernel))
    rfl (by decide +kernel) (by decide +kernel) (by decide +kernel)
  exact absurd hsettled (by decide +kernel)

end SlashWho.ApplicantIntents
