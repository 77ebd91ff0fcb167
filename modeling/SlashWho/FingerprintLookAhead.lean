import SlashWho.FingerprintSettleOrder

/-!
Sweeps whose look-ahead suppression checks may reject. A rejected check throws the dispatcher out of
its loop; the reads still in flight are waited for, and what they settle is not looked at. A sweep
therefore returns what reading one candidate at a time returns unless the dispatcher gets as far as
a rejected check while an earlier read is about to end the sweep otherwise.
-/

namespace SlashWho.FingerprintDiscovery

open List Characters

/-- A sweep, and the lookups of suppression that reject. -/
structure CheckedSweep extends SweepConfig where
  rejection : CharacterKey → Option Fault

/-- A sweep's loop, and the rejected check thrown out of it. -/
structure CheckedState where
  loop : LoopState
  thrown : Option Fault

namespace CheckedSweep
variable (c : CheckedSweep)

def start : CheckedState := ⟨c.toSweepConfig.start, none⟩

/-- The dispatcher moves on from a check only once it has answered. A read out
of budget answers at once, before any check the dispatcher awaits after it. -/
structure Awaited (s : LoopState) : Prop where
  prompt : ∀ read ∈ s.inFlight, read.phase ≠ .requested .exhausted
  answered : ∀ entry, c.prepared.eligible[s.index]? = some entry →
    c.rejection entry.candidate.key = none

/-- One turn of the event loop. A rejected check leaves the dispatcher's loop
before it looks at whether the sweep has stopped. -/
inductive Step : CheckedState → CheckedState → Prop
  | turn {s s' : LoopState} {thrown : Option Fault} (hstep : c.toSweepConfig.Step s s')
      (hawaited : ∀ isSuppressed, s.dispatcher = .checking isSuppressed →
        s'.dispatcher ≠ s.dispatcher → c.Awaited s) :
      Step ⟨s, thrown⟩ ⟨s', thrown⟩
  | reject {s : LoopState} {isSuppressed : Bool} {entry : Eligible} {fault : Fault}
      (hchecking : s.dispatcher = .checking isSuppressed)
      (hprompt : ∀ read ∈ s.inFlight, read.phase ≠ .requested .exhausted)
      (hentry : c.prepared.eligible[s.index]? = some entry)
      (hrejected : c.rejection entry.candidate.key = some fault) :
      Step ⟨s, none⟩ ⟨{ s with dispatcher := .finished }, some fault⟩

abbrev Runs : CheckedState → CheckedState → Prop := Relation.ReflTransGen c.Step

/-- A rejected check is thrown before any result is folded. -/
def outcome (s : CheckedState) : FingerprintSweepOutcome :=
  match s.thrown with
  | some fault =>
    caught (.fault fault) [] s.loop.budget.requestsUsed none c.prepared.skippedHistoricalGuilds
  | none =>
    (s.loop.reading c.prepared.eligible.length).outcome c.prepared.skippedHistoricalGuilds

/-- The candidates looked up and read one at a time, in order, until a lookup
rejects or one is not read. -/
def serialReading : Budget → Option CanonicalId → List Eligible → Reading
  | b, lastSweptId, [] => ⟨[], lastSweptId, b.requestsUsed, b.capped, none⟩
  | b, lastSweptId, entry :: rest =>
    match c.rejection entry.candidate.key with
    | some fault => ⟨[], none, b.requestsUsed, b.capped, some (.fault fault)⟩
    | none =>
      if c.suppressed entry then serialReading b lastSweptId rest
      else
        let (b, answer) := request c.gateway b (c.reply entry)
        match c.verdict answer with
        | .exhausted => ⟨[], lastSweptId, b.requestsUsed, b.capped, none⟩
        | .refused => ⟨[], lastSweptId, b.requestsUsed - 1, true, none⟩
        | .failed error => ⟨[], none, b.requestsUsed, b.capped, some error⟩
        | .unmatched => serialReading b (some entry.id) rest
        | .matched =>
          let later := serialReading b (some entry.id) rest
          { later with characters := discoveredCharacter entry.candidate :: later.characters }

/-- What reading one candidate at a time returns. -/
def serialOutcome : FingerprintSweepOutcome :=
  (c.serialReading c.prepared.budget none c.prepared.eligible).outcome
    c.prepared.skippedHistoricalGuilds

end CheckedSweep

/-- The outcomes a sweep may return, over every order in which its reads and its
look-ahead checks settle. -/
def MayReturnChecked (runtime : Runtime) (root : CharacterKey) (gateway : Gateway)
    (options : DiscoverOptions) (rejection : CharacterKey → Option Fault)
    (outcome : FingerprintSweepOutcome) : Prop :=
  match prepare runtime root gateway options with
  | .error early => outcome = early
  | .ok prepared =>
    let c : CheckedSweep := ⟨⟨runtime, gateway, options, prepared⟩, rejection⟩
    ∃ s, c.Runs c.start s ∧ s.loop.Returned ∧ outcome = c.outcome s

/-- Whether a read that comes to this stops the dispatcher. -/
def Verdict.stops : Verdict → Bool
  | .exhausted => true
  | .refused => true
  | .failed _ => true
  | .unmatched => false
  | .matched => false

theorem failureOutcome_ne_capped (error : Thrown) {characters : List DiscoveredCharacter}
    {requestsUsed : ℕ} {resumeAfter : Option CanonicalId} {skipped : ℕ} :
    failureOutcome error ≠ .capped characters requestsUsed resumeAfter skipped := by
  unfold failureOutcome
  split <;> exact FingerprintSweepOutcome.noConfusion

namespace SweepConfig
variable (c : SweepConfig)

variable (index : ℕ)

/-- Whether the candidate at `index` is read, and its read stops the sweep. -/
def stopsAt : Bool :=
  (c.prepared.eligible[index]?).any
    (fun entry => !c.suppressed entry && (c.verdictAt index entry).stops)

/-- The places before `index` whose reads stop the sweep. -/
def stopPlaces : List ℕ := (List.range index).filter c.stopsAt

/-- Whether the budget ends at `index`. -/
def ExhaustedAt : Prop :=
  ∃ entry, c.ReadAt index entry ∧ c.verdictAt index entry = .exhausted

/-- Until the sweep has stopped, every read that is to stop it is in flight. -/
def HoldsStops (s : LoopState) : Prop :=
  s.stopped = false → ∀ j entry, j < s.index → c.ReadAt j entry → c.StopsAt j entry →
    ∃ read ∈ s.inFlight, read.index = j ∧ read.phase ≠ .done

variable {c}

theorem stops_iff (entry : Eligible) :
    (c.verdictAt index entry).stops = true ↔ c.StopsAt index entry := by
  unfold StopsAt CappedAt
  cases c.verdictAt index entry <;> simp [Verdict.stops]

theorem stopsAt_iff :
    c.stopsAt index = true ↔ ∃ entry, c.ReadAt index entry ∧ c.StopsAt index entry := by
  unfold stopsAt
  rw [Option.any_eq_true]
  constructor
  · rintro ⟨entry, hfound, hstops⟩
    rw [Bool.and_eq_true, Bool.not_eq_true', stops_iff] at hstops
    exact ⟨entry, ⟨hfound, hstops.1⟩, hstops.2⟩
  · rintro ⟨entry, hread, hstops⟩
    refine ⟨entry, hread.found, ?_⟩
    rw [Bool.and_eq_true, Bool.not_eq_true', stops_iff]
    exact ⟨hread.unsuppressed, hstops⟩

theorem mem_stopPlaces (j : ℕ) :
    j ∈ c.stopPlaces index ↔ j < index ∧ ∃ entry, c.ReadAt j entry ∧ c.StopsAt j entry := by
  unfold stopPlaces
  rw [mem_filter, mem_range, stopsAt_iff]

theorem stopPlaces_succ :
    c.stopPlaces (index + 1) = c.stopPlaces index ++ if c.stopsAt index then [index] else [] := by
  unfold stopPlaces
  rw [range_succ, filter_append, filter_singleton, Bool.cond_eq_ite]

theorem stopPlaces_sublist {index last : ℕ} (h : index ≤ last) :
    List.Sublist (c.stopPlaces index) (c.stopPlaces last) :=
  (range_sublist.mpr h).filter _

theorem openTo_iff : c.OpenTo index ↔ c.stopPlaces index = [] := by
  rw [eq_nil_iff_forall_not_mem]
  constructor
  · intro hopen j hmem
    obtain ⟨hj, entry, hread, hstops⟩ := (mem_stopPlaces index j).mp hmem
    exact hopen j hj entry hread hstops
  · intro hnone j hj entry hread hstops
    exact hnone j ((mem_stopPlaces index j).mpr ⟨hj, entry, hread, hstops⟩)

variable {read : InFlightRead}

variable {before after : List InFlightRead}

theorem mem_of_turn {other : InFlightRead} (moved : InFlightRead)
    (h : other ∈ before ++ read :: after) (hne : other ≠ read) :
    other ∈ before ++ moved :: after := by
  simp only [mem_append, mem_cons] at h ⊢
  tauto

variable {s : LoopState}

theorem HoldsStops.readTurn {s' : LoopState} {phase : ReadPhase} (h : c.HoldsStops s)
    (hin : s.inFlight = before ++ read :: after)
    (hin' : s'.inFlight = before ++ { read with phase := phase } :: after)
    (hindex : s'.index = s.index) (hstopped : s'.stopped = false → s.stopped = false)
    (hphase : s'.stopped = false → phase = .done → ¬ c.StopsAt read.index read.entry)
    (hinv : c.LoopInv s) : c.HoldsStops s' := by
  intro hopen j entry hj hread hstops
  rw [hindex] at hj
  obtain ⟨other, hother, hplace, hnotdone⟩ := h (hstopped hopen) j entry hj hread hstops
  by_cases hsame : other = read
  · subst hsame
    refine ⟨{ other with phase := phase }, ?_, hplace, ?_⟩
    · rw [hin']
      exact mem_append_right _ mem_cons_self
    · intro hdone
      obtain ⟨-, hat, -⟩ := hinv.reads other hother
      rw [hplace] at hat
      obtain rfl := Option.some.inj (hread.found.symm.trans hat.found)
      refine hphase hopen hdone ?_
      rw [hplace]
      exact hstops
  · refine ⟨other, ?_, hplace, hnotdone⟩
    rw [hin']
    rw [hin] at hother
    exact mem_of_turn _ hother hsame

theorem holdsStops_answer {answer : Answer Fingerprint} (h : c.HoldsStops s) (hinv : c.LoopInv s)
    (hin : s.inFlight = before ++ read :: after) (hphase : read.phase = .requested answer) :
    c.HoldsStops { (c.answered s read answer).1 with
      inFlight := before ++ { read with phase := (c.answered s read answer).2 } :: after } := by
  obtain ⟨-, -, hwhere⟩ := hinv.reads read (mem_inFlight hin)
  unfold PhaseInv at hwhere
  rw [hphase] at hwhere
  have hverdict : c.verdict answer = c.verdictAt read.index read.entry := by
    rw [hwhere.1]
    rfl
  refine h.readTurn hin rfl (answered_index s read answer) ?_ ?_ hinv
  · show (c.answered s read answer).1.stopped = false → s.stopped = false
    unfold answered
    split <;> simp
  · show (c.answered s read answer).1.stopped = false →
      (c.answered s read answer).2 = .done → _
    rw [← stops_iff, ← hverdict]
    unfold answered
    cases c.verdict answer <;> simp [Verdict.stops]

theorem holdsStops_step {s' : LoopState} (h : c.HoldsStops s) (hinv : c.LoopInv s)
    (hstep : c.Step s s') : c.HoldsStops s' := by
  cases hstep with
  | exhausted htop hend => exact h
  | stoppedAtTop htop hstopped => exact h
  | check htop hentry hroom hopen hcheck => exact h
  | stoppedAtCheck hchecking hstopped => exact h
  | skip hchecking hopen =>
    intro _ j entry hj hread hstops
    rcases Nat.lt_succ_iff_lt_or_eq.mp hj with hlt | rfl
    · exact h hopen j entry hlt hread hstops
    · obtain ⟨skipped, hfound, hsuppressed⟩ := hinv.checking true hchecking
      obtain rfl := Option.some.inj (hread.found.symm.trans hfound)
      rw [hread.unsuppressed] at hsuppressed
      cases hsuppressed
  | @dispatch dispatched hchecking hopen hentry =>
    intro _ j entry hj hread hstops
    rcases Nat.lt_succ_iff_lt_or_eq.mp hj with hlt | rfl
    · obtain ⟨read, hin, hplace, hnotdone⟩ := h hopen j entry hlt hread hstops
      exact ⟨read, mem_append_left _ hin, hplace, hnotdone⟩
    · refine ⟨_, mem_append_right _ (mem_singleton_self _), rfl, ?_⟩
      intro hdone
      cases hdone
  | answer hin hphase => exact holdsStops_answer h hinv hin hphase
  | @settle before after read hin hphase =>
    refine h.readTurn hin rfl rfl (fun hopen => hopen) ?_ hinv
    intro _ _
    obtain ⟨-, -, hwhere⟩ := hinv.reads read (mem_inFlight hin)
    unfold PhaseInv at hwhere
    rw [hphase] at hwhere
    rw [← stops_iff, hwhere.1]
    simp [Verdict.stops]
  | fail hin hphase =>
    intro hopen
    cases hopen
  | @leave before after read hin hphase =>
    intro hopen j entry hj hread hstops
    obtain ⟨other, hother, hplace, hnotdone⟩ := h hopen j entry hj hread hstops
    refine ⟨other, ?_, hplace, hnotdone⟩
    have hne : other ≠ read := by
      rintro rfl
      exact hnotdone hphase
    rw [hin] at hother
    simp only [mem_append, mem_cons] at hother ⊢
    tauto

theorem HoldsStops.length_le (h : c.HoldsStops s) (hopen : s.stopped = false) :
    (c.stopPlaces s.index).length ≤ s.inFlight.length := by
  rw [← length_map InFlightRead.index]
  apply List.Subperm.length_le
  apply subperm_of_subset (nodup_range.filter _)
  intro j hmem
  obtain ⟨hj, entry, hread, hstops⟩ := (mem_stopPlaces s.index j).mp hmem
  obtain ⟨read, hin, hplace, -⟩ := h hopen j entry hj hread hstops
  exact mem_map.mpr ⟨read, hin, hplace⟩

theorem LoopInv.requested_of_exhausted (h : c.LoopInv s) (hin : read ∈ s.inFlight)
    (hnotdone : read.phase ≠ .done) (hexhausted : c.verdictAt read.index read.entry = .exhausted) :
    read.phase = .requested .exhausted := by
  obtain ⟨-, -, hwhere⟩ := h.reads read hin
  unfold PhaseInv at hwhere
  cases hphase : read.phase with
  | requested answer =>
    rw [hphase] at hwhere
    have hzero := (verdict_eq_exhausted_iff _).mp hexhausted
    rw [hwhere.1, answerAt, request_of_exhausted hzero]
  | admitting =>
    rw [hphase] at hwhere
    rw [hexhausted] at hwhere
    cases hwhere.1
  | throwing error =>
    rw [hphase] at hwhere
    rw [hexhausted] at hwhere
    cases hwhere.1
  | done => exact absurd hphase hnotdone

end SweepConfig

namespace CheckedSweep
variable (c : CheckedSweep)

/-- The first candidate whose check rejects, and what it rejects with. -/
structure FirstRejection (index : ℕ) (fault : Fault) : Prop where
  rejected : ∃ entry, c.prepared.eligible[index]? = some entry ∧
    c.rejection entry.candidate.key = some fault
  first : ∀ j < index, ∀ entry, c.prepared.eligible[j]? = some entry →
    c.rejection entry.candidate.key = none

/-- The dispatcher may await the check at `index` with every read that stops the
sweep still in flight: fewer than may be in flight at once, and the budget does
not end before the read just before it. -/
structure Reachable (index : ℕ) : Prop where
  room : (c.stopPlaces index).length < c.concurrency
  prompt : ∀ j < index, c.ExhaustedAt j → j + 1 = index

/-- The read at `index` ends the sweep otherwise than the fault does. -/
def EndsOtherwise (index : ℕ) (entry : Eligible) (fault : Fault) : Prop :=
  c.CappedAt index entry ∨ ∃ error, c.verdictAt index entry = .failed error ∧
    failureOutcome error ≠ failureOutcome (.fault fault)

/-- A rejected check within reach of the first read that stops the sweep, which
ends it otherwise. -/
def Overtaken : Prop :=
  ∃ index fault first entry, c.FirstRejection index fault ∧ c.Reachable index ∧
  first < index ∧ c.OpenTo first ∧ c.ReadAt first entry ∧ c.EndsOtherwise first entry fault

variable {c}

open SweepConfig

/-! What holds until a check is thrown, and when it is. -/

/-- What every turn keeps until a rejected check is thrown. -/
structure Unthrown (c : CheckedSweep) (s : LoopState) : Prop where
  runs : c.toSweepConfig.Runs c.toSweepConfig.start s
  holds : c.HoldsStops s
  last : s.stopped = false → ∀ j < s.index, c.ExhaustedAt j → j + 1 = s.index
  reachable : ∀ isSuppressed, s.dispatcher = .checking isSuppressed → c.Reachable s.index
  answered : ∀ j < s.index, ∀ entry, c.prepared.eligible[j]? = some entry →
    c.rejection entry.candidate.key = none

/-- What every turn keeps. -/
def Kept (c : CheckedSweep) (s : CheckedState) : Prop :=
  match s.thrown with
  | none => c.Unthrown s.loop
  | some fault => ∃ index, c.FirstRejection index fault ∧ c.Reachable index

theorem Unthrown.inv (h : c.Unthrown s) : c.LoopInv s :=
  c.turns.runs_keep loopInv_start h.runs

theorem unthrown_start : c.Unthrown c.toSweepConfig.start where
  runs := .refl
  holds _ _ _ hj := absurd hj (Nat.not_lt_zero _)
  last _ _ hj := absurd hj (Nat.not_lt_zero _)
  reachable _ hchecking := by cases hchecking
  answered _ hj := absurd hj (Nat.not_lt_zero _)

theorem Unthrown.not_exhausted (h : c.Unthrown s) (hopen : s.stopped = false)
    (hprompt : ∀ read ∈ s.inFlight, read.phase ≠ .requested .exhausted) :
    ∀ j < s.index, ¬ c.ExhaustedAt j := by
  rintro j hj ⟨entry, hread, hexhausted⟩
  obtain ⟨read, hin, rfl, hnotdone⟩ := h.holds hopen j entry hj hread (.inl (.inl hexhausted))
  obtain ⟨-, hat, -⟩ := h.inv.reads read hin
  obtain rfl := Option.some.inj (hread.found.symm.trans hat.found)
  exact hprompt read hin (h.inv.requested_of_exhausted hin hnotdone hexhausted)

theorem Unthrown.reachable_of_room (h : c.Unthrown s) (hopen : s.stopped = false)
    (hroom : s.inFlight.length < c.concurrency) :
    c.Reachable s.index where
  room := (h.holds.length_le hopen).trans_lt hroom
  prompt := h.last hopen

variable {s' : LoopState}

theorem Unthrown.advance (h : c.Unthrown s) (hstep : c.toSweepConfig.Step s s')
    (hopen : s.stopped = false) (hawaited : c.Awaited s) (hindex : s'.index = s.index + 1)
    (htop : s'.dispatcher = .top) : c.Unthrown s' where
  runs := h.runs.tail hstep
  holds := holdsStops_step h.holds h.inv hstep
  last _ j hj hexhausted := by
    rw [hindex] at hj ⊢
    rcases Nat.lt_succ_iff_lt_or_eq.mp hj with hlt | rfl
    · exact absurd hexhausted (h.not_exhausted hopen hawaited.prompt j hlt)
    · rfl
  reachable _ hchecking := by
    rw [htop] at hchecking
    cases hchecking
  answered j hj entry hentry := by
    rw [hindex] at hj
    rcases Nat.lt_succ_iff_lt_or_eq.mp hj with hlt | rfl
    · exact h.answered j hlt entry hentry
    · exact hawaited.answered entry hentry

theorem Unthrown.stay (h : c.Unthrown s) (hstep : c.toSweepConfig.Step s s')
    (hindex : s'.index = s.index) (hopen : s'.stopped = false → s.stopped = false)
    (hreachable : ∀ isSuppressed, s'.dispatcher = .checking isSuppressed →
      c.Reachable s.index) : c.Unthrown s' where
  runs := h.runs.tail hstep
  holds := holdsStops_step h.holds h.inv hstep
  last hnot j hj hexhausted := by
    rw [hindex] at hj ⊢
    exact h.last (hopen hnot) j hj hexhausted
  reachable isSuppressed hchecking := by
    rw [hindex]
    exact hreachable isSuppressed hchecking
  answered j hj := h.answered j (hindex ▸ hj)

theorem answered_stopped (s : LoopState) (read : InFlightRead) (answer : Answer Fingerprint)
    (h : (c.answered s read answer).1.stopped = false) : s.stopped = false := by
  unfold SweepConfig.answered at h
  split at h
  · cases h
  · cases h
  · exact h
  · exact h
  · exact h

theorem Unthrown.turn (h : c.Unthrown s) (hstep : c.toSweepConfig.Step s s')
    (hawaited : ∀ isSuppressed, s.dispatcher = .checking isSuppressed →
      s'.dispatcher ≠ s.dispatcher → c.Awaited s) : c.Unthrown s' := by
  cases hstep with
  | exhausted htop hend =>
    exact h.stay (.exhausted htop hend) rfl (fun hopen => hopen)
      (fun _ hchecking => by cases hchecking)
  | stoppedAtTop htop hstopped =>
    exact h.stay (.stoppedAtTop htop hstopped) rfl (fun hopen => hopen)
      (fun _ hchecking => by cases hchecking)
  | check htop hentry hroom hopen hcheck =>
    exact h.stay (.check htop hentry hroom hopen hcheck) rfl (fun hopen => hopen)
      (fun _ _ => h.reachable_of_room hopen hroom)
  | stoppedAtCheck hchecking hstopped =>
    exact h.stay (.stoppedAtCheck hchecking hstopped) rfl (fun hopen => hopen)
      (fun _ hleft => by cases hleft)
  | skip hchecking hopen =>
    refine h.advance (.skip hchecking hopen) hopen (hawaited _ hchecking ?_) rfl rfl
    rw [hchecking]
    exact Dispatcher.noConfusion
  | dispatch hchecking hopen hentry =>
    refine h.advance (.dispatch hchecking hopen hentry) hopen (hawaited _ hchecking ?_) rfl rfl
    rw [hchecking]
    exact Dispatcher.noConfusion
  | @answer before after read answer hin hphase =>
    refine h.stay (.answer hin hphase) (answered_index s read answer) ?_ ?_
    · exact answered_stopped s read answer
    · intro isSuppressed hchecking
      apply h.reachable isSuppressed
      rw [← hchecking]
      exact (answered_dispatcher s read answer).symm
  | settle hin hphase =>
    exact h.stay (.settle hin hphase) rfl (fun hopen => hopen) h.reachable
  | fail hin hphase =>
    exact h.stay (.fail hin hphase) rfl (fun hopen => by cases hopen) h.reachable
  | leave hin hphase =>
    exact h.stay (.leave hin hphase) rfl (fun hopen => hopen) h.reachable

theorem Kept.step {s s' : CheckedState} (h : c.Kept s) (hstep : c.Step s s') : c.Kept s' := by
  cases hstep with
  | @turn s s' thrown hstep hawaited =>
    cases thrown with
    | none => exact Unthrown.turn h hstep hawaited
    | some fault => exact h
  | @reject s isSuppressed entry fault hchecking hprompt hentry hrejected =>
    have h : c.Unthrown s := h
    exact ⟨s.index, ⟨⟨entry, hentry, hrejected⟩, h.answered⟩, h.reachable isSuppressed hchecking⟩

theorem Kept.runs {s : CheckedState} (hruns : c.Runs c.start s) : c.Kept s := by
  induction hruns with
  | refl => exact unthrown_start
  | tail _ hstep ih => exact ih.step hstep

theorem FirstRejection.unique {index index' : ℕ} {fault fault' : Fault}
    (h : c.FirstRejection index fault) (h' : c.FirstRejection index' fault') :
    index = index' ∧ fault = fault' := by
  obtain ⟨entry, hentry, hrejected⟩ := h.rejected
  obtain ⟨entry', hentry', hrejected'⟩ := h'.rejected
  rcases Nat.lt_trichotomy index index' with hlt | rfl | hlt
  · have hnone := h'.first index hlt entry hentry
    rw [hrejected] at hnone
    cases hnone
  · obtain rfl := Option.some.inj (hentry.symm.trans hentry')
    exact ⟨rfl, Option.some.inj (hrejected.symm.trans hrejected')⟩
  · have hnone := h.first index' hlt entry' hentry'
    rw [hrejected'] at hnone
    cases hnone

theorem thrown_of_openTo {s : CheckedState} {index : ℕ} {fault : Fault}
    (hruns : c.Runs c.start s) (hreturned : s.loop.Returned)
    (hrejection : c.FirstRejection index fault) (hopen : c.OpenTo index) :
    s.thrown = some fault := by
  have hkept := Kept.runs hruns
  unfold Kept at hkept
  cases hthrown : s.thrown with
  | none =>
    rw [hthrown] at hkept
    obtain ⟨entry, hentry, hrejected⟩ := hrejection.rejected
    have hle : s.loop.index ≤ index := by
      by_contra hlt
      have hanswered := hkept.answered index (by omega) entry hentry
      rw [hrejected] at hanswered
      cases hanswered
    have hend := hkept.inv.index_eq_of_open hreturned fun j hj => hopen j (by omega)
    have hlt := lt_length hentry
    omega
  | some fault' =>
    rw [hthrown] at hkept
    obtain ⟨place, hplace, -⟩ := hkept
    exact congrArg some (hplace.unique hrejection).2

/-! Every run ends. -/

theorem turnsLeft_lt_of_finished {c : SweepConfig} (hfinished : s.dispatcher = .finished)
    (hstep : c.Step s s') :
    s'.dispatcher = .finished ∧ c.turnsLeft s' < c.turnsLeft s := by
  cases hstep with
  | exhausted htop hend =>
    rw [hfinished] at htop
    cases htop
  | stoppedAtTop htop hstopped =>
    rw [hfinished] at htop
    cases htop
  | check htop hentry hroom hopen hcheck =>
    rw [hfinished] at htop
    cases htop
  | stoppedAtCheck hchecking hstopped =>
    rw [hfinished] at hchecking
    cases hchecking
  | skip hchecking hopen =>
    rw [hfinished] at hchecking
    cases hchecking
  | dispatch hchecking hopen hentry =>
    rw [hfinished] at hchecking
    cases hchecking
  | @answer before after read answer hin hphase =>
    refine ⟨(answered_dispatcher s read answer).trans hfinished,
      turnsLeft_lt_of_phase (answered_index s read answer)
        (answered_dispatcher s read answer) hin rfl ?_⟩
    rw [hphase]
    exact turnsLeft_answered_lt s read answer
  | settle hin hphase =>
    refine ⟨hfinished, turnsLeft_lt_of_phase rfl rfl hin rfl ?_⟩
    simp [hphase, ReadPhase.turnsLeft]
  | fail hin hphase =>
    refine ⟨hfinished, turnsLeft_lt_of_phase rfl rfl hin rfl ?_⟩
    simp [hphase, ReadPhase.turnsLeft]
  | leave hin hphase =>
    refine ⟨hfinished, ?_⟩
    simp only [SweepConfig.turnsLeft, hin, map_append, map_cons, sum_append,
      sum_cons, hphase, ReadPhase.turnsLeft]
    omega

/-- Until a check is thrown the loop keeps its invariant; then its dispatcher has left it. -/
def Running (c : CheckedSweep) (s : CheckedState) : Prop :=
  match s.thrown with
  | none => c.Unthrown s.loop
  | some _ => s.loop.dispatcher = .finished

theorem Running.step {s s' : CheckedState} (h : c.Running s) (hstep : c.Step s s') :
    c.Running s' := by
  cases hstep with
  | @turn s s' thrown hstep hawaited =>
    cases thrown with
    | none => exact Unthrown.turn h hstep hawaited
    | some fault => exact (turnsLeft_lt_of_finished h hstep).1
  | reject hchecking hprompt hentry hrejected => rfl

theorem Running.turnsLeft_lt {s s' : CheckedState} (h : c.Running s) (hstep : c.Step s s') :
    c.turnsLeft s'.loop < c.turnsLeft s.loop := by
  cases hstep with
  | @turn s s' thrown hstep hawaited =>
    cases thrown with
    | none => exact (Unthrown.inv h).turnsLeft_lt hstep
    | some fault => exact (turnsLeft_lt_of_finished h hstep).2
  | @reject s isSuppressed entry fault hchecking hprompt hentry hrejected =>
    simp [SweepConfig.turnsLeft, hchecking, Dispatcher.turnsLeft]

theorem Step.read {thrown : Option Fault} (hstep : c.toSweepConfig.Step s s')
    (hdispatcher : s'.dispatcher = s.dispatcher) : c.Step ⟨s, thrown⟩ ⟨s', thrown⟩ :=
  .turn hstep fun _ _ hmoved => absurd hdispatcher hmoved

theorem exists_read {read : InFlightRead} {after : List InFlightRead} (thrown : Option Fault)
    (hin : s.inFlight = read :: after) :
    ∃ s', c.Step ⟨s, thrown⟩ s' := by
  have hin : s.inFlight = [] ++ read :: after := hin
  cases hphase : read.phase with
  | requested answer =>
    exact ⟨_, .read (.answer hin hphase) (answered_dispatcher s read answer)⟩
  | admitting => exact ⟨_, .read (.settle hin hphase) rfl⟩
  | throwing error => exact ⟨_, .read (.fail hin hphase) rfl⟩
  | done => exact ⟨_, .read (.leave hin hphase) rfl⟩

theorem Running.progress {s : CheckedState} (h : c.Running s) (hreturned : ¬ s.loop.Returned) :
    ∃ s', c.Step s s' := by
  obtain ⟨s, thrown⟩ := s
  cases hin : s.inFlight with
  | cons read after => exact exists_read thrown hin
  | nil =>
    have hdispatcher : s.dispatcher ≠ .finished := fun hfinished => hreturned ⟨hfinished, hin⟩
    cases thrown with
    | some fault => exact absurd h hdispatcher
    | none =>
      have h : c.Unthrown s := h
      have hprompt : ∀ read ∈ s.inFlight, read.phase ≠ .requested .exhausted := by
        rw [hin]
        exact fun _ hmem => absurd hmem not_mem_nil
      obtain ⟨s', hstep⟩ := h.inv.exists_step_of_dispatcher hin hdispatcher
      cases hentry : c.prepared.eligible[s.index]? with
      | none =>
        refine ⟨_, .turn hstep fun isSuppressed hchecking _ => ?_⟩
        obtain ⟨entry, hfound, -⟩ := h.inv.checking isSuppressed hchecking
        rw [hentry] at hfound
        cases hfound
      | some entry =>
        cases hrejected : c.rejection entry.candidate.key with
        | none =>
          refine ⟨_, .turn hstep fun _ _ _ => ⟨hprompt, fun other hother => ?_⟩⟩
          obtain rfl := Option.some.inj (hentry.symm.trans hother)
          exact hrejected
        | some fault =>
          cases hcase : s.dispatcher with
          | top =>
            refine ⟨_, .turn hstep fun isSuppressed hchecking _ => ?_⟩
            rw [hcase] at hchecking
            cases hchecking
          | checking isSuppressed => exact ⟨_, .reject hcase hprompt hentry hrejected⟩
          | finished => exact absurd hcase hdispatcher

variable (c)

/-- The loop as a system whose every run ends. -/
def turns : Transitions c.Step (fun s => s.loop.Returned) where
  Inv := c.Running
  rank s := c.turnsLeft s.loop
  keeps _ _ h hstep := h.step hstep
  descends _ _ h hstep := h.turnsLeft_lt hstep
  progress _ h hreturned := h.progress hreturned

variable {c}

theorem running_start : c.Running c.start := unthrown_start

theorem running_of_runs {s : CheckedState} (hruns : c.Runs c.start s) : c.Running s := by
  have hstart : c.turns.Inv c.start := running_start
  exact c.turns.runs_keep hstart hruns

theorem exists_returned : ∃ s, c.Runs c.start s ∧ s.loop.Returned := by
  have hstart : c.turns.Inv c.start := running_start
  exact c.turns.exists_final hstart

end CheckedSweep

end SlashWho.FingerprintDiscovery
