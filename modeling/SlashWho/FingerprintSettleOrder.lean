import SlashWho.FingerprintConcurrency

/-!
Whatever order its reads settle in, a sweep returns, and returns what reading
one candidate at a time returns. Each turn uses up part of the work there is to
do; and once no read is in flight, the settled results fold to the serial
reading, whose accounts are the dispatcher's less the refusals given back.
-/

namespace SlashWho.FingerprintDiscovery

open List Characters

/-! Every run ends. -/

/-- The turns a read has still to take. -/
def ReadPhase.turnsLeft : ReadPhase → ℕ
  | .requested _ => 4
  | .admitting => 3
  | .throwing _ => 2
  | .done => 1

/-- The turns the dispatcher has still to take at its index. -/
def Dispatcher.turnsLeft : Dispatcher → ℕ
  | .top => 2
  | .checking _ => 1
  | .finished => 0

namespace SweepConfig
variable (c : SweepConfig)

/-- A bound on the turns left: six for each candidate not dispatched yet. -/
def turnsLeft (s : LoopState) : ℕ :=
  6 * (c.prepared.eligible.length - s.index) + s.dispatcher.turnsLeft +
    (s.inFlight.map (fun read => read.phase.turnsLeft)).sum

variable {c}

theorem turnsLeft_answered_lt (s : LoopState) (read : InFlightRead)
    (answer : Answer Fingerprint) : (c.answered s read answer).2.turnsLeft < 4 := by
  unfold answered
  split <;> simp [ReadPhase.turnsLeft]

theorem answered_index (s : LoopState) (read : InFlightRead) (answer : Answer Fingerprint) :
    (c.answered s read answer).1.index = s.index := by
  unfold answered
  split <;> rfl

theorem answered_dispatcher (s : LoopState) (read : InFlightRead)
    (answer : Answer Fingerprint) :
    (c.answered s read answer).1.dispatcher = s.dispatcher := by
  unfold answered
  split <;> rfl

variable {s : LoopState}

theorem turnsLeft_lt_of_phase {s' : LoopState} {before after : List InFlightRead}
    {read : InFlightRead} {phase : ReadPhase} (hindex : s'.index = s.index)
    (hdispatcher : s'.dispatcher = s.dispatcher) (hin : s.inFlight = before ++ read :: after)
    (hin' : s'.inFlight = before ++ { read with phase := phase } :: after)
    (hphase : phase.turnsLeft < read.phase.turnsLeft) : c.turnsLeft s' < c.turnsLeft s := by
  unfold turnsLeft
  rw [hindex, hdispatcher, hin, hin']
  simp only [map_append, map_cons, sum_append, sum_cons]
  omega

theorem LoopInv.turnsLeft_lt {s' : LoopState} (h : c.LoopInv s) (hstep : c.Step s s') :
    c.turnsLeft s' < c.turnsLeft s := by
  cases hstep with
  | exhausted htop _ => simp [turnsLeft, htop, Dispatcher.turnsLeft]
  | stoppedAtTop htop _ => simp [turnsLeft, htop, Dispatcher.turnsLeft]
  | check htop _ _ _ _ => simp [turnsLeft, htop, Dispatcher.turnsLeft]
  | stoppedAtCheck hchecking _ => simp [turnsLeft, hchecking, Dispatcher.turnsLeft]
  | skip hchecking _ =>
    obtain ⟨entry, hentry, -⟩ := h.checking true hchecking
    have hlt := lt_length hentry
    simp only [turnsLeft, hchecking, Dispatcher.turnsLeft]
    omega
  | dispatch hchecking _ hentry =>
    have hlt := lt_length hentry
    simp only [turnsLeft, hchecking, Dispatcher.turnsLeft, map_append, map_cons,
      map_nil, sum_append, sum_singleton, ReadPhase.turnsLeft]
    omega
  | @answer before after read answer hin hphase =>
    refine turnsLeft_lt_of_phase ?_ ?_ hin rfl ?_
    · exact answered_index s read answer
    · exact answered_dispatcher s read answer
    · rw [hphase]
      exact turnsLeft_answered_lt s read answer
  | settle hin hphase =>
    refine turnsLeft_lt_of_phase rfl rfl hin rfl ?_
    simp [hphase, ReadPhase.turnsLeft]
  | fail hin hphase =>
    refine turnsLeft_lt_of_phase rfl rfl hin rfl ?_
    simp [hphase, ReadPhase.turnsLeft]
  | leave hin hphase =>
    simp only [turnsLeft, hin, map_append, map_cons, sum_append, sum_cons,
      hphase, ReadPhase.turnsLeft]
    omega

variable {entry : Eligible}

theorem exists_lookAhead (hentry : c.prepared.eligible[s.index]? = some entry) :
    ∃ isSuppressed, c.lookAhead s.suppressionChecks s.index s.index = some isSuppressed := by
  have hpos : 0 < c.concurrency := readConcurrency_pos _
  unfold lookAhead
  cases hcheck : s.suppressionChecks s.index with
  | none =>
    rw [if_pos ⟨Nat.le_refl _, by omega, rfl⟩, hentry]
    exact ⟨_, rfl⟩
  | some isSuppressed =>
    rw [if_neg (fun hnew => by cases hnew.2.2)]
    exact ⟨isSuppressed, rfl⟩

theorem exists_step_of_inFlight {read : InFlightRead} {after : List InFlightRead}
    (hin : s.inFlight = read :: after) : ∃ s', c.Step s s' := by
  have hin : s.inFlight = [] ++ read :: after := hin
  cases hphase : read.phase with
  | requested answer => exact ⟨_, Step.answer hin hphase⟩
  | admitting => exact ⟨_, Step.settle hin hphase⟩
  | throwing error => exact ⟨_, Step.fail hin hphase⟩
  | done => exact ⟨_, Step.leave hin hphase⟩

/-- With no read in flight, the dispatcher has a turn to take until it leaves. -/
theorem LoopInv.exists_step_of_dispatcher (h : c.LoopInv s) (hin : s.inFlight = [])
    (hdispatcher : s.dispatcher ≠ .finished) : ∃ s', c.Step s s' := by
  cases hcase : s.dispatcher with
  | finished => exact absurd hcase hdispatcher
  | top =>
    cases hentry : c.prepared.eligible[s.index]? with
    | none => exact ⟨_, Step.exhausted hcase (getElem?_eq_none_iff.mp hentry)⟩
    | some entry =>
      cases hstopped : s.stopped with
      | true => exact ⟨_, Step.stoppedAtTop hcase hstopped⟩
      | false =>
        obtain ⟨isSuppressed, hcheck⟩ := exists_lookAhead hentry
        have hroom : s.inFlight.length < c.concurrency := by
          rw [hin]
          exact readConcurrency_pos _
        exact ⟨_, Step.check hcase hentry hroom hstopped hcheck⟩
  | checking isSuppressed =>
    obtain ⟨entry, hentry, -⟩ := h.checking isSuppressed hcase
    cases hstopped : s.stopped with
    | true => exact ⟨_, Step.stoppedAtCheck hcase hstopped⟩
    | false =>
      cases isSuppressed with
      | true => exact ⟨_, Step.skip hcase hstopped⟩
      | false => exact ⟨_, Step.dispatch hcase hstopped hentry⟩

theorem LoopInv.progress (h : c.LoopInv s) (hreturned : ¬ s.Returned) :
    ∃ s', c.Step s s' := by
  cases hin : s.inFlight with
  | nil => exact h.exists_step_of_dispatcher hin (fun hfinished => hreturned ⟨hfinished, hin⟩)
  | cons read after => exact exists_step_of_inFlight hin

variable (c)

/-- The candidate loop as a system whose every run ends. -/
def turns : Transitions c.Step LoopState.Returned where
  Inv := c.LoopInv
  rank := c.turnsLeft
  keeps _ _ h hstep := h.step hstep
  descends _ _ h hstep := h.turnsLeft_lt hstep
  progress _ h hreturned := h.progress hreturned

variable {c}

/-! What has settled once it ends. -/

/-- No read before `index` stops the sweep. -/
def OpenTo (c : SweepConfig) (index : ℕ) : Prop :=
  ∀ j < index, ∀ entry, c.ReadAt j entry → ¬ c.StopsAt j entry

variable {index : ℕ}

theorem OpenTo.succ (h : c.OpenTo index)
    (hat : ∀ entry, c.ReadAt index entry → ¬ c.StopsAt index entry) : c.OpenTo (index + 1) := by
  intro j hj entry hread
  rcases Nat.lt_succ_iff_lt_or_eq.mp hj with hlt | rfl
  · exact h j hlt entry hread
  · exact hat entry hread

theorem OpenTo.refusalsBefore (h : c.OpenTo index) :
    c.refusalsBefore index = 0 :=
  refusalsBefore_eq_zero fun j hj entry hread hrefused =>
    h j hj entry hread (.inl (.inr hrefused))

theorem LoopInv.index_eq_of_open (h : c.LoopInv s) (hreturned : s.Returned)
    (hopen : c.OpenTo s.index) : s.index = c.prepared.eligible.length := by
  rcases h.left hreturned.1 with hend | hstopped
  · exact hend
  · obtain ⟨j, entry, hj, hread, hstops⟩ := h.stops hstopped
    exact absurd hstops (hopen j hj entry hread)

theorem LoopInv.lt_index_of_open (h : c.LoopInv s) (hreturned : s.Returned) (hopen : c.OpenTo index)
    (hlt : index < c.prepared.eligible.length) :
    index < s.index := by
  by_contra hle
  have hend := h.index_eq_of_open hreturned fun j hj => hopen j (by omega)
  omega

theorem LoopInv.settles (h : c.LoopInv s) (hreturned : s.Returned) (hlt : index < s.index)
    (hread : c.ReadAt index entry) :
    c.Settles s index entry := by
  rcases h.covered index entry hlt hread with ⟨read, hin, -⟩ | hsettles
  · rw [hreturned.2] at hin
    cases hin
  · exact hsettles

/-- The folded results agree with a reading: the same failure, or the same of everything. -/
structure Agrees (s : LoopState) (folded : List DiscoveredCharacter × Option CanonicalId)
    (serial : Reading) : Prop where
  failure : s.failure.map Prod.snd = serial.failure
  characters : serial.failure = none → folded.1 = serial.characters
  lastSweptId : serial.failure = none → folded.2 = serial.lastSweptId
  requestsUsed : serial.failure = none → s.budget.requestsUsed = serial.requestsUsed
  capped : serial.failure = none → s.budget.capped = serial.capped

theorem LoopInv.agrees_of_capped (h : c.LoopInv s) (hreturned : s.Returned) (hopen : c.OpenTo index)
    (hlt : index < s.index) (hread : c.ReadAt index entry) (hcapped : c.CappedAt index entry)
    (lastSweptId : Option CanonicalId) :
    Agrees s ([], lastSweptId)
      ⟨[], lastSweptId, (c.budgetAt index).requestsUsed, true, none⟩ where
  failure := by
    -- a read that fails would come after the capped one, and be capped itself
    cases hfailure : s.failure with
    | none => rfl
    | some kept =>
      obtain ⟨other, -, hat, hfailed⟩ := h.fails kept.1 kept.2 hfailure
      by_cases hle : index ≤ kept.1
      · rcases cappedAt_of_le other hle hcapped with hexhausted | hrefused
        · rw [hfailed] at hexhausted
          cases hexhausted
        · rw [hfailed] at hrefused
          cases hrefused
      · exact absurd (.inr ⟨kept.2, hfailed⟩) (hopen kept.1 (by omega) other hat)
  characters _ := rfl
  lastSweptId _ := rfl
  requestsUsed _ := by
    have hused := h.used
    rw [hreturned.2, countP_nil] at hused
    have hgiven := requestsUsed_of_capped (Nat.le_of_lt hlt) hcapped
    rw [hopen.refusalsBefore] at hgiven
    show s.budget.requestsUsed = (c.budgetAt index).requestsUsed
    omega
  capped _ := by
    apply h.capped.mpr
    rcases hcapped with hexhausted | hrefused
    · left
      have hnext : (c.budgetAt (index + 1)).capped = true := by
        rw [budgetAt_succ_of_read hread,
          request_of_exhausted ((verdict_eq_exhausted_iff _).mp hexhausted)]
      exact (later_budgetAt (c := c) hlt).capped hnext
    · right
      have hsettles := h.settles hreturned hlt hread
      unfold Settles at hsettles
      rw [hrefused] at hsettles
      refine ⟨index, entry, hlt, hread, hrefused, ?_⟩
      rw [hsettles]
      exact Option.some_ne_none _

theorem LoopInv.agrees_of_end (h : c.LoopInv s) (hreturned : s.Returned)
    (hopen : c.OpenTo c.prepared.eligible.length) (lastSweptId : Option CanonicalId) :
    Agrees s ([], lastSweptId)
      ⟨[], lastSweptId, (c.budgetAt c.prepared.eligible.length).requestsUsed,
        (c.budgetAt c.prepared.eligible.length).capped, none⟩ := by
  have hend := h.index_eq_of_open hreturned fun j hj => hopen j (hj.trans_le h.indexed)
  have hused := h.used
  have hcapped := h.capped
  rw [hreturned.2, countP_nil, hend, hopen.refusalsBefore] at hused
  rw [hend] at hcapped
  refine ⟨?_, fun _ => rfl, fun _ => rfl, fun _ => hused, fun _ => ?_⟩
  · cases hfailure : s.failure with
    | none => rfl
    | some kept =>
      obtain ⟨other, hj, hat, hfailed⟩ := h.fails kept.1 kept.2 hfailure
      exact absurd (.inr ⟨kept.2, hfailed⟩) (hopen kept.1 (hend ▸ hj) other hat)
  · rw [Bool.eq_iff_iff, hcapped]
    refine ⟨?_, .inl⟩
    rintro (hcap | ⟨j, entry, hj, hat, hrefused, -⟩)
    · exact hcap
    · exact absurd (.inl (.inr hrefused)) (hopen j hj entry hat)

theorem Agrees.cons {folded : List DiscoveredCharacter × Option CanonicalId} {serial : Reading}
    (h : Agrees s folded serial) (character : DiscoveredCharacter) :
    Agrees s (character :: folded.1, folded.2)
      { serial with characters := character :: serial.characters } where
  failure := h.failure
  characters hnone := congrArg _ (h.characters hnone)
  lastSweptId := h.lastSweptId
  requestsUsed := h.requestsUsed
  capped := h.capped

/-- From any place no read before which stops the sweep, what has settled folds
to the serial reading from there. -/
theorem LoopInv.agrees (h : c.LoopInv s) (hreturned : s.Returned) (remaining index : ℕ)
    (lastSweptId : Option CanonicalId) (hremaining : index + remaining = c.prepared.eligible.length)
    (hopen : c.OpenTo index) :
    Agrees s (foldSettled s.settled remaining index lastSweptId)
      (c.serialReading (c.budgetAt index) lastSweptId (c.prepared.eligible.drop index)) := by
  induction remaining generalizing index lastSweptId with
  | zero =>
    obtain rfl : index = c.prepared.eligible.length := hremaining
    rw [drop_length]
    exact h.agrees_of_end hreturned hopen lastSweptId
  | succ remaining ih =>
    have hinside : index < c.prepared.eligible.length := by omega
    have hlt := h.lt_index_of_open hreturned hopen hinside
    have hentry : c.prepared.eligible[index]? = some c.prepared.eligible[index] :=
      getElem?_eq_getElem hinside
    rw [drop_eq_getElem_cons hinside]
    generalize c.prepared.eligible[index] = entry at hentry ⊢
    have hnext : ∀ last, (∀ other, c.ReadAt index other → ¬ c.StopsAt index other) →
        Agrees s (foldSettled s.settled remaining (index + 1) last)
          (c.serialReading (c.budgetAt (index + 1)) last
            (c.prepared.eligible.drop (index + 1))) :=
      fun last hat => ih (index + 1) last (by omega) (hopen.succ hat)
    unfold foldSettled serialReading
    cases hsuppressed : c.suppressed entry with
    | true =>
      rw [h.skipped index entry hlt hentry hsuppressed, if_pos rfl]
      rw [budgetAt_succ_of_suppressed hentry hsuppressed] at hnext
      apply hnext
      intro other hread
      obtain rfl := Option.some.inj (hentry.symm.trans hread.found)
      rw [hread.unsuppressed] at hsuppressed
      cases hsuppressed
    | false =>
      have hread : c.ReadAt index entry := ⟨hentry, hsuppressed⟩
      have hsame : ∀ other, c.ReadAt index other → other = entry :=
        fun other hother => Option.some.inj (hother.found.symm.trans hentry)
      have hsettles := h.settles hreturned hlt hread
      have hbudget := budgetAt_succ_of_read hread
      have hopenAt : ¬ c.StopsAt index entry →
          ∀ other, c.ReadAt index other → ¬ c.StopsAt index other :=
        fun hstops other hother => hsame other hother ▸ hstops
      have hanswer : c.verdict (request c.gateway (c.budgetAt index) (c.reply entry)).2 =
          c.verdictAt index entry := rfl
      rw [if_neg (by simp)]
      dsimp only
      rw [hanswer, ← hbudget]
      unfold Settles at hsettles
      cases hverdict : c.verdictAt index entry with
      | exhausted =>
        have hstops := h.agrees_of_capped hreturned hopen hlt hread (.inl hverdict) lastSweptId
        rw [hverdict] at hsettles
        rw [hsettles, hbudget,
          request_of_exhausted ((verdict_eq_exhausted_iff _).mp hverdict)]
        exact hstops
      | refused =>
        have hstops := h.agrees_of_capped hreturned hopen hlt hread (.inr hverdict) lastSweptId
        rw [hverdict] at hsettles
        rw [hsettles, hbudget,
          request_of_remaining ((verdict_eq_refused_iff _).mp hverdict).1]
        exact hstops
      | unmatched =>
        rw [hverdict] at hsettles
        rw [hsettles]
        apply hnext
        apply hopenAt
        unfold StopsAt CappedAt
        simp [hverdict]
      | matched =>
        rw [hverdict] at hsettles
        rw [hsettles]
        have hrest : Agrees s _ _ := hnext (some entry.id) (by
          apply hopenAt
          unfold StopsAt CappedAt
          simp [hverdict])
        unfold admission
        rw [if_neg (by simp [hsuppressed])]
        exact hrest.cons (discoveredCharacter entry.candidate)
      | failed error =>
        rw [hverdict] at hsettles
        obtain ⟨hnone, first, kept, hfailure, hle⟩ := hsettles
        rw [hnone]
        obtain ⟨other, -, hat, hfailed⟩ := h.fails first kept hfailure
        have hfirst : first = index := by
          by_contra hne
          exact absurd (.inr ⟨kept, hfailed⟩) (hopen first (by omega) other hat)
        subst hfirst
        obtain rfl := hsame other hat
        obtain rfl := Verdict.failed.inj (hverdict.symm.trans hfailed)
        refine ⟨?_, ?_, ?_, ?_, ?_⟩
        · rw [hfailure]
          rfl
        all_goals
          intro hnothing
          cases hnothing

theorem not_capReached_of_serialReading {b : Budget} {lastSweptId : Option CanonicalId}
    {entries : List Eligible} {error : Thrown}
    (h : (c.serialReading b lastSweptId entries).failure = some error) :
    isCapReached error = false := by
  induction entries generalizing b lastSweptId with
  | nil => cases h
  | cons entry rest ih =>
    unfold serialReading at h
    split at h
    · exact ih h
    · dsimp only at h
      split at h
      · cases h
      · cases h
      · next hfailed =>
        obtain rfl := Option.some.inj h
        exact not_capReached_of_failed hfailed
      · exact ih h
      · exact ih h

theorem Agrees.outcome_eq {candidates : ℕ} {serial : Reading}
    (h : Agrees s (foldSettled s.settled candidates 0 none) serial)
    (hfailure : ∀ error, serial.failure = some error → isCapReached error = false) (skipped : ℕ) :
    (s.reading candidates).outcome skipped = serial.outcome skipped := by
  unfold Reading.outcome
  rw [show (s.reading candidates).failure = serial.failure from h.failure]
  cases hserial : serial.failure with
  | some error =>
    dsimp only
    unfold caught
    rw [hfailure error hserial]
    rfl
  | none =>
    dsimp only
    rw [show (s.reading candidates).capped = serial.capped from h.capped hserial,
      show (s.reading candidates).characters = serial.characters from h.characters hserial,
      show (s.reading candidates).requestsUsed = serial.requestsUsed from h.requestsUsed hserial,
      show (s.reading candidates).lastSweptId = serial.lastSweptId from h.lastSweptId hserial]

theorem outcome_eq_serial (hruns : c.Runs c.start s) (hreturned : s.Returned) (skipped : ℕ) :
    (s.reading c.prepared.eligible.length).outcome skipped =
      (c.serialReading c.prepared.budget none c.prepared.eligible).outcome skipped := by
  have hinv : c.LoopInv s := c.turns.runs_keep loopInv_start hruns
  have hopen : c.OpenTo 0 := fun j hj => absurd hj (Nat.not_lt_zero j)
  have hagrees := hinv.agrees hreturned c.prepared.eligible.length 0 none (Nat.zero_add _) hopen
  exact hagrees.outcome_eq (fun error herror => not_capReached_of_serialReading herror) skipped

end SweepConfig

variable (runtime : Runtime)

/-- The outcome of a sweep that reads its candidates one at a time. -/
def serialOutcome (root : CharacterKey) (gateway : Gateway) (options : DiscoverOptions) :
    FingerprintSweepOutcome :=
  match prepare runtime root gateway options with
  | .error early => early
  | .ok prepared =>
    let c : SweepConfig := ⟨runtime, gateway, options, prepared⟩
    (c.serialReading prepared.budget none prepared.eligible).outcome
      prepared.skippedHistoricalGuilds

variable (root : CharacterKey)

theorem mayReturn_iff (gateway : Gateway) (options : DiscoverOptions)
    (outcome : FingerprintSweepOutcome) :
    MayReturn runtime root gateway options outcome ↔
      outcome = serialOutcome runtime root gateway options := by
  unfold MayReturn serialOutcome
  cases prepare runtime root gateway options with
  | error early => exact Iff.rfl
  | ok prepared =>
    dsimp only
    constructor
    · rintro ⟨s, hruns, hreturned, rfl⟩
      exact SweepConfig.outcome_eq_serial hruns hreturned _
    · intro houtcome
      obtain ⟨s, hruns, hreturned⟩ :=
        (SweepConfig.turns ⟨runtime, gateway, options, prepared⟩).exists_final
          SweepConfig.loopInv_start
      refine ⟨s, hruns, hreturned, houtcome.trans ?_⟩
      exact (SweepConfig.outcome_eq_serial hruns hreturned _).symm

theorem returns (gateway : Gateway) (options : DiscoverOptions) :
    Returns runtime root gateway options := by
  unfold Returns
  cases prepare runtime root gateway options with
  | error early => trivial
  | ok prepared =>
    refine ⟨fun run hstart => ?_, fun s hruns hstuck => ?_⟩
    · apply (SweepConfig.turns ⟨runtime, gateway, options, prepared⟩).not_forever
      rw [hstart]
      exact SweepConfig.loopInv_start
    · exact (SweepConfig.turns _).final_of_stuck SweepConfig.loopInv_start hruns hstuck

theorem SweepConfig.serialReading_congr {c c' : SweepConfig} (hgateway : c'.gateway = c.gateway)
    (hsuppressed : c'.suppressed = c.suppressed) (hverdict : c'.verdict = c.verdict)
    (b : Budget) (lastSweptId : Option CanonicalId) (entries : List Eligible) :
    c'.serialReading b lastSweptId entries = c.serialReading b lastSweptId entries := by
  have hreply : c'.reply = c.reply := by
    unfold SweepConfig.reply
    rw [hgateway]
  induction entries generalizing b lastSweptId with
  | nil => rfl
  | cons entry rest ih =>
    unfold SweepConfig.serialReading
    simp only [ih, hgateway, hsuppressed, hverdict, hreply]

theorem serialOutcome_readConcurrency (gateway : Gateway) (options : DiscoverOptions)
    (readConcurrency : Option ℤ) :
    serialOutcome runtime root gateway { options with readConcurrency := readConcurrency } =
      serialOutcome runtime root gateway options := by
  unfold serialOutcome
  rw [show prepare runtime root gateway { options with readConcurrency := readConcurrency } =
    prepare runtime root gateway options from rfl]
  cases prepare runtime root gateway options with
  | error early => rfl
  | ok prepared =>
    dsimp only
    rw [SweepConfig.serialReading_congr (c := ⟨runtime, gateway, options, prepared⟩)]
    · rfl
    · rfl
    · rfl

/-- Whatever its read concurrency and the order its reads settle in, a sweep
returns, and returns the one outcome it has with a read at a time. -/
theorem mayReturn_readConcurrency (runtime : Runtime) (root : CharacterKey) (gateway : Gateway)
    (options : DiscoverOptions) (readConcurrency : Option ℤ) :
    Returns runtime root gateway { options with readConcurrency := readConcurrency } ∧
      ∃ outcome, ∀ returned,
        (MayReturn runtime root gateway { options with readConcurrency := some 1 } returned ↔
          returned = outcome) ∧
        (MayReturn runtime root gateway { options with readConcurrency := readConcurrency }
          returned ↔ returned = outcome) := by
  refine ⟨returns _ _ _ _, serialOutcome runtime root gateway options, fun returned => ?_⟩
  constructor
  · rw [mayReturn_iff, serialOutcome_readConcurrency]
  · rw [mayReturn_iff, serialOutcome_readConcurrency]

end SlashWho.FingerprintDiscovery
