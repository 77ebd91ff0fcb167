import SlashWho.FingerprintLookAhead

/-!
When a rejected look-ahead check may overtake an earlier read. The dispatcher may
come to it with every read that is to stop the sweep still in flight, if these are
fewer than may be in flight at once; the check is then thrown, and what the reads
come to is not looked at. Apart from that a sweep returns what looking up and
reading one candidate at a time returns.
-/

namespace SlashWho.FingerprintDiscovery

open List Characters

namespace CheckedSweep

open SweepConfig

variable {c : CheckedSweep}

/-! A run that throws a rejected check. -/

/-- The dispatcher is about to look at `index`, and just the stops behind it are in flight. -/
structure Ready (c : CheckedSweep) (index : ℕ) (s : LoopState) : Prop where
  runs : c.Runs c.start ⟨s, none⟩
  top : s.dispatcher = .top
  index_eq : s.index = index
  opened : s.stopped = false
  flying : s.inFlight.map InFlightRead.index = c.stopPlaces index

variable {index : ℕ} {s : LoopState}

theorem Ready.unthrown (h : c.Ready index s) : c.Unthrown s :=
  Kept.runs h.runs

theorem ready_start : c.Ready 0 c.toSweepConfig.start where
  runs := .refl
  top := rfl
  index_eq := rfl
  opened := rfl
  flying := rfl

theorem exists_cleared {before : List InFlightRead} {read : InFlightRead}
    {answer : Answer Fingerprint} (hin : s.inFlight = before ++ [read])
    (hphase : read.phase = .requested answer) (hstops : (c.verdict answer).stops = false) :
    ∃ s', c.Runs ⟨s, none⟩ ⟨s', none⟩ ∧ s'.inFlight = before ∧ s'.dispatcher = s.dispatcher ∧
      s'.index = s.index ∧ s'.stopped = s.stopped := by
  have hanswer : c.Step ⟨s, none⟩ ⟨_, none⟩ :=
    .read (.answer hin hphase) (answered_dispatcher s read answer)
  unfold SweepConfig.answered at hanswer
  cases hverdict : c.verdict answer with
  | exhausted =>
    rw [hverdict] at hstops
    cases hstops
  | refused =>
    rw [hverdict] at hstops
    cases hstops
  | failed error =>
    rw [hverdict] at hstops
    cases hstops
  | unmatched =>
    rw [hverdict] at hanswer
    have hleave := Relation.ReflTransGen.single hanswer |>.tail (.read (.leave rfl rfl) rfl)
    exact ⟨_, hleave, append_nil _, rfl, rfl, rfl⟩
  | matched =>
    rw [hverdict] at hanswer
    have hsettle := Relation.ReflTransGen.single hanswer |>.tail (.read (.settle rfl rfl) rfl)
    have hleave := hsettle.tail (.read (.leave rfl rfl) rfl)
    exact ⟨_, hleave, append_nil _, rfl, rfl, rfl⟩

/-- The dispatcher awaits the check of `entry`, with just the stops behind it in flight. -/
structure Awaiting (c : CheckedSweep) (index : ℕ) (entry : Eligible) (s : LoopState) : Prop where
  runs : c.Runs c.start ⟨s, none⟩
  found : c.prepared.eligible[index]? = some entry
  checking : s.dispatcher = .checking (c.suppressed entry)
  index_eq : s.index = index
  opened : s.stopped = false
  flying : s.inFlight.map InFlightRead.index = c.stopPlaces index

variable {entry : Eligible}

theorem Ready.check {last : ℕ} (h : c.Ready index s) (hle : index ≤ last)
    (hreachable : c.Reachable last) (hentry : c.prepared.eligible[index]? = some entry) :
    ∃ s', c.Awaiting index entry s' := by
  have hroom : s.inFlight.length < c.concurrency := by
    rw [← length_map InFlightRead.index, h.flying]
    exact (stopPlaces_sublist hle).length_le.trans_lt hreachable.room
  have hfound := hentry
  rw [← h.index_eq] at hfound
  obtain ⟨isSuppressed, hcheck⟩ := exists_lookAhead hfound
  obtain ⟨checked, hchecked, rfl⟩ := h.unthrown.inv.lookAhead_checks _ hcheck
  obtain rfl := Option.some.inj (hfound.symm.trans hchecked)
  refine ⟨_, h.runs.tail (.turn (.check h.top hfound hroom h.opened hcheck) ?_), hentry, rfl,
    h.index_eq, h.opened, h.flying⟩
  intro isSuppressed hchecking
  rw [h.top] at hchecking
  cases hchecking

variable {fault : Fault}

/-- Before the last place it may await, the dispatcher waits on no read out of budget. -/
theorem Awaiting.awaited {last : ℕ} (h : c.Awaiting index entry s) (hlt : index < last)
    (hrejection : c.FirstRejection last fault) (hreachable : c.Reachable last) : c.Awaited s := by
  have hinv : c.LoopInv s := Unthrown.inv (Kept.runs h.runs)
  refine ⟨fun read hin hphase => ?_, fun other hother => ?_⟩
  · obtain ⟨hbehind, hat, hwhere⟩ := hinv.reads read hin
    unfold PhaseInv at hwhere
    rw [hphase] at hwhere
    have hexhausted : c.verdictAt read.index read.entry = .exhausted := by
      unfold SweepConfig.verdictAt
      rw [← hwhere.1]
      rfl
    have hindex := h.index_eq
    have hlast := hreachable.prompt read.index (by omega) ⟨read.entry, hat, hexhausted⟩
    omega
  · rw [h.index_eq] at hother
    exact hrejection.first index hlt other hother

theorem Awaiting.skip (h : c.Awaiting index entry s) (hawaited : c.Awaited s)
    (hsuppressed : c.suppressed entry = true) : ∃ s', c.Ready (index + 1) s' := by
  have hchecking := h.checking
  rw [hsuppressed] at hchecking
  have hnot : c.stopsAt index = false := by
    rw [Bool.eq_false_iff]
    intro hstops
    obtain ⟨other, hread, -⟩ := (stopsAt_iff index).mp hstops
    obtain rfl := Option.some.inj (h.found.symm.trans hread.found)
    rw [hread.unsuppressed] at hsuppressed
    cases hsuppressed
  refine ⟨_, h.runs.tail (.turn (.skip hchecking h.opened) fun _ _ _ => hawaited), rfl,
    congrArg (· + 1) h.index_eq, h.opened, ?_⟩
  rw [stopPlaces_succ, hnot, if_neg (by simp), append_nil]
  exact h.flying

/-- The read dispatched is left in flight if it is to stop the sweep, and answers at
once if not. -/
theorem Awaiting.dispatch (h : c.Awaiting index entry s) (hawaited : c.Awaited s)
    (hsuppressed : c.suppressed entry = false) : ∃ s', c.Ready (index + 1) s' := by
  have hchecking := h.checking
  rw [hsuppressed] at hchecking
  have hfound := h.found
  rw [← h.index_eq] at hfound
  obtain ⟨next, hruns, hflying, hnext, htop, hopen⟩ : ∃ next, c.Runs c.start ⟨next, none⟩ ∧
      next.inFlight = s.inFlight ++
        [⟨s.index, entry, .requested (request c.gateway s.budget (c.reply entry)).2⟩] ∧
      next.index = s.index + 1 ∧ next.dispatcher = .top ∧ next.stopped = false :=
    ⟨_, h.runs.tail (.turn (.dispatch hchecking h.opened hfound) fun _ _ _ => hawaited),
      rfl, rfl, rfl, h.opened⟩
  rw [h.index_eq] at hflying hnext hfound
  -- the answer of the read just dispatched is the one its place fixes
  obtain ⟨-, hat, hwhere⟩ := (Unthrown.inv (Kept.runs hruns)).reads
    ⟨index, entry, .requested (request c.gateway s.budget (c.reply entry)).2⟩
    (hflying ▸ mem_append_right _ (mem_singleton_self _))
  have hanswer : (request c.gateway s.budget (c.reply entry)).2 = c.answerAt index entry :=
    hwhere.1
  have hverdict : c.stopsAt index =
      (c.verdict (request c.gateway s.budget (c.reply entry)).2).stops := by
    rw [hanswer, Bool.eq_iff_iff, stopsAt_iff]
    constructor
    · rintro ⟨other, hread, hstops⟩
      obtain rfl := Option.some.inj (hfound.symm.trans hread.found)
      exact (stops_iff _ _).mpr hstops
    · exact fun hstops => ⟨entry, hat, (stops_iff _ _).mp hstops⟩
  cases hstops : c.stopsAt index with
  | true =>
    refine ⟨next, hruns, htop, hnext, hopen, ?_⟩
    rw [stopPlaces_succ, hstops, if_pos rfl, ← h.flying, hflying]
    exact map_append
  | false =>
    rw [hstops] at hverdict
    obtain ⟨cleared, hcleared, hbefore, hstay, hplace, hstill⟩ :=
      exists_cleared hflying rfl hverdict.symm
    refine ⟨cleared, hruns.trans hcleared, hstay.trans htop, hplace.trans hnext,
      hstill.trans hopen, ?_⟩
    rw [stopPlaces_succ, hstops, if_neg (by simp), append_nil, hbefore]
    exact h.flying

/-- The dispatcher may come to any place up to the rejected check, the stops in flight. -/
theorem exists_ready {last : ℕ} (hle : index ≤ last) (hrejection : c.FirstRejection last fault)
    (hreachable : c.Reachable last) :
    ∃ s, c.Ready index s := by
  induction index with
  | zero => exact ⟨_, ready_start⟩
  | succ index ih =>
    obtain ⟨s, hready⟩ := ih (by omega)
    obtain ⟨rejected, hrejected, -⟩ := hrejection.rejected
    have hlength := lt_length hrejected
    have hentry : c.prepared.eligible[index]? = some c.prepared.eligible[index] :=
      getElem?_eq_getElem (by omega)
    obtain ⟨s', hawaiting⟩ := hready.check (by omega) hreachable hentry
    have hawaited := hawaiting.awaited hle hrejection hreachable
    cases hsuppressed : c.suppressed c.prepared.eligible[index] with
    | true => exact hawaiting.skip hawaited hsuppressed
    | false => exact hawaiting.dispatch hawaited hsuppressed

theorem exists_prompt (s : LoopState) :
    ∃ s', c.Runs ⟨s, none⟩ ⟨s', none⟩ ∧ s'.dispatcher = s.dispatcher ∧ s'.index = s.index ∧
      ∀ read ∈ s'.inFlight, read.phase ≠ .requested .exhausted := by
  induction hrank : c.turnsLeft s using Nat.strongRecOn generalizing s with
  | _ n ih =>
    by_cases hprompt : ∀ read ∈ s.inFlight, read.phase ≠ .requested .exhausted
    · exact ⟨s, .refl, rfl, rfl, hprompt⟩
    · push Not at hprompt
      obtain ⟨read, hmem, hphase⟩ := hprompt
      obtain ⟨before, after, hin⟩ := append_of_mem hmem
      obtain ⟨next, hstep, hdispatcher, hindex, hlt⟩ : ∃ next, c.Step ⟨s, none⟩ ⟨next, none⟩ ∧
          next.dispatcher = s.dispatcher ∧ next.index = s.index ∧
          c.turnsLeft next < c.turnsLeft s := by
        have hdispatcher := answered_dispatcher (c := c.toSweepConfig) s read .exhausted
        have hindex := answered_index (c := c.toSweepConfig) s read .exhausted
        refine ⟨_, .read (.answer hin hphase) hdispatcher, hdispatcher, hindex,
          turnsLeft_lt_of_phase hindex hdispatcher hin rfl ?_⟩
        rw [hphase]
        exact turnsLeft_answered_lt s read .exhausted
      obtain ⟨s', hruns, hsame, hplace, hanswered⟩ := ih _ (hrank ▸ hlt) next rfl
      exact ⟨s', hruns.head hstep, hsame.trans hdispatcher, hplace.trans hindex, hanswered⟩

theorem thrown_runs {s s' : CheckedState} (hruns : c.Runs s s') (hthrown : s.thrown = some fault) :
    s'.thrown = some fault := by
  induction hruns with
  | refl => exact hthrown
  | tail _ hstep ih =>
    cases hstep with
    | turn _ _ => exact ih
    | reject _ _ _ _ => cases ih

theorem exists_thrown (hrejection : c.FirstRejection index fault) (hreachable : c.Reachable index) :
    ∃ s, c.Runs c.start s ∧ s.loop.Returned ∧ s.thrown = some fault := by
  obtain ⟨s, hready⟩ := exists_ready (Nat.le_refl index) hrejection hreachable
  obtain ⟨entry, hentry, hrejected⟩ := hrejection.rejected
  obtain ⟨waiting, hawaiting⟩ := hready.check (Nat.le_refl index) hreachable hentry
  obtain ⟨s', hanswers, hdispatcher, hindex, hprompt⟩ := exists_prompt (c := c) waiting
  rw [← hawaiting.index_eq, ← hindex] at hentry
  have hthrown := (hawaiting.runs.trans hanswers).tail
    (.reject (hdispatcher.trans hawaiting.checking) hprompt hentry hrejected)
  have hrunning : c.turns.Inv _ := running_of_runs hthrown
  obtain ⟨final, hruns, hreturned⟩ := c.turns.exists_final hrunning
  exact ⟨final, hthrown.trans hruns, hreturned, thrown_runs hruns rfl⟩

/-! What reading one candidate at a time comes to. -/

/-- What is read after `characters`. -/
def before (characters : List DiscoveredCharacter) (later : Reading) : Reading :=
  { later with characters := characters ++ later.characters }

theorem readings_before {place : ℕ} (hplace : place ≤ c.prepared.eligible.length)
    (hopen : c.OpenTo place)
    (hanswered : ∀ j < place, ∀ entry, c.prepared.eligible[j]? = some entry →
      c.rejection entry.candidate.key = none)
    (remaining index : ℕ) (hremaining : index + remaining = place)
    (lastSweptId : Option CanonicalId) :
    ∃ characters last,
      c.serialReading (c.budgetAt index) lastSweptId (c.prepared.eligible.drop index) =
        before characters
          (c.serialReading (c.budgetAt place) last (c.prepared.eligible.drop place)) ∧
      c.toSweepConfig.serialReading (c.budgetAt index) lastSweptId
          (c.prepared.eligible.drop index) =
        before characters (c.toSweepConfig.serialReading (c.budgetAt place) last
          (c.prepared.eligible.drop place)) := by
  induction remaining generalizing index lastSweptId with
  | zero =>
    obtain rfl : index = place := hremaining
    exact ⟨[], lastSweptId, rfl, rfl⟩
  | succ remaining ih =>
    have hinside : index < c.prepared.eligible.length := by omega
    have hentry : c.prepared.eligible[index]? = some c.prepared.eligible[index] :=
      getElem?_eq_getElem hinside
    rw [drop_eq_getElem_cons hinside]
    generalize c.prepared.eligible[index] = entry at hentry ⊢
    have hnone := hanswered index (by omega) entry hentry
    rw [serialReading, SweepConfig.serialReading, hnone]
    dsimp only
    cases hsuppressed : c.suppressed entry with
    | true =>
      rw [if_pos rfl, if_pos rfl, ← budgetAt_succ_of_suppressed hentry hsuppressed]
      exact ih (index + 1) (by omega) lastSweptId
    | false =>
      have hread : c.ReadAt index entry := ⟨hentry, hsuppressed⟩
      have hnot := hopen index (by omega) entry hread
      have hanswer : c.verdict (request c.gateway (c.budgetAt index) (c.reply entry)).2 =
          c.verdictAt index entry := rfl
      rw [if_neg (by simp), if_neg (by simp), hanswer, ← budgetAt_succ_of_read hread]
      obtain ⟨characters, last, hchecked, hserial⟩ := ih (index + 1) (by omega) (some entry.id)
      cases hverdict : c.verdictAt index entry with
      | exhausted => exact absurd (.inl (.inl hverdict)) hnot
      | refused => exact absurd (.inl (.inr hverdict)) hnot
      | failed error => exact absurd (.inr ⟨error, hverdict⟩) hnot
      | unmatched => exact ⟨characters, last, hchecked, hserial⟩
      | matched =>
        refine ⟨discoveredCharacter entry.candidate :: characters, last, ?_, ?_⟩
        · dsimp only
          rw [hchecked]
          rfl
        · dsimp only
          rw [hserial]
          rfl

theorem outcome_before (characters : List DiscoveredCharacter) (later : Reading)
    {error : Thrown} (hfailure : later.failure = some error) (skipped : ℕ) :
    (before characters later).outcome skipped =
      caught error [] later.requestsUsed none skipped := by
  unfold Reading.outcome
  rw [show (before characters later).failure = some error from hfailure]
  rfl

theorem serialOutcome_of_openTo (hrejection : c.FirstRejection index fault)
    (hopen : c.OpenTo index) :
    c.serialOutcome = failureOutcome (.fault fault) := by
  obtain ⟨entry, hentry, hrejected⟩ := hrejection.rejected
  have hlength := lt_length hentry
  obtain ⟨characters, last, hchecked, -⟩ := readings_before hlength.le hopen hrejection.first
    index 0 (Nat.zero_add _) none
  have hat : c.serialReading (c.budgetAt index) last (c.prepared.eligible.drop index) =
      ⟨[], none, (c.budgetAt index).requestsUsed, (c.budgetAt index).capped,
        some (.fault fault)⟩ := by
    rw [drop_eq_getElem_cons hlength, (List.getElem?_eq_some_iff.mp hentry).2]
    unfold serialReading
    rw [hrejected]
  unfold serialOutcome
  rw [show c.serialReading c.prepared.budget none c.prepared.eligible = _ from hchecked, hat,
    outcome_before characters _ rfl]
  rfl

/-- Up to a stop before any rejected lookup, both readings are one, which fails as
the stop does or is capped as the stop is. -/
theorem serialReading_of_stop {first : ℕ} (hopen : c.OpenTo first)
    (hanswered : ∀ j ≤ first, ∀ entry, c.prepared.eligible[j]? = some entry →
      c.rejection entry.candidate.key = none) (hread : c.ReadAt first entry)
    (hstops : c.StopsAt first entry) :
    ∃ reading, c.serialReading c.prepared.budget none c.prepared.eligible = reading ∧
      c.toSweepConfig.serialReading c.prepared.budget none c.prepared.eligible = reading ∧
      (∀ error, c.verdictAt first entry = .failed error → reading.failure = some error) ∧
      (c.CappedAt first entry → reading.failure = none ∧ reading.capped = true) := by
  have hlength := lt_length hread.found
  obtain ⟨characters, last, hchecked, hserial⟩ := readings_before hlength.le hopen
    (fun j hj => hanswered j hj.le) first 0 (Nat.zero_add _) none
  have hnone := hanswered first (Nat.le_refl _) entry hread.found
  have hanswer : c.verdict (request c.gateway (c.budgetAt first) (c.reply entry)).2 =
      c.verdictAt first entry := rfl
  rw [drop_eq_getElem_cons hlength,
    (List.getElem?_eq_some_iff.mp hread.found).2] at hchecked hserial
  rw [serialReading, hnone] at hchecked
  rw [SweepConfig.serialReading] at hserial
  dsimp only at hchecked hserial
  rw [if_neg (by simp [hread.unsuppressed]), hanswer] at hchecked hserial
  cases hverdict : c.verdictAt first entry with
  | exhausted =>
    have hzero := (verdict_eq_exhausted_iff _).mp hverdict
    rw [hverdict, request_of_exhausted hzero] at hchecked hserial
    exact ⟨_, hchecked, hserial, fun _ hfailed => (by cases hfailed), fun _ => ⟨rfl, rfl⟩⟩
  | refused =>
    rw [hverdict] at hchecked hserial
    exact ⟨_, hchecked, hserial, fun _ hfailed => (by cases hfailed), fun _ => ⟨rfl, rfl⟩⟩
  | failed error =>
    rw [hverdict] at hchecked hserial
    refine ⟨_, hchecked, hserial, fun error' hfailed => ?_, fun hcapped => ?_⟩
    · obtain rfl := Verdict.failed.inj hfailed
      rfl
    · unfold CappedAt at hcapped
      rw [hverdict] at hcapped
      rcases hcapped with hexhausted | hrefused
      · cases hexhausted
      · cases hrefused
  | unmatched =>
    rw [← stops_iff, hverdict] at hstops
    cases hstops
  | matched =>
    rw [← stops_iff, hverdict] at hstops
    cases hstops

theorem serialReading_of_answered
    (hanswered : ∀ entry ∈ c.prepared.eligible, c.rejection entry.candidate.key = none) :
    c.serialReading c.prepared.budget none c.prepared.eligible =
      c.toSweepConfig.serialReading c.prepared.budget none c.prepared.eligible := by
  generalize c.prepared.budget = b
  generalize (none : Option CanonicalId) = lastSweptId
  generalize c.prepared.eligible = entries at hanswered
  induction entries generalizing b lastSweptId with
  | nil => rfl
  | cons entry rest ih =>
    have hrest := fun later hlater => hanswered later (mem_cons_of_mem _ hlater)
    rw [serialReading, SweepConfig.serialReading, hanswered entry mem_cons_self]
    by_cases hsuppressed : c.suppressed entry = true
    · rw [if_pos hsuppressed, if_pos hsuppressed]
      exact ih _ _ hrest
    · rw [if_neg hsuppressed, if_neg hsuppressed]
      dsimp only
      generalize request c.gateway b (c.reply entry) = asked
      cases c.verdict asked.2 with
      | exhausted => rfl
      | refused => rfl
      | failed error => rfl
      | unmatched => exact ih _ _ hrest
      | matched => simp only [ih _ _ hrest]

theorem exists_first_stop (hstops : ¬ c.OpenTo index) :
    ∃ first entry, first < index ∧ c.OpenTo first ∧ c.ReadAt first entry ∧
      c.StopsAt first entry := by
  induction index with
  | zero => exact absurd (fun j hj => absurd hj (Nat.not_lt_zero j)) hstops
  | succ index ih =>
    by_cases hopen : c.OpenTo index
    · by_contra hnone
      push Not at hnone
      exact hstops (hopen.succ fun entry hread hat =>
        hnone index entry (Nat.lt_succ_self _) hopen hread hat)
    · obtain ⟨first, entry, hlt, hrest⟩ := ih hopen
      exact ⟨first, entry, hlt.trans (Nat.lt_succ_self _), hrest⟩

theorem exists_firstRejection (hmem : entry ∈ c.prepared.eligible)
    (hrejected : c.rejection entry.candidate.key ≠ none) :
    ∃ index fault, c.FirstRejection index fault := by
  classical
  have hsome : ∃ (index : ℕ) (entry : Eligible), c.prepared.eligible[index]? = some entry ∧
      c.rejection entry.candidate.key ≠ none := by
    obtain ⟨index, hindex⟩ := getElem?_of_mem hmem
    exact ⟨index, entry, hindex, hrejected⟩
  obtain ⟨first, hfirst, hsomewhere⟩ := Nat.find_spec hsome
  obtain ⟨fault, hfault⟩ := Option.ne_none_iff_exists'.mp hsomewhere
  refine ⟨Nat.find hsome, fault, ⟨first, hfirst, hfault⟩, fun j hj other hother => ?_⟩
  by_contra hother'
  exact Nat.find_min hsome hj ⟨other, hother, hother'⟩

/-! What a sweep returns. -/

/-- With no check thrown, a sweep returns what reading one candidate at a time returns. -/
theorem outcome_of_unthrown {s : CheckedState} (hruns : c.Runs c.start s)
    (hreturned : s.loop.Returned) (hthrown : s.thrown = none) :
    c.outcome s = c.serialOutcome := by
  have hkept := Kept.runs hruns
  unfold Kept at hkept
  rw [hthrown] at hkept
  have hserial := outcome_eq_serial hkept.runs hreturned c.prepared.skippedHistoricalGuilds
  unfold outcome serialOutcome
  rw [hthrown]
  refine hserial.trans (congrArg (Reading.outcome · _) ?_)
  by_cases hanswered : ∀ entry ∈ c.prepared.eligible, c.rejection entry.candidate.key = none
  · exact (serialReading_of_answered hanswered).symm
  · push Not at hanswered
    obtain ⟨entry, hmem, hrejected⟩ := hanswered
    obtain ⟨index, fault, hrejection⟩ := exists_firstRejection hmem hrejected
    have hstops : ¬ c.OpenTo index := by
      intro hopen
      have hfault := thrown_of_openTo hruns hreturned hrejection hopen
      rw [hthrown] at hfault
      cases hfault
    obtain ⟨first, stop, hlt, hopen, hread, hat⟩ := exists_first_stop hstops
    obtain ⟨reading, hchecked, hplain, -⟩ := serialReading_of_stop hopen
      (fun j hj => hrejection.first j (by omega)) hread hat
    exact hplain.trans hchecked.symm

theorem outcome_of_thrown {s : CheckedState} (hthrown : s.thrown = some fault) :
    c.outcome s = failureOutcome (.fault fault) := by
  unfold outcome
  rw [hthrown]
  rfl

/-- A serial sweep that stops before any rejected lookup ends as a fault does just
when its first stop does. -/
theorem serialOutcome_of_stop {first : ℕ} (hrejection : c.FirstRejection index fault)
    (hlt : first < index) (hopen : c.OpenTo first) (hread : c.ReadAt first entry)
    (hstops : c.StopsAt first entry) :
    c.serialOutcome = failureOutcome (.fault fault) ↔ ¬ c.EndsOtherwise first entry fault := by
  obtain ⟨reading, hchecked, -, hfailed, hcapped⟩ := serialReading_of_stop hopen
    (fun j hj => hrejection.first j (by omega)) hread hstops
  unfold serialOutcome EndsOtherwise Reading.outcome
  rw [hchecked]
  rcases hstops with hcap | ⟨error, herror⟩
  · obtain ⟨hnone, htrue⟩ := hcapped hcap
    rw [hnone, htrue]
    refine ⟨fun houtcome => ?_, fun hnot => absurd (.inl hcap) hnot⟩
    dsimp only at houtcome
    rw [if_pos rfl] at houtcome
    exact absurd houtcome.symm (failureOutcome_ne_capped _)
  · rw [hfailed error herror]
    dsimp only
    unfold caught
    rw [not_capReached_of_failed herror, if_neg Bool.false_ne_true]
    constructor
    · rintro houtcome (hcap | ⟨error', herror', hne⟩)
      · unfold CappedAt at hcap
        rw [herror] at hcap
        rcases hcap with hexhausted | hrefused
        · cases hexhausted
        · cases hrefused
      · obtain rfl := Verdict.failed.inj (herror.symm.trans herror')
        exact hne houtcome
    · intro hnot
      by_contra hne
      exact hnot (.inr ⟨error, herror, hne⟩)

theorem outcome_eq_serialOutcome (hovertaken : ¬ c.Overtaken) {s : CheckedState}
    (hruns : c.Runs c.start s) (hreturned : s.loop.Returned) : c.outcome s = c.serialOutcome := by
  cases hthrown : s.thrown with
  | none => exact outcome_of_unthrown hruns hreturned hthrown
  | some fault =>
    rw [outcome_of_thrown hthrown]
    have hkept := Kept.runs hruns
    unfold Kept at hkept
    rw [hthrown] at hkept
    obtain ⟨index, hrejection, hreachable⟩ := hkept
    symm
    by_cases hstops : c.OpenTo index
    · exact serialOutcome_of_openTo hrejection hstops
    · obtain ⟨first, entry, hlt, hopen, hread, hat⟩ := exists_first_stop hstops
      refine (serialOutcome_of_stop hrejection hlt hopen hread hat).mpr fun hends => ?_
      exact hovertaken ⟨index, fault, first, entry, hrejection, hreachable, hlt, hopen, hread,
        hends⟩

theorem exists_otherwise (hovertaken : c.Overtaken) :
    ∃ s, c.Runs c.start s ∧ s.loop.Returned ∧ c.outcome s ≠ c.serialOutcome := by
  obtain ⟨index, fault, first, entry, hrejection, hreachable, hlt, hopen, hread, hends⟩ :=
    hovertaken
  have hstops : c.StopsAt first entry := by
    rcases hends with hcapped | ⟨error, hfailed, -⟩
    · exact .inl hcapped
    · exact .inr ⟨error, hfailed⟩
  obtain ⟨s, hruns, hreturned, hthrown⟩ := exists_thrown hrejection hreachable
  refine ⟨s, hruns, hreturned, fun heq => ?_⟩
  rw [outcome_of_thrown hthrown] at heq
  exact (serialOutcome_of_stop hrejection hlt hopen hread hstops).mp heq.symm hends

theorem not_overtaken_of_serial (hserial : c.concurrency = 1) : ¬ c.Overtaken := by
  rintro ⟨index, fault, first, entry, -, hreachable, hlt, -, hread, hends⟩
  have hroom := hreachable.room
  rw [hserial, Nat.lt_one_iff, length_eq_zero_iff, ← openTo_iff] at hroom
  apply hroom first hlt entry hread
  rcases hends with hcapped | ⟨error, hfailed, -⟩
  · exact .inl hcapped
  · exact .inr ⟨error, hfailed⟩

end CheckedSweep

variable (runtime : Runtime)

/-- The outcome of a sweep that looks up and reads its candidates one at a time. -/
def serialOutcomeChecked (root : CharacterKey) (gateway : Gateway) (options : DiscoverOptions)
    (rejection : CharacterKey → Option Fault) :
    FingerprintSweepOutcome :=
  match prepare runtime root gateway options with
  | .error early => early
  | .ok prepared => CheckedSweep.serialOutcome ⟨⟨runtime, gateway, options, prepared⟩, rejection⟩

/-- A rejected look-ahead may overtake an earlier read that ends the sweep otherwise. -/
def OvertakenSweep (root : CharacterKey) (gateway : Gateway) (options : DiscoverOptions)
    (rejection : CharacterKey → Option Fault) : Prop :=
  match prepare runtime root gateway options with
  | .error _ => False
  | .ok prepared => CheckedSweep.Overtaken ⟨⟨runtime, gateway, options, prepared⟩, rejection⟩

variable {rejection : CharacterKey → Option Fault}

theorem mayReturnChecked_iff {runtime : Runtime} {root : CharacterKey} {gateway : Gateway}
    {options : DiscoverOptions}
    (hovertaken : ¬ OvertakenSweep runtime root gateway options rejection)
    (outcome : FingerprintSweepOutcome) :
    MayReturnChecked runtime root gateway options rejection outcome ↔
      outcome = serialOutcomeChecked runtime root gateway options rejection := by
  unfold OvertakenSweep at hovertaken
  unfold MayReturnChecked serialOutcomeChecked
  cases hprepare : prepare runtime root gateway options with
  | error early => exact Iff.rfl
  | ok prepared =>
    rw [hprepare] at hovertaken
    dsimp only at hovertaken ⊢
    constructor
    · rintro ⟨s, hruns, hreturned, rfl⟩
      exact CheckedSweep.outcome_eq_serialOutcome hovertaken hruns hreturned
    · intro houtcome
      obtain ⟨s, hruns, hreturned⟩ := CheckedSweep.exists_returned
        (c := ⟨⟨runtime, gateway, options, prepared⟩, rejection⟩)
      refine ⟨s, hruns, hreturned, houtcome.trans ?_⟩
      exact (CheckedSweep.outcome_eq_serialOutcome hovertaken hruns hreturned).symm

theorem CheckedSweep.serialReading_congr {c c' : CheckedSweep}
    (hgateway : c'.gateway = c.gateway) (hsuppressed : c'.suppressed = c.suppressed)
    (hverdict : c'.verdict = c.verdict) (hrejection : c'.rejection = c.rejection)
    (b : Budget) (lastSweptId : Option CanonicalId) (entries : List Eligible) :
    c'.serialReading b lastSweptId entries = c.serialReading b lastSweptId entries := by
  have hreply : c'.reply = c.reply := by
    unfold SweepConfig.reply
    rw [hgateway]
  induction entries generalizing b lastSweptId with
  | nil => rfl
  | cons entry rest ih =>
    unfold CheckedSweep.serialReading
    simp only [ih, hgateway, hsuppressed, hverdict, hreply, hrejection]

theorem serialOutcomeChecked_readConcurrency (root : CharacterKey) (gateway : Gateway)
    (options : DiscoverOptions) (rejection : CharacterKey → Option Fault)
    (readConcurrency : Option ℤ) :
    serialOutcomeChecked runtime root gateway { options with readConcurrency := readConcurrency }
        rejection =
      serialOutcomeChecked runtime root gateway options rejection := by
  unfold serialOutcomeChecked
  rw [show prepare runtime root gateway { options with readConcurrency := readConcurrency } =
    prepare runtime root gateway options from rfl]
  cases prepare runtime root gateway options with
  | error early => rfl
  | ok prepared =>
    dsimp only
    unfold CheckedSweep.serialOutcome
    rw [CheckedSweep.serialReading_congr (c := ⟨⟨runtime, gateway, options, prepared⟩, rejection⟩)]
    · rfl
    · rfl
    · rfl
    · rfl

theorem not_overtakenSweep_one (root : CharacterKey) (gateway : Gateway) (options : DiscoverOptions)
    (rejection : CharacterKey → Option Fault) :
    ¬ OvertakenSweep runtime root gateway { options with readConcurrency := some 1 }
      rejection := by
  unfold OvertakenSweep
  split
  · exact not_false
  · exact CheckedSweep.not_overtaken_of_serial rfl

theorem exists_mayReturn_otherwise {runtime : Runtime} {root : CharacterKey} {gateway : Gateway}
    {options : DiscoverOptions}
    (hovertaken : OvertakenSweep runtime root gateway options rejection) :
    ∃ returned, MayReturnChecked runtime root gateway options rejection returned ∧
      ¬ MayReturnChecked runtime root gateway { options with readConcurrency := some 1 } rejection
        returned := by
  have hserial := mayReturnChecked_iff
    (not_overtakenSweep_one runtime root gateway options rejection)
  rw [serialOutcomeChecked_readConcurrency] at hserial
  have hovertaken' := hovertaken
  unfold OvertakenSweep at hovertaken'
  cases hprepare : prepare runtime root gateway options with
  | error early =>
    rw [hprepare] at hovertaken'
    exact hovertaken'.elim
  | ok prepared =>
    rw [hprepare] at hovertaken'
    obtain ⟨s, hruns, hreturned, hne⟩ := CheckedSweep.exists_otherwise hovertaken'
    refine ⟨CheckedSweep.outcome ⟨⟨runtime, gateway, options, prepared⟩, rejection⟩ s, ?_,
      fun hsame => hne ?_⟩
    · unfold MayReturnChecked
      rw [hprepare]
      exact ⟨s, hruns, hreturned, rfl⟩
    · refine ((hserial _).mp hsame).trans ?_
      unfold serialOutcomeChecked
      rw [hprepare]

/-- Whatever order its reads and look-ahead checks settle in, a sweep returns the
one outcome it has with a read at a time, just when no rejected check may overtake
an earlier read that ends the sweep otherwise. -/
theorem lookAhead_outcome_serial_iff (runtime : Runtime) (root : CharacterKey)
    (gateway : Gateway) (options : DiscoverOptions) (rejection : CharacterKey → Option Fault) :
    (∃ outcome, ∀ returned,
      (MayReturnChecked runtime root gateway { options with readConcurrency := some 1 } rejection
        returned ↔ returned = outcome) ∧
      (MayReturnChecked runtime root gateway options rejection returned ↔ returned = outcome)) ↔
      ¬ OvertakenSweep runtime root gateway options rejection := by
  constructor
  · rintro ⟨outcome, hone⟩ hovertaken
    obtain ⟨returned, hreturned, hnot⟩ := exists_mayReturn_otherwise hovertaken
    exact hnot ((hone returned).1.mpr ((hone returned).2.mp hreturned))
  · intro hovertaken
    refine ⟨serialOutcomeChecked runtime root gateway options rejection, fun returned => ⟨?_, ?_⟩⟩
    · rw [mayReturnChecked_iff (not_overtakenSweep_one runtime root gateway options rejection),
        serialOutcomeChecked_readConcurrency]
    · exact mayReturnChecked_iff hovertaken returned

/-! Two candidates read at once: the first answers in another shape, which ends the
sweep for good, while the lookup of the second rejects. -/

def member (name : String) : CharacterKey := ⟨.eu, "silvermoon", name⟩

def sampleRuntime : Runtime where
  lower := id
  compareIds _ _ := .lt
  compareGuildIds _ _ := .lt
  percent _ _ := 0

def driftingGateway : Gateway where
  guildRoster := .ok (some
    [⟨member "a", "A", "Mage", 80, none⟩, ⟨member "b", "B", "Mage", 80, none⟩])
  guildRosterByIdentity _ := .ok (some [])
  achievementFingerprint key := if key.name = "a" then .ok none else .ok (some .empty)
  refusesFrom := none

def twoAtOnce : DiscoverOptions where
  requestCap := some 10
  minimumCommon := 200
  minimumIdenticalPercent := 20
  isSuppressed _ := false
  resumeAfter := none
  historicalGuilds := []
  readConcurrency := some 2

def rejectsSecond (key : CharacterKey) : Option Fault :=
  if key.name = "b" then some .other else none

def sampleEligible (name display : String) : Eligible :=
  ⟨⟨member name, display, "Mage", 80, none⟩, canonicalCharacterId id (member name)⟩

theorem prepare_drifting : prepare sampleRuntime (member "root") driftingGateway twoAtOnce = .ok {
    budget := ⟨8, 2, false, 2⟩
    skippedHistoricalGuilds := 0
    rootFingerprint := .empty
    eligible := [sampleEligible "a" "A", sampleEligible "b" "B"] } := by
  rfl

theorem overtaken_drifting :
    OvertakenSweep sampleRuntime (member "root") driftingGateway twoAtOnce rejectsSecond := by
  unfold OvertakenSweep
  rw [prepare_drifting]
  refine ⟨1, .other, 0, sampleEligible "a" "A", ⟨⟨_, rfl, rfl⟩, ?_⟩, ⟨?_, ?_⟩, Nat.one_pos, ?_,
    ⟨rfl, rfl⟩, .inr ⟨schemaDrift, rfl, ?_⟩⟩
  · intro j hj entry hentry
    obtain rfl := Nat.lt_one_iff.mp hj
    obtain rfl := Option.some.inj hentry
    rfl
  · exact (length_filter_le _ _).trans_lt (Nat.lt_succ_self 1)
  · intro j hj _
    omega
  · exact fun j hj => absurd hj (Nat.not_lt_zero j)
  · exact fun hsame => by cases hsame

/-- The serial sweep ends with its upstream's schema changed; with two reads at once
it may end with a failure worth retrying instead. -/
theorem rejected_lookAhead_overtakes :
    ¬ ∃ outcome, ∀ returned,
      (MayReturnChecked sampleRuntime (member "root") driftingGateway
        { twoAtOnce with readConcurrency := some 1 } rejectsSecond returned ↔
          returned = outcome) ∧
      (MayReturnChecked sampleRuntime (member "root") driftingGateway twoAtOnce rejectsSecond
        returned ↔ returned = outcome) := by
  rintro ⟨outcome, hone⟩
  obtain ⟨returned, hreturned, hnot⟩ := exists_mayReturn_otherwise overtaken_drifting
  exact hnot ((hone returned).1.mpr ((hone returned).2.mp hreturned))

end SlashWho.FingerprintDiscovery
