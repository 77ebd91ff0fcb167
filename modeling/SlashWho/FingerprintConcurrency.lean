import SlashWho.FingerprintSerial

/-!
What every turn of the candidate loop keeps. Each read in flight carries the
answer its place in the order fixes; each place behind the dispatcher is
skipped, settled as its answer says, or still in flight; and the accounts
differ from the serial ones by the refusals not yet given back. At the end of
any run this leaves the serial reading, whatever order the reads settled in.
-/

namespace SlashWho.FingerprintDiscovery

open List

def Verdict.isRefused : Verdict → Bool
  | .refused => true
  | _ => false

theorem Verdict.isRefused_iff (v : Verdict) : v.isRefused = true ↔ v = .refused := by
  cases v <;> simp [Verdict.isRefused]

namespace SweepConfig
variable (c : SweepConfig)

/-- The place is settled as its read's answer says. -/
def Settles (s : LoopState) (index : ℕ) (entry : Eligible) : Prop :=
  match c.verdictAt index entry with
  | .exhausted => s.settled index = some (.unread entry.id)
  | .refused => s.settled index = some (.unread entry.id)
  | .unmatched => s.settled index = some (.swept entry.id none)
  | .matched => s.settled index = some (c.admission entry)
  | .failed _ => s.settled index = none ∧
      ∃ first error, s.failure = some (first, error) ∧ first ≤ index

/-- Where a read in flight is says what of it is known. -/
def PhaseInv (s : LoopState) (read : InFlightRead) : Prop :=
  match read.phase with
  | .requested answer =>
    answer = c.answerAt read.index read.entry ∧ s.settled read.index = none
  | .admitting => c.verdictAt read.index read.entry = .matched ∧ s.settled read.index = none
  | .throwing error =>
    c.verdictAt read.index read.entry = .failed error ∧ s.settled read.index = none
  | .done => c.Settles s read.index read.entry

/-- A refusal whose request has not been given back yet. -/
def pendingRefusal (read : InFlightRead) : Bool :=
  match read.phase with
  | .requested answer => (c.verdict answer).isRefused
  | _ => false

structure LoopInv (s : LoopState) : Prop where
  indexed : s.index ≤ c.prepared.eligible.length
  remaining : s.budget.remainingRequests = (c.budgetAt s.index).remainingRequests
  calls : s.budget.calls = (c.budgetAt s.index).calls
  used : s.budget.requestsUsed + c.refusalsBefore s.index =
    (c.budgetAt s.index).requestsUsed + s.inFlight.countP c.pendingRefusal
  capped : s.budget.capped = true ↔ (c.budgetAt s.index).capped = true ∨
    ∃ j entry, j < s.index ∧ c.ReadAt j entry ∧ c.verdictAt j entry = .refused ∧
      s.settled j ≠ none
  reads : ∀ read ∈ s.inFlight, read.index < s.index ∧ c.ReadAt read.index read.entry ∧
    c.PhaseInv s read
  distinct : (s.inFlight.map InFlightRead.index).Nodup
  skipped : ∀ j entry, j < s.index → c.prepared.eligible[j]? = some entry →
    c.suppressed entry = true → s.settled j = some .skipped
  covered : ∀ j entry, j < s.index → c.ReadAt j entry →
    (∃ read ∈ s.inFlight, read.index = j) ∨ c.Settles s j entry
  beyond : ∀ j, s.index ≤ j → s.settled j = none
  stops : s.stopped = true → ∃ j entry, j < s.index ∧ c.ReadAt j entry ∧ c.StopsAt j entry
  fails : ∀ j error, s.failure = some (j, error) →
    ∃ entry, j < s.index ∧ c.ReadAt j entry ∧ c.verdictAt j entry = .failed error
  checking : ∀ isSuppressed, s.dispatcher = .checking isSuppressed →
    ∃ entry, c.prepared.eligible[s.index]? = some entry ∧ c.suppressed entry = isSuppressed
  left : s.dispatcher = .finished → s.index = c.prepared.eligible.length ∨ s.stopped = true
  checks : ∀ j isSuppressed, s.suppressionChecks j = some isSuppressed →
    ∃ entry, c.prepared.eligible[j]? = some entry ∧ c.suppressed entry = isSuppressed

variable {c}

variable {s s' : LoopState}

variable {index : ℕ} {entry : Eligible}

theorem Settles.congr (h : c.Settles s index entry) (hsettled : s'.settled index = s.settled index)
    (hfailure : ∀ first error, s.failure = some (first, error) →
      ∃ first' error', s'.failure = some (first', error') ∧ first' ≤ first) :
    c.Settles s' index entry := by
  unfold Settles at *
  split at h
  · exact hsettled.trans h
  · exact hsettled.trans h
  · exact hsettled.trans h
  · exact hsettled.trans h
  · obtain ⟨hnone, first, error, hfirst, hle⟩ := h
    obtain ⟨first', error', hfirst', hle'⟩ := hfailure first error hfirst
    exact ⟨hsettled.trans hnone, first', error', hfirst', hle'.trans hle⟩

variable {read : InFlightRead}

theorem PhaseInv.congr (h : c.PhaseInv s read)
    (hsettled : s'.settled read.index = s.settled read.index)
    (hfailure : ∀ first error, s.failure = some (first, error) →
      ∃ first' error', s'.failure = some (first', error') ∧ first' ≤ first) :
    c.PhaseInv s' read := by
  unfold PhaseInv at *
  split at h
  · exact ⟨h.1, hsettled.trans h.2⟩
  · exact ⟨h.1, hsettled.trans h.2⟩
  · exact ⟨h.1, hsettled.trans h.2⟩
  · exact Settles.congr h hsettled hfailure

theorem loopInv_start : c.LoopInv c.start where
  indexed := Nat.zero_le _
  remaining := rfl
  calls := rfl
  used := rfl
  capped := by simp [start]
  reads := by simp [start]
  distinct := nodup_nil
  skipped := by simp [start]
  covered := by simp [start]
  beyond _ _ := rfl
  stops h := by cases h
  fails _ _ h := by cases h
  checking _ h := by cases h
  left h := by cases h
  checks _ _ h := by cases h

/-! The dispatcher's turns. -/

theorem LoopInv.leave_loop (h : c.LoopInv s)
    (hleft : s.index = c.prepared.eligible.length ∨ s.stopped = true) :
    c.LoopInv { s with dispatcher := .finished } :=
  { h with
    checking := fun _ hchecking => by cases hchecking
    left := fun _ => hleft }

theorem LoopInv.lookAhead_checks (h : c.LoopInv s) (ahead : ℕ) {isSuppressed : Bool}
    (hcheck : c.lookAhead s.suppressionChecks s.index ahead = some isSuppressed) :
    ∃ entry, c.prepared.eligible[ahead]? = some entry ∧ c.suppressed entry = isSuppressed := by
  unfold lookAhead at hcheck
  split at hcheck
  · obtain ⟨entry, hentry, hsuppressed⟩ := Option.map_eq_some_iff.mp hcheck
    exact ⟨entry, hentry, hsuppressed⟩
  · exact h.checks ahead isSuppressed hcheck

theorem LoopInv.check {isSuppressed : Bool} (h : c.LoopInv s)
    (hcheck : c.lookAhead s.suppressionChecks s.index s.index = some isSuppressed) :
    c.LoopInv { s with
      dispatcher := .checking isSuppressed
      suppressionChecks :=
        Function.update (c.lookAhead s.suppressionChecks s.index) s.index none } :=
  { h with
    checking := by
      intro b hb
      obtain rfl := Dispatcher.checking.inj hb
      exact h.lookAhead_checks s.index hcheck
    left := fun hleft => by cases hleft
    checks := by
      intro j b hb
      dsimp only at hb
      by_cases hj : j = s.index
      · subst hj
        simp at hb
      · rw [Function.update_of_ne hj] at hb
        exact h.lookAhead_checks j hb }

theorem lt_length (h : c.prepared.eligible[index]? = some entry) :
    index < c.prepared.eligible.length :=
  (List.getElem?_eq_some_iff.mp h).1

/-- The dispatcher moves on: `settled` may gain the place it leaves, no other. -/
theorem LoopInv.reads_of_advance (h : c.LoopInv s) (hfailure : s'.failure = s.failure)
    (hsettled : ∀ j, j ≠ s.index → s'.settled j = s.settled j) (hread : read ∈ s.inFlight) :
    read.index < s.index + 1 ∧ c.ReadAt read.index read.entry ∧ c.PhaseInv s' read := by
  obtain ⟨hlt, hat, hphase⟩ := h.reads read hread
  refine ⟨by omega, hat, hphase.congr (hsettled _ (by omega)) ?_⟩
  intro first error hfirst
  exact ⟨first, error, hfailure.trans hfirst, le_refl _⟩

theorem LoopInv.skip (h : c.LoopInv s) (hchecking : s.dispatcher = .checking true) :
    c.LoopInv { s with
      dispatcher := .top
      index := s.index + 1
      settled := Function.update s.settled s.index (some .skipped) } := by
  obtain ⟨entry, hentry, hsuppressed⟩ := h.checking true hchecking
  have hbudget := budgetAt_succ_of_suppressed hentry hsuppressed
  have hunread : ∀ other, ¬ c.ReadAt s.index other := by
    intro other hread
    obtain rfl := Option.some.inj (hentry.symm.trans hread.found)
    rw [hread.unsuppressed] at hsuppressed
    cases hsuppressed
  have hrefusals : c.refusalsBefore (s.index + 1) = c.refusalsBefore s.index :=
    refusalsBefore_succ_of_ne fun other hread => absurd hread (hunread other)
  have hother : ∀ j, j ≠ s.index →
      Function.update s.settled s.index (some .skipped) j = s.settled j :=
    fun j hj => Function.update_of_ne hj _ _
  refine {
    indexed := lt_length hentry
    remaining := hbudget ▸ h.remaining
    calls := hbudget ▸ h.calls
    used := by
      dsimp only
      rw [hbudget, hrefusals]
      exact h.used
    capped := ?_
    reads := ?_
    distinct := h.distinct
    skipped := ?_
    covered := ?_
    beyond := ?_
    stops := ?_
    fails := ?_
    checking := fun _ hc => by cases hc
    left := fun hc => by cases hc
    checks := h.checks }
  · dsimp only
    rw [hbudget, h.capped]
    apply or_congr_right
    constructor
    · rintro ⟨j, other, hj, hread, hrefused, hsettled⟩
      exact ⟨j, other, by omega, hread, hrefused, by rwa [hother j (by omega)]⟩
    · rintro ⟨j, other, hj, hread, hrefused, hsettled⟩
      have hne : j ≠ s.index := fun heq => hunread other (heq ▸ hread)
      exact ⟨j, other, by omega, hread, hrefused, by rwa [hother j hne] at hsettled⟩
  · intro read hin
    refine h.reads_of_advance ?_ ?_ hin
    · rfl
    · exact hother
  · intro j other hj hfound hskip
    by_cases hne : j = s.index
    · subst hne
      exact Function.update_self _ _ _
    · exact (hother j hne).trans (h.skipped j other (by dsimp only at hj; omega) hfound hskip)
  · intro j other hj hread
    have hne : j ≠ s.index := fun heq => hunread other (heq ▸ hread)
    rcases h.covered j other (by dsimp only at hj; omega) hread with hin | hsettles
    · exact .inl hin
    · exact .inr (hsettles.congr (hother j hne) fun first error hfirst =>
        ⟨first, error, hfirst, le_refl _⟩)
  · intro j hj
    dsimp only at hj
    exact (hother j (by omega)).trans (h.beyond j (by omega))
  · intro hstopped
    obtain ⟨j, other, hj, hread, hstops⟩ := h.stops hstopped
    exact ⟨j, other, by dsimp only; omega, hread, hstops⟩
  · intro j error hfailure
    obtain ⟨other, hj, hread, hfailed⟩ := h.fails j error hfailure
    exact ⟨other, by dsimp only; omega, hread, hfailed⟩

/-- Two accounts with as much left and as many calls behind them answer alike. -/
theorem request_congr {α : Type} (gateway : Gateway) {b b' : Budget}
    (hremaining : b.remainingRequests = b'.remainingRequests) (hcalls : b.calls = b'.calls)
    (reply : Except Fault (Option α)) :
    (request gateway b reply).2 = (request gateway b' reply).2 ∧
      (request gateway b reply).1.remainingRequests =
        (request gateway b' reply).1.remainingRequests ∧
      (request gateway b reply).1.calls = (request gateway b' reply).1.calls ∧
      (request gateway b reply).1.requestsUsed + b'.requestsUsed =
        (request gateway b' reply).1.requestsUsed + b.requestsUsed ∧
      ((request gateway b reply).1.capped = true ↔ b.capped = true ∨ b.remainingRequests = 0) ∧
      ((request gateway b' reply).1.capped = true ↔
        b'.capped = true ∨ b.remainingRequests = 0) := by
  by_cases h : b.remainingRequests = 0
  · rw [request_of_exhausted h, request_of_exhausted (hremaining ▸ h)]
    refine ⟨rfl, hremaining, hcalls, Nat.add_comm _ _, ?_, ?_⟩ <;> simp [h]
  · rw [request_of_remaining h, request_of_remaining (hremaining ▸ h)]
    refine ⟨?_, ?_, ?_, ?_, ?_, ?_⟩
    · show gateway.answer b.calls reply = gateway.answer b'.calls reply
      rw [hcalls]
    · show b.remainingRequests - 1 = b'.remainingRequests - 1
      rw [hremaining]
    · show b.calls + 1 = b'.calls + 1
      rw [hcalls]
    · show b.requestsUsed + 1 + b'.requestsUsed = b'.requestsUsed + 1 + b.requestsUsed
      omega
    · simp [h]
    · simp [h]

theorem LoopInv.dispatch (h : c.LoopInv s) (hchecking : s.dispatcher = .checking false)
    (hentry : c.prepared.eligible[s.index]? = some entry) :
    c.LoopInv { s with
      budget := (request c.gateway s.budget (c.reply entry)).1
      dispatcher := .top
      index := s.index + 1
      inFlight := s.inFlight ++
        [⟨s.index, entry, .requested (request c.gateway s.budget (c.reply entry)).2⟩] } := by
  obtain ⟨found, hfound, hunsuppressed⟩ := h.checking false hchecking
  obtain rfl := Option.some.inj (hentry.symm.trans hfound)
  have hread : c.ReadAt s.index entry := ⟨hentry, hunsuppressed⟩
  have hbudget := budgetAt_succ_of_read hread
  obtain ⟨hanswer, hremaining, hcalls, hused, hcapped, hcappedAt⟩ :=
    request_congr c.gateway h.remaining h.calls (c.reply entry)
  have hpending : c.pendingRefusal
      ⟨s.index, entry, .requested (request c.gateway s.budget (c.reply entry)).2⟩ =
      (c.verdictAt s.index entry).isRefused := by
    show (c.verdict (request c.gateway s.budget (c.reply entry)).2).isRefused = _
    rw [hanswer]
    rfl
  refine {
    indexed := lt_length hentry
    remaining := hbudget ▸ hremaining
    calls := hbudget ▸ hcalls
    used := ?_
    capped := ?_
    reads := ?_
    distinct := ?_
    skipped := ?_
    covered := ?_
    beyond := fun j hj => h.beyond j (by dsimp only at hj; omega)
    stops := ?_
    fails := ?_
    checking := fun _ hc => by cases hc
    left := fun hc => by cases hc
    checks := h.checks }
  · dsimp only
    rw [hbudget, countP_append, countP_singleton, hpending]
    have hbefore := h.used
    by_cases hrefused : c.verdictAt s.index entry = .refused
    · rw [refusalsBefore_succ_of_refused hread hrefused]
      simp only [hrefused, Verdict.isRefused, if_true]
      omega
    · rw [refusalsBefore_succ_of_ne fun other hother => by
        obtain rfl := Option.some.inj (hread.found.symm.trans hother.found)
        exact hrefused]
      rw [if_neg (fun hpend => hrefused ((Verdict.isRefused_iff _).mp hpend))]
      omega
  · dsimp only
    rw [hbudget, hcapped, hcappedAt, h.capped]
    constructor
    · rintro ((hcap | ⟨j, other, hj, hat, hrefused, hsettled⟩) | hzero)
      · exact .inl (.inl hcap)
      · exact .inr ⟨j, other, by omega, hat, hrefused, hsettled⟩
      · exact .inl (.inr hzero)
    · rintro ((hcap | hzero) | ⟨j, other, hj, hat, hrefused, hsettled⟩)
      · exact .inl (.inl hcap)
      · exact .inr hzero
      · have hne : j ≠ s.index := fun heq => hsettled (h.beyond j (by omega))
        exact .inl (.inr ⟨j, other, by omega, hat, hrefused, hsettled⟩)
  · intro read hin
    rcases mem_append.mp hin with hold | hnew
    · exact h.reads_of_advance rfl (fun _ _ => rfl) hold
    · rw [mem_singleton] at hnew
      subst hnew
      exact ⟨Nat.lt_succ_self _, hread, hanswer, h.beyond s.index (le_refl _)⟩
  · dsimp only
    rw [map_append, map_singleton, nodup_append]
    refine ⟨h.distinct, by simp, ?_⟩
    intro j hj j' hj' heq
    obtain ⟨read, hin, rfl⟩ := mem_map.mp hj
    have hnew : j' = s.index := mem_singleton.mp hj'
    have hlt := (h.reads read hin).1
    omega
  · intro j other hj hat hsuppressed
    have hne : j ≠ s.index := by
      rintro rfl
      obtain rfl := Option.some.inj (hentry.symm.trans hat)
      rw [hunsuppressed] at hsuppressed
      cases hsuppressed
    exact h.skipped j other (by dsimp only at hj; omega) hat hsuppressed
  · intro j other hj hat
    by_cases hne : j = s.index
    · left
      exact ⟨_, mem_append_right _ (mem_singleton_self _), hne.symm⟩
    · rcases h.covered j other (by dsimp only at hj; omega) hat with ⟨read, hin, hindex⟩ | hsettles
      · exact .inl ⟨read, mem_append_left _ hin, hindex⟩
      · exact .inr (hsettles.congr rfl fun first error hfirst =>
          ⟨first, error, hfirst, le_refl _⟩)
  · intro hstopped
    obtain ⟨j, other, hj, hat, hstops⟩ := h.stops hstopped
    exact ⟨j, other, by dsimp only; omega, hat, hstops⟩
  · intro j error hfailure
    obtain ⟨other, hj, hat, hfailed⟩ := h.fails j error hfailure
    exact ⟨other, by dsimp only; omega, hat, hfailed⟩

/-! The reads' turns. -/

/-- A turn of one read in flight: it moves to its next phase, and changes what
is settled at its own place alone. -/
structure ReadTurn (c : SweepConfig) (s s' : LoopState) (before after : List InFlightRead)
    (read : InFlightRead) (phase : ReadPhase) : Prop where
  inFlight : s.inFlight = before ++ read :: after
  inFlight' : s'.inFlight = before ++ { read with phase := phase } :: after := by rfl
  index : s'.index = s.index := by rfl
  dispatcher : s'.dispatcher = s.dispatcher := by rfl
  checks : s'.suppressionChecks = s.suppressionChecks := by rfl
  remaining : s'.budget.remainingRequests = s.budget.remainingRequests := by rfl
  calls : s'.budget.calls = s.budget.calls := by rfl
  used : s'.budget.requestsUsed + (if c.pendingRefusal read then 1 else 0) =
    s.budget.requestsUsed + (if c.pendingRefusal { read with phase := phase } then 1 else 0)
  capped : s'.budget.capped = true ↔ s.budget.capped = true ∨
    (c.verdictAt read.index read.entry = .refused ∧ s'.settled read.index ≠ none)
  unsettled : s.settled read.index = none
  settled : ∀ j, j ≠ read.index → s'.settled j = s.settled j
  stopped : s.stopped = true → s'.stopped = true := by exact fun hstopped => hstopped
  stops : s'.stopped = true → s.stopped = true ∨ c.StopsAt read.index read.entry := by
    exact fun hstopped => .inl hstopped
  earlier : ∀ first error, s.failure = some (first, error) →
      ∃ first' error', s'.failure = some (first', error') ∧ first' ≤ first := by
    exact fun first error hfirst => ⟨first, error, hfirst, le_refl _⟩
  fails : ∀ j error, s'.failure = some (j, error) → s.failure = some (j, error) ∨
      (j = read.index ∧ c.verdictAt read.index read.entry = .failed error) := by
    exact fun _ _ hfailure => .inl hfailure
  phase : c.PhaseInv s' { read with phase := phase }

variable {before after : List InFlightRead}

theorem LoopInv.readTurn {phase : ReadPhase} (h : c.LoopInv s)
    (hturn : ReadTurn c s s' before after read phase) : c.LoopInv s' := by
  have hin : read ∈ s.inFlight := by
    rw [hturn.inFlight]
    exact mem_append_right _ mem_cons_self
  obtain ⟨hlt, hread, -⟩ := h.reads read hin
  have hdistinct := h.distinct
  rw [hturn.inFlight, map_append, map_cons, nodup_append,
    nodup_cons] at hdistinct
  obtain ⟨hbefore, ⟨hafter, -⟩, hapart⟩ := hdistinct
  have hother : ∀ other, other ∈ before ∨ other ∈ after → other.index ≠ read.index := by
    rintro other (hb | ha) heq
    · exact hapart _ (mem_map_of_mem hb) _ mem_cons_self heq
    · exact hafter (heq ▸ mem_map_of_mem ha)
  refine {
    indexed := hturn.index ▸ h.indexed
    remaining := hturn.index ▸ hturn.remaining ▸ h.remaining
    calls := hturn.index ▸ hturn.calls ▸ h.calls
    used := ?_
    capped := ?_
    reads := ?_
    distinct := ?_
    skipped := ?_
    covered := ?_
    beyond := ?_
    stops := ?_
    fails := ?_
    checking := ?_
    left := ?_
    checks := hturn.checks ▸ h.checks }
  · have hused := h.used
    rw [hturn.inFlight, countP_append, countP_cons] at hused
    rw [hturn.inFlight', countP_append, countP_cons, hturn.index]
    have hstep := hturn.used
    omega
  · rw [hturn.capped, h.capped, hturn.index]
    constructor
    · rintro ((hcap | ⟨j, entry, hj, hat, hrefused, hsettled⟩) | ⟨hrefused, hsettled⟩)
      · exact .inl hcap
      · right
        by_cases hself : j = read.index
        · exact absurd (hself ▸ hturn.unsettled) hsettled
        · exact ⟨j, entry, hj, hat, hrefused, by rwa [hturn.settled j hself]⟩
      · exact .inr ⟨read.index, read.entry, hlt, hread, hrefused, hsettled⟩
    · rintro (hcap | ⟨j, entry, hj, hat, hrefused, hsettled⟩)
      · exact .inl (.inl hcap)
      · by_cases hself : j = read.index
        · subst hself
          obtain rfl := Option.some.inj (hread.found.symm.trans hat.found)
          exact .inr ⟨hrefused, hsettled⟩
        · left
          right
          exact ⟨j, entry, hj, hat, hrefused, by rwa [hturn.settled j hself] at hsettled⟩
  · intro other hin'
    rw [hturn.inFlight', mem_append, mem_cons] at hin'
    rw [hturn.index]
    rcases hin' with hb | rfl | ha
    · obtain ⟨hlt', hat, hphase⟩ := h.reads other (by
        rw [hturn.inFlight]
        exact mem_append_left _ hb)
      exact ⟨hlt', hat, hphase.congr (hturn.settled _ (hother other (.inl hb))) hturn.earlier⟩
    · exact ⟨hlt, hread, hturn.phase⟩
    · obtain ⟨hlt', hat, hphase⟩ := h.reads other (by
        rw [hturn.inFlight]
        exact mem_append_right _ (mem_cons_of_mem _ ha))
      exact ⟨hlt', hat, hphase.congr (hturn.settled _ (hother other (.inr ha))) hturn.earlier⟩
  · have hsame : s'.inFlight.map InFlightRead.index = s.inFlight.map InFlightRead.index := by
      rw [hturn.inFlight, hturn.inFlight']
      simp
    rw [hsame]
    exact h.distinct
  · intro j entry hj hentry hsuppressed
    have hne : j ≠ read.index := by
      rintro rfl
      obtain rfl := Option.some.inj (hread.found.symm.trans hentry)
      rw [hread.unsuppressed] at hsuppressed
      cases hsuppressed
    rw [hturn.settled j hne]
    exact h.skipped j entry (hturn.index ▸ hj) hentry hsuppressed
  · intro j entry hj hat
    by_cases hself : j = read.index
    · left
      refine ⟨{ read with phase := phase }, ?_, hself.symm⟩
      rw [hturn.inFlight']
      exact mem_append_right _ mem_cons_self
    · rcases h.covered j entry (hturn.index ▸ hj) hat with ⟨other, hin', hindex⟩ | hsettles
      · left
        refine ⟨other, ?_, hindex⟩
        rw [hturn.inFlight, mem_append, mem_cons] at hin'
        rw [hturn.inFlight', mem_append, mem_cons]
        rcases hin' with hb | rfl | ha
        · exact .inl hb
        · exact absurd hindex.symm hself
        · exact .inr (.inr ha)
      · exact .inr (hsettles.congr (hturn.settled j hself) hturn.earlier)
  · intro j hj
    rw [hturn.index] at hj
    rw [hturn.settled j (by omega)]
    exact h.beyond j hj
  · intro hstopped
    rw [hturn.index]
    rcases hturn.stops hstopped with hbefore | hstops
    · exact h.stops hbefore
    · exact ⟨read.index, read.entry, hlt, hread, hstops⟩
  · intro j error hfailure
    rw [hturn.index]
    rcases hturn.fails j error hfailure with hbefore | ⟨rfl, hfailed⟩
    · exact h.fails j error hbefore
    · exact ⟨read.entry, hlt, hread, hfailed⟩
  · intro isSuppressed hchecking
    rw [hturn.index]
    exact h.checking isSuppressed (hturn.dispatcher ▸ hchecking)
  · intro hfinished
    rw [hturn.index]
    rcases h.left (hturn.dispatcher ▸ hfinished) with hend | hstopped
    · exact .inl hend
    · exact .inr (hturn.stopped hstopped)

theorem LoopInv.used_pos (h : c.LoopInv s) (hin : read ∈ s.inFlight)
    (hpending : c.pendingRefusal read = true) :
    0 < s.budget.requestsUsed := by
  have hused := h.used
  have hle := refusalsBefore_le (c := c) s.index
  have hcount : 0 < s.inFlight.countP c.pendingRefusal :=
    countP_pos_iff.mpr ⟨read, hin, hpending⟩
  omega

theorem mem_inFlight (hin : s.inFlight = before ++ read :: after) : read ∈ s.inFlight := by
  rw [hin]
  exact mem_append_right _ mem_cons_self

theorem LoopInv.answer {answer : Answer Fingerprint} (h : c.LoopInv s)
    (hin : s.inFlight = before ++ read :: after) (hphase : read.phase = .requested answer) :
    c.LoopInv { (c.answered s read answer).1 with
      inFlight := before ++ { read with phase := (c.answered s read answer).2 } :: after } := by
  obtain ⟨-, -, hread⟩ := h.reads read (mem_inFlight hin)
  unfold PhaseInv at hread
  rw [hphase] at hread
  obtain ⟨hanswer, hunsettled⟩ := hread
  have hverdict : c.verdictAt read.index read.entry = c.verdict answer := by
    rw [hanswer]
    rfl
  have hpending : c.pendingRefusal read = (c.verdict answer).isRefused := by
    unfold pendingRefusal
    rw [hphase]
  have hother : ∀ result, ∀ j, j ≠ read.index →
      Function.update s.settled read.index (some result) j = s.settled j :=
    fun _ j hj => Function.update_of_ne hj _ _
  unfold answered
  cases hcase : c.verdict answer with
  | exhausted =>
    rw [hcase] at hverdict hpending
    refine h.readTurn {
      inFlight := hin
      used := by rw [hpending]; rfl
      capped := by simp [hverdict]
      unsettled := hunsettled
      settled := hother _
      stopped := fun _ => rfl
      stops := fun _ => .inr (.inl (.inl hverdict))
      phase := ?_ }
    simp [PhaseInv, Settles, hverdict]
  | refused =>
    rw [hcase] at hverdict hpending
    have hpos := h.used_pos (mem_inFlight hin) hpending
    refine h.readTurn {
      inFlight := hin
      used := ?_
      capped := by simp [hverdict]
      unsettled := hunsettled
      settled := hother _
      stopped := fun _ => rfl
      stops := fun _ => .inr (.inl (.inr hverdict))
      phase := ?_ }
    · rw [hpending]
      show s.budget.requestsUsed - 1 + 1 = s.budget.requestsUsed + 0
      omega
    · simp [PhaseInv, Settles, hverdict]
  | unmatched =>
    rw [hcase] at hverdict hpending
    refine h.readTurn {
      inFlight := hin
      used := by rw [hpending]; rfl
      capped := by simp [hverdict]
      unsettled := hunsettled
      settled := hother _
      phase := ?_ }
    simp [PhaseInv, Settles, hverdict]
  | matched =>
    rw [hcase] at hverdict hpending
    refine h.readTurn {
      inFlight := hin
      used := by rw [hpending]; rfl
      capped := by simp [hverdict]
      unsettled := hunsettled
      settled := fun _ _ => rfl
      phase := ?_ }
    exact ⟨hverdict, hunsettled⟩
  | failed error =>
    rw [hcase] at hverdict hpending
    refine h.readTurn {
      inFlight := hin
      used := by rw [hpending]; rfl
      capped := by simp [hverdict]
      unsettled := hunsettled
      settled := fun _ _ => rfl
      phase := ?_ }
    exact ⟨hverdict, hunsettled⟩

theorem LoopInv.settle (h : c.LoopInv s) (hin : s.inFlight = before ++ read :: after)
    (hphase : read.phase = .admitting) :
    c.LoopInv { s with
      settled := Function.update s.settled read.index (some (c.admission read.entry))
      inFlight := before ++ { read with phase := .done } :: after } := by
  obtain ⟨-, -, hread⟩ := h.reads read (mem_inFlight hin)
  unfold PhaseInv at hread
  rw [hphase] at hread
  obtain ⟨hverdict, hunsettled⟩ := hread
  have hpending : c.pendingRefusal read = false := by
    unfold pendingRefusal
    rw [hphase]
  refine h.readTurn {
    inFlight := hin
    used := by rw [hpending]; rfl
    capped := by simp [hverdict]
    unsettled := hunsettled
    settled := fun j hj => Function.update_of_ne hj _ _
    phase := ?_ }
  simp [PhaseInv, Settles, hverdict]

theorem keepEarliest_le (failure : Option (ℕ × Thrown)) (index : ℕ) (error : Thrown) :
    ∃ first kept, keepEarliest failure index error = some (first, kept) ∧ first ≤ index := by
  unfold keepEarliest
  rcases failure with _ | ⟨first, earlier⟩
  · exact ⟨index, error, rfl, le_refl _⟩
  · dsimp only
    split
    · exact ⟨index, error, rfl, le_refl _⟩
    · next hle => exact ⟨first, earlier, rfl, by omega⟩

theorem keepEarliest_earlier (index : ℕ) (error : Thrown) (first : ℕ) (earlier : Thrown) :
    ∃ first' kept, keepEarliest (some (first, earlier)) index error = some (first', kept) ∧
      first' ≤ first := by
  unfold keepEarliest
  dsimp only
  split
  · next hlt => exact ⟨index, error, rfl, by omega⟩
  · exact ⟨first, earlier, rfl, le_refl _⟩

theorem keepEarliest_cases {failure : Option (ℕ × Thrown)} {error : Thrown} {j : ℕ} {kept : Thrown}
    (h : keepEarliest failure index error = some (j, kept)) :
    failure = some (j, kept) ∨ (j = index ∧ kept = error) := by
  unfold keepEarliest at h
  rcases failure with _ | ⟨first, earlier⟩
  · obtain ⟨rfl, rfl⟩ := Prod.mk.inj (Option.some.inj h)
    exact .inr ⟨rfl, rfl⟩
  · dsimp only at h
    split at h
    · obtain ⟨rfl, rfl⟩ := Prod.mk.inj (Option.some.inj h)
      exact .inr ⟨rfl, rfl⟩
    · exact .inl h

theorem LoopInv.fail {error : Thrown} (h : c.LoopInv s) (hin : s.inFlight = before ++ read :: after)
    (hphase : read.phase = .throwing error) :
    c.LoopInv { s with
      stopped := true
      failure := keepEarliest s.failure read.index error
      inFlight := before ++ { read with phase := .done } :: after } := by
  obtain ⟨-, -, hread⟩ := h.reads read (mem_inFlight hin)
  unfold PhaseInv at hread
  rw [hphase] at hread
  obtain ⟨hverdict, hunsettled⟩ := hread
  have hpending : c.pendingRefusal read = false := by
    unfold pendingRefusal
    rw [hphase]
  refine h.readTurn {
    inFlight := hin
    used := by rw [hpending]; rfl
    capped := by simp [hverdict]
    unsettled := hunsettled
    settled := fun _ _ => rfl
    stopped := fun _ => rfl
    stops := fun _ => .inr (.inr ⟨error, hverdict⟩)
    earlier := ?_
    fails := ?_
    phase := ?_ }
  · intro first earlier hfirst
    show ∃ first' error', keepEarliest s.failure read.index error = some (first', error') ∧ _
    rw [hfirst]
    exact keepEarliest_earlier _ _ _ _
  · intro j kept hkept
    rcases keepEarliest_cases hkept with hbefore | ⟨hj, rfl⟩
    · exact .inl hbefore
    · exact .inr ⟨hj, hverdict⟩
  · have hearliest := keepEarliest_le s.failure read.index error
    unfold PhaseInv Settles
    simp only [hverdict]
    exact ⟨hunsettled, hearliest⟩

theorem LoopInv.leave (h : c.LoopInv s) (hin : s.inFlight = before ++ read :: after)
    (hphase : read.phase = .done) :
    c.LoopInv { s with inFlight := before ++ after } := by
  obtain ⟨-, hat, hread⟩ := h.reads read (mem_inFlight hin)
  unfold PhaseInv at hread
  rw [hphase] at hread
  have hsubset : ∀ other ∈ before ++ after, other ∈ s.inFlight := by
    intro other hother
    rw [hin]
    rcases mem_append.mp hother with hb | ha
    · exact mem_append_left _ hb
    · exact mem_append_right _ (mem_cons_of_mem _ ha)
  refine { h with
    used := ?_
    reads := fun other hother => h.reads other (hsubset other hother)
    distinct := ?_
    covered := ?_ }
  · have hpending : c.pendingRefusal read = false := by
      unfold pendingRefusal
      rw [hphase]
    have hused := h.used
    rw [hin, countP_append, countP_cons_of_neg (by simp [hpending])] at hused
    dsimp only
    rw [countP_append]
    exact hused
  · have hdistinct := h.distinct
    rw [hin] at hdistinct
    refine List.Nodup.sublist ?_ hdistinct
    exact ((List.Sublist.refl before).append (sublist_cons_self read after)).map _
  · intro j entry hj hreadAt
    rcases h.covered j entry hj hreadAt with ⟨other, hother, hindex⟩ | hsettles
    · rw [hin, mem_append, mem_cons] at hother
      rcases hother with hb | rfl | ha
      · exact .inl ⟨other, mem_append_left _ hb, hindex⟩
      · right
        subst hindex
        obtain rfl := Option.some.inj (hat.found.symm.trans hreadAt.found)
        exact hread
      · exact .inl ⟨other, mem_append_right _ ha, hindex⟩
    · exact .inr hsettles

theorem LoopInv.step (h : c.LoopInv s) (hstep : c.Step s s') :
    c.LoopInv s' := by
  cases hstep with
  | exhausted htop hend => exact h.leave_loop (.inl (le_antisymm h.indexed hend))
  | stoppedAtTop htop hstopped => exact h.leave_loop (.inr hstopped)
  | check htop hentry hroom hopen hcheck => exact h.check hcheck
  | stoppedAtCheck hchecking hstopped => exact h.leave_loop (.inr hstopped)
  | skip hchecking hopen => exact h.skip hchecking
  | dispatch hchecking hopen hentry => exact h.dispatch hchecking hentry
  | answer hin hphase => exact h.answer hin hphase
  | settle hin hphase => exact h.settle hin hphase
  | fail hin hphase => exact h.fail hin hphase
  | leave hin hphase => exact h.leave hin hphase

end SweepConfig

end SlashWho.FingerprintDiscovery
