import SlashWho.ApplicantCounts

/-!
What the polls of the applicant sheet keep. A poll decides on the occurrences of
each identity beyond its recorded count: the deferred ones the count still
covers, in order, and behind them those seen for the first time. It admits some
of them and defers the rest, so nothing is lost between the count, the intents
and the deferred, except what a fall of the count takes back.
-/

namespace SlashWho.ApplicantCounts

open List ApplicantIntents ApplicantApplications

/-- When an entry was first seen, and under which mark. -/
def StoredDeferred.sighting : StoredDeferred → ℤ × Mark
  | .time seenAt => (seenAt, .unmarked)
  | .entry seenAt _ none => (seenAt, .unmarked)
  | .entry seenAt _ (some mark) => (seenAt, .marked mark)

def DeferredObservation.sighting (occurrence : DeferredObservation) : ℤ × Mark :=
  (occurrence.seenAt, occurrence.mark)

@[simp] theorem sighting_store (occurrence : DeferredObservation) :
    occurrence.store.sighting = occurrence.sighting := by
  unfold DeferredObservation.store DeferredObservation.sighting
  cases occurrence.mark <;> rfl

@[simp] theorem sighting_read (before shift offset : ℕ) (stored : StoredDeferred) :
    (stored.read before shift offset).sighting = stored.sighting := by
  cases stored with
  | time seenAt => rfl
  | entry seenAt index mark => cases mark <;> rfl

/-- The sightings a row holds back. -/
def heldOf (row : CountRow) : List (ℤ × Mark) :=
  row.deferredObservedAts.map StoredDeferred.sighting

@[simp] theorem length_heldOf (row : CountRow) :
    (heldOf row).length = row.deferredObservedAts.length := length_map _

theorem sightings_pendingTimes (row : CountRow) (current before shift : ℕ) (polledAt : ℤ)
    (startMark : Option ℚ) :
    (pendingTimes row.deferredObservedAts current before shift polledAt startMark).map
        DeferredObservation.sighting =
      (heldOf row).take (current - before) ++
        List.replicate (current - before - row.deferredObservedAts.length)
          (polledAt, .marked startMark) := by
  have hheld : (if current < before then []
      else ((row.deferredObservedAts.take (current - before)).zipIdx.map (fun entry =>
        entry.1.read before shift entry.2))) =
      (row.deferredObservedAts.take (current - before)).zipIdx.map (fun entry =>
        entry.1.read before shift entry.2) := by
    split
    · next hfall =>
      have hzero : current - before = 0 := by omega
      rw [hzero]
      rfl
    · rfl
  unfold pendingTimes
  simp only [hheld]
  rw [map_append]
  congr 1
  · unfold heldOf
    rw [map_map, ← map_take]
    have hread : ∀ l : List StoredDeferred, l.zipIdx.map (DeferredObservation.sighting ∘
        fun entry => entry.1.read before shift entry.2) = l.map StoredDeferred.sighting := by
      intro l
      have hfst : DeferredObservation.sighting ∘ (fun entry : StoredDeferred × ℕ =>
          entry.1.read before shift entry.2) = StoredDeferred.sighting ∘ Prod.fst := by
        funext entry
        exact sighting_read before shift entry.2 entry.1
      rw [hfst, ← map_map, zipIdx_map_fst]
    exact hread _
  · have hlength : current - before - ((row.deferredObservedAts.take
        (current - before)).zipIdx.map (fun entry =>
          entry.1.read before shift entry.2)).length =
        current - before - row.deferredObservedAts.length := by
      rw [length_map, length_zipIdx, length_take]
      omega
    rw [hlength, map_map, eq_replicate_iff]
    constructor
    · rw [length_map, length_range']
    · intro sighting hsighting
      obtain ⟨offset, -, hoffset⟩ := mem_map.mp hsighting
      exact hoffset.symm

/-- Every unsuppressed intent of the list is added to a backlog below the limit. -/
def UnderLimit (limit : ℕ) : ℕ → List Intent → Prop
  | _, [] => True
  | backlog, row :: rest =>
    (row.state ≠ .suppressed → backlog < limit) ∧
      UnderLimit limit (backlog + backlogOf [row]) rest

theorem backlogOf_append (intents new : List Intent) :
    backlogOf (intents ++ new) = backlogOf intents + backlogOf new := countP_append

theorem backlogOf_cons (row : Intent) (rest : List Intent) :
    backlogOf (row :: rest) = backlogOf [row] + backlogOf rest :=
  backlogOf_append [row] rest

theorem underLimit_append {limit backlog : ℕ} {new more : List Intent}
    (h : UnderLimit limit backlog new)
    (hmore : UnderLimit limit (backlog + backlogOf new) more) :
    UnderLimit limit backlog (new ++ more) := by
  induction new generalizing backlog with
  | nil => exact hmore
  | cons row rest ih =>
    refine ⟨h.1, ih h.2 ?_⟩
    rw [backlogOf_cons, ← Nat.add_assoc] at hmore
    exact hmore

theorem underLimit_at {limit backlog : ℕ} {before rest : List Intent} {row : Intent}
    (h : UnderLimit limit backlog (before ++ row :: rest)) (hrow : row.state ≠ .suppressed) :
    backlog + backlogOf before < limit := by
  induction before generalizing backlog with
  | nil => exact h.1 hrow
  | cons first before ih =>
    have hrest := ih h.2
    rw [backlogOf_cons]
    omega

variable {input : PollInput} {rebaselined : Bool} {identity : String}

theorem intents_recordApplication (now : ℤ) (rows : List IntakeRow) (rootIdentity : String)
    (rootSequence : ℕ) (rootSuppressed : Bool) (rootObservedAt : ℤ) (carriedMark : ℚ)
    (counts : ApplicationCounts) (tables : Applications) :
    (recordApplication now rows rootIdentity rootSequence rootSuppressed rootObservedAt carriedMark
      counts tables).2.intents = tables.intents := by
  unfold recordApplication
  simp only
  split
  · split
    · rfl
    · split <;> rfl
  · rfl

theorem intents_recordFor (occurrence : DeferredObservation) (sequence : ℕ) (suppressed : Bool)
    (counts : ApplicationCounts) (tables : Applications) :
    (recordFor input rebaselined identity occurrence sequence suppressed counts tables).2.intents =
      tables.intents := by
  unfold recordFor
  split
  · exact intents_recordApplication _ _ _ _ _ _ _ _ _
  · rfl

/-- What deciding on some occurrences does: the intents it adds, the ones it leaves. -/
structure Decided (input : PollInput) (identity : String) (s s' : Deciding)
    (occurrences : List DeferredObservation) (new : List Intent)
    (left : List DeferredObservation) : Prop where
  intents : s'.watch.intents = s.watch.intents ++ new
  remaining : s'.remaining = s.remaining ++ left
  admitted : s'.admitted = s.admitted + new.length
  counts : s'.watch.counts = s.watch.counts
  source : s'.watch.source = s.watch.source
  backlog : s'.backlog = s.backlog + backlogOf new
  limited : UnderLimit input.backlogLimit s.backlog new
  identities : ∀ row ∈ new, row.identity = identity
  taken : (new.map Intent.observedAt).Sublist (occurrences.map DeferredObservation.seenAt)
  held : left.Sublist occurrences
  split : new.length + left.length = occurrences.length

variable {s s' : Deciding}

theorem decideOccurrence_spec {occurrence : DeferredObservation}
    (h : decideOccurrence input rebaselined identity s occurrence = some s') :
    ∃ new left, Decided input identity s s' [occurrence] new left := by
  unfold decideOccurrence at h
  obtain ⟨decision, -, hs'⟩ := Option.map_eq_some_iff.mp h
  simp only at hs'
  split at hs'
  · refine ⟨[], [occurrence], ?_⟩
    subst hs'
    exact ⟨(append_nil _).symm, rfl, rfl, rfl, rfl, rfl, trivial, by simp, by simp, by simp,
      rfl⟩
  · next hcond =>
    rw [Bool.not_eq_true, Bool.or_eq_false_iff, Bool.or_eq_false_iff] at hcond
    refine ⟨[newIntent identity s.watch.nextSequence occurrence.seenAt
      (decision = .suppressed)], [], ?_⟩
    subst hs'
    refine ⟨?_, (append_nil _).symm, rfl, rfl, rfl, ?_, ?_, ?_, ?_, by simp, rfl⟩
    · unfold admitOccurrence
      simp only [intents_recordFor]
      rfl
    · unfold admitOccurrence
      cases decision <;> rfl
    · refine ⟨?_, trivial⟩
      intro hstate
      cases decision with
      | suppressed => exact absurd rfl hstate
      | clear =>
        have hlimit := hcond.2
        simp only [ne_eq, reduceCtorEq, not_false_eq_true, decide_true, Bool.true_and,
          decide_eq_false_iff_not, Nat.not_le] at hlimit
        exact hlimit
      | defer =>
        have hlimit := hcond.2
        simp only [ne_eq, reduceCtorEq, not_false_eq_true, decide_true, Bool.true_and,
          decide_eq_false_iff_not, Nat.not_le] at hlimit
        exact hlimit
    · intro row hrow
      rw [mem_singleton.mp hrow]
      rfl
    · exact List.Sublist.refl _

theorem Decided.append {s'' : Deciding} {first rest : List DeferredObservation}
    {new more : List Intent} {left leftover : List DeferredObservation}
    (h : Decided input identity s s' first new left)
    (h' : Decided input identity s' s'' rest more leftover) :
    Decided input identity s s'' (first ++ rest) (new ++ more) (left ++ leftover) := by
  refine ⟨?_, ?_, ?_, h'.counts.trans h.counts, h'.source.trans h.source, ?_, ?_, ?_, ?_,
    h.held.append h'.held, ?_⟩
  · rw [h'.intents, h.intents, append_assoc]
  · rw [h'.remaining, h.remaining, append_assoc]
  · rw [h'.admitted, h.admitted, length_append, Nat.add_assoc]
  · rw [h'.backlog, h.backlog, backlogOf_append, Nat.add_assoc]
  · have hlimited := h'.limited
    rw [h.backlog] at hlimited
    exact underLimit_append h.limited hlimited
  · intro row hrow
    rcases mem_append.mp hrow with hrow | hrow
    · exact h.identities row hrow
    · exact h'.identities row hrow
  · rw [map_append, map_append]
    exact h.taken.append h'.taken
  · have hsplit := h.split
    have hsplit' := h'.split
    rw [length_append, length_append, length_append]
    omega

theorem decideAll_spec {occurrences : List DeferredObservation}
    (h : occurrences.foldlM (decideOccurrence input rebaselined identity) s = some s') :
    ∃ new left, Decided input identity s s' occurrences new left := by
  induction occurrences generalizing s with
  | nil =>
    cases h
    exact ⟨[], [], (append_nil _).symm, (append_nil _).symm, rfl, rfl, rfl, rfl, trivial,
      by simp, by simp, by simp, rfl⟩
  | cons occurrence rest ih =>
    rw [foldlM_cons] at h
    obtain ⟨next, hnext, hrest⟩ := Option.bind_eq_some_iff.mp h
    obtain ⟨new, left, hone⟩ := decideOccurrence_spec hnext
    obtain ⟨more, leftover, hmore⟩ := ih hrest
    exact ⟨_, _, hone.append hmore⟩

variable (input : PollInput) (startMark : Option ℚ) (rebaselined : Bool)
  {existing : OrderedMap String CountRow}

def rowOf (counts : OrderedMap String CountRow) (identity : String) : CountRow :=
  (counts.get? identity).getD noRow

def currentOf (input : PollInput) (identity : String) : ℕ :=
  (input.counts.get? identity).getD 0

/-- How far a count lies above what is recorded and deferred. -/
def riseOver (input : PollInput) (rebaselined : Bool) (identity : String) (row : CountRow) : ℕ :=
  if rebaselined then 0
  else currentOf input identity - (row.occurrenceCount + row.deferredObservedAts.length)

/-- The deferred entries a count no longer covers. -/
def cancelledFrom (input : PollInput) (identity : String) (row : CountRow) : ℕ :=
  row.deferredObservedAts.length - (currentOf input identity - row.occurrenceCount)

/-- What a poll does to the row of an identity, with the intents it adds for it. -/
structure Reconciled (identity : String) (row row' : CountRow) (new : List Intent) : Prop where
  counted : row'.occurrenceCount + row'.deferredObservedAts.length = currentOf input identity
  sighted : (heldOf row').Sublist (heldOf row ++
    List.replicate (riseOver input rebaselined identity row) (input.polledAt, .marked startMark))
  created : (new.map Intent.observedAt).Sublist ((heldOf row).map Prod.fst ++
    List.replicate (riseOver input rebaselined identity row) input.polledAt)
  conserved : new.length + row'.deferredObservedAts.length + cancelledFrom input identity row =
    riseOver input rebaselined identity row + row.deferredObservedAts.length

structure ReconciledOne (identity : String) (row : CountRow) (s s' : Reconciling)
    (new : List Intent) : Prop where
  intents : s'.watch.intents = s.watch.intents ++ new
  backlog : s'.backlog = s.backlog + backlogOf new
  limited : UnderLimit input.backlogLimit s.backlog new
  identities : ∀ added ∈ new, added.identity = identity
  source : s'.watch.source = s.watch.source
  own : ∃ row', s'.watch.counts = s.watch.counts.set identity row' ∧
    Reconciled input startMark rebaselined identity row row' new

variable {input startMark rebaselined}

/-- The row that is stored, from the occurrences admitted and the ones left. -/
def reconciledRow (rebaselined : Bool) (current : ℕ) (row : CountRow) (admitted : ℕ)
    (remaining : List DeferredObservation) : CountRow :=
  let before := row.occurrenceCount + shiftOf rebaselined current row.occurrenceCount
    row.deferredObservedAts.length
  ⟨if current < before then current else before + admitted,
    remaining.map DeferredObservation.store⟩

variable {new : List Intent}

theorem reconciled_of_decided {row : CountRow} {left pending : List DeferredObservation}
    (hpending : pending = pendingTimes row.deferredObservedAts (currentOf input identity)
      (row.occurrenceCount + shiftOf rebaselined (currentOf input identity) row.occurrenceCount
        row.deferredObservedAts.length)
      (shiftOf rebaselined (currentOf input identity) row.occurrenceCount
        row.deferredObservedAts.length) input.polledAt startMark)
    (htaken : (new.map Intent.observedAt).Sublist (pending.map DeferredObservation.seenAt))
    (hleft : left.Sublist pending) (hsplit : new.length + left.length = pending.length) :
    Reconciled input startMark rebaselined identity row
      (reconciledRow rebaselined (currentOf input identity) row new.length left) new := by
  have hsightings := sightings_pendingTimes row (currentOf input identity)
    (row.occurrenceCount + shiftOf rebaselined (currentOf input identity) row.occurrenceCount
      row.deferredObservedAts.length)
    (shiftOf rebaselined (currentOf input identity) row.occurrenceCount
      row.deferredObservedAts.length) input.polledAt startMark
  rw [← hpending] at hsightings
  have hnew : currentOf input identity - (row.occurrenceCount + shiftOf rebaselined
      (currentOf input identity) row.occurrenceCount row.deferredObservedAts.length) -
        row.deferredObservedAts.length = riseOver input rebaselined identity row := by
    unfold shiftOf riseOver
    cases rebaselined <;> simp only [Bool.false_eq_true, if_true, if_false] <;> omega
  rw [hnew] at hsightings
  have hlength := congrArg List.length hsightings
  rw [length_map, length_append, length_take, length_replicate,
    length_heldOf] at hlength
  have hprefix : (pending.map DeferredObservation.sighting).Sublist (heldOf row ++
      List.replicate (riseOver input rebaselined identity row)
        (input.polledAt, .marked startMark)) := by
    rw [hsightings]
    exact (take_sublist _ _).append (List.Sublist.refl _)
  refine ⟨?_, ?_, ?_, ?_⟩
  · unfold reconciledRow riseOver at *
    unfold shiftOf at *
    simp only [length_map]
    cases rebaselined <;> simp only [Bool.false_eq_true, if_true, if_false] at * <;> split <;> omega
  · unfold reconciledRow heldOf at *
    rw [map_map]
    have hstore : StoredDeferred.sighting ∘ DeferredObservation.store =
        DeferredObservation.sighting := by
      funext occurrence
      exact sighting_store occurrence
    rw [hstore]
    exact (hleft.map _).trans hprefix
  · have hseen := hprefix.map Prod.fst
    rw [map_map, map_append, map_replicate] at hseen
    exact htaken.trans hseen
  · unfold reconciledRow cancelledFrom riseOver at *
    unfold shiftOf at *
    simp only [length_map]
    cases rebaselined <;> simp only [Bool.false_eq_true, if_true, if_false] at * <;> omega

theorem reconcileIdentity_spec {s s' : Reconciling}
    (h : reconcileIdentity input startMark rebaselined existing s identity = some s') :
    ∃ new, ReconciledOne input startMark rebaselined identity (rowOf existing identity) s s' new := by
  unfold reconcileIdentity at h
  simp only at h
  obtain ⟨decided, hdecided, hs'⟩ := Option.map_eq_some_iff.mp h
  obtain ⟨new, left, hspec⟩ := decideAll_spec hdecided
  subst hs'
  change Decided input identity _ decided (pendingTimes
    (rowOf existing identity).deferredObservedAts (currentOf input identity)
    ((rowOf existing identity).occurrenceCount + shiftOf rebaselined (currentOf input identity)
      (rowOf existing identity).occurrenceCount
      (rowOf existing identity).deferredObservedAts.length)
    (shiftOf rebaselined (currentOf input identity) (rowOf existing identity).occurrenceCount
      (rowOf existing identity).deferredObservedAts.length) input.polledAt startMark) new left at hspec
  have hadmitted : decided.admitted = new.length := hspec.admitted.trans (Nat.zero_add _)
  have hremaining : decided.remaining = left := hspec.remaining.trans (nil_append _)
  refine ⟨new, hspec.intents, hspec.backlog, hspec.limited, hspec.identities, hspec.source,
    reconciledRow rebaselined (currentOf input identity) (rowOf existing identity)
      decided.admitted decided.remaining, ?_, ?_⟩
  · have hcounts : decided.watch.counts = s.watch.counts := hspec.counts
    rw [← hcounts]
    rfl
  · rw [hadmitted, hremaining]
    exact reconciled_of_decided rfl hspec.taken hspec.held hspec.split

/-- The intents of one identity among those a poll adds. -/
def addedFor (identity : String) (new : List Intent) : List Intent :=
  new.filter (fun row => row.identity = identity)

theorem addedFor_self (h : ∀ row ∈ new, row.identity = identity) :
    addedFor identity new = new := by
  apply filter_eq_self.mpr
  intro row hrow
  rw [decide_eq_true_eq]
  exact h row hrow

theorem addedFor_other {other : String} (hne : identity ≠ other)
    (h : ∀ row ∈ new, row.identity = identity) : addedFor other new = [] := by
  apply filter_eq_nil_iff.mpr
  intro row hrow
  rw [decide_eq_true_eq, h row hrow]
  exact hne

/-- What the loop over the identities does: each of them is reconciled once, and
the rows of all others stay as they were. -/
structure ReconciledAll (input : PollInput) (startMark : Option ℚ) (rebaselined : Bool)
    (existing : OrderedMap String CountRow) (identities : List String) (s s' : Reconciling)
    (new : List Intent) : Prop where
  intents : s'.watch.intents = s.watch.intents ++ new
  backlog : s'.backlog = s.backlog + backlogOf new
  limited : UnderLimit input.backlogLimit s.backlog new
  source : s'.watch.source = s.watch.source
  each : ∀ identity ∈ identities, Reconciled input startMark rebaselined identity
    (rowOf existing identity) (rowOf s'.watch.counts identity) (addedFor identity new)
  others : ∀ identity ∉ identities,
    s'.watch.counts.get? identity = s.watch.counts.get? identity ∧ addedFor identity new = []

theorem reconcileAll_spec {identities : List String} (hnodup : identities.Nodup)
    {s s' : Reconciling}
    (h : identities.foldlM (reconcileIdentity input startMark rebaselined existing) s = some s') :
    ∃ new, ReconciledAll input startMark rebaselined existing identities s s' new := by
  induction identities generalizing s with
  | nil =>
    cases h
    refine ⟨[], (append_nil _).symm, rfl, trivial, rfl, by simp, ?_⟩
    intro identity _
    exact ⟨rfl, rfl⟩
  | cons identity rest ih =>
    rw [foldlM_cons] at h
    obtain ⟨next, hnext, hrest⟩ := Option.bind_eq_some_iff.mp h
    rw [nodup_cons] at hnodup
    obtain ⟨new, hone⟩ := reconcileIdentity_spec hnext
    obtain ⟨more, hmore⟩ := ih hnodup.2 hrest
    obtain ⟨row', hset, hreconciled⟩ := hone.own
    refine ⟨new ++ more, ?_, ?_, ?_, hmore.source.trans hone.source, ?_, ?_⟩
    · rw [hmore.intents, hone.intents, append_assoc]
    · rw [hmore.backlog, hone.backlog, backlogOf_append, Nat.add_assoc]
    · have hlimited := hmore.limited
      rw [hone.backlog] at hlimited
      exact underLimit_append hone.limited hlimited
    · intro other hother
      have happend : addedFor other (new ++ more) = addedFor other new ++ addedFor other more :=
        filter_append ..
      rcases mem_cons.mp hother with hsame | hin
      · rw [hsame] at happend ⊢
        obtain ⟨hrow, hnone⟩ := hmore.others identity hnodup.1
        rw [happend, hnone, append_nil, addedFor_self hone.identities]
        have hrow' : rowOf s'.watch.counts identity = row' := by
          unfold rowOf
          rw [hrow, hset, OrderedMap.get?_set_self]
          rfl
        rw [hrow']
        exact hreconciled
      · have hne : identity ≠ other := by
          intro hsame
          rw [hsame] at hnodup
          exact hnodup.1 hin
        rw [happend, addedFor_other hne hone.identities, nil_append]
        exact hmore.each other hin
    · intro other hother
      rw [mem_cons, not_or] at hother
      obtain ⟨hrow, hnone⟩ := hmore.others other hother.2
      constructor
      · rw [hrow, hset, OrderedMap.get?_set_ne _ _ hother.1]
      · have happend : addedFor other (new ++ more) = addedFor other new ++ addedFor other more :=
          filter_append ..
        rw [happend, hnone, addedFor_other (Ne.symm hother.1) hone.identities, append_nil]

variable {input : PollInput} {watch : Watch}

theorem nodup_identitiesOf (existing : OrderedMap String CountRow)
    (counts : OrderedMap String ℕ) : (identitiesOf existing counts).Nodup := by
  unfold identitiesOf
  rw [nodup_append]
  refine ⟨existing.nodup_keys, counts.nodup_keys.filter _, ?_⟩
  intro identity hidentity other hother hsame
  rw [mem_filter, Bool.not_eq_true', ← hsame] at hother
  rw [(existing.has_iff identity).mpr hidentity] at hother
  exact absurd hother.2 (by decide)

theorem mem_identitiesOf {existing : OrderedMap String CountRow} {counts : OrderedMap String ℕ}
    {identity : String} :
    identity ∈ identitiesOf existing counts ↔
      identity ∈ existing.keys ∨ identity ∈ counts.keys := by
  unfold identitiesOf
  rw [mem_append, mem_filter, Bool.not_eq_true']
  constructor
  · intro h
    rcases h with h | h
    · exact .inl h
    · exact .inr h.1
  · intro h
    by_cases hin : identity ∈ existing.keys
    · exact .inl hin
    · rcases h with h | h
      · exact .inl h
      · refine .inr ⟨h, ?_⟩
        by_contra hhas
        exact hin ((existing.has_iff identity).mp (Bool.eq_true_of_not_eq_false hhas))

theorem poll_spec {source : SourceState} (hsource : watch.source = some source)
    {result : PollResult} {after : Watch}
    (h : reconcileApplicantCounts input watch = some (result, after)) :
    ∃ new, after.intents = watch.intents ++ new ∧
      UnderLimit input.backlogLimit (backlogOf watch.intents) new ∧
      (∃ source', after.source = some source') ∧
      ∀ identity, Reconciled input source.submittedSerialMark
        (source.parserVersion ≠ input.parserVersion) identity (rowOf watch.counts identity)
        (rowOf after.counts identity) (addedFor identity new) := by
  unfold reconcileApplicantCounts at h
  rw [hsource] at h
  simp only at h
  obtain ⟨s, hs, hafter⟩ := Option.map_eq_some_iff.mp h
  obtain ⟨new, hall⟩ := reconcileAll_spec (nodup_identitiesOf _ _) hs
  have hcounts := congrArg (fun pair => (Prod.snd pair).counts) hafter
  have hintents := congrArg (fun pair => (Prod.snd pair).intents) hafter
  have hstate := congrArg (fun pair => (Prod.snd pair).source) hafter
  simp only at hcounts hintents hstate
  rw [← hcounts, ← hintents, ← hstate]
  refine ⟨new, hall.intents, hall.limited, ⟨_, rfl⟩, ?_⟩
  intro identity
  by_cases hin : identity ∈ identitiesOf watch.counts input.counts
  · exact hall.each identity hin
  · obtain ⟨hrow, hnone⟩ := hall.others identity hin
    rw [mem_identitiesOf, not_or] at hin
    have hold : watch.counts.get? identity = none := by
      by_contra hsome
      exact hin.1 ((watch.counts.has_iff identity).mp (Option.isSome_iff_ne_none.mpr hsome))
    have hcurrent : currentOf input identity = 0 := by
      unfold currentOf
      have hnot : input.counts.get? identity = none := by
        by_contra hsome
        exact hin.2 ((input.counts.has_iff identity).mp (Option.isSome_iff_ne_none.mpr hsome))
      rw [hnot]
      rfl
    have hempty : rowOf watch.counts identity = noRow := by
      unfold rowOf
      rw [hold]
      rfl
    have hempty' : rowOf s.watch.counts identity = noRow := by
      unfold rowOf
      rw [hrow, hold]
      rfl
    rw [hnone, hempty, hempty']
    refine ⟨?_, ?_, ?_, ?_⟩
    · rw [hcurrent]
      rfl
    · exact nil_sublist _
    · exact nil_sublist _
    · unfold riseOver cancelledFrom
      rw [hcurrent]
      simp [noRow]

/-- What happens to the watcher's tables: a poll, a poll that fails before or
after its transaction's work, and the work of others on intents and applications,
which leaves what an intent is of, and the rows of the counts but for their order. -/
inductive Happening
  | poll (input : PollInput)
  | failed
  | others (tables : Applications) (counts : OrderedMap String CountRow)

def intentKey (row : Intent) : ℕ × String × ℤ := (row.sequence, row.identity, row.observedAt)

def step (watch : Watch) : Happening → Watch
  | .poll input => poll input watch
  | .failed => watch
  | .others tables counts =>
    if tables.intents.map intentKey = watch.intents.map intentKey ∧
        counts.entries.Perm watch.counts.entries then
      { watch with toApplications := tables, counts := counts }
    else watch

def Watch.start : Watch where
  intents := []
  applications := []
  members := []
  nextApplication := 1
  source := none
  counts := .empty
  nextSequence := 1

def createdFor (identity : String) (watch : Watch) : List Intent :=
  addedFor identity watch.intents

/-- Whether a poll meets a new parser version. -/
def isRebaselined (watch : Watch) (input : PollInput) : Bool :=
  watch.source.any (fun source => source.parserVersion ≠ input.parserVersion)

/-- How far an identity rises in a poll that commits, the baseline apart. -/
def riseAt (identity : String) : Watch × Happening → ℕ
  | (watch, .poll input) =>
    if (reconcileApplicantCounts input watch).isSome && watch.source.isSome then
      riseOver input (isRebaselined watch input) identity (rowOf watch.counts identity)
    else 0
  | _ => 0

/-- How many deferred entries of an identity a poll that commits takes back. -/
def cancelledAt (identity : String) : Watch × Happening → ℕ
  | (watch, .poll input) =>
    if (reconcileApplicantCounts input watch).isSome && watch.source.isSome then
      cancelledFrom input identity (rowOf watch.counts identity)
    else 0
  | _ => 0

structure PollKept (watch : Watch) (input : PollInput) (after : Watch) : Prop where
  failed : reconcileApplicantCounts input watch = none → after = watch
  /-- The recorded count and the deferred entries make up the count it saw. -/
  counted : reconcileApplicantCounts input watch ≠ none → ∀ identity,
    (rowOf after.counts identity).occurrenceCount +
        (rowOf after.counts identity).deferredObservedAts.length = currentOf input identity
  /-- A deferred entry keeps its first sighting; the others are of this poll. -/
  sighted : ∀ source, watch.source = some source → ∀ identity,
    (heldOf (rowOf after.counts identity)).Sublist (heldOf (rowOf watch.counts identity) ++
      List.replicate (riseAt identity (watch, .poll input))
        (input.polledAt, .marked source.submittedSerialMark))
  baseline : watch.source = none → after.intents = watch.intents
  /-- Under a new parser version only deferred occurrences are admitted. -/
  rebaselined : isRebaselined watch input = true → ∀ identity,
    ∃ new, createdFor identity after = createdFor identity watch ++ new ∧
      (new.map Intent.observedAt).Sublist
        ((heldOf (rowOf watch.counts identity)).map Prod.fst)
  /-- An unsuppressed intent is added only to a backlog below the limit. -/
  limited : ∀ before row rest, after.intents = watch.intents ++ (before ++ row :: rest) →
    row.state ≠ .suppressed → backlogOf (watch.intents ++ before) < input.backlogLimit

def Initialized (watch : Watch) : Prop := watch.source = none → watch.counts = .empty

theorem rowOf_perm {counts counts' : OrderedMap String CountRow}
    (h : counts.entries.Perm counts'.entries) (identity : String) :
    rowOf counts identity = rowOf counts' identity := by
  have hget : counts.get? identity = counts'.get? identity := by
    apply Option.ext
    intro row
    rw [← OrderedMap.mem_entries_iff, ← OrderedMap.mem_entries_iff]
    exact h.mem_iff
  unfold rowOf
  rw [hget]

theorem initialized_step (h : Initialized watch) (happening : Happening) :
    Initialized (step watch happening) := by
  cases happening with
  | failed => exact h
  | others tables counts =>
    unfold step
    simp only
    split
    · next hsame =>
      intro hsource
      have hempty := hsame.2
      rw [h hsource] at hempty
      have hentries : counts.entries = [] := hempty.eq_nil
      cases counts
      cases hentries
      rfl
    · exact h
  | poll input =>
    intro hsource
    change (poll input watch).source = none at hsource
    change (poll input watch).counts = .empty
    cases hbefore : watch.source with
    | none =>
      have hpoll : poll input watch = baseline input watch := by
        unfold poll reconcileApplicantCounts
        rw [hbefore]
      rw [hpoll] at hsource
      cases hsource
    | some source =>
      cases hreconciled : reconcileApplicantCounts input watch with
      | none =>
        have hpoll : poll input watch = watch := by
          unfold poll
          rw [hreconciled]
        rw [hpoll, hbefore] at hsource
        cases hsource
      | some outcome =>
        obtain ⟨-, -, -, ⟨source', hsource'⟩, -⟩ := poll_spec hbefore hreconciled
        have hpoll : poll input watch = outcome.2 := by
          unfold poll
          rw [hreconciled]
        rw [hpoll, hsource'] at hsource
        cases hsource

theorem rowOf_baseline (hempty : watch.counts = .empty) (input : PollInput) (identity : String) :
    rowOf (baseline input watch).counts identity = ⟨currentOf input identity, []⟩ := by
  unfold rowOf baseline currentOf
  simp only [hempty]
  have hget := OrderedMap.get?_ofList_entries input.counts
    (fun count => (⟨count, []⟩ : CountRow)) identity
  unfold OrderedMap.ofList at hget
  rw [hget]
  cases input.counts.get? identity <;> rfl

theorem step_poll_some {input : PollInput} {outcome : PollResult × Watch}
    (h : reconcileApplicantCounts input watch = some outcome) :
    step watch (.poll input) = outcome.2 := by
  change poll input watch = outcome.2
  unfold poll
  rw [h]

theorem step_poll_none {input : PollInput} (h : reconcileApplicantCounts input watch = none) :
    step watch (.poll input) = watch := by
  change poll input watch = watch
  unfold poll
  rw [h]

theorem reconcile_baseline (input : PollInput) (h : watch.source = none) :
    ∃ result, reconcileApplicantCounts input watch = some (result, baseline input watch) := by
  unfold reconcileApplicantCounts
  rw [h]
  exact ⟨_, rfl⟩

theorem isRebaselined_eq {source : SourceState} (h : watch.source = some source)
    (input : PollInput) :
    isRebaselined watch input = decide (source.parserVersion ≠ input.parserVersion) := by
  unfold isRebaselined
  rw [h]
  rfl

theorem createdFor_append {after : Watch} {new : List Intent}
    (h : after.intents = watch.intents ++ new) (identity : String) :
    createdFor identity after = createdFor identity watch ++ addedFor identity new := by
  unfold createdFor addedFor
  rw [h, filter_append]

theorem pollKept_step (hinit : Initialized watch) (input : PollInput) :
    PollKept watch input (step watch (.poll input)) := by
  cases hreconciled : reconcileApplicantCounts input watch with
  | none =>
    have hsame := step_poll_none hreconciled
    rw [hsame]
    refine ⟨fun _ => rfl, ?_, ?_, fun _ => rfl, ?_, ?_⟩
    · intro hne
      exact absurd hreconciled hne
    · intro source _ identity
      exact sublist_append_left _ _
    · intro _ identity
      exact ⟨[], (append_nil _).symm, nil_sublist _⟩
    · intro before row rest hintents
      have hlength := congrArg List.length hintents
      rw [length_append, length_append, length_cons] at hlength
      omega
  | some outcome =>
    obtain ⟨result, after⟩ := outcome
    rw [step_poll_some hreconciled]
    cases hsource : watch.source with
    | none =>
      obtain ⟨result', hbaseline⟩ := reconcile_baseline input hsource
      have hafter : after = baseline input watch := by
        rw [hreconciled, Option.some.injEq] at hbaseline
        exact congrArg Prod.snd hbaseline
      subst hafter
      refine ⟨?_, ?_, ?_, fun _ => rfl, ?_, ?_⟩
      · intro hnone
        rw [hreconciled] at hnone
        cases hnone
      · intro _ identity
        rw [rowOf_baseline (hinit hsource)]
        rfl
      · intro source hsome
        rw [hsource] at hsome
        cases hsome
      · intro hrebaselined
        unfold isRebaselined at hrebaselined
        rw [hsource] at hrebaselined
        cases hrebaselined
      · intro before row rest hintents
        have hlength := congrArg List.length hintents
        rw [length_append, length_append, length_cons] at hlength
        change watch.intents.length = _ at hlength
        omega
    | some source =>
      obtain ⟨new, hintents, hlimited, -, hrows⟩ := poll_spec hsource hreconciled
      have hrise : ∀ identity, riseAt identity (watch, .poll input) =
          riseOver input (source.parserVersion ≠ input.parserVersion) identity
            (rowOf watch.counts identity) := by
        intro identity
        unfold riseAt
        simp only [hreconciled, hsource, isRebaselined_eq hsource]
        rfl
      refine ⟨?_, ?_, ?_, ?_, ?_, ?_⟩
      · intro hnone
        rw [hreconciled] at hnone
        cases hnone
      · intro _ identity
        exact (hrows identity).counted
      · intro source' hsource' identity
        rw [hsource, Option.some.injEq] at hsource'
        rw [← hsource', hrise]
        exact (hrows identity).sighted
      · intro hnone
        rw [hsource] at hnone
        cases hnone
      · intro hrebaselined identity
        rw [isRebaselined_eq hsource] at hrebaselined
        refine ⟨_, createdFor_append hintents identity, ?_⟩
        have hcreated := (hrows identity).created
        have hnone : riseOver input (source.parserVersion ≠ input.parserVersion) identity
            (rowOf watch.counts identity) = 0 := by
          unfold riseOver
          rw [if_pos hrebaselined]
        rw [hnone, replicate_zero, append_nil] at hcreated
        exact hcreated
      · intro before row rest hsplit hstate
        rw [hintents, append_cancel_left_eq] at hsplit
        rw [hsplit] at hlimited
        rw [backlogOf_append]
        exact underLimit_at hlimited hstate

theorem balance_step (hinit : Initialized watch) (happening : Happening) (identity : String) :
    ((createdFor identity (step watch happening)).length +
        (rowOf (step watch happening).counts identity).deferredObservedAts.length) +
      cancelledAt identity (watch, happening) =
    ((createdFor identity watch).length +
        (rowOf watch.counts identity).deferredObservedAts.length) +
      riseAt identity (watch, happening) := by
  cases happening with
  | failed => rfl
  | others tables counts =>
    unfold step
    simp only
    split
    · next hsame =>
      have hcreated : (createdFor identity
          { watch with toApplications := tables, counts := counts }).length =
          (createdFor identity watch).length := by
        have hcount : ∀ intents : List Intent, (addedFor identity intents).length =
            (intents.map intentKey).countP (fun key => key.2.1 = identity) := by
          intro intents
          unfold addedFor
          rw [← countP_eq_length_filter, countP_map]
          rfl
        unfold createdFor
        rw [hcount, hcount, hsame.1]
      rw [hcreated]
      have hrow := rowOf_perm hsame.2 identity
      simp only [hrow]
      rfl
    · rfl
  | poll input =>
    cases hreconciled : reconcileApplicantCounts input watch with
    | none =>
      have hrise : riseAt identity (watch, .poll input) = 0 := by
        unfold riseAt
        simp [hreconciled]
      have hcancelled : cancelledAt identity (watch, .poll input) = 0 := by
        unfold cancelledAt
        simp [hreconciled]
      rw [step_poll_none hreconciled, hrise, hcancelled]
    | some outcome =>
      obtain ⟨result, after⟩ := outcome
      rw [step_poll_some hreconciled]
      cases hsource : watch.source with
      | none =>
        obtain ⟨result', hbaseline⟩ := reconcile_baseline input hsource
        have hafter : after = baseline input watch := by
          rw [hreconciled, Option.some.injEq] at hbaseline
          exact congrArg Prod.snd hbaseline
        have hrise : riseAt identity (watch, .poll input) = 0 := by
          unfold riseAt
          simp [hsource]
        have hcancelled : cancelledAt identity (watch, .poll input) = 0 := by
          unfold cancelledAt
          simp [hsource]
        have hempty : rowOf watch.counts identity = noRow := by
          unfold rowOf
          rw [hinit hsource]
          rfl
        rw [hrise, hcancelled, hafter, rowOf_baseline (hinit hsource), hempty]
        rfl
      | some source =>
        obtain ⟨new, hintents, -, -, hrows⟩ := poll_spec hsource hreconciled
        have hrise : riseAt identity (watch, .poll input) =
            riseOver input (source.parserVersion ≠ input.parserVersion) identity
              (rowOf watch.counts identity) := by
          unfold riseAt
          simp only [hreconciled, hsource, isRebaselined_eq hsource]
          rfl
        have hcancelled : cancelledAt identity (watch, .poll input) =
            cancelledFrom input identity (rowOf watch.counts identity) := by
          unfold cancelledAt
          simp [hreconciled, hsource]
        have hconserved := (hrows identity).conserved
        rw [hrise, hcancelled, createdFor_append hintents, length_append]
        simp only at hconserved ⊢
        omega

/-- In every run each poll keeps what it should, and for each identity the intents
so far, the entries still deferred and those taken back make up its rises. -/
theorem polls_conserve (happenings : List Happening) :
    (∀ p ∈ Runs.steps step .start happenings, ∀ input, p.2 = .poll input →
        PollKept p.1 input (step p.1 p.2)) ∧
      ∀ identity,
        (createdFor identity (Runs.after step .start happenings)).length +
            (rowOf (Runs.after step .start happenings).counts identity).deferredObservedAts.length +
            ((Runs.steps step .start happenings).map (cancelledAt identity)).sum =
          ((Runs.steps step .start happenings).map (riseAt identity)).sum := by
  have hstart : Initialized .start := fun _ => rfl
  constructor
  · intro p hp input hinput
    have hinit := Runs.keeps_steps Initialized (fun s a h => initialized_step h a) hstart hp
    rw [hinput]
    exact pollKept_step hinit input
  · intro identity
    have hbalance := Runs.sum_balance Initialized
      (fun watch => (createdFor identity watch).length +
        (rowOf watch.counts identity).deferredObservedAts.length)
      (riseAt identity) (cancelledAt identity) (fun s a h => initialized_step h a)
      (fun s a h => balance_step h a identity) hstart happenings
    have hzero : (createdFor identity .start).length +
        (rowOf Watch.start.counts identity).deferredObservedAts.length = 0 := rfl
    simp only [hzero, Nat.zero_add] at hbalance
    exact hbalance

end SlashWho.ApplicantCounts
