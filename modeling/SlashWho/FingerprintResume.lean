import SlashWho.FingerprintCycles
import SlashWho.FingerprintSettleOrder

/-!
However often caps cut a run's sweep, its cycles find together what one uncapped
sweep finds. The candidates are strictly ascending by canonical id, so the
cursor cuts them at one place; a cycle is a leg of the walk over them, and a
read that does not fail finds the same in whichever cycle it is made.
-/

namespace SlashWho.FingerprintDiscovery

open List Characters

/-! The candidates in order. -/

variable (runtime : Runtime) (root : CharacterKey)

theorem eligibleFrom_sublist (seen : List CanonicalId) (candidates : List FingerprintCandidate) :
    (eligibleFrom runtime root seen candidates).Sublist
      (candidates.map (fun candidate => ⟨candidate, candidateId runtime candidate⟩)) := by
  induction candidates generalizing seen with
  | nil => exact List.Sublist.refl _
  | cons candidate rest ih =>
    unfold eligibleFrom
    rw [map_cons]
    split
    · exact (ih seen).cons _
    · exact (ih _).cons_cons _

theorem id_of_mem_eligibleFrom {seen : List CanonicalId}
    {candidates : List FingerprintCandidate} {entry : Eligible}
    (h : entry ∈ eligibleFrom runtime root seen candidates) :
    entry.id = canonicalCharacterId runtime.lower entry.candidate.key := by
  have hmem := (eligibleFrom_sublist runtime root seen candidates).subset h
  obtain ⟨candidate, -, rfl⟩ := mem_map.mp hmem
  rfl

/-- Candidates dropped by their id beforehand are candidates dropped afterwards. -/
theorem eligibleFrom_filter (keep : CanonicalId → Bool) (candidates : List FingerprintCandidate)
    (seen seen' : List CanonicalId) (hseen : ∀ id, keep id = true → (id ∈ seen' ↔ id ∈ seen)) :
    eligibleFrom runtime root seen'
        (candidates.filter (fun candidate => keep (candidateId runtime candidate))) =
      (eligibleFrom runtime root seen candidates).filter (fun entry => keep entry.id) := by
  induction candidates generalizing seen seen' with
  | nil => rfl
  | cons candidate rest ih =>
    by_cases hkeep : keep (candidateId runtime candidate) = true
    · rw [filter_cons, if_pos hkeep]
      unfold eligibleFrom
      simp only [hseen _ hkeep]
      split
      · exact ih seen seen' hseen
      · rw [filter_cons, if_pos hkeep]
        congr 1
        apply ih
        intro id hid
        rw [mem_cons, mem_cons, hseen id hid]
    · rw [filter_cons, if_neg hkeep]
      conv_rhs => unfold eligibleFrom
      split
      · exact ih seen seen' hseen
      · rw [filter_cons, if_neg hkeep]
        apply ih
        intro id hid
        rw [mem_cons, hseen id hid]
        have hne : id ≠ candidateId runtime candidate := by
          rintro rfl
          exact hkeep hid
        simp [hne]

variable (candidates : List FingerprintCandidate)

theorem filedBy_candidatesById :
    (candidatesById runtime candidates).FiledBy (candidateId runtime) := by
  have hfold : ∀ (candidates : List FingerprintCandidate)
      (byId : OrderedMap CanonicalId FingerprintCandidate), byId.FiledBy (candidateId runtime) →
      (candidates.foldl (fun byId candidate =>
        if byId.has (candidateId runtime candidate) then byId
        else byId.set (candidateId runtime candidate) candidate) byId).FiledBy
          (candidateId runtime) := by
    intro candidates
    induction candidates with
    | nil => exact fun byId h => h
    | cons candidate rest ih =>
      intro byId h
      apply ih
      dsimp only
      split
      · exact h
      · exact h.set rfl
  exact hfold candidates .empty (OrderedMap.filedBy_empty _)

theorem compareCandidates_iff (left right : FingerprintCandidate) :
    compareCandidates runtime left right ↔
      (runtime.compareIds (candidateId runtime left) (candidateId runtime right)).isLE := by
  unfold compareCandidates
  cases runtime.compareIds (candidateId runtime left) (candidateId runtime right) <;> simp

variable [Std.TransCmp runtime.compareIds] [Std.LawfulEqCmp runtime.compareIds]

theorem pairwise_sortedCandidates :
    (sortedCandidates runtime candidates).Pairwise (fun left right =>
      runtime.compareIds (candidateId runtime right) (candidateId runtime left) = .gt) := by
  have : Std.Total (compareCandidates runtime) := ⟨fun left right => by
    rw [compareCandidates_iff, compareCandidates_iff]
    by_cases h : (runtime.compareIds (candidateId runtime left)
        (candidateId runtime right)).isLE
    · exact .inl h
    · right
      rw [Std.OrientedCmp.lt_of_not_isLE h]
      rfl⟩
  have : IsTrans FingerprintCandidate (compareCandidates runtime) := ⟨fun a b c hab hbc => by
    rw [compareCandidates_iff] at *
    exact Std.TransCmp.isLE_trans hab hbc⟩
  have hsorted := pairwise_insertionSort (compareCandidates runtime)
    (candidatesById runtime candidates).values
  have hdistinct : (sortedCandidates runtime candidates).Pairwise (fun left right =>
      candidateId runtime left ≠ candidateId runtime right) := by
    have hperm := perm_insertionSort (compareCandidates runtime)
      (candidatesById runtime candidates).values
    have hnodup := (filedBy_candidatesById runtime candidates).nodup_values
    rw [← (hperm.map (candidateId runtime)).nodup_iff] at hnodup
    exact pairwise_map.mp hnodup
  refine (hsorted.and hdistinct).imp ?_
  rintro left right ⟨hle, hne⟩
  rw [compareCandidates_iff, Ordering.isLE_iff_eq_lt_or_eq_eq] at hle
  rcases hle with hlt | heq
  · exact Std.OrientedCmp.gt_of_lt hlt
  · exact absurd (Std.LawfulEqCmp.eq_of_compare heq) hne

theorem pairwise_eligibleFrom :
    (eligibleFrom runtime root [] (sortedCandidates runtime candidates)).Pairwise
      (fun left right => runtime.compareIds right.id left.id = .gt) := by
  refine List.Pairwise.sublist (eligibleFrom_sublist runtime root [] _) ?_
  exact pairwise_map.mpr (pairwise_sortedCandidates runtime candidates)

/-! The rosters under a cap. -/

/-- Rosters read under a cap: all of them, or the cap ends the sweep, or the
budget ended before all were read. -/
inductive HistoricalRead (gateway : Gateway) (b : Budget) (guilds : List CharacterGuild)
    (all : List FingerprintCandidate) :
    Except FingerprintSweepOutcome (Budget × List FingerprintCandidate × ℕ) → Prop
  | all {b' : Budget} {skipped : ℕ} (hcapped : b'.capped = b.capped)
      (hremaining : b.remainingRequests ≤ b'.remainingRequests + guilds.length) :
      HistoricalRead gateway b guilds all (.ok (b', all, skipped))
  | refused {requestsUsed skipped : ℕ} (hrefuses : gateway.refusesFrom ≠ none) :
      HistoricalRead gateway b guilds all (.error (.capped [] requestsUsed none skipped))
  | exhausted {b' : Budget} {rosters : List FingerprintCandidate} {skipped : ℕ}
      (hcapped : b'.capped = true) (hremaining : b'.remainingRequests = 0)
      (hfew : b.remainingRequests < guilds.length) :
      HistoricalRead gateway b guilds all (.ok (b', rosters, skipped))

variable {gateway : Gateway}

theorem refusesFrom_ne_none {call : ℕ} (h : gateway.refuses call = true) :
    gateway.refusesFrom ≠ none := by
  intro hnone
  unfold Gateway.refuses at h
  rw [hnone] at h
  cases h

variable {b : Budget}

theorem request_of_reply {α : Type} (hremaining : b.remainingRequests ≠ 0)
    (hrefuses : ¬ gateway.refuses b.calls = true) (reply : Except Fault (Option α)) :
    request gateway b reply =
      (⟨b.remainingRequests - 1, b.requestsUsed + 1, b.capped, b.calls + 1⟩,
        match reply with
        | .error fault => .thrown (.fault fault)
        | .ok none => .malformed
        | .ok (some value) => .value value) := by
  rw [request_of_remaining hremaining]
  exact congrArg (Prod.mk _) (if_neg hrefuses)

theorem request_of_refusal {α : Type} (hremaining : b.remainingRequests ≠ 0)
    (hrefuses : gateway.refuses b.calls = true) (reply : Except Fault (Option α)) :
    request gateway b reply =
      (⟨b.remainingRequests - 1, b.requestsUsed + 1, b.capped, b.calls + 1⟩,
        .thrown .capReached) := by
  rw [request_of_remaining hremaining]
  exact congrArg (Prod.mk _) (if_pos hrefuses)

theorem HistoricalRead.cons {guild : CharacterGuild} {guilds : List CharacterGuild}
    {all : List FingerprintCandidate}
    {result : Except FingerprintSweepOutcome (Budget × List FingerprintCandidate × ℕ)}
    (h : HistoricalRead gateway ⟨b.remainingRequests - 1, b.requestsUsed + 1, b.capped,
      b.calls + 1⟩ guilds all result) : HistoricalRead gateway b (guild :: guilds) all result := by
  cases h with
  | all hcapped hleft =>
    dsimp only at hcapped hleft
    exact .all hcapped (by rw [length_cons]; omega)
  | refused hrefuses => exact .refused hrefuses
  | exhausted hcapped hleft hfew =>
    dsimp only at hfew
    exact .exhausted hcapped hleft (by rw [length_cons]; omega)

theorem HistoricalRead.skip {guild : CharacterGuild} {guilds : List CharacterGuild}
    {all : List FingerprintCandidate}
    {result : Except FingerprintSweepOutcome (Budget × List FingerprintCandidate × ℕ)}
    (h : HistoricalRead gateway b guilds all result) :
    HistoricalRead gateway b (guild :: guilds) all result := by
  cases h with
  | all hcapped hleft => exact .all hcapped (by rw [length_cons]; omega)
  | refused hrefuses => exact .refused hrefuses
  | exhausted hcapped hleft hfew =>
    exact .exhausted hcapped hleft (by rw [length_cons]; omega)

theorem historicalRead (gateway : Gateway)
    (hreads : ∀ guild, Reads (gateway.guildRosterByIdentity guild)) (b : Budget)
    (seenGuilds : List String) (rosters : List FingerprintCandidate) (skipped : ℕ)
    (guilds : List CharacterGuild) :
    HistoricalRead gateway b guilds
      (rosters ++ historicalRosters gateway.guildRosterByIdentity seenGuilds guilds)
      (readHistorical gateway b seenGuilds rosters skipped guilds) := by
  induction guilds generalizing b seenGuilds rosters skipped with
  | nil =>
    rw [historicalRosters, append_nil]
    exact .all rfl (Nat.le_refl _)
  | cons guild rest ih =>
    unfold readHistorical historicalRosters
    by_cases hseen : canonicalGuildId guild ∈ seenGuilds
    · rw [if_pos hseen, if_pos hseen]
      exact (ih b seenGuilds rosters skipped).skip
    rw [if_neg hseen, if_neg hseen]
    dsimp only
    by_cases hremaining : b.remainingRequests = 0
    · rw [request_of_exhausted hremaining]
      exact .exhausted rfl hremaining (by rw [hremaining]; exact Nat.succ_pos _)
    by_cases hrefuses : gateway.refuses b.calls = true
    · rw [request_of_refusal hremaining hrefuses]
      exact .refused (refusesFrom_ne_none hrefuses)
    rw [request_of_reply hremaining hrefuses]
    rcases hreads guild with ⟨roster, hroster⟩ | hnotFound
    · rw [hroster]
      dsimp only
      rw [← append_assoc]
      exact (ih _ _ _ _).cons
    · rw [hnotFound]
      exact (ih _ _ _ _).cons

/-! The candidates under a cap. -/

namespace SweepConfig
variable {c : SweepConfig}

theorem serialReading_of_exhausted {b : Budget} (hremaining : b.remainingRequests = 0)
    (hcapped : b.capped = true) (lastSweptId : Option CanonicalId) (entries : List Eligible) :
    c.serialReading b lastSweptId entries = ⟨[], lastSweptId, b.requestsUsed, true, none⟩ := by
  induction entries with
  | nil => rw [serialReading, hcapped]
  | cons entry rest ih =>
    unfold serialReading
    split
    · exact ih
    · rw [request_of_exhausted hremaining]
      rfl

theorem verdict_of_reads (b : Budget) (entry : Eligible) (hreads : Reads (c.reply entry)) :
    (c.verdict (request c.gateway b (c.reply entry)).2 = .exhausted ∧ b.remainingRequests = 0) ∨
      (c.verdict (request c.gateway b (c.reply entry)).2 = .refused ∧
        c.gateway.refusesFrom ≠ none) ∨
      (b.remainingRequests ≠ 0 ∧
        c.verdict (request c.gateway b (c.reply entry)).2 =
          match c.reply entry with
          | .ok (some candidateFingerprint) =>
            if fingerprintMatches c.runtime c.prepared.rootFingerprint candidateFingerprint
              c.options then .matched else .unmatched
          | _ => .unmatched) := by
  by_cases hremaining : b.remainingRequests = 0
  · exact .inl ⟨(verdict_eq_exhausted_iff _).mpr hremaining, hremaining⟩
  by_cases hrefuses : c.gateway.refuses b.calls = true
  · exact .inr (.inl ⟨(verdict_eq_refused_iff _).mpr ⟨hremaining, hrefuses⟩,
      refusesFrom_ne_none hrefuses⟩)
  refine .inr (.inr ⟨hremaining, ?_⟩)
  rw [request_of_reply hremaining hrefuses]
  rcases hreads with ⟨fingerprint, hfingerprint⟩ | hnotFound
  · rw [hfingerprint]
    rfl
  · rw [hnotFound]
    rfl

end SweepConfig

namespace SweptRun
variable (run : SweptRun)

/-- The candidate reads of a cycle, once it is prepared. -/
def cycleConfig (limits : CycleLimits) (resumeAfter : Option CanonicalId) (prepared : Prepared) :
    SweepConfig :=
  ⟨run.runtime, run.cycleGateway limits, run.cycleOptions limits resumeAfter, prepared⟩

variable {run} {limits : CycleLimits} {resumeAfter : Option CanonicalId} {prepared : Prepared}

variable {entry : Eligible}

theorem found_of_suppressed (h : run.options.isSuppressed entry.candidate.key = true) :
    run.found entry = [] := by
  unfold found
  split
  · rw [if_neg (by simp [h])]
  · rfl

variable {roster : List FingerprintCandidate}

theorem read_cases (hreads : NoFailingReads run.gateway)
    (hroot : run.rootReads = some (roster, prepared.rootFingerprint))
    (hsuppressed : run.options.isSuppressed entry.candidate.key = false) {c : SweepConfig}
    (hc : c = run.cycleConfig limits resumeAfter prepared) {v : Verdict}
    (hv : c.verdict (request c.gateway b (c.reply entry)).2 = v) :
    (v = .exhausted ∧ b.remainingRequests = 0) ∨ (v = .refused ∧ limits.refusesFrom ≠ none) ∨
      (b.remainingRequests ≠ 0 ∧ ((v = .unmatched ∧ run.found entry = []) ∨
        (v = .matched ∧ run.found entry = [discoveredCharacter entry.candidate]))) := by
  subst hc
  have hread := hreads.achievementFingerprint entry.candidate.key
  have hverdict := SweepConfig.verdict_of_reads (c := run.cycleConfig limits resumeAfter prepared)
    b entry hread
  rw [hv] at hverdict
  rcases hverdict with hexhausted | hrefused | ⟨hremaining, hverdict⟩
  · exact .inl hexhausted
  · exact .inr (.inl hrefused)
  refine .inr (.inr ⟨hremaining, ?_⟩)
  have hreply : (run.cycleConfig limits resumeAfter prepared).reply entry =
      run.gateway.achievementFingerprint entry.candidate.key := rfl
  unfold found
  rw [hroot]
  rcases hread with ⟨fingerprint, hfingerprint⟩ | hnotFound
  · rw [hreply, hfingerprint] at hverdict
    rw [hfingerprint]
    by_cases hmatch : fingerprintMatches run.runtime prepared.rootFingerprint fingerprint
        run.options = true
    · exact .inr ⟨hverdict.trans (if_pos hmatch), if_pos ⟨by simp [hsuppressed], hmatch⟩⟩
    · exact .inl ⟨hverdict.trans (if_neg hmatch), if_neg fun hboth => hmatch hboth.2⟩
  · rw [hreply, hnotFound] at hverdict
    rw [hnotFound]
    exact .inl ⟨hverdict, rfl⟩

/-- A reading of candidates that no read fails: all of them, or up to one of
them, or nowhere. -/
structure Walked (run : SweptRun) (limits : CycleLimits) (b : Budget)
    (lastSweptId : Option CanonicalId) (entries : List Eligible) (reading : Reading) : Prop where
  failure : reading.failure = none
  whole : reading.capped = false → reading.characters = entries.flatMap run.found
  partway : (reading.characters = [] ∧ reading.lastSweptId = lastSweptId) ∨
    ∃ before entry rest, entries = before ++ entry :: rest ∧
      reading.characters = (before ++ [entry]).flatMap run.found ∧
      reading.lastSweptId = some entry.id
  capped : reading.capped = true → b.capped = true ∨ limits.refusesFrom ≠ none ∨
    b.remainingRequests < entries.length

variable {lastSweptId : Option CanonicalId}

theorem Walked.skip {rest : List Eligible} {reading : Reading}
    (h : Walked run limits b lastSweptId rest reading) (hfound : run.found entry = []) :
    Walked run limits b lastSweptId (entry :: rest) reading where
  failure := h.failure
  whole hcapped := by
    rw [flatMap_cons, hfound]
    exact h.whole hcapped
  partway := by
    rcases h.partway with hnone | ⟨before, last, after, hrest, hcharacters, hlast⟩
    · exact .inl hnone
    · right
      refine ⟨entry :: before, last, after, by rw [hrest]; rfl, ?_, hlast⟩
      rw [cons_append, flatMap_cons, hfound]
      exact hcharacters
  capped hcapped := by
    rcases h.capped hcapped with hbefore | hrefuses | hfew
    · exact .inl hbefore
    · exact .inr (.inl hrefuses)
    · exact .inr (.inr (by rw [length_cons]; omega))

/-- A candidate swept, with what its read finds, before a reading of the rest. -/
theorem Walked.sweep {b' : Budget} {rest : List Eligible} {reading : Reading}
    (h : Walked run limits b' (some entry.id) rest reading)
    (hremaining : b.remainingRequests ≤ b'.remainingRequests + 1) (hcapped : b'.capped = b.capped) :
    Walked run limits b lastSweptId (entry :: rest)
      { reading with characters := run.found entry ++ reading.characters } where
  failure := h.failure
  whole hwhole := by
    rw [flatMap_cons]
    exact congrArg _ (h.whole hwhole)
  partway := by
    right
    rcases h.partway with ⟨hnone, hlast⟩ | ⟨before, last, after, hrest, hcharacters, hlast⟩
    · refine ⟨[], entry, rest, rfl, ?_, hlast⟩
      show run.found entry ++ reading.characters = _
      rw [hnone]
      simp
    · refine ⟨entry :: before, last, after, by rw [hrest]; rfl, ?_, hlast⟩
      rw [cons_append, flatMap_cons]
      exact congrArg _ hcharacters
  capped hstop := by
    rcases h.capped hstop with hbefore | hrefuses | hfew
    · exact .inl (hcapped ▸ hbefore)
    · exact .inr (.inl hrefuses)
    · exact .inr (.inr (by rw [length_cons]; omega))

theorem walked_serialReading (hreads : NoFailingReads run.gateway)
    (hroot : run.rootReads = some (roster, prepared.rootFingerprint)) (b : Budget)
    (lastSweptId : Option CanonicalId) (entries : List Eligible) :
    Walked run limits b lastSweptId entries
      ((run.cycleConfig limits resumeAfter prepared).serialReading b lastSweptId entries) := by
  induction entries generalizing b lastSweptId with
  | nil =>
    exact ⟨rfl, fun _ => rfl, .inl ⟨rfl, rfl⟩, fun hcapped => .inl hcapped⟩
  | cons entry rest ih =>
    unfold SweepConfig.serialReading
    have hsuppressedIs : (run.cycleConfig limits resumeAfter prepared).suppressed entry =
      run.options.isSuppressed entry.candidate.key := rfl
    rw [hsuppressedIs]
    cases hsuppressed : run.options.isSuppressed entry.candidate.key with
    | true =>
      rw [if_pos rfl]
      exact (ih b lastSweptId).skip (found_of_suppressed hsuppressed)
    | false =>
      rw [if_neg (by simp)]
      dsimp only
      rcases read_cases hreads hroot hsuppressed rfl rfl with ⟨hexhausted, hzero⟩ |
        ⟨hrefused, hrefuses⟩ | ⟨hremaining, ⟨hunmatched, hfound⟩ | ⟨hmatched, hfound⟩⟩
      · rw [hexhausted, request_of_exhausted hzero]
        refine ⟨rfl, fun hnot => (by cases hnot), .inl ⟨rfl, rfl⟩, fun _ => ?_⟩
        exact .inr (.inr (by rw [hzero]; exact Nat.succ_pos _))
      · rw [hrefused]
        exact ⟨rfl, fun hnot => (by cases hnot), .inl ⟨rfl, rfl⟩,
          fun _ => .inr (.inl hrefuses)⟩
      · rw [hunmatched, request_of_remaining hremaining]
        have hrest := ih ⟨b.remainingRequests - 1, b.requestsUsed + 1, b.capped, b.calls + 1⟩
          (some entry.id)
        have hsweep : Walked run limits b lastSweptId (entry :: rest) _ :=
          hrest.sweep (by dsimp only; omega) rfl
        rw [hfound] at hsweep
        exact hsweep
      · rw [hmatched, request_of_remaining hremaining]
        have hrest := ih ⟨b.remainingRequests - 1, b.requestsUsed + 1, b.capped, b.calls + 1⟩
          (some entry.id)
        have hsweep : Walked run limits b lastSweptId (entry :: rest) _ :=
          hrest.sweep (by dsimp only; omega) rfl
        rw [hfound] at hsweep
        exact hsweep

end SweptRun

/-! The root's own reads under a cap. -/

/-- A read of the root: the cap ends it, it finds nothing, or it has its value. -/
inductive RootRead {α : Type} (gateway : Gateway) (b : Budget)
    (reply : Except Fault (Option α)) : Except FingerprintSweepOutcome (Budget × α) → Prop
  | capped {requestsUsed : ℕ} (hstop : gateway.refusesFrom ≠ none ∨ b.remainingRequests = 0) :
      RootRead gateway b reply (.error (.capped [] requestsUsed none 0))
  | notFound {requestsUsed : ℕ} (hreply : reply = .error (.upstream .notFound)) :
      RootRead gateway b reply (.error (.matched [] requestsUsed true 0))
  | value {b' : Budget} {value : α} (hreply : reply = .ok (some value))
      (hcapped : b'.capped = b.capped)
      (hremaining : b.remainingRequests = b'.remainingRequests + 1) :
      RootRead gateway b reply (.ok (b', value))

theorem rootRead_request {α : Type} (gateway : Gateway) (b : Budget)
    {reply : Except Fault (Option α)} (hreads : Reads reply) :
    RootRead gateway b reply (rootRead (request gateway b reply)) := by
  by_cases hremaining : b.remainingRequests = 0
  · rw [request_of_exhausted hremaining]
    exact .capped (.inr hremaining)
  by_cases hrefuses : gateway.refuses b.calls = true
  · rw [request_of_refusal hremaining hrefuses]
    exact .capped (.inl (refusesFrom_ne_none hrefuses))
  rw [request_of_reply hremaining hrefuses]
  rcases hreads with ⟨value, hvalue⟩ | hnotFound
  · rw [hvalue]
    exact .value rfl rfl (by dsimp only; omega)
  · rw [hnotFound]
    exact .notFound rfl

namespace SweptRun
variable (run : SweptRun) {limits : CycleLimits} {resumeAfter : Option CanonicalId}

/-- The requests a cycle may make. -/
def requestsOf (limits : CycleLimits) : ℕ := (startBudget limits.requestCap).remainingRequests

/-- What a cycle's preparation comes to: capped, no root to sweep from, the
candidates after the cursor, or a budget that ended among the rosters. -/
inductive PreparedCycle (run : SweptRun) (limits : CycleLimits)
    (resumeAfter : Option CanonicalId) : Except FingerprintSweepOutcome Prepared → Prop
  | capped {requestsUsed skipped : ℕ}
      (hstop : limits.refusesFrom ≠ none ∨ requestsOf limits < 2) :
      PreparedCycle run limits resumeAfter (.error (.capped [] requestsUsed none skipped))
  | unread {requestsUsed : ℕ} (hroot : run.rootReads = none) :
      PreparedCycle run limits resumeAfter (.error (.matched [] requestsUsed true 0))
  | ready {prepared : Prepared} {roster : List FingerprintCandidate}
      (hroot : run.rootReads = some (roster, prepared.rootFingerprint))
      (heligible : prepared.eligible = eligibleFrom run.runtime run.root []
        (resumedCandidates run.runtime resumeAfter (run.allCandidates roster)))
      (hcapped : prepared.budget.capped = false)
      (hremaining : requestsOf limits ≤ prepared.budget.remainingRequests +
        run.options.historicalGuilds.length + 2) :
      PreparedCycle run limits resumeAfter (.ok prepared)
  | exhausted {prepared : Prepared} (hcapped : prepared.budget.capped = true)
      (hremaining : prepared.budget.remainingRequests = 0)
      (hfew : requestsOf limits < run.options.historicalGuilds.length + 2) :
      PreparedCycle run limits resumeAfter (.ok prepared)

theorem preparedCycle (hreads : NoFailingReads run.gateway) :
    PreparedCycle run limits resumeAfter (prepare run.runtime run.root (run.cycleGateway limits)
      (run.cycleOptions limits resumeAfter)) := by
  unfold prepare
  have hroster : RootRead (run.cycleGateway limits)
      (startBudget (run.cycleOptions limits resumeAfter).requestCap) run.gateway.guildRoster
      (rootRead (request (run.cycleGateway limits)
        (startBudget (run.cycleOptions limits resumeAfter).requestCap)
        (run.cycleGateway limits).guildRoster)) := rootRead_request _ _ hreads.guildRoster
  generalize rootRead (request (run.cycleGateway limits)
    (startBudget (run.cycleOptions limits resumeAfter).requestCap)
    (run.cycleGateway limits).guildRoster) = read at hroster ⊢
  cases hroster with
  | capped hstop =>
    refine .capped (hstop.imp_right fun hzero => ?_)
    show (startBudget limits.requestCap).remainingRequests < 2
    rw [show (startBudget limits.requestCap).remainingRequests = 0 from hzero]
    omega
  | notFound hreply =>
    refine .unread ?_
    unfold rootReads
    rw [hreply]
  | @value b roster hreply hcapped hremaining =>
    have hroot : RootRead (run.cycleGateway limits) b
        (run.gateway.achievementFingerprint run.root)
        (rootRead (request (run.cycleGateway limits) b
          ((run.cycleGateway limits).achievementFingerprint run.root))) :=
      rootRead_request _ _ (hreads.achievementFingerprint run.root)
    show PreparedCycle run limits resumeAfter (rootRead (request (run.cycleGateway limits) b
      ((run.cycleGateway limits).achievementFingerprint run.root)) >>= _)
    generalize rootRead (request (run.cycleGateway limits) b
      ((run.cycleGateway limits).achievementFingerprint run.root)) = read at hroot ⊢
    cases hroot with
    | capped hstop =>
      refine .capped (hstop.imp_right fun hzero => ?_)
      show (startBudget limits.requestCap).remainingRequests < 2
      rw [show (startBudget limits.requestCap).remainingRequests = 0 + 1 from
        hzero ▸ hremaining]
      omega
    | notFound hnone =>
      refine .unread ?_
      unfold rootReads
      rw [hreply, hnone]
    | @value b' rootFingerprint hfingerprint hcapped' hremaining' =>
      have hrosters : HistoricalRead (run.cycleGateway limits) b'
          (run.options.historicalGuilds.insertionSort (compareGuilds run.runtime))
          (historicalRosters run.gateway.guildRosterByIdentity []
            (run.options.historicalGuilds.insertionSort (compareGuilds run.runtime)))
          (readHistorical (run.cycleGateway limits) b' [] [] 0
            (run.options.historicalGuilds.insertionSort (compareGuilds run.runtime))) :=
        historicalRead (run.cycleGateway limits) hreads.guildRosterByIdentity b' [] [] 0 _
      show PreparedCycle run limits resumeAfter (readHistorical (run.cycleGateway limits) b' [] []
        0 (run.options.historicalGuilds.insertionSort (compareGuilds run.runtime)) >>= _)
      generalize readHistorical (run.cycleGateway limits) b' [] [] 0
        (run.options.historicalGuilds.insertionSort (compareGuilds run.runtime)) = read
        at hrosters ⊢
      have hrequests : requestsOf limits = b'.remainingRequests + 1 + 1 :=
        hremaining.trans (congrArg (· + 1) hremaining')
      have hstart : b'.capped = false := hcapped'.trans hcapped
      cases hrosters with
      | refused hrefuses => exact .capped (.inl hrefuses)
      | all hall hleft =>
        rw [length_insertionSort] at hleft
        have hreads : run.rootReads = some (roster, rootFingerprint) := by
          unfold rootReads
          rw [hreply, hfingerprint]
        refine .ready hreads rfl (hall.trans hstart) ?_
        dsimp only
        omega
      | exhausted hdone hzero hfew =>
        rw [length_insertionSort] at hfew
        refine .exhausted hdone hzero ?_
        omega

end SweptRun

end SlashWho.FingerprintDiscovery
