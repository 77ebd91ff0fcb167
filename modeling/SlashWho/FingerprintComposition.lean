import SlashWho.FingerprintResume

/-!
The cycles of a run as legs of one walk over its candidates. A chain of them
that ends matched finds what one uncapped sweep finds, in its order; each
cycle that moves the cursor moves it forward; and since no two cycles find the
same candidate, no two admit it to the snapshot.
-/

namespace SlashWho.FingerprintDiscovery

open List Characters

namespace SweptRun

/-! What a chain of cycles stores. -/

variable {run : SweptRun}

theorem cursor_publish_capped (resume : Option StoredRun)
    (characters : List DiscoveredCharacter) (requestsUsed : ℕ) (next : Option CanonicalId)
    (skipped : ℕ) :
    cursor (run.publish resume (.capped characters requestsUsed next skipped)) =
      next.or (cursor resume) := by
  cases resume with
  | none => cases next <;> rfl
  | some stored => cases next <;> rfl

variable {cycles : List FingerprintSweepOutcome}

theorem returns_of_chain {resume : Option StoredRun} (h : run.Chain resume cycles) {index : ℕ}
    {sweep : FingerprintSweepOutcome} (hsweep : cycles[index]? = some sweep) :
    ∃ limits, run.CycleReturns limits (cursor ((cycles.take index).foldl run.publish resume))
      sweep := by
  induction h generalizing index with
  | @sealed resume limits _ _ _ _ hreturns =>
    cases index with
    | zero =>
      obtain rfl := Option.some.inj hsweep
      exact ⟨limits, hreturns⟩
    | succ index => simp at hsweep
  | @capped resume limits _ _ _ _ cycles hreturns _ ih =>
    cases index with
    | zero =>
      obtain rfl := Option.some.inj hsweep
      exact ⟨limits, hreturns⟩
    | succ index => exact ih hsweep

variable {character : DiscoveredCharacter}

theorem mem_additions {present : List String} {characters : List DiscoveredCharacter}
    (h : character ∈ additions present characters) :
    character ∈ characters := by
  induction characters generalizing present with
  | nil => exact h
  | cons first rest ih =>
    unfold additions at h
    split at h
    · exact mem_cons_of_mem _ (ih h)
    · rcases mem_cons.mp h with rfl | hrest
      · exact mem_cons_self
      · exact mem_cons_of_mem _ (ih hrest)

variable {sweepCharacters : List DiscoveredCharacter}

theorem mem_of_created (h : character ∈ run.createSnapshot sweepCharacters)
    (hnew : character ∉ run.raiderIoCharacters) : character ∈ sweepCharacters := by
  have hmem := mem_deduplicateFrom (mem_filter.mp h).1
  rcases mem_append.mp hmem with hold | hswept
  · exact absurd hold hnew
  · exact hswept

theorem mem_of_amended {snapshot : List DiscoveredCharacter}
    (h : character ∈ run.amendSnapshot snapshot sweepCharacters) (hnew : character ∉ snapshot) :
    character ∈ sweepCharacters := by
  rcases mem_append.mp h with hold | hadded
  · exact absurd hold hnew
  · exact (mem_filter.mp (mem_additions hadded)).1

theorem mem_of_admitted {index : ℕ} (h : run.Admitted cycles index character) :
    ∃ sweep, cycles[index]? = some sweep ∧ character ∈ sweep.characters := by
  obtain ⟨hafter, hbefore⟩ := h
  have hstored : run.storedAt cycles (index + 1) =
      (cycles[index]?).toList.foldl run.publish (run.storedAt cycles index) := by
    unfold storedAt
    rw [take_add_one, foldl_append]
  unfold publishedAt at hafter hbefore
  rw [hstored] at hafter
  cases hsweep : cycles[index]? with
  | none =>
    rw [hsweep] at hafter
    exact absurd hafter hbefore
  | some sweep =>
    refine ⟨sweep, rfl, ?_⟩
    rw [hsweep] at hafter
    cases hresume : run.storedAt cycles index with
    | none =>
      rw [hresume] at hafter hbefore
      cases sweep with
      | failure code retryable retryAfterMs => exact absurd hafter hbefore
      | matched characters _ _ _ => exact mem_of_created hafter hbefore
      | capped characters _ next _ => exact mem_of_created hafter hbefore
    | some stored =>
      rw [hresume] at hafter hbefore
      cases sweep with
      | failure code retryable retryAfterMs => exact absurd hafter hbefore
      | matched characters _ _ _ => exact mem_of_amended hafter hbefore
      | capped characters _ next _ =>
        cases next with
        | none => exact absurd hafter hbefore
        | some next => exact mem_of_amended hafter hbefore

theorem found_ids_sublist (entries : List Eligible)
    (hids : ∀ entry ∈ entries,
      entry.id = canonicalCharacterId run.runtime.lower entry.candidate.key) :
    ((entries.flatMap run.found).map
        (fun character => canonicalCharacterId run.runtime.lower character.key)).Sublist
      (entries.map Eligible.id) := by
  induction entries with
  | nil => exact List.Sublist.refl _
  | cons entry rest ih =>
    have hrest := ih fun other hother => hids other (mem_cons_of_mem _ hother)
    have hfound : run.found entry = [] ∨
        run.found entry = [discoveredCharacter entry.candidate] := by
      unfold found
      split
      · split
        · exact .inr rfl
        · exact .inl rfl
      · exact .inl rfl
    rw [flatMap_cons, map_append, map_cons]
    rcases hfound with hnone | hone
    · rw [hnone]
      exact hrest.cons _
    · rw [hone, hids entry mem_cons_self]
      exact hrest.cons_cons _

/-! The walk. -/

variable (run : SweptRun) [Std.TransCmp run.runtime.compareIds]
  [Std.LawfulEqCmp run.runtime.compareIds]

/-- The run's candidates in order, each with what its read finds. -/
def walk : CursorWalk Eligible CanonicalId DiscoveredCharacter where
  items := run.allEligible
  key := Eligible.id
  cmp := run.runtime.compareIds
  visit := run.found
  sorted := by
    unfold allEligible
    split
    · exact pairwise_eligibleFrom run.runtime run.root _
    · exact List.Pairwise.nil

instance : Std.TransCmp run.walk.cmp := inferInstanceAs (Std.TransCmp run.runtime.compareIds)

variable {run} {limits : CycleLimits} {resumeAfter : Option CanonicalId}

/-- The candidates a cycle is left with after its cursor are those ahead of it. -/
theorem ahead_eq {roster : List FingerprintCandidate} {rootFingerprint : Fingerprint}
    (hroot : run.rootReads = some (roster, rootFingerprint)) :
    eligibleFrom run.runtime run.root []
        (resumedCandidates run.runtime resumeAfter (run.allCandidates roster)) =
      run.walk.ahead resumeAfter := by
  have hitems : run.walk.items =
      eligibleFrom run.runtime run.root [] (run.allCandidates roster) := by
    show run.allEligible = _
    unfold allEligible
    rw [hroot]
  cases resumeAfter with
  | none => exact hitems.symm
  | some cursor =>
    show _ = run.walk.items.filter _
    rw [hitems]
    exact eligibleFrom_filter run.runtime run.root
      (fun id => run.runtime.compareIds id cursor = .gt) _ [] [] (fun _ _ => Iff.rfl)

theorem ahead_of_unread (hroot : run.rootReads = none) : run.walk.ahead resumeAfter = [] := by
  have hitems : run.walk.items = [] := by
    show run.allEligible = _
    unfold allEligible
    rw [hroot]
  have hsublist := CursorWalk.ahead_sublist (w := run.walk) resumeAfter
  rw [hitems] at hsublist
  exact sublist_nil.mp hsublist

/-- The requests a cycle needs to reach the end of the candidates. -/
def requestsNeeded (run : SweptRun) : ℕ :=
  run.options.historicalGuilds.length + 2 + run.allEligible.length

/-- A cycle is a leg of the walk: to the end, or capped before it for a reason. -/
inductive CycleLeg (run : SweptRun) [Std.TransCmp run.runtime.compareIds]
    [Std.LawfulEqCmp run.runtime.compareIds] (limits : CycleLimits)
    (resumeAfter : Option CanonicalId) : FingerprintSweepOutcome → Prop
  | matched {characters : List DiscoveredCharacter} {requestsUsed : ℕ} {unreadRoot : Bool}
      {skipped : ℕ} (hwhole : characters = (run.walk.ahead resumeAfter).flatMap run.found) :
      CycleLeg run limits resumeAfter (.matched characters requestsUsed unreadRoot skipped)
  | capped {characters : List DiscoveredCharacter} {requestsUsed : ℕ}
      {next : Option CanonicalId} {skipped : ℕ} (hleg : run.walk.Leg resumeAfter characters next)
      (hstop : limits.refusesFrom ≠ none ∨ requestsOf limits < run.requestsNeeded) :
      CycleLeg run limits resumeAfter (.capped characters requestsUsed next skipped)

/-- The candidate reads of a prepared cycle make a leg. -/
theorem cycleLeg_of_walked {b : Budget} {reading : Reading} (skipped : ℕ)
    (hwalked : Walked run limits b none (run.walk.ahead resumeAfter) reading)
    (hcapped : b.capped = false)
    (hremaining : requestsOf limits ≤
      b.remainingRequests + run.options.historicalGuilds.length + 2) :
    CycleLeg run limits resumeAfter (reading.outcome skipped) := by
  unfold Reading.outcome
  rw [hwalked.failure]
  dsimp only
  by_cases hstop : reading.capped = true
  · rw [if_pos hstop]
    have hleg : run.walk.Leg resumeAfter reading.characters reading.lastSweptId := by
      rcases hwalked.partway with ⟨hnone, hlast⟩ | ⟨before, entry, rest, hahead, hsome, hlast⟩
      · rw [hnone, hlast]
        exact .stuck
      · rw [hsome, hlast]
        exact .upTo hahead
    refine .capped hleg ?_
    rcases hwalked.capped hstop with hbefore | hrefuses | hfew
    · rw [hcapped] at hbefore
      cases hbefore
    · exact .inl hrefuses
    · right
      have hle : (run.walk.ahead resumeAfter).length ≤ run.allEligible.length :=
        (CursorWalk.ahead_sublist (w := run.walk) resumeAfter).length_le
      unfold requestsNeeded
      omega
  · rw [if_neg hstop]
    exact .matched (hwalked.whole (by simpa using hstop))

variable {sweep : FingerprintSweepOutcome}

theorem cycleLeg (hreads : NoFailingReads run.gateway)
    (h : run.CycleReturns limits resumeAfter sweep) : CycleLeg run limits resumeAfter sweep := by
  have hsweep := (mayReturn_iff _ _ _ _ _).mp h
  unfold serialOutcome at hsweep
  have hprepared : PreparedCycle run limits resumeAfter _ := run.preparedCycle hreads
  generalize prepare run.runtime run.root (run.cycleGateway limits)
    (run.cycleOptions limits resumeAfter) = prepared at hsweep hprepared
  subst hsweep
  cases hprepared with
  | capped hstop =>
    refine .capped .stuck (hstop.imp_right fun hfew => ?_)
    unfold requestsNeeded
    omega
  | unread hroot =>
    refine .matched ?_
    rw [ahead_of_unread hroot]
    rfl
  | @ready prepared roster hroot heligible hcapped hremaining =>
    dsimp only
    rw [heligible, ahead_eq hroot]
    exact cycleLeg_of_walked _ (walked_serialReading hreads hroot _ none _) hcapped hremaining
  | @exhausted prepared hcapped hremaining hfew =>
    dsimp only
    rw [SweepConfig.serialReading_of_exhausted hremaining hcapped]
    refine .capped .stuck (.inr ?_)
    unfold requestsNeeded
    omega

/-! A chain of cycles. -/

theorem legs_of_chain (hreads : NoFailingReads run.gateway) {resume : Option StoredRun}
    (h : run.Chain resume cycles) :
    run.walk.Legs (cursor resume) (cycles.map FingerprintSweepOutcome.characters) := by
  induction h with
  | @sealed resume limits characters requestsUsed unreadRoot skipped hreturns =>
    obtain ⟨rfl⟩ := cycleLeg hreads hreturns
    exact .last _
  | @capped resume limits characters requestsUsed next skipped cycles hreturns hrest ih =>
    rw [cursor_publish_capped] at ih
    obtain - | ⟨hleg, -⟩ := cycleLeg hreads hreturns
    exact .leg hleg ih

theorem nodup_found (run : SweptRun) [Std.TransCmp run.runtime.compareIds]
    [Std.LawfulEqCmp run.runtime.compareIds] :
    ((run.allEligible.flatMap run.found).map
      (fun character => canonicalCharacterId run.runtime.lower character.key)).Nodup := by
  have hids : ∀ entry ∈ run.allEligible,
      entry.id = canonicalCharacterId run.runtime.lower entry.candidate.key := by
    intro entry hentry
    unfold allEligible at hentry
    split at hentry
    · exact id_of_mem_eligibleFrom run.runtime run.root hentry
    · cases hentry
  refine List.Nodup.sublist (found_ids_sublist run.allEligible hids) ?_
  have hsorted := run.walk.sorted
  refine pairwise_map.mpr (hsorted.imp ?_)
  intro left right hgt heq
  have hgt : run.runtime.compareIds right.id left.id = .gt := hgt
  have hself : run.runtime.compareIds right.id right.id = .eq := Std.ReflCmp.compare_self
  rw [heq, hself] at hgt
  cases hgt

/-! The whole run. -/

/-- A sweep from the start that no cap ends. -/
def Uncapped (run : SweptRun) (sweep : FingerprintSweepOutcome) : Prop :=
  ∃ limits characters requestsUsed unreadRoot skipped,
    sweep = .matched characters requestsUsed unreadRoot skipped ∧
      run.CycleReturns limits none sweep

theorem exists_uncapped (hreads : NoFailingReads run.gateway) :
    ∃ sweep, run.Uncapped sweep := by
  obtain ⟨limits, hrefuses, hrequests⟩ : ∃ limits : CycleLimits, limits.refusesFrom = none ∧
      requestsOf limits = run.requestsNeeded := by
    refine ⟨⟨some run.requestsNeeded, none, none⟩, rfl, ?_⟩
    show ⌊(run.requestsNeeded : ℚ)⌋.toNat = run.requestsNeeded
    rw [Int.floor_natCast, Int.toNat_natCast]
  obtain ⟨sweep, hreturns⟩ : ∃ sweep, run.CycleReturns limits none sweep :=
    ⟨_, (mayReturn_iff _ _ _ _ _).mpr rfl⟩
  have hleg := cycleLeg hreads hreturns
  cases hleg with
  | matched hwhole => exact ⟨_, limits, _, _, _, _, rfl, hreturns⟩
  | capped _ hstop =>
    rcases hstop with hrefusal | hfew
    · exact absurd hrefuses hrefusal
    · omega

theorem uncapped_characters (hreads : NoFailingReads run.gateway) (h : run.Uncapped sweep) :
    sweep.characters = run.allEligible.flatMap run.found := by
  obtain ⟨limits, characters, used, unread, skipped, rfl, hreturns⟩ := h
  obtain ⟨hwhole⟩ := cycleLeg hreads hreturns
  exact hwhole

theorem characters_of_chain (hreads : NoFailingReads run.gateway) (h : run.Chain none cycles) :
    cycles.flatMap FingerprintSweepOutcome.characters = run.allEligible.flatMap run.found := by
  rw [flatMap_def]
  exact (legs_of_chain hreads h).flatten

theorem ids_ne_of_cycles {lower : String → String}
    (hnodup : ((cycles.flatMap FingerprintSweepOutcome.characters).map
      (fun character => canonicalCharacterId lower character.key)).Nodup) {first second : ℕ}
    {sweep' : FingerprintSweepOutcome} (hlt : first < second) (hsweep : cycles[first]? = some sweep)
    (hsweep' : cycles[second]? = some sweep') {character character' : DiscoveredCharacter}
    (hcharacter : character ∈ sweep.characters) (hcharacter' : character' ∈ sweep'.characters) :
    canonicalCharacterId lower character.key ≠ canonicalCharacterId lower character'.key := by
  rw [map_flatMap, nodup_flatMap] at hnodup
  obtain ⟨hfirst, rfl⟩ := List.getElem?_eq_some_iff.mp hsweep
  obtain ⟨hsecond, rfl⟩ := List.getElem?_eq_some_iff.mp hsweep'
  have hdisjoint := pairwise_iff_getElem.mp hnodup.2 first second hfirst hsecond hlt
  intro heq
  refine hdisjoint (mem_map_of_mem hcharacter) ?_
  rw [heq]
  exact mem_map_of_mem hcharacter'

/-- However caps cut a run's sweep into cycles, the cycles find together what
one uncapped sweep finds, in its order and each once; a cycle that moves the
cursor moves it forward; and no character is admitted by two cycles. -/
theorem chain_eq_uncapped (run : SweptRun) [Std.TransCmp run.runtime.compareIds]
    [Std.LawfulEqCmp run.runtime.compareIds] (hreads : NoFailingReads run.gateway)
    (cycles : List FingerprintSweepOutcome) (hchain : run.Chain none cycles) :
    (∃ sweep, run.Uncapped sweep) ∧
    (∀ sweep, run.Uncapped sweep →
      cycles.flatMap FingerprintSweepOutcome.characters = sweep.characters) ∧
    ((cycles.flatMap FingerprintSweepOutcome.characters).map
      (fun character => canonicalCharacterId run.runtime.lower character.key)).Nodup ∧
    (∀ index characters requestsUsed next skipped cursor,
      cycles[index]? = some (.capped characters requestsUsed (some next) skipped) →
      SweptRun.cursor (run.storedAt cycles index) = some cursor →
      run.runtime.compareIds next cursor = .gt) ∧
    (∀ first second, first ≠ second → ∀ character character',
      run.Admitted cycles first character → run.Admitted cycles second character' →
      canonicalCharacterId run.runtime.lower character.key ≠
        canonicalCharacterId run.runtime.lower character'.key) := by
  have hcharacters := characters_of_chain hreads hchain
  have hnodup := nodup_found run
  rw [← hcharacters] at hnodup
  refine ⟨exists_uncapped hreads, ?_, hnodup, ?_, ?_⟩
  · intro sweep hsweep
    rw [hcharacters, uncapped_characters hreads hsweep]
  · intro index characters requestsUsed next skipped cursor hcycle hcursor
    obtain ⟨limits, hreturns⟩ := returns_of_chain hchain hcycle
    rw [show SweptRun.cursor ((cycles.take index).foldl run.publish none) = some cursor from
      hcursor] at hreturns
    obtain - | ⟨hleg, -⟩ := cycleLeg hreads hreturns
    exact hleg.advances
  · intro first second hne character character' hadmitted hadmitted'
    obtain ⟨sweep, hsweep, hmem⟩ := mem_of_admitted hadmitted
    obtain ⟨sweep', hsweep', hmem'⟩ := mem_of_admitted hadmitted'
    rcases Nat.lt_or_gt_of_ne hne with hlt | hgt
    · exact ids_ne_of_cycles hnodup hlt hsweep hsweep' hmem hmem'
    · exact (ids_ne_of_cycles hnodup hgt hsweep' hsweep hmem' hmem).symm

/-- Canonical ids compared part by part. -/
def compareParts (left right : CanonicalId) : Ordering :=
  compareLex (compareOn CanonicalId.region)
    (compareLex (compareOn CanonicalId.realm) (compareOn CanonicalId.name)) left right

instance : Std.TransCmp compareParts :=
  inferInstanceAs (Std.TransCmp (compareLex (compareOn CanonicalId.region)
    (compareLex (compareOn CanonicalId.realm) (compareOn CanonicalId.name))))

instance : Std.LawfulEqCmp compareParts where
  eq_of_compare := by
    intro a b h
    obtain ⟨r, m, n⟩ := a
    obtain ⟨r', m', n'⟩ := b
    simp only [compareParts, compareLex, Ordering.then_eq_eq, compareOn,
      Std.LawfulEqCmp.compare_eq_iff_eq] at h
    obtain ⟨h1, h2, h3⟩ := h
    subst h1 h2 h3
    rfl

def achievements : Fingerprint where
  entries := (List.range 200).map (fun id => ((id : ℚ), 0))
  nodup_keys := by
    have hinjective : Function.Injective (fun id : ℕ => (id : ℚ)) := Nat.cast_injective
    have hnodup := (nodup_range (n := 200)).map hinjective
    rw [map_map]
    exact hnodup

def alma : FingerprintCandidate := ⟨⟨.eu, "draenor", "alma"⟩, "Alma", "Mage", 80, none⟩

def bera : FingerprintCandidate := ⟨⟨.eu, "draenor", "bera"⟩, "Bera", "Mage", 80, none⟩

/-- A guild of two: Alma shares the root's achievements, Bera has no profile. -/
def twoMembers : SweptRun where
  runtime := ⟨fun s => s, compareParts, compare, fun identical common => identical * 100 / common⟩
  root := ⟨.eu, "draenor", "root"⟩
  gateway := {
    guildRoster := .ok (some [bera, alma])
    guildRosterByIdentity := fun _ => .error (.upstream .notFound)
    achievementFingerprint := fun key =>
      if key.name = "bera" then .error (.upstream .notFound) else .ok (some achievements)
    refusesFrom := none }
  options := ⟨none, 200, 20, fun _ => false, none, [], none⟩
  raiderIoCharacters := []
  excludedTournamentCharacterIds := []

theorem chain_eq_uncapped_twoMembers :
    ∃ sweep, twoMembers.Uncapped sweep ∧ sweep.characters = [discoveredCharacter alma] := by
  have : Std.TransCmp twoMembers.runtime.compareIds := inferInstanceAs (Std.TransCmp compareParts)
  have : Std.LawfulEqCmp twoMembers.runtime.compareIds :=
    inferInstanceAs (Std.LawfulEqCmp compareParts)
  have hreads : NoFailingReads twoMembers.gateway :=
    ⟨.inl ⟨_, rfl⟩, fun _ => .inr rfl, fun key => by
      show Reads (if key.name = "bera" then _ else _)
      split
      · exact .inr rfl
      · exact .inl ⟨_, rfl⟩⟩
  have hchain : twoMembers.Chain none
      [.capped [discoveredCharacter alma] 3 (some (candidateId twoMembers.runtime alma)) 0,
        .matched [] 3 false 0] := by
    have hcut : twoMembers.CycleReturns ⟨some 9, some 2, some 3⟩ none
        (.capped [discoveredCharacter alma] 3 (some (candidateId twoMembers.runtime alma)) 0) :=
      (mayReturn_iff _ _ _ _ _).mpr (by decide +kernel)
    have hend : twoMembers.CycleReturns ⟨some 9, none, none⟩
        (some (candidateId twoMembers.runtime alma)) (.matched [] 3 false 0) :=
      (mayReturn_iff _ _ _ _ _).mpr (by decide +kernel)
    exact .capped hcut (.sealed hend)
  obtain ⟨⟨sweep, hsweep⟩, hcharacters, -⟩ := chain_eq_uncapped twoMembers hreads _ hchain
  exact ⟨sweep, hsweep, (hcharacters sweep hsweep).symm⟩

end SweptRun

end SlashWho.FingerprintDiscovery
