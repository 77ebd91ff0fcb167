import SlashWho.DiscoveryPasses

/-!
The request cap of a discovery. A unit of the budget is taken where a call is
made, so calls and what is left always add up to the cap, through every
interleaving of the guild workers and their retries. Discovery is capped
exactly when a relationship read was refused; a guild read that is refused
never caps it. A snapshot then reports the cap, and a run without a snapshot
has nothing to report it on.
-/

namespace SlashWho.CharacterDiscovery

open Characters

/-- Calls and budget add up to the cap, and a refused read is what caps a run. -/
structure Accounted (cap : ℕ) (t : DiscoveryState) : Prop where
  spent : calls t.trace + t.budget = cap
  refused : t.capped = true ↔ ∃ read, read.isRelationship = true ∧ Event.refused read ∈ t.trace

variable {runtime : Runtime} {may : Answers} {cap : ℕ}

theorem calls_append (trace events : List Event) :
    calls (trace ++ events) = calls trace + calls events := List.countP_append

theorem Accounted.update {t t' : DiscoveryState} (hupdate : Update t t') (h : Accounted cap t) :
    Accounted cap t' := by
  cases hupdate with
  | returned read characters =>
    constructor
    · rw [calls_append]
      exact h.spent
    · rw [h.refused]
      simp
  | refused read hread _ =>
    constructor
    · rw [calls_append]
      exact h.spent
    · exact ⟨fun _ => ⟨read, hread, by simp⟩, fun _ => rfl⟩
  | called read _ hbudget =>
    constructor
    · have hspent := h.spent
      rw [calls_append]
      show calls t.trace + 1 + (t.budget - 1) = cap
      omega
    · rw [h.refused]
      simp
  | recorded _ hbudget hcapped htrace _ _ =>
    constructor
    · rw [htrace, hbudget]
      exact h.spent
    · rw [htrace, hcapped]
      exact h.refused

theorem accounted_discoverRelationships (root : CharacterKey)
    (options : DiscoverCharacterOptions) :
    Ensures may (Accounted cap) (discoverRelationships runtime root options)
      (fun _ => Accounted cap) (Accounted cap) :=
  keeps_discoverRelationships (fun _ _ hupdate h => h.update hupdate) root options

/-- The guild workers spend what the passes left, and refuse no relationship. -/
theorem guilds_accounted {t : DiscoveryState} {aborted : Bool} {p : GuildPass}
    (h : Accounted cap t)
    (hguilds : Relation.ReflTransGen (GuildPass.Step may) (.start runtime t aborted) p) :
    calls p.trace + p.budget = cap ∧ ∀ read, read.isRelationship = true →
      (Event.refused read ∈ p.trace ↔ Event.refused read ∈ t.trace) := by
  induction hguilds with
  | refl => exact ⟨h.spent, fun _ _ => Iff.rfl⟩
  | tail _ hstep ih =>
    obtain ⟨hspent, hrefused⟩ := ih
    rcases hstep.moved with ⟨events, hmoved⟩ | rfl
    · constructor
      · have hevents := hmoved.spent
        rw [hmoved.trace, calls_append]
        omega
      · intro read hread
        rw [hmoved.trace, List.mem_append, hrefused read hread]
        constructor
        · rintro (hold | hnew)
          · exact hold
          · have hguild := hmoved.guildsOnly _ hnew
            rw [show (Event.refused read).read = read from rfl, hread] at hguild
            cases hguild
        · exact .inl
    · exact ⟨hspent, hrefused⟩

def DiscoveryOutcome.isSnapshot : DiscoveryOutcome → Bool
  | .failure .. => false
  | _ => true

/-- Whether an outcome names the request cap as its limitation. -/
def DiscoveryOutcome.reportsCap : DiscoveryOutcome → Bool
  | .incomplete .requestCap .. => true
  | _ => false

theorem outcome_reportsCap {runtime : Runtime} {root : CharacterKey} {t : DiscoveryState}
    {p : GuildPass} (h : (outcome runtime root t p).isSnapshot = true) :
    (outcome runtime root t p).reportsCap = t.capped := by
  unfold outcome at h ⊢
  cases hcapped : t.capped with
  | true =>
    rw [hcapped] at h
    split
    · rename_i hroot
      simp [hroot, DiscoveryOutcome.isSnapshot] at h
    · rfl
  | false =>
    rw [hcapped] at h
    split
    · rename_i hroot
      simp [hroot, DiscoveryOutcome.isSnapshot] at h
    · simp only [Bool.false_eq_true, if_false]
      split
      · rfl
      · split
        · rfl
        · rfl

variable {options : DiscoverCharacterOptions}

theorem initialBudget_of_cap {cap : ℚ} (h : options.requestCap = some cap) :
    (initialBudget options : ℤ) = max 0 ⌊cap⌋ := by
  unfold initialBudget
  rw [h]
  show (⌊cap⌋.toNat : ℤ) = max 0 ⌊cap⌋
  omega

theorem accounted_initialState (root : CharacterKey) (options : DiscoverCharacterOptions) :
    Accounted (initialBudget options) (initialState root options) := by
  constructor
  · exact Nat.zero_add _
  · simp [initialState]

/-- Whatever ends the passes early is a failure. -/
def EndsAsFailure (ended : Option DiscoveryOutcome) (_ : DiscoveryState) : Prop :=
  ∀ outcome, ended = some outcome → outcome.isSnapshot = false

theorem endsAsFailure_none (t : DiscoveryState) : EndsAsFailure none t := by
  intro outcome h
  cases h

theorem endsAsFailure_some {outcome : DiscoveryOutcome} (h : outcome.isSnapshot = false)
    (t : DiscoveryState) : EndsAsFailure (some outcome) t := by
  intro other hother
  rw [← Option.some.inj hother]
  exact h

theorem failureOutcome_isSnapshot (error : Thrown) :
    (failureOutcome error).isSnapshot = false := by
  unfold failureOutcome
  split <;> rfl

theorem readPending_endsAsFailure (options : DiscoverCharacterOptions) (rounds : ℕ) :
    Ensures may (fun _ => True) (readPending runtime options rounds) EndsAsFailure
      (fun _ => True) := by
  induction rounds with
  | zero => exact ensures_pure (fun t _ => endsAsFailure_none t)
  | succ rounds ih =>
    refine (ensures_true get).bind (fun seen => ?_)
    split
    · exact ensures_pure (fun t _ => endsAsFailure_none t)
    · rename_i pending rest _
      refine (ensures_true throwIfAborted).bind (fun _ => ?_)
      refine Ensures.bind (ensures_true _) (fun _ => ?_)
      refine (ensures_true get).bind (fun seen => ?_)
      split
      · exact ih
      · refine (ensures_true (isSuppressed pending.key)).bind (fun suppressed => ?_)
        split
        · exact ih
        · refine Ensures.bind (ensures_true _) (fun _ => ?_)
          refine Ensures.bind (ensures_true _) (fun read => ?_)
          refine (ensures_true throwIfAborted).bind (fun _ => ?_)
          match read with
          | none => exact ensures_pure (fun t _ => endsAsFailure_none t)
          | some none => exact ensures_throw (fun _ _ => trivial)
          | some (some character) =>
            refine (ensures_true (noteOmitted character.omittedMembers)).bind (fun _ => ?_)
            split
            · split
              · exact ensures_pure (fun t _ => endsAsFailure_some rfl t)
              · exact Ensures.bind (ensures_true _) (fun _ => ih)
            · exact Ensures.bind (ensures_true _) (fun _ => ih)

theorem discoverRelationships_endsAsFailure (root : CharacterKey)
    (options : DiscoverCharacterOptions) :
    Ensures may (fun _ => True) (discoverRelationships runtime root options) EndsAsFailure
      (fun _ => True) := by
  unfold discoverRelationships
  refine Ensures.tryCatch (C := fun _ => True) ?_ (fun error => ?_)
  · unfold relationshipPasses
    refine (ensures_true (isSuppressed root)).bind (fun suppressed => ?_)
    split
    · exact ensures_pure (fun t _ => endsAsFailure_some rfl t)
    · refine (readPending_endsAsFailure options _).bind (fun ended => ?_)
      split
      · exact ensures_pure (fun _ h => h)
      · refine Ensures.bind (ensures_true _) (fun seen => ?_)
        refine Ensures.bind (ensures_true _) (fun _ => ?_)
        refine Ensures.bind (ensures_true _) (fun _ => ?_)
        exact ensures_pure (fun t _ => endsAsFailure_none t)
  · refine (ensures_true signalAborted).bind (fun aborted => ?_)
    split
    · exact ensures_throw (fun _ _ => trivial)
    · exact ensures_pure (fun t _ => endsAsFailure_some (failureOutcome_isSnapshot error) t)

/-- The calls of a run never exceed the request cap, and a snapshot reports the
cap exactly when a relationship read was refused. -/
theorem request_cap_kept (runtime : Runtime) (may : Answers) (root : CharacterKey)
    (options : DiscoverCharacterOptions) (result : Option DiscoveryOutcome) (trace : List Event)
    (h : Discovers runtime may root options result trace) :
    (∀ cap, options.requestCap = some cap → (calls trace : ℤ) ≤ max 0 ⌊cap⌋) ∧
    (options.requestCap = none → calls trace = 0) ∧
    (∀ outcome, result = some outcome → outcome.isSnapshot = true →
      (outcome.reportsCap = true ↔
        ∃ read, read.isRelationship = true ∧ Event.refused read ∈ trace)) := by
  have hbound : calls trace ≤ initialBudget options ∧
      ∀ outcome, result = some outcome → outcome.isSnapshot = true →
        (outcome.reportsCap = true ↔
          ∃ read, read.isRelationship = true ∧ Event.refused read ∈ trace) := by
    have hstart := accounted_initialState root options
    have haccounted : Ensures may (Accounted (initialBudget options))
        (discoverRelationships runtime root options)
        (fun _ => Accounted (initialBudget options)) (Accounted (initialBudget options)) :=
      accounted_discoverRelationships root options
    cases h with
    | ended aborted outcome t hruns =>
      have hend := haccounted.runs hstart hruns
      have hfailure := (discoverRelationships_endsAsFailure root options).runs trivial hruns
      refine ⟨by have := hend.spent; omega, ?_⟩
      intro other hother hsnapshot
      rw [hfailure other hother] at hsnapshot
      cases hsnapshot
    | threw aborted error t hruns =>
      have hend := haccounted.runs hstart hruns
      exact ⟨by have := hend.spent; omega, fun outcome houtcome => by cases houtcome⟩
    | returned aborted t p hruns hguilds _ =>
      have hend := haccounted.runs hstart hruns
      obtain ⟨hspent, hrefused⟩ := guilds_accounted hend hguilds
      refine ⟨by omega, ?_⟩
      intro other hother hsnapshot
      have heq := Option.some.inj hother
      rw [← heq] at hsnapshot
      rw [← heq, outcome_reportsCap hsnapshot, hend.refused]
      constructor
      · rintro ⟨read, hread, hin⟩
        exact ⟨read, hread, (hrefused read hread).mpr hin⟩
      · rintro ⟨read, hread, hin⟩
        exact ⟨read, hread, (hrefused read hread).mp hin⟩
    | guildsThrew aborted t p hruns hguilds _ =>
      have hend := haccounted.runs hstart hruns
      obtain ⟨hspent, _⟩ := guilds_accounted hend hguilds
      exact ⟨by omega, fun outcome houtcome => by cases houtcome⟩
  refine ⟨?_, ?_, hbound.2⟩
  · intro cap hcap
    rw [← initialBudget_of_cap hcap]
    exact_mod_cast hbound.1
  · intro hnone
    have hzero : initialBudget options = 0 := by
      unfold initialBudget
      rw [hnone]
    omega

theorem discovers_without_guilds {runtime : Runtime} {may : Answers} {root : CharacterKey}
    {t : DiscoveryState} {aborted : Bool}
    (hruns : (discoverRelationships runtime root options (initialState root options)).Runs
      (does may) false (.ok none, t) aborted) (hnone : guildReads runtime t = []) :
    Discovers runtime may root options
      (some (outcome runtime root t (.start runtime t aborted))) t.trace := by
  refine Discovers.returned aborted t (.start runtime t aborted) hruns .refl ?_
  intro worker hworker
  have hempty : worker ∈ List.replicate
      (min guildReadConcurrency (guildReads runtime t).length) Worker.atHead := hworker
  rw [hnone] at hempty
  cases hempty

/-! Two runs. -/

def sampleRuntime : Runtime where
  lower := id
  localeCompare := compare

def sampleRoot : CharacterKey := ⟨.eu, "draenor", "thrall"⟩

/-- Every character has the same owner, who claims none. -/
def sampleGateway : FixedAnswers where
  suppressed _ := false
  character key := .ok (some
    { key := key
      displayName := key.name
      className := "Mage"
      level := 80
      guild := none
      ownerId := some "owner"
      profileGuess := none
      declaredMain := none
      isTournamentProfile := false
      omittedMembers := false })
  claimed _ := .ok (some ⟨[], false⟩)
  profileGuess _ := .ok (some none)

def sampleOptions (cap : ℚ) : DiscoverCharacterOptions where
  requestCap := some cap
  knownReverseDeclaredCharacters := []
  rootCharacter := none

/-- How the sample's passes end, and with which variables. -/
def sampleEnd (cap : ℚ) : Except Thrown (Option DiscoveryOutcome) × DiscoveryState :=
  (sampleGateway.run (discoverRelationships sampleRuntime sampleRoot (sampleOptions cap))
    (initialState sampleRoot (sampleOptions cap))).1

theorem sampleEnd_discovers (cap : ℚ) (hend : (sampleEnd cap).1 = .ok none)
    (hnone : guildReads sampleRuntime (sampleEnd cap).2 = []) :
    ∃ aborted, Discovers sampleRuntime sampleGateway.may sampleRoot (sampleOptions cap)
      (some (outcome sampleRuntime sampleRoot (sampleEnd cap).2
        (.start sampleRuntime (sampleEnd cap).2 aborted))) (sampleEnd cap).2.trace := by
  have hruns := sampleGateway.runs
    (discoverRelationships sampleRuntime sampleRoot (sampleOptions cap))
    (initialState sampleRoot (sampleOptions cap))
  have hsplit : (sampleGateway.run
      (discoverRelationships sampleRuntime sampleRoot (sampleOptions cap))
      (initialState sampleRoot (sampleOptions cap))).1 = (.ok none, (sampleEnd cap).2) :=
    Prod.ext hend rfl
  rw [hsplit] at hruns
  exact ⟨_, discovers_without_guilds hruns hnone⟩

/-- A run refused its root has no snapshot to report the cap on. -/
theorem capped_root_unreported :
    ∃ outcome trace, Discovers sampleRuntime sampleGateway.may sampleRoot (sampleOptions 0)
      (some outcome) trace ∧
      Event.refused (.character sampleRoot) ∈ trace ∧ outcome.reportsCap = false := by
  obtain ⟨aborted, hrun⟩ := sampleEnd_discovers 0 rfl rfl
  refine ⟨_, _, hrun, ?_, rfl⟩
  exact List.mem_of_getElem? (show (sampleEnd 0).2.trace[0]? = some _ from rfl)

theorem request_cap_kept_one :
    ∃ outcome trace, Discovers sampleRuntime sampleGateway.may sampleRoot (sampleOptions 1)
      (some outcome) trace ∧ outcome.isSnapshot = true ∧
      (outcome.reportsCap = true ↔
        ∃ read, read.isRelationship = true ∧ Event.refused read ∈ trace) := by
  obtain ⟨aborted, hrun⟩ := sampleEnd_discovers 1 rfl rfl
  exact ⟨_, _, hrun, rfl, (request_cap_kept _ _ _ _ _ _ hrun).2.2 _ rfl rfl⟩

end SlashWho.CharacterDiscovery
