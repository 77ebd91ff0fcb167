import SlashWho.DiscoveryBudget

/-!
Tournament profiles and the snapshot. Every read of a relationship that returns
one notes its id before anything is put together, whichever pass made the read,
so none of them is among the snapshot's characters. The guild pass comes after:
it takes the guild off what it reads and looks at nothing else, so a tournament
profile that only a guild read shows stays in the snapshot.
-/

namespace SlashWho.CharacterDiscovery

open List Characters

variable (runtime : Runtime)

/-- Every tournament profile returned so far is noted, or is still to be seen. -/
def NotedBut (unseen : List RaiderIoCharacter) (t : DiscoveryState) : Prop :=
  ∀ read characters c, Event.returned read characters ∈ t.trace → c ∈ characters →
    c.isTournamentProfile = true → canonicalId runtime c.key ∈ t.tournamentCharacters ∨ c ∈ unseen

variable {runtime} {may : Answers} {unseen : List RaiderIoCharacter}

variable {t : DiscoveryState}

theorem NotedBut.congr {t' : DiscoveryState} (h : NotedBut runtime unseen t)
    (htrace : ∀ read characters, Event.returned read characters ∈ t'.trace →
      Event.returned read characters ∈ t.trace)
    (htournaments : ∀ id ∈ t.tournamentCharacters, id ∈ t'.tournamentCharacters) :
    NotedBut runtime unseen t' := by
  intro read characters c hread hc hprofile
  rcases h read characters c (htrace _ _ hread) hc hprofile with hnoted | hunseen
  · exact .inl (htournaments _ hnoted)
  · exact .inr hunseen

theorem noted_modify {f : DiscoveryState → DiscoveryState}
    (hf : ∀ t, (f t).trace = t.trace ∧ (f t).tournamentCharacters = t.tournamentCharacters) :
    Ensures may (NotedBut runtime unseen) (modify f : Pass Unit)
      (fun _ => NotedBut runtime unseen) (fun _ => True) := by
  apply ensures_modify
  intro t h
  apply h.congr
  · intro read characters hread
    rw [(hf t).1] at hread
    exact hread
  · intro id hid
    rw [(hf t).2]
    exact hid

theorem noted_throwIfAborted :
    Ensures may (NotedBut runtime unseen) throwIfAborted (fun _ => NotedBut runtime unseen)
      (fun _ => True) :=
  ensures_throwIfAborted (fun _ _ => trivial)

theorem noted_isSuppressed (key : CharacterKey) :
    Ensures may (NotedBut runtime unseen) (isSuppressed key)
      (fun _ => NotedBut runtime unseen) (fun _ => True) :=
  ensures_isSuppressed (fun _ _ h _ => h) (fun _ _ => trivial)

theorem NotedBut.returned (read : Read) (characters : List RaiderIoCharacter)
    (h : NotedBut runtime [] t) :
    NotedBut runtime characters { t with trace := t.trace ++ [.returned read characters] } := by
  intro read' characters' c hread hc hprofile
  rw [mem_append, mem_singleton] at hread
  rcases hread with hold | hnew
  · rcases h _ _ c hold hc hprofile with hnoted | hunseen
    · exact .inl hnoted
    · cases hunseen
  · obtain ⟨_, rfl⟩ := Event.returned.inj hnew
    exact .inr hc

theorem noted_called {read : Read} (t : DiscoveryState) (h : Charged (NotedBut runtime []) t) :
    NotedBut runtime [] { t with trace := t.trace ++ [.called read] } := by
  obtain ⟨t, ht, _, rfl⟩ := h
  apply ht.congr
  · intro read' characters hread
    simpa using hread
  · exact fun _ hid => hid

theorem noted_request {α : Type} {read : Read} {operation : Pass α}
    {unseenOf : α → List RaiderIoCharacter}
    (h : Ensures may (Charged (NotedBut runtime [])) operation
      (fun a => NotedBut runtime (unseenOf a)) (fun _ => True)) :
    Ensures may (NotedBut runtime []) (request read operation)
      (fun answer => NotedBut runtime ((answer.map unseenOf).getD [])) (fun _ => True) := by
  apply ensures_request
  · intro t ht _
    apply ht.congr
    · intro read' characters hread
      simpa using hread
    · exact fun _ hid => hid
  · exact h

theorem noted_call {read : Read} {question : Question}
    {characters : question.Result → List RaiderIoCharacter}
    (hquestion : question ≠ .signalAborted) :
    Ensures may (Charged (NotedBut runtime [])) (gatewayCall read question characters)
      (fun answer => NotedBut runtime (characters answer)) (fun _ => True) :=
  ensures_call hquestion noted_called (fun _ _ h _ => h.returned read _) (fun _ _ => trivial)

theorem mem_addOnce {α : Type} [DecidableEq α] (members : List α) (member other : α) :
    other ∈ addOnce members member ↔ other ∈ members ∨ other = member := by
  unfold addOnce
  by_cases h : member ∈ members
  · rw [if_pos h]
    constructor
    · exact .inl
    · rintro (hold | rfl)
      · exact hold
      · exact h
  · rw [if_neg h, mem_append, mem_singleton]

theorem noted_excludeTournament (character : RaiderIoCharacter) :
    Ensures may (NotedBut runtime (character :: unseen)) (excludeTournament runtime character)
      (fun _ => NotedBut runtime unseen) (fun _ => True) := by
  apply ensures_modify
  intro t h read characters c hread hc hprofile
  show canonicalId runtime c.key ∈
    addOnce t.tournamentCharacters (canonicalId runtime character.key) ∨ c ∈ unseen
  rw [mem_addOnce]
  rcases h read characters c hread hc hprofile with hnoted | hunseen
  · exact .inl (.inl hnoted)
  · rcases mem_cons.mp hunseen with rfl | hrest
    · exact .inl (.inr rfl)
    · exact .inr hrest

theorem NotedBut.drop {character : RaiderIoCharacter} (h : NotedBut runtime (character :: unseen) t)
    (hprofile : character.isTournamentProfile ≠ true) : NotedBut runtime unseen t := by
  intro read characters c hread hc hc'
  rcases h read characters c hread hc hc' with hnoted | hunseen
  · exact .inl hnoted
  · rcases mem_cons.mp hunseen with rfl | hrest
    · exact absurd hc' hprofile
    · exact .inr hrest

variable (source : DiscoverySource)

theorem noted_recordMember (character : RaiderIoCharacter) :
    Ensures may (NotedBut runtime (character :: unseen)) (recordMember runtime source character)
      (fun _ => NotedBut runtime unseen) (fun _ => True) := by
  unfold recordMember
  refine noted_throwIfAborted.bind (fun _ => ?_)
  refine Ensures.bind (noted_modify (fun _ => ⟨rfl, rfl⟩)) (fun _ => ?_)
  split
  · exact noted_excludeTournament character
  · rename_i hprofile
    apply Ensures.of_pre (P := NotedBut runtime unseen)
    · refine (noted_isSuppressed character.key).bind (fun suppressed => ?_)
      split
      · exact ensures_pure (fun _ h => h)
      · refine noted_throwIfAborted.bind (fun _ => ?_)
        exact noted_modify (fun _ => ⟨rfl, rfl⟩)
    · exact fun t h => h.drop hprofile

/-- The induction is on the members still to be seen. -/
theorem noted_recordMembers (characters : List RaiderIoCharacter) :
    Ensures may (NotedBut runtime characters) (characters.forM (recordMember runtime source))
      (fun _ => NotedBut runtime []) (fun _ => True) := by
  induction characters with
  | nil => exact ensures_pure (fun _ h => h)
  | cons character rest ih => exact (noted_recordMember source character).bind (fun _ => ih)

theorem noted_recordRelated (profile : RaiderIoProfile) (source : DiscoverySource) :
    Ensures may (NotedBut runtime profile.characters) (recordRelated runtime profile source)
      (fun _ => NotedBut runtime []) (fun _ => True) := by
  unfold recordRelated
  refine Ensures.bind (noted_modify (fun _ => ⟨rfl, rfl⟩)) (fun _ => ?_)
  exact noted_recordMembers source profile.characters

variable (options : DiscoverCharacterOptions)

theorem noted_readPendingCharacter (pending : PendingCharacter) :
    Ensures may (Charged (NotedBut runtime [])) (readPendingCharacter options pending)
      (fun answer => NotedBut runtime answer.toList) (fun _ => True) := by
  unfold readPendingCharacter
  split
  · rename_i root _ _
    refine (ensures_note (Q := fun _ => NotedBut runtime []) noted_called).bind (fun _ => ?_)
    refine (ensures_note (Q := fun _ => NotedBut runtime [root])
      (fun _ h => h.returned _ _)).bind (fun _ => ?_)
    exact ensures_pure (fun _ h => h)
  · exact noted_call (by simp)

/-- Discovery goes on from the pending characters with every profile noted: a
tournament root ends it instead. -/
theorem noted_readPending (rounds : ℕ) :
    Ensures may (NotedBut runtime []) (readPending runtime options rounds)
      (fun ended t => ended = none → NotedBut runtime [] t) (fun _ => True) := by
  induction rounds with
  | zero => exact ensures_pure (fun _ h _ => h)
  | succ rounds ih =>
    refine (ensures_get (Q := fun _ => NotedBut runtime []) (fun _ h => h)).bind (fun seen => ?_)
    split
    · exact ensures_pure (fun _ h _ => h)
    · rename_i pending rest _
      refine noted_throwIfAborted.bind (fun _ => ?_)
      refine Ensures.bind (noted_modify (fun _ => ⟨rfl, rfl⟩)) (fun _ => ?_)
      refine (ensures_get (Q := fun _ => NotedBut runtime []) (fun _ h => h)).bind
        (fun seen => ?_)
      split
      · exact ih
      · refine (noted_isSuppressed pending.key).bind (fun suppressed => ?_)
        split
        · exact ih
        · refine Ensures.bind (noted_modify (fun _ => ⟨rfl, rfl⟩)) (fun _ => ?_)
          refine (noted_request (noted_readPendingCharacter options pending)).bind (fun read => ?_)
          refine noted_throwIfAborted.bind (fun _ => ?_)
          match read with
          | none => exact ensures_pure (fun _ h _ => h)
          | some none => exact ensures_throw (fun _ _ => trivial)
          | some (some character) =>
            refine Ensures.bind (noted_modify (fun _ => ⟨rfl, rfl⟩)) (fun _ => ?_)
            split
            · split
              · exact ensures_pure (fun _ _ hended => by cases hended)
              · exact (noted_excludeTournament character).bind (fun _ => ih)
            · rename_i hprofile
              apply Ensures.of_pre (P := NotedBut runtime [])
              · exact Ensures.bind (noted_modify (fun _ => ⟨rfl, rfl⟩)) (fun _ => ih)
              · exact fun t h => h.drop hprofile

theorem noted_readGuesses (guesses : List String) :
    Ensures may (NotedBut runtime []) (readGuesses runtime guesses)
      (fun _ => NotedBut runtime []) (fun _ => True) := by
  induction guesses with
  | nil => exact ensures_pure (fun _ h => h)
  | cons guess rest ih =>
    refine (noted_request (noted_call (by simp))).bind (fun read => ?_)
    refine noted_throwIfAborted.bind (fun _ => ?_)
    match read with
    | none => exact ensures_pure (fun _ h => h)
    | some none => exact ensures_throw (fun _ _ => trivial)
    | some (some none) => exact ih
    | some (some (some profile)) =>
      apply Ensures.of_pre (P := NotedBut runtime profile.characters)
      · exact (noted_recordRelated profile .profileGuess).bind (fun _ => ih)
      · intro t h
        simpa using h

theorem noted_readOwners (characters : List RaiderIoCharacter) :
    Ensures may (NotedBut runtime []) (readOwners runtime characters)
      (fun _ => NotedBut runtime []) (fun _ => True) := by
  induction characters with
  | nil => exact ensures_pure (fun _ h => h)
  | cons character rest ih =>
    unfold readOwners
    split
    · rename_i ownerId _
      refine (ensures_get (Q := fun _ => NotedBut runtime []) (fun _ h => h)).bind
        (fun seen => ?_)
      split
      · exact ih
      · refine Ensures.bind (noted_modify (fun _ => ⟨rfl, rfl⟩)) (fun _ => ?_)
        refine (noted_request (noted_call (by simp))).bind (fun read => ?_)
        refine noted_throwIfAborted.bind (fun _ => ?_)
        match read with
        | none => exact ensures_pure (fun _ h => h)
        | some none => exact ensures_throw (fun _ _ => trivial)
        | some (some claimed) =>
          apply Ensures.of_pre (P := NotedBut runtime claimed.characters)
          · exact (noted_recordRelated claimed .claimed).bind (fun _ => ih)
          · intro t h
            simpa using h
    · refine Ensures.bind (noted_modify (fun _ => ⟨rfl, rfl⟩)) (fun _ => ?_)
      refine (noted_readGuesses character.guesses).bind (fun _ => ?_)
      refine (ensures_get (Q := fun _ => NotedBut runtime []) (fun _ h => h)).bind
        (fun seen => ?_)
      split
      · exact ensures_pure (fun _ h => h)
      · exact ih

theorem noted_recordReverseDeclared (character : DiscoveredCharacter) :
    Ensures may (NotedBut runtime []) (recordReverseDeclared runtime character)
      (fun _ => NotedBut runtime []) (fun _ => True) := by
  unfold recordReverseDeclared
  refine noted_throwIfAborted.bind (fun _ => ?_)
  refine (noted_isSuppressed character.key).bind (fun suppressed => ?_)
  split
  · exact ensures_pure (fun _ h => h)
  · exact noted_modify (fun _ => ⟨rfl, rfl⟩)

theorem noted_discoverRelationships (root : CharacterKey) (options : DiscoverCharacterOptions) :
    Ensures may (NotedBut runtime []) (discoverRelationships runtime root options)
      (fun ended t => ended = none → NotedBut runtime [] t) (fun _ => True) := by
  unfold discoverRelationships
  refine Ensures.tryCatch (C := fun _ => True) ?_ (fun error => ?_)
  · unfold relationshipPasses
    refine (noted_isSuppressed root).bind (fun suppressed => ?_)
    split
    · exact ensures_pure (fun _ h _ => h)
    · refine (noted_readPending options _).bind (fun ended => ?_)
      match ended with
      | some outcome => exact ensures_pure (fun _ _ hended => by cases hended)
      | none =>
        apply Ensures.of_pre (P := NotedBut runtime [])
        · refine (ensures_get (Q := fun _ => NotedBut runtime []) (fun _ h => h)).bind
            (fun seen => ?_)
          refine (noted_readOwners seen.inspectedCharacters).bind (fun _ => ?_)
          refine (ensures_forM
            (fun character _ => noted_recordReverseDeclared character)).bind (fun _ => ?_)
          exact ensures_pure (fun _ h _ => h)
        · exact fun t h => h rfl
  · refine (ensures_true signalAborted).bind (fun aborted => ?_)
    split
    · exact ensures_throw (fun _ _ => trivial)
    · exact ensures_pure (fun _ _ hended => by cases hended)

theorem guilds_returned {aborted : Bool} {p : GuildPass}
    (hguilds : Relation.ReflTransGen (GuildPass.Step may) (.start runtime t aborted) p)
    {read : Read} {characters : List RaiderIoCharacter}
    (h : Event.returned read characters ∈ p.trace) :
    Event.returned read characters ∈ t.trace ∨ ∃ key, read = .guild key := by
  induction hguilds with
  | refl => exact .inl h
  | tail _ hstep ih =>
    rcases hstep.moved with ⟨events, hmoved⟩ | rfl
    · rw [hmoved.trace, mem_append] at h
      rcases h with hold | hnew
      · exact ih hold
      · have hguild := hmoved.guildsOnly _ hnew
        cases read with
        | guild key => exact .inr ⟨key, rfl⟩
        | character key => cases hguild
        | claimed ownerId => cases hguild
        | profileGuess value => cases hguild
    · exact ih h

def DiscoveryOutcome.characters : DiscoveryOutcome → List DiscoveredCharacter
  | .complete characters _ => characters
  | .incomplete _ _ _ characters _ => characters
  | .failure .. => []

theorem outcome_characters {runtime : Runtime} {root : CharacterKey} {t : DiscoveryState}
    {p : GuildPass} (h : (outcome runtime root t p).isSnapshot = true) :
    (outcome runtime root t p).characters = p.withGuilds := by
  unfold outcome at h ⊢
  split
  · rename_i hroot
    rw [if_pos hroot] at h
    split at h <;> cases h
  · split
    · rfl
    · split
      · rfl
      · split
        · rfl
        · rfl

def listedIds (runtime : Runtime) (characters : List DiscoveredCharacter) : List CanonicalId :=
  characters.map (fun c => canonicalId runtime c.key)

theorem listedIds_congr {runtime : Runtime} {characters characters' : List DiscoveredCharacter}
    (h : characters.map DiscoveredCharacter.key = characters'.map DiscoveredCharacter.key) :
    listedIds runtime characters = listedIds runtime characters' := by
  have hmap (cs : List DiscoveredCharacter) :
      listedIds runtime cs = (cs.map DiscoveredCharacter.key).map (canonicalId runtime) := by
    rw [map_map]
    rfl
  rw [hmap, hmap, h]

/-- No tournament profile that a read of the run returned is listed. -/
def TournamentsLeftOut (runtime : Runtime) (trace : List Event)
    (characters : List DiscoveredCharacter) : Prop :=
  ∀ read returned c, Event.returned read returned ∈ trace → c ∈ returned →
    c.isTournamentProfile = true → canonicalId runtime c.key ∉ listedIds runtime characters

/-- A run that returns a snapshot leaves every tournament profile out of it if
and only if no read of the guild pass is answered with a tournament profile
that the passes before it put on the list. -/
theorem tournaments_left_out_iff (runtime : Runtime) (may : Answers) (root : CharacterKey)
    (options : DiscoverCharacterOptions) (aborted : Bool) (t : DiscoveryState) (p : GuildPass)
    (hruns : (discoverRelationships runtime root options (initialState root options)).Runs
      (does may) false (.ok none, t) aborted)
    (hguilds : Relation.ReflTransGen (GuildPass.Step may) (.start runtime t aborted) p)
    (hsnapshot : (outcome runtime root t p).isSnapshot = true) :
    TournamentsLeftOut runtime p.trace (outcome runtime root t p).characters ↔
      ∀ key returned c, Event.returned (.guild key) returned ∈ p.trace → c ∈ returned →
        c.isTournamentProfile = true →
        canonicalId runtime c.key ∉ listedIds runtime (snapshotCharacters runtime t) := by
  have hids : listedIds runtime (outcome runtime root t p).characters =
      listedIds runtime (snapshotCharacters runtime t) := by
    rw [outcome_characters hsnapshot]
    exact listedIds_congr (guilds_keep_keys hguilds)
  unfold TournamentsLeftOut
  rw [hids]
  constructor
  · intro h key returned c hread hc hprofile
    exact h (.guild key) returned c hread hc hprofile
  · intro h read returned c hread hc hprofile hlisted
    rcases guilds_returned hguilds hread with hbefore | ⟨key, rfl⟩
    · have hstart : NotedBut runtime [] (initialState root options) := by
        intro read returned c hread
        cases hread
      have hnoted := (noted_discoverRelationships root options).runs hstart hruns rfl
      rcases hnoted read returned c hbefore hc hprofile with hin | hunseen
      · obtain ⟨listed, hmem, hid⟩ := mem_map.mp hlisted
        obtain ⟨_, hkept⟩ := mem_filter.mp hmem
        rw [hid] at hkept
        simp [hin] at hkept
      · cases hunseen
    · exact h key returned c hread hc hprofile hlisted

/-! A claimed character whose own payload alone may carry the flag. -/

def plainCharacter (key : CharacterKey) (ownerId : Option String) (isTournamentProfile : Bool) :
    RaiderIoCharacter where
  key := key
  displayName := key.name
  className := "Mage"
  level := 80
  guild := none
  ownerId := ownerId
  profileGuess := none
  declaredMain := none
  isTournamentProfile := isTournamentProfile
  omittedMembers := false

def claimedKey : CharacterKey := ⟨.eu, "draenor", "jaina"⟩

variable (flag : Bool)

def claimedGateway : FixedAnswers where
  suppressed _ := false
  character key := .ok (some (plainCharacter key (some "owner") (key = claimedKey && flag)))
  claimed _ := .ok (some ⟨[plainCharacter claimedKey none false], false⟩)
  profileGuess _ := .ok (some none)

def claimedEnd : (Except Thrown (Option DiscoveryOutcome) × DiscoveryState) × Bool :=
  (claimedGateway flag).run (discoverRelationships sampleRuntime sampleRoot (sampleOptions 5))
    (initialState sampleRoot (sampleOptions 5))

def claimedListed : DiscoveredCharacter :=
  discoveredCharacter (plainCharacter claimedKey none false) .claimed

def claimedPass : GuildPass :=
  ((((GuildPass.start sampleRuntime (claimedEnd flag).1.2 (claimedEnd flag).2).readNext 0).settle
    0 1 claimedListed 1 ((claimedGateway flag).character claimedKey)).store 0 1
      claimedListed).readNext 0

theorem claimedPass_reached :
    Relation.ReflTransGen (GuildPass.Step (claimedGateway flag).may)
      (.start sampleRuntime (claimedEnd flag).1.2 (claimedEnd flag).2) (claimedPass flag) := by
  cases flag with
  | true =>
    exact .tail (.tail (.tail (.single (.readNext _ 0 rfl))
      (.settle _ 0 1 claimedListed 1 _ rfl rfl)) (.store _ 0 1 claimedListed rfl))
      (.readNext _ 0 rfl)
  | false =>
    exact .tail (.tail (.tail (.single (.readNext _ 0 rfl))
      (.settle _ 0 1 claimedListed 1 _ rfl rfl)) (.store _ 0 1 claimedListed rfl))
      (.readNext _ 0 rfl)

theorem claimedEnd_runs :
    (discoverRelationships sampleRuntime sampleRoot (sampleOptions 5)
      (initialState sampleRoot (sampleOptions 5))).Runs (does (claimedGateway flag).may) false
      (.ok none, (claimedEnd flag).1.2) (claimedEnd flag).2 := by
  have hruns := (claimedGateway flag).runs
    (discoverRelationships sampleRuntime sampleRoot (sampleOptions 5))
    (initialState sampleRoot (sampleOptions 5))
  have hsplit : (claimedEnd flag).1 = (.ok none, (claimedEnd flag).1.2) := Prod.ext rfl rfl
  rw [← hsplit]
  exact hruns

/-- Without the flag nothing has to be left out. -/
theorem tournaments_left_out_iff_unflagged :
    TournamentsLeftOut sampleRuntime (claimedPass false).trace
      (outcome sampleRuntime sampleRoot (claimedEnd false).1.2 (claimedPass false)).characters := by
  rw [tournaments_left_out_iff sampleRuntime (claimedGateway false).may sampleRoot
    (sampleOptions 5) (claimedEnd false).2 (claimedEnd false).1.2 (claimedPass false)
    (claimedEnd_runs false) (claimedPass_reached false) rfl]
  intro key returned c hread hc hprofile
  have htrace : (claimedPass false).trace =
      [.called (.character sampleRoot),
        .returned (.character sampleRoot) [plainCharacter sampleRoot (some "owner") false],
        .called (.claimed "owner"),
        .returned (.claimed "owner") [plainCharacter claimedKey none false],
        .called (.guild claimedKey),
        .returned (.guild claimedKey) [plainCharacter claimedKey (some "owner") false]] := rfl
  rw [htrace] at hread
  simp only [mem_cons, Event.returned.injEq, reduceCtorEq, false_and, false_or, or_false,
    not_mem_nil] at hread
  rw [hread.2, mem_singleton] at hc
  rw [hc] at hprofile
  cases hprofile

theorem claimedPass_flagged :
    ∃ characters dropped trace, Discovers sampleRuntime (claimedGateway true).may sampleRoot
      (sampleOptions 5) (some (.complete characters dropped)) trace ∧
      Event.returned (.guild claimedKey) [plainCharacter claimedKey (some "owner") true] ∈ trace ∧
      canonicalId sampleRuntime claimedKey ∈ listedIds sampleRuntime characters := by
  have hfinished : ∀ worker ∈ (claimedPass true).workers, worker = .finished := by
    have hworkers : (claimedPass true).workers = [.finished] := rfl
    rw [hworkers]
    simp
  have hrun := Discovers.returned _ _ (claimedPass true) (claimedEnd_runs true)
    (claimedPass_reached true) hfinished
  have hcomplete : outcome sampleRuntime sampleRoot (claimedEnd true).1.2 (claimedPass true) =
      .complete (claimedPass true).withGuilds 0 := rfl
  rw [hcomplete] at hrun
  refine ⟨_, _, _, hrun, ?_, ?_⟩
  · exact mem_of_getElem? (show (claimedPass true).trace[5]? = some _ from rfl)
  · exact mem_of_getElem?
      (show (listedIds sampleRuntime (claimedPass true).withGuilds)[1]? = some _ from rfl)

/-- The tournament profile that a guild read returned is in the snapshot. -/
theorem flagged_character_listed :
    ∃ outcome trace, Discovers sampleRuntime (claimedGateway true).may sampleRoot
      (sampleOptions 5) (some outcome) trace ∧ outcome.isSnapshot = true ∧
      ¬ TournamentsLeftOut sampleRuntime trace outcome.characters := by
  obtain ⟨characters, dropped, trace, hrun, hread, hlisted⟩ := claimedPass_flagged
  exact ⟨_, trace, hrun, rfl, fun hleft => hleft _ _ _ hread mem_cons_self rfl hlisted⟩

end SlashWho.CharacterDiscovery
