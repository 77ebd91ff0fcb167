import SlashWho.DiscoveryChain

/-!
What a complete snapshot contains. Where the gateway's answers and the suppressions are fixed, a
discovery that ends complete met no cap, no hidden owner and nothing it had to leave out, so each
pass recorded all that it read, and deduplication keeps one of each id. A chain character is asked
for under an unsuppressed key, and recorded under the key it is returned with.
-/

namespace SlashWho.CharacterDiscovery

open List Characters

variable {runtime : Runtime} {w : FixedAnswers} {options : DiscoverCharacterOptions}

/-! The claimed lists. -/

/-- The owners read so far and what was recorded. -/
structure OwnerStage (owners : List String) (observations : List DiscoveredCharacter)
    (t : DiscoveryState) : Prop where
  owners : t.visitedOwners = owners
  observations : t.observations = observations
  tournaments : t.tournamentCharacters = []

variable {owners : List String} {observations : List DiscoveredCharacter}

def recorded (w : FixedAnswers) (source : DiscoverySource) (characters : List RaiderIoCharacter) :
    List DiscoveredCharacter :=
  (characters.filter (fun c => !w.suppressed c.key)).map (fun c => discoveredCharacter c source)

variable (source : DiscoverySource)

/-- Every owner of the characters given was read, once, and its unsuppressed
members recorded. -/
structure OwnersRead (w : FixedAnswers) (owners : List String)
    (observations : List DiscoveredCharacter) (characters : List RaiderIoCharacter)
    (read : List String) (added : List DiscoveredCharacter) (t : DiscoveryState) : Prop where
  stage : OwnerStage (owners ++ read) (observations ++ added) t
  asked : ∀ o ∈ read, ∃ c ∈ characters, c.owner = some o
  plain : ∀ o ∈ read, ∃ profile, w.claimed o = .ok (some profile) ∧
    ∀ c ∈ profile.characters, c.isTournamentProfile = false
  owned : ∀ c ∈ characters, ∃ o, c.owner = some o ∧ o ∈ owners ++ read
  keys : added.map DiscoveredCharacter.key =
    (read.flatMap (claimedMembers w)).map RaiderIoCharacter.key
  sources : ∀ c ∈ added, c.source = .claimed

theorem recorded_keys {ownerId : String} {profile : RaiderIoProfile}
    (h : w.claimed ownerId = .ok (some profile)) :
    (recorded w source profile.characters).map DiscoveredCharacter.key =
      (claimedMembers w ownerId).map RaiderIoCharacter.key := by
  unfold recorded claimedMembers
  rw [h, map_map]
  rfl

variable {t : DiscoveryState}

theorem OwnersRead.cons {added : List DiscoveredCharacter} {character : RaiderIoCharacter}
    {rest : List RaiderIoCharacter} {ownerId : String} {claimed : RaiderIoProfile}
    {read : List String} (h : OwnersRead w (owners ++ [ownerId])
      (observations ++ recorded w .claimed claimed.characters) rest read added t)
    (howner : character.owner = some ownerId) (hclaimed : w.claimed ownerId = .ok (some claimed))
    (hplain : ∀ c ∈ claimed.characters, c.isTournamentProfile = false) :
    OwnersRead w owners observations (character :: rest) (ownerId :: read)
      (recorded w .claimed claimed.characters ++ added) t := by
  have hread : owners ++ ownerId :: read = owners ++ [ownerId] ++ read := by simp
  constructor
  · rw [hread, ← append_assoc]
    exact h.stage
  · intro o ho
    rcases mem_cons.mp ho with rfl | hin
    · exact ⟨character, mem_cons_self, howner⟩
    · obtain ⟨c, hc, hco⟩ := h.asked o hin
      exact ⟨c, mem_cons_of_mem _ hc, hco⟩
  · intro o ho
    rcases mem_cons.mp ho with rfl | hin
    · exact ⟨claimed, hclaimed, hplain⟩
    · exact h.plain o hin
  · intro c hc
    rw [hread]
    rcases mem_cons.mp hc with rfl | hin
    · exact ⟨ownerId, howner, by simp⟩
    · exact h.owned c hin
  · rw [map_append, recorded_keys .claimed hclaimed, h.keys, flatMap_cons,
      map_append]
  · intro c hc
    rcases mem_append.mp hc with hnew | hold
    · obtain ⟨member, _, rfl⟩ := mem_map.mp hnew
      rfl
    · exact h.sources c hold

def reverseDeclared (w : FixedAnswers) (characters : List DiscoveredCharacter) :
    List DiscoveredCharacter :=
  (characters.filter (fun c => !w.suppressed c.key)).map
    (fun c => { c with source := .declaredMain })

variable (characters : List DiscoveredCharacter)

/-- What the passes recorded when nothing limits the discovery. -/
structure Gathered (runtime : Runtime) (w : FixedAnswers) (options : DiscoverCharacterOptions)
    (root : CharacterKey) (chain : List RaiderIoCharacter) (t : DiscoveryState) : Prop where
  followed : Chain runtime w options .input [] root chain
  keys : ∀ key, key ∈ t.observations.map DiscoveredCharacter.key ↔ Related w options chain key
  sources : ∀ c ∈ t.observations, fromPrimary c ∨ c.source = .claimed
  tournaments : t.tournamentCharacters = []
  plain : ∀ key, ¬ TournamentKey w chain key

variable {chain : List RaiderIoCharacter}

theorem Chain.asked {source : PendingSource} {visited : List CanonicalId} {key : CharacterKey}
    (h : Chain runtime w options source visited key chain) :
    ∀ d ∈ chain, ∃ source' asked, w.suppressed asked = false ∧
      readOf w options source' asked = .ok (some d) ∧
      (source' = .input → source = .input ∧ asked = key) := by
  induction h with
  | met source visited key hmet => simp
  | suppressed source visited key hkey => simp
  | last source visited key c hshown hread hmain =>
    intro d hd
    rw [mem_singleton.mp hd]
    exact ⟨source, key, hshown, hread, fun hsource => ⟨hsource, rfl⟩⟩
  | next source visited key main c rest hshown hread hmain _ ih =>
    intro d hd
    rcases mem_cons.mp hd with rfl | hin
    · exact ⟨source, key, hshown, hread, fun hsource => ⟨hsource, rfl⟩⟩
    · obtain ⟨source', asked, hasked, hanswer, hinput⟩ := ih d hin
      refine ⟨source', asked, hasked, hanswer, fun hsource => ?_⟩
      cases (hinput hsource).1

/-- What stands for a suppressed key is a character of the chain. -/
theorem Related.suppressed {w : FixedAnswers} {options : DiscoverCharacterOptions}
    {chain : List RaiderIoCharacter} {key : CharacterKey} (h : Related w options chain key)
    (hkey : w.suppressed key = true) : ∃ d ∈ chain, d.key = key := by
  cases h with
  | chain c hc => exact ⟨c, hc, rfl⟩
  | claimed c m o hc hco hm =>
    unfold claimedMembers at hm
    split at hm
    · rw [mem_filter, hkey] at hm
      cases hm.2
    · cases hm
  | reverseDeclared c hc hshown =>
    rw [hshown] at hkey
    cases hkey

end SlashWho.CharacterDiscovery
