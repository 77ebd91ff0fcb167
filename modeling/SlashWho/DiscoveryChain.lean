import SlashWho.DiscoveryTournaments

/-!
The declared-main chain of a root, where the gateway's answers and the
suppressions are fixed. A discovery that nothing limits follows the chain to its
end: it inspects and records every character of it, in order, and finds no
tournament profile among them. Each round spends a request or empties the
queue, so the rounds counted for the budget are enough.
-/

namespace SlashWho.CharacterDiscovery

open Characters

variable (runtime : Runtime) (w : FixedAnswers) (options : DiscoverCharacterOptions)

/-- The answer to a read of a pending character: a root given along answers itself. -/
def readOf (source : PendingSource) (key : CharacterKey) :
    Except Thrown (Option RaiderIoCharacter) :=
  match source, options.rootCharacter with
  | .input, some root => .ok (some root)
  | _, _ => w.character key

/-- The characters that mains are declared through, from a key on: the chain
ends at a suppressed key, at an id met before, or with no main declared. -/
inductive Chain : PendingSource → List CanonicalId → CharacterKey → List RaiderIoCharacter → Prop
  | met (source : PendingSource) (visited : List CanonicalId) (key : CharacterKey)
      (h : canonicalId runtime key ∈ visited) : Chain source visited key []
  | suppressed (source : PendingSource) (visited : List CanonicalId) (key : CharacterKey)
      (h : w.suppressed key = true) : Chain source visited key []
  | last (source : PendingSource) (visited : List CanonicalId) (key : CharacterKey)
      (c : RaiderIoCharacter) (hshown : w.suppressed key = false)
      (hread : readOf w options source key = .ok (some c)) (hmain : c.declaredMain = none) :
      Chain source visited key [c]
  | next (source : PendingSource) (visited : List CanonicalId) (key main : CharacterKey)
      (c : RaiderIoCharacter) (rest : List RaiderIoCharacter) (hshown : w.suppressed key = false)
      (hread : readOf w options source key = .ok (some c)) (hmain : c.declaredMain = some main)
      (hrest : Chain .declaredMain (addOnce visited (canonicalId runtime key)) main rest) :
      Chain source visited key (c :: rest)

/-- The members an owner's claimed list adds. -/
def claimedMembers (ownerId : String) : List RaiderIoCharacter :=
  match w.claimed ownerId with
  | .ok (some profile) => profile.characters.filter (fun c => !w.suppressed c.key)
  | _ => []

/-- The keys a complete discovery stands for. -/
inductive Related (chain : List RaiderIoCharacter) : CharacterKey → Prop
  | chain (c : RaiderIoCharacter) (h : c ∈ chain) : Related chain c.key
  | claimed (c member : RaiderIoCharacter) (ownerId : String) (h : c ∈ chain)
      (howner : c.owner = some ownerId) (hmember : member ∈ claimedMembers w ownerId) :
      Related chain member.key
  | reverseDeclared (c : DiscoveredCharacter)
      (h : c ∈ options.knownReverseDeclaredCharacters) (hshown : w.suppressed c.key = false) :
      Related chain c.key

/-- The tournament profiles among what the chain and the claimed lists return. -/
inductive TournamentKey (chain : List RaiderIoCharacter) : CharacterKey → Prop
  | chain (c : RaiderIoCharacter) (h : c ∈ chain) (hprofile : c.isTournamentProfile = true) :
      TournamentKey chain c.key
  | claimed (c member : RaiderIoCharacter) (ownerId : String) (profile : RaiderIoProfile)
      (h : c ∈ chain) (howner : c.owner = some ownerId)
      (hread : w.claimed ownerId = .ok (some profile)) (hmember : member ∈ profile.characters)
      (hprofile : member.isTournamentProfile = true) : TournamentKey chain member.key

/-- Something limits the discovery, which then does not end complete. -/
def Marred (t : DiscoveryState) : Prop :=
  t.capped = true ∨ t.privacyHidden = true ∨ t.omittedMembers = true

theorem Marred.update {t t' : DiscoveryState} (hupdate : Update t t') (h : Marred t) :
    Marred t' := by
  cases hupdate with
  | returned read characters => exact h
  | refused read _ _ => exact Or.inl rfl
  | called read _ _ => exact h
  | recorded _ _ hcapped _ hhidden homitted =>
    rcases h with hcap | hhid | homit
    · exact Or.inl (hcapped.trans hcap)
    · exact Or.inr (Or.inl (hhidden hhid))
    · exact Or.inr (Or.inr (homitted homit))

variable {runtime : Runtime} {w : FixedAnswers} {options : DiscoverCharacterOptions}

/-- The variables that say whom the discovery found. -/
structure Stage (visited : List CanonicalId) (inspected : List RaiderIoCharacter)
    (observations : List DiscoveredCharacter) (t : DiscoveryState) : Prop where
  visited : t.visitedCharacters = visited
  inspected : t.inspectedCharacters = inspected
  observations : t.observations = observations
  owners : t.visitedOwners = []
  tournaments : t.tournamentCharacters = []

def fromPrimary (c : DiscoveredCharacter) : Prop := c.source = .input ∨ c.source = .declaredMain

/-- The chain's characters are inspected and recorded, none a tournament profile. -/
structure Followed (inspected : List RaiderIoCharacter) (observations : List DiscoveredCharacter)
    (chain : List RaiderIoCharacter) (t : DiscoveryState) : Prop where
  inspected : t.inspectedCharacters = inspected ++ chain
  observations : ∃ added, t.observations = observations ++ added ∧
    added.map DiscoveredCharacter.key = chain.map RaiderIoCharacter.key ∧
    ∀ c ∈ added, fromPrimary c
  owners : t.visitedOwners = []
  tournaments : t.tournamentCharacters = []
  plain : ∀ c ∈ chain, c.isTournamentProfile = false

variable {inspected : List RaiderIoCharacter} {observations : List DiscoveredCharacter}

variable {visited : List CanonicalId}

theorem Followed.cons {c : RaiderIoCharacter} {recorded : DiscoveredCharacter}
    {rest : List RaiderIoCharacter} {t : DiscoveryState}
    (h : Followed (inspected ++ [c]) (observations ++ [recorded]) rest t)
    (hkey : recorded.key = c.key) (hprimary : fromPrimary recorded)
    (hplain : c.isTournamentProfile = false) : Followed inspected observations (c :: rest) t where
  inspected := by rw [h.inspected, List.append_assoc, List.singleton_append]
  observations := by
    obtain ⟨added, hadded, hkeys, hsources⟩ := h.observations
    refine ⟨recorded :: added, ?_, ?_, ?_⟩
    · rw [hadded, List.append_assoc, List.singleton_append]
    · rw [List.map_cons, List.map_cons, hkeys, hkey]
    · intro other hother
      rcases List.mem_cons.mp hother with rfl | hin
      · exact hprimary
      · exact hsources other hin
  owners := h.owners
  tournaments := h.tournaments
  plain := by
    intro other hother
    rcases List.mem_cons.mp hother with rfl | hin
    · exact hplain
    · exact h.plain other hin

variable (pending : PendingCharacter)

end SlashWho.CharacterDiscovery
