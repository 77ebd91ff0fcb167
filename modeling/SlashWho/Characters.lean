import Mathlib.Data.List.Nodup

/-!
Character keys, the characters discovery finds, and the canonical id two keys
share when they name one character. The lower-casing is the runtime's own and
stays a parameter; an id is kept as its three parts, which its JSON text
determines.
-/

namespace SlashWho.Characters

open List

inductive Region
  | us
  | eu
  | kr
  | tw
  deriving DecidableEq

def Region.code : Region → String
  | .us => "us"
  | .eu => "eu"
  | .kr => "kr"
  | .tw => "tw"

structure CharacterKey where
  region : Region
  realm : String
  name : String
  deriving DecidableEq

def isRealmSlug (realm : String) : Bool :=
  !realm.isEmpty && realm.toList.all fun c => ('a' ≤ c && c ≤ 'z') || c.isDigit || c = '-'

structure CharacterGuild where
  name : String
  region : Region
  realm : String
  deriving DecidableEq

inductive DiscoverySource
  | input
  | claimed
  | declaredMain
  | profileGuess
  | fingerprint
  deriving DecidableEq

structure DiscoveredCharacter where
  key : CharacterKey
  displayName : String
  className : String
  level : ℕ
  guild : Option CharacterGuild
  raiderIoUrl : String
  source : DiscoverySource
  deriving DecidableEq

structure CanonicalId where
  region : String
  realm : String
  name : String
  deriving DecidableEq

variable (lower : String → String)

def canonicalCharacterId (key : CharacterKey) : CanonicalId :=
  ⟨lower key.region.code, lower key.realm, lower key.name⟩

/-- The characters kept when those with a canonical id seen before are dropped. -/
def deduplicateFrom (unique : List CanonicalId) :
    List DiscoveredCharacter → List DiscoveredCharacter
  | [] => []
  | character :: rest =>
    if canonicalCharacterId lower character.key ∈ unique then deduplicateFrom unique rest
    else
      character :: deduplicateFrom (canonicalCharacterId lower character.key :: unique) rest

def deduplicateCharacters (characters : List DiscoveredCharacter) : List DiscoveredCharacter :=
  deduplicateFrom lower [] characters

theorem mem_deduplicateFrom {lower : String → String} {unique : List CanonicalId}
    {characters : List DiscoveredCharacter} {character : DiscoveredCharacter}
    (h : character ∈ deduplicateFrom lower unique characters) : character ∈ characters := by
  induction characters generalizing unique with
  | nil => exact h
  | cons first rest ih =>
    unfold deduplicateFrom at h
    split at h
    · exact mem_cons_of_mem _ (ih h)
    · rcases mem_cons.mp h with rfl | hrest
      · exact mem_cons_self
      · exact mem_cons_of_mem _ (ih hrest)

end SlashWho.Characters
