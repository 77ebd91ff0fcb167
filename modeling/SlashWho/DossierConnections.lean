import SlashWho.FingerprintDiscovery

/-!
The connections of a dossier and the characters a reviewer excluded from it. A link is kept by key
under the root that holds it and carries its own exclusion; a character that discovery found has a
row of its own while it is excluded. Excluding writes the one or the other, for the character and
for every other name of it under one Warcraft Logs id.
-/

namespace SlashWho.DossierConnections

open Characters
open FingerprintDiscovery (toRaiderIoUrl)

/-- A key in the form every lookup uses: its canonical id spells its own parts. -/
structure LookupKey (lower : String → String) extends CharacterKey where
  lowered : canonicalCharacterId lower toCharacterKey = ⟨region.code, realm, name⟩
  deriving DecidableEq

variable {lower : String → String}

namespace LookupKey

def id (key : LookupKey lower) : CanonicalId := canonicalCharacterId lower key.toCharacterKey

theorem code_injective : Function.Injective Region.code := by
  intro a b h
  cases a <;> cases b <;> first | rfl | exact absurd h (by decide)

@[simp] theorem id_eq_iff (a b : LookupKey lower) : a.id = b.id ↔ a = b := by
  constructor
  · intro h
    unfold id at h
    rw [a.lowered, b.lowered, CanonicalId.mk.injEq] at h
    obtain ⟨hregion, hrealm, hname⟩ := h
    obtain ⟨⟨region, realm, name⟩, ha⟩ := a
    obtain ⟨⟨region', realm', name'⟩, hb⟩ := b
    obtain rfl : region = region' := code_injective hregion
    obtain rfl : realm = realm' := hrealm
    obtain rfl : name = name' := hname
    rfl
  · intro h
    rw [h]

end LookupKey

/-- What a character's own row says of it. -/
structure CharacterRow where
  displayName : String
  className : String
  level : ℕ
  raiderIoUrl : String

structure SnapshotCharacter (lower : String → String) where
  key : LookupKey lower
  displayName : String
  className : String
  level : ℕ
  guild : Option CharacterGuild
  raiderIoUrl : String
  source : DiscoverySource

structure StoredSnapshot (lower : String → String) where
  rootKey : LookupKey lower
  characters : List (SnapshotCharacter lower)

def StoredSnapshot.keys (snapshot : StoredSnapshot lower) : List (LookupKey lower) :=
  snapshot.characters.map SnapshotCharacter.key

/-- What discovery and collection have stored: the characters, the current snapshot of each
root, the newest one that declares a character, and the recorded Warcraft Logs ids. -/
structure Discovery (lower : String → String) where
  characters : LookupKey lower → Option CharacterRow
  getCurrent : LookupKey lower → Option (StoredSnapshot lower)
  getCurrentDeclaringCharacter : LookupKey lower → Option (StoredSnapshot lower)
  characterId : LookupKey lower → Option ℕ
  getCurrent_root : ∀ key snapshot, getCurrent key = some snapshot → snapshot.rootKey = key

def Discovery.warcraftLogsCharacterIds (d : Discovery lower) (keys : List (LookupKey lower)) :
    List (LookupKey lower × ℕ) :=
  keys.filterMap (fun key => (d.characterId key).map (fun characterId => (key, characterId)))

inductive LinkOrigin
  | dossier
  | applicantSheet
  | bot
  deriving DecidableEq

structure ConnectionRow where
  origin : LinkOrigin
  applicantApplicationId : Option ℕ
  excluded : Bool
  deriving DecidableEq

/-- The stored state: what discovery found, and for each root its links in the order they
were made and the discovered characters it excludes. -/
structure Dossiers (lower : String → String) where
  discovery : Discovery lower
  connections : LookupKey lower → OrderedMap (LookupKey lower) ConnectionRow
  exclusions : LookupKey lower → List (LookupKey lower)

namespace Dossiers

/-- Every statement on a root's rows joins the root's own character row. -/
def hasRow (s : Dossiers lower) (root : LookupKey lower) : Bool :=
  (s.discovery.characters root).isSome

def rows (s : Dossiers lower) (root : LookupKey lower) :
    OrderedMap (LookupKey lower) ConnectionRow :=
  if s.hasRow root then s.connections root else .empty

def setRow (s : Dossiers lower) (root key : LookupKey lower) (row : ConnectionRow) :
    Dossiers lower :=
  { s with
    connections := Function.update s.connections root ((s.connections root).set key row) }

def setExclusions (s : Dossiers lower) (root : LookupKey lower)
    (keys : List (LookupKey lower)) : Dossiers lower :=
  { s with exclusions := Function.update s.exclusions root keys }

end Dossiers

structure ManualConnectionCharacter (lower : String → String) where
  key : LookupKey lower
  displayName : String
  className : Option String
  level : ℕ
  raiderIoUrl : String
  pending : Bool
  origin : LinkOrigin
  excluded : Bool

/-- A link made before discovery has no character row yet, and is listed as pending. -/
def manualConnection (d : Discovery lower) (key : LookupKey lower) (row : ConnectionRow) :
    ManualConnectionCharacter lower where
  key := key
  displayName := ((d.characters key).map CharacterRow.displayName).getD key.name
  className := (d.characters key).map CharacterRow.className
  level := ((d.characters key).map CharacterRow.level).getD 0
  raiderIoUrl :=
    ((d.characters key).map CharacterRow.raiderIoUrl).getD (toRaiderIoUrl key.toCharacterKey)
  pending := (d.characters key).isNone
  origin := row.origin
  excluded := row.excluded

variable (s : Dossiers lower) (root : LookupKey lower)

def list : List (ManualConnectionCharacter lower) :=
  (s.rows root).entries.map (fun entry => manualConnection s.discovery entry.1 entry.2)

def listDiscoveredExclusions : List (LookupKey lower) :=
  if s.hasRow root then s.exclusions root else []

inductive UpdateResult
  | updated
  | missing
  deriving DecidableEq

variable (character : LookupKey lower)

/-- An exclusion that is there already is no row inserted, and answered as missing; an
include is answered as updated whether or not it deleted one. -/
def setDiscoveredExcluded (excluded : Bool) :
    Dossiers lower × UpdateResult :=
  if excluded then
    if s.hasRow root ∧ character ∉ s.exclusions root then
      (s.setExclusions root (s.exclusions root ++ [character]), .updated)
    else (s, .missing)
  else if s.hasRow root then
    (s.setExclusions root ((s.exclusions root).filter (fun key => key ≠ character)), .updated)
  else (s, .updated)

def setExcluded (excluded : Bool) :
    Dossiers lower × UpdateResult :=
  match (s.rows root).get? character with
  | some row => (s.setRow root character { row with excluded := excluded }, .updated)
  | none => (s, .missing)

inductive AddResult
  | added
  | duplicate
  deriving DecidableEq

/-- The origin and the application of a link that no reviewer made. -/
structure AddOptions where
  origin : LinkOrigin
  applicationId : ℕ

/-- A reviewer's link takes over a row that no reviewer made, with its exclusion. -/
def add (options : Option AddOptions) :
    Dossiers lower × AddResult :=
  if s.hasRow root then
    match (s.rows root).get? character, options with
    | none, none => (s.setRow root character ⟨.dossier, none, false⟩, .added)
    | none, some options =>
      (s.setRow root character
        ⟨options.origin,
          if options.origin = .applicantSheet then some options.applicationId else none, false⟩,
        .added)
    | some row, none =>
      if row.origin ≠ .dossier then
        (s.setRow root character
          { row with origin := .dossier, applicantApplicationId := none }, .duplicate)
      else (s, .duplicate)
    | some _, some _ => (s, .duplicate)
  else (s, .duplicate)

inductive RemoveResult
  | removed
  | missing
  deriving DecidableEq

def remove : Dossiers lower × RemoveResult :=
  match (s.rows root).get? character with
  | some _ =>
    ({ s with
      connections :=
        Function.update s.connections root ((s.connections root).erase character) }, .removed)
  | none => (s, .missing)

variable (target : LookupKey lower)

def currentKeys (d : Discovery lower) (root : LookupKey lower) : List (LookupKey lower) :=
  ((d.getCurrent root).map StoredSnapshot.keys).getD []

/-- The characters a link's own discovery found. -/
def discoveredUnder (d : Discovery lower) (connection : ManualConnectionCharacter lower) :
    List (LookupKey lower) :=
  if connection.pending then [] else currentKeys d connection.key

def isConnectedToDossier : Bool :=
  target.id = root.id ||
    (currentKeys s.discovery root).any (fun key => key.id = target.id) ||
    (list s root).any (fun connection =>
      connection.key.id = target.id ||
        (discoveredUnder s.discovery connection).any (fun key => key.id = target.id))

/-- Every key the dossier holds: its own snapshot's, then each link's and its snapshot's. -/
def dossierKeys : List (LookupKey lower) :=
  currentKeys s.discovery root ++
    (list s root).flatMap (fun connection =>
      connection.key :: discoveredUnder s.discovery connection)

def recordedId (recorded : List (LookupKey lower × ℕ)) (key : LookupKey lower) : Option ℕ :=
  (recorded.find? (fun entry => entry.1.id = key.id)).map Prod.snd

/-- The keys kept when those of another id, and those passed before, are left out. -/
def sharedFrom (idOf : LookupKey lower → Option ℕ) (targetId : ℕ) :
    List CanonicalId → List (LookupKey lower) → List (LookupKey lower)
  | _, [] => []
  | excludedIds, key :: rest =>
    if key.id ∈ excludedIds ∨ idOf key ≠ some targetId then
      sharedFrom idOf targetId excludedIds rest
    else key :: sharedFrom idOf targetId (key.id :: excludedIds) rest

/-- The other keys of the dossier under the target's recorded id, the root left out. -/
def sharedIdentityKeys : List (LookupKey lower) :=
  let keys := dossierKeys s root
  let idOf := recordedId (s.discovery.warcraftLogsCharacterIds (target :: keys))
  match idOf target with
  | none => []
  | some targetId => sharedFrom idOf targetId [root.id, target.id] keys

/-- One name: its link's own flag, else the exclusion of a character the dossier holds. -/
def exclude (excluded : Bool) (key : LookupKey lower) : Dossiers lower × Bool :=
  match setExcluded s root key excluded with
  | (s, .updated) => (s, true)
  | (s, .missing) =>
    if isConnectedToDossier s root key then
      match setDiscoveredExcluded s root key excluded with
      | (s, .updated) => (s, true)
      | (s, .missing) => (s, false)
    else (s, false)

def excludeAll (excluded : Bool) (keys : List (LookupKey lower)) : Dossiers lower :=
  keys.foldl (fun s key => (exclude s root excluded key).1) s

inductive ExclusionResult
  | invalid
  | missing
  | updated
  deriving DecidableEq

/-- The target is the key its URL parses to, if it does. -/
def setConnectedCharacterExclusion (target : Option (LookupKey lower)) (excluded : Bool) :
    Dossiers lower × ExclusionResult :=
  match target with
  | none => (s, .invalid)
  | some target =>
    match exclude s root excluded target with
    | (s, false) => (s, .missing)
    | (s, true) =>
      (excludeAll s root excluded (sharedIdentityKeys s root target), .updated)

/-- How the search that a link starts ended. -/
inductive SearchResult
  | character
  | job
  | refused
  deriving DecidableEq

inductive AddCharacterResult
  | invalid
  | search (result : SearchResult)
  | linked
  | duplicate
  deriving DecidableEq

def addConnectedCharacter (target : Option (LookupKey lower)) (result : SearchResult) :
    Dossiers lower × AddCharacterResult :=
  match target with
  | none => (s, .invalid)
  | some target =>
    if root.id = target.id then (s, .duplicate)
    else
      match result with
      | .refused => (s, .search .refused)
      | .job => ((add s root target none).1, .search .job)
      | .character =>
        match add s root target none with
        | (s, .added) => (s, .linked)
        | (s, .duplicate) => (s, .duplicate)

inductive RemoveCharacterResult
  | invalid
  | removed
  | missing
  deriving DecidableEq

def removeConnectedCharacter (target : Option (LookupKey lower)) :
    Dossiers lower × RemoveCharacterResult :=
  match target with
  | none => (s, .invalid)
  | some target =>
    match remove s root target with
    | (s, .removed) => (s, .removed)
    | (s, .missing) => (s, .missing)

/-- What can happen to the dossiers: a reviewer's calls, a link that the applicant sheet or
the bot makes, and discovery storing what it found. -/
inductive Operation (lower : String → String)
  | addConnectedCharacter (root : LookupKey lower) (target : Option (LookupKey lower))
      (result : SearchResult)
  | removeConnectedCharacter (root : LookupKey lower) (target : Option (LookupKey lower))
  | setConnectedCharacterExclusion (root : LookupKey lower) (target : Option (LookupKey lower))
      (excluded : Bool)
  | addLink (root target : LookupKey lower) (options : AddOptions)
  | discover (discovery : Discovery lower)

def perform (s : Dossiers lower) : Operation lower → Dossiers lower
  | .addConnectedCharacter root target result => (addConnectedCharacter s root target result).1
  | .removeConnectedCharacter root target => (removeConnectedCharacter s root target).1
  | .setConnectedCharacterExclusion root target excluded =>
    (setConnectedCharacterExclusion s root target excluded).1
  | .addLink root target options => (add s root target (some options)).1
  | .discover discovery => { s with discovery := discovery }

def run (s : Dossiers lower) (operations : List (Operation lower)) : Dossiers lower :=
  operations.foldl perform s

end SlashWho.DossierConnections
