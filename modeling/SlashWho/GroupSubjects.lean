import SlashWho.ComparatorSort
import SlashWho.FingerprintDiscovery
import SlashWho.GroupPages
import SlashWho.KeyedBuckets

/-!
The subjects of a group page: its members and the manual targets not discovered yet, in
rank order, folded where a Warcraft Logs id is shared, and split into those selected,
skipped past the ceiling and excluded. Each is placed once, the origin first, and an
excluded one takes no place below the ceiling. Lower-casing, the collation of names and
the labels of the paths are parameters.
-/

namespace SlashWho.GroupSubjects

open Characters ComparatorSort GroupPages KeyedBuckets
open FingerprintDiscovery (toRaiderIoUrl)

inductive SubjectSource
  | input
  | claimed
  | fingerprint
  | manuallyAdded
  deriving DecidableEq

structure RankedSubject where
  key : CharacterKey
  displayName : String
  className : Option String
  guild : Option CharacterGuild
  raiderIoUrl : String
  level : ℕ
  source : SubjectSource
  warcraftLogsAliases : Option (List CharacterKey)
  deriving DecidableEq

structure Research where
  state : SnapshotState
  limitationCodes : List String

structure Subjects where
  selected : List RankedSubject
  skipped : List RankedSubject
  excluded : List RankedSubject
  research : Research

variable {T : Type} [DecidableEq T] (lower : String → String) (keyOf : T → CharacterKey)

/-- Under what candidates are folded together. -/
inductive IdentityName
  | key (id : CanonicalId)
  | wcl (characterId : ℕ)
  deriving DecidableEq

structure SharedIdentityGroup (T : Type) where
  primary : T
  aliases : List T

def identityName (recorded : List (CharacterKey × ℕ)) (candidate : T) : IdentityName :=
  let id := canonicalCharacterId lower (keyOf candidate)
  match (OrderedMap.ofList (recorded.map (fun entry =>
      (canonicalCharacterId lower entry.1, entry.2)))).get? id with
  | none => .key id
  | some characterId => .wcl characterId

/-- The candidates are distinct objects; a group is never empty, so `choosePrimary`
answers one of it. -/
def groupBySharedWarcraftLogsId (candidates : List T) (recorded : List (CharacterKey × ℕ))
    (choosePrimary : List T → Option T) : List (SharedIdentityGroup T) :=
  (bucketsBy (identityName lower keyOf recorded) candidates).values.filterMap (fun all =>
    (choosePrimary all).map (fun primary =>
      ⟨primary, all.filter (fun member => member ≠ primary)⟩))

variable {lower : String → String} (localeCompare : String → String → Ordering)
  (pathStrengths : String → List StrengthLink → OrderedMap String LinkStrength)

/-- Highest level first, then by region, realm and name. -/
def compareByLevelThenKey (left right : RankedSubject) : Ordering :=
  (compare right.level left.level).then
    ((localeCompare left.key.region.code right.key.region.code).then
      ((localeCompare left.key.realm right.key.realm).then
        (localeCompare left.key.name right.key.name)))

def sourceFor : LinkStrength → SubjectSource
  | .raiderio => .claimed
  | .fingerprint => .fingerprint
  | .manual => .manuallyAdded

variable (graph : GroupGraph lower) (originKey : CharacterKey) (originId : String)

variable (members : List String)

def memberStrengths : OrderedMap String LinkStrength :=
  pathStrengths originId
    (graph.links.filter (fun link => link.a ∈ members && link.b ∈ members))

/-- A member as a subject; every member of a page has a row. -/
def subject (strengths : OrderedMap String LinkStrength) (id : String) : Option RankedSubject :=
  (graph.characters.get? id).map (fun character =>
    { key := character.key
      displayName := character.displayName
      className := some character.className
      guild := none
      raiderIoUrl := character.raiderIoUrl
      level := character.level
      source :=
        if id = originId then .input
        else sourceFor ((strengths.get? id).getD .fingerprint)
      warcraftLogsAliases := none })

def isSelfExclusion (makerId targetId : String) : Bool := targetId ∈ graph.sharedIdentity makerId

def excludedIds : List String :=
  (((graph.manual.filter (fun row =>
      row.excluded && row.makerId ∈ members &&
        !isSelfExclusion graph row.makerId row.targetId)).map ManualRow.targetId) ++
    ((graph.discoveredExclusions.filter (fun row =>
      row.makerId ∈ members && !isSelfExclusion graph row.makerId row.targetId)).map
        DiscoveredExclusion.targetId)).filter (fun id => id ≠ originId)

/-- The rows of a page's manual targets that no character has been found for. -/
def undiscoveredRows : List UndiscoveredManualTarget :=
  graph.undiscoveredManualTargets.filter (fun row =>
    row.makerId ∈ members && (graph.idOf row.targetKey).isNone)

def undiscoveredSubject (row : UndiscoveredManualTarget) : RankedSubject where
  key := row.targetKey
  displayName := row.targetKey.name
  className := none
  guild := none
  raiderIoUrl := toRaiderIoUrl row.targetKey
  level := 0
  source := .manuallyAdded
  warcraftLogsAliases := none

/-- A target that two makers added is listed as its first row gives it. -/
def addUndiscovered (lower : String → String) (subjects : OrderedMap CanonicalId RankedSubject)
    (row : UndiscoveredManualTarget) : OrderedMap CanonicalId RankedSubject :=
  let canonical := canonicalCharacterId lower row.targetKey
  if subjects.has canonical then subjects
  else subjects.set canonical (undiscoveredSubject row)

def undiscovered : OrderedMap CanonicalId RankedSubject :=
  (undiscoveredRows graph members).foldl (addUndiscovered lower) .empty

def undiscoveredExcluded : List CanonicalId :=
  ((undiscoveredRows graph members).filter UndiscoveredManualTarget.excluded).map
    (fun row => canonicalCharacterId lower row.targetKey)

def isOrigin (lower : String → String) (originKey : CharacterKey) (candidate : RankedSubject) :
    Bool :=
  canonicalCharacterId lower candidate.key = canonicalCharacterId lower originKey

def compareRanked (lower : String → String) (originKey : CharacterKey)
    (left right : RankedSubject) : Ordering :=
  (compare (isOrigin lower originKey right).toNat (isOrigin lower originKey left).toNat).then
    (compareByLevelThenKey localeCompare left right)

def candidates : List RankedSubject :=
  members.filterMap (subject graph originId (memberStrengths pathStrengths graph originId members))
    ++ (undiscovered graph members).values

def ordered : List RankedSubject :=
  sortBy (compareRanked localeCompare lower originKey)
    (candidates pathStrengths graph originId members)

def recorded : List (CharacterKey × ℕ) :=
  members.filterMap (fun id =>
    (graph.warcraftLogsIds.get? id).bind (fun wcl =>
      (graph.characters.get? id).map (fun character => (character.key, wcl))))

def idByCanonical : OrderedMap CanonicalId String :=
  .ofList (members.filterMap (fun id =>
    (graph.characters.get? id).map (fun character =>
      (canonicalCharacterId lower character.key, id))))

def excludedSubject (candidate : RankedSubject) : Bool :=
  let canonical := canonicalCharacterId lower candidate.key
  ((idByCanonical graph members).get? canonical).getD "" ∈ excludedIds graph originId members ||
    canonical ∈ undiscoveredExcluded graph members

def choosePrimary (group : List RankedSubject) : Option RankedSubject :=
  (group.find? (isOrigin lower originKey)).or
    ((group.find? (excludedSubject graph originId members)).or group.head?)

def identities : List (SharedIdentityGroup RankedSubject) :=
  groupBySharedWarcraftLogsId lower RankedSubject.key
    (ordered localeCompare pathStrengths graph originKey originId members)
    (recorded graph members) (choosePrimary graph originKey originId members)

def rowOf (identity : SharedIdentityGroup RankedSubject) : RankedSubject :=
  if identity.aliases.isEmpty then identity.primary
  else { identity.primary with warcraftLogsAliases := some (identity.aliases.map RankedSubject.key) }

def isExcluded (identity : SharedIdentityGroup RankedSubject) : Bool :=
  !isOrigin lower originKey identity.primary &&
    (identity.primary :: identity.aliases).any (excludedSubject graph originId members)

def included : List RankedSubject :=
  ((identities localeCompare pathStrengths graph originKey originId members).filter (fun identity =>
    !isExcluded graph originKey originId members identity)).map rowOf

def excluded : List RankedSubject :=
  ((identities localeCompare pathStrengths graph originKey originId members).filter
    (isExcluded graph originKey originId members)).map rowOf

def research : Research :=
  let contributing := members.filterMap graph.latestSnapshot.get?
  { state :=
      if contributing.all (fun snapshot => snapshot.state = .complete) &&
          (graph.latestSnapshot.get? originId).any (fun snapshot => snapshot.state = .complete) then
        .complete
      else .partial_
    limitationCodes :=
      sortBy text (contributing.filterMap (fun snapshot =>
        snapshot.limitationCode.filter (fun code => code ≠ ""))).eraseDups }

/-- None where the origin is no character or a suppressed one. -/
def resolveGroupSubjects (ceiling : ℕ) : Option Subjects :=
  match graph.idOf originKey with
  | none => none
  | some originId =>
    if originId ∈ graph.suppressed then none
    else
      let members := pageMembers graph originId
      let included := included localeCompare pathStrengths graph originKey originId members
      some
        { selected := included.take ceiling
          skipped := included.drop ceiling
          excluded := sortBy (compareByLevelThenKey localeCompare)
            (excluded localeCompare pathStrengths graph originKey originId members)
          research := research graph originId members }

end SlashWho.GroupSubjects
