import SlashWho.DossierConnections
import SlashWho.EvidenceReservations

/-!
A tier's searches, asked about twice. The dossier shows for each of its characters the newest search
of a tier under any of the character's names; a press reserves a new search under the one name the
character is shown by, unless that name was searched within the spacing. Both read the evidence runs
at one instant, which is a date. The order of two texts is the database's own.
-/

namespace SlashWho.TierSearchStates

open Characters ComparatorSort DossierConnections EvidenceMerge EvidenceRetryPolicy
  EvidenceRuns EvidenceReservations

variable {lower : String → String}

/-- `TIER_SEARCH_SPACING_MS`, in the columns' unit. -/
def tierSearchSpacing : ℕ := 24 * 60 * 60 * 1000 * 1000

/-- The date that is so many milliseconds after the epoch. -/
def date (milliseconds : ℕ) : Instant := milliseconds * 1000

/-! ### What the repository answers -/

/-- A character's newest search of a tier. -/
structure LatestTierSearch where
  key : CharacterKey
  raidId : String
  status : EvidenceRunStatus
  createdAt : Instant
  runId : ℕ

def newestCreated (s : Store) (qualifies : EvidenceRun → Bool) : Option (ℕ × EvidenceRun) :=
  (s.runs.entries.filter (fun entry => qualifies entry.2)).argmax Tables.createdOrder

/-- `WHERE runs.mode = 'tier_search' AND runs.created_at >= $4`, for one name and raid -/
def searchedSince (key : CharacterKey) (raidId : String) (since : Instant) (run : EvidenceRun) :
    Bool :=
  Tables.searchesOf key raidId run && since ≤ run.createdAt

def latestTierSearch (s : Store) (since : Instant) (key : CharacterKey) (raidId : String) :
    Option LatestTierSearch :=
  (newestCreated s (searchedSince key raidId since)).map (fun entry =>
    { key := key
      raidId := raidId
      status := entry.2.status
      createdAt := dateOf entry.2.createdAt
      runId := entry.1 })

variable (collation : String → String → Ordering)

/-- The names and raids that rows were selected for, as `DISTINCT ON` sorts them. -/
def searchedTiers (s : Store) (keys : List CharacterKey) : List (CharacterKey × String) :=
  sortBy (fun a b => (collation a.1.region.code b.1.region.code).then
      ((collation a.1.realm b.1.realm).then
        ((collation a.1.name b.1.name).then (collation a.2 b.2))))
    (((s.runs.values.filter (fun run => run.key ∈ keys)).filterMap
      (fun run => run.mode.tierSearchRaidId.map (fun raidId => (run.key, raidId)))).dedup)

/-- The newest search of each name and raid since an instant. -/
def latestTierSearches (s : Store) (keys : List CharacterKey) (since : Instant) :
    List LatestTierSearch :=
  (searchedTiers collation s keys).filterMap (fun tier =>
    latestTierSearch s since tier.1 tier.2)

def hasCompletedEvidence (s : Store) (key : CharacterKey) : Bool :=
  s.runs.values.any (Tables.isPublished key)

def withCompletedEvidence (s : Store) (keys : List CharacterKey) : List CharacterKey :=
  keys.filter (hasCompletedEvidence s)

inductive TierSearchReservation
  | active (run : ℕ × EvidenceRun)
  | recent (run : ℕ × EvidenceRun)
  | noEvidence
  | reserved (id : ℕ)

/-- A search of one name is reserved under the id the database gives, unless the character
has a run under way, was searched lately or has no evidence to add to. -/
def reserveTierSearch (key : CharacterKey) (raidId : String) (now since : Instant)
    (phasePlan : List String) (id : ℕ) (s : Store) :
    Except Fault TierSearchReservation × Store :=
  if raidId = "" then
    (.error (rangeError "character_evidence_tier_search_raid_invalid"), s)
  else
    match newestCreated s (fun run => run.key = key && run.isActive) with
    | some run => (.ok (.active run), s)
    | none =>
      -- whatever became of the search: one that failed was still paid for
      match newestCreated s (searchedSince key raidId since) with
      | some run => (.ok (.recent run), s)
      | none =>
        if hasCompletedEvidence s key then
          match s.insertRun now id key (.tierSearch raidId) phasePlan with
          | (.error fault, _) => (.error fault, s)
          | (.ok _, inserted) => (.ok (.reserved id), inserted)
        else (.ok .noEvidence, s)

/-! ### What the dossier shows -/

/-- One included dossier character; its aliases are other names merged into it. -/
structure TierSearchSubject (lower : String → String) where
  key : LookupKey lower
  displayName : String
  aliases : List (LookupKey lower)

def TierSearchSubject.names (subject : TierSearchSubject lower) : List (LookupKey lower) :=
  subject.key :: subject.aliases

inductive CharacterSearchState
  | running
  | queued
  | notSearched
  | completed
  | partial_
  | failed
  | noEvidence
  deriving DecidableEq

structure DossierTierSearchCharacter (lower : String → String) where
  key : LookupKey lower
  displayName : String
  state : CharacterSearchState
  searchedAt : Option Instant
  searchableAgainAt : Option Instant

inductive TierSearchState
  | running
  | queued
  | partlySearched
  | searched

structure DossierTierSearch (lower : String → String) where
  state : TierSearchState
  searchedAt : Option Instant
  searchableAgainAt : Option Instant
  characters : List (DossierTierSearchCharacter lower)

def characterState (status : EvidenceRunStatus) (searchableAgainAt now : Instant) :
    CharacterSearchState :=
  match status with
  | .running => .running
  | .queued | .retrying => .queued
  | .complete => if searchableAgainAt ≤ now then .notSearched else .completed
  | .partial_ => if searchableAgainAt ≤ now then .notSearched else .partial_
  | .failed => if searchableAgainAt ≤ now then .notSearched else .failed

variable (subjects : List (TierSearchSubject lower))

/-- Which character each name stands for; a later character takes a name over. -/
def subjectOf : OrderedMap CanonicalId ℕ :=
  OrderedMap.ofList (subjects.zipIdx.flatMap (fun entry =>
    entry.1.names.map (fun key => (key.id, entry.2))))

/-- A search is kept for its raid and character unless one kept there is as new. -/
def keepNewest (newest : OrderedMap String (OrderedMap ℕ LatestTierSearch))
    (item : ℕ × LatestTierSearch) : OrderedMap String (OrderedMap ℕ LatestTierSearch) :=
  let bySubject := (newest.get? item.2.raidId).getD .empty
  newest.set item.2.raidId
    (match bySubject.get? item.1 with
    | none => bySubject.set item.1 item.2
    | some current =>
      if current.createdAt < item.2.createdAt then bySubject.set item.1 item.2 else bySubject)

def filedSearches (latest : List LatestTierSearch) :
    List (ℕ × LatestTierSearch) :=
  latest.filterMap (fun search =>
    ((subjectOf subjects).get? (canonicalCharacterId lower search.key)).map
      (fun index => (index, search)))

/-- Each tier's newest search per character. -/
def newestSearches (latest : List LatestTierSearch) :
    OrderedMap String (OrderedMap ℕ LatestTierSearch) :=
  (filedSearches subjects latest).foldl keepNewest .empty

variable (now : Instant) (withEvidence : Option (List CanonicalId))

variable (subject : TierSearchSubject lower)

def idleState : CharacterSearchState :=
  match withEvidence with
  | none => .notSearched
  | some ids => if subject.key.id ∈ ids then .notSearched else .noEvidence

def idleCharacter : DossierTierSearchCharacter lower where
  key := subject.key
  displayName := subject.displayName
  state := idleState withEvidence subject
  searchedAt := none
  searchableAgainAt := none

def shownCharacter (search : Option LatestTierSearch) :
    DossierTierSearchCharacter lower :=
  match search with
  | none => idleCharacter withEvidence subject
  | some search =>
    let searchableAgainAt := search.createdAt + tierSearchSpacing
    let state := characterState search.status searchableAgainAt now
    if state = .notSearched then idleCharacter withEvidence subject
    else
      { key := subject.key
        displayName := subject.displayName
        state := state
        searchedAt := some search.createdAt
        searchableAgainAt := some searchableAgainAt }

def isIdle (state : CharacterSearchState) : Bool :=
  state = .notSearched || state = .noEvidence

/-- What a tier shows, unless no character has a search of it to show. -/
def tierState (subjects : List (TierSearchSubject lower))
    (bySubject : OrderedMap ℕ LatestTierSearch) : Option (DossierTierSearch lower) :=
  let characters := subjects.zipIdx.map (fun entry =>
    shownCharacter now withEvidence entry.1 (bySubject.get? entry.2))
  let searched := characters.filter (fun character => !isIdle character.state)
  if searched = [] then none
  else some
    { state :=
        if characters.any (fun character => character.state = .running) then .running
        else if characters.any (fun character => character.state = .queued) then .queued
        else if characters.any (fun character => character.state = .notSearched) then
          .partlySearched
        else .searched
      searchedAt := (searched.filterMap DossierTierSearchCharacter.searchedAt).max?
      searchableAgainAt := (searched.filterMap DossierTierSearchCharacter.searchableAgainAt).min?
      characters := characters }

/-- The dossier's view of each tier's searches across its included characters. -/
def tierSearchStates (subjects : List (TierSearchSubject lower))
    (latest : List LatestTierSearch) : OrderedMap String (DossierTierSearch lower) :=
  OrderedMap.ofList ((newestSearches subjects latest).entries.filterMap (fun entry =>
    (tierState now withEvidence subjects entry.2).map (fun state => (entry.1, state))))

/-- The view of a dossier at an instant, from what is stored then. -/
def dossierTierSearches (s : Store) (subjects : List (TierSearchSubject lower)) (now : Instant) :
    OrderedMap String (DossierTierSearch lower) :=
  tierSearchStates now
    (some ((withCompletedEvidence s (subjects.map (fun subject => subject.key.toCharacterKey))).map
      (canonicalCharacterId lower)))
    subjects
    (latestTierSearches collation s
      ((subjects.flatMap TierSearchSubject.names).map LookupKey.toCharacterKey)
      (now - tierSearchSpacing))

/-- What a press at the instant reserves for a key. -/
def pressTierSearch (s : Store) (key : CharacterKey) (raidId : String) (now : Instant)
    (phasePlan : List String) (id : ℕ) : Except Fault TierSearchReservation :=
  (reserveTierSearch key raidId now (now - tierSearchSpacing) phasePlan id s).1

end SlashWho.TierSearchStates
