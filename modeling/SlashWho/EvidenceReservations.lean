import SlashWho.ComparatorSort
import SlashWho.EvidenceRuns

/-!
What is due to be collected again, asked twice: the resume sweep lists the characters
with something due, and a reservation decides for one of them whether its evidence is
fresh. Both read the evidence runs and the alias re-collections that are asked for. The
columns hold microseconds; a date read from one drops what is below a millisecond, and
the instant both are asked at is a date.
-/

namespace SlashWho.EvidenceReservations

open Characters ComparatorSort EvidenceMerge EvidenceRetryPolicy EvidenceRuns

/-- The runs, the evidence version each was collected with, and when each character's
aliases were last asked to be collected again. -/
structure Tables where
  store : Store
  evidenceVersions : ℕ → ℕ
  aliasRecollections : CharacterKey → Option Instant

def CURRENT_EVIDENCE_VERSION : ℕ := 15

/-- A date keeps whole milliseconds of a column. -/
def dateOf (column : Instant) : Instant := column - column % 1000

def cooldown : ℕ := 30 * 60 * 1000 * 1000

/-! ### What speaks for a character -/

structure CompletedEvidenceSelection where
  run : ℕ × EvidenceRun
  evidenceVersion : ℕ
  snapshotRunId : ℕ

namespace Tables
variable (t : Tables) (key : CharacterKey)

def isPublished (run : EvidenceRun) : Bool := run.key = key && run.status.published.isSome

def latestFull : Option (ℕ × EvidenceRun) :=
  t.store.newestCompleted (fun run => isPublished key run && run.publicationScope = .full)

/-- The newest publication holds the snapshot; the newest full one, its completion. -/
def loadCompletedEvidenceSelection : Option CompletedEvidenceSelection :=
  (t.store.newestCompleted (isPublished key)).map (fun snapshot =>
    let run :=
      if snapshot.2.publicationScope = .tier then (t.latestFull key).getD snapshot else snapshot
    { run := run
      evidenceVersion := t.evidenceVersions run.1
      snapshotRunId := snapshot.1 })

/-! ### Ranked walks that were capped -/

def createdOrder (entry : ℕ × EvidenceRun) : Instant ×ₗ ℕ := toLex (entry.2.createdAt, entry.1)

def searchesOf (raidId : String) (run : EvidenceRun) : Bool :=
  run.key = key && run.mode = .tierSearch raidId

def searchedRaids : List String :=
  ((t.store.runs.values.filter (isPublished key)).filterMap
    (fun run => run.mode.tierSearchRaidId)).eraseDups

def latestSearch (raidId : String) : Option (ℕ × EvidenceRun) :=
  (t.store.runs.entries.filter (fun entry =>
    searchesOf key raidId entry.2 && entry.2.status.published.isSome)).argmax createdOrder

/-- When a capped walk was to be tried again. -/
def cappedRetry (search : EvidenceRun) : Option Instant :=
  if search.status = .partial_ && search.rankedBackfillAttempted &&
      search.rankedBackfillCursor.isSome then search.retryAfterAt
  else none

/-- When the failures since a search came. -/
def failuresSince (raidId : String) (search : EvidenceRun) : List Instant :=
  (t.store.runs.values.filter (fun run => searchesOf key raidId run && run.status = .failed &&
    search.createdAt < run.createdAt)).filterMap EvidenceRun.completedAt

end Tables

/-! ### A reservation -/

structure RankedContinuation where
  raidId : String
  retryAfterAt : Instant
  dueAt : Instant

/-- What a reservation is asked for. A caller may prepare the run by what is stored. -/
structure ReserveInput where
  key : CharacterKey
  freshnessCutoff : Instant
  now : Instant
  phasePlan : List String
  lightRefresh : Bool
  prepareNewRun : Option (Option CompletedEvidenceSelection → Bool)

inductive Reservation
  | fresh (completed : CompletedEvidenceSelection) (active : Option (ℕ × EvidenceRun))
      (tierSearchResumesAt : Option Instant)
  | active (run : ℕ × EvidenceRun) (completed : Option CompletedEvidenceSelection)
  | reserved (id : ℕ) (lightRefresh : Bool) (completed : Option CompletedEvidenceSelection)
      (completedVersionCurrent : Bool)

def isEvidenceFresh (completedAt : Instant) (retryAfterAt : Option Instant)
    (freshnessCutoff now : Instant) : Bool :=
  freshnessCutoff ≤ completedAt &&
    match retryAfterAt with
    | none => true
    | some retryAfterAt => now < retryAfterAt

variable (collation : String → String → Ordering) (t : Tables)

/-- The later of a walk's retry and the end of what its failures wait for. -/
def continuationOf (key : CharacterKey) (raidId : String) : Option RankedContinuation := do
  let search ← t.latestSearch key raidId
  let retryAfterAt ← Tables.cappedRetry search.2
  let failed := (t.failuresSince key raidId search.2).foldl max 0
  let dueAt := if t.failuresSince key raidId search.2 = [] then retryAfterAt
    else max retryAfterAt (failed + cooldown)
  some ⟨raidId, retryAfterAt, dateOf dueAt⟩

def rankedContinuations (key : CharacterKey) : List RankedContinuation :=
  sortBy (fun a b => (compare a.retryAfterAt b.retryAfterAt).then (collation a.raidId b.raidId))
    ((t.searchedRaids key).filterMap (continuationOf t key))

def activeOf (key : CharacterKey) : Option (ℕ × EvidenceRun) :=
  (t.store.runs.entries.filter (fun entry => entry.2.key = key && entry.2.isActive)).argmax
    Tables.createdOrder

def isFresh (completed : CompletedEvidenceSelection) (freshnessCutoff now : Instant) : Bool :=
  decide (CURRENT_EVIDENCE_VERSION ≤ completed.evidenceVersion) &&
    match completed.run.2.completedAt with
    | none => false
    | some completedAt => isEvidenceFresh (dateOf completedAt)
        (completed.run.2.retryAfterAt.map dateOf) freshnessCutoff now

/-- The request is taken back as the run that reads the aliases is reserved. -/
def consumeAliasRecollection (key : CharacterKey) : Tables :=
  if (t.aliasRecollections key).isSome then
    { t with
      store := t.store.invalidateHistoricAliasKillScan key
      aliasRecollections := Function.update t.aliasRecollections key none }
  else t

/-- A character's evidence is fresh, or under way, or a run of it is reserved under the
id and at the instant the database gives. -/
def reserve (input : ReserveInput) (id : ℕ) (createdAt : Instant) :
    Except Fault Reservation × Tables :=
  let completed := t.loadCompletedEvidenceSelection input.key
  let continuations := rankedContinuations collation t input.key
  let continuation := continuations.find? (fun row => row.dueAt ≤ input.now)
  let resumesAt := ((continuations.map RankedContinuation.dueAt).filter
    (fun dueAt => input.now < dueAt)).min?
  match completed with
  | some selection =>
    if isFresh selection input.freshnessCutoff input.now &&
        (t.aliasRecollections input.key).isNone && continuation.isNone then
      (.ok (.fresh selection (activeOf t input.key) resumesAt), t)
    else insertReservation completed continuation
  | none => insertReservation completed continuation
where
  insertReservation (completed : Option CompletedEvidenceSelection)
      (continuation : Option RankedContinuation) : Except Fault Reservation × Tables :=
    match activeOf t input.key with
    | some run => (.ok (.active run completed), t)
    | none =>
      let consumed := consumeAliasRecollection t input.key
      -- a continuation is its own mode, never a light refresh
      let light := continuation.isNone &&
        match input.prepareNewRun with
        | some prepare => prepare completed
        | none => input.lightRefresh
      let mode := match continuation with
        | some row => .tierSearch row.raidId
        | none => .full
      match consumed.store.insertRun createdAt id input.key mode input.phasePlan with
      | (.error fault, _) => (.error fault, t)
      | (.ok _, store) =>
        (.ok (.reserved id light completed (completed.any (fun selection =>
          CURRENT_EVIDENCE_VERSION ≤ selection.evidenceVersion))), { consumed with store := store })

/-! ### The resume sweep's list -/

namespace Tables
variable (t : Tables) (now : Instant) (key : CharacterKey)

/-- The retry of the newest full publication, unless it is a capped ranked walk's. -/
def publicationDue : List Instant :=
  match t.latestFull key with
  | none => []
  | some latest =>
    if latest.2.mode.tierSearchRaidId.isSome && latest.2.rankedBackfillCursor.isSome then []
    else (latest.2.retryAfterAt.toList).filter (fun dueAt => dueAt ≤ now)

/-- The retry of a capped walk with no failure since within the cooldown. -/
def continuationDue (raidId : String) : List Instant :=
  match t.latestSearch key raidId with
  | none => []
  | some search =>
    ((cappedRetry search.2).toList).filter (fun dueAt => dueAt ≤ now &&
      !(t.failuresSince key raidId search.2).any (fun failedAt =>
        decide ((now : ℤ) - cooldown < failedAt)))

def dueTimes : List Instant :=
  t.publicationDue now key ++ (t.searchedRaids key).flatMap (t.continuationDue now key) ++
    (t.aliasRecollections key).toList.filter (fun requestedAt => requestedAt ≤ now)

/-- Something is due and nothing is under way. -/
def Resumable : Prop := t.dueTimes now key ≠ [] ∧ t.store.hasActive key = false

/-- A list of characters to resume: as many as fit of those that are, the longest due first. -/
def IsListing (limit : ℕ) (keys : List CharacterKey) : Prop :=
  ∃ all : List CharacterKey, all.Nodup ∧ (∀ key, key ∈ all ↔ t.Resumable now key) ∧
    all.Pairwise (fun a b => (t.dueTimes now a).min?.getD 0 ≤ (t.dueTimes now b).min?.getD 0) ∧
    keys = all.take limit

end Tables

end SlashWho.EvidenceReservations
