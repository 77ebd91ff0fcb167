import Mathlib.Data.Finset.Sort
import Mathlib.Order.Lattice.Nat
import SlashWho.Characters
import SlashWho.OrderedMap

/-!
The writer of observed links. One transaction takes a run's published sets,
decides each source family on its own, and either adds to the observer's links
or replaces them. A marker per observer and family keeps a delayed, older write
from undoing a newer one, and every family write leaves one ledger row. Instants
are the database's microseconds; a write that throws leaves the tables as they
were.
-/

namespace SlashWho.CharacterConnections

open Characters

inductive ConnectionFamily
  | raiderio
  | fingerprint
  deriving DecidableEq

inductive ObservationSource
  | claimed
  | declaredMain
  | profileGuess
  | fingerprint
  deriving DecidableEq

def familyOf (source : ObservationSource) : ConnectionFamily :=
  if source = .fingerprint then .fingerprint else .raiderio

def allObservationSources : List ObservationSource :=
  [.claimed, .declaredMain, .profileGuess, .fingerprint]

def sourcesForFamily (family : ConnectionFamily) : List ObservationSource :=
  allObservationSources.filter (fun source => familyOf source = family)

@[simp] theorem mem_sourcesForFamily (source : ObservationSource) (family : ConnectionFamily) :
    source ∈ sourcesForFamily family ↔ familyOf source = family := by
  cases source <;> simp [sourcesForFamily, allObservationSources]

inductive LedgerDecision
  | addedOnly
  | replaced
  | blocked
  deriving DecidableEq

inductive LedgerReason
  | raiderioComplete
  | raiderioLimited
  | privacyHidden
  | capped
  | matched
  | unread
  | skippedGuild
  | liveSweepCompletion
  | blockedByNewer
  | backfill
  | rebuild
  deriving DecidableEq

/-- What a family write may decide: only the marker blocks one. -/
inductive WriteDecision
  | addedOnly
  | replaced
  deriving DecidableEq

def WriteDecision.toLedger : WriteDecision → LedgerDecision
  | .addedOnly => .addedOnly
  | .replaced => .replaced

structure FamilyDecision where
  decision : WriteDecision
  reason : LedgerReason

def raiderIoDecision (limitationCode : Option String) : FamilyDecision :=
  if limitationCode = none then ⟨.replaced, .raiderioComplete⟩
  else if limitationCode = some "privacy_hidden" then ⟨.addedOnly, .privacyHidden⟩
  else ⟨.addedOnly, .raiderioLimited⟩

inductive SweepKind
  | matched
  | capped
  deriving DecidableEq

structure SweepFacts where
  kind : SweepKind
  unreadRoot : Bool
  skippedHistoricalGuilds : ℕ

def fingerprintDecision (sweep : SweepFacts) : FamilyDecision :=
  if sweep.skippedHistoricalGuilds > 0 then ⟨.addedOnly, .skippedGuild⟩
  else if sweep.kind = .capped then ⟨.addedOnly, .capped⟩
  else if sweep.unreadRoot then ⟨.addedOnly, .unread⟩
  else ⟨.replaced, .matched⟩

/-! The tables. Only observed links are written here; rejected ones are never touched. -/

structure CharacterRow where
  id : ℕ
  key : CharacterKey

structure DiscoveryRun where
  id : ℕ
  rootKey : CharacterKey
  startedAt : Option ℕ
  createdAt : ℕ

def DiscoveryRun.runStartedAt (run : DiscoveryRun) : ℕ := run.startedAt.getD run.createdAt

structure Connection where
  lowId : ℕ
  highId : ℕ
  source : ObservationSource
  observerId : ℕ
  runId : ℕ
  observedAt : ℕ
  deriving DecidableEq

structure Marker where
  observerId : ℕ
  family : ConnectionFamily
  runId : ℕ
  runStartedAt : ℕ
  deriving DecidableEq

structure LedgerRow where
  runId : ℕ
  sweepReservationId : Option ℕ
  observerId : ℕ
  family : ConnectionFamily
  decision : LedgerDecision
  reason : LedgerReason
  runStartedAt : ℕ
  writtenAt : ℕ
  deriving DecidableEq

structure ConnectionTables where
  characters : List CharacterRow
  runs : List DiscoveryRun
  connections : List Connection
  writes : List Marker
  writeLog : List LedgerRow

structure ObservedItem where
  key : CharacterKey
  source : ObservationSource
  deriving DecidableEq

structure FamilyObservationWrite where
  family : ConnectionFamily
  decision : WriteDecision
  reason : LedgerReason
  observed : List ObservedItem
  sweepReservationId : Option ℕ

structure ObservationWriteInput where
  runId : ℕ
  observerKey : CharacterKey
  families : List FamilyObservationWrite

structure ObservationWriteResult where
  changedCharacterIds : List ℕ
  unknownCharacters : ℕ

inductive ConnectionError
  | runMissing
  | runRootMismatch
  | observerMissing
  | familyMismatch
  deriving DecidableEq

/-- What stays fixed while one transaction writes its families. -/
structure WriteContext where
  runId : ℕ
  observerId : ℕ
  runStartedAt : ℕ
  now : ℕ
  ids : OrderedMap CanonicalId ℕ

/-- The tables as written so far, with the ids whose links changed. -/
structure WriteProgress where
  tables : ConnectionTables
  changed : Finset ℕ
  unknownCharacters : ℕ

variable (lower : String → String)

/-- Existing character ids by canonical key. -/
def characterIds (t : ConnectionTables) (keys : List CharacterKey) :
    OrderedMap CanonicalId ℕ :=
  .ofList ((t.characters.filter (fun row => row.key ∈ keys)).map
    (fun row => (canonicalCharacterId lower row.key, row.id)))

variable (t : ConnectionTables)

def findMarker (observerId : ℕ) (family : ConnectionFamily) :
    Option Marker :=
  t.writes.find? (fun marker => marker.observerId = observerId ∧ marker.family = family)

def blockedByNewer (observerId : ℕ) (family : ConnectionFamily) (runStartedAt : ℕ) : Bool :=
  (findMarker t observerId family).any (fun marker => marker.runStartedAt > runStartedAt)

/-- Appends the ledger row, stamped with the clock at this insert. -/
def logWrite (clock : ℕ → ℕ) (ctx : WriteContext) (family : FamilyObservationWrite)
    (decision : LedgerDecision) (reason : LedgerReason) (t : ConnectionTables) :
    ConnectionTables :=
  { t with
    writeLog := t.writeLog ++ [{
      runId := ctx.runId
      sweepReservationId := family.sweepReservationId
      observerId := ctx.observerId
      family := family.family
      decision := decision
      reason := reason
      runStartedAt := ctx.runStartedAt
      writtenAt := clock t.writeLog.length }] }

/-- Whether the run's ledger says one of its fingerprint writes skipped a guild. -/
def skippedGuildLogged (runId observerId : ℕ) : Bool :=
  t.writeLog.any (fun row => row.runId = runId ∧ row.observerId = observerId ∧
    row.family = .fingerprint ∧ row.reason = .skippedGuild)

/-- The decision a family write goes by: a seal after a cycle that logged a
skipped guild only adds. -/
def decided (ctx : WriteContext) (family : FamilyObservationWrite) :
    FamilyDecision :=
  if family.family = .fingerprint ∧ family.decision = .replaced ∧
      skippedGuildLogged t ctx.runId ctx.observerId then
    ⟨.addedOnly, .skippedGuild⟩
  else ⟨family.decision, family.reason⟩

/-- Whether a row is the observation the unique index keeps one of. -/
def Connection.Observes (row : Connection) (observerId otherId : ℕ)
    (source : ObservationSource) : Prop :=
  row.lowId = min observerId otherId ∧ row.highId = max observerId otherId ∧
    row.source = source ∧ row.observerId = observerId

instance (row : Connection) (observerId otherId : ℕ) (source : ObservationSource) :
    Decidable (row.Observes observerId otherId source) :=
  inferInstanceAs (Decidable (_ ∧ _))

/-- A link seen again: the newest sighting gives its time, and names its run. -/
def Connection.renew (runId now : ℕ) (row : Connection) : Connection :=
  { row with
    observedAt := max row.observedAt now
    runId := if now ≥ row.observedAt then runId else row.runId }

/-- The links with one observation written, and whether it is a new one. -/
def upsertObservation (rows : List Connection) (ctx : WriteContext) (otherId : ℕ)
    (source : ObservationSource) : List Connection × Bool :=
  if rows.any (fun row => row.Observes ctx.observerId otherId source) then
    (rows.map (fun row =>
      if row.Observes ctx.observerId otherId source then row.renew ctx.runId ctx.now else row),
      false)
  else
    (rows ++ [{
      lowId := min ctx.observerId otherId
      highId := max ctx.observerId otherId
      source := source
      observerId := ctx.observerId
      runId := ctx.runId
      observedAt := ctx.now }], true)

def observeItem (ctx : WriteContext) (family : ConnectionFamily) (p : WriteProgress)
    (item : ObservedItem) : Except ConnectionError WriteProgress :=
  if familyOf item.source ≠ family then .error .familyMismatch
  else
    match ctx.ids.get? (canonicalCharacterId lower item.key) with
    | none => .ok { p with unknownCharacters := p.unknownCharacters + 1 }
    | some otherId =>
      if otherId = ctx.observerId then .ok p
      else
        let (rows, created) := upsertObservation p.tables.connections ctx otherId item.source
        .ok { p with
          tables := { p.tables with connections := rows }
          changed := if created then insert ctx.observerId (insert otherId p.changed)
            else p.changed }

/-- Whether a `replaced` write deletes the row: the observer's, of the family,
last seen by another run before this run started. -/
def retracted (ctx : WriteContext) (family : ConnectionFamily) (row : Connection) : Bool :=
  row.observerId = ctx.observerId ∧ row.source ∈ sourcesForFamily family ∧
    row.runId ≠ ctx.runId ∧ row.observedAt < ctx.runStartedAt

def retract (ctx : WriteContext) (family : ConnectionFamily) (p : WriteProgress) :
    WriteProgress :=
  let removed := p.tables.connections.filter (retracted ctx family)
  { p with
    tables := { p.tables with
      connections := p.tables.connections.filter (fun row => !retracted ctx family row) }
    changed := p.changed ∪ (removed.map Connection.lowId).toFinset ∪
      (removed.map Connection.highId).toFinset }

/-- Moves the marker to this run, never backwards. -/
def writeMarker (ctx : WriteContext) (family : ConnectionFamily) (t : ConnectionTables) :
    ConnectionTables :=
  if (findMarker t ctx.observerId family).isSome then
    { t with
      writes := t.writes.map (fun marker =>
        if marker.observerId = ctx.observerId ∧ marker.family = family then
          { marker with
            runId := if ctx.runStartedAt ≥ marker.runStartedAt then ctx.runId else marker.runId
            runStartedAt := max marker.runStartedAt ctx.runStartedAt }
        else marker) }
  else { t with writes := t.writes ++ [⟨ctx.observerId, family, ctx.runId, ctx.runStartedAt⟩] }

def writeFamily (clock : ℕ → ℕ) (ctx : WriteContext) (p : WriteProgress)
    (family : FamilyObservationWrite) :
    Except ConnectionError WriteProgress :=
  if blockedByNewer p.tables ctx.observerId family.family ctx.runStartedAt then
    .ok { p with tables := logWrite clock ctx family .blocked .blockedByNewer p.tables }
  else do
    let verdict := decided p.tables ctx family
    let p ← family.observed.foldlM (observeItem lower ctx family.family) p
    let p := if verdict.decision = .replaced then retract ctx family.family p else p
    let tables := writeMarker ctx family.family p.tables
    .ok { p with
      tables := logWrite clock ctx family verdict.decision.toLedger verdict.reason tables }

/-- One write of a run's published sets, by the database's clock: `now` is the
transaction's start and `clock n` the reading at the `n`th ledger insert. -/
def writeObservations (clock : ℕ → ℕ) (t : ConnectionTables) (now : ℕ)
    (input : ObservationWriteInput) :
    Except ConnectionError (ConnectionTables × ObservationWriteResult) := do
  match t.runs.find? (fun run => run.id = input.runId) with
  | none => .error .runMissing
  | some run =>
    if canonicalCharacterId lower run.rootKey ≠ canonicalCharacterId lower input.observerKey then
      .error .runRootMismatch
    else
      let ids := characterIds lower t (input.observerKey ::
        input.families.flatMap (fun family => family.observed.map ObservedItem.key))
      match ids.get? (canonicalCharacterId lower input.observerKey) with
      | none => .error .observerMissing
      | some observerId =>
        let ctx : WriteContext := ⟨input.runId, observerId, run.runStartedAt, now, ids⟩
        let p ← input.families.foldlM (writeFamily lower clock ctx) ⟨t, ∅, 0⟩
        .ok (p.tables, ⟨(insert observerId p.changed).sort (· ≤ ·), p.unknownCharacters⟩)

end SlashWho.CharacterConnections
