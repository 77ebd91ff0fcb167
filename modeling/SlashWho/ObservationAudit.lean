import SlashWho.CharacterConnections

/-!
The replay of the observation ledger. It reads links and ledger rows with times
cut to a `Date`'s milliseconds and reports what the writes cannot explain:
publications with no ledger row, members never observed, links no logged run
accounts for, and links a newer `replaced` write should have deleted.
-/

namespace SlashWho.ObservationAudit

open Characters CharacterConnections

structure ReplayFinding where
  check : String
  detail : String

/-- Something that owes the ledger a row: a completed run, or a published reservation. -/
inductive PublicationKind
  | run
  | reservation (reservationId : ℕ)

structure Publication where
  kind : PublicationKind
  runId : ℕ
  observerId : ℕ
  at_ : ℕ

structure CharacterGroupsAudit where
  now : ℕ
  characters : List CharacterRow
  suppressed : List ℕ
  observations : List Connection
  ledger : List LedgerRow
  publications : List Publication
  latestRawMembership : List (ℕ × List ℕ)

/-- A database instant as a `Date`: whole milliseconds. -/
def getTime (micros : ℕ) : ℕ := micros / 1000

def loadObservations (t : ConnectionTables) : List Connection :=
  t.connections.map (fun row => { row with observedAt := getTime row.observedAt })

def loadLedger (t : ConnectionTables) : List LedgerRow :=
  t.writeLog.map (fun row =>
    { row with runStartedAt := getTime row.runStartedAt, writtenAt := getTime row.writtenAt })

def pendingMs : ℕ := 10 * 60 * 1000

def formatKey (key : CharacterKey) : String :=
  key.region.code ++ "/" ++ key.realm ++ "/" ++ key.name

variable (audit : CharacterGroupsAudit)

/-- Names a character by key, and a suppressed one only as "(suppressed)". -/
def describer (id : ℕ) : String :=
  if id ∈ audit.suppressed then "(suppressed)"
  else
    match audit.characters.find? (fun row => row.id = id) with
    | some character => formatKey character.key
    | none => "(unknown)"

def familyOfSource (source : ObservationSource) : ConnectionFamily :=
  if source = .fingerprint then .fingerprint else .raiderio

def familyText : ConnectionFamily → String
  | .raiderio => "raiderio"
  | .fingerprint => "fingerprint"

/-- Checks start at the newest row that re-seeded every observer. -/
def windowStart : ℕ :=
  ((audit.ledger.filter (fun row => row.reason = .backfill ∨ row.reason = .rebuild)).map
    LedgerRow.writtenAt).foldl max 0

/-- Whether a publication is so recent its write may still be pending. -/
def Publication.young (publication : Publication) : Bool :=
  publication.at_ + pendingMs > audit.now

def settledPublications : List Publication :=
  audit.publications.filter (fun publication =>
    publication.at_ > windowStart audit ∧ publication.young audit = false)

def owesNothing (publication : Publication) : Bool :=
  match publication.kind with
  | .run => audit.ledger.any (fun row => row.family = .raiderio ∧ row.runId = publication.runId)
  | .reservation reservationId => audit.ledger.any (fun row =>
      row.family = .fingerprint ∧ row.sweepReservationId = some reservationId)

/-- (a) Every publication in the window has its ledger row. -/
def completenessFindings : List ReplayFinding :=
  ((settledPublications audit).filter (fun publication => !owesNothing audit publication)).map
    (fun publication => {
      check := "a_completeness"
      detail :=
        (match publication.kind with
          | .run => "run " ++ toString publication.runId
          | .reservation reservationId => "reservation " ++ toString reservationId) ++
        " for " ++ describer audit publication.observerId })

def observedBy (rootId memberId : ℕ) : Bool :=
  audit.observations.any (fun row =>
    row.observerId = rootId ∧ (row.lowId = memberId ∨ row.highId = memberId))

/-- (b) Every latest-snapshot member has an observation from its root. -/
def presenceFindings : List ReplayFinding :=
  (audit.latestRawMembership.filter (fun entry =>
    !audit.publications.any (fun publication =>
      publication.young audit ∧ publication.observerId = entry.1))).flatMap
    (fun entry =>
      (entry.2.filter (fun memberId => memberId ≠ entry.1 ∧
        observedBy audit entry.1 memberId = false)).map
        (fun memberId => {
          check := "b_presence"
          detail := describer audit memberId ++ " from " ++ describer audit entry.1 }))

def logged (ledger : List LedgerRow) (row : Connection) : Bool :=
  ledger.any (fun entry => entry.runId = row.runId ∧ entry.observerId = row.observerId ∧
    entry.family = familyOfSource row.source)

/-- (c) Every observation's run has a ledger row for its observer and family. -/
def provenanceFindings : List ReplayFinding :=
  (audit.observations.filter (fun row => !logged audit.ledger row)).map
    (fun row => {
      check := "c_provenance"
      detail := familyText (familyOfSource row.source) ++ " run " ++ toString row.runId ++
        " observed by " ++ describer audit row.observerId })

/-- Ledger order: by run start, then by write time. -/
def chronological (left right : LedgerRow) : Prop :=
  left.runStartedAt < right.runStartedAt ∨
    (left.runStartedAt = right.runStartedAt ∧ left.writtenAt ≤ right.writtenAt)

instance : DecidableRel chronological := fun _ _ => inferInstanceAs (Decidable (_ ∨ _))

/-- The rows from the last `replaced` one on, or none. -/
def sinceReplaced : List LedgerRow → List LedgerRow
  | [] => []
  | row :: rest =>
    match sinceReplaced rest with
    | [] => if row.decision = .replaced then row :: rest else []
    | newest :: later => newest :: later

def allowedRuns (rows : List LedgerRow) : List ℕ :=
  (rows.filter (fun row => row.decision ≠ .blocked)).map LedgerRow.runId

/-- Whether the ledger rows of one observer and family say that a link was
deleted: last seen before the newest `replaced` write's run began, by no run
that wrote since. -/
def owedRetraction (rows : List LedgerRow) (row : Connection) : Bool :=
  match sinceReplaced (rows.insertionSort chronological) with
  | [] => false
  | replaced :: later =>
    row.observerId = replaced.observerId ∧ familyOfSource row.source = replaced.family ∧
      row.observedAt < replaced.runStartedAt ∧ row.runId ∉ allowedRuns (replaced :: later)

def rowsOf (ledger : List LedgerRow) (observerId : ℕ) (family : ConnectionFamily) :
    List LedgerRow :=
  ledger.filter (fun row => row.observerId = observerId ∧ row.family = family)

/-- (d) Nothing survives the newest `replaced` row that the writer would have retracted. -/
def retractionFindings : List ReplayFinding :=
  (audit.ledger.map (fun row => (row.observerId, row.family))).eraseDups.flatMap
    (fun key =>
      (audit.observations.filter (owedRetraction (rowsOf audit.ledger key.1 key.2))).map
        (fun row => {
          check := "d_retraction"
          detail := describer audit (if row.lowId = row.observerId then row.highId else row.lowId) ++
            " survives " ++ familyText key.2 ++ " replacement for " ++
            describer audit row.observerId }))

structure LedgerAudit where
  failures : List ReplayFinding
  publicationsChecked : ℕ

/-- Reconciles the observation writes against the ledger. -/
def auditLedger : LedgerAudit where
  failures := completenessFindings audit ++ presenceFindings audit ++
    provenanceFindings audit ++ retractionFindings audit
  publicationsChecked := (settledPublications audit).length

end SlashWho.ObservationAudit
