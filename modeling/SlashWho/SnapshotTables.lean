import SlashWho.FingerprintSweeps
import SlashWho.OrderedMap

/-!
The tables a snapshot lives in and the transactions that write them: a create
publishes a run's snapshot, alone or with the end of its fingerprint sweep, and
an amend appends a later cycle's finds to the snapshot the sweep's cursor
extends. Membership rows stand in the order they were inserted. A transaction
that throws, also on an abort signal or a lost connection, leaves every table
as it was.
-/

namespace SlashWho.Snapshots

open Characters FingerprintSweeps

/-- What a snapshot is given of a character is what discovery found. -/
abbrev SnapshotCharacterInput := DiscoveredCharacter

structure CharacterRow where
  id : ℕ
  key : CharacterKey
  displayName : String
  className : String
  level : ℕ
  raiderIoUrl : String

structure RunRow where
  id : ℕ
  rootKey : CharacterKey
  rootCharacterId : Option ℕ
  status : RunStatus
  attempt : ℕ
  nextRetryAt : Option ℕ
  errorCode : Option String
  completedAt : Option ℕ
  snapshotId : Option ℕ

def RunRow.discoveryRun (run : RunRow) : DiscoveryRun :=
  ⟨run.id, run.rootKey, run.status, run.attempt⟩

/-- The state column says "complete" or "partial". -/
inductive SnapshotState
  | complete
  | incomplete
  deriving DecidableEq

structure SnapshotRow where
  id : ℕ
  rootCharacterId : ℕ
  discoveryRunId : ℕ
  state : SnapshotState
  limitationCode : Option String
  refreshedAt : ℕ
  characterCount : ℕ

structure MembershipRow where
  snapshotId : ℕ
  characterId : ℕ
  displayOrder : ℕ
  discoverySource : DiscoverySource
  displayName : String
  className : String
  level : ℕ
  raiderIoUrl : String
  guildName : Option String
  guildRegion : Option Region
  guildRealmSlug : Option String

structure Suppression where
  key : CharacterKey
  expiresAt : Option ℕ

structure SnapshotTables where
  characters : List CharacterRow
  runs : List RunRow
  snapshots : List SnapshotRow
  memberships : List MembershipRow
  suppressions : List Suppression
  states : List SweepState
  admissions : List Admission
  reservations : List Reservation
  requestEvents : List RequestEvent
  nextQueueOrder : ℕ

inductive SnapshotError
  | runRootMismatch
  | rootMissing
  | runNotActive
  | snapshotNotFound
  | finishTimeInvalid
  | uniqueViolation
  | notNullViolation
  | checkViolation
  | finishing (error : SweepError)
  deriving DecidableEq

def SnapshotError.message : SnapshotError → String
  | .runRootMismatch => "discovery_run_root_mismatch"
  | .rootMissing => "snapshot_root_missing"
  | .runNotActive => "discovery_run_not_active"
  | .snapshotNotFound => "snapshot_not_found"
  | .finishTimeInvalid => "fingerprint_finish_time_invalid"
  | .uniqueViolation => "unique_violation"
  | .notNullViolation => "not_null_violation"
  | .checkViolation => "check_violation"
  | .finishing error => error.message

namespace SnapshotTables

variable (t : SnapshotTables)

/-- What the fingerprint sweep transactions see of these tables. -/
def sweepTables : SweepTables where
  runs := t.runs.map RunRow.discoveryRun
  snapshots := t.snapshots.map (fun s => ⟨s.id, s.discoveryRunId⟩)
  states := t.states
  admissions := t.admissions
  reservations := t.reservations
  requestEvents := t.requestEvents
  nextQueueOrder := t.nextQueueOrder

/-- Finishing a sweep writes no run and no snapshot. -/
def withSweepTables (s : SweepTables) : SnapshotTables :=
  { t with
    states := s.states
    admissions := s.admissions
    reservations := s.reservations
    requestEvents := s.requestEvents
    nextQueueOrder := s.nextQueueOrder }

/-- A snapshot's membership rows, in the order they were inserted. -/
def members (snapshotId : ℕ) : List MembershipRow :=
  t.memberships.filter (fun m => m.snapshotId = snapshotId)

def findCharacter (id : ℕ) : Option CharacterRow :=
  t.characters.find? (fun c => c.id = id)

def findSnapshot (id : ℕ) : Option SnapshotRow :=
  t.snapshots.find? (fun s => s.id = id)

def memberKey (m : MembershipRow) : Option CharacterKey :=
  (t.findCharacter m.characterId).map CharacterRow.key

def suppressed (now : ℕ) (key : CharacterKey) : Bool :=
  t.suppressions.any (fun s => s.key = key && s.expiresAt.all (fun at_ => now < at_))

end SnapshotTables

structure StoredSnapshotCharacter where
  character : SnapshotCharacterInput
  characterId : ℕ
  displayOrder : ℕ

structure StoredSnapshot where
  id : ℕ
  runId : ℕ
  rootKey : CharacterKey
  state : SnapshotState
  limitationCode : Option String
  refreshedAt : ℕ
  characterCount : ℕ
  characters : List StoredSnapshotCharacter

/-- Every part must be present, and no text empty, to name a guild. -/
def MembershipRow.guild (m : MembershipRow) : Option CharacterGuild :=
  match m.guildName, m.guildRegion, m.guildRealmSlug with
  | some name, some region, some realm =>
    if name ≠ "" ∧ realm ≠ "" then some ⟨name, region, realm⟩ else none
  | _, _, _ => none

def mapSnapshotCharacter (m : MembershipRow) (key : CharacterKey) : StoredSnapshotCharacter where
  character :=
    { key := key
      displayName := m.displayName
      className := m.className
      level := m.level
      guild := m.guild
      raiderIoUrl := m.raiderIoUrl
      source := m.discoverySource }
  characterId := m.characterId
  displayOrder := m.displayOrder

variable (t : SnapshotTables)

/-- A snapshot as it is read back: nothing for a suppressed root, and no
suppressed member. -/
def loadSnapshot (now id : ℕ) : Option StoredSnapshot := do
  let row ← t.findSnapshot id
  let root ← t.findCharacter row.rootCharacterId
  if t.suppressed now root.key then none
  else
    let characters := ((t.members id).insertionSort
      (fun left right => left.displayOrder ≤ right.displayOrder)).filterMap (fun m =>
        (t.memberKey m).bind (fun key =>
          if t.suppressed now key then none else some (mapSnapshotCharacter m key)))
    some
      { id := row.id
        runId := row.discoveryRunId
        rootKey := root.key
        state := row.state
        limitationCode := row.limitationCode
        refreshedAt := row.refreshedAt
        characterCount := characters.length
        characters := characters }

def characterIdentity (key : CharacterKey) : String :=
  key.region.code ++ "/" ++ key.realm ++ "/" ++ key.name

/-- The code units strings are compared by. -/
def codeUnits (text : String) : List ℕ :=
  text.toList.flatMap (fun c =>
    if c.toNat < 0x10000 then [c.toNat]
    else [0xD800 + (c.toNat - 0x10000) / 0x400, 0xDC00 + (c.toNat - 0x10000) % 0x400])

def canonicalKey (character : SnapshotCharacterInput) : List ℕ :=
  codeUnits (character.key.region.code ++ "\x00" ++ character.key.realm ++ "\x00" ++
    character.key.name)

def CharacterRow.update (character : SnapshotCharacterInput) (row : CharacterRow) : CharacterRow :=
  { row with
    displayName := character.displayName
    className := character.className
    level := character.level
    raiderIoUrl := character.raiderIoUrl }

/-- One upsert: the row that has the key is updated, and a key without a row
gets one under a generated id. -/
def upsertCharacter (character : SnapshotCharacterInput) (newCharacter : ℕ) :
    Except SnapshotError (SnapshotTables × ℕ) :=
  match t.characters.find? (fun row => row.key = character.key) with
  | some row =>
    .ok ({ t with
      characters := t.characters.map (fun row =>
        if row.key = character.key then row.update character else row) }, row.id)
  | none =>
    if t.characters.any (fun row => row.id = newCharacter) then .error .uniqueViolation
    else
      let row : CharacterRow :=
        { id := newCharacter
          key := character.key
          displayName := character.displayName
          className := character.className
          level := character.level
          raiderIoUrl := character.raiderIoUrl }
      .ok ({ t with characters := t.characters ++ [row] }, newCharacter)

def upsertNext (newCharacter : ℕ → ℕ) (acc : SnapshotTables × OrderedMap String ℕ)
    (item : SnapshotCharacterInput × ℕ) :
    Except SnapshotError (SnapshotTables × OrderedMap String ℕ) := do
  let (t, id) ← upsertCharacter acc.1 item.1 (newCharacter item.2)
  .ok (t, acc.2.set (characterIdentity item.1.key) id)

/-- Rows are written in canonical key order, whatever order the caller holds
them in. -/
def upsertCharacters (characters : List SnapshotCharacterInput) (newCharacter : ℕ → ℕ) :
    Except SnapshotError (SnapshotTables × OrderedMap String ℕ) :=
  (characters.insertionSort (fun left right => canonicalKey left ≤ canonicalKey right)).zipIdx.foldlM
    (upsertNext newCharacter) (t, .empty)

/-- One membership row, under the unique indexes on a snapshot's characters and
on its display order. -/
def insertMember (snapshotId firstDisplayOrder : ℕ) (characterIds : OrderedMap String ℕ)
    (t : SnapshotTables) (item : SnapshotCharacterInput × ℕ) :
    Except SnapshotError SnapshotTables :=
  match characterIds.get? (characterIdentity item.1.key) with
  | none => .error .notNullViolation
  | some characterId =>
    if t.memberships.any (fun m => m.snapshotId = snapshotId &&
        (m.characterId = characterId || m.displayOrder = firstDisplayOrder + item.2)) then
      .error .uniqueViolation
    else
      let row : MembershipRow :=
        { snapshotId := snapshotId
          characterId := characterId
          displayOrder := firstDisplayOrder + item.2
          discoverySource := item.1.source
          displayName := item.1.displayName
          className := item.1.className
          level := item.1.level
          raiderIoUrl := item.1.raiderIoUrl
          guildName := item.1.guild.map CharacterGuild.name
          guildRegion := item.1.guild.map CharacterGuild.region
          guildRealmSlug := item.1.guild.map CharacterGuild.realm }
      .ok { t with memberships := t.memberships ++ [row] }

/-- The characters join the snapshot in the order given, numbered from
`firstDisplayOrder`. -/
def insertMembership (snapshotId firstDisplayOrder : ℕ) (characters : List SnapshotCharacterInput)
    (characterIds : OrderedMap String ℕ) :
    Except SnapshotError SnapshotTables :=
  characters.zipIdx.foldlM (insertMember snapshotId firstDisplayOrder characterIds) t

structure CreateSnapshotInput where
  runId : ℕ
  rootKey : CharacterKey
  state : SnapshotState
  limitationCode : Option String
  refreshedAt : ℕ
  characters : List SnapshotCharacterInput

/-- The ids a transaction generates, and the time it runs at. -/
structure Generated where
  now : ℕ
  newCharacter : ℕ → ℕ
  newSnapshot : ℕ
  newAdmission : ℕ

/-- A snapshot is complete exactly when it names no limitation, and a run has
one snapshot. -/
def insertSnapshot (row : SnapshotRow) :
    Except SnapshotError SnapshotTables :=
  if ¬ (row.state = .complete ↔ row.limitationCode = none) then .error .checkViolation
  else if t.snapshots.any (fun s => s.id = row.id || s.discoveryRunId = row.discoveryRunId) then
    .error .uniqueViolation
  else .ok { t with snapshots := t.snapshots ++ [row] }

def activeRun (runId : ℕ) (run : RunRow) : Bool :=
  run.id = runId && run.discoveryRun.active

def publishRun (runId snapshotId now : ℕ) :
    Except SnapshotError SnapshotTables :=
  if t.runs.any (activeRun runId) then
    .ok { t with
      runs := t.runs.map (fun run =>
        if activeRun runId run then
          { run with
            status := .complete
            snapshotId := some snapshotId
            completedAt := run.completedAt.or (some now)
            nextRetryAt := none
            errorCode := none }
        else run) }
  else .error .runNotActive

def setRootCharacter (runId rootId : ℕ) : SnapshotTables :=
  { t with
    runs := t.runs.map (fun run =>
      if run.id = runId then { run with rootCharacterId := some rootId } else run) }

def createSnapshot (input : CreateSnapshotInput) (g : Generated) :
    Except SnapshotError (SnapshotTables × StoredSnapshot) := do
  if !t.runs.any (fun run => activeRun input.runId run && run.rootKey = input.rootKey) then
    .error .runRootMismatch
  else
    let (upserted, characterIds) ← upsertCharacters t input.characters g.newCharacter
    match characterIds.get? (characterIdentity input.rootKey) with
    | none => .error .rootMissing
    | some rootId =>
      let inserted ← insertSnapshot upserted
        { id := g.newSnapshot
          rootCharacterId := rootId
          discoveryRunId := input.runId
          state := input.state
          limitationCode := input.limitationCode
          refreshedAt := input.refreshedAt
          characterCount := input.characters.length }
      let joined ← insertMembership (setRootCharacter inserted input.runId rootId) g.newSnapshot 0
        input.characters characterIds
      let published ← publishRun joined input.runId g.newSnapshot g.now
      match loadSnapshot published g.now g.newSnapshot with
      | none => .error .snapshotNotFound
      | some snapshot => .ok (published, snapshot)

structure FingerprintFinish where
  runId : ℕ
  reservationId : ℕ
  /-- Missing when the given date is no date. -/
  finishedAt : Option ℕ
  limitationCode : Option String
  continuationAdmission : Option ContinuationAdmission

structure FingerprintSweepCursor where
  resumeAfter : Option String
  limitationCode : Option String
  historicalGuilds : List CharacterGuild
  excludedTournamentCharacterIds : List String
  advanced : Bool

/-- A sealed sweep leaves neither a limitation nor a snapshot to resume. -/
def finishInput (fingerprint : FingerprintFinish) (cursor : FingerprintSweepCursor)
    (snapshotId at_ : ℕ) : FinishInput where
  published := true
  at_ := at_
  limitationCode := fingerprint.limitationCode
  continuationAdmission := fingerprint.continuationAdmission
  cursor := some
    { resumeAfter := cursor.resumeAfter
      resumeLimitationCode := cursor.resumeAfter.bind (fun _ => cursor.limitationCode)
      historicalGuilds := cursor.historicalGuilds
      excludedTournamentCharacterIds := cursor.excludedTournamentCharacterIds
      resumeSnapshotId := cursor.resumeAfter.map (fun _ => snapshotId)
      advanced := cursor.advanced }

def finishSweep (fingerprint : FingerprintFinish) (cursor : FingerprintSweepCursor)
    (snapshotId at_ : ℕ) (g : Generated) :
    Except SnapshotError SnapshotTables :=
  match finishFingerprintSweep t.sweepTables fingerprint.reservationId
    (finishInput fingerprint cursor snapshotId at_) g.newAdmission with
  | .error error => .error (.finishing error)
  | .ok finished => .ok (t.withSweepTables finished)

def createAndFinishFingerprintSweep (input : CreateSnapshotInput) (fingerprint : FingerprintFinish)
    (cursor : FingerprintSweepCursor) (g : Generated) :
    Except SnapshotError (SnapshotTables × StoredSnapshot) :=
  match fingerprint.finishedAt with
  | none => .error .finishTimeInvalid
  | some at_ => do
    let (created, snapshot) ← createSnapshot t input g
    let finished ← finishSweep created fingerprint cursor snapshot.id at_ g
    .ok (finished, snapshot)

/-- Whether the cursor of a root's sweep extends this snapshot, and for this
run. -/
def ownsSweepCursor (rootKey : CharacterKey) (snapshotId runId : ℕ) : Bool :=
  match t.states.find? (fun state => state.key = rootKey) with
  | none => false
  | some state =>
    state.resumeSnapshotId = some snapshotId &&
      (state.resumeSnapshotId.bind t.findSnapshot).map SnapshotRow.discoveryRunId = some runId

/-- The characters of an amend that the snapshot does not have yet, each once. -/
def additionsFrom (present : List String) :
    List SnapshotCharacterInput → List SnapshotCharacterInput
  | [] => []
  | character :: rest =>
    if characterIdentity character.key ∈ present then additionsFrom present rest
    else character :: additionsFrom (characterIdentity character.key :: present) rest

def nextOrder (snapshotId : ℕ) : ℕ :=
  (((t.members snapshotId).map MembershipRow.displayOrder).max?.map (· + 1)).getD 0

def amendSnapshot (snapshotId appended : ℕ) (limitationCode : Option String) (s : SnapshotRow) :
    SnapshotRow :=
  if s.id = snapshotId then
    { s with
      characterCount := s.characterCount + appended
      state := if limitationCode = none then .complete else .incomplete
      limitationCode := limitationCode }
  else s

/-- An amend by a caller that does not own the cursor ends early, with nothing
to return. -/
def amendAndFinishFingerprintSweep (snapshotId : ℕ) (characters : List SnapshotCharacterInput)
    (fingerprint : FingerprintFinish) (cursor : FingerprintSweepCursor) (g : Generated) :
    Except SnapshotError (SnapshotTables × Option StoredSnapshot) :=
  match fingerprint.finishedAt with
  | none => .error .finishTimeInvalid
  | some at_ =>
    match (t.findSnapshot snapshotId).bind (fun s => t.findCharacter s.rootCharacterId) with
    | none => .error .snapshotNotFound
    | some root =>
      if !ownsSweepCursor t root.key snapshotId fingerprint.runId then .ok (t, none)
      else do
        let present := ((t.members snapshotId).filterMap t.memberKey).map characterIdentity
        let additions := additionsFrom present characters
        let (upserted, characterIds) ← upsertCharacters t additions g.newCharacter
        let joined ← insertMembership upserted snapshotId (nextOrder t snapshotId) additions
          characterIds
        let amended := { joined with
          snapshots := joined.snapshots.map
            (amendSnapshot snapshotId additions.length fingerprint.limitationCode) }
        let finished ← finishSweep amended fingerprint cursor snapshotId at_ g
        match loadSnapshot finished g.now snapshotId with
        | none => .error .snapshotNotFound
        | some snapshot => .ok (finished, some snapshot)

/-- A character's row is made when it has none, and left alone when it has. -/
def ensureCharacter (character : SnapshotCharacterInput) (newCharacter : ℕ) :
    Except SnapshotError (SnapshotTables × ℕ) :=
  match t.characters.find? (fun row => row.key = character.key) with
  | some row => .ok (t, row.id)
  | none => upsertCharacter t character newCharacter

/-- A transaction commits what its work returns, and a throw rolls it back. -/
def withTransaction {α : Type} (t : SnapshotTables)
    (work : Except SnapshotError (SnapshotTables × α)) : SnapshotTables :=
  match work with
  | .ok (written, _) => written
  | .error _ => t

end SlashWho.Snapshots
