import SlashWho.ApplicantApplications
import SlashWho.Characters
import SlashWho.ComparatorSort

/-!
How the watcher links the characters of one application. A pass picks settled open applications that
no other worker holds and decides each undecided member once, under a savepoint that a throw rolls
back to; links go through another connection and stay. Every awaited call of a pass may throw, and
what the walk over counting links answers is left open, since other passes add links meanwhile.
Identities are decoded by a function that stays a parameter.
-/

namespace SlashWho.ApplicantLinks

open ApplicantIntents ApplicantApplications Characters ComparatorSort

structure CharacterRow where
  id : ℕ
  key : CharacterKey
  deriving DecidableEq

/-- A row of `suppressed_characters`. -/
structure SuppressionRow where
  key : CharacterKey
  expiresAt : Option ℤ
  deriving DecidableEq

/-- A row of `warcraft_logs_character_ids`. -/
structure WarcraftLogsIdRow where
  key : CharacterKey
  characterId : ℕ
  deriving DecidableEq

/-- A row of `dossier_character_exclusions`. -/
structure ExclusionRow where
  rootCharacterId : ℕ
  key : CharacterKey
  deriving DecidableEq

inductive Origin
  | dossier
  | applicantSheet
  | bot
  deriving DecidableEq

/-- A row of `manual_dossier_connections`. -/
structure ManualConnection where
  rootCharacterId : ℕ
  connected : CharacterKey
  excludedAt : Option ℤ
  origin : Origin
  applicantApplicationId : Option ℕ
  deriving DecidableEq

/-- What a pass reads besides the applicant tables. -/
structure Directory where
  characters : List CharacterRow
  suppressions : List SuppressionRow
  warcraftLogsIds : List WarcraftLogsIdRow
  exclusions : List ExclusionRow
  connections : List ManualConnection

structure Decision where
  applicationId : ℕ
  ordinal : ℕ
  outcome : Outcome
  deriving DecidableEq

/-- The applicant tables, with a record of how many members each application was
recorded with and of the decisions made. -/
structure LinkTables extends Applications where
  recordedMembers : ℕ → ℕ
  decisions : List Decision

variable (directory : Directory)

def Directory.isActive (key : CharacterKey) (at_ : ℤ) : Bool :=
  directory.suppressions.any (fun row => row.key = key && row.expiresAt.all (fun t => at_ < t))

def Directory.characterId (key : CharacterKey) : Option ℕ :=
  (directory.characters.find? (fun row => row.key = key)).map CharacterRow.id

/-- The key itself and every key of its region that shares its Warcraft Logs id. -/
def Directory.keysOf (key : CharacterKey) : List CharacterKey :=
  key :: (directory.warcraftLogsIds.filter (fun self => self.key = key)).flatMap (fun self =>
    (directory.warcraftLogsIds.filter (fun other =>
      other.characterId = self.characterId && other.key.region = self.key.region)).map
        WarcraftLogsIdRow.key)

/-- Whether a character's dossier has excluded another under any of its keys. -/
def Directory.hasExcluded (ownerId : ℕ) (other : CharacterKey) : Bool :=
  (directory.keysOf other).any (fun key =>
    directory.connections.any (fun manual =>
      manual.rootCharacterId = ownerId && manual.excludedAt.isSome && manual.connected = key) ||
    directory.exclusions.any (fun exclusion =>
      exclusion.rootCharacterId = ownerId && exclusion.key = key))

/-- `manualConnections.add` as the watcher calls it: it never overwrites a row. -/
def Directory.addLink (root character : CharacterKey) (applicationId : ℕ) : Directory :=
  match directory.characterId root with
  | none => directory
  | some rootId =>
    if directory.connections.any (fun manual =>
        manual.rootCharacterId = rootId && manual.connected = character) then
      directory
    else
      { directory with
        connections := directory.connections ++
          [⟨rootId, character, none, .applicantSheet, some applicationId⟩] }

def updateApplication (id : ℕ) (change : Application → Application)
    (applications : List Application) : List Application :=
  applications.map (fun row => if row.id = id then change row else row)

/-- `decide`: the member's outcome, and the application's counter. -/
def LinkTables.decide (tables : LinkTables) (applicationId ordinal : ℕ) (outcome : Outcome) :
    LinkTables :=
  { tables with
    members := tables.members.map (fun member =>
      if member.applicationId = applicationId && member.ordinal = ordinal then
        { member with outcome := some outcome }
      else member)
    applications := updateApplication applicationId
      (fun row => { row with outcomes := row.outcomes.add outcome 1 }) tables.applications
    decisions := tables.decisions ++ [⟨applicationId, ordinal, outcome⟩] }

/-- `close`: which characters were submitted together is not kept once decided. -/
def LinkTables.close (tables : LinkTables) (clock : ℤ) (applicationId : ℕ) : LinkTables :=
  { tables with
    applications := updateApplication applicationId
      (fun row => { row with closedAt := some clock }) tables.applications
    members := tables.members.filter (fun member => member.applicationId ≠ applicationId) }

structure Components where
  same : Bool
  rootShared : Bool
  memberShared : Bool
  capped : Bool

structure LinkCounts where
  outcomes : OutcomeCounts
  waiting : ℕ
  neededLinkPairs : ℕ
  failed : ℕ

structure PickedApplication where
  id : ℕ
  settledAt : ℤ
  rootState : IntentState
  rootCanonical : Option String

/-- What a pass is given, which of its awaited calls throw, and what each walk
over counting links answers. -/
structure PassInput where
  now : ℤ
  clock : ℤ
  batch : ℕ
  locked : ℕ → Bool
  throws : ℕ → Bool
  components : ℕ → Components

/-- The state of a pass. -/
structure Linking where
  tables : LinkTables
  directory : Directory
  counts : LinkCounts
  openMembers : ℕ
  failedIds : List ℕ
  calls : ℕ

structure PendingMember where
  ordinal : ℕ
  identity : String
  state : Option IntentState
  canonical : Option String

def settleAfterDays : ℤ := 7

variable (keyOf : String → Option CharacterKey) (input : PassInput)

/-- An awaited call, which may throw. -/
def await (s : Linking) : Except Linking Linking :=
  if input.throws s.calls then .error s else .ok { s with calls := s.calls + 1 }

def decide (applicationId ordinal : ℕ) (outcome : Outcome) (s : Linking) :
    Except Linking Linking :=
  (await input s).map (fun s =>
    { s with
      tables := s.tables.decide applicationId ordinal outcome
      counts := { s.counts with outcomes := s.counts.outcomes.add outcome 1 } })

def close (applicationId : ℕ) (s : Linking) : Except Linking Linking :=
  (await input s).map (fun s => { s with tables := s.tables.close input.clock applicationId })

def pendingMembers (tables : LinkTables) (applicationId : ℕ) : List PendingMember :=
  (sortBy (readBy Member.ordinal compare) (tables.members.filter (fun member =>
    member.applicationId = applicationId && member.outcome.isNone))).map (fun member =>
      let intent := member.memberIntentSequence.bind
        (fun sequence => findIntent sequence tables.intents)
      ⟨member.ordinal, member.identity, intent.map Intent.state,
        intent.bind Intent.canonicalIdentity⟩)

/-- A link through another connection, which may be made and then throw. -/
def addLink (root character : CharacterKey) (applicationId : ℕ) (s : Linking) :
    Except Linking Linking := do
  let s ← await input s
  await input { s with directory := s.directory.addLink root character applicationId }

variable (picked : PickedApplication)

/-- The walk over counting links decides between two groups; a capped walk counts
as two. -/
def linkOrSkip (ordinal : ℕ) (rootKey memberKey : CharacterKey) (s : Linking) :
    Except Linking Linking := do
  let s ← await input s
  let components := input.components s.calls
  let s :=
    if components.same then s
    else { s with counts :=
      { s.counts with neededLinkPairs := s.counts.neededLinkPairs + 1 } }
  if !components.same && components.rootShared && components.memberShared then
    decide input picked.id ordinal .skippedCrossGroup s
  else do
    let s ← addLink input rootKey memberKey picked.id s
    decide input picked.id ordinal .linked s

/-- A member whose intent is done, with both keys and the root's row known. -/
def linkReady (member : PendingMember) (rootKey memberKey : CharacterKey) (rootId : ℕ)
    (s : Linking) : Except Linking Linking := do
  let s ← await input s
  if s.directory.isActive memberKey input.now then
    decide input picked.id member.ordinal .suppressed s
  -- a character identity is its own canonical identity
  else if some (member.canonical.getD member.identity) = picked.rootCanonical then
    decide input picked.id member.ordinal .sameCharacter s
  else do
    let s ← await input s
    match s.directory.characterId memberKey with
    | none => .ok { s with openMembers := s.openMembers + 1 }
    | some memberId =>
      if memberKey.region ≠ rootKey.region then
        decide input picked.id member.ordinal .skippedRegion s
      else do
        let s ← await input s
        if s.directory.hasExcluded rootId memberKey then
          decide input picked.id member.ordinal .skippedExcluded s
        else do
          let s ← await input s
          if s.directory.hasExcluded memberId rootKey then
            decide input picked.id member.ordinal .skippedExcluded s
          else linkOrSkip input picked member.ordinal rootKey memberKey s

def linkMember (root : Option (CharacterKey × ℕ)) (s : Linking) (member : PendingMember) :
    Except Linking Linking :=
  if member.state = some .suppressed then
    decide input picked.id member.ordinal .suppressed s
  else
    match root, member.state,
        keyOf ((member.canonical.filter (fun text => text ≠ "")).getD member.identity) with
    | some (rootKey, rootId), some .done, some memberKey =>
      linkReady input picked member rootKey memberKey rootId s
    | _, _, _ => .ok { s with openMembers := s.openMembers + 1 }

def decideAll (outcome : Outcome) (members : List PendingMember) (s : Linking) :
    Except Linking Linking := do
  let s ← members.foldlM (fun s member => decide input picked.id member.ordinal outcome s) s
  close input picked.id s

def isRootSuppressed (rootKey : Option CharacterKey) (s : Linking) :
    Except Linking (Bool × Linking) :=
  if picked.rootState = .suppressed then .ok (true, s)
  else
    match rootKey with
    | none => .ok (false, s)
    | some rootKey =>
      (await input s).map (fun s => (s.directory.isActive rootKey input.now, s))

def findRoot (rootKey : Option CharacterKey) (s : Linking) :
    Except Linking (Option (CharacterKey × ℕ) × Linking) :=
  match rootKey with
  | none => .ok (none, s)
  | some rootKey =>
    (await input s).map (fun s =>
      ((s.directory.characterId rootKey).map (fun rootId => (rootKey, rootId)), s))

def linkApplication (s : Linking) : Except Linking Linking := do
  let s ← await input s
  let members := pendingMembers s.tables picked.id
  let rootKey := picked.rootCanonical.bind keyOf
  let (rootSuppressed, s) ← isRootSuppressed input picked rootKey s
  if rootSuppressed then decideAll input picked .suppressed members s
  -- seven days after settlement nothing more is linked, ready or not
  else if settleAfterDays * day ≤ input.now - picked.settledAt then
    decideAll input picked .expired members s
  else do
    let (root, s) ← findRoot input rootKey s
    let s ← members.foldlM (linkMember keyOf input picked root) { s with openMembers := 0 }
    let s := { s with counts := { s.counts with waiting := s.counts.waiting + s.openMembers } }
    if s.openMembers = 0 then close input picked.id s else .ok s

/-- One picked application under its savepoint. -/
def linkOne (s : Linking) (picked : PickedApplication) : Except Linking Linking := do
  let s ← await input s
  let bumped :=
    { s with tables :=
      { s.tables with
        applications := updateApplication picked.id
          (fun row => { row with lastCheckedAt := some input.clock }) s.tables.applications } }
  match linkApplication keyOf input picked bumped >>= await input with
  | .ok linked => .ok linked
  | .error thrown =>
    .ok
      { thrown with
        tables := bumped.tables
        counts := { bumped.counts with failed := bumped.counts.failed + 1 }
        failedIds := bumped.failedIds ++ [picked.id] }

/-- Open settled applications that no other worker holds, least recently checked first. -/
def pickApplications (tables : LinkTables) : List PickedApplication :=
  ((sortBy (compareLex (readBy Application.lastCheckedAt (absentFirst compare))
    (readBy Application.createdAt compare)) (tables.applications.filter (fun row =>
      row.closedAt.isNone && row.settledAt.isSome && !input.locked row.id &&
        (findIntent row.rootIntentSequence tables.intents).isSome))).take input.batch).filterMap
    (fun row =>
      match row.settledAt, findIntent row.rootIntentSequence tables.intents with
      | some settledAt, some intent =>
        some ⟨row.id, settledAt, intent.state, intent.canonicalIdentity⟩
      | _, _ => none)

def emptyCounts : LinkCounts := ⟨.zero, 0, 0, 0⟩

/-- `linkApplicantApplications`, as far as its commit. -/
def linkApplicantApplications (tables : LinkTables) (directory : Directory) :
    Except Linking Linking := do
  let s ← await input ⟨tables, directory, emptyCounts, 0, [], 0⟩
  let s ← (pickApplications input tables).foldlM (linkOne keyOf input) s
  await input s

/-- Stamps settlement once a root intent is done or suppressed. -/
def settleApplicantApplications (clock : ℤ) (tables : LinkTables) : LinkTables :=
  { tables with
    applications := tables.applications.map (fun row =>
      if row.settledAt.isNone && row.closedAt.isNone &&
          (findIntent row.rootIntentSequence tables.intents).any (fun intent =>
            intent.state = .done || intent.state = .suppressed) then
        { row with settledAt := some clock }
      else row) }

def isStale (now : ℤ) (row : Application) : Bool :=
  row.closedAt.isNone && (row.createdAt ≤ now - 30 * day ||
    row.settledAt.any (fun t => t ≤ now - settleAfterDays * day))

def undecided (tables : LinkTables) (applicationId : ℕ) : ℕ :=
  tables.members.countP (fun member =>
    member.applicationId = applicationId && member.outcome.isNone)

def staleIds (now : ℤ) (tables : LinkTables) : List ℕ :=
  (tables.applications.filter (isStale now)).map Application.id

/-- Closes the stale applications, every undecided member expired, and deletes the
ones closed a month ago. -/
def closeStaleApplicantApplications (now : ℤ) (tables : LinkTables) : LinkTables :=
  let stale := staleIds now tables
  { tables with
    applications := (tables.applications.map (fun row =>
      if isStale now row then
        { row with
          closedAt := some now
          outcomes := row.outcomes.add .expired (undecided tables row.id) }
      else row)).filter (fun row => !row.closedAt.any (fun t => t ≤ now - 30 * day))
    members := tables.members.filter (fun member => !stale.contains member.applicationId)
    decisions := tables.decisions ++ (tables.members.filter (fun member =>
      stale.contains member.applicationId && member.outcome.isNone)).map (fun member =>
        ⟨member.applicationId, member.ordinal, .expired⟩) }

structure World where
  tables : LinkTables
  directory : Directory

def World.start : World where
  tables :=
    { intents := []
      applications := []
      members := []
      nextApplication := 1
      recordedMembers := fun _ => 0
      decisions := [] }
  directory := ⟨[], [], [], [], []⟩

inductive Action
  /-- A poll records the response a root occurrence came from. -/
  | record (now : ℤ) (rows : List IntakeRow) (rootIdentity : String) (rootSequence : ℕ)
      (rootSuppressed : Bool) (rootObservedAt : ℤ) (carriedMark : ℚ)
  /-- A poll ties members that wait for an identity's intent to it. -/
  | tie (identity : String) (sequence : ℕ)
  | settle (clock : ℤ)
  | pass (input : PassInput)
  | closeStale (now : ℤ)
  /-- The work of others on the intents and on what a pass reads. -/
  | others (intents : List Intent) (directory : Directory)

/-- A new application is recorded with the members inserted for it. -/
def recordTables (now : ℤ) (rows : List IntakeRow) (rootIdentity : String) (rootSequence : ℕ)
    (rootSuppressed : Bool) (rootObservedAt : ℤ) (carriedMark : ℚ) (tables : LinkTables) :
    LinkTables :=
  let recorded := (recordApplication now rows rootIdentity rootSequence rootSuppressed
    rootObservedAt carriedMark ⟨0, 0, 0⟩ tables.toApplications).2
  { toApplications := recorded
    recordedMembers := fun id =>
      if id = tables.nextApplication then
        recorded.members.countP (fun member => member.applicationId = id)
      else tables.recordedMembers id
    decisions := tables.decisions }

def tieTables (identity : String) (sequence : ℕ) (tables : LinkTables) : LinkTables :=
  { tables with
    members := tables.members.map (fun member =>
      if member.identity = identity && member.memberIntentSequence.isNone &&
          tables.applications.any (fun application =>
            application.id = member.applicationId && application.closedAt.isNone) then
        { member with memberIntentSequence := some sequence }
      else member) }

/-- A pass that throws is rolled back, but for the links it made. -/
def runPass (input : PassInput) (world : World) : World :=
  match linkApplicantApplications keyOf input world.tables world.directory with
  | .ok s => ⟨s.tables, s.directory⟩
  | .error s => ⟨world.tables, s.directory⟩

def step (world : World) : Action → World
  | .record now rows rootIdentity rootSequence rootSuppressed rootObservedAt carriedMark =>
    { world with
      tables := recordTables now rows rootIdentity rootSequence rootSuppressed rootObservedAt
        carriedMark world.tables }
  | .tie identity sequence => { world with tables := tieTables identity sequence world.tables }
  | .settle clock =>
    { world with tables := settleApplicantApplications clock world.tables }
  | .pass input => runPass keyOf input world
  | .closeStale now =>
    { world with tables := closeStaleApplicantApplications now world.tables }
  | .others intents directory =>
    { tables := { world.tables with intents := intents }
      directory := directory }

end SlashWho.ApplicantLinks
