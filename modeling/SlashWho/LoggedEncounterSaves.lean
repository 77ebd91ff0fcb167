import SlashWho.ComparatorSort
import SlashWho.RaiderIoFirstKills
import SlashWho.RowLocks

/-!
Raider.IO's logged encounters, stored once for every character and run that names them. A save
writes one run's answers in a transaction, row by row in id order, and several saves may be at it at
once. A kill is kept as first read; a later read changes only its roster and how long the guild
shares it, and a refusal never replaces a read.
-/

namespace SlashWho.LoggedEncounterSaves

open ComparatorSort RowLocks
open EvidenceMerge (Instant)
open RaiderIoFirstKills (Guild RosterState)

/-! ### What is stored -/

structure ItemLevel where
  average : ℚ
  min : ℚ
  max : ℚ

/-- The fields of a kill that no later read changes. -/
structure Kill where
  raidSlug : String
  bossSlug : String
  pulledAt : Instant
  defeatedAt : Instant
  durationMs : ℕ
  guild : Option Guild
  itemLevel : ItemLevel
  deathCount : ℕ
  vantusCount : Option ℕ

inductive Role
  | tank
  | healer
  | dps

structure Member where
  raiderIoCharacterId : ℕ
  name : String
  realm : String
  region : String
  className : String
  specName : String
  role : Role
  itemLevel : Option ℚ

structure LoggedEncounter where
  loggedEncounterId : ℕ
  kill : Kill
  rosterState : RosterState
  shareRaidUntil : Option Instant
  members : List Member

inductive UnavailableCode
  | notFound
  | private_
  | schemaDrift

structure Unavailable where
  loggedEncounterId : ℕ
  code : UnavailableCode

/-- What one run learned. -/
structure Answers where
  encounters : List LoggedEncounter
  unavailable : List Unavailable

inductive EncounterRow
  | unavailable (code : UnavailableCode) (readAt : Instant)
  | read (kill : Kill) (rosterState : RosterState) (shareRaidUntil : Option Instant) (readAt : Instant)

structure MemberRow where
  raiderIoCharacterId : ℕ
  name : String
  normalizedName : String
  realm : String
  region : String
  className : String
  specName : String
  role : Role
  itemLevel : Option ℚ

/-- An encounter's row and the rows of its members. -/
structure Version where
  row : Option EncounterRow
  members : List MemberRow

def isRead : Option EncounterRow → Bool
  | some (.read ..) => true
  | _ => false

/-! ### The statements of a save -/

def upsertRefusal (code : UnavailableCode) (readAt : Instant) :
    Option EncounterRow → Option EncounterRow
  | some (.read kill rosterState shareRaidUntil readAt) =>
    some (.read kill rosterState shareRaidUntil readAt)
  | _ => some (.unavailable code readAt)

/-- The row a later read writes, where a read row is there to change. -/
def refresh (encounter : LoggedEncounter) (readAt : Instant) : Option EncounterRow → Option EncounterRow
  | some (.read kill _ _ _) =>
    some (.read kill encounter.rosterState encounter.shareRaidUntil readAt)
  | _ => none

/-- The row a first read writes, unless another's read is already there. -/
def upsertRead (encounter : LoggedEncounter) (readAt : Instant) :
    Option EncounterRow → Option EncounterRow
  | some (.read ..) => none
  | _ => some (.read encounter.kill encounter.rosterState encounter.shareRaidUntil readAt)

variable (lower : String → String)

def memberRow (member : Member) : MemberRow where
  raiderIoCharacterId := member.raiderIoCharacterId
  name := member.name
  normalizedName := lower member.name
  realm := member.realm
  region := member.region
  className := member.className
  specName := member.specName
  role := member.role
  itemLevel := member.itemLevel

/-- A row that conflicts with another of its encounter is not inserted. -/
def insertMember (rows : List MemberRow) (row : MemberRow) : List MemberRow :=
  if rows.any (fun other => other.raiderIoCharacterId = row.raiderIoCharacterId) then rows
  else rows ++ [row]

def insertMembers (members : List Member) (rows : List MemberRow) : List MemberRow :=
  (members.map (memberRow lower)).foldl insertMember rows

/-- The member rows of one roster: each raider once, as first listed. -/
def rosterRows (encounter : LoggedEncounter) : List MemberRow :=
  insertMembers lower encounter.members []

inductive Write
  | read (encounter : LoggedEncounter)
  | refusal (answer : Unavailable)

def Write.loggedEncounterId : Write → ℕ
  | .read encounter => encounter.loggedEncounterId
  | .refusal answer => answer.loggedEncounterId

def Write.encounter? : Write → Option LoggedEncounter
  | .read encounter => some encounter
  | .refusal _ => none

/-- Every row is written in id order, whichever kind of answer it holds. -/
def writesOf (answers : Answers) : List Write :=
  sortBy (fun a b => compare a.loggedEncounterId b.loggedEncounterId)
    (answers.encounters.map Write.read ++ answers.unavailable.map Write.refusal)

/-! ### Saves side by side -/

/-- What a save did with an encounter. One left standing notes how many encounters had
been saved when its first statement found no read row. -/
inductive Outcome
  | refreshed
  | filled
  | stood (since : ℕ)

def Outcome.accepted : Outcome → Bool
  | .stood _ => false
  | _ => true

/-- Where a save is in the write of one row. -/
inductive Stage
  | next
  | missed (since : ℕ)
  | written (outcome : Outcome)
  | cleared (outcome : Outcome)

structure Save where
  answers : Answers
  readAt : Instant
  todo : List Write
  stage : Stage
  outcomes : List (LoggedEncounter × Outcome)

inductive Status
  | unused
  | running (save : Save)
  | committed (save : Save)
  | rolledBack

structure Saved where
  save : ℕ
  readAt : Instant
  encounter : LoggedEncounter

/-- The rows, the saves, and what the saves that have committed accepted, oldest first. -/
structure State where
  rows : Rows ℕ Version
  saves : ℕ → Status
  saved : List Saved

def State.empty : State := ⟨⟨fun _ => ⟨none, []⟩, fun _ => none⟩, fun _ => .unused, []⟩

/-- The row the save has written and not yet given its roster. -/
def Save.current (save : Save) : List (LoggedEncounter × Outcome) :=
  match save.stage, save.todo with
  | .written outcome, .read encounter :: _ => [(encounter, outcome)]
  | .cleared outcome, .read encounter :: _ => [(encounter, outcome)]
  | _, _ => []

def acceptedOf (t : ℕ) (readAt : Instant) (outcomes : List (LoggedEncounter × Outcome)) : List Saved :=
  (outcomes.filter (fun e => e.2.accepted)).map (fun e => ⟨t, readAt, e.1⟩)

/-- The encounters whose rows the save has written. -/
def Save.accepted (t : ℕ) (save : Save) : List Saved :=
  acceptedOf t save.readAt (save.outcomes ++ save.current)

namespace State
variable (s : State)

/-- The save goes on, with no row changed. -/
def goOn (t : ℕ) (save : Save) : State :=
  { s with saves := Function.update s.saves t (.running save) }

/-- The save writes a row under its lock and goes on. -/
def write (t : ℕ) (id : ℕ) (v : Version) (save : Save) : State :=
  { s with rows := s.rows.write t id v, saves := Function.update s.saves t (.running save) }

end State

/-- One statement of one save. A statement that writes a row waits for its lock. -/
inductive Step : State → State → Prop
  | begin (s : State) (t : ℕ) (answers : Answers) (readAt : Instant) (hnew : s.saves t = .unused)
      (hsome : answers.encounters ≠ [] ∨ answers.unavailable ≠ []) :
      Step s (s.goOn t ⟨answers, readAt, writesOf answers, .next, []⟩)
  | refuse (s : State) (t : ℕ) (save : Save) (answer : Unavailable) (rest : List Write)
      (hrunning : s.saves t = .running save) (hstage : save.stage = .next)
      (htodo : save.todo = .refusal answer :: rest) (hfree : s.rows.Free t answer.loggedEncounterId) :
      Step s (s.write t answer.loggedEncounterId
        { s.rows.view t answer.loggedEncounterId with
          row := upsertRefusal answer.code save.readAt
            (s.rows.view t answer.loggedEncounterId).row }
        { save with todo := rest })
  -- the first update matches only a row already read
  | refresh (s : State) (t : ℕ) (save : Save) (encounter : LoggedEncounter) (rest : List Write)
      (row : EncounterRow) (hrunning : s.saves t = .running save) (hstage : save.stage = .next)
      (htodo : save.todo = .read encounter :: rest)
      (hfree : s.rows.Free t encounter.loggedEncounterId)
      (hrow : LoggedEncounterSaves.refresh encounter save.readAt
        (s.rows.view t encounter.loggedEncounterId).row = some row) :
      Step s (s.write t encounter.loggedEncounterId
        { s.rows.view t encounter.loggedEncounterId with row := some row }
        { save with stage := .written .refreshed })
  | miss (s : State) (t : ℕ) (save : Save) (encounter : LoggedEncounter) (rest : List Write)
      (hrunning : s.saves t = .running save) (hstage : save.stage = .next)
      (htodo : save.todo = .read encounter :: rest)
      (hrow : LoggedEncounterSaves.refresh encounter save.readAt
        (s.rows.view t encounter.loggedEncounterId).row = none) :
      Step s (s.goOn t { save with stage := .missed s.saved.length })
  | fill (s : State) (t : ℕ) (save : Save) (encounter : LoggedEncounter) (rest : List Write)
      (since : ℕ) (row : EncounterRow) (hrunning : s.saves t = .running save)
      (hstage : save.stage = .missed since) (htodo : save.todo = .read encounter :: rest)
      (hfree : s.rows.Free t encounter.loggedEncounterId)
      (hrow : upsertRead encounter save.readAt
        (s.rows.view t encounter.loggedEncounterId).row = some row) :
      Step s (s.write t encounter.loggedEncounterId
        { s.rows.view t encounter.loggedEncounterId with row := some row }
        { save with stage := .written .filled })
  -- another save's read landed between the two statements; it stands, locked
  | stand (s : State) (t : ℕ) (save : Save) (encounter : LoggedEncounter) (rest : List Write)
      (since : ℕ) (hrunning : s.saves t = .running save) (hstage : save.stage = .missed since)
      (htodo : save.todo = .read encounter :: rest)
      (hfree : s.rows.Free t encounter.loggedEncounterId)
      (hrow : upsertRead encounter save.readAt
        (s.rows.view t encounter.loggedEncounterId).row = none) :
      Step s (s.write t encounter.loggedEncounterId (s.rows.view t encounter.loggedEncounterId)
        { save with
          todo := rest
          stage := .next
          outcomes := save.outcomes ++ [(encounter, .stood since)] })
  | clear (s : State) (t : ℕ) (save : Save) (encounter : LoggedEncounter) (rest : List Write)
      (outcome : Outcome) (hrunning : s.saves t = .running save)
      (hstage : save.stage = .written outcome) (htodo : save.todo = .read encounter :: rest) :
      Step s (s.write t encounter.loggedEncounterId
        { s.rows.view t encounter.loggedEncounterId with members := [] }
        { save with stage := .cleared outcome })
  | list (s : State) (t : ℕ) (save : Save) (encounter : LoggedEncounter) (rest : List Write)
      (outcome : Outcome) (hrunning : s.saves t = .running save)
      (hstage : save.stage = .cleared outcome) (htodo : save.todo = .read encounter :: rest) :
      Step s (s.write t encounter.loggedEncounterId
        { s.rows.view t encounter.loggedEncounterId with
          members := insertMembers lower encounter.members
            (s.rows.view t encounter.loggedEncounterId).members }
        { save with
          todo := rest
          stage := .next
          outcomes := save.outcomes ++ [(encounter, outcome)] })
  | commit (s : State) (t : ℕ) (save : Save) (hrunning : s.saves t = .running save)
      (hstage : save.stage = .next) (htodo : save.todo = []) :
      Step s ⟨s.rows.commit t, Function.update s.saves t (.committed save),
        s.saved ++ save.accepted t⟩
  -- whatever a statement throws, the transaction is undone
  | rollback (s : State) (t : ℕ) (save : Save) (hrunning : s.saves t = .running save) :
      Step s { s with rows := s.rows.rollback t, saves := Function.update s.saves t .rolledBack }

/-! ### What the store holds -/

def savesOf (id : ℕ) (saved : List Saved) : List Saved :=
  saved.filter (fun save => save.encounter.loggedEncounterId = id)

/-- The row after these saves: the first one's kill, with what the last one said of the roster. -/
def Described (saves : List Saved) (row : Option EncounterRow) : Prop :=
  match saves.head?, saves.getLast? with
  | some first, some last =>
    row = some (.read first.encounter.kill last.encounter.rosterState
      last.encounter.shareRaidUntil last.readAt)
  | _, _ => isRead row = false

def membersOf (lower : String → String) (saves : List Saved) : List MemberRow :=
  match saves.getLast? with
  | some last => rosterRows lower last.encounter
  | none => []

def Stored (lower : String → String) (saves : List Saved) (v : Version) : Prop :=
  Described saves v.row ∧ v.members = membersOf lower saves

/-- No save of the encounter had committed by then, and another save's has since. -/
def StoodBehind (saved : List Saved) (t since : ℕ) (encounter : LoggedEncounter) : Prop :=
  savesOf encounter.loggedEncounterId (saved.take since) = [] ∧
    ∃ other ∈ saved.drop since,
      other.encounter.loggedEncounterId = encounter.loggedEncounterId ∧ other.save ≠ t

end SlashWho.LoggedEncounterSaves
