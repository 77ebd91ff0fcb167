import Mathlib.Algebra.Order.Ring.Unbundled.Rat
import Mathlib.Data.Rat.Defs
import SlashWho.ApplicantIntents

/-!
Applications with more than one character. A response that names several
characters is recorded with its first one as the root and the others as members,
unless it names more than the cap, when it is closed at once without members.
Rows are chosen by the time the form was submitted, never by their position.
-/

namespace SlashWho.ApplicantApplications

open ApplicantIntents

inductive Outcome
  | linked
  | suppressed
  | sameCharacter
  | skippedRegion
  | skippedExcluded
  | skippedCrossGroup
  | expired
  deriving DecidableEq

structure OutcomeCounts where
  linked : ℕ
  suppressed : ℕ
  sameCharacter : ℕ
  skippedRegion : ℕ
  skippedExcluded : ℕ
  skippedCrossGroup : ℕ
  expired : ℕ
  deriving DecidableEq

namespace OutcomeCounts

def zero : OutcomeCounts := ⟨0, 0, 0, 0, 0, 0, 0⟩

/-- `SET ${outcome}_count = ${outcome}_count + n` -/
def add (counts : OutcomeCounts) (outcome : Outcome) (n : ℕ) : OutcomeCounts :=
  match outcome with
  | .linked => { counts with linked := counts.linked + n }
  | .suppressed => { counts with suppressed := counts.suppressed + n }
  | .sameCharacter => { counts with sameCharacter := counts.sameCharacter + n }
  | .skippedRegion => { counts with skippedRegion := counts.skippedRegion + n }
  | .skippedExcluded => { counts with skippedExcluded := counts.skippedExcluded + n }
  | .skippedCrossGroup => { counts with skippedCrossGroup := counts.skippedCrossGroup + n }
  | .expired => { counts with expired := counts.expired + n }

def total (counts : OutcomeCounts) : ℕ :=
  counts.linked + counts.suppressed + counts.sameCharacter + counts.skippedRegion +
    counts.skippedExcluded + counts.skippedCrossGroup + counts.expired

@[simp] theorem total_zero : zero.total = 0 := rfl

@[simp] theorem total_add (counts : OutcomeCounts) (outcome : Outcome) (n : ℕ) :
    (counts.add outcome n).total = counts.total + n := by
  unfold total add
  cases outcome <;> simp only <;> omega

end OutcomeCounts

/-- A row of `applicant_source_applications`. -/
structure Application where
  id : ℕ
  rootIntentSequence : ℕ
  rootIdentity : String
  submittedSerial : ℚ
  createdAt : ℤ
  settledAt : Option ℤ
  lastCheckedAt : Option ℤ
  closedAt : Option ℤ
  overCap : Bool
  outcomes : OutcomeCounts
  deriving DecidableEq

/-- A row of `applicant_source_application_members`. -/
structure Member where
  applicationId : ℕ
  ordinal : ℕ
  identity : String
  memberIntentSequence : Option ℕ
  outcome : Option Outcome
  deriving DecidableEq

/-- What a sheet row submitted, and the identities accepted from it. -/
structure IntakeRow where
  row : ℕ
  submittedSerial : Option ℚ
  identities : List String

def applicationLinkCap : ℕ := 5

/-- `submittedSerial > floor`, where the row has one. -/
def isAfter (floor : ℚ) (row : IntakeRow) : Bool :=
  row.submittedSerial.any (fun serial => floor < serial)

/-- The later of two chosen rows; the one held where neither is later. -/
def laterRow (best row : IntakeRow) : IntakeRow :=
  match row.submittedSerial, best.submittedSerial with
  | some serial, some held => if held < serial then row else best
  | _, _ => best

/-- The newest response of an identity after its mark and its last application,
and how many others could have been meant. -/
def chooseApplicationRow (rows : List IntakeRow) (rootIdentity : String) (carriedMark : ℚ)
    (lastApplicationSerial : Option ℚ) : Option IntakeRow × ℕ :=
  let floor := match lastApplicationSerial with
    | some serial => max carriedMark serial
    | none => carriedMark
  match rows.filter (fun row => row.identities.head? = some rootIdentity && isAfter floor row) with
  | [] => (none, 0)
  | first :: others => (some (others.foldl laterRow first), others.length)

structure ApplicationCounts where
  recorded : ℕ
  ambiguous : ℕ
  overCap : ℕ
  deriving DecidableEq

/-- The applications, with their members and the intents both refer to. -/
structure Applications where
  intents : List Intent
  applications : List Application
  members : List Member
  nextApplication : ℕ

/-- `SELECT max(submitted_serial) …` -/
def lastSerial (rootIdentity : String) (applications : List Application) : Option ℚ :=
  ((applications.filter (fun application => application.rootIdentity = rootIdentity)).map
    Application.submittedSerial).max?

/-- `SELECT min(sequence) …`: the intent a member got for this response. -/
def memberSequence (identity : String) (rootObservedAt : ℤ) (intents : List Intent) : Option ℕ :=
  ((intents.filter (fun row => row.identity = identity && rootObservedAt ≤ row.observedAt)).map
    Intent.sequence).min?

def membersOf (application : ℕ) (rootObservedAt : ℤ) (intents : List Intent)
    (identities : List String) : List Member :=
  identities.zipIdx.map (fun entry =>
    ⟨application, entry.2 + 1, entry.1, memberSequence entry.1 rootObservedAt intents, none⟩)

/-- Records the response a new root occurrence came from. -/
def recordApplication (now : ℤ) (rows : List IntakeRow) (rootIdentity : String)
    (rootSequence : ℕ) (rootSuppressed : Bool) (rootObservedAt : ℤ) (carriedMark : ℚ)
    (counts : ApplicationCounts) (tables : Applications) : ApplicationCounts × Applications :=
  let (row, ambiguous) := chooseApplicationRow rows rootIdentity carriedMark
    (lastSerial rootIdentity tables.applications)
  let counts := { counts with ambiguous := counts.ambiguous + ambiguous }
  -- a row that is chosen carries a serial
  match row, row.bind IntakeRow.submittedSerial with
  | some row, some submittedSerial =>
    if row.identities.length < 2 then (counts, tables)
    else
      let overCap : Bool := applicationLinkCap < row.identities.length
      let application : Application :=
        { id := tables.nextApplication
          rootIntentSequence := rootSequence
          rootIdentity := rootIdentity
          submittedSerial := submittedSerial
          createdAt := now
          settledAt := if rootSuppressed then some now else none
          lastCheckedAt := none
          closedAt := if overCap then some now else none
          overCap := overCap
          outcomes := .zero }
      let tables :=
        { tables with
          applications := tables.applications ++ [application]
          nextApplication := tables.nextApplication + 1 }
      if overCap then ({ counts with overCap := counts.overCap + 1 }, tables)
      else
        ({ counts with recorded := counts.recorded + 1 },
          { tables with
            members := tables.members ++
              membersOf application.id rootObservedAt tables.intents row.identities.tail })
  | _, _ => (counts, tables)

end SlashWho.ApplicantApplications
