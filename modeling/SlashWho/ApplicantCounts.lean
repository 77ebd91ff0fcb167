import SlashWho.ApplicantApplications
import SlashWho.OrderedMap

/-!
How a poll of the applicant sheet becomes intents. A poll counts how often each identity occurs and
compares that with the count recorded and the occurrences deferred before. Each further occurrence
is admitted as an intent, or deferred with the time it was first seen. Under a new parser version
rises become the new counts. All of it is one transaction.
-/

namespace SlashWho.ApplicantCounts

open ApplicantIntents ApplicantApplications

/-- An entry of `deferred_observed_ats` as stored: a bare time, or a time with its
index and, since marks exist, its mark. -/
inductive StoredDeferred
  | time (seenAt : ℤ)
  | entry (seenAt : ℤ) (index : ℕ) (mark : Option (Option ℚ))
  deriving DecidableEq

/-- The submitted-serial mark when an occurrence was first seen. -/
inductive Mark
  | unmarked
  | marked (mark : Option ℚ)
  deriving DecidableEq

structure DeferredObservation where
  seenAt : ℤ
  index : ℕ
  mark : Mark
  deriving DecidableEq

/-- A row of `applicant_source_counts`. -/
structure CountRow where
  occurrenceCount : ℕ
  deferredObservedAts : List StoredDeferred
  deriving DecidableEq

/-- The row of `applicant_source_state`. -/
structure SourceState where
  initializedAt : ℤ
  lastPolledAt : ℤ
  parserVersion : ℤ
  submittedSerialMark : Option ℚ
  deriving DecidableEq

structure Watch extends Applications where
  source : Option SourceState
  counts : OrderedMap String CountRow
  nextSequence : ℕ

inductive Decision
  | suppressed
  | clear
  | defer
  deriving DecidableEq

/-- What a poll is given: the counts it saw, the limits, and what the look for a
suppression answers each time it is asked, or that it throws. -/
structure PollInput where
  counts : OrderedMap String ℕ
  backlogLimit : ℕ
  polledAt : ℤ
  now : ℤ
  isSuppressed : ℕ → String → ℤ → Option Decision
  parserVersion : ℤ
  intake : Option (List IntakeRow)

structure Occurrence where
  identity : String
  index : ℕ
  deriving DecidableEq

structure PollResult where
  baseline : Bool
  rebaselined : Bool
  created : ℕ
  backlog : ℕ
  newOccurrences : List Occurrence
  startMark : Option ℚ
  risen : List String
  unmarkedOccurrences : List Occurrence
  applications : ApplicationCounts

section Reading

def StoredDeferred.read (before shift offset : ℕ) : StoredDeferred → DeferredObservation
  | .time seenAt => ⟨seenAt, before + offset, .unmarked⟩
  | .entry seenAt index none => ⟨seenAt, index + shift, .unmarked⟩
  | .entry seenAt index (some mark) => ⟨seenAt, index + shift, .marked mark⟩

/-- An entry from before marks existed keeps its stored shape. -/
def DeferredObservation.store (occurrence : DeferredObservation) : StoredDeferred :=
  match occurrence.mark with
  | .unmarked => .entry occurrence.seenAt occurrence.index none
  | .marked mark => .entry occurrence.seenAt occurrence.index (some mark)

/-- The occurrences to decide on: the deferred ones the count still covers, and
then those seen for the first time. -/
def pendingTimes (deferred : List StoredDeferred) (current before shift : ℕ) (polledAt : ℤ)
    (startMark : Option ℚ) : List DeferredObservation :=
  let held := if current < before then []
    else (deferred.take (current - before)).zipIdx.map (fun entry =>
      entry.1.read before shift entry.2)
  held ++ (List.range' held.length (current - before - held.length)).map (fun offset =>
    ⟨polledAt, before + offset, .marked startMark⟩)

end Reading

section Deciding
variable (input : PollInput) (rebaselined : Bool) (identity : String)

/-- The state of the loop over one identity's occurrences. -/
structure Deciding where
  watch : Watch
  backlog : ℕ
  looks : ℕ
  newOccurrences : List Occurrence
  unmarkedOccurrences : List Occurrence
  applications : ApplicationCounts
  remaining : List DeferredObservation
  admitted : ℕ
  suppressedCount : ℕ

/-- An application is recorded for an occurrence with a numeric mark. -/
def recordFor (occurrence : DeferredObservation) (sequence : ℕ) (suppressed : Bool)
    (counts : ApplicationCounts) (tables : Applications) : ApplicationCounts × Applications :=
  match input.intake, rebaselined, occurrence.mark with
  | some rows, false, .marked (some mark) =>
    recordApplication input.now rows identity sequence suppressed occurrence.seenAt mark counts
      tables
  | _, _, _ => (counts, tables)

/-- Members that wait for this identity's intent are tied to it. -/
def tieMembers (sequence : ℕ) (tables : Applications) : Applications :=
  { tables with
    members := tables.members.map (fun member =>
      if member.identity = identity && member.memberIntentSequence.isNone &&
          tables.applications.any (fun application =>
            application.id = member.applicationId && application.closedAt.isNone) then
        { member with memberIntentSequence := some sequence }
      else member) }

def newIntent (sequence : ℕ) (seenAt : ℤ) (suppressed : Bool) : Intent :=
  { sequence := sequence
    identity := identity
    canonicalIdentity := none
    observedAt := seenAt
    state := if suppressed then .suppressed else .pending
    claimedUntil := none
    claimedAt := none
    chargedAt := none
    attempts := 0
    retryAfter := none }

def admitOccurrence (s : Deciding) (occurrence : DeferredObservation) (suppressed : Bool) :
    Deciding :=
  let sequence := s.watch.nextSequence
  let inserted : Applications :=
    { s.watch.toApplications with
      intents := s.watch.intents ++ [newIntent identity sequence occurrence.seenAt suppressed] }
  let (applications, tables) := recordFor input rebaselined identity occurrence sequence
    suppressed s.applications (tieMembers identity sequence inserted)
  let isUnmarked : Bool := occurrence.mark = .unmarked || occurrence.mark = .marked none
  { s with
    watch := { s.watch with toApplications := tables, nextSequence := sequence + 1 }
    applications := applications
    unmarkedOccurrences := s.unmarkedOccurrences ++
      if isUnmarked then [⟨identity, occurrence.index⟩] else []
    newOccurrences := s.newOccurrences ++ [⟨identity, occurrence.index⟩]
    suppressedCount := s.suppressedCount + if suppressed then 1 else 0
    backlog := s.backlog + if suppressed then 0 else 1
    admitted := s.admitted + 1 }

def decideOccurrence (s : Deciding) (occurrence : DeferredObservation) : Option Deciding :=
  (input.isSuppressed s.looks identity occurrence.seenAt).map (fun decision =>
    let s := { s with looks := s.looks + 1 }
    if decision = .defer || (decision = .suppressed && 1000 ≤ s.suppressedCount) ||
        (decision ≠ .suppressed && input.backlogLimit ≤ s.backlog) then
      { s with remaining := s.remaining ++ [occurrence] }
    else admitOccurrence input rebaselined identity s occurrence (decision = .suppressed))

end Deciding

section Reconciling
variable (input : PollInput) (startMark : Option ℚ) (rebaselined : Bool)
  (existing : OrderedMap String CountRow)

/-- The state of the loop over the identities. -/
structure Reconciling where
  watch : Watch
  backlog : ℕ
  looks : ℕ
  created : ℕ
  newOccurrences : List Occurrence
  unmarkedOccurrences : List Occurrence
  applications : ApplicationCounts
  risen : List String

def noRow : CountRow := ⟨0, []⟩

/-- Occurrences a new parser reads for the first time, taken to sit ahead of the
deferred ones. -/
def shiftOf (rebaselined : Bool) (current counted held : ℕ) : ℕ :=
  if rebaselined then current - counted - held else 0

def reconcileIdentity (s : Reconciling) (identity : String) : Option Reconciling :=
  let current := (input.counts.get? identity).getD 0
  let row := (existing.get? identity).getD noRow
  let deferred := row.deferredObservedAts
  let counted := row.occurrenceCount
  let shift := shiftOf rebaselined current counted deferred.length
  let before := counted + shift
  let start : Deciding :=
    { watch := s.watch
      backlog := s.backlog
      looks := s.looks
      newOccurrences := s.newOccurrences
      unmarkedOccurrences := s.unmarkedOccurrences
      applications := s.applications
      remaining := []
      admitted := 0
      suppressedCount := 0 }
  ((pendingTimes deferred current before shift input.polledAt startMark).foldlM
    (decideOccurrence input rebaselined identity) start).map (fun decided =>
    let recorded := if current < before then current else before + decided.admitted
    { watch :=
        { decided.watch with
          counts := decided.watch.counts.set identity
            ⟨recorded, decided.remaining.map DeferredObservation.store⟩ }
      backlog := decided.backlog
      looks := decided.looks
      created := s.created + decided.admitted
      newOccurrences := decided.newOccurrences
      unmarkedOccurrences := decided.unmarkedOccurrences
      applications := decided.applications
      risen := if !rebaselined && counted + deferred.length < current then s.risen ++ [identity]
        else s.risen })

end Reconciling

section Polling

/-- `Math.max` of the serials of the rows, where it is finite. -/
def maxSerial (input : PollInput) : Option ℚ :=
  ((input.intake.getD []).filterMap IntakeRow.submittedSerial).max?

/-- `GREATEST`, which passes over nulls. -/
def greatest : Option ℚ → Option ℚ → Option ℚ
  | some a, some b => some (max a b)
  | some a, none => some a
  | none, b => b

def backlogOf (intents : List Intent) : ℕ :=
  intents.countP (fun row => row.state = .pending || row.state = .claimed)

/-- The first poll records every count and admits nothing. -/
def baseline (input : PollInput) (watch : Watch) : Watch :=
  { watch with
    source := some ⟨input.polledAt, input.polledAt, input.parserVersion, maxSerial input⟩
    counts := watch.counts.setAll
      (input.counts.entries.map (fun entry => (entry.1, ⟨entry.2, []⟩))) }

/-- `new Set([...previous.keys(), ...counts.keys()])` -/
def identitiesOf (existing : OrderedMap String CountRow) (counts : OrderedMap String ℕ) :
    List String :=
  existing.keys ++ counts.keys.filter (fun identity => !existing.has identity)

def reconcileApplicantCounts (input : PollInput) (watch : Watch) :
    Option (PollResult × Watch) :=
  match watch.source with
  | none =>
    some
      ({ baseline := true
         rebaselined := false
         created := 0
         backlog := 0
         newOccurrences := []
         startMark := none
         risen := []
         unmarkedOccurrences := []
         applications := ⟨0, 0, 0⟩ },
        baseline input watch)
  | some source =>
    let rebaselined : Bool := source.parserVersion ≠ input.parserVersion
    let start : Reconciling :=
      { watch := watch
        backlog := backlogOf watch.intents
        looks := 0
        created := 0
        newOccurrences := []
        unmarkedOccurrences := []
        applications := ⟨0, 0, 0⟩
        risen := [] }
    ((identitiesOf watch.counts input.counts).foldlM
      (reconcileIdentity input source.submittedSerialMark rebaselined watch.counts) start).map
      (fun s =>
        ({ baseline := false
           rebaselined := rebaselined
           created := s.created
           backlog := s.backlog
           newOccurrences := s.newOccurrences
           startMark := source.submittedSerialMark
           risen := s.risen
           unmarkedOccurrences := s.unmarkedOccurrences
           applications := s.applications },
          { s.watch with
            source := some
              { source with
                lastPolledAt := input.polledAt
                parserVersion := input.parserVersion
                submittedSerialMark :=
                  greatest source.submittedSerialMark (maxSerial input) } }))

/-- A poll commits, or is rolled back. -/
def poll (input : PollInput) (watch : Watch) : Watch :=
  match reconcileApplicantCounts input watch with
  | some (_, after) => after
  | none => watch

end Polling

end SlashWho.ApplicantCounts
