import SlashWho.ApplicantDossier
import SlashWho.IsoTimestamps
import SlashWho.Runs

/-!
The account-wide Cutting Edge evidence of a dossier's subjects. All but the fingerprint-derived
subjects are read at once, in whatever order the provider answers; then the others one by one, until
some subject has established the account. The serial rule it stands for is written out beside it.
What a subject's read comes to is fixed, and an error is what the source reads of one.
-/

namespace SlashWho.CuttingEdgeGathering

open Characters (CharacterKey)
open ApplicantDossier (DossierLimitation)
open IsoTimestamps (toISOString maxTime)

inductive SubjectSource
  | input
  | claimed
  | declaredMain
  | profileGuess
  | fingerprint
  | submitted
  | manuallyAdded
  deriving DecidableEq

structure DossierSubject where
  key : CharacterKey
  source : SubjectSource

structure DossierCuttingEdgeEvidence where
  achievementId : String
  completedAt : String
  deriving DecidableEq

structure ReadError where
  message : String
  /-- Its `kind`, where it has one. -/
  kind : Option String
  /-- Its `retryAfterMs`, where that is a finite number. -/
  retryAfterMs : Option ℚ
  abortError : Bool
  deriving DecidableEq

/-- What `getCompletedAchievements` came to for a subject. -/
structure Reading where
  result : Except ReadError (List DossierCuttingEdgeEvidence)
  settledAt : ℤ
  signalAborted : Bool

inductive CuttingEdgeOutcome
  | evidence (supported : List DossierCuttingEdgeEvidence) (establishes : Bool)
  | limitation (limitation : DossierLimitation)
  | abort (error : ReadError)

def CuttingEdgeOutcome.aborts : CuttingEdgeOutcome → Option ReadError
  | .abort error => some error
  | _ => none

def CuttingEdgeOutcome.settles : CuttingEdgeOutcome → Bool
  | .evidence _ establishes => establishes
  | _ => false

structure CuttingEdgeEvidenceResult where
  cuttingEdges : List DossierCuttingEdgeEvidence
  limitations : List DossierLimitation

def failureKinds : List String := ["not_found", "forbidden", "transient", "schema_drift"]

def isAbort (error : ReadError) (signalAborted : Bool) : Bool := signalAborted || error.abortError

def blizzardLimitationCode (error : ReadError) : String :=
  match error.kind with
  | none => "unavailable"
  | some kind =>
    if kind ∉ failureKinds then "unavailable"
    else if kind = "not_found" || kind = "schema_drift" then kind
    else "unavailable"

/-- `new Date(Date.now() + Math.max(0, retryAfterMs))`, where that is a date. -/
def retryAfterAt (error : ReadError) (now : ℤ) : Option ℤ :=
  error.retryAfterMs.bind fun ms =>
    let at_ := (now : ℚ) + max 0 ms
    let instant := if 0 ≤ at_ then at_.floor else at_.ceil
    if -maxTime ≤ instant ∧ instant ≤ maxTime then some instant else none

/-- `limitation`, of Blizzard and one character. -/
def blizzardLimitation (character : CharacterKey) (error : ReadError) (now : ℤ) :
    DossierLimitation where
  source := .blizzard
  character := some character
  code := blizzardLimitationCode error
  observedAt := some (toISOString now)
  retryAt := (retryAfterAt error now).map toISOString
  encounters := none
  recovery := none

structure Options where
  catalogue : List String
  stored : List (Option (List DossierCuttingEdgeEvidence))
  storedOnly : Bool
  blizzard : ℕ → Reading

namespace Options
variable (options : Options)

def isAccountWideCuttingEdgeAchievement (achievementId : String) : Bool :=
  achievementId ∈ options.catalogue

def evidenceOf (character : DossierSubject) (achievements : List DossierCuttingEdgeEvidence) :
    CuttingEdgeOutcome :=
  let supported := achievements.filter fun achievement =>
    options.isAccountWideCuttingEdgeAchievement achievement.achievementId
  .evidence supported (character.source ≠ .claimed && 0 < supported.length)

def read (character : DossierSubject) (index : ℕ) : CuttingEdgeOutcome :=
  let stored := (options.stored[index]?).join
  if options.storedOnly then options.evidenceOf character (stored.getD [])
  else
    match stored with
    | some achievements => options.evidenceOf character achievements
    | none =>
      let reading := options.blizzard index
      match reading.result with
      | .ok achievements => options.evidenceOf character achievements
      | .error error =>
        if isAbort error reading.signalAborted then .abort error
        else .limitation (blizzardLimitation character.key error reading.settledAt)

end Options

variable (subjects : List DossierSubject) (options : Options)

/-- The read of the subject at a position. -/
def readAt (index : ℕ) : Option CuttingEdgeOutcome :=
  (subjects[index]?).map (fun character => options.read character index)

def isFingerprint (index : ℕ) : Bool :=
  (subjects[index]?).any (fun character => character.source = .fingerprint)

def leading : List ℕ :=
  (List.range subjects.length).filter (fun index => !isFingerprint subjects index)

def tail : List ℕ := (List.range subjects.length).filter (isFingerprint subjects)

/-- The outcomes so far, by position, and the reads that are under way. -/
structure Batch where
  outcomes : List (Option CuttingEdgeOutcome)
  waiting : List ℕ

def Batch.start : Batch := ⟨List.replicate subjects.length none, leading subjects⟩

def settle (batch : Batch) (index : ℕ) : Batch :=
  if index ∈ batch.waiting then
    ⟨batch.outcomes.set index (readAt subjects options index), batch.waiting.erase index⟩
  else batch

def tailLoop : List ℕ → List (Option CuttingEdgeOutcome) → Bool →
    Except ReadError (List (Option CuttingEdgeOutcome))
  | [], outcomes, _ => .ok outcomes
  | index :: rest, outcomes, established =>
    if established then .ok outcomes
    else
      match readAt subjects options index with
      | some (.abort error) => .error error
      | outcome =>
        tailLoop rest (outcomes.set index outcome) (outcome.any CuttingEdgeOutcome.settles)

def collect (outcomes : List (Option CuttingEdgeOutcome)) : CuttingEdgeEvidenceResult where
  cuttingEdges := outcomes.flatMap fun
    | some (.evidence supported _) => supported
    | _ => []
  limitations := outcomes.filterMap fun
    | some (.limitation limitation) => some limitation
    | _ => none

def afterBatch (outcomes : List (Option CuttingEdgeOutcome)) :
    Except ReadError CuttingEdgeEvidenceResult :=
  match outcomes.findSome? (fun outcome => outcome.bind CuttingEdgeOutcome.aborts) with
  | some error => .error error
  | none =>
    (tailLoop subjects options (tail subjects) outcomes
      (outcomes.any (fun outcome => outcome.any CuttingEdgeOutcome.settles))).map collect

/-- What a run comes to by the order in which reads settle, once all of the batch have. -/
def gatherCuttingEdgeEvidence (settled : List ℕ) :
    Option (Except ReadError CuttingEdgeEvidenceResult) :=
  let batch := Runs.after (settle subjects options) (Batch.start subjects) settled
  if batch.waiting = [] then some (afterBatch subjects options batch.outcomes) else none

/-- The serial rule: subjects are read one after another, a fingerprint-derived
one only while no subject has established the account, and the first abort ends
the pass. -/
def serialLoop : List ℕ → List (Option CuttingEdgeOutcome) → Bool →
    Except ReadError (List (Option CuttingEdgeOutcome))
  | [], outcomes, _ => .ok outcomes
  | index :: rest, outcomes, established =>
    if isFingerprint subjects index && established then serialLoop rest outcomes established
    else
      match readAt subjects options index with
      | some (.abort error) => .error error
      | outcome =>
        serialLoop rest (outcomes.set index outcome)
          (established || outcome.any CuttingEdgeOutcome.settles)

/-- The subjects that are not fingerprint-derived first, and what was read in
subject order. -/
def serialPass : Except ReadError CuttingEdgeEvidenceResult :=
  (serialLoop subjects options (leading subjects ++ tail subjects)
    (List.replicate subjects.length none) false).map collect

end SlashWho.CuttingEdgeGathering
