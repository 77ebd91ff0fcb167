import Mathlib.Algebra.Group.Int.Defs
import Mathlib.Data.List.MinMax
import SlashWho.Runs

/-!
The applicant watcher's intents and the workers that drain them. A worker claims the earliest due
intent for ten minutes, resolves its canonical character, is admitted to dispatch it or told to
leave it, and settles it. Claims expire by the clock, and later updates look only at the state of
the row, not at whose claim it holds. Times are microseconds from the start of a UTC day.
-/

namespace SlashWho.ApplicantIntents

inductive IntentState
  | pending
  | claimed
  | done
  | suppressed
  deriving DecidableEq

/-- A row of `applicant_source_intents`. -/
structure Intent where
  sequence : ℕ
  identity : String
  canonicalIdentity : Option String
  observedAt : ℤ
  state : IntentState
  claimedUntil : Option ℤ
  claimedAt : Option ℤ
  chargedAt : Option ℤ
  attempts : ℕ
  retryAfter : Option ℤ
  deriving DecidableEq

/-- What a claim hands its worker: the row as it was before the claim. -/
structure IntentRow where
  sequence : ℕ
  identity : String
  observedAt : ℤ
  attempts : ℕ
  deriving DecidableEq

def seconds (n : ℤ) : ℤ := n * 1000000

def minutes (n : ℤ) : ℤ := seconds (n * 60)

def day : ℤ := minutes (24 * 60)

/-- `date_trunc('day', now() AT TIME ZONE 'UTC')` -/
def dayStart (now : ℤ) : ℤ := now - now % day

/-- `UPDATE … WHERE sequence = $1` -/
def updateIntent (sequence : ℕ) (change : Intent → Intent) (intents : List Intent) :
    List Intent :=
  intents.map (fun row => if row.sequence = sequence then change row else row)

/-- `UPDATE … WHERE sequence = $1 AND state = 'claimed'` -/
def updateClaimed (sequence : ℕ) (change : Intent → Intent) (intents : List Intent) :
    List Intent :=
  updateIntent sequence (fun row => if row.state = .claimed then change row else row) intents

def findIntent (sequence : ℕ) (intents : List Intent) : Option Intent :=
  intents.find? (fun row => row.sequence = sequence)

/-- Pending, or under a claim that has expired, and past its retry time. -/
def isDue (now : ℤ) (row : Intent) : Bool :=
  (row.state = .pending || (row.state = .claimed && row.claimedUntil.any (fun t => t < now))) &&
    row.retryAfter.all (fun t => t ≤ now)

def rowOf (intent : Intent) : IntentRow :=
  ⟨intent.sequence, intent.identity, intent.observedAt, intent.attempts⟩

/-- The earliest due intent, passing over rows another transaction has locked. -/
def claimNext (now : ℤ) (locked : ℕ → Bool) (intents : List Intent) :
    Option IntentRow × List Intent :=
  match (intents.filter (fun row => isDue now row && !locked row.sequence)).argmin
      Intent.sequence with
  | none => (none, intents)
  | some intent =>
    (some (rowOf intent),
      updateIntent intent.sequence
        (fun row =>
          { row with
            state := .claimed
            claimedUntil := some (now + minutes 10)
            claimedAt := some now
            attempts := row.attempts + 1 })
        intents)

/-- `state IN ('pending', 'claimed', 'done')` -/
def IntentState.isLive : IntentState → Bool
  | .pending | .claimed | .done => true
  | .suppressed => false

/-- An earlier intent of the same time, known to be the same character. -/
def isEarlier (intent : IntentRow) (canonicalIdentity : String) (row : Intent) : Bool :=
  row.observedAt = intent.observedAt && row.canonicalIdentity = some canonicalIdentity &&
    row.sequence < intent.sequence && row.state.isLive

def earlierIntent (intent : IntentRow) (canonicalIdentity : String) (intents : List Intent) :
    Option Intent :=
  (intents.filter (isEarlier intent canonicalIdentity)).argmin Intent.sequence

/-- The charges of the UTC day so far. -/
def spentToday (now : ℤ) (intents : List Intent) : ℕ :=
  intents.countP (fun row => row.chargedAt.any (fun t => dayStart now ≤ t))

def isUncharged (sequence : ℕ) (intents : List Intent) : Bool :=
  ((findIntent sequence intents).bind Intent.chargedAt).isNone

inductive Admission
  | admitted
  | duplicate
  | wait
  | dailyLimit
  deriving DecidableEq

/-- Charges the daily budget once per canonical dispatch, after resolution. -/
def admitCanonicalIntent (now : ℤ) (intent : IntentRow) (canonicalIdentity : String)
    (perDay : ℕ) (intents : List Intent) : Admission × List Intent :=
  match earlierIntent intent canonicalIdentity intents with
  | some earlier =>
    if earlier.state = .done then
      (.duplicate,
        updateClaimed intent.sequence
          (fun row =>
            { row with
              canonicalIdentity := some canonicalIdentity
              state := .done
              claimedUntil := none
              claimedAt := none })
          intents)
    else
      (.wait,
        updateClaimed intent.sequence
          (fun row =>
            { row with
              canonicalIdentity := some canonicalIdentity
              state := .pending
              claimedUntil := none
              claimedAt := none
              retryAfter := some (now + minutes 1) })
          intents)
  | none =>
    if isUncharged intent.sequence intents && perDay ≤ spentToday now intents then
      (.dailyLimit,
        updateClaimed intent.sequence
          (fun row =>
            { row with
              canonicalIdentity := some canonicalIdentity
              state := .pending
              claimedUntil := none
              claimedAt := none
              retryAfter := some (dayStart now + day) })
          intents)
    else
      (.admitted,
        updateClaimed intent.sequence
          (fun row =>
            { row with
              canonicalIdentity := some canonicalIdentity
              chargedAt := row.chargedAt <|> some now })
          intents)

/-- How a dispatch that ran to its end settles its intent. -/
inductive Settled
  | done
  | suppressed
  deriving DecidableEq

def Settled.state : Settled → IntentState
  | .done => .done
  | .suppressed => .suppressed

def settle (intent : IntentRow) (settled : Settled) (intents : List Intent) : List Intent :=
  updateClaimed intent.sequence
    (fun row => { row with state := settled.state, claimedUntil := none }) intents

/-- After an error the intent waits, longer after each attempt. -/
def putBack (now : ℤ) (intent : IntentRow) (intents : List Intent) : List Intent :=
  updateClaimed intent.sequence
    (fun row =>
      { row with
        state := .pending
        claimedUntil := none
        retryAfter := some (now + seconds (min 3600 (60 * 2 ^ min intent.attempts 6))) })
    intents

inductive Task
  | claimed (intent : IntentRow)
  | admitted (intent : IntentRow) (canonicalIdentity : String)
  deriving DecidableEq

def Task.intent : Task → IntentRow
  | .claimed intent => intent
  | .admitted intent _ => intent

/-- An admission that was granted, and with it a dispatch. -/
structure Dispatch where
  sequence : ℕ
  observedAt : ℤ
  canonicalIdentity : String
  deriving DecidableEq

/-- An intent a worker has settled, by its dispatch or as a duplicate. -/
structure Settlement extends Dispatch where
  asDuplicate : Bool
  deriving DecidableEq

/-- The intents, the workers, and a record of what has happened so far. -/
structure Drain where
  intents : List Intent
  nextSequence : ℕ
  workers : ℕ → Option Task
  dispatches : List Dispatch
  charges : List (ℕ × ℤ)
  settlements : List Settlement

def Drain.start : Drain := ⟨[], 1, fun _ => none, [], [], []⟩

inductive Action
  /-- A poll records an intent, after passing over sequence numbers it lost. -/
  | record (skipped : ℕ) (identity : String) (observedAt : ℤ) (suppressed : Bool)
  | claim (worker : ℕ) (now : ℤ) (locked : ℕ → Bool)
  | admitIntent (worker : ℕ) (now : ℤ) (canonicalIdentity : String)
  | settle (worker : ℕ) (settled : Settled)
  /-- Resolution, admission or collection throws. -/
  | putBack (worker : ℕ) (now : ℤ)
  /-- The worker stops without another word. -/
  | crash (worker : ℕ)

def setTask (workers : ℕ → Option Task) (worker : ℕ) (task : Option Task) : ℕ → Option Task :=
  fun other => if other = worker then task else workers other

def isClaimed (sequence : ℕ) (intents : List Intent) : Bool :=
  (findIntent sequence intents).any (fun row => row.state = .claimed)

def recordIntent (drain : Drain) (skipped : ℕ) (identity : String) (observedAt : ℤ)
    (suppressed : Bool) : Drain :=
  let sequence := drain.nextSequence + skipped
  { drain with
    intents := drain.intents ++
      [{ sequence := sequence
         identity := identity
         canonicalIdentity := none
         observedAt := observedAt
         state := if suppressed then .suppressed else .pending
         claimedUntil := none
         claimedAt := none
         chargedAt := none
         attempts := 0
         retryAfter := none }]
    nextSequence := sequence + 1 }

def dispatchOf (intent : IntentRow) (canonicalIdentity : String) : Dispatch :=
  ⟨intent.sequence, intent.observedAt, canonicalIdentity⟩

/-- A worker's admission, and what its answer makes it do next. -/
def admitTask (perDay : ℕ) (drain : Drain) (worker : ℕ) (now : ℤ) (intent : IntentRow)
    (canonicalIdentity : String) : Drain :=
  let (admission, intents) :=
    admitCanonicalIntent now intent canonicalIdentity perDay drain.intents
  match admission with
  | .admitted =>
    { drain with
      intents := intents
      workers := setTask drain.workers worker (some (.admitted intent canonicalIdentity))
      dispatches := dispatchOf intent canonicalIdentity :: drain.dispatches
      charges :=
        if isClaimed intent.sequence drain.intents &&
            isUncharged intent.sequence drain.intents then
          (intent.sequence, now) :: drain.charges
        else drain.charges }
  | .duplicate =>
    { drain with
      intents := intents
      workers := setTask drain.workers worker none
      settlements :=
        if isClaimed intent.sequence drain.intents then
          ⟨dispatchOf intent canonicalIdentity, true⟩ :: drain.settlements
        else drain.settlements }
  | .wait | .dailyLimit =>
    { drain with
      intents := intents
      workers := setTask drain.workers worker none }

def step (perDay : ℕ) (drain : Drain) : Action → Drain
  | .record skipped identity observedAt suppressed =>
    recordIntent drain skipped identity observedAt suppressed
  | .claim worker now locked =>
    match drain.workers worker, claimNext now locked drain.intents with
    | none, (some intent, intents) =>
      { drain with
        intents := intents
        workers := setTask drain.workers worker (some (.claimed intent)) }
    | _, _ => drain
  | .admitIntent worker now canonicalIdentity =>
    match drain.workers worker with
    | some (.claimed intent) => admitTask perDay drain worker now intent canonicalIdentity
    | _ => drain
  | .settle worker settled =>
    match drain.workers worker with
    | some (.admitted intent canonicalIdentity) =>
      { drain with
        intents := settle intent settled drain.intents
        workers := setTask drain.workers worker none
        settlements :=
          if isClaimed intent.sequence drain.intents then
            ⟨dispatchOf intent canonicalIdentity, false⟩ :: drain.settlements
          else drain.settlements }
    | _ => drain
  | .putBack worker now =>
    match drain.workers worker with
    | some task =>
      { drain with
        intents := putBack now task.intent drain.intents
        workers := setTask drain.workers worker none }
    | none => drain
  | .crash worker => { drain with workers := setTask drain.workers worker none }

end SlashWho.ApplicantIntents
