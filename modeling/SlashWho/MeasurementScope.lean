import Mathlib.Data.Rat.Floor
import SlashWho.OrderedMap
import SlashWho.Runs

/-!
One unit of work's performance totals. Calls are timed against a bucket each,
and a section of a call may be excluded from its bucket. Where calls overlap, a
scope either adds every call's own time, or splits each instant evenly between
the calls then in progress: the time since the last reading of the clock is
handed out at the next one, among the frames that were charging between the two.
-/

namespace SlashWho.MeasurementScope

inductive Overlapping
  | summed
  | shared
  deriving DecidableEq

/-- `MeasurementScopeOptions`, `summed` being the default. -/
structure Options where
  overlapping : Overlapping
  fastCallThresholdMs : String → Option ℚ

/-- What a call of `time` is given, its prefix first, and whether its work succeeds. -/
structure Given where
  bucket : String
  label : Option String
  succeeded : Bool

/-- A number, a name or a flag, as a record shows it. -/
inductive Total
  | number (value : ℚ)
  | name (label : String)
  | flag
  deriving DecidableEq

/-- The totals that are not split between calls. -/
structure Tallies where
  values : OrderedMap String ℚ
  names : OrderedMap String String
  flags : List String

namespace Tallies

def add (field : String) (value : ℚ) (t : Tallies) : Tallies :=
  { t with values := t.values.set field ((t.values.get? field).getD 0 + value) }

/-- Strictly greater, so the first call that reached the maximum keeps its name. -/
def slowest (field : String) (value : ℚ) (label : Option String) (t : Tallies) : Tallies :=
  if ((t.values.get? (field ++ "Ms")).all (· < value)) then
    { t with
      values := t.values.set (field ++ "Ms") value
      names := match label with
        | none => t.names
        | some label => t.names.set (field ++ "Name") label }
  else t

/-- The fast end of a bucket whose threshold is given, of calls that succeeded. -/
def fastEnd (bucket : String) (elapsed : ℚ) (threshold : Option ℚ) (succeeded : Bool)
    (t : Tallies) : Tallies :=
  match succeeded, threshold with
  | true, some threshold =>
    let t : Tallies := { t with
      values := t.values.set (bucket ++ "MinCallMs")
        (min ((t.values.get? (bucket ++ "MinCallMs")).getD elapsed) elapsed) }
    let t := t.add (bucket ++ "FastCalls") (if elapsed < threshold then 1 else 0)
    { t with values := t.values.set (bucket ++ "FastCallThresholdMs") threshold }
  | _, _ => t

def observeMax (field : String) (value : ℚ) (t : Tallies) : Tallies :=
  { t with values := t.values.set field (max ((t.values.get? field).getD 0) value) }

def mark (field : String) (t : Tallies) : Tallies :=
  { t with flags := if field ∈ t.flags then t.flags else t.flags ++ [field] }

end Tallies

/-- What the closure of a call holds; its sections do not overlap, so one start is enough. -/
structure Call where
  startedAt : ℚ
  excludedMs : ℚ
  innerStartedAt : ℚ

/-- Frames and closures by the number of their call. -/
structure Scope where
  tallies : Tallies
  charging : List ℕ
  charged : ℕ → ℚ
  calls : ℕ → Call
  sharedTotals : OrderedMap String ℚ
  chargedUntil : ℚ

def Scope.initial : Scope where
  tallies := ⟨.empty, .empty, []⟩
  charging := []
  charged _ := 0
  calls _ := ⟨0, 0, 0⟩
  sharedTotals := .empty
  chargedUntil := 0

def mathRound (x : ℚ) : ℤ := ⌊x + 1 / 2⌋

/-- `charging.add` -/
def addFrame (k : ℕ) (charging : List ℕ) : List ℕ :=
  if k ∈ charging then charging else charging ++ [k]

/-- Hands out the time since the last reading to the frames charging until now. -/
def advance (now : ℚ) (s : Scope) : Scope where
  tallies := s.tallies
  charging := s.charging
  charged k :=
    if k ∈ s.charging then
      s.charged k + max 0 (now - s.chargedUntil) / s.charging.length
    else s.charged k
  calls := s.calls
  sharedTotals := s.sharedTotals
  chargedUntil := now

/-- What happens to a call that the clock is read for. -/
inductive Mark
  | start
  | enter
  | leave
  | finish
  deriving DecidableEq

structure Reading where
  call : ℕ
  mark : Mark
  at_ : ℚ

/-- What is done to a scope; a call is done to it reading by reading. -/
inductive Event
  | time (reading : Reading)
  | observe (field : String) (value : ℚ)
  | observeMax (field : String) (value : ℚ)
  | observeSlowest (field : String) (value : ℚ) (label : Option String)
  | increment (field : String) (amount : ℚ)
  | mark (field : String)

variable (options : Options) (given : ℕ → Given)

/-- In shared mode, hands out the time and then lets frames join or leave. -/
def charge (now : ℚ) (frames : List ℕ → List ℕ) (s : Scope) : Scope :=
  match options.overlapping with
  | .summed => s
  | .shared => { advance now s with charging := frames s.charging }

def elapsedOf (call : Call) (endedAt : ℚ) : ℚ :=
  max 0 (mathRound (endedAt - call.startedAt - call.excludedMs))

/-- The work has returned or thrown. -/
def finish (k : ℕ) (endedAt : ℚ) (s : Scope) : Scope :=
  let bucket := (given k).bucket
  let elapsed := elapsedOf (s.calls k) endedAt
  let s := charge options endedAt (·.erase k) s
  let s := match options.overlapping with
    | .shared => { s with
        sharedTotals := s.sharedTotals.set bucket
          ((s.sharedTotals.get? bucket).getD 0 + s.charged k)
        tallies := s.tallies.add (bucket ++ "CallMs") elapsed }
    | .summed => { s with tallies := s.tallies.add (bucket ++ "Ms") elapsed }
  { s with
    tallies := (((s.tallies.add (bucket ++ "Calls") 1).slowest (bucket ++ "MaxCall") elapsed
      (given k).label).fastEnd bucket elapsed (options.fastCallThresholdMs bucket)
        (given k).succeeded) }

def time (reading : Reading) (s : Scope) : Scope :=
  let k := reading.call
  let now := reading.at_
  match reading.mark with
  | .start =>
    let s := { s with charged := Function.update s.charged k 0 }
    { charge options now (addFrame k) s with calls := Function.update s.calls k ⟨now, 0, now⟩ }
  | .enter =>
    { charge options now (·.erase k) s with
      calls := Function.update s.calls k { s.calls k with innerStartedAt := now } }
  | .leave =>
    { charge options now (addFrame k) s with
      calls := Function.update s.calls k { s.calls k with
        excludedMs := (s.calls k).excludedMs + max 0 (now - (s.calls k).innerStartedAt) } }
  | .finish => finish options given k now s

def step (s : Scope) : Event → Scope
  | .time reading => time options given reading s
  | .observe field value => { s with tallies := s.tallies.add field (max 0 (mathRound value)) }
  | .observeMax field value =>
    { s with tallies := s.tallies.observeMax field (max 0 (mathRound value)) }
  | .observeSlowest field value label =>
    { s with tallies := s.tallies.slowest field (max 0 (mathRound value)) label }
  | .increment field amount => { s with tallies := s.tallies.add field amount }
  | .mark field => { s with tallies := s.tallies.mark field }

def scopeOf (events : List Event) : Scope := Runs.after (step options given) Scope.initial events

/-- What a scope reports of the time it split, rounded down. -/
def sharedBuckets (s : Scope) : List (String × ℤ) :=
  s.sharedTotals.entries.map (fun e => (e.1 ++ "Ms", ⌊e.2⌋))

/-- Each kind of total is spread over those before it. -/
def totals (s : Scope) : OrderedMap String Total :=
  (((OrderedMap.ofList (s.tallies.values.entries.map (fun e => (e.1, .number e.2)))).setAll
    ((sharedBuckets s).map (fun e => (e.1, .number e.2)))).setAll
      (s.tallies.names.entries.map (fun e => (e.1, .name e.2)))).setAll
        (s.tallies.flags.map (fun field => (field, .flag)))

/-! What the calls do, by the readings alone. -/

def readings (events : List Event) : List Reading :=
  events.filterMap (fun event => match event with
    | .time reading => some reading
    | _ => none)

variable (past : List Reading)

def count (k : ℕ) (mark : Mark) : ℕ :=
  past.countP (fun reading => reading.call = k ∧ reading.mark = mark)

/-- A call has started, has not ended, and has left every section it entered. -/
def Charging (k : ℕ) : Prop :=
  count past k .start = 1 ∧ count past k .finish = 0 ∧ count past k .enter = count past k .leave

/-- A call has started, has not ended, and is in a section that it has yet to leave. -/
def InSection (k : ℕ) : Prop :=
  count past k .start = 1 ∧ count past k .finish = 0 ∧
    count past k .enter = count past k .leave + 1

instance (past : List Reading) (k : ℕ) : Decidable (Charging past k) :=
  inferInstanceAs (Decidable (_ ∧ _ ∧ _))

instance (past : List Reading) (k : ℕ) : Decidable (InSection past k) :=
  inferInstanceAs (Decidable (_ ∧ _ ∧ _))

/-- A call starts once; its sections lie within it and follow one another. -/
def Allowed (reading : Reading) : Prop :=
  match reading.mark with
  | .start => ∀ mark, count past reading.call mark = 0
  | .leave => InSection past reading.call
  | _ => Charging past reading.call

/-- Timed calls and their sections in any order, by a clock that never goes back. -/
inductive Legal : List Reading → Prop
  | nil : Legal []
  | next {past : List Reading} {reading : Reading} (hpast : Legal past)
      (hclock : ∀ earlier ∈ past, earlier.at_ ≤ reading.at_) (hallowed : Allowed past reading) :
      Legal (past ++ [reading])

end SlashWho.MeasurementScope
