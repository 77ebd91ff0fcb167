import Mathlib.Algebra.Order.Ring.Rat
import SlashWho.Runs
import SlashWho.SlidingWindows

/-!
The Blizzard request limiter. Callers wait in a queue for a slot, given in arrival order while fewer
than `maxConcurrent` are taken and fewer than `maxPerSecond` were given in the trailing second; one
timer wakes the queue when the second is what holds it. A waiter leaves the queue when it starts, or
when its signal is aborted. An event is one turn of the event loop, and the clock is read once for
each slot the drain looks at.
-/

namespace SlashWho.RequestLimiter

structure RequestLimits where
  maxConcurrent : ℚ
  maxPerSecond : ℚ
  deriving DecidableEq

def windowMs : ℚ := 1000

theorem one_le_toNat {value : ℚ} (h : ¬ value < 1) : 1 ≤ value.num.toNat := by
  have hpos : 0 < value.num := Rat.num_pos.mpr (lt_of_lt_of_le zero_lt_one (not_lt.mp h))
  omega

def validLimit (value : ℚ) (name : String) : Except String {limit : ℕ // 1 ≤ limit} :=
  if h : value.den ≠ 1 ∨ value < 1 then .error ("blizzard_" ++ name ++ "_invalid")
  else .ok ⟨value.num.toNat, one_le_toNat (not_or.mp h).2⟩

/-- A limiter's two bounds, each of them at least one. -/
structure Limiter where
  maxConcurrent : ℕ
  maxPerSecond : ℕ
  concurrent_pos : 1 ≤ maxConcurrent
  perSecond_pos : 1 ≤ maxPerSecond

/-- The bounds of a limiter that was created. Its state is `State.initial`. -/
def createRequestLimiter (limits : RequestLimits) : Except String Limiter := do
  let maxConcurrent ← validLimit limits.maxConcurrent "max_concurrent"
  let maxPerSecond ← validLimit limits.maxPerSecond "max_per_second"
  return ⟨maxConcurrent, maxPerSecond, maxConcurrent.property, maxPerSecond.property⟩

theorem validLimit_natCast {limit : ℕ} (h : 1 ≤ limit) (name : String) :
    validLimit (limit : ℚ) name = .ok ⟨limit, h⟩ := by
  have hvalid : ¬ ((limit : ℚ).den ≠ 1 ∨ (limit : ℚ) < 1) := by
    rw [not_or, not_not, not_lt]
    exact ⟨Rat.den_natCast limit, by exact_mod_cast h⟩
  unfold validLimit
  rw [dif_neg hvalid]
  rfl

theorem createRequestLimiter_bounds (limiter : Limiter) :
    createRequestLimiter ⟨limiter.maxConcurrent, limiter.maxPerSecond⟩ = .ok limiter := by
  unfold createRequestLimiter
  rw [validLimit_natCast limiter.concurrent_pos, validLimit_natCast limiter.perSecond_pos]
  rfl

variable {Signal : Type*} [DecidableEq Signal]

/-- One call of `acquire`, by its place among the calls. -/
structure Waiter (Signal : Type*) where
  call : ℕ
  signal : Option Signal
  deriving DecidableEq

structure State (Signal : Type*) where
  queue : List (Waiter Signal)
  recentStarts : List ℚ
  active : ℕ
  timerPending : Bool
  /-- The delays of the timeouts that are set and have not run. -/
  timers : List ℚ
  /-- The waiters whose abort listener is on their signal. -/
  listening : List (Waiter Signal)
  aborted : List Signal
  /-- The waiters given a slot, with when. -/
  started : List (Waiter Signal × ℚ)
  /-- The waiters whose wait was rejected. -/
  cancelled : List (Waiter Signal)
  /-- The waiters whose release was called. -/
  released : List (Waiter Signal)
  /-- How often `acquire` was called. -/
  calls : ℕ
  /-- How often the clock was read. -/
  readings : ℕ

namespace State

def initial : State Signal where
  queue := []
  recentStarts := []
  active := 0
  timerPending := false
  timers := []
  listening := []
  aborted := []
  started := []
  cancelled := []
  released := []
  calls := 0
  readings := 0

def inFlight (s : State Signal) : List (Waiter Signal) :=
  (s.started.map Prod.fst).filter (fun w => w ∉ s.released)

/-- The turn of `drain` that gives the front waiter its slot: `start`. -/
def start (s : State Signal) (waiter : Waiter Signal) (queue : List (Waiter Signal))
    (recentStarts : List ℚ) (now : ℚ) : State Signal :=
  { s with
    queue := queue
    recentStarts := recentStarts ++ [now]
    active := s.active + 1
    listening := s.listening.erase waiter
    started := s.started ++ [(waiter, now)]
    readings := s.readings + 1 }

/-- The turn of `drain` that finds the second full. -/
def wait (s : State Signal) (recentStarts : List ℚ) (now : ℚ) : State Signal :=
  if s.timerPending then { s with recentStarts := recentStarts, readings := s.readings + 1 }
  else
    { s with
      recentStarts := recentStarts
      timerPending := true
      timers := s.timers ++ [recentStarts.headD 0 + windowMs - now]
      readings := s.readings + 1 }

end State

variable (limiter : Limiter) (clock : ℕ → ℚ)

/-- The turns of `drain`, one for each waiter it takes from the queue. -/
def drainTurns : List (Waiter Signal) → State Signal → State Signal
  | [], s => s
  | waiter :: queue, s =>
    if s.active < limiter.maxConcurrent then
      let now := clock s.readings
      let recentStarts := SlidingWindows.expire windowMs now s.recentStarts
      if limiter.maxPerSecond ≤ recentStarts.length then s.wait recentStarts now
      else drainTurns queue (s.start waiter queue recentStarts now)
    else s

variable (s : State Signal)

def drain : State Signal := drainTurns limiter clock s.queue s

/-- `onAbort` of a waiter's wait, which cancels it if it is still in the queue. -/
def onAbort (waiter : Waiter Signal) : State Signal :=
  if waiter ∈ s.queue then
    { s with
      queue := s.queue.erase waiter
      listening := s.listening.erase waiter
      cancelled := s.cancelled ++ [waiter] }
  else s

def acquire (signal : Option Signal) (s : State Signal) : State Signal :=
  let waiter : Waiter Signal := ⟨s.calls, signal⟩
  let s := { s with calls := s.calls + 1 }
  if ∃ sig ∈ s.aborted, signal = some sig then { s with cancelled := s.cancelled ++ [waiter] }
  else
    drain limiter clock
      { s with
        listening := if signal.isSome then s.listening ++ [waiter] else s.listening
        queue := s.queue ++ [waiter] }

/-- The function a started wait resolves with. No other waiter has one to call. -/
def release (waiter : Waiter Signal) (s : State Signal) : State Signal :=
  if waiter ∉ s.started.map Prod.fst then s
  else if waiter ∈ s.released then s
  else drain limiter clock { s with released := s.released ++ [waiter], active := s.active - 1 }

/-- A signal is aborted once, and calls its listeners in their order. -/
def abort (signal : Signal) (s : State Signal) : State Signal :=
  if signal ∈ s.aborted then s
  else
    (s.listening.filter (fun w => w.signal = some signal)).foldl onAbort
      { s with aborted := s.aborted ++ [signal] }

/-- The timeout that was set runs, however late or early. -/
def timer : State Signal :=
  match s.timers with
  | [] => s
  | _ :: timers => drain limiter clock { s with timers := timers, timerPending := false }

inductive Event (Signal : Type*) where
  | acquire (signal : Option Signal)
  | release (waiter : Waiter Signal)
  | abort (signal : Signal)
  | timer
  deriving DecidableEq

def step : Event Signal → State Signal
  | .acquire signal => acquire limiter clock signal s
  | .release waiter => release limiter clock waiter s
  | .abort signal => abort signal s
  | .timer => timer limiter clock s

end SlashWho.RequestLimiter
