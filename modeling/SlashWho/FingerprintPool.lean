import SlashWho.FingerprintParser
import SlashWho.Runs

/-!
The fingerprint parser's pool of threads. A parse hands its body to the thread that owes the fewest
replies and keeps a copy; the reply finds it by its id. A parse that cannot be handed over, and the
parses of a thread that dies, are done on the calling thread. A thread may stop at any time; its
messages are then lost, and its exit is still to be told. A body is handed over once: it is read
from its response and is nobody else's.
-/

namespace SlashWho.FingerprintParser

structure Pending (Body : Type*) where
  body : Body
  /-- The call whose promise `resolve` settles. -/
  call : ℕ

/-- Whether a thread runs, and whether its exit was told once it does not. -/
inductive Stage
  | running
  | ended
  | exited
  deriving DecidableEq

structure PoolThread (Body : Type*) where
  pending : OrderedMap ℕ (Pending Body)
  dead : Bool
  /-- Whether the thread keeps the process alive: `ref` and `unref`. -/
  refd : Bool
  inbox : List (ℕ × Body)
  outbox : List (ℕ × Option (List ℚ))
  stage : Stage

structure Pool (Body : Type*) where
  /-- Every thread that was started, by its place among the starts. -/
  thread : ℕ → PoolThread Body
  spawned : ℕ
  /-- The threads of the pool. -/
  threads : List ℕ
  nextId : ℕ
  closed : Bool
  bodies : List Body
  settled : List (ℕ × Option AchievementFingerprint)
  /-- How many parses each death reported to `onThreadDeath` left. -/
  deaths : List ℕ

variable {Body : Type*}

namespace Pool

def fresh : PoolThread Body where
  pending := OrderedMap.empty
  dead := false
  refd := false
  inbox := []
  outbox := []
  stage := .running

def initial : Pool Body where
  thread := fun _ => fresh
  spawned := 0
  threads := []
  nextId := 0
  closed := false
  bodies := []
  settled := []
  deaths := []

def pendingSize (s : Pool Body) (t : ℕ) : ℕ := (s.thread t).pending.entries.length

def setThread (s : Pool Body) (t : ℕ) (thread : PoolThread Body) : Pool Body :=
  { s with thread := Function.update s.thread t thread }

def resolve (s : Pool Body) (call : ℕ) (result : Option AchievementFingerprint) : Pool Body :=
  { s with settled := s.settled ++ [(call, result)] }

def spawn (s : Pool Body) : Pool Body :=
  { s.setThread s.spawned fresh with spawned := s.spawned + 1 }

/-- The thread a parse goes to, if one can be found. `spawns` is whether a thread
could be started where one is, and a reduction of no threads throws. -/
def pick (size : ℚ) (spawns : Bool) (s : Pool Body) : Pool Body × Option ℕ :=
  let threads := s.threads.filter (fun t => !(s.thread t).dead)
  let s := { s with threads := threads }
  if (threads.length : ℚ) < size then
    if spawns then ({ s.spawn with threads := threads ++ [s.spawned] }, some s.spawned)
    else (s, none)
  else
    match threads with
    | [] => (s, none)
    | first :: rest =>
      (s, some (rest.foldl (fun least t => if s.pendingSize t < s.pendingSize least then t
        else least) first))

end Pool

variable (decode : Body → Option Value)

namespace Pool

/-- What a parse does with the thread it goes to. `posts` is whether its message
could be posted; one posted to a thread that no longer runs is never read. -/
def post (s : Pool Body) (t call : ℕ) (body : Body) (posts : Bool) : Pool Body :=
  let id := s.nextId
  let thread := s.thread t
  let s := { s with nextId := id + 1 }
  if posts then
    s.setThread t
      { thread with
        pending := thread.pending.set id ⟨body, call⟩
        refd := if thread.pending.entries.length = 0 then true else thread.refd
        inbox := if thread.stage = .running then thread.inbox ++ [(id, body)] else thread.inbox }
  else
    let pending := (thread.pending.set id ⟨body, call⟩).erase id
    (s.setThread t
      { thread with
        pending := pending
        refd := if pending.entries.length = 0 then false
          else if thread.pending.entries.length = 0 then true else thread.refd }).resolve call
      (fingerprintFromBytes decode body)

def parse (size : ℚ) (body : Body) (spawns posts : Bool) (s : Pool Body) : Pool Body :=
  let call := s.bodies.length
  let s := { s with bodies := s.bodies ++ [body] }
  if s.closed then s.resolve call (fingerprintFromBytes decode body)
  else
    match s.pick size spawns with
    | (s, none) => s.resolve call (fingerprintFromBytes decode body)
    | (s, some t) => s.post decode t call body posts

/-- The listener of a thread's messages. -/
def onMessage (s : Pool Body) (t id : ℕ) (pairs : Option (List ℚ)) : Pool Body :=
  let thread := s.thread t
  match thread.pending.get? id with
  | none => s
  | some pending =>
    let left := thread.pending.erase id
    (s.setThread t
      { thread with
        pending := left
        refd := if left.entries.length = 0 then false else thread.refd }).resolve
      pending.call (fingerprintFromReply pairs)

/-- The listener of a thread's error and of its exit. -/
def fail (s : Pool Body) (t : ℕ) : Pool Body :=
  let thread := s.thread t
  if thread.dead then s
  else
    { s.setThread t { thread with dead := true, pending := OrderedMap.empty } with
      deaths := if s.closed then s.deaths else s.deaths ++ [thread.pending.entries.length]
      settled := s.settled ++
        thread.pending.values.map (fun p => (p.call, fingerprintFromBytes decode p.body)) }

end Pool

/-- What may happen next. `close` asks its threads to stop, which each does later
if it runs; a thread may answer, stop and be heard of in any order. -/
inductive Event (Body : Type*)
  | parse (body : Body) (spawns posts : Bool)
  /-- A thread answers its first message. -/
  | answer (t : ℕ)
  /-- A thread's first reply arrives. -/
  | message (t : ℕ)
  | stop (t : ℕ)
  | error (t : ℕ)
  | exit (t : ℕ)
  | close

namespace Pool

def answer (s : Pool Body) (t : ℕ) : Pool Body :=
  let thread := s.thread t
  match thread.inbox with
  | [] => s
  | (id, body) :: inbox =>
    s.setThread t
      { thread with inbox := inbox, outbox := thread.outbox ++ [(id, reply decode body)] }

def message (s : Pool Body) (t : ℕ) : Pool Body :=
  let thread := s.thread t
  match thread.outbox with
  | [] => s
  | (id, pairs) :: outbox =>
    (s.setThread t { thread with outbox := outbox }).onMessage t id pairs

def stop (s : Pool Body) (t : ℕ) : Pool Body :=
  let thread := s.thread t
  if t < s.spawned ∧ thread.stage = .running then
    s.setThread t { thread with stage := .ended, inbox := [] }
  else s

def exit (s : Pool Body) (t : ℕ) : Pool Body :=
  if (s.thread t).stage = .ended then
    let s := s.fail decode t
    s.setThread t { s.thread t with stage := .exited }
  else s

def step (size : ℚ) (s : Pool Body) : Event Body → Pool Body
  | .parse body spawns posts => s.parse decode size body spawns posts
  | .answer t => s.answer decode t
  | .message t => s.message t
  | .stop t => s.stop t
  | .error t => if t < s.spawned then s.fail decode t else s
  | .exit t => s.exit decode t
  | .close => { s with closed := true }

end Pool

end SlashWho.FingerprintParser
