import Mathlib.Data.Int.Notation
import Mathlib.Data.List.Basic
import SlashWho.Runs

/-!
One caller's bucket of charges. A search that starts a discovery run and a refresh each charge the
bucket; a search that is given up cancels its run and takes its charge back; expired charges are
removed. Transactions run statement by statement beside each other: a reservation holds the bucket's
lock to its end, and a cancel the row of its run until it deletes the charge. What a search reads of
suppressions, snapshots and the negative cache it is told. A limit that is no whole number is
refused like zero and is left out, and so is a claimed run that a fingerprint sweep puts back in
the queue, which no charge is taken or given back for.
-/

namespace SlashWho.SearchCharges

variable {κ : Type*} [DecidableEq κ]

inductive Status
  | queued
  | running
  | retrying
  | complete
  | failed
  deriving DecidableEq

def Status.active : Status → Bool
  | .queued | .running | .retrying => true
  | .complete | .failed => false

structure DiscoveryRun (κ : Type*) where
  rootKey : κ
  status : Status
  attempt : ℕ

/-- A row of `rate_limit_events`, with the call that inserted it. -/
structure Charge where
  call : ℕ
  discoveryRunId : Option ℕ
  expiresAt : ℤ
  deriving DecidableEq

inductive Answer
  | suppressed
  | fresh
  | negative
  | active (run : ℕ)
  | rateLimited (retryAt : Option ℤ)
  | reserved (run : ℕ)
  | allowed
  | refused (retryAt : Option ℤ)
  | failed (fault : String)
  deriving DecidableEq

def Answer.charges : Answer → Bool
  | .reserved _ | .allowed => true
  | _ => false

inductive Phase
  | reading
  | counting
  | inserting
  deriving DecidableEq

/-- A reservation under way, of a run for a root or of a refresh. -/
structure Reservation (κ : Type*) where
  call : ℕ
  root : Option κ
  now : ℤ
  expiresAt : ℤ
  phase : Phase

structure State (κ : Type*) where
  run : ℕ → Option (DiscoveryRun κ)
  runs : ℕ
  charges : List Charge
  /-- The reservation that holds the bucket's lock. -/
  holder : Option (Reservation κ)
  /-- The runs whose rows cancels hold. -/
  cancelling : List ℕ
  calls : ℕ
  answers : List (ℕ × Answer)
  /-- Every charge that was ever inserted. -/
  inserted : List Charge
  claimed : List ℕ
  refunded : List ℕ
  faults : List String

namespace State

def initial : State κ where
  run := fun _ => none
  runs := 0
  charges := []
  holder := none
  cancelling := []
  calls := 0
  answers := []
  inserted := []
  claimed := []
  refunded := []
  faults := []

variable (s : State κ)

def statusOf (id : ℕ) : Option Status := (s.run id).map DiscoveryRun.status

def isActive (root : κ) (id : ℕ) : Bool :=
  match s.run id with
  | some run => run.rootKey = root && run.status.active
  | none => false

def activeRun (root : κ) : Option ℕ := (List.range s.runs).find? (s.isActive root)

def usage (now : ℤ) : ℕ := s.charges.countP (fun c => now < c.expiresAt)

/-- The earliest instant at which an unexpired charge expires. -/
def retryAt (now : ℤ) : Option ℤ :=
  ((s.charges.map Charge.expiresAt).filter (fun expiresAt => now < expiresAt)).min?

def answer (call : ℕ) (answer : Answer) : State κ :=
  { s with holder := none, answers := s.answers ++ [(call, answer)] }

def setStatus (id : ℕ) (status : Status) : State κ :=
  { s with run := Function.update s.run id ((s.run id).map fun r => { r with status := status }) }

end State

section Reserving
variable (limit : ℕ)

/-- The first statement of a reservation, which waits while another holds the lock. -/
def lock (root : Option κ) (now expiresAt : ℤ) (phase : Phase) (s : State κ) : State κ :=
  { s with
    holder := some ⟨s.calls, root, now, expiresAt, phase⟩
    calls := s.calls + 1 }

def requestFault (now expiresAt : ℤ) : Option String :=
  if limit < 1 then some "rate_limit_out_of_range"
  else if expiresAt ≤ now then some "rate_limit_expiry_out_of_range"
  else none

/-- `searchReservations.reserve`, up to its search for an active run. -/
def search (root : κ) (now expiresAt : ℤ) (suppressed fresh negative : Bool) (s : State κ) :
    State κ :=
  match requestFault limit now expiresAt with
  | some fault =>
    { s with calls := s.calls + 1, answers := s.answers ++ [(s.calls, .failed fault)] }
  | none =>
    if s.holder.isSome then s
    else
      let call := s.calls
      let s := lock (some root) now expiresAt .reading s
      if suppressed then s.answer call .suppressed
      else if fresh then s.answer call .fresh
      else if negative then s.answer call .negative
      else s

def refresh (now expiresAt : ℤ) (s : State κ) : State κ :=
  match requestFault limit now expiresAt with
  | some fault =>
    { s with calls := s.calls + 1, answers := s.answers ++ [(s.calls, .failed fault)] }
  | none =>
    if s.holder.isSome then s else lock none now expiresAt .counting s

/-- The inserts of a reservation, and its end. A second active run of a root the
index refuses. -/
def insert (r : Reservation κ) (s : State κ) : State κ :=
  match r.root with
  | some root =>
    if (s.activeRun root).isSome then s.answer r.call (.failed "database")
    else
      let charge : Charge := ⟨r.call, some s.runs, r.expiresAt⟩
      { s.answer r.call (.reserved s.runs) with
        run := Function.update s.run s.runs (some ⟨root, .queued, 0⟩)
        runs := s.runs + 1
        charges := s.charges ++ [charge]
        inserted := s.inserted ++ [charge] }
  | none =>
    let charge : Charge := ⟨r.call, none, r.expiresAt⟩
    { s.answer r.call .allowed with
      charges := s.charges ++ [charge]
      inserted := s.inserted ++ [charge] }

def advance (s : State κ) : State κ :=
  match s.holder with
  | none => s
  | some r =>
    match r.phase with
    | .reading =>
      match r.root.bind s.activeRun with
      | none => { s with holder := some { r with phase := .counting } }
      -- the row is locked to be read, so a cancel of it goes first
      | some id => if id ∈ s.cancelling then s else s.answer r.call (.active id)
    | .counting =>
      if limit ≤ s.usage r.now then
        match r.root with
        | some _ =>
          match s.retryAt r.now with
          | some retryAt => s.answer r.call (.rateLimited (some retryAt))
          | none => s.answer r.call (.failed "rate_limit_retry_missing")
        | none => s.answer r.call (.refused (s.retryAt r.now))
      else { s with holder := some { r with phase := .inserting } }
    | .inserting => insert r s

end Reserving

section Runs

def cancel (id : ℕ) (s : State κ) : State κ :=
  if id ∈ s.cancelling then s
  else if s.statusOf id = some .queued then { s with cancelling := id :: s.cancelling }
  else { s with faults := s.faults ++ ["search_reservation_not_cancellable"] }

/-- The second, and the cancel's end: it stands only with one charge deleted. -/
def finishCancel (id : ℕ) (s : State κ) : State κ :=
  if id ∈ s.cancelling then
    let s := { s with cancelling := s.cancelling.erase id }
    if s.charges.countP (fun c => c.discoveryRunId = some id) = 1 then
      { s.setStatus id .failed with
        charges := s.charges.filter (fun c => c.discoveryRunId ≠ some id)
        refunded := s.refunded ++ [id] }
    else { s with faults := s.faults ++ ["search_reservation_charge_missing"] }
  else s

def cleanupExpired (now : ℤ) (s : State κ) : State κ :=
  { s with charges := s.charges.filter (fun c => now < c.expiresAt) }

def claim (id attempt : ℕ) (s : State κ) : State κ :=
  if id ∈ s.cancelling then s
  else
    match s.run id with
    | none => s
    | some run =>
      if run.attempt < attempt ∧ run.status.active = true then
        { s with
          run := Function.update s.run id
            (some { run with status := .running, attempt := attempt })
          claimed := s.claimed ++ [id] }
      else s

/-- `runs.markRetrying`, `runs.fail` and the completions, each of an active run. -/
def settle (id : ℕ) (status : Status) (s : State κ) : State κ :=
  if id ∈ s.cancelling ∨ status = .queued then s
  else if (s.statusOf id).any Status.active then s.setStatus id status
  else s

end Runs

inductive Event (κ : Type*)
  | search (root : κ) (now expiresAt : ℤ) (suppressed fresh negative : Bool)
  | refresh (now expiresAt : ℤ)
  | advance
  | cancel (id : ℕ)
  | finishCancel (id : ℕ)
  | cleanupExpired (now : ℤ)
  | claim (id attempt : ℕ)
  | settle (id : ℕ) (status : Status)

def Event.at? : Event κ → Option ℤ
  | .search _ now .. => some now
  | .refresh now _ => some now
  | .cleanupExpired now => some now
  | _ => none

def step (limit : ℕ) (s : State κ) : Event κ → State κ
  | .search root now expiresAt suppressed fresh negative =>
    search limit root now expiresAt suppressed fresh negative s
  | .refresh now expiresAt => refresh limit now expiresAt s
  | .advance => advance limit s
  | .cancel id => cancel id s
  | .finishCancel id => finishCancel id s
  | .cleanupExpired now => cleanupExpired now s
  | .claim id attempt => claim id attempt s
  | .settle id status => settle id status s

end SlashWho.SearchCharges
