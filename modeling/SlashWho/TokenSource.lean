import SlashWho.CharacterDiscovery
import SlashWho.JsonNarrowing

/-!
The client-credentials token source, and the GraphQL requests that ask it. A call joins the pending
promise, or makes it: `fetchToken` answers from the cache at once or asks upstream. The wrapper of
`finally` clears `pending` in one microtask and settles three later, which resumes the calls that
wait on it. Microtasks run in the order they were queued; whatever else happens comes between two of
them.
-/

namespace SlashWho.TokenSource

open CharacterDiscovery (UpstreamFailure)
open JsonNarrowing

abbrev Token := String

structure CachedToken where
  value : Token
  expiresAt : ℚ

/-- A response without its body. `retryAfterMs` is what its `Retry-After` header reads as. -/
structure Response where
  ok : Bool
  status : ℕ
  retryAfterMs : Option (Option ℚ)

def classifyResponse (response : Response) : UpstreamFailure :=
  if response.status = 404 then .notFound
  else if response.status = 403 then .forbidden
  else .transient (some response.status) response.retryAfterMs

/-- A refusal of our credentials says nothing about what a caller asked for. -/
def tokenFailure (response : Response) : UpstreamFailure :=
  match classifyResponse response with
  | .transient status retryAfterMs => .transient status retryAfterMs
  | _ => .transient (some response.status) none

def finiteNumber : Option Json → Option ℚ
  | some (.number value) => some value
  | _ => none

/-- The token of a response's body and how long it lasts, where both can be used. -/
def tokenOf (body : Option Json) : Option (Token × ℚ) :=
  match record body with
  | none => none
  | some fields =>
    match nonEmptyString (fields.lookup "access_token"),
        finiteNumber (fields.lookup "expires_in") with
    | some value, some expiresIn => if expiresIn ≤ 0 then none else some (value, expiresIn)
    | _, _ => none

/-- Where a run of `fetchToken` stands. -/
inductive Phase
  | requested
  | reading
  | settled (outcome : Except UpstreamFailure Token)
  deriving DecidableEq

structure Fetch where
  phase : Phase
  /-- The request's own deadline has passed. -/
  deadline : Bool
  /-- The calls that wait on it, in the order they joined. -/
  waiters : List ℕ
  deriving DecidableEq

def Fetch.answer (fetch : Fetch) : Option (Except UpstreamFailure Token) :=
  match fetch.phase with
  | .settled outcome => some outcome
  | _ => none

inductive Status
  | waiting
  /-- Rejected with the reason of the call's own signal. -/
  | aborted
  | failed (failure : UpstreamFailure)
  | resolved (value : Token)
  deriving DecidableEq

/-- A `token` call. What was invalidated before it started, and whether it then joined an answer
that had been, are kept of it. -/
structure Call where
  signal : Option ℕ
  fetch : Option ℕ
  status : Status
  refused : List Token
  stale : Bool
  deriving DecidableEq

/-- A GraphQL request: its `token` calls, and the token whose refusal it retries after. -/
structure Request where
  signal : Option ℕ
  first : ℕ
  refused : Option Token
  second : Option ℕ
  deriving DecidableEq

/-- A microtask, by the fetch, the call or the request it is of. -/
inductive Job
  | clear (fetch : ℕ)
  | pass (fetch : ℕ)
  | adopt (fetch : ℕ)
  | settle (fetch : ℕ)
  | resume (call : ℕ)
  | retry (request : ℕ)
  deriving DecidableEq

/-- The token source with its callers and the microtasks queued. `issued` and `invalidated` are
the tokens upstream has issued and those `invalidate` was called with. -/
structure State where
  now : ℚ
  cached : Option CachedToken
  pending : Option ℕ
  fetches : ℕ → Option Fetch
  nextFetch : ℕ
  calls : ℕ → Option Call
  nextCall : ℕ
  requests : ℕ → Option Request
  nextRequest : ℕ
  aborted : List ℕ
  queue : List Job
  issued : List Token
  invalidated : List Token

namespace State

def initial (now : ℚ) : State where
  now := now
  cached := none
  pending := none
  fetches := fun _ => none
  nextFetch := 0
  calls := fun _ => none
  nextCall := 0
  requests := fun _ => none
  nextRequest := 0
  aborted := []
  queue := []
  issued := []
  invalidated := []

variable (s : State)

/-- `signal?.throwIfAborted()` throws. -/
def throws (signal : Option ℕ) : Bool :=
  signal.any fun id => s.aborted.contains id

/-- What a fetch that `fetchToken` is done with answered. -/
def outcome (fetch : ℕ) : Option (Except UpstreamFailure Token) :=
  (s.fetches fetch).bind Fetch.answer

def setFetch (id : ℕ) (fetch : Fetch) : State :=
  { s with fetches := Function.update s.fetches id (some fetch) }

def setCall (id : ℕ) (call : Call) : State :=
  { s with calls := Function.update s.calls id (some call) }

def setRequest (id : ℕ) (request : Request) : State :=
  { s with requests := Function.update s.requests id (some request) }

def enqueue (jobs : List Job) : State := { s with queue := s.queue ++ jobs }

/-- `fetchToken` returned or threw: its `finally` callback is queued. -/
def settleFetch (id : ℕ) (fetch : Fetch) (outcome : Except UpstreamFailure Token) : State :=
  (s.setFetch id { fetch with phase := .settled outcome }).enqueue [.clear id]

def create (fetch : Fetch) : State :=
  ({ s with pending := some s.nextFetch, nextFetch := s.nextFetch + 1 } : State).setFetch
    s.nextFetch fetch

/-- `pending ??= fetchToken(..)` where nothing is pending. -/
def fetchToken : State :=
  let fetch : Fetch := { phase := .requested, deadline := false, waiters := [] }
  match s.cached with
  | some cached =>
    if s.now < cached.expiresAt then
      (s.create fetch).settleFetch s.nextFetch fetch (.ok cached.value)
    else s.create fetch
  | none => s.create fetch

/-- The pending promise wraps a token that `invalidate` was called with. -/
def stale : Bool :=
  match s.pending with
  | none => false
  | some id =>
    match s.outcome id with
    | some (.ok value) => s.invalidated.contains value
    | _ => false

/-- The call awaits the pending promise. -/
def join (id : ℕ) (fetch : Fetch) (call : Call) : State :=
  { (s.setFetch id { fetch with waiters := fetch.waiters ++ [s.nextCall] }).setCall
      s.nextCall { call with fetch := some id } with
    nextCall := s.nextCall + 1 }

def token (signal : Option ℕ) : State :=
  let call : Call :=
    { signal := signal, fetch := none, status := .waiting, refused := s.invalidated,
      stale := s.stale }
  if s.throws signal then
    { s.setCall s.nextCall { call with status := .aborted } with nextCall := s.nextCall + 1 }
  else
    let s' := if s.pending.isSome then s else s.fetchToken
    match s'.pending.bind fun id => (s'.fetches id).map fun fetch => (id, fetch) with
    | some (id, fetch) => s'.join id fetch call
    | none => s'

/-- The response's headers arrived. -/
def respond (id : ℕ) (fetch : Fetch) (response : Response) : State :=
  if fetch.deadline then s.settleFetch id fetch (.error (.transient none none))
  else if response.ok then s.setFetch id { fetch with phase := .reading }
  else s.settleFetch id fetch (.error (tokenFailure response))

def issuedBy (body : Option Json) : List Token :=
  match record body with
  | none => []
  | some fields => (nonEmptyString (fields.lookup "access_token")).toList

def readBody (id : ℕ) (fetch : Fetch) (body : Option Json) : State :=
  let s := { s with issued := issuedBy body ++ s.issued }
  if fetch.deadline then s.settleFetch id fetch (.error (.transient none none))
  else
    match tokenOf body with
    | none => s.settleFetch id fetch (.error .schemaDrift)
    | some (value, expiresIn) =>
      let cached : CachedToken := ⟨value, s.now + max 0 (expiresIn * 1000 - 60000)⟩
      ({ s with cached := some cached } : State).settleFetch id fetch (.ok value)

def invalidate (value : Token) : State :=
  { s with
    cached := s.cached.filter fun cached => cached.value ≠ value
    invalidated := value :: s.invalidated }

/-- `graphql`, up to the answer of its first `token` call. -/
def graphql (signal : Option ℕ) : State :=
  ({ s.setRequest s.nextRequest ⟨signal, s.nextCall, none, none⟩ with
    nextRequest := s.nextRequest + 1 } : State).token signal

/-- A request was answered `auth_rejected` for the token it carried. -/
def rejected (id : ℕ) (request : Request) (value : Token) : State :=
  ((s.invalidate value).setRequest id { request with refused := some value }).enqueue [.retry id]

/-- The second `graphqlOnce`. -/
def retry (id : ℕ) : State :=
  match s.requests id with
  | none => s
  | some request =>
    (s.token request.signal).setRequest id { request with second := some s.nextCall }

/-- The rest of a call once the promise it awaits is settled. -/
def resume (id : ℕ) : State :=
  match s.calls id with
  | none => s
  | some call =>
    match call.fetch.bind s.outcome with
    | none => s
    | some (.error failure) => s.setCall id { call with status := .failed failure }
    | some (.ok value) =>
      if s.throws call.signal then s.setCall id { call with status := .aborted }
      else s.setCall id { call with status := .resolved value }

/-- What a microtask does. The thunk settles a promise that nothing has adopted yet. -/
def perform : Job → State
  | .clear id => { s with pending := none }.enqueue [.pass id, .adopt id]
  | .pass _ => s
  | .adopt id => s.enqueue [.settle id]
  | .settle id => s.enqueue (((s.fetches id).elim [] Fetch.waiters).map Job.resume)
  | .resume id => s.resume id
  | .retry id => s.retry id

/-- The first microtask is run and leaves the queue. -/
def run (job : Job) : State :=
  { s.perform job with queue := (s.perform job).queue.tail }

end State

open State

/-- One thing that happens: time passes, a signal aborts, a call or a GraphQL request is made,
the token request goes on, a token is refused, or the next microtask runs. -/
inductive Step : State → State → Prop
  | clock (s : State) (now : ℚ) : Step s { s with now := now }
  | abort (s : State) (signal : ℕ) : Step s { s with aborted := signal :: s.aborted }
  | token (s : State) (signal : Option ℕ) : Step s (s.token signal)
  | invalidate (s : State) (value : Token) : Step s (s.invalidate value)
  | deadline (s : State) (id : ℕ) (fetch : Fetch) (hfetch : s.fetches id = some fetch) :
      Step s (s.setFetch id { fetch with deadline := true })
  | unreachable (s : State) (id : ℕ) (fetch : Fetch) (hfetch : s.fetches id = some fetch)
      (hphase : fetch.phase = .requested) :
      Step s (s.settleFetch id fetch (.error (.transient none none)))
  | respond (s : State) (id : ℕ) (fetch : Fetch) (response : Response)
      (hfetch : s.fetches id = some fetch) (hphase : fetch.phase = .requested) :
      Step s (s.respond id fetch response)
  /-- Upstream issues no token that it issued or that a caller named before. -/
  | readBody (s : State) (id : ℕ) (fetch : Fetch) (body : Option Json)
      (hfetch : s.fetches id = some fetch) (hphase : fetch.phase = .reading)
      (hfresh : ∀ value ∈ issuedBy body, value ∉ s.issued ∧ value ∉ s.invalidated) :
      Step s (s.readBody id fetch body)
  | graphql (s : State) (signal : Option ℕ) : Step s (s.graphql signal)
  | rejected (s : State) (id : ℕ) (request : Request) (call : Call) (value : Token)
      (hrequest : s.requests id = some request) (hfirst : request.refused = none)
      (hcall : s.calls request.first = some call) (hvalue : call.status = .resolved value)
      (hsignal : s.throws request.signal = false) :
      Step s (s.rejected id request value)
  | run (s : State) (job : Job) (rest : List Job) (hnext : s.queue = job :: rest) :
      Step s (s.run job)

def Reachable (s : State) : Prop :=
  ∃ now, Relation.ReflTransGen Step (State.initial now) s

end SlashWho.TokenSource
