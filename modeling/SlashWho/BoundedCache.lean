import SlashWho.RecencyOrder

/-!
The bounded cache of loaded values and remembered failures. A call answers from a
stored entry, joins the load in flight for its key, or starts one; a load that settles
is stored first and leaves the pending loads later, and the calls that wait for it are
answered after that. Between any two of these the clock may move and other calls come
in. The log notes what happened, and no step reads it.
-/

namespace SlashWho.BoundedCache

open RecencyOrder

variable {α ε : Type}

inductive CacheEntry (α ε : Type)
  | value (value : α) (expiresAt : ℤ)
  | failure (error : ε) (expiresAt : ℤ)

def CacheEntry.expiresAt : CacheEntry α ε → ℤ
  | .value _ expiresAt => expiresAt
  | .failure _ expiresAt => expiresAt

/-- What a hit on the entry answers: its value, or its error thrown again. -/
def CacheEntry.result : CacheEntry α ε → Except ε α
  | .value loaded _ => .ok loaded
  | .failure thrown _ => .error thrown

structure CacheOptions (ε : Type) where
  ttlMs : ℤ
  maxEntries : ℕ
  negativeTtlMs : Option ℤ
  cacheFailure : ε → Bool

/-- The entries, and the load in flight for each key. -/
structure Cache (α ε : Type) where
  entries : OrderedMap String (CacheEntry α ε)
  pending : OrderedMap String ℕ

inductive CallOutcome (α ε : Type)
  | hit (entry : CacheEntry α ε)
  | shared (request : ℕ)
  | capacity
  | miss

variable (o : CacheOptions ε)

/-- A call its entry does not answer. -/
def joinOrLoad (c : Cache α ε) (key : String) (request : ℕ) :
    Cache α ε × CallOutcome α ε :=
  match c.pending.get? key with
  | some active => (c, .shared active)
  | none =>
    if c.pending.keys.length ≥ o.maxEntries then (c, .capacity)
    else ({ c with pending := c.pending.set key request }, .miss)

/-- A hit is put back last, with the expiry it had; an expired entry is taken out. -/
def lookup (c : Cache α ε) (now : ℤ) (key : String) (request : ℕ) :
    Cache α ε × CallOutcome α ε :=
  match c.entries.get? key with
  | none => joinOrLoad o c key request
  | some entry =>
    if entry.expiresAt > now then
      ({ c with entries := (c.entries.erase key).set key entry }, .hit entry)
    else joinOrLoad o { c with entries := c.entries.erase key } key request

def remember (c : Cache α ε) (key : String) (entry : CacheEntry α ε) :
    Cache α ε :=
  let kept := if c.entries.keys.length ≥ o.maxEntries then dropFirst c.entries else c.entries
  { c with entries := kept.set key entry }

/-- The entry a settled load is remembered by, if it is. -/
def entryOf (now : ℤ) : Except ε α → Option (CacheEntry α ε)
  | .ok value => some (.value value (now + o.ttlMs))
  | .error error =>
    match o.negativeTtlMs with
    | none => none
    | some negativeTtlMs =>
      if o.cacheFailure error then some (.failure error (now + negativeTtlMs)) else none

def settle (c : Cache α ε) (now : ℤ) (key : String) (result : Except ε α) :
    Cache α ε :=
  match entryOf o now result with
  | none => c
  | some entry => remember o c key entry

/-! ### Every interleaving of calls and loads -/

/-- A load is in flight until it settles, and pending until it is done with. -/
inductive Phase (α ε : Type)
  | loading
  | settled (result : Except ε α)
  | finished (result : Except ε α)

structure Request (α ε : Type) where
  key : String
  phase : Phase α ε

inductive Event (α ε : Type)
  | loaded (key : String) (result : Except ε α)
  | stored (key : String) (entry : CacheEntry α ε) (at_ : ℤ)
  | hit (key : String) (entry : CacheEntry α ε) (at_ : ℤ)
  | handed (key : String) (result : Except ε α)

/-- A stored entry is used as it is stored, and by every hit. -/
def Event.use : Event α ε → Option String
  | .stored key _ _ => some key
  | .hit key _ _ => some key
  | _ => none

structure System (α ε : Type) where
  cache : Cache α ε
  now : ℤ
  requests : ℕ → Option (Request α ε)
  awaiting : List (String × ℕ)
  log : List (Event α ε)

namespace System

def uses (s : System α ε) : List String := s.log.filterMap Event.use

/-- A call, for which a new load would be `request`. -/
def call (o : CacheOptions ε) (s : System α ε) (key : String) (request : ℕ) : System α ε :=
  match lookup o s.cache s.now key request with
  | (cache, .hit entry) => { s with cache := cache, log := s.log ++ [.hit key entry s.now] }
  | (cache, .shared active) => { s with cache := cache, awaiting := s.awaiting ++ [(key, active)] }
  | (cache, .capacity) => { s with cache := cache }
  | (cache, .miss) =>
    { s with
      cache := cache
      requests := Function.update s.requests request (some ⟨key, .loading⟩)
      awaiting := s.awaiting ++ [(key, request)] }

/-- The load's promise settles, and what it answered is remembered. -/
def complete (o : CacheOptions ε) (s : System α ε) (request : ℕ) (key : String)
    (result : Except ε α) : System α ε :=
  { s with
    cache := settle o s.cache s.now key result
    requests := Function.update s.requests request (some ⟨key, .settled result⟩)
    log := s.log ++ .loaded key result ::
      ((entryOf o s.now result).map (fun entry => Event.stored key entry s.now)).toList }

/-- The load leaves the pending ones. -/
def finish (s : System α ε) (request : ℕ) (key : String) (result : Except ε α) : System α ε :=
  { s with
    cache := { s.cache with pending := s.cache.pending.erase key }
    requests := Function.update s.requests request (some ⟨key, .finished result⟩) }

/-- A call that waits for a load is answered as the load was. -/
def deliver (s : System α ε) (key : String) (request : ℕ) (result : Except ε α) : System α ε :=
  { s with
    awaiting := s.awaiting.erase (key, request)
    log := s.log ++ [.handed key result] }

end System

inductive Step (o : CacheOptions ε) : System α ε → System α ε → Prop
  | tick (s : System α ε) (now : ℤ) : Step o s { s with now := now }
  | call (s : System α ε) (key : String) (request : ℕ) (hnew : s.requests request = none) :
      Step o s (s.call o key request)
  | complete (s : System α ε) (request : ℕ) (key : String) (result : Except ε α)
      (h : s.requests request = some ⟨key, .loading⟩) : Step o s (s.complete o request key result)
  | finish (s : System α ε) (request : ℕ) (key : String) (result : Except ε α)
      (h : s.requests request = some ⟨key, .settled result⟩) : Step o s (s.finish request key result)
  | deliver (s : System α ε) (key loadedKey : String) (request : ℕ) (result : Except ε α)
      (hawaits : (key, request) ∈ s.awaiting)
      (h : s.requests request = some ⟨loadedKey, .finished result⟩) :
      Step o s (s.deliver key request result)

def System.empty (now : ℤ) : System α ε := ⟨⟨OrderedMap.empty, OrderedMap.empty⟩, now, fun _ => none, [], []⟩

inductive Reachable (o : CacheOptions ε) : System α ε → Prop
  | start (now : ℤ) : Reachable o (System.empty now)
  | step {s s' : System α ε} (h : Reachable o s) (hstep : Step o s s') : Reachable o s'

end SlashWho.BoundedCache
