import Mathlib.Data.List.Pairwise
import SlashWho.TokenSource

/-!
What holds in every state the token source reaches. The pending promise is cleared by the one
microtask queued for it, so a fetch under way is the pending one and no second starts beside it. A
token that was refused is not cached again, so a call is given one only where it joined an answer
that was already there, and a retry is queued behind the microtask that clears such an answer.
-/

namespace SlashWho.TokenSource

open List State
open CharacterDiscovery (UpstreamFailure)
open JsonNarrowing (Json record)

/-- The promise that a queued callback clears. -/
def Job.clears : Job → Option ℕ
  | .clear id => some id
  | _ => none

namespace State

@[simp] theorem outcome_setFetch (s : State) (id f : ℕ) (fetch : Fetch) :
    (s.setFetch id fetch).outcome f = if f = id then fetch.answer else s.outcome f := by
  unfold outcome setFetch
  by_cases hf : f = id
  · subst hf
    simp
  · simp [hf]

theorem outcome_congr {s s' : State} (h : s'.fetches = s.fetches) (f : ℕ) :
    s'.outcome f = s.outcome f := by
  unfold outcome
  rw [h]

end State

/-- The fetches, the promise that wraps one, and the cache. -/
structure Source (s : State) : Prop where
  numbered : ∀ f fetch, s.fetches f = some fetch → f < s.nextFetch
  pending : ∀ f, s.pending = some f → ∃ fetch, s.fetches f = some fetch
  clears : s.queue.filterMap Job.clears =
    (s.pending.filter fun f => (s.outcome f).isSome).toList
  flying : ∀ f fetch, s.fetches f = some fetch → fetch.answer = none → s.pending = some f
  answered : ∀ f value, s.outcome f = some (.ok value) → value ∈ s.issued
  cached : ∀ cached, s.cached = some cached →
    cached.value ∈ s.issued ∧ cached.value ∉ s.invalidated

/-- A call ends as its fetch or its own signal has it, and joined a refused token exactly where
it is stale. -/
structure CallHolds (s : State) (call : Call) : Prop where
  refused : ∀ value ∈ call.refused, value ∈ s.invalidated
  known : ∀ f, call.fetch = some f → ∃ fetch, s.fetches f = some fetch
  aborted : call.status = .aborted → s.throws call.signal = true
  failed : ∀ failure, call.status = .failed failure →
    ∃ f, call.fetch = some f ∧ s.outcome f = some (.error failure)
  resolved : ∀ value, call.status = .resolved value →
    ∃ f, call.fetch = some f ∧ s.outcome f = some (.ok value)
  stale : ∀ f value, call.fetch = some f → s.outcome f = some (.ok value) →
    (value ∈ call.refused ↔ call.stale = true)
  young : ∀ f, call.fetch = some f → s.outcome f = none → call.stale = false

/-- A refused request waits for its second call, or has made one that its token cannot answer. -/
structure RequestHolds (s : State) (id : ℕ) (request : Request) : Prop where
  unretried : request.refused = none → request.second = none
  invalidated : ∀ value, request.refused = some value → value ∈ s.invalidated
  queued : ∀ value, request.refused = some value → request.second = none →
    Job.retry id ∈ s.queue
  second : ∀ value k, request.refused = some value → request.second = some k →
    ∃ call, s.calls k = some call ∧
      ∀ f other, call.fetch = some f → s.outcome f = some (.ok other) → other ≠ value

/-- A retry is not ahead of the callback that clears an answer of the token it was refused. -/
def Behind (s : State) (job later : Job) : Prop :=
  ∀ id f request value, job = .retry id → later = .clear f → s.requests id = some request →
    request.refused = some value → s.outcome f ≠ some (.ok value)

structure Holds (s : State) : Prop where
  source : Source s
  calls : ∀ k call, s.calls k = some call → k < s.nextCall ∧ CallHolds s call
  requests : ∀ id request, s.requests id = some request →
    id < s.nextRequest ∧ RequestHolds s id request
  retries : ∀ id, Job.retry id ∈ s.queue →
    ∃ request value, s.requests id = some request ∧ request.refused = some value
  ordered : s.queue.Pairwise (Behind s)

/-- Answers stay, and one that comes is no token refused before. -/
structure Goes (s s' : State) : Prop where
  known : ∀ f fetch, s.fetches f = some fetch → ∃ fetch', s'.fetches f = some fetch'
  kept : ∀ f outcome, s.outcome f = some outcome → s'.outcome f = some outcome
  fresh : ∀ f fetch value, s.fetches f = some fetch → s.outcome f = none →
    s'.outcome f = some (.ok value) → value ∉ s.invalidated
  aborted : ∀ signal ∈ s.aborted, signal ∈ s'.aborted
  invalidated : ∀ value ∈ s.invalidated, value ∈ s'.invalidated

variable {s s' : State}

theorem goes_of_fetches (hfetches : s'.fetches = s.fetches)
    (haborted : ∀ signal ∈ s.aborted, signal ∈ s'.aborted)
    (hinvalidated : ∀ value ∈ s.invalidated, value ∈ s'.invalidated) : Goes s s' where
  known f fetch hf := ⟨fetch, by rw [hfetches]; exact hf⟩
  kept f outcome hf := by rw [outcome_congr hfetches]; exact hf
  fresh f fetch value _ hnone hsome := by
    rw [outcome_congr hfetches, hnone] at hsome
    cases hsome
  aborted := haborted
  invalidated := hinvalidated

theorem throws_mono (h : ∀ signal ∈ s.aborted, signal ∈ s'.aborted) (signal : Option ℕ)
    (hthrows : s.throws signal = true) : s'.throws signal = true := by
  unfold throws at hthrows ⊢
  cases signal with
  | none => cases hthrows
  | some id =>
    simp only [Option.any_some, contains_iff_mem] at hthrows ⊢
    exact h id hthrows

variable {fetch : Fetch}

/-- What is known of a fetch that a call waits on or was answered by, later on. -/
theorem Goes.ok_of_ok (h : Goes s s') {f : ℕ} {value : Token} (hf : s.fetches f = some fetch)
    (hok : s'.outcome f = some (.ok value)) :
    s.outcome f = some (.ok value) ∨ s.outcome f = none ∧ value ∉ s.invalidated := by
  cases hs : s.outcome f with
  | none => exact .inr ⟨rfl, h.fresh f fetch value hf hs hok⟩
  | some outcome =>
    have hkept := h.kept f outcome hs
    rw [hok] at hkept
    exact .inl hkept.symm

theorem Goes.callHolds (h : Goes s s') {call : Call} (hcall : CallHolds s call) :
    CallHolds s' call where
  refused value hvalue := h.invalidated value (hcall.refused value hvalue)
  known f hf := by
    obtain ⟨fetch, hfetch⟩ := hcall.known f hf
    exact h.known f fetch hfetch
  aborted hstatus := throws_mono h.aborted call.signal (hcall.aborted hstatus)
  failed failure hstatus := by
    obtain ⟨f, hf, houtcome⟩ := hcall.failed failure hstatus
    exact ⟨f, hf, h.kept f _ houtcome⟩
  resolved value hstatus := by
    obtain ⟨f, hf, houtcome⟩ := hcall.resolved value hstatus
    exact ⟨f, hf, h.kept f _ houtcome⟩
  stale f value hf hok := by
    obtain ⟨fetch, hfetch⟩ := hcall.known f hf
    rcases h.ok_of_ok hfetch hok with hbefore | ⟨hnone, hfresh⟩
    · exact hcall.stale f value hf hbefore
    · rw [hcall.young f hf hnone]
      exact iff_of_false (fun hin => hfresh (hcall.refused value hin)) Bool.false_ne_true
  young f hf hnone := by
    apply hcall.young f hf
    cases hs : s.outcome f with
    | none => rfl
    | some outcome =>
      rw [h.kept f outcome hs] at hnone
      cases hnone

theorem CallHolds.same {call : Call} (h : CallHolds s call) (hfetches : s'.fetches = s.fetches)
    (haborted : s'.aborted = s.aborted) (hinvalidated : s'.invalidated = s.invalidated) :
    CallHolds s' call := by
  apply Goes.callHolds _ h
  apply goes_of_fetches hfetches
  · rw [haborted]
    exact fun signal hin => hin
  · rw [hinvalidated]
    exact fun value hin => hin

theorem Source.settled_of_clear (h : Source s) {f : ℕ} (hclear : Job.clear f ∈ s.queue) :
    s.pending = some f ∧ ∃ outcome, s.outcome f = some outcome := by
  have hmem : f ∈ s.queue.filterMap Job.clears := mem_filterMap.mpr ⟨_, hclear, rfl⟩
  rw [h.clears, Option.mem_toList] at hmem
  obtain ⟨hpending, hsome⟩ := Option.filter_eq_some_iff.mp hmem
  exact ⟨hpending, Option.isSome_iff_exists.mp hsome⟩

theorem Source.clear_of_settled (h : Source s) {f : ℕ} {outcome : Except UpstreamFailure Token}
    (hpending : s.pending = some f) (houtcome : s.outcome f = some outcome) :
    Job.clear f ∈ s.queue := by
  have hmem : f ∈ s.queue.filterMap Job.clears := by
    rw [h.clears, Option.mem_toList]
    exact Option.filter_eq_some_iff.mpr ⟨hpending, by rw [houtcome]; rfl⟩
  obtain ⟨job, hjob, hclears⟩ := mem_filterMap.mp hmem
  cases job with
  | clear id =>
    cases hclears
    exact hjob
  | _ => cases hclears

/-- The token source goes on: its calls and requests stay as they are, and what it queues are
callbacks that clear answers of tokens never refused. -/
theorem Holds.goes (h : Holds s) (hgoes : Goes s s') (hsource : Source s')
    (hcalls : s'.calls = s.calls) (hnextCall : s'.nextCall = s.nextCall)
    (hrequests : s'.requests = s.requests) (hnextRequest : s'.nextRequest = s.nextRequest)
    (extra : List Job) (hqueue : s'.queue = s.queue ++ extra)
    (hextra : ∀ job ∈ extra, ∃ f, job = .clear f ∧
      ∀ value, s'.outcome f = some (.ok value) → value ∉ s.invalidated) : Holds s' := by
  have hnoRetry : ∀ id, Job.retry id ∉ extra := by
    intro id hin
    obtain ⟨f, hjob, _⟩ := hextra _ hin
    cases hjob
  refine ⟨hsource, ?_, ?_, ?_, ?_⟩
  · intro k call hcall
    rw [hcalls] at hcall
    rw [hnextCall]
    exact ⟨(h.calls k call hcall).1, hgoes.callHolds (h.calls k call hcall).2⟩
  · intro id request hrequest
    rw [hrequests] at hrequest
    obtain ⟨hid, hholds⟩ := h.requests id request hrequest
    rw [hnextRequest]
    refine ⟨hid, hholds.unretried, fun value hvalue =>
      hgoes.invalidated value (hholds.invalidated value hvalue), ?_, ?_⟩
    · intro value hvalue hsecond
      rw [hqueue]
      exact mem_append_left extra (hholds.queued value hvalue hsecond)
    · intro value k hvalue hsecond
      obtain ⟨call, hcall, hother⟩ := hholds.second value k hvalue hsecond
      refine ⟨call, by rw [hcalls]; exact hcall, ?_⟩
      intro f other hf hok
      obtain ⟨fetch, hfetch⟩ := (h.calls k call hcall).2.known f hf
      rcases hgoes.ok_of_ok hfetch hok with hbefore | ⟨_, hfresh⟩
      · exact hother f other hf hbefore
      · intro heq
        subst heq
        exact hfresh (hholds.invalidated other hvalue)
  · intro id hin
    rw [hqueue] at hin
    rw [hrequests]
    exact h.retries id ((mem_append.mp hin).resolve_right (hnoRetry id))
  · rw [hqueue, pairwise_append]
    refine ⟨?_, ?_, ?_⟩
    · refine h.ordered.imp_of_mem ?_
      intro job later _ hlater hbehind id f request value hjob hclear hrequest hvalue
      rw [hrequests] at hrequest
      have hbefore := hbehind id f request value hjob hclear hrequest hvalue
      subst hclear
      obtain ⟨_, outcome, houtcome⟩ := h.source.settled_of_clear hlater
      rw [hgoes.kept f outcome houtcome, ← houtcome]
      exact hbefore
    · refine pairwise_of_forall_mem_list ?_
      intro job hin later _ id f request value hjob
      subst hjob
      exact absurd hin (hnoRetry id)
    · intro job hjob later hlater id f request value hretry hclear hrequest hvalue hok
      subst hretry
      subst hclear
      obtain ⟨g, hg, hfresh⟩ := hextra _ hlater
      cases hg
      rw [hrequests] at hrequest
      exact hfresh value hok ((h.requests id request hrequest).2.invalidated value hvalue)

theorem Holds.setCall (h : Holds s) (k next : ℕ) (call : Call) (hk : k < next)
    (hnext : s.nextCall ≤ next) (hcall : CallHolds s call)
    (hsame : ∀ before, s.calls k = some before → call.fetch = before.fetch) :
    Holds { s.setCall k call with nextCall := next } := by
  refine ⟨⟨h.source.numbered, h.source.pending, h.source.clears, h.source.flying,
    h.source.answered, h.source.cached⟩, ?_, ?_, h.retries, h.ordered⟩
  · intro k' call' hk'
    change Function.update s.calls k (some call) k' = some call' at hk'
    by_cases heq : k' = k
    · subst heq
      rw [Function.update_self] at hk'
      cases hk'
      exact ⟨hk, hcall.same rfl rfl rfl⟩
    · rw [Function.update_of_ne heq] at hk'
      obtain ⟨hlt, hold⟩ := h.calls k' call' hk'
      exact ⟨Nat.lt_of_lt_of_le hlt hnext, hold.same rfl rfl rfl⟩
  · intro id request hrequest
    obtain ⟨hid, hold⟩ := h.requests id request hrequest
    refine ⟨hid, hold.unretried, hold.invalidated, hold.queued, ?_⟩
    intro value k' hvalue hsecond
    obtain ⟨before, hbefore, hother⟩ := hold.second value k' hvalue hsecond
    by_cases heq : k' = k
    · subst heq
      refine ⟨call, Function.update_self .., ?_⟩
      rw [hsame before hbefore]
      exact hother
    · exact ⟨before, (Function.update_of_ne heq ..).trans hbefore, hother⟩

variable {rest : List Job}

/-- A microtask that neither clears the promise nor retries is taken from the queue. -/
theorem Holds.dequeue (h : Holds s) {job : Job} (hnext : s.queue = job :: rest)
    (hclear : job.clears = none) (hretry : ∀ id, job ≠ .retry id) :
    Holds { s with queue := rest } := by
  have hsub : ∀ later ∈ rest, later ∈ s.queue := by
    intro later hlater
    rw [hnext]
    exact mem_cons_of_mem job hlater
  have hordered := h.ordered
  rw [hnext] at hordered
  refine ⟨⟨h.source.numbered, h.source.pending, ?_, h.source.flying, h.source.answered,
    h.source.cached⟩, ?_, ?_, fun id hin => h.retries id (hsub _ hin), hordered.of_cons⟩
  · have hclears := h.source.clears
    rw [hnext, filterMap_cons_none hclear] at hclears
    exact hclears
  · intro k call hcall
    obtain ⟨hk, hold⟩ := h.calls k call hcall
    exact ⟨hk, hold.same rfl rfl rfl⟩
  · intro id request hrequest
    obtain ⟨hid, hold⟩ := h.requests id request hrequest
    refine ⟨hid, hold.unretried, hold.invalidated, ?_, hold.second⟩
    intro value hvalue hsecond
    have hin := hold.queued value hvalue hsecond
    rw [hnext] at hin
    exact (mem_cons.mp hin).resolve_left (fun heq => hretry id heq.symm)

/-- Microtasks other than callbacks that clear the promise and retries are queued. -/
theorem Holds.enqueue (h : Holds s) (jobs : List Job)
    (hjobs : ∀ job ∈ jobs, job.clears = none ∧ ∀ id, job ≠ .retry id) :
    Holds (s.enqueue jobs) := by
  have hnone : jobs.filterMap Job.clears = [] :=
    filterMap_eq_nil_iff.mpr fun job hjob => (hjobs job hjob).1
  refine ⟨⟨h.source.numbered, h.source.pending, ?_, h.source.flying, h.source.answered,
    h.source.cached⟩, ?_, ?_, ?_, ?_⟩
  · change (s.queue ++ jobs).filterMap Job.clears = _
    rw [filterMap_append, hnone, append_nil]
    exact h.source.clears
  · intro k call hcall
    obtain ⟨hk, hold⟩ := h.calls k call hcall
    exact ⟨hk, hold.same rfl rfl rfl⟩
  · intro id request hrequest
    obtain ⟨hid, hold⟩ := h.requests id request hrequest
    refine ⟨hid, hold.unretried, hold.invalidated, ?_, hold.second⟩
    intro value hvalue hsecond
    exact mem_append_left jobs (hold.queued value hvalue hsecond)
  · intro id hin
    rcases mem_append.mp hin with hold | hnew
    · exact h.retries id hold
    · exact absurd rfl ((hjobs _ hnew).2 id)
  · change (s.queue ++ jobs).Pairwise (Behind s)
    rw [pairwise_append]
    refine ⟨h.ordered, ?_, ?_⟩
    · refine pairwise_of_forall_mem_list ?_
      intro job hin later _ id f request value hjob
      subst hjob
      exact absurd rfl ((hjobs _ hin).2 id)
    · intro job _ later hlater id f request value _ hclear
      subst hclear
      cases (hjobs _ hlater).1

variable {id : ℕ}

theorem Holds.clear (h : Holds s) (hnext : s.queue = .clear id :: rest) :
    Holds { s with queue := rest, pending := none } := by
  have hsub : ∀ later ∈ rest, later ∈ s.queue := by
    intro later hlater
    rw [hnext]
    exact mem_cons_of_mem _ hlater
  have hordered := h.ordered
  rw [hnext] at hordered
  obtain ⟨hpending, outcome, houtcome⟩ :=
    h.source.settled_of_clear (f := id) (by rw [hnext]; exact mem_cons_self)
  have hclears := h.source.clears
  rw [hnext, filterMap_cons_some (rfl : Job.clears (.clear id) = some id), hpending] at hclears
  have hlast : rest.filterMap Job.clears = [] := by
    rw [Option.filter_some, houtcome] at hclears
    exact (List.cons.inj hclears).2
  refine ⟨⟨h.source.numbered, nofun, hlast, ?_, h.source.answered,
    h.source.cached⟩, ?_, ?_, fun id hin => h.retries id (hsub _ hin), hordered.of_cons⟩
  · intro f fetch hf hflying
    have hthis := h.source.flying f fetch hf hflying
    rw [hpending] at hthis
    cases hthis
    change (s.fetches id).bind Fetch.answer = some outcome at houtcome
    rw [hf, Option.bind_some, hflying] at houtcome
    cases houtcome
  · intro k call hcall
    obtain ⟨hk, hold⟩ := h.calls k call hcall
    exact ⟨hk, hold.same rfl rfl rfl⟩
  · intro g request hrequest
    obtain ⟨hg, hold⟩ := h.requests g request hrequest
    refine ⟨hg, hold.unretried, hold.invalidated, ?_, hold.second⟩
    intro value hvalue hsecond
    have hin := hold.queued value hvalue hsecond
    rw [hnext] at hin
    exact (mem_cons.mp hin).resolve_left nofun

theorem Holds.seen (h : Holds s) (now : ℚ) (cached : Option CachedToken) (aborted : List ℕ)
    (issued invalidated : List Token) (haborted : ∀ signal ∈ s.aborted, signal ∈ aborted)
    (hissued : ∀ value ∈ s.issued, value ∈ issued)
    (hinvalidated : ∀ value ∈ s.invalidated, value ∈ invalidated)
    (hcached : ∀ entry, cached = some entry → entry.value ∈ issued ∧ entry.value ∉ invalidated) :
    Holds { s with
      now := now, cached := cached, aborted := aborted, issued := issued,
      invalidated := invalidated } := by
  refine h.goes ?_ ?_ rfl rfl rfl rfl [] (append_nil _).symm nofun
  · exact goes_of_fetches rfl haborted hinvalidated
  · exact ⟨h.source.numbered, h.source.pending, h.source.clears, h.source.flying,
      fun f value hok => hissued value (h.source.answered f value hok), hcached⟩

theorem Holds.setFetch (h : Holds s) {before : Fetch} (fetch : Fetch)
    (hbefore : s.fetches id = some before) (hanswer : fetch.answer = before.answer) :
    Holds (s.setFetch id fetch) := by
  have houtcome : ∀ f, (s.setFetch id fetch).outcome f = s.outcome f := by
    intro f
    rw [outcome_setFetch]
    split
    next heq =>
      subst heq
      rw [hanswer, outcome, hbefore, Option.bind_some]
    next => rfl
  have hsome : ∀ f old, s.fetches f = some old →
      ∃ new, (s.setFetch id fetch).fetches f = some new ∧ new.answer = old.answer := by
    intro f old hold
    by_cases heq : f = id
    · subst heq
      rw [hbefore] at hold
      cases hold
      exact ⟨fetch, Function.update_self .., hanswer⟩
    · exact ⟨old, (Function.update_of_ne heq ..).trans hold, rfl⟩
  have hback : ∀ f new, (s.setFetch id fetch).fetches f = some new →
      ∃ old, s.fetches f = some old ∧ new.answer = old.answer := by
    intro f new hnew
    by_cases heq : f = id
    · subst heq
      rw [show (s.setFetch f fetch).fetches f = some fetch from Function.update_self ..] at hnew
      cases hnew
      exact ⟨before, hbefore, hanswer⟩
    · exact ⟨new, (Function.update_of_ne heq ..).symm.trans hnew, rfl⟩
  have hgoes : Goes s (s.setFetch id fetch) := by
    refine ⟨?_, ?_, ?_, fun signal hin => hin, fun value hin => hin⟩
    · intro f old hold
      obtain ⟨new, hnew, _⟩ := hsome f old hold
      exact ⟨new, hnew⟩
    · intro f outcome hf
      rw [houtcome]
      exact hf
    · intro f old value _ hnone hok
      rw [houtcome, hnone] at hok
      cases hok
  apply h.goes hgoes _ rfl rfl rfl rfl [] (append_nil _).symm nofun
  refine ⟨?_, ?_, ?_, ?_, ?_, h.source.cached⟩
  · intro f new hnew
    obtain ⟨old, hold, _⟩ := hback f new hnew
    exact h.source.numbered f old hold
  · intro f hf
    obtain ⟨old, hold⟩ := h.source.pending f hf
    obtain ⟨new, hnew, _⟩ := hsome f old hold
    exact ⟨new, hnew⟩
  · rw [funext houtcome]
    exact h.source.clears
  · intro f new hnew hnone
    obtain ⟨old, hold, hsame⟩ := hback f new hnew
    exact h.source.flying f old hold (hsame.symm.trans hnone)
  · intro f value hok
    rw [houtcome] at hok
    exact h.source.answered f value hok

theorem Holds.settleFetch (h : Holds s) (hfetch : s.fetches id = some fetch)
    (hnone : fetch.answer = none) (outcome : Except UpstreamFailure Token)
    (hvalue : ∀ value, outcome = .ok value → value ∈ s.issued ∧ value ∉ s.invalidated) :
    Holds (s.settleFetch id fetch outcome) := by
  have hpending := h.source.flying id fetch hfetch hnone
  have hbefore : s.outcome id = none := by
    rw [State.outcome, hfetch, Option.bind_some, hnone]
  have houtcome : ∀ f, (s.settleFetch id fetch outcome).outcome f =
      if f = id then some outcome else s.outcome f := fun f => outcome_setFetch ..
  have hfetches : ∀ f, (s.settleFetch id fetch outcome).fetches f =
      if f = id then some { fetch with phase := .settled outcome } else s.fetches f := by
    intro f
    change Function.update s.fetches id _ f = _
    rw [Function.update_apply]
  have hgoes : Goes s (s.settleFetch id fetch outcome) := by
    refine ⟨?_, ?_, ?_, fun signal hin => hin, fun value hin => hin⟩
    · intro f old hold
      rw [hfetches]
      split
      next => exact ⟨_, rfl⟩
      next => exact ⟨old, hold⟩
    · intro f other hf
      rw [houtcome, if_neg, hf]
      intro heq
      rw [heq, hbefore] at hf
      cases hf
    · intro f old value _ hnone hok
      rw [houtcome] at hok
      split at hok
      next => exact (hvalue value (Option.some.inj hok)).2
      next =>
        rw [hnone] at hok
        cases hok
  apply h.goes hgoes _ rfl rfl rfl rfl [.clear id] rfl
  · intro job hjob
    refine ⟨id, mem_singleton.mp hjob, ?_⟩
    intro value hok
    rw [houtcome, if_pos rfl] at hok
    exact (hvalue value (Option.some.inj hok)).2
  · refine ⟨?_, ?_, ?_, ?_, ?_, h.source.cached⟩
    · intro f new hnew
      rw [hfetches] at hnew
      split at hnew
      next heq =>
        subst heq
        exact h.source.numbered f fetch hfetch
      next => exact h.source.numbered f new hnew
    · intro f hf
      obtain ⟨old, hold⟩ := h.source.pending f hf
      exact hgoes.known f old hold
    · have hclears := h.source.clears
      rw [hpending, Option.filter_some, hbefore] at hclears
      change (s.queue ++ [Job.clear id]).filterMap Job.clears =
        (s.pending.filter fun f => ((s.settleFetch id fetch outcome).outcome f).isSome).toList
      rw [filterMap_append, hclears, hpending, Option.filter_some, houtcome, if_pos rfl]
      rfl
    · intro f new hnew hflying
      rw [hfetches] at hnew
      split at hnew
      next =>
        cases hnew
        cases hflying
      next => exact h.source.flying f new hnew hflying
    · intro f value hok
      rw [houtcome] at hok
      split at hok
      next => exact (hvalue value (Option.some.inj hok)).1
      next => exact h.source.answered f value hok

theorem Holds.create (h : Holds s) (hpending : s.pending = none) (fetch : Fetch)
    (hnone : fetch.answer = none) :
    Holds (s.create fetch) := by
  have hnew : ∀ f old, s.fetches f = some old → f ≠ s.nextFetch := by
    intro f old hold
    exact Nat.ne_of_lt (h.source.numbered f old hold)
  have hunknown : s.outcome s.nextFetch = none := by
    unfold outcome
    cases hold : s.fetches s.nextFetch with
    | none => rfl
    | some old => exact absurd rfl (hnew _ old hold)
  have houtcome : ∀ f, (s.create fetch).outcome f = s.outcome f := by
    intro f
    unfold State.create
    rw [outcome_setFetch]
    split
    next heq => rw [heq, hunknown, hnone]
    next => rfl
  refine h.goes ⟨?_, ?_, ?_, fun signal hin => hin, fun value hin => hin⟩
    ⟨?_, ?_, ?_, ?_, ?_, h.source.cached⟩ rfl rfl rfl rfl [] (append_nil _).symm nofun
  · intro f old hold
    exact ⟨old, (Function.update_of_ne (hnew f old hold) ..).trans hold⟩
  · intro f outcome hf
    rw [houtcome]
    exact hf
  · intro f old value _ hbefore hok
    rw [houtcome, hbefore] at hok
    cases hok
  · intro f new hf
    change Function.update s.fetches s.nextFetch (some fetch) f = some new at hf
    rw [Function.update_apply] at hf
    change f < s.nextFetch + 1
    split at hf
    next heq => omega
    next =>
      have hlt := h.source.numbered f new hf
      omega
  · intro f hf
    cases hf
    exact ⟨fetch, Function.update_self ..⟩
  · have hclears := h.source.clears
    rw [hpending] at hclears
    change s.queue.filterMap Job.clears = ((some s.nextFetch).filter _).toList
    rw [Option.filter_some, houtcome, hunknown, hclears]
    rfl
  · intro f new hf hflying
    change Function.update s.fetches s.nextFetch (some fetch) f = some new at hf
    rw [Function.update_apply] at hf
    split at hf
    next heq => rw [heq]; rfl
    next =>
      have hthis := h.source.flying f new hf hflying
      rw [hpending] at hthis
      cases hthis
  · intro f value hok
    rw [houtcome] at hok
    exact h.source.answered f value hok

/-- The fetch that `fetchToken` starts is under way, or answers what is cached. -/
structure Started (s s' : State) (fetch : Fetch) : Prop where
  pending : s'.pending = some s.nextFetch
  fetched : s'.fetches s.nextFetch = some fetch
  answer : fetch.answer = none ∨ ∃ value, fetch.answer = some (.ok value) ∧ value ∉ s.invalidated
  calls : s'.calls = s.calls
  nextCall : s'.nextCall = s.nextCall
  requests : s'.requests = s.requests
  nextRequest : s'.nextRequest = s.nextRequest
  invalidated : s'.invalidated = s.invalidated
  queue : ∃ extra, s'.queue = s.queue ++ extra

theorem Holds.fetchToken (h : Holds s) (hpending : s.pending = none) :
    Holds s.fetchToken ∧ ∃ fetch, Started s s.fetchToken fetch := by
  have hcreate := h.create hpending { phase := .requested, deadline := false, waiters := [] } rfl
  have hasks : Started s (s.create { phase := .requested, deadline := false, waiters := [] })
      { phase := .requested, deadline := false, waiters := [] } :=
    ⟨rfl, Function.update_self .., .inl rfl, rfl, rfl, rfl, rfl, rfl, [],
      (append_nil _).symm⟩
  unfold State.fetchToken
  cases hcached : s.cached with
  | none => exact ⟨hcreate, _, hasks⟩
  | some cached =>
    simp only
    split
    next =>
      obtain ⟨hissued, hkept⟩ := h.source.cached cached hcached
      have hsettled := hcreate.settleFetch (Function.update_self ..) rfl (.ok cached.value) (by
        intro value hvalue
        cases hvalue
        exact ⟨hissued, hkept⟩)
      exact ⟨hsettled, _, rfl, Function.update_self .., .inr ⟨_, rfl, hkept⟩, rfl, rfl, rfl, rfl,
        rfl, _, rfl⟩
    next => exact ⟨hcreate, _, hasks⟩

theorem Holds.join (h : Holds s) (hfetch : s.fetches id = some fetch) (call : Call)
    (hwaiting : call.status = .waiting) (hrefused : call.refused = s.invalidated)
    (hstale : ∀ value, s.outcome id = some (.ok value) →
      (value ∈ call.refused ↔ call.stale = true))
    (hyoung : s.outcome id = none → call.stale = false) : Holds (s.join id fetch call) := by
  have hjoined := h.setFetch { fetch with waiters := fetch.waiters ++ [s.nextCall] } hfetch rfl
  have houtcome : (s.setFetch id { fetch with
      waiters := fetch.waiters ++ [s.nextCall] }).outcome id = s.outcome id := by
    rw [outcome_setFetch, if_pos rfl, outcome, hfetch]
    rfl
  apply hjoined.setCall s.nextCall (s.nextCall + 1) _ (Nat.lt_succ_self _) (Nat.le_succ _)
  · refine ⟨?_, ?_, ?_, ?_, ?_, ?_, ?_⟩
    · intro value hvalue
      change value ∈ call.refused at hvalue
      rw [hrefused] at hvalue
      exact hvalue
    · intro f hf
      cases hf
      exact ⟨_, Function.update_self ..⟩
    · intro hstatus
      rw [show call.status = .aborted from hstatus] at hwaiting
      cases hwaiting
    · intro failure hstatus
      rw [show call.status = .failed failure from hstatus] at hwaiting
      cases hwaiting
    · intro value hstatus
      rw [show call.status = .resolved value from hstatus] at hwaiting
      cases hwaiting
    · intro f value hf hok
      cases hf
      rw [houtcome] at hok
      exact hstale value hok
    · intro f hf hnone
      cases hf
      rw [houtcome] at hnone
      exact hyoung hnone
  · intro before hbefore
    exact absurd (h.calls s.nextCall before hbefore).1 (Nat.lt_irrefl _)

/-- What a call made now leaves as it was, and what may answer it: the answer that is pending,
or a token not refused so far. -/
structure Made (s s' : State) : Prop where
  requests : s'.requests = s.requests
  nextRequest : s'.nextRequest = s.nextRequest
  invalidated : s'.invalidated = s.invalidated
  queue : ∃ extra, s'.queue = s.queue ++ extra
  call : ∃ call, s'.calls s.nextCall = some call ∧
    ∀ f value, call.fetch = some f → s'.outcome f = some (.ok value) →
      value ∉ s.invalidated ∨ s.pending = some f ∧ s.outcome f = some (.ok value)

theorem outcome_join (s : State) (id : ℕ) (fetch : Fetch) (call : Call)
    (hfetch : s.fetches id = some fetch) (f : ℕ) :
    (s.join id fetch call).outcome f = s.outcome f := by
  change (s.setFetch id { fetch with waiters := fetch.waiters ++ [s.nextCall] }).outcome f = _
  rw [outcome_setFetch]
  split
  next heq =>
    subst heq
    rw [outcome, hfetch]
    rfl
  next => rfl

theorem calls_join (s : State) (id : ℕ) (fetch : Fetch) (call : Call) :
    (s.join id fetch call).calls s.nextCall = some { call with fetch := some id } :=
  Function.update_self ..

theorem Holds.token (h : Holds s) (signal : Option ℕ) :
    Holds (s.token signal) ∧ Made s (s.token signal) := by
  unfold State.token
  by_cases hthrows : s.throws signal = true
  · rw [if_pos hthrows]
    refine ⟨?_, rfl, rfl, rfl, ⟨[], (append_nil _).symm⟩, _, Function.update_self .., nofun⟩
    refine h.setCall s.nextCall (s.nextCall + 1) _ (Nat.lt_succ_self _) (Nat.le_succ _)
      ⟨fun value hvalue => hvalue, nofun, fun _ => hthrows, nofun, nofun, nofun, nofun⟩ ?_
    intro before hbefore
    exact absurd (h.calls s.nextCall before hbefore).1 (Nat.lt_irrefl _)
  · rw [if_neg hthrows]
    cases hpending : s.pending with
    | some id =>
      obtain ⟨fetch, hfetch⟩ := h.source.pending id hpending
      simp only [Option.isSome_some, if_true, hpending, Option.bind_some, hfetch, Option.map_some]
      refine ⟨?_, rfl, rfl, rfl, ⟨[], (append_nil _).symm⟩, _, Function.update_self .., ?_⟩
      · apply h.join hfetch _ rfl rfl
        · intro value hok
          simp only [State.stale, hpending, hok, contains_iff_mem]
        · intro hnone
          simp only [State.stale, hpending, hnone]
      · intro f value hf hok
        cases hf
        rw [outcome_join _ _ _ _ hfetch] at hok
        exact .inr ⟨hpending, hok⟩
    | none =>
      obtain ⟨hcreated, fetch, hstarted⟩ := h.fetchToken hpending
      have hanswer : ∀ value, s.fetchToken.outcome s.nextFetch = some (.ok value) →
          value ∉ s.invalidated := by
        intro value hok
        rw [outcome, hstarted.fetched, Option.bind_some] at hok
        rcases hstarted.answer with hnone | ⟨own, hown, hfresh⟩
        · rw [hnone] at hok
          cases hok
        · rw [hown] at hok
          cases hok
          exact hfresh
      have hfresh : s.stale = false := by
        simp only [State.stale, hpending]
      simp only [Option.isSome_none, Bool.false_eq_true, if_false, hstarted.pending,
        Option.bind_some, hstarted.fetched, Option.map_some]
      refine ⟨?_, ?_⟩
      · apply hcreated.join hstarted.fetched _ rfl hstarted.invalidated.symm
        · intro value hok
          rw [hfresh]
          exact iff_of_false (hanswer value hok) Bool.false_ne_true
        · exact fun _ => hfresh
      · have hmade := calls_join s.fetchToken s.nextFetch fetch
          ⟨signal, none, .waiting, s.invalidated, s.stale⟩
        rw [hstarted.nextCall] at hmade
        refine ⟨hstarted.requests, hstarted.nextRequest, hstarted.invalidated, hstarted.queue,
          _, hmade, ?_⟩
        intro f value hf hok
        cases hf
        rw [outcome_join _ _ _ _ hstarted.fetched] at hok
        exact .inl (hanswer value hok)

theorem Holds.retry (h : Holds s) (hnext : s.queue = .retry id :: rest) :
    Holds (s.run (.retry id)) := by
  obtain ⟨request, value, hrequest, hvalue⟩ :=
    h.retries id (by rw [hnext]; exact mem_cons_self)
  obtain ⟨hid, hholds⟩ := h.requests id request hrequest
  obtain ⟨htoken, hmade⟩ := h.token request.signal
  obtain ⟨extra, hextra⟩ := hmade.queue
  obtain ⟨call, hcall, hother⟩ := hmade.call
  have hordered := h.ordered
  rw [hnext] at hordered
  have hdiffers : ∀ f other, call.fetch = some f →
      (s.token request.signal).outcome f = some (.ok other) → other ≠ value := by
    intro f other hf hok heq
    subst heq
    rcases hother f other hf hok with hfresh | ⟨hpending, hbefore⟩
    · exact hfresh (hholds.invalidated other hvalue)
    · have hclear := h.source.clear_of_settled hpending hbefore
      rw [hnext] at hclear
      have hlater := (mem_cons.mp hclear).resolve_left nofun
      exact (pairwise_cons.mp hordered).1 _ hlater id f request other rfl rfl hrequest hvalue
        hbefore
  have hqueue : (s.run (.retry id)).queue = rest ++ extra := by
    change (s.retry id).queue.tail = _
    rw [State.retry, hrequest]
    change (s.token request.signal).queue.tail = _
    rw [hextra, hnext]
    rfl
  have hstate : s.run (.retry id) = { (s.token request.signal).setRequest id
      { request with second := some s.nextCall } with queue := rest ++ extra } := by
    rw [← hqueue, State.run, State.perform, State.retry, hrequest]
  have hrequests : ∀ g, ({ (s.token request.signal).setRequest id
      { request with second := some s.nextCall } with queue := rest ++ extra } : State).requests g =
        if g = id then some { request with second := some s.nextCall } else s.requests g := by
    intro g
    rw [← hmade.requests]
    exact Function.update_apply ..
  have hwhole : (s.token request.signal).queue = .retry id :: (rest ++ extra) := by
    rw [hextra, hnext]
    rfl
  have hsub : ∀ later ∈ rest ++ extra, later ∈ (s.token request.signal).queue := by
    intro later hlater
    rw [hwhole]
    exact mem_cons_of_mem _ hlater
  rw [hstate]
  refine ⟨⟨htoken.source.numbered, htoken.source.pending, ?_, htoken.source.flying,
    htoken.source.answered, htoken.source.cached⟩, ?_, ?_, ?_, ?_⟩
  · have hclears := htoken.source.clears
    rw [hwhole, filterMap_cons_none rfl] at hclears
    exact hclears
  · intro k call hcall
    obtain ⟨hk, hold⟩ := htoken.calls k call hcall
    exact ⟨hk, hold.same rfl rfl rfl⟩
  · intro g other hg
    rw [hrequests] at hg
    change g < (s.token request.signal).nextRequest ∧ _
    rw [hmade.nextRequest]
    split at hg
    next heq =>
      subst heq
      cases hg
      refine ⟨hid, ?_, ?_, nofun, ?_⟩
      · intro hnone
        rw [show request.refused = none from hnone] at hvalue
        cases hvalue
      · intro refused hrefused
        change refused ∈ (s.token request.signal).invalidated
        rw [hmade.invalidated]
        exact hholds.invalidated refused hrefused
      · intro refused k hrefused hk
        cases hk
        rw [show request.refused = some refused from hrefused] at hvalue
        cases hvalue
        exact ⟨call, hcall, hdiffers⟩
    next hne =>
      obtain ⟨_, hold⟩ := htoken.requests g other (by rw [hmade.requests]; exact hg)
      refine ⟨(h.requests g other hg).1, hold.unretried, hold.invalidated, ?_, hold.second⟩
      intro refused hrefused hsecond
      have hin := hold.queued refused hrefused hsecond
      rw [hwhole] at hin
      refine (mem_cons.mp hin).resolve_left ?_
      intro heq
      cases heq
      exact hne rfl
  · intro g hg
    rw [hrequests]
    split
    next => exact ⟨_, value, rfl, hvalue⟩
    next =>
      rw [← hmade.requests]
      exact htoken.retries g (hsub _ hg)
  · have htail := htoken.ordered
    rw [hwhole] at htail
    refine htail.of_cons.imp ?_
    intro job later hbehind g f other refused hjob hlater hg hrefused
    rw [hrequests] at hg
    split at hg
    next heq =>
      cases hg
      refine hbehind g f request refused hjob hlater ?_ hrefused
      rw [hmade.requests, heq]
      exact hrequest
    next =>
      rw [← hmade.requests] at hg
      exact hbehind g f other refused hjob hlater hg hrefused

theorem Holds.graphql (h : Holds s) (signal : Option ℕ) :
    Holds (s.graphql signal) := by
  refine (Holds.token ?_ signal).1
  refine ⟨⟨h.source.numbered, h.source.pending, h.source.clears, h.source.flying,
    h.source.answered, h.source.cached⟩, ?_, ?_, ?_, ?_⟩
  · intro k call hcall
    obtain ⟨hk, hold⟩ := h.calls k call hcall
    exact ⟨hk, hold.same rfl rfl rfl⟩
  · intro id request hrequest
    change Function.update s.requests s.nextRequest _ id = some request at hrequest
    rw [Function.update_apply] at hrequest
    change id < s.nextRequest + 1 ∧ _
    split at hrequest
    next heq =>
      cases hrequest
      exact ⟨by omega, fun _ => rfl, nofun, nofun, nofun⟩
    next =>
      obtain ⟨hid, hold⟩ := h.requests id request hrequest
      exact ⟨by omega, hold.unretried, hold.invalidated, hold.queued, hold.second⟩
  · intro id hin
    obtain ⟨request, value, hrequest, hvalue⟩ := h.retries id hin
    have hlt := (h.requests id request hrequest).1
    exact ⟨request, value, (Function.update_of_ne (by omega) ..).trans hrequest, hvalue⟩
  · refine h.ordered.imp_of_mem ?_
    intro job later hjob _ hbehind id f request value hretry hclear hrequest hvalue
    subst hretry
    obtain ⟨old, _, hold, _⟩ := h.retries id hjob
    have hlt := (h.requests id old hold).1
    refine hbehind id f request value rfl hclear ?_ hvalue
    exact (Function.update_of_ne (by omega) ..).symm.trans hrequest

theorem Holds.invalidate (h : Holds s) (value : Token) :
    Holds (s.invalidate value) := by
  refine h.seen s.now _ s.aborted s.issued _ (fun _ hin => hin) (fun _ hin => hin)
    (fun _ hin => mem_cons_of_mem value hin) ?_
  intro entry hentry
  obtain ⟨hcached, hother⟩ := Option.filter_eq_some_iff.mp hentry
  obtain ⟨hissued, hkept⟩ := h.source.cached entry hcached
  refine ⟨hissued, ?_⟩
  rw [mem_cons, not_or]
  exact ⟨of_decide_eq_true hother, hkept⟩

/-- A refused request drops its token and queues its retry behind what is queued. -/
theorem Holds.rejected (h : Holds s) {request : Request} (value : Token)
    (hrequest : s.requests id = some request) (hfirst : request.refused = none) :
    Holds (s.rejected id request value) := by
  have hdropped := h.invalidate value
  have hunqueued : Job.retry id ∉ s.queue := by
    intro hin
    obtain ⟨other, refused, hother, hrefused⟩ := h.retries id hin
    rw [hrequest] at hother
    cases hother
    rw [hfirst] at hrefused
    cases hrefused
  obtain ⟨hid, hholds⟩ := h.requests id request hrequest
  have hrequests : ∀ g, (s.rejected id request value).requests g =
      if g = id then some { request with refused := some value } else s.requests g :=
    fun g => Function.update_apply ..
  have hqueue : (s.rejected id request value).queue = s.queue ++ [.retry id] := rfl
  refine ⟨⟨hdropped.source.numbered, hdropped.source.pending, ?_, hdropped.source.flying,
    hdropped.source.answered, hdropped.source.cached⟩, ?_, ?_, ?_, ?_⟩
  · rw [hqueue, filterMap_append]
    change s.queue.filterMap Job.clears ++ [] = _
    rw [append_nil]
    exact hdropped.source.clears
  · intro k call hcall
    obtain ⟨hk, hold⟩ := hdropped.calls k call hcall
    exact ⟨hk, hold.same rfl rfl rfl⟩
  · intro g other hg
    rw [hrequests] at hg
    split at hg
    next heq =>
      subst heq
      cases hg
      refine ⟨hid, nofun, ?_, ?_, ?_⟩
      · intro refused hrefused
        cases hrefused
        exact mem_cons_self
      · intro _ _ _
        rw [hqueue]
        exact mem_append_right _ mem_cons_self
      · intro _ k _ hk
        change request.second = some k at hk
        rw [hholds.unretried hfirst] at hk
        cases hk
    next =>
      obtain ⟨hlt, hold⟩ := hdropped.requests g other hg
      refine ⟨hlt, hold.unretried, hold.invalidated, ?_, hold.second⟩
      intro refused hrefused hsecond
      exact mem_append_left _ (hold.queued refused hrefused hsecond)
  · intro g hg
    rw [hqueue] at hg
    rw [hrequests]
    split
    next => exact ⟨_, value, rfl, rfl⟩
    next hne =>
      refine h.retries g ((mem_append.mp hg).resolve_right ?_)
      intro heq
      cases mem_singleton.mp heq
      exact hne rfl
  · rw [hqueue, pairwise_append]
    refine ⟨?_, pairwise_singleton .., ?_⟩
    · refine h.ordered.imp_of_mem ?_
      intro job later hjob _ hbehind g f other refused hretry hclear hg hrefused
      subst hretry
      have hne : g ≠ id := by
        intro heq
        subst heq
        exact hunqueued hjob
      rw [hrequests, if_neg hne] at hg
      exact hbehind g f other refused rfl hclear hg hrefused
    · intro job _ later hlater g f other refused _ hclear
      rw [mem_singleton.mp hlater] at hclear
      cases hclear

theorem Holds.resume (h : Holds s) (id : ℕ) : Holds (s.resume id) := by
  unfold State.resume
  cases hcall : s.calls id with
  | none => exact h
  | some call =>
    obtain ⟨hid, hold⟩ := h.calls id call hcall
    have hsame : ∀ before, s.calls id = some before → call.fetch = before.fetch := by
      intro before hbefore
      rw [hcall] at hbefore
      cases hbefore
      rfl
    cases hanswer : call.fetch.bind s.outcome with
    | none =>
      simp only [hanswer]
      exact h
    | some outcome =>
      obtain ⟨f, hfetch, houtcome⟩ := Option.bind_eq_some_iff.mp hanswer
      cases outcome with
      | error failure =>
        simp only [hanswer]
        refine h.setCall id s.nextCall _ hid (Nat.le_refl _) ⟨hold.refused, hold.known, nofun,
          ?_, nofun, hold.stale, hold.young⟩ hsame
        intro other hother
        cases hother
        exact ⟨f, hfetch, houtcome⟩
      | ok value =>
        simp only [hanswer]
        split
        next hthrows =>
          exact h.setCall id s.nextCall _ hid (Nat.le_refl _) ⟨hold.refused, hold.known,
            fun _ => hthrows, nofun, nofun, hold.stale, hold.young⟩ hsame
        next =>
          refine h.setCall id s.nextCall _ hid (Nat.le_refl _) ⟨hold.refused, hold.known, nofun,
            nofun, ?_, hold.stale, hold.young⟩ hsame
          intro other hother
          cases hother
          exact ⟨f, hfetch, houtcome⟩

theorem resume_queue (s : State) (id : ℕ) : (s.resume id).queue = s.queue := by
  unfold State.resume
  split
  next => rfl
  next =>
    split
    next => rfl
    next => rfl
    next =>
      split
      next => rfl
      next => rfl

theorem Holds.respond (h : Holds s) (response : Response) (hfetch : s.fetches id = some fetch)
    (hphase : fetch.phase = .requested) :
    Holds (s.respond id fetch response) := by
  have hnone : fetch.answer = none := by
    rw [Fetch.answer, hphase]
  unfold State.respond
  split
  next => exact h.settleFetch hfetch hnone _ nofun
  next =>
    split
    next => exact h.setFetch _ hfetch (by rw [hnone]; rfl)
    next => exact h.settleFetch hfetch hnone _ nofun

theorem issuedBy_of_tokenOf {body : Option Json} {value : Token} {expiresIn : ℚ}
    (h : tokenOf body = some (value, expiresIn)) : value ∈ issuedBy body := by
  unfold tokenOf at h
  unfold issuedBy
  cases hfields : record body with
  | none =>
    rw [hfields] at h
    cases h
  | some fields =>
    simp only [hfields] at h ⊢
    split at h
    next own expires hown hexpires =>
      split at h
      next => cases h
      next =>
        cases h
        rw [hown]
        exact mem_singleton_self _
    next => cases h

theorem Holds.readBody (h : Holds s) (body : Option Json) (hfetch : s.fetches id = some fetch)
    (hphase : fetch.phase = .reading)
    (hfresh : ∀ value ∈ issuedBy body, value ∉ s.issued ∧ value ∉ s.invalidated) :
    Holds (s.readBody id fetch body) := by
  have hnone : fetch.answer = none := by
    rw [Fetch.answer, hphase]
  have hgrown : ∀ value ∈ s.issued, value ∈ issuedBy body ++ s.issued :=
    fun value hin => mem_append_right _ hin
  have hissued : Holds { s with issued := issuedBy body ++ s.issued } := by
    refine h.seen s.now s.cached s.aborted _ s.invalidated (fun _ hin => hin) hgrown
      (fun _ hin => hin) ?_
    intro entry hentry
    obtain ⟨hin, hkept⟩ := h.source.cached entry hentry
    exact ⟨hgrown _ hin, hkept⟩
  unfold State.readBody
  simp only
  split
  next => exact hissued.settleFetch hfetch hnone _ nofun
  next =>
    split
    next => exact hissued.settleFetch hfetch hnone _ nofun
    next value expiresIn htoken =>
      have hin := issuedBy_of_tokenOf htoken
      have hknown : value ∈ issuedBy body ++ s.issued ∧ value ∉ s.invalidated :=
        ⟨mem_append_left _ hin, (hfresh value hin).2⟩
      have hcached := h.seen s.now
        (some ⟨value, s.now + max 0 (expiresIn * 1000 - 60000)⟩) s.aborted
        (issuedBy body ++ s.issued) s.invalidated (fun _ hin => hin) hgrown (fun _ hin => hin) (by
          intro entry hentry
          cases hentry
          exact hknown)
      refine hcached.settleFetch hfetch hnone _ ?_
      intro other hother
      cases hother
      exact hknown

theorem Holds.run (h : Holds s) {job : Job} (hnext : s.queue = job :: rest) :
    Holds (s.run job) := by
  have hplain : ∀ s' : State, Holds s' → ∀ extra, s'.queue = s.queue ++ extra →
      job.clears = none → (∀ id, job ≠ .retry id) →
        Holds { s' with queue := s'.queue.tail } := by
    intro s' h' extra hqueue hclears hretry
    rw [hnext] at hqueue
    rw [hqueue]
    exact h'.dequeue hqueue hclears hretry
  cases job with
  | clear id =>
    have hcleared := (h.clear hnext).enqueue [.pass id, .adopt id] (by
      intro job hjob
      simp only [mem_cons, not_mem_nil, or_false] at hjob
      rcases hjob with hjob | hjob <;> subst hjob <;> exact ⟨rfl, nofun⟩)
    unfold State.run State.perform State.enqueue
    simp only [hnext]
    exact hcleared
  | pass id => exact hplain s h [] (append_nil _).symm rfl nofun
  | adopt id =>
    exact hplain _ (h.enqueue [.settle id] (by
      intro job hjob
      cases mem_singleton.mp hjob
      exact ⟨rfl, nofun⟩)) _ rfl rfl nofun
  | settle id =>
    refine hplain _ (h.enqueue _ ?_) _ rfl rfl nofun
    intro job hjob
    obtain ⟨k, _, hk⟩ := mem_map.mp hjob
    subst hk
    exact ⟨rfl, nofun⟩
  | resume id =>
    refine hplain _ (h.resume id) [] ?_ rfl nofun
    rw [append_nil]
    exact resume_queue s id
  | retry id => exact h.retry hnext

theorem holds_step (h : Holds s) (hstep : Step s s') : Holds s' := by
  cases hstep with
  | clock now =>
    exact h.seen now s.cached s.aborted s.issued s.invalidated (fun _ hin => hin)
      (fun _ hin => hin) (fun _ hin => hin) h.source.cached
  | abort signal =>
    exact h.seen s.now s.cached _ s.issued s.invalidated
      (fun _ hin => mem_cons_of_mem signal hin) (fun _ hin => hin) (fun _ hin => hin)
      h.source.cached
  | token signal => exact (h.token signal).1
  | invalidate value => exact h.invalidate value
  | deadline id fetch hfetch => exact h.setFetch _ hfetch rfl
  | unreachable id fetch hfetch hphase =>
    exact h.settleFetch hfetch (by rw [Fetch.answer, hphase]) _ nofun
  | respond id fetch response hfetch hphase => exact h.respond response hfetch hphase
  | readBody id fetch body hfetch hphase hfresh => exact h.readBody body hfetch hphase hfresh
  | graphql signal => exact h.graphql signal
  | rejected id request call value hrequest hfirst hcall hvalue hsignal =>
    exact h.rejected value hrequest hfirst
  | run job rest hnext => exact h.run hnext

theorem holds_initial (now : ℚ) : Holds (State.initial now) :=
  ⟨⟨nofun, nofun, rfl, nofun, nofun, nofun⟩, nofun, nofun, nofun, .nil⟩

theorem Reachable.holds (h : Reachable s) : Holds s := by
  obtain ⟨now, hruns⟩ := h
  induction hruns with
  | refl => exact holds_initial now
  | tail _ hstep ih => exact holds_step ih hstep

end SlashWho.TokenSource
