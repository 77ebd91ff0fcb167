import SlashWho.TokenSourceRuns

/-!
What the token source promises its callers, in every state it reaches: one token request at a time,
no failure that is another caller's abort, no token that was refused before the call, and a
different token for a request that retries. A call made after a cached answer was refused, and
before the microtask that clears the promise wrapping it, is given the refused token; no other is.
-/

namespace SlashWho.TokenSource

open State
open JsonNarrowing (Json)

/-- A token request is open at upstream. -/
def Fetch.InFlight (fetch : Fetch) : Prop := fetch.phase = .requested ∨ fetch.phase = .reading

structure Law (s : State) : Prop where
  single : ∀ f g fetch other, s.fetches f = some fetch → s.fetches g = some other →
    fetch.InFlight → other.InFlight → f = g
  aborted : ∀ k call, s.calls k = some call → call.status = .aborted →
    s.throws call.signal = true
  failed : ∀ k call failure, s.calls k = some call → call.status = .failed failure →
    ∃ f, call.fetch = some f ∧ s.outcome f = some (.error failure)
  fresh : ∀ k call value, s.calls k = some call → call.status = .resolved value →
    value ∉ call.refused
  retried : ∀ id request value, s.requests id = some request → request.refused = some value →
    request.second = none ∧ Job.retry id ∈ s.queue ∨
      ∃ k call, request.second = some k ∧ s.calls k = some call ∧
        ∀ other, call.status = .resolved other → other ≠ value

theorem Fetch.InFlight.answer {fetch : Fetch} (h : fetch.InFlight) : fetch.answer = none := by
  unfold Fetch.answer
  rcases h with h | h <;> rw [h]

variable {s : State}

theorem Holds.single (h : Holds s) {f g : ℕ} {fetch other : Fetch} (hf : s.fetches f = some fetch)
    (hg : s.fetches g = some other) (hflying : fetch.InFlight) (hother : other.InFlight) :
    f = g := by
  have hfirst := h.source.flying f fetch hf hflying.answer
  have hsecond := h.source.flying g other hg hother.answer
  rw [hfirst] at hsecond
  exact Option.some.inj hsecond

theorem Holds.retried (h : Holds s) {id : ℕ} {request : Request} {value : Token}
    (hrequest : s.requests id = some request) (hvalue : request.refused = some value) :
    request.second = none ∧ Job.retry id ∈ s.queue ∨
      ∃ k call, request.second = some k ∧ s.calls k = some call ∧
        ∀ other, call.status = .resolved other → other ≠ value := by
  obtain ⟨_, hholds⟩ := h.requests id request hrequest
  cases hsecond : request.second with
  | none => exact .inl ⟨rfl, hholds.queued value hvalue hsecond⟩
  | some k =>
    obtain ⟨call, hcall, hother⟩ := hholds.second value k hvalue hsecond
    refine .inr ⟨k, call, rfl, hcall, ?_⟩
    intro other hresolved
    obtain ⟨f, hf, hok⟩ := (h.calls k call hcall).2.resolved other hresolved
    exact hother f other hf hok

theorem Holds.refused_iff (h : Holds s) {k : ℕ} {call : Call} {value : Token}
    (hcall : s.calls k = some call) (hresolved : call.status = .resolved value) :
    value ∈ call.refused ↔ call.stale = true := by
  obtain ⟨_, hholds⟩ := h.calls k call hcall
  obtain ⟨f, hf, hok⟩ := hholds.resolved value hresolved
  exact hholds.stale f value hf hok

theorem Reachable.step {s' : State} (h : Reachable s) (hstep : Step s s') : Reachable s' := by
  obtain ⟨now, hruns⟩ := h
  exact ⟨now, hruns.tail hstep⟩

def issuing (token : Token) : Option Json :=
  some (.object [("access_token", .string token), ("expires_in", .number 3600)])

/-- A fetch is answered with a token. -/
def readToken (s : State) (fetch call : ℕ) (token : Token) : State :=
  (s.respond fetch ⟨.requested, false, [call]⟩ ⟨true, 200, none⟩).readBody fetch
    ⟨.reading, false, [call]⟩ (issuing token)

/-- The promise is cleared and settled, and the call that waits on it is resumed. -/
def resumed (s : State) (fetch call : ℕ) : State :=
  ((((s.run (.clear fetch)).run (.pass fetch)).run (.adopt fetch)).run (.settle fetch)).run
    (.resume call)

def answered (s : State) (fetch call : ℕ) (token : Token) : State :=
  resumed (readToken s fetch call token) fetch call

/-- A request whose token is refused asks again, and upstream issues another. -/
def retriedRun : State :=
  answered ((((answered ((State.initial 0).graphql none) 0 0 "revoked").rejected 0
    ⟨none, 0, none, none⟩ "revoked").run (.retry 0))) 1 1 "issued"

/-- A token is refused and asked for again while it is pending from the cache. -/
def staleRun : State :=
  (resumed ((((answered ((State.initial 0).token none) 0 0 "revoked").token none).invalidate
    "revoked").token none) 1 1).run (.resume 2)

theorem readToken_reachable (h : Reachable s) (fetch call : ℕ) (token : Token)
    (hfetch : s.fetches fetch = some ⟨.requested, false, [call]⟩)
    (hfresh : token ∉ s.issued ∧ token ∉ s.invalidated) :
    Reachable (readToken s fetch call token) := by
  have hresponded := h.step (.respond s fetch _ ⟨true, 200, none⟩ hfetch rfl)
  refine hresponded.step (.readBody _ fetch _ _ (Function.update_self ..) rfl ?_)
  intro value hvalue
  have hsame : value = token := by
    unfold issuing issuedBy JsonNarrowing.nonEmptyString at hvalue
    simp only [JsonNarrowing.record_object, List.lookup_cons, beq_self_eq_true] at hvalue
    split at hvalue
    next => cases hvalue
    next => exact List.mem_singleton.mp hvalue
  subst hsame
  exact hfresh

theorem resumed_reachable (h : Reachable s) (fetch call : ℕ) (rest : List ℕ) (fetched : Fetch)
    (hqueue : s.queue = [.clear fetch]) (hfetch : s.fetches fetch = some fetched)
    (hwaiters : fetched.waiters = call :: rest) :
    Reachable (resumed s fetch call) ∧
      (resumed s fetch call).queue = rest.map Job.resume := by
  have hclear := h.step (.run s _ _ hqueue)
  have hcleared : (s.run (.clear fetch)).queue = [.pass fetch, .adopt fetch] := by
    change (s.queue ++ [Job.pass fetch, .adopt fetch]).tail = _
    rw [hqueue]
    rfl
  have hpassed : ((s.run (.clear fetch)).run (.pass fetch)).queue = [.adopt fetch] := by
    change (s.run (.clear fetch)).queue.tail = _
    rw [hcleared]
    rfl
  have hadopted : (((s.run (.clear fetch)).run (.pass fetch)).run (.adopt fetch)).queue =
      [.settle fetch] := by
    change (((s.run (.clear fetch)).run (.pass fetch)).queue ++ [Job.settle fetch]).tail = _
    rw [hpassed]
    rfl
  have hsettled : ((((s.run (.clear fetch)).run (.pass fetch)).run (.adopt fetch)).run
      (.settle fetch)).queue = .resume call :: rest.map Job.resume := by
    change ((((s.run (.clear fetch)).run (.pass fetch)).run (.adopt fetch)).queue ++
      ((s.fetches fetch).elim [] Fetch.waiters).map Job.resume).tail = _
    rw [hadopted, hfetch, Option.elim_some, hwaiters]
    rfl
  refine ⟨((((hclear.step (.run _ _ _ hcleared)).step (.run _ _ _ hpassed)).step
    (.run _ _ _ hadopted)).step (.run _ _ _ hsettled)), ?_⟩
  change (State.resume _ call).queue.tail = _
  rw [resume_queue, hsettled]
  rfl

theorem retriedRun_reachable : Reachable retriedRun := by
  have hasked : Reachable ((State.initial 0).graphql none) :=
    Reachable.step ⟨0, .refl⟩ (.graphql _ none)
  have hread := readToken_reachable hasked 0 0 "revoked" (by decide +kernel) (by decide +kernel)
  have hanswered := (resumed_reachable hread 0 0 [] ⟨.settled (.ok "revoked"), false,
    [0]⟩ (by decide +kernel) (by decide +kernel) rfl).1
  have hcall : (answered ((State.initial 0).graphql none) 0 0 "revoked").calls 0 =
      some ⟨none, some 0, .resolved "revoked", [], false⟩ := by decide +kernel
  have hrejected := hanswered.step (.rejected _ 0 ⟨none, 0, none, none⟩ _ "revoked"
    (by decide +kernel) rfl hcall rfl rfl)
  have hretried := hrejected.step (.run _ (.retry 0) [] (by decide +kernel))
  have hreadAgain := readToken_reachable hretried 1 1 "issued" (by decide +kernel)
    (by decide +kernel)
  exact (resumed_reachable hreadAgain 1 1 [] ⟨.settled (.ok "issued"), false, [1]⟩
    (by decide +kernel) (by decide +kernel) rfl).1

theorem staleRun_reachable : Reachable staleRun := by
  have hasked : Reachable ((State.initial 0).token none) :=
    Reachable.step ⟨0, .refl⟩ (.token _ none)
  have hread := readToken_reachable hasked 0 0 "revoked" (by decide +kernel) (by decide +kernel)
  have hanswered := (resumed_reachable hread 0 0 [] ⟨.settled (.ok "revoked"), false,
    [0]⟩ (by decide +kernel) (by decide +kernel) rfl).1
  have hstale := ((hanswered.step (.token _ none)).step (.invalidate _ "revoked")).step
    (.token _ none)
  obtain ⟨hresumed, hqueue⟩ := resumed_reachable hstale 1 1 [2]
    ⟨.settled (.ok "revoked"), false, [1, 2]⟩ (by decide +kernel)
    (by decide +kernel) rfl
  exact hresumed.step (.run _ (.resume 2) [] hqueue)

/-- The token source keeps its law exactly as long as no answered call was made while the
pending promise wrapped a token that was already refused. -/
theorem token_source_law_iff {s : State} (h : Reachable s) :
    Law s ↔ ∀ k call value, s.calls k = some call → call.status = .resolved value →
      call.stale = false := by
  have hholds := h.holds
  constructor
  · intro hlaw k call value hcall hresolved
    have hfresh := hlaw.fresh k call value hcall hresolved
    rw [hholds.refused_iff hcall hresolved, Bool.not_eq_true] at hfresh
    exact hfresh
  · intro hprompt
    refine ⟨fun f g fetch other hf hg => hholds.single hf hg,
      fun k call hcall => (hholds.calls k call hcall).2.aborted,
      fun k call failure hcall => (hholds.calls k call hcall).2.failed failure, ?_,
      fun id request value hrequest => hholds.retried hrequest⟩
    intro k call value hcall hresolved
    rw [hholds.refused_iff hcall hresolved, hprompt k call value hcall hresolved]
    exact Bool.false_ne_true

theorem token_source_law_retried : Law retriedRun := by
  have hprompt : ∀ k < retriedRun.nextCall,
      (retriedRun.calls k).all (fun call => !call.stale) = true := by decide +kernel
  refine (token_source_law_iff retriedRun_reachable).mpr ?_
  intro k call value hcall _
  have hthis := hprompt k (retriedRun_reachable.holds.calls k call hcall).1
  rw [hcall] at hthis
  simpa using hthis

theorem token_source_law_stale : ¬ ∀ s, Reachable s → Law s := by
  intro hlaw
  have hfresh := (hlaw staleRun staleRun_reachable).fresh 2
    ⟨none, some 1, .resolved "revoked", ["revoked"], true⟩ "revoked" (by decide +kernel) rfl
  exact hfresh List.mem_cons_self

end SlashWho.TokenSource
