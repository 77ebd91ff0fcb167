import SlashWho.RequestLimiterRuns

/-!
What callers of the request limiter are promised over a whole run. A state
between two events is bounded as the limits say and leaves no waiter asleep;
beyond it, a signal that was aborted starts none of its waiters any more, and a
slot that was released is released for good.
-/

namespace SlashWho.RequestLimiter

open List

variable {Signal : Type*} [DecidableEq Signal] {limiter : Limiter} {clock : ℕ → ℚ}

/-- The bounds on a state between two events. -/
structure Promised (limiter : Limiter) (s : State Signal) : Prop where
  concurrent : s.inFlight.length ≤ limiter.maxConcurrent
  opening : ∀ start, s.startTimes.countP (SlidingWindows.opening windowMs start) ≤
    limiter.maxPerSecond
  closing : ∀ start, s.startTimes.countP (SlidingWindows.closing windowMs start) ≤
    limiter.maxPerSecond
  arrival : (s.startedWaiters ++ s.queue).Pairwise (fun a b => a.call < b.call)
  cancelled : ∀ w ∈ s.cancelled, w ∉ s.startedWaiters ∧ w ∉ s.inFlight
  wakes : s.queue ≠ [] → s.inFlight.length = limiter.maxConcurrent ∨
    ∃ delay, s.timers = [delay] ∧ 0 < delay ∧ delay ≤ windowMs

variable {s : State Signal}

variable {w : Waiter Signal}

theorem mem_started_of_inFlight (h : w ∈ s.inFlight) :
    w ∈ s.startedWaiters := mem_of_mem_filter h

theorem Kept.promised (h : Kept limiter clock s) (hawake : Awake limiter s) :
    Promised limiter s where
  concurrent := by
    rw [← h.slots.held]
    exact h.slots.capped
  opening := fun start => h.timed.atMost _ (SlidingWindows.span_opening windowMs start)
  closing := fun start => h.timed.atMost _ (SlidingWindows.span_closing windowMs start)
  arrival := h.line.ordered
  cancelled := by
    intro w hw
    have hout : w ∉ s.startedWaiters := fun hin => h.line.left w hw (mem_append_left _ hin)
    exact ⟨hout, fun hin => hout (mem_started_of_inFlight hin)⟩
  wakes := by
    intro hqueue
    rcases hawake with hempty | hbusy | hpending
    · exact absurd hempty hqueue
    · left
      rw [← h.slots.held]
      exact hbusy
    · right
      have hsingle := h.single
      rw [hpending, if_pos rfl] at hsingle
      obtain ⟨delay, htimers⟩ := length_eq_one_iff.mp hsingle
      exact ⟨delay, htimers, h.soon delay (htimers ▸ mem_singleton_self delay)⟩

theorem kept_initial : Kept limiter clock (State.initial : State Signal) where
  timed := ⟨⟨[], rfl, fun _ htime => absurd htime not_mem_nil⟩,
    fun _ htime => absurd htime not_mem_nil,
    SlidingWindows.atMost_nil windowMs limiter.maxPerSecond⟩
  slots := ⟨Nat.zero_le _, rfl, fun _ hw => absurd hw not_mem_nil⟩
  line := ⟨List.Pairwise.nil, fun _ hw => absurd hw not_mem_nil,
    fun _ hw => absurd hw not_mem_nil, rfl, fun _ hw => absurd hw not_mem_nil⟩
  single := rfl
  soon := fun _ hdelay => absurd hdelay not_mem_nil

theorem kept_after (hclock : Monotone clock) (events : List (Event Signal)) :
    Kept limiter clock (Runs.after (step limiter clock) State.initial events) ∧
      Awake limiter (Runs.after (step limiter clock) State.initial events) :=
  Runs.keeps (fun s => Kept limiter clock s ∧ Awake limiter s)
    (fun _ event h => h.1.step h.2 hclock event) ⟨kept_initial, .inl rfl⟩ events

/-- What an event does to those before it: nobody unstarts, and nothing is taken back. -/
structure Onward (s s' : State Signal) : Prop where
  started : ∀ w ∈ s.startedWaiters, w ∈ s'.startedWaiters
  released : ∀ w ∈ s.released, w ∈ s'.released
  aborted : ∀ signal ∈ s.aborted, signal ∈ s'.aborted
  newly : ∀ w ∈ s'.startedWaiters, w ∉ s.startedWaiters →
    ∀ signal ∈ s.aborted, w.signal ≠ some signal

omit [DecidableEq Signal] in
theorem Onward.still {s' : State Signal} (hstarted : s'.started = s.started)
    (hreleased : s'.released = s.released) (haborted : ∀ signal ∈ s.aborted, signal ∈ s'.aborted) :
    Onward s s' := by
  have hsame : s'.startedWaiters = s.startedWaiters := congrArg (List.map Prod.fst) hstarted
  refine ⟨?_, ?_, haborted, ?_⟩
  · intro w hw
    rw [hsame]
    exact hw
  · intro w hw
    rw [hreleased]
    exact hw
  · intro w hw hnew
    rw [hsame] at hw
    exact absurd hw hnew

theorem onward_drain {s₀ : State Signal} (hstarted : s.started = s₀.started)
    (hreleased : ∀ w ∈ s₀.released, w ∈ s.released) (haborted : s.aborted = s₀.aborted)
    (hwaiting : ∀ w ∈ s.queue, ∀ signal ∈ s₀.aborted, w.signal ≠ some signal) :
    Onward s₀ (drain limiter clock s) := by
  have hmoved : Moved s (drain limiter clock s) := moved_drain s
  have hsame : s.startedWaiters = s₀.startedWaiters := congrArg (List.map Prod.fst) hstarted
  refine ⟨?_, ?_, ?_, ?_⟩
  · intro w hw
    exact hmoved.started w (hsame ▸ hw)
  · intro w hw
    rw [hmoved.released]
    exact hreleased w hw
  · intro signal hsignal
    rw [hmoved.aborted, haborted]
    exact hsignal
  · intro w hw hnew
    have hline : w ∈ s.startedWaiters ++ s.queue := by
      rw [← hmoved.line]
      exact mem_append_left _ hw
    rcases mem_append.mp hline with hin | hin
    · exact absurd (hsame ▸ hin) hnew
    · exact hwaiting w hin

theorem onward_step (h : Line s) (event : Event Signal) :
    Onward s (step limiter clock s event) := by
  cases event with
  | acquire signal =>
    unfold step acquire
    by_cases haborted : ∃ sig ∈ s.aborted, signal = some sig
    · simp only [if_pos haborted]
      exact Onward.still rfl rfl (fun sig hsig => hsig)
    · simp only [if_neg haborted]
      refine onward_drain rfl (fun w hw => hw) rfl ?_
      intro w hw sig hsig
      rcases mem_append.mp hw with hin | hin
      · exact h.waiting w hin sig hsig
      · rw [mem_singleton.mp hin]
        exact fun heq => haborted ⟨sig, hsig, heq⟩
  | release waiter =>
    unfold step release
    by_cases hstarted : waiter ∈ s.started.map Prod.fst
    · by_cases hreleased : waiter ∈ s.released
      · simp only [hstarted, hreleased, not_true_eq_false, if_true, if_false]
        exact Onward.still rfl rfl (fun sig hsig => hsig)
      · simp only [hstarted, hreleased, not_true_eq_false, if_false]
        exact onward_drain rfl (fun w hw => mem_append_left _ hw) rfl h.waiting
    · simp only [hstarted, not_false_eq_true, if_true]
      exact Onward.still rfl rfl (fun sig hsig => hsig)
  | abort signal =>
    change Onward s (abort signal s)
    by_cases hold : signal ∈ s.aborted
    · unfold abort
      rw [if_pos hold]
      exact Onward.still rfl rfl (fun sig hsig => hsig)
    · rw [abort_eq h hold]
      exact Onward.still rfl rfl (fun sig hsig => mem_append_left _ hsig)
  | timer =>
    unfold step timer
    cases s.timers with
    | nil => exact Onward.still rfl rfl (fun sig hsig => hsig)
    | cons delay timers => exact onward_drain rfl (fun w hw => hw) rfl h.waiting

theorem onward_after (hclock : Monotone clock) (h : Kept limiter clock s) (hawake : Awake limiter s)
    (events : List (Event Signal)) :
    Onward s (Runs.after (step limiter clock) s events) := by
  have hrun : (Kept limiter clock (Runs.after (step limiter clock) s events) ∧
      Awake limiter (Runs.after (step limiter clock) s events)) ∧
      Onward s (Runs.after (step limiter clock) s events) := by
    refine Runs.keeps (fun s' => (Kept limiter clock s' ∧ Awake limiter s') ∧ Onward s s')
      ?_ ⟨⟨h, hawake⟩, Onward.still rfl rfl (fun sig hsig => hsig)⟩ events
    intro s' event hs'
    obtain ⟨⟨hkept, hawake'⟩, honward⟩ := hs'
    have hstep : Onward s' (step limiter clock s' event) := onward_step hkept.line event
    refine ⟨hkept.step hawake' hclock event, ?_, ?_, ?_, ?_⟩
    · exact fun w hw => hstep.started w (honward.started w hw)
    · exact fun w hw => hstep.released w (honward.released w hw)
    · exact fun sig hsig => hstep.aborted sig (honward.aborted sig hsig)
    · intro w hw hnew sig hsig
      by_cases hbefore : w ∈ s'.startedWaiters
      · exact honward.newly w hbefore hnew sig hsig
      · exact hstep.newly w hw hbefore sig (honward.aborted sig hsig)
  exact hrun.2

theorem release_of_released (h : w ∈ s.released) :
    release limiter clock w s = s := by
  unfold release
  by_cases hstarted : w ∈ s.started.map Prod.fst
  · rw [if_neg (not_not.mpr hstarted), if_pos h]
  · rw [if_pos hstarted]

theorem mem_released_release (h : w ∈ s.startedWaiters) :
    w ∈ (release limiter clock w s).released := by
  have hstarted : w ∈ s.started.map Prod.fst := h
  unfold release
  rw [if_neg (not_not.mpr hstarted)]
  by_cases hreleased : w ∈ s.released
  · rw [if_pos hreleased]
    exact hreleased
  · rw [if_neg hreleased, (moved_drain _).released]
    exact mem_append_right _ (mem_singleton_self w)

/-- In every run of a limiter under a clock that never goes back, its bounds
hold between any two events; whoever has a slot may release it again at any
later time without effect; and once a signal is aborted, none of its waiters
that had not started ever starts or has a slot. -/
theorem limiter_keeps_promises (limiter : Limiter) (clock : ℕ → ℚ) (hclock : Monotone clock)
    (events later : List (Event Signal)) :
    Promised limiter (Runs.after (step limiter clock) State.initial events) ∧
      (∀ w ∈ (Runs.after (step limiter clock) State.initial events).startedWaiters,
        step limiter clock (Runs.after (step limiter clock) State.initial
            (events ++ .release w :: later)) (.release w) =
          Runs.after (step limiter clock) State.initial (events ++ .release w :: later)) ∧
      ∀ signal ∈ (Runs.after (step limiter clock) State.initial events).aborted,
        ∀ w, w.signal = some signal →
          w ∉ (Runs.after (step limiter clock) State.initial events).startedWaiters →
          w ∉ (Runs.after (step limiter clock) State.initial (events ++ later)).startedWaiters ∧
            w ∉ (Runs.after (step limiter clock) State.initial (events ++ later)).inFlight := by
  obtain ⟨hkept, hawake⟩ : Kept limiter clock _ ∧ Awake limiter _ := kept_after hclock events
  refine ⟨hkept.promised hawake, ?_, ?_⟩
  · intro w hw
    apply release_of_released
    rw [Runs.after_append, Runs.after_cons]
    obtain ⟨hkept', hawake'⟩ := hkept.step hawake hclock (.release w)
    exact (onward_after hclock hkept' hawake' later).released w (mem_released_release hw)
  · intro signal hsignal w hw hnew
    rw [Runs.after_append]
    have hout : w ∉ (Runs.after (step limiter clock)
        (Runs.after (step limiter clock) State.initial events) later).startedWaiters := by
      intro hin
      exact (onward_after hclock hkept hawake later).newly w hin hnew signal hsignal hw
    exact ⟨hout, fun hin => hout (mem_started_of_inFlight hin)⟩

/-- Two slots and one start a second: the third call waits, the second was aborted. -/
theorem limiter_keeps_promises_waiting :
    (Runs.after (step ⟨2, 1, by decide, by decide⟩ (fun _ => 0)) State.initial
      [Event.acquire none, .acquire (some 0), .acquire none, .abort 0]).queue = [⟨2, none⟩] ∧
    Promised ⟨2, 1, by decide, by decide⟩
      (Runs.after (step ⟨2, 1, by decide, by decide⟩ (fun _ => 0)) State.initial
        [Event.acquire none, .acquire (some 0), .acquire none, .abort 0]) :=
  ⟨by decide +kernel,
    (limiter_keeps_promises ⟨2, 1, by decide, by decide⟩ (fun _ => 0) monotone_const
      [Event.acquire none, .acquire (some 0), .acquire none, .abort 0] []).1⟩

end SlashWho.RequestLimiter
