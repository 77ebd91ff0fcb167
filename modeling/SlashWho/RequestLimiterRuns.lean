import Mathlib.Data.List.Nodup
import Mathlib.Tactic.Linarith
import SlashWho.RequestLimiter

/-!
What the request limiter keeps through every order of calls, releases, aborts
and timers. Three things are kept apart: the starts' times against the trailing
second, the slots against those that hold them, and the line of waiters against
those that left it. A drain keeps all three turn by turn, and ends with the
queue empty, every slot taken, or the timer set.
-/

namespace SlashWho.RequestLimiter

open List

variable {Signal : Type*} [DecidableEq Signal] {limiter : Limiter} {clock : ℕ → ℚ}

namespace State

def startTimes (s : State Signal) : List ℚ := s.started.map Prod.snd

def startedWaiters (s : State Signal) : List (Waiter Signal) := s.started.map Prod.fst

end State

/-- The starts that left the window are a second old for every later reading. -/
structure Timed (limiter : Limiter) (clock : ℕ → ℚ) (s : State Signal) : Prop where
  spaced : ∃ gone, s.startTimes = gone ++ s.recentStarts ∧
    ∀ time ∈ gone, ∀ k, s.readings ≤ k → time + windowMs ≤ clock k
  past : ∀ time ∈ s.startTimes, ∀ k, s.readings ≤ k → time ≤ clock k
  atMost : SlidingWindows.AtMost windowMs limiter.maxPerSecond s.startTimes

/-- The slots taken are those of the waiters that hold one. -/
structure Slots (limiter : Limiter) (s : State Signal) : Prop where
  capped : s.active ≤ limiter.maxConcurrent
  held : s.active = s.inFlight.length
  released : ∀ w ∈ s.released, w ∈ s.startedWaiters

/-- The line in call order: the started, then the queue, and nobody who left it. -/
structure Line (s : State Signal) : Prop where
  ordered : (s.startedWaiters ++ s.queue).Pairwise (fun a b => a.call < b.call)
  called : ∀ w ∈ s.startedWaiters ++ s.queue ++ s.cancelled, w.call < s.calls
  left : ∀ w ∈ s.cancelled, w ∉ s.startedWaiters ++ s.queue
  listens : s.listening = s.queue.filter (fun w => w.signal.isSome)
  waiting : ∀ w ∈ s.queue, ∀ signal ∈ s.aborted, w.signal ≠ some signal

/-- What every event keeps. -/
structure Kept (limiter : Limiter) (clock : ℕ → ℚ) (s : State Signal) : Prop where
  timed : Timed limiter clock s
  slots : Slots limiter s
  line : Line s
  single : s.timers.length = if s.timerPending then 1 else 0
  soon : ∀ delay ∈ s.timers, 0 < delay ∧ delay ≤ windowMs

/-- The queue is empty, or every slot is taken, or the timer is set. -/
def Awake (limiter : Limiter) (s : State Signal) : Prop :=
  s.queue = [] ∨ s.active = limiter.maxConcurrent ∨ s.timerPending = true

omit [DecidableEq Signal] in
theorem Line.nodup {s : State Signal} (h : Line s) : (s.startedWaiters ++ s.queue).Nodup := by
  refine h.ordered.imp ?_
  intro a b hab heq
  subst heq
  exact absurd hab (lt_irrefl _)

variable {s : State Signal}

omit [DecidableEq Signal] in
theorem Timed.expired (h : Timed limiter clock s) (hclock : Monotone clock) :
    ∃ gone, s.startTimes =
        gone ++ SlidingWindows.expire windowMs (clock s.readings) s.recentStarts ∧
      ∀ time ∈ gone, ∀ k, s.readings ≤ k → time + windowMs ≤ clock k := by
  obtain ⟨gone, htimes, hgone⟩ := h.spaced
  obtain ⟨more, hmore, hold⟩ :=
    SlidingWindows.exists_expired windowMs (clock s.readings) s.recentStarts
  refine ⟨gone ++ more, ?_, ?_⟩
  · rw [htimes, append_assoc, ← hmore]
  · intro time htime k hk
    rcases mem_append.mp htime with hin | hin
    · exact hgone time hin k hk
    · exact le_trans (hold time hin) (hclock hk)

theorem Timed.start (h : Timed limiter clock s) (hclock : Monotone clock) (waiter : Waiter Signal)
    (queue : List (Waiter Signal))
    (hroom : (SlidingWindows.expire windowMs (clock s.readings) s.recentStarts).length <
      limiter.maxPerSecond) :
    Timed limiter clock (s.start waiter queue
      (SlidingWindows.expire windowMs (clock s.readings) s.recentStarts) (clock s.readings)) := by
  obtain ⟨gone, htimes, hgone⟩ := h.expired hclock
  have hstarts : ∀ recent now, (s.start waiter queue recent now).startTimes =
      s.startTimes ++ [now] := by
    intro recent now
    exact map_append
  constructor
  · refine ⟨gone, ?_, ?_⟩
    · rw [hstarts, htimes, append_assoc]
      rfl
    · intro time htime k hk
      exact hgone time htime k (le_trans (Nat.le_succ _) hk)
  · intro time htime k hk
    have hlater : s.readings ≤ k := le_trans (Nat.le_succ _) hk
    rw [hstarts] at htime
    rcases mem_append.mp htime with hin | hin
    · exact h.past time hin k hlater
    · rw [mem_singleton.mp hin]
      exact hclock hlater
  · have hbefore := h.atMost
    rw [htimes] at hbefore
    rw [hstarts, htimes]
    exact hbefore.push (fun time htime => hgone time htime s.readings le_rfl) hroom

theorem Slots.start (h : Slots limiter s) (waiter : Waiter Signal) (queue : List (Waiter Signal))
    (recentStarts : List ℚ) (now : ℚ) (hfree : s.active < limiter.maxConcurrent)
    (hnew : waiter ∉ s.startedWaiters) :
    Slots limiter (s.start waiter queue recentStarts now) := by
  have hstarted : (s.start waiter queue recentStarts now).startedWaiters =
      s.startedWaiters ++ [waiter] := map_append
  constructor
  · exact hfree
  · have hunreleased : waiter ∉ s.released := fun hin => hnew (h.released waiter hin)
    have hinFlight : (s.start waiter queue recentStarts now).inFlight =
        s.inFlight ++ [waiter] := by
      change List.filter _ (List.map _ (s.started ++ [(waiter, now)])) = _
      rw [map_append, filter_append]
      congr 1
      simp [hunreleased, State.start]
    rw [hinFlight, length_append, ← h.held]
    rfl
  · intro w hw
    rw [hstarted]
    exact mem_append_left _ (h.released w hw)

theorem Line.start (h : Line s) {waiter : Waiter Signal} {queue : List (Waiter Signal)}
    (hqueue : s.queue = waiter :: queue) (recentStarts : List ℚ) (now : ℚ) :
    Line (s.start waiter queue recentStarts now) := by
  have hstarted : (s.start waiter queue recentStarts now).startedWaiters =
      s.startedWaiters ++ [waiter] := map_append
  have hline : (s.start waiter queue recentStarts now).startedWaiters ++ queue =
      s.startedWaiters ++ s.queue := by
    rw [hstarted, hqueue, append_assoc]
    rfl
  have hnodup : (waiter :: queue).Nodup := by
    have hboth := h.nodup
    rw [hqueue] at hboth
    exact hboth.of_append_right
  constructor
  · exact hline ▸ h.ordered
  · intro w hw
    refine h.called w ?_
    rw [← hline]
    exact hw
  · intro w hw
    have hout := h.left w hw
    rw [← hline] at hout
    exact hout
  · change s.listening.erase waiter = queue.filter _
    rw [h.listens, hqueue]
    cases hsignal : waiter.signal.isSome with
    | true => rw [filter_cons, if_pos hsignal, erase_cons_head]
    | false =>
      rw [filter_cons, if_neg (by simp [hsignal])]
      apply erase_of_not_mem
      intro hin
      exact (nodup_cons.mp hnodup).1 (mem_of_mem_filter hin)
  · intro w hw
    refine h.waiting w ?_
    rw [hqueue]
    exact mem_cons_of_mem _ hw

theorem Kept.start (h : Kept limiter clock s) (hclock : Monotone clock) {waiter : Waiter Signal}
    {queue : List (Waiter Signal)} (hqueue : s.queue = waiter :: queue)
    (hfree : s.active < limiter.maxConcurrent)
    (hroom : (SlidingWindows.expire windowMs (clock s.readings) s.recentStarts).length <
      limiter.maxPerSecond) :
    Kept limiter clock (s.start waiter queue
      (SlidingWindows.expire windowMs (clock s.readings) s.recentStarts) (clock s.readings)) := by
  have hnew : waiter ∉ s.startedWaiters := by
    intro hin
    have hnodup := h.line.nodup
    rw [hqueue] at hnodup
    exact disjoint_of_nodup_append hnodup hin mem_cons_self
  exact {
    timed := h.timed.start hclock waiter queue hroom
    slots := h.slots.start waiter queue _ _ hfree hnew
    line := h.line.start hqueue _ _
    single := h.single
    soon := h.soon
  }

omit [DecidableEq Signal] in
theorem wait_eq (s : State Signal) (recentStarts : List ℚ) (now : ℚ) :
    s.wait recentStarts now =
      { s with
        recentStarts := recentStarts
        timerPending := true
        timers := if s.timerPending then s.timers
          else s.timers ++ [recentStarts.headD 0 + windowMs - now]
        readings := s.readings + 1 } := by
  obtain ⟨queue, _, active, timerPending⟩ := s
  cases timerPending with
  | true => rfl
  | false => rfl

omit [DecidableEq Signal] in
/-- The oldest start of a full second leaves it within a second, and has not yet. -/
theorem Timed.delay (h : Timed limiter clock s) (hclock : Monotone clock)
    (hfull : limiter.maxPerSecond ≤
      (SlidingWindows.expire windowMs (clock s.readings) s.recentStarts).length) :
    0 < (SlidingWindows.expire windowMs (clock s.readings) s.recentStarts).headD 0 + windowMs -
        clock s.readings ∧
      (SlidingWindows.expire windowMs (clock s.readings) s.recentStarts).headD 0 + windowMs -
        clock s.readings ≤ windowMs := by
  obtain ⟨gone, htimes, -⟩ := h.expired hclock
  cases hrecent : SlidingWindows.expire windowMs (clock s.readings) s.recentStarts with
  | nil =>
    have hpos := limiter.perSecond_pos
    rw [hrecent, length_nil] at hfull
    omega
  | cons oldest rest =>
    have hwithin : clock s.readings < oldest + windowMs :=
      SlidingWindows.lt_of_expire_eq_cons hrecent
    have hpast : oldest ≤ clock s.readings := by
      refine h.past oldest ?_ s.readings le_rfl
      rw [htimes, hrecent]
      exact mem_append_right _ mem_cons_self
    constructor
    · exact sub_pos.mpr hwithin
    · change oldest + windowMs - clock s.readings ≤ windowMs
      linarith

theorem Kept.wait (h : Kept limiter clock s) (hclock : Monotone clock)
    (hfull : limiter.maxPerSecond ≤
      (SlidingWindows.expire windowMs (clock s.readings) s.recentStarts).length) :
    Kept limiter clock (s.wait
      (SlidingWindows.expire windowMs (clock s.readings) s.recentStarts) (clock s.readings)) := by
  obtain ⟨gone, htimes, hgone⟩ := h.timed.expired hclock
  have hsingle := h.single
  rw [wait_eq]
  exact {
    timed := {
      spaced := ⟨gone, htimes, fun time htime k hk =>
        hgone time htime k (le_trans (Nat.le_succ _) hk)⟩
      past := fun time htime k hk => h.timed.past time htime k (le_trans (Nat.le_succ _) hk)
      atMost := h.timed.atMost
    }
    slots := ⟨h.slots.capped, h.slots.held, h.slots.released⟩
    line := ⟨h.line.ordered, h.line.called, h.line.left, h.line.listens, h.line.waiting⟩
    single := by
      cases hpending : s.timerPending with
      | true =>
        rw [hpending] at hsingle
        exact hsingle
      | false =>
        rw [hpending] at hsingle
        have hnone : s.timers = [] := eq_nil_of_length_eq_zero hsingle
        rw [hnone]
        rfl
    soon := by
      intro delay hdelay
      cases hpending : s.timerPending with
      | true =>
        rw [hpending] at hdelay
        exact h.soon delay hdelay
      | false =>
        rw [hpending] at hdelay
        rcases mem_append.mp hdelay with hin | hin
        · exact h.soon delay hin
        · rw [mem_singleton.mp hin]
          exact h.timed.delay hclock hfull
  }

/-- What both turns keep a drain keeps, and it ends with nobody to start. -/
theorem drain_keeps (P : State Signal → Prop)
    (hstart : ∀ s waiter queue, P s → s.queue = waiter :: queue →
      s.active < limiter.maxConcurrent →
      (SlidingWindows.expire windowMs (clock s.readings) s.recentStarts).length <
        limiter.maxPerSecond →
      P (s.start waiter queue
        (SlidingWindows.expire windowMs (clock s.readings) s.recentStarts) (clock s.readings)))
    (hwait : ∀ s, P s → limiter.maxPerSecond ≤
        (SlidingWindows.expire windowMs (clock s.readings) s.recentStarts).length →
      P (s.wait (SlidingWindows.expire windowMs (clock s.readings) s.recentStarts)
        (clock s.readings))) (h : P s) :
    P (drain limiter clock s) ∧
      ((drain limiter clock s).queue = [] ∨
        limiter.maxConcurrent ≤ (drain limiter clock s).active ∨
        (drain limiter clock s).timerPending = true) := by
  have hturns : ∀ (queue : List (Waiter Signal)) (s : State Signal), s.queue = queue → P s →
      P (drainTurns limiter clock queue s) ∧
        ((drainTurns limiter clock queue s).queue = [] ∨
          limiter.maxConcurrent ≤ (drainTurns limiter clock queue s).active ∨
          (drainTurns limiter clock queue s).timerPending = true) := by
    intro queue
    induction queue with
    | nil =>
      intro s hqueue hs
      exact ⟨hs, .inl hqueue⟩
    | cons waiter queue ih =>
      intro s hqueue hs
      unfold drainTurns
      by_cases hfree : s.active < limiter.maxConcurrent
      · rw [if_pos hfree]
        dsimp only
        by_cases hfull : limiter.maxPerSecond ≤
            (SlidingWindows.expire windowMs (clock s.readings) s.recentStarts).length
        · rw [if_pos hfull]
          exact ⟨hwait s hs hfull, .inr (.inr (by rw [wait_eq]))⟩
        · rw [if_neg hfull]
          exact ih _ rfl (hstart s waiter queue hs hqueue hfree (not_le.mp hfull))
      · rw [if_neg hfree]
        exact ⟨hs, .inr (.inl (not_lt.mp hfree))⟩
  exact hturns s.queue s rfl h

theorem Kept.drain (h : Kept limiter clock s) (hclock : Monotone clock) :
    Kept limiter clock (drain limiter clock s) ∧ Awake limiter (drain limiter clock s) := by
  obtain ⟨hkept, hend⟩ := drain_keeps (Kept limiter clock)
    (fun s waiter queue hs hqueue hfree hroom => hs.start hclock hqueue hfree hroom)
    (fun s hs hfull => hs.wait hclock hfull) h
  refine ⟨hkept, ?_⟩
  have hcapped := hkept.slots.capped
  rcases hend with hempty | hbusy | hpending
  · exact .inl hempty
  · exact .inr (.inl (le_antisymm hcapped hbusy))
  · exact .inr (.inr hpending)

/-- What turns leave as it was: they move waiters along one line. -/
structure Moved (s s' : State Signal) : Prop where
  line : s'.startedWaiters ++ s'.queue = s.startedWaiters ++ s.queue
  started : ∀ w ∈ s.startedWaiters, w ∈ s'.startedWaiters
  aborted : s'.aborted = s.aborted
  released : s'.released = s.released

theorem moved_drain (s : State Signal) : Moved s (drain limiter clock s) := by
  refine (drain_keeps (Moved s) ?_ ?_ ⟨rfl, fun w hw => hw, rfl, rfl⟩).1
  · intro s' waiter queue h hqueue _ _
    have hstarted : ∀ recent now, (s'.start waiter queue recent now).startedWaiters =
        s'.startedWaiters ++ [waiter] := fun recent now => map_append
    refine ⟨?_, ?_, h.aborted, h.released⟩
    · rw [← h.line, hqueue, hstarted, append_assoc]
      rfl
    · intro w hw
      rw [hstarted]
      exact mem_append_left _ (h.started w hw)
  · intro s' h _
    rw [wait_eq]
    exact ⟨h.line, h.started, h.aborted, h.released⟩

theorem Kept.reject (h : Kept limiter clock s) (signal : Option Signal) :
    Kept limiter clock
      { s with calls := s.calls + 1, cancelled := s.cancelled ++ [⟨s.calls, signal⟩] } where
  timed := ⟨h.timed.spaced, h.timed.past, h.timed.atMost⟩
  slots := ⟨h.slots.capped, h.slots.held, h.slots.released⟩
  line := by
    refine ⟨h.line.ordered, ?_, ?_, h.line.listens, h.line.waiting⟩
    · intro w hw
      rw [← append_assoc] at hw
      rcases mem_append.mp hw with hin | hin
      · exact Nat.lt_succ_of_lt (h.line.called w hin)
      · rw [mem_singleton.mp hin]
        exact Nat.lt_succ_self _
    · intro w hw
      rcases mem_append.mp hw with hin | hin
      · exact h.line.left w hin
      · intro hline
        have hcall := h.line.called w (mem_append_left _ hline)
        rw [mem_singleton.mp hin] at hcall
        exact absurd hcall (lt_irrefl _)
  single := h.single
  soon := h.soon

theorem Kept.enqueue (h : Kept limiter clock s) (signal : Option Signal)
    (hlive : ∀ sig ∈ s.aborted, signal ≠ some sig) :
    Kept limiter clock
      { s with
        calls := s.calls + 1
        listening := if signal.isSome then s.listening ++ [⟨s.calls, signal⟩] else s.listening
        queue := s.queue ++ [⟨s.calls, signal⟩] } where
  timed := ⟨h.timed.spaced, h.timed.past, h.timed.atMost⟩
  slots := ⟨h.slots.capped, h.slots.held, h.slots.released⟩
  line := by
    constructor
    · change (s.startedWaiters ++ (s.queue ++ [_])).Pairwise _
      rw [← append_assoc]
      refine pairwise_append.mpr ⟨h.line.ordered, pairwise_singleton _ _, ?_⟩
      intro a ha b hb
      rw [mem_singleton.mp hb]
      exact h.line.called a (mem_append_left _ ha)
    · intro w hw
      change w ∈ s.startedWaiters ++ (s.queue ++ [_]) ++ s.cancelled at hw
      by_cases hnew : w = ⟨s.calls, signal⟩
      · rw [hnew]
        exact Nat.lt_succ_self _
      · refine Nat.lt_succ_of_lt (h.line.called w ?_)
        simpa [hnew] using hw
    · intro w hw
      change w ∉ s.startedWaiters ++ (s.queue ++ [_])
      rw [← append_assoc]
      intro hin
      rcases mem_append.mp hin with hold | hnew
      · exact h.line.left w hw hold
      · have hcall := h.line.called w (mem_append_right _ hw)
        rw [mem_singleton.mp hnew] at hcall
        exact absurd hcall (lt_irrefl _)
    · change (if signal.isSome then _ else _) = List.filter _ (s.queue ++ [_])
      rw [filter_append, h.line.listens]
      cases signal with
      | some sig => rfl
      | none => simp
    · intro w hw sig hsig
      rcases mem_append.mp hw with hin | hin
      · exact h.line.waiting w hin sig hsig
      · rw [mem_singleton.mp hin]
        exact hlive sig hsig
  single := h.single
  soon := h.soon

theorem Kept.free (h : Kept limiter clock s) {waiter : Waiter Signal}
    (hstarted : waiter ∈ s.startedWaiters) (hheld : waiter ∉ s.released) :
    Kept limiter clock
      { s with released := s.released ++ [waiter], active := s.active - 1 } where
  timed := ⟨h.timed.spaced, h.timed.past, h.timed.atMost⟩
  slots := by
    have hnodup : s.startedWaiters.Nodup := h.line.nodup.of_append_left
    have hholds : waiter ∈ s.inFlight := by
      refine mem_filter.mpr ⟨hstarted, ?_⟩
      simpa using hheld
    have hinFlight : s.startedWaiters.filter (fun w => w ∉ s.released ++ [waiter]) =
        s.inFlight.erase waiter := by
      have hone : s.inFlight.Nodup := hnodup.filter _
      rw [hone.erase_eq_filter]
      change _ = List.filter _ (List.filter _ s.startedWaiters)
      rw [filter_filter]
      refine filter_congr (fun w _ => ?_)
      by_cases hsame : w = waiter
      · subst hsame
        simp
      · simp [hsame]
    refine ⟨?_, ?_, ?_⟩
    · have hcapped := h.slots.capped
      change s.active - 1 ≤ _
      omega
    · change s.active - 1 = (s.startedWaiters.filter _).length
      rw [hinFlight, length_erase_of_mem hholds, ← h.slots.held]
    · intro w hw
      rcases mem_append.mp hw with hin | hin
      · exact h.slots.released w hin
      · rw [mem_singleton.mp hin]
        exact hstarted
  line := ⟨h.line.ordered, h.line.called, h.line.left, h.line.listens, h.line.waiting⟩
  single := h.single
  soon := h.soon

theorem foldl_onAbort {waiters : List (Waiter Signal)} (hwaiters : waiters.Nodup)
    (hqueue : s.queue.Nodup) (hlistens : s.listening = s.queue.filter (fun w => w.signal.isSome))
    (hin : ∀ w ∈ waiters, w ∈ s.queue) :
    waiters.foldl onAbort s =
      { s with
        queue := s.queue.filter (fun w => w ∉ waiters)
        listening := s.listening.filter (fun w => w ∉ waiters)
        cancelled := s.cancelled ++ waiters } := by
  induction waiters generalizing s with
  | nil => simp
  | cons waiter rest ih =>
    have hfirst : waiter ∈ s.queue := hin waiter mem_cons_self
    obtain ⟨hnew, hrest⟩ := nodup_cons.mp hwaiters
    have hlistening : s.listening.Nodup := by
      rw [hlistens]
      exact hqueue.filter _
    have hsplit : ∀ (line : List (Waiter Signal)), line.Nodup →
        (line.erase waiter).filter (fun w => w ∉ rest) =
          line.filter (fun w => w ∉ waiter :: rest) := by
      intro line hline
      rw [hline.erase_eq_filter, filter_filter]
      refine filter_congr (fun w _ => ?_)
      by_cases hsame : w = waiter
      · subst hsame
        simp
      · simp [hsame]
    have hone : onAbort s waiter =
        { s with
          queue := s.queue.erase waiter
          listening := s.listening.erase waiter
          cancelled := s.cancelled ++ [waiter] } := if_pos hfirst
    rw [foldl_cons, hone, ih hrest]
    · simp only [hsplit s.queue hqueue, hsplit s.listening hlistening, append_assoc,
        singleton_append]
    · exact hqueue.erase waiter
    · change s.listening.erase waiter = _
      rw [hlistening.erase_eq_filter, hqueue.erase_eq_filter, hlistens, filter_filter,
        filter_filter]
      exact filter_congr (fun w _ => Bool.and_comm _ _)
    · intro w hw
      refine (mem_erase_of_ne ?_).mpr (hin w (mem_cons_of_mem _ hw))
      intro hsame
      subst hsame
      exact hnew hw

theorem abort_eq (h : Line s) {signal : Signal} (hnew : signal ∉ s.aborted) :
    abort signal s =
      { s with
        aborted := s.aborted ++ [signal]
        queue := s.queue.filter (fun w => w.signal ≠ some signal)
        listening := s.listening.filter (fun w => w.signal ≠ some signal)
        cancelled := s.cancelled ++ s.queue.filter (fun w => w.signal = some signal) } := by
  have hqueue : s.queue.Nodup := h.nodup.of_append_right
  have hcalled : s.listening.filter (fun w => w.signal = some signal) =
      s.queue.filter (fun w => w.signal = some signal) := by
    rw [h.listens, filter_filter]
    refine filter_congr (fun w _ => ?_)
    cases hsignal : w.signal <;> simp
  have hmem : ∀ w ∈ s.queue, (w ∉ s.queue.filter (fun w => w.signal = some signal)) ↔
      w.signal ≠ some signal := by
    intro w hw
    simp [mem_filter, hw]
  unfold abort
  rw [if_neg hnew, hcalled]
  refine (foldl_onAbort (s := { s with aborted := s.aborted ++ [signal] }) (hqueue.filter _)
    hqueue h.listens (fun w hw => mem_of_mem_filter hw)).trans ?_
  congr 1
  · exact filter_congr (fun w hw => decide_eq_decide.mpr (hmem w hw))
  · refine filter_congr (fun w hw => decide_eq_decide.mpr (hmem w ?_))
    change w ∈ s.listening at hw
    rw [h.listens] at hw
    exact mem_of_mem_filter hw

theorem Kept.abort (h : Kept limiter clock s) (signal : Signal) :
    Kept limiter clock (abort signal s) := by
  by_cases hold : signal ∈ s.aborted
  · unfold RequestLimiter.abort
    rw [if_pos hold]
    exact h
  · rw [abort_eq h.line hold]
    have hsub : (s.queue.filter (fun w => w.signal ≠ some signal)).Sublist s.queue :=
      filter_sublist
    have hline : ∀ w ∈ s.startedWaiters ++ s.queue.filter (fun w => w.signal ≠ some signal),
        w ∈ s.startedWaiters ++ s.queue := fun w hw => (hsub.append_left _).subset hw
    exact {
      timed := ⟨h.timed.spaced, h.timed.past, h.timed.atMost⟩
      slots := ⟨h.slots.capped, h.slots.held, h.slots.released⟩
      line := by
        constructor
        · exact h.line.ordered.sublist (hsub.append_left _)
        · intro w hw
          refine h.line.called w ?_
          rw [← append_assoc] at hw
          rcases mem_append.mp hw with hin | hin
          · rcases mem_append.mp hin with hon | hout
            · exact mem_append_left _ (hline w hon)
            · exact mem_append_right _ hout
          · exact mem_append_left _
              (mem_append_right _ (mem_of_mem_filter hin))
        · intro w hw hin
          rcases mem_append.mp hw with hgone | hleft
          · exact h.line.left w hgone (hline w hin)
          · obtain ⟨hqueue, hsignal⟩ := mem_filter.mp hleft
            rcases mem_append.mp hin with hstarted | hkept
            · exact disjoint_of_nodup_append h.line.nodup hstarted hqueue
            · exact absurd (of_decide_eq_true hsignal)
                (of_decide_eq_true (mem_filter.mp hkept).2)
        · change s.listening.filter _ = List.filter _ (List.filter _ s.queue)
          rw [h.line.listens, filter_filter, filter_filter]
          exact filter_congr (fun w _ => Bool.and_comm _ _)
        · intro w hw sig hsig
          obtain ⟨hqueue, hother⟩ := mem_filter.mp hw
          rcases mem_append.mp hsig with hin | hin
          · exact h.line.waiting w hqueue sig hin
          · rw [mem_singleton.mp hin]
            exact of_decide_eq_true hother
      single := h.single
      soon := h.soon
    }

theorem Kept.step (h : Kept limiter clock s) (hawake : Awake limiter s) (hclock : Monotone clock)
    (event : Event Signal) :
    Kept limiter clock (step limiter clock s event) ∧
      Awake limiter (step limiter clock s event) := by
  cases event with
  | acquire signal =>
    change Kept limiter clock (acquire limiter clock signal s) ∧ Awake _ _
    unfold RequestLimiter.step acquire
    by_cases haborted : ∃ sig ∈ s.aborted, signal = some sig
    · simp only [if_pos haborted]
      exact ⟨h.reject signal, hawake⟩
    · simp only [if_neg haborted]
      have hlive : ∀ sig ∈ s.aborted, signal ≠ some sig :=
        fun sig hsig heq => haborted ⟨sig, hsig, heq⟩
      exact (h.enqueue signal hlive).drain hclock
  | release waiter =>
    unfold RequestLimiter.step release
    by_cases hstarted : waiter ∈ s.started.map Prod.fst
    · by_cases hreleased : waiter ∈ s.released
      · simp only [hstarted, hreleased, not_true_eq_false, if_true, if_false]
        exact ⟨h, hawake⟩
      · simp only [hstarted, hreleased, not_true_eq_false, if_false]
        exact (h.free hstarted hreleased).drain hclock
    · simp only [hstarted, not_false_eq_true, if_true]
      exact ⟨h, hawake⟩
  | abort signal =>
    refine ⟨h.abort signal, ?_⟩
    change Awake limiter (RequestLimiter.abort signal s)
    by_cases hold : signal ∈ s.aborted
    · unfold RequestLimiter.abort
      rw [if_pos hold]
      exact hawake
    · rw [abort_eq h.line hold]
      rcases hawake with hempty | hbusy
      · left
        change s.queue.filter _ = []
        rw [hempty]
        rfl
      · exact .inr hbusy
  | timer =>
    unfold RequestLimiter.step timer
    cases htimers : s.timers with
    | nil => exact ⟨h, hawake⟩
    | cons delay timers =>
      have hsingle := h.single
      rw [htimers] at hsingle
      have hlast : timers = [] := by
        apply eq_nil_of_length_eq_zero
        rw [length_cons] at hsingle
        split at hsingle
        · omega
        · omega
      subst hlast
      have hfired : Kept limiter clock { s with timers := [], timerPending := false } :=
        ⟨⟨h.timed.spaced, h.timed.past, h.timed.atMost⟩,
          ⟨h.slots.capped, h.slots.held, h.slots.released⟩,
          ⟨h.line.ordered, h.line.called, h.line.left, h.line.listens, h.line.waiting⟩, rfl,
          fun delay hdelay => absurd hdelay not_mem_nil⟩
      exact hfired.drain hclock

end SlashWho.RequestLimiter
