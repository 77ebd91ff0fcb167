import Mathlib.Data.List.Range
import Mathlib.Data.Rat.Floor
import SlashWho.Transitions

/-!
The concurrency limiter. A call's work waits in a queue until fewer than `limit` works are active;
it is then called in a microtask of its own, in the order of the queue, and its answer settles the
call before its slot is given back. One step is one such job. A clock is read once for each
submission and each work admitted, and the time waited is only reported.
-/

namespace SlashWho.ConcurrencyLimiter

open List

/-- The bound of a limiter that was created. -/
structure Limit where
  value : ℕ
  pos : 1 ≤ value

def createConcurrencyLimiter (limit : ℚ) : Except String Limit :=
  if h : limit.den = 1 ∧ 1 ≤ limit.num.toNat then .ok ⟨limit.num.toNat, h.2⟩
  else .error "concurrency_limit_invalid"

theorem createConcurrencyLimiter_natCast (limit : Limit) :
    createConcurrencyLimiter (limit.value : ℚ) = .ok limit := by
  have hvalid : (limit.value : ℚ).den = 1 ∧ 1 ≤ (limit.value : ℚ).num.toNat := by
    refine ⟨Rat.den_natCast limit.value, ?_⟩
    rw [Rat.num_natCast]
    exact limit.pos
  unfold createConcurrencyLimiter
  rw [dif_pos hvalid]
  rfl

/-- How a work ends. One that throws when it is called is rejected with what it threw. -/
inductive Outcome (α : Type)
  | resolved (value : α)
  | rejected (reason : String)

variable {ρ α : Type}

/-- A call in the queue, by its place among the calls. -/
structure Item (ρ : Type) where
  work : ℕ
  queuedAt : ℚ
  onWait : Option ρ

/-- The limiter, with the jobs of the works it admitted and what came of them. -/
structure State (ρ α : Type) where
  active : ℕ
  pending : List (Item ρ)
  /-- Admitted works not called yet, in the order their microtasks run. -/
  launching : List ℕ
  running : List ℕ
  /-- Works that answered, whose calls are not settled yet. -/
  answered : List (ℕ × Outcome α)
  /-- Settled calls whose slots are not freed yet. -/
  closing : List ℕ
  submitted : ℕ
  started : List ℕ
  answers : List (ℕ × Outcome α)
  settled : List (ℕ × Outcome α)
  reports : List (ρ × ℤ)

def State.initial : State ρ α := ⟨0, [], [], [], [], [], 0, [], [], [], []⟩

/-- The milliseconds waited, rounded half up and never negative. -/
def waitedMs (queuedAt now : ℚ) : ℤ := max 0 ⌊now - queuedAt + 1 / 2⌋

/-- A call's own reporter replaces the limiter's. -/
def reported (onWait : Option ρ) (item : Item ρ) (now : ℚ) : List (ρ × ℤ) :=
  match item.onWait.or onWait with
  | some reporter => [(reporter, waitedMs item.queuedAt now)]
  | none => []

/-- The queue drained, with the readings of the clock this takes. -/
def drainFrom (limit : Limit) (onWait : Option ρ) (s : State ρ α) :
    List (Item ρ) → (ℕ → ℚ) → State ρ α
  | [], _ => { s with pending := [] }
  | item :: rest, clock =>
    if s.active < limit.value then
      drainFrom limit onWait
        { s with
          active := s.active + 1
          launching := s.launching ++ [item.work]
          reports := s.reports ++ reported onWait item (clock 0) }
        rest (fun reading => clock (reading + 1))
    else { s with pending := item :: rest }

def drain (limit : Limit) (onWait : Option ρ) (s : State ρ α) (clock : ℕ → ℚ) : State ρ α :=
  drainFrom limit onWait s s.pending clock

/-- `run`: the call joins the queue, which is drained at once. -/
def submit (limit : Limit) (onWait : Option ρ) (s : State ρ α) (reporter : Option ρ)
    (queuedAt : ℚ) (clock : ℕ → ℚ) : State ρ α :=
  drain limit onWait
    { s with
      pending := s.pending ++ [⟨s.submitted, queuedAt, reporter⟩]
      submitted := s.submitted + 1 } clock

def finish (limit : Limit) (onWait : Option ρ) (s : State ρ α) (before after : List ℕ)
    (clock : ℕ → ℚ) : State ρ α :=
  drain limit onWait { s with active := s.active - 1, closing := before ++ after } clock

/-- What the limiter and the works it called do without another submission. -/
inductive Turn (limit : Limit) (onWait : Option ρ) : State ρ α → State ρ α → Prop
  | launch (s : State ρ α) (work : ℕ) (rest : List ℕ) (hnext : s.launching = work :: rest) :
      Turn limit onWait s
        { s with
          launching := rest
          running := s.running ++ [work]
          started := s.started ++ [work] }
  | answer (s : State ρ α) (before after : List ℕ) (work : ℕ) (outcome : Outcome α)
      (hin : s.running = before ++ work :: after) :
      Turn limit onWait s
        { s with
          running := before ++ after
          answered := s.answered ++ [(work, outcome)]
          answers := s.answers ++ [(work, outcome)] }
  | settle (s : State ρ α) (before after : List (ℕ × Outcome α)) (entry : ℕ × Outcome α)
      (hin : s.answered = before ++ entry :: after) :
      Turn limit onWait s
        { s with
          answered := before ++ after
          closing := s.closing ++ [entry.1]
          settled := s.settled ++ [entry] }
  | finish (s : State ρ α) (before after : List ℕ) (work : ℕ) (clock : ℕ → ℚ)
      (hin : s.closing = before ++ work :: after) :
      Turn limit onWait s (finish limit onWait s before after clock)

inductive Step (limit : Limit) (onWait : Option ρ) : State ρ α → State ρ α → Prop
  | submit (s : State ρ α) (reporter : Option ρ) (queuedAt : ℚ) (clock : ℕ → ℚ) :
      Step limit onWait s (submit limit onWait s reporter queuedAt clock)
  | turn (s s' : State ρ α) (hturn : Turn limit onWait s s') : Step limit onWait s s'

def Reachable (limit : Limit) (onWait : Option ρ) (s : State ρ α) : Prop :=
  Relation.ReflTransGen (Step limit onWait) State.initial s

/-- The slots are those of the works under way, and no work waits beside a free one. The
calls are the works started, those about to be, and those waiting, in this order; a started
work is running, has answered, or is settled by what it answered. -/
structure Holds (limit : Limit) (s : State ρ α) : Prop where
  slots : s.active = s.launching.length + s.running.length + s.answered.length +
    s.closing.length
  bounded : s.active ≤ limit.value
  full : s.pending ≠ [] → s.active = limit.value
  ordered : s.started ++ s.launching ++ s.pending.map Item.work = List.range s.submitted
  accounted : List.Perm (s.running ++ s.answers.map Prod.fst) s.started
  answered : List.Perm (s.answered ++ s.settled) s.answers

/-- A queue about to be drained: a free slot may stand beside a waiting work. -/
structure Drainable (limit : Limit) (s : State ρ α) (queue : List (Item ρ)) : Prop where
  slots : s.active = s.launching.length + s.running.length + s.answered.length +
    s.closing.length
  bounded : s.active ≤ limit.value
  ordered : s.started ++ s.launching ++ queue.map Item.work = List.range s.submitted
  accounted : List.Perm (s.running ++ s.answers.map Prod.fst) s.started
  answered : List.Perm (s.answered ++ s.settled) s.answers

variable {limit : Limit} {onWait : Option ρ}

theorem holds_initial : Holds limit (State.initial : State ρ α) where
  slots := rfl
  bounded := Nat.zero_le _
  full := fun h => absurd rfl h
  ordered := rfl
  accounted := .refl _
  answered := .refl _

variable {s : State ρ α}

theorem holds_drainFrom {queue : List (Item ρ)} (h : Drainable limit s queue) (clock : ℕ → ℚ) :
    Holds limit (drainFrom limit onWait s queue clock) := by
  induction queue generalizing s clock with
  | nil => exact ⟨h.slots, h.bounded, fun hne => absurd rfl hne, h.ordered, h.accounted,
      h.answered⟩
  | cons item rest ih =>
    unfold drainFrom
    by_cases hfree : s.active < limit.value
    · rw [if_pos hfree]
      apply ih
      constructor
      · have hslots := h.slots
        simp only [length_append, length_singleton]
        omega
      · exact hfree
      · have hordered := h.ordered
        rw [map_cons] at hordered
        simpa using hordered
      · exact h.accounted
      · exact h.answered
    · rw [if_neg hfree]
      have hfull : s.active = limit.value := Nat.le_antisymm h.bounded (not_lt.mp hfree)
      exact ⟨h.slots, h.bounded, fun _ => hfull, h.ordered, h.accounted, h.answered⟩

theorem holds_submit (h : Holds limit s) (reporter : Option ρ) (queuedAt : ℚ) (clock : ℕ → ℚ) :
    Holds limit (submit limit onWait s reporter queuedAt clock) := by
  apply holds_drainFrom
  refine ⟨h.slots, h.bounded, ?_, h.accounted, h.answered⟩
  rw [map_append, ← append_assoc, h.ordered, range_succ]
  rfl

variable {s' : State ρ α}

theorem holds_turn (h : Holds limit s) (hturn : Turn limit onWait s s') :
    Holds limit s' := by
  have hslots := h.slots
  cases hturn with
  | launch work rest hnext =>
    have hordered := h.ordered
    have haccounted := h.accounted
    rw [hnext] at hslots hordered
    constructor
    · simp only [length_append, length_cons, length_nil] at hslots ⊢
      omega
    · exact h.bounded
    · exact h.full
    · simpa using hordered
    · have hmoved : List.Perm (s.running ++ [work] ++ s.answers.map Prod.fst)
          (s.running ++ s.answers.map Prod.fst ++ [work]) := by
        rw [append_assoc, append_assoc]
        exact (perm_append_comm).append_left _
      exact hmoved.trans (haccounted.append_right [work])
    · exact h.answered
  | answer before after work outcome hin =>
    have haccounted := h.accounted
    rw [hin] at hslots haccounted
    constructor
    · simp only [length_append, length_cons, length_nil] at hslots ⊢
      omega
    · exact h.bounded
    · exact h.full
    · exact h.ordered
    · rw [map_append]
      refine List.Perm.trans ?_ haccounted
      rw [append_assoc, append_assoc, cons_append]
      apply List.Perm.append_left
      rw [← append_assoc]
      exact perm_append_comm
    · have hmoved : List.Perm (s.answered ++ [(work, outcome)] ++ s.settled)
          (s.answered ++ s.settled ++ [(work, outcome)]) := by
        rw [append_assoc, append_assoc]
        exact (perm_append_comm).append_left _
      exact hmoved.trans (h.answered.append_right [(work, outcome)])
  | settle before after entry hin =>
    have hanswered := h.answered
    rw [hin] at hslots hanswered
    constructor
    · simp only [length_append, length_cons, length_nil] at hslots ⊢
      omega
    · exact h.bounded
    · exact h.full
    · exact h.ordered
    · exact h.accounted
    · refine List.Perm.trans ?_ hanswered
      rw [append_assoc, append_assoc, cons_append]
      apply List.Perm.append_left
      rw [← append_assoc]
      exact perm_append_comm
  | finish before after work clock hin =>
    rw [hin] at hslots
    apply holds_drainFrom
    constructor
    · simp only [length_append, length_cons] at hslots ⊢
      omega
    · have hbounded := h.bounded
      show s.active - 1 ≤ limit.value
      omega
    · exact h.ordered
    · exact h.accounted
    · exact h.answered

theorem holds_reachable (h : Reachable limit onWait s) : Holds limit s := by
  induction h with
  | refl => exact holds_initial
  | tail _ hstep ih =>
    cases hstep with
    | submit reporter queuedAt clock => exact holds_submit ih reporter queuedAt clock
    | turn _ hturn => exact holds_turn ih hturn

/-- The turns that the works submitted so far can still take. -/
def turnsLeft (s : State ρ α) : ℕ :=
  5 * s.pending.length + 4 * s.launching.length + 3 * s.running.length +
    2 * s.answered.length + s.closing.length

theorem turnsLeft_drainFrom (limit : Limit) (onWait : Option ρ) (s : State ρ α)
    (queue : List (Item ρ)) (clock : ℕ → ℚ) :
    turnsLeft (drainFrom limit onWait s queue clock) ≤ turnsLeft { s with pending := queue } := by
  induction queue generalizing s clock with
  | nil => exact Nat.le_refl _
  | cons item rest ih =>
    unfold drainFrom
    by_cases hfree : s.active < limit.value
    · rw [if_pos hfree]
      refine (ih _ _).trans ?_
      unfold turnsLeft
      simp only [length_append, length_cons, length_nil]
      omega
    · rw [if_neg hfree]

theorem turnsLeft_turn (hturn : Turn limit onWait s s') :
    turnsLeft s' < turnsLeft s := by
  cases hturn with
  | launch work rest hnext =>
    unfold turnsLeft
    rw [hnext]
    simp only [length_append, length_cons, length_nil]
    omega
  | answer before after work outcome hin =>
    unfold turnsLeft
    rw [hin]
    simp only [length_append, length_cons, length_nil]
    omega
  | settle before after entry hin =>
    unfold turnsLeft
    rw [hin]
    simp only [length_append, length_cons, length_nil]
    omega
  | finish before after work clock hin =>
    refine Nat.lt_of_le_of_lt (turnsLeft_drainFrom limit onWait _ _ clock) ?_
    unfold turnsLeft
    rw [hin]
    simp only [length_append, length_cons]
    omega

/-- Every call is settled, once, by what its work answered, and every slot is free. -/
structure Done (s : State ρ α) : Prop where
  idle : s.active = 0
  empty : s.pending = []
  started : s.started = List.range s.submitted
  settled : List.Perm (s.settled.map Prod.fst) (List.range s.submitted)
  answers : List.Perm s.settled s.answers

theorem done_of_no_jobs (h : Holds limit s) (hlaunching : s.launching = [])
    (hrunning : s.running = []) (hanswered : s.answered = []) (hclosing : s.closing = []) :
    Done s := by
  have hslots := h.slots
  rw [hlaunching, hrunning, hanswered, hclosing] at hslots
  have hempty : s.pending = [] := by
    by_contra hne
    have hfull := h.full hne
    have hpos := limit.pos
    simp only [length_nil] at hslots
    omega
  have hstarted : s.started = List.range s.submitted := by
    have hordered := h.ordered
    rw [hlaunching, hempty] at hordered
    simpa using hordered
  have hanswers : List.Perm s.settled s.answers := by
    have hheld := h.answered
    rwa [hanswered] at hheld
  have haccounted := h.accounted
  rw [hrunning, hstarted] at haccounted
  exact ⟨hslots, hempty, hstarted, (hanswers.map Prod.fst).trans haccounted, hanswers⟩

/-- Without another submission, the works under way take finitely many turns. -/
def turns (limit : Limit) (onWait : Option ρ) :
    Transitions (Turn (α := α) limit onWait) Done where
  Inv := Holds limit
  rank := turnsLeft
  keeps := fun _ _ h hturn => holds_turn h hturn
  descends := fun _ _ _ hturn => turnsLeft_turn hturn
  progress := by
    intro s h hopen
    cases hlaunching : s.launching with
    | cons work rest => exact ⟨_, .launch s work rest hlaunching⟩
    | nil =>
      cases hrunning : s.running with
      | cons work rest => exact ⟨_, .answer s [] rest work (.rejected "") hrunning⟩
      | nil =>
        cases hanswered : s.answered with
        | cons entry rest => exact ⟨_, .settle s [] rest entry hanswered⟩
        | nil =>
          cases hclosing : s.closing with
          | cons work rest => exact ⟨_, .finish s [] rest work (fun _ => 0) hclosing⟩
          | nil => exact absurd (done_of_no_jobs h hlaunching hrunning hanswered hclosing) hopen

theorem submitted_drainFrom (limit : Limit) (onWait : Option ρ) (s : State ρ α)
    (queue : List (Item ρ)) (clock : ℕ → ℚ) :
    (drainFrom limit onWait s queue clock).submitted = s.submitted := by
  induction queue generalizing s clock with
  | nil => rfl
  | cons item rest ih =>
    unfold drainFrom
    split
    · exact ih _ _
    · rfl

theorem submitted_turns (hturns : Relation.ReflTransGen (Turn limit onWait) s s') :
    s'.submitted = s.submitted := by
  induction hturns with
  | refl => rfl
  | tail _ hturn ih =>
    rw [← ih]
    cases hturn with
    | launch => rfl
    | answer => rfl
    | settle => rfl
    | finish => exact submitted_drainFrom limit onWait _ _ _

/-- The calls of `run` made one after the other, each with its readings of the clock. -/
def submitAll (limit : Limit) (onWait : Option ρ) (s : State ρ α)
    (calls : List (Option ρ × ℚ × (ℕ → ℚ))) : State ρ α :=
  calls.foldl (fun s call => submit limit onWait s call.1 call.2.1 call.2.2) s

theorem submit_free (hempty : s.pending = []) (hfree : s.active < limit.value) (reporter : Option ρ)
    (queuedAt : ℚ) (clock : ℕ → ℚ) :
    (submit limit onWait s reporter queuedAt clock).pending = [] ∧
      (submit limit onWait s reporter queuedAt clock).active = s.active + 1 ∧
      (submit limit onWait s reporter queuedAt clock).launching = s.launching ++ [s.submitted] ∧
      (submit limit onWait s reporter queuedAt clock).submitted = s.submitted + 1 := by
  unfold submit drain
  rw [hempty, nil_append]
  unfold drainFrom
  rw [if_pos hfree]
  exact ⟨rfl, rfl, rfl, rfl⟩

theorem submitAll_free (hempty : s.pending = []) (calls : List (Option ρ × ℚ × (ℕ → ℚ)))
    (hfree : s.active + calls.length ≤ limit.value) :
    (submitAll limit onWait s calls).pending = [] ∧
      (submitAll limit onWait s calls).launching =
        s.launching ++ List.range' s.submitted calls.length := by
  induction calls generalizing s with
  | nil => exact ⟨hempty, by simp [submitAll]⟩
  | cons call rest ih =>
    rw [length_cons] at hfree
    obtain ⟨hpending, hactive, hlaunching, hsubmitted⟩ :=
      @submit_free ρ α limit onWait s hempty (by omega) call.1 call.2.1 call.2.2
    obtain ⟨hrest, hlaunched⟩ := ih hpending (by omega)
    refine ⟨hrest, ?_⟩
    rw [hlaunching, hsubmitted] at hlaunched
    rw [length_cons, range'_succ]
    simpa [submitAll] using hlaunched

/-- What a limiter keeps in every state it reaches. -/
structure Keeps (limit : Limit) (onWait : Option ρ) (s : State ρ α) : Prop where
  /-- At most `limit` works are active, the works called and not settled among them. -/
  bounded : s.active ≤ limit.value ∧ s.running.length ≤ s.active
  /-- Works are called in the order of their submission, each at most once. -/
  order : s.started = List.range s.started.length
  /-- A call is settled at most once, by the one answer of its own work. -/
  once : (s.settled.map Prod.fst).Nodup ∧ (s.answers.map Prod.fst).Nodup ∧
    ∀ entry ∈ s.settled, entry ∈ s.answers ∧ entry.1 ∈ s.started
  /-- Without other calls the works take finitely many turns, to where every call is settled
  once and no slot is taken. -/
  ends : ∀ run : ℕ → State ρ α, run 0 = s →
    ¬ ∀ turn, Turn limit onWait (run turn) (run (turn + 1))
  settles : ∀ s', Relation.ReflTransGen (Turn limit onWait) s s' →
    (∀ s'', ¬ Turn limit onWait s' s'') → Done s' ∧ s'.submitted = s.submitted
  /-- Where every call is settled and its slot freed, `limit` calls are admitted at once. -/
  readmits : ∀ s', Relation.ReflTransGen (Turn limit onWait) s s' → Done s' →
    ∀ calls : List (Option ρ × ℚ × (ℕ → ℚ)), calls.length ≤ limit.value →
      (submitAll limit onWait s' calls).pending = [] ∧
        (submitAll limit onWait s' calls).launching =
          s'.launching ++ List.range' s'.submitted calls.length

theorem order_of_holds (h : Holds limit s) :
    s.started = List.range s.started.length := by
  have hordered := h.ordered
  rw [append_assoc] at hordered
  have htake := congrArg (List.take s.started.length) hordered
  rw [take_left, take_range] at htake
  have hlength := congrArg List.length hordered
  rw [length_append, length_range] at hlength
  rwa [Nat.min_eq_left (by omega)] at htake

theorem limiter_keeps (limit : Limit) (onWait : Option ρ) (s : State ρ α)
    (h : Reachable limit onWait s) : Keeps limit onWait s := by
  have hholds := holds_reachable h
  have horder := order_of_holds hholds
  have hstarted : s.started.Nodup := by
    rw [horder]
    exact nodup_range
  have hanswers : (s.answers.map Prod.fst).Nodup :=
    (nodup_append.mp ((hholds.accounted.nodup_iff).mpr hstarted)).2.1
  have hsettled : (s.settled.map Prod.fst).Nodup := by
    have hperm := hholds.answered.map Prod.fst
    rw [map_append] at hperm
    exact (nodup_append.mp ((hperm.nodup_iff).mpr hanswers)).2.1
  constructor
  · have hslots := hholds.slots
    exact ⟨hholds.bounded, by omega⟩
  · exact horder
  · refine ⟨hsettled, hanswers, ?_⟩
    intro entry hentry
    have hin := hholds.answered.subset (mem_append_right _ hentry)
    refine ⟨hin, hholds.accounted.subset (mem_append_right _ ?_)⟩
    exact mem_map_of_mem hin
  · rintro run rfl
    exact (turns limit onWait).not_forever hholds
  · intro s' hturns hstuck
    exact ⟨(turns limit onWait).final_of_stuck hholds hturns hstuck, submitted_turns hturns⟩
  · intro s' _ hdone calls hcalls
    exact submitAll_free hdone.empty calls (by rw [hdone.idle]; omega)

theorem limiter_keeps_handover :
    ∃ s : State Unit ℕ, Reachable ⟨2, by decide⟩ none s ∧
      s.settled = [(0, .rejected "boom")] ∧ s.launching = [2] ∧
        Keeps ⟨2, by decide⟩ none s := by
  let clock : ℕ → ℚ := fun _ => 0
  have hsubmit := (((Relation.ReflTransGen.refl.tail
    (Step.submit (State.initial : State Unit ℕ) none 0 clock)).tail
      (.submit _ none 0 clock)).tail (.submit _ none 0 clock) :
        Reachable ⟨2, by decide⟩ none _)
  have hlaunch := (hsubmit.tail (.turn _ _ (.launch _ 0 [1] rfl))).tail
    (.turn _ _ (.launch _ 1 [] rfl))
  have hanswer := hlaunch.tail (.turn _ _ (.answer _ [] [1] 0 (.rejected "boom") rfl))
  have hsettle := hanswer.tail (.turn _ _ (.settle _ [] [] _ rfl))
  have hfinish := hsettle.tail (.turn _ _ (.finish _ [] [] 0 clock rfl))
  exact ⟨_, hfinish, rfl, rfl, limiter_keeps _ _ _ hfinish⟩

end SlashWho.ConcurrencyLimiter
