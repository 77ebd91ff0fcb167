import Mathlib.Data.List.Range
import Mathlib.Data.List.Perm.Basic
import SlashWho.Transitions

/-!
A few workers that take the tasks of a list one after another. A worker takes the next
task whenever it has none, unless the pool is halted; a task is passed over, or started
and settled later, in whatever order. However the tasks settle, what the pool has
gathered is a fold over the tasks taken, each once, and every run ends.
-/

namespace SlashWho.WorkerPool

open List

/-- What the pool's tasks do to what it gathers. A halt is for good. -/
structure Rules (β σ : Type) where
  size : ℕ
  answers : ℕ → β → Prop
  halted : σ → Bool
  passes : σ → ℕ → Bool
  pass : σ → ℕ → σ
  settle : σ → ℕ → β → σ
  halted_pass : ∀ acc i, halted acc = true → halted (pass acc i) = true
  halted_settle : ∀ acc i b, halted acc = true → halted (settle acc i b) = true

structure Pool (σ : Type) where
  next : ℕ
  idle : ℕ
  inFlight : List ℕ
  acc : σ

inductive Event (β : Type)
  | passed (i : ℕ)
  | settled (i : ℕ) (b : β)

def Event.task {β : Type} : Event β → ℕ
  | .passed i => i
  | .settled i _ => i

variable {β σ : Type} (r : Rules β σ)

inductive Step : Pool σ → Pool σ → Prop
  | start (s : Pool σ) (hidle : 0 < s.idle) (hopen : r.halted s.acc = false) (hnext : s.next < r.size)
      (hpass : r.passes s.acc s.next = false) :
      Step s { s with next := s.next + 1, idle := s.idle - 1, inFlight := s.inFlight ++ [s.next] }
  | pass (s : Pool σ) (hidle : 0 < s.idle) (hopen : r.halted s.acc = false) (hnext : s.next < r.size)
      (hpass : r.passes s.acc s.next = true) :
      Step s { s with next := s.next + 1, acc := r.pass s.acc s.next }
  | settle (s : Pool σ) (before after : List ℕ) (i : ℕ) (b : β)
      (hin : s.inFlight = before ++ i :: after) (hanswer : r.answers i b) :
      Step s { s with idle := s.idle + 1, inFlight := before ++ after, acc := r.settle s.acc i b }
  | leave (s : Pool σ) (hidle : 0 < s.idle) (hdone : r.halted s.acc = true ∨ r.size ≤ s.next) :
      Step s { s with idle := s.idle - 1 }

def Pool.Ended (s : Pool σ) : Prop := s.idle = 0 ∧ s.inFlight = []

def Pool.begin (workers : ℕ) (acc : σ) : Pool σ := ⟨0, workers, [], acc⟩

/-- What the pool gathers as these events happen. -/
inductive Plays (acc : σ) : List (Event β) → σ → Prop
  | none : Plays acc [] acc
  | passed {events : List (Event β)} {acc' : σ} {i : ℕ} (h : Plays acc events acc')
      (hpass : r.passes acc' i = true) : Plays acc (events ++ [.passed i]) (r.pass acc' i)
  | settled {events : List (Event β)} {acc' : σ} {i : ℕ} {b : β} (h : Plays acc events acc')
      (hanswer : r.answers i b) : Plays acc (events ++ [.settled i b]) (r.settle acc' i b)

/-- What a run keeps: the tasks taken are those that happened and those in flight. -/
structure Inv (workers : ℕ) (acc : σ) (s : Pool σ) : Prop where
  bounded : s.next ≤ r.size
  played : ∃ events : List (Event β), Plays r acc events s.acc ∧
    (events.map Event.task ++ s.inFlight).Perm (List.range s.next)
  left : s.idle + s.inFlight.length < workers → r.halted s.acc = true ∨ s.next = r.size
  most : s.idle + s.inFlight.length ≤ workers

variable {r}

variable {workers : ℕ} {acc : σ} {s : Pool σ}

theorem Inv.step {s' : Pool σ} (h : Inv r workers acc s) (hstep : Step r s s') :
    Inv r workers acc s' := by
  obtain ⟨events, hplays, hperm⟩ := h.played
  have hmost := h.most
  cases hstep with
  | start hidle hopen hnext hpass =>
    refine ⟨hnext, ⟨events, hplays, ?_⟩, fun hfew => ?_, ?_⟩
    · simp only [range_succ, ← append_assoc]
      exact hperm.append_right [s.next]
    · simp only [length_append, length_singleton] at hfew
      rcases h.left (by omega) with hhalted | hend
      · exact .inl hhalted
      · omega
    · simp only [length_append, length_singleton]
      omega
  | pass hidle hopen hnext hpass =>
    refine ⟨hnext, ⟨_, hplays.passed hpass, ?_⟩, fun hfew => ?_, hmost⟩
    · simp only [map_append, map_cons, map_nil, Event.task, range_succ,
        append_assoc]
      refine List.Perm.trans ?_ (hperm.append_right [s.next])
      rw [append_assoc]
      exact perm_append_comm.append_left _
    · rcases h.left hfew with hhalted | hend
      · rw [hopen] at hhalted
        cases hhalted
      · omega
  | settle before after i b hin hanswer =>
    rw [hin] at hperm hmost
    simp only [length_append, length_cons] at hmost
    refine ⟨h.bounded, ⟨_, hplays.settled hanswer, ?_⟩, fun hfew => ?_, ?_⟩
    · simp only [map_append, map_cons, map_nil, Event.task, append_assoc,
        singleton_append]
      refine List.Perm.trans ?_ hperm
      exact List.Perm.append_left _ perm_middle.symm
    · simp only [length_append] at hfew
      rcases h.left (by rw [hin]; simp only [length_append, length_cons]; omega) with
        hhalted | hend
      · exact .inl (r.halted_settle _ _ _ hhalted)
      · exact .inr hend
    · simp only [length_append]
      omega
  | leave hidle hdone =>
    refine ⟨h.bounded, ⟨events, hplays, hperm⟩, fun _ => ?_, ?_⟩
    · rcases hdone with hhalted | hend
      · exact .inl hhalted
      · exact .inr (Nat.le_antisymm h.bounded hend)
    · simp only
      omega

theorem inv_begin (r : Rules β σ) (workers : ℕ) (acc : σ) :
    Inv r workers acc (Pool.begin workers acc) where
  bounded := Nat.zero_le _
  played := ⟨[], .none, List.Perm.refl _⟩
  left := fun hfew => absurd hfew (by simp [Pool.begin])
  most := by simp [Pool.begin]

/-- The turns left: three for each task not taken, two for each in flight and one for
each worker without one. -/
def turnsLeft (r : Rules β σ) (s : Pool σ) : ℕ :=
  3 * (r.size - s.next) + 2 * s.inFlight.length + s.idle

theorem turnsLeft_lt {s' : Pool σ} (hstep : Step r s s') : turnsLeft r s' < turnsLeft r s := by
  unfold turnsLeft
  cases hstep with
  | start hidle hopen hnext hpass =>
    simp only [length_append, length_singleton]
    omega
  | pass hidle hopen hnext hpass =>
    simp only
    omega
  | settle before after i b hin hanswer =>
    simp only [hin, length_append, length_cons]
    omega
  | leave hidle hdone =>
    simp only
    omega

/-- A worker that has not left can go on, where every task is answered. -/
theorem exists_step (htotal : ∀ i, ∃ b, r.answers i b) (h : ¬ s.Ended) :
    ∃ s', Step r s s' := by
  cases hin : s.inFlight with
  | cons i after =>
    obtain ⟨b, hanswer⟩ := htotal i
    exact ⟨_, .settle s [] after i b hin hanswer⟩
  | nil =>
    have hidle : 0 < s.idle := Nat.pos_of_ne_zero fun hzero => h ⟨hzero, hin⟩
    by_cases hdone : r.halted s.acc = true ∨ r.size ≤ s.next
    · exact ⟨_, .leave s hidle hdone⟩
    · simp only [not_or, Bool.not_eq_true, not_le] at hdone
      cases hpass : r.passes s.acc s.next with
      | true => exact ⟨_, .pass s hidle hdone.1 hdone.2 hpass⟩
      | false => exact ⟨_, .start s hidle hdone.1 hdone.2 hpass⟩

/-- A pool as a system whose every run ends. -/
def turns (r : Rules β σ) (htotal : ∀ i, ∃ b, r.answers i b) (workers : ℕ) (acc : σ) :
    Transitions (Step r) (Pool.Ended (σ := σ)) where
  Inv := Inv r workers acc
  rank := turnsLeft r
  keeps _ _ h hstep := h.step hstep
  descends _ _ _ hstep := turnsLeft_lt hstep
  progress _ _ hended := exists_step htotal hended

theorem inv_of_run (h : Relation.ReflTransGen (Step r) (Pool.begin workers acc) s) :
    Inv r workers acc s := by
  induction h with
  | refl => exact inv_begin r workers acc
  | tail _ hstep ih => exact ih.step hstep

theorem ended (hworkers : 0 < workers)
    (h : Relation.ReflTransGen (Step r) (Pool.begin workers acc) s) (hended : s.Ended) :
    ∃ events : List (Event β), Plays r acc events s.acc ∧
      (events.map Event.task).Perm (List.range s.next) ∧ s.next ≤ r.size ∧
      (r.halted s.acc = true ∨ s.next = r.size) := by
  have hinv := inv_of_run h
  obtain ⟨events, hplays, hperm⟩ := hinv.played
  rw [hended.2, append_nil] at hperm
  refine ⟨events, hplays, hperm, hinv.bounded, hinv.left ?_⟩
  rw [hended.1, hended.2]
  exact hworkers

theorem Plays.keeps {P : σ → Prop} {acc' : σ} {events : List (Event β)}
    (h : Plays r acc events acc') (hstart : P acc)
    (hpass : ∀ acc i, P acc → r.passes acc i = true → P (r.pass acc i))
    (hsettle : ∀ acc i b, P acc → r.answers i b → P (r.settle acc i b)) : P acc' := by
  induction h with
  | none => exact hstart
  | passed _ hp ih => exact hpass _ _ ih hp
  | settled _ ha ih => exact hsettle _ _ _ ih ha

end SlashWho.WorkerPool
