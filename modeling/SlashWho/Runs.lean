import Mathlib.Algebra.GroupWithZero.Nat
import Mathlib.Data.List.Induction

/-!
Systems that a list of actions drives. A run's steps are the actions, each with
the state it is taken in; what every step keeps holds at the end, and what a
step keeps where it meets a condition holds along every run whose steps meet it.
A loop over items may have a relation for its body, where a turn need not end.
-/

namespace SlashWho.Runs

open List

variable {σ α : Type*} (step : σ → α → σ)

variable (s : σ)

def after (actions : List α) : σ := actions.foldl step s

/-- Each action of a run with the state it is taken in. -/
def steps (s : σ) : List α → List (σ × α)
  | [] => []
  | a :: rest => (s, a) :: steps (step s a) rest

@[simp] theorem after_nil : after step s [] = s := rfl

@[simp] theorem after_cons (a : α) (rest : List α) :
    after step s (a :: rest) = after step (step s a) rest := rfl

theorem after_append (before rest : List α) :
    after step s (before ++ rest) = after step (after step s before) rest :=
  foldl_append

@[simp] theorem steps_nil : steps step s [] = [] := rfl

@[simp] theorem steps_cons (a : α) (rest : List α) :
    steps step s (a :: rest) = (s, a) :: steps step (step s a) rest := rfl

variable {actions : List α} {p : σ × α}

/-- A step of a run is taken after the actions before it. -/
theorem mem_steps_iff {s : σ} :
    p ∈ steps step s actions ↔
      ∃ before rest, actions = before ++ p.2 :: rest ∧ p.1 = after step s before := by
  induction actions generalizing s with
  | nil => simp
  | cons a tail ih =>
    rw [steps_cons, mem_cons, ih]
    constructor
    · intro h
      rcases h with h | ⟨before, rest, htail, hstate⟩
      · exact ⟨[], tail, by rw [h]; rfl, by rw [h]; rfl⟩
      · exact ⟨a :: before, rest, by rw [htail]; rfl, hstate⟩
    · intro h
      obtain ⟨before, rest, hactions, hstate⟩ := h
      cases before with
      | nil =>
        left
        rw [nil_append] at hactions
        exact Prod.ext hstate (List.cons.inj hactions).1.symm
      | cons first before =>
        right
        rw [cons_append] at hactions
        obtain ⟨hfirst, htail⟩ := List.cons.inj hactions
        subst hfirst
        exact ⟨before, rest, htail, hstate⟩

theorem steps_append (before rest : List α) :
    steps step s (before ++ rest) = steps step s before ++ steps step (after step s before) rest := by
  induction before generalizing s with
  | nil => rfl
  | cons a tail ih =>
    rw [cons_append, steps_cons, steps_cons, ih, after_cons, cons_append]

theorem prefix_of_mem_steps {s : σ} (h : p ∈ steps step s actions) :
    ∃ before, before ++ [p.2] <+: actions ∧ p.1 = after step s before := by
  obtain ⟨before, rest, hactions, hstate⟩ := (mem_steps_iff step).mp h
  refine ⟨before, ⟨rest, ?_⟩, hstate⟩
  rw [hactions, append_assoc]
  rfl

theorem mem_steps_of_begins {s : σ} {before : List α} (h : before <+: actions)
    (hp : p ∈ steps step s before) : p ∈ steps step s actions := by
  obtain ⟨first, rest, hbefore, hstate⟩ := (mem_steps_iff step).mp hp
  obtain ⟨tail, htail⟩ := h
  refine (mem_steps_iff step).mpr ⟨first, rest ++ tail, ?_, hstate⟩
  rw [← htail, hbefore, append_assoc, cons_append]

variable {step} (Inv : σ → Prop)

theorem keeps (hstep : ∀ s a, Inv s → Inv (step s a)) {s : σ} (h : Inv s)
    (actions : List α) : Inv (after step s actions) := by
  induction actions generalizing s with
  | nil => exact h
  | cons a rest ih => exact ih (hstep s a h)

variable (Meets : σ → α → Prop)

theorem keeps_along (hstep : ∀ s a, Inv s → Meets s a → Inv (step s a)) {s : σ} (h : Inv s)
    (hmeets : ∀ p ∈ steps step s actions, Meets p.1 p.2) :
    Inv (after step s actions) := by
  induction actions generalizing s with
  | nil => exact h
  | cons a rest ih =>
    rw [steps_cons] at hmeets
    have hnext := hstep s a h (hmeets _ mem_cons_self)
    exact ih hnext (fun p hp => hmeets p (mem_cons_of_mem _ hp))

/-- Such a run keeps it in every state it passes through. -/
theorem keeps_prefixes (hstep : ∀ s a, Inv s → Meets s a → Inv (step s a)) {s : σ} (h : Inv s)
    (hmeets : ∀ p ∈ steps step s actions, Meets p.1 p.2) {before : List α}
    (hbefore : before <+: actions) : Inv (after step s before) :=
  keeps_along Inv Meets hstep h (fun p hp => hmeets p (mem_steps_of_begins step hbefore hp))

/-- An invariant every step keeps holds in every state of a run. -/
theorem keeps_steps (hstep : ∀ s a, Inv s → Inv (step s a)) {s : σ} (h : Inv s) {p : σ × α}
    (hp : p ∈ steps step s actions) : Inv p.1 := by
  obtain ⟨before, rest, -, hstate⟩ := (mem_steps_iff step).mp hp
  rw [hstate]
  exact keeps Inv hstep h before

theorem keeps_history (Past : List α → σ → Prop) {s : σ} (h : Past [] s)
    (hstep : ∀ before a, Past before (after step s before) →
      Past (before ++ [a]) (step (after step s before) a))
    (actions : List α) : Past actions (after step s actions) := by
  induction actions using List.reverseRecOn with
  | nil => exact h
  | append_singleton before a ih =>
    rw [after_append]
    exact hstep before a ih

theorem sum_balance (weight : σ → ℕ) (gain loss : σ × α → ℕ)
    (hkeeps : ∀ s a, Inv s → Inv (step s a))
    (hstep : ∀ s a, Inv s → weight (step s a) + loss (s, a) = weight s + gain (s, a))
    {s : σ} (h : Inv s) (actions : List α) :
    weight (after step s actions) + ((steps step s actions).map loss).sum =
      weight s + ((steps step s actions).map gain).sum := by
  induction actions generalizing s with
  | nil => simp
  | cons a rest ih =>
    rw [after_cons, steps_cons, map_cons, map_cons, sum_cons, sum_cons]
    have hone := hstep s a h
    have hrest := ih (hkeeps s a h)
    omega

variable {ι τ : Type*} {body : σ → ι → List τ → σ → Prop}

/-- A loop over items, each turn by a relation, with all that its turns write. -/
inductive Executes (body : σ → ι → List τ → σ → Prop) : σ → List ι → List τ → σ → Prop
  | done (s : σ) : Executes body s [] [] s
  | turn {s s' s'' : σ} {item : ι} {rest : List ι} {written written' : List τ}
      (hturn : body s item written s') (hrest : Executes body s' rest written' s'') :
      Executes body s (item :: rest) (written ++ written') s''

/-- A loop ends as the fold of a function does, where each of its turns does. -/
theorem executes_foldl (body : σ → ι → List τ → σ → Prop) (f : σ → ι → σ) (Inv : σ → Prop)
    (Fine : τ → Prop) (items : List ι)
    (hturn : ∀ s, Inv s → ∀ item ∈ items, ∃ written, body s item written (f s item) ∧
      (∀ t ∈ written, Fine t) ∧ Inv (f s item)) {s : σ} (h : Inv s) :
    ∃ written, Executes body s items written (items.foldl f s) ∧ (∀ t ∈ written, Fine t) := by
  induction items generalizing s with
  | nil => exact ⟨[], .done s, fun t ht => absurd ht not_mem_nil⟩
  | cons item rest ih =>
    obtain ⟨written, hone, hfine, hinv⟩ := hturn s h item mem_cons_self
    obtain ⟨written', hall, hfine'⟩ :=
      ih (fun s hs item hitem => hturn s hs item (mem_cons_of_mem _ hitem)) hinv
    refine ⟨written ++ written', .turn hone hall, ?_⟩
    intro t ht
    rcases mem_append.mp ht with hin | hin
    · exact hfine t hin
    · exact hfine' t hin

theorem Executes.unique
    (hturn : ∀ s item written s' written' s'', body s item written s' →
      body s item written' s'' → written = written' ∧ s' = s'')
    {s s' s'' : σ} {items : List ι} {written written' : List τ}
    (h : Executes body s items written s') (h' : Executes body s items written' s'') :
    written = written' ∧ s' = s'' := by
  induction h generalizing written' s'' with
  | done s =>
    cases h'
    exact ⟨rfl, rfl⟩
  | turn hone _ ih =>
    cases h' with
    | turn hone' hrest' =>
      obtain ⟨hwritten, hstate⟩ := hturn _ _ _ _ _ _ hone hone'
      subst hwritten hstate
      obtain ⟨hwritten, hstate⟩ := ih hrest'
      exact ⟨by rw [hwritten], hstate⟩

end SlashWho.Runs
