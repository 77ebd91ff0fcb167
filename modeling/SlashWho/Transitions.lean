import Mathlib.Logic.Relation
import Mathlib.Tactic.Common

/-!
Systems that take one step after another. An invariant that each step keeps
holds after any number of steps; with a rank that each step lowers, and a step
left wherever the system is not final, every run ends and ends final.
-/

namespace SlashWho

/-- A step relation that keeps an invariant, lowers a rank, and stops only where final. -/
structure Transitions {σ : Type} (Step : σ → σ → Prop) (Final : σ → Prop) where
  Inv : σ → Prop
  rank : σ → ℕ
  keeps : ∀ s s', Inv s → Step s s' → Inv s'
  descends : ∀ s s', Inv s → Step s s' → rank s' < rank s
  progress : ∀ s, Inv s → ¬ Final s → ∃ s', Step s s'

namespace Transitions
variable {σ : Type} {Step : σ → σ → Prop} {Final : σ → Prop} (t : Transitions Step Final)

theorem runs_keep {s s' : σ} (h : t.Inv s) (hruns : Relation.ReflTransGen Step s s') :
    t.Inv s' := by
  induction hruns with
  | refl => exact h
  | tail _ hstep ih => exact t.keeps _ _ ih hstep

theorem exists_final {s : σ} (h : t.Inv s) :
    ∃ s', Relation.ReflTransGen Step s s' ∧ Final s' := by
  induction hrank : t.rank s using Nat.strongRecOn generalizing s with
  | _ n ih =>
    by_cases hfinal : Final s
    · exact ⟨s, .refl, hfinal⟩
    · obtain ⟨s', hstep⟩ := t.progress s h hfinal
      have hlt := t.descends s s' h hstep
      obtain ⟨s'', hruns, hend⟩ := ih (t.rank s') (hrank ▸ hlt) (t.keeps s s' h hstep) rfl
      exact ⟨s'', hruns.head hstep, hend⟩

theorem final_of_stuck {s s' : σ} (h : t.Inv s) (hruns : Relation.ReflTransGen Step s s')
    (hstuck : ∀ s'', ¬ Step s' s'') : Final s' := by
  by_contra hfinal
  obtain ⟨s'', hstep⟩ := t.progress s' (t.runs_keep h hruns) hfinal
  exact hstuck s'' hstep

theorem not_forever {run : ℕ → σ} (h : t.Inv (run 0)) :
    ¬ ∀ n, Step (run n) (run (n + 1)) := by
  intro hrun
  have hkept : ∀ n, t.Inv (run n) ∧ t.rank (run n) + n ≤ t.rank (run 0) := by
    intro n
    induction n with
    | zero => exact ⟨h, Nat.le_refl _⟩
    | succ n ih =>
      have hlt := t.descends _ _ ih.1 (hrun n)
      exact ⟨t.keeps _ _ ih.1 (hrun n), by omega⟩
  have hbound := (hkept (t.rank (run 0) + 1)).2
  omega

end Transitions

end SlashWho
