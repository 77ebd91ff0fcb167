import Mathlib.Data.Nat.Notation
import Mathlib.Logic.Function.Basic

/-!
Rows that transactions change under row locks. A transaction sees the committed
version of a row, or its own where it holds the row's lock; what it writes becomes the
committed version when it commits, and is dropped when it rolls back. Until then no
other transaction writes the row.
-/

namespace SlashWho.RowLocks

variable {κ ν : Type}

/-- The committed version of each row, and the version of the transaction that holds its lock. -/
structure Rows (κ ν : Type) where
  committed : κ → ν
  held : κ → Option (ℕ × ν)

namespace Rows
variable (rows : Rows κ ν) (t : ℕ)

/-- The row as a statement of the transaction finds it. -/
def view (k : κ) : ν :=
  match rows.held k with
  | none => rows.committed k
  | some (holder, v) => if holder = t then v else rows.committed k

/-- No other transaction holds the row's lock. -/
def Free (k : κ) : Prop := ∀ holder v, rows.held k = some (holder, v) → holder = t

def write [DecidableEq κ] (k : κ) (v : ν) : Rows κ ν :=
  { rows with held := Function.update rows.held k (some (t, v)) }

def released (k : κ) : Option (ℕ × ν) :=
  match rows.held k with
  | none => none
  | some (holder, v) => if holder = t then none else some (holder, v)

def rollback : Rows κ ν := { rows with held := rows.released t }

def commit : Rows κ ν := ⟨rows.view t, rows.released t⟩

theorem view_of_held {k : κ} {v : ν} (h : rows.held k = some (t, v)) : rows.view t k = v := by
  unfold view
  rw [h]
  exact if_pos rfl

theorem view_of_not_held {k : κ} (h : ∀ v, rows.held k ≠ some (t, v)) :
    rows.view t k = rows.committed k := by
  unfold view
  cases hheld : rows.held k with
  | none => rfl
  | some pair =>
    obtain ⟨holder, v⟩ := pair
    have hne : holder ≠ t := fun heq => h v (by rw [hheld, heq])
    exact if_neg hne

theorem released_eq_some {k : κ} {holder : ℕ} {v : ν} :
    rows.released t k = some (holder, v) ↔ rows.held k = some (holder, v) ∧ holder ≠ t := by
  unfold released
  cases rows.held k with
  | none => simp
  | some pair =>
    obtain ⟨other, w⟩ := pair
    by_cases heq : other = t
    · simp only [heq, if_true, reduceCtorEq, Option.some.injEq, Prod.mk.injEq, false_iff, not_and,
        not_not]
      intro hpair
      exact hpair.1.symm
    · simp only [if_neg heq, Option.some.injEq, Prod.mk.injEq, iff_self_and]
      intro hpair
      rw [← hpair.1]
      exact heq

end Rows

end SlashWho.RowLocks
