import Mathlib.Algebra.Order.Group.Defs
import Mathlib.Data.List.TakeWhile

/-!
Events spaced by a sliding window. A span is any set of instants that lie less
than a width of each other, so a window of that width is one wherever it falls
and whichever of its ends is open. Events leave the front of the window when
they are a width old. An event that finds fewer than the bound in the window
leaves no span with more than the bound.
-/

namespace SlashWho.SlidingWindows

variable {α : Type*} [AddCommGroup α] [LinearOrder α]

variable (width : α)

/-- Instants less than a width apart. -/
def Span (span : α → Bool) : Prop :=
  ∀ x y, span x = true → span y = true → y < x + width

/-- No span holds more than so many of the events. -/
def AtMost (most : ℕ) (events : List α) : Prop :=
  ∀ span, Span width span → events.countP span ≤ most

/-- What is left of the window at an instant, its front expired. -/
def expire (now : α) (events : List α) : List α :=
  events.dropWhile (fun event => decide (event + width ≤ now))

/-- The window that opens at an instant and is over a width later. -/
def opening (start event : α) : Bool := decide (start ≤ event ∧ event < start + width)

/-- The window over the instants after a start, to a width after it. -/
def closing (start event : α) : Bool := decide (start < event ∧ event ≤ start + width)

theorem atMost_nil (most : ℕ) : AtMost width most [] := by
  intro span _
  exact Nat.zero_le most

theorem exists_expired (now : α) (events : List α) :
    ∃ gone, events = gone ++ expire width now events ∧ ∀ event ∈ gone, event + width ≤ now := by
  refine ⟨events.takeWhile (fun event => decide (event + width ≤ now)), ?_, ?_⟩
  · exact List.takeWhile_append_dropWhile.symm
  · intro event hevent
    have hold := List.mem_takeWhile_imp hevent
    exact of_decide_eq_true hold

theorem lt_of_expire_eq_cons {width now oldest : α} {events rest : List α}
    (h : expire width now events = oldest :: rest) : now < oldest + width := by
  have hfront := List.head?_dropWhile_not (fun event => decide (event + width ≤ now)) events
  unfold expire at h
  rw [h] at hfront
  exact not_le.mp (of_decide_eq_false hfront)

theorem AtMost.push {width now : α} {most : ℕ} {gone recent : List α}
    (h : AtMost width most (gone ++ recent)) (hgone : ∀ event ∈ gone, event + width ≤ now)
    (hroom : recent.length < most) : AtMost width most (gone ++ recent ++ [now]) := by
  intro span hspan
  rw [List.countP_append]
  by_cases hnow : span now = true
  · have hout : gone.countP span = 0 := by
      apply List.countP_eq_zero.mpr
      intro event hevent hin
      exact absurd (hgone event hevent) (not_le.mpr (hspan event now hin hnow))
    have hrecent : recent.countP span ≤ recent.length := List.countP_le_length
    rw [List.countP_append, hout, List.countP_singleton, if_pos hnow]
    omega
  · have hbefore := h span hspan
    rw [List.countP_singleton, if_neg hnow]
    exact hbefore

variable [IsOrderedAddMonoid α]

theorem span_opening (width start : α) : Span width (opening width start) := by
  intro x y hx hy
  have hleft : start + width ≤ x + width := by
    have h := (of_decide_eq_true hx).1
    gcongr
  exact lt_of_lt_of_le (of_decide_eq_true hy).2 hleft

theorem span_closing (width start : α) : Span width (closing width start) := by
  intro x y hx hy
  have hleft : start + width < x + width := by
    have h := (of_decide_eq_true hx).1
    gcongr
  exact lt_of_le_of_lt (of_decide_eq_true hy).2 hleft

end SlashWho.SlidingWindows
