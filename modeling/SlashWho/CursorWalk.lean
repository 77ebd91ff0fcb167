import Mathlib.Data.List.Nodup
import Mathlib.Data.List.Flatten

/-!
A walk over items in the order of their keys, taken in legs. Each leg starts
strictly after the key its cursor names, and goes up to some item, or nowhere,
or to the end. However the walk is cut into legs, they visit together what one
leg over all the items visits, and no two of them visit the same item.
-/

namespace SlashWho

open List

/-- Items in strictly ascending order of their keys, and what a visit to each yields. -/
structure CursorWalk (α κ β : Type) where
  items : List α
  key : α → κ
  cmp : κ → κ → Ordering
  visit : α → List β
  sorted : items.Pairwise (fun a b => cmp (key b) (key a) = .gt)

namespace CursorWalk
variable {α κ β : Type} (w : CursorWalk α κ β)

def ahead : Option κ → List α
  | none => w.items
  | some cursor => w.items.filter (fun a => w.cmp (w.key a) cursor = .gt)

/-- A leg that does not reach the end: what it yields, and the cursor it returns if it moved. -/
inductive Leg (cursor : Option κ) : List β → Option κ → Prop
  | stuck : Leg cursor [] none
  | upTo {before rest : List α} {a : α} (h : w.ahead cursor = before ++ a :: rest) :
      Leg cursor ((before ++ [a]).flatMap w.visit) (some (w.key a))

/-- Legs one after the other, the last one to the end; one that does not move
leaves the cursor. -/
inductive Legs : Option κ → List (List β) → Prop
  | last (cursor : Option κ) : Legs cursor [(w.ahead cursor).flatMap w.visit]
  | leg {cursor next : Option κ} {yielded : List β} {legs : List (List β)}
      (h : w.Leg cursor yielded next) (hrest : Legs (next.or cursor) legs) :
      Legs cursor (yielded :: legs)

variable {w}

theorem ahead_sublist (cursor : Option κ) : (w.ahead cursor).Sublist w.items := by
  cases cursor with
  | none => exact List.Sublist.refl _
  | some cursor => exact filter_sublist

theorem Leg.advances {cursor next : κ} {yielded : List β}
    (h : w.Leg (some cursor) yielded (some next)) : w.cmp next cursor = .gt := by
  obtain - | ⟨hahead⟩ := h
  next before rest a =>
    have hmem : a ∈ w.ahead (some cursor) := by
      rw [hahead]
      exact mem_append_right _ mem_cons_self
    simpa using (mem_filter.mp hmem).2

variable [Std.TransCmp w.cmp]

theorem ahead_key {cursor : Option κ} {before rest : List α} {a : α}
    (h : w.ahead cursor = before ++ a :: rest) : w.ahead (some (w.key a)) = rest := by
  have hmem : a ∈ w.ahead cursor := by
    rw [h]
    exact mem_append_right _ mem_cons_self
  -- what is after `a` is after the cursor, which `a` is after itself
  have hfilter : w.ahead (some (w.key a)) =
      (w.ahead cursor).filter (fun b => w.cmp (w.key b) (w.key a) = .gt) := by
    cases cursor with
    | none => rfl
    | some cursor =>
      have hafter : w.cmp (w.key a) cursor = .gt := by simpa using (mem_filter.mp hmem).2
      unfold ahead
      rw [filter_filter]
      apply filter_congr
      intro b _
      by_cases hb : w.cmp (w.key b) (w.key a) = .gt
      · have htrans : w.cmp (w.key b) cursor = .gt := Std.TransCmp.gt_trans hb hafter
        simp [hb, htrans]
      · simp [hb]
  have hsorted := w.sorted.sublist (ahead_sublist cursor)
  rw [h, pairwise_append, pairwise_cons] at hsorted
  obtain ⟨-, ⟨hrest, -⟩, hbefore⟩ := hsorted
  rw [hfilter, h, filter_append, filter_cons]
  have hnone : before.filter (fun b => w.cmp (w.key b) (w.key a) = .gt) = [] := by
    rw [filter_eq_nil_iff]
    intro b hb
    have hgt := hbefore b hb a mem_cons_self
    have hlt := Std.OrientedCmp.lt_of_gt hgt
    simp [hlt]
  have hall : rest.filter (fun b => w.cmp (w.key b) (w.key a) = .gt) = rest := by
    rw [filter_eq_self]
    intro b hb
    simp [hrest b hb]
  rw [hnone, hall, if_neg (by simp [Std.ReflCmp.compare_self]), nil_append]

theorem Legs.flatten {cursor : Option κ} {legs : List (List β)} (h : w.Legs cursor legs) :
    legs.flatten = (w.ahead cursor).flatMap w.visit := by
  induction h with
  | last cursor => simp
  | @leg cursor next yielded legs hleg _ ih =>
    rw [flatten_cons, ih]
    obtain - | ⟨hahead⟩ := hleg
    · rfl
    · next before rest a =>
      rw [Option.some_or, ahead_key hahead, hahead, ← flatMap_append]
      simp

end CursorWalk

end SlashWho
