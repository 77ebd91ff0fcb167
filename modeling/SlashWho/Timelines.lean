import Mathlib.MeasureTheory.Integral.IntervalIntegral.Basic

/-!
Histories along time. A list holds what has happened, each item with the
instant it happened at, in order. What is read of the items up to an instant
stays the same between two of them, so its integral grows by one rectangle with
every item.
-/

namespace SlashWho.Timelines

open MeasureTheory Set

variable {ε : Type*} (instant : ε → ℚ)

/-- What has happened by an instant. -/
noncomputable def upTo (history : List ε) (x : ℝ) : List ε :=
  history.filter (fun item => decide ((instant item : ℝ) ≤ x))

variable {instant} {history : List ε} {item : ε} {x : ℝ}

theorem upTo_all (h : ∀ earlier ∈ history, (instant earlier : ℝ) ≤ x) :
    upTo instant history x = history :=
  List.filter_eq_self.mpr fun earlier hearlier => decide_eq_true (h earlier hearlier)

theorem upTo_before (h : x < instant item) :
    upTo instant (history ++ [item]) x = upTo instant history x := by
  unfold upTo
  rw [List.filter_append, List.filter_cons_of_neg (by simpa using h), List.filter_nil,
    List.append_nil]

variable (instant) (value : List ε → ℝ)

/-- What a value read of the history comes to between two instants. -/
structure Area (history : List ε) (first last : ℚ) (total : ℝ) : Prop where
  integrable : IntervalIntegrable (fun x => value (upTo instant history x)) volume first last
  integral : ∫ x in (first : ℝ)..last, value (upTo instant history x) = total

variable {instant value}

theorem area_refl (history : List ε) (first : ℚ) : Area instant value history first first 0 :=
  ⟨IntervalIntegrable.refl, intervalIntegral.integral_same⟩

theorem Area.next {first last : ℚ} {total : ℝ} (h : Area instant value history first last total)
    (hfirst : first ≤ last) (hpast : ∀ earlier ∈ history, instant earlier ≤ last)
    (hnext : last ≤ instant item) :
    Area instant value (history ++ [item]) first (instant item)
      (total + (instant item - last) * value history) := by
  have hfirst' : (first : ℝ) ≤ last := by exact_mod_cast hfirst
  have hnext' : (last : ℝ) ≤ instant item := by exact_mod_cast hnext
  have hbefore : EqOn (fun x => value (upTo instant history x))
      (fun x => value (upTo instant (history ++ [item]) x)) (Ioo first last) := by
    intro x hx
    dsimp only
    rw [upTo_before (hx.2.trans_le hnext')]
  have hafter : EqOn (fun _ => value history)
      (fun x => value (upTo instant (history ++ [item]) x)) (Ioo last (instant item)) := by
    intro x hx
    dsimp only
    rw [upTo_before hx.2, upTo_all]
    intro earlier hearlier
    have hearlier' : (instant earlier : ℝ) ≤ last := by exact_mod_cast hpast earlier hearlier
    exact hearlier'.trans hx.1.le
  have hleft : IntervalIntegrable (fun x => value (upTo instant (history ++ [item]) x)) volume
      first last := by
    refine h.integrable.congr_uIoo ?_
    rw [uIoo_of_le hfirst']
    exact hbefore
  have hright : IntervalIntegrable (fun x => value (upTo instant (history ++ [item]) x)) volume
      last (instant item) := by
    refine (intervalIntegrable_const (c := value history)).congr_uIoo ?_
    rw [uIoo_of_le hnext']
    exact hafter
  refine ⟨hleft.trans hright, ?_⟩
  rw [← intervalIntegral.integral_add_adjacent_intervals hleft hright,
    ← intervalIntegral.integral_congr_Ioo_of_le hfirst' hbefore,
    ← intervalIntegral.integral_congr_Ioo_of_le hnext' hafter, h.integral,
    intervalIntegral.integral_const, smul_eq_mul]

theorem sum_area_le {ι : Type*} {values : ι → List ε → ℝ} {totals : ι → ℝ} {first last : ℚ}
    (items : Finset ι) (hle : first ≤ last) (hone : ∀ past, ∑ i ∈ items, values i past ≤ 1)
    (h : ∀ i, Area instant (values i) history first last (totals i)) :
    ∑ i ∈ items, totals i ≤ last - first := by
  have hle' : (first : ℝ) ≤ last := by exact_mod_cast hle
  calc ∑ i ∈ items, totals i
      = ∑ i ∈ items, ∫ x in (first : ℝ)..last, values i (upTo instant history x) :=
        Finset.sum_congr rfl fun i _ => (h i).integral.symm
    _ = ∫ x in (first : ℝ)..last, ∑ i ∈ items, values i (upTo instant history x) :=
        (intervalIntegral.integral_finsetSum fun i _ => (h i).integrable).symm
    _ ≤ ∫ _ in (first : ℝ)..last, (1 : ℝ) := by
        refine intervalIntegral.integral_mono_on hle' ?_ intervalIntegrable_const
          (fun x _ => hone _)
        have hsum := IntervalIntegrable.sum items fun i _ => (h i).integrable
        simpa only [Finset.sum_fn] using hsum
    _ = last - first := by
        rw [intervalIntegral.integral_const, smul_eq_mul, mul_one]

end SlashWho.Timelines
