import Mathlib.Data.List.Pairwise
import Mathlib.Data.Real.Basic
import Mathlib.Order.CompletePartialOrder
import Mathlib.Tactic.Linarith
import SlashWho.HistoryRecovery

/-!
The nights a guild's reports are listed for. Windows are met in the order of
their starts, so a window either reaches into the last one merged, which it
then lengthens, or lies wholly after everything merged so far. The merged
windows are kept with what the windows met say of them.
-/

namespace SlashWho.HistoryRecovery

open List EvidenceMerge

/-- The start times a report of a kill at this instant can have. -/
def targetWindow (at_ : ℤ) : NightWindow :=
  (at_ - attendanceReportLeadMs, at_ + reportCoverSlackMs)

/-- `nightWindows`, which reads nothing of a target but its time. -/
def nightsOf (times : List ℤ) : List NightWindow :=
  mergeWindows ((times.map targetWindow).insertionSort (fun a b => a.1 ≤ b.1))

theorem nightWindows_eq (targets : List (VerifiedKill × Instant)) :
    nightWindows targets = nightsOf (targets.map (fun target => (target.2 : ℤ))) := by
  unfold nightWindows nightsOf
  rw [map_map]
  rfl

/-- The instants of a window, its edges among them. -/
def NightWindow.span (window : NightWindow) : Set ℝ :=
  Set.Icc (window.1 : ℝ) window.2

/-- What the windows merged so far are to the windows met and to those ahead. -/
structure Merged (met ahead merged : List NightWindow) : Prop where
  holds : ∀ window ∈ met, ∃ night ∈ merged, night.1 ≤ window.1 ∧ window.2 ≤ night.2
  starts : ∀ night ∈ merged, ∀ window ∈ ahead, night.1 ≤ window.1
  covered : ∀ night ∈ merged, ∀ x ∈ NightWindow.span night, ∃ window ∈ met,
    x ∈ NightWindow.span window
  opened : ∀ night ∈ merged, ∃ window ∈ met, night.1 = window.1 ∧ window.2 ≤ night.2
  closed : ∀ night ∈ merged, ∃ window ∈ met, night.2 = window.2
  ordered : merged.Pairwise (fun a b => a.2 < b.1)

variable {met ahead merged before : List NightWindow} {last window : NightWindow}

theorem Merged.after (h : Merged met (window :: ahead) merged)
    (hsorted : ∀ later ∈ ahead, window.1 ≤ later.1) (hpast : ∀ night ∈ merged, night.2 < window.1) :
    Merged (met ++ [window]) ahead (merged ++ [window]) := by
  have hnew : window ∈ met ++ [window] := mem_append_right _ (mem_singleton_self _)
  refine ⟨?_, ?_, ?_, ?_, ?_, ?_⟩
  · intro other hother
    rcases mem_append.mp hother with hmet | hother
    · obtain ⟨night, hnight, hwithin⟩ := h.holds other hmet
      exact ⟨night, mem_append_left _ hnight, hwithin⟩
    · obtain rfl := mem_singleton.mp hother
      exact ⟨other, mem_append_right _ (mem_singleton_self _), le_refl _, le_refl _⟩
  · intro night hnight later hlater
    rcases mem_append.mp hnight with hbefore | hnight
    · exact h.starts night hbefore later (mem_cons_of_mem _ hlater)
    · obtain rfl := mem_singleton.mp hnight
      exact hsorted later hlater
  · intro night hnight x hx
    rcases mem_append.mp hnight with hbefore | hnight
    · obtain ⟨other, hmet, hin⟩ := h.covered night hbefore x hx
      exact ⟨other, mem_append_left _ hmet, hin⟩
    · obtain rfl := mem_singleton.mp hnight
      exact ⟨night, hnew, hx⟩
  · intro night hnight
    rcases mem_append.mp hnight with hbefore | hnight
    · obtain ⟨other, hmet, hin⟩ := h.opened night hbefore
      exact ⟨other, mem_append_left _ hmet, hin⟩
    · obtain rfl := mem_singleton.mp hnight
      exact ⟨night, hnew, rfl, le_refl _⟩
  · intro night hnight
    rcases mem_append.mp hnight with hbefore | hnight
    · obtain ⟨other, hmet, hin⟩ := h.closed night hbefore
      exact ⟨other, mem_append_left _ hmet, hin⟩
    · obtain rfl := mem_singleton.mp hnight
      exact ⟨night, hnew, rfl⟩
  · refine pairwise_append.mpr ⟨h.ordered, pairwise_singleton _ _, ?_⟩
    intro night hnight other hother
    obtain rfl := mem_singleton.mp hother
    exact hpast night hnight

theorem Merged.into (h : Merged met (window :: ahead) (before ++ [last]))
    (hreach : window.1 ≤ last.2) :
    Merged (met ++ [window]) ahead (before ++ [(last.1, max last.2 window.2)]) := by
  have hin : last ∈ before ++ [last] := mem_append_right _ (mem_singleton_self _)
  have hnew : window ∈ met ++ [window] := mem_append_right _ (mem_singleton_self _)
  obtain ⟨hbefore, -, hends⟩ := pairwise_append.mp h.ordered
  refine ⟨?_, ?_, ?_, ?_, ?_, ?_⟩
  · intro other hother
    rcases mem_append.mp hother with hmet | hother
    · obtain ⟨night, hnight, hstart, hfinish⟩ := h.holds other hmet
      rcases mem_append.mp hnight with hkept | hsame
      · exact ⟨night, mem_append_left _ hkept, hstart, hfinish⟩
      · obtain rfl := mem_singleton.mp hsame
        exact ⟨_, mem_append_right _ (mem_singleton_self _), hstart,
          hfinish.trans (le_max_left _ _)⟩
    · obtain rfl := mem_singleton.mp hother
      exact ⟨_, mem_append_right _ (mem_singleton_self _),
        h.starts last hin other mem_cons_self, le_max_right _ _⟩
  · intro night hnight later hlater
    rcases mem_append.mp hnight with hkept | hsame
    · exact h.starts night (mem_append_left _ hkept) later (mem_cons_of_mem _ hlater)
    · obtain rfl := mem_singleton.mp hsame
      exact h.starts last hin later (mem_cons_of_mem _ hlater)
  · intro night hnight x hx
    rcases mem_append.mp hnight with hkept | hsame
    · obtain ⟨other, hmet, hspan⟩ := h.covered night (mem_append_left _ hkept) x hx
      exact ⟨other, mem_append_left _ hmet, hspan⟩
    · obtain rfl := mem_singleton.mp hsame
      by_cases hlast : x ≤ last.2
      · obtain ⟨other, hmet, hspan⟩ := h.covered last hin x ⟨hx.1, hlast⟩
        exact ⟨other, mem_append_left _ hmet, hspan⟩
      · -- past the old end, the night reaches only as far as the new window
        have hstart : (window.1 : ℝ) ≤ last.2 := by exact_mod_cast hreach
        have hend : x ≤ max (last.2 : ℝ) window.2 := by
          have := hx.2
          push_cast at this
          exact this
        refine ⟨window, hnew, by linarith, ?_⟩
        rcases le_max_iff.mp hend with hle | hle
        · exact absurd hle hlast
        · exact hle
  · intro night hnight
    rcases mem_append.mp hnight with hkept | hsame
    · obtain ⟨other, hmet, hopen⟩ := h.opened night (mem_append_left _ hkept)
      exact ⟨other, mem_append_left _ hmet, hopen⟩
    · obtain rfl := mem_singleton.mp hsame
      obtain ⟨other, hmet, hstart, hend⟩ := h.opened last hin
      exact ⟨other, mem_append_left _ hmet, hstart, hend.trans (le_max_left _ _)⟩
  · intro night hnight
    rcases mem_append.mp hnight with hkept | hsame
    · obtain ⟨other, hmet, hclosed⟩ := h.closed night (mem_append_left _ hkept)
      exact ⟨other, mem_append_left _ hmet, hclosed⟩
    · obtain rfl := mem_singleton.mp hsame
      rcases max_choice last.2 window.2 with hmax | hmax
      · obtain ⟨other, hmet, hclosed⟩ := h.closed last hin
        exact ⟨other, mem_append_left _ hmet, hmax.trans hclosed⟩
      · exact ⟨window, hnew, hmax⟩
  · refine pairwise_append.mpr ⟨hbefore, pairwise_singleton _ _, ?_⟩
    intro night hnight other hother
    obtain rfl := mem_singleton.mp hother
    exact hends night hnight last (mem_singleton_self _)

theorem Merged.next (h : Merged met (window :: ahead) merged)
    (hsorted : ∀ later ∈ ahead, window.1 ≤ later.1) :
    Merged (met ++ [window]) ahead
      (match merged.getLast? with
      | none => [window]
      | some last =>
        if window.1 ≤ last.2 then merged.dropLast ++ [(last.1, max last.2 window.2)]
        else merged ++ [window]) := by
  cases hlast : merged.getLast? with
  | none =>
    obtain rfl := getLast?_eq_none_iff.mp hlast
    exact h.after hsorted (fun night hnight => absurd hnight not_mem_nil)
  | some last =>
    obtain ⟨before, rfl⟩ : ∃ before, merged = before ++ [last] :=
      ⟨_, (dropLast_append_getLast? last hlast).symm⟩
    rw [dropLast_concat]
    dsimp only
    split
    · next hreach => exact h.into hreach
    · next hpast =>
      refine h.after hsorted fun night hnight => ?_
      rcases mem_append.mp hnight with hbefore | hsame
      · -- the nights before the last one end before it starts
        have hends := (pairwise_append.mp h.ordered).2.2 night hbefore last
          (mem_singleton_self _)
        exact hends.trans_le (h.starts last (mem_append_right _ (mem_singleton_self _))
          window mem_cons_self)
      · obtain rfl := mem_singleton.mp hsame
        exact not_le.mp hpast

theorem merged_mergeWindows {windows : List NightWindow}
    (hsorted : windows.Pairwise (fun a b => a.1 ≤ b.1)) :
    Merged windows [] (mergeWindows windows) := by
  have hall : ∀ (ahead met merged : List NightWindow),
      ahead.Pairwise (fun a b => a.1 ≤ b.1) → Merged met ahead merged →
      Merged (met ++ ahead) [] (ahead.foldl (fun merged next =>
        match merged.getLast? with
        | none => [next]
        | some last =>
          if next.1 ≤ last.2 then merged.dropLast ++ [(last.1, max last.2 next.2)]
          else merged ++ [next]) merged) := by
    intro ahead
    induction ahead with
    | nil =>
      intro met merged _ h
      rw [append_nil]
      exact h
    | cons next rest ih =>
      intro met merged hpairs h
      obtain ⟨hnext, hrest⟩ := pairwise_cons.mp hpairs
      have hstep := ih (met ++ [next]) _ hrest (h.next hnext)
      rw [append_assoc] at hstep
      exact hstep
  have hnone : ∀ ahead, Merged [] ahead [] := fun _ =>
    ⟨nofun, nofun, nofun, nofun, nofun, List.Pairwise.nil⟩
  cases windows with
  | nil => exact hnone []
  | cons first rest =>
    obtain ⟨hfirst, hrest⟩ := pairwise_cons.mp hsorted
    exact hall rest [first] [first] hrest ((hnone (first :: rest)).next hfirst)

theorem merged_nightsOf (times : List ℤ) :
    Merged ((times.map targetWindow).insertionSort (fun a b => a.1 ≤ b.1)) [] (nightsOf times) := by
  have : Std.Total (fun a b : NightWindow => a.1 ≤ b.1) := ⟨fun a b => le_total a.1 b.1⟩
  have : IsTrans NightWindow (fun a b => a.1 ≤ b.1) := ⟨fun _ _ _ h h' => h.trans h'⟩
  exact merged_mergeWindows (pairwise_insertionSort _ _)

variable {times : List ℤ}

theorem exists_night {at_ : ℤ} (h : at_ ∈ times) :
    ∃ night ∈ nightsOf times, night.1 ≤ (targetWindow at_).1 ∧ (targetWindow at_).2 ≤ night.2 :=
  (merged_nightsOf times).holds _
    ((mem_insertionSort _).mpr (mem_map_of_mem h))

theorem mem_windows {window : NightWindow} :
    window ∈ (times.map targetWindow).insertionSort (fun a b => a.1 ≤ b.1) ↔
      ∃ at_ ∈ times, targetWindow at_ = window := by
  rw [mem_insertionSort, mem_map]

theorem targetWindow_forward (at_ : ℤ) : (targetWindow at_).1 < (targetWindow at_).2 := by
  unfold targetWindow attendanceReportLeadMs reportCoverSlackMs
  dsimp only
  omega

theorem night_forward {night : NightWindow} (h : night ∈ nightsOf times) :
    night.1 < night.2 := by
  obtain ⟨window, hwindow, hstart, hend⟩ := (merged_nightsOf times).opened night h
  obtain ⟨at_, -, rfl⟩ := mem_windows.mp hwindow
  have hforward := targetWindow_forward at_
  omega

theorem night_unique {a b : NightWindow} (ha : a ∈ nightsOf times) (hb : b ∈ nightsOf times) {x : ℝ}
    (hxa : x ∈ NightWindow.span a) (hxb : x ∈ NightWindow.span b) : a = b := by
  by_contra hne
  have hapart : ∀ c d : NightWindow, x ∈ NightWindow.span c → x ∈ NightWindow.span d →
      ¬ c.2 < d.1 := by
    intro c d hc hd hlt
    have hcast : (c.2 : ℝ) < d.1 := by exact_mod_cast hlt
    linarith [hc.2, hd.1]
  have : Std.Symm (fun c d : NightWindow => c.2 < d.1 ∨ d.2 < c.1) := ⟨fun _ _ h => h.symm⟩
  have hpair : (nightsOf times).Pairwise (fun c d => c.2 < d.1 ∨ d.2 < c.1) :=
    (merged_nightsOf times).ordered.imp .inl
  rcases hpair.forall ha hb hne with hlt | hlt
  · exact hapart a b hxa hxb hlt
  · exact hapart b a hxb hxa hlt

/-- For every list of target times, the nights are sorted and pairwise disjoint, together they
are the windows of the times, every time's own window lies within exactly one of them, and each
starts and ends at an edge of some time's window. -/
theorem nightsOf_spec (times : List ℤ) :
    ((nightsOf times).Pairwise (fun a b => a.1 < b.1) ∧
      (nightsOf times).Pairwise (fun a b => Disjoint (NightWindow.span a) (NightWindow.span b))) ∧
    (⋃ night ∈ nightsOf times, NightWindow.span night) =
      ⋃ at_ ∈ times, NightWindow.span (targetWindow at_) ∧
    (∀ at_ ∈ times, ∃! night, night ∈ nightsOf times ∧
      NightWindow.span (targetWindow at_) ⊆ NightWindow.span night) ∧
    ∀ night ∈ nightsOf times, (∃ at_ ∈ times, night.1 = (targetWindow at_).1) ∧
      ∃ at_ ∈ times, night.2 = (targetWindow at_).2 := by
  have h := merged_nightsOf times
  have hwithin : ∀ at_ ∈ times, ∃ night ∈ nightsOf times,
      NightWindow.span (targetWindow at_) ⊆ NightWindow.span night := by
    intro at_ hat
    obtain ⟨night, hnight, hstart, hend⟩ := exists_night hat
    exact ⟨night, hnight, Set.Icc_subset_Icc (by exact_mod_cast hstart) (by exact_mod_cast hend)⟩
  refine ⟨⟨?_, ?_⟩, ?_, ?_, ?_⟩
  · refine h.ordered.imp_of_mem fun ha _ hlt => ?_
    exact (night_forward ha).trans hlt
  · refine h.ordered.imp fun {a b} hlt => ?_
    refine Set.disjoint_left.mpr fun x ha hb => ?_
    have hcast : (a.2 : ℝ) < b.1 := by exact_mod_cast hlt
    linarith [ha.2, hb.1]
  · ext x
    simp only [Set.mem_iUnion, exists_prop]
    constructor
    · rintro ⟨night, hnight, hx⟩
      obtain ⟨window, hwindow, hin⟩ := h.covered night hnight x hx
      obtain ⟨at_, hat, rfl⟩ := mem_windows.mp hwindow
      exact ⟨at_, hat, hin⟩
    · rintro ⟨at_, hat, hx⟩
      obtain ⟨night, hnight, hsub⟩ := hwithin at_ hat
      exact ⟨night, hnight, hsub hx⟩
  · intro at_ hat
    obtain ⟨night, hnight, hsub⟩ := hwithin at_ hat
    refine ⟨night, ⟨hnight, hsub⟩, fun other hother => ?_⟩
    -- both hold the start of the time's own window
    have hstart : ((targetWindow at_).1 : ℝ) ∈ NightWindow.span (targetWindow at_) :=
      ⟨le_refl _, by exact_mod_cast (targetWindow_forward at_).le⟩
    exact night_unique hother.1 hnight (hother.2 hstart) (hsub hstart)
  · intro night hnight
    obtain ⟨first, hfirst, hstart, -⟩ := h.opened night hnight
    obtain ⟨last, hlast, hend⟩ := h.closed night hnight
    obtain ⟨opening, hopening, rfl⟩ := mem_windows.mp hfirst
    obtain ⟨closing, hclosing, rfl⟩ := mem_windows.mp hlast
    exact ⟨⟨opening, hopening, hstart⟩, closing, hclosing, hend⟩

end SlashWho.HistoryRecovery
