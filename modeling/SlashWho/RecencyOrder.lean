import SlashWho.OrderedMap

/-!
Maps whose insertion order is the order their keys were last used in. A key that is
used is taken out and put back at the end, so the first key is the one unused for
longest, and dropping it drops the least recently used.
-/

namespace SlashWho.RecencyOrder

open List

variable {κ : Type*}

/-- The second key has been used since the first last was. -/
def UsedBefore (uses : List κ) (a b : κ) : Prop :=
  ∃ before after, uses = before ++ after ∧ a ∉ after ∧ b ∈ after

theorem UsedBefore.use {uses : List κ} {a b k : κ} (h : UsedBefore uses a b) (hne : a ≠ k) :
    UsedBefore (uses ++ [k]) a b := by
  obtain ⟨before, after, rfl, ha, hb⟩ := h
  refine ⟨before, after ++ [k], append_assoc _ _ _, ?_, mem_append_left _ hb⟩
  simp [ha, hne]

theorem usedBefore_last (uses : List κ) {a k : κ} (hne : a ≠ k) : UsedBefore (uses ++ [k]) a k :=
  ⟨uses, [k], rfl, by simp [hne], mem_singleton_self k⟩

variable {ν : Type*} [DecidableEq κ]

/-- The map's keys, in the order they were last used. -/
def ByUse (uses : List κ) (m : OrderedMap κ ν) : Prop := m.keys.Pairwise (UsedBefore uses)

theorem keys_erase (m : OrderedMap κ ν) (k : κ) : (m.erase k).keys = m.keys.filter (· ≠ k) := by
  unfold OrderedMap.erase OrderedMap.keys
  rw [filter_map]
  rfl

variable {m : OrderedMap κ ν}

variable {k : κ}

theorem erase_of_none (h : m.get? k = none) : m.erase k = m := by
  have hentries : m.entries.filter (fun e => e.1 ≠ k) = m.entries := by
    rw [filter_eq_self]
    intro e he
    refine decide_eq_true fun heq => ?_
    rw [← heq, (m.mem_entries_iff e.1 e.2).mp he] at h
    cases h
  unfold OrderedMap.erase
  cases m
  simpa using hentries

theorem not_mem_keys_erase (m : OrderedMap κ ν) (k : κ) : k ∉ (m.erase k).keys := by
  rw [keys_erase]
  simp

omit [DecidableEq κ] in
theorem byUse_empty (uses : List κ) : ByUse uses (OrderedMap.empty : OrderedMap κ ν) :=
  List.Pairwise.nil

variable {uses : List κ}

theorem ByUse.erase (h : ByUse uses m) (k : κ) :
    ByUse uses (m.erase k) := by
  unfold ByUse
  rw [keys_erase]
  exact List.Pairwise.filter _ h

theorem ByUse.insert (h : ByUse uses m) (hnew : k ∉ m.keys) (v : ν) :
    ByUse (uses ++ [k]) (m.set k v) := by
  have hne : ∀ a ∈ m.keys, a ≠ k := fun a ha heq => hnew (heq ▸ ha)
  unfold ByUse
  rw [OrderedMap.keys_set, if_neg hnew, pairwise_append]
  refine ⟨h.imp_of_mem fun ha _ hab => hab.use (hne _ ha), pairwise_singleton _ _, ?_⟩
  intro a ha b hb
  rw [mem_singleton.mp hb]
  exact usedBefore_last uses (hne a ha)

/-- A key taken out and put back is the last one used. -/
theorem ByUse.reinsert (h : ByUse uses m) (k : κ) (v : ν) :
    ByUse (uses ++ [k]) ((m.erase k).set k v) :=
  (h.erase k).insert (not_mem_keys_erase m k) v

/-- The map without its first key. -/
def dropFirst (m : OrderedMap κ ν) : OrderedMap κ ν :=
  match m.keys with
  | [] => m
  | first :: _ => m.erase first

theorem ByUse.dropFirst (h : ByUse uses m) :
    ByUse uses (dropFirst m) := by
  unfold RecencyOrder.dropFirst
  split
  · exact h
  · exact h.erase _

theorem length_dropFirst (m : OrderedMap κ ν) :
    (dropFirst m).keys.length = m.keys.length - 1 := by
  unfold RecencyOrder.dropFirst
  split
  · next hnone => rw [hnone]; rfl
  · next first rest hkeys =>
    have hnodup := m.nodup_keys
    rw [show m.entries.map Prod.fst = m.keys from rfl, hkeys, nodup_cons] at hnodup
    have hrest : rest.filter (· ≠ first) = rest := by
      rw [filter_eq_self]
      intro a ha
      exact decide_eq_true fun heq => hnodup.1 (heq ▸ ha)
    rw [keys_erase, hkeys, filter_cons_of_neg (by simp), hrest]
    rfl

theorem get?_dropFirst {v : ν} (h : (dropFirst m).get? k = some v) : m.get? k = some v := by
  unfold RecencyOrder.dropFirst at h
  split at h
  · exact h
  · rw [OrderedMap.get?_erase] at h
    split at h
    · cases h
    · exact h

/-- The key dropped is the one unused for longest. -/
theorem ByUse.dropped_least (h : ByUse uses m) {other : κ} (hk : k ∈ m.keys)
    (hgone : k ∉ (RecencyOrder.dropFirst m).keys) (hother : other ∈ m.keys) (hne : other ≠ k) :
    UsedBefore uses k other := by
  unfold RecencyOrder.dropFirst at hgone
  split at hgone
  · next hnone => exact absurd hk hgone
  · next first rest hkeys =>
    have hfirst : k = first := by
      by_contra hnot
      apply hgone
      rw [keys_erase, mem_filter]
      exact ⟨hk, decide_eq_true hnot⟩
    unfold ByUse at h
    rw [hkeys, pairwise_cons] at h
    rw [hkeys] at hother
    rcases mem_cons.mp hother with heq | hin
    · exact absurd (heq.trans hfirst.symm) hne
    · rw [hfirst]
      exact h.1 other hin

end SlashWho.RecencyOrder
