import Mathlib.Data.List.Pairwise
import Mathlib.Data.List.Sort

/-!
Stable sorting by a comparison that answers an ordering, and the order of
strings by their UTF-16 units. A sort gives one list for every arrangement of
elements the comparison tells apart, even when it ties some of them with
elements whose own order is fixed.
-/

namespace SlashWho.ComparatorSort

open List Std

variable {α : Type*} (cmp : α → α → Ordering)

/-- The relation a stable sort inserts by: the first does not come after. -/
def notAfter (a b : α) : Prop := cmp a b ≠ .gt

instance : DecidableRel (notAfter cmp) := fun _ _ => inferInstanceAs (Decidable (_ ≠ _))

def sortBy (l : List α) : List α := l.insertionSort (notAfter cmp)

theorem perm_sortBy (l : List α) : List.Perm (sortBy cmp l) l :=
  perm_insertionSort _ l

variable {l : List α} {a : α}

@[simp] theorem mem_sortBy : a ∈ sortBy cmp l ↔ a ∈ l :=
  (perm_sortBy cmp l).mem_iff

@[simp] theorem sortBy_eq_nil : sortBy cmp l = [] ↔ l = [] := by
  constructor
  · intro h
    have hperm := perm_sortBy cmp l
    rw [h] at hperm
    exact hperm.symm.eq_nil
  · intro h
    rw [h]
    rfl

theorem head?_sortBy (ha : a ∈ l) (hdistinct : l.Nodup)
    (hbefore : ∀ b ∈ l, b ≠ a → cmp a b = .lt ∧ cmp b a = .gt) :
    (sortBy cmp l).head? = some a := by
  induction l with
  | nil => cases ha
  | cons b rest ih =>
    obtain ⟨hnew, hrest⟩ := nodup_cons.mp hdistinct
    change (List.orderedInsert (notAfter cmp) b (sortBy cmp rest)).head? = some a
    by_cases heq : b = a
    · rw [← heq] at hbefore ⊢
      cases hsorted : sortBy cmp rest with
      | nil => rfl
      | cons c tail =>
        have hc : c ∈ rest := by
          rw [← mem_sortBy cmp, hsorted]
          exact mem_cons_self
        have hne : c ≠ b := fun h => hnew (h ▸ hc)
        have hle : notAfter cmp b c := by
          unfold notAfter
          rw [(hbefore c (mem_cons_of_mem _ hc) hne).1]
          decide
        rw [orderedInsert_cons_of_le _ _ hle]
        rfl
    · have hin : a ∈ rest := by
        rcases mem_cons.mp ha with h | h
        · exact absurd h.symm heq
        · exact h
      have hhead := ih hin hrest (fun c hc => hbefore c (mem_cons_of_mem _ hc))
      cases hsorted : sortBy cmp rest with
      | nil =>
        rw [hsorted] at hhead
        cases hhead
      | cons c tail =>
        rw [hsorted] at hhead
        have hca : c = a := Option.some.inj hhead
        have hnot : ¬ notAfter cmp b c := by
          rw [hca]
          exact fun h => h (hbefore b mem_cons_self heq).2
        rw [orderedInsert_of_not_le _ _ hnot, hca]
        rfl

variable [TransCmp cmp]

instance : Std.Total (notAfter cmp) where
  total a b := by
    unfold notAfter
    by_cases hab : cmp a b = .gt
    · right
      rw [OrientedCmp.lt_of_gt hab]
      decide
    · exact .inl hab

instance : IsTrans α (notAfter cmp) where
  trans a b c hab hbc := by
    have hle := TransCmp.isLE_trans (Ordering.isLE_iff_ne_gt.mpr hab)
      (Ordering.isLE_iff_ne_gt.mpr hbc)
    exact Ordering.isLE_iff_ne_gt.mp hle

theorem pairwise_sortBy (l : List α) : (sortBy cmp l).Pairwise (notAfter cmp) :=
  pairwise_insertionSort _ l

theorem orderedInsert_comm {b : α} (hab : cmp a b ≠ .eq) (l : List α) :
    List.orderedInsert (notAfter cmp) a (List.orderedInsert (notAfter cmp) b l) =
      List.orderedInsert (notAfter cmp) b (List.orderedInsert (notAfter cmp) a l) := by
  -- The earlier of the two never passes the later, so it is enough to follow it down the list.
  have hbefore : ∀ {a b : α}, cmp a b = .lt → ∀ l : List α,
      List.orderedInsert (notAfter cmp) a (List.orderedInsert (notAfter cmp) b l) =
        List.orderedInsert (notAfter cmp) b (List.orderedInsert (notAfter cmp) a l) := by
    intro a b hlt l
    have hle : notAfter cmp a b := by
      unfold notAfter
      rw [hlt]
      decide
    have hnot : ¬ notAfter cmp b a := by
      unfold notAfter
      rw [OrientedCmp.gt_of_lt hlt]
      simp
    induction l with
    | nil => simp [hle, hnot]
    | cons c rest ih =>
      by_cases hbc : notAfter cmp b c
      · have hac : notAfter cmp a c := IsTrans.trans a b c hle hbc
        simp [hbc, hac, hle, hnot]
      · by_cases hac : notAfter cmp a c
        · simp [hbc, hac, hnot]
        · simp [hbc, hac, ih]
  cases h : cmp a b with
  | lt => exact hbefore h l
  | eq => exact absurd h hab
  | gt => exact (hbefore (OrientedCmp.lt_of_gt h) l).symm

/-- Every two elements of the list, not the same one, are told apart. -/
def TellsApart (l : List α) : Prop := l.Pairwise (fun a b => cmp a b ≠ .eq)

theorem TellsApart.forall {cmp : α → α → Ordering} [OrientedCmp cmp] (h : TellsApart cmp l) {b : α}
    (ha : a ∈ l) (hb : b ∈ l) (hne : a ≠ b) :
    cmp a b ≠ .eq := by
  have : Std.Symm (fun a b => cmp a b ≠ .eq) :=
    ⟨fun _ _ hab heq => hab (OrientedCmp.eq_symm heq)⟩
  exact List.Pairwise.forall h ha hb hne

/-- Elements told apart sort alike however they came, before elements that keep their place. -/
theorem sortBy_append_perm {l₁ l₂ : List α} (hperm : List.Perm l₁ l₂) (h : TellsApart cmp l₁)
    (fixed : List α) : sortBy cmp (l₁ ++ fixed) = sortBy cmp (l₂ ++ fixed) := by
  unfold sortBy List.insertionSort
  rw [foldr_append, foldr_append]
  apply hperm.foldr_eq'
  intro a ha b hb l
  by_cases hne : a = b
  · rw [hne]
  · exact orderedInsert_comm cmp (h.forall hb ha (fun heq => hne heq.symm)) l

theorem sortBy_perm {l₁ l₂ : List α} (hperm : List.Perm l₁ l₂) (h : TellsApart cmp l₁) :
    sortBy cmp l₁ = sortBy cmp l₂ := by
  have happend := sortBy_append_perm cmp hperm h []
  rwa [append_nil, append_nil] at happend

variable {β : Type*} {cmp : β → β → Ordering}

/-- Compare by what a function reads of each. -/
def readBy (f : α → β) (cmp : β → β → Ordering) (a b : α) : Ordering := cmp (f a) (f b)

instance (f : α → β) [TransCmp cmp] : TransCmp (readBy f cmp) where
  eq_swap := fun {_ _} => @OrientedCmp.eq_swap _ cmp _ _ _
  isLE_trans := fun hab hbc => @TransCmp.isLE_trans _ cmp _ _ _ _ hab hbc

/-- An absent value sorts before every present one. -/
def absentFirst (cmp : β → β → Ordering) : Option β → Option β → Ordering
  | none, none => .eq
  | none, some _ => .lt
  | some _, none => .gt
  | some a, some b => cmp a b

instance [TransCmp cmp] : TransCmp (absentFirst cmp) where
  eq_swap := by
    intro a b
    cases a with
    | none => cases b <;> simp [absentFirst]
    | some a =>
      cases b with
      | none => simp [absentFirst]
      | some b => exact @OrientedCmp.eq_swap _ cmp _ _ _
  isLE_trans := by
    intro a b c hab hbc
    cases a with
    | none => cases c <;> simp [absentFirst]
    | some a =>
      cases b with
      | none => simp [absentFirst] at hab
      | some b =>
        cases c with
        | none => simp [absentFirst] at hbc
        | some c => exact @TransCmp.isLE_trans _ cmp _ _ _ _ hab hbc

/-- The comparison with its two sides exchanged. -/
def descending (cmp : β → β → Ordering) (a b : β) : Ordering := cmp b a

instance [TransCmp cmp] : TransCmp (descending cmp) where
  eq_swap := fun {_ _} => @OrientedCmp.eq_swap _ cmp _ _ _
  isLE_trans := fun hab hbc => @TransCmp.isLE_trans _ cmp _ _ _ _ hbc hab

/-- The UTF-16 units of one character. -/
def utf16Units (c : Char) : List ℕ :=
  if c.toNat < 0x10000 then [c.toNat]
  else [0xD800 + (c.toNat - 0x10000) / 0x400, 0xDC00 + (c.toNat - 0x10000) % 0x400]

/-- The order of two strings, unit by unit. -/
def text (a b : String) : Ordering :=
  compare (a.toList.flatMap utf16Units) (b.toList.flatMap utf16Units)

instance : TransCmp text where
  eq_swap := OrientedOrd.eq_swap
  isLE_trans := TransOrd.isLE_trans

theorem toNat_valid (c : Char) :
    c.toNat < 0xD800 ∨ (0xDFFF < c.toNat ∧ c.toNat < 0x110000) := c.valid

theorem utf16Units_append_inj {c d : Char} {r s : List ℕ}
    (h : utf16Units c ++ r = utf16Units d ++ s) : c = d ∧ r = s := by
  have hc := toNat_valid c
  have hd := toNat_valid d
  have hnat : c.toNat = d.toNat ∧ r = s := by
    unfold utf16Units at h
    by_cases hcs : c.toNat < 0x10000
    · by_cases hds : d.toNat < 0x10000
      · rw [if_pos hcs, if_pos hds] at h
        simpa using h
      · rw [if_pos hcs, if_neg hds] at h
        simp only [cons_append, List.cons.injEq] at h
        omega
    · by_cases hds : d.toNat < 0x10000
      · rw [if_neg hcs, if_pos hds] at h
        simp only [cons_append, List.cons.injEq] at h
        omega
      · rw [if_neg hcs, if_neg hds] at h
        simp only [cons_append, nil_append, List.cons.injEq] at h
        obtain ⟨hhigh, hlow, hrest⟩ := h
        exact ⟨by omega, hrest⟩
  exact ⟨Char.toNat_inj.mp hnat.1, hnat.2⟩

theorem flatMap_utf16Units_inj {a b : List Char}
    (h : a.flatMap utf16Units = b.flatMap utf16Units) : a = b := by
  have hne : ∀ c : Char, utf16Units c ≠ [] := by
    intro c
    unfold utf16Units
    split <;> simp
  induction a generalizing b with
  | nil =>
    cases b with
    | nil => rfl
    | cons d rest =>
      rw [flatMap_nil, flatMap_cons] at h
      exact absurd (append_eq_nil_iff.mp h.symm).1 (hne d)
  | cons c rest ih =>
    cases b with
    | nil =>
      rw [flatMap_nil, flatMap_cons] at h
      exact absurd (append_eq_nil_iff.mp h).1 (hne c)
    | cons d others =>
      rw [flatMap_cons, flatMap_cons] at h
      obtain ⟨rfl, hrest⟩ := utf16Units_append_inj h
      rw [ih hrest]

theorem eq_of_text_eq {a b : String} (h : text a b = .eq) : a = b := by
  have hunits := LawfulEqOrd.eq_of_compare h
  exact String.toList_inj.mp (flatMap_utf16Units_inj hunits)

end SlashWho.ComparatorSort
