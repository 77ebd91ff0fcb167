import SlashWho.OrderedMap

/-!
Two maps filled from one list by a key. Buckets hold every item of a key in
the order they came, so that together they are the list again. A unique index
holds an item only while it is the one item of its key, and remembers a second
as an ambiguity rather than replacing the first.
-/

namespace SlashWho.KeyedBuckets

open List

variable {κ α β : Type*} [DecidableEq κ] (key : α → κ)

def appendToBucket (m : OrderedMap κ (List α)) (a : α) : OrderedMap κ (List α) :=
  m.set (key a) ((m.get? (key a)).getD [] ++ [a])

variable (l : List α)

def bucketsBy : OrderedMap κ (List α) := l.foldl (appendToBucket key) .empty

theorem foldl_bucket (held : Option (List α)) :
    l.foldl (fun held a => some (held.getD [] ++ [a])) held =
      if l = [] then held else some (held.getD [] ++ l) := by
  induction l generalizing held with
  | nil => rfl
  | cons a rest ih =>
    rw [foldl_cons, ih]
    by_cases hrest : rest = []
    · rw [if_pos hrest, if_neg (cons_ne_nil a rest), hrest]
    · rw [if_neg hrest, if_neg (cons_ne_nil a rest)]
      simp

/-- A bucket holds the items of its key, and a key without items has none. -/
theorem get?_bucketsBy (k : κ) :
    (bucketsBy key l).get? k =
      if l.filter (fun a => key a = k) = [] then none
      else some (l.filter (fun a => key a = k)) := by
  have hfold := OrderedMap.get?_foldl_set key (fun held a => held.getD [] ++ [a]) l
    (.empty : OrderedMap κ (List α)) k
  rw [foldl_bucket, OrderedMap.get?_empty] at hfold
  exact hfold

theorem mem_entries_bucketsBy {l : List α} {entry : κ × List α} :
    entry ∈ (bucketsBy key l).entries ↔
      entry.2 = l.filter (fun a => key a = entry.1) ∧ entry.2 ≠ [] := by
  obtain ⟨k, bucket⟩ := entry
  rw [OrderedMap.mem_entries_iff, get?_bucketsBy]
  by_cases h : l.filter (fun a => key a = k) = []
  · rw [if_pos h]
    constructor
    · intro hnone
      cases hnone
    · rintro ⟨heq, hne⟩
      exact absurd (heq.trans h) hne
  · rw [if_neg h, Option.some.injEq]
    constructor
    · intro heq
      exact ⟨heq.symm, by rw [← heq]; exact h⟩
    · intro heq
      exact heq.1.symm

theorem mem_keys_bucketsBy {l : List α} {k : κ} :
    k ∈ (bucketsBy key l).keys ↔ ∃ a ∈ l, key a = k := by
  rw [OrderedMap.mem_keys_iff, get?_bucketsBy]
  constructor
  · rintro ⟨bucket, h⟩
    by_cases hnil : l.filter (fun a => key a = k) = []
    · rw [if_pos hnil] at h
      cases h
    · obtain ⟨a, ha⟩ := exists_mem_of_ne_nil _ hnil
      rw [mem_filter, decide_eq_true_eq] at ha
      exact ⟨a, ha⟩
  · rintro ⟨a, ha, hk⟩
    have hmem : a ∈ l.filter (fun a => key a = k) := by
      rw [mem_filter, decide_eq_true_eq]
      exact ⟨ha, hk⟩
    rw [if_neg (ne_nil_of_mem hmem)]
    exact ⟨_, rfl⟩

theorem entries_eq_map_keys :
    (bucketsBy key l).entries =
      (bucketsBy key l).keys.map (fun k => (k, l.filter (fun a => key a = k))) := by
  unfold OrderedMap.keys
  rw [map_map]
  conv_lhs => rw [← map_id (bucketsBy key l).entries]
  apply map_congr_left
  intro entry hentry
  exact Prod.ext rfl ((mem_entries_bucketsBy key).mp hentry).1

/-- Taking the items key by key only rearranges them. -/
theorem flatMap_filter_perm (ks : List κ) (l : List α) (hnodup : ks.Nodup)
    (hall : ∀ a ∈ l, key a ∈ ks) :
    List.Perm (ks.flatMap (fun k => l.filter (fun a => key a = k))) l := by
  induction ks generalizing l with
  | nil =>
    have hnil : l = [] := by
      rw [eq_nil_iff_forall_not_mem]
      intro a ha
      exact absurd (hall a ha) not_mem_nil
    rw [hnil]
    rfl
  | cons k rest ih =>
    rw [nodup_cons] at hnodup
    rw [flatMap_cons]
    have hothers : ∀ a ∈ l.filter (fun a => !decide (key a = k)), key a ∈ rest := by
      intro a ha
      rw [mem_filter] at ha
      have hne : key a ≠ k := by simpa using ha.2
      exact (mem_cons.mp (hall a ha.1)).resolve_left hne
    have hrest : rest.flatMap (fun k' => l.filter (fun a => key a = k')) =
        rest.flatMap (fun k' =>
          (l.filter (fun a => !decide (key a = k))).filter (fun a => key a = k')) := by
      apply flatMap_congr
      intro k' hk'
      rw [filter_filter]
      apply filter_congr
      intro a _
      have hne : k' ≠ k := fun heq => hnodup.1 (heq ▸ hk')
      by_cases hkey : key a = k'
      · simp [hkey, hne]
      · simp [hkey]
    rw [hrest]
    exact ((ih _ hnodup.2 hothers).append_left _).trans (filter_append_perm _ l)

theorem flatten_values_perm :
    List.Perm (bucketsBy key l).values.flatten l := by
  have hvalues : (bucketsBy key l).values.flatten =
      (bucketsBy key l).keys.flatMap (fun k => l.filter (fun a => key a = k)) := by
    unfold OrderedMap.values
    rw [entries_eq_map_keys, map_map, flatMap_def]
    rfl
  rw [hvalues]
  apply flatMap_filter_perm key _ l (bucketsBy key l).nodup_keys
  intro a ha
  exact (mem_keys_bucketsBy key).mpr ⟨a, ha, rfl⟩

theorem head?_values_bucketsBy (a : α) (l : List α) :
    ∃ rest, (bucketsBy key (a :: l)).values.head? = some (a :: rest) := by
  have hkeys : ∀ (items : List α) (m : OrderedMap κ (List α)), m.keys.head? = some (key a) →
      (items.foldl (appendToBucket key) m).keys.head? = some (key a) := by
    intro items
    induction items with
    | nil => exact fun m hm => hm
    | cons b rest ih =>
      intro m hm
      apply ih
      unfold appendToBucket
      rw [OrderedMap.keys_set]
      split
      · exact hm
      · rw [head?_append, hm]
        rfl
  have hhead : (bucketsBy key (a :: l)).keys.head? = some (key a) := hkeys l _ rfl
  unfold OrderedMap.values
  rw [entries_eq_map_keys, map_map, head?_map, hhead]
  refine ⟨l.filter (fun b => key b = key a), ?_⟩
  simp

theorem keys_perm {l₁ l₂ : List α} (h : ∀ a, a ∈ l₁ ↔ a ∈ l₂) :
    List.Perm (bucketsBy key l₁).keys (bucketsBy key l₂).keys := by
  refine (perm_ext_iff_of_nodup (bucketsBy key l₁).nodup_keys
    (bucketsBy key l₂).nodup_keys).mpr ?_
  intro k
  have h₁ := mem_keys_bucketsBy key (l := l₁) (k := k)
  have h₂ := mem_keys_bucketsBy key (l := l₂) (k := k)
  simp only [h] at h₁
  exact h₁.trans h₂.symm

/-- Two lists with the same members whose buckets read alike read alike as a whole. -/
theorem map_entries_perm {l₁ l₂ : List α} (h : ∀ a, a ∈ l₁ ↔ a ∈ l₂)
    (f₁ f₂ : κ × List α → β)
    (hread : ∀ k, f₁ (k, l₁.filter (fun a => key a = k)) = f₂ (k, l₂.filter (fun a => key a = k))) :
    List.Perm ((bucketsBy key l₁).entries.map f₁) ((bucketsBy key l₂).entries.map f₂) := by
  rw [entries_eq_map_keys, entries_eq_map_keys, map_map, map_map]
  have hfun : (f₁ ∘ fun k => (k, l₁.filter (fun a => key a = k))) =
      (f₂ ∘ fun k => (k, l₂.filter (fun a => key a = k))) := funext hread
  rw [hfun]
  exact (keys_perm key h).map _

/-- An item joins its key's entry alone, and a second turns the entry ambiguous. -/
def addUnique (m : OrderedMap κ (Option α)) (a : α) : OrderedMap κ (Option α) :=
  m.set (key a) (if (m.get? (key a)).isNone then some a else none)

def uniqueBy (l : List α) : OrderedMap κ (Option α) := l.foldl (addUnique key) .empty

/-- What an index answers for a key: its item, or nothing where it is ambiguous. -/
def uniqueItem (m : OrderedMap κ (Option α)) (k : κ) : Option α := (m.get? k).join

theorem foldl_unique (l : List α) (held : Option α) :
    l.foldl (fun held a => some (if held.isNone then some a else none)) (some held) =
      some (if l = [] then held else none) := by
  induction l generalizing held with
  | nil => rfl
  | cons a rest ih =>
    rw [foldl_cons, if_neg (cons_ne_nil a rest)]
    have hnext := ih none
    rw [ite_self] at hnext
    exact hnext

/-- The index answers with an item exactly when it is the only one of its key. -/
theorem uniqueItem_eq_some_iff (l : List α) (k : κ) (a : α) :
    uniqueItem (uniqueBy key l) k = some a ↔ l.filter (fun b => key b = k) = [a] := by
  have hfold := OrderedMap.get?_foldl_set key
    (fun held a => if held.isNone then some a else none) l (.empty : OrderedMap κ (Option α)) k
  rw [OrderedMap.get?_empty] at hfold
  unfold uniqueItem uniqueBy addUnique
  rw [hfold]
  cases l.filter (fun b => key b = k) with
  | nil => simp
  | cons b rest =>
    rw [foldl_cons, foldl_unique]
    by_cases hrest : rest = []
    · simp [hrest]
    · simp [hrest]

theorem mem_of_uniqueItem {l : List α} {k : κ} {a : α}
    (h : uniqueItem (uniqueBy key l) k = some a) : a ∈ l ∧ key a = k := by
  rw [uniqueItem_eq_some_iff] at h
  have hmem : a ∈ l.filter (fun b => key b = k) := by
    rw [h]
    exact mem_singleton_self a
  rwa [mem_filter, decide_eq_true_eq] at hmem

theorem uniqueItem_of_nodup {l : List α} (hnodup : (l.map key).Nodup) {a : α} (ha : a ∈ l) :
    uniqueItem (uniqueBy key l) (key a) = some a := by
  rw [uniqueItem_eq_some_iff]
  induction l with
  | nil => cases ha
  | cons b rest ih =>
    rw [map_cons, nodup_cons] at hnodup
    have hother : ∀ c ∈ rest, key c ≠ key b :=
      fun c hc heq => hnodup.1 (heq ▸ mem_map_of_mem hc)
    rcases mem_cons.mp ha with rfl | hrest
    · rw [filter_cons_of_pos (by simp), filter_eq_nil_iff.mpr]
      intro c hc
      simpa using hother c hc
    · rw [filter_cons_of_neg (by simpa using fun heq => hother a hrest heq.symm)]
      exact ih hnodup.2 hrest

end SlashWho.KeyedBuckets
