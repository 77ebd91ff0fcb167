import Mathlib.Algebra.BigOperators.Group.List.Basic
import Mathlib.Data.List.Nodup

/-!
Insertion-ordered maps. Setting a key that is present keeps its position and
replaces its value; a new key goes to the end. Keys are pairwise distinct by
construction, so a lookup and the entry list always agree.
-/

namespace SlashWho

open List

/-- Replace the value of a key in place, or append the key. -/
def setEntry {κ ν : Type*} [DecidableEq κ] (k : κ) (v : ν) : List (κ × ν) → List (κ × ν)
  | [] => [(k, v)]
  | e :: rest => if e.1 = k then (k, v) :: rest else e :: setEntry k v rest

variable {κ ν : Type*} [DecidableEq κ]

variable (k : κ)

theorem keys_setEntry (v : ν) (es : List (κ × ν)) :
    (setEntry k v es).map Prod.fst =
      if k ∈ es.map Prod.fst then es.map Prod.fst else es.map Prod.fst ++ [k] := by
  induction es with
  | nil => simp [setEntry]
  | cons e rest ih =>
    by_cases he : e.1 = k
    · simp [setEntry, he]
    · have hk : k ≠ e.1 := Ne.symm he
      simp only [setEntry, he, if_false, map_cons, ih, mem_cons, hk, false_or]
      split <;> simp

theorem nodup_setEntry (v : ν) (es : List (κ × ν)) (h : (es.map Prod.fst).Nodup) :
    ((setEntry k v es).map Prod.fst).Nodup := by
  rw [keys_setEntry]
  split
  · exact h
  · next hk => exact nodup_append.mpr ⟨h, by simp, by
      intro a ha b hb hab
      rw [mem_singleton] at hb
      subst hb
      exact hk (hab ▸ ha)⟩

theorem lookup_cons_eq_ite (e : κ × ν) (es : List (κ × ν)) :
    (e :: es).lookup k = if k = e.1 then some e.2 else es.lookup k := by
  obtain ⟨a, b⟩ := e
  rw [lookup_cons]
  by_cases hk : k = a
  · simp [hk]
  · have hb : (k == a) = false := beq_eq_false_iff_ne.mpr hk
    simp [hk, hb]

theorem lookup_setEntry (k' : κ) (v : ν) (es : List (κ × ν)) :
    (setEntry k v es).lookup k' = if k' = k then some v else es.lookup k' := by
  induction es with
  | nil => simp [setEntry, lookup_cons_eq_ite]
  | cons e rest ih =>
    by_cases he : e.1 = k
    · subst he
      by_cases hk : k' = e.1 <;> simp [setEntry, lookup_cons_eq_ite, hk]
    · by_cases hk : k' = e.1
      · subst hk
        simp [setEntry, lookup_cons_eq_ite, he]
      · simp [setEntry, lookup_cons_eq_ite, he, hk, ih]

theorem setEntry_setEntry (v v' : ν) (es : List (κ × ν)) :
    setEntry k v' (setEntry k v es) = setEntry k v' es := by
  induction es with
  | nil => simp [setEntry]
  | cons e rest ih =>
    by_cases he : e.1 = k
    · simp [setEntry, he]
    · simp [setEntry, he, ih]

theorem lookup_filter_ne (k' : κ) (es : List (κ × ν)) :
    (es.filter (fun e => e.1 ≠ k)).lookup k' = if k' = k then none else es.lookup k' := by
  induction es with
  | nil => simp
  | cons e rest ih =>
    by_cases he : e.1 = k
    · rw [filter_cons_of_neg (by simpa using he), ih, lookup_cons_eq_ite]
      by_cases hk : k' = k
      · rw [if_pos hk, if_pos hk]
      · rw [if_neg hk, if_neg hk, if_neg (by rw [he]; exact hk)]
    · rw [filter_cons_of_pos (by simpa using he), lookup_cons_eq_ite, lookup_cons_eq_ite, ih]
      by_cases hk : k' = e.1
      · rw [if_pos hk, if_pos hk, if_neg (by rw [hk]; exact he)]
      · rw [if_neg hk, if_neg hk]

/-- A map that remembers the order in which its keys were first set. -/
structure OrderedMap (κ ν : Type*) where
  entries : List (κ × ν)
  nodup_keys : (entries.map Prod.fst).Nodup

theorem find?_eq_some_of_nodup {κ α : Type*} [DecidableEq κ] (key : α → κ) {rows : List α}
    (hnodup : (rows.map key).Nodup) {row : α} (hrow : row ∈ rows) :
    rows.find? (fun r => key r = key row) = some row := by
  induction rows with
  | nil => simp at hrow
  | cons first rest ih =>
    rw [map_cons, nodup_cons] at hnodup
    rcases mem_cons.mp hrow with rfl | hin
    · simp
    · have hne : key first ≠ key row :=
        fun heq => hnodup.1 (heq ▸ mem_map_of_mem hin)
      rw [find?_cons_of_neg (by simpa using hne)]
      exact ih hnodup.2 hin

namespace OrderedMap

variable {κ : Type*}

def keys (m : OrderedMap κ ν) : List κ := m.entries.map Prod.fst

def values (m : OrderedMap κ ν) : List ν := m.entries.map Prod.snd

def empty : OrderedMap κ ν := ⟨[], nodup_nil⟩

variable [DecidableEq κ]

def get? (m : OrderedMap κ ν) (k : κ) : Option ν := m.entries.lookup k

def has (m : OrderedMap κ ν) (k : κ) : Bool := (m.get? k).isSome

def set (m : OrderedMap κ ν) (k : κ) (v : ν) : OrderedMap κ ν :=
  ⟨setEntry k v m.entries, nodup_setEntry k v m.entries m.nodup_keys⟩

/-- Set every entry in order, so the last value given for a key wins. -/
def setAll (m : OrderedMap κ ν) (es : List (κ × ν)) : OrderedMap κ ν :=
  es.foldl (fun acc e => acc.set e.1 e.2) m

def ofList (es : List (κ × ν)) : OrderedMap κ ν := empty.setAll es

@[simp] theorem get?_empty (k : κ) : (empty : OrderedMap κ ν).get? k = none := rfl

theorem get?_set (m : OrderedMap κ ν) (k k' : κ) (v : ν) :
    (m.set k v).get? k' = if k' = k then some v else m.get? k' :=
  lookup_setEntry k k' v m.entries

@[simp] theorem get?_set_self (m : OrderedMap κ ν) (k : κ) (v : ν) :
    (m.set k v).get? k = some v := by simp [get?_set]

theorem get?_set_ne (m : OrderedMap κ ν) {k k' : κ} (v : ν) (h : k' ≠ k) :
    (m.set k v).get? k' = m.get? k' := by simp [get?_set, h]

theorem mem_entries_iff (m : OrderedMap κ ν) (k : κ) (v : ν) :
    (k, v) ∈ m.entries ↔ m.get? k = some v := by
  obtain ⟨es, hes⟩ := m
  change (k, v) ∈ es ↔ es.lookup k = some v
  induction es with
  | nil => simp
  | cons e rest ih =>
    obtain ⟨a, b⟩ := e
    simp only [map_cons, nodup_cons] at hes
    have hrest := ih hes.2
    by_cases hk : k = a
    · subst hk
      have hout : (k, v) ∉ rest := fun h => hes.1 (mem_map_of_mem (f := Prod.fst) h)
      simp [lookup_cons_eq_ite, hout, eq_comm]
    · simp [lookup_cons_eq_ite, hk, hrest]

theorem mem_keys_iff (m : OrderedMap κ ν) (k : κ) :
    k ∈ m.keys ↔ ∃ v, m.get? k = some v := by
  constructor
  · intro h
    obtain ⟨e, he, rfl⟩ := mem_map.mp h
    exact ⟨e.2, (m.mem_entries_iff e.1 e.2).mp he⟩
  · rintro ⟨v, hv⟩
    exact mem_map_of_mem (f := Prod.fst) ((m.mem_entries_iff k v).mpr hv)

theorem mem_values_iff (m : OrderedMap κ ν) (v : ν) :
    v ∈ m.values ↔ ∃ k, m.get? k = some v := by
  constructor
  · intro h
    obtain ⟨e, he, rfl⟩ := mem_map.mp h
    exact ⟨e.1, (m.mem_entries_iff e.1 e.2).mp he⟩
  · rintro ⟨k, hk⟩
    exact mem_map_of_mem (f := Prod.snd) ((m.mem_entries_iff k v).mpr hk)

theorem has_iff (m : OrderedMap κ ν) (k : κ) : m.has k = true ↔ k ∈ m.keys := by
  rw [mem_keys_iff, has, Option.isSome_iff_exists]

theorem keys_set (m : OrderedMap κ ν) (k : κ) (v : ν) :
    (m.set k v).keys = if k ∈ m.keys then m.keys else m.keys ++ [k] :=
  keys_setEntry k v m.entries

theorem mem_keys_set (m : OrderedMap κ ν) (k k' : κ) (v : ν) :
    k' ∈ (m.set k v).keys ↔ k' = k ∨ k' ∈ m.keys := by
  rw [keys_set]
  split
  · next h => exact ⟨Or.inr, fun h' => h'.elim (fun e => e ▸ h) id⟩
  · simp [or_comm]

theorem setAll_cons (m : OrderedMap κ ν) (e : κ × ν) (es : List (κ × ν)) :
    m.setAll (e :: es) = (m.set e.1 e.2).setAll es := rfl

theorem setAll_append (m : OrderedMap κ ν) (es fs : List (κ × ν)) :
    m.setAll (es ++ fs) = (m.setAll es).setAll fs := foldl_append

/-- The value after setting a list is the last one it gives, else the old one. -/
theorem get?_setAll (m : OrderedMap κ ν) (es : List (κ × ν)) (k : κ) :
    (m.setAll es).get? k = (es.reverse.lookup k).or (m.get? k) := by
  induction es generalizing m with
  | nil => rfl
  | cons e rest ih =>
    rw [setAll_cons, ih, reverse_cons, lookup_append, get?_set]
    by_cases hk : k = e.1
    · subst hk
      cases List.lookup e.1 rest.reverse <;> simp [lookup_cons_eq_ite]
    · simp [lookup_cons_eq_ite, hk]

theorem get?_ofList (es : List (κ × ν)) (k : κ) :
    (ofList es).get? k = es.reverse.lookup k := by
  rw [ofList, get?_setAll]
  simp

theorem mem_keys_setAll (m : OrderedMap κ ν) (es : List (κ × ν)) (k : κ) :
    k ∈ (m.setAll es).keys ↔ k ∈ m.keys ∨ k ∈ es.map Prod.fst := by
  induction es generalizing m with
  | nil => simp [setAll]
  | cons e rest ih =>
    rw [setAll_cons, ih, mem_keys_set, map_cons, mem_cons]
    tauto

theorem mem_keys_ofList (es : List (κ × ν)) (k : κ) :
    k ∈ (ofList es).keys ↔ k ∈ es.map Prod.fst := by
  rw [ofList, mem_keys_setAll]
  simp [keys, empty]

/-- Every value is filed under the key it names. -/
def FiledBy (key : ν → κ) (m : OrderedMap κ ν) : Prop :=
  ∀ k v, m.get? k = some v → key v = k

theorem filedBy_empty (key : ν → κ) : (empty : OrderedMap κ ν).FiledBy key := by
  intro k v h
  simp at h

variable {key : ν → κ} {m : OrderedMap κ ν}

theorem FiledBy.set (h : m.FiledBy key) {k : κ} {v : ν} (hv : key v = k) :
    (m.set k v).FiledBy key := by
  intro k' v' hget
  rw [get?_set] at hget
  split at hget
  · next hk =>
    obtain rfl := Option.some.inj hget
    exact hv.trans hk.symm
  · exact h k' v' hget

theorem filedBy_ofList (key : ν → κ) (vs : List ν) :
    (ofList (vs.map (fun v => (key v, v)))).FiledBy key := by
  have hfold : ∀ (vs : List ν) (m : OrderedMap κ ν), m.FiledBy key →
      (m.setAll (vs.map (fun v => (key v, v)))).FiledBy key := by
    intro vs
    induction vs with
    | nil => exact fun m hm => hm
    | cons v rest ih => exact fun m hm => ih _ (hm.set rfl)
  exact hfold vs empty (filedBy_empty key)

theorem FiledBy.map_values (h : m.FiledBy key) :
    m.values.map key = m.keys := by
  unfold values keys
  rw [map_map]
  exact map_congr_left fun e he => h e.1 e.2 ((m.mem_entries_iff e.1 e.2).mp he)

theorem FiledBy.nodup_values (h : m.FiledBy key) :
    (m.values.map key).Nodup := by
  rw [h.map_values]
  exact m.nodup_keys

theorem FiledBy.get?_of_mem (h : m.FiledBy key) {v : ν} (hv : v ∈ m.values) :
    m.get? (key v) = some v := by
  obtain ⟨k, hk⟩ := (m.mem_values_iff v).mp hv
  rw [h k v hk]
  exact hk

/-- In a list filed by key, the value looked up is the last one with that key. -/
theorem get?_ofList_map (key : ν → κ) (vs : List ν) (k : κ) :
    (ofList (vs.map (fun v => (key v, v)))).get? k =
      vs.reverse.find? (fun v => key v = k) := by
  rw [get?_ofList, ← map_reverse]
  induction vs.reverse with
  | nil => rfl
  | cons v rest ih =>
    rw [map_cons, lookup_cons_eq_ite, ih, find?_cons]
    by_cases hk : k = key v
    · simp [hk]
    · simp [hk, Ne.symm hk]

theorem FiledBy.find?_values (h : m.FiledBy key) (k : κ) :
    m.values.reverse.find? (fun v => key v = k) = m.get? k := by
  cases hfound : m.values.reverse.find? (fun v => key v = k) with
  | none =>
    cases hget : m.get? k with
    | none => rfl
    | some v =>
      have hin : v ∈ m.values.reverse :=
        mem_reverse.mpr ((m.mem_values_iff v).mpr ⟨k, hget⟩)
      exact absurd (by simpa using h k v hget) (find?_eq_none.mp hfound v hin)
  | some v =>
    have hk : key v = k := by simpa using find?_some hfound
    have hin : v ∈ m.values := mem_reverse.mp (mem_of_find?_eq_some hfound)
    rw [← hk]
    exact (h.get?_of_mem hin).symm

theorem mem_of_mem_entries_ofList {es : List (κ × ν)} {e : κ × ν}
    (h : e ∈ (ofList es).entries) : e ∈ es := by
  obtain ⟨k, v⟩ := e
  rw [mem_entries_iff, get?_ofList] at h
  obtain ⟨before, after, heq, -⟩ := lookup_eq_some_iff.mp h
  rw [← mem_reverse, heq]
  exact mem_append_right _ mem_cons_self

/-- Items filed one after the other, each built on what its key holds so far:
a key ends with what its own items build. -/
theorem get?_foldl_set {ι : Type*} (key : ι → κ) (build : Option ν → ι → ν) (items : List ι)
    (m : OrderedMap κ ν) (k : κ) :
    (items.foldl (fun m i => m.set (key i) (build (m.get? (key i)) i)) m).get? k =
      (items.filter (fun i => key i = k)).foldl (fun held i => some (build held i))
        (m.get? k) := by
  induction items generalizing m with
  | nil => rfl
  | cons i rest ih =>
    rw [foldl_cons, ih, filter_cons]
    by_cases hk : key i = k
    · subst hk
      simp [get?_set_self]
    · rw [if_neg (by simpa using hk), get?_set_ne _ _ (Ne.symm hk)]

/-- A map filled from keys with the value each has, if it has one. -/
theorem get?_ofList_filterMap (f : κ → Option ν) (ks : List κ) (k : κ) :
    (ofList (ks.filterMap (fun k => (f k).map (fun v => (k, v))))).get? k =
      if k ∈ ks then f k else none := by
  have hlookup : ∀ ks : List κ,
      (ks.filterMap (fun k => (f k).map (fun v => (k, v)))).lookup k =
        if k ∈ ks then f k else none := by
    intro ks
    induction ks with
    | nil => rfl
    | cons first rest ih =>
      cases hf : f first with
      | none =>
        rw [filterMap_cons_none (by simp [hf]), ih]
        by_cases hk : k = first
        · subst hk
          simp [hf]
        · simp [hk]
      | some v =>
        rw [filterMap_cons_some (b := (first, v)) (by simp [hf]), lookup_cons_eq_ite, ih]
        by_cases hk : k = first
        · subst hk
          simp [hf]
        · simp [hk]
  rw [get?_ofList, ← filterMap_reverse, hlookup]
  simp

theorem FiledBy.find?_front (h : m.FiledBy key) (k : κ) :
    m.values.find? (fun v => key v = k) = m.get? k := by
  cases hget : m.get? k with
  | none =>
    rw [find?_eq_none]
    intro v hv hk
    have hv' := h.get?_of_mem hv
    rw [of_decide_eq_true hk, hget] at hv'
    cases hv'
  | some v =>
    have hk := h k v hget
    have hv : v ∈ m.values := (m.mem_values_iff v).mpr ⟨k, hget⟩
    rw [← hk]
    exact find?_eq_some_of_nodup key h.nodup_values hv

/-- Among the values kept of a filed map, a key finds its own if that is kept. -/
theorem FiledBy.find?_filter (h : m.FiledBy key) (keep : ν → Bool) (k : κ) :
    (m.values.filter keep).reverse.find? (fun v => key v = k) = (m.get? k).filter keep := by
  rw [← filter_reverse, List.find?_filter]
  cases hget : m.get? k with
  | none =>
    rw [Option.filter_none, find?_eq_none]
    intro v hv hk
    have hv' := h.get?_of_mem (mem_reverse.mp hv)
    have hkey : keep v = true ∧ key v = k := by simpa using hk
    rw [hkey.2, hget] at hv'
    cases hv'
  | some v =>
    have hk := h k v hget
    have honly : ∀ v' ∈ m.values.reverse, key v' = k → v' = v := by
      intro v' hv' hk'
      have hget' := h.get?_of_mem (mem_reverse.mp hv')
      rw [hk', hget] at hget'
      exact (Option.some.inj hget').symm
    cases hkeep : keep v with
    | true =>
      rw [Option.filter_some, if_pos hkeep]
      have hv : v ∈ m.values.reverse :=
        mem_reverse.mpr ((m.mem_values_iff v).mpr ⟨k, hget⟩)
      cases hfound : m.values.reverse.find?
          (fun a => keep a = true ∧ decide (key a = k) = true) with
      | none =>
        have hno := find?_eq_none.mp hfound v hv
        exact absurd (by simp [hkeep, hk]) hno
      | some v' =>
        have hkey : keep v' = true ∧ key v' = k := by simpa using find?_some hfound
        rw [honly v' (mem_of_find?_eq_some hfound) hkey.2]
    | false =>
      rw [Option.filter_some, if_neg (by simp [hkeep]), find?_eq_none]
      intro v' hv' hboth
      have hkey : keep v' = true ∧ key v' = k := by simpa using hboth
      have hkept := hkey.1
      rw [honly v' hv' hkey.2, hkeep] at hkept
      cases hkept

theorem get?_ofList_entries {μ : Type*} (m : OrderedMap κ ν) (f : ν → μ) (k : κ) :
    (ofList (m.entries.map (fun e => (e.1, f e.2)))).get? k = (m.get? k).map f := by
  have hkeys : (m.entries.map (fun e => (e.1, f e.2))).map Prod.fst = m.keys := by
    rw [map_map]
    rfl
  have hnodup : ((m.entries.map (fun e => (e.1, f e.2))).reverse.map Prod.fst).Nodup := by
    rw [map_reverse, hkeys]
    exact nodup_reverse.mpr m.nodup_keys
  rw [get?_ofList]
  apply Option.ext
  intro v
  have hmem := mem_entries_iff ⟨_, hnodup⟩ k v
  rw [show (OrderedMap.get? ⟨_, hnodup⟩ k) = List.lookup k
    (m.entries.map (fun e => (e.1, f e.2))).reverse from rfl] at hmem
  rw [← hmem, mem_reverse, mem_map, Option.map_eq_some_iff]
  constructor
  · rintro ⟨e, he, heq⟩
    obtain ⟨rfl, rfl⟩ := Prod.mk.inj heq
    exact ⟨e.2, (mem_entries_iff m e.1 e.2).mp he, rfl⟩
  · rintro ⟨u, hu, rfl⟩
    exact ⟨(k, u), (mem_entries_iff m k u).mpr hu, rfl⟩

def erase (m : OrderedMap κ ν) (k : κ) : OrderedMap κ ν :=
  ⟨m.entries.filter (fun e => e.1 ≠ k), by
    have hsub := filter_sublist (l := m.entries) (p := fun e => decide (e.1 ≠ k))
    exact (hsub.map Prod.fst).nodup m.nodup_keys⟩

theorem get?_erase (m : OrderedMap κ ν) (k k' : κ) :
    (m.erase k).get? k' = if k' = k then none else m.get? k' :=
  lookup_filter_ne k k' m.entries

theorem mem_values_set_of_new (m : OrderedMap κ ν) {k : κ} (v v' : ν) (h : m.get? k = none) :
    v' ∈ (m.set k v).values ↔ v' ∈ m.values ∨ v' = v := by
  simp only [mem_values_iff, get?_set]
  constructor
  · rintro ⟨k', hk'⟩
    by_cases hk : k' = k
    · rw [if_pos hk] at hk'
      exact .inr (Option.some.inj hk').symm
    · rw [if_neg hk] at hk'
      exact .inl ⟨k', hk'⟩
  · rintro (⟨k', hk'⟩ | rfl)
    · have hne : k' ≠ k := by
        intro heq
        rw [heq, h] at hk'
        cases hk'
      exact ⟨k', by rw [if_neg hne]; exact hk'⟩
    · exact ⟨k, if_pos rfl⟩

/-- The entries whose key passes a test. -/
def filterKeys (m : OrderedMap κ ν) (p : κ → Bool) : OrderedMap κ ν :=
  ⟨m.entries.filter (fun e => p e.1), m.nodup_keys.sublist (filter_sublist.map Prod.fst)⟩

/-- The entries whose value passes a test. -/
def filterValues (m : OrderedMap κ ν) (p : ν → Bool) : OrderedMap κ ν :=
  ⟨m.entries.filter (fun e => p e.2), m.nodup_keys.sublist (filter_sublist.map Prod.fst)⟩

theorem get?_filterKeys (m : OrderedMap κ ν) (p : κ → Bool) (k : κ) :
    (m.filterKeys p).get? k = if p k then m.get? k else none := by
  apply Option.ext
  intro v
  rw [← mem_entries_iff]
  change (k, v) ∈ m.entries.filter (fun e => p e.1) ↔ _
  rw [mem_filter, mem_entries_iff]
  by_cases hk : p k <;> simp [hk]

theorem get?_filterValues_eq_some (m : OrderedMap κ ν) (p : ν → Bool) (k : κ) (v : ν) :
    (m.filterValues p).get? k = some v ↔ m.get? k = some v ∧ p v := by
  rw [← mem_entries_iff, ← mem_entries_iff]
  change (k, v) ∈ m.entries.filter (fun e => p e.2) ↔ _
  rw [mem_filter]

variable {κ : Type*}

/-- Every value changed, under its key. -/
def mapValues (m : OrderedMap κ ν) (f : κ → ν → ν) : OrderedMap κ ν :=
  ⟨m.entries.map (fun e => (e.1, f e.1 e.2)), by
    rw [map_map]
    exact m.nodup_keys⟩

variable [DecidableEq κ]

theorem get?_mapValues (m : OrderedMap κ ν) (f : κ → ν → ν) (k : κ) :
    (m.mapValues f).get? k = (m.get? k).map (f k) := by
  change (m.entries.map (fun e => (e.1, f e.1 e.2))).lookup k = (m.entries.lookup k).map (f k)
  induction m.entries with
  | nil => rfl
  | cons e rest ih =>
    rw [map_cons, lookup_cons_eq_ite, lookup_cons_eq_ite, ih]
    by_cases hk : k = e.1
    · rw [hk]
      simp
    · simp [hk]

variable {κ : Type*} [DecidableEq κ]

theorem setEntry_of_lookup {k : κ} {v : ν} {es : List (κ × ν)}
    (h : es.lookup k = some v) : setEntry k v es = es := by
  induction es with
  | nil => cases h
  | cons e rest ih =>
    rw [lookup_cons_eq_ite] at h
    unfold setEntry
    by_cases hk : k = e.1
    · rw [if_pos hk, Option.some.injEq] at h
      rw [if_pos hk.symm, hk, ← h]
    · rw [if_neg hk] at h
      rw [if_neg (Ne.symm hk), ih h]

theorem set_of_get? {m : OrderedMap κ ν} {k : κ} {v : ν}
    (h : m.get? k = some v) : m.set k v = m := by
  obtain ⟨es, hnodup⟩ := m
  unfold set
  congr 1
  exact setEntry_of_lookup h

theorem get?_ofList_of_forall {es : List (κ × ν)} {k : κ}
    {r : Option ν} (h : ∀ v, (k, v) ∈ es ↔ r = some v) :
    (ofList es).get? k = r := by
  cases hget : (ofList es).get? k with
  | some v =>
    exact ((h v).mp (mem_of_mem_entries_ofList ((mem_entries_iff _ _ _).mpr hget))).symm
  | none =>
    cases hvalue : r with
    | none => rfl
    | some v =>
      have hin : k ∈ (ofList es).keys := by
        rw [mem_keys_ofList]
        exact mem_map_of_mem ((h v).mpr hvalue)
      obtain ⟨held, hheld⟩ := (mem_keys_iff _ _).mp hin
      rw [hget] at hheld
      cases hheld

variable {κ M : Type*} [DecidableEq κ] [AddCommMonoid M]

/-- Setting a key replaces what its entry weighed. -/
theorem sum_entries_set (m : OrderedMap κ ν) (k : κ) (v : ν) (weight : κ × ν → M) :
    ((m.set k v).entries.map weight).sum + ((m.get? k).map (fun old => weight (k, old))).getD 0 =
      (m.entries.map weight).sum + weight (k, v) := by
  obtain ⟨es, hes⟩ := m
  change ((setEntry k v es).map weight).sum +
    ((es.lookup k).map (fun old => weight (k, old))).getD 0 = (es.map weight).sum + weight (k, v)
  clear hes
  induction es with
  | nil => simp [setEntry]
  | cons e rest ih =>
    obtain ⟨key, old⟩ := e
    rw [lookup_cons_eq_ite]
    unfold setEntry
    by_cases hk : key = k
    · subst hk
      rw [if_pos rfl, if_pos rfl]
      simp only [map_cons, sum_cons, Option.map_some, Option.getD_some]
      ac_rfl
    · rw [if_neg hk, if_neg (fun h => hk h.symm)]
      simp only [map_cons, sum_cons]
      rw [add_assoc, ih, add_assoc]

/-- Updating an entry, or a weightless default in its place, changes only its own weight. -/
theorem sum_entries_update (m : OrderedMap κ ν) (k : κ) (default : ν) (update : ν → ν)
    (weight : κ × ν → M) (hdefault : weight (k, default) = 0) :
    ((m.set k (update ((m.get? k).getD default))).entries.map weight).sum +
        weight (k, (m.get? k).getD default) =
      (m.entries.map weight).sum + weight (k, update ((m.get? k).getD default)) := by
  have hset := m.sum_entries_set k (update ((m.get? k).getD default)) weight
  cases hget : m.get? k with
  | none =>
    rw [hget] at hset
    rw [Option.getD_none, hdefault]
    exact hset
  | some old =>
    rw [hget] at hset
    exact hset

end OrderedMap

end SlashWho
