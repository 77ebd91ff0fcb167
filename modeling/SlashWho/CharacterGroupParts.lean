import SlashWho.CharacterGroups

/-!
The parts of a recompute. The walk visits what its seed reaches over counting links
and present groups, and has every counting link among them; the components over those
links are the visited characters, divided by what the counting links join.
-/

namespace SlashWho.CharacterGroupParts

open List

open ApplicantLinks CharacterGroups ComparatorSort Connectivity KeyedBuckets LinkForest OrderedMap
open Relation

variable (tables : CountingTables)

variable {link : ℕ × ℕ}

theorem mem_countingLinksFrom {ids : List ℕ} :
    link ∈ countingLinksFrom tables ids ↔
      link ∈ rebuildEdges tables ∧ (link.1 ∈ ids ∨ link.2 ∈ ids) := by
  unfold countingLinksFrom rebuildEdges
  simp only [mem_eraseDups, mem_append, mem_map, mem_filter,
    Bool.and_eq_true, Bool.or_eq_true, contains_iff_mem]
  constructor
  · intro h
    rcases h with ⟨row, ⟨hrow, ⟨hkind, htouch⟩, hrejected⟩, hlink⟩ | ⟨hmanual, htouch⟩
    · rw [← hlink]
      exact ⟨.inl ⟨row, ⟨hrow, hkind, hrejected⟩, rfl⟩, htouch⟩
    · exact ⟨.inr hmanual, htouch⟩
  · intro h
    obtain ⟨⟨row, ⟨hrow, hkind, hrejected⟩, hlink⟩ | hmanual, htouch⟩ := h
    · rw [← hlink] at htouch
      exact .inl ⟨row, ⟨hrow, ⟨hkind, htouch⟩, hrejected⟩, hlink⟩
    · exact .inr ⟨hmanual, htouch⟩

theorem mem_resolveManual {characters : List CharacterRow} {rows : List ManualConnection} :
    link ∈ resolveManual characters rows ↔ ∃ manual ∈ rows, ∃ target ∈ characters,
      target.key = manual.connected ∧ target.id ≠ manual.rootCharacterId ∧
        link = (manual.rootCharacterId, target.id) := by
  unfold resolveManual
  simp only [mem_flatMap, mem_map, mem_filter, Bool.and_eq_true,
    decide_eq_true_eq]
  constructor
  · intro h
    obtain ⟨manual, hmanual, target, ⟨htarget, hkey, hne⟩, hlink⟩ := h
    exact ⟨manual, hmanual, target, htarget, hkey, hne, hlink.symm⟩
  · intro h
    obtain ⟨manual, hmanual, target, htarget, hkey, hne, hlink⟩ := h
    exact ⟨manual, hmanual, target, ⟨htarget, hkey, hne⟩, hlink.symm⟩

theorem ends_of_mem (h : link ∈ rebuildEdges tables) :
    link.1 ∈ tables.ids ∧ link.2 ∈ tables.ids := by
  unfold rebuildEdges at h
  rw [mem_eraseDups, mem_append] at h
  rcases h with h | h
  · obtain ⟨row, hrow, hlink⟩ := mem_map.mp h
    rw [← hlink]
    exact tables.connected row (mem_of_mem_filter hrow)
  · obtain ⟨manual, hmanual, target, htarget, -, -, hlink⟩ := mem_resolveManual.mp h
    rw [hlink]
    exact ⟨tables.rooted manual hmanual, mem_map_of_mem htarget⟩

theorem beside_ids {x y : ℕ} (h : Beside (rebuildEdges tables) x y) :
    x ∈ tables.ids ∧ y ∈ tables.ids := by
  rcases beside_iff.mp h with hin | hin
  · exact ends_of_mem tables hin
  · exact (ends_of_mem tables hin).symm

theorem joined_ids {x y : ℕ} (h : Joined (rebuildEdges tables) x y) (hx : x ∈ tables.ids) :
    y ∈ tables.ids := by
  rw [← reflTransGen_beside] at h
  induction h with
  | refl => exact hx
  | tail _ hstep _ => exact (beside_ids tables hstep).2

variable {V : Type} [LinearOrder V] {nodes : List V} {links : List (V × V)}

theorem unites_nodes (nodes : List V) :
    Unites ([] : List (V × V)) (nodes.foldl ensure .empty) ∧
      ∀ x, x ∈ (nodes.foldl ensure (.empty : OrderedMap V V)).keys ↔ x ∈ nodes := by
  have hfold : ∀ (nodes : List V) (parent : OrderedMap V V), Unites [] parent →
      Unites [] (nodes.foldl ensure parent) ∧
        ∀ x, x ∈ (nodes.foldl ensure parent).keys ↔ x ∈ parent.keys ∨ x ∈ nodes := by
    intro nodes
    induction nodes with
    | nil =>
      intro parent h
      exact ⟨h, fun x => by simp⟩
    | cons node rest ih =>
      intro parent h
      obtain ⟨hrest, hkeys⟩ := ih (ensure parent node) (h.ensure node)
      refine ⟨hrest, ?_⟩
      intro x
      rw [foldl_cons, hkeys, (h.forest.ensure node).2.1, mem_cons, or_assoc]
  obtain ⟨hunites, hkeys⟩ := hfold nodes .empty unites_empty
  refine ⟨hunites, ?_⟩
  intro x
  rw [hkeys]
  simp [OrderedMap.keys, OrderedMap.empty]

/-- The forest the components are read from. -/
theorem unites_links (hends : ∀ link ∈ links, link.1 ∈ nodes ∧ link.2 ∈ nodes) :
    Unites links.reverse (links.foldl unite (nodes.foldl ensure .empty)) ∧
      ∀ x, x ∈ (links.foldl unite (nodes.foldl ensure .empty)).keys ↔ x ∈ nodes := by
  obtain ⟨hstart, hkeys⟩ := unites_nodes nodes
  have hfold : ∀ (links done : List (V × V)) (parent : OrderedMap V V), Unites done parent →
      (∀ x, x ∈ parent.keys ↔ x ∈ nodes) →
      (∀ link ∈ links, link.1 ∈ nodes ∧ link.2 ∈ nodes) →
      Unites (links.reverse ++ done) (links.foldl unite parent) ∧
        ∀ x, x ∈ (links.foldl unite parent).keys ↔ x ∈ nodes := by
    intro links
    induction links with
    | nil =>
      intro done parent h hin _
      exact ⟨h, hin⟩
    | cons link rest ih =>
      intro done parent h hin hends
      obtain ⟨a, b⟩ := link
      obtain ⟨hone, hkeysOne⟩ := h.unite a b
      have hnodes : ∀ x, x ∈ (unite parent (a, b)).keys ↔ x ∈ nodes := by
        intro x
        rw [hkeysOne, hin]
        obtain ⟨ha, hb⟩ := hends (a, b) mem_cons_self
        constructor
        · intro hx
          rcases hx with hx | hx | hx
          · exact hx
          · rw [hx]
            exact ha
          · rw [hx]
            exact hb
        · exact .inl
      have hrest := ih _ _ hone hnodes (fun link hlink => hends link (mem_cons_of_mem _ hlink))
      rw [foldl_cons, reverse_cons, append_assoc]
      exact hrest
  have hall := hfold links [] _ hstart hkeys hends
  rw [append_nil] at hall
  exact hall

/-- Reading every root files the nodes under their roots, whatever the walks compress. -/
theorem foldl_find {parent₀ parent : OrderedMap V V} (h : SameRoots parent₀ parent)
    {ids : List V} (hids : ∀ id ∈ ids, id ∈ parent₀.keys) (byRoot : OrderedMap V (List V)) :
    (ids.foldl (fun (acc : OrderedMap V (List V) × OrderedMap V V) id =>
        (acc.1.set (find acc.2 id).1 ((acc.1.get? (find acc.2 id).1).getD [] ++ [id]),
          (find acc.2 id).2)) (byRoot, parent)).1 =
      ids.foldl (appendToBucket (rootOf parent₀)) byRoot := by
  induction ids generalizing parent byRoot with
  | nil => rfl
  | cons id rest ih =>
    rw [foldl_cons, foldl_cons]
    have hid : id ∈ parent.keys := by
      rw [h.keys]
      exact hids id mem_cons_self
    have hroot : (find parent id).1 = rootOf parent₀ id := h.roots id
    rw [ih (h.trans (h.forest.find hid)) (fun id hid => hids id (mem_cons_of_mem _ hid)),
      hroot]
    rfl

/-- A division of nodes into the classes of what some links join. -/
structure Divides (nodes : List V) (links : List (V × V)) (parts : List (List V)) : Prop where
  nonempty : ∀ part ∈ parts, part ≠ []
  covers : ∀ x ∈ nodes, ∃ part ∈ parts, x ∈ part
  inside : ∀ part ∈ parts, ∀ x ∈ part, x ∈ nodes
  joined : ∀ part ∈ parts, ∀ x ∈ part, ∀ y ∈ nodes, (y ∈ part ↔ Joined links x y)
  apart : parts.Pairwise (fun part other => ∀ x ∈ part, x ∉ other)

theorem divides_buckets {parent : OrderedMap V V} (h : Unites links parent) :
    Divides parent.keys links (bucketsBy (rootOf parent) parent.keys).values := by
  have hvalues : (bucketsBy (rootOf parent) parent.keys).values =
      (bucketsBy (rootOf parent) parent.keys).keys.map (fun k =>
        parent.keys.filter (fun x => rootOf parent x = k)) := by
    unfold OrderedMap.values
    rw [entries_eq_map_keys, List.map_map]
    rfl
  rw [hvalues]
  refine ⟨?_, ?_, ?_, ?_, ?_⟩
  · intro part hpart
    obtain ⟨k, hk, hpart⟩ := mem_map.mp hpart
    obtain ⟨x, hx, hroot⟩ := (mem_keys_bucketsBy (rootOf parent)).mp hk
    rw [← hpart]
    exact ne_nil_of_mem (mem_filter.mpr ⟨hx, decide_eq_true hroot⟩)
  · intro x hx
    refine ⟨_, mem_map_of_mem ((mem_keys_bucketsBy (rootOf parent)).mpr ⟨x, hx, rfl⟩), ?_⟩
    exact mem_filter.mpr ⟨hx, decide_eq_true rfl⟩
  · intro part hpart x hx
    obtain ⟨k, -, hpart⟩ := mem_map.mp hpart
    rw [← hpart] at hx
    exact mem_of_mem_filter hx
  · intro part hpart x hx y hy
    obtain ⟨k, -, hpart⟩ := mem_map.mp hpart
    rw [← hpart] at hx ⊢
    obtain ⟨hx, hxk⟩ := mem_filter.mp hx
    rw [decide_eq_true_eq] at hxk
    rw [mem_filter, decide_eq_true_eq, ← h.joined x hx y hy, hxk]
    constructor
    · intro hin
      exact hin.2.symm
    · intro hk
      exact ⟨hy, hk.symm⟩
  · rw [pairwise_map]
    apply (bucketsBy (rootOf parent) parent.keys).nodup_keys.imp
    intro k k' hne x hx hx'
    have hk := (mem_filter.mp hx).2
    have hk' := (mem_filter.mp hx').2
    rw [decide_eq_true_eq] at hk hk'
    exact hne (hk.symm.trans hk')

omit [LinearOrder V] in
theorem Divides.congr {nodes nodes' : List V} {links links' : List (V × V)}
    {parts : List (List V)} (h : Divides nodes links parts)
    (hnodes : ∀ x, x ∈ nodes ↔ x ∈ nodes')
    (hlinks : ∀ x ∈ nodes, ∀ y ∈ nodes, (Joined links x y ↔ Joined links' x y)) :
    Divides nodes' links' parts := by
  refine ⟨h.nonempty, ?_, ?_, ?_, h.apart⟩
  · intro x hx
    exact h.covers x ((hnodes x).mpr hx)
  · intro part hpart x hx
    exact (hnodes x).mp (h.inside part hpart x hx)
  · intro part hpart x hx y hy
    have hy' := (hnodes y).mpr hy
    rw [h.joined part hpart x hx y hy', hlinks x (h.inside part hpart x hx) y hy']

/-- Sorting the parts and each part divides alike. -/
theorem Divides.sorted {parts : List (List V)} (h : Divides nodes links parts)
    {parts' : List (List V)} (hperm : List.Perm parts' (parts.map (sortBy compare))) :
    Divides nodes links parts' := by
  have hmem : ∀ part ∈ parts', ∃ old ∈ parts, ∀ x, x ∈ part ↔ x ∈ old := by
    intro part hpart
    obtain ⟨old, hold, heq⟩ := mem_map.mp (hperm.mem_iff.mp hpart)
    refine ⟨old, hold, ?_⟩
    intro x
    rw [← heq, mem_sortBy]
  refine ⟨?_, ?_, ?_, ?_, ?_⟩
  · intro part hpart
    obtain ⟨old, hold, hsame⟩ := hmem part hpart
    obtain ⟨x, hx⟩ := exists_mem_of_ne_nil _ (h.nonempty old hold)
    exact ne_nil_of_mem ((hsame x).mpr hx)
  · intro x hx
    obtain ⟨part, hpart, hin⟩ := h.covers x hx
    refine ⟨sortBy compare part, hperm.mem_iff.mpr (mem_map_of_mem hpart), ?_⟩
    rw [mem_sortBy]
    exact hin
  · intro part hpart x hx
    obtain ⟨old, hold, hsame⟩ := hmem part hpart
    exact h.inside old hold x ((hsame x).mp hx)
  · intro part hpart x hx y hy
    obtain ⟨old, hold, hsame⟩ := hmem part hpart
    rw [hsame]
    exact h.joined old hold x ((hsame x).mp hx) y hy
  · have hsorted : (parts.map (sortBy compare)).Pairwise
        (fun part other => ∀ x ∈ part, x ∉ other) := by
      rw [pairwise_map]
      apply h.apart.imp
      intro part other hapart x hx
      rw [mem_sortBy] at hx ⊢
      exact hapart x hx
    apply hperm.symm.pairwise hsorted
    intro part other hapart x hx hx'
    exact hapart x hx' hx

theorem divides_components (hends : ∀ link ∈ links, link.1 ∈ nodes ∧ link.2 ∈ nodes) :
    Divides nodes links (components nodes links) := by
  obtain ⟨hunites, hkeys⟩ := unites_links hends
  have hbuckets := foldl_find hunites.forest.sameRoots (fun id hid => hid) .empty
  have hperm : List.Perm (components nodes links)
      ((bucketsBy (rootOf (links.foldl unite (nodes.foldl ensure .empty)))
        (links.foldl unite (nodes.foldl ensure .empty)).keys).values.map (sortBy compare)) := by
    unfold components bucketsBy
    rw [← hbuckets]
    exact perm_sortBy byHead _
  apply ((divides_buckets hunites).sorted hperm).congr hkeys
  intro x _ y _
  apply joined_congr
  intro link
  rw [mem_reverse]

end SlashWho.CharacterGroupParts
