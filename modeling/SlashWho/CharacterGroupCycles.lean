import SlashWho.CharacterGroupRecomputes

/-!
Rebuilding against recomputing. A rebuild leaves every character's group as what the
counting links join it to, labelled with the lowest id. A maintenance cycle comes to
the same division from any groups: what lies behind its cursor is clean, a recompute
keeps it so, and a cycle that ends has nothing ahead. A recompute of a clean group
changes no group and no member.
-/

namespace SlashWho.CharacterGroupCycles

open List

open CharacterGroupParts CharacterGroupRecomputes CharacterGroups ComparatorSort Connectivity
open OrderedMap Relation Runs

section Rebuilding
variable (tables : CountingTables)

/-- The steps of the recursive query: from one start, along an edge. -/
def ReachStep (row next : ℕ × ℕ) : Prop :=
  next.1 = row.1 ∧ Beside (rebuildEdges tables) row.2 next.2

theorem mem_undirected {edges : List (ℕ × ℕ)} {a b : ℕ} :
    (a, b) ∈ undirected edges ↔ Beside edges a b := by
  unfold undirected
  rw [mem_eraseDups, mem_append, mem_map, beside_iff]
  constructor
  · intro h
    rcases h with h | ⟨⟨c, d⟩, hin, heq⟩
    · exact .inl h
    · obtain ⟨hda, hcb⟩ := Prod.mk.inj heq
      rw [← hda, ← hcb]
      exact .inr hin
  · intro h
    rcases h with h | h
    · exact .inl h
    · exact .inr ⟨(b, a), h, rfl⟩

theorem reachRound_spec (start : List (ℕ × ℕ)) (s : Reach) (_ : True)
    (h : Searched (ReachStep tables) start s.rows s.working) :
    True ∧ Searched (ReachStep tables) start (reachRound tables s).rows
        (reachRound tables s).working ∧
      (reachRound tables s).rows = s.rows ++ (reachRound tables s).working := by
  refine ⟨trivial, h.round ?_ (nodup_eraseDups _), rfl⟩
  intro row
  simp only [mem_eraseDups, mem_filter, mem_flatMap, mem_map,
    Bool.not_eq_true', decide_eq_true_eq]
  rw [← Bool.not_eq_true, contains_iff_mem]
  constructor
  · intro hrow
    obtain ⟨⟨last, hlast, ⟨a, b⟩, ⟨hedge, ha⟩, heq⟩, hnew⟩ := hrow
    refine ⟨⟨last, hlast, ?_⟩, hnew⟩
    rw [← heq]
    simp only at ha
    rw [ha] at hedge
    exact ⟨rfl, mem_undirected.mp hedge⟩
  · intro hrow
    obtain ⟨⟨last, hlast, hstart, hbeside⟩, hnew⟩ := hrow
    refine ⟨⟨last, hlast, (last.2, row.2), ⟨mem_undirected.mpr hbeside, rfl⟩, ?_⟩, hnew⟩
    exact Prod.ext hstart.symm rfl

variable {c : ℕ}

theorem reachStep_iff {x s n : ℕ} :
    ReflTransGen (ReachStep tables) (c, x) (s, n) ↔
      s = c ∧ ReflTransGen (Beside (rebuildEdges tables)) x n := by
  constructor
  · intro h
    generalize hrow : (s, n) = row at h
    induction h generalizing s n with
    | refl =>
      obtain ⟨hs, hn⟩ := Prod.mk.inj hrow
      rw [hs, hn]
      exact ⟨rfl, .refl⟩
    | @tail before last _ hstep ih =>
      obtain ⟨hstart, hbeside⟩ := hstep
      obtain ⟨hs, hpath⟩ := ih (s := before.1) (n := before.2) rfl
      rw [← hrow] at hstart hbeside
      exact ⟨hstart.trans hs, hpath.tail hbeside⟩
  · intro h
    obtain ⟨hs, hpath⟩ := h
    rw [hs]
    induction hpath with
    | refl => exact .refl
    | tail _ hstep ih => exact ih.tail ⟨rfl, hstep⟩

/-- The query returns each character with what the links join it to. -/
theorem mem_reach {n : ℕ} :
    (c, n) ∈ reach tables ↔ c ∈ tables.ids ∧ Joined (rebuildEdges tables) c n := by
  have hnodup : (tables.ids.map (fun id => (id, id))).Nodup := by
    apply tables.distinct.map
    intro a b hab
    exact (Prod.mk.inj hab).1
  have hwhole : ∀ row ∈ tables.ids.map (fun id => (id, id)),
      row ∈ tables.ids ×ˢ tables.ids := by
    intro row hrow
    obtain ⟨id, hid, heq⟩ := mem_map.mp hrow
    rw [← heq]
    exact mem_product.mpr ⟨hid, hid⟩
  have hclosed : ∀ row next, row ∈ tables.ids ×ˢ tables.ids → ReachStep tables row next →
      next ∈ tables.ids ×ˢ tables.ids := by
    intro row next hrow hstep
    obtain ⟨a, b⟩ := row
    obtain ⟨c, d⟩ := next
    obtain ⟨hsame, hbeside⟩ := hstep
    simp only at hsame
    rw [hsame]
    exact mem_product.mpr ⟨(mem_product.mp hrow).1, (beside_ids tables hbeside).2⟩
  have hends := searched_rounds Reach.rows Reach.working (fun _ => false) (reachRound tables)
    (fun _ => True) hwhole hclosed (reachRound_spec tables _) trivial
    (searched_start (ReachStep tables) hnodup)
    (s := ⟨tables.ids.map (fun id => (id, id)), tables.ids.map (fun id => (id, id))⟩)
    (show (tables.ids ×ˢ tables.ids).length <
      tables.ids.length * tables.ids.length + 1 + (tables.ids.map (fun id => (id, id))).length by
        rw [length_product]; omega)
  obtain ⟨-, hsearched, hnone⟩ := hends
  rw [hnone.resolve_right Bool.false_ne_true] at hsearched
  have hmem := hsearched.mem_iff (x := (c, n))
  unfold reach
  simp only
  rw [hmem, ← reflTransGen_beside]
  constructor
  · intro h
    obtain ⟨seed, hseed, hreach⟩ := h
    obtain ⟨id, hid, heq⟩ := mem_map.mp hseed
    rw [← heq, reachStep_iff] at hreach
    rw [hreach.1]
    exact ⟨hid, hreach.2⟩
  · intro h
    exact ⟨(c, c), mem_map_of_mem h.1, (reachStep_iff tables).mpr ⟨rfl, h.2⟩⟩

/-- A character's label is the lowest id it is joined to. -/
theorem get?_rebuildGroups {clock : ℤ} {groupId : ℕ} :
    (rebuildGroups tables clock).members.get? c = some groupId ↔
      c ∈ tables.ids ∧ Joined (rebuildEdges tables) c groupId ∧
        ∀ n, Joined (rebuildEdges tables) c n → groupId ≤ n := by
  have hstarts : c ∈ ((reach tables).map Prod.fst).eraseDups ↔ c ∈ tables.ids := by
    rw [mem_eraseDups, mem_map]
    constructor
    · intro h
      obtain ⟨⟨a, b⟩, hin, heq⟩ := h
      rw [← heq]
      exact ((mem_reach tables).mp hin).1
    · intro h
      exact ⟨(c, c), (mem_reach tables).mpr ⟨h, joined_refl _ c⟩, rfl⟩
  have hnodes : ∀ n, n ∈ ((reach tables).filter (fun row => row.1 = c)).map Prod.snd ↔
      c ∈ tables.ids ∧ Joined (rebuildEdges tables) c n := by
    intro n
    rw [mem_map, ← mem_reach]
    constructor
    · intro h
      obtain ⟨⟨a, b⟩, hin, heq⟩ := h
      obtain ⟨hin, ha⟩ := mem_filter.mp hin
      simp only [decide_eq_true_eq] at ha heq
      rw [← ha, ← heq]
      exact hin
    · intro h
      exact ⟨(c, n), mem_filter.mpr ⟨h, decide_eq_true rfl⟩, rfl⟩
  unfold rebuildGroups labelled
  simp only
  rw [get?_ofList_filterMap (fun start =>
    (((reach tables).filter (fun row => row.1 = start)).map Prod.snd).min?)]
  by_cases hc : c ∈ tables.ids
  · rw [if_pos (hstarts.mpr hc), min?_eq_some_iff, hnodes]
    constructor
    · intro h
      exact ⟨hc, h.1.2, fun n hn => h.2 n ((hnodes n).mpr ⟨hc, hn⟩)⟩
    · intro h
      exact ⟨⟨hc, h.2.1⟩, fun n hn => h.2.2 n ((hnodes n).mp hn).2⟩
  · rw [if_neg (fun h => hc (hstarts.mp h))]
    constructor
    · intro h
      cases h
    · intro h
      exact absurd h.1 hc

theorem clean_rebuildGroups (clock : ℤ) (hc : c ∈ tables.ids) :
    Clean tables (rebuildGroups tables clock) c := by
  classical
  -- every component has a lowest id
  have hleast := Nat.find_spec (p := fun n => Joined (rebuildEdges tables) c n)
    ⟨c, joined_refl _ c⟩
  refine ⟨Nat.find ⟨c, joined_refl (rebuildEdges tables) c⟩, ?_, ?_⟩
  · rw [get?_rebuildGroups]
    exact ⟨hc, hleast, fun n hn => Nat.find_min' _ hn⟩
  · intro y
    rw [get?_rebuildGroups]
    constructor
    · intro h
      exact hleast.trans h.2.1.symm
    · intro hy
      refine ⟨joined_ids tables hy hc, hy.symm.trans hleast, ?_⟩
      intro n hn
      exact Nat.find_min' _ (hy.trans hn)

theorem sound_rebuildGroups (clock : ℤ) : Sound tables (rebuildGroups tables clock) := by
  have hids : (rebuildGroups tables clock).groupIds =
      ((labelled tables).map Prod.snd).eraseDups := by
    unfold rebuildGroups GroupTables.groupIds
    rw [List.map_map]
    exact map_id _
  refine ⟨?_, ?_⟩
  · rw [hids]
    exact nodup_eraseDups _
  · intro x groupId hx
    refine ⟨((get?_rebuildGroups tables).mp hx).1, ?_⟩
    rw [hids, mem_eraseDups]
    have hin := mem_of_mem_entries_ofList ((mem_entries_iff _ _ _).mpr hx)
    exact mem_map_of_mem (f := Prod.snd) hin

end Rebuilding

section Recomputing
variable {tables : CountingTables} {seed : ℕ} {before after : GroupTables} {visited : List ℕ}

theorem visited_of_joined (h : Recomputes tables seed before after visited) {x y : ℕ}
    (hx : x ∈ visited) (hjoined : Joined (rebuildEdges tables) x y) : y ∈ visited := by
  rw [← reflTransGen_beside] at hjoined
  induction hjoined with
  | refl => exact hx
  | tail _ hstep ih => exact h.touching _ ih _ (.inl hstep)

theorem clean_of_not_visited (h : Recomputes tables seed before after visited) {x : ℕ}
    (hx : x ∉ visited) (hclean : Clean tables before x) : Clean tables after x := by
  obtain ⟨groupId, hgroup, hsame⟩ := hclean
  have hout : ∀ y, Joined (rebuildEdges tables) x y → y ∉ visited := by
    intro y hjoined hy
    exact hx (visited_of_joined h hy hjoined.symm)
  refine ⟨groupId, ?_, ?_⟩
  · rw [h.others x hx]
    exact hgroup
  · intro y
    rw [← hsame y]
    by_cases hy : y ∈ visited
    · apply iff_of_false
      · intro hgroupY
        obtain ⟨groupId', hgroup', hsame'⟩ := h.clean y hy
        rw [hgroup'] at hgroupY
        have hxGroup : after.members.get? x = some groupId' := by
          rw [h.others x hx, hgroup, Option.some.inj hgroupY]
        exact hout y ((hsame' x).mp hxGroup).symm hy
      · intro hgroupY
        exact hout y ((hsame y).mp hgroupY) hy
    · rw [h.others y hy]

variable {groupId : ℕ}

theorem eraseDups_of_all_eq {l : List ℕ} (hne : l ≠ []) (hall : ∀ x ∈ l, x = groupId) :
    l.eraseDups = [groupId] := by
  cases l with
  | nil => exact absurd rfl hne
  | cons a rest =>
    have ha := hall a mem_cons_self
    have hrest : rest.filter (fun b => !b == a) = [] := by
      rw [filter_eq_nil_iff]
      intro b hb
      rw [hall b (mem_cons_of_mem _ hb), ha]
      simp
    rw [eraseDups_cons, hrest, ha]
    rfl

theorem assignGroupIds_single {part : List ℕ} {membership : OrderedMap ℕ ℕ}
    {rows : OrderedMap ℕ GroupRow} {row : GroupRow} (hne : part ≠ [])
    (hall : ∀ x ∈ part, membership.get? x = some groupId) (hrow : rows.get? groupId = some row)
    (hid : row.id = groupId) :
    assignGroupIds [part] membership rows = ([⟨some groupId, sortBy compare part⟩], []) := by
  have hsorted : ∀ x ∈ sortBy compare part, membership.get? x = some groupId := by
    intro x hx
    exact hall x ((mem_sortBy _).mp hx)
  have hneSorted : sortBy compare part ≠ [] := by
    rw [ne_eq, sortBy_eq_nil]
    exact hne
  have hgroups : ((sortBy compare part).filterMap membership.get?).eraseDups = [groupId] := by
    apply eraseDups_of_all_eq
    · obtain ⟨x, hx⟩ := exists_mem_of_ne_nil _ hneSorted
      exact ne_nil_of_mem (mem_filterMap.mpr ⟨x, hx, hsorted x hx⟩)
    · intro id hin
      obtain ⟨x, hx, hget⟩ := mem_filterMap.mp hin
      rw [hsorted x hx] at hget
      exact (Option.some.inj hget).symm
  have hheir : heir membership [sortBy compare part] groupId = some 0 := by
    have hheld : (sortBy compare part).filter (fun id => membership.get? id = some groupId) =
        sortBy compare part := by
      rw [filter_eq_self]
      intro x hx
      exact decide_eq_true (hsorted x hx)
    unfold heir
    simp only [zipIdx_cons, zipIdx_nil, foldl_cons, foldl_nil, hheld]
    cases hcases : sortBy compare part with
    | nil => exact absurd hcases hneSorted
    | cons lowest others => rfl
  have hone : ∀ cmp : GroupRow → GroupRow → Ordering, sortBy cmp [row] = [row] := fun _ => rfl
  unfold assignGroupIds
  simp only [map_cons, map_nil, flatten_cons, flatten_nil, append_nil,
    hgroups, hheir, zipIdx_cons, zipIdx_nil]
  simp [hrow, hone, hid]

theorem touching_clean (hgroup : before.members.get? seed = some groupId)
    (hsame : ∀ y, before.members.get? y = some groupId ↔ Joined (rebuildEdges tables) seed y)
    {x : ℕ} (hreach : ReflTransGen (Touching tables before.members) seed x) :
    before.members.get? x = some groupId := by
  induction hreach with
  | refl => exact hgroup
  | @tail y z _ hstep ih =>
    rcases hstep with hbeside | ⟨groupId', hy, hz⟩
    · apply (hsame z).mpr
      have hyz : Joined (rebuildEdges tables) y z := by
        rw [← reflTransGen_beside]
        exact .single hbeside
      exact ((hsame y).mp ih).trans hyz
    · rw [ih] at hy
      rw [hz, ← Option.some.inj hy]

theorem single_part {nodes : List ℕ} {links : List (ℕ × ℕ)} {parts : List (List ℕ)}
    (h : Divides nodes links parts) {x : ℕ} (hx : x ∈ nodes)
    (hjoined : ∀ y ∈ nodes, ∀ z ∈ nodes, Joined links y z) : ∃ part, parts = [part] := by
  obtain ⟨part, hpart, hxpart⟩ := h.covers x hx
  cases hparts : parts with
  | nil =>
    rw [hparts] at hpart
    exact absurd hpart not_mem_nil
  | cons first rest =>
    cases rest with
    | nil => exact ⟨first, rfl⟩
    | cons second rest =>
      have hapart := h.apart
      have hin₁ : first ∈ parts := by simp [hparts]
      have hin₂ : second ∈ parts := by simp [hparts]
      obtain ⟨y, hy⟩ := exists_mem_of_ne_nil _ (h.nonempty first hin₁)
      obtain ⟨z, hz⟩ := exists_mem_of_ne_nil _ (h.nonempty second hin₂)
      have hzNodes := h.inside second hin₂ z hz
      have hyNodes := h.inside first hin₁ y hy
      have hzFirst := (h.joined first hin₁ y hy z hzNodes).mpr (hjoined y hyNodes z hzNodes)
      rw [hparts, pairwise_cons] at hapart
      exact absurd hz (hapart.1 second mem_cons_self z hzFirst)

theorem recompute_clean (supply : IdSupply) (clock : ℤ) (hseed : seed ∈ tables.ids)
    (hbefore : Sound tables before) (hclean : Clean tables before seed) :
    (recomputeComponent tables supply clock seed before).groups.groupIds = before.groupIds ∧
      ∀ x, (recomputeComponent tables supply clock seed before).groups.members.get? x =
        before.members.get? x := by
  have hclosed := closed_closure hseed (fun x groupId hx => (hbefore.stored x groupId hx).1)
  obtain ⟨groupId, hgroup, hsame⟩ := hclean
  have hall : ∀ x ∈ (closure tables before.members seed).nodes,
      before.members.get? x = some groupId :=
    fun x hx => touching_clean hgroup hsame (hclosed.reached x hx)
  obtain ⟨part, hparts⟩ := single_part hclosed.divides hclosed.visited (fun y hy z hz =>
    ((hsame y).mp (hall y hy)).symm.trans ((hsame z).mp (hall z hz)))
  have hpart := hclosed.divides
  rw [hparts] at hpart
  have hne := hpart.nonempty part mem_cons_self
  have hinside : ∀ x ∈ part, (before.members.filterKeys
      (closure tables before.members seed).nodes.contains).get? x = some groupId := by
    intro x hx
    have hxNodes := hpart.inside part mem_cons_self x hx
    rw [get?_filterKeys, if_pos (contains_iff_mem.mpr hxNodes)]
    exact hall x hxNodes
  -- the group's row is among those read
  obtain ⟨row, hrow⟩ : ∃ row, (OrderedMap.ofList ((before.groups.filter (fun row =>
      (before.members.filterKeys
        (closure tables before.members seed).nodes.contains).values.contains row.id)).map
          (fun row => (row.id, row)))).get? groupId = some row := by
    rw [← mem_keys_iff, mem_keys_ofList, List.map_map, mem_map]
    obtain ⟨row, hin, hid⟩ := mem_map.mp (hbefore.stored seed groupId hgroup).2
    refine ⟨row, mem_filter.mpr ⟨hin, ?_⟩, hid⟩
    rw [contains_iff_mem, mem_values_iff]
    refine ⟨seed, ?_⟩
    rw [get?_filterKeys, if_pos (contains_iff_mem.mpr hclosed.visited), hgroup, ← hid]
  have hassigns := assignGroupIds_single hne hinside hrow (get?_rows hrow).1
  unfold recomputeComponent
  simp only
  rw [hparts, hassigns]
  simp only [foldl_cons, foldl_nil]
  obtain ⟨groupId', hgives, hmembers⟩ := assign_spec supply clock before
    ⟨some groupId, sortBy compare part⟩
  rcases hgives with ⟨hsome, hids⟩ | ⟨hnone, -⟩
  · have hdelete : ∀ groups : GroupTables, (deleteGroups [] groups).groupIds = groups.groupIds ∧
        ∀ x, (deleteGroups [] groups).members.get? x = groups.members.get? x := by
      intro groups
      refine ⟨?_, ?_⟩
      · rw [groupIds_deleteGroups]
        simp
      · intro x
        apply Option.ext
        intro v
        rw [get?_deleteGroups]
        simp
    refine ⟨(hdelete _).1.trans hids, ?_⟩
    intro x
    rw [(hdelete _).2 x, hmembers]
    by_cases hx : x ∈ sortBy compare part
    · rw [if_pos hx, ← Option.some.inj hsome]
      exact (hall x (hpart.inside part mem_cons_self x ((mem_sortBy _).mp hx))).symm
    · rw [if_neg hx]
  · cases hnone

end Recomputing

section Cycling
variable (tables : CountingTables)

/-- What a cycle keeps: every group behind its cursor is clean. -/
structure Covered (state : Maintenance) : Prop where
  sound : Sound tables state.groups
  behind : ∀ x groupId cursor, state.groups.members.get? x = some groupId →
    state.cursorGroupId = some cursor → groupId ≤ cursor → Clean tables state.groups x

variable {tables} {state : Maintenance} {supply : IdSupply} {clock : ℤ}

theorem Covered.recompute (h : Covered tables state) (supply : IdSupply) (clock : ℤ) {seed : ℕ}
    (hseed : seed ∈ tables.ids) (started : Option ℤ) :
    Covered tables
      ⟨(recomputeComponent tables supply clock seed state.groups).groups, state.cursorGroupId,
        started⟩ := by
  have hrecomputes := recomputes supply clock hseed h.sound
  refine ⟨hrecomputes.sound, ?_⟩
  intro x groupId cursor hx hcursor hle
  by_cases hvisited : x ∈ (recomputeComponent tables supply clock seed state.groups).members
  · exact hrecomputes.clean x hvisited
  · simp only at hx
    rw [hrecomputes.others x hvisited] at hx
    exact clean_of_not_visited hrecomputes hvisited (h.behind x groupId cursor hx hcursor hle)

theorem firstUngrouped_mem {groups : GroupTables} {x : ℕ}
    (h : firstUngrouped tables groups = some x) :
    x ∈ tables.ids ∧ groups.members.get? x = none := by
  have hin := (min?_eq_some_iff.mp h).1
  obtain ⟨hids, hhas⟩ := mem_filter.mp hin
  refine ⟨hids, ?_⟩
  unfold OrderedMap.has at hhas
  simpa using hhas

theorem nextGroup_spec {groupId : ℕ} {seed : Option ℕ}
    (h : nextGroup state = some (groupId, seed)) :
    groupId ∈ state.groups.groupIds ∧
      (∀ cursor, state.cursorGroupId = some cursor → cursor < groupId) ∧
      (∀ other ∈ state.groups.groupIds, (∀ cursor, state.cursorGroupId = some cursor →
        cursor < other) → groupId ≤ other) ∧
      (∀ x, seed = some x → state.groups.members.get? x = some groupId) ∧
      (seed = none → ∀ x, state.groups.members.get? x ≠ some groupId) := by
  obtain ⟨id, hmin, heq⟩ := Option.map_eq_some_iff.mp h
  obtain ⟨hid, hseed⟩ := Prod.mk.inj heq
  rw [hid] at hmin hseed
  obtain ⟨hin, hleast⟩ := min?_eq_some_iff.mp hmin
  obtain ⟨hstored, hpast⟩ := mem_filter.mp hin
  have hall : ∀ other : ℕ, state.cursorGroupId.all (fun cursor => cursor < other) = true ↔
      ∀ cursor, state.cursorGroupId = some cursor → cursor < other := by
    intro other
    cases state.cursorGroupId with
    | none => simp
    | some cursor => simp
  have hmember : ∀ x, x ∈ ((state.groups.members.entries.filter (fun row =>
      row.2 = groupId)).map Prod.fst) ↔ state.groups.members.get? x = some groupId := by
    intro x
    rw [mem_map, ← mem_entries_iff]
    constructor
    · intro hx
      obtain ⟨⟨y, groupId'⟩, hrow, hy⟩ := hx
      obtain ⟨hrow, hgroup⟩ := mem_filter.mp hrow
      rw [decide_eq_true_eq] at hgroup
      rw [← hy, ← hgroup]
      exact hrow
    · intro hx
      exact ⟨(x, groupId), mem_filter.mpr ⟨hx, decide_eq_true rfl⟩, rfl⟩
  refine ⟨hstored, (hall groupId).mp hpast, ?_, ?_, ?_⟩
  · intro other hother hcursor
    exact hleast other (mem_filter.mpr ⟨hother, (hall other).mpr hcursor⟩)
  · intro x hx
    rw [hx] at hseed
    exact (hmember x).mp (min?_eq_some_iff.mp hseed).1
  · intro hnone x hx
    rw [hnone, min?_eq_none_iff] at hseed
    have hin := (hmember x).mpr hx
    rw [hseed] at hin
    exact absurd hin not_mem_nil

/-- Past the next group lies nothing that was not past the cursor. -/
theorem behind_next (h : Covered tables state) {groupId : ℕ} {seed : Option ℕ}
    (hnext : nextGroup state = some (groupId, seed)) {x other : ℕ}
    (hx : state.groups.members.get? x = some other) (hle : other ≤ groupId) :
    Clean tables state.groups x ∨ other = groupId := by
  obtain ⟨-, -, hleast, -, -⟩ := nextGroup_spec hnext
  have hstored := (h.sound.stored x other hx).2
  by_cases hpast : ∀ cursor, state.cursorGroupId = some cursor → cursor < other
  · right
    have hge := hleast other hstored hpast
    omega
  · left
    push Not at hpast
    obtain ⟨cursor, hcursor, hbehind⟩ := hpast
    exact h.behind x other cursor hx hcursor hbehind

theorem Covered.walk (h : Covered tables state) (supply : IdSupply) (clock : ℤ) :
    Covered tables (walkStep tables supply clock state).2 := by
  have hjoined : Covered tables (joinCycle clock state) := ⟨h.sound, h.behind⟩
  unfold walkStep
  simp only
  split
  · split
    · rename_i x hx
      exact hjoined.recompute supply clock (firstUngrouped_mem hx).1 _
    · refine ⟨hjoined.sound, ?_⟩
      intro x groupId cursor _ hcursor
      cases hcursor
  · rename_i groupId hnext
    obtain ⟨-, -, -, -, hempty⟩ := nextGroup_spec hnext
    have hnone := hempty rfl
    refine ⟨⟨?_, ?_⟩, ?_⟩
    · exact hjoined.sound.ids.sublist (filter_sublist.map GroupRow.id)
    · intro x other hx
      obtain ⟨hids, hstored⟩ := hjoined.sound.stored x other hx
      refine ⟨hids, ?_⟩
      obtain ⟨row, hrow, hid⟩ := mem_map.mp hstored
      refine mem_map.mpr ⟨row, mem_filter.mpr ⟨hrow, ?_⟩, hid⟩
      rw [decide_eq_true_eq, hid]
      intro heq
      rw [heq] at hx
      exact hnone x hx
    · intro x other cursor hx hcursor hle
      rw [← Option.some.inj hcursor] at hle
      rcases behind_next hjoined hnext hx hle with hclean | heq
      · exact hclean
      · rw [heq] at hx
        exact absurd hx (hnone x)
  · rename_i groupId seed hnext
    obtain ⟨-, -, -, hseed, -⟩ := nextGroup_spec hnext
    have hmember := hseed seed rfl
    have hrecomputes := recomputes supply clock (hjoined.sound.stored seed groupId hmember).1
      hjoined.sound
    refine ⟨hrecomputes.sound, ?_⟩
    intro x other cursor hx hcursor hle
    by_cases hvisited : x ∈ (recomputeComponent tables supply clock seed
        (joinCycle clock state).groups).members
    · exact hrecomputes.clean x hvisited
    · simp only at hx hcursor
      rw [hrecomputes.others x hvisited] at hx
      rw [← Option.some.inj hcursor] at hle
      rcases behind_next hjoined hnext hx hle with hclean | heq
      · exact clean_of_not_visited hrecomputes hvisited hclean
      · -- the rest of the seed's group is visited with it
        rw [heq] at hx
        exact absurd (hrecomputes.touching seed hrecomputes.seed x
          (.inr ⟨groupId, hmember, hx⟩)) hvisited

theorem Covered.step (h : Covered tables state) (action : Action) :
    Covered tables (CharacterGroups.step tables state action) := by
  have hjoined : ∀ clock, Covered tables (joinCycle clock state) :=
    fun clock => ⟨h.sound, h.behind⟩
  cases action with
  | assignUngrouped supply clock =>
    unfold CharacterGroups.step
    simp only
    split
    · rename_i x hx
      exact (hjoined clock).recompute supply clock (firstUngrouped_mem hx).1 _
    · exact hjoined clock
  | walk supply clock => exact h.walk supply clock
  | recompute supply clock seed =>
    unfold CharacterGroups.step
    simp only
    split
    · rename_i hseed
      exact h.recompute supply clock hseed _
    · exact h

theorem clean_of_ended (h : Covered tables state)
    (hended : (walkStep tables supply clock state).1 = .cycleEnded) {x : ℕ}
    (hx : x ∈ tables.ids) : Clean tables state.groups x := by
  unfold walkStep at hended
  simp only at hended
  split at hended
  · rename_i hnext
    split at hended
    · cases hended
    · rename_i hgrouped
      have hhas : state.groups.members.get? x ≠ none := by
        intro hnone
        unfold firstUngrouped at hgrouped
        rw [min?_eq_none_iff, filter_eq_nil_iff] at hgrouped
        apply hgrouped x hx
        have hget : (joinCycle clock state).groups.members.get? x = none := hnone
        unfold OrderedMap.has
        rw [hget]
        rfl
      obtain ⟨groupId, hgroup⟩ := Option.ne_none_iff_exists'.mp hhas
      unfold nextGroup at hnext
      rw [Option.map_eq_none_iff, min?_eq_none_iff, filter_eq_nil_iff] at hnext
      have hpast := hnext groupId (h.sound.stored x groupId hgroup).2
      change ¬ state.cursorGroupId.all (fun cursor => decide (cursor < groupId)) = true at hpast
      cases hcursor : state.cursorGroupId with
      | none =>
        rw [hcursor] at hpast
        exact absurd rfl hpast
      | some cursor =>
        rw [hcursor] at hpast
        apply h.behind x groupId cursor hgroup hcursor
        simpa using hpast
  · cases hended
  · cases hended

end Cycling

section Ending
variable {tables : CountingTables} {state : Maintenance}

open Classical in
/-- The characters whose group is not what the links join them to. -/
noncomputable def unclean (tables : CountingTables) (groups : GroupTables) : Finset ℕ :=
  tables.ids.toFinset.filter (fun x => ¬ Clean tables groups x)

variable {groups : GroupTables}

theorem mem_unclean {x : ℕ} :
    x ∈ unclean tables groups ↔ x ∈ tables.ids ∧ ¬ Clean tables groups x := by
  unfold unclean
  simp only [Finset.mem_filter, mem_toFinset]

/-- The groups a cycle still has to walk. -/
def ahead (state : Maintenance) : Finset ℕ :=
  state.groups.groupIds.toFinset.filter (fun id =>
    state.cursorGroupId.all (fun cursor => cursor < id))

theorem mem_ahead {id : ℕ} :
    id ∈ ahead state ↔ id ∈ state.groups.groupIds ∧
      ∀ cursor, state.cursorGroupId = some cursor → cursor < id := by
  unfold ahead
  rw [Finset.mem_filter, mem_toFinset]
  cases state.cursorGroupId with
  | none => simp
  | some cursor => simp

theorem clean_congr {groups' : GroupTables}
    (h : ∀ x, groups'.members.get? x = groups.members.get? x) (x : ℕ) :
    Clean tables groups' x ↔ Clean tables groups x := by
  unfold Clean
  simp only [h]

theorem unclean_congr {groups' : GroupTables}
    (h : ∀ x, groups'.members.get? x = groups.members.get? x) :
    unclean tables groups' = unclean tables groups := by
  ext x
  rw [mem_unclean, mem_unclean, clean_congr h]

theorem unclean_recompute (supply : IdSupply) (clock : ℤ) {seed : ℕ} (hseed : seed ∈ tables.ids)
    (hsound : Sound tables groups) (hunclean : ¬ Clean tables groups seed) :
    (unclean tables (recomputeComponent tables supply clock seed groups).groups).card <
      (unclean tables groups).card := by
  have hrecomputes := recomputes supply clock hseed hsound
  apply Finset.card_lt_card
  rw [Finset.ssubset_iff_of_subset]
  · refine ⟨seed, mem_unclean.mpr ⟨hseed, hunclean⟩, ?_⟩
    intro hin
    exact (mem_unclean.mp hin).2 (hrecomputes.clean seed hrecomputes.seed)
  · intro x hx
    obtain ⟨hids, hnot⟩ := mem_unclean.mp hx
    refine mem_unclean.mpr ⟨hids, ?_⟩
    intro hclean
    by_cases hvisited : x ∈ (recomputeComponent tables supply clock seed groups).members
    · exact hnot (hrecomputes.clean x hvisited)
    · exact hnot (clean_of_not_visited hrecomputes hvisited hclean)

theorem ahead_walked {groupId : ℕ} {started : Option ℤ} (hin : groupId ∈ ahead state)
    (hids : ∀ id ∈ groups.groupIds, id ∈ state.groups.groupIds) :
    (ahead ⟨groups, some groupId, started⟩).card < (ahead state).card := by
  apply Finset.card_lt_card
  rw [Finset.ssubset_iff_of_subset]
  · refine ⟨groupId, hin, ?_⟩
    intro hpast
    exact Nat.lt_irrefl groupId ((mem_ahead.mp hpast).2 groupId rfl)
  · intro id hid
    obtain ⟨hstored, hpast⟩ := mem_ahead.mp hid
    refine mem_ahead.mpr ⟨hids id hstored, ?_⟩
    intro cursor hcursor
    exact ((mem_ahead.mp hin).2 cursor hcursor).trans (hpast groupId rfl)

/-- A step that does not end the cycle leaves fewer unclean characters, or as many and
fewer groups ahead. -/
theorem walk_descends (h : Covered tables state) (supply : IdSupply) (clock : ℤ)
    (hgoes : (walkStep tables supply clock state).1 ≠ .cycleEnded) :
    (unclean tables (walkStep tables supply clock state).2.groups).card <
        (unclean tables state.groups).card ∨
      (unclean tables (walkStep tables supply clock state).2.groups).card =
          (unclean tables state.groups).card ∧
        (ahead (walkStep tables supply clock state).2).card < (ahead state).card := by
  have hjoined : Covered tables (joinCycle clock state) := ⟨h.sound, h.behind⟩
  unfold walkStep at hgoes ⊢
  simp only at hgoes ⊢
  split
  · rename_i hnext
    split
    · rename_i x hx
      obtain ⟨hids, hnone⟩ := firstUngrouped_mem hx
      left
      apply unclean_recompute supply clock hids h.sound
      intro hclean
      obtain ⟨groupId, hgroup, -⟩ := hclean
      rw [show state.groups.members.get? x = none from hnone] at hgroup
      cases hgroup
    · rename_i hgrouped
      simp only [hnext, hgrouped] at hgoes
      exact absurd rfl hgoes
  · rename_i groupId hnext
    obtain ⟨hstored, hpast, -, -, -⟩ := nextGroup_spec hnext
    right
    refine ⟨?_, ?_⟩
    · apply congrArg Finset.card
      apply unclean_congr
      intro x
      rfl
    · apply ahead_walked (mem_ahead.mpr ⟨hstored, hpast⟩)
      intro id hid
      exact (filter_sublist.map GroupRow.id).subset hid
  · rename_i groupId seed hnext
    obtain ⟨hstored, hpast, -, hseed, -⟩ := nextGroup_spec hnext
    have hids := (h.sound.stored seed groupId (hseed seed rfl)).1
    by_cases hclean : Clean tables state.groups seed
    · obtain ⟨hsameIds, hsame⟩ := recompute_clean supply clock hids h.sound hclean
      right
      refine ⟨?_, ?_⟩
      · rw [← unclean_congr hsame]
        rfl
      · apply ahead_walked (mem_ahead.mpr ⟨hstored, hpast⟩)
        intro id hid
        change id ∈ state.groups.groupIds
        rw [← hsameIds]
        exact hid
    · left
      exact unclean_recompute supply clock hids h.sound hclean

theorem walk_ends (h : Covered tables state) (calls : ℕ → IdSupply × ℤ) :
    ∃ n, (walkStep tables (calls n).1 (calls n).2 (after (step tables) state
      ((List.range n).map (fun i => .walk (calls i).1 (calls i).2)))).1 = .cycleEnded := by
  have hwf := (Prod.lex Nat.lt_wfRel Nat.lt_wfRel).wf
  induction hrank : ((unclean tables state.groups).card, (ahead state).card) using hwf.induction
      generalizing state calls with
  | _ rank ih =>
    by_cases hends : (walkStep tables (calls 0).1 (calls 0).2 state).1 = .cycleEnded
    · exact ⟨0, hends⟩
    · obtain ⟨n, hn⟩ := ih _ (by
        rw [← hrank]
        exact Prod.lex_def.mpr (walk_descends h (calls 0).1 (calls 0).2 hends)) (h.walk (calls 0).1 (calls 0).2)
        (fun i => calls (i + 1)) rfl
      refine ⟨n + 1, ?_⟩
      rw [range_succ_eq_map, map_cons, List.map_map, after_cons]
      exact hn

end Ending

section Agreement
variable {tables : CountingTables} {x y : ℕ}

def SameGroup (groups : GroupTables) (x y : ℕ) : Prop :=
  ∃ groupId, groups.members.get? x = some groupId ∧ groups.members.get? y = some groupId

theorem sameGroup_iff {groups : GroupTables} (hclean : Clean tables groups x) :
    SameGroup groups x y ↔ Joined (rebuildEdges tables) x y := by
  obtain ⟨groupId, hgroup, hsame⟩ := hclean
  constructor
  · intro h
    obtain ⟨groupId', hx, hy⟩ := h
    rw [hgroup] at hx
    rw [← Option.some.inj hx] at hy
    exact (hsame y).mp hy
  · intro hjoined
    exact ⟨groupId, hgroup, (hsame y).mpr hjoined⟩

/-- A rebuild and every completed cycle divide the characters alike, a cycle that walks
on completes, and a recompute right after a rebuild keeps every group and member. -/
theorem rebuild_agrees_with_recompute (tables : CountingTables) (clock : ℤ) :
    (∀ start : Maintenance, Sound tables start.groups → start.cursorGroupId = none →
      (∀ actions supply clock',
        (walkStep tables supply clock' (after (step tables) start actions)).1 = .cycleEnded →
          ∀ x ∈ tables.ids, ∀ y ∈ tables.ids,
            SameGroup (rebuildGroups tables clock) x x ∧
            (SameGroup (rebuildGroups tables clock) x y ↔
              SameGroup (after (step tables) start actions).groups x y)) ∧
      ∀ calls : ℕ → IdSupply × ℤ, ∃ n,
        (walkStep tables (calls n).1 (calls n).2 (after (step tables) start
          ((List.range n).map (fun i => .walk (calls i).1 (calls i).2)))).1 = .cycleEnded) ∧
    ∀ seed ∈ tables.ids, ∀ supply clock',
      (recomputeComponent tables supply clock' seed (rebuildGroups tables clock)).groups.groupIds =
        (rebuildGroups tables clock).groupIds ∧
      ∀ x, (recomputeComponent tables supply clock' seed
          (rebuildGroups tables clock)).groups.members.get? x =
        (rebuildGroups tables clock).members.get? x := by
  refine ⟨?_, ?_⟩
  · intro start hsound hcursor
    have hstart : Covered tables start := by
      refine ⟨hsound, ?_⟩
      intro x groupId cursor _ hsome
      rw [hcursor] at hsome
      cases hsome
    refine ⟨?_, fun calls => walk_ends hstart calls⟩
    intro actions supply clock' hended x hx y _
    have hcovered : Covered tables (after (step tables) start actions) :=
      keeps (Covered tables) (fun state action h => h.step action) hstart actions
    have hclean := clean_of_ended hcovered hended hx
    have hrebuilt := clean_rebuildGroups tables clock hx
    rw [sameGroup_iff hrebuilt, sameGroup_iff hrebuilt, sameGroup_iff hclean]
    exact ⟨joined_refl _ x, Iff.rfl⟩
  · intro seed hseed supply clock'
    exact recompute_clean supply clock' hseed (sound_rebuildGroups tables clock)
      (clean_rebuildGroups tables clock hseed)

/-- Ids one above every id in use. -/
def idsAbove : IdSupply where
  next := fun ids => ids.foldr max 0 + 1
  fresh := by
    intro ids hin
    have hle : ∀ id ∈ ids, id ≤ ids.foldr max 0 := fun id hid => le_max_of_le hid le_rfl
    exact absurd (hle _ hin) (by omega)

/-- Two characters an observed link joins, and one on its own. -/
def linkedPair : CountingTables where
  characters := [⟨1, ⟨.eu, "draenor", "ana"⟩⟩, ⟨2, ⟨.eu, "draenor", "bo"⟩⟩,
    ⟨3, ⟨.eu, "draenor", "cy"⟩⟩]
  connections := [⟨1, 2, .observed⟩]
  manual := []
  distinct := by decide
  keyed := by decide
  ordered := by decide
  connected := by decide
  rooted := by decide

theorem rebuild_agrees_with_recompute_pair :
    (rebuildGroups linkedPair 0).members.get? 2 = some 1 ∧
      ∀ x, (recomputeComponent linkedPair idsAbove 5 2 (rebuildGroups linkedPair 0)).groups.members.get?
        x = (rebuildGroups linkedPair 0).members.get? x :=
  ⟨by decide +kernel,
    ((rebuild_agrees_with_recompute linkedPair 0).2 2 (by decide) idsAbove 5).2⟩

end Agreement

end SlashWho.CharacterGroupCycles
