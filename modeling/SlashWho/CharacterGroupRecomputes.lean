import SlashWho.CharacterGroupParts

/-!
One recompute. It visits everything its seed reaches over links and present groups,
gives every part a group of its own, an old one or a new one, and leaves every other
character as it was. Afterwards each visited character's group is exactly what the
counting links join it to.
-/

namespace SlashWho.CharacterGroupRecomputes

open List CharacterGroupParts CharacterGroups ComparatorSort Connectivity OrderedMap Relation

variable (tables : CountingTables) (members : OrderedMap ℕ ℕ)

/-- Characters a recompute steps between: ends of one link, or members of one group. -/
def Touching (x y : ℕ) : Prop :=
  Beside (rebuildEdges tables) x y ∨ ∃ groupId, members.get? x = some groupId ∧
    members.get? y = some groupId

theorem mem_groupmates {ids : List ℕ} {y : ℕ} :
    y ∈ groupmates members ids ↔ ∃ x ∈ ids, ∃ groupId, members.get? x = some groupId ∧
      members.get? y = some groupId := by
  unfold groupmates
  simp only [mem_map, mem_filter, contains_iff_mem]
  constructor
  · intro h
    obtain ⟨⟨y', groupId⟩, ⟨hrow, ⟨⟨x, groupId'⟩, ⟨hother, hx⟩, hsame⟩⟩, hy⟩ := h
    simp only at hsame hy hx
    rw [hsame] at hother
    rw [hy] at hrow
    exact ⟨x, hx, groupId, (mem_entries_iff _ _ _).mp hother, (mem_entries_iff _ _ _).mp hrow⟩
  · intro h
    obtain ⟨x, hx, groupId, hxg, hyg⟩ := h
    exact ⟨(y, groupId), ⟨(mem_entries_iff _ _ _).mpr hyg,
      (x, groupId), ⟨(mem_entries_iff _ _ _).mpr hxg, hx⟩, rfl⟩, rfl⟩

/-- The links collected so far: those that touch a node the walk went on from. -/
def Collected (s : Closure) : Prop :=
  (∀ link ∈ s.links, link ∈ rebuildEdges tables) ∧
    ∀ link ∈ rebuildEdges tables, ∀ x ∈ s.nodes, x ∉ s.frontier →
      (link.1 = x ∨ link.2 = x) → link ∈ s.links

theorem closureRound_spec (seed : ℕ) (s : Closure) (hcollected : Collected tables s)
    (h : Searched (Touching tables members) [seed] s.nodes s.frontier) :
    Collected tables (closureRound tables members s) ∧
      Searched (Touching tables members) [seed] (closureRound tables members s).nodes
        (closureRound tables members s).frontier ∧
      (closureRound tables members s).nodes =
        s.nodes ++ (closureRound tables members s).frontier := by
  have hnext : ∀ y, y ∈ (closureRound tables members s).frontier ↔
      (∃ x ∈ s.frontier, Touching tables members x y) ∧ y ∉ s.nodes := by
    intro y
    unfold closureRound
    simp only [mem_eraseDups, mem_filter, mem_append, mem_flatMap,
      Bool.not_eq_true', mem_groupmates, mem_countingLinksFrom]
    have hout : s.nodes.contains y = false ↔ y ∉ s.nodes := by
      rw [← Bool.not_eq_true, contains_iff_mem]
    rw [hout]
    constructor
    · intro hy
      obtain ⟨hfound, hnew⟩ := hy
      refine ⟨?_, hnew⟩
      rcases hfound with ⟨⟨a, b⟩, ⟨hlink, htouch⟩, hends⟩ | ⟨x, hx, hmates⟩
      · simp only [mem_cons, not_mem_nil, or_false] at hends htouch
        -- an end that is not the one the walk came from is its neighbour
        rcases hends with hya | hyb
        · rcases htouch with ha | hb
          · exact absurd (h.recent a ha) (hya ▸ hnew)
          · exact ⟨b, hb, .inl (beside_iff.mpr (.inr (hya ▸ hlink)))⟩
        · rcases htouch with ha | hb
          · exact ⟨a, ha, .inl (beside_iff.mpr (.inl (hyb ▸ hlink)))⟩
          · exact absurd (h.recent b hb) (hyb ▸ hnew)
      · exact ⟨x, hx, .inr hmates⟩
    · intro hy
      obtain ⟨⟨x, hx, hstep⟩, hnew⟩ := hy
      refine ⟨?_, hnew⟩
      rcases hstep with hbeside | hmates
      · rcases beside_iff.mp hbeside with hlink | hlink
        · exact .inl ⟨(x, y), ⟨hlink, .inl hx⟩, by simp⟩
        · exact .inl ⟨(y, x), ⟨hlink, .inr hx⟩, by simp⟩
      · exact .inr ⟨x, hx, hmates⟩
  refine ⟨?_, h.round hnext (nodup_eraseDups _), rfl⟩
  constructor
  · intro link hlink
    rcases mem_append.mp hlink with hin | hin
    · exact hcollected.1 link hin
    · exact ((mem_countingLinksFrom tables).mp hin).1
  · intro link hlink x hx hout hend
    have hin : x ∈ s.nodes := (mem_append.mp hx).resolve_right hout
    apply mem_append.mpr
    by_cases hfrontier : x ∈ s.frontier
    · right
      apply (mem_countingLinksFrom tables).mpr
      refine ⟨hlink, ?_⟩
      rcases hend with hend | hend
      · exact .inl (hend ▸ hfrontier)
      · exact .inr (hend ▸ hfrontier)
    · exact .inl (hcollected.2 link hlink x hin hfrontier hend)

/-- What a walk from a character ends with. -/
structure Closed (seed : ℕ) (s : Closure) : Prop where
  visited : seed ∈ s.nodes
  touching : ∀ x ∈ s.nodes, ∀ y, Touching tables members x y → y ∈ s.nodes
  reached : ∀ x ∈ s.nodes, ReflTransGen (Touching tables members) seed x
  counting : ∀ link ∈ s.links, link ∈ rebuildEdges tables
  collected : ∀ link ∈ rebuildEdges tables, ∀ x ∈ s.nodes, (link.1 = x ∨ link.2 = x) →
    link ∈ s.links

variable {tables} {members}

variable {seed : ℕ}

theorem closed_closure (hseed : seed ∈ tables.ids)
    (hmembers : ∀ x groupId, members.get? x = some groupId → x ∈ tables.ids) :
    Closed tables members seed (closure tables members seed) := by
  have hstart : Searched (Touching tables members) [seed] [seed] [seed] :=
    searched_start _ (nodup_singleton seed)
  have hcollected : Collected tables ⟨[seed], [], [seed]⟩ := by
    refine ⟨fun link hlink => absurd hlink not_mem_nil, ?_⟩
    intro link _ x hx hout
    exact absurd hx hout
  have hwhole : ∀ x y, x ∈ tables.ids → Touching tables members x y → y ∈ tables.ids := by
    intro x y _ hstep
    rcases hstep with hbeside | ⟨groupId, -, hy⟩
    · exact (beside_ids tables hbeside).2
    · exact hmembers y groupId hy
  have hends := searched_rounds Closure.nodes Closure.frontier (fun _ => false)
    (closureRound tables members) (Collected tables)
    (fun x hx => by rw [mem_singleton.mp hx]; exact hseed) hwhole
    (closureRound_spec tables members seed) hcollected hstart
    (show tables.ids.length < tables.ids.length + 1 + [seed].length by
      rw [length_singleton]
      omega)
  change Collected tables (closure tables members seed) ∧
    Searched _ _ (closure tables members seed).nodes (closure tables members seed).frontier ∧
      ((closure tables members seed).frontier = [] ∨ false = true) at hends
  obtain ⟨hall, hsearched, hnone⟩ := hends
  have hnil : (closure tables members seed).frontier = [] :=
    hnone.resolve_right Bool.false_ne_true
  rw [hnil] at hsearched
  refine ⟨hsearched.found seed mem_cons_self, ?_, ?_, hall.1, ?_⟩
  · intro x hx y hstep
    exact hsearched.closed x hx not_mem_nil y hstep
  · intro x hx
    obtain ⟨seed', hseed', hreach⟩ := hsearched.reached x hx
    rw [mem_singleton.mp hseed'] at hreach
    exact hreach
  · intro link hlink x hx hend
    apply hall.2 link hlink x hx _ hend
    rw [hnil]
    exact not_mem_nil

variable {s : Closure}

/-- What is joined to a visited character is visited, and joined by collected links. -/
theorem Closed.joined (h : Closed tables members seed s) {x y : ℕ} (hx : x ∈ s.nodes)
    (hjoined : Joined (rebuildEdges tables) x y) :
    y ∈ s.nodes ∧ Joined (s.links.filter (fun link =>
      s.nodes.contains link.1 && s.nodes.contains link.2)) x y := by
  rw [← reflTransGen_beside] at hjoined
  induction hjoined with
  | refl => exact ⟨hx, joined_refl _ x⟩
  | @tail y z _ hstep ih =>
    obtain ⟨hy, hxy⟩ := ih
    have hz := h.touching y hy z (.inl hstep)
    refine ⟨hz, ?_⟩
    rcases beside_iff.mp hstep with hlink | hlink
    · apply hxy.trans
      apply joined_of_mem
      apply mem_filter.mpr
      exact ⟨h.collected _ hlink y hy (.inl rfl), by simp [hy, hz]⟩
    · apply hxy.trans
      apply Connectivity.Joined.symm
      apply joined_of_mem
      apply mem_filter.mpr
      exact ⟨h.collected _ hlink y hy (.inr rfl), by simp [hy, hz]⟩

theorem Closed.ids (h : Closed tables members seed s) (hseed : seed ∈ tables.ids)
    (hmembers : ∀ x groupId, members.get? x = some groupId → x ∈ tables.ids) {x : ℕ}
    (hx : x ∈ s.nodes) : x ∈ tables.ids := by
  have hreach := h.reached x hx
  clear hx
  induction hreach with
  | refl => exact hseed
  | tail _ hstep _ =>
    rcases hstep with hbeside | ⟨groupId, -, hy⟩
    · exact (beside_ids tables hbeside).2
    · exact hmembers _ groupId hy

theorem Closed.divides (h : Closed tables members seed s) :
    Divides s.nodes (rebuildEdges tables) (components s.nodes (s.links.filter (fun link =>
      s.nodes.contains link.1 && s.nodes.contains link.2))) := by
  have hends : ∀ link ∈ s.links.filter (fun link =>
      s.nodes.contains link.1 && s.nodes.contains link.2),
      link.1 ∈ s.nodes ∧ link.2 ∈ s.nodes := by
    intro link hlink
    have hboth := (mem_filter.mp hlink).2
    simp only [Bool.and_eq_true, contains_iff_mem] at hboth
    exact hboth
  apply (divides_components hends).congr (fun x => Iff.rfl)
  intro x hx y _
  constructor
  · intro hjoined
    exact hjoined.mono (fun link hlink => h.counting link (mem_of_mem_filter hlink))
  · intro hjoined
    exact (h.joined hx hjoined).2

variable (supply : IdSupply) (clock : ℤ)

theorem get?_setAll_members (m : OrderedMap ℕ ℕ) (members : List ℕ) (groupId x : ℕ) :
    (m.setAll (members.map (fun id => (id, groupId)))).get? x =
      if x ∈ members then some groupId else m.get? x := by
  induction members generalizing m with
  | nil => rfl
  | cons id rest ih =>
    rw [map_cons, setAll_cons, ih, get?_set]
    by_cases hrest : x ∈ rest
    · rw [if_pos hrest, if_pos (mem_cons_of_mem _ hrest)]
    · by_cases hid : x = id
      · simp [hid]
      · rw [if_neg hrest, if_neg hid, if_neg]
        intro hx
        rcases mem_cons.mp hx with heq | hin
        · exact hid heq
        · exact hrest hin

/-- The part is given one group, its own or a new one. -/
def GivesGroup (assignment : GroupAssignment) (before after : GroupTables) (groupId : ℕ) : Prop :=
  assignment.groupId = some groupId ∧ after.groupIds = before.groupIds ∨
    assignment.groupId = none ∧ groupId ∉ before.groupIds ∧
      after.groupIds = before.groupIds ++ [groupId]

theorem assign_spec (groups : GroupTables) (assignment : GroupAssignment) :
    ∃ groupId, GivesGroup assignment groups (assign supply clock groups assignment) groupId ∧
      ∀ x, (assign supply clock groups assignment).members.get? x =
        if x ∈ assignment.members then some groupId else groups.members.get? x := by
  have hrows : ∀ (rows : List GroupRow) (groupId : ℕ),
      (rows.map (fun row =>
        if row.id = groupId then { row with recomputedAt := clock } else row)).map GroupRow.id =
        rows.map GroupRow.id := by
    intro rows groupId
    rw [List.map_map]
    apply map_congr_left
    intro row _
    simp only [Function.comp]
    split <;> rfl
  unfold GivesGroup assign GroupTables.groupIds
  cases hkeeps : assignment.groupId with
  | some groupId =>
    refine ⟨groupId, .inl ⟨rfl, hrows _ _⟩, ?_⟩
    intro x
    exact get?_setAll_members _ _ _ _
  | none =>
    refine ⟨supply.next groups.groupIds, .inr ⟨rfl, supply.fresh groups.groupIds, ?_⟩, ?_⟩
    · simp only
      rw [hrows, map_append]
      rfl
    · intro x
      exact get?_setAll_members _ _ _ _

/-- What a list of assignments leaves: every part its own group, the others as before. -/
structure Assigned (assignments : List GroupAssignment) (before after : GroupTables)
    (groupOf : GroupAssignment → ℕ) : Prop where
  ids : after.groupIds.Nodup
  stored : ∀ groupId ∈ before.groupIds, groupId ∈ after.groupIds
  keeps : ∀ assignment ∈ assignments, groupOf assignment ∈ after.groupIds ∧
    (assignment.groupId = some (groupOf assignment) ∨
      assignment.groupId = none ∧ groupOf assignment ∉ before.groupIds)
  members : ∀ assignment ∈ assignments, ∀ x ∈ assignment.members,
    after.members.get? x = some (groupOf assignment)
  others : ∀ x, (∀ assignment ∈ assignments, x ∉ assignment.members) →
    after.members.get? x = before.members.get? x
  distinct : (assignments.map groupOf).Nodup
  known : ∀ groupId ∈ after.groupIds, groupId ∈ before.groupIds ∨
    groupId ∈ assignments.map groupOf

section Gives

variable {before next : GroupTables} {assignment : GroupAssignment} {groupId : ℕ}

theorem GivesGroup.mem_iff (hgives : GivesGroup assignment before next groupId)
    (hstored : ∀ id, assignment.groupId = some id → id ∈ before.groupIds) (id : ℕ) :
    id ∈ next.groupIds ↔ id ∈ before.groupIds ∨ id = groupId := by
  rcases hgives with ⟨hsome, hsame⟩ | ⟨-, -, hsame⟩
  · rw [hsame]
    refine ⟨Or.inl, ?_⟩
    rintro (hid | rfl)
    · exact hid
    · exact hstored id hsome
  · rw [hsame, mem_append, mem_singleton]

theorem GivesGroup.nodup (hgives : GivesGroup assignment before next groupId)
    (hids : before.groupIds.Nodup) : next.groupIds.Nodup := by
  rcases hgives with ⟨-, hsame⟩ | ⟨-, hnew, hsame⟩
  · rw [hsame]
    exact hids
  · rw [hsame, nodup_append]
    refine ⟨hids, nodup_singleton _, ?_⟩
    intro a ha b hb hab
    rw [mem_singleton.mp hb] at hab
    exact hnew (hab ▸ ha)

/-- A part's own group is in use, and no other part's. -/
def OwnGroups (assignments : List GroupAssignment) (groups : GroupTables) : Prop :=
  (assignments.filterMap GroupAssignment.groupId).Nodup ∧
    ∀ groupId ∈ assignments.filterMap GroupAssignment.groupId, groupId ∈ groups.groupIds

variable {rest : List GroupAssignment}

theorem OwnGroups.stored (h : OwnGroups (assignment :: rest) before) :
    ∀ id, assignment.groupId = some id → id ∈ before.groupIds :=
  fun id hsome => h.2 id (mem_filterMap.mpr ⟨assignment, mem_cons_self, hsome⟩)

theorem OwnGroups.tail (h : OwnGroups (assignment :: rest) before)
    (hgives : GivesGroup assignment before next groupId) : OwnGroups rest next := by
  have hsub := (sublist_cons_self assignment rest).filterMap GroupAssignment.groupId
  refine ⟨h.1.sublist hsub, ?_⟩
  intro id hid
  exact (hgives.mem_iff h.stored id).mpr (.inl (h.2 id (hsub.subset hid)))

variable {after : GroupTables} {groupOf : GroupAssignment → ℕ}

/-- A later part is not given the group of the first: it has its own, or one not in use. -/
theorem Assigned.groupOf_ne (hrest : Assigned rest next after groupOf)
    (hgives : GivesGroup assignment before next groupId)
    (hown : OwnGroups (assignment :: rest) before) :
    ∀ other ∈ rest, groupOf other ≠ groupId := by
  intro other hmem heq
  rcases (hrest.keeps other hmem).2 with hkeeps | ⟨-, hnew⟩
  · rw [heq] at hkeeps
    have hin : groupId ∈ rest.filterMap GroupAssignment.groupId :=
      mem_filterMap.mpr ⟨other, hmem, hkeeps⟩
    rcases hgives with ⟨hsome, -⟩ | ⟨hnone, hfresh, -⟩
    · have hnodup := hown.1
      rw [filterMap_cons_some hsome, nodup_cons] at hnodup
      exact hnodup.1 hin
    · apply hfresh
      apply hown.2
      rw [filterMap_cons_none hnone]
      exact hin
  · exact hnew ((hgives.mem_iff hown.stored _).mpr (.inr heq))

theorem Assigned.cons (hrest : Assigned rest next after groupOf)
    (hgives : GivesGroup assignment before next groupId)
    (hmembers : ∀ x, next.members.get? x =
      if x ∈ assignment.members then some groupId else before.members.get? x)
    (hown : OwnGroups (assignment :: rest) before)
    (hother : ∀ other ∈ rest, other ≠ assignment)
    (hapart : ∀ other ∈ rest, ∀ x ∈ assignment.members, x ∉ other.members) :
    Assigned (assignment :: rest) before after
      (fun a => if a = assignment then groupId else groupOf a) := by
  have hmem := hgives.mem_iff hown.stored
  have hgroupOf : rest.map (fun a => if a = assignment then groupId else groupOf a) =
      rest.map groupOf := by
    apply map_congr_left
    intro other hin
    exact if_neg (hother other hin)
  refine ⟨hrest.ids, ?_, ?_, ?_, ?_, ?_, ?_⟩
  · intro id hid
    exact hrest.stored id ((hmem id).mpr (.inl hid))
  · intro other hin
    rcases mem_cons.mp hin with rfl | hin
    · rw [if_pos rfl]
      refine ⟨hrest.stored groupId ((hmem groupId).mpr (.inr rfl)), ?_⟩
      exact hgives.imp And.left (fun hnew => ⟨hnew.1, hnew.2.1⟩)
    · rw [if_neg (hother other hin)]
      obtain ⟨hstored, hkeeps⟩ := hrest.keeps other hin
      exact ⟨hstored, hkeeps.imp_right (fun hnew =>
        ⟨hnew.1, fun hid => hnew.2 ((hmem _).mpr (.inl hid))⟩)⟩
  · intro other hin x hx
    rcases mem_cons.mp hin with rfl | hin
    · rw [if_pos rfl, hrest.others x, hmembers, if_pos hx]
      exact fun later hlater => hapart later hlater x hx
    · rw [if_neg (hother other hin)]
      exact hrest.members other hin x hx
  · intro x hx
    rw [hrest.others x (fun other hin => hx other (mem_cons_of_mem _ hin)), hmembers,
      if_neg (hx assignment mem_cons_self)]
  · rw [map_cons, if_pos rfl, hgroupOf, nodup_cons]
    refine ⟨?_, hrest.distinct⟩
    intro hin
    obtain ⟨other, hin, heq⟩ := mem_map.mp hin
    exact hrest.groupOf_ne hgives hown other hin heq
  · intro id hid
    rw [map_cons, if_pos rfl, hgroupOf, mem_cons, ← or_assoc, ← hmem]
    exact hrest.known id hid

end Gives

theorem assigned_foldl {assignments : List GroupAssignment} (groups : GroupTables)
    (hids : groups.groupIds.Nodup) (hown : OwnGroups assignments groups)
    (hnonempty : ∀ assignment ∈ assignments, assignment.members ≠ [])
    (hapart : assignments.Pairwise (fun a b => ∀ x ∈ a.members, x ∉ b.members)) :
    ∃ groupOf, Assigned assignments groups (assignments.foldl (assign supply clock) groups)
      groupOf := by
  induction assignments generalizing groups with
  | nil =>
    refine ⟨fun _ => 0, hids, fun _ h => h, ?_, ?_, fun _ _ => rfl, nodup_nil,
      fun _ h => .inl h⟩
    · intro assignment h
      exact absurd h not_mem_nil
    · intro assignment h
      exact absurd h not_mem_nil
  | cons assignment rest ih =>
    obtain ⟨groupId, hgives, hmembers⟩ := assign_spec supply clock groups assignment
    rw [pairwise_cons] at hapart
    obtain ⟨groupOf, hrest⟩ := ih (assign supply clock groups assignment) (hgives.nodup hids)
      (hown.tail hgives) (fun other hother => hnonempty other (mem_cons_of_mem _ hother))
      hapart.2
    -- a later part shares no member with this one, so it is another assignment
    have hother : ∀ other ∈ rest, other ≠ assignment := by
      intro other hother heq
      obtain ⟨x, hx⟩ := exists_mem_of_ne_nil _
        (hnonempty assignment mem_cons_self)
      exact hapart.1 other hother x hx (heq ▸ hx)
    exact ⟨_, hrest.cons hgives hmembers hown hother hapart.1⟩

theorem heir_holds {membership : OrderedMap ℕ ℕ} {sorted : List (List ℕ)} {groupId index : ℕ}
    (h : heir membership sorted groupId = some index) :
    ∃ part, (part, index) ∈ sorted.zipIdx ∧ ∃ x ∈ part, membership.get? x = some groupId := by
  unfold heir at h
  obtain ⟨best, hbest, rfl⟩ := Option.map_eq_some_iff.mp h
  clear h
  generalize sorted.zipIdx = parts at hbest ⊢
  induction parts using List.reverseRecOn generalizing best with
  | nil => cases hbest
  | append_singleton before part ih =>
    rw [foldl_append, foldl_cons, foldl_nil] at hbest
    generalize hstart : List.foldl _ none before = start at hbest
    have hkept : start = some best → ∃ earlier, (earlier, best.1) ∈ before ++ [part] ∧
        ∃ x ∈ earlier, membership.get? x = some groupId := by
      intro hsame
      obtain ⟨earlier, hin, hholds⟩ := ih best (hstart.trans hsame)
      exact ⟨earlier, mem_append_left _ hin, hholds⟩
    have hheld : ∀ lowest others, part.1.filter (fun id =>
        membership.get? id = some groupId) = lowest :: others →
          ∃ x ∈ part.1, membership.get? x = some groupId := by
      intro lowest others heq
      have hin : lowest ∈ part.1.filter (fun id => membership.get? id = some groupId) := by
        rw [heq]
        exact mem_cons_self
      obtain ⟨hin, hget⟩ := mem_filter.mp hin
      exact ⟨lowest, hin, by simpa using hget⟩
    have hlast : (part.1, part.2) ∈ before ++ [part] :=
      mem_append_right _ (mem_singleton_self _)
    dsimp only at hbest
    split at hbest
    · exact hkept hbest
    · rename_i lowest others heq
      rw [← Option.some.inj hbest]
      exact ⟨part.1, hlast, hheld _ _ heq⟩
    · rename_i lowest others index count low heq
      split at hbest
      · rw [← Option.some.inj hbest]
        exact ⟨part.1, hlast, hheld _ _ heq⟩
      · exact hkept hbest

structure AssignsIds (parts : List (List ℕ)) (membership : OrderedMap ℕ ℕ)
    (rows : OrderedMap ℕ GroupRow) (assignments : List GroupAssignment) (deleted : List ℕ) :
    Prop where
  members : assignments.map GroupAssignment.members = parts.map (sortBy compare)
  once : (assignments.filterMap GroupAssignment.groupId).Nodup
  held : ∀ groupId ∈ assignments.filterMap GroupAssignment.groupId,
    (∃ row, rows.get? groupId = some row) ∧
      ∃ part ∈ parts, ∃ x ∈ part, membership.get? x = some groupId
  deletes : ∀ groupId, groupId ∈ deleted ↔
    (∃ part ∈ parts, ∃ x ∈ part, membership.get? x = some groupId) ∧
      groupId ∉ assignments.filterMap GroupAssignment.groupId

theorem assignsIds {rows : OrderedMap ℕ GroupRow}
    (hrows : ∀ groupId row, rows.get? groupId = some row → row.id = groupId)
    (parts : List (List ℕ)) (membership : OrderedMap ℕ ℕ) :
    AssignsIds parts membership rows (assignGroupIds parts membership rows).1
      (assignGroupIds parts membership rows).2 := by
  -- a group a part keeps has that part for its heir
  have hkeeps : ∀ (part : List ℕ × ℕ) (groupId : ℕ),
      ((sortBy (compareLex (readBy GroupRow.createdAt compare) (readBy GroupRow.id compare))
        ((((((parts.map (sortBy compare)).flatten.filterMap membership.get?).eraseDups).map
          (fun groupId => (groupId, heir membership (parts.map (sortBy compare)) groupId))).filter
            (fun entry => entry.2 = some part.2)).filterMap (fun entry =>
              rows.get? entry.1))).head?.map GroupRow.id) = some groupId →
        heir membership (parts.map (sortBy compare)) groupId = some part.2 ∧
          ∃ row, rows.get? groupId = some row := by
    intro part groupId h
    obtain ⟨row, hrow, hid⟩ := Option.map_eq_some_iff.mp h
    have hin := (mem_sortBy _).mp (mem_of_mem_head? hrow)
    obtain ⟨entry, hentry, hget⟩ := mem_filterMap.mp hin
    obtain ⟨hentry, hheir⟩ := mem_filter.mp hentry
    obtain ⟨groupId', -, heq⟩ := mem_map.mp hentry
    have hsame : groupId = entry.1 := by rw [← hid, hrows entry.1 row hget]
    rw [decide_eq_true_eq, ← heq] at hheir
    rw [← heq] at hsame hget
    rw [hsame]
    exact ⟨hheir, row, hget⟩
  have hparts : ∀ groupId, (∃ part ∈ parts.map (sortBy compare), ∃ x ∈ part,
      membership.get? x = some groupId) ↔
        ∃ part ∈ parts, ∃ x ∈ part, membership.get? x = some groupId := by
    intro groupId
    constructor
    · intro h
      obtain ⟨part, hpart, x, hx, hget⟩ := h
      obtain ⟨old, hold, heq⟩ := mem_map.mp hpart
      rw [← heq, mem_sortBy] at hx
      exact ⟨old, hold, x, hx, hget⟩
    · intro h
      obtain ⟨part, hpart, x, hx, hget⟩ := h
      exact ⟨sortBy compare part, mem_map_of_mem hpart, x, (mem_sortBy _).mpr hx, hget⟩
  refine ⟨?_, ?_, ?_, ?_⟩
  · unfold assignGroupIds
    simp only
    rw [List.map_map]
    conv_rhs => rw [← zipIdx_map_fst 0 (parts.map (sortBy compare))]
    rfl
  · unfold assignGroupIds
    simp only
    rw [filterMap_map, List.Nodup, pairwise_filterMap]
    have hindices : (parts.map (sortBy compare)).zipIdx.Pairwise (fun a b => a.2 ≠ b.2) := by
      have hnodup : ((parts.map (sortBy compare)).zipIdx.map Prod.snd).Nodup := by
        rw [zipIdx_map_snd]
        exact nodup_range' 1
      exact pairwise_map.mp hnodup
    apply hindices.imp
    intro a b hne groupId ha groupId' hb heq
    have hheirA := (hkeeps a groupId ha).1
    have hheirB := (hkeeps b groupId' hb).1
    rw [heq, hheirB] at hheirA
    exact hne (Option.some.inj hheirA).symm
  · intro groupId hgroup
    unfold assignGroupIds at hgroup
    simp only at hgroup
    rw [filterMap_map] at hgroup
    obtain ⟨part, -, hkept⟩ := mem_filterMap.mp hgroup
    obtain ⟨hheir, hrow⟩ := hkeeps part groupId hkept
    refine ⟨hrow, ?_⟩
    rw [← hparts]
    obtain ⟨part', hin, x, hx, hget⟩ := heir_holds hheir
    refine ⟨part', ?_, x, hx, hget⟩
    have hfst := mem_map_of_mem (f := Prod.fst) hin
    rw [zipIdx_map_fst] at hfst
    exact hfst
  · intro groupId
    rw [← hparts]
    unfold assignGroupIds
    simp only
    rw [mem_sortBy, mem_filter, List.map_map, mem_map]
    simp only [Function.comp, mem_eraseDups, mem_filterMap, mem_flatten,
      Bool.not_eq_true']
    rw [← Bool.not_eq_true, contains_iff_mem]
    constructor
    · intro h
      obtain ⟨⟨id, ⟨x, ⟨part, hpart, hx⟩, hget⟩, hid⟩, hnot⟩ := h
      rw [← hid]
      refine ⟨⟨part, hpart, x, hx, hget⟩, ?_⟩
      rw [hid]
      exact fun hin => hnot (mem_filterMap.mpr hin)
    · intro h
      obtain ⟨⟨part, hpart, x, hx, hget⟩, hnot⟩ := h
      exact ⟨⟨groupId, ⟨x, ⟨part, hpart, hx⟩, hget⟩, rfl⟩,
        fun hin => hnot (mem_filterMap.mp hin)⟩

variable {tables : CountingTables}

/-- Group tables as the foreign keys keep them. -/
structure Sound (tables : CountingTables) (groups : GroupTables) : Prop where
  ids : groups.groupIds.Nodup
  stored : ∀ x groupId, groups.members.get? x = some groupId →
    x ∈ tables.ids ∧ groupId ∈ groups.groupIds

/-- A character whose group is what the counting links join it to. -/
def Clean (tables : CountingTables) (groups : GroupTables) (x : ℕ) : Prop :=
  ∃ groupId, groups.members.get? x = some groupId ∧
    ∀ y, groups.members.get? y = some groupId ↔ Joined (rebuildEdges tables) x y

/-- What a recompute does: the characters it visits, closed under links and old groups,
end clean, and the others stay. -/
structure Recomputes (tables : CountingTables) (seed : ℕ) (before after : GroupTables)
    (visited : List ℕ) : Prop where
  sound : Sound tables after
  seed : seed ∈ visited
  touching : ∀ x ∈ visited, ∀ y, Touching tables before.members x y → y ∈ visited
  clean : ∀ x ∈ visited, Clean tables after x
  others : ∀ x, x ∉ visited → after.members.get? x = before.members.get? x

theorem groupIds_deleteGroups (ids : List ℕ) (groups : GroupTables) :
    (deleteGroups ids groups).groupIds = groups.groupIds.filter (fun id => !ids.contains id) := by
  unfold deleteGroups GroupTables.groupIds
  rw [filter_map]
  rfl

theorem get?_rows {groups : GroupTables} {p : GroupRow → Bool} {groupId : ℕ} {row : GroupRow}
    (h : (OrderedMap.ofList ((groups.groups.filter p).map (fun row => (row.id, row)))).get? groupId
      = some row) : row.id = groupId ∧ groupId ∈ groups.groupIds := by
  have hin := mem_of_mem_entries_ofList ((mem_entries_iff _ _ _).mpr h)
  obtain ⟨row', hrow', heq⟩ := mem_map.mp hin
  obtain ⟨hid, hsame⟩ := Prod.mk.inj heq
  rw [← hsame, ← hid]
  exact ⟨rfl, mem_map_of_mem (mem_of_mem_filter hrow')⟩

theorem get?_deleteGroups (ids : List ℕ) (groups : GroupTables) (x groupId : ℕ) :
    (deleteGroups ids groups).members.get? x = some groupId ↔
      groups.members.get? x = some groupId ∧ groupId ∉ ids := by
  unfold deleteGroups
  rw [get?_filterValues_eq_some]
  simp

/-- A recompute as it deletes: what it visited is divided into parts, and each part has a
group of its own. -/
structure Settling (tables : CountingTables) (seed : ℕ) (before assigned : GroupTables) (s : Closure)
    (parts : List (List ℕ)) (rows : OrderedMap ℕ GroupRow) (assignments : List GroupAssignment)
    (deleted : List ℕ) (groupOf : GroupAssignment → ℕ) : Prop where
  sound : Sound tables before
  closed : Closed tables before.members seed s
  divides : Divides s.nodes (rebuildEdges tables) parts
  assigns : AssignsIds parts (before.members.filterKeys s.nodes.contains) rows assignments deleted
  assigned : Assigned assignments before assigned groupOf

section Settled

variable {before assigned : GroupTables} {parts : List (List ℕ)}
variable {rows : OrderedMap ℕ GroupRow} {assignments : List GroupAssignment} {deleted : List ℕ}
variable {groupOf : GroupAssignment → ℕ}
variable (h : Settling tables seed before assigned s parts rows assignments deleted groupOf)

include h

theorem Settling.partOf {assignment : GroupAssignment} (hin : assignment ∈ assignments) :
    ∃ part ∈ parts, ∀ x, x ∈ assignment.members ↔ x ∈ part := by
  have hmem := mem_map_of_mem (f := GroupAssignment.members) hin
  rw [h.assigns.members] at hmem
  obtain ⟨part, hpart, heq⟩ := mem_map.mp hmem
  refine ⟨part, hpart, ?_⟩
  intro x
  rw [← heq, mem_sortBy]

theorem Settling.assignmentOf {x : ℕ} (hx : x ∈ s.nodes) :
    ∃ assignment ∈ assignments, x ∈ assignment.members := by
  obtain ⟨part, hpart, hxpart⟩ := h.divides.covers x hx
  have hmem := mem_map_of_mem (f := sortBy compare) hpart
  rw [← h.assigns.members] at hmem
  obtain ⟨assignment, hin, heq⟩ := mem_map.mp hmem
  refine ⟨assignment, hin, ?_⟩
  rw [heq, mem_sortBy]
  exact hxpart

theorem Settling.visited {assignment : GroupAssignment} (hin : assignment ∈ assignments) {x : ℕ}
    (hx : x ∈ assignment.members) : x ∈ s.nodes := by
  obtain ⟨part, hpart, hsame⟩ := h.partOf hin
  exact h.divides.inside part hpart x ((hsame x).mp hx)

theorem Settling.held {part : List ℕ} (hpart : part ∈ parts) {x : ℕ} (hx : x ∈ part) {groupId : ℕ}
    (hget : (before.members.filterKeys s.nodes.contains).get? x = some groupId) :
    x ∈ s.nodes ∧ before.members.get? x = some groupId := by
  have hin := h.divides.inside part hpart x hx
  rw [get?_filterKeys, if_pos (contains_iff_mem.mpr hin)] at hget
  exact ⟨hin, hget⟩

theorem Settling.of_deleted {groupId : ℕ} (hdel : groupId ∈ deleted) :
    ∃ x ∈ s.nodes, before.members.get? x = some groupId := by
  obtain ⟨⟨part, hpart, x, hx, hget⟩, -⟩ := (h.assigns.deletes groupId).mp hdel
  exact ⟨x, h.held hpart hx hget⟩

theorem Settling.grouped {assignment : GroupAssignment} (hin : assignment ∈ assignments) {x : ℕ}
    (hx : x ∈ assignment.members) :
    (deleteGroups deleted assigned).members.get? x = some (groupOf assignment) := by
  refine (get?_deleteGroups _ _ x _).mpr ⟨h.assigned.members assignment hin x hx, ?_⟩
  intro hdel
  rcases (h.assigned.keeps assignment hin).2 with hsome | ⟨-, hnew⟩
  · exact ((h.assigns.deletes _).mp hdel).2 (mem_filterMap.mpr ⟨assignment, hin, hsome⟩)
  · obtain ⟨y, -, hy⟩ := h.of_deleted hdel
    exact hnew (h.sound.stored y _ hy).2

theorem Settling.others {x : ℕ} (hx : x ∉ s.nodes) :
    (deleteGroups deleted assigned).members.get? x = before.members.get? x := by
  have hsame := h.assigned.others x (fun assignment hin hmem => hx (h.visited hin hmem))
  apply Option.ext
  intro groupId
  rw [get?_deleteGroups, hsame]
  refine ⟨And.left, fun hbefore => ⟨hbefore, ?_⟩⟩
  intro hdel
  obtain ⟨y, hy, hyGroup⟩ := h.of_deleted hdel
  exact hx (h.closed.touching y hy x (.inr ⟨groupId, hyGroup, hbefore⟩))

theorem Settling.soundAfter (hids : ∀ x ∈ s.nodes, x ∈ tables.ids) :
    Sound tables (deleteGroups deleted assigned) := by
  refine ⟨?_, ?_⟩
  · rw [groupIds_deleteGroups]
    exact h.assigned.ids.filter _
  · intro x groupId hx
    have hstored : x ∈ tables.ids ∧ groupId ∈ assigned.groupIds := by
      by_cases hin : x ∈ s.nodes
      · obtain ⟨assignment, hassignment, hmem⟩ := h.assignmentOf hin
        rw [h.grouped hassignment hmem] at hx
        rw [← Option.some.inj hx]
        exact ⟨hids x hin, (h.assigned.keeps assignment hassignment).1⟩
      · rw [h.others hin] at hx
        obtain ⟨hxIds, hgroup⟩ := h.sound.stored x groupId hx
        exact ⟨hxIds, h.assigned.stored groupId hgroup⟩
    refine ⟨hstored.1, ?_⟩
    rw [groupIds_deleteGroups, mem_filter]
    refine ⟨hstored.2, ?_⟩
    have hnot := ((get?_deleteGroups _ _ x groupId).mp hx).2
    simpa using hnot

/-- A group given to a part holds no character that was not visited: an old group of the
part is held by a visited character, which touches all that hold it. -/
theorem Settling.unvisited_apart {assignment : GroupAssignment} (hin : assignment ∈ assignments)
    {y : ℕ} (hy : y ∉ s.nodes) : before.members.get? y ≠ some (groupOf assignment) := by
  intro hget
  rcases (h.assigned.keeps assignment hin).2 with hsome | ⟨-, hnew⟩
  · obtain ⟨-, part, hpart, z, hzpart, hz⟩ :=
      h.assigns.held _ (mem_filterMap.mpr ⟨assignment, hin, hsome⟩)
    obtain ⟨hzIn, hzGroup⟩ := h.held hpart hzpart hz
    exact hy (h.closed.touching z hzIn y (.inr ⟨_, hzGroup, hget⟩))
  · exact hnew (h.sound.stored y _ hget).2

theorem Settling.clean {x : ℕ} (hx : x ∈ s.nodes) :
    Clean tables (deleteGroups deleted assigned) x := by
  obtain ⟨assignment, hin, hmem⟩ := h.assignmentOf hx
  obtain ⟨part, hpart, hsame⟩ := h.partOf hin
  have hclass := h.divides.joined part hpart x ((hsame x).mp hmem)
  refine ⟨groupOf assignment, h.grouped hin hmem, ?_⟩
  intro y
  constructor
  · intro hy
    by_cases hyIn : y ∈ s.nodes
    · obtain ⟨other, hother, hyMem⟩ := h.assignmentOf hyIn
      rw [h.grouped hother hyMem] at hy
      have heq : other = assignment :=
        inj_on_of_nodup_map h.assigned.distinct hother hin (Option.some.inj hy)
      rw [heq] at hyMem
      exact (hclass y hyIn).mp ((hsame y).mp hyMem)
    · rw [h.others hyIn] at hy
      exact absurd hy (h.unvisited_apart hin hyIn)
  · intro hjoined
    have hyIn := (h.closed.joined hx hjoined).1
    exact h.grouped hin ((hsame y).mpr ((hclass y hyIn).mpr hjoined))

theorem Settling.recomputes (hids : ∀ x ∈ s.nodes, x ∈ tables.ids) :
    Recomputes tables seed before (deleteGroups deleted assigned) s.nodes :=
  ⟨h.soundAfter hids, h.closed.visited, h.closed.touching, fun _ hx => h.clean hx,
    fun _ hx => h.others hx⟩

end Settled

theorem recomputes (supply : IdSupply) (clock : ℤ) {seed : ℕ} (hseed : seed ∈ tables.ids)
    {before : GroupTables} (hbefore : Sound tables before) :
    Recomputes tables seed before
      (recomputeComponent tables supply clock seed before).groups
      (recomputeComponent tables supply clock seed before).members := by
  have hmembers : ∀ x groupId, before.members.get? x = some groupId → x ∈ tables.ids :=
    fun x groupId hx => (hbefore.stored x groupId hx).1
  have hclosed := closed_closure hseed hmembers
  unfold recomputeComponent
  simp only
  generalize hrows : OrderedMap.ofList ((before.groups.filter (fun row =>
    (before.members.filterKeys (closure tables before.members seed).nodes.contains).values.contains
      row.id)).map (fun row => (row.id, row))) = rows
  have hread : ∀ groupId row, rows.get? groupId = some row →
      row.id = groupId ∧ groupId ∈ before.groupIds := by
    intro groupId row h
    rw [← hrows] at h
    exact get?_rows h
  have hdivides := hclosed.divides
  generalize components (closure tables before.members seed).nodes
    ((closure tables before.members seed).links.filter (fun link =>
      (closure tables before.members seed).nodes.contains link.1 &&
        (closure tables before.members seed).nodes.contains link.2)) = parts at hdivides ⊢
  have hassigns := assignsIds (fun groupId row h => (hread groupId row h).1) parts
    (before.members.filterKeys (closure tables before.members seed).nodes.contains)
  have hnonempty : ∀ assignment ∈ (assignGroupIds parts (before.members.filterKeys
      (closure tables before.members seed).nodes.contains) rows).1, assignment.members ≠ [] := by
    intro assignment hin
    have hmem := mem_map_of_mem (f := GroupAssignment.members) hin
    rw [hassigns.members] at hmem
    obtain ⟨part, hpart, heq⟩ := mem_map.mp hmem
    rw [← heq, ne_eq, sortBy_eq_nil]
    exact hdivides.nonempty part hpart
  have hapart : (assignGroupIds parts (before.members.filterKeys
      (closure tables before.members seed).nodes.contains) rows).1.Pairwise
        (fun a b => ∀ x ∈ a.members, x ∉ b.members) := by
    have hsorted := (hdivides.sorted (List.Perm.refl _)).apart
    rw [← hassigns.members, pairwise_map] at hsorted
    exact hsorted
  have hown : OwnGroups (assignGroupIds parts (before.members.filterKeys
      (closure tables before.members seed).nodes.contains) rows).1 before := by
    refine ⟨hassigns.once, ?_⟩
    intro groupId hin
    obtain ⟨⟨row, hrow⟩, -⟩ := hassigns.held groupId hin
    exact (hread groupId row hrow).2
  obtain ⟨groupOf, hassigned⟩ :=
    assigned_foldl supply clock before hbefore.ids hown hnonempty hapart
  exact Settling.recomputes ⟨hbefore, hclosed, hdivides, hassigns, hassigned⟩
    (fun x hx => hclosed.ids hseed hmembers hx)

end SlashWho.CharacterGroupRecomputes
