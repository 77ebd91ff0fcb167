import SlashWho.CharacterComponents
import SlashWho.CharacterGroupCycles

/-!
Recomputes from any seeds. One recompute leaves its visited characters grouped as the
counting links join them, and no group it deletes has a member by then. A later one
that starts from an unvisited seed visits none of them, so a whole list of seeds does to
all it visits what one recompute does.
-/

namespace SlashWho.CharacterSeedRecomputes

open List CharacterComponents CharacterGroupCycles CharacterGroupRecomputes
open CharacterGroups ComparatorSort Connectivity OrderedMap

variable {tables : CountingTables} {before after : GroupTables} {visited : List ℕ} {seed : ℕ}

section Visiting

/-- What recomputes that visited these characters, and no others, leave of the groups. -/
structure Regrouped (tables : CountingTables) (before after : GroupTables) (visited : List ℕ) :
    Prop where
  sound : Sound tables after
  touching : ∀ x ∈ visited, ∀ y, Touching tables before.members x y → y ∈ visited
  clean : ∀ x ∈ visited, Clean tables after x
  others : ∀ x, x ∉ visited → after.members.get? x = before.members.get? x

theorem regrouped_none (h : Sound tables before) : Regrouped tables before before [] :=
  ⟨h, fun _ hx => absurd hx not_mem_nil, fun _ hx => absurd hx not_mem_nil,
    fun _ _ => rfl⟩

theorem Regrouped.recompute (h : Regrouped tables before after visited) {later : GroupTables}
    {more : List ℕ} (hmore : Recomputes tables seed after later more) :
    Regrouped tables before later (visited ++ more) := by
  refine ⟨hmore.sound, ?_, ?_, ?_⟩
  · intro x hx y htouching
    rw [mem_append]
    by_cases hxIn : x ∈ visited
    · exact .inl (h.touching x hxIn y htouching)
    by_cases hyIn : y ∈ visited
    · exact .inl hyIn
    -- neither was visited before, so their groups are what they were
    right
    apply hmore.touching x ((mem_append.mp hx).resolve_left hxIn) y
    rcases htouching with hbeside | ⟨groupId, hxGroup, hyGroup⟩
    · exact .inl hbeside
    · refine .inr ⟨groupId, ?_, ?_⟩
      · rw [h.others x hxIn]
        exact hxGroup
      · rw [h.others y hyIn]
        exact hyGroup
  · intro x hx
    by_cases hxMore : x ∈ more
    · exact hmore.clean x hxMore
    · have hxIn := (mem_append.mp hx).resolve_right hxMore
      exact clean_of_not_visited hmore hxMore (h.clean x hxIn)
  · intro x hx
    rw [mem_append, not_or] at hx
    rw [hmore.others x hx.2, h.others x hx.1]

/-- A visited set closed under links and groups, divided by the links, in tables that are
otherwise as they were. -/
structure Separates (tables : CountingTables) (before after : GroupTables) (visited : List ℕ) :
    Prop where
  closedLinks : ∀ x ∈ visited, ∀ y, Beside (rebuildEdges tables) x y → y ∈ visited
  closedGroups : ∀ x ∈ visited, ∀ y, SameGroup before x y → y ∈ visited
  together : ∀ x ∈ visited, ∀ y ∈ visited,
    (SameGroup after x y ↔ Joined (rebuildEdges tables) x y)
  apart : ∀ x ∈ visited, ∀ y, y ∉ visited → ¬ SameGroup after x y
  frame : ∀ y, y ∉ visited → after.members.get? y = before.members.get? y
  emptied : ∀ groupId, groupId ∉ after.groupIds → ∀ x, after.members.get? x ≠ some groupId

theorem Regrouped.separates (h : Regrouped tables before after visited) :
    Separates tables before after visited := by
  refine ⟨?_, ?_, ?_, ?_, h.others, ?_⟩
  · intro x hx y hbeside
    exact h.touching x hx y (.inl hbeside)
  · intro x hx y hsame
    exact h.touching x hx y (.inr hsame)
  · intro x hx y _
    exact sameGroup_iff (h.clean x hx)
  · intro x hx y hy hsame
    have hjoined := (sameGroup_iff (h.clean x hx)).mp hsame
    rw [← reflTransGen_beside] at hjoined
    apply hy
    clear hsame hy
    induction hjoined with
    | refl => exact hx
    | tail _ hstep ih => exact h.touching _ ih _ (.inl hstep)
  · intro groupId hgone x hx
    exact hgone (h.sound.stored x groupId hx).2

end Visiting

section Deleting
variable (tables : CountingTables) (supply : IdSupply) (clock : ℤ) (seed : ℕ)
  (groups : GroupTables)

/-- What a recompute assigns to the parts it visits, and the groups it deletes. -/
def assignmentsOf : List GroupAssignment × List ℕ :=
  let closed := closure tables groups.members seed
  let membership := groups.members.filterKeys closed.nodes.contains
  assignGroupIds
    (components closed.nodes (closed.links.filter (fun link =>
      closed.nodes.contains link.1 && closed.nodes.contains link.2)))
    membership
    (OrderedMap.ofList ((groups.groups.filter (fun row =>
      membership.values.contains row.id)).map (fun row => (row.id, row))))

def assignedGroups : GroupTables :=
  (assignmentsOf tables seed groups).1.foldl (assign supply clock) groups

theorem recomputeComponent_groups :
    (recomputeComponent tables supply clock seed groups).groups =
      deleteGroups (assignmentsOf tables seed groups).2
        (assignedGroups tables supply clock seed groups) := by
  unfold recomputeComponent assignedGroups assignmentsOf
  simp only

theorem recomputeComponent_members :
    (recomputeComponent tables supply clock seed groups).members =
      (closure tables groups.members seed).nodes := by
  unfold recomputeComponent
  simp only

theorem members_assign (assignment : GroupAssignment) {x : ℕ} (hx : x ∉ assignment.members) :
    (assign supply clock groups assignment).members.get? x = groups.members.get? x := by
  obtain ⟨groupId, -, hmembers⟩ := assign_spec supply clock groups assignment
  rw [hmembers, if_neg hx]

theorem members_assigned {assignments : List GroupAssignment} {x : ℕ}
    (hx : ∀ assignment ∈ assignments, x ∉ assignment.members) :
    (assignments.foldl (assign supply clock) groups).members.get? x = groups.members.get? x := by
  induction assignments generalizing groups with
  | nil => rfl
  | cons assignment rest ih =>
    rw [foldl_cons, ih _ (fun other hother => hx other (mem_cons_of_mem _ hother)),
      members_assign supply clock groups assignment (hx assignment mem_cons_self)]

theorem members_visited {assignment : GroupAssignment} {x : ℕ}
    (hassignment : assignment ∈ (assignmentsOf tables seed groups).1)
    (hx : x ∈ assignment.members) :
    x ∈ (recomputeComponent tables supply clock seed groups).members := by
  rw [recomputeComponent_members]
  unfold assignmentsOf at hassignment
  simp only at hassignment
  generalize closure tables groups.members seed = closed at hassignment ⊢
  generalize hlinks : closed.links.filter (fun link =>
    closed.nodes.contains link.1 && closed.nodes.contains link.2) = links at hassignment
  have hends : ∀ link ∈ links, link.1 ∈ closed.nodes ∧ link.2 ∈ closed.nodes := by
    intro link hlink
    rw [← hlinks] at hlink
    have hin := (mem_filter.mp hlink).2
    rw [Bool.and_eq_true, contains_iff_mem, contains_iff_mem] at hin
    exact hin
  have hparts := listed_components closed.nodes links
  generalize components closed.nodes links = parts at hassignment hparts
  generalize hrows : OrderedMap.ofList ((groups.groups.filter (fun row =>
    (groups.members.filterKeys closed.nodes.contains).values.contains row.id)).map
      (fun row => (row.id, row))) = rows at hassignment
  have hread : ∀ groupId row, rows.get? groupId = some row → row.id = groupId := by
    intro groupId row h
    rw [← hrows] at h
    exact (get?_rows h).1
  have hids := assignsIds hread parts (groups.members.filterKeys closed.nodes.contains)
  have hmem := mem_map_of_mem (f := GroupAssignment.members) hassignment
  rw [hids.members] at hmem
  obtain ⟨part, hpart, heq⟩ := mem_map.mp hmem
  rw [← heq, mem_sortBy] at hx
  rcases mem_nodesOf.mp (hparts.divides.inside part hpart x hx) with hin | ⟨link, hlink, hend⟩
  · exact hin
  · rcases hend with hend | hend
    · rw [hend]
      exact (hends link hlink).1
    · rw [hend]
      exact (hends link hlink).2

end Deleting

/-- Where deleted groups still had a member, a visited character would be left with no
group or an unvisited one would have lost its own. -/
theorem emptied_of_deleted (visited : List ℕ) {assigned : GroupTables} {deleted : List ℕ}
    (hclean : ∀ x ∈ visited, ∃ groupId,
      (deleteGroups deleted assigned).members.get? x = some groupId)
    (hothers : ∀ x, x ∉ visited →
      (deleteGroups deleted assigned).members.get? x = assigned.members.get? x)
    {groupId : ℕ} (hdeleted : groupId ∈ deleted) (x : ℕ) :
    assigned.members.get? x ≠ some groupId := by
  intro hx
  have hgone : ∀ other, (deleteGroups deleted assigned).members.get? x ≠ some other := by
    intro other hother
    obtain ⟨hassigned, hkept⟩ := (get?_filterValues_eq_some _ _ _ _).mp hother
    rw [hx, Option.some.injEq] at hassigned
    rw [← hassigned] at hkept
    simp [hdeleted] at hkept
  by_cases hvisited : x ∈ visited
  · obtain ⟨other, hother⟩ := hclean x hvisited
    exact hgone other hother
  · exact hgone groupId ((hothers x hvisited).trans hx)

theorem emptied_before_delete (supply : IdSupply) (clock : ℤ) (hseed : seed ∈ tables.ids)
    (hbefore : Sound tables before) {groupId : ℕ}
    (hdeleted : groupId ∈ (assignmentsOf tables seed before).2) (x : ℕ) :
    (assignedGroups tables supply clock seed before).members.get? x ≠ some groupId := by
  have hrecomputes := recomputes supply clock hseed hbefore
  rw [recomputeComponent_groups] at hrecomputes
  apply emptied_of_deleted (recomputeComponent tables supply clock seed before).members _ _
    hdeleted x
  · intro x hx
    obtain ⟨groupId, hgroup, -⟩ := hrecomputes.clean x hx
    exact ⟨groupId, hgroup⟩
  · intro x hx
    rw [hrecomputes.others x hx]
    exact (members_assigned supply clock before (fun assignment hassignment hmem =>
      hx (members_visited tables supply clock seed before hassignment hmem))).symm

section Seeds

theorem regrouped_seeds (run : SeedRun) (h : Regrouped tables before run.groups run.done)
    (calls : List SeedCall) :
    Regrouped tables before (recomputeSeeds tables run calls).1.groups
        (recomputeSeeds tables run calls).1.done ∧
      (∀ x ∈ run.done, x ∈ (recomputeSeeds tables run calls).1.done) ∧
      ((recomputeSeeds tables run calls).2 = true →
        ∀ call ∈ calls, call.seed ∈ (recomputeSeeds tables run calls).1.done) ∧
      ((recomputeSeeds tables run calls).2 = false → ∃ call ∈ calls, call.seed ∉ tables.ids) := by
  induction calls generalizing run with
  | nil =>
    refine ⟨h, fun _ hx => hx, fun _ call hcall => absurd hcall not_mem_nil, ?_⟩
    intro hfailed
    cases hfailed
  | cons call rest ih =>
    unfold recomputeSeeds
    by_cases hdone : call.seed ∈ run.done
    · rw [if_pos (contains_iff_mem.mpr hdone)]
      obtain ⟨hrest, hkept, hseeds, hfailed⟩ := ih run h
      refine ⟨hrest, hkept, ?_, ?_⟩
      · intro hended other hother
        rcases mem_cons.mp hother with heq | hin
        · rw [heq]
          exact hkept _ hdone
        · exact hseeds hended other hin
      · intro hends
        obtain ⟨other, hother, hnot⟩ := hfailed hends
        exact ⟨other, mem_cons_of_mem _ hother, hnot⟩
    · rw [if_neg (by rw [contains_iff_mem]; exact hdone)]
      by_cases hids : call.seed ∈ tables.ids
      · rw [if_pos hids]
        have hrecomputes := recomputes call.supply call.clock hids h.sound
        have hnext := h.recompute hrecomputes
        obtain ⟨hrest, hkept, hseeds, hfailed⟩ := ih ⟨_, _, _⟩ hnext
        refine ⟨hrest, fun x hx => hkept x (mem_append_left _ hx), ?_, ?_⟩
        · intro hended other hother
          rcases mem_cons.mp hother with heq | hin
          · rw [heq]
            exact hkept _ (mem_append_right _ hrecomputes.seed)
          · exact hseeds hended other hin
        · intro hends
          obtain ⟨other, hother, hnot⟩ := hfailed hends
          exact ⟨other, mem_cons_of_mem _ hother, hnot⟩
      · rw [if_neg hids]
        refine ⟨h, fun _ hx => hx, ?_, ?_⟩
        · intro hended
          cases hended
        · intro _
          exact ⟨call, mem_cons_self, hids⟩

/-- Group tables with all that their keys keep. -/
structure StoredGroups (tables : CountingTables) where
  groups : GroupTables
  sound : Sound tables groups

/-- One recompute from any character, and any list of seeds: what they visit is closed
under links and stored groups and ends divided by the links, the rest stays, and the
groups they delete have no member left. -/
theorem recomputes_separate (tables : CountingTables) (stored : StoredGroups tables) :
    (∀ (seed : {id : ℕ // id ∈ tables.ids}) (supply : IdSupply) (clock : ℤ),
      seed.val ∈ (recomputeComponent tables supply clock seed stored.groups).members ∧
      Separates tables stored.groups
        (recomputeComponent tables supply clock seed stored.groups).groups
        (recomputeComponent tables supply clock seed stored.groups).members ∧
      ∀ groupId ∈ (assignmentsOf tables seed stored.groups).2, ∀ x,
        (assignedGroups tables supply clock seed stored.groups).members.get? x ≠ some groupId) ∧
    ∀ calls : List SeedCall,
      Separates tables stored.groups (recomputeGroupsOf tables stored.groups calls).1.groups
        (recomputeGroupsOf tables stored.groups calls).1.done ∧
      ((∀ call ∈ calls, call.seed ∈ (recomputeGroupsOf tables stored.groups calls).1.done) ∨
        ∃ call ∈ calls, call.seed ∉ tables.ids) := by
  have hnone := regrouped_none stored.sound
  refine ⟨?_, ?_⟩
  · intro seed supply clock
    have hrecomputes := recomputes supply clock seed.property stored.sound
    have hregrouped := hnone.recompute hrecomputes
    rw [nil_append] at hregrouped
    exact ⟨hrecomputes.seed, hregrouped.separates, fun groupId hdeleted x =>
      emptied_before_delete supply clock seed.property stored.sound hdeleted x⟩
  · intro calls
    obtain ⟨hregrouped, -, hseeds, hfailed⟩ :=
      regrouped_seeds ⟨stored.groups, [], 0⟩ hnone calls
    refine ⟨hregrouped.separates, ?_⟩
    cases hended : (recomputeGroupsOf tables stored.groups calls).2 with
    | true => exact .inl (hseeds hended)
    | false => exact .inr (hfailed hended)

def rebuiltPair : StoredGroups linkedPair :=
  ⟨rebuildGroups linkedPair 0, sound_rebuildGroups linkedPair 0⟩

theorem recomputes_separate_pair :
    (recomputeGroupsOf linkedPair rebuiltPair.groups [⟨2, idsAbove, 5⟩]).1.done = [2, 1] ∧
      Separates linkedPair rebuiltPair.groups
        (recomputeGroupsOf linkedPair rebuiltPair.groups [⟨2, idsAbove, 5⟩]).1.groups
        (recomputeGroupsOf linkedPair rebuiltPair.groups [⟨2, idsAbove, 5⟩]).1.done :=
  ⟨by decide +kernel, ((recomputes_separate linkedPair rebuiltPair).2 [⟨2, idsAbove, 5⟩]).1⟩

end Seeds

end SlashWho.CharacterSeedRecomputes
