import SlashWho.CharacterComponents
import SlashWho.CharacterGroupRecomputes

/-!
Which group each part keeps. A touched group has one heir, the part with most of its
members, of two with as many the one with the lowest; a part keeps the oldest of the
groups it is heir to, and what no part keeps is deleted. None of this depends on the
order of the parts, and parts named so are given the same names again.
-/

namespace SlashWho.GroupAssignments

open List

open CharacterComponents CharacterGroupRecomputes CharacterGroups ComparatorSort OrderedMap

variable (membership : OrderedMap ℕ ℕ) (groupId : ℕ)

def heldOf (part : List ℕ) : List ℕ :=
  part.filter (fun id => membership.get? id = some groupId)

/-- A part no other stands before: it holds most members of the group, and of parts that
hold as many it holds the lowest. -/
structure IsHeir (parts : List (List ℕ)) (part : List ℕ) : Prop where
  mem : part ∈ parts
  holds : heldOf membership groupId part ≠ []
  first : ∀ other ∈ parts, other ≠ part → heldOf membership groupId other ≠ [] →
    (heldOf membership groupId other).length < (heldOf membership groupId part).length ∨
    (heldOf membership groupId other).length = (heldOf membership groupId part).length ∧
      ∃ lowest ∈ heldOf membership groupId part, ∀ x ∈ heldOf membership groupId other, lowest < x

/-- A group that some part holds a member of. -/
def Touched (parts : List (List ℕ)) : Prop :=
  ∃ part ∈ parts, ∃ x ∈ part, membership.get? x = some groupId

variable {membership groupId} {parts : List (List ℕ)} {part : List ℕ}

variable {x : ℕ}

theorem mem_heldOf :
    x ∈ heldOf membership groupId part ↔ x ∈ part ∧ membership.get? x = some groupId := by
  unfold heldOf
  rw [mem_filter, decide_eq_true_eq]

theorem heldOf_ne_nil :
    heldOf membership groupId part ≠ [] ↔ ∃ x ∈ part, membership.get? x = some groupId := by
  constructor
  · intro h
    obtain ⟨x, hx⟩ := exists_mem_of_ne_nil _ h
    exact ⟨x, mem_heldOf.mp hx⟩
  · intro h
    obtain ⟨x, hx, hgroup⟩ := h
    exact ne_nil_of_mem (mem_heldOf.mpr ⟨hx, hgroup⟩)

theorem IsHeir.touched (h : IsHeir membership groupId parts part) :
    Touched membership groupId parts := by
  obtain ⟨x, hx⟩ := heldOf_ne_nil.mp h.holds
  exact ⟨part, h.mem, x, hx⟩

theorem IsHeir.unique {other : List ℕ} (h : IsHeir membership groupId parts part)
    (h' : IsHeir membership groupId parts other) : part = other := by
  by_contra hne
  have hless := h'.first part h.mem hne h.holds
  have hmore := h.first other h'.mem (Ne.symm hne) h'.holds
  rcases hless with hless | ⟨heq, a, ha, hbelow⟩
  · rcases hmore with hmore | ⟨heq', -⟩
    · omega
    · omega
  · rcases hmore with hmore | ⟨-, b, hb, hbelow'⟩
    · omega
    · have hab := hbelow b hb
      have hba := hbelow' a ha
      omega

theorem IsHeir.congr {parts' : List (List ℕ)} (h : IsHeir membership groupId parts part)
    (hsame : ∀ other, other ∈ parts' ↔ other ∈ parts) :
    IsHeir membership groupId parts' part :=
  ⟨(hsame part).mpr h.mem, h.holds, fun other hother => h.first other ((hsame other).mp hother)⟩

/-- The best part after one more: its place, how many it holds, and the lowest. -/
def heirStep (membership : OrderedMap ℕ ℕ) (groupId : ℕ) (best : Option (ℕ × ℕ × ℕ))
    (part : List ℕ × ℕ) : Option (ℕ × ℕ × ℕ) :=
  let held := part.1.filter (fun id => membership.get? id = some groupId)
  match held, best with
  | [], _ => best
  | lowest :: _, none => some (part.2, held.length, lowest)
  | lowest :: _, some (_, bestCount, bestLowest) =>
    if bestCount < held.length || (held.length = bestCount && lowest < bestLowest) then
      some (part.2, held.length, lowest)
    else best

theorem heir_eq (membership : OrderedMap ℕ ℕ) (sorted : List (List ℕ)) (groupId : ℕ) :
    heir membership sorted groupId =
      (sorted.zipIdx.foldl (heirStep membership groupId) none).map Prod.fst := rfl

theorem heirStep_nil {best : Option (ℕ × ℕ × ℕ)} {part : List ℕ × ℕ}
    (h : heldOf membership groupId part.1 = []) : heirStep membership groupId best part = best := by
  unfold heldOf at h
  unfold heirStep
  simp only [h]

variable {lowest : ℕ} {others : List ℕ}

theorem heirStep_none {part : List ℕ × ℕ}
    (h : heldOf membership groupId part.1 = lowest :: others) :
    heirStep membership groupId none part =
      some (part.2, (heldOf membership groupId part.1).length, lowest) := by
  unfold heldOf at h ⊢
  unfold heirStep
  simp only [h]

variable {index : ℕ}

theorem heirStep_some {part : List ℕ × ℕ} {count bestLowest : ℕ}
    (h : heldOf membership groupId part.1 = lowest :: others) :
    heirStep membership groupId (some (index, count, bestLowest)) part =
      if count < (heldOf membership groupId part.1).length ||
          ((heldOf membership groupId part.1).length = count && lowest < bestLowest) then
        some (part.2, (heldOf membership groupId part.1).length, lowest)
      else some (index, count, bestLowest) := by
  unfold heldOf at h ⊢
  unfold heirStep
  simp only [h]

/-- What a search for the heir holds: nothing where no part holds a member, else a part
that none before it in the list beats. -/
structure Best (membership : OrderedMap ℕ ℕ) (groupId : ℕ) (parts : List (List ℕ × ℕ))
    (best : Option (ℕ × ℕ × ℕ)) : Prop where
  none_of : best = none → ∀ part ∈ parts, heldOf membership groupId part.1 = []
  found : ∀ index count lowest, best = some (index, count, lowest) →
    ∃ part others, (part, index) ∈ parts ∧ heldOf membership groupId part = lowest :: others ∧
      count = (heldOf membership groupId part).length
  unbeaten : ∀ index count lowest, best = some (index, count, lowest) →
    ∀ part ∈ parts, ∀ first others, heldOf membership groupId part.1 = first :: others →
      ¬ (count < (heldOf membership groupId part.1).length ∨
        (heldOf membership groupId part.1).length = count ∧ first < lowest)

theorem Best.beaten {parts : List (List ℕ × ℕ)} {part : List ℕ × ℕ}
    (hheld : heldOf membership groupId part.1 = lowest :: others)
    (hbeats : ∀ other ∈ parts, ∀ first rest, heldOf membership groupId other.1 = first :: rest →
      ¬ ((heldOf membership groupId part.1).length < (heldOf membership groupId other.1).length ∨
        (heldOf membership groupId other.1).length = (heldOf membership groupId part.1).length ∧
          first < lowest)) :
    Best membership groupId (parts ++ [part])
      (some (part.2, (heldOf membership groupId part.1).length, lowest)) := by
  refine ⟨?_, ?_, ?_⟩
  · intro h
    cases h
  · intro index count low h
    cases h
    exact ⟨part.1, others, mem_append_right _ mem_cons_self, hheld, rfl⟩
  · intro index count low h other hother first rest hfirst
    cases h
    rcases mem_append.mp hother with hin | hin
    · exact hbeats other hin first rest hfirst
    · rw [mem_singleton.mp hin] at hfirst ⊢
      rw [hheld, List.cons.injEq] at hfirst
      omega

theorem best_foldl (membership : OrderedMap ℕ ℕ) (groupId : ℕ) (parts : List (List ℕ × ℕ)) :
    Best membership groupId parts (parts.foldl (heirStep membership groupId) none) := by
  induction parts using List.reverseRecOn with
  | nil =>
    refine ⟨fun _ part hpart => absurd hpart not_mem_nil, ?_, ?_⟩
    · intro index count lowest h
      cases h
    · intro index count lowest h
      cases h
  | append_singleton before part ih =>
    rw [foldl_append, foldl_cons, foldl_nil]
    generalize before.foldl (heirStep membership groupId) none = best at ih ⊢
    cases hheld : heldOf membership groupId part.1 with
    | nil =>
      -- a part that holds none changes nothing
      rw [heirStep_nil hheld]
      refine ⟨?_, ?_, ?_⟩
      · intro hnone other hother
        rcases mem_append.mp hother with hin | hin
        · exact ih.none_of hnone other hin
        · rw [mem_singleton.mp hin]
          exact hheld
      · intro index count lowest hsome
        obtain ⟨other, others, hin, hfound⟩ := ih.found index count lowest hsome
        exact ⟨other, others, mem_append_left _ hin, hfound⟩
      · intro index count lowest hsome other hother first others hfirst
        rcases mem_append.mp hother with hin | hin
        · exact ih.unbeaten index count lowest hsome other hin first others hfirst
        · rw [mem_singleton.mp hin, hheld] at hfirst
          cases hfirst
    | cons lowest others =>
      cases hbest : best with
      | none =>
        rw [heirStep_none hheld]
        apply Best.beaten hheld
        intro other hin first rest hfirst
        rw [ih.none_of hbest other hin] at hfirst
        cases hfirst
      | some best =>
        obtain ⟨index, count, bestLowest⟩ := best
        rw [heirStep_some hheld]
        have hunbeaten := ih.unbeaten index count bestLowest hbest
        split
        · rename_i hwins
          rw [Bool.or_eq_true, Bool.and_eq_true, decide_eq_true_eq, decide_eq_true_eq,
            decide_eq_true_eq] at hwins
          apply Best.beaten hheld
          intro other hin first rest hfirst
          have hother := hunbeaten other hin first rest hfirst
          omega
        · rename_i hloses
          rw [Bool.or_eq_true, Bool.and_eq_true, decide_eq_true_eq, decide_eq_true_eq,
            decide_eq_true_eq] at hloses
          refine ⟨?_, ?_, ?_⟩
          · intro hnone
            cases hnone
          · intro index' count' lowest' hsome
            cases hsome
            obtain ⟨other, others', hin, hfound⟩ := ih.found index count bestLowest hbest
            exact ⟨other, others', mem_append_left _ hin, hfound⟩
          · intro index' count' lowest' hsome other hother first others' hfirst
            cases hsome
            rcases mem_append.mp hother with hin | hin
            · exact hunbeaten other hin first others' hfirst
            · rw [mem_singleton.mp hin] at hfirst ⊢
              rw [hheld, List.cons.injEq] at hfirst
              omega

/-- Sorted parts no two of which share a member. -/
structure Apart (parts : List (List ℕ)) : Prop where
  sorted : ∀ part ∈ parts, part.Pairwise (· < ·)
  apart : parts.Pairwise (fun part other => ∀ x ∈ part, x ∉ other)

theorem Apart.eq_of_mem (h : Apart parts) {other : List ℕ} (hpart : part ∈ parts)
    (hother : other ∈ parts) (hx : x ∈ part) (hx' : x ∈ other) : part = other := by
  by_contra hne
  have hsymm : Std.Symm (fun part other : List ℕ => ∀ x ∈ part, x ∉ other) :=
    ⟨fun _ _ hdisjoint x hx hx' => hdisjoint x hx' hx⟩
  exact List.Pairwise.forall h.apart hpart hother hne x hx hx'

theorem Apart.index_eq (h : Apart parts) {index' : ℕ} (hpart : (part, index) ∈ parts.zipIdx)
    (hpart' : (part, index') ∈ parts.zipIdx) (hx : x ∈ part) : index = index' := by
  rw [mk_mem_zipIdx_iff_getElem?, getElem?_eq_some_iff] at hpart hpart'
  obtain ⟨hlt, heq⟩ := hpart
  obtain ⟨hlt', heq'⟩ := hpart'
  by_contra hne
  have hpairs := pairwise_iff_getElem.mp h.apart
  rcases Nat.lt_or_gt_of_ne hne with hless | hmore
  · exact hpairs index index' hlt hlt' hless x (heq ▸ hx) (heq' ▸ hx)
  · exact hpairs index' index hlt' hlt hmore x (heq' ▸ hx) (heq ▸ hx)

theorem Apart.lowest_le (h : Apart parts) (hpart : part ∈ parts)
    (hheld : heldOf membership groupId part = lowest :: others)
    (hx : x ∈ heldOf membership groupId part) : lowest ≤ x := by
  have hsorted : (heldOf membership groupId part).Pairwise (· < ·) :=
    (h.sorted part hpart).filter _
  rw [hheld] at hsorted hx
  rcases mem_cons.mp hx with heq | hin
  · omega
  · exact ((pairwise_cons.mp hsorted).1 x hin).le

theorem heir_eq_some (h : Apart parts) :
    heir membership parts groupId = some index ↔
      ∃ part, (part, index) ∈ parts.zipIdx ∧ IsHeir membership groupId parts part := by
  have hbest := best_foldl membership groupId parts.zipIdx
  have hplace : ∀ {part : List ℕ} {index : ℕ}, (part, index) ∈ parts.zipIdx → part ∈ parts := by
    intro part index hin
    have hfst := mem_map_of_mem (f := Prod.fst) hin
    rw [zipIdx_map_fst] at hfst
    exact hfst
  have hfound : ∀ {index : ℕ}, heir membership parts groupId = some index →
      ∃ part, (part, index) ∈ parts.zipIdx ∧ IsHeir membership groupId parts part := by
    intro index hheir
    rw [heir_eq] at hheir
    obtain ⟨⟨place, count, lowest⟩, hsome, hplaced⟩ := Option.map_eq_some_iff.mp hheir
    simp only at hplaced
    subst hplaced
    obtain ⟨part, others, hin, hheld, hcount⟩ := hbest.found place count lowest hsome
    refine ⟨part, hin, hplace hin, ?_, ?_⟩
    · rw [hheld]
      exact cons_ne_nil lowest others
    · intro other hother hne hholds
      obtain ⟨first, rest, hfirst⟩ := exists_cons_of_ne_nil hholds
      obtain ⟨spot, hspot⟩ := mem_iff_getElem?.mp hother
      have hunbeaten := hbest.unbeaten place count lowest hsome (other, spot)
        (mk_mem_zipIdx_iff_getElem?.mpr hspot) first rest hfirst
      simp only at hunbeaten
      by_cases hless : (heldOf membership groupId other).length <
          (heldOf membership groupId part).length
      · exact .inl hless
      · refine .inr ⟨by omega, lowest, by rw [hheld]; exact mem_cons_self, ?_⟩
        intro x hx
        have hfirstLe := h.lowest_le hother hfirst hx
        -- the two lowest members are of two parts, so they differ
        have hdiffers : lowest ≠ first := by
          intro heq
          have hin' : lowest ∈ part :=
            (mem_heldOf.mp (by rw [hheld]; exact mem_cons_self)).1
          have hother' : first ∈ other :=
            (mem_heldOf.mp (by rw [hfirst]; exact mem_cons_self)).1
          rw [← heq] at hother'
          exact hne (h.eq_of_mem hother (hplace hin) hother' hin')
        omega
  constructor
  · exact hfound
  · intro hheir
    obtain ⟨part, hin, hheir⟩ := hheir
    cases hsome : heir membership parts groupId with
    | none =>
      rw [heir_eq, Option.map_eq_none_iff] at hsome
      exact absurd (hbest.none_of hsome (part, index) hin) hheir.holds
    | some index' =>
      obtain ⟨part', hin', hheir'⟩ := hfound hsome
      rw [hheir'.unique hheir] at hin'
      obtain ⟨x, hx, -⟩ := heldOf_ne_nil.mp hheir.holds
      rw [h.index_eq hin' hin hx]

theorem exists_heir (h : Apart parts) (htouched : Touched membership groupId parts) :
    ∃ part, IsHeir membership groupId parts part := by
  cases hsome : heir membership parts groupId with
  | none =>
    rw [heir_eq, Option.map_eq_none_iff] at hsome
    obtain ⟨part, hpart, hholds⟩ := htouched
    obtain ⟨spot, hspot⟩ := mem_iff_getElem?.mp hpart
    exact absurd ((best_foldl membership groupId parts.zipIdx).none_of hsome (part, spot)
      (mk_mem_zipIdx_iff_getElem?.mpr hspot)) (heldOf_ne_nil.mpr hholds)
  | some index =>
    obtain ⟨part, -, hheir⟩ := (heir_eq_some h).mp hsome
    exact ⟨part, hheir⟩

variable {membership : OrderedMap ℕ ℕ} {rows : OrderedMap ℕ GroupRow}

/-- Rows in the order a part that is heir to several prefers them. -/
def olderFirst : GroupRow → GroupRow → Ordering :=
  compareLex (readBy GroupRow.createdAt compare) (readBy GroupRow.id compare)

instance : Std.TransCmp olderFirst :=
  inferInstanceAs (Std.TransCmp (compareLex (readBy GroupRow.createdAt compare)
    (readBy GroupRow.id compare)))

/-- The older of two groups, of two as old the one with the lower id. -/
def NotYounger (row other : GroupRow) : Prop :=
  row.createdAt < other.createdAt ∨ row.createdAt = other.createdAt ∧ row.id ≤ other.id

theorem notAfter_olderFirst {row other : GroupRow} :
    notAfter olderFirst row other ↔ NotYounger row other := by
  unfold notAfter olderFirst NotYounger compareLex readBy
  rw [ne_eq, Ordering.then_eq_gt, compare_gt_iff_gt, compare_eq_iff_eq, compare_gt_iff_gt]
  omega

/-- What a part keeps of the groups it is heir to. -/
structure KeepsOldest (membership : OrderedMap ℕ ℕ) (rows : OrderedMap ℕ GroupRow)
    (parts : List (List ℕ)) (assignment : GroupAssignment) : Prop where
  oldest : ∀ groupId, assignment.groupId = some groupId →
    IsHeir membership groupId parts assignment.members ∧
    ∃ row, rows.get? groupId = some row ∧ ∀ other otherRow,
      IsHeir membership other parts assignment.members → rows.get? other = some otherRow →
        NotYounger row otherRow
  none_of : assignment.groupId = none → ∀ groupId,
    IsHeir membership groupId parts assignment.members → rows.get? groupId = none

/-- The rows a part chooses from. -/
def candidatesOf (membership : OrderedMap ℕ ℕ) (rows : OrderedMap ℕ GroupRow)
    (parts : List (List ℕ)) (index : ℕ) : List GroupRow :=
  ((((parts.flatten.filterMap membership.get?).eraseDups).map (fun groupId =>
    (groupId, heir membership parts groupId))).filter (fun entry =>
      entry.2 = some index)).filterMap (fun entry => rows.get? entry.1)

theorem mem_candidatesOf (h : Apart parts) {part : List ℕ} {index : ℕ}
    (hplace : (part, index) ∈ parts.zipIdx) {row : GroupRow} :
    row ∈ candidatesOf membership rows parts index ↔
      ∃ groupId, IsHeir membership groupId parts part ∧ rows.get? groupId = some row := by
  have hheir : ∀ groupId, heir membership parts groupId = some index ↔
      IsHeir membership groupId parts part := by
    intro groupId
    rw [heir_eq_some h]
    constructor
    · intro hsome
      obtain ⟨other, hother, hheir⟩ := hsome
      rw [mk_mem_zipIdx_iff_getElem?] at hother hplace
      rw [hplace, Option.some.injEq] at hother
      rw [hother]
      exact hheir
    · exact fun hheir => ⟨part, hplace, hheir⟩
  unfold candidatesOf
  simp only [mem_filterMap, mem_filter, mem_map, mem_eraseDups,
    decide_eq_true_eq]
  constructor
  · intro hrow
    obtain ⟨entry, ⟨⟨groupId, -, hentry⟩, hindex⟩, hget⟩ := hrow
    rw [← hentry] at hindex hget
    exact ⟨groupId, (hheir groupId).mp hindex, hget⟩
  · intro hrow
    obtain ⟨groupId, hisHeir, hget⟩ := hrow
    obtain ⟨part', hpart', x, hx, hgroup⟩ := hisHeir.touched
    refine ⟨(groupId, heir membership parts groupId), ⟨⟨groupId, ?_, rfl⟩, ?_⟩, hget⟩
    · exact ⟨x, mem_flatten.mpr ⟨part', hpart', hx⟩, hgroup⟩
    · exact (hheir groupId).mpr hisHeir

variable {assignment : GroupAssignment}

theorem mem_assignments (h : assignment ∈ (assignGroupIds parts membership rows).1) :
    ∃ index, (assignment.members, index) ∈ (parts.map (sortBy compare)).zipIdx ∧
      assignment.groupId = (sortBy olderFirst (candidatesOf membership rows
        (parts.map (sortBy compare)) index)).head?.map GroupRow.id := by
  unfold assignGroupIds at h
  simp only at h
  obtain ⟨⟨part, index⟩, hin, heq⟩ := mem_map.mp h
  rw [← heq]
  exact ⟨index, hin, rfl⟩

theorem keepsOldest (hrows : rows.FiledBy GroupRow.id) (hapart : Apart (parts.map (sortBy compare)))
    (h : assignment ∈ (assignGroupIds parts membership rows).1) :
    KeepsOldest membership rows (parts.map (sortBy compare)) assignment := by
  obtain ⟨index, hplace, hkept⟩ := mem_assignments h
  have hsorted := pairwise_sortBy olderFirst (candidatesOf membership rows
    (parts.map (sortBy compare)) index)
  have hmem : ∀ row, row ∈ sortBy olderFirst (candidatesOf membership rows
      (parts.map (sortBy compare)) index) ↔ ∃ groupId,
        IsHeir membership groupId (parts.map (sortBy compare)) assignment.members ∧
          rows.get? groupId = some row := by
    intro row
    rw [mem_sortBy, mem_candidatesOf hapart hplace]
  generalize sortBy olderFirst (candidatesOf membership rows
    (parts.map (sortBy compare)) index) = candidates at hkept hsorted hmem
  refine ⟨?_, ?_⟩
  · intro groupId hgroup
    rw [hkept] at hgroup
    obtain ⟨row, hhead, hid⟩ := Option.map_eq_some_iff.mp hgroup
    obtain ⟨rest, hcons⟩ := head?_eq_some_iff.mp hhead
    obtain ⟨groupId', hheir, hget⟩ := (hmem row).mp (mem_of_mem_head? hhead)
    have hsame : groupId' = groupId := by rw [← hid, hrows groupId' row hget]
    rw [hsame] at hheir hget
    refine ⟨hheir, row, hget, ?_⟩
    intro other otherRow hother hotherRow
    have hin := (hmem otherRow).mpr ⟨other, hother, hotherRow⟩
    rw [hcons] at hin hsorted
    rcases mem_cons.mp hin with heq | hrest
    · rw [heq]
      exact .inr ⟨rfl, le_rfl⟩
    · exact notAfter_olderFirst.mp ((pairwise_cons.mp hsorted).1 otherRow hrest)
  · intro hnone groupId hheir
    rw [hkept, Option.map_eq_none_iff, head?_eq_none_iff] at hnone
    by_contra hrow
    obtain ⟨row, hget⟩ := Option.ne_none_iff_exists'.mp hrow
    have hin := (hmem row).mpr ⟨groupId, hheir, hget⟩
    rw [hnone] at hin
    exact absurd hin not_mem_nil

/-- So what a part keeps is settled by the parts there are, not by their order. -/
theorem KeepsOldest.unique (hrows : rows.FiledBy GroupRow.id) {parts' : List (List ℕ)}
    {other : GroupAssignment} (h : KeepsOldest membership rows parts assignment)
    (h' : KeepsOldest membership rows parts' other) (hsame : ∀ part, part ∈ parts ↔ part ∈ parts')
    (hmembers : assignment.members = other.members) : assignment.groupId = other.groupId := by
  have hback : ∀ part, part ∈ parts' ↔ part ∈ parts := fun part => (hsame part).symm
  cases hone : assignment.groupId with
  | none =>
    cases htwo : other.groupId with
    | none => rfl
    | some groupId =>
      obtain ⟨hheir, row, hget, -⟩ := h'.oldest groupId htwo
      rw [← hmembers] at hheir
      rw [h.none_of hone groupId (hheir.congr hsame)] at hget
      cases hget
  | some groupId =>
    obtain ⟨hheir, row, hget, hold⟩ := h.oldest groupId hone
    rw [hmembers] at hheir
    cases htwo : other.groupId with
    | none =>
      rw [h'.none_of htwo groupId (hheir.congr hback)] at hget
      cases hget
    | some groupId' =>
      obtain ⟨hheir', row', hget', hold'⟩ := h'.oldest groupId' htwo
      have hless := hold' groupId row (hheir.congr hback) hget
      rw [← hmembers] at hheir'
      have hmore := hold groupId' row' (hheir'.congr hsame) hget'
      have hid := hrows groupId row hget
      have hid' := hrows groupId' row' hget'
      unfold NotYounger at hless hmore
      congr 1
      omega

variable {parts' : List (List ℕ)}

theorem apart_sorted (h : parts.flatten.Nodup) : Apart (parts.map (sortBy compare)) := by
  obtain ⟨hnodup, hdisjoint⟩ := nodup_flatten.mp h
  refine ⟨?_, ?_⟩
  · intro part hpart
    obtain ⟨old, hold, heq⟩ := mem_map.mp hpart
    rw [← heq]
    exact pairwise_lt_sortBy (hnodup old hold)
  · rw [pairwise_map]
    apply hdisjoint.imp
    intro part other hpair x hx hx'
    rw [mem_sortBy] at hx hx'
    exact hpair hx hx'

theorem touched_sorted {groupId : ℕ} :
    Touched membership groupId (parts.map (sortBy compare)) ↔
      Touched membership groupId parts := by
  unfold Touched
  simp only [mem_map]
  constructor
  · intro h
    obtain ⟨part, ⟨old, hold, heq⟩, x, hx, hgroup⟩ := h
    rw [← heq, mem_sortBy] at hx
    exact ⟨old, hold, x, hx, hgroup⟩
  · intro h
    obtain ⟨part, hpart, x, hx, hgroup⟩ := h
    exact ⟨_, ⟨part, hpart, rfl⟩, x, (mem_sortBy _).mpr hx, hgroup⟩

theorem Touched.congr {groupId : ℕ} (h : Touched membership groupId parts)
    (hsame : ∀ part ∈ parts, part ∈ parts') : Touched membership groupId parts' := by
  obtain ⟨part, hpart, hholds⟩ := h
  exact ⟨part, hsame part hpart, hholds⟩

theorem eq_map_of_reads {α β γ : Type} {f : α → γ} {g : β → γ} {h : β → α} {l : List α}
    {l' : List β} (hreads : l.map f = l'.map g)
    (hsettles : ∀ x ∈ l, ∀ y ∈ l', f x = g y → x = h y) : l = l'.map h := by
  induction l generalizing l' with
  | nil =>
    rw [map_nil] at hreads
    rw [map_eq_nil_iff.mp hreads.symm]
    rfl
  | cons x rest ih =>
    cases l' with
    | nil => cases hreads
    | cons y rest' =>
      rw [map_cons, map_cons, List.cons.injEq] at hreads
      rw [map_cons, ← hsettles x mem_cons_self y mem_cons_self hreads.1]
      rw [← ih hreads.2 (fun x hx y hy =>
        hsettles x (mem_cons_of_mem _ hx) y (mem_cons_of_mem _ hy))]

def keptOf (assignments : List GroupAssignment) (part : List ℕ) : Option ℕ :=
  (assignments.find? (fun assignment => assignment.members = part)).bind GroupAssignment.groupId

theorem assignments_eq_map (membership : OrderedMap ℕ ℕ) (hrows : rows.FiledBy GroupRow.id)
    (hapart : Apart (parts.map (sortBy compare))) (hapart' : Apart (parts'.map (sortBy compare)))
    (hsame : ∀ part, part ∈ parts'.map (sortBy compare) ↔ part ∈ parts.map (sortBy compare)) :
    (assignGroupIds parts' membership rows).1 = (parts'.map (sortBy compare)).map (fun part =>
      ⟨keptOf (assignGroupIds parts membership rows).1 part, part⟩) := by
  have hreads := (assignsIds hrows parts' membership).members
  rw [← map_id (parts'.map (sortBy compare))] at hreads
  apply eq_map_of_reads hreads
  intro assignment hassignment part hpart heq
  rw [id_eq] at heq
  have hin := (hsame part).mp hpart
  rw [← (assignsIds hrows parts membership).members] at hin
  obtain ⟨other, hother, hmembers⟩ := mem_map.mp hin
  cases hfound : (assignGroupIds parts membership rows).1.find? (fun assignment =>
      assignment.members = part) with
  | none =>
    have hnone := find?_eq_none.mp hfound other hother
    simp [hmembers] at hnone
  | some first =>
    have hfirst := keepsOldest hrows hapart (mem_of_find?_eq_some hfound)
    have hread := find?_some hfound
    rw [decide_eq_true_eq] at hread
    have hkept := (keepsOldest hrows hapart' hassignment).unique hrows hfirst hsame
      (heq.trans hread.symm)
    unfold keptOf
    rw [hfound, Option.bind_some, ← hkept, ← heq]

theorem pairwise_deleted (parts : List (List ℕ)) (membership : OrderedMap ℕ ℕ)
    (rows : OrderedMap ℕ GroupRow) :
    (assignGroupIds parts membership rows).2.Pairwise (· < ·) := by
  unfold assignGroupIds
  simp only
  apply pairwise_lt_sortBy
  apply List.Nodup.filter
  rw [map_map]
  change (List.map id _).Nodup
  rw [map_id]
  exact Connectivity.nodup_eraseDups _

theorem assignGroupIds_perm (hrows : rows.FiledBy GroupRow.id) (hparts : parts.flatten.Nodup)
    (hperm : List.Perm parts' parts) :
    List.Perm (assignGroupIds parts' membership rows).1 (assignGroupIds parts membership rows).1 ∧
      (assignGroupIds parts' membership rows).2 = (assignGroupIds parts membership rows).2 := by
  have hapart := apart_sorted hparts
  have hapart' : Apart (parts'.map (sortBy compare)) :=
    apart_sorted ((hperm.flatten).nodup_iff.mpr hparts)
  have hsorted := hperm.map (sortBy (compare : ℕ → ℕ → Ordering))
  have hassignments : List.Perm (assignGroupIds parts' membership rows).1
      (assignGroupIds parts membership rows).1 := by
    have hone := assignments_eq_map membership hrows hapart hapart'
      (fun part => hsorted.mem_iff)
    have htwo := assignments_eq_map membership hrows hapart hapart
      (fun part => Iff.rfl)
    exact (List.Perm.of_eq hone).trans ((hsorted.map _).trans (List.Perm.of_eq htwo.symm))
  refine ⟨hassignments, ?_⟩
  apply (pairwise_deleted parts' membership rows).eq_of_mem_iff
    (pairwise_deleted parts membership rows)
  intro groupId
  rw [(assignsIds hrows parts' membership).deletes, (assignsIds hrows parts membership).deletes,
    (hassignments.filterMap GroupAssignment.groupId).mem_iff]
  have htouched : Touched membership groupId parts' ↔ Touched membership groupId parts :=
    ⟨fun h => h.congr (fun _ hpart => hperm.mem_iff.mp hpart),
      fun h => h.congr (fun _ hpart => hperm.mem_iff.mpr hpart)⟩
  exact and_congr htouched Iff.rfl

structure DisjointParts where
  parts : List (List ℕ)
  disjoint : parts.flatten.Nodup

structure RowsById where
  rows : OrderedMap ℕ GroupRow
  filed : rows.FiledBy GroupRow.id

/-- What the assignment of group ids is for: every part once, every id at most once, and
every touched group kept by its heir alone or deleted, not both. -/
structure AssignsExactly (membership : OrderedMap ℕ ℕ) (rows : OrderedMap ℕ GroupRow)
    (parts : List (List ℕ)) (assignments : List GroupAssignment) (deleted : List ℕ) : Prop where
  members : assignments.map GroupAssignment.members = parts.map (sortBy compare)
  once : (assignments.filterMap GroupAssignment.groupId).Nodup
  heirs : ∀ groupId, Touched membership groupId parts → ∃ assignment ∈ assignments,
    IsHeir membership groupId (parts.map (sortBy compare)) assignment.members
  split : ∀ groupId, Touched membership groupId parts →
    (groupId ∈ deleted ∧ ∀ assignment ∈ assignments, assignment.groupId ≠ some groupId) ∨
    (groupId ∉ deleted ∧ ∃ assignment ∈ assignments, assignment.groupId = some groupId ∧
      ∀ other ∈ assignments, other.groupId = some groupId → other = assignment)
  touched : ∀ groupId, (groupId ∈ deleted ∨ ∃ assignment ∈ assignments,
    assignment.groupId = some groupId) → Touched membership groupId parts
  oldest : ∀ assignment ∈ assignments,
    KeepsOldest membership rows (parts.map (sortBy compare)) assignment

/-- The tables a result leaves: every part named by the id it kept, or by a new one where
it kept none and has members, or by none yet. -/
structure Rerun (assignments : List GroupAssignment) extends RowsById where
  named : GroupAssignment → Option ℕ
  membership : OrderedMap ℕ ℕ
  keeps : ∀ assignment ∈ assignments, ∀ groupId, assignment.groupId = some groupId →
    named assignment = some groupId
  distinct : (assignments.filterMap named).Nodup
  inhabited : ∀ assignment ∈ assignments, named assignment ≠ none → assignment.members ≠ []
  members : ∀ assignment ∈ assignments, ∀ x ∈ assignment.members,
    membership.get? x = named assignment
  stored : ∀ assignment ∈ assignments, ∀ groupId, named assignment = some groupId →
    ∃ row, rows.get? groupId = some row

theorem assignsExactly (hrows : rows.FiledBy GroupRow.id) (hparts : parts.flatten.Nodup) :
    AssignsExactly membership rows parts (assignGroupIds parts membership rows).1
      (assignGroupIds parts membership rows).2 := by
  have hids := assignsIds hrows parts membership
  have hapart := apart_sorted hparts
  have holdest : ∀ assignment ∈ (assignGroupIds parts membership rows).1,
      KeepsOldest membership rows (parts.map (sortBy compare)) assignment :=
    fun assignment hassignment => keepsOldest hrows hapart hassignment
  refine ⟨hids.members, hids.once, ?_, ?_, ?_, holdest⟩
  · intro groupId htouched
    obtain ⟨part, hheir⟩ := exists_heir hapart (touched_sorted.mpr htouched)
    have hin := hheir.mem
    rw [← hids.members] at hin
    obtain ⟨assignment, hassignment, heq⟩ := mem_map.mp hin
    refine ⟨assignment, hassignment, ?_⟩
    rw [heq]
    exact hheir
  · intro groupId htouched
    by_cases hkept : groupId ∈ (assignGroupIds parts membership rows).1.filterMap
        GroupAssignment.groupId
    · right
      refine ⟨fun hdeleted => ((hids.deletes groupId).mp hdeleted).2 hkept, ?_⟩
      obtain ⟨assignment, hassignment, hgroup⟩ := mem_filterMap.mp hkept
      refine ⟨assignment, hassignment, hgroup, ?_⟩
      intro other hother hgroup'
      -- both are the group's heir, so they are one part
      have hheir := ((holdest assignment hassignment).oldest groupId hgroup).1
      have hheir' := ((holdest other hother).oldest groupId hgroup').1
      have hmembers := hheir'.unique hheir
      obtain ⟨id, members⟩ := assignment
      obtain ⟨id', members'⟩ := other
      simp only at hgroup hgroup' hmembers
      rw [hgroup, hgroup', hmembers]
    · left
      refine ⟨(hids.deletes groupId).mpr ⟨htouched, hkept⟩, ?_⟩
      intro assignment hassignment hgroup
      exact hkept (mem_filterMap.mpr ⟨assignment, hassignment, hgroup⟩)
  · intro groupId h
    rcases h with hdeleted | ⟨assignment, hassignment, hgroup⟩
    · exact ((hids.deletes groupId).mp hdeleted).1
    · exact touched_sorted.mp ((holdest assignment hassignment).oldest groupId hgroup).1.touched

variable {assignments : List GroupAssignment}

theorem Rerun.eq_of_named (h : Rerun assignments) {assignment other : GroupAssignment} {groupId : ℕ}
    (hassignment : assignment ∈ assignments) (hother : other ∈ assignments)
    (hnamed : h.named assignment = some groupId) (hnamed' : h.named other = some groupId) :
    assignment = other := by
  by_contra hne
  have hpairs := pairwise_filterMap.mp h.distinct
  have hsymm : Std.Symm (fun a b : GroupAssignment =>
      ∀ x, h.named a = some x → ∀ y, h.named b = some y → x ≠ y) :=
    ⟨fun _ _ hpair x hx y hy heq => hpair y hy x hx heq.symm⟩
  exact List.Pairwise.forall hpairs hassignment hother hne groupId hnamed groupId hnamed' rfl

/-- In the tables a result leaves, the part a group names is its heir. -/
theorem Rerun.isHeir (h : Rerun assignments) {assignment : GroupAssignment}
    (hassignment : assignment ∈ assignments) {groupId : ℕ} :
    IsHeir h.membership groupId (assignments.map GroupAssignment.members) assignment.members ↔
      h.named assignment = some groupId := by
  constructor
  · intro hheir
    obtain ⟨x, hx, hgroup⟩ := heldOf_ne_nil.mp hheir.holds
    rw [← h.members assignment hassignment x hx]
    exact hgroup
  · intro hnamed
    refine ⟨mem_map_of_mem hassignment, ?_, ?_⟩
    · rw [heldOf_ne_nil]
      have hnone : h.named assignment ≠ none := by
        rw [hnamed]
        exact Option.some_ne_none groupId
      obtain ⟨x, hx⟩ := exists_mem_of_ne_nil _ (h.inhabited assignment hassignment hnone)
      exact ⟨x, hx, by rw [h.members assignment hassignment x hx, hnamed]⟩
    · intro other hother hne hholds
      obtain ⟨holder, hholder, heq⟩ := mem_map.mp hother
      obtain ⟨x, hx, hgroup⟩ := heldOf_ne_nil.mp hholds
      rw [← heq] at hx
      rw [h.members holder hholder x hx] at hgroup
      rw [h.eq_of_named hholder hassignment hgroup hnamed] at heq
      exact absurd heq.symm hne

theorem Rerun.same (h : Rerun assignments)
    (hapart : Apart (assignments.map GroupAssignment.members)) :
    assignGroupIds (assignments.map GroupAssignment.members) h.membership h.rows =
      (assignments.map (fun assignment => ⟨h.named assignment, assignment.members⟩), []) := by
  have hsorted : (assignments.map GroupAssignment.members).map (sortBy compare) =
      assignments.map GroupAssignment.members := by
    conv_rhs => rw [← map_id (assignments.map GroupAssignment.members)]
    apply map_congr_left
    intro part hpart
    apply List.Pairwise.insertionSort_eq
    apply (hapart.sorted part hpart).imp
    intro a b hlt
    unfold notAfter
    rw [ne_eq, compare_gt_iff_gt]
    omega
  have hids := assignsIds h.filed (assignments.map GroupAssignment.members) h.membership
  have hmembers := hids.members
  rw [hsorted] at hmembers
  have hfirst : (assignGroupIds (assignments.map GroupAssignment.members) h.membership h.rows).1 =
      assignments.map (fun assignment => ⟨h.named assignment, assignment.members⟩) := by
    apply eq_map_of_reads hmembers
    intro result hresult assignment hassignment heq
    have hkeeps : KeepsOldest h.membership h.rows
        ((assignments.map GroupAssignment.members).map (sortBy compare)) result :=
      keepsOldest h.filed (by rw [hsorted]; exact hapart) hresult
    rw [hsorted] at hkeeps
    have hgroup : result.groupId = h.named assignment := by
      cases hkept : result.groupId with
      | none =>
        cases hnamed : h.named assignment with
        | none => rfl
        | some groupId =>
          have hheir := (h.isHeir hassignment).mpr hnamed
          rw [← heq] at hheir
          obtain ⟨row, hrow⟩ := h.stored assignment hassignment groupId hnamed
          rw [hkeeps.none_of hkept groupId hheir] at hrow
          cases hrow
      | some groupId =>
        have hheir := (hkeeps.oldest groupId hkept).1
        rw [heq] at hheir
        exact ((h.isHeir hassignment).mp hheir).symm
    rw [← hgroup, ← heq]
  refine Prod.ext hfirst ?_
  apply eq_nil_iff_forall_not_mem.mpr
  intro groupId hdeleted
  obtain ⟨⟨part, hpart, x, hx, hgroup⟩, hnot⟩ := (hids.deletes groupId).mp hdeleted
  obtain ⟨assignment, hassignment, heq⟩ := mem_map.mp hpart
  rw [← heq] at hx
  rw [h.members assignment hassignment x hx] at hgroup
  apply hnot
  rw [hfirst]
  exact mem_filterMap.mpr ⟨_, mem_map_of_mem hassignment, hgroup⟩

/-- Group ids are assigned exactly: to heirs, once, the oldest of several, whatever the
order of the parts, and again the same on the tables the result leaves. -/
theorem assignGroupIds_exact (parts : DisjointParts) (membership : OrderedMap ℕ ℕ)
    (stored : RowsById) :
    AssignsExactly membership stored.rows parts.parts
      (assignGroupIds parts.parts membership stored.rows).1
      (assignGroupIds parts.parts membership stored.rows).2 ∧
    (∀ parts' : List (List ℕ), List.Perm parts' parts.parts →
      List.Perm (assignGroupIds parts' membership stored.rows).1
        (assignGroupIds parts.parts membership stored.rows).1 ∧
      (assignGroupIds parts' membership stored.rows).2 =
        (assignGroupIds parts.parts membership stored.rows).2) ∧
    ∀ rerun : Rerun (assignGroupIds parts.parts membership stored.rows).1,
      assignGroupIds ((assignGroupIds parts.parts membership stored.rows).1.map
          GroupAssignment.members) rerun.membership rerun.rows =
        ((assignGroupIds parts.parts membership stored.rows).1.map (fun assignment =>
          ⟨rerun.named assignment, assignment.members⟩), []) := by
  refine ⟨assignsExactly stored.filed parts.disjoint, ?_, ?_⟩
  · intro parts' hperm
    exact assignGroupIds_perm stored.filed parts.disjoint hperm
  · intro rerun
    apply rerun.same
    rw [(assignsIds stored.filed parts.parts membership).members]
    exact apart_sorted parts.disjoint

def evenParts : DisjointParts := ⟨[[4, 2], [1, 3]], by decide⟩

def oneGroup : OrderedMap ℕ ℕ := .ofList [(1, 7), (2, 7), (3, 7), (4, 7)]

def storedRows (rows : List GroupRow) : RowsById where
  rows := .ofList (rows.map (fun row => (row.id, row)))
  filed := filedBy_ofList GroupRow.id rows

/-- An even split of a group: the part of its lowest member keeps it. -/
theorem assigned_even : assignGroupIds evenParts.parts oneGroup (storedRows [⟨7, 0, 0⟩]).rows =
    ([⟨none, [2, 4]⟩, ⟨some 7, [1, 3]⟩], []) := by
  decide +kernel

/-- The tables afterwards, where the other part has a group of its own. -/
def rerunEven :
    Rerun (assignGroupIds evenParts.parts oneGroup (storedRows [⟨7, 0, 0⟩]).rows).1 where
  toRowsById := storedRows [⟨7, 0, 0⟩, ⟨9, 1, 1⟩]
  named := fun assignment => some (assignment.groupId.getD 9)
  membership := .ofList [(1, 7), (3, 7), (2, 9), (4, 9)]
  keeps := by
    intro assignment _ groupId hgroup
    rw [hgroup]
    rfl
  distinct := by
    rw [assigned_even]
    decide
  inhabited := by
    rw [assigned_even]
    decide
  members := by
    rw [assigned_even]
    decide
  stored := by
    rw [assigned_even]
    intro assignment hin groupId hnamed
    rcases mem_cons.mp hin with rfl | hin
    · obtain rfl := Option.some.inj hnamed
      exact ⟨_, rfl⟩
    · obtain rfl := mem_singleton.mp hin
      obtain rfl := Option.some.inj hnamed
      exact ⟨_, rfl⟩

theorem assignGroupIds_exact_even :
    let first := assignGroupIds evenParts.parts oneGroup (storedRows [⟨7, 0, 0⟩]).rows
    first = ([⟨none, [2, 4]⟩, ⟨some 7, [1, 3]⟩], []) ∧
      assignGroupIds (first.1.map GroupAssignment.members) rerunEven.membership rerunEven.rows =
        (first.1.map (fun assignment => ⟨rerunEven.named assignment, assignment.members⟩), []) :=
  ⟨assigned_even,
    (assignGroupIds_exact evenParts oneGroup (storedRows [⟨7, 0, 0⟩])).2.2 rerunEven⟩

end SlashWho.GroupAssignments
