import SlashWho.ApplicantLinks

/-!
What the applicant tables keep under every order of passes, sweeps and polls. The
counters of an application and its undecided members add up to the members it was
recorded with; a decision is made for an undecided member only; members belong to
open applications.
-/

namespace SlashWho.ApplicantOutcomes

open List ApplicantIntents ApplicantApplications ApplicantLinks

variable {α κ : Type}

theorem split_at_key {key : α → κ} {l : List α} (hnodup : (l.map key).Nodup) {x : α}
    (hx : x ∈ l) :
    ∃ before rest, l = before ++ x :: rest ∧ (∀ y ∈ before, key y ≠ key x) ∧
      ∀ y ∈ rest, key y ≠ key x := by
  obtain ⟨before, rest, hl⟩ := append_of_mem hx
  refine ⟨before, rest, hl, ?_⟩
  rw [hl, map_append, map_cons, nodup_append, nodup_cons] at hnodup
  obtain ⟨-, ⟨hrest, -⟩, hbefore⟩ := hnodup
  constructor
  · intro y hy hkey
    exact hbefore (key y) (mem_map_of_mem hy) (key x) mem_cons_self hkey
  · intro y hy hkey
    rw [← hkey] at hrest
    exact hrest (mem_map_of_mem hy)

theorem eq_of_key {key : α → κ} {l : List α} (hnodup : (l.map key).Nodup) {x y : α}
    (hx : x ∈ l) (hy : y ∈ l) (hkey : key x = key y) : x = y := by
  exact inj_on_of_nodup_map hnodup hx hy hkey

variable {tables : LinkTables}

def memberKey (member : Member) : ℕ × ℕ := (member.applicationId, member.ordinal)

def decisionKey (decision : Decision) : ℕ × ℕ := (decision.applicationId, decision.ordinal)

/-- What every order of steps keeps of the applicant tables. -/
structure Kept (tables : LinkTables) : Prop where
  ids : (tables.applications.map Application.id).Nodup
  fresh : ∀ row ∈ tables.applications, row.id < tables.nextApplication
  membersFresh : ∀ member ∈ tables.members, member.applicationId < tables.nextApplication
  decisionsFresh : ∀ decision ∈ tables.decisions,
    decision.applicationId < tables.nextApplication
  ordinals : (tables.members.map memberKey).Nodup
  ofOpen : ∀ member ∈ tables.members, ∀ row ∈ tables.applications,
    row.id = member.applicationId → row.closedAt = none
  conserved : ∀ row ∈ tables.applications,
    row.outcomes.total + undecided tables row.id = tables.recordedMembers row.id
  once : (tables.decisions.map decisionKey).Nodup
  decided : ∀ decision ∈ tables.decisions, ∀ member ∈ tables.members,
    memberKey member = decisionKey decision → member.outcome ≠ none

/-- What an application's decisions stand at. -/
structure Standing where
  counters : List (OutcomeCounts × Option ℤ)
  members : List Member
  decisions : List Decision

def standing (tables : LinkTables) (id : ℕ) : Standing where
  counters := (tables.applications.filter (fun row => row.id = id)).map
    (fun row => (row.outcomes, row.closedAt))
  members := tables.members.filter (fun member => member.applicationId = id)
  decisions := tables.decisions.filter (fun decision => decision.applicationId = id)

variable {change : Application → Application}

theorem mem_updateApplication {id : ℕ} {rows : List Application} {row : Application} :
    row ∈ updateApplication id change rows ↔
      ∃ old ∈ rows, (if old.id = id then change old else old) = row := by
  unfold updateApplication
  rw [mem_map]

theorem map_id_updateApplication {id : ℕ} (hchange : ∀ row, (change row).id = row.id)
    (rows : List Application) :
    (updateApplication id change rows).map Application.id = rows.map Application.id := by
  unfold updateApplication
  rw [map_map]
  apply map_congr_left
  intro row hrow
  simp only [Function.comp]
  split
  · exact hchange row
  · rfl

theorem filter_updateApplication {id other : ℕ} (hchange : ∀ row, (change row).id = row.id)
    (hother : other ≠ id) (rows : List Application) :
    (updateApplication id change rows).filter (fun row => row.id = other) =
      rows.filter (fun row => row.id = other) := by
  unfold updateApplication
  induction rows with
  | nil => rfl
  | cons row rest ih =>
    rw [map_cons]
    by_cases hid : row.id = id
    · have hold : row.id ≠ other := by omega
      have hnew : (change row).id ≠ other := by rw [hchange]; exact hold
      rw [if_pos hid, filter_cons_of_neg (by simpa using hnew),
        filter_cons_of_neg (by simpa using hold), ih]
    · rw [if_neg hid, filter_cons, filter_cons, ih]

variable {member : Member}

theorem undecided_decide (h : Kept tables) (hmember : member ∈ tables.members)
    (hopen : member.outcome = none) (outcome : Outcome) :
    undecided (tables.decide member.applicationId member.ordinal outcome)
      member.applicationId + 1 = undecided tables member.applicationId := by
  obtain ⟨before, rest, hl, hbefore, hrest⟩ := split_at_key h.ordinals hmember
  have hsame : ∀ other : Member, memberKey other ≠ memberKey member →
      (if other.applicationId = member.applicationId && other.ordinal = member.ordinal then
        { other with outcome := some outcome } else other) = other := by
    intro other hother
    apply if_neg
    intro hboth
    simp only [Bool.and_eq_true, decide_eq_true_eq] at hboth
    exact hother (Prod.ext hboth.1 hboth.2)
  have hleft := map_congr_left (fun other hother => hsame other (hbefore other hother))
  have hright := map_congr_left (fun other hother => hsame other (hrest other hother))
  unfold undecided LinkTables.decide
  simp only
  rw [hl, map_append, map_cons, hleft, hright]
  simp only [map_id', countP_append, countP_cons, hopen]
  simp
  omega

theorem undecided_decide_of_ne {id other : ℕ} (hother : other ≠ id) (ordinal : ℕ)
    (outcome : Outcome) :
    undecided (tables.decide id ordinal outcome) other = undecided tables other := by
  unfold undecided LinkTables.decide
  simp only
  rw [countP_map]
  apply countP_congr
  intro member hmember
  simp only [Function.comp]
  split
  · rename_i hboth
    simp only [Bool.and_eq_true, decide_eq_true_eq] at hboth
    have hid : member.applicationId ≠ other := by omega
    simp [hid]
  · exact Iff.rfl

theorem map_memberKey_decide (tables : LinkTables) (id ordinal : ℕ) (outcome : Outcome) :
    (tables.decide id ordinal outcome).members.map memberKey = tables.members.map memberKey := by
  unfold LinkTables.decide
  simp only [map_map]
  apply map_congr_left
  intro member hmember
  simp only [Function.comp]
  split <;> rfl

theorem mem_members_decide {id ordinal : ℕ} {outcome : Outcome}
    (h : member ∈ (tables.decide id ordinal outcome).members) :
    ∃ old ∈ tables.members, memberKey member = memberKey old ∧
      (memberKey old = (id, ordinal) → member.outcome = some outcome) ∧
      (memberKey old ≠ (id, ordinal) → member = old) := by
  unfold LinkTables.decide at h
  obtain ⟨old, hold, hmember⟩ := mem_map.mp h
  refine ⟨old, hold, ?_⟩
  by_cases hkey : memberKey old = (id, ordinal)
  · have hboth := Prod.mk.inj hkey
    rw [if_pos (by simp [hboth.1, hboth.2])] at hmember
    subst hmember
    exact ⟨rfl, fun _ => rfl, fun hne => absurd hkey hne⟩
  · have hnot : ¬ (old.applicationId = id && old.ordinal = ordinal) = true := by
      intro hboth
      simp only [Bool.and_eq_true, decide_eq_true_eq] at hboth
      exact hkey (Prod.ext hboth.1 hboth.2)
    rw [if_neg hnot] at hmember
    subst hmember
    exact ⟨rfl, fun heq => absurd heq hkey, fun _ => rfl⟩

theorem Kept.decide (h : Kept tables) (hmember : member ∈ tables.members)
    (hopen : member.outcome = none) (outcome : Outcome) :
    Kept (tables.decide member.applicationId member.ordinal outcome) := by
  have hids : (tables.decide member.applicationId member.ordinal outcome).applications.map
      Application.id = tables.applications.map Application.id := by
    apply map_id_updateApplication
    intro row
    rfl
  refine ⟨?_, ?_, ?_, ?_, ?_, ?_, ?_, ?_, ?_⟩
  · rw [hids]
    exact h.ids
  · intro row hrow
    obtain ⟨old, hold, hchanged⟩ := mem_updateApplication.mp hrow
    have hid : row.id = old.id := by rw [← hchanged]; split <;> rfl
    rw [hid]
    exact h.fresh old hold
  · intro other hother
    obtain ⟨old, hold, hkey, -⟩ := mem_members_decide hother
    rw [show other.applicationId = old.applicationId from (Prod.mk.inj hkey).1]
    exact h.membersFresh old hold
  · intro decision hdecision
    rcases mem_append.mp hdecision with hin | hin
    · exact h.decisionsFresh decision hin
    · rw [mem_singleton.mp hin]
      exact h.membersFresh member hmember
  · rw [map_memberKey_decide]
    exact h.ordinals
  · intro other hother row hrow hid
    obtain ⟨old, hold, hkey, -⟩ := mem_members_decide hother
    obtain ⟨before, hbefore, hchanged⟩ := mem_updateApplication.mp hrow
    have hsame : row.id = before.id ∧ row.closedAt = before.closedAt := by
      rw [← hchanged]
      split <;> exact ⟨rfl, rfl⟩
    rw [hsame.2]
    apply h.ofOpen old hold before hbefore
    rw [← hsame.1, hid]
    exact (Prod.mk.inj hkey).1
  · intro row hrow
    obtain ⟨old, hold, hchanged⟩ := mem_updateApplication.mp hrow
    have hrecorded := h.conserved old hold
    by_cases hid : old.id = member.applicationId
    · rw [if_pos hid] at hchanged
      subst hchanged
      simp only
      rw [OutcomeCounts.total_add]
      have hone := undecided_decide h hmember hopen outcome
      rw [hid] at hrecorded ⊢
      change old.outcomes.total + 1 + _ = tables.recordedMembers member.applicationId
      omega
    · rw [if_neg hid] at hchanged
      subst hchanged
      rw [undecided_decide_of_ne hid]
      exact hrecorded
  · change ((tables.decisions ++ _).map decisionKey).Nodup
    rw [map_append, nodup_append]
    refine ⟨h.once, by simp, ?_⟩
    intro key hkey other hother heq
    obtain ⟨decision, hdecision, hdecided⟩ := mem_map.mp hkey
    rw [map_singleton, mem_singleton] at hother
    apply h.decided decision hdecision member hmember ?_ hopen
    rw [hdecided, heq, hother]
    rfl
  · intro decision hdecision other hother hsame
    obtain ⟨old, hold, hkey, hnow, helse⟩ := mem_members_decide hother
    by_cases hthis : memberKey old = (member.applicationId, member.ordinal)
    · rw [hnow hthis]
      exact Option.some_ne_none outcome
    · rw [helse hthis]
      rcases mem_append.mp hdecision with hin | hin
      · exact h.decided decision hin old hold (by rw [← hkey, hsame])
      · rw [mem_singleton.mp hin] at hsame
        exact absurd (hkey.symm.trans hsame) hthis

theorem standing_decide {id other : ℕ} (hother : other ≠ id) (ordinal : ℕ) (outcome : Outcome)
    (tables : LinkTables) :
    standing (tables.decide id ordinal outcome) other = standing tables other := by
  unfold standing LinkTables.decide
  simp only [Standing.mk.injEq]
  refine ⟨?_, ?_, ?_⟩
  · rw [filter_updateApplication _ hother]
    intro row
    rfl
  · induction tables.members with
    | nil => rfl
    | cons member rest ih =>
      rw [map_cons, filter_cons, filter_cons, ih]
      by_cases hthis : member.applicationId = id && member.ordinal = ordinal
      · rw [if_pos hthis]
        simp only [Bool.and_eq_true, decide_eq_true_eq] at hthis
        have hid : member.applicationId ≠ other := by omega
        simp [hid]
      · rw [if_neg hthis]
  · rw [filter_append]
    have hid : id ≠ other := fun heq => hother heq.symm
    simp [hid]

theorem undecided_close_of_ne {id other : ℕ} (hother : other ≠ id) (clock : ℤ) :
    undecided (tables.close clock id) other = undecided tables other := by
  unfold undecided LinkTables.close
  simp only
  rw [countP_filter]
  apply countP_congr
  intro member hmember
  by_cases hid : member.applicationId = other
  · simp [hid, hother]
  · simp [hid]

theorem undecided_close_self (id : ℕ) (clock : ℤ) (tables : LinkTables) :
    undecided (tables.close clock id) id = 0 := by
  unfold undecided LinkTables.close
  simp only
  rw [countP_eq_zero]
  intro member hmember
  have hid := (mem_filter.mp hmember).2
  simp only [decide_eq_true_eq] at hid
  simp [hid]

theorem Kept.close (h : Kept tables) {id : ℕ} (hnone : undecided tables id = 0) (clock : ℤ) :
    Kept (tables.close clock id) := by
  have hmembers : ∀ member ∈ (tables.close clock id).members,
      member ∈ tables.members ∧ member.applicationId ≠ id := by
    intro member hmember
    obtain ⟨hin, hid⟩ := mem_filter.mp hmember
    exact ⟨hin, by simpa using hid⟩
  refine ⟨?_, ?_, ?_, h.decisionsFresh, ?_, ?_, ?_, h.once, ?_⟩
  · change ((updateApplication id _ tables.applications).map Application.id).Nodup
    rw [map_id_updateApplication]
    · exact h.ids
    · intro row
      rfl
  · intro row hrow
    obtain ⟨old, hold, hchanged⟩ := mem_updateApplication.mp hrow
    have hid : row.id = old.id := by rw [← hchanged]; split <;> rfl
    rw [hid]
    exact h.fresh old hold
  · intro member hmember
    exact h.membersFresh member (hmembers member hmember).1
  · exact h.ordinals.sublist ((filter_sublist).map memberKey)
  · intro member hmember row hrow hid
    obtain ⟨hin, hother⟩ := hmembers member hmember
    obtain ⟨old, hold, hchanged⟩ := mem_updateApplication.mp hrow
    by_cases hthis : old.id = id
    · rw [if_pos hthis] at hchanged
      rw [← hchanged] at hid
      exact absurd (hid.symm.trans hthis) hother
    · rw [if_neg hthis] at hchanged
      rw [← hchanged] at hid ⊢
      exact h.ofOpen member hin old hold hid
  · intro row hrow
    obtain ⟨old, hold, hchanged⟩ := mem_updateApplication.mp hrow
    have hrecorded := h.conserved old hold
    by_cases hthis : old.id = id
    · rw [if_pos hthis] at hchanged
      subst hchanged
      simp only
      rw [hthis] at hrecorded ⊢
      rw [undecided_close_self]
      rw [hnone] at hrecorded
      exact hrecorded
    · rw [if_neg hthis] at hchanged
      subst hchanged
      rw [undecided_close_of_ne hthis]
      exact hrecorded
  · intro decision hdecision member hmember
    exact h.decided decision hdecision member (hmembers member hmember).1

theorem standing_close {id other : ℕ} (hother : other ≠ id) (clock : ℤ) (tables : LinkTables) :
    standing (tables.close clock id) other = standing tables other := by
  unfold standing LinkTables.close
  simp only [Standing.mk.injEq, and_true]
  refine ⟨?_, ?_⟩
  · rw [filter_updateApplication _ hother]
    intro row
    rfl
  · rw [filter_filter]
    apply filter_congr
    intro member hmember
    by_cases hid : member.applicationId = other
    · simp [hid, hother]
    · simp [hid]

variable {tables' : LinkTables}

/-- Rows that keep their id, counters and closing keep the tables, whatever else of
them and of the members' intents changes. -/
theorem Kept.same (h : Kept tables) (change : Application → Application)
    (hchange : ∀ row, (change row).id = row.id ∧ (change row).closedAt = row.closedAt ∧
      (change row).outcomes = row.outcomes)
    (changeMember : Member → Member)
    (hmember : ∀ member, memberKey (changeMember member) = memberKey member ∧
      (changeMember member).outcome = member.outcome) (intents : List Intent) :
    Kept { tables with
      intents := intents
      applications := tables.applications.map change
      members := tables.members.map changeMember } := by
  have hundecided : ∀ id, (tables.members.map changeMember).countP (fun member =>
      member.applicationId = id && member.outcome.isNone) = undecided tables id := by
    intro id
    rw [countP_map]
    apply countP_congr
    intro member hin
    obtain ⟨hkey, houtcome⟩ := hmember member
    have hid : (changeMember member).applicationId = member.applicationId :=
      (Prod.mk.inj hkey).1
    simp only [Function.comp, hid, houtcome]
  refine ⟨?_, ?_, ?_, h.decisionsFresh, ?_, ?_, ?_, h.once, ?_⟩
  · have hsame : (tables.applications.map change).map Application.id =
        tables.applications.map Application.id := by
      rw [map_map]
      exact map_congr_left (fun row hrow => (hchange row).1)
    rw [hsame]
    exact h.ids
  · intro row hrow
    obtain ⟨old, hold, hchanged⟩ := mem_map.mp hrow
    rw [← hchanged, (hchange old).1]
    exact h.fresh old hold
  · intro member hin
    obtain ⟨old, hold, hchanged⟩ := mem_map.mp hin
    rw [← hchanged, show (changeMember old).applicationId = old.applicationId from
      (Prod.mk.inj (hmember old).1).1]
    exact h.membersFresh old hold
  · have hsame : (tables.members.map changeMember).map memberKey =
        tables.members.map memberKey := by
      rw [map_map]
      exact map_congr_left (fun member hin => (hmember member).1)
    rw [hsame]
    exact h.ordinals
  · intro member hin row hrow hid
    obtain ⟨old, hold, hchanged⟩ := mem_map.mp hin
    obtain ⟨before, hbefore, hupdated⟩ := mem_map.mp hrow
    rw [← hupdated, (hchange before).2.1]
    apply h.ofOpen old hold before hbefore
    rw [← hupdated, ← hchanged, (hchange before).1] at hid
    rw [hid]
    exact (Prod.mk.inj (hmember old).1).1
  · intro row hrow
    obtain ⟨old, hold, hchanged⟩ := mem_map.mp hrow
    rw [← hchanged, (hchange old).1, (hchange old).2.2]
    have hrecorded := h.conserved old hold
    rw [← hundecided old.id] at hrecorded
    exact hrecorded
  · intro decision hdecision member hin hkey
    obtain ⟨old, hold, hchanged⟩ := mem_map.mp hin
    rw [← hchanged, (hmember old).1] at hkey
    rw [← hchanged, (hmember old).2]
    exact h.decided decision hdecision old hold hkey

theorem Kept.sameRows (h : Kept tables) {change : Application → Application}
    (hchange : ∀ row, (change row).id = row.id ∧ (change row).closedAt = row.closedAt ∧
      (change row).outcomes = row.outcomes) :
    Kept { tables with applications := tables.applications.map change } := by
  have hkept := h.same change hchange id (fun member => ⟨rfl, rfl⟩) tables.intents
  rw [map_id] at hkept
  exact hkept

theorem Kept.settle (h : Kept tables) (clock : ℤ) :
    Kept (settleApplicantApplications clock tables) := by
  apply h.sameRows
  intro row
  split <;> exact ⟨rfl, rfl, rfl⟩

theorem Kept.tie (h : Kept tables) (identity : String) (sequence : ℕ) :
    Kept (tieTables identity sequence tables) := by
  have hkept := h.same id (fun row => ⟨rfl, rfl, rfl⟩)
    (fun member =>
      if member.identity = identity && member.memberIntentSequence.isNone &&
          tables.applications.any (fun application =>
            application.id = member.applicationId && application.closedAt.isNone) then
        { member with memberIntentSequence := some sequence }
      else member)
    (by intro member; split <;> exact ⟨rfl, rfl⟩) tables.intents
  rw [map_id] at hkept
  exact hkept

theorem Kept.others (h : Kept tables) (intents : List Intent) :
    Kept { tables with intents := intents } :=
  ⟨h.ids, h.fresh, h.membersFresh, h.decisionsFresh, h.ordinals, h.ofOpen, h.conserved, h.once,
    h.decided⟩

/-- The row a sweep leaves of an application it does not delete. -/
def sweep (now : ℤ) (tables : LinkTables) (row : Application) : Application :=
  if isStale now row then
    { row with
      closedAt := some now
      outcomes := row.outcomes.add .expired (undecided tables row.id) }
  else row

theorem sweep_id (now : ℤ) (tables : LinkTables) (row : Application) :
    (sweep now tables row).id = row.id := by
  unfold sweep
  split <;> rfl

variable {now : ℤ}

theorem mem_swept {row : Application}
    (h : row ∈ (closeStaleApplicantApplications now tables).applications) :
    ∃ old ∈ tables.applications, sweep now tables old = row :=
  mem_map.mp (mem_of_mem_filter h)

theorem mem_staleIds (h : Kept tables) {row : Application} (hrow : row ∈ tables.applications) :
    row.id ∈ staleIds now tables ↔ isStale now row := by
  constructor
  · intro hid
    obtain ⟨other, hother, hsame⟩ := mem_map.mp hid
    obtain ⟨hin, hstale⟩ := mem_filter.mp hother
    rw [← eq_of_key h.ids hin hrow hsame]
    exact hstale
  · intro hstale
    exact mem_map_of_mem (mem_filter.mpr ⟨hrow, hstale⟩)

theorem mem_members_swept {member : Member}
    (h : member ∈ (closeStaleApplicantApplications now tables).members) :
    member ∈ tables.members ∧ member.applicationId ∉ staleIds now tables := by
  obtain ⟨hin, hstale⟩ := mem_filter.mp h
  refine ⟨hin, ?_⟩
  simpa using hstale

theorem mem_decisions_swept {decision : Decision}
    (h : decision ∈ (closeStaleApplicantApplications now tables).decisions) :
    decision ∈ tables.decisions ∨ ∃ member ∈ tables.members,
      member.applicationId ∈ staleIds now tables ∧ member.outcome = none ∧
        decisionKey decision = memberKey member := by
  rcases mem_append.mp h with hin | hin
  · exact .inl hin
  · right
    obtain ⟨member, hmember, hdecision⟩ := mem_map.mp hin
    obtain ⟨hmember, hboth⟩ := mem_filter.mp hmember
    simp only [Bool.and_eq_true, contains_iff_mem, Option.isNone_iff_eq_none] at hboth
    refine ⟨member, hmember, hboth.1, hboth.2, ?_⟩
    rw [← hdecision]
    rfl

theorem undecided_swept (now : ℤ) (tables : LinkTables) (id : ℕ) :
    undecided (closeStaleApplicantApplications now tables) id =
      if id ∈ staleIds now tables then 0 else undecided tables id := by
  unfold undecided closeStaleApplicantApplications
  simp only
  rw [countP_filter]
  split
  · rename_i hstale
    rw [countP_eq_zero]
    intro member hmember hboth
    simp only [Bool.and_eq_true, Bool.not_eq_true', decide_eq_true_eq] at hboth
    rw [hboth.1.1] at hboth
    have hin : (staleIds now tables).contains id = true := contains_iff_mem.mpr hstale
    rw [hin] at hboth
    exact Bool.noConfusion hboth.2
  · rename_i hstale
    apply countP_congr
    intro member hmember
    by_cases hid : member.applicationId = id
    · have hout : (staleIds now tables).contains id = false := by
        rw [← Bool.not_eq_true, contains_iff_mem]
        exact hstale
      rw [hid, hout]
      simp
    · simp [hid]

theorem Kept.closeStale (h : Kept tables) (now : ℤ) :
    Kept (closeStaleApplicantApplications now tables) := by
  refine ⟨?_, ?_, ?_, ?_, ?_, ?_, ?_, ?_, ?_⟩
  · have hsame : (tables.applications.map (sweep now tables)).map Application.id =
        tables.applications.map Application.id := by
      rw [map_map]
      exact map_congr_left (fun row hrow => sweep_id now tables row)
    have hnodup : ((tables.applications.map (sweep now tables)).map Application.id).Nodup := by
      rw [hsame]
      exact h.ids
    exact hnodup.sublist (filter_sublist.map Application.id)
  · intro row hrow
    obtain ⟨old, hold, hswept⟩ := mem_swept hrow
    rw [← hswept, sweep_id]
    exact h.fresh old hold
  · intro member hmember
    exact h.membersFresh member (mem_members_swept hmember).1
  · intro decision hdecision
    rcases mem_decisions_swept hdecision with hin | ⟨member, hmember, -, -, hkey⟩
    · exact h.decisionsFresh decision hin
    · rw [show decision.applicationId = member.applicationId from (Prod.mk.inj hkey).1]
      exact h.membersFresh member hmember
  · exact h.ordinals.sublist (filter_sublist.map memberKey)
  · intro member hmember row hrow hid
    obtain ⟨hin, hout⟩ := mem_members_swept hmember
    obtain ⟨old, hold, hswept⟩ := mem_swept hrow
    rw [← hswept, sweep_id] at hid
    rw [← hid, mem_staleIds h hold] at hout
    rw [← hswept]
    unfold sweep
    rw [if_neg hout]
    exact h.ofOpen member hin old hold hid
  · intro row hrow
    obtain ⟨old, hold, hswept⟩ := mem_swept hrow
    have hrecorded := h.conserved old hold
    rw [← hswept, sweep_id, undecided_swept]
    change _ = tables.recordedMembers old.id
    unfold sweep
    by_cases hstale : isStale now old
    · rw [if_pos hstale, if_pos ((mem_staleIds h hold).mpr hstale)]
      simp only
      rw [OutcomeCounts.total_add]
      exact hrecorded
    · rw [if_neg hstale, if_neg (fun hin => hstale ((mem_staleIds h hold).mp hin))]
      exact hrecorded
  · change ((tables.decisions ++ _).map decisionKey).Nodup
    rw [map_append, map_map, nodup_append]
    refine ⟨h.once, ?_, ?_⟩
    · change ((tables.members.filter _).map memberKey).Nodup
      exact h.ordinals.sublist (filter_sublist.map memberKey)
    · intro key hkey other hother heq
      obtain ⟨decision, hdecision, hdecided⟩ := mem_map.mp hkey
      obtain ⟨member, hmember, hexpired⟩ := mem_map.mp hother
      obtain ⟨hmember, hboth⟩ := mem_filter.mp hmember
      simp only [Bool.and_eq_true, Option.isNone_iff_eq_none] at hboth
      apply h.decided decision hdecision member hmember ?_ hboth.2
      rw [hdecided, heq, ← hexpired]
      rfl
  · intro decision hdecision member hmember hkey
    obtain ⟨hin, hout⟩ := mem_members_swept hmember
    rcases mem_decisions_swept hdecision with hold | ⟨other, -, hstale, -, hsame⟩
    · exact h.decided decision hold member hin hkey
    · have hid : member.applicationId = other.applicationId :=
        (Prod.mk.inj (hkey.trans hsame)).1
      rw [hid] at hout
      exact absurd hstale hout

/-- What a recording adds: nothing, or one application with the next id, its members
undecided; a closed one has no members. -/
theorem recordTables_cases (now : ℤ) (rows : List IntakeRow) (rootIdentity : String)
    (rootSequence : ℕ) (rootSuppressed : Bool) (rootObservedAt : ℤ) (carriedMark : ℚ)
    (tables : LinkTables) :
    let recorded := recordTables now rows rootIdentity rootSequence rootSuppressed rootObservedAt
      carriedMark tables
    (recorded.applications = tables.applications ∧ recorded.members = tables.members ∧
      recorded.nextApplication = tables.nextApplication) ∨
    ∃ (application : Application) (identities : List String),
      application.id = tables.nextApplication ∧ application.outcomes = .zero ∧
      recorded.applications = tables.applications ++ [application] ∧
      recorded.nextApplication = tables.nextApplication + 1 ∧
      recorded.members = tables.members ++
        membersOf application.id rootObservedAt tables.intents identities ∧
      (application.closedAt ≠ none → identities = []) := by
  unfold recordTables recordApplication
  simp only
  split
  · split
    · exact .inl ⟨rfl, rfl, rfl⟩
    · right
      split
      · rename_i hover
        refine ⟨_, [], rfl, rfl, rfl, rfl, ?_, fun _ => rfl⟩
        simp [membersOf]
      · rename_i row submittedSerial hrow hserial hlength hover
        refine ⟨_, row.identities.tail, rfl, rfl, rfl, rfl, rfl, ?_⟩
        intro hclosed
        exact absurd rfl hclosed
  · exact .inl ⟨rfl, rfl, rfl⟩

theorem memberKeys_membersOf (application : ℕ) (rootObservedAt : ℤ) (intents : List Intent)
    (identities : List String) :
    ((membersOf application rootObservedAt intents identities).map memberKey).Nodup := by
  have hordinals : ((membersOf application rootObservedAt intents identities).map
      Member.ordinal).Nodup := by
    unfold membersOf
    rw [map_map]
    have hmap : identities.zipIdx.map (Member.ordinal ∘ fun entry =>
        (⟨application, entry.2 + 1, entry.1, memberSequence entry.1 rootObservedAt intents,
          none⟩ : Member)) = (identities.zipIdx.map Prod.snd).map Nat.succ := by
      rw [map_map]
      rfl
    rw [hmap, zipIdx_map_snd]
    exact (nodup_range' 1).map Nat.succ_injective
  apply List.Nodup.of_map Prod.snd
  rw [map_map]
  exact hordinals

theorem mem_membersOf {application : ℕ} {rootObservedAt : ℤ} {intents : List Intent}
    {identities : List String} {member : Member}
    (h : member ∈ membersOf application rootObservedAt intents identities) :
    member.applicationId = application ∧ member.outcome = none := by
  obtain ⟨entry, hentry, hmember⟩ := mem_map.mp h
  rw [← hmember]
  exact ⟨rfl, rfl⟩

/-- One application with the next id was added, and its members, none of them decided. -/
structure Adds (tables after : LinkTables) (application : Application) (added : List Member) :
    Prop where
  id : application.id = tables.nextApplication
  outcomes : application.outcomes = .zero
  applications : after.applications = tables.applications ++ [application]
  nextApplication : after.nextApplication = tables.nextApplication + 1
  members : after.members = tables.members ++ added
  decisions : after.decisions = tables.decisions
  ofNext : ∀ member ∈ added, member.applicationId = tables.nextApplication ∧ member.outcome = none
  ordinals : (added.map memberKey).Nodup
  closed : application.closedAt ≠ none → added = []

variable {after : LinkTables} {application : Application} {added : List Member}

theorem Adds.mem_applications (hadds : Adds tables after application added) {row : Application}
    (hrow : row ∈ after.applications) :
    row ∈ tables.applications ∨ row = application := by
  rw [hadds.applications] at hrow
  exact (mem_append.mp hrow).imp_right mem_singleton.mp

theorem Adds.mem_members (hadds : Adds tables after application added) {member : Member}
    (hmember : member ∈ after.members) : member ∈ tables.members ∨ member ∈ added := by
  rw [hadds.members] at hmember
  exact mem_append.mp hmember

/-- The members added count for no application there was. -/
theorem Adds.undecided_old (hadds : Adds tables after application added) {id : ℕ}
    (hid : id < tables.nextApplication) : undecided after id = undecided tables id := by
  have hnone : added.countP (fun member =>
      member.applicationId = id && member.outcome.isNone) = 0 := by
    rw [countP_eq_zero]
    intro member hmember
    have hadd := (hadds.ofNext member hmember).1
    have hne : member.applicationId ≠ id := by omega
    simp [hne]
  unfold undecided
  rw [hadds.members, countP_append, hnone, Nat.add_zero]

/-- Every member of the application added is undecided. -/
theorem Adds.undecided_new (hadds : Adds tables after application added) (h : Kept tables) :
    undecided after tables.nextApplication =
      after.members.countP (fun member => member.applicationId = tables.nextApplication) := by
  apply countP_congr
  intro member hmember
  rcases hadds.mem_members hmember with hin | hin
  · have hfresh := h.membersFresh member hin
    have hne : member.applicationId ≠ tables.nextApplication := by omega
    simp [hne]
  · rw [(hadds.ofNext member hin).2]
    simp

theorem Adds.ids (hadds : Adds tables after application added) (h : Kept tables) :
    (after.applications.map Application.id).Nodup := by
  rw [hadds.applications, map_append, nodup_append]
  refine ⟨h.ids, by simp, ?_⟩
  intro one hone two htwo heq
  obtain ⟨row, hrow, hrowId⟩ := mem_map.mp hone
  rw [map_singleton, mem_singleton, hadds.id] at htwo
  have hfresh := h.fresh row hrow
  omega

theorem Adds.memberKeys (hadds : Adds tables after application added) (h : Kept tables) :
    (after.members.map memberKey).Nodup := by
  rw [hadds.members, map_append, nodup_append]
  refine ⟨h.ordinals, hadds.ordinals, ?_⟩
  intro one hone two htwo heq
  obtain ⟨member, hmember, hmemberKey⟩ := mem_map.mp hone
  obtain ⟨other, hother, hotherKey⟩ := mem_map.mp htwo
  have hfresh := h.membersFresh member hmember
  have hadd := (hadds.ofNext other hother).1
  have hkeys : memberKey member = memberKey other := by rw [hmemberKey, heq, hotherKey]
  have hids := (Prod.mk.inj hkeys).1
  omega

theorem Adds.ofOpen (hadds : Adds tables after application added) (h : Kept tables) :
    ∀ member ∈ after.members, ∀ row ∈ after.applications,
      row.id = member.applicationId → row.closedAt = none := by
  have hid := hadds.id
  intro member hmember row hrow hrowId
  rcases hadds.mem_members hmember with hin | hin
  · have hfresh := h.membersFresh member hin
    rcases hadds.mem_applications hrow with hold | rfl
    · exact h.ofOpen member hin row hold hrowId
    · omega
  · have hadd := (hadds.ofNext member hin).1
    rcases hadds.mem_applications hrow with hold | rfl
    · have hfresh := h.fresh row hold
      omega
    · by_contra hne
      rw [hadds.closed hne] at hin
      exact absurd hin not_mem_nil

/-- The counts of recorded members kept, and the new application's own filled in. -/
theorem Kept.adds (h : Kept tables) (hadds : Adds tables after application added)
    (hcounted : ∀ id < tables.nextApplication,
      after.recordedMembers id = tables.recordedMembers id)
    (hnew : after.recordedMembers tables.nextApplication =
      after.members.countP (fun member => member.applicationId = tables.nextApplication)) :
    Kept after where
  ids := hadds.ids h
  fresh row hrow := by
    rw [hadds.nextApplication]
    rcases hadds.mem_applications hrow with hold | rfl
    · exact Nat.lt_succ_of_lt (h.fresh row hold)
    · rw [hadds.id]
      exact Nat.lt_succ_self _
  membersFresh member hmember := by
    rw [hadds.nextApplication]
    rcases hadds.mem_members hmember with hin | hin
    · exact Nat.lt_succ_of_lt (h.membersFresh member hin)
    · rw [(hadds.ofNext member hin).1]
      exact Nat.lt_succ_self _
  decisionsFresh decision hdecision := by
    rw [hadds.decisions] at hdecision
    rw [hadds.nextApplication]
    exact Nat.lt_succ_of_lt (h.decisionsFresh decision hdecision)
  ordinals := hadds.memberKeys h
  ofOpen := hadds.ofOpen h
  conserved row hrow := by
    rcases hadds.mem_applications hrow with hold | rfl
    · have hfresh := h.fresh row hold
      rw [hadds.undecided_old hfresh, hcounted row.id hfresh]
      exact h.conserved row hold
    · rw [hadds.outcomes, hadds.id, hadds.undecided_new h, hnew]
      exact Nat.zero_add _
  once := by
    rw [hadds.decisions]
    exact h.once
  decided decision hdecision member hmember hkey := by
    rw [hadds.decisions] at hdecision
    rcases hadds.mem_members hmember with hin | hin
    · exact h.decided decision hdecision member hin hkey
    · have hfresh := h.decisionsFresh decision hdecision
      have hadd := (hadds.ofNext member hin).1
      have hids := (Prod.mk.inj hkey).1
      omega

theorem Kept.record (h : Kept tables) (now : ℤ) (rows : List IntakeRow) (rootIdentity : String)
    (rootSequence : ℕ) (rootSuppressed : Bool) (rootObservedAt : ℤ) (carriedMark : ℚ) :
    Kept (recordTables now rows rootIdentity rootSequence rootSuppressed rootObservedAt
      carriedMark tables) := by
  have hcases := recordTables_cases now rows rootIdentity rootSequence rootSuppressed
    rootObservedAt carriedMark tables
  simp only at hcases
  have hcounted : ∀ id < tables.nextApplication,
      (recordTables now rows rootIdentity rootSequence rootSuppressed rootObservedAt
        carriedMark tables).recordedMembers id = tables.recordedMembers id := by
    intro id hid
    exact if_neg (by omega)
  have hnew : (recordTables now rows rootIdentity rootSequence rootSuppressed rootObservedAt
      carriedMark tables).recordedMembers tables.nextApplication =
        (recordTables now rows rootIdentity rootSequence rootSuppressed rootObservedAt
          carriedMark tables).members.countP (fun member =>
            member.applicationId = tables.nextApplication) :=
    if_pos rfl
  have hdecisions : (recordTables now rows rootIdentity rootSequence rootSuppressed
      rootObservedAt carriedMark tables).decisions = tables.decisions := rfl
  generalize recordTables now rows rootIdentity rootSequence rootSuppressed rootObservedAt
    carriedMark tables = recorded at hcases hcounted hnew hdecisions ⊢
  rcases hcases with ⟨happlications, hmembers, hnext⟩ |
    ⟨application, identities, hid, houtcomes, happlications, hnext, hmembers, hclosed⟩
  · have hrecorded : ∀ row ∈ tables.applications,
        row.outcomes.total + undecided recorded row.id = recorded.recordedMembers row.id := by
      intro row hrow
      unfold undecided
      rw [hmembers, hcounted row.id (h.fresh row hrow)]
      exact h.conserved row hrow
    constructor <;> simp only [happlications, hmembers, hnext, hdecisions]
    exacts [h.ids, h.fresh, h.membersFresh, h.decisionsFresh, h.ordinals, h.ofOpen, hrecorded,
      h.once, h.decided]
  · rw [hid] at hmembers
    refine h.adds ⟨hid, houtcomes, happlications, hnext, hmembers, hdecisions, ?_, ?_, ?_⟩
      hcounted hnew
    · exact fun member hmember => mem_membersOf hmember
    · exact memberKeys_membersOf _ _ _ _
    · intro hne
      rw [hclosed hne]
      rfl

end SlashWho.ApplicantOutcomes
