import SlashWho.LoggedEncounterSaves

/-!
Saves of logged encounters in every order of their statements. A version under a lock is
described by the committed saves and what its own transaction has accepted, so a row
is always some saves one after another: a first read whose kill stays, and the roster of
the last.
-/

namespace SlashWho.LoggedEncounterSaves

open List

open EvidenceMerge (Instant)
open RaiderIoFirstKills (RosterState)

/-! ### One row after another save -/

theorem savesOf_append (id : ℕ) (a b : List Saved) :
    savesOf id (a ++ b) = savesOf id a ++ savesOf id b := filter_append ..

theorem savesOf_eq_nil {id : ℕ} {saved : List Saved}
    (h : ∀ a ∈ saved, a.encounter.loggedEncounterId ≠ id) : savesOf id saved = [] := by
  unfold savesOf
  rw [filter_eq_nil_iff]
  intro a ha
  simpa using h a ha

theorem savesOf_eq_self {id : ℕ} {saved : List Saved}
    (h : ∀ a ∈ saved, a.encounter.loggedEncounterId = id) : savesOf id saved = saved := by
  unfold savesOf
  rw [filter_eq_self]
  intro a ha
  simpa using h a ha

variable {row : Option EncounterRow}

theorem described_nil : Described [] row ↔ isRead row = false :=
  Iff.rfl

variable {saves : List Saved}

theorem Described.isRead_iff (h : Described saves row) : isRead row = true ↔ saves ≠ [] := by
  cases saves with
  | nil =>
    rw [described_nil.mp h]
    simp
  | cons first rest =>
    unfold Described at h
    rw [head?_cons, getLast?_cons] at h
    simp only at h
    rw [h]
    exact iff_of_true rfl (cons_ne_nil _ _)

theorem isRead_of_refresh {encounter : LoggedEncounter} {readAt : Instant} :
    refresh encounter readAt row = none ↔ isRead row = false := by
  rcases row with _ | ⟨code, at_⟩ | ⟨kill, rosterState, share, at_⟩ <;> simp [refresh, isRead]

theorem isRead_of_upsertRead {encounter : LoggedEncounter} {readAt : Instant} :
    upsertRead encounter readAt row = none ↔ isRead row = true := by
  rcases row with _ | ⟨code, at_⟩ | ⟨kill, rosterState, share, at_⟩ <;> simp [upsertRead, isRead]

theorem Described.refresh {row' : EncounterRow} {new : Saved} (h : Described saves row)
    (hrow : LoggedEncounterSaves.refresh new.encounter new.readAt row = some row') :
    Described (saves ++ [new]) (some row') := by
  cases saves with
  | nil =>
    rw [isRead_of_refresh.mpr (described_nil.mp h)] at hrow
    cases hrow
  | cons first rest =>
    unfold Described at h ⊢
    rw [head?_cons, getLast?_cons] at h
    simp only at h
    rw [h] at hrow
    rw [cons_append, head?_cons, ← cons_append, getLast?_concat]
    simp only
    exact hrow.symm

theorem Described.fill {row' : EncounterRow} {new : Saved} (h : Described saves row)
    (hrow : upsertRead new.encounter new.readAt row = some row') :
    Described (saves ++ [new]) (some row') := by
  have hunread : isRead row = false := by
    cases hread : isRead row with
    | false => rfl
    | true =>
      rw [isRead_of_upsertRead.mpr hread] at hrow
      cases hrow
  have hnil : saves = [] := by
    by_contra hne
    rw [h.isRead_iff.mpr hne] at hunread
    cases hunread
  rw [hnil, nil_append]
  have hrow' : some row' = some (EncounterRow.read new.encounter.kill new.encounter.rosterState
      new.encounter.shareRaidUntil new.readAt) := by
    rw [← hrow]
    rcases row with _ | ⟨code, at_⟩ | ⟨kill, rosterState, share, at_⟩
    · rfl
    · rfl
    · cases hunread
  exact hrow'

theorem Described.refuse (h : Described saves row) (code : UnavailableCode) (readAt : Instant) :
    Described saves (upsertRefusal code readAt row) := by
  rcases row with _ | ⟨refused, at_⟩ | ⟨kill, rosterState, share, at_⟩
  · have hnil : saves = [] := by
      by_contra hne
      cases h.isRead_iff.mpr hne
    rw [hnil]
    rfl
  · have hnil : saves = [] := by
      by_contra hne
      cases h.isRead_iff.mpr hne
    rw [hnil]
    rfl
  · exact h

variable {lower : String → String}

theorem membersOf_concat (saves : List Saved) (new : Saved) :
    membersOf lower (saves ++ [new]) = rosterRows lower new.encounter := by
  unfold membersOf
  rw [getLast?_concat]

/-! ### What a run of saves keeps -/

/-- The members under a lock: the last roster's, unless the save is replacing them. -/
def MembersAt (lower : String → String) (save : Save) (id : ℕ) (saves : List Saved)
    (members : List MemberRow) : Prop :=
  match save.stage, save.todo with
  | .written _, w :: _ => w.loggedEncounterId ≠ id → members = membersOf lower saves
  | .cleared _, w :: _ =>
    members = if w.loggedEncounterId = id then [] else membersOf lower saves
  | _, _ => members = membersOf lower saves

/-- Between two rows the members are the last roster's. -/
theorem membersAt_between (save : Save)
    (h : save.stage = .next ∨ ∃ since, save.stage = .missed since) {id : ℕ} {saves : List Saved}
    {members : List MemberRow} :
    MembersAt lower save id saves members ↔ members = membersOf lower saves := by
  unfold MembersAt
  rcases h with hstage | ⟨since, hstage⟩
  · rw [hstage]
  · rw [hstage]

/-- A save replaces no other row's members than those of the row it is at. -/
theorem membersAt_elsewhere (save : Save) {id : ℕ}
    (h : ∀ w rest, save.todo = w :: rest → w.loggedEncounterId ≠ id) {saves : List Saved}
    {members : List MemberRow} :
    MembersAt lower save id saves members ↔ members = membersOf lower saves := by
  unfold MembersAt
  cases htodo : save.todo with
  | nil => cases save.stage <;> exact Iff.rfl
  | cons w rest =>
    have hne := h w rest htodo
    cases save.stage with
    | next => exact Iff.rfl
    | missed since => exact Iff.rfl
    | written outcome => exact ⟨fun himp => himp hne, fun heq _ => heq⟩
    | cleared outcome => simp only [if_neg hne]

variable {t : ℕ} {encounter : LoggedEncounter} {outcome : Outcome}

variable {readAt : Instant} {outcomes : List (LoggedEncounter × Outcome)}

theorem acceptedOf_concat (h : outcome.accepted = true) :
    acceptedOf t readAt (outcomes ++ [(encounter, outcome)]) =
      acceptedOf t readAt outcomes ++ [⟨t, readAt, encounter⟩] := by
  unfold acceptedOf
  rw [filter_append, map_append]
  simp [h]

theorem acceptedOf_concat_stood {since : ℕ} :
    acceptedOf t readAt (outcomes ++ [(encounter, .stood since)]) =
      acceptedOf t readAt outcomes := by
  unfold acceptedOf
  rw [filter_append]
  simp [Outcome.accepted]

theorem accepted_between (save : Save)
    (h : save.stage = .next ∨ ∃ since, save.stage = .missed since) (t : ℕ) :
    save.accepted t = acceptedOf t save.readAt save.outcomes := by
  have hcurrent : save.current = [] := by
    unfold Save.current
    rcases h with hstage | ⟨since, hstage⟩
    · rw [hstage]
    · rw [hstage]
  unfold Save.accepted
  rw [hcurrent, append_nil]

variable {rest : List Write}

theorem accepted_replacing (save : Save)
    (h : save.stage = .written outcome ∨ save.stage = .cleared outcome)
    (htodo : save.todo = .read encounter :: rest) (t : ℕ) :
    save.accepted t = acceptedOf t save.readAt (save.outcomes ++ [(encounter, outcome)]) := by
  have hcurrent : save.current = [(encounter, outcome)] := by
    unfold Save.current
    rcases h with hstage | hstage
    · rw [hstage, htodo]
    · rw [hstage, htodo]
  unfold Save.accepted
  rw [hcurrent]

variable {save : Save}

theorem mem_accepted_of_current {e : LoggedEncounter × Outcome} (h : e ∈ save.current)
    (haccepted : e.2.accepted = true) :
    (⟨t, save.readAt, e.1⟩ : Saved) ∈ save.accepted t :=
  mem_map_of_mem (mem_filter.mpr ⟨mem_append_right _ h, haccepted⟩)

/-- What a save that is under way has noted of the rows behind it. -/
structure Going (saved : List Saved) (t : ℕ) (save : Save) : Prop where
  carries : save.outcomes.map Prod.fst ++ save.todo.filterMap Write.encounter? =
    (writesOf save.answers).filterMap Write.encounter?
  missed : ∀ since, save.stage = .missed since → since ≤ saved.length ∧
    ∃ encounter rest, save.todo = .read encounter :: rest ∧
      savesOf encounter.loggedEncounterId (saved.take since) = [] ∧
      savesOf encounter.loggedEncounterId (save.accepted t) = []
  replacing : ∀ outcome, save.stage = .written outcome ∨ save.stage = .cleared outcome →
    outcome.accepted = true ∧ ∃ encounter rest, save.todo = .read encounter :: rest
  stood : ∀ encounter since, (encounter, Outcome.stood since) ∈ save.outcomes →
    StoodBehind saved t since encounter

structure Inv (lower : String → String) (s : State) : Prop where
  committed : ∀ id, Stored lower (savesOf id s.saved) (s.rows.committed id)
  held : ∀ id t v, s.rows.held id = some (t, v) → ∃ save, s.saves t = .running save ∧
    Described (savesOf id (s.saved ++ save.accepted t)) v.row ∧
    MembersAt lower save id (savesOf id (s.saved ++ save.accepted t)) v.members
  locked : ∀ t save, s.saves t = .running save → ∀ a ∈ save.accepted t,
    ∃ v, s.rows.held a.encounter.loggedEncounterId = some (t, v)
  going : ∀ t save, s.saves t = .running save → Going s.saved t save
  done : ∀ t save, s.saves t = .committed save →
    save.outcomes.map Prod.fst = (writesOf save.answers).filterMap Write.encounter? ∧
    (∀ a ∈ save.accepted t, a ∈ s.saved) ∧
    ∀ encounter since, (encounter, Outcome.stood since) ∈ save.outcomes →
      StoodBehind s.saved t since encounter
  owned : ∀ a ∈ s.saved, ∃ save, s.saves a.save = .committed save ∧ a ∈ save.accepted a.save

variable {saved : List Saved}

theorem StoodBehind.append {since : ℕ} (h : StoodBehind saved t since encounter)
    (more : List Saved) :
    StoodBehind (saved ++ more) t since encounter := by
  obtain ⟨hnone, other, hother, hid, hsave⟩ := h
  have hle : since ≤ saved.length := by
    by_contra hlt
    rw [drop_eq_nil_of_le (by omega)] at hother
    cases hother
  refine ⟨?_, other, ?_, hid, hsave⟩
  · rw [take_append_of_le_length hle]
    exact hnone
  · rw [drop_append_of_le_length hle]
    exact mem_append_left _ hother

theorem Going.append (h : Going saved t save) (more : List Saved) :
    Going (saved ++ more) t save where
  carries := h.carries
  missed := by
    intro since hstage
    obtain ⟨hle, encounter, rest, htodo, hnone, hown⟩ := h.missed since hstage
    refine ⟨?_, encounter, rest, htodo, ?_, hown⟩
    · rw [length_append]
      omega
    · rw [take_append_of_le_length hle]
      exact hnone
  replacing := h.replacing
  stood := fun encounter since hin => (h.stood encounter since hin).append more

theorem Going.replaced (h : Going saved t save)
    (hstage : save.stage = .written outcome ∨ save.stage = .cleared outcome) :
    ∃ encounter rest, save.todo = .read encounter :: rest ∧
      (⟨t, save.readAt, encounter⟩ : Saved) ∈ save.accepted t := by
  obtain ⟨haccepted, encounter, rest, htodo⟩ := h.replacing outcome hstage
  refine ⟨encounter, rest, htodo, ?_⟩
  have hcurrent : (encounter, outcome) ∈ save.current := by
    unfold Save.current
    rcases hstage with hstage | hstage
    · rw [hstage, htodo]
      exact mem_singleton_self _
    · rw [hstage, htodo]
      exact mem_singleton_self _
  exact mem_accepted_of_current hcurrent haccepted

variable {s : State}

theorem Inv.view (h : Inv lower s) (hrunning : s.saves t = .running save) (id : ℕ) :
    Described (savesOf id (s.saved ++ save.accepted t)) (s.rows.view t id).row ∧
      MembersAt lower save id (savesOf id (s.saved ++ save.accepted t))
        (s.rows.view t id).members := by
  by_cases hheld : ∃ v, s.rows.held id = some (t, v)
  · obtain ⟨v, hv⟩ := hheld
    obtain ⟨other, hother, hdescribed, hmembers⟩ := h.held id t v hv
    rw [hrunning] at hother
    obtain rfl := Status.running.inj hother
    rw [s.rows.view_of_held t hv]
    exact ⟨hdescribed, hmembers⟩
  · have hfree : ∀ v, s.rows.held id ≠ some (t, v) := fun v hv => hheld ⟨v, hv⟩
    have hnone : savesOf id (save.accepted t) = [] := by
      refine savesOf_eq_nil fun a ha hid => ?_
      obtain ⟨v, hv⟩ := h.locked t save hrunning a ha
      exact hfree v (hid ▸ hv)
    rw [s.rows.view_of_not_held t hfree, savesOf_append, hnone, append_nil]
    obtain ⟨hdescribed, hmembers⟩ := h.committed id
    refine ⟨hdescribed, ?_⟩
    have helsewhere : ∀ outcome, save.stage = .written outcome ∨ save.stage = .cleared outcome →
        MembersAt lower save id (savesOf id s.saved) (s.rows.committed id).members := by
      intro outcome hstage
      refine (membersAt_elsewhere _ fun w rest htodo hid => ?_).mpr hmembers
      obtain ⟨encounter, rest', htodo', haccepted⟩ := (h.going t save hrunning).replaced hstage
      rw [htodo] at htodo'
      obtain ⟨v, hv⟩ := h.locked t save hrunning _ haccepted
      refine hfree v ?_
      rw [← hid, (List.cons.inj htodo').1]
      exact hv
    cases hstage : save.stage with
    | next => exact (membersAt_between _ (.inl hstage)).mpr hmembers
    | missed since => exact (membersAt_between _ (.inr ⟨since, hstage⟩)).mpr hmembers
    | written outcome => exact helsewhere outcome (.inl hstage)
    | cleared outcome => exact helsewhere outcome (.inr hstage)

theorem Inv.free_of_replaced (h : Inv lower s) (hrunning : s.saves t = .running save)
    (hstage : save.stage = .written outcome ∨ save.stage = .cleared outcome)
    (htodo : save.todo = .read encounter :: rest) :
    s.rows.Free t encounter.loggedEncounterId := by
  obtain ⟨encounter', rest', htodo', haccepted⟩ := (h.going t save hrunning).replaced hstage
  rw [htodo] at htodo'
  obtain rfl := Write.read.inj (List.cons.inj htodo').1
  obtain ⟨v, hv⟩ := h.locked t save hrunning _ haccepted
  intro holder w hw
  rw [hv] at hw
  exact (Prod.mk.inj (Option.some.inj hw)).1.symm

theorem status_cases {saves : ℕ → Status} {t u : ℕ} {status other : Status}
    (h : Function.update saves t status u = other) :
    (u = t ∧ status = other) ∨ (u ≠ t ∧ saves u = other) := by
  by_cases hu : u = t
  · subst hu
    exact .inl ⟨rfl, (Function.update_self ..).symm.trans h⟩
  · exact .inr ⟨hu, (Function.update_of_ne hu ..).symm.trans h⟩

/-- Saves committed before are of a committed save still, where another's status is set. -/
theorem Inv.owned_beside (h : Inv lower s) (ht : ∀ save, s.saves t ≠ .committed save)
    (status : Status) : ∀ a ∈ s.saved, ∃ save,
      Function.update s.saves t status a.save = .committed save ∧ a ∈ save.accepted a.save := by
  intro a ha
  obtain ⟨other, hother, hin⟩ := h.owned a ha
  have hne : a.save ≠ t := fun heq => ht other (heq ▸ hother)
  exact ⟨other, (Function.update_of_ne hne ..).trans hother, hin⟩

theorem not_committed_of_running (h : s.saves t = .running save) (other : Save) :
    s.saves t ≠ .committed other := by
  rw [h]
  exact fun heq => by cases heq

theorem Inv.goOn (h : Inv lower s) (hgoing : Going s.saved t save)
    (hfirst : s.saves t = .unused ∧ save.accepted t = [] ∨ ∃ old, s.saves t = .running old ∧
      save.accepted t = old.accepted t ∧ ∀ id saves members,
        MembersAt lower old id saves members → MembersAt lower save id saves members) :
    Inv lower (s.goOn t save) where
  committed := h.committed
  held := by
    intro id u v hheld
    obtain ⟨other, hother, hdescribed, hmembers⟩ := h.held id u v hheld
    by_cases hu : u = t
    · subst hu
      refine ⟨save, Function.update_self .., ?_⟩
      rcases hfirst with ⟨hunused, -⟩ | ⟨old, hold, haccepted, hat⟩
      · rw [hunused] at hother
        cases hother
      · rw [hold] at hother
        obtain rfl := Status.running.inj hother
        rw [haccepted]
        exact ⟨hdescribed, hat _ _ _ hmembers⟩
    · exact ⟨other, (Function.update_of_ne hu ..).trans hother, hdescribed, hmembers⟩
  locked := by
    intro u other hother a ha
    rcases status_cases hother with ⟨rfl, hself⟩ | ⟨-, hother⟩
    · obtain rfl := Status.running.inj hself
      rcases hfirst with ⟨-, hnone⟩ | ⟨old, hold, haccepted, -⟩
      · rw [hnone] at ha
        cases ha
      · rw [haccepted] at ha
        exact h.locked u old hold a ha
    · exact h.locked u other hother a ha
  going := by
    intro u other hother
    rcases status_cases hother with ⟨rfl, hself⟩ | ⟨-, hother⟩
    · exact Status.running.inj hself ▸ hgoing
    · exact h.going u other hother
  done := by
    intro u other hother
    rcases status_cases hother with ⟨-, hself⟩ | ⟨-, hother⟩
    · cases hself
    · exact h.done u other hother
  owned := by
    refine h.owned_beside (fun other hother => ?_) _
    rcases hfirst with ⟨hunused, -⟩ | ⟨old, hold, -⟩
    · rw [hunused] at hother
      cases hother
    · exact not_committed_of_running hold other hother

/-- A save that writes a row it may write: what the row then holds is described, and
the rows it holds besides stay so. -/
theorem Inv.write (h : Inv lower s) {id : ℕ} {old : Save} {v : Version} {new : List Saved}
    (hold : s.saves t = .running old) (hfree : s.rows.Free t id) (hgoing : Going s.saved t save)
    (haccepted : save.accepted t = old.accepted t ++ new)
    (hnew : ∀ a ∈ new, a.encounter.loggedEncounterId = id)
    (hrow : Described (savesOf id (s.saved ++ save.accepted t)) v.row)
    (hmembers : MembersAt lower save id (savesOf id (s.saved ++ save.accepted t)) v.members)
    (helsewhere : ∀ other saves members, other ≠ id →
      MembersAt lower old other saves members → MembersAt lower save other saves members) :
    Inv lower (s.write t id v save) where
  committed := h.committed
  held := by
    intro id' u w hheld
    by_cases hid : id' = id
    · subst hid
      have hself : (s.write t id' v save).rows.held id' = some (t, v) := Function.update_self ..
      rw [hself] at hheld
      obtain ⟨rfl, rfl⟩ := Prod.mk.inj (Option.some.inj hheld)
      exact ⟨save, Function.update_self .., hrow, hmembers⟩
    · have hbefore : s.rows.held id' = some (u, w) := (Function.update_of_ne hid ..).symm.trans hheld
      obtain ⟨other, hother, hdescribed, hat⟩ := h.held id' u w hbefore
      by_cases hu : u = t
      · subst hu
        rw [hold] at hother
        obtain rfl := Status.running.inj hother
        refine ⟨save, Function.update_self .., ?_⟩
        have hsame : savesOf id' (s.saved ++ save.accepted u) =
            savesOf id' (s.saved ++ old.accepted u) := by
          have hnone : savesOf id' new = [] :=
            savesOf_eq_nil fun a ha heq => hid (heq.symm.trans (hnew a ha))
          rw [haccepted, ← append_assoc, savesOf_append _ _ new, hnone, append_nil]
        change Described (savesOf id' (s.saved ++ save.accepted u)) w.row ∧
          MembersAt lower save id' (savesOf id' (s.saved ++ save.accepted u)) w.members
        rw [hsame]
        exact ⟨hdescribed, helsewhere _ _ _ hid hat⟩
      · exact ⟨other, (Function.update_of_ne hu ..).trans hother, hdescribed, hat⟩
  locked := by
    intro u other hother a ha
    by_cases hid : a.encounter.loggedEncounterId = id
    · by_cases hu : u = t
      · exact ⟨v, by rw [hid, hu]; exact Function.update_self ..⟩
      · obtain ⟨w, hw⟩ := h.locked u other ((Function.update_of_ne hu ..).symm.trans hother) a ha
        exact absurd (hfree u w (hid ▸ hw)) hu
    · have hkept : ∃ w, s.rows.held a.encounter.loggedEncounterId = some (u, w) := by
        rcases status_cases hother with ⟨rfl, hself⟩ | ⟨-, hother⟩
        · obtain rfl := Status.running.inj hself
          rw [haccepted] at ha
          rcases mem_append.mp ha with ha | ha
          · exact h.locked u old hold a ha
          · exact absurd (hnew a ha) hid
        · exact h.locked u other hother a ha
      obtain ⟨w, hw⟩ := hkept
      exact ⟨w, (Function.update_of_ne hid ..).trans hw⟩
  going := by
    intro u other hother
    rcases status_cases hother with ⟨rfl, hself⟩ | ⟨-, hother⟩
    · exact Status.running.inj hself ▸ hgoing
    · exact h.going u other hother
  done := by
    intro u other hother
    rcases status_cases hother with ⟨-, hself⟩ | ⟨-, hother⟩
    · cases hself
    · exact h.done u other hother
  owned := h.owned_beside (not_committed_of_running hold) _

/-- A commit makes the versions its save holds the committed ones. -/
theorem Inv.commit (h : Inv lower s) (hrunning : s.saves t = .running save)
    (hstage : save.stage = .next) (htodo : save.todo = []) :
    Inv lower ⟨s.rows.commit t, Function.update s.saves t (.committed save),
      s.saved ++ save.accepted t⟩ where
  committed := by
    intro id
    obtain ⟨hdescribed, hmembers⟩ := h.view hrunning id
    exact ⟨hdescribed, (membersAt_between _ (.inl hstage)).mp hmembers⟩
  held := by
    intro id u v hheld
    obtain ⟨hbefore, hu⟩ := (s.rows.released_eq_some t).mp hheld
    obtain ⟨other, hother, hdescribed, hmembers⟩ := h.held id u v hbefore
    refine ⟨other, (Function.update_of_ne hu ..).trans hother, ?_⟩
    have hnone : savesOf id (save.accepted t) = [] := by
      refine savesOf_eq_nil fun a ha hid => ?_
      obtain ⟨w, hw⟩ := h.locked t save hrunning a ha
      rw [hid, hbefore] at hw
      exact hu (Prod.mk.inj (Option.some.inj hw)).1
    have hsame : savesOf id (s.saved ++ save.accepted t ++ other.accepted u) =
        savesOf id (s.saved ++ other.accepted u) := by
      rw [savesOf_append, savesOf_append, hnone, append_nil, ← savesOf_append]
    change Described (savesOf id (s.saved ++ save.accepted t ++ other.accepted u)) v.row ∧
      MembersAt lower other id (savesOf id (s.saved ++ save.accepted t ++ other.accepted u))
        v.members
    rw [hsame]
    exact ⟨hdescribed, hmembers⟩
  locked := by
    intro u other hother a ha
    rcases status_cases hother with ⟨-, hself⟩ | ⟨hu, hother⟩
    · cases hself
    · obtain ⟨v, hv⟩ := h.locked u other hother a ha
      exact ⟨v, (s.rows.released_eq_some t).mpr ⟨hv, hu⟩⟩
  going := by
    intro u other hother
    rcases status_cases hother with ⟨-, hself⟩ | ⟨-, hother⟩
    · cases hself
    · exact (h.going u other hother).append _
  done := by
    intro u other hother
    rcases status_cases hother with ⟨rfl, hself⟩ | ⟨-, hother⟩
    · obtain rfl := Status.committed.inj hself
      have hgoing := (h.going u save hrunning).append (save.accepted u)
      have hcarries := hgoing.carries
      rw [htodo, filterMap_nil, append_nil] at hcarries
      exact ⟨hcarries, fun a ha => mem_append_right _ ha, hgoing.stood⟩
    · obtain ⟨hcarries, hsaved, hstood⟩ := h.done u other hother
      exact ⟨hcarries, fun a ha => mem_append_left _ (hsaved a ha),
        fun encounter since hin => (hstood encounter since hin).append _⟩
  owned := by
    intro a ha
    rcases mem_append.mp ha with ha | ha
    · exact h.owned_beside (not_committed_of_running hrunning) _ a ha
    · obtain ⟨e, -, rfl⟩ := mem_map.mp ha
      exact ⟨save, Function.update_self .., ha⟩

theorem Inv.rollback (h : Inv lower s) (hrunning : s.saves t = .running save) :
    Inv lower { s with
      rows := s.rows.rollback t
      saves := Function.update s.saves t .rolledBack } where
  committed := h.committed
  held := by
    intro id u v hheld
    obtain ⟨hbefore, hu⟩ := (s.rows.released_eq_some t).mp hheld
    obtain ⟨other, hother, hdescribed, hmembers⟩ := h.held id u v hbefore
    exact ⟨other, (Function.update_of_ne hu ..).trans hother, hdescribed, hmembers⟩
  locked := by
    intro u other hother a ha
    rcases status_cases hother with ⟨-, hself⟩ | ⟨hu, hother⟩
    · cases hself
    · obtain ⟨v, hv⟩ := h.locked u other hother a ha
      exact ⟨v, (s.rows.released_eq_some t).mpr ⟨hv, hu⟩⟩
  going := by
    intro u other hother
    rcases status_cases hother with ⟨-, hself⟩ | ⟨-, hother⟩
    · cases hself
    · exact h.going u other hother
  done := by
    intro u other hother
    rcases status_cases hother with ⟨-, hself⟩ | ⟨-, hother⟩
    · cases hself
    · exact h.done u other hother
  owned := h.owned_beside (not_committed_of_running hrunning) _

theorem not_at {w : Write} {id : ℕ} (htodo : save.todo = w :: rest) (hne : id ≠ w.loggedEncounterId)
    (w' : Write) (rest' : List Write) (hw : save.todo = w' :: rest') :
    w'.loggedEncounterId ≠ id := by
  rw [htodo] at hw
  rw [← (List.cons.inj hw).1]
  exact hne.symm

/-- A save that has written a row, on its way to replace the members. -/
theorem Inv.written (h : Inv lower s) {row : EncounterRow} (hrunning : s.saves t = .running save)
    (hstage : save.stage = .next ∨ ∃ since, save.stage = .missed since)
    (htodo : save.todo = .read encounter :: rest) (haccepts : outcome.accepted = true)
    (hfree : s.rows.Free t encounter.loggedEncounterId)
    (hrow : ∀ saves, Described saves (s.rows.view t encounter.loggedEncounterId).row →
      Described (saves ++ [⟨t, save.readAt, encounter⟩]) (some row)) :
    Inv lower (s.write t encounter.loggedEncounterId
      { s.rows.view t encounter.loggedEncounterId with row := some row }
      { save with stage := .written outcome }) := by
  have hgoing := h.going t save hrunning
  have haccepted : Save.accepted t { save with stage := .written outcome } =
      save.accepted t ++ [⟨t, save.readAt, encounter⟩] := by
    rw [accepted_between save hstage, ← acceptedOf_concat haccepts]
    exact accepted_replacing { save with stage := .written outcome } (.inl rfl) htodo t
  have hsaves : savesOf encounter.loggedEncounterId
        (s.saved ++ Save.accepted t { save with stage := .written outcome }) =
      savesOf encounter.loggedEncounterId (s.saved ++ save.accepted t) ++
        [⟨t, save.readAt, encounter⟩] := by
    rw [haccepted, ← append_assoc, savesOf_append _ _ [_]]
    congr 1
    exact savesOf_eq_self fun a ha => by rw [mem_singleton.mp ha]
  refine h.write hrunning hfree ⟨hgoing.carries, ?_, ?_, hgoing.stood⟩ haccepted ?_ ?_ ?_ ?_
  · intro since hmissed
    cases hmissed
  · intro other hother
    rcases hother with hother | hother
    · obtain rfl := Stage.written.inj hother
      exact ⟨haccepts, encounter, rest, htodo⟩
    · cases hother
  · intro a ha
    rw [mem_singleton.mp ha]
  · rw [hsaves]
    exact hrow _ (h.view hrunning _).1
  · unfold MembersAt
    rw [htodo]
    exact fun hne => absurd rfl hne
  · intro other saves members hne hat
    exact (membersAt_elsewhere { save with stage := .written outcome } (not_at htodo hne)).mpr
      ((membersAt_between save hstage).mp hat)

theorem inv_empty : Inv lower State.empty where
  committed := fun _ => ⟨rfl, rfl⟩
  held := fun _ _ _ h => (by cases h)
  locked := fun _ _ h => (by cases h)
  going := fun _ _ h => (by cases h)
  done := fun _ _ h => (by cases h)
  owned := fun _ h => (by cases h)

/-- A save between two encounters has nothing of a row to remember. -/
theorem going_of_next (hstage : save.stage = .next)
    (hcarries : save.outcomes.map Prod.fst ++ save.todo.filterMap Write.encounter? =
      (writesOf save.answers).filterMap Write.encounter?)
    (hstood : ∀ encounter since, (encounter, Outcome.stood since) ∈ save.outcomes →
      StoodBehind saved t since encounter) : Going saved t save where
  carries := hcarries
  missed := by
    intro since hmissed
    rw [hstage] at hmissed
    cases hmissed
  replacing := by
    intro outcome hother
    rw [hstage] at hother
    rcases hother with hother | hother
    · cases hother
    · cases hother
  stood := hstood

theorem Going.carries_next (h : Going saved t save) (htodo : save.todo = .read encounter :: rest) :
    (save.outcomes ++ [(encounter, outcome)]).map Prod.fst ++ rest.filterMap Write.encounter? =
      (writesOf save.answers).filterMap Write.encounter? := by
  have hcarries := h.carries
  rw [htodo] at hcarries
  rw [← hcarries, map_append, append_assoc]
  rfl

/-- The last statement about a row: the save accepts nothing by it and goes on to
the next. -/
theorem Inv.pass (h : Inv lower s) {save' : Save} {v : Version} {w : Write}
    (hrunning : s.saves t = .running save) (htodo : save.todo = w :: rest)
    (hfree : s.rows.Free t w.loggedEncounterId) (hgoing : Going s.saved t save')
    (hstage : save'.stage = .next) (haccepted : save'.accepted t = save.accepted t)
    (hrow : Described (savesOf w.loggedEncounterId (s.saved ++ save.accepted t)) v.row)
    (hmembers : v.members =
      membersOf lower (savesOf w.loggedEncounterId (s.saved ++ save.accepted t))) :
    Inv lower (s.write t w.loggedEncounterId v save') := by
  refine h.write hrunning hfree hgoing (haccepted.trans (append_nil _).symm)
    (fun a ha => by cases ha) ?_ ?_ ?_
  · rw [haccepted]
    exact hrow
  · rw [haccepted]
    exact (membersAt_between save' (.inl hstage)).mpr hmembers
  · intro other saves members hne hat
    exact (membersAt_between save' (.inl hstage)).mpr
      ((membersAt_elsewhere save (not_at htodo hne)).mp hat)

theorem Inv.refuse (h : Inv lower s) {answer : Unavailable}
    (hrunning : s.saves t = .running save) (hstage : save.stage = .next)
    (htodo : save.todo = .refusal answer :: rest)
    (hfree : s.rows.Free t answer.loggedEncounterId) :
    Inv lower (s.write t answer.loggedEncounterId
      { s.rows.view t answer.loggedEncounterId with
        row := upsertRefusal answer.code save.readAt
          (s.rows.view t answer.loggedEncounterId).row } { save with todo := rest }) := by
  have hgoing := h.going t save hrunning
  obtain ⟨hdescribed, hmembers⟩ := h.view hrunning answer.loggedEncounterId
  have hcarries := hgoing.carries
  rw [htodo] at hcarries
  have hnext : Going s.saved t { save with todo := rest } :=
    going_of_next hstage hcarries hgoing.stood
  refine h.pass hrunning htodo hfree hnext hstage ?_
    (hdescribed.refuse answer.code save.readAt)
    ((membersAt_between save (.inl hstage)).mp hmembers)
  rw [accepted_between save (.inl hstage)]
  exact accepted_between { save with todo := rest } (.inl hstage) t

theorem Inv.miss (h : Inv lower s) (hrunning : s.saves t = .running save)
    (hstage : save.stage = .next) (htodo : save.todo = .read encounter :: rest)
    (hrow : refresh encounter save.readAt (s.rows.view t encounter.loggedEncounterId).row = none) :
    Inv lower (s.goOn t { save with stage := .missed s.saved.length }) := by
  have hgoing := h.going t save hrunning
  have hnone : savesOf encounter.loggedEncounterId (s.saved ++ save.accepted t) = [] := by
    by_contra hne
    have hread := (h.view hrunning encounter.loggedEncounterId).1.isRead_iff.mpr hne
    rw [isRead_of_refresh.mp hrow] at hread
    cases hread
  rw [savesOf_append, append_eq_nil_iff] at hnone
  have haccepted : Save.accepted t { save with stage := .missed s.saved.length } =
      save.accepted t := by
    rw [accepted_between save (.inl hstage)]
    exact accepted_between { save with stage := .missed s.saved.length } (.inr ⟨_, rfl⟩) t
  refine h.goOn ⟨hgoing.carries, ?_, ?_, hgoing.stood⟩ (.inr ⟨save, hrunning, haccepted, ?_⟩)
  · intro since hmissed
    obtain rfl := Stage.missed.inj hmissed
    refine ⟨Nat.le_refl _, encounter, rest, htodo, ?_, ?_⟩
    · rw [take_length]
      exact hnone.1
    · rw [haccepted]
      exact hnone.2
  · intro outcome hother
    rcases hother with hother | hother
    · cases hother
    · cases hother
  · intro id saves members hat
    exact (membersAt_between _ (.inr ⟨_, rfl⟩)).mpr ((membersAt_between _ (.inl hstage)).mp hat)

/-- A read that is there after a miss is another save's, committed in between. -/
theorem Inv.stoodBehind (h : Inv lower s) {since : ℕ} (hrunning : s.saves t = .running save)
    (hstage : save.stage = .missed since) (htodo : save.todo = .read encounter :: rest)
    (hread : isRead (s.rows.view t encounter.loggedEncounterId).row = true) :
    StoodBehind s.saved t since encounter := by
  obtain ⟨hle, encounter', rest', htodo', hnone, hown⟩ :=
    (h.going t save hrunning).missed since hstage
  rw [htodo] at htodo'
  obtain rfl := Write.read.inj (List.cons.inj htodo').1
  refine ⟨hnone, ?_⟩
  have hsome := (h.view hrunning encounter.loggedEncounterId).1.isRead_iff.mp hread
  rw [savesOf_append, hown, append_nil, ← take_append_drop since s.saved,
    savesOf_append, hnone, nil_append] at hsome
  obtain ⟨other, hother⟩ := exists_mem_of_ne_nil _ hsome
  obtain ⟨hin, hid⟩ := mem_filter.mp hother
  refine ⟨other, hin, of_decide_eq_true hid, fun heq => ?_⟩
  obtain ⟨owner, howner, -⟩ := h.owned other (mem_of_mem_drop hin)
  rw [heq, hrunning] at howner
  cases howner

theorem Inv.stand (h : Inv lower s) {since : ℕ} (hrunning : s.saves t = .running save)
    (hstage : save.stage = .missed since) (htodo : save.todo = .read encounter :: rest)
    (hfree : s.rows.Free t encounter.loggedEncounterId)
    (hrow : upsertRead encounter save.readAt
      (s.rows.view t encounter.loggedEncounterId).row = none) :
    Inv lower (s.write t encounter.loggedEncounterId
      (s.rows.view t encounter.loggedEncounterId)
      { save with
        todo := rest
        stage := .next
        outcomes := save.outcomes ++ [(encounter, .stood since)] }) := by
  have hgoing := h.going t save hrunning
  have hbetween : save.stage = .next ∨ ∃ since, save.stage = .missed since :=
    .inr ⟨since, hstage⟩
  obtain ⟨hdescribed, hmembers⟩ := h.view hrunning encounter.loggedEncounterId
  refine h.pass hrunning htodo hfree (going_of_next rfl (hgoing.carries_next htodo) ?_) rfl ?_
    hdescribed ((membersAt_between save hbetween).mp hmembers)
  · intro other since' hin
    rcases mem_append.mp hin with hin | hin
    · exact hgoing.stood other since' hin
    · obtain ⟨rfl, hsince⟩ := Prod.mk.inj (mem_singleton.mp hin)
      obtain rfl := Outcome.stood.inj hsince
      exact h.stoodBehind hrunning hstage htodo (isRead_of_upsertRead.mp hrow)
  · rw [accepted_between save hbetween, accepted_between _ (.inl rfl)]
    exact acceptedOf_concat_stood

theorem Inv.clear (h : Inv lower s) (hrunning : s.saves t = .running save)
    (hstage : save.stage = .written outcome) (htodo : save.todo = .read encounter :: rest) :
    Inv lower (s.write t encounter.loggedEncounterId
      { s.rows.view t encounter.loggedEncounterId with members := [] }
      { save with stage := .cleared outcome }) := by
  have hgoing := h.going t save hrunning
  let save' : Save := { save with stage := .cleared outcome }
  have haccepted : save'.accepted t = save.accepted t := by
    rw [accepted_replacing save (.inl hstage) htodo, accepted_replacing save' (.inr rfl) htodo]
  have hfree : s.rows.Free t encounter.loggedEncounterId := h.free_of_replaced hrunning
    (.inl hstage) htodo
  change Inv lower (s.write t _ _ save')
  refine h.write hrunning hfree ⟨hgoing.carries, ?_, ?_, hgoing.stood⟩
    (haccepted.trans (append_nil _).symm) (fun a ha => by cases ha) ?_ ?_ ?_
  · intro since hmissed
    cases hmissed
  · intro other hother
    rcases hother with hother | hother
    · cases hother
    · obtain rfl := Stage.cleared.inj hother
      exact hgoing.replacing outcome (.inl hstage)
  · rw [haccepted]
    exact (h.view hrunning encounter.loggedEncounterId).1
  · unfold MembersAt
    simp only [save', htodo]
    exact (if_pos rfl).symm
  · intro other saves members hne hat
    exact (membersAt_elsewhere save' (not_at htodo hne)).mpr
      ((membersAt_elsewhere save (not_at htodo hne)).mp hat)

theorem Inv.list (h : Inv lower s) (hrunning : s.saves t = .running save)
    (hstage : save.stage = .cleared outcome) (htodo : save.todo = .read encounter :: rest) :
    Inv lower (s.write t encounter.loggedEncounterId
      { s.rows.view t encounter.loggedEncounterId with
        members := insertMembers lower encounter.members
          (s.rows.view t encounter.loggedEncounterId).members }
      { save with
        todo := rest
        stage := .next
        outcomes := save.outcomes ++ [(encounter, outcome)] }) := by
  have hgoing := h.going t save hrunning
  obtain ⟨haccepts, -⟩ := hgoing.replacing outcome (.inr hstage)
  obtain ⟨hdescribed, hmembers⟩ := h.view hrunning encounter.loggedEncounterId
  have hnone : (s.rows.view t encounter.loggedEncounterId).members = [] := by
    unfold MembersAt at hmembers
    rw [hstage, htodo] at hmembers
    exact hmembers.trans (if_pos rfl)
  have hlast : savesOf encounter.loggedEncounterId (s.saved ++ save.accepted t) =
      savesOf encounter.loggedEncounterId
        (s.saved ++ acceptedOf t save.readAt save.outcomes) ++ [⟨t, save.readAt, encounter⟩] := by
    rw [accepted_replacing save (.inr hstage) htodo, acceptedOf_concat haccepts,
      ← append_assoc, savesOf_append _ _ [_]]
    congr 1
    exact savesOf_eq_self fun a ha => by rw [mem_singleton.mp ha]
  refine h.pass hrunning htodo (h.free_of_replaced hrunning (.inr hstage) htodo)
    (going_of_next rfl (hgoing.carries_next htodo) ?_) rfl ?_ hdescribed ?_
  · intro other since hin
    rcases mem_append.mp hin with hin | hin
    · exact hgoing.stood other since hin
    · obtain ⟨-, hsince⟩ := Prod.mk.inj (mem_singleton.mp hin)
      rw [← hsince] at haccepts
      cases haccepts
  · rw [accepted_replacing save (.inr hstage) htodo, accepted_between _ (.inl rfl)]
  · show insertMembers lower encounter.members _ = membersOf lower
      (savesOf encounter.loggedEncounterId (s.saved ++ save.accepted t))
    rw [hlast, membersOf_concat, hnone]
    rfl

/-- Every statement of every save keeps what the rows are described by. -/
theorem Inv.step {s' : State} (h : Inv lower s) (hstep : Step lower s s') : Inv lower s' := by
  cases hstep with
  | begin t answers readAt hnew hsome =>
    exact h.goOn (going_of_next rfl rfl (fun _ _ hin => by cases hin)) (.inl ⟨hnew, rfl⟩)
  | refuse t save answer rest hrunning hstage htodo hfree =>
    exact h.refuse hrunning hstage htodo hfree
  | refresh t save encounter rest row hrunning hstage htodo hfree hrow =>
    exact h.written hrunning (.inl hstage) htodo rfl hfree
      fun saves hdescribed => hdescribed.refresh hrow
  | miss t save encounter rest hrunning hstage htodo hrow =>
    exact h.miss hrunning hstage htodo hrow
  | fill t save encounter rest since row hrunning hstage htodo hfree hrow =>
    exact h.written hrunning (.inr ⟨since, hstage⟩) htodo rfl hfree
      fun saves hdescribed => hdescribed.fill hrow
  | stand t save encounter rest since hrunning hstage htodo hfree hrow =>
    exact h.stand hrunning hstage htodo hfree hrow
  | clear t save encounter rest outcome hrunning hstage htodo => exact h.clear hrunning hstage htodo
  | list t save encounter rest outcome hrunning hstage htodo => exact h.list hrunning hstage htodo
  | commit t save hrunning hstage htodo => exact h.commit hrunning hstage htodo
  | rollback t save hrunning => exact h.rollback hrunning

theorem inv_of_run (h : Relation.ReflTransGen (Step lower) State.empty s) :
    Inv lower s := by
  induction h with
  | refl => exact inv_empty
  | tail _ hstep ih => exact ih.step hstep

theorem saved_prefix {s' : State} (h : Relation.ReflTransGen (Step lower) s s') :
    ∃ more, s'.saved = s.saved ++ more := by
  induction h with
  | refl => exact ⟨[], (append_nil _).symm⟩
  | tail _ hstep ih =>
    obtain ⟨more, hmore⟩ := ih
    cases hstep with
    | commit t save => exact ⟨more ++ save.accepted t, by rw [hmore, append_assoc]⟩
    | _ => exact ⟨more, hmore⟩

/-- A row once read keeps its kill whatever is saved after. -/
theorem Described.read_kept {saves more : List Saved} {row row' : Option EncounterRow} {kill : Kill}
    {rosterState : RosterState} {share : Option Instant} (h : Described saves row)
    (h' : Described (saves ++ more) row')
    (hread : row = some (.read kill rosterState share readAt)) :
    ∃ rosterState' share' readAt', row' = some (.read kill rosterState' share' readAt') := by
  cases saves with
  | nil =>
    rw [hread] at h
    cases h
  | cons first rest =>
    unfold Described at h h'
    rw [head?_cons, getLast?_cons] at h
    rw [cons_append, head?_cons, getLast?_cons] at h'
    simp only at h h'
    rw [hread] at h
    obtain ⟨rfl, -, -, -⟩ := EncounterRow.read.inj (Option.some.inj h)
    exact ⟨_, _, _, h'⟩

variable (lower : String → String)

theorem foldl_insertMember (members rows : List MemberRow)
    (h : ((rows ++ members).map MemberRow.raiderIoCharacterId).Nodup) :
    members.foldl insertMember rows = rows ++ members := by
  induction members generalizing rows with
  | nil => rw [foldl_nil, append_nil]
  | cons row rest ih =>
    have hnew : rows.any (fun other => other.raiderIoCharacterId = row.raiderIoCharacterId) =
        false := by
      rw [any_eq_false]
      intro other hother heq
      rw [map_append, nodup_append] at h
      exact h.2.2 _ (mem_map_of_mem hother) _ (mem_map_of_mem mem_cons_self)
        (of_decide_eq_true heq)
    have hone : insertMember rows row = rows ++ [row] := by
      unfold insertMember
      rw [hnew]
      rfl
    rw [foldl_cons, hone, ih, append_assoc]
    · rfl
    · rw [append_assoc]
      exact h

/-- A roster that lists no raider twice is stored whole. -/
theorem rosterRows_eq {encounter : LoggedEncounter}
    (h : (encounter.members.map Member.raiderIoCharacterId).Nodup) :
    rosterRows lower encounter = encounter.members.map (memberRow lower) := by
  unfold rosterRows insertMembers
  rw [foldl_insertMember, nil_append]
  rw [nil_append, map_map]
  exact h

/-- In every order of the saves' statements, a row is described by the saves accepted,
one after another; once read it stays read and keeps its kill; its members are the last
one's roster; and a save that commits has accepted each encounter it carries or left
standing a read that another save committed after its first statement. -/
theorem logged_encounters_saved (lower : String → String) {s : State}
    (h : Relation.ReflTransGen (Step lower) State.empty s) :
    (∀ id, Described (savesOf id s.saved) (s.rows.committed id).row ∧
      (s.rows.committed id).members = membersOf lower (savesOf id s.saved)) ∧
    (∀ a ∈ s.saved, (∃ save, s.saves a.save = .committed save ∧ a ∈ save.accepted a.save) ∧
      ((a.encounter.members.map Member.raiderIoCharacterId).Nodup →
        rosterRows lower a.encounter = a.encounter.members.map (memberRow lower))) ∧
    (∀ s', Relation.ReflTransGen (Step lower) s s' → ∀ id kill rosterState share readAt,
      (s.rows.committed id).row = some (.read kill rosterState share readAt) →
        ∃ rosterState' share' readAt',
          (s'.rows.committed id).row = some (.read kill rosterState' share' readAt')) ∧
    ∀ t save, s.saves t = .committed save →
      save.outcomes.map Prod.fst = (writesOf save.answers).filterMap Write.encounter? ∧
      (∀ a ∈ save.accepted t, a ∈ s.saved) ∧
      ∀ encounter since, (encounter, Outcome.stood since) ∈ save.outcomes →
        StoodBehind s.saved t since encounter := by
  have hinv := inv_of_run h
  refine ⟨hinv.committed, fun a ha => ⟨hinv.owned a ha, rosterRows_eq lower⟩, ?_, hinv.done⟩
  intro s' hrun id kill rosterState share readAt hread
  obtain ⟨more, hmore⟩ := saved_prefix hrun
  have hafter := ((inv_of_run (h.trans hrun)).committed id).1
  rw [hmore, savesOf_append] at hafter
  exact (hinv.committed id).1.read_kept hafter hread

def oneEncounter (name : String) : LoggedEncounter where
  loggedEncounterId := 7
  kill := ⟨"liberation-of-undermine", "vexie", 0, 60, 60, none, ⟨660, 650, 670⟩, 2, none⟩
  rosterState := .available
  shareRaidUntil := none
  members := [⟨1, name, "draenor", "eu", "Mage", "Frost", .dps, none⟩]

/-- Two saves find no row; the second commits first, and its read stands. -/
theorem logged_encounters_saved_twice : ∃ s, Relation.ReflTransGen (Step id) State.empty s ∧
    s.saved.map Saved.save = [1] ∧
    (s.rows.committed 7).members = [memberRow id ⟨1, "Bo", "draenor", "eu", "Mage", "Frost", .dps,
      none⟩] ∧
    ∃ save, s.saves 0 = .committed save ∧
      ∀ encounter since, (encounter, Outcome.stood since) ∈ save.outcomes →
        StoodBehind s.saved 0 since encounter := by
  have run : Relation.ReflTransGen (Step id) State.empty _ :=
    ((((((((((Relation.ReflTransGen.single
      (Step.begin _ 0 ⟨[oneEncounter "Al"], []⟩ 10 rfl (.inl (cons_ne_nil _ _)))).tail
      (Step.begin _ 1 ⟨[oneEncounter "Bo"], []⟩ 20 rfl (.inl (cons_ne_nil _ _)))).tail
      (Step.miss _ 0 _ _ _ rfl rfl rfl rfl)).tail
      (Step.miss _ 1 _ _ _ rfl rfl rfl rfl)).tail
      (Step.fill _ 1 _ _ _ _ _ rfl rfl rfl (fun _ _ h => (by cases h)) rfl)).tail
      (Step.clear _ 1 _ _ _ _ rfl rfl rfl)).tail
      (Step.list _ 1 _ _ _ _ rfl rfl rfl)).tail
      (Step.commit _ 1 _ rfl rfl rfl)).tail
      (Step.stand _ 0 _ _ _ _ rfl rfl rfl (fun _ _ h => (by cases h)) rfl)).tail
      (Step.commit _ 0 _ rfl rfl rfl))
  obtain ⟨hrows, -, -, hdone⟩ := logged_encounters_saved id run
  exact ⟨_, run, rfl, (hrows 7).2, _, rfl, (hdone 0 _ rfl).2.2⟩

end SlashWho.LoggedEncounterSaves
