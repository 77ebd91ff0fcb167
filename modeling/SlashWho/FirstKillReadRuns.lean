import SlashWho.FirstKillReads

/-!
What a collection of first kills keeps in every order of its reads. An encounter stored
as read keeps its kill and is never refused; a kill is read only where its encounter is
stored or was saved; and a roster shown credits it only with the character on it, but
for a character Raider.IO gives no id.
-/

namespace SlashWho.FirstKillReads

open List RosterPresence WorkerPool
open HistoricKills (LimitationCode)
open LoggedEncounterSaves (Kill LoggedEncounter UnavailableCode)
open RaiderIoFirstKills (EncounterReads FirstKill HistoricMythicKill collectFirstKill)

variable {encounters : List LoggedEncounter} {e : LoggedEncounter}

theorem mem_of_byId {id : ℕ} (h : (byId encounters).get? id = some e) :
    e ∈ encounters ∧ e.loggedEncounterId = id := by
  unfold byId at h
  rw [OrderedMap.get?_ofList_map] at h
  have hid := find?_some h
  simp only [decide_eq_true_eq] at hid
  exact ⟨mem_reverse.mp (mem_of_find?_eq_some h), hid⟩

theorem exists_byId (h : e ∈ encounters) :
    ∃ other, (byId encounters).get? e.loggedEncounterId = some other := by
  have hkey : e.loggedEncounterId ∈ (byId encounters).keys := by
    unfold byId
    rw [OrderedMap.mem_keys_ofList, map_map]
    exact mem_map_of_mem h
  exact (OrderedMap.mem_keys_iff _ _).mp hkey

variable (c : Collection)

theorem storedRead_of_mem {stored : StoredEncounter} (h : stored ∈ c.stored.encounters) :
    c.storedRead.get? stored.encounter.loggedEncounterId = some stored.encounter := by
  unfold Collection.storedRead byId
  rw [OrderedMap.get?_ofList_map]
  refine find?_eq_some_of_nodup LoggedEncounter.loggedEncounterId ?_
    (mem_reverse.mpr (mem_map_of_mem h))
  rw [map_reverse, nodup_reverse, map_map]
  exact c.stored.distinct

theorem mem_of_storedRead {id : ℕ} (h : c.storedRead.get? id = some e) :
    ∃ stored ∈ c.stored.encounters, stored.encounter = e ∧ e.loggedEncounterId = id := by
  obtain ⟨hin, hid⟩ := mem_of_byId h
  obtain ⟨stored, hstored, heq⟩ := mem_map.mp hin
  exact ⟨stored, hstored, heq, hid⟩

variable {c : Collection}

/-- The encounter is of the kill's raid and boss. -/
def Names (encounter : Kill) (kill : HistoricMythicKill) : Prop :=
  encounter.raidSlug = kill.raidSlug ∧ encounter.bossSlug = kill.bossSlug

/-- What the reads hold: a stored kill as first read, or one of the kill asked about. -/
structure Faithful (c : Collection) (reads : Reads) : Prop where
  readNow : ∀ e ∈ reads.readNow, match c.storedRead.get? e.loggedEncounterId with
    | some kept => e.kill = kept.kill
    | none => e.loggedEncounterId ∈ c.toRead ∧
      ∃ kill, c.killById.get? e.loggedEncounterId = some kill ∧ Names e.kill kill
  unavailableNow : ∀ u ∈ reads.unavailableNow, c.storedRead.get? u.loggedEncounterId = none

theorem faithful_start : Faithful c (startReads c) where
  readNow := fun _ h => (by cases h)
  unavailableNow := fun _ h => (by cases h)

variable {reads : Reads}

theorem Faithful.miss (h : Faithful c reads) (id : ℕ) (code : LimitationCode) :
    Faithful c (reads.miss c id code) := by
  unfold Reads.miss
  split
  · exact h
  · exact ⟨h.readNow, h.unavailableNow⟩

theorem Faithful.refuse (h : Faithful c reads) {id : ℕ} (code : UnavailableCode) :
    Faithful c (reads.refuse c id code) := by
  unfold Reads.refuse
  cases hkept : c.storedRead.get? id with
  | none =>
    refine ⟨h.readNow, fun u hu => ?_⟩
    rcases mem_append.mp hu with hold | hnew
    · exact h.unavailableNow u hold
    · rw [mem_singleton.mp hnew]
      exact hkept
  | some kept =>
    refine ⟨fun e he => ?_, h.unavailableNow⟩
    rcases mem_append.mp he with hold | hnew
    · exact h.readNow e hold
    · obtain ⟨-, -, -, hid⟩ := mem_of_storedRead c hkept
      have hsame : e.kill = kept.kill ∧ e.loggedEncounterId = kept.loggedEncounterId := by
        rw [mem_singleton.mp hnew]
        cases code <;> exact ⟨rfl, rfl⟩
      rw [hsame.2, hid, hkept]
      exact hsame.1

theorem Faithful.keep (h : Faithful c reads) {id : ℕ} {kill : HistoricMythicKill}
    (hid : id ∈ c.toRead) (hkill : c.killById.get? id = some kill) {read : ReadEncounter}
    (hnames : Names read.kill kill) : Faithful c (reads.keep c id read) := by
  unfold Reads.keep
  refine ⟨fun e he => ?_, h.unavailableNow⟩
  rcases mem_append.mp he with hold | hnew
  · exact h.readNow e hold
  · cases hkept : c.storedRead.get? id with
    | none =>
      rw [hkept] at hnew
      rw [mem_singleton.mp hnew]
      have hnone : c.storedRead.get? (encounterInput id read).loggedEncounterId = none := hkept
      rw [hnone]
      exact ⟨hid, kill, hkill, hnames⟩
    | some kept =>
      obtain ⟨-, -, -, hkeptId⟩ := mem_of_storedRead c hkept
      rw [hkept] at hnew
      rw [mem_singleton.mp hnew]
      have hsome : c.storedRead.get? (refreshed kept (encounterInput id read)).loggedEncounterId =
          some kept := by
        change c.storedRead.get? kept.loggedEncounterId = some kept
        rw [hkeptId]
        exact hkept
      rw [hsome]
      rfl

/-- One answer keeps what the reads hold faithful. -/
theorem Faithful.answer (h : Faithful c reads) {id : ℕ} {kill : HistoricMythicKill}
    (hid : id ∈ c.toRead) (hkill : c.killById.get? id = some kill) (answer : EncounterAnswer) :
    Faithful c (reads.answer c id kill answer) := by
  unfold Reads.answer
  cases answer with
  | limitation code retryAfterMs =>
    cases hpermanent : isPermanent code with
    | some permanent =>
      simp only [hpermanent]
      exact h.refuse permanent
    | none =>
      simp only [hpermanent]
      have hstopping : Faithful c
          (if code = .rateLimited then reads.abandon .rateLimited else reads) := by
        split
        · exact ⟨h.readNow, h.unavailableNow⟩
        · exact h
      have hmissed := hstopping.miss id code
      exact ⟨hmissed.readNow, hmissed.unavailableNow⟩
  | encounter read =>
    simp only
    by_cases hother : read.kill.raidSlug ≠ kill.raidSlug ∨ read.kill.bossSlug ≠ kill.bossSlug
    · rw [if_pos hother]
      exact h.refuse .schemaDrift
    · rw [if_neg hother]
      simp only [not_or, ne_eq, not_not] at hother
      exact h.keep hid hkill hother
  | threw =>
    have habandoned : Faithful c (reads.abandon .unavailable) := ⟨h.readNow, h.unavailableNow⟩
    have hmissed := habandoned.miss id .unavailable
    exact ⟨hmissed.readNow, hmissed.unavailableNow⟩

theorem Faithful.settle (h : Faithful c reads) (place : ℕ) (answer : EncounterAnswer) :
    Faithful c (reads.settle c place answer) := by
  unfold Reads.settle
  cases hid : c.toRead[place]? with
  | none => exact h
  | some id =>
    cases hkill : c.killById.get? id with
    | none =>
      simp only [hkill]
      exact h
    | some kill =>
      simp only [hkill]
      have hasked : Faithful c { reads with asked := reads.asked ++ [id] } :=
        ⟨h.readNow, h.unavailableNow⟩
      exact hasked.answer (mem_of_getElem? hid) hkill answer

theorem Faithful.pass (h : Faithful c reads) (place : ℕ) :
    Faithful c (reads.pass c place) := by
  unfold Reads.pass
  split
  · exact h.miss _ _
  · exact h

theorem faithful_of_run {answers : ℕ → EncounterAnswer → Prop} {s : Pool Reads} {workers : ℕ}
    (h : Relation.ReflTransGen (WorkerPool.Step (readRules c answers))
      (Pool.begin workers (startReads c)) s) : Faithful c s.acc := by
  obtain ⟨events, hplays, -⟩ := (inv_of_run h).played
  exact hplays.keeps faithful_start (fun _ place hacc _ => hacc.pass place)
    fun _ place answer hacc _ => hacc.settle place answer

variable {reads : EncounterReads} {kill : HistoricMythicKill} {collected : FirstKill}

/-- A kill read names an encounter held, and where its roster is shown the character is
on it, or has no id to look for. -/
theorem read_of_collected (h : collectFirstKill reads kill = some collected)
    (hread : collected.encounterState = .read) :
    ∃ id e, kill.loggedEncounterId = some id ∧ collected.loggedEncounterId = some id ∧
      reads.encounters id = some e ∧ collected.raidSlug = kill.raidSlug ∧
      collected.bossSlug = kill.bossSlug ∧ (e.rosterState = .available →
        reads.established id = true ∨ (reads.character = some .id ∧ reads.present id = true) ∨
          (reads.character = some .none ∧ collected.presenceChecked = false)) := by
  unfold collectFirstKill at h
  cases hid : kill.loggedEncounterId with
  | none =>
    rw [hid] at h
    rw [← Option.some.inj h] at hread
    cases hread
  | some id =>
    rw [hid] at h
    simp only at h
    cases he : reads.encounters id with
    | none =>
      rw [he] at h
      rw [← Option.some.inj h] at hread
      cases hread
    | some e =>
      rw [he] at h
      obtain ⟨checked, hchecked, rfl⟩ := Option.map_eq_some_iff.mp h
      refine ⟨id, e, rfl, rfl, he, rfl, rfl, fun havailable => ?_⟩
      rw [if_pos havailable] at hchecked
      by_cases hestablished : reads.established id = true
      · exact .inl hestablished
      · rw [if_neg hestablished] at hchecked
        by_cases hcharacter : reads.character = some .id
        · rw [if_pos hcharacter] at hchecked
          by_cases hpresent : reads.present id = true
          · exact .inr (.inl ⟨hcharacter, hpresent⟩)
          · rw [if_neg hpresent] at hchecked
            cases hchecked
        · rw [if_neg hcharacter] at hchecked
          by_cases hnone : reads.character = some .none
          · rw [if_pos hnone] at hchecked
            exact .inr (.inr ⟨hnone, (Option.some.inj hchecked).symm⟩)
          · rw [if_neg hnone] at hchecked
            cases hchecked

theorem state_of_held {id : ℕ} {e : RaiderIoFirstKills.LoggedEncounter}
    (h : collectFirstKill reads kill = some collected) (hid : kill.loggedEncounterId = some id)
    (he : reads.encounters id = some e) : collected.encounterState = .read := by
  unfold collectFirstKill at h
  rw [hid] at h
  simp only at h
  rw [he] at h
  obtain ⟨checked, -, rfl⟩ := Option.map_eq_some_iff.mp h
  rfl

/-- A kill left out has a roster shown that does not list the character, or that could
not be checked. -/
theorem omitted_of_collected (h : collectFirstKill reads kill = none) :
    ∃ id e, kill.loggedEncounterId = some id ∧ reads.encounters id = some e ∧
      e.rosterState = .available ∧ reads.established id = false ∧
      ((reads.character = some .id ∧ reads.present id = false) ∨
        (reads.character ≠ some .id ∧ reads.character ≠ some .none)) := by
  unfold collectFirstKill at h
  cases hid : kill.loggedEncounterId with
  | none =>
    rw [hid] at h
    cases h
  | some id =>
    rw [hid] at h
    simp only at h
    cases he : reads.encounters id with
    | none =>
      rw [he] at h
      cases h
    | some e =>
      rw [he] at h
      have hnone := Option.map_eq_none_iff.mp h
      refine ⟨id, e, rfl, he, ?_⟩
      by_cases havailable : e.rosterState = .available
      · rw [if_pos havailable] at hnone
        by_cases hestablished : reads.established id = true
        · rw [if_pos hestablished] at hnone
          cases hnone
        · rw [if_neg hestablished] at hnone
          refine ⟨havailable, Bool.eq_false_iff.mpr hestablished, ?_⟩
          by_cases hcharacter : reads.character = some .id
          · rw [if_pos hcharacter] at hnone
            by_cases hpresent : reads.present id = true
            · rw [if_pos hpresent] at hnone
              cases hnone
            · exact .inl ⟨hcharacter, Bool.eq_false_iff.mpr hpresent⟩
          · rw [if_neg hcharacter] at hnone
            by_cases hunnamed : reads.character = some .none
            · rw [if_pos hunnamed] at hnone
              cases hnone
            · exact .inr ⟨hcharacter, hunnamed⟩
      · rw [if_neg havailable] at hnone
        cases hnone

variable {texts : Texts} {run : CollectionRun}

theorem held_encounter (h : Faithful c run.pool.acc) {id : ℕ} {e : LoggedEncounter}
    (he : (run.encounters c).get? id = some e) : e.loggedEncounterId = id ∧
      ((∃ kept, c.storedRead.get? id = some kept ∧ e.kill = kept.kill) ∨
        (c.storedRead.get? id = none ∧ run.saved = true ∧ e ∈ run.pool.acc.readNow ∧
          id ∈ c.toRead ∧ ∃ kill, c.killById.get? id = some kill ∧ Names e.kill kill)) := by
  obtain ⟨hin, hid⟩ := mem_of_byId he
  refine ⟨hid, ?_⟩
  unfold CollectionRun.held heldEncounters at hin
  rcases mem_append.mp hin with hstored | hread
  · obtain ⟨stored, hmem, rfl⟩ := mem_map.mp hstored
    refine .inl ⟨stored.encounter, ?_, rfl⟩
    rw [← hid]
    exact storedRead_of_mem c hmem
  · by_cases hsaved : run.saved = true
    · rw [if_pos hsaved] at hread
      have hfaithful := h.readNow e hread
      rw [hid] at hfaithful
      cases hkept : c.storedRead.get? id with
      | none =>
        rw [hkept] at hfaithful
        exact .inr ⟨rfl, hsaved, hread, hfaithful⟩
      | some kept =>
        rw [hkept] at hfaithful
        exact .inl ⟨kept, rfl, hfaithful⟩
    · rw [if_neg hsaved] at hread
      cases hread

theorem held_of_stored (h : Faithful c run.pool.acc) {stored : StoredEncounter}
    (hstored : stored ∈ c.stored.encounters) :
    ∃ e, (run.encounters c).get? stored.encounter.loggedEncounterId = some e ∧
      e.kill = stored.encounter.kill := by
  have hheld : stored.encounter ∈ run.held c :=
    mem_append_left _ (mem_map_of_mem hstored)
  obtain ⟨e, he⟩ := exists_byId hheld
  refine ⟨e, he, ?_⟩
  have hkept := storedRead_of_mem c hstored
  rcases (held_encounter h he).2 with ⟨kept, hsome, hkill⟩ | ⟨hnone, -⟩
  · rw [hkept] at hsome
    rw [hkill, ← Option.some.inj hsome]
  · rw [hkept] at hnone
    cases hnone

theorem encounterReads_eq_some {id : ℕ} {e : RaiderIoFirstKills.LoggedEncounter}
    (h : (run.encounterReads c).encounters id = some e) :
    ∃ held, (run.encounters c).get? id = some held ∧ e.rosterState = held.rosterState := by
  obtain ⟨held, hheld, rfl⟩ := Option.map_eq_some_iff.mp h
  exact ⟨held, hheld, rfl⟩

theorem character_of_shown {id : ℕ} {e : LoggedEncounter}
    (he : (run.encounters c).get? id = some e) (hshown : e.rosterState = .available)
    (hunestablished : id ∉ established c) :
    e ∈ unchecked c (run.encounters c) ∧ run.character c = some run.answer := by
  have hid := (mem_of_byId he).2
  have hmem : e ∈ unchecked c (run.encounters c) := by
    refine mem_filter.mpr ⟨(OrderedMap.mem_values_iff _ _).mpr ⟨id, he⟩, ?_⟩
    rw [hshown, hid]
    simpa using hunestablished
  refine ⟨hmem, ?_⟩
  unfold CollectionRun.character
  rw [if_neg]
  intro hempty
  rw [List.isEmpty_iff] at hempty
  rw [hempty] at hmem
  cases hmem

variable {answers : ℕ → EncounterAnswer → Prop}

theorem asked_answer (reads : Reads) (id : ℕ) (kill : HistoricMythicKill)
    (answer : EncounterAnswer) : (reads.answer c id kill answer).asked = reads.asked := by
  have hmiss : ∀ (r : Reads) (code : LimitationCode), (r.miss c id code).asked = r.asked := by
    intro r code
    unfold Reads.miss
    split <;> rfl
  have hrefuse : ∀ code : UnavailableCode, (reads.refuse c id code).asked = reads.asked := by
    intro code
    unfold Reads.refuse
    split <;> rfl
  unfold Reads.answer
  cases answer with
  | limitation code retryAfterMs =>
    cases hpermanent : isPermanent code with
    | some permanent =>
      simp only [hpermanent]
      exact hrefuse permanent
    | none =>
      simp only [hpermanent]
      refine (hmiss _ code).trans ?_
      split <;> rfl
  | encounter read =>
    simp only
    split
    · exact hrefuse .schemaDrift
    · rfl
  | threw => exact hmiss _ .unavailable

theorem asked_le {acc : Reads} {events : List (Event EncounterAnswer)}
    (h : Plays (readRules c answers) (startReads c) events acc) :
    acc.asked.length ≤ events.length := by
  induction h with
  | none => exact Nat.le_refl _
  | @passed events acc place _ _ ih =>
    rw [length_append]
    have hsame : (acc.pass c place).asked = acc.asked := by
      unfold Reads.pass Reads.miss
      split
      · split <;> rfl
      · rfl
    change (acc.pass c place).asked.length ≤ _
    rw [hsame]
    omega
  | @settled events acc place answer _ _ ih =>
    rw [length_append, length_singleton]
    change (acc.settle c place answer).asked.length ≤ _
    unfold Reads.settle
    split
    · omega
    · split
      · omega
      · rw [asked_answer]
        simp only [length_append, length_singleton]
        omega

theorem length_toRead_le (c : Collection) :
    c.toRead.length ≤ MAX_RAIDER_IO_LOGGED_ENCOUNTER_READS_PER_RUN := by
  unfold Collection.toRead
  rw [length_take]
  exact Nat.min_le_left _ _

/-- Reads made and under way are within the ceiling. -/
theorem asked_within {s : Pool Reads} {workers : ℕ}
    (h : Relation.ReflTransGen (WorkerPool.Step (readRules c answers))
      (Pool.begin workers (startReads c)) s) :
    s.acc.asked.length + s.inFlight.length ≤ MAX_RAIDER_IO_LOGGED_ENCOUNTER_READS_PER_RUN := by
  have hinv := inv_of_run h
  obtain ⟨events, hplays, hperm⟩ := hinv.played
  have hasked := asked_le hplays
  have hlength := hperm.length_eq
  rw [length_append, length_map, length_range] at hlength
  have hbounded : s.next ≤ c.toRead.length := hinv.bounded
  have hceiling := length_toRead_le c
  omega

/-- A re-read under way leaves no encounter unread behind it. -/
theorem unread_before_held {s : Pool Reads} {workers : ℕ}
    (h : Relation.ReflTransGen (WorkerPool.Step (readRules c answers))
      (Pool.begin workers (startReads c)) s) {place id : ℕ} (hplace : place ∈ s.inFlight)
    (hid : c.toRead[place]? = some id) (hheld : c.held id = true) :
    ∀ other ∈ c.unread, ∃ earlier < s.next, c.toRead[earlier]? = some other := by
  have hinv := inv_of_run h
  obtain ⟨events, -, hperm⟩ := hinv.played
  have hnext : place < s.next :=
    mem_range.mp (hperm.mem_iff.mp (mem_append_right _ hplace))
  intro other hother
  obtain ⟨earlier, hlt, hget⟩ := getElem_of_mem hother
  have hpast : c.unread.length ≤ place := by
    by_contra hbefore
    have hin : id ∈ c.unread := by
      refine mem_of_getElem? (i := place) ?_
      unfold Collection.toRead at hid
      rw [getElem?_take] at hid
      split at hid
      · rw [getElem?_append_left (by omega)] at hid
        exact hid
      · cases hid
    have hunheld := (mem_filter.mp hin).2
    rw [hheld] at hunheld
    cases hunheld
  have hceiling := length_toRead_le c
  have hbounded : s.next ≤ c.toRead.length := hinv.bounded
  refine ⟨earlier, by omega, ?_⟩
  unfold Collection.toRead
  rw [getElem?_take_of_lt (by omega), getElem?_append_left hlt,
    getElem?_eq_getElem hlt, hget]

end SlashWho.FirstKillReads
