import SlashWho.RosterPresence

/-!
What roster resolutions prove. Whatever order the workers' reads and saves come in, an
answer that names a presence is one stored or saved in the run, the reads stay within
their ceiling and none starts after one that says to stop; and every resolution ends.
-/

namespace SlashWho.RosterPresence

open List LoggedEncounterSaves

section Runs
variable (backing : Backing) (subjectId : ℕ)

/-- Someone's id for a locator, by an unexpired stored answer or one the run saved. -/
def Proved (saved : List (RosterProfileLocator × ℕ)) (locator : RosterProfileLocator)
    (id : ℕ) : Prop :=
  (∃ row, backing.stored locator = some row ∧ row.unexpired backing.now = true ∧
    row.resolvedId = some id) ∨ (locator, id) ∈ saved

/-- An answer that names a presence has an id behind it. -/
def Justified (saved : List (RosterProfileLocator × ℕ)) (locator : RosterProfileLocator)
    (answer : Answer) : Prop :=
  match answer.presence with
  | .present => Proved backing saved locator subjectId
  | .absent => ∃ other, other ≠ subjectId ∧ Proved backing saved locator other
  | .unknown => True

structure Inv (s : Resolving) : Prop where
  reserved : s.reads.length + s.reserving.length ≤ s.slots
  ceiling : s.slots ≤ MAX_ROSTER_PROFILE_RESOLUTIONS
  stops : ∀ result ∈ s.results, result.stops = true → s.stopped = true
  justified : ∀ locator answer, s.answers locator = some answer →
    Justified backing subjectId s.saved locator answer

variable {backing subjectId}

variable {saved : List (RosterProfileLocator × ℕ)} {locator : RosterProfileLocator}

theorem Proved.append {id : ℕ} (h : Proved backing saved locator id)
    (more : List (RosterProfileLocator × ℕ)) :
    Proved backing (saved ++ more) locator id := by
  rcases h with hstored | hsaved
  · exact .inl hstored
  · exact .inr (mem_append_left _ hsaved)

variable {answer : Answer}

theorem Justified.append (h : Justified backing subjectId saved locator answer)
    (more : List (RosterProfileLocator × ℕ)) :
    Justified backing subjectId (saved ++ more) locator answer := by
  unfold Justified at h ⊢
  cases hpresence : answer.presence with
  | present =>
    rw [hpresence] at h
    exact Proved.append h more
  | absent =>
    rw [hpresence] at h
    obtain ⟨other, hne, hproved⟩ := h
    exact ⟨other, hne, hproved.append more⟩
  | unknown => trivial

theorem justified_resolvedAnswer {id : ℕ} (h : Proved backing saved locator id) :
    Justified backing subjectId saved locator (resolvedAnswer subjectId id) := by
  unfold Justified resolvedAnswer
  by_cases hid : id = subjectId
  · rw [if_pos hid]
    exact hid ▸ h
  · rw [if_neg hid]
    exact ⟨id, hid, h⟩

theorem justified_storedAnswer
    (h : storedAnswer subjectId backing.now (backing.stored locator) = some answer) :
    Justified backing subjectId saved locator answer := by
  cases hrow : backing.stored locator with
  | none =>
    rw [hrow] at h
    cases h
  | some row =>
    rw [hrow] at h
    unfold storedAnswer at h
    cases hfresh : row.unexpired backing.now with
    | true =>
      simp only [hfresh, if_true, Option.some.injEq] at h
      cases hresolved : row.resolvedId with
      | none =>
        rw [hresolved] at h
        rw [← h]
        trivial
      | some id =>
        rw [hresolved] at h
        rw [← h]
        exact justified_resolvedAnswer (.inl ⟨row, hrow, hfresh, hresolved⟩)
    | false =>
      simp only [hfresh, Bool.false_eq_true, if_false] at h
      by_cases hcools : row.coolsDown backing.now = true
      · simp only [hcools, if_true, Option.some.injEq] at h
        rw [← h]
        trivial
      · simp only [hcools] at h
        cases h

theorem inv_begin {answers : RosterProfileLocator → Option Answer}
    (h : ∀ locator answer, answers locator = some answer →
      Justified backing subjectId [] locator answer) :
    Inv backing subjectId (.begin_ answers) where
  reserved := Nat.le_refl _
  ceiling := Nat.zero_le _
  stops := fun _ hin => (by cases hin)
  justified := h

theorem justified_update {answers : RosterProfileLocator → Option Answer}
    (h : ∀ l a, answers l = some a → Justified backing subjectId saved l a)
    (hnew : Justified backing subjectId saved locator answer) :
    ∀ l a, Function.update answers locator (some answer) l = some a →
      Justified backing subjectId saved l a := by
  intro l a ha
  by_cases hl : l = locator
  · rw [hl, Function.update_self] at ha
    rw [hl, ← Option.some.inj ha]
    exact hnew
  · rw [Function.update_of_ne hl] at ha
    exact h l a ha

variable {queue : List RosterProfileLocator} {s' : Resolving}

theorem Inv.step {s : Resolving} (h : Inv backing subjectId s) (hstep : Step subjectId queue s s') :
    Inv backing subjectId s' := by
  have hreserved := h.reserved
  have hceiling := h.ceiling
  cases hstep with
  | claim locator hidle hopen hnext hslots =>
    refine ⟨?_, hslots, h.stops, h.justified⟩
    simp only [length_append, length_singleton]
    omega
  | leased locator before after hin =>
    rw [hin] at hreserved
    simp only [length_append, length_cons] at hreserved
    refine ⟨?_, ?_, h.stops, justified_update h.justified trivial⟩
    · simp only [Resolving.answer, length_append]
      omega
    · simp only
      omega
  | holdBack locator before after hin hstopped =>
    rw [hin] at hreserved
    simp only [length_append, length_cons] at hreserved
    refine ⟨?_, hceiling, h.stops, justified_update h.justified trivial⟩
    simp only [Resolving.answer, length_append]
    omega
  | read locator before after hin hopen =>
    rw [hin] at hreserved
    simp only [length_append, length_cons] at hreserved
    refine ⟨?_, hceiling, h.stops, h.justified⟩
    simp only [length_append, length_singleton]
    omega
  | receive locator result before after hin =>
    refine ⟨hreserved, hceiling, ?_, h.justified⟩
    intro other hother hstops
    simp only [Bool.or_eq_true]
    rcases mem_append.mp hother with hold | hnew
    · exact .inl (h.stops other hold hstops)
    · rw [← mem_singleton.mp hnew]
      exact .inr hstops
  | save locator result resolvedId before after hin hresolved =>
    refine ⟨hreserved, hceiling, h.stops, justified_update ?_ ?_⟩
    · exact fun l a ha => (h.justified l a ha).append _
    · exact justified_resolvedAnswer
        (.inr (mem_append_right _ (mem_singleton_self _)))
  | saveLimitation locator result before after hin hresolved =>
    exact ⟨hreserved, hceiling, h.stops, justified_update h.justified trivial⟩
  | saveLate locator result before after hin =>
    exact ⟨hreserved, hceiling, h.stops, justified_update h.justified trivial⟩
  | reserveThrows locator before after hin =>
    rw [hin] at hreserved
    simp only [length_append, length_cons] at hreserved
    refine ⟨?_, hceiling, h.stops, h.justified⟩
    simp only [length_append]
    omega
  | saveThrows locator result before after hin =>
    exact ⟨hreserved, hceiling, h.stops, h.justified⟩
  | leave hidle hdone => exact ⟨hreserved, hceiling, h.stops, h.justified⟩

theorem Inv.run {s : Resolving} (h : Inv backing subjectId s)
    (hrun : Relation.ReflTransGen (Step subjectId queue) s s') :
    Inv backing subjectId s' := by
  induction hrun with
  | refl => exact h
  | tail _ hstep ih => exact ih.step hstep

theorem reads_of_stopped {s : Resolving} (h : s.stopped = true)
    (hrun : Relation.ReflTransGen (Step subjectId queue) s s') :
    s'.stopped = true ∧ s'.reads = s.reads := by
  induction hrun with
  | refl => exact ⟨h, rfl⟩
  | tail _ hstep ih =>
    obtain ⟨hstopped, hreads⟩ := ih
    cases hstep with
    | claim locator hidle hopen => exact ⟨hstopped, hreads⟩
    | read locator before after hin hopen =>
      rw [hstopped] at hopen
      cases hopen
    | receive locator result =>
      refine ⟨?_, hreads⟩
      simp only [hstopped, Bool.true_or]
    | _ => exact ⟨hstopped, hreads⟩

/-- A worker that has not come to its end can go on, and each step is a step nearer to it. -/
def turns (subjectId : ℕ) (queue : List RosterProfileLocator) :
    Transitions (Step subjectId queue) Resolving.Ended where
  Inv := fun _ => True
  rank := fun s => 5 * (queue.length - s.next) + 4 * s.reserving.length + 3 * s.reading.length +
    2 * s.saving.length + s.idle
  keeps := fun _ _ _ _ => trivial
  descends := by
    intro s s' _ hstep
    cases hstep with
    | claim locator hidle hopen hnext =>
      obtain ⟨hlt, -⟩ := List.getElem?_eq_some_iff.mp hnext
      simp only [length_append, length_singleton]
      omega
    | leave => simp only; omega
    | leased locator before after hin | holdBack locator before after hin
    | read locator before after hin | receive locator result before after hin
    | save locator result resolvedId before after hin
    | saveLimitation locator result before after hin | saveLate locator result before after hin
    | reserveThrows locator before after hin | saveThrows locator result before after hin =>
      simp only [Resolving.answer, hin, length_append, length_cons, length_nil]
      omega
  progress := by
    intro s _ hended
    cases hsaving : s.saving with
    | cons pair after => exact ⟨_, .saveLate s pair.1 pair.2 [] after hsaving⟩
    | nil =>
      cases hreading : s.reading with
      | cons locator after => exact ⟨_, .receive s locator (.resolved 0) [] after hreading⟩
      | nil =>
        cases hreserving : s.reserving with
        | cons locator after => exact ⟨_, .leased s locator [] after hreserving⟩
        | nil =>
          have hidle : 0 < s.idle :=
            Nat.pos_of_ne_zero fun hzero => hended ⟨hzero, hreserving, hreading, hsaving⟩
          by_cases hdone : s.stopped = true ∨ queue.length ≤ s.next ∨
              MAX_ROSTER_PROFILE_RESOLUTIONS ≤ s.slots
          · exact ⟨_, .leave s hidle hdone⟩
          · simp only [not_or, Bool.not_eq_true, not_le] at hdone
            exact ⟨_, .claim s _ hidle hdone.1 (getElem?_eq_getElem hdone.2.1) hdone.2.2⟩

end Runs

section Answers
variable {texts : Texts} {input : Subject}

/-- What the answers a resolution ends with prove. -/
def Sound (input : Subject) (backing : Option Backing) (s : Resolving)
    (answers : RosterProfileLocator → Option Answer) : Prop :=
  ∀ locator answer, answers locator = some answer → match answer.presence with
    | .unknown => True
    | _ => ∃ store, backing = some store ∧ Justified store input.subjectId s.saved locator answer

theorem sound_allUnavailable (backing : Option Backing) (s : Resolving) :
    Sound input backing s (allUnavailable texts input) := by
  intro locator answer h
  unfold allUnavailable at h
  by_cases hin : locator ∈ input.locators texts
  · rw [if_pos hin] at h
    rw [← Option.some.inj h]
    trivial
  · rw [if_neg hin] at h
    cases h

theorem inv_of_run {backing : Backing} {s : Resolving}
    (h : Relation.ReflTransGen (Step input.subjectId (queue texts input backing))
      (.begin_ (heldAnswers texts input backing)) s) : Inv backing input.subjectId s := by
  refine (inv_begin fun locator answer hheld => ?_).run h
  unfold heldAnswers at hheld
  by_cases hin : locator ∈ input.locators texts
  · rw [if_pos hin] at hheld
    exact justified_storedAnswer hheld
  · rw [if_neg hin] at hheld
    cases hheld

theorem Finished.sound {backing : Option Backing} {s : Resolving}
    {answers : RosterProfileLocator → Option Answer}
    (h : Finished texts input backing s answers) :
    Sound input backing s answers ∧
      s.reads.length ≤ MAX_ROSTER_PROFILE_RESOLUTIONS := by
  cases h with
  | unasked => exact ⟨fun _ _ h => (by cases h), Nat.zero_le _⟩
  | unbacked => exact ⟨sound_allUnavailable _ _, Nat.zero_le _⟩
  | answered store s hsome hrun hended hkept =>
    have hinv := inv_of_run hrun
    have hreserved := hinv.reserved
    have hceiling := hinv.ceiling
    refine ⟨fun locator answer hanswer => ?_, by omega⟩
    cases answer.presence with
    | unknown => trivial
    | present => exact ⟨store, rfl, hinv.justified locator answer hanswer⟩
    | absent => exact ⟨store, rfl, hinv.justified locator answer hanswer⟩
  | failed store s hsome hrun hended hfailed =>
    have hinv := inv_of_run hrun
    have hreserved := hinv.reserved
    have hceiling := hinv.ceiling
    exact ⟨sound_allUnavailable _ _, by omega⟩

theorem exists_result (texts : Texts) (input : Subject) (backing : Option Backing) :
    ∃ s result, ResolveRosterPresence texts input backing s result := by
  by_cases hnone : input.locators texts = []
  · exact ⟨_, _, _, .unasked backing hnone, rfl⟩
  · cases backing with
    | none => exact ⟨_, _, _, .unbacked hnone, rfl⟩
    | some store =>
      obtain ⟨s, hrun, hended⟩ := (turns input.subjectId (queue texts input store)).exists_final
        (s := .begin_ (heldAnswers texts input store)) trivial
      cases hfailed : s.failed with
      | true => exact ⟨s, _, _, .failed store s hnone hrun hended hfailed, rfl⟩
      | false => exact ⟨s, _, _, .answered store s hnone hrun hended hfailed, rfl⟩

/-- Someone's id for a renamed member of the roster. -/
def ProvedFor (texts : Texts) (backing : Option Backing) (s : Resolving) (member : Member)
    (id : ℕ) : Prop :=
  ∃ store, backing = some store ∧ Proved store s.saved (locatorOf texts member) id

section Targets
variable {backing : Option Backing} {s : Resolving}
  {answers : RosterProfileLocator → Option Answer}

variable {encounter : LoggedEncounter}

theorem mem_keysOf {key : RosterProfileLocator} (h : key ∈ input.keysOf texts encounter) :
    ∃ member ∈ input.renamed encounter, locatorOf texts member = key := by
  obtain ⟨hkey, -⟩ := mem_filter.mp h
  exact mem_map.mp hkey

theorem present_of_target (h : Sound input backing s answers)
    (hpresent : targetPresence texts input answers encounter = .present) :
    ∃ member ∈ input.renamed encounter,
      ProvedFor texts backing s member input.subjectId := by
  unfold targetPresence at hpresent
  by_cases hany : ((input.keysOf texts encounter).map (fun key =>
      (answers key).map Answer.presence)).any (fun presence => presence = some .present) = true
  · obtain ⟨presence, hin, hsome⟩ := any_eq_true.mp hany
    obtain ⟨key, hkey, rfl⟩ := mem_map.mp hin
    obtain ⟨answer, hanswer, hpresence⟩ := Option.map_eq_some_iff.mp (of_decide_eq_true hsome)
    obtain ⟨member, hmember, rfl⟩ := mem_keysOf hkey
    have hsound := h _ answer hanswer
    rw [hpresence] at hsound
    obtain ⟨store, hstore, hjustified⟩ := hsound
    unfold Justified at hjustified
    rw [hpresence] at hjustified
    exact ⟨member, hmember, store, hstore, hjustified⟩
  · rw [if_neg hany] at hpresent
    by_cases hopen : (input.invalid texts encounter || ((input.keysOf texts encounter).map
        (fun key => (answers key).map Answer.presence)).any
          (fun presence => presence ≠ some .absent)) = true
    · rw [if_pos hopen] at hpresent
      cases hpresent
    · rw [if_neg hopen] at hpresent
      cases hpresent

theorem absent_of_target (h : Sound input backing s answers)
    (habsent : targetPresence texts input answers encounter = .absent) :
    ∀ member ∈ input.renamed encounter, ∃ other, other ≠ input.subjectId ∧
      ProvedFor texts backing s member other := by
  intro member hmember
  unfold targetPresence at habsent
  by_cases hany : ((input.keysOf texts encounter).map (fun key =>
      (answers key).map Answer.presence)).any (fun presence => presence = some .present) = true
  · simp only [hany, if_true] at habsent
    cases habsent
  · simp only [hany] at habsent
    by_cases hopen : (input.invalid texts encounter || ((input.keysOf texts encounter).map
        (fun key => (answers key).map Answer.presence)).any
          (fun presence => presence ≠ some .absent)) = true
    · simp only [hopen, if_true] at habsent
      cases habsent
    · simp only [Bool.or_eq_true, not_or, Bool.not_eq_true] at hopen
      obtain ⟨hvalid, hall⟩ := hopen
      have hlocator : isValidRosterProfileLocator texts (locatorOf texts member) = true := by
        unfold Subject.invalid at hvalid
        rw [any_eq_false] at hvalid
        simpa using hvalid member hmember
      have hkey : locatorOf texts member ∈ input.keysOf texts encounter :=
        mem_filter.mpr ⟨mem_map_of_mem hmember, hlocator⟩
      rw [any_eq_false] at hall
      have hone : (answers (locatorOf texts member)).map Answer.presence = some .absent := by
        simpa using hall _ (mem_map_of_mem hkey)
      obtain ⟨answer, hanswer, hpresence⟩ := Option.map_eq_some_iff.mp hone
      have hsound := h _ answer hanswer
      rw [hpresence] at hsound
      obtain ⟨store, hstore, hjustified⟩ := hsound
      unfold Justified at hjustified
      rw [hpresence] at hjustified
      obtain ⟨other, hne, hproved⟩ := hjustified
      exact ⟨other, hne, store, hstore, hproved⟩

theorem limitation_of_unknown (hin : encounter ∈ input.encounters)
    (hunknown : encounterPresence texts input answers encounter = .unknown) :
    (rosterPresence texts input answers).limitation ≠ none := by
  unfold encounterPresence at hunknown
  by_cases hholds : input.holds encounter = true
  · rw [if_pos hholds] at hunknown
    cases hunknown
  · rw [if_neg hholds] at hunknown
    have htarget : encounter ∈ input.targets.filter (fun e =>
        targetPresence texts input answers e = .unknown) := by
      refine mem_filter.mpr ⟨mem_filter.mpr ⟨hin, ?_⟩, decide_eq_true hunknown⟩
      simpa using hholds
    unfold rosterPresence
    simp only [ne_eq, Option.map_eq_none_iff, head?_eq_none_iff]
    exact ne_nil_of_mem htarget

theorem presence_eq (hin : encounter ∈ input.encounters) :
    (rosterPresence texts input answers).presence encounter.loggedEncounterId =
      some (encounterPresence texts input answers encounter) := by
  unfold rosterPresence
  simp only
  rw [find?_eq_some_of_nodup LoggedEncounter.loggedEncounterId input.distinct hin]
  rfl

end Targets

theorem presence_sound {backing : Option Backing} {s : Resolving} {result : Presences}
    (h : ResolveRosterPresence texts input backing s result) {encounter : LoggedEncounter}
    (hin : encounter ∈ input.encounters) :
    match result.presence encounter.loggedEncounterId with
    | some .present => input.holds encounter = true ∨ ∃ member ∈ input.renamed encounter,
        ProvedFor texts backing s member input.subjectId
    | some .absent => input.holds encounter = false ∧ ∀ member ∈ input.renamed encounter,
        ∃ other, other ≠ input.subjectId ∧ ProvedFor texts backing s member other
    | some .unknown => result.limitation ≠ none
    | none => False := by
  obtain ⟨answers, hfinished, rfl⟩ := h
  obtain ⟨hsound, -⟩ := hfinished.sound
  rw [presence_eq hin]
  cases hpresence : encounterPresence texts input answers encounter with
  | unknown => exact limitation_of_unknown hin hpresence
  | present =>
    unfold encounterPresence at hpresence
    by_cases hholds : input.holds encounter = true
    · exact .inl hholds
    · rw [if_neg hholds] at hpresence
      exact .inr (present_of_target hsound hpresence)
  | absent =>
    unfold encounterPresence at hpresence
    by_cases hholds : input.holds encounter = true
    · rw [if_pos hholds] at hpresence
      cases hpresence
    · rw [if_neg hholds] at hpresence
      exact ⟨Bool.eq_false_iff.mpr hholds, absent_of_target hsound hpresence⟩

end Answers

end SlashWho.RosterPresence
