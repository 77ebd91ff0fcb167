import SlashWho.FirstKillReadRuns

/-!
What a collection of first kills promises: of the encounters it reads and keeps, of the
kills it credits by them, and of those it leaves out.
-/

namespace SlashWho.FirstKillReads

open List RosterPresence WorkerPool
open LoggedEncounterSaves (LoggedEncounter)
open RaiderIoFirstKills (FirstKill HistoricMythicKill collectFirstKill)

variable (c : Collection) (texts : Texts)

theorem run_of_answers {answers : ℕ → EncounterAnswer → Prop} {s s' : Pool Reads}
    (h : Relation.ReflTransGen (WorkerPool.Step (readRules c answers)) s s') :
    Relation.ReflTransGen (WorkerPool.Step (readRules c fun _ _ => True)) s s' := by
  refine Relation.ReflTransGen.mono ?_ _ _ h
  intro a b hstep
  cases hstep with
  | start hidle hopen hnext hpass => exact .start _ hidle hopen hnext hpass
  | pass hidle hopen hnext hpass => exact .pass _ hidle hopen hnext hpass
  | settle before after i b hin _ => exact .settle _ before after i b hin trivial
  | leave hidle hdone => exact .leave _ hidle hdone

/-- A run in which Raider.IO gives the character no id. -/
def unnamedRun (pool : Pool Reads) (saved : Bool) : CollectionRun where
  pool := pool
  saved := saved
  answer := .none
  backing := none
  resolving := .begin_ fun _ => none
  rosters := ⟨fun _ => none, none⟩

variable {c}

theorem character_unnamedRun (pool : Pool Reads) (saved : Bool) :
    (unnamedRun pool saved).character c = none ∨
      (unnamedRun pool saved).character c = some .none := by
  unfold CollectionRun.character
  split
  · exact .inl rfl
  · exact .inr rfl

theorem collects_unnamedRun {pool : Pool Reads}
    (hreads : Relation.ReflTransGen (WorkerPool.Step (readRules c fun _ _ => True))
      (Pool.begin RAIDER_IO_LOGGED_ENCOUNTER_CONCURRENCY (startReads c)) pool)
    (hended : pool.Ended) (saved : Bool) :
    CollectRaiderIoFirstKills c texts (unnamedRun pool saved) where
  reads := hreads
  ended := hended
  rosters := by
    intro id className hcharacter
    rcases character_unnamedRun (c := c) pool saved with hnone | hsome
    · rw [hnone] at hcharacter
      cases hcharacter
    · rw [hsome] at hcharacter
      cases hcharacter

theorem credited_unnamedRun (pool : Pool Reads) (saved : Bool) {kill : HistoricMythicKill} {id : ℕ}
    {e : LoggedEncounter} (hkill : kill ∈ c.kills) (hid : kill.loggedEncounterId = some id)
    (he : ((unnamedRun pool saved).encounters c).get? id = some e) :
    ∃ collected ∈ (unnamedRun pool saved).kills c, collected.encounterState = .read ∧
      collected.loggedEncounterId = some id ∧ collected.raidSlug = kill.raidSlug ∧
      collected.bossSlug = kill.bossSlug := by
  have hheld : ((unnamedRun pool saved).encounterReads c).encounters id =
      some ⟨e.kill.defeatedAt, e.rosterState⟩ := by
    unfold CollectionRun.encounterReads
    simp only
    rw [he]
    rfl
  cases hcollected : collectFirstKill ((unnamedRun pool saved).encounterReads c) kill with
  | some collected =>
    have hread := state_of_held hcollected hid hheld
    obtain ⟨id', e', hid', hown, -, hraid, hboss, -⟩ := read_of_collected hcollected hread
    rw [hid] at hid'
    rw [← Option.some.inj hid'] at hown
    exact ⟨collected, mem_filterMap.mpr ⟨kill, hkill, hcollected⟩, hread, hown, hraid, hboss⟩
  | none =>
    exfalso
    obtain ⟨id', e', hid', he', hshown, hunestablished, hcharacter⟩ :=
      omitted_of_collected hcollected
    rw [hid] at hid'
    obtain rfl := Option.some.inj hid'
    rw [hheld] at he'
    obtain rfl := Option.some.inj he'
    have hasked := (character_of_shown he hshown (of_decide_eq_false hunestablished)).2
    have hkind : ((unnamedRun pool saved).encounterReads c).character = some .none := by
      unfold CollectionRun.encounterReads
      simp only
      rw [hasked]
      rfl
    rw [hkind] at hcharacter
    rcases hcharacter with ⟨hnamed, -⟩ | ⟨-, hnamed⟩
    · cases hnamed
    · exact hnamed rfl

theorem exists_reads (c : Collection) (answers : ℕ → EncounterAnswer → Prop)
    (htotal : ∀ place, ∃ answer, answers place answer) :
    ∃ pool, Relation.ReflTransGen (WorkerPool.Step (readRules c answers))
      (Pool.begin RAIDER_IO_LOGGED_ENCOUNTER_CONCURRENCY (startReads c)) pool ∧ pool.Ended :=
  (WorkerPool.turns (readRules c answers) htotal RAIDER_IO_LOGGED_ENCOUNTER_CONCURRENCY
    (startReads c)).exists_final (inv_begin _ _ _)

/-! ### Reads and credits -/

variable (c : Collection)

/-- A stored read stays: nothing saved refuses it or changes its kill, it is held to the
end, and no kill that names it turns unavailable. -/
structure KeepsRead (run : CollectionRun) (stored : StoredEncounter) : Prop where
  unrefused : ∀ u ∈ run.pool.acc.unavailableNow,
    u.loggedEncounterId ≠ stored.encounter.loggedEncounterId
  kill : ∀ e ∈ run.pool.acc.readNow,
    e.loggedEncounterId = stored.encounter.loggedEncounterId → e.kill = stored.encounter.kill
  held : ∃ e, (run.encounters c).get? stored.encounter.loggedEncounterId = some e ∧
    e.kill = stored.encounter.kill
  credited : ∀ kill collected,
    kill.loggedEncounterId = some stored.encounter.loggedEncounterId →
      collectFirstKill (run.encounterReads c) kill = some collected →
        collected.encounterState = .read

variable {c texts}

theorem keepsRead {run : CollectionRun} (h : Faithful c run.pool.acc) {stored : StoredEncounter}
    (hstored : stored ∈ c.stored.encounters) : KeepsRead c run stored where
  unrefused := by
    intro u hu heq
    have hnone := h.unavailableNow u hu
    rw [heq, storedRead_of_mem c hstored] at hnone
    cases hnone
  kill := by
    intro e he hid
    have hfaithful := h.readNow e he
    rw [hid, storedRead_of_mem c hstored] at hfaithful
    exact hfaithful
  held := held_of_stored h hstored
  credited := by
    intro kill collected hid hcollected
    obtain ⟨e, he, -⟩ := held_of_stored h hstored
    refine state_of_held hcollected hid (e := ⟨e.kill.defeatedAt, e.rosterState⟩) ?_
    unfold CollectionRun.encounterReads
    simp only
    rw [he]
    rfl

theorem read_of_kills {run : CollectionRun} {collected : FirstKill}
    (h : collected ∈ run.kills c) (hread : collected.encounterState = .read) :
    ∃ kill ∈ c.kills, ∃ id e, kill.loggedEncounterId = some id ∧
      collected.loggedEncounterId = some id ∧ (run.encounters c).get? id = some e ∧
      collected.raidSlug = kill.raidSlug ∧ collected.bossSlug = kill.bossSlug ∧
      (e.rosterState = .available → id ∈ established c ∨ run.presence c id = some .present ∨
        (run.character c = some .none ∧ collected.presenceChecked = false)) := by
  obtain ⟨kill, hkill, hcollected⟩ := mem_filterMap.mp h
  obtain ⟨id, e, hid, hown, he, hraid, hboss, hshown⟩ := read_of_collected hcollected hread
  obtain ⟨held, hheld, hstate⟩ := encounterReads_eq_some he
  refine ⟨kill, hkill, id, held, hid, hown, hheld, hraid, hboss, fun havailable => ?_⟩
  rcases hshown (hstate.trans havailable) with hestablished | ⟨-, hpresent⟩ | ⟨hkind, hchecked⟩
  · exact .inl (of_decide_eq_true hestablished)
  · exact .inr (.inl (of_decide_eq_true hpresent))
  · refine .inr (.inr ⟨?_, hchecked⟩)
    change (run.character c).map CharacterAnswer.kind = some .none at hkind
    obtain ⟨answer, hanswer, hnone⟩ := Option.map_eq_some_iff.mp hkind
    cases answer with
    | none => exact hanswer
    | id id className => cases hnone
    | failed => cases hnone

/-- Every collection ends; it stays within its ceiling and reads what was never read
first; a stored read stays; a kill is read only where its encounter is stored or was
saved; and behind a roster shown only with the character's presence established, or
unchecked where Raider.IO gives the character no id. -/
theorem collection_promises (c : Collection) (texts : Texts) :
    (∃ run, CollectRaiderIoFirstKills c texts run) ∧
    (∀ pool, Relation.ReflTransGen (WorkerPool.Step (readRules c fun _ _ => True))
        (Pool.begin RAIDER_IO_LOGGED_ENCOUNTER_CONCURRENCY (startReads c)) pool →
      pool.acc.asked.length + pool.inFlight.length ≤
          MAX_RAIDER_IO_LOGGED_ENCOUNTER_READS_PER_RUN ∧
        ∀ place ∈ pool.inFlight, ∀ id, c.toRead[place]? = some id → c.held id = true →
          ∀ other ∈ c.unread, ∃ earlier < pool.next, c.toRead[earlier]? = some other) ∧
    ∀ run, CollectRaiderIoFirstKills c texts run →
      (∀ stored ∈ c.stored.encounters, KeepsRead c run stored) ∧
      ∀ collected ∈ run.kills c, collected.encounterState = .read →
        ∃ id e, collected.loggedEncounterId = some id ∧ (run.encounters c).get? id = some e ∧
          ((∃ stored ∈ c.stored.encounters, stored.encounter.loggedEncounterId = id) ∨
            (run.saved = true ∧ e ∈ run.pool.acc.readNow)) ∧
          (e.rosterState = .available →
            id ∈ established c ∨ run.presence c id = some .present ∨
              (run.character c = some .none ∧ collected.presenceChecked = false)) := by
  refine ⟨?_, fun pool hpool => ⟨asked_within hpool, ?_⟩, fun run hrun => ?_⟩
  · obtain ⟨pool, hreads, hended⟩ := exists_reads c (fun _ _ => True) fun _ =>
      ⟨.threw, trivial⟩
    exact ⟨_, collects_unnamedRun texts hreads hended false⟩
  · intro place hplace id hid hheld
    exact unread_before_held hpool hplace hid hheld
  · have hfaithful := faithful_of_run hrun.reads
    refine ⟨fun stored hstored => keepsRead hfaithful hstored, fun collected hcollected hread => ?_⟩
    obtain ⟨kill, -, id, e, -, hown, he, -, -, hshown⟩ := read_of_kills hcollected hread
    refine ⟨id, e, hown, he, ?_, hshown⟩
    rcases (held_encounter hfaithful he).2 with ⟨kept, hkept, -⟩ | ⟨-, hsaved, hin, -⟩
    · obtain ⟨stored, hstored, heq, hid⟩ := mem_of_storedRead c hkept
      exact .inl ⟨stored, hstored, heq ▸ hid⟩
    · exact .inr ⟨hsaved, hin⟩

/-- A mage's kill with its one encounter stored, its roster shown and not yet due. -/
def oneStoredKill : Collection where
  kills := [⟨"nerubar-palace", "ulgrax", 60, none, some 7⟩]
  published := []
  storedEncounters := fun _ =>
    ⟨[⟨⟨7, ⟨"nerubar-palace", "ulgrax", 0, 60, 60, none, ⟨620, 610, 630⟩, 1, none⟩, .available,
      none, [⟨1, "Al", "draenor", "eu", "Mage", "Frost", .dps, none⟩]⟩, 100⟩], [],
      nodup_singleton _⟩
  settledRaidSlugs := []
  now := 100

/-- Raider.IO gives the character no id: the kill is credited with its roster unchecked. -/
theorem kill_credited_unchecked :
    ¬ ∀ (c : Collection) (texts : Texts) (run : CollectionRun),
      CollectRaiderIoFirstKills c texts run →
        ∀ collected ∈ run.kills c, collected.encounterState = .read →
          ∀ id e, collected.loggedEncounterId = some id → (run.encounters c).get? id = some e →
            e.rosterState = .available →
              id ∈ established c ∨ run.presence c id = some .present := by
  intro hall
  obtain ⟨pool, hreads, hended⟩ := exists_reads oneStoredKill (fun _ _ => True) fun _ =>
    ⟨.threw, trivial⟩
  obtain ⟨collected, hin, hread, hown, -⟩ :=
    credited_unnamedRun (c := oneStoredKill) pool false mem_cons_self rfl rfl
  rcases hall oneStoredKill ⟨id, compare, fun _ => true⟩ _
    (collects_unnamedRun _ hreads hended false) collected hin hread 7 _ hown rfl rfl with
    hestablished | hpresent
  · cases hestablished
  · cases hpresent

/-! ### The kill's own boss -/

variable {c : Collection}

/-- Every stored encounter is of the raid and boss of each kill that names it, and so is
every encounter to be read first. -/
structure OwnBosses (c : Collection) : Prop where
  stored : ∀ stored ∈ c.stored.encounters, ∀ kill ∈ c.kills,
    kill.loggedEncounterId = some stored.encounter.loggedEncounterId →
      Names stored.encounter.kill kill
  unread : ∀ id ∈ c.toRead, c.storedRead.get? id = none → ∀ last, c.killById.get? id = some last →
    ∀ kill ∈ c.kills, kill.loggedEncounterId = some id →
      last.raidSlug = kill.raidSlug ∧ last.bossSlug = kill.bossSlug

/-- An encounter of a kill's own raid and boss, with the rest left open. -/
def readOf (kill : HistoricMythicKill) : ReadEncounter where
  kill := ⟨kill.raidSlug, kill.bossSlug, kill.firstDefeated, kill.firstDefeated, 0, kill.guild,
    ⟨0, 0, 0⟩, 0, none⟩
  shareRaidUntil := none
  roster := none

def answersAsAsked (c : Collection) (place : ℕ) (answer : EncounterAnswer) : Prop :=
  ∀ id kill, c.toRead[place]? = some id → c.killById.get? id = some kill →
    answer = .encounter (readOf kill)

theorem exists_answersAsAsked (c : Collection) (place : ℕ) :
    ∃ answer, answersAsAsked c place answer := by
  cases hid : c.toRead[place]? with
  | none => exact ⟨.threw, fun id kill h => (by rw [hid] at h; cases h)⟩
  | some id =>
    cases hkill : c.killById.get? id with
    | none =>
      refine ⟨.threw, fun other kill hother h => ?_⟩
      rw [hid] at hother
      rw [← Option.some.inj hother, hkill] at h
      cases h
    | some kill =>
      refine ⟨.encounter (readOf kill), fun other kill' hother h => ?_⟩
      rw [hid] at hother
      rw [← Option.some.inj hother, hkill] at h
      rw [Option.some.inj h]

theorem readNow_keep (reads : Reads) (id : ℕ) (read : ReadEncounter) :
    ∃ e, (reads.keep c id read).readNow = reads.readNow ++ [e] ∧ e.loggedEncounterId = id := by
  unfold Reads.keep
  cases hkept : c.storedRead.get? id with
  | none => exact ⟨_, rfl, rfl⟩
  | some kept =>
    obtain ⟨-, -, -, hid⟩ := mem_of_storedRead c hkept
    exact ⟨_, rfl, hid⟩

theorem settle_as_asked {reads : Reads} {place id : ℕ} {kill : HistoricMythicKill}
    {answer : EncounterAnswer} (hid : c.toRead[place]? = some id)
    (hkill : c.killById.get? id = some kill) (hanswer : answersAsAsked c place answer) :
    reads.settle c place answer =
      { reads with asked := reads.asked ++ [id] }.keep c id (readOf kill) := by
  rw [hanswer id kill hid hkill]
  unfold Reads.settle
  simp only [hid, hkill]
  exact if_neg (by simp [readOf])

theorem readNow_of_asked {acc : Reads} {events : List (Event EncounterAnswer)}
    (h : Plays (readRules c (answersAsAsked c)) (startReads c) events acc) :
    acc.abandoned = none ∧ ∀ place ∈ events.map Event.task, ∀ id, c.toRead[place]? = some id →
      (∃ kill, c.killById.get? id = some kill) → ∃ e ∈ acc.readNow, e.loggedEncounterId = id := by
  induction h with
  | none => exact ⟨rfl, fun _ hin => (by cases hin)⟩
  | @passed events acc place _ hpass ih =>
    have hsome : acc.abandoned.isSome = true := hpass
    rw [ih.1] at hsome
    cases hsome
  | @settled events acc place answer _ hanswer ih =>
    obtain ⟨habandoned, hread⟩ := ih
    change (acc.settle c place answer).abandoned = none ∧ ∀ other ∈ _, ∀ id,
      c.toRead[other]? = some id → (∃ kill, c.killById.get? id = some kill) →
        ∃ e ∈ (acc.settle c place answer).readNow, e.loggedEncounterId = id
    rw [map_append]
    by_cases hasked : ∃ id kill, c.toRead[place]? = some id ∧ c.killById.get? id = some kill
    · obtain ⟨id, kill, hid, hkill⟩ := hasked
      rw [settle_as_asked hid hkill hanswer]
      obtain ⟨e, hreadNow, he⟩ :=
        readNow_keep (c := c) { acc with asked := acc.asked ++ [id] } id (readOf kill)
      refine ⟨habandoned, fun other hother id' hid' hkill' => ?_⟩
      rw [hreadNow]
      rcases mem_append.mp hother with hold | hnew
      · obtain ⟨e', he', hid''⟩ := hread other hold id' hid' hkill'
        exact ⟨e', mem_append_left _ he', hid''⟩
      · rw [mem_singleton.mp hnew] at hid'
        change c.toRead[place]? = some id' at hid'
        rw [hid] at hid'
        exact ⟨e, mem_append_right _ (mem_singleton_self _),
          he.trans (Option.some.inj hid')⟩
    · have hsame : acc.settle c place answer = acc := by
        unfold Reads.settle
        cases hid : c.toRead[place]? with
        | none => rfl
        | some id =>
          cases hkill : c.killById.get? id with
          | none => simp only [hkill]
          | some kill => exact absurd ⟨id, kill, hid, hkill⟩ hasked
      rw [hsame]
      refine ⟨habandoned, fun other hother id' hid' hkill' => ?_⟩
      rcases mem_append.mp hother with hold | hnew
      · exact hread other hold id' hid' hkill'
      · obtain ⟨kill, hkill⟩ := hkill'
        rw [mem_singleton.mp hnew] at hid'
        exact absurd ⟨id', kill, hid', hkill⟩ hasked

/-- A kill read has an encounter of its own raid and boss. -/
def ReadsOwnBoss (c : Collection) (run : CollectionRun) : Prop :=
  ∀ collected ∈ run.kills c, collected.encounterState = .read →
    ∃ id e, collected.loggedEncounterId = some id ∧ (run.encounters c).get? id = some e ∧
      e.kill.raidSlug = collected.raidSlug ∧ e.kill.bossSlug = collected.bossSlug

theorem readsOwnBoss_of_ownBosses (h : OwnBosses c) {texts : Texts} {run : CollectionRun}
    (hrun : CollectRaiderIoFirstKills c texts run) : ReadsOwnBoss c run := by
  intro collected hcollected hread
  obtain ⟨kill, hkill, id, e, hid, hown, he, hraid, hboss, -⟩ := read_of_kills hcollected hread
  have hnames : Names e.kill kill := by
    rcases (held_encounter (faithful_of_run hrun.reads) he).2 with
      ⟨kept, hkept, hsame⟩ | ⟨hnone, -, -, hasked, last, hlast, hnames⟩
    · obtain ⟨stored, hstored, heq, hkeptId⟩ := mem_of_storedRead c hkept
      have hstoredNames := h.stored stored hstored kill hkill
      rw [heq, hkeptId] at hstoredNames
      rw [hsame]
      exact hstoredNames hid
    · obtain ⟨hraids, hbosses⟩ := h.unread id hasked hnone last hlast kill hkill hid
      exact ⟨hnames.1.trans hraids, hnames.2.trans hbosses⟩
  exact ⟨id, e, hown, he, hnames.1.trans hraid.symm, hnames.2.trans hboss.symm⟩

theorem ownBosses_of_reads {texts : Texts}
    (h : ∀ run, CollectRaiderIoFirstKills c texts run → ReadsOwnBoss c run) : OwnBosses c := by
  constructor
  · intro stored hstored kill hkill hid
    obtain ⟨pool, hreads, hended⟩ := exists_reads c (fun _ _ => True) fun _ => ⟨.threw, trivial⟩
    have hrun := collects_unnamedRun texts hreads hended false
    obtain ⟨e, he, hsame⟩ := held_of_stored (faithful_of_run hrun.reads) hstored
    obtain ⟨collected, hin, hread, hown, hraid, hboss⟩ :=
      credited_unnamedRun pool false hkill hid he
    obtain ⟨id', e', hid', he', hraid', hboss'⟩ := h _ hrun collected hin hread
    rw [hown] at hid'
    rw [← Option.some.inj hid', he] at he'
    rw [← hsame, Option.some.inj he']
    exact ⟨hraid'.trans hraid, hboss'.trans hboss⟩
  · intro id hasked hnone last hlast kill hkill hid
    obtain ⟨pool, hreads, hended⟩ := exists_reads c (answersAsAsked c) (exists_answersAsAsked c)
    obtain ⟨events, hplays, hperm, -, hdone⟩ :=
      ended (by unfold RAIDER_IO_LOGGED_ENCOUNTER_CONCURRENCY; omega) hreads hended
    have hall : pool.next = c.toRead.length := by
      rcases hdone with hhalted | hend
      · cases hhalted
      · exact hend
    obtain ⟨place, hplace, hget⟩ := getElem_of_mem hasked
    have hask : c.toRead[place]? = some id := by rw [getElem?_eq_getElem hplace, hget]
    obtain ⟨fresh, hfresh, hfreshId⟩ := (readNow_of_asked hplays).2 place
      (hperm.mem_iff.mpr (mem_range.mpr (hall ▸ hplace))) id hask ⟨last, hlast⟩
    have hrun := collects_unnamedRun texts (run_of_answers c hreads) hended true
    have hheld : fresh ∈ (unnamedRun pool true).held c := mem_append_right _ hfresh
    obtain ⟨e, hfound⟩ := exists_byId hheld
    have he : ((unnamedRun pool true).encounters c).get? id = some e := hfreshId ▸ hfound
    have hnames : Names e.kill last := by
      rcases (held_encounter (faithful_of_run hrun.reads) he).2 with
        ⟨kept, hkept, -⟩ | ⟨-, -, -, -, other, hother, hnames⟩
      · rw [hnone] at hkept
        cases hkept
      · rw [hlast] at hother
        rw [Option.some.inj hother]
        exact hnames
    obtain ⟨collected, hin, hread, hown, hraid, hboss⟩ :=
      credited_unnamedRun pool true hkill hid he
    obtain ⟨id', e', hid', he', hraid', hboss'⟩ := h _ hrun collected hin hread
    rw [hown] at hid'
    rw [← Option.some.inj hid', he] at he'
    rw [← Option.some.inj he'] at hraid' hboss'
    exact ⟨hnames.1.symm.trans (hraid'.trans hraid), hnames.2.symm.trans (hboss'.trans hboss)⟩

/-- In every run each kill read has its own boss's encounter, exactly where every stored
encounter and every encounter to be read is of the raid and boss of all kills naming it. -/
theorem reads_own_boss_iff (c : Collection) (texts : Texts) :
    (∀ run, CollectRaiderIoFirstKills c texts run → ReadsOwnBoss c run) ↔ OwnBosses c :=
  ⟨ownBosses_of_reads, fun h _ hrun => readsOwnBoss_of_ownBosses h hrun⟩

/-- Two kills name one encounter that is stored for the first one's boss. -/
def twoKillsOneEncounter : Collection :=
  { oneStoredKill with
    kills := [⟨"nerubar-palace", "ulgrax", 60, none, some 7⟩,
      ⟨"nerubar-palace", "queen-ansurek", 90, none, some 7⟩] }

/-- Both kills are read, the second with another boss's encounter. -/
theorem kill_read_by_another_boss :
    ¬ ∀ (c : Collection) (texts : Texts) (run : CollectionRun),
      CollectRaiderIoFirstKills c texts run → ReadsOwnBoss c run := by
  intro hall
  have howns : OwnBosses twoKillsOneEncounter := ownBosses_of_reads fun run hrun =>
    hall twoKillsOneEncounter ⟨id, compare, fun _ => true⟩ run hrun
  have hnames := howns.stored _ mem_cons_self ⟨"nerubar-palace", "queen-ansurek", 90, none,
    some 7⟩ (mem_cons_of_mem _ mem_cons_self) rfl
  exact absurd hnames.2 (by decide)

/-! ### Kills left out -/

variable {texts : Texts} {run : CollectionRun}

/-- The roster does not list the character, and each member who may be the character
under a former name is someone else. -/
def Disproved (texts : Texts) (input : Subject) (backing : Option Backing) (s : Resolving)
    (encounter : LoggedEncounter) : Prop :=
  input.holds encounter = false ∧ ∀ member ∈ input.renamed encounter,
    ∃ other, other ≠ input.subjectId ∧ ProvedFor texts backing s member other

theorem disproved_of_omitted (hrun : CollectRaiderIoFirstKills c texts run)
    (hlimitation : run.limitation c = none) {kill : HistoricMythicKill}
    (homitted : collectFirstKill (run.encounterReads c) kill = none) :
    ∃ id e subjectId subjectClass, kill.loggedEncounterId = some id ∧
      (run.encounters c).get? id = some e ∧ e.rosterState = .available ∧
      run.character c = some (.id subjectId subjectClass) ∧
      run.presence c id = some .absent ∧
      Disproved texts (subject c (run.held c) subjectId subjectClass) run.backing run.resolving
        e := by
  obtain ⟨id, shown, hid, hshown, havailable, hunestablished, hcharacter⟩ :=
    omitted_of_collected homitted
  obtain ⟨e, he, hstate⟩ := encounterReads_eq_some hshown
  have heavailable : e.rosterState = .available := hstate.symm.trans havailable
  obtain ⟨hmem, hasked⟩ := character_of_shown he heavailable (of_decide_eq_false hunestablished)
  have hkind : (run.encounterReads c).character = some run.answer.kind := by
    change (run.character c).map CharacterAnswer.kind = _
    rw [hasked]
    rfl
  rw [hkind] at hcharacter
  cases hanswer : run.answer with
  | none =>
    rw [hanswer] at hcharacter
    rcases hcharacter with ⟨hnamed, -⟩ | ⟨-, hunnamed⟩
    · cases hnamed
    · exact absurd rfl hunnamed
  | failed =>
    rw [hanswer] at hasked
    unfold CollectionRun.limitation at hlimitation
    rw [hasked] at hlimitation
    simp at hlimitation
  | id subjectId subjectClass =>
    rw [hanswer] at hasked hcharacter
    have hpresence : run.presence c id = run.rosters.presence id := by
      unfold CollectionRun.presence
      rw [hasked]
    have hunpresent : run.presence c id ≠ some .present := by
      rcases hcharacter with ⟨-, hpresent⟩ | ⟨hunnamed, -⟩
      · exact of_decide_eq_false hpresent
      · exact absurd rfl hunnamed
    have hsound := presence_sound (hrun.rosters subjectId subjectClass hasked) hmem
    rw [(mem_of_byId he).2, ← hpresence] at hsound
    refine ⟨id, e, subjectId, subjectClass, hid, he, heavailable, hasked, ?_⟩
    cases hfound : run.presence c id with
    | none =>
      rw [hfound] at hsound
      exact hsound.elim
    | some presence =>
      rw [hfound] at hsound hunpresent
      cases presence with
      | present => exact absurd rfl hunpresent
      | absent => exact ⟨rfl, hsound⟩
      | unknown =>
        unfold CollectionRun.limitation at hlimitation
        rw [hasked] at hlimitation
        simp only [Option.or_eq_none_iff, Option.map_eq_none_iff] at hlimitation
        exact absurd hlimitation.2 hsound

/-- A resolution always ends. It answers `present` and `absent` only on proof and
otherwise accounts for what is unknown; its reads stay within their ceiling, and none
starts after one that was rate limited or unavailable. A collection short of nothing
leaves out only kills that are not the character's. -/
theorem roster_presence_proved (texts : Texts) :
    (∀ (input : Subject) (backing : Option Backing),
      (∃ s result, ResolveRosterPresence texts input backing s result) ∧
      ∀ s result, ResolveRosterPresence texts input backing s result →
        s.reads.length ≤ MAX_ROSTER_PROFILE_RESOLUTIONS ∧
        ∀ e ∈ input.encounters,
          (result.presence e.loggedEncounterId = some .present →
            input.holds e = true ∨ ∃ member ∈ input.renamed e,
              ProvedFor texts backing s member input.subjectId) ∧
          (result.presence e.loggedEncounterId = some .absent →
            Disproved texts input backing s e) ∧
          (result.presence e.loggedEncounterId = some .present ∨
            result.presence e.loggedEncounterId = some .absent ∨
            (result.presence e.loggedEncounterId = some .unknown ∧ result.limitation ≠ none))) ∧
    (∀ (input : Subject) (backing : Backing) (s s' : Resolving),
      Relation.ReflTransGen (RosterPresence.Step input.subjectId (queue texts input backing))
        (.begin_ (heldAnswers texts input backing)) s →
      (∃ result ∈ s.results, result.stops = true) →
      Relation.ReflTransGen (RosterPresence.Step input.subjectId (queue texts input backing)) s s' →
        s'.reads = s.reads) ∧
    ∀ (c : Collection) (run : CollectionRun), CollectRaiderIoFirstKills c texts run →
      run.limitation c = none → ∀ kill ∈ c.kills,
        collectFirstKill (run.encounterReads c) kill = none →
          ∃ id e subjectId subjectClass, kill.loggedEncounterId = some id ∧
            (run.encounters c).get? id = some e ∧ e.rosterState = .available ∧
            run.character c = some (.id subjectId subjectClass) ∧
            run.presence c id = some .absent ∧
            Disproved texts (subject c (run.held c) subjectId subjectClass) run.backing
              run.resolving e := by
  refine ⟨fun input backing => ⟨exists_result texts input backing, ?_⟩, ?_, ?_⟩
  · intro s result hresult
    obtain ⟨answers, hfinished, -⟩ := id hresult
    refine ⟨hfinished.sound.2, fun e he => ?_⟩
    have hsound := presence_sound hresult he
    cases hpresence : result.presence e.loggedEncounterId with
    | none =>
      rw [hpresence] at hsound
      exact hsound.elim
    | some presence =>
      rw [hpresence] at hsound
      cases presence with
      | present =>
        exact ⟨fun _ => hsound, fun h => (by cases h), .inl rfl⟩
      | absent =>
        exact ⟨fun h => (by cases h), fun _ => hsound, .inr (.inl rfl)⟩
      | unknown =>
        exact ⟨fun h => (by cases h), fun h => (by cases h), .inr (.inr ⟨rfl, hsound⟩)⟩
  · intro input backing s s' hrun hstops hafter
    obtain ⟨result, hin, hstop⟩ := hstops
    exact (reads_of_stopped ((inv_of_run hrun).stops result hin hstop) hafter).2
  · intro c run hrun hlimitation kill _ homitted
    exact disproved_of_omitted hrun hlimitation homitted

end SlashWho.FirstKillReads
