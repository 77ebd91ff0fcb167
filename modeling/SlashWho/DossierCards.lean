import SlashWho.DossierAccounting

/-!
What the displayed cards hold of the kills they were built from. The events of
a card are its kills again, the cards of a dossier are all placed kills again,
and the display shows every card once, whether it lists the raids with kills or
the whole catalogue.
-/

namespace SlashWho.ApplicantDossier

open List ComparatorSort KeyedBuckets RaidCatalogue

variable {α β γ : Type*}

/-- Parts that each build something holding them hold together what they did apart. -/
theorem flatMap_filterMap_perm {parts : List α} {build : α → Option β} {held : β → List γ}
    {inPart : α → List γ}
    (h : ∀ part ∈ parts, ∃ built, build part = some built ∧
      List.Perm (held built) (inPart part)) :
    List.Perm ((parts.filterMap build).flatMap held) (parts.flatMap inPart) := by
  induction parts with
  | nil => rfl
  | cons part rest ih =>
    obtain ⟨built, hbuilt, hperm⟩ := h part mem_cons_self
    rw [filterMap_cons_some hbuilt, flatMap_cons, flatMap_cons]
    exact hperm.append (ih (fun other hother => h other (mem_cons_of_mem _ hother)))

theorem map_filterMap_eq {parts : List α} {build : α → Option β} {keyOf : β → γ}
    {partKey : α → γ}
    (h : ∀ part ∈ parts, ∃ built, build part = some built ∧ keyOf built = partKey part) :
    (parts.filterMap build).map keyOf = parts.map partKey := by
  induction parts with
  | nil => rfl
  | cons part rest ih =>
    obtain ⟨built, hbuilt, hkey⟩ := h part mem_cons_self
    rw [filterMap_cons_some hbuilt, map_cons, map_cons, hkey,
      ih (fun other hother => h other (mem_cons_of_mem _ hother))]

theorem toList_find?_of_nodup {κ : Type*} [DecidableEq κ] (key : α → κ) {rows : List α}
    (hnodup : (rows.map key).Nodup) (k : κ) :
    (rows.find? (fun row => key row = k)).toList = rows.filter (fun row => key row = k) := by
  induction rows with
  | nil => rfl
  | cons row rest ih =>
    rw [map_cons, nodup_cons] at hnodup
    by_cases hk : key row = k
    · have hrest : rest.filter (fun row => key row = k) = [] := by
        rw [filter_eq_nil_iff]
        intro other hother hother'
        rw [decide_eq_true_eq, ← hk] at hother'
        exact hnodup.1 (mem_map.mpr ⟨other, hother, hother'⟩)
      rw [find?_cons_of_pos (by simpa using hk), filter_cons_of_pos (by simpa using hk),
        hrest]
      rfl
    · rw [find?_cons_of_neg (by simpa using hk), filter_cons_of_neg (by simpa using hk)]
      exact ih hnodup.2

variable (rt : Runtime) (generated : Generated) (input : BuildApplicantDossierInput)

theorem eventEntry_of_ne_nil {shared : List CatalogueMatchedKill} (h : shared ≠ []) :
    ∃ entry, eventEntry rt input shared = some entry ∧ entry.shared = shared ∧
      entry.selected ∈ shared := by
  unfold eventEntry
  cases hsorted : sortBy (compareKills rt) shared with
  | nil => exact absurd ((sortBy_eq_nil _).mp hsorted) h
  | cons selected others =>
    have hin : selected ∈ sortBy (compareKills rt) shared := by
      rw [hsorted]
      exact mem_cons_self
    exact ⟨_, rfl, rfl, (mem_sortBy _).mp hin⟩

variable {kills : List CatalogueMatchedKill}

theorem mem_eventEntries {entry : EventEntry} (h : entry ∈ eventEntries rt input kills) :
    ∃ shared, eventEntry rt input shared = some entry ∧ shared ≠ [] ∧
      ∃ key, shared = (sortBy (compareKills rt) kills).filter (fun k => killEventKey rt k = key) := by
  unfold eventEntries at h
  rw [mem_sortBy, mem_filterMap] at h
  obtain ⟨shared, hshared, hentry⟩ := h
  obtain ⟨bucket, hbucket, rfl⟩ := mem_map.mp hshared
  obtain ⟨hfilter, hne⟩ := (mem_entries_bucketsBy (killEventKey rt)).mp hbucket
  exact ⟨bucket.2, hentry, hne, bucket.1, hfilter⟩

/-- Every kill is in one event. -/
theorem eventEntries_perm (kills : List CatalogueMatchedKill) :
    List.Perm ((eventEntries rt input kills).flatMap EventEntry.shared) kills := by
  have hbuilt : ∀ shared ∈ (bucketsBy (killEventKey rt) (sortBy (compareKills rt) kills)).values,
      ∃ entry, eventEntry rt input shared = some entry ∧ List.Perm entry.shared (id shared) := by
    intro shared hshared
    obtain ⟨bucket, hbucket, rfl⟩ := mem_map.mp hshared
    obtain ⟨entry, hentry, heq, -⟩ := eventEntry_of_ne_nil rt input
      ((mem_entries_bucketsBy (killEventKey rt)).mp hbucket).2
    exact ⟨entry, hentry, by rw [heq]; rfl⟩
  have hall := flatMap_filterMap_perm hbuilt
  rw [flatMap_id] at hall
  exact (((perm_sortBy _ _).flatMap_right _).trans hall).trans
    ((flatten_values_perm _ _).trans (perm_sortBy _ _))

theorem eventEntries_ne_nil (h : kills ≠ []) :
    eventEntries rt input kills ≠ [] := by
  intro hnil
  have hperm := eventEntries_perm rt input kills
  rw [hnil] at hperm
  exact h hperm.nil_eq.symm

/-- The kills of all events of a card. -/
def cardKills (card : AggregatedDossierBoss) : List CatalogueMatchedKill :=
  card.boss.firstKills.flatMap EventEntry.shared

def cardKey (card : AggregatedDossierBoss) : BossKey := (card.raidId, card.boss.metadata.bossId)

theorem bossCard_of_ne_nil (h : kills ≠ []) :
    ∃ card, bossCard rt generated input kills = some card ∧
      card.boss.firstKills = eventEntries rt input kills ∧
      ∃ kill ∈ kills, cardKey card = killBossKey kill ∧ card.raidName = kill.encounter.raidName := by
  unfold bossCard
  cases hentries : eventEntries rt input kills with
  | nil => exact absurd hentries (eventEntries_ne_nil rt input h)
  | cons latest others =>
    have hin : latest ∈ eventEntries rt input kills := by
      rw [hentries]
      exact mem_cons_self
    obtain ⟨shared, hshared, hne, key, hfilter⟩ := mem_eventEntries rt input hin
    obtain ⟨entry, hentry, -, hselected⟩ := eventEntry_of_ne_nil rt input hne
    rw [hshared] at hentry
    obtain rfl := Option.some.inj hentry
    rw [hfilter] at hselected
    have hkill : latest.selected ∈ kills :=
      (mem_sortBy _).mp (mem_filter.mp hselected).1
    cases hlast : (latest :: others).getLast? with
    | none => simp at hlast
    | some oldest => exact ⟨_, rfl, rfl, latest.selected, hkill, rfl, rfl⟩

variable {allKills : List CatalogueMatchedKill}

theorem mem_bossBuckets (h : kills ∈ (bucketsBy killBossKey allKills).values) :
    kills ≠ [] ∧ ∃ key, kills = allKills.filter (fun k => killBossKey k = key) ∧
      (key, kills) ∈ (bucketsBy killBossKey allKills).entries := by
  obtain ⟨bucket, hbucket, rfl⟩ := mem_map.mp h
  obtain ⟨hfilter, hne⟩ := (mem_entries_bucketsBy killBossKey).mp hbucket
  exact ⟨hne, bucket.1, hfilter, hbucket⟩

/-- Every kill is on one card. -/
theorem bossCards_perm (allKills : List CatalogueMatchedKill) :
    List.Perm ((bossCards rt generated input allKills).flatMap cardKills) allKills := by
  have hbuilt : ∀ kills ∈ (bucketsBy killBossKey allKills).values,
      ∃ card, bossCard rt generated input kills = some card ∧
        List.Perm (cardKills card) (id kills) := by
    intro kills hkills
    obtain ⟨card, hcard, hevents, -⟩ :=
      bossCard_of_ne_nil rt generated input (mem_bossBuckets hkills).1
    refine ⟨card, hcard, ?_⟩
    unfold cardKills
    rw [hevents]
    exact eventEntries_perm rt input kills
  have hall := flatMap_filterMap_perm hbuilt
  rw [flatMap_id] at hall
  exact hall.trans (flatten_values_perm _ _)

theorem nodup_cardKeys (allKills : List CatalogueMatchedKill) :
    ((bossCards rt generated input allKills).map cardKey).Nodup := by
  have hkeys : (bossCards rt generated input allKills).map cardKey =
      (bucketsBy killBossKey allKills).keys := by
    unfold bossCards OrderedMap.values OrderedMap.keys
    rw [filterMap_map]
    apply map_filterMap_eq
    intro bucket hbucket
    obtain ⟨hfilter, hne⟩ := (mem_entries_bucketsBy killBossKey).mp hbucket
    obtain ⟨card, hcard, -, kill, hkill, hkey, -⟩ := bossCard_of_ne_nil rt generated input hne
    refine ⟨card, hcard, ?_⟩
    rw [hfilter, mem_filter, decide_eq_true_eq] at hkill
    rw [hkey, hkill.2]
  rw [hkeys]
  exact (bucketsBy killBossKey allKills).nodup_keys

/-- A card has a kill, and every kill it has is of its own boss. -/
theorem mem_bossCards {card : AggregatedDossierBoss}
    (h : card ∈ bossCards rt generated input allKills) :
    (∃ kill ∈ allKills, cardKey card = killBossKey kill ∧
      card.raidName = kill.encounter.raidName) ∧
      ∀ kill ∈ cardKills card, killBossKey kill = cardKey card := by
  obtain ⟨kills, hkills, hcard⟩ := mem_filterMap.mp h
  obtain ⟨hne, key, hfilter, -⟩ := mem_bossBuckets hkills
  obtain ⟨card', hcard', hevents, kill, hkill, hkey, hname⟩ :=
    bossCard_of_ne_nil rt generated input hne
  rw [hcard] at hcard'
  obtain rfl := Option.some.inj hcard'
  have hsame : ∀ k ∈ kills, killBossKey k = key ∧ k ∈ allKills := by
    intro k hk
    rw [hfilter, mem_filter, decide_eq_true_eq] at hk
    exact ⟨hk.2, hk.1⟩
  refine ⟨⟨kill, (hsame kill hkill).2, hkey, hname⟩, ?_⟩
  intro k hk
  unfold cardKills at hk
  rw [hevents] at hk
  have hin := (eventEntries_perm rt input kills).mem_iff.mp hk
  rw [hkey, (hsame k hin).1, (hsame kill hkill).1]

def bossKills : ApplicantDossierBoss → List CatalogueMatchedKill
  | .kill boss => boss.firstKills.flatMap EventEntry.shared
  | .wipe _ _ _ | .noLogs _ | .incomplete _ => []

def raidKills (raid : ApplicantDossierRaid) : List CatalogueMatchedKill :=
  raid.bosses.flatMap bossKills

variable (cards : List AggregatedDossierBoss)

theorem observedRaids_perm :
    List.Perm ((observedRaids rt generated cards).flatMap ObservedRaid.bosses) cards := by
  have hbuilt : ∀ entry ∈ (bucketsBy AggregatedDossierBoss.raidId cards).entries,
      ∃ raid, observedRaid rt generated entry = some raid ∧
        List.Perm raid.bosses (Prod.snd entry) := by
    intro entry hentry
    have hne := ((mem_entries_bucketsBy AggregatedDossierBoss.raidId).mp hentry).2
    unfold observedRaid
    cases hbosses : entry.2 with
    | nil => exact absurd hbosses hne
    | cons first others => exact ⟨_, rfl, List.Perm.refl _⟩
  exact (flatMap_filterMap_perm hbuilt).trans
    (flatten_values_perm AggregatedDossierBoss.raidId cards)

theorem raidKills_shownRaid (raid : ObservedRaid) :
    List.Perm (raidKills (shownRaid rt generated input raid)) (raid.bosses.flatMap cardKills) := by
  unfold raidKills shownRaid
  rw [flatMap_map]
  exact (perm_sortBy compareBosses raid.bosses).flatMap_right cardKills

/-- Drawn without gaps, the raids show every card once. -/
theorem raidsWithKills_perm :
    List.Perm ((raidsWithKills rt generated input cards).flatMap raidKills)
      (cards.flatMap cardKills) := by
  unfold raidsWithKills
  rw [flatMap_map]
  have hraids : List.Perm
      ((sortBy compareRaids (observedRaids rt generated cards)).flatMap
        (fun raid => raidKills (shownRaid rt generated input raid)))
      ((observedRaids rt generated cards).flatMap (fun raid => raid.bosses.flatMap cardKills)) :=
    (perm_sortBy _ _).flatMap (fun raid _ => raidKills_shownRaid rt generated input raid)
  rw [← flatMap_assoc] at hraids
  exact hraids.trans ((observedRaids_perm rt generated cards).flatMap_right cardKills)

theorem map_raidId_observedRaids :
    (observedRaids rt generated cards).map ObservedRaid.raidId =
      (bucketsBy AggregatedDossierBoss.raidId cards).keys := by
  apply map_filterMap_eq
  intro entry hentry
  have hne := ((mem_entries_bucketsBy AggregatedDossierBoss.raidId).mp hentry).2
  unfold observedRaid
  cases hbosses : entry.2 with
  | nil => exact absurd hbosses hne
  | cons first others => exact ⟨_, rfl, rfl⟩

theorem find?_observedRaids (raidId : String) :
    (((observedRaids rt generated cards).find? (fun raid => raid.raidId = raidId)).map
        ObservedRaid.bosses).getD [] =
      cards.filter (fun card => card.raidId = raidId) := by
  have hids := map_raidId_observedRaids rt generated cards
  have hnodup : ((observedRaids rt generated cards).map ObservedRaid.raidId).Nodup := by
    rw [hids]
    exact (bucketsBy AggregatedDossierBoss.raidId cards).nodup_keys
  have hbosses : ∀ raid ∈ observedRaids rt generated cards,
      raid.bosses = cards.filter (fun card => card.raidId = raid.raidId) := by
    intro raid hraid
    obtain ⟨entry, hentry, hobserved⟩ := mem_filterMap.mp hraid
    have hfilter := ((mem_entries_bucketsBy AggregatedDossierBoss.raidId).mp hentry).1
    unfold observedRaid at hobserved
    obtain ⟨first, -, rfl⟩ := Option.map_eq_some_iff.mp hobserved
    exact hfilter
  cases hfound : (observedRaids rt generated cards).find? (fun raid => raid.raidId = raidId) with
  | some raid =>
    have hraid := mem_of_find?_eq_some hfound
    have hid : raid.raidId = raidId := by simpa using find?_some hfound
    rw [Option.map_some, Option.getD_some, hbosses raid hraid, hid]
  | none =>
    rw [Option.map_none, Option.getD_none, eq_comm, filter_eq_nil_iff]
    intro card hcard hid
    have hkey : raidId ∈ (bucketsBy AggregatedDossierBoss.raidId cards).keys :=
      (mem_keys_bucketsBy _).mpr ⟨card, hcard, by simpa using hid⟩
    rw [← hids, mem_map] at hkey
    obtain ⟨raid, hraid, hsame⟩ := hkey
    exact find?_eq_none.mp hfound raid hraid (by simpa using hsame)

/-- Looking for a boss finds its card, and nothing where it has none. -/
theorem found_card {cards : List AggregatedDossierBoss} (hnodup : (cards.map cardKey).Nodup)
    (raidId bossId : String) :
    (((observedRaids rt generated cards).find? (fun raid => raid.raidId = raidId)).bind
        (fun raid => raid.bosses.find? (fun card => card.boss.metadata.bossId = bossId))).toList =
      cards.filter (fun card => cardKey card = (raidId, bossId)) := by
  have hbind : ∀ observed : Option ObservedRaid,
      observed.bind (fun raid =>
        raid.bosses.find? (fun card => card.boss.metadata.bossId = bossId)) =
      ((observed.map ObservedRaid.bosses).getD []).find?
        (fun card => card.boss.metadata.bossId = bossId) := by
    intro observed
    cases observed <;> rfl
  have hown : ((cards.filter (fun card => card.raidId = raidId)).map
      (fun card => card.boss.metadata.bossId)).Nodup := by
    refine List.Nodup.map_on ?_ (List.Nodup.filter _ hnodup.of_map)
    intro a ha b hb hab
    rw [mem_filter, decide_eq_true_eq] at ha hb
    exact inj_on_of_nodup_map hnodup ha.1 hb.1 (Prod.ext (ha.2.trans hb.2.symm) hab)
  have hfind := toList_find?_of_nodup
    (fun card : AggregatedDossierBoss => card.boss.metadata.bossId) hown bossId
  rw [hbind, find?_observedRaids, hfind, filter_filter]
  apply filter_congr
  intro card _
  unfold cardKey
  simp only [Prod.mk.injEq, Bool.decide_and, Bool.and_comm]

theorem bossKills_catalogueBoss {cards : List AggregatedDossierBoss}
    (hnodup : (cards.map cardKey).Nodup) (raidId : String) (e : RaidCatalogueEncounter) :
    bossKills (catalogueBoss rt generated input
        ((observedRaids rt generated cards).find? (fun raid => raid.raidId = raidId)) raidId e) =
      (cards.filter (fun card => cardKey card = (raidId, e.bossId))).flatMap cardKills := by
  rw [← found_card rt generated hnodup]
  unfold catalogueBoss
  cases ((observedRaids rt generated cards).find? (fun raid => raid.raidId = raidId)).bind
      (fun raid => raid.bosses.find? (fun card => card.boss.metadata.bossId = e.bossId)) with
  | some card => simp [bossKills, cardKills]
  | none =>
    simp only [Option.toList_none, flatMap_nil]
    split
    · rfl
    · split <;> rfl

variable {rt} (catalogue : Catalogue rt)

def shownKeys (entries : List SupportedRaidCatalogueEntry) : List BossKey :=
  entries.flatMap (fun entry => entry.encounters.map (fun e => (entry.raid.raidId, e.bossId)))

variable {entries : List SupportedRaidCatalogueEntry}

theorem shownKeys_spec (h : List.Perm entries
      (catalogue.raids.zipIdx.map (shownEntry rt catalogue.toGenerated))) :
    (shownKeys entries).Nodup ∧
      ∀ e, Lists rt catalogue.toGenerated e → (e.raidId, e.bossId) ∈ shownKeys entries := by
  constructor
  · have hids : List.Perm ((shownKeys entries).map Prod.snd)
        ((catalogue.raids.flatMap (encountersOf rt catalogue.toGenerated)).map
          RaidCatalogueEncounter.bossId) := by
      unfold shownKeys
      rw [map_flatMap, map_flatMap]
      refine (h.flatMap_right _).trans ?_
      rw [flatMap_map]
      have hfst : catalogue.raids.zipIdx.map Prod.fst = catalogue.raids := zipIdx_map_fst 0 _
      conv_rhs => rw [← hfst, flatMap_map]
      apply List.Perm.flatMap_left
      intro entry _
      unfold shownEntry
      rw [map_map]
      exact (perm_sortBy _ _).map RaidCatalogueEncounter.bossId
    exact (hids.nodup_iff.mpr (nodup_all_bossIds catalogue)).of_map
  · intro e hlists
    obtain ⟨raid, hraid, listed, -, rfl, hin⟩ := hlists.exists_raid
    obtain ⟨position, hposition⟩ := mem_iff_getElem?.mp hraid
    have hentry : shownEntry rt catalogue.toGenerated (raid, position) ∈ entries :=
      h.mem_iff.mpr (mem_map_of_mem (mk_mem_zipIdx_iff_getElem?.mpr hposition))
    refine mem_flatMap.mpr ⟨_, hentry, mem_map.mpr ⟨_, (mem_sortBy _).mpr hin, rfl⟩⟩

/-- Drawn with its gaps, the catalogue still shows every card once. -/
theorem catalogueRaids_perm {cards : List AggregatedDossierBoss}
    (hnodup : (cards.map cardKey).Nodup)
    (hlisted : ∀ card ∈ cards, ∃ e, Lists rt catalogue.toGenerated e ∧
      cardKey card = (e.raidId, e.bossId)) (hentries : List.Perm entries
      (catalogue.raids.zipIdx.map (shownEntry rt catalogue.toGenerated))) :
    List.Perm
      ((entries.map (catalogueRaid rt catalogue.toGenerated input
        (observedRaids rt catalogue.toGenerated cards))).flatMap raidKills)
      (cards.flatMap cardKills) := by
  obtain ⟨hkeys, hcover⟩ := shownKeys_spec catalogue hentries
  have heach : (entries.map (catalogueRaid rt catalogue.toGenerated input
      (observedRaids rt catalogue.toGenerated cards))).flatMap raidKills =
      ((shownKeys entries).flatMap (fun key =>
        cards.filter (fun card => cardKey card = key))).flatMap cardKills := by
    unfold shownKeys raidKills catalogueRaid
    rw [flatMap_map, flatMap_assoc, flatMap_assoc]
    apply flatMap_congr
    intro entry _
    simp only [flatMap_map]
    apply flatMap_congr
    intro e _
    exact bossKills_catalogueBoss rt catalogue.toGenerated input hnodup entry.raid.raidId e
  rw [heach]
  refine (flatMap_filter_perm cardKey _ cards hkeys ?_).flatMap_right cardKills
  intro card hcard
  obtain ⟨e, hlists, hkey⟩ := hlisted card hcard
  rw [hkey]
  exact hcover e hlists

end SlashWho.ApplicantDossier
