import Mathlib.Data.List.Flatten
import SlashWho.RaidCatalogue

/-!
What the lookups of a reviewed catalogue answer. Every lookup answers with a
listed encounter, a listed encounter is found by its own names, and it is
ranked under the slugs it is filed under. The catalogue offered for display
lists each raid once and each encounter once, in its own raid.
-/

namespace SlashWho.RaidCatalogue

open List ComparatorSort KeyedBuckets

def Lists (rt : Runtime) (generated : Generated) (encounter : RaidCatalogueEncounter) : Prop :=
  encounter ∈ (encounters rt generated).values

variable {rt : Runtime} (catalogue : Catalogue rt)

section Listed
variable {catalogue}

theorem mem_encountersOf {generated : Generated} {raid : JournalRaid}
    {e : RaidCatalogueEncounter} (h : e ∈ encountersOf rt generated raid) :
    ∃ listed ∈ raid.encounters, e = encounterOf raid listed := by
  obtain ⟨listed, hlisted, rfl⟩ := mem_map.mp h
  exact ⟨listed, (mem_filter.mp hlisted).1, rfl⟩

theorem filedBy_encounters (generated : Generated) :
    (encounters rt generated).FiledBy RaidCatalogueEncounter.bossId :=
  OrderedMap.filedBy_ofList _ _

theorem Lists.exists_raid {generated : Generated} {e : RaidCatalogueEncounter}
    (h : Lists rt generated e) :
    ∃ raid ∈ generated.raids, ∃ listed ∈ raid.encounters, e = encounterOf raid listed ∧
      e ∈ encountersOf rt generated raid := by
  obtain ⟨k, hk⟩ := ((encounters rt generated).mem_values_iff e).mp h
  have hmem := OrderedMap.mem_of_mem_entries_ofList (((encounters rt generated).mem_entries_iff k e).mpr hk)
  obtain ⟨e', he', heq⟩ := mem_map.mp hmem
  obtain ⟨rfl, rfl⟩ := Prod.mk.inj heq
  obtain ⟨raid, hraid, hin⟩ := mem_flatMap.mp he'
  obtain ⟨listed, hlisted, hlist⟩ := mem_encountersOf hin
  exact ⟨raid, hraid, listed, hlisted, hlist, hin⟩

theorem nodup_all_bossIds (catalogue : Catalogue rt) :
    ((catalogue.raids.flatMap (encountersOf rt catalogue.toGenerated)).map
      RaidCatalogueEncounter.bossId).Nodup := by
  have hsub : List.Sublist
      ((catalogue.raids.flatMap (encountersOf rt catalogue.toGenerated)).map
        RaidCatalogueEncounter.bossId)
      ((catalogue.raids.flatMap JournalRaid.encounters).map JournalEncounter.journalBossId) := by
    rw [map_flatMap, map_flatMap]
    apply List.Sublist.flatMap_right
    intro raid _
    unfold encountersOf
    rw [map_map]
    exact filter_sublist.map JournalEncounter.journalBossId
  exact hsub.nodup catalogue.nodup_bossIds

theorem get?_encounters (catalogue : Catalogue rt) {raid : JournalRaid}
    (hraid : raid ∈ catalogue.raids) {e : RaidCatalogueEncounter}
    (h : e ∈ encountersOf rt catalogue.toGenerated raid) :
    (encounters rt catalogue.toGenerated).get? e.bossId = some e := by
  have hall : e ∈ catalogue.raids.flatMap (encountersOf rt catalogue.toGenerated) :=
    mem_flatMap.mpr ⟨raid, hraid, h⟩
  unfold encounters
  rw [OrderedMap.get?_ofList_map, ← find?_eq_some_of_nodup RaidCatalogueEncounter.bossId]
  · rw [map_reverse]
    exact nodup_reverse.mpr (nodup_all_bossIds catalogue)
  · exact mem_reverse.mpr hall

end Listed

section Answers
variable {generated : Generated} {raidName bossName : String} {e : RaidCatalogueEncounter}

theorem mem_namedEncounters {named : String × RaidCatalogueEncounter} :
    named ∈ namedEncounters rt generated ↔
      Lists rt generated named.2 ∧ named.1 ∈ bossNamesOf named.2 := by
  unfold namedEncounters Lists
  rw [mem_flatMap]
  constructor
  · rintro ⟨encounter, hlisted, hin⟩
    obtain ⟨bossName, hname, rfl⟩ := mem_map.mp hin
    exact ⟨hlisted, hname⟩
  · rintro ⟨hlisted, hname⟩
    exact ⟨named.2, hlisted, mem_map.mpr ⟨named.1, hname, rfl⟩⟩

theorem lookupRaidBossByName_lists (h : lookupRaidBossByName rt generated raidName bossName = some e) :
    Lists rt generated e ∧ normalizedName rt e.raidName = normalizedName rt raidName := by
  obtain ⟨named, hnamed, rfl⟩ := Option.map_eq_some_iff.mp h
  obtain ⟨hin, hkey⟩ := mem_of_uniqueItem _ hnamed
  exact ⟨(mem_namedEncounters.mp hin).1, congrArg Prod.fst hkey⟩

theorem lookupUniqueRaidBossByName_lists
    (h : lookupUniqueRaidBossByName rt generated bossName = some e) :
    Lists rt generated e := by
  obtain ⟨named, hnamed, rfl⟩ := Option.map_eq_some_iff.mp h
  exact (mem_namedEncounters.mp (mem_of_uniqueItem _ hnamed).1).1

theorem lookupJournalEncounter_lists {journalBossId : String}
    (h : lookupJournalEncounter rt generated journalBossId = some e) :
    Lists rt generated e :=
  ((encounters rt generated).mem_values_iff e).mpr ⟨_, h⟩

theorem lookupRaidBossByLegacyName_lists {raidId : String}
    (h : lookupRaidBossByLegacyName rt generated raidId bossName = some e) :
    Lists rt generated e ∧ e.raidId = raidId := by
  unfold lookupRaidBossByLegacyName at h
  simp only at h
  split at h
  · cases h
  · split at h
    · next encounter hmatches =>
      obtain rfl := Option.some.inj h
      have hin : encounter ∈ (encounters rt generated).values.filter (fun other =>
          other.raidId = raidId && (normalizedName rt bossName).toList.isPrefixOf
            (normalizedName rt other.bossName).toList) := by
        rw [hmatches]
        exact mem_singleton_self _
      rw [mem_filter] at hin
      exact ⟨hin.1, by simpa using (Bool.and_eq_true_iff.mp hin.2).1⟩
    · cases h

theorem lookupSiblingRaidBossByName_lists
    (h : lookupSiblingRaidBossByName rt generated raidName bossName = some e) :
    Lists rt generated e := by
  have hunique : lookupUniqueRaidBossByName rt generated bossName = some e := by
    unfold lookupSiblingRaidBossByName at h
    split at h
    · next raid encounter _ hfound =>
      rw [hfound]
      split at h
      · cases h
      · split at h
        · split at h
          · exact h
          · cases h
        · cases h
    · cases h
  exact lookupUniqueRaidBossByName_lists hunique

theorem lookupRaidEncounterForEvidence_lists {journalBossId : Option String}
    (h : lookupRaidEncounterForEvidence rt generated raidName bossName journalBossId = some e) :
    Lists rt generated e := by
  have hjournal : ∀ e, journalBossId.bind (lookupJournalEncounter rt generated) = some e →
      Lists rt generated e := by
    intro e hbind
    obtain ⟨id, -, hid⟩ := Option.bind_eq_some_iff.mp hbind
    exact lookupJournalEncounter_lists hid
  unfold lookupRaidEncounterForEvidence at h
  simp only at h
  split at h
  · rcases Option.or_eq_some_iff.mp h with h | ⟨-, h⟩
    · exact hjournal e h
    · exact lookupUniqueRaidBossByName_lists h
  · rcases Option.or_eq_some_iff.mp h with h | ⟨-, h⟩
    · exact (lookupRaidBossByName_lists h).1
    · rcases Option.or_eq_some_iff.mp h with h | ⟨-, h⟩
      · exact hjournal e (Option.filter_eq_some_iff.mp h).1
      · rcases Option.or_eq_some_iff.mp h with h | ⟨-, h⟩
        · exact (lookupRaidBossByLegacyName_lists h).1
        · exact lookupSiblingRaidBossByName_lists h

theorem lookupRaidEncounterByRaiderIoSlugs_lists {slugs : RaiderIoBoss}
    (h : lookupRaidEncounterByRaiderIoSlugs rt generated slugs = some e) :
    Lists rt generated e := by
  have hbucket : ∀ e, e ∈ sortBy (readBy RaidCatalogueEncounter.bossOrder compare)
      ((encounters rt generated).values.filter (fun e => raiderIoSlugsOf rt e = some slugs)) →
      Lists rt generated e := by
    intro e he
    rw [mem_sortBy] at he
    exact mem_of_mem_filter he
  unfold lookupRaidEncounterByRaiderIoSlugs at h
  simp only at h
  split at h
  · cases h
  · next only honly =>
    obtain rfl := Option.some.inj h
    exact hbucket _ (by rw [honly]; exact mem_singleton_self _)
  · next first rest _ hfirst =>
    split at h
    · obtain rfl := Option.some.inj h
      exact hbucket _ (by rw [hfirst]; exact mem_cons_self)
    · cases h

end Answers

section Names
variable {catalogue}

theorem map_raidName_catalogueRaids (generated : Generated) :
    (catalogueRaids generated).map (fun raid => normalizedName rt raid.raidName) =
      generated.raids.map (fun raid => normalizedName rt raid.raidName) := by
  unfold catalogueRaids
  rw [map_map]
  have hfst : (generated.raids.zipIdx.map Prod.fst) = generated.raids := zipIdx_map_fst 0 _
  conv_rhs => rw [← hfst, map_map]
  rfl

theorem lookupRaidByName_raidAt (catalogue : Catalogue rt) {entry : JournalRaid × ℕ}
    (h : entry ∈ catalogue.raids.zipIdx) :
    lookupRaidByName rt catalogue.toGenerated entry.1.raidName = some (raidAt entry) := by
  have hnodup : ((catalogueRaids catalogue.toGenerated).map
      (fun raid => normalizedName rt raid.raidName)).Nodup := by
    rw [map_raidName_catalogueRaids]
    exact catalogue.nodup_raidNames
  have hin : raidAt entry ∈ catalogueRaids catalogue.toGenerated := mem_map_of_mem h
  have hfound := uniqueItem_of_nodup
    (fun raid : RaidCatalogueRaid => normalizedName rt raid.raidName) hnodup hin
  exact hfound

theorem lookupRaidByName_eq {generated : Generated} {raidName : String} {raid : RaidCatalogueRaid}
    (h : lookupRaidByName rt generated raidName = some raid) :
    ∃ entry ∈ generated.raids.zipIdx, raid = raidAt entry ∧
      normalizedName rt entry.1.raidName = normalizedName rt raidName := by
  obtain ⟨hin, hkey⟩ := mem_of_uniqueItem _ h
  obtain ⟨entry, hentry, rfl⟩ := mem_map.mp hin
  exact ⟨entry, hentry, rfl, hkey⟩

/-- A listed encounter's raid is found by the name it carries. -/
theorem Lists.lookupRaidByName (catalogue : Catalogue rt) {e : RaidCatalogueEncounter}
    (h : Lists rt catalogue.toGenerated e) :
    ∃ raid, lookupRaidByName rt catalogue.toGenerated e.raidName = some raid ∧
      raid.raidId = e.raidId ∧ raid.raidName = e.raidName ∧
      raid.raiderIoRaidSlug = raiderIoRaidSlugs.lookup e.raidId ∧
      normalizedName rt e.raidName ≠ combinedMidnightZone rt := by
  obtain ⟨raid, hraid, listed, -, rfl, -⟩ := h.exists_raid
  obtain ⟨position, hposition⟩ := mem_iff_getElem?.mp hraid
  have hentry := mk_mem_zipIdx_iff_getElem?.mpr hposition
  have hfound := lookupRaidByName_raidAt catalogue hentry
  exact ⟨raidAt (raid, position), hfound, rfl, rfl, rfl, catalogue.named_apart raid hraid⟩

end Names

section Supported

theorem mapM_eq_some_map {α β : Type} {f : α → Option β} {g : α → β} {l : List α}
    (h : ∀ a ∈ l, f a = some (g a)) : l.mapM f = some (l.map g) := by
  induction l with
  | nil => rfl
  | cons a rest ih =>
    have hrest := ih (fun b hb => h b (mem_cons_of_mem _ hb))
    rw [mapM_cons, h a mem_cons_self, hrest]
    rfl

/-- A listed encounter of a raid is looked up as itself, a faction's copy as nothing. -/
theorem filterMap_get?_encounters {raid : JournalRaid} (hraid : raid ∈ catalogue.raids) :
    raid.encounters.filterMap (fun encounter =>
        (encounters rt catalogue.toGenerated).get? encounter.journalBossId) =
      encountersOf rt catalogue.toGenerated raid := by
  unfold encountersOf
  rw [← filterMap_eq_map', filterMap_filter]
  apply filterMap_congr
  intro listed hlisted
  by_cases hcopy : (factionCopies rt catalogue.toGenerated).has listed.journalBossId = true
  · rw [if_neg (by simp [hcopy])]
    cases hget : (encounters rt catalogue.toGenerated).get? listed.journalBossId with
    | none => rfl
    | some e =>
      have hid := filedBy_encounters catalogue.toGenerated _ _ hget
      have hlists : Lists rt catalogue.toGenerated e :=
        ((encounters rt catalogue.toGenerated).mem_values_iff e).mpr ⟨_, hget⟩
      obtain ⟨raid', hraid', -, -, -, hin⟩ := hlists.exists_raid
      obtain ⟨listed', hlisted', rfl⟩ := mem_map.mp hin
      rw [mem_filter] at hlisted'
      have hsame : listed' = listed :=
        inj_on_of_nodup_map catalogue.nodup_bossIds
          (mem_flatMap.mpr ⟨raid', hraid', hlisted'.1⟩)
          (mem_flatMap.mpr ⟨raid, hraid, hlisted⟩) hid
      rw [hsame, hcopy] at hlisted'
      exact absurd hlisted'.2 (by decide)
  · have hin : encounterOf raid listed ∈ encountersOf rt catalogue.toGenerated raid :=
      mem_map_of_mem (mem_filter.mpr ⟨hlisted, by simpa using hcopy⟩)
    rw [if_pos (by simpa using hcopy)]
    exact get?_encounters catalogue hraid hin

/-- How the display lists a raid: by its own data, its encounters by boss order. -/
def shownEntry (rt : Runtime) (generated : Generated) (entry : JournalRaid × ℕ) :
    SupportedRaidCatalogueEntry where
  raid := raidAt entry
  encounters := sortBy (readBy RaidCatalogueEncounter.bossOrder compare)
    (encountersOf rt generated entry.1)

/-- The display's catalogue is never refused and holds every raid once. -/
theorem supportedRaidCatalogue_spec (catalogue : Catalogue rt) :
    ∃ entries, supportedRaidCatalogue rt catalogue.toGenerated = some entries ∧
      List.Perm entries (catalogue.raids.zipIdx.map (shownEntry rt catalogue.toGenerated)) := by
  have hentry : ∀ entry ∈ catalogue.raids.zipIdx,
      supportedEntry rt catalogue.toGenerated entry =
        some (shownEntry rt catalogue.toGenerated entry) := by
    intro entry hentry
    have hraid : entry.1 ∈ catalogue.raids := fst_mem_of_mem_zipIdx hentry
    unfold supportedEntry shownEntry
    rw [lookupRaidByName_raidAt catalogue hentry, Option.map_some,
      filterMap_get?_encounters catalogue hraid]
    rfl
  unfold supportedRaidCatalogue
  rw [mapM_eq_some_map hentry]
  exact ⟨_, rfl, perm_sortBy _ _⟩

end Supported

section Excerpt

/-- The language on unaccented letters and the dates below. -/
def plainRuntime : Runtime where
  nfkd := id
  isLetterOrNumber := Char.isAlphanum
  lower := fun s => String.ofList (s.toList.map Char.toLower)
  upper := fun s => String.ofList (s.toList.map Char.toUpper)
  localeCompare := text
  parseDate := fun s =>
    [("2020-01-21T15:00:00.000Z", 1579618800000),
      ("2020-10-14T23:00:00.000Z", 1602716400000),
      ("2020-02-20T21:00:00.000Z", 1582232400000),
      ("2020-02-20T21:40:00.000Z", 1582234800000)].lookup s
  utcDate := fun at_ => if at_ < 1582243200000 then "2020-02-20" else "2020-02-21"

def wakingCityRaid : JournalRaid where
  journalRaidId := "1180"
  raidName := "Ny'alotha, the Waking City"
  imageUrl := none
  encounters := [⟨"2368", "Wrathion, the Black Emperor", 1, none⟩, ⟨"2365", "Maut", 2, none⟩]

/-- Two bosses of the generated catalogue, with their raid's window. -/
def wakingCity : Catalogue plainRuntime where
  raids := [wakingCityRaid]
  dungeons := []
  windows := [("nyalotha-the-waking-city",
    ⟨"2020-01-21T15:00:00.000Z", some "2020-10-14T23:00:00.000Z"⟩)]
  nodup_raidIds := by decide
  nodup_bossIds := by decide
  nodup_raidNames := by decide +kernel
  named_apart := by decide +kernel
  nodup_bossNames := by decide +kernel
  ranked_once := by decide +kernel

end Excerpt

end SlashWho.RaidCatalogue
