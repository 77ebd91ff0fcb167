import SlashWho.DossierCards

/-!
Every supplied kill of a raid zone is accounted for once in a finished dossier,
as often as it is supplied: in one event of its own boss's card, or in the
tally of one limitation. The dossier does not drop a kill it is given twice, so
the sums count supplied kills and not distinct ones.
-/

namespace SlashWho.ApplicantDossier

open List ComparatorSort KeyedBuckets RaidCatalogue Characters

variable (rt : Runtime)

def limitationTally (limitation : DossierLimitation) : ℕ :=
  ((limitation.encounters.getD []).map DossierLimitationEncounter.kills).sum

def limitationKey (limitation : DossierLimitation) : Option WithheldKey :=
  limitation.character.map (fun character =>
    ⟨limitation.source, limitation.code, canonicalCharacterId rt.lower character⟩)

def talliedIn (picks : WithheldKey → Bool) (limitations : List DossierLimitation) : ℕ :=
  (limitations.map (fun limitation =>
    if (limitationKey rt limitation).any picks then limitationTally limitation else 0)).sum

theorem limitationTally_withheldLimitation (reason : WithheldReason) :
    limitationTally (withheldLimitation reason) = tallyCount reason.encounters := by
  unfold limitationTally withheldLimitation tallyCount encounterList
  exact ((perm_sortBy _ _).map DossierLimitationEncounter.kills).sum_eq

theorem talliedIn_withheldLimitations {reasons : WithheldReasons}
    (h : reasons.FiledBy (reasonKey rt)) (picks : WithheldKey → Bool) :
    talliedIn rt picks (reasons.values.map withheldLimitation) = tallied picks reasons := by
  unfold talliedIn tallied OrderedMap.values
  rw [map_map, map_map]
  congr 1
  apply map_congr_left
  intro entry hentry
  have hkey : limitationKey rt (withheldLimitation entry.2) = some entry.1 := by
    have hfiled := h entry.1 entry.2 ((reasons.mem_entries_iff entry.1 entry.2).mp hentry)
    exact congrArg some hfiled
  simp only [Function.comp_apply, hkey, Option.any_some, limitationTally_withheldLimitation]

theorem nodup_limitationKeys {reasons : WithheldReasons} (h : reasons.FiledBy (reasonKey rt)) :
    ((reasons.values.map withheldLimitation).map (limitationKey rt)).Nodup := by
  have hkeys : (reasons.values.map withheldLimitation).map (limitationKey rt) =
      (reasons.values.map (reasonKey rt)).map some := by
    rw [map_map, map_map]
    rfl
  rw [hkeys]
  exact h.nodup_values.map (Option.some_injective _)

variable {rt : Runtime} {generated : Generated}

theorem placedFor_lists {supplied : DossierKillEvidence} {kill : CatalogueMatchedKill}
    (h : placedFor rt generated supplied = some kill) :
    Lists rt generated kill.encounter ∧ kill.raiderIoFirstKill = none := by
  obtain ⟨metadata, hmetadata, hplaced⟩ := Option.bind_eq_some_iff.mp h
  have hlists : Lists rt generated metadata := by
    unfold encounterOfKill catalogueEncounter at hmetadata
    split at hmetadata
    · cases hmetadata
    · exact lookupRaidEncounterForEvidence_lists hmetadata
  split at hplaced
  · obtain rfl := Option.some.inj hplaced
    exact ⟨hlists, rfl⟩
  · cases hplaced

variable {withheldKills : List CatalogueMatchedKill}

theorem aloneKill_lists {supplied : List CatalogueMatchedKill} {first : DossierRaiderIoFirstKill}
    {kill : CatalogueMatchedKill}
    (h : (firstKillOutcome rt generated withheldKills supplied first).aloneKill = some kill) :
    Lists rt generated kill.encounter := by
  unfold firstKillOutcome at h
  split at h
  · cases h
  · next metadata hmetadata =>
    have hlists := lookupRaidEncounterByRaiderIoSlugs_lists hmetadata
    split at h
    · cases h
    · split at h
      · cases h
      · simp only at h
        split at h
        · obtain rfl := Option.some.inj h
          exact hlists
        · split at h <;> cases h

theorem mem_outcomesFrom {firsts : List DossierRaiderIoFirstKill} {state : MatchState}
    {outcome : FirstKillOutcome}
    (h : outcome ∈ outcomesFrom rt generated withheldKills state firsts) :
    ∃ supplied first, outcome = firstKillOutcome rt generated withheldKills supplied first := by
  induction firsts generalizing state with
  | nil => cases h
  | cons first rest ih =>
    rcases mem_cons.mp h with rfl | hrest
    · exact ⟨_, _, rfl⟩
    · exact ih hrest

variable (rt : Runtime) (generated : Generated)

def ApplicantDossierBoss.bossId : ApplicantDossierBoss → String
  | .kill boss => boss.metadata.bossId
  | .wipe metadata _ _ | .noLogs metadata | .incomplete metadata => metadata.bossId

/-- Where the supplied kills and the first kills of a dossier are. -/
structure KillsAccounted (input : BuildApplicantDossierInput) (dossier : Dossier)
    (supplied alone : List CatalogueMatchedKill) (outcomes : List FirstKillOutcome)
    (withheld : List DossierLimitation) : Prop where
  /-- A supplied kill is placed or not, and the placed ones keep their order. -/
  placed : supplied.map unmatchedKill = input.kills.filterMap (placedFor rt generated)
  /-- The events of all cards hold each placed kill and each first kill standing alone once. -/
  shown : List.Perm (dossier.raids.flatMap raidKills) (supplied ++ alone)
  own_card : ∀ raid ∈ dossier.raids, ∀ boss ∈ raid.bosses, ∀ kill ∈ bossKills boss,
    killBossKey kill = (raid.raidId, boss.bossId)
  limitations : dossier.limitations = input.limitations ++ withheld
  one_sentence : (withheld.map (limitationKey rt)).Nodup
  /-- A limitation tallies the kills withheld for its reason and character, and no others. -/
  tallies : ∀ picks : WithheldKey → Bool, (∀ key, picks key = true → key.source = .warcraftLogs) →
    talliedIn rt picks withheld = input.kills.countP (withheldUnder rt generated picks)
  total : supplied.length + talliedIn rt (fun key => key.source = .warcraftLogs) withheld =
    input.kills.countP (isRaidZoneKill rt generated)
  one_outcome : outcomes.length = input.raiderIoFirstKills.length
  matched_once : (outcomes.filterMap FirstKillOutcome.matchedIndex).Nodup
  marked : ∀ (j : ℕ) first, supplied[j]?.bind CatalogueMatchedKill.raiderIoFirstKill = some first ↔
    ∃ i : ℕ, input.raiderIoFirstKills[i]? = some first ∧
      outcomes[i]?.bind FirstKillOutcome.matchedIndex = some j
  alone_eq : alone = outcomes.filterMap FirstKillOutcome.aloneKill

section Matching

variable (input : BuildApplicantDossierInput)

/-- The kills of the scan, before a first kill is matched with any. -/
def scannedKills : MatchState where
  supplied := (scanKills rt generated input.kills).allKills
  alone := []
  withheldKillReasons := (scanKills rt generated input.kills).withheldKillReasons

theorem scannedKills_supplied :
    (scannedKills rt generated input).supplied = input.kills.filterMap (placedFor rt generated) :=
  (scanFrom_spec rt generated input.kills ⟨[], [], .empty⟩).1

theorem tallied_scannedKills (picks : WithheldKey → Bool) :
    tallied picks (scannedKills rt generated input).withheldKillReasons =
      input.kills.countP (withheldUnder rt generated picks) := by
  obtain ⟨-, htally, -⟩ := scanFrom_spec rt generated input.kills ⟨[], [], .empty⟩
  have hnone : tallied picks (.empty : WithheldReasons) = 0 := rfl
  exact (htally picks).trans (by rw [hnone, Nat.zero_add])

theorem placed_unmatched {kill : CatalogueMatchedKill}
    (h : kill ∈ input.kills.filterMap (placedFor rt generated)) :
    kill.raiderIoFirstKill = none := by
  obtain ⟨supplied, -, hfor⟩ := mem_filterMap.mp h
  exact (placedFor_lists hfor).2

theorem scannedKills_unmarked (j : ℕ) :
    (scannedKills rt generated input).annotationAt j = none := by
  unfold MatchState.annotationAt
  rw [scannedKills_supplied]
  cases hat : (input.kills.filterMap (placedFor rt generated))[j]? with
  | none => rfl
  | some kill => exact placed_unmatched rt generated input (mem_of_getElem? hat)

def matchOutcomes : List FirstKillOutcome :=
  outcomesFrom rt generated (scanKills rt generated input.kills).withheldWarcraftLogsKills
    (scannedKills rt generated input) input.raiderIoFirstKills

theorem matchedKills_run :
    MatchRun rt (scannedKills rt generated input) (matchedKills rt generated input)
      input.raiderIoFirstKills (matchOutcomes rt generated input) :=
  matchRun rt generated _ input.raiderIoFirstKills _

theorem matchedKills_filed :
    (matchedKills rt generated input).withheldKillReasons.FiledBy (reasonKey rt) := by
  obtain ⟨-, -, hfiled⟩ := scanFrom_spec rt generated input.kills ⟨[], [], .empty⟩
  exact (matchedKills_run rt generated input).filed (hfiled (OrderedMap.filedBy_empty _))

theorem matchedKills_placed : (matchedKills rt generated input).supplied.map unmatchedKill =
    input.kills.filterMap (placedFor rt generated) := by
  rw [(matchedKills_run rt generated input).same_kills, scannedKills_supplied]
  conv_rhs => rw [← map_id (input.kills.filterMap (placedFor rt generated))]
  apply map_congr_left
  intro kill hkill
  unfold unmatchedKill
  rw [← placed_unmatched rt generated input hkill]
  rfl

def withheldLimitations : List DossierLimitation :=
  (matchedKills rt generated input).withheldKillReasons.values.map withheldLimitation

theorem talliedIn_matchedKills (picks : WithheldKey → Bool)
    (hpicks : ∀ key, picks key = true → key.source = .warcraftLogs) :
    talliedIn rt picks (withheldLimitations rt generated input) =
      input.kills.countP (withheldUnder rt generated picks) := by
  unfold withheldLimitations
  rw [talliedIn_withheldLimitations rt (matchedKills_filed rt generated input),
    (matchedKills_run rt generated input).tallies picks hpicks, tallied_scannedKills]

end Matching

variable {rt} (catalogue : Catalogue rt) (input : BuildApplicantDossierInput)

theorem matchedKills_listed {kill : CatalogueMatchedKill}
    (h : kill ∈ (matchedKills rt catalogue.toGenerated input).allKills) :
    Lists rt catalogue.toGenerated kill.encounter := by
  have hrun := matchedKills_run rt catalogue.toGenerated input
  rcases mem_append.mp h with hin | hin
  · have hkept : unmatchedKill kill ∈ input.kills.filterMap (placedFor rt catalogue.toGenerated) := by
      rw [← matchedKills_placed]
      exact mem_map_of_mem hin
    obtain ⟨supplied, -, hfor⟩ := mem_filterMap.mp hkept
    exact (placedFor_lists hfor).1
  · change kill ∈ (matchedKills rt catalogue.toGenerated input).alone at hin
    rw [hrun.alone] at hin
    obtain ⟨outcome, houtcome, halone⟩ := mem_filterMap.mp hin
    obtain ⟨supplied, first, rfl⟩ := mem_outcomesFrom houtcome
    exact aloneKill_lists halone

theorem bossCards_listed {card : AggregatedDossierBoss}
    (h : card ∈ bossCards rt catalogue.toGenerated input
      (matchedKills rt catalogue.toGenerated input).allKills) :
    ∃ e, Lists rt catalogue.toGenerated e ∧ cardKey card = (e.raidId, e.bossId) := by
  obtain ⟨⟨kill, hkill, hkey, -⟩, -⟩ := mem_bossCards rt catalogue.toGenerated input h
  exact ⟨kill.encounter, matchedKills_listed catalogue input hkill, hkey⟩

variable {cards : List AggregatedDossierBoss}

theorem raidsWithKills_own_card
    (hcards : ∀ card ∈ cards, ∀ kill ∈ cardKills card, killBossKey kill = cardKey card) :
    ∀ raid ∈ raidsWithKills rt catalogue.toGenerated input cards, ∀ boss ∈ raid.bosses,
      ∀ kill ∈ bossKills boss, killBossKey kill = (raid.raidId, boss.bossId) := by
  intro raid hraid boss hboss kill hkill
  obtain ⟨observed, hobserved, rfl⟩ := mem_map.mp hraid
  obtain ⟨card, hcard, rfl⟩ := mem_map.mp hboss
  rw [mem_sortBy] at hcard hobserved
  obtain ⟨entry, hentry, hbuilt⟩ := mem_filterMap.mp hobserved
  have hfilter := ((mem_entries_bucketsBy AggregatedDossierBoss.raidId).mp hentry).1
  obtain ⟨first, -, rfl⟩ := Option.map_eq_some_iff.mp hbuilt
  have hin : card ∈ cards.filter (fun card => card.raidId = entry.1) := by
    rw [← hfilter]
    exact hcard
  rw [mem_filter, decide_eq_true_eq] at hin
  have hkey := hcards card hin.1 kill hkill
  rw [hkey]
  exact Prod.ext hin.2 rfl

theorem catalogueRaids_own_card {entries : List SupportedRaidCatalogueEntry}
    (hnodup : (cards.map cardKey).Nodup)
    (hcards : ∀ card ∈ cards, ∀ kill ∈ cardKills card, killBossKey kill = cardKey card) :
    ∀ raid ∈ entries.map (catalogueRaid rt catalogue.toGenerated input
        (observedRaids rt catalogue.toGenerated cards)), ∀ boss ∈ raid.bosses,
      ∀ kill ∈ bossKills boss, killBossKey kill = (raid.raidId, boss.bossId) := by
  intro raid hraid boss hboss kill hkill
  obtain ⟨entry, -, rfl⟩ := mem_map.mp hraid
  obtain ⟨e, -, rfl⟩ := mem_map.mp hboss
  have hshown := bossKills_catalogueBoss rt catalogue.toGenerated input hnodup
    entry.raid.raidId e
  have hin := hkill
  change kill ∈ bossKills (catalogueBoss rt catalogue.toGenerated input
    ((observedRaids rt catalogue.toGenerated cards).find?
      (fun raid => raid.raidId = entry.raid.raidId)) entry.raid.raidId e) at hin
  rw [hshown] at hin
  obtain ⟨card, hcard, hheld⟩ := mem_flatMap.mp hin
  rw [mem_filter, decide_eq_true_eq] at hcard
  rw [hcards card hcard.1 kill hheld, hcard.2]
  have hid : ∀ observed : Option ObservedRaid,
      (catalogueBoss rt catalogue.toGenerated input observed entry.raid.raidId e).bossId =
        e.bossId := by
    intro observed
    unfold catalogueBoss
    cases hfound : observed.bind (fun raid =>
        raid.bosses.find? (fun card => card.boss.metadata.bossId = e.bossId)) with
    | some found =>
      obtain ⟨raid, -, hfind⟩ := Option.bind_eq_some_iff.mp hfound
      have hsame : found.boss.metadata.bossId = e.bossId := by
        simpa using find?_some hfind
      exact hsame
    | none =>
      simp only
      split
      · rfl
      · split <;> rfl
  exact Prod.ext rfl (hid _).symm

/-- Any raids that show every card's kills, each under its own boss, account for them. -/
theorem killsAccounted_of_shown {raids : List ApplicantDossierRaid}
    (hshown : List.Perm (raids.flatMap raidKills)
      ((bossCards rt catalogue.toGenerated input
        (matchedKills rt catalogue.toGenerated input).allKills).flatMap cardKills))
    (hown : ∀ raid ∈ raids, ∀ boss ∈ raid.bosses, ∀ kill ∈ bossKills boss,
      killBossKey kill = (raid.raidId, boss.bossId)) :
    KillsAccounted rt catalogue.toGenerated input
      ⟨raids, input.limitations ++ withheldLimitations rt catalogue.toGenerated input⟩
      (matchedKills rt catalogue.toGenerated input).supplied
      (matchedKills rt catalogue.toGenerated input).alone
      (matchOutcomes rt catalogue.toGenerated input)
      (withheldLimitations rt catalogue.toGenerated input) := by
  have hrun := matchedKills_run rt catalogue.toGenerated input
  have htallies := talliedIn_matchedKills rt catalogue.toGenerated input
  refine ⟨matchedKills_placed rt catalogue.toGenerated input,
    hshown.trans (bossCards_perm rt catalogue.toGenerated input _), hown, rfl,
    nodup_limitationKeys rt (matchedKills_filed rt catalogue.toGenerated input), htallies, ?_,
    hrun.length_eq, hrun.matched_once, ?_, hrun.alone⟩
  · have hlength : (matchedKills rt catalogue.toGenerated input).supplied.length =
        (input.kills.filterMap (placedFor rt catalogue.toGenerated)).length := by
      rw [← matchedKills_placed, length_map]
    rw [hlength, htallies _ (fun key hkey => by simpa using hkey)]
    exact placed_add_withheld rt catalogue.toGenerated input.kills
  · intro j first
    have hmarked := hrun.marked j first
    rw [scannedKills_unmarked] at hmarked
    simpa [MatchState.annotationAt] using hmarked

/-- The dossier accounts for every supplied kill of a raid zone once for each
time it is supplied, with catalogue gaps drawn or not. -/
theorem killsAccounted :
    ∃ dossier, buildApplicantDossier rt catalogue.toGenerated input = some dossier ∧
      ∃ supplied alone outcomes withheld,
        KillsAccounted rt catalogue.toGenerated input dossier supplied alone outcomes
          withheld := by
  have hcards : ∀ card ∈ bossCards rt catalogue.toGenerated input
      (matchedKills rt catalogue.toGenerated input).allKills,
      ∀ kill ∈ cardKills card, killBossKey kill = cardKey card :=
    fun card hcard => (mem_bossCards rt catalogue.toGenerated input hcard).2
  unfold buildApplicantDossier
  simp only
  by_cases hgaps : includeCatalogueGaps input = true
  · obtain ⟨entries, hentries, hperm⟩ := supportedRaidCatalogue_spec catalogue
    rw [if_pos hgaps, hentries]
    have hnodup := nodup_cardKeys rt catalogue.toGenerated input
      (matchedKills rt catalogue.toGenerated input).allKills
    refine ⟨_, rfl, _, _, _, _, killsAccounted_of_shown catalogue input ?_ ?_⟩
    · exact catalogueRaids_perm input catalogue hnodup
        (fun card hcard => bossCards_listed catalogue input hcard) hperm
    · exact catalogueRaids_own_card catalogue input hnodup hcards
  · rw [if_neg hgaps]
    refine ⟨_, rfl, _, _, _, _, killsAccounted_of_shown catalogue input ?_ ?_⟩
    · exact raidsWithKills_perm rt catalogue.toGenerated input _
    · exact raidsWithKills_own_card catalogue input hcards

/-- A kill of a raid the catalogue does not hold, given twice. -/
def unknownRaidKill : DossierKillEvidence :=
  { shortZoneKill with raidName := "Naxxramas", bossName := "Patchwerk", bossOrder := 1 }

def suppliedTwice : BuildApplicantDossierInput where
  characters := [ryun]
  kills := [unknownRaidKill, unknownRaidKill]
  wipes := none
  tierBests := []
  completeWarcraftLogsCharacters := none
  raiderIoFirstKills := []
  limitations := []

/-- One distinct kill of a raid zone, tallied as two. -/
theorem suppliedTwice_tallied_twice :
    suppliedTwice.kills.dedup.length = 1 ∧
      suppliedTwice.kills.countP (isRaidZoneKill plainRuntime wakingCity.toGenerated) = 2 ∧
      (buildApplicantDossier plainRuntime wakingCity.toGenerated suppliedTwice).map
        (fun dossier => (dossier.raids.flatMap raidKills).length +
          (dossier.limitations.map limitationTally).sum) = some 2 := by
  decide +kernel

end SlashWho.ApplicantDossier
