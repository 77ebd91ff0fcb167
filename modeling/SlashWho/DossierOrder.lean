import SlashWho.DossierTotals

/-!
The displayed raids do not depend on the order the kills are supplied in, as long as the evidence
ordering tells the placed kills apart. The ordering reads a kill under the names of the encounter it
was placed in, so two kills apart only in the names a log gave them are not told apart.
-/

namespace SlashWho.ApplicantDossier

open List ComparatorSort KeyedBuckets RaidCatalogue

section Lists
variable {α : Type*}

theorem set_perm {l₁ l₂ : List α} (h : List.Perm l₁ l₂) {i j : ℕ} {a : α}
    (hi : l₁[i]? = some a) (hj : l₂[j]? = some a) (b : α) :
    List.Perm (l₁.set i b) (l₂.set j b) := by
  have hout : ∀ {l : List α} {i : ℕ} {a : α}, l[i]? = some a →
      List.Perm (a :: l.eraseIdx i) l ∧ List.Perm (b :: l.eraseIdx i) (l.set i b) := by
    intro l i a hat
    obtain ⟨hlt, hget⟩ := List.getElem?_eq_some_iff.mp hat
    have hlt' : i < (l.set i b).length := by
      rw [length_set]
      exact hlt
    have hold := getElem_cons_eraseIdx_perm hlt
    have hnew := getElem_cons_eraseIdx_perm hlt'
    rw [getElem_set_self, eraseIdx_set_eq] at hnew
    rw [hget] at hold
    exact ⟨hold, hnew⟩
  obtain ⟨hold₁, hnew₁⟩ := hout hi
  obtain ⟨hold₂, hnew₂⟩ := hout hj
  have hrest : List.Perm (l₁.eraseIdx i) (l₂.eraseIdx j) :=
    (perm_cons a).mp ((hold₁.trans h).trans hold₂.symm)
  exact (hnew₁.symm.trans (hrest.cons b)).trans hnew₂

theorem eq_of_perm_toList {a b : Option α} (h : List.Perm a.toList b.toList) : a = b := by
  cases a with
  | none =>
    cases b with
    | none => rfl
    | some b => exact absurd h.length_eq (by simp)
  | some a =>
    cases b with
    | none => exact absurd h.length_eq (by simp)
    | some b => rw [singleton_perm_singleton.mp h]

end Lists

section Matching
variable (rt : Runtime) (generated : Generated)

variable {kills : List CatalogueMatchedKill}

theorem mem_candidatesOf {first : DossierRaiderIoFirstKill} {kill : CatalogueMatchedKill} :
    (∃ i, (kill, i) ∈ candidatesOf rt generated first kills) ↔
      kill ∈ kills ∧ isIndexed rt generated first kill = true := by
  unfold candidatesOf
  constructor
  · rintro ⟨i, hin⟩
    rw [mem_filter] at hin
    exact ⟨fst_mem_of_mem_zipIdx hin.1, hin.2⟩
  · rintro ⟨hkill, hindexed⟩
    obtain ⟨i, hi⟩ := mem_iff_getElem?.mp hkill
    exact ⟨i, mem_filter.mpr ⟨mk_mem_zipIdx_iff_getElem?.mpr hi, hindexed⟩⟩

theorem nearestKill_perm (first : DossierRaiderIoFirstKill) {kills' : List CatalogueMatchedKill}
    (hperm : List.Perm kills kills') (hapart : TellsApart (compareKills rt) kills) :
    (nearestKill rt generated first kills).map Match.kill =
      (nearestKill rt generated first kills').map Match.kill := by
  have hholds := nearestKill_holds rt generated first kills
  have hholds' := nearestKill_holds rt generated first kills'
  have hsame : ∀ kill, (∃ i, (kill, i) ∈ candidatesOf rt generated first kills) ↔
      ∃ i, (kill, i) ∈ candidatesOf rt generated first kills' := by
    intro kill
    rw [mem_candidatesOf, mem_candidatesOf, hperm.mem_iff]
  cases hfound : nearestKill rt generated first kills with
  | none =>
    cases hfound' : nearestKill rt generated first kills' with
    | none => rfl
    | some held' =>
      rw [hfound] at hholds
      rw [hfound'] at hholds'
      obtain ⟨hin', hqualified', -⟩ := hholds'
      obtain ⟨i, hin⟩ := (hsame _).mpr ⟨_, hin'⟩
      rw [hholds _ hin] at hqualified'
      cases hqualified'
  | some held =>
    rw [hfound] at hholds
    obtain ⟨hin, hqualified, hbest⟩ := hholds
    obtain ⟨j, hinj⟩ := (hsame _).mp ⟨_, hin⟩
    cases hfound' : nearestKill rt generated first kills' with
    | none =>
      rw [hfound'] at hholds'
      rw [hholds' _ hinj] at hqualified
      cases hqualified
    | some held' =>
      rw [hfound'] at hholds'
      obtain ⟨hin', hqualified', hbest'⟩ := hholds'
      obtain ⟨k, hink⟩ := (hsame _).mpr ⟨_, hin'⟩
      have hfar := hbest _ hink _ hqualified'
      have hfar' := hbest' _ hinj _ hqualified
      unfold Closer at hfar hfar'
      rw [not_or] at hfar hfar'
      have hd : held.distance = held'.distance := by omega
      have hkills : held.kill ∈ kills := ((mem_candidatesOf rt generated).mp ⟨_, hin⟩).1
      have hkills' : held'.kill ∈ kills := ((mem_candidatesOf rt generated).mp ⟨_, hink⟩).1
      have heq : held.kill = held'.kill := by
        by_contra hne
        have hneq := hapart.forall hkills hkills' hne
        cases hcmp : compareKills rt held.kill held'.kill with
        | lt => exact hfar'.2 ⟨hd, hcmp⟩
        | eq => exact hneq hcmp
        | gt => exact hfar.2 ⟨hd.symm, Std.OrientedCmp.lt_of_gt hcmp⟩
      rw [Option.map_some, Option.map_some, heq]

theorem tellsApart_iff_unmatched (kills : List CatalogueMatchedKill) :
    TellsApart (compareKills rt) (kills.map unmatchedKill) ↔ TellsApart (compareKills rt) kills := by
  unfold TellsApart
  rw [pairwise_map]
  rfl

/-- Two stages of matching that differ only in the order of the supplied kills. -/
structure SameKills (state state' : MatchState) : Prop where
  supplied : List.Perm state.supplied state'.supplied
  alone : state.alone = state'.alone
  apart : TellsApart (compareKills rt) state.supplied

variable {withheldKills withheldKills' : List CatalogueMatchedKill}

theorem matchFirst_sameKills (hwithheld : List.Perm withheldKills withheldKills')
    {state state' : MatchState} (h : SameKills rt state state') (first : DossierRaiderIoFirstKill) :
    SameKills rt (matchFirst rt generated withheldKills state first)
      (matchFirst rt generated withheldKills' state' first) := by
  have hnearest := nearestKill_perm rt generated first h.supplied h.apart
  have hany : withheldKills.any (fun withheld => isIndexed rt generated first withheld &&
      withinMatch rt withheld.killedAt first.killedAt) =
      withheldKills'.any (fun withheld => isIndexed rt generated first withheld &&
        withinMatch rt withheld.killedAt first.killedAt) := by
    rw [Bool.eq_iff_iff, any_eq_true, any_eq_true]
    simp only [hwithheld.mem_iff]
  unfold matchFirst firstKillOutcome
  rw [hany]
  cases lookupRaidEncounterByRaiderIoSlugs rt generated first.slugs with
  | none => exact h
  | some metadata =>
    cases hfound : nearestKill rt generated first state.supplied with
    | some held =>
      rw [hfound, Option.map_some, eq_comm, Option.map_eq_some_iff] at hnearest
      obtain ⟨held', hfound', hkill⟩ := hnearest
      have hat := (nearestKill_found rt generated hfound).1
      have hat' := (nearestKill_found rt generated hfound').1
      simp only [hfound']
      rw [hkill] at hat' ⊢
      refine ⟨set_perm h.supplied hat hat' _, h.alone, ?_⟩
      rw [← tellsApart_iff_unmatched, map_unmatchedKill_set hat, tellsApart_iff_unmatched]
      exact h.apart
    | none =>
      rw [hfound, Option.map_none, eq_comm, Option.map_eq_none_iff] at hnearest
      simp only [hnearest]
      split
      · exact h
      · exact h
      · exact h
      · next heq =>
        split at heq
        · cases heq
        · split at heq
          · cases heq
          · split at heq <;> cases heq
      · exact ⟨h.supplied, by rw [h.alone], h.apart⟩
      · exact ⟨h.supplied, h.alone, h.apart⟩

theorem foldl_matchFirst_sameKills (hwithheld : List.Perm withheldKills withheldKills')
    (firsts : List DossierRaiderIoFirstKill) {state state' : MatchState}
    (h : SameKills rt state state') :
    SameKills rt (firsts.foldl (matchFirst rt generated withheldKills) state)
      (firsts.foldl (matchFirst rt generated withheldKills') state') := by
  induction firsts generalizing state state' with
  | nil => exact h
  | cons first rest ih => exact ih (matchFirst_sameKills rt generated hwithheld h first)

end Matching

section Cards
variable (rt : Runtime) (generated : Generated) (input : BuildApplicantDossierInput)

/-- Kills in another order, ahead of kills that keep theirs. -/
structure SameArrangement (kills kills' : List CatalogueMatchedKill) : Prop where
  sorted : sortBy (compareKills rt) kills = sortBy (compareKills rt) kills'
  members : ∀ kill, kill ∈ kills ↔ kill ∈ kills'

theorem bossCard_same {kills kills' : List CatalogueMatchedKill}
    (h : SameArrangement rt kills kills') :
    bossCard rt generated input kills = bossCard rt generated input kills' := by
  have hurls : ∀ url, url ∈ killReportUrls kills ↔ url ∈ killReportUrls kills' := by
    intro url
    unfold killReportUrls
    simp only [mem_filterMap, h.members]
  have hwipes : ∀ wipes, wipesBeside (killReportUrls kills) wipes =
      wipesBeside (killReportUrls kills') wipes := by
    intro wipes
    unfold wipesBeside
    simp only [hurls]
  unfold bossCard eventEntries
  rw [h.sorted]
  simp only [hwipes]

/-- The placed kills of each boss, ahead of the first kills that stand alone. -/
theorem sameArrangement_filter {state state' : MatchState} (h : SameKills rt state state')
    (key : BossKey) :
    SameArrangement rt (state.allKills.filter (fun k => killBossKey k = key))
      (state'.allKills.filter (fun k => killBossKey k = key)) := by
  have hperm := h.supplied.filter (fun k => decide (killBossKey k = key))
  refine ⟨?_, ?_⟩
  · unfold MatchState.allKills
    rw [filter_append, filter_append, h.alone]
    exact sortBy_append_perm _ hperm (h.apart.sublist filter_sublist) _
  · intro kill
    unfold MatchState.allKills
    rw [filter_append, filter_append, h.alone, mem_append, mem_append,
      hperm.mem_iff]

theorem bossCards_same {state state' : MatchState} (h : SameKills rt state state') :
    List.Perm (bossCards rt generated input state.allKills)
      (bossCards rt generated input state'.allKills) := by
  have hmembers : ∀ kill, kill ∈ state.allKills ↔ kill ∈ state'.allKills := by
    intro kill
    unfold MatchState.allKills
    rw [mem_append, mem_append, h.supplied.mem_iff, h.alone]
  have hcards := map_entries_perm killBossKey hmembers
    (fun entry => bossCard rt generated input entry.2)
    (fun entry => bossCard rt generated input entry.2)
    (fun key => bossCard_same rt generated input (sameArrangement_filter rt h key))
  have hflat : ∀ allKills : List CatalogueMatchedKill, bossCards rt generated input allKills =
      ((bucketsBy killBossKey allKills).entries.map
        (fun entry => bossCard rt generated input entry.2)).filterMap id := by
    intro allKills
    unfold bossCards OrderedMap.values
    rw [filterMap_map, filterMap_map]
    rfl
  rw [hflat, hflat]
  exact hcards.filterMap id

end Cards

section Raids
variable {rt : Runtime} (catalogue : Catalogue rt) (input : BuildApplicantDossierInput)

/-- Cards of one dossier in any order: no boss twice, each under a listed encounter. -/
structure CardSet (cards : List AggregatedDossierBoss) : Prop where
  nodup : (cards.map cardKey).Nodup
  listed : ∀ card ∈ cards, ∃ e, Lists rt catalogue.toGenerated e ∧
    cardKey card = (e.raidId, e.bossId) ∧ card.raidName = e.raidName

theorem bossCards_cardSet : CardSet catalogue (bossCards rt catalogue.toGenerated input
    (matchedKills rt catalogue.toGenerated input).allKills) := by
  refine ⟨nodup_cardKeys rt catalogue.toGenerated input _, ?_⟩
  intro card hcard
  obtain ⟨⟨kill, hkill, hkey, hname⟩, -⟩ := mem_bossCards rt catalogue.toGenerated input hcard
  exact ⟨kill.encounter, matchedKills_listed catalogue input hkill, hkey, hname⟩

variable {cards : List AggregatedDossierBoss}

variable {cards' : List AggregatedDossierBoss}

theorem catalogueRaid_same (hperm : List.Perm cards cards') (hnodup : (cards.map cardKey).Nodup)
    (entry : SupportedRaidCatalogueEntry) :
    catalogueRaid rt catalogue.toGenerated input (observedRaids rt catalogue.toGenerated cards)
        entry =
      catalogueRaid rt catalogue.toGenerated input (observedRaids rt catalogue.toGenerated cards')
        entry := by
  have hnodup' : (cards'.map cardKey).Nodup := (hperm.map cardKey).nodup_iff.mp hnodup
  unfold catalogueRaid
  congr 1
  apply map_congr_left
  intro e _
  have hfound := found_card rt catalogue.toGenerated hnodup entry.raid.raidId e.bossId
  have hfound' := found_card rt catalogue.toGenerated hnodup' entry.raid.raidId e.bossId
  have hperm' := hperm.filter (fun card => cardKey card = (entry.raid.raidId, e.bossId))
  rw [← hfound, ← hfound'] at hperm'
  have hsame := eq_of_perm_toList hperm'
  unfold catalogueBoss
  rw [hsame]

instance : Std.TransCmp compareBosses := by
  unfold compareBosses
  infer_instance

instance : Std.TransCmp compareRaids := by
  unfold compareRaids
  infer_instance

theorem compareBosses_apart (hnodup : (cards.map cardKey).Nodup) (raidId : String) :
    TellsApart compareBosses (cards.filter (fun card => card.raidId = raidId)) := by
  have hcards : (cards.filter (fun card => card.raidId = raidId)).Nodup :=
    List.Nodup.filter _ hnodup.of_map
  refine (hcards.imp_of_mem ?_)
  intro a b ha hb hne heq
  rw [mem_filter, decide_eq_true_eq] at ha hb
  unfold compareBosses at heq
  simp only [compareLex_eq_eq] at heq
  have hid : a.boss.metadata.bossId = b.boss.metadata.bossId := eq_of_text_eq heq.2.2.2
  exact hne (inj_on_of_nodup_map hnodup ha.1 hb.1 (Prod.ext (ha.2.trans hb.2.symm) hid))

/-- A raid as it is shown: its data, and its cards in their final order. -/
def settledRaid (raid : ObservedRaid) : ObservedRaid :=
  { raid with bosses := sortBy compareBosses raid.bosses }

theorem shownRaid_settledRaid (raid : ObservedRaid) :
    shownRaid rt catalogue.toGenerated input (settledRaid raid) =
      shownRaid rt catalogue.toGenerated input raid := by
  have hsorted : sortBy compareBosses (sortBy compareBosses raid.bosses) =
      sortBy compareBosses raid.bosses :=
    (pairwise_sortBy compareBosses raid.bosses).insertionSort_eq
  unfold shownRaid settledRaid
  simp only [hsorted]

theorem sortBy_map_settledRaid (raids : List ObservedRaid) :
    (sortBy compareRaids raids).map settledRaid = sortBy compareRaids (raids.map settledRaid) := by
  unfold sortBy
  apply map_insertionSort
  intro a _ b _
  rfl

theorem listed_raidName {e e' : RaidCatalogueEncounter}
    (h : Lists rt catalogue.toGenerated e)
    (h' : Lists rt catalogue.toGenerated e') (hid : e.raidId = e'.raidId) :
    e.raidName = e'.raidName := by
  obtain ⟨raid, hraid, hraidId, hname, -⟩ := h.lookupRaidByName catalogue
  obtain ⟨raid', hraid', hraidId', hname', -⟩ := h'.lookupRaidByName catalogue
  have hsame := lookupRaidByName_inj catalogue hraid hraid' (by rw [hraidId, hraidId', hid])
  rw [← hname, ← hname', hsame]

theorem settled_observedRaid_same (hperm : List.Perm cards cards') (hset : CardSet catalogue cards)
    (raidId : String) :
    (observedRaid rt catalogue.toGenerated
        (raidId, cards.filter (fun card => card.raidId = raidId))).map settledRaid =
      (observedRaid rt catalogue.toGenerated
        (raidId, cards'.filter (fun card => card.raidId = raidId))).map settledRaid := by
  have hfilter := hperm.filter (fun card => decide (card.raidId = raidId))
  have hsorted := sortBy_perm compareBosses hfilter (compareBosses_apart hset.nodup raidId)
  have hname : ∀ card ∈ cards.filter (fun card => card.raidId = raidId),
      ∀ card' ∈ cards.filter (fun card => card.raidId = raidId),
        card.raidName = card'.raidName := by
    intro card hcard card' hcard'
    rw [mem_filter, decide_eq_true_eq] at hcard hcard'
    obtain ⟨e, hlists, hkey, hraidName⟩ := hset.listed card hcard.1
    obtain ⟨e', hlists', hkey', hraidName'⟩ := hset.listed card' hcard'.1
    rw [hraidName, hraidName']
    apply listed_raidName catalogue hlists hlists'
    have hfst : card.raidId = e.raidId := congrArg Prod.fst hkey
    have hfst' : card'.raidId = e'.raidId := congrArg Prod.fst hkey'
    rw [← hfst, ← hfst', hcard.2, hcard'.2]
  unfold observedRaid
  cases hcards : cards.filter (fun card => card.raidId = raidId) with
  | nil =>
    rw [hcards] at hfilter
    rw [hfilter.nil_eq]
  | cons first others =>
    cases hcards' : cards'.filter (fun card => card.raidId = raidId) with
    | nil =>
      rw [hcards, hcards'] at hfilter
      exact absurd hfilter.eq_nil (cons_ne_nil _ _)
    | cons first' others' =>
      have hfirst' : first' ∈ cards.filter (fun card => card.raidId = raidId) := by
        rw [hfilter.mem_iff, hcards']
        exact mem_cons_self
      have hsame := hname first (by rw [hcards]; exact mem_cons_self) first' hfirst'
      rw [hcards, hcards'] at hsorted
      simp only [head?_cons, Option.map_some, settledRaid, hsame, hsorted]

theorem compareRaids_apart (cards : List AggregatedDossierBoss) :
    TellsApart compareRaids
      ((observedRaids rt catalogue.toGenerated cards).map settledRaid) := by
  have hids : ((observedRaids rt catalogue.toGenerated cards).map settledRaid).map
      ObservedRaid.raidId = (bucketsBy AggregatedDossierBoss.raidId cards).keys := by
    rw [map_map]
    exact map_raidId_observedRaids rt catalogue.toGenerated cards
  have hnodup : (((observedRaids rt catalogue.toGenerated cards).map settledRaid).map
      ObservedRaid.raidId).Nodup := by
    rw [hids]
    exact (bucketsBy AggregatedDossierBoss.raidId cards).nodup_keys
  refine (pairwise_map.mp hnodup).imp ?_
  intro a b hne heq
  unfold compareRaids at heq
  simp only [compareLex_eq_eq] at heq
  exact hne (eq_of_text_eq heq.2.2)

theorem raidsWithKills_same (hperm : List.Perm cards cards') (hset : CardSet catalogue cards) :
    raidsWithKills rt catalogue.toGenerated input cards =
      raidsWithKills rt catalogue.toGenerated input cards' := by
  have hshown : ∀ cards : List AggregatedDossierBoss,
      raidsWithKills rt catalogue.toGenerated input cards =
        (sortBy compareRaids ((observedRaids rt catalogue.toGenerated cards).map
          settledRaid)).map (shownRaid rt catalogue.toGenerated input) := by
    intro cards
    unfold raidsWithKills
    rw [← sortBy_map_settledRaid, map_map]
    apply map_congr_left
    intro raid _
    exact (shownRaid_settledRaid catalogue input raid).symm
  have hsettled : ∀ cards : List AggregatedDossierBoss,
      (observedRaids rt catalogue.toGenerated cards).map settledRaid =
        ((bucketsBy AggregatedDossierBoss.raidId cards).entries.map (fun entry =>
          (observedRaid rt catalogue.toGenerated entry).map settledRaid)).filterMap id := by
    intro cards
    unfold observedRaids
    rw [map_filterMap, filterMap_map]
    rfl
  have hobserved : List.Perm ((observedRaids rt catalogue.toGenerated cards).map settledRaid)
      ((observedRaids rt catalogue.toGenerated cards').map settledRaid) := by
    rw [hsettled, hsettled]
    exact (map_entries_perm AggregatedDossierBoss.raidId (fun card => hperm.mem_iff) _ _
      (fun raidId => settled_observedRaid_same catalogue hperm hset raidId)).filterMap id
  rw [hshown, hshown, sortBy_perm compareRaids hobserved (compareRaids_apart catalogue cards)]

end Raids

section Order
variable {rt : Runtime} (catalogue : Catalogue rt) (input : BuildApplicantDossierInput)

/-- The kill as the scan withholds it out of its window, where it does. -/
def outOfWindow (rt : Runtime) (generated : Generated) (supplied : DossierKillEvidence) :
    Option CatalogueMatchedKill :=
  (encounterOfKill rt generated supplied).bind (fun metadata =>
    if currentContentEligibilityByRaidId rt generated supplied.killedAt metadata.raidId =
        some true then
      none
    else some (placedKill supplied metadata))

theorem withheldWarcraftLogsKills_eq (generated : Generated) (kills : List DossierKillEvidence)
    (scan : KillScan) :
    (kills.foldl (scanKill rt generated) scan).withheldWarcraftLogsKills =
      scan.withheldWarcraftLogsKills ++ kills.filterMap (outOfWindow rt generated) := by
  induction kills generalizing scan with
  | nil => simp
  | cons supplied rest ih =>
    have hone : (scanKill rt generated scan supplied).withheldWarcraftLogsKills =
        scan.withheldWarcraftLogsKills ++ (outOfWindow rt generated supplied).toList := by
      unfold scanKill outOfWindow encounterOfKill
      cases catalogueEncounter rt generated supplied.raidName supplied.bossName
          supplied.journalBossId with
      | none =>
        simp only [Option.bind_none, Option.toList_none, append_nil]
        split <;> rfl
      | some metadata =>
        have hkilled : (placedKill supplied metadata).killedAt = supplied.killedAt := rfl
        simp only [Option.bind_some, hkilled]
        rcases eligible_cases (currentContentEligibilityByRaidId rt generated supplied.killedAt
          metadata.raidId) with h | h | h <;> simp [h]
    rw [foldl_cons, ih, hone, append_assoc]
    cases hout : outOfWindow rt generated supplied with
    | none => rw [filterMap_cons_none hout]; rfl
    | some kill => rw [filterMap_cons_some hout]; rfl

/-- Supplied in another order, the kills lead to the same stage of matching. -/
theorem matchedKills_same {kills : List DossierKillEvidence} (hperm : List.Perm input.kills kills)
    (hapart : TellsApart (compareKills rt)
      (input.kills.filterMap (placedFor rt catalogue.toGenerated))) :
    SameKills rt (matchedKills rt catalogue.toGenerated input)
      (matchedKills rt catalogue.toGenerated { input with kills := kills }) := by
  have hplaced : ∀ kills : List DossierKillEvidence,
      (scanKills rt catalogue.toGenerated kills).allKills =
        kills.filterMap (placedFor rt catalogue.toGenerated) := by
    intro kills
    unfold scanKills
    rw [(scanFrom_spec rt catalogue.toGenerated kills _).1, nil_append]
  have hwithheld : ∀ kills : List DossierKillEvidence,
      (scanKills rt catalogue.toGenerated kills).withheldWarcraftLogsKills =
        kills.filterMap (outOfWindow rt catalogue.toGenerated) := by
    intro kills
    unfold scanKills
    rw [withheldWarcraftLogsKills_eq, nil_append]
  unfold matchedKills matchFirsts
  apply foldl_matchFirst_sameKills
  · rw [hwithheld, hwithheld]
    exact hperm.filterMap _
  · refine ⟨?_, rfl, ?_⟩
    · simp only [hplaced]
      exact hperm.filterMap _
    · simp only [hplaced]
      exact hapart

/-- The displayed raids are the same for every order of the supplied kills, when
the evidence ordering tells the placed ones apart. -/
theorem raids_order_free {kills : List DossierKillEvidence} (hperm : List.Perm input.kills kills)
    (hapart : TellsApart (compareKills rt)
      (input.kills.filterMap (placedFor rt catalogue.toGenerated))) :
    (buildApplicantDossier rt catalogue.toGenerated input).map Dossier.raids =
      (buildApplicantDossier rt catalogue.toGenerated { input with kills := kills }).map
        Dossier.raids := by
  have hsame := matchedKills_same catalogue input hperm hapart
  have hcards := bossCards_same rt catalogue.toGenerated input hsame
  have hset := bossCards_cardSet catalogue input
  have hother : bossCards rt catalogue.toGenerated { input with kills := kills }
      (matchedKills rt catalogue.toGenerated { input with kills := kills }).allKills =
      bossCards rt catalogue.toGenerated input
        (matchedKills rt catalogue.toGenerated { input with kills := kills }).allKills := rfl
  unfold buildApplicantDossier
  simp only [hother]
  have hgaps : includeCatalogueGaps { input with kills := kills } = includeCatalogueGaps input :=
    rfl
  rw [hgaps]
  by_cases hshow : includeCatalogueGaps input = true
  · rw [if_pos hshow, if_pos hshow, Option.map_map, Option.map_map]
    congr 1
    funext entries
    apply map_congr_left
    intro entry _
    exact catalogueRaid_same catalogue input hcards hset.nodup entry
  · rw [if_neg hshow, if_neg hshow, Option.map_some, Option.map_some]
    exact congrArg some (raidsWithKills_same catalogue input hcards hset)

end Order

section Tied

/-- One kill under the zone's short name and under the raid's own name, told
apart by the names alone, from logs of two uploaders. -/
def fullNameKill : DossierKillEvidence :=
  { shortZoneKill with
    raidName := "Ny'alotha, the Waking City"
    uploader := some "Second" }

def firstUploaderKill : DossierKillEvidence := { shortZoneKill with uploader := some "First" }

def dossierOf (kills : List DossierKillEvidence) : BuildApplicantDossierInput where
  characters := [ryun]
  kills := kills
  wipes := none
  tierBests := []
  completeWarcraftLogsCharacters := none
  raiderIoFirstKills := []
  limitations := []

def shownUploaders (kills : List DossierKillEvidence) : Option (List (Option String)) :=
  (buildApplicantDossier plainRuntime wakingCity.toGenerated (dossierOf kills)).map
    (fun dossier => dossier.raids.flatMap (fun raid => raid.bosses.flatMap (fun boss =>
      match boss with
      | .kill card => card.firstKill.reports.map ApplicantDossierReport.uploader
      | .wipe _ _ _ | .noLogs _ | .incomplete _ => [])))

theorem shownUploaders_first :
    shownUploaders [firstUploaderKill, fullNameKill] = some [some "First"] := by
  decide +kernel

theorem shownUploaders_second :
    shownUploaders [fullNameKill, firstUploaderKill] = some [some "Second"] := by
  decide +kernel

/-- The kills as supplied are told apart, and yet their order shows. -/
theorem supplied_order_shows :
    compareEvidence plainRuntime firstUploaderKill.toEvidence fullNameKill.toEvidence ≠ .eq ∧
      (buildApplicantDossier plainRuntime wakingCity.toGenerated
          (dossierOf [firstUploaderKill, fullNameKill])).map Dossier.raids ≠
        (buildApplicantDossier plainRuntime wakingCity.toGenerated
          (dossierOf [fullNameKill, firstUploaderKill])).map Dossier.raids := by
  refine ⟨by decide +kernel, ?_⟩
  intro heq
  have hshown : shownUploaders [firstUploaderKill, fullNameKill] =
      shownUploaders [fullNameKill, firstUploaderKill] := by
    unfold shownUploaders
    have hread := congrArg (Option.map (fun raids : List ApplicantDossierRaid =>
      raids.flatMap (fun raid => raid.bosses.flatMap (fun boss =>
        match boss with
        | .kill card => card.firstKill.reports.map ApplicantDossierReport.uploader
        | .wipe _ _ _ | .noLogs _ | .incomplete _ => [])))) heq
    rw [Option.map_map, Option.map_map] at hread
    exact hread
  rw [shownUploaders_first, shownUploaders_second] at hshown
  exact absurd hshown (by decide)

/-- Two nights of one boss, supplied either way round. -/
def laterKill : DossierKillEvidence :=
  { shortZoneKill with killedAt := "2020-02-20T21:40:00.000Z" }

theorem raids_order_free_two_nights :
    (buildApplicantDossier plainRuntime wakingCity.toGenerated
        (dossierOf [shortZoneKill, laterKill])).map Dossier.raids =
      (buildApplicantDossier plainRuntime wakingCity.toGenerated
        (dossierOf [laterKill, shortZoneKill])).map Dossier.raids :=
  raids_order_free wakingCity (dossierOf [shortZoneKill, laterKill])
    (List.Perm.swap laterKill shortZoneKill []) (by
      unfold TellsApart
      decide +kernel)

end Tied

end SlashWho.ApplicantDossier
