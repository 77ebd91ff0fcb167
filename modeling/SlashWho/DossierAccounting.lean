import SlashWho.KillMatching

/-!
Where the scan and the matching loop leave every supplied kill. The scan places
a kill of a raid zone or tallies it once under its reason and character. A
first kill then marks at most one placed kill, which had no mark before, or
adds a kill of its own behind them, and no mark or tally of a supplied kill is
ever lost.
-/

namespace SlashWho.ApplicantDossier

open List RaidCatalogue Characters

variable (rt : Runtime)

def tallyCount (tally : EncounterTally) : ℕ :=
  (tally.values.map DossierLimitationEncounter.kills).sum

theorem tallyCount_tallyEncounter (tally : EncounterTally) (raidName bossName : String) :
    tallyCount (tallyEncounter tally raidName bossName) = tallyCount tally + 1 := by
  have hcount : ∀ tally : EncounterTally,
      tallyCount tally = (tally.entries.map (fun entry => entry.2.kills)).sum := by
    intro tally
    unfold tallyCount OrderedMap.values
    rw [map_map]
    rfl
  have hupdate := tally.sum_entries_update (raidName ++ "\x00" ++ bossName)
    ⟨raidName, some bossName, 0⟩ (fun entry => { entry with kills := entry.kills + 1 })
    (fun entry => entry.2.kills) rfl
  rw [hcount, hcount]
  unfold tallyEncounter
  simp only at hupdate ⊢
  omega

def reasonKey (reason : WithheldReason) : WithheldKey :=
  ⟨reason.source, reason.code, canonicalCharacterId rt.lower reason.character⟩

def tallied (picks : WithheldKey → Bool) (reasons : WithheldReasons) : ℕ :=
  (reasons.entries.map (fun entry =>
    if picks entry.1 then tallyCount entry.2.encounters else 0)).sum

theorem tallied_withhold (picks : WithheldKey → Bool) (reasons : WithheldReasons)
    (code : String) (character : CharacterKey) (raidName bossName : String)
    (source : LimitationSource) :
    tallied picks (withhold rt reasons code character raidName bossName source) =
      tallied picks reasons +
        if picks ⟨source, code, canonicalCharacterId rt.lower character⟩ then 1 else 0 := by
  have hupdate := reasons.sum_entries_update
    ⟨source, code, canonicalCharacterId rt.lower character⟩ ⟨source, character, code, .empty⟩
    (fun reason =>
      { reason with encounters := tallyEncounter reason.encounters raidName bossName })
    (fun entry => if picks entry.1 then tallyCount entry.2.encounters else 0)
    (by split <;> rfl)
  unfold tallied withhold
  simp only [tallyCount_tallyEncounter] at hupdate ⊢
  split at hupdate
  · next hpick =>
    rw [if_pos hpick]
    omega
  · next hpick =>
    rw [if_neg hpick]
    omega

theorem filedBy_withhold {reasons : WithheldReasons} (h : reasons.FiledBy (reasonKey rt))
    (code : String) (character : CharacterKey) (raidName bossName : String)
    (source : LimitationSource) :
    (withhold rt reasons code character raidName bossName source).FiledBy (reasonKey rt) := by
  refine h.set ?_
  have hkey : reasonKey rt ((reasons.get?
      ⟨source, code, canonicalCharacterId rt.lower character⟩).getD
        ⟨source, character, code, .empty⟩) =
      ⟨source, code, canonicalCharacterId rt.lower character⟩ := by
    cases hget : reasons.get? ⟨source, code, canonicalCharacterId rt.lower character⟩ with
    | none => rfl
    | some reason => exact h _ _ hget
  exact hkey

variable (generated : Generated)

variable (supplied : DossierKillEvidence)

def isRaidZoneKill : Bool :=
  !isNonRaidZone rt generated supplied.raidName

def encounterOfKill : Option RaidCatalogueEncounter :=
  catalogueEncounter rt generated supplied.raidName supplied.bossName supplied.journalBossId

/-- The kill as a card shows it, where it is shown. -/
def placedFor : Option CatalogueMatchedKill :=
  (encounterOfKill rt generated supplied).bind (fun metadata =>
    if currentContentEligibilityByRaidId rt generated supplied.killedAt metadata.raidId =
        some true then
      some (placedKill supplied metadata)
    else none)

def withheldFor : Option String :=
  match encounterOfKill rt generated supplied with
  | none => if isNonRaidZone rt generated supplied.raidName then none
      else some "unmatched_encounter"
  | some metadata =>
    match currentContentEligibilityByRaidId rt generated supplied.killedAt metadata.raidId with
    | some true => none
    | eligible => some (withheldCode eligible)

/-- Whether a kill is withheld under a reason the predicate picks. -/
def withheldUnder (picks : WithheldKey → Bool) (supplied : DossierKillEvidence) : Bool :=
  (withheldFor rt generated supplied).any (fun code =>
    picks ⟨.warcraftLogs, code, canonicalCharacterId rt.lower supplied.character⟩)

theorem eligible_cases (eligible : Option Bool) :
    eligible = none ∨ eligible = some false ∨ eligible = some true := by
  rcases eligible with _ | _ | _ <;> simp

/-- A kill of a raid zone is either placed or withheld, and no other kill is either. -/
theorem placed_or_withheld :
    (placedFor rt generated supplied).toList.length +
        (if (withheldFor rt generated supplied).isSome then 1 else 0) =
      if isRaidZoneKill rt generated supplied then 1 else 0 := by
  unfold placedFor withheldFor isRaidZoneKill
  cases hmeta : encounterOfKill rt generated supplied with
  | none => cases isNonRaidZone rt generated supplied.raidName <;> simp
  | some metadata =>
    have hraid : isNonRaidZone rt generated supplied.raidName = false := by
      unfold encounterOfKill catalogueEncounter at hmeta
      split at hmeta
      · cases hmeta
      · next h => simpa using h
    simp only [hraid, Option.bind_some]
    rcases eligible_cases (currentContentEligibilityByRaidId rt generated supplied.killedAt
      metadata.raidId) with h | h | h <;> simp [h]

theorem scanKill_spec (scan : KillScan) (supplied : DossierKillEvidence) :
    (scanKill rt generated scan supplied).allKills =
        scan.allKills ++ (placedFor rt generated supplied).toList ∧
      (∀ picks, tallied picks (scanKill rt generated scan supplied).withheldKillReasons =
        tallied picks scan.withheldKillReasons +
          (withheldUnder rt generated picks supplied).toNat) ∧
      (scan.withheldKillReasons.FiledBy (reasonKey rt) →
        (scanKill rt generated scan supplied).withheldKillReasons.FiledBy (reasonKey rt)) := by
  have htally : ∀ (picks : WithheldKey → Bool) (code raidName bossName : String),
      tallied picks (withhold rt scan.withheldKillReasons code supplied.character raidName
        bossName .warcraftLogs) = tallied picks scan.withheldKillReasons +
          (picks ⟨.warcraftLogs, code,
            canonicalCharacterId rt.lower supplied.character⟩).toNat := by
    intro picks code raidName bossName
    rw [tallied_withhold]
    cases picks ⟨.warcraftLogs, code, canonicalCharacterId rt.lower supplied.character⟩ <;> rfl
  unfold scanKill withheldUnder placedFor withheldFor encounterOfKill
  cases catalogueEncounter rt generated supplied.raidName supplied.bossName
      supplied.journalBossId with
  | none =>
    cases isNonRaidZone rt generated supplied.raidName with
    | true => simp
    | false =>
      refine ⟨by simp, ?_, fun h => filedBy_withhold rt h _ _ _ _ _⟩
      intro picks
      exact htally picks _ _ _
  | some metadata =>
    simp only [Option.bind_some]
    change _ ∧ _ ∧ _
    have hkilled : (placedKill supplied metadata).killedAt = supplied.killedAt := rfl
    rw [hkilled]
    cases currentContentEligibilityByRaidId rt generated supplied.killedAt metadata.raidId with
    | none =>
      refine ⟨by simp, ?_, fun h => filedBy_withhold rt h _ _ _ _ _⟩
      intro picks
      exact htally picks _ _ _
    | some eligible =>
      cases eligible with
      | true => simp
      | false =>
        refine ⟨by simp, ?_, fun h => filedBy_withhold rt h _ _ _ _ _⟩
        intro picks
        exact htally picks _ _ _

theorem scanFrom_spec (kills : List DossierKillEvidence) (scan : KillScan) :
    (kills.foldl (scanKill rt generated) scan).allKills =
        scan.allKills ++ kills.filterMap (placedFor rt generated) ∧
      (∀ picks, tallied picks (kills.foldl (scanKill rt generated) scan).withheldKillReasons =
        tallied picks scan.withheldKillReasons +
          kills.countP (withheldUnder rt generated picks)) ∧
      (scan.withheldKillReasons.FiledBy (reasonKey rt) →
        (kills.foldl (scanKill rt generated) scan).withheldKillReasons.FiledBy (reasonKey rt)) := by
  induction kills generalizing scan with
  | nil => simp
  | cons supplied rest ih =>
    obtain ⟨hkills, htally, hfiled⟩ := scanKill_spec rt generated scan supplied
    obtain ⟨ihkills, ihtally, ihfiled⟩ := ih (scanKill rt generated scan supplied)
    refine ⟨?_, ?_, fun h => ihfiled (hfiled h)⟩
    · rw [foldl_cons, ihkills, hkills]
      cases hplaced : placedFor rt generated supplied with
      | none => rw [filterMap_cons_none hplaced]; simp
      | some kill => rw [filterMap_cons_some hplaced]; simp
    · intro picks
      rw [foldl_cons, ihtally, htally, countP_cons]
      cases withheldUnder rt generated picks supplied with
      | true => simp; omega
      | false => simp

/-- The placed kills and the withheld ones number the kills of raid zones. -/
theorem placed_add_withheld (kills : List DossierKillEvidence) :
    (kills.filterMap (placedFor rt generated)).length +
        kills.countP (withheldUnder rt generated (fun key => key.source = .warcraftLogs)) =
      kills.countP (isRaidZoneKill rt generated) := by
  induction kills with
  | nil => rfl
  | cons supplied rest ih =>
    have hone := placed_or_withheld rt generated supplied
    have hunder : (withheldUnder rt generated (fun key => key.source = .warcraftLogs) supplied) =
        (withheldFor rt generated supplied).isSome := by
      unfold withheldUnder
      cases withheldFor rt generated supplied <;> simp
    have hlength : ((supplied :: rest).filterMap (placedFor rt generated)).length =
        (placedFor rt generated supplied).toList.length +
          (rest.filterMap (placedFor rt generated)).length := by
      rw [filterMap_cons]
      cases placedFor rt generated supplied with
      | none => simp
      | some kill => simp only [length_cons, Option.toList_some, length_nil]; omega
    rw [countP_cons, countP_cons, hunder, hlength]
    omega

def FirstKillOutcome.matchedIndex : FirstKillOutcome → Option ℕ
  | .matched found => some found.index
  | .unplaced | .plain | .alone _ | .copyWithheld | .withheld _ _ => none

def FirstKillOutcome.aloneKill : FirstKillOutcome → Option CatalogueMatchedKill
  | .alone kill => some kill
  | .unplaced | .matched _ | .plain | .copyWithheld | .withheld _ _ => none

def unmatchedKill (kill : CatalogueMatchedKill) : CatalogueMatchedKill :=
  { kill with raiderIoFirstKill := none }

variable {kills : List CatalogueMatchedKill}

/-- Marking a kill where it stands changes nothing else about the list. -/
theorem map_unmatchedKill_set {i : ℕ} {kill : CatalogueMatchedKill} (hat : kills[i]? = some kill)
    (first : DossierRaiderIoFirstKill) :
    (kills.set i { kill with raiderIoFirstKill := some first }).map unmatchedKill =
      kills.map unmatchedKill := by
  obtain ⟨hlt, hget⟩ := List.getElem?_eq_some_iff.mp hat
  have hlt' : i < (kills.map unmatchedKill).length := by
    rw [length_map]
    exact hlt
  have hsame : unmatchedKill { kill with raiderIoFirstKill := some first } =
      (kills.map unmatchedKill)[i] := by
    rw [getElem_map, hget]
    rfl
  rw [map_set, hsame, set_getElem_self]

def MatchState.annotationAt (state : MatchState) (j : ℕ) : Option DossierRaiderIoFirstKill :=
  state.supplied[j]?.bind CatalogueMatchedKill.raiderIoFirstKill

variable {first : DossierRaiderIoFirstKill}

theorem nearestKill_found {found : Match} (h : nearestKill rt generated first kills = some found) :
    kills[found.index]? = some found.kill ∧ found.kill.raiderIoFirstKill = none := by
  have hholds := nearestKill_holds rt generated first kills
  rw [h] at hholds
  obtain ⟨hin, hqualified, -⟩ := hholds
  have hidx := (mem_filter.mp hin).1
  refine ⟨mk_mem_zipIdx_iff_getElem?.mp hidx, ?_⟩
  unfold qualified at hqualified
  have hfree := (Option.filter_eq_some_iff.mp hqualified).2
  rw [Bool.and_eq_true_iff] at hfree
  simpa using hfree.1

theorem firstKillOutcome_matched {withheldKills supplied : List CatalogueMatchedKill}
    {found : Match}
    (h : firstKillOutcome rt generated withheldKills supplied first = .matched found) :
    nearestKill rt generated first supplied = some found := by
  unfold firstKillOutcome at h
  split at h
  · cases h
  · split at h
    · next hfound =>
      rw [hfound, FirstKillOutcome.matched.inj h]
    · simp only at h
      split at h
      · cases h
      · split at h
        · cases h
        · split at h <;> cases h

variable (withheldKills : List CatalogueMatchedKill)

/-- What one first kill changes: at most one kill's mark, at most one kill behind them. -/
structure MatchStep (state next : MatchState) (first : DossierRaiderIoFirstKill)
    (outcome : FirstKillOutcome) : Prop where
  same_kills : next.supplied.map unmatchedKill = state.supplied.map unmatchedKill
  unmarked : ∀ j, outcome.matchedIndex = some j → state.annotationAt j = none
  marked : ∀ j, next.annotationAt j =
    if outcome.matchedIndex = some j then some first else state.annotationAt j
  alone : next.alone = state.alone ++ outcome.aloneKill.toList
  tallies : ∀ picks : WithheldKey → Bool, (∀ key, picks key = true → key.source = .warcraftLogs) →
    tallied picks next.withheldKillReasons = tallied picks state.withheldKillReasons
  filed : state.withheldKillReasons.FiledBy (reasonKey rt) →
    next.withheldKillReasons.FiledBy (reasonKey rt)

theorem matchFirst_step (state : MatchState) (first : DossierRaiderIoFirstKill) :
    MatchStep rt state (matchFirst rt generated withheldKills state first) first
      (firstKillOutcome rt generated withheldKills state.supplied first) := by
  have hstays : ∀ outcome : FirstKillOutcome, outcome.matchedIndex = none →
      outcome.aloneKill = none → MatchStep rt state state first outcome := by
    intro outcome hindex halone
    refine ⟨rfl, ?_, ?_, ?_, fun _ _ => rfl, id⟩
    · intro j hj
      rw [hindex] at hj
      cases hj
    · intro j
      rw [hindex, if_neg (by simp)]
    · rw [halone]
      simp
  unfold matchFirst
  cases houtcome : firstKillOutcome rt generated withheldKills state.supplied first with
  | unplaced => exact hstays _ rfl rfl
  | plain => exact hstays _ rfl rfl
  | copyWithheld => exact hstays _ rfl rfl
  | matched found =>
    obtain ⟨hat, hfree⟩ := nearestKill_found rt generated
      (firstKillOutcome_matched rt generated houtcome)
    obtain ⟨hlt, hget⟩ := List.getElem?_eq_some_iff.mp hat
    refine ⟨?_, ?_, ?_, by simp [FirstKillOutcome.aloneKill], fun _ _ => rfl, id⟩
    · exact map_unmatchedKill_set hat first
    · intro j hj
      obtain rfl := Option.some.inj hj
      unfold MatchState.annotationAt
      rw [hat]
      exact hfree
    · intro j
      unfold MatchState.annotationAt
      change (state.supplied.set found.index _)[j]?.bind _ = _
      rw [getElem?_set]
      by_cases hj : found.index = j
      · subst hj
        simp [FirstKillOutcome.matchedIndex, hlt]
      · simp [FirstKillOutcome.matchedIndex, hj]
  | alone kill =>
    refine ⟨rfl, ?_, ?_, rfl, fun _ _ => rfl, id⟩
    · intro j hj
      cases hj
    · intro j
      rfl
  | withheld code kill =>
    refine ⟨rfl, ?_, ?_, by simp [FirstKillOutcome.aloneKill], ?_, ?_⟩
    · intro j hj
      cases hj
    · intro j
      rfl
    · intro picks hpicks
      change tallied picks (withhold rt _ _ _ _ _ _) = _
      rw [tallied_withhold]
      cases hpick : picks ⟨.raiderio, code, canonicalCharacterId rt.lower kill.character⟩ with
      | false => simp
      | true => cases hpicks _ hpick
    · exact fun h => filedBy_withhold rt h _ _ _ _ _

def outcomesFrom (state : MatchState) : List DossierRaiderIoFirstKill → List FirstKillOutcome
  | [] => []
  | first :: rest =>
    firstKillOutcome rt generated withheldKills state.supplied first ::
      outcomesFrom (matchFirst rt generated withheldKills state first) rest

/-- What the whole loop changes. -/
structure MatchRun (state final : MatchState) (firsts : List DossierRaiderIoFirstKill)
    (outcomes : List FirstKillOutcome) : Prop where
  length_eq : outcomes.length = firsts.length
  same_kills : final.supplied.map unmatchedKill = state.supplied.map unmatchedKill
  matched_once : (outcomes.filterMap FirstKillOutcome.matchedIndex).Nodup
  unmarked : ∀ j ∈ outcomes.filterMap FirstKillOutcome.matchedIndex, state.annotationAt j = none
  marked : ∀ j first, final.annotationAt j = some first ↔ state.annotationAt j = some first ∨
    ∃ i : ℕ, firsts[i]? = some first ∧ outcomes[i]?.bind FirstKillOutcome.matchedIndex = some j
  alone : final.alone = state.alone ++ outcomes.filterMap FirstKillOutcome.aloneKill
  tallies : ∀ picks : WithheldKey → Bool, (∀ key, picks key = true → key.source = .warcraftLogs) →
    tallied picks final.withheldKillReasons = tallied picks state.withheldKillReasons
  filed : state.withheldKillReasons.FiledBy (reasonKey rt) →
    final.withheldKillReasons.FiledBy (reasonKey rt)

theorem matchRun (firsts : List DossierRaiderIoFirstKill) (state : MatchState) :
    MatchRun rt state (firsts.foldl (matchFirst rt generated withheldKills) state) firsts
      (outcomesFrom rt generated withheldKills state firsts) := by
  induction firsts generalizing state with
  | nil => exact ⟨rfl, rfl, nodup_nil, by simp [outcomesFrom], by simp, by simp [outcomesFrom],
      fun _ _ => rfl, id⟩
  | cons first rest ih =>
    have hstep := matchFirst_step rt generated withheldKills state first
    have hrun := ih (matchFirst rt generated withheldKills state first)
    rw [foldl_cons]
    unfold outcomesFrom
    -- A place the rest of the loop matches is unmarked after this step, so it is another one.
    have hother : ∀ j, (firstKillOutcome rt generated withheldKills state.supplied
        first).matchedIndex = some j →
        j ∉ (outcomesFrom rt generated withheldKills
          (matchFirst rt generated withheldKills state first) rest).filterMap
            FirstKillOutcome.matchedIndex := by
      intro j hj hin
      have hunmarked := hrun.unmarked j hin
      rw [hstep.marked, if_pos hj] at hunmarked
      cases hunmarked
    refine ⟨by simp [hrun.length_eq], hrun.same_kills.trans hstep.same_kills, ?_, ?_, ?_, ?_, ?_,
      fun h => hrun.filed (hstep.filed h)⟩
    · cases hindex : (firstKillOutcome rt generated withheldKills state.supplied
          first).matchedIndex with
      | none => rw [filterMap_cons_none hindex]; exact hrun.matched_once
      | some j =>
        rw [filterMap_cons_some hindex]
        exact nodup_cons.mpr ⟨hother j hindex, hrun.matched_once⟩
    · intro j hin
      rw [mem_filterMap] at hin
      obtain ⟨outcome, houtcome, hj⟩ := hin
      rcases mem_cons.mp houtcome with rfl | hrest
      · exact hstep.unmarked j hj
      · have hunmarked := hrun.unmarked j (mem_filterMap.mpr ⟨outcome, hrest, hj⟩)
        rw [hstep.marked] at hunmarked
        split at hunmarked
        · cases hunmarked
        · exact hunmarked
    · intro j f
      rw [hrun.marked, hstep.marked]
      constructor
      · rintro (hmark | ⟨i, hi, hj⟩)
        · split at hmark
          · next hj =>
            obtain rfl := Option.some.inj hmark
            exact .inr ⟨0, rfl, hj⟩
          · exact .inl hmark
        · exact .inr ⟨i + 1, hi, hj⟩
      · rintro (hmark | ⟨i, hi, hj⟩)
        · left
          rw [if_neg]
          · exact hmark
          · intro hindex
            rw [hstep.unmarked j hindex] at hmark
            cases hmark
        · cases i with
          | zero =>
            have hindex : (firstKillOutcome rt generated withheldKills state.supplied
                first).matchedIndex = some j := hj
            left
            rw [if_pos hindex]
            exact hi
          | succ i => exact .inr ⟨i, hi, hj⟩
    · rw [hrun.alone, hstep.alone, append_assoc]
      cases halone : (firstKillOutcome rt generated withheldKills state.supplied
          first).aloneKill with
      | none => rw [filterMap_cons_none halone]; simp
      | some kill => rw [filterMap_cons_some halone]; simp
    · intro picks hpicks
      rw [hrun.tallies picks hpicks, hstep.tallies picks hpicks]

end SlashWho.ApplicantDossier
