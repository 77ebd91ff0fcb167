import SlashWho.ParseReads

/-!
What a run accounts for of the parse requests it planned. A decoded report's fights are
marked read once its identities are confirmed, with the percentiles it gives the character
written to the kills, or its raids are troubled. So every planned zone is read or troubled
and every planned report marked or troubled, and a fight is marked only on an answer.
-/

namespace SlashWho.ParseAccounting

open List

open Characters ComparatorSort EvidenceMerge Fallible JsonNarrowing ParseCollection ParsePlan
open ParseReads RankedRows RankingDecode ReportDecoding

variable {kills kills' : OrderedMap String FirstKillEvidence}

/-- The kills of other reports are the same, and the others differ in performance alone. -/
def RewrittenIn (codes : List String) (kills kills' : OrderedMap String FirstKillEvidence) : Prop :=
  ∀ url, (kills.get? url = none ∧ kills'.get? url = none) ∨
    ∃ kill performance, kills.get? url = some kill ∧
      kills'.get? url = some { kill with performance := performance } ∧
      (kill.reportCode ∉ codes → performance = kill.performance)

theorem RewrittenIn.refl (codes : List String) (kills : OrderedMap String FirstKillEvidence) :
    RewrittenIn codes kills kills := by
  intro url
  cases hget : kills.get? url with
  | none => exact .inl ⟨rfl, rfl⟩
  | some kill => exact .inr ⟨kill, kill.performance, rfl, rfl, fun _ => rfl⟩

theorem RewrittenIn.trans {codes codes' : List String}
    {kills'' : OrderedMap String FirstKillEvidence} (h : RewrittenIn codes kills kills')
    (h' : RewrittenIn codes' kills' kills'') : RewrittenIn (codes ++ codes') kills kills'' := by
  intro url
  rcases h url with ⟨hnone, hnone'⟩ | ⟨kill, performance, hget, hget', hsame⟩
  · rcases h' url with ⟨-, hnone''⟩ | ⟨kill', _, hsome, -⟩
    · exact .inl ⟨hnone, hnone''⟩
    · rw [hnone'] at hsome
      cases hsome
  · rcases h' url with ⟨hnone, -⟩ | ⟨kill', performance', hsome, hget'', hsame'⟩
    · rw [hget'] at hnone
      cases hnone
    · rw [hget'] at hsome
      have hkill := Option.some.inj hsome
      rw [← hkill] at hget'' hsame'
      refine .inr ⟨kill, performance', hget, hget'', ?_⟩
      intro hout
      rw [mem_append, not_or] at hout
      rw [hsame' hout.2]
      exact hsame hout.1

theorem get?_writePerformance (group : ParseGroup) (performance : OrderedMap ℕ PerformanceValues)
    (run : CollectionRun) (url : String) :
    (writePerformance group performance run).kills.get? url =
      (run.kills.get? url).map (fun kill =>
        if kill.reportCode = group.reportCode then
          { kill with performance := (performance.get? kill.fightId).getD kill.performance }
        else kill) := by
  obtain ⟨entries, hdistinct⟩ := performance
  change (entries.foldl _ run.kills).get? url = (run.kills.get? url).map (fun kill =>
    if kill.reportCode = group.reportCode then
      { kill with performance := (entries.lookup kill.fightId).getD kill.performance }
    else kill)
  induction entries generalizing run with
  | nil =>
    simp only [foldl_nil, lookup_nil, Option.getD_none, ite_self, Option.map_id_fun',
      id_eq]
  | cons entry rest ih =>
    obtain ⟨hnew, hrest⟩ := nodup_cons.mp hdistinct
    have hone := ih { run with
      kills := run.kills.mapValues (fun _ kill => writeFight group entry.1 entry.2 kill) } hrest
    rw [foldl_cons]
    refine hone.trans ?_
    simp only
    rw [OrderedMap.get?_mapValues, Option.map_map]
    cases run.kills.get? url with
    | none => rfl
    | some kill =>
      rw [Option.map_some, Option.map_some, Option.some.injEq, Function.comp_apply]
      by_cases hcode : kill.reportCode = group.reportCode
      · by_cases hfight : kill.fightId = entry.1
        · have hlookup : rest.lookup kill.fightId = none := by
            rw [lookup_eq_none_iff]
            intro other hother
            rw [bne_iff_ne, hfight]
            intro heq
            exact hnew (heq ▸ mem_map_of_mem hother)
          have hwrite : writeFight group entry.1 entry.2 kill =
              { kill with performance := entry.2 } := by
            unfold writeFight
            rw [if_pos (by simp [hcode, hfight])]
          rw [hwrite, if_pos hcode, if_pos hcode]
          simp only
          rw [hlookup, lookup_cons_eq_ite, if_pos hfight]
          rfl
        · have hwrite : writeFight group entry.1 entry.2 kill = kill := by
            unfold writeFight
            rw [if_neg (by simp [hfight])]
          rw [hwrite, if_pos hcode, if_pos hcode, lookup_cons_eq_ite, if_neg hfight]
      · have hwrite : writeFight group entry.1 entry.2 kill = kill := by
          unfold writeFight
          rw [if_neg (by simp [hcode])]
        rw [hwrite, if_neg hcode, if_neg hcode]

theorem rewrittenIn_writePerformance (group : ParseGroup)
    (performance : OrderedMap ℕ PerformanceValues) (run : CollectionRun) :
    RewrittenIn [group.reportCode] run.kills (writePerformance group performance run).kills := by
  intro url
  rw [get?_writePerformance]
  cases hget : run.kills.get? url with
  | none => exact .inl ⟨rfl, rfl⟩
  | some kill =>
    right
    rw [Option.map_some]
    by_cases hcode : kill.reportCode = group.reportCode
    · rw [if_pos hcode]
      exact ⟨kill, _, rfl, rfl, fun hout => absurd (hcode ▸ mem_cons_self) hout⟩
    · rw [if_neg hcode]
      exact ⟨kill, kill.performance, rfl, rfl, fun _ => rfl⟩

/-- The kills of a decoded report carry the highest percentiles its rows give their fights. -/
def Written (entry : DecodedGroup) (kills : OrderedMap String FirstKillEvidence) : Prop :=
  ∀ url kill, kills.get? url = some kill → kill.reportCode = entry.group.reportCode →
    kill.fightId ∈ entry.group.fights.keys → ∀ metric percentile,
      (∃ row ∈ entry.decoded.rows, row.metric = metric ∧ row.fightId = kill.fightId ∧
        row.percentile = some percentile) →
      ∃ highest, kill.performance.metric metric = .available highest ∧ percentile ≤ highest ∧
        ∃ row ∈ entry.decoded.rows, row.metric = metric ∧ row.fightId = kill.fightId ∧
          row.percentile = some highest

variable {entry : DecodedGroup}

theorem written_of_no_rows (h : entry.decoded.rows = [])
    (kills : OrderedMap String FirstKillEvidence) : Written entry kills := by
  intro url kill _ _ _ metric percentile hrow
  obtain ⟨row, hrow, -⟩ := hrow
  rw [h] at hrow
  cases hrow

theorem Written.rewritten {codes : List String} (h : Written entry kills)
    (hrewritten : RewrittenIn codes kills kills') (hout : entry.group.reportCode ∉ codes) :
    Written entry kills' := by
  intro url kill hget hcode hfight metric percentile hrow
  rcases hrewritten url with ⟨-, hnone⟩ | ⟨before, performance, hbefore, hafter, hsame⟩
  · rw [hnone] at hget
    cases hget
  · rw [hafter] at hget
    have hkill := Option.some.inj hget
    have hbeforeCode : before.reportCode = entry.group.reportCode := by
      rw [← hkill] at hcode
      exact hcode
    have hperformance := hsame (by rw [hbeforeCode]; exact hout)
    rw [hperformance] at hkill
    rw [← hkill] at hfight hrow ⊢
    exact h url before hbefore hbeforeCode hfight metric percentile hrow

theorem written_writePerformance {requestedIds : List ℕ}
    (specIconUrl : String → Option String → Option String) (knownClassName : Option String)
    (hrequested : ∀ row ∈ entry.decoded.rows, row.characterId ∈ requestedIds)
    (run : CollectionRun) :
    Written entry (writePerformance entry.group (normalizedPerformance specIconUrl
      entry.decoded.rows requestedIds entry.group.fights.keys knownClassName) run).kills := by
  intro url kill hget hcode hfight metric percentile hrow
  rw [get?_writePerformance] at hget
  obtain ⟨before, hbefore, heq⟩ := Option.map_eq_some_iff.mp hget
  by_cases hsame : before.reportCode = entry.group.reportCode
  · rw [if_pos hsame] at heq
    have hfightId : before.fightId = kill.fightId := by
      rw [← heq]
    obtain ⟨performance, hperformance, hhighest⟩ := normalizedPerformance_get? specIconUrl
      knownClassName hfight hrequested
    obtain ⟨highest, havailable, hle, hof⟩ := hhighest metric percentile hrow
    refine ⟨highest, ?_, hle, hof⟩
    rw [← heq]
    simp only
    rw [hfightId, hperformance, Option.getD_some]
    exact havailable
  · rw [if_neg hsame] at heq
    rw [heq] at hsame
    exact absurd hcode hsame

variable {runtime : Runtime} {specIconUrl : String → Option String → Option String}
  {options : Options} {upstream : Upstream} {plan : ParseGroupPlan}

theorem requestedIds_eq {canonicalIds requestedIds : List ℕ} {identities : List RankingIdentity}
    {actors : List Json} {requestedKey : CharacterKey}
    (hall : ∀ identity ∈ identities, isRequested runtime requestedKey identity = true)
    (h : canonicalRankingCharacterIdsByIdentity runtime canonicalIds identities actors
      requestedKey = .ok requestedIds) : requestedIds = identities.map RankingIdentity.id := by
  have hloop : ∀ (rest : List RankingIdentity) (held ids : List ℕ),
      (∀ identity ∈ rest, isRequested runtime requestedKey identity = true) →
      rest.foldlM (confirmIdentity runtime canonicalIds actors requestedKey) held = .ok ids →
      ids = held ++ rest.map RankingIdentity.id := by
    intro rest
    induction rest with
    | nil =>
      intro held ids _ hread
      cases hread
      rw [map_nil, append_nil]
    | cons identity rest ih =>
      intro held ids hrest hread
      rw [foldlM_cons] at hread
      obtain ⟨next, hnext, hread⟩ := ok_of_bind_ok hread
      have hasked := hrest identity mem_cons_self
      have hadded : next = held ++ [identity.id] := by
        unfold confirmIdentity at hnext
        split at hnext
        · cases hnext
        · split at hnext
          · cases hnext
          · cases hnext
            rfl
      rw [hadded] at hread
      rw [ih _ ids (fun other hother => hrest other (mem_cons_of_mem _ hother)) hread,
        append_assoc]
      rfl
  unfold canonicalRankingCharacterIdsByIdentity at h
  obtain ⟨ids, hids, h⟩ := ok_of_bind_ok h
  simp only at h
  split at h
  · cases h
  · cases h
    rw [hloop identities [] _ hall hids, nil_append]

/-- What each decoded group comes to: marked with its percentiles written, or troubled. -/
structure GroupsApplied (plan : ParseGroupPlan) (entries : List DecodedGroup)
    (run run' : CollectionRun) : Prop where
  asked : run'.asked = run.asked
  grown : Grown run.ledger run'.ledger
  rewritten : RewrittenIn (entries.map (fun entry => entry.group.reportCode)) run.kills run'.kills
  settled : ∀ entry ∈ entries, Settled plan run'.ledger entry.group
  marked : ∀ url ∈ run'.ledger.parsedFightUrls, url ∈ run.ledger.parsedFightUrls ∨
    ∃ entry ∈ entries, url ∈ urlsOf plan entry.group ∧ Written entry run'.kills

theorem GroupsApplied.cons {entry : DecodedGroup} {rest : List DecodedGroup}
    {run next run' : CollectionRun} (h : GroupsApplied plan rest next run')
    (hasked : next.asked = run.asked) (hgrown : Grown run.ledger next.ledger)
    (hrewritten : RewrittenIn [entry.group.reportCode] run.kills next.kills)
    (hsettled : Settled plan next.ledger entry.group)
    (hmarked : ∀ url ∈ next.ledger.parsedFightUrls, url ∈ run.ledger.parsedFightUrls ∨
      (url ∈ urlsOf plan entry.group ∧ Written entry next.kills))
    (hout : entry.group.reportCode ∉ rest.map (fun entry => entry.group.reportCode)) :
    GroupsApplied plan (entry :: rest) run run' := by
  refine ⟨h.asked.trans hasked, hgrown.trans h.grown, hrewritten.trans h.rewritten, ?_, ?_⟩
  · intro other hother
    rcases mem_cons.mp hother with heq | hin
    · rw [heq]
      exact hsettled.grown h.grown
    · exact h.settled other hin
  · intro url hurl
    rcases h.marked url hurl with hold | ⟨other, hother, hrest⟩
    · rcases hmarked url hold with hbefore | ⟨hof, hwritten⟩
      · exact .inl hbefore
      · exact .inr ⟨entry, mem_cons_self, hof, hwritten.rewritten h.rewritten hout⟩
    · exact .inr ⟨other, mem_cons_of_mem _ hother, hrest⟩

theorem applyGroups_spec (canonicalIds : List ℕ) {read : CollectionRun}
    (entries : List DecodedGroup) (run : CollectionRun)
    (hfrom : ∀ entry ∈ entries, DecodedFrom runtime options read entry)
    (hdistinct : (entries.map (fun entry => entry.group.reportCode)).Nodup) :
    GroupsApplied plan entries run
      (applyGroups runtime specIconUrl options plan canonicalIds entries run) := by
  induction entries generalizing run with
  | nil =>
    refine ⟨rfl, Grown.refl _, RewrittenIn.refl _ _, ?_, fun _ h => .inl h⟩
    intro entry hentry
    cases hentry
  | cons entry rest ih =>
    obtain ⟨hout, hrest⟩ := nodup_cons.mp hdistinct
    obtain ⟨value, -, hdecoded⟩ := hfrom entry mem_cons_self
    obtain ⟨hall, hrows⟩ := decoded_identities hdecoded
    have hnext := fun run => ih run
      (fun other hother => hfrom other (mem_cons_of_mem _ hother)) hrest
    have hmarks : ∀ (kills : OrderedMap String FirstKillEvidence), Written entry kills →
        ∀ url ∈ (markGroupsRead plan [entry.group] run.ledger).parsedFightUrls,
          url ∈ run.ledger.parsedFightUrls ∨
            (url ∈ urlsOf plan entry.group ∧ Written entry kills) := by
      intro kills hwritten url hurl
      rcases ((markGroupsRead_spec plan [entry.group] run.ledger).2.2 url).mp hurl with
        hold | ⟨scope, hscope, hof⟩
      · exact .inl hold
      · rw [mem_singleton.mp hscope] at hof
        exact .inr ⟨hof, hwritten⟩
    unfold applyGroups
    simp only
    cases hids : canonicalRankingCharacterIdsByIdentity runtime canonicalIds
        entry.decoded.identities entry.decoded.actors options.key with
    | error limitation =>
      refine (hnext _).cons ?_ ?_ ?_ ?_ ?_ hout
      · rfl
      · exact (grown_raise run.ledger limitation false).trans
          (grown_troubleGroups plan [entry.group] _)
      · exact RewrittenIn.refl _ _
      · exact settled_troubleGroups mem_cons_self _
      · intro url hurl
        change url ∈ (troubleGroups plan [entry.group]
          (run.ledger.raise limitation false)).parsedFightUrls at hurl
        rw [(troubleGroups_spec plan [entry.group] _).1] at hurl
        exact .inl hurl
    | ok requestedIds =>
      have hrequested := requestedIds_eq hall hids
      cases requestedIds with
      | nil =>
        -- no identity was kept, so no row was
        have hnoRows : entry.decoded.rows = [] := by
          rw [eq_nil_iff_forall_not_mem]
          intro row hrow
          have hin := hrows row hrow
          rw [← hrequested] at hin
          cases hin
        refine (hnext _).cons ?_ ?_ ?_ ?_ ?_ hout
        · rfl
        · exact grown_markGroupsRead plan [entry.group] _
        · exact RewrittenIn.refl _ _
        · exact settled_markGroupsRead mem_cons_self _
        · exact hmarks _ (written_of_no_rows hnoRows _)
      | cons first others =>
        rw [← hrequested] at hrows
        refine (hnext _).cons ?_ ?_ ?_ ?_ ?_ hout
        · rfl
        · exact grown_markGroupsRead plan [entry.group] _
        · exact rewrittenIn_writePerformance entry.group _ _
        · exact settled_markGroupsRead mem_cons_self _
        · exact hmarks _ (written_writePerformance specIconUrl options.className hrows _)

/-- What the identity phase leaves: every decoded group settled, on one more request. -/
structure IdentitiesDone (plan : ParseGroupPlan) (options : Options) (entries : List DecodedGroup)
    (run run' : CollectionRun) : Prop where
  asked : ∀ request ∈ run.asked, request ∈ run'.asked
  grown : Grown run.ledger run'.ledger
  rewritten : ∃ codes, RewrittenIn codes run.kills run'.kills
  settled : ∀ entry ∈ entries, Settled plan run'.ledger entry.group
  marked : ∀ url ∈ run'.ledger.parsedFightUrls, url ∈ run.ledger.parsedFightUrls ∨
    ∃ entry ∈ entries, url ∈ urlsOf plan entry.group ∧ Written entry run'.kills
  requests : run'.asked.length ≤ options.parseRequestCap

theorem identitiesDone_troubled {entries : List DecodedGroup} {run next : CollectionRun}
    {ledger : ParseLedger} (hkills : next.kills = run.kills)
    (hasked : ∀ request ∈ run.asked, request ∈ next.asked) (hgrown : Grown run.ledger ledger)
    (hparsed : ledger.parsedFightUrls = run.ledger.parsedFightUrls)
    (hrequests : next.asked.length ≤ options.parseRequestCap) :
    IdentitiesDone plan options entries run
      { next with
        ledger := troubleGroups plan (entries.map DecodedGroup.group) ledger } := by
  refine ⟨hasked, hgrown.trans (grown_troubleGroups plan _ ledger), ⟨[], ?_⟩, ?_, ?_, hrequests⟩
  · simp only [hkills]
    exact RewrittenIn.refl _ _
  · intro entry hentry
    exact settled_troubleGroups (mem_map_of_mem hentry) ledger
  · intro url hurl
    simp only at hurl
    rw [(troubleGroups_spec plan _ ledger).1, hparsed] at hurl
    exact .inl hurl

theorem identities_eq_nil {entries : List DecodedGroup} (h : (identitiesOf entries).values = [])
    {entry : DecodedGroup} (hentry : entry ∈ entries) : entry.decoded.identities = [] := by
  rw [eq_nil_iff_forall_not_mem]
  intro identity hidentity
  have hkey : identity.id ∈ (identitiesOf entries).keys := by
    unfold identitiesOf
    rw [OrderedMap.mem_keys_ofList, mem_map]
    exact ⟨(identity.id, identity), mem_flatMap.mpr ⟨entry, hentry,
      mem_map_of_mem hidentity⟩, rfl⟩
  obtain ⟨found, hfound⟩ := ((identitiesOf entries).mem_keys_iff identity.id).mp hkey
  have hvalue := ((identitiesOf entries).mem_values_iff found).mpr ⟨identity.id, hfound⟩
  rw [h] at hvalue
  cases hvalue

theorem applyCanonicalIdentities_spec {run : CollectionRun} {hydration : FightParseHydration}
    (hbudget : InBudget options run)
    (hidentities : hydration.identities = identitiesOf hydration.decodedGroups)
    (hfrom : ∀ entry ∈ hydration.decodedGroups, DecodedFrom runtime options run entry)
    (hdistinct : (hydration.decodedGroups.map (fun entry => entry.group.reportCode)).Nodup) :
    Ends (IdentitiesDone hydration.plan options hydration.decodedGroups run)
      (fun run' => run'.asked.length ≤ options.parseRequestCap)
      (applyCanonicalIdentities runtime specIconUrl options upstream run hydration) := by
  have hspare := hbudget.spare
  have hrequests : (run.counted upstream (.rankingIdentities hydration.identities.values)).asked.length
      ≤ options.parseRequestCap := by
    change (run.asked ++ _).length ≤ _
    rw [length_append, length_singleton, hbudget.counted]
    exact hspare
  have hasked : ∀ request ∈ run.asked, request ∈
      (run.counted upstream (.rankingIdentities hydration.identities.values)).asked :=
    fun _ h => mem_append_left _ h
  unfold applyCanonicalIdentities
  simp only
  split
  · rename_i hnone
    rw [List.isEmpty_iff, hidentities] at hnone
    refine ⟨fun _ h => h, grown_markGroupsRead _ _ _, ⟨[], RewrittenIn.refl _ _⟩, ?_, ?_, ?_⟩
    · intro entry hentry
      exact settled_markGroupsRead (mem_map_of_mem hentry) run.ledger
    · intro url hurl
      rcases ((markGroupsRead_spec hydration.plan _ run.ledger).2.2 url).mp hurl with
        hold | ⟨scope, hscope, hof⟩
      · exact .inl hold
      · obtain ⟨entry, hentry, heq⟩ := mem_map.mp hscope
        rw [← heq] at hof
        refine .inr ⟨entry, hentry, hof, written_of_no_rows ?_ _⟩
        obtain ⟨value, -, hdecoded⟩ := hfrom entry hentry
        rw [eq_nil_iff_forall_not_mem]
        intro row hrow
        have hin := (decoded_identities hdecoded).2 row hrow
        rw [identities_eq_nil hnone hentry] at hin
        cases hin
    · change run.asked.length ≤ _
      rw [hbudget.counted]
      omega
  · -- one request is always left for the lookup
    rw [if_neg (by omega)]
    cases hanswer : answerOf upstream run (.rankingIdentities hydration.identities.values) with
    | none => exact hrequests
    | some answer =>
      cases answer with
      | limitation limitation =>
        exact identitiesDone_troubled rfl hasked (grown_raise _ _ _) rfl hrequests
      | success value =>
        simp only
        cases hids : decodeCanonicalIdentityIds runtime value hydration.identities.values with
        | error limitation =>
          exact identitiesDone_troubled rfl hasked (grown_raise _ _ _) rfl hrequests
        | ok canonicalIds =>
          have happlied : GroupsApplied hydration.plan hydration.decodedGroups
              (run.counted upstream (.rankingIdentities hydration.identities.values))
              (applyGroups runtime specIconUrl options hydration.plan canonicalIds
                hydration.decodedGroups
                (run.counted upstream (.rankingIdentities hydration.identities.values))) :=
            applyGroups_spec canonicalIds hydration.decodedGroups _ hfrom hdistinct
          refine ⟨?_, happlied.grown, ⟨_, happlied.rewritten⟩, happlied.settled,
            happlied.marked, ?_⟩
          · intro request h
            rw [happlied.asked]
            exact hasked request h
          · rw [happlied.asked]
            exact hrequests

variable (runtime : Runtime) (specIconUrl : String → Option String → Option String)
  (options : Options) (upstream : Upstream) (catalogue : Catalogue) (kills : RunKills)

/-- The zones a run plans over its kills, with those the budget does not reach. -/
def plannedZones : List TierZone :=
  let plan := tierZonePlan catalogue options.plan kills.val.values options.parseRequestCap
  plan.zones ++ plan.unreached

/-- The reports a run plans over its kills. -/
def plannedGroups : List ParseGroup :=
  (parseGroupPlan catalogue options.plan kills.val.values).groups

/-- The kills whose rankings a run plans to ask for. -/
def plannedKills : List FirstKillEvidence := planned catalogue options.plan kills.val.values

/-- The character's percentile is on the kill, the highest the answer gives its fight. -/
def PercentilesOn (run : CollectionRun) (group : ParseGroup) (value : Json)
    (kill : FirstKillEvidence) : Prop :=
  ∀ metric percentile, RankedIn runtime value group options.key metric kill.fightId percentile →
    ∃ held highest, run.kills.get? kill.fightUrl = some held ∧
      held.performance.metric metric = .available highest ∧ percentile ≤ highest ∧
      RankedIn runtime value group options.key metric kill.fightId highest

structure Accounted (run : CollectionRun) (tierBests : List WarcraftLogsTierBestParse) : Prop where
  zones : ∀ zone ∈ plannedZones options catalogue kills,
    ZoneRead runtime specIconUrl options run tierBests zone ∨
      toString zone.zoneId ∈ run.ledger.outcome.troubledRaidIds.tierBests
  grouped : ∀ kill ∈ plannedKills options catalogue kills,
    ∃ group ∈ plannedGroups options catalogue kills, group.reportCode = kill.reportCode ∧
      kill.fightId ∈ group.fights.keys
  groups : ∀ group ∈ plannedGroups options catalogue kills,
    (∀ kill ∈ plannedKills options catalogue kills, kill.reportCode = group.reportCode →
      kill.fightUrl ∈ run.ledger.outcome.parsedFightUrls) ∨
    ∀ kill ∈ plannedKills options catalogue kills, kill.reportCode = group.reportCode →
      kill.raidId ∈ run.ledger.outcome.troubledRaidIds.parses
  marked : ∀ url ∈ run.ledger.outcome.parsedFightUrls,
    ∃ kill ∈ plannedKills options catalogue kills, kill.fightUrl = url ∧
      ∃ group ∈ plannedGroups options catalogue kills, group.reportCode = kill.reportCode ∧
        ∃ value, Answered run group value ∧
          (Unmatched runtime options group value ∨
            (∃ decoded, decodeRankingRows runtime value group options.key = .ok decoded) ∧
              PercentilesOn runtime options run group value kill)
  requests : run.asked.length ≤ options.parseRequestCap

variable {runtime specIconUrl options upstream catalogue kills}

variable {run : CollectionRun}

theorem zoneRead_later {run' : CollectionRun} {tierBests : List WarcraftLogsTierBestParse}
    {zone : TierZone} (h : ZoneRead runtime specIconUrl options run tierBests zone)
    (hasked : ∀ request ∈ run.asked, request ∈ run'.asked) :
    ZoneRead runtime specIconUrl options run' tierBests zone := by
  obtain ⟨value, decoded, hanswered, hrest⟩ := h
  exact ⟨value, decoded, hasked _ hanswered, hrest⟩

def started (kills : RunKills) : CollectionRun := ⟨kills.val, 0, [], .start⟩

/-- After the zones, with the kills as they were. -/
structure ZonesLeft (runtime : Runtime)
    (specIconUrl : String → Option String → Option String) (options : Options)
    (catalogue : Catalogue) (kills : RunKills)
    (out : CollectionRun × List WarcraftLogsTierBestParse) : Prop where
  sameKills : out.1.kills = kills.val
  parsed : out.1.ledger.parsedFightUrls = []
  zones : ∀ zone ∈ plannedZones options catalogue kills,
    ZoneRead runtime specIconUrl options out.1 out.2 zone ∨
      toString zone.zoneId ∈ out.1.ledger.troubledTierBestRaidIds
  budget : InBudget options out.1

theorem collectTierBests_spec :
    Ends (ZonesLeft runtime specIconUrl options catalogue kills) (InBudget options)
      (collectTierBests runtime specIconUrl options upstream catalogue (started kills)) := by
  have hlength := length_zones_le catalogue options.plan kills.val.values options.parseRequestCap
  have hpositive := options.positive
  have hspec : ∀ run : CollectionRun, run.kills = kills.val → run.parseRequests = 0 →
      run.asked = [] → run.ledger.parsedFightUrls = [] →
      (∀ zone ∈ (zonePlan options catalogue (started kills)).unreached,
        toString zone.zoneId ∈ run.ledger.troubledTierBestRaidIds) →
      Ends (ZonesLeft runtime specIconUrl options catalogue kills) (InBudget options)
        (readZones runtime specIconUrl options upstream
          (zonePlan options catalogue (started kills)).zones run []) := by
    intro run hkills hrequests hasked hparsed hunreached
    have hfits : run.parseRequests + (zonePlan options catalogue (started kills)).zones.length + 1 ≤
        options.parseRequestCap := by
      change run.parseRequests + (tierZonePlan catalogue options.plan kills.val.values
        options.parseRequestCap).zones.length + 1 ≤ _
      omega
    apply (readZones_spec _ run [] (by rw [hasked, hrequests]; rfl) hfits).imp
    intro out hdone
    refine ⟨hdone.kills.trans hkills, hdone.parsed.trans hparsed, ?_, hdone.budget⟩
    intro zone hzone
    rcases mem_append.mp hzone with hin | hin
    · exact hdone.settled zone hin
    · exact .inr (hdone.grown.tierBests _ (hunreached zone hin))
  unfold collectTierBests
  simp only
  split
  · rename_i hnone
    rw [List.isEmpty_iff] at hnone
    apply hspec (started kills) rfl rfl rfl rfl
    intro zone hzone
    rw [hnone] at hzone
    cases hzone
  · apply hspec _ rfl rfl rfl
    · exact (troubleFrom_spec _ _).1
    · intro zone hzone
      exact ((troubleFrom_spec _ _).2.2 _).mpr (.inr ⟨zone, hzone, rfl⟩)

/-- After the reports are read: the groups of the plan, and the identities of the decoded. -/
structure GroupsLeft (runtime : Runtime) (options : Options) (catalogue : Catalogue)
    (run : CollectionRun) (out : CollectionRun × FightParseHydration) : Prop where
  plan : out.2.plan = groupPlan options catalogue run
  identities : out.2.identities = identitiesOf out.2.decodedGroups
  done : GroupsDone runtime options (groupPlan options catalogue run)
    (groupPlan options catalogue run).groups run [] (out.1, out.2.decodedGroups)

theorem hydrateFightParses_spec (hbudget : InBudget options run) :
    Ends (GroupsLeft runtime options catalogue run) (InBudget options)
      (hydrateFightParses runtime options upstream catalogue run) := by
  unfold hydrateFightParses
  apply (readGroups_spec _ run [] hbudget).bind
  intro out hdone
  exact ⟨rfl, rfl, hdone⟩

variable {group : ParseGroup}

theorem mem_urlsOf (hkills : run.kills = kills.val) {url : String} :
    url ∈ urlsOf (groupPlan options catalogue run) group ↔
      ∃ kill ∈ plannedKills options catalogue kills, kill.reportCode = group.reportCode ∧
        kill.fightUrl = url := by
  unfold urlsOf groupPlan plannedKills
  rw [hkills]
  exact mem_foldl_addToSet _ _ _ _

theorem mem_raidsOf (hkills : run.kills = kills.val) {raidId : String} :
    raidId ∈ raidsOf (groupPlan options catalogue run) group ↔
      ∃ kill ∈ plannedKills options catalogue kills, kill.reportCode = group.reportCode ∧
        kill.raidId = raidId := by
  unfold raidsOf groupPlan plannedKills
  rw [hkills]
  exact mem_foldl_addToSet _ _ _ _

theorem plannedGroups_spec :
    ((plannedGroups options catalogue kills).map ParseGroup.reportCode).Nodup ∧
      ∀ kill ∈ plannedKills options catalogue kills,
        ∃ group ∈ plannedGroups options catalogue kills, group.reportCode = kill.reportCode ∧
          kill.fightId ∈ group.fights.keys := by
  obtain ⟨hfiled, hasks⟩ := groupsOf_spec catalogue options.plan kills.val.values
  have hperm : List.Perm (plannedGroups options catalogue kills)
      (groupsOf catalogue options.plan kills.val.values).values := perm_sortBy _ _
  constructor
  · rw [(hperm.map ParseGroup.reportCode).nodup_iff]
    exact hfiled.nodup_values
  · intro kill hkill
    obtain ⟨group, hget, hfight⟩ := hasks kill hkill
    refine ⟨group, ?_, hfiled _ _ hget, hfight⟩
    rw [hperm.mem_iff]
    exact (OrderedMap.mem_values_iff _ group).mpr ⟨kill.reportCode, hget⟩

theorem reportCode_unique {group' : ParseGroup} (h : group ∈ plannedGroups options catalogue kills)
    (h' : group' ∈ plannedGroups options catalogue kills)
    (hsame : group.reportCode = group'.reportCode) : group = group' :=
  inj_on_of_nodup_map plannedGroups_spec.1 h h' hsame

theorem settled_kills (hkills : run.kills = kills.val) {ledger : ParseLedger}
    (h : Settled (groupPlan options catalogue run) ledger group) :
    (∀ kill ∈ plannedKills options catalogue kills, kill.reportCode = group.reportCode →
      kill.fightUrl ∈ ledger.outcome.parsedFightUrls) ∨
    ∀ kill ∈ plannedKills options catalogue kills, kill.reportCode = group.reportCode →
      kill.raidId ∈ ledger.outcome.troubledRaidIds.parses := by
  rcases h with hmarked | htroubled
  · left
    intro kill hkill hcode
    exact (mem_sortBy _).mpr
      (hmarked kill.fightUrl ((mem_urlsOf hkills).mpr ⟨kill, hkill, hcode, rfl⟩))
  · right
    intro kill hkill hcode
    exact (mem_sortBy _).mpr
      (htroubled kill.raidId ((mem_raidsOf hkills).mpr ⟨kill, hkill, hcode, rfl⟩))

theorem percentilesOn_of_written {entry : DecodedGroup} {value : Json} {kill : FirstKillEvidence}
    {codes : List String}
    (hdecoded : decodeRankingRows runtime value entry.group options.key = .ok entry.decoded)
    (hwritten : Written entry run.kills) (hrewritten : RewrittenIn codes kills.val run.kills)
    (hkill : kill ∈ plannedKills options catalogue kills)
    (hcode : kill.reportCode = entry.group.reportCode)
    (hfight : kill.fightId ∈ entry.group.fights.keys) :
    PercentilesOn runtime options run entry.group value kill := by
  intro metric percentile hranked
  have hin : kill ∈ kills.val.values := (mem_filter.mp hkill).1
  have hget : kills.val.get? kill.fightUrl = some kill := kills.property.get?_of_mem hin
  rcases hrewritten kill.fightUrl with ⟨hnone, -⟩ | ⟨before, performance, hbefore, hafter, -⟩
  · rw [hget] at hnone
    cases hnone
  · rw [hget] at hbefore
    rw [← Option.some.inj hbefore] at hafter
    have hrows := (decoded_rows_iff hdecoded metric kill.fightId percentile).mpr hranked
    obtain ⟨highest, havailable, hle, hof⟩ :=
      hwritten kill.fightUrl _ hafter hcode hfight metric percentile hrows
    exact ⟨_, highest, hafter, havailable, hle,
      (decoded_rows_iff hdecoded metric kill.fightId highest).mp hof⟩

/-- Every planned zone is read or troubled, and every planned report marked or troubled; a
fight is marked only on an answer, with the percentiles it gives the character; and no run
asks for more than the cap, one request of which is left for the identities. -/
theorem collectParses_accounts (runtime : Runtime)
    (specIconUrl : String → Option String → Option String) (options : Options)
    (upstream : Upstream) (catalogue : Catalogue) (kills : RunKills) :
    Ends (fun out => Accounted runtime specIconUrl options catalogue kills out.1 out.2)
        (fun run => run.asked.length ≤ options.parseRequestCap)
        (collectParses runtime specIconUrl options upstream catalogue kills) ∧
      ∀ zoned tierBests read hydration,
        collectTierBests runtime specIconUrl options upstream catalogue (started kills) =
          .ok (zoned, tierBests) →
        hydrateFightParses runtime options upstream catalogue zoned = .ok (read, hydration) →
        read.asked.length = read.parseRequests ∧
          read.parseRequests + 1 ≤ options.parseRequestCap := by
  have hfits : ∀ run, InBudget options run → run.asked.length ≤ options.parseRequestCap := by
    intro run hbudget
    have hspare := hbudget.spare
    rw [hbudget.counted]
    omega
  constructor
  · unfold collectParses
    apply (collectTierBests_spec.imp_bad hfits).bind
    intro zoned hzones
    apply ((hydrateFightParses_spec hzones.budget).imp_bad hfits).bind
    intro read hread
    obtain ⟨hplan, hidentities, hdone⟩ := hread
    obtain ⟨new, hnew, hsub, hfrom, hleft⟩ := hdone.decoded
    rw [nil_append] at hnew
    simp only at hnew hfrom hleft
    -- the plan is that of the kills the run started with
    have hgroups : (groupPlan options catalogue zoned.1).groups =
        plannedGroups options catalogue kills := by
      unfold groupPlan plannedGroups
      rw [hzones.sameKills]
    rw [hgroups] at hsub hleft
    have hgrouped : ∀ kill ∈ plannedKills options catalogue kills,
        ∃ group ∈ plannedGroups options catalogue kills, group.reportCode = kill.reportCode ∧
          kill.fightId ∈ group.fights.keys := plannedGroups_spec.2
    have hcodes : (read.2.decodedGroups.map (fun entry => entry.group.reportCode)).Nodup := by
      rw [hnew]
      have hsubCodes := hsub.map ParseGroup.reportCode
      rw [map_map] at hsubCodes
      exact hsubCodes.nodup plannedGroups_spec.1
    apply (applyCanonicalIdentities_spec hdone.budget hidentities (by rw [hnew]; exact hfrom)
      hcodes).bind
    intro applied happlied
    rw [hplan] at happlied
    obtain ⟨codes, hrewritten⟩ := happlied.rewritten
    rw [hdone.kills, hzones.sameKills] at hrewritten
    have hlater : ∀ request ∈ zoned.1.asked, request ∈ applied.asked :=
      fun request h => happlied.asked request (hdone.asked request h)
    refine ⟨?_, hgrouped, ?_, ?_, happlied.requests⟩
    · intro zone hzone
      rcases hzones.zones zone hzone with hreadZone | htroubled
      · exact .inl (zoneRead_later hreadZone hlater)
      · exact .inr ((mem_sortBy _).mpr
          (happlied.grown.tierBests _ (hdone.grown.tierBests _ htroubled)))
    · intro group hgroup
      apply settled_kills hzones.sameKills
      rcases hleft group hgroup with hnewGroup | hsettled
      · obtain ⟨entry, hentry, heq⟩ := mem_map.mp hnewGroup
        rw [← heq]
        exact happlied.settled entry (by rw [hnew]; exact hentry)
      · exact hsettled.grown happlied.grown
    · intro url hurl
      rcases happlied.marked url ((mem_sortBy _).mp hurl) with hold | ⟨entry, hentry, hof, hwritten⟩
      · rcases hdone.marked url hold with hbefore | ⟨group, hgroup, hof, value, hanswered, hothers⟩
        · rw [hzones.parsed] at hbefore
          cases hbefore
        · obtain ⟨kill, hkill, hcode, heq⟩ := (mem_urlsOf hzones.sameKills).mp hof
          rw [hgroups] at hgroup
          exact ⟨kill, hkill, heq, group, hgroup, hcode.symm, value,
            happlied.asked _ hanswered, .inl hothers⟩
      · obtain ⟨kill, hkill, hcode, heq⟩ := (mem_urlsOf hzones.sameKills).mp hof
        rw [hnew] at hentry
        have hgroup : entry.group ∈ plannedGroups options catalogue kills :=
          hsub.subset (mem_map_of_mem hentry)
        obtain ⟨value, hanswered, hdecoded⟩ := hfrom entry hentry
        obtain ⟨group, hin, hgroupCode, hfight⟩ := hgrouped kill hkill
        rw [reportCode_unique hin hgroup (hgroupCode.trans hcode)] at hfight
        exact ⟨kill, hkill, heq, entry.group, hgroup, hcode.symm, value,
          happlied.asked _ hanswered, .inr ⟨⟨entry.decoded, hdecoded⟩,
            percentilesOn_of_written hdecoded hwritten hrewritten hkill hcode hfight⟩⟩
  · intro zoned tierBests read hydration hzoned hread
    have hzones : ZonesLeft runtime specIconUrl options catalogue kills (zoned, tierBests) := by
      have hends : Ends (ZonesLeft runtime specIconUrl options catalogue kills) (InBudget options)
          (collectTierBests runtime specIconUrl options upstream catalogue (started kills)) :=
        collectTierBests_spec
      rw [hzoned] at hends
      exact hends
    have hgroups : GroupsLeft runtime options catalogue zoned (read, hydration) := by
      have hends : Ends (GroupsLeft runtime options catalogue zoned) (InBudget options)
          (hydrateFightParses runtime options upstream catalogue zoned) :=
        hydrateFightParses_spec hzones.budget
      rw [hread] at hends
      exact hends
    exact ⟨hgroups.done.budget.counted, hgroups.done.budget.spare⟩

def asWritten : Runtime where
  lower := id
  lettersAndNumbers := id
  encodeURIComponent := id
  toISOString := toString
  localeCompare := compare
  isNonRaidZone := fun _ => false

def oneZone : Catalogue where
  currentContentEligibility := fun _ _ => some true
  raidOffersMythicRankings := fun _ => true
  lookupRaidForEvidence := fun kill => some kill.raidId
  number := fun raidId => if raidId = "1007" then some 1007 else none
  localeCompare := compare

def fiveRequests : Options where
  key := ⟨.eu, "draenor", "ana"⟩
  className := none
  parseRequestCap := 5
  plan := ⟨[], .empty, [], [], none⟩
  positive := Nat.succ_pos 4

def listedKill : FirstKillEvidence where
  raidId := "1007"
  raidName := "Tomb of Sargeras"
  bossId := "2032"
  bossName := "Goroth"
  journalBossId := none
  bossOrder := 1
  killedAt := "2017-06-29T19:00:00.000Z"
  reportCode := "aBcD"
  fightId := 4
  difficulty := mythicDifficulty
  performance := unavailablePerformance
  reportUrl := "aBcD"
  fightUrl := "aBcD#fight=4"
  guild := none
  uploader := none

def oneKill : RunKills :=
  ⟨.ofList ([listedKill].map (fun kill => (kill.fightUrl, kill))),
    OrderedMap.filedBy_ofList FirstKillEvidence.fightUrl [listedKill]⟩

/-- The zone's rankings are limited, and the report's never come. -/
def slowUpstream : Upstream := fun _ query =>
  match query with
  | .zoneRankings _ => .limitation ⟨.rateLimited, none⟩
  | .fightParses _ _ | .rankingIdentities _ => .timedOut

theorem collectParses_accounts_slow :
    (plannedGroups fiveRequests oneZone oneKill).length = 1 ∧
      Ends (fun out => Accounted asWritten (fun _ _ => none) fiveRequests oneZone oneKill out.1
          out.2) (fun run => run.asked.length ≤ 5)
        (collectParses asWritten (fun _ _ => none) fiveRequests slowUpstream oneZone oneKill) :=
  ⟨by decide +kernel,
    (collectParses_accounts asWritten (fun _ _ => none) fiveRequests slowUpstream oneZone
      oneKill).1⟩

end SlashWho.ParseAccounting
