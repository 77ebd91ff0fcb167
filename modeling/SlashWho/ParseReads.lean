import SlashWho.ParseCollection
import SlashWho.RankedRows

/-!
The zones and the reports of a run, read within its parse budget. A zone is read or its
raid is troubled, and a report is decoded, marked read or its raids are troubled, whichever
way the loops are left. Every request so far leaves one for the identity lookup.
-/

namespace SlashWho.ParseReads

open List EvidenceMerge Fallible JsonNarrowing ParseCollection ParsePlan
open RankingDecode ReportDecoding

variable {plan : ParseGroupPlan} {ledger ledger' : ParseLedger}

theorem mem_addOnce {held : List String} {value v : String} :
    v ∈ addOnce held value ↔ v ∈ held ∨ v = value := by
  unfold addOnce
  split
  · rename_i hheld
    constructor
    · exact .inl
    · intro h
      rcases h with hin | heq
      · exact hin
      · rw [heq]
        exact hheld
  · rw [mem_append, mem_singleton]

/-- A ledger only ever gains marks. -/
structure Grown (ledger ledger' : ParseLedger) : Prop where
  tierBests : ∀ raidId ∈ ledger.troubledTierBestRaidIds, raidId ∈ ledger'.troubledTierBestRaidIds
  parses : ∀ raidId ∈ ledger.troubledParseRaidIds, raidId ∈ ledger'.troubledParseRaidIds
  parsed : ∀ url ∈ ledger.parsedFightUrls, url ∈ ledger'.parsedFightUrls

theorem Grown.refl (ledger : ParseLedger) : Grown ledger ledger :=
  ⟨fun _ h => h, fun _ h => h, fun _ h => h⟩

theorem Grown.trans {ledger'' : ParseLedger} (h : Grown ledger ledger')
    (h' : Grown ledger' ledger'') : Grown ledger ledger'' :=
  ⟨fun raidId hin => h'.tierBests raidId (h.tierBests raidId hin),
    fun raidId hin => h'.parses raidId (h.parses raidId hin),
    fun url hin => h'.parsed url (h.parsed url hin)⟩

def raidsOf (plan : ParseGroupPlan) (group : ParseGroup) : List String :=
  (plan.raidIds.get? group.reportCode).getD []

def urlsOf (plan : ParseGroupPlan) (group : ParseGroup) : List String :=
  (plan.fightUrls.get? group.reportCode).getD []

theorem foldl_troubleParses (raidIds : List String) (ledger : ParseLedger) :
    (raidIds.foldl ParseLedger.troubleParses ledger).parsedFightUrls = ledger.parsedFightUrls ∧
      (raidIds.foldl ParseLedger.troubleParses ledger).troubledTierBestRaidIds =
        ledger.troubledTierBestRaidIds ∧
      ∀ raidId, raidId ∈ (raidIds.foldl ParseLedger.troubleParses ledger).troubledParseRaidIds ↔
        raidId ∈ ledger.troubledParseRaidIds ∨ raidId ∈ raidIds := by
  induction raidIds generalizing ledger with
  | nil => exact ⟨rfl, rfl, fun raidId => by simp⟩
  | cons first rest ih =>
    obtain ⟨hparsed, htier, htroubled⟩ := ih (ledger.troubleParses first)
    rw [foldl_cons]
    refine ⟨hparsed, htier, ?_⟩
    intro raidId
    rw [htroubled, mem_cons]
    change raidId ∈ addOnce ledger.troubledParseRaidIds first ∨ _ ↔ _
    rw [mem_addOnce, or_assoc]

theorem foldl_markParsed (urls : List String) (ledger : ParseLedger) :
    (urls.foldl ParseLedger.markParsed ledger).troubledParseRaidIds =
        ledger.troubledParseRaidIds ∧
      (urls.foldl ParseLedger.markParsed ledger).troubledTierBestRaidIds =
        ledger.troubledTierBestRaidIds ∧
      ∀ url, url ∈ (urls.foldl ParseLedger.markParsed ledger).parsedFightUrls ↔
        url ∈ ledger.parsedFightUrls ∨ url ∈ urls := by
  induction urls generalizing ledger with
  | nil => exact ⟨rfl, rfl, fun url => by simp⟩
  | cons first rest ih =>
    obtain ⟨hparses, htier, hmarked⟩ := ih (ledger.markParsed first)
    rw [foldl_cons]
    refine ⟨hparses, htier, ?_⟩
    intro url
    rw [hmarked, mem_cons]
    change url ∈ addOnce ledger.parsedFightUrls first ∨ _ ↔ _
    rw [mem_addOnce, or_assoc]

theorem troubleGroups_spec (plan : ParseGroupPlan) (scopes : List ParseGroup)
    (ledger : ParseLedger) :
    (troubleGroups plan scopes ledger).parsedFightUrls = ledger.parsedFightUrls ∧
      (troubleGroups plan scopes ledger).troubledTierBestRaidIds =
        ledger.troubledTierBestRaidIds ∧
      ∀ raidId, raidId ∈ (troubleGroups plan scopes ledger).troubledParseRaidIds ↔
        raidId ∈ ledger.troubledParseRaidIds ∨ ∃ scope ∈ scopes, raidId ∈ raidsOf plan scope := by
  unfold troubleGroups
  induction scopes generalizing ledger with
  | nil => exact ⟨rfl, rfl, fun raidId => by simp⟩
  | cons first rest ih =>
    obtain ⟨hparsed, htier, htroubled⟩ := ih
      ((raidsOf plan first).foldl ParseLedger.troubleParses ledger)
    obtain ⟨hparsedFirst, htierFirst, htroubledFirst⟩ :=
      foldl_troubleParses (raidsOf plan first) ledger
    rw [foldl_cons]
    refine ⟨hparsed.trans hparsedFirst, htier.trans htierFirst, ?_⟩
    intro raidId
    rw [exists_mem_cons_iff, ← or_assoc, ← htroubledFirst]
    exact htroubled raidId

theorem markGroupsRead_spec (plan : ParseGroupPlan) (scopes : List ParseGroup)
    (ledger : ParseLedger) :
    (markGroupsRead plan scopes ledger).troubledParseRaidIds = ledger.troubledParseRaidIds ∧
      (markGroupsRead plan scopes ledger).troubledTierBestRaidIds =
        ledger.troubledTierBestRaidIds ∧
      ∀ url, url ∈ (markGroupsRead plan scopes ledger).parsedFightUrls ↔
        url ∈ ledger.parsedFightUrls ∨ ∃ scope ∈ scopes, url ∈ urlsOf plan scope := by
  unfold markGroupsRead
  induction scopes generalizing ledger with
  | nil => exact ⟨rfl, rfl, fun url => by simp⟩
  | cons first rest ih =>
    obtain ⟨hparses, htier, hmarked⟩ := ih
      ((urlsOf plan first).foldl ParseLedger.markParsed ledger)
    obtain ⟨hparsesFirst, htierFirst, hmarkedFirst⟩ :=
      foldl_markParsed (urlsOf plan first) ledger
    rw [foldl_cons]
    refine ⟨hparses.trans hparsesFirst, htier.trans htierFirst, ?_⟩
    intro url
    rw [exists_mem_cons_iff, ← or_assoc, ← hmarkedFirst]
    exact hmarked url

theorem grown_troubleGroups (plan : ParseGroupPlan) (scopes : List ParseGroup)
    (ledger : ParseLedger) : Grown ledger (troubleGroups plan scopes ledger) := by
  obtain ⟨hparsed, htier, htroubled⟩ := troubleGroups_spec plan scopes ledger
  refine ⟨?_, fun raidId h => (htroubled raidId).mpr (.inl h), ?_⟩
  · intro raidId h
    rw [htier]
    exact h
  · intro url h
    rw [hparsed]
    exact h

theorem grown_markGroupsRead (plan : ParseGroupPlan) (scopes : List ParseGroup)
    (ledger : ParseLedger) : Grown ledger (markGroupsRead plan scopes ledger) := by
  obtain ⟨hparses, htier, hmarked⟩ := markGroupsRead_spec plan scopes ledger
  refine ⟨?_, ?_, fun url h => (hmarked url).mpr (.inl h)⟩
  · intro raidId h
    rw [htier]
    exact h
  · intro raidId h
    rw [hparses]
    exact h

theorem grown_raise (ledger : ParseLedger) (limitation : Limitation) (preferExisting : Bool) :
    Grown ledger (ledger.raise limitation preferExisting) :=
  ⟨fun _ h => h, fun _ h => h, fun _ h => h⟩

/-- A report's fights are all marked, or its raids all troubled. -/
def Settled (plan : ParseGroupPlan) (ledger : ParseLedger) (group : ParseGroup) : Prop :=
  (∀ url ∈ urlsOf plan group, url ∈ ledger.parsedFightUrls) ∨
    ∀ raidId ∈ raidsOf plan group, raidId ∈ ledger.troubledParseRaidIds

variable {group : ParseGroup}

theorem Settled.grown (h : Settled plan ledger group) (hgrown : Grown ledger ledger') :
    Settled plan ledger' group := by
  rcases h with hmarked | htroubled
  · exact .inl (fun url hurl => hgrown.parsed url (hmarked url hurl))
  · exact .inr (fun raidId hraid => hgrown.parses raidId (htroubled raidId hraid))

theorem settled_troubleGroups {scopes : List ParseGroup} (h : group ∈ scopes)
    (ledger : ParseLedger) :
    Settled plan (troubleGroups plan scopes ledger) group := by
  right
  intro raidId hraid
  exact ((troubleGroups_spec plan scopes ledger).2.2 raidId).mpr (.inr ⟨group, h, hraid⟩)

theorem settled_markGroupsRead {scopes : List ParseGroup} (h : group ∈ scopes)
    (ledger : ParseLedger) :
    Settled plan (markGroupsRead plan scopes ledger) group := by
  left
  intro url hurl
  exact ((markGroupsRead_spec plan scopes ledger).2.2 url).mpr (.inr ⟨group, h, hurl⟩)

variable {runtime : Runtime} {specIconUrl : String → Option String → Option String}
  {options : Options} {upstream : Upstream}

/-- Every request so far was of a zone or of a report, and one more fits in the budget. -/
structure InBudget (options : Options) (run : CollectionRun) : Prop where
  counted : run.asked.length = run.parseRequests
  spare : run.parseRequests + 1 ≤ options.parseRequestCap

/-- A zone whose rankings were read and decoded, and its bests kept. -/
def ZoneRead (runtime : Runtime) (specIconUrl : String → Option String → Option String)
    (options : Options) (run : CollectionRun) (tierBests : List WarcraftLogsTierBestParse)
    (zone : TierZone) : Prop :=
  ∃ value decoded, (ParseQuery.zoneRankings zone.zoneId, Reply.success value) ∈ run.asked ∧
    decodeZoneRankings runtime specIconUrl value zone options.key options.className = .ok decoded ∧
    ∀ best ∈ decoded, best ∈ tierBests

/-- The zones of a plan are each read or troubled. -/
structure ZonesDone (runtime : Runtime) (specIconUrl : String → Option String → Option String)
    (options : Options) (zones : List TierZone) (run : CollectionRun)
    (tierBests : List WarcraftLogsTierBestParse)
    (out : CollectionRun × List WarcraftLogsTierBestParse) : Prop where
  kills : out.1.kills = run.kills
  asked : ∀ request ∈ run.asked, request ∈ out.1.asked
  parsed : out.1.ledger.parsedFightUrls = run.ledger.parsedFightUrls
  grown : Grown run.ledger out.1.ledger
  bests : ∀ best ∈ tierBests, best ∈ out.2
  settled : ∀ zone ∈ zones, ZoneRead runtime specIconUrl options out.1 out.2 zone ∨
    toString zone.zoneId ∈ out.1.ledger.troubledTierBestRaidIds
  budget : InBudget options out.1

variable {run : CollectionRun}

theorem mem_asked_spent {query : ParseQuery} {value : Json}
    (h : answerOf upstream run query = some (.success value)) :
    (query, Reply.success value) ∈ (run.spent upstream query).asked := by
  have hreply : upstream run.asked.length query = .success value := by
    unfold answerOf unavailableOnTimeout at h
    cases hreply : upstream run.asked.length query with
    | success found =>
      rw [hreply] at h
      cases h
      rfl
    | limitation limitation =>
      rw [hreply] at h
      cases h
    | timedOut =>
      rw [hreply] at h
      cases h
    | cancelled =>
      rw [hreply] at h
      cases h
  change _ ∈ run.asked ++ [(query, upstream run.asked.length query)]
  rw [hreply]
  exact mem_append_right _ mem_cons_self

variable (zones : List TierZone)

theorem troubleFrom_spec (ledger : ParseLedger) :
    (troubleFrom zones ledger).parsedFightUrls = ledger.parsedFightUrls ∧
      (troubleFrom zones ledger).troubledParseRaidIds = ledger.troubledParseRaidIds ∧
      ∀ raidId, raidId ∈ (troubleFrom zones ledger).troubledTierBestRaidIds ↔
        raidId ∈ ledger.troubledTierBestRaidIds ∨ ∃ zone ∈ zones, toString zone.zoneId = raidId := by
  unfold troubleFrom
  induction zones generalizing ledger with
  | nil => exact ⟨rfl, rfl, fun raidId => by simp⟩
  | cons first rest ih =>
    obtain ⟨hparsed, hparses, htroubled⟩ := ih (ledger.troubleTierBests (toString first.zoneId))
    rw [foldl_cons]
    refine ⟨hparsed, hparses, ?_⟩
    intro raidId
    rw [htroubled, exists_mem_cons_iff, ← or_assoc]
    change raidId ∈ addOnce ledger.troubledTierBestRaidIds _ ∨ _ ↔ _
    rw [mem_addOnce, eq_comm (a := raidId)]

theorem grown_troubleFrom (ledger : ParseLedger) :
    Grown ledger (troubleFrom zones ledger) := by
  obtain ⟨hparsed, hparses, htroubled⟩ := troubleFrom_spec zones ledger
  refine ⟨fun raidId h => (htroubled raidId).mpr (.inl h), ?_, ?_⟩
  · intro raidId h
    rw [hparses]
    exact h
  · intro url h
    rw [hparsed]
    exact h

theorem grown_troubleTierBests (ledger : ParseLedger) (raidId : String) :
    Grown ledger (ledger.troubleTierBests raidId) :=
  ⟨fun _ h => mem_addOnce.mpr (.inl h), fun _ h => h, fun _ h => h⟩

theorem asked_spent (query : ParseQuery) :
    ∀ request ∈ run.asked, request ∈ (run.spent upstream query).asked :=
  fun _ h => mem_append_left _ h

theorem inBudget_spent (query : ParseQuery) (hcounted : run.asked.length = run.parseRequests)
    (hspare : run.parseRequests + 2 ≤ options.parseRequestCap) :
    InBudget options (run.spent upstream query) := by
  constructor
  · change (run.asked ++ _).length = run.parseRequests + 1
    rw [length_append, length_singleton, hcounted]
  · exact hspare

/-- However the zones are left, each is read or troubled. -/
theorem readZones_spec (run : CollectionRun) (tierBests : List WarcraftLogsTierBestParse)
    (hcounted : run.asked.length = run.parseRequests)
    (hspare : run.parseRequests + zones.length + 1 ≤ options.parseRequestCap) :
    Ends (ZonesDone runtime specIconUrl options zones run tierBests) (InBudget options)
      (readZones runtime specIconUrl options upstream zones run tierBests) := by
  induction zones generalizing run tierBests with
  | nil =>
    refine ⟨rfl, fun _ h => h, rfl, Grown.refl _, fun _ h => h, ?_, hcounted, hspare⟩
    intro zone hzone
    cases hzone
  | cons zone rest ih =>
    rw [length_cons] at hspare
    have hbudget : InBudget options (run.spent upstream (.zoneRankings zone.zoneId)) :=
      inBudget_spent _ hcounted (by omega)
    have hnext : (run.spent upstream (.zoneRankings zone.zoneId)).parseRequests + rest.length + 1 ≤
        options.parseRequestCap := by
      change run.parseRequests + 1 + rest.length + 1 ≤ _
      omega
    -- the zones that are stopped before are troubled with the one that failed
    have hstopped : ∀ ledger : ParseLedger, Grown (run.ledger.troubleTierBests
        (toString zone.zoneId)) ledger → ledger.parsedFightUrls = run.ledger.parsedFightUrls →
        ZonesDone runtime specIconUrl options (zone :: rest) run tierBests
          ({ run.spent upstream (.zoneRankings zone.zoneId) with ledger := troubleFrom rest ledger },
            tierBests) := by
      intro ledger hgrown hparsed
      refine ⟨rfl, asked_spent _, ?_, ?_, fun _ h => h, ?_, hbudget.counted, hbudget.spare⟩
      · exact (troubleFrom_spec rest ledger).1.trans hparsed
      · exact ((grown_troubleTierBests _ _).trans hgrown).trans (grown_troubleFrom rest ledger)
      · intro other hother
        right
        rcases mem_cons.mp hother with heq | hin
        · rw [heq]
          apply (grown_troubleFrom rest ledger).tierBests
          exact hgrown.tierBests _ (mem_addOnce.mpr (.inr rfl))
        · exact ((troubleFrom_spec rest ledger).2.2 _).mpr (.inr ⟨other, hin, rfl⟩)
    unfold readZones
    simp only
    cases hanswer : answerOf upstream run (.zoneRankings zone.zoneId) with
    | none => exact hbudget
    | some answer =>
      cases answer with
      | limitation limitation =>
        exact hstopped _ ⟨fun _ h => h, fun _ h => h, fun _ h => h⟩ rfl
      | success value =>
        simp only
        cases hdecoded : decodeZoneRankings runtime specIconUrl value zone options.key
            options.className with
        | ok decoded =>
          simp only
          have hrest := ih (run.spent upstream (.zoneRankings zone.zoneId)) (tierBests ++ decoded)
            hbudget.counted hnext
          apply hrest.imp
          intro out hdone
          refine ⟨hdone.kills, fun request h => hdone.asked request (asked_spent _ request h),
            hdone.parsed, hdone.grown,
            fun best h => hdone.bests best (mem_append_left _ h), ?_, hdone.budget⟩
          intro other hother
          rcases mem_cons.mp hother with heq | hin
          · rw [heq]
            exact .inl ⟨value, decoded, hdone.asked _ (mem_asked_spent hanswer), hdecoded,
              fun best h => hdone.bests best (mem_append_right _ h)⟩
          · exact hdone.settled other hin
        | error limitation =>
          simp only
          split
          · have hrest := ih ((run.spent upstream (.zoneRankings zone.zoneId)).noted (fun ledger =>
              (ledger.troubleTierBests (toString zone.zoneId)).raiseTier limitation)) tierBests
              hbudget.counted hnext
            apply hrest.imp
            intro out hdone
            refine ⟨hdone.kills, fun request h => hdone.asked request (asked_spent _ request h),
              hdone.parsed, (grown_troubleTierBests _ (toString zone.zoneId)).trans
                ⟨hdone.grown.tierBests, hdone.grown.parses, hdone.grown.parsed⟩,
              hdone.bests, ?_, hdone.budget⟩
            intro other hother
            rcases mem_cons.mp hother with heq | hin
            · rw [heq]
              exact .inr (hdone.grown.tierBests _ (mem_addOnce.mpr (.inr rfl)))
            · exact hdone.settled other hin
          · exact hstopped _ ⟨fun _ h => h, fun _ h => h, fun _ h => h⟩ rfl

def Answered (run : CollectionRun) (group : ParseGroup) (value : Json) : Prop :=
  (fightQuery group, Reply.success value) ∈ run.asked

/-- The answer ranks others beside the character. -/
def Unmatched (runtime : Runtime) (options : Options) (group : ParseGroup) (value : Json) : Prop :=
  ∃ limitation, decodeRankingRows runtime value group options.key = .error limitation ∧
    limitation.code = .parseIdentityUnmatched

def DecodedFrom (runtime : Runtime) (options : Options) (run : CollectionRun)
    (entry : DecodedGroup) : Prop :=
  ∃ value, Answered run entry.group value ∧
    decodeRankingRows runtime value entry.group options.key = .ok entry.decoded

structure GroupsDone (runtime : Runtime) (options : Options) (plan : ParseGroupPlan)
    (groups : List ParseGroup) (run : CollectionRun) (decodedGroups : List DecodedGroup)
    (out : CollectionRun × List DecodedGroup) : Prop where
  kills : out.1.kills = run.kills
  asked : ∀ request ∈ run.asked, request ∈ out.1.asked
  grown : Grown run.ledger out.1.ledger
  decoded : ∃ new : List DecodedGroup, out.2 = decodedGroups ++ new ∧
    List.Sublist (new.map DecodedGroup.group) groups ∧
    (∀ entry ∈ new, DecodedFrom runtime options out.1 entry) ∧
    ∀ group ∈ groups, group ∈ new.map DecodedGroup.group ∨ Settled plan out.1.ledger group
  marked : ∀ url ∈ out.1.ledger.parsedFightUrls, url ∈ run.ledger.parsedFightUrls ∨
    ∃ group ∈ groups, url ∈ urlsOf plan group ∧
      ∃ value, Answered out.1 group value ∧ Unmatched runtime options group value
  budget : InBudget options out.1

/-- A group that is left out of the decoded ones, before the rest is read. -/
theorem GroupsDone.cons_settled {group : ParseGroup} {rest : List ParseGroup}
    {run next : CollectionRun} {decodedGroups : List DecodedGroup}
    {out : CollectionRun × List DecodedGroup}
    (h : GroupsDone runtime options plan rest next decodedGroups out)
    (hkills : next.kills = run.kills) (hasked : ∀ request ∈ run.asked, request ∈ next.asked)
    (hgrown : Grown run.ledger next.ledger) (hsettled : Settled plan next.ledger group)
    (hmarked : ∀ url ∈ next.ledger.parsedFightUrls, url ∈ run.ledger.parsedFightUrls ∨
      (url ∈ urlsOf plan group ∧
        ∃ value, Answered next group value ∧ Unmatched runtime options group value)) :
    GroupsDone runtime options plan (group :: rest) run decodedGroups out := by
  obtain ⟨new, hout, hsub, hdecoded, hleft⟩ := h.decoded
  refine ⟨h.kills.trans hkills, fun request hin => h.asked request (hasked request hin),
    hgrown.trans h.grown, ⟨new, hout, hsub.cons group, hdecoded, ?_⟩, ?_, h.budget⟩
  · intro other hother
    rcases mem_cons.mp hother with heq | hin
    · rw [heq]
      exact .inr (hsettled.grown h.grown)
    · exact hleft other hin
  · intro url hurl
    rcases h.marked url hurl with hold | ⟨other, hother, hrest⟩
    · rcases hmarked url hold with hbefore | ⟨hof, value, hanswered, hunmatched⟩
      · exact .inl hbefore
      · exact .inr ⟨group, mem_cons_self, hof, value, h.asked _ hanswered, hunmatched⟩
    · exact .inr ⟨other, mem_cons_of_mem _ hother, hrest⟩

/-- Where the loop stops, all groups left are troubled. -/
theorem groupsDone_stopped {groups : List ParseGroup} {run next : CollectionRun}
    (decodedGroups : List DecodedGroup) {ledger : ParseLedger} (hkills : next.kills = run.kills)
    (hasked : ∀ request ∈ run.asked, request ∈ next.asked)
    (hgrown : Grown run.ledger ledger) (hparsed : ledger.parsedFightUrls =
      run.ledger.parsedFightUrls) (hbudget : InBudget options next) :
    GroupsDone runtime options plan groups run decodedGroups
      ({ next with ledger := troubleGroups plan groups ledger }, decodedGroups) := by
  refine ⟨hkills, hasked, hgrown.trans (grown_troubleGroups plan groups ledger),
    ⟨[], (append_nil _).symm, nil_sublist _, ?_, ?_⟩, ?_,
    hbudget.counted, hbudget.spare⟩
  · intro entry hentry
    cases hentry
  · intro group hgroup
    exact .inr (settled_troubleGroups hgroup ledger)
  · intro url hurl
    simp only at hurl
    rw [(troubleGroups_spec plan groups ledger).1, hparsed] at hurl
    exact .inl hurl

/-- However the reports are left, each is decoded, marked or troubled. -/
theorem readGroups_spec (groups : List ParseGroup) (run : CollectionRun)
    (decodedGroups : List DecodedGroup) (hbudget : InBudget options run) :
    Ends (GroupsDone runtime options plan groups run decodedGroups) (InBudget options)
      (readGroups runtime options upstream plan groups run decodedGroups) := by
  induction groups generalizing run decodedGroups with
  | nil =>
    refine ⟨rfl, fun _ h => h, Grown.refl _, ⟨[], (append_nil _).symm, nil_sublist _,
      ?_, ?_⟩, fun _ h => .inl h, hbudget⟩
    · intro entry hentry
      cases hentry
    · intro group hgroup
      cases hgroup
  | cons group rest ih =>
    unfold readGroups
    split
    · exact groupsDone_stopped decodedGroups rfl (fun _ h => h) (grown_raise _ _ _) rfl hbudget
    · rename_i hspare
      have hasked : InBudget options (run.spent upstream (fightQuery group)) :=
        inBudget_spent _ hbudget.counted (by omega)
      simp only
      cases hanswer : answerOf upstream run (fightQuery group) with
      | none => exact hasked
      | some answer =>
        cases answer with
        | limitation limitation =>
          exact groupsDone_stopped decodedGroups rfl (asked_spent _) (grown_raise _ _ _) rfl hasked
        | success value =>
          have hanswered : Answered (run.spent upstream (fightQuery group)) group value :=
            mem_asked_spent hanswer
          simp only
          cases hdecoded : decodeRankingRows runtime value group options.key with
          | ok decoded =>
            simp only
            have hrest := ih (run.spent upstream (fightQuery group))
              (decodedGroups ++ [⟨group, decoded⟩]) hasked
            apply hrest.imp
            intro out hdone
            obtain ⟨new, hout, hsub, hfrom, hleft⟩ := hdone.decoded
            refine ⟨hdone.kills, fun request h => hdone.asked request (asked_spent _ request h),
              hdone.grown, ⟨⟨group, decoded⟩ :: new, ?_, ?_, ?_, ?_⟩, ?_, hdone.budget⟩
            · rw [hout, append_assoc]
              rfl
            · exact hsub.cons_cons group
            · intro entry hentry
              rcases mem_cons.mp hentry with heq | hin
              · rw [heq]
                exact ⟨value, hdone.asked _ hanswered, hdecoded⟩
              · exact hfrom entry hin
            · intro other hother
              rcases mem_cons.mp hother with heq | hin
              · rw [heq]
                exact .inl mem_cons_self
              · rcases hleft other hin with hnew | hsettled
                · exact .inl (mem_cons_of_mem _ hnew)
                · exact .inr hsettled
            · intro url hurl
              rcases hdone.marked url hurl with hold | ⟨other, hother, hmarked⟩
              · exact .inl hold
              · exact .inr ⟨other, mem_cons_of_mem _ hother, hmarked⟩
          | error limitation =>
            simp only
            split
            · by_cases hunmatched : limitation.code = .parseIdentityUnmatched
              · rw [if_pos hunmatched]
                apply (ih ((((run.spent upstream (fightQuery group)).noted (fun ledger =>
                  ledger.raise limitation false)).noted (markGroupsRead plan [group])).noted
                    (troubleGroups plan [group])) decodedGroups
                      ⟨hasked.counted, hasked.spare⟩).imp
                intro out hdone
                refine hdone.cons_settled ?_ ?_ ?_ ?_ ?_
                · rfl
                · exact asked_spent _
                · exact ((grown_raise run.ledger limitation false).trans
                    (grown_markGroupsRead plan [group] _)).trans (grown_troubleGroups plan [group] _)
                · exact settled_troubleGroups mem_cons_self _
                · intro url hurl
                  change url ∈ (troubleGroups plan [group] (markGroupsRead plan [group]
                    (run.ledger.raise limitation false))).parsedFightUrls at hurl
                  rw [(troubleGroups_spec plan [group] _).1,
                    (markGroupsRead_spec plan [group] _).2.2] at hurl
                  rcases hurl with hold | ⟨scope, hscope, hof⟩
                  · exact .inl hold
                  · rw [mem_singleton.mp hscope] at hof
                    exact .inr ⟨hof, value, hanswered, limitation, hdecoded, hunmatched⟩
              · rw [if_neg hunmatched]
                apply (ih (((run.spent upstream (fightQuery group)).noted (fun ledger =>
                  ledger.raise limitation false)).noted (troubleGroups plan [group])) decodedGroups
                    ⟨hasked.counted, hasked.spare⟩).imp
                intro out hdone
                refine hdone.cons_settled ?_ ?_ ?_ ?_ ?_
                · rfl
                · exact asked_spent _
                · exact (grown_raise run.ledger limitation false).trans
                    (grown_troubleGroups plan [group] _)
                · exact settled_troubleGroups mem_cons_self _
                · intro url hurl
                  change url ∈ (troubleGroups plan [group]
                    (run.ledger.raise limitation false)).parsedFightUrls at hurl
                  rw [(troubleGroups_spec plan [group] _).1] at hurl
                  exact .inl hurl
            · exact groupsDone_stopped decodedGroups rfl (asked_spent _) (grown_raise _ _ _) rfl
                ⟨hasked.counted, hasked.spare⟩

end SlashWho.ParseReads
