import Mathlib.Algebra.Order.Ring.Rat
import Mathlib.Data.Finset.Basic
import SlashWho.OrderedMap

/-!
What one publication writes: a run's findings merged with the character's
stored evidence. A performance is held in the form `publish` lets through, so
an available metric carries its percentile and no other metric has one. Set
membership is the only thing the merge reads of the terminal raids. A compound
key such as raid and boss is a pair, as the ids hold no separator character.
-/

namespace SlashWho.EvidenceMerge

open List

/-- Milliseconds since the epoch, which is how uniform ISO strings order. -/
abbrev Instant := ℕ

abbrev Percentile := { p : ℚ // 0 ≤ p ∧ p ≤ 100 }

inductive ParseMetric
  | available (percentile : Percentile)
  | notApplicable
  | unavailable
  deriving DecidableEq

def ParseMetric.isAvailable : ParseMetric → Bool
  | .available _ => true
  | _ => false

structure KillSpec where
  name : String
  iconUrl : String
  deriving DecidableEq

structure PerformanceValues where
  spec : Option KillSpec
  damage : ParseMetric
  healing : ParseMetric
  bossDamage : ParseMetric
  deriving DecidableEq

inductive MetricName
  | damage
  | healing
  | bossDamage
  deriving DecidableEq

def PerformanceValues.metric (performance : PerformanceValues) : MetricName → ParseMetric
  | .damage => performance.damage
  | .healing => performance.healing
  | .bossDamage => performance.bossDamage

/-- A value already observed for a fight is never worsened by a later blank. -/
def mergeParseMetric (previous incoming : ParseMetric) : ParseMetric :=
  if incoming.isAvailable || !previous.isAvailable then incoming else previous

def mergePerformanceValues (previous incoming : PerformanceValues) : PerformanceValues where
  spec := incoming.spec.or previous.spec
  damage := mergeParseMetric previous.damage incoming.damage
  healing := mergeParseMetric previous.healing incoming.healing
  bossDamage := mergeParseMetric previous.bossDamage incoming.bossDamage

structure MythicKill where
  raidId : String
  raidName : String
  bossId : String
  bossName : String
  journalBossId : Option String
  killedAt : Instant
  fightUrl : String
  historicWorldRank : Option ℕ
  historicRankCheckedAt : Option Instant
  performance : PerformanceValues
  deriving DecidableEq

structure MythicWipe where
  raidId : String
  raidName : String
  bossId : String
  attemptedAt : Instant
  fightUrl : String
  deriving DecidableEq

structure TierBestParse where
  raidId : String
  bossId : String
  performance : PerformanceValues
  deriving DecidableEq

structure StoredTierBest where
  tierBest : TierBestParse
  performance : PerformanceValues
  collectedAt : Instant
  deriving DecidableEq

structure HistoricRank where
  historicWorldRank : Option ℕ
  historicRankCheckedAt : Option Instant

structure PositiveEvidence where
  kills : List MythicKill
  wipes : List MythicWipe

/-- Everything a publish reads of the stored evidence before it writes. -/
structure StoredEvidenceForMerge where
  positive : PositiveEvidence
  tierSearchKills : List MythicKill
  terminalKillRaidIds : Finset String
  performanceByFightUrl : OrderedMap String PerformanceValues
  collectedAtByFightUrl : OrderedMap String Instant
  parsesReadAtByFightUrl : OrderedMap String Instant
  historicRankByFightUrl : OrderedMap String HistoricRank
  tierBests : OrderedMap (String × String) StoredTierBest

inductive PublishState
  | complete
  | partial_
  deriving DecidableEq

structure EvidencePublishInput where
  state : PublishState
  completedAt : Instant
  kills : List MythicKill
  wipes : List MythicWipe
  tierBests : List TierBestParse
  parsedFightUrls : Option (List String)

structure KillEntry where
  kill : MythicKill
  performance : PerformanceValues

structure MergedKill where
  kill : MythicKill
  performance : PerformanceValues
  historicWorldRank : Option ℕ
  historicRankCheckedAt : Option Instant
  collectedAt : Instant
  parsesReadAt : Option Instant
  deriving DecidableEq

structure MergedEvidence where
  kills : List MergedKill
  wipes : List MythicWipe
  tierBests : List StoredTierBest

variable (stored : StoredEvidenceForMerge) (input : EvidencePublishInput) (targeted : Bool)

/-- A partial or targeted publish carries everything stored. A complete
ordinary one carries the tier-search kills and the terminal raids, and where
both name a fight the terminal copy is the later entry and wins. -/
def previousKills : List MythicKill :=
  if input.state = .partial_ ∨ targeted then stored.positive.kills
  else (OrderedMap.ofList
    ((stored.tierSearchKills ++
      stored.positive.kills.filter (fun kill => kill.raidId ∈ stored.terminalKillRaidIds)).map
        (fun kill => (kill.fightUrl, kill)))).values

def previousWipes : List MythicWipe :=
  if input.state = .partial_ ∨ targeted then stored.positive.wipes
  else stored.positive.wipes.filter (fun wipe => wipe.raidId ∈ stored.terminalKillRaidIds)

def incomingFightUrls : List String := input.kills.map MythicKill.fightUrl

/-- A targeted search vouches only for the fights it publishes. -/
def parsedFightUrls : List String :=
  (input.parsedFightUrls.getD []).filter
    (fun url => !targeted || url ∈ incomingFightUrls input)

def carriedEntries : OrderedMap String KillEntry :=
  .ofList ((previousKills stored input targeted).map
    (fun kill => (kill.fightUrl, ⟨kill, kill.performance⟩)))

/-- What an incoming kill is merged with: the entry held so far for its fight,
else the newest stored parses of it. -/
def storedPerformance (kills : OrderedMap String KillEntry) (url : String) :
    Option PerformanceValues :=
  match kills.get? url with
  | some entry => some entry.performance
  | none => stored.performanceByFightUrl.get? url

def addIncomingKill (kills : OrderedMap String KillEntry) (kill : MythicKill) :
    OrderedMap String KillEntry :=
  kills.set kill.fightUrl
    { kill := kill
      performance :=
        match storedPerformance stored kills kill.fightUrl with
        | none => kill.performance
        | some previous => mergePerformanceValues previous kill.performance }

def mergedKillEntries : OrderedMap String KillEntry :=
  input.kills.foldl (addIncomingKill stored) (carriedEntries stored input targeted)

def publishKill (entry : KillEntry) : MergedKill where
  kill := entry.kill
  performance := entry.performance
  historicWorldRank :=
    entry.kill.historicWorldRank.or
      ((stored.historicRankByFightUrl.get? entry.kill.fightUrl).bind
        HistoricRank.historicWorldRank)
  historicRankCheckedAt :=
    entry.kill.historicRankCheckedAt.or
      ((stored.historicRankByFightUrl.get? entry.kill.fightUrl).bind
        HistoricRank.historicRankCheckedAt)
  collectedAt :=
    if entry.kill.fightUrl ∈ incomingFightUrls input then input.completedAt
    else (stored.collectedAtByFightUrl.get? entry.kill.fightUrl).getD input.completedAt
  parsesReadAt :=
    if entry.kill.fightUrl ∈ parsedFightUrls input targeted then some input.completedAt
    else stored.parsesReadAtByFightUrl.get? entry.kill.fightUrl

def mergedWipes : OrderedMap String MythicWipe :=
  .ofList ((previousWipes stored input targeted ++ input.wipes).map
    (fun wipe => (wipe.fightUrl, wipe)))

def addIncomingTierBest (tierBests : OrderedMap (String × String) StoredTierBest)
    (tierBest : TierBestParse) : OrderedMap (String × String) StoredTierBest :=
  tierBests.set (tierBest.raidId, tierBest.bossId)
    { tierBest := tierBest
      performance :=
        match tierBests.get? (tierBest.raidId, tierBest.bossId) with
        | none => tierBest.performance
        | some previous => mergePerformanceValues previous.performance tierBest.performance
      collectedAt := input.completedAt }

def mergePublishedEvidence : MergedEvidence where
  kills := (mergedKillEntries stored input targeted).values.map
    (publishKill stored input targeted)
  wipes := (mergedWipes stored input targeted).values
  tierBests := (input.tierBests.foldl (addIncomingTierBest input) stored.tierBests).values

theorem mergePerformanceValues_metric (previous incoming : PerformanceValues)
    (m : MetricName) :
    (mergePerformanceValues previous incoming).metric m =
      mergeParseMetric (previous.metric m) (incoming.metric m) := by
  cases m <;> rfl

/-- The run found the fight with an available value for the metric. -/
def Supplies (kills : List MythicKill) (url : String) (m : MetricName) : Prop :=
  ∃ kill ∈ kills, kill.fightUrl = url ∧ (kill.performance.metric m).isAvailable = true

theorem supplies_cons (kill : MythicKill) (rest : List MythicKill) (url : String)
    (m : MetricName) :
    Supplies (kill :: rest) url m ↔
      (kill.fightUrl = url ∧ (kill.performance.metric m).isAvailable = true) ∨
        Supplies rest url m := by
  simp [Supplies]

variable (kills : OrderedMap String KillEntry)

theorem addIncomingKill_get? (kill : MythicKill) (url : String) :
    ((addIncomingKill stored kills kill).get? url).map KillEntry.performance =
      if url = kill.fightUrl then
        some (match storedPerformance stored kills url with
          | none => kill.performance
          | some previous => mergePerformanceValues previous kill.performance)
      else (kills.get? url).map KillEntry.performance := by
  unfold addIncomingKill
  rw [OrderedMap.get?_set]
  split
  · next h => subst h; rfl
  · rfl

theorem storedPerformance_addIncomingKill (kill : MythicKill) (url : String) :
    storedPerformance stored (addIncomingKill stored kills kill) url =
      if url = kill.fightUrl then
        some (match storedPerformance stored kills url with
          | none => kill.performance
          | some previous => mergePerformanceValues previous kill.performance)
      else storedPerformance stored kills url := by
  have h := addIncomingKill_get? stored kills kill url
  by_cases hu : url = kill.fightUrl
  · rw [if_pos hu] at h ⊢
    rw [← h]
    cases hg : (addIncomingKill stored kills kill).get? url with
    | none => simp [hg] at h
    | some entry => simp [storedPerformance, hg]
  · have hsame : (addIncomingKill stored kills kill).get? url = kills.get? url :=
      OrderedMap.get?_set_ne kills _ hu
    rw [if_neg hu]
    unfold storedPerformance
    rw [hsame]

/-- The value the merge holds for a fight's metric so far. -/
def HoldsMetric (url : String) (m : MetricName) (p : Percentile) : Prop :=
  ∃ performance, storedPerformance stored kills url = some performance ∧
    performance.metric m = .available p

theorem holdsMetric_addIncomingKill (kill : MythicKill) (url : String) (m : MetricName)
    (p : Percentile) :
    HoldsMetric stored (addIncomingKill stored kills kill) url m p ↔
      (kill.fightUrl = url ∧ kill.performance.metric m = .available p) ∨
        (¬ (kill.fightUrl = url ∧ (kill.performance.metric m).isAvailable = true) ∧
          HoldsMetric stored kills url m p) := by
  unfold HoldsMetric
  rw [storedPerformance_addIncomingKill]
  by_cases hu : url = kill.fightUrl
  · subst hu
    cases hstored : storedPerformance stored kills kill.fightUrl with
    | none => cases hk : kill.performance.metric m <;> simp [ParseMetric.isAvailable, hk]
    | some previous =>
      simp only [mergePerformanceValues_metric, if_true, Option.some.injEq, exists_eq_left',
        true_and]
      cases hk : kill.performance.metric m with
      | available q => simp [mergeParseMetric, ParseMetric.isAvailable]
      | notApplicable | unavailable =>
        cases previous.metric m <;> simp [mergeParseMetric, ParseMetric.isAvailable]
  · simp [hu, Ne.symm hu]

variable (incoming : List MythicKill)

/-- A fight the run supplied no value for keeps the value held before. -/
theorem holdsMetric_foldl_of_not_supplies (kills : OrderedMap String KillEntry) (url : String)
    (m : MetricName) (p : Percentile) (h : ¬ Supplies incoming url m) :
    HoldsMetric stored (incoming.foldl (addIncomingKill stored) kills) url m p ↔
      HoldsMetric stored kills url m p := by
  induction incoming generalizing kills with
  | nil => rfl
  | cons kill rest ih =>
    rw [supplies_cons, not_or] at h
    rw [foldl_cons, ih (addIncomingKill stored kills kill) h.2,
      holdsMetric_addIncomingKill]
    constructor
    · rintro (⟨hurl, hk⟩ | ⟨-, hold⟩)
      · exact absurd ⟨hurl, by rw [hk]; rfl⟩ h.1
      · exact hold
    · exact fun hold => .inr ⟨h.1, hold⟩

theorem holdsMetric_foldl_of_supplies (kills : OrderedMap String KillEntry) (url : String)
    (m : MetricName) (h : Supplies incoming url m) :
    ∃ p, HoldsMetric stored (incoming.foldl (addIncomingKill stored) kills) url m p := by
  induction incoming generalizing kills with
  | nil => simp [Supplies] at h
  | cons kill rest ih =>
    by_cases hrest : Supplies rest url m
    · exact ih (addIncomingKill stored kills kill) hrest
    · obtain ⟨hurl, hav⟩ := ((supplies_cons kill rest url m).mp h).resolve_right hrest
      cases hk : kill.performance.metric m with
      | available q =>
        refine ⟨q, ?_⟩
        rw [foldl_cons, holdsMetric_foldl_of_not_supplies stored rest _ url m q hrest,
          holdsMetric_addIncomingKill]
        exact .inl ⟨hurl, hk⟩
      | notApplicable | unavailable => simp [hk, ParseMetric.isAvailable] at hav

def KillEntry.fightUrl (entry : KillEntry) : String := entry.kill.fightUrl

def MergedKill.fightUrl (row : MergedKill) : String := row.kill.fightUrl

theorem filedBy_addIncomingKill {kills : OrderedMap String KillEntry}
    (h : kills.FiledBy KillEntry.fightUrl) (kill : MythicKill) :
    (addIncomingKill stored kills kill).FiledBy KillEntry.fightUrl := h.set rfl

theorem filedBy_foldl (incoming : List MythicKill) {kills : OrderedMap String KillEntry}
    (h : kills.FiledBy KillEntry.fightUrl) :
    (incoming.foldl (addIncomingKill stored) kills).FiledBy KillEntry.fightUrl := by
  induction incoming generalizing kills with
  | nil => exact h
  | cons kill rest ih => exact ih (filedBy_addIncomingKill stored h kill)

theorem filedBy_mergedKillEntries :
    (mergedKillEntries stored input targeted).FiledBy KillEntry.fightUrl := by
  apply filedBy_foldl
  have h := OrderedMap.filedBy_ofList KillEntry.fightUrl
    ((previousKills stored input targeted).map (fun kill => ⟨kill, kill.performance⟩))
  rw [map_map] at h
  exact h

theorem filedBy_mergedWipes :
    (mergedWipes stored input targeted).FiledBy MythicWipe.fightUrl :=
  OrderedMap.filedBy_ofList MythicWipe.fightUrl _

def lastCopy (kills : List MythicKill) (url : String) : Option MythicKill :=
  kills.reverse.find? (fun kill => kill.fightUrl = url)

variable (url : String)

/-- The stored copy a publish takes for a fight: the positive one for a partial
or targeted publish; for a complete ordinary one the positive copy in a
terminal raid, and failing that the copy of its raid's latest search. -/
def copyToCarry : Option MythicKill :=
  if input.state = .partial_ ∨ targeted then lastCopy stored.positive.kills url
  else (lastCopy (stored.positive.kills.filter
      (fun kill => kill.raidId ∈ stored.terminalKillRaidIds)) url).or
    (lastCopy stored.tierSearchKills url)

variable {kill : MythicKill}

theorem lastCopy_fightUrl {kills : List MythicKill} {url : String}
    (h : lastCopy kills url = some kill) : kill.fightUrl = url := by
  simpa using find?_some h

theorem lastCopy_append (left right : List MythicKill) (url : String) :
    lastCopy (left ++ right) url = (lastCopy right url).or (lastCopy left url) := by
  unfold lastCopy
  rw [reverse_append, find?_append]

theorem lastCopy_of_nodup {kills : List MythicKill} (hnodup : (kills.map MythicKill.fightUrl).Nodup)
    (hkill : kill ∈ kills) :
    lastCopy kills kill.fightUrl = some kill := by
  apply find?_eq_some_of_nodup MythicKill.fightUrl _ (mem_reverse.mpr hkill)
  rw [map_reverse]
  exact nodup_reverse.mpr hnodup

/-- The copy the merge carries is the one taken from the stored evidence. -/
theorem lastCopy_previousKills :
    lastCopy (previousKills stored input targeted) url =
      copyToCarry stored input targeted url := by
  unfold previousKills copyToCarry
  by_cases hall : input.state = .partial_ ∨ targeted = true
  · rw [if_pos hall, if_pos hall]
  · rw [if_neg hall, if_neg hall, ← lastCopy_append]
    unfold lastCopy
    rw [(OrderedMap.filedBy_ofList MythicKill.fightUrl _).find?_values,
      OrderedMap.get?_ofList_map]

theorem carriedEntries_get? :
    (carriedEntries stored input targeted).get? url =
      (copyToCarry stored input targeted url).map (fun kill => ⟨kill, kill.performance⟩) := by
  rw [← lastCopy_previousKills]
  unfold carriedEntries lastCopy
  have h := OrderedMap.get?_ofList_map KillEntry.fightUrl
    ((previousKills stored input targeted).map (fun kill => ⟨kill, kill.performance⟩)) url
  rw [map_map] at h
  refine h.trans ?_
  rw [← map_reverse, find?_map]
  rfl

theorem mem_keys_mergedKillEntries :
    url ∈ (mergedKillEntries stored input targeted).keys ↔
      url ∈ (previousKills stored input targeted).map MythicKill.fightUrl ∨
        url ∈ incomingFightUrls input := by
  have hfold : ∀ (incoming : List MythicKill) (kills : OrderedMap String KillEntry),
      url ∈ (incoming.foldl (addIncomingKill stored) kills).keys ↔
        url ∈ kills.keys ∨ url ∈ incoming.map MythicKill.fightUrl := by
    intro incoming
    induction incoming with
    | nil => simp
    | cons kill rest ih =>
      intro kills
      rw [foldl_cons, ih, addIncomingKill, OrderedMap.mem_keys_set, map_cons,
        mem_cons]
      tauto
  rw [mergedKillEntries, hfold, carriedEntries, OrderedMap.mem_keys_ofList, incomingFightUrls]
  simp [map_map, Function.comp_def]

theorem mem_published_kills_iff (row : MergedKill) :
    row ∈ (mergePublishedEvidence stored input targeted).kills ↔
      ∃ entry, (mergedKillEntries stored input targeted).get? row.fightUrl = some entry ∧
        row = publishKill stored input targeted entry := by
  have hfiled := filedBy_mergedKillEntries stored input targeted
  unfold mergePublishedEvidence
  rw [mem_map]
  constructor
  · rintro ⟨entry, hentry, rfl⟩
    exact ⟨entry, hfiled.get?_of_mem hentry, rfl⟩
  · rintro ⟨entry, hentry, hrow⟩
    exact ⟨entry, (OrderedMap.mem_values_iff _ _).mpr ⟨_, hentry⟩, hrow.symm⟩

theorem published_kill_urls :
    (mergePublishedEvidence stored input targeted).kills.map MergedKill.fightUrl =
      (mergedKillEntries stored input targeted).keys := by
  rw [← (filedBy_mergedKillEntries stored input targeted).map_values]
  unfold mergePublishedEvidence
  rw [map_map]
  rfl

theorem nodup_published_kill_urls :
    ((mergePublishedEvidence stored input targeted).kills.map MergedKill.fightUrl).Nodup := by
  rw [published_kill_urls]
  exact OrderedMap.nodup_keys _

theorem nodup_published_wipe_urls :
    ((mergePublishedEvidence stored input targeted).wipes.map MythicWipe.fightUrl).Nodup :=
  (filedBy_mergedWipes stored input targeted).nodup_values

/-- The fights a publish writes are the carried ones and the run's own. -/
theorem mem_published_urls_iff :
    url ∈ (mergePublishedEvidence stored input targeted).kills.map MergedKill.fightUrl ↔
      url ∈ (previousKills stored input targeted).map MythicKill.fightUrl ∨
        url ∈ incomingFightUrls input := by
  rw [published_kill_urls, mem_keys_mergedKillEntries]

theorem mem_published_wipe_urls_iff :
    url ∈ (mergePublishedEvidence stored input targeted).wipes.map MythicWipe.fightUrl ↔
      url ∈ (previousWipes stored input targeted ++ input.wipes).map MythicWipe.fightUrl := by
  change url ∈ (mergedWipes stored input targeted).values.map MythicWipe.fightUrl ↔ _
  rw [(filedBy_mergedWipes stored input targeted).map_values, mergedWipes,
    OrderedMap.mem_keys_ofList, map_map]
  rfl

/-- A fight the run did not come back with keeps the entry carried for it. -/
theorem mergedKillEntries_get?_of_not_incoming {url : String}
    (h : url ∉ incomingFightUrls input) :
    (mergedKillEntries stored input targeted).get? url =
      (carriedEntries stored input targeted).get? url := by
  have hfold : ∀ (incoming : List MythicKill) (kills : OrderedMap String KillEntry),
      url ∉ incoming.map MythicKill.fightUrl →
        (incoming.foldl (addIncomingKill stored) kills).get? url = kills.get? url := by
    intro incoming
    induction incoming with
    | nil => exact fun _ _ => rfl
    | cons kill rest ih =>
      intro kills hout
      rw [map_cons, mem_cons, not_or] at hout
      rw [foldl_cons, ih _ hout.2]
      exact OrderedMap.get?_set_ne kills _ hout.1
  exact hfold input.kills _ h

/-- What a complete ordinary publish carries of a kill in a terminal raid. -/
theorem mem_previousKills_urls_of_terminal (hkill : kill ∈ stored.positive.kills)
    (hraid : kill.raidId ∈ stored.terminalKillRaidIds) :
    kill.fightUrl ∈ (previousKills stored input targeted).map MythicKill.fightUrl := by
  unfold previousKills
  split
  · exact mem_map_of_mem hkill
  · rw [(OrderedMap.filedBy_ofList MythicKill.fightUrl _).map_values, OrderedMap.mem_keys_ofList,
      map_map, mem_map]
    exact ⟨kill, mem_append_right _ (mem_filter.mpr ⟨hkill, by simpa using hraid⟩), rfl⟩

theorem mem_previousWipes_of_terminal {wipe : MythicWipe}
    (hwipe : wipe ∈ stored.positive.wipes) (hraid : wipe.raidId ∈ stored.terminalKillRaidIds) :
    wipe ∈ previousWipes stored input targeted := by
  unfold previousWipes
  split
  · exact hwipe
  · exact mem_filter.mpr ⟨hwipe, by simpa using hraid⟩

end SlashWho.EvidenceMerge
