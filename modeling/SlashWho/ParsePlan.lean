import SlashWho.ComparatorSort
import SlashWho.KeyedBuckets
import SlashWho.ReportDecoding

/-!
What a run spends its parse budget on: the zones whose tier bests it requests, and the
reports whose fights it asks the rankings of. Each is read off the kills the run holds.
What the raid catalogue says of a kill, the reading of a number and the collation of
names are parameters.
-/

namespace SlashWho.ParsePlan

open List ComparatorSort ReportDecoding

/-- What the catalogue says of a kill, and what the runtime makes of text. -/
structure Catalogue where
  currentContentEligibility : String → String → Option Bool
  raidOffersMythicRankings : FirstKillEvidence → Bool
  lookupRaidForEvidence : FirstKillEvidence → Option String
  /-- `Number`; none is no number. -/
  number : String → Option ℚ
  localeCompare : String → String → Ordering

structure CollectionPlanOptions where
  hydratedFightUrls : List String
  collectedTierZones : OrderedMap String String
  terminalParses : List String
  terminalTierBests : List String
  parseJournalRaidId : Option String

variable (catalogue : Catalogue)

/-- Shown in the dossier; an unknown window is left in. -/
def isEligible (kill : FirstKillEvidence) : Bool :=
  catalogue.currentContentEligibility kill.killedAt kill.raidName ≠ some false

structure TierZone where
  zoneId : ℕ
  raidName : String
  latestKilledAt : String
  deriving DecidableEq

def zoneNumber (raidId : String) : Option ℕ :=
  (catalogue.number raidId).bind (fun value =>
    JsonNarrowing.positiveInteger (some (.number value)))

/-- The kill joins its zone, unless the zone can answer no Mythic ranking. -/
def addZone (zones : OrderedMap String TierZone) (kill : FirstKillEvidence) :
    OrderedMap String TierZone :=
  if !isEligible catalogue kill || !catalogue.raidOffersMythicRankings kill then zones
  else
    match zoneNumber catalogue kill.raidId with
    | none => zones
    | some zoneId =>
      zones.set kill.raidId
        (match zones.get? kill.raidId with
        | some seen =>
          { seen with
            latestKilledAt :=
              if text kill.killedAt seen.latestKilledAt = .gt then kill.killedAt
              else seen.latestKilledAt }
        | none => ⟨zoneId, kill.raidName, kill.killedAt⟩)

def compareZones (a b : TierZone) : Ordering :=
  (catalogue.localeCompare b.latestKilledAt a.latestKilledAt).then (compare a.zoneId b.zoneId)

variable (options : CollectionPlanOptions)

/-- Neither terminal nor collected since its newest kill. -/
def isPendingZone (zone : TierZone) : Bool :=
  let raidId := toString zone.zoneId
  raidId ∉ options.terminalTierBests &&
    match options.collectedTierZones.get? raidId with
    | none => true
    | some collectedAt => text collectedAt zone.latestKilledAt ≠ .gt

structure TierZonePlan where
  zones : List TierZone
  unreached : List TierZone

def tierZonePlan (kills : List FirstKillEvidence) (parseRequestCap : ℕ) : TierZonePlan :=
  let zones := kills.foldl (addZone catalogue) .empty
  let zoneRequestCap := (parseRequestCap - 1) / 2
  let pendingZones :=
    (sortBy (compareZones catalogue) zones.values).filter (isPendingZone options)
  ⟨pendingZones.take zoneRequestCap, pendingZones.drop zoneRequestCap⟩

theorem length_zones_le (kills : List FirstKillEvidence) (parseRequestCap : ℕ) :
    (tierZonePlan catalogue options kills parseRequestCap).zones.length ≤
      (parseRequestCap - 1) / 2 :=
  length_take_le _ _

structure ParseFight where
  encounterId : Option ℚ
  difficulty : ℤ

structure ParseGroup where
  reportCode : String
  fights : OrderedMap ℕ ParseFight
  earliestKilledAt : String
  latestKilledAt : String
  hasFirstKill : Bool

structure ParseGroupPlan where
  groups : List ParseGroup
  raidIds : OrderedMap String (List String)
  fightUrls : OrderedMap String (List String)

def earliestByBoss (kills : List FirstKillEvidence) :
    OrderedMap (String × String × ℤ) (String × String) :=
  kills.foldl (fun earliest kill =>
    let bossKey := (kill.raidId, kill.bossId, kill.difficulty)
    match earliest.get? bossKey with
    | none => earliest.set bossKey (kill.killedAt, kill.fightUrl)
    | some seen =>
      if text kill.killedAt seen.1 = .lt then earliest.set bossKey (kill.killedAt, kill.fightUrl)
      else earliest) .empty

def firstKillFightUrls (kills : List FirstKillEvidence) : List String :=
  (earliestByBoss kills).values.map Prod.snd

/-- A kill whose fight's rankings are asked for. -/
def isPlanned (kill : FirstKillEvidence) : Bool :=
  isEligible catalogue kill && kill.raidId ∉ options.terminalParses &&
    kill.fightUrl ∉ options.hydratedFightUrls &&
    (match options.parseJournalRaidId with
    | none => true
    | some raidId => catalogue.lookupRaidForEvidence kill = some raidId)

def planned (kills : List FirstKillEvidence) :
    List FirstKillEvidence :=
  kills.filter (isPlanned catalogue options)

/-- A value added to the set filed under a report. -/
def addToSet (value : FirstKillEvidence → String) (sets : OrderedMap String (List String))
    (kill : FirstKillEvidence) : OrderedMap String (List String) :=
  let held := (sets.get? kill.reportCode).getD []
  sets.set kill.reportCode (if value kill ∈ held then held else held ++ [value kill])

variable (firstKills : List String)

def joinGroup (existing : Option ParseGroup) (kill : FirstKillEvidence) :
    ParseGroup :=
  let fight : ParseFight := ⟨catalogue.number kill.bossId, kill.difficulty⟩
  let isFirstKill := kill.fightUrl ∈ firstKills
  match existing with
  | some group =>
    { group with
      fights := group.fights.set kill.fightId fight
      earliestKilledAt :=
        if text kill.killedAt group.earliestKilledAt = .lt then kill.killedAt
        else group.earliestKilledAt
      latestKilledAt :=
        if text kill.killedAt group.latestKilledAt = .gt then kill.killedAt
        else group.latestKilledAt
      hasFirstKill := group.hasFirstKill || isFirstKill }
  | none =>
    { reportCode := kill.reportCode
      fights := OrderedMap.empty.set kill.fightId fight
      earliestKilledAt := kill.killedAt
      latestKilledAt := kill.killedAt
      hasFirstKill := isFirstKill }

def addGroup (groups : OrderedMap String ParseGroup) (kill : FirstKillEvidence) :
    OrderedMap String ParseGroup :=
  groups.set kill.reportCode
    (joinGroup catalogue firstKills (groups.get? kill.reportCode) kill)

/-- Reports with a boss's first kill come first, then the newest. -/
def compareGroups (a b : ParseGroup) : Ordering :=
  (compare b.hasFirstKill.toNat a.hasFirstKill.toNat).then
    ((catalogue.localeCompare b.latestKilledAt a.latestKilledAt).then
      (catalogue.localeCompare a.reportCode b.reportCode))

def groupsOf (kills : List FirstKillEvidence) :
    OrderedMap String ParseGroup :=
  (planned catalogue options kills).foldl (addGroup catalogue (firstKillFightUrls kills)) .empty

def parseGroupPlan (kills : List FirstKillEvidence) :
    ParseGroupPlan where
  groups := sortBy (compareGroups catalogue) (groupsOf catalogue options kills).values
  raidIds :=
    (planned catalogue options kills).foldl (addToSet FirstKillEvidence.raidId) .empty
  fightUrls :=
    (planned catalogue options kills).foldl (addToSet FirstKillEvidence.fightUrl) .empty

theorem mem_foldl_addToSet (value : FirstKillEvidence → String) (kills : List FirstKillEvidence)
    (code v : String) :
    v ∈ ((kills.foldl (addToSet value) .empty).get? code).getD [] ↔
      ∃ kill ∈ kills, kill.reportCode = code ∧ value kill = v := by
  induction kills using List.reverseRecOn with
  | nil => simp [OrderedMap.get?_empty]
  | append_singleton before kill ih =>
    rw [foldl_append, foldl_cons, foldl_nil]
    generalize before.foldl (addToSet value) .empty = sets at ih ⊢
    unfold addToSet
    simp only
    rw [OrderedMap.get?_set]
    by_cases hcode : code = kill.reportCode
    · rw [if_pos hcode, Option.getD_some]
      have hadded : v ∈ (if value kill ∈ (sets.get? kill.reportCode).getD [] then
          (sets.get? kill.reportCode).getD []
          else (sets.get? kill.reportCode).getD [] ++ [value kill]) ↔
          v ∈ (sets.get? code).getD [] ∨ value kill = v := by
        rw [hcode]
        split
        · rename_i hheld
          constructor
          · exact .inl
          · intro h
            rcases h with hin | heq
            · exact hin
            · rw [← heq]
              exact hheld
        · rw [mem_append, mem_singleton, eq_comm (a := v)]
      rw [hadded, ih]
      constructor
      · intro h
        rcases h with ⟨other, hother, hrest⟩ | heq
        · exact ⟨other, mem_append_left _ hother, hrest⟩
        · exact ⟨kill, mem_append_right _ mem_cons_self, hcode.symm, heq⟩
      · intro h
        obtain ⟨other, hother, hsame, hvalue⟩ := h
        rcases mem_append.mp hother with hin | hin
        · exact .inl ⟨other, hin, hsame, hvalue⟩
        · rw [mem_singleton.mp hin] at hvalue
          exact .inr hvalue
    · rw [if_neg hcode, ih]
      constructor
      · intro h
        obtain ⟨other, hother, hrest⟩ := h
        exact ⟨other, mem_append_left _ hother, hrest⟩
      · intro h
        obtain ⟨other, hother, hsame, hvalue⟩ := h
        rcases mem_append.mp hother with hin | hin
        · exact ⟨other, hin, hsame, hvalue⟩
        · rw [mem_singleton.mp hin] at hsame
          exact absurd hsame.symm hcode

theorem joinGroup_spec (kill : FirstKillEvidence) {existing : Option ParseGroup}
    (hcode : ∀ group, existing = some group → group.reportCode = kill.reportCode) :
    (joinGroup catalogue firstKills existing kill).reportCode = kill.reportCode ∧
      ∀ fightId, fightId ∈ (joinGroup catalogue firstKills existing kill).fights.keys ↔
        fightId = kill.fightId ∨
          ∃ group, existing = some group ∧ fightId ∈ group.fights.keys := by
  unfold joinGroup
  cases existing with
  | none =>
    refine ⟨rfl, ?_⟩
    intro fightId
    simp only
    rw [OrderedMap.mem_keys_set]
    constructor
    · intro h
      rcases h with heq | hin
      · exact .inl heq
      · cases hin
    · intro h
      rcases h with heq | ⟨group, hgroup, -⟩
      · exact .inl heq
      · cases hgroup
  | some group =>
    refine ⟨hcode group rfl, ?_⟩
    intro fightId
    simp only
    rw [OrderedMap.mem_keys_set]
    simp

theorem groupsOf_spec (kills : List FirstKillEvidence) :
    (groupsOf catalogue options kills).FiledBy ParseGroup.reportCode ∧
      ∀ kill ∈ planned catalogue options kills, ∃ group,
        (groupsOf catalogue options kills).get? kill.reportCode = some group ∧
          kill.fightId ∈ group.fights.keys := by
  unfold groupsOf
  induction planned catalogue options kills using List.reverseRecOn with
  | nil =>
    refine ⟨OrderedMap.filedBy_empty _, ?_⟩
    intro kill hkill
    cases hkill
  | append_singleton before kill ih =>
    rw [foldl_append, foldl_cons, foldl_nil]
    generalize before.foldl (addGroup catalogue (firstKillFightUrls kills)) .empty = groups
      at ih ⊢
    obtain ⟨hfiled, hasks⟩ := ih
    unfold addGroup
    obtain ⟨hcode, hfights⟩ := joinGroup_spec catalogue (firstKillFightUrls kills) kill
      (hfiled kill.reportCode)
    refine ⟨hfiled.set hcode, ?_⟩
    intro other hother
    rw [OrderedMap.get?_set]
    split
    · rename_i hsame
      refine ⟨_, rfl, ?_⟩
      rw [hfights]
      rcases mem_append.mp hother with hin | hin
      · rw [← hsame]
        exact .inr (hasks other hin)
      · rw [mem_singleton.mp hin]
        exact .inl rfl
    · rename_i hne
      rcases mem_append.mp hother with hin | hin
      · exact hasks other hin
      · rw [mem_singleton.mp hin] at hne
        exact absurd rfl hne

end SlashWho.ParsePlan
