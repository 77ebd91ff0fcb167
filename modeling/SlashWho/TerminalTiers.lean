import SlashWho.KillScanFloor
import SlashWho.RaidCatalogue
import SlashWho.StagedCollections

/-!
Which tiers a run may stop re-querying. A raid is marked where every kill the
run holds in it lies in a closed window and is old enough for its rankings to
have settled; a scan limitation marks none, and trouble with a raid keeps that
raid's parses open. Both a closed window and a settled kill stay so, so a mark
given at one time is given at every later one.
-/

namespace SlashWho.TerminalTiers

open ComparatorSort RaidCatalogue
open KillScanFloor (TerminalTier)
open StagedCollections (TimeValue Date DateReading TroubledRaidIds)

/-- A kill as the marks weigh it; what identifies a raid may be left out. -/
structure TerminalTierKill where
  raidId : String
  raidName : String
  killedAt : String
  bossName : Option String
  journalBossId : Option (Option String)

structure TerminalTierInput where
  at_ : Date
  settleMs : ℤ
  kills : List TerminalTierKill
  scanSkipped : Bool
  scanLimitation : Option String
  troubledRaidIds : TroubledRaidIds

inductive RaidTierConclusion
  | concluded
  | current
  | unknown
  deriving DecidableEq

def readingDates (rt : Runtime) (dates : DateReading) : Runtime :=
  { rt with parseDate := fun written => (dates.parse written).map Subtype.val }

variable (rt : Runtime) (generated : Generated) (dates : DateReading)

def lookupRaidForEvidence (raidName bossName : String) (journalBossId : Option String) :
    Option RaidCatalogueRaid :=
  match lookupRaidEncounterForEvidence rt generated raidName bossName journalBossId with
  | none => lookupRaidByName rt generated raidName
  | some encounter => lookupRaidByName rt generated encounter.raidName

/-- Of a date that cannot be read, or of a window whose close cannot, nothing is known. -/
def raidTierConclusionForRaidId (raidId : String) (at_ : Date) : RaidTierConclusion :=
  match resolveContentWindow (readingDates rt dates) generated raidId with
  | none => .unknown
  | some window =>
    match window.endsAt with
    | none => .current
    | some endsAt =>
      match dates.parse endsAt, at_ with
      | some endsAt, some now => if endsAt.1 ≤ now.1 then .concluded else .current
      | _, _ => .unknown

def raidTierConclusionForEvidence (raidName bossName : String) (journalBossId : Option String)
    (at_ : Date) : RaidTierConclusion :=
  match lookupRaidForEvidence rt generated raidName bossName journalBossId with
  | none => .unknown
  | some raid => raidTierConclusionForRaidId rt generated dates raid.raidId at_

structure RaidProgress where
  concluded : Bool
  settled : Bool

/-- A kill that cannot be dated has not settled. -/
def killSettled (input : TerminalTierInput) (kill : TerminalTierKill) : Bool :=
  match dates.parse kill.killedAt, input.at_ with
  | some killedAt, some now => killedAt.1 < now.1 - input.settleMs
  | _, _ => false

def killConcluded (input : TerminalTierInput) (kill : TerminalTierKill) : Bool :=
  raidTierConclusionForEvidence rt generated dates kill.raidName (kill.bossName.getD "")
    kill.journalBossId.join input.at_ = .concluded

def addKill (input : TerminalTierInput) (seen : Option RaidProgress) (kill : TerminalTierKill) :
    RaidProgress where
  concluded :=
    (seen.map RaidProgress.concluded).getD true && killConcluded rt generated dates input kill
  settled := (seen.map RaidProgress.settled).getD true && killSettled dates input kill

def raidKills (input : TerminalTierInput) : List TerminalTierKill :=
  input.kills.filter fun kill => !isNonRaidZone rt generated kill.raidName

def raidProgress (input : TerminalTierInput) : OrderedMap String RaidProgress :=
  (raidKills rt generated input).foldl
    (fun raids kill => raids.set kill.raidId
      (addKill rt generated dates input (raids.get? kill.raidId) kill)) .empty

/-- The marks of one raid. A run that skipped its scan settles no kills. -/
def marksOf (input : TerminalTierInput) (raidId : String) (raid : RaidProgress) :
    List TerminalTier :=
  if raid.settled && raid.concluded then
    (if input.scanSkipped then [] else [⟨raidId, .kills⟩]) ++
      (if raidId ∈ input.troubledRaidIds.parses then [] else [⟨raidId, .parses⟩]) ++
      (if raidId ∈ input.troubledRaidIds.tierBests then [] else [⟨raidId, .tierBests⟩])
  else []

def terminalTiersFrom (input : TerminalTierInput) : List TerminalTier :=
  if input.scanLimitation.isSome then []
  else
    (sortBy (readBy Prod.fst rt.localeCompare)
      (raidProgress rt generated dates input).entries).flatMap fun raid => marksOf input raid.1 raid.2

variable {rt : Runtime} {generated : Generated} {dates : DateReading} {input : TerminalTierInput}

/-- Every kill the run holds in a raid has settled, in a window that has closed. -/
def RaidConcluded (rt : Runtime) (generated : Generated) (dates : DateReading)
    (input : TerminalTierInput) (raidId : String) : Prop :=
  ∀ kill ∈ raidKills rt generated input, kill.raidId = raidId →
    killSettled dates input kill = true ∧ killConcluded rt generated dates input kill = true

/-- The run may answer for the domain: it scanned, or had no trouble with the raid. -/
def Answers (input : TerminalTierInput) (tier : TerminalTier) : Prop :=
  match tier.domain with
  | .kills => input.scanSkipped = false
  | .parses => tier.raidId ∉ input.troubledRaidIds.parses
  | .tierBests => tier.raidId ∉ input.troubledRaidIds.tierBests

theorem foldl_addKill (kills : List TerminalTierKill) (seen : Option RaidProgress) :
    (kills.foldl (fun held kill => some (addKill rt generated dates input held kill)) seen).map
      (fun raid => raid.settled && raid.concluded) =
      if kills = [] then seen.map (fun raid => raid.settled && raid.concluded)
      else some ((seen.map (fun raid => raid.settled && raid.concluded)).getD true &&
        kills.all fun kill => killSettled dates input kill &&
          killConcluded rt generated dates input kill) := by
  induction kills generalizing seen with
  | nil => rfl
  | cons kill rest ih =>
    rw [List.foldl_cons, ih, if_neg (List.cons_ne_nil _ _), List.all_cons, Option.map_some]
    have hadd : ((addKill rt generated dates input seen kill).settled &&
        (addKill rt generated dates input seen kill).concluded) =
        ((seen.map (fun raid => raid.settled && raid.concluded)).getD true &&
          (killSettled dates input kill && killConcluded rt generated dates input kill)) := by
      cases seen with
      | none => simp [addKill]
      | some raid =>
        simp only [addKill, Option.map_some, Option.getD_some]
        cases raid.settled <;> cases raid.concluded <;> simp
    rw [hadd]
    by_cases hrest : rest = []
    · simp [hrest]
    · rw [if_neg hrest, Option.getD_some, Bool.and_assoc]

theorem raidProgress_get? (raidId : String) :
    ((raidProgress rt generated dates input).get? raidId).map
      (fun raid => raid.settled && raid.concluded) =
      if ∃ kill ∈ raidKills rt generated input, kill.raidId = raidId then
        some (((raidKills rt generated input).filter (fun kill => kill.raidId = raidId)).all
          fun kill => killSettled dates input kill && killConcluded rt generated dates input kill)
      else none := by
  unfold raidProgress
  rw [OrderedMap.get?_foldl_set TerminalTierKill.raidId (addKill rt generated dates input),
    foldl_addKill, OrderedMap.get?_empty]
  by_cases hheld : ∃ kill ∈ raidKills rt generated input, kill.raidId = raidId
  · obtain ⟨kill, hkill, hraid⟩ := hheld
    have hin : kill ∈ (raidKills rt generated input).filter (fun kill => kill.raidId = raidId) :=
      List.mem_filter.mpr ⟨hkill, by simpa using hraid⟩
    rw [if_neg (List.ne_nil_of_mem hin), if_pos ⟨kill, hkill, hraid⟩]
    rfl
  · rw [if_neg hheld, if_pos]
    · rfl
    · rw [List.filter_eq_nil_iff]
      intro kill hkill hraid
      exact hheld ⟨kill, hkill, by simpa using hraid⟩

theorem mem_marksOf {raidId : String} {raid : RaidProgress} {tier : TerminalTier} :
    tier ∈ marksOf input raidId raid ↔
      (raid.settled && raid.concluded) = true ∧ tier.raidId = raidId ∧ Answers input tier := by
  obtain ⟨tierRaidId, domain⟩ := tier
  unfold marksOf Answers
  by_cases hraid : (raid.settled && raid.concluded) = true
  · rw [if_pos hraid]
    cases domain <;> simp only [List.mem_append] <;> split_ifs <;> simp_all
  · rw [if_neg hraid]
    simp [hraid]

/-- The rule: a raid the run holds kills in, all of them concluded, in a domain it answers for. -/
theorem mem_terminalTiersFrom (tier : TerminalTier) :
    tier ∈ terminalTiersFrom rt generated dates input ↔
      input.scanLimitation = none ∧
        (∃ kill ∈ raidKills rt generated input, kill.raidId = tier.raidId) ∧
        RaidConcluded rt generated dates input tier.raidId ∧ Answers input tier := by
  have hmarked : (∃ raid ∈ (raidProgress rt generated dates input).entries,
      tier ∈ marksOf input raid.1 raid.2) ↔
      ((raidProgress rt generated dates input).get? tier.raidId).map
        (fun raid => raid.settled && raid.concluded) = some true ∧ Answers input tier := by
    constructor
    · rintro ⟨⟨raidId, raid⟩, hraid, htier⟩
      obtain ⟨hconcluded, hid, hanswers⟩ := mem_marksOf.mp htier
      rw [hid, (OrderedMap.mem_entries_iff _ raidId raid).mp hraid]
      exact ⟨congrArg some hconcluded, hanswers⟩
    · rintro ⟨hget, hanswers⟩
      obtain ⟨raid, hraid, hconcluded⟩ := Option.map_eq_some_iff.mp hget
      exact ⟨(tier.raidId, raid), (OrderedMap.mem_entries_iff _ _ _).mpr hraid,
        mem_marksOf.mpr ⟨hconcluded, rfl, hanswers⟩⟩
  unfold terminalTiersFrom
  cases hlimitation : input.scanLimitation with
  | some code => simp
  | none =>
    rw [if_neg (by simp), List.mem_flatMap]
    simp only [mem_sortBy, true_and]
    rw [hmarked, raidProgress_get?]
    split_ifs with hheld
    · rw [Option.some.injEq, List.all_eq_true]
      constructor
      · rintro ⟨hall, hanswers⟩
        refine ⟨hheld, fun kill hkill hraid => ?_, hanswers⟩
        simpa using hall kill (List.mem_filter.mpr ⟨hkill, by simpa using hraid⟩)
      · rintro ⟨-, hconcluded, hanswers⟩
        refine ⟨fun kill hkill => ?_, hanswers⟩
        obtain ⟨hin, hraid⟩ := List.mem_filter.mp hkill
        simpa using hconcluded kill hin (by simpa using hraid)
    · simp [hheld]

variable {at_ : TimeValue}

variable {later : TimeValue}

theorem killSettled_later (hlater : at_.1 ≤ later.1) {kill : TerminalTierKill}
    (h : killSettled dates { input with at_ := some at_ } kill = true) :
    killSettled dates { input with at_ := some later } kill = true := by
  unfold killSettled at h ⊢
  cases hdate : dates.parse kill.killedAt with
  | none => simp [hdate] at h
  | some killedAt =>
    rw [hdate] at h
    simp only [decide_eq_true_eq] at h ⊢
    omega

theorem raidTierConclusionForRaidId_concluded {raidId : String} :
    raidTierConclusionForRaidId rt generated dates raidId (some at_) = .concluded ↔
      ∃ window endsAt close, resolveContentWindow (readingDates rt dates) generated raidId =
        some window ∧ window.endsAt = some endsAt ∧ dates.parse endsAt = some close ∧
          close.1 ≤ at_.1 := by
  unfold raidTierConclusionForRaidId
  cases resolveContentWindow (readingDates rt dates) generated raidId with
  | none => simp
  | some window =>
    cases hend : window.endsAt with
    | none => simp [hend]
    | some endsAt =>
      cases hclose : dates.parse endsAt with
      | none => simp [hend, hclose]
      | some close =>
        simp only [hend, hclose]
        constructor
        · intro h
          split_ifs at h with hclosed
          exact ⟨window, endsAt, close, rfl, hend, hclose, hclosed⟩
        · rintro ⟨_, _, _, ⟨⟩, hend', hclose', hclosed⟩
          obtain rfl := Option.some.inj (hend.symm.trans hend')
          obtain rfl := Option.some.inj (hclose.symm.trans hclose')
          exact if_pos hclosed

theorem killConcluded_later (hlater : at_.1 ≤ later.1) {kill : TerminalTierKill}
    (h : killConcluded rt generated dates { input with at_ := some at_ } kill = true) :
    killConcluded rt generated dates { input with at_ := some later } kill = true := by
  unfold killConcluded raidTierConclusionForEvidence at h ⊢
  simp only [decide_eq_true_eq] at h ⊢
  split at h
  · cases h
  · rw [raidTierConclusionForRaidId_concluded] at h ⊢
    obtain ⟨window, endsAt, close, hwindow, hend, hclose, hclosed⟩ := h
    exact ⟨window, endsAt, close, hwindow, hend, hclose, hclosed.trans hlater⟩

theorem terminalTiersFrom_later (input : TerminalTierInput) (hlater : at_.1 ≤ later.1)
    {tier : TerminalTier}
    (h : tier ∈ terminalTiersFrom rt generated dates { input with at_ := some at_ }) :
    tier ∈ terminalTiersFrom rt generated dates { input with at_ := some later } := by
  rw [mem_terminalTiersFrom] at h ⊢
  obtain ⟨hlimitation, hheld, hconcluded, hanswers⟩ := h
  refine ⟨hlimitation, hheld, fun kill hkill hraid => ?_, hanswers⟩
  obtain ⟨hsettled, hclosed⟩ := hconcluded kill hkill hraid
  exact ⟨killSettled_later hlater hsettled, killConcluded_later hlater hclosed⟩

end SlashWho.TerminalTiers
