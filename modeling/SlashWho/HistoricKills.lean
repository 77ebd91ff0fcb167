import Mathlib.Algebra.Order.Ring.Rat
import SlashWho.ComparatorSort
import SlashWho.OrderedMap
import SlashWho.WorkerPool

/-!
A character's historic Mythic kills, asked of Raider.IO tier by tier. Three workers ask a few tiers
at once and start none after a failure; the answers are then walked in tier order. So the result is
a serial walk's, but for the kill kept of a raid and boss: the walk compares the texts of two first
defeats, which order as the instants do only where both are written with one precision.
-/

namespace SlashWho.HistoricKills

open List ComparatorSort WorkerPool

/-! ### The answers of one tier -/

structure KillGuild where
  name : String
  realm : String
  region : String
  deriving DecidableEq

structure HistoricMythicKill where
  raidSlug : String
  bossSlug : String
  firstDefeated : String
  guild : Option KillGuild
  loggedEncounterId : Option ℕ
  deriving DecidableEq

structure EncounterDefeated where
  slug : String
  firstDefeated : String
  loggedEncounterId : Option ℕ
  guild : Option KillGuild

structure RaidProgress where
  raid : String
  mythic : List EncounterDefeated

def normalizeHistoricRaidProgress (lower : String → String) (parsed : List RaidProgress) :
    List HistoricMythicKill :=
  parsed.flatMap (fun raidProgress =>
    raidProgress.mythic.map (fun encounter =>
      { raidSlug := raidProgress.raid
        bossSlug := encounter.slug
        firstDefeated := encounter.firstDefeated
        guild := encounter.guild.map (fun guild => { guild with region := lower guild.region })
        loggedEncounterId := encounter.loggedEncounterId }))

/-- What a tier's request throws: an upstream failure, or anything else. -/
inductive RequestError
  | notFound
  | forbidden
  | schemaDrift
  | transient (status : Option ℕ) (retryAfterMs : Option ℚ)
  | other

inductive LimitationCode
  | notFound
  | private_
  | rateLimited
  | requestCap
  | unavailable
  | schemaDrift
  deriving DecidableEq

inductive HistoricMythicKillResult
  | evidence (kills : List HistoricMythicKill)
  | limitation (code : LimitationCode) (retryAfterMs : Option ℚ)
  deriving DecidableEq

def raiderIoLimitation : RequestError → HistoricMythicKillResult
  | .other => .limitation .unavailable none
  | .notFound => .limitation .notFound none
  | .forbidden => .limitation .private_ none
  | .schemaDrift => .limitation .schemaDrift none
  | .transient status retryAfterMs =>
    .limitation (if status = some 429 then .rateLimited else .unavailable) retryAfterMs

structure HistoricMythicKillOptions where
  tierOrdinals : List ℤ
  requestCap : Option ℤ

/-- The tiers of `raiderIoHistoricTiers`. -/
def maximumHistoricMythicKillTiers : ℕ := 17

def historicMythicKillTierConcurrency : ℕ := 3

def isSafeInteger (n : ℤ) : Bool := -9007199254740991 ≤ n && n ≤ 9007199254740991

/-- Each tier once, in the order first named. -/
def boundedTierOrdinals (options : HistoricMythicKillOptions) : Option (List ℤ) :=
  let tiers := options.tierOrdinals.eraseDups
  if tiers.length > maximumHistoricMythicKillTiers ||
      tiers.any (fun tier => !isSafeInteger tier || tier < 0) then none
  else some tiers

/-- The tiers to ask, unless the caps forbid it. -/
def askedTiers (options : HistoricMythicKillOptions) : Option (List ℤ) :=
  let requestCap := options.requestCap.getD maximumHistoricMythicKillTiers
  match boundedTierOrdinals options with
  | none => none
  | some tiers =>
    if !isSafeInteger requestCap || requestCap < 0 || tiers.length > requestCap then none
    else some tiers

/-! ### Tiers asked a few at a time -/

abbrev TierAnswer := Except RequestError (List HistoricMythicKill)

def tierAnswer (lower : String → String) (response : ℤ → Except RequestError (List RaidProgress))
    (tier : ℤ) : TierAnswer :=
  (response tier).map (normalizeHistoricRaidProgress lower)

/-- What the workers share: an outcome for each tier answered, and whether one failed. -/
structure TierReads where
  outcomes : ℕ → Option TierAnswer
  failed : Bool

def TierReads.settle (reads : TierReads) (index : ℕ) (answer : TierAnswer) : TierReads where
  outcomes := Function.update reads.outcomes index (some answer)
  failed := match answer with
    | .ok _ => reads.failed
    | .error _ => true

/-- Each tier's answer is fixed, whenever it comes. -/
def tierRules (tiers : List ℤ) (answer : ℤ → TierAnswer) : Rules TierAnswer TierReads where
  size := tiers.length
  answers := fun index b => ∀ tier, tiers[index]? = some tier → answer tier = b
  halted := TierReads.failed
  passes := fun _ _ => false
  pass := fun reads _ => reads
  settle := TierReads.settle
  halted_pass := fun _ _ h => h
  halted_settle := by
    intro reads index b h
    unfold TierReads.settle
    cases b with
    | ok kills => exact h
    | error e => rfl

def noReads : TierReads := ⟨fun _ => none, false⟩

/-! ### The answers walked in order -/

def killKey (kill : HistoricMythicKill) : String × String := (kill.raidSlug, kill.bossSlug)

/-- A kill takes the place of one of its raid and boss that it comes before. -/
def keepEarliest (before : HistoricMythicKill → HistoricMythicKill → Bool)
    (kills : OrderedMap (String × String) HistoricMythicKill) (kill : HistoricMythicKill) :
    OrderedMap (String × String) HistoricMythicKill :=
  match kills.get? (killKey kill) with
  | none => kills.set (killKey kill) kill
  | some existing => if before kill existing then kills.set (killKey kill) kill else kills

def walkOutcomes (before : HistoricMythicKill → HistoricMythicKill → Bool) :
    List (Option TierAnswer) → OrderedMap (String × String) HistoricMythicKill →
      HistoricMythicKillResult
  | [], earliestKills => .evidence earliestKills.values
  -- a tier after a failure was never started
  | none :: _, earliestKills => .evidence earliestKills.values
  | some (.error e) :: _, _ => raiderIoLimitation e
  | some (.ok kills) :: rest, earliestKills =>
    walkOutcomes before rest (kills.foldl (keepEarliest before) earliestKills)

/-- The source compares the texts of two first defeats. -/
def textBefore (kill existing : HistoricMythicKill) : Bool :=
  text kill.firstDefeated existing.firstDefeated = .lt

/-- What the reads have come to once the workers are done. -/
def resultOf (tiers : List ℤ) (reads : TierReads) : HistoricMythicKillResult :=
  walkOutcomes textBefore ((List.range tiers.length).map reads.outcomes) OrderedMap.empty

def GetHistoricMythicKills (options : HistoricMythicKillOptions) (lower : String → String)
    (response : ℤ → Except RequestError (List RaidProgress)) (result : HistoricMythicKillResult) :
    Prop :=
  match askedTiers options with
  | none => result = .limitation .requestCap none
  | some tiers =>
    ∃ s : Pool TierReads, Relation.ReflTransGen (Step (tierRules tiers (tierAnswer lower response)))
      (Pool.begin (min historicMythicKillTierConcurrency tiers.length) noReads) s ∧
      s.Ended ∧ result = resultOf tiers s.acc

/-! ### What a serial walk gives -/

/-- The first kill of the list that no other comes before. -/
def earliest (before : HistoricMythicKill → HistoricMythicKill → Bool)
    (kills : List HistoricMythicKill) : Option HistoricMythicKill :=
  kills.foldl (fun held kill =>
    match held with
    | none => some kill
    | some existing => if before kill existing then some kill else some existing) none

/-- One kill for each raid and boss, in the order they first appear: the earliest. -/
def earliestOfEach (before : HistoricMythicKill → HistoricMythicKill → Bool)
    (kills : List HistoricMythicKill) : List HistoricMythicKill :=
  (kills.map killKey).eraseDups.filterMap (fun key =>
    earliest before (kills.filter (fun kill => killKey kill = key)))

def digitsOf (digits : List Char) : ℕ :=
  digits.foldl (fun number digit => 10 * number + (digit.toNat - '0'.toNat)) 0

/-- The days from a fixed one to a date; years begin in March, so a leap day ends one. -/
def dayNumber (year month day : ℕ) : ℕ :=
  let marchYear := if month ≤ 2 then year - 1 else year
  let marchMonth := (month + 9) % 12
  365 * marchYear + marchYear / 4 - marchYear / 100 + marchYear / 400 +
    (153 * marchMonth + 2) / 5 + day

/-- The instant a date and time in UTC names, in seconds. -/
def instantOf (written : String) : ℚ :=
  let chars := written.toList
  let field := fun start length => digitsOf ((chars.drop start).take length)
  let fraction := (chars.drop 20).takeWhile Char.isDigit
  86400 * dayNumber (field 0 4) (field 5 2) (field 8 2) + 3600 * field 11 2 + 60 * field 14 2 +
    field 17 2 + digitsOf fraction / 10 ^ fraction.length

def instantBefore (kill existing : HistoricMythicKill) : Bool :=
  instantOf kill.firstDefeated < instantOf existing.firstDefeated

/-- Tiers asked one after another: the first failure is the answer, and otherwise each
raid and boss has the kill of the earliest instant, ties to the earlier tier. -/
def serialWalk (before : HistoricMythicKill → HistoricMythicKill → Bool)
    (answer : ℤ → TierAnswer) : List ℤ → List HistoricMythicKill → HistoricMythicKillResult
  | [], kills => .evidence (earliestOfEach before kills)
  | tier :: rest, kills =>
    match answer tier with
    | .error e => raiderIoLimitation e
    | .ok answered => serialWalk before answer rest (kills ++ answered)

/-- The abstract result: what the tiers would give asked one at a time. -/
def serialHistoricMythicKills (before : HistoricMythicKill → HistoricMythicKill → Bool)
    (options : HistoricMythicKillOptions) (lower : String → String)
    (response : ℤ → Except RequestError (List RaidProgress)) : HistoricMythicKillResult :=
  match askedTiers options with
  | none => .limitation .requestCap none
  | some tiers => serialWalk before (tierAnswer lower response) tiers []

def killsOf (answer : ℤ → TierAnswer) : List ℤ → Option (List HistoricMythicKill)
  | [] => some []
  | tier :: rest =>
    match answer tier with
    | .error _ => none
    | .ok kills => (killsOf answer rest).map (kills ++ ·)

/-- The kill comes before all those listed ahead of it, and none after it comes before it. -/
def ComesFirst (before : HistoricMythicKill → HistoricMythicKill → Bool)
    (kill : HistoricMythicKill) (kills : List HistoricMythicKill) : Prop :=
  ∃ ahead behind, kills = ahead ++ kill :: behind ∧
    (∀ other ∈ ahead, before kill other = true) ∧ ∀ other ∈ behind, before other kill = false

variable {tiers : List ℤ} {answer : ℤ → TierAnswer}

theorem plays_reads {events : List (Event TierAnswer)} {reads : TierReads}
    (h : Plays (tierRules tiers answer) noReads events reads) :
    (∀ i tier, tiers[i]? = some tier → i ∈ events.map Event.task →
      reads.outcomes i = some (answer tier)) ∧
    (reads.failed = true → ∃ i ∈ events.map Event.task, ∀ tier, tiers[i]? = some tier →
      ∃ e, answer tier = .error e) := by
  induction h with
  | none => exact ⟨fun _ _ _ hin => (by cases hin), fun hfailed => (by cases hfailed)⟩
  | passed _ hpass => cases hpass
  | @settled events acc i b _ hanswer ih =>
    obtain ⟨houtcomes, hfailed⟩ := ih
    rw [map_append]
    constructor
    · intro j tier htier hin
      change Function.update acc.outcomes i (some b) j = some (answer tier)
      by_cases hj : j = i
      · rw [hj, Function.update_self, hanswer tier (hj ▸ htier)]
      · rw [Function.update_of_ne hj]
        refine houtcomes j tier htier ?_
        rcases mem_append.mp hin with hold | hnew
        · exact hold
        · exact absurd (mem_singleton.mp hnew) hj
    · intro hfailed'
      cases b with
      | ok kills =>
        obtain ⟨j, hj, herror⟩ := hfailed hfailed'
        exact ⟨j, mem_append_left _ hj, herror⟩
      | error e =>
        refine ⟨i, mem_append_right _ (mem_singleton_self _), fun tier htier => ?_⟩
        exact ⟨e, hanswer tier htier⟩

theorem answered_of_ended {s : Pool TierReads}
    (h : Relation.ReflTransGen (Step (tierRules tiers answer))
      (Pool.begin (min historicMythicKillTierConcurrency tiers.length) noReads) s)
    (hended : s.Ended) {i : ℕ} {tier : ℤ} (htier : tiers[i]? = some tier)
    (hopen : ∀ j t, j < i → tiers[j]? = some t → ∃ kills, answer t = .ok kills) :
    s.acc.outcomes i = some (answer tier) := by
  obtain ⟨hlt, -⟩ := List.getElem?_eq_some_iff.mp htier
  have hworkers : 0 < min historicMythicKillTierConcurrency tiers.length := by
    unfold historicMythicKillTierConcurrency
    omega
  obtain ⟨events, hplays, hperm, -, hhalt⟩ := ended hworkers h hended
  obtain ⟨houtcomes, hfailed⟩ := plays_reads hplays
  refine houtcomes i tier htier (hperm.mem_iff.mpr (mem_range.mpr ?_))
  rcases hhalt with hhalted | hend
  · obtain ⟨f, hf, herror⟩ := hfailed hhalted
    have hfnext := mem_range.mp (hperm.mem_iff.mp hf)
    by_contra hnot
    obtain ⟨t, ht⟩ : ∃ t, tiers[f]? = some t := ⟨_, getElem?_eq_getElem (by omega)⟩
    obtain ⟨e, he⟩ := herror t ht
    obtain ⟨kills, hok⟩ := hopen f t (by omega) ht
    rw [he] at hok
    cases hok
  · rw [hend]
    exact hlt

theorem walk_outcomes (before : HistoricMythicKill → HistoricMythicKill → Bool)
    (outcomes : ℕ → Option TierAnswer) (tiers : List ℤ) (start : ℕ)
    (m : OrderedMap (String × String) HistoricMythicKill)
    (h : ∀ i tier, tiers[i]? = some tier →
      (∀ j t, j < i → tiers[j]? = some t → ∃ kills, answer t = .ok kills) →
        outcomes (start + i) = some (answer tier)) :
    walkOutcomes before ((List.range' start tiers.length).map outcomes) m =
      walkOutcomes before (tiers.map (fun tier => some (answer tier))) m := by
  induction tiers generalizing start m with
  | nil => rfl
  | cons tier rest ih =>
    have hfirst : outcomes start = some (answer tier) :=
      h 0 tier rfl fun j t hj _ => absurd hj (Nat.not_lt_zero j)
    rw [length_cons, range'_succ, map_cons, map_cons, hfirst]
    cases hanswer : answer tier with
    | error e => rfl
    | ok kills =>
      refine ih (start + 1) _ fun i t ht hopen => ?_
      have hnext := h (i + 1) t ht fun j t' hj ht' => ?_
      · rw [← hnext]
        congr 1
        omega
      · cases j with
        | zero => exact ⟨kills, (Option.some.inj ht') ▸ hanswer⟩
        | succ j => exact hopen j t' (by omega) ht'

theorem resultOf_eq {s : Pool TierReads}
    (h : Relation.ReflTransGen (Step (tierRules tiers answer))
      (Pool.begin (min historicMythicKillTierConcurrency tiers.length) noReads) s)
    (hended : s.Ended) :
    resultOf tiers s.acc =
      walkOutcomes textBefore (tiers.map (fun tier => some (answer tier))) OrderedMap.empty := by
  unfold resultOf
  rw [range_eq_range']
  refine walk_outcomes textBefore s.acc.outcomes tiers 0 OrderedMap.empty fun i tier htier hopen => ?_
  rw [Nat.zero_add]
  exact answered_of_ended h hended htier hopen

variable (before : HistoricMythicKill → HistoricMythicKill → Bool)

theorem earliest_append (kills : List HistoricMythicKill) (kill : HistoricMythicKill) :
    earliest before (kills ++ [kill]) =
      match earliest before kills with
      | none => some kill
      | some existing => if before kill existing then some kill else some existing := by
  unfold earliest
  rw [foldl_append]
  rfl

theorem get?_keepEarliest (m : OrderedMap (String × String) HistoricMythicKill)
    (kill : HistoricMythicKill) (key : String × String) :
    (keepEarliest before m kill).get? key =
      if killKey kill = key then
        match m.get? key with
        | none => some kill
        | some existing => if before kill existing then some kill else some existing
      else m.get? key := by
  unfold keepEarliest
  by_cases hkey : killKey kill = key
  · rw [if_pos hkey, hkey]
    cases hget : m.get? key with
    | none => simp
    | some existing =>
      by_cases hbefore : before kill existing = true
      · simp [hbefore]
      · simp [hbefore, hget]
  · rw [if_neg hkey]
    have hset : (m.set (killKey kill) kill).get? key = m.get? key :=
      OrderedMap.get?_set_ne m kill fun heq => hkey heq.symm
    cases m.get? (killKey kill) with
    | none => exact hset
    | some existing =>
      by_cases hbefore : before kill existing = true
      · simp only [hbefore, if_true]
        exact hset
      · simp only [hbefore]
        rfl

variable {m : OrderedMap (String × String) HistoricMythicKill}

theorem keys_keepEarliest_of_mem {kill : HistoricMythicKill} (h : killKey kill ∈ m.keys) :
    (keepEarliest before m kill).keys = m.keys := by
  have hset : (m.set (killKey kill) kill).keys = m.keys := by
    rw [OrderedMap.keys_set, if_pos h]
  unfold keepEarliest
  obtain ⟨existing, hget⟩ := (OrderedMap.mem_keys_iff m (killKey kill)).mp h
  rw [hget]
  by_cases hbefore : before kill existing = true
  · simp only [hbefore, if_true]
    exact hset
  · simp only [hbefore]
    rfl

theorem keys_keepEarliest_of_not_mem {kill : HistoricMythicKill} (h : killKey kill ∉ m.keys) :
    (keepEarliest before m kill).keys = m.keys ++ [killKey kill] := by
  unfold keepEarliest
  cases hget : m.get? (killKey kill) with
  | none => rw [OrderedMap.keys_set, if_neg h]
  | some existing =>
    exact absurd ((OrderedMap.mem_keys_iff m (killKey kill)).mpr ⟨existing, hget⟩) h

theorem merged_kills (kills : List HistoricMythicKill) :
    (kills.foldl (keepEarliest before) OrderedMap.empty).keys = (kills.map killKey).eraseDups ∧
      ∀ key, (kills.foldl (keepEarliest before) OrderedMap.empty).get? key =
        earliest before (kills.filter (fun kill => killKey kill = key)) := by
  induction kills using List.reverseRecOn with
  | nil => exact ⟨rfl, fun _ => rfl⟩
  | append_singleton kills kill ih =>
    obtain ⟨hkeys, hget⟩ := ih
    rw [foldl_append, foldl_cons, foldl_nil]
    constructor
    · rw [map_append, map_cons, map_nil, eraseDups_append]
      by_cases hin : killKey kill ∈ kills.map killKey
      · have hnone : [killKey kill].removeAll (kills.map killKey) = [] := by
          rw [cons_removeAll, if_neg (by simpa using hin)]
          rfl
        rw [keys_keepEarliest_of_mem before (hkeys ▸ mem_eraseDups.mpr hin), hkeys, hnone,
          eraseDups_nil, append_nil]
      · have hone : [killKey kill].removeAll (kills.map killKey) = [killKey kill] := by
          rw [cons_removeAll, if_pos (by simpa using hin)]
          rfl
        have hnew : killKey kill ∉ (kills.foldl (keepEarliest before) OrderedMap.empty).keys := by
          rw [hkeys]
          exact fun h => hin (mem_eraseDups.mp h)
        rw [keys_keepEarliest_of_not_mem before hnew, hkeys, hone]
        rfl
    · intro key
      rw [get?_keepEarliest, hget, filter_append]
      by_cases hkey : killKey kill = key
      · have hone : [kill].filter (fun kill => killKey kill = key) = [kill] := by simp [hkey]
        rw [if_pos hkey, hone, earliest_append]
      · have hnone : [kill].filter (fun kill => killKey kill = key) = [] := by simp [hkey]
        rw [if_neg hkey, hnone, append_nil]

theorem values_eq_filterMap (m : OrderedMap (String × String) HistoricMythicKill) :
    m.values = m.keys.filterMap m.get? := by
  have hentries : ∀ e ∈ m.entries, m.get? e.1 = some e.2 := fun e he =>
    (m.mem_entries_iff e.1 e.2).mp he
  unfold OrderedMap.values OrderedMap.keys
  rw [filterMap_map]
  have hsame : m.entries.filterMap (m.get? ∘ Prod.fst) = m.entries.filterMap (some ∘ Prod.snd) :=
    filterMap_congr fun e he => hentries e he
  rw [hsame, filterMap_eq_map]

theorem values_merged (kills : List HistoricMythicKill) :
    (kills.foldl (keepEarliest before) OrderedMap.empty).values = earliestOfEach before kills := by
  obtain ⟨hkeys, hget⟩ := merged_kills before kills
  rw [values_eq_filterMap, hkeys]
  exact filterMap_congr fun key _ => hget key

theorem walkOutcomes_eq (answer : ℤ → TierAnswer) (tiers : List ℤ)
    (kills : List HistoricMythicKill) :
    walkOutcomes before (tiers.map (fun tier => some (answer tier)))
        (kills.foldl (keepEarliest before) OrderedMap.empty) =
      serialWalk before answer tiers kills := by
  induction tiers generalizing kills with
  | nil => exact congrArg HistoricMythicKillResult.evidence (values_merged before kills)
  | cons tier rest ih =>
    rw [map_cons]
    unfold serialWalk walkOutcomes
    cases answer tier with
    | error e => rfl
    | ok answered =>
      simp only
      rw [← foldl_append]
      exact ih (kills ++ answered)

theorem serialWalk_of_killsOf {answer : ℤ → TierAnswer} {tiers : List ℤ}
    {all : List HistoricMythicKill} (h : killsOf answer tiers = some all)
    (kills : List HistoricMythicKill) :
    serialWalk before answer tiers kills = .evidence (earliestOfEach before (kills ++ all)) := by
  induction tiers generalizing kills all with
  | nil =>
    rw [← Option.some.inj h, append_nil]
    rfl
  | cons tier rest ih =>
    unfold killsOf at h
    unfold serialWalk
    cases hanswer : answer tier with
    | error e =>
      rw [hanswer] at h
      cases h
    | ok answered =>
      rw [hanswer] at h
      obtain ⟨more, hmore, heq⟩ := Option.map_eq_some_iff.mp h
      simp only
      rw [ih hmore, ← heq, append_assoc]

variable (before' : HistoricMythicKill → HistoricMythicKill → Bool)

theorem serialWalk_of_failure {answer : ℤ → TierAnswer} {tiers : List ℤ}
    (h : killsOf answer tiers = none) (kills : List HistoricMythicKill) :
    serialWalk before answer tiers kills = serialWalk before' answer tiers kills := by
  induction tiers generalizing kills with
  | nil => cases h
  | cons tier rest ih =>
    unfold killsOf at h
    unfold serialWalk
    cases hanswer : answer tier with
    | error e => rfl
    | ok answered =>
      rw [hanswer] at h
      exact ih (Option.map_eq_none_iff.mp h) _

theorem earliest_isSome {kills : List HistoricMythicKill} (h : kills ≠ []) :
    (earliest before kills).isSome = true := by
  rcases eq_nil_or_concat kills with hnil | ⟨init, last, rfl⟩
  · exact absurd hnil h
  rw [concat_eq_append, earliest_append]
  cases earliest before init with
  | none => rfl
  | some existing =>
    simp only
    split <;> rfl

theorem map_some_filterMap {α β : Type} {f : α → Option β} {l : List α}
    (h : ∀ a ∈ l, (f a).isSome = true) : (l.filterMap f).map some = l.map f := by
  induction l with
  | nil => rfl
  | cons a rest ih =>
    obtain ⟨b, hb⟩ := Option.isSome_iff_exists.mp (h a mem_cons_self)
    rw [filterMap_cons_some hb, map_cons, map_cons, hb,
      ih fun other hother => h other (mem_cons_of_mem _ hother)]

theorem earliestOfEach_eq_iff (kills : List HistoricMythicKill) :
    earliestOfEach before kills = earliestOfEach before' kills ↔
      ∀ kill ∈ kills, earliest before (kills.filter (fun other => killKey other = killKey kill)) =
        earliest before' (kills.filter (fun other => killKey other = killKey kill)) := by
  have hsome : ∀ (f : HistoricMythicKill → HistoricMythicKill → Bool),
      ∀ key ∈ (kills.map killKey).eraseDups,
        (earliest f (kills.filter (fun kill => killKey kill = key))).isSome = true := by
    intro f key hkey
    obtain ⟨kill, hkill, rfl⟩ := mem_map.mp (mem_eraseDups.mp hkey)
    apply earliest_isSome
    exact ne_nil_of_mem (mem_filter.mpr ⟨hkill, decide_eq_true rfl⟩)
  have hmap : ∀ (f : HistoricMythicKill → HistoricMythicKill → Bool),
      (earliestOfEach f kills).map some = (kills.map killKey).eraseDups.map (fun key =>
        earliest f (kills.filter (fun kill => killKey kill = key))) := by
    intro f
    exact map_some_filterMap (hsome f)
  rw [← (map_injective_iff.mpr (Option.some_injective _)).eq_iff, hmap, hmap]
  constructor
  · intro heq kill hkill
    have hkey : killKey kill ∈ (kills.map killKey).eraseDups :=
      mem_eraseDups.mpr (mem_map_of_mem hkill)
    exact map_inj_left.mp heq (killKey kill) hkey
  · intro hagree
    refine map_congr_left fun key hkey => ?_
    obtain ⟨kill, hkill, rfl⟩ := mem_map.mp (mem_eraseDups.mp hkey)
    exact hagree kill hkill

variable {before : HistoricMythicKill → HistoricMythicKill → Bool}

variable {kill : HistoricMythicKill} {kills : List HistoricMythicKill}

theorem ComesFirst.mem (h : ComesFirst before kill kills) : kill ∈ kills := by
  obtain ⟨ahead, behind, heq, -, -⟩ := h
  rw [heq]
  exact mem_append_right _ mem_cons_self

theorem ComesFirst.unique {a b : HistoricMythicKill} (ha : ComesFirst before a kills)
    (hb : ComesFirst before b kills) : a = b := by
  obtain ⟨ahead, behind, heq, hahead, hbehind⟩ := ha
  obtain ⟨ahead', behind', heq', hahead', hbehind'⟩ := hb
  rw [heq] at heq'
  rcases append_eq_append_iff.mp heq' with ⟨between, h1, h2⟩ | ⟨between, h1, h2⟩
  · cases between with
    | nil => exact (List.cons.inj h2).1
    | cons c rest =>
      obtain ⟨hc, htail⟩ := List.cons.inj h2
      have htrue : before b a = true := hahead' a (by rw [h1, ← hc]; simp)
      have hfalse : before b a = false := hbehind b (by rw [htail]; simp)
      rw [htrue] at hfalse
      cases hfalse
  · cases between with
    | nil => exact (List.cons.inj h2).1.symm
    | cons c rest =>
      obtain ⟨hc, htail⟩ := List.cons.inj h2
      have htrue : before a b = true := hahead b (by rw [h1, ← hc]; simp)
      have hfalse : before a b = false := hbehind' a (by rw [htail]; simp)
      rw [htrue] at hfalse
      cases hfalse

theorem earliest_comesFirst
    (htrans : ∀ a b c, before a b = true → before b c = true → before a c = true)
    (hties : ∀ a b c, before a b = true → before c b = false → before a c = true)
    (kills : List HistoricMythicKill) (h : earliest before kills = some kill) :
    ComesFirst before kill kills := by
  induction kills using List.reverseRecOn generalizing kill with
  | nil => cases h
  | append_singleton kills last ih =>
    rw [earliest_append] at h
    cases hheld : earliest before kills with
    | none =>
      rw [hheld] at h
      have hnil : kills = [] := by
        by_contra hne
        have hsome := earliest_isSome before hne
        rw [hheld] at hsome
        cases hsome
      rw [hnil]
      obtain rfl := Option.some.inj h
      exact ⟨[], [], rfl, fun _ hin => (by cases hin), fun _ hin => (by cases hin)⟩
    | some existing =>
      rw [hheld] at h
      obtain ⟨ahead, behind, heq, hahead, hbehind⟩ := ih hheld
      by_cases hbefore : before last existing = true
      · simp only [hbefore, if_true, Option.some.injEq] at h
        subst h
        refine ⟨kills, [], rfl, fun other hin => ?_, fun _ hin => (by cases hin)⟩
        rw [heq, mem_append, mem_cons] at hin
        rcases hin with hin | hin | hin
        · exact htrans _ _ _ hbefore (hahead other hin)
        · exact hin ▸ hbefore
        · exact hties _ _ _ hbefore (hbehind other hin)
      · simp only [if_neg hbefore, Option.some.injEq] at h
        subst h
        refine ⟨ahead, behind ++ [last], by rw [heq]; simp, hahead, fun other hin => ?_⟩
        rcases mem_append.mp hin with hin | hin
        · exact hbehind other hin
        · rw [mem_singleton.mp hin]
          exact Bool.eq_false_iff.mpr hbefore

theorem earliest_textBefore (h : earliest textBefore kills = some kill) :
    ComesFirst textBefore kill kills := by
  refine earliest_comesFirst (fun a b c hab hbc => ?_) (fun a b c hab hcb => ?_) kills h
  · simp only [textBefore, decide_eq_true_eq] at hab hbc ⊢
    exact Std.TransCmp.lt_trans hab hbc
  · simp only [textBefore, decide_eq_true_eq, decide_eq_false_iff_not] at hab hcb ⊢
    have hle : (text b.firstDefeated c.firstDefeated).isLE = true := by
      by_contra hnot
      exact hcb (Std.OrientedCmp.lt_of_not_isLE hnot)
    exact Std.TransCmp.lt_of_lt_of_isLE hab hle

theorem earliest_instantBefore (h : earliest instantBefore kills = some kill) :
    ComesFirst instantBefore kill kills := by
  refine earliest_comesFirst (fun a b c hab hbc => ?_) (fun a b c hab hcb => ?_) kills h
  · simp only [instantBefore, decide_eq_true_eq] at hab hbc ⊢
    exact lt_trans hab hbc
  · simp only [instantBefore, decide_eq_true_eq, decide_eq_false_iff_not, not_lt] at hab hcb ⊢
    exact lt_of_lt_of_le hab hcb

theorem kept_alike_iff (kills : List HistoricMythicKill) :
    earliestOfEach textBefore kills = earliestOfEach instantBefore kills ↔
      ∀ first, ComesFirst textBefore first
          (kills.filter (fun other => killKey other = killKey first)) →
        ComesFirst instantBefore first
          (kills.filter (fun other => killKey other = killKey first)) := by
  rw [earliestOfEach_eq_iff]
  constructor
  · intro h first htext
    obtain ⟨hin, -⟩ := mem_filter.mp htext.mem
    obtain ⟨kept, hkept⟩ := Option.isSome_iff_exists.mp
      (earliest_isSome textBefore (ne_nil_of_mem htext.mem))
    have hfirst : kept = first := (earliest_textBefore hkept).unique htext
    rw [hfirst, h first hin] at hkept
    exact earliest_instantBefore hkept
  · intro h kill hkill
    have hne : kills.filter (fun other => killKey other = killKey kill) ≠ [] :=
      ne_nil_of_mem (mem_filter.mpr ⟨hkill, decide_eq_true rfl⟩)
    obtain ⟨first, hfirst⟩ := Option.isSome_iff_exists.mp (earliest_isSome textBefore hne)
    obtain ⟨second, hsecond⟩ := Option.isSome_iff_exists.mp (earliest_isSome instantBefore hne)
    have htext := earliest_textBefore hfirst
    have hkey : killKey first = killKey kill := of_decide_eq_true (mem_filter.mp htext.mem).2
    have hinstant := h first (by rw [hkey]; exact htext)
    rw [hkey] at hinstant
    rw [hfirst, hsecond, hinstant.unique (earliest_instantBefore hsecond)]

variable (options : HistoricMythicKillOptions) (lower : String → String)
  (response : ℤ → Except RequestError (List RaidProgress))

theorem eq_serial_of_kills {result : HistoricMythicKillResult}
    (h : GetHistoricMythicKills options lower response result) :
    result = serialHistoricMythicKills textBefore options lower response := by
  unfold GetHistoricMythicKills at h
  unfold serialHistoricMythicKills
  cases htiers : askedTiers options with
  | none =>
    rw [htiers] at h
    exact h
  | some tiers =>
    rw [htiers] at h
    obtain ⟨s, hrun, hended, hresult⟩ := h
    rw [hresult, resultOf_eq hrun hended]
    exact walkOutcomes_eq textBefore _ tiers []

theorem exists_result : ∃ result, GetHistoricMythicKills options lower response result := by
  unfold GetHistoricMythicKills
  cases askedTiers options with
  | none => exact ⟨_, rfl⟩
  | some tiers =>
    have htotal : ∀ i, ∃ b, (tierRules tiers (tierAnswer lower response)).answers i b := by
      intro i
      cases htier : tiers[i]? with
      | none => exact ⟨.ok [], fun tier h => (by rw [htier] at h; cases h)⟩
      | some tier =>
        refine ⟨tierAnswer lower response tier, fun other h => ?_⟩
        rw [htier] at h
        rw [Option.some.inj h]
    obtain ⟨s, hrun, hended⟩ := (turns (tierRules tiers (tierAnswer lower response)) htotal
      (min historicMythicKillTierConcurrency tiers.length) noReads).exists_final
        (inv_begin _ _ _)
    exact ⟨_, s, hrun, hended, rfl⟩

/-- The kills are a serial walk's in every order of answers; they are those of the
earliest instants exactly where the first by text of each raid and boss is the first by
instant, or where no kill is reported. -/
theorem kills_match_serial_walk_iff :
    (∃ result, GetHistoricMythicKills options lower response result) ∧
      (∀ result, GetHistoricMythicKills options lower response result →
        result = serialHistoricMythicKills textBefore options lower response) ∧
      ((∀ result, GetHistoricMythicKills options lower response result →
          result = serialHistoricMythicKills instantBefore options lower response) ↔
        ∀ tiers kills, askedTiers options = some tiers →
          killsOf (tierAnswer lower response) tiers = some kills →
            ∀ first, ComesFirst textBefore first
                (kills.filter (fun other => killKey other = killKey first)) →
              ComesFirst instantBefore first
                (kills.filter (fun other => killKey other = killKey first))) := by
  obtain ⟨given, hsome⟩ := exists_result options lower response
  have hserial : ∀ result, GetHistoricMythicKills options lower response result →
      result = serialHistoricMythicKills textBefore options lower response :=
    fun _ h => eq_serial_of_kills options lower response h
  have hwalks : (∀ result, GetHistoricMythicKills options lower response result →
        result = serialHistoricMythicKills instantBefore options lower response) ↔
      serialHistoricMythicKills textBefore options lower response =
        serialHistoricMythicKills instantBefore options lower response := by
    constructor
    · intro h
      rw [← hserial given hsome, h given hsome]
    · intro heq result hresult
      rw [hserial result hresult, heq]
  refine ⟨⟨given, hsome⟩, hserial, hwalks.trans ?_⟩
  unfold serialHistoricMythicKills
  cases htiers : askedTiers options with
  | none => simp
  | some tiers =>
    simp only
    cases hkills : killsOf (tierAnswer lower response) tiers with
    | none =>
      refine iff_of_true (serialWalk_of_failure textBefore instantBefore hkills []) ?_
      intro other kills hother hall
      rw [← Option.some.inj hother, hkills] at hall
      cases hall
    | some kills =>
      rw [serialWalk_of_killsOf textBefore hkills, serialWalk_of_killsOf instantBefore hkills,
        HistoricMythicKillResult.evidence.injEq, nil_append, kept_alike_iff]
      constructor
      · intro h other all hother hall
        rw [← Option.some.inj hother, hkills] at hall
        rw [← Option.some.inj hall]
        exact h
      · intro h
        exact h tiers kills rfl hkills

/-- Two tiers report one boss, the second with a fraction: its text comes first, though
its instant is later. -/
theorem later_instant_kept :
    ¬ ∀ (options : HistoricMythicKillOptions) (lower : String → String)
        (response : ℤ → Except RequestError (List RaidProgress))
        (result : HistoricMythicKillResult),
      GetHistoricMythicKills options lower response result →
        result = serialHistoricMythicKills instantBefore options lower response := by
  intro hall
  let options : HistoricMythicKillOptions := ⟨[33, 34], none⟩
  let response : ℤ → Except RequestError (List RaidProgress) := fun tier =>
    .ok [⟨"nerubar-palace", [⟨"ulgrax", if tier = 33 then "2024-09-29T07:02:27Z"
      else "2024-09-29T07:02:27.500Z", none, none⟩]⟩]
  obtain ⟨result, hresult⟩ := exists_result options id response
  have htext := eq_serial_of_kills options id response hresult
  have hinstant := hall options id response result hresult
  rw [htext] at hinstant
  revert hinstant
  decide +kernel

end SlashWho.HistoricKills
