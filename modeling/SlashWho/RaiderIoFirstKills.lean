import Mathlib.Data.List.Sort
import SlashWho.ComparatorSort
import SlashWho.EvidenceMerge

/-!
A character's Raider.IO first kills: what one run hands storage, and what the
publish writes of it. Each publish merges what it was handed with the set of
the newest publication. A kill is named by its raid and boss, which hold no
separator character, so the pair is the key. A presence that is absent reads
as unchecked.
-/

namespace SlashWho.RaiderIoFirstKills

open List ComparatorSort EvidenceMerge

inductive EncounterState
  | read
  | unavailable
  deriving DecidableEq

structure Guild where
  name : String
  realm : String
  region : String
  deriving DecidableEq

def EncounterCheck (state : EncounterState) (id : Option ℕ) (code : Option String) : Prop :=
  match state with
  | .read => id ≠ none ∧ code = none
  | .unavailable => (id = none ∧ code = none) ∨ (id ≠ none ∧ code ≠ none)

structure FirstKill where
  raidSlug : String
  bossSlug : String
  killedAt : Instant
  guild : Option Guild
  loggedEncounterId : Option ℕ
  encounterState : EncounterState
  encounterLimitationCode : Option String
  historicWorldRank : Option ℕ
  historicRankCheckedAt : Option Instant
  presenceChecked : Bool
  check : EncounterCheck encounterState loggedEncounterId encounterLimitationCode

def firstKillKey (kill : FirstKill) : String × String := (kill.raidSlug, kill.bossSlug)

/-! What one run hands storage. -/

structure HistoricMythicKill where
  raidSlug : String
  bossSlug : String
  firstDefeated : Instant
  guild : Option Guild
  loggedEncounterId : Option ℕ

inductive RosterState
  | available
  | private_
  deriving DecidableEq

structure LoggedEncounter where
  defeatedAt : Instant
  rosterState : RosterState

inductive CharacterIdAnswer
  | id
  | none
  | failed
  deriving DecidableEq

/-- What reading the logged encounters came to: the encounters now held, why
each other id has none, and which rosters are known to list the character. -/
structure EncounterReads where
  encounters : ℕ → Option LoggedEncounter
  answered : ℕ → Option String
  storedUnavailable : ℕ → Option String
  established : ℕ → Bool
  character : Option CharacterIdAnswer
  present : ℕ → Bool

/-- One kill as collection publishes it; none where a visible roster does not
list the character, or could not be asked. -/
def collectFirstKill (reads : EncounterReads) (kill : HistoricMythicKill) : Option FirstKill :=
  match kill.loggedEncounterId with
  | none =>
    some
      { raidSlug := kill.raidSlug
        bossSlug := kill.bossSlug
        killedAt := kill.firstDefeated
        guild := kill.guild
        loggedEncounterId := none
        encounterState := .unavailable
        encounterLimitationCode := none
        historicWorldRank := none
        historicRankCheckedAt := none
        presenceChecked := false
        check := Or.inl ⟨rfl, rfl⟩ }
  | some id =>
    match reads.encounters id with
    | none =>
      some
        { raidSlug := kill.raidSlug
          bossSlug := kill.bossSlug
          killedAt := kill.firstDefeated
          guild := kill.guild
          loggedEncounterId := some id
          encounterState := .unavailable
          encounterLimitationCode :=
            some (((reads.answered id).or (reads.storedUnavailable id)).getD "unavailable")
          historicWorldRank := none
          historicRankCheckedAt := none
          presenceChecked := false
          check := Or.inr ⟨Option.some_ne_none _, Option.some_ne_none _⟩ }
    | some encounter =>
      let presence : Option Bool :=
        if encounter.rosterState = .available then
          if reads.established id then some true
          else if reads.character = some .id then
            if reads.present id then some true else none
          else if reads.character = some .none then some false
          else none
        else some (reads.established id)
      presence.map (fun presenceChecked =>
        { raidSlug := kill.raidSlug
          bossSlug := kill.bossSlug
          killedAt := encounter.defeatedAt
          guild := kill.guild
          loggedEncounterId := some id
          encounterState := .read
          encounterLimitationCode := none
          historicWorldRank := none
          historicRankCheckedAt := none
          presenceChecked := presenceChecked
          check := ⟨Option.some_ne_none _, rfl⟩ })

/-- What one run hands storage. Every kill is of a raid the run asked about. -/
structure Publication where
  kills : List FirstKill
  askedRaidSlugs : List String
  limitationCode : Option String
  asked : ∀ kill ∈ kills, kill.raidSlug ∈ askedRaidSlugs

theorem raidSlug_of_collected {reads : EncounterReads} {kill : HistoricMythicKill}
    {first : FirstKill} (h : collectFirstKill reads kill = some first) :
    first.raidSlug = kill.raidSlug := by
  unfold collectFirstKill at h
  split at h
  · obtain rfl := Option.some.inj h
    rfl
  · split at h
    · obtain rfl := Option.some.inj h
      rfl
    · obtain ⟨checked, -, rfl⟩ := Option.map_eq_some_iff.mp h
      rfl

/-- The published rank of a kill, or the one this run looked up. -/
def rankedKill (rank : FirstKill → Option (Option ℕ × Instant)) (kill : FirstKill) : FirstKill :=
  match rank kill with
  | some (place, checkedAt) =>
    { kill with historicWorldRank := place, historicRankCheckedAt := some checkedAt }
  | none => kill

theorem raidSlug_rankedKill (rank : FirstKill → Option (Option ℕ × Instant)) (kill : FirstKill) :
    (rankedKill rank kill).raidSlug = kill.raidSlug := by
  unfold rankedKill
  split
  · rfl
  · rfl

/-- What the kill lists answered: the raids of the tiers asked for, and the kills in them. -/
structure VerifiedKills where
  tierRaidSlugs : List String
  firstKills : List HistoricMythicKill

def raidsOf (asked : List String) (kills : List HistoricMythicKill) : List String :=
  sortBy text (asked ++ kills.map HistoricMythicKill.raidSlug).eraseDups

theorem mem_raidsOf {asked : List String} {kills : List HistoricMythicKill} {raidSlug : String} :
    raidSlug ∈ raidsOf asked kills ↔
      raidSlug ∈ asked ∨ ∃ kill ∈ kills, kill.raidSlug = raidSlug := by
  unfold raidsOf
  rw [mem_sortBy, mem_eraseDups, mem_append, mem_map]

def VerifiedKills.askedRaidSlugs (verified : VerifiedKills) : List String :=
  raidsOf verified.tierRaidSlugs verified.firstKills

/-- The stored first kills of raids not asked about, as the kill lists name theirs. -/
def rebuildSettledFirstKills (published : List FirstKill) (asked : List String) :
    List HistoricMythicKill :=
  (published.filter (fun kill => kill.raidSlug ∉ asked)).map (fun kill =>
    { raidSlug := kill.raidSlug
      bossSlug := kill.bossSlug
      firstDefeated := kill.killedAt
      guild := kill.guild
      loggedEncounterId := kill.loggedEncounterId })

/-- The publication of a run that asked the kill lists; none of its own where the stored
first kills could not be read. -/
def VerifiedKills.publication (verified : VerifiedKills) (published : Option (List FirstKill))
    (reads : EncounterReads) (rank : FirstKill → Option (Option ℕ × Instant))
    (limitationCode : Option String) : Publication :=
  match published with
  | none => ⟨[], [], some "unavailable", fun _ h => absurd h not_mem_nil⟩
  | some published =>
    let rebuilt := rebuildSettledFirstKills published verified.askedRaidSlugs
    { kills := ((verified.firstKills ++ rebuilt).filterMap (collectFirstKill reads)).map
        (rankedKill rank)
      askedRaidSlugs := raidsOf verified.askedRaidSlugs rebuilt
      limitationCode
      asked := by
        intro kill hkill
        obtain ⟨collected, hcollected, rfl⟩ := mem_map.mp hkill
        obtain ⟨found, hfound, hread⟩ := mem_filterMap.mp hcollected
        rw [raidSlug_rankedKill, raidSlug_of_collected hread, mem_raidsOf]
        rcases mem_append.mp hfound with hin | hin
        · exact .inl (mem_raidsOf.mpr (.inr ⟨found, hin, rfl⟩))
        · exact .inr ⟨found, hin, rfl⟩ }

/-! What the publish writes. -/

variable (previous : FirstKill)

/-- A read encounter is kept unless the incoming kill names another one. -/
def keepRead (incoming : FirstKill) : Prop :=
  previous.encounterState = .read ∧ incoming.encounterState ≠ .read ∧
    (incoming.loggedEncounterId = none ∨
      previous.loggedEncounterId = incoming.loggedEncounterId)

instance (previous incoming : FirstKill) : Decidable (keepRead previous incoming) :=
  inferInstanceAs (Decidable (_ ∧ _))

/-- A lookup the run made wins, even one that found no rank. -/
def mergedRank (incoming : FirstKill) : FirstKill :=
  if incoming.historicRankCheckedAt.isSome then incoming else previous

def mergeFirstKill (incoming : FirstKill) : FirstKill :=
  if h : keepRead previous incoming then
    { incoming with
      killedAt := previous.killedAt
      loggedEncounterId := previous.loggedEncounterId
      encounterState := .read
      encounterLimitationCode := none
      presenceChecked := previous.presenceChecked
      historicWorldRank := (mergedRank previous incoming).historicWorldRank
      historicRankCheckedAt := (mergedRank previous incoming).historicRankCheckedAt
      check := by
        have hcheck := previous.check
        rw [h.1] at hcheck
        exact ⟨hcheck.1, rfl⟩ }
  else
    { incoming with
      historicWorldRank := (mergedRank previous incoming).historicWorldRank
      historicRankCheckedAt := (mergedRank previous incoming).historicRankCheckedAt }

/-- One publish. A run that did not read the kill list hands nothing. -/
structure Publish where
  id : ℕ
  completedAt : Instant
  state : PublishState
  targeted : Bool
  input : Option Publication

def Publish.askedRaidSlugs (p : Publish) : List String :=
  (p.input.map Publication.askedRaidSlugs).getD []

/-- The kills handed; a targeted publish reads none of them. -/
def Publish.incoming (p : Publish) : List FirstKill :=
  if p.targeted then [] else (p.input.map Publication.kills).getD []

def Publish.carries (p : Publish) (kill : FirstKill) : Bool :=
  p.input.isNone || p.targeted || decide (p.state = .partial_) ||
    decide (kill.raidSlug ∉ p.askedRaidSlugs)

variable (localeCompare : String → String → Ordering)
variable (stored : List FirstKill) (p : Publish)

def previousFirstKill (key : String × String) : Option FirstKill :=
  (OrderedMap.ofList (stored.map (fun kill => (firstKillKey kill, kill)))).get? key

def incomingFirstKill (kill : FirstKill) : FirstKill :=
  match previousFirstKill stored (firstKillKey kill) with
  | none => kill
  | some before => mergeFirstKill before kill

def mergedFirstKills : OrderedMap (String × String) FirstKill :=
  .ofList ((stored.filter p.carries ++ p.incoming.map (incomingFirstKill stored)).map
    (fun kill => (firstKillKey kill, kill)))

/-- Kill time first, then the key's own text. -/
def earlierEq (a b : FirstKill) : Prop :=
  (compare a.killedAt b.killedAt).then
    (localeCompare (a.raidSlug ++ "\x00" ++ a.bossSlug) (b.raidSlug ++ "\x00" ++ b.bossSlug)) ≠
      .gt

instance : DecidableRel (earlierEq localeCompare) :=
  fun _ _ => inferInstanceAs (Decidable (_ ≠ _))

def mergeRaiderIoFirstKills : List FirstKill :=
  (mergedFirstKills stored p).values.insertionSort (earlierEq localeCompare)

/-- One published run and its first kills, whose key is the run, raid and boss. -/
structure FirstKillRun where
  id : ℕ
  completedAt : Instant
  kills : List FirstKill
  nodup_kills : (kills.map firstKillKey).Nodup

/-- `ORDER BY completed_at DESC, id DESC`. -/
def FirstKillRun.newerEq (a b : FirstKillRun) : Prop :=
  b.completedAt < a.completedAt ∨ (b.completedAt = a.completedAt ∧ b.id ≤ a.id)

instance : DecidableRel FirstKillRun.newerEq :=
  fun _ _ => inferInstanceAs (Decidable (_ ∨ _))

/-- The first kills of the character's newest publication. -/
def loadLatestRaiderIoFirstKills (runs : List FirstKillRun) : List FirstKill :=
  ((runs.insertionSort FirstKillRun.newerEq).head?.map FirstKillRun.kills).getD []

theorem filedBy_mergedFirstKills (stored : List FirstKill) (p : Publish) :
    (mergedFirstKills stored p).FiledBy firstKillKey :=
  OrderedMap.filedBy_ofList firstKillKey _

theorem nodup_written (localeCompare : String → String → Ordering) (stored : List FirstKill)
    (p : Publish) :
    ((mergeRaiderIoFirstKills localeCompare stored p).map firstKillKey).Nodup := by
  have hperm := perm_insertionSort (earlierEq localeCompare) (mergedFirstKills stored p).values
  rw [mergeRaiderIoFirstKills, (hperm.map firstKillKey).nodup_iff]
  exact (filedBy_mergedFirstKills stored p).nodup_values

def publishNext (localeCompare : String → String → Ordering) (runs : List FirstKillRun)
    (p : Publish) : List FirstKillRun :=
  { id := p.id
    completedAt := p.completedAt
    kills := mergeRaiderIoFirstKills localeCompare (loadLatestRaiderIoFirstKills runs) p
    nodup_kills := nodup_written _ _ _ } :: runs

/-- A sequence of publishes, from a character with none. -/
def publishAll (localeCompare : String → String → Ordering) (history : List Publish) :
    List FirstKillRun :=
  history.foldl (publishNext localeCompare) []

/-! What one merge keeps. -/

theorem firstKillKey_mergeFirstKill (incoming : FirstKill) :
    firstKillKey (mergeFirstKill previous incoming) = firstKillKey incoming := by
  unfold mergeFirstKill
  split <;> rfl

theorem mergeFirstKill_read {previous : FirstKill} (incoming : FirstKill)
    (h : previous.encounterState = .read) :
    ((mergeFirstKill previous incoming).encounterState = .read ∧
      (mergeFirstKill previous incoming).loggedEncounterId = previous.loggedEncounterId) ∨
    (incoming.loggedEncounterId ≠ none ∧
      incoming.loggedEncounterId ≠ previous.loggedEncounterId ∧
      (mergeFirstKill previous incoming).loggedEncounterId = incoming.loggedEncounterId) := by
  unfold mergeFirstKill
  by_cases hkeep : keepRead previous incoming
  · rw [dif_pos hkeep]
    exact .inl ⟨rfl, rfl⟩
  · rw [dif_neg hkeep]
    by_cases hsame : incoming.loggedEncounterId = previous.loggedEncounterId
    · left
      refine ⟨?_, hsame⟩
      by_contra hread
      exact hkeep ⟨h, hread, .inr hsame.symm⟩
    · right
      refine ⟨?_, hsame, rfl⟩
      intro hnone
      have hread : incoming.encounterState = .read := by
        by_contra hread
        exact hkeep ⟨h, hread, .inl hnone⟩
      have hcheck := incoming.check
      rw [hread] at hcheck
      exact hcheck.1 hnone

theorem mergeFirstKill_rank (incoming : FirstKill) :
    ((mergeFirstKill previous incoming).historicWorldRank,
        (mergeFirstKill previous incoming).historicRankCheckedAt) =
      if incoming.historicRankCheckedAt.isSome then
        (incoming.historicWorldRank, incoming.historicRankCheckedAt)
      else (previous.historicWorldRank, previous.historicRankCheckedAt) := by
  unfold mergeFirstKill mergedRank
  by_cases hkeep : keepRead previous incoming
  · rw [dif_pos hkeep]
    split <;> rfl
  · rw [dif_neg hkeep]
    split <;> rfl

/-! What one publish keeps. -/

/-- What a publish over the stored first kills may do to them. -/
structure KeepsFirstKills (stored : List FirstKill) (p : Publish) (written : List FirstKill) :
    Prop where
  read : ∀ kill ∈ stored, ∀ kill' ∈ written, firstKillKey kill' = firstKillKey kill →
    kill.encounterState = .read →
      (kill'.encounterState = .read ∧ kill'.loggedEncounterId = kill.loggedEncounterId) ∨
      ∃ incoming ∈ p.incoming, firstKillKey incoming = firstKillKey kill ∧
        incoming.loggedEncounterId ≠ none ∧
        incoming.loggedEncounterId ≠ kill.loggedEncounterId ∧
        kill'.loggedEncounterId = incoming.loggedEncounterId
  rank : ∀ kill ∈ stored, ∀ kill' ∈ written, firstKillKey kill' = firstKillKey kill →
    kill.historicRankCheckedAt ≠ none →
      (kill'.historicWorldRank = kill.historicWorldRank ∧
        kill'.historicRankCheckedAt = kill.historicRankCheckedAt) ∨
      ∃ incoming ∈ p.incoming, firstKillKey incoming = firstKillKey kill ∧
        incoming.historicRankCheckedAt ≠ none ∧
        kill'.historicWorldRank = incoming.historicWorldRank ∧
        kill'.historicRankCheckedAt = incoming.historicRankCheckedAt
  unasked : ∀ kill, kill.raidSlug ∉ p.askedRaidSlugs → (kill ∈ written ↔ kill ∈ stored)

theorem mem_written_iff (localeCompare : String → String → Ordering) (stored : List FirstKill)
    (p : Publish) (kill : FirstKill) :
    kill ∈ mergeRaiderIoFirstKills localeCompare stored p ↔
      (mergedFirstKills stored p).get? (firstKillKey kill) = some kill := by
  unfold mergeRaiderIoFirstKills
  rw [mem_insertionSort]
  constructor
  · exact fun h => (filedBy_mergedFirstKills stored p).get?_of_mem h
  · exact fun h => (OrderedMap.mem_values_iff _ _).mpr ⟨_, h⟩

variable {stored : List FirstKill} {kill : FirstKill}

theorem carried_or_incoming {p : Publish} {key : String × String}
    (h : (mergedFirstKills stored p).get? key = some kill) :
    kill ∈ stored ∨ ∃ incoming ∈ p.incoming, kill = incomingFirstKill stored incoming := by
  have hentry := ((mergedFirstKills stored p).mem_entries_iff key kill).mpr h
  obtain ⟨row, hrow, heq⟩ := mem_map.mp (OrderedMap.mem_of_mem_entries_ofList hentry)
  obtain ⟨-, rfl⟩ := Prod.mk.inj heq
  rcases mem_append.mp hrow with hcarried | hincoming
  · exact .inl (mem_filter.mp hcarried).1
  · obtain ⟨incoming, hmem, hfrom⟩ := mem_map.mp hincoming
    exact .inr ⟨incoming, hmem, hfrom.symm⟩

theorem previousFirstKill_of_mem (hnodup : (stored.map firstKillKey).Nodup)
    (hkill : kill ∈ stored) :
    previousFirstKill stored (firstKillKey kill) = some kill := by
  unfold previousFirstKill
  rw [OrderedMap.get?_ofList_map]
  have hreverse : (stored.reverse.map firstKillKey).Nodup := by
    rw [map_reverse]
    exact nodup_reverse.mpr hnodup
  exact find?_eq_some_of_nodup firstKillKey hreverse (mem_reverse.mpr hkill)

theorem firstKillKey_incomingFirstKill (stored : List FirstKill) (kill : FirstKill) :
    firstKillKey (incomingFirstKill stored kill) = firstKillKey kill := by
  unfold incomingFirstKill
  split
  · rfl
  · exact firstKillKey_mergeFirstKill _ _

theorem written_of_stored {localeCompare : String → String → Ordering}
    (hnodup : (stored.map firstKillKey).Nodup) {p : Publish} {kill' : FirstKill}
    (hkill : kill ∈ stored) (hkill' : kill' ∈ mergeRaiderIoFirstKills localeCompare stored p)
    (hkey : firstKillKey kill' = firstKillKey kill) :
    kill' = kill ∨ ∃ incoming ∈ p.incoming, firstKillKey incoming = firstKillKey kill ∧
      kill' = mergeFirstKill kill incoming := by
  have hprevious := previousFirstKill_of_mem hnodup hkill
  rcases carried_or_incoming ((mem_written_iff _ _ _ _).mp hkill') with hold | ⟨incoming, hin, rfl⟩
  · left
    have hsame := previousFirstKill_of_mem hnodup hold
    rw [hkey, hprevious] at hsame
    exact (Option.some.inj hsame).symm
  · rw [firstKillKey_incomingFirstKill] at hkey
    refine .inr ⟨incoming, hin, hkey, ?_⟩
    unfold incomingFirstKill
    rw [hkey, hprevious]

theorem asked_of_incoming {p : Publish} (h : kill ∈ p.incoming) :
    kill.raidSlug ∈ p.askedRaidSlugs := by
  unfold Publish.incoming at h
  unfold Publish.askedRaidSlugs
  split at h
  · cases h
  · cases hinput : p.input with
    | none =>
      rw [hinput] at h
      cases h
    | some publication =>
      rw [hinput] at h
      exact publication.asked kill h

theorem written_unasked {localeCompare : String → String → Ordering}
    (hnodup : (stored.map firstKillKey).Nodup) {p : Publish}
    (hasked : kill.raidSlug ∉ p.askedRaidSlugs) :
    kill ∈ mergeRaiderIoFirstKills localeCompare stored p ↔ kill ∈ stored := by
  have hnone : ∀ incoming ∈ p.incoming, firstKillKey incoming ≠ firstKillKey kill := by
    intro incoming hin hkey
    have hslug : incoming.raidSlug = kill.raidSlug := congrArg Prod.fst hkey
    exact hasked (hslug ▸ asked_of_incoming hin)
  constructor
  · intro hwritten
    rcases carried_or_incoming ((mem_written_iff _ _ _ _).mp hwritten) with
      hold | ⟨incoming, hin, rfl⟩
    · exact hold
    · exact absurd (firstKillKey_incomingFirstKill stored incoming).symm (hnone incoming hin)
  · intro hstored
    rw [mem_written_iff]
    have hcarried : kill ∈ stored.filter p.carries :=
      mem_filter.mpr ⟨hstored, by simp [Publish.carries, hasked]⟩
    have hkeys : firstKillKey kill ∈ (mergedFirstKills stored p).keys := by
      unfold mergedFirstKills
      rw [OrderedMap.mem_keys_ofList, map_map]
      exact mem_map.mpr ⟨kill, mem_append_left _ hcarried, rfl⟩
    obtain ⟨kill', hget⟩ := (OrderedMap.mem_keys_iff _ _).mp hkeys
    have hkey := filedBy_mergedFirstKills stored p _ _ hget
    rw [← hkey] at hget
    have hwritten := (mem_written_iff localeCompare stored p kill').mpr hget
    rcases written_of_stored hnodup hstored hwritten hkey with rfl | ⟨incoming, hin, hsame, -⟩
    · rwa [hkey] at hget
    · exact absurd hsame (hnone incoming hin)

theorem merge_keeps (localeCompare : String → String → Ordering)
    (hnodup : (stored.map firstKillKey).Nodup) (p : Publish) :
    KeepsFirstKills stored p (mergeRaiderIoFirstKills localeCompare stored p) where
  read kill hkill kill' hkill' hkey hread := by
    rcases written_of_stored hnodup hkill hkill' hkey with rfl | ⟨incoming, hin, hsame, rfl⟩
    · exact .inl ⟨hread, rfl⟩
    · rcases mergeFirstKill_read incoming hread with hkept | hother
      · exact .inl hkept
      · exact .inr ⟨incoming, hin, hsame, hother⟩
  rank kill hkill kill' hkill' hkey hchecked := by
    rcases written_of_stored hnodup hkill hkill' hkey with rfl | ⟨incoming, hin, hsame, rfl⟩
    · exact .inl ⟨rfl, rfl⟩
    · have hrank := mergeFirstKill_rank kill incoming
      split at hrank
      · next hnow =>
        obtain ⟨hworld, hat⟩ := Prod.mk.inj hrank
        exact .inr ⟨incoming, hin, hsame, Option.isSome_iff_ne_none.mp hnow, hworld, hat⟩
      · exact .inl (Prod.mk.inj hrank)
  unasked _ hasked := written_unasked hnodup hasked

theorem nodup_stored (runs : List FirstKillRun) :
    ((loadLatestRaiderIoFirstKills runs).map firstKillKey).Nodup := by
  unfold loadLatestRaiderIoFirstKills
  cases (runs.insertionSort FirstKillRun.newerEq).head? with
  | none => exact nodup_nil
  | some run => exact run.nodup_kills

theorem loadLatest_cons (own : FirstKillRun) (runs : List FirstKillRun) :
    loadLatestRaiderIoFirstKills (own :: runs) = own.kills ∨
      loadLatestRaiderIoFirstKills (own :: runs) = loadLatestRaiderIoFirstKills runs := by
  unfold loadLatestRaiderIoFirstKills
  rw [insertionSort_cons]
  cases runs.insertionSort FirstKillRun.newerEq with
  | nil => exact .inl rfl
  | cons newest rest =>
    rw [List.orderedInsert]
    split
    · exact .inl rfl
    · exact .inr rfl

theorem keeps_self (stored : List FirstKill) (hnodup : (stored.map firstKillKey).Nodup)
    (p : Publish) : KeepsFirstKills stored p stored where
  read kill hkill kill' hkill' hkey hread := by
    obtain rfl := inj_on_of_nodup_map hnodup hkill' hkill hkey
    exact .inl ⟨hread, rfl⟩
  rank kill hkill kill' hkill' hkey hchecked := by
    obtain rfl := inj_on_of_nodup_map hnodup hkill' hkill hkey
    exact .inl ⟨rfl, rfl⟩
  unasked _ _ := Iff.rfl

theorem publish_keeps (localeCompare : String → String → Ordering) (runs : List FirstKillRun)
    (p : Publish) :
    KeepsFirstKills (loadLatestRaiderIoFirstKills runs) p
      (loadLatestRaiderIoFirstKills (publishNext localeCompare runs p)) := by
  unfold publishNext
  rcases loadLatest_cons _ runs with hnew | hold
  · rw [hnew]
    exact merge_keeps localeCompare (nodup_stored runs) p
  · rw [hold]
    exact keeps_self _ (nodup_stored runs) p

/-! Runs of publishes. -/

variable (key : String × String)

/-- The raid and boss have a first kill after every publish of the sequence. -/
def RemainsPublished (runs : List FirstKillRun) (publishes : List Publish) : Prop :=
  ∀ before, before <+: publishes →
    ∃ kill ∈ loadLatestRaiderIoFirstKills (before.foldl (publishNext localeCompare) runs),
      firstKillKey kill = key

variable {localeCompare key}

variable {runs : List FirstKillRun}

theorem RemainsPublished.next {p : Publish} {rest : List Publish}
    (h : RemainsPublished localeCompare key runs (p :: rest)) :
    RemainsPublished localeCompare key (publishNext localeCompare runs p) rest :=
  fun before hprefix => h (p :: before) (cons_prefix_cons.mpr ⟨rfl, hprefix⟩)

variable {publishes : List Publish}

theorem read_kept {kill : FirstKill} (hkill : kill ∈ loadLatestRaiderIoFirstKills runs)
    (hread : kill.encounterState = .read)
    (hremains : RemainsPublished localeCompare (firstKillKey kill) runs publishes)
    (hsame : ∀ p ∈ publishes, ∀ incoming ∈ p.incoming, firstKillKey incoming = firstKillKey kill →
      incoming.loggedEncounterId = none ∨
        incoming.loggedEncounterId = kill.loggedEncounterId) :
    ∃ kill' ∈ loadLatestRaiderIoFirstKills (publishes.foldl (publishNext localeCompare) runs),
      firstKillKey kill' = firstKillKey kill ∧ kill'.encounterState = .read ∧
        kill'.loggedEncounterId = kill.loggedEncounterId := by
  induction publishes generalizing runs kill with
  | nil => exact ⟨kill, hkill, rfl, hread, rfl⟩
  | cons p rest ih =>
    obtain ⟨next, hnext, hkey⟩ := hremains [p] ⟨rest, rfl⟩
    have hstep := (publish_keeps localeCompare runs p).read kill hkill next hnext hkey hread
    rcases hstep with ⟨hstill, hid⟩ | ⟨incoming, hin, hboss, hsome, hother, -⟩
    · obtain ⟨kill', hkill', hkey', hread', hid'⟩ := ih hnext hstill (by
        rw [hkey]
        exact hremains.next) (by
        rw [hkey, hid]
        exact fun p hp => hsame p (mem_cons_of_mem _ hp))
      exact ⟨kill', hkill', hkey'.trans hkey, hread', hid'.trans hid⟩
    · rcases hsame p mem_cons_self incoming hin hboss with hnone | heq
      · exact absurd hnone hsome
      · exact absurd heq hother

theorem rank_kept {kill : FirstKill} (hkill : kill ∈ loadLatestRaiderIoFirstKills runs)
    (hchecked : kill.historicRankCheckedAt ≠ none)
    (hremains : RemainsPublished localeCompare (firstKillKey kill) runs publishes) :
    ∃ kill' ∈ loadLatestRaiderIoFirstKills (publishes.foldl (publishNext localeCompare) runs),
      firstKillKey kill' = firstKillKey kill ∧ kill'.historicRankCheckedAt ≠ none := by
  induction publishes generalizing runs kill with
  | nil => exact ⟨kill, hkill, rfl, hchecked⟩
  | cons p rest ih =>
    obtain ⟨next, hnext, hkey⟩ := hremains [p] ⟨rest, rfl⟩
    have hstill : next.historicRankCheckedAt ≠ none := by
      rcases (publish_keeps localeCompare runs p).rank kill hkill next hnext hkey hchecked with
        ⟨-, hat⟩ | ⟨incoming, -, -, hnow, -, hat⟩
      · rw [hat]
        exact hchecked
      · rw [hat]
        exact hnow
    obtain ⟨kill', hkill', hkey', hchecked'⟩ := ih hnext hstill (by
      rw [hkey]
      exact hremains.next)
    exact ⟨kill', hkill', hkey'.trans hkey, hchecked'⟩

theorem unasked_kept {kill : FirstKill}
    (hasked : ∀ p ∈ publishes, kill.raidSlug ∉ p.askedRaidSlugs) :
    kill ∈ loadLatestRaiderIoFirstKills (publishes.foldl (publishNext localeCompare) runs) ↔
      kill ∈ loadLatestRaiderIoFirstKills runs := by
  induction publishes generalizing runs with
  | nil => exact Iff.rfl
  | cons p rest ih =>
    rw [foldl_cons, ih fun q hq => hasked q (mem_cons_of_mem _ hq)]
    exact (publish_keeps localeCompare runs p).unasked kill (hasked p mem_cons_self)

/-- After any publishes, the next one keeps the first kills stored, in what it
writes and in what is published after it; and any publishes that follow keep
them for as long as their bosses remain published. -/
theorem firstKills_kept (localeCompare : String → String → Ordering) (history : List Publish) :
    let runs := publishAll localeCompare history
    let stored := loadLatestRaiderIoFirstKills runs
    (∀ p, KeepsFirstKills stored p (mergeRaiderIoFirstKills localeCompare stored p) ∧
      KeepsFirstKills stored p
        (loadLatestRaiderIoFirstKills (publishNext localeCompare runs p))) ∧
    ∀ publishes : List Publish,
      let later := loadLatestRaiderIoFirstKills
        (publishes.foldl (publishNext localeCompare) runs)
      ∀ kill ∈ stored,
        ((∀ p ∈ publishes, kill.raidSlug ∉ p.askedRaidSlugs) → kill ∈ later) ∧
        (RemainsPublished localeCompare (firstKillKey kill) runs publishes →
          (kill.historicRankCheckedAt ≠ none → ∃ kill' ∈ later,
            firstKillKey kill' = firstKillKey kill ∧ kill'.historicRankCheckedAt ≠ none) ∧
          (kill.encounterState = .read →
            (∀ p ∈ publishes, ∀ incoming ∈ p.incoming,
              firstKillKey incoming = firstKillKey kill →
                incoming.loggedEncounterId = none ∨
                  incoming.loggedEncounterId = kill.loggedEncounterId) →
            ∃ kill' ∈ later, firstKillKey kill' = firstKillKey kill ∧
              kill'.encounterState = .read ∧
              kill'.loggedEncounterId = kill.loggedEncounterId)) := by
  intro runs stored
  refine ⟨fun p => ⟨?_, publish_keeps localeCompare runs p⟩, ?_⟩
  · exact merge_keeps localeCompare (nodup_stored runs) p
  · intro publishes later kill hkill
    refine ⟨fun hasked => (unasked_kept hasked).mpr hkill, fun hremains => ⟨?_, ?_⟩⟩
    · exact fun hchecked => rank_kept hkill hchecked hremains
    · exact fun hread hsame => read_kept hkill hread hremains hsame

/-- The kill list names one kill, whose roster is hidden. -/
def listedKill : VerifiedKills where
  tierRaidSlugs := ["nerubar-palace"]
  firstKills := [⟨"nerubar-palace", "ulgrax-the-devourer", 1, none, some 7⟩]

def hiddenRoster : EncounterReads where
  encounters := fun _ => some ⟨1, .private_⟩
  answered := fun _ => none
  storedUnavailable := fun _ => none
  established := fun _ => false
  character := none
  present := fun _ => false

def publishOf (id : ℕ) (published : List FirstKill) (verified : VerifiedKills) : Publish where
  id := id
  completedAt := id
  state := .complete
  targeted := false
  input := some (verified.publication (some published) hiddenRoster (fun _ => some (some 3, id)) none)

theorem firstKills_kept_rebuilt :
    let stored := loadLatestRaiderIoFirstKills (publishAll compare [publishOf 1 [] listedKill])
    stored.map firstKillKey = [("nerubar-palace", "ulgrax-the-devourer")] ∧
      KeepsFirstKills stored (publishOf 2 stored ⟨[], []⟩)
        (loadLatestRaiderIoFirstKills (publishNext compare
          (publishAll compare [publishOf 1 [] listedKill]) (publishOf 2 stored ⟨[], []⟩))) ∧
      (publishOf 2 stored ⟨[], []⟩).incoming.map firstKillKey =
        [("nerubar-palace", "ulgrax-the-devourer")] :=
  ⟨by decide +kernel, ((firstKills_kept compare [publishOf 1 [] listedKill]).1 _).2,
    by decide +kernel⟩

end SlashWho.RaiderIoFirstKills
