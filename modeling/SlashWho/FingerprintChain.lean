import SlashWho.ObservationWrites

/-!
A chain of fingerprint cycles and its seal. Every cycle publishes its matches and then tries to
write them as observations, which may be lost. The seal, the final `matched` cycle, deletes the
observer's fingerprint links that no write of its run has seen. What a committed write leaves
protects its matches; what a lost one would have left is what the seal can take.
-/

namespace SlashWho.FingerprintChain

open List Characters CharacterConnections Fallible

/-! The observation writes of a sweep's cycles. -/

structure SweepForWrite where
  kind : SweepKind
  characters : List DiscoveredCharacter
  unreadRoot : Bool
  skippedHistoricalGuilds : ℕ

def observationSource : DiscoverySource → Option ObservationSource
  | .input => none
  | .claimed => some .claimed
  | .declaredMain => some .declaredMain
  | .profileGuess => some .profileGuess
  | .fingerprint => some .fingerprint

section Builders
variable (lower : String → String)

/-- A run's characters as observations, minus the root itself. -/
def observed (rootKey : CharacterKey) (characters : List DiscoveredCharacter) :
    List ObservedItem :=
  characters.filterMap (fun character =>
    if canonicalCharacterId lower character.key = canonicalCharacterId lower rootKey then none
    else (observationSource character.source).map (fun source => ⟨character.key, source⟩))

def raiderIoFamily (rootKey : CharacterKey) (characters : List DiscoveredCharacter)
    (limitationCode : Option String) : FamilyObservationWrite where
  family := .raiderio
  decision := (raiderIoDecision limitationCode).decision
  reason := (raiderIoDecision limitationCode).reason
  sweepReservationId := none
  observed := observed lower rootKey characters

def sweepFacts (sweep : SweepForWrite) : SweepFacts where
  kind := sweep.kind
  unreadRoot := sweep.kind = .matched && sweep.unreadRoot
  skippedHistoricalGuilds := sweep.skippedHistoricalGuilds

def fingerprintFamily (rootKey : CharacterKey) (sweep : SweepForWrite)
    (characters : List DiscoveredCharacter) (reservationId : ℕ) : FamilyObservationWrite where
  family := .fingerprint
  decision := (fingerprintDecision (sweepFacts sweep)).decision
  reason := (fingerprintDecision (sweepFacts sweep)).reason
  sweepReservationId := some reservationId
  observed := observed lower rootKey characters

/-- The sweep's characters, less the tournament profiles the chain leaves out. -/
def matches_ (excludedTournamentIds : List CanonicalId) (sweep : SweepForWrite) :
    List DiscoveredCharacter :=
  sweep.characters.filter (fun character =>
    canonicalCharacterId lower character.key ∉ excludedTournamentIds)

/-- Cycle 1, both families. -/
def firstSweepCycleWrite (runId : ℕ) (rootKey : CharacterKey)
    (raiderIoCharacters : List DiscoveredCharacter) (raiderIoLimitation : Option String)
    (sweep : SweepForWrite) (excludedTournamentIds : List CanonicalId) (reservationId : ℕ) :
    ObservationWriteInput where
  runId := runId
  observerKey := rootKey
  families := [raiderIoFamily lower rootKey raiderIoCharacters raiderIoLimitation,
    fingerprintFamily lower rootKey sweep (matches_ lower excludedTournamentIds sweep)
      reservationId]

/-- A continuation cycle or the seal, fingerprint only. -/
def continuationCycleWrite (runId : ℕ) (rootKey : CharacterKey) (sweep : SweepForWrite)
    (excludedTournamentIds : List CanonicalId) (reservationId : ℕ) : ObservationWriteInput where
  runId := runId
  observerKey := rootKey
  families := [fingerprintFamily lower rootKey sweep (matches_ lower excludedTournamentIds sweep)
    reservationId]

end Builders

/-! The chain. -/

/-- What the cycles of one chain share. -/
structure ChainRun where
  runId : ℕ
  rootKey : CharacterKey
  observerId : ℕ
  runStartedAt : ℕ
  excludedTournamentIds : List CanonicalId

/-- A cycle whose snapshot write committed. The first carries its Raider.IO
discovery; `committed` says whether its observation write went through. -/
structure Cycle where
  discovery : Option (List DiscoveredCharacter × Option String)
  sweep : SweepForWrite
  reservationId : ℕ
  committed : Bool

variable (lower : String → String) (clock : ℕ → ℕ) (chain : ChainRun)

def Cycle.write (cycle : Cycle) : ObservationWriteInput :=
  match cycle.discovery with
  | some (characters, limitation) =>
    firstSweepCycleWrite lower chain.runId chain.rootKey characters limitation cycle.sweep
      chain.excludedTournamentIds cycle.reservationId
  | none =>
    continuationCycleWrite lower chain.runId chain.rootKey cycle.sweep
      chain.excludedTournamentIds cycle.reservationId

def Cycle.matched (cycle : Cycle) : List ObservedItem :=
  observed lower chain.rootKey (matches_ lower chain.excludedTournamentIds cycle.sweep)

def sealWrite (sweep : SweepForWrite) (reservationId : ℕ) : ObservationWriteInput :=
  continuationCycleWrite lower chain.runId chain.rootKey sweep chain.excludedTournamentIds
    reservationId

/-- The characters table: ids and keys are unique, and keys are in the
canonical form every lookup uses. -/
structure Keyed (characters : List CharacterRow) : Prop where
  ids : (characters.map CharacterRow.id).Nodup
  keys : (characters.map CharacterRow.key).Nodup
  canonical : ∀ row ∈ characters,
    canonicalCharacterId lower row.key = ⟨row.key.region.code, row.key.realm, row.key.name⟩

/-- Every match has its characters row, as the snapshot write left it. -/
def Published (t : ConnectionTables) (items : List ObservedItem) : Prop :=
  ∀ item ∈ items, ∃ row ∈ t.characters, row.key = item.key

structure ChainState where
  tables : ConnectionTables
  now : ℕ
  cycles : List Cycle

/-- The tables a chain can meet: the root has its row, the run its start, and
observations are unique, as the indexes keep them. -/
structure WellFormed (t : ConnectionTables) : Prop where
  keyed : Keyed lower t.characters
  root : ∃ row ∈ t.characters, row.key = chain.rootKey ∧ row.id = chain.observerId
  run : ∃ run, t.runs.find? (fun run => run.id = chain.runId) = some run ∧
    run.runStartedAt = chain.runStartedAt
  unique : (t.connections.map Connection.link).Nodup

/-- A chain under way. Its cycles commit or lose their writes, and any other
write may run between them, by a database clock that does not go back. -/
inductive Underway : ChainState → Prop
  | start (t : ConnectionTables) (now : ℕ) (hformed : WellFormed lower chain t)
      (hstarted : chain.runStartedAt ≤ now) : Underway ⟨t, now, []⟩
  | environment {s : ChainState} (h : Underway s) (characters : List CharacterRow)
      (runs : List DiscoveryRun) (hkept : ∀ row ∈ s.tables.characters, row ∈ characters)
      (hformed : WellFormed lower chain
        { s.tables with characters := characters, runs := runs }) :
      Underway { s with tables := { s.tables with characters := characters, runs := runs } }
  | other {s : ChainState} {t' : ConnectionTables} (h : Underway s) (now : ℕ)
      (hnow : s.now ≤ now) (input : ObservationWriteInput) (result : ObservationWriteResult)
      (hwrite : writeObservations lower clock s.tables now input = .ok (t', result)) :
      Underway ⟨t', now, s.cycles⟩
  | committed {s : ChainState} {t' : ConnectionTables} (h : Underway s) (now : ℕ)
      (hnow : s.now ≤ now) (cycle : Cycle) (hcommitted : cycle.committed = true)
      (hpublished : Published s.tables (cycle.matched lower chain))
      (result : ObservationWriteResult)
      (hwrite : writeObservations lower clock s.tables now (cycle.write lower chain) =
        .ok (t', result)) :
      Underway ⟨t', now, s.cycles ++ [cycle]⟩
  | lost {s : ChainState} (h : Underway s) (cycle : Cycle) (hlost : cycle.committed = false) :
      Underway { s with cycles := s.cycles ++ [cycle] }

/-- The fingerprint link from the root to the character an item names. -/
def LinkTo (t : ConnectionTables) (item : ObservedItem) (row : Connection) : Prop :=
  ∃ character ∈ t.characters, character.key = item.key ∧
    row.link = observedLink chain.observerId character.id .fingerprint

def Gone (t : ConnectionTables) (row : Connection) : Prop :=
  ∀ row' ∈ t.connections, row'.link ≠ row.link

/-- What a seal must keep: every link to a character some cycle of its chain
matched, itself included, and every link at all once some cycle skipped a guild. -/
structure SealKeeps (s : ChainState) (sweep : SweepForWrite) (t' : ConnectionTables) : Prop where
  matched : ∀ items ∈ observed lower chain.rootKey (matches_ lower chain.excludedTournamentIds sweep)
      :: s.cycles.map (Cycle.matched lower chain),
    ∀ item ∈ items, ∀ row ∈ s.tables.connections, LinkTo chain s.tables item row → ¬ Gone t' row
  skipped : (sweep.skippedHistoricalGuilds > 0 ∨
      ∃ cycle ∈ s.cycles, cycle.sweep.skippedHistoricalGuilds > 0) →
    ∀ row ∈ s.tables.connections, ¬ Gone t' row

/-- A link the seal takes if it replaces: the root's, by fingerprint, last seen
by another run before this one began, and not matched by the seal itself. -/
structure Stale (s : ChainState) (sweep : SweepForWrite) (row : Connection) : Prop where
  stored : row ∈ s.tables.connections
  observer : row.observerId = chain.observerId
  source : row.source = .fingerprint
  run : row.runId ≠ chain.runId
  before : row.observedAt < chain.runStartedAt
  unmatched : ∀ item ∈ observed lower chain.rootKey
    (matches_ lower chain.excludedTournamentIds sweep), ¬ LinkTo chain s.tables item row

/-- When a seal is safe: it is blocked by a newer write, or does not replace,
or no lost write matched the character of a stale link, and none of them
skipped a guild while a stale link is stored. -/
def SealSafe (s : ChainState) (sweep : SweepForWrite) : Prop :=
  blockedByNewer s.tables chain.observerId .fingerprint chain.runStartedAt = true ∨
  (sweep.skippedHistoricalGuilds > 0 ∨ sweep.unreadRoot = true ∨
    skippedGuildLogged s.tables chain.runId chain.observerId = true) ∨
  ∀ cycle ∈ s.cycles, cycle.committed = false → ∀ row, Stale lower chain s sweep row →
    cycle.sweep.skippedHistoricalGuilds = 0 ∧
      ∀ item ∈ cycle.matched lower chain, ¬ LinkTo chain s.tables item row

section Keys
variable {lower : String → String} {characters : List CharacterRow}

theorem Region.code_inj {a b : Region} (h : a.code = b.code) : a = b := by
  cases a <;> cases b <;> first | rfl | simp [Region.code] at h

theorem Keyed.eq_of_canonical (hkeyed : Keyed lower characters) {a b : CharacterRow}
    (ha : a ∈ characters) (hb : b ∈ characters)
    (h : canonicalCharacterId lower a.key = canonicalCharacterId lower b.key) : a = b := by
  rw [hkeyed.canonical a ha, hkeyed.canonical b hb, CanonicalId.mk.injEq] at h
  obtain ⟨hregion, hrealm, hname⟩ := h
  apply inj_on_of_nodup_map hkeyed.keys ha hb
  obtain ⟨ida, ⟨regiona, realma, namea⟩⟩ := a
  obtain ⟨idb, ⟨regionb, realmb, nameb⟩⟩ := b
  simp only at hregion hrealm hname
  rw [Region.code_inj hregion, hrealm, hname]

theorem characterIds_get?_iff {t : ConnectionTables} (hkeyed : Keyed lower t.characters)
    (keys : List CharacterKey) (id : CanonicalId) (rowId : ℕ) :
    (characterIds lower t keys).get? id = some rowId ↔
      ∃ row ∈ t.characters, row.key ∈ keys ∧ canonicalCharacterId lower row.key = id ∧
        row.id = rowId := by
  have hnodup : ((((t.characters.filter (fun row => row.key ∈ keys)).map
      (fun row => (canonicalCharacterId lower row.key, row.id))).reverse).map Prod.fst).Nodup := by
    rw [map_reverse, nodup_reverse, map_map]
    have hrows : t.characters.Nodup := List.Nodup.of_map _ hkeyed.keys
    apply List.Nodup.map_on _ (hrows.filter _)
    intro a ha b hb hab
    exact hkeyed.eq_of_canonical (mem_filter.mp ha).1 (mem_filter.mp hb).1 hab
  unfold characterIds
  rw [OrderedMap.get?_ofList]
  have hlookup := (OrderedMap.mk _ hnodup).mem_entries_iff id rowId
  change _ ↔ List.lookup id _ = some rowId at hlookup
  rw [← hlookup]
  simp only [mem_reverse, mem_map, mem_filter, decide_eq_true_eq, Prod.mk.injEq]
  constructor
  · rintro ⟨row, ⟨hrow, hkey⟩, hid, hrowId⟩
    exact ⟨row, hrow, hkey, hid, hrowId⟩
  · rintro ⟨row, hrow, hkey, hid, hrowId⟩
    exact ⟨row, ⟨hrow, hkey⟩, hid, hrowId⟩

end Keys

section Resolved
variable {lower : String → String} {clock : ℕ → ℕ} {chain : ChainRun}
variable {t t' : ConnectionTables} {now : ℕ}

theorem lastFamily_ok {input : ObservationWriteInput} {result : ObservationWriteResult}
    {earlier : List FamilyObservationWrite} {family : FamilyObservationWrite}
    (hformed : WellFormed lower chain t) (hrun : input.runId = chain.runId)
    (hroot : input.observerKey = chain.rootKey) (hfamilies : input.families = earlier ++ [family])
    (h : writeObservations lower clock t now input = .ok (t', result)) :
    ∃ (ctx : WriteContext) (p p' : WriteProgress),
      ctx.runId = chain.runId ∧ ctx.observerId = chain.observerId ∧
      ctx.runStartedAt = chain.runStartedAt ∧ ctx.now = now ∧
      ctx.ids = characterIds lower t (input.observerKey ::
        input.families.flatMap (fun family => family.observed.map ObservedItem.key)) ∧
      earlier.foldlM (writeFamily lower clock ctx) ⟨t, ∅, 0⟩ = .ok p ∧
      writeFamily lower clock ctx p family = .ok p' ∧ t' = p'.tables := by
  obtain ⟨run, observerId, ids, p', hfound, -, rfl, hobserver, hfold, rfl⟩ :=
    writeObservations_ok h
  obtain ⟨row, hrow, -, hcanonical, rfl⟩ :=
    (characterIds_get?_iff hformed.keyed _ _ _).mp hobserver
  obtain ⟨root, hrootRow, hrootKey, hrootId⟩ := hformed.root
  rw [hroot, ← hrootKey] at hcanonical
  obtain rfl := hformed.keyed.eq_of_canonical hrow hrootRow hcanonical
  obtain ⟨run', hfound', hstart⟩ := hformed.run
  rw [hrun, hfound', Option.some.injEq] at hfound
  subst hfound
  rw [hfamilies, foldlM_append] at hfold
  obtain ⟨p, hearlier, hlast⟩ := ok_of_bind_ok hfold
  rw [foldlM_cons] at hlast
  obtain ⟨q, hq, hdone⟩ := ok_of_bind_ok hlast
  cases hdone
  rw [← hfamilies] at hearlier hq
  exact ⟨_, p, p', hrun, hrootId, hstart, rfl, rfl, hearlier, hq, rfl⟩

theorem resolves_of_published {input : ObservationWriteInput} {family : FamilyObservationWrite}
    {ctx : WriteContext} {characters : List DiscoveredCharacter}
    (hformed : WellFormed lower chain t) (hfamily : family ∈ input.families)
    (hobserved : family.observed = observed lower chain.rootKey characters)
    (hids : ctx.ids = characterIds lower t (input.observerKey ::
      input.families.flatMap (fun family => family.observed.map ObservedItem.key)))
    {item : ObservedItem} (hitem : item ∈ family.observed) {character : CharacterRow}
    (hcharacter : character ∈ t.characters) (hkey : character.key = item.key) :
    ctx.ids.get? (canonicalCharacterId lower item.key) = some character.id ∧
      character.id ≠ chain.observerId := by
  constructor
  · rw [hids, characterIds_get?_iff hformed.keyed]
    refine ⟨character, hcharacter, ?_, by rw [hkey], rfl⟩
    rw [hkey]
    apply mem_cons_of_mem
    exact mem_flatMap.mpr ⟨family, hfamily, mem_map_of_mem hitem⟩
  · intro hself
    obtain ⟨root, hrootRow, hrootKey, hrootId⟩ := hformed.root
    obtain rfl : character = root := inj_on_of_nodup_map hformed.keyed.ids hcharacter
      hrootRow (hself.trans hrootId.symm)
    rw [hobserved] at hitem
    obtain ⟨found, -, hfound⟩ := mem_filterMap.mp hitem
    split at hfound
    · cases hfound
    · next hother =>
      obtain ⟨source, -, rfl⟩ := Option.map_eq_some_iff.mp hfound
      exact hother (by rw [← hrootKey, hkey])

end Resolved

/-! What a committed cycle leaves behind for the seal. -/

/-- The seal cannot hurt the cycle: it is blocked by a newer write, or the
cycle's skip is in the ledger and its matches are as new as the run. -/
def Protected (t : ConnectionTables) (cycle : Cycle) : Prop :=
  blockedByNewer t chain.observerId .fingerprint chain.runStartedAt = true ∨
  (cycle.sweep.skippedHistoricalGuilds > 0 →
      skippedGuildLogged t chain.runId chain.observerId = true) ∧
    ∀ item ∈ cycle.matched lower chain, ∀ row ∈ t.connections,
      LinkTo chain t item row → chain.runStartedAt ≤ row.observedAt

structure ChainInv (s : ChainState) : Prop where
  formed : WellFormed lower chain s.tables
  started : chain.runStartedAt ≤ s.now
  kept : ∀ cycle ∈ s.cycles, cycle.committed = true →
    Published s.tables (cycle.matched lower chain) ∧ Protected lower chain s.tables cycle

section Keeps
variable {lower : String → String} {clock : ℕ → ℕ} {chain : ChainRun}
variable {t t' : ConnectionTables} {ctx : WriteContext}

theorem WellFormed.advances (h : WellFormed lower chain t) (hadvances : Advances ctx t t') :
    WellFormed lower chain t' where
  keyed := hadvances.characters ▸ h.keyed
  root := hadvances.characters ▸ h.root
  run := hadvances.runs ▸ h.run
  unique := hadvances.unique h.unique

theorem blocked_advances {runStartedAt : ℕ} (hadvances : Advances ctx t t')
    (h : blockedByNewer t chain.observerId .fingerprint runStartedAt = true) :
    blockedByNewer t' chain.observerId .fingerprint runStartedAt = true := by
  unfold blockedByNewer at *
  obtain ⟨marker, hmarker, hlater⟩ := (Option.any_eq_true _ _).mp h
  obtain ⟨marker', hmarker', hle⟩ := hadvances.marked _ _ marker hmarker
  rw [hmarker']
  simp only [Option.any_some, decide_eq_true_eq] at hlater ⊢
  omega

theorem skippedGuildLogged_advances {runId observerId : ℕ} (hadvances : Advances ctx t t')
    (h : skippedGuildLogged t runId observerId = true) :
    skippedGuildLogged t' runId observerId = true := by
  obtain ⟨row, hrow, hskipped⟩ := any_eq_true.mp h
  exact any_eq_true.mpr ⟨row, hadvances.logged row hrow, hskipped⟩

theorem LinkTo.congr {item : ObservedItem} {row : Connection}
    (hcharacters : t'.characters = t.characters) :
    LinkTo chain t' item row ↔ LinkTo chain t item row := by
  unfold LinkTo
  rw [hcharacters]

theorem Protected.advances {cycle : Cycle} (h : Protected lower chain t cycle)
    (hadvances : Advances ctx t t') (hnow : chain.runStartedAt ≤ ctx.now) :
    Protected lower chain t' cycle := by
  rcases h with hblocked | ⟨hskipped, hmatched⟩
  · exact .inl (blocked_advances hadvances hblocked)
  · refine .inr ⟨fun hskip => skippedGuildLogged_advances hadvances (hskipped hskip), ?_⟩
    intro item hitem row hrow hlink
    rcases hadvances.origin row hrow with hold | hseen
    · exact hmatched item hitem row hold ((LinkTo.congr hadvances.characters).mp hlink)
    · have hat := hseen.observedAt
      omega

theorem decided_of_skipped {rootKey : CharacterKey} {sweep : SweepForWrite}
    {characters : List DiscoveredCharacter} {reservationId : ℕ}
    (hskipped : sweep.skippedHistoricalGuilds > 0) :
    decided t ctx (fingerprintFamily lower rootKey sweep characters reservationId) =
      ⟨.addedOnly, .skippedGuild⟩ := by
  unfold decided fingerprintFamily fingerprintDecision sweepFacts
  simp [hskipped]

theorem protected_of_written {p p' : WriteProgress} {input : ObservationWriteInput}
    {cycle : Cycle} {reservationId : ℕ} (hformed : WellFormed lower chain t)
    (hrun : ctx.runId = chain.runId) (hobserver : ctx.observerId = chain.observerId)
    (hstart : ctx.runStartedAt = chain.runStartedAt) (hnow : chain.runStartedAt ≤ ctx.now)
    (hids : ctx.ids = characterIds lower t (input.observerKey ::
      input.families.flatMap (fun family => family.observed.map ObservedItem.key)))
    (hfamily : fingerprintFamily lower chain.rootKey cycle.sweep
      (matches_ lower chain.excludedTournamentIds cycle.sweep) reservationId ∈ input.families)
    (hcharacters : p.tables.characters = t.characters)
    (h : writeFamily lower clock ctx p (fingerprintFamily lower chain.rootKey cycle.sweep
      (matches_ lower chain.excludedTournamentIds cycle.sweep) reservationId) = .ok p') :
    Protected lower chain p'.tables cycle := by
  have hadvances := (writeFamily_effect h).advances
  cases hblocked : blockedByNewer p.tables ctx.observerId .fingerprint ctx.runStartedAt with
  | true =>
    left
    rw [hobserver, hstart] at hblocked
    exact blocked_advances hadvances hblocked
  | false =>
    right
    obtain ⟨seen, hseen, htables⟩ := writeFamily_ok h hblocked
    constructor
    · intro hskipped
      rw [decided_of_skipped hskipped] at htables
      rw [htables]
      refine any_eq_true.mpr ⟨_, mem_append_right _ (mem_singleton_self _), ?_⟩
      simp [hrun, hobserver, fingerprintFamily]
    · intro item hitem row hrow hlink
      obtain ⟨character, hcharacter, hkey, hrowLink⟩ := hlink
      rw [hadvances.characters, hcharacters] at hcharacter
      obtain ⟨hresolved, hother⟩ := resolves_of_published hformed hfamily rfl hids hitem
        hcharacter hkey
      rw [htables] at hrow
      change row ∈ (writeMarker ctx _ _).connections at hrow
      rw [connections_writeMarker] at hrow
      have hrow : row ∈ seen.tables.connections := by
        unfold linksAfter at hrow
        split at hrow
        · exact (mem_filter.mp hrow).1
        · exact hrow
      have hsource : item.source = .fingerprint := by
        have hfamilyOf := observeItems_family hitem hseen
        by_contra hne
        simp [familyOf, hne, fingerprintFamily] at hfamilyOf
      apply hnow.trans
      apply observeItems_seen hitem hresolved (hobserver ▸ hother) hseen row hrow
      rw [observes_iff, hobserver, hsource]
      exact hrowLink

end Keeps

section Chains
variable {lower : String → String} {clock : ℕ → ℕ} {chain : ChainRun}
variable {s : ChainState}

theorem families_cycleWrite (lower : String → String) (chain : ChainRun) (cycle : Cycle) :
    ∃ earlier,
    (cycle.write lower chain).runId = chain.runId ∧
    (cycle.write lower chain).observerKey = chain.rootKey ∧
    (cycle.write lower chain).families = earlier ++ [fingerprintFamily lower chain.rootKey
      cycle.sweep (matches_ lower chain.excludedTournamentIds cycle.sweep)
      cycle.reservationId] := by
  unfold Cycle.write
  split
  · next characters limitation _ =>
    exact ⟨[raiderIoFamily lower chain.rootKey characters limitation], rfl, rfl, rfl⟩
  · exact ⟨[], rfl, rfl, rfl⟩

theorem ChainInv.write {t' : ConnectionTables} {now : ℕ} {input : ObservationWriteInput}
    {result : ObservationWriteResult} (h : ChainInv lower chain s) (hnow : s.now ≤ now)
    (hwrite : writeObservations lower clock s.tables now input = .ok (t', result)) :
    ChainInv lower chain ⟨t', now, s.cycles⟩ := by
  obtain ⟨run, observerId, ids, p', -, -, -, -, hfold, rfl⟩ := writeObservations_ok hwrite
  have hadvances := foldlM_writeFamily_advances hfold
  have hstarted : chain.runStartedAt ≤ now := h.started.trans hnow
  refine ⟨h.formed.advances hadvances, hstarted, ?_⟩
  intro cycle hcycle hcommitted
  obtain ⟨hpublished, hprotected⟩ := h.kept cycle hcycle hcommitted
  refine ⟨?_, hprotected.advances hadvances hstarted⟩
  intro item hitem
  rw [hadvances.characters]
  exact hpublished item hitem

theorem Published.mono {t t' : ConnectionTables} {items : List ObservedItem}
    (h : Published t items) (hkept : ∀ row ∈ t.characters, row ∈ t'.characters) :
    Published t' items := by
  intro item hitem
  obtain ⟨row, hrow, hkey⟩ := h item hitem
  exact ⟨row, hkept row hrow, hkey⟩

theorem Protected.environment {t : ConnectionTables} {cycle : Cycle}
    {characters : List CharacterRow} {runs : List DiscoveryRun}
    (h : Protected lower chain t cycle) (hpublished : Published t (cycle.matched lower chain))
    (hkept : ∀ row ∈ t.characters, row ∈ characters) (hkeyed : Keyed lower characters) :
    Protected lower chain { t with characters := characters, runs := runs } cycle := by
  rcases h with hblocked | ⟨hskipped, hmatched⟩
  · exact .inl hblocked
  · refine .inr ⟨hskipped, ?_⟩
    rintro item hitem row hrow ⟨character, hcharacter, hkey, hlink⟩
    obtain ⟨old, hold, holdKey⟩ := hpublished item hitem
    obtain rfl : character = old := inj_on_of_nodup_map hkeyed.keys hcharacter
      (hkept old hold) (hkey.trans holdKey.symm)
    exact hmatched item hitem row hrow ⟨character, hold, hkey, hlink⟩

theorem chainInv_of_underway (h : Underway lower clock chain s) : ChainInv lower chain s := by
  induction h with
  | start t now hformed hstarted => exact ⟨hformed, hstarted, by simp⟩
  | environment _ characters runs hkept hformed ih =>
    refine ⟨hformed, ih.started, ?_⟩
    intro cycle hcycle hcommitted
    obtain ⟨hpublished, hprotected⟩ := ih.kept cycle hcycle hcommitted
    exact ⟨hpublished.mono hkept, hprotected.environment hpublished hkept hformed.keyed⟩
  | other _ now hnow input result hwrite ih => exact ih.write hnow hwrite
  | committed _ now hnow cycle hcommitted hpublished result hwrite ih =>
    have hinv := ih.write hnow hwrite
    refine ⟨hinv.formed, hinv.started, ?_⟩
    intro earlier hearlier hdone
    rcases mem_append.mp hearlier with hold | hnew
    · exact hinv.kept earlier hold hdone
    · rw [mem_singleton] at hnew
      subst hnew
      obtain ⟨before, hrun, hroot, hfamilies⟩ := families_cycleWrite lower chain earlier
      obtain ⟨ctx, p, p', hctxRun, hctxObserver, hctxStart, hctxNow, hids, hbefore, hlast, rfl⟩ :=
        lastFamily_ok ih.formed hrun hroot hfamilies hwrite
      have hcharacters := (foldlM_writeFamily_advances hbefore).characters
      have hstarted : chain.runStartedAt ≤ ctx.now := hctxNow ▸ hinv.started
      refine ⟨?_, protected_of_written ih.formed hctxRun hctxObserver hctxStart hstarted hids ?_
        hcharacters hlast⟩
      · apply hpublished.mono
        intro row hrow
        rw [(writeFamily_effect hlast).advances.characters, hcharacters]
        exact hrow
      · rw [hfamilies]
        simp
  | lost _ cycle hlost ih =>
    refine ⟨ih.formed, ih.started, ?_⟩
    intro earlier hearlier hdone
    rcases mem_append.mp hearlier with hold | hnew
    · exact ih.kept earlier hold hdone
    · rw [mem_singleton] at hnew
      subst hnew
      rw [hlost] at hdone
      cases hdone

end Chains

/-! The seal. -/

section Seal
variable {lower : String → String} {clock : ℕ → ℕ} {chain : ChainRun}
variable {s : ChainState} {sweep : SweepForWrite} {reservationId now : ℕ}
variable {t' : ConnectionTables} {result : ObservationWriteResult}

theorem decided_seal {t : ConnectionTables} {ctx : WriteContext}
    (hkind : sweep.kind = .matched) (characters : List DiscoveredCharacter) :
    (decided t ctx (fingerprintFamily lower chain.rootKey sweep characters
        reservationId)).decision = .replaced ↔
      ¬ (sweep.skippedHistoricalGuilds > 0 ∨ sweep.unreadRoot = true ∨
        skippedGuildLogged t ctx.runId ctx.observerId = true) := by
  unfold decided fingerprintFamily fingerprintDecision sweepFacts
  by_cases hskipped : sweep.skippedHistoricalGuilds > 0
  · simp [hskipped]
  · cases sweep.unreadRoot <;> cases skippedGuildLogged t ctx.runId ctx.observerId <;>
      simp [hskipped, hkind]

theorem seal_ok (hformed : WellFormed lower chain s.tables)
    (hwrite : writeObservations lower clock s.tables now
      (sealWrite lower chain sweep reservationId) = .ok (t', result)) :
    ∃ (ctx : WriteContext) (p' : WriteProgress), ctx.runId = chain.runId ∧
      ctx.observerId = chain.observerId ∧ ctx.runStartedAt = chain.runStartedAt ∧
      ctx.now = now ∧
      ctx.ids = characterIds lower s.tables
        ((sealWrite lower chain sweep reservationId).observerKey ::
          (sealWrite lower chain sweep reservationId).families.flatMap
            (fun family => family.observed.map ObservedItem.key)) ∧
      writeFamily lower clock ctx ⟨s.tables, ∅, 0⟩ (fingerprintFamily lower chain.rootKey sweep
        (matches_ lower chain.excludedTournamentIds sweep) reservationId) = .ok p' ∧
      t' = p'.tables := by
  obtain ⟨ctx, p, p', hrun, hobserver, hstart, hnow, hids, hearlier, hlast, rfl⟩ :=
    lastFamily_ok hformed rfl rfl (nil_append _).symm hwrite
  cases hearlier
  exact ⟨ctx, p', hrun, hobserver, hstart, hnow, hids, hlast, rfl⟩

theorem not_gone_of_kept {ctx : WriteContext} {family : FamilyObservationWrite}
    {t t' : ConnectionTables} (heffect : FamilyEffect clock ctx family t t')
    (hadds : blockedByNewer t ctx.observerId family.family ctx.runStartedAt = true ∨
      (decided t ctx family).decision ≠ .replaced)
    {row : Connection} (hrow : row ∈ t.connections) : ¬ Gone t' row := by
  intro hgone
  cases heffect with
  | blocked hblocked => exact hgone row hrow rfl
  | written rows hopen hsighted =>
    have hadds := hadds.resolve_left (by simp [hopen])
    obtain ⟨row', hrow', hlink, -⟩ := hsighted.kept row hrow
    refine hgone row' ?_ hlink
    change row' ∈ (writeMarker ctx family.family _).connections
    rw [connections_writeMarker]
    unfold linksAfter
    rw [if_neg hadds]
    exact hrow'

theorem gone_iff_stale (hformed : WellFormed lower chain s.tables)
    (hpublished : Published s.tables (observed lower chain.rootKey
      (matches_ lower chain.excludedTournamentIds sweep)))
    (hnow : chain.runStartedAt ≤ now) (hkind : sweep.kind = .matched)
    (hopen : blockedByNewer s.tables chain.observerId .fingerprint chain.runStartedAt = false)
    (hreplaces : ¬ (sweep.skippedHistoricalGuilds > 0 ∨ sweep.unreadRoot = true ∨
      skippedGuildLogged s.tables chain.runId chain.observerId = true))
    (hwrite : writeObservations lower clock s.tables now
      (sealWrite lower chain sweep reservationId) = .ok (t', result))
    {row : Connection} (hrow : row ∈ s.tables.connections) :
    Gone t' row ↔ Stale lower chain s sweep row := by
  obtain ⟨ctx, p', hrun, hobserver, hstart, hctxNow, hids, hlast, rfl⟩ := seal_ok hformed hwrite
  rw [← hobserver, ← hstart] at hopen
  obtain ⟨seen, hseen, htables⟩ := writeFamily_ok hlast hopen
  obtain ⟨rows, hseenTables, hsighted⟩ := observeItems_ok hseen
  have hverdict : (decided s.tables ctx (fingerprintFamily lower chain.rootKey sweep
      (matches_ lower chain.excludedTournamentIds sweep) reservationId)).decision = .replaced :=
    (decided_seal hkind _).mpr (hrun ▸ hobserver ▸ hreplaces)
  have hleft : p'.tables.connections =
      seen.tables.connections.filter (fun row => !retracted ctx .fingerprint row) := by
    rw [htables]
    change (writeMarker ctx _ _).connections = _
    rw [connections_writeMarker]
    unfold linksAfter
    rw [if_pos hverdict]
    rfl
  have hseenRows : seen.tables.connections = rows := by rw [hseenTables]
  have hfamily : ∀ item ∈ observed lower chain.rootKey
      (matches_ lower chain.excludedTournamentIds sweep), item.source = .fingerprint := by
    intro item hitem
    have hfamilyOf := observeItems_family hitem hseen
    by_contra hne
    simp [familyOf, hne, fingerprintFamily] at hfamilyOf
  have hresolve : ∀ item ∈ observed lower chain.rootKey
      (matches_ lower chain.excludedTournamentIds sweep), ∀ character ∈ s.tables.characters,
      character.key = item.key →
      ctx.ids.get? (canonicalCharacterId lower item.key) = some character.id ∧
        character.id ≠ chain.observerId := by
    intro item hitem character hcharacter hkey
    have hobserved : (fingerprintFamily lower chain.rootKey sweep
        (matches_ lower chain.excludedTournamentIds sweep) reservationId).observed =
        observed lower chain.rootKey (matches_ lower chain.excludedTournamentIds sweep) := rfl
    exact resolves_of_published hformed (mem_singleton_self _) hobserved hids
      (hobserved.symm ▸ hitem) hcharacter hkey
  constructor
  · intro hgone
    obtain ⟨row', hrow', hlink, hsame⟩ := hsighted.kept row hrow
    have hretracted : retracted ctx .fingerprint row' = true := by
      by_contra hspared
      refine hgone row' ?_ hlink
      rw [hleft, hseenRows]
      exact mem_filter.mpr ⟨hrow', by simpa using hspared⟩
    simp only [retracted, mem_sourcesForFamily, decide_eq_true_eq] at hretracted
    obtain ⟨hrowObserver, hrowSource, hrowRun, hbefore⟩ := hretracted
    obtain rfl : row' = row := hsame.resolve_right fun hnew => hrowRun hnew.runId
    have hsource : row'.source = .fingerprint := by
      by_contra hne
      simp [familyOf, hne] at hrowSource
    refine ⟨hrow, hrowObserver.trans hobserver, hsource, hrun ▸ hrowRun, hstart ▸ hbefore, ?_⟩
    rintro item hitem ⟨character, hcharacter, hkey, hrowLink⟩
    obtain ⟨hid, hother⟩ := hresolve item hitem character hcharacter hkey
    have hat := observeItems_seen hitem hid (hobserver ▸ hother) hseen row' (hseenRows ▸ hrow') (by
      rw [observes_iff, hobserver, hfamily item hitem]
      exact hrowLink)
    omega
  · intro hstale row' hrow' hlink
    -- nothing the seal observed is this link, so the loop left the row alone
    have hunseen : row ∈ seen.tables.connections := by
      refine (mem_observeItems_of_ne ?_ hseen).mpr hrow
      intro item hitem otherId hid hobserves
      obtain ⟨character, hcharacter, hkey⟩ := hpublished item hitem
      obtain ⟨hid', -⟩ := hresolve item hitem character hcharacter hkey
      rw [hid', Option.some.injEq] at hid
      subst hid
      rw [observes_iff, hobserver, hfamily item hitem] at hobserves
      exact hstale.unmatched item hitem ⟨character, hcharacter, hkey, hobserves⟩
    rw [hleft] at hrow'
    obtain ⟨hin, hspared⟩ := mem_filter.mp hrow'
    rw [hseenRows] at hin hunseen
    obtain rfl := inj_on_of_nodup_map (hsighted.unique hformed.unique) hin hunseen hlink
    have hretracted : retracted ctx .fingerprint row' = true := by
      simp only [retracted, mem_sourcesForFamily, decide_eq_true_eq]
      exact ⟨hstale.observer.trans hobserver.symm, by simp [familyOf, hstale.source],
        hrun ▸ hstale.run, hstart ▸ hstale.before⟩
    rw [hretracted] at hspared
    cases hspared

/-- The seal keeps what its chain confirmed exactly when it is blocked, does not
replace, or no lost write covered a stale link. -/
theorem sealKeeps_iff (hchain : Underway lower clock chain s) (hnow : s.now ≤ now)
    (hkind : sweep.kind = .matched)
    (hpublished : Published s.tables (observed lower chain.rootKey
      (matches_ lower chain.excludedTournamentIds sweep)))
    (hwrite : writeObservations lower clock s.tables now
      (sealWrite lower chain sweep reservationId) = .ok (t', result)) :
    SealKeeps lower chain s sweep t' ↔ SealSafe lower chain s sweep := by
  have hinv := chainInv_of_underway hchain
  obtain ⟨ctx, p', hrun, hobserver, hstart, -, -, hlast, rfl⟩ := seal_ok hinv.formed hwrite
  have heffect := writeFamily_effect hlast
  by_cases hadds : blockedByNewer s.tables chain.observerId .fingerprint chain.runStartedAt =
      true ∨ (sweep.skippedHistoricalGuilds > 0 ∨ sweep.unreadRoot = true ∨
        skippedGuildLogged s.tables chain.runId chain.observerId = true)
  · have hkept : ∀ row ∈ s.tables.connections, ¬ Gone p'.tables row := by
      intro row hrow
      refine not_gone_of_kept heffect ?_ hrow
      rcases hadds with hblocked | hskips
      · left
        rw [hobserver, hstart]
        exact hblocked
      · right
        intro hreplaced
        exact (decided_seal hkind _).mp hreplaced (hrun.symm ▸ hobserver.symm ▸ hskips)
    constructor
    · intro _
      rcases hadds with hblocked | hskips
      · exact .inl hblocked
      · exact .inr (.inl hskips)
    · intro _
      exact ⟨fun _ _ _ _ row hrow _ => hkept row hrow, fun _ => hkept⟩
  · push Not at hadds
    obtain ⟨hopen, hreads⟩ := hadds
    have hopen := Bool.eq_false_iff.mpr hopen
    have hreplaces : ¬ (sweep.skippedHistoricalGuilds > 0 ∨ sweep.unreadRoot = true ∨
        skippedGuildLogged s.tables chain.runId chain.observerId = true) := by
      rintro (hskipped | hunread | hlogged)
      · exact absurd hskipped (not_lt.mpr hreads.1)
      · exact hreads.2.1 hunread
      · exact hreads.2.2 hlogged
    have hgone : ∀ row ∈ s.tables.connections,
        (Gone p'.tables row ↔ Stale lower chain s sweep row) := fun row hrow =>
      gone_iff_stale hinv.formed hpublished (hinv.started.trans hnow) hkind hopen hreplaces
        hwrite hrow
    constructor
    · intro hkeeps
      refine .inr (.inr fun cycle hcycle _ row hstale => ?_)
      have hdeleted := (hgone row hstale.stored).mpr hstale
      constructor
      · by_contra hskipped
        exact hkeeps.skipped (.inr ⟨cycle, hcycle, Nat.pos_of_ne_zero hskipped⟩) row
          hstale.stored hdeleted
      · intro item hitem hlink
        exact hkeeps.matched _ (mem_cons_of_mem _ (mem_map_of_mem hcycle)) item hitem
          row hstale.stored hlink hdeleted
    · intro hsafe
      have hlost := (hsafe.resolve_left (by simp [hopen])).resolve_left hreplaces
      refine ⟨?_, ?_⟩
      · intro items hitems item hitem row hrow hlink hdeleted
        have hstale := (hgone row hrow).mp hdeleted
        rcases mem_cons.mp hitems with rfl | hearlier
        · exact hstale.unmatched item hitem hlink
        · obtain ⟨cycle, hcycle, rfl⟩ := mem_map.mp hearlier
          cases hcommitted : cycle.committed with
          | false => exact (hlost cycle hcycle hcommitted row hstale).2 item hitem hlink
          | true =>
            rcases (hinv.kept cycle hcycle hcommitted).2 with hblocked | ⟨-, hmatched⟩
            · rw [hblocked] at hopen
              cases hopen
            · have hat := hmatched item hitem row hrow hlink
              have hbefore := hstale.before
              omega
      · intro hskips row hrow hdeleted
        have hstale := (hgone row hrow).mp hdeleted
        rcases hskips with hseal | ⟨cycle, hcycle, hskipped⟩
        · exact hreplaces (.inl hseal)
        · cases hcommitted : cycle.committed with
          | false =>
            have hnone := (hlost cycle hcycle hcommitted row hstale).1
            omega
          | true =>
            rcases (hinv.kept cycle hcycle hcommitted).2 with hblocked | ⟨hlogged, -⟩
            · rw [hblocked] at hopen
              cases hopen
            · exact hreplaces (.inr (.inr (hlogged hskipped)))

end Seal

/-! An earlier run linked the root to one character; this run's first cycle
matches it again, and the seal matches another. -/

def sampleKey (name : String) : CharacterKey := ⟨.eu, "realm", name⟩

def sampleMatch (name : String) : DiscoveredCharacter :=
  ⟨sampleKey name, name, "mage", 80, none, "", .fingerprint⟩

def sampleChain : ChainRun := ⟨5, sampleKey "root", 1, 300, []⟩

def sampleTables : ConnectionTables where
  characters := [⟨1, sampleKey "root"⟩, ⟨2, sampleKey "first"⟩, ⟨3, sampleKey "second"⟩]
  runs := [⟨4, sampleKey "root", some 100, 90⟩, ⟨5, sampleKey "root", some 300, 290⟩]
  connections := [⟨1, 2, .fingerprint, 1, 4, 150⟩]
  writes := []
  writeLog := []

def sampleCycle (committed : Bool) : Cycle :=
  ⟨none, ⟨.capped, [sampleMatch "first"], false, 0⟩, 7, committed⟩

def sampleSeal : SweepForWrite := ⟨.matched, [sampleMatch "second"], false, 0⟩

theorem wellFormed_sampleTables : WellFormed id sampleChain sampleTables :=
  ⟨⟨by decide, by decide, by simp [sampleTables, canonicalCharacterId]⟩,
    ⟨_, mem_cons_self, rfl, rfl⟩, ⟨_, rfl, rfl⟩, by decide⟩

theorem published_sample (name : String) (hname : name = "first" ∨ name = "second") :
    Published sampleTables (observed id sampleChain.rootKey
      (matches_ id sampleChain.excludedTournamentIds ⟨.matched, [sampleMatch name], false, 0⟩)) := by
  rcases hname with rfl | rfl <;> unfold Published <;> decide

/-- The first cycle's write is lost, and the seal deletes the link it confirmed. -/
theorem seal_deletes_confirmed_match :
    ∃ (s : ChainState) (t' : ConnectionTables) (result : ObservationWriteResult),
      Underway id id sampleChain s ∧ s.now ≤ 400 ∧
      writeObservations id id s.tables 400 (sealWrite id sampleChain sampleSeal 8) =
        .ok (t', result) ∧
      ¬ SealKeeps id sampleChain s sampleSeal t' := by
  have hstart : Underway id id sampleChain ⟨sampleTables, 310, []⟩ :=
    .start _ _ wellFormed_sampleTables (by decide)
  refine ⟨_, _, _, hstart.lost (sampleCycle false) rfl, by decide, rfl, ?_⟩
  intro hkeeps
  refine hkeeps.matched _ (mem_cons_of_mem _ (mem_singleton_self _))
    ⟨sampleKey "first", .fingerprint⟩ (by decide) ⟨1, 2, .fingerprint, 1, 4, 150⟩ (by decide)
    ⟨⟨2, sampleKey "first"⟩, by simp [sampleTables], rfl, by decide⟩ ?_
  unfold Gone
  decide

theorem sealKeeps_iff_sampleChain :
    ∃ (s : ChainState) (t' : ConnectionTables) (result : ObservationWriteResult),
      Underway id id sampleChain s ∧
      writeObservations id id s.tables 400 (sealWrite id sampleChain sampleSeal 8) =
        .ok (t', result) ∧
      SealKeeps id sampleChain s sampleSeal t' := by
  have hstart : Underway id id sampleChain ⟨sampleTables, 310, []⟩ :=
    .start _ _ wellFormed_sampleTables (by decide)
  have hcycle := hstart.committed 320 (by decide) (sampleCycle true) rfl
    (published_sample "first" (.inl rfl)) _ rfl
  refine ⟨_, _, _, hcycle, rfl, ?_⟩
  refine (sealKeeps_iff hcycle (by decide) rfl (published_sample "second" (.inr rfl)) rfl).mpr ?_
  refine .inr (.inr ?_)
  intro cycle hin hlost
  rw [mem_singleton.mp hin] at hlost
  cases hlost

end SlashWho.FingerprintChain
