import SlashWho.DossierExclusions
import SlashWho.GroupSubjects

/-!
The subjects of a dossier: the root's snapshot, its own or one borrowed from the account it was
declared on, with the links and what their own discoveries found, in rank order, folded where a
Warcraft Logs id is shared, and split into those selected, skipped past the ceiling and excluded.
The collation of names is a parameter.
-/

namespace SlashWho.DossierSubjects

open List Characters ComparatorSort DossierConnections
open GroupSubjects (IdentityName SharedIdentityGroup groupBySharedWarcraftLogsId identityName)

inductive SubjectSource
  | found (source : DiscoverySource)
  | submitted
  | manuallyAdded
  deriving DecidableEq

/-- The one label that a link's origin gives a subject. -/
inductive SubjectOrigin
  | application
  deriving DecidableEq

structure RankedSubject (lower : String → String) where
  key : LookupKey lower
  displayName : String
  className : Option String
  guild : Option CharacterGuild
  raiderIoUrl : String
  source : SubjectSource
  pending : Bool
  origin : Option SubjectOrigin
  warcraftLogsAliases : Option (List (LookupKey lower))
  level : ℕ
  deriving DecidableEq

structure ResolvedSubjects (lower : String → String) where
  snapshot : StoredSnapshot lower
  selected : List (RankedSubject lower)
  skipped : List (RankedSubject lower)
  excludedOrdered : List (RankedSubject lower)
  provisional : Bool

variable {lower : String → String}

/-- A snapshot that declares the character, rooted at it for one read. -/
def borrowSnapshot (key : LookupKey lower) (containing : Option (StoredSnapshot lower)) :
    Option (StoredSnapshot lower) :=
  containing.bind (fun containing =>
    (containing.characters.find? (fun character => character.key.id = key.id)).bind
      (fun member =>
        if member.source = .claimed ∨ member.source = .declaredMain then
          some
            { rootKey := key
              characters := containing.characters.map (fun character =>
                if character.key.id = key.id then { character with source := .input }
                else if character.key.id = containing.rootKey.id then
                  { character with source := .claimed }
                else character) }
        else none))

def dossierSnapshot (d : Discovery lower) (key : LookupKey lower) :
    Option (StoredSnapshot lower) :=
  (d.getCurrent key).or (borrowSnapshot key (d.getCurrentDeclaringCharacter key))

def discoveredSubject (character : SnapshotCharacter lower) : RankedSubject lower where
  key := character.key
  displayName := character.displayName
  className := some character.className
  guild := character.guild
  raiderIoUrl := character.raiderIoUrl
  source := .found character.source
  pending := false
  origin := none
  warcraftLogsAliases := none
  level := character.level

def manualSubject (character : ManualConnectionCharacter lower)
    (connectedGuild : Option CharacterGuild) : RankedSubject lower where
  key := character.key
  displayName := character.displayName
  className := character.className
  guild := connectedGuild
  raiderIoUrl := character.raiderIoUrl
  source := .manuallyAdded
  pending := character.pending
  origin := if character.origin = .dossier then none else some .application
  warcraftLogsAliases := none
  level := character.level

/-- The candidates the links brought so far, and every id that is taken. -/
structure Admitted (lower : String → String) where
  seen : List CanonicalId
  manual : List (RankedSubject lower)
  excluded : List (RankedSubject lower)

def admitSubject (intoExcluded : Bool) (a : Admitted lower) (candidate : RankedSubject lower) :
    Admitted lower :=
  if candidate.key.id ∈ a.seen then a
  else if intoExcluded then
    { a with seen := candidate.key.id :: a.seen, excluded := a.excluded ++ [candidate] }
  else { a with seen := candidate.key.id :: a.seen, manual := a.manual ++ [candidate] }

/-- An excluded link still brings in what its own discovery found. -/
def admitConnection (d : Discovery lower) (a : Admitted lower)
    (character : ManualConnectionCharacter lower) : Admitted lower :=
  let connectedSnapshot := if character.pending then none else d.getCurrent character.key
  let connectedGuild := connectedSnapshot.bind (fun snapshot =>
    (snapshot.characters.find? (fun discovered => discovered.key.id = character.key.id)).bind
      SnapshotCharacter.guild)
  let admitted := admitSubject character.excluded a (manualSubject character connectedGuild)
  if character.pending then admitted
  else
    ((connectedSnapshot.map StoredSnapshot.characters).getD []).foldl
      (fun a discovered => admitSubject false a (discoveredSubject discovered)) admitted

variable (localeCompare : String → String → Ordering)

/-- Highest level first, then by region, realm and name. -/
def compareByLevelThenKey (left right : RankedSubject lower) : Ordering :=
  (compare right.level left.level).then
    ((localeCompare left.key.region.code right.key.region.code).then
      ((localeCompare left.key.realm right.key.realm).then
        (localeCompare left.key.name right.key.name)))

def isRoot (rootKey : LookupKey lower) (character : RankedSubject lower) : Bool :=
  character.key.id = rootKey.id

def compareRanked (rootKey : LookupKey lower) (left right : RankedSubject lower) : Ordering :=
  (compare (isRoot rootKey right).toNat (isRoot rootKey left).toNat).then
    (compareByLevelThenKey localeCompare left right)

variable (s : Dossiers lower) (snapshot : StoredSnapshot lower)

def admitted : Admitted lower :=
  (list s snapshot.rootKey).foldl (admitConnection s.discovery)
    ⟨snapshot.characters.map (fun character => character.key.id), [], []⟩

def excludedIds : List CanonicalId :=
  (listDiscoveredExclusions s snapshot.rootKey).map LookupKey.id ++
    ((list s snapshot.rootKey).filter ManualConnectionCharacter.excluded).map
      (fun character => character.key.id)

def isExcluded (character : RankedSubject lower) : Bool :=
  character.key.id ∈ excludedIds s snapshot

def ordered : List (RankedSubject lower) :=
  sortBy (compareRanked localeCompare snapshot.rootKey)
    (snapshot.characters.map discoveredSubject ++ (admitted s snapshot).manual)

def candidates : List (RankedSubject lower) :=
  ordered localeCompare s snapshot ++ (admitted s snapshot).excluded

def recordedIds : List (CharacterKey × ℕ) :=
  (s.discovery.warcraftLogsCharacterIds
    ((candidates localeCompare s snapshot).map RankedSubject.key)).map
      (fun entry => (entry.1.toCharacterKey, entry.2))

/-- The root leads its own row, and an excluded name every other row that has one. -/
def choosePrimary (members : List (RankedSubject lower)) : Option (RankedSubject lower) :=
  (members.find? (isRoot snapshot.rootKey)).or
    ((members.find? (isExcluded s snapshot)).or members.head?)

def identities : List (SharedIdentityGroup (RankedSubject lower)) :=
  groupBySharedWarcraftLogsId lower (fun character => character.key.toCharacterKey)
    (candidates localeCompare s snapshot) (recordedIds localeCompare s snapshot)
    (choosePrimary s snapshot)

def rowOf (identity : SharedIdentityGroup (RankedSubject lower)) : RankedSubject lower :=
  if identity.aliases.isEmpty then identity.primary
  else { identity.primary with
    warcraftLogsAliases := some (identity.aliases.map RankedSubject.key) }

def excludes (identity : SharedIdentityGroup (RankedSubject lower)) : Bool :=
  !isRoot snapshot.rootKey identity.primary &&
    (identity.primary :: identity.aliases).any (isExcluded s snapshot)

/-- None where no snapshot holds the character yet. -/
def legacyResolveSubjects (key : LookupKey lower) (ceiling : ℕ) :
    Option (ResolvedSubjects lower) :=
  (dossierSnapshot s.discovery key).map (fun snapshot =>
    let identities := identities localeCompare s snapshot
    let includedOrdered :=
      (identities.filter (fun identity => !excludes s snapshot identity)).map rowOf
    { snapshot := snapshot
      selected := includedOrdered.take ceiling
      skipped := includedOrdered.drop ceiling
      excludedOrdered := sortBy (compareByLevelThenKey localeCompare)
        ((identities.filter (excludes s snapshot)).map rowOf)
      provisional := (s.discovery.getCurrent key).isNone })

def RankedSubject.names (row : RankedSubject lower) : List (LookupKey lower) :=
  row.key :: row.warcraftLogsAliases.getD []

instance : LawfulBEq (LookupKey lower) := inferInstance

/-- The character has its place, under one of its row's names, among those excluded. -/
def listsExcluded (resolved : Option (ResolvedSubjects lower)) (key : LookupKey lower) : Bool :=
  resolved.any (fun resolved =>
    resolved.excludedOrdered.any (fun row => key ∈ row.names))

variable {localeCompare : String → String → Ordering} {s : Dossiers lower}
  {snapshot : StoredSnapshot lower}

variable {key : LookupKey lower}

theorem borrowSnapshot_root {containing : Option (StoredSnapshot lower)}
    (h : borrowSnapshot key containing = some snapshot) : snapshot.rootKey = key := by
  unfold borrowSnapshot at h
  obtain ⟨containing, -, hmember⟩ := Option.bind_eq_some_iff.mp h
  obtain ⟨member, -, hborrowed⟩ := Option.bind_eq_some_iff.mp hmember
  by_cases hdeclared : member.source = .claimed ∨ member.source = .declaredMain
  · rw [if_pos hdeclared, Option.some.injEq] at hborrowed
    rw [← hborrowed]
  · rw [if_neg hdeclared] at hborrowed
    cases hborrowed

variable {d : Discovery lower}

theorem dossierSnapshot_root (h : dossierSnapshot d key = some snapshot) :
    snapshot.rootKey = key := by
  unfold dossierSnapshot at h
  cases hown : d.getCurrent key with
  | some own =>
    rw [hown, Option.some_or, Option.some.injEq] at h
    rw [← h]
    exact d.getCurrent_root key own hown
  | none =>
    rw [hown, Option.none_or] at h
    exact borrowSnapshot_root h

/-- The ids taken are those there were from the start and those of the candidates, of which
none is a row of several names yet. -/
structure Admitted.Files (a : Admitted lower) (base : List CanonicalId) : Prop where
  ids : ∀ id, id ∈ a.seen ↔
    id ∈ base ∨ id ∈ (a.manual ++ a.excluded).map (fun candidate => candidate.key.id)
  plain : ∀ candidate ∈ a.manual ++ a.excluded, candidate.warcraftLogsAliases = none

variable {a : Admitted lower} {base : List CanonicalId} {candidate : RankedSubject lower}

theorem Admitted.Files.admitSubject (h : a.Files base) (intoExcluded : Bool)
    (hplain : candidate.warcraftLogsAliases = none) :
    (DossierSubjects.admitSubject intoExcluded a candidate).Files base := by
  unfold DossierSubjects.admitSubject
  by_cases hseen : candidate.key.id ∈ a.seen
  · rw [if_pos hseen]
    exact h
  · rw [if_neg hseen]
    have hids := h.ids
    have hheld := h.plain
    simp only [map_append, mem_append] at hids hheld
    cases intoExcluded with
    | true =>
      constructor
      · intro id
        simp only [if_pos, mem_cons, map_append, mem_append, map_cons,
          map_nil, not_mem_nil, or_false, hids]
        tauto
      · intro other hother
        simp only [if_pos, mem_append, mem_singleton] at hother
        rcases hother with hother | hother | rfl
        · exact hheld other (.inl hother)
        · exact hheld other (.inr hother)
        · exact hplain
    | false =>
      constructor
      · intro id
        simp only [Bool.false_eq_true, if_false, mem_cons, map_append,
          mem_append, map_cons, map_nil, not_mem_nil, or_false, hids]
        tauto
      · intro other hother
        simp only [Bool.false_eq_true, if_false, mem_append, mem_singleton] at hother
        rcases hother with (hother | rfl) | hother
        · exact hheld other (.inl hother)
        · exact hplain
        · exact hheld other (.inr hother)

theorem seen_admitSubject (intoExcluded : Bool) (a : Admitted lower) (candidate : RankedSubject lower)
    (id : CanonicalId) :
    id ∈ (admitSubject intoExcluded a candidate).seen ↔ id ∈ a.seen ∨ id = candidate.key.id := by
  unfold admitSubject
  by_cases hseen : candidate.key.id ∈ a.seen
  · rw [if_pos hseen]
    constructor
    · exact .inl
    · rintro (h | rfl)
      · exact h
      · exact hseen
  · rw [if_neg hseen]
    cases intoExcluded <;> simp [or_comm]

theorem foldl_admitSubject_files (h : a.Files base) (characters : List (SnapshotCharacter lower)) :
    (characters.foldl (fun a discovered => admitSubject false a (discoveredSubject discovered))
      a).Files base := by
  induction characters generalizing a with
  | nil => exact h
  | cons first rest ih => exact ih (h.admitSubject false rfl)

theorem seen_foldl_admitSubject (a : Admitted lower) (characters : List (SnapshotCharacter lower))
    (id : CanonicalId) :
    id ∈ (characters.foldl (fun a discovered => admitSubject false a (discoveredSubject discovered))
        a).seen ↔
      id ∈ a.seen ∨ ∃ character ∈ characters, id = character.key.id := by
  induction characters generalizing a with
  | nil => simp
  | cons first rest ih =>
    rw [foldl_cons, ih, seen_admitSubject]
    simp only [mem_cons, exists_eq_or_imp, or_assoc]
    rfl

theorem files_admitConnection (h : a.Files base) (d : Discovery lower)
    (character : ManualConnectionCharacter lower) :
    (admitConnection d a character).Files base := by
  unfold admitConnection
  dsimp only
  by_cases hpending : character.pending = true
  · rw [if_pos hpending]
    exact h.admitSubject _ rfl
  · rw [if_neg hpending]
    exact foldl_admitSubject_files (h.admitSubject _ rfl) _

/-- A link takes its own id and those of what its discovery found. -/
theorem seen_admitConnection (d : Discovery lower) (a : Admitted lower)
    (character : ManualConnectionCharacter lower) (key : LookupKey lower) :
    key.id ∈ (admitConnection d a character).seen ↔
      key.id ∈ a.seen ∨ key ∈ character.key :: discoveredUnder d character := by
  unfold admitConnection discoveredUnder currentKeys StoredSnapshot.keys
  dsimp only
  rw [mem_cons]
  by_cases hpending : character.pending = true
  · rw [if_pos hpending, if_pos hpending, seen_admitSubject]
    simp [manualSubject, hpending]
  · rw [if_neg hpending, if_neg hpending, if_neg hpending, seen_foldl_admitSubject, seen_admitSubject]
    cases d.getCurrent character.key with
    | none => simp [manualSubject]
    | some found =>
      simp only [manualSubject, LookupKey.id_eq_iff, Option.map_some, Option.getD_some,
        mem_map, or_assoc]
      simp only [eq_comm]

theorem files_foldl (h : a.Files base) (d : Discovery lower)
    (connections : List (ManualConnectionCharacter lower)) :
    (connections.foldl (admitConnection d) a).Files base := by
  induction connections generalizing a with
  | nil => exact h
  | cons first rest ih => exact ih (files_admitConnection h d first)

theorem seen_foldl (d : Discovery lower) (a : Admitted lower)
    (connections : List (ManualConnectionCharacter lower)) (key : LookupKey lower) :
    key.id ∈ (connections.foldl (admitConnection d) a).seen ↔
      key.id ∈ a.seen ∨
        key ∈ connections.flatMap (fun character =>
          character.key :: discoveredUnder d character) := by
  induction connections generalizing a with
  | nil => simp
  | cons first rest ih =>
    rw [foldl_cons, ih, seen_admitConnection, flatMap_cons, mem_append, or_assoc]

def shownKeys (s : Dossiers lower) (snapshot : StoredSnapshot lower) : List (LookupKey lower) :=
  snapshot.keys ++ (list s snapshot.rootKey).flatMap (fun character =>
    character.key :: discoveredUnder s.discovery character)

theorem files_admitted (s : Dossiers lower) (snapshot : StoredSnapshot lower) :
    (admitted s snapshot).Files
      (snapshot.characters.map (fun character => character.key.id)) := by
  apply files_foldl
  constructor
  · intro id
    simp
  · intro candidate hin
    exact absurd hin not_mem_nil

theorem plain_candidate (h : candidate ∈ candidates localeCompare s snapshot) :
    candidate.warcraftLogsAliases = none := by
  have hplain := (files_admitted s snapshot).plain
  unfold candidates ordered at h
  simp only [mem_append, mem_sortBy, mem_map] at h hplain
  rcases h with (⟨character, -, rfl⟩ | hin) | hin
  · rfl
  · exact hplain candidate (.inl hin)
  · exact hplain candidate (.inr hin)

theorem exists_candidate :
    (∃ candidate ∈ candidates localeCompare s snapshot, candidate.key = key) ↔
      key ∈ shownKeys s snapshot := by
  have hseen := seen_foldl s.discovery
    ⟨snapshot.characters.map (fun character => character.key.id), [], []⟩
    (list s snapshot.rootKey) key
  have hfiled := ((files_admitted s snapshot).ids key.id).symm.trans hseen
  have hbase : key.id ∈ snapshot.characters.map (fun character => character.key.id) ↔
      key ∈ snapshot.keys := by
    unfold StoredSnapshot.keys
    simp only [mem_map, LookupKey.id_eq_iff]
  rw [hbase] at hfiled
  unfold shownKeys candidates ordered
  rw [mem_append, ← hfiled]
  unfold StoredSnapshot.keys
  simp only [mem_append, mem_sortBy, mem_map, LookupKey.id_eq_iff]
  constructor
  · rintro ⟨candidate, (⟨character, hin, rfl⟩ | hin) | hin, rfl⟩
    · exact .inl ⟨character, hin, rfl⟩
    · exact .inr ⟨candidate, .inl hin, rfl⟩
    · exact .inr ⟨candidate, .inr hin, rfl⟩
  · rintro (⟨character, hin, rfl⟩ | ⟨candidate, hin | hin, rfl⟩)
    · exact ⟨_, .inl (.inl ⟨character, hin, rfl⟩), rfl⟩
    · exact ⟨candidate, .inl (.inr hin), rfl⟩
    · exact ⟨candidate, .inr hin, rfl⟩

theorem isExcluded_iff :
    isExcluded s snapshot candidate = true ↔ Hidden s snapshot.rootKey candidate.key := by
  unfold isExcluded excludedIds Hidden list
  simp only [decide_eq_true_eq, mem_append, mem_map, LookupKey.id_eq_iff,
    mem_filter, ← OrderedMap.mem_entries_iff]
  apply or_congr
  · constructor
    · rintro ⟨key, hin, rfl⟩
      exact hin
    · intro hin
      exact ⟨_, hin, rfl⟩
  · constructor
    · rintro ⟨character, ⟨⟨⟨key, row⟩, hentry, rfl⟩, hexcluded⟩, heq⟩
      obtain rfl : key = candidate.key := heq
      exact ⟨row, hentry, hexcluded⟩
    · rintro ⟨row, hentry, hexcluded⟩
      exact ⟨_, ⟨⟨_, hentry, rfl⟩, hexcluded⟩, rfl⟩

/-- Two names of one row: the same name, or one recorded id. -/
def SameRow (d : Discovery lower) (key other : LookupKey lower) : Prop :=
  other = key ∨ SharesId d key other

theorem SameRow.symm {other : LookupKey lower} (h : SameRow d key other) :
    SameRow d other key := by
  rcases h with h | ⟨characterId, hkey, hother⟩
  · exact .inl h.symm
  · exact .inr ⟨characterId, hother, hkey⟩

theorem SameRow.trans {other third : LookupKey lower} (h : SameRow d key other)
    (h' : SameRow d other third) : SameRow d key third := by
  rcases h with rfl | ⟨characterId, hkey, hother⟩
  · exact h'
  · rcases h' with rfl | ⟨characterId', hother', hthird⟩
    · exact .inr ⟨characterId, hkey, hother⟩
    · rw [hother, Option.some.injEq] at hother'
      exact .inr ⟨characterId, hkey, hother'.symm ▸ hthird⟩

theorem identityName_eq (h : candidate ∈ candidates localeCompare s snapshot) :
    identityName lower (fun character : RankedSubject lower => character.key.toCharacterKey)
        (recordedIds localeCompare s snapshot) candidate =
      match s.discovery.characterId candidate.key with
      | none => .key candidate.key.id
      | some characterId => .wcl characterId := by
  unfold identityName
  dsimp only
  rw [OrderedMap.get?_ofList_of_forall (r := s.discovery.characterId candidate.key)]
  · rfl
  · intro characterId
    unfold recordedIds Discovery.warcraftLogsCharacterIds
    simp only [map_map, mem_map, mem_filterMap, Option.map_eq_some_iff,
      Function.comp_apply, Prod.mk.injEq]
    constructor
    · rintro ⟨entry, ⟨key, -, recorded, hrecorded, rfl⟩, hkey, rfl⟩
      obtain rfl : key = candidate.key := (LookupKey.id_eq_iff _ _).mp hkey
      exact hrecorded
    · intro hrecorded
      exact ⟨(candidate.key, characterId), ⟨candidate.key, ⟨candidate, h, rfl⟩, characterId,
        hrecorded, rfl⟩, rfl, rfl⟩

theorem identityName_eq_iff {other : RankedSubject lower}
    (h : candidate ∈ candidates localeCompare s snapshot)
    (h' : other ∈ candidates localeCompare s snapshot) :
    identityName lower (fun character : RankedSubject lower => character.key.toCharacterKey)
          (recordedIds localeCompare s snapshot) other =
        identityName lower (fun character : RankedSubject lower => character.key.toCharacterKey)
          (recordedIds localeCompare s snapshot) candidate ↔
      SameRow s.discovery candidate.key other.key := by
  rw [identityName_eq h, identityName_eq h']
  unfold SameRow SharesId
  cases hid : s.discovery.characterId candidate.key with
  | none =>
    cases hother : s.discovery.characterId other.key with
    | none => simp
    | some characterId =>
      simp only [reduceCtorEq, false_and, exists_false, or_false, false_iff]
      intro heq
      rw [heq, hid] at hother
      cases hother
  | some characterId =>
    cases hother : s.discovery.characterId other.key with
    | none =>
      simp only [reduceCtorEq, and_false, exists_false, or_false, false_iff]
      intro heq
      rw [heq, hid] at hother
      cases hother
    | some characterId' =>
      simp only [IdentityName.wcl.injEq, Option.some.injEq, exists_eq_left']
      constructor
      · exact .inr
      · rintro (heq | heq)
        · rw [heq, hid, Option.some.injEq] at hother
          exact hother.symm
        · exact heq

variable {members : List (RankedSubject lower)}

theorem choosePrimary_mem {primary : RankedSubject lower}
    (h : choosePrimary s snapshot members = some primary) : primary ∈ members := by
  unfold choosePrimary at h
  rcases Option.or_eq_some_iff.mp h with h | ⟨-, h⟩
  · exact mem_of_find?_eq_some h
  · rcases Option.or_eq_some_iff.mp h with h | ⟨-, h⟩
    · exact mem_of_find?_eq_some h
    · exact mem_of_head? h

theorem exists_choosePrimary {member : RankedSubject lower} (h : member ∈ members) :
    ∃ primary, choosePrimary s snapshot members = some primary := by
  rw [← Option.isSome_iff_exists]
  unfold choosePrimary
  cases members with
  | nil => cases h
  | cons first rest => simp

/-- The root leads any row that holds it. -/
theorem isRoot_choosePrimary {primary : RankedSubject lower}
    (h : choosePrimary s snapshot members = some primary) :
    isRoot snapshot.rootKey primary = true ↔
      ∃ member ∈ members, member.key = snapshot.rootKey := by
  constructor
  · intro hroot
    unfold isRoot at hroot
    rw [decide_eq_true_eq, LookupKey.id_eq_iff] at hroot
    exact ⟨primary, choosePrimary_mem h, hroot⟩
  · rintro ⟨member, hin, hmember⟩
    unfold choosePrimary at h
    cases hfind : members.find? (isRoot snapshot.rootKey) with
    | some root =>
      rw [hfind, Option.some_or, Option.some.injEq] at h
      rw [← h]
      exact find?_some hfind
    | none =>
      rw [find?_eq_none] at hfind
      refine absurd ?_ (hfind member hin)
      unfold isRoot
      rw [decide_eq_true_eq, LookupKey.id_eq_iff]
      exact hmember

def rowMembers (localeCompare : String → String → Ordering) (s : Dossiers lower)
    (snapshot : StoredSnapshot lower) (candidate : RankedSubject lower) :
    List (RankedSubject lower) :=
  (candidates localeCompare s snapshot).filter (fun other =>
    identityName lower (fun character : RankedSubject lower => character.key.toCharacterKey)
        (recordedIds localeCompare s snapshot) other =
      identityName lower (fun character : RankedSubject lower => character.key.toCharacterKey)
        (recordedIds localeCompare s snapshot) candidate)

theorem mem_rowMembers {other : RankedSubject lower}
    (h : candidate ∈ candidates localeCompare s snapshot) :
    other ∈ rowMembers localeCompare s snapshot candidate ↔
      other ∈ candidates localeCompare s snapshot ∧
        SameRow s.discovery candidate.key other.key := by
  unfold rowMembers
  rw [mem_filter, decide_eq_true_eq]
  constructor
  · rintro ⟨hin, hname⟩
    exact ⟨hin, (identityName_eq_iff h hin).mp hname⟩
  · rintro ⟨hin, hrow⟩
    exact ⟨hin, (identityName_eq_iff h hin).mpr hrow⟩

variable {identity : SharedIdentityGroup (RankedSubject lower)}

theorem mem_identities :
    identity ∈ identities localeCompare s snapshot ↔
      ∃ candidate ∈ candidates localeCompare s snapshot,
        choosePrimary s snapshot (rowMembers localeCompare s snapshot candidate) =
            some identity.primary ∧
          identity.aliases = (rowMembers localeCompare s snapshot candidate).filter
            (fun member => member ≠ identity.primary) := by
  unfold identities groupBySharedWarcraftLogsId
  rw [mem_filterMap]
  constructor
  · rintro ⟨all, hall, hidentity⟩
    obtain ⟨primary, hprimary, rfl⟩ := Option.map_eq_some_iff.mp hidentity
    obtain ⟨entry, hentry, rfl⟩ := mem_map.mp hall
    obtain ⟨hbucket, hne⟩ := (KeyedBuckets.mem_entries_bucketsBy _).mp hentry
    obtain ⟨candidate, hcandidate⟩ := exists_mem_of_ne_nil _ hne
    rw [hbucket, mem_filter, decide_eq_true_eq] at hcandidate
    have hmembers : entry.2 = rowMembers localeCompare s snapshot candidate := by
      unfold rowMembers
      rw [hcandidate.2, hbucket]
    refine ⟨candidate, hcandidate.1, ?_, ?_⟩
    · rw [← hmembers]
      exact hprimary
    · rw [← hmembers]
  · rintro ⟨candidate, hcandidate, hprimary, haliases⟩
    refine ⟨rowMembers localeCompare s snapshot candidate, ?_, ?_⟩
    · rw [OrderedMap.mem_values_iff]
      have hne : rowMembers localeCompare s snapshot candidate ≠ [] :=
        ne_nil_of_mem ((mem_rowMembers hcandidate).mpr ⟨hcandidate, .inl rfl⟩)
      refine ⟨identityName lower
        (fun character : RankedSubject lower => character.key.toCharacterKey)
        (recordedIds localeCompare s snapshot) candidate, ?_⟩
      rw [KeyedBuckets.get?_bucketsBy]
      exact if_neg hne
    · rw [hprimary, Option.map_some, ← haliases]

/-- A row stands for every name on it. -/
theorem mem_names_rowOf (h : candidate ∈ candidates localeCompare s snapshot)
    (hprimary : choosePrimary s snapshot (rowMembers localeCompare s snapshot candidate) =
      some identity.primary)
    (haliases : identity.aliases = (rowMembers localeCompare s snapshot candidate).filter
      (fun member => member ≠ identity.primary)) :
    key ∈ (rowOf identity).names ↔
      ∃ member ∈ rowMembers localeCompare s snapshot candidate, member.key = key := by
  have hmembers : ∀ member, member ∈ rowMembers localeCompare s snapshot candidate ↔
      member = identity.primary ∨ member ∈ identity.aliases := by
    intro member
    rw [haliases, mem_filter, decide_eq_true_eq]
    by_cases hmember : member = identity.primary
    · rw [hmember]
      simp [choosePrimary_mem hprimary]
    · simp [hmember]
  have hplain := plain_candidate ((mem_rowMembers h).mp (choosePrimary_mem hprimary)).1
  simp only [hmembers, exists_eq_or_imp]
  unfold RankedSubject.names rowOf
  cases identity.aliases with
  | nil => simp [hplain, eq_comm]
  | cons first rest => simp [eq_comm]

theorem excludes_iff
    (hprimary : choosePrimary s snapshot (rowMembers localeCompare s snapshot candidate) =
      some identity.primary)
    (haliases : identity.aliases = (rowMembers localeCompare s snapshot candidate).filter
      (fun member => member ≠ identity.primary)) :
    excludes s snapshot identity = true ↔
      (¬ ∃ member ∈ rowMembers localeCompare s snapshot candidate,
          member.key = snapshot.rootKey) ∧
        ∃ member ∈ rowMembers localeCompare s snapshot candidate,
          Hidden s snapshot.rootKey member.key := by
  unfold excludes
  rw [Bool.and_eq_true, Bool.not_eq_true', ← Bool.not_eq_true, isRoot_choosePrimary hprimary,
    any_eq_true]
  simp only [isExcluded_iff]
  apply and_congr_right
  intro _
  constructor
  · rintro ⟨member, hin, hhidden⟩
    rcases mem_cons.mp hin with rfl | hin
    · exact ⟨_, choosePrimary_mem hprimary, hhidden⟩
    · rw [haliases] at hin
      exact ⟨member, (mem_filter.mp hin).1, hhidden⟩
  · rintro ⟨member, hin, hhidden⟩
    refine ⟨member, ?_, hhidden⟩
    by_cases hmember : member = identity.primary
    · rw [hmember]
      exact mem_cons_self
    · apply mem_cons_of_mem
      rw [haliases, mem_filter, decide_eq_true_eq]
      exact ⟨hin, hmember⟩

/-- A character is listed as excluded when the dossier lists it on a row that holds a hidden
name and not the root. -/
def Listed (s : Dossiers lower) (snapshot : StoredSnapshot lower) (key : LookupKey lower) :
    Prop :=
  key ∈ shownKeys s snapshot ∧
    ¬ (snapshot.rootKey ∈ shownKeys s snapshot ∧
        SameRow s.discovery key snapshot.rootKey) ∧
      ∃ name ∈ shownKeys s snapshot,
        SameRow s.discovery key name ∧ Hidden s snapshot.rootKey name

theorem exists_member (h : candidate ∈ candidates localeCompare s snapshot) :
    (∃ member ∈ rowMembers localeCompare s snapshot candidate, member.key = key) ↔
      key ∈ shownKeys s snapshot ∧ SameRow s.discovery candidate.key key := by
  rw [← @exists_candidate lower localeCompare s snapshot]
  simp only [mem_rowMembers h]
  constructor
  · rintro ⟨member, ⟨hin, hrow⟩, rfl⟩
    exact ⟨⟨member, hin, rfl⟩, hrow⟩
  · rintro ⟨⟨member, hin, rfl⟩, hrow⟩
    exact ⟨member, ⟨hin, hrow⟩, rfl⟩

theorem exists_hidden_member (h : candidate ∈ candidates localeCompare s snapshot) :
    (∃ member ∈ rowMembers localeCompare s snapshot candidate,
        Hidden s snapshot.rootKey member.key) ↔
      ∃ name ∈ shownKeys s snapshot,
        SameRow s.discovery candidate.key name ∧ Hidden s snapshot.rootKey name := by
  constructor
  · rintro ⟨member, hin, hhidden⟩
    obtain ⟨hshown, hrow⟩ := (exists_member h).mp ⟨member, hin, rfl⟩
    exact ⟨member.key, hshown, hrow, hhidden⟩
  · rintro ⟨name, hshown, hrow, hhidden⟩
    obtain ⟨member, hin, rfl⟩ := (exists_member h).mpr ⟨hshown, hrow⟩
    exact ⟨member, hin, hhidden⟩

theorem listsExcluded_iff (localeCompare : String → String → Ordering) (s : Dossiers lower)
    (root key : LookupKey lower) (ceiling : ℕ) :
    listsExcluded (legacyResolveSubjects localeCompare s root ceiling) key = true ↔
      ∃ snapshot, dossierSnapshot s.discovery root = some snapshot ∧ Listed s snapshot key := by
  unfold listsExcluded legacyResolveSubjects
  cases hsnapshot : dossierSnapshot s.discovery root with
  | none => simp
  | some snapshot =>
    simp only [Option.map_some, Option.any_some, any_eq_true, mem_sortBy, mem_map,
      mem_filter, decide_eq_true_eq, Option.some.injEq, exists_eq_left']
    constructor
    · rintro ⟨row, ⟨identity, ⟨hidentity, hexcludes⟩, rfl⟩, hname⟩
      obtain ⟨candidate, hcandidate, hprimary, haliases⟩ := mem_identities.mp hidentity
      rw [mem_names_rowOf hcandidate hprimary haliases, exists_member hcandidate] at hname
      rw [excludes_iff hprimary haliases, exists_member hcandidate,
        exists_hidden_member hcandidate] at hexcludes
      obtain ⟨hshown, hrow⟩ := hname
      obtain ⟨hroot, name, hin, hsame, hhidden⟩ := hexcludes
      refine ⟨hshown, ?_, name, hin, hrow.symm.trans hsame, hhidden⟩
      rintro ⟨hin', hsame'⟩
      exact hroot ⟨hin', hrow.trans hsame'⟩
    · rintro ⟨hshown, hroot, hhidden⟩
      obtain ⟨candidate, hcandidate, rfl⟩ :=
        (@exists_candidate lower localeCompare s snapshot key).mpr hshown
      have hself := (mem_rowMembers hcandidate).mpr ⟨hcandidate, .inl rfl⟩
      obtain ⟨primary, hprimary⟩ := @exists_choosePrimary lower s snapshot _ _ hself
      have hidentity := mem_identities.mpr ⟨candidate, hcandidate,
        (show _ = some (SharedIdentityGroup.mk primary ((rowMembers localeCompare s snapshot
          candidate).filter (fun member => member ≠ primary))).primary from hprimary), rfl⟩
      refine ⟨_, ⟨_, ⟨hidentity, ?_⟩, rfl⟩, ?_⟩
      · rw [excludes_iff hprimary rfl, exists_member hcandidate,
          exists_hidden_member hcandidate]
        exact ⟨hroot, hhidden⟩
      · rw [mem_names_rowOf hcandidate hprimary rfl]
        exact ⟨candidate, hself, rfl⟩

end SlashWho.DossierSubjects
