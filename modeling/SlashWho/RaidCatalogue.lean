import SlashWho.ComparatorSort
import SlashWho.KeyedBuckets

/-!
The reviewed raid catalogue: its tables, the encounters it lists, and the
lookups that place a raid name, a boss name or a journal id. The generated
catalogues are data, read here as the JSON files hold them. Unicode
normalisation, letter case, date reading and the collation of names are the
runtime's own.
-/

namespace SlashWho.RaidCatalogue

open ComparatorSort KeyedBuckets

/-- What the language itself supplies; `utcDate` is the day an instant falls on. -/
structure Runtime where
  nfkd : String → String
  isLetterOrNumber : Char → Bool
  lower : String → String
  upper : String → String
  localeCompare : String → String → Ordering
  parseDate : String → Option ℤ
  utcDate : ℤ → String

structure JournalEncounter where
  journalBossId : String
  bossName : String
  bossOrder : ℕ
  imageUrl : Option String

structure JournalRaid where
  journalRaidId : String
  raidName : String
  imageUrl : Option String
  encounters : List JournalEncounter

structure ScheduledWindow where
  startsAt : String
  endsAt : Option String

/-- The generated files: the raids and dungeons of the Journal, and the
schedule's windows by Raider.IO raid slug. -/
structure Generated where
  raids : List JournalRaid
  dungeons : List String
  windows : List (String × ScheduledWindow)

structure RaidCatalogueEncounter where
  raidId : String
  raidName : String
  bossId : String
  bossName : String
  bossOrder : ℕ
  isFinalBoss : Bool
  raiderIoBossSlug : Option String
  imageUrl : Option String
  deriving DecidableEq

structure RaidCatalogueRaid where
  raidId : String
  raidName : String
  imageUrl : Option String
  tierOrdinal : ℕ
  raiderIoRaidSlug : Option String
  deriving DecidableEq

def raiderIoRaidSlugs : List (String × String) :=
  [("768", "the-emerald-nightmare"), ("786", "the-nighthold"), ("861", "trial-of-valor"),
    ("875", "tomb-of-sargeras"), ("946", "antorus-the-burning-throne"), ("1031", "uldir"),
    ("1176", "battle-of-dazaralor"), ("1177", "crucible-of-storms"),
    ("1179", "the-eternal-palace"), ("1180", "nyalotha-the-waking-city"),
    ("1190", "castle-nathria"), ("1193", "sanctum-of-domination"),
    ("1195", "sepulcher-of-the-first-ones"), ("1200", "vault-of-the-incarnates"),
    ("1207", "amirdrassil-the-dreams-hope"), ("1208", "aberrus-the-shadowed-crucible"),
    ("1273", "nerubar-palace"), ("1296", "liberation-of-undermine"),
    ("1302", "manaforge-omega"), ("1305", "sporefall"),
    -- Raider.IO combines the three opening Midnight raids into one tier.
    ("1307", "tier-mn-1"), ("1308", "tier-mn-1"), ("1314", "tier-mn-1"),
    ("1317", "the-tidebound-grotto"), ("1320", "the-venomous-abyss")]

def preLegionContentWindows : List (String × ScheduledWindow) :=
  [("369", ⟨"2013-09-10T00:00:00.000Z", some "2014-12-02T00:00:00.000Z"⟩),
    ("477", ⟨"2014-12-02T00:00:00.000Z", some "2015-02-03T00:00:00.000Z"⟩),
    ("457", ⟨"2015-02-03T00:00:00.000Z", some "2015-06-23T00:00:00.000Z"⟩),
    ("669", ⟨"2015-06-23T00:00:00.000Z", some "2016-09-20T07:00:00.000Z"⟩)]

def reviewedContentWindows : List (String × ScheduledWindow) :=
  [("1273", ⟨"2024-09-17T00:00:00.000Z", some "2025-03-04T00:00:00.000Z"⟩),
    ("1296", ⟨"2025-03-04T00:00:00.000Z", some "2025-08-12T00:00:00.000Z"⟩),
    ("1302", ⟨"2025-08-12T00:00:00.000Z", some "2026-03-17T00:00:00.000Z"⟩),
    ("1305", ⟨"2026-05-20T00:00:00.000Z", none⟩), ("1307", ⟨"2026-03-24T00:00:00.000Z", none⟩),
    ("1308", ⟨"2026-03-31T00:00:00.000Z", none⟩), ("1314", ⟨"2026-03-24T00:00:00.000Z", none⟩),
    ("1317", ⟨"2026-08-19T00:00:00.000Z", none⟩), ("1320", ⟨"2026-08-01T00:00:00.000Z", none⟩)]

def canonicalTierOrdinals : List (String × ℕ) :=
  [("369", 0), ("477", 1), ("457", 2), ("669", 3), ("768", 4), ("786", 5), ("861", 6),
    ("875", 7), ("946", 8), ("1031", 9), ("1176", 10), ("1177", 11), ("1179", 12),
    ("1180", 13), ("1190", 14), ("1193", 15), ("1195", 16), ("1200", 17), ("1208", 18),
    ("1207", 19), ("1273", 20), ("1296", 21), ("1302", 22), ("1305", 23), ("1307", 24),
    ("1308", 25), ("1314", 26), ("1317", 27), ("1320", 28)]

def raiderIoBossSlugOverrides : List (String × String) :=
  [("1738", "ilgynoth-the-heart-of-corruption"),
    -- Raider.IO ranks the two faction versions of Grong as one boss.
    ("2325", "grong"), ("2340", "grong"), ("2332", "uunat-harbinger-of-the-void"),
    ("2349", "zaqul"), ("2447", "fatescribe-rohkalo"), ("2459", "dausegne"),
    ("2461", "lihuvim"), ("2463", "halondrus"), ("2465", "skolex"),
    ("2499", "raszageth-the-stormeater"), ("2599", "sikran"), ("2644", "onearmed-bandit"),
    ("2691", "dimensius"), ("2736", "fallenking-salhadaar")]

def warcraftLogsBossAliases : List (String × List String) :=
  [("2025", ["The Defense of Eonar"]), ("2334", ["Mekkatorque"]), ("2368", ["Wrathion"]),
    ("2369", ["Prophet Skitra"]), ("2644", ["One-Armed Bandit"])]

def tierBoundaryToleranceMs : ℤ := 7 * 24 * 60 * 60000

variable (rt : Runtime)

def normalizedName (value : String) : String :=
  rt.lower (String.ofList ((rt.nfkd value).toList.filter rt.isLetterOrNumber))

def combinedMidnightZone : String := normalizedName rt "VS / DR / MQD"

/-- Every run of dropped characters becomes one dash. -/
def dashRuns (keep : Char → Bool) : Bool → List Char → List Char
  | _, [] => []
  | inRun, c :: rest =>
    if keep c then c :: dashRuns keep false rest
    else if inRun then dashRuns keep true rest
    else '-' :: dashRuns keep true rest

def trimDashes (cs : List Char) : List Char :=
  (((cs.dropWhile (· = '-')).reverse).dropWhile (· = '-')).reverse

def isCombiningMark (c : Char) : Bool := 0x300 ≤ c.toNat && c.toNat ≤ 0x36f

def isApostrophe (c : Char) : Bool := c.toNat = 0x2019 || c.toNat = 0x27

def raiderIoBossSlug (bossName : String) : String :=
  let letters := ((rt.nfkd bossName).toList.filter (fun c => !isCombiningMark c)).filter
    (fun c => !isApostrophe c)
  rt.lower (String.ofList (trimDashes (dashRuns rt.isLetterOrNumber false letters)))

variable (generated : Generated)

/-- A raid's encounters whose name an earlier one has, with the one that stands for both. -/
def copiesAfter (first : List (String × String)) : List JournalEncounter → List (String × String)
  | [] => []
  | encounter :: rest =>
    let key := normalizedName rt encounter.bossName
    match first.lookup key with
    | none => copiesAfter ((key, encounter.journalBossId) :: first) rest
    | some original => (encounter.journalBossId, original) :: copiesAfter first rest

def byBossOrder : JournalEncounter → JournalEncounter → Ordering :=
  readBy JournalEncounter.bossOrder compare

def factionCopies : OrderedMap String String :=
  .ofList (generated.raids.flatMap (fun raid =>
    copiesAfter rt [] (sortBy byBossOrder raid.encounters)))

variable (raid : JournalRaid)

def isFinalBoss (encounter : JournalEncounter) : Bool :=
  raid.encounters.all (fun other => other.bossOrder ≤ encounter.bossOrder)

def encounterOf (encounter : JournalEncounter) : RaidCatalogueEncounter where
  raidId := raid.journalRaidId
  raidName := raid.raidName
  bossId := encounter.journalBossId
  bossName := encounter.bossName
  bossOrder := encounter.bossOrder
  isFinalBoss := isFinalBoss raid encounter
  raiderIoBossSlug := raiderIoBossSlugOverrides.lookup encounter.journalBossId
  imageUrl := encounter.imageUrl

/-- What a raid lists, without the factions' copies. -/
def encountersOf : List RaidCatalogueEncounter :=
  (raid.encounters.filter (fun encounter =>
    !(factionCopies rt generated).has encounter.journalBossId)).map (encounterOf raid)

def encounters : OrderedMap String RaidCatalogueEncounter :=
  .ofList ((generated.raids.flatMap (encountersOf rt generated)).map (fun e => (e.bossId, e)))

def bossNamesOf (encounter : RaidCatalogueEncounter) : List String :=
  encounter.bossName :: (warcraftLogsBossAliases.lookup encounter.bossId).getD []

def namedEncounters : List (String × RaidCatalogueEncounter) :=
  (encounters rt generated).values.flatMap (fun encounter =>
    (bossNamesOf encounter).map (fun bossName => (bossName, encounter)))

def raidBossKey (named : String × RaidCatalogueEncounter) : String × String :=
  (normalizedName rt named.2.raidName, normalizedName rt named.1)

def bossKey (named : String × RaidCatalogueEncounter) : String := normalizedName rt named.1

def encountersByName : OrderedMap (String × String) (Option (String × RaidCatalogueEncounter)) :=
  uniqueBy (raidBossKey rt) (namedEncounters rt generated)

def encountersByBossName : OrderedMap String (Option (String × RaidCatalogueEncounter)) :=
  uniqueBy (bossKey rt) (namedEncounters rt generated)

def tierOrdinalAt (position : ℕ) : ℕ :=
  (canonicalTierOrdinals.lookup raid.journalRaidId).getD position

def raidAt (entry : JournalRaid × ℕ) : RaidCatalogueRaid where
  raidId := entry.1.journalRaidId
  raidName := entry.1.raidName
  imageUrl := entry.1.imageUrl
  tierOrdinal := tierOrdinalAt entry.1 entry.2
  raiderIoRaidSlug := raiderIoRaidSlugs.lookup entry.1.journalRaidId

def catalogueRaids : List RaidCatalogueRaid := generated.raids.zipIdx.map raidAt

def raidsByName : OrderedMap String (Option RaidCatalogueRaid) :=
  uniqueBy (fun raid => normalizedName rt raid.raidName) (catalogueRaids generated)

def isCataloguedRaidName (raidName : String) : Bool :=
  (raidsByName rt generated).has (normalizedName rt raidName)

def lookupRaidByName (raidName : String) : Option RaidCatalogueRaid :=
  uniqueItem (raidsByName rt generated) (normalizedName rt raidName)

/-- A faction copy resolves to the one boss that stands for both. -/
def lookupJournalEncounter (journalBossId : String) : Option RaidCatalogueEncounter :=
  (encounters rt generated).get?
    (((factionCopies rt generated).get? journalBossId).getD journalBossId)

def lookupRaidBossByName (raidName bossName : String) : Option RaidCatalogueEncounter :=
  (uniqueItem (encountersByName rt generated)
    (normalizedName rt raidName, normalizedName rt bossName)).map Prod.snd

def lookupUniqueRaidBossByName (bossName : String) : Option RaidCatalogueEncounter :=
  (uniqueItem (encountersByBossName rt generated) (normalizedName rt bossName)).map Prod.snd

/-- A shortened name, usable only where it begins one encounter of the raid. -/
def lookupRaidBossByLegacyName (raidId bossName : String) : Option RaidCatalogueEncounter :=
  let key := normalizedName rt bossName
  if key.toList = [] then none
  else
    match (encounters rt generated).values.filter (fun encounter =>
      encounter.raidId = raidId &&
        key.toList.isPrefixOf (normalizedName rt encounter.bossName).toList) with
    | [encounter] => some encounter
    | _ => none

def generatedContentWindow (raidId : String) : Option ScheduledWindow :=
  (raiderIoRaidSlugs.lookup raidId).bind (fun slug => generated.windows.lookup slug)

/-- The later of two dates; a date that cannot be read is never later. -/
def laterDate (latest endsAt : String) : String :=
  match rt.parseDate endsAt, rt.parseDate latest with
  | some a, some b => if b < a then endsAt else latest
  | _, _ => latest

def earlierStart (reviewed generated : String) : String :=
  match rt.parseDate reviewed, rt.parseDate generated with
  | some a, some b => if a ≤ b then reviewed else generated
  | _, _ => generated

/-- The earliest known opening and the latest known close of the two. -/
def widestContentWindow (reviewed : Option ScheduledWindow) (window : ScheduledWindow) :
    ScheduledWindow :=
  match reviewed with
  | none => window
  | some reviewed =>
    { startsAt := earlierStart rt reviewed.startsAt window.startsAt
      endsAt :=
        match reviewed.endsAt, window.endsAt with
        | none, endsAt => endsAt
        | some endsAt, none => some endsAt
        | some a, some b => some (laterDate rt a b) }

def resolveContentWindow (raidId : String) : Option ScheduledWindow :=
  match generatedContentWindow generated raidId with
  | some window => some (widestContentWindow rt (reviewedContentWindows.lookup raidId) window)
  | none => (preLegionContentWindows.lookup raidId).or (reviewedContentWindows.lookup raidId)

/-- Whether a kill falls inside its raid's window, where both can be read. -/
def currentContentEligibilityByRaidId (killedAt raidId : String) : Option Bool :=
  match resolveContentWindow rt generated raidId, rt.parseDate killedAt with
  | some window, some at_ =>
    some ((match rt.parseDate window.startsAt with
      | some startsAt => decide (startsAt ≤ at_)
      | none => false) &&
      (match window.endsAt with
      | none => true
      | some endsAt =>
        match rt.parseDate endsAt with
        | some endsAt => decide (at_ < endsAt)
        | none => false))
  | _, _ => none

structure ScheduledRaid where
  raidName : String
  window : ScheduledWindow

def scheduledRaids : List ScheduledRaid :=
  generated.raids.filterMap (fun raid =>
    ((generatedContentWindow generated raid.journalRaidId).or
      (preLegionContentWindows.lookup raid.journalRaidId)).map (fun window =>
        ⟨raid.raidName, window⟩))

/-- By opening, then by name; an opening that cannot be read leaves it to the name. -/
def byOpening (a b : ScheduledRaid) : Ordering :=
  match rt.parseDate a.window.startsAt, rt.parseDate b.window.startsAt with
  | some at_, some bt => (compare at_ bt).then (rt.localeCompare a.raidName b.raidName)
  | _, _ => rt.localeCompare a.raidName b.raidName

structure Tier where
  raidNames : List String
  startsAt : String
  endsAt : Option String

def opensWithin (tier : Tier) (startsAt : String) : Bool :=
  match tier.endsAt with
  | none => true
  | some endsAt =>
    match rt.parseDate startsAt, rt.parseDate endsAt with
    | some startsAt, some endsAt => decide (startsAt < endsAt - tierBoundaryToleranceMs)
    | _, _ => false

/-- The tiers so far with the newest first, and the next raid by opening. -/
def addToTiers (tiers : List Tier) (raid : ScheduledRaid) : List Tier :=
  match tiers with
  | current :: before =>
    if opensWithin rt current raid.window.startsAt then
      { current with raidNames := current.raidNames ++ [raid.raidName] } :: before
    else ⟨[raid.raidName], raid.window.startsAt, raid.window.endsAt⟩ :: current :: before
  | [] => [⟨[raid.raidName], raid.window.startsAt, raid.window.endsAt⟩]

def raidTiers : List Tier :=
  ((sortBy (byOpening rt) (scheduledRaids generated)).foldl (addToTiers rt) []).reverse

def tierIndexByRaidName : OrderedMap String ℕ :=
  .ofList ((raidTiers rt generated).zipIdx.flatMap (fun tier =>
    tier.1.raidNames.map (fun name => (normalizedName rt name, tier.2))))

/-- White space and line terminators. -/
def isSpace (c : Char) : Bool :=
  (9 ≤ c.toNat && c.toNat ≤ 13) || c.toNat = 0x20 || c.toNat = 0xa0 || c.toNat = 0x1680 ||
    (0x2000 ≤ c.toNat && c.toNat ≤ 0x200a) || c.toNat = 0x2028 || c.toNat = 0x2029 ||
    c.toNat = 0x202f || c.toNat = 0x205f || c.toNat = 0x3000 || c.toNat = 0xfeff

def trimChars (cs : List Char) : List Char :=
  (((cs.dropWhile isSpace).reverse).dropWhile isSpace).reverse

def isWordChar (c : Char) : Bool := c.isAlphanum || c = '_'

def dropWord (word : String) (cs : List Char) : Option (List Char) :=
  if word.toList.isPrefixOf cs then some (cs.drop word.toList.length) else none

def dropSpaces : List Char → Option (List Char)
  | [] => none
  | c :: rest => if isSpace c then some (rest.dropWhile isSpace) else none

def atWordEnd : List Char → Bool
  | [] => true
  | c :: _ => !isWordChar c

/-- Two words with space between them, the second perhaps in the plural. -/
def startsWithWords (first second : String) (cs : List Char) : Bool :=
  ((dropWord first cs).bind (fun rest => (dropSpaces rest).bind (dropWord second))).any
    (fun rest => atWordEnd rest || (dropWord "s" rest).any atWordEnd)

/-- Warcraft Logs' own groupings of dungeon runs, in either letter case. -/
def isNonRaidWclZoneLabel (zoneName : String) : Bool :=
  let cs := (trimChars zoneName.toList).map Char.toLower
  startsWithWords "mythic+" "season" cs || startsWithWords "challenge" "mode" cs ||
    ["normal", "heroic", "mythic"].any (fun difficulty =>
      ((dropWord difficulty cs).bind (fun rest =>
        (dropSpaces rest).bind (dropWord "dungeons"))).any atWordEnd)

/-- A boss the named raid does not hold, placed by its unique name in a raid of the same tier. -/
def lookupSiblingRaidBossByName (raidName bossName : String) : Option RaidCatalogueEncounter :=
  match lookupRaidByName rt generated raidName, lookupUniqueRaidBossByName rt generated bossName with
  | some raid, some encounter =>
    if encounter.raidId = raid.raidId then none
    else
      match (tierIndexByRaidName rt generated).get? (normalizedName rt raid.raidName) with
      | some tier =>
        if (tierIndexByRaidName rt generated).get? (normalizedName rt encounter.raidName) =
            some tier then
          some encounter
        else none
      | none => none
  | _, _ => none

def lookupRaidEncounterForEvidence (raidName bossName : String) (journalBossId : Option String) :
    Option RaidCatalogueEncounter :=
  let journalEncounter := journalBossId.bind (lookupJournalEncounter rt generated)
  match lookupRaidByName rt generated raidName with
  | none => journalEncounter.or (lookupUniqueRaidBossByName rt generated bossName)
  | some raid =>
    (lookupRaidBossByName rt generated raidName bossName).or <|
      (journalEncounter.filter (fun encounter => encounter.raidId = raid.raidId)).or <|
        (lookupRaidBossByLegacyName rt generated raid.raidId bossName).or <|
          lookupSiblingRaidBossByName rt generated raidName bossName

def isKnownDungeonZone (zoneName : String) : Bool :=
  (generated.dungeons.filter (fun dungeon => !isCataloguedRaidName rt generated dungeon)).any
    (fun dungeon => normalizedName rt dungeon = normalizedName rt zoneName)

def isNonRaidZone (zoneName : String) : Bool :=
  isNonRaidWclZoneLabel zoneName || isKnownDungeonZone rt generated zoneName

structure RaiderIoBoss where
  raidSlug : String
  bossSlug : String
  deriving DecidableEq

/-- The boss a named raid's rank is asked about, by Raider.IO's slugs. -/
def raiderIoBossOfRaid (raidName bossName : String) : Option RaiderIoBoss := do
  let raid ← lookupRaidByName rt generated raidName
  let raidSlug ← raid.raiderIoRaidSlug
  let encounter := (lookupRaidBossByName rt generated raidName bossName).or
    (lookupRaidBossByLegacyName rt generated raid.raidId bossName)
  let bossSlug := (encounter.bind RaidCatalogueEncounter.raiderIoBossSlug).getD
    (raiderIoBossSlug rt ((encounter.map RaidCatalogueEncounter.bossName).getD bossName))
  if bossSlug = "" then none else some ⟨raidSlug, bossSlug⟩

/-- A boss of the combined zone is asked about under its own raid, which has
another name, so the lookup turns to it once. -/
def lookupRaiderIoBoss (raidName bossName : String) : Option RaiderIoBoss :=
  if normalizedName rt raidName = combinedMidnightZone rt then
    match lookupUniqueRaidBossByName rt generated bossName with
    | some encounter =>
      if raiderIoRaidSlugs.lookup encounter.raidId = some "tier-mn-1" then
        raiderIoBossOfRaid rt generated encounter.raidName encounter.bossName
      else none
    | none => none
  else raiderIoBossOfRaid rt generated raidName bossName

/-- The slugs an encounter is filed under, where its raid has one. -/
def raiderIoSlugsOf (encounter : RaidCatalogueEncounter) : Option RaiderIoBoss :=
  (raiderIoRaidSlugs.lookup encounter.raidId).map (fun raidSlug =>
    ⟨raidSlug, encounter.raiderIoBossSlug.getD (raiderIoBossSlug rt encounter.bossName)⟩)

/-- The encounters of two slugs: one, or one raid's that all carry the slug by hand. -/
def lookupRaidEncounterByRaiderIoSlugs (slugs : RaiderIoBoss) : Option RaidCatalogueEncounter :=
  let bucket := sortBy (readBy RaidCatalogueEncounter.bossOrder compare)
    ((encounters rt generated).values.filter (fun e => raiderIoSlugsOf rt e = some slugs))
  match bucket with
  | [] => none
  | [only] => some only
  | first :: rest =>
    if (first :: rest).all (fun encounter =>
      encounter.raidId = first.raidId && encounter.raiderIoBossSlug = some slugs.bossSlug) then
      some first
    else none

structure SupportedRaidCatalogueEntry where
  raid : RaidCatalogueRaid
  encounters : List RaidCatalogueEncounter

/-- A raid by its own name, which is refused where two raids share one. -/
def supportedEntry (entry : JournalRaid × ℕ) : Option SupportedRaidCatalogueEntry :=
  (lookupRaidByName rt generated entry.1.raidName).map (fun metadata =>
    { raid := { metadata with tierOrdinal := tierOrdinalAt entry.1 entry.2 }
      encounters := sortBy (readBy RaidCatalogueEncounter.bossOrder compare)
        (entry.1.encounters.filterMap (fun encounter =>
          (encounters rt generated).get? encounter.journalBossId)) })

def supportedRaidCatalogue : Option (List SupportedRaidCatalogueEntry) :=
  (generated.raids.zipIdx.mapM (supportedEntry rt generated)).map
    (sortBy (readBy (fun entry => entry.raid.tierOrdinal) (descending compare)))

/-- A generated catalogue as it is reviewed: ids and names are not given twice,
no raid is called as the combined zone, and two encounters Raider.IO files
under the same slugs are one raid's with the slug given to both by hand. -/
structure Catalogue (rt : Runtime) extends Generated where
  nodup_raidIds : (raids.map JournalRaid.journalRaidId).Nodup
  nodup_bossIds : ((raids.flatMap JournalRaid.encounters).map
    JournalEncounter.journalBossId).Nodup
  nodup_raidNames : (raids.map (fun raid => normalizedName rt raid.raidName)).Nodup
  named_apart : ∀ raid ∈ raids, normalizedName rt raid.raidName ≠ combinedMidnightZone rt
  nodup_bossNames : ((namedEncounters rt toGenerated).map (raidBossKey rt)).Nodup
  ranked_once : ∀ e ∈ (encounters rt toGenerated).values,
    ∀ e' ∈ (encounters rt toGenerated).values, ∀ slugs, raiderIoSlugsOf rt e = some slugs →
      raiderIoSlugsOf rt e' = some slugs → e ≠ e' →
        e.raidId = e'.raidId ∧ e.raiderIoBossSlug = some slugs.bossSlug

end SlashWho.RaidCatalogue
