import Mathlib.Data.List.SplitBy
import SlashWho.ApplicantDossier
import SlashWho.CatalogueLookups

/-!
A dossier's guild history and the timeline drawn from it. Kills that name a guild
give its raid nights; a guild's visible nights are cut where a whole tier passes
between two of them, and each stretch is drawn as one span. A guild seen on a single
visible night is not shown, and a stretch of one night is where the guild has others.
Dates are ISO texts, compared unit by unit.
-/

namespace SlashWho.GuildHistory

open ComparatorSort Characters RaidCatalogue ApplicantDossier

structure DossierGuildRaidNight where
  date : String
  characters : List CharacterKey
  deriving DecidableEq

structure DossierGuildHistoryEntry where
  guild : CharacterGuild
  nights : List DossierGuildRaidNight
  deriving DecidableEq

structure GuildKill where
  character : CharacterKey
  killedAt : String
  guild : Option CharacterGuild

structure RaidTier where
  name : String
  startsOn : String

/-- What a map keeps of a guild while kills are read: its name as last seen, and its
nights by date. -/
structure GuildNotes where
  guild : CharacterGuild
  seenAt : String
  nights : OrderedMap String (OrderedMap CanonicalId CharacterKey)

structure GuildTimelineSpan where
  guild : CharacterGuild
  guildId : String
  firstNight : String
  lastNight : String
  nights : ℕ
  characters : List CharacterKey
  tiers : List String
  deriving DecidableEq

structure GuildTimelineOptions where
  tiers : List RaidTier
  isCharacterVisible : CharacterKey → Bool

variable (rt : Runtime)

def comparable (value : String) (ignored : Char → Bool) : String :=
  rt.lower (String.ofList ((rt.nfkd value).toList.filter (fun c => !ignored c)))

def realmIgnored (c : Char) : Bool := isSpace c || c = '\'' || c = '-'

def nameIgnored (c : Char) : Bool := isSpace c

def guildIdentity (guild : CharacterGuild) : String :=
  String.ofList ('[' :: jsonQuote guild.region.code ++
    ',' :: jsonQuote (comparable rt guild.realm realmIgnored) ++
    ',' :: jsonQuote (comparable rt guild.name nameIgnored) ++ [']'])

def byCharacter : CharacterKey → CharacterKey → Ordering := readBy (idText rt) text

/-! ### The raid nights of each guild -/

/-- The day of an ISO time. -/
def dayOf (killedAt : String) : String := String.ofList (killedAt.toList.take 10)

/-- A guild is named as on its latest kill. -/
def GuildNotes.rename (notes : GuildNotes) (guild : CharacterGuild) (killedAt : String) :
    GuildNotes :=
  if text killedAt notes.seenAt = .gt then { notes with guild := guild, seenAt := killedAt }
  else notes

def GuildNotes.attend (notes : GuildNotes) (character : CharacterKey) (killedAt : String) :
    GuildNotes :=
  let night := (notes.nights.get? (dayOf killedAt)).getD OrderedMap.empty
  { notes with
    nights := notes.nights.set (dayOf killedAt)
      (night.set (canonicalCharacterId rt.lower character) character) }

def noteKill (guilds : OrderedMap String GuildNotes) (kill : GuildKill) :
    OrderedMap String GuildNotes :=
  match kill.guild with
  | none => guilds
  | some guild =>
    let notes := (guilds.get? (guildIdentity rt guild)).getD ⟨guild, kill.killedAt, OrderedMap.empty⟩
    guilds.set (guildIdentity rt guild)
      ((notes.rename guild kill.killedAt).attend rt kill.character kill.killedAt)

def GuildNotes.entry (notes : GuildNotes) : DossierGuildHistoryEntry where
  guild := notes.guild
  nights := (sortBy (readBy Prod.fst text) notes.nights.entries).map
    (fun night => ⟨night.1, sortBy (byCharacter rt) night.2.values⟩)

/-- A guild's first night; a guild that is noted has one. -/
def firstDate (entry : DossierGuildHistoryEntry) : String :=
  (entry.nights.map DossierGuildRaidNight.date).headD ""

def collectGuildRaidNights (kills : List GuildKill) : List DossierGuildHistoryEntry :=
  sortBy (compareLex (readBy firstDate text)
      (readBy (fun entry => entry.guild.name) rt.localeCompare))
    ((kills.foldl (noteKill rt) OrderedMap.empty).values.map (GuildNotes.entry rt))

/-! ### The spans of a timeline -/

/-- A guild seen on a single night is a pug or a favour, not a membership. -/
def minimumGuildNights : ℕ := 2

variable (tiers : List RaidTier)

/-- The last tier that starts by the date, or -1 before the first. -/
def tierIndex (date : String) : ℤ :=
  ((tiers.takeWhile (fun tier => text tier.startsOn date ≠ .gt)).length : ℤ) - 1

/-- The stretch being drawn. -/
structure Stretch where
  firstNight : String
  lastNight : String
  nights : ℕ
  tier : ℤ
  characters : OrderedMap CanonicalId CharacterKey
  tiers : List ℤ

def Stretch.begin (night : DossierGuildRaidNight) : Stretch where
  firstNight := night.date
  lastNight := night.date
  nights := 0
  tier := tierIndex tiers night.date
  characters := OrderedMap.empty
  tiers := []

def Stretch.join (stretch : Stretch) (night : DossierGuildRaidNight) :
    Stretch where
  firstNight := stretch.firstNight
  lastNight := night.date
  nights := stretch.nights + 1
  tier := tierIndex tiers night.date
  characters := stretch.characters.setAll
    (night.characters.map (fun key => (canonicalCharacterId rt.lower key, key)))
  tiers :=
    if tierIndex tiers night.date ∈ stretch.tiers then stretch.tiers
    else stretch.tiers ++ [tierIndex tiers night.date]

def Stretch.close (guild : CharacterGuild) (stretch : Stretch) :
    GuildTimelineSpan where
  guild := guild
  guildId := guildIdentity rt guild
  firstNight := stretch.firstNight
  lastNight := stretch.lastNight
  nights := stretch.nights
  characters := sortBy (byCharacter rt) stretch.characters.values
  tiers := (sortBy compare (stretch.tiers.filter (0 ≤ ·))).filterMap
    (fun index => (tiers[index.toNat]?).map RaidTier.name)

/-- A night joins the stretch before it, unless a whole tier passed in between. -/
def walkNight (guild : CharacterGuild) (acc : List GuildTimelineSpan × Option Stretch)
    (night : DossierGuildRaidNight) :
    List GuildTimelineSpan × Option Stretch :=
  match acc.2 with
  | none => (acc.1, some ((Stretch.begin tiers night).join rt tiers night))
  | some current =>
    if tierIndex tiers night.date > current.tier + 1 then
      (acc.1 ++ [current.close rt tiers guild], some ((Stretch.begin tiers night).join rt tiers night))
    else (acc.1, some (current.join rt tiers night))

/-- The nights left once hidden characters are removed. -/
def visibleNights (options : GuildTimelineOptions) (entry : DossierGuildHistoryEntry) :
    List DossierGuildRaidNight :=
  entry.nights.filterMap (fun night =>
    let characters := night.characters.filter options.isCharacterVisible
    if characters = [] then none else some { night with characters := characters })

def entrySpans (options : GuildTimelineOptions) (entry : DossierGuildHistoryEntry) :
    List GuildTimelineSpan :=
  let nights := visibleNights options entry
  if nights.length < minimumGuildNights then []
  else
    let (spans, current) := nights.foldl (walkNight rt options.tiers entry.guild) ([], none)
    spans ++ (current.map (Stretch.close rt options.tiers entry.guild)).toList

def guildTimelineSpans (history : List DossierGuildHistoryEntry) (options : GuildTimelineOptions) :
    List GuildTimelineSpan :=
  sortBy (compareLex (readBy GuildTimelineSpan.firstNight text)
      (readBy (fun span => span.guild.name) rt.localeCompare))
    (history.flatMap (entrySpans rt options))

end SlashWho.GuildHistory
