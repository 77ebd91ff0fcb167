import SlashWho.HistoricKills
import SlashWho.LoggedEncounterSaves
import SlashWho.ReportDecoding

/-!
Whether a character was on the rosters of some kills. A roster that lists the character's own
Raider.IO id settles it; otherwise each member of the character's class whose name ends in an id is
looked up: in the answers stored, or by one of four workers that read it under a lease. A read rate
limited or unavailable stops them all. An aborted resolution gives no answer and is left out.
-/

namespace SlashWho.RosterPresence

open ComparatorSort LoggedEncounterSaves
open EvidenceMerge (Instant)
open HistoricKills (LimitationCode isSafeInteger)

/-! ### What is asked of a roster -/

/-- The text functions a roster is read with. -/
structure Texts where
  lower : String → String
  localeCompare : String → String → Ordering
  matchesNamePattern : String → Bool

structure RosterProfileLocator where
  region : String
  realm : String
  name : String
  historicId : ℕ
  deriving DecidableEq

/-- The rosters to ask about one character; no encounter is listed twice. -/
structure Subject where
  encounters : List LoggedEncounter
  distinct : (encounters.map LoggedEncounter.loggedEncounterId).Nodup
  subjectId : ℕ
  subjectClass : String

inductive Presence
  | present
  | absent
  | unknown
  deriving DecidableEq

structure Answer where
  presence : Presence
  code : Option LimitationCode

/-- A name with a separator and digits at its end. -/
def endsInId (name : String) : Bool :=
  let reversed := name.toList.reverse
  !(reversed.takeWhile Char.isDigit).isEmpty &&
    (reversed.dropWhile Char.isDigit).head? = some '-'

section Asked
variable (texts : Texts)

def isValidCharacterKey (region realm name : String) : Bool :=
  (ReportDecoding.supportedRegion region).isSome && Characters.isRealmSlug realm &&
    texts.matchesNamePattern name && realm = texts.lower realm && name = texts.lower name

/-- Only a canonical key with its exact historical id for a suffix. -/
def isValidRosterProfileLocator (locator : RosterProfileLocator) : Bool :=
  let suffix := ("-" ++ toString locator.historicId).toList
  isSafeInteger locator.historicId && 0 < locator.historicId &&
    suffix.isSuffixOf locator.name.toList &&
    isValidCharacterKey texts locator.region locator.realm
      (String.ofList (locator.name.toList.take (locator.name.toList.length - suffix.length)))

def locatorOf (member : Member) : RosterProfileLocator where
  region := member.region
  realm := member.realm
  name := texts.lower member.name
  historicId := member.raiderIoCharacterId

end Asked

namespace Subject
variable (texts : Texts) (input : Subject)

variable (encounter : LoggedEncounter)

def holds : Bool :=
  encounter.members.any (fun member => member.raiderIoCharacterId = input.subjectId)

/-- The members who may be the character under a former name. -/
def renamed : List Member :=
  encounter.members.filter (fun member =>
    member.className = input.subjectClass && endsInId member.name)

def keysOf : List RosterProfileLocator :=
  ((input.renamed encounter).map (locatorOf texts)).filter (isValidRosterProfileLocator texts)

def invalid : Bool :=
  (input.renamed encounter).any (fun member =>
    !isValidRosterProfileLocator texts (locatorOf texts member))

/-- The encounters whose roster does not list the character. -/
def targets : List LoggedEncounter := input.encounters.filter (fun e => !input.holds e)

def locators : List RosterProfileLocator := (input.targets.flatMap (input.keysOf texts)).eraseDups

end Subject

/-! ### Answers stored -/

def answerTtlMs : ℕ := 30 * 24 * 60 * 60 * 1000

structure StoredResolution where
  resolvedId : Option ℕ
  limitationCode : Option LimitationCode
  answeredAt : Option Instant
  lastAttemptAt : Option Instant
  retryNotBefore : Option Instant

abbrev Stored := RosterProfileLocator → Option StoredResolution

def StoredResolution.unexpired (row : StoredResolution) (now : Instant) : Bool :=
  match row.answeredAt with
  | some answeredAt => now < answeredAt + answerTtlMs
  | none => false

def StoredResolution.coolsDown (row : StoredResolution) (now : Instant) : Bool :=
  match row.retryNotBefore with
  | some retryNotBefore => now < retryNotBefore
  | none => false

def resolvedAnswer (subjectId resolvedId : ℕ) : Answer :=
  ⟨if resolvedId = subjectId then .present else .absent, none⟩

/-- What a stored row answers by itself. -/
def storedAnswer (subjectId : ℕ) (now : Instant) : Option StoredResolution → Option Answer
  | none => none
  | some row =>
    if row.unexpired now then
      some (match row.resolvedId with
        | some resolvedId => resolvedAnswer subjectId resolvedId
        | none => ⟨.unknown, some (row.limitationCode.getD .unavailable)⟩)
    -- a cooldown forbids another read, not the use of saved proof
    else if row.coolsDown now then some ⟨.unknown, some .rateLimited⟩
    else none

/-- Those never tried first, then the longest untried. -/
def beforeInQueue (texts : Texts) (stored : Stored) (a b : RosterProfileLocator) : Ordering :=
  let key := fun (l : RosterProfileLocator) =>
    String.intercalate "\x00" [l.region, l.realm, l.name, toString l.historicId]
  match (stored a).bind StoredResolution.lastAttemptAt,
    (stored b).bind StoredResolution.lastAttemptAt with
  | none, none => texts.localeCompare (key a) (key b)
  | none, some _ => .lt
  | some _, none => .gt
  | some x, some y => (compare x y).then (texts.localeCompare (key a) (key b))

/-- What the repository holds, and when it is asked. -/
structure Backing where
  stored : Stored
  now : Instant

section Queue
variable (texts : Texts) (input : Subject) (backing : Backing)

def heldAnswers (locator : RosterProfileLocator) : Option Answer :=
  if locator ∈ input.locators texts then
    storedAnswer input.subjectId backing.now (backing.stored locator)
  else none

def queue : List RosterProfileLocator :=
  sortBy (beforeInQueue texts backing.stored) ((input.locators texts).filter (fun locator =>
    (storedAnswer input.subjectId backing.now (backing.stored locator)).isNone))

end Queue

/-! ### Workers -/

def MAX_ROSTER_PROFILE_RESOLUTIONS : ℕ := 50

def ROSTER_PROFILE_RESOLUTION_CONCURRENCY : ℕ := 4

/-- What one read came to; one that throws counts as unavailable. -/
inductive Resolution
  | resolved (characterId : ℕ)
  | limitation (code : LimitationCode) (retryAfterMs : Option ℚ)

def Resolution.resolvedId : Resolution → Option ℕ
  | .resolved characterId =>
    if isSafeInteger characterId && 0 < characterId then some characterId else none
  | .limitation .. => none

def Resolution.code : Resolution → LimitationCode
  | .resolved _ => .schemaDrift
  | .limitation code _ => code

/-- The read says to ask nothing more. -/
def Resolution.stops (result : Resolution) : Bool :=
  result.resolvedId.isNone && (result.code = .rateLimited || result.code = .unavailable)

/-- What the workers share and where each of them is. The reads made, what they came to
and the answers saved are noted on the side. -/
structure Resolving where
  next : ℕ
  slots : ℕ
  stopped : Bool
  answers : RosterProfileLocator → Option Answer
  idle : ℕ
  reserving : List RosterProfileLocator
  reading : List RosterProfileLocator
  saving : List (RosterProfileLocator × Resolution)
  failed : Bool
  reads : List RosterProfileLocator
  results : List Resolution
  saved : List (RosterProfileLocator × ℕ)

namespace Resolving

def answer (s : Resolving) (locator : RosterProfileLocator) (answer : Answer) : Resolving :=
  { s with answers := Function.update s.answers locator (some answer) }

def begin_ (answers : RosterProfileLocator → Option Answer) : Resolving where
  next := 0
  slots := 0
  stopped := false
  answers := answers
  idle := ROSTER_PROFILE_RESOLUTION_CONCURRENCY
  reserving := []
  reading := []
  saving := []
  failed := false
  reads := []
  results := []
  saved := []

/-- Every worker has come to its end. -/
def Ended (s : Resolving) : Prop := s.idle = 0 ∧ s.reserving = [] ∧ s.reading = [] ∧ s.saving = []

end Resolving

def unavailable : Answer := ⟨.unknown, some .unavailable⟩

section Steps
variable (subjectId : ℕ) (queue : List RosterProfileLocator)

/-- What one worker does between two awaits. -/
inductive Step : Resolving → Resolving → Prop
  | claim (s : Resolving) (locator : RosterProfileLocator) (hidle : 0 < s.idle)
      (hopen : s.stopped = false) (hnext : queue[s.next]? = some locator)
      (hslots : s.slots < MAX_ROSTER_PROFILE_RESOLUTIONS) :
      Step s { s with
        next := s.next + 1
        slots := s.slots + 1
        idle := s.idle - 1
        reserving := s.reserving ++ [locator] }
  -- another holds the lease: the slot is given back
  | leased (s : Resolving) (locator : RosterProfileLocator)
      (before after : List RosterProfileLocator)
      (hin : s.reserving = before ++ locator :: after) :
      Step s { s.answer locator unavailable with
        slots := s.slots - 1
        idle := s.idle + 1
        reserving := before ++ after }
  -- a read elsewhere said to stop while the lease was taken
  | holdBack (s : Resolving) (locator : RosterProfileLocator)
      (before after : List RosterProfileLocator)
      (hin : s.reserving = before ++ locator :: after) (hstopped : s.stopped = true) :
      Step s { s.answer locator unavailable with
        idle := s.idle + 1
        reserving := before ++ after }
  | read (s : Resolving) (locator : RosterProfileLocator)
      (before after : List RosterProfileLocator)
      (hin : s.reserving = before ++ locator :: after) (hopen : s.stopped = false) :
      Step s { s with
        reserving := before ++ after
        reading := s.reading ++ [locator]
        reads := s.reads ++ [locator] }
  | receive (s : Resolving) (locator : RosterProfileLocator) (result : Resolution)
      (before after : List RosterProfileLocator)
      (hin : s.reading = before ++ locator :: after) :
      Step s { s with
        stopped := s.stopped || result.stops
        reading := before ++ after
        saving := s.saving ++ [(locator, result)]
        results := s.results ++ [result] }
  | save (s : Resolving) (locator : RosterProfileLocator) (result : Resolution) (resolvedId : ℕ)
      (before after : List (RosterProfileLocator × Resolution))
      (hin : s.saving = before ++ (locator, result) :: after)
      (hresolved : result.resolvedId = some resolvedId) :
      Step s { s.answer locator (resolvedAnswer subjectId resolvedId) with
        idle := s.idle + 1
        saving := before ++ after
        saved := s.saved ++ [(locator, resolvedId)] }
  | saveLimitation (s : Resolving) (locator : RosterProfileLocator) (result : Resolution)
      (before after : List (RosterProfileLocator × Resolution))
      (hin : s.saving = before ++ (locator, result) :: after)
      (hresolved : result.resolvedId = none) :
      Step s { s.answer locator ⟨.unknown, some result.code⟩ with
        idle := s.idle + 1
        saving := before ++ after }
  -- the lease had passed to another
  | saveLate (s : Resolving) (locator : RosterProfileLocator) (result : Resolution)
      (before after : List (RosterProfileLocator × Resolution))
      (hin : s.saving = before ++ (locator, result) :: after) :
      Step s { s.answer locator unavailable with
        idle := s.idle + 1
        saving := before ++ after }
  | reserveThrows (s : Resolving) (locator : RosterProfileLocator)
      (before after : List RosterProfileLocator)
      (hin : s.reserving = before ++ locator :: after) :
      Step s { s with failed := true, reserving := before ++ after }
  | saveThrows (s : Resolving) (locator : RosterProfileLocator) (result : Resolution)
      (before after : List (RosterProfileLocator × Resolution))
      (hin : s.saving = before ++ (locator, result) :: after) :
      Step s { s with failed := true, saving := before ++ after }
  | leave (s : Resolving) (hidle : 0 < s.idle)
      (hdone : s.stopped = true ∨ queue.length ≤ s.next ∨ MAX_ROSTER_PROFILE_RESOLUTIONS ≤ s.slots) :
      Step s { s with idle := s.idle - 1 }

end Steps

/-! ### The answer -/

section Result
variable (texts : Texts) (input : Subject)

def allUnavailable (locator : RosterProfileLocator) : Option Answer :=
  if locator ∈ input.locators texts then some unavailable else none

/-- How the locators came to be answered. -/
inductive Finished : Option Backing → Resolving → (RosterProfileLocator → Option Answer) → Prop
  | unasked (backing : Option Backing) (hnone : input.locators texts = []) :
      Finished backing (.begin_ fun _ => none) fun _ => none
  -- no repository or no reader, or the stored answers cannot be read
  | unbacked (hsome : input.locators texts ≠ []) :
      Finished none (.begin_ fun _ => none) (allUnavailable texts input)
  | answered (backing : Backing) (s : Resolving) (hsome : input.locators texts ≠ [])
      (hrun : Relation.ReflTransGen (Step input.subjectId (queue texts input backing))
        (.begin_ (heldAnswers texts input backing)) s)
      (hended : s.Ended) (hkept : s.failed = false) : Finished (some backing) s s.answers
  -- failed storage must never make a presence
  | failed (backing : Backing) (s : Resolving) (hsome : input.locators texts ≠ [])
      (hrun : Relation.ReflTransGen (Step input.subjectId (queue texts input backing))
        (.begin_ (heldAnswers texts input backing)) s)
      (hended : s.Ended) (hfailed : s.failed = true) :
      Finished (some backing) s (allUnavailable texts input)

variable (answers : RosterProfileLocator → Option Answer)

variable (encounter : LoggedEncounter)

def targetPresence : Presence :=
  let presences := (input.keysOf texts encounter).map (fun key =>
    (answers key).map Answer.presence)
  if presences.any (fun presence => presence = some .present) then .present
  else if input.invalid texts encounter ||
      presences.any (fun presence => presence ≠ some .absent) then .unknown
  else .absent

def targetLimitation : LimitationCode :=
  if input.invalid texts encounter then .schemaDrift
  else ((input.keysOf texts encounter).filterMap (fun key =>
    (answers key).bind Answer.code)).head?.getD .requestCap

structure Presences where
  presence : ℕ → Option Presence
  limitation : Option LimitationCode

def encounterPresence : Presence :=
  if input.holds encounter then .present else targetPresence texts input answers encounter

def rosterPresence : Presences where
  presence := fun id => (input.encounters.find? (fun e => e.loggedEncounterId = id)).map
    (encounterPresence texts input answers)
  limitation := ((input.targets.filter (fun e =>
    targetPresence texts input answers e = .unknown)).head?).map
      (targetLimitation texts input answers)

/-- The presence some order of the reads gives. -/
def ResolveRosterPresence (backing : Option Backing) (s : Resolving) (result : Presences) :
    Prop :=
  ∃ answers, Finished texts input backing s answers ∧
    result = rosterPresence texts input answers

end Result

end SlashWho.RosterPresence
