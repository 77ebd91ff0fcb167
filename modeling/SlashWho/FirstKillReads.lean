import SlashWho.RosterPresenceRuns

/-!
Collecting a character's Raider.IO first kills. What is stored decides which logged
encounters are read: those never read first, then those due again, four at a time and
fifty a run, until a read throws or is rate limited. Each answer is kept beside the
stored ones and saved once; a kill is then credited by the encounter it names and the
character's place on its roster.
-/

namespace SlashWho.FirstKillReads

open ComparatorSort RosterPresence WorkerPool
open EvidenceMerge (Instant)
open HistoricKills (LimitationCode)
open LoggedEncounterSaves (Kill LoggedEncounter Member Unavailable UnavailableCode)
open RaiderIoFirstKills (CharacterIdAnswer EncounterReads FirstKill HistoricMythicKill collectFirstKill)

def MAX_RAIDER_IO_LOGGED_ENCOUNTER_READS_PER_RUN : ℕ := 50

def RAIDER_IO_LOGGED_ENCOUNTER_CONCURRENCY : ℕ := 4

def dayMs : ℕ := 24 * 60 * 60 * 1000

def RAIDER_IO_PRIVATE_ROSTER_REREAD_MS : ℕ := 7 * dayMs

def RAIDER_IO_VISIBLE_ROSTER_REREAD_MS : ℕ := 30 * dayMs

def RAIDER_IO_UNAVAILABLE_ENCOUNTER_REREAD_MS : ℕ := 30 * dayMs

/-! ### Answers -/

def codeText : LimitationCode → String
  | .notFound => "not_found"
  | .private_ => "private"
  | .rateLimited => "rate_limited"
  | .requestCap => "request_cap"
  | .unavailable => "unavailable"
  | .schemaDrift => "schema_drift"

def limitationOf : UnavailableCode → LimitationCode
  | .notFound => .notFound
  | .private_ => .private_
  | .schemaDrift => .schemaDrift

/-- The refusals that answer the same way every time. -/
def isPermanent : LimitationCode → Option UnavailableCode
  | .notFound => some .notFound
  | .private_ => some .private_
  | .schemaDrift => some .schemaDrift
  | .rateLimited => none
  | .requestCap => none
  | .unavailable => none

structure StoredEncounter where
  encounter : LoggedEncounter
  readAt : Instant

structure StoredUnavailable where
  answer : Unavailable
  readAt : Instant

/-- What storage holds of some encounters; a read one is stored once. -/
structure StoredAnswers where
  encounters : List StoredEncounter
  unavailable : List StoredUnavailable
  distinct : (encounters.map (fun stored => stored.encounter.loggedEncounterId)).Nodup

/-- A logged encounter as Raider.IO gives it; without members where its roster is hidden. -/
structure ReadEncounter where
  kill : Kill
  shareRaidUntil : Option Instant
  roster : Option (List Member)

inductive EncounterAnswer
  | encounter (read : ReadEncounter)
  | limitation (code : LimitationCode) (retryAfterMs : Option ℚ)
  | threw

def encounterInput (loggedEncounterId : ℕ) (encounter : ReadEncounter) : LoggedEncounter where
  loggedEncounterId := loggedEncounterId
  kill := encounter.kill
  rosterState := if encounter.roster.isSome then .available else .private_
  shareRaidUntil := encounter.shareRaidUntil
  members := encounter.roster.getD []

/-- The kill stays as first read; its roster and how long it is shared are the new ones. -/
def refreshed (kept read : LoggedEncounter) : LoggedEncounter :=
  { kept with
    shareRaidUntil := read.shareRaidUntil
    rosterState := read.rosterState
    members := read.members }

def visibleRosterDue (stored : StoredEncounter) (now : Instant) : Bool :=
  let aged := decide (stored.readAt + RAIDER_IO_VISIBLE_ROSTER_REREAD_MS < now)
  match stored.encounter.shareRaidUntil with
  | some until_ => if now ≤ until_ then false else if stored.readAt ≤ until_ then true else aged
  | none => aged

def encounterDue (now : Instant) (stored : StoredEncounter) : Bool :=
  match stored.encounter.rosterState with
  | .private_ => stored.readAt + RAIDER_IO_PRIVATE_ROSTER_REREAD_MS < now
  | .available => visibleRosterDue stored now

def unavailableDue (now : Instant) (stored : StoredUnavailable) : Bool :=
  stored.readAt + RAIDER_IO_UNAVAILABLE_ENCOUNTER_REREAD_MS < now

/-! ### What is to be read -/

structure Collection where
  kills : List HistoricMythicKill
  published : List FirstKill
  storedEncounters : List ℕ → StoredAnswers
  settledRaidSlugs : List String
  now : Instant

def byId (encounters : List LoggedEncounter) : OrderedMap ℕ LoggedEncounter :=
  OrderedMap.ofList (encounters.map (fun e => (e.loggedEncounterId, e)))

namespace Collection
variable (c : Collection)

/-- The last kill that names an encounter. -/
def killById : OrderedMap ℕ HistoricMythicKill :=
  OrderedMap.ofList (c.kills.filterMap (fun kill => kill.loggedEncounterId.map (·, kill)))

def ids : List ℕ := c.killById.keys

def stored : StoredAnswers :=
  if c.ids = [] then ⟨[], [], List.nodup_nil⟩ else c.storedEncounters c.ids

def storedRead : OrderedMap ℕ LoggedEncounter := byId (c.stored.encounters.map (·.encounter))

def storedUnavailable : OrderedMap ℕ UnavailableCode :=
  OrderedMap.ofList (c.stored.unavailable.map (fun stored =>
    (stored.answer.loggedEncounterId, stored.answer.code)))

def due : List ℕ :=
  (c.stored.encounters.filter (encounterDue c.now)).map (·.encounter.loggedEncounterId) ++
    (c.stored.unavailable.filter (unavailableDue c.now)).map (·.answer.loggedEncounterId)

def held (id : ℕ) : Bool := c.storedRead.has id || c.storedUnavailable.has id

def unread : List ℕ := c.ids.filter (fun id => !c.held id)

def readAtById : OrderedMap ℕ Instant :=
  OrderedMap.ofList
    (c.stored.encounters.map (fun stored => (stored.encounter.loggedEncounterId, stored.readAt)) ++
      c.stored.unavailable.map (fun stored => (stored.answer.loggedEncounterId, stored.readAt)))

def priority (id : ℕ) : ℕ :=
  match c.killById.get? id with
  | some kill => if kill.raidSlug ∈ c.settledRaidSlugs then 1 else 0
  | none => 0

/-- Current raids first, then the oldest answer. -/
def sooner (a b : ℕ) : Ordering :=
  (compare (c.priority a) (c.priority b)).then
    ((compare ((c.readAtById.get? a).getD 0) ((c.readAtById.get? b).getD 0)).then (compare a b))

def dueIds : List ℕ := sortBy c.sooner (c.ids.filter (fun id => id ∈ c.due))

def toRead : List ℕ := (c.unread ++ c.dueIds).take MAX_RAIDER_IO_LOGGED_ENCOUNTER_READS_PER_RUN

end Collection

/-! ### Reading -/

structure RaiderIoFirstKillLimitation where
  code : LimitationCode
  retryAfterMs : Option ℚ

/-- What the reads have come to; the reads made are noted on the side. -/
structure Reads where
  answered : ℕ → Option LimitationCode
  limitation : Option RaiderIoFirstKillLimitation
  abandoned : Option LimitationCode
  readNow : List LoggedEncounter
  unavailableNow : List Unavailable
  asked : List ℕ

namespace Reads
variable (c : Collection) (reads : Reads)

def fallShort (next : RaiderIoFirstKillLimitation) : Reads :=
  { reads with limitation := reads.limitation.or (some next) }

def abandon (code : LimitationCode) : Reads :=
  { reads with abandoned := reads.abandoned.or (some code) }

/-- A miss matters only where nothing stored answers the id. -/
def miss (id : ℕ) (code : LimitationCode) : Reads :=
  if c.held id then reads
  else { reads with answered := Function.update reads.answered id (some code) }

/-- A read is never unread; a refusal as private hides its roster. -/
def refuse (id : ℕ) (code : UnavailableCode) : Reads :=
  match c.storedRead.get? id with
  | some kept =>
    { reads with
      readNow := reads.readNow ++ [match code with
        | .private_ => { kept with
            shareRaidUntil := none
            rosterState := .private_
            members := [] }
        | _ => kept] }
  | none =>
    { reads with
      answered := Function.update reads.answered id (some (limitationOf code))
      unavailableNow := reads.unavailableNow ++ [⟨id, code⟩] }

/-- A fresh read, kept beside the stored one where there is one. -/
def keep (id : ℕ) (read : ReadEncounter) : Reads :=
  { reads with
    readNow := reads.readNow ++ [match c.storedRead.get? id with
      | some kept => refreshed kept (encounterInput id read)
      | none => encounterInput id read] }

def answer (id : ℕ) (kill : HistoricMythicKill) : EncounterAnswer → Reads
  | .limitation code retryAfterMs =>
    match isPermanent code with
    | some permanent => reads.refuse c id permanent
    | none =>
      let stopping := if code = .rateLimited then reads.abandon .rateLimited else reads
      (stopping.miss c id code).fallShort ⟨code, retryAfterMs⟩
  | .encounter read =>
    -- the log may name another boss than the kill it was listed under
    if read.kill.raidSlug ≠ kill.raidSlug ∨ read.kill.bossSlug ≠ kill.bossSlug then
      reads.refuse c id .schemaDrift
    else reads.keep c id read
  | .threw => ((reads.abandon .unavailable).miss c id .unavailable).fallShort ⟨.unavailable, none⟩

/-- An answer arrives for the encounter at a place of the queue. -/
def settle (place : ℕ) (answer : EncounterAnswer) : Reads :=
  match c.toRead[place]? with
  | none => reads
  | some id =>
    match c.killById.get? id with
    | none => reads
    | some kill => { reads with asked := reads.asked ++ [id] }.answer c id kill answer

def pass (place : ℕ) : Reads :=
  match c.toRead[place]?, reads.abandoned with
  | some id, some code => reads.miss c id code
  | _, _ => reads

end Reads

variable (c : Collection)

def startReads : Reads where
  answered := fun id =>
    if id ∈ c.unread.drop MAX_RAIDER_IO_LOGGED_ENCOUNTER_READS_PER_RUN then some .requestCap
    else none
  limitation :=
    if MAX_RAIDER_IO_LOGGED_ENCOUNTER_READS_PER_RUN < c.unread.length then
      some ⟨.requestCap, none⟩
    else none
  abandoned := none
  readNow := []
  unavailableNow := []
  asked := []

/-- The reads of a collection, with what Raider.IO may answer at each place. -/
def readRules (answers : ℕ → EncounterAnswer → Prop) : Rules EncounterAnswer Reads where
  size := c.toRead.length
  answers := answers
  halted := fun _ => false
  passes := fun reads _ => reads.abandoned.isSome
  pass := Reads.pass c
  settle := Reads.settle c
  halted_pass := fun _ _ h => h
  halted_settle := fun _ _ _ h => h

/-! ### Saving and crediting -/

/-- The encounters held once the answers are saved, or could not be. -/
def heldEncounters (reads : Reads) (saved : Bool) : List LoggedEncounter :=
  c.stored.encounters.map (·.encounter) ++ if saved then reads.readNow else []

/-- Unsaved, a new read would name an encounter no reader can find. -/
def afterSave (reads : Reads) (saved : Bool) : Reads :=
  if saved || (reads.readNow.isEmpty && reads.unavailableNow.isEmpty) then reads
  else (reads.readNow.foldl (fun reads e => reads.miss c e.loggedEncounterId .unavailable)
    reads).fallShort ⟨.unavailable, none⟩

def established : List ℕ :=
  c.published.filterMap (fun kill =>
    if kill.encounterState = .read && kill.presenceChecked then kill.loggedEncounterId else none)

inductive CharacterAnswer
  | id (id : ℕ) (className : String)
  | none
  | failed

def CharacterAnswer.kind : CharacterAnswer → CharacterIdAnswer
  | .id .. => .id
  | .none => .none
  | .failed => .failed

/-- The rosters shown that have not been checked for the character. -/
def unchecked (encounters : OrderedMap ℕ LoggedEncounter) : List LoggedEncounter :=
  encounters.values.filter (fun e =>
    e.rosterState = .available && e.loggedEncounterId ∉ established c)

theorem distinct_unchecked (encounters : List LoggedEncounter) :
    ((unchecked c (byId encounters)).map LoggedEncounter.loggedEncounterId).Nodup :=
  (OrderedMap.filedBy_ofList _ encounters).nodup_values.sublist
    (List.filter_sublist.map _)

/-- The rosters asked about, for the character Raider.IO named. -/
def subject (encounters : List LoggedEncounter) (subjectId : ℕ) (subjectClass : String) :
    Subject where
  encounters := unchecked c (byId encounters)
  distinct := distinct_unchecked c encounters
  subjectId := subjectId
  subjectClass := subjectClass

/-- All that happens in one collection: the reads, whether they were saved, what Raider.IO
says of the character and what its rosters come to. -/
structure CollectionRun where
  pool : Pool Reads
  saved : Bool
  answer : CharacterAnswer
  backing : Option Backing
  resolving : Resolving
  rosters : Presences

namespace CollectionRun
variable (run : CollectionRun)

def held : List LoggedEncounter := heldEncounters c run.pool.acc run.saved

def encounters : OrderedMap ℕ LoggedEncounter := byId (run.held c)

/-- The character is asked for where some roster has to be checked. -/
def character : Option CharacterAnswer :=
  if (unchecked c (run.encounters c)).isEmpty then none else some run.answer

def presence (id : ℕ) : Option Presence :=
  match run.character c with
  | some (.id ..) => run.rosters.presence id
  | _ => none

def limitation : Option RaiderIoFirstKillLimitation :=
  let afterReads := (afterSave c run.pool.acc run.saved).limitation
  match run.character c with
  | some (.id ..) => afterReads.or (run.rosters.limitation.map (⟨·, none⟩))
  | some .failed => afterReads.or (some ⟨.unavailable, none⟩)
  | _ => afterReads

def encounterReads : EncounterReads where
  encounters := fun id => ((run.encounters c).get? id).map (fun e =>
    ⟨e.kill.defeatedAt, e.rosterState⟩)
  answered := fun id => ((afterSave c run.pool.acc run.saved).answered id).map codeText
  storedUnavailable := fun id => (c.storedUnavailable.get? id).map (codeText ∘ limitationOf)
  established := fun id => id ∈ established c
  character := (run.character c).map CharacterAnswer.kind
  present := fun id => run.presence c id = some .present

def kills : List FirstKill := c.kills.filterMap (collectFirstKill (run.encounterReads c))

end CollectionRun

/-- A run the collection may take, with the reads settling in any order. -/
structure CollectRaiderIoFirstKills (texts : Texts) (run : CollectionRun) : Prop where
  reads : Relation.ReflTransGen (WorkerPool.Step (readRules c fun _ _ => True))
    (Pool.begin RAIDER_IO_LOGGED_ENCOUNTER_CONCURRENCY (startReads c)) run.pool
  ended : run.pool.Ended
  rosters : ∀ id className, run.character c = some (.id id className) →
    ResolveRosterPresence texts (subject c (run.held c) id className) run.backing run.resolving
      run.rosters

end SlashWho.FirstKillReads
