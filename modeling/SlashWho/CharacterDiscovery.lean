import SlashWho.FingerprintDiscovery
import SlashWho.SharedStore

/-!
Discovery of a character's relations. From the root it follows declared mains, reads the claimed
list of every owner it met, or guesses at a profile where the owner is hidden, and adds the
characters known to declare the root their main, every read out of one budget. Several workers then
read the guilds still missing, on what the budget has left. A trace notes every read, and no step of
discovery reads it.
-/

namespace SlashWho.CharacterDiscovery

open Characters SharedStore
open FingerprintDiscovery (toRaiderIoUrl)

structure Runtime where
  lower : String → String
  localeCompare : String → String → Ordering

structure RaiderIoCharacter where
  key : CharacterKey
  displayName : String
  className : String
  level : ℕ
  guild : Option CharacterGuild
  ownerId : Option String
  profileGuess : Option String
  declaredMain : Option CharacterKey
  isTournamentProfile : Bool
  omittedMembers : Bool
  deriving DecidableEq

structure RaiderIoProfile where
  characters : List RaiderIoCharacter
  omittedMembers : Bool

inductive UpstreamFailure
  | notFound
  | forbidden
  /-- The retry delay is missing, or given and perhaps no finite number. -/
  | transient (status : Option ℕ) (retryAfterMs : Option (Option ℚ))
  | schemaDrift
  deriving DecidableEq

/-- What ends a part of discovery early: an upstream failure, anything else a
call rejects with, or the abort signal. -/
inductive Thrown
  | upstream (failure : UpstreamFailure)
  | other
  | aborted
  deriving DecidableEq

def schemaChanged : Thrown := .upstream .schemaDrift

inductive LimitationCode
  | privacyHidden
  | requestCap
  | unsupportedMember
  deriving DecidableEq

inductive FailureCode
  | characterNotFound
  | upstreamUnavailable
  | upstreamSchemaChanged
  deriving DecidableEq

/-- No excluded id stands for none named. -/
inductive DiscoveryOutcome
  | complete (characters : List DiscoveredCharacter) (guildReadsDropped : ℕ)
  | incomplete (limitationCode : LimitationCode) (privacyHiddenObserved : Bool)
      (excludedTournamentCharacterIds : List CanonicalId) (characters : List DiscoveredCharacter)
      (guildReadsDropped : ℕ)
  | failure (code : FailureCode) (retryable : Bool) (retryAfterMs : Option ℚ)
  deriving DecidableEq

/-- A request cap that is no finite number is `none`. -/
structure DiscoverCharacterOptions where
  requestCap : Option ℚ
  knownReverseDeclaredCharacters : List DiscoveredCharacter
  rootCharacter : Option RaiderIoCharacter

inductive PendingSource
  | input
  | declaredMain
  deriving DecidableEq

structure PendingCharacter where
  key : CharacterKey
  source : PendingSource

def PendingSource.discoverySource : PendingSource → DiscoverySource
  | .input => .input
  | .declaredMain => .declaredMain

/-- What a request is spent on. -/
inductive Read
  | character (key : CharacterKey)
  | claimed (ownerId : String)
  | profileGuess (value : String)
  | guild (key : CharacterKey)
  deriving DecidableEq

/-- Every read but a guild's is one of a relationship. -/
def Read.isRelationship : Read → Bool
  | .guild _ => false
  | _ => true

inductive Event
  | called (read : Read)
  | refused (read : Read)
  | returned (read : Read) (characters : List RaiderIoCharacter)

structure DiscoveryState where
  budget : ℕ
  capped : Bool
  privacyHidden : Bool
  omittedMembers : Bool
  visitedCharacters : List CanonicalId
  tournamentCharacters : List CanonicalId
  visitedOwners : List String
  pendingCharacters : List PendingCharacter
  inspectedCharacters : List RaiderIoCharacter
  guildKnownCharacterIds : List CanonicalId
  observations : List DiscoveredCharacter
  trace : List Event

/-- What discovery asks of its surroundings. -/
inductive Question
  | signalAborted
  | isSuppressed (key : CharacterKey)
  | getCharacter (key : CharacterKey)
  | getClaimedCharacters (ownerId : String)
  | resolveProfileGuess (value : String)

/-- An answer of another shape than the interface's is `none`. -/
abbrev Question.Result : Question → Type
  | .signalAborted => Bool
  | .isSuppressed _ => Bool
  | .getCharacter _ => Option RaiderIoCharacter
  | .getClaimedCharacters _ => Option RaiderIoProfile
  | .resolveProfileGuess _ => Option (Option RaiderIoProfile)

/-- A part of discovery, with its variables. -/
abbrev Pass (α : Type) := Routine Question Question.Result Thrown DiscoveryState α

def signalAborted : Pass Bool := Routine.ask Question.signalAborted

def throwIfAborted : Pass Unit := do
  if ← signalAborted then throw Thrown.aborted

def isSuppressed (key : CharacterKey) : Pass Bool := Routine.ask (Question.isSuppressed key)

def note (event : Event) : Pass Unit :=
  modify (fun t => { t with trace := t.trace ++ [event] })

/-- A call of the gateway is noted as it is made and as it is answered. -/
def gatewayCall (read : Read) (question : Question)
    (characters : question.Result → List RaiderIoCharacter) : Pass question.Result := do
  note (.called read)
  let answer ← Routine.ask question
  note (.returned read (characters answer))
  pure answer

def getCharacter (key : CharacterKey) : Pass (Option RaiderIoCharacter) :=
  gatewayCall (.character key) (.getCharacter key) Option.toList

def getClaimedCharacters (ownerId : String) : Pass (Option RaiderIoProfile) :=
  gatewayCall (.claimed ownerId) (.getClaimedCharacters ownerId)
    (fun answer => answer.toList.flatMap RaiderIoProfile.characters)

def resolveProfileGuess (value : String) : Pass (Option (Option RaiderIoProfile)) :=
  gatewayCall (.profileGuess value) (.resolveProfileGuess value)
    (fun answer => answer.join.toList.flatMap RaiderIoProfile.characters)

/-- A request that the budget does not reach is not made. -/
def request {α : Type} (read : Read) (operation : Pass α) : Pass (Option α) := do
  if (← get).budget = 0 then
    modify (fun t => { t with capped := true })
    note (.refused read)
    pure none
  else
    modify (fun t => { t with budget := t.budget - 1 })
    some <$> operation

def discoveredCharacter (character : RaiderIoCharacter) (source : DiscoverySource) :
    DiscoveredCharacter where
  key := character.key
  displayName := character.displayName
  className := character.className
  level := character.level
  guild := character.guild
  raiderIoUrl := toRaiderIoUrl character.key
  source := source

variable (runtime : Runtime)

def canonicalId (key : CharacterKey) : CanonicalId := canonicalCharacterId runtime.lower key

/-- A set that remembers the order its members came in. -/
def addOnce {α : Type} [DecidableEq α] (members : List α) (member : α) : List α :=
  if member ∈ members then members else members ++ [member]

def noteOmitted (omitted : Bool) : Pass Unit :=
  modify (fun t => { t with omittedMembers := t.omittedMembers || omitted })

variable (character : RaiderIoCharacter)

def excludeTournament : Pass Unit :=
  modify (fun t => { t with
    tournamentCharacters := addOnce t.tournamentCharacters (canonicalId runtime character.key)
    omittedMembers := true })

def recordMember (source : DiscoverySource) (character : RaiderIoCharacter) : Pass Unit := do
  throwIfAborted
  noteOmitted character.omittedMembers
  if character.isTournamentProfile then excludeTournament runtime character
  else if ← isSuppressed character.key then pure ()
  else
    throwIfAborted
    modify (fun t => { t with
      observations := t.observations ++ [discoveredCharacter character source] })

def recordRelated (profile : RaiderIoProfile) (source : DiscoverySource) : Pass Unit := do
  noteOmitted profile.omittedMembers
  profile.characters.forM (recordMember runtime source)

/-- The root may have been read at admission, and then counts as a call. -/
def readPendingCharacter (options : DiscoverCharacterOptions) (pending : PendingCharacter) :
    Pass (Option RaiderIoCharacter) :=
  match pending.source, options.rootCharacter with
  | .input, some root => do
    note (.called (.character pending.key))
    note (.returned (.character pending.key) [root])
    pure (some root)
  | _, _ => getCharacter pending.key

def inspect (pending : PendingCharacter) (character : RaiderIoCharacter) : Pass Unit :=
  modify (fun t => { t with
    observations := t.observations ++
      [discoveredCharacter character pending.source.discoverySource]
    inspectedCharacters := t.inspectedCharacters ++ [character]
    guildKnownCharacterIds :=
      addOnce t.guildKnownCharacterIds (canonicalId runtime character.key)
    pendingCharacters := t.pendingCharacters ++
      (character.declaredMain.map (fun key => ⟨key, .declaredMain⟩)).toList })

/-- The root and the mains declared from it, while any is pending. Each round
takes one off the queue, and puts another on it only with a request spent, so
the rounds counted here are never used up before the queue is empty. -/
def readPending (options : DiscoverCharacterOptions) : ℕ → Pass (Option DiscoveryOutcome)
  | 0 => pure none
  | rounds + 1 => do
    match (← get).pendingCharacters with
    | [] => pure none
    | pending :: rest =>
      throwIfAborted
      modify (fun t => { t with pendingCharacters := rest })
      if canonicalId runtime pending.key ∈ (← get).visitedCharacters then
        readPending options rounds
      else if ← isSuppressed pending.key then readPending options rounds
      else
        modify (fun t => { t with
          visitedCharacters := addOnce t.visitedCharacters (canonicalId runtime pending.key) })
        let read ← request (.character pending.key) (readPendingCharacter options pending)
        throwIfAborted
        match read with
        | none => pure none
        | some none => throw schemaChanged
        | some (some character) =>
          noteOmitted character.omittedMembers
          if character.isTournamentProfile then
            if pending.source = .input then pure (some (.failure .characterNotFound false none))
            else
              excludeTournament runtime character
              readPending options rounds
          else
            inspect runtime pending character
            readPending options rounds

def RaiderIoCharacter.owner : Option String :=
  character.ownerId.filter (fun ownerId => ownerId ≠ "")

def RaiderIoCharacter.guesses : List String :=
  match character.profileGuess with
  | none => [character.key.name]
  | some guess =>
    if guess = character.key.name then [guess] else [guess, character.key.name]

def readGuesses : List String → Pass Unit
  | [] => pure ()
  | guess :: rest => do
    let read ← request (.profileGuess guess) (resolveProfileGuess guess)
    throwIfAborted
    match read with
    | none => pure ()
    | some none => throw schemaChanged
    | some (some none) => readGuesses rest
    | some (some (some profile)) =>
      recordRelated runtime profile .profileGuess
      readGuesses rest

def readOwners : List RaiderIoCharacter → Pass Unit
  | [] => pure ()
  | character :: rest => do
    match character.owner with
    | some ownerId =>
      if ownerId ∈ (← get).visitedOwners then readOwners rest
      else
        modify (fun t => { t with visitedOwners := t.visitedOwners ++ [ownerId] })
        let read ← request (.claimed ownerId) (getClaimedCharacters ownerId)
        throwIfAborted
        match read with
        | none => pure ()
        | some none => throw schemaChanged
        | some (some claimed) =>
          recordRelated runtime claimed .claimed
          readOwners rest
    | none =>
      modify (fun t => { t with privacyHidden := true })
      readGuesses runtime character.guesses
      if (← get).capped then pure () else readOwners rest

def recordReverseDeclared (character : DiscoveredCharacter) : Pass Unit := do
  throwIfAborted
  if ← isSuppressed character.key then pure ()
  else
    modify (fun t => { t with
      observations := t.observations ++ [{ character with source := .declaredMain }]
      guildKnownCharacterIds :=
        addOnce t.guildKnownCharacterIds (canonicalId runtime character.key) })

def failureOutcome : Thrown → DiscoveryOutcome
  | .upstream .notFound => .failure .characterNotFound false none
  | .upstream .schemaDrift => .failure .upstreamSchemaChanged false none
  | .upstream (.transient _ (some (some retryAfterMs))) =>
    .failure .upstreamUnavailable true (if retryAfterMs ≥ 0 then some retryAfterMs else none)
  | _ => .failure .upstreamUnavailable true none

def initialBudget (options : DiscoverCharacterOptions) : ℕ :=
  match options.requestCap with
  | none => 0
  | some cap => ⌊cap⌋.toNat

def initialState (root : CharacterKey) (options : DiscoverCharacterOptions) : DiscoveryState where
  budget := initialBudget options
  capped := false
  privacyHidden := false
  omittedMembers := false
  visitedCharacters := []
  tournamentCharacters := []
  visitedOwners := []
  pendingCharacters := [⟨root, .input⟩]
  inspectedCharacters := []
  guildKnownCharacterIds := []
  observations := []
  trace := []

/-- The passes that read relationships; an outcome ends discovery with them. -/
def relationshipPasses (root : CharacterKey) (options : DiscoverCharacterOptions) :
    Pass (Option DiscoveryOutcome) := do
  if ← isSuppressed root then pure (some (.failure .characterNotFound false none))
  else
    match ← readPending runtime options (2 * initialBudget options + 1) with
    | some outcome => pure (some outcome)
    | none =>
      readOwners runtime (← get).inspectedCharacters
      options.knownReverseDeclaredCharacters.forM (recordReverseDeclared runtime)
      pure none

def discoverRelationships (root : CharacterKey) (options : DiscoverCharacterOptions) :
    Pass (Option DiscoveryOutcome) :=
  tryCatch (relationshipPasses runtime root options) (fun error => do
    if ← signalAborted then throw Thrown.aborted
    else pure (some (failureOutcome error)))

/-! What was observed. -/

def compareCharacterKeys (left right : DiscoveredCharacter) : Ordering :=
  (runtime.localeCompare left.key.region.code right.key.region.code).then
    ((runtime.localeCompare left.key.realm right.key.realm).then
      (runtime.localeCompare left.key.name right.key.name))

def primary (observations : List DiscoveredCharacter) : List DiscoveredCharacter :=
  observations.filter (fun c => c.source = .input || c.source = .declaredMain)

def related (observations : List DiscoveredCharacter) : List DiscoveredCharacter :=
  (observations.filter (fun c => c.source = .claimed || c.source = .profileGuess)).insertionSort
    (fun left right => compareCharacterKeys runtime left right ≠ .gt)

/-- The characters of the snapshot, each once and none a known tournament profile. -/
def snapshotCharacters (t : DiscoveryState) : List DiscoveredCharacter :=
  (deduplicateCharacters runtime.lower
    (primary t.observations ++ related runtime t.observations)).filter
      (fun c => canonicalId runtime c.key ∉ t.tournamentCharacters)

/-! The guilds still missing. -/

def isRetryableGuildReadFailure : Thrown → Bool
  | .upstream (.transient status none) =>
    match status with
    | none => true
    | some status => 500 ≤ status && status < 600
  | _ => false

/-- A worker is at the head of its loop, in a read of a character's guild, past
one that the budget refused, about to store what a read came to, or ended. -/
inductive Worker
  | atHead
  | reading (index : ℕ) (observed : DiscoveredCharacter) (attempt : ℕ)
  | unread (index : ℕ) (observed : DiscoveredCharacter) (attempt : ℕ)
  | returning (index : ℕ) (value : DiscoveredCharacter)
  | finished
  | threw
  deriving DecidableEq

def Worker.calls : Worker → List Event
  | .reading _ observed _ => [.called (.guild observed.key)]
  | _ => []

structure GuildPass where
  characters : List DiscoveredCharacter
  guildReads : List ℕ
  budget : ℕ
  nextGuildRead : ℕ
  withGuilds : List DiscoveredCharacter
  guildReadsDropped : ℕ
  aborted : Bool
  workers : List Worker
  trace : List Event

def guildReadConcurrency : ℕ := 4

/-- The characters no guild is known of. -/
def guildReads (t : DiscoveryState) : List ℕ :=
  (snapshotCharacters runtime t).zipIdx.filterMap (fun item =>
    if item.1.guild ≠ none ∨ canonicalId runtime item.1.key ∈ t.guildKnownCharacterIds then none
    else some item.2)

def GuildPass.start (t : DiscoveryState) (aborted : Bool) : GuildPass where
  characters := snapshotCharacters runtime t
  guildReads := CharacterDiscovery.guildReads runtime t
  budget := t.budget
  nextGuildRead := 0
  withGuilds := snapshotCharacters runtime t
  guildReadsDropped := 0
  aborted := aborted
  workers := List.replicate (min guildReadConcurrency (CharacterDiscovery.guildReads runtime t).length)
    .atHead
  trace := t.trace

namespace GuildPass

variable (p : GuildPass)

/-- A worker that comes to a read calls the gateway. -/
def setWorker (w : ℕ) (worker : Worker) : GuildPass :=
  { p with
    workers := p.workers.set w worker
    trace := p.trace ++ worker.calls }

/-- The request of a guild read, taken as the read starts. -/
def optionalRequest (w index : ℕ) (observed : DiscoveredCharacter) (attempt : ℕ) : GuildPass :=
  if p.budget = 0 then
    { p with trace := p.trace ++ [Event.refused (.guild observed.key)] }.setWorker w
      (.unread index observed attempt)
  else
    { p with budget := p.budget - 1 }.setWorker w (.reading index observed attempt)

/-- The head of a worker's loop. -/
def readNext (w : ℕ) : GuildPass :=
  match p.guildReads[p.nextGuildRead]? with
  | none => p.setWorker w .finished
  | some index =>
    if p.aborted then p.setWorker w .threw
    else
      match p.characters[index]? with
      | none => p.setWorker w .threw
      | some observed =>
        { p with nextGuildRead := p.nextGuildRead + 1 }.optionalRequest w index observed 1

def drop : GuildPass :=
  { p with guildReadsDropped := p.guildReadsDropped + 1 }

/-- A read that the budget refused; only a retry's was lost upstream. -/
def leaveUnread (w index : ℕ) (observed : DiscoveredCharacter) (attempt : ℕ) : GuildPass :=
  if p.aborted then p.setWorker w .threw
  else if 1 < attempt then p.drop.setWorker w (.returning index observed)
  else p.setWorker w (.returning index observed)

/-- A read's answer is noted, and becomes the character's guild. -/
def settle (w index : ℕ) (observed : DiscoveredCharacter) (attempt : ℕ)
    (answer : Except Thrown (Option RaiderIoCharacter)) : GuildPass :=
  match answer with
  | .ok detailed =>
    let p := { p with trace := p.trace ++ [Event.returned (.guild observed.key) detailed.toList] }
    if p.aborted then p.setWorker w .threw
    else
      match detailed with
      | some detailed => p.setWorker w (.returning index { observed with guild := detailed.guild })
      | none => p.drop.setWorker w (.returning index observed)
  | .error error =>
    if p.aborted then p.setWorker w .threw
    else if attempt = 1 ∧ isRetryableGuildReadFailure error then
      p.optionalRequest w index observed (attempt + 1)
    else p.drop.setWorker w (.returning index observed)

def store (w index : ℕ) (value : DiscoveredCharacter) : GuildPass :=
  { p with withGuilds := p.withGuilds.set index value }.setWorker w .atHead

end GuildPass

/-- The answers the gateway and the suppression check may give. -/
abbrev Answers := (question : Question) → Except Thrown question.Result → Prop

/-- One worker goes on to where it next waits, or the signal aborts. -/
inductive GuildPass.Step (may : Answers) : GuildPass → GuildPass → Prop
  | readNext (p : GuildPass) (w : ℕ) (h : p.workers[w]? = some .atHead) : Step may p (p.readNext w)
  | leaveUnread (p : GuildPass) (w index : ℕ) (observed : DiscoveredCharacter) (attempt : ℕ)
      (h : p.workers[w]? = some (.unread index observed attempt)) :
      Step may p (p.leaveUnread w index observed attempt)
  | settle (p : GuildPass) (w index : ℕ) (observed : DiscoveredCharacter) (attempt : ℕ)
      (answer : Except Thrown (Option RaiderIoCharacter))
      (h : p.workers[w]? = some (.reading index observed attempt))
      (hanswer : may (.getCharacter observed.key) answer) :
      Step may p (p.settle w index observed attempt answer)
  | store (p : GuildPass) (w index : ℕ) (value : DiscoveredCharacter)
      (h : p.workers[w]? = some (.returning index value)) : Step may p (p.store w index value)
  | abort (p : GuildPass) : Step may p { p with aborted := true }

/-- The outcome once every guild is read: a snapshot needs its root. -/
def outcome (root : CharacterKey) (t : DiscoveryState) (p : GuildPass) : DiscoveryOutcome :=
  if !(snapshotCharacters runtime t).any (fun c =>
      canonicalId runtime c.key = canonicalId runtime root) then
    if t.capped then .failure .upstreamUnavailable true none
    else .failure .characterNotFound false none
  else if t.capped then
    .incomplete .requestCap t.privacyHidden t.tournamentCharacters p.withGuilds p.guildReadsDropped
  else if t.privacyHidden then
    .incomplete .privacyHidden false t.tournamentCharacters p.withGuilds p.guildReadsDropped
  else if t.omittedMembers then
    .incomplete .unsupportedMember false t.tournamentCharacters p.withGuilds p.guildReadsDropped
  else .complete p.withGuilds p.guildReadsDropped

/-- How a question is answered while the signal, once aborted, stays so. -/
def does (may : Answers) :
    (question : Question) → Bool → Except Thrown question.Result → Bool → Prop
  | .signalAborted, aborted, answer, aborted' =>
    answer = .ok aborted' ∧ (aborted = true → aborted' = true)
  | .isSuppressed key, aborted, answer, aborted' =>
    may (.isSuppressed key) answer ∧ aborted' = aborted
  | .getCharacter key, aborted, answer, aborted' =>
    may (.getCharacter key) answer ∧ aborted' = aborted
  | .getClaimedCharacters ownerId, aborted, answer, aborted' =>
    may (.getClaimedCharacters ownerId) answer ∧ aborted' = aborted
  | .resolveProfileGuess value, aborted, answer, aborted' =>
    may (.resolveProfileGuess value) answer ∧ aborted' = aborted

/-- A run of discovery, the outcome it returns, `none` when it throws, and the
reads it made. -/
inductive Discovers (may : Answers) (root : CharacterKey) (options : DiscoverCharacterOptions) :
    Option DiscoveryOutcome → List Event → Prop
  | ended (aborted : Bool) (outcome : DiscoveryOutcome) (t : DiscoveryState)
      (hruns : (discoverRelationships runtime root options (initialState root options)).Runs
        (does may) false (.ok (some outcome), t) aborted) :
      Discovers may root options (some outcome) t.trace
  | threw (aborted : Bool) (error : Thrown) (t : DiscoveryState)
      (hruns : (discoverRelationships runtime root options (initialState root options)).Runs
        (does may) false (.error error, t) aborted) :
      Discovers may root options none t.trace
  | returned (aborted : Bool) (t : DiscoveryState) (p : GuildPass)
      (hruns : (discoverRelationships runtime root options (initialState root options)).Runs
        (does may) false (.ok none, t) aborted)
      (hguilds : Relation.ReflTransGen (GuildPass.Step may) (.start runtime t aborted) p)
      (hfinished : ∀ worker ∈ p.workers, worker = .finished) :
      Discovers may root options (some (outcome runtime root t p)) p.trace
  | guildsThrew (aborted : Bool) (t : DiscoveryState) (p : GuildPass)
      (hruns : (discoverRelationships runtime root options (initialState root options)).Runs
        (does may) false (.ok none, t) aborted)
      (hguilds : Relation.ReflTransGen (GuildPass.Step may) (.start runtime t aborted) p)
      (hthrew : Worker.threw ∈ p.workers) :
      Discovers may root options none p.trace

end SlashWho.CharacterDiscovery
