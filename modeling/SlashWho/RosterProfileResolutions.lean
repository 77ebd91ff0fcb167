import SlashWho.RosterPresence
import SlashWho.Runs

/-!
The stored answers to who a former roster member is now. One row to a locator holds the answer, the
lease of the attempt under way and the cooldown the provider asked for, and two conditional writes
of it race: a reservation, and an answer, which is accepted from the attempt that holds the lease. A
token is a fresh uuid. What a `timestamptz` cannot carry the database refuses. The log beside the
table is of what was granted and of what was answered.
-/

namespace SlashWho.RosterProfileResolutions

open RosterPresence (RosterProfileLocator Texts isValidCharacterKey)
open HistoricKills (isSafeInteger)

def answerLifetimeMs : ℤ := 30 * 24 * 60 * 60 * 1000

def leaseMs : ℤ := 5 * 60 * 1000

structure RosterProfileResolutionAnswer where
  resolvedId : Option ℤ
  limitationCode : Option String
  /-- A date that was given, which may be no date. -/
  retryNotBefore : Option (Option ℤ)

structure ResolutionRow where
  resolvedId : Option ℤ
  limitationCode : Option String
  answeredAt : Option ℤ
  lastAttemptAt : ℤ
  retryNotBefore : Option ℤ
  attemptToken : Option String
  leaseUntil : Option ℤ

section Validation

/-- `/^(.+)-([1-9][0-9]*)$/` of a locator's name. -/
def nameSuffix (name : String) : Option (String × ℕ) :=
  let reversed := name.toList.reverse
  let digits := (reversed.takeWhile Char.isDigit).reverse
  match reversed.dropWhile Char.isDigit with
  | '-' :: rest =>
    let stem := rest.reverse
    if digits.isEmpty || digits.head? = some '0' || stem.isEmpty ||
        stem.any (fun c => c ∈ ['\n', '\r', '\u2028', '\u2029']) then none
    else some (String.ofList stem, Nat.ofDigitChars 10 digits 0)
  | _ => none

def validateLocator (texts : Texts) (locator : RosterProfileLocator) : Except String Unit :=
  match nameSuffix locator.name with
  | some (stem, id) =>
    if isSafeInteger locator.historicId && 1 ≤ locator.historicId && id = locator.historicId &&
        isValidCharacterKey texts locator.region locator.realm stem then .ok ()
    else .error "invalid_roster_profile_locator"
  | none => .error "invalid_roster_profile_locator"

def permanentCodes : List String := ["not_found", "private", "schema_drift"]

def transientCodes : List String := ["rate_limited", "unavailable", "transient"]

variable (answer : RosterProfileResolutionAnswer)

def RosterProfileResolutionAnswer.positive : Bool :=
  match answer.resolvedId with
  | some resolvedId => isSafeInteger resolvedId && 0 < resolvedId && answer.limitationCode.isNone
  | none => false

def RosterProfileResolutionAnswer.limitation : Bool :=
  answer.resolvedId.isNone &&
    answer.limitationCode.any (fun code => code ∈ permanentCodes || code ∈ transientCodes)

def validateAnswer : Except String Unit :=
  if !answer.positive && !answer.limitation then .error "invalid_roster_profile_answer"
  else if answer.retryNotBefore = some none then .error "invalid_roster_profile_answer"
  else .ok ()

def validateTime : Option ℤ → Except String ℤ
  | some now => .ok now
  | none => .error "invalid_roster_profile_time"

/-- An answer that holds for `answerLifetimeMs`. -/
def RosterProfileResolutionAnswer.definitive : Bool :=
  answer.resolvedId.isSome || answer.limitationCode.any (fun code => code ∈ permanentCodes)

/-- The instant the provider asked to wait for. -/
def RosterProfileResolutionAnswer.cooldown : Option ℤ :=
  answer.retryNotBefore.join

end Validation

/-- What was granted and what was answered, and whether the answer was accepted. -/
inductive Entry
  | granted (locator : RosterProfileLocator) (token : String) (now : ℤ)
  | answered (locator : RosterProfileLocator) (token : String)
      (answer : RosterProfileResolutionAnswer) (now : ℤ) (accepted : Bool)

structure State where
  table : RosterProfileLocator → Option ResolutionRow
  /-- How many tokens were made. -/
  tokens : ℕ
  log : List Entry

def State.initial : State := ⟨fun _ => none, 0, []⟩

/-- `GREATEST` of two columns, of which either may be null. -/
def greatest : Option ℤ → Option ℤ → Option ℤ
  | some x, some y => some (max x y)
  | some x, none => some x
  | none, y => y

/-- The conflict predicate of a reservation. -/
def ResolutionRow.free (row : ResolutionRow) (now : ℤ) : Bool :=
  row.lastAttemptAt < now && row.leaseUntil.all (· ≤ now) && row.retryNotBefore.all (· ≤ now) &&
    row.answeredAt.all (· ≤ now - answerLifetimeMs)

section Repository

variable (texts : Texts) (uuid : ℕ → String) (storable : ℤ → Bool)

/-- The row a reservation writes over what is stored. -/
def reservedRow (row : Option ResolutionRow) (token : String) (now : ℤ) : ResolutionRow :=
  { resolvedId := row.bind ResolutionRow.resolvedId
    limitationCode := row.bind ResolutionRow.limitationCode
    answeredAt := row.bind ResolutionRow.answeredAt
    lastAttemptAt := now
    retryNotBefore := row.bind ResolutionRow.retryNotBefore
    attemptToken := some token
    leaseUntil := some (now + leaseMs) }

def reserve (locator : RosterProfileLocator) (at_ : Option ℤ) (s : State) :
    State × Except String (Option String) :=
  match validateLocator texts locator, validateTime at_ with
  | .error fault, _ => (s, .error fault)
  | _, .error fault => (s, .error fault)
  | .ok (), .ok now =>
    let token := uuid s.tokens
    let s := { s with tokens := s.tokens + 1 }
    if !(storable now && storable (now + leaseMs) && storable (now - answerLifetimeMs)) then
      (s, .error "database")
    else if (s.table locator).all (·.free now) then
      ({ s with
          table := Function.update s.table locator
            (some (reservedRow (s.table locator) token now))
          log := s.log ++ [.granted locator token now] }, .ok (some token))
    else (s, .ok none)

/-- The row an answer leaves, by whether it is accepted. -/
def answeredRow (row : ResolutionRow) (answer : RosterProfileResolutionAnswer) (now : ℤ)
    (accepted : Bool) : ResolutionRow :=
  { row with
    resolvedId := if accepted then answer.resolvedId else row.resolvedId
    limitationCode := if accepted then answer.limitationCode else row.limitationCode
    answeredAt := if accepted then (if answer.definitive then some now else none)
      else row.answeredAt
    retryNotBefore := greatest row.retryNotBefore answer.cooldown
    attemptToken := if accepted then none else row.attemptToken
    leaseUntil := if accepted then none else row.leaseUntil }

def ResolutionRow.accepts (row : ResolutionRow) (token : String) (now : ℤ) : Bool :=
  row.attemptToken = some token && row.lastAttemptAt ≤ now

def answer (locator : RosterProfileLocator) (token : String)
    (answer : RosterProfileResolutionAnswer) (at_ : Option ℤ) (s : State) :
    State × Except String Bool :=
  match validateLocator texts locator, validateAnswer answer, validateTime at_ with
  | .error fault, _, _ => (s, .error fault)
  | _, .error fault, _ => (s, .error fault)
  | _, _, .error fault => (s, .error fault)
  | .ok (), .ok (), .ok now =>
    if !(storable now && answer.cooldown.all storable) then (s, .error "database")
    else
      match s.table locator with
      | none => (s, .ok false)
      | some row =>
        let accepted := row.accepts token now
        ({ s with
            table := Function.update s.table locator (some (answeredRow row answer now accepted))
            log := s.log ++ [.answered locator token answer now accepted] }, .ok accepted)

inductive Event
  | reserve (locator : RosterProfileLocator) (at_ : Option ℤ)
  | answer (locator : RosterProfileLocator) (token : String)
      (answer : RosterProfileResolutionAnswer) (at_ : Option ℤ)

def step (s : State) : Event → State
  | .reserve locator at_ => (reserve texts uuid storable locator at_ s).1
  | .answer locator token given at_ => (answer texts storable locator token given at_ s).1

end Repository

end SlashWho.RosterProfileResolutions
