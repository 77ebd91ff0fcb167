import Mathlib.Data.Int.Notation
import Mathlib.Data.List.Nodup
import SlashWho.Runs

/-!
The phase ledger of an evidence run. It holds the phases of a plan in memory, decides
which change of a phase is legal and what earlier phases it skips, and has the batch
persisted before it takes the change over. The store writes a batch row by row under a
guard of its own, so a batch that fails may leave the rows before the failure written.
-/

namespace SlashWho.EvidencePhases

inductive EvidencePhaseId
  | warcraftLogsIdentityResolution
  | warcraftLogsHistory
  | warcraftLogsTierBests
  | warcraftLogsFightParses
  | warcraftLogsRankingIdentities
  | raiderioRankings
  | raiderioLoggedEncounters
  | blizzardAchievements
  | publication
  deriving DecidableEq

def EvidencePhaseId.text : EvidencePhaseId → String
  | .warcraftLogsIdentityResolution => "warcraft_logs_identity_resolution"
  | .warcraftLogsHistory => "warcraft_logs_history"
  | .warcraftLogsTierBests => "warcraft_logs_tier_bests"
  | .warcraftLogsFightParses => "warcraft_logs_fight_parses"
  | .warcraftLogsRankingIdentities => "warcraft_logs_ranking_identities"
  | .raiderioRankings => "raiderio_rankings"
  | .raiderioLoggedEncounters => "raiderio_logged_encounters"
  | .blizzardAchievements => "blizzard_achievements"
  | .publication => "publication"

inductive EvidencePhaseState
  | pending
  | active
  | completed
  | skipped
  | limited
  | failed
  | cancelled
  deriving DecidableEq

/-- What the ledger and the store hold of one phase. -/
structure PhaseFacts where
  state : EvidencePhaseState
  startedAt : Option ℤ
  completedAt : Option ℤ
  limitationCode : Option String
  deriving DecidableEq

structure EvidencePhase where
  id : EvidencePhaseId
  facts : PhaseFacts
  deriving DecidableEq

inductive LedgerError
  /-- `evidence_phase_unknown` -/
  | unknown
  /-- `evidence_phase_plan_invalid` -/
  | planInvalid
  /-- `evidence_phase_transition_invalid` -/
  | transitionInvalid
  /-- What the store threw. -/
  | persistFailed
  deriving DecidableEq

def isTerminal : EvidencePhaseState → Bool
  | .completed | .skipped | .limited | .failed | .cancelled => true
  | .pending | .active => false

def isLegalTransition (current next : EvidencePhaseState) : Bool :=
  if current = next then true
  else if current = .pending then next = .active || next = .skipped
  else if current = .active then isTerminal next
  -- a later identity can reveal a limit after the work completed
  else if current = .completed then next = .limited
  -- a later queue attempt may retry a stage that was limited
  else if current = .limited then next = .active
  else false

def pendingFacts : PhaseFacts := ⟨.pending, none, none, none⟩

structure Ledger where
  plan : List EvidencePhaseId
  distinct : plan.Nodup
  phases : EvidencePhaseId → PhaseFacts
  seeded : Bool

def Ledger.state (ledger : Ledger) (id : EvidencePhaseId) : EvidencePhaseState :=
  (ledger.phases id).state

/-- Every ordinary evidence reservation uses these worker stages. -/
def fullEvidencePhasePlan : List EvidencePhaseId :=
  [.warcraftLogsIdentityResolution, .warcraftLogsHistory, .warcraftLogsTierBests,
    .warcraftLogsFightParses, .warcraftLogsRankingIdentities, .raiderioRankings,
    .raiderioLoggedEncounters, .blizzardAchievements, .publication]

abbrev Target := {state : EvidencePhaseState // state ≠ .pending}

variable (ledger : Ledger) (now : ℕ → ℤ)

variable (id : EvidencePhaseId)

def earlierPhases : List EvidencePhaseId :=
  ledger.plan.takeWhile (fun phaseId => phaseId ≠ id)

def previousPhasesAreTerminal : Bool :=
  ledger.plan.contains id &&
    (earlierPhases ledger id).all (fun phaseId => isTerminal (ledger.state phaseId))

/-- The pending phases before one that starts, skipped; another that is not settled
keeps it from starting. -/
def skippedBefore : Except LedgerError (List EvidencePhase) :=
  (earlierPhases ledger id).foldlM (fun preceding phaseId =>
    let earlier := ledger.phases phaseId
    if earlier.state = .pending then
      .ok (preceding ++ [⟨phaseId,
        { earlier with state := .skipped, completedAt := some (now preceding.length) }⟩])
    else if !isTerminal earlier.state then .error .transitionInvalid
    else .ok preceding) []

def precedingPhases (state : EvidencePhaseState) :
    Except LedgerError (List EvidencePhase) :=
  if state = .active then skippedBefore ledger now id else .ok []

def nextFacts (current : PhaseFacts) (state : EvidencePhaseState) (limitationCode : Option String)
    (instant : ℤ) : PhaseFacts where
  state
  startedAt :=
    if current.startedAt.isSome || state = .active then some (current.startedAt.getD instant)
    else none
  completedAt := if isTerminal state then some instant else none
  limitationCode := limitationCode.filter (fun code => code ≠ "")

/-- The batch a transition has persisted; none where it returns without one. -/
def decideTransition (target : Target) (limitationCode : Option String) :
    Except LedgerError (Option (List EvidencePhase)) :=
  let state := target.val
  if id ∉ ledger.plan then .error .unknown
  else
    let current := ledger.phases id
    -- completion is a durable fact of the run, not a transition to reverse
    if current.state = .completed && state = .active then .ok none
    else do
      let preceding ← precedingPhases ledger now id state
      if state ≠ .skipped && state ≠ .active && !previousPhasesAreTerminal ledger id then
        .error .transitionInvalid
      else if !isLegalTransition current.state state then .error .transitionInvalid
      else if current.state = state && current.limitationCode = limitationCode then .ok none
      else
        .ok (some (preceding ++
          [⟨id, nextFacts current state limitationCode (now preceding.length)⟩]))

def Ledger.setAll (batch : List EvidencePhase) : Ledger :=
  { ledger with
    phases := batch.foldl (fun phases phase => Function.update phases phase.id phase.facts)
      ledger.phases }

variable {σ : Type}

/-- What a transition is given: the clock's answers, and the store behind `persist`,
which accepts a batch or throws. -/
structure Turn (σ : Type) where
  now : ℕ → ℤ
  persist : List EvidencePhase → σ → σ × Bool

structure Run (σ : Type) where
  ledger : Ledger
  store : σ

/-- The state afterwards, and what was thrown. -/
abbrev Outcome (σ : Type) := Run σ × Option LedgerError

variable (turn : Turn σ)

def transition (id : EvidencePhaseId) (target : Target) (limitationCode : Option String)
    (run : Run σ) : Outcome σ :=
  match decideTransition run.ledger turn.now id target limitationCode with
  | .error thrown => (run, some thrown)
  | .ok none => (run, none)
  | .ok (some batch) =>
    let (store, accepted) := turn.persist batch run.store
    if accepted then (⟨run.ledger.setAll batch, store⟩, none)
    else (⟨run.ledger, store⟩, some .persistFailed)

/-- Persists the whole plan, once. -/
def seed (run : Run σ) : Outcome σ :=
  if run.ledger.seeded then (run, none)
  else
    let (store, accepted) := turn.persist
      (run.ledger.plan.map (fun id => ⟨id, run.ledger.phases id⟩)) run.store
    (⟨{ run.ledger with seeded := true }, store⟩, if accepted then none else some .persistFailed)

def settleActive (target : Target) (limitationCode : Option String) (run : Run σ) : Outcome σ :=
  match run.ledger.plan.find? (fun id => run.ledger.state id = .active) with
  | some active => transition turn active target limitationCode run
  | none => (run, none)

def cancelActive (run : Run σ) : Outcome σ :=
  settleActive turn ⟨.cancelled, by decide⟩ none run

def failActive (limitationCode : Option String) (run : Run σ) : Outcome σ :=
  settleActive turn ⟨.failed, by decide⟩ limitationCode run

def skipEach (turns : ℕ → Turn σ) : ℕ → List EvidencePhaseId → Run σ → Outcome σ
  | _, [], run => (run, none)
  | place, id :: rest, run =>
    if id ≠ .publication && run.ledger.state id = .pending then
      match transition (turns place) id ⟨.skipped, by decide⟩ none run with
      | (run, none) => skipEach turns (place + 1) rest run
      | (run, some thrown) => (run, some thrown)
    else skipEach turns (place + 1) rest run

def skipPending (turns : ℕ → Turn σ) (run : Run σ) : Outcome σ :=
  skipEach turns 0 run.ledger.plan run

def skipPendingBefore (turns : ℕ → Turn σ) (last : EvidencePhaseId) (run : Run σ) : Outcome σ :=
  skipEach turns 0 (earlierPhases run.ledger last) run

inductive Op
  | seed
  | transition (id : EvidencePhaseId) (target : Target) (limitationCode : Option String)
  /-- A process loss, which has no durable fact. -/
  | unknownStop
  | cancelActive
  | failActive (limitationCode : Option String)
  | skipPending
  | skipPendingBefore (last : EvidencePhaseId)

structure Call (σ : Type) where
  op : Op
  turns : ℕ → Turn σ

def perform (run : Run σ) (call : Call σ) : Outcome σ :=
  match call.op with
  | .seed => seed (call.turns 0) run
  | .transition id target limitationCode =>
    transition (call.turns 0) id target limitationCode run
  | .unknownStop => (run, none)
  | .cancelActive => cancelActive (call.turns 0) run
  | .failActive limitationCode => failActive (call.turns 0) limitationCode run
  | .skipPending => skipPending call.turns run
  | .skipPendingBefore last => skipPendingBefore call.turns last run

def step (run : Run σ) (call : Call σ) : Run σ := (perform run call).1

end SlashWho.EvidencePhases
