import SlashWho.EvidencePhaseActivity
import SlashWho.EvidenceRuns

/-!
The ledger over its stored rows. The store guards each row by rules of its own, which
accept every batch the ledger decides but one kind: the skip of an active phase. A batch
it stores whole leaves the rows equal to the memory; one that breaks off leaves the
memory as it was, and rows that are no further back than it.
-/

namespace SlashWho.EvidencePhaseStore

open List EvidencePhaseActivity EvidencePhases EvidenceRuns Runs

/-- A run's status and its rows of `character_evidence_run_phases`. -/
structure Stored where
  status : EvidenceRunStatus
  rows : EvidencePhaseId → Option PhaseFacts

/-- What becomes of one query: it is answered, it never runs, or its answer is lost. -/
inductive Delivery
  | answered
  | unsent
  | lost
  deriving DecidableEq

/-- The states the guard of the update takes a row from and to. -/
def guardAccepts (stored next : EvidencePhaseState) : Bool :=
  stored = next ||
    (stored = .pending && (next = .active || next = .skipped)) ||
    (stored = .limited && next = .active) ||
    (stored = .completed && next = .limited) ||
    (stored = .active &&
      (next = .completed || next = .limited || next = .failed || next = .cancelled))

/-- The `UPDATE` of one phase, and whether it counted a row. -/
def updatePhase (phase : EvidencePhase) (stored : Stored) : Stored × Bool :=
  match stored.rows phase.id with
  | none => (stored, false)
  | some row =>
    if stored.status.isActive && guardAccepts row.state phase.facts.state then
      ({ stored with rows := Function.update stored.rows phase.id (some phase.facts) }, true)
    else (stored, false)

/-- Row by row, until one is not accepted or its query throws. -/
def recordPhaseTransitions (deliveries : ℕ → Delivery) :
    ℕ → List EvidencePhase → Stored → Stored × Bool
  | _, [], stored => (stored, true)
  | place, phase :: rest, stored =>
    match deliveries place with
    | .unsent => (stored, false)
    | .lost => ((updatePhase phase stored).1, false)
    | .answered =>
      match updatePhase phase stored with
      | (stored, true) => recordPhaseTransitions deliveries (place + 1) rest stored
      | (stored, false) => (stored, false)

/-- What the job handler has the ledger persist by. -/
def persistChanged (deliveries : ℕ → Delivery) (phases : List EvidencePhase) (stored : Stored) :
    Stored × Bool :=
  recordPhaseTransitions deliveries 0 (phases.filter (fun phase => phase.facts.state ≠ .pending))
    stored

/-- A transition asked of the ledger over its store. -/
structure Request where
  id : EvidencePhaseId
  target : Target
  limitationCode : Option String
  now : ℕ → ℤ
  deliveries : ℕ → Delivery

def Request.turn (request : Request) : Turn Stored := ⟨request.now, persistChanged request.deliveries⟩

def answer (run : Run Stored) (request : Request) : Outcome Stored :=
  transition request.turn request.id request.target request.limitationCode run

def next (run : Run Stored) (request : Request) : Run Stored := (answer run request).1

/-- An active run with each phase stored as the memory has it. -/
structure Agreed (run : Run Stored) : Prop where
  status : run.store.status.isActive = true
  rows : ∀ id ∈ run.ledger.plan, run.store.rows id = some (run.ledger.phases id)

/-- A row that is where the memory is, or further on. -/
structure NotBehind (memory stored : PhaseFacts) : Prop where
  legal : isLegalTransition memory.state stored.state = true
  started : ∀ instant, memory.startedAt = some instant → stored.startedAt = some instant
  completed : memory.state = .completed → stored.state ≠ .active

/-- What one transition is to do: have an accepted batch, leave the store equal where it
returns, and leave the memory as it was and no row behind it where it throws. -/
structure StepAgrees (run : Run Stored) (request : Request) : Prop where
  accepted : ∀ batch, decideTransition run.ledger request.now request.id request.target
      request.limitationCode = .ok (some batch) →
    (persistChanged (fun _ => .answered) batch run.store).2 = true
  returned : (answer run request).2 = none → Agreed (next run request)
  thrown : ∀ error, (answer run request).2 = some error →
    (next run request).ledger = run.ledger ∧ ∀ id ∈ run.ledger.plan, ∃ stored,
      (next run request).store.rows id = some stored ∧ NotBehind (run.ledger.phases id) stored

/-- An active phase is asked to be skipped, which the ledger allows and the guard does not. -/
def SkipsActive (ledger : Ledger) (request : Request) : Prop :=
  request.id ∈ ledger.plan ∧ ledger.state request.id = .active ∧ request.target.val = .skipped

/-- A batch is written whole, or breaks off before its first row. -/
def WholeOrNothing (deliveries : ℕ → Delivery) : Prop :=
  deliveries 0 = .unsent ∨ ∀ place, deliveries place = .answered

variable {ledger : Ledger} {batch : List EvidencePhase}

def setRows (rows : EvidencePhaseId → Option PhaseFacts) (written : List EvidencePhase) :
    EvidencePhaseId → Option PhaseFacts :=
  written.foldl (fun rows phase => Function.update rows phase.id (some phase.facts)) rows

theorem notBehind_refl (facts : PhaseFacts) : NotBehind facts facts := by
  refine ⟨if_pos rfl, fun _ h => h, ?_⟩
  intro hcompleted hactive
  rw [hcompleted] at hactive
  cases hactive

theorem updatePhase_cases (phase : EvidencePhase) (stored : Stored) :
    updatePhase phase stored = (stored, false) ∨
      updatePhase phase stored =
        ({ stored with rows := Function.update stored.rows phase.id (some phase.facts) }, true) := by
  unfold updatePhase
  split
  · exact .inl rfl
  · split
    · exact .inr rfl
    · exact .inl rfl

theorem recorded (deliveries : ℕ → Delivery) (place : ℕ) (batch : List EvidencePhase)
    (stored : Stored) :
    ∃ written, written <+: batch ∧
      (recordPhaseTransitions deliveries place batch stored).1 =
        { stored with rows := setRows stored.rows written } ∧
      ((recordPhaseTransitions deliveries place batch stored).2 = true → written = batch) := by
  induction batch generalizing place stored with
  | nil => exact ⟨[], prefix_refl [], rfl, fun _ => rfl⟩
  | cons phase rest ih =>
    have hnothing : ∀ {result : Stored × Bool}, result = (stored, false) →
        ∃ written, written <+: phase :: rest ∧
          result.1 = { stored with rows := setRows stored.rows written } ∧
          (result.2 = true → written = phase :: rest) := by
      intro result hresult
      refine ⟨[], nil_prefix, by rw [hresult]; rfl, ?_⟩
      intro haccepted
      rw [hresult] at haccepted
      cases haccepted
    unfold recordPhaseTransitions
    cases deliveries place with
    | unsent => exact hnothing rfl
    | lost =>
      rcases updatePhase_cases phase stored with hrejected | hwritten
      · simp only [hrejected]
        exact hnothing rfl
      · simp only [hwritten]
        refine ⟨[phase], ⟨rest, rfl⟩, rfl, ?_⟩
        intro haccepted
        cases haccepted
    | answered =>
      rcases updatePhase_cases phase stored with hrejected | hwritten
      · simp only [hrejected]
        exact hnothing rfl
      · simp only [hwritten]
        obtain ⟨written, hbegins, hrows, hall⟩ := ih (place + 1)
          { stored with rows := Function.update stored.rows phase.id (some phase.facts) }
        refine ⟨phase :: written, ?_, hrows, ?_⟩
        · rw [cons_prefix_cons]
          exact ⟨rfl, hbegins⟩
        · intro haccepted
          rw [hall haccepted]

theorem setRows_setAll {rows : EvidencePhaseId → Option PhaseFacts}
    (hrows : ∀ id ∈ ledger.plan, rows id = some (ledger.phases id))
    (written : List EvidencePhase) {id : EvidencePhaseId} (hid : id ∈ ledger.plan) :
    setRows rows written id = some ((ledger.setAll written).phases id) := by
  unfold setRows
  induction written using List.reverseRecOn with
  | nil => exact hrows id hid
  | append_singleton before phase ih =>
    rw [foldl_append, foldl_cons, foldl_nil, setAll_append]
    by_cases heq : id = phase.id
    · rw [heq, Function.update_self, Function.update_self]
    · rw [Function.update_of_ne heq, Function.update_of_ne heq]
      exact ih

theorem accepted_of_guards (stored : Stored) (hstatus : stored.status.isActive = true)
    (hdistinct : (batch.map EvidencePhase.id).Nodup)
    (hguards : ∀ phase ∈ batch, ∃ row, stored.rows phase.id = some row ∧
      guardAccepts row.state phase.facts.state = true) (place : ℕ) :
    (recordPhaseTransitions (fun _ => .answered) place batch stored).2 = true := by
  induction batch generalizing place stored with
  | nil => rfl
  | cons phase rest ih =>
    obtain ⟨row, hrow, hguard⟩ := hguards phase mem_cons_self
    rw [map_cons, nodup_cons] at hdistinct
    have hwritten : updatePhase phase stored =
        ({ stored with rows := Function.update stored.rows phase.id (some phase.facts) }, true) := by
      unfold updatePhase
      rw [hrow]
      simp only
      rw [hstatus, hguard]
      rfl
    unfold recordPhaseTransitions
    simp only [hwritten]
    refine ih { stored with rows := Function.update stored.rows phase.id (some phase.facts) }
      hstatus hdistinct.2 ?_ (place + 1)
    intro other hother
    obtain ⟨row', hrow', hguard'⟩ := hguards other (mem_cons_of_mem _ hother)
    refine ⟨row', ?_, hguard'⟩
    have hne : other.id ≠ phase.id := by
      intro heq
      apply hdistinct.1
      rw [← heq]
      exact mem_map_of_mem hother
    simp only
    rw [Function.update_of_ne hne]
    exact hrow'

theorem guardAccepts_of_legal {current state : EvidencePhaseState}
    (hlegal : isLegalTransition current state = true) (hstate : state ≠ .pending)
    (hskip : ¬ (current = .active ∧ state = .skipped)) : guardAccepts current state = true := by
  cases current <;> cases state <;> simp_all [isLegalTransition, guardAccepts, isTerminal]

variable {id : EvidencePhaseId} {now : ℕ → ℤ} {target : Target} {limitationCode : Option String}

/-- What a decided batch asks the store to write. -/
structure Fits (ledger : Ledger) (batch : List EvidencePhase) : Prop where
  distinct : (batch.map EvidencePhase.id).Nodup
  known : ∀ phase ∈ batch, phase.id ∈ ledger.plan
  settled : ∀ phase ∈ batch, phase.facts.state ≠ .pending
  forward : ∀ phase ∈ batch, NotBehind (ledger.phases phase.id) phase.facts

theorem fits_of_decided (h : Decided ledger now id target limitationCode batch) :
    Fits ledger batch := by
  obtain ⟨preceding, instant, hbatch, hpreceding⟩ := h.preceding
  have hskips : ∀ phase ∈ preceding, phase.id ∈ earlierPhases ledger id ∧
      ledger.state phase.id = .pending ∧ phase.facts.state = .skipped ∧
        phase.facts.startedAt = (ledger.phases phase.id).startedAt := by
    intro phase hphase
    split at hpreceding
    · exact hpreceding.skips phase hphase
    · rw [hpreceding] at hphase
      exact absurd hphase not_mem_nil
  have hearlier : (earlierPhases ledger id).Nodup :=
    ledger.distinct.sublist (takeWhile_sublist _)
  have hnodup : (preceding.map EvidencePhase.id).Nodup := by
    split at hpreceding
    · exact hpreceding.distinct hearlier
    · rw [hpreceding]
      exact nodup_nil
  rw [hbatch]
  refine ⟨?_, ?_, ?_, ?_⟩
  · rw [map_append, nodup_append]
    refine ⟨hnodup, nodup_singleton _, ?_⟩
    intro other hother last hlast heq
    obtain ⟨phase, hphase, hid⟩ := mem_map.mp hother
    rw [map_singleton, mem_singleton] at hlast
    rw [hlast] at heq
    have hin := (hskips phase hphase).1
    rw [hid, heq] at hin
    exact not_mem_earlier hin
  · intro phase hphase
    rcases mem_append.mp hphase with hin | hin
    · exact (takeWhile_sublist _).subset (hskips phase hin).1
    · rw [mem_singleton.mp hin]
      exact h.known
  · intro phase hphase
    rcases mem_append.mp hphase with hin | hin
    · rw [(hskips phase hin).2.2.1]
      decide
    · rw [mem_singleton.mp hin]
      exact target.property
  · intro phase hphase
    rcases mem_append.mp hphase with hin | hin
    · obtain ⟨-, hpending, hskipped, hstarted⟩ := hskips phase hin
      unfold Ledger.state at hpending
      refine ⟨?_, ?_, ?_⟩
      · rw [hpending, hskipped]
        rfl
      · intro started hsome
        rw [hstarted]
        exact hsome
      · intro hcompleted
        rw [hpending] at hcompleted
        cases hcompleted
    · rw [mem_singleton.mp hin]
      refine ⟨h.legal, ?_, ?_⟩
      · intro started hsome
        unfold nextFacts
        simp [hsome]
      · intro hcompleted hactive
        exact h.reopens hactive hcompleted

theorem guards_of_decided (h : Decided ledger now id target limitationCode batch)
    (hskip : ¬ (ledger.state id = .active ∧ target.val = .skipped)) :
    ∀ phase ∈ batch, guardAccepts (ledger.state phase.id) phase.facts.state = true := by
  have hfits := fits_of_decided h
  obtain ⟨preceding, instant, hbatch, hpreceding⟩ := h.preceding
  intro phase hphase
  have hin := hphase
  rw [hbatch] at hin
  rcases mem_append.mp hin with hin | hin
  · split at hpreceding
    · obtain ⟨-, hpending, hskipped, -⟩ := hpreceding.skips phase hin
      rw [hpending, hskipped]
      rfl
    · rw [hpreceding] at hin
      exact absurd hin not_mem_nil
  · apply guardAccepts_of_legal (hfits.forward phase hphase).legal (hfits.settled phase hphase)
    rw [mem_singleton.mp hin]
    exact hskip

variable {run : Run Stored} {request : Request}

theorem filter_settled {ledger : Ledger} {batch : List EvidencePhase} (h : Fits ledger batch) :
    batch.filter (fun phase => phase.facts.state ≠ .pending) = batch := by
  rw [filter_eq_self]
  intro phase hphase
  exact decide_eq_true (h.settled phase hphase)

theorem accepted_of_agreed (h : Agreed run) {batch : List EvidencePhase}
    (hdecided : decideTransition run.ledger request.now request.id request.target
      request.limitationCode = .ok (some batch)) (hskip : ¬ SkipsActive run.ledger request) :
    (persistChanged (fun _ => .answered) batch run.store).2 = true := by
  have hbatch := decided_of_decideTransition hdecided
  have hfits := fits_of_decided hbatch
  unfold persistChanged
  rw [filter_settled hfits]
  apply accepted_of_guards run.store h.status hfits.distinct
  intro phase hphase
  refine ⟨_, h.rows phase.id (hfits.known phase hphase), ?_⟩
  apply guards_of_decided hbatch _ phase hphase
  intro hboth
  exact hskip ⟨hbatch.known, hboth⟩

theorem rejected_of_skipsActive (h : Agreed run) (hskip : SkipsActive run.ledger request) :
    ∃ batch, decideTransition run.ledger request.now request.id request.target
        request.limitationCode = .ok (some batch) ∧
      (persistChanged (fun _ => .answered) batch run.store).2 = false := by
  obtain ⟨hknown, hactive, hskipped⟩ := hskip
  have hdecided : decideTransition run.ledger request.now request.id request.target
      request.limitationCode = .ok (some [⟨request.id, nextFacts (run.ledger.phases request.id)
        .skipped request.limitationCode (request.now 0)⟩]) := by
    unfold Ledger.state at hactive
    unfold decideTransition precedingPhases
    simp only [hskipped, hactive, hknown]
    rfl
  refine ⟨_, hdecided, ?_⟩
  have hrow := h.rows request.id hknown
  unfold Ledger.state at hactive
  unfold persistChanged
  simp [recordPhaseTransitions, updatePhase, nextFacts, hrow, hactive, h.status, guardAccepts]

theorem answer_cases (run : Run Stored) (request : Request) :
    (next run request = run ∧ ((answer run request).2 ≠ none ∨
        decideTransition run.ledger request.now request.id request.target request.limitationCode =
          .ok none)) ∨
      ∃ batch, decideTransition run.ledger request.now request.id request.target
          request.limitationCode = .ok (some batch) ∧
        (next run request).store = (persistChanged request.deliveries batch run.store).1 ∧
        (((persistChanged request.deliveries batch run.store).2 = true ∧
            (answer run request).2 = none ∧
            (next run request).ledger = run.ledger.setAll batch) ∨
          ((persistChanged request.deliveries batch run.store).2 = false ∧
            (answer run request).2 ≠ none ∧ (next run request).ledger = run.ledger)) := by
  unfold next answer transition Request.turn
  simp only
  cases hdecided : decideTransition run.ledger request.now request.id request.target
      request.limitationCode with
  | error thrown => exact .inl ⟨rfl, .inl (Option.some_ne_none thrown)⟩
  | ok decided =>
    cases decided with
    | none => exact .inl ⟨rfl, .inr rfl⟩
    | some batch =>
      right
      refine ⟨batch, rfl, ?_⟩
      simp only
      cases haccepted : (persistChanged request.deliveries batch run.store).2 with
      | true => exact ⟨rfl, .inl ⟨rfl, rfl, rfl⟩⟩
      | false => exact ⟨rfl, .inr ⟨rfl, Option.some_ne_none _, rfl⟩⟩

theorem notBehind_recorded (h : Agreed run) {batch : List EvidencePhase}
    (hdecided : decideTransition run.ledger request.now request.id request.target
      request.limitationCode = .ok (some batch)) {id : EvidencePhaseId}
    (hid : id ∈ run.ledger.plan) :
    ∃ stored, (persistChanged request.deliveries batch run.store).1.rows id = some stored ∧
      NotBehind (run.ledger.phases id) stored := by
  have hfits := fits_of_decided (decided_of_decideTransition hdecided)
  unfold persistChanged
  rw [filter_settled hfits]
  obtain ⟨written, hbegins, hrows, -⟩ := recorded request.deliveries 0 batch run.store
  rw [hrows]
  refine ⟨_, setRows_setAll h.rows written hid, ?_⟩
  rcases phases_setAll run.ledger written id with ⟨phase, hphase, heq, hfacts⟩ | ⟨-, hsame⟩
  · rw [hfacts, ← heq]
    exact hfits.forward phase (hbegins.subset hphase)
  · rw [hsame]
    exact notBehind_refl _

theorem agreed_of_returned (h : Agreed run) (hreturned : (answer run request).2 = none) :
    Agreed (next run request) := by
  rcases answer_cases run request with ⟨hsame, -⟩ | ⟨batch, hdecided, hstore, hends⟩
  · rw [hsame]
    exact h
  · rcases hends with ⟨haccepted, -, hledger⟩ | ⟨-, hthrown, -⟩
    · have hfits := fits_of_decided (decided_of_decideTransition hdecided)
      unfold persistChanged at hstore haccepted
      rw [filter_settled hfits] at hstore haccepted
      obtain ⟨written, -, hrows, hall⟩ := recorded request.deliveries 0 batch run.store
      rw [hall haccepted] at hrows
      rw [hrows] at hstore
      refine ⟨?_, ?_⟩
      · rw [hstore]
        exact h.status
      · intro id hid
        rw [hledger] at hid
        rw [hstore, hledger]
        exact setRows_setAll h.rows batch hid
    · exact absurd hreturned hthrown

theorem notBehind_of_thrown (h : Agreed run) {error : LedgerError}
    (hthrown : (answer run request).2 = some error) :
    (next run request).ledger = run.ledger ∧ ∀ id ∈ run.ledger.plan, ∃ stored,
      (next run request).store.rows id = some stored ∧
        NotBehind (run.ledger.phases id) stored := by
  rcases answer_cases run request with ⟨hsame, -⟩ | ⟨batch, hdecided, hstore, hends⟩
  · rw [hsame]
    exact ⟨rfl, fun id hid => ⟨_, h.rows id hid, notBehind_refl _⟩⟩
  · rcases hends with ⟨-, hreturned, -⟩ | ⟨-, -, hledger⟩
    · rw [hreturned] at hthrown
      cases hthrown
    · refine ⟨hledger, ?_⟩
      intro id hid
      rw [hstore]
      exact notBehind_recorded h hdecided hid

theorem stepAgrees_iff (h : Agreed run) :
    StepAgrees run request ↔ ¬ SkipsActive run.ledger request := by
  constructor
  · intro hagrees hskip
    obtain ⟨batch, hdecided, hrejected⟩ := rejected_of_skipsActive h hskip
    rw [hagrees.accepted batch hdecided] at hrejected
    cases hrejected
  · intro hskip
    exact ⟨fun batch hdecided => accepted_of_agreed h hdecided hskip,
      fun hreturned => agreed_of_returned h hreturned,
      fun error hthrown => notBehind_of_thrown h hthrown⟩

theorem agreed_next (h : Agreed run) (hskip : ¬ SkipsActive run.ledger request)
    (hwhole : WholeOrNothing request.deliveries) : Agreed (next run request) := by
  rcases answer_cases run request with ⟨hsame, -⟩ | ⟨batch, hdecided, hstore, hends⟩
  · rw [hsame]
    exact h
  · rcases hends with ⟨-, hreturned, -⟩ | ⟨hrejected, -, hledger⟩
    · exact agreed_of_returned h hreturned
    · have hdec := decided_of_decideTransition hdecided
      have hfits := fits_of_decided hdec
      have hsame : (next run request).store = run.store := by
        rw [hstore]
        rcases hwhole with hunsent | hanswered
        · obtain ⟨preceding, instant, hbatch, -⟩ := hdec.preceding
          unfold persistChanged
          rw [filter_settled hfits]
          obtain ⟨first, rest, hcons⟩ := exists_cons_of_ne_nil (l := batch)
            (by rw [hbatch]; simp)
          rw [hcons]
          unfold recordPhaseTransitions
          rw [hunsent]
        · have hdeliveries : request.deliveries = fun _ => .answered := funext hanswered
          rw [hdeliveries, accepted_of_agreed h hdecided hskip] at hrejected
          cases hrejected
      refine ⟨?_, ?_⟩
      · rw [hsame]
        exact h.status
      · rw [hsame, hledger]
        exact h.rows

/-- A call of the ledger over its store, its transitions numbered by place. -/
structure StoreCall where
  op : Op
  now : ℕ → ℕ → ℤ
  deliveries : ℕ → ℕ → Delivery

def StoreCall.call (call : StoreCall) : Call Stored :=
  ⟨call.op, fun place => ⟨call.now place, persistChanged (call.deliveries place)⟩⟩

theorem skipEach_requests (now : ℕ → ℕ → ℤ) (deliveries : ℕ → ℕ → Delivery) (place : ℕ)
    (ids : List EvidencePhaseId) (run : EvidencePhases.Run Stored) :
    ∃ requests, (skipEach (fun place => ⟨now place, persistChanged (deliveries place)⟩) place ids
      run).1 = after next run requests := by
  induction ids generalizing place run with
  | nil => exact ⟨[], rfl⟩
  | cons id rest ih =>
    unfold skipEach
    split
    · have hone : next run ⟨id, ⟨.skipped, by decide⟩, none, now place, deliveries place⟩ =
          (transition ⟨now place, persistChanged (deliveries place)⟩ id ⟨.skipped, by decide⟩ none
            run).1 := rfl
      split
      · rename_i reached heq
        rw [heq] at hone
        obtain ⟨requests, hrest⟩ := ih (place + 1) reached
        refine ⟨⟨id, ⟨.skipped, by decide⟩, none, now place, deliveries place⟩ :: requests, ?_⟩
        rw [after_cons, hone]
        exact hrest
      · rename_i reached thrown heq
        rw [heq] at hone
        exact ⟨[⟨id, ⟨.skipped, by decide⟩, none, now place, deliveries place⟩], hone.symm⟩
    · exact ih (place + 1) run

theorem step_requests (run : EvidencePhases.Run Stored) (call : StoreCall)
    (hseeded : run.ledger.seeded = true) :
    ∃ requests, step run call.call = after next run requests := by
  have hclose : ∀ (target : Target) (limitationCode : Option String), ∃ requests,
      (settleActive ⟨call.now 0, persistChanged (call.deliveries 0)⟩ target limitationCode run).1 =
        after next run requests := by
    intro target limitationCode
    unfold settleActive
    split
    · rename_i active _
      exact ⟨[⟨active, target, limitationCode, call.now 0, call.deliveries 0⟩], rfl⟩
    · exact ⟨[], rfl⟩
  obtain ⟨op, now, deliveries⟩ := call
  cases op with
  | seed =>
    refine ⟨[], ?_⟩
    unfold step perform StoreCall.call seed
    simp only
    rw [if_pos hseeded]
    rfl
  | transition id target limitationCode =>
    exact ⟨[⟨id, target, limitationCode, now 0, deliveries 0⟩], rfl⟩
  | unknownStop => exact ⟨[], rfl⟩
  | cancelActive => exact hclose ⟨.cancelled, by decide⟩ none
  | failActive limitationCode => exact hclose ⟨.failed, by decide⟩ limitationCode
  | skipPending => exact skipEach_requests now deliveries 0 run.ledger.plan run
  | skipPendingBefore last =>
    exact skipEach_requests now deliveries 0 (earlierPhases run.ledger last) run

/-- Over an active run that starts agreed, each transition does what it is to do while none
before it or it skips an active phase and no batch before it broke off in part; from
agreement it does so exactly where it skips no active phase. Every operation of a ledger
made from stored phases is a list of transitions. -/
theorem ledger_refines_store (start : EvidencePhases.Run Stored) :
    (∀ request, Agreed start →
      (StepAgrees start request ↔ ¬ SkipsActive start.ledger request)) ∧
    (∀ requests, Agreed start →
      (∀ p ∈ steps next start requests,
        ¬ SkipsActive p.1.ledger p.2 ∧ WholeOrNothing p.2.deliveries) →
      (∀ p ∈ steps next start requests, Agreed p.1 ∧ StepAgrees p.1 p.2) ∧
        Agreed (after next start requests)) ∧
    ∀ call : StoreCall, start.ledger.seeded = true →
      ∃ requests, step start call.call = after next start requests := by
  refine ⟨fun request h => stepAgrees_iff h, ?_, step_requests start⟩
  intro requests hstart hmeets
  have hkeeps : ∀ before, before <+: requests → Agreed (after next start before) :=
    fun before hbefore => keeps_prefixes Agreed
      (fun run request => ¬ SkipsActive run.ledger request ∧ WholeOrNothing request.deliveries)
      (fun _ _ h hmeet => agreed_next h hmeet.1 hmeet.2) hstart hmeets hbefore
  refine ⟨?_, hkeeps requests (prefix_refl requests)⟩
  intro p hp
  obtain ⟨before, hbefore, hstate⟩ := prefix_of_mem_steps next hp
  have hagreed := hkeeps before ((prefix_append before [p.2]).trans hbefore)
  rw [← hstate] at hagreed
  exact ⟨hagreed, (stepAgrees_iff hagreed).mpr (hmeets p hp).1⟩

/-- What an attempt lost in its history left: the history active, all later phases pending. -/
def lostInHistory (id : EvidencePhaseId) : PhaseFacts :=
  if id = .warcraftLogsIdentityResolution then ⟨.completed, some 0, some 1, none⟩
  else if id = .warcraftLogsHistory then ⟨.active, some 1, none, none⟩
  else pendingFacts

theorem nodup_fullEvidencePhasePlan : fullEvidencePhasePlan.Nodup := by decide

theorem skipped_ne_pending : EvidencePhaseState.skipped ≠ .pending := by decide

def reclaimedRun : EvidencePhases.Run Stored :=
  ⟨⟨fullEvidencePhasePlan, nodup_fullEvidencePhasePlan, lostInHistory, true⟩,
    ⟨.running, fun id => some (lostInHistory id)⟩⟩

/-- A resumed attempt that reads parses only, and settles the history first. -/
def skipHistory : Request :=
  ⟨.warcraftLogsHistory, ⟨.skipped, skipped_ne_pending⟩, none, fun _ => 2, fun _ => .answered⟩

/-- The ledger skips the active history, and its store refuses that row. -/
theorem skip_of_active_rejected :
    ¬ ∀ (start : EvidencePhases.Run Stored) (requests : List Request), Agreed start →
      ∀ p ∈ steps next start requests, StepAgrees p.1 p.2 := by
  intro h
  have hstep := h reclaimedRun [skipHistory] ⟨rfl, fun _ _ => rfl⟩ (reclaimedRun, skipHistory)
    mem_cons_self
  have haccepted := hstep.accepted
    [⟨.warcraftLogsHistory, ⟨.skipped, some 1, some 2, none⟩⟩] (by decide +kernel)
  exact absurd haccepted (by decide +kernel)

end SlashWho.EvidencePhaseStore
