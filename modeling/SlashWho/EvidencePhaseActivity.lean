import Mathlib.Data.List.TakeWhile
import SlashWho.EvidencePhases
import SlashWho.Fallible

/-!
The active phases of a ledger. Of the operations only a transition to active makes a
phase active, after every earlier one is settled; nothing looks at the later ones. A run
that starts with one active phase at most keeps it so exactly where no phase becomes
active before an active one, and then closing the active phase leaves none.
-/

namespace SlashWho.EvidencePhaseActivity

open List EvidencePhases Runs

variable {ledger : Ledger} {id : EvidencePhaseId}

def laterPhases (ledger : Ledger) (id : EvidencePhaseId) : List EvidencePhaseId :=
  (ledger.plan.dropWhile (fun phaseId => phaseId ≠ id)).tail

theorem dropWhile_plan (hid : id ∈ ledger.plan) :
    ledger.plan.dropWhile (fun phaseId => phaseId ≠ id) = id :: laterPhases ledger id := by
  unfold laterPhases
  generalize ledger.plan = plan at hid
  induction plan with
  | nil => exact absurd hid not_mem_nil
  | cons first rest ih =>
    by_cases hfirst : first = id
    · rw [dropWhile_cons_of_neg (by simpa using hfirst), hfirst]
      rfl
    · rw [dropWhile_cons_of_pos (by simpa using hfirst)]
      exact ih ((mem_cons.mp hid).resolve_left (Ne.symm hfirst))

theorem plan_eq (hid : id ∈ ledger.plan) :
    ledger.plan = earlierPhases ledger id ++ id :: laterPhases ledger id := by
  rw [← dropWhile_plan hid]
  exact takeWhile_append_dropWhile.symm

theorem not_mem_earlier : id ∉ earlierPhases ledger id := by
  intro hin
  have hne := mem_takeWhile_imp hin
  simp at hne

theorem later_ne (hid : id ∈ ledger.plan) {later : EvidencePhaseId}
    (hlater : later ∈ laterPhases ledger id) :
    later ≠ id ∧ later ∉ earlierPhases ledger id ∧ later ∈ ledger.plan := by
  have hdistinct := ledger.distinct
  rw [plan_eq hid, nodup_append] at hdistinct
  obtain ⟨-, htail, hapart⟩ := hdistinct
  rw [nodup_cons] at htail
  refine ⟨?_, ?_, ?_⟩
  · intro heq
    rw [heq] at hlater
    exact htail.1 hlater
  · intro hearlier
    exact hapart later hearlier later (mem_cons_of_mem _ hlater) rfl
  · rw [plan_eq hid]
    exact mem_append_right _ (mem_cons_of_mem _ hlater)

/-- What the phases before a starting one become: each pending one is skipped, and each
other is settled already. -/
structure Precedes (ledger : Ledger) (earlier : List EvidencePhaseId)
    (preceding : List EvidencePhase) : Prop where
  skips : ∀ phase ∈ preceding, phase.id ∈ earlier ∧ ledger.state phase.id = .pending ∧
    phase.facts.state = .skipped ∧ phase.facts.startedAt = (ledger.phases phase.id).startedAt
  settles : ∀ phaseId ∈ earlier, isTerminal (ledger.state phaseId) = true ∨
    ∃ phase ∈ preceding, phase.id = phaseId
  distinct : earlier.Nodup → (preceding.map EvidencePhase.id).Nodup

theorem precedes_skippedBefore {now : ℕ → ℤ} {preceding : List EvidencePhase}
    (h : skippedBefore ledger now id = .ok preceding) :
    Precedes ledger (earlierPhases ledger id) preceding := by
  unfold skippedBefore at h
  generalize earlierPhases ledger id = earlier at h ⊢
  induction earlier using List.reverseRecOn generalizing preceding with
  | nil =>
    cases h
    exact ⟨fun _ hphase => absurd hphase not_mem_nil,
      fun _ hid => absurd hid not_mem_nil, fun _ => nodup_nil⟩
  | append_singleton before phaseId ih =>
    rw [foldlM_append] at h
    obtain ⟨skipped, hbefore, hlast⟩ := Fallible.ok_of_bind_ok h
    have hprecedes := ih hbefore
    rw [foldlM_cons] at hlast
    obtain ⟨next, hnext, hend⟩ := Fallible.ok_of_bind_ok hlast
    cases hend
    simp only at hnext
    by_cases hpending : (ledger.phases phaseId).state = .pending
    · rw [if_pos hpending] at hnext
      cases hnext
      refine ⟨?_, ?_, ?_⟩
      · intro phase hphase
        rcases mem_append.mp hphase with hin | hin
        · obtain ⟨hearlier, hfacts⟩ := hprecedes.skips phase hin
          exact ⟨mem_append_left _ hearlier, hfacts⟩
        · rw [mem_singleton.mp hin]
          exact ⟨mem_append_right _ mem_cons_self, hpending, rfl, rfl⟩
      · intro other hother
        rcases mem_append.mp hother with hin | hin
        · rcases hprecedes.settles other hin with hterminal | ⟨phase, hphase, heq⟩
          · exact .inl hterminal
          · exact .inr ⟨phase, mem_append_left _ hphase, heq⟩
        · rw [mem_singleton.mp hin]
          exact .inr ⟨_, mem_append_right _ mem_cons_self, rfl⟩
      · intro hnodup
        rw [nodup_append] at hnodup
        obtain ⟨hbeforeNodup, -, hapart⟩ := hnodup
        rw [map_append, nodup_append]
        refine ⟨hprecedes.distinct hbeforeNodup, nodup_singleton _, ?_⟩
        intro other hother last hlast heq
        obtain ⟨phase, hphase, hid⟩ := mem_map.mp hother
        rw [map_singleton, mem_singleton] at hlast
        rw [hlast, ← hid] at heq
        exact hapart _ (hprecedes.skips phase hphase).1 _ mem_cons_self heq
    · rw [if_neg hpending] at hnext
      by_cases hterminal : isTerminal (ledger.phases phaseId).state = true
      · rw [hterminal] at hnext
        cases hnext
        refine ⟨?_, ?_, ?_⟩
        · intro phase hphase
          obtain ⟨hearlier, hfacts⟩ := hprecedes.skips phase hphase
          exact ⟨mem_append_left _ hearlier, hfacts⟩
        · intro other hother
          rcases mem_append.mp hother with hin | hin
          · exact hprecedes.settles other hin
          · rw [mem_singleton.mp hin]
            exact .inl hterminal
        · intro hnodup
          exact hprecedes.distinct (nodup_append.mp hnodup).1
      · rw [Bool.not_eq_true] at hterminal
        rw [hterminal] at hnext
        cases hnext

/-- What a decided batch is: the phases it skips on the way, and the change asked for. -/
structure Decided (ledger : Ledger) (now : ℕ → ℤ) (id : EvidencePhaseId) (target : Target)
    (limitationCode : Option String) (batch : List EvidencePhase) : Prop where
  known : id ∈ ledger.plan
  legal : isLegalTransition (ledger.state id) target.val = true
  reopens : target.val = .active → ledger.state id ≠ .completed
  preceding : ∃ preceding instant, batch = preceding ++
      [⟨id, nextFacts (ledger.phases id) target.val limitationCode instant⟩] ∧
    if target.val = .active then Precedes ledger (earlierPhases ledger id) preceding
    else preceding = []

theorem decided_of_decideTransition {now : ℕ → ℤ} {target : Target}
    {limitationCode : Option String} {batch : List EvidencePhase}
    (h : decideTransition ledger now id target limitationCode = .ok (some batch)) :
    Decided ledger now id target limitationCode batch := by
  unfold decideTransition at h
  simp only at h
  by_cases hknown : id ∈ ledger.plan
  · rw [if_neg (not_not.mpr hknown)] at h
    by_cases hdone : ((ledger.phases id).state = .completed && target.val = .active) = true
    · rw [if_pos hdone] at h
      cases h
    · rw [if_neg hdone] at h
      obtain ⟨preceding, hpreceding, hrest⟩ := Fallible.ok_of_bind_ok h
      split at hrest
      · cases hrest
      · split at hrest
        · cases hrest
        · rename_i hlegal
          split at hrest
          · cases hrest
          · cases hrest
            have hallowed : isLegalTransition (ledger.state id) target.val = true := by
              simpa [Ledger.state] using hlegal
            refine ⟨hknown, hallowed, ?_, preceding, _, rfl, ?_⟩
            · intro hactive hcompleted
              apply hdone
              rw [Bool.and_eq_true, decide_eq_true_eq, decide_eq_true_eq]
              exact ⟨hcompleted, hactive⟩
            · unfold precedingPhases at hpreceding
              split at hpreceding
              · rename_i hactive
                rw [if_pos hactive]
                exact precedes_skippedBefore hpreceding
              · rename_i hactive
                rw [if_neg hactive]
                cases hpreceding
                rfl
  · rw [if_pos hknown] at h
    cases h

/-- A transition returns without a batch where the phase is in the state asked for, or is
completed and asked to be active. -/
theorem same_of_decideTransition {now : ℕ → ℤ} {target : Target}
    {limitationCode : Option String}
    (h : decideTransition ledger now id target limitationCode = .ok none) :
    ledger.state id = target.val ∨ target.val = .active ∧ ledger.state id = .completed := by
  unfold decideTransition at h
  simp only at h
  by_cases hknown : id ∈ ledger.plan
  · rw [if_neg (not_not.mpr hknown)] at h
    by_cases hdone : ((ledger.phases id).state = .completed && target.val = .active) = true
    · rw [Bool.and_eq_true, decide_eq_true_eq, decide_eq_true_eq] at hdone
      exact .inr ⟨hdone.2, hdone.1⟩
    · rw [if_neg hdone] at h
      obtain ⟨preceding, -, hrest⟩ := Fallible.ok_of_bind_ok h
      split at hrest
      · cases hrest
      · split at hrest
        · cases hrest
        · split at hrest
          · rename_i hsame
            rw [Bool.and_eq_true, decide_eq_true_eq] at hsame
            exact .inl hsame.1
          · cases hrest
  · rw [if_pos hknown] at h
    cases h

theorem setAll_append (ledger : Ledger) (batch : List EvidencePhase) (phase : EvidencePhase) :
    (ledger.setAll (batch ++ [phase])).phases =
      Function.update (ledger.setAll batch).phases phase.id phase.facts := by
  unfold Ledger.setAll
  rw [foldl_append]
  rfl

theorem phases_setAll (ledger : Ledger) (batch : List EvidencePhase) (x : EvidencePhaseId) :
    (∃ phase ∈ batch, phase.id = x ∧ (ledger.setAll batch).phases x = phase.facts) ∨
      (∀ phase ∈ batch, phase.id ≠ x) ∧ (ledger.setAll batch).phases x = ledger.phases x := by
  induction batch using List.reverseRecOn with
  | nil => exact .inr ⟨fun _ hphase => absurd hphase not_mem_nil, rfl⟩
  | append_singleton before phase ih =>
    rw [setAll_append]
    by_cases hx : phase.id = x
    · left
      refine ⟨phase, mem_append_right _ mem_cons_self, hx, ?_⟩
      rw [← hx, Function.update_self]
    · rw [Function.update_of_ne (Ne.symm hx)]
      rcases ih with ⟨other, hother, hid, hfacts⟩ | ⟨hnone, hsame⟩
      · exact .inl ⟨other, mem_append_left _ hother, hid, hfacts⟩
      · refine .inr ⟨?_, hsame⟩
        intro other hother
        rcases mem_append.mp hother with hin | hin
        · exact hnone other hin
        · rw [mem_singleton.mp hin]
          exact hx

/-- The phase asked for ends in the state asked for; another is as it was, or skipped
where it was pending and before one that starts. -/
structure Changes (ledger after : Ledger) (id : EvidencePhaseId) (target : Target) : Prop where
  plan : after.plan = ledger.plan
  known : id ∈ ledger.plan
  legal : isLegalTransition (ledger.state id) target.val = true
  reopens : target.val = .active → ledger.state id ≠ .completed
  asked : after.state id = target.val
  others : ∀ x, x ≠ id → after.state x = ledger.state x ∨
    after.state x = .skipped ∧ x ∈ earlierPhases ledger id
  settled : target.val = .active → ∀ x ∈ earlierPhases ledger id,
    isTerminal (ledger.state x) = true ∨ ledger.state x = .pending

theorem Decided.changes {now : ℕ → ℤ} {target : Target} {limitationCode : Option String}
    {batch : List EvidencePhase} (h : Decided ledger now id target limitationCode batch) :
    Changes ledger (ledger.setAll batch) id target := by
  obtain ⟨preceding, instant, hbatch, hpreceding⟩ := h.preceding
  have hbefore : ∀ phase ∈ preceding, phase.id ∈ earlierPhases ledger id ∧
      phase.facts.state = .skipped := by
    intro phase hphase
    split at hpreceding
    · obtain ⟨hearlier, -, hskipped, -⟩ := hpreceding.skips phase hphase
      exact ⟨hearlier, hskipped⟩
    · rw [hpreceding] at hphase
      exact absurd hphase not_mem_nil
  refine ⟨rfl, h.known, h.legal, h.reopens, ?_, ?_, ?_⟩
  · unfold Ledger.state
    rw [hbatch, setAll_append, Function.update_self]
    rfl
  · intro x hx
    unfold Ledger.state
    rw [hbatch, setAll_append, Function.update_of_ne hx]
    rcases phases_setAll ledger preceding x with ⟨phase, hphase, hid, hfacts⟩ | ⟨-, hsame⟩
    · obtain ⟨hearlier, hskipped⟩ := hbefore phase hphase
      rw [hfacts]
      rw [hid] at hearlier
      exact .inr ⟨hskipped, hearlier⟩
    · rw [hsame]
      exact .inl rfl
  · intro hactive x hx
    rw [if_pos hactive] at hpreceding
    rcases hpreceding.settles x hx with hterminal | ⟨phase, hphase, hid⟩
    · exact .inl hterminal
    · rw [← hid]
      exact .inr (hpreceding.skips phase hphase).2.1

variable {σ : Type}

/-- The transition is decided as a batch, and the store takes it. -/
def GoesThrough (turn : Turn σ) (id : EvidencePhaseId) (target : Target)
    (limitationCode : Option String) (run : Run σ) : Prop :=
  ∃ batch, decideTransition run.ledger turn.now id target limitationCode = .ok (some batch) ∧
    (turn.persist batch run.store).2 = true

theorem transition_cases (turn : Turn σ) (id : EvidencePhaseId) (target : Target)
    (limitationCode : Option String) (run : Run σ) :
    ((transition turn id target limitationCode run).1.ledger = run.ledger ∧
        ¬ GoesThrough turn id target limitationCode run ∧
        ((transition turn id target limitationCode run).2 = none →
          run.ledger.state id = target.val ∨
            target.val = .active ∧ run.ledger.state id = .completed)) ∨
      Changes run.ledger (transition turn id target limitationCode run).1.ledger id target ∧
        GoesThrough turn id target limitationCode run := by
  unfold transition
  split
  · rename_i thrown hdecided
    refine .inl ⟨rfl, ?_, ?_⟩
    · rintro ⟨batch, hbatch, -⟩
      rw [hdecided] at hbatch
      cases hbatch
    · intro hreturned
      cases hreturned
  · rename_i hdecided
    refine .inl ⟨rfl, ?_, fun _ => same_of_decideTransition hdecided⟩
    rintro ⟨batch, hbatch, -⟩
    rw [hdecided] at hbatch
    cases hbatch
  · rename_i batch hdecided
    simp only
    split
    · rename_i haccepted
      exact .inr ⟨(decided_of_decideTransition hdecided).changes, batch, hdecided, haccepted⟩
    · rename_i hrefused
      refine .inl ⟨rfl, ?_, ?_⟩
      · rintro ⟨other, hother, haccepted⟩
        rw [hdecided] at hother
        cases hother
        exact hrefused haccepted
      · intro hreturned
        cases hreturned

def AtMostOneActive (ledger : Ledger) : Prop :=
  ∀ a ∈ ledger.plan, ∀ b ∈ ledger.plan, ledger.state a = .active → ledger.state b = .active → a = b

def NoneActive (ledger : Ledger) : Prop := ∀ a ∈ ledger.plan, ledger.state a ≠ .active

/-- A transition goes through that makes a pending or limited phase active before an
active one. -/
def ActivatesBehind (run : Run σ) (call : Call σ) : Prop :=
  ∃ id target limitationCode, call.op = .transition id target limitationCode ∧
    target.val = .active ∧ GoesThrough (call.turns 0) id target limitationCode run ∧
    (run.ledger.state id = .pending ∨ run.ledger.state id = .limited) ∧
    ∃ later ∈ laterPhases run.ledger id, run.ledger.state later = .active

structure Quiet (ledger after : Ledger) : Prop where
  plan : after.plan = ledger.plan
  active : ∀ x, after.state x = .active → ledger.state x = .active

theorem quiet_refl (ledger : Ledger) : Quiet ledger ledger := ⟨rfl, fun _ h => h⟩

theorem Quiet.trans {middle after : Ledger} (h : Quiet ledger middle) (h' : Quiet middle after) :
    Quiet ledger after :=
  ⟨h'.plan.trans h.plan, fun x hx => h.active x (h'.active x hx)⟩

theorem Quiet.atMostOne {after : Ledger} (h : Quiet ledger after) (hone : AtMostOneActive ledger) :
    AtMostOneActive after := by
  intro a ha b hb hactive hactive'
  rw [h.plan] at ha hb
  exact hone a ha b hb (h.active a hactive) (h.active b hactive')

variable {target : Target}

variable (turn : Turn σ)

theorem quiet_transition (id : EvidencePhaseId) (htarget : target.val ≠ .active)
    (limitationCode : Option String) (run : Run σ) :
    Quiet run.ledger (transition turn id target limitationCode run).1.ledger := by
  rcases transition_cases turn id target limitationCode run with ⟨hsame, -⟩ | ⟨hchanges, -⟩
  · rw [hsame]
    exact quiet_refl run.ledger
  · refine ⟨hchanges.plan, ?_⟩
    intro x hx
    by_cases hid : x = id
    · rw [hid, hchanges.asked] at hx
      exact absurd hx htarget
    · rcases hchanges.others x hid with hsame | ⟨hskipped, -⟩
      · rw [← hsame]
        exact hx
      · rw [hskipped] at hx
        cases hx

theorem quiet_skipEach (turns : ℕ → Turn σ) (place : ℕ) (ids : List EvidencePhaseId)
    (run : Run σ) : Quiet run.ledger (skipEach turns place ids run).1.ledger := by
  induction ids generalizing place run with
  | nil => exact quiet_refl run.ledger
  | cons id rest ih =>
    unfold skipEach
    split
    · have hone := quiet_transition (turns place) id (show (⟨.skipped, by decide⟩ : Target).val ≠
        .active by decide) none run
      split
      · rename_i next heq
        rw [heq] at hone
        exact hone.trans (ih (place + 1) next)
      · rename_i next thrown heq
        rw [heq] at hone
        exact hone
    · exact ih (place + 1) run

theorem quiet_settleActive (htarget : target.val ≠ .active) (limitationCode : Option String)
    (run : Run σ) :
    Quiet run.ledger (settleActive turn target limitationCode run).1.ledger := by
  unfold settleActive
  split
  · exact quiet_transition turn _ htarget limitationCode run
  · exact quiet_refl run.ledger

theorem noneActive_settleActive (htarget : target.val ≠ .active) (limitationCode : Option String)
    {run : Run σ} (hone : AtMostOneActive run.ledger)
    (hreturned : (settleActive turn target limitationCode run).2 = none) :
    NoneActive (settleActive turn target limitationCode run).1.ledger := by
  unfold settleActive at hreturned ⊢
  split at hreturned
  · rename_i active hfound
    have hactive := find?_some hfound
    rw [decide_eq_true_eq] at hactive
    have hin := mem_of_find?_eq_some hfound
    rcases transition_cases turn active target limitationCode run with
        ⟨-, -, hsame⟩ | ⟨hchanges, -⟩
    · rcases hsame hreturned with hstate | ⟨htoActive, -⟩
      · rw [hactive] at hstate
        exact absurd hstate.symm htarget
      · exact absurd htoActive htarget
    · intro a ha hstill
      rw [hchanges.plan] at ha
      by_cases heq : a = active
      · rw [heq, hchanges.asked] at hstill
        exact htarget hstill
      · rcases hchanges.others a heq with hsame | ⟨hskipped, -⟩
        · rw [hsame] at hstill
          exact heq (hone a ha active hin hstill hactive)
        · rw [hskipped] at hstill
          cases hstill
  · rename_i hnone
    intro a ha hactive
    have hnot := find?_eq_none.mp hnone a ha
    rw [hactive] at hnot
    simp at hnot

theorem mem_earlier_or_later {id x : EvidencePhaseId} (hid : id ∈ ledger.plan)
    (hx : x ∈ ledger.plan) (hne : x ≠ id) :
    x ∈ earlierPhases ledger id ∨ x ∈ laterPhases ledger id := by
  rw [plan_eq hid, mem_append, mem_cons] at hx
  rcases hx with hearlier | heq | hlater
  · exact .inl hearlier
  · exact absurd heq hne
  · exact .inr hlater

theorem atMostOne_activated {after : Ledger} {id : EvidencePhaseId} (hone : AtMostOneActive ledger)
    (h : Changes ledger after id target) (htarget : target.val = .active)
    (hlater : ledger.state id = .pending ∨ ledger.state id = .limited →
      ∀ later ∈ laterPhases ledger id, ledger.state later ≠ .active) :
    AtMostOneActive after := by
  have hother : ∀ x ∈ ledger.plan, x ≠ id → after.state x ≠ .active := by
    intro x hx hne hactive
    have hwas : ledger.state x = .active := by
      rcases h.others x hne with hsame | ⟨hskipped, -⟩
      · rw [← hsame]
        exact hactive
      · rw [hskipped] at hactive
        cases hactive
    rcases mem_earlier_or_later h.known hx hne with hearlier | hin
    · rcases h.settled htarget x hearlier with hterminal | hpending
      · rw [hwas] at hterminal
        cases hterminal
      · rw [hwas] at hpending
        cases hpending
    · have hlegal := h.legal
      have hreopens := h.reopens htarget
      rw [htarget] at hlegal
      cases hstate : ledger.state id with
      | pending => exact hlater (.inl hstate) x hin hwas
      | limited => exact hlater (.inr hstate) x hin hwas
      | active => exact hne (hone x hx id h.known hwas hstate)
      | completed => exact hreopens hstate
      | skipped => simp [hstate, isLegalTransition] at hlegal
      | failed => simp [hstate, isLegalTransition] at hlegal
      | cancelled => simp [hstate, isLegalTransition] at hlegal
  intro a ha b hb hactive hactive'
  rw [h.plan] at ha hb
  by_cases hida : a = id
  · by_cases hidb : b = id
    · rw [hida, hidb]
    · exact absurd hactive' (hother b hb hidb)
  · exact absurd hactive (hother a ha hida)

theorem atMostOne_step {run : Run σ} {call : Call σ} (hone : AtMostOneActive run.ledger)
    (hmeets : ¬ ActivatesBehind run call) : AtMostOneActive (step run call).ledger := by
  unfold step perform
  obtain ⟨op, turns⟩ := call
  cases op with
  | seed =>
    unfold seed
    simp only
    split
    · exact hone
    · exact hone
  | transition id target limitationCode =>
    simp only
    by_cases htarget : target.val = .active
    · rcases transition_cases (turns 0) id target limitationCode run with
          ⟨hsame, -⟩ | ⟨hchanges, hthrough⟩
      · rw [hsame]
        exact hone
      · apply atMostOne_activated hone hchanges htarget
        intro hstate later hlater hactive
        exact hmeets ⟨id, target, limitationCode, rfl, htarget, hthrough, hstate, later, hlater,
          hactive⟩
    · exact (quiet_transition (turns 0) id htarget limitationCode run).atMostOne hone
  | unknownStop => exact hone
  | cancelActive => exact (quiet_settleActive (turns 0) (by decide) none run).atMostOne hone
  | failActive limitationCode =>
    exact (quiet_settleActive (turns 0) (by decide) limitationCode run).atMostOne hone
  | skipPending => exact (quiet_skipEach turns 0 run.ledger.plan run).atMostOne hone
  | skipPendingBefore last =>
    exact (quiet_skipEach turns 0 (earlierPhases run.ledger last) run).atMostOne hone

theorem two_active_of_activatesBehind {run : Run σ} {call : Call σ}
    (h : ActivatesBehind run call) : ¬ AtMostOneActive (step run call).ledger := by
  obtain ⟨id, target, limitationCode, hop, htarget, hthrough, -, later, hlater, hactive⟩ := h
  obtain ⟨op, turns⟩ := call
  simp only at hop hthrough
  subst hop
  rcases transition_cases (turns 0) id target limitationCode run with
      ⟨-, hnot, -⟩ | ⟨hchanges, -⟩
  · exact absurd hthrough hnot
  · intro hone
    obtain ⟨hne, hnot, hin⟩ := later_ne hchanges.known hlater
    have hstill : (step run ⟨.transition id target limitationCode, turns⟩).ledger.state later =
        .active := by
      rcases hchanges.others later hne with hsame | ⟨-, hearlier⟩
      · exact hsame.trans hactive
      · exact absurd hearlier hnot
    have hknown := hchanges.known
    rw [← hchanges.plan] at hin hknown
    exact hne (hone later hin id hknown hstill (hchanges.asked.trans htarget))

/-- What a run of the ledger is to keep: one active phase at most in every state, and none
after a close that succeeds. -/
structure KeepsOneActive (start : Run σ) (calls : List (Call σ)) : Prop where
  states : ∀ before, before <+: calls → AtMostOneActive (after step start before).ledger
  closes : ∀ p ∈ steps step start calls,
    (p.2.op = .cancelActive ∨ ∃ limitationCode, p.2.op = .failActive limitationCode) →
      (perform p.1 p.2).2 = none → NoneActive (step p.1 p.2).ledger

/-- Phases that earlier attempts, each from where the last one stopped, left stored. -/
def LeftStored (start : Run σ) : Prop :=
  ∃ first : Run σ, (∀ id, first.ledger.phases id = pendingFacts) ∧
    ∃ calls, start = after step first calls

/-- A run keeps one active phase at most exactly where it starts so, and no transition that
goes through makes a pending or limited phase active before an active one. -/
theorem keepsOneActive_iff (start : Run σ) (calls : List (Call σ)) :
    KeepsOneActive start calls ↔
      AtMostOneActive start.ledger ∧
        ∀ p ∈ steps step start calls, ¬ ActivatesBehind p.1 p.2 := by
  constructor
  · intro h
    refine ⟨h.states [] nil_prefix, ?_⟩
    intro p hp hbehind
    obtain ⟨before, hbefore, hstate⟩ := prefix_of_mem_steps step hp
    apply two_active_of_activatesBehind hbehind
    have hone := h.states _ hbefore
    rw [after_append, ← hstate] at hone
    exact hone
  · intro h
    obtain ⟨hstart, hmeets⟩ := h
    have hstates : ∀ before, before <+: calls → AtMostOneActive (after step start before).ledger :=
      fun before hbefore => keeps_prefixes (fun run : Run σ => AtMostOneActive run.ledger)
        (fun run call => ¬ ActivatesBehind run call)
        (fun _ _ hone hstep => atMostOne_step hone hstep) hstart hmeets hbefore
    refine ⟨hstates, ?_⟩
    intro p hp hclose hreturned
    obtain ⟨before, hbefore, hstate⟩ := prefix_of_mem_steps step hp
    have hone := hstates before ((prefix_append before [p.2]).trans hbefore)
    rw [← hstate] at hone
    obtain ⟨run, op, turns⟩ := p
    simp only at hclose hreturned hone
    rcases hclose with hcancel | ⟨limitationCode, hfail⟩
    · subst hcancel
      exact noneActive_settleActive (turns 0) (by decide) none hone hreturned
    · subst hfail
      exact noneActive_settleActive (turns 0) (by decide) limitationCode hone hreturned

def accepting (op : Op) : Call Unit where
  op
  turns := fun _ => ⟨fun _ => 0, fun _ store => (store, true)⟩

/-- An attempt limited in its history that is lost while it reads tier bests. -/
def lostAttempt : List (Call Unit) :=
  [accepting (.transition .warcraftLogsIdentityResolution ⟨.active, by decide⟩ none),
    accepting (.transition .warcraftLogsIdentityResolution ⟨.completed, by decide⟩ none),
    accepting (.transition .warcraftLogsHistory ⟨.active, by decide⟩ none),
    accepting (.transition .warcraftLogsHistory ⟨.limited, by decide⟩ (some "unavailable")),
    accepting (.transition .warcraftLogsTierBests ⟨.active, by decide⟩ none)]

def firstRun : Run Unit :=
  ⟨⟨fullEvidencePhasePlan, by decide, fun _ => pendingFacts, true⟩, ()⟩

/-- The next attempt makes the history active again beside the tier bests. -/
theorem two_active_on_resume :
    ¬ ∀ (start : Run Unit) (calls : List (Call Unit)), LeftStored start →
      KeepsOneActive start calls := by
  intro h
  have hkeeps := h (after step firstRun lostAttempt)
    [accepting (.transition .warcraftLogsHistory ⟨.active, by decide⟩ none)]
    ⟨firstRun, fun _ => rfl, lostAttempt, rfl⟩
  have hone := hkeeps.states _ (prefix_refl _) .warcraftLogsHistory (by decide +kernel)
    .warcraftLogsTierBests (by decide +kernel) (by decide +kernel) (by decide +kernel)
  cases hone

end SlashWho.EvidencePhaseActivity
