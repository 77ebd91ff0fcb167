import Mathlib.Data.List.Nodup
import Mathlib.Data.Nat.Basic
import SlashWho.SearchCharges

/-!
What a bucket keeps while reservations, cancels, cleanups and claims run beside
each other. Every event is one of a few moves. A reservation that is about to
insert has counted fewer than the limit, and since then charges only went; a
reservation answers once, with a charge or without; and the row a cancel holds
is queued, so its run was never claimed and is not refunded yet.
-/

namespace SlashWho.SearchCharges

open List

variable {κ : Type*} {limit : ℕ}

/-- What one event can do. -/
inductive Move (limit : ℕ) (s : State κ) (event : Event κ) : State κ → Prop
  | idle (faults : List String) : Move limit s event { s with faults := faults }
  | lock (r : Reservation κ) (hfree : s.holder = none) (hcall : r.call = s.calls)
      (hat : event.at? = some r.now) (hphase : r.phase ≠ .inserting) :
      Move limit s event { s with holder := some r, calls := s.calls + 1 }
  | refuse (answer : Answer) (hanswer : answer.charges = false) :
      Move limit s event
        { s with calls := s.calls + 1, answers := s.answers ++ [(s.calls, answer)] }
  | answer (r : Reservation κ) (hholder : s.holder = some r) (answer : Answer)
      (hanswer : answer.charges = false) : Move limit s event (s.answer r.call answer)
  | phase (r : Reservation κ) (hholder : s.holder = some r) (phase : Phase)
      (hroom : phase = .inserting → s.usage r.now < limit) :
      Move limit s event { s with holder := some { r with phase := phase } }
  | reserve (r : Reservation κ) (hholder : s.holder = some r) (hphase : r.phase = .inserting)
      (root : κ) :
      Move limit s event { s.answer r.call (.reserved s.runs) with
        run := Function.update s.run s.runs (some ⟨root, .queued, 0⟩)
        runs := s.runs + 1
        charges := s.charges ++ [⟨r.call, some s.runs, r.expiresAt⟩]
        inserted := s.inserted ++ [⟨r.call, some s.runs, r.expiresAt⟩] }
  | allow (r : Reservation κ) (hholder : s.holder = some r) (hphase : r.phase = .inserting) :
      Move limit s event { s.answer r.call .allowed with
        charges := s.charges ++ [⟨r.call, none, r.expiresAt⟩]
        inserted := s.inserted ++ [⟨r.call, none, r.expiresAt⟩] }
  | hold (id : ℕ) (hnew : id ∉ s.cancelling) (hqueued : s.statusOf id = some .queued) :
      Move limit s event { s with cancelling := id :: s.cancelling }
  | drop (id : ℕ) (faults : List String) :
      Move limit s event { s with cancelling := s.cancelling.erase id, faults := faults }
  | refund (id : ℕ) (hevent : event = .finishCancel id) (hheld : id ∈ s.cancelling)
      (hone : s.charges.countP (fun c => c.discoveryRunId = some id) = 1) :
      Move limit s event { s.setStatus id .failed with
        cancelling := s.cancelling.erase id
        charges := s.charges.filter (fun c => c.discoveryRunId ≠ some id)
        refunded := s.refunded ++ [id] }
  | clean (now : ℤ) (hevent : event = .cleanupExpired now) :
      Move limit s event { s with charges := s.charges.filter (fun c => now < c.expiresAt) }
  | claim (id attempt : ℕ) (hfree : id ∉ s.cancelling) (run : DiscoveryRun κ)
      (hrun : s.run id = some run) (hactive : run.status.active = true) :
      Move limit s event { s with
        run := Function.update s.run id (some { run with status := .running, attempt := attempt })
        claimed := s.claimed ++ [id] }
  | settle (id : ℕ) (status : Status) (hfree : id ∉ s.cancelling) (hstatus : status ≠ .queued)
      (hactive : (s.statusOf id).any Status.active = true) :
      Move limit s event (s.setStatus id status)

theorem Move.still (s : State κ) (event : Event κ) : Move limit s event s := .idle s.faults

section Moves
variable (s : State κ)

theorem move_search (root : κ) (now expiresAt : ℤ) (suppressed fresh negative : Bool) :
    Move limit s (.search root now expiresAt suppressed fresh negative)
      (search limit root now expiresAt suppressed fresh negative s) := by
  unfold search
  cases requestFault limit now expiresAt with
  | some fault => exact .refuse (.failed fault) rfl
  | none =>
    cases hholder : s.holder with
    | some r => exact .still s _
    | none =>
      have hanswer : ∀ answer : Answer, answer.charges = false →
          Move limit s (.search root now expiresAt suppressed fresh negative)
            ((lock (some root) now expiresAt .reading s).answer s.calls answer) := by
        intro answer hcharges
        have hmove : Move limit s (.search root now expiresAt suppressed fresh negative) _ :=
          .refuse answer hcharges
        unfold State.answer lock
        rw [← hholder]
        exact hmove
      dsimp only [Option.isSome_none]
      cases suppressed with
      | true => exact hanswer .suppressed rfl
      | false =>
        cases fresh with
        | true => exact hanswer .fresh rfl
        | false =>
          cases negative with
          | true => exact hanswer .negative rfl
          | false =>
            exact .lock ⟨s.calls, some root, now, expiresAt, .reading⟩ hholder rfl rfl nofun

theorem move_refresh (now expiresAt : ℤ) :
    Move limit s (.refresh now expiresAt) (refresh limit now expiresAt s) := by
  unfold refresh
  cases requestFault limit now expiresAt with
  | some fault => exact .refuse (.failed fault) rfl
  | none =>
    cases hholder : s.holder with
    | some r => exact .still s _
    | none => exact .lock ⟨s.calls, none, now, expiresAt, .counting⟩ hholder rfl rfl nofun

variable [DecidableEq κ]

theorem move_insert (r : Reservation κ) (hholder : s.holder = some r)
    (hphase : r.phase = .inserting) (event : Event κ) : Move limit s event (insert r s) := by
  unfold insert
  cases r.root with
  | none => exact .allow r hholder hphase
  | some root =>
    dsimp only
    split
    · exact .answer r hholder (.failed "database") rfl
    · exact .reserve r hholder hphase root

theorem move_advance : Move limit s .advance (advance limit s) := by
  unfold advance
  cases hholder : s.holder with
  | none => exact .still s _
  | some r =>
    dsimp only
    cases hphase : r.phase with
    | reading =>
      dsimp only
      cases r.root.bind s.activeRun with
      | none => exact .phase r hholder .counting nofun
      | some id =>
        dsimp only
        split
        · exact .still s _
        · exact .answer r hholder (.active id) rfl
    | counting =>
      dsimp only
      by_cases hfull : limit ≤ s.usage r.now
      · rw [if_pos hfull]
        cases r.root with
        | none => exact .answer r hholder (.refused (s.retryAt r.now)) rfl
        | some root =>
          cases s.retryAt r.now with
          | none => exact .answer r hholder (.failed "rate_limit_retry_missing") rfl
          | some retryAt => exact .answer r hholder (.rateLimited (some retryAt)) rfl
      · rw [if_neg hfull]
        exact .phase r hholder .inserting (fun _ => Nat.lt_of_not_le hfull)
    | inserting => exact move_insert s r hholder hphase _

/-- Every event is a move. -/
theorem move_step (event : Event κ) : Move limit s event (step limit s event) := by
  cases event with
  | search root now expiresAt suppressed fresh negative =>
    exact move_search s root now expiresAt suppressed fresh negative
  | refresh now expiresAt => exact move_refresh s now expiresAt
  | advance => exact move_advance s
  | cancel id =>
    change Move limit s _ (cancel id s)
    unfold cancel
    split
    · exact .still s _
    · next hnew =>
      split
      · next hqueued => exact .hold id hnew hqueued
      · exact .idle _
  | finishCancel id =>
    change Move limit s _ (finishCancel id s)
    unfold finishCancel
    split
    · next hheld =>
      dsimp only
      split
      · next hone => exact .refund id rfl hheld hone
      · exact .drop id _
    · exact .still s _
  | cleanupExpired now => exact .clean now rfl
  | claim id attempt =>
    change Move limit s _ (claim id attempt s)
    unfold claim
    split
    · exact .still s _
    · next hfree =>
      cases hrun : s.run id with
      | none => exact .still s _
      | some run =>
        dsimp only
        split
        · next hactive => exact .claim id attempt hfree run hrun hactive.2
        · exact .still s _
  | settle id status =>
    change Move limit s _ (settle id status s)
    unfold settle
    split
    · exact .still s _
    · next hfree =>
      split
      · next hactive =>
        exact .settle id status (fun h => hfree (.inl h)) (fun h => hfree (.inr h)) hactive
      · exact .still s _

end Moves

/-- The bucket at the instants of the operations so far and after. -/
structure Bounded (limit : ℕ) (past : List ℤ) (s : State κ) : Prop where
  bound : ∀ now, (∀ t ∈ past, t ≤ now) → s.usage now ≤ limit
  asked : ∀ r, s.holder = some r → r.now ∈ past
  room : ∀ r, s.holder = some r → r.phase = .inserting → s.usage r.now < limit

/-- The answers given and the charges that came with them. -/
structure Answered (s : State κ) : Prop where
  called : ∀ e ∈ s.answers, e.1 < s.calls
  once : (s.answers.map Prod.fst).Nodup
  held : ∀ r, s.holder = some r → r.call < s.calls ∧ r.call ∉ s.answers.map Prod.fst
  paid : ∀ e ∈ s.answers,
    s.inserted.countP (fun c => c.call = e.1) = if e.2.charges then 1 else 0
  known : ∀ c ∈ s.inserted, c.call ∈ s.answers.map Prod.fst
  named : ∀ c ∈ s.inserted, ∀ id, c.discoveryRunId = some id → (c.call, .reserved id) ∈ s.answers
  kept : ∀ c ∈ s.charges, c ∈ s.inserted

/-- Where the runs are that a cancel holds, or that were claimed or refunded. -/
structure Rowed (s : State κ) : Prop where
  fresh : ∀ id, s.runs ≤ id → s.run id = none
  single : s.cancelling.Nodup
  queued : ∀ id ∈ s.cancelling, s.statusOf id = some .queued
  claimed : ∀ id ∈ s.claimed, ∃ status, s.statusOf id = some status ∧ status ≠ .queued
  refunded : ∀ id ∈ s.refunded, s.statusOf id = some .failed
  once : s.refunded.Nodup
  apart : ∀ id ∈ s.claimed, id ∉ s.refunded

section Bound
variable {past : List ℤ} {s s' : State κ} {event : Event κ}

theorem usage_filter_le (p : Charge → Bool) (now : ℤ) :
    State.usage { s with charges := s.charges.filter p } now ≤ s.usage now :=
  List.Sublist.countP_le filter_sublist

theorem usage_mono {now later : ℤ} (h : now ≤ later) : s.usage later ≤ s.usage now := by
  refine countP_mono_left (fun c _ hc => ?_)
  have hlater : later < c.expiresAt := of_decide_eq_true hc
  exact decide_eq_true (by omega)

theorem Bounded.insert (h : Bounded limit past s) {r : Reservation κ} (hholder : s.holder = some r)
    (hphase : r.phase = .inserting) {c : Charge} (hcharges : s'.charges = s.charges ++ [c])
    (hnone : s'.holder = none) : Bounded limit past s' := by
  refine ⟨?_, ?_, ?_⟩
  · intro now hnow
    have hroom := h.room r hholder hphase
    have hless : s.usage now ≤ s.usage r.now := usage_mono (hnow _ (h.asked r hholder))
    have hone : [c].countP (fun c => decide (now < c.expiresAt)) ≤ 1 := countP_le_length
    unfold State.usage at *
    rw [hcharges, countP_append]
    omega
  · intro r' hr'
    rw [hnone] at hr'
    cases hr'
  · intro r' hr'
    rw [hnone] at hr'
    cases hr'

/-- Fewer charges, and the same reservation or none. -/
theorem Bounded.shrink (h : Bounded limit past s) (hcharges : ∀ now, s'.usage now ≤ s.usage now)
    (hholder : s'.holder = s.holder ∨ s'.holder = none) : Bounded limit past s' := by
  refine ⟨?_, ?_, ?_⟩
  · exact fun now hnow => le_trans (hcharges now) (h.bound now hnow)
  · intro r hr
    rcases hholder with hsame | hnone
    · exact h.asked r (hsame ▸ hr)
    · rw [hnone] at hr
      cases hr
  · intro r hr hphase
    rcases hholder with hsame | hnone
    · exact lt_of_le_of_lt (hcharges _) (h.room r (hsame ▸ hr) hphase)
    · rw [hnone] at hr
      cases hr

theorem Bounded.move (h : Bounded limit past s) (hmove : Move limit s event s')
    (hasked : ∀ now, event.at? = some now → now ∈ past) : Bounded limit past s' := by
  cases hmove with
  | idle faults => exact h.shrink (fun _ => le_rfl) (.inl rfl)
  | lock r hfree hcall hat hphase =>
    refine ⟨h.bound, ?_, ?_⟩
    · intro r' hr'
      rw [← Option.some.inj hr']
      exact hasked r.now hat
    · intro r' hr' hinserting
      rw [← Option.some.inj hr'] at hinserting
      exact absurd hinserting hphase
  | refuse answer hanswer => exact h.shrink (fun _ => le_rfl) (.inl rfl)
  | answer r hholder answer hanswer => exact h.shrink (fun _ => le_rfl) (.inr rfl)
  | phase r hholder phase hroom =>
    refine ⟨h.bound, ?_, ?_⟩
    · intro r' hr'
      rw [← Option.some.inj hr']
      exact h.asked r hholder
    · intro r' hr' hinserting
      rw [← Option.some.inj hr'] at hinserting ⊢
      exact hroom hinserting
  | reserve r hholder hphase root => exact h.insert hholder hphase rfl rfl
  | allow r hholder hphase => exact h.insert hholder hphase rfl rfl
  | hold id hnew hqueued => exact h.shrink (fun _ => le_rfl) (.inl rfl)
  | drop id faults => exact h.shrink (fun _ => le_rfl) (.inl rfl)
  | refund id hevent hheld hone => exact h.shrink (fun now => usage_filter_le _ now) (.inl rfl)
  | clean now hevent => exact h.shrink (fun later => usage_filter_le _ later) (.inl rfl)
  | claim id attempt hfree run hrun hactive => exact h.shrink (fun _ => le_rfl) (.inl rfl)
  | settle id status hfree hstatus hactive => exact h.shrink (fun _ => le_rfl) (.inl rfl)

end Bound

section Answers
variable {s s' : State κ}

theorem count_of_unanswered (h : Answered s) {call : ℕ} (hnew : call ∉ s.answers.map Prod.fst) :
    s.inserted.countP (fun c => c.call = call) = 0 := by
  refine countP_eq_zero.mpr (fun c hc hsame => hnew ?_)
  exact of_decide_eq_true hsame ▸ h.known c hc

theorem Answered.answer (h : Answered s) {call : ℕ} (hnew : call ∉ s.answers.map Prod.fst)
    {a : Answer} {p : List Charge}
    (hpaid : p.length = if a.charges then 1 else 0)
    (hcall : ∀ c ∈ p, c.call = call ∧
      ∀ id, c.discoveryRunId = some id → a = .reserved id)
    (hlt : call < s'.calls) (hcalls : s.calls ≤ s'.calls)
    (hanswers : s'.answers = s.answers ++ [(call, a)])
    (hinserted : s'.inserted = s.inserted ++ p) (hcharges : s'.charges = s.charges ++ p)
    (hholder : ∀ r, s'.holder = some r → s.holder = some r ∧ r.call ≠ call) : Answered s' := by
  have hcount : ∀ own, p.countP (fun c => c.call = own) =
      if own = call then p.length else 0 := by
    intro own
    split
    · next hown =>
      refine countP_eq_length.mpr (fun c hc => ?_)
      exact decide_eq_true ((hcall c hc).1.trans hown.symm)
    · next hown =>
      refine countP_eq_zero.mpr (fun c hc hsame => hown ?_)
      exact (of_decide_eq_true hsame).symm.trans (hcall c hc).1
  constructor
  · intro e he
    rw [hanswers] at he
    rcases mem_append.mp he with hin | hin
    · exact lt_of_lt_of_le (h.called e hin) hcalls
    · rw [mem_singleton.mp hin]
      exact hlt
  · rw [hanswers, map_append]
    refine nodup_append.mpr ⟨h.once, nodup_singleton _, ?_⟩
    intro own hown new hin heq
    rw [heq, mem_singleton.mp hin] at hown
    exact hnew hown
  · intro r hr
    obtain ⟨hold, hne⟩ := hholder r hr
    obtain ⟨hrlt, hout⟩ := h.held r hold
    refine ⟨lt_of_lt_of_le hrlt hcalls, ?_⟩
    rw [hanswers, map_append]
    intro hin
    rcases mem_append.mp hin with hin' | hin'
    · exact hout hin'
    · exact hne (mem_singleton.mp hin')
  · intro e he
    rw [hanswers] at he
    rw [hinserted, countP_append, hcount]
    rcases mem_append.mp he with hin | hin
    · have hne : e.1 ≠ call := fun heq => hnew (heq ▸ mem_map_of_mem hin)
      rw [if_neg hne, h.paid e hin, Nat.add_zero]
    · rw [mem_singleton.mp hin, if_pos rfl, count_of_unanswered h hnew, hpaid, Nat.zero_add]
  · intro c hc
    rw [hinserted] at hc
    rw [hanswers, map_append]
    rcases mem_append.mp hc with hin | hin
    · exact mem_append_left _ (h.known c hin)
    · apply mem_append_right
      rw [(hcall c hin).1]
      exact mem_singleton_self _
  · intro c hc id hid
    rw [hinserted] at hc
    rw [hanswers]
    rcases mem_append.mp hc with hin | hin
    · exact mem_append_left _ (h.named c hin id hid)
    · apply mem_append_right
      rw [(hcall c hin).1, (hcall c hin).2 id hid]
      exact mem_singleton_self _
  · intro c hc
    rw [hcharges] at hc
    rw [hinserted]
    rcases mem_append.mp hc with hin | hin
    · exact mem_append_left _ (h.kept c hin)
    · exact mem_append_right _ hin

theorem Answered.same (h : Answered s) (hanswers : s'.answers = s.answers)
    (hcalls : s'.calls = s.calls) (hinserted : s'.inserted = s.inserted)
    (hholder : ∀ r, s'.holder = some r → ∃ r', s.holder = some r' ∧ r.call = r'.call)
    (hcharges : ∀ c ∈ s'.charges, c ∈ s.charges) : Answered s' := by
  constructor
  · rw [hanswers, hcalls]
    exact h.called
  · rw [hanswers]
    exact h.once
  · intro r hr
    obtain ⟨r', hr', hcall⟩ := hholder r hr
    rw [hanswers, hcalls, hcall]
    exact h.held r' hr'
  · rw [hanswers, hinserted]
    exact h.paid
  · rw [hanswers, hinserted]
    exact h.known
  · rw [hanswers, hinserted]
    exact h.named
  · intro c hc
    rw [hinserted]
    exact h.kept c (hcharges c hc)

theorem Answered.move (h : Answered s) {event : Event κ} (hmove : Move limit s event s') :
    Answered s' := by
  have hcalls : s.calls ∉ s.answers.map Prod.fst := by
    intro hin
    obtain ⟨e, he, hcall⟩ := mem_map.mp hin
    have hlt := h.called e he
    omega
  have hown : ∀ {r : Reservation κ}, s.holder = some r →
      ∃ r', s.holder = some r' ∧ r.call = r'.call := fun {r} hr => ⟨r, hr, rfl⟩
  cases hmove with
  | idle faults => exact h.same rfl rfl rfl (fun _ hr => hown hr) (fun _ hc => hc)
  | lock r hfree hcall hat hphase =>
    have hnext : ∀ e ∈ s.answers, e.1 < s.calls + 1 :=
      fun e he => Nat.lt_succ_of_lt (h.called e he)
    refine ⟨hnext, h.once, ?_, h.paid, h.known, h.named, h.kept⟩
    intro r' hr'
    rw [← Option.some.inj hr', hcall]
    exact ⟨Nat.lt_succ_self _, hcalls⟩
  | refuse answer hanswer =>
    refine h.answer (p := []) hcalls (by rw [hanswer]; rfl)
      (fun c hc => absurd hc not_mem_nil) (Nat.lt_succ_self _) (Nat.le_succ _) rfl
      (append_nil _).symm (append_nil _).symm ?_
    intro r hr
    exact ⟨hr, Nat.ne_of_lt (h.held r hr).1⟩
  | answer r hholder answer hanswer =>
    obtain ⟨hlt, hnew⟩ := h.held r hholder
    exact h.answer (p := []) hnew (by rw [hanswer]; rfl)
      (fun c hc => absurd hc not_mem_nil) hlt le_rfl rfl
      (append_nil _).symm (append_nil _).symm nofun
  | phase r hholder phase hroom =>
    refine h.same rfl rfl rfl ?_ (fun _ hc => hc)
    intro r' hr'
    refine ⟨r, hholder, ?_⟩
    rw [← Option.some.inj hr']
  | reserve r hholder hphase root =>
    obtain ⟨hlt, hnew⟩ := h.held r hholder
    refine h.answer (a := .reserved s.runs) hnew rfl ?_ hlt le_rfl rfl rfl rfl nofun
    intro c hc
    rw [mem_singleton.mp hc]
    exact ⟨rfl, fun id hid => congrArg Answer.reserved (Option.some.inj hid)⟩
  | allow r hholder hphase =>
    obtain ⟨hlt, hnew⟩ := h.held r hholder
    refine h.answer (a := .allowed) hnew rfl ?_ hlt le_rfl rfl rfl rfl nofun
    intro c hc
    rw [mem_singleton.mp hc]
    exact ⟨rfl, nofun⟩
  | hold id hnew hqueued => exact h.same rfl rfl rfl (fun _ hr => hown hr) (fun _ hc => hc)
  | drop id faults => exact h.same rfl rfl rfl (fun _ hr => hown hr) (fun _ hc => hc)
  | refund id hevent hheld hone =>
    exact h.same rfl rfl rfl (fun _ hr => hown hr) (fun _ hc => mem_of_mem_filter hc)
  | clean now hevent =>
    exact h.same rfl rfl rfl (fun _ hr => hown hr) (fun _ hc => mem_of_mem_filter hc)
  | claim id attempt hfree run hrun hactive =>
    exact h.same rfl rfl rfl (fun _ hr => hown hr) (fun _ hc => hc)
  | settle id status hfree hstatus hactive =>
    exact h.same rfl rfl rfl (fun _ hr => hown hr) (fun _ hc => hc)

end Answers

end SlashWho.SearchCharges
