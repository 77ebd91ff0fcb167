import SlashWho.SearchChargeRuns

/-!
The bucket's promises over whole runs. At an instant that no operation so far
was asked for after, the bucket holds at most the limit. A reservation comes
with one charge if it was granted and with none otherwise. A charge goes when it
was cleaned up or when its own run's cancel succeeds, which happens once, and
never to a run that was claimed.
-/

namespace SlashWho.SearchCharges

open List

variable {κ : Type*} {limit : ℕ}

variable {s s' : State κ}

theorem statusOf_setStatus (s : State κ) (id own : ℕ) (status : Status) :
    (s.setStatus id status).statusOf own =
      if own = id then (s.statusOf id).map (fun _ => status) else s.statusOf own := by
  unfold State.statusOf State.setStatus
  by_cases hown : own = id
  · subst hown
    dsimp only
    rw [Function.update_self, if_pos rfl]
    cases s.run own with
    | none => rfl
    | some run => rfl
  · dsimp only
    rw [Function.update_of_ne hown, if_neg hown]

variable {id : ℕ}

theorem run_setStatus_eq_none {s : State κ} {own : ℕ} (h : s.run own = none) (status : Status) :
    (s.setStatus id status).run own = none := by
  unfold State.setStatus
  by_cases hown : own = id
  · subst hown
    dsimp only
    rw [Function.update_self, h]
    rfl
  · dsimp only
    rw [Function.update_of_ne hown]
    exact h

theorem Rowed.lt_of_status (h : Rowed s) {status : Status} (hstatus : s.statusOf id = some status) :
    id < s.runs := by
  by_contra hout
  unfold State.statusOf at hstatus
  rw [h.fresh id (Nat.le_of_not_lt hout)] at hstatus
  cases hstatus

theorem Rowed.same (h : Rowed s) (hrun : s'.run = s.run) (hruns : s'.runs = s.runs)
    (hcancelling : s'.cancelling.Sublist s.cancelling) (hclaimed : s'.claimed = s.claimed)
    (hrefunded : s'.refunded = s.refunded) : Rowed s' := by
  have hstatus : s'.statusOf = s.statusOf := by
    unfold State.statusOf
    rw [hrun]
  constructor
  · rw [hrun, hruns]
    exact h.fresh
  · exact h.single.sublist hcancelling
  · intro id hid
    rw [hstatus]
    exact h.queued id (hcancelling.subset hid)
  · rw [hclaimed, hstatus]
    exact h.claimed
  · rw [hrefunded, hstatus]
    exact h.refunded
  · rw [hrefunded]
    exact h.once
  · rw [hclaimed, hrefunded]
    exact h.apart

/-- A new run is queued, and no run before it changes. -/
theorem Rowed.reserve (h : Rowed s) (root : κ) (hrun : s'.run =
      Function.update s.run s.runs (some ⟨root, .queued, 0⟩))
    (hruns : s'.runs = s.runs + 1) (hcancelling : s'.cancelling = s.cancelling)
    (hclaimed : s'.claimed = s.claimed) (hrefunded : s'.refunded = s.refunded) : Rowed s' := by
  have hstatus : ∀ {id : ℕ} {status : Status}, s.statusOf id = some status →
      s'.statusOf id = some status := by
    intro id status hold
    have hne : id ≠ s.runs := Nat.ne_of_lt (h.lt_of_status hold)
    unfold State.statusOf
    rw [hrun, Function.update_of_ne hne]
    exact hold
  constructor
  · intro id hid
    rw [hruns] at hid
    have hne : id ≠ s.runs := by omega
    rw [hrun, Function.update_of_ne hne]
    exact h.fresh id (by omega)
  · rw [hcancelling]
    exact h.single
  · rw [hcancelling]
    exact fun id hid => hstatus (h.queued id hid)
  · rw [hclaimed]
    intro id hid
    obtain ⟨status, hold, hne⟩ := h.claimed id hid
    exact ⟨status, hstatus hold, hne⟩
  · rw [hrefunded]
    exact fun id hid => hstatus (h.refunded id hid)
  · rw [hrefunded]
    exact h.once
  · rw [hclaimed, hrefunded]
    exact h.apart

theorem Rowed.refund (h : Rowed s) (hheld : id ∈ s.cancelling) (charges : List Charge) :
    Rowed { s.setStatus id .failed with
      cancelling := s.cancelling.erase id
      charges := charges
      refunded := s.refunded ++ [id] } := by
  have hqueued := h.queued id hheld
  have hother : ∀ {own : ℕ}, own ≠ id → (s.setStatus id .failed).statusOf own = s.statusOf own := by
    intro own hown
    rw [statusOf_setStatus, if_neg hown]
  constructor
  · exact fun own hown => run_setStatus_eq_none (h.fresh own hown) .failed
  · exact h.single.erase id
  · intro own hown
    obtain ⟨hne, hin⟩ := (h.single.mem_erase_iff).mp hown
    exact (hother hne).trans (h.queued own hin)
  · intro own hown
    obtain ⟨status, hstatus, hne⟩ := h.claimed own hown
    have hdiff : own ≠ id := by
      intro heq
      rw [heq, hqueued] at hstatus
      exact hne (Option.some.inj hstatus).symm
    exact ⟨status, (hother hdiff).trans hstatus, hne⟩
  · intro own hown
    change (s.setStatus id .failed).statusOf own = some .failed
    rcases mem_append.mp hown with hin | hin
    · rw [statusOf_setStatus, h.refunded own hin]
      split
      · next heq =>
        rw [heq] at hin
        rw [h.refunded id hin]
        rfl
      · rfl
    · rw [mem_singleton.mp hin, statusOf_setStatus, if_pos rfl, hqueued]
      rfl
  · refine nodup_append.mpr ⟨h.once, nodup_singleton _, ?_⟩
    intro own hown new hin heq
    rw [heq, mem_singleton.mp hin] at hown
    have hfailed := h.refunded id hown
    rw [hqueued] at hfailed
    cases hfailed
  · intro own hown hin
    rcases mem_append.mp hin with hold | hnew
    · exact h.apart own hown hold
    · rw [mem_singleton.mp hnew] at hown
      obtain ⟨status, hstatus, hne⟩ := h.claimed id hown
      rw [hqueued] at hstatus
      exact hne (Option.some.inj hstatus).symm

theorem Rowed.write (h : Rowed s) (hfree : id ∉ s.cancelling) {run : DiscoveryRun κ}
    (hrun : s.run id = some run) (hactive : run.status.active = true) {run' : DiscoveryRun κ}
    (hstatus : run'.status ≠ .queued) {claimed : List ℕ}
    (hclaimed : ∀ own ∈ claimed, own ∈ s.claimed ∨ own = id) :
    Rowed { s with run := Function.update s.run id (some run'), claimed := claimed } := by
  have hown : State.statusOf
      { s with run := Function.update s.run id (some run'), claimed := claimed } id =
        some run'.status := by
    unfold State.statusOf
    dsimp only
    rw [Function.update_self]
    rfl
  have hother : ∀ {own : ℕ}, own ≠ id → State.statusOf
      { s with run := Function.update s.run id (some run'), claimed := claimed } own =
        s.statusOf own := by
    intro own hne
    unfold State.statusOf
    dsimp only
    rw [Function.update_of_ne hne]
  have hlt : id < s.runs := h.lt_of_status (congrArg (Option.map DiscoveryRun.status) hrun)
  have hkept : id ∉ s.refunded := by
    intro hin
    have hfailed := h.refunded id hin
    unfold State.statusOf at hfailed
    rw [hrun] at hfailed
    rw [Option.some.inj hfailed] at hactive
    cases hactive
  constructor
  · intro own howns
    change s.runs ≤ own at howns
    have hne : own ≠ id := by omega
    change Function.update s.run id (some run') own = none
    rw [Function.update_of_ne hne]
    exact h.fresh own howns
  · exact h.single
  · intro own howns
    exact (hother (fun heq => hfree (heq ▸ howns))).trans (h.queued own howns)
  · intro own howns
    by_cases hsame : own = id
    · rw [hsame]
      exact ⟨_, hown, hstatus⟩
    · rcases hclaimed own howns with hold | hnew
      · obtain ⟨status, hold', hne⟩ := h.claimed own hold
        exact ⟨status, (hother hsame).trans hold', hne⟩
      · exact absurd hnew hsame
  · intro own howns
    exact (hother (fun heq => hkept (heq ▸ howns))).trans (h.refunded own howns)
  · exact h.once
  · intro own howns hin
    rcases hclaimed own howns with hold | hnew
    · exact h.apart own hold hin
    · exact hkept (hnew ▸ hin)

theorem Rowed.move (h : Rowed s) {event : Event κ} (hmove : Move limit s event s') :
    Rowed s' := by
  cases hmove with
  | idle faults => exact h.same rfl rfl (List.Sublist.refl _) rfl rfl
  | lock r hfree hcall hat hphase => exact h.same rfl rfl (List.Sublist.refl _) rfl rfl
  | refuse answer hanswer => exact h.same rfl rfl (List.Sublist.refl _) rfl rfl
  | answer r hholder answer hanswer => exact h.same rfl rfl (List.Sublist.refl _) rfl rfl
  | phase r hholder phase hroom => exact h.same rfl rfl (List.Sublist.refl _) rfl rfl
  | reserve r hholder hphase root => exact h.reserve root rfl rfl rfl rfl rfl
  | allow r hholder hphase => exact h.same rfl rfl (List.Sublist.refl _) rfl rfl
  | hold id hnew hqueued =>
    refine ⟨h.fresh, nodup_cons.mpr ⟨hnew, h.single⟩, ?_, h.claimed, h.refunded, h.once,
      h.apart⟩
    intro own hown
    rcases mem_cons.mp hown with hsame | hin
    · rw [hsame]
      exact hqueued
    · exact h.queued own hin
  | drop id faults => exact h.same rfl rfl erase_sublist rfl rfl
  | refund id hevent hheld hone => exact h.refund hheld _
  | clean now hevent => exact h.same rfl rfl (List.Sublist.refl _) rfl rfl
  | claim id attempt hfree run hrun hactive =>
    refine h.write hfree hrun hactive (by intro hqueued; cases hqueued) ?_
    intro own hown
    rcases mem_append.mp hown with hin | hin
    · exact .inl hin
    · exact .inr (mem_singleton.mp hin)
  | settle id status hfree hstatus hactive =>
    cases hrun : s.run id with
    | none =>
      unfold State.statusOf at hactive
      rw [hrun] at hactive
      cases hactive
    | some run =>
      unfold State.statusOf at hactive
      rw [hrun] at hactive
      unfold State.setStatus
      rw [hrun]
      have hmoved : ({ run with status := status } : DiscoveryRun κ).status ≠ .queued := hstatus
      exact h.write hfree hrun hactive hmoved (fun own hown => .inl hown)

theorem exists_only {α : Type*} {p : α → Bool} {l : List α} (h : l.countP p = 1) :
    ∃ before c after, l = before ++ c :: after ∧ p c = true ∧
      l.filter (fun x => !p x) = before ++ after := by
  induction l with
  | nil => cases h
  | cons x rest ih =>
    cases hx : p x with
    | true =>
      rw [countP_cons_of_pos hx] at h
      have hnone : ∀ y ∈ rest, (!p y) = true := by
        intro y hy
        have hzero : rest.countP p = 0 := by omega
        have hout := countP_eq_zero.mp hzero y hy
        simpa using hout
      refine ⟨[], x, rest, rfl, hx, ?_⟩
      rw [filter_cons_of_neg (by rw [hx]; decide), filter_eq_self.mpr hnone,
        nil_append]
    | false =>
      rw [countP_cons_of_neg (by rw [hx]; decide)] at h
      obtain ⟨before, c, after, hrest, hc, hfilter⟩ := ih h
      refine ⟨x :: before, c, after, by rw [hrest]; rfl, hc, ?_⟩
      rw [filter_cons_of_pos (by rw [hx]; decide), hfilter, cons_append]

/-- What one event does to the charges: nothing; it adds one, with the answer that
comes with it; it removes what has expired; or it refunds a run of its own charge. -/
inductive Charged (s s' : State κ) (event : Event κ) : Prop
  | same (hcharges : s'.charges = s.charges) (hrefunded : s'.refunded = s.refunded)
  | added (c : Charge) (answer : Answer) (hanswer : answer.charges = true)
      (hanswers : s'.answers = s.answers ++ [(c.call, answer)])
      (hcharges : s'.charges = s.charges ++ [c]) (hrefunded : s'.refunded = s.refunded)
  | expired (now : ℤ) (hevent : event = .cleanupExpired now)
      (hcharges : s'.charges = s.charges.filter (fun c => now < c.expiresAt))
      (hrefunded : s'.refunded = s.refunded)
  | refunded (id : ℕ) (hevent : event = .finishCancel id) (before after : List Charge) (c : Charge)
      (hcharge : c.discoveryRunId = some id) (hanswer : (c.call, .reserved id) ∈ s.answers)
      (hbefore : s.charges = before ++ c :: after) (hafter : s'.charges = before ++ after)
      (hrefunded : s'.refunded = s.refunded ++ [id])

theorem Answered.charged (h : Answered s) {event : Event κ} (hmove : Move limit s event s') :
    Charged s s' event := by
  cases hmove with
  | idle faults => exact .same rfl rfl
  | lock r hfree hcall hat hphase => exact .same rfl rfl
  | refuse answer hanswer => exact .same rfl rfl
  | answer r hholder answer hanswer => exact .same rfl rfl
  | phase r hholder phase hroom => exact .same rfl rfl
  | reserve r hholder hphase root =>
    exact .added ⟨r.call, some s.runs, r.expiresAt⟩ (.reserved s.runs) rfl rfl rfl rfl
  | allow r hholder hphase => exact .added ⟨r.call, none, r.expiresAt⟩ .allowed rfl rfl rfl rfl
  | hold id hnew hqueued => exact .same rfl rfl
  | drop id faults => exact .same rfl rfl
  | refund id hevent hheld hone =>
    obtain ⟨before, c, after, hbefore, hc, hafter⟩ := exists_only hone
    have hid : c.discoveryRunId = some id := of_decide_eq_true hc
    have hin : c ∈ s.charges := by
      rw [hbefore]
      exact mem_append_right _ mem_cons_self
    refine .refunded id hevent before after c hid (h.named c (h.kept c hin) id hid) hbefore ?_ rfl
    rw [← hafter]
    exact filter_congr (fun x _ => decide_not)
  | clean now hevent => exact .expired now hevent rfl rfl
  | claim id attempt hfree run hrun hactive => exact .same rfl rfl
  | settle id status hfree hstatus hactive => exact .same rfl rfl

variable [DecidableEq κ]

theorem kept_after (limit : ℕ) (events : List (Event κ)) :
    Bounded limit (events.filterMap Event.at?) (Runs.after (step limit) State.initial events) ∧
      Answered (Runs.after (step limit) (State.initial : State κ) events) ∧
      Rowed (Runs.after (step limit) (State.initial : State κ) events) := by
  refine Runs.keeps_history (fun events (s : State κ) =>
    Bounded limit (events.filterMap Event.at?) s ∧ Answered s ∧ Rowed s) ?_ ?_ events
  · refine ⟨⟨fun _ _ => Nat.zero_le _, nofun, nofun⟩, ⟨?_, nodup_nil, nofun, ?_, ?_, ?_, ?_⟩,
      ⟨fun _ _ => rfl, nodup_nil, ?_, ?_, ?_, nodup_nil, ?_⟩⟩
    all_goals intro _ h; exact absurd h not_mem_nil
  · intro before event h
    obtain ⟨hbounded, hanswered, hrowed⟩ := h
    have hmove : Move limit (Runs.after (step limit) State.initial before) event _ :=
      move_step _ event
    refine ⟨?_, hanswered.move hmove, hrowed.move hmove⟩
    rw [filterMap_append]
    have hpast : Bounded limit
        (before.filterMap Event.at? ++ [event].filterMap Event.at?)
        (Runs.after (step limit) State.initial before) := by
      refine ⟨?_, ?_, hbounded.room⟩
      · exact fun now hnow => hbounded.bound now (fun t ht => hnow t (mem_append_left _ ht))
      · exact fun r hr => mem_append_left _ (hbounded.asked r hr)
    refine hpast.move hmove ?_
    intro now hat
    apply mem_append_right
    exact mem_filterMap.mpr ⟨event, mem_singleton_self _, hat⟩

end SlashWho.SearchCharges
