import Mathlib.Algebra.Order.BigOperators.Group.Finset
import SlashWho.FingerprintPoolRuns

/-!
Every parse settles once. A parse finds a living thread, or is done at once; so
a run keeps the calls' ledger. Where nothing is under way any more (no message
unread by a thread that runs, no reply on its way, no exit to be told) no thread
holds a parse, and every call is settled. A run that is left alone gets there:
each answer, reply and exit leaves less under way.
-/

namespace SlashWho.FingerprintParser

open List

variable {Body : Type*} {decode : Body → Option Value} {size : ℚ}

variable {s : Pool Body}

theorem foldl_pick_mem (better : ℕ → ℕ → Prop) [DecidableRel better] (first : ℕ)
    (rest : List ℕ) :
    rest.foldl (fun least t => if better t least then t else least) first ∈ first :: rest := by
  induction rest generalizing first with
  | nil => exact mem_singleton_self first
  | cons t rest ih =>
    rw [foldl_cons]
    rcases mem_cons.mp (ih (if better t first then t else first)) with hfirst | hrest
    · rw [hfirst]
      split
      · exact mem_cons_of_mem _ mem_cons_self
      · exact mem_cons_self
    · exact mem_cons_of_mem _ (mem_cons_of_mem _ hrest)

/-- What picking a thread does: it drops the dead ones, and may start one. -/
structure Picked (s s' : Pool Body) (target : Option ℕ) : Prop where
  thread : s'.thread = s.thread
  spawned : s.spawned ≤ s'.spawned
  pool : ∀ t ∈ s'.threads, t < s'.spawned
  nextId : s'.nextId = s.nextId
  bodies : s'.bodies = s.bodies
  settled : s'.settled = s.settled
  target : ∀ t, target = some t → t < s'.spawned ∧ (s'.thread t).dead = false

theorem picked_pick (hidle : ∀ t, s.spawned ≤ t → s.thread t = Pool.fresh)
    (hpool : ∀ t ∈ s.threads, t < s.spawned) (size : ℚ) (spawns : Bool) :
    Picked s (s.pick size spawns).1 (s.pick size spawns).2 := by
  have hkept : ∀ t ∈ s.threads.filter (fun t => !(s.thread t).dead),
      t < s.spawned ∧ (s.thread t).dead = false := by
    intro t ht
    obtain ⟨hin, hlive⟩ := mem_filter.mp ht
    exact ⟨hpool t hin, by simpa using hlive⟩
  have hnone : Picked s
      { s with threads := s.threads.filter (fun t => !(s.thread t).dead) } none := by
    refine ⟨rfl, le_rfl, fun t ht => (hkept t ht).1, rfl, rfl, rfl, ?_⟩
    intro t ht
    cases ht
  unfold Pool.pick
  dsimp only
  by_cases hroom : ((s.threads.filter (fun t => !(s.thread t).dead)).length : ℚ) < size
  · rw [if_pos hroom]
    cases spawns with
    | false => exact hnone
    | true =>
      have hthread : Function.update s.thread s.spawned Pool.fresh = s.thread := by
        rw [← hidle s.spawned le_rfl, Function.update_eq_self]
      refine ⟨hthread, Nat.le_succ _, ?_, rfl, rfl, rfl, ?_⟩
      · intro t ht
        rcases mem_append.mp ht with hin | hin
        · exact Nat.lt_succ_of_lt (hkept t hin).1
        · rw [mem_singleton.mp hin]
          exact Nat.lt_succ_self _
      · intro t ht
        rw [← Option.some.inj ht]
        refine ⟨Nat.lt_succ_self _, ?_⟩
        change (Function.update s.thread s.spawned Pool.fresh s.spawned).dead = false
        rw [Function.update_self]
        rfl
  · rw [if_neg hroom]
    cases hthreads : s.threads.filter (fun t => !(s.thread t).dead) with
    | nil =>
      rw [hthreads] at hnone
      exact hnone
    | cons first rest =>
      rw [hthreads] at hkept
      refine ⟨rfl, le_rfl, fun t ht => (hkept t ht).1, rfl, rfl, rfl, ?_⟩
      intro t ht
      have hin := foldl_pick_mem (fun t least => s.pendingSize t < s.pendingSize least) first rest
      rw [← Option.some.inj ht]
      exact hkept _ hin

theorem sound_post (hthreads : ∀ t, ThreadSound decode s.nextId (s.thread t))
    (hidle : ∀ t, s.spawned ≤ t → s.thread t = Pool.fresh)
    (hpool : ∀ t ∈ s.threads, t < s.spawned) {asked : List Body} {body : Body}
    (hledger : CallLedgers.Ledger (fingerprintFromBytes decode) asked s.settled s.held)
    (hbodies : s.bodies = asked ++ [body]) {t : ℕ} (ht : t < s.spawned)
    (hlive : (s.thread t).dead = false) (posts : Bool) :
    Sound decode (s.post decode t asked.length body posts) := by
  have hfree : s.held (t, s.nextId) = none := by
    unfold Pool.held
    rw [(hthreads t).free]
    rfl
  have hother : ∀ t', ThreadSound decode (s.nextId + 1) (s.thread t') :=
    fun t' => (hthreads t').mono (Nat.le_succ _)
  have hall : ∀ {th : PoolThread Body}, ThreadSound decode (s.nextId + 1) th →
      ∀ t', ThreadSound decode (s.nextId + 1) (Function.update s.thread t th t') := by
    intro th hth t'
    by_cases ht' : t' = t
    · rw [ht', Function.update_self]
      exact hth
    · rw [Function.update_of_ne ht']
      exact hother t'
  have hidle' : ∀ (th : PoolThread Body) t', s.spawned ≤ t' →
      Function.update s.thread t th t' = Pool.fresh := by
    intro th t' ht'
    have hne : t' ≠ t := by omega
    rw [Function.update_of_ne hne]
    exact hidle t' ht'
  unfold Pool.post
  dsimp only
  cases posts with
  | true =>
    refine ⟨hall ((hthreads t).post hlive body asked.length), hidle' _, hpool, ?_⟩
    change CallLedgers.Ledger _ s.bodies s.settled _
    rw [hbodies]
    refine hledger.hold body hfree ?_
    intro k
    refine (held_setThread t _ k).trans ?_
    by_cases hk : k.1 = t
    · rw [if_pos hk, OrderedMap.get?_set]
      by_cases hid : k.2 = s.nextId
      · rw [if_pos hid, if_pos (Prod.ext hk hid)]
        rfl
      · have hne : k ≠ (t, s.nextId) := fun heq => hid (congrArg Prod.snd heq)
        rw [if_neg hid, if_neg hne, ← hk]
        rfl
    · have hne : k ≠ (t, s.nextId) := fun heq => hk (congrArg Prod.fst heq)
      rw [if_neg hk, if_neg hne]
      rfl
  | false =>
    rw [if_neg Bool.false_ne_true]
    refine ⟨hall ((hthreads t).unpost body asked.length), hidle' _, hpool, ?_⟩
    have hheld : ∀ id, (((s.thread t).pending.set s.nextId ⟨body, asked.length⟩).erase
        s.nextId).get? id = (s.thread t).pending.get? id := by
      intro id
      rw [OrderedMap.get?_erase]
      by_cases hid : id = s.nextId
      · rw [if_pos hid, hid, (hthreads t).free]
      · rw [if_neg hid, OrderedMap.get?_set_ne _ _ hid]
    change CallLedgers.Ledger _ s.bodies (s.settled ++ [_]) (Pool.held (Pool.setThread _ t _))
    rw [held_setThread_of_pending, hbodies]
    · exact hledger.answer body
    · exact hheld

theorem Sound.parse (h : Sound decode s) (size : ℚ) (body : Body) (spawns posts : Bool) :
    Sound decode (s.parse decode size body spawns posts) := by
  unfold Pool.parse
  dsimp only
  by_cases hclosed : s.closed = true
  · rw [if_pos hclosed]
    exact ⟨h.threads, h.idle, h.pool, h.ledger.answer body⟩
  · rw [if_neg hclosed]
    have hpicked := picked_pick (s := { s with bodies := s.bodies ++ [body] }) h.idle h.pool size
      spawns
    cases hpick : Pool.pick size spawns { s with bodies := s.bodies ++ [body] } with
    | mk s' target =>
      rw [hpick] at hpicked
      have hheld : s'.held = s.held := by
        funext k
        unfold Pool.held
        rw [hpicked.thread]
      have hthreads : ∀ t, ThreadSound decode s'.nextId (s'.thread t) := by
        intro t
        rw [hpicked.thread, hpicked.nextId]
        exact h.threads t
      have hidle : ∀ t, s'.spawned ≤ t → s'.thread t = Pool.fresh := by
        intro t ht
        rw [hpicked.thread]
        exact h.idle t (le_trans hpicked.spawned ht)
      cases target with
      | none =>
        refine ⟨hthreads, hidle, hpicked.pool, ?_⟩
        change CallLedgers.Ledger _ s'.bodies (s'.settled ++ [_]) s'.held
        rw [hheld, hpicked.bodies, hpicked.settled]
        exact h.ledger.answer body
      | some t =>
        obtain ⟨ht, hlive⟩ := hpicked.target t rfl
        refine sound_post hthreads hidle hpicked.pool ?_ hpicked.bodies ht hlive posts
        rw [hheld, hpicked.settled]
        exact h.ledger

theorem Sound.step (h : Sound decode s) (size : ℚ) (event : Event Body) :
    Sound decode (s.step decode size event) := by
  cases event with
  | parse body spawns posts => exact h.parse size body spawns posts
  | answer t => exact h.answer t
  | message t => exact h.message t
  | stop t => exact h.stop t
  | error t =>
    change Sound decode (if t < s.spawned then s.fail decode t else s)
    by_cases ht : t < s.spawned
    · rw [if_pos ht]
      exact h.fail ht
    · rw [if_neg ht]
      exact h
  | exit t => exact h.exit t
  | close => exact ⟨h.threads, h.idle, h.pool, h.ledger⟩

/-- The bodies that an event hands to the pool. -/
def Event.bodies : Event Body → List Body
  | .parse body _ _ => [body]
  | _ => []

theorem bodies_post (s : Pool Body) (t call : ℕ) (body : Body) (posts : Bool) :
    (s.post decode t call body posts).bodies = s.bodies := by
  unfold Pool.post
  cases posts with
  | true => rfl
  | false => rfl

theorem bodies_fail (s : Pool Body) (t : ℕ) : (s.fail decode t).bodies = s.bodies := by
  unfold Pool.fail
  by_cases hdead : (s.thread t).dead = true
  · simp only [if_pos hdead]
  · simp only [if_neg hdead, Pool.setThread]

theorem bodies_step {s : Pool Body} (h : Sound decode s) (event : Event Body) :
    (s.step decode size event).bodies = s.bodies ++ event.bodies := by
  cases event with
  | parse body spawns posts =>
    change (s.parse decode size body spawns posts).bodies = s.bodies ++ [body]
    unfold Pool.parse
    dsimp only
    by_cases hclosed : s.closed = true
    · rw [if_pos hclosed]
      rfl
    · rw [if_neg hclosed]
      have hpicked := picked_pick (s := { s with bodies := s.bodies ++ [body] }) h.idle h.pool
        size spawns
      cases hpick : Pool.pick size spawns { s with bodies := s.bodies ++ [body] } with
      | mk s' target =>
        rw [hpick] at hpicked
        cases target with
        | none => exact hpicked.bodies
        | some t =>
          dsimp only
          rw [bodies_post]
          exact hpicked.bodies
  | answer t =>
    change (s.answer decode t).bodies = s.bodies ++ []
    rw [append_nil]
    unfold Pool.answer
    dsimp only
    cases (s.thread t).inbox with
    | nil => rfl
    | cons m inbox => rfl
  | message t =>
    change (s.message t).bodies = s.bodies ++ []
    rw [append_nil]
    unfold Pool.message
    dsimp only
    cases (s.thread t).outbox with
    | nil => rfl
    | cons m outbox =>
      unfold Pool.onMessage
      dsimp only
      split
      · rfl
      · rfl
  | stop t =>
    change (s.stop t).bodies = s.bodies ++ []
    rw [append_nil]
    unfold Pool.stop
    dsimp only
    split
    · rfl
    · rfl
  | error t =>
    change (if t < s.spawned then s.fail decode t else s).bodies = s.bodies ++ []
    rw [append_nil]
    split
    · exact bodies_fail s t
    · rfl
  | exit t =>
    change (s.exit decode t).bodies = s.bodies ++ []
    rw [append_nil]
    unfold Pool.exit
    split
    · exact bodies_fail s t
    · rfl
  | close => exact (append_nil _).symm

theorem sound_initial : Sound decode (Pool.initial : Pool Body) where
  threads := fun _ => threadSound_fresh decode 0
  idle := fun _ _ => rfl
  pool := fun _ ht => absurd ht not_mem_nil
  ledger := CallLedgers.ledger_nil

theorem sound_after (size : ℚ) (events : List (Event Body)) :
    Sound decode (Runs.after (Pool.step decode size) Pool.initial events) ∧
      (Runs.after (Pool.step decode size) Pool.initial events).bodies =
        events.flatMap Event.bodies := by
  refine Runs.keeps_history
    (fun events (s : Pool Body) => Sound decode s ∧ s.bodies = events.flatMap Event.bodies)
    ⟨sound_initial, rfl⟩ ?_ events
  intro before event h
  obtain ⟨hsound, hbodies⟩ := h
  refine ⟨hsound.step size event, ?_⟩
  rw [bodies_step hsound, hbodies, flatMap_append, flatMap_singleton]

/-- What a thread still has to do or to tell. -/
def PoolThread.underWay (th : PoolThread Body) : ℕ :=
  2 * th.inbox.length + th.outbox.length + if th.stage = .ended then 1 else 0

def Pool.underWay (s : Pool Body) : ℕ := ∑ t ∈ Finset.range s.spawned, (s.thread t).underWay

/-- Nothing is under way: a thread that runs has read its messages, every reply
has arrived and every exit was told. -/
def Pool.Quiet (s : Pool Body) : Prop :=
  ∀ t < s.spawned, ((s.thread t).stage = .running → (s.thread t).inbox = []) ∧
    (s.thread t).outbox = [] ∧ (s.thread t).stage ≠ .ended

/-- An event by which something under way gets done or told. -/
inductive Event.Delivers : Event Body → Prop
  | answer (t : ℕ) : Event.Delivers (.answer t)
  | message (t : ℕ) : Event.Delivers (.message t)
  | exit (t : ℕ) : Event.Delivers (.exit t)

/-- A living thread that keeps the process alive has a message unread, a reply on
its way, or its exit still to be told. -/
def Pool.Owes (s : Pool Body) (t id : ℕ) : Prop :=
  (s.thread t).dead = false ∧ (s.thread t).refd = true ∧
    (((s.thread t).stage = .running ∧ ∃ body, (id, body) ∈ (s.thread t).inbox) ∨
      (∃ pairs, (id, pairs) ∈ (s.thread t).outbox) ∨ (s.thread t).stage = .ended)

theorem Sound.owed (h : Sound decode s) {k : ℕ × ℕ} {e : ℕ × Body} (hheld : s.held k = some e) :
    k.1 < s.spawned ∧ s.Owes k.1 k.2 := by
  have hget := held_eq_some_iff.mp hheld
  have hth := h.threads k.1
  refine ⟨?_, ?_, hth.refd _ _ hget, ?_⟩
  · apply h.lt_of_ne_fresh
    intro hfresh
    rw [hfresh] at hget
    cases hget
  · cases hdead : (s.thread k.1).dead with
    | false => rfl
    | true =>
      rw [hth.dead hdead] at hget
      cases hget
  · rcases hth.owed _ _ hget with ⟨body, hin⟩ | hother
    · exact .inl ⟨hth.reads (ne_nil_of_mem hin), body, hin⟩
    · exact .inr hother

theorem Sound.held_of_quiet (h : Sound decode s) (hquiet : s.Quiet) (k : ℕ × ℕ) :
    s.held k = none := by
  cases hheld : s.held k with
  | none => rfl
  | some e =>
    obtain ⟨hspawned, -, -, howed⟩ := h.owed hheld
    obtain ⟨hread, harrived, htold⟩ := hquiet k.1 hspawned
    rcases howed with ⟨hrunning, body, hin⟩ | ⟨pairs, hin⟩ | hended
    · rw [hread hrunning] at hin
      exact absurd hin not_mem_nil
    · rw [harrived] at hin
      exact absurd hin not_mem_nil
    · exact absurd hended htold

variable {t : ℕ}

theorem underWay_lt {s' : Pool Body} (ht : t < s.spawned) {th : PoolThread Body}
    (hthread : s'.thread = Function.update s.thread t th) (hspawned : s'.spawned = s.spawned)
    (hless : th.underWay < (s.thread t).underWay) : s'.underWay < s.underWay := by
  unfold Pool.underWay
  rw [hspawned, hthread]
  refine Finset.sum_lt_sum ?_ ⟨t, Finset.mem_range.mpr ht, ?_⟩
  · intro t' _
    by_cases ht' : t' = t
    · rw [ht', Function.update_self]
      exact le_of_lt hless
    · rw [Function.update_of_ne ht']
  · rw [Function.update_self]
    exact hless

theorem answer_underWay (ht : t < s.spawned) (hinbox : (s.thread t).inbox ≠ []) :
    (s.answer decode t).underWay < s.underWay := by
  obtain ⟨m, inbox, hcons⟩ := exists_cons_of_ne_nil hinbox
  unfold Pool.answer
  dsimp only
  rw [hcons]
  refine underWay_lt ht rfl rfl ?_
  unfold PoolThread.underWay
  rw [hcons]
  simp only [length_append, length_cons, length_nil]
  omega

theorem message_underWay (ht : t < s.spawned) (houtbox : (s.thread t).outbox ≠ []) :
    (s.message t).underWay < s.underWay := by
  obtain ⟨m, outbox, hcons⟩ := exists_cons_of_ne_nil houtbox
  have hless : ∀ (pending : OrderedMap ℕ (Pending Body)) (refd : Bool),
      PoolThread.underWay { s.thread t with outbox := outbox, pending := pending, refd := refd } <
        (s.thread t).underWay := by
    intro pending refd
    unfold PoolThread.underWay
    rw [hcons, length_cons]
    dsimp only
    omega
  unfold Pool.message Pool.onMessage
  dsimp only
  rw [hcons]
  simp only [Pool.setThread, Function.update_self, Function.update_idem]
  cases (s.thread t).pending.get? m.1 with
  | none => exact underWay_lt ht rfl rfl (hless _ _)
  | some p => exact underWay_lt ht rfl rfl (hless _ _)

theorem exit_underWay (ht : t < s.spawned) (hended : (s.thread t).stage = .ended) :
    (s.exit decode t).underWay < s.underWay := by
  have hless : ∀ (pending : OrderedMap ℕ (Pending Body)) (dead : Bool),
      PoolThread.underWay { s.thread t with stage := .exited, pending := pending, dead := dead } <
        (s.thread t).underWay := by
    intro pending dead
    unfold PoolThread.underWay
    rw [hended, if_pos rfl]
    exact Nat.lt_succ_self _
  unfold Pool.exit
  rw [if_pos hended]
  unfold Pool.fail
  by_cases hdead : (s.thread t).dead = true
  · simp only [if_pos hdead]
    exact underWay_lt ht rfl rfl (hless _ _)
  · simp only [if_neg hdead, Pool.setThread, Function.update_self, Function.update_idem]
    exact underWay_lt ht rfl rfl (hless _ _)

theorem exists_delivers (hquiet : ¬ s.Quiet) (size : ℚ) :
    ∃ event : Event Body, event.Delivers ∧ (s.step decode size event).underWay < s.underWay := by
  unfold Pool.Quiet at hquiet
  push Not at hquiet
  obtain ⟨t, ht, hbusy⟩ := hquiet
  by_cases houtbox : (s.thread t).outbox = []
  · by_cases hinbox : (s.thread t).stage = .running → (s.thread t).inbox = []
    · exact ⟨.exit t, .exit t, exit_underWay ht (hbusy hinbox houtbox)⟩
    · push Not at hinbox
      exact ⟨.answer t, .answer t, answer_underWay ht hinbox.2⟩
  · exact ⟨.message t, .message t, message_underWay ht houtbox⟩

theorem exists_quiet (size : ℚ) (s : Pool Body) :
    ∃ rest : List (Event Body), (∀ event ∈ rest, event.Delivers) ∧
      (Runs.after (Pool.step decode size) s rest).Quiet := by
  induction hn : s.underWay using Nat.strong_induction_on generalizing s with
  | _ n ih =>
    by_cases hquiet : s.Quiet
    · exact ⟨[], fun event hevent => absurd hevent not_mem_nil, hquiet⟩
    · obtain ⟨event, hdelivers, hless⟩ : ∃ event : Event Body, event.Delivers ∧
          (s.step decode size event).underWay < s.underWay := exists_delivers hquiet size
      obtain ⟨rest, hrest, hend⟩ := ih _ (hn ▸ hless) (s.step decode size event) rfl
      refine ⟨event :: rest, ?_, hend⟩
      intro e he
      rcases mem_cons.mp he with hsame | hin
      · rw [hsame]
        exact hdelivers
      · exact hrest e hin

/-- The call is settled once, with the fingerprint its own body gives. -/
def Pool.SettledOnce (decode : Body → Option Value) (s : Pool Body) (call : ℕ) (body : Body) :
    Prop :=
  s.settled.filter (fun e => e.1 = call) = [(call, fingerprintFromBytes decode body)]

/-- In every order of parses, answers, replies, stops, errors, exits and closing,
whatever the pool's size and whichever threads cannot be started or posted to,
each parse of the run is settled once, with the fingerprint its own body gives,
or is not settled and one thread still owes it. Once nothing is under way every
parse is settled, and answers, replies and exits alone get a run there. -/
theorem every_parse_settles_once (decode : Body → Option Value) (size : ℚ)
    (events : List (Event Body)) :
    (∀ call body, (events.flatMap Event.bodies)[call]? = some body →
      (Runs.after (Pool.step decode size) Pool.initial events).SettledOnce decode call body ∨
        (Runs.after (Pool.step decode size) Pool.initial events).settled.filter
            (fun e => e.1 = call) = [] ∧
          ∃ t id, (Runs.after (Pool.step decode size) Pool.initial events).held (t, id) =
              some (call, body) ∧
            (Runs.after (Pool.step decode size) Pool.initial events).Owes t id) ∧
      ((Runs.after (Pool.step decode size) Pool.initial events).Quiet →
        ∀ call body, (events.flatMap Event.bodies)[call]? = some body →
          (Runs.after (Pool.step decode size) Pool.initial events).SettledOnce decode call body) ∧
      (∀ e ∈ (Runs.after (Pool.step decode size) Pool.initial events).settled,
        e.1 < (events.flatMap Event.bodies).length) ∧
      ∃ rest : List (Event Body), (∀ event ∈ rest, event.Delivers) ∧
        (Runs.after (Pool.step decode size) Pool.initial (events ++ rest)).Quiet := by
  obtain ⟨hsound, hbodies⟩ :
      Sound decode (Runs.after (Pool.step decode size) Pool.initial events) ∧ _ :=
    sound_after size events
  have hanswers : ∀ call body, (events.flatMap Event.bodies)[call]? = some body →
      (Runs.after (Pool.step decode size) Pool.initial events).SettledOnce decode call body ∨
        ((Runs.after (Pool.step decode size) Pool.initial events).settled.filter
            (fun e => e.1 = call) = [] ∧
          ∃ k, (Runs.after (Pool.step decode size) Pool.initial events).held k =
            some (call, body)) := by
    intro call body hcall
    rw [← hbodies] at hcall
    exact hsound.ledger.answers hcall
  refine ⟨?_, ?_, ?_, ?_⟩
  · intro call body hcall
    rcases hanswers call body hcall with honce | ⟨hnone, k, hheld⟩
    · exact .inl honce
    · exact .inr ⟨hnone, k.1, k.2, hheld, (hsound.owed hheld).2⟩
  · intro hquiet call body hcall
    rcases hanswers call body hcall with honce | ⟨-, k, hheld⟩
    · exact honce
    · rw [hsound.held_of_quiet hquiet k] at hheld
      cases hheld
  · intro e he
    rw [← hbodies]
    exact hsound.ledger.lt_of_answered (mem_map_of_mem he)
  · obtain ⟨rest, hrest, hquiet⟩ : ∃ rest : List (Event Body), (∀ event ∈ rest, event.Delivers) ∧
        (Runs.after (Pool.step decode size)
          (Runs.after (Pool.step decode size) Pool.initial events) rest).Quiet :=
      exists_quiet size _
    refine ⟨rest, hrest, ?_⟩
    rw [Runs.after_append]
    exact hquiet

end SlashWho.FingerprintParser
