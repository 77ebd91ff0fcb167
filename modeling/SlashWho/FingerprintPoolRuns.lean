import SlashWho.CallLedgers
import SlashWho.FingerprintPool

/-!
What the parser pool keeps through every order of parses, replies, stops and closing. Each thread
holds its parses under the ids it was sent, and every parse it holds has its message unread, its
reply on the way, or the thread's exit still to be told. Over all threads the calls are a ledger:
each is settled once, with the fingerprint of its own body, or held by one thread.
-/

namespace SlashWho.FingerprintParser

open List

variable {Body : Type*} {decode : Body → Option Value} {size : ℚ}

/-- What holds of one thread, whose ids are below a bound. -/
structure ThreadSound (decode : Body → Option Value) (bound : ℕ) (th : PoolThread Body) :
    Prop where
  ids : ∀ id p, th.pending.get? id = some p → id < bound
  sent : ∀ m ∈ th.inbox, m.1 < bound ∧ ∀ p, th.pending.get? m.1 = some p → m.2 = p.body
  replied : ∀ m ∈ th.outbox,
    m.1 < bound ∧ ∀ p, th.pending.get? m.1 = some p → m.2 = reply decode p.body
  dead : th.dead = true → ∀ id, th.pending.get? id = none
  exited : th.stage = .exited → th.dead = true
  reads : th.inbox ≠ [] → th.stage = .running
  owed : ∀ id p, th.pending.get? id = some p →
    (∃ body, (id, body) ∈ th.inbox) ∨ (∃ pairs, (id, pairs) ∈ th.outbox) ∨ th.stage = .ended
  refd : ∀ id p, th.pending.get? id = some p → th.refd = true

variable {bound : ℕ} {th : PoolThread Body}

theorem threadSound_fresh (decode : Body → Option Value) (bound : ℕ) :
    ThreadSound decode bound Pool.fresh where
  ids := by
    intro id p h
    cases h
  sent := fun m hm => absurd hm not_mem_nil
  replied := fun m hm => absurd hm not_mem_nil
  dead := by
    intro h
    cases h
  exited := by
    intro h
    cases h
  reads := fun h => absurd rfl h
  owed := by
    intro id p h
    cases h
  refd := by
    intro id p h
    cases h

theorem ThreadSound.mono (h : ThreadSound decode bound th) {bound' : ℕ} (hle : bound ≤ bound') :
    ThreadSound decode bound' th :=
  { h with
    ids := fun id p hp => lt_of_lt_of_le (h.ids id p hp) hle
    sent := fun m hm => ⟨lt_of_lt_of_le (h.sent m hm).1 hle, (h.sent m hm).2⟩
    replied := fun m hm => ⟨lt_of_lt_of_le (h.replied m hm).1 hle, (h.replied m hm).2⟩ }

theorem ThreadSound.free (h : ThreadSound decode bound th) : th.pending.get? bound = none := by
  cases hp : th.pending.get? bound with
  | none => rfl
  | some p => exact absurd (h.ids bound p hp) (lt_irrefl bound)

/-- A map has an entry unless it has none. -/
theorem entries_ne_nil {κ ν : Type*} [DecidableEq κ] {m : OrderedMap κ ν} {k : κ} {v : ν}
    (h : m.get? k = some v) : m.entries.length ≠ 0 := by
  intro hlength
  have hin := (m.mem_entries_iff k v).mpr h
  rw [eq_nil_of_length_eq_zero hlength] at hin
  exact absurd hin not_mem_nil

/-- A thread that lives takes a parse under the next id. -/
theorem ThreadSound.post (h : ThreadSound decode bound th) (hlive : th.dead = false)
    (body : Body) (call : ℕ) :
    ThreadSound decode (bound + 1)
      { th with
        pending := th.pending.set bound ⟨body, call⟩
        refd := if th.pending.entries.length = 0 then true else th.refd
        inbox := if th.stage = .running then th.inbox ++ [(bound, body)] else th.inbox } := by
  have hget : ∀ id, id ≠ bound → (th.pending.set bound ⟨body, call⟩).get? id =
      th.pending.get? id := fun id hid => th.pending.get?_set_ne _ hid
  have hold : ∀ {id : ℕ}, id < bound → id ≠ bound := fun hlt => Nat.ne_of_lt hlt
  constructor
  · intro id p hp
    by_cases hid : id = bound
    · omega
    · change (th.pending.set bound _).get? id = _ at hp
      rw [hget id hid] at hp
      exact Nat.lt_succ_of_lt (h.ids id p hp)
  · intro m hm
    have hcases : m ∈ th.inbox ∨ m = (bound, body) := by
      dsimp only at hm
      split at hm
      · rcases mem_append.mp hm with hin | hin
        · exact .inl hin
        · exact .inr (mem_singleton.mp hin)
      · exact .inl hm
    rcases hcases with hin | hnew
    · obtain ⟨hlt, hbody⟩ := h.sent m hin
      refine ⟨Nat.lt_succ_of_lt hlt, fun p hp => hbody p ?_⟩
      rw [← hget m.1 (hold hlt)]
      exact hp
    · subst hnew
      refine ⟨Nat.lt_succ_self _, fun p hp => ?_⟩
      change (th.pending.set bound _).get? bound = _ at hp
      rw [OrderedMap.get?_set_self, Option.some.injEq] at hp
      rw [← hp]
  · intro m hm
    obtain ⟨hlt, hreply⟩ := h.replied m hm
    refine ⟨Nat.lt_succ_of_lt hlt, fun p hp => hreply p ?_⟩
    rw [← hget m.1 (hold hlt)]
    exact hp
  · intro hdead
    change th.dead = true at hdead
    rw [hlive] at hdead
    cases hdead
  · exact h.exited
  · intro hinbox
    by_cases hrunning : th.stage = .running
    · exact hrunning
    · dsimp only at hinbox
      rw [if_neg hrunning] at hinbox
      exact h.reads hinbox
  · intro id p hp
    by_cases hid : id = bound
    · subst hid
      cases hstage : th.stage with
      | running =>
        left
        refine ⟨body, ?_⟩
        dsimp only
        rw [if_pos rfl]
        exact mem_append_right _ (mem_singleton_self _)
      | ended => exact .inr (.inr rfl)
      | exited =>
        have hdead := h.exited hstage
        rw [hlive] at hdead
        cases hdead
    · change (th.pending.set bound _).get? id = _ at hp
      rw [hget id hid] at hp
      rcases h.owed id p hp with ⟨own, hin⟩ | hother
      · left
        refine ⟨own, ?_⟩
        dsimp only
        split
        · exact mem_append_left _ hin
        · exact hin
      · exact .inr hother
  · intro id p hp
    change (if th.pending.entries.length = 0 then true else th.refd) = true
    by_cases hid : id = bound
    · by_cases hempty : th.pending.entries.length = 0
      · rw [if_pos hempty]
      · rw [if_neg hempty]
        obtain ⟨⟨id', p'⟩, hin⟩ := exists_mem_of_length_pos (Nat.pos_of_ne_zero hempty)
        exact h.refd id' p' ((th.pending.mem_entries_iff id' p').mp hin)
    · change (th.pending.set bound _).get? id = _ at hp
      rw [hget id hid] at hp
      rw [if_neg (entries_ne_nil hp)]
      exact h.refd id p hp

/-- A message that could not be posted leaves what the thread held. -/
theorem ThreadSound.unpost (h : ThreadSound decode bound th) (body : Body) (call : ℕ) :
    ThreadSound decode (bound + 1)
      { th with
        pending := (th.pending.set bound ⟨body, call⟩).erase bound
        refd := if ((th.pending.set bound ⟨body, call⟩).erase bound).entries.length = 0 then false
          else if th.pending.entries.length = 0 then true else th.refd } := by
  have hget : ∀ id, ((th.pending.set bound ⟨body, call⟩).erase bound).get? id =
      th.pending.get? id := by
    intro id
    rw [OrderedMap.get?_erase]
    by_cases hid : id = bound
    · rw [if_pos hid, hid, h.free]
    · rw [if_neg hid, OrderedMap.get?_set_ne _ _ hid]
  have hnext := h.mono (Nat.le_succ bound)
  constructor
  · intro id p hp
    exact hnext.ids id p ((hget id).symm.trans hp)
  · intro m hm
    obtain ⟨hlt, hbody⟩ := hnext.sent m hm
    exact ⟨hlt, fun p hp => hbody p ((hget m.1).symm.trans hp)⟩
  · intro m hm
    obtain ⟨hlt, hreply⟩ := hnext.replied m hm
    exact ⟨hlt, fun p hp => hreply p ((hget m.1).symm.trans hp)⟩
  · intro hdead id
    exact (hget id).trans (h.dead hdead id)
  · exact h.exited
  · exact h.reads
  · intro id p hp
    exact h.owed id p ((hget id).symm.trans hp)
  · intro id p hp
    have hold := (hget id).symm.trans hp
    change (if _ then false else if _ then true else th.refd) = true
    rw [if_neg (entries_ne_nil hp), if_neg (entries_ne_nil hold)]
    exact h.refd id p hold

theorem ThreadSound.answer (h : ThreadSound decode bound th) {id : ℕ} {body : Body}
    {inbox : List (ℕ × Body)} (hinbox : th.inbox = (id, body) :: inbox) :
    ThreadSound decode bound
      { th with inbox := inbox, outbox := th.outbox ++ [(id, reply decode body)] } := by
  have hfirst : (id, body) ∈ th.inbox := hinbox ▸ mem_cons_self
  constructor
  · exact h.ids
  · intro m hm
    exact h.sent m (hinbox ▸ mem_cons_of_mem _ hm)
  · intro m hm
    rcases mem_append.mp hm with hin | hin
    · exact h.replied m hin
    · obtain ⟨hlt, hbody⟩ := h.sent _ hfirst
      rw [mem_singleton.mp hin]
      exact ⟨hlt, fun p hp => congrArg (reply decode) (hbody p hp)⟩
  · exact h.dead
  · exact h.exited
  · intro _
    exact h.reads (ne_nil_of_mem hfirst)
  · intro id' p hp
    rcases h.owed id' p hp with ⟨own, hin⟩ | ⟨pairs, hin⟩ | hended
    · rw [hinbox] at hin
      rcases mem_cons.mp hin with hsame | hrest
      · right
        left
        obtain ⟨hid, hbody⟩ := Prod.mk.inj hsame
        refine ⟨reply decode body, ?_⟩
        rw [hid]
        exact mem_append_right _ (mem_singleton_self _)
      · exact .inl ⟨own, hrest⟩
    · exact .inr (.inl ⟨pairs, mem_append_left _ hin⟩)
    · exact .inr (.inr hended)
  · exact h.refd

variable {outbox : List (ℕ × Option (List ℚ))}

/-- A reply arrives, and its parse is held no more. -/
theorem ThreadSound.message (h : ThreadSound decode bound th) {id : ℕ} {pairs : Option (List ℚ)}
    (houtbox : th.outbox = (id, pairs) :: outbox) :
    ThreadSound decode bound
      { th with
        outbox := outbox
        pending := th.pending.erase id
        refd := if (th.pending.erase id).entries.length = 0 then false else th.refd } := by
  have hget : ∀ {id' : ℕ} {p : Pending Body}, (th.pending.erase id).get? id' = some p →
      id' ≠ id ∧ th.pending.get? id' = some p := by
    intro id' p hp
    rw [OrderedMap.get?_erase] at hp
    by_cases hid : id' = id
    · rw [if_pos hid] at hp
      cases hp
    · rw [if_neg hid] at hp
      exact ⟨hid, hp⟩
  constructor
  · intro id' p hp
    exact h.ids id' p (hget hp).2
  · intro m hm
    obtain ⟨hlt, hbody⟩ := h.sent m hm
    exact ⟨hlt, fun p hp => hbody p (hget hp).2⟩
  · intro m hm
    obtain ⟨hlt, hreply⟩ := h.replied m (houtbox ▸ mem_cons_of_mem _ hm)
    exact ⟨hlt, fun p hp => hreply p (hget hp).2⟩
  · intro hdead id'
    change (th.pending.erase id).get? id' = none
    rw [OrderedMap.get?_erase, h.dead hdead id', ite_self]
  · exact h.exited
  · exact h.reads
  · intro id' p hp
    obtain ⟨hid, hold⟩ := hget hp
    rcases h.owed id' p hold with hin | ⟨own, hin⟩ | hended
    · exact .inl hin
    · right
      left
      rw [houtbox] at hin
      rcases mem_cons.mp hin with hsame | hrest
      · exact absurd (Prod.mk.inj hsame).1 hid
      · exact ⟨own, hrest⟩
    · exact .inr (.inr hended)
  · intro id' p hp
    change (if _ then false else th.refd) = true
    rw [if_neg (entries_ne_nil hp)]
    exact h.refd id' p (hget hp).2

/-- A late reply, whose parse is not held, changes nothing that is. -/
theorem ThreadSound.late (h : ThreadSound decode bound th) {id : ℕ} {pairs : Option (List ℚ)}
    (houtbox : th.outbox = (id, pairs) :: outbox) (hlate : th.pending.get? id = none) :
    ThreadSound decode bound { th with outbox := outbox } := by
  constructor
  · exact h.ids
  · exact h.sent
  · intro m hm
    exact h.replied m (houtbox ▸ mem_cons_of_mem _ hm)
  · exact h.dead
  · exact h.exited
  · exact h.reads
  · intro id' p hp
    change th.pending.get? id' = some p at hp
    rcases h.owed id' p hp with hin | ⟨own, hin⟩ | hended
    · exact .inl hin
    · right
      left
      rw [houtbox] at hin
      rcases mem_cons.mp hin with hsame | hrest
      · rw [(Prod.mk.inj hsame).1, hlate] at hp
        cases hp
      · exact ⟨own, hrest⟩
    · exact .inr (.inr hended)
  · exact h.refd

theorem ThreadSound.stop (h : ThreadSound decode bound th) :
    ThreadSound decode bound { th with stage := .ended, inbox := [] } := by
  constructor
  · exact h.ids
  · exact fun m hm => absurd hm not_mem_nil
  · exact h.replied
  · exact h.dead
  · intro hstage
    cases hstage
  · exact fun hinbox => absurd rfl hinbox
  · exact fun id p hp => .inr (.inr rfl)
  · exact h.refd

theorem ThreadSound.fail (h : ThreadSound decode bound th) :
    ThreadSound decode bound { th with dead := true, pending := OrderedMap.empty } := by
  have hnone : ∀ {id : ℕ} {p : Pending Body},
      (OrderedMap.empty : OrderedMap ℕ (Pending Body)).get? id ≠ some p := by
    intro id p hp
    cases hp
  constructor
  · exact fun id p hp => absurd hp hnone
  · exact fun m hm => ⟨(h.sent m hm).1, fun p hp => absurd hp hnone⟩
  · exact fun m hm => ⟨(h.replied m hm).1, fun p hp => absurd hp hnone⟩
  · exact fun _ id => OrderedMap.get?_empty id
  · exact fun _ => rfl
  · exact h.reads
  · exact fun id p hp => absurd hp hnone
  · exact fun id p hp => absurd hp hnone

theorem ThreadSound.exit (h : ThreadSound decode bound th) (hdead : th.dead = true)
    (hstage : th.stage = .ended) : ThreadSound decode bound { th with stage := .exited } := by
  constructor
  · exact h.ids
  · exact h.sent
  · exact h.replied
  · exact h.dead
  · exact fun _ => hdead
  · intro hinbox
    have hrunning := h.reads hinbox
    rw [hstage] at hrunning
    cases hrunning
  · intro id p hp
    have hnone := h.dead hdead id
    change th.pending.get? id = some p at hp
    rw [hnone] at hp
    cases hp
  · exact h.refd

/-- The parses held, by thread and id, each with its call and its body. -/
def Pool.held (s : Pool Body) (k : ℕ × ℕ) : Option (ℕ × Body) :=
  ((s.thread k.1).pending.get? k.2).map (fun p => (p.call, p.body))

/-- What every event keeps. -/
structure Sound (decode : Body → Option Value) (s : Pool Body) : Prop where
  threads : ∀ t, ThreadSound decode s.nextId (s.thread t)
  idle : ∀ t, s.spawned ≤ t → s.thread t = Pool.fresh
  pool : ∀ t ∈ s.threads, t < s.spawned
  ledger : CallLedgers.Ledger (fingerprintFromBytes decode) s.bodies s.settled s.held

variable {s : Pool Body}

theorem held_eq_some_iff {k : ℕ × ℕ} {e : ℕ × Body} :
    s.held k = some e ↔ (s.thread k.1).pending.get? k.2 = some ⟨e.2, e.1⟩ := by
  unfold Pool.held
  rw [Option.map_eq_some_iff]
  constructor
  · intro h
    obtain ⟨p, hp, he⟩ := h
    rw [hp, ← he]
  · intro h
    exact ⟨_, h, rfl⟩

theorem held_setThread (t : ℕ) (th : PoolThread Body) (k : ℕ × ℕ) :
    (s.setThread t th).held k =
      if k.1 = t then (th.pending.get? k.2).map (fun p => (p.call, p.body)) else s.held k := by
  unfold Pool.held Pool.setThread
  by_cases hk : k.1 = t
  · rw [if_pos hk, hk]
    dsimp only
    rw [Function.update_self]
  · rw [if_neg hk]
    dsimp only
    rw [Function.update_of_ne hk]

variable {t : ℕ}

theorem held_setThread_of_pending {th : PoolThread Body}
    (h : ∀ id, th.pending.get? id = (s.thread t).pending.get? id) :
    (s.setThread t th).held = s.held := by
  funext k
  rw [held_setThread]
  by_cases hk : k.1 = t
  · rw [if_pos hk, h, ← hk]
    rfl
  · rw [if_neg hk]

theorem Sound.change (h : Sound decode s) (ht : t < s.spawned) {th : PoolThread Body}
    (hth : ThreadSound decode s.nextId th) {settled : List (ℕ × Option AchievementFingerprint)}
    {deaths : List ℕ} (hledger : CallLedgers.Ledger (fingerprintFromBytes decode) s.bodies settled
      (s.setThread t th).held) :
    Sound decode { s.setThread t th with settled := settled, deaths := deaths } where
  threads := by
    intro t'
    change ThreadSound decode s.nextId (Function.update s.thread t th t')
    by_cases ht' : t' = t
    · rw [ht', Function.update_self]
      exact hth
    · rw [Function.update_of_ne ht']
      exact h.threads t'
  idle := by
    intro t' ht'
    change Function.update s.thread t th t' = _
    change s.spawned ≤ t' at ht'
    have hne : t' ≠ t := by omega
    rw [Function.update_of_ne hne]
    exact h.idle t' ht'
  pool := h.pool
  ledger := hledger

theorem Sound.lt_of_ne_fresh (h : Sound decode s) (hne : s.thread t ≠ Pool.fresh) :
    t < s.spawned := by
  by_contra hout
  exact hne (h.idle t (not_lt.mp hout))

theorem Sound.answer (h : Sound decode s) (t : ℕ) : Sound decode (s.answer decode t) := by
  unfold Pool.answer
  dsimp only
  cases hinbox : (s.thread t).inbox with
  | nil => exact h
  | cons m inbox =>
    have ht : t < s.spawned := by
      apply h.lt_of_ne_fresh
      intro hfresh
      rw [hfresh] at hinbox
      cases hinbox
    refine h.change ht ((h.threads t).answer hinbox) ?_
    rw [held_setThread_of_pending]
    · exact h.ledger
    · exact fun id => rfl

theorem Sound.stop (h : Sound decode s) (t : ℕ) : Sound decode (s.stop t) := by
  unfold Pool.stop
  by_cases hruns : t < s.spawned ∧ (s.thread t).stage = .running
  · simp only [if_pos hruns]
    refine h.change hruns.1 (h.threads t).stop ?_
    rw [held_setThread_of_pending]
    · exact h.ledger
    · exact fun id => rfl
  · simp only [if_neg hruns]
    exact h

theorem Sound.message (h : Sound decode s) (t : ℕ) : Sound decode (s.message t) := by
  unfold Pool.message
  dsimp only
  cases houtbox : (s.thread t).outbox with
  | nil => exact h
  | cons m outbox =>
    obtain ⟨id, pairs⟩ := m
    have ht : t < s.spawned := by
      apply h.lt_of_ne_fresh
      intro hfresh
      rw [hfresh] at houtbox
      cases houtbox
    unfold Pool.onMessage
    simp only [Pool.setThread, Function.update_self, Function.update_idem]
    cases hpending : (s.thread t).pending.get? id with
    | none =>
      dsimp only
      refine h.change ht ((h.threads t).late houtbox hpending) ?_
      rw [held_setThread_of_pending]
      · exact h.ledger
      · exact fun id => rfl
    | some p =>
      refine h.change ht ((h.threads t).message houtbox) ?_
      have hreply : fingerprintFromReply pairs = fingerprintFromBytes decode p.body := by
        have hpairs := ((h.threads t).replied _ (houtbox ▸ mem_cons_self)).2 p hpending
        change pairs = _ at hpairs
        rw [hpairs, fingerprintFromReply_reply]
      have hheld : s.held (t, id) = some (p.call, p.body) := held_eq_some_iff.mpr hpending
      rw [hreply]
      refine h.ledger.settle_one hheld ?_
      intro k
      rw [held_setThread]
      by_cases hk : k.1 = t
      · rw [if_pos hk, OrderedMap.get?_erase]
        by_cases hid : k.2 = id
        · rw [if_pos hid, if_pos (Prod.ext hk hid)]
          rfl
        · have hne : k ≠ (t, id) := fun heq => hid (congrArg Prod.snd heq)
          rw [if_neg hid, if_neg hne, ← hk]
          rfl
      · have hne : k ≠ (t, id) := fun heq => hk (congrArg Prod.fst heq)
        rw [if_neg hk, if_neg hne]

theorem Sound.fail (h : Sound decode s) (ht : t < s.spawned) :
    Sound decode (s.fail decode t) := by
  unfold Pool.fail
  by_cases hdead : (s.thread t).dead = true
  · simp only [if_pos hdead]
    exact h
  · simp only [if_neg hdead]
    refine h.change ht (h.threads t).fail ?_
    have hcalls : (s.thread t).pending.values.map
          (fun p => (p.call, fingerprintFromBytes decode p.body)) =
        ((s.thread t).pending.entries.map (fun e => ((t, e.1), (e.2.call, e.2.body)))).map
          (fun c => (c.2.1, fingerprintFromBytes decode c.2.2)) := by
      unfold OrderedMap.values
      rw [map_map, map_map]
      rfl
    rw [hcalls]
    refine h.ledger.settle ?_ ?_ ?_
    · rw [map_map]
      have hkeys : ((s.thread t).pending.entries.map Prod.fst).Nodup :=
        (s.thread t).pending.nodup_keys
      have hpairs := hkeys.map (f := fun id => (t, id)) (fun a b hab => congrArg Prod.snd hab)
      rw [map_map] at hpairs
      exact hpairs
    · intro c hc
      obtain ⟨e, he, hpair⟩ := mem_map.mp hc
      subst hpair
      exact held_eq_some_iff.mpr (((s.thread t).pending.mem_entries_iff e.1 e.2).mp he)
    · intro k
      rw [held_setThread]
      by_cases hk : k.1 = t
      · rw [if_pos hk]
        split
        · rfl
        · next hout =>
          cases hheld : s.held k with
          | none => rfl
          | some e =>
            rw [held_eq_some_iff, hk] at hheld
            have hin := ((s.thread t).pending.mem_entries_iff _ _).mpr hheld
            refine absurd ?_ hout
            rw [map_map]
            exact mem_map.mpr ⟨_, hin, Prod.ext hk.symm rfl⟩
      · rw [if_neg hk, if_neg]
        intro hin
        obtain ⟨c, hc, hkey⟩ := mem_map.mp hin
        obtain ⟨e, -, hpair⟩ := mem_map.mp hc
        subst hpair
        exact hk (congrArg Prod.fst hkey).symm

theorem dead_fail (s : Pool Body) (t : ℕ) : ((s.fail decode t).thread t).dead = true := by
  unfold Pool.fail
  by_cases hdead : (s.thread t).dead = true
  · simp only [if_pos hdead]
    exact hdead
  · simp only [if_neg hdead, Pool.setThread, Function.update_self]

theorem fail_fields (s : Pool Body) (t : ℕ) :
    (s.fail decode t).spawned = s.spawned ∧
      ((s.fail decode t).thread t).stage = (s.thread t).stage := by
  unfold Pool.fail
  by_cases hdead : (s.thread t).dead = true
  · simp only [if_pos hdead, and_self]
  · simp only [if_neg hdead, Pool.setThread, Function.update_self, and_self]

theorem Sound.exit (h : Sound decode s) (t : ℕ) : Sound decode (s.exit decode t) := by
  unfold Pool.exit
  by_cases hended : (s.thread t).stage = .ended
  · rw [if_pos hended]
    have ht : t < s.spawned := by
      apply h.lt_of_ne_fresh
      intro hfresh
      rw [hfresh] at hended
      cases hended
    obtain ⟨hspawned, hstage⟩ : (s.fail decode t).spawned = s.spawned ∧ _ := fail_fields s t
    have hfail := h.fail ht
    have hth := (hfail.threads t).exit (dead_fail s t) (hstage.trans hended)
    refine hfail.change (hspawned ▸ ht) hth ?_
    rw [held_setThread_of_pending]
    · exact hfail.ledger
    · exact fun id => rfl
  · rw [if_neg hended]
    exact h

end SlashWho.FingerprintParser
