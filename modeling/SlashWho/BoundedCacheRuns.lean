import SlashWho.BoundedCache

/-!
What holds of the cache however calls and loads interleave. A request that is not done
with is the pending one of its key, and while it loads nothing is stored under that
key, so an entry is stored once and only ever taken out, put back as it was, or
dropped as the least recently used. Every answer was loaded for the key that asked.
-/

namespace SlashWho.BoundedCache

open List RecencyOrder

variable {α ε : Type}

/-- A request that is still pending. -/
def Phase.live : Phase α ε → Bool
  | .finished _ => false
  | _ => true

def Phase.result? : Phase α ε → Option (Except ε α)
  | .loading => none
  | .settled result => some result
  | .finished result => some result

/-- The entry was loaded for the key, and has the expiry it was stored with. -/
def Held (o : CacheOptions ε) (log : List (Event α ε)) (key : String) (entry : CacheEntry α ε) :
    Prop :=
  .loaded key entry.result ∈ log ∧
    ∃ at_, .stored key entry at_ ∈ log ∧ entryOf o at_ entry.result = some entry

/-- A hit had not expired and was loaded for its key, as was what a call was handed. -/
def JustifiedBy (o : CacheOptions ε) (before : List (Event α ε)) : Event α ε → Prop
  | .hit key entry at_ => Held o before key entry ∧ at_ < entry.expiresAt
  | .handed key result => .loaded key result ∈ before
  | _ => True

def Justified (o : CacheOptions ε) (log : List (Event α ε)) : Prop :=
  ∀ before event after, log = before ++ event :: after → JustifiedBy o before event

structure Inv (o : CacheOptions ε) (s : System α ε) : Prop where
  pendingBound : s.cache.pending.keys.length ≤ o.maxEntries
  entriesBound : s.cache.entries.keys.length ≤ o.maxEntries
  pendingLive : ∀ key id, s.cache.pending.get? key = some id →
    ∃ r, s.requests id = some r ∧ r.key = key ∧ r.phase.live = true
  livePending : ∀ id r, s.requests id = some r → r.phase.live = true →
    s.cache.pending.get? r.key = some id
  unstored : ∀ id r, s.requests id = some r → r.phase = .loading →
    s.cache.entries.get? r.key = none
  byUse : ByUse s.uses s.cache.entries
  stored : ∀ key entry, s.cache.entries.get? key = some entry → Held o s.log key entry
  settled : ∀ id r result, s.requests id = some r → r.phase.result? = some result →
    .loaded r.key result ∈ s.log
  awaits : ∀ key id, (key, id) ∈ s.awaiting → ∃ r, s.requests id = some r ∧ r.key = key
  justified : Justified o s.log

variable {o : CacheOptions ε} {s : System α ε}

variable {key : String}

variable {entry : CacheEntry α ε}

theorem Held.append {log more : List (Event α ε)} (h : Held o log key entry) :
    Held o (log ++ more) key entry := by
  obtain ⟨hloaded, at_, hstored, hentry⟩ := h
  exact ⟨mem_append_left _ hloaded, at_, mem_append_left _ hstored, hentry⟩

theorem Justified.append {log : List (Event α ε)} (h : Justified o log) {event : Event α ε}
    (hevent : JustifiedBy o log event) : Justified o (log ++ [event]) := by
  intro before other after hlog
  rcases eq_nil_or_concat after with rfl | ⟨rest, last, rfl⟩
  · obtain ⟨rfl, heq⟩ := append_inj' hlog rfl
    rw [← head_eq_of_cons_eq heq]
    exact hevent
  · have hsame : log ++ [event] = (before ++ other :: rest) ++ [last] := by
      rw [hlog]
      simp
    obtain ⟨hbefore, -⟩ := append_inj' hsame rfl
    exact h before other rest hbefore

theorem justified_nil : Justified o ([] : List (Event α ε)) := by
  intro before event after hlog
  simp at hlog

theorem uses_append (log : List (Event α ε)) (event : Event α ε) :
    (log ++ [event]).filterMap Event.use = log.filterMap Event.use ++ event.use.toList := by
  rw [filterMap_append]
  cases h : event.use <;> simp [h]

variable {request : ℕ}

variable {requests : ℕ → Option (Request α ε)} {r r' : Request α ε}

theorem update_some {id : ℕ} (h : Function.update requests request (some r) id = some r') :
    (id = request ∧ r' = r) ∨ (id ≠ request ∧ requests id = some r') := by
  by_cases hid : id = request
  · rw [hid, Function.update_self] at h
    exact .inl ⟨hid, (Option.some.inj h).symm⟩
  · rw [Function.update_of_ne hid] at h
    exact .inr ⟨hid, h⟩

theorem update_keeps {id : ℕ} {old : Request α ε} (hold : requests request = some old)
    (hkey : r.key = old.key) (h : requests id = some r') :
    ∃ r'', Function.update requests request (some r) id = some r'' ∧ r''.key = r'.key ∧
      (id ≠ request → r'' = r') := by
  by_cases hid : id = request
  · rw [hid, hold] at h
    rw [hid, Function.update_self]
    exact ⟨r, rfl, hkey.trans (congrArg Request.key (Option.some.inj h)), fun hne => absurd rfl hne⟩
  · rw [Function.update_of_ne hid]
    exact ⟨r', h, rfl, fun _ => rfl⟩

theorem Inv.one_pending (h : Inv o s) {id id' : ℕ} (hr : s.requests id = some r)
    (hr' : s.requests id' = some r') (hkey : r.key = r'.key) (hlive : r.phase.live = true)
    (hlive' : r'.phase.live = true) : id = id' := by
  have hpending := h.livePending id r hr hlive
  have hpending' := h.livePending id' r' hr' hlive'
  rw [hkey, hpending'] at hpending
  exact (Option.some.inj hpending).symm

/-- An expired entry, if there is one, is taken out. -/
theorem Inv.expire (h : Inv o s) (key : String) :
    Inv o { s with cache := { s.cache with entries := s.cache.entries.erase key } } where
  pendingBound := h.pendingBound
  entriesBound := by
    have hle := length_filter_le (· ≠ key) s.cache.entries.keys
    have hbound := h.entriesBound
    simp only [keys_erase]
    omega
  pendingLive := h.pendingLive
  livePending := h.livePending
  unstored := by
    intro id r hr hphase
    have hnone := h.unstored id r hr hphase
    simp only [OrderedMap.get?_erase]
    split
    · rfl
    · exact hnone
  byUse := h.byUse.erase key
  stored := by
    intro other entry hget
    simp only [OrderedMap.get?_erase] at hget
    split at hget
    · cases hget
    · exact h.stored other entry hget
  settled := h.settled
  awaits := h.awaits
  justified := h.justified

theorem Inv.hit (h : Inv o s) (hget : s.cache.entries.get? key = some entry)
    (hfresh : s.now < entry.expiresAt) :
    Inv o { s with
      cache := { s.cache with entries := (s.cache.entries.erase key).set key entry }
      log := s.log ++ [.hit key entry s.now] } where
  pendingBound := h.pendingBound
  entriesBound := by
    have hbound := h.entriesBound
    have hin : key ∈ s.cache.entries.keys := (OrderedMap.mem_keys_iff _ _).mpr ⟨entry, hget⟩
    have hlt : (s.cache.entries.keys.filter (· ≠ key)).length < s.cache.entries.keys.length :=
      length_filter_lt_length_iff_exists.mpr ⟨key, hin, by simp⟩
    change ((s.cache.entries.erase key).set key entry).keys.length ≤ o.maxEntries
    rw [OrderedMap.keys_set, if_neg (not_mem_keys_erase _ key), keys_erase, length_append,
      length_singleton]
    omega
  pendingLive := h.pendingLive
  livePending := h.livePending
  unstored := by
    intro id r hr hphase
    have hnone := h.unstored id r hr hphase
    have hne : r.key ≠ key := by
      intro heq
      rw [heq, hget] at hnone
      cases hnone
    simp only [OrderedMap.get?_set_ne _ _ hne, OrderedMap.get?_erase, if_neg hne]
    exact hnone
  byUse := by
    have hreinserted := h.byUse.reinsert key entry
    simp only [System.uses, uses_append]
    exact hreinserted
  stored := by
    intro other entry' hother
    simp only [OrderedMap.get?_set, OrderedMap.get?_erase] at hother
    split at hother
    · next heq =>
      rw [heq, ← Option.some.inj hother]
      exact (h.stored key entry hget).append
    · exact (h.stored other entry' hother).append
  settled := fun id r result hr hresult =>
    mem_append_left _ (h.settled id r result hr hresult)
  awaits := h.awaits
  justified := h.justified.append ⟨h.stored key entry hget, hfresh⟩

theorem Inv.share (h : Inv o s) {active : ℕ} (hactive : s.cache.pending.get? key = some active) :
    Inv o { s with awaiting := s.awaiting ++ [(key, active)] } := by
  refine { h with awaits := fun other id hin => ?_ }
  rcases mem_append.mp hin with hin | hin
  · exact h.awaits other id hin
  · obtain ⟨rfl, rfl⟩ := Prod.mk.inj (mem_singleton.mp hin)
    obtain ⟨r, hr, hkey, -⟩ := h.pendingLive other id hactive
    exact ⟨r, hr, hkey⟩

theorem Inv.load (h : Inv o s) (hnew : s.requests request = none)
    (hnone : s.cache.pending.get? key = none) (hstored : s.cache.entries.get? key = none)
    (hroom : s.cache.pending.keys.length < o.maxEntries) :
    Inv o { s with
      cache := { s.cache with pending := s.cache.pending.set key request }
      requests := Function.update s.requests request (some ⟨key, .loading⟩)
      awaiting := s.awaiting ++ [(key, request)] } := by
  have hother : ∀ {id r}, s.requests id = some r →
      Function.update s.requests request (some ⟨key, .loading⟩) id = some r := by
    intro id r hr
    have hne : id ≠ request := by
      intro heq
      rw [heq, hnew] at hr
      cases hr
    rw [Function.update_of_ne hne]
    exact hr
  refine ⟨?_, h.entriesBound, ?_, ?_, ?_, h.byUse, h.stored, ?_, ?_, h.justified⟩
  · have hle : (s.cache.pending.set key request).keys.length ≤ s.cache.pending.keys.length + 1 := by
      rw [OrderedMap.keys_set]
      split
      · omega
      · simp
    change (s.cache.pending.set key request).keys.length ≤ o.maxEntries
    omega
  · intro other id hget
    rw [OrderedMap.get?_set] at hget
    split at hget
    · next heq =>
      rw [← Option.some.inj hget]
      exact ⟨_, Function.update_self _ _ _, heq.symm, rfl⟩
    · obtain ⟨r, hr, hrest⟩ := h.pendingLive other id hget
      exact ⟨r, hother hr, hrest⟩
  · intro id r hr hlive
    rcases update_some hr with ⟨rfl, rfl⟩ | ⟨-, hr⟩
    · exact OrderedMap.get?_set_self _ _ _
    · have hpending := h.livePending id r hr hlive
      have hne : r.key ≠ key := by
        intro heq
        rw [heq, hnone] at hpending
        cases hpending
      simp only [OrderedMap.get?_set_ne _ _ hne]
      exact hpending
  · intro id r hr hphase
    rcases update_some hr with ⟨rfl, rfl⟩ | ⟨-, hr⟩
    · exact hstored
    · exact h.unstored id r hr hphase
  · intro id r result hr hresult
    rcases update_some hr with ⟨rfl, rfl⟩ | ⟨-, hr⟩
    · cases hresult
    · exact h.settled id r result hr hresult
  · intro other id hin
    rcases mem_append.mp hin with hin | hin
    · obtain ⟨r, hr, hkey⟩ := h.awaits other id hin
      exact ⟨r, hother hr, hkey⟩
    · obtain ⟨rfl, rfl⟩ := Prod.mk.inj (mem_singleton.mp hin)
      exact ⟨_, Function.update_self _ _ _, rfl⟩

/-- A call answers from an entry that has not expired, or looks at the loads once the
expired entry is out. -/
theorem lookup_cases (o : CacheOptions ε) (c : Cache α ε) (now : ℤ) (key : String) (request : ℕ) :
    (∃ entry, c.entries.get? key = some entry ∧ now < entry.expiresAt ∧
      lookup o c now key request =
        ({ c with entries := (c.entries.erase key).set key entry }, .hit entry)) ∨
      ((∀ entry, c.entries.get? key = some entry → entry.expiresAt ≤ now) ∧
        lookup o c now key request =
          joinOrLoad o { c with entries := c.entries.erase key } key request) := by
  unfold lookup
  cases hget : c.entries.get? key with
  | none =>
    right
    refine ⟨fun _ hsome => (by cases hsome), ?_⟩
    rw [erase_of_none hget]
  | some entry =>
    by_cases hfresh : entry.expiresAt > now
    · exact .inl ⟨entry, rfl, hfresh, if_pos hfresh⟩
    · refine .inr ⟨fun other hsome => ?_, if_neg hfresh⟩
      rw [← Option.some.inj hsome]
      omega

theorem Inv.call (h : Inv o s) (hnew : s.requests request = none) :
    Inv o (s.call o key request) := by
  unfold System.call
  rcases lookup_cases o s.cache s.now key request with
    ⟨entry, hget, hfresh, hlookup⟩ | ⟨-, hlookup⟩
  · rw [hlookup]
    exact h.hit hget hfresh
  · rw [hlookup]
    have hexpired := h.expire key
    have hout : (s.cache.entries.erase key).get? key = none := by
      rw [OrderedMap.get?_erase, if_pos rfl]
    unfold joinOrLoad
    cases hpending : s.cache.pending.get? key with
    | some active => exact hexpired.share hpending
    | none =>
      by_cases hfull : s.cache.pending.keys.length ≥ o.maxEntries
      · simp only [if_pos hfull]
        exact hexpired
      · simp only [if_neg hfull]
        exact hexpired.load hnew hpending hout (Nat.lt_of_not_le hfull)

variable {result : Except ε α}

theorem entryOf_result {now : ℤ} (h : entryOf o now result = some entry) :
    entry.result = result := by
  unfold entryOf at h
  split at h
  · rw [← Option.some.inj h]
    rfl
  · split at h
    · cases h
    · split at h
      · rw [← Option.some.inj h]
        rfl
      · cases h

theorem Inv.settles (h : Inv o s) (result : Except ε α)
    (hr : s.requests request = some ⟨key, .loading⟩) :
    Inv o { s with
      requests := Function.update s.requests request (some ⟨key, .settled result⟩)
      log := s.log ++ [.loaded key result] } := by
  refine ⟨h.pendingBound, h.entriesBound, ?_, ?_, ?_, ?_, ?_, ?_, ?_, ?_⟩
  · intro other id hget
    obtain ⟨r, hid, hkey, hlive⟩ := h.pendingLive other id hget
    obtain ⟨r', hid', hkey', hsame⟩ := update_keeps (r := ⟨key, .settled result⟩) hr rfl hid
    refine ⟨r', hid', hkey'.trans hkey, ?_⟩
    rcases update_some hid' with ⟨-, rfl⟩ | ⟨hne, -⟩
    · rfl
    · exact hsame hne ▸ hlive
  · intro id r hid hlive
    rcases update_some hid with ⟨rfl, rfl⟩ | ⟨-, hid⟩
    · exact h.livePending id ⟨key, .loading⟩ hr rfl
    · exact h.livePending id r hid hlive
  · intro id r hid hphase
    rcases update_some hid with ⟨rfl, rfl⟩ | ⟨-, hid⟩
    · cases hphase
    · exact h.unstored id r hid hphase
  · have huses := uses_append s.log (.loaded key result)
    rw [show (Event.loaded key result).use.toList = [] from rfl, append_nil] at huses
    unfold System.uses
    rw [huses]
    exact h.byUse
  · exact fun other entry hget => (h.stored other entry hget).append
  · intro id r result' hid hresult
    rcases update_some hid with ⟨rfl, rfl⟩ | ⟨-, hid⟩
    · rw [← Option.some.inj hresult]
      exact mem_append_right _ (mem_singleton_self _)
    · exact mem_append_left _ (h.settled id r result' hid hresult)
  · intro other id hin
    obtain ⟨r, hid, hkey⟩ := h.awaits other id hin
    obtain ⟨r', hid', hkey', -⟩ := update_keeps (r := ⟨key, .settled result⟩) hr rfl hid
    exact ⟨r', hid', hkey'.trans hkey⟩
  · exact h.justified.append trivial

theorem Inv.remember (h : Inv o s) (key : String) (entry : CacheEntry α ε)
    (hnone : s.cache.entries.get? key = none)
    (hquiet : ∀ id r, s.requests id = some r → r.phase = .loading → r.key ≠ key)
    (hroom : 0 < o.maxEntries) (hloaded : .loaded key entry.result ∈ s.log)
    (hentry : entryOf o s.now entry.result = some entry) :
    Inv o { s with
      cache := remember o s.cache key entry
      log := s.log ++ [.stored key entry s.now] } := by
  have hout : key ∉ s.cache.entries.keys := by
    intro hin
    obtain ⟨_, hget⟩ := (OrderedMap.mem_keys_iff _ _).mp hin
    rw [hnone] at hget
    cases hget
  -- dropping the first entry leaves room for one more, and drops no other
  have hkept : ∃ kept : OrderedMap String (CacheEntry α ε), BoundedCache.remember o s.cache key entry =
      { s.cache with entries := kept.set key entry } ∧ kept.keys.length < o.maxEntries ∧
      key ∉ kept.keys ∧ ByUse s.uses kept ∧
      ∀ other e, kept.get? other = some e → s.cache.entries.get? other = some e := by
    unfold BoundedCache.remember
    by_cases hfull : s.cache.entries.keys.length ≥ o.maxEntries
    · refine ⟨dropFirst s.cache.entries, by rw [if_pos hfull], ?_, ?_, h.byUse.dropFirst,
        fun _ _ => get?_dropFirst⟩
      · have hbound := h.entriesBound
        rw [length_dropFirst]
        omega
      · intro hin
        obtain ⟨e, hget⟩ := (OrderedMap.mem_keys_iff _ _).mp hin
        exact hout ((OrderedMap.mem_keys_iff _ _).mpr ⟨e, get?_dropFirst hget⟩)
    · exact ⟨s.cache.entries, by rw [if_neg hfull], Nat.lt_of_not_le hfull, hout, h.byUse,
        fun _ _ hget => hget⟩
  obtain ⟨kept, hremember, hlength, hnew, hbyUse, hof⟩ := hkept
  rw [hremember]
  refine ⟨h.pendingBound, ?_, h.pendingLive, h.livePending, ?_, ?_, ?_, ?_, h.awaits,
    h.justified.append trivial⟩
  · simp only [OrderedMap.keys_set, if_neg hnew, length_append, length_singleton]
    omega
  · intro id r hid hphase
    have hne := hquiet id r hid hphase
    simp only [OrderedMap.get?_set_ne _ _ hne]
    cases hget : kept.get? r.key with
    | none => rfl
    | some e =>
      have hstored := hof _ e hget
      rw [h.unstored id r hid hphase] at hstored
      cases hstored
  · have hinserted := hbyUse.insert hnew entry
    simp only [System.uses, uses_append]
    exact hinserted
  · intro other e hget
    simp only [OrderedMap.get?_set] at hget
    split at hget
    · next heq =>
      rw [heq, ← Option.some.inj hget]
      exact ⟨mem_append_left _ hloaded, s.now,
        mem_append_right _ (mem_singleton_self _), hentry⟩
    · exact (h.stored other e (hof other e hget)).append
  · exact fun id r result hid hresult =>
      mem_append_left _ (h.settled id r result hid hresult)

theorem Inv.complete (h : Inv o s) (result : Except ε α)
    (hr : s.requests request = some ⟨key, .loading⟩) :
    Inv o (s.complete o request key result) := by
  have hsettles := h.settles result hr
  have hnone := h.unstored request _ hr rfl
  have hpending := h.livePending request _ hr rfl
  unfold System.complete settle
  cases hentry : entryOf o s.now result with
  | none => exact hsettles
  | some entry =>
    have hresult := entryOf_result hentry
    have hroom : 0 < o.maxEntries := by
      have hin : key ∈ s.cache.pending.keys := (OrderedMap.mem_keys_iff _ _).mpr ⟨_, hpending⟩
      have hpositive := length_pos_of_mem hin
      have hbound := h.pendingBound
      omega
    have hquiet : ∀ id r, Function.update s.requests request (some ⟨key, .settled result⟩) id =
        some r → r.phase = .loading → r.key ≠ key := by
      intro id r hid hphase heq
      by_cases hsame : id = request
      · rw [hsame, Function.update_self] at hid
        rw [← Option.some.inj hid] at hphase
        cases hphase
      · rw [Function.update_of_ne hsame] at hid
        exact hsame (h.one_pending hid hr heq (by rw [hphase]; rfl) rfl)
    have hremember := Inv.remember hsettles key entry hnone hquiet hroom
      (hresult ▸ mem_append_right _ (mem_singleton_self _)) (hresult ▸ hentry)
    simpa using hremember

theorem Inv.finish (h : Inv o s) (hr : s.requests request = some ⟨key, .settled result⟩) :
    Inv o (s.finish request key result) := by
  unfold System.finish
  refine ⟨?_, h.entriesBound, ?_, ?_, ?_, h.byUse, h.stored, ?_, ?_, h.justified⟩
  · have hle := length_filter_le (· ≠ key) s.cache.pending.keys
    have hbound := h.pendingBound
    simp only [keys_erase]
    omega
  · intro other id hget
    simp only [OrderedMap.get?_erase] at hget
    split at hget
    · cases hget
    · next hne =>
      obtain ⟨r, hid, hkey, hlive⟩ := h.pendingLive other id hget
      have hother : id ≠ request := by
        intro heq
        rw [heq, hr] at hid
        rw [← Option.some.inj hid] at hkey
        exact hne hkey.symm
      exact ⟨r, (Function.update_of_ne hother _ _).trans hid, hkey, hlive⟩
  · intro id r hid hlive
    rcases update_some hid with ⟨rfl, rfl⟩ | ⟨hne, hid⟩
    · cases hlive
    · have hpending := h.livePending id r hid hlive
      have hkey : r.key ≠ key := fun heq => hne (h.one_pending hid hr heq hlive rfl)
      simp only [OrderedMap.get?_erase, if_neg hkey]
      exact hpending
  · intro id r hid hphase
    rcases update_some hid with ⟨rfl, rfl⟩ | ⟨-, hid⟩
    · cases hphase
    · exact h.unstored id r hid hphase
  · intro id r result' hid hresult
    rcases update_some hid with ⟨rfl, rfl⟩ | ⟨-, hid⟩
    · rw [← Option.some.inj hresult]
      exact h.settled id ⟨key, .settled result⟩ result hr rfl
    · exact h.settled id r result' hid hresult
  · intro other id hin
    obtain ⟨r, hid, hkey⟩ := h.awaits other id hin
    obtain ⟨r', hid', hkey', -⟩ := update_keeps (r := ⟨key, .finished result⟩) hr rfl hid
    exact ⟨r', hid', hkey'.trans hkey⟩

theorem Inv.deliver (h : Inv o s) {loadedKey : String} (hawaits : (key, request) ∈ s.awaiting)
    (hr : s.requests request = some ⟨loadedKey, .finished result⟩) :
    Inv o (s.deliver key request result) := by
  obtain ⟨r, hid, hkey⟩ := h.awaits key request hawaits
  have hloaded := h.settled request _ result hr rfl
  rw [hr] at hid
  have hsame : loadedKey = key := (congrArg Request.key (Option.some.inj hid)).trans hkey
  unfold System.deliver
  refine ⟨h.pendingBound, h.entriesBound, h.pendingLive, h.livePending, h.unstored, ?_, ?_, ?_, ?_,
    h.justified.append (hsame ▸ hloaded)⟩
  · have huses := uses_append s.log (.handed key result)
    rw [show (Event.handed key result).use.toList = [] from rfl, append_nil] at huses
    unfold System.uses
    rw [huses]
    exact h.byUse
  · exact fun other entry hget => (h.stored other entry hget).append
  · exact fun id r result' hid' hresult => mem_append_left _ (h.settled id r result' hid' hresult)
  · exact fun other id hin => h.awaits other id (mem_of_mem_erase hin)

variable {s' : System α ε}

theorem Inv.step (h : Inv o s) (hstep : Step o s s') : Inv o s' := by
  cases hstep with
  | tick now => exact { h with }
  | call key request hnew => exact h.call hnew
  | complete request key result hr => exact h.complete result hr
  | finish request key result hr => exact h.finish hr
  | deliver key loadedKey request result hawaits hr => exact h.deliver hawaits hr

theorem Reachable.inv (h : Reachable o s) : Inv o s := by
  induction h with
  | start now =>
    refine ⟨Nat.zero_le _, Nat.zero_le _, ?_, ?_, ?_, byUse_empty _, ?_, ?_, ?_, justified_nil⟩
    · intro key id hget
      cases hget
    · intro id r hid
      cases hid
    · intro id r hid
      cases hid
    · intro key entry hget
      cases hget
    · intro id r result hid
      cases hid
    · intro key id hin
      cases hin
  | step _ hstep ih => exact ih.step hstep

/-- What one step does to the stored entries: one that stays is as it was, and one
that goes had expired or is the least recently used. -/
structure KeepsEntries (s s' : System α ε) : Prop where
  kept : ∀ key entry entry', s.cache.entries.get? key = some entry →
    s'.cache.entries.get? key = some entry' → entry' = entry
  dropped : ∀ key entry, s.cache.entries.get? key = some entry →
    s'.cache.entries.get? key = none → entry.expiresAt ≤ s.now ∨
      ∀ other ∈ s.cache.entries.keys, other ≠ key → UsedBefore s.uses key other

theorem keepsEntries_of_eq (h : s'.cache.entries = s.cache.entries) :
    KeepsEntries s s' := by
  constructor
  · intro key entry entry' hget hget'
    rw [h, hget] at hget'
    exact (Option.some.inj hget').symm
  · intro key entry hget hnone
    rw [h, hget] at hnone
    cases hnone

theorem keepsEntries_call :
    KeepsEntries s (s.call o key request) := by
  have hentries : (∃ entry, s.cache.entries.get? key = some entry ∧
      (s.call o key request).cache.entries = (s.cache.entries.erase key).set key entry) ∨
      ((∀ entry, s.cache.entries.get? key = some entry → entry.expiresAt ≤ s.now) ∧
        (s.call o key request).cache.entries = s.cache.entries.erase key) := by
    unfold System.call
    rcases lookup_cases o s.cache s.now key request with
      ⟨entry, hget, -, hlookup⟩ | ⟨hexpired, hlookup⟩
    · rw [hlookup]
      exact .inl ⟨entry, hget, rfl⟩
    · rw [hlookup]
      refine .inr ⟨hexpired, ?_⟩
      unfold joinOrLoad
      cases hpending : s.cache.pending.get? key with
      | some active => rfl
      | none =>
        by_cases hfull : s.cache.pending.keys.length ≥ o.maxEntries
        · simp only [if_pos hfull]
        · simp only [if_neg hfull]
  rcases hentries with ⟨entry, hget, hentries⟩ | ⟨hexpired, hentries⟩
  · constructor
    · intro other e e' he he'
      rw [hentries, OrderedMap.get?_set, OrderedMap.get?_erase] at he'
      split at he'
      · next heq =>
        rw [heq, hget] at he
        exact (Option.some.inj he').symm.trans (Option.some.inj he)
      · rw [he] at he'
        exact (Option.some.inj he').symm
    · intro other e he hnone
      rw [hentries, OrderedMap.get?_set, OrderedMap.get?_erase] at hnone
      split at hnone
      · cases hnone
      · rw [he] at hnone
        cases hnone
  · constructor
    · intro other e e' he he'
      rw [hentries, OrderedMap.get?_erase] at he'
      split at he'
      · cases he'
      · rw [he] at he'
        exact (Option.some.inj he').symm
    · intro other e he hnone
      rw [hentries, OrderedMap.get?_erase] at hnone
      split at hnone
      · next heq => exact .inl (hexpired e (heq ▸ he))
      · rw [he] at hnone
        cases hnone

/-- Only a load that is stored may drop an entry that had not expired. -/
theorem Inv.keepsEntries_complete (h : Inv o s) (result : Except ε α)
    (hr : s.requests request = some ⟨key, .loading⟩) :
    KeepsEntries s (s.complete o request key result) := by
  have hnone := h.unstored request _ hr rfl
  unfold System.complete settle
  cases hentry : entryOf o s.now result with
  | none => exact keepsEntries_of_eq rfl
  | some entry =>
    have hne : ∀ {other e}, s.cache.entries.get? other = some e → other ≠ key := by
      intro other e he heq
      rw [heq, hnone] at he
      cases he
    unfold BoundedCache.remember
    by_cases hfull : s.cache.entries.keys.length ≥ o.maxEntries
    · simp only [if_pos hfull]
      constructor
      · intro other e e' he he'
        simp only [OrderedMap.get?_set_ne _ _ (hne he)] at he'
        rw [get?_dropFirst he'] at he
        exact Option.some.inj he
      · intro other e he hgone
        simp only [OrderedMap.get?_set_ne _ _ (hne he)] at hgone
        right
        intro another hanother hother
        refine h.byUse.dropped_least ((OrderedMap.mem_keys_iff _ _).mpr ⟨e, he⟩) ?_ hanother hother
        intro hin
        obtain ⟨e', he'⟩ := (OrderedMap.mem_keys_iff _ _).mp hin
        rw [hgone] at he'
        cases he'
    · simp only [if_neg hfull]
      constructor
      · intro other e e' he he'
        simp only [OrderedMap.get?_set_ne _ _ (hne he)] at he'
        rw [he] at he'
        exact (Option.some.inj he').symm
      · intro other e he hgone
        simp only [OrderedMap.get?_set_ne _ _ (hne he)] at hgone
        rw [he] at hgone
        cases hgone

theorem Inv.keepsEntries (h : Inv o s) (hstep : Step o s s') :
    KeepsEntries s s' := by
  cases hstep with
  | tick now => exact keepsEntries_of_eq rfl
  | call key request hnew => exact keepsEntries_call
  | complete request key result hr => exact h.keepsEntries_complete result hr
  | finish request key result hr => exact keepsEntries_of_eq rfl
  | deliver key loadedKey request result hawaits hr => exact keepsEntries_of_eq rfl

/-- What the cache promises in a state: its bounds, one load a key, answers that were
loaded for the key that asked, hits that had not expired, and entries that every next
step leaves as they were or drops for being expired or least recently used. -/
structure Promises {α ε : Type} (o : CacheOptions ε) (s : System α ε) : Prop where
  one_load : ∀ id id' key, s.requests id = some ⟨key, .loading⟩ →
    s.requests id' = some ⟨key, .loading⟩ → id = id'
  pendingBound : s.cache.pending.keys.length ≤ o.maxEntries
  entriesBound : s.cache.entries.keys.length ≤ o.maxEntries
  justified : Justified o s.log
  entries : ∀ s', Step o s s' → KeepsEntries s s'

/-- However calls, loads and the clock interleave. -/
theorem cache_promises {α ε : Type} {o : CacheOptions ε} {s : System α ε} (h : Reachable o s) :
    Promises o s := by
  have hinv := h.inv
  refine ⟨?_, hinv.pendingBound, hinv.entriesBound, hinv.justified, fun s' => hinv.keepsEntries⟩
  intro id id' key hr hr'
  exact hinv.one_pending hr hr' rfl rfl rfl

/-! A load whose value expires before the call that waits for it is answered. -/

def tenMs : CacheOptions String := ⟨10, 2, none, fun _ => false⟩

def sharedLoad : System ℕ String :=
  (((System.empty 0).call tenMs "boss" 0).complete tenMs 0 "boss" (.ok 7)).finish 0 "boss" (.ok 7)

theorem reachable_sharedLoad : Reachable tenMs sharedLoad := by
  have hcall := (Reachable.start (o := tenMs) (α := ℕ) 0).step (.call _ "boss" 0 rfl)
  have hload := hcall.step (.complete _ 0 "boss" (.ok 7) rfl)
  exact hload.step (.finish _ 0 "boss" (.ok 7) rfl)

/-- A hit that comes in time. -/
theorem cache_promises_hit : Promises tenMs (sharedLoad.call tenMs "boss" 1) :=
  cache_promises (reachable_sharedLoad.step (.call _ "boss" 1 rfl))

/-- The value is handed to its caller as the entry made of it expires. -/
theorem handed_value_expired :
    ¬ ∀ (α ε : Type) (o : CacheOptions ε) (s : System α ε), Reachable o s →
      ∀ key request value, ∀ loadedKey : String, (key, request) ∈ s.awaiting →
        s.requests request = some ⟨loadedKey, .finished (.ok value)⟩ →
          ∀ at_, .stored key (.value value (at_ + o.ttlMs)) at_ ∈ s.log → s.now < at_ + o.ttlMs := by
  intro h
  have hexpired := h ℕ String tenMs { sharedLoad with now := 10 }
    (reachable_sharedLoad.step (.tick _ 10)) "boss" 0 7 "boss" mem_cons_self rfl 0
    (mem_cons_of_mem _ mem_cons_self)
  exact absurd hexpired (by decide)

end SlashWho.BoundedCache
