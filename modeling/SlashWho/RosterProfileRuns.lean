import SlashWho.RosterProfileResolutions

/-!
What the stored answers keep through every order of reservations and answers. A row holds the token
and lease of the latest reservation of its locator until an answer is accepted from it. Every
definitive answer accepted was out of date at the latest attempt, or is what the row holds with no
attempt under way, and the row's cooldown reaches as far as any answer asked for.
-/

namespace SlashWho.RosterProfileResolutions

open List

open RosterPresence (RosterProfileLocator Texts)

section Log

/-- The token and the instant of a reservation of a locator. -/
def Entry.grantOf (locator : RosterProfileLocator) : Entry → Option (String × ℤ)
  | .granted own token now => if own = locator then some (token, now) else none
  | .answered .. => none

def Entry.acceptOf (locator : RosterProfileLocator) :
    Entry → Option (String × RosterProfileResolutionAnswer × ℤ)
  | .granted .. => none
  | .answered own token answer now accepted =>
    if own = locator ∧ accepted = true then some (token, answer, now) else none

def Entry.cooldownOf (locator : RosterProfileLocator) : Entry → Option ℤ
  | .granted .. => none
  | .answered own _ answer _ _ => if own = locator then answer.cooldown else none

def Entry.token? : Entry → Option String
  | .granted _ token _ => some token
  | .answered .. => none

def grants (locator : RosterProfileLocator) (log : List Entry) : List (String × ℤ) :=
  log.filterMap (Entry.grantOf locator)

def accepts (locator : RosterProfileLocator) (log : List Entry) :
    List (String × RosterProfileResolutionAnswer × ℤ) :=
  log.filterMap (Entry.acceptOf locator)

/-- The tokens of the attempts of a locator that were answered. -/
def answeredTokens (locator : RosterProfileLocator) (log : List Entry) : List String :=
  (accepts locator log).map Prod.fst

def cooldowns (locator : RosterProfileLocator) (log : List Entry) : List ℤ :=
  log.filterMap (Entry.cooldownOf locator)

def grantedTokens (log : List Entry) : List String := log.filterMap Entry.token?

variable (locator own : RosterProfileLocator) (log : List Entry) (token : String)
  (answer : RosterProfileResolutionAnswer) (now : ℤ) (accepted : Bool)

theorem grants_granted :
    grants locator (log ++ [.granted own token now]) =
      grants locator log ++ if own = locator then [(token, now)] else [] := by
  unfold grants
  rw [filterMap_append]
  by_cases hown : own = locator
  · simp [Entry.grantOf, hown]
  · simp [Entry.grantOf, hown]

@[simp] theorem grants_answered :
    grants locator (log ++ [.answered own token answer now accepted]) = grants locator log := by
  simp [grants, Entry.grantOf]

@[simp] theorem accepts_granted :
    accepts locator (log ++ [.granted own token now]) = accepts locator log := by
  simp [accepts, Entry.acceptOf]

theorem accepts_answered :
    accepts locator (log ++ [.answered own token answer now accepted]) =
      accepts locator log ++
        if own = locator ∧ accepted = true then [(token, answer, now)] else [] := by
  unfold accepts
  rw [filterMap_append]
  by_cases hown : own = locator ∧ accepted = true
  · simp [Entry.acceptOf, hown]
  · simp only [filterMap_cons, filterMap_nil, Entry.acceptOf, if_neg hown]

@[simp] theorem cooldowns_granted :
    cooldowns locator (log ++ [.granted own token now]) = cooldowns locator log := by
  simp [cooldowns, Entry.cooldownOf]

theorem cooldowns_answered :
    cooldowns locator (log ++ [.answered own token answer now accepted]) =
      cooldowns locator log ++ if own = locator then answer.cooldown.toList else [] := by
  unfold cooldowns
  rw [filterMap_append]
  by_cases hown : own = locator
  · cases hcooldown : answer.cooldown with
    | none => simp [Entry.cooldownOf, hown, hcooldown]
    | some until_ => simp [Entry.cooldownOf, hown, hcooldown]
  · simp [Entry.cooldownOf, hown]

end Log

/-- A stored instant that is no earlier than another, a null being earliest. -/
def NoEarlier (old new : Option ℤ) : Prop := ∀ x, old = some x → ∃ y, new = some y ∧ x ≤ y

theorem noEarlier_refl (x : Option ℤ) : NoEarlier x x := fun y hy => ⟨y, hy, le_rfl⟩

theorem NoEarlier.trans {x y z : Option ℤ} (h : NoEarlier x y) (h' : NoEarlier y z) :
    NoEarlier x z := by
  intro a ha
  obtain ⟨b, hb, hab⟩ := h a ha
  obtain ⟨c, hc, hbc⟩ := h' b hb
  exact ⟨c, hc, le_trans hab hbc⟩

theorem noEarlier_greatest_left (x y : Option ℤ) : NoEarlier x (greatest x y) := by
  intro a ha
  subst ha
  cases y with
  | none => exact ⟨a, rfl, le_rfl⟩
  | some b => exact ⟨max a b, rfl, le_max_left a b⟩

theorem noEarlier_greatest_right (x y : Option ℤ) : NoEarlier y (greatest x y) := by
  intro b hb
  subst hb
  cases x with
  | none => exact ⟨b, rfl, le_rfl⟩
  | some a => exact ⟨max a b, rfl, le_max_right a b⟩

structure Fits (locator : RosterProfileLocator) (log : List Entry) (row : ResolutionRow) :
    Prop where
  latest : ∃ token, (grants locator log).getLast? = some (token, row.lastAttemptAt) ∧
    ((row.attemptToken = some token ∧ row.leaseUntil = some (row.lastAttemptAt + leaseMs) ∧
        token ∉ answeredTokens locator log) ∨
      (row.attemptToken = none ∧ row.leaseUntil = none ∧ token ∈ answeredTokens locator log))
  outdated : ∀ e ∈ accepts locator log, e.2.1.definitive = true →
    (row.attemptToken = none ∧ row.answeredAt = some e.2.2) ∨
      e.2.2 + answerLifetimeMs ≤ row.lastAttemptAt
  leased : ∀ g ∈ grants locator log, g.1 ∈ answeredTokens locator log ∨
    (grants locator log).getLast? = some g ∨ g.2 + leaseMs ≤ row.lastAttemptAt
  cooled : ∀ until_ ∈ cooldowns locator log, NoEarlier (some until_) row.retryNotBefore

/-- What every event keeps. -/
structure Kept (uuid : ℕ → String) (s : State) : Prop where
  fits : ∀ locator row, s.table locator = some row → Fits locator s.log row
  fresh : ∀ locator, s.table locator = none →
    grants locator s.log = [] ∧ accepts locator s.log = [] ∧ cooldowns locator s.log = []
  made : ∀ token ∈ grantedTokens s.log, ∃ n < s.tokens, token = uuid n
  apart : (grantedTokens s.log).Nodup
  granted : ∀ locator, ∀ token ∈ answeredTokens locator s.log, token ∈ grantedTokens s.log
  once : ∀ locator, (answeredTokens locator s.log).Nodup

section Steps

variable {texts : Texts} {uuid : ℕ → String} {storable : ℤ → Bool} {s : State}

/-- What a reservation can do: nothing, or take a row that is free. -/
theorem reserve_cases (locator : RosterProfileLocator) (at_ : Option ℤ) :
    ((reserve texts uuid storable locator at_ s).1.table = s.table ∧
        (reserve texts uuid storable locator at_ s).1.log = s.log ∧
        s.tokens ≤ (reserve texts uuid storable locator at_ s).1.tokens ∧
        ∀ token, (reserve texts uuid storable locator at_ s).2 ≠ .ok (some token)) ∨
      ∃ now, at_ = some now ∧ (s.table locator).all (·.free now) = true ∧
        reserve texts uuid storable locator at_ s =
          (⟨Function.update s.table locator
              (some (reservedRow (s.table locator) (uuid s.tokens) now)), s.tokens + 1,
            s.log ++ [.granted locator (uuid s.tokens) now]⟩, .ok (some (uuid s.tokens))) := by
  unfold reserve
  cases validateLocator texts locator with
  | error fault => exact .inl ⟨rfl, rfl, le_rfl, nofun⟩
  | ok _ =>
    cases at_ with
    | none => exact .inl ⟨rfl, rfl, le_rfl, nofun⟩
    | some now =>
      dsimp only [validateTime]
      split
      · exact .inl ⟨rfl, rfl, Nat.le_succ _, nofun⟩
      · split
        · next hfree => exact .inr ⟨now, rfl, hfree, rfl⟩
        · exact .inl ⟨rfl, rfl, Nat.le_succ _, nofun⟩

/-- What an answer can do: nothing, or write the row it finds. -/
theorem answer_cases (locator : RosterProfileLocator) (token : String)
    (given : RosterProfileResolutionAnswer) (at_ : Option ℤ) :
    ((answer texts storable locator token given at_ s).1 = s ∧
        (answer texts storable locator token given at_ s).2 ≠ .ok true) ∨
      ∃ row now, s.table locator = some row ∧ at_ = some now ∧
        answer texts storable locator token given at_ s =
          (⟨Function.update s.table locator
              (some (answeredRow row given now (row.accepts token now))), s.tokens,
            s.log ++ [.answered locator token given now (row.accepts token now)]⟩,
          .ok (row.accepts token now)) := by
  unfold answer
  cases validateLocator texts locator with
  | error fault => exact .inl ⟨rfl, nofun⟩
  | ok _ =>
    cases validateAnswer given with
    | error fault => exact .inl ⟨rfl, nofun⟩
    | ok _ =>
      cases at_ with
      | none => exact .inl ⟨rfl, nofun⟩
      | some now =>
        dsimp only [validateTime]
        split
        · exact .inl ⟨rfl, nofun⟩
        · cases hrow : s.table locator with
          | none => exact .inl ⟨rfl, nofun⟩
          | some row => exact .inr ⟨row, now, rfl, rfl, rfl⟩

end Steps

section Keeping

variable {uuid : ℕ → String} {s : State}

variable {locator : RosterProfileLocator} {log : List Entry}

theorem mem_grantedTokens {g : String × ℤ} (h : g ∈ grants locator log) :
    g.1 ∈ grantedTokens log := by
  obtain ⟨e, he, hgrant⟩ := mem_filterMap.mp h
  refine mem_filterMap.mpr ⟨e, he, ?_⟩
  cases e with
  | granted own token now =>
    by_cases hown : own = locator
    · simp only [Entry.grantOf, if_pos hown, Option.some.injEq] at hgrant
      rw [← hgrant]
      rfl
    · simp only [Entry.grantOf, if_neg hown] at hgrant
      cases hgrant
  | answered own token answer now accepted => cases hgrant

theorem Kept.new (h : Kept uuid s) (huuid : Function.Injective uuid) :
    uuid s.tokens ∉ grantedTokens s.log := by
  intro hin
  obtain ⟨n, hlt, heq⟩ := h.made _ hin
  have hsame := huuid heq
  omega

variable {row : ResolutionRow}

/-- A row that is free was left alone as long as its answer, lease and cooldown ask. -/
theorem free_iff {now : ℤ} (h : row.free now = true) :
    row.lastAttemptAt < now ∧ (∀ x, row.leaseUntil = some x → x ≤ now) ∧
      (∀ x, row.retryNotBefore = some x → x ≤ now) ∧
      ∀ x, row.answeredAt = some x → x + answerLifetimeMs ≤ now := by
  unfold ResolutionRow.free at h
  rw [Bool.and_eq_true, Bool.and_eq_true, Bool.and_eq_true] at h
  obtain ⟨⟨⟨hlast, hlease⟩, hretry⟩, hanswered⟩ := h
  refine ⟨of_decide_eq_true hlast, ?_, ?_, ?_⟩
  · intro x hx
    rw [hx] at hlease
    exact of_decide_eq_true hlease
  · intro x hx
    rw [hx] at hretry
    exact of_decide_eq_true hretry
  · intro x hx
    rw [hx] at hanswered
    have hle : x ≤ now - answerLifetimeMs := of_decide_eq_true hanswered
    omega

/-- Where a reservation is granted, everything it must wait for is over. -/
structure Over (locator : RosterProfileLocator) (log : List Entry) (now : ℤ) : Prop where
  answers : ∀ e ∈ accepts locator log, e.2.1.definitive = true → e.2.2 + answerLifetimeMs ≤ now
  leases : ∀ g ∈ grants locator log, g.1 ∈ answeredTokens locator log ∨ g.2 + leaseMs ≤ now
  cooldowns : ∀ until_ ∈ cooldowns locator log, until_ ≤ now

theorem Fits.over (h : Fits locator log row) {now : ℤ} (hfree : row.free now = true) :
    Over locator log now := by
  obtain ⟨hlast, hlease, hretry, hanswered⟩ := free_iff hfree
  refine ⟨?_, ?_, ?_⟩
  · intro e he hdefinitive
    rcases h.outdated e he hdefinitive with ⟨-, hat⟩ | hold
    · exact hanswered _ hat
    · omega
  · intro g hg
    rcases h.leased g hg with hdone | hlatest | hold
    · exact .inl hdone
    · obtain ⟨token, hgrant, hholds⟩ := h.latest
      rw [hlatest, Option.some.injEq] at hgrant
      rw [hgrant]
      rcases hholds with ⟨-, hleased, -⟩ | ⟨-, -, hdone⟩
      · exact .inr (hlease _ hleased)
      · exact .inl hdone
    · exact .inr (by omega)
  · intro until_ hin
    obtain ⟨x, hx, hle⟩ := h.cooled until_ hin until_ rfl
    exact le_trans hle (hretry x hx)

theorem Kept.over (h : Kept uuid s) {now : ℤ} (hfree : (s.table locator).all (·.free now) = true) :
    Over locator s.log now := by
  cases hrow : s.table locator with
  | none =>
    obtain ⟨hgrants, haccepts, hcooldowns⟩ := h.fresh locator hrow
    refine ⟨?_, ?_, ?_⟩
    · rw [haccepts]
      exact fun e he => absurd he not_mem_nil
    · rw [hgrants]
      exact fun g hg => absurd hg not_mem_nil
    · rw [hcooldowns]
      exact fun x hx => absurd hx not_mem_nil
  | some row =>
    rw [hrow] at hfree
    exact (h.fits locator row hrow).over hfree

theorem fits_reserved (h : Kept uuid s) (huuid : Function.Injective uuid) {now : ℤ}
    (hfree : (s.table locator).all (·.free now) = true) :
    Fits locator (s.log ++ [.granted locator (uuid s.tokens) now])
      (reservedRow (s.table locator) (uuid s.tokens) now) := by
  have hover := h.over hfree
  have hgrants : grants locator (s.log ++ [.granted locator (uuid s.tokens) now]) =
      grants locator s.log ++ [(uuid s.tokens, now)] := by
    rw [grants_granted, if_pos rfl]
  refine ⟨⟨uuid s.tokens, ?_, .inl ⟨rfl, rfl, ?_⟩⟩, ?_, ?_, ?_⟩
  · rw [hgrants]
    exact getLast?_concat
  · unfold answeredTokens
    rw [accepts_granted]
    exact fun hin => h.new huuid (h.granted locator _ hin)
  · intro e he hdefinitive
    rw [accepts_granted] at he
    exact .inr (hover.answers e he hdefinitive)
  · intro g hg
    unfold answeredTokens
    rw [accepts_granted]
    rw [hgrants] at hg ⊢
    rcases mem_append.mp hg with hin | hin
    · rcases hover.leases g hin with hdone | hpast
      · exact .inl hdone
      · exact .inr (.inr hpast)
    · rw [mem_singleton.mp hin]
      exact .inr (.inl getLast?_concat)
  · intro until_ hin
    rw [cooldowns_granted] at hin
    cases hrow : s.table locator with
    | none =>
      rw [(h.fresh locator hrow).2.2] at hin
      exact absurd hin not_mem_nil
    | some row => exact (h.fits locator row hrow).cooled until_ hin

theorem Kept.reserve (h : Kept uuid s) (huuid : Function.Injective uuid) {now : ℤ}
    (hfree : (s.table locator).all (·.free now) = true) :
    Kept uuid ⟨Function.update s.table locator
        (some (reservedRow (s.table locator) (uuid s.tokens) now)), s.tokens + 1,
      s.log ++ [.granted locator (uuid s.tokens) now]⟩ := by
  have htokens : grantedTokens (s.log ++ [.granted locator (uuid s.tokens) now]) =
      grantedTokens s.log ++ [uuid s.tokens] := by
    unfold grantedTokens
    rw [filterMap_append]
    rfl
  have hother : ∀ {own : RosterProfileLocator}, own ≠ locator →
      grants own (s.log ++ [.granted locator (uuid s.tokens) now]) = grants own s.log := by
    intro own hown
    rw [grants_granted, if_neg (Ne.symm hown), append_nil]
  constructor
  · intro own row hrow
    change Function.update s.table locator _ own = some row at hrow
    by_cases hown : own = locator
    · subst hown
      rw [Function.update_self, Option.some.injEq] at hrow
      rw [← hrow]
      exact fits_reserved h huuid hfree
    · rw [Function.update_of_ne hown] at hrow
      have hold := h.fits own row hrow
      refine ⟨?_, ?_, ?_, ?_⟩
      · unfold answeredTokens
        rw [hother hown, accepts_granted]
        exact hold.latest
      · rw [accepts_granted]
        exact hold.outdated
      · unfold answeredTokens
        rw [hother hown, accepts_granted]
        exact hold.leased
      · rw [cooldowns_granted]
        exact hold.cooled
  · intro own hrow
    change Function.update s.table locator _ own = none at hrow
    by_cases hown : own = locator
    · rw [hown, Function.update_self] at hrow
      cases hrow
    · rw [Function.update_of_ne hown] at hrow
      rw [hother hown, accepts_granted, cooldowns_granted]
      exact h.fresh own hrow
  · intro token htoken
    rw [htokens] at htoken
    rcases mem_append.mp htoken with hin | hin
    · obtain ⟨n, hlt, heq⟩ := h.made token hin
      exact ⟨n, Nat.lt_succ_of_lt hlt, heq⟩
    · exact ⟨s.tokens, Nat.lt_succ_self _, mem_singleton.mp hin⟩
  · rw [htokens]
    refine nodup_append.mpr ⟨h.apart, nodup_singleton _, ?_⟩
    intro token htoken token' htoken' heq
    refine h.new huuid ?_
    rw [← mem_singleton.mp htoken', ← heq]
    exact htoken
  · intro own token htoken
    unfold answeredTokens at htoken
    rw [accepts_granted] at htoken
    rw [htokens]
    exact mem_append_left _ (h.granted own token htoken)
  · intro own
    unfold answeredTokens
    rw [accepts_granted]
    exact h.once own

theorem Fits.accepted (h : Fits locator log row) {token : String} {now : ℤ}
    (haccepts : row.accepts token now = true) :
    row.attemptToken = some token ∧
      (grants locator log).getLast? = some (token, row.lastAttemptAt) ∧
      token ∉ answeredTokens locator log := by
  unfold ResolutionRow.accepts at haccepts
  rw [Bool.and_eq_true] at haccepts
  have htoken : row.attemptToken = some token := of_decide_eq_true haccepts.1
  obtain ⟨latest, hgrant, hholds⟩ := h.latest
  rcases hholds with ⟨hown, -, hunanswered⟩ | ⟨hnone, -, -⟩
  · rw [htoken, Option.some.injEq] at hown
    subst hown
    exact ⟨htoken, hgrant, hunanswered⟩
  · rw [htoken] at hnone
    cases hnone

theorem fits_answered (h : Fits locator log row) (token : String)
    (given : RosterProfileResolutionAnswer) (now : ℤ) :
    Fits locator (log ++ [.answered locator token given now (row.accepts token now)])
      (answeredRow row given now (row.accepts token now)) := by
  have hcooled : ∀ until_ ∈ cooldowns locator
      (log ++ [.answered locator token given now (row.accepts token now)]),
      NoEarlier (some until_) (greatest row.retryNotBefore given.cooldown) := by
    intro until_ hin
    rw [cooldowns_answered, if_pos rfl] at hin
    rcases mem_append.mp hin with hold | hnew
    · exact (h.cooled until_ hold).trans (noEarlier_greatest_left _ _)
    · rw [← Option.mem_toList.mp hnew]
      exact noEarlier_greatest_right _ _
  cases haccepts : row.accepts token now with
  | true =>
    obtain ⟨htoken, hgrant, -⟩ := h.accepted haccepts
    rw [haccepts] at hcooled
    have hall : accepts locator (log ++ [.answered locator token given now true]) =
        accepts locator log ++ [(token, given, now)] := by
      rw [accepts_answered, if_pos ⟨rfl, rfl⟩]
    refine ⟨⟨token, ?_, .inr ⟨rfl, rfl, ?_⟩⟩, ?_, ?_, hcooled⟩
    · rw [grants_answered]
      exact hgrant
    · unfold answeredTokens
      rw [hall, map_append]
      exact mem_append_right _ (mem_singleton_self _)
    · intro e he hdefinitive
      rw [hall] at he
      rcases mem_append.mp he with hold | hnew
      · rcases h.outdated e hold hdefinitive with ⟨hnone, -⟩ | hpast
        · rw [htoken] at hnone
          cases hnone
        · exact .inr hpast
      · left
        rw [mem_singleton.mp hnew] at hdefinitive ⊢
        refine ⟨rfl, ?_⟩
        change (if given.definitive = true then some now else none) = some now
        rw [if_pos hdefinitive]
    · intro g hg
      rw [grants_answered] at hg ⊢
      unfold answeredTokens
      rw [hall, map_append]
      rcases h.leased g hg with hdone | hother
      · exact .inl (mem_append_left _ hdone)
      · exact .inr hother
  | false =>
    rw [haccepts] at hcooled
    have hall : accepts locator (log ++ [.answered locator token given now false]) =
        accepts locator log := by
      rw [accepts_answered, if_neg (by simp), append_nil]
    refine ⟨?_, ?_, ?_, hcooled⟩
    · unfold answeredTokens
      rw [grants_answered, hall]
      exact h.latest
    · rw [hall]
      exact h.outdated
    · unfold answeredTokens
      rw [grants_answered, hall]
      exact h.leased

theorem Kept.answer (h : Kept uuid s) (hrow : s.table locator = some row) (token : String)
    (given : RosterProfileResolutionAnswer) (now : ℤ) :
    Kept uuid ⟨Function.update s.table locator
        (some (answeredRow row given now (row.accepts token now))), s.tokens,
      s.log ++ [.answered locator token given now (row.accepts token now)]⟩ := by
  have htokens : grantedTokens
      (s.log ++ [.answered locator token given now (row.accepts token now)]) =
        grantedTokens s.log := by
    unfold grantedTokens
    rw [filterMap_append]
    exact append_nil _
  have haccepts : ∀ {own : RosterProfileLocator}, own ≠ locator → accepts own
      (s.log ++ [.answered locator token given now (row.accepts token now)]) =
        accepts own s.log := by
    intro own hown
    rw [accepts_answered, if_neg (fun hboth => hown hboth.1.symm), append_nil]
  have hcooldowns : ∀ {own : RosterProfileLocator}, own ≠ locator → cooldowns own
      (s.log ++ [.answered locator token given now (row.accepts token now)]) =
        cooldowns own s.log := by
    intro own hown
    rw [cooldowns_answered, if_neg (Ne.symm hown), append_nil]
  have htokensOf : ∀ own, answeredTokens own
      (s.log ++ [.answered locator token given now (row.accepts token now)]) =
        answeredTokens own s.log ++
          if locator = own ∧ row.accepts token now = true then [token] else [] := by
    intro own
    unfold answeredTokens
    rw [accepts_answered, map_append]
    split
    · rfl
    · rfl
  have hown := h.fits locator row hrow
  constructor
  · intro own row' hrow'
    change Function.update s.table locator _ own = some row' at hrow'
    by_cases hsame : own = locator
    · subst hsame
      rw [Function.update_self, Option.some.injEq] at hrow'
      rw [← hrow']
      exact fits_answered hown token given now
    · rw [Function.update_of_ne hsame] at hrow'
      have hold := h.fits own row' hrow'
      refine ⟨?_, ?_, ?_, ?_⟩
      · unfold answeredTokens
        rw [grants_answered, haccepts hsame]
        exact hold.latest
      · rw [haccepts hsame]
        exact hold.outdated
      · unfold answeredTokens
        rw [grants_answered, haccepts hsame]
        exact hold.leased
      · rw [hcooldowns hsame]
        exact hold.cooled
  · intro own hnone
    change Function.update s.table locator _ own = none at hnone
    by_cases hsame : own = locator
    · rw [hsame, Function.update_self] at hnone
      cases hnone
    · rw [Function.update_of_ne hsame] at hnone
      rw [grants_answered, haccepts hsame, hcooldowns hsame]
      exact h.fresh own hnone
  · intro own htoken
    rw [htokens] at htoken
    exact h.made own htoken
  · rw [htokens]
    exact h.apart
  · intro own token' htoken'
    rw [htokens]
    rw [htokensOf] at htoken'
    rcases mem_append.mp htoken' with hold | hnew
    · exact h.granted own token' hold
    · split at hnew
      · next hboth =>
        rw [mem_singleton.mp hnew]
        exact mem_grantedTokens (mem_of_getLast? (hown.accepted hboth.2).2.1)
      · exact absurd hnew not_mem_nil
  · intro own
    rw [htokensOf]
    split
    · next hboth =>
      obtain ⟨hsame, haccepted⟩ := hboth
      subst hsame
      refine nodup_append.mpr ⟨h.once locator, nodup_singleton _, ?_⟩
      intro x hx y hy heq
      refine (hown.accepted haccepted).2.2 ?_
      rw [← mem_singleton.mp hy, ← heq]
      exact hx
    · rw [append_nil]
      exact h.once own

end Keeping

end SlashWho.RosterProfileResolutions
