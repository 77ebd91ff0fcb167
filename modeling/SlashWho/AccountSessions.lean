import SlashWho.AccountChanges

/-!
The sessions of an account over a run. Every change of an account's password, e-mail,
role or active flag moves its credential version on, and nothing moves it back. A session
keeps the version it was issued under, so after such a change it is never accepted again.
-/

namespace SlashWho.AccountStore

open Runs

def tokenAccount (s : Store) (digest : String) : Option ℕ :=
  (s.tokens.get? digest).map MailToken.accountId

/-- The operation changes the account's password, e-mail, role or active flag, or
requires a new password, and says so. -/
def Alters (s : Store) (id : ℕ) : Action → Prop
  | .changePassword input => input.accountId = id ∧ (changePassword s input).1 = true
  | .completeReset input =>
    tokenAccount s input.digest = some id ∧ (completeReset s input).1 = true
  | .confirmEmailChange input =>
    tokenAccount s input.digest = some id ∧
      answered (confirmEmailChange s input) = some .changed
  | .setRole input role => input.targetId = id ∧ (setRole s input role).1 = .updated
  | .setActive input active => input.targetId = id ∧ (setActive s input active).1 = .updated
  | .requirePasswordChange input =>
    input.targetId = id ∧ (requirePasswordChange s input).1 = true
  | _ => False

structure Credentials where
  version : ℕ
  password : PasswordRecord
  canonicalEmail : String
  email : String
  role : Role
  active : Bool

def AccountRow.credentials (row : AccountRow) : Credentials :=
  ⟨row.credentialVersion, row.password, row.canonicalEmail, row.email, row.role, row.active⟩

/-- The operation moves the account's version on, or leaves its credentials. -/
def Moves (s next : Store) (id : ℕ) (alters : Prop) : Prop :=
  (alters ∧ ∃ row row', s.accounts.get? id = some row ∧ next.accounts.get? id = some row' ∧
      row'.credentialVersion = row.credentialVersion + 1) ∨
    ¬ alters ∧ (next.accounts.get? id).map AccountRow.credentials =
      (s.accounts.get? id).map AccountRow.credentials

variable {s next : Store} {id : ℕ} {alters : Prop}

theorem Moves.same (hnot : ¬ alters) (h : next.accounts = s.accounts) :
    Moves s next id alters := by
  refine .inr ⟨hnot, ?_⟩
  rw [h]

theorem Moves.update {target : ℕ} {row : AccountRow} (change : AccountRow → AccountRow)
    (hfound : s.accounts.get? target = some row)
    (hversion : ∀ row, (change row).credentialVersion = row.credentialVersion + 1)
    (hnext : next.accounts = (updateAccount s target change).accounts)
    (halters : alters ↔ target = id) : Moves s next id alters := by
  by_cases hid : target = id
  · subst hid
    refine .inl ⟨halters.mpr rfl, row, change row, hfound, ?_, hversion row⟩
    rw [hnext]
    exact get?_updateAccount_self change hfound
  · refine .inr ⟨fun h => hid (halters.mp h), ?_⟩
    rw [hnext, get?_updateAccount]
    cases s.accounts.get? id with
    | none => rfl
    | some other => rw [Option.map_some, if_neg (Ne.symm hid)]

theorem moves_mutate (s : Store) (input : AdminInput) (mutation : AdminMutation) (id : ℕ)
    (halters : alters ↔
      input.targetId = id ∧ (mutateAccountAdmin s input mutation).1 = .updated) :
    Moves s (mutateAccountAdmin s input mutation).2 id alters := by
  rcases mutateAccountAdmin_cases s input mutation with
    ⟨hanswer, hstore⟩ | ⟨target, htarget, hanswer, hstore⟩
  · apply Moves.same
    · intro h
      exact hanswer (halters.mp h).2
    · rw [hstore]
  · rw [hstore]
    apply Moves.update (fun row => applyMutation input.now row mutation) htarget
    · intro row
      cases mutation <;> rfl
    · rfl
    · rw [halters]
      exact ⟨fun h => h.1, fun h => ⟨h, hanswer⟩⟩

theorem moves_changePassword (s : Store) (input : PasswordChange) (id : ℕ) :
    Moves s (changePassword s input).2 id
      (input.accountId = id ∧ (changePassword s input).1 = true) := by
  rcases changePassword_cases s input with ⟨hanswer, hstore⟩ | ⟨account, hfound, hanswer, hstore⟩
  · apply Moves.same
    · intro h
      rw [hanswer] at h
      cases h.2
    · rw [hstore]
  · rw [hstore]
    apply Moves.update _ hfound (fun row => rfl) rfl
    exact ⟨fun h => h.1, fun h => ⟨h, hanswer⟩⟩

theorem moves_confirmVerification (s : Store) (input : VerificationConfirm) (id : ℕ) :
    Moves s (confirmVerification s input).2 id False := by
  rcases confirmVerification_cases s input with hsame | ⟨token, account, -, -, hstore⟩
  · exact Moves.same (fun h => h) (by rw [hsame.2])
  · refine .inr ⟨fun h => h, ?_⟩
    rw [hstore]
    unfold consumePurposes consumeDigest
    rw [consumeWhere_accounts, get?_updateAccount, consumeWhere_accounts, Option.map_map]
    congr 1
    funext row
    simp only [Function.comp_apply]
    split <;> rfl

theorem Moves.redeem {digest : String} {purpose : TokenPurpose} {now : ℤ} {token : MailToken}
    {row : AccountRow} (hredeems : Redeems s digest purpose now token row) {answers : Prop}
    (hanswers : answers) (change : AccountRow → AccountRow)
    (hversion : ∀ row, (change row).credentialVersion = row.credentialVersion + 1)
    (hnext : next.accounts = (updateAccount s token.accountId change).accounts) :
    Moves s next id (tokenAccount s digest = some id ∧ answers) := by
  apply Moves.update change hredeems.owner hversion hnext
  unfold tokenAccount
  rw [hredeems.found, Option.map_some, Option.some.injEq]
  exact ⟨fun h => h.1, fun h => ⟨h, hanswers⟩⟩

theorem moves_completeReset (s : Store) (input : ResetCompletion) (id : ℕ) :
    Moves s (completeReset s input).2 id
      (tokenAccount s input.digest = some id ∧ (completeReset s input).1 = true) := by
  rcases completeReset_cases s input with
    ⟨hanswer, hstore⟩ | ⟨token, account, hredeems, hanswer, hstore⟩
  · apply Moves.same
    · intro h
      rw [hanswer] at h
      cases h.2
    · rw [hstore]
  · rw [hstore]
    apply Moves.redeem hredeems hanswer _ (fun row => rfl) rfl

theorem moves_confirmEmailChange (s : Store) (input : EmailConfirm) (id : ℕ) :
    Moves s (committed s (confirmEmailChange s input)) id
      (tokenAccount s input.digest = some id ∧
        answered (confirmEmailChange s input) = some .changed) := by
  rcases confirmEmailChange_cases s input with
    ⟨-, hanswer, hstore⟩ | ⟨token, account, hredeems,
      ⟨hanswer, -, hstore⟩ | ⟨hanswer, -, hstore⟩ |
        ⟨canonicalEmail, email, -, -, -, hanswer, hstore⟩⟩
  · apply Moves.same
    · intro h
      exact hanswer h.2
    · rw [hstore]
  · apply Moves.same
    · intro h
      rw [hanswer] at h
      cases h.2
    · rw [hstore]
      rfl
  · apply Moves.same
    · intro h
      rw [hanswer] at h
      cases h.2
    · rw [hstore]
      rfl
  · rw [hstore]
    apply Moves.redeem hredeems hanswer _ (fun row => rfl) rfl

/-- An account's credentials change only with its version, and then the operation says
so. -/
theorem moves_step (s : Store) (a : Action) (id : ℕ) : Moves s (step s a) id (Alters s id a) := by
  cases a with
  | issueSession input =>
    apply Moves.same (fun h => h)
    change (committed s (issueSession s input)).accounts = _
    rcases issueSession_cases s input with hsame | ⟨account, -, -, -, -, -, hstore⟩
    · rw [hsame.2]
    · rw [hstore]
  | useSession input =>
    apply Moves.same (fun h => h)
    change (useSession s input).2.accounts = _
    rcases useSession_cases s input with hsame | ⟨row, account, -, -, -, -, -, -, hstore⟩
    · rw [hsame.2]
    · rw [hstore]
  | revokeSession sessionId now => exact Moves.same (fun h => h) rfl
  | changePassword input => exact moves_changePassword s input id
  | issueMail input =>
    apply Moves.same (fun h => h)
    change (committed s (issueMail s input)).accounts = _
    rcases issueMail_cases s input with hsame | ⟨account, -, -, -, -, hstore⟩
    · rw [hsame.2]
    · rw [hstore]
  | confirmVerification input => exact moves_confirmVerification s input id
  | completeReset input => exact moves_completeReset s input id
  | issueEmailChange input =>
    apply Moves.same (fun h => h)
    change (committed s (issueEmailChange s input)).accounts = _
    rcases issueEmailChange_cases s input with hsame | ⟨-, -, -, -, hstore⟩
    · rw [hsame.2]
    · rw [hstore]
      rfl
  | confirmEmailChange input => exact moves_confirmEmailChange s input id
  | setRole input role => exact moves_mutate s input (.role role) id Iff.rfl
  | setActive input active => exact moves_mutate s input (.active active) id Iff.rfl
  | requirePasswordChange input =>
    apply moves_mutate s input .passwordChange id
    change _ ∧ decide _ = true ↔ _
    rw [decide_eq_true_eq]
    exact Iff.rfl

theorem bound_step (s : Store) (a : Action) (id : ℕ) :
    ((step s a).sessions.get? id).map SessionRow.bound =
        (s.sessions.get? id).map SessionRow.bound ∨
      ∃ input account, a = .issueSession input ∧ input.sessionId = id ∧
        s.sessions.get? id = none ∧ s.accounts.get? input.accountId = some account ∧
        answered (issueSession s input) = some (some (input.row account)) ∧
        (step s a).sessions.get? id = some (input.row account) := by
  have hmutate : ∀ (input : AdminInput) (mutation : AdminMutation),
      ((mutateAccountAdmin s input mutation).2.sessions.get? id).map SessionRow.bound =
        (s.sessions.get? id).map SessionRow.bound := by
    intro input mutation
    rcases mutateAccountAdmin_cases s input mutation with hsame | ⟨target, -, -, hstore⟩
    · rw [hsame.2]
    · rw [hstore]
      exact bound_revokeWhere _ _ _ id
  cases a with
  | issueSession input =>
    change ((committed s (issueSession s input)).sessions.get? id).map _ = _ ∨ _
    rcases issueSession_cases s input with
      hsame | ⟨account, haccount, -, -, hfresh, hanswer, hstore⟩
    · left
      rw [hsame.2]
    · by_cases hid : input.sessionId = id
      · subst hid
        refine .inr ⟨input, account, rfl, rfl, hfresh, haccount, hanswer, ?_⟩
        change (committed s (issueSession s input)).sessions.get? _ = _
        rw [hstore]
        exact OrderedMap.get?_set_self _ _ _
      · left
        rw [hstore]
        simp only
        rw [OrderedMap.get?_set_ne _ _ (Ne.symm hid)]
  | useSession input =>
    left
    change ((useSession s input).2.sessions.get? id).map _ = _
    rcases useSession_cases s input with hsame | ⟨row, account, hrow, -, -, -, -, -, hstore⟩
    · rw [hsame.2]
    · rw [hstore]
      simp only
      rw [OrderedMap.get?_set]
      split
      · rename_i hid
        rw [hid, hrow]
        rfl
      · rfl
  | revokeSession sessionId now => exact .inl (bound_revokeWhere _ _ _ id)
  | changePassword input =>
    left
    change ((changePassword s input).2.sessions.get? id).map _ = _
    rcases changePassword_cases s input with hsame | ⟨account, -, -, hstore⟩
    · rw [hsame.2]
    · rw [hstore]
      exact bound_revokeWhere _ _ _ id
  | issueMail input =>
    left
    change ((committed s (issueMail s input)).sessions.get? id).map _ = _
    rcases issueMail_cases s input with hsame | ⟨account, -, -, -, -, hstore⟩
    · rw [hsame.2]
    · rw [hstore]
  | confirmVerification input =>
    left
    change ((confirmVerification s input).2.sessions.get? id).map _ = _
    rcases confirmVerification_cases s input with hsame | ⟨token, account, -, -, hstore⟩
    · rw [hsame.2]
    · rw [hstore]
      rfl
  | completeReset input =>
    left
    change ((completeReset s input).2.sessions.get? id).map _ = _
    rcases completeReset_cases s input with hsame | ⟨token, account, -, -, hstore⟩
    · rw [hsame.2]
    · rw [hstore]
      exact bound_revokeWhere _ _ _ id
  | issueEmailChange input =>
    left
    change ((committed s (issueEmailChange s input)).sessions.get? id).map _ = _
    rcases issueEmailChange_cases s input with hsame | ⟨-, -, -, -, hstore⟩
    · rw [hsame.2]
    · rw [hstore]
      rfl
  | confirmEmailChange input =>
    left
    change ((committed s (confirmEmailChange s input)).sessions.get? id).map _ = _
    rcases confirmEmailChange_cases s input with ⟨-, -, hstore⟩ | ⟨token, account, -, hrest⟩
    · rw [hstore]
    · rcases hrest with ⟨-, -, hstore⟩ | ⟨-, -, hstore⟩ | ⟨canonicalEmail, email, -, -, -, -, hstore⟩
      · rw [hstore]
        rfl
      · rw [hstore]
        rfl
      · rw [hstore]
        exact bound_revokeWhere _ _ _ id
  | setRole input role => exact .inl (hmutate input (.role role))
  | setActive input active => exact .inl (hmutate input (.active active))
  | requirePasswordChange input => exact .inl (hmutate input .passwordChange)

/-- Along a run an account stays, and its version is never moved back. -/
theorem version_after {id : ℕ} {row : AccountRow} (h : s.accounts.get? id = some row)
    (actions : List Action) :
    ∃ row', (after step s actions).accounts.get? id = some row' ∧
      row.credentialVersion ≤ row'.credentialVersion := by
  induction actions generalizing s row with
  | nil => exact ⟨row, h, Nat.le_refl _⟩
  | cons a rest ih =>
    rw [after_cons]
    have hnext : ∃ row', (step s a).accounts.get? id = some row' ∧
        row.credentialVersion ≤ row'.credentialVersion := by
      rcases moves_step s a id with ⟨-, old, new, hold, hnew, hversion⟩ | ⟨-, hsame⟩
      · rw [h] at hold
        have heq := Option.some.inj hold
        subst heq
        exact ⟨new, hnew, by omega⟩
      · rw [h, Option.map_some, Option.map_eq_some_iff] at hsame
        obtain ⟨new, hnew, heq⟩ := hsame
        exact ⟨new, hnew, Nat.le_of_eq (congrArg Credentials.version heq).symm⟩
    obtain ⟨mid, hmid, hle⟩ := hnext
    obtain ⟨last, hlast, hle'⟩ := ih hmid
    exact ⟨last, hlast, Nat.le_trans hle hle'⟩

theorem version_altered {id : ℕ} {row row' : AccountRow} {actions : List Action}
    (h : s.accounts.get? id = some row)
    (h' : (after step s actions).accounts.get? id = some row')
    {p : Store × Action} (hp : p ∈ steps step s actions) (halters : Alters p.1 id p.2) :
    row.credentialVersion < row'.credentialVersion := by
  obtain ⟨before, rest, hactions, hstate⟩ := (mem_steps_iff step).mp hp
  obtain ⟨mid, hmid, hle⟩ := version_after h before
  rw [← hstate] at hmid
  rcases moves_step p.1 p.2 id with ⟨-, old, new, hold, hnew, hversion⟩ | ⟨hnot, -⟩
  · rw [hmid] at hold
    have heq := Option.some.inj hold
    obtain ⟨last, hlast, hle'⟩ := version_after hnew rest
    have hafter : (after step s actions).accounts.get? id = some last := by
      rw [hactions, after_append, after_cons, ← hstate]
      exact hlast
    rw [h'] at hafter
    have heq' := Option.some.inj hafter
    rw [heq']
    rw [← heq] at hversion
    omega
  · exact absurd halters hnot

theorem bound_after {id : ℕ} {bound : ℕ × ℕ}
    (h : (s.sessions.get? id).map SessionRow.bound = some bound) (actions : List Action) :
    ((after step s actions).sessions.get? id).map SessionRow.bound = some bound := by
  induction actions generalizing s with
  | nil => exact h
  | cons a rest ih =>
    apply ih
    rcases bound_step s a id with hsame | ⟨input, account, -, -, hnone, -⟩
    · rw [hsame]
      exact h
    · rw [hnone] at h
      cases h

/-- The actions issued the session, to an account under the version it had then. -/
def SessionIssued (accounts : OrderedMap ℕ AccountRow) (id : ℕ) (bound : ℕ × ℕ)
    (actions : List Action) : Prop :=
  ∃ first input between account, actions = first ++ .issueSession input :: between ∧
    input.sessionId = id ∧
    (after step (Store.start accounts) first).accounts.get? input.accountId = some account ∧
    answered (issueSession (after step (Store.start accounts) first) input) =
      some (some (input.row account)) ∧
    bound = (input.accountId, account.credentialVersion)

/-- A session in a reached state was issued in the run. -/
theorem issued_of_get? (accounts : OrderedMap ℕ AccountRow) (actions : List Action) (id : ℕ)
    (bound : ℕ × ℕ)
    (h : ((after step (Store.start accounts) actions).sessions.get? id).map SessionRow.bound =
      some bound) : SessionIssued accounts id bound actions := by
  revert h
  apply keeps_history (fun before (s : Store) =>
    (s.sessions.get? id).map SessionRow.bound = some bound →
      SessionIssued accounts id bound before)
  · intro h
    cases h
  · intro before a ih h
    rcases bound_step (after step (Store.start accounts) before) a id with hsame |
      ⟨input, account, haction, hid, -, haccount, hanswer, hrow⟩
    · obtain ⟨first, input, between, account, hbefore, hrest⟩ := ih (hsame.symm.trans h)
      refine ⟨first, input, between ++ [a], account, ?_, hrest⟩
      rw [hbefore, List.append_assoc, List.cons_append]
    · refine ⟨before, input, [], account, by rw [haction], hid, haccount, hanswer, ?_⟩
      rw [hrow] at h
      exact (Option.some.inj h).symm

end SlashWho.AccountStore
