import SlashWho.AccountStore

/-!
What one operation does to the account store. Each either leaves the store or makes one
change, named in full. From these: an account's credentials change only with a new
credential version, a session stays bound to the account and the version it was issued
under, and a token is never taken back once it is consumed.
-/

namespace SlashWho.AccountStore

variable {s : Store}

@[simp] theorem consumeWhere_accounts (s : Store) (which : String → MailToken → Bool) (now : ℤ) :
    (consumeWhere s which now).accounts = s.accounts := rfl

theorem get?_updateAccount (s : Store) (id : ℕ) (change : AccountRow → AccountRow) (key : ℕ) :
    (updateAccount s id change).accounts.get? key =
      (s.accounts.get? key).map (fun row => if key = id then change row else row) :=
  OrderedMap.get?_mapValues _ _ key

theorem get?_updateAccount_self {id : ℕ} {row : AccountRow} (change : AccountRow → AccountRow)
    (h : s.accounts.get? id = some row) :
    (updateAccount s id change).accounts.get? id = some (change row) := by
  rw [get?_updateAccount, h]
  simp

/-- What binds a session: its account and the credential version it was issued under. -/
def SessionRow.bound (row : SessionRow) : ℕ × ℕ := (row.accountId, row.credentialVersion)

theorem bound_revokeWhere (s : Store) (which : ℕ → SessionRow → Bool) (now : ℤ) (id : ℕ) :
    ((revokeWhere s which now).sessions.get? id).map SessionRow.bound =
      (s.sessions.get? id).map SessionRow.bound := by
  unfold revokeWhere
  rw [OrderedMap.get?_mapValues, Option.map_map]
  congr 1
  funext row
  simp only [Function.comp_apply]
  split <;> rfl

/-- A token as it was, or consumed since. -/
def Aged (before after : MailToken) : Prop :=
  after = before ∨ before.consumedAt = none ∧ ∃ now, after = { before with consumedAt := some now }

theorem Aged.refl (token : MailToken) : Aged token token := Or.inl rfl

theorem Aged.trans {first second third : MailToken} (h : Aged first second)
    (h' : Aged second third) : Aged first third := by
  rcases h with heq | ⟨hnone, now, heq⟩
  · rw [← heq]
    exact h'
  · rcases h' with heq' | ⟨hnone', -⟩
    · exact .inr ⟨hnone, now, heq'.trans heq⟩
    · rw [heq] at hnone'
      cases hnone'

variable {before after : MailToken}

theorem Aged.consumed (h : Aged before after) (hconsumed : before.consumedAt ≠ none) :
    after = before := by
  rcases h with heq | ⟨hnone, -⟩
  · exact heq
  · exact absurd hnone hconsumed

theorem Aged.fields (h : Aged before after) :
    after.accountId = before.accountId ∧ after.purpose = before.purpose ∧
      after.flowId = before.flowId ∧ after.expiresAt = before.expiresAt := by
  rcases h with heq | ⟨-, now, heq⟩
  · rw [heq]
    exact ⟨rfl, rfl, rfl, rfl⟩
  · rw [heq]
    exact ⟨rfl, rfl, rfl, rfl⟩

theorem Aged.unconsumed (h : Aged before after) (hnone : after.consumedAt = none) :
    after = before := by
  rcases h with heq | ⟨-, now, heq⟩
  · exact heq
  · rw [heq] at hnone
    cases hnone

theorem get?_consumeWhere (s : Store) (which : String → MailToken → Bool) (now : ℤ)
    (digest : String) :
    (consumeWhere s which now).tokens.get? digest =
      (s.tokens.get? digest).map (fun token =>
        if which digest token && token.consumedAt.isNone then
          { token with consumedAt := some now }
        else token) :=
  OrderedMap.get?_mapValues _ _ digest

def AgedTokens (s next : Store) : Prop :=
  (∀ digest token, s.tokens.get? digest = some token →
    ∃ token', next.tokens.get? digest = some token' ∧ Aged token token') ∧
  ∀ digest, s.tokens.get? digest = none → next.tokens.get? digest = none

variable {next : Store}

theorem AgedTokens.of_eq (h : next.tokens = s.tokens) : AgedTokens s next := by
  constructor
  · intro digest token htoken
    exact ⟨token, by rw [h]; exact htoken, Aged.refl token⟩
  · intro digest hnone
    rw [h]
    exact hnone

theorem AgedTokens.trans {mid : Store} (h : AgedTokens s mid) (h' : AgedTokens mid next) :
    AgedTokens s next := by
  constructor
  · intro digest token htoken
    obtain ⟨token', htoken', hage⟩ := h.1 digest token htoken
    obtain ⟨token'', htoken'', hage'⟩ := h'.1 digest token' htoken'
    exact ⟨token'', htoken'', hage.trans hage'⟩
  · intro digest hnone
    exact h'.2 digest (h.2 digest hnone)

variable {digest : String} {token : MailToken}

theorem AgedTokens.back (h : AgedTokens s next) (htoken : next.tokens.get? digest = some token) :
    ∃ old, s.tokens.get? digest = some old ∧ Aged old token := by
  cases hold : s.tokens.get? digest with
  | none =>
    rw [h.2 digest hold] at htoken
    cases htoken
  | some old =>
    obtain ⟨token', htoken', hage⟩ := h.1 digest old hold
    rw [htoken] at htoken'
    rw [Option.some.inj htoken']
    exact ⟨old, rfl, hage⟩

theorem AgedTokens.unconsumed (h : AgedTokens s next)
    (htoken : next.tokens.get? digest = some token) (hnone : token.consumedAt = none) :
    s.tokens.get? digest = some token := by
  obtain ⟨old, hold, hage⟩ := h.back htoken
  rw [hage.unconsumed hnone]
  exact hold

theorem agedTokens_consumeWhere (s : Store) (which : String → MailToken → Bool) (now : ℤ) :
    AgedTokens s (consumeWhere s which now) := by
  constructor
  · intro digest token htoken
    rw [get?_consumeWhere, htoken]
    refine ⟨_, rfl, ?_⟩
    simp only
    split
    · rename_i hwhich
      rw [Bool.and_eq_true, Option.isNone_iff_eq_none] at hwhich
      exact .inr ⟨hwhich.2, now, rfl⟩
    · exact Aged.refl token
  · intro digest hnone
    rw [get?_consumeWhere, hnone]
    rfl

theorem agedTokens_consumePurposes (s : Store) (id : ℕ) (purposes : List TokenPurpose) (now : ℤ) :
    AgedTokens s (consumePurposes s id purposes now) := agedTokens_consumeWhere s _ now

variable {which : String → MailToken → Bool}

theorem consumed_consumeWhere {now : ℤ} {token' : MailToken} (hwhich : which digest token = true)
    (h : s.tokens.get? digest = some token)
    (h' : (consumeWhere s which now).tokens.get? digest = some token') :
    token'.consumedAt ≠ none := by
  rw [get?_consumeWhere, h, Option.map_some, Option.some.injEq] at h'
  rw [hwhich, Bool.true_and] at h'
  rw [← h']
  cases hnone : token.consumedAt <;> simp [hnone]

theorem get?_consumeWhere_of_not {now : ℤ}
    (hwhich : ∀ token, s.tokens.get? digest = some token → which digest token = false) :
    (consumeWhere s which now).tokens.get? digest = s.tokens.get? digest := by
  rw [get?_consumeWhere]
  cases htoken : s.tokens.get? digest with
  | none => rfl
  | some token =>
    rw [Option.map_some, hwhich token htoken]
    simp

theorem insertToken_ok (h : insertToken s digest token = .ok next) :
    s.tokens.get? digest = none ∧ next = { s with tokens := s.tokens.set digest token } := by
  unfold insertToken at h
  split at h
  · cases h
  · rename_i hhas
    rw [OrderedMap.has, Bool.not_eq_true, Option.isSome_eq_false_iff,
      Option.isNone_iff_eq_none] at hhas
    exact ⟨hhas, (Except.ok.inj h).symm⟩

/-- An issue of a session is refused, or binds a new one to the account as it is. -/
theorem issueSession_cases (s : Store) (input : SessionIssue) :
    ((∀ row, answered (issueSession s input) ≠ some (some row)) ∧
        committed s (issueSession s input) = s) ∨
      ∃ account, s.accounts.get? input.accountId = some account ∧ account.active = true ∧
        verified account = true ∧ s.sessions.get? input.sessionId = none ∧
        answered (issueSession s input) = some (some (input.row account)) ∧
        committed s (issueSession s input) =
          { s with sessions := s.sessions.set input.sessionId (input.row account) } := by
  unfold issueSession
  cases haccount : s.accounts.get? input.accountId with
  | none => exact .inl ⟨(fun row h => by cases h), rfl⟩
  | some account =>
    simp only
    split
    · rename_i hguard
      rw [Bool.and_eq_true, Bool.and_eq_true] at hguard
      obtain ⟨⟨-, hactive⟩, hverified⟩ := hguard
      split
      · exact .inl ⟨(fun row h => by cases h), rfl⟩
      · rename_i hhas
        rw [OrderedMap.has, Bool.not_eq_true, Option.isSome_eq_false_iff,
          Option.isNone_iff_eq_none] at hhas
        exact .inr ⟨account, rfl, hactive, hverified, hhas, rfl, rfl⟩
    · exact .inl ⟨(fun row h => by cases h), rfl⟩

/-- A use of a session is refused, or finds it bound to the account as it is. -/
theorem useSession_cases (s : Store) (input : SessionUse) :
    ((useSession s input).1 = none ∧ (useSession s input).2 = s) ∨
      ∃ row account, s.sessions.get? input.sessionId = some row ∧
        s.accounts.get? row.accountId = some account ∧
        row.credentialVersion = account.credentialVersion ∧ account.active = true ∧
        verified account = true ∧ (useSession s input).1 = some (account, input.row row) ∧
        (useSession s input).2 =
          { s with sessions := s.sessions.set input.sessionId (input.row row) } := by
  unfold useSession
  cases hrow : s.sessions.get? input.sessionId with
  | none => exact .inl ⟨rfl, rfl⟩
  | some row =>
    simp only
    cases haccount : s.accounts.get? row.accountId with
    | none => exact .inl ⟨rfl, rfl⟩
    | some account =>
      simp only
      split
      · rename_i hguard
        simp only [Bool.and_eq_true, decide_eq_true_eq] at hguard
        obtain ⟨⟨⟨-, hversion⟩, hactive⟩, hverified⟩ := hguard
        exact .inr ⟨row, account, rfl, haccount, hversion, hactive, hverified, rfl, rfl⟩
      · exact .inl ⟨rfl, rfl⟩

theorem changePassword_cases (s : Store) (input : PasswordChange) :
    ((changePassword s input).1 = false ∧ (changePassword s input).2 = s) ∨
      ∃ account, s.accounts.get? input.accountId = some account ∧
        (changePassword s input).1 = true ∧
        (changePassword s input).2 =
          revokeSessions (updateAccount s input.accountId (fun row => { row with
            password := input.password
            passwordChangeRequired := false
            credentialVersion := row.credentialVersion + 1
            updatedAt := input.now })) input.accountId input.now := by
  unfold changePassword
  cases haccount : s.accounts.get? input.accountId with
  | none => exact .inl ⟨rfl, rfl⟩
  | some account =>
    simp only
    split
    · exact .inr ⟨account, rfl, rfl, rfl⟩
    · exact .inl ⟨rfl, rfl⟩

/-- Mail is not issued, or a token for an account is inserted; a reset is for the
mailbox that the account has. -/
theorem issueMail_cases (s : Store) (input : MailIssue) :
    (answered (issueMail s input) ≠ some true ∧ committed s (issueMail s input) = s) ∨
      ∃ account, s.accounts.get? input.accountId = some account ∧
        (input.purpose = .reset →
          input.expectedCanonicalEmail = some account.canonicalEmail) ∧
        s.tokens.get? input.tokenDigest = none ∧
        answered (issueMail s input) = some true ∧
        committed s (issueMail s input) =
          { s with tokens := s.tokens.set input.tokenDigest input.token } := by
  have herror : ∀ failure : Failure, answered (.error failure : Except Failure (Bool × Store)) ≠
      some true ∧ committed s (.error failure : Except Failure (Bool × Store)) = s :=
    fun failure => ⟨(fun h => by cases h), rfl⟩
  unfold issueMail
  split
  · exact .inl (herror _)
  · split
    · exact .inl (herror _)
    · simp only
      split
      · exact .inl ⟨(fun h => by cases h), rfl⟩
      · rename_i hadmitted
        split
        · exact .inl (herror _)
        · rename_i hexists
          rw [Bool.not_eq_true, Bool.not_eq_false', OrderedMap.has,
            Option.isSome_iff_exists] at hexists
          obtain ⟨account, haccount⟩ := hexists
          cases hinsert : insertToken s input.tokenDigest input.token with
          | error failure => exact .inl (herror failure)
          | ok next =>
            obtain ⟨hfresh, hnext⟩ := insertToken_ok hinsert
            refine .inr ⟨account, haccount, ?_, hfresh, rfl, hnext⟩
            intro hreset
            rw [haccount] at hadmitted
            simp only [Option.any_some, Bool.and_eq_true, decide_eq_true_eq, hreset,
              Bool.not_eq_true', Bool.and_eq_false_iff, true_and, not_or,
              Bool.not_eq_false, decide_eq_false_iff_not, not_not] at hadmitted
            exact hadmitted.1

/-- The token a confirmation names, unconsumed and of the purpose it names. -/
structure Redeems (s : Store) (digest : String) (purpose : TokenPurpose) (now : ℤ)
    (token : MailToken) (account : AccountRow) : Prop where
  found : s.tokens.get? digest = some token
  owner : s.accounts.get? token.accountId = some account
  ofPurpose : token.purpose = purpose
  unconsumed : token.consumedAt = none
  unexpired : now < token.expiresAt

theorem confirmVerification_cases (s : Store) (input : VerificationConfirm) :
    ((confirmVerification s input).1 = false ∧ (confirmVerification s input).2 = s) ∨
      ∃ token account, Redeems s input.digest .verify input.now token account ∧
        (confirmVerification s input).1 = true ∧
        (confirmVerification s input).2 =
          consumePurposes (updateAccount (consumeDigest s input.digest input.now)
            token.accountId (fun row => { row with
              verifiedAt := some input.now
              updatedAt := input.now })) token.accountId [.verify] input.now := by
  unfold confirmVerification
  cases htoken : s.tokens.get? input.digest with
  | none => exact .inl ⟨rfl, rfl⟩
  | some token =>
    simp only
    cases haccount : s.accounts.get? token.accountId with
    | none => exact .inl ⟨rfl, rfl⟩
    | some account =>
      simp only
      split
      · rename_i hguard
        simp only [Bool.and_eq_true, decide_eq_true_eq, Option.isNone_iff_eq_none] at hguard
        obtain ⟨⟨⟨⟨⟨⟨hpurpose, -⟩, -⟩, -⟩, -⟩, hnone⟩, hexpiry⟩ := hguard
        exact .inr ⟨token, account, ⟨htoken, haccount, hpurpose, hnone, hexpiry⟩, rfl, rfl⟩
      · exact .inl ⟨rfl, rfl⟩

theorem completeReset_cases (s : Store) (input : ResetCompletion) :
    ((completeReset s input).1 = false ∧ (completeReset s input).2 = s) ∨
      ∃ token account, Redeems s input.digest .reset input.now token account ∧
        (completeReset s input).1 = true ∧
        (completeReset s input).2 =
          revokeSessions (consumePurposes (updateAccount (consumeDigest s input.digest input.now)
            token.accountId (fun row => { row with
              password := input.password
              verifiedAt := some (row.verifiedAt.getD input.now)
              passwordChangeRequired := false
              credentialVersion := row.credentialVersion + 1
              updatedAt := input.now })) token.accountId [.reset, .verify] input.now)
            token.accountId input.now := by
  unfold completeReset
  cases htoken : s.tokens.get? input.digest with
  | none => exact .inl ⟨rfl, rfl⟩
  | some token =>
    simp only
    cases haccount : s.accounts.get? token.accountId with
    | none => exact .inl ⟨rfl, rfl⟩
    | some account =>
      simp only
      split
      · rename_i hguard
        simp only [Bool.and_eq_true, decide_eq_true_eq, Option.isNone_iff_eq_none] at hguard
        obtain ⟨⟨⟨hpurpose, -⟩, hnone⟩, hexpiry⟩ := hguard
        exact .inr ⟨token, account, ⟨htoken, haccount, hpurpose, hnone, hexpiry⟩, rfl, rfl⟩
      · exact .inl ⟨rfl, rfl⟩

/-- Both proofs of a new flow, the account's earlier ones consumed. -/
def issuedProofs (s : Store) (input : EmailChange) : Store :=
  let cleared := consumePurposes (countEmailChange s input) input.accountId emailPurposes input.now
  { cleared with
    tokens := (cleared.tokens.set input.current (emailToken input s.nextFlow .current)).set
      input.next (emailToken input s.nextFlow .new) }

/-- A change of e-mail is refused, or its two proofs are inserted under a new flow and
the account's earlier proofs consumed. -/
theorem issueEmailChange_cases (s : Store) (input : EmailChange) :
    (answered (issueEmailChange s input) ≠ some true ∧
        committed s (issueEmailChange s input) = s) ∨
      input.now < input.expiresAt ∧ input.current ≠ input.next ∧
        (∀ proof, s.tokens.get? (input.digest proof) = none) ∧
        answered (issueEmailChange s input) = some true ∧
        committed s (issueEmailChange s input) =
          issuedProofs s input := by
  have herror : ∀ failure : Failure, answered (.error failure : Except Failure (Bool × Store)) ≠
      some true ∧ committed s (.error failure : Except Failure (Bool × Store)) = s :=
    fun failure => ⟨(fun h => by cases h), rfl⟩
  have hback : ∀ digest, (consumePurposes (countEmailChange s input) input.accountId
      emailPurposes input.now).tokens.get? digest = none → s.tokens.get? digest = none := by
    intro digest hnone
    unfold consumePurposes at hnone
    rw [get?_consumeWhere, Option.map_eq_none_iff] at hnone
    exact hnone
  unfold issueEmailChange
  split
  · rename_i hadmits
    have hexpiry : input.now < input.expiresAt := by
      unfold admitsEmailChange at hadmits
      simp only [Bool.and_eq_true, decide_eq_true_eq] at hadmits
      exact hadmits.1.1.2
    cases hone : insertToken (consumePurposes (countEmailChange s input) input.accountId
        emailPurposes input.now) input.current (emailToken input s.nextFlow .current) with
    | error failure =>
      simp only [hone]
      exact .inl (herror failure)
    | ok one =>
      obtain ⟨hcurrent, hfirst⟩ := insertToken_ok hone
      cases hboth : insertToken one input.next (emailToken input s.nextFlow .new) with
      | error failure =>
        simp only [hone, bind, Except.bind, hboth]
        exact .inl (herror failure)
      | ok both =>
        obtain ⟨hnext, hsecond⟩ := insertToken_ok hboth
        simp only [hone, bind, Except.bind, hboth]
        rw [hfirst, OrderedMap.get?_set] at hnext
        have hdistinct : input.current ≠ input.next := by
          intro heq
          rw [if_pos heq.symm] at hnext
          cases hnext
        rw [if_neg (Ne.symm hdistinct)] at hnext
        refine .inr ⟨hexpiry, hdistinct, ?_, rfl, ?_⟩
        · intro proof
          cases proof with
          | current => exact hback _ hcurrent
          | new => exact hback _ hnext
        · rw [hfirst] at hsecond
          exact hsecond
  · exact .inl ⟨(fun h => by cases h), rfl⟩

/-- A confirmation is refused; or it consumes its proof, and no more where the partner is
not confirmed or the address is taken; or it changes the e-mail. -/
theorem confirmEmailChange_cases (s : Store) (input : EmailConfirm) :
    (answered (confirmEmailChange s input) ≠ some .pending ∧
        answered (confirmEmailChange s input) ≠ some .changed ∧
        committed s (confirmEmailChange s input) = s) ∨
      ∃ token account, Redeems s input.digest input.proof.purpose input.now token account ∧
        ((answered (confirmEmailChange s input) = some .pending ∧
            partners (consumeDigest s input.digest input.now) token.flowId input.proof input.now ≠
              1 ∧
            committed s (confirmEmailChange s input) = consumeDigest s input.digest input.now) ∨
          (answered (confirmEmailChange s input) = some .invalid ∧
            partners (consumeDigest s input.digest input.now) token.flowId input.proof input.now =
              1 ∧
            committed s (confirmEmailChange s input) = consumeDigest s input.digest input.now) ∨
          ∃ canonicalEmail email, token.proposedCanonicalEmail = some canonicalEmail ∧
            token.proposedEmail = some email ∧
            partners (consumeDigest s input.digest input.now) token.flowId input.proof input.now =
              1 ∧
            answered (confirmEmailChange s input) = some .changed ∧
            committed s (confirmEmailChange s input) =
              changeEmail (consumeDigest s input.digest input.now) token.accountId canonicalEmail
                email input.now) := by
  have hrefused : ∀ answer : EmailAnswer, answer = .invalid →
      answered (.ok (answer, s) : Except Failure (EmailAnswer × Store)) ≠ some .pending ∧
        answered (.ok (answer, s) : Except Failure (EmailAnswer × Store)) ≠ some .changed ∧
        committed s (.ok (answer, s)) = s := by
    intro answer hanswer
    rw [hanswer]
    exact ⟨(fun h => by cases h), (fun h => by cases h), rfl⟩
  unfold confirmEmailChange
  cases htoken : s.tokens.get? input.digest with
  | none => exact .inl (hrefused _ rfl)
  | some token =>
    simp only
    cases haccount : s.accounts.get? token.accountId with
    | none => exact .inl (hrefused _ rfl)
    | some account =>
      simp only
      split
      · rename_i hguard
        simp only [Bool.and_eq_true, decide_eq_true_eq, Option.isNone_iff_eq_none] at hguard
        obtain ⟨⟨⟨⟨hpurpose, -⟩, -⟩, hnone⟩, hexpiry⟩ := hguard
        have hredeems : Redeems s input.digest input.proof.purpose input.now token account :=
          ⟨htoken, haccount, hpurpose, hnone, hexpiry⟩
        split
        · rename_i hpartners
          exact .inr ⟨token, account, hredeems, .inl ⟨rfl, hpartners, rfl⟩⟩
        · rename_i hpartners
          rw [not_not] at hpartners
          split
          · rename_i canonicalEmail email hcanonical hemail
            split
            · exact .inr ⟨token, account, hredeems, .inr (.inl ⟨rfl, hpartners, rfl⟩)⟩
            · exact .inr ⟨token, account, hredeems, .inr (.inr
                ⟨canonicalEmail, email, hcanonical, hemail, hpartners, rfl, rfl⟩)⟩
          · exact .inl ⟨(fun h => by cases h), (fun h => by cases h), rfl⟩
      · exact .inl (hrefused _ rfl)

theorem mutateAccountAdmin_cases (s : Store) (input : AdminInput) (mutation : AdminMutation) :
    ((mutateAccountAdmin s input mutation).1 ≠ .updated ∧
        (mutateAccountAdmin s input mutation).2 = s) ∨
      ∃ target, s.accounts.get? input.targetId = some target ∧
        (mutateAccountAdmin s input mutation).1 = .updated ∧
        (mutateAccountAdmin s input mutation).2 =
          revokeSessions (updateAccount s input.targetId (fun row =>
            applyMutation input.now row mutation)) input.targetId input.now := by
  unfold mutateAccountAdmin
  cases hactor : s.accounts.get? input.actorId with
  | none => exact .inl ⟨by simp, rfl⟩
  | some actor =>
    simp only
    split
    · exact .inl ⟨by simp, rfl⟩
    · cases htarget : s.accounts.get? input.targetId with
      | none => exact .inl ⟨by simp, rfl⟩
      | some target =>
        simp only
        split
        · exact .inl ⟨by simp, rfl⟩
        · split
          · exact .inl ⟨by simp, rfl⟩
          · exact .inr ⟨target, rfl, rfl, rfl⟩

end SlashWho.AccountStore
