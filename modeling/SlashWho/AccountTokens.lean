import SlashWho.AccountSessions

/-!
The tokens of an account over a run. A token is redeemed once, since it is consumed with
its effect and stays so. A reset is sent to the address the account has, and a change of
address consumes the resets before it. Both proofs of a change of address come from one
request, and a later request consumes what is left of it.
-/

namespace SlashWho.AccountStore

open Runs

variable {s next : Store}

/-- What an operation does to the tokens. -/
inductive TokenStep (s : Store) : Action → Store → Prop
  | kept {a : Action} {next : Store} (aged : AgedTokens s next)
      (emails : ∀ digest token, s.tokens.get? digest = some token →
        token.purpose ∈ emailPurposes → next.tokens.get? digest = some token)
      (flow : next.nextFlow = s.nextFlow)
      (quiet : ∀ input, a = .issueEmailChange input →
        answered (issueEmailChange s input) ≠ some true) : TokenStep s a next
  | confirmed {input : EmailConfirm} {token : MailToken} {account : AccountRow}
      (redeems : Redeems s input.digest input.proof.purpose input.now token account)
      (answer : answered (confirmEmailChange s input) = some .pending ∨
        partners (consumeDigest s input.digest input.now) token.flowId input.proof input.now = 1) :
      TokenStep s (.confirmEmailChange input) (consumeDigest s input.digest input.now)
  | changed {input : EmailConfirm} {token : MailToken} {account : AccountRow}
      {canonicalEmail email : String}
      (redeems : Redeems s input.digest input.proof.purpose input.now token account) :
      TokenStep s (.confirmEmailChange input)
        (changeEmail (consumeDigest s input.digest input.now) token.accountId canonicalEmail email
          input.now)
  | mailed {input : MailIssue} {account : AccountRow}
      (owner : s.accounts.get? input.accountId = some account)
      (mailbox : input.purpose = .reset →
        input.expectedCanonicalEmail = some account.canonicalEmail)
      (fresh : s.tokens.get? input.tokenDigest = none)
      (answer : answered (issueMail s input) = some true) :
      TokenStep s (.issueMail input)
        { s with tokens := s.tokens.set input.tokenDigest input.token }
  | flowed {input : EmailChange} (unexpired : input.now < input.expiresAt)
      (distinct : input.current ≠ input.next)
      (fresh : ∀ proof, s.tokens.get? (input.digest proof) = none)
      (answer : answered (issueEmailChange s input) = some true) :
      TokenStep s (.issueEmailChange input) (issuedProofs s input)

theorem TokenStep.same {a : Action} (h : next.tokens = s.tokens) (hflow : next.nextFlow = s.nextFlow)
    (hquiet : ∀ input, a = .issueEmailChange input →
      answered (issueEmailChange s input) ≠ some true) : TokenStep s a next := by
  refine .kept (AgedTokens.of_eq h) ?_ hflow hquiet
  intro digest token htoken hpurpose
  rw [h]
  exact htoken

variable {digest : String} {token : MailToken}

theorem get?_consumeWhere_email {which : String → MailToken → Bool} {now : ℤ}
    (hwhich : ∀ digest token, s.tokens.get? digest = some token →
      token.purpose ∈ emailPurposes → which digest token = false)
    (h : s.tokens.get? digest = some token) (hpurpose : token.purpose ∈ emailPurposes) :
    (consumeWhere s which now).tokens.get? digest = some token := by
  rw [get?_consumeWhere_of_not, h]
  intro other hother
  rw [h] at hother
  have heq := Option.some.inj hother
  subst heq
  exact hwhich digest token h hpurpose

/-- A token of another purpose redeemed, and then such tokens of its account consumed. -/
theorem TokenStep.redeemed {a : Action} {now : ℤ} {mid : Store} {purposes : List TokenPurpose}
    (htoken : s.tokens.get? digest = some token) (hother : token.purpose ∉ emailPurposes)
    (hpurposes : ∀ purpose ∈ purposes, purpose ∉ emailPurposes)
    (hmid : mid.tokens = (consumeDigest s digest now).tokens) (hflow : mid.nextFlow = s.nextFlow)
    (hnext : next.tokens = (consumePurposes mid token.accountId purposes now).tokens)
    (hnextFlow : next.nextFlow = mid.nextFlow) (hquiet : ∀ input, a = .issueEmailChange input →
      answered (issueEmailChange s input) ≠ some true) : TokenStep s a next := by
  have hfirst : AgedTokens s mid :=
    (agedTokens_consumeWhere s _ now).trans (AgedTokens.of_eq hmid)
  have hsecond : AgedTokens mid next :=
    (agedTokens_consumeWhere mid _ now).trans (AgedTokens.of_eq hnext)
  refine .kept (hfirst.trans hsecond) ?_ (hnextFlow.trans hflow) hquiet
  intro other found hfound hpurpose
  rw [hnext]
  refine get?_consumeWhere_email ?_ ?_ hpurpose
  · intro key row _ hrow
    have hnot : row.purpose ∉ purposes := fun hin => hpurposes _ hin hrow
    simp [hnot]
  · rw [hmid]
    refine get?_consumeWhere_email ?_ hfound hpurpose
    intro key row hkey hrow
    rw [decide_eq_false_iff_not]
    intro heq
    rw [heq, htoken] at hkey
    exact hother (Option.some.inj hkey ▸ hrow)

theorem tokenStep_step (s : Store) (a : Action) : TokenStep s a (step s a) := by
  have hmutate : ∀ (a : Action) (input : AdminInput) (mutation : AdminMutation),
      (∀ input, a = .issueEmailChange input → answered (issueEmailChange s input) ≠ some true) →
      TokenStep s a (mutateAccountAdmin s input mutation).2 := by
    intro a input mutation hquiet
    rcases mutateAccountAdmin_cases s input mutation with hsame | ⟨target, -, -, hstore⟩
    · rw [hsame.2]
      exact .same rfl rfl hquiet
    · rw [hstore]
      exact .same rfl rfl hquiet
  cases a with
  | issueSession input =>
    change TokenStep s _ (committed s (issueSession s input))
    rcases issueSession_cases s input with hsame | ⟨account, -, -, -, -, -, hstore⟩
    · rw [hsame.2]
      exact .same rfl rfl nofun
    · rw [hstore]
      exact .same rfl rfl nofun
  | useSession input =>
    change TokenStep s _ (useSession s input).2
    rcases useSession_cases s input with hsame | ⟨row, account, -, -, -, -, -, -, hstore⟩
    · rw [hsame.2]
      exact .same rfl rfl nofun
    · rw [hstore]
      exact .same rfl rfl nofun
  | revokeSession sessionId now => exact .same rfl rfl nofun
  | changePassword input =>
    change TokenStep s _ (changePassword s input).2
    rcases changePassword_cases s input with hsame | ⟨account, -, -, hstore⟩
    · rw [hsame.2]
      exact .same rfl rfl nofun
    · rw [hstore]
      exact .same rfl rfl nofun
  | issueMail input =>
    change TokenStep s _ (committed s (issueMail s input))
    rcases issueMail_cases s input with hsame | ⟨account, howner, hmailbox, hfresh, hanswer, hstore⟩
    · rw [hsame.2]
      exact .same rfl rfl nofun
    · rw [hstore]
      exact .mailed howner hmailbox hfresh hanswer
  | confirmVerification input =>
    change TokenStep s _ (confirmVerification s input).2
    rcases confirmVerification_cases s input with hsame | ⟨token, account, hredeems, -, hstore⟩
    · rw [hsame.2]
      exact .same rfl rfl nofun
    · rw [hstore]
      refine .redeemed hredeems.found ?_ ?_ rfl rfl rfl rfl nofun
      · rw [hredeems.ofPurpose]
        decide
      · decide
  | completeReset input =>
    change TokenStep s _ (completeReset s input).2
    rcases completeReset_cases s input with hsame | ⟨token, account, hredeems, -, hstore⟩
    · rw [hsame.2]
      exact .same rfl rfl nofun
    · rw [hstore]
      refine .redeemed hredeems.found ?_ ?_ rfl rfl rfl rfl nofun
      · rw [hredeems.ofPurpose]
        decide
      · decide
  | issueEmailChange input =>
    change TokenStep s _ (committed s (issueEmailChange s input))
    rcases issueEmailChange_cases s input with
      ⟨hanswer, hstore⟩ | ⟨hexpiry, hdistinct, hfresh, hanswer, hstore⟩
    · rw [hstore]
      refine .same rfl rfl ?_
      intro other heq
      cases heq
      exact hanswer
    · rw [hstore]
      exact .flowed hexpiry hdistinct hfresh hanswer
  | confirmEmailChange input =>
    change TokenStep s _ (committed s (confirmEmailChange s input))
    rcases confirmEmailChange_cases s input with ⟨-, -, hstore⟩ | ⟨token, account, hredeems, hrest⟩
    · rw [hstore]
      exact .same rfl rfl nofun
    · rcases hrest with ⟨hanswer, -, hstore⟩ | ⟨-, hpartners, hstore⟩ |
        ⟨canonicalEmail, email, -, -, -, -, hstore⟩
      · rw [hstore]
        exact .confirmed hredeems (.inl hanswer)
      · rw [hstore]
        exact .confirmed hredeems (.inr hpartners)
      · rw [hstore]
        exact .changed hredeems
  | setRole input role => exact hmutate _ input (.role role) nofun
  | setActive input active => exact hmutate _ input (.active active) nofun
  | requirePasswordChange input => exact hmutate _ input .passwordChange nofun

theorem agedTokens_changeEmail (s : Store) (digest : String) (id : ℕ)
    (canonicalEmail email : String) (now : ℤ) :
    AgedTokens s (changeEmail (consumeDigest s digest now) id canonicalEmail email now) := by
  have hfirst : AgedTokens s (consumeDigest s digest now) := agedTokens_consumeWhere s _ now
  refine hfirst.trans ?_
  unfold changeEmail consumePurposes
  refine AgedTokens.trans ?_ (agedTokens_consumeWhere _ _ now)
  refine AgedTokens.trans ?_ (agedTokens_consumeWhere _ _ now)
  exact AgedTokens.of_eq rfl

theorem get?_issuedProofs {input : EmailChange} (hdistinct : input.current ≠ input.next)
    (proof : EmailProof) :
    (issuedProofs s input).tokens.get? (input.digest proof) =
      some (emailToken input s.nextFlow proof) := by
  unfold issuedProofs
  cases proof with
  | current =>
    exact (OrderedMap.get?_set_ne _ _ hdistinct).trans (OrderedMap.get?_set_self _ _ _)
  | new => exact OrderedMap.get?_set_self _ _ _

theorem get?_issuedProofs_of_ne {input : EmailChange} (hne : ∀ proof, digest ≠ input.digest proof) :
    (issuedProofs s input).tokens.get? digest =
      (consumePurposes (countEmailChange s input) input.accountId emailPurposes
        input.now).tokens.get? digest := by
  unfold issuedProofs
  exact (OrderedMap.get?_set_ne _ _ (hne .new)).trans
    (OrderedMap.get?_set_ne _ _ (hne .current))

/-- A token lives on through an operation, aged or as it was. -/
theorem aged_step (s : Store) (a : Action) (h : s.tokens.get? digest = some token) :
    ∃ token', (step s a).tokens.get? digest = some token' ∧ Aged token token' := by
  have hstep := tokenStep_step s a
  revert hstep
  generalize step s a = next
  intro hstep
  cases hstep with
  | kept aged emails flow quiet => exact aged.1 digest token h
  | confirmed redeems answer => exact (agedTokens_consumeWhere s _ _).1 digest token h
  | changed redeems => exact (agedTokens_changeEmail s _ _ _ _ _).1 digest token h
  | mailed owner mailbox fresh answer =>
    rename_i input account
    have hne : digest ≠ input.tokenDigest := by
      intro heq
      rw [heq, fresh] at h
      cases h
    exact ⟨token, (OrderedMap.get?_set_ne _ _ hne).trans h, Aged.refl token⟩
  | flowed unexpired distinct fresh answer =>
    rename_i input
    have hne : ∀ proof, digest ≠ input.digest proof := by
      intro proof heq
      rw [heq, fresh] at h
      cases h
    rw [get?_issuedProofs_of_ne hne]
    exact (agedTokens_consumeWhere (countEmailChange s input) _ _).1 digest token h

theorem aged_after (h : s.tokens.get? digest = some token) (actions : List Action) :
    ∃ token', (after step s actions).tokens.get? digest = some token' ∧ Aged token token' := by
  induction actions generalizing s token with
  | nil => exact ⟨token, h, Aged.refl token⟩
  | cons a rest ih =>
    obtain ⟨mid, hmid, hage⟩ := aged_step s a h
    obtain ⟨last, hlast, hage'⟩ := ih hmid
    exact ⟨last, hlast, hage.trans hage'⟩

/-- The operation redeems the token, and says so. -/
def TakesEffect (s : Store) (digest : String) : Action → Prop
  | .confirmVerification input => input.digest = digest ∧ (confirmVerification s input).1 = true
  | .completeReset input => input.digest = digest ∧ (completeReset s input).1 = true
  | .confirmEmailChange input =>
    input.digest = digest ∧ (answered (confirmEmailChange s input) = some .pending ∨
      answered (confirmEmailChange s input) = some .changed)
  | _ => False

theorem consumed_of_redeemed {s mid next : Store} {digest : String} {now : ℤ} {token : MailToken}
    (htoken : s.tokens.get? digest = some token)
    (hmid : mid.tokens = (consumeDigest s digest now).tokens) (hnext : AgedTokens mid next) :
    ∃ token', next.tokens.get? digest = some token' ∧ token'.consumedAt ≠ none := by
  obtain ⟨first, hfirst, -⟩ := (agedTokens_consumeWhere s (fun other _ => other = digest) now).1
    digest token htoken
  have hconsumed : first.consumedAt ≠ none :=
    consumed_consumeWhere (by simp) htoken hfirst
  obtain ⟨last, hlast, hage⟩ := hnext.1 digest first (by rw [hmid]; exact hfirst)
  exact ⟨last, hlast, by rw [hage.consumed hconsumed]; exact hconsumed⟩

theorem takesEffect_step {s : Store} {digest : String} {a : Action} (h : TakesEffect s digest a) :
    (∃ token, s.tokens.get? digest = some token ∧ token.consumedAt = none) ∧
      ∃ token', (step s a).tokens.get? digest = some token' ∧ token'.consumedAt ≠ none := by
  cases a with
  | confirmVerification input =>
    obtain ⟨hdigest, htrue⟩ := h
    subst hdigest
    rcases confirmVerification_cases s input with hsame | ⟨token, account, hredeems, -, hstore⟩
    · rw [hsame.1] at htrue
      cases htrue
    · refine ⟨⟨token, hredeems.found, hredeems.unconsumed⟩, ?_⟩
      change ∃ token', (confirmVerification s input).2.tokens.get? _ = _ ∧ _
      rw [hstore]
      exact consumed_of_redeemed hredeems.found rfl (agedTokens_consumeWhere _ _ _)
  | completeReset input =>
    obtain ⟨hdigest, htrue⟩ := h
    subst hdigest
    rcases completeReset_cases s input with hsame | ⟨token, account, hredeems, -, hstore⟩
    · rw [hsame.1] at htrue
      cases htrue
    · refine ⟨⟨token, hredeems.found, hredeems.unconsumed⟩, ?_⟩
      change ∃ token', (completeReset s input).2.tokens.get? _ = _ ∧ _
      rw [hstore]
      exact consumed_of_redeemed hredeems.found rfl (agedTokens_consumeWhere _ _ _)
  | confirmEmailChange input =>
    obtain ⟨hdigest, hanswer⟩ := h
    subst hdigest
    rcases confirmEmailChange_cases s input with
      ⟨hpending, hchanged, -⟩ | ⟨token, account, hredeems, hrest⟩
    · rcases hanswer with hanswer | hanswer
      · exact absurd hanswer hpending
      · exact absurd hanswer hchanged
    · refine ⟨⟨token, hredeems.found, hredeems.unconsumed⟩, ?_⟩
      change ∃ token', (committed s (confirmEmailChange s input)).tokens.get? _ = _ ∧ _
      rcases hrest with ⟨-, -, hstore⟩ | ⟨-, -, hstore⟩ | ⟨canonicalEmail, email, -, -, -, -, hstore⟩
      · rw [hstore]
        exact consumed_of_redeemed hredeems.found rfl (AgedTokens.of_eq rfl)
      · rw [hstore]
        exact consumed_of_redeemed hredeems.found rfl (AgedTokens.of_eq rfl)
      · rw [hstore]
        have hconsumed : (consumeDigest s input.digest input.now).tokens =
          (consumeDigest s input.digest input.now).tokens := rfl
        refine consumed_of_redeemed hredeems.found hconsumed ?_
        unfold changeEmail consumePurposes
        refine AgedTokens.trans ?_ (agedTokens_consumeWhere _ _ _)
        exact AgedTokens.trans (AgedTokens.of_eq rfl) (agedTokens_consumeWhere _ _ _)
  | _ => exact h.elim

theorem takesEffect_once {s : Store} {digest : String} {a b : Action} (between : List Action)
    (h : TakesEffect s digest a) :
    ¬ TakesEffect (after step (step s a) between) digest b := by
  intro h'
  obtain ⟨-, first, hfirst, hconsumed⟩ := takesEffect_step h
  obtain ⟨⟨last, hlast, hnone⟩, -⟩ := takesEffect_step h'
  obtain ⟨token, htoken, hage⟩ := aged_after hfirst between
  rw [htoken] at hlast
  have heq := Option.some.inj hlast
  rw [← heq, hage.consumed hconsumed] at hnone
  exact hconsumed hnone

end SlashWho.AccountStore
