import SlashWho.AccountEmails

/-!
What holds of sessions, tokens and e-mails over every run of the account operations, in
any order and at any times: a session is used only under the credentials it was issued
under, a token takes effect once, a reset waits only at the account's address, and an
address changes only by both proofs of the account's latest flow.
-/

namespace SlashWho.AccountStore

open Runs

variable {accounts : OrderedMap ℕ AccountRow} {before : List Action} {s : Store}

variable {token : MailToken}

theorem FlowsCurrent.proofRow (h : FlowsCurrent accounts before s) {digest : String} {flowId : ℕ}
    (htoken : s.tokens.get? digest = some token) (hflow : token.flowId = some flowId)
    (hnone : token.consumedAt = none) :
    ∃ first between flow proof, FlowOf accounts before s flowId first between flow ∧
      digest = flow.digest proof ∧ token = emailToken flow flowId proof := by
  obtain ⟨first, between, flow, hof⟩ := h.flows digest token flowId htoken hflow hnone
  obtain ⟨-, proof, hpurpose⟩ := h.below digest token flowId htoken hflow
  have hrow := hof.rows digest token proof htoken hflow hpurpose
  exact ⟨first, between, flow, proof, hof, hrow.digest_eq, hrow.aged.unconsumed hnone⟩

theorem FlowsCurrent.below_aged (h : FlowsCurrent accounts before s) {next : Store}
    (hage : AgedTokens s next) (hflow : s.nextFlow ≤ next.nextFlow) :
    ∀ digest token flowId, next.tokens.get? digest = some token →
      token.flowId = some flowId →
      flowId < next.nextFlow ∧ ∃ proof, token.purpose = EmailProof.purpose proof := by
  intro digest token flowId htoken hid
  obtain ⟨old, hold, hage⟩ := hage.back htoken
  obtain ⟨-, hpurpose, hsame, -⟩ := hage.fields
  obtain ⟨hlt, proof, hproof⟩ := h.below digest old flowId hold (hsame ▸ hid)
  exact ⟨by omega, proof, hpurpose.trans hproof⟩

theorem flowOf_issued (h : FlowsCurrent accounts before s)
    (hs : s = after step (Store.start accounts) before) {input : EmailChange}
    (hdistinct : input.current ≠ input.next)
    (hanswer : answered (issueEmailChange s input) = some true) :
    FlowOf accounts (before ++ [.issueEmailChange input]) (issuedProofs s input) s.nextFlow before
      [] input := by
  refine ⟨⟨rfl, hs ▸ hanswer, nofun⟩, ?_⟩
  intro digest token proof htoken hflow hpurpose
  by_cases hissued : ∃ other, digest = input.digest other
  · obtain ⟨other, hother⟩ := hissued
    rw [hother, get?_issuedProofs hdistinct] at htoken
    have heq := Option.some.inj htoken
    rw [← heq] at hpurpose
    have hsame : other = proof := purpose_injective hpurpose
    rw [hsame] at hother heq
    exact ⟨hother, .inl heq.symm, .inl (by rw [← heq]; rfl)⟩
  · rw [get?_issuedProofs_of_ne (fun proof heq => hissued ⟨proof, heq⟩)] at htoken
    have haged := agedTokens_consumePurposes (countEmailChange s input) input.accountId
      emailPurposes input.now
    obtain ⟨old, hold, hage⟩ := haged.back htoken
    obtain ⟨-, -, hsame, -⟩ := hage.fields
    have hlt := (h.below digest old s.nextFlow hold (hsame ▸ hflow)).1
    omega

theorem flowsCurrent_issued (h : FlowsCurrent accounts before s)
    (hs : s = after step (Store.start accounts) before) {input : EmailChange}
    (hdistinct : input.current ≠ input.next)
    (hanswer : answered (issueEmailChange s input) = some true) :
    FlowsCurrent accounts (before ++ [.issueEmailChange input]) (issuedProofs s input) := by
  have haged : AgedTokens s (consumePurposes (countEmailChange s input) input.accountId
      emailPurposes input.now) :=
    agedTokens_consumePurposes (countEmailChange s input) _ _ _
  constructor
  · intro digest token flowId htoken hflow
    by_cases hissued : ∃ proof, digest = input.digest proof
    · obtain ⟨proof, hproof⟩ := hissued
      rw [hproof, get?_issuedProofs hdistinct] at htoken
      rw [← Option.some.inj htoken] at hflow ⊢
      rw [← Option.some.inj hflow]
      exact ⟨Nat.lt_succ_self _, proof, rfl⟩
    · rw [get?_issuedProofs_of_ne (fun proof heq => hissued ⟨proof, heq⟩)] at htoken
      exact h.below_aged haged (Nat.le_succ _) digest token flowId htoken hflow
  · intro digest token flowId htoken hflow hnone
    by_cases hissued : ∃ proof, digest = input.digest proof
    · obtain ⟨proof, hproof⟩ := hissued
      rw [hproof, get?_issuedProofs hdistinct] at htoken
      rw [← Option.some.inj htoken] at hflow
      rw [← Option.some.inj hflow]
      exact ⟨before, [], input, flowOf_issued h hs hdistinct hanswer⟩
    · rw [get?_issuedProofs_of_ne (fun proof heq => hissued ⟨proof, heq⟩)] at htoken
      have hold : s.tokens.get? digest = some token := haged.unconsumed htoken hnone
      obtain ⟨first, between, flow, proof, hof, -, htokenEq⟩ := h.proofRow hold hflow hnone
      -- the account's earlier proofs are consumed, so the flow is another account's
      have hother : flow.accountId ≠ input.accountId := by
        intro heq
        have hspent := spent_consumePurposes (countEmailChange s input) input.accountId
          emailPurposes input.now digest token htoken
        rw [htokenEq] at hspent
        exact hspent heq (purpose_mem proof) rfl
      refine ⟨first, between ++ [.issueEmailChange input], flow, hof.extend hs ?_ ?_⟩
      · intro hissues
        obtain ⟨later, heq, hid, -⟩ := hissues
        cases heq
        exact hother hid.symm
      · intro digest' token' proof' htoken' hflow' hpurpose'
        have hnot : ¬ ∃ proof, digest' = input.digest proof := by
          intro hissued'
          obtain ⟨proof'', heq⟩ := hissued'
          rw [heq, get?_issuedProofs hdistinct] at htoken'
          rw [← Option.some.inj htoken'] at hflow'
          have hlt := (h.below digest token flowId hold hflow).1
          have hids : s.nextFlow = flowId := Option.some.inj hflow'
          omega
        rw [get?_issuedProofs_of_ne (fun proof heq => hnot ⟨proof, heq⟩)] at htoken'
        obtain ⟨old, hold', hage⟩ := haged.back htoken'
        obtain ⟨-, hpurpose, hsame, -⟩ := hage.fields
        have hrow := hof.rows digest' old proof' hold' (hsame ▸ hflow') (hpurpose ▸ hpurpose')
        have haccount : old.accountId = flow.accountId := hrow.aged.fields.1
        refine ⟨old, hold', hage, .inl ?_⟩
        have hkept := get?_consumePurposes_of_ne (s := countEmailChange s input) emailPurposes
          input.now hold' (haccount ▸ hother)
        rw [hkept] at htoken'
        exact (Option.some.inj htoken').symm

theorem flowsCurrent_confirmed (h : FlowsCurrent accounts before s)
    (hs : s = after step (Store.start accounts) before) {input : EmailConfirm}
    {account : AccountRow}
    (hredeems : Redeems s input.digest input.proof.purpose input.now token account)
    (hanswer : answered (confirmEmailChange s input) = some .pending ∨
      partners (consumeDigest s input.digest input.now) token.flowId input.proof input.now = 1) :
    FlowsCurrent accounts (before ++ [.confirmEmailChange input])
      (consumeDigest s input.digest input.now) := by
  have haged : AgedTokens s (consumeDigest s input.digest input.now) :=
    agedTokens_consumeWhere s _ _
  refine ⟨h.below_aged haged (Nat.le_refl _), ?_⟩
  intro digest unspent flowId hunspent hflow hnone
  have hold := haged.unconsumed hunspent hnone
  obtain ⟨first, between, flow, proof, hof, hdigest, hunspentEq⟩ := h.proofRow hold hflow hnone
  refine ⟨first, between ++ [.confirmEmailChange input], flow, hof.extend hs ?_ ?_⟩
  · intro hissues
    obtain ⟨later, heq, -⟩ := hissues
    cases heq
  · intro digest' token' proof' htoken' hflow' hpurpose'
    obtain ⟨old, hold', hage⟩ := haged.back htoken'
    refine ⟨old, hold', hage, ?_⟩
    by_cases hne : digest' = input.digest
    · right
      rw [hne, hredeems.found] at hold'
      have heq := Option.some.inj hold'
      rw [← heq] at hage
      obtain ⟨-, hpurpose, hsame, -⟩ := hage.fields
      have htokenFlow : token.flowId = some flowId := hsame ▸ hflow'
      have hinput : input.proof = proof' :=
        purpose_injective (hredeems.ofPurpose.symm.trans (hpurpose ▸ hpurpose'))
      have hrow := hof.rows input.digest token proof' hredeems.found htokenFlow
        (hpurpose ▸ hpurpose')
      have hexpiry : input.now < flow.expiresAt := by
        have hsameExpiry : token.expiresAt = flow.expiresAt := hrow.aged.fields.2.2.2
        rw [← hsameExpiry]
        exact hredeems.unexpired
      refine ⟨input, rfl, hinput, hrow.digest_eq, hexpiry, ?_⟩
      rcases hanswer with hpending | hpartners
      · exact hpending
      · -- the partner would be the proof that is left unconsumed
        exfalso
        obtain ⟨flow', key, partner, hid, hpartner, hpartnerFlow, hpartnerPurpose, hconsumed, -⟩ :=
          exists_partner hpartners
        rw [htokenFlow] at hid
        rw [← Option.some.inj hid] at hpartnerFlow
        obtain ⟨oldPartner, holdPartner, hagePartner⟩ := haged.back hpartner
        obtain ⟨-, hpurpose'', hsame'', -⟩ := hagePartner.fields
        have hrow' := hof.rows key oldPartner input.proof.partner holdPartner
          (hsame'' ▸ hpartnerFlow) (hpurpose'' ▸ hpartnerPurpose)
        have hproof : proof ≠ input.proof := by
          intro heq'
          have hsameDigest : digest = input.digest := by
            rw [hdigest, heq', hinput]
            exact hrow.digest_eq.symm
          have hspent : unspent.consumedAt ≠ none := by
            rw [hsameDigest] at hunspent
            exact consumed_consumeWhere (by simp) hredeems.found hunspent
          exact hspent hnone
        rw [← partner_of_ne hproof] at hrow'
        rw [hrow'.digest_eq, ← hdigest, hunspent] at hpartner
        exact hconsumed (Option.some.inj hpartner ▸ hnone)
    · left
      rw [get?_consumeDigest_of_ne hne, hold'] at htoken'
      exact (Option.some.inj htoken').symm

theorem flowsCurrent_changed (h : FlowsCurrent accounts before s)
    (hs : s = after step (Store.start accounts) before) {input : EmailConfirm}
    {account : AccountRow} {canonicalEmail email : String}
    (hredeems : Redeems s input.digest input.proof.purpose input.now token account) :
    FlowsCurrent accounts (before ++ [.confirmEmailChange input])
      (changeEmail (consumeDigest s input.digest input.now) token.accountId canonicalEmail email
        input.now) := by
  have haged := agedTokens_changeEmail s input.digest token.accountId canonicalEmail email input.now
  refine ⟨h.below_aged haged (Nat.le_refl _), ?_⟩
  intro digest unspent flowId hunspent hflow hnone
  have hold := haged.unconsumed hunspent hnone
  obtain ⟨first, between, flow, proof, hof, -, hunspentEq⟩ := h.proofRow hold hflow hnone
  have hother : flow.accountId ≠ token.accountId := by
    intro heq
    have hspent := (spent_changeEmail (consumeDigest s input.digest input.now) token.accountId
      canonicalEmail email input.now).2 digest unspent hunspent
    rw [hunspentEq] at hspent
    exact hspent heq (purpose_mem proof) rfl
  refine ⟨first, between ++ [.confirmEmailChange input], flow, hof.extend hs ?_ ?_⟩
  · intro hissues
    obtain ⟨later, heq, -⟩ := hissues
    cases heq
  · intro digest' token' proof' htoken' hflow' hpurpose'
    obtain ⟨old, hold', hage⟩ := haged.back htoken'
    obtain ⟨-, hpurpose, hsame, -⟩ := hage.fields
    have hrow := hof.rows digest' old proof' hold' (hsame ▸ hflow') (hpurpose ▸ hpurpose')
    have haccount : old.accountId ≠ token.accountId := by
      rw [hrow.aged.fields.1]
      exact hother
    have hdigest : digest' ≠ input.digest := by
      intro heq
      rw [heq, hredeems.found] at hold'
      rw [Option.some.inj hold'] at haccount
      exact haccount rfl
    refine ⟨old, hold', hage, .inl ?_⟩
    rw [get?_changeEmail_of_ne hold' haccount hdigest] at htoken'
    exact (Option.some.inj htoken').symm

theorem flowsCurrent_kept (h : FlowsCurrent accounts before s)
    (hs : s = after step (Store.start accounts) before) {a : Action} {next : Store}
    (hage : AgedTokens s next)
    (hemails : ∀ digest token, s.tokens.get? digest = some token →
      token.purpose ∈ emailPurposes → next.tokens.get? digest = some token)
    (hflow : next.nextFlow = s.nextFlow)
    (hquiet : ∀ input, a = .issueEmailChange input →
      answered (issueEmailChange s input) ≠ some true) :
    FlowsCurrent accounts (before ++ [a]) next := by
  refine ⟨h.below_aged hage (Nat.le_of_eq hflow.symm), ?_⟩
  intro digest unspent flowId hunspent hid hnone
  have hold := hage.unconsumed hunspent hnone
  obtain ⟨first, between, flow, proof, hof, -, -⟩ := h.proofRow hold hid hnone
  refine ⟨first, between ++ [a], flow, hof.extend hs ?_ ?_⟩
  · intro hissues
    obtain ⟨later, heq, -, hanswer⟩ := hissues
    exact hquiet later heq hanswer
  · intro digest' token' proof' htoken' hflow' hpurpose'
    obtain ⟨old, hold', hage'⟩ := hage.back htoken'
    obtain ⟨-, hpurpose, -, -⟩ := hage'.fields
    refine ⟨old, hold', hage', .inl ?_⟩
    have hmem : old.purpose ∈ emailPurposes := by
      rw [← hpurpose, hpurpose']
      exact purpose_mem proof'
    rw [hemails digest' old hold' hmem] at htoken'
    exact (Option.some.inj htoken').symm

theorem flowsCurrent_mailed (h : FlowsCurrent accounts before s)
    (hs : s = after step (Store.start accounts) before) {input : MailIssue} :
    FlowsCurrent accounts (before ++ [.issueMail input])
      { s with tokens := s.tokens.set input.tokenDigest input.token } := by
  have hback : ∀ digest token flowId,
      (s.tokens.set input.tokenDigest input.token).get? digest = some token →
      token.flowId = some flowId → s.tokens.get? digest = some token := by
    intro digest token flowId htoken hflow
    rw [OrderedMap.get?_set] at htoken
    split at htoken
    · rw [← Option.some.inj htoken] at hflow
      cases hflow
    · exact htoken
  constructor
  · intro digest token flowId htoken hflow
    exact h.below digest token flowId (hback digest token flowId htoken hflow) hflow
  · intro digest token flowId htoken hflow hnone
    have hold := hback digest token flowId htoken hflow
    obtain ⟨first, between, flow, proof, hof, -, -⟩ := h.proofRow hold hflow hnone
    refine ⟨first, between ++ [.issueMail input], flow, hof.extend hs ?_ ?_⟩
    · intro hissues
      obtain ⟨later, heq, -⟩ := hissues
      cases heq
    · intro digest' token' proof' htoken' hflow' _
      exact ⟨token', hback digest' token' flowId htoken' hflow', Aged.refl token', .inl rfl⟩

theorem flowsCurrent_step (h : FlowsCurrent accounts before s)
    (hs : s = after step (Store.start accounts) before) (a : Action) :
    FlowsCurrent accounts (before ++ [a]) (step s a) := by
  have hstep := tokenStep_step s a
  revert hstep
  generalize step s a = next
  intro hstep
  cases hstep with
  | kept aged emails flow quiet => exact flowsCurrent_kept h hs aged emails flow quiet
  | confirmed redeems answer => exact flowsCurrent_confirmed h hs redeems answer
  | changed redeems => exact flowsCurrent_changed h hs redeems
  | mailed owner mailbox fresh answer => exact flowsCurrent_mailed h hs
  | flowed unexpired distinct fresh answer => exact flowsCurrent_issued h hs distinct answer

theorem flowsCurrent_after (accounts : OrderedMap ℕ AccountRow) (actions : List Action) :
    FlowsCurrent accounts actions (after step (Store.start accounts) actions) := by
  apply keeps_history (FlowsCurrent accounts)
  · exact ⟨nofun, nofun⟩
  · intro before a h
    exact flowsCurrent_step h rfl a

variable (accounts : OrderedMap ℕ AccountRow) (actions : List Action)

def reached (before : List Action) : Store := after step (Store.start accounts) before

/-- A step that leaves an account's password, e-mail, role and active flag as they are,
and does not claim to change them. -/
def Unaltered (p : Store × Action) (id : ℕ) : Prop :=
  ¬ Alters p.1 id p.2 ∧ ((step p.1 p.2).accounts.get? id).map AccountRow.credentials =
    (p.1.accounts.get? id).map AccountRow.credentials

/-- The law of the account operations over one run. -/
structure Secure : Prop where
  /-- An accepted session was issued under the credentials its account has now. -/
  sessions : ∀ before use rest account row, actions = before ++ .useSession use :: rest →
    (useSession (reached accounts before) use).1 = some (account, row) →
    (reached accounts before).accounts.get? row.accountId = some account ∧
      account.active = true ∧ verified account = true ∧
      ∃ first issue between issued, before = first ++ .issueSession issue :: between ∧
        issue.sessionId = use.sessionId ∧ issue.accountId = row.accountId ∧
        answered (issueSession (reached accounts first) issue) = some (some issued) ∧
        issued.credentialVersion = account.credentialVersion ∧
        ∀ p ∈ stepsFrom accounts (first ++ [.issueSession issue]) between,
          Unaltered p row.accountId
  /-- No session is accepted after a change of the credentials it was issued under. -/
  afterChange : ∀ first issue issued between change middle use rest,
    actions = first ++ .issueSession issue :: (between ++ change :: (middle ++
      .useSession use :: rest)) →
    answered (issueSession (reached accounts first) issue) = some (some issued) →
    Alters (reached accounts (first ++ .issueSession issue :: between)) issue.accountId change →
    use.sessionId = issue.sessionId →
    (useSession (reached accounts (first ++ .issueSession issue :: (between ++ change ::
      middle))) use).1 = none
  /-- A token takes effect at most once. -/
  tokens : ∀ digest first a between b rest, actions = first ++ a :: (between ++ b :: rest) →
    TakesEffect (reached accounts first) digest a →
    ¬ TakesEffect (reached accounts (first ++ a :: between)) digest b
  /-- An unconsumed reset was issued to the address its account has. -/
  resets : ∀ before rest digest token, actions = before ++ rest →
    (reached accounts before).tokens.get? digest = some token → token.purpose = .reset →
    token.consumedAt = none →
    ∃ account, (reached accounts before).accounts.get? token.accountId = some account ∧
      ResetIssued accounts digest token.accountId account.canonicalEmail before
  /-- An address changes only by the second proof of the account's latest flow. -/
  emails : ∀ before a rest id, actions = before ++ a :: rest →
    ((step (reached accounts before) a).accounts.get? id).map AccountRow.emails ≠
      ((reached accounts before).accounts.get? id).map AccountRow.emails →
    ∃ confirm first between flow, a = .confirmEmailChange confirm ∧
      LatestFlow accounts before first between flow ∧ flow.accountId = id ∧
      confirm.digest = flow.digest confirm.proof ∧ confirm.now < flow.expiresAt ∧
      (∃ p ∈ stepsFrom accounts (first ++ [.issueEmailChange flow]) between,
        ConfirmsProof p flow confirm.proof.partner) ∧
      ((step (reached accounts before) a).accounts.get? id).map AccountRow.emails =
        some (flow.canonicalEmail, flow.email)

variable {accounts}

theorem reached_append (first : List Action) (a : Action) (rest : List Action) :
    reached accounts (first ++ a :: rest) = after step (step (reached accounts first) a) rest :=
  after_append step (Store.start accounts) first (a :: rest)

variable {issue : SessionIssue} {issued : SessionRow}

theorem issued_session {s : Store} (h : answered (issueSession s issue) = some (some issued)) :
    ∃ account, s.accounts.get? issue.accountId = some account ∧
      issued = issue.row account ∧
      ((step s (.issueSession issue)).sessions.get? issue.sessionId).map SessionRow.bound =
        some (issue.accountId, account.credentialVersion) ∧
      (step s (.issueSession issue)).accounts = s.accounts := by
  rcases issueSession_cases s issue with hsame | ⟨account, haccount, -, -, -, hanswer, hstore⟩
  · exact absurd h (hsame.1 issued)
  · rw [h] at hanswer
    refine ⟨account, haccount, Option.some.inj (Option.some.inj hanswer), ?_, ?_⟩
    · change ((committed s (issueSession s issue)).sessions.get? _).map _ = _
      rw [hstore]
      simp only
      rw [OrderedMap.get?_set_self]
      rfl
    · change (committed s (issueSession s issue)).accounts = _
      rw [hstore]

variable {use : SessionUse}

variable {account : AccountRow} {row : SessionRow}

theorem used_session {s : Store} (h : (useSession s use).1 = some (account, row)) :
    s.accounts.get? row.accountId = some account ∧ account.active = true ∧
      verified account = true ∧
      (s.sessions.get? use.sessionId).map SessionRow.bound =
        some (row.accountId, account.credentialVersion) := by
  rcases useSession_cases s use with hsame |
    ⟨old, owner, hold, howner, hversion, hactive, hverified, hanswer, -⟩
  · rw [hsame.1] at h
    cases h
  · rw [hanswer] at h
    obtain ⟨howns, hrow⟩ := Prod.mk.inj (Option.some.inj h)
    rw [← howns, ← hrow]
    refine ⟨howner, hactive, hverified, ?_⟩
    rw [hold, Option.map_some, ← hversion]
    rfl

theorem unaltered_between {first between : List Action}
    (hissue : answered (issueSession (reached accounts first) issue) = some (some issued))
    (huse : (useSession (reached accounts (first ++ .issueSession issue :: between)) use).1 =
      some (account, row)) (hid : issue.accountId = row.accountId)
    (hversion : issued.credentialVersion = account.credentialVersion) :
    ∀ p ∈ stepsFrom accounts (first ++ [.issueSession issue]) between,
      Unaltered p row.accountId := by
  obtain ⟨owner, howner, hissued, -, haccounts⟩ := issued_session hissue
  obtain ⟨haccount, -, -, -⟩ := used_session huse
  intro p hp
  have hstart : (after step (Store.start accounts) (first ++ [.issueSession issue])).accounts.get?
      row.accountId = some owner := by
    rw [after_append, ← hid]
    exact (congrArg (fun table => table.get? issue.accountId) haccounts).trans howner
  have hend : (after step (after step (Store.start accounts) (first ++ [.issueSession issue]))
      between).accounts.get? row.accountId = some account := by
    rw [← after_append, List.append_assoc]
    exact haccount
  have hnot : ¬ Alters p.1 row.accountId p.2 := by
    intro halters
    have hlt := version_altered hstart hend hp halters
    rw [hissued] at hversion
    exact absurd hversion (Nat.ne_of_lt hlt)
  refine ⟨hnot, ?_⟩
  rcases moves_step p.1 p.2 row.accountId with ⟨halters, -⟩ | ⟨-, hsame⟩
  · exact absurd halters hnot
  · exact hsame

theorem issued_of_used {before : List Action}
    (h : (useSession (reached accounts before) use).1 = some (account, row)) :
    ∃ first issue between issued, before = first ++ .issueSession issue :: between ∧
      issue.sessionId = use.sessionId ∧ issue.accountId = row.accountId ∧
      answered (issueSession (reached accounts first) issue) = some (some issued) ∧
      issued.credentialVersion = account.credentialVersion := by
  obtain ⟨-, -, -, hbound⟩ := used_session h
  obtain ⟨first, issue, between, owner, hbefore, hid, -, hanswer, hpair⟩ :=
    issued_of_get? accounts before use.sessionId _ hbound
  obtain ⟨haccount, hversion⟩ := Prod.mk.inj hpair
  exact ⟨first, issue, between, issue.row owner, hbefore, hid, haccount.symm, hanswer,
    hversion.symm⟩

theorem refused_after_change {first between middle : List Action} {change : Action}
    (hissue : answered (issueSession (reached accounts first) issue) = some (some issued))
    (hchange : Alters (reached accounts (first ++ .issueSession issue :: between)) issue.accountId
      change) (hid : use.sessionId = issue.sessionId) :
    (useSession (reached accounts (first ++ .issueSession issue :: (between ++ change ::
      middle))) use).1 = none := by
  obtain ⟨owner, howner, hissued, hbound, haccounts⟩ := issued_session hissue
  cases huse : (useSession (reached accounts (first ++ .issueSession issue :: (between ++ change ::
      middle))) use).1 with
  | none => rfl
  | some answer =>
    exfalso
    obtain ⟨account, row⟩ := answer
    obtain ⟨haccount, -, -, hrow⟩ := used_session huse
    -- the session is still bound as it was issued
    have hkept := bound_after hbound (between ++ change :: middle)
    have hstate : after step (step (reached accounts first) (.issueSession issue))
        (between ++ change :: middle) =
        reached accounts (first ++ .issueSession issue :: (between ++ change :: middle)) :=
      (reached_append first (.issueSession issue) _).symm
    rw [hstate, ← hid, hrow] at hkept
    obtain ⟨haccountId, hversion⟩ := Prod.mk.inj (Option.some.inj hkept)
    have hstart : (step (reached accounts first) (.issueSession issue)).accounts.get?
        row.accountId = some owner := by
      rw [haccounts, haccountId]
      exact howner
    have hmember : (reached accounts (first ++ .issueSession issue :: between), change) ∈
        steps step (step (reached accounts first) (.issueSession issue))
          (between ++ change :: middle) := by
      exact (mem_steps_iff step).mpr ⟨between, middle, rfl,
        reached_append first (.issueSession issue) between⟩
    have hlt := version_altered hstart (hstate ▸ haccount) hmember (haccountId ▸ hchange)
    exact absurd hversion.symm (Nat.ne_of_lt hlt)

theorem confirmed_of_changed {before : List Action} {a : Action} {id : ℕ}
    (h : ((step (reached accounts before) a).accounts.get? id).map AccountRow.emails ≠
      ((reached accounts before).accounts.get? id).map AccountRow.emails) :
    ∃ confirm first between flow, a = .confirmEmailChange confirm ∧
      LatestFlow accounts before first between flow ∧ flow.accountId = id ∧
      confirm.digest = flow.digest confirm.proof ∧ confirm.now < flow.expiresAt ∧
      (∃ p ∈ stepsFrom accounts (first ++ [.issueEmailChange flow]) between,
        ConfirmsProof p flow confirm.proof.partner) ∧
      ((step (reached accounts before) a).accounts.get? id).map AccountRow.emails =
        some (flow.canonicalEmail, flow.email) := by
  have hcurrent : FlowsCurrent accounts before (reached accounts before) :=
    flowsCurrent_after accounts before
  rcases emails_step (reached accounts before) a id with hsame |
    ⟨confirm, token, account, canonicalEmail, email, haction, hid, hchanges⟩
  · exact absurd hsame h
  · obtain ⟨flowId, key, partner, hflow, hpartner, hpartnerFlow, hpartnerPurpose, hconsumed, -⟩ :=
      exists_partner hchanges.partner
    have hredeems := hchanges.redeems
    obtain ⟨first, between, flow, proof, hof, hdigest, htoken⟩ :=
      hcurrent.proofRow hredeems.found hflow hredeems.unconsumed
    have hpurpose : confirm.proof = proof := by
      apply purpose_injective
      rw [← hredeems.ofPurpose, htoken]
      rfl
    -- the partner is another token, so it was consumed before this confirmation
    have hkey : key ≠ confirm.digest := by
      intro heq
      rw [heq] at hpartner
      obtain ⟨old, hold, hage⟩ :=
        (agedTokens_consumeWhere (reached accounts before) _ _).back hpartner
      rw [hredeems.found] at hold
      have hsame := hage.fields.2.1
      rw [← Option.some.inj hold, hpartnerPurpose, hredeems.ofPurpose] at hsame
      have hself := purpose_injective hsame
      revert hself
      cases confirm.proof <;> exact nofun
    rw [get?_consumeDigest_of_ne hkey] at hpartner
    have hrow := hof.rows key partner confirm.proof.partner hpartner hpartnerFlow hpartnerPurpose
    have hconfirmed := hrow.confirmed.resolve_left hconsumed
    have hflowAccount : flow.accountId = id := by
      rw [← hid, htoken]
      rfl
    refine ⟨confirm, first, between, flow, haction, hof.latest, hflowAccount, hpurpose ▸ hdigest,
      ?_, hconfirmed, ?_⟩
    · have hunexpired := hredeems.unexpired
      rw [htoken] at hunexpired
      exact hunexpired
    · have hcanonical := hchanges.canonical
      have hdisplay := hchanges.display
      have howner := hredeems.owner
      rw [haction, hchanges.store, hid]
      rw [hid] at howner
      rw [htoken] at hcanonical hdisplay
      change ((updateAccount (consumeDigest _ _ _) id _).accounts.get? id).map _ = _
      rw [get?_updateAccount_self _ (show (consumeDigest (reached accounts before) confirm.digest
        confirm.now).accounts.get? id = some account from howner)]
      rw [Option.some.inj hcanonical, Option.some.inj hdisplay]
      rfl

/-- Whatever the accounts at first, and however the operations interleave. -/
theorem runs_secure (accounts : OrderedMap ℕ AccountRow) (actions : List Action) :
    Secure accounts actions := by
  constructor
  · intro before use rest account row hactions h
    obtain ⟨haccount, hactive, hverified, -⟩ := used_session h
    obtain ⟨first, issue, between, issued, hbefore, hid, hissueId, hanswer, hversion⟩ :=
      issued_of_used h
    refine ⟨haccount, hactive, hverified, first, issue, between, issued, hbefore, hid, hissueId,
      hanswer, hversion, ?_⟩
    rw [hbefore] at h
    exact unaltered_between hanswer h hissueId hversion
  · intro first issue issued between change middle use rest hactions hissue hchange hid
    exact refused_after_change hissue hchange hid
  · intro digest first a between b rest hactions h
    rw [reached_append]
    exact takesEffect_once between h
  · intro before rest digest token hactions htoken hpurpose hnone
    exact resetsCurrent_after accounts before digest token htoken hpurpose hnone
  · intro before a rest id hactions h
    exact confirmed_of_changed h

end SlashWho.AccountStore
