import SlashWho.AccountTokens

/-!
The e-mail of an account over a run. It changes only where the second proof of one flow is
confirmed, and the sessions, the resets and the other proofs of the account then go. So an
unconsumed reset was sent to the address the account has, and a change of address had both
of its proofs confirmed, unexpired, with no later flow issued for the account.
-/

namespace SlashWho.AccountStore

open Runs

variable {s next : Store} {id : ℕ}

def AccountRow.emails (row : AccountRow) : String × String := (row.canonicalEmail, row.email)

theorem emails_updateAccount {target : ℕ} {change : AccountRow → AccountRow}
    (h : ∀ row, (change row).emails = row.emails) (s : Store) (id : ℕ) :
    ((updateAccount s target change).accounts.get? id).map AccountRow.emails =
      (s.accounts.get? id).map AccountRow.emails := by
  rw [get?_updateAccount, Option.map_map]
  congr 1
  funext row
  simp only [Function.comp_apply]
  split
  · exact h row
  · rfl

structure ChangesEmail (s : Store) (input : EmailConfirm) (token : MailToken)
    (account : AccountRow) (canonicalEmail email : String) : Prop where
  redeems : Redeems s input.digest input.proof.purpose input.now token account
  canonical : token.proposedCanonicalEmail = some canonicalEmail
  display : token.proposedEmail = some email
  partner : partners (consumeDigest s input.digest input.now) token.flowId input.proof input.now = 1
  store : step s (.confirmEmailChange input) = changeEmail (consumeDigest s input.digest input.now)
    token.accountId canonicalEmail email input.now

theorem emails_mutate (s : Store) (input : AdminInput) (mutation : AdminMutation) (id : ℕ) :
    ((mutateAccountAdmin s input mutation).2.accounts.get? id).map AccountRow.emails =
      (s.accounts.get? id).map AccountRow.emails := by
  rcases mutateAccountAdmin_cases s input mutation with hsame | ⟨target, -, -, hstore⟩
  · rw [hsame.2]
  · rw [hstore]
    refine emails_updateAccount ?_ s id
    intro row
    cases mutation <;> rfl

theorem emails_step (s : Store) (a : Action) (id : ℕ) :
    ((step s a).accounts.get? id).map AccountRow.emails =
        (s.accounts.get? id).map AccountRow.emails ∨
      ∃ input token account canonicalEmail email, a = .confirmEmailChange input ∧
        token.accountId = id ∧ ChangesEmail s input token account canonicalEmail email := by
  rcases moves_step s a id with ⟨halters, -⟩ | ⟨-, hsame⟩
  · cases a with
    | changePassword input =>
      left
      change ((changePassword s input).2.accounts.get? id).map _ = _
      rcases changePassword_cases s input with hsame | ⟨account, -, -, hstore⟩
      · rw [hsame.2]
      · rw [hstore]
        apply emails_updateAccount
        intro row
        rfl
    | completeReset input =>
      left
      change ((completeReset s input).2.accounts.get? id).map _ = _
      rcases completeReset_cases s input with hsame | ⟨token, account, -, -, hstore⟩
      · rw [hsame.2]
      · rw [hstore]
        refine Eq.trans (emails_updateAccount ?_ (consumeDigest s input.digest input.now) id) rfl
        intro row
        rfl
    | confirmEmailChange input =>
      right
      obtain ⟨htoken, hanswer⟩ := halters
      rcases confirmEmailChange_cases s input with
        ⟨-, hchanged, -⟩ | ⟨token, account, hredeems, hrest⟩
      · exact absurd hanswer hchanged
      · unfold tokenAccount at htoken
        rw [hredeems.found, Option.map_some, Option.some.injEq] at htoken
        rcases hrest with ⟨hpending, -, -⟩ | ⟨hinvalid, -, -⟩ |
          ⟨canonicalEmail, email, hcanonical, hemail, hpartners, -, hstore⟩
        · rw [hpending] at hanswer
          cases hanswer
        · rw [hinvalid] at hanswer
          cases hanswer
        · exact ⟨input, token, account, canonicalEmail, email, rfl, htoken,
            ⟨hredeems, hcanonical, hemail, hpartners, hstore⟩⟩
    | setRole input role => exact .inl (emails_mutate s input (.role role) id)
    | setActive input active => exact .inl (emails_mutate s input (.active active) id)
    | requirePasswordChange input => exact .inl (emails_mutate s input .passwordChange id)
    | _ => exact halters.elim
  · left
    have hemails : ∀ account : AccountRow, account.emails =
        (account.credentials.canonicalEmail, account.credentials.email) := fun account => rfl
    have hmap := congrArg
      (Option.map (fun c : Credentials => (c.canonicalEmail, c.email))) hsame
    rw [Option.map_map, Option.map_map] at hmap
    exact hmap

/-- No token of the account with one of the purposes is left to redeem. -/
def Spent (s : Store) (id : ℕ) (purposes : List TokenPurpose) : Prop :=
  ∀ digest token, s.tokens.get? digest = some token → token.accountId = id →
    token.purpose ∈ purposes → token.consumedAt ≠ none

theorem spent_consumePurposes (s : Store) (id : ℕ) (purposes : List TokenPurpose) (now : ℤ) :
    Spent (consumePurposes s id purposes now) id purposes := by
  intro digest token htoken hid hpurpose
  obtain ⟨old, hold, haged⟩ := (agedTokens_consumePurposes s id purposes now).back htoken
  have hsame : old.accountId = token.accountId ∧ old.purpose = token.purpose := by
    rcases haged with h | ⟨-, at_, h⟩
    · rw [h]
      exact ⟨rfl, rfl⟩
    · rw [h]
      exact ⟨rfl, rfl⟩
  refine consumed_consumeWhere ?_ hold htoken
  rw [hsame.1, hsame.2, hid]
  simpa using hpurpose

theorem Spent.aged {purposes : List TokenPurpose} (h : Spent s id purposes)
    (hnext : AgedTokens s next) : Spent next id purposes := by
  intro digest token htoken hid hpurpose
  obtain ⟨old, hold, hage⟩ := hnext.back htoken
  rcases hage with hsame | ⟨-, now, hconsumed⟩
  · rw [hsame] at hid hpurpose ⊢
    exact h digest old hold hid hpurpose
  · rw [hconsumed]
    simp

theorem spent_changeEmail (s : Store) (id : ℕ) (canonicalEmail email : String) (now : ℤ) :
    Spent (changeEmail s id canonicalEmail email now) id [.reset] ∧
      Spent (changeEmail s id canonicalEmail email now) id emailPurposes := by
  unfold changeEmail
  constructor
  · exact (spent_consumePurposes _ id [.reset] now).aged (agedTokens_consumeWhere _ _ now)
  · exact spent_consumePurposes _ id emailPurposes now

variable (accounts : OrderedMap ℕ AccountRow)

/-- The actions issued the reset to the account, at the address. -/
def ResetIssued (digest : String) (id : ℕ) (canonicalEmail : String) (actions : List Action) :
    Prop :=
  ∃ first issue between, actions = first ++ .issueMail issue :: between ∧
    issue.tokenDigest = digest ∧ issue.purpose = .reset ∧ issue.accountId = id ∧
    answered (issueMail (after step (Store.start accounts) first) issue) = some true ∧
    issue.expectedCanonicalEmail = some canonicalEmail

variable {accounts}

theorem ResetIssued.append {digest : String} {id : ℕ} {canonicalEmail : String}
    {actions : List Action} (h : ResetIssued accounts digest id canonicalEmail actions)
    (a : Action) : ResetIssued accounts digest id canonicalEmail (actions ++ [a]) := by
  obtain ⟨first, issue, between, hactions, hrest⟩ := h
  refine ⟨first, issue, between ++ [a], ?_, hrest⟩
  rw [hactions, List.append_assoc, List.cons_append]

/-- Every unconsumed reset was issued to the address its account has. -/
def ResetsCurrent (accounts : OrderedMap ℕ AccountRow) (actions : List Action) (s : Store) :
    Prop :=
  ∀ digest token, s.tokens.get? digest = some token → token.purpose = .reset →
    token.consumedAt = none →
    ∃ account, s.accounts.get? token.accountId = some account ∧
      ResetIssued accounts digest token.accountId account.canonicalEmail actions

theorem resetsCurrent_step {before : List Action} {s : Store} {a : Action}
    (hs : s = after step (Store.start accounts) before) (h : ResetsCurrent accounts before s) :
    ResetsCurrent accounts (before ++ [a]) (step s a) := by
  intro digest token htoken hpurpose hnone
  -- a token of before keeps its account's address, or its account has none left
  have hkeeps : s.tokens.get? digest = some token → ∃ account,
      (step s a).accounts.get? token.accountId = some account ∧
        ResetIssued accounts digest token.accountId account.canonicalEmail (before ++ [a]) := by
    intro hold
    obtain ⟨account, haccount, hissued⟩ := h digest token hold hpurpose hnone
    rcases emails_step s a token.accountId with hsame |
      ⟨input, other, owner, canonicalEmail, email, haction, hid, hchanges⟩
    · rw [haccount, Option.map_some, Option.map_eq_some_iff] at hsame
      obtain ⟨account', haccount', hemails⟩ := hsame
      refine ⟨account', haccount', ?_⟩
      have hcanonical : account'.canonicalEmail = account.canonicalEmail :=
        congrArg Prod.fst hemails
      rw [hcanonical]
      exact hissued.append a
    · subst haction
      rw [hchanges.store] at htoken
      have hspent := (spent_changeEmail (consumeDigest s input.digest input.now) other.accountId
        canonicalEmail email input.now).1
      exact absurd hnone (hspent digest token htoken hid.symm (by simp [hpurpose]))
  have hstep := tokenStep_step s a
  revert hkeeps htoken hstep
  generalize step s a = next
  intro htoken hkeeps hstep
  cases hstep with
  | kept aged emails flow quiet => exact hkeeps (aged.unconsumed htoken hnone)
  | confirmed redeems answer => exact hkeeps ((agedTokens_consumeWhere s _ _).unconsumed htoken hnone)
  | changed redeems => exact hkeeps ((agedTokens_changeEmail s _ _ _ _ _).unconsumed htoken hnone)
  | mailed owner mailbox fresh answer =>
    rename_i input account
    simp only at htoken
    rw [OrderedMap.get?_set] at htoken
    split at htoken
    · rename_i hdigest
      have heq := Option.some.inj htoken
      subst heq
      refine ⟨account, owner, before, input, [], rfl, hdigest.symm, hpurpose, rfl, ?_,
        mailbox hpurpose⟩
      rw [← hs]
      exact answer
    · exact hkeeps htoken
  | flowed unexpired distinct fresh answer =>
    rename_i input
    have hne : ∀ proof, digest ≠ input.digest proof := by
      intro proof heq
      rw [heq, get?_issuedProofs distinct] at htoken
      rw [← Option.some.inj htoken] at hpurpose
      cases proof <;> cases hpurpose
    apply hkeeps
    rw [get?_issuedProofs_of_ne hne] at htoken
    exact (agedTokens_consumePurposes (countEmailChange s input) _ _ _).unconsumed htoken hnone

theorem resetsCurrent_after (accounts : OrderedMap ℕ AccountRow) (actions : List Action) :
    ResetsCurrent accounts actions (after step (Store.start accounts) actions) := by
  apply keeps_history (ResetsCurrent accounts)
  · intro digest token htoken
    cases htoken
  · intro before a h
    exact resetsCurrent_step rfl h

variable (accounts : OrderedMap ℕ AccountRow)

def IssuesFlow (p : Store × Action) (id : ℕ) : Prop :=
  ∃ flow, p.2 = .issueEmailChange flow ∧ flow.accountId = id ∧
    answered (issueEmailChange p.1 flow) = some true

/-- The operation confirms a proof of a flow, unexpired, and waits for the other. -/
def ConfirmsProof (p : Store × Action) (flow : EmailChange) (proof : EmailProof) : Prop :=
  ∃ confirm, p.2 = .confirmEmailChange confirm ∧ confirm.proof = proof ∧
    confirm.digest = flow.digest proof ∧ confirm.now < flow.expiresAt ∧
    answered (confirmEmailChange p.1 confirm) = some .pending

def stepsFrom (first between : List Action) : List (Store × Action) :=
  steps step (after step (Store.start accounts) first) between

/-- The actions issued the flow for its account, and none for it since. -/
structure LatestFlow (actions first between : List Action) (flow : EmailChange) : Prop where
  actions : actions = first ++ .issueEmailChange flow :: between
  answer : answered (issueEmailChange (after step (Store.start accounts) first) flow) = some true
  latest : ∀ p ∈ stepsFrom accounts (first ++ [.issueEmailChange flow]) between,
    ¬ IssuesFlow p flow.accountId

variable {accounts}

theorem stepsFrom_append (first between : List Action) (a : Action) :
    stepsFrom accounts first (between ++ [a]) = stepsFrom accounts first between ++
      [(after step (Store.start accounts) (first ++ between), a)] := by
  unfold stepsFrom
  rw [steps_append, after_append]
  rfl

theorem LatestFlow.append {actions first between : List Action} {flow : EmailChange}
    (h : LatestFlow accounts actions first between flow) {a : Action}
    (hquiet : ¬ IssuesFlow (after step (Store.start accounts) actions, a) flow.accountId) :
    LatestFlow accounts (actions ++ [a]) first (between ++ [a]) flow := by
  refine ⟨?_, h.answer, ?_⟩
  · rw [h.actions, List.append_assoc, List.cons_append]
  · intro p hp
    rw [stepsFrom_append, List.mem_append, List.mem_singleton] at hp
    rcases hp with hp | hp
    · exact h.latest p hp
    · rw [hp]
      rw [h.actions] at hquiet
      rw [List.append_assoc]
      exact hquiet

/-- A proof of a flow in the store: as it was issued or consumed since, and if so
confirmed. -/
structure ProofRow (accounts : OrderedMap ℕ AccountRow) (first between : List Action)
    (flow : EmailChange) (flowId : ℕ) (digest : String) (token : MailToken) (proof : EmailProof) :
    Prop where
  digest_eq : digest = flow.digest proof
  aged : Aged (emailToken flow flowId proof) token
  confirmed : token.consumedAt = none ∨
    ∃ p ∈ stepsFrom accounts (first ++ [.issueEmailChange flow]) between,
      ConfirmsProof p flow proof

/-- The flow is its account's latest, and its proofs in the store are its own. -/
structure FlowOf (accounts : OrderedMap ℕ AccountRow) (actions : List Action) (s : Store)
    (flowId : ℕ) (first between : List Action) (flow : EmailChange) : Prop where
  latest : LatestFlow accounts actions first between flow
  rows : ∀ digest token proof, s.tokens.get? digest = some token → token.flowId = some flowId →
    token.purpose = EmailProof.purpose proof →
    ProofRow accounts first between flow flowId digest token proof

/-- A step that issues no later flow, and consumes no proof but one it confirms. -/
theorem FlowOf.extend {actions first between : List Action} {s next : Store} {a : Action}
    {flowId : ℕ} {flow : EmailChange} (h : FlowOf accounts actions s flowId first between flow)
    (hs : s = after step (Store.start accounts) actions)
    (hquiet : ¬ IssuesFlow (s, a) flow.accountId)
    (hrows : ∀ digest token proof, next.tokens.get? digest = some token →
      token.flowId = some flowId → token.purpose = EmailProof.purpose proof →
      ∃ old, s.tokens.get? digest = some old ∧ Aged old token ∧
        (token = old ∨ ConfirmsProof (s, a) flow proof)) :
    FlowOf accounts (actions ++ [a]) next flowId first (between ++ [a]) flow := by
  refine ⟨h.latest.append (hs ▸ hquiet), ?_⟩
  intro digest token proof htoken hflow hpurpose
  obtain ⟨old, hold, hage, hcases⟩ := hrows digest token proof htoken hflow hpurpose
  obtain ⟨-, hsame, hsameFlow, -⟩ := hage.fields
  have hrow := h.rows digest old proof hold (hsameFlow ▸ hflow) (hsame ▸ hpurpose)
  refine ⟨hrow.digest_eq, hrow.aged.trans hage, ?_⟩
  have hstate : s = after step (Store.start accounts) (first ++ [.issueEmailChange flow] ++
      between) := by
    rw [hs, h.latest.actions, List.append_assoc]
    rfl
  rw [stepsFrom_append, ← hstate]
  rcases hcases with heq | hconfirms
  · rw [heq]
    rcases hrow.confirmed with hnone | ⟨p, hp, hconfirms⟩
    · exact .inl hnone
    · exact .inr ⟨p, List.mem_append_left _ hp, hconfirms⟩
  · exact .inr ⟨(s, a), List.mem_append_right _ List.mem_cons_self, hconfirms⟩

/-- Every flow id is spoken for, and an unconsumed proof is of its account's latest flow. -/
structure FlowsCurrent (accounts : OrderedMap ℕ AccountRow) (actions : List Action) (s : Store) :
    Prop where
  below : ∀ digest token flowId, s.tokens.get? digest = some token →
    token.flowId = some flowId → flowId < s.nextFlow ∧ ∃ proof, token.purpose = EmailProof.purpose proof
  flows : ∀ digest token flowId, s.tokens.get? digest = some token →
    token.flowId = some flowId → token.consumedAt = none →
    ∃ first between flow, FlowOf accounts actions s flowId first between flow

variable {proof : EmailProof}

theorem purpose_injective {other : EmailProof} (h : proof.purpose = other.purpose) :
    proof = other := by
  cases proof <;> cases other <;> first | rfl | cases h

theorem purpose_mem (proof : EmailProof) : proof.purpose ∈ emailPurposes := by
  cases proof <;> decide

variable {digest : String}

theorem get?_consumePurposes_of_ne {s : Store} {id : ℕ} (purposes : List TokenPurpose) (now : ℤ)
    {token : MailToken} (h : s.tokens.get? digest = some token) (hne : token.accountId ≠ id) :
    (consumePurposes s id purposes now).tokens.get? digest = some token := by
  unfold consumePurposes
  rw [get?_consumeWhere_of_not, h]
  intro other hother
  rw [h] at hother
  have heq := Option.some.inj hother
  subst heq
  simp [hne]

theorem get?_changeEmail_of_ne {s : Store} {other : String} {id : ℕ} {canonicalEmail email : String}
    {now : ℤ} {token : MailToken} (h : s.tokens.get? digest = some token)
    (hne : token.accountId ≠ id) (hdigest : digest ≠ other) :
    (changeEmail (consumeDigest s other now) id canonicalEmail email now).tokens.get? digest =
      some token := by
  unfold changeEmail
  refine get?_consumePurposes_of_ne _ _ (get?_consumePurposes_of_ne _ _ ?_ hne) hne
  change (consumeDigest s other now).tokens.get? digest = some token
  unfold consumeDigest
  rw [get?_consumeWhere_of_not, h]
  intro row _
  rw [decide_eq_false_iff_not]
  exact hdigest

theorem get?_consumeDigest_of_ne {s : Store} {other : String} {now : ℤ} (hdigest : digest ≠ other) :
    (consumeDigest s other now).tokens.get? digest = s.tokens.get? digest := by
  unfold consumeDigest
  rw [get?_consumeWhere_of_not]
  intro row _
  rw [decide_eq_false_iff_not]
  exact hdigest

theorem exists_partner {s : Store} {flowId : Option ℕ} {now : ℤ}
    (h : partners s flowId proof now = 1) :
    ∃ flow digest token, flowId = some flow ∧ s.tokens.get? digest = some token ∧
      token.flowId = some flow ∧ token.purpose = proof.partner.purpose ∧
      token.consumedAt ≠ none ∧ now < token.expiresAt := by
  have hpos : 0 < partners s flowId proof now := by omega
  unfold partners at hpos
  rw [List.countP_pos_iff] at hpos
  obtain ⟨token, htoken, hguard⟩ := hpos
  obtain ⟨digest, hdigest⟩ := (OrderedMap.mem_values_iff _ _).mp htoken
  simp only [Bool.and_eq_true, decide_eq_true_eq] at hguard
  obtain ⟨⟨⟨⟨hsome, hflow⟩, hpurpose⟩, hconsumed⟩, hexpiry⟩ := hguard
  obtain ⟨flow, hflowId⟩ := Option.isSome_iff_exists.mp hsome
  refine ⟨flow, digest, token, hflowId, hdigest, hflow.trans hflowId, hpurpose, ?_, hexpiry⟩
  intro hnone
  rw [hnone] at hconsumed
  cases hconsumed

theorem partner_of_ne {other : EmailProof} (h : other ≠ proof) : other = proof.partner := by
  cases proof <;> cases other <;> first | rfl | exact absurd rfl h

end SlashWho.AccountStore
