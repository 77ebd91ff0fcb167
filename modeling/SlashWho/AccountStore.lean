import SlashWho.OrderedMap
import SlashWho.Runs

/-!
The account store: accounts, their sessions and the tokens sent to their mailboxes. Each
operation is one transaction. A transaction that violates a constraint is rolled back,
so it leaves the store as it was. Sessions and e-mail proofs are bound to an account's
credential version or to the flow that issued them.
-/

namespace SlashWho.AccountStore

inductive Role
  | user
  | admin
  deriving DecidableEq

inductive TokenPurpose
  | verify
  | reset
  | emailChangeCurrent
  | emailChangeNew
  deriving DecidableEq

structure PasswordRecord where
  passwordHash : String
  passwordSalt : String
  scryptVersion : ℕ
  scryptCost : ℕ
  deriving DecidableEq

structure AccountRow where
  canonicalEmail : String
  email : String
  role : Role
  active : Bool
  verifiedAt : Option ℤ
  passwordChangeRequired : Bool
  password : PasswordRecord
  credentialVersion : ℕ
  createdAt : ℤ
  updatedAt : ℤ

structure SessionRow where
  secretDigest : String
  accountId : ℕ
  credentialVersion : ℕ
  issuedAt : ℤ
  lastUsedAt : ℤ
  idleExpiresAt : ℤ
  absoluteExpiresAt : Option ℤ
  revokedAt : Option ℤ

structure MailToken where
  accountId : ℕ
  purpose : TokenPurpose
  flowId : Option ℕ
  proposedCanonicalEmail : Option String
  proposedEmail : Option String
  expiresAt : ℤ
  consumedAt : Option ℤ
  createdAt : ℤ

structure RequestAttempt where
  purpose : String
  subjectHash : String
  expiresAt : ℤ

/-- The tables the operations read and write, under their primary keys and the unique
index of the token digests. Flow ids are random in the code and numbered here. -/
structure Store where
  accounts : OrderedMap ℕ AccountRow
  sessions : OrderedMap ℕ SessionRow
  tokens : OrderedMap String MailToken
  attempts : List RequestAttempt
  nextFlow : ℕ

/-- Accounts that nobody has signed in to or sent mail to. -/
def Store.start (accounts : OrderedMap ℕ AccountRow) : Store :=
  ⟨accounts, OrderedMap.empty, OrderedMap.empty, [], 0⟩

/-- Why a transaction throws. -/
inductive Failure
  | duplicateKey
  | missingAccount
  | missingEmail
  | mailExpired
  | expectedEmailRequired
  deriving DecidableEq

def verified (account : AccountRow) : Bool := account.verifiedAt.isSome

/-- Seven days in milliseconds, after which a pending registration is void. -/
def registrationLifetime : ℤ := 604800000

/-- An active account whose registration is confirmed or still pending. -/
def mayReset (account : AccountRow) (now : ℤ) : Bool :=
  account.active && (verified account || now - registrationLifetime < account.createdAt)

variable (s : Store)

/-- `UPDATE accounts … WHERE id = $1`. -/
def updateAccount (id : ℕ) (change : AccountRow → AccountRow) : Store :=
  { s with accounts := s.accounts.mapValues (fun key row => if key = id then change row else row) }

/-- `UPDATE account_sessions SET revoked_at = $2 WHERE … AND revoked_at IS NULL`. -/
def revokeWhere (which : ℕ → SessionRow → Bool) (now : ℤ) : Store :=
  { s with sessions := s.sessions.mapValues (fun id row =>
      if which id row && row.revokedAt.isNone then { row with revokedAt := some now } else row) }

def revokeSessions (accountId : ℕ) (now : ℤ) : Store :=
  revokeWhere s (fun _ row => row.accountId = accountId) now

/-- `UPDATE account_mail_tokens SET consumed_at = … WHERE … AND consumed_at IS NULL`. -/
def consumeWhere (which : String → MailToken → Bool) (now : ℤ) : Store :=
  { s with tokens := s.tokens.mapValues (fun digest token =>
      if which digest token && token.consumedAt.isNone then
        { token with consumedAt := some now }
      else token) }

def consumeDigest (digest : String) (now : ℤ) : Store :=
  consumeWhere s (fun other _ => other = digest) now

def consumePurposes (accountId : ℕ) (purposes : List TokenPurpose) (now : ℤ) :
    Store :=
  consumeWhere s (fun _ token => token.accountId = accountId && purposes.contains token.purpose)
    now

/-- The insert of a token, whose digest is unique. -/
def insertToken (digest : String) (token : MailToken) : Except Failure Store :=
  if s.tokens.has digest then .error .duplicateKey
  else .ok { s with tokens := s.tokens.set digest token }

structure SessionIssue where
  sessionId : ℕ
  secretDigest : String
  accountId : ℕ
  credentialVersion : ℕ
  issuedAt : ℤ
  lastUsedAt : ℤ
  idleExpiresAt : ℤ
  absoluteExpiresAt : Option ℤ

def SessionIssue.row (input : SessionIssue) (account : AccountRow) : SessionRow :=
  ⟨input.secretDigest, input.accountId, account.credentialVersion, input.issuedAt,
    input.lastUsedAt, input.idleExpiresAt, input.absoluteExpiresAt, none⟩

def issueSession (s : Store) (input : SessionIssue) :
    Except Failure (Option SessionRow × Store) :=
  match s.accounts.get? input.accountId with
  | none => .ok (none, s)
  | some account =>
    if account.credentialVersion = input.credentialVersion && account.active &&
        verified account then
      if s.sessions.has input.sessionId then .error .duplicateKey
      else
        .ok (some (input.row account),
          { s with sessions := s.sessions.set input.sessionId (input.row account) })
    else .ok (none, s)

structure SessionUse where
  sessionId : ℕ
  secretDigest : String
  now : ℤ
  idleExpiresAt : ℤ

/-- `LEAST` of a time and one that may be missing. -/
def least (time : ℤ) (other : Option ℤ) : ℤ := other.elim time (min time)

def SessionUse.row (input : SessionUse) (row : SessionRow) : SessionRow :=
  { row with
    lastUsedAt := input.now
    idleExpiresAt := least input.idleExpiresAt row.absoluteExpiresAt }

/-- A session that is neither revoked nor run out. -/
def liveSession (row : SessionRow) (now : ℤ) : Bool :=
  row.revokedAt.isNone && now < row.idleExpiresAt &&
    row.absoluteExpiresAt.all (fun absolute => now < absolute)

def useSession (s : Store) (input : SessionUse) : Option (AccountRow × SessionRow) × Store :=
  match s.sessions.get? input.sessionId with
  | none => (none, s)
  | some row =>
    match s.accounts.get? row.accountId with
    | none => (none, s)
    | some account =>
      if row.secretDigest = input.secretDigest && liveSession row input.now &&
          row.credentialVersion = account.credentialVersion && account.active &&
          verified account then
        (some (account, input.row row),
          { s with sessions := s.sessions.set input.sessionId (input.row row) })
      else (none, s)

structure PasswordChange where
  accountId : ℕ
  sessionId : ℕ
  expectedCredentialVersion : ℕ
  expectedPasswordHash : String
  password : PasswordRecord
  now : ℤ

def changePassword (s : Store) (input : PasswordChange) : Bool × Store :=
  match s.accounts.get? input.accountId with
  | none => (false, s)
  | some account =>
    let signedIn := (s.sessions.get? input.sessionId).any (fun row =>
      row.accountId = input.accountId && liveSession row input.now)
    if account.credentialVersion = input.expectedCredentialVersion &&
        account.password.passwordHash = input.expectedPasswordHash && account.active &&
        verified account && signedIn then
      let changed := updateAccount s input.accountId (fun row => { row with
        password := input.password
        passwordChangeRequired := false
        credentialVersion := row.credentialVersion + 1
        updatedAt := input.now })
      (true, revokeSessions changed input.accountId input.now)
    else (false, s)

def revokeSession (s : Store) (sessionId : ℕ) (now : ℤ) : Store :=
  revokeWhere s (fun id _ => id = sessionId) now

structure MailIssue where
  accountId : ℕ
  purpose : TokenPurpose
  expectedCanonicalEmail : Option String
  tokenDigest : String
  expiresAt : ℤ
  now : ℤ

def MailIssue.token (input : MailIssue) : MailToken :=
  ⟨input.accountId, input.purpose, none, none, none, input.expiresAt, none, input.now⟩

/-- `accountMail.issue`, with whether a token was inserted. A reset is issued only to
the mailbox the account has, under its row lock. -/
def issueMail (s : Store) (input : MailIssue) : Except Failure (Bool × Store) :=
  if input.expiresAt ≤ input.now then .error .mailExpired
  else if input.purpose = .reset && input.expectedCanonicalEmail.all (fun email => email = "") then
    .error .expectedEmailRequired
  else
    let admitted := (s.accounts.get? input.accountId).any (fun account =>
      input.expectedCanonicalEmail = some account.canonicalEmail && mayReset account input.now)
    if input.purpose = .reset && !admitted then .ok (false, s)
    else if !s.accounts.has input.accountId then .error .missingAccount
    else do
      let next ← insertToken s input.tokenDigest input.token
      return (true, next)

structure VerificationConfirm where
  digest : String
  passwordHash : String
  now : ℤ

def confirmVerification (s : Store) (input : VerificationConfirm) : Bool × Store :=
  match s.tokens.get? input.digest with
  | none => (false, s)
  | some token =>
    match s.accounts.get? token.accountId with
    | none => (false, s)
    | some account =>
      if token.purpose = .verify && account.active && !verified account &&
          account.password.passwordHash = input.passwordHash &&
          input.now - registrationLifetime < account.createdAt &&
          token.consumedAt.isNone && input.now < token.expiresAt then
        let confirmed := updateAccount (consumeDigest s input.digest input.now) token.accountId
          (fun row => { row with verifiedAt := some input.now, updatedAt := input.now })
        (true, consumePurposes confirmed token.accountId [.verify] input.now)
      else (false, s)

structure ResetCompletion where
  digest : String
  password : PasswordRecord
  now : ℤ

def completeReset (s : Store) (input : ResetCompletion) : Bool × Store :=
  match s.tokens.get? input.digest with
  | none => (false, s)
  | some token =>
    match s.accounts.get? token.accountId with
    | none => (false, s)
    | some account =>
      if token.purpose = .reset && mayReset account input.now && token.consumedAt.isNone &&
          input.now < token.expiresAt then
        let reset := updateAccount (consumeDigest s input.digest input.now) token.accountId
          (fun row => { row with
            password := input.password
            verifiedAt := some (row.verifiedAt.getD input.now)
            passwordChangeRequired := false
            credentialVersion := row.credentialVersion + 1
            updatedAt := input.now })
        (true, revokeSessions
          (consumePurposes reset token.accountId [.reset, .verify] input.now)
          token.accountId input.now)
      else (false, s)

/-- The two mailboxes that must agree to a change of e-mail. -/
inductive EmailProof
  | current
  | new
  deriving DecidableEq

def EmailProof.purpose : EmailProof → TokenPurpose
  | .current => .emailChangeCurrent
  | .new => .emailChangeNew

def EmailProof.partner : EmailProof → EmailProof
  | .current => .new
  | .new => .current

def emailPurposes : List TokenPurpose := [.emailChangeCurrent, .emailChangeNew]

structure EmailChange where
  accountId : ℕ
  destinationSubjectHash : String
  expectedPasswordHash : String
  expectedCurrentCanonicalEmail : String
  expectedCredentialVersion : ℕ
  canonicalEmail : String
  email : String
  current : String
  next : String
  expiresAt : ℤ
  now : ℤ

def EmailChange.digest (input : EmailChange) : EmailProof → String
  | .current => input.current
  | .new => input.next

structure Bucket where
  purpose : String
  subject : String
  limit : ℕ
  duration : ℤ

def emailBuckets (account destination : String) : List Bucket :=
  [⟨"email_change_account", account, 5, 3600000⟩,
   ⟨"email_change_destination", destination, 3, 86400000⟩,
   ⟨"email_change_global", "global", 100, 3600000⟩]

def bucketFull (attempts : List RequestAttempt) (now : ℤ) (bucket : Bucket) : Bool :=
  bucket.limit ≤ attempts.countP (fun attempt =>
    attempt.purpose = bucket.purpose && attempt.subjectHash = bucket.subject &&
      now < attempt.expiresAt)

def admitsEmailChange (input : EmailChange) : Bool :=
  (s.accounts.get? input.accountId).any (fun account =>
      account.password.passwordHash = input.expectedPasswordHash &&
        account.canonicalEmail = input.expectedCurrentCanonicalEmail &&
        account.credentialVersion = input.expectedCredentialVersion && account.active &&
        verified account) &&
    input.now < input.expiresAt &&
    !(emailBuckets (toString input.accountId) input.destinationSubjectHash).any
      (bucketFull s.attempts input.now) &&
    !s.accounts.values.any (fun account => account.canonicalEmail = input.canonicalEmail)

/-- The request counted in its three buckets, under a flow id of its own. -/
def countEmailChange (input : EmailChange) : Store :=
  { s with
    attempts := s.attempts ++
      (emailBuckets (toString input.accountId) input.destinationSubjectHash).map (fun bucket =>
        (⟨bucket.purpose, bucket.subject, input.now + bucket.duration⟩ : RequestAttempt))
    nextFlow := s.nextFlow + 1 }

def emailToken (input : EmailChange) (flow : ℕ) (proof : EmailProof) : MailToken :=
  ⟨input.accountId, proof.purpose, some flow, some input.canonicalEmail, some input.email,
    input.expiresAt, none, input.now⟩

def issueEmailChange (input : EmailChange) : Except Failure (Bool × Store) :=
  if admitsEmailChange s input then do
    let cleared := consumePurposes (countEmailChange s input) input.accountId emailPurposes
      input.now
    let one ← insertToken cleared input.current (emailToken input s.nextFlow .current)
    let both ← insertToken one input.next (emailToken input s.nextFlow .new)
    return (true, both)
  else .ok (false, s)

structure EmailConfirm where
  digest : String
  proof : EmailProof
  now : ℤ

inductive EmailAnswer
  | pending
  | changed
  | invalid
  deriving DecidableEq

/-- The count of a flow's consumed and unexpired partner proofs; no row has a missing
flow id for its own. -/
def partners (flowId : Option ℕ) (proof : EmailProof) (now : ℤ) : ℕ :=
  s.tokens.values.countP (fun token =>
    flowId.isSome && token.flowId = flowId && token.purpose = proof.partner.purpose &&
      token.consumedAt.isSome && now < token.expiresAt)

def emailTaken (canonicalEmail : String) (id : ℕ) : Bool :=
  s.accounts.entries.any (fun entry =>
    entry.2.canonicalEmail = canonicalEmail && entry.1 ≠ id)

/-- The new address, with the sessions and the tokens of the old one gone. -/
def changeEmail (id : ℕ) (canonicalEmail email : String) (now : ℤ) : Store :=
  let changed := updateAccount s id (fun row => { row with
    canonicalEmail := canonicalEmail
    email := email
    credentialVersion := row.credentialVersion + 1
    updatedAt := now })
  let revoked := revokeSessions changed id now
  consumePurposes (consumePurposes revoked id [.reset] now) id emailPurposes now

def confirmEmailChange (input : EmailConfirm) :
    Except Failure (EmailAnswer × Store) :=
  match s.tokens.get? input.digest with
  | none => .ok (.invalid, s)
  | some token =>
    match s.accounts.get? token.accountId with
    | none => .ok (.invalid, s)
    | some account =>
      if token.purpose = input.proof.purpose && account.active && verified account &&
          token.consumedAt.isNone && input.now < token.expiresAt then
        let proven := consumeDigest s input.digest input.now
        if partners proven token.flowId input.proof input.now ≠ 1 then .ok (.pending, proven)
        else
          match token.proposedCanonicalEmail, token.proposedEmail with
          | some canonicalEmail, some email =>
            if emailTaken proven canonicalEmail token.accountId then .ok (.invalid, proven)
            else
              .ok (.changed, changeEmail proven token.accountId canonicalEmail email input.now)
          | _, _ => .error .missingEmail
      else .ok (.invalid, s)

inductive AdminMutation
  | role (role : Role)
  | active (active : Bool)
  | passwordChange

structure AdminInput where
  actorId : ℕ
  targetId : ℕ
  now : ℤ

inductive AdminAnswer
  | updated
  | lastAdmin
  | forbidden
  | missing
  deriving DecidableEq

def isAdmin (account : AccountRow) : Bool :=
  account.role = .admin && account.active && verified account

/-- A mutation that would give a pending registration the rights of an admin. -/
def promotesPending (target : AccountRow) : AdminMutation → Bool
  | .role role => !verified target && role = .admin
  | .active active => !verified target && active && target.role = .admin
  | .passwordChange => false

def removesAdmin (target : AccountRow) : AdminMutation → Bool
  | .role role => isAdmin target && role ≠ .admin
  | .active active => isAdmin target && !active
  | .passwordChange => false

def applyMutation (now : ℤ) (row : AccountRow) : AdminMutation → AccountRow
  | .role role =>
    { row with role := role, credentialVersion := row.credentialVersion + 1, updatedAt := now }
  | .active active =>
    { row with active := active, credentialVersion := row.credentialVersion + 1, updatedAt := now }
  | .passwordChange =>
    { row with
      passwordChangeRequired := true
      credentialVersion := row.credentialVersion + 1
      updatedAt := now }

def mutateAccountAdmin (s : Store) (input : AdminInput) (mutation : AdminMutation) :
    AdminAnswer × Store :=
  match s.accounts.get? input.actorId with
  | none => (.forbidden, s)
  | some actor =>
    if !isAdmin actor || actor.passwordChangeRequired then (.forbidden, s)
    else
      match s.accounts.get? input.targetId with
      | none => (.missing, s)
      | some target =>
        if promotesPending target mutation then (.forbidden, s)
        else if removesAdmin target mutation && s.accounts.values.countP isAdmin ≤ 1 then
          (.lastAdmin, s)
        else
          let mutated := updateAccount s input.targetId (fun row =>
            applyMutation input.now row mutation)
          (.updated, revokeSessions mutated input.targetId input.now)

def setRole (s : Store) (input : AdminInput) (role : Role) : AdminAnswer × Store :=
  mutateAccountAdmin s input (.role role)

def setActive (s : Store) (input : AdminInput) (active : Bool) : AdminAnswer × Store :=
  mutateAccountAdmin s input (.active active)

def requirePasswordChange (s : Store) (input : AdminInput) : Bool × Store :=
  let (answer, next) := mutateAccountAdmin s input .passwordChange
  (answer = .updated, next)

inductive Action
  | issueSession (input : SessionIssue)
  | useSession (input : SessionUse)
  | revokeSession (sessionId : ℕ) (now : ℤ)
  | changePassword (input : PasswordChange)
  | issueMail (input : MailIssue)
  | confirmVerification (input : VerificationConfirm)
  | completeReset (input : ResetCompletion)
  | issueEmailChange (input : EmailChange)
  | confirmEmailChange (input : EmailConfirm)
  | setRole (input : AdminInput) (role : Role)
  | setActive (input : AdminInput) (active : Bool)
  | requirePasswordChange (input : AdminInput)

/-- What a transaction answers, where it does not throw. -/
def answered {α : Type} : Except Failure (α × Store) → Option α
  | .ok (answer, _) => some answer
  | .error _ => none

/-- What a transaction that may throw leaves: a thrown one is rolled back. -/
def committed {α : Type} (s : Store) : Except Failure (α × Store) → Store
  | .ok (_, next) => next
  | .error _ => s

def step (s : Store) : Action → Store
  | .issueSession input => committed s (issueSession s input)
  | .useSession input => (useSession s input).2
  | .revokeSession sessionId now => revokeSession s sessionId now
  | .changePassword input => (changePassword s input).2
  | .issueMail input => committed s (issueMail s input)
  | .confirmVerification input => (confirmVerification s input).2
  | .completeReset input => (completeReset s input).2
  | .issueEmailChange input => committed s (issueEmailChange s input)
  | .confirmEmailChange input => committed s (confirmEmailChange s input)
  | .setRole input role => (setRole s input role).2
  | .setActive input active => (setActive s input active).2
  | .requirePasswordChange input => (requirePasswordChange s input).2

end SlashWho.AccountStore
