import Mathlib.Data.List.Sort
import Mathlib.Data.Prod.Lex
import SlashWho.AccountChanges

/-!
Admin requests beside the other operations on accounts. A request holds the account-admin lock and
reads its actor, its target and, where it takes an admin away, the number of admins in statements of
their own, before it writes. Other transactions commit between any two of these statements, but
write no row it has locked. They never take an admin away, so the one that a request counted beside
its target is there when it writes.
-/

namespace SlashWho.AdminRequests

open AccountStore

structure Registration where
  canonicalEmail : String
  email : String
  password : PasswordRecord
  now : ℤ

def Registration.row (input : Registration) (role : Role) (verifiedAt : Option ℤ)
    (passwordChangeRequired : Bool) : AccountRow where
  canonicalEmail := input.canonicalEmail
  email := input.email
  role := role
  active := true
  verifiedAt := verifiedAt
  passwordChangeRequired := passwordChangeRequired
  password := input.password
  credentialVersion := 1
  createdAt := input.now
  updatedAt := input.now

/-- A deleted account takes its sessions and its tokens with it. -/
def deleteAccounts (s : Store) (ids : List ℕ) : Store :=
  { s with
    accounts := s.accounts.filterKeys (fun id => id ∉ ids)
    sessions := s.sessions.filterValues (fun row => row.accountId ∉ ids)
    tokens := s.tokens.filterValues (fun token => token.accountId ∉ ids) }

def isExpired (now : ℤ) (account : AccountRow) : Bool :=
  !verified account && account.createdAt ≤ now - registrationLifetime

/-- The expired registrations a signup may remove, oldest first. -/
def expiredIds (s : Store) (now : ℤ) (locked : ℕ → Bool) : List ℕ :=
  ((s.accounts.entries.filter (fun entry => isExpired now entry.2 && !locked entry.1)).insertionSort
    (fun left right => toLex (left.2.createdAt, left.1) ≤ toLex (right.2.createdAt, right.1))).map
      Prod.fst

def insertAccount (s : Store) (id : ℕ) (row : AccountRow) : Except Failure Store :=
  if s.accounts.has id || emailTaken s row.canonicalEmail id then .error .duplicateKey
  else .ok { s with accounts := s.accounts.set id row }

/-- `registerPending`: the address's own expired registration goes first, then up to a
hundred of the others that nobody has locked. -/
def registerPending (s : Store) (input : Registration) (newId : ℕ) (locked : ℕ → Bool) :
    Except Failure Store :=
  let target := (s.accounts.entries.filter (fun entry =>
    entry.2.canonicalEmail = input.canonicalEmail && isExpired input.now entry.2)).map Prod.fst
  let cleaned := deleteAccounts s target
  let swept := deleteAccounts cleaned
    ((expiredIds cleaned input.now locked).take (100 - target.length))
  if swept.accounts.values.any (fun account => account.canonicalEmail = input.canonicalEmail) then
    .ok swept
  else insertAccount swept newId (input.row .user none false)

def provisionAdmin (s : Store) (input : Registration) (newId : ℕ) : Except Failure Store :=
  insertAccount s newId (input.row .admin (some input.now) true)

def committedStore (s : Store) : Except Failure Store → Store
  | .ok next => next
  | .error _ => s

structure Request where
  input : AdminInput
  mutation : AdminMutation

/-- How far a request has read. A target has no phase of its own once it is counted beside
another admin. -/
inductive Phase
  | actorRead
  | targetRead (target : AccountRow)
  | ready (target : AccountRow)

structure World where
  store : Store
  request : Option (Request × Phase)
  answers : List (Request × AdminAnswer)

def World.start (s : Store) : World := ⟨s, none, []⟩

/-- An active and verified admin with no password change pending. -/
def Qualified (s : Store) (id : ℕ) : Prop :=
  ∃ row, s.accounts.get? id = some row ∧ isAdmin row = true ∧ row.passwordChangeRequired = false

def Locks (request : Option (Request × Phase)) (id : ℕ) : Prop :=
  match request with
  | none => False
  | some (r, .actorRead) => id = r.input.actorId
  | some (r, _) => id = r.input.actorId ∨ id = r.input.targetId

def World.answer (w : World) (r : Request) (answer : AdminAnswer) : World :=
  { w with request := none, answers := w.answers ++ [(r, answer)] }

def readActor (w : World) (r : Request) : World :=
  match w.store.accounts.get? r.input.actorId with
  | none => w.answer r .forbidden
  | some actor =>
    if !isAdmin actor || actor.passwordChangeRequired then w.answer r .forbidden
    else { w with request := some (r, .actorRead) }

def readTarget (w : World) (r : Request) : World :=
  match w.store.accounts.get? r.input.targetId with
  | none => w.answer r .missing
  | some target =>
    if promotesPending target r.mutation then w.answer r .forbidden
    else if removesAdmin target r.mutation then
      { w with request := some (r, .targetRead target) }
    else { w with request := some (r, .ready target) }

def countAdmins (w : World) (r : Request) (target : AccountRow) : World :=
  if w.store.accounts.values.countP isAdmin ≤ 1 then w.answer r .lastAdmin
  else { w with request := some (r, .ready target) }

def write (w : World) (r : Request) : World :=
  { w.answer r .updated with
    store := revokeSessions (updateAccount w.store r.input.targetId
      (fun row => applyMutation r.input.now row r.mutation)) r.input.targetId r.input.now }

inductive RequestStep (r : Request) : World → World → Prop
  | readActor (w : World) (hidle : w.request = none) : RequestStep r w (readActor w r)
  | readTarget (w : World) (hphase : w.request = some (r, .actorRead)) :
      RequestStep r w (readTarget w r)
  | countAdmins (w : World) (target : AccountRow)
      (hphase : w.request = some (r, .targetRead target)) :
      RequestStep r w (countAdmins w r target)
  | write (w : World) (target : AccountRow) (hphase : w.request = some (r, .ready target)) :
      RequestStep r w (write w r)

/-- An operation on accounts that takes no account-admin lock. -/
inductive Other
  | account (a : Action)
  | registerPending (input : Registration) (newId : ℕ) (locked : ℕ → Bool)
  | provisionAdmin (input : Registration) (newId : ℕ)

def isAdminRequest : Action → Bool
  | .setRole _ _ => true
  | .setActive _ _ => true
  | .requirePasswordChange _ => true
  | _ => false

def Other.next (s : Store) : Other → Store
  | .account a => if isAdminRequest a then s else step s a
  | .registerPending input newId locked =>
    committedStore s (AdminRequests.registerPending s input newId locked)
  | .provisionAdmin input newId =>
    committedStore s (AdminRequests.provisionAdmin s input newId)

/-- Another transaction commits, which waits for every row that a request has locked. -/
inductive OtherStep : World → World → Prop
  | commit (w : World) (o : Other)
      (hlocks : ∀ id, Locks w.request id →
        (o.next w.store).accounts.get? id = w.store.accounts.get? id) :
      OtherStep w { w with store := o.next w.store }

inductive Step : World → World → Prop
  | request (r : Request) (w w' : World) (hstep : RequestStep r w w') : Step w w'
  | other (w w' : World) (hstep : OtherStep w w') : Step w w'

def Reachable (s : Store) (w : World) : Prop := Relation.ReflTransGen Step (World.start s) w

def HasAdmin (s : Store) : Prop :=
  ∃ id row, s.accounts.get? id = some row ∧ isAdmin row = true

/-- Every admin is one still. -/
def KeepsAdmins (s next : Store) : Prop :=
  ∀ id row, s.accounts.get? id = some row → isAdmin row = true →
    ∃ row', next.accounts.get? id = some row' ∧ isAdmin row' = true

variable {s next : Store}

theorem KeepsAdmins.of_eq (h : next.accounts = s.accounts) : KeepsAdmins s next := by
  intro id row hrow hadmin
  exact ⟨row, by rw [h]; exact hrow, hadmin⟩

theorem KeepsAdmins.trans {mid : Store} (h : KeepsAdmins s mid) (h' : KeepsAdmins mid next) :
    KeepsAdmins s next := by
  intro id row hrow hadmin
  obtain ⟨row', hrow', hadmin'⟩ := h id row hrow hadmin
  exact h' id row' hrow' hadmin'

theorem KeepsAdmins.update (target : ℕ) (change : AccountRow → AccountRow)
    (hchange : ∀ row, isAdmin row = true → isAdmin (change row) = true)
    (h : next.accounts = (updateAccount s target change).accounts) : KeepsAdmins s next := by
  intro id row hrow hadmin
  refine ⟨if id = target then change row else row, ?_, ?_⟩
  · rw [h, get?_updateAccount, hrow]
    rfl
  · split
    · exact hchange row hadmin
    · exact hadmin

theorem KeepsAdmins.hasAdmin (h : KeepsAdmins s next) (hadmin : HasAdmin s) : HasAdmin next := by
  obtain ⟨id, row, hrow, hrowAdmin⟩ := hadmin
  obtain ⟨row', hrow', hadmin'⟩ := h id row hrow hrowAdmin
  exact ⟨id, row', hrow', hadmin'⟩

theorem isAdmin_iff (row : AccountRow) :
    isAdmin row = true ↔ row.role = .admin ∧ row.active = true ∧ row.verifiedAt.isSome = true := by
  unfold isAdmin verified
  simp only [Bool.and_eq_true, decide_eq_true_eq, and_assoc]

theorem keepsAdmins_action {a : Action} (ha : isAdminRequest a = false) :
    KeepsAdmins s (step s a) := by
  cases a with
  | issueSession input =>
    apply KeepsAdmins.of_eq
    change (committed s (issueSession s input)).accounts = _
    rcases issueSession_cases s input with hsame | ⟨account, -, -, -, -, -, hstore⟩
    · rw [hsame.2]
    · rw [hstore]
  | useSession input =>
    apply KeepsAdmins.of_eq
    change (useSession s input).2.accounts = _
    rcases useSession_cases s input with hsame | ⟨row, account, -, -, -, -, -, -, hstore⟩
    · rw [hsame.2]
    · rw [hstore]
  | revokeSession sessionId now => exact KeepsAdmins.of_eq rfl
  | changePassword input =>
    change KeepsAdmins s (changePassword s input).2
    rcases changePassword_cases s input with ⟨-, hstore⟩ | ⟨account, -, -, hstore⟩
    · rw [hstore]
      exact KeepsAdmins.of_eq rfl
    · rw [hstore]
      exact KeepsAdmins.update input.accountId (fun row => { row with
        password := input.password
        passwordChangeRequired := false
        credentialVersion := row.credentialVersion + 1
        updatedAt := input.now }) (fun row h => h) rfl
  | issueMail input =>
    apply KeepsAdmins.of_eq
    change (committed s (issueMail s input)).accounts = _
    rcases issueMail_cases s input with hsame | ⟨account, -, -, -, -, hstore⟩
    · rw [hsame.2]
    · rw [hstore]
  | confirmVerification input =>
    change KeepsAdmins s (confirmVerification s input).2
    rcases confirmVerification_cases s input with ⟨-, hstore⟩ | ⟨token, account, -, -, hstore⟩
    · rw [hstore]
      exact KeepsAdmins.of_eq rfl
    · rw [hstore]
      refine KeepsAdmins.update token.accountId (fun row => { row with
        verifiedAt := some input.now, updatedAt := input.now }) ?_ rfl
      intro row hadmin
      rw [isAdmin_iff] at hadmin ⊢
      exact ⟨hadmin.1, hadmin.2.1, rfl⟩
  | completeReset input =>
    change KeepsAdmins s (completeReset s input).2
    rcases completeReset_cases s input with ⟨-, hstore⟩ | ⟨token, account, -, -, hstore⟩
    · rw [hstore]
      exact KeepsAdmins.of_eq rfl
    · rw [hstore]
      refine KeepsAdmins.update token.accountId (fun row => { row with
        password := input.password
        verifiedAt := some (row.verifiedAt.getD input.now)
        passwordChangeRequired := false
        credentialVersion := row.credentialVersion + 1
        updatedAt := input.now }) ?_ rfl
      intro row hadmin
      rw [isAdmin_iff] at hadmin ⊢
      exact ⟨hadmin.1, hadmin.2.1, rfl⟩
  | issueEmailChange input =>
    apply KeepsAdmins.of_eq
    change (committed s (issueEmailChange s input)).accounts = _
    rcases issueEmailChange_cases s input with hsame | ⟨-, -, -, -, hstore⟩
    · rw [hsame.2]
    · rw [hstore]
      rfl
  | confirmEmailChange input =>
    change KeepsAdmins s (committed s (confirmEmailChange s input))
    rcases confirmEmailChange_cases s input with
      ⟨-, -, hstore⟩ | ⟨token, account, -, hanswer⟩
    · rw [hstore]
      exact KeepsAdmins.of_eq rfl
    · rcases hanswer with ⟨-, -, hstore⟩ | ⟨-, -, hstore⟩ |
        ⟨canonicalEmail, email, -, -, -, -, hstore⟩
      · rw [hstore]
        exact KeepsAdmins.of_eq rfl
      · rw [hstore]
        exact KeepsAdmins.of_eq rfl
      · rw [hstore]
        exact KeepsAdmins.update token.accountId (fun row => { row with
          canonicalEmail := canonicalEmail
          email := email
          credentialVersion := row.credentialVersion + 1
          updatedAt := input.now }) (fun row h => h) rfl
  | setRole input role => cases ha
  | setActive input active => cases ha
  | requirePasswordChange input => cases ha

theorem keepsAdmins_deleteAccounts {ids : List ℕ}
    (h : ∀ id ∈ ids, ∀ row, s.accounts.get? id = some row → verified row = false) :
    KeepsAdmins s (deleteAccounts s ids) := by
  intro id row hrow hadmin
  refine ⟨row, ?_, hadmin⟩
  have hkept : id ∉ ids := by
    intro hin
    have hverified := h id hin row hrow
    rw [isAdmin_iff] at hadmin
    unfold verified at hverified
    rw [hadmin.2.2] at hverified
    cases hverified
  change (s.accounts.filterKeys _).get? id = some row
  rw [OrderedMap.get?_filterKeys, if_pos (by simpa using hkept)]
  exact hrow

theorem unverified_of_entry {now : ℤ} {entry : ℕ × AccountRow} (hin : entry ∈ s.accounts.entries)
    (hexpired : isExpired now entry.2 = true) :
    ∀ row, s.accounts.get? entry.1 = some row → verified row = false := by
  intro row hrow
  have hentry : s.accounts.get? entry.1 = some entry.2 :=
    (OrderedMap.mem_entries_iff _ _ _).mp hin
  rw [hentry, Option.some.injEq] at hrow
  unfold isExpired at hexpired
  rw [Bool.and_eq_true, Bool.not_eq_true'] at hexpired
  rw [← hrow]
  exact hexpired.1

theorem keepsAdmins_insertAccount {id : ℕ} {row : AccountRow} :
    KeepsAdmins s (committedStore s (insertAccount s id row)) := by
  unfold insertAccount
  split
  · exact KeepsAdmins.of_eq rfl
  · rename_i hfresh
    intro other held hheld hadmin
    refine ⟨held, ?_, hadmin⟩
    change (s.accounts.set id row).get? other = some held
    have hne : other ≠ id := by
      rintro rfl
      rw [Bool.or_eq_true, not_or] at hfresh
      apply hfresh.1
      unfold OrderedMap.has
      rw [hheld]
      rfl
    rw [OrderedMap.get?_set_ne _ _ hne]
    exact hheld

theorem keepsAdmins_registerPending (input : Registration) (newId : ℕ) (locked : ℕ → Bool) :
    KeepsAdmins s (committedStore s (registerPending s input newId locked)) := by
  unfold registerPending
  dsimp only
  have htarget : KeepsAdmins s (deleteAccounts s ((s.accounts.entries.filter (fun entry =>
      entry.2.canonicalEmail = input.canonicalEmail && isExpired input.now entry.2)).map
        Prod.fst)) := by
    apply keepsAdmins_deleteAccounts
    intro id hid
    obtain ⟨entry, hentry, rfl⟩ := List.mem_map.mp hid
    rw [List.mem_filter, Bool.and_eq_true] at hentry
    exact unverified_of_entry hentry.1 hentry.2.2
  generalize deleteAccounts s ((s.accounts.entries.filter (fun entry =>
    entry.2.canonicalEmail = input.canonicalEmail && isExpired input.now entry.2)).map
      Prod.fst) = cleaned at htarget ⊢
  generalize 100 - _ = batch
  have hswept : KeepsAdmins cleaned
      (deleteAccounts cleaned ((expiredIds cleaned input.now locked).take batch)) := by
    apply keepsAdmins_deleteAccounts
    intro id hid
    obtain ⟨entry, hentry, rfl⟩ := List.mem_map.mp (List.mem_of_mem_take hid)
    rw [List.mem_insertionSort, List.mem_filter, Bool.and_eq_true] at hentry
    exact unverified_of_entry hentry.1 hentry.2.1
  have hkept := htarget.trans hswept
  generalize deleteAccounts cleaned _ = swept at hkept ⊢
  by_cases htaken : swept.accounts.values.any (fun account =>
      account.canonicalEmail = input.canonicalEmail) = true
  · rw [if_pos htaken]
    exact hkept
  · rw [if_neg htaken]
    have hinserted : KeepsAdmins swept
        (committedStore swept (insertAccount swept newId (input.row .user none false))) :=
      keepsAdmins_insertAccount
    cases hinsert : insertAccount swept newId (input.row .user none false) with
    | error failure => exact KeepsAdmins.of_eq rfl
    | ok inserted =>
      rw [hinsert] at hinserted
      exact hkept.trans hinserted

theorem keepsAdmins_other (o : Other) : KeepsAdmins s (o.next s) := by
  cases o with
  | account a =>
    change KeepsAdmins s (if isAdminRequest a then s else step s a)
    by_cases ha : isAdminRequest a = true
    · rw [if_pos ha]
      exact KeepsAdmins.of_eq rfl
    · rw [if_neg ha]
      exact keepsAdmins_action (Bool.eq_false_iff.mpr ha)
  | registerPending input newId locked => exact keepsAdmins_registerPending input newId locked
  | provisionAdmin input newId => exact keepsAdmins_insertAccount

/-- An admin beside the one a request may take away. -/
def OtherAdmin (s : Store) (targetId : ℕ) : Prop :=
  ∃ id row, id ≠ targetId ∧ s.accounts.get? id = some row ∧ isAdmin row = true

/-- What a request in flight has read is so still: its actor may act, its target is as it was
read, and where it takes an admin away there is another. -/
def Read (s : Store) : Option (Request × Phase) → Prop
  | none => True
  | some (r, .actorRead) => Qualified s r.input.actorId
  | some (r, .targetRead target) =>
    Qualified s r.input.actorId ∧ s.accounts.get? r.input.targetId = some target
  | some (r, .ready target) =>
    Qualified s r.input.actorId ∧ s.accounts.get? r.input.targetId = some target ∧
      (removesAdmin target r.mutation = true → OtherAdmin s r.input.targetId)

variable {w w' : World}

theorem Qualified.congr {s next : Store} {id : ℕ} (h : Qualified s id)
    (heq : next.accounts.get? id = s.accounts.get? id) : Qualified next id := by
  obtain ⟨row, hrow, hqualified⟩ := h
  exact ⟨row, heq.trans hrow, hqualified⟩

theorem read_other (h : Read w.store w.request) (hstep : OtherStep w w') :
    Read w'.store w'.request := by
  cases hstep with
  | commit o hlocks =>
    cases hrequest : w.request with
    | none => trivial
    | some inFlight =>
      obtain ⟨r, phase⟩ := inFlight
      rw [hrequest] at h hlocks
      cases phase with
      | actorRead => exact Qualified.congr h (hlocks _ rfl)
      | targetRead target =>
        exact ⟨h.1.congr (hlocks _ (.inl rfl)), (hlocks _ (.inr rfl)).trans h.2⟩
      | ready target =>
        refine ⟨h.1.congr (hlocks _ (.inl rfl)), (hlocks _ (.inr rfl)).trans h.2.1, ?_⟩
        intro hremoves
        obtain ⟨id, row, hne, hrow, hadmin⟩ := h.2.2 hremoves
        obtain ⟨row', hrow', hadmin'⟩ := keepsAdmins_other o id row hrow hadmin
        exact ⟨id, row', hne, hrow', hadmin'⟩

/-- Two admins among the accounts: one of them is not the target. -/
theorem otherAdmin_of_count {s : Store} {targetId : ℕ}
    (hcount : ¬ s.accounts.values.countP isAdmin ≤ 1) : OtherAdmin s targetId := by
  by_contra hnone
  apply hcount
  have honly : ∀ entry ∈ s.accounts.entries, isAdmin entry.2 = true → entry.1 = targetId := by
    intro entry hentry hadmin
    by_contra hne
    exact hnone ⟨entry.1, entry.2, hne, (OrderedMap.mem_entries_iff _ _ _).mp hentry, hadmin⟩
  unfold OrderedMap.values
  rw [List.countP_map]
  have hle : s.accounts.entries.countP (isAdmin ∘ Prod.snd) ≤
      s.accounts.entries.countP (fun entry => entry.1 = targetId) := by
    apply List.countP_mono_left
    intro entry hentry hadmin
    exact decide_eq_true (honly entry hentry hadmin)
  refine hle.trans ?_
  have hkeys := List.nodup_iff_count_le_one.mp s.accounts.nodup_keys targetId
  rw [List.count_eq_countP, List.countP_map] at hkeys
  refine le_trans (le_of_eq ?_) hkeys
  apply List.countP_congr
  intro entry _
  simp

variable {r : Request}

theorem read_request (h : Read w.store w.request) (hstep : RequestStep r w w') :
    Read w'.store w'.request := by
  cases hstep with
  | readActor hidle =>
    unfold readActor
    cases hactor : w.store.accounts.get? r.input.actorId with
    | none => trivial
    | some actor =>
      dsimp only
      split
      · trivial
      · rename_i hqualified
        rw [Bool.or_eq_true, not_or, Bool.not_eq_true', Bool.not_eq_false,
          Bool.not_eq_true] at hqualified
        exact ⟨actor, hactor, hqualified⟩
  | readTarget hphase =>
    rw [hphase] at h
    unfold readTarget
    cases htarget : w.store.accounts.get? r.input.targetId with
    | none => trivial
    | some target =>
      dsimp only
      split
      · trivial
      · split
        · exact ⟨h, htarget⟩
        · rename_i hremoves
          exact ⟨h, htarget, fun htrue => absurd htrue hremoves⟩
  | countAdmins target hphase =>
    rw [hphase] at h
    unfold countAdmins
    split
    · trivial
    · rename_i hcount
      exact ⟨h.1, h.2, fun _ => otherAdmin_of_count hcount⟩
  | write target hphase => trivial

/-- A mutation that takes no admin away leaves its target one. -/
theorem isAdmin_applyMutation {row : AccountRow} {mutation : AdminMutation} {now : ℤ}
    (hadmin : isAdmin row = true) (hkeeps : removesAdmin row mutation = false) :
    isAdmin (applyMutation now row mutation) = true := by
  cases mutation with
  | role role =>
    change (isAdmin row && decide (role ≠ .admin)) = false at hkeeps
    rw [hadmin, Bool.true_and, decide_eq_false_iff_not, not_not] at hkeeps
    rw [isAdmin_iff] at hadmin ⊢
    exact ⟨hkeeps, hadmin.2⟩
  | active active =>
    change (isAdmin row && !active) = false at hkeeps
    rw [hadmin, Bool.true_and, Bool.not_eq_false'] at hkeeps
    rw [isAdmin_iff] at hadmin ⊢
    exact ⟨hadmin.1, hkeeps, hadmin.2.2⟩
  | passwordChange => exact hadmin

theorem hasAdmin_write {target : AccountRow} (h : Read w.store (some (r, .ready target)))
    (hadmin : HasAdmin w.store) :
    HasAdmin (write w r).store := by
  obtain ⟨-, htarget, hother⟩ := h
  have hget : ∀ id, (write w r).store.accounts.get? id =
      (w.store.accounts.get? id).map (fun row =>
        if id = r.input.targetId then applyMutation r.input.now row r.mutation else row) :=
    fun id => get?_updateAccount w.store r.input.targetId
      (fun row => applyMutation r.input.now row r.mutation) id
  have hbeside : OtherAdmin w.store r.input.targetId → HasAdmin (write w r).store := by
    rintro ⟨id, row, hne, hrow, hrowAdmin⟩
    refine ⟨id, row, ?_, hrowAdmin⟩
    rw [hget, hrow, Option.map_some, if_neg hne]
  cases hremoves : removesAdmin target r.mutation with
  | true => exact hbeside (hother hremoves)
  | false =>
    obtain ⟨id, row, hrow, hrowAdmin⟩ := hadmin
    by_cases hid : id = r.input.targetId
    · subst hid
      rw [htarget, Option.some.injEq] at hrow
      refine ⟨r.input.targetId, applyMutation r.input.now target r.mutation, ?_, ?_⟩
      · rw [hget, htarget, Option.map_some, if_pos rfl]
      · exact isAdmin_applyMutation (hrow ▸ hrowAdmin) hremoves
    · exact hbeside ⟨id, row, hid, hrow, hrowAdmin⟩

theorem store_request (hstep : RequestStep r w w') :
    w'.store = w.store ∨ ∃ target, w.request = some (r, .ready target) ∧ w' = write w r := by
  cases hstep with
  | readActor hidle =>
    left
    unfold readActor
    split
    · rfl
    · split <;> rfl
  | readTarget hphase =>
    left
    unfold readTarget
    split
    · rfl
    · split
      · rfl
      · split <;> rfl
  | countAdmins target hphase =>
    left
    unfold countAdmins
    split <;> rfl
  | write target hphase => exact .inr ⟨target, hphase, rfl⟩

theorem hasAdmin_step (h : Read w.store w.request) (hadmin : HasAdmin w.store)
    (hstep : Step w w') : HasAdmin w'.store := by
  cases hstep with
  | request r _ _ hrequest =>
    rcases store_request hrequest with hsame | ⟨target, hphase, rfl⟩
    · rw [hsame]
      exact hadmin
    · rw [hphase] at h
      exact hasAdmin_write h hadmin
  | other _ _ hother =>
    cases hother with
    | commit o hlocks => exact (keepsAdmins_other o).hasAdmin hadmin

theorem read_step (h : Read w.store w.request) (hstep : Step w w') :
    Read w'.store w'.request := by
  cases hstep with
  | request r _ _ hrequest => exact read_request h hrequest
  | other _ _ hother => exact read_other h hother

theorem read_reachable {s : Store} (h : Reachable s w) : Read w.store w.request := by
  induction h with
  | refl => trivial
  | tail _ hstep ih => exact read_step ih hstep

/-- A request whose actor may not act at the moment is refused where it reads its actor. -/
theorem refused_of_not_qualified (h : Read w.store w.request) (hstep : RequestStep r w w')
    (hactor : ¬ Qualified w.store r.input.actorId) :
    w' = w.answer r .forbidden := by
  cases hstep with
  | readActor hidle =>
    unfold readActor
    cases hfound : w.store.accounts.get? r.input.actorId with
    | none => rfl
    | some actor =>
      dsimp only
      split
      · rfl
      · rename_i hqualified
        rw [Bool.or_eq_true, not_or, Bool.not_eq_true', Bool.not_eq_false,
          Bool.not_eq_true] at hqualified
        exact absurd ⟨actor, hfound, hqualified⟩ hactor
  | readTarget hphase =>
    rw [hphase] at h
    exact absurd h hactor
  | countAdmins target hphase =>
    rw [hphase] at h
    exact absurd h.1 hactor
  | write target hphase =>
    rw [hphase] at h
    exact absurd h.1 hactor

/-- Once there is an admin there is one for good, and a request by anyone else is refused
and alters nothing. -/
theorem admins_remain (start : Store) (w : World) (h : Reachable start w) :
    (HasAdmin w.store → ∀ w', Relation.ReflTransGen Step w w' → HasAdmin w'.store) ∧
      ∀ r w', RequestStep r w w' → ¬ Qualified w.store r.input.actorId →
        w'.store = w.store ∧ w' = w.answer r .forbidden := by
  have hread := read_reachable h
  constructor
  · intro hadmin w' hsteps
    have hboth : HasAdmin w'.store ∧ Read w'.store w'.request := by
      induction hsteps with
      | refl => exact ⟨hadmin, hread⟩
      | tail _ hstep ih => exact ⟨hasAdmin_step ih.2 ih.1 hstep, read_step ih.2 hstep⟩
    exact hboth.1
  · intro r w' hstep hactor
    have hrefused := refused_of_not_qualified hread hstep hactor
    exact ⟨by rw [hrefused]; rfl, hrefused⟩

def adminRow (email : String) : AccountRow :=
  (⟨email, email, ⟨"", "", 1, 1⟩, 0⟩ : Registration).row .admin (some 0) false

def demote (actorId targetId : ℕ) : Request := ⟨⟨actorId, targetId, 1⟩, .role .user⟩

/-- Two admins of whom each demotes the other: the first request leaves one admin, whom the
second one's actor no longer is. -/
theorem admins_remain_crossing :
    let start := Store.start (OrderedMap.ofList [(1, adminRow "a"), (2, adminRow "b")])
    ∃ w, Reachable start w ∧
      w.answers = [(demote 1 2, .updated), (demote 2 1, .forbidden)] ∧
      (HasAdmin w.store → ∀ w', Relation.ReflTransGen Step w w' → HasAdmin w'.store) ∧
      ∀ r w', RequestStep r w w' → ¬ Qualified w.store r.input.actorId →
        w'.store = w.store ∧ w' = w.answer r .forbidden := by
  intro start
  have hactor := Relation.ReflTransGen.refl.tail
    (Step.request (demote 1 2) (World.start start) _ (.readActor _ rfl))
  have htarget := hactor.tail (.request (demote 1 2) _ _ (.readTarget _ rfl))
  have hcounted := htarget.tail (.request (demote 1 2) _ _ (.countAdmins _ (adminRow "b") rfl))
  have hwritten := hcounted.tail (.request (demote 1 2) _ _ (.write _ (adminRow "b") rfl))
  have hrefused := hwritten.tail (.request (demote 2 1) _ _ (.readActor _ rfl))
  exact ⟨_, hrefused, rfl, admins_remain start _ hrefused⟩

end SlashWho.AdminRequests
