import SlashWho.ApplicantOutcomes
import SlashWho.Fallible

/-!
Passes of the watcher over the applicant tables, and what holds along every run. A
pass adds a link only where it read that the link is allowed, and the links it adds
leave those reads as they were; it touches only the applications it picked, and one
whose processing throws stands where it stood.
-/

namespace SlashWho.ApplicantLinkRuns

open List
open ApplicantIntents hiding Action step
open ApplicantApplications ApplicantLinks ApplicantOutcomes Characters ComparatorSort Fallible Runs

section Directories
variable {P : ManualConnection → Prop} {origin directory : Directory}

/-- A directory after the watcher's links, each of which has the property. -/
def GrownBy (P : ManualConnection → Prop) (origin directory : Directory) : Prop :=
  ∃ links : List ManualConnection,
    directory = { origin with connections := origin.connections ++ links } ∧
      ∀ link ∈ links, link.excludedAt = none ∧ P link

theorem grownBy_refl (P : ManualConnection → Prop) (origin : Directory) :
    GrownBy P origin origin :=
  ⟨[], by rw [append_nil], by simp⟩

theorem GrownBy.isActive (h : GrownBy P origin directory) (key : CharacterKey) (at_ : ℤ) :
    directory.isActive key at_ = origin.isActive key at_ := by
  obtain ⟨links, hdirectory, -⟩ := h
  rw [hdirectory]
  rfl

theorem GrownBy.characterId (h : GrownBy P origin directory) (key : CharacterKey) :
    directory.characterId key = origin.characterId key := by
  obtain ⟨links, hdirectory, -⟩ := h
  rw [hdirectory]
  rfl

theorem GrownBy.hasExcluded (h : GrownBy P origin directory) (ownerId : ℕ)
    (other : CharacterKey) :
    directory.hasExcluded ownerId other = origin.hasExcluded ownerId other := by
  obtain ⟨links, hdirectory, hlinks⟩ := h
  have hnone : ∀ key, links.any (fun manual =>
      manual.rootCharacterId = ownerId && manual.excludedAt.isSome && manual.connected = key) =
        false := by
    intro key
    rw [any_eq_false]
    intro link hlink
    rw [(hlinks link hlink).1]
    simp
  subst hdirectory
  unfold Directory.hasExcluded
  simp only [any_append, hnone, Bool.or_false]
  rfl

theorem GrownBy.addLink (h : GrownBy P origin directory) {root character : CharacterKey}
    {rootId applicationId : ℕ} (hroot : directory.characterId root = some rootId)
    (hlink : P ⟨rootId, character, none, .applicantSheet, some applicationId⟩) :
    GrownBy P origin (directory.addLink root character applicationId) := by
  unfold Directory.addLink
  rw [hroot]
  simp only
  split
  · exact h
  · obtain ⟨links, hdirectory, hlinks⟩ := h
    refine ⟨links ++ [⟨rootId, character, none, .applicantSheet, some applicationId⟩], ?_, ?_⟩
    · rw [hdirectory, append_assoc]
    · intro link hin
      rcases mem_append.mp hin with hin | hin
      · exact hlinks link hin
      · rw [mem_singleton.mp hin]
        exact ⟨rfl, hlink⟩

theorem GrownBy.mem (h : GrownBy P origin directory) {link : ManualConnection}
    (hlink : link ∈ directory.connections) : link ∈ origin.connections ∨ P link := by
  obtain ⟨links, hdirectory, hlinks⟩ := h
  rw [hdirectory] at hlink
  rcases mem_append.mp hlink with hin | hin
  · exact .inl hin
  · exact .inr (hlinks link hin).2

end Directories

section Touching
variable {before tables : LinkTables} {id : ℕ}

/-- Tables that differ in what one application stands at. -/
structure Touches (id : ℕ) (before tables : LinkTables) : Prop where
  next : tables.nextApplication = before.nextApplication
  elsewhere : ∀ other, other ≠ id → standing tables other = standing before other

theorem touches_refl (id : ℕ) (tables : LinkTables) : Touches id tables tables :=
  ⟨rfl, fun _ _ => rfl⟩

theorem Touches.decide (h : Touches id before tables) (ordinal : ℕ) (outcome : Outcome) :
    Touches id before (tables.decide id ordinal outcome) :=
  ⟨h.next, fun other hother =>
    (standing_decide hother ordinal outcome tables).trans (h.elsewhere other hother)⟩

theorem Touches.close (h : Touches id before tables) (clock : ℤ) :
    Touches id before (tables.close clock id) :=
  ⟨h.next, fun other hother =>
    (standing_close hother clock tables).trans (h.elsewhere other hother)⟩

end Touching

section Pending
variable {tables : LinkTables} {id waiting : ℕ} {pending : List PendingMember}

/-- The undecided members of an application are those that wait and those to come. -/
structure Pending (id waiting : ℕ) (pending : List PendingMember) (tables : LinkTables) : Prop
    where
  count : undecided tables id = waiting + pending.length
  rows : ∀ member ∈ pending, ∃ row ∈ tables.members,
    row.applicationId = id ∧ row.ordinal = member.ordinal ∧ row.outcome = none
  ordinals : (pending.map PendingMember.ordinal).Nodup

theorem pending_start (h : Kept tables) (id : ℕ) :
    Pending id 0 (pendingMembers tables id) tables := by
  have hperm := perm_sortBy (readBy Member.ordinal compare) (tables.members.filter (fun member =>
    member.applicationId = id && member.outcome.isNone))
  refine ⟨?_, ?_, ?_⟩
  · unfold undecided pendingMembers
    rw [length_map, hperm.length_eq, countP_eq_length_filter]
    omega
  · intro member hmember
    obtain ⟨row, hrow, hread⟩ := mem_map.mp hmember
    obtain ⟨hin, hboth⟩ := mem_filter.mp ((mem_sortBy _).mp hrow)
    simp only [Bool.and_eq_true, decide_eq_true_eq, Option.isNone_iff_eq_none] at hboth
    refine ⟨row, hin, hboth.1, ?_, hboth.2⟩
    rw [← hread]
  · unfold pendingMembers
    rw [map_map]
    have hrows : ((tables.members.filter (fun member =>
        member.applicationId = id && member.outcome.isNone)).map Member.ordinal).Nodup := by
      have hkeys := h.ordinals.sublist ((filter_sublist (p := fun member : Member =>
        member.applicationId = id && member.outcome.isNone)).map memberKey)
      apply List.Nodup.map_on
      · intro one hone two htwo hordinal
        obtain ⟨hone, honeId⟩ := mem_filter.mp hone
        obtain ⟨htwo, htwoId⟩ := mem_filter.mp htwo
        simp only [Bool.and_eq_true, decide_eq_true_eq] at honeId htwoId
        apply eq_of_key h.ordinals hone htwo
        exact Prod.ext (honeId.1.trans htwoId.1.symm) hordinal
      · exact hkeys.of_map
    exact (hperm.map Member.ordinal).nodup_iff.mpr hrows

variable {member : PendingMember}

/-- Deciding the next member keeps the tables and the members to come. -/
theorem Pending.decide (h : Pending id waiting (member :: pending) tables) (hkept : Kept tables)
    (outcome : Outcome) :
    Kept (tables.decide id member.ordinal outcome) ∧
      Pending id waiting pending (tables.decide id member.ordinal outcome) := by
  obtain ⟨row, hrow, hid, hordinal, hnone⟩ := h.rows member mem_cons_self
  rw [← hid, ← hordinal]
  refine ⟨hkept.decide hrow hnone outcome, ?_, ?_, ?_⟩
  · have hone := undecided_decide hkept hrow hnone outcome
    have hcount := h.count
    rw [length_cons, ← hid] at hcount
    omega
  · intro other hother
    obtain ⟨row', hrow', hid', hordinal', hnone'⟩ := h.rows other (mem_cons_of_mem _ hother)
    refine ⟨row', ?_, hid'.trans hid.symm, hordinal', hnone'⟩
    apply mem_map.mpr
    refine ⟨row', hrow', if_neg ?_⟩
    intro hboth
    simp only [Bool.and_eq_true, decide_eq_true_eq] at hboth
    have hordinals := h.ordinals
    rw [map_cons, nodup_cons] at hordinals
    apply hordinals.1
    rw [← hordinal, ← hboth.2, hordinal']
    exact mem_map_of_mem hother
  · have hordinals := h.ordinals
    rw [map_cons, nodup_cons] at hordinals
    exact hordinals.2

theorem Pending.wait (h : Pending id waiting (member :: pending) tables) :
    Pending id (waiting + 1) pending tables := by
  refine ⟨?_, fun other hother => h.rows other (mem_cons_of_mem _ hother), ?_⟩
  · have hcount := h.count
    rw [length_cons] at hcount
    omega
  · have hordinals := h.ordinals
    rw [map_cons, nodup_cons] at hordinals
    exact hordinals.2

end Pending

section Linking
variable (keyOf : String → Option CharacterKey) (input : PassInput)
variable {tables₀ : LinkTables} {origin : Directory} {P : ManualConnection → Prop}
variable {picked : PickedApplication} {s : Linking}

/-- A link that was allowed by what the pass could read: an open application settled
less than seven days before, both ends known, of one region, not suppressed, and
neither excluded by the other. -/
def AllowedLink (tables : LinkTables) (directory : Directory) (link : ManualConnection) : Prop :=
  ∃ row ∈ tables.applications, ∃ settledAt intent rootKey memberId,
    link.applicantApplicationId = some row.id ∧ row.closedAt = none ∧
    row.settledAt = some settledAt ∧ input.now - settledAt < settleAfterDays * day ∧
    findIntent row.rootIntentSequence tables.intents = some intent ∧
    intent.canonicalIdentity.bind keyOf = some rootKey ∧
    directory.characterId rootKey = some link.rootCharacterId ∧
    directory.characterId link.connected = some memberId ∧
    rootKey.region = link.connected.region ∧
    directory.isActive rootKey input.now = false ∧
    directory.isActive link.connected input.now = false ∧
    directory.hasExcluded link.rootCharacterId link.connected = false ∧
    directory.hasExcluded memberId rootKey = false

def IsPicked (tables : LinkTables) (picked : PickedApplication) : Prop :=
  ∃ row ∈ tables.applications, ∃ intent,
    row.id = picked.id ∧ row.closedAt = none ∧ row.settledAt = some picked.settledAt ∧
    findIntent row.rootIntentSequence tables.intents = some intent ∧
    intent.canonicalIdentity = picked.rootCanonical

/-- What is known of a root before its members are linked. -/
structure LinkableRoot (tables : LinkTables) (directory : Directory)
    (picked : PickedApplication) (rootKey : CharacterKey) (rootId : ℕ) : Prop where
  isPicked : IsPicked tables picked
  inTime : input.now - picked.settledAt < settleAfterDays * day
  key : picked.rootCanonical.bind keyOf = some rootKey
  known : directory.characterId rootKey = some rootId
  notSuppressed : directory.isActive rootKey input.now = false

/-- One member decided or left waiting. -/
def Handles (id ordinal : ℕ) (s s' : Linking) : Prop :=
  s'.failedIds = s.failedIds ∧
    ((∃ outcome, s'.tables = s.tables.decide id ordinal outcome ∧
        s'.openMembers = s.openMembers) ∨
      (s'.tables = s.tables ∧ s'.openMembers = s.openMembers + 1))

/-- States that differ in what has been counted and called. -/
structure Same (s s' : Linking) : Prop where
  tables : s'.tables = s.tables
  directory : s'.directory = s.directory
  openMembers : s'.openMembers = s.openMembers
  failedIds : s'.failedIds = s.failedIds

theorem same_refl (s : Linking) : Same s s := ⟨rfl, rfl, rfl, rfl⟩

variable {u : Linking}

variable {v : Linking}

theorem Same.trans (h : Same s u) (h' : Same u v) : Same s v :=
  ⟨h'.tables.trans h.tables, h'.directory.trans h.directory,
    h'.openMembers.trans h.openMembers, h'.failedIds.trans h.failedIds⟩

theorem Same.grown (h : Same s u) (hgrown : GrownBy P origin s.directory) :
    GrownBy P origin u.directory := by
  rw [h.directory]
  exact hgrown

theorem await_ends (h : GrownBy P origin s.directory) :
    Ends (Same s) (fun e => GrownBy P origin e.directory) (await input s) := by
  unfold await
  split
  · exact h
  · exact ⟨rfl, rfl, rfl, rfl⟩

theorem decide_ends (hgrown : GrownBy P origin s.directory) (id ordinal : ℕ)
    (outcome : Outcome) :
    Ends (fun s' => GrownBy P origin s'.directory ∧ s'.failedIds = s.failedIds ∧
        s'.tables = s.tables.decide id ordinal outcome ∧ s'.openMembers = s.openMembers)
      (fun e => GrownBy P origin e.directory)
      (ApplicantLinks.decide input id ordinal outcome s) := by
  unfold ApplicantLinks.decide
  apply (await_ends input hgrown).map
  intro s' hs'
  refine ⟨hs'.grown hgrown, hs'.failedIds, ?_, hs'.openMembers⟩
  rw [hs'.tables]

theorem decide_handles (hgrown : GrownBy P origin s.directory) (hsame : Same s u)
    (id ordinal : ℕ) (outcome : Outcome) :
    Ends (fun s' => GrownBy P origin s'.directory ∧ Handles id ordinal s s')
      (fun e => GrownBy P origin e.directory)
      (ApplicantLinks.decide input id ordinal outcome u) := by
  apply (decide_ends input (hsame.grown hgrown) id ordinal outcome).imp
  intro s' hs'
  obtain ⟨hgrown', hfailed, htables, hopen⟩ := hs'
  refine ⟨hgrown', hfailed.trans hsame.failedIds, .inl ⟨outcome, ?_, ?_⟩⟩
  · rw [htables, hsame.tables]
  · rw [hopen, hsame.openMembers]

theorem wait_handles (hgrown : GrownBy P origin s.directory) (hsame : Same s u)
    (id ordinal : ℕ) :
    Ends (fun s' => GrownBy P origin s'.directory ∧ Handles id ordinal s s')
      (fun e => GrownBy P origin e.directory)
      (.ok { u with openMembers := u.openMembers + 1 } : Except Linking Linking) :=
  ⟨hsame.grown hgrown, hsame.failedIds,
    .inr ⟨hsame.tables, congrArg (· + 1) hsame.openMembers⟩⟩

variable {rootId : ℕ}

theorem addLink_ends (hgrown : GrownBy P origin s.directory) {root character : CharacterKey}
    {applicationId : ℕ} (hroot : origin.characterId root = some rootId)
    (hlink : P ⟨rootId, character, none, .applicantSheet, some applicationId⟩) :
    Ends (fun s' => GrownBy P origin s'.directory ∧ s'.failedIds = s.failedIds ∧
        s'.tables = s.tables ∧ s'.openMembers = s.openMembers)
      (fun e => GrownBy P origin e.directory) (addLink input root character applicationId s) := by
  unfold addLink
  apply (await_ends input hgrown).bind
  intro s₁ hs₁
  have hgrown₁ := hs₁.grown hgrown
  have hadded := hgrown₁.addLink ((hgrown₁.characterId root).trans hroot) hlink
  apply (await_ends (s := { s₁ with
    directory := s₁.directory.addLink root character applicationId }) input hadded).imp
  intro s₂ hs₂
  exact ⟨hs₂.grown hadded, hs₂.failedIds.trans hs₁.failedIds, hs₂.tables.trans hs₁.tables,
    hs₂.openMembers.trans hs₁.openMembers⟩

variable {rootKey memberKey : CharacterKey}

theorem linkOrSkip_ends (hgrown : GrownBy P origin s.directory) (hsame : Same s u) (ordinal : ℕ)
    (hroot : origin.characterId rootKey = some rootId)
    (hlink : P ⟨rootId, memberKey, none, .applicantSheet, some picked.id⟩) :
    Ends (fun s' => GrownBy P origin s'.directory ∧ Handles picked.id ordinal s s')
      (fun e => GrownBy P origin e.directory)
      (linkOrSkip input picked ordinal rootKey memberKey u) := by
  unfold linkOrSkip
  apply (await_ends input (hsame.grown hgrown)).bind
  intro s₁ hs₁
  -- the walk's answer changes only the counts
  generalize hcounted : (if (input.components s₁.calls).same then s₁
    else
      { s₁ with counts :=
        { s₁.counts with neededLinkPairs := s₁.counts.neededLinkPairs + 1 } }) = s₂
  have hsame₂ : Same s s₂ := by
    apply (hsame.trans hs₁).trans
    rw [← hcounted]
    split <;> exact ⟨rfl, rfl, rfl, rfl⟩
  simp only
  rw [hcounted]
  split
  · exact decide_handles input hgrown hsame₂ picked.id ordinal .skippedCrossGroup
  · apply (addLink_ends input (hsame₂.grown hgrown) hroot hlink).bind
    intro s₃ h₃
    obtain ⟨hgrown₃, hfailed₃, htables₃, hopen₃⟩ := h₃
    apply (decide_ends input hgrown₃ picked.id ordinal .linked).imp
    intro s' h
    obtain ⟨hgrown', hfailed', htables', hopen'⟩ := h
    refine ⟨hgrown', (hfailed'.trans hfailed₃).trans hsame₂.failedIds,
      .inl ⟨.linked, ?_, ?_⟩⟩
    · rw [htables', htables₃, hsame₂.tables]
    · rw [hopen', hopen₃, hsame₂.openMembers]

variable {keyOf} {input}

theorem allowedLink_of_reads {memberId : ℕ}
    (hroot : LinkableRoot keyOf input tables₀ origin picked rootKey rootId)
    (hmember : origin.characterId memberKey = some memberId)
    (hregion : memberKey.region = rootKey.region)
    (hactive : origin.isActive memberKey input.now = false)
    (hrootExcludes : origin.hasExcluded rootId memberKey = false)
    (hmemberExcludes : origin.hasExcluded memberId rootKey = false) :
    AllowedLink keyOf input tables₀ origin
      ⟨rootId, memberKey, none, .applicantSheet, some picked.id⟩ := by
  obtain ⟨row, hrow, intent, hid, hclosed, hsettled, hintent, hcanonical⟩ := hroot.isPicked
  refine ⟨row, hrow, picked.settledAt, intent, rootKey, memberId, ?_, hclosed, hsettled,
    hroot.inTime, hintent, ?_, hroot.known, hmember, hregion.symm, hroot.notSuppressed, hactive,
    hrootExcludes, hmemberExcludes⟩
  · rw [hid]
  · rw [hcanonical]
    exact hroot.key

variable (keyOf) (input)

theorem linkReady_ends
    (hgrown : GrownBy (AllowedLink keyOf input tables₀ origin) origin s.directory)
    (member : PendingMember)
    (hroot : LinkableRoot keyOf input tables₀ origin picked rootKey rootId) :
    Ends (fun s' => GrownBy (AllowedLink keyOf input tables₀ origin) origin s'.directory ∧
        Handles picked.id member.ordinal s s')
      (fun e => GrownBy (AllowedLink keyOf input tables₀ origin) origin e.directory)
      (linkReady input picked member rootKey memberKey rootId s) := by
  unfold linkReady
  apply (await_ends input hgrown).bind
  intro s₁ h₁
  have hgrown₁ := h₁.grown hgrown
  split
  · exact decide_handles input hgrown h₁ picked.id member.ordinal .suppressed
  rename_i hactive
  split
  · exact decide_handles input hgrown h₁ picked.id member.ordinal .sameCharacter
  apply (await_ends input hgrown₁).bind
  intro s₂ hs₂
  have h₂ := h₁.trans hs₂
  have hgrown₂ := h₂.grown hgrown
  split
  · exact wait_handles hgrown h₂ picked.id member.ordinal
  rename_i memberId hmember
  split
  · exact decide_handles input hgrown h₂ picked.id member.ordinal .skippedRegion
  rename_i hregion
  apply (await_ends input hgrown₂).bind
  intro s₃ hs₃
  have h₃ := h₂.trans hs₃
  have hgrown₃ := h₃.grown hgrown
  split
  · exact decide_handles input hgrown h₃ picked.id member.ordinal .skippedExcluded
  rename_i hrootExcludes
  apply (await_ends input hgrown₃).bind
  intro s₄ hs₄
  have h₄ := h₃.trans hs₄
  have hgrown₄ := h₄.grown hgrown
  split
  · exact decide_handles input hgrown h₄ picked.id member.ordinal .skippedExcluded
  rename_i hmemberExcludes
  rw [hgrown₁.isActive, Bool.not_eq_true] at hactive
  rw [hgrown₂.characterId] at hmember
  rw [hgrown₃.hasExcluded, Bool.not_eq_true] at hrootExcludes
  rw [hgrown₄.hasExcluded, Bool.not_eq_true] at hmemberExcludes
  have hallowed := allowedLink_of_reads hroot hmember (not_not.mp hregion) hactive hrootExcludes
    hmemberExcludes
  exact linkOrSkip_ends input hgrown h₄ member.ordinal hroot.known hallowed

variable {root : Option (CharacterKey × ℕ)}

theorem linkMember_ends
    (hgrown : GrownBy (AllowedLink keyOf input tables₀ origin) origin s.directory)
    (member : PendingMember) (hroot : ∀ rootKey rootId, root = some (rootKey, rootId) →
      LinkableRoot keyOf input tables₀ origin picked rootKey rootId) :
    Ends (fun s' => GrownBy (AllowedLink keyOf input tables₀ origin) origin s'.directory ∧
        Handles picked.id member.ordinal s s')
      (fun e => GrownBy (AllowedLink keyOf input tables₀ origin) origin e.directory)
      (linkMember keyOf input picked root s member) := by
  unfold linkMember
  split
  · exact decide_handles input hgrown (same_refl s) picked.id member.ordinal .suppressed
  · split
    · exact linkReady_ends keyOf input hgrown member (hroot _ _ rfl)
    · exact wait_handles hgrown (same_refl s) picked.id member.ordinal
/-- What a picked application is left with once its members are handled. -/
structure Linked (id : ℕ) (s s' : Linking) : Prop where
  kept : Kept s'.tables
  touches : Touches id s.tables s'.tables
  failedIds : s'.failedIds = s.failedIds

theorem close_ends (hlinked : Linked picked.id s v) (hgrown : GrownBy P origin v.directory)
    (hnone : undecided v.tables picked.id = 0) :
    Ends (fun s' => GrownBy P origin s'.directory ∧ Linked picked.id s s')
      (fun e => GrownBy P origin e.directory) (ApplicantLinks.close input picked.id v) := by
  unfold ApplicantLinks.close
  apply (await_ends input hgrown).map
  intro w hw
  refine ⟨hw.grown hgrown, ?_, ?_, hw.failedIds.trans hlinked.failedIds⟩
  · rw [hw.tables]
    exact hlinked.kept.close hnone input.clock
  · rw [hw.tables]
    exact hlinked.touches.close input.clock

theorem decideAll_ends (hgrown : GrownBy P origin s.directory) (hkept : Kept s.tables)
    (outcome : Outcome) (hsame : Same s v) :
    Ends (fun s' => GrownBy P origin s'.directory ∧ Linked picked.id s s')
      (fun e => GrownBy P origin e.directory)
      (decideAll input picked outcome (pendingMembers s.tables picked.id) v) := by
  unfold decideAll
  have hloop : Ends (fun s' => GrownBy P origin s'.directory ∧ Linked picked.id s s' ∧
        Pending picked.id 0 [] s'.tables)
      (fun e => GrownBy P origin e.directory)
      ((pendingMembers s.tables picked.id).foldlM (fun s member =>
        ApplicantLinks.decide input picked.id member.ordinal outcome s) v) := by
    apply ends_foldlM (fun pending w => GrownBy P origin w.directory ∧ Linked picked.id s w ∧
      Pending picked.id 0 pending w.tables)
    · intro member pending w hw
      obtain ⟨hgrownW, hlinked, hpending⟩ := hw
      apply (decide_ends input hgrownW picked.id member.ordinal outcome).imp
      intro w' hw'
      obtain ⟨hgrown', hfailed, htables, -⟩ := hw'
      obtain ⟨hkept', hpending'⟩ := hpending.decide hlinked.kept outcome
      rw [← htables] at hkept' hpending'
      refine ⟨hgrown', ⟨hkept', ?_, hfailed.trans hlinked.failedIds⟩, hpending'⟩
      rw [htables]
      exact hlinked.touches.decide member.ordinal outcome
    · refine ⟨hsame.grown hgrown, ⟨?_, ?_, hsame.failedIds⟩, ?_⟩
      · rw [hsame.tables]
        exact hkept
      · rw [hsame.tables]
        exact touches_refl picked.id s.tables
      · rw [hsame.tables]
        exact pending_start hkept picked.id
  apply hloop.bind
  intro w hw
  obtain ⟨hgrownW, hlinked, hpending⟩ := hw
  exact close_ends input hlinked hgrownW hpending.count

/-- What is answered of a root's suppression, where it is not suppressed. -/
theorem isRootSuppressed_ends (hgrown : GrownBy P origin s.directory)
    (rootKey : Option CharacterKey) :
    Ends (fun answer => Same s answer.2 ∧ (answer.1 = false →
        ∀ key, rootKey = some key → origin.isActive key input.now = false))
      (fun e => GrownBy P origin e.directory) (isRootSuppressed input picked rootKey s) := by
  unfold isRootSuppressed
  split
  · exact ⟨same_refl s, fun h => Bool.noConfusion h⟩
  · split
    · exact ⟨same_refl s, fun _ key hkey => by cases hkey⟩
    · rename_i key
      apply (await_ends input hgrown).map
      intro s' hs'
      refine ⟨hs', ?_⟩
      intro hactive other hother
      rw [← Option.some.inj hother, ← hgrown.isActive, ← hs'.directory]
      exact hactive

theorem findRoot_ends (hgrown : GrownBy P origin s.directory) (rootKey : Option CharacterKey) :
    Ends (fun answer => Same s answer.2 ∧ ∀ key id, answer.1 = some (key, id) →
        rootKey = some key ∧ origin.characterId key = some id)
      (fun e => GrownBy P origin e.directory) (findRoot input rootKey s) := by
  unfold findRoot
  split
  · exact ⟨same_refl s, fun key id h => by cases h⟩
  · rename_i rootKey
    apply (await_ends input hgrown).map
    intro s' hs'
    refine ⟨hs', ?_⟩
    intro key id hfound
    obtain ⟨rootId, hroot, hpair⟩ := Option.map_eq_some_iff.mp hfound
    obtain ⟨hkey, hid⟩ := Prod.mk.inj hpair
    rw [← hkey, ← hid]
    refine ⟨rfl, ?_⟩
    rw [← hgrown.characterId, ← hs'.directory]
    exact hroot

/-- The loop over the members: what waits and what is to come stays undecided. -/
theorem linkMembers_ends (hroot : ∀ rootKey rootId, root = some (rootKey, rootId) →
      LinkableRoot keyOf input tables₀ origin picked rootKey rootId)
    (hlinked : Linked picked.id s v) {members : List PendingMember}
    (hpending : Pending picked.id v.openMembers members v.tables)
    (hgrownV : GrownBy (AllowedLink keyOf input tables₀ origin) origin v.directory) :
    Ends (fun s' => GrownBy (AllowedLink keyOf input tables₀ origin) origin s'.directory ∧
        Linked picked.id s s' ∧ Pending picked.id s'.openMembers [] s'.tables)
      (fun e => GrownBy (AllowedLink keyOf input tables₀ origin) origin e.directory)
      (members.foldlM (linkMember keyOf input picked root) v) := by
  apply ends_foldlM (fun pending w =>
    GrownBy (AllowedLink keyOf input tables₀ origin) origin w.directory ∧
      Linked picked.id s w ∧ Pending picked.id w.openMembers pending w.tables)
  · intro member pending w hw
    obtain ⟨hgrownW, hlinkedW, hpendingW⟩ := hw
    apply (linkMember_ends keyOf input hgrownW member hroot).imp
    intro w' hw'
    obtain ⟨hgrown', hfailed, hcases⟩ := hw'
    refine ⟨hgrown', ?_⟩
    rcases hcases with ⟨outcome, htables, hopen⟩ | ⟨htables, hopen⟩
    · obtain ⟨hkept', hpending'⟩ := hpendingW.decide hlinkedW.kept outcome
      rw [← htables] at hkept' hpending'
      rw [hopen]
      refine ⟨⟨hkept', ?_, hfailed.trans hlinkedW.failedIds⟩, hpending'⟩
      rw [htables]
      exact hlinkedW.touches.decide member.ordinal outcome
    · rw [hopen, htables]
      refine ⟨⟨?_, ?_, hfailed.trans hlinkedW.failedIds⟩, hpendingW.wait⟩
      · rw [htables]
        exact hlinkedW.kept
      · rw [htables]
        exact hlinkedW.touches
  · exact ⟨hgrownV, hlinked, hpending⟩

theorem linkApplication_ends
    (hgrown : GrownBy (AllowedLink keyOf input tables₀ origin) origin s.directory)
    (hkept : Kept s.tables) (hpicked : IsPicked tables₀ picked) :
    Ends (fun s' => GrownBy (AllowedLink keyOf input tables₀ origin) origin s'.directory ∧
        Linked picked.id s s')
      (fun e => GrownBy (AllowedLink keyOf input tables₀ origin) origin e.directory)
      (linkApplication keyOf input picked s) := by
  unfold linkApplication
  apply (await_ends input hgrown).bind
  intro s₁ h₁
  simp only
  rw [h₁.tables]
  apply (isRootSuppressed_ends input (h₁.grown hgrown) _).bind
  intro answer hanswer
  obtain ⟨rootSuppressed, s₂⟩ := answer
  obtain ⟨hs₂, hnotSuppressed⟩ := hanswer
  have h₂ := h₁.trans hs₂
  simp only
  split
  · exact decideAll_ends input hgrown hkept .suppressed h₂
  rename_i hsuppressed
  split
  · exact decideAll_ends input hgrown hkept .expired h₂
  rename_i hinTime
  apply (findRoot_ends input (h₂.grown hgrown) _).bind
  intro found hfound
  obtain ⟨root, s₃⟩ := found
  obtain ⟨hs₃, hroot⟩ := hfound
  have h₃ := h₂.trans hs₃
  have hlinkable : ∀ rootKey rootId, root = some (rootKey, rootId) →
      LinkableRoot keyOf input tables₀ origin picked rootKey rootId := by
    intro rootKey rootId hsome
    obtain ⟨hkey, hknown⟩ := hroot rootKey rootId hsome
    exact ⟨hpicked, not_le.mp hinTime, hkey, hknown,
      hnotSuppressed (Bool.not_eq_true _ ▸ hsuppressed) rootKey hkey⟩
  simp only
  have hstart : Linked picked.id s { s₃ with openMembers := 0 } := by
    refine ⟨?_, ?_, h₃.failedIds⟩
    · rw [h₃.tables]
      exact hkept
    · rw [h₃.tables]
      exact touches_refl picked.id s.tables
  have hpending : Pending picked.id 0 (pendingMembers s.tables picked.id) s₃.tables := by
    rw [h₃.tables]
    exact pending_start hkept picked.id
  apply (linkMembers_ends keyOf input hlinkable hstart hpending (h₃.grown hgrown)).bind
  intro s₄ hs₄
  obtain ⟨hgrown₄, hlinked₄, hpending₄⟩ := hs₄
  split
  · rename_i hopen
    have hcounted : Linked picked.id s { s₄ with counts :=
        { s₄.counts with waiting := s₄.counts.waiting + s₄.openMembers } } :=
      ⟨hlinked₄.kept, hlinked₄.touches, hlinked₄.failedIds⟩
    apply close_ends input hcounted hgrown₄
    have hcount := hpending₄.count
    rw [length_nil] at hcount
    exact hcount.trans hopen
  · exact ⟨hgrown₄, hlinked₄.kept, hlinked₄.touches, hlinked₄.failedIds⟩
end Linking

section Picking
variable (input : PassInput) {tables : LinkTables}

theorem isPicked_of_mem {picked : PickedApplication} (h : picked ∈ pickApplications input tables) :
    IsPicked tables picked := by
  obtain ⟨row, hrow, hpicked⟩ := mem_filterMap.mp h
  obtain ⟨hin, hopen⟩ := mem_filter.mp ((mem_sortBy _).mp (mem_of_mem_take hrow))
  simp only [Bool.and_eq_true, Option.isNone_iff_eq_none] at hopen
  split at hpicked
  · rename_i settledAt intent hsettled hintent
    cases hpicked
    exact ⟨row, hin, intent, rfl, hopen.1.1.1, hsettled, hintent, rfl⟩
  · cases hpicked

theorem filterMap_keys {α β κ : Type} {f : α → Option β} (key : α → κ) {key' : β → κ}
    (hkey : ∀ a b, f a = some b → key' b = key a) (l : List α) :
    ((l.filterMap f).map key').Sublist (l.map key) := by
  induction l with
  | nil => exact List.Sublist.refl []
  | cons a rest ih =>
    rw [map_cons]
    cases hfa : f a with
    | none =>
      rw [filterMap_cons_none hfa]
      exact ih.cons (key a)
    | some b =>
      rw [filterMap_cons_some hfa, map_cons, hkey a b hfa]
      exact ih.cons_cons (key a)

theorem nodup_picked (h : Kept tables) :
    ((pickApplications input tables).map PickedApplication.id).Nodup := by
  unfold pickApplications
  apply List.Nodup.sublist (filterMap_keys Application.id ?_ _)
  · apply List.Nodup.sublist ((take_sublist _ _).map Application.id)
    apply ((perm_sortBy _ _).map Application.id).nodup_iff.mpr
    exact h.ids.sublist (filter_sublist.map Application.id)
  · intro row picked hpicked
    split at hpicked
    · cases hpicked
      rfl
    · cases hpicked

end Picking

section Passing
variable (keyOf : String → Option CharacterKey) (input : PassInput)
variable {tables : LinkTables} {origin : Directory} {picked : PickedApplication} {s : Linking}

theorem standing_map {change : Application → Application}
    (hchange : ∀ row, (change row).id = row.id ∧ (change row).closedAt = row.closedAt ∧
      (change row).outcomes = row.outcomes) (tables : LinkTables) (id : ℕ) :
    standing { tables with applications := tables.applications.map change } id =
      standing tables id := by
  unfold standing
  simp only [Standing.mk.injEq, and_true]
  induction tables.applications with
  | nil => rfl
  | cons row rest ih =>
    obtain ⟨hid, hclosed, houtcomes⟩ := hchange row
    rw [map_cons, filter_cons, filter_cons, hid]
    split
    · rw [map_cons, map_cons, ih, hclosed, houtcomes]
    · exact ih

/-- One application of a pass: linked, or standing where it stood. -/
structure Processed (id : ℕ) (s s' : Linking) : Prop where
  kept : Kept s'.tables
  touches : Touches id s.tables s'.tables
  failedIds : s'.failedIds = s.failedIds ∨
    s'.failedIds = s.failedIds ++ [id] ∧ standing s'.tables id = standing s.tables id

theorem linkOne_ends (hgrown : GrownBy (AllowedLink keyOf input tables origin) origin s.directory)
    (hkept : Kept s.tables) (hpicked : IsPicked tables picked) :
    Ends (fun s' => GrownBy (AllowedLink keyOf input tables origin) origin s'.directory ∧
        Processed picked.id s s')
      (fun e => GrownBy (AllowedLink keyOf input tables origin) origin e.directory)
      (linkOne keyOf input s picked) := by
  unfold linkOne
  apply (await_ends input hgrown).bind
  intro s₁ h₁
  have hbump : ∀ row : Application,
      (if row.id = picked.id then { row with lastCheckedAt := some input.clock } else row).id =
          row.id ∧
        (if row.id = picked.id then { row with lastCheckedAt := some input.clock }
          else row).closedAt = row.closedAt ∧
        (if row.id = picked.id then { row with lastCheckedAt := some input.clock }
          else row).outcomes = row.outcomes := by
    intro row
    split <;> exact ⟨rfl, rfl, rfl⟩
  generalize hbumped : ({ s₁ with tables :=
      { s₁.tables with
        applications := updateApplication picked.id
          (fun row => { row with lastCheckedAt := some input.clock }) s₁.tables.applications } } :
      Linking) = bumped
  have hstanding : ∀ id, standing bumped.tables id = standing s.tables id := by
    intro id
    rw [← hbumped, ← h₁.tables]
    exact standing_map hbump s₁.tables id
  have hkeptBumped : Kept bumped.tables := by
    rw [← hbumped]
    apply Kept.sameRows ?_ hbump
    rw [h₁.tables]
    exact hkept
  have hnext : bumped.tables.nextApplication = s.tables.nextApplication := by
    rw [← hbumped, ← h₁.tables]
  have hfailed : bumped.failedIds = s.failedIds := by
    rw [← hbumped]
    exact h₁.failedIds
  have hgrownBumped : GrownBy (AllowedLink keyOf input tables origin) origin
      bumped.directory := by
    rw [← hbumped]
    exact h₁.grown hgrown
  have hends : Ends (fun s' => GrownBy (AllowedLink keyOf input tables origin) origin s'.directory ∧
        Linked picked.id bumped s')
      (fun e => GrownBy (AllowedLink keyOf input tables origin) origin e.directory)
      (linkApplication keyOf input picked bumped >>= await input) := by
    apply (linkApplication_ends keyOf input hgrownBumped hkeptBumped hpicked).bind
    intro linked hlinked
    apply (await_ends input hlinked.1).imp
    intro s' hs'
    refine ⟨hs'.grown hlinked.1, ?_, ?_, hs'.failedIds.trans hlinked.2.failedIds⟩
    · rw [hs'.tables]
      exact hlinked.2.kept
    · rw [hs'.tables]
      exact hlinked.2.touches
  simp only
  cases hresult : linkApplication keyOf input picked bumped >>= await input with
  | ok linked =>
    rw [hresult] at hends
    obtain ⟨hgrown', hlinked⟩ := hends
    refine ⟨hgrown', hlinked.kept, ⟨hlinked.touches.next.trans hnext, ?_⟩,
      .inl (hlinked.failedIds.trans hfailed)⟩
    intro other hother
    exact (hlinked.touches.elsewhere other hother).trans (hstanding other)
  | error thrown =>
    rw [hresult] at hends
    refine ⟨hends, hkeptBumped, ⟨hnext, fun other _ => hstanding other⟩, .inr ⟨?_, ?_⟩⟩
    · rw [hfailed]
    · exact hstanding picked.id

/-- A pass that ends: what it did not pick, and what threw, stands where it stood. -/
structure Passed (tables : LinkTables) (s : Linking) : Prop where
  kept : Kept s.tables
  next : s.tables.nextApplication = tables.nextApplication
  unpicked : ∀ id, id ∉ (pickApplications input tables).map PickedApplication.id →
    standing s.tables id = standing tables id
  thrown : ∀ id ∈ s.failedIds, standing s.tables id = standing tables id

/-- The loop over the picked applications, with those still to come. -/
structure Passing (tables : LinkTables) (rest : List PickedApplication) (s : Linking) : Prop
    extends Passed input tables s where
  picked : ∀ picked ∈ rest, picked ∈ pickApplications input tables
  untouched : ∀ picked ∈ rest, standing s.tables picked.id = standing tables picked.id
  ids : (rest.map PickedApplication.id).Nodup
  threw : ∀ id ∈ s.failedIds, id ∉ rest.map PickedApplication.id

theorem Passing.next_picked {rest : List PickedApplication} {s' : Linking}
    (h : Passing input tables (picked :: rest) s) (hprocessed : Processed picked.id s s') :
    Passing input tables rest s' := by
  have hids := h.ids
  rw [map_cons, nodup_cons] at hids
  have hpicked := h.picked picked mem_cons_self
  have hnotPicked : ∀ other ∈ rest, other.id ≠ picked.id := by
    intro other hother heq
    rw [← heq] at hids
    exact hids.1 (mem_map_of_mem hother)
  have hsame := hprocessed.touches.elsewhere
  have hthrew : ∀ id ∈ s'.failedIds,
      standing s'.tables id = standing tables id ∧ id ∉ rest.map PickedApplication.id := by
    intro id hid
    have hearlier : id ∈ s.failedIds → standing s'.tables id = standing tables id ∧
        id ∉ rest.map PickedApplication.id := by
      intro hin
      have hout := h.threw id hin
      rw [map_cons, mem_cons, not_or] at hout
      exact ⟨(hsame id hout.1).trans (h.thrown id hin), hout.2⟩
    rcases hprocessed.failedIds with hfailed | ⟨hfailed, hstands⟩
    · rw [hfailed] at hid
      exact hearlier hid
    · rw [hfailed] at hid
      rcases mem_append.mp hid with hin | hin
      · exact hearlier hin
      · rw [mem_singleton.mp hin]
        exact ⟨hstands.trans (h.untouched picked mem_cons_self), hids.1⟩
  refine ⟨⟨hprocessed.kept, hprocessed.touches.next.trans h.next, ?_, ?_⟩, ?_, ?_, hids.2, ?_⟩
  · intro id hid
    have hne : id ≠ picked.id := by
      intro heq
      rw [heq] at hid
      exact hid (mem_map_of_mem hpicked)
    exact (hsame id hne).trans (h.unpicked id hid)
  · intro id hid
    exact (hthrew id hid).1
  · intro other hother
    exact h.picked other (mem_cons_of_mem _ hother)
  · intro other hother
    exact (hsame other.id (hnotPicked other hother)).trans
      (h.untouched other (mem_cons_of_mem _ hother))
  · intro id hid
    exact (hthrew id hid).2

theorem pass_ends (hkept : Kept tables) (origin : Directory) :
    Ends (fun s => GrownBy (AllowedLink keyOf input tables origin) origin s.directory ∧
        Passed input tables s)
      (fun e => GrownBy (AllowedLink keyOf input tables origin) origin e.directory)
      (linkApplicantApplications keyOf input tables origin) := by
  unfold linkApplicantApplications
  have hgrown := grownBy_refl (AllowedLink keyOf input tables origin) origin
  apply (await_ends (s := ⟨tables, origin, emptyCounts, 0, [], 0⟩) input hgrown).bind
  intro s₁ h₁
  have hstart : Passing input tables (pickApplications input tables) s₁ := by
    refine ⟨⟨?_, ?_, ?_, ?_⟩, fun _ h => h, ?_, nodup_picked input hkept, ?_⟩
    · rw [h₁.tables]
      exact hkept
    · rw [h₁.tables]
    · intro id _
      rw [h₁.tables]
    · intro id hid
      rw [h₁.failedIds] at hid
      exact absurd hid not_mem_nil
    · intro picked _
      rw [h₁.tables]
    · intro id hid
      rw [h₁.failedIds] at hid
      exact absurd hid not_mem_nil
  have hloop : Ends (fun s => GrownBy (AllowedLink keyOf input tables origin) origin s.directory ∧
        Passing input tables [] s)
      (fun e => GrownBy (AllowedLink keyOf input tables origin) origin e.directory)
      ((pickApplications input tables).foldlM (linkOne keyOf input) s₁) := by
    apply ends_foldlM (fun rest s =>
      GrownBy (AllowedLink keyOf input tables origin) origin s.directory ∧
        Passing input tables rest s)
    · intro picked rest s hs
      have hpicked := isPicked_of_mem input (hs.2.picked picked mem_cons_self)
      apply (linkOne_ends keyOf input hs.1 hs.2.kept hpicked).imp
      intro s' hs'
      exact ⟨hs'.1, hs.2.next_picked input hs'.2⟩
    · exact ⟨h₁.grown hgrown, hstart⟩
  apply hloop.bind
  intro s hs
  apply (await_ends input hs.1).imp
  intro s' hs'
  refine ⟨hs'.grown hs.1, ?_, ?_, ?_, ?_⟩
  · rw [hs'.tables]
    exact hs.2.kept
  · rw [hs'.tables]
    exact hs.2.next
  · rw [hs'.tables]
    exact hs.2.unpicked
  · rw [hs'.tables, hs'.failedIds]
    exact hs.2.thrown

end Passing

section Running
variable (keyOf : String → Option CharacterKey)

/-- An application is closed for good: whatever row has its id is closed. -/
def ClosedAt (id : ℕ) (closed : ℤ) (tables : LinkTables) : Prop :=
  id < tables.nextApplication ∧
    ∀ row ∈ tables.applications, row.id = id → row.closedAt = some closed

variable {closed : ℤ}

theorem closedAt_of_standing {tables tables' : LinkTables} {id : ℕ} (h : ClosedAt id closed tables)
    (hnext : tables'.nextApplication = tables.nextApplication)
    (hsame : standing tables' id = standing tables id) : ClosedAt id closed tables' := by
  refine ⟨?_, ?_⟩
  · rw [hnext]
    exact h.1
  · intro row hrow hid
    have hin : (row.outcomes, row.closedAt) ∈ (standing tables' id).counters :=
      mem_map_of_mem (mem_filter.mpr ⟨hrow, by simpa using hid⟩)
    rw [hsame] at hin
    obtain ⟨old, hold, hpair⟩ := mem_map.mp hin
    obtain ⟨hold, holdId⟩ := mem_filter.mp hold
    rw [← (Prod.mk.inj hpair).2]
    exact h.2 old hold (by simpa using holdId)

theorem kept_start : Kept World.start.tables := by
  refine ⟨nodup_nil, ?_, ?_, ?_, nodup_nil, ?_, ?_, nodup_nil, ?_⟩ <;>
    intro row hrow <;> exact absurd hrow not_mem_nil

theorem runPass_kept {world : World} (h : Kept world.tables) (input : PassInput) :
    Kept (runPass keyOf input world).tables := by
  have hends := pass_ends keyOf input h world.directory
  unfold runPass
  split
  · rename_i s hs
    rw [hs] at hends
    exact hends.2.kept
  · exact h

theorem step_kept (world : World) (action : Action) (h : Kept world.tables) :
    Kept (step keyOf world action).tables := by
  cases action with
  | record now rows rootIdentity rootSequence rootSuppressed rootObservedAt carriedMark =>
    exact h.record now rows rootIdentity rootSequence rootSuppressed rootObservedAt carriedMark
  | tie identity sequence => exact h.tie identity sequence
  | settle clock => exact h.settle clock
  | pass input => exact runPass_kept keyOf h input
  | closeStale now => exact h.closeStale now
  | others intents directory => exact h.others intents

theorem runPass_closedAt {world : World} (h : Kept world.tables) {id : ℕ}
    (hclosed : ClosedAt id closed world.tables) (input : PassInput) :
    ClosedAt id closed (runPass keyOf input world).tables := by
  have hends := pass_ends keyOf input h world.directory
  unfold runPass
  split
  · rename_i s hs
    rw [hs] at hends
    apply closedAt_of_standing hclosed hends.2.next
    apply hends.2.unpicked
    -- only open applications are picked
    intro hin
    obtain ⟨picked, hpicked, hid⟩ := mem_map.mp hin
    obtain ⟨row, hrow, intent, hrowId, hopen, -⟩ := isPicked_of_mem input hpicked
    have hrowClosed := hclosed.2 row hrow (hrowId.trans hid)
    rw [hopen] at hrowClosed
    cases hrowClosed
  · exact hclosed

theorem step_closedAt (world : World) (action : Action) (h : Kept world.tables) {id : ℕ}
    (hclosed : ClosedAt id closed world.tables) :
    ClosedAt id closed (step keyOf world action).tables := by
  cases action with
  | record now rows rootIdentity rootSequence rootSuppressed rootObservedAt carriedMark =>
    have hfresh := hclosed.1
    rcases recordTables_cases now rows rootIdentity rootSequence rootSuppressed rootObservedAt
        carriedMark world.tables with ⟨happlications, -, hnext⟩ |
      ⟨application, identities, hid, -, happlications, hnext, -, -⟩
    · unfold ClosedAt step
      simp only
      rw [happlications, hnext]
      exact hclosed
    · unfold ClosedAt step
      simp only
      rw [happlications, hnext]
      refine ⟨by omega, ?_⟩
      intro row hrow hrowId
      rcases mem_append.mp hrow with hin | hin
      · exact hclosed.2 row hin hrowId
      · rw [mem_singleton.mp hin] at hrowId
        omega
  | tie identity sequence => exact hclosed
  | settle clock =>
    refine ⟨hclosed.1, ?_⟩
    intro row hrow hid
    obtain ⟨old, hold, hchanged⟩ := mem_map.mp hrow
    have hsame : row.id = old.id ∧ row.closedAt = old.closedAt := by
      rw [← hchanged]
      split <;> exact ⟨rfl, rfl⟩
    rw [hsame.2]
    exact hclosed.2 old hold (hsame.1.symm.trans hid)
  | pass input => exact runPass_closedAt keyOf h hclosed input
  | closeStale now =>
    refine ⟨hclosed.1, ?_⟩
    intro row hrow hid
    obtain ⟨old, hold, hswept⟩ := mem_swept hrow
    rw [← hswept, sweep_id] at hid
    have holdClosed := hclosed.2 old hold hid
    rw [← hswept]
    unfold sweep isStale
    rw [holdClosed]
    exact holdClosed
  | others intents directory => exact hclosed

theorem run_kept (actions : List Action) :
    Kept (after (step keyOf) World.start actions).tables :=
  keeps (fun world : World => Kept world.tables) (step_kept keyOf) kept_start actions

/-- A closed application stays closed as it is, as long as there is a row of its id. -/
theorem run_closedAt {before actions : List Action} (hbefore : before <+: actions)
    {row : Application} (hrow : row ∈ (after (step keyOf) World.start before).tables.applications)
    (hclosed : row.closedAt = some closed) :
    ClosedAt row.id closed (after (step keyOf) World.start actions).tables := by
  obtain ⟨rest, hactions⟩ := hbefore
  have hkept := run_kept keyOf before
  rw [← hactions, after_append]
  have hboth := keeps (fun world : World => Kept world.tables ∧ ClosedAt row.id closed world.tables)
    (fun (world : World) action h =>
      ⟨step_kept keyOf world action h.1, step_closedAt keyOf world action h.1 h.2⟩)
    (s := after (step keyOf) World.start before) ⟨hkept, hkept.fresh row hrow, ?_⟩ rest
  · exact hboth.2
  · intro other hother hid
    rw [eq_of_key hkept.ids hother hrow hid]
    exact hclosed

/-- Along every run: a closed application has counted each member it was recorded with,
keeps none and stays closed; no member is decided twice; the links a pass adds were
allowed; and an application whose processing throws stands where it stood. -/
theorem linking_conserves_members (actions : List Action) :
    (∀ row ∈ (after (step keyOf) World.start actions).tables.applications,
      row.closedAt ≠ none →
        row.outcomes.total =
          (after (step keyOf) World.start actions).tables.recordedMembers row.id ∧
        ∀ member ∈ (after (step keyOf) World.start actions).tables.members,
          member.applicationId ≠ row.id) ∧
    ((after (step keyOf) World.start actions).tables.decisions.map decisionKey).Nodup ∧
    (∀ before, before <+: actions →
      ∀ row ∈ (after (step keyOf) World.start before).tables.applications,
        row.closedAt ≠ none →
          ∀ later ∈ (after (step keyOf) World.start actions).tables.applications,
            later.id = row.id → later.closedAt = row.closedAt) ∧
    ∀ world input, (world, Action.pass input) ∈ steps (step keyOf) World.start actions →
      (∀ link ∈ (runPass keyOf input world).directory.connections,
        link ∈ world.directory.connections ∨
          AllowedLink keyOf input world.tables world.directory link) ∧
      (∀ s, linkApplicantApplications keyOf input world.tables world.directory = .ok s →
        ∀ id ∈ s.failedIds,
          standing (runPass keyOf input world).tables id = standing world.tables id) ∧
      (∀ s, linkApplicantApplications keyOf input world.tables world.directory = .error s →
        (runPass keyOf input world).tables = world.tables) := by
  have hkept := run_kept keyOf actions
  refine ⟨?_, hkept.once, ?_, ?_⟩
  · intro row hrow hclosed
    have hmembers : ∀ member ∈ (after (step keyOf) World.start actions).tables.members,
        member.applicationId ≠ row.id := by
      intro member hmember hid
      exact hclosed (hkept.ofOpen member hmember row hrow hid.symm)
    refine ⟨?_, hmembers⟩
    have hrecorded := hkept.conserved row hrow
    have hnone : undecided (after (step keyOf) World.start actions).tables row.id = 0 := by
      unfold undecided
      rw [countP_eq_zero]
      intro member hmember
      simp [hmembers member hmember]
    omega
  · intro before hbefore row hrow hclosed later hlater hid
    obtain ⟨closed, hat⟩ := Option.ne_none_iff_exists'.mp hclosed
    rw [hat]
    exact (run_closedAt keyOf hbefore hrow hat).2 later hlater hid
  · intro world input hstep
    have hworld : Kept world.tables :=
      keeps_steps (fun world : World => Kept world.tables) (step_kept keyOf) kept_start hstep
    have hends := pass_ends keyOf input hworld world.directory
    cases hpass : linkApplicantApplications keyOf input world.tables world.directory with
    | ok s =>
      rw [hpass] at hends
      have hrun : runPass keyOf input world = ⟨s.tables, s.directory⟩ := by
        unfold runPass
        rw [hpass]
      rw [hrun]
      refine ⟨fun link hlink => hends.1.mem hlink, ?_, ?_⟩
      · intro s' hs' id hid
        cases hs'
        exact hends.2.thrown id hid
      · intro s' hs'
        cases hs'
    | error s =>
      rw [hpass] at hends
      have hrun : runPass keyOf input world = ⟨world.tables, s.directory⟩ := by
        unfold runPass
        rw [hpass]
      rw [hrun]
      refine ⟨fun link hlink => GrownBy.mem hends hlink, ?_, ?_⟩
      · intro s' hs'
        cases hs'
      · intro s' _
        rfl

end Running

end SlashWho.ApplicantLinkRuns
