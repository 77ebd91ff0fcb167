import Mathlib.Data.List.Induction
import SlashWho.Characters
import SlashWho.Connectivity
import SlashWho.OrderedMap

/-!
The page of a character in a graph of groups. The walk goes from the character over the
links inside its group and never into a suppressed one, a node of the queue at a time;
it ends with the characters such links reach, and two characters on one page have one
page. Lower-casing is the runtime's own and stays a parameter.
-/

namespace SlashWho.GroupPages

open List Characters Connectivity Relation

inductive LinkStrength
  | raiderio
  | fingerprint
  | manual
  deriving DecidableEq

structure StrengthLink where
  a : String
  b : String
  strength : LinkStrength

structure GroupCharacter where
  key : CharacterKey
  displayName : String
  className : String
  level : ℕ
  raiderIoUrl : String

structure ManualRow where
  makerId : String
  targetId : String
  excluded : Bool

structure UndiscoveredManualTarget where
  makerId : String
  targetKey : CharacterKey
  excluded : Bool

structure DiscoveredExclusion where
  makerId : String
  targetId : String

inductive SnapshotState
  | complete
  | partial_
  deriving DecidableEq

structure LatestSnapshot where
  state : SnapshotState
  limitationCode : Option String

/-- One read of the groups. The ends of a link are characters, a key names the one
character of its canonical id, and no character a row is about has an empty id. -/
structure GroupGraph (lower : String → String) where
  characters : OrderedMap String GroupCharacter
  idOf : CharacterKey → Option String
  groupOf : OrderedMap String String
  links : List StrengthLink
  manual : List ManualRow
  undiscoveredManualTargets : List UndiscoveredManualTarget
  discoveredExclusions : List DiscoveredExclusion
  suppressed : List String
  warcraftLogsIds : OrderedMap String ℕ
  sharedIdentity : String → List String
  latestSnapshot : OrderedMap String LatestSnapshot
  known : ∀ link ∈ links, link.a ∈ characters.keys ∧ link.b ∈ characters.keys
  named : ∀ key id, idOf key = some id ↔ ∃ character, characters.get? id = some character ∧
    canonicalCharacterId lower character.key = canonicalCharacterId lower key
  targets : "" ∉ manual.map ManualRow.targetId ++
    discoveredExclusions.map DiscoveredExclusion.targetId

variable {lower : String → String}

variable (graph : GroupGraph lower)

def addNeighbour (neighbours : OrderedMap String (List String)) (a b : String) :
    OrderedMap String (List String) :=
  neighbours.set a ((neighbours.get? a).getD [] ++ [b])

def neighboursIn (group : String) : OrderedMap String (List String) :=
  graph.links.foldl (fun neighbours link =>
    if graph.groupOf.get? link.a ≠ some group || graph.groupOf.get? link.b ≠ some group then
      neighbours
    else addNeighbour (addNeighbour neighbours link.a link.b) link.b link.a) .empty

/-- The members found, in order, and those whose neighbours are still to be read. -/
structure Walk where
  members : List String
  queue : List String

def visit (walk : Walk) (next : String) : Walk :=
  if next ∈ walk.members || next ∈ graph.suppressed then walk
  else ⟨walk.members ++ [next], walk.queue ++ [next]⟩

/-- The walk's loop; the count bounds how many nodes leave the queue. -/
def walkFrom (neighbours : OrderedMap String (List String)) : ℕ → Walk → Walk
  | 0, walk => walk
  | fuel + 1, walk =>
    match walk.queue with
    | [] => walk
    | node :: queue =>
      walkFrom neighbours fuel
        (((neighbours.get? node).getD []).foldl (visit graph) ⟨walk.members, queue⟩)

def pageWalk (originId group : String) : Walk :=
  walkFrom graph (neighboursIn graph group) (2 * graph.links.length + 1) ⟨[originId], [originId]⟩

def pageMembers (originId : String) : List String :=
  if originId ∈ graph.suppressed then []
  else
    match graph.groupOf.get? originId with
    -- in no group there is nothing to walk into
    | none => [originId]
    | some group => (pageWalk graph originId group).members

variable {graph : GroupGraph lower} {a b c group : String}

def LinkedInGroup (graph : GroupGraph lower) (a b : String) : Prop :=
  ∃ link ∈ graph.links, ((link.a = a ∧ link.b = b) ∨ (link.a = b ∧ link.b = a)) ∧
    ∃ group, graph.groupOf.get? a = some group ∧ graph.groupOf.get? b = some group

/-- A step of a page: over a link inside one group, between characters not suppressed. -/
def PageStep (graph : GroupGraph lower) (a b : String) : Prop :=
  LinkedInGroup graph a b ∧ a ∉ graph.suppressed ∧ b ∉ graph.suppressed

/-- What a page is to show: its character and those that such links reach from it. -/
def OnPage (graph : GroupGraph lower) (originId id : String) : Prop :=
  originId ∉ graph.suppressed ∧ ReflTransGen (PageStep graph) originId id

theorem PageStep.symm (h : PageStep graph a b) : PageStep graph b a := by
  obtain ⟨⟨link, hlink, hends, group, ha, hb⟩, hnotA, hnotB⟩ := h
  exact ⟨⟨link, hlink, hends.symm, group, hb, ha⟩, hnotB, hnotA⟩

theorem reach_symm (h : ReflTransGen (PageStep graph) a b) : ReflTransGen (PageStep graph) b a := by
  induction h with
  | refl => exact .refl
  | tail _ hstep ih => exact .head hstep.symm ih

theorem OnPage.not_suppressed (h : OnPage graph a b) : b ∉ graph.suppressed := by
  obtain ⟨ha, hreach⟩ := h
  cases hreach with
  | refl => exact ha
  | tail _ hstep => exact hstep.2.2

theorem OnPage.symm (h : OnPage graph a b) : OnPage graph b a :=
  ⟨h.not_suppressed, reach_symm h.2⟩

theorem OnPage.trans (h : OnPage graph a b) (h' : OnPage graph b c) : OnPage graph a c :=
  ⟨h.1, h.2.trans h'.2⟩

theorem group_of_reach (h : ReflTransGen (PageStep graph) a b)
    (hgroup : graph.groupOf.get? a = some group) : graph.groupOf.get? b = some group := by
  induction h with
  | refl => exact hgroup
  | tail _ hstep ih =>
    obtain ⟨⟨_, _, _, other, hfrom, hto⟩, -⟩ := hstep
    rw [hfrom] at ih
    rw [hto, ih]

theorem mem_addNeighbour (neighbours : OrderedMap String (List String)) (a b x y : String) :
    y ∈ ((addNeighbour neighbours a b).get? x).getD [] ↔
      y ∈ (neighbours.get? x).getD [] ∨ (x = a ∧ y = b) := by
  unfold addNeighbour
  rw [OrderedMap.get?_set]
  by_cases hx : x = a
  · rw [if_pos hx, hx]
    simp
  · rw [if_neg hx]
    simp [hx]

/-- The neighbours kept for a character are those a link inside the group gives it. -/
theorem mem_neighboursIn (graph : GroupGraph lower) (group x y : String) :
    y ∈ ((neighboursIn graph group).get? x).getD [] ↔
      ∃ link ∈ graph.links, ((link.a = x ∧ link.b = y) ∨ (link.a = y ∧ link.b = x)) ∧
        graph.groupOf.get? x = some group ∧ graph.groupOf.get? y = some group := by
  unfold neighboursIn
  induction graph.links using List.reverseRecOn with
  | nil => simp [OrderedMap.get?_empty]
  | append_singleton before link ih =>
    rw [foldl_append, foldl_cons, foldl_nil]
    split
    · rename_i hskip
      rw [ih]
      constructor
      · intro h
        obtain ⟨other, hother, hrest⟩ := h
        exact ⟨other, mem_append_left _ hother, hrest⟩
      · intro h
        obtain ⟨other, hother, hends, hx, hy⟩ := h
        rcases mem_append.mp hother with hin | hin
        · exact ⟨other, hin, hends, hx, hy⟩
        · rw [mem_singleton.mp hin] at hends
          rw [Bool.or_eq_true, decide_eq_true_eq, decide_eq_true_eq] at hskip
          rcases hends with ⟨ha, hb⟩ | ⟨ha, hb⟩
          · rw [ha, hb, hx, hy] at hskip
            simp at hskip
          · rw [ha, hb, hx, hy] at hskip
            simp at hskip
    · rename_i hinside
      rw [Bool.or_eq_true, decide_eq_true_eq, decide_eq_true_eq, not_or, not_not, not_not]
        at hinside
      rw [mem_addNeighbour, mem_addNeighbour, ih]
      constructor
      · intro h
        rcases h with (⟨other, hother, hrest⟩ | ⟨hx, hy⟩) | ⟨hx, hy⟩
        · exact ⟨other, mem_append_left _ hother, hrest⟩
        · subst hx
          subst hy
          exact ⟨link, mem_append_right _ mem_cons_self, .inl ⟨rfl, rfl⟩, hinside⟩
        · subst hx
          subst hy
          exact ⟨link, mem_append_right _ mem_cons_self, .inr ⟨rfl, rfl⟩,
            hinside.2, hinside.1⟩
      · intro h
        obtain ⟨other, hother, hends, hgroups⟩ := h
        rcases mem_append.mp hother with hin | hin
        · exact .inl (.inl ⟨other, hin, hends, hgroups⟩)
        · rw [mem_singleton.mp hin] at hends
          rcases hends with ⟨ha, hb⟩ | ⟨ha, hb⟩
          · exact .inl (.inr ⟨ha.symm, hb.symm⟩)
          · exact .inr ⟨hb.symm, ha.symm⟩

/-- Reading a node's neighbours appends those that are new, to the members and the queue. -/
theorem foldl_visit (graph : GroupGraph lower) (neighbours : List String) (walk : Walk) :
    ∃ new : List String,
      neighbours.foldl (visit graph) walk = ⟨walk.members ++ new, walk.queue ++ new⟩ ∧ new.Nodup ∧
        ∀ y, y ∈ new ↔ (y ∈ neighbours ∧ y ∉ graph.suppressed) ∧ y ∉ walk.members := by
  induction neighbours generalizing walk with
  | nil => exact ⟨[], by simp, nodup_nil, by simp⟩
  | cons next rest ih =>
    obtain ⟨new, hfold, hnodup, hmem⟩ := ih (visit graph walk next)
    rw [foldl_cons, hfold]
    unfold visit at hmem ⊢
    split at hmem
    · rename_i hpassed
      rw [Bool.or_eq_true, decide_eq_true_eq, decide_eq_true_eq] at hpassed
      refine ⟨new, ?_, hnodup, ?_⟩
      · rw [if_pos (by simpa using hpassed)]
      · intro y
        rw [hmem, mem_cons]
        constructor
        · intro h
          exact ⟨⟨.inr h.1.1, h.1.2⟩, h.2⟩
        · intro h
          obtain ⟨⟨heq | hin, hfree⟩, hnot⟩ := h
          · rw [← heq] at hpassed
            rcases hpassed with hmember | hsuppressed
            · exact absurd hmember hnot
            · exact absurd hsuppressed hfree
          · exact ⟨⟨hin, hfree⟩, hnot⟩
    · rename_i hadded
      rw [Bool.or_eq_true, decide_eq_true_eq, decide_eq_true_eq, not_or] at hadded
      have hnew : next ∉ new := by
        intro hin
        exact ((hmem next).mp hin).2 (mem_append_right _ mem_cons_self)
      refine ⟨next :: new, ?_, nodup_cons.mpr ⟨hnew, hnodup⟩, ?_⟩
      · rw [if_neg (by simpa using hadded)]
        simp
      · intro y
        rw [mem_cons, mem_cons]
        by_cases heq : y = next
        · subst heq
          simp [hadded.1, hadded.2]
        · rw [hmem, mem_append, mem_singleton]
          simp [heq]

/-- The ends of the links, and the character a walk starts from. -/
def reachable (graph : GroupGraph lower) (originId : String) : List String :=
  originId :: graph.links.flatMap (fun link => [link.a, link.b])

theorem length_reachable (graph : GroupGraph lower) (originId : String) :
    (reachable graph originId).length = 2 * graph.links.length + 1 := by
  unfold reachable
  rw [length_cons]
  induction graph.links with
  | nil => rfl
  | cons link rest ih =>
    rw [flatMap_cons, length_append, length_cons, length_cons,
      length_cons, length_nil]
    omega

variable {originId : String}

theorem reachable_closed {x y : String} (h : PageStep graph x y) :
    y ∈ reachable graph originId := by
  obtain ⟨⟨link, hlink, hends, -⟩, -⟩ := h
  apply mem_cons_of_mem
  rw [mem_flatMap]
  refine ⟨link, hlink, ?_⟩
  rcases hends with ⟨-, hb⟩ | ⟨ha, -⟩
  · rw [← hb]
    simp
  · rw [← ha]
    simp

/-- A walk that may take each node from the queue once ends with the queue empty. -/
theorem searched_walkFrom (hgroup : graph.groupOf.get? originId = some group)
    (hfree : originId ∉ graph.suppressed) {fuel : ℕ} {walk : Walk}
    (h : Searched (PageStep graph) [originId] walk.members walk.queue)
    (hfuel : (reachable graph originId).length + walk.queue.length ≤
      fuel + walk.members.length) :
    Searched (PageStep graph) [originId]
      (walkFrom graph (neighboursIn graph group) fuel walk).members [] := by
  have hseed : ∀ x ∈ [originId], x ∈ reachable graph originId := by
    intro x hx
    rw [mem_singleton.mp hx]
    exact mem_cons_self
  induction fuel generalizing walk with
  | zero =>
    have hle := h.length_le hseed (fun x y _ hstep => reachable_closed hstep)
    have hempty : walk.queue = [] := eq_nil_of_length_eq_zero (by omega)
    rw [hempty] at h
    exact h
  | succ fuel ih =>
    obtain ⟨members, queue⟩ := walk
    unfold walkFrom
    cases queue with
    | nil => exact h
    | cons node rest =>
      simp only at h hfuel ⊢
      obtain ⟨new, hfold, hnodup, hmem⟩ := foldl_visit graph
        (((neighboursIn graph group).get? node).getD []) ⟨members, rest⟩
      -- a member of the walk is in the group and not suppressed
      have hreach : OnPage graph originId node := by
        obtain ⟨seed, hseed, hreach⟩ := h.reached node (h.recent node mem_cons_self)
        rw [mem_singleton.mp hseed] at hreach
        exact ⟨hfree, hreach⟩
      have hnode := group_of_reach hreach.2 hgroup
      have hnext : ∀ y, y ∈ new ↔ PageStep graph node y ∧ y ∉ members := by
        intro y
        rw [hmem, mem_neighboursIn]
        constructor
        · intro hy
          obtain ⟨⟨⟨link, hlink, hends, hx, hy⟩, hsuppressed⟩, hnew⟩ := hy
          exact ⟨⟨⟨link, hlink, hends, group, hx, hy⟩, hreach.not_suppressed, hsuppressed⟩, hnew⟩
        · intro hy
          obtain ⟨⟨⟨link, hlink, hends, other, hx, hy⟩, -, hsuppressed⟩, hnew⟩ := hy
          have hsame : other = group := Option.some.inj (hx.symm.trans hnode)
          rw [hsame] at hx hy
          exact ⟨⟨⟨link, hlink, hends, hx, hy⟩, hsuppressed⟩, hnew⟩
      rw [hfold]
      apply ih
      · exact h.visit hnext hnodup
      · simp only [length_append, length_cons] at hfuel ⊢
        omega

theorem searched_pageWalk (hgroup : graph.groupOf.get? originId = some group)
    (hfree : originId ∉ graph.suppressed) :
    Searched (PageStep graph) [originId] (pageWalk graph originId group).members [] := by
  unfold pageWalk
  apply searched_walkFrom hgroup hfree
  · exact searched_start (PageStep graph) (nodup_singleton originId)
  · exact Nat.le_of_eq (congrArg (· + 1) (length_reachable graph originId))

theorem nodup_pageMembers (graph : GroupGraph lower) (originId : String) :
    (pageMembers graph originId).Nodup := by
  unfold pageMembers
  split
  · exact nodup_nil
  · rename_i hfree
    split
    · exact nodup_singleton originId
    · rename_i group hgroup
      exact (searched_pageWalk hgroup hfree).distinct

/-- A page holds what the links inside its group reach without a suppressed character. -/
theorem mem_pageMembers (graph : GroupGraph lower) (originId id : String) :
    id ∈ pageMembers graph originId ↔ OnPage graph originId id := by
  unfold pageMembers
  split
  · rename_i hsuppressed
    constructor
    · intro h
      exact absurd h not_mem_nil
    · intro h
      exact absurd hsuppressed h.1
  · rename_i hfree
    split
    · rename_i hnone
      rw [mem_singleton]
      constructor
      · intro h
        rw [h]
        exact ⟨hfree, .refl⟩
      · intro h
        obtain ⟨-, hreach⟩ := h
        rcases hreach.cases_head with heq | ⟨next, hstep, -⟩
        · exact heq.symm
        · obtain ⟨⟨_, _, _, group, hgroup, -⟩, -⟩ := hstep
          rw [hnone] at hgroup
          cases hgroup
    · rename_i group hgroup
      rw [(searched_pageWalk hgroup hfree).mem_iff]
      constructor
      · intro h
        obtain ⟨seed, hseed, hreach⟩ := h
        rw [mem_singleton.mp hseed] at hreach
        exact ⟨hfree, hreach⟩
      · intro h
        exact ⟨originId, mem_cons_self, h.2⟩

theorem known_of_mem {id : String} (h : id ∈ pageMembers graph originId)
    (horigin : originId ∈ graph.characters.keys) : id ∈ graph.characters.keys := by
  obtain ⟨-, hreach⟩ := (mem_pageMembers graph originId id).mp h
  rcases hreach.cases_tail with heq | ⟨before, -, hstep⟩
  · rw [heq]
    exact horigin
  · obtain ⟨⟨link, hlink, hends, -⟩, -⟩ := hstep
    have hknown := graph.known link hlink
    rcases hends with ⟨-, hb⟩ | ⟨ha, -⟩
    · rw [← hb]
      exact hknown.2
    · rw [← ha]
      exact hknown.1

end SlashWho.GroupPages
