import Mathlib.Order.Lattice.Nat
import SlashWho.ApplicantLinks
import SlashWho.KeyedBuckets
import SlashWho.LinkForest

/-!
Groups of characters. A rebuild labels every character with the lowest id it reaches over the
counting links; a recompute closes one character's component over links and present group
membership, splits it into components and lets each keep an old group it is heir to. The maintenance
cycle recomputes group after group behind a cursor. A new group's id comes as a parameter.
-/

namespace SlashWho.CharacterGroups

open ApplicantLinks ComparatorSort Connectivity LinkForest

inductive ConnectionKind
  | observed
  | rejected
  deriving DecidableEq

/-- A row of `character_connections`, its ends in order. -/
structure ConnectionRow where
  lowId : ℕ
  highId : ℕ
  kind : ConnectionKind
  deriving DecidableEq

/-- The links between characters, as the tables' constraints keep them. A foreign key
holds every end but the connected one of a manual connection, which is a key. -/
structure CountingTables where
  characters : List CharacterRow
  connections : List ConnectionRow
  manual : List ManualConnection
  distinct : (characters.map CharacterRow.id).Nodup
  keyed : (characters.map CharacterRow.key).Nodup
  ordered : ∀ row ∈ connections, row.lowId < row.highId
  connected : ∀ row ∈ connections,
    row.lowId ∈ characters.map CharacterRow.id ∧ row.highId ∈ characters.map CharacterRow.id
  rooted : ∀ row ∈ manual, row.rootCharacterId ∈ characters.map CharacterRow.id

def CountingTables.ids (tables : CountingTables) : List ℕ :=
  tables.characters.map CharacterRow.id

structure GroupRow where
  id : ℕ
  createdAt : ℤ
  recomputedAt : ℤ
  deriving DecidableEq

/-- `character_groups` and `character_group_members`, a member's character its key. -/
structure GroupTables where
  groups : List GroupRow
  members : OrderedMap ℕ ℕ

def GroupTables.groupIds (tables : GroupTables) : List ℕ := tables.groups.map GroupRow.id

/-- `gen_random_uuid`, which answers no id a table has. -/
structure IdSupply where
  next : List ℕ → ℕ
  fresh : ∀ ids, next ids ∉ ids

variable (tables : CountingTables)

/-- Whether the pair of a link has a rejection. -/
def isRejected (connection : ConnectionRow) : Bool :=
  tables.connections.any (fun rejection =>
    rejection.kind = .rejected && rejection.lowId = connection.lowId &&
      rejection.highId = connection.highId)

/-- Manual connections whose key names a character other than the root. -/
def resolveManual (characters : List CharacterRow) (manual : List ManualConnection) :
    List (ℕ × ℕ) :=
  manual.flatMap (fun manual =>
    (characters.filter (fun target =>
      target.key = manual.connected && target.id ≠ manual.rootCharacterId)).map (fun target =>
        (manual.rootCharacterId, target.id)))

def resolvedManual : List (ℕ × ℕ) := resolveManual tables.characters tables.manual

def countingLinksFrom (ids : List ℕ) : List (ℕ × ℕ) :=
  ((tables.connections.filter (fun connection =>
      connection.kind = .observed &&
        (ids.contains connection.lowId || ids.contains connection.highId) &&
        !isRejected tables connection)).map (fun connection =>
          (connection.lowId, connection.highId)) ++
    (resolvedManual tables).filter (fun link =>
      ids.contains link.1 || ids.contains link.2)).eraseDups

/-- The `edges` of the rebuild. -/
def rebuildEdges : List (ℕ × ℕ) :=
  ((tables.connections.filter (fun connection =>
      connection.kind = .observed && !isRejected tables connection)).map (fun connection =>
        (connection.lowId, connection.highId)) ++
    resolvedManual tables).eraseDups

def undirected (edges : List (ℕ × ℕ)) : List (ℕ × ℕ) := (edges ++ edges.map Prod.swap).eraseDups

/-- The recursive query: the rows so far, and those of the last round. -/
structure Reach where
  rows : List (ℕ × ℕ)
  working : List (ℕ × ℕ)

def reachRound (s : Reach) : Reach :=
  let next := ((s.working.flatMap (fun row =>
    ((undirected (rebuildEdges tables)).filter (fun edge => edge.1 = row.2)).map (fun edge =>
      (row.1, edge.2)))).filter (fun row => !s.rows.contains row)).eraseDups
  ⟨s.rows ++ next, next⟩

def reach : List (ℕ × ℕ) :=
  let start := tables.ids.map (fun id => (id, id))
  (rounds Reach.working (fun _ => false) (reachRound tables)
    (tables.ids.length * tables.ids.length + 1) ⟨start, start⟩).rows

/-- `SELECT start, min(node) … GROUP BY start` -/
def labelled : List (ℕ × ℕ) :=
  ((reach tables).map Prod.fst).eraseDups.filterMap (fun start =>
    (((reach tables).filter (fun row => row.1 = start)).map Prod.snd).min?.map (fun groupId =>
      (start, groupId)))

/-- `REBUILD_SQL.groups`, every group deleted before. -/
def rebuildGroups (clock : ℤ) : GroupTables where
  groups := ((labelled tables).map Prod.snd).eraseDups.map (fun id => ⟨id, clock, clock⟩)
  members := OrderedMap.ofList (labelled tables)

variable {V : Type} [LinearOrder V]

def byHead (left right : List V) : Ordering :=
  match left.head?, right.head? with
  | some leftHead, some rightHead => if leftHead < rightHead then .lt else .gt
  | _, _ => .eq

/-- Connected components by reach, each sorted, the list sorted by first id. -/
def components (nodes : List V) (links : List (V × V)) : List (List V) :=
  let parent := links.foldl unite (nodes.foldl ensure .empty)
  let (byRoot, _) := parent.keys.foldl (fun (byRoot, parent) id =>
    let (root, parent) := find parent id
    (byRoot.set root ((byRoot.get? root).getD [] ++ [id]), parent))
    ((.empty : OrderedMap V (List V)), parent)
  sortBy byHead (byRoot.values.map (sortBy compare))

structure GroupAssignment where
  groupId : Option ℕ
  members : List ℕ
  deriving DecidableEq

/-- The part that holds most of a group's members, of two that hold as many the one
with the lowest of them. -/
def heir (membership : OrderedMap ℕ ℕ) (sorted : List (List ℕ)) (groupId : ℕ) : Option ℕ :=
  (sorted.zipIdx.foldl (fun (best : Option (ℕ × ℕ × ℕ)) part =>
    let held := part.1.filter (fun id => membership.get? id = some groupId)
    match held, best with
    | [], _ => best
    | lowest :: _, none => some (part.2, held.length, lowest)
    | lowest :: _, some (_, bestCount, bestLowest) =>
      if bestCount < held.length || (held.length = bestCount && lowest < bestLowest) then
        some (part.2, held.length, lowest)
      else best) none).map Prod.fst

/-- Which group each recomputed component keeps, and the groups none keeps. -/
def assignGroupIds (parts : List (List ℕ)) (membership : OrderedMap ℕ ℕ)
    (groups : OrderedMap ℕ GroupRow) : List GroupAssignment × List ℕ :=
  let sorted := parts.map (sortBy compare)
  let heirOf := ((sorted.flatten.filterMap membership.get?).eraseDups).map (fun groupId =>
    (groupId, heir membership sorted groupId))
  let assignments := sorted.zipIdx.map (fun part =>
    let candidates := (heirOf.filter (fun entry => entry.2 = some part.2)).filterMap (fun entry =>
      groups.get? entry.1)
    -- the oldest of them, of two as old the one with the lower id
    ⟨(sortBy (compareLex (readBy GroupRow.createdAt compare) (readBy GroupRow.id compare))
      candidates).head?.map GroupRow.id, part.1⟩)
  let kept := assignments.filterMap GroupAssignment.groupId
  (assignments, sortBy compare ((heirOf.map Prod.fst).filter (fun id => !kept.contains id)))

/-- How many parts join two or more groups that each had more than one member. -/
def countMerges (parts : List (List ℕ)) (membership : OrderedMap ℕ ℕ) : ℕ :=
  parts.countP (fun members =>
    2 ≤ ((members.filterMap membership.get?).filter (fun groupId =>
      1 < membership.values.count groupId)).eraseDups.length)

/-- The walk over counting links and present group membership. -/
structure Closure where
  nodes : List ℕ
  links : List (ℕ × ℕ)
  frontier : List ℕ

variable (members : OrderedMap ℕ ℕ)

def groupmates (ids : List ℕ) : List ℕ :=
  let groupIds := (members.entries.filter (fun row => ids.contains row.1)).map Prod.snd
  (members.entries.filter (fun row => groupIds.contains row.2)).map Prod.fst

def closureRound (s : Closure) : Closure :=
  let edges := countingLinksFrom tables s.frontier
  let next := ((edges.flatMap (fun edge => [edge.1, edge.2]) ++
    groupmates members s.frontier).filter (fun id => !s.nodes.contains id)).eraseDups
  ⟨s.nodes ++ next, s.links ++ edges, next⟩

def closure (seed : ℕ) : Closure :=
  rounds Closure.frontier (fun _ => false) (closureRound tables members)
    (tables.ids.length + 1) ⟨[seed], [], [seed]⟩

/-- Gives a part its group, a new one where it keeps none. -/
def assign (supply : IdSupply) (clock : ℤ) (groups : GroupTables) (assignment : GroupAssignment) :
    GroupTables :=
  let (groupId, rows) : ℕ × List GroupRow := match assignment.groupId with
    | some groupId => (groupId, groups.groups)
    | none =>
      let groupId := supply.next groups.groupIds
      (groupId, groups.groups ++ [⟨groupId, clock, clock⟩])
  { groups := rows.map (fun row =>
      if row.id = groupId then { row with recomputedAt := clock } else row)
    members := groups.members.setAll (assignment.members.map (fun id => (id, groupId))) }

/-- `DELETE FROM character_groups …`, which deletes their members with them. -/
def deleteGroups (ids : List ℕ) (groups : GroupTables) : GroupTables where
  groups := groups.groups.filter (fun row => !ids.contains row.id)
  members := groups.members.filterValues (fun groupId => !ids.contains groupId)

structure Recomputed where
  groups : GroupTables
  members : List ℕ
  mergedGroups : ℕ

def recomputeComponent (supply : IdSupply) (clock : ℤ) (seed : ℕ) (groups : GroupTables) :
    Recomputed :=
  let closed := closure tables groups.members seed
  let membership := groups.members.filterKeys closed.nodes.contains
  let parts := components closed.nodes (closed.links.filter (fun link =>
    closed.nodes.contains link.1 && closed.nodes.contains link.2))
  let rows := OrderedMap.ofList ((groups.groups.filter (fun row =>
    membership.values.contains row.id)).map (fun row => (row.id, row)))
  let (assignments, deleted) := assignGroupIds parts membership rows
  { groups := deleteGroups deleted (assignments.foldl (assign supply clock) groups)
    members := closed.nodes
    mergedGroups := countMerges parts membership }

/-- A seed with what the database gives the transaction that recomputes it. -/
structure SeedCall where
  seed : ℕ
  supply : IdSupply
  clock : ℤ

/-- The groups after the transactions so far, with what they visited. -/
structure SeedRun where
  groups : GroupTables
  done : List ℕ
  mergedGroups : ℕ

/-- The loop over the seeds, a transaction each, and whether it came to its end: a seed
that is no character breaks the members' foreign key, which ends the loop there. -/
def recomputeSeeds (run : SeedRun) : List SeedCall → SeedRun × Bool
  | [] => (run, true)
  | call :: rest =>
    if run.done.contains call.seed then recomputeSeeds run rest
    else if call.seed ∈ tables.ids then
      let recomputed := recomputeComponent tables call.supply call.clock call.seed run.groups
      recomputeSeeds
        { groups := recomputed.groups
          done := run.done ++ recomputed.members
          mergedGroups := run.mergedGroups + recomputed.mergedGroups } rest
    else (run, false)

def recomputeGroupsOf (groups : GroupTables) (calls : List SeedCall) : SeedRun × Bool :=
  recomputeSeeds tables ⟨groups, [], 0⟩ calls

/-- The groups with the state of the maintenance cycle. -/
structure Maintenance where
  groups : GroupTables
  cursorGroupId : Option ℕ
  cycleStartedAt : Option ℤ

inductive StepKind
  | ungroupedAssigned
  | cycleEnded
  | emptyGroupDeleted
  | groupRecomputed
  deriving DecidableEq

def joinCycle (clock : ℤ) (state : Maintenance) : Maintenance :=
  { state with cycleStartedAt := some (state.cycleStartedAt.getD clock) }

def firstUngrouped (groups : GroupTables) : Option ℕ :=
  (tables.ids.filter (fun id => !groups.members.has id)).min?

/-- The first group past the cursor, with the lowest of its members. -/
def nextGroup (state : Maintenance) : Option (ℕ × Option ℕ) :=
  ((state.groups.groupIds.filter (fun id =>
    state.cursorGroupId.all (fun cursor => cursor < id))).min?).map (fun id =>
      (id, ((state.groups.members.entries.filter (fun row => row.2 = id)).map Prod.fst).min?))

def walkStep (supply : IdSupply) (clock : ℤ) (state : Maintenance) : StepKind × Maintenance :=
  let state := joinCycle clock state
  match nextGroup state with
  | none =>
    match firstUngrouped tables state.groups with
    | some ungrouped =>
      (.ungroupedAssigned,
        { state with groups :=
          (recomputeComponent tables supply clock ungrouped state.groups).groups })
    | none => (.cycleEnded, { state with cycleStartedAt := none, cursorGroupId := none })
  | some (groupId, none) =>
    (.emptyGroupDeleted,
      { state with
        groups :=
          { state.groups with groups := state.groups.groups.filter (fun row => row.id ≠ groupId) }
        cursorGroupId := some groupId })
  | some (groupId, some seed) =>
    (.groupRecomputed,
      { state with
        groups := (recomputeComponent tables supply clock seed state.groups).groups
        cursorGroupId := some groupId })

inductive Action
  /-- The drain of ungrouped characters before the walk. -/
  | assignUngrouped (supply : IdSupply) (clock : ℤ)
  | walk (supply : IdSupply) (clock : ℤ)
  /-- `recomputeGroupsOf`, for one seed. -/
  | recompute (supply : IdSupply) (clock : ℤ) (seed : ℕ)

def step (state : Maintenance) : Action → Maintenance
  | .assignUngrouped supply clock =>
    let state := joinCycle clock state
    match firstUngrouped tables state.groups with
    | some ungrouped =>
      { state with groups :=
        (recomputeComponent tables supply clock ungrouped state.groups).groups }
    | none => state
  | .walk supply clock => (walkStep tables supply clock state).2
  | .recompute supply clock seed =>
    -- a seed that is no character breaks the members' foreign key, and is rolled back
    if seed ∈ tables.ids then
      { state with groups := (recomputeComponent tables supply clock seed state.groups).groups }
    else state

end SlashWho.CharacterGroups
