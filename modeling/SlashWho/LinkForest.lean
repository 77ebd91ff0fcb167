import Mathlib.Data.Finset.Card
import SlashWho.Connectivity
import SlashWho.OrderedMap

/-!
Disjoint sets kept as a map from each node to a parent, a root being its own. The larger of two
roots is put under the smaller, so every walk to a root ends within as many steps as there are
nodes. A walk compresses its path, which leaves every root as it was; uniting the ends of a list of
links makes two nodes share a root exactly where the links join them.
-/

namespace SlashWho.LinkForest

open List Connectivity OrderedMap

variable {V : Type*} [LinearOrder V]

/-- The walk from a node to its root; the count bounds its steps. -/
def findRoot (parent : OrderedMap V V) : ℕ → V → V
  | 0, root => root
  | fuel + 1, root =>
    match parent.get? root with
    | none => root
    | some next => if next = root then root else findRoot parent fuel next

/-- The second walk, which puts every node it passes under the root. -/
def compress (root : V) : ℕ → V → OrderedMap V V → OrderedMap V V
  | 0, _, parent => parent
  | fuel + 1, cursor, parent =>
    match parent.get? cursor with
    | none => parent
    | some next =>
      if next = root then parent else compress root fuel next (parent.set cursor root)

def find (parent : OrderedMap V V) (id : V) : V × OrderedMap V V :=
  let root := findRoot parent parent.keys.length id
  (root, compress root parent.keys.length id parent)

def ensure (parent : OrderedMap V V) (id : V) : OrderedMap V V :=
  if parent.has id then parent else parent.set id id

/-- Puts the larger of the roots of a link's ends under the smaller. -/
def unite (parent : OrderedMap V V) (link : V × V) : OrderedMap V V :=
  let parent := ensure (ensure parent link.1) link.2
  let (left, parent) := find parent link.1
  let (right, parent) := find parent link.2
  if left ≠ right then
    parent.set (if left < right then right else left) (if left < right then left else right)
  else parent

variable {parent : OrderedMap V V} {x p c : V}

/-- Parents are nodes, and none lies above its child. -/
structure Forest (parent : OrderedMap V V) : Prop where
  known : ∀ x p, parent.get? x = some p → p ∈ parent.keys
  below : ∀ x p, parent.get? x = some p → p ≤ x

def nodesBelow (parent : OrderedMap V V) (x : V) : ℕ :=
  (parent.keys.toFinset.filter (fun y => y < x)).card

/-- The root a node's walk ends at. -/
def rootOf (parent : OrderedMap V V) (x : V) : V := findRoot parent parent.keys.length x

theorem nodesBelow_le (parent : OrderedMap V V) (x : V) :
    nodesBelow parent x ≤ parent.keys.length :=
  (Finset.card_filter_le _ _).trans (toFinset_card_le parent.keys)

theorem Forest.nodesBelow_lt (h : Forest parent) (hx : parent.get? x = some p) (hne : p ≠ x) :
    nodesBelow parent p < nodesBelow parent x := by
  have hlt : p < x := lt_of_le_of_ne (h.below x p hx) hne
  apply Finset.card_lt_card
  rw [Finset.ssubset_iff_of_subset]
  · refine ⟨p, ?_, ?_⟩
    · rw [Finset.mem_filter, mem_toFinset]
      exact ⟨h.known x p hx, hlt⟩
    · rw [Finset.mem_filter]
      intro hp
      exact lt_irrefl p hp.2
  · intro y hy
    rw [Finset.mem_filter] at hy ⊢
    exact ⟨hy.1, hy.2.trans hlt⟩

/-- What holds of a node once it holds of a parent other than itself holds of all. -/
theorem Forest.induct (h : Forest parent) {P : V → Prop}
    (hstep : ∀ x, (∀ p, parent.get? x = some p → p ≠ x → P p) → P x) (x : V) : P x := by
  induction hn : nodesBelow parent x using Nat.strongRecOn generalizing x with
  | _ n ih =>
    apply hstep
    intro p hp hne
    have hlt := h.nodesBelow_lt hp hne
    exact ih _ (by omega) p rfl

theorem Forest.findRoot_congr (h : Forest parent) {n m : ℕ} (hn : nodesBelow parent x ≤ n)
    (hm : nodesBelow parent x ≤ m) : findRoot parent n x = findRoot parent m x := by
  induction n using Nat.strongRecOn generalizing m x with
  | _ n ih => ?_
  have hend : ∀ fuel, (∀ p, parent.get? x = some p → p = x) → findRoot parent fuel x = x := by
    intro fuel hroot
    cases fuel with
    | zero => rfl
    | succ fuel =>
      unfold findRoot
      cases hx : parent.get? x with
      | none => rfl
      | some p => exact if_pos (hroot p hx)
  by_cases hroot : ∀ p, parent.get? x = some p → p = x
  · rw [hend n hroot, hend m hroot]
  · push Not at hroot
    obtain ⟨p, hp, hne⟩ := hroot
    have hlt := h.nodesBelow_lt hp hne
    cases n with
    | zero => omega
    | succ n =>
      cases m with
      | zero => omega
      | succ m =>
        unfold findRoot
        rw [hp]
        simp only
        rw [if_neg hne, if_neg hne]
        exact ih n (Nat.lt_succ_self n) (by omega) (by omega)

theorem Forest.rootOf_of_none (hx : parent.get? x = none) : rootOf parent x = x := by
  unfold rootOf
  cases parent.keys.length with
  | zero => rfl
  | succ n =>
    unfold findRoot
    rw [hx]

theorem Forest.rootOf_of_self (hx : parent.get? x = some x) : rootOf parent x = x := by
  unfold rootOf
  cases parent.keys.length with
  | zero => rfl
  | succ n =>
    unfold findRoot
    rw [hx]
    exact if_pos rfl

theorem Forest.rootOf_of_parent (h : Forest parent) (hx : parent.get? x = some p) :
    rootOf parent x = rootOf parent p := by
  by_cases hne : p = x
  · rw [hne]
  · have hlt := h.nodesBelow_lt hx hne
    have hle := nodesBelow_le parent x
    have hmore : rootOf parent x = findRoot parent (parent.keys.length + 1) x :=
      h.findRoot_congr hle (by omega)
    rw [hmore]
    unfold findRoot
    rw [hx]
    exact if_neg hne

theorem Forest.get?_rootOf (h : Forest parent) (hx : x ∈ parent.keys) :
    parent.get? (rootOf parent x) = some (rootOf parent x) := by
  induction x using h.induct with
  | hstep x ih =>
    obtain ⟨p, hp⟩ := (mem_keys_iff parent x).mp hx
    by_cases hne : p = x
    · rw [hne] at hp
      rw [Forest.rootOf_of_self hp]
      exact hp
    · rw [h.rootOf_of_parent hp]
      exact ih p hp hne (h.known x p hp)

theorem Forest.rootOf_mem (h : Forest parent) (hx : x ∈ parent.keys) :
    rootOf parent x ∈ parent.keys :=
  h.known _ _ (h.get?_rootOf hx)

variable {lo hi : V}

theorem keys_set_of_mem (parent : OrderedMap V V) {c : V} (v : V) (hc : c ∈ parent.keys) :
    (parent.set c v).keys = parent.keys := by
  rw [keys_set, if_pos hc]

theorem Forest.set (h : Forest parent) (hc : c ∈ parent.keys) {v : V} (hv : v ∈ parent.keys)
    (hle : v ≤ c) : Forest (parent.set c v) := by
  refine ⟨?_, ?_⟩
  · intro x p hx
    rw [get?_set] at hx
    rw [keys_set_of_mem parent v hc]
    split at hx
    · rw [← Option.some.inj hx]
      exact hv
    · exact h.known x p hx
  · intro x p hx
    rw [get?_set] at hx
    split at hx
    · rename_i heq
      rw [← Option.some.inj hx, heq]
      exact hle
    · exact h.below x p hx

theorem Forest.rootOf_le (h : Forest parent) (x : V) : rootOf parent x ≤ x := by
  induction x using h.induct with
  | hstep x ih =>
    cases hx : parent.get? x with
    | none => rw [Forest.rootOf_of_none hx]
    | some p =>
      by_cases hne : p = x
      · rw [hne] at hx
        rw [Forest.rootOf_of_self hx]
      · rw [h.rootOf_of_parent hx]
        exact (ih p hx hne).trans (h.below x p hx)

theorem Forest.compressOne (h : Forest parent) (hc : c ∈ parent.keys) :
    Forest (parent.set c (rootOf parent c)) ∧
      ∀ x, rootOf (parent.set c (rootOf parent c)) x = rootOf parent x := by
  have hforest := h.set hc (h.rootOf_mem hc) (h.rootOf_le c)
  have hroot := h.get?_rootOf hc
  refine ⟨hforest, ?_⟩
  intro x
  induction x using hforest.induct with
  | hstep x ih =>
    by_cases hxc : x = c
    · subst hxc
      have hx := get?_set_self parent x (rootOf parent x)
      by_cases hself : rootOf parent x = x
      · rw [Forest.rootOf_of_self (hx.trans (congrArg some hself)), hself]
      · rw [hforest.rootOf_of_parent hx, ih _ hx hself, Forest.rootOf_of_self hroot]
    · have hsame : (parent.set c (rootOf parent c)).get? x = parent.get? x :=
        get?_set_ne parent _ hxc
      cases hx : parent.get? x with
      | none => rw [Forest.rootOf_of_none hx, Forest.rootOf_of_none (hsame.trans hx)]
      | some p =>
        have hx' := hsame.trans hx
        by_cases hne : p = x
        · rw [hne] at hx hx'
          rw [Forest.rootOf_of_self hx, Forest.rootOf_of_self hx']
        · rw [h.rootOf_of_parent hx, hforest.rootOf_of_parent hx', ih p hx' hne]

/-- Two forests of the same nodes with the same roots. -/
structure SameRoots (parent parent' : OrderedMap V V) : Prop where
  forest : Forest parent'
  keys : parent'.keys = parent.keys
  roots : ∀ x, rootOf parent' x = rootOf parent x

theorem Forest.sameRoots (h : Forest parent) : SameRoots parent parent := ⟨h, rfl, fun _ => rfl⟩

theorem SameRoots.trans {parent' parent'' : OrderedMap V V} (h : SameRoots parent parent')
    (h' : SameRoots parent' parent'') : SameRoots parent parent'' :=
  ⟨h'.forest, h'.keys.trans h.keys, fun x => (h'.roots x).trans (h.roots x)⟩

theorem Forest.compress (h : Forest parent) (fuel : ℕ) {cursor : V}
    (hcursor : cursor ∈ parent.keys) :
    SameRoots parent (compress (rootOf parent cursor) fuel cursor parent) := by
  induction fuel generalizing parent cursor with
  | zero => exact h.sameRoots
  | succ fuel ih =>
    unfold LinkForest.compress
    cases hnext : parent.get? cursor with
    | none => exact h.sameRoots
    | some next =>
      simp only
      split
      · exact h.sameRoots
      · obtain ⟨hforest, hroots⟩ := h.compressOne hcursor
        have hkeys := keys_set_of_mem parent (rootOf parent cursor) hcursor
        have hone : SameRoots parent (parent.set cursor (rootOf parent cursor)) :=
          ⟨hforest, hkeys, hroots⟩
        have hin : next ∈ (parent.set cursor (rootOf parent cursor)).keys := by
          rw [hkeys]
          exact h.known cursor next hnext
        have hsame : rootOf (parent.set cursor (rootOf parent cursor)) next =
            rootOf parent cursor := by
          rw [hroots, h.rootOf_of_parent hnext]
        have hrest := ih hforest hin
        rw [hsame] at hrest
        exact hone.trans hrest

theorem Forest.find (h : Forest parent) (hx : x ∈ parent.keys) :
    SameRoots parent (find parent x).2 :=
  h.compress parent.keys.length hx

theorem Forest.uniteRoots (h : Forest parent) (hlo : parent.get? lo = some lo)
    (hhi : parent.get? hi = some hi) (hlt : lo < hi) :
    Forest (parent.set hi lo) ∧
      ∀ x, rootOf (parent.set hi lo) x =
        if rootOf parent x = hi then lo else rootOf parent x := by
  have hforest := h.set (h.known hi hi hhi) (h.known lo lo hlo) hlt.le
  refine ⟨hforest, ?_⟩
  intro x
  induction x using hforest.induct with
  | hstep x ih =>
    by_cases hx : x = hi
    · have hget : (parent.set hi lo).get? x = some lo := by rw [hx, get?_set_self]
      have hlo' : (parent.set hi lo).get? lo = some lo := by
        rw [get?_set_ne parent lo hlt.ne, hlo]
      rw [hforest.rootOf_of_parent hget, Forest.rootOf_of_self hlo', hx,
        Forest.rootOf_of_self hhi, if_pos rfl]
    · have hsame : (parent.set hi lo).get? x = parent.get? x := get?_set_ne parent lo hx
      cases hget : parent.get? x with
      | none =>
        rw [Forest.rootOf_of_none hget, Forest.rootOf_of_none (hsame.trans hget), if_neg hx]
      | some p =>
        have hget' := hsame.trans hget
        by_cases hne : p = x
        · rw [hne] at hget hget'
          rw [Forest.rootOf_of_self hget, Forest.rootOf_of_self hget', if_neg hx]
        · rw [h.rootOf_of_parent hget, hforest.rootOf_of_parent hget', ih p hget' hne]

theorem Forest.ensure (h : Forest parent) (c : V) :
    Forest (ensure parent c) ∧ (∀ x, x ∈ (ensure parent c).keys ↔ x ∈ parent.keys ∨ x = c) ∧
      ∀ x, rootOf (ensure parent c) x = rootOf parent x := by
  unfold LinkForest.ensure
  by_cases hc : parent.has c
  · rw [if_pos hc]
    rw [has_iff] at hc
    refine ⟨h, ?_, fun _ => rfl⟩
    intro x
    constructor
    · exact .inl
    · intro hx
      rcases hx with hx | hx
      · exact hx
      · rw [hx]
        exact hc
  · rw [if_neg hc]
    rw [has_iff] at hc
    have hnone : parent.get? c = none := by
      by_contra hsome
      obtain ⟨v, hv⟩ := Option.ne_none_iff_exists'.mp hsome
      exact hc ((mem_keys_iff parent c).mpr ⟨v, hv⟩)
    have hforest : Forest (parent.set c c) := by
      refine ⟨?_, ?_⟩
      · intro x p hx
        rw [get?_set] at hx
        rw [mem_keys_set]
        split at hx
        · left
          exact (Option.some.inj hx).symm
        · right
          exact h.known x p hx
      · intro x p hx
        rw [get?_set] at hx
        split at hx
        · rename_i heq
          rw [← Option.some.inj hx, heq]
        · exact h.below x p hx
    refine ⟨hforest, ?_, ?_⟩
    · intro x
      rw [mem_keys_set, or_comm]
    · intro x
      induction x using hforest.induct with
      | hstep x ih =>
        by_cases hx : x = c
        · have hget : (parent.set c c).get? x = some x := by rw [hx, get?_set_self]
          rw [Forest.rootOf_of_self hget, hx, Forest.rootOf_of_none hnone]
        · have hsame : (parent.set c c).get? x = parent.get? x := get?_set_ne parent c hx
          cases hget : parent.get? x with
          | none => rw [Forest.rootOf_of_none hget, Forest.rootOf_of_none (hsame.trans hget)]
          | some p =>
            have hget' := hsame.trans hget
            by_cases hne : p = x
            · rw [hne] at hget hget'
              rw [Forest.rootOf_of_self hget, Forest.rootOf_of_self hget']
            · rw [h.rootOf_of_parent hget, hforest.rootOf_of_parent hget', ih p hget' hne]

variable {links : List (V × V)}

/-- A forest whose nodes share a root exactly where the links join them. -/
structure Unites (links : List (V × V)) (parent : OrderedMap V V) : Prop where
  forest : Forest parent
  ends : ∀ a b, (a, b) ∈ links → a ∈ parent.keys ∧ b ∈ parent.keys
  joined : ∀ x ∈ parent.keys, ∀ y ∈ parent.keys,
    (rootOf parent x = rootOf parent y ↔ Joined links x y)

theorem unites_empty : Unites ([] : List (V × V)) OrderedMap.empty := by
  refine ⟨⟨?_, ?_⟩, ?_, ?_⟩
  · intro x p hx
    cases hx
  · intro x p hx
    cases hx
  · intro a b hab
    exact absurd hab not_mem_nil
  · intro x hx
    exact absurd hx not_mem_nil

theorem Unites.not_joined (h : Unites links parent) {x y : V} (hx : x ∉ parent.keys)
    (hxy : x ≠ y) : ¬ Joined links x y := by
  intro hjoined
  apply hxy
  apply hjoined.eq_of_isolated
  intro z hz
  rcases beside_iff.mp hz with hin | hin
  · exact absurd (h.ends x z hin).1 hx
  · exact absurd (h.ends z x hin).2 hx

theorem Unites.ensure (h : Unites links parent) (c : V) : Unites links (ensure parent c) := by
  obtain ⟨hforest, hkeys, hroots⟩ := h.forest.ensure c
  refine ⟨hforest, ?_, ?_⟩
  · intro a b hab
    rw [hkeys, hkeys]
    exact ⟨.inl (h.ends a b hab).1, .inl (h.ends a b hab).2⟩
  · intro x hx y hy
    rw [hroots, hroots]
    by_cases hxy : x = y
    · rw [hxy]
      exact iff_of_true rfl (joined_refl links y)
    -- a node that is new shares no root and is joined to none
    have hout : ∀ u v : V, u ∉ parent.keys → v ∈ parent.keys ∨ v = c → u ≠ v → u = c →
        ¬ rootOf parent u = rootOf parent v := by
      intro u v hu hv huv huc heq
      have hunone : parent.get? u = none := by
        by_contra hsome
        obtain ⟨w, hw⟩ := Option.ne_none_iff_exists'.mp hsome
        exact hu ((mem_keys_iff parent u).mpr ⟨w, hw⟩)
      rw [Forest.rootOf_of_none hunone] at heq
      rcases hv with hv | hv
      · rw [heq] at hu
        exact hu (h.forest.rootOf_mem hv)
      · exact huv (huc.trans hv.symm)
    have hx' := (hkeys x).mp hx
    have hy' := (hkeys y).mp hy
    by_cases hxin : x ∈ parent.keys
    · by_cases hyin : y ∈ parent.keys
      · exact h.joined x hxin y hyin
      · have hyc := hy'.resolve_left hyin
        apply iff_of_false
        · intro heq
          exact hout y x hyin hx' (Ne.symm hxy) hyc heq.symm
        · intro hjoined
          exact h.not_joined hyin (Ne.symm hxy) hjoined.symm
    · have hxc := hx'.resolve_left hxin
      exact iff_of_false (hout x y hxin hy' hxy hxc) (h.not_joined hxin hxy)

theorem Unites.sameRoots {parent' : OrderedMap V V} (h : Unites links parent)
    (hsame : SameRoots parent parent') : Unites links parent' := by
  refine ⟨hsame.forest, ?_, ?_⟩
  · intro a b hab
    rw [hsame.keys]
    exact h.ends a b hab
  · intro x hx y hy
    rw [hsame.keys] at hx hy
    rw [hsame.roots, hsame.roots]
    exact h.joined x hx y hy

theorem Unites.unite (h : Unites links parent) (a b : V) :
    Unites ((a, b) :: links) (unite parent (a, b)) ∧
      ∀ x, x ∈ (unite parent (a, b)).keys ↔ x ∈ parent.keys ∨ x = a ∨ x = b := by
  have hboth := (h.ensure a).ensure b
  have hkeys : ∀ x, x ∈ (LinkForest.ensure (LinkForest.ensure parent a) b).keys ↔
      x ∈ parent.keys ∨ x = a ∨ x = b := by
    intro x
    rw [((h.ensure a).forest.ensure b).2.1, (h.forest.ensure a).2.1, or_assoc]
  unfold LinkForest.unite
  simp only
  generalize hready : LinkForest.ensure (LinkForest.ensure parent a) b = ready at hboth hkeys ⊢
  have ha : a ∈ ready.keys := (hkeys a).mpr (.inr (.inl rfl))
  have hb : b ∈ ready.keys := (hkeys b).mpr (.inr (.inr rfl))
  have hleft := hboth.forest.find ha
  have hbLeft : b ∈ (find ready a).2.keys := by
    rw [hleft.keys]
    exact hb
  have hsame := hleft.trans (hleft.forest.find hbLeft)
  have hrootA : (find ready a).1 = rootOf ready a := rfl
  have hrootB : (find (find ready a).2 b).1 = rootOf ready b := hleft.roots b
  rw [hrootA, hrootB]
  generalize (find (find ready a).2 b).2 = walked at hsame ⊢
  have hwalked := hboth.sameRoots hsame
  have hends : ∀ u v, (u, v) ∈ (a, b) :: links → u ∈ walked.keys ∧ v ∈ walked.keys := by
    intro u v huv
    rcases mem_cons.mp huv with heq | hin
    · rw [(Prod.mk.inj heq).1, (Prod.mk.inj heq).2, hsame.keys]
      exact ⟨ha, hb⟩
    · exact hwalked.ends u v hin
  have haW : a ∈ walked.keys := by rw [hsame.keys]; exact ha
  have hbW : b ∈ walked.keys := by rw [hsame.keys]; exact hb
  split
  · rename_i hne
    rw [← hsame.roots a, ← hsame.roots b] at hne ⊢
    -- the larger of the two roots goes under the smaller
    generalize hlo : (if rootOf walked a < rootOf walked b then rootOf walked a
      else rootOf walked b) = lo
    generalize hhi : (if rootOf walked a < rootOf walked b then rootOf walked b
      else rootOf walked a) = hi
    have hgetA := hwalked.forest.get?_rootOf haW
    have hgetB := hwalked.forest.get?_rootOf hbW
    have hpair : (lo = rootOf walked a ∧ hi = rootOf walked b ∨
        lo = rootOf walked b ∧ hi = rootOf walked a) ∧ lo < hi := by
      rw [← hlo, ← hhi]
      split
      · rename_i hlt
        exact ⟨.inl ⟨rfl, rfl⟩, hlt⟩
      · rename_i hlt
        exact ⟨.inr ⟨rfl, rfl⟩, lt_of_le_of_ne (not_lt.mp hlt) (Ne.symm hne)⟩
    obtain ⟨hcases, hlt⟩ := hpair
    have hgetLo : walked.get? lo = some lo := by
      rcases hcases with ⟨h₁, -⟩ | ⟨h₁, -⟩
      · rw [h₁]; exact hgetA
      · rw [h₁]; exact hgetB
    have hgetHi : walked.get? hi = some hi := by
      rcases hcases with ⟨-, h₂⟩ | ⟨-, h₂⟩
      · rw [h₂]; exact hgetB
      · rw [h₂]; exact hgetA
    obtain ⟨hforest, hroots⟩ := hwalked.forest.uniteRoots hgetLo hgetHi hlt
    have hkeysSet := keys_set_of_mem walked lo (hwalked.forest.known hi hi hgetHi)
    refine ⟨⟨hforest, ?_, ?_⟩, ?_⟩
    · intro u v huv
      rw [hkeysSet]
      exact hends u v huv
    · intro x hx y hy
      rw [hkeysSet] at hx hy
      rw [hroots, hroots, joined_cons, ← hwalked.joined x hx y hy, ← hwalked.joined x hx a haW,
        ← hwalked.joined b hbW y hy, ← hwalked.joined x hx b hbW, ← hwalked.joined a haW y hy]
      have hloHi : lo ≠ hi := hlt.ne
      rcases hcases with ⟨h₁, h₂⟩ | ⟨h₁, h₂⟩
      · rw [← h₁, ← h₂]
        grind
      · rw [← h₁, ← h₂]
        grind
    · intro x
      rw [hkeysSet, hsame.keys]
      exact hkeys x
  · rename_i heq
    rw [not_not] at heq
    have hjoined : Joined links a b := (hboth.joined a ha b hb).mp heq
    refine ⟨⟨hwalked.forest, hends, ?_⟩, ?_⟩
    · intro x hx y hy
      rw [joined_cons_of_joined hjoined]
      exact hwalked.joined x hx y hy
    · intro x
      rw [hsame.keys]
      exact hkeys x

variable {root : V}

/-- The walk to a root as a loop with no bound. -/
inductive RootLoop (parent : OrderedMap V V) : V → V → Prop
  | root {x : V} (h : parent.get? x = some x) : RootLoop parent x x
  | missing {x : V} (h : parent.get? x = none) : RootLoop parent x x
  | up {x next root : V} (h : parent.get? x = some next) (hne : next ≠ x)
      (hrest : RootLoop parent next root) : RootLoop parent x root

/-- The compressing walk as a loop with no bound, with each map it writes. -/
inductive CompressLoop (root : V) :
    V → OrderedMap V V → List (OrderedMap V V) → OrderedMap V V → Prop
  | under {cursor : V} {parent : OrderedMap V V} (h : parent.get? cursor = some root) :
      CompressLoop root cursor parent [] parent
  | missing {cursor : V} {parent : OrderedMap V V} (h : parent.get? cursor = none) :
      CompressLoop root cursor parent [] parent
  | up {cursor next : V} {parent result : OrderedMap V V} {written : List (OrderedMap V V)}
      (h : parent.get? cursor = some next) (hne : next ≠ root)
      (hrest : CompressLoop root next (parent.set cursor root) written result) :
      CompressLoop root cursor parent (parent.set cursor root :: written) result

/-- `find` by its loops. -/
def FindRun (parent : OrderedMap V V) (id : V) (written : List (OrderedMap V V))
    (found : V × OrderedMap V V) : Prop :=
  RootLoop parent id found.1 ∧ CompressLoop found.1 id parent written found.2

/-- `unite` by the loops of its walks. -/
def UniteRun (parent : OrderedMap V V) (link : V × V) (written : List (OrderedMap V V))
    (united : OrderedMap V V) : Prop :=
  ∃ passed left passed' right,
    FindRun (ensure (ensure parent link.1) link.2) link.1 passed left ∧
    FindRun left.2 link.2 passed' right ∧
    united = (if left.1 ≠ right.1 then
      right.2.set (if left.1 < right.1 then right.1 else left.1)
        (if left.1 < right.1 then left.1 else right.1)
      else right.2) ∧
    written = ensure parent link.1 :: ensure (ensure parent link.1) link.2 ::
      (passed ++ passed' ++ [united])

theorem Forest.rootLoop (h : Forest parent) (x : V) : RootLoop parent x (rootOf parent x) := by
  induction x using h.induct with
  | hstep x ih =>
    cases hx : parent.get? x with
    | none =>
      rw [Forest.rootOf_of_none hx]
      exact .missing hx
    | some p =>
      by_cases hne : p = x
      · rw [hne] at hx
        rw [Forest.rootOf_of_self hx]
        exact .root hx
      · rw [h.rootOf_of_parent hx]
        exact .up hx hne (ih p hx hne)

theorem RootLoop.unique {root' : V} (h : RootLoop parent x root) (h' : RootLoop parent x root') :
    root = root' := by
  induction h with
  | root hx =>
    cases h' with
    | root _ => rfl
    | missing hx' => simp [hx] at hx'
    | up hx' hne _ => simp [hx, hne.symm] at hx'
  | missing hx =>
    cases h' with
    | root hx' => simp [hx] at hx'
    | missing _ => rfl
    | up hx' _ _ => simp [hx] at hx'
  | up hx hne _ ih =>
    cases h' with
    | root hx' => simp [hx, hne] at hx'
    | missing hx' => simp [hx] at hx'
    | up hx' _ hrest' =>
      rw [hx, Option.some.injEq] at hx'
      rw [← hx'] at hrest'
      exact ih hrest'

/-- As many steps as there are nodes below are enough for the compressing walk, which
writes forests only. -/
theorem Forest.compressLoop (h : Forest parent) {fuel : ℕ} {cursor : V}
    (hcursor : cursor ∈ parent.keys) (hfuel : nodesBelow parent cursor < fuel) :
    ∃ written, CompressLoop (rootOf parent cursor) cursor parent written
      (LinkForest.compress (rootOf parent cursor) fuel cursor parent) ∧
        (∀ other ∈ written, Forest other) := by
  induction fuel generalizing parent cursor with
  | zero => omega
  | succ fuel ih =>
    unfold LinkForest.compress
    cases hnext : parent.get? cursor with
    | none => exact ⟨[], .missing hnext, fun other hother => absurd hother not_mem_nil⟩
    | some next =>
      simp only
      by_cases hroot : next = rootOf parent cursor
      · rw [if_pos hroot]
        rw [hroot] at hnext
        exact ⟨[], .under hnext, fun other hother => absurd hother not_mem_nil⟩
      · rw [if_neg hroot]
        have hne : next ≠ cursor := by
          intro heq
          rw [heq] at hnext hroot
          exact hroot (Forest.rootOf_of_self hnext).symm
        obtain ⟨hforest, hroots⟩ := h.compressOne hcursor
        have hkeys := keys_set_of_mem parent (rootOf parent cursor) hcursor
        have hin : next ∈ (parent.set cursor (rootOf parent cursor)).keys := by
          rw [hkeys]
          exact h.known cursor next hnext
        have hbelow : nodesBelow (parent.set cursor (rootOf parent cursor)) next < fuel := by
          have hlt := h.nodesBelow_lt hnext hne
          unfold nodesBelow at hlt hfuel ⊢
          rw [hkeys]
          omega
        have hsame : rootOf (parent.set cursor (rootOf parent cursor)) next =
            rootOf parent cursor := by
          rw [hroots, h.rootOf_of_parent hnext]
        obtain ⟨written, hrun, hforests⟩ := ih hforest hin hbelow
        rw [hsame] at hrun
        refine ⟨_, .up hnext hroot hrun, ?_⟩
        intro other hother
        rcases mem_cons.mp hother with heq | hrest
        · rw [heq]
          exact hforest
        · exact hforests other hrest

variable {written written' : List (OrderedMap V V)}

theorem CompressLoop.unique {cursor : V} {result result' : OrderedMap V V}
    (h : CompressLoop root cursor parent written result)
    (h' : CompressLoop root cursor parent written' result') :
    written = written' ∧ result = result' := by
  induction h generalizing written' result' with
  | under hc =>
    cases h' with
    | under _ => exact ⟨rfl, rfl⟩
    | missing hc' => simp [hc] at hc'
    | up hc' hne _ => simp [hc, hne.symm] at hc'
  | missing hc =>
    cases h' with
    | under hc' => simp [hc] at hc'
    | missing _ => exact ⟨rfl, rfl⟩
    | up hc' _ _ => simp [hc] at hc'
  | up hc hne _ ih =>
    cases h' with
    | under hc' => simp [hc, hne] at hc'
    | missing hc' => simp [hc] at hc'
    | up hc' _ hrest' =>
      rw [hc, Option.some.injEq] at hc'
      rw [← hc'] at hrest'
      obtain ⟨hwritten, hresult⟩ := ih hrest'
      exact ⟨by rw [hwritten], hresult⟩

theorem Forest.findRun (h : Forest parent) (hx : x ∈ parent.keys) :
    ∃ written, FindRun parent x written (LinkForest.find parent x) ∧
      (∀ other ∈ written, Forest other) := by
  have hbelow : nodesBelow parent x < parent.keys.length := by
    refine lt_of_lt_of_le ?_ (toFinset_card_le parent.keys)
    apply Finset.card_lt_card
    rw [Finset.ssubset_iff_of_subset (Finset.filter_subset _ _)]
    refine ⟨x, mem_toFinset.mpr hx, ?_⟩
    intro hin
    exact lt_irrefl x (Finset.mem_filter.mp hin).2
  obtain ⟨written, hrun, hforests⟩ := h.compressLoop hx hbelow
  exact ⟨written, ⟨h.rootLoop x, hrun⟩, hforests⟩

theorem FindRun.unique {id : V} {found found' : V × OrderedMap V V}
    (h : FindRun parent id written found) (h' : FindRun parent id written' found') :
    written = written' ∧ found = found' := by
  obtain ⟨hroot, hcompress⟩ := h
  obtain ⟨hroot', hcompress'⟩ := h'
  have hfst := hroot.unique hroot'
  rw [← hfst] at hcompress'
  obtain ⟨hwritten, hsnd⟩ := hcompress.unique hcompress'
  exact ⟨hwritten, Prod.ext hfst hsnd⟩

theorem Forest.uniteRun (h : Forest parent) (link : V × V)
    (hunited : Forest (LinkForest.unite parent link)) :
    ∃ written, UniteRun parent link written (LinkForest.unite parent link) ∧
      (∀ other ∈ written, Forest other) := by
  obtain ⟨hfirst, hkeysFirst, -⟩ := h.ensure link.1
  obtain ⟨hboth, hkeysBoth, -⟩ := hfirst.ensure link.2
  have hleft : link.1 ∈
      (LinkForest.ensure (LinkForest.ensure parent link.1) link.2).keys := by
    rw [hkeysBoth, hkeysFirst]
    exact .inl (.inr rfl)
  have hright : link.2 ∈
      (LinkForest.ensure (LinkForest.ensure parent link.1) link.2).keys := by
    rw [hkeysBoth]
    exact .inr rfl
  have hsame := hboth.find hleft
  rw [← hsame.keys] at hright
  obtain ⟨passed, hrun, hforests⟩ := hboth.findRun hleft
  obtain ⟨passed', hrun', hforests'⟩ := hsame.forest.findRun hright
  refine ⟨_, ⟨passed, _, passed', _, hrun, hrun', rfl, rfl⟩, ?_⟩
  intro other hother
  rw [mem_cons, mem_cons, mem_append, mem_append, mem_singleton] at hother
  rcases hother with heq | heq | (hin | hin) | heq
  · rw [heq]
    exact hfirst
  · rw [heq]
    exact hboth
  · exact hforests other hin
  · exact hforests' other hin
  · rw [heq]
    exact hunited

theorem UniteRun.unique {link : V × V} {united united' : OrderedMap V V}
    (h : UniteRun parent link written united) (h' : UniteRun parent link written' united') :
    written = written' ∧ united = united' := by
  obtain ⟨_, _, _, _, hleft, hright, hunited, hwritten⟩ := h
  obtain ⟨_, _, _, _, hleft', hright', hunited', hwritten'⟩ := h'
  obtain ⟨hpassed, hfound⟩ := hleft.unique hleft'
  subst hpassed hfound
  obtain ⟨hpassed, hfound⟩ := hright.unique hright'
  subst hpassed hfound
  have hsame := hunited.trans hunited'.symm
  subst hsame
  exact ⟨hwritten.trans hwritten'.symm, rfl⟩

end SlashWho.LinkForest
