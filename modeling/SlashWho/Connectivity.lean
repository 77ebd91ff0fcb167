import Mathlib.Data.List.Nodup
import Mathlib.Data.List.Perm.Subperm

/-!
Connected components of a list of links. Two nodes are joined where links lead from
one to the other in either direction; a further link joins the components of its
ends and no others. A search that goes on from the nodes it found last, until it
finds no new ones, ends with every node its seeds reach.
-/

namespace SlashWho.Connectivity

open List Relation

variable {V : Type*} {links links' : List (V × V)} {x y z a b : V}

/-- Nodes that links join, in either direction. -/
def Joined (links : List (V × V)) : V → V → Prop := EqvGen (fun a b => (a, b) ∈ links)

theorem joined_refl (links : List (V × V)) (x : V) : Joined links x x := .refl x

theorem Joined.symm (h : Joined links x y) : Joined links y x := EqvGen.symm x y h

theorem Joined.trans (h : Joined links x y) (h' : Joined links y z) : Joined links x z :=
  EqvGen.trans x y z h h'

theorem joined_of_mem (h : (a, b) ∈ links) : Joined links a b := .rel a b h

theorem Joined.mono (h : Joined links x y) (hsub : ∀ link ∈ links, link ∈ links') :
    Joined links' x y :=
  EqvGen.mono (fun a b hab => hsub (a, b) hab) x y h

theorem joined_congr (hsame : ∀ link, link ∈ links ↔ link ∈ links') :
    Joined links x y ↔ Joined links' x y :=
  ⟨fun h => h.mono (fun link hlink => (hsame link).mp hlink),
    fun h => h.mono (fun link hlink => (hsame link).mpr hlink)⟩

theorem Joined.of_closed {P : V → Prop} (hclosed : ∀ a b, (a, b) ∈ links → (P a ↔ P b))
    (h : Joined links x y) : P x ↔ P y := by
  induction h with
  | rel a b hab => exact hclosed a b hab
  | refl x => exact Iff.rfl
  | symm x y _ ih => exact ih.symm
  | trans x y z _ _ ihxy ihyz => exact ihxy.trans ihyz

theorem joined_cons (a b : V) (links : List (V × V)) (x y : V) :
    Joined ((a, b) :: links) x y ↔
      Joined links x y ∨ (Joined links x a ∧ Joined links b y) ∨
        (Joined links x b ∧ Joined links a y) := by
  have hold : ∀ {u v : V}, Joined links u v → Joined ((a, b) :: links) u v :=
    fun h => h.mono (fun link hlink => mem_cons_of_mem _ hlink)
  have hnew : Joined ((a, b) :: links) a b := joined_of_mem mem_cons_self
  constructor
  · intro h
    induction h with
    | rel u v huv =>
      rcases mem_cons.mp huv with heq | hin
      · obtain ⟨hu, hv⟩ := Prod.mk.inj heq
        rw [hu, hv]
        exact .inr (.inl ⟨joined_refl links a, joined_refl links b⟩)
      · exact .inl (joined_of_mem hin)
    | refl u => exact .inl (joined_refl links u)
    | symm u v _ ih =>
      rcases ih with h | ⟨hua, hbv⟩ | ⟨hub, hav⟩
      · exact .inl h.symm
      · exact .inr (.inr ⟨hbv.symm, hua.symm⟩)
      · exact .inr (.inl ⟨hav.symm, hub.symm⟩)
    | trans u v w _ _ ihuv ihvw =>
      rcases ihuv with huv | ⟨hua, hbv⟩ | ⟨hub, hav⟩
      · rcases ihvw with hvw | ⟨hva, hbw⟩ | ⟨hvb, haw⟩
        · exact .inl (huv.trans hvw)
        · exact .inr (.inl ⟨huv.trans hva, hbw⟩)
        · exact .inr (.inr ⟨huv.trans hvb, haw⟩)
      · rcases ihvw with hvw | ⟨hva, hbw⟩ | ⟨hvb, haw⟩
        · exact .inr (.inl ⟨hua, hbv.trans hvw⟩)
        · exact .inr (.inl ⟨hua, hbw⟩)
        · exact .inl (hua.trans haw)
      · rcases ihvw with hvw | ⟨hva, hbw⟩ | ⟨hvb, haw⟩
        · exact .inr (.inr ⟨hub, hav.trans hvw⟩)
        · exact .inl (hub.trans hbw)
        · exact .inr (.inr ⟨hub, haw⟩)
  · intro h
    rcases h with h | ⟨hxa, hby⟩ | ⟨hxb, hay⟩
    · exact hold h
    · exact (hold hxa).trans (hnew.trans (hold hby))
    · exact (hold hxb).trans (hnew.symm.trans (hold hay))

theorem joined_cons_of_joined (h : Joined links a b) :
    Joined ((a, b) :: links) x y ↔ Joined links x y := by
  rw [joined_cons]
  constructor
  · intro hxy
    rcases hxy with hxy | ⟨hxa, hby⟩ | ⟨hxb, hay⟩
    · exact hxy
    · exact hxa.trans (h.trans hby)
    · exact hxb.trans (h.symm.trans hay)
  · exact .inl

/-- The steps links allow from a node. -/
def Beside (links : List (V × V)) : V → V → Prop := SymmGen (fun a b => (a, b) ∈ links)

theorem beside_iff : Beside links x y ↔ (x, y) ∈ links ∨ (y, x) ∈ links := Iff.rfl

theorem reflTransGen_beside : ReflTransGen (Beside links) = Joined links :=
  EqvGen.reflTransGen_symmGen _

theorem Joined.eq_of_isolated (h : Joined links x y)
    (hisolated : ∀ z, Beside links x z → z = x) : x = y := by
  rw [← reflTransGen_beside] at h
  induction h with
  | refl => rfl
  | tail _ hstep ih =>
    rw [← ih] at hstep
    exact (hisolated _ hstep).symm

variable {step : V → V → Prop} {seeds nodes frontier next : List V}

/-- A search between two rounds: what is found is reached, and only the nodes found
last may lead to nodes not found. -/
structure Searched (step : V → V → Prop) (seeds nodes frontier : List V) : Prop where
  found : ∀ x ∈ seeds, x ∈ nodes
  reached : ∀ x ∈ nodes, ∃ seed ∈ seeds, ReflTransGen step seed x
  recent : ∀ x ∈ frontier, x ∈ nodes
  closed : ∀ x ∈ nodes, x ∉ frontier → ∀ y, step x y → y ∈ nodes
  distinct : nodes.Nodup

theorem searched_start (step : V → V → Prop) (hnodup : seeds.Nodup) :
    Searched step seeds seeds seeds :=
  ⟨fun _ h => h, fun x hx => ⟨x, hx, .refl⟩, fun _ h => h, fun _ hx hout => absurd hx hout,
    hnodup⟩

/-- A round goes on from the nodes found last to those not found yet. -/
theorem Searched.round (h : Searched step seeds nodes frontier)
    (hnext : ∀ y, y ∈ next ↔ (∃ x ∈ frontier, step x y) ∧ y ∉ nodes) (hnodup : next.Nodup) :
    Searched step seeds (nodes ++ next) next := by
  refine ⟨?_, ?_, ?_, ?_, ?_⟩
  · intro x hx
    exact mem_append_left _ (h.found x hx)
  · intro y hy
    rcases mem_append.mp hy with hin | hin
    · exact h.reached y hin
    · obtain ⟨⟨x, hx, hstep⟩, -⟩ := (hnext y).mp hin
      obtain ⟨seed, hseed, hreach⟩ := h.reached x (h.recent x hx)
      exact ⟨seed, hseed, hreach.tail hstep⟩
  · intro x hx
    exact mem_append_right _ hx
  · intro x hx hout y hstep
    by_cases hy : y ∈ nodes
    · exact mem_append_left _ hy
    · rcases mem_append.mp hx with hin | hin
      · apply mem_append_right
        rw [hnext]
        refine ⟨⟨x, ?_, hstep⟩, hy⟩
        by_contra hfrontier
        exact hy (h.closed x hin hfrontier y hstep)
      · exact absurd hin hout
  · rw [nodup_append]
    refine ⟨h.distinct, hnodup, ?_⟩
    intro x hx y hy heq
    rw [heq] at hx
    exact ((hnext y).mp hy).2 hx

theorem Searched.visit (h : Searched step seeds nodes (x :: frontier))
    (hnext : ∀ y, y ∈ next ↔ step x y ∧ y ∉ nodes) (hnodup : next.Nodup) :
    Searched step seeds (nodes ++ next) (frontier ++ next) := by
  refine ⟨?_, ?_, ?_, ?_, ?_⟩
  · intro y hy
    exact mem_append_left _ (h.found y hy)
  · intro y hy
    rcases mem_append.mp hy with hin | hin
    · exact h.reached y hin
    · obtain ⟨seed, hseed, hreach⟩ := h.reached x (h.recent x mem_cons_self)
      exact ⟨seed, hseed, hreach.tail ((hnext y).mp hin).1⟩
  · intro y hy
    rcases mem_append.mp hy with hin | hin
    · exact mem_append_left _ (h.recent y (mem_cons_of_mem _ hin))
    · exact mem_append_right _ hin
  · intro y hy hout z hstep
    by_cases hz : z ∈ nodes
    · exact mem_append_left _ hz
    · rw [mem_append, not_or] at hout
      rcases mem_append.mp hy with hin | hin
      · by_cases heq : y = x
        · rw [heq] at hstep
          exact mem_append_right _ ((hnext z).mpr ⟨hstep, hz⟩)
        · have hold : y ∉ x :: frontier := by
            rw [mem_cons, not_or]
            exact ⟨heq, hout.1⟩
          exact absurd (h.closed y hin hold z hstep) hz
      · exact absurd hin hout.2
  · rw [nodup_append]
    refine ⟨h.distinct, hnodup, ?_⟩
    intro y hy z hz heq
    rw [heq] at hy
    exact ((hnext z).mp hz).2 hy

/-- A search with nothing left to go on from has found what its seeds reach. -/
theorem Searched.mem_iff (h : Searched step seeds nodes []) :
    x ∈ nodes ↔ ∃ seed ∈ seeds, ReflTransGen step seed x := by
  constructor
  · exact h.reached x
  · intro hreach
    obtain ⟨seed, hseed, hsteps⟩ := hreach
    induction hsteps with
    | refl => exact h.found seed hseed
    | tail _ hstep ih => exact h.closed _ ih not_mem_nil _ hstep

theorem Searched.mem_of_closed (h : Searched step seeds nodes frontier) {P : V → Prop}
    (hseeds : ∀ x ∈ seeds, P x) (hclosed : ∀ x y, P x → step x y → P y) (hx : x ∈ nodes) :
    P x := by
  obtain ⟨seed, hseed, hsteps⟩ := h.reached x hx
  clear hx
  induction hsteps with
  | refl => exact hseeds seed hseed
  | tail _ hstep ih => exact hclosed _ _ ih hstep

theorem Searched.length_le (h : Searched step seeds nodes frontier) {whole : List V}
    (hseeds : ∀ x ∈ seeds, x ∈ whole) (hclosed : ∀ x y, x ∈ whole → step x y → y ∈ whole) :
    nodes.length ≤ whole.length :=
  (subperm_of_subset h.distinct (fun _ hx =>
    h.mem_of_closed (P := fun y => y ∈ whole) hseeds hclosed hx)).length_le

variable {σ : Type*} (nodesOf frontierOf : σ → List V) (stop : σ → Bool) (round : σ → σ)

/-- Rounds until nothing is left to go on from or the search is stopped; the count
bounds how many are made. -/
def rounds : ℕ → σ → σ
  | 0, s => s
  | fuel + 1, s =>
    if (frontierOf s).isEmpty || stop s then s else rounds fuel (round s)

/-- Within nodes that steps do not leave, as many rounds as there are nodes are enough:
the search stops, or it has found what its seeds reach. -/
theorem searched_rounds {whole : List V} (Inv : σ → Prop)
    (hseeds : ∀ x ∈ seeds, x ∈ whole) (hclosed : ∀ x y, x ∈ whole → step x y → y ∈ whole)
    (hround : ∀ s, Inv s → Searched step seeds (nodesOf s) (frontierOf s) →
      Inv (round s) ∧ Searched step seeds (nodesOf (round s)) (frontierOf (round s)) ∧
        nodesOf (round s) = nodesOf s ++ frontierOf (round s))
    {fuel : ℕ} {s : σ} (hinv : Inv s) (h : Searched step seeds (nodesOf s) (frontierOf s))
    (hfuel : whole.length < fuel + (nodesOf s).length) :
    Inv (rounds frontierOf stop round fuel s) ∧
      Searched step seeds (nodesOf (rounds frontierOf stop round fuel s))
        (frontierOf (rounds frontierOf stop round fuel s)) ∧
      (frontierOf (rounds frontierOf stop round fuel s) = [] ∨
        stop (rounds frontierOf stop round fuel s) = true) := by
  induction fuel generalizing s with
  | zero =>
    have hle := h.length_le hseeds hclosed
    omega
  | succ fuel ih =>
    unfold rounds
    split
    · rename_i hends
      rw [Bool.or_eq_true, List.isEmpty_iff] at hends
      exact ⟨hinv, h, hends⟩
    · obtain ⟨hinv', h', hnodes⟩ := hround s hinv h
      cases hnext : frontierOf (round s) with
      | nil =>
        -- nothing new was found, so no round follows
        have hlast : rounds frontierOf stop round fuel (round s) = round s := by
          cases fuel with
          | zero => rfl
          | succ fuel =>
            unfold rounds
            rw [hnext]
            rfl
        rw [hlast]
        exact ⟨hinv', h', .inl hnext⟩
      | cons y rest =>
        apply ih hinv' h'
        rw [hnodes, hnext, length_append, length_cons]
        omega

variable [BEq V] [LawfulBEq V]

theorem nodup_eraseDups (l : List V) : l.eraseDups.Nodup := by
  induction hlength : l.length using Nat.strongRecOn generalizing l with
  | _ n ih =>
    cases l with
    | nil => exact nodup_nil
    | cons a rest =>
      rw [eraseDups_cons, nodup_cons]
      constructor
      · rw [mem_eraseDups, mem_filter]
        simp
      · apply ih _ _ _ rfl
        have hle := length_filter_le (fun b => !b == a) rest
        rw [length_cons] at hlength
        omega

end SlashWho.Connectivity
