import SlashWho.CharacterGroupParts

/-!
The components of any links between any nodes: the classes of the nodes and of the links' ends, each
sorted and the list in the order of first ids. Neither the order nor the orientation of the links
matters, nor the order of the nodes. Run with loops that have no bound, the code ends with the same
list, and every map of parents it writes keeps each parent at or below its child.
-/

namespace SlashWho.CharacterComponents

open List

open CharacterGroupParts CharacterGroups ComparatorSort Connectivity LinkForest OrderedMap Runs
open KeyedBuckets

variable {V : Type} {nodes : List V} {links : List (V × V)}

def nodesOf (nodes : List V) (links : List (V × V)) : List V :=
  nodes ++ links.flatMap (fun link => [link.1, link.2])

theorem mem_nodesOf {x : V} :
    x ∈ nodesOf nodes links ↔ x ∈ nodes ∨ ∃ link ∈ links, x = link.1 ∨ x = link.2 := by
  unfold nodesOf
  simp only [mem_append, mem_flatMap, mem_cons, not_mem_nil, or_false]

variable [LinearOrder V] {nodes' : List V} {links' : List (V × V)} {parts parts' : List (List V)}

/-- The first id of each before that of the other. -/
def HeadBefore (part other : List V) : Prop :=
  ∃ a ∈ part.head?, ∃ b ∈ other.head?, a < b

/-- A division with each part sorted and the list in the order of first ids. -/
structure Listed (nodes : List V) (links : List (V × V)) (parts : List (List V)) : Prop where
  divides : Divides nodes links parts
  sorted : ∀ part ∈ parts, part.Pairwise (· < ·)
  ordered : parts.Pairwise HeadBefore

instance : Std.Irrefl (HeadBefore (V := V)) where
  irrefl part h := by
    obtain ⟨a, ha, b, hb, hlt⟩ := h
    rw [Option.mem_def] at ha hb
    rw [ha, Option.some.injEq] at hb
    exact absurd hb hlt.ne

instance : Std.Antisymm (HeadBefore (V := V)) where
  antisymm part other h h' := by
    obtain ⟨a, ha, b, hb, hlt⟩ := h
    obtain ⟨b', hb', a', ha', hlt'⟩ := h'
    rw [Option.mem_def] at ha hb ha' hb'
    rw [ha, Option.some.injEq] at ha'
    rw [hb, Option.some.injEq] at hb'
    rw [← ha', ← hb'] at hlt'
    exact absurd hlt' hlt.asymm

theorem Listed.part_mem (h : Listed nodes links parts) (h' : Listed nodes links parts')
    {part : List V} (hpart : part ∈ parts) : part ∈ parts' := by
  obtain ⟨x, hx⟩ := exists_mem_of_ne_nil part (h.divides.nonempty part hpart)
  have hxNodes := h.divides.inside part hpart x hx
  obtain ⟨part', hpart', hx'⟩ := h'.divides.covers x hxNodes
  have hsame : ∀ y, y ∈ part ↔ y ∈ part' := by
    intro y
    constructor
    · intro hy
      have hyNodes := h.divides.inside part hpart y hy
      rw [h'.divides.joined part' hpart' x hx' y hyNodes]
      exact (h.divides.joined part hpart x hx y hyNodes).mp hy
    · intro hy
      have hyNodes := h'.divides.inside part' hpart' y hy
      rw [h.divides.joined part hpart x hx y hyNodes]
      exact (h'.divides.joined part' hpart' x hx' y hyNodes).mp hy
  rw [(h.sorted part hpart).eq_of_mem_iff (h'.sorted part' hpart') hsame]
  exact hpart'

theorem Listed.unique (h : Listed nodes links parts) (h' : Listed nodes links parts') :
    parts = parts' := by
  apply h.ordered.eq_of_mem_iff h'.ordered
  intro part
  exact ⟨h.part_mem h', h'.part_mem h⟩

theorem Listed.congr (h : Listed nodes links parts) (hnodes : ∀ x, x ∈ nodes ↔ x ∈ nodes')
    (hlinks : ∀ x y, Beside links x y ↔ Beside links' x y) : Listed nodes' links' parts := by
  refine ⟨h.divides.congr hnodes ?_, h.sorted, h.ordered⟩
  intro x _ y _
  have hbeside : Beside links = Beside links' := by
    funext x y
    exact propext (hlinks x y)
  rw [← reflTransGen_beside, ← reflTransGen_beside, hbeside]

theorem unites_all (nodes : List V) (links : List (V × V)) :
    Unites links.reverse (links.foldl unite (nodes.foldl ensure .empty)) ∧
      ∀ x, x ∈ (links.foldl unite (nodes.foldl ensure .empty)).keys ↔
        x ∈ nodesOf nodes links := by
  induction links using List.reverseRecOn with
  | nil =>
    refine ⟨(unites_nodes nodes).1, ?_⟩
    intro x
    rw [mem_nodesOf]
    simp [(unites_nodes nodes).2 x]
  | append_singleton before link ih =>
    obtain ⟨hbefore, hkeys⟩ := ih
    obtain ⟨hunites, hnew⟩ := hbefore.unite link.1 link.2
    rw [foldl_append, reverse_append]
    refine ⟨hunites, ?_⟩
    intro x
    rw [foldl_cons, foldl_nil, hnew, hkeys, mem_nodesOf, mem_nodesOf]
    simp only [mem_append, mem_singleton]
    constructor
    · intro h
      rcases h with (h | ⟨other, hother, hend⟩) | hend
      · exact .inl h
      · exact .inr ⟨other, .inl hother, hend⟩
      · exact .inr ⟨link, .inr rfl, hend⟩
    · intro h
      rcases h with h | ⟨other, hother | hother, hend⟩
      · exact .inl (.inl h)
      · exact .inl (.inr ⟨other, hother, hend⟩)
      · rw [hother] at hend
        exact .inr hend

theorem components_eq (nodes : List V) (links : List (V × V)) :
    components nodes links = sortBy byHead
      ((bucketsBy (rootOf (links.foldl unite (nodes.foldl ensure .empty)))
        (links.foldl unite (nodes.foldl ensure .empty)).keys).values.map (sortBy compare)) := by
  have hforest := (unites_all nodes links).1.forest
  unfold components bucketsBy
  rw [← foldl_find hforest.sameRoots (fun id hid => hid) .empty]

variable {part : List V}

theorem pairwise_lt_sortBy (hnodup : part.Nodup) :
    (sortBy compare part).Pairwise (· < ·) := by
  have hdistinct : (sortBy compare part).Nodup := (perm_sortBy compare part).nodup_iff.mpr hnodup
  apply (pairwise_sortBy compare part).imp₂ _ hdistinct
  intro a b hab hne
  unfold notAfter at hab
  rw [Ne, compare_gt_iff_gt, not_lt] at hab
  exact lt_of_le_of_ne hab hne

theorem notAfter_byHead {other : List V} {a b : V} (ha : a ∈ part.head?) (hb : b ∈ other.head?) :
    notAfter byHead part other ↔ a < b := by
  rw [Option.mem_def] at ha hb
  unfold notAfter byHead
  rw [ha, hb]
  simp

theorem pairwise_orderedInsert {rest : List (List V)} {a : V} (ha : a ∈ part.head?)
    (hrest : rest.Pairwise HeadBefore) (hother : ∀ other ∈ rest, ∃ b ∈ other.head?, a ≠ b) :
    (rest.orderedInsert (notAfter byHead) part).Pairwise HeadBefore := by
  induction rest with
  | nil => exact pairwise_singleton HeadBefore part
  | cons other rest ih =>
    obtain ⟨b, hb, hne⟩ := hother other mem_cons_self
    rw [pairwise_cons] at hrest
    by_cases hlt : a < b
    · rw [orderedInsert_cons_of_le _ _ ((notAfter_byHead ha hb).mpr hlt)]
      rw [pairwise_cons, pairwise_cons]
      refine ⟨?_, hrest⟩
      intro third hthird
      rcases mem_cons.mp hthird with heq | hin
      · rw [heq]
        exact ⟨a, ha, b, hb, hlt⟩
      · obtain ⟨b', hb', c, hc, hbc⟩ := hrest.1 third hin
        rw [Option.mem_unique hb hb'] at hlt
        exact ⟨a, ha, c, hc, hlt.trans hbc⟩
    · rw [orderedInsert_of_not_le _ _ (fun hbefore => hlt ((notAfter_byHead ha hb).mp hbefore))]
      rw [pairwise_cons]
      refine ⟨?_, ih hrest.2 (fun third hthird => hother third (mem_cons_of_mem _ hthird))⟩
      intro third hthird
      rcases (mem_orderedInsert _).mp hthird with heq | hin
      · rw [heq]
        exact ⟨b, hb, a, ha, lt_of_le_of_ne (not_lt.mp hlt) hne.symm⟩
      · exact hrest.1 third hin

theorem pairwise_sortBy_byHead {parts : List (List V)} (hnonempty : ∀ part ∈ parts, part ≠ [])
    (hapart : parts.Pairwise (fun part other => ∀ x ∈ part, x ∉ other)) :
    (sortBy byHead parts).Pairwise HeadBefore := by
  induction parts with
  | nil => exact List.Pairwise.nil
  | cons part rest ih =>
    rw [pairwise_cons] at hapart
    have hsorted := ih (fun other hother => hnonempty other (mem_cons_of_mem _ hother))
      hapart.2
    obtain ⟨a, tail, hpart⟩ := exists_cons_of_ne_nil (hnonempty part mem_cons_self)
    have ha : a ∈ part.head? := by rw [hpart]; rfl
    apply pairwise_orderedInsert ha hsorted
    intro other hother
    have hin : other ∈ rest := (mem_sortBy byHead).mp hother
    obtain ⟨b, tail', hcons⟩ :=
      exists_cons_of_ne_nil (hnonempty other (mem_cons_of_mem _ hin))
    refine ⟨b, by rw [hcons]; rfl, ?_⟩
    intro heq
    apply hapart.1 other hin a (mem_of_mem_head? ha)
    rw [heq, hcons]
    exact mem_cons_self

theorem listed_components (nodes : List V) (links : List (V × V)) :
    Listed (nodesOf nodes links) links (components nodes links) := by
  obtain ⟨hunites, hkeys⟩ := unites_all nodes links
  rw [components_eq]
  generalize hparent : links.foldl unite (nodes.foldl ensure .empty) = parent at hunites hkeys ⊢
  have hbuckets := divides_buckets hunites
  have hperm := perm_sortBy byHead
    ((bucketsBy (rootOf parent) parent.keys).values.map (sortBy compare))
  have hsorted := hbuckets.sorted hperm
  have hparts := hbuckets.sorted (List.Perm.refl _)
  refine ⟨?_, ?_, pairwise_sortBy_byHead hparts.nonempty hparts.apart⟩
  · apply hsorted.congr hkeys
    intro x _ y _
    apply joined_congr
    intro link
    rw [mem_reverse]
  · intro part hpart
    obtain ⟨bucket, hbucket, heq⟩ := mem_map.mp (hperm.mem_iff.mp hpart)
    rw [← heq]
    apply pairwise_lt_sortBy
    obtain ⟨k, hk⟩ := (mem_values_iff _ _).mp hbucket
    rw [get?_bucketsBy] at hk
    split at hk
    · cases hk
    · rw [← Option.some.inj hk]
      exact parent.nodup_keys.filter _

/-- One turn of the loop that files each id under its root. -/
def ReadRun (read : OrderedMap V (List V) × OrderedMap V V) (id : V)
    (written : List (OrderedMap V V)) (next : OrderedMap V (List V) × OrderedMap V V) : Prop :=
  ∃ found, FindRun read.2 id written found ∧
    next = (read.1.set found.1 ((read.1.get? found.1).getD [] ++ [id]), found.2)

/-- `components` by its loops, with every map of parents it writes. -/
def ComponentsRun (nodes : List V) (links : List (V × V)) (written : List (OrderedMap V V))
    (out : List (List V)) : Prop :=
  ∃ ensured writtenNodes united writtenLinks read writtenReads,
    Executes (fun parent id written next => next = ensure parent id ∧ written = [next])
      .empty nodes writtenNodes ensured ∧
    Executes UniteRun ensured links writtenLinks united ∧
    Executes ReadRun (.empty, united) united.keys writtenReads read ∧
    written = .empty :: (writtenNodes ++ writtenLinks ++ writtenReads) ∧
    out = sortBy byHead (read.1.values.map (sortBy compare))

/-- The loops end, one way, and never write a parent above its child. -/
structure Ends (nodes : List V) (links : List (V × V)) (parts : List (List V)) : Prop where
  ends : ∃ written, ComponentsRun nodes links written parts
  only : ∀ written out, ComponentsRun nodes links written out → out = parts ∧
    ∀ parent ∈ written, ∀ x p, parent.get? x = some p → p ≤ x

theorem ComponentsRun.unique {written written' : List (OrderedMap V V)} {out out' : List (List V)}
    (h : ComponentsRun nodes links written out) (h' : ComponentsRun nodes links written' out') :
    written = written' ∧ out = out' := by
  obtain ⟨_, _, _, _, _, _, hnodes, hlinks, hreads, hwritten, hout⟩ := h
  obtain ⟨_, _, _, _, _, _, hnodes', hlinks', hreads', hwritten', hout'⟩ := h'
  obtain ⟨hsame, hensured⟩ := hnodes.unique (by
    intro parent id written next written' next' hturn hturn'
    obtain ⟨hnext, hone⟩ := hturn
    obtain ⟨hnext', hone'⟩ := hturn'
    rw [hone, hone', hnext, hnext']
    exact ⟨rfl, rfl⟩) hnodes'
  subst hsame hensured
  obtain ⟨hsame, hunited⟩ :=
    hlinks.unique (fun _ _ _ _ _ _ hturn hturn' => hturn.unique hturn') hlinks'
  subst hsame hunited
  obtain ⟨hsame, hread⟩ := hreads.unique (by
    intro read id written next written' next' hturn hturn'
    obtain ⟨found, hfind, hnext⟩ := hturn
    obtain ⟨found', hfind', hnext'⟩ := hturn'
    obtain ⟨hone, hfound⟩ := hfind.unique hfind'
    rw [hone, hnext, hnext', hfound]
    exact ⟨rfl, rfl⟩) hreads'
  subst hsame hread
  exact ⟨hwritten.trans hwritten'.symm, hout.trans hout'.symm⟩

theorem componentsRun_components (nodes : List V) (links : List (V × V)) :
    ∃ written, ComponentsRun nodes links written (components nodes links) ∧
      ∀ parent ∈ written, Forest parent := by
  have hempty : Forest (.empty : OrderedMap V V) := unites_empty.forest
  obtain ⟨writtenNodes, hnodes, hforestNodes⟩ := executes_foldl
    (fun parent id written next => next = ensure parent id ∧ written = [next])
    ensure Forest Forest nodes (by
      intro parent h id _
      have hnext := (h.ensure id).1
      refine ⟨[ensure parent id], ⟨rfl, rfl⟩, ?_, hnext⟩
      intro other hother
      rw [mem_singleton.mp hother]
      exact hnext) hempty
  obtain ⟨writtenLinks, hlinks, hforestLinks⟩ := executes_foldl UniteRun unite
    (fun parent => ∃ done, Unites done parent) Forest links (by
      intro parent h link _
      obtain ⟨done, h⟩ := h
      have hnext := (h.unite link.1 link.2).1
      obtain ⟨written, hrun, hforests⟩ := h.forest.uniteRun link hnext.forest
      exact ⟨written, hrun, hforests, _, hnext⟩) ⟨[], (unites_nodes nodes).1⟩
  have hunited := (unites_all nodes links).1.forest
  obtain ⟨writtenReads, hreads, hforestReads⟩ := executes_foldl ReadRun
    (fun read id => (read.1.set (find read.2 id).1
      ((read.1.get? (find read.2 id).1).getD [] ++ [id]), (find read.2 id).2))
    (fun read => SameRoots (links.foldl unite (nodes.foldl ensure .empty)) read.2) Forest
    (links.foldl unite (nodes.foldl ensure .empty)).keys
    (s := (.empty, links.foldl unite (nodes.foldl ensure .empty))) (by
      intro read h id hid
      rw [← h.keys] at hid
      obtain ⟨written, hrun, hforests⟩ := h.forest.findRun hid
      exact ⟨written, ⟨_, hrun, rfl⟩, hforests, h.trans (h.forest.find hid)⟩) hunited.sameRoots
  refine ⟨_, ⟨_, writtenNodes, _, writtenLinks, _, writtenReads, hnodes, hlinks, hreads, rfl, rfl⟩,
    ?_⟩
  intro parent hparent
  rw [mem_cons, mem_append, mem_append] at hparent
  rcases hparent with heq | (hin | hin) | hin
  · rw [heq]
    exact hempty
  · exact hforestNodes parent hin
  · exact hforestLinks parent hin
  · exact hforestReads parent hin

theorem ends_components (nodes : List V) (links : List (V × V)) :
    Ends nodes links (components nodes links) := by
  obtain ⟨written, hrun, hforests⟩ := componentsRun_components nodes links
  refine ⟨⟨written, hrun⟩, ?_⟩
  intro written' out hother
  obtain ⟨hsame, hout⟩ := hother.unique hrun
  refine ⟨hout, ?_⟩
  intro parent hparent
  rw [hsame] at hparent
  exact (hforests parent hparent).below

/-- Alike however the nodes and the links come and the links are turned. -/
def OrderFree (nodes : List V) (links : List (V × V)) : Prop :=
  ∀ (nodes' : List V) (links' : List (V × V)),
    (∀ x, x ∈ nodesOf nodes links ↔ x ∈ nodesOf nodes' links') →
    (∀ x y, Beside links x y ↔ Beside links' x y) →
    components nodes links = components nodes' links'

/-- For any nodes and links the code's loops end with the components: the classes of the
nodes and the links' ends, each sorted, in the order of first ids, and the same list
whatever the order and the orientation they come in. -/
theorem components_exact (nodes : List V) (links : List (V × V)) :
    Listed (nodesOf nodes links) links (components nodes links) ∧ OrderFree nodes links ∧
      Ends nodes links (components nodes links) := by
  have hlisted := listed_components nodes links
  refine ⟨hlisted, ?_, ends_components nodes links⟩
  intro nodes' links' hnodes hlinks
  exact (hlisted.congr hnodes hlinks).unique (listed_components nodes' links')

end SlashWho.CharacterComponents
