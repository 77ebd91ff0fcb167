import SlashWho.CharacterGroupParts

/-!
The cross-group check of the watcher's links, by several workers at once. A pass walks the counting
links from an application's root, and where the member is in another component and both ends share
theirs it skips; otherwise it adds the link, with no lock between. A link added in between can give
an end that the walk found alone company, and the two groups are then merged.
-/

namespace SlashWho.CrossGroupLinks

open List

open ApplicantLinks CharacterGroupParts CharacterGroups Characters Connectivity Relation Runs

variable (tables : CountingTables)

/-- The walk over counting links, with whether it met its cap. -/
structure Walk where
  nodes : List ℕ
  frontier : List ℕ
  capped : Bool

def walkRound (cap : ℕ) (s : Walk) : Walk :=
  let edges := countingLinksFrom tables s.frontier
  let next := ((edges.flatMap (fun edge => [edge.1, edge.2])).filter (fun id =>
    !s.nodes.contains id)).eraseDups
  ⟨s.nodes ++ next, next, cap < (s.nodes ++ next).length⟩

def walk (rootId memberId cap : ℕ) : Walk :=
  rounds Walk.frontier (fun s => s.nodes.contains memberId || s.capped) (walkRound tables cap)
    (tables.ids.length + 1) ⟨[rootId], [rootId], false⟩

/-- Whether two characters are in one counting component, and whether each shares its
own; a capped walk answers that they are not. -/
def countingComponents (rootId memberId cap : ℕ) : Components :=
  let walked := walk tables rootId memberId cap
  let same := walked.nodes.contains memberId
  let memberEdges := if same then 1 else (countingLinksFrom tables [memberId]).length
  { same := same
    rootShared := 1 < walked.nodes.length
    memberShared := 0 < memberEdges
    capped := walked.capped }

def characterId (key : CharacterKey) : Option ℕ :=
  (tables.characters.find? (fun row => row.key = key)).map CharacterRow.id

theorem characterId_mem {key : CharacterKey} {id : ℕ} (h : characterId tables key = some id) :
    ∃ row ∈ tables.characters, row.key = key ∧ row.id = id := by
  obtain ⟨row, hrow, hid⟩ := Option.map_eq_some_iff.mp h
  exact ⟨row, mem_of_find?_eq_some hrow, by simpa using find?_some hrow, hid⟩

/-- `manualConnections.add` as the watcher calls it: it never overwrites a row. -/
def addManual (root character : CharacterKey) (applicationId : ℕ) : CountingTables :=
  match hroot : characterId tables root with
  | none => tables
  | some rootId =>
    if tables.manual.any (fun manual =>
        manual.rootCharacterId = rootId && manual.connected = character) then
      tables
    else
      { tables with
        manual := tables.manual ++ [⟨rootId, character, none, .applicantSheet, some applicationId⟩]
        rooted := by
          intro row hrow
          rcases mem_append.mp hrow with hin | hin
          · exact tables.rooted row hin
          · obtain ⟨found, hfound, -, hid⟩ := characterId_mem tables hroot
            rw [mem_singleton.mp hin, ← hid]
            exact mem_map_of_mem hfound }

/-- What a pass found of a pair before it adds their link. -/
structure Judgement where
  applicationId : ℕ
  rootKey : CharacterKey
  memberKey : CharacterKey
  rootId : ℕ
  memberId : ℕ
  components : Components
  /-- How many manual connections there were when the walk read them. -/
  seen : ℕ

/-- The tables, and the pair each worker is about to link. -/
structure World where
  tables : CountingTables
  pending : ℕ → Option Judgement

def World.start (tables : CountingTables) : World := ⟨tables, fun _ => none⟩

inductive Action
  | walk (worker applicationId : ℕ) (rootKey memberKey : CharacterKey) (cap : ℕ)
  | add (worker : ℕ)

/-- The two steps of a pass over one pair. Whatever else a pass decides of a member is
decided before them; a pair in different shared components is skipped. -/
def step (world : World) : Action → World
  | .walk worker applicationId rootKey memberKey cap =>
    match characterId world.tables rootKey, characterId world.tables memberKey with
    | some rootId, some memberId =>
      let components := countingComponents world.tables rootId memberId cap
      let judgement : Judgement :=
        ⟨applicationId, rootKey, memberKey, rootId, memberId, components,
          world.tables.manual.length⟩
      { world with
        pending := Function.update world.pending worker
          (if !components.same && components.rootShared && components.memberShared then none
          else some judgement) }
    | _, _ => world
  | .add worker =>
    match world.pending worker with
    | none => world
    | some judgement =>
      { tables := addManual world.tables judgement.rootKey judgement.memberKey
          judgement.applicationId
        pending := Function.update world.pending worker none }

/-- Two characters in different components that each hold more than one character. -/
def JoinsGroups (tables : CountingTables) (rootId memberId : ℕ) : Prop :=
  ¬ Joined (rebuildEdges tables) rootId memberId ∧
    (∃ other, other ≠ rootId ∧ Joined (rebuildEdges tables) rootId other) ∧
    ∃ other, other ≠ memberId ∧ Joined (rebuildEdges tables) memberId other

/-- The links of the manual connections added since a walk. -/
def linksSince (tables : CountingTables) (judgement : Judgement) : List (ℕ × ℕ) :=
  resolveManual tables.characters (tables.manual.drop judgement.seen)

def Untouched (links : List (ℕ × ℕ)) (id : ℕ) : Prop :=
  ∀ link ∈ links, link.1 ≠ id ∧ link.2 ≠ id

/-- An end the walk found alone has got no link since; or the walk found the two in one
component, or the links by now join them. -/
def EndStillAlone (tables : CountingTables) (judgement : Judgement) : Prop :=
  Joined (rebuildEdges tables) judgement.rootId judgement.memberId ∨
    (judgement.components.rootShared = false ∧
      Untouched (linksSince tables judgement) judgement.rootId) ∨
    (judgement.components.memberShared = false ∧
      Untouched (linksSince tables judgement) judgement.memberId)

variable {tables : CountingTables} {rootId memberId cap : ℕ}

def Alone (tables : CountingTables) (id : ℕ) : Prop :=
  ∀ other, Joined (rebuildEdges tables) id other → other = id

theorem walkRound_spec (rootId cap : ℕ) (s : Walk)
    (_ : s = ⟨[rootId], [rootId], false⟩ ∨ (s.nodes.length = 1 → s.frontier = []))
    (h : Searched (Beside (rebuildEdges tables)) [rootId] s.nodes s.frontier) :
    (walkRound tables cap s = ⟨[rootId], [rootId], false⟩ ∨
        ((walkRound tables cap s).nodes.length = 1 → (walkRound tables cap s).frontier = [])) ∧
      Searched (Beside (rebuildEdges tables)) [rootId] (walkRound tables cap s).nodes
        (walkRound tables cap s).frontier ∧
      (walkRound tables cap s).nodes = s.nodes ++ (walkRound tables cap s).frontier := by
  refine ⟨?_, h.round ?_ (nodup_eraseDups _), rfl⟩
  · right
    intro hlength
    have hpos := length_pos_of_mem (h.found rootId mem_cons_self)
    have hsum : (walkRound tables cap s).nodes.length =
        s.nodes.length + (walkRound tables cap s).frontier.length := length_append
    apply eq_nil_of_length_eq_zero
    omega
  · intro y
    simp only [mem_eraseDups, mem_filter, mem_flatMap, Bool.not_eq_true',
      mem_countingLinksFrom]
    rw [← Bool.not_eq_true, contains_iff_mem]
    constructor
    · intro hy
      obtain ⟨⟨⟨a, b⟩, ⟨hlink, htouch⟩, hends⟩, hnew⟩ := hy
      refine ⟨?_, hnew⟩
      simp only [mem_cons, not_mem_nil, or_false] at hends htouch
      rcases hends with hya | hyb
      · rcases htouch with ha | hb
        · exact absurd (h.recent a ha) (hya ▸ hnew)
        · exact ⟨b, hb, beside_iff.mpr (.inr (hya ▸ hlink))⟩
      · rcases htouch with ha | hb
        · exact ⟨a, ha, beside_iff.mpr (.inl (hyb ▸ hlink))⟩
        · exact absurd (h.recent b hb) (hyb ▸ hnew)
    · intro hy
      obtain ⟨⟨x, hx, hbeside⟩, hnew⟩ := hy
      refine ⟨?_, hnew⟩
      rcases beside_iff.mp hbeside with hlink | hlink
      · exact ⟨(x, y), ⟨hlink, .inl hx⟩, by simp⟩
      · exact ⟨(y, x), ⟨hlink, .inr hx⟩, by simp⟩

theorem walk_spec (memberId cap : ℕ) (hroot : rootId ∈ tables.ids) :
    (∀ x ∈ (walk tables rootId memberId cap).nodes, Joined (rebuildEdges tables) rootId x) ∧
      (walk tables rootId memberId cap).nodes.Nodup ∧
      (memberId ∉ (walk tables rootId memberId cap).nodes →
        (walk tables rootId memberId cap).nodes.length ≤ 1 → Alone tables rootId) := by
  have hends := searched_rounds Walk.nodes Walk.frontier
    (fun s => s.nodes.contains memberId || s.capped) (walkRound tables cap)
    (fun s => s = ⟨[rootId], [rootId], false⟩ ∨ (s.nodes.length = 1 → s.frontier = []))
    (fun x hx => by rw [mem_singleton.mp hx]; exact hroot)
    (fun x y _ hstep => (beside_ids tables hstep).2) (walkRound_spec rootId cap) (.inl rfl)
    (searched_start (Beside (rebuildEdges tables)) (nodup_singleton rootId))
    (show tables.ids.length < tables.ids.length + 1 + [rootId].length by
      rw [length_singleton]
      omega)
  change (walk tables rootId memberId cap = _ ∨ _) ∧
    Searched _ _ (walk tables rootId memberId cap).nodes _ ∧ _ at hends
  obtain ⟨hinv, hsearched, hstopped⟩ := hends
  have hreached : ∀ x ∈ (walk tables rootId memberId cap).nodes,
      Joined (rebuildEdges tables) rootId x := by
    intro x hx
    obtain ⟨seed, hseed, hreach⟩ := hsearched.reached x hx
    rw [mem_singleton.mp hseed, reflTransGen_beside] at hreach
    exact hreach
  refine ⟨hreached, hsearched.distinct, ?_⟩
  intro hmember hlength
  have hfound := hsearched.found rootId mem_cons_self
  have hpos := length_pos_of_mem hfound
  -- a walk that found nobody went no further than its first round
  have hfrontier : (walk tables rootId memberId cap).frontier = [] := by
    rcases hinv with hstart | hone
    · change (walk tables rootId memberId cap).frontier = [] ∨
        ((walk tables rootId memberId cap).nodes.contains memberId ||
          (walk tables rootId memberId cap).capped) = true at hstopped
      rcases hstopped with hnil | hstop
      · exact hnil
      · rw [Bool.or_eq_true, contains_iff_mem] at hstop
        rcases hstop with hin | hcapped
        · exact absurd hin hmember
        · rw [hstart] at hcapped
          cases hcapped
    · exact hone (Nat.le_antisymm hlength hpos)
  intro other hjoined
  change Searched _ _ _ (walk tables rootId memberId cap).frontier at hsearched
  rw [hfrontier] at hsearched
  have hother : other ∈ (walk tables rootId memberId cap).nodes := by
    rw [hsearched.mem_iff, reflTransGen_beside]
    exact ⟨rootId, mem_cons_self, hjoined⟩
  obtain ⟨x, hx⟩ := length_eq_one_iff.mp (show
    (walk tables rootId memberId cap).nodes.length = 1 by omega)
  rw [hx] at hother hfound
  rw [mem_singleton.mp hother, mem_singleton.mp hfound]

theorem alone_iff_untouched (id : ℕ) : Alone tables id ↔ Untouched (rebuildEdges tables) id := by
  have hdistinct : ∀ link ∈ rebuildEdges tables, link.1 ≠ link.2 := by
    intro link hlink
    unfold rebuildEdges at hlink
    rw [mem_eraseDups, mem_append] at hlink
    rcases hlink with hin | hin
    · obtain ⟨row, hrow, heq⟩ := mem_map.mp hin
      have hlt := tables.ordered row (mem_of_mem_filter hrow)
      rw [← heq]
      exact Nat.ne_of_lt hlt
    · obtain ⟨manual, -, target, -, -, hne, heq⟩ := mem_resolveManual.mp hin
      rw [heq]
      exact Ne.symm hne
  constructor
  · intro halone link hlink
    have hjoined : Joined (rebuildEdges tables) link.1 link.2 := joined_of_mem hlink
    constructor
    · intro hend
      rw [hend] at hjoined
      exact hdistinct link hlink (hend.trans (halone _ hjoined).symm)
    · intro hend
      rw [hend] at hjoined
      exact hdistinct link hlink ((halone _ hjoined.symm).trans hend.symm)
  · intro huntouched other hjoined
    symm
    apply hjoined.eq_of_isolated
    intro z hz
    rcases beside_iff.mp hz with hin | hin
    · exact absurd rfl (huntouched _ hin).1
    · exact absurd rfl (huntouched _ hin).2

theorem untouched_iff_no_link (id : ℕ) :
    Untouched (rebuildEdges tables) id ↔ countingLinksFrom tables [id] = [] := by
  rw [eq_nil_iff_forall_not_mem]
  constructor
  · intro h link hlink
    obtain ⟨hin, hend⟩ := (mem_countingLinksFrom tables).mp hlink
    simp only [mem_singleton] at hend
    rcases hend with hend | hend
    · exact (h link hin).1 hend
    · exact (h link hin).2 hend
  · intro h link hin
    have hnot := h link
    rw [mem_countingLinksFrom] at hnot
    simp only [mem_singleton] at hnot
    tauto

/-- What the answer of a walk says of the components it walked. -/
structure Answers (tables : CountingTables) (rootId memberId : ℕ) (components : Components) :
    Prop where
  same : components.same = true → Joined (rebuildEdges tables) rootId memberId
  root : components.same = false → (components.rootShared = false ↔ Alone tables rootId)
  member : components.same = false → (components.memberShared = false ↔ Alone tables memberId)

theorem answers_countingComponents (hroot : rootId ∈ tables.ids) (cap : ℕ) :
    Answers tables rootId memberId (countingComponents tables rootId memberId cap) := by
  obtain ⟨hreached, hnodup, halone⟩ :=
    walk_spec memberId cap hroot
  unfold countingComponents
  refine ⟨?_, ?_, ?_⟩
  · intro hsame
    exact hreached memberId (contains_iff_mem.mp hsame)
  · intro hsame
    simp only at hsame ⊢
    rw [← Bool.not_eq_true, contains_iff_mem] at hsame
    rw [decide_eq_false_iff_not, not_lt]
    constructor
    · exact halone hsame
    · intro hroot
      have hall : ∀ x ∈ (walk tables rootId memberId cap).nodes, x = rootId :=
        fun x hx => hroot x (hreached x hx)
      have hsub : (walk tables rootId memberId cap).nodes.Subperm [rootId] :=
        subperm_of_subset hnodup (fun x hx => by
          rw [hall x hx]
          exact mem_cons_self)
      exact hsub.length_le
  · intro hsame
    simp only at hsame ⊢
    rw [hsame, alone_iff_untouched, untouched_iff_no_link]
    simp

variable {walked : CountingTables} {since : List ManualConnection}

/-- Tables that have got manual connections since a walk. -/
structure GrownSince (walked tables : CountingTables) (since : List ManualConnection) : Prop where
  characters : tables.characters = walked.characters
  connections : tables.connections = walked.connections
  manual : tables.manual = walked.manual ++ since

theorem GrownSince.mem_rebuildEdges (h : GrownSince walked tables since) {link : ℕ × ℕ} :
    link ∈ rebuildEdges tables ↔
      link ∈ rebuildEdges walked ∨ link ∈ resolveManual tables.characters since := by
  have happend : resolvedManual tables =
      resolvedManual walked ++ resolveManual tables.characters since := by
    unfold resolvedManual resolveManual
    rw [h.manual, flatMap_append, h.characters]
  have hrejected : ∀ connection, isRejected tables connection = isRejected walked connection := by
    intro connection
    unfold isRejected
    rw [h.connections]
  unfold rebuildEdges
  simp only [mem_eraseDups, happend, mem_append, h.connections, hrejected, or_assoc]

theorem GrownSince.joined (h : GrownSince walked tables since) {x y : ℕ}
    (hjoined : Joined (rebuildEdges walked) x y) : Joined (rebuildEdges tables) x y :=
  hjoined.mono (fun _ hlink => h.mem_rebuildEdges.mpr (.inl hlink))

theorem GrownSince.alone_iff (h : GrownSince walked tables since) (id : ℕ) :
    Alone tables id ↔ Alone walked id ∧ Untouched (resolveManual tables.characters since) id := by
  rw [alone_iff_untouched, alone_iff_untouched]
  unfold Untouched
  simp only [h.mem_rebuildEdges]
  constructor
  · intro hall
    exact ⟨fun link hin => hall link (.inl hin), fun link hin => hall link (.inr hin)⟩
  · intro hboth link hin
    rcases hin with hin | hin
    · exact hboth.1 link hin
    · exact hboth.2 link hin

theorem not_joinsGroups_iff :
    ¬ JoinsGroups tables rootId memberId ↔
      Joined (rebuildEdges tables) rootId memberId ∨ Alone tables rootId ∨
        Alone tables memberId := by
  have hshared : ∀ id, (∃ other, other ≠ id ∧ Joined (rebuildEdges tables) id other) ↔
      ¬ Alone tables id := by
    intro id
    unfold Alone
    push Not
    constructor
    · intro h
      obtain ⟨other, hne, hjoined⟩ := h
      exact ⟨other, hjoined, hne⟩
    · intro h
      obtain ⟨other, hjoined, hne⟩ := h
      exact ⟨other, hne, hjoined⟩
  unfold JoinsGroups
  rw [hshared, hshared]
  tauto

theorem joinsGroups_iff {judgement : Judgement}
    (h : GrownSince walked tables (tables.manual.drop judgement.seen))
    (hanswers : Answers walked judgement.rootId judgement.memberId judgement.components) :
    ¬ JoinsGroups tables judgement.rootId judgement.memberId ↔ EndStillAlone tables judgement := by
  rw [not_joinsGroups_iff]
  unfold EndStillAlone linksSince
  cases hsame : judgement.components.same with
  | true =>
    have hnow := h.joined (hanswers.same hsame)
    exact iff_of_true (.inl hnow) (.inl hnow)
  | false => rw [h.alone_iff, h.alone_iff, hanswers.root hsame, hanswers.member hsame]

variable {world : World}

/-- What the walk of a pair about to be linked found still stands, but for the links
added since. -/
def Judged (world : World) : Prop :=
  ∀ worker judgement, world.pending worker = some judgement →
    judgement.seen ≤ world.tables.manual.length ∧
    ∃ walked, GrownSince walked world.tables (world.tables.manual.drop judgement.seen) ∧
      Answers walked judgement.rootId judgement.memberId judgement.components

theorem judged_start (tables : CountingTables) : Judged (World.start tables) := by
  intro worker judgement h
  cases h

theorem addManual_cases (tables : CountingTables) (root character : CharacterKey)
    (applicationId : ℕ) :
    addManual tables root character applicationId = tables ∨
      ∃ row, GrownSince tables (addManual tables root character applicationId) [row] := by
  unfold addManual
  split
  · exact .inl rfl
  · split
    · exact .inl rfl
    · exact .inr ⟨_, rfl, rfl, rfl⟩

theorem Judged.step (h : Judged world) (action : Action) :
    Judged (CrossGroupLinks.step world action) := by
  cases action with
  | walk worker applicationId rootKey memberKey cap =>
    unfold CrossGroupLinks.step
    simp only
    split
    · rename_i rootId memberId hroot hmember
      intro other judgement hpending
      simp only at hpending ⊢
      by_cases hother : other = worker
      · rw [hother, Function.update_self] at hpending
        split at hpending
        · cases hpending
        · rw [← Option.some.inj hpending]
          obtain ⟨row, hrow, -, hid⟩ := characterId_mem world.tables hroot
          have hrootIn : rootId ∈ world.tables.ids := by
            rw [← hid]
            exact mem_map_of_mem hrow
          refine ⟨Nat.le_refl _, world.tables, ⟨rfl, rfl, ?_⟩,
            answers_countingComponents hrootIn cap⟩
          simp
      · rw [Function.update_of_ne hother] at hpending
        exact h other judgement hpending
    · exact h
  | add worker =>
    unfold CrossGroupLinks.step
    simp only
    split
    · exact h
    · rename_i added hadded
      intro other judgement hpending
      simp only at hpending ⊢
      have hbefore : world.pending other = some judgement := by
        by_cases hother : other = worker
        · rw [hother, Function.update_self] at hpending
          cases hpending
        · rw [Function.update_of_ne hother] at hpending
          exact hpending
      obtain ⟨hseen, walked, hgrown, hanswers⟩ := h other judgement hbefore
      rcases addManual_cases world.tables added.rootKey added.memberKey added.applicationId with
        hsame | ⟨row, hrow⟩
      · rw [hsame]
        exact ⟨hseen, walked, hgrown, hanswers⟩
      · rw [hrow.manual]
        refine ⟨?_, walked, ⟨?_, ?_, ?_⟩, hanswers⟩
        · rw [length_append]
          omega
        · exact hrow.characters.trans hgrown.characters
        · exact hrow.connections.trans hgrown.connections
        · rw [hrow.manual, drop_append_of_le_length hseen, ← append_assoc,
            ← hgrown.manual]

def Links (p : World × Action) (judgement : Judgement) : Prop :=
  ∃ worker, p.2 = .add worker ∧ p.1.pending worker = some judgement

/-- In every run no link joins two groups exactly where at every link an end that the
walk found alone has got no link since, or the two are joined by then. -/
theorem runs_join_no_groups_iff (tables : CountingTables) (actions : List Action) :
    (∀ p ∈ steps step (World.start tables) actions, ∀ judgement, Links p judgement →
      ¬ JoinsGroups p.1.tables judgement.rootId judgement.memberId) ↔
    ∀ p ∈ steps step (World.start tables) actions, ∀ judgement, Links p judgement →
      EndStillAlone p.1.tables judgement := by
  have hjudged : ∀ p ∈ steps step (World.start tables) actions, ∀ judgement, Links p judgement →
      (¬ JoinsGroups p.1.tables judgement.rootId judgement.memberId ↔
        EndStillAlone p.1.tables judgement) := by
    intro p hp judgement hlinks
    obtain ⟨worker, -, hpending⟩ := hlinks
    have hstate : Judged p.1 :=
      keeps_steps Judged (fun world action h => h.step action) (judged_start tables) hp
    obtain ⟨-, walked, hgrown, hanswers⟩ := hstate worker judgement hpending
    exact joinsGroups_iff hgrown hanswers
  constructor
  · intro h p hp judgement hlinks
    exact (hjudged p hp judgement hlinks).mp (h p hp judgement hlinks)
  · intro h p hp judgement hlinks
    exact (hjudged p hp judgement hlinks).mpr (h p hp judgement hlinks)

def characterKey (name : String) : CharacterKey := ⟨.eu, "silvermoon", name⟩

def fourCharacters : CountingTables where
  characters := [⟨1, characterKey "a"⟩, ⟨2, characterKey "b"⟩, ⟨3, characterKey "c"⟩,
    ⟨4, characterKey "d"⟩]
  connections := [⟨3, 4, .observed⟩]
  manual := []
  distinct := by decide
  keyed := by decide
  ordered := by decide
  connected := by decide
  rooted := by decide

/-- One worker finds its root alone, another links the root to its own, and the first
then adds its link. -/
def racingWorkers : List Action :=
  [.walk 0 10 (characterKey "a") (characterKey "c") 2000,
   .walk 1 11 (characterKey "b") (characterKey "a") 2000, .add 1, .add 0]

/-- The state in which the first worker adds its link. -/
def lastRacing : World := after step (World.start fourCharacters) (racingWorkers.take 3)

theorem lastRacing_edges : rebuildEdges lastRacing.tables = [(3, 4), (2, 1)] := by
  decide +kernel

theorem racingWorkers_join_groups :
    ¬ ∀ (tables : CountingTables) (actions : List Action),
      ∀ p ∈ steps step (World.start tables) actions, ∀ judgement, Links p judgement →
        ¬ JoinsGroups p.1.tables judgement.rootId judgement.memberId := by
  intro hall
  have hstep : (lastRacing, Action.add 0) ∈ steps step (World.start fourCharacters) racingWorkers :=
    (mem_steps_iff step).mpr ⟨racingWorkers.take 3, [], rfl, rfl⟩
  refine hall fourCharacters racingWorkers _ hstep
    ⟨10, characterKey "a", characterKey "c", 1, 3, ⟨false, false, true, false⟩, 0⟩
    ⟨0, rfl, rfl⟩ ?_
  unfold JoinsGroups
  rw [lastRacing_edges]
  refine ⟨?_, ⟨2, by decide, (joined_of_mem (by decide)).symm⟩,
    ⟨4, by decide, joined_of_mem (by decide)⟩⟩
  intro hjoined
  have hsame := hjoined.of_closed (P := fun id => id < 3) (by
    intro a b hlink
    simp only [mem_cons, Prod.mk.injEq, not_mem_nil, or_false] at hlink
    omega)
  simp at hsame

end SlashWho.CrossGroupLinks
