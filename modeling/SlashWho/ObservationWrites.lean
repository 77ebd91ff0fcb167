import SlashWho.CharacterConnections
import SlashWho.Fallible

/-!
What one family write does to the tables. The observed loop only renews links
and adds new ones; a `replaced` write then deletes what another run last saw
before this run began; the marker moves forward, and one ledger row is added.
-/

namespace SlashWho.CharacterConnections

open List Characters Fallible

/-- What the unique index tells observations apart by. -/
def Connection.link (row : Connection) : ℕ × ℕ × ObservationSource × ℕ :=
  (row.lowId, row.highId, row.source, row.observerId)

def observedLink (observerId otherId : ℕ) (source : ObservationSource) :
    ℕ × ℕ × ObservationSource × ℕ :=
  (min observerId otherId, max observerId otherId, source, observerId)

theorem observes_iff (row : Connection) (observerId otherId : ℕ) (source : ObservationSource) :
    row.Observes observerId otherId source ↔ row.link = observedLink observerId otherId source := by
  simp [Connection.Observes, Connection.link, observedLink]

variable (runId : ℕ)

@[simp] theorem link_renew (now : ℕ) (row : Connection) :
    (row.renew runId now).link = row.link := rfl

theorem renew_eq_or (now : ℕ) (row : Connection) :
    row.renew runId now = row ∨
      ((row.renew runId now).runId = runId ∧ (row.renew runId now).observedAt = now) := by
  by_cases hnow : row.observedAt ≤ now
  · right
    simp [Connection.renew, hnow]
  · left
    have hmax : max row.observedAt now = row.observedAt := by omega
    simp [Connection.renew, hnow, hmax]

theorem le_observedAt_renew (now : ℕ) (row : Connection) :
    now ≤ (row.renew runId now).observedAt := le_max_right _ _

/-- Whether the row is one this write last saw. -/
structure SeenNow (ctx : WriteContext) (row : Connection) : Prop where
  runId : row.runId = ctx.runId
  observedAt : row.observedAt = ctx.now

/-- How the observed loop changes the links: rows are old or seen now, and
every old row is still there or was renewed. -/
structure Sighted (ctx : WriteContext) (family : ConnectionFamily)
    (rows rows' : List Connection) : Prop where
  origin : ∀ row' ∈ rows', row' ∈ rows ∨
    (row'.observerId = ctx.observerId ∧ familyOf row'.source = family ∧ SeenNow ctx row')
  kept : ∀ row ∈ rows, ∃ row' ∈ rows', row'.link = row.link ∧ (row' = row ∨ SeenNow ctx row')
  unique : (rows.map Connection.link).Nodup → (rows'.map Connection.link).Nodup

theorem Sighted.refl (ctx : WriteContext) (family : ConnectionFamily) (rows : List Connection) :
    Sighted ctx family rows rows :=
  ⟨fun _ hrow => .inl hrow, fun row hrow => ⟨row, hrow, rfl, .inl rfl⟩, fun h => h⟩

theorem Sighted.trans {ctx : WriteContext} {family : ConnectionFamily}
    {rows rows' rows'' : List Connection} (h : Sighted ctx family rows rows')
    (h' : Sighted ctx family rows' rows'') : Sighted ctx family rows rows'' where
  origin := by
    intro row hrow
    rcases h'.origin row hrow with hin | hseen
    · exact h.origin row hin
    · exact .inr hseen
  kept := by
    intro row hrow
    obtain ⟨mid, hmid, hlink, hsame⟩ := h.kept row hrow
    obtain ⟨last, hlast, hlink', hsame'⟩ := h'.kept mid hmid
    refine ⟨last, hlast, hlink'.trans hlink, ?_⟩
    rcases hsame' with rfl | hseen
    · exact hsame
    · exact .inr hseen
  unique hnodup := h'.unique (h.unique hnodup)

variable (rows : List Connection) (ctx : WriteContext) (otherId : ℕ) (source : ObservationSource)

theorem links_upsertObservation (hnodup : (rows.map Connection.link).Nodup) :
    ((upsertObservation rows ctx otherId source).1.map Connection.link).Nodup := by
  unfold upsertObservation
  split
  · have hsame : (rows.map (fun row =>
        if row.Observes ctx.observerId otherId source then row.renew ctx.runId ctx.now
        else row)).map Connection.link = rows.map Connection.link := by
      rw [map_map]
      apply map_congr_left
      intro row _
      show Connection.link (if _ then _ else _) = _
      split <;> rfl
    exact hsame ▸ hnodup
  · next hany =>
    rw [map_append, nodup_append]
    refine ⟨hnodup, by simp, ?_⟩
    intro link hlink link' hlink' heq
    obtain ⟨row, hrow, rfl⟩ := mem_map.mp hlink
    rw [map_singleton, mem_singleton] at hlink'
    apply hany
    apply any_eq_true.mpr
    exact ⟨row, hrow, decide_eq_true ((observes_iff _ _ _ _).mpr (heq.trans hlink'))⟩

theorem upsertObservation_sighted :
    Sighted ctx (familyOf source) rows (upsertObservation rows ctx otherId source).1 := by
  have hunique := links_upsertObservation rows ctx otherId source
  unfold upsertObservation at hunique ⊢
  split
  · next hany =>
    rw [if_pos hany] at hunique
    refine ⟨?_, ?_, hunique⟩
    · intro row' hrow'
      obtain ⟨row, hrow, rfl⟩ := mem_map.mp hrow'
      split
      · next hobserves =>
          obtain ⟨-, -, hsource, hobserver⟩ := hobserves
          rcases renew_eq_or ctx.runId ctx.now row with hsame | ⟨hrun, hat⟩
          · left
            rw [hsame]
            exact hrow
          · exact .inr ⟨hobserver, congrArg familyOf hsource, hrun, hat⟩
      · exact .inl hrow
    · intro row hrow
      refine ⟨_, mem_map_of_mem hrow, ?_⟩
      split
      · refine ⟨link_renew _ _ _, ?_⟩
        rcases renew_eq_or ctx.runId ctx.now row with hsame | ⟨hrun, hat⟩
        · exact .inl hsame
        · exact .inr ⟨hrun, hat⟩
      · exact ⟨rfl, .inl rfl⟩
  · next hany =>
    rw [if_neg hany] at hunique
    refine ⟨?_, ?_, hunique⟩
    · intro row' hrow'
      rcases mem_append.mp hrow' with hold | hnew
      · exact .inl hold
      · rw [mem_singleton] at hnew
        subst hnew
        exact .inr ⟨rfl, rfl, rfl, rfl⟩
    · intro row hrow
      exact ⟨row, mem_append_left _ hrow, rfl, .inl rfl⟩

theorem upsertObservation_seen :
    (∃ row ∈ (upsertObservation rows ctx otherId source).1,
      row.Observes ctx.observerId otherId source) ∧
    ∀ row ∈ (upsertObservation rows ctx otherId source).1,
      row.Observes ctx.observerId otherId source → ctx.now ≤ row.observedAt := by
  unfold upsertObservation
  split
  · next hany =>
    obtain ⟨row, hrow, hobserves⟩ := any_eq_true.mp hany
    have hobserves := of_decide_eq_true hobserves
    constructor
    · refine ⟨row.renew ctx.runId ctx.now, ?_, hobserves⟩
      exact mem_map.mpr ⟨row, hrow, by simp [hobserves]⟩
    · intro row' hrow' hobs'
      obtain ⟨old, -, rfl⟩ := mem_map.mp hrow'
      split at hobs' <;> split <;> try contradiction
      exact le_observedAt_renew _ _ _
  · next hany =>
    constructor
    · exact ⟨_, mem_append_right _ (mem_singleton_self _), rfl, rfl, rfl, rfl⟩
    · intro row' hrow' hobs'
      rcases mem_append.mp hrow' with hold | hnew
      · exact absurd (any_eq_true.mpr ⟨row', hold, decide_eq_true hobs'⟩) hany
      · rw [mem_singleton] at hnew
        subst hnew
        exact le_refl _

theorem mem_upsertObservation_of_ne {row : Connection}
    (hne : ¬ row.Observes ctx.observerId otherId source) :
    row ∈ (upsertObservation rows ctx otherId source).1 ↔ row ∈ rows := by
  unfold upsertObservation
  split
  · constructor
    · intro hrow
      obtain ⟨old, hold, heq⟩ := mem_map.mp hrow
      split at heq
      · next hobs => exact absurd (heq ▸ hobs) hne
      · exact heq ▸ hold
    · intro hrow
      exact mem_map.mpr ⟨row, hrow, by simp [hne]⟩
  · simp only [mem_append, mem_singleton, or_iff_left_iff_imp]
    rintro rfl
    exact absurd ⟨rfl, rfl, rfl, rfl⟩ hne

variable {lower : String → String} {ctx : WriteContext} {family : ConnectionFamily}
variable {p p' : WriteProgress} {items : List ObservedItem}

variable {item : ObservedItem}

/-- What one observed item does: nothing to the tables, or one observation written. -/
theorem observeItem_ok (h : observeItem lower ctx family p item = .ok p') :
    familyOf item.source = family ∧
      (p'.tables = p.tables ∧
          (∀ otherId, ctx.ids.get? (canonicalCharacterId lower item.key) = some otherId →
            otherId = ctx.observerId) ∨
        ∃ otherId, ctx.ids.get? (canonicalCharacterId lower item.key) = some otherId ∧
          otherId ≠ ctx.observerId ∧
          p'.tables = { p.tables with
            connections := (upsertObservation p.tables.connections ctx otherId item.source).1 }) := by
  unfold observeItem at h
  split at h
  · cases h
  · next hfamily =>
    refine ⟨not_not.mp hfamily, ?_⟩
    split at h
    · next hnone =>
      cases h
      exact .inl ⟨rfl, fun otherId hsome => by rw [hnone] at hsome; cases hsome⟩
    · next otherId hsome =>
      split at h
      · next hself =>
        cases h
        refine .inl ⟨rfl, fun other hother => ?_⟩
        rw [hsome, Option.some.injEq] at hother
        exact hother ▸ hself
      · next hother =>
        cases h
        exact .inr ⟨otherId, hsome, hother, rfl⟩

theorem observeItems_ok (h : items.foldlM (observeItem lower ctx family) p = .ok p') :
    ∃ rows, p'.tables = { p.tables with connections := rows } ∧
      Sighted ctx family p.tables.connections rows := by
  apply foldlM_keeps (P := fun u => ∃ rows, u.tables = { p.tables with connections := rows } ∧
    Sighted ctx family p.tables.connections rows) _ ⟨_, rfl, .refl _ _ _⟩ h
  rintro item - u u' ⟨rows, htables, hsighted⟩ hitem
  obtain ⟨rfl, ⟨hsame, -⟩ | ⟨otherId, -, -, hupsert⟩⟩ := observeItem_ok hitem
  · exact ⟨rows, hsame.trans htables, hsighted⟩
  · rw [htables] at hupsert
    exact ⟨_, hupsert, hsighted.trans (upsertObservation_sighted rows ctx otherId item.source)⟩

theorem observeItems_family (hitem : item ∈ items)
    (h : items.foldlM (observeItem lower ctx family) p = .ok p') :
    familyOf item.source = family :=
  foldlM_reaches (P := fun _ => familyOf item.source = family) hitem
    (fun _ _ hu => (observeItem_ok hu).1) (fun _ _ _ _ hfamily _ => hfamily) h

/-- Each observed character that has a row ends up linked, as of this write. -/
theorem observeItems_seen {otherId : ℕ} (hitem : item ∈ items)
    (hid : ctx.ids.get? (canonicalCharacterId lower item.key) = some otherId)
    (hother : otherId ≠ ctx.observerId)
    (h : items.foldlM (observeItem lower ctx family) p = .ok p') :
    ∀ row ∈ p'.tables.connections, row.Observes ctx.observerId otherId item.source →
      ctx.now ≤ row.observedAt := by
  apply foldlM_reaches (P := fun u => ∀ row ∈ u.tables.connections,
    row.Observes ctx.observerId otherId item.source → ctx.now ≤ row.observedAt) hitem _ _ h
  · intro u u' hu
    obtain ⟨-, ⟨-, hself⟩ | ⟨other, hsome, -, htables⟩⟩ := observeItem_ok hu
    · exact absurd (hself otherId hid) hother
    · rw [hid, Option.some.injEq] at hsome
      subst hsome
      rw [htables]
      exact (upsertObservation_seen u.tables.connections ctx otherId item.source).2
  · intro i _ u u' hbefore hu row hrow hobserves
    obtain ⟨-, ⟨hsame, -⟩ | ⟨other, -, -, htables⟩⟩ := observeItem_ok hu
    · exact hbefore row (hsame ▸ hrow) hobserves
    · rw [htables] at hrow
      rcases (upsertObservation_sighted _ ctx other i.source).origin row hrow with hin | hseen
      · exact hbefore row hin hobserves
      · exact hseen.2.2.observedAt.ge

theorem mem_observeItems_of_ne {row : Connection}
    (hne : ∀ item ∈ items, ∀ otherId,
      ctx.ids.get? (canonicalCharacterId lower item.key) = some otherId →
      ¬ row.Observes ctx.observerId otherId item.source)
    (h : items.foldlM (observeItem lower ctx family) p = .ok p') :
    row ∈ p'.tables.connections ↔ row ∈ p.tables.connections := by
  apply foldlM_keeps (P := fun u => row ∈ u.tables.connections ↔ row ∈ p.tables.connections)
    _ Iff.rfl h
  intro item hitem u u' hiff hu
  obtain ⟨-, ⟨hsame, -⟩ | ⟨other, hsome, -, htables⟩⟩ := observeItem_ok hu
  · rw [hsame]
    exact hiff
  · rw [htables]
    exact (mem_upsertObservation_of_ne _ ctx other item.source
      (hne item hitem other hsome)).trans hiff

variable (ctx : WriteContext) (family : ConnectionFamily) (t : ConnectionTables)

theorem findMarker_writeMarker_of_ne {observerId : ℕ} {other : ConnectionFamily}
    (hne : ¬ (observerId = ctx.observerId ∧ other = family)) :
    findMarker (writeMarker ctx family t) observerId other = findMarker t observerId other := by
  have hnot : ∀ marker : Marker, marker.observerId = observerId ∧ marker.family = other →
      ¬ (marker.observerId = ctx.observerId ∧ marker.family = family) := by
    rintro marker ⟨rfl, rfl⟩
    exact hne
  unfold writeMarker
  split
  · unfold findMarker
    simp only
    induction t.writes with
    | nil => rfl
    | cons marker rest ih =>
      by_cases hfound : marker.observerId = observerId ∧ marker.family = other
      · simp [hfound, hne]
      · rw [map_cons, find?_cons_of_neg, ih, find?_cons_of_neg]
        · simpa using hfound
        · split <;> simpa using hfound
  · unfold findMarker
    rw [find?_append]
    have hnew : ([⟨ctx.observerId, family, ctx.runId, ctx.runStartedAt⟩] : List Marker).find?
        (fun marker => marker.observerId = observerId ∧ marker.family = other) = none := by
      simp only [find?_singleton, decide_eq_true_eq, ite_eq_right_iff, reduceCtorEq, imp_false]
      rintro ⟨rfl, rfl⟩
      exact hne ⟨rfl, rfl⟩
    rw [hnew, Option.or_none]

/-- The marker ends at this run's start or where it was, whichever is later. -/
theorem findMarker_writeMarker_self :
    ∃ marker, findMarker (writeMarker ctx family t) ctx.observerId family = some marker ∧
      ctx.runStartedAt ≤ marker.runStartedAt ∧
      ∀ old, findMarker t ctx.observerId family = some old →
        old.runStartedAt ≤ marker.runStartedAt := by
  unfold writeMarker
  split
  · next hsome =>
    obtain ⟨old, hold⟩ := Option.isSome_iff_exists.mp hsome
    refine ⟨{ old with
      runId := if ctx.runStartedAt ≥ old.runStartedAt then ctx.runId else old.runId
      runStartedAt := max old.runStartedAt ctx.runStartedAt }, ?_, le_max_right _ _, ?_⟩
    · have hmatch := find?_some hold
      simp only [decide_eq_true_eq] at hmatch
      unfold findMarker at hold ⊢
      rw [find?_map]
      have hcomp : (fun marker : Marker =>
          decide (marker.observerId = ctx.observerId ∧ marker.family = family)) ∘
          (fun marker : Marker =>
            if marker.observerId = ctx.observerId ∧ marker.family = family then
              { marker with
                runId := if ctx.runStartedAt ≥ marker.runStartedAt then ctx.runId
                  else marker.runId
                runStartedAt := max marker.runStartedAt ctx.runStartedAt }
            else marker) =
          fun marker => decide (marker.observerId = ctx.observerId ∧ marker.family = family) := by
        funext marker
        simp only [Function.comp]
        split <;> simp_all
      rw [hcomp, hold]
      simp [hmatch]
    · intro old' hold'
      rw [hold, Option.some.injEq] at hold'
      subst hold'
      exact le_max_left _ _
  · next hnone =>
    have hnone : findMarker t ctx.observerId family = none := by simpa using hnone
    refine ⟨⟨ctx.observerId, family, ctx.runId, ctx.runStartedAt⟩, ?_, le_refl _, ?_⟩
    · unfold findMarker at hnone ⊢
      rw [find?_append, hnone]
      simp
    · intro old hold
      rw [hnone] at hold
      cases hold

/-- The links a verdict leaves of those the observed loop left. -/
def linksAfter (ctx : WriteContext) (family : ConnectionFamily) (verdict : WriteDecision)
    (rows : List Connection) : List Connection :=
  if verdict = .replaced then rows.filter (fun row => !retracted ctx family row) else rows

/-- What a family write that does not throw leaves: a `blocked` ledger row
alone, or the family's links, marker and ledger row written. -/
inductive FamilyEffect (clock : ℕ → ℕ) (ctx : WriteContext) (family : FamilyObservationWrite)
    (t : ConnectionTables) : ConnectionTables → Prop
  | blocked (hblocked : blockedByNewer t ctx.observerId family.family ctx.runStartedAt = true) :
      FamilyEffect clock ctx family t (logWrite clock ctx family .blocked .blockedByNewer t)
  | written (rows : List Connection)
      (hopen : blockedByNewer t ctx.observerId family.family ctx.runStartedAt = false)
      (hsighted : Sighted ctx family.family t.connections rows) :
      FamilyEffect clock ctx family t
        (logWrite clock ctx family (decided t ctx family).decision.toLedger
          (decided t ctx family).reason
          (writeMarker ctx family.family { t with
            connections :=
              linksAfter ctx family.family (decided t ctx family).decision rows }))

variable {clock : ℕ → ℕ} {ctx : WriteContext} {family : FamilyObservationWrite}
variable {t : ConnectionTables}

variable (kind : ConnectionFamily)

theorem writeLog_writeMarker :
    (writeMarker ctx kind t).writeLog = t.writeLog := by
  unfold writeMarker
  split <;> rfl

theorem connections_writeMarker :
    (writeMarker ctx kind t).connections = t.connections := by
  unfold writeMarker
  split <;> rfl

/-- The family's own links after a write that was not blocked: seen by this
run, or old and spared by its verdict. -/
theorem origin_of_sighted {rows : List Connection} (verdict : WriteDecision)
    (hsighted : Sighted ctx family.family t.connections rows) {link : Connection}
    (hlink : link ∈ linksAfter ctx family.family verdict rows) :
    (link.observerId = ctx.observerId ∧ familyOf link.source = family.family ∧
        SeenNow ctx link) ∨
      (link ∈ t.connections ∧
        (verdict = .replaced → retracted ctx family.family link = false)) := by
  unfold linksAfter at hlink
  split at hlink
  · obtain ⟨hin, hkeep⟩ := mem_filter.mp hlink
    rcases hsighted.origin link hin with hold | hseen
    · exact .inr ⟨hold, fun _ => by simpa using hkeep⟩
    · exact .inl hseen
  · next hverdict =>
    rcases hsighted.origin link hlink with hold | hseen
    · exact .inr ⟨hold, fun h => absurd h hverdict⟩
    · exact .inl hseen

theorem unique_linksAfter {kind : ConnectionFamily} {rows : List Connection}
    (verdict : WriteDecision) (h : (rows.map Connection.link).Nodup) :
    ((linksAfter ctx kind verdict rows).map Connection.link).Nodup := by
  unfold linksAfter
  split
  · exact (filter_sublist.map _).nodup h
  · exact h

/-- What every write keeps: rows are old or seen by it, links stay unique, the
ledger only grows and no marker moves back. -/
structure Advances (ctx : WriteContext) (t t' : ConnectionTables) : Prop where
  characters : t'.characters = t.characters
  runs : t'.runs = t.runs
  origin : ∀ row ∈ t'.connections, row ∈ t.connections ∨ SeenNow ctx row
  unique : (t.connections.map Connection.link).Nodup → (t'.connections.map Connection.link).Nodup
  logged : ∀ row ∈ t.writeLog, row ∈ t'.writeLog
  marked : ∀ observerId family marker, findMarker t observerId family = some marker →
    ∃ marker', findMarker t' observerId family = some marker' ∧
      marker.runStartedAt ≤ marker'.runStartedAt

theorem Advances.refl (ctx : WriteContext) (t : ConnectionTables) : Advances ctx t t where
  characters := rfl
  runs := rfl
  origin _ hrow := Or.inl hrow
  unique h := h
  logged _ hrow := hrow
  marked _ _ marker hmarker := ⟨marker, hmarker, le_refl _⟩

theorem Advances.trans {t' t'' : ConnectionTables} (h : Advances ctx t t')
    (h' : Advances ctx t' t'') : Advances ctx t t'' where
  characters := h'.characters.trans h.characters
  runs := h'.runs.trans h.runs
  origin := by
    intro row hrow
    rcases h'.origin row hrow with hin | hseen
    · exact h.origin row hin
    · exact .inr hseen
  unique hnodup := h'.unique (h.unique hnodup)
  logged row hrow := h'.logged row (h.logged row hrow)
  marked := by
    intro observerId kind marker hmarker
    obtain ⟨marker', hmarker', hle⟩ := h.marked observerId kind marker hmarker
    obtain ⟨marker'', hmarker'', hle'⟩ := h'.marked observerId kind marker' hmarker'
    exact ⟨marker'', hmarker'', hle.trans hle'⟩

theorem FamilyEffect.advances {t' : ConnectionTables}
    (h : FamilyEffect clock ctx family t t') : Advances ctx t t' := by
  cases h with
  | blocked hblocked =>
    exact ⟨rfl, rfl, fun row hrow => .inl hrow, fun h => h,
      fun row hrow => mem_append_left _ hrow,
      fun _ _ marker hmarker => ⟨marker, hmarker, le_refl _⟩⟩
  | written rows hopen hsighted =>
    let seen : ConnectionTables :=
      { t with connections := linksAfter ctx family.family (decided t ctx family).decision rows }
    have hconnections : (writeMarker ctx family.family seen).connections = seen.connections :=
      connections_writeMarker family.family
    have hlog : (writeMarker ctx family.family seen).writeLog = t.writeLog :=
      writeLog_writeMarker family.family
    refine ⟨?_, ?_, ?_, ?_, ?_, ?_⟩
    · change (writeMarker ctx family.family seen).characters = t.characters
      unfold writeMarker
      split <;> rfl
    · change (writeMarker ctx family.family seen).runs = t.runs
      unfold writeMarker
      split <;> rfl
    · intro row hrow
      change row ∈ (writeMarker ctx family.family seen).connections at hrow
      rw [hconnections] at hrow
      rcases origin_of_sighted _ hsighted hrow with ⟨-, -, hseen⟩ | ⟨hold, -⟩
      · exact .inr hseen
      · exact .inl hold
    · intro hnodup
      change ((writeMarker ctx family.family seen).connections.map Connection.link).Nodup
      rw [hconnections]
      exact unique_linksAfter _ (hsighted.unique hnodup)
    · intro row hrow
      apply mem_append_left
      rw [hlog]
      exact hrow
    · intro observerId kind marker hmarker
      by_cases hkey : observerId = ctx.observerId ∧ kind = family.family
      · obtain ⟨rfl, rfl⟩ := hkey
        obtain ⟨marker', hfound, -, hle⟩ := findMarker_writeMarker_self ctx family.family seen
        exact ⟨marker', hfound, hle marker hmarker⟩
      · refine ⟨marker, ?_, le_refl _⟩
        exact (findMarker_writeMarker_of_ne ctx family.family seen hkey).trans hmarker

theorem writeFamily_ok {family : FamilyObservationWrite}
    (h : writeFamily lower clock ctx p family = .ok p')
    (hopen : blockedByNewer p.tables ctx.observerId family.family ctx.runStartedAt = false) :
    ∃ seen : WriteProgress,
      family.observed.foldlM (observeItem lower ctx family.family) p = .ok seen ∧
      p'.tables = logWrite clock ctx family (decided p.tables ctx family).decision.toLedger
        (decided p.tables ctx family).reason
        (writeMarker ctx family.family { p.tables with
          connections := linksAfter ctx family.family (decided p.tables ctx family).decision
            seen.tables.connections }) := by
  unfold writeFamily at h
  rw [if_neg (by simp [hopen])] at h
  obtain ⟨seen, hseen, hdone⟩ := ok_of_bind_ok h
  obtain ⟨rows, htables, -⟩ := observeItems_ok hseen
  refine ⟨seen, hseen, ?_⟩
  cases hdone
  unfold linksAfter
  split
  · simp only [retract, htables]
  · rw [htables]

theorem writeFamily_blocked {family : FamilyObservationWrite}
    (h : writeFamily lower clock ctx p family = .ok p')
    (hblocked : blockedByNewer p.tables ctx.observerId family.family ctx.runStartedAt = true) :
    p'.tables = logWrite clock ctx family .blocked .blockedByNewer p.tables := by
  unfold writeFamily at h
  rw [if_pos hblocked] at h
  cases h
  rfl

theorem writeFamily_effect {family : FamilyObservationWrite}
    (h : writeFamily lower clock ctx p family = .ok p') :
    FamilyEffect clock ctx family p.tables p'.tables := by
  cases hblocked : blockedByNewer p.tables ctx.observerId family.family ctx.runStartedAt with
  | true =>
    rw [writeFamily_blocked h hblocked]
    exact .blocked hblocked
  | false =>
    obtain ⟨seen, hseen, htables⟩ := writeFamily_ok h hblocked
    obtain ⟨rows, hrows, hsighted⟩ := observeItems_ok hseen
    rw [htables, hrows]
    exact .written rows hblocked hsighted

theorem foldlM_writeFamily_advances {families : List FamilyObservationWrite}
    (h : families.foldlM (writeFamily lower clock ctx) p = .ok p') :
    Advances ctx p.tables p'.tables := by
  apply foldlM_keeps (P := fun u => Advances ctx p.tables u.tables) _ (.refl _ _) h
  intro family _ u u' hu hwrite
  exact hu.trans (writeFamily_effect hwrite).advances

/-- A write that commits resolved its run and its observer, and wrote its families. -/
theorem writeObservations_ok {t t' : ConnectionTables} {now : ℕ} {input : ObservationWriteInput}
    {result : ObservationWriteResult}
    (h : writeObservations lower clock t now input = .ok (t', result)) :
    ∃ run observerId ids p', t.runs.find? (fun run => run.id = input.runId) = some run ∧
      canonicalCharacterId lower run.rootKey = canonicalCharacterId lower input.observerKey ∧
      ids = characterIds lower t (input.observerKey ::
        input.families.flatMap (fun family => family.observed.map ObservedItem.key)) ∧
      ids.get? (canonicalCharacterId lower input.observerKey) = some observerId ∧
      input.families.foldlM (writeFamily lower clock
        ⟨input.runId, observerId, run.runStartedAt, now, ids⟩) ⟨t, ∅, 0⟩ = .ok p' ∧
      t' = p'.tables := by
  unfold writeObservations at h
  split at h
  · cases h
  · next run hrun =>
    split at h
    · cases h
    · next hroot =>
      dsimp only at h
      split at h
      · cases h
      · next observerId hobserver =>
        obtain ⟨p', hp', hdone⟩ := ok_of_bind_ok h
        cases hdone
        exact ⟨run, observerId, _, p', hrun, not_not.mp hroot, rfl, hobserver, hp', rfl⟩

end SlashWho.CharacterConnections
