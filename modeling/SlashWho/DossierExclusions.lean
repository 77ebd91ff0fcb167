import SlashWho.DossierConnections

/-!
What excluding or including one name leaves behind. A linked name carries the flag, a name
that discovery found is in the exclusions exactly when it was excluded, every other name is
as it was, and doing the same again changes nothing.
-/

namespace SlashWho.DossierConnections

open List

variable {lower : String → String} (s : Dossiers lower) (root : LookupKey lower)

def linked : List (LookupKey lower) := (s.rows root).keys

/-- What the reader takes for excluded: an exclusion, or a link that carries the flag. -/
def Hidden (key : LookupKey lower) : Prop :=
  key ∈ listDiscoveredExclusions s root ∨
    ∃ row, (s.rows root).get? key = some row ∧ row.excluded = true

variable {s root}

variable {key : LookupKey lower}

theorem mem_linked_iff :
    key ∈ linked s root ↔ ∃ row, (s.rows root).get? key = some row :=
  OrderedMap.mem_keys_iff _ _

theorem get?_eq_none_iff :
    (s.rows root).get? key = none ↔ key ∉ linked s root := by
  rw [mem_linked_iff]
  cases (s.rows root).get? key <;> simp

theorem hasRow_of_linked (h : key ∈ linked s root) :
    s.hasRow root = true := by
  by_contra hrow
  have hrows : s.rows root = .empty := if_neg hrow
  unfold linked at h
  rw [hrows] at h
  exact absurd h not_mem_nil

theorem rows_of_hasRow (h : s.hasRow root = true) : s.rows root = s.connections root := if_pos h

theorem mem_listDiscoveredExclusions :
    key ∈ listDiscoveredExclusions s root ↔
      s.hasRow root = true ∧ key ∈ s.exclusions root := by
  unfold listDiscoveredExclusions
  by_cases hrow : s.hasRow root = true
  · rw [if_pos hrow]
    exact ⟨fun h => ⟨hrow, h⟩, fun h => h.2⟩
  · rw [if_neg hrow]
    constructor
    · intro h
      exact absurd h not_mem_nil
    · intro h
      exact absurd h.1 hrow

theorem dossierKeys_eq (s : Dossiers lower) (root : LookupKey lower) :
    dossierKeys s root = currentKeys s.discovery root ++ (linked s root).flatMap (fun key =>
      key :: if (s.discovery.characters key).isNone then []
        else currentKeys s.discovery key) := by
  unfold dossierKeys list linked OrderedMap.keys
  rw [flatMap_map, flatMap_map]
  rfl

theorem isConnectedToDossier_iff {target : LookupKey lower} :
    isConnectedToDossier s root target = true ↔
      target = root ∨ target ∈ dossierKeys s root := by
  unfold isConnectedToDossier dossierKeys
  simp only [LookupKey.id_eq_iff, Bool.or_eq_true, decide_eq_true_eq, any_eq_true,
    mem_append, mem_flatMap, mem_cons]
  constructor
  · rintro ((h | ⟨key, hin, rfl⟩) | ⟨connection, hin, h | ⟨key, hkey, rfl⟩⟩)
    · exact .inl h
    · exact .inr (.inl hin)
    · exact .inr (.inr ⟨connection, hin, .inl h.symm⟩)
    · exact .inr (.inr ⟨connection, hin, .inr hkey⟩)
  · rintro (h | h | ⟨connection, hin, h | h⟩)
    · exact .inl (.inl h)
    · exact .inl (.inr ⟨target, h, rfl⟩)
    · exact .inr ⟨connection, hin, .inl h.symm⟩
    · exact .inr ⟨connection, hin, .inr ⟨target, h, rfl⟩⟩

/-- Two states that hold the same dossier at a root, whatever is excluded from it. -/
structure SameDossier (root : LookupKey lower) (s s' : Dossiers lower) : Prop where
  discovery : s'.discovery = s.discovery
  linked : linked s' root = linked s root

theorem SameDossier.refl (s : Dossiers lower) : SameDossier root s s := ⟨rfl, rfl⟩

variable {s' : Dossiers lower}

theorem SameDossier.trans {s s'' : Dossiers lower} (h : SameDossier root s s')
    (h' : SameDossier root s' s'') : SameDossier root s s'' :=
  ⟨h'.discovery.trans h.discovery, h'.linked.trans h.linked⟩

theorem SameDossier.hasRow (h : SameDossier root s s') :
    s'.hasRow root = s.hasRow root := by
  unfold Dossiers.hasRow
  rw [h.discovery]

theorem SameDossier.dossierKeys (h : SameDossier root s s') :
    dossierKeys s' root = dossierKeys s root := by
  rw [dossierKeys_eq, dossierKeys_eq, h.discovery, h.linked]

theorem SameDossier.isConnected (h : SameDossier root s s') (target : LookupKey lower) :
    isConnectedToDossier s' root target = isConnectedToDossier s root target := by
  rw [Bool.eq_iff_iff, isConnectedToDossier_iff, isConnectedToDossier_iff, h.dossierKeys]

theorem SameDossier.sharedIdentityKeys (h : SameDossier root s s') (target : LookupKey lower) :
    sharedIdentityKeys s' root target = sharedIdentityKeys s root target := by
  unfold DossierConnections.sharedIdentityKeys
  rw [h.dossierKeys, h.discovery]

/-- A name as an exclude, or an include, leaves it. -/
structure Settled (s : Dossiers lower) (root : LookupKey lower) (excluded : Bool)
    (key : LookupKey lower) : Prop where
  flag : ∀ row, (s.rows root).get? key = some row → row.excluded = excluded
  exclusion : key ∉ linked s root → s.hasRow root = true →
    isConnectedToDossier s root key = true → (key ∈ s.exclusions root ↔ excluded = true)

theorem rows_setRow {row : ConnectionRow} (h : s.hasRow root = true) :
    (s.setRow root key row).rows root = (s.rows root).set key row := by
  have h' : (s.setRow root key row).hasRow root = true := h
  rw [rows_of_hasRow h', rows_of_hasRow h]
  exact Function.update_self root _ s.connections

theorem sameDossier_setRow (row : ConnectionRow) (h : key ∈ linked s root) :
    SameDossier root s (s.setRow root key row) := by
  refine ⟨rfl, ?_⟩
  unfold linked
  rw [rows_setRow (hasRow_of_linked h), OrderedMap.keys_set]
  exact if_pos h

theorem sameDossier_setExclusions (keys : List (LookupKey lower)) :
    SameDossier root s (s.setExclusions root keys) := ⟨rfl, rfl⟩

/-- What excluding one name can do: flag its link, record or delete its exclusion, or
nothing. -/
inductive Excludes (s : Dossiers lower) (root : LookupKey lower) (excluded : Bool)
    (key : LookupKey lower) : Dossiers lower × Bool → Prop
  | flagged (row : ConnectionRow) (hrow : (s.rows root).get? key = some row) :
      Excludes s root excluded key
        (s.setRow root key { row with excluded := excluded }, true)
  | recorded (hnew : key ∉ linked s root) (hin : isConnectedToDossier s root key = true)
      (hexcluded : excluded = true) (hroot : s.hasRow root = true)
      (hfresh : key ∉ s.exclusions root) :
      Excludes s root excluded key
        (s.setExclusions root (s.exclusions root ++ [key]), true)
  | repeated (hnew : key ∉ linked s root) (hin : isConnectedToDossier s root key = true)
      (hexcluded : excluded = true)
      (hheld : s.hasRow root = true → key ∈ s.exclusions root) :
      Excludes s root excluded key (s, false)
  | deleted (hnew : key ∉ linked s root) (hin : isConnectedToDossier s root key = true)
      (hincluded : excluded = false) (hroot : s.hasRow root = true) :
      Excludes s root excluded key
        (s.setExclusions root ((s.exclusions root).filter (fun other => other ≠ key)), true)
  | rowless (hnew : key ∉ linked s root) (hin : isConnectedToDossier s root key = true)
      (hincluded : excluded = false) (hroot : s.hasRow root = false) :
      Excludes s root excluded key (s, true)
  | unconnected (hnew : key ∉ linked s root)
      (hout : isConnectedToDossier s root key = false) :
      Excludes s root excluded key (s, false)

theorem exclude_spec (s : Dossiers lower) (root : LookupKey lower) (excluded : Bool)
    (key : LookupKey lower) : Excludes s root excluded key (exclude s root excluded key) := by
  unfold exclude setExcluded
  cases hrow : (s.rows root).get? key with
  | some row => exact .flagged row hrow
  | none =>
    have hnew := get?_eq_none_iff.mp hrow
    dsimp only
    by_cases hin : isConnectedToDossier s root key = true
    · rw [if_pos hin]
      unfold setDiscoveredExcluded
      cases excluded with
      | true =>
        rw [if_pos rfl]
        by_cases hfresh : s.hasRow root = true ∧ key ∉ s.exclusions root
        · rw [if_pos hfresh]
          exact .recorded hnew hin rfl hfresh.1 hfresh.2
        · rw [if_neg hfresh]
          refine .repeated hnew hin rfl ?_
          intro hroot
          by_contra hheld
          exact hfresh ⟨hroot, hheld⟩
      | false =>
        rw [if_neg Bool.false_ne_true]
        by_cases hroot : s.hasRow root = true
        · rw [if_pos hroot]
          exact .deleted hnew hin rfl hroot
        · rw [if_neg hroot]
          exact .rowless hnew hin rfl (Bool.eq_false_iff.mpr hroot)
    · rw [if_neg hin]
      exact .unconnected hnew (Bool.eq_false_iff.mpr hin)

theorem sameDossier_exclude (excluded : Bool) (key : LookupKey lower) :
    SameDossier root s (exclude s root excluded key).1 := by
  have hspec := exclude_spec s root excluded key
  generalize exclude s root excluded key = result at hspec
  cases hspec with
  | flagged row hrow => exact sameDossier_setRow _ (mem_linked_iff.mpr ⟨row, hrow⟩)
  | recorded => exact sameDossier_setExclusions _
  | repeated => exact SameDossier.refl s
  | deleted => exact sameDossier_setExclusions _
  | rowless => exact SameDossier.refl s
  | unconnected => exact SameDossier.refl s

theorem settled_exclude_self (s : Dossiers lower) (root : LookupKey lower) (excluded : Bool)
    (key : LookupKey lower) : Settled (exclude s root excluded key).1 root excluded key := by
  have hspec := exclude_spec s root excluded key
  generalize exclude s root excluded key = result at hspec
  have hflag : ∀ {s' : Dossiers lower}, key ∉ linked s' root →
      ∀ row, (s'.rows root).get? key = some row → row.excluded = excluded := by
    intro s' hnew row hrow
    exact absurd (mem_linked_iff.mpr ⟨row, hrow⟩) hnew
  cases hspec with
  | flagged row hrow =>
    have hin := mem_linked_iff.mpr ⟨row, hrow⟩
    constructor
    · intro row' hrow'
      rw [rows_setRow (hasRow_of_linked hin), OrderedMap.get?_set_self,
        Option.some.injEq] at hrow'
      rw [← hrow']
    · intro hnew
      rw [(sameDossier_setRow _ hin).linked] at hnew
      exact absurd hin hnew
  | recorded hnew hin hexcluded =>
    refine ⟨hflag hnew, ?_⟩
    intro _ _ _
    unfold Dossiers.setExclusions
    simp [hexcluded]
  | repeated hnew hin hexcluded hheld =>
    refine ⟨hflag hnew, ?_⟩
    intro _ hroot _
    exact ⟨fun _ => hexcluded, fun _ => hheld hroot⟩
  | deleted hnew hin hincluded =>
    refine ⟨hflag hnew, ?_⟩
    intro _ _ _
    unfold Dossiers.setExclusions
    simp [hincluded]
  | rowless hnew hin hincluded hroot =>
    refine ⟨hflag hnew, ?_⟩
    intro _ hroot'
    rw [hroot] at hroot'
    cases hroot'
  | unconnected hnew hout =>
    refine ⟨hflag hnew, ?_⟩
    intro _ _ hin
    rw [hout] at hin
    cases hin

variable {excluded : Bool} {other : LookupKey lower}

/-- The flag and the exclusion of another name. -/
theorem exclude_other (hne : other ≠ key) :
    ((exclude s root excluded key).1.rows root).get? other = (s.rows root).get? other ∧
      (other ∈ (exclude s root excluded key).1.exclusions root ↔
        other ∈ s.exclusions root) := by
  have hspec := exclude_spec s root excluded key
  generalize exclude s root excluded key = result at hspec
  cases hspec with
  | flagged row hrow =>
    refine ⟨?_, Iff.rfl⟩
    rw [rows_setRow (hasRow_of_linked (mem_linked_iff.mpr ⟨row, hrow⟩)),
      OrderedMap.get?_set_ne _ _ hne]
  | recorded =>
    refine ⟨rfl, ?_⟩
    unfold Dossiers.setExclusions
    simp [hne]
  | repeated => exact ⟨rfl, Iff.rfl⟩
  | deleted =>
    refine ⟨rfl, ?_⟩
    unfold Dossiers.setExclusions
    simp [hne]
  | rowless => exact ⟨rfl, Iff.rfl⟩
  | unconnected => exact ⟨rfl, Iff.rfl⟩

/-- A linked name's exclusion is neither recorded nor deleted. -/
theorem exclude_linked (h : other ∈ linked s root) :
    other ∈ (exclude s root excluded key).1.exclusions root ↔ other ∈ s.exclusions root := by
  by_cases hother : other = key
  · subst hother
    have hspec := exclude_spec s root excluded other
    generalize exclude s root excluded other = result at hspec
    cases hspec with
    | flagged => exact Iff.rfl
    | recorded hnew => exact absurd h hnew
    | repeated => exact Iff.rfl
    | deleted hnew => exact absurd h hnew
    | rowless => exact Iff.rfl
    | unconnected => exact Iff.rfl
  · exact (exclude_other hother).2

theorem Settled.exclude (h : Settled s root excluded other) :
    Settled (exclude s root excluded key).1 root excluded other := by
  by_cases hother : other = key
  · subst hother
    exact settled_exclude_self s root excluded other
  · have hsame := @sameDossier_exclude lower s root excluded key
    obtain ⟨hrow, hexclusion⟩ := @exclude_other lower s root key excluded other
      hother
    constructor
    · intro row hheld
      rw [hrow] at hheld
      exact h.flag row hheld
    · intro hnew hroot hin
      rw [hsame.linked] at hnew
      rw [hsame.hasRow] at hroot
      rw [hsame.isConnected] at hin
      rw [hexclusion]
      exact h.exclusion hnew hroot hin

theorem exclude_of_settled (h : Settled s root excluded key) :
    (exclude s root excluded key).1 = s := by
  have hspec := exclude_spec s root excluded key
  generalize exclude s root excluded key = result at hspec
  cases hspec with
  | flagged row hrow =>
    have hflag : { row with excluded := excluded } = row := by
      rw [← h.flag row hrow]
    have hrows := rows_of_hasRow (hasRow_of_linked (mem_linked_iff.mpr ⟨row, hrow⟩))
    rw [hrows] at hrow
    unfold Dossiers.setRow
    rw [hflag, OrderedMap.set_of_get? hrow, Function.update_eq_self]
  | recorded hnew hin hexcluded hroot hfresh =>
    exact absurd ((h.exclusion hnew hroot hin).mpr hexcluded) hfresh
  | repeated => rfl
  | deleted hnew hin hincluded hroot =>
    have hout : key ∉ s.exclusions root := by
      rw [h.exclusion hnew hroot hin, hincluded]
      exact Bool.false_ne_true
    have hfilter : (s.exclusions root).filter (fun other => other ≠ key) =
        s.exclusions root := by
      rw [filter_eq_self]
      intro other hother
      rw [decide_eq_true_eq]
      intro heq
      exact hout (heq ▸ hother)
    unfold Dossiers.setExclusions
    rw [hfilter, Function.update_eq_self]
  | rowless => rfl
  | unconnected => rfl

theorem excludeAll_cons (excluded : Bool) (key : LookupKey lower)
    (keys : List (LookupKey lower)) :
    excludeAll s root excluded (key :: keys) =
      excludeAll (exclude s root excluded key).1 root excluded keys := rfl

theorem sameDossier_excludeAll (excluded : Bool) (keys : List (LookupKey lower)) :
    SameDossier root s (excludeAll s root excluded keys) := by
  induction keys generalizing s with
  | nil => exact SameDossier.refl s
  | cons key rest ih =>
    rw [excludeAll_cons]
    exact (sameDossier_exclude excluded key).trans ih

theorem Settled.excludeAll (h : Settled s root excluded other) (keys : List (LookupKey lower)) :
    Settled (excludeAll s root excluded keys) root excluded other := by
  induction keys generalizing s with
  | nil => exact h
  | cons key rest ih =>
    rw [excludeAll_cons]
    exact ih h.exclude

variable {keys : List (LookupKey lower)}

theorem settled_excludeAll (h : other ∈ keys) :
    Settled (DossierConnections.excludeAll s root excluded keys) root excluded other := by
  induction keys generalizing s with
  | nil => cases h
  | cons key rest ih =>
    rw [excludeAll_cons]
    rcases mem_cons.mp h with rfl | hrest
    · exact (settled_exclude_self s root excluded other).excludeAll rest
    · exact ih hrest

theorem excludeAll_of_settled (h : ∀ key ∈ keys, Settled s root excluded key) :
    DossierConnections.excludeAll s root excluded keys = s := by
  induction keys with
  | nil => rfl
  | cons key rest ih =>
    rw [excludeAll_cons, exclude_of_settled (h key mem_cons_self)]
    exact ih (fun other hother => h other (mem_cons_of_mem _ hother))

theorem excludeAll_other (h : other ∉ keys) :
    ((DossierConnections.excludeAll s root excluded keys).rows root).get? other =
        (s.rows root).get? other ∧
      (other ∈ (DossierConnections.excludeAll s root excluded keys).exclusions root ↔
        other ∈ s.exclusions root) := by
  induction keys generalizing s with
  | nil => exact ⟨rfl, Iff.rfl⟩
  | cons key rest ih =>
    rw [mem_cons, not_or] at h
    rw [excludeAll_cons]
    obtain ⟨hrow, hexclusion⟩ := ih (s := (DossierConnections.exclude s root excluded key).1) h.2
    obtain ⟨hrow', hexclusion'⟩ := @exclude_other lower s root key excluded other
      h.1
    exact ⟨hrow.trans hrow', hexclusion.trans hexclusion'⟩

theorem excludeAll_linked (h : other ∈ linked s root) :
    other ∈ (DossierConnections.excludeAll s root excluded keys).exclusions root ↔
      other ∈ s.exclusions root := by
  induction keys generalizing s with
  | nil => exact Iff.rfl
  | cons key rest ih =>
    rw [excludeAll_cons]
    have hsame := @sameDossier_exclude lower s root excluded key
    have h' : other ∈ linked (DossierConnections.exclude s root excluded key).1 root := by
      rw [hsame.linked]
      exact h
    exact (ih h').trans (exclude_linked h)

/-- The id read back for a key that was asked for. -/
theorem recordedId_eq (d : Discovery lower) (keys : List (LookupKey lower)) (h : key ∈ keys) :
    recordedId (d.warcraftLogsCharacterIds keys) key = d.characterId key := by
  unfold recordedId Discovery.warcraftLogsCharacterIds
  induction keys with
  | nil => cases h
  | cons first rest ih =>
    by_cases hfirst : key = first
    · subst hfirst
      cases hid : d.characterId key with
      | none =>
        rw [filterMap_cons_none (by simp [hid]), Option.map_eq_none_iff,
          find?_eq_none]
        intro entry hentry
        obtain ⟨other, _, hother⟩ := mem_filterMap.mp hentry
        obtain ⟨characterId, hcharacterId, rfl⟩ := Option.map_eq_some_iff.mp hother
        intro heq
        obtain rfl : other = key := by simpa using heq
        rw [hid] at hcharacterId
        cases hcharacterId
      | some characterId =>
        rw [filterMap_cons_some (b := (key, characterId)) (by simp [hid])]
        simp
    · have hrest := ih ((mem_cons.mp h).resolve_left hfirst)
      cases hid : d.characterId first with
      | none => rw [filterMap_cons_none (by simp [hid]), hrest]
      | some characterId =>
        have hne : ¬ first = key := fun heq => hfirst heq.symm
        rw [filterMap_cons_some (b := (first, characterId)) (by simp [hid]),
          find?_cons_of_neg (by simpa using hne), hrest]

theorem mem_sharedFrom (idOf : LookupKey lower → Option ℕ) (targetId : ℕ)
    (excludedIds : List Characters.CanonicalId) (keys : List (LookupKey lower)) :
    key ∈ sharedFrom idOf targetId excludedIds keys ↔
      key ∈ keys ∧ key.id ∉ excludedIds ∧ idOf key = some targetId := by
  induction keys generalizing excludedIds with
  | nil => simp [sharedFrom]
  | cons first rest ih =>
    unfold sharedFrom
    by_cases hskip : first.id ∈ excludedIds ∨ idOf first ≠ some targetId
    · rw [if_pos hskip, ih, mem_cons]
      constructor
      · rintro ⟨hin, hrest⟩
        exact ⟨.inr hin, hrest⟩
      · rintro ⟨rfl | hin, hnew, hid⟩
        · rcases hskip with hskip | hskip
          · exact absurd hskip hnew
          · exact absurd hid hskip
        · exact ⟨hin, hnew, hid⟩
    · rw [not_or, not_not] at hskip
      rw [if_neg (by rw [not_or, not_not]; exact hskip), mem_cons, mem_cons, ih,
        mem_cons, LookupKey.id_eq_iff]
      by_cases hfirst : key = first
      · subst hfirst
        simp [hskip.1, hskip.2]
      · simp [hfirst]

/-- Two names of one character, by the id recorded for both. -/
def SharesId (d : Discovery lower) (key other : LookupKey lower) : Prop :=
  ∃ characterId, d.characterId key = some characterId ∧ d.characterId other = some characterId

theorem mem_sharedIdentityKeys {target : LookupKey lower} :
    key ∈ sharedIdentityKeys s root target ↔
      key ∈ dossierKeys s root ∧ key ≠ root ∧ key ≠ target ∧
        SharesId s.discovery target key := by
  unfold sharedIdentityKeys SharesId
  dsimp only
  rw [recordedId_eq _ _ mem_cons_self]
  cases hid : s.discovery.characterId target with
  | none => simp
  | some targetId =>
    dsimp only
    rw [mem_sharedFrom]
    simp only [mem_cons, not_mem_nil, or_false, LookupKey.id_eq_iff, not_or,
      Option.some.injEq]
    constructor
    · rintro ⟨hin, ⟨hroot, htarget⟩, hshared⟩
      rw [recordedId_eq _ _ (mem_cons_of_mem _ hin)] at hshared
      exact ⟨hin, hroot, htarget, targetId, rfl, hshared⟩
    · rintro ⟨hin, hroot, htarget, characterId, rfl, hshared⟩
      rw [recordedId_eq _ _ (mem_cons_of_mem _ hin)]
      exact ⟨hin, ⟨hroot, htarget⟩, hshared⟩

end SlashWho.DossierConnections
