import SlashWho.SnapshotTables
import SlashWho.Fallible

/-!
The members of a stored snapshot: no character key twice, numbered from zero
without a gap in the order they joined, and as many as the snapshot counts.
Upserts keep the id and the key of every character row, and membership rows are
only ever appended, numbered on from the last one; so a create and an amend
both extend one numbered list. Whoever does not own the sweep's cursor amends
nothing.
-/

namespace SlashWho.Snapshots

open List Characters Fallible

/-- What holds of every snapshot's membership rows between transactions. -/
structure Numbered (t : SnapshotTables) : Prop where
  ids : (t.characters.map CharacterRow.id).Nodup
  keys : (t.characters.map CharacterRow.key).Nodup
  known : ∀ m ∈ t.memberships, m.characterId ∈ t.characters.map CharacterRow.id
  snapshotIds : (t.snapshots.map SnapshotRow.id).Nodup
  filed : ∀ m ∈ t.memberships, m.snapshotId ∈ t.snapshots.map SnapshotRow.id
  distinct : ∀ id, ((t.members id).map MembershipRow.characterId).Nodup
  orders : ∀ id, (t.members id).map MembershipRow.displayOrder =
    List.range (t.members id).length
  counts : ∀ s ∈ t.snapshots, s.characterCount = (t.members s.id).length

structure Untouched (t t' : SnapshotTables) : Prop where
  characters : t'.characters = t.characters
  snapshots : t'.snapshots = t.snapshots
  memberships : t'.memberships = t.memberships

variable {t t' : SnapshotTables}

theorem members_congr (h : t'.memberships = t.memberships) (id : ℕ) :
    t'.members id = t.members id := by
  unfold SnapshotTables.members
  rw [h]

theorem Numbered.untouched (h : Numbered t) (hu : Untouched t t') :
    Numbered t' where
  ids := by rw [hu.characters]; exact h.ids
  keys := by rw [hu.characters]; exact h.keys
  known := by rw [hu.characters, hu.memberships]; exact h.known
  snapshotIds := by rw [hu.snapshots]; exact h.snapshotIds
  filed := by rw [hu.snapshots, hu.memberships]; exact h.filed
  distinct id := by rw [members_congr hu.memberships]; exact h.distinct id
  orders id := by rw [members_congr hu.memberships]; exact h.orders id
  counts s hs := by
    rw [hu.snapshots] at hs
    rw [members_congr hu.memberships]
    exact h.counts s hs

/-! ### Character rows -/

/-- Character rows are updated in place or appended, and no id or key comes
twice. -/
structure Upserts (t t' : SnapshotTables) : Prop where
  snapshots : t'.snapshots = t.snapshots
  memberships : t'.memberships = t.memberships
  ids : (t.characters.map CharacterRow.id).Nodup → (t'.characters.map CharacterRow.id).Nodup
  keys : (t.characters.map CharacterRow.key).Nodup → (t'.characters.map CharacterRow.key).Nodup
  kept : ∀ id ∈ t.characters.map CharacterRow.id, id ∈ t'.characters.map CharacterRow.id

theorem Upserts.refl (t : SnapshotTables) : Upserts t t :=
  ⟨rfl, rfl, id, id, fun _ h => h⟩

theorem Upserts.trans {t'' : SnapshotTables} (h : Upserts t t') (h' : Upserts t' t'') :
    Upserts t t'' :=
  ⟨h'.snapshots.trans h.snapshots, h'.memberships.trans h.memberships,
    fun hn => h'.ids (h.ids hn), fun hn => h'.keys (h.keys hn),
    fun id hid => h'.kept id (h.kept id hid)⟩

theorem Numbered.upserts (h : Numbered t) (hu : Upserts t t') :
    Numbered t' where
  ids := hu.ids h.ids
  keys := hu.keys h.keys
  known m hm := by
    rw [hu.memberships] at hm
    exact hu.kept _ (h.known m hm)
  snapshotIds := by rw [hu.snapshots]; exact h.snapshotIds
  filed := by rw [hu.snapshots, hu.memberships]; exact h.filed
  distinct id := by rw [members_congr hu.memberships]; exact h.distinct id
  orders id := by rw [members_congr hu.memberships]; exact h.orders id
  counts s hs := by
    rw [hu.snapshots] at hs
    rw [members_congr hu.memberships]
    exact h.counts s hs

variable {character : SnapshotCharacterInput}

theorem upsertCharacter_ok {newCharacter id : ℕ}
    (h : upsertCharacter t character newCharacter = .ok (t', id)) :
    Upserts t t' ∧ id ∈ t'.characters.map CharacterRow.id := by
  unfold upsertCharacter at h
  cases hfind : t.characters.find? (fun row => row.key = character.key) with
  | some row =>
    rw [hfind] at h
    simp only [Except.ok.injEq, Prod.mk.injEq] at h
    obtain ⟨rfl, rfl⟩ := h
    have hmap {α : Type} (f : CharacterRow → α)
        (hf : ∀ row : CharacterRow, f (row.update character) = f row) :
        (t.characters.map (fun row =>
          if row.key = character.key then row.update character else row)).map f =
        t.characters.map f := by
      rw [map_map]
      apply map_congr_left
      intro row _
      by_cases hkey : row.key = character.key
      · simp [hkey, hf]
      · simp [hkey]
    have hids := hmap CharacterRow.id (fun _ => rfl)
    have hkeys := hmap CharacterRow.key (fun _ => rfl)
    refine ⟨⟨rfl, rfl, ?_, ?_, ?_⟩, ?_⟩
    · intro hn
      rw [hids]
      exact hn
    · intro hn
      rw [hkeys]
      exact hn
    · intro id hid
      rw [hids]
      exact hid
    · rw [hids]
      exact mem_map_of_mem (mem_of_find?_eq_some hfind)
  | none =>
    rw [hfind] at h
    by_cases hused : t.characters.any (fun row => row.id = newCharacter)
    · simp [hused] at h
    · simp only [hused, Bool.false_eq_true, if_false, Except.ok.injEq, Prod.mk.injEq] at h
      obtain ⟨rfl, rfl⟩ := h
      have hfresh : newCharacter ∉ t.characters.map CharacterRow.id := by
        simpa using hused
      have hnew : character.key ∉ t.characters.map CharacterRow.key := by
        simpa [find?_eq_none] using hfind
      refine ⟨⟨rfl, rfl, ?_, ?_, ?_⟩, ?_⟩
      · intro hn
        rw [map_append, nodup_append_comm]
        exact nodup_cons.mpr ⟨hfresh, hn⟩
      · intro hn
        rw [map_append, nodup_append_comm]
        exact nodup_cons.mpr ⟨hnew, hn⟩
      · intro id hid
        rw [map_append]
        exact mem_append_left _ hid
      · simp

/-- Every id handed to the membership rows names a character row. -/
def IdsKnown (t : SnapshotTables) (characterIds : OrderedMap String ℕ) : Prop :=
  ∀ identity id, characterIds.get? identity = some id → id ∈ t.characters.map CharacterRow.id

variable {characterIds : OrderedMap String ℕ}

variable {characters : List SnapshotCharacterInput}

theorem upsertCharacters_ok {newCharacter : ℕ → ℕ}
    (h : upsertCharacters t characters newCharacter = .ok (t', characterIds)) :
    Upserts t t' ∧ IdsKnown t' characterIds := by
  unfold upsertCharacters at h
  refine foldlM_keeps (f := upsertNext newCharacter)
    (P := fun acc => Upserts t acc.1 ∧ IdsKnown acc.1 acc.2) ?_ ?_ h
  · intro item _ acc acc' ⟨hacc, hknown⟩ hstep
    unfold upsertNext at hstep
    obtain ⟨⟨written, id⟩, hwrite, hstep⟩ := ok_of_bind_ok hstep
    simp only [Except.ok.injEq] at hstep
    subst hstep
    obtain ⟨hups, hid⟩ := upsertCharacter_ok hwrite
    refine ⟨hacc.trans hups, ?_⟩
    intro identity id' hid'
    rw [OrderedMap.get?_set] at hid'
    by_cases hsame : identity = characterIdentity item.1.key
    · simp only [hsame, if_true, Option.some.injEq] at hid'
      subst hid'
      exact hid
    · simp only [hsame, if_false] at hid'
      exact hups.kept _ (hknown identity id' hid')
  · refine ⟨Upserts.refl t, ?_⟩
    intro identity id hid
    simp at hid

/-! ### Membership rows -/

/-- Rows join a snapshot after the ones it has, numbered on and none twice. -/
structure Joins (snapshotId first : ℕ) (t t' : SnapshotTables) (rows : List MembershipRow) :
    Prop where
  written : t' = { t with memberships := t.memberships ++ rows }
  filed : ∀ row ∈ rows, row.snapshotId = snapshotId
  known : ∀ row ∈ rows, row.characterId ∈ t.characters.map CharacterRow.id
  orders : rows.map MembershipRow.displayOrder = List.range' first rows.length
  distinct : ((t.members snapshotId).map MembershipRow.characterId).Nodup →
    ((t.members snapshotId ++ rows).map MembershipRow.characterId).Nodup

variable {snapshotId : ℕ}

theorem members_append {rows : List MembershipRow} (h : t'.memberships = t.memberships ++ rows)
    (hfiled : ∀ row ∈ rows, row.snapshotId = snapshotId) (id : ℕ) :
    t'.members id = t.members id ++ if id = snapshotId then rows else [] := by
  unfold SnapshotTables.members
  rw [h, filter_append]
  congr 1
  by_cases hid : id = snapshotId
  · rw [if_pos hid, filter_eq_self]
    intro row hrow
    simp [hfiled row hrow, hid]
  · rw [if_neg hid, filter_eq_nil_iff]
    intro row hrow hcontra
    simp only [hfiled row hrow, decide_eq_true_eq] at hcontra
    exact hid hcontra.symm

variable {first : ℕ}

theorem insertMember_ok {item : SnapshotCharacterInput × ℕ} (hknown : IdsKnown t characterIds)
    (h : insertMember snapshotId first characterIds t item = .ok t') :
    ∃ row, Joins snapshotId (first + item.2) t t' [row] := by
  unfold insertMember at h
  cases hid : characterIds.get? (characterIdentity item.1.key) with
  | none => simp [hid] at h
  | some characterId =>
    rw [hid] at h
    dsimp only at h
    split at h
    · cases h
    · rename_i hfree
      simp only [Except.ok.injEq] at h
      subst h
      refine ⟨_, rfl, by simp, ?_, by simp, ?_⟩
      · intro row hrow
        rw [mem_singleton.mp hrow]
        exact hknown _ _ hid
      · intro hn
        rw [map_append, nodup_append_comm]
        refine nodup_cons.mpr ⟨?_, hn⟩
        intro hmem
        obtain ⟨m, hm, hsame⟩ := mem_map.mp hmem
        obtain ⟨hm, hfiled⟩ := mem_filter.mp hm
        apply hfree
        rw [any_eq_true]
        refine ⟨m, hm, ?_⟩
        simp only [decide_eq_true_eq] at hfiled
        simp [hfiled, hsame]

theorem insertMembers_ok (characters : List SnapshotCharacterInput) (k : ℕ)
    (hknown : IdsKnown t characterIds)
    (h : (characters.zipIdx k).foldlM (insertMember snapshotId first characterIds) t = .ok t') :
    ∃ rows, rows.length = characters.length ∧ Joins snapshotId (first + k) t t' rows := by
  induction characters generalizing k t with
  | nil =>
    cases h
    exact ⟨[], rfl, by simp, by simp, by simp, by simp, by simp⟩
  | cons character rest ih =>
    rw [zipIdx_cons, foldlM_cons] at h
    obtain ⟨u, hu, hrest⟩ := ok_of_bind_ok h
    obtain ⟨row, hrow⟩ := insertMember_ok hknown hu
    have hu' := hrow.written
    subst hu'
    have hknown' : IdsKnown { t with memberships := t.memberships ++ [row] } characterIds := hknown
    obtain ⟨rows, hlength, hrows⟩ := ih (k + 1) hknown' hrest
    have hadded : ({ t with memberships := t.memberships ++ [row] } : SnapshotTables).memberships =
        t.memberships ++ [row] := rfl
    have hmembers := members_append hadded hrow.filed snapshotId
    rw [if_pos rfl] at hmembers
    refine ⟨row :: rows, by simp [hlength], ?_, ?_, ?_, ?_, ?_⟩
    · rw [hrows.written]
      simp
    · intro r hr
      rcases mem_cons.mp hr with rfl | hr
      · exact hrow.filed r (by simp)
      · exact hrows.filed r hr
    · intro r hr
      rcases mem_cons.mp hr with rfl | hr
      · exact hrow.known r (by simp)
      · exact hrows.known r hr
    · have hfirst : row.displayOrder = first + k := by
        simpa using hrow.orders
      rw [map_cons, hrows.orders, hfirst, length_cons, range'_succ]
      rfl
    · intro hn
      have hone := hrow.distinct hn
      rw [← hmembers] at hone
      have hall := hrows.distinct hone
      rw [hmembers] at hall
      simpa using hall

theorem insertMembership_ok (hknown : IdsKnown t characterIds)
    (h : insertMembership t snapshotId first characters characterIds = .ok t') :
    ∃ rows, rows.length = characters.length ∧ Joins snapshotId first t t' rows := by
  obtain ⟨rows, hlength, hrows⟩ := insertMembers_ok characters 0 hknown h
  exact ⟨rows, hlength, hrows⟩

/-- Rows that join a snapshot from its number of members on, and are counted,
keep every snapshot numbered. -/
theorem Numbered.joins {u : SnapshotTables} {rows : List MembershipRow} (h : Numbered t)
    (hj : Joins snapshotId (t.members snapshotId).length t u rows)
    (hcharacters : t'.characters = u.characters) (hmemberships : t'.memberships = u.memberships)
    (hids : (t'.snapshots.map SnapshotRow.id).Nodup)
    (hkept : ∀ s ∈ t.snapshots, s.id ∈ t'.snapshots.map SnapshotRow.id)
    (hfiled : snapshotId ∈ t'.snapshots.map SnapshotRow.id)
    (hcounts : ∀ s ∈ t'.snapshots, s.characterCount =
      (t.members s.id).length + if s.id = snapshotId then rows.length else 0) :
    Numbered t' := by
  have hu := hj.written
  subst hu
  have hchars : t'.characters = t.characters := hcharacters
  have hrows : t'.memberships = t.memberships ++ rows := hmemberships
  have hmembers := members_append hrows hj.filed
  constructor
  · rw [hchars]
    exact h.ids
  · rw [hchars]
    exact h.keys
  · intro m hm
    rw [hrows, mem_append] at hm
    rw [hchars]
    rcases hm with hm | hm
    · exact h.known m hm
    · exact hj.known m hm
  · exact hids
  · intro m hm
    rw [hrows, mem_append] at hm
    rcases hm with hm | hm
    · obtain ⟨s, hs, hsid⟩ := mem_map.mp (h.filed m hm)
      rw [← hsid]
      exact hkept s hs
    · rw [hj.filed m hm]
      exact hfiled
  · intro id
    rw [hmembers]
    by_cases hid : id = snapshotId
    · rw [if_pos hid, hid]
      exact hj.distinct (h.distinct snapshotId)
    · rw [if_neg hid, append_nil]
      exact h.distinct id
  · intro id
    rw [hmembers]
    by_cases hid : id = snapshotId
    · rw [if_pos hid, hid, map_append, length_append, h.orders, hj.orders,
        range_eq_range', range_eq_range']
      have happend : List.range' 0 (t.members snapshotId).length ++
          List.range' (0 + (t.members snapshotId).length) rows.length =
          List.range' 0 ((t.members snapshotId).length + rows.length) := range'_append_1
      rw [Nat.zero_add] at happend
      exact happend
    · rw [if_neg hid, append_nil]
      exact h.orders id
  · intro s hs
    rw [hcounts s hs, hmembers]
    by_cases hid : s.id = snapshotId <;> simp [hid]

/-! ### The transactions -/

theorem publishRun_untouched {runId now : ℕ} (h : publishRun t runId snapshotId now = .ok t') :
    Untouched t t' := by
  unfold publishRun at h
  split at h
  · simp only [Except.ok.injEq] at h
    subst h
    exact ⟨rfl, rfl, rfl⟩
  · cases h

variable {fingerprint : FingerprintFinish} {g : Generated}

theorem finishSweep_untouched {cursor : FingerprintSweepCursor} {at_ : ℕ}
    (h : finishSweep t fingerprint cursor snapshotId at_ g = .ok t') :
    Untouched t t' := by
  unfold finishSweep at h
  split at h
  · cases h
  · simp only [Except.ok.injEq] at h
    subst h
    exact ⟨rfl, rfl, rfl⟩

theorem insertSnapshot_ok {row : SnapshotRow} (h : insertSnapshot t row = .ok t') :
    t' = { t with snapshots := t.snapshots ++ [row] } ∧
      row.id ∉ t.snapshots.map SnapshotRow.id := by
  unfold insertSnapshot at h
  split at h
  · cases h
  · split at h
    · cases h
    · rename_i hfree
      simp only [Except.ok.injEq] at h
      refine ⟨h.symm, ?_⟩
      intro hmem
      obtain ⟨s, hs, hsid⟩ := mem_map.mp hmem
      apply hfree
      rw [any_eq_true]
      exact ⟨s, hs, by simp [hsid]⟩

theorem Numbered.members_eq_nil (h : Numbered t) {id : ℕ}
    (hid : id ∉ t.snapshots.map SnapshotRow.id) : t.members id = [] := by
  unfold SnapshotTables.members
  rw [filter_eq_nil_iff]
  intro m hm hcontra
  simp only [decide_eq_true_eq] at hcontra
  apply hid
  rw [← hcontra]
  exact h.filed m hm

/-- The new snapshot starts empty, so its members number from zero and are as
many as its row counts. -/
theorem Numbered.createSnapshot {input : CreateSnapshotInput} {snapshot : StoredSnapshot}
    (h : Numbered t) (hwrite : createSnapshot t input g = .ok (t', snapshot)) : Numbered t' := by
  unfold Snapshots.createSnapshot at hwrite
  split at hwrite
  · cases hwrite
  · obtain ⟨⟨upserted, characterIds⟩, hupsert, hwrite⟩ := ok_of_bind_ok hwrite
    obtain ⟨hups, hknown⟩ := upsertCharacters_ok hupsert
    have hbase := h.upserts hups
    dsimp only at hwrite
    split at hwrite
    · cases hwrite
    · rename_i rootId hroot
      obtain ⟨inserted, hinsert, hwrite⟩ := ok_of_bind_ok hwrite
      obtain ⟨joined, hjoin, hwrite⟩ := ok_of_bind_ok hwrite
      obtain ⟨published, hpublish, hwrite⟩ := ok_of_bind_ok hwrite
      obtain ⟨hinserted, hfresh⟩ := insertSnapshot_ok hinsert
      have hknown' : IdsKnown (setRootCharacter inserted input.runId rootId) characterIds := by
        rw [hinserted]
        exact hknown
      obtain ⟨rows, hlength, hrows⟩ := insertMembership_ok hknown' hjoin
      have hend : published = t' := by
        split at hwrite
        · cases hwrite
        · simp only [Except.ok.injEq, Prod.mk.injEq] at hwrite
          exact hwrite.1
      subst hend
      rw [hinserted] at hrows
      have hjoined := hrows.written
      have hpub := publishRun_untouched hpublish
      have hnil := hbase.members_eq_nil hfresh
      dsimp only at hnil hfresh
      have hj : Joins g.newSnapshot (upserted.members g.newSnapshot).length upserted
          { upserted with memberships := upserted.memberships ++ rows } rows := by
        rw [hnil]
        exact ⟨rfl, hrows.filed, hrows.known, hrows.orders, hrows.distinct⟩
      have hsnaps : published.snapshots = upserted.snapshots ++ [
          { id := g.newSnapshot
            rootCharacterId := rootId
            discoveryRunId := input.runId
            state := input.state
            limitationCode := input.limitationCode
            refreshedAt := input.refreshedAt
            characterCount := input.characters.length }] := by
        rw [hpub.snapshots, hjoined]
        rfl
      apply hbase.joins hj
      · rw [hpub.characters, hjoined]
        rfl
      · rw [hpub.memberships, hjoined]
        rfl
      · rw [hsnaps, map_append, nodup_append_comm]
        exact nodup_cons.mpr ⟨hfresh, hbase.snapshotIds⟩
      · intro s hs
        rw [hsnaps, map_append]
        exact mem_append_left _ (mem_map_of_mem hs)
      · rw [hsnaps]
        simp
      · intro s hs
        rw [hsnaps, mem_append, mem_singleton] at hs
        rcases hs with hs | rfl
        · have hne : s.id ≠ g.newSnapshot := by
            intro heq
            apply hfresh
            rw [← heq]
            exact mem_map_of_mem hs
          rw [if_neg hne]
          exact hbase.counts s hs
        · simp only [hnil, length_nil, if_true, hlength]
          omega

theorem Numbered.nextOrder (h : Numbered t) (snapshotId : ℕ) :
    nextOrder t snapshotId = (t.members snapshotId).length := by
  unfold Snapshots.nextOrder
  rw [h.orders]
  cases hn : (t.members snapshotId).length with
  | zero => rfl
  | succ n =>
    have hmax : (List.range (n + 1)).max? = some n := by
      rw [max?_eq_some_iff]
      constructor
      · simp
      · intro b hb
        rw [mem_range] at hb
        omega
    rw [hmax]
    rfl

theorem Numbered.amend {cursor : FingerprintSweepCursor} {result : Option StoredSnapshot}
    (h : Numbered t)
    (hwrite : amendAndFinishFingerprintSweep t snapshotId characters fingerprint cursor g =
      .ok (t', result)) : Numbered t' := by
  unfold amendAndFinishFingerprintSweep at hwrite
  split at hwrite
  · cases hwrite
  · rename_i at_ _
    split at hwrite
    · cases hwrite
    · rename_i root hroot
      split at hwrite
      · simp only [Except.ok.injEq, Prod.mk.injEq] at hwrite
        rw [← hwrite.1]
        exact h
      · dsimp only at hwrite
        generalize additionsFrom _ characters = additions at hwrite
        obtain ⟨⟨upserted, characterIds⟩, hupsert, hwrite⟩ := ok_of_bind_ok hwrite
        obtain ⟨joined, hjoin, hwrite⟩ := ok_of_bind_ok hwrite
        obtain ⟨finished, hfinish, hwrite⟩ := ok_of_bind_ok hwrite
        obtain ⟨hups, hknown⟩ := upsertCharacters_ok hupsert
        have hbase := h.upserts hups
        obtain ⟨rows, hlength, hrows⟩ := insertMembership_ok hknown hjoin
        have hfound : snapshotId ∈ t.snapshots.map SnapshotRow.id := by
          obtain ⟨s, hs, _⟩ := Option.bind_eq_some_iff.mp hroot
          have hsid := find?_some hs
          simp only [decide_eq_true_eq] at hsid
          rw [← hsid]
          exact mem_map_of_mem (mem_of_find?_eq_some hs)
        have hend : finished = t' := by
          split at hwrite
          · cases hwrite
          · simp only [Except.ok.injEq, Prod.mk.injEq] at hwrite
            exact hwrite.1
        subst hend
        have hj : Joins snapshotId (upserted.members snapshotId).length upserted joined rows := by
          rw [members_congr hups.memberships, ← h.nextOrder]
          exact hrows
        have hjoined := hrows.written
        have hfin := finishSweep_untouched hfinish
        have hsnaps : finished.snapshots = upserted.snapshots.map
            (amendSnapshot snapshotId additions.length fingerprint.limitationCode) := by
          rw [hfin.snapshots, hjoined]
        have hids : finished.snapshots.map SnapshotRow.id =
            upserted.snapshots.map SnapshotRow.id := by
          rw [hsnaps, map_map]
          apply map_congr_left
          intro s _
          unfold amendSnapshot
          by_cases hs : s.id = snapshotId <;> simp [hs]
        apply hbase.joins hj hfin.characters hfin.memberships
        · rw [hids]
          exact hbase.snapshotIds
        · intro s hs
          rw [hids]
          exact mem_map_of_mem hs
        · rw [hids, hups.snapshots]
          exact hfound
        · intro s hs
          rw [hsnaps] at hs
          obtain ⟨old, hold, rfl⟩ := mem_map.mp hs
          have hcount := hbase.counts old hold
          unfold amendSnapshot
          by_cases hid : old.id = snapshotId
          · simp only [hid, if_true]
            rw [hid] at hcount
            omega
          · simp only [hid, if_false]
            omega

/-- The cursor of the snapshot's root extends this snapshot, which is the run's. -/
def OwnsCursor (t : SnapshotTables) (snapshotId runId : ℕ) : Prop :=
  ∃ s root state, t.findSnapshot snapshotId = some s ∧
    t.findCharacter s.rootCharacterId = some root ∧
    t.states.find? (fun state => state.key = root.key) = some state ∧
    state.resumeSnapshotId = some snapshotId ∧ s.discoveryRunId = runId

theorem amend_of_not_owner (h : ¬ OwnsCursor t snapshotId fingerprint.runId)
    (characters : List SnapshotCharacterInput) (cursor : FingerprintSweepCursor) (g : Generated) :
    withTransaction t
      (amendAndFinishFingerprintSweep t snapshotId characters fingerprint cursor g) = t := by
  unfold amendAndFinishFingerprintSweep
  split
  · rfl
  · split
    · rfl
    · rename_i root hroot
      obtain ⟨s, hs, hroot⟩ := Option.bind_eq_some_iff.mp hroot
      have howns : ownsSweepCursor t root.key snapshotId fingerprint.runId = false := by
        rw [Bool.eq_false_iff]
        intro howns
        apply h
        unfold ownsSweepCursor at howns
        split at howns
        · cases howns
        · rename_i state hstate
          simp only [Bool.and_eq_true, decide_eq_true_eq] at howns
          obtain ⟨hresume, hrun⟩ := howns
          rw [hresume, Option.bind_some, hs, Option.map_some, Option.some.injEq] at hrun
          exact ⟨s, root, state, hs, hroot, hstate, hresume, hrun⟩
      rw [howns]
      rfl

theorem Numbered.ensure {newCharacter id : ℕ} (h : Numbered t)
    (hwrite : ensureCharacter t character newCharacter = .ok (t', id)) : Numbered t' := by
  unfold ensureCharacter at hwrite
  split at hwrite
  · simp only [Except.ok.injEq, Prod.mk.injEq] at hwrite
    rw [← hwrite.1]
    exact h
  · exact h.upserts (upsertCharacter_ok hwrite).1

theorem Numbered.transaction {α : Type} {work : Except SnapshotError (SnapshotTables × α)}
    (h : Numbered t) (hwork : ∀ t' result, work = .ok (t', result) → Numbered t') :
    Numbered (withTransaction t work) := by
  unfold withTransaction
  split
  · rename_i written result
    exact hwork written result rfl
  · exact h

/-! ### Every run of transactions -/

/-- One transaction: a create, alone or with the end of its sweep, an amend, a
character's row made for another reason, or one that writes none of the three
tables. -/
inductive Step : SnapshotTables → SnapshotTables → Prop
  | create (t : SnapshotTables) (input : CreateSnapshotInput) (g : Generated) :
      Step t (withTransaction t (createSnapshot t input g))
  | createAndFinish (t : SnapshotTables) (input : CreateSnapshotInput)
      (fingerprint : FingerprintFinish) (cursor : FingerprintSweepCursor) (g : Generated) :
      Step t (withTransaction t (createAndFinishFingerprintSweep t input fingerprint cursor g))
  | amendAndFinish (t : SnapshotTables) (snapshotId : ℕ)
      (characters : List SnapshotCharacterInput) (fingerprint : FingerprintFinish)
      (cursor : FingerprintSweepCursor) (g : Generated) :
      Step t (withTransaction t
        (amendAndFinishFingerprintSweep t snapshotId characters fingerprint cursor g))
  | ensure (t : SnapshotTables) (character : SnapshotCharacterInput) (newCharacter : ℕ) :
      Step t (withTransaction t (ensureCharacter t character newCharacter))
  | elsewhere (t t' : SnapshotTables) (h : Untouched t t') : Step t t'

/-- No snapshot yet, and no character. -/
def Fresh (t : SnapshotTables) : Prop :=
  t.characters = [] ∧ t.snapshots = [] ∧ t.memberships = []

inductive Reachable : SnapshotTables → Prop
  | fresh {t : SnapshotTables} (h : Fresh t) : Reachable t
  | step {t t' : SnapshotTables} (h : Reachable t) (hstep : Step t t') : Reachable t'

theorem Fresh.numbered (h : Fresh t) : Numbered t := by
  obtain ⟨hcharacters, hsnapshots, hmemberships⟩ := h
  have hmembers (id : ℕ) : t.members id = [] := by
    unfold SnapshotTables.members
    rw [hmemberships]
    rfl
  constructor <;> simp [hcharacters, hsnapshots, hmemberships, hmembers]

theorem Numbered.step (h : Numbered t) (hstep : Step t t') :
    Numbered t' := by
  cases hstep with
  | create input g =>
    apply h.transaction
    intro t' snapshot hwrite
    exact h.createSnapshot hwrite
  | createAndFinish input fingerprint cursor g =>
    apply h.transaction
    intro t' snapshot hwrite
    unfold createAndFinishFingerprintSweep at hwrite
    split at hwrite
    · cases hwrite
    · obtain ⟨⟨created, made⟩, hcreate, hwrite⟩ := ok_of_bind_ok hwrite
      obtain ⟨finished, hfinish, hwrite⟩ := ok_of_bind_ok hwrite
      simp only [Except.ok.injEq, Prod.mk.injEq] at hwrite
      rw [← hwrite.1]
      exact (h.createSnapshot hcreate).untouched (finishSweep_untouched hfinish)
  | amendAndFinish snapshotId characters fingerprint cursor g =>
    apply h.transaction
    intro t' result hwrite
    exact h.amend hwrite
  | ensure character newCharacter =>
    apply h.transaction
    intro t' id hwrite
    exact h.ensure hwrite
  | elsewhere _ hu => exact h.untouched hu

theorem numbered_of_reachable (h : Reachable t) : Numbered t := by
  induction h with
  | fresh hfresh => exact hfresh.numbered
  | step _ hstep ih => exact ih.step hstep

theorem Numbered.memberKey_eq_some (h : Numbered t) {m : MembershipRow} (hm : m ∈ t.memberships) :
    ∃ c ∈ t.characters, c.id = m.characterId ∧ t.memberKey m = some c.key := by
  obtain ⟨c, hc, hid⟩ := mem_map.mp (h.known m hm)
  refine ⟨c, hc, hid, ?_⟩
  unfold SnapshotTables.memberKey SnapshotTables.findCharacter
  rw [← hid, find?_eq_some_of_nodup CharacterRow.id h.ids hc]
  rfl

/-- A key names one character row and a snapshot has that row once, so its
members have different keys. -/
theorem Numbered.nodup_memberKeys (h : Numbered t) (id : ℕ) :
    ((t.members id).map t.memberKey).Nodup := by
  have hdistinct := h.distinct id
  apply List.Nodup.map_on _ hdistinct.of_map
  intro m hm m' hm' heq
  obtain ⟨c, hc, hid, hkey⟩ := h.memberKey_eq_some (mem_filter.mp hm).1
  obtain ⟨c', hc', hid', hkey'⟩ := h.memberKey_eq_some (mem_filter.mp hm').1
  rw [hkey, hkey', Option.some.injEq] at heq
  have hsame : c = c' := inj_on_of_nodup_map h.keys hc hc' heq
  apply inj_on_of_nodup_map hdistinct hm hm'
  rw [← hid, ← hid', hsame]

/-- In every run of transactions each snapshot's members have different
character keys, are numbered from zero in the order they joined, and are as
many as it counts; and an amend by a caller without the cursor changes
nothing. -/
theorem snapshot_members_numbered (t : SnapshotTables) (h : Reachable t) :
    (∀ s ∈ t.snapshots,
      ((t.members s.id).map t.memberKey).Nodup ∧
      (∀ m ∈ t.members s.id, (t.memberKey m).isSome) ∧
      (t.members s.id).map MembershipRow.displayOrder = List.range (t.members s.id).length ∧
      s.characterCount = (t.members s.id).length) ∧
    (∀ snapshotId characters fingerprint cursor g,
      ¬ OwnsCursor t snapshotId fingerprint.runId →
      withTransaction t
        (amendAndFinishFingerprintSweep t snapshotId characters fingerprint cursor g) = t) := by
  have hnumbered := numbered_of_reachable h
  constructor
  · intro s hs
    refine ⟨hnumbered.nodup_memberKeys s.id, ?_, hnumbered.orders s.id, hnumbered.counts s hs⟩
    intro m hm
    obtain ⟨c, _, _, hkey⟩ := hnumbered.memberKey_eq_some (mem_filter.mp hm).1
    rw [hkey]
    rfl
  · intro snapshotId characters fingerprint cursor g howns
    exact amend_of_not_owner howns characters cursor g

def sampleCharacter (name : String) (source : DiscoverySource) : SnapshotCharacterInput where
  key := ⟨.eu, "draenor", name⟩
  displayName := name
  className := "Mage"
  level := 80
  guild := none
  raiderIoUrl := "https://raider.io/characters/eu/draenor/" ++ name
  source := source

/-- One run at work for its root, and nothing stored. -/
def sampleTables : SnapshotTables where
  characters := []
  runs := [⟨1, ⟨.eu, "draenor", "thrall"⟩, none, .running, 1, none, none, none, none⟩]
  snapshots := []
  memberships := []
  suppressions := []
  states := []
  admissions := []
  reservations := []
  requestEvents := []
  nextQueueOrder := 0

def sampleInput : CreateSnapshotInput where
  runId := 1
  rootKey := ⟨.eu, "draenor", "thrall"⟩
  state := .complete
  limitationCode := none
  refreshedAt := 5
  characters := [sampleCharacter "thrall" .input, sampleCharacter "jaina" .claimed]

def sampleGenerated : Generated := ⟨5, fun n => n + 10, 7, 8⟩

theorem snapshot_members_numbered_create :
    (withTransaction sampleTables
      (createSnapshot sampleTables sampleInput sampleGenerated)).snapshots.map SnapshotRow.id =
        [7] ∧
    ∀ s ∈ (withTransaction sampleTables
      (createSnapshot sampleTables sampleInput sampleGenerated)).snapshots,
      s.characterCount = ((withTransaction sampleTables
        (createSnapshot sampleTables sampleInput sampleGenerated)).members s.id).length := by
  constructor
  · decide +kernel
  · intro s hs
    have hreach : Reachable (withTransaction sampleTables
        (createSnapshot sampleTables sampleInput sampleGenerated)) :=
      .step (.fresh ⟨rfl, rfl, rfl⟩) (.create sampleTables sampleInput sampleGenerated)
    exact ((snapshot_members_numbered _ hreach).1 s hs).2.2.2

end SlashWho.Snapshots
