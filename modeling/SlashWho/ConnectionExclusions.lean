import SlashWho.DossierSubjects

/-!
Whether an exclusion that was answered as updated is what the dossier then shows, and is
answered so again. It is shown as long as the name's link carries it and no exclusion is left
beside a link on its row. The exclusion of a discovered name is answered once only, and a
name that was excluded before it was linked stays hidden by the exclusion that an include of
the link does not delete.
-/

namespace SlashWho.ConnectionExclusions

open DossierConnections DossierSubjects

variable {lower : String → String}

/-- What a call that answers as updated promises: the character is listed as excluded after
an exclude and not after an include, and the same call again answers so and changes
nothing. -/
def Promised (localeCompare : String → String → Ordering) (ceiling : ℕ) (s : Dossiers lower)
    (root : LookupKey lower) (target : Option (LookupKey lower)) (excluded : Bool) : Prop :=
  (setConnectedCharacterExclusion s root target excluded).2 = .updated →
    (∀ key, target = some key →
      listsExcluded (legacyResolveSubjects localeCompare
        (setConnectedCharacterExclusion s root target excluded).1 root ceiling) key =
          excluded) ∧
      setConnectedCharacterExclusion
          (setConnectedCharacterExclusion s root target excluded).1 root target excluded =
        ((setConnectedCharacterExclusion s root target excluded).1, .updated)

/-- The dossier lists the name, on a row that is not the root's. -/
def HasRow (s : Dossiers lower) (snapshot : StoredSnapshot lower) (target : LookupKey lower) :
    Prop :=
  target ∈ shownKeys s snapshot ∧
    ¬ (snapshot.rootKey ∈ shownKeys s snapshot ∧
      SameRow s.discovery target snapshot.rootKey)

/-- An exclude is kept by the link of a name that has a row; without a link it is refused. -/
def KeepsExclude (s : Dossiers lower) (root target : LookupKey lower) : Prop :=
  if target ∈ linked s root then
    ∃ snapshot, dossierSnapshot s.discovery root = some snapshot ∧ HasRow s snapshot target
  else
    isConnectedToDossier s root target = true → s.hasRow root = true →
      target ∈ s.exclusions root

/-- An include reaches every exclusion of the name's row: none is kept beside a link, and
none for a name that only a borrowed snapshot shows. -/
def KeepsInclude (s : Dossiers lower) (root target : LookupKey lower) : Prop :=
  target ∈ linked s root ∨ isConnectedToDossier s root target = true →
    ∀ snapshot, dossierSnapshot s.discovery root = some snapshot → HasRow s snapshot target →
      ∀ name ∈ shownKeys s snapshot, SameRow s.discovery target name →
        name ∈ listDiscoveredExclusions s root →
          name ∉ linked s root ∧ (name = target ∨ name ∈ dossierKeys s root)

def Keeps (s : Dossiers lower) (root : LookupKey lower) (target : Option (LookupKey lower))
    (excluded : Bool) : Prop :=
  ∀ key, target = some key →
    if excluded then KeepsExclude s root key else KeepsInclude s root key

variable {localeCompare : String → String → Ordering} {ceiling : ℕ} {s : Dossiers lower}
  {root target : LookupKey lower}

variable {snapshot : StoredSnapshot lower}

theorem shownKeys_eq {s' : Dossiers lower} (hroot : snapshot.rootKey = root)
    (h : SameDossier root s s') :
    shownKeys s' snapshot = shownKeys s snapshot := by
  have hkeys : ∀ s : Dossiers lower, (list s root).flatMap (fun character =>
      character.key :: discoveredUnder s.discovery character) =
        (linked s root).flatMap (fun key =>
          key :: if (s.discovery.characters key).isNone then []
            else currentKeys s.discovery key) := by
    intro s
    unfold list linked OrderedMap.keys
    rw [List.flatMap_map, List.flatMap_map]
    rfl
  unfold shownKeys
  rw [hroot, hkeys, hkeys, h.discovery, h.linked]

theorem hasRow_iff {s' : Dossiers lower} (hroot : snapshot.rootKey = root)
    (h : SameDossier root s s') :
    HasRow s' snapshot target ↔ HasRow s snapshot target := by
  unfold HasRow
  rw [shownKeys_eq hroot h, h.discovery]

theorem listed_iff :
    Listed s snapshot target ↔ HasRow s snapshot target ∧
      ∃ name ∈ shownKeys s snapshot,
        SameRow s.discovery target name ∧ Hidden s snapshot.rootKey name := by
  unfold Listed HasRow
  rw [and_assoc]

theorem mem_dossierKeys_of_linked {key : LookupKey lower} (h : key ∈ linked s root) :
    key ∈ dossierKeys s root := by
  rw [dossierKeys_eq, List.mem_append]
  exact .inr (List.mem_flatMap.mpr ⟨key, h, List.mem_cons_self⟩)

/-- What one call leaves, when its own target was taken. -/
def after (s : Dossiers lower) (root target : LookupKey lower) (excluded : Bool) :
    Dossiers lower :=
  excludeAll (exclude s root excluded target).1 root excluded
    (sharedIdentityKeys (exclude s root excluded target).1 root target)

theorem setConnectedCharacterExclusion_eq (s : Dossiers lower) (root target : LookupKey lower)
    (excluded : Bool) :
    setConnectedCharacterExclusion s root (some target) excluded =
      if (exclude s root excluded target).2 = true then (after s root target excluded, .updated)
      else ((exclude s root excluded target).1, .missing) := by
  unfold setConnectedCharacterExclusion after
  dsimp only
  obtain ⟨s', taken⟩ := exclude s root excluded target
  cases taken <;> rfl

variable (excluded : Bool)

theorem sameDossier_after :
    SameDossier root s (after s root target excluded) :=
  (sameDossier_exclude excluded target).trans (sameDossier_excludeAll excluded _)

theorem settled_after {excluded : Bool} {key : LookupKey lower}
    (h : key = target ∨ key ∈ sharedIdentityKeys s root target) :
    Settled (after s root target excluded) root excluded key := by
  unfold after
  rw [(sameDossier_exclude excluded target).sharedIdentityKeys]
  rcases h with rfl | h
  · exact (settled_exclude_self s root excluded key).excludeAll _
  · exact settled_excludeAll h

theorem after_after :
    (exclude (after s root target excluded) root excluded target).1 =
        after s root target excluded ∧
      after (after s root target excluded) root target excluded =
        after s root target excluded := by
  have hself : (exclude (after s root target excluded) root excluded target).1 =
      after s root target excluded := exclude_of_settled (settled_after (.inl rfl))
  refine ⟨hself, ?_⟩
  rw [after, hself]
  apply excludeAll_of_settled
  intro key hkey
  rw [(sameDossier_after excluded).sharedIdentityKeys] at hkey
  exact settled_after (.inr hkey)

theorem exclude_taken_iff :
    (exclude s root excluded target).2 = true ↔
      target ∈ linked s root ∨ isConnectedToDossier s root target = true ∧
        (excluded = true → s.hasRow root = true ∧ target ∉ s.exclusions root) := by
  have hspec := exclude_spec s root excluded target
  generalize exclude s root excluded target = result at hspec
  cases hspec with
  | flagged row hrow =>
    have hin := mem_linked_iff.mpr ⟨row, hrow⟩
    simp [hin]
  | recorded hnew hin hexcluded hroot hfresh => simp [hin, hroot, hfresh]
  | repeated hnew hin hexcluded hheld =>
    simp only [Bool.false_eq_true, false_iff, not_or, not_and]
    refine ⟨hnew, ?_⟩
    intro _ htaken
    exact (htaken hexcluded).2 (hheld (htaken hexcluded).1)
  | deleted hnew hin hincluded hroot => simp [hin, hincluded]
  | rowless hnew hin hincluded hroot => simp [hin, hincluded]
  | unconnected hnew hout => simp [hnew, hout]

theorem hidden_after {excluded : Bool} {name : LookupKey lower}
    (hconnected : target ∈ linked s root ∨ isConnectedToDossier s root target = true)
    (hrow : SameRow s.discovery target name) (hroot : name ≠ root ∨ name = target) :
    Hidden (after s root target excluded) root name ↔
      if name ∈ linked s root then
        excluded = true ∨ name ∈ listDiscoveredExclusions s root
      else if name = target ∨ name ∈ dossierKeys s root then
        s.hasRow root = true ∧ excluded = true
      else name ∈ listDiscoveredExclusions s root := by
  have hsame := @sameDossier_after lower s root target excluded
  have hnone : name ∉ linked s root →
      ¬ ∃ row, ((after s root target excluded).rows root).get? name = some row ∧
        row.excluded = true := by
    rintro hnew ⟨row, hheld, -⟩
    apply hnew
    rw [← hsame.linked]
    exact mem_linked_iff.mpr ⟨row, hheld⟩
  unfold Hidden
  rw [mem_listDiscoveredExclusions, mem_listDiscoveredExclusions, hsame.hasRow]
  by_cases hlinked : name ∈ linked s root
  · rw [if_pos hlinked]
    have hexclusions : name ∈ (after s root target excluded).exclusions root ↔
        name ∈ s.exclusions root := by
      have hlinked' : name ∈ linked (exclude s root excluded target).1 root := by
        rw [(sameDossier_exclude excluded target).linked]
        exact hlinked
      exact (excludeAll_linked hlinked').trans (exclude_linked hlinked)
    have hsettled : Settled (after s root target excluded) root excluded name := by
      apply settled_after
      by_cases htarget : name = target
      · exact .inl htarget
      · refine .inr (mem_sharedIdentityKeys.mpr
          ⟨mem_dossierKeys_of_linked hlinked, hroot.resolve_right htarget, htarget,
            hrow.resolve_left htarget⟩)
    have hlinked' : name ∈ linked (after s root target excluded) root := by
      rw [hsame.linked]
      exact hlinked
    obtain ⟨row, hheld⟩ := mem_linked_iff.mp hlinked'
    have hflag := hsettled.flag row hheld
    rw [hexclusions, hheld]
    simp only [Option.some.injEq, exists_eq_left', hflag]
    exact or_comm
  · rw [if_neg hlinked]
    by_cases hreached : name = target ∨ name ∈ dossierKeys s root
    · rw [if_pos hreached]
      have hsettled : Settled (after s root target excluded) root excluded name := by
        apply settled_after
        by_cases htarget : name = target
        · exact .inl htarget
        · exact .inr (mem_sharedIdentityKeys.mpr ⟨hreached.resolve_left htarget,
            hroot.resolve_right htarget, htarget, hrow.resolve_left htarget⟩)
      have hin : isConnectedToDossier (after s root target excluded) root name = true := by
        rw [hsame.isConnected]
        by_cases htarget : name = target
        · rw [htarget] at hlinked ⊢
          exact hconnected.resolve_left hlinked
        · exact isConnectedToDossier_iff.mpr (.inr (hreached.resolve_left htarget))
      have hexclusion := hsettled.exclusion (by rw [hsame.linked]; exact hlinked)
      rw [hsame.hasRow] at hexclusion
      constructor
      · rintro (⟨hrow', hheld⟩ | hflag)
        · exact ⟨hrow', (hexclusion hrow' hin).mp hheld⟩
        · exact absurd hflag (hnone hlinked)
      · rintro ⟨hrow', hexcluded⟩
        exact .inl ⟨hrow', (hexclusion hrow' hin).mpr hexcluded⟩
    · rw [if_neg hreached]
      rw [not_or] at hreached
      have hother : name ∉ sharedIdentityKeys (exclude s root excluded target).1 root target := by
        rw [(sameDossier_exclude excluded target).sharedIdentityKeys, mem_sharedIdentityKeys]
        exact fun h => hreached.2 h.1
      have hexclusions : name ∈ (after s root target excluded).exclusions root ↔
          name ∈ s.exclusions root :=
        (excludeAll_other hother).2.trans (exclude_other hreached.1).2
      rw [hexclusions]
      constructor
      · rintro (hheld | hflag)
        · exact hheld
        · exact absurd hflag (hnone hlinked)
      · exact .inl

theorem listsExcluded_after (localeCompare : String → String → Ordering) (ceiling : ℕ)
    (excluded : Bool) :
    listsExcluded (legacyResolveSubjects localeCompare (after s root target excluded) root
        ceiling) target = true ↔
      ∃ snapshot, dossierSnapshot s.discovery root = some snapshot ∧
        HasRow s snapshot target ∧
          ∃ name ∈ shownKeys s snapshot, SameRow s.discovery target name ∧
            Hidden (after s root target excluded) root name := by
  have hsame := @sameDossier_after lower s root target excluded
  rw [listsExcluded_iff, hsame.discovery]
  constructor
  · rintro ⟨snapshot, hsnapshot, hlisted⟩
    have hroot := dossierSnapshot_root hsnapshot
    rw [listed_iff, hasRow_iff hroot hsame, shownKeys_eq hroot hsame, hsame.discovery,
      hroot] at hlisted
    exact ⟨snapshot, hsnapshot, hlisted⟩
  · rintro ⟨snapshot, hsnapshot, hlisted⟩
    have hroot := dossierSnapshot_root hsnapshot
    refine ⟨snapshot, hsnapshot, ?_⟩
    rw [listed_iff, hasRow_iff hroot hsame, shownKeys_eq hroot hsame, hsame.discovery, hroot]
    exact hlisted

theorem repeated_iff :
    setConnectedCharacterExclusion (after s root target excluded) root (some target) excluded =
        (after s root target excluded, .updated) ↔
      (exclude (after s root target excluded) root excluded target).2 = true := by
  obtain ⟨hself, hafter⟩ := @after_after lower s root target excluded
  rw [setConnectedCharacterExclusion_eq, hself, hafter]
  by_cases htaken : (exclude (after s root target excluded) root excluded target).2 = true
  · rw [if_pos htaken]
    exact ⟨fun _ => htaken, fun _ => rfl⟩
  · rw [if_neg htaken]
    constructor
    · intro h
      cases (Prod.mk.inj h).2
    · intro h
      exact absurd h htaken

theorem promised_some_iff :
    Promised localeCompare ceiling s root (some target) excluded ↔
      ((exclude s root excluded target).2 = true →
        listsExcluded (legacyResolveSubjects localeCompare (after s root target excluded) root
            ceiling) target = excluded ∧
          (exclude (after s root target excluded) root excluded target).2 = true) := by
  unfold Promised
  rw [setConnectedCharacterExclusion_eq s]
  by_cases htaken : (exclude s root excluded target).2 = true
  · rw [if_pos htaken, repeated_iff]
    simp [htaken]
  · rw [if_neg htaken]
    simp [htaken]

theorem name_ne_root (hroot : snapshot.rootKey = root) (h : HasRow s snapshot target)
    {name : LookupKey lower} (hname : name ∈ shownKeys s snapshot)
    (hrow : SameRow s.discovery target name) : name ≠ root := by
  rintro rfl
  exact h.2 (hroot.symm ▸ ⟨hname, hrow⟩)

theorem promised_exclude_iff :
    Promised localeCompare ceiling s root (some target) true ↔ KeepsExclude s root target := by
  rw [promised_some_iff, exclude_taken_iff, exclude_taken_iff]
  have hsame := @sameDossier_after lower s root target true
  rw [hsame.linked, hsame.isConnected, hsame.hasRow]
  unfold KeepsExclude
  by_cases hlinked : target ∈ linked s root
  · rw [if_pos hlinked, listsExcluded_after]
    simp only [hlinked, true_or, and_true, forall_const]
    constructor
    · rintro ⟨snapshot, hsnapshot, hrow, -⟩
      exact ⟨snapshot, hsnapshot, hrow⟩
    · rintro ⟨snapshot, hsnapshot, hrow⟩
      refine ⟨snapshot, hsnapshot, hrow, target, hrow.1, .inl rfl, ?_⟩
      rw [hidden_after (.inl hlinked) (.inl rfl) (.inr rfl), if_pos hlinked]
      exact .inl rfl
  · rw [if_neg hlinked]
    simp only [hlinked, false_or, forall_const]
    constructor
    · intro h hconnected hroot
      by_contra hfresh
      obtain ⟨-, -, -, hnew⟩ := h ⟨hconnected, hroot, hfresh⟩
      -- the first call left the exclusion that the second one meets
      have hsettled : Settled (after s root target true) root true target :=
        settled_after (.inl rfl)
      apply hnew
      exact (hsettled.exclusion (by rw [hsame.linked]; exact hlinked)
        (by rw [hsame.hasRow]; exact hroot)
        (by rw [hsame.isConnected]; exact hconnected)).mpr rfl
    · rintro h ⟨hconnected, hroot, hfresh⟩
      exact absurd (h hconnected hroot) hfresh

theorem promised_include_iff :
    Promised localeCompare ceiling s root (some target) false ↔ KeepsInclude s root target := by
  rw [promised_some_iff, exclude_taken_iff, exclude_taken_iff]
  have hsame := @sameDossier_after lower s root target false
  rw [hsame.linked, hsame.isConnected]
  simp only [Bool.false_eq_true, false_implies, and_true]
  unfold KeepsInclude
  apply forall_congr'
  intro hconnected
  rw [← Bool.not_eq_true, listsExcluded_after]
  simp only [hconnected, and_true, not_exists, not_and]
  constructor
  · intro h snapshot hsnapshot hrow name hname hsamerow hheld
    have hroot := dossierSnapshot_root hsnapshot
    have hhidden := h snapshot hsnapshot hrow name hname hsamerow
    rw [hidden_after hconnected hsamerow (.inl (name_ne_root hroot hrow hname hsamerow))]
      at hhidden
    by_cases hlinked : name ∈ linked s root
    · rw [if_pos hlinked] at hhidden
      exact absurd (.inr hheld) hhidden
    · rw [if_neg hlinked] at hhidden
      refine ⟨hlinked, ?_⟩
      by_contra hreached
      rw [if_neg hreached] at hhidden
      exact hhidden hheld
  · intro h snapshot hsnapshot hrow name hname hsamerow
    have hroot := dossierSnapshot_root hsnapshot
    rw [hidden_after hconnected hsamerow (.inl (name_ne_root hroot hrow hname hsamerow))]
    have hheld := h snapshot hsnapshot hrow name hname hsamerow
    by_cases hlinked : name ∈ linked s root
    · rw [if_pos hlinked]
      rintro (hfalse | hin)
      · cases hfalse
      · exact (hheld hin).1 hlinked
    · rw [if_neg hlinked]
      by_cases hreached : name = target ∨ name ∈ dossierKeys s root
      · rw [if_pos hreached]
        rintro ⟨-, hfalse⟩
        cases hfalse
      · rw [if_neg hreached]
        exact fun hin => hreached (hheld hin).2

/-- After any run of operations, a call keeps what `updated` promises exactly when the
dossier it meets is one its exclusion reaches. -/
theorem exclusion_promised_iff (localeCompare : String → String → Ordering) (ceiling : ℕ)
    (start : Dossiers lower) (operations : List (Operation lower)) (root : LookupKey lower)
    (target : Option (LookupKey lower)) (excluded : Bool) :
    Promised localeCompare ceiling (run start operations) root target excluded ↔
      Keeps (run start operations) root target excluded := by
  cases target with
  | none =>
    have hinvalid : Promised localeCompare ceiling (run start operations) root none excluded := by
      intro hupdated
      cases hupdated
    refine ⟨fun _ key hkey => ?_, fun _ => hinvalid⟩
    cases hkey
  | some target =>
    unfold Keeps
    simp only [Option.some.injEq, forall_eq']
    cases excluded with
    | true => exact promised_exclude_iff
    | false => exact promised_include_iff

def plainKey (name : String) : LookupKey (fun text => text) where
  region := .eu
  realm := "silvermoon"
  name := name
  lowered := rfl

def found (name : String) (source : Characters.DiscoverySource) :
    SnapshotCharacter (fun text => text) where
  key := plainKey name
  displayName := name
  className := "Mage"
  level := 80
  guild := none
  raiderIoUrl := ""
  source := source

/-- One root whose own snapshot lists one other character, and no recorded id. -/
def ryiiDiscovery : Discovery (fun text => text) where
  characters := fun _ => some ⟨"", "Mage", 80, ""⟩
  getCurrent := fun key =>
    if key = plainKey "ryii" then
      some ⟨plainKey "ryii", [found "ryii" .input, found "ryalts" .claimed]⟩
    else none
  getCurrentDeclaringCharacter := fun _ => none
  characterId := fun _ => none
  getCurrent_root := by
    intro key snapshot h
    split at h
    · next hkey =>
      rw [Option.some.injEq] at h
      rw [← h, hkey]
    · cases h

def noDossiers : Dossiers (fun text => text) where
  discovery := ⟨fun _ => none, fun _ => none, fun _ => none, fun _ => none, by intro _ _ h; cases h⟩
  connections := fun _ => .empty
  exclusions := fun _ => []

/-- A discovered character is excluded, then linked. -/
def linkedAfterExclusion : List (Operation (fun text => text)) :=
  [.discover ryiiDiscovery,
    .setConnectedCharacterExclusion (plainKey "ryii") (some (plainKey "ryalts")) true,
    .addConnectedCharacter (plainKey "ryii") (some (plainKey "ryalts")) .character]

/-- The include clears the link's flag and leaves the exclusion, which hides the character
still; and the exclusion of a discovered character is not answered as updated twice. -/
theorem exclusion_drifts :
    ¬ (∀ operations root target excluded,
      Promised compare 10 (run noDossiers operations) root target excluded) ∧
    (setConnectedCharacterExclusion (run noDossiers linkedAfterExclusion) (plainKey "ryii")
      (some (plainKey "ryalts")) false).2 = .updated ∧
    listsExcluded (legacyResolveSubjects compare
      (setConnectedCharacterExclusion (run noDossiers linkedAfterExclusion) (plainKey "ryii")
        (some (plainKey "ryalts")) false).1 (plainKey "ryii") 10) (plainKey "ryalts") = true ∧
    (setConnectedCharacterExclusion (run noDossiers [.discover ryiiDiscovery]) (plainKey "ryii")
      (some (plainKey "ryalts")) true).2 = .updated ∧
    (setConnectedCharacterExclusion
      (setConnectedCharacterExclusion (run noDossiers [.discover ryiiDiscovery])
        (plainKey "ryii") (some (plainKey "ryalts")) true).1
      (plainKey "ryii") (some (plainKey "ryalts")) true).2 = .missing := by
  have hupdated : (setConnectedCharacterExclusion (run noDossiers linkedAfterExclusion)
      (plainKey "ryii") (some (plainKey "ryalts")) false).2 = .updated := by decide +kernel
  have hlisted : listsExcluded (legacyResolveSubjects compare
      (setConnectedCharacterExclusion (run noDossiers linkedAfterExclusion) (plainKey "ryii")
        (some (plainKey "ryalts")) false).1 (plainKey "ryii") 10) (plainKey "ryalts") = true := by
    decide +kernel
  refine ⟨?_, hupdated, hlisted, by decide +kernel, by decide +kernel⟩
  intro h
  have hincluded := (h linkedAfterExclusion (plainKey "ryii") (some (plainKey "ryalts")) false
    hupdated).1 (plainKey "ryalts") rfl
  rw [hlisted] at hincluded
  cases hincluded

end SlashWho.ConnectionExclusions
