import SlashWho.GuildHistory

/-!
What a guild's spans say of its nights. The walk over a guild's visible nights is the
list cut wherever a whole tier passes, each piece drawn as one span, so the pieces are
the visible nights again. A guild's spans come in the order of its nights, and the
final sort keeps them so.
-/

namespace SlashWho.GuildHistory

open List ComparatorSort Characters RaidCatalogue

variable (rt : Runtime)

/-- The stretch stands for this piece of the nights, and looked at its last night last. -/
structure Covers (tiers : List RaidTier) (piece : List DossierGuildRaidNight)
    (stretch : Stretch) : Prop where
  firstNight : (piece.head?).map DossierGuildRaidNight.date = some stretch.firstNight
  lastNight : (piece.getLast?).map DossierGuildRaidNight.date = some stretch.lastNight
  nights : stretch.nights = piece.length
  tier : stretch.tier = tierIndex tiers stretch.lastNight
  characters : ∀ key ∈ stretch.characters.values, ∃ night ∈ piece, key ∈ night.characters

/-- The span is drawn for this piece of the guild's nights. -/
structure Draws (owner : CharacterGuild) (piece : List DossierGuildRaidNight)
    (span : GuildTimelineSpan) : Prop where
  guild : span.guild = owner
  guildId : span.guildId = guildIdentity rt owner
  firstNight : (piece.head?).map DossierGuildRaidNight.date = some span.firstNight
  lastNight : (piece.getLast?).map DossierGuildRaidNight.date = some span.lastNight
  nights : span.nights = piece.length
  characters : ∀ key ∈ span.characters, ∃ night ∈ piece, key ∈ night.characters

/-- No whole tier passes between the two nights. -/
def near (tiers : List RaidTier) (a b : DossierGuildRaidNight) : Bool :=
  tierIndex tiers b.date ≤ tierIndex tiers a.date + 1

variable {rt} {tiers : List RaidTier} {guild : CharacterGuild}

theorem mem_of_lookup {κ ν : Type} [DecidableEq κ] {entries : List (κ × ν)} {k : κ} {v : ν}
    (h : entries.lookup k = some v) : (k, v) ∈ entries := by
  induction entries with
  | nil => cases h
  | cons e rest ih =>
    rw [lookup_cons_eq_ite] at h
    split at h
    · next hk =>
      rw [hk, ← Option.some.inj h]
      exact mem_cons_self
    · exact mem_cons_of_mem _ (ih h)

/-- Who a stretch gains with a night was seen on it. -/
theorem join_characters (stretch : Stretch) (night : DossierGuildRaidNight) {key : CharacterKey}
    (h : key ∈ (stretch.join rt tiers night).characters.values) :
    key ∈ stretch.characters.values ∨ key ∈ night.characters := by
  obtain ⟨id, hget⟩ := (OrderedMap.mem_values_iff _ _).mp h
  unfold Stretch.join at hget
  rw [OrderedMap.get?_setAll] at hget
  rcases Option.or_eq_some_iff.mp hget with hnew | ⟨-, hold⟩
  · right
    have hin := mem_of_lookup hnew
    obtain ⟨seen, hseen, heq⟩ := mem_map.mp (mem_reverse.mp hin)
    rw [← (Prod.mk.inj heq).2]
    exact hseen
  · exact .inl ((OrderedMap.mem_values_iff _ _).mpr ⟨id, hold⟩)

theorem covers_begin (night : DossierGuildRaidNight) :
    Covers tiers [night] ((Stretch.begin tiers night).join rt tiers night) := by
  refine ⟨rfl, rfl, rfl, rfl, fun key hkey => ?_⟩
  rcases join_characters _ night hkey with hnone | hseen
  · cases hnone
  · exact ⟨night, mem_singleton_self _, hseen⟩

variable {nights : List DossierGuildRaidNight}

theorem Covers.join {stretch : Stretch} (h : Covers tiers nights stretch)
    (night : DossierGuildRaidNight) :
    Covers tiers (nights ++ [night]) (stretch.join rt tiers night) := by
  refine ⟨?_, by simp [Stretch.join], ?_, rfl, fun key hkey => ?_⟩
  · have hfirst := h.firstNight
    cases nights with
    | nil => cases hfirst
    | cons first rest => exact hfirst
  · have hnights := h.nights
    simp [Stretch.join, hnights]
  · rcases join_characters _ night hkey with hold | hseen
    · obtain ⟨seenOn, hin, hseen⟩ := h.characters key hold
      exact ⟨seenOn, mem_append_left _ hin, hseen⟩
    · exact ⟨night, mem_append_right _ (mem_singleton_self _), hseen⟩

theorem Covers.close {stretch : Stretch} (h : Covers tiers nights stretch) :
    Draws rt guild nights (stretch.close rt tiers guild) :=
  ⟨rfl, rfl, h.firstNight, h.lastNight, h.nights, fun key hkey =>
    h.characters key ((mem_sortBy _).mp hkey)⟩

theorem drawn_of_mem {α β : Type} {r : α → β → Prop} {l : List α} {l' : List β}
    (h : List.Forall₂ r l l') {b : β} (hb : b ∈ l') : ∃ a ∈ l, r a b := by
  induction h with
  | nil => cases hb
  | cons hab _ ih =>
    rcases mem_cons.mp hb with rfl | hb
    · exact ⟨_, mem_cons_self, hab⟩
    · obtain ⟨a, ha, hr⟩ := ih hb
      exact ⟨a, mem_cons_of_mem _ ha, hr⟩

theorem forall₂_append {α β : Type} {r : α → β → Prop} {l : List α} {l' : List β}
    (h : List.Forall₂ r l l') {a : α} {b : β} (hab : r a b) :
    List.Forall₂ r (l ++ [a]) (l' ++ [b]) :=
  rel_append h (List.Forall₂.cons hab List.Forall₂.nil)

variable {pieces : List (List DossierGuildRaidNight)} {spans : List GuildTimelineSpan}

/-- The walk cuts the nights where a whole tier passes, and draws each piece. -/
theorem walk_draws (rest : List DossierGuildRaidNight) {last : DossierGuildRaidNight}
    {before : List DossierGuildRaidNight} {current : Stretch}
    (hcurrent : Covers tiers (last :: before).reverse current)
    (hspans : List.Forall₂ (Draws rt guild) pieces.reverse spans) :
    List.Forall₂ (Draws rt guild) (List.splitBy.loop (near tiers) rest last before pieces)
      ((rest.foldl (walkNight rt tiers guild) (spans, some current)).1 ++
        ((rest.foldl (walkNight rt tiers guild) (spans, some current)).2.map
          (Stretch.close rt tiers guild)).toList) := by
  induction rest generalizing last before pieces spans current with
  | nil =>
    unfold List.splitBy.loop
    rw [reverse_cons]
    exact forall₂_append hspans hcurrent.close
  | cons night rest ih =>
    have htier : current.tier = tierIndex tiers last.date := by
      have hlast := hcurrent.lastNight
      rw [reverse_cons, getLast?_concat] at hlast
      rw [hcurrent.tier, ← Option.some.inj hlast]
    rw [foldl_cons]
    unfold List.splitBy.loop
    by_cases hgap : tierIndex tiers night.date > current.tier + 1
    · have hnear : near tiers last night = false := by
        unfold near
        rw [← htier, decide_eq_false_iff_not]
        omega
      have hstep : walkNight rt tiers guild (spans, some current) night =
          (spans ++ [current.close rt tiers guild],
            some ((Stretch.begin tiers night).join rt tiers night)) := if_pos hgap
      rw [hnear, hstep]
      refine ih (covers_begin night) ?_
      rw [reverse_cons]
      exact forall₂_append hspans hcurrent.close
    · have hnear : near tiers last night = true := by
        unfold near
        rw [← htier, decide_eq_true_eq]
        omega
      have hstep : walkNight rt tiers guild (spans, some current) night =
          (spans, some (current.join rt tiers night)) := if_neg hgap
      rw [hnear, hstep]
      refine ih ?_ hspans
      rw [reverse_cons]
      exact hcurrent.join night

theorem entrySpans_draws (rt : Runtime) {options : GuildTimelineOptions} {entry : DossierGuildHistoryEntry}
    (h : 2 ≤ (visibleNights options entry).length) :
    List.Forall₂ (Draws rt entry.guild)
      ((visibleNights options entry).splitBy (near options.tiers))
      (entrySpans rt options entry) := by
  unfold entrySpans minimumGuildNights
  rw [if_neg (by omega)]
  cases hnights : visibleNights options entry with
  | nil =>
    rw [hnights] at h
    cases h
  | cons first rest =>
    exact walk_draws rest (covers_begin first) List.Forall₂.nil

theorem entrySpans_nil {options : GuildTimelineOptions} {entry : DossierGuildHistoryEntry}
    (h : (visibleNights options entry).length < 2) : entrySpans rt options entry = [] := by
  unfold entrySpans minimumGuildNights
  rw [if_pos h]

theorem span_of_mem {options : GuildTimelineOptions} {entry : DossierGuildHistoryEntry}
    {span : GuildTimelineSpan} (h : span ∈ entrySpans rt options entry) :
    ∃ piece, (∀ night ∈ piece, night ∈ visibleNights options entry) ∧
      Draws rt entry.guild piece span := by
  by_cases hfew : (visibleNights options entry).length < 2
  · rw [entrySpans_nil hfew] at h
    cases h
  · obtain ⟨piece, hin, hdrawn⟩ := drawn_of_mem (entrySpans_draws rt (not_lt.mp hfew)) h
    refine ⟨piece, fun night hnight => ?_, hdrawn⟩
    rw [← flatten_splitBy (near options.tiers) (visibleNights options entry)]
    exact mem_flatten.mpr ⟨piece, hin, hnight⟩

theorem sum_draws {owner : CharacterGuild} (h : List.Forall₂ (Draws rt owner) pieces spans) :
    (spans.map GuildTimelineSpan.nights).sum = pieces.flatten.length := by
  induction h with
  | nil => rfl
  | cons hdrawn _ ih =>
    rw [map_cons, sum_cons, ih, hdrawn.nights, flatten_cons, length_append]

theorem ordered_draws {owner : CharacterGuild} (h : List.Forall₂ (Draws rt owner) pieces spans)
    (hdates : pieces.flatten.Pairwise (fun a b => text a.date b.date = .lt)) :
    spans.Pairwise (fun a b => text a.firstNight b.firstNight = .lt) := by
  induction h with
  | nil => exact List.Pairwise.nil
  | @cons piece span rest others hdrawn hrest ih =>
    rw [flatten_cons, pairwise_append] at hdates
    obtain ⟨-, hafter, hacross⟩ := hdates
    refine List.Pairwise.cons (fun other hother => ?_) (ih hafter)
    obtain ⟨later, hlater, hdrawn'⟩ := drawn_of_mem hrest hother
    obtain ⟨a, ha, hdate⟩ := Option.map_eq_some_iff.mp hdrawn.firstNight
    obtain ⟨b, hb, hdate'⟩ := Option.map_eq_some_iff.mp hdrawn'.firstNight
    have hlt := hacross a (mem_of_mem_head? ha) b
      (mem_flatten.mpr ⟨later, hlater, mem_of_mem_head? hb⟩)
    rw [hdate, hdate'] at hlt
    exact hlt

theorem length_takeWhile_le {α : Type} {p q : α → Bool} (h : ∀ a, p a = true → q a = true)
    (l : List α) : (l.takeWhile p).length ≤ (l.takeWhile q).length := by
  induction l with
  | nil => simp
  | cons a rest ih =>
    by_cases hp : p a = true
    · rw [takeWhile_cons_of_pos hp, takeWhile_cons_of_pos (h a hp)]
      exact Nat.succ_le_succ ih
    · rw [takeWhile_cons_of_neg hp]
      exact Nat.zero_le _

theorem tierIndex_mono (tiers : List RaidTier) {a b : String} (h : text a b = .lt) :
    tierIndex tiers a ≤ tierIndex tiers b := by
  have hle := length_takeWhile_le (p := fun tier : RaidTier => text tier.startsOn a ≠ .gt)
    (q := fun tier : RaidTier => text tier.startsOn b ≠ .gt) (fun tier hstarted => by
      have hstarted : text tier.startsOn a ≠ .gt := of_decide_eq_true hstarted
      have hle : (text tier.startsOn b).isLE := Std.TransCmp.isLE_trans
        (Ordering.isLE_iff_ne_gt.mpr hstarted) (by rw [h]; rfl)
      exact decide_eq_true (Ordering.isLE_iff_ne_gt.mp hle)) tiers
  unfold tierIndex
  omega

variable (rt : Runtime)

theorem filedBy_noteKill {guilds : OrderedMap String GuildNotes}
    (h : guilds.FiledBy (fun notes => guildIdentity rt notes.guild)) (kill : GuildKill) :
    (noteKill rt guilds kill).FiledBy (fun notes => guildIdentity rt notes.guild) := by
  unfold noteKill
  split
  · exact h
  · next guild _ =>
    refine h.set ?_
    have hnotes : guildIdentity rt ((guilds.get? (guildIdentity rt guild)).getD
        ⟨guild, kill.killedAt, OrderedMap.empty⟩).guild = guildIdentity rt guild := by
      cases hget : guilds.get? (guildIdentity rt guild) with
      | none => rfl
      | some notes => exact h _ _ hget
    unfold GuildNotes.attend GuildNotes.rename
    split
    · rfl
    · exact hnotes

theorem filedBy_kills (kills : List GuildKill) :
    (kills.foldl (noteKill rt) OrderedMap.empty).FiledBy
      (fun notes => guildIdentity rt notes.guild) := by
  have hfold : ∀ (kills : List GuildKill) (guilds : OrderedMap String GuildNotes),
      guilds.FiledBy (fun notes => guildIdentity rt notes.guild) →
        (kills.foldl (noteKill rt) guilds).FiledBy (fun notes => guildIdentity rt notes.guild) := by
    intro kills
    induction kills with
    | nil => exact fun _ h => h
    | cons kill rest ih => exact fun _ h => ih _ (filedBy_noteKill rt h kill)
  exact hfold kills OrderedMap.empty (OrderedMap.filedBy_empty _)

theorem nodup_collected (kills : List GuildKill) :
    ((collectGuildRaidNights rt kills).map (fun entry => guildIdentity rt entry.guild)).Nodup := by
  unfold collectGuildRaidNights
  rw [((perm_sortBy _ _).map _).nodup_iff, map_map]
  exact (filedBy_kills rt kills).nodup_values

variable {entry : DossierGuildHistoryEntry}

variable {kills : List GuildKill}

theorem ordered_nights (h : entry ∈ collectGuildRaidNights rt kills) :
    entry.nights.Pairwise (fun a b => text a.date b.date = .lt) := by
  unfold collectGuildRaidNights at h
  obtain ⟨notes, -, rfl⟩ := mem_map.mp ((mem_sortBy _).mp h)
  unfold GuildNotes.entry
  rw [pairwise_map]
  have hsorted := pairwise_sortBy (readBy Prod.fst text) notes.nights.entries
  have hdistinct : ((sortBy (readBy Prod.fst text) notes.nights.entries).map Prod.fst).Nodup :=
    ((perm_sortBy _ _).map _).nodup_iff.mpr notes.nights.nodup_keys
  refine (hsorted.and (pairwise_map.mp hdistinct)).imp fun {a b} hboth => ?_
  obtain ⟨hle, hne⟩ := hboth
  have hle : text a.1 b.1 ≠ .gt := hle
  cases hcmp : text a.1 b.1 with
  | lt => rfl
  | eq => exact absurd (eq_of_text_eq hcmp) hne
  | gt => exact absurd hcmp hle

variable {rt} {options : GuildTimelineOptions}

theorem visible_of_mem {night : DossierGuildRaidNight} (h : night ∈ visibleNights options entry) :
    ∀ key ∈ night.characters, options.isCharacterVisible key = true := by
  obtain ⟨whole, -, hkept⟩ := mem_filterMap.mp h
  simp only at hkept
  split at hkept
  · cases hkept
  · intro key hkey
    rw [← Option.some.inj hkept] at hkey
    exact (mem_filter.mp hkey).2

theorem ordered_visible (h : entry ∈ collectGuildRaidNights rt kills) :
    (visibleNights options entry).Pairwise (fun a b => text a.date b.date = .lt) := by
  unfold visibleNights
  refine (ordered_nights rt h).filterMap _ fun a b hlt a' ha' b' hb' => ?_
  have hdate : ∀ night shown : DossierGuildRaidNight,
      (if night.characters.filter options.isCharacterVisible = [] then none
        else some { night with
          characters := night.characters.filter options.isCharacterVisible }) = some shown →
        shown.date = night.date := by
    intro night shown hshown
    split at hshown
    · cases hshown
    · rw [← Option.some.inj hshown]
  rw [hdate a a' ha', hdate b b' hb']
  exact hlt

/-- Of all spans of a history, those of one of its guilds are the entry's. -/
theorem filter_flatMap_spans (options : GuildTimelineOptions)
    {history : List DossierGuildHistoryEntry}
    (hdistinct : (history.map (fun entry => guildIdentity rt entry.guild)).Nodup)
    (h : entry ∈ history) :
    (history.flatMap (entrySpans rt options)).filter
      (fun span => span.guildId = guildIdentity rt entry.guild) = entrySpans rt options entry := by
  have hown : ∀ (e : DossierGuildHistoryEntry) (id : String), guildIdentity rt e.guild = id →
      (entrySpans rt options e).filter (fun span => span.guildId = id) =
        entrySpans rt options e := by
    intro e id hid
    rw [filter_eq_self]
    intro span hspan
    obtain ⟨_, -, hdrawn⟩ := span_of_mem hspan
    exact decide_eq_true (hdrawn.guildId.trans hid)
  have hother : ∀ (e : DossierGuildHistoryEntry) (id : String), guildIdentity rt e.guild ≠ id →
      (entrySpans rt options e).filter (fun span => span.guildId = id) = [] := by
    intro e id hid
    rw [filter_eq_nil_iff]
    intro span hspan hsame
    obtain ⟨_, -, hdrawn⟩ := span_of_mem hspan
    exact hid (hdrawn.guildId.symm.trans (of_decide_eq_true hsame))
  induction history with
  | nil => cases h
  | cons first rest ih =>
    rw [map_cons, nodup_cons] at hdistinct
    rw [flatMap_cons, filter_append]
    rcases mem_cons.mp h with rfl | hin
    · have hrest : (rest.flatMap (entrySpans rt options)).filter
          (fun span => span.guildId = guildIdentity rt entry.guild) = [] := by
        rw [filter_eq_nil_iff]
        intro span hspan hsame
        obtain ⟨e, he, hspan⟩ := mem_flatMap.mp hspan
        obtain ⟨_, -, hdrawn⟩ := span_of_mem hspan
        apply hdistinct.1
        exact mem_map.mpr ⟨e, he, hdrawn.guildId.symm.trans (of_decide_eq_true hsame)⟩
      rw [hown entry _ rfl, hrest, append_nil]
    · have hne : guildIdentity rt first.guild ≠ guildIdentity rt entry.guild := by
        intro heq
        apply hdistinct.1
        exact mem_map.mpr ⟨entry, hin, heq.symm⟩
      rw [hother first _ hne, nil_append]
      exact ih hdistinct.2 hin

/-- The spans of one guild among those of a whole timeline, in their order there. -/
def spansOfGuild (rt : Runtime) (spans : List GuildTimelineSpan) (guild : CharacterGuild) :
    List GuildTimelineSpan :=
  spans.filter (fun span => span.guildId = guildIdentity rt guild)

/-- The final sort leaves the spans of one guild in the order of its nights. -/
theorem spansOfGuild_eq (h : entry ∈ collectGuildRaidNights rt kills) :
    spansOfGuild rt (guildTimelineSpans rt (collectGuildRaidNights rt kills) options) entry.guild =
      entrySpans rt options entry := by
  have hfilter := filter_flatMap_spans options (nodup_collected rt kills) h
  have hordered : (entrySpans rt options entry).Pairwise
      (fun a b => text a.firstNight b.firstNight = .lt) := by
    by_cases hfew : (visibleNights options entry).length < 2
    · rw [entrySpans_nil hfew]
      exact List.Pairwise.nil
    · refine ordered_draws (entrySpans_draws rt (not_lt.mp hfew)) ?_
      rw [flatten_splitBy]
      exact ordered_visible h
  have hbefore : (entrySpans rt options entry).Pairwise
      (notAfter (compareLex (readBy GuildTimelineSpan.firstNight text)
        (readBy (fun span => span.guild.name) rt.localeCompare))) := by
    refine hordered.imp fun {a b} hlt => ?_
    unfold notAfter compareLex readBy
    rw [hlt]
    intro hgt
    cases hgt
  have hsub : (entrySpans rt options entry).Sublist
      ((collectGuildRaidNights rt kills).flatMap (entrySpans rt options)) := by
    rw [← hfilter]
    exact filter_sublist
  have hsorted := sublist_insertionSort hbefore hsub
  have hkept := hsorted.filter (fun span => span.guildId = guildIdentity rt entry.guild)
  rw [← hfilter, filter_filter] at hkept
  simp only [Bool.and_self] at hkept
  have hperm := (perm_sortBy (compareLex (readBy GuildTimelineSpan.firstNight text)
    (readBy (fun span => span.guild.name) rt.localeCompare))
      ((collectGuildRaidNights rt kills).flatMap (entrySpans rt options))).filter
        (fun span => span.guildId = guildIdentity rt entry.guild)
  rw [hfilter] at hkept hperm
  exact (hkept.eq_of_length hperm.length_eq.symm).symm

/-- A guild's spans partition its visible nights: each is drawn for a piece of them,
within which nights lie a tier apart at most, and a whole tier passes between one
piece and the next. -/
structure Partitions (rt : Runtime) (tiers : List RaidTier) (owner : CharacterGuild)
    (shown : List DossierGuildRaidNight) (spans : List GuildTimelineSpan) : Prop where
  pieces : ∃ pieces, pieces.flatten = shown ∧ List.Forall₂ (Draws rt owner) pieces spans ∧
    (∀ piece ∈ pieces, piece ≠ [] ∧ piece.IsChain (fun a b =>
      tierIndex tiers a.date ≤ tierIndex tiers b.date ∧
        tierIndex tiers b.date ≤ tierIndex tiers a.date + 1)) ∧
    pieces.IsChain (fun piece next => ∃ a b, piece.getLast? = some a ∧ next.head? = some b ∧
      tierIndex tiers a.date + 1 < tierIndex tiers b.date)
  sum : (spans.map GuildTimelineSpan.nights).sum = shown.length

theorem partitions_of_draws {rt : Runtime} {options : GuildTimelineOptions}
    {entry : DossierGuildHistoryEntry} (h : 2 ≤ (visibleNights options entry).length)
    (hdates : (visibleNights options entry).Pairwise (fun a b => text a.date b.date = .lt)) :
    Partitions rt options.tiers entry.guild (visibleNights options entry)
      (entrySpans rt options entry) := by
  have hdraws := entrySpans_draws rt h
  have hflatten := flatten_splitBy (near options.tiers) (visibleNights options entry)
  refine ⟨⟨_, hflatten, hdraws, fun piece hpiece => ⟨ne_nil_of_mem_splitBy hpiece, ?_⟩, ?_⟩, ?_⟩
  · have hsub : piece.Sublist (visibleNights options entry) := by
      rw [← hflatten]
      exact sublist_flatten_of_mem hpiece
    have hchain := isChain_of_mem_splitBy hpiece
    have hmono := (hdates.sublist hsub).isChain
    rw [isChain_iff_forall_rel_of_append_cons_cons] at hchain hmono ⊢
    intro a b before after heq
    exact ⟨tierIndex_mono _ (hmono heq), of_decide_eq_true (hchain heq)⟩
  · refine (isChain_getLast_head_splitBy _ _).imp fun piece next hgap => ?_
    obtain ⟨hpiece, hnext, hfar⟩ := hgap
    refine ⟨_, _, getLast?_eq_some_getLast hpiece, head?_eq_some_head hnext, ?_⟩
    have hfar := of_decide_eq_false hfar
    omega
  · rw [sum_draws hdraws, hflatten]

/-- Over every collection of kills: the spans of a guild with two visible nights or
more partition them, a guild with fewer has none, and no hidden character is in one. -/
theorem guild_spans_partition (rt : Runtime) (kills : List GuildKill)
    (options : GuildTimelineOptions) :
    (∀ entry ∈ collectGuildRaidNights rt kills,
      if 2 ≤ (visibleNights options entry).length then
        Partitions rt options.tiers entry.guild (visibleNights options entry)
          (spansOfGuild rt (guildTimelineSpans rt (collectGuildRaidNights rt kills) options)
            entry.guild)
      else
        spansOfGuild rt (guildTimelineSpans rt (collectGuildRaidNights rt kills) options)
          entry.guild = []) ∧
    ∀ span ∈ guildTimelineSpans rt (collectGuildRaidNights rt kills) options,
      ∀ key ∈ span.characters, options.isCharacterVisible key = true := by
  constructor
  · intro entry hentry
    rw [spansOfGuild_eq hentry]
    split
    · next hmany => exact partitions_of_draws hmany (ordered_visible hentry)
    · next hfew => exact entrySpans_nil (not_le.mp hfew)
  · intro span hspan key hkey
    obtain ⟨entry, -, hspan⟩ := mem_flatMap.mp ((mem_sortBy _).mp hspan)
    obtain ⟨piece, hshown, hdrawn⟩ := span_of_mem hspan
    obtain ⟨night, hnight, hseen⟩ := hdrawn.characters key hkey
    exact visible_of_mem (hshown night hnight) key hseen

/-! Two nights in one guild, the second two tiers after the first. -/

def raider : CharacterKey := ⟨.eu, "silvermoon", "ryii"⟩

def rancour : CharacterGuild := ⟨"Rancour", .eu, "draenor"⟩

def returningKills : List GuildKill :=
  [⟨raider, "2024-02-01T20:00:00.000Z", some rancour⟩,
    ⟨raider, "2024-09-01T20:00:00.000Z", some rancour⟩]

def openTimeline : GuildTimelineOptions where
  tiers := [⟨"Tier A", "2024-01-01"⟩, ⟨"Tier B", "2024-04-01"⟩, ⟨"Tier C", "2024-08-01"⟩,
    ⟨"Tier D", "2024-12-01"⟩]
  isCharacterVisible := fun _ => true

def returningEntry : DossierGuildHistoryEntry :=
  ⟨rancour, [⟨"2024-02-01", [raider]⟩, ⟨"2024-09-01", [raider]⟩]⟩

theorem guild_spans_partition_returning :
    Partitions plainRuntime openTimeline.tiers rancour
      [⟨"2024-02-01", [raider]⟩, ⟨"2024-09-01", [raider]⟩]
      (spansOfGuild plainRuntime (guildTimelineSpans plainRuntime
        (collectGuildRaidNights plainRuntime returningKills) openTimeline) rancour) := by
  have hentry : returningEntry ∈ collectGuildRaidNights plainRuntime returningKills := by
    decide +kernel
  exact (guild_spans_partition plainRuntime returningKills openTimeline).1 returningEntry hentry

/-- Each of the two nights is a span of its own. -/
theorem returning_spans_of_one_night :
    ¬ ∀ rt kills options, ∀ entry ∈ collectGuildRaidNights rt kills,
      ((spansOfGuild rt (guildTimelineSpans rt (collectGuildRaidNights rt kills) options)
        entry.guild).map GuildTimelineSpan.nights).sum = (visibleNights options entry).length ∧
      ∀ span ∈ spansOfGuild rt (guildTimelineSpans rt (collectGuildRaidNights rt kills) options)
        entry.guild, 2 ≤ span.nights := by
  intro h
  have hentry : returningEntry ∈ collectGuildRaidNights plainRuntime returningKills := by
    decide +kernel
  have hspans := (h plainRuntime returningKills openTimeline returningEntry hentry).2
  revert hspans
  decide +kernel

end SlashWho.GuildHistory
