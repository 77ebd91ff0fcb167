import SlashWho.CuttingEdgeGathering

/-!
The batch and the tail come to what the serial rule comes to. However the reads
of the batch settle, the outcomes are those of the leading subjects by position;
the first abort among them by position is the first the serial pass meets; and
from there the tail runs as the serial pass does, which skips what the tail's
loop breaks off at.
-/

namespace SlashWho.CuttingEdgeGathering

open List

variable {α : Type*}

/-- The positions listed hold their values, and the others nothing. -/
def filled (n : ℕ) (f : ℕ → Option α) (positions : List ℕ) : List (Option α) :=
  (List.range n).map (fun index => if index ∈ positions then f index else none)

variable (n : ℕ)

theorem filled_nil (f : ℕ → Option α) : filled n f [] = List.replicate n none := by
  unfold filled
  rw [eq_replicate_iff]
  constructor
  · rw [length_map, length_range]
  · intro value hvalue
    obtain ⟨index, -, hindex⟩ := mem_map.mp hvalue
    rw [← hindex, if_neg not_mem_nil]

theorem filled_congr (f : ℕ → Option α) {positions positions' : List ℕ}
    (h : ∀ index, index ∈ positions ↔ index ∈ positions') :
    filled n f positions = filled n f positions' := by
  unfold filled
  refine map_congr_left (fun index _ => ?_)
  rw [if_congr (h index) rfl rfl]

theorem set_filled (f : ℕ → Option α) (positions : List ℕ) (index : ℕ) :
    (filled n f positions).set index (f index) = filled n f (index :: positions) := by
  unfold filled
  refine ext_getElem ?_ ?_
  · rw [length_set, length_map, length_map]
  · intro i hi hi'
    rw [getElem_set, getElem_map, getElem_map, getElem_range]
    by_cases heq : index = i
    · subst heq
      rw [if_pos rfl, if_pos mem_cons_self]
    · rw [if_neg heq, if_congr (mem_cons.trans (or_iff_right (Ne.symm heq))) rfl rfl]

theorem findSome?_filled {β : Type*} (n : ℕ) (f : ℕ → Option α) (p : ℕ → Bool)
    (g : Option α → Option β) (hnone : g none = none) :
    (filled n f ((List.range n).filter p)).findSome? g =
      ((List.range n).filter p).findSome? (fun index => g (f index)) := by
  have hmem : ∀ index ∈ List.range n, (if index ∈ (List.range n).filter p then f index else none) =
      if p index then f index else none := by
    intro index hindex
    exact if_congr (by rw [mem_filter, and_iff_right hindex]) rfl rfl
  unfold filled
  rw [map_congr_left hmem]
  induction List.range n with
  | nil => rfl
  | cons index rest ih =>
    rw [map_cons, findSome?_cons]
    cases hp : p index with
    | true =>
      rw [filter_cons_of_pos hp, findSome?_cons, if_pos rfl]
      cases g (f index) with
      | none => exact ih
      | some found => rfl
    | false =>
      rw [filter_cons_of_neg (by rw [hp]; decide), if_neg (by decide), hnone]
      exact ih

theorem any_filled (f : ℕ → Option α) (p : ℕ → Bool) (g : Option α → Bool)
    (hnone : g none = false) :
    (filled n f ((List.range n).filter p)).any g =
      ((List.range n).filter p).any (fun index => g (f index)) := by
  rw [Bool.eq_iff_iff, any_eq_true, any_eq_true]
  unfold filled
  constructor
  · intro h
    obtain ⟨value, hvalue, hg⟩ := h
    obtain ⟨index, hindex, hsame⟩ := mem_map.mp hvalue
    by_cases hin : index ∈ (List.range n).filter p
    · rw [if_pos hin] at hsame
      exact ⟨index, hin, hsame ▸ hg⟩
    · rw [if_neg hin] at hsame
      rw [← hsame, hnone] at hg
      cases hg
  · intro h
    obtain ⟨index, hin, hg⟩ := h
    refine ⟨f index, mem_map.mpr ⟨index, mem_of_mem_filter hin, ?_⟩, hg⟩
    rw [if_pos hin]

variable (subjects : List DossierSubject) (options : Options)

theorem nodup_leading : (leading subjects).Nodup := nodup_range.filter _

/-- The reads of the batch that have settled. -/
def settledOf (settled : List ℕ) : List ℕ :=
  (leading subjects).filter (fun index => index ∈ settled)

theorem after_settle (settled : List ℕ) :
    Runs.after (settle subjects options) (Batch.start subjects) settled =
      ⟨filled subjects.length (readAt subjects options) (settledOf subjects settled),
        (leading subjects).filter (fun index => index ∉ settled)⟩ := by
  refine Runs.keeps_history (fun settled (batch : Batch) => batch =
    Batch.mk (filled subjects.length (readAt subjects options) (settledOf subjects settled))
      ((leading subjects).filter (fun index => index ∉ settled))) ?_ ?_ settled
  · unfold Batch.start settledOf
    have hnone : (leading subjects).filter (fun index => index ∈ ([] : List ℕ)) = [] := by
      simp
    have hall : (leading subjects).filter (fun index => index ∉ ([] : List ℕ)) =
        leading subjects := by
      simp
    rw [hnone, hall, filled_nil]
  · intro before index h
    rw [h]
    unfold settle
    dsimp only
    by_cases hwaiting : index ∈ (leading subjects).filter (fun index => index ∉ before)
    · rw [if_pos hwaiting]
      obtain ⟨hleading, hnew⟩ := mem_filter.mp hwaiting
      congr 1
      · rw [set_filled]
        apply filled_congr
        intro own
        unfold settledOf
        rw [mem_cons, mem_filter, mem_filter, decide_eq_true_eq,
          decide_eq_true_eq, mem_append, mem_singleton]
        constructor
        · intro hown
          rcases hown with hsame | ⟨hin, hbefore⟩
          · rw [hsame]
            exact ⟨hleading, .inr rfl⟩
          · exact ⟨hin, .inl hbefore⟩
        · intro hown
          obtain ⟨hin, hbefore | hsame⟩ := hown
          · exact .inr ⟨hin, hbefore⟩
          · exact .inl hsame
      · have hone : ((leading subjects).filter (fun index => index ∉ before)).Nodup :=
          (nodup_leading subjects).filter _
        rw [hone.erase_eq_filter, filter_filter]
        refine filter_congr (fun own _ => ?_)
        by_cases hsame : own = index
        · subst hsame
          simp
        · simp [hsame]
    · rw [if_neg hwaiting]
      have hold : ∀ own ∈ leading subjects, own ∈ before ++ [index] ↔ own ∈ before := by
        intro own hown
        rw [mem_append, mem_singleton]
        constructor
        · intro hin
          rcases hin with hin | hsame
          · exact hin
          · by_contra hout
            refine hwaiting (mem_filter.mpr ⟨hsame ▸ hown, ?_⟩)
            exact decide_eq_true (hsame ▸ hout)
        · exact .inl
      congr 1
      · apply filled_congr
        intro own
        unfold settledOf
        rw [mem_filter, mem_filter, decide_eq_true_eq, decide_eq_true_eq]
        constructor
        · exact fun h => ⟨h.1, (hold own h.1).mpr h.2⟩
        · exact fun h => ⟨h.1, (hold own h.1).mp h.2⟩
      · refine filter_congr (fun own hown => ?_)
        exact decide_eq_decide.mpr (not_congr (hold own hown).symm)

/-- Over subjects that are not fingerprint-derived the serial pass skips none. -/
theorem serialLoop_leading {positions : List ℕ}
    (hpositions : ∀ index ∈ positions, isFingerprint subjects index = false) (rest : List ℕ)
    (filledSo : List ℕ) (established : Bool) :
    serialLoop subjects options (positions ++ rest)
        (filled subjects.length (readAt subjects options) filledSo) established =
      match positions.findSome? (fun index =>
          (readAt subjects options index).bind CuttingEdgeOutcome.aborts) with
      | some error => .error error
      | none =>
        serialLoop subjects options rest
          (filled subjects.length (readAt subjects options) (positions.reverse ++ filledSo))
          (established || positions.any (fun index =>
            (readAt subjects options index).any CuttingEdgeOutcome.settles)) := by
  induction positions generalizing filledSo established with
  | nil => rw [any_nil, Bool.or_false]; rfl
  | cons index positions ih =>
    have hfirst := hpositions index mem_cons_self
    have hrest := fun own hown => hpositions own (mem_cons_of_mem _ hown)
    rw [cons_append, serialLoop, hfirst, findSome?_cons, any_cons]
    have hset := set_filled subjects.length (readAt subjects options) filledSo index
    cases hread : readAt subjects options index with
    | none =>
      rw [hread] at hset
      rw [Bool.false_and, if_neg (by decide)]
      dsimp only [Option.bind_none]
      rw [hset, ih hrest, reverse_cons, append_assoc, ← Bool.or_assoc]
      rfl
    | some outcome =>
      rw [hread] at hset
      cases outcome with
      | abort error => rfl
      | evidence supported establishes =>
        rw [Bool.false_and, if_neg (by decide)]
        dsimp only [Option.bind_some, CuttingEdgeOutcome.aborts]
        rw [hset, ih hrest, reverse_cons, append_assoc, ← Bool.or_assoc]
        rfl
      | limitation item =>
        rw [Bool.false_and, if_neg (by decide)]
        dsimp only [Option.bind_some, CuttingEdgeOutcome.aborts]
        rw [hset, ih hrest, reverse_cons, append_assoc, ← Bool.or_assoc]
        rfl

theorem serialLoop_tail {positions : List ℕ}
    (hpositions : ∀ index ∈ positions, isFingerprint subjects index = true)
    (outcomes : List (Option CuttingEdgeOutcome)) (established : Bool) :
    serialLoop subjects options positions outcomes established =
      tailLoop subjects options positions outcomes established := by
  induction positions generalizing outcomes established with
  | nil => rfl
  | cons index positions ih =>
    have hfirst := hpositions index mem_cons_self
    have hrest := fun own hown => hpositions own (mem_cons_of_mem _ hown)
    rw [serialLoop, tailLoop, hfirst, Bool.true_and]
    cases established with
    | true =>
      rw [if_pos rfl, if_pos rfl, ih hrest]
      cases positions with
      | nil => rfl
      | cons next rest => rw [tailLoop, if_pos rfl]
    | false =>
      rw [if_neg (by decide), if_neg (by decide)]
      split
      · rfl
      · rw [Bool.false_or]
        exact ih hrest _ _

/-- For every list of subjects, whatever each one's read comes to, and in whatever
order reads settle: once every read of the batch has settled, the gathering comes
to what the serial rule comes to, and before that to nothing. -/
theorem gathering_is_serial (settled : List ℕ) :
    gatherCuttingEdgeEvidence subjects options settled =
      if ∀ index ∈ leading subjects, index ∈ settled then some (serialPass subjects options)
      else none := by
  unfold gatherCuttingEdgeEvidence
  rw [after_settle]
  dsimp only
  by_cases hall : ∀ index ∈ leading subjects, index ∈ settled
  · have hwaiting : (leading subjects).filter (fun index => index ∉ settled) = [] := by
      refine filter_eq_nil_iff.mpr (fun index hindex => ?_)
      simpa using hall index hindex
    have hdone : settledOf subjects settled = leading subjects := by
      refine filter_eq_self.mpr (fun index hindex => ?_)
      exact decide_eq_true (hall index hindex)
    rw [if_pos hwaiting, if_pos hall, hdone]
    have hlead : ∀ index ∈ leading subjects, isFingerprint subjects index = false := by
      intro index hindex
      simpa using (mem_filter.mp hindex).2
    have htail : ∀ index ∈ tail subjects, isFingerprint subjects index = true :=
      fun index hindex => (mem_filter.mp hindex).2
    have hsame : filled subjects.length (readAt subjects options)
        ((leading subjects).reverse ++ []) =
          filled subjects.length (readAt subjects options) (leading subjects) := by
      apply filled_congr
      intro index
      rw [append_nil, mem_reverse]
    unfold serialPass afterBatch
    rw [← filled_nil subjects.length (readAt subjects options),
      serialLoop_leading subjects options hlead, hsame, serialLoop_tail subjects options htail]
    have habort := findSome?_filled subjects.length (readAt subjects options)
      (fun index => !isFingerprint subjects index)
      (fun outcome => outcome.bind CuttingEdgeOutcome.aborts) rfl
    have hestablished := any_filled subjects.length (readAt subjects options)
      (fun index => !isFingerprint subjects index)
      (fun outcome => outcome.any CuttingEdgeOutcome.settles) rfl
    unfold leading
    rw [habort, hestablished, Bool.false_or]
    cases List.findSome? (fun index =>
        (readAt subjects options index).bind CuttingEdgeOutcome.aborts)
        ((List.range subjects.length).filter (fun index => !isFingerprint subjects index)) with
    | none => rfl
    | some error => rfl
  · have hwaiting : (leading subjects).filter (fun index => index ∉ settled) ≠ [] := by
      intro hnone
      refine hall (fun index hindex => ?_)
      have hout := filter_eq_nil_iff.mp hnone index hindex
      simpa using hout
    rw [if_neg hwaiting, if_neg hall]

end SlashWho.CuttingEdgeGathering
