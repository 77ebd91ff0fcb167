import SlashWho.CharacterDiscovery

/-!
Rules for the passes of discovery, which nothing but the signal and the
gateway's answers can disturb, and what every interleaving of the guild workers
keeps: the snapshot's characters change in their guild only.
-/

namespace SlashWho.CharacterDiscovery

open Characters SharedStore

section Rules
variable {may : Answers} {α β : Type}

/-- Discovery runs by itself: no one else writes its variables. -/
def alone (may : Answers) :
    Discipline Bool Question (fun question => Except Thrown question.Result) where
  Does := does may
  Valid _ := True
  Allowed _ _ := True
  Rely _ _ := False

/-- Started with the precondition the pass returns with the postcondition or
throws with the last one, however it is answered. -/
def Ensures (may : Answers) (pre : DiscoveryState → Prop) (x : Pass α)
    (post : α → DiscoveryState → Prop) (fails : DiscoveryState → Prop) : Prop :=
  Routine.Meets (alone may) (fun t _ => pre t) x (fun a t _ => post a t) (fun _ t _ => fails t)

variable {pre pre' fails : DiscoveryState → Prop} {post post' : α → DiscoveryState → Prop}

variable {x : Pass α}

theorem Ensures.weaken (h : Ensures may pre x post fails) (hpre : ∀ t, pre' t → pre t)
    (hpost : ∀ a t, post a t → post' a t) :
    Ensures may pre' x post' fails :=
  Routine.Meets.weaken h (fun t _ => hpre t) (fun a t _ => hpost a t) (fun _ _ _ h => h)

theorem Ensures.of_pre {P : DiscoveryState → Prop} (h : Ensures may P x post fails)
    (hpre : ∀ t, pre t → P t) : Ensures may pre x post fails :=
  h.weaken hpre (fun _ _ h => h)

/-- Two preconditions that lead to one end. -/
theorem Ensures.or (h : Ensures may pre x post fails) (h' : Ensures may pre' x post fails) :
    Ensures may (fun t => pre t ∨ pre' t) x post fails := by
  intro t s hvalid hpre
  rcases hpre with hpre | hpre
  · exact h t s hvalid hpre
  · exact h' t s hvalid hpre

theorem ensures_pure {a : α} (h : ∀ t, pre t → post a t) :
    Ensures may pre (pure a) post fails :=
  Routine.Meets.pure (fun t _ => h t)

theorem ensures_throw {e : Thrown} (h : ∀ t, pre t → fails t) :
    Ensures may pre (throw e : Pass α) post fails :=
  Routine.Meets.throw (fun t _ => h t)

theorem Ensures.bind {f : α → Pass β} {mid : α → DiscoveryState → Prop}
    {post : β → DiscoveryState → Prop} (hx : Ensures may pre x mid fails)
    (hf : ∀ a, Ensures may (mid a) (f a) post fails) : Ensures may pre (x >>= f) post fails :=
  Routine.Meets.bind hx hf

theorem ensures_get {Q : DiscoveryState → DiscoveryState → Prop}
    (h : ∀ t, pre t → Q t t) : Ensures may pre (get : Pass DiscoveryState) Q fails :=
  Routine.Meets.get (fun t _ => h t)

variable {Q : Unit → DiscoveryState → Prop}

theorem ensures_modify {f : DiscoveryState → DiscoveryState} (h : ∀ t, pre t → Q () (f t)) :
    Ensures may pre (modify f : Pass Unit) Q fails :=
  Routine.Meets.modify (fun t _ => h t)

theorem Ensures.tryCatch {handler : Thrown → Pass α} {C : DiscoveryState → Prop}
    (hx : Ensures may pre x post C) (hcatch : ∀ e, Ensures may C (handler e) post fails) :
    Ensures may pre (tryCatch x handler) post fails :=
  Routine.Meets.tryCatch hx hcatch

theorem ensures_forM {items : List β} {f : β → Pass PUnit} {inv : DiscoveryState → Prop}
    (h : ∀ item ∈ items, Ensures may inv (f item) (fun _ => inv) fails) :
    Ensures may inv (items.forM f) (fun _ => inv) fails :=
  Routine.Meets.forM h

/-- A part of the precondition that speaks of no variable. -/
theorem Ensures.given {φ : Prop} (h : φ → Ensures may pre x post fails) :
    Ensures may (fun t => φ ∧ pre t) x post fails := by
  intro t s hvalid hpre
  exact h hpre.1 t s hvalid hpre.2

/-- A question leaves the variables alone and may be answered or reject. -/
theorem ensures_ask {question : Question} {Q : question.Result → DiscoveryState → Prop}
    (hok : ∀ t a, pre t → may question (.ok a) → Q a t)
    (herror : ∀ t, pre t → fails t) (hquestion : question ≠ .signalAborted) :
    Ensures may pre (Routine.ask question) Q fails := by
  apply Routine.Meets.ask
  intro t s u _ hothers hpre answer v hdoes
  refine ⟨trivial, ?_⟩
  have hanswer : may question answer := by
    cases question with
    | signalAborted => exact absurd rfl hquestion
    | isSuppressed key => exact hdoes.1
    | getCharacter key => exact hdoes.1
    | getClaimedCharacters ownerId => exact hdoes.1
    | resolveProfileGuess value => exact hdoes.1
  cases answer with
  | ok a => exact ⟨trivial, hok t a hpre hanswer⟩
  | error e => exact ⟨trivial, herror t hpre⟩

theorem ensures_signalAborted {Q : Bool → DiscoveryState → Prop}
    (h : ∀ t aborted, pre t → Q aborted t) :
    Ensures may pre signalAborted Q fails := by
  apply Routine.Meets.ask
  intro t s u _ hothers hpre answer v hdoes
  refine ⟨trivial, ?_⟩
  obtain ⟨hanswer, _⟩ := hdoes
  subst hanswer
  exact ⟨trivial, h t v hpre⟩

theorem ensures_throwIfAborted (hfails : ∀ t, pre t → fails t) :
    Ensures may pre throwIfAborted (fun _ => pre) fails := by
  unfold throwIfAborted
  apply (ensures_signalAborted (Q := fun _ => pre) (fun _ _ h => h)).bind
  intro aborted
  cases aborted with
  | true => exact ensures_throw hfails
  | false => exact ensures_pure (fun _ h => h)

theorem ensures_isSuppressed {key : CharacterKey} {Q : Bool → DiscoveryState → Prop}
    (hok : ∀ t suppressed, pre t → may (.isSuppressed key) (.ok suppressed) → Q suppressed t)
    (herror : ∀ t, pre t → fails t) :
    Ensures may pre (isSuppressed key) Q fails :=
  ensures_ask hok herror (by simp)

theorem ensures_note {event : Event}
    (h : ∀ t, pre t → Q () { t with trace := t.trace ++ [event] }) :
    Ensures may pre (note event) Q fails :=
  ensures_modify h

/-- A unit of the budget has been spent, and nothing else changed. -/
def Charged (pre : DiscoveryState → Prop) (t' : DiscoveryState) : Prop :=
  ∃ t, pre t ∧ t.budget ≠ 0 ∧ t' = { t with budget := t.budget - 1 }

theorem ensures_call {read : Read} {question : Question}
    {characters : question.Result → List RaiderIoCharacter} {M : DiscoveryState → Prop}
    {Q : question.Result → DiscoveryState → Prop} (hquestion : question ≠ .signalAborted)
    (hcalled : ∀ t, pre t → M { t with trace := t.trace ++ [.called read] })
    (hanswered : ∀ t a, M t → may question (.ok a) →
      Q a { t with trace := t.trace ++ [.returned read (characters a)] })
    (hfails : ∀ t, M t → fails t) :
    Ensures may pre (gatewayCall read question characters) Q fails := by
  refine (ensures_note (Q := fun _ => M) hcalled).bind (fun _ => ?_)
  refine (ensures_ask (Q := fun a t => M t ∧ may question (.ok a))
    (fun _ _ h ha => ⟨h, ha⟩) hfails hquestion).bind (fun a => ?_)
  refine (ensures_note (Q := fun _ => Q a) (fun t h => hanswered t a h.1 h.2)).bind (fun _ => ?_)
  exact ensures_pure (fun _ h => h)

/-- A request is refused without budget, or made with one unit of it spent. -/
theorem ensures_request {read : Read} {operation : Pass α}
    {post : Option α → DiscoveryState → Prop}
    (hrefused : ∀ t, pre t → t.budget = 0 →
      post none { t with capped := true, trace := t.trace ++ [.refused read] })
    (hmade : Ensures may (Charged pre) operation (fun a => post (some a)) fails) :
    Ensures may pre (request read operation) post fails := by
  unfold request
  refine (ensures_get (Q := fun seen t => pre t ∧ seen = t) (fun t h => ⟨h, rfl⟩)).bind ?_
  intro seen
  by_cases hbudget : seen.budget = 0
  · rw [if_pos hbudget]
    refine (ensures_modify (Q := fun _ t' => ∃ t, pre t ∧ t.budget = 0 ∧
      t' = { t with capped := true }) ?_).bind ?_
    · rintro t ⟨hpre, rfl⟩
      exact ⟨seen, hpre, hbudget, rfl⟩
    · intro _
      refine (ensures_note (Q := fun _ => post none) ?_).bind ?_
      · rintro t' ⟨t, hpre, hzero, rfl⟩
        exact hrefused t hpre hzero
      · intro _
        exact ensures_pure (fun _ h => h)
  · rw [if_neg hbudget]
    refine (ensures_modify (Q := fun _ => Charged pre) ?_).bind ?_
    · rintro t ⟨hpre, rfl⟩
      exact ⟨seen, hpre, hbudget, rfl⟩
    · intro _
      exact hmade.bind (fun a => ensures_pure (fun _ h => h))

/-- Nothing is asked of a pass of which nothing is to be known. -/
theorem ensures_true (x : Pass α) :
    Ensures may pre x (fun _ _ => True) (fun _ => True) := by
  intro t s _ _
  generalize x t = program
  induction program generalizing s with
  | done result =>
    obtain ⟨result, t'⟩ := result
    cases result with
    | ok a => exact ⟨trivial, trivial⟩
    | error e => exact ⟨trivial, trivial⟩
  | call question next ih =>
    intro u _ _ answer v _
    exact ⟨trivial, trivial, ih answer v trivial⟩

/-- What a pass ensures holds at the end of each of its runs. -/
theorem Ensures.runs (h : Ensures may pre x post fails) {t t' : DiscoveryState} {s s' : Bool}
    (hpre : pre t) {result : Except Thrown α} (hruns : (x t).Runs (does may) s (result, t') s') :
    match result with
    | .ok a => post a t'
    | .error _ => fails t' := by
  have hend := (h t s trivial hpre).runs trivial hruns
  cases result with
  | ok a => exact hend.2
  | error e => exact hend.2

end Rules

/-! What every pass keeps. -/

/-- One write of the passes: a read is noted, a request refused or spent, or
something else recorded, with what limits the discovery so far. -/
inductive Update : DiscoveryState → DiscoveryState → Prop
  | returned (t : DiscoveryState) (read : Read) (characters : List RaiderIoCharacter) :
      Update t { t with trace := t.trace ++ [.returned read characters] }
  | refused (t : DiscoveryState) (read : Read) (hread : read.isRelationship = true)
      (hbudget : t.budget = 0) :
      Update t { t with capped := true, trace := t.trace ++ [.refused read] }
  | called (t : DiscoveryState) (read : Read) (hread : read.isRelationship = true)
      (hbudget : t.budget ≠ 0) :
      Update t { t with budget := t.budget - 1, trace := t.trace ++ [.called read] }
  | recorded (t t' : DiscoveryState) (hbudget : t'.budget = t.budget)
      (hcapped : t'.capped = t.capped) (htrace : t'.trace = t.trace)
      (hhidden : t.privacyHidden = true → t'.privacyHidden = true)
      (homitted : t.omittedMembers = true → t'.omittedMembers = true) : Update t t'

section Keeps
variable {runtime : Runtime} {may : Answers} {Inv : DiscoveryState → Prop}
variable (hkeeps : ∀ t t', Update t t' → Inv t → Inv t')
include hkeeps

theorem keeps_modify {f : DiscoveryState → DiscoveryState}
    (hf : ∀ t, (f t).budget = t.budget ∧ (f t).capped = t.capped ∧ (f t).trace = t.trace ∧
      (t.privacyHidden = true → (f t).privacyHidden = true) ∧
      (t.omittedMembers = true → (f t).omittedMembers = true)) :
    Ensures may Inv (modify f : Pass Unit) (fun _ => Inv) Inv := by
  apply ensures_modify
  intro t h
  obtain ⟨hbudget, hcapped, htrace, hhidden, homitted⟩ := hf t
  exact hkeeps _ _ (.recorded t (f t) hbudget hcapped htrace hhidden homitted) h

omit hkeeps in
theorem keeps_throwIfAborted :
    Ensures may Inv throwIfAborted (fun _ => Inv) Inv :=
  ensures_throwIfAborted (fun _ h => h)

omit hkeeps in
theorem keeps_isSuppressed (key : CharacterKey) :
    Ensures may Inv (isSuppressed key) (fun _ => Inv) Inv :=
  ensures_isSuppressed (fun _ _ h _ => h) (fun _ h => h)

theorem keeps_called {read : Read} (hread : read.isRelationship = true) (t : DiscoveryState)
    (h : Charged Inv t) : Inv { t with trace := t.trace ++ [.called read] } := by
  obtain ⟨t, ht, hbudget, rfl⟩ := h
  exact hkeeps _ _ (.called t read hread hbudget) ht

theorem keeps_request {α : Type} {read : Read} {operation : Pass α}
    (hread : read.isRelationship = true)
    (h : Ensures may (Charged Inv) operation (fun _ => Inv) Inv) :
    Ensures may Inv (request read operation) (fun _ => Inv) Inv :=
  ensures_request (fun t ht hbudget => hkeeps _ _ (.refused t read hread hbudget) ht) h

theorem keeps_call {read : Read} {question : Question}
    {characters : question.Result → List RaiderIoCharacter}
    (hread : read.isRelationship = true) (hquestion : question ≠ .signalAborted) :
    Ensures may (Charged Inv) (gatewayCall read question characters) (fun _ => Inv) Inv :=
  ensures_call hquestion (keeps_called hkeeps hread)
    (fun t _ h _ => hkeeps _ _ (.returned t read _) h) (fun _ h => h)

theorem keeps_noteOmitted (omitted : Bool) :
    Ensures may Inv (noteOmitted omitted) (fun _ => Inv) Inv :=
  keeps_modify hkeeps (fun _ => ⟨rfl, rfl, rfl, id, fun h => by simp [h]⟩)

theorem keeps_recordMember (source : DiscoverySource) (character : RaiderIoCharacter) :
    Ensures may Inv (recordMember runtime source character) (fun _ => Inv) Inv := by
  unfold recordMember
  refine keeps_throwIfAborted.bind (fun _ => ?_)
  refine (keeps_noteOmitted hkeeps _).bind (fun _ => ?_)
  split
  · exact keeps_modify hkeeps (fun _ => ⟨rfl, rfl, rfl, id, fun _ => rfl⟩)
  · refine (keeps_isSuppressed character.key).bind (fun suppressed => ?_)
    split
    · exact ensures_pure (fun _ h => h)
    · refine keeps_throwIfAborted.bind (fun _ => ?_)
      exact keeps_modify hkeeps (fun _ => ⟨rfl, rfl, rfl, id, id⟩)

theorem keeps_recordRelated (profile : RaiderIoProfile) (source : DiscoverySource) :
    Ensures may Inv (recordRelated runtime profile source) (fun _ => Inv) Inv := by
  unfold recordRelated
  refine (keeps_noteOmitted hkeeps _).bind (fun _ => ?_)
  exact ensures_forM (fun character _ => keeps_recordMember hkeeps source character)

variable (options : DiscoverCharacterOptions)

theorem keeps_readPendingCharacter (pending : PendingCharacter) :
    Ensures may (Charged Inv) (readPendingCharacter options pending) (fun _ => Inv) Inv := by
  unfold readPendingCharacter
  split
  · refine (ensures_note (Q := fun _ => Inv) (keeps_called hkeeps rfl)).bind (fun _ => ?_)
    refine (ensures_note (Q := fun _ => Inv)
      (fun t h => hkeeps _ _ (.returned t _ _) h)).bind (fun _ => ?_)
    exact ensures_pure (fun _ h => h)
  · exact keeps_call hkeeps rfl (by simp)

theorem keeps_readPending (rounds : ℕ) :
    Ensures may Inv (readPending runtime options rounds) (fun _ => Inv) Inv := by
  induction rounds with
  | zero => exact ensures_pure (fun _ h => h)
  | succ rounds ih =>
    refine (ensures_get (Q := fun _ => Inv) (fun _ h => h)).bind (fun seen => ?_)
    split
    · exact ensures_pure (fun _ h => h)
    · rename_i pending rest _
      refine keeps_throwIfAborted.bind (fun _ => ?_)
      refine Ensures.bind (keeps_modify hkeeps (fun _ => ⟨rfl, rfl, rfl, id, id⟩))
            (fun _ => ?_)
      refine (ensures_get (Q := fun _ => Inv) (fun _ h => h)).bind (fun seen => ?_)
      split
      · exact ih
      · refine (keeps_isSuppressed pending.key).bind (fun suppressed => ?_)
        split
        · exact ih
        · refine Ensures.bind (keeps_modify hkeeps (fun _ => ⟨rfl, rfl, rfl, id, id⟩))
            (fun _ => ?_)
          refine (keeps_request hkeeps rfl
            (keeps_readPendingCharacter hkeeps options pending)).bind (fun read => ?_)
          refine keeps_throwIfAborted.bind (fun _ => ?_)
          match read with
          | none => exact ensures_pure (fun _ h => h)
          | some none => exact ensures_throw (fun _ h => h)
          | some (some character) =>
            refine (keeps_noteOmitted hkeeps _).bind (fun _ => ?_)
            split
            · split
              · exact ensures_pure (fun _ h => h)
              · refine Ensures.bind (keeps_modify hkeeps
                  (fun _ => ⟨rfl, rfl, rfl, id, fun _ => rfl⟩)) (fun _ => ?_)
                exact ih
            · refine Ensures.bind (keeps_modify hkeeps (fun _ => ⟨rfl, rfl, rfl, id, id⟩))
                (fun _ => ?_)
              exact ih

theorem keeps_readGuesses (guesses : List String) :
    Ensures may Inv (readGuesses runtime guesses) (fun _ => Inv) Inv := by
  induction guesses with
  | nil => exact ensures_pure (fun _ h => h)
  | cons guess rest ih =>
    refine (keeps_request hkeeps rfl (keeps_call hkeeps rfl (by simp))).bind (fun read => ?_)
    refine keeps_throwIfAborted.bind (fun _ => ?_)
    match read with
    | none => exact ensures_pure (fun _ h => h)
    | some none => exact ensures_throw (fun _ h => h)
    | some (some none) => exact ih
    | some (some (some profile)) =>
      exact (keeps_recordRelated hkeeps profile .profileGuess).bind (fun _ => ih)

theorem keeps_readOwners (characters : List RaiderIoCharacter) :
    Ensures may Inv (readOwners runtime characters) (fun _ => Inv) Inv := by
  induction characters with
  | nil => exact ensures_pure (fun _ h => h)
  | cons character rest ih =>
    unfold readOwners
    split
    · rename_i ownerId _
      refine (ensures_get (Q := fun _ => Inv) (fun _ h => h)).bind (fun seen => ?_)
      split
      · exact ih
      · refine Ensures.bind (keeps_modify hkeeps (fun _ => ⟨rfl, rfl, rfl, id, id⟩))
            (fun _ => ?_)
        refine (keeps_request hkeeps rfl (keeps_call hkeeps rfl (by simp))).bind
          (fun read => ?_)
        refine keeps_throwIfAborted.bind (fun _ => ?_)
        match read with
        | none => exact ensures_pure (fun _ h => h)
        | some none => exact ensures_throw (fun _ h => h)
        | some (some claimed) =>
          exact (keeps_recordRelated hkeeps claimed .claimed).bind (fun _ => ih)
    · refine Ensures.bind (keeps_modify hkeeps (fun _ => ⟨rfl, rfl, rfl, fun _ => rfl, id⟩))
        (fun _ => ?_)
      refine (keeps_readGuesses hkeeps character.guesses).bind (fun _ => ?_)
      refine (ensures_get (Q := fun _ => Inv) (fun _ h => h)).bind (fun seen => ?_)
      split
      · exact ensures_pure (fun _ h => h)
      · exact ih

theorem keeps_recordReverseDeclared (character : DiscoveredCharacter) :
    Ensures may Inv (recordReverseDeclared runtime character)
      (fun _ => Inv) Inv := by
  unfold recordReverseDeclared
  refine keeps_throwIfAborted.bind (fun _ => ?_)
  refine (keeps_isSuppressed character.key).bind (fun suppressed => ?_)
  split
  · exact ensures_pure (fun _ h => h)
  · exact keeps_modify hkeeps (fun _ => ⟨rfl, rfl, rfl, id, id⟩)

theorem keeps_discoverRelationships (root : CharacterKey)
    (options : DiscoverCharacterOptions) :
    Ensures may Inv (discoverRelationships runtime root options)
      (fun _ => Inv) Inv := by
  unfold discoverRelationships
  refine Ensures.tryCatch (C := Inv) ?_ (fun error => ?_)
  · unfold relationshipPasses
    refine (keeps_isSuppressed root).bind (fun suppressed => ?_)
    split
    · exact ensures_pure (fun _ h => h)
    · refine (keeps_readPending hkeeps options _).bind (fun ended => ?_)
      split
      · exact ensures_pure (fun _ h => h)
      · refine (ensures_get (Q := fun _ => Inv) (fun _ h => h)).bind (fun seen => ?_)
        refine (keeps_readOwners hkeeps seen.inspectedCharacters).bind (fun _ => ?_)
        refine (ensures_forM
          (fun character _ => keeps_recordReverseDeclared hkeeps character)).bind (fun _ => ?_)
        exact ensures_pure (fun _ h => h)
  · refine (ensures_signalAborted (Q := fun _ => Inv) (fun _ _ h => h)).bind
      (fun aborted => ?_)
    split
    · exact ensures_throw (fun _ h => h)
    · exact ensures_pure (fun _ h => h)

end Keeps

/-! A gateway whose answers are fixed. -/

structure FixedAnswers where
  suppressed : CharacterKey → Bool
  character : CharacterKey → Except Thrown (Option RaiderIoCharacter)
  claimed : String → Except Thrown (Option RaiderIoProfile)
  profileGuess : String → Except Thrown (Option (Option RaiderIoProfile))

def FixedAnswers.answer (w : FixedAnswers) (aborted : Bool) :
    (question : Question) → Except Thrown question.Result
  | .signalAborted => .ok aborted
  | .isSuppressed key => .ok (w.suppressed key)
  | .getCharacter key => w.character key
  | .getClaimedCharacters ownerId => w.claimed ownerId
  | .resolveProfileGuess value => w.profileGuess value

def FixedAnswers.may (w : FixedAnswers) : Answers :=
  fun question answer => answer = w.answer false question

/-- A pass run on fixed answers, the signal never aborting. -/
def FixedAnswers.run {α : Type} (w : FixedAnswers) (x : Pass α) (t : DiscoveryState) :
    (Except Thrown α × DiscoveryState) × Bool :=
  (x t).eval (fun question aborted => (w.answer aborted question, aborted)) false

theorem FixedAnswers.runs {α : Type} (w : FixedAnswers) (x : Pass α) (t : DiscoveryState) :
    (x t).Runs (does w.may) false (w.run x t).1 (w.run x t).2 := by
  apply Program.runs_eval
  intro question aborted
  cases question with
  | signalAborted => exact ⟨rfl, id⟩
  | isSuppressed key => exact ⟨rfl, rfl⟩
  | getCharacter key => exact ⟨rfl, rfl⟩
  | getClaimedCharacters ownerId => exact ⟨rfl, rfl⟩
  | resolveProfileGuess value => exact ⟨rfl, rfl⟩

/-! The guild workers. -/

def Event.read : Event → Read
  | .called read => read
  | .refused read => read
  | .returned read _ => read

def Event.isCall : Event → Bool
  | .called _ => true
  | _ => false

def calls (trace : List Event) : ℕ := trace.countP Event.isCall

/-- A worker's character is the one at its index, but for the guild. -/
def Worker.KeyedBy (characters : List DiscoveredCharacter) : Worker → Prop
  | .reading index observed _ => characters[index]? = some observed
  | .unread index observed _ => characters[index]? = some observed
  | .returning index value =>
    (characters[index]?).map DiscoveredCharacter.key = some value.key
  | _ => True

/-- One worker's step: who it moves, what it stores, what it spends and what it
notes, which is of guild reads only. -/
structure GuildPass.Moved (p p' : GuildPass) (events : List Event) : Prop where
  characters : p'.characters = p.characters
  workers : ∃ w worker, p'.workers = p.workers.set w worker ∧
    ((∀ other ∈ p.workers, other.KeyedBy p.characters) → worker.KeyedBy p.characters)
  withGuilds : p'.withGuilds = p.withGuilds ∨ ∃ index value,
    .returning index value ∈ p.workers ∧ p'.withGuilds = p.withGuilds.set index value
  trace : p'.trace = p.trace ++ events
  guildsOnly : ∀ event ∈ events, event.read.isRelationship = false
  spent : calls events + p'.budget = p.budget

theorem GuildPass.Moved.of_setWorker (p : GuildPass) (w : ℕ) {worker : Worker}
    (hcalls : worker.calls = [])
    (h : (∀ other ∈ p.workers, other.KeyedBy p.characters) → worker.KeyedBy p.characters) :
    p.Moved (p.setWorker w worker) [] where
  characters := rfl
  workers := ⟨w, worker, rfl, h⟩
  withGuilds := Or.inl rfl
  trace := congrArg (p.trace ++ ·) hcalls
  guildsOnly := by simp
  spent := Nat.zero_add _

/-- A guild read calls the gateway once, for the unit it is charged. -/
theorem GuildPass.optionalRequest_moved (p : GuildPass) (w next : ℕ) {index : ℕ}
    {observed : DiscoveredCharacter} (attempt : ℕ)
    (hobserved : (∀ other ∈ p.workers, other.KeyedBy p.characters) →
      p.characters[index]? = some observed) :
    ∃ events, p.Moved
      ({ p with nextGuildRead := next }.optionalRequest w index observed attempt) events := by
  unfold GuildPass.optionalRequest
  split
  · refine ⟨[.refused (.guild observed.key)], rfl, ⟨w, _, rfl, hobserved⟩, .inl rfl,
      List.append_nil _, ?_, ?_⟩
    · simp [Event.read, Read.isRelationship]
    · exact Nat.zero_add _
  · rename_i hbudget
    refine ⟨[.called (.guild observed.key)], rfl, ⟨w, _, rfl, hobserved⟩, .inl rfl, rfl, ?_, ?_⟩
    · simp [Event.read, Read.isRelationship]
    · show 1 + (p.budget - 1) = p.budget
      have hpos : p.budget ≠ 0 := hbudget
      omega

variable {p p' : GuildPass}

theorem GuildPass.Moved.drop {events : List Event} (h : p.Moved p' events) (dropped : ℕ) :
    p.Moved { p' with guildReadsDropped := dropped } events :=
  ⟨h.characters, h.workers, h.withGuilds, h.trace, h.guildsOnly, h.spent⟩

theorem GuildPass.Step.moved {may : Answers} (hstep : GuildPass.Step may p p') :
    (∃ events, p.Moved p' events) ∨ p' = { p with aborted := true } := by
  cases hstep with
  | readNext w hw =>
    left
    unfold GuildPass.readNext
    split
    · exact ⟨[], .of_setWorker p w rfl (fun _ => trivial)⟩
    · split
      · exact ⟨[], .of_setWorker p w rfl (fun _ => trivial)⟩
      · split
        · exact ⟨[], .of_setWorker p w rfl (fun _ => trivial)⟩
        · rename_i observed hobserved
          exact p.optionalRequest_moved w (p.nextGuildRead + 1) 1 (fun _ => hobserved)
  | leaveUnread w index observed attempt hw =>
    left
    have hreturns : (∀ other ∈ p.workers, other.KeyedBy p.characters) →
        (Worker.returning index observed).KeyedBy p.characters := by
      intro hkeyed
      have hobserved : p.characters[index]? = some observed := hkeyed _ (List.mem_of_getElem? hw)
      simp [Worker.KeyedBy, hobserved]
    unfold GuildPass.leaveUnread
    split
    · exact ⟨[], .of_setWorker p w rfl (fun _ => trivial)⟩
    · split
      · exact ⟨[], (GuildPass.Moved.of_setWorker p w rfl hreturns).drop _⟩
      · exact ⟨[], .of_setWorker p w rfl hreturns⟩
  | settle w index observed attempt answer hw _ =>
    left
    have hobserved : (∀ other ∈ p.workers, other.KeyedBy p.characters) →
        p.characters[index]? = some observed :=
      fun hkeyed => hkeyed _ (List.mem_of_getElem? hw)
    have hreturns (guild : Option CharacterGuild)
        (hkeyed : ∀ other ∈ p.workers, other.KeyedBy p.characters) :
        (Worker.returning index { observed with guild := guild }).KeyedBy p.characters := by
      simp [Worker.KeyedBy, hobserved hkeyed]
    have hnoted (events : List Event) (worker : Worker) (dropped : ℕ) (hcalls : worker.calls = [])
        (hworker : (∀ other ∈ p.workers, other.KeyedBy p.characters) →
          worker.KeyedBy p.characters) (detailed : Option RaiderIoCharacter)
        (hevents : events = [.returned (.guild observed.key) detailed.toList]) :
        p.Moved ({ p with trace := p.trace ++ events, guildReadsDropped := dropped }.setWorker w
          worker) events := by
      subst hevents
      exact ⟨rfl, ⟨w, worker, rfl, hworker⟩, .inl rfl,
        (congrArg (_ ++ ·) hcalls).trans (List.append_nil _),
        by simp [Event.read, Read.isRelationship], Nat.zero_add _⟩
    unfold GuildPass.settle
    cases answer with
    | ok detailed =>
      dsimp only
      split
      · exact ⟨_, hnoted _ _ p.guildReadsDropped rfl (fun _ => trivial) detailed rfl⟩
      · cases detailed with
        | some detailed =>
          exact ⟨_, hnoted _ _ p.guildReadsDropped rfl (hreturns detailed.guild) _ rfl⟩
        | none =>
          exact ⟨_, hnoted _ _ (p.guildReadsDropped + 1) rfl (hreturns observed.guild) none rfl⟩
    | error error =>
      dsimp only
      split
      · exact ⟨[], .of_setWorker p w rfl (fun _ => trivial)⟩
      · split
        · exact p.optionalRequest_moved w p.nextGuildRead (attempt + 1) hobserved
        · exact ⟨[], (GuildPass.Moved.of_setWorker p w rfl (hreturns observed.guild)).drop _⟩
  | store w index value hw =>
    left
    exact ⟨[], rfl, ⟨w, .atHead, rfl, fun _ => trivial⟩,
      .inr ⟨index, value, List.mem_of_getElem? hw, rfl⟩, rfl, by simp, Nat.zero_add _⟩
  | abort => exact .inr rfl

structure GuildPass.Keyed (p : GuildPass) : Prop where
  keys : p.withGuilds.map DiscoveredCharacter.key = p.characters.map DiscoveredCharacter.key
  workers : ∀ worker ∈ p.workers, worker.KeyedBy p.characters

theorem GuildPass.Keyed.moved {events : List Event} (h : p.Keyed) (hmoved : p.Moved p' events) :
    p'.Keyed := by
  constructor
  · rw [hmoved.characters]
    rcases hmoved.withGuilds with hsame | ⟨index, value, hvalue, hset⟩
    · rw [hsame]
      exact h.keys
    · have hkey : (p.characters[index]?).map DiscoveredCharacter.key = some value.key :=
        h.workers _ hvalue
      rw [hset, List.map_set, h.keys]
      apply List.ext_getElem?
      intro i
      rw [List.getElem?_set]
      split
      · rename_i heq
        subst heq
        rw [List.getElem?_map, hkey]
        have hlt : index < p.characters.length := by
          by_contra hge
          rw [List.getElem?_eq_none (by omega)] at hkey
          simp at hkey
        simp [hlt]
      · rfl
  · obtain ⟨w, worker, hset, hworker⟩ := hmoved.workers
    rw [hmoved.characters, hset]
    intro other hother
    rcases List.mem_or_eq_of_mem_set hother with hold | rfl
    · exact h.workers other hold
    · exact hworker h.workers

/-- Whatever the workers do, the snapshot's keys are those put together before. -/
theorem guilds_keep_keys {runtime : Runtime} {may : Answers} {t : DiscoveryState} {aborted : Bool}
    (hguilds : Relation.ReflTransGen (GuildPass.Step may) (.start runtime t aborted) p) :
    p.withGuilds.map DiscoveredCharacter.key =
      (snapshotCharacters runtime t).map DiscoveredCharacter.key := by
  have hkeyed : p.Keyed ∧ p.characters = snapshotCharacters runtime t := by
    induction hguilds with
    | refl =>
      refine ⟨⟨rfl, ?_⟩, rfl⟩
      intro worker hworker
      rw [List.eq_of_mem_replicate hworker]
      trivial
    | tail _ hstep ih =>
      rcases hstep.moved with ⟨events, hmoved⟩ | rfl
      · exact ⟨ih.1.moved hmoved, hmoved.characters.trans ih.2⟩
      · exact ⟨⟨ih.1.keys, ih.1.workers⟩, ih.2⟩
  rw [hkeyed.1.keys, hkeyed.2]

end SlashWho.CharacterDiscovery
