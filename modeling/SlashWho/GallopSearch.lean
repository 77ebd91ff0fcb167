import Mathlib.Tactic.Common

/-!
Exponential search, then bisection, for the first place of a listing that does not lie beyond some
bound. Every place asked about is a probe of an outside state, which may refuse and so stop the
search. The places may be only roughly ordered. An invariant indexed by what is left to spend says
that probes answer truthfully; it is all that a user of the search has to supply.
-/

namespace SlashWho.GallopSearch

/-- One probe: refused, or whether the place lies beyond the bound and whether
more places follow. -/
inductive Probe (σ ε : Type*)
  | stop (reason : ε) (s : σ)
  | answer (beyond more : Bool) (s : σ)

inductive Place (σ ε : Type*)
  | stopped (reason : ε) (s : σ)
  | ended (s : σ)
  | found (first : ℕ) (s : σ)

variable {σ ε : Type*} (probe : ℕ → σ → Probe σ ε)

/-- The first place past `before`, halving the bracket; none out of fuel. -/
def bisect : ℕ → ℕ → ℕ → σ → Option (Place σ ε)
  | 0, _, _, _ => none
  | fuel + 1, before, first, s =>
    if first - before > 1 then
      match probe ((before + first) / 2) s with
      | .stop reason s => some (.stopped reason s)
      | .answer beyond _ s =>
        if beyond then bisect fuel ((before + first) / 2) first s
        else bisect fuel before ((before + first) / 2) s
    else some (.found first s)

/-- Double the place asked about until it is not beyond, then bisect. -/
def gallop (bisectFuel : ℕ) : ℕ → ℕ → ℕ → σ → Option (Place σ ε)
  | 0, _, _, _ => none
  | fuel + 1, before, first, s =>
    match probe first s with
    | .stop reason s => some (.stopped reason s)
    | .answer beyond more s =>
      if !beyond then bisect probe bisectFuel before first s
      else if !more then some (.ended s)
      else gallop bisectFuel fuel first (first * 2) s

variable {probe : ℕ → σ → Probe σ ε}

/-- While there is something left to spend, a probe answers truthfully and
spends at most one. -/
structure Answers (probe : ℕ → σ → Probe σ ε) (beyond more : ℕ → Bool)
    (Inv : ℕ → σ → Prop) : Prop where
  answers : ∀ budget place s, 1 ≤ place → Inv (budget + 1) s →
    ∃ s', probe place s = .answer (beyond place) (more place) s' ∧ Inv budget s'
  mono : ∀ budget s, Inv (budget + 1) s → Inv budget s

variable {beyond more : ℕ → Bool} {Inv : ℕ → σ → Prop}

theorem Answers.drop (h : Answers probe beyond more Inv) {budget : ℕ} {s : σ} (spare : ℕ)
    (hinv : Inv (budget + spare) s) : Inv budget s := by
  induction spare with
  | zero => exact hinv
  | succ spare ih => exact ih (h.mono _ _ hinv)

/-- What a search that was not stopped says: all places up to one lie at or
before it and no more follow, or the place found follows one beyond. -/
inductive Located (beyond more : ℕ → Bool) (Inv : ℕ → σ → Prop) (budget : ℕ) :
    Place σ ε → Prop
  | ended (place : ℕ) (s : σ) : 1 ≤ place → beyond place = true → more place = false →
      Inv budget s → Located beyond more Inv budget (.ended s)
  | found (first : ℕ) (s : σ) : 1 ≤ first → (first = 1 ∨ beyond (first - 1) = true) →
      Inv budget s → Located beyond more Inv budget (.found first s)

theorem bisect_located (h : Answers probe beyond more Inv) (budget fuel : ℕ) {before first : ℕ}
    {s : σ} (hbracket : before < first) (hbefore : before = 0 ∨ beyond before = true)
    (hfuel : first - before ≤ fuel) (hinv : Inv (budget + (first - before)) s) :
    ∃ place, bisect probe fuel before first s = some place ∧
      Located beyond more Inv budget place := by
  induction fuel generalizing before first s with
  | zero => omega
  | succ fuel ih =>
    unfold bisect
    by_cases hwide : first - before > 1
    · rw [if_pos hwide]
      obtain ⟨s', hprobe, hinv'⟩ := h.answers (budget + (first - before - 1))
        ((before + first) / 2) s (by omega) (by
          rwa [show budget + (first - before - 1) + 1 = budget + (first - before) by omega])
      rw [hprobe]
      dsimp only
      cases hbeyond : beyond ((before + first) / 2) with
      | true =>
        rw [if_pos rfl]
        refine ih (by omega) (.inr hbeyond) (by omega) ?_
        have hspare : budget + (first - before - 1) = budget + (first - (before + first) / 2) +
            (first - before - 1 - (first - (before + first) / 2)) := by omega
        rw [hspare] at hinv'
        exact h.drop _ hinv'
      | false =>
        rw [if_neg (by simp)]
        refine ih (by omega) hbefore (by omega) ?_
        have hspare : budget + (first - before - 1) = budget + ((before + first) / 2 - before) +
            (first - before - 1 - ((before + first) / 2 - before)) := by omega
        rw [hspare] at hinv'
        exact h.drop _ hinv'
    · rw [if_neg hwide]
      refine ⟨_, rfl, Located.found first s (by omega) ?_ (h.drop _ hinv)⟩
      rcases hbefore with rfl | hbeyond
      · exact .inl (by omega)
      · right
        rw [show first - 1 = before by omega]
        exact hbeyond

theorem gallop_located (h : Answers probe beyond more Inv) {last : ℕ}
    (hlast : ∀ place, last < place → beyond place = false) (budget fuel bisectFuel steps : ℕ)
    {before first : ℕ} {s : σ} (hbracket : before < first)
    (hbefore : before = 0 ∨ beyond before = true) (hfirst : first ≤ 2 * last + 1)
    (hsteps : 1 ≤ steps ∧ last + 2 ≤ first + steps) (hfuel : steps ≤ fuel)
    (hbisect : 2 * last + 1 ≤ bisectFuel)
    (hinv : Inv (budget + (2 * last + 1) + steps) s) :
    ∃ place, gallop probe bisectFuel fuel before first s = some place ∧
      Located beyond more Inv budget place := by
  induction fuel generalizing before first steps s with
  | zero => omega
  | succ fuel ih =>
    obtain ⟨s', hprobe, hinv'⟩ := h.answers (budget + (2 * last + 1) + (steps - 1)) first s
      (by omega) (by
        rwa [show budget + (2 * last + 1) + (steps - 1) + 1 =
          budget + (2 * last + 1) + steps by omega])
    unfold gallop
    rw [hprobe]
    dsimp only
    cases hbeyond : beyond first with
    | false =>
      rw [if_pos (by simp)]
      refine bisect_located h budget bisectFuel hbracket hbefore (by omega) ?_
      have hspare : budget + (2 * last + 1) + (steps - 1) = budget + (first - before) +
          (2 * last + 1 - (first - before) + (steps - 1)) := by omega
      rw [hspare] at hinv'
      exact h.drop _ hinv'
    | true =>
      have hle : first ≤ last := by
        by_contra hpast
        rw [hlast first (Nat.lt_of_not_le hpast)] at hbeyond
        cases hbeyond
      rw [if_neg (by simp)]
      cases hmore : more first with
      | false =>
        rw [if_pos (by simp)]
        refine ⟨_, rfl, Located.ended first s' (by omega) hbeyond hmore ?_⟩
        rw [Nat.add_assoc] at hinv'
        exact h.drop _ hinv'
      | true =>
        rw [if_neg (by simp)]
        exact ih (steps - 1) (by omega) (.inr hbeyond) (by omega) (by omega) (by omega) hinv'

end SlashWho.GallopSearch
