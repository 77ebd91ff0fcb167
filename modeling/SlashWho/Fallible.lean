import Mathlib.Tactic.Common

/-!
Rules for code that may throw. A sequence that succeeds succeeded at each of
its steps, and what every step of a loop keeps, a loop that succeeds keeps. Where
what is thrown matters too, both ends are stated at once.
-/

namespace SlashWho.Fallible

open List

variable {ε α σ : Type}

theorem ok_of_bind_ok {β : Type} {x : Except ε α} {f : α → Except ε β} {b : β}
    (h : (x >>= f) = .ok b) : ∃ a, x = .ok a ∧ f a = .ok b := by
  cases x with
  | error e => cases h
  | ok a => exact ⟨a, rfl, h⟩

variable {f : σ → α → Except ε σ}

variable {P : σ → Prop} {items : List α}

theorem foldlM_keeps {s s' : σ} (hstep : ∀ item ∈ items, ∀ u u', P u → f u item = .ok u' → P u')
    (hstart : P s) (h : items.foldlM f s = .ok s') : P s' := by
  induction items generalizing s with
  | nil =>
    cases h
    exact hstart
  | cons item rest ih =>
    rw [foldlM_cons] at h
    obtain ⟨u, hu, hrest⟩ := ok_of_bind_ok h
    apply ih (fun i hi => hstep i (mem_cons_of_mem _ hi)) _ hrest
    exact hstep item mem_cons_self s u hstart hu

/-- A property that one item's step brings about and the others keep holds after the loop. -/
theorem foldlM_reaches {s s' : σ} {item : α} (hitem : item ∈ items)
    (hreach : ∀ u u', f u item = .ok u' → P u')
    (hstep : ∀ i ∈ items, ∀ u u', P u → f u i = .ok u' → P u') (h : items.foldlM f s = .ok s') :
    P s' := by
  induction items generalizing s with
  | nil => simp at hitem
  | cons first rest ih =>
    rw [foldlM_cons] at h
    obtain ⟨u, hu, hrest⟩ := ok_of_bind_ok h
    have hkeep : ∀ i ∈ rest, ∀ v v', P v → f v i = .ok v' → P v' :=
      fun i hi => hstep i (mem_cons_of_mem _ hi)
    rcases mem_cons.mp hitem with rfl | hin
    · exact foldlM_keeps hkeep (hreach s u hu) hrest
    · exact ih hin hkeep hrest

/-- So it does where the steps rely on what they all keep. -/
theorem foldlM_reaches_of {Inv : σ → Prop} {s s' : σ} {item : α} (hitem : item ∈ items)
    (hinv : ∀ i ∈ items, ∀ u u', Inv u → f u i = .ok u' → Inv u')
    (hreach : ∀ u u', Inv u → f u item = .ok u' → P u')
    (hstep : ∀ i ∈ items, ∀ u u', Inv u → P u → f u i = .ok u' → P u') (hstart : Inv s)
    (h : items.foldlM f s = .ok s') : P s' := by
  induction items generalizing s with
  | nil => simp at hitem
  | cons first rest ih =>
    rw [foldlM_cons] at h
    obtain ⟨u, hu, hrest⟩ := ok_of_bind_ok h
    have hfirst := hinv first mem_cons_self s u hstart hu
    have hinvRest : ∀ i ∈ rest, ∀ v v', Inv v → f v i = .ok v' → Inv v' :=
      fun i hi => hinv i (mem_cons_of_mem _ hi)
    have hkeep : ∀ i ∈ rest, ∀ v v', Inv v → P v → f v i = .ok v' → P v' :=
      fun i hi => hstep i (mem_cons_of_mem _ hi)
    rcases mem_cons.mp hitem with heq | hin
    · rw [← heq] at hu
      have hboth := foldlM_keeps (P := fun v => Inv v ∧ P v)
        (fun i hi v v' hv hv' => ⟨hinvRest i hi v v' hv.1 hv', hkeep i hi v v' hv.1 hv.2 hv'⟩)
        ⟨hfirst, hreach s u hstart hu⟩ hrest
      exact hboth.2
    · exact ih hin hinvRest hkeep hfirst hrest

theorem foldlM_congr {g : σ → α → Except ε σ} (h : ∀ item ∈ items, ∀ s, f s item = g s item)
    (s : σ) :
    items.foldlM f s = items.foldlM g s := by
  induction items generalizing s with
  | nil => rfl
  | cons item rest ih =>
    rw [foldlM_cons, foldlM_cons, h item mem_cons_self s]
    apply bind_congr
    intro next
    exact ih (fun i hi => h i (mem_cons_of_mem _ hi)) next

variable {β : Type} {good : α → Prop} {bad : ε → Prop}

/-- What holds of the result, or of what was thrown. -/
def Ends (good : α → Prop) (bad : ε → Prop) : Except ε α → Prop
  | .ok a => good a
  | .error e => bad e

variable {x : Except ε α}

theorem Ends.imp {good' : α → Prop} (h : Ends good bad x) (himp : ∀ a, good a → good' a) :
    Ends good' bad x := by
  cases x with
  | ok a => exact himp a h
  | error e => exact h

theorem Ends.imp_bad {bad' : ε → Prop} (h : Ends good bad x) (himp : ∀ e, bad e → bad' e) :
    Ends good bad' x := by
  cases x with
  | ok a => exact h
  | error e => exact himp e h

theorem Ends.bind {after : β → Prop} {f : α → Except ε β} (hx : Ends good bad x)
    (hf : ∀ a, good a → Ends after bad (f a)) :
    Ends after bad (x >>= f) := by
  cases x with
  | ok a => exact hf a hx
  | error e => exact hx

theorem Ends.map {after : β → Prop} {f : α → β} (hx : Ends good bad x)
    (hf : ∀ a, good a → after (f a)) : Ends after bad (x.map f) := by
  cases x with
  | ok a => exact hf a hx
  | error e => exact hx

/-- A loop invariant that speaks of the items still to come. -/
theorem ends_foldlM {f : σ → α → Except ε σ} (Inv : List α → σ → Prop)
    (hstep : ∀ item rest u, Inv (item :: rest) u → Ends (Inv rest) bad (f u item))
    {items : List α} {s : σ} (hstart : Inv items s) :
    Ends (Inv []) bad (items.foldlM f s) := by
  induction items generalizing s with
  | nil => exact hstart
  | cons item rest ih =>
    rw [foldlM_cons]
    exact (hstep item rest s hstart).bind (fun u hu => ih hu)

end SlashWho.Fallible
