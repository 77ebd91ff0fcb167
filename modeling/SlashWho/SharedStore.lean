import Mathlib.Logic.Relation
import Mathlib.Tactic.Common

/-!
Programs that call on one shared store. A program makes one call at a time,
and between two of its calls others may step the store. A program is safe when
each call it makes keeps the store valid and steps it as allowed, whatever the
others did before it, and its end meets its postcondition. Any number of safe
programs run together, in any order, take allowed steps only.
-/

namespace SlashWho.SharedStore

/-- A program is a result, or a call and what it does with each answer. -/
inductive Program (Call : Type) (Answer : Call → Type) (α : Type)
  | done (result : α)
  | call (request : Call) (next : Answer request → Program Call Answer α)

def Program.bind {Call : Type} {Answer : Call → Type} {α β : Type}
    (p : Program Call Answer α) (f : α → Program Call Answer β) : Program Call Answer β :=
  match p with
  | .done result => f result
  | .call request next => .call request (fun answer => (next answer).bind f)

/-- A program's run by itself: each call is answered as the store does it. -/
inductive Program.Runs {σ Call : Type} {Answer : Call → Type} {α : Type}
    (does : (request : Call) → σ → Answer request → σ → Prop) :
    Program Call Answer α → σ → α → σ → Prop
  | done (result : α) (s : σ) : Runs does (.done result) s result s
  | call (request : Call) (next : Answer request → Program Call Answer α) (s u v : σ)
      (answer : Answer request) (result : α) (hdoes : does request s answer u)
      (hnext : Runs does (next answer) u result v) : Runs does (.call request next) s result v

/-- The run on a store that answers by a function. -/
def Program.eval {σ Call : Type} {Answer : Call → Type} {α : Type}
    (does : (request : Call) → σ → Answer request × σ) : Program Call Answer α → σ → α × σ
  | .done result, s => (result, s)
  | .call request next, s => (next (does request s).1).eval does (does request s).2

theorem Program.runs_eval {σ Call : Type} {Answer : Call → Type} {α : Type}
    {does : (request : Call) → σ → Answer request → σ → Prop}
    {answers : (request : Call) → σ → Answer request × σ}
    (h : ∀ request s, does request s (answers request s).1 (answers request s).2)
    (p : Program Call Answer α) (s : σ) :
    p.Runs does s (p.eval answers s).1 (p.eval answers s).2 := by
  induction p generalizing s with
  | done result => exact .done result s
  | call request next ih => exact .call request next s _ _ _ _ (h request s) (ih _ _)

/-- A store: what a call may do to it and answer, which states are valid, which
steps a program's call may take, and which others may take between its calls. -/
structure Discipline (σ Call : Type) (Answer : Call → Type) where
  Does : (request : Call) → σ → Answer request → σ → Prop
  Valid : σ → Prop
  Allowed : σ → σ → Prop
  Rely : σ → σ → Prop

variable {σ Call : Type} {Answer : Call → Type} {α β : Type}
variable (d : Discipline σ Call Answer)

/-- Steps others may take from a state. -/
def Discipline.Others (s u : σ) : Prop := Relation.ReflTransGen d.Rely s u

/-- Whatever allowed steps come between its calls, each call of the program is
an allowed step, and it ends as the postcondition says. -/
def Safe (post : α → σ → Prop) : Program Call Answer α → σ → Prop
  | .done result, s => post result s
  | .call request next, s => ∀ u, d.Valid u → d.Others s u → ∀ answer v,
      d.Does request u answer v → d.Valid v ∧ d.Allowed u v ∧ Safe post (next answer) v

variable {d}

variable {p : Program Call Answer α}

theorem Safe.mono {post post' : α → σ → Prop} {s : σ} (h : Safe d post p s)
    (hpost : ∀ result s, post result s → post' result s) :
    Safe d post' p s := by
  induction p generalizing s with
  | done result => exact hpost result s h
  | call request next ih =>
    intro u hvalid hothers answer v hdoes
    obtain ⟨hkept, hallowed, hnext⟩ := h u hvalid hothers answer v hdoes
    exact ⟨hkept, hallowed, ih answer hnext⟩

theorem Safe.bind {post : α → σ → Prop} {post' : β → σ → Prop} {f : α → Program Call Answer β}
    {s : σ} (h : Safe d post p s) (hf : ∀ result s, post result s → Safe d post' (f result) s) :
    Safe d post' (p.bind f) s := by
  induction p generalizing s with
  | done result => exact hf result s h
  | call request next ih =>
    intro u hvalid hothers answer v hdoes
    obtain ⟨hkept, hallowed, hnext⟩ := h u hvalid hothers answer v hdoes
    exact ⟨hkept, hallowed, ih answer hnext⟩

theorem Safe.runs {post : α → σ → Prop} {s v : σ} {result : α} (h : Safe d post p s)
    (hvalid : d.Valid s) (hruns : p.Runs d.Does s result v) :
    post result v := by
  induction hruns with
  | done result s => exact h
  | call request next s u v answer result hdoes _ ih =>
    obtain ⟨hkept, _, hnext⟩ := h s hvalid .refl answer u hdoes
    exact ih hnext hkept

/-! Many programs on one store. -/

variable {ι : Type}

variable (d : Discipline σ Call Answer)
variable (program : ι → Program Call Answer α)
variable (others : σ → σ → Prop)

variable {d : Discipline σ Call Answer} {program : ι → Program Call Answer α}
variable {others : σ → σ → Prop} {post : ι → α → σ → Prop}

/-! Programs with variables of their own, whose calls may throw. -/

/-- A routine ends with a result or a throw, and its variables as they stand then. -/
def Routine (Call : Type) (Result : Call → Type) (ε τ α : Type) : Type :=
  τ → Program Call (fun request => Except ε (Result request)) (Except ε α × τ)

namespace Routine
variable {Call : Type} {Result : Call → Type} {ε τ α β : Type}

instance : Monad (Routine Call Result ε τ) where
  pure a := fun t => .done (.ok a, t)
  bind x f := fun t => (x t).bind fun
    | (.ok a, t') => f a t'
    | (.error e, t') => .done (.error e, t')

instance : MonadStateOf τ (Routine Call Result ε τ) where
  get := fun t => .done (.ok t, t)
  set t := fun _ => .done (.ok (), t)
  modifyGet f := fun t => .done (.ok (f t).1, (f t).2)

instance : MonadExceptOf ε (Routine Call Result ε τ) where
  throw e := fun t => .done (.error e, t)
  tryCatch x handler := fun t => (x t).bind fun
    | (.ok a, t') => .done (.ok a, t')
    | (.error e, t') => handler e t'

def ask (request : Call) : Routine Call Result ε τ (Result request) :=
  fun t => .call request (fun answer => .done (answer, t))

variable (d : Discipline σ Call (fun request => Except ε (Result request)))

/-- How a routine may end. -/
def Ends (post : α → τ → σ → Prop) (fails : ε → τ → σ → Prop) :
    Except ε α × τ → σ → Prop
  | (.ok a, t), s => d.Valid s ∧ post a t s
  | (.error e, t), s => d.Valid s ∧ fails e t s

/-- Started in a valid state with the precondition, the routine is safe: it
returns with the postcondition or throws with the last condition. -/
def Meets (pre : τ → σ → Prop) (x : Routine Call Result ε τ α) (post : α → τ → σ → Prop)
    (fails : ε → τ → σ → Prop) : Prop :=
  ∀ t s, d.Valid s → pre t s → Safe d (Ends d post fails) (x t) s

variable {d} {pre pre' : τ → σ → Prop} {x : Routine Call Result ε τ α}
variable {post post' : α → τ → σ → Prop} {fails fails' : ε → τ → σ → Prop}

theorem Meets.weaken (h : Meets d pre x post fails) (hpre : ∀ t s, pre' t s → pre t s)
    (hpost : ∀ a t s, post a t s → post' a t s) (hfails : ∀ e t s, fails e t s → fails' e t s) :
    Meets d pre' x post' fails' := by
  intro t s hvalid hs
  apply (h t s hvalid (hpre t s hs)).mono
  rintro ⟨result | a, t'⟩ u ⟨hkept, hend⟩
  · exact ⟨hkept, hfails _ _ _ hend⟩
  · exact ⟨hkept, hpost _ _ _ hend⟩

theorem Meets.pure {a : α} (h : ∀ t s, pre t s → post a t s) :
    Meets d pre (Pure.pure a : Routine Call Result ε τ α) post fails :=
  fun t s hvalid hs => ⟨hvalid, h t s hs⟩

theorem Meets.throw {e : ε} (h : ∀ t s, pre t s → fails e t s) :
    Meets d pre (throw e : Routine Call Result ε τ α) post fails :=
  fun t s hvalid hs => ⟨hvalid, h t s hs⟩

theorem Meets.bind {mid : α → τ → σ → Prop} {f : α → Routine Call Result ε τ β}
    {post : β → τ → σ → Prop} (hx : Meets d pre x mid fails)
    (hf : ∀ a, Meets d (mid a) (f a) post fails) : Meets d pre (x >>= f) post fails := by
  intro t s hvalid hs
  apply (hx t s hvalid hs).bind
  rintro ⟨e | a, t'⟩ u ⟨hkept, hend⟩
  · exact ⟨hkept, hend⟩
  · exact hf a t' u hkept hend

theorem Meets.get {post : τ → τ → σ → Prop} (h : ∀ t s, pre t s → post t t s) :
    Meets d pre (get : Routine Call Result ε τ τ) post fails :=
  fun t s hvalid hs => ⟨hvalid, h t s hs⟩

theorem Meets.modify {f : τ → τ} {post : Unit → τ → σ → Prop}
    (h : ∀ t s, pre t s → post () (f t) s) :
    Meets d pre (modify f : Routine Call Result ε τ Unit) post fails :=
  fun t s hvalid hs => ⟨hvalid, h t s hs⟩

theorem Meets.ask {request : Call} {post : Result request → τ → σ → Prop}
    (h : ∀ t s u, d.Valid u → d.Others s u → pre t s → ∀ answer v, d.Does request u answer v →
      d.Allowed u v ∧ Ends d post fails (answer, t) v) :
    Meets d pre (ask request) post fails := by
  intro t s hvalid hs u hkept hothers answer v hdoes
  obtain ⟨hallowed, hend⟩ := h t s u hkept hothers hs answer v hdoes
  refine ⟨?_, hallowed, hend⟩
  cases answer with
  | error e => exact hend.1
  | ok result => exact hend.1

theorem Meets.tryCatch {handler : ε → Routine Call Result ε τ α} {caught : ε → τ → σ → Prop}
    (hx : Meets d pre x post caught) (hcatch : ∀ e, Meets d (caught e) (handler e) post fails) :
    Meets d pre (tryCatch x handler) post fails := by
  intro t s hvalid hs
  apply (hx t s hvalid hs).bind
  rintro ⟨e | a, t'⟩ u ⟨hkept, hend⟩
  · exact hcatch e t' u hkept hend
  · exact ⟨hkept, hend⟩

theorem Meets.forM {items : List β} {f : β → Routine Call Result ε τ PUnit}
    {inv : τ → σ → Prop} (h : ∀ item ∈ items, Meets d inv (f item) (fun _ => inv) fails) :
    Meets d inv (items.forM f) (fun _ => inv) fails := by
  induction items with
  | nil => exact Meets.pure (fun _ _ h => h)
  | cons item rest ih =>
    apply Meets.bind (h item List.mem_cons_self)
    intro _
    exact ih (fun other hother => h other (List.mem_cons_of_mem _ hother))

end Routine

end SlashWho.SharedStore
