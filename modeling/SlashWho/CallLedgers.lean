import Mathlib.Data.List.Nodup

/-!
Calls that are answered at once or held and answered later. Calls are numbered
as they come, each with what it asks. A held call is held under one key, and
with what it asks; when it is answered it is held no more. In such a ledger
every call is answered once, with the result of what it asks, or is still held.
-/

namespace SlashWho.CallLedgers

open List

variable {κ β ρ : Type*} {result : β → ρ}

/-- The calls so far, the answers in their order, and the calls held. -/
structure Ledger (result : β → ρ) (asked : List β) (answered : List (ℕ × ρ))
    (held : κ → Option (ℕ × β)) : Prop where
  once : (answered.map Prod.fst).Nodup
  right : ∀ e ∈ answered, ∃ body, asked[e.1]? = some body ∧ e.2 = result body
  own : ∀ k e, held k = some e → asked[e.1]? = some e.2 ∧ e.1 ∉ answered.map Prod.fst
  apart : ∀ k k' e e', held k = some e → held k' = some e' → e.1 = e'.1 → k = k'
  every : ∀ call < asked.length, call ∈ answered.map Prod.fst ∨ ∃ k e, held k = some e ∧ e.1 = call

theorem ledger_nil : Ledger result [] [] (fun _ : κ => none) where
  once := nodup_nil
  right := fun e he => absurd he not_mem_nil
  own := by
    intro k e h
    cases h
  apart := by
    intro k k' e e' h
    cases h
  every := fun call hcall => absurd hcall (Nat.not_lt_zero call)

variable {asked : List β} {answered : List (ℕ × ρ)} {held : κ → Option (ℕ × β)}

variable {call : ℕ}

theorem lt_of_asked {body : β} (h : asked[call]? = some body) : call < asked.length := by
  obtain ⟨hlt, -⟩ := List.getElem?_eq_some_iff.mp h
  exact hlt

theorem asked_append {body : β} (h : asked[call]? = some body) (more : List β) :
    (asked ++ more)[call]? = some body := by
  rw [getElem?_append_left (lt_of_asked h)]
  exact h

theorem Ledger.lt_of_answered (h : Ledger result asked answered held)
    (hcall : call ∈ answered.map Prod.fst) : call < asked.length := by
  obtain ⟨e, he, hfirst⟩ := mem_map.mp hcall
  obtain ⟨body, hasked, -⟩ := h.right e he
  rw [← hfirst]
  exact lt_of_asked hasked

theorem Ledger.answer (h : Ledger result asked answered held) (body : β) :
    Ledger result (asked ++ [body]) (answered ++ [(asked.length, result body)]) held where
  once := by
    rw [map_append]
    refine nodup_append.mpr ⟨h.once, nodup_singleton _, ?_⟩
    intro call hcall new hnew heq
    have hlt := h.lt_of_answered hcall
    rw [heq, mem_singleton.mp hnew] at hlt
    exact absurd hlt (Nat.lt_irrefl _)
  right := by
    intro e he
    rcases mem_append.mp he with hin | hin
    · obtain ⟨own, hasked, hresult⟩ := h.right e hin
      exact ⟨own, asked_append hasked _, hresult⟩
    · rw [mem_singleton.mp hin]
      exact ⟨body, getElem?_concat_length, rfl⟩
  own := by
    intro k e he
    obtain ⟨hasked, hout⟩ := h.own k e he
    refine ⟨asked_append hasked _, ?_⟩
    rw [map_append]
    intro hin
    rcases mem_append.mp hin with hold | hnew
    · exact hout hold
    · have hlt := lt_of_asked hasked
      rw [mem_singleton.mp hnew] at hlt
      exact absurd hlt (Nat.lt_irrefl _)
  apart := h.apart
  every := by
    intro call hcall
    rw [length_append, length_singleton] at hcall
    rw [map_append]
    by_cases hnew : call = asked.length
    · rw [hnew]
      exact .inl (mem_append_right _ (mem_singleton_self _))
    · rcases h.every call (by omega) with hin | hheld
      · exact .inl (mem_append_left _ hin)
      · exact .inr hheld

theorem filter_eq_singleton {answered : List (ℕ × ρ)} (h : (answered.map Prod.fst).Nodup)
    {e : ℕ × ρ} (he : e ∈ answered) : answered.filter (fun e' => e'.1 = e.1) = [e] := by
  induction answered with
  | nil => exact absurd he not_mem_nil
  | cons first rest ih =>
    obtain ⟨hfirst, hrest⟩ := nodup_cons.mp h
    have hnone : ∀ {call : ℕ}, call ∉ rest.map Prod.fst →
        rest.filter (fun e' => e'.1 = call) = [] := by
      intro call hout
      refine filter_eq_nil_iff.mpr (fun e' he' heq => hout ?_)
      exact of_decide_eq_true heq ▸ mem_map_of_mem he'
    rcases mem_cons.mp he with hsame | hin
    · subst hsame
      rw [filter_cons_of_pos (by simp), hnone hfirst]
    · have hne : first.1 ≠ e.1 := fun heq => hfirst (heq ▸ mem_map_of_mem hin)
      rw [filter_cons_of_neg (by simpa using hne), ih hrest hin]

theorem Ledger.answers (h : Ledger result asked answered held) {body : β}
    (hcall : asked[call]? = some body) :
    answered.filter (fun e => e.1 = call) = [(call, result body)] ∨
      (answered.filter (fun e => e.1 = call) = [] ∧ ∃ k, held k = some (call, body)) := by
  rcases h.every call (lt_of_asked hcall) with hin | hheld
  · left
    obtain ⟨e, he, hfirst⟩ := mem_map.mp hin
    obtain ⟨own, hasked, hresult⟩ := h.right e he
    subst hfirst
    rw [filter_eq_singleton h.once he]
    have hsame : own = body := Option.some.inj (hasked.symm.trans hcall)
    rw [← hsame, ← hresult]
  · right
    obtain ⟨k, e, he, hfirst⟩ := hheld
    obtain ⟨hasked, hout⟩ := h.own k e he
    subst hfirst
    have hsame : e.2 = body := Option.some.inj (hasked.symm.trans hcall)
    refine ⟨filter_eq_nil_iff.mpr (fun e' he' heq => hout ?_), k, ?_⟩
    · exact of_decide_eq_true heq ▸ mem_map_of_mem he'
    · rw [he, ← hsame]

variable {held' : κ → Option (ℕ × β)}

/-- A new call, held under a free key. -/
theorem Ledger.hold [DecidableEq κ] (h : Ledger result asked answered held) (body : β) {k : κ}
    (hfree : held k = none)
    (hheld : ∀ k', held' k' = if k' = k then some (asked.length, body) else held k') :
    Ledger result (asked ++ [body]) answered held' where
  once := h.once
  right := by
    intro e he
    obtain ⟨own, hasked, hresult⟩ := h.right e he
    exact ⟨own, asked_append hasked _, hresult⟩
  own := by
    intro k' e he
    rw [hheld] at he
    by_cases hk : k' = k
    · rw [if_pos hk, Option.some.injEq] at he
      subst he
      refine ⟨getElem?_concat_length, fun hin => ?_⟩
      exact absurd (h.lt_of_answered hin) (Nat.lt_irrefl _)
    · rw [if_neg hk] at he
      obtain ⟨hasked, hout⟩ := h.own k' e he
      exact ⟨asked_append hasked _, hout⟩
  apart := by
    intro k₁ k₂ e₁ e₂ h₁ h₂ hcall
    rw [hheld] at h₁ h₂
    by_cases hk₁ : k₁ = k
    · by_cases hk₂ : k₂ = k
      · rw [hk₁, hk₂]
      · rw [if_pos hk₁, Option.some.injEq] at h₁
        rw [if_neg hk₂] at h₂
        have hlt := lt_of_asked (h.own k₂ e₂ h₂).1
        rw [← hcall, ← h₁] at hlt
        exact absurd hlt (Nat.lt_irrefl _)
    · by_cases hk₂ : k₂ = k
      · rw [if_neg hk₁] at h₁
        rw [if_pos hk₂, Option.some.injEq] at h₂
        have hlt := lt_of_asked (h.own k₁ e₁ h₁).1
        rw [hcall, ← h₂] at hlt
        exact absurd hlt (Nat.lt_irrefl _)
      · rw [if_neg hk₁] at h₁
        rw [if_neg hk₂] at h₂
        exact h.apart k₁ k₂ e₁ e₂ h₁ h₂ hcall
  every := by
    intro call hcall
    rw [length_append, length_singleton] at hcall
    by_cases hnew : call = asked.length
    · right
      refine ⟨k, (asked.length, body), ?_, hnew.symm⟩
      rw [hheld, if_pos rfl]
    · rcases h.every call (by omega) with hin | hold
      · exact .inl hin
      · obtain ⟨k', e, he, hfirst⟩ := hold
        right
        refine ⟨k', e, ?_, hfirst⟩
        have hne : k' ≠ k := by
          intro heq
          rw [heq, hfree] at he
          cases he
        rw [hheld, if_neg hne]
        exact he

theorem Ledger.settle [DecidableEq κ] (h : Ledger result asked answered held)
    {calls : List (κ × (ℕ × β))} (hkeys : (calls.map Prod.fst).Nodup)
    (hcalls : ∀ c ∈ calls, held c.1 = some c.2)
    (hheld : ∀ k, held' k = if k ∈ calls.map Prod.fst then none else held k) :
    Ledger result asked (answered ++ calls.map (fun c => (c.2.1, result c.2.2))) held' where
  once := by
    rw [map_append, map_map]
    refine nodup_append.mpr ⟨h.once, ?_, ?_⟩
    · refine List.Nodup.map_on ?_ (List.Nodup.of_map _ hkeys)
      intro c hc c' hc' hcall
      have hkey := h.apart c.1 c'.1 c.2 c'.2 (hcalls c hc) (hcalls c' hc') hcall
      have hboth := (hcalls c hc).symm.trans ((congrArg held hkey).trans (hcalls c' hc'))
      exact Prod.ext hkey (Option.some.inj hboth)
    · intro call hcall call' hcall' heq
      obtain ⟨c, hc, hfirst⟩ := mem_map.mp hcall'
      refine (h.own c.1 c.2 (hcalls c hc)).2 ?_
      change c.2.1 = call' at hfirst
      rw [hfirst, ← heq]
      exact hcall
  right := by
    intro e he
    rcases mem_append.mp he with hin | hin
    · exact h.right e hin
    · obtain ⟨c, hc, hpair⟩ := mem_map.mp hin
      subst hpair
      exact ⟨c.2.2, (h.own c.1 c.2 (hcalls c hc)).1, rfl⟩
  own := by
    intro k e he
    rw [hheld] at he
    by_cases hk : k ∈ calls.map Prod.fst
    · rw [if_pos hk] at he
      cases he
    · rw [if_neg hk] at he
      obtain ⟨hasked, hout⟩ := h.own k e he
      refine ⟨hasked, ?_⟩
      rw [map_append, map_map]
      intro hin
      rcases mem_append.mp hin with hold | hnew
      · exact hout hold
      · obtain ⟨c, hc, hfirst⟩ := mem_map.mp hnew
        have hkey := h.apart c.1 k c.2 e (hcalls c hc) he hfirst
        exact hk (hkey ▸ mem_map_of_mem hc)
  apart := by
    intro k k' e e' he he' hcall
    rw [hheld] at he he'
    by_cases hk : k ∈ calls.map Prod.fst
    · rw [if_pos hk] at he
      cases he
    · by_cases hk' : k' ∈ calls.map Prod.fst
      · rw [if_pos hk'] at he'
        cases he'
      · rw [if_neg hk] at he
        rw [if_neg hk'] at he'
        exact h.apart k k' e e' he he' hcall
  every := by
    intro call hcall
    rw [map_append, map_map]
    rcases h.every call hcall with hin | hold
    · exact .inl (mem_append_left _ hin)
    · obtain ⟨k, e, he, hfirst⟩ := hold
      by_cases hk : k ∈ calls.map Prod.fst
      · obtain ⟨c, hc, hkey⟩ := mem_map.mp hk
        have hsame : c.2 = e := by
          have hboth := (hcalls c hc).symm.trans ((congrArg held hkey).trans he)
          exact Option.some.inj hboth
        left
        apply mem_append_right
        exact mem_map.mpr ⟨c, hc, by rw [← hfirst, ← hsame]; rfl⟩
      · right
        refine ⟨k, e, ?_, hfirst⟩
        rw [hheld, if_neg hk]
        exact he

theorem Ledger.settle_one [DecidableEq κ] (h : Ledger result asked answered held) {k : κ}
    {call : ℕ} {body : β} (hk : held k = some (call, body))
    (hheld : ∀ k', held' k' = if k' = k then none else held k') :
    Ledger result asked (answered ++ [(call, result body)]) held' := by
  have hone : ([(k, (call, body))].map Prod.fst).Nodup := nodup_singleton _
  refine h.settle hone ?_ ?_
  · intro c hc
    rw [mem_singleton.mp hc]
    exact hk
  · intro k'
    rw [hheld]
    by_cases hkey : k' = k
    · have hin : k' ∈ [(k, (call, body))].map Prod.fst := mem_singleton.mpr hkey
      rw [if_pos hkey, if_pos hin]
    · have hout : k' ∉ [(k, (call, body))].map Prod.fst :=
        fun hin => hkey (mem_singleton.mp hin)
      rw [if_neg hkey, if_neg hout]

end SlashWho.CallLedgers
