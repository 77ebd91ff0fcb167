import SlashWho.RosterProfileRuns

/-!
Reservations and answers race safely. An answer is accepted from the latest
reservation of its locator and from no other, so one that comes after a newer
reservation, or after its own was answered, is not; and an answer that is not
accepted can only lengthen the cooldown.
-/

namespace SlashWho.RosterProfileResolutions

open RosterPresence (RosterProfileLocator Texts)

variable {texts : Texts} {uuid : ℕ → String} {storable : ℤ → Bool} {s : State}

theorem kept_initial : Kept uuid State.initial where
  fits := by
    intro locator row h
    cases h
  fresh := fun _ _ => ⟨rfl, rfl, rfl⟩
  made := fun _ h => absurd h List.not_mem_nil
  apart := List.nodup_nil
  granted := fun _ _ h => absurd h List.not_mem_nil
  once := fun _ => List.nodup_nil

theorem Kept.step (h : Kept uuid s) (huuid : Function.Injective uuid) (event : Event) :
    Kept uuid (step texts uuid storable s event) := by
  cases event with
  | reserve locator at_ =>
    change Kept uuid (RosterProfileResolutions.reserve texts uuid storable locator at_ s).1
    rcases @reserve_cases texts uuid storable s
      locator at_ with ⟨htable, hlog, htokens, -⟩ | ⟨now, -, hfree, heq⟩
    · refine ⟨?_, ?_, ?_, ?_, ?_, ?_⟩
      · rw [htable, hlog]
        exact h.fits
      · rw [htable, hlog]
        exact h.fresh
      · rw [hlog]
        intro token htoken
        obtain ⟨n, hlt, hmade⟩ := h.made token htoken
        exact ⟨n, lt_of_lt_of_le hlt htokens, hmade⟩
      · rw [hlog]
        exact h.apart
      · rw [hlog]
        exact h.granted
      · rw [hlog]
        exact h.once
    · rw [heq]
      exact h.reserve huuid hfree
  | answer locator token given at_ =>
    change Kept uuid (RosterProfileResolutions.answer texts storable locator token given at_ s).1
    rcases @answer_cases texts storable s locator token given at_
      with ⟨hsame, -⟩ | ⟨row, now, hrow, -, heq⟩
    · rw [hsame]
      exact h
    · rw [heq]
      exact h.answer hrow token given now

theorem kept_after (huuid : Function.Injective uuid) (events : List Event) :
    Kept uuid (Runs.after (step texts uuid storable) State.initial events) :=
  Runs.keeps (Kept uuid) (fun _ event h => h.step huuid event) kept_initial events

theorem cooldown_step {locator : RosterProfileLocator} {row : ResolutionRow}
    (hrow : s.table locator = some row) (event : Event) :
    ∃ row', (step texts uuid storable s event).table locator = some row' ∧
      NoEarlier row.retryNotBefore row'.retryNotBefore := by
  cases event with
  | reserve own at_ =>
    change ∃ row', (reserve texts uuid storable own at_ s).1.table locator = some row' ∧ _
    rcases @reserve_cases texts uuid storable s
      own at_ with ⟨htable, -⟩ | ⟨now, -, -, heq⟩
    · rw [htable]
      exact ⟨row, hrow, noEarlier_refl _⟩
    · rw [heq]
      by_cases hown : locator = own
      · subst hown
        refine ⟨_, Function.update_self _ _ _, ?_⟩
        rw [hrow]
        exact noEarlier_refl _
      · exact ⟨row, (Function.update_of_ne hown _ _).trans hrow, noEarlier_refl _⟩
  | answer own token given at_ =>
    change ∃ row', (answer texts storable own token given at_ s).1.table locator = some row' ∧ _
    rcases @answer_cases texts storable s own token given at_
      with ⟨hsame, -⟩ | ⟨found, now, hfound, -, heq⟩
    · rw [hsame]
      exact ⟨row, hrow, noEarlier_refl _⟩
    · rw [heq]
      by_cases hown : locator = own
      · subst hown
        refine ⟨_, Function.update_self _ _ _, ?_⟩
        have hsame : found = row := Option.some.inj (hfound.symm.trans hrow)
        rw [hsame]
        exact noEarlier_greatest_left _ _
      · exact ⟨row, (Function.update_of_ne hown _ _).trans hrow, noEarlier_refl _⟩

theorem cooldown_after {locator : RosterProfileLocator} {row : ResolutionRow}
    (hrow : s.table locator = some row) (later : List Event) :
    ∃ row', (Runs.after (step texts uuid storable) s later).table locator = some row' ∧
      NoEarlier row.retryNotBefore row'.retryNotBefore := by
  refine Runs.keeps (fun s' : State => ∃ row', s'.table locator = some row' ∧
    NoEarlier row.retryNotBefore row'.retryNotBefore) ?_ ⟨row, hrow, noEarlier_refl _⟩ later
  intro s' event h
  obtain ⟨row', hrow', hle⟩ := h
  obtain ⟨row'', hrow'', hle'⟩ :
      ∃ row'', (step texts uuid storable s' event).table locator = some row'' ∧
        NoEarlier row'.retryNotBefore row''.retryNotBefore := cooldown_step hrow' event
  exact ⟨row'', hrow'', hle.trans hle'⟩

/-- After every run of reservations and answers, at whatever instants: each
granted token is one reservation's. An answer is accepted only with the token of
the latest reservation of its locator, from which none was accepted before. A
reservation is granted only where every definitive answer accepted has expired,
every lease granted is over or was answered, and every cooldown asked for is
over. No later event shortens a cooldown. And an answer that is not accepted
leaves every row as it was, but that it may lengthen its own row's cooldown. -/
theorem resolution_races_are_safe (texts : Texts) (uuid : ℕ → String) (storable : ℤ → Bool)
    (huuid : Function.Injective uuid) (events later : List Event) :
    (grantedTokens (Runs.after (step texts uuid storable) State.initial events).log).Nodup ∧
      (∀ locator token given at_,
        (answer texts storable locator token given at_
          (Runs.after (step texts uuid storable) State.initial events)).2 = .ok true →
        (∃ now, (grants locator (Runs.after (step texts uuid storable) State.initial
            events).log).getLast? = some (token, now)) ∧
          token ∉ answeredTokens locator
            (Runs.after (step texts uuid storable) State.initial events).log) ∧
      (∀ locator at_ token,
        (reserve texts uuid storable locator at_
          (Runs.after (step texts uuid storable) State.initial events)).2 = .ok (some token) →
        ∃ now, at_ = some now ∧
          Over locator (Runs.after (step texts uuid storable) State.initial events).log now) ∧
      (∀ locator row,
        (Runs.after (step texts uuid storable) State.initial events).table locator = some row →
        ∃ row', (Runs.after (step texts uuid storable) State.initial
            (events ++ later)).table locator = some row' ∧
          NoEarlier row.retryNotBefore row'.retryNotBefore) ∧
      (∀ locator token given at_,
        (answer texts storable locator token given at_
          (Runs.after (step texts uuid storable) State.initial events)).2 ≠ .ok true →
        (answer texts storable locator token given at_
            (Runs.after (step texts uuid storable) State.initial events)).1.table =
          (Runs.after (step texts uuid storable) State.initial events).table ∨
        ∃ row until_,
          (Runs.after (step texts uuid storable) State.initial events).table locator = some row ∧
          NoEarlier row.retryNotBefore until_ ∧
          (answer texts storable locator token given at_
              (Runs.after (step texts uuid storable) State.initial events)).1.table =
            Function.update (Runs.after (step texts uuid storable) State.initial events).table
              locator (some { row with retryNotBefore := until_ })) := by
  have hkept : Kept uuid (Runs.after (step texts uuid storable) State.initial events) :=
    kept_after huuid events
  refine ⟨hkept.apart, ?_, ?_, ?_, ?_⟩
  · intro locator token given at_ haccepted
    rcases @answer_cases texts storable
      (Runs.after (step texts uuid storable) State.initial events) locator token given at_
      with ⟨-, hnot⟩ | ⟨row, now, hrow, -, heq⟩
    · exact absurd haccepted hnot
    · rw [heq] at haccepted
      have haccepts : row.accepts token now = true := Except.ok.inj haccepted
      obtain ⟨-, hlatest, hnew⟩ := (hkept.fits locator row hrow).accepted haccepts
      exact ⟨⟨_, hlatest⟩, hnew⟩
  · intro locator at_ token hgranted
    rcases @reserve_cases texts uuid storable
      (Runs.after (step texts uuid storable) State.initial events) locator at_
      with ⟨-, -, -, hnot⟩ | ⟨now, hat, hfree, -⟩
    · exact absurd hgranted (hnot token)
    · exact ⟨now, hat, hkept.over hfree⟩
  · intro locator row hrow
    rw [Runs.after_append]
    exact cooldown_after hrow later
  · intro locator token given at_ hrejected
    rcases @answer_cases texts storable
      (Runs.after (step texts uuid storable) State.initial events) locator token given at_
      with ⟨hsame, -⟩ | ⟨row, now, hrow, -, heq⟩
    · exact .inl (congrArg State.table hsame)
    · right
      have haccepts : row.accepts token now = false := by
        rw [heq] at hrejected
        cases hcase : row.accepts token now with
        | false => rfl
        | true =>
          rw [hcase] at hrejected
          exact absurd rfl hrejected
      refine ⟨row, _, hrow, noEarlier_greatest_left _ given.cooldown, ?_⟩
      rw [heq, haccepts]
      rfl

/-- Tokens for a short run: one letter more each. -/
def letters (n : ℕ) : String := String.ofList (List.replicate n 'a')

theorem letters_injective : Function.Injective letters := by
  intro m n h
  have hlength := congrArg (fun token => token.toList.length) h
  simpa [letters] using hlength

/-- Texts for a short run, of names in lower case. -/
def plainTexts : Texts := ⟨id, fun _ _ => .eq, fun _ => true⟩

def formerMember : RosterProfileLocator := ⟨"eu", "draenor", "ann-7", 7⟩

/-- A lease runs out and a second attempt is granted one; then the first answers late. -/
def lateAnswer : List Event :=
  [.reserve formerMember (some 0), .reserve formerMember (some leaseMs),
    .answer formerMember (letters 0) ⟨some 8, none, none⟩ (some (leaseMs + 1))]

theorem resolution_races_are_safe_late :
    grantedTokens (Runs.after (step plainTexts letters (fun _ => true)) State.initial
        lateAnswer).log = [letters 0, letters 1] ∧
      answeredTokens formerMember (Runs.after (step plainTexts letters (fun _ => true))
        State.initial lateAnswer).log = [] ∧
      ∃ now, (grants formerMember
        (Runs.after (step plainTexts letters (fun _ => true)) State.initial
          lateAnswer).log).getLast? = some (letters 1, now) := by
  have hsafe := resolution_races_are_safe plainTexts letters (fun _ => true) letters_injective
    lateAnswer []
  exact ⟨by decide +kernel, by decide +kernel, (hsafe.2.1 formerMember (letters 1) ⟨some 9, none, none⟩
    (some (leaseMs + 2)) (by decide +kernel)).1⟩

end SlashWho.RosterProfileResolutions
