import SlashWho.ApplicantDossier
import SlashWho.CatalogueLookups

/-!
Whether a Warcraft Logs kill and a Raider.IO first kill are one kill, as the collection decides it
from the names a log gives and as the dossier decides it from the encounter the catalogue places the
kill in. They part where only the dossier places a kill, by its journal id, its boss's unique name
or a sibling raid, and where only the collection names one.
-/

namespace SlashWho.ApplicantDossier

open List ComparatorSort RaidCatalogue Characters

variable (rt : Runtime) (generated : Generated) (first : DossierRaiderIoFirstKill)

/-- How far a kill lies from a first kill it may still be matched to. -/
def qualified (kill : CatalogueMatchedKill) : Option ℤ :=
  (distance rt kill.killedAt first.killedAt).filter (fun d =>
    !kill.raiderIoFirstKill.isSome && decide (d ≤ storedKillMatchMs))

/-- Nearer in time, or as near and earlier in the evidence ordering. -/
def Closer (d : ℤ) (kill : CatalogueMatchedKill) (held : Match) : Prop :=
  d < held.distance ∨ (d = held.distance ∧ compareKills rt kill held.kill = .lt)

instance (d : ℤ) (kill : CatalogueMatchedKill) (held : Match) :
    Decidable (Closer rt d kill held) := inferInstanceAs (Decidable (_ ∨ _))

theorem considerCandidate_eq (matched : Option Match) (candidate : CatalogueMatchedKill × ℕ) :
    considerCandidate rt first matched candidate =
      match qualified rt first candidate.1 with
      | none => matched
      | some d =>
        match matched with
        | none => some ⟨candidate.1, candidate.2, d⟩
        | some held =>
          if Closer rt d candidate.1 held then some ⟨candidate.1, candidate.2, d⟩
          else some held := by
  unfold considerCandidate qualified
  cases distance rt candidate.1.killedAt first.killedAt with
  | none => rfl
  | some d =>
    rw [Option.filter_some]
    by_cases hmatched : candidate.1.raiderIoFirstKill.isSome = true
    · simp [hmatched]
    · by_cases hnear : d ≤ storedKillMatchMs
      · cases matched with
        | none => simp [hmatched, hnear]
        | some held =>
          by_cases hcloser : Closer rt d candidate.1 held
          · have htakes := hcloser
            unfold Closer at htakes
            simp [hmatched, hnear, hcloser, htakes]
          · have hkeeps := hcloser
            unfold Closer at hkeeps
            simp [hmatched, hnear, hcloser, hkeeps]
      · simp [hnear]

/-- What the fold holds after the candidates seen: none that qualify, or the closest. -/
def HoldsClosest (seen : List (CatalogueMatchedKill × ℕ)) : Option Match → Prop
  | none => ∀ candidate ∈ seen, qualified rt first candidate.1 = none
  | some held =>
    (held.kill, held.index) ∈ seen ∧ qualified rt first held.kill = some held.distance ∧
      ∀ candidate ∈ seen, ∀ d, qualified rt first candidate.1 = some d →
        ¬ Closer rt d candidate.1 held

theorem Closer.trans {d : ℤ} {kill : CatalogueMatchedKill} {nearer held : Match}
    (h : Closer rt d kill nearer) (hheld : Closer rt nearer.distance nearer.kill held) :
    Closer rt d kill held := by
  rcases h with hd | ⟨hd, hcmp⟩
  · rcases hheld with hd' | ⟨hd', -⟩
    · exact .inl (hd.trans hd')
    · exact .inl (by omega)
  · rcases hheld with hd' | ⟨hd', hcmp'⟩
    · exact .inl (by omega)
    · exact .inr ⟨by omega, Std.TransCmp.lt_trans hcmp hcmp'⟩

theorem not_closer_self (held : Match) : ¬ Closer rt held.distance held.kill held := by
  rintro (h | ⟨-, h⟩)
  · omega
  · have hself : compareKills rt held.kill held.kill = .eq := Std.ReflCmp.compare_self
    rw [hself] at h
    cases h

variable {seen : List (CatalogueMatchedKill × ℕ)}

theorem considerCandidate_holds {matched : Option Match} (h : HoldsClosest rt first seen matched)
    (candidate : CatalogueMatchedKill × ℕ) :
    HoldsClosest rt first (seen ++ [candidate]) (considerCandidate rt first matched candidate) := by
  rw [considerCandidate_eq]
  cases hq : qualified rt first candidate.1 with
  | none =>
    cases matched with
    | none =>
      intro c hc
      rcases mem_append.mp hc with hc | hc
      · exact h c hc
      · rw [mem_singleton.mp hc, hq]
    | some held =>
      obtain ⟨hin, hheld, hbest⟩ := h
      refine ⟨mem_append_left _ hin, hheld, ?_⟩
      intro c hc d hd
      rcases mem_append.mp hc with hc | hc
      · exact hbest c hc d hd
      · rw [mem_singleton.mp hc, hq] at hd
        cases hd
  | some d =>
    have hnew : (candidate.1, candidate.2) ∈ seen ++ [candidate] :=
      mem_append_right _ (mem_singleton_self _)
    cases matched with
    | none =>
      refine ⟨hnew, hq, ?_⟩
      intro c hc d' hd'
      rcases mem_append.mp hc with hc | hc
      · rw [h c hc] at hd'
        cases hd'
      · rw [mem_singleton.mp hc, hq] at hd'
        obtain rfl := Option.some.inj hd'
        rw [mem_singleton.mp hc]
        exact not_closer_self rt ⟨candidate.1, candidate.2, d⟩
    | some held =>
      obtain ⟨hin, hheld, hbest⟩ := h
      by_cases hcloser : Closer rt d candidate.1 held
      · change HoldsClosest rt first _ (if Closer rt d candidate.1 held then
          some ⟨candidate.1, candidate.2, d⟩ else some held)
        rw [if_pos hcloser]
        refine ⟨hnew, hq, ?_⟩
        intro c hc d' hd' hc'
        rcases mem_append.mp hc with hc | hc
        · exact hbest c hc d' hd' (Closer.trans rt hc' hcloser)
        · rw [mem_singleton.mp hc, hq] at hd'
          obtain rfl := Option.some.inj hd'
          rw [mem_singleton.mp hc] at hc'
          exact not_closer_self rt ⟨candidate.1, candidate.2, d⟩ hc'
      · change HoldsClosest rt first _ (if Closer rt d candidate.1 held then
          some ⟨candidate.1, candidate.2, d⟩ else some held)
        rw [if_neg hcloser]
        refine ⟨mem_append_left _ hin, hheld, ?_⟩
        intro c hc d' hd'
        rcases mem_append.mp hc with hc | hc
        · exact hbest c hc d' hd'
        · rw [mem_singleton.mp hc, hq] at hd'
          obtain rfl := Option.some.inj hd'
          rw [mem_singleton.mp hc]
          exact hcloser

theorem foldl_considerCandidate_holds (candidates : List (CatalogueMatchedKill × ℕ))
    {matched : Option Match} (h : HoldsClosest rt first seen matched) :
    HoldsClosest rt first (seen ++ candidates)
      (candidates.foldl (considerCandidate rt first) matched) := by
  induction candidates generalizing seen matched with
  | nil => rwa [append_nil]
  | cons candidate rest ih =>
    have hnext := ih (considerCandidate_holds rt first h candidate)
    rwa [append_assoc, singleton_append] at hnext

def candidatesOf (kills : List CatalogueMatchedKill) : List (CatalogueMatchedKill × ℕ) :=
  kills.zipIdx.filter (fun candidate => isIndexed rt generated first candidate.1)

theorem nearestKill_holds (kills : List CatalogueMatchedKill) :
    HoldsClosest rt first (candidatesOf rt generated first kills)
      (nearestKill rt generated first kills) := by
  have hempty : HoldsClosest rt first [] none := by
    intro candidate hin
    cases hin
  exact foldl_considerCandidate_holds rt first _ hempty

variable (supplied : DossierKillEvidence)

/-- How the catalogue comes to place a kill. -/
inductive Placement
  | nonRaidZone
  | byName (encounter : RaidCatalogueEncounter)
  | byJournalId (encounter : RaidCatalogueEncounter)
  | byShortenedName (encounter : RaidCatalogueEncounter)
  | bySiblingRaid (encounter : RaidCatalogueEncounter)
  | byUniqueName (encounter : RaidCatalogueEncounter)
  | unplaced

variable {rt : Runtime} (catalogue : Catalogue rt)

variable {e : RaidCatalogueEncounter}

def Placement.encounter : Placement → Option RaidCatalogueEncounter
  | .nonRaidZone | .unplaced => none
  | .byName e | .byJournalId e | .byShortenedName e | .bySiblingRaid e | .byUniqueName e => some e

theorem lookupRaidByName_inj (catalogue : Catalogue rt) {a b : String} {r r' : RaidCatalogueRaid}
    (ha : lookupRaidByName rt catalogue.toGenerated a = some r)
    (hb : lookupRaidByName rt catalogue.toGenerated b = some r') (hid : r.raidId = r'.raidId) :
    r = r' := by
  obtain ⟨entry, hentry, rfl, -⟩ := lookupRaidByName_eq ha
  obtain ⟨entry', hentry', rfl, -⟩ := lookupRaidByName_eq hb
  have hnodup : (catalogue.raids.zipIdx.map (fun e => e.1.journalRaidId)).Nodup := by
    have hfst : catalogue.raids.zipIdx.map Prod.fst = catalogue.raids := zipIdx_map_fst 0 _
    have hids := catalogue.nodup_raidIds
    rw [← hfst, map_map] at hids
    exact hids
  rw [inj_on_of_nodup_map hnodup hentry hentry' hid]

/-- A kill under the zone name Warcraft Logs gives the raid, which names no raid of the Journal. -/
def shortZoneKill : DossierKillEvidence where
  character := ⟨.eu, "silvermoon", "ryun"⟩
  killedAt := "2020-02-20T21:00:00.000Z"
  guild := none
  historicWorldRank := none
  reportUrl := some "https://www.warcraftlogs.com/reports/a1b2#fight=7"
  uploader := none
  loggedAs := none
  performance := ⟨none, .unavailable, .unavailable, .unavailable⟩
  raidName := "Ny'alotha"
  bossName := "Maut"
  bossOrder := 2
  journalBossId := none

def ryun : DossierCharacter := ⟨shortZoneKill.character, ⟨"ryun", by decide⟩⟩

end SlashWho.ApplicantDossier
