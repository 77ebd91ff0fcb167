import SlashWho.ObservationAudit
import SlashWho.ObservationWrites

/-!
The writer and the replay agree. Per observer and family, the ledger rows that
were not blocked are in order of run start and of write time, since the marker
never moves back; so the replay's sort leaves them as they were written, and
its newest `replaced` row is the last write that retracted. What that write
spared, and every write since, is exactly what the rule allows.
-/

namespace SlashWho.ObservationReplay

open List Characters CharacterConnections ObservationAudit Fallible

theorem familyOfSource_eq (source : ObservationSource) : familyOfSource source = familyOf source :=
  rfl

theorem monotone_getTime : Monotone getTime := fun _ _ h => Nat.div_le_div_right h

/-! The suffix from the last `replaced` row. -/

theorem sinceReplaced_append_replaced (rows : List LedgerRow) {row : LedgerRow}
    (h : row.decision = .replaced) : sinceReplaced (rows ++ [row]) = [row] := by
  induction rows with
  | nil => simp [sinceReplaced, h]
  | cons first rest ih =>
    rw [cons_append, sinceReplaced, ih]

theorem sinceReplaced_append_of_ne (rows : List LedgerRow) {row : LedgerRow}
    (h : row.decision ≠ .replaced) :
    sinceReplaced (rows ++ [row]) =
      if sinceReplaced rows = [] then [] else sinceReplaced rows ++ [row] := by
  induction rows with
  | nil => simp [sinceReplaced, h]
  | cons first rest ih =>
    rw [cons_append, sinceReplaced, ih, sinceReplaced]
    cases hrest : sinceReplaced rest with
    | nil => by_cases hfirst : first.decision = .replaced <;> simp [hfirst]
    | cons newest later => simp

theorem replaced_of_sinceReplaced {rows : List LedgerRow} {newest : LedgerRow}
    {later : List LedgerRow} (h : sinceReplaced rows = newest :: later) :
    newest ∈ rows ∧ newest.decision = .replaced := by
  induction rows with
  | nil => cases h
  | cons row rest ih =>
    rw [sinceReplaced] at h
    cases hrest : sinceReplaced rest with
    | nil =>
      rw [hrest] at h
      by_cases hrow : row.decision = .replaced
      · simp only [hrow, if_true, List.cons.injEq] at h
        obtain ⟨rfl, -⟩ := h
        exact ⟨mem_cons_self, hrow⟩
      · simp [hrow] at h
    | cons newest' later' =>
      rw [hrest] at h
      obtain ⟨rfl, rfl⟩ := List.cons.inj h
      obtain ⟨hmem, hdecision⟩ := ih hrest
      exact ⟨mem_cons_of_mem _ hmem, hdecision⟩

/-- Dropping rows that are not `replaced` drops them from the suffix alone. -/
theorem sinceReplaced_filter (keep : LedgerRow → Bool) (rows : List LedgerRow)
    (h : ∀ row ∈ rows, row.decision = .replaced → keep row = true) :
    sinceReplaced (rows.filter keep) = (sinceReplaced rows).filter keep := by
  induction rows with
  | nil => rfl
  | cons first rest ih =>
    have ih := ih fun row hrow => h row (mem_cons_of_mem _ hrow)
    by_cases hkeep : keep first = true
    · rw [filter_cons_of_pos hkeep, sinceReplaced, ih, sinceReplaced]
      cases hrest : sinceReplaced rest with
      | nil => by_cases hfirst : first.decision = .replaced <;> simp [hfirst, hkeep]
      | cons newest later =>
        obtain ⟨hmem, hdecision⟩ := replaced_of_sinceReplaced hrest
        simp [h newest (mem_cons_of_mem _ hmem) hdecision]
    · have hfirst : first.decision ≠ .replaced := fun hdecision =>
        hkeep (h first mem_cons_self hdecision)
      rw [filter_cons_of_neg hkeep, ih, sinceReplaced]
      cases hrest : sinceReplaced rest <;> simp [hfirst]

/-! The replay's order. A stable sort leaves rows already in order as they were. -/

theorem filter_insertionSort (keep : LedgerRow → Bool) (rows : List LedgerRow)
    (h : (rows.filter keep).Pairwise chronological) :
    (rows.insertionSort chronological).filter keep = rows.filter keep := by
  have hsub : (rows.filter keep).Sublist (rows.insertionSort chronological) :=
    sublist_insertionSort h filter_sublist
  have hkept : (rows.filter keep).Sublist ((rows.insertionSort chronological).filter keep) := by
    simpa using hsub.filter keep
  have hperm := (perm_insertionSort chronological rows).filter keep
  exact (hkept.eq_of_length hperm.length_eq.symm).symm

/-! The invariant of the tables under the writer. -/

/-- The ledger rows of an observer and family that the marker let through. -/
def applied (t : ConnectionTables) (observerId : ℕ) (family : ConnectionFamily) :
    List LedgerRow :=
  (rowsOf t.writeLog observerId family).filter (fun row => row.decision ≠ .blocked)

/-- What holds of one observer's links of one family and their ledger rows. -/
structure FamilyInv (t : ConnectionTables) (observerId : ℕ) (family : ConnectionFamily) :
    Prop where
  ordered : (applied t observerId family).Pairwise
    (fun a b => a.runStartedAt ≤ b.runStartedAt ∧ a.writtenAt ≤ b.writtenAt)
  marked : ∀ row ∈ applied t observerId family, ∃ marker,
    findMarker t observerId family = some marker ∧ row.runStartedAt ≤ marker.runStartedAt
  explained : ∀ link ∈ t.connections, link.observerId = observerId →
    familyOf link.source = family →
    ∃ row ∈ applied t observerId family, row.runId = link.runId
  spared : ∀ link ∈ t.connections, link.observerId = observerId →
    familyOf link.source = family → ∀ newest later,
    sinceReplaced (applied t observerId family) = newest :: later →
    newest.runStartedAt ≤ link.observedAt ∨
      link.runId ∈ (newest :: later).map LedgerRow.runId

structure Inv (clock : ℕ → ℕ) (t : ConnectionTables) : Prop where
  unique : (t.connections.map Connection.link).Nodup
  stamped : ∀ row ∈ t.writeLog, row.writtenAt ≤ clock t.writeLog.length
  families : ∀ observerId family, FamilyInv t observerId family

variable {clock : ℕ → ℕ} {ctx : WriteContext} {family : FamilyObservationWrite}
variable {t : ConnectionTables}

/-- A ledger row joins the applied rows of its own observer and family, unless blocked. -/
theorem applied_logWrite (decision : LedgerDecision) (reason : LedgerReason) (observerId : ℕ)
    (other : ConnectionFamily) :
    applied (logWrite clock ctx family decision reason t) observerId other =
      if ctx.observerId = observerId ∧ family.family = other ∧ decision ≠ .blocked then
        applied t observerId other ++
          [⟨ctx.runId, family.sweepReservationId, ctx.observerId, family.family, decision, reason,
            ctx.runStartedAt, clock t.writeLog.length⟩]
      else applied t observerId other := by
  unfold applied rowsOf logWrite
  simp only [filter_append, filter_cons, filter_nil]
  by_cases hkey : ctx.observerId = observerId ∧ family.family = other
  · by_cases hblocked : decision = .blocked <;> simp [hkey, hblocked]
  · have hnot : ¬ (ctx.observerId = observerId ∧ family.family = other ∧ decision ≠ .blocked) :=
      fun h => hkey ⟨h.1, h.2.1⟩
    simp [hkey, hnot]

variable {t' : ConnectionTables}

theorem applied_congr {t : ConnectionTables} (h : t'.writeLog = t.writeLog) (observerId : ℕ)
    (other : ConnectionFamily) : applied t' observerId other = applied t observerId other := by
  unfold applied
  rw [h]

theorem applied_writeMarker (kind : ConnectionFamily) (rows : List Connection) (observerId : ℕ)
    (other : ConnectionFamily) :
    applied (writeMarker ctx kind { t with connections := rows }) observerId other =
      applied t observerId other :=
  applied_congr (writeLog_writeMarker kind) observerId other

theorem stamped_logWrite (hclock : Monotone clock) (decision : LedgerDecision)
    (reason : LedgerReason) {log : List LedgerRow} (hlog : t.writeLog = log)
    (hinv : ∀ row ∈ log, row.writtenAt ≤ clock log.length) :
    ∀ row ∈ (logWrite clock ctx family decision reason t).writeLog,
      row.writtenAt ≤ clock (logWrite clock ctx family decision reason t).writeLog.length := by
  intro row hrow
  have hlater : clock log.length ≤
      clock (logWrite clock ctx family decision reason t).writeLog.length := by
    apply hclock
    simp [logWrite, hlog]
  rcases mem_append.mp hrow with hold | hnew
  · exact (hinv row (hlog ▸ hold)).trans hlater
  · rw [mem_singleton] at hnew
    subst hnew
    rw [hlog]
    exact hlater

/-- Links taken from the old ones under the same rows and marker keep the invariant. -/
theorem FamilyInv.congr {observerId : ℕ} {other : ConnectionFamily}
    (h : FamilyInv t observerId other)
    (happlied : applied t' observerId other = applied t observerId other)
    (hmarker : findMarker t' observerId other = findMarker t observerId other)
    (hlinks : ∀ link ∈ t'.connections, link.observerId = observerId →
      familyOf link.source = other → link ∈ t.connections) : FamilyInv t' observerId other where
  ordered := happlied ▸ h.ordered
  marked := by
    rw [happlied, hmarker]
    exact h.marked
  explained := by
    intro link hlink hobserver hfamily
    rw [happlied]
    exact h.explained link (hlinks link hlink hobserver hfamily) hobserver hfamily
  spared := by
    intro link hlink hobserver hfamily
    rw [happlied]
    exact h.spared link (hlinks link hlink hobserver hfamily) hobserver hfamily

theorem start_le_of_open {observerId : ℕ} {other : ConnectionFamily} {runStartedAt : ℕ}
    {marker : Marker} (hopen : blockedByNewer t observerId other runStartedAt = false)
    (hmarker : findMarker t observerId other = some marker) :
    marker.runStartedAt ≤ runStartedAt := by
  unfold blockedByNewer at hopen
  rw [hmarker] at hopen
  simpa using hopen

/-- The written family's own invariant, once its ledger row `entry` joins the applied rows. -/
theorem FamilyInv.written {entry : LedgerRow} {verdict : WriteDecision} {rows : List Connection}
    (h : FamilyInv t ctx.observerId family.family)
    (hstamped : ∀ row ∈ t.writeLog, row.writtenAt ≤ entry.writtenAt)
    (hopen : blockedByNewer t ctx.observerId family.family ctx.runStartedAt = false)
    (hsighted : Sighted ctx family.family t.connections rows) (hrun : entry.runId = ctx.runId)
    (hstart : entry.runStartedAt = ctx.runStartedAt) (hdecision : entry.decision = verdict.toLedger)
    (happlied : applied t' ctx.observerId family.family =
      applied t ctx.observerId family.family ++ [entry])
    (hmarker : ∃ marker, findMarker t' ctx.observerId family.family = some marker ∧
      ctx.runStartedAt ≤ marker.runStartedAt)
    (hlinks : t'.connections = linksAfter ctx family.family verdict rows) :
    FamilyInv t' ctx.observerId family.family where
  ordered := by
    rw [happlied, pairwise_append]
    refine ⟨h.ordered, pairwise_singleton _ _, ?_⟩
    intro row hrow entry' hentry
    rw [mem_singleton] at hentry
    subst hentry
    obtain ⟨marker, hfound, hle⟩ := h.marked row hrow
    have hmarker := start_le_of_open hopen hfound
    have hlog := (mem_filter.mp (mem_filter.mp hrow).1).1
    exact ⟨by omega, hstamped row hlog⟩
  marked := by
    obtain ⟨marker, hfound, hle⟩ := hmarker
    intro row hrow
    refine ⟨marker, hfound, ?_⟩
    rw [happlied, mem_append, mem_singleton] at hrow
    rcases hrow with hold | rfl
    · obtain ⟨old, hfoundOld, hleOld⟩ := h.marked row hold
      have hold := start_le_of_open hopen hfoundOld
      omega
    · omega
  explained := by
    intro link hlink hobserver hfamily
    rw [happlied]
    rcases origin_of_sighted verdict hsighted (hlinks ▸ hlink) with ⟨-, -, hseen⟩ | ⟨hold, -⟩
    · exact ⟨entry, by simp, hrun.trans hseen.runId.symm⟩
    · obtain ⟨row, hrow, hsame⟩ := h.explained link hold hobserver hfamily
      exact ⟨row, mem_append_left _ hrow, hsame⟩
  spared := by
    intro link hlink hobserver hfamily newest later hsince
    rw [happlied] at hsince
    have horigin := origin_of_sighted verdict hsighted (hlinks ▸ hlink)
    cases verdict with
    | replaced =>
      -- the suffix restarts at this write, and what it spared is its own or newer
      rw [sinceReplaced_append_replaced _ hdecision, List.cons.injEq] at hsince
      obtain ⟨rfl, rfl⟩ := hsince
      rcases horigin with ⟨-, -, hseen⟩ | ⟨-, hspared⟩
      · right
        simp [hrun, hseen.runId]
      · have hspared := hspared rfl
        by_cases hown : link.runId = ctx.runId
        · right
          simp [hrun, hown]
        · left
          rw [hstart]
          by_contra hlt
          have hdeleted : retracted ctx family.family link = true := by
            simp only [retracted, mem_sourcesForFamily, decide_eq_true_eq]
            exact ⟨hobserver, hfamily, hown, not_le.mp hlt⟩
          rw [hdeleted] at hspared
          cases hspared
    | addedOnly =>
      have hne : entry.decision ≠ .replaced := by
        rw [hdecision]
        simp [WriteDecision.toLedger]
      rw [sinceReplaced_append_of_ne _ hne] at hsince
      split at hsince
      · cases hsince
      · next hnonempty =>
        obtain ⟨first, rest, hfirst⟩ := exists_cons_of_ne_nil hnonempty
        rw [hfirst, cons_append, List.cons.injEq] at hsince
        obtain ⟨rfl, rfl⟩ := hsince
        rcases horigin with ⟨-, -, hseen⟩ | ⟨hold, -⟩
        · right
          simp [hrun, hseen.runId]
        · rcases h.spared link hold hobserver hfamily first rest hfirst with hle | hin
          · exact .inl hle
          · right
            rw [← cons_append, map_append]
            exact mem_append_left _ hin

theorem Inv.familyEffect (hclock : Monotone clock) (hinv : Inv clock t)
    (h : FamilyEffect clock ctx family t t') : Inv clock t' := by
  cases h with
  | blocked hblocked =>
    refine ⟨hinv.unique, stamped_logWrite hclock _ _ rfl hinv.stamped, ?_⟩
    intro observerId other
    refine (hinv.families observerId other).congr ?_ rfl (fun link hlink _ _ => hlink)
    rw [applied_logWrite]
    simp
  | written rows hopen hsighted =>
    let verdict := decided t ctx family
    let seen : ConnectionTables :=
      { t with connections := linksAfter ctx family.family verdict.decision rows }
    have hlog : (writeMarker ctx family.family seen).writeLog = t.writeLog :=
      writeLog_writeMarker family.family
    have hconnections : (writeMarker ctx family.family seen).connections = seen.connections :=
      connections_writeMarker family.family
    refine ⟨?_, stamped_logWrite hclock _ _ hlog hinv.stamped, ?_⟩
    · change ((writeMarker ctx family.family seen).connections.map Connection.link).Nodup
      rw [hconnections]
      exact unique_linksAfter _ (hsighted.unique hinv.unique)
    intro observerId other
    by_cases hkey : ctx.observerId = observerId ∧ family.family = other
    · obtain ⟨rfl, rfl⟩ := hkey
      obtain ⟨marker, hfound, hle, -⟩ := findMarker_writeMarker_self ctx family.family seen
      have hnotBlocked : verdict.decision.toLedger ≠ .blocked := by
        cases verdict.decision <;> simp [WriteDecision.toLedger]
      let entry : LedgerRow := ⟨ctx.runId, family.sweepReservationId, ctx.observerId,
        family.family, verdict.decision.toLedger, verdict.reason, ctx.runStartedAt,
        clock (writeMarker ctx family.family seen).writeLog.length⟩
      have happlied : applied (logWrite clock ctx family verdict.decision.toLedger verdict.reason
          (writeMarker ctx family.family seen)) ctx.observerId family.family =
          applied t ctx.observerId family.family ++ [entry] := by
        rw [applied_logWrite, if_pos ⟨rfl, rfl, hnotBlocked⟩, applied_writeMarker]
      refine (hinv.families _ _).written ?_ hopen hsighted ?_ ?_ ?_ happlied
        ⟨marker, hfound, hle⟩ hconnections
      · intro row hrow
        change row.writtenAt ≤ clock (writeMarker ctx family.family seen).writeLog.length
        rw [hlog]
        exact hinv.stamped row hrow
      all_goals rfl
    · refine (hinv.families observerId other).congr ?_ ?_ ?_
      · rw [applied_logWrite, if_neg (fun h => hkey ⟨h.1, h.2.1⟩), applied_writeMarker]
      · apply findMarker_writeMarker_of_ne ctx family.family seen
        rintro ⟨rfl, rfl⟩
        exact hkey ⟨rfl, rfl⟩
      · intro link hlink hobserver hfamily
        change link ∈ (writeMarker ctx family.family seen).connections at hlink
        rw [hconnections] at hlink
        rcases origin_of_sighted _ hsighted hlink with ⟨hobs, hfam, -⟩ | ⟨hold, -⟩
        · exact absurd ⟨hobs.symm.trans hobserver, hfam.symm.trans hfamily⟩ hkey
        · exact hold

/-! What the invariant says of the replay, at whatever precision it reads the times. -/

/-- Applied rows in order stay in order when the times are read monotonically, so the
replay's suffix is the suffix of the applied rows. -/
theorem sinceReplaced_sorted {rows : List LedgerRow}
    (hordered : (rows.filter (fun row => row.decision ≠ .blocked)).Pairwise
      (fun a b => a.runStartedAt ≤ b.runStartedAt ∧ a.writtenAt ≤ b.writtenAt)) :
    (sinceReplaced (rows.insertionSort chronological)).filter
        (fun row => row.decision ≠ .blocked) =
      sinceReplaced (rows.filter (fun row => row.decision ≠ .blocked)) := by
  have hsorted : (rows.filter (fun row => row.decision ≠ .blocked)).Pairwise chronological := by
    apply hordered.imp
    intro a b hab
    unfold chronological
    omega
  rw [← filter_insertionSort _ rows hsorted, sinceReplaced_filter]
  intro row _ hdecision
  simp [hdecision]

/-- The rule, read off the applied rows: the newest `replaced` one and the runs since. -/
theorem owedRetraction_iff {rows : List LedgerRow} (link : Connection)
    (hordered : (rows.filter (fun row => row.decision ≠ .blocked)).Pairwise
      (fun a b => a.runStartedAt ≤ b.runStartedAt ∧ a.writtenAt ≤ b.writtenAt)) :
    owedRetraction rows link = true ↔
      ∃ newest later,
        sinceReplaced (rows.filter (fun row => row.decision ≠ .blocked)) = newest :: later ∧
        link.observerId = newest.observerId ∧ familyOf link.source = newest.family ∧
        link.observedAt < newest.runStartedAt ∧
        link.runId ∉ (newest :: later).map LedgerRow.runId := by
  have hsince := sinceReplaced_sorted hordered
  unfold owedRetraction
  cases hsuffix : sinceReplaced (rows.insertionSort chronological) with
  | nil =>
    rw [hsuffix] at hsince
    rw [← hsince]
    simp
  | cons newest later =>
    have hnewest := (replaced_of_sinceReplaced hsuffix).2
    rw [hsuffix, filter_cons_of_pos (by simp [hnewest])] at hsince
    have hallowed : allowedRuns (newest :: later) =
        (newest :: later.filter (fun row => row.decision ≠ .blocked)).map LedgerRow.runId := by
      unfold allowedRuns
      rw [filter_cons_of_pos (by simp [hnewest])]
    rw [← hsince]
    simp only [decide_eq_true_eq, familyOfSource_eq, hallowed]
    constructor
    · intro h
      exact ⟨newest, _, rfl, h⟩
    · rintro ⟨newest', later', heq, h⟩
      obtain ⟨rfl, rfl⟩ := List.cons.inj heq
      exact h

/-! Times read through a monotone cut: a `Date`'s milliseconds, or the stored instants. -/

variable (cut : ℕ → ℕ)

def cutLink (link : Connection) : Connection :=
  { link with observedAt := cut link.observedAt }

def cutRow (row : LedgerRow) : LedgerRow :=
  { row with runStartedAt := cut row.runStartedAt, writtenAt := cut row.writtenAt }

theorem sinceReplaced_map_cutRow (rows : List LedgerRow) :
    sinceReplaced (rows.map (cutRow cut)) = (sinceReplaced rows).map (cutRow cut) := by
  induction rows with
  | nil => rfl
  | cons row rest ih =>
    rw [map_cons, sinceReplaced, ih, sinceReplaced]
    cases hrest : sinceReplaced rest with
    | nil => by_cases hrow : row.decision = .replaced <;> simp [cutRow, hrow]
    | cons newest later => rfl

theorem filter_map_cutRow (rows : List LedgerRow) :
    (rows.map (cutRow cut)).filter (fun row => row.decision ≠ .blocked) =
      (rows.filter (fun row => row.decision ≠ .blocked)).map (cutRow cut) := by
  rw [filter_map]
  rfl

theorem owedRetraction_cut_iff {cut : ℕ → ℕ} (hcut : Monotone cut) {observerId : ℕ}
    {family : ConnectionFamily} (hinv : FamilyInv t observerId family) (link : Connection) :
    owedRetraction ((rowsOf t.writeLog observerId family).map (cutRow cut)) (cutLink cut link) =
        true ↔
      ∃ newest later, sinceReplaced (applied t observerId family) = newest :: later ∧
        link.observerId = observerId ∧ familyOf link.source = family ∧
        cut link.observedAt < cut newest.runStartedAt ∧
        link.runId ∉ (newest :: later).map LedgerRow.runId := by
  have hordered : (((rowsOf t.writeLog observerId family).map (cutRow cut)).filter
      (fun row => row.decision ≠ .blocked)).Pairwise
      (fun a b => a.runStartedAt ≤ b.runStartedAt ∧ a.writtenAt ≤ b.writtenAt) := by
    rw [filter_map_cutRow, pairwise_map]
    exact hinv.ordered.imp fun hab => ⟨hcut hab.1, hcut hab.2⟩
  rw [owedRetraction_iff _ hordered, filter_map_cutRow, sinceReplaced_map_cutRow]
  change (∃ newest later, (sinceReplaced (applied t observerId family)).map (cutRow cut) =
    newest :: later ∧ _) ↔ _
  have hruns : ∀ rows : List LedgerRow,
      (rows.map (cutRow cut)).map LedgerRow.runId = rows.map LedgerRow.runId := by
    intro rows
    rw [map_map]
    rfl
  have hkey : ∀ newest later, sinceReplaced (applied t observerId family) = newest :: later →
      newest.observerId = observerId ∧ newest.family = family := by
    intro newest later hsince
    have hmem := (replaced_of_sinceReplaced hsince).1
    simpa using (mem_filter.mp (mem_filter.mp hmem).1).2
  constructor
  · rintro ⟨newest, later, hsince, hobserver, hfamily, hbefore, hrun⟩
    obtain ⟨stored, rest, hstored, rfl, rfl⟩ := map_eq_cons_iff.mp hsince
    obtain ⟨hobs, hfam⟩ := hkey stored rest hstored
    rw [← map_cons, hruns] at hrun
    exact ⟨stored, rest, hstored, hobserver.trans hobs, hfamily.trans hfam, hbefore, hrun⟩
  · rintro ⟨newest, later, hsince, hobserver, hfamily, hbefore, hrun⟩
    obtain ⟨hobs, hfam⟩ := hkey newest later hsince
    refine ⟨cutRow cut newest, later.map (cutRow cut), by rw [hsince]; rfl,
      hobserver.trans hobs.symm, hfamily.trans hfam.symm, hbefore, ?_⟩
    rw [← map_cons, hruns]
    exact hrun

theorem not_owed_of_inv {cut : ℕ → ℕ} (hcut : Monotone cut) (hinv : Inv clock t)
    {link : Connection} (hlink : link ∈ t.connections) (observerId : ℕ)
    (family : ConnectionFamily) :
    owedRetraction ((rowsOf t.writeLog observerId family).map (cutRow cut)) (cutLink cut link) =
      false := by
  rw [← Bool.not_eq_true, owedRetraction_cut_iff hcut (hinv.families observerId family)]
  rintro ⟨newest, later, hsince, hobserver, hfamily, hbefore, hrun⟩
  rcases (hinv.families observerId family).spared link hlink hobserver hfamily newest later hsince
    with hle | hin
  · exact absurd (hcut hle) (not_le.mpr hbefore)
  · exact hrun hin

theorem rowsOf_loadLedger (observerId : ℕ) (family : ConnectionFamily) :
    rowsOf (loadLedger t) observerId family =
      (rowsOf t.writeLog observerId family).map (cutRow getTime) := by
  unfold rowsOf loadLedger
  rw [filter_map]
  rfl

theorem logged_of_inv (hinv : Inv clock t) {link : Connection} (hlink : link ∈ t.connections) :
    logged (loadLedger t) (cutLink getTime link) = true := by
  obtain ⟨row, hrow, hrun⟩ :=
    (hinv.families link.observerId (familyOf link.source)).explained link hlink rfl rfl
  obtain ⟨hlog, hkey⟩ := mem_filter.mp (mem_filter.mp hrow).1
  unfold logged
  rw [any_eq_true]
  refine ⟨cutRow getTime row, mem_map_of_mem hlog, ?_⟩
  simp only [decide_eq_true_eq] at hkey ⊢
  exact ⟨hrun, hkey.1, hkey.2⟩

/-- Tables that keep the invariant replay with no provenance and no retraction finding. -/
theorem auditLedger_of_inv (hinv : Inv clock t) {audit : CharacterGroupsAudit}
    (hobservations : audit.observations = loadObservations t)
    (hledger : audit.ledger = loadLedger t) :
    provenanceFindings audit = [] ∧ retractionFindings audit = [] := by
  constructor
  · unfold provenanceFindings
    rw [map_eq_nil_iff, filter_eq_nil_iff, hobservations, hledger]
    intro row hrow
    obtain ⟨link, hlink, rfl⟩ := mem_map.mp hrow
    have hlogged : logged (loadLedger t) (cutLink getTime link) = true := logged_of_inv hinv hlink
    change ¬ (!logged (loadLedger t) (cutLink getTime link)) = true
    simp [hlogged]
  · unfold retractionFindings
    rw [flatMap_eq_nil_iff]
    rintro ⟨observerId, family⟩ -
    rw [map_eq_nil_iff, filter_eq_nil_iff, hobservations, hledger]
    intro row hrow
    obtain ⟨link, hlink, rfl⟩ := mem_map.mp hrow
    rw [rowsOf_loadLedger]
    have hnot := not_owed_of_inv monotone_getTime hinv hlink observerId family
    change ¬ owedRetraction _ (cutLink getTime link) = true
    simp [hnot]

/-! What one transaction does to the links it found. -/

variable {lower : String → String}

/-- The link was deleted by this transaction, as the ledger now has it. -/
structure DeletedBy (ctx : WriteContext) (t : ConnectionTables) (link : Connection) : Prop where
  observer : link.observerId = ctx.observerId
  run : link.runId ≠ ctx.runId
  before : link.observedAt < ctx.runStartedAt
  since : ∃ newest later,
    sinceReplaced (applied t ctx.observerId (familyOf link.source)) = newest :: later ∧
    newest.runStartedAt = ctx.runStartedAt ∧ ∀ row ∈ newest :: later, row.runId = ctx.runId

/-- The link is still stored, was renewed by this transaction, or was deleted by it. -/
def Accounted (ctx : WriteContext) (t : ConnectionTables) (link : Connection) : Prop :=
  (∃ row ∈ t.connections, row.link = link.link ∧ (row = link ∨ SeenNow ctx row)) ∨
    DeletedBy ctx t link

theorem DeletedBy.familyEffect {family : FamilyObservationWrite} {t t' : ConnectionTables}
    {link : Connection} (h : DeletedBy ctx t link) (heffect : FamilyEffect clock ctx family t t') :
    DeletedBy ctx t' link := by
  refine ⟨h.observer, h.run, h.before, ?_⟩
  obtain ⟨newest, later, hsince, hstart, hruns⟩ := h.since
  cases heffect with
  | blocked hblocked =>
    refine ⟨newest, later, ?_, hstart, hruns⟩
    rw [applied_logWrite]
    simpa using hsince
  | written rows hopen hsighted =>
    rw [applied_logWrite, applied_writeMarker]
    split
    · cases hverdict : (decided t ctx family).decision with
      | replaced =>
        rw [sinceReplaced_append_replaced _ rfl]
        exact ⟨_, [], rfl, rfl, by simp⟩
      | addedOnly =>
        rw [sinceReplaced_append_of_ne _ (by simp [WriteDecision.toLedger]), hsince]
        refine ⟨newest, later ++ [_], rfl, hstart, ?_⟩
        intro row hrow
        rw [← cons_append, mem_append, mem_singleton] at hrow
        rcases hrow with hold | rfl
        · exact hruns row hold
        · rfl
    · exact ⟨newest, later, hsince, hstart, hruns⟩

theorem Accounted.familyEffect {family : FamilyObservationWrite} {t t' : ConnectionTables}
    {link : Connection} (h : Accounted ctx t link)
    (heffect : FamilyEffect clock ctx family t t') : Accounted ctx t' link := by
  rcases h with ⟨row, hrow, hlink, hsame⟩ | hdeleted
  · cases heffect with
    | blocked hblocked => exact .inl ⟨row, hrow, hlink, hsame⟩
    | written rows hopen hsighted =>
      obtain ⟨row', hrow', hlink', hsame'⟩ := hsighted.kept row hrow
      have hsame'' : row' = link ∨ SeenNow ctx row' := by
        rcases hsame' with rfl | hseen
        · exact hsame
        · exact .inr hseen
      by_cases hgone : (decided t ctx family).decision = .replaced ∧
          retracted ctx family.family row' = true
      · right
        obtain ⟨hreplaced, hretracted⟩ := hgone
        simp only [retracted, mem_sourcesForFamily, decide_eq_true_eq] at hretracted
        obtain ⟨hobserver, hfamily, hrun, hbefore⟩ := hretracted
        obtain rfl : row' = link := hsame''.resolve_right fun hseen => hrun hseen.runId
        refine ⟨hobserver, hrun, hbefore, ?_⟩
        rw [applied_logWrite, if_pos ⟨rfl, hfamily.symm, by simp [hreplaced, WriteDecision.toLedger]⟩,
          hreplaced, sinceReplaced_append_replaced _ rfl]
        exact ⟨_, [], rfl, rfl, by simp⟩
      · left
        refine ⟨row', ?_, hlink'.trans hlink, hsame''⟩
        change row' ∈ (writeMarker ctx family.family _).connections
        rw [connections_writeMarker]
        unfold linksAfter
        split
        · next hreplaced =>
          refine mem_filter.mpr ⟨hrow', ?_⟩
          have hspared : ¬ retracted ctx family.family row' = true :=
            fun hretracted => hgone ⟨hreplaced, hretracted⟩
          simpa using hspared
        · exact hrow'
  · exact .inr (hdeleted.familyEffect heffect)

/-- What a committed write leaves: the invariant, every old link accounted for,
and no row that is neither old nor its own. -/
theorem writeObservations_keeps (hclock : Monotone clock) {t t' : ConnectionTables} {now : ℕ}
    {input : ObservationWriteInput} {result : ObservationWriteResult} (hinv : Inv clock t)
    (h : writeObservations lower clock t now input = .ok (t', result)) :
    Inv clock t' ∧ ∃ ctx : WriteContext, ctx.runId = input.runId ∧ ctx.now = now ∧
      (∀ link ∈ t.connections, Accounted ctx t' link) ∧
      ∀ row ∈ t'.connections, row ∈ t.connections ∨ SeenNow ctx row := by
  obtain ⟨run, observerId, ids, p', -, -, -, -, hfold, rfl⟩ := writeObservations_ok h
  have hkept := foldlM_keeps (P := fun p : WriteProgress => Inv clock p.tables ∧
      ∀ link ∈ t.connections, Accounted
        ⟨input.runId, observerId, run.runStartedAt, now, ids⟩ p.tables link)
    ?_ ⟨hinv, fun link hlink => .inl ⟨link, hlink, rfl, .inl rfl⟩⟩ hfold
  · exact ⟨hkept.1, _, rfl, rfl, hkept.2, (foldlM_writeFamily_advances hfold).origin⟩
  · rintro family - p q ⟨hp, haccounted⟩ hwrite
    have heffect := writeFamily_effect hwrite
    exact ⟨hp.familyEffect hclock heffect,
      fun link hlink => (haccounted link hlink).familyEffect heffect⟩

/-! Runs of the writer. Between two transactions anything may happen to the
characters and the discovery runs; a transaction that throws changes nothing. -/

inductive Reachable (lower : String → String) (clock : ℕ → ℕ) : ConnectionTables → Prop
  | empty (characters : List CharacterRow) (runs : List DiscoveryRun) :
      Reachable lower clock ⟨characters, runs, [], [], []⟩
  | environment {t : ConnectionTables} (h : Reachable lower clock t)
      (characters : List CharacterRow) (runs : List DiscoveryRun) :
      Reachable lower clock { t with characters := characters, runs := runs }
  | write {t t' : ConnectionTables} (h : Reachable lower clock t) (now : ℕ)
      (input : ObservationWriteInput) (result : ObservationWriteResult)
      (hwrite : writeObservations lower clock t now input = .ok (t', result)) :
      Reachable lower clock t'

theorem Inv.environment (hinv : Inv clock t) (characters : List CharacterRow)
    (runs : List DiscoveryRun) : Inv clock { t with characters := characters, runs := runs } where
  unique := hinv.unique
  stamped := hinv.stamped
  families observerId family :=
    (hinv.families observerId family).congr rfl rfl fun _ hlink _ _ => hlink

theorem inv_empty (characters : List CharacterRow) (runs : List DiscoveryRun) :
    Inv clock ⟨characters, runs, [], [], []⟩ where
  unique := nodup_nil
  stamped := by simp
  families observerId family := ⟨by simp [applied, rowsOf], by simp [applied, rowsOf],
    by simp, by simp⟩

theorem inv_of_reachable (hclock : Monotone clock) (h : Reachable lower clock t) :
    Inv clock t := by
  induction h with
  | empty characters runs => exact inv_empty characters runs
  | environment _ characters runs ih => exact ih.environment characters runs
  | write _ now input result hwrite ih => exact (writeObservations_keeps hclock ih hwrite).1

theorem owedRetraction_stored_iff {observerId : ℕ} {family : ConnectionFamily}
    (hinv : FamilyInv t observerId family) (link : Connection) :
    owedRetraction (rowsOf t.writeLog observerId family) link = true ↔
      ∃ newest later, sinceReplaced (applied t observerId family) = newest :: later ∧
        link.observerId = observerId ∧ familyOf link.source = family ∧
        link.observedAt < newest.runStartedAt ∧
        link.runId ∉ (newest :: later).map LedgerRow.runId := by
  have hcut := owedRetraction_cut_iff (monotone_id (α := ℕ)) hinv link
  have hrows : (rowsOf t.writeLog observerId family).map (cutRow id) =
      rowsOf t.writeLog observerId family := map_id _
  rw [hrows] at hcut
  exact hcut

theorem owed_of_deletedBy {ctx : WriteContext} {link : Connection} (hinv : Inv clock t)
    (h : DeletedBy ctx t link) :
    owedRetraction (rowsOf t.writeLog link.observerId (familyOf link.source)) link = true := by
  rw [owedRetraction_stored_iff (hinv.families _ _)]
  obtain ⟨newest, later, hsince, hstart, hruns⟩ := h.since
  refine ⟨newest, later, h.observer ▸ hsince, rfl, rfl, hstart ▸ h.before, ?_⟩
  intro hin
  obtain ⟨row, hrow, hrun⟩ := mem_map.mp hin
  exact h.run (hrun.symm.trans (hruns row hrow))

/-- On every run of the writer, the replay finds no provenance and no retraction
failure. Each write deletes a link only if its ledger then owes the deletion,
and every link the ledger owes is deleted or was renewed by that very write. -/
theorem replay_agrees (hclock : Monotone clock) (h : Reachable lower clock t) :
    (∀ audit : CharacterGroupsAudit, audit.observations = loadObservations t →
      audit.ledger = loadLedger t → ∀ finding ∈ (auditLedger audit).failures,
        finding.check ≠ "c_provenance" ∧ finding.check ≠ "d_retraction") ∧
    ∀ now input t' result, writeObservations lower clock t now input = .ok (t', result) →
      ∀ link ∈ t.connections,
        ((∀ row ∈ t'.connections, row.link ≠ link.link) →
          owedRetraction (rowsOf t'.writeLog link.observerId (familyOfSource link.source)) link =
            true) ∧
        (owedRetraction (rowsOf t'.writeLog link.observerId (familyOfSource link.source)) link =
            true →
          (∀ row ∈ t'.connections, row.link ≠ link.link) ∨
          ∃ row ∈ t'.connections, row.link = link.link ∧ row.runId = input.runId ∧
            row.observedAt = now) := by
  have hinv := inv_of_reachable hclock h
  constructor
  · intro audit hobservations hledger finding hfinding
    obtain ⟨hprovenance, hretraction⟩ := auditLedger_of_inv hinv hobservations hledger
    simp only [auditLedger, hprovenance, hretraction, append_nil, mem_append] at hfinding
    rcases hfinding with hcomplete | hpresence
    · obtain ⟨publication, -, rfl⟩ := mem_map.mp hcomplete
      exact ⟨by simp, by simp⟩
    · obtain ⟨entry, -, hentry⟩ := mem_flatMap.mp hpresence
      obtain ⟨memberId, -, rfl⟩ := mem_map.mp hentry
      exact ⟨by simp, by simp⟩
  · intro now input t' result hwrite link hlink
    obtain ⟨hinv', ctx, hrun, hnow, haccounted, horigin⟩ :=
      writeObservations_keeps hclock hinv hwrite
    have hlinkAccounted := haccounted link hlink
    constructor
    · intro hgone
      rcases hlinkAccounted with ⟨row, hrow, hsame, -⟩ | hdeleted
      · exact absurd hsame (hgone row hrow)
      · exact owed_of_deletedBy hinv' hdeleted
    · intro howed
      by_contra hnot
      push Not at hnot
      obtain ⟨⟨row, hrow, hsame⟩, hrenewed⟩ := hnot
      rcases horigin row hrow with hold | hseen
      · obtain rfl : row = link := inj_on_of_nodup_map hinv.unique hold hlink hsame
        have hkept := not_owed_of_inv (monotone_id (α := ℕ)) hinv' hrow row.observerId
          (familyOf row.source)
        have hrows : (rowsOf t'.writeLog row.observerId (familyOf row.source)).map (cutRow id) =
            rowsOf t'.writeLog row.observerId (familyOf row.source) := map_id _
        rw [hrows] at hkept
        exact absurd howed (by rw [familyOfSource_eq]; exact Bool.eq_false_iff.mp hkept)
      · exact hrenewed row hrow hsame (hseen.runId.trans hrun) (hseen.observedAt.trans hnow)

/-! Two runs of one root: the second matches another character, and replaces. -/

def sampleKey (name : String) : CharacterKey := ⟨.eu, "realm", name⟩

def sampleInput (runId : ℕ) (name : String) : ObservationWriteInput :=
  ⟨runId, sampleKey "root",
    [⟨.fingerprint, .replaced, .matched, [⟨sampleKey name, .fingerprint⟩], none⟩]⟩

def sampleCharacters : List CharacterRow :=
  [⟨1, sampleKey "root"⟩, ⟨2, sampleKey "first"⟩, ⟨3, sampleKey "second"⟩]

def sampleRuns : List DiscoveryRun :=
  [⟨1, sampleKey "root", some 100, 90⟩, ⟨2, sampleKey "root", some 300, 290⟩]

theorem replay_agrees_sampleRuns :
    ∃ t, Reachable id id t ∧ t.connections = [⟨1, 3, .fingerprint, 1, 2, 400⟩] ∧
      ∀ audit : CharacterGroupsAudit, audit.observations = loadObservations t →
        audit.ledger = loadLedger t → ∀ finding ∈ (auditLedger audit).failures,
          finding.check ≠ "c_provenance" ∧ finding.check ≠ "d_retraction" := by
  have hstart : Reachable id id ⟨sampleCharacters, sampleRuns, [], [], []⟩ := .empty _ _
  have hfirst := hstart.write 200 (sampleInput 1 "first") _ rfl
  have hsecond := hfirst.write 400 (sampleInput 2 "second") _ rfl
  exact ⟨_, hsecond, rfl, (replay_agrees monotone_id hsecond).1⟩

end SlashWho.ObservationReplay
