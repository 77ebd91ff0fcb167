import SlashWho.HistoryRecovery

/-!
One character's kill evidence: the history scan, the reports read after it out
of the same budget, and what the run reports of where the history was left. A
requested cap is a natural number and a start page a positive one, as the call
checks. The ranked walk, the tier search and the parses spend caps of their
own; what they come back with is a parameter. The order results are listed in
is left out.
-/

namespace SlashWho.FirstKillCollection

open List EvidenceMerge HistoryScan HistoryRecovery

structure FirstKillOptions extends ScanOptions where
  storedKillReportCodes : List String
  verifiedKills : List VerifiedKill

/-! The scan, with the requests it made. -/

/-- The stored boundary is worth a request of the budget. -/
def probes (options : ScanOptions) : Prop :=
  options.requestCap > 0 ∧ (entry options).1 > 1 ∧
    (entry options).2.resumeBoundaryReportCode.isSome

instance (options : ScanOptions) : Decidable (probes options) :=
  inferInstanceAs (Decidable (_ ∧ _))

/-- The pages the loop reads, each with what upstream answered. -/
def pagesRead (options : ScanOptions) (readPage : ℕ → PageRead) :
    ℕ → ℕ → ScanState → List (ℕ × PageRead)
  | 0, _, _ => []
  | requests + 1, page, s =>
    (page, readPage page) ::
      match scanPage options page (readPage page) s with
      | (next, true) => pagesRead options readPage requests (page + 1) next
      | (_, false) => []

def pageRequests (reads : List (ℕ × PageRead)) : List HistoryRequest :=
  reads.map (fun read => .page read.1 read.2)

/-- The probe of the scan asks upstream on its own: the page it re-reads may
answer otherwise when the loop comes to it. -/
def probeEntry (options : ScanOptions) (upstream : Upstream) :
    Except DecodedPage (ℕ × ScanState) :=
  probeBoundary options (fun _ => upstream.probe) (entry options).1 (entry options).2

def scanRequests (options : ScanOptions) (upstream : Upstream) : List HistoryRequest :=
  (if probes options then [.page ((entry options).1 - 1) upstream.probe] else []) ++
    match probeEntry options upstream with
    | .error _ => []
    | .ok (startPage, s) =>
      pageRequests (pagesRead options upstream.page (options.requestCap - s.historyRequests)
        startPage s)

def scanUpstream (options : ScanOptions) (upstream : Upstream) : ScanOutcome :=
  match probeEntry options upstream with
  | .error result => .ended result
  | .ok (startPage, s) =>
    .historyScan (limitByBudget options
        (scanPages options upstream.page (options.requestCap - s.historyRequests) startPage s))
      (startPage > 1 || unsupportedCursor options)

def CleanPage (page : HistoryPage) : Prop :=
  ∃ kills wipes omitted, page.decoded = .evidence kills wipes omitted none

/-- What a cleanly decoded page spans. -/
def HistoryRequest.spans (upstream : Upstream) : HistoryRequest → List ReportSpan
  | .page _ (.success page) =>
    match page.decoded with
    | .evidence _ _ _ none => upstream.spans page
    | _ => []
  | _ => []

/-! What the run reports. -/

structure WalkLimitation where
  code : LimitationCode
  retryAfter : Bool

/-- `CONTINUED_RANKED_WALK_LIMITATIONS`: the capped walk and the transient failures. -/
def isContinued (code : LimitationCode) : Bool :=
  code = .requestCap || code = .transient

inductive RankedBackfill
  | limitation (limitation : WalkLimitation)
  | evidence (kills : List MythicKill) (limitation : Option WalkLimitation)

/-- What the ranked walk, the tier search and the parses come back with. -/
structure LaterWork where
  rankedBackfill : Option RankedBackfill
  tierSearchKills : List MythicKill
  tierSearchWipes : List MythicWipe
  parses : OrderedMap String MythicKill → OrderedMap String MythicKill
  parseLimitation : Option String

/-- A permanent history ceiling must not strand a resumable ranked walk. -/
def drivingHistoryLimitation (current : Option LimitationCode) (next : WalkLimitation) :
    LimitationCode :=
  match current with
  | none => next.code
  | some code =>
    if code = .historyLimit ∧ (next.retryAfter || isContinued next.code) then next.code else code

def rankedKills : Option RankedBackfill → List MythicKill
  | some (.evidence kills _) => kills
  | _ => []

def rankedLimitation : Option RankedBackfill → Option WalkLimitation
  | some (.evidence _ limitation) => limitation
  | some (.limitation limitation) => some limitation
  | none => none

/-- The scan's limitation after the ranked walk. -/
def limitationAfterWalk (s : ScanState) (later : LaterWork) : Option LimitationCode :=
  match rankedLimitation later.rankedBackfill with
  | none => s.limitation
  | some next => some (drivingHistoryLimitation s.limitation next)

structure Resume where
  page : Option ℕ
  boundaryReportCode : Option String

structure EvidenceResult where
  scanSkipped : Bool
  historyScanLimitReached : Bool
  omittedInvalidTimestamp : Bool
  kills : List MythicKill
  wipes : List MythicWipe
  historyScanResumePage : Option ℕ
  historyScanResumeBoundaryReportCode : Option String
  limitation : Option LimitationCode
  parseLimitation : Option String
  attendanceRecoveredKills : Option ℕ
  attendanceSearchedEmpty : List VerifiedKill

inductive ReportResult
  | limitation (code : LimitationCode)
  | parseLimitation (code : String)
  | evidence (result : EvidenceResult)

/-- A probe that ends the read is returned as it was decoded. -/
def ReportResult.ofDecoded : DecodedPage → ReportResult
  | .limitation code => .limitation code
  | .evidence kills wipes omitted limited =>
    .evidence
      { scanSkipped := false
        historyScanLimitReached := false
        omittedInvalidTimestamp := omitted
        kills := kills
        wipes := wipes
        historyScanResumePage := none
        historyScanResumeBoundaryReportCode := none
        limitation := limited
        parseLimitation := none
        attendanceRecoveredKills := none
        attendanceSearchedEmpty := [] }

/-- A resumed scan that reached the end has not read the whole history: it
starts over from the first page. -/
def restartFromFirstPage (resumedFromCursor : Bool) (limitation : Option LimitationCode) : Bool :=
  resumedFromCursor && limitation.isNone

def scanLimitation (resumedFromCursor : Bool) (limitation : Option LimitationCode) :
    Option LimitationCode :=
  if restartFromFirstPage resumedFromCursor limitation then some .requestCap else limitation

def resumeOf (s : ScanState) (resumedFromCursor : Bool) (limitation : Option LimitationCode) :
    Resume :=
  if restartFromFirstPage resumedFromCursor limitation then ⟨some 1, none⟩
  else if s.historyLimitReached ∨ limitation = none then ⟨none, none⟩
  else
    match s.lastDecodedPage with
    | some page => ⟨some (page + 1), s.resumeBoundaryReportCode⟩
    | none => if s.invalidatedStoredBoundary then ⟨some 1, none⟩ else ⟨none, none⟩

def evidenceResult (options : FirstKillOptions) (later : LaterWork)
    (recovery : AttendanceRecovery) (kills : List MythicKill) (wipes : List MythicWipe)
    (limitation : Option LimitationCode) (resume : Resume) : EvidenceResult where
  scanSkipped := options.requestCap = 0
  historyScanLimitReached := recovery.budgeted.scan.historyLimitReached
  omittedInvalidTimestamp := recovery.budgeted.scan.omittedInvalidTimestamp
  kills := kills
  wipes := wipes
  historyScanResumePage := resume.page
  historyScanResumeBoundaryReportCode := resume.boundaryReportCode
  limitation := limitation
  parseLimitation := later.parseLimitation
  attendanceRecoveredKills := if recovery.searched then some recovery.recoveredKills else none
  attendanceSearchedEmpty := recovery.searchedEmpty

def reportResult (options : FirstKillOptions) (later : LaterWork) (recovery : AttendanceRecovery)
    (resumedFromCursor : Bool) : ReportResult :=
  let s := recovery.budgeted.scan
  let found := s.kills.setAll
    ((rankedKills later.rankedBackfill ++ later.tierSearchKills).map
      (fun kill => (kill.fightUrl, kill)))
  let kills := (later.parses found).values
  let wipes := (s.wipes.setAll
    (later.tierSearchWipes.map (fun wipe => (wipe.fightUrl, wipe)))).values
  let walked := limitationAfterWalk s later
  let limitation := scanLimitation resumedFromCursor walked
  let resume := resumeOf s resumedFromCursor walked
  if kills ≠ [] ∨ wipes ≠ [] ∨ later.rankedBackfill.isSome ∨ s.historyLimitReached ∨
      s.omittedInvalidTimestamp then
    .evidence (evidenceResult options later recovery kills wipes limitation resume)
  else if resume.page ≠ none then
    .evidence (evidenceResult options later recovery [] [] limitation resume)
  else
    match limitation, later.parseLimitation with
    | some code, _ => .limitation code
    | none, some code => .parseLimitation code
    | none, none => .evidence (evidenceResult options later recovery [] [] none ⟨none, none⟩)

/-- The result, and every request drawn on the history budget for it. -/
def collectFirstKillReports (options : FirstKillOptions) (upstream : Upstream)
    (later : LaterWork) : ReportResult × List HistoryRequest :=
  match scanUpstream options.toScanOptions upstream with
  | .ended result => (.ofDecoded result, scanRequests options.toScanOptions upstream)
  | .historyScan scan resumedFromCursor =>
    let reread := rereadStoredReports options.requestCap upstream options.storedKillReportCodes
      resumedFromCursor ⟨scan, scanRequests options.toScanOptions upstream⟩
    let recovery := recoverFromAttendance options.requestCap upstream options.verifiedKills
      ((scanRequests options.toScanOptions upstream).flatMap (HistoryRequest.spans upstream)) reread
    (reportResult options later recovery resumedFromCursor, recovery.budgeted.requests)

/-! What the scan's own variables say of its requests. -/

/-- The cursor names a page the run decoded cleanly, and its last report. -/
structure Traced (requests : List HistoryRequest) (s : ScanState) : Prop where
  counted : s.historyRequests = requests.length
  decoded : ∀ p, s.lastDecodedPage = some p → 1 ≤ p ∧ ∃ page,
    HistoryRequest.page p (.success page) ∈ requests ∧ CleanPage page ∧
      page.lastReportCode ≠ none ∧ s.resumeBoundaryReportCode = page.lastReportCode

theorem Traced.start (options : ScanOptions) : Traced [] (entry options).2 := by
  unfold entry
  split <;> exact ⟨rfl, fun p hp => by cases hp⟩

theorem noteBoundary_cursor (s : ScanState) (page : ℕ) (boundary : Option String) :
    (s.noteBoundary page boundary).historyRequests = s.historyRequests ∧
    (((s.noteBoundary page boundary).lastDecodedPage = s.lastDecodedPage ∧
        (s.noteBoundary page boundary).resumeBoundaryReportCode = s.resumeBoundaryReportCode) ∨
      ∃ code, boundary = some code ∧
        (s.noteBoundary page boundary).lastDecodedPage = some page ∧
        (s.noteBoundary page boundary).resumeBoundaryReportCode = some code) := by
  cases boundary with
  | none => exact ⟨rfl, .inl ⟨rfl, rfl⟩⟩
  | some code => exact ⟨rfl, .inr ⟨code, rfl, rfl, rfl⟩⟩

theorem scanPage_cursor (options : ScanOptions) (page : ℕ) (read : PageRead) (s : ScanState) :
    (scanPage options page read s).1.historyRequests = s.historyRequests + 1 ∧
    (((scanPage options page read s).1.lastDecodedPage = s.lastDecodedPage ∧
        (scanPage options page read s).1.resumeBoundaryReportCode =
          s.resumeBoundaryReportCode) ∨
      ∃ value code, read = .success value ∧ CleanPage value ∧
        value.lastReportCode = some code ∧
        (scanPage options page read s).1.lastDecodedPage = some page ∧
        (scanPage options page read s).1.resumeBoundaryReportCode = some code) := by
  unfold scanPage
  cases read with
  | limitation code => exact ⟨rfl, .inl ⟨rfl, rfl⟩⟩
  | success value =>
    dsimp only
    cases hdecoded : value.decoded with
    | limitation code => exact ⟨rfl, .inl ⟨rfl, rfl⟩⟩
    | evidence kills wipes omitted limited =>
      dsimp only
      cases limited with
      | some code => exact ⟨rfl, .inl ⟨rfl, rfl⟩⟩
      | none =>
        dsimp only
        split
        · exact ⟨rfl, .inl ⟨rfl, rfl⟩⟩
        · cases value.hasMorePages with
          | none => exact ⟨rfl, .inl ⟨rfl, rfl⟩⟩
          | some more =>
            dsimp only
            obtain ⟨hcount, hcursor⟩ := noteBoundary_cursor
              { (ScanState.addEvidence { s with historyRequests := s.historyRequests + 1 } value)
                with
                omittedInvalidTimestamp := s.omittedInvalidTimestamp || omitted
                scannedReportCodes := s.scannedReportCodes ++ value.reportCodes }
              page value.lastReportCode
            have hread : ∀ s' : ScanState, s'.historyRequests = s.historyRequests + 1 →
                ((s'.lastDecodedPage = s.lastDecodedPage ∧
                    s'.resumeBoundaryReportCode = s.resumeBoundaryReportCode) ∨
                  ∃ code, value.lastReportCode = some code ∧ s'.lastDecodedPage = some page ∧
                    s'.resumeBoundaryReportCode = some code) →
                s'.historyRequests = s.historyRequests + 1 ∧
                ((s'.lastDecodedPage = s.lastDecodedPage ∧
                    s'.resumeBoundaryReportCode = s.resumeBoundaryReportCode) ∨
                  ∃ value' code, PageRead.success value = .success value' ∧ CleanPage value' ∧
                    value'.lastReportCode = some code ∧ s'.lastDecodedPage = some page ∧
                    s'.resumeBoundaryReportCode = some code) := by
              intro s' hcount' hcursor'
              refine ⟨hcount', hcursor'.imp_right ?_⟩
              rintro ⟨code, hcode, hlast, hboundary⟩
              exact ⟨value, code, rfl, ⟨kills, wipes, omitted, hdecoded⟩, hcode, hlast, hboundary⟩
            split
            · exact hread _ hcount hcursor
            · split
              · exact hread _ hcount hcursor
              · split
                · exact hread _ hcount hcursor
                · exact hread _ hcount hcursor

variable {s : ScanState}

variable {requests : List HistoryRequest}

theorem Traced.scanPage (h : Traced requests s) (options : ScanOptions) {page : ℕ}
    (hpage : 1 ≤ page) (read : PageRead) :
    Traced (requests ++ [.page page read]) (scanPage options page read s).1 := by
  obtain ⟨hcount, hcursor⟩ := scanPage_cursor options page read s
  refine ⟨?_, fun p hp => ?_⟩
  · rw [hcount, h.counted, length_append, length_singleton]
  · rcases hcursor with ⟨hlast, hboundary⟩ | ⟨value, code, hread, hclean, hcode, hlast, hboundary⟩
    · rw [hlast] at hp
      obtain ⟨hpos, decoded, hmem, hclean, hcode, hsame⟩ := h.decoded p hp
      exact ⟨hpos, decoded, mem_append_left _ hmem, hclean, hcode, hboundary.trans hsame⟩
    · rw [hlast] at hp
      obtain rfl := Option.some.inj hp
      refine ⟨hpage, value, ?_, hclean, ?_, hboundary.trans hcode.symm⟩
      · rw [hread]
        exact mem_append_right _ (mem_singleton.mpr rfl)
      · rw [hcode]
        exact Option.some_ne_none code

theorem Traced.scanPages {page : ℕ} (h : Traced requests s) (options : ScanOptions)
    (readPage : ℕ → PageRead) (limit : ℕ) (hpage : 1 ≤ page) :
    Traced (requests ++ pageRequests (pagesRead options readPage limit page s))
      (HistoryScan.scanPages options readPage limit page s) := by
  induction limit generalizing requests page s with
  | zero =>
    rw [show pageRequests (pagesRead options readPage 0 page s) = [] from rfl, append_nil]
    exact h
  | succ limit ih =>
    have hnext := h.scanPage options hpage (readPage page)
    unfold HistoryScan.scanPages pagesRead
    generalize HistoryScan.scanPage options page (readPage page) s = result at hnext ⊢
    obtain ⟨next, go⟩ := result
    cases go with
    | false => exact hnext
    | true =>
      have hrest := ih hnext (show 1 ≤ page + 1 by omega)
      rw [append_assoc] at hrest
      exact hrest

theorem length_pagesRead (options : ScanOptions) (readPage : ℕ → PageRead) (limit page : ℕ)
    (s : ScanState) : (pagesRead options readPage limit page s).length ≤ limit := by
  induction limit generalizing page s with
  | zero => exact le_refl 0
  | succ limit ih =>
    unfold pagesRead
    rw [length_cons]
    generalize scanPage options page (readPage page) s = result
    obtain ⟨next, go⟩ := result
    cases go with
    | false => exact Nat.succ_le_succ (Nat.zero_le limit)
    | true => exact Nat.succ_le_succ (ih (page + 1) next)

theorem scanPage_stop (options : ScanOptions) (page : ℕ) (read : PageRead) (s : ScanState)
    (h : (scanPage options page read s).2 = false) :
    (scanPage options page read s).1.limitation ≠ none ∨
      (scanPage options page read s).1.finished = true := by
  unfold scanPage at h ⊢
  cases read with
  | limitation code => exact .inl (Option.some_ne_none code)
  | success value =>
    dsimp only at h ⊢
    cases hdecoded : value.decoded with
    | limitation code => exact .inl (Option.some_ne_none code)
    | evidence kills wipes omitted limited =>
      rw [hdecoded] at h
      dsimp only at h ⊢
      cases limited with
      | some code => exact .inl (Option.some_ne_none code)
      | none =>
        dsimp only at h ⊢
        by_cases hfloor : belowFloor options.killScanFloor value.reach = true
        · rw [if_pos hfloor]
          exact .inr rfl
        · rw [if_neg hfloor] at h ⊢
          cases hmore : value.hasMorePages with
          | none => exact .inl (Option.some_ne_none _)
          | some more =>
            rw [hmore] at h
            dsimp only at h ⊢
            by_cases hlast : more = false
            · rw [if_pos hlast]
              exact .inr rfl
            · rw [if_neg hlast] at h ⊢
              by_cases hpage : page = recentReportsMaxPage
              · rw [if_pos hpage]
                exact .inl (Option.some_ne_none _)
              · rw [if_neg hpage] at h
                split at h <;> cases h

theorem scanPages_spent (options : ScanOptions) (readPage : ℕ → PageRead) (limit page : ℕ)
    (s : ScanState) (hlimit : (scanPages options readPage limit page s).limitation = none)
    (hopen : (scanPages options readPage limit page s).finished = false) :
    (scanPages options readPage limit page s).historyRequests = s.historyRequests + limit := by
  induction limit generalizing page s with
  | zero => rfl
  | succ limit ih =>
    have hstop := scanPage_stop options page (readPage page) s
    have hcount := (scanPage_cursor options page (readPage page) s).1
    unfold scanPages at hlimit hopen ⊢
    generalize scanPage options page (readPage page) s = result at hstop hcount hlimit hopen ⊢
    obtain ⟨next, go⟩ := result
    cases go with
    | false =>
      rcases hstop rfl with hlimited | hfinished
      · exact absurd hlimit hlimited
      · exact absurd hopen (by
          rw [show next.finished = true from hfinished]
          decide)
    | true =>
      have hrest := ih (page + 1) next hlimit hopen
      have hone : next.historyRequests = s.historyRequests + 1 := hcount
      dsimp only
      omega

theorem scanPage_clean (options : ScanOptions) (page : ℕ) (read : PageRead) (s : ScanState)
    (hs : s.finished = false)
    (h : (scanPage options page read s).2 = true ∨
      (scanPage options page read s).1.finished = true) :
    ∃ value, read = .success value ∧ CleanPage value ∧
      ((scanPage options page read s).2 = true →
        (scanPage options page read s).1.finished = false) ∧
      ((scanPage options page read s).2 = false → EndsScan options value) := by
  obtain ⟨value, rfl, -, -, hopen, hend⟩ := scanPage_held options page read s hs h
  refine ⟨value, rfl, ?_, hopen, hend⟩
  unfold scanPage at h
  dsimp only at h
  cases hdecoded : value.decoded with
  | limitation code => simp [hdecoded, hs] at h
  | evidence kills wipes omitted limited =>
    cases limited with
    | some code => simp [hdecoded, ScanState.addEvidence, hs] at h
    | none => exact ⟨kills, wipes, omitted, hdecoded⟩

/-- A scan that finishes decoded every page it read cleanly, and the last one
ended it. -/
theorem pagesRead_finished (options : ScanOptions) (readPage : ℕ → PageRead) (limit page : ℕ)
    (s : ScanState) (hs : s.finished = false)
    (h : (scanPages options readPage limit page s).finished = true) :
    ∃ last, page ≤ last ∧
      (∀ i, page ≤ i → i ≤ last → ∃ value, (i, PageRead.success value) ∈
        pagesRead options readPage limit page s ∧ CleanPage value) ∧
      ∃ value, (last, PageRead.success value) ∈ pagesRead options readPage limit page s ∧
        CleanPage value ∧ EndsScan options value := by
  induction limit generalizing page s with
  | zero =>
    rw [show (scanPages options readPage 0 page s).finished = s.finished from rfl, hs] at h
    cases h
  | succ limit ih =>
    have hclean := scanPage_clean options page (readPage page) s hs
    unfold scanPages at h
    unfold pagesRead
    generalize scanPage options page (readPage page) s = result at hclean h ⊢
    obtain ⟨next, go⟩ := result
    cases go with
    | false =>
      obtain ⟨value, hread, hvalue, -, hend⟩ := hclean (.inr h)
      rw [hread]
      refine ⟨page, le_refl page, fun i hi hil => ?_, value, mem_cons_self, hvalue, hend rfl⟩
      obtain rfl : i = page := by omega
      exact ⟨value, mem_cons_self, hvalue⟩
    | true =>
      obtain ⟨value, hread, hvalue, hopen, -⟩ := hclean (.inl rfl)
      obtain ⟨last, hlast, hpages, ending, hending, hrest⟩ := ih (page + 1) next (hopen rfl) h
      rw [hread]
      refine ⟨last, by omega, fun i hi hil => ?_, ending, mem_cons_of_mem _ hending, hrest⟩
      by_cases hip : i = page
      · subst hip
        exact ⟨value, mem_cons_self, hvalue⟩
      · obtain ⟨decoded, hmem, hdecoded⟩ := hpages i (by omega) hil
        exact ⟨decoded, mem_cons_of_mem _ hmem, hdecoded⟩

/-! The probe. -/

theorem entry_boundary (options : ScanOptions)
    (h : (entry options).2.resumeBoundaryReportCode.isSome) :
    (entry options).2.resumeBoundaryReportCode = options.historyScanResumeBoundaryReportCode := by
  unfold entry at h ⊢
  split
  · next hunsupported =>
    rw [if_pos hunsupported] at h
    cases h
  · next hsupported =>
    rw [if_neg hsupported] at h
    unfold ScanState.start at h ⊢
    dsimp only at h ⊢
    split
    · next htargeted =>
      rw [if_pos htargeted] at h
      cases h
    · rfl

def probeRequests (options : ScanOptions) (upstream : Upstream) : List HistoryRequest :=
  if probes options then [.page ((entry options).1 - 1) upstream.probe] else []

/-- What the loop starts from. -/
structure Entered (options : ScanOptions) (upstream : Upstream) (startPage : ℕ)
    (s : ScanState) : Prop where
  traced : Traced (probeRequests options upstream) s
  positive : 1 ≤ startPage
  capped : s.historyRequests ≤ options.requestCap
  unlimited : s.limitation = none
  unfinished : s.finished = false

theorem entry_limitation (options : ScanOptions) : (entry options).2.limitation = none := by
  unfold entry
  split <;> rfl

theorem entry_requests (options : ScanOptions) : (entry options).2.historyRequests = 0 := by
  unfold entry
  split <;> rfl

variable {options : ScanOptions} {upstream : Upstream}

theorem probeEntry_ok {startPage : ℕ} (h : probeEntry options upstream = .ok (startPage, s)) :
    Entered options upstream startPage s := by
  unfold probeEntry probeBoundary at h
  by_cases hprobes : probes options
  · have hrequests : probeRequests options upstream =
        [.page ((entry options).1 - 1) upstream.probe] := if_pos hprobes
    have hboundary := entry_boundary options hprobes.2.2
    have hlast : (entry options).2.lastDecodedPage = none := by
      unfold entry
      split <;> rfl
    have hcond : options.requestCap > 0 ∧ (entry options).1 > 1 ∧
        (entry options).2.resumeBoundaryReportCode.isSome = true := hprobes
    rw [if_pos hcond] at h
    dsimp only at h
    cases hread : upstream.probe with
    | limitation code =>
      rw [hread] at h
      cases h
    | success value =>
      rw [hread] at h hrequests
      dsimp only at h
      cases hdecoded : value.decoded with
      | limitation code =>
        rw [hdecoded] at h
        cases h
      | evidence kills wipes omitted limited =>
        rw [hdecoded] at h
        dsimp only at h
        cases limited with
        | some code => cases h
        | none =>
          rw [if_neg (by simp)] at h
          have hone : (entry options).2.historyRequests + 1 = 1 := by
            rw [entry_requests]
          have hcap : 1 ≤ options.requestCap := hprobes.1
          by_cases hmoved : value.lastReportCode ≠ options.historyScanResumeBoundaryReportCode
          · rw [if_pos hmoved] at h
            obtain ⟨rfl, rfl⟩ := Prod.mk.inj (Except.ok.inj h)
            refine ⟨⟨?_, fun p hp => ?_⟩, le_refl 1, ?_, entry_limitation options,
              entry_finished options⟩
            · rw [hrequests]
              exact hone
            · exact absurd (hlast.symm.trans hp) (Option.some_ne_none p).symm
            · exact le_trans (le_of_eq hone) hcap
          · rw [if_neg hmoved] at h
            obtain ⟨rfl, rfl⟩ := Prod.mk.inj (Except.ok.inj h)
            have hstart : 1 < (entry options).1 := hprobes.2.1
            have hcode : value.lastReportCode = options.historyScanResumeBoundaryReportCode :=
              not_not.mp hmoved
            refine ⟨⟨?_, fun p hp => ?_⟩, by omega, ?_, entry_limitation options,
              entry_finished options⟩
            · rw [hrequests]
              exact hone
            · obtain rfl : (entry options).1 - 1 = p := Option.some.inj hp
              refine ⟨by omega, value, ?_, ⟨kills, wipes, omitted, hdecoded⟩, ?_, ?_⟩
              · rw [hrequests]
                exact mem_singleton.mpr rfl
              · rw [hcode, ← hboundary]
                exact Option.isSome_iff_ne_none.mp hprobes.2.2
              · exact hboundary.trans hcode.symm
            · exact le_trans (le_of_eq hone) hcap
  · have hrequests : probeRequests options upstream = [] := if_neg hprobes
    have hcond : ¬ (options.requestCap > 0 ∧ (entry options).1 > 1 ∧
        (entry options).2.resumeBoundaryReportCode.isSome = true) := hprobes
    rw [if_neg hcond] at h
    obtain ⟨rfl, rfl⟩ := Prod.mk.inj (Except.ok.inj h)
    refine ⟨?_, entry_pos options, ?_, entry_limitation options, entry_finished options⟩
    · rw [hrequests]
      exact Traced.start options
    · rw [entry_requests]
      exact Nat.zero_le _

theorem probes_of_error {result : DecodedPage} (h : probeEntry options upstream = .error result) :
    probes options := by
  by_contra hprobes
  have hcond : ¬ (options.requestCap > 0 ∧ (entry options).1 > 1 ∧
      (entry options).2.resumeBoundaryReportCode.isSome = true) := hprobes
  unfold probeEntry probeBoundary at h
  rw [if_neg hcond] at h
  cases h

/-! The scan. -/

theorem Traced.limitByBudget (h : Traced requests s) (options : ScanOptions) :
    Traced requests (HistoryScan.limitByBudget options s) := by
  unfold HistoryScan.limitByBudget
  split
  · exact ⟨h.counted, h.decoded⟩
  · exact h

theorem scanRequests_of_error {result : DecodedPage}
    (h : probeEntry options upstream = .error result) :
    scanRequests options upstream = [.page ((entry options).1 - 1) upstream.probe] := by
  unfold scanRequests
  rw [if_pos (probes_of_error h)]
  simp only [h, append_nil]

theorem scanRequests_of_ok {startPage : ℕ} (h : probeEntry options upstream = .ok (startPage, s)) :
    scanRequests options upstream = probeRequests options upstream ++
      pageRequests (pagesRead options upstream.page (options.requestCap - s.historyRequests)
        startPage s) := by
  unfold scanRequests probeRequests
  simp only [h]

/-- The run decoded pages one to some last one, which ends the history or lies
wholly below the floor. -/
def ReadToEnd (options : ScanOptions) (requests : List HistoryRequest) : Prop :=
  ∃ last, 1 ≤ last ∧
    (∀ i, 1 ≤ i → i ≤ last → ∃ page, HistoryRequest.page i (.success page) ∈ requests ∧
      CleanPage page) ∧
    ∃ page, HistoryRequest.page last (.success page) ∈ requests ∧ CleanPage page ∧
      EndsScan options page

/-- What a scan that was not ended by its probe leaves. -/
structure Scanned (options : ScanOptions) (requests : List HistoryRequest) (s : ScanState)
    (resumedFromCursor : Bool) : Prop where
  traced : Traced requests s
  capped : s.historyRequests ≤ options.requestCap
  readToEnd : options.targetedOnly = false → s.limitation = none → resumedFromCursor = false →
    ReadToEnd options requests

theorem mem_pageRequests {reads : List (ℕ × PageRead)} {i : ℕ} {read : PageRead}
    (h : (i, read) ∈ reads) : HistoryRequest.page i read ∈ pageRequests reads :=
  mem_map.mpr ⟨(i, read), h, rfl⟩

variable {resumed : Bool}

theorem scanned_of_scanUpstream (h : scanUpstream options upstream = .historyScan s resumed) :
    Scanned options (scanRequests options upstream) s resumed := by
  unfold scanUpstream at h
  cases hentry : probeEntry options upstream with
  | error result =>
    simp only [hentry] at h
    cases h
  | ok entered =>
    obtain ⟨startPage, proved⟩ := entered
    simp only [hentry] at h
    obtain ⟨rfl, rfl⟩ := ScanOutcome.historyScan.inj h
    have hprobe := probeEntry_ok hentry
    have hrequests := scanRequests_of_ok hentry
    have htraced := hprobe.traced.scanPages options upstream.page
      (options.requestCap - proved.historyRequests) hprobe.positive
    rw [← hrequests] at htraced
    refine ⟨htraced.limitByBudget options, ?_, ?_⟩
    · rw [(htraced.limitByBudget options).counted, hrequests, length_append,
        ← hprobe.traced.counted]
      have hlength := length_pagesRead options upstream.page
        (options.requestCap - proved.historyRequests) startPage proved
      have hcap := hprobe.capped
      unfold pageRequests
      rw [length_map]
      omega
    · intro htargeted hlimit hresumed
      obtain ⟨hstart, -⟩ := Bool.or_eq_false_iff.mp hresumed
      have hone : startPage = 1 := by
        have hle := of_decide_eq_false hstart
        have hpos := hprobe.positive
        omega
      subst hone
      have hfinished : (scanPages options upstream.page
          (options.requestCap - proved.historyRequests) 1 proved).finished = true := by
        by_contra hopen
        have hunfinished := eq_false_of_ne_true hopen
        unfold HistoryScan.limitByBudget at hlimit
        split at hlimit
        · cases hlimit
        · next hspent =>
          refine hspent ⟨htargeted, hlimit, ?_, hunfinished⟩
          rw [scanPages_spent options upstream.page _ 1 proved hlimit hunfinished]
          have hcap := hprobe.capped
          omega
      obtain ⟨last, hlast, hpages, ending, hending, hclean, hends⟩ :=
        pagesRead_finished options upstream.page _ 1 proved hprobe.unfinished hfinished
      rw [hrequests]
      refine ⟨last, hlast, fun i hi hil => ?_, ending, ?_, hclean, hends⟩
      · obtain ⟨page, hpage, hdecoded⟩ := hpages i hi hil
        exact ⟨page, mem_append_right _ (mem_pageRequests hpage), hdecoded⟩
      · exact mem_append_right _ (mem_pageRequests hending)

/-! The result. -/

theorem limitation_of_walked {later : LaterWork} (h : limitationAfterWalk s later = none) :
    s.limitation = none := by
  unfold limitationAfterWalk at h
  split at h
  · exact h
  · cases h

variable {limitation : Option LimitationCode}

theorem scanLimitation_eq_none (h : scanLimitation resumed limitation = none) :
    limitation = none ∧ resumed = false := by
  unfold scanLimitation restartFromFirstPage at h
  cases limitation with
  | none =>
    cases resumed with
    | true => cases h
    | false => exact ⟨rfl, rfl⟩
  | some code =>
    rw [if_neg (by simp)] at h
    cases h

theorem resumeOf_page {p : ℕ} (h : (resumeOf s resumed limitation).page = some p) (hp : 1 < p) :
    s.lastDecodedPage = some (p - 1) ∧
      (resumeOf s resumed limitation).boundaryReportCode = s.resumeBoundaryReportCode := by
  unfold resumeOf at h ⊢
  split at h
  · obtain rfl := Option.some.inj h
    omega
  · next hrestart =>
    rw [if_neg hrestart]
    split at h
    · cases h
    · next hopen =>
      rw [if_neg hopen]
      cases hlast : s.lastDecodedPage with
      | none =>
        rw [hlast] at h
        dsimp only at h
        split at h
        · obtain rfl := Option.some.inj h
          omega
        · cases h
      | some page =>
        rw [hlast] at h
        obtain rfl : page + 1 = p := Option.some.inj h
        exact ⟨rfl, rfl⟩

theorem reportResult_evidence {options : FirstKillOptions} {later : LaterWork}
    {recovery : AttendanceRecovery} {result : EvidenceResult}
    (h : reportResult options later recovery resumed = .evidence result) :
    let walked := limitationAfterWalk recovery.budgeted.scan later
    (result.limitation = none → scanLimitation resumed walked = none) ∧
    (result.historyScanResumePage = none ∨
      (result.historyScanResumePage = (resumeOf recovery.budgeted.scan resumed walked).page ∧
        result.historyScanResumeBoundaryReportCode =
          (resumeOf recovery.budgeted.scan resumed walked).boundaryReportCode)) := by
  unfold reportResult at h
  dsimp only at h ⊢
  split at h
  · obtain rfl := ReportResult.evidence.inj h
    exact ⟨id, .inr ⟨rfl, rfl⟩⟩
  · split at h
    · obtain rfl := ReportResult.evidence.inj h
      exact ⟨id, .inr ⟨rfl, rfl⟩⟩
    · split at h
      · cases h
      · cases h
      · next hnone _ =>
        obtain rfl := ReportResult.evidence.inj h
        exact ⟨fun _ => hnone, .inl rfl⟩

theorem limited_of_error {decoded : DecodedPage} (h : probeEntry options upstream = .error decoded)
    {result : EvidenceResult} (hresult : ReportResult.ofDecoded decoded = .evidence result) :
    result.limitation ≠ none ∧ result.historyScanResumePage = none := by
  have hcond : options.requestCap > 0 ∧ (entry options).1 > 1 ∧
      (entry options).2.resumeBoundaryReportCode.isSome = true := probes_of_error h
  unfold probeEntry probeBoundary at h
  rw [if_pos hcond] at h
  dsimp only at h
  cases hread : upstream.probe with
  | limitation code =>
    rw [hread] at h
    obtain rfl := Except.error.inj h
    cases hresult
  | success value =>
    rw [hread] at h
    dsimp only at h
    cases hdecoded : value.decoded with
    | limitation code =>
      rw [hdecoded] at h
      obtain rfl := Except.error.inj h
      cases hresult
    | evidence kills wipes omitted limited =>
      rw [hdecoded] at h
      dsimp only at h
      cases limited with
      | none =>
        rw [if_neg (by simp)] at h
        split at h <;> cases h
      | some code =>
        rw [if_pos (Option.isSome_some : (some code).isSome = true)] at h
        obtain rfl := Except.error.inj h
        obtain rfl := ReportResult.evidence.inj hresult
        exact ⟨Option.some_ne_none code, rfl⟩

/-- Evidence without a limitation has read the whole history down to the floor;
a resume point names the last page the run decoded; and the requests made are
within the cap. -/
theorem collectFirstKillReports_reads (options : FirstKillOptions) (upstream : Upstream)
    (later : LaterWork) (htargeted : options.targetedOnly = false) :
    let collected := collectFirstKillReports options upstream later
    (∀ result, collected.1 = .evidence result → result.limitation = none →
      ReadToEnd options.toScanOptions collected.2) ∧
    (∀ result p code, collected.1 = .evidence result →
      result.historyScanResumePage = some p → 1 < p →
      result.historyScanResumeBoundaryReportCode = some code →
        ∃ page, HistoryRequest.page (p - 1) (.success page) ∈ collected.2 ∧ CleanPage page ∧
          page.lastReportCode = some code) ∧
    collected.2.length ≤ options.requestCap := by
  dsimp only
  unfold collectFirstKillReports
  cases hscan : scanUpstream options.toScanOptions upstream with
  | ended decoded =>
    have herror : probeEntry options.toScanOptions upstream = .error decoded := by
      unfold scanUpstream at hscan
      cases hentry : probeEntry options.toScanOptions upstream with
      | error result =>
        simp only [hentry] at hscan
        rw [ScanOutcome.ended.inj hscan]
      | ok entered =>
        simp only [hentry] at hscan
        cases hscan
    dsimp only
    refine ⟨fun result hresult hlimit => ?_, fun result p code hresult hpage => ?_, ?_⟩
    · exact absurd hlimit (limited_of_error herror hresult).1
    · rw [(limited_of_error herror hresult).2] at hpage
      cases hpage
    · rw [scanRequests_of_error herror]
      exact (probes_of_error herror).1
  | historyScan scan resumed =>
    have hscanned := scanned_of_scanUpstream hscan
    dsimp only
    generalize hreread : rereadStoredReports options.requestCap upstream
      options.storedKillReportCodes resumed
      ⟨scan, scanRequests options.toScanOptions upstream⟩ = reread
    generalize hrecovery : recoverFromAttendance options.requestCap upstream
      options.verifiedKills _ reread = recovery
    have hwithin : Within options.requestCap
        ⟨scan, scanRequests options.toScanOptions upstream⟩ recovery.budgeted := by
      rw [← hrecovery, ← hreread]
      exact (within_rereadStoredReports upstream _ _ _).trans
        (within_recoverFromAttendance upstream _ _ _)
    obtain ⟨made, hmade, hcount⟩ := hwithin.spent
    have hkept : ∀ request, request ∈ scanRequests options.toScanOptions upstream →
        request ∈ recovery.budgeted.requests := by
      intro request hrequest
      rw [hmade]
      exact mem_append_left _ hrequest
    refine ⟨fun result hresult hlimit => ?_, fun result p code hresult hpage hp hcode => ?_, ?_⟩
    · obtain ⟨hwalked, hresumed⟩ :=
        scanLimitation_eq_none ((reportResult_evidence hresult).1 hlimit)
      have hunlimited : scan.limitation = none := by
        by_contra hlimited
        exact hwithin.limited hlimited (limitation_of_walked hwalked)
      obtain ⟨last, hlast, hpages, ending, hending, hends⟩ :=
        hscanned.readToEnd htargeted hunlimited hresumed
      refine ⟨last, hlast, fun i hi hil => ?_, ending, hkept _ hending, hends⟩
      obtain ⟨page, hmem, hclean⟩ := hpages i hi hil
      exact ⟨page, hkept _ hmem, hclean⟩
    · rcases (reportResult_evidence hresult).2 with hnone | ⟨hresume, hboundary⟩
      · rw [hnone] at hpage
        cases hpage
      · rw [hresume] at hpage
        obtain ⟨hlast, hsame⟩ := resumeOf_page hpage hp
        rw [hwithin.lastDecodedPage] at hlast
        obtain ⟨-, page, hmem, hclean, -, hreport⟩ := hscanned.traced.decoded _ hlast
        refine ⟨page, hkept _ hmem, hclean, ?_⟩
        rw [← hreport, ← hcode, hboundary, hsame, hwithin.boundary]
    · rw [hmade, length_append]
      have hcounted := hscanned.traced.counted
      have hcapped := hwithin.capped hscanned.capped
      dsimp only at hcount ⊢
      omega

/-! A history of two pages, read in one run. -/

def twoPage (number : ℕ) : HistoryPage where
  decoded := .evidence [] [] false none
  reach := []
  reportCodes := ["report"]
  lastReportCode := some "report"
  hasMorePages := some (number = 1)
  kill_reached := fun _ h => absurd h (not_mem_nil)
  wipe_reached := fun _ h => absurd h (not_mem_nil)

def twoPages : Upstream where
  probe := .limitation .transient
  page number := .success (twoPage number)
  spans _ := []
  report _ := .limitation .notFound
  guildReports _ _ _ := .limitation .notFound

def twoPageOptions (requestCap : ℕ) : FirstKillOptions where
  targetedOnly := false
  requestCap := requestCap
  historyScanStartPage := none
  historyScanResumeBoundaryReportCode := none
  killScanFloor := none
  storedKills := []
  storedKillReportCodes := []
  verifiedKills := []

def noLaterWork : LaterWork where
  rankedBackfill := none
  tierSearchKills := []
  tierSearchWipes := []
  parses := id
  parseLimitation := none

/-- With budget for both pages the history is read to its end; with budget for
one, the run resumes after it. -/
theorem collectFirstKillReports_reads_twoPages :
    ReadToEnd (twoPageOptions 2).toScanOptions
        (collectFirstKillReports (twoPageOptions 2) twoPages noLaterWork).2 ∧
      ∃ page, HistoryRequest.page 1 (.success page) ∈
          (collectFirstKillReports (twoPageOptions 1) twoPages noLaterWork).2 ∧
        CleanPage page ∧ page.lastReportCode = some "report" :=
  ⟨(collectFirstKillReports_reads (twoPageOptions 2) twoPages noLaterWork rfl).1 _ rfl rfl,
    (collectFirstKillReports_reads (twoPageOptions 1) twoPages noLaterWork rfl).2.1 _ 2 "report"
      rfl rfl (by decide) rfl⟩

end SlashWho.FirstKillCollection
