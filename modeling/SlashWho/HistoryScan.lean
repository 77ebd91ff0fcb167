import Mathlib.Data.PNat.Defs
import SlashWho.EvidenceMerge

/-!
One character's report history, paged newest first. A page is held as the
decoder leaves it: the evidence on it, the instants it reaches, its report
codes and whether more follow. The scan reads pages until its budget ends, the
history ends, a page fails, or a page lies wholly below the scan floor.
-/

namespace SlashWho.HistoryScan

open EvidenceMerge

def recentReportsMaxPage : ℕ := 5

inductive LimitationCode
  | notFound
  | private_
  | schemaDrift
  | transient
  | requestCap
  | historyLimit
  deriving DecidableEq

/-- What `firstKillReports` makes of a page: a refusal, or evidence that a
drift part way down may still limit. -/
inductive DecodedPage
  | limitation (code : LimitationCode)
  | evidence (kills : List MythicKill) (wipes : List MythicWipe)
      (omittedInvalidTimestamp : Bool) (limitation : Option LimitationCode)

def DecodedPage.kills : DecodedPage → List MythicKill
  | .limitation _ => []
  | .evidence kills _ _ _ => kills

def DecodedPage.wipes : DecodedPage → List MythicWipe
  | .limitation _ => []
  | .evidence _ wipes _ _ => wipes

/-- A fight is dated by its report's start and its own end, as evidence and as
reach alike, so the evidence on a page lies within the page's reach. -/
structure HistoryPage where
  decoded : DecodedPage
  reach : List Instant
  reportCodes : List String
  lastReportCode : Option String
  hasMorePages : Option Bool
  kill_reached : ∀ kill ∈ decoded.kills, kill.killedAt ∈ reach
  wipe_reached : ∀ wipe ∈ decoded.wipes, wipe.attemptedAt ∈ reach

def HistoryPage.kills (page : HistoryPage) : List MythicKill := page.decoded.kills

def HistoryPage.wipes (page : HistoryPage) : List MythicWipe := page.decoded.wipes

inductive PageRead
  | limitation (code : LimitationCode)
  | success (page : HistoryPage)

structure ScanOptions where
  targetedOnly : Bool
  requestCap : ℕ
  historyScanStartPage : Option ℕ+
  historyScanResumeBoundaryReportCode : Option String
  killScanFloor : Option Instant
  storedKills : List MythicKill

/-- The run's findings and the scan's own variables. -/
structure ScanState where
  kills : OrderedMap String MythicKill
  wipes : OrderedMap String MythicWipe
  scannedReportCodes : List String
  historyRequests : ℕ
  limitation : Option LimitationCode
  omittedInvalidTimestamp : Bool
  lastDecodedPage : Option ℕ
  invalidatedStoredBoundary : Bool
  resumeBoundaryReportCode : Option String
  historyLimitReached : Bool
  finished : Bool

namespace ScanState

def start (options : ScanOptions) : ScanState where
  kills := .ofList (options.storedKills.map (fun kill => (kill.fightUrl, kill)))
  wipes := .empty
  scannedReportCodes := []
  historyRequests := 0
  limitation := none
  omittedInvalidTimestamp := false
  lastDecodedPage := none
  invalidatedStoredBoundary := false
  resumeBoundaryReportCode :=
    if options.targetedOnly then none else options.historyScanResumeBoundaryReportCode
  historyLimitReached := false
  finished := false

variable (s : ScanState)

def addEvidence (page : HistoryPage) : ScanState :=
  { s with
    kills := s.kills.setAll (page.kills.map (fun kill => (kill.fightUrl, kill)))
    wipes := s.wipes.setAll (page.wipes.map (fun wipe => (wipe.fightUrl, wipe))) }

/-- An empty page has no report to anchor on, so it leaves the cursor on the
page before it. -/
def noteBoundary (page : ℕ) (boundary : Option String) : ScanState :=
  match boundary with
  | none => s
  | some code => { s with resumeBoundaryReportCode := some code, lastDecodedPage := some page }

@[simp] theorem noteBoundary_kills (page : ℕ) (boundary : Option String) :
    (s.noteBoundary page boundary).kills = s.kills := by cases boundary <;> rfl

@[simp] theorem noteBoundary_wipes (page : ℕ) (boundary : Option String) :
    (s.noteBoundary page boundary).wipes = s.wipes := by cases boundary <;> rfl

@[simp] theorem noteBoundary_finished (page : ℕ) (boundary : Option String) :
    (s.noteBoundary page boundary).finished = s.finished := by cases boundary <;> rfl

end ScanState

/-- A page with nothing dated says nothing about how far back it reaches. -/
def belowFloor (floor : Option Instant) (reach : List Instant) : Bool :=
  match floor with
  | none => false
  | some floor => !reach.isEmpty && reach.all (fun at_ => at_ < floor)

/-- What one read page does to the scan, and whether the scan goes on. -/
def scanPage (options : ScanOptions) (page : ℕ) (read : PageRead) (s : ScanState) :
    ScanState × Bool :=
  let s := { s with historyRequests := s.historyRequests + 1 }
  match read with
  | .limitation code => ({ s with limitation := some code }, false)
  | .success value =>
    match value.decoded with
    | .limitation code => ({ s with limitation := some code }, false)
    | .evidence _ _ omitted limited =>
      let s := s.addEvidence value
      let s := { s with omittedInvalidTimestamp := s.omittedInvalidTimestamp || omitted }
      match limited with
      | some code => ({ s with limitation := some code }, false)
      | none =>
        let s := { s with scannedReportCodes := s.scannedReportCodes ++ value.reportCodes }
        if belowFloor options.killScanFloor value.reach then ({ s with finished := true }, false)
        else
          match value.hasMorePages with
          | none => ({ s with limitation := some .schemaDrift }, false)
          | some more =>
            let s := s.noteBoundary page value.lastReportCode
            if more = false then ({ s with finished := true }, false)
            else if page = recentReportsMaxPage then
              ({ s with historyLimitReached := true, limitation := some .historyLimit }, false)
            else if s.historyRequests = options.requestCap then
              ({ s with limitation := some .requestCap }, true)
            else (s, true)

/-- The page loop, by the requests left in the budget. -/
def scanPages (options : ScanOptions) (readPage : ℕ → PageRead) : ℕ → ℕ → ScanState → ScanState
  | 0, _, s => s
  | requests + 1, page, s =>
    match scanPage options page (readPage page) s with
    | (next, true) => scanPages options readPage requests (page + 1) next
    | (next, false) => next

inductive ScanOutcome
  | ended (result : DecodedPage)
  | historyScan (state : ScanState) (resumedFromCursor : Bool)

/-- The stored boundary is proved by re-reading the last page it names. A
refused probe ends the read; a moved boundary restarts the scan at page one. -/
def probeBoundary (options : ScanOptions) (readPage : ℕ → PageRead) (startPage : ℕ)
    (s : ScanState) : Except DecodedPage (ℕ × ScanState) :=
  if options.requestCap > 0 ∧ startPage > 1 ∧ s.resumeBoundaryReportCode.isSome then
    match readPage (startPage - 1) with
    | .limitation code => .error (.limitation code)
    | .success value =>
      match value.decoded with
      | .limitation code => .error (.limitation code)
      | .evidence _ _ omitted limited =>
        if limited.isSome then .error value.decoded
        else
          let s := { s.addEvidence value with
            historyRequests := s.historyRequests + 1
            omittedInvalidTimestamp := s.omittedInvalidTimestamp || omitted
            scannedReportCodes := s.scannedReportCodes ++ value.reportCodes }
          if value.lastReportCode ≠ options.historyScanResumeBoundaryReportCode then
            .ok (1, { s with resumeBoundaryReportCode := none, invalidatedStoredBoundary := true })
          else .ok (startPage, { s with lastDecodedPage := some (startPage - 1) })
  else .ok (startPage, s)

def ScanOptions.askedPage (options : ScanOptions) : ℕ :=
  if options.targetedOnly then 1 else (options.historyScanStartPage.getD 1).val

def unsupportedCursor (options : ScanOptions) : Bool :=
  options.askedPage > recentReportsMaxPage

/-- The first page to read and the state to read it in: a cursor past the last
supported page is dropped. -/
def entry (options : ScanOptions) : ℕ × ScanState :=
  if unsupportedCursor options then
    (1, { ScanState.start options with
      resumeBoundaryReportCode := none
      invalidatedStoredBoundary := true })
  else (options.askedPage, ScanState.start options)

/-- A budget spent before the history ended is the scan's limitation. -/
def limitByBudget (options : ScanOptions) (s : ScanState) : ScanState :=
  if options.targetedOnly = false ∧ s.limitation = none ∧
      s.historyRequests = options.requestCap ∧ s.finished = false then
    { s with limitation := some .requestCap }
  else s

def scanHistory (options : ScanOptions) (readPage : ℕ → PageRead) : ScanOutcome :=
  match probeBoundary options readPage (entry options).1 (entry options).2 with
  | .error result => .ended result
  | .ok (startPage, s) =>
    .historyScan (limitByBudget options
        (scanPages options readPage (options.requestCap - s.historyRequests) startPage s))
      (startPage > 1 || unsupportedCursor options)

variable (s : ScanState)

/-- The scan holds every fight of a page, so the run re-read it. -/
def HoldsPage (page : HistoryPage) : Prop :=
  (∀ kill ∈ page.kills, kill.fightUrl ∈ s.kills.keys) ∧
    (∀ wipe ∈ page.wipes, wipe.fightUrl ∈ s.wipes.keys)

def Grows (s' : ScanState) : Prop :=
  (∀ url, url ∈ s.kills.keys → url ∈ s'.kills.keys) ∧
    (∀ url, url ∈ s.wipes.keys → url ∈ s'.wipes.keys)

theorem Grows.trans {s s' s'' : ScanState} (h : Grows s s') (h' : Grows s' s'') : Grows s s'' :=
  ⟨fun url hu => h'.1 url (h.1 url hu), fun url hu => h'.2 url (h.2 url hu)⟩

theorem HoldsPage.mono {s s' : ScanState} {page : HistoryPage} (h : HoldsPage s page)
    (hg : Grows s s') : HoldsPage s' page :=
  ⟨fun kill hk => hg.1 _ (h.1 kill hk), fun wipe hw => hg.2 _ (h.2 wipe hw)⟩

theorem grows_addEvidence (page : HistoryPage) : Grows s (s.addEvidence page) :=
  ⟨fun _ h => (OrderedMap.mem_keys_setAll _ _ _).mpr (.inl h),
    fun _ h => (OrderedMap.mem_keys_setAll _ _ _).mpr (.inl h)⟩

theorem holdsPage_addEvidence (page : HistoryPage) :
    HoldsPage (s.addEvidence page) page := by
  constructor
  · intro kill hk
    refine (OrderedMap.mem_keys_setAll _ _ _).mpr (.inr ?_)
    rw [List.map_map]
    exact List.mem_map_of_mem hk
  · intro wipe hw
    refine (OrderedMap.mem_keys_setAll _ _ _).mpr (.inr ?_)
    rw [List.map_map]
    exact List.mem_map_of_mem hw

section Scan
variable (options : ScanOptions) (readPage : ℕ → PageRead)

/-- The clean ways a page ends the scan. -/
def EndsScan (page : HistoryPage) : Prop :=
  belowFloor options.killScanFloor page.reach = true ∨ page.hasMorePages = some false

theorem scanPage_held (page : ℕ) (read : PageRead) (s : ScanState) (hs : s.finished = false)
    (h : (scanPage options page read s).2 = true ∨
      (scanPage options page read s).1.finished = true) :
    ∃ value, read = .success value ∧ HoldsPage (scanPage options page read s).1 value ∧
      Grows s (scanPage options page read s).1 ∧
      ((scanPage options page read s).2 = true →
        (scanPage options page read s).1.finished = false) ∧
      ((scanPage options page read s).2 = false → EndsScan options value) := by
  cases read with
  | limitation code => simp [scanPage, hs] at h
  | success value =>
    refine ⟨value, rfl, ?_⟩
    have hheld := holdsPage_addEvidence
      { s with historyRequests := s.historyRequests + 1 } value
    have hgrows := grows_addEvidence { s with historyRequests := s.historyRequests + 1 } value
    unfold scanPage at h ⊢
    cases hd : value.decoded with
    | limitation code => simp [hd, hs] at h
    | evidence kills wipes omitted limited =>
      simp only [hd] at h ⊢
      cases limited with
      | some code => simp [ScanState.addEvidence, hs] at h
      | none =>
        simp only at h ⊢
        by_cases hfloor : belowFloor options.killScanFloor value.reach = true
        · rw [if_pos hfloor] at h ⊢
          exact ⟨hheld, hgrows, by simp, fun _ => .inl hfloor⟩
        · rw [if_neg hfloor] at h ⊢
          cases hmore : value.hasMorePages with
          | none => simp [hmore, ScanState.addEvidence, hs] at h
          | some more =>
            simp only [hmore] at h ⊢
            by_cases hlast : more = false
            · rw [if_pos hlast] at h ⊢
              exact ⟨by simpa [HoldsPage] using hheld, by simpa [Grows] using hgrows, by simp,
                fun _ => .inr (by rw [hmore, hlast])⟩
            · rw [if_neg hlast] at h ⊢
              by_cases hpage : page = recentReportsMaxPage
              · rw [if_pos hpage] at h
                simp [ScanState.addEvidence, hs] at h
              · rw [if_neg hpage] at h ⊢
                have hopen : (s.addEvidence value).finished = false := hs
                split <;>
                  exact ⟨by simpa [HoldsPage] using hheld, by simpa [Grows] using hgrows,
                    by simpa [ScanState.addEvidence] using hs, by simp⟩

theorem scanPages_finished (requests page : ℕ) (s : ScanState) (hs : s.finished = false)
    (h : (scanPages options readPage requests page s).finished = true) :
    ∃ last, page ≤ last ∧
      (∀ i, page ≤ i → i ≤ last → ∃ value, readPage i = .success value ∧
        HoldsPage (scanPages options readPage requests page s) value) ∧
      ∃ value, readPage last = .success value ∧ EndsScan options value := by
  have key : ∀ (requests page : ℕ) (s : ScanState), s.finished = false →
      (scanPages options readPage requests page s).finished = true →
      Grows s (scanPages options readPage requests page s) ∧ ∃ last, page ≤ last ∧
        (∀ i, page ≤ i → i ≤ last → ∃ value, readPage i = .success value ∧
          HoldsPage (scanPages options readPage requests page s) value) ∧
        ∃ value, readPage last = .success value ∧ EndsScan options value := by
    intro requests
    induction requests with
    | zero => intro page s hs h; simp [scanPages, hs] at h
    | succ requests ih =>
      intro page s hs h
      cases hgo : (scanPage options page (readPage page) s).2 with
      | true =>
        obtain ⟨value, hread, hheld, hgrows, hopen, -⟩ :=
          scanPage_held options page (readPage page) s hs (.inl hgo)
        have hstep : scanPages options readPage (requests + 1) page s =
            scanPages options readPage requests (page + 1)
              (scanPage options page (readPage page) s).1 := by
          rw [scanPages]
          generalize scanPage options page (readPage page) s = result at hgo ⊢
          obtain ⟨next, go⟩ := result
          obtain rfl : go = true := hgo
          rfl
        rw [hstep] at h ⊢
        obtain ⟨hrest, last, hlast, hpages, hend⟩ := ih (page + 1) _ (hopen hgo) h
        refine ⟨hgrows.trans hrest, last, by omega, ?_, hend⟩
        intro i hi hil
        by_cases hip : i = page
        · subst hip
          exact ⟨value, hread, hheld.mono hrest⟩
        · exact hpages i (by omega) hil
      | false =>
        have hstep : scanPages options readPage (requests + 1) page s =
            (scanPage options page (readPage page) s).1 := by
          rw [scanPages]
          generalize scanPage options page (readPage page) s = result at hgo ⊢
          obtain ⟨next, go⟩ := result
          obtain rfl : go = false := hgo
          rfl
        rw [hstep] at h ⊢
        obtain ⟨value, hread, hheld, hgrows, -, hend⟩ :=
          scanPage_held options page (readPage page) s hs (.inr h)
        refine ⟨hgrows, page, le_refl page, ?_, value, hread, hend hgo⟩
        intro i hi hil
        obtain rfl : i = page := by omega
        exact ⟨value, hread, hheld⟩
  exact (key requests page s hs h).2

/-- Reports are paged newest first: past a page wholly below an instant, and
past the last page, nothing later is listed. -/
structure NewestFirst : Prop where
  below : ∀ i j page later floor, 1 ≤ i → i < j → readPage i = .success page →
    readPage j = .success later → belowFloor (some floor) page.reach = true →
      ∀ at_ ∈ later.reach, at_ < floor
  exhausted : ∀ i j page later, 1 ≤ i → i < j → readPage i = .success page →
    readPage j = .success later → page.hasMorePages = some false → later.reach = []

variable {page : HistoryPage}

theorem reach_lt_floor_of_endsScan {floor : Instant} (hpaged : NewestFirst readPage)
    (hfloor : options.killScanFloor = some floor) {i j : ℕ} {later : HistoryPage} (hi : 1 ≤ i)
    (hij : i < j) (hpage : readPage i = .success page) (hlater : readPage j = .success later)
    (hend : EndsScan options page) : ∀ at_ ∈ later.reach, at_ < floor := by
  rcases hend with hbelow | hmore
  · rw [hfloor] at hbelow
    exact hpaged.below i j page later floor hi hij hpage hlater hbelow
  · intro at_ hat
    rw [hpaged.exhausted i j page later hi hij hpage hlater hmore] at hat
    simp at hat

theorem probeBoundary_ok {startPage first : ℕ} {s proved : ScanState}
    (h : probeBoundary options readPage startPage s = .ok (first, proved))
    (hs : s.finished = false) (hpos : 1 ≤ startPage) : proved.finished = false ∧ 1 ≤ first := by
  unfold probeBoundary at h
  split at h
  · split at h
    · simp at h
    · split at h
      · simp at h
      · split at h
        · simp at h
        · split at h <;>
          · simp only [Except.ok.injEq, Prod.mk.injEq] at h
            obtain ⟨rfl, rfl⟩ := h
            exact ⟨hs, by omega⟩
  · simp only [Except.ok.injEq, Prod.mk.injEq] at h
    obtain ⟨rfl, rfl⟩ := h
    exact ⟨hs, hpos⟩

theorem entry_pos : 1 ≤ (entry options).1 := by
  unfold entry ScanOptions.askedPage
  split
  · exact le_refl 1
  · split
    · exact le_refl 1
    · exact (options.historyScanStartPage.getD 1).2

theorem entry_finished : (entry options).2.finished = false := by
  unfold entry
  split <;> rfl

theorem limitByBudget_finished (s : ScanState) :
    (limitByBudget options s).finished = s.finished := by
  unfold limitByBudget
  split <;> rfl

theorem holdsPage_limitByBudget {s : ScanState} (h : HoldsPage s page) :
    HoldsPage (limitByBudget options s) page := by
  unfold limitByBudget
  split <;> exact h

theorem scanHistory_finished {s : ScanState}
    (h : scanHistory options readPage = .historyScan s false) (hfinished : s.finished = true) :
    ∃ last, 1 ≤ last ∧
      (∀ i, 1 ≤ i → i ≤ last → ∃ value, readPage i = .success value ∧ HoldsPage s value) ∧
      ∃ value, readPage last = .success value ∧ EndsScan options value := by
  unfold scanHistory at h
  split at h
  · simp at h
  · next startPage proved hprobe =>
    simp only [ScanOutcome.historyScan.injEq, Bool.or_eq_false_iff, decide_eq_false_iff_not,
      not_lt] at h
    obtain ⟨rfl, hstart, -⟩ := h
    obtain ⟨hopen, hpos⟩ := probeBoundary_ok options readPage hprobe (entry_finished options)
      (entry_pos options)
    obtain rfl : startPage = 1 := le_antisymm hstart hpos
    rw [limitByBudget_finished] at hfinished
    obtain ⟨last, hlast, hpages, hend⟩ :=
      scanPages_finished options readPage _ 1 proved hopen hfinished
    refine ⟨last, hlast, fun i hi hil => ?_, hend⟩
    obtain ⟨value, hread, hheld⟩ := hpages i hi hil
    exact ⟨value, hread, holdsPage_limitByBudget options hheld⟩

theorem holdsPage_of_reach {s : ScanState} {floor : Instant} (hpaged : NewestFirst readPage)
    (hfloor : options.killScanFloor = some floor)
    (h : scanHistory options readPage = .historyScan s false) (hfinished : s.finished = true)
    {i : ℕ} (hi : 1 ≤ i) (hread : readPage i = .success page) {at_ : Instant}
    (hat : at_ ∈ page.reach) (hlate : floor ≤ at_) : HoldsPage s page := by
  obtain ⟨last, hlast, hpages, ending, hending, hend⟩ :=
    scanHistory_finished options readPage h hfinished
  by_cases hil : i ≤ last
  · obtain ⟨value, hvalue, hheld⟩ := hpages i hi hil
    rw [hread] at hvalue
    obtain rfl := PageRead.success.inj hvalue
    exact hheld
  · have hbefore := reach_lt_floor_of_endsScan options readPage hpaged hfloor hlast
      (not_le.mp hil) hending hread hend at_ hat
    exact absurd hbefore (not_lt.mpr hlate)

end Scan

end SlashWho.HistoryScan
