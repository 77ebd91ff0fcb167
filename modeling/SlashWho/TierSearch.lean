import Mathlib.Algebra.GroupWithZero.Nat
import SlashWho.GallopSearch
import SlashWho.HistoryRecovery

/-!
The search of one tier: each known guild's attendance, galloped to the tier's window and walked
across it, every report there that may list the character read. Attendance is paged newest first,
though pages overlap by hours, and a page past the end is empty. A page answers the same however
often it is asked for in one walk; keeping a finished walk for later runs is left out.
-/

namespace SlashWho.TierSearch

open List EvidenceMerge HistoryScan HistoryRecovery GallopSearch

def attendancePageOverlapMs : ℤ := 2 * 24 * 60 * 60 * 1000

/-- One report as attendance lists it. Where it does not say whether it lists
the character, nothing rules the report out. -/
structure AttendanceReport where
  code : String
  startTime : Option Instant
  listsCharacter : Option Bool

structure AttendancePage where
  reports : List AttendanceReport
  hasMorePages : Bool

/-- The instants a report of the tier may start in. -/
structure SearchWindow where
  earliestStart : ℤ
  latestStart : ℤ

def searchWindow (from_ to_ : Instant) : SearchWindow where
  earliestStart := from_ - attendanceReportLeadMs
  latestStart := to_ + reportCoverSlackMs

def SearchWindow.wanted (window : SearchWindow) (startTime : Option Instant) : Bool :=
  match startTime with
  | none => true
  | some start => window.earliestStart ≤ start && (start : ℤ) ≤ window.latestStart

/-- Every report on the page is dated, and more than the overlap past the window. -/
def SearchWindow.newerThan (window : SearchWindow) (page : AttendancePage) : Bool :=
  !page.reports.isEmpty && page.reports.all (fun report =>
    match report.startTime with
    | none => false
    | some start => window.latestStart + attendancePageOverlapMs < start)

def SearchWindow.olderThan (window : SearchWindow) (page : AttendancePage) : Bool :=
  !page.reports.isEmpty && page.reports.all (fun report =>
    match report.startTime with
    | none => false
    | some start => (start : ℤ) < window.earliestStart - attendancePageOverlapMs)

inductive SearchOutcome
  | complete
  | requestCap
  | incomplete
  deriving DecidableEq

/-- What the search has found, but for the requests it cost. -/
structure Findings where
  outcome : SearchOutcome
  guildsSearched : ℕ
  reportsHydrated : ℕ
  recoveredKills : ℕ
  recoveredWipes : ℕ
  kills : OrderedMap String MythicKill
  wipes : OrderedMap String MythicWipe
  scannedReportCodes : List String

structure SearchState where
  findings : Findings
  requests : ℕ

/-- What upstream answers: the character's guilds, a guild's attendance, the
pages of it a walk kept before, and a report read under each name. -/
structure TierUpstream where
  characterGuilds : Option (List Guild)
  attendance : Guild → ℕ → Option AttendancePage
  replay : Guild → List ℕ
  report : String → Option (List DecodedPage)

/-! One report. -/

def newUrls {ν : Type*} (held : OrderedMap String ν) (urls : List String) : ℕ :=
  (urls.dedup.filter (fun url => !held.has url)).length

def addReading (f : Findings) : DecodedPage → Findings
  | .limitation _ => { f with outcome := .incomplete }
  | .evidence kills wipes _ limited =>
    { f with
      kills := f.kills.setAll (kills.map (fun kill => (kill.fightUrl, kill)))
      wipes := f.wipes.setAll (wipes.map (fun wipe => (wipe.fightUrl, wipe)))
      recoveredKills := f.recoveredKills + newUrls f.kills (kills.map MythicKill.fightUrl)
      recoveredWipes := f.recoveredWipes + newUrls f.wipes (wipes.map MythicWipe.fightUrl)
      outcome := if limited.isSome then .incomplete else f.outcome }

/-- A report that credits the current name is not read under a former one. -/
def readAsEachName : List DecodedPage → Findings → Findings
  | [], f => f
  | current :: former, f =>
    if current.kills ≠ [] ∨ current.wipes ≠ [] then addReading f current
    else former.foldl addReading (addReading f current)

def hydrateReport (report : String → Option (List DecodedPage)) (code : String) (f : Findings) :
    Findings :=
  let marked := { f with scannedReportCodes := f.scannedReportCodes ++ [code] }
  match report code with
  | none => { marked with outcome := .incomplete }
  | some readings =>
    readAsEachName readings { marked with reportsHydrated := marked.reportsHydrated + 1 }

section Search
variable (requestCap : ℕ) (window : SearchWindow) (skip : List String)

/-- The report is neither held nor ruled out. -/
def wantsReport (f : Findings) (report : AttendanceReport) : Bool :=
  !(skip.contains report.code || f.scannedReportCodes.contains report.code) &&
    report.listsCharacter != some false && window.wanted report.startTime

/-! One guild. -/

/-- The walk of one guild, with the pages it has decoded. -/
structure GuildWalk where
  search : SearchState
  pages : List ℕ

inductive StopReason
  | budget
  | unreadable
  deriving DecidableEq

inductive PageAnswer
  | refused (w : GuildWalk)
  | answer (page : Option AttendancePage) (w : GuildWalk)

def GuildWalk.limit (w : GuildWalk) (outcome : SearchOutcome) : GuildWalk :=
  { w with search := { w.search with findings := { w.search.findings with outcome := outcome } } }

/-- A page decoded or kept before costs nothing; any other is a request. -/
def readPage (attendance : ℕ → Option AttendancePage) (replay : List ℕ) (number : ℕ)
    (w : GuildWalk) : PageAnswer :=
  if number ∈ w.pages then .answer (attendance number) w
  else if number ∈ replay then
    .answer (attendance number) { w with pages := w.pages ++ [number] }
  else if w.search.requests ≥ requestCap then .refused (w.limit .requestCap)
  else .answer (attendance number)
    { search := { w.search with requests := w.search.requests + 1 }
      pages := w.pages ++ [number] }

def probePage (attendance : ℕ → Option AttendancePage) (replay : List ℕ) (number : ℕ)
    (w : GuildWalk) : Probe GuildWalk StopReason :=
  match readPage requestCap attendance replay number w with
  | .refused w => .stop .budget w
  | .answer none w => .stop .unreadable (w.limit .incomplete)
  | .answer (some page) w => .answer (window.newerThan page) page.hasMorePages w

/-- The reports of one page; false where the budget ran out. -/
def visitReports (report : String → Option (List DecodedPage)) :
    List AttendanceReport → GuildWalk → GuildWalk × Bool
  | [], w => (w, true)
  | listed :: rest, w =>
    if wantsReport window skip w.search.findings listed then
      if w.search.requests ≥ requestCap then (w.limit .requestCap, false)
      else visitReports report rest
        { w with search :=
            { findings := hydrateReport report listed.code w.search.findings
              requests := w.search.requests + 1 } }
    else visitReports report rest w

/-- The pages of the window, from its first; none out of fuel. -/
def walkWindow (attendance : ℕ → Option AttendancePage) (replay : List ℕ)
    (report : String → Option (List DecodedPage)) :
    ℕ → ℕ → GuildWalk → Option (Option StopReason × GuildWalk)
  | 0, _, _ => none
  | fuel + 1, number, w =>
    match readPage requestCap attendance replay number w with
    | .refused w => some (some .budget, w)
    | .answer none w => some (some .unreadable, w.limit .incomplete)
    | .answer (some page) w =>
      if window.olderThan page then some (none, w)
      else
        match visitReports requestCap window skip report page.reports w with
        | (w, false) => some (some .budget, w)
        | (w, true) =>
          if page.hasMorePages then
            walkWindow attendance replay report fuel (number + 1) w
          else some (none, w)

def searchGuild (fuel : ℕ) (upstream : TierUpstream) (guild : Guild) (s : SearchState) :
    Option (Option StopReason × SearchState) :=
  let started : GuildWalk :=
    { search := { s with findings :=
        { s.findings with guildsSearched := s.findings.guildsSearched + 1 } }
      pages := [] }
  match gallop (probePage requestCap window (upstream.attendance guild) (upstream.replay guild))
      fuel fuel 0 1 started with
  | none => none
  | some (.stopped reason w) => some (some reason, w.search)
  | some (.ended w) => some (none, w.search)
  | some (.found first w) =>
    (walkWindow requestCap window skip (upstream.attendance guild) (upstream.replay guild)
      upstream.report fuel first w).map (fun walked => (walked.1, walked.2.search))

/-- The guilds in turn, until the budget runs out. -/
def searchGuilds (fuel : ℕ) (upstream : TierUpstream) :
    List Guild → SearchState → Option SearchState
  | [], s => some s
  | guild :: rest, s =>
    match searchGuild requestCap window skip fuel upstream guild s with
    | none => none
    | some (some .budget, s) => some s
    | some (_, s) => searchGuilds fuel upstream rest s

end Search

/-! The tier. -/

structure TierSearchOptions where
  from_ : Instant
  to_ : Instant
  guilds : List Guild
  skipReportCodes : List String

/-- The guilds to walk, each once: the known ones, then those upstream lists. -/
def guildsToWalk (lower nfc : String → String) (guilds : List Guild) : List Guild :=
  (guilds.foldl (fun (kept : OrderedMap (String × String × String) Guild) guild =>
    let key := (guild.region, lower guild.realm, lower (nfc guild.name))
    if kept.has key then kept else kept.set key guild) .empty).values

def startFindings (kills : OrderedMap String MythicKill) (wipes : OrderedMap String MythicWipe)
    (scannedReportCodes : List String) : Findings where
  outcome := .complete
  guildsSearched := 0
  reportsHydrated := 0
  recoveredKills := 0
  recoveredWipes := 0
  kills := kills
  wipes := wipes
  scannedReportCodes := scannedReportCodes

/-- The findings once upstream has been asked for the character's guilds. -/
def listedFindings (upstream : TierUpstream) (f : Findings) : Findings :=
  match upstream.characterGuilds with
  | some _ => f
  | none => { f with outcome := .incomplete }

def searchTierAttendance (lower nfc : String → String) (fuel requestCap : ℕ)
    (search : TierSearchOptions) (upstream : TierUpstream) (f : Findings) : Option SearchState :=
  if requestCap = 0 then some ⟨{ f with outcome := .requestCap }, 0⟩
  else if search.to_ < search.from_ then some ⟨f, 0⟩
  else
    searchGuilds requestCap (searchWindow search.from_ search.to_) search.skipReportCodes fuel
      upstream (guildsToWalk lower nfc (search.guilds ++ upstream.characterGuilds.getD []))
      ⟨listedFindings upstream f, 1⟩

/-! A walk over every page. -/

section EveryPage
variable (window : SearchWindow) (skip : List String)
variable (report : String → Option (List DecodedPage))

def visit (f : Findings) (listed : AttendanceReport) : Findings :=
  if wantsReport window skip f listed then hydrateReport report listed.code f else f

/-- An attendance listing: dated, newest first up to the overlap, each page
before the last followed by more, and nothing past it. -/
structure AttendanceListing where
  page : ℕ → AttendancePage
  last : ℕ
  dated : ∀ number, 1 ≤ number → ∀ listed ∈ (page number).reports, listed.startTime ≠ none
  newestFirst : ∀ i j, 1 ≤ i → i < j → ∀ newer ∈ (page i).reports, ∀ older ∈ (page j).reports,
    ∀ s t, newer.startTime = some s → older.startTime = some t →
      (t : ℤ) ≤ s + attendancePageOverlapMs
  more : ∀ number, 1 ≤ number → number < last → (page number).hasMorePages = true
  past : ∀ number, last < number →
    (page number).reports = [] ∧ (page number).hasMorePages = false

/-- Every report listed from one page to the last. -/
def AttendanceListing.reportsFrom (listing : AttendanceListing) (number : ℕ) :
    List AttendanceReport :=
  (List.range' number (listing.last + 1 - number)).flatMap (fun i => (listing.page i).reports)

/-- One guild walked over every page, asking nothing but the window. -/
def walkEveryPage (listings : Guild → AttendanceListing) (f : Findings) (guild : Guild) :
    Findings :=
  ((listings guild).reportsFrom 1).foldl (visit window skip report)
    { f with guildsSearched := f.guildsSearched + 1 }

/-! Pages that hold nothing of the window. -/

variable {window skip report}

variable {listed : AttendanceReport}

theorem visit_unwanted {f : Findings} (h : window.wanted listed.startTime = false) :
    visit window skip report f listed = f := by
  unfold visit wantsReport
  rw [h, Bool.and_false]
  exact if_neg Bool.false_ne_true

theorem foldl_visit_unwanted {reports : List AttendanceReport}
    (h : ∀ listed ∈ reports, window.wanted listed.startTime = false) (f : Findings) :
    reports.foldl (visit window skip report) f = f := by
  induction reports with
  | nil => rfl
  | cons listed rest ih =>
    rw [foldl_cons, visit_unwanted (h listed mem_cons_self)]
    exact ih fun other hother => h other (mem_cons_of_mem _ hother)

variable {number : ℕ}

theorem exists_start (listing : AttendanceListing) (hnumber : 1 ≤ number)
    (h : listed ∈ (listing.page number).reports) :
    ∃ start, listed.startTime = some start :=
  Option.ne_none_iff_exists'.mp (listing.dated number hnumber listed h)

theorem newerThan_iff {page : AttendancePage} (h : window.newerThan page = true) :
    (∃ listed, listed ∈ page.reports) ∧ ∀ listed ∈ page.reports, ∀ start,
      listed.startTime = some start → window.latestStart + attendancePageOverlapMs < start := by
  unfold SearchWindow.newerThan at h
  obtain ⟨hsome, hall⟩ := Bool.and_eq_true_iff.mp h
  refine ⟨exists_mem_of_ne_nil _ (by simpa using hsome), fun listed hlisted start hstart => ?_⟩
  have hnewer := all_eq_true.mp hall listed hlisted
  rw [hstart] at hnewer
  exact of_decide_eq_true hnewer

theorem olderThan_iff {page : AttendancePage} (h : window.olderThan page = true) :
    (∃ listed, listed ∈ page.reports) ∧ ∀ listed ∈ page.reports, ∀ start,
      listed.startTime = some start →
        (start : ℤ) < window.earliestStart - attendancePageOverlapMs := by
  unfold SearchWindow.olderThan at h
  obtain ⟨hsome, hall⟩ := Bool.and_eq_true_iff.mp h
  refine ⟨exists_mem_of_ne_nil _ (by simpa using hsome), fun listed hlisted start hstart => ?_⟩
  have holder := all_eq_true.mp hall listed hlisted
  rw [hstart] at holder
  exact of_decide_eq_true holder

theorem unwanted_of_late {start : Instant} (h : window.latestStart < start) :
    window.wanted (some start) = false := by
  unfold SearchWindow.wanted
  rw [Bool.and_eq_false_iff]
  exact .inr (decide_eq_false (not_le.mpr h))

theorem unwanted_of_early {start : Instant} (h : (start : ℤ) < window.earliestStart) :
    window.wanted (some start) = false := by
  unfold SearchWindow.wanted
  rw [Bool.and_eq_false_iff]
  exact .inl (decide_eq_false (not_le.mpr h))

theorem overlap_pos : 0 < attendancePageOverlapMs := by
  unfold attendancePageOverlapMs
  omega

theorem unwanted_before (listing : AttendanceListing) {place : ℕ} (hnumber : 1 ≤ number)
    (hplace : number ≤ place) (h : window.newerThan (listing.page place) = true)
    (hlisted : listed ∈ (listing.page number).reports) :
    window.wanted listed.startTime = false := by
  obtain ⟨⟨later, hlater⟩, hnewer⟩ := newerThan_iff h
  obtain ⟨start, hstart⟩ := exists_start listing hnumber hlisted
  have hpos := overlap_pos
  rw [hstart]
  apply unwanted_of_late
  rcases Nat.eq_or_lt_of_le hplace with rfl | hbefore
  · have hpast := hnewer listed hlisted start hstart
    omega
  · obtain ⟨late, hlate⟩ := exists_start listing (le_trans hnumber hplace) hlater
    have hpast := hnewer later hlater late hlate
    have hoverlap := listing.newestFirst number place hnumber hbefore listed hlisted later hlater
      start late hstart hlate
    omega

theorem unwanted_after (listing : AttendanceListing) {place : ℕ} (hplace : 1 ≤ place)
    (hnumber : place ≤ number) (h : window.olderThan (listing.page place) = true)
    (hlisted : listed ∈ (listing.page number).reports) :
    window.wanted listed.startTime = false := by
  obtain ⟨⟨earlier, hearlier⟩, holder⟩ := olderThan_iff h
  obtain ⟨start, hstart⟩ := exists_start listing (le_trans hplace hnumber) hlisted
  have hpos := overlap_pos
  rw [hstart]
  apply unwanted_of_early
  rcases Nat.eq_or_lt_of_le hnumber with rfl | hafter
  · have hpast := holder listed hlisted start hstart
    omega
  · obtain ⟨early, hearly⟩ := exists_start listing hplace hearlier
    have hpast := holder earlier hearlier early hearly
    have hoverlap := listing.newestFirst place number hplace hafter earlier hearlier listed
      hlisted early start hearly hstart
    omega

theorem mem_reportsFrom {listing : AttendanceListing} (h : listed ∈ listing.reportsFrom number) :
    ∃ i, number ≤ i ∧ i ≤ listing.last ∧ listed ∈ (listing.page i).reports := by
  obtain ⟨i, hi, hlisted⟩ := mem_flatMap.mp h
  rw [mem_range'_1] at hi
  exact ⟨i, hi.1, by omega, hlisted⟩

theorem reportsFrom_step (listing : AttendanceListing) (h : number ≤ listing.last) :
    listing.reportsFrom number =
      (listing.page number).reports ++ listing.reportsFrom (number + 1) := by
  unfold AttendanceListing.reportsFrom
  rw [show listing.last + 1 - number = (listing.last + 1 - (number + 1)) + 1 by omega,
    range'_succ, flatMap_cons]

theorem reportsFrom_past (listing : AttendanceListing) (h : listing.last < number) :
    listing.reportsFrom number = [] := by
  unfold AttendanceListing.reportsFrom
  rw [show listing.last + 1 - number = 0 by omega]
  rfl

theorem foldl_reportsFrom_skip (listing : AttendanceListing) {first : ℕ} (hfirst : 1 ≤ first)
    (h : first = 1 ∨ window.newerThan (listing.page (first - 1)) = true) (f : Findings) :
    (listing.reportsFrom 1).foldl (visit window skip report) f =
      (listing.reportsFrom first).foldl (visit window skip report) f := by
  have hskip : ∀ number, 1 ≤ number → number ≤ first →
      (listing.reportsFrom number).foldl (visit window skip report) f =
        (listing.reportsFrom first).foldl (visit window skip report) f := by
    intro number hnumber hle
    induction hdistance : first - number generalizing number with
    | zero =>
      obtain rfl : number = first := by omega
      rfl
    | succ distance ih =>
      have hnewer : window.newerThan (listing.page (first - 1)) = true := by
        rcases h with rfl | hnewer
        · omega
        · exact hnewer
      by_cases hlast : number ≤ listing.last
      · rw [reportsFrom_step listing hlast, foldl_append, foldl_visit_unwanted fun listed
          hlisted => unwanted_before listing hnumber (by omega) hnewer hlisted]
        exact ih (number + 1) (by omega) (by omega) (by omega)
      · rw [reportsFrom_past listing (by omega), reportsFrom_past listing (by omega)]
  exact hskip 1 (le_refl 1) hfirst

end EveryPage

/-! The search, with budget to spare. -/

section Budget
variable {requestCap bound : ℕ} (hbound : bound ≤ requestCap)
variable {window : SearchWindow} {skip : List String}
variable {report : String → Option (List DecodedPage)}
variable (listing : AttendanceListing) (replay : List ℕ)

/-- The attendance upstream answers with. -/
def AttendanceListing.answer (listing : AttendanceListing) (number : ℕ) :
    Option AttendancePage :=
  some (listing.page number)

/-- The findings so far, with some requests still to spend. -/
def Spendable (bound : ℕ) (f : Findings) (budget : ℕ) (w : GuildWalk) : Prop :=
  w.search.findings = f ∧ w.search.requests + budget ≤ bound

variable {f : Findings} {budget : ℕ} {w : GuildWalk}

theorem Spendable.weaken {budget' : ℕ} (h : Spendable bound f budget w) (hle : budget' ≤ budget) :
    Spendable bound f budget' w := by
  obtain ⟨hfindings, hspent⟩ := h
  exact ⟨hfindings, by omega⟩

include hbound in
theorem readPage_spendable (number : ℕ) (h : Spendable bound f (budget + 1) w) :
    ∃ w', readPage requestCap listing.answer replay number w =
        .answer (some (listing.page number)) w' ∧ Spendable bound f budget w' := by
  obtain ⟨hfindings, hspent⟩ := h
  unfold readPage
  split
  · exact ⟨w, rfl, hfindings, by omega⟩
  · split
    · exact ⟨_, rfl, hfindings, by dsimp only; omega⟩
    · rw [if_neg (by omega)]
      exact ⟨_, rfl, hfindings, by dsimp only; omega⟩

variable (window) in
include hbound in
theorem answers_probePage (f : Findings) :
    Answers (probePage requestCap window listing.answer replay)
      (fun number => window.newerThan (listing.page number))
      (fun number => (listing.page number).hasMorePages) (Spendable bound f) where
  answers budget number w _ h := by
    obtain ⟨w', hread, hleft⟩ := readPage_spendable hbound listing replay number h
    refine ⟨w', ?_, hleft⟩
    unfold probePage
    rw [hread]
  mono budget w h := h.weaken (Nat.le_succ budget)

variable (window skip report) in
include hbound in
theorem visitReports_spendable (reports : List AttendanceReport)
    (h : Spendable bound f (budget + reports.length) w) :
    ∃ w', visitReports requestCap window skip report reports w = (w', true) ∧
      Spendable bound (reports.foldl (visit window skip report) f) budget w' := by
  induction reports generalizing f w with
  | nil => exact ⟨w, rfl, h⟩
  | cons listed rest ih =>
    obtain ⟨rfl, hspent⟩ := h
    rw [length_cons] at hspent
    unfold visitReports
    rw [foldl_cons]
    unfold visit
    split
    · rw [if_neg (by omega)]
      exact ih ⟨rfl, by dsimp only; omega⟩
    · exact ih ⟨rfl, by omega⟩

variable (skip report) in
include hbound in
theorem walkWindow_spendable (fuel steps : ℕ) {number : ℕ} (hnumber : 1 ≤ number)
    (hsteps : 1 ≤ steps ∧ listing.last + 2 ≤ number + steps) (hfuel : steps ≤ fuel)
    (h : Spendable bound f ((listing.reportsFrom number).length + steps) w) :
    ∃ w', walkWindow requestCap window skip listing.answer replay report fuel number w =
        some (none, w') ∧
      Spendable bound ((listing.reportsFrom number).foldl (visit window skip report) f) 0 w' := by
  induction fuel generalizing steps number f w with
  | zero => omega
  | succ fuel ih =>
    obtain ⟨steps, rfl⟩ : ∃ left, steps = left + 1 := ⟨steps - 1, by omega⟩
    have hspend : Spendable bound f ((listing.reportsFrom number).length + steps + 1) w := h
    obtain ⟨read, hread, hleft⟩ := readPage_spendable hbound listing replay number hspend
    unfold walkWindow
    rw [hread]
    dsimp only
    by_cases holder : window.olderThan (listing.page number) = true
    · rw [if_pos holder]
      refine ⟨read, rfl, ?_⟩
      rw [foldl_visit_unwanted fun listed hlisted => by
        obtain ⟨i, hi, -, hin⟩ := mem_reportsFrom hlisted
        exact unwanted_after listing hnumber hi holder hin]
      exact hleft.weaken (Nat.zero_le _)
    · rw [if_neg holder]
      by_cases hlast : number ≤ listing.last
      · rw [reportsFrom_step listing hlast, length_append] at hleft
        rw [reportsFrom_step listing hlast, foldl_append]
        obtain ⟨visited, hvisit, hrest⟩ := visitReports_spendable hbound window skip report
          (listing.page number).reports
          (hleft.weaken (by omega) : Spendable bound f
            ((listing.reportsFrom (number + 1)).length + steps +
              (listing.page number).reports.length) read)
        rw [hvisit]
        dsimp only
        split
        · exact ih steps (by omega) (by omega) (by omega) hrest
        · next hend =>
          have hfinal : listing.reportsFrom (number + 1) = [] := by
            apply reportsFrom_past
            by_contra hmore
            exact hend (listing.more number hnumber (by omega))
          rw [hfinal] at hrest ⊢
          exact ⟨visited, rfl, hrest.weaken (Nat.zero_le _)⟩
      · obtain ⟨hempty, hend⟩ := listing.past number (by omega)
        rw [hempty, reportsFrom_past listing (by omega)]
        unfold visitReports
        dsimp only
        rw [if_neg (by rw [hend]; decide)]
        exact ⟨read, rfl, hleft.weaken (Nat.zero_le _)⟩

/-- Requests enough for one guild: galloping, bisecting, walking, and a report each. -/
def AttendanceListing.cost (listing : AttendanceListing) : ℕ :=
  (listing.reportsFrom 1).length + (listing.last + 2) + (2 * listing.last + 1) +
    (listing.last + 1)

theorem length_reportsFrom_le (listing : AttendanceListing) {number : ℕ} (hnumber : 1 ≤ number) :
    (listing.reportsFrom number).length ≤ (listing.reportsFrom 1).length := by
  induction number, hnumber using Nat.le_induction with
  | base => exact le_refl _
  | succ number hnumber ih =>
    by_cases hlast : number ≤ listing.last
    · rw [reportsFrom_step listing hlast, length_append] at ih
      omega
    · rw [reportsFrom_past listing (by omega)]
      exact Nat.zero_le _

def TierUpstream.withListings (upstream : TierUpstream) (listings : Guild → AttendanceListing) :
    TierUpstream :=
  { upstream with attendance := fun guild => (listings guild).answer }

variable (window skip) in
include hbound in
theorem searchGuild_spendable (upstream : TierUpstream) (listings : Guild → AttendanceListing)
    (guild : Guild) {fuel : ℕ} (hfuel : (listings guild).cost ≤ fuel) {s : SearchState}
    (hspent : s.requests + (listings guild).cost ≤ bound) :
    ∃ s', searchGuild requestCap window skip fuel (upstream.withListings listings) guild s =
        some (none, s') ∧
      s'.findings = walkEveryPage window skip upstream.report listings s.findings guild ∧
      s'.requests ≤ bound := by
  generalize hlisting : listings guild = listing at hfuel hspent
  unfold AttendanceListing.cost at hfuel hspent
  let started : GuildWalk :=
    { search := { s with findings :=
        { s.findings with guildsSearched := s.findings.guildsSearched + 1 } }
      pages := [] }
  have hanswers := answers_probePage hbound window listing (upstream.replay guild)
    started.search.findings
  have hnewer : ∀ place, listing.last < place →
      window.newerThan (listing.page place) = false := by
    intro place hplace
    unfold SearchWindow.newerThan
    rw [(listing.past place hplace).1]
    rfl
  have hstart : Spendable bound started.search.findings ((listing.reportsFrom 1).length +
      (listing.last + 2) + (2 * listing.last + 1) + (listing.last + 1)) started := ⟨rfl, hspent⟩
  obtain ⟨place, hplace, hlocated⟩ := gallop_located hanswers hnewer
    ((listing.reportsFrom 1).length + (listing.last + 2)) fuel fuel (listing.last + 1)
    Nat.zero_lt_one (.inl rfl) (by omega) (by omega) (by omega) (by omega) hstart
  have hwalk : walkEveryPage window skip upstream.report listings s.findings guild =
      (listing.reportsFrom 1).foldl (visit window skip upstream.report)
        started.search.findings := by
    unfold walkEveryPage
    rw [hlisting]
  rw [hwalk]
  unfold searchGuild TierUpstream.withListings
  dsimp only
  rw [hlisting, hplace]
  cases hlocated with
  | ended place w hpos hbeyond hmore hleft =>
    refine ⟨w.search, rfl, ?_, le_trans (Nat.le_add_right _ _) hleft.2⟩
    have hlast : listing.last ≤ place := by
      by_contra hbefore
      rw [listing.more place hpos (not_le.mp hbefore)] at hmore
      cases hmore
    rw [hleft.1, foldl_visit_unwanted fun listed hlisted => by
      obtain ⟨i, hi, hilast, hin⟩ := mem_reportsFrom hlisted
      exact unwanted_before listing hi (le_trans hilast hlast) hbeyond hin]
  | found first w hpos hbefore hleft =>
    have hlength := length_reportsFrom_le listing hpos
    obtain ⟨w', hrun, hdone⟩ := walkWindow_spendable hbound skip upstream.report listing
      (upstream.replay guild) fuel (listing.last + 2) hpos (by omega) (by omega)
      (hleft.weaken (by omega))
    dsimp only
    rw [hrun]
    refine ⟨w'.search, rfl, ?_, hdone.2⟩
    rw [hdone.1, foldl_reportsFrom_skip listing hpos hbefore]

end Budget

/-! The whole tier. -/

theorem searchGuilds_spendable {requestCap fuel : ℕ} (window : SearchWindow)
    (skip : List String) (upstream : TierUpstream) (listings : Guild → AttendanceListing)
    (guilds : List Guild) {s : SearchState}
    (hfuel : (guilds.map (fun guild => (listings guild).cost)).sum ≤ fuel)
    (hspent : s.requests + (guilds.map (fun guild => (listings guild).cost)).sum ≤ requestCap) :
    ∃ s', searchGuilds requestCap window skip fuel (upstream.withListings listings) guilds s =
        some s' ∧
      s'.findings =
        guilds.foldl (walkEveryPage window skip upstream.report listings) s.findings := by
  induction guilds generalizing s with
  | nil => exact ⟨s, rfl, rfl⟩
  | cons guild rest ih =>
    rw [map_cons, sum_cons] at hfuel hspent
    have hbound : s.requests + (listings guild).cost ≤ requestCap := by omega
    have henough : (listings guild).cost ≤ fuel := by omega
    obtain ⟨s', hguild, hfindings, hrequests⟩ := searchGuild_spendable hbound window skip upstream
      listings guild henough (le_refl _)
    obtain ⟨s'', hrest, hfindings'⟩ := ih (s := s') (by omega) (by omega)
    unfold searchGuilds
    rw [hguild]
    refine ⟨s'', hrest, ?_⟩
    rw [hfindings', hfindings]
    rfl

/-! What a walk leaves behind. -/

section Visits
variable (window : SearchWindow) (skip : List String)
variable (report : String → Option (List DecodedPage))

theorem addReading_kept (f : Findings) (decoded : DecodedPage) :
    (addReading f decoded).scannedReportCodes = f.scannedReportCodes ∧
      (f.outcome ≠ .requestCap → (addReading f decoded).outcome ≠ .requestCap) := by
  cases decoded with
  | limitation code => exact ⟨rfl, fun _ => by simp [addReading]⟩
  | evidence kills wipes omitted limited =>
    refine ⟨rfl, fun h => ?_⟩
    unfold addReading
    dsimp only
    split
    · simp
    · exact h

variable (readings : List DecodedPage)

theorem foldl_addReading_kept (f : Findings) :
    (readings.foldl addReading f).scannedReportCodes = f.scannedReportCodes ∧
      (f.outcome ≠ .requestCap → (readings.foldl addReading f).outcome ≠ .requestCap) := by
  induction readings generalizing f with
  | nil => exact ⟨rfl, id⟩
  | cons decoded rest ih =>
    obtain ⟨hcodes, houtcome⟩ := ih (addReading f decoded)
    obtain ⟨hcodes', houtcome'⟩ := addReading_kept f decoded
    exact ⟨hcodes.trans hcodes', fun h => houtcome (houtcome' h)⟩

theorem readAsEachName_kept (f : Findings) :
    (readAsEachName readings f).scannedReportCodes = f.scannedReportCodes ∧
      (f.outcome ≠ .requestCap → (readAsEachName readings f).outcome ≠ .requestCap) := by
  cases readings with
  | nil => exact ⟨rfl, id⟩
  | cons current former =>
    rw [readAsEachName]
    by_cases hcredits : current.kills ≠ [] ∨ current.wipes ≠ []
    · rw [if_pos hcredits]
      exact addReading_kept f current
    · rw [if_neg hcredits]
      exact foldl_addReading_kept (current :: former) f

theorem hydrateReport_kept (code : String) (f : Findings) :
    (hydrateReport report code f).scannedReportCodes = f.scannedReportCodes ++ [code] ∧
      (f.outcome ≠ .requestCap → (hydrateReport report code f).outcome ≠ .requestCap) := by
  unfold hydrateReport
  cases report code with
  | none => exact ⟨rfl, fun _ => by simp⟩
  | some readings =>
    obtain ⟨hcodes, houtcome⟩ := readAsEachName_kept readings
      { f with
        scannedReportCodes := f.scannedReportCodes ++ [code]
        reportsHydrated := f.reportsHydrated + 1 }
    exact ⟨hcodes, houtcome⟩

/-- The report is held, read, or not one the search is for. -/
def Settled (f : Findings) (listed : AttendanceReport) : Prop :=
  window.wanted listed.startTime = true → listed.listsCharacter ≠ some false →
    listed.code ∈ skip ∨ listed.code ∈ f.scannedReportCodes

variable {window skip report}

variable (window skip report) in
theorem visit_kept (f : Findings) (listed : AttendanceReport) :
    (∃ codes, (visit window skip report f listed).scannedReportCodes =
        f.scannedReportCodes ++ codes) ∧
      (f.outcome ≠ .requestCap → (visit window skip report f listed).outcome ≠ .requestCap) ∧
      Settled window skip (visit window skip report f listed) listed := by
  unfold visit
  by_cases hwants : wantsReport window skip f listed = true
  · rw [if_pos hwants]
    obtain ⟨hcodes, houtcome⟩ := hydrateReport_kept report listed.code f
    refine ⟨⟨_, hcodes⟩, houtcome, fun _ _ => .inr ?_⟩
    rw [hcodes]
    exact mem_append_right _ (mem_singleton.mpr rfl)
  · rw [if_neg hwants]
    refine ⟨⟨[], (append_nil _).symm⟩, id, fun hwanted hlists => ?_⟩
    by_contra hneither
    obtain ⟨hskip, hscanned⟩ := not_or.mp hneither
    apply hwants
    unfold wantsReport
    simp [hskip, hscanned, hwanted, hlists]

theorem Settled.mono {f f' : Findings} {listed : AttendanceReport} {codes : List String}
    (h : Settled window skip f listed)
    (hcodes : f'.scannedReportCodes = f.scannedReportCodes ++ codes) :
    Settled window skip f' listed := by
  intro hwanted hlists
  refine (h hwanted hlists).imp_right fun hscanned => ?_
  rw [hcodes]
  exact mem_append_left _ hscanned

variable (window skip report) in
theorem foldl_visit_kept (reports : List AttendanceReport) (f : Findings) :
    (∃ codes, (reports.foldl (visit window skip report) f).scannedReportCodes =
        f.scannedReportCodes ++ codes) ∧
      (f.outcome ≠ .requestCap →
        (reports.foldl (visit window skip report) f).outcome ≠ .requestCap) ∧
      ∀ listed ∈ reports, Settled window skip (reports.foldl (visit window skip report) f)
        listed := by
  induction reports generalizing f with
  | nil => exact ⟨⟨[], (append_nil _).symm⟩, id, fun listed h => absurd h not_mem_nil⟩
  | cons first rest ih =>
    obtain ⟨⟨codes, hcodes⟩, houtcome, hsettled⟩ := ih (visit window skip report f first)
    obtain ⟨⟨codes', hcodes'⟩, houtcome', hfirst⟩ :=
      visit_kept window skip report f first
    rw [foldl_cons]
    refine ⟨⟨codes' ++ codes, ?_⟩, fun h => houtcome (houtcome' h), fun listed hlisted => ?_⟩
    · rw [hcodes, hcodes', append_assoc]
    · rcases mem_cons.mp hlisted with rfl | hin
      · exact hfirst.mono hcodes
      · exact hsettled listed hin

variable (window skip report) in
theorem foldl_walkEveryPage_kept (listings : Guild → AttendanceListing) (guilds : List Guild)
    (f : Findings) :
    (∃ codes, (guilds.foldl (walkEveryPage window skip report listings) f).scannedReportCodes =
        f.scannedReportCodes ++ codes) ∧
      (f.outcome ≠ .requestCap →
        (guilds.foldl (walkEveryPage window skip report listings) f).outcome ≠ .requestCap) ∧
      ∀ guild ∈ guilds, ∀ number, 1 ≤ number →
        ∀ listed ∈ ((listings guild).page number).reports,
          Settled window skip (guilds.foldl (walkEveryPage window skip report listings) f)
            listed := by
  induction guilds generalizing f with
  | nil => exact ⟨⟨[], (append_nil _).symm⟩, id, fun guild h => absurd h not_mem_nil⟩
  | cons first rest ih =>
    obtain ⟨⟨codes, hcodes⟩, houtcome, hsettled⟩ :=
      ih (walkEveryPage window skip report listings f first)
    obtain ⟨⟨codes', hcodes'⟩, houtcome', hfirst⟩ := foldl_visit_kept window skip report
      ((listings first).reportsFrom 1)
      { f with guildsSearched := f.guildsSearched + 1 }
    rw [foldl_cons]
    refine ⟨⟨codes' ++ codes, ?_⟩, fun h => houtcome (houtcome' h), ?_⟩
    · rw [hcodes, ← append_assoc]
      exact congrArg (· ++ codes) hcodes'
    · intro guild hguild number hnumber listed hlisted
      rcases mem_cons.mp hguild with rfl | hin
      · refine (hfirst listed ?_).mono hcodes
        have hlast : number ≤ (listings guild).last := by
          by_contra hpast
          rw [((listings guild).past number (not_le.mp hpast)).1] at hlisted
          cases hlisted
        refine mem_flatMap.mpr ⟨number, ?_, hlisted⟩
        rw [mem_range'_1]
        omega
      · exact hsettled guild hin number hnumber listed hlisted

end Visits

/-- With requests enough the search ends, has found exactly what walking every
page of every guild finds, and has held or read every report of the window
that may list the character. -/
theorem searchTierAttendance_walksEveryPage (lower nfc : String → String)
    (search : TierSearchOptions) (hwindow : search.from_ ≤ search.to_) (upstream : TierUpstream)
    (listings : Guild → AttendanceListing) (kills : OrderedMap String MythicKill)
    (wipes : OrderedMap String MythicWipe) (scannedReportCodes : List String) :
    let window := searchWindow search.from_ search.to_
    let guilds := guildsToWalk lower nfc (search.guilds ++ upstream.characterGuilds.getD [])
    let f := startFindings kills wipes scannedReportCodes
    ∃ enough, ∀ requestCap fuel, enough ≤ requestCap → enough ≤ fuel →
      ∃ s, searchTierAttendance lower nfc fuel requestCap search
          (upstream.withListings listings) f = some s ∧
        s.findings = guilds.foldl
          (walkEveryPage window search.skipReportCodes upstream.report listings)
          (listedFindings upstream f) ∧
        s.findings.outcome ≠ .requestCap ∧
        ∀ guild ∈ guilds, ∀ number, 1 ≤ number →
          ∀ listed ∈ ((listings guild).page number).reports,
            window.wanted listed.startTime = true → listed.listsCharacter ≠ some false →
              listed.code ∈ search.skipReportCodes ∨
                listed.code ∈ s.findings.scannedReportCodes := by
  intro window guilds f
  refine ⟨1 + (guilds.map (fun guild => (listings guild).cost)).sum, ?_⟩
  intro requestCap fuel hcap hfuel
  have henough : (guilds.map (fun guild => (listings guild).cost)).sum ≤ fuel := by omega
  obtain ⟨s, hsearch, hfindings⟩ := searchGuilds_spendable window search.skipReportCodes upstream
    listings guilds (s := ⟨listedFindings upstream f, 1⟩) henough hcap
  obtain ⟨-, houtcome, hsettled⟩ := foldl_walkEveryPage_kept window
    search.skipReportCodes upstream.report listings guilds (listedFindings upstream f)
  refine ⟨s, ?_, hfindings, ?_, ?_⟩
  · unfold searchTierAttendance
    rw [if_neg (by omega), if_neg (not_lt.mpr hwindow)]
    exact hsearch
  · rw [hfindings]
    apply houtcome
    unfold listedFindings
    split
    · simp [f, startFindings]
    · simp
  · intro guild hguild number hnumber listed hlisted
    rw [hfindings]
    exact hsettled guild hguild number hnumber listed hlisted

/-! A guild with one page newer than the window and one in it. -/

def nightPage (number : ℕ) : AttendancePage :=
  match number with
  | 1 => ⟨[⟨"later", some 1000000000, none⟩], true⟩
  | 2 => ⟨[⟨"night", some 5, none⟩], false⟩
  | _ => ⟨[], false⟩

theorem nightPage_empty {number : ℕ} (h : 2 < number) : nightPage number = ⟨[], false⟩ := by
  obtain ⟨past, rfl⟩ : ∃ past, number = past + 3 := ⟨number - 3, by omega⟩
  rfl

def nightListing : AttendanceListing where
  page := nightPage
  last := 2
  dated number hnumber listed hlisted := by
    obtain rfl | rfl | hpast : number = 1 ∨ number = 2 ∨ 2 < number := by omega
    · obtain rfl := mem_singleton.mp hlisted
      simp
    · obtain rfl := mem_singleton.mp hlisted
      simp
    · rw [nightPage_empty hpast] at hlisted
      cases hlisted
  newestFirst i j hi hij newer hnewer older holder s t hs ht := by
    obtain ⟨rfl, rfl⟩ | hpast : i = 1 ∧ j = 2 ∨ 2 < j := by omega
    · obtain rfl := mem_singleton.mp hnewer
      obtain rfl := mem_singleton.mp holder
      obtain rfl := Option.some.inj hs
      obtain rfl := Option.some.inj ht
      decide
    · rw [nightPage_empty hpast] at holder
      cases holder
  more number hnumber hlast := by
    obtain rfl : number = 1 := by omega
    rfl
  past number hpast := by
    rw [nightPage_empty hpast]
    exact ⟨rfl, rfl⟩

def nightUpstream : TierUpstream where
  characterGuilds := some []
  attendance _ _ := none
  replay _ := []
  report _ := some []

def nightSearch : TierSearchOptions where
  from_ := 0
  to_ := 10
  guilds := [⟨"Guild", "realm", "eu"⟩]
  skipReportCodes := []

theorem searchTierAttendance_walksEveryPage_night :
    nightSearch.from_ ≤ nightSearch.to_ ∧ ∃ requestCap fuel s,
      searchTierAttendance id id fuel requestCap nightSearch
          (nightUpstream.withListings fun _ => nightListing) (startFindings .empty .empty []) =
        some s ∧ "night" ∈ s.findings.scannedReportCodes := by
  refine ⟨by decide, ?_⟩
  obtain ⟨enough, henough⟩ := searchTierAttendance_walksEveryPage id id nightSearch (by decide)
    nightUpstream (fun _ => nightListing) .empty .empty []
  obtain ⟨s, hsearch, -, -, hsettled⟩ := henough enough enough (le_refl _) (le_refl _)
  refine ⟨enough, enough, s, hsearch, ?_⟩
  have hnight := hsettled ⟨"Guild", "realm", "eu"⟩ (by decide) 2 (by decide)
    ⟨"night", some 5, none⟩ (mem_singleton.mpr rfl) (by decide) (by decide)
  exact hnight.resolve_left not_mem_nil

end SlashWho.TierSearch
