import Mathlib.Data.List.Sort
import SlashWho.HistoryScan

/-!
What a run reads after its history scan, out of the same budget: the stored
reports the scan did not reach, and the guild report listings of the nights of
verified kills no decoded report accounts for. Every request of the budget is
kept in the order it was made. What upstream answers is a parameter; each
report and each listing page is asked for once a run, so one answer each is
enough.
-/

namespace SlashWho.HistoryRecovery

open EvidenceMerge HistoryScan

def attendanceReportLeadMs : ℤ := 16 * 60 * 60 * 1000

def reportCoverSlackMs : ℤ := 2 * 60 * 60 * 1000

structure ReportSpan where
  start : ℤ
  finish : ℤ

structure Guild where
  name : String
  realm : String
  region : String
  deriving DecidableEq

/-- A kill another provider attributes to the character; an instant that does
not parse is none. -/
structure VerifiedKill where
  at_ : Option Instant
  guild : Guild

abbrev NightWindow := ℤ × ℤ

/-- One request drawn on the history budget. A page and its actor follow-up
are one. -/
inductive HistoryRequest
  | page (number : ℕ) (read : PageRead)
  | report (code : String)
  | guildReports (guild : Guild) (night : NightWindow) (page : ℕ)

structure GuildReportsPage where
  codes : List String
  hasMorePages : Bool

/-- A listing read: refused, or a page, none where it cannot be decoded. -/
inductive ListingRead
  | limitation (code : LimitationCode)
  | success (page : Option GuildReportsPage)

/-- What upstream answers: the boundary probe, the history pages and what they
span, one report by its code, and a guild's reports of one night. -/
structure Upstream where
  probe : PageRead
  page : ℕ → PageRead
  spans : HistoryPage → List ReportSpan
  report : String → DecodedPage
  guildReports : Guild → NightWindow → ℕ → ListingRead

/-- The verified kills no cleanly decoded history page accounts for. -/
def uncoveredVerifiedKills (verifiedKills : List VerifiedKill) (spans : List ReportSpan) :
    List (VerifiedKill × Instant) :=
  verifiedKills.filterMap (fun verified =>
    verified.at_.bind (fun at_ =>
      if spans.any (fun span => span.start - reportCoverSlackMs ≤ at_ ∧
          (at_ : ℤ) ≤ span.finish + reportCoverSlackMs) then none
      else some (verified, at_)))

def recoveryTargets (uncovered : List (VerifiedKill × Instant)) :
    OrderedMap Guild (List (VerifiedKill × Instant)) :=
  uncovered.foldl (fun targets wanted =>
    targets.set wanted.1.guild ((targets.get? wanted.1.guild).getD [] ++ [wanted])) .empty

/-- Overlapping nights are one window, so no report is listed twice. -/
def mergeWindows : List NightWindow → List NightWindow
  | [] => []
  | window :: rest =>
    rest.foldl (fun merged next =>
      match merged.getLast? with
      | none => [next]
      | some last =>
        if next.1 ≤ last.2 then merged.dropLast ++ [(last.1, max last.2 next.2)]
        else merged ++ [next]) [window]

def nightWindows (targets : List (VerifiedKill × Instant)) : List NightWindow :=
  mergeWindows ((targets.map (fun target =>
    ((target.2 : ℤ) - attendanceReportLeadMs, (target.2 : ℤ) + reportCoverSlackMs))).insertionSort
      (fun a b => a.1 ≤ b.1))

/-- The scan as later reads leave it, and every request made so far. -/
structure Budgeted where
  scan : ScanState
  requests : List HistoryRequest

namespace Budgeted

def spend (b : Budgeted) (request : HistoryRequest) : Budgeted where
  scan := { b.scan with historyRequests := b.scan.historyRequests + 1 }
  requests := b.requests ++ [request]

/-- One report read by its code and marked as read. -/
def hydrate (b : Budgeted) (code : String) : Budgeted :=
  let b := b.spend (.report code)
  { b with scan := { b.scan with scannedReportCodes := b.scan.scannedReportCodes ++ [code] } }

def addEvidence (b : Budgeted) (decoded : DecodedPage) : Budgeted :=
  { b with scan :=
      { b.scan with
        kills := b.scan.kills.setAll (decoded.kills.map (fun kill => (kill.fightUrl, kill)))
        wipes := b.scan.wipes.setAll (decoded.wipes.map (fun wipe => (wipe.fightUrl, wipe))) } }

/-- The first limitation met stands. -/
def limit (b : Budgeted) (code : LimitationCode) : Budgeted :=
  { b with scan := { b.scan with limitation := b.scan.limitation.or (some code) } }

end Budgeted

/-- A report that is gone is a kill the run stopped finding. -/
def isGone (code : LimitationCode) : Bool :=
  code = .notFound || code = .private_

section Reads
variable (requestCap : ℕ) (upstream : Upstream)

/-- One stored report re-read, and what it is worth to the scan. -/
def rereadReport (b : Budgeted) (code : String) : Budgeted :=
  let b := b.hydrate code
  match upstream.report code with
  | .limitation refusal => if isGone refusal then b else b.limit refusal
  | .evidence kills wipes omitted limited =>
    let b := b.addEvidence (.evidence kills wipes omitted limited)
    if omitted then { b with scan := { b.scan with omittedInvalidTimestamp := true } }
    else
      match limited with
      | none => b
      | some refusal => b.limit refusal

/-- The stored reports the scan did not read, until the budget is spent. -/
def rereadReports : List String → Budgeted → Budgeted
  | [], b => b
  | code :: rest, b =>
    if code ∈ b.scan.scannedReportCodes then rereadReports rest b
    else if b.scan.historyRequests ≥ requestCap then b.limit .requestCap
    else rereadReports rest (rereadReport upstream b code)

def rereadStoredReports (storedKillReportCodes : List String) (resumedFromCursor : Bool)
    (b : Budgeted) : Budgeted :=
  if resumedFromCursor = true ∨ b.scan.finished = false ∨ b.scan.limitation ≠ none then b
  else rereadReports requestCap upstream storedKillReportCodes b

/-- A guild's search: whether every night was listed to its end, and whether a
report could not be read. -/
structure GuildSearch where
  budgeted : Budgeted
  searched : Bool
  recoveredKills : ℕ
  concluded : Bool
  unreadable : Bool

inductive Next
  | goOn
  | guildDone
  | searchDone
  deriving DecidableEq

def GuildSearch.addReport (g : GuildSearch) (code : String) : GuildSearch :=
  let read := { g with budgeted := g.budgeted.hydrate code }
  match upstream.report code with
  | .limitation refusal =>
    if isGone refusal then read else { read with unreadable := true }
  | .evidence kills wipes omitted limited =>
    { read with
      budgeted := read.budgeted.addEvidence (.evidence kills wipes omitted limited)
      recoveredKills := g.recoveredKills +
        ((kills.map MythicKill.fightUrl).dedup.filter
          (fun url => !g.budgeted.scan.kills.has url)).length }

/-- The reports of one listing page. -/
def hydrateListed : List String → GuildSearch → GuildSearch × Next
  | [], g => (g, .goOn)
  | code :: rest, g =>
    if code ∈ g.budgeted.scan.scannedReportCodes then hydrateListed rest g
    else if g.budgeted.scan.historyRequests ≥ requestCap then (g, .searchDone)
    else hydrateListed rest (g.addReport upstream code)

/-- The listing of one night, by the requests left: each page costs one, so
they run out no sooner than the budget. -/
def listNight (guild : Guild) (night : NightWindow) : ℕ → ℕ → GuildSearch → GuildSearch × Next
  | 0, _, g => (g, .searchDone)
  | requests + 1, number, g =>
    if g.budgeted.scan.historyRequests ≥ requestCap then (g, .searchDone)
    else
      let asked := { g with
        budgeted := g.budgeted.spend (.guildReports guild night number)
        searched := true }
      match upstream.guildReports guild night number with
      | .limitation code => ({ asked with concluded := code = .notFound }, .guildDone)
      | .success none => ({ asked with concluded := false }, .guildDone)
      | .success (some page) =>
        match hydrateListed requestCap upstream page.codes asked with
        | (g, .goOn) =>
          if page.hasMorePages then listNight guild night requests (number + 1) g
          else (g, .goOn)
        | stopped => stopped

def listNights (guild : Guild) : List NightWindow → GuildSearch → GuildSearch × Next
  | [], g => (g, .goOn)
  | night :: rest, g =>
    match listNight requestCap upstream guild night
        (requestCap - g.budgeted.scan.historyRequests) 1 g with
    | (g, .goOn) => listNights guild rest g
    | stopped => stopped

/-- The kills of a concluded search that nothing found accounts for. -/
def searchedEmptyOf (g : GuildSearch) (targets : List (VerifiedKill × Instant)) :
    List VerifiedKill :=
  if g.concluded = false ∨ g.unreadable = true then []
  else (targets.filter (fun target => !g.budgeted.scan.kills.values.any (fun kill =>
    |(kill.killedAt : ℤ) - target.2| ≤ reportCoverSlackMs))).map Prod.fst

structure AttendanceRecovery where
  budgeted : Budgeted
  searched : Bool
  recoveredKills : ℕ
  searchedEmpty : List VerifiedKill

def searchGuilds : List (Guild × List (VerifiedKill × Instant)) → AttendanceRecovery →
    AttendanceRecovery
  | [], r => r
  | (guild, targets) :: rest, r =>
    let search := listNights requestCap upstream guild (nightWindows targets)
      { budgeted := r.budgeted
        searched := r.searched
        recoveredKills := r.recoveredKills
        concluded := true
        unreadable := false }
    let found : AttendanceRecovery :=
      { budgeted := search.1.budgeted
        searched := search.1.searched
        recoveredKills := search.1.recoveredKills
        searchedEmpty := r.searchedEmpty }
    if search.2 = .searchDone then found
    else searchGuilds rest
      { found with searchedEmpty := r.searchedEmpty ++ searchedEmptyOf search.1 targets }

def recoverFromAttendance (verifiedKills : List VerifiedKill) (spans : List ReportSpan)
    (b : Budgeted) : AttendanceRecovery :=
  searchGuilds requestCap upstream
    (recoveryTargets (uncoveredVerifiedKills verifiedKills spans)).entries
    { budgeted := b, searched := false, recoveredKills := 0, searchedEmpty := [] }

end Reads

/-! The budget. -/

/-- What later reads may do to what the scan left: spend within the cap, add
evidence, and limit a scan that was not. -/
structure Within (requestCap : ℕ) (before after : Budgeted) : Prop where
  spent : ∃ made, after.requests = before.requests ++ made ∧
    after.scan.historyRequests = before.scan.historyRequests + made.length
  capped : before.scan.historyRequests ≤ requestCap → after.scan.historyRequests ≤ requestCap
  lastDecodedPage : after.scan.lastDecodedPage = before.scan.lastDecodedPage
  boundary : after.scan.resumeBoundaryReportCode = before.scan.resumeBoundaryReportCode
  historyLimit : after.scan.historyLimitReached = before.scan.historyLimitReached
  invalidated : after.scan.invalidatedStoredBoundary = before.scan.invalidatedStoredBoundary
  limited : before.scan.limitation ≠ none → after.scan.limitation ≠ none

section Budget
variable {requestCap : ℕ} (upstream : Upstream)

theorem Within.refl (b : Budgeted) : Within requestCap b b where
  spent := ⟨[], (List.append_nil _).symm, rfl⟩
  capped h := h
  lastDecodedPage := rfl
  boundary := rfl
  historyLimit := rfl
  invalidated := rfl
  limited h := h

variable {b : Budgeted}

theorem Within.trans {a c : Budgeted} (h : Within requestCap a b) (h' : Within requestCap b c) :
    Within requestCap a c where
  spent := by
    obtain ⟨made, hrequests, hcount⟩ := h.spent
    obtain ⟨made', hrequests', hcount'⟩ := h'.spent
    refine ⟨made ++ made', ?_, ?_⟩
    · rw [hrequests', hrequests, List.append_assoc]
    · rw [hcount', hcount, List.length_append, Nat.add_assoc]
  capped hcap := h'.capped (h.capped hcap)
  lastDecodedPage := h'.lastDecodedPage.trans h.lastDecodedPage
  boundary := h'.boundary.trans h.boundary
  historyLimit := h'.historyLimit.trans h.historyLimit
  invalidated := h'.invalidated.trans h.invalidated
  limited hlimited := h'.limited (h.limited hlimited)

theorem within_spend (h : b.scan.historyRequests < requestCap) (request : HistoryRequest) :
    Within requestCap b (b.spend request) where
  spent := ⟨[request], rfl, rfl⟩
  capped _ := h
  lastDecodedPage := rfl
  boundary := rfl
  historyLimit := rfl
  invalidated := rfl
  limited h := h

theorem within_hydrate (h : b.scan.historyRequests < requestCap) (code : String) :
    Within requestCap b (b.hydrate code) where
  spent := ⟨[.report code], rfl, rfl⟩
  capped _ := h
  lastDecodedPage := rfl
  boundary := rfl
  historyLimit := rfl
  invalidated := rfl
  limited h := h

theorem within_addEvidence (b : Budgeted) (decoded : DecodedPage) :
    Within requestCap b (b.addEvidence decoded) where
  spent := ⟨[], (List.append_nil _).symm, rfl⟩
  capped h := h
  lastDecodedPage := rfl
  boundary := rfl
  historyLimit := rfl
  invalidated := rfl
  limited h := h

theorem within_limit (b : Budgeted) (code : LimitationCode) :
    Within requestCap b (b.limit code) where
  spent := ⟨[], (List.append_nil _).symm, rfl⟩
  capped h := h
  lastDecodedPage := rfl
  boundary := rfl
  historyLimit := rfl
  invalidated := rfl
  limited h := by
    obtain ⟨first, hfirst⟩ := Option.ne_none_iff_exists'.mp h
    show b.scan.limitation.or (some code) ≠ none
    rw [hfirst]
    exact Option.some_ne_none first

theorem within_omitted (b : Budgeted) : Within requestCap b
    { b with scan := { b.scan with omittedInvalidTimestamp := true } } where
  spent := ⟨[], (List.append_nil _).symm, rfl⟩
  capped h := h
  lastDecodedPage := rfl
  boundary := rfl
  historyLimit := rfl
  invalidated := rfl
  limited h := h

theorem within_rereadReport (h : b.scan.historyRequests < requestCap) (code : String) :
    Within requestCap b (rereadReport upstream b code) := by
  have hread := within_hydrate h code
  unfold rereadReport
  cases upstream.report code with
  | limitation refusal =>
    dsimp only
    split
    · exact hread
    · exact hread.trans (within_limit _ refusal)
  | evidence kills wipes omitted limited =>
    have hadded := hread.trans
      (within_addEvidence (b.hydrate code) (.evidence kills wipes omitted limited))
    dsimp only
    split
    · exact hadded.trans (within_omitted _)
    · cases limited with
      | none => exact hadded
      | some refusal => exact hadded.trans (within_limit _ refusal)

variable (codes : List String)

theorem within_rereadReports (b : Budgeted) :
    Within requestCap b (rereadReports requestCap upstream codes b) := by
  induction codes generalizing b with
  | nil => exact Within.refl b
  | cons code rest ih =>
    unfold rereadReports
    split
    · exact ih b
    · split
      · exact within_limit b .requestCap
      · next hleft =>
        exact (within_rereadReport upstream (not_le.mp hleft) code).trans (ih _)

theorem within_rereadStoredReports (resumed : Bool) (b : Budgeted) :
    Within requestCap b (rereadStoredReports requestCap upstream codes resumed b) := by
  unfold rereadStoredReports
  split
  · exact Within.refl b
  · exact within_rereadReports upstream codes b

theorem within_addReport {g : GuildSearch} (h : g.budgeted.scan.historyRequests < requestCap)
    (code : String) : Within requestCap g.budgeted (g.addReport upstream code).budgeted := by
  have hread := within_hydrate h code
  unfold GuildSearch.addReport
  cases upstream.report code with
  | limitation refusal =>
    dsimp only
    split <;> exact hread
  | evidence kills wipes omitted limited => exact hread.trans (within_addEvidence _ _)

theorem within_hydrateListed (g : GuildSearch) :
    Within requestCap g.budgeted (hydrateListed requestCap upstream codes g).1.budgeted := by
  induction codes generalizing g with
  | nil => exact Within.refl _
  | cons code rest ih =>
    unfold hydrateListed
    split
    · exact ih g
    · split
      · exact Within.refl _
      · next hleft => exact (within_addReport upstream (not_le.mp hleft) code).trans (ih _)

variable (requestCap) in
theorem within_listNight (guild : Guild) (night : NightWindow) (requests number : ℕ)
    (g : GuildSearch) : Within requestCap g.budgeted
      (listNight requestCap upstream guild night requests number g).1.budgeted := by
  induction requests generalizing number g with
  | zero => exact Within.refl _
  | succ requests ih =>
    unfold listNight
    split
    · exact Within.refl _
    · next hleft =>
      have hasked := within_spend (not_le.mp hleft) (.guildReports guild night number)
      cases upstream.guildReports guild night number with
      | limitation code => exact hasked
      | success page =>
        cases page with
        | none => exact hasked
        | some page =>
          dsimp only
          have hlisted := hasked.trans (within_hydrateListed upstream page.codes
            { g with
              budgeted := g.budgeted.spend (.guildReports guild night number)
              searched := true })
          generalize hydrateListed requestCap upstream page.codes _ = listed at hlisted ⊢
          obtain ⟨g', next⟩ := listed
          cases next with
          | goOn =>
            dsimp only
            split
            · exact hlisted.trans (ih _ _)
            · exact hlisted
          | guildDone => exact hlisted
          | searchDone => exact hlisted

variable (requestCap) in
theorem within_listNights (guild : Guild) (nights : List NightWindow) (g : GuildSearch) :
    Within requestCap g.budgeted (listNights requestCap upstream guild nights g).1.budgeted := by
  induction nights generalizing g with
  | nil => exact Within.refl _
  | cons night rest ih =>
    unfold listNights
    have hnight := within_listNight requestCap upstream guild night
      (requestCap - g.budgeted.scan.historyRequests) 1 g
    generalize listNight requestCap upstream guild night _ 1 g = listed at hnight ⊢
    obtain ⟨g', next⟩ := listed
    cases next with
    | goOn => exact hnight.trans (ih _)
    | guildDone => exact hnight
    | searchDone => exact hnight

variable (requestCap) in
theorem within_searchGuilds (targets : List (Guild × List (VerifiedKill × Instant)))
    (r : AttendanceRecovery) :
    Within requestCap r.budgeted (searchGuilds requestCap upstream targets r).budgeted := by
  induction targets generalizing r with
  | nil => exact Within.refl _
  | cons target rest ih =>
    obtain ⟨guild, wanted⟩ := target
    unfold searchGuilds
    have hguild := within_listNights requestCap upstream guild (nightWindows wanted)
      { budgeted := r.budgeted
        searched := r.searched
        recoveredKills := r.recoveredKills
        concluded := true
        unreadable := false }
    dsimp only at hguild ⊢
    generalize listNights requestCap upstream guild (nightWindows wanted) _ = search at hguild ⊢
    split
    · exact hguild
    · have hrest := ih
        { budgeted := search.1.budgeted
          searched := search.1.searched
          recoveredKills := search.1.recoveredKills
          searchedEmpty := r.searchedEmpty ++ searchedEmptyOf search.1 wanted }
      exact hguild.trans hrest

theorem within_recoverFromAttendance (verifiedKills : List VerifiedKill) (spans : List ReportSpan)
    (b : Budgeted) : Within requestCap b
      (recoverFromAttendance requestCap upstream verifiedKills spans b).budgeted :=
  within_searchGuilds requestCap upstream _
    { budgeted := b, searched := false, recoveredKills := 0, searchedEmpty := [] }

end Budget

end SlashWho.HistoryRecovery
