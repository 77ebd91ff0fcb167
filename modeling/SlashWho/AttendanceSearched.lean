import SlashWho.FirstKillCollection
import SlashWho.NightWindows

/-!
What a run may say of a verified kill it reports as searched for in vain: that its guild does not
exist, or that the guild's reports of the night were listed to the last page and every one read to
its end. The search skips the reports already read in the run, and a report decoded in part counts
as one read; so it may say so only where no report it meets is one of these.
-/

namespace SlashWho.HistoryRecovery

open List EvidenceMerge HistoryScan FirstKillCollection

/-- Some of the report was left undecoded: a fight with no valid time, or all that
follows a drift. -/
def inPart : DecodedPage → Bool
  | .limitation _ => false
  | .evidence _ _ omitted limited => omitted || limited.isSome

/-- The whole report was decoded, or upstream says that it is gone. -/
def definitive : DecodedPage → Bool
  | .limitation code => isGone code
  | .evidence kills wipes omitted limited => !inPart (.evidence kills wipes omitted limited)

/-- The report is read by its code, or with a history page decoded without a limitation. -/
def HistoryRequest.Reads (code : String) : HistoryRequest → Prop
  | .report read => read = code
  | .page _ (.success value) => CleanPage value ∧ code ∈ value.reportCodes
  | _ => False

variable (requestCap : ℕ) (upstream : Upstream)
-- the codes of a page's reports that have a fight left out for its time
variable (omittedReportCodes : HistoryPage → List String)

def HistoryRequest.Spoils (code : String) : HistoryRequest → Prop
  | .report read => read = code ∧ definitive (upstream.report code) = false
  | .page _ (.success value) => code ∈ omittedReportCodes value
  | _ => False

variable (requests : List HistoryRequest)

/-- The report was decoded completely, or answered as gone. -/
def Settled (code : String) : Prop :=
  ∃ request ∈ requests, request.Reads code ∧ ¬ request.Spoils upstream omittedReportCodes code

/-- The guild's reports of the night, read from page `number` on to the last, and every
one of them settled. -/
inductive ListedFrom (requests : List HistoryRequest) (guild : Guild) (night : NightWindow) :
    ℕ → Prop
  | last {number : ℕ} {page : GuildReportsPage}
      (hasked : .guildReports guild night number ∈ requests)
      (hread : upstream.guildReports guild night number = .success (some page))
      (hsettled : ∀ code ∈ page.codes, Settled upstream omittedReportCodes requests code)
      (hend : page.hasMorePages = false) : ListedFrom requests guild night number
  | more {number : ℕ} {page : GuildReportsPage}
      (hasked : .guildReports guild night number ∈ requests)
      (hread : upstream.guildReports guild night number = .success (some page))
      (hsettled : ∀ code ∈ page.codes, Settled upstream omittedReportCodes requests code)
      (hmore : page.hasMorePages = true)
      (hrest : ListedFrom requests guild night (number + 1)) :
      ListedFrom requests guild night number

def ToldNotFound (guild : Guild) : Prop :=
  ∃ night number, .guildReports guild night number ∈ requests ∧
    upstream.guildReports guild night number = .limitation .notFound

/-- What reporting a kill as searched for in vain says. -/
def SearchedFor (verified : VerifiedKill) : Prop :=
  ToldNotFound upstream requests verified.guild ∨
    ∃ (at_ : Instant) (night : NightWindow), verified.at_ = some at_ ∧
      night.1 ≤ at_ - attendanceReportLeadMs ∧ at_ + reportCoverSlackMs ≤ night.2 ∧
      ListedFrom upstream omittedReportCodes requests verified.guild night 1

/-! The reports a search meets, each with the search as it is then. -/

def metListed : List String → GuildSearch → List (GuildSearch × String)
  | [], _ => []
  | code :: rest, g =>
    if code ∈ g.budgeted.scan.scannedReportCodes then (g, code) :: metListed rest g
    else if g.budgeted.scan.historyRequests ≥ requestCap then []
    else (g, code) :: metListed rest (g.addReport upstream code)

/-- The search once it has asked for a listing page. -/
def GuildSearch.ask (g : GuildSearch) (guild : Guild) (night : NightWindow) (number : ℕ) :
    GuildSearch :=
  { g with
    budgeted := g.budgeted.spend (.guildReports guild night number)
    searched := true }

def metNight (guild : Guild) (night : NightWindow) :
    ℕ → ℕ → GuildSearch → List (GuildSearch × String)
  | 0, _, _ => []
  | requests + 1, number, g =>
    if g.budgeted.scan.historyRequests ≥ requestCap then []
    else
      match upstream.guildReports guild night number with
      | .success (some page) =>
        let asked := g.ask guild night number
        metListed requestCap upstream page.codes asked ++
          match hydrateListed requestCap upstream page.codes asked with
          | (g, .goOn) =>
            if page.hasMorePages then metNight guild night requests (number + 1) g else []
          | _ => []
      | _ => []

def metNights (guild : Guild) : List NightWindow → GuildSearch → List (GuildSearch × String)
  | [], _ => []
  | night :: rest, g =>
    let requests := requestCap - g.budgeted.scan.historyRequests
    metNight requestCap upstream guild night requests 1 g ++
      match listNight requestCap upstream guild night requests 1 g with
      | (g, .goOn) => metNights guild rest g
      | _ => []

def AttendanceRecovery.search (r : AttendanceRecovery) : GuildSearch where
  budgeted := r.budgeted
  searched := r.searched
  recoveredKills := r.recoveredKills
  concluded := true
  unreadable := false

/-- The recovery once a guild's search has ended, with the kills it reports. -/
def AttendanceRecovery.add (r : AttendanceRecovery) (g : GuildSearch)
    (reported : List VerifiedKill) : AttendanceRecovery where
  budgeted := g.budgeted
  searched := g.searched
  recoveredKills := g.recoveredKills
  searchedEmpty := r.searchedEmpty ++ reported

def metGuilds : List (Guild × List (VerifiedKill × Instant)) → AttendanceRecovery →
    List (GuildSearch × String)
  | [], _ => []
  | (guild, targets) :: rest, r =>
    let search := listNights requestCap upstream guild (nightWindows targets) r.search
    metNights requestCap upstream guild (nightWindows targets) r.search ++
      if search.2 = .searchDone then []
      else metGuilds rest (r.add search.1 (searchedEmptyOf search.1 targets))

/-- The report met was not read in the run short of its end, and is not decoded in
part now; or the guild's search has met one it could not read before. -/
def MetClean (g : GuildSearch) (code : String) : Prop :=
  g.unreadable = true ∨
    if code ∈ g.budgeted.scan.scannedReportCodes then
      ∀ request ∈ g.budgeted.requests, request.Reads code →
        ¬ request.Spoils upstream omittedReportCodes code
    else inPart (upstream.report code) = false

/-! What every read keeps. -/

variable (b : Budgeted)

/-- Every report marked as read was read, by a request of the run. -/
def ScannedRead : Prop :=
  ∀ code ∈ b.scan.scannedReportCodes, ∃ request ∈ b.requests, request.Reads code

/-- No request is forgotten, and what is marked as read was read. -/
structure Carries (before after : Budgeted) : Prop where
  requests : before.requests ⊆ after.requests
  scanned : ScannedRead before → ScannedRead after

theorem Carries.refl : Carries b b := ⟨List.Subset.refl _, fun h => h⟩

theorem Carries.trans {a b c : Budgeted} (h : Carries a b) (h' : Carries b c) : Carries a c :=
  ⟨List.Subset.trans h.requests h'.requests, fun hread => h'.scanned (h.scanned hread)⟩

theorem carries_of_eq {before after : Budgeted} (hrequests : after.requests = before.requests)
    (hscanned : after.scan.scannedReportCodes = before.scan.scannedReportCodes) :
    Carries before after := by
  refine ⟨hrequests ▸ List.Subset.refl _, fun hread => ?_⟩
  unfold ScannedRead
  rw [hrequests, hscanned]
  exact hread

theorem carries_spend (request : HistoryRequest) : Carries b (b.spend request) where
  requests := subset_append_left _ _
  scanned hread code hcode := by
    obtain ⟨made, hmade, hreads⟩ := hread code hcode
    exact ⟨made, mem_append_left _ hmade, hreads⟩

theorem carries_hydrate (code : String) : Carries b (b.hydrate code) where
  requests := subset_append_left _ _
  scanned hread other hother := by
    rcases mem_append.mp hother with hbefore | hnew
    · obtain ⟨made, hmade, hreads⟩ := hread other hbefore
      exact ⟨made, mem_append_left _ hmade, hreads⟩
    · obtain rfl := mem_singleton.mp hnew
      exact ⟨.report other, mem_append_right _ (mem_singleton_self _), rfl⟩

theorem carries_rereadReport (code : String) :
    Carries b (rereadReport upstream b code) := by
  have hread := carries_hydrate b code
  unfold rereadReport
  cases upstream.report code with
  | limitation refusal =>
    dsimp only
    split
    · exact hread
    · exact hread.trans (carries_of_eq rfl rfl)
  | evidence kills wipes omitted limited =>
    dsimp only
    split
    · exact hread.trans (carries_of_eq rfl rfl)
    · cases limited with
      | none => exact hread.trans (carries_of_eq rfl rfl)
      | some refusal => exact hread.trans (carries_of_eq rfl rfl)

variable (codes : List String)

theorem carries_rereadReports (b : Budgeted) :
    Carries b (rereadReports requestCap upstream codes b) := by
  induction codes generalizing b with
  | nil => exact Carries.refl b
  | cons code rest ih =>
    unfold rereadReports
    split
    · exact ih b
    · split
      · exact carries_of_eq rfl rfl
      · exact (carries_rereadReport upstream b code).trans (ih _)

theorem carries_rereadStoredReports (resumed : Bool) (b : Budgeted) :
    Carries b (rereadStoredReports requestCap upstream codes resumed b) := by
  unfold rereadStoredReports
  split
  · exact Carries.refl b
  · exact carries_rereadReports requestCap upstream codes b

/-- A search goes on: what it could not read stays unread. -/
structure Searches (g g' : GuildSearch) : Prop where
  carries : Carries g.budgeted g'.budgeted
  unreadable : g.unreadable = true → g'.unreadable = true

theorem Searches.refl (g : GuildSearch) : Searches g g := ⟨Carries.refl _, fun h => h⟩

variable {g : GuildSearch}

variable {g' : GuildSearch}

theorem Searches.trans {g'' : GuildSearch} (h : Searches g g') (h' : Searches g' g'') :
    Searches g g'' :=
  ⟨h.carries.trans h'.carries, fun hunreadable => h'.unreadable (h.unreadable hunreadable)⟩

/-- A search that can still report has met nothing it could not read so far. -/
theorem Searches.readable (h : Searches g g') (hreadable : g'.unreadable = false) :
    g.unreadable = false := by
  rw [Bool.eq_false_iff]
  intro hunreadable
  rw [h.unreadable hunreadable] at hreadable
  cases hreadable

variable {requests' : List HistoryRequest} {code : String}

variable {upstream omittedReportCodes} in
theorem Settled.mono {requests : List HistoryRequest}
    (h : Settled upstream omittedReportCodes requests code) (hsub : requests ⊆ requests') :
    Settled upstream omittedReportCodes requests' code := by
  obtain ⟨request, hmem, hreads⟩ := h
  exact ⟨request, hsub hmem, hreads⟩

variable {guild : Guild}

variable {upstream omittedReportCodes} in
theorem ListedFrom.mono {requests : List HistoryRequest} {night : NightWindow} {number : ℕ}
    (h : ListedFrom upstream omittedReportCodes requests guild night number)
    (hsub : requests ⊆ requests') :
    ListedFrom upstream omittedReportCodes requests' guild night number := by
  induction h with
  | last hasked hread hsettled hend =>
    exact .last (hsub hasked) hread (fun code hcode => (hsettled code hcode).mono hsub) hend
  | more hasked hread hsettled hmore _ ih =>
    exact .more (hsub hasked) hread (fun code hcode => (hsettled code hcode).mono hsub) hmore ih

/-! One report met. -/

theorem searches_addReport (g : GuildSearch) (code : String) :
    Searches g (g.addReport upstream code) := by
  have hread := carries_hydrate g.budgeted code
  unfold GuildSearch.addReport
  cases upstream.report code with
  | limitation refusal =>
    dsimp only
    split
    · exact ⟨hread, fun hunreadable => hunreadable⟩
    · exact ⟨hread, fun _ => rfl⟩
  | evidence kills wipes omitted limited =>
    exact ⟨hread.trans (carries_of_eq rfl rfl), fun hunreadable => hunreadable⟩

theorem addReport_concluded (g : GuildSearch) (code : String) :
    (g.addReport upstream code).concluded = g.concluded := by
  unfold GuildSearch.addReport
  cases upstream.report code with
  | limitation refusal =>
    dsimp only
    split <;> rfl
  | evidence kills wipes omitted limited => rfl

theorem addReport_asked (g : GuildSearch) (code : String) :
    .report code ∈ (g.addReport upstream code).budgeted.requests := by
  have hasked : HistoryRequest.report code ∈ (g.budgeted.hydrate code).requests :=
    mem_append_right _ (mem_singleton_self _)
  unfold GuildSearch.addReport
  cases upstream.report code with
  | limitation refusal =>
    dsimp only
    split <;> exact hasked
  | evidence kills wipes omitted limited => exact hasked

theorem settled_addReport (hwhole : inPart (upstream.report code) = false)
    (hreadable : (g.addReport upstream code).unreadable = false) :
    Settled upstream omittedReportCodes (g.addReport upstream code).budgeted.requests code := by
  refine ⟨.report code, addReport_asked upstream g code, rfl, ?_⟩
  rintro ⟨-, hspoilt⟩
  unfold GuildSearch.addReport at hreadable
  cases hreport : upstream.report code with
  | limitation refusal =>
    rw [hreport] at hspoilt hreadable
    dsimp only [definitive] at hspoilt hreadable
    rw [hspoilt] at hreadable
    cases hreadable
  | evidence kills wipes omitted limited =>
    rw [hreport] at hspoilt hwhole
    have hspoilt : (!inPart (.evidence kills wipes omitted limited)) = false := hspoilt
    rw [hwhole] at hspoilt
    cases hspoilt

theorem settled_of_skipped (hread : ScannedRead g.budgeted)
    (hscanned : code ∈ g.budgeted.scan.scannedReportCodes)
    (hmet : MetClean upstream omittedReportCodes g code) (hreadable : g.unreadable = false) :
    Settled upstream omittedReportCodes g.budgeted.requests code := by
  unfold MetClean at hmet
  rw [if_pos hscanned, hreadable] at hmet
  obtain ⟨request, hmem, hreads⟩ := hread code hscanned
  rcases hmet with hunreadable | hclean
  · cases hunreadable
  · exact ⟨request, hmem, hreads, hclean request hmem hreads⟩

/-! The reports of one listing page. -/

theorem searches_hydrateListed (g : GuildSearch) :
    Searches g (hydrateListed requestCap upstream codes g).1 := by
  induction codes generalizing g with
  | nil => exact Searches.refl g
  | cons code rest ih =>
    unfold hydrateListed
    split
    · exact ih g
    · split
      · exact Searches.refl g
      · exact (searches_addReport upstream g code).trans (ih _)

theorem hydrateListed_concluded (g : GuildSearch) :
    (hydrateListed requestCap upstream codes g).1.concluded = g.concluded := by
  induction codes generalizing g with
  | nil => rfl
  | cons code rest ih =>
    unfold hydrateListed
    split
    · exact ih g
    · split
      · rfl
      · exact (ih _).trans (addReport_concluded upstream g code)

theorem hydrateListed_next (g : GuildSearch) :
    (hydrateListed requestCap upstream codes g).2 ≠ .guildDone := by
  induction codes generalizing g with
  | nil => exact Next.noConfusion
  | cons code rest ih =>
    unfold hydrateListed
    split
    · exact ih g
    · split
      · exact Next.noConfusion
      · exact ih _

theorem settled_hydrateListed {codes : List String} (hread : ScannedRead g.budgeted)
    (hmet : ∀ met ∈ metListed requestCap upstream codes g,
      MetClean upstream omittedReportCodes met.1 met.2)
    (hon : (hydrateListed requestCap upstream codes g).2 = .goOn)
    (hreadable : (hydrateListed requestCap upstream codes g).1.unreadable = false) :
    ∀ code ∈ codes, Settled upstream omittedReportCodes
      (hydrateListed requestCap upstream codes g).1.budgeted.requests code := by
  induction codes generalizing g with
  | nil => exact fun code hcode => absurd hcode not_mem_nil
  | cons first rest ih =>
    unfold hydrateListed at hon hreadable ⊢
    unfold metListed at hmet
    by_cases hscanned : first ∈ g.budgeted.scan.scannedReportCodes
    · rw [if_pos hscanned] at hon hreadable hmet ⊢
      have hsearches := searches_hydrateListed requestCap upstream rest g
      intro code hcode
      rcases mem_cons.mp hcode with rfl | hcode
      · have hclean := hmet (g, code) mem_cons_self
        have hsettled := settled_of_skipped upstream omittedReportCodes hread hscanned hclean
          (hsearches.readable hreadable)
        exact hsettled.mono hsearches.carries.requests
      · exact ih hread (fun met hin => hmet met (mem_cons_of_mem _ hin)) hon hreadable
          code hcode
    · rw [if_neg hscanned] at hon hreadable hmet ⊢
      by_cases hspent : g.budgeted.scan.historyRequests ≥ requestCap
      · rw [if_pos hspent] at hon
        cases hon
      · rw [if_neg hspent] at hon hreadable hmet ⊢
        have hadded := searches_addReport upstream g first
        have hsearches := searches_hydrateListed requestCap upstream rest
          (g.addReport upstream first)
        have hstill := hsearches.readable hreadable
        intro code hcode
        rcases mem_cons.mp hcode with rfl | hcode
        · have hclean := hmet (g, code) mem_cons_self
          unfold MetClean at hclean
          rw [if_neg hscanned, hadded.readable hstill] at hclean
          rcases hclean with hunreadable | hwhole
          · cases hunreadable
          · exact (settled_addReport upstream omittedReportCodes hwhole hstill).mono
              hsearches.carries.requests
        · exact ih (hadded.carries.scanned hread)
            (fun met hin => hmet met (mem_cons_of_mem _ hin)) hon hreadable code hcode

/-! One night, page by page. -/

theorem searches_ask (g : GuildSearch) (guild : Guild) (night : NightWindow) (number : ℕ) :
    Searches g (g.ask guild night number) :=
  ⟨carries_spend _ _, fun hunreadable => hunreadable⟩

theorem asked_ask (g : GuildSearch) (guild : Guild) (night : NightWindow) (number : ℕ) :
    .guildReports guild night number ∈ (g.ask guild night number).budgeted.requests :=
  mem_append_right _ (mem_singleton_self _)

/-- What a night's listing comes to: listed to its last page, refused, or left. -/
structure NightListed (guild : Guild) (night : NightWindow) (number : ℕ) (g g' : GuildSearch)
    (next : Next) : Prop where
  searches : Searches g g'
  listed : next = .goOn → g'.concluded = g.concluded ∧ (g'.unreadable = false →
    ListedFrom upstream omittedReportCodes g'.budgeted.requests guild night number)
  refused : next = .guildDone → g'.concluded = true →
    ToldNotFound upstream g'.budgeted.requests guild

theorem listNight_succ {night : NightWindow} {requests number : ℕ}
    (hleft : ¬ g.budgeted.scan.historyRequests ≥ requestCap) :
    listNight requestCap upstream guild night (requests + 1) number g =
      match upstream.guildReports guild night number with
      | .limitation code =>
        ({ g.ask guild night number with concluded := code = .notFound }, .guildDone)
      | .success none => ({ g.ask guild night number with concluded := false }, .guildDone)
      | .success (some page) =>
        match hydrateListed requestCap upstream page.codes (g.ask guild night number) with
        | (g, .goOn) =>
          if page.hasMorePages then
            listNight requestCap upstream guild night requests (number + 1) g
          else (g, .goOn)
        | stopped => stopped := by
  rw [listNight, if_neg hleft]
  rfl

theorem nightListed (guild : Guild) (night : NightWindow) (requests number : ℕ)
    (g : GuildSearch) (hread : ScannedRead g.budgeted)
    (hmet : ∀ met ∈ metNight requestCap upstream guild night requests number g,
      MetClean upstream omittedReportCodes met.1 met.2) :
    NightListed upstream omittedReportCodes guild night number g
      (listNight requestCap upstream guild night requests number g).1
      (listNight requestCap upstream guild night requests number g).2 := by
  induction requests generalizing number g with
  | zero =>
    exact ⟨Searches.refl g, fun hnext => (by cases hnext), fun hnext => (by cases hnext)⟩
  | succ requests ih =>
    by_cases hspent : g.budgeted.scan.historyRequests ≥ requestCap
    · rw [listNight, if_pos hspent]
      exact ⟨Searches.refl g, fun hnext => (by cases hnext), fun hnext => (by cases hnext)⟩
    · rw [metNight, if_neg hspent] at hmet
      rw [listNight_succ requestCap upstream hspent]
      have hask := searches_ask g guild night number
      have hasked := asked_ask g guild night number
      cases hanswer : upstream.guildReports guild night number with
      | limitation code =>
        refine ⟨⟨hask.carries, hask.unreadable⟩, fun hnext => (by cases hnext), fun _ hfound => ?_⟩
        obtain rfl : code = .notFound := of_decide_eq_true hfound
        exact ⟨night, number, hasked, hanswer⟩
      | success answer =>
        cases answer with
        | none =>
          exact ⟨⟨hask.carries, hask.unreadable⟩, fun hnext => (by cases hnext),
            fun _ hfound => (by cases hfound)⟩
        | some page =>
          rw [hanswer] at hmet
          dsimp only at hmet ⊢
          have hreadAsked := hask.carries.scanned hread
          have hpage := searches_hydrateListed requestCap upstream page.codes
            (g.ask guild night number)
          have hconcluded := hydrateListed_concluded requestCap upstream page.codes
            (g.ask guild night number)
          have hnever := hydrateListed_next requestCap upstream page.codes
            (g.ask guild night number)
          have hsettled := settled_hydrateListed requestCap upstream omittedReportCodes
            hreadAsked (fun met hin => hmet met (mem_append_left _ hin))
          have hlater := fun met hin => hmet met (mem_append_right _ hin)
          generalize hydrateListed requestCap upstream page.codes
            (g.ask guild night number) = listed at *
          obtain ⟨g', next⟩ := listed
          dsimp only at hpage hconcluded hnever hsettled hlater ⊢
          have hsearches := hask.trans hpage
          cases next with
          | guildDone => exact absurd rfl hnever
          | searchDone =>
            exact ⟨hsearches, fun hnext => (by cases hnext), fun hnext => (by cases hnext)⟩
          | goOn =>
            dsimp only at hlater ⊢
            have hin := hpage.carries.requests hasked
            cases hmore : page.hasMorePages with
            | false =>
              rw [if_neg Bool.false_ne_true]
              refine ⟨hsearches, fun _ => ⟨hconcluded, fun hreadable => ?_⟩,
                fun hnext => (by cases hnext)⟩
              exact .last hin hanswer (hsettled rfl hreadable) hmore
            | true =>
              rw [if_pos rfl]
              rw [hmore, if_pos rfl] at hlater
              have hnext := ih (number + 1) g' (hpage.carries.scanned hreadAsked) hlater
              refine ⟨hsearches.trans hnext.searches, fun hon => ?_, hnext.refused⟩
              obtain ⟨hstill, hrest⟩ := hnext.listed hon
              refine ⟨hstill.trans hconcluded, fun hreadable => ?_⟩
              have hgrown := hnext.searches.carries.requests
              refine .more (hgrown hin) hanswer (fun code hcode => ?_) hmore (hrest hreadable)
              exact (hsettled rfl (hnext.searches.readable hreadable) code hcode).mono hgrown

/-! One guild, night by night. -/

/-- What a guild's listings come to: every night listed to its last page, refused, or left. -/
structure NightsListed (guild : Guild) (nights : List NightWindow) (g g' : GuildSearch)
    (next : Next) : Prop where
  searches : Searches g g'
  listed : next = .goOn → g'.unreadable = false → ∀ night ∈ nights,
    ListedFrom upstream omittedReportCodes g'.budgeted.requests guild night 1
  refused : next = .guildDone → g'.concluded = true →
    ToldNotFound upstream g'.budgeted.requests guild

theorem nightsListed (guild : Guild) (nights : List NightWindow) (g : GuildSearch)
    (hread : ScannedRead g.budgeted)
    (hmet : ∀ met ∈ metNights requestCap upstream guild nights g,
      MetClean upstream omittedReportCodes met.1 met.2) :
    NightsListed upstream omittedReportCodes guild nights g
      (listNights requestCap upstream guild nights g).1
      (listNights requestCap upstream guild nights g).2 := by
  induction nights generalizing g with
  | nil =>
    exact ⟨Searches.refl g, fun _ _ night hnight => absurd hnight not_mem_nil,
      fun hnext => (by cases hnext)⟩
  | cons night rest ih =>
    unfold metNights at hmet
    unfold listNights
    dsimp only at hmet
    have hnight := nightListed requestCap upstream omittedReportCodes guild night
      (requestCap - g.budgeted.scan.historyRequests) 1 g hread
      (fun met hin => hmet met (mem_append_left _ hin))
    have hlater := fun met hin => hmet met (mem_append_right _ hin)
    generalize listNight requestCap upstream guild night _ 1 g = listed at hnight hlater ⊢
    obtain ⟨g', next⟩ := listed
    dsimp only at hnight hlater ⊢
    cases next with
    | guildDone =>
      exact ⟨hnight.searches, fun hnext => (by cases hnext), hnight.refused⟩
    | searchDone =>
      exact ⟨hnight.searches, fun hnext => (by cases hnext), hnight.refused⟩
    | goOn =>
      dsimp only at hlater ⊢
      have hrest := ih g' (hnight.searches.carries.scanned hread) hlater
      refine ⟨hnight.searches.trans hrest.searches, fun hon hreadable other hother => ?_,
        hrest.refused⟩
      rcases mem_cons.mp hother with rfl | hother
      · obtain ⟨-, hlisted⟩ := hnight.listed rfl
        exact (hlisted (hrest.searches.readable hreadable)).mono hrest.searches.carries.requests
      · exact hrest.listed hon hreadable other hother

variable {targets : List (VerifiedKill × Instant)}

theorem exists_nightWindow {target : VerifiedKill × Instant} (htarget : target ∈ targets) :
    ∃ night ∈ nightWindows targets, night.1 ≤ target.2 - attendanceReportLeadMs ∧
      target.2 + reportCoverSlackMs ≤ night.2 := by
  rw [nightWindows_eq]
  exact exists_night (mem_map_of_mem (f := fun target => (target.2 : ℤ)) htarget)

/-! Every guild. -/

theorem recoveryTargets_spec {verifiedKills : List VerifiedKill} {spans : List ReportSpan}
    (h : (guild, targets) ∈
      (recoveryTargets (uncoveredVerifiedKills verifiedKills spans)).entries)
    {target : VerifiedKill × Instant} (htarget : target ∈ targets) :
    target.1.guild = guild ∧ target.1.at_ = some target.2 := by
  have hwanted : ∀ wanted ∈ uncoveredVerifiedKills verifiedKills spans,
      wanted.1.at_ = some wanted.2 := by
    intro wanted hmem
    obtain ⟨verified, -, hsome⟩ := mem_filterMap.mp hmem
    obtain ⟨at_, hat, hkept⟩ := Option.bind_eq_some_iff.mp hsome
    split at hkept
    · cases hkept
    · obtain rfl := Option.some.inj hkept
      exact hat
  generalize uncoveredVerifiedKills verifiedKills spans = uncovered at h hwanted
  unfold recoveryTargets at h
  rw [OrderedMap.mem_entries_iff] at h
  have hall : ∀ (uncovered : List (VerifiedKill × Instant))
      (m : OrderedMap Guild (List (VerifiedKill × Instant))),
      (∀ wanted ∈ uncovered, wanted.1.at_ = some wanted.2) →
      (∀ guild targets, m.get? guild = some targets → ∀ target ∈ targets,
        target.1.guild = guild ∧ target.1.at_ = some target.2) →
      ∀ guild targets, (uncovered.foldl (fun targets wanted =>
        targets.set wanted.1.guild ((targets.get? wanted.1.guild).getD [] ++ [wanted]))
          m).get? guild = some targets →
      ∀ target ∈ targets, target.1.guild = guild ∧ target.1.at_ = some target.2 := by
    intro uncovered
    induction uncovered with
    | nil => exact fun m _ hm => hm
    | cons wanted rest ih =>
      intro m hat hm
      apply ih _ (fun other hother => hat other (mem_cons_of_mem _ hother))
      intro guild targets hget target htarget
      rw [OrderedMap.get?_set] at hget
      split at hget
      · next hguild =>
        obtain rfl := Option.some.inj hget
        rcases mem_append.mp htarget with hbefore | hnew
        · cases hprior : m.get? wanted.1.guild with
          | none =>
            rw [hprior] at hbefore
            exact absurd hbefore not_mem_nil
          | some prior =>
            rw [hprior] at hbefore
            rw [hguild]
            exact hm _ prior hprior target hbefore
        · obtain rfl := mem_singleton.mp hnew
          exact ⟨hguild.symm, hat target mem_cons_self⟩
      · exact hm guild targets hget target htarget
  exact hall uncovered .empty hwanted (fun guild targets hget => by cases hget) guild targets h
    target htarget

variable {upstream omittedReportCodes} in
theorem SearchedFor.mono {requests : List HistoryRequest} {verified : VerifiedKill}
    (h : SearchedFor upstream omittedReportCodes requests verified) (hsub : requests ⊆ requests') :
    SearchedFor upstream omittedReportCodes requests' verified := by
  rcases h with ⟨night, number, hasked, hrefused⟩ | ⟨at_, night, hat, hstart, hfinish, hlisted⟩
  · exact .inl ⟨night, number, hsub hasked, hrefused⟩
  · exact .inr ⟨at_, night, hat, hstart, hfinish, hlisted.mono hsub⟩

theorem searchedFor_of_guild {next : Next}
    (hnights : NightsListed upstream omittedReportCodes guild (nightWindows targets) g g' next)
    (hnext : next ≠ .searchDone)
    (htargets : ∀ target ∈ targets, target.1.guild = guild ∧ target.1.at_ = some target.2) :
    ∀ verified ∈ searchedEmptyOf g' targets,
      SearchedFor upstream omittedReportCodes g'.budgeted.requests verified := by
  intro verified hverified
  unfold searchedEmptyOf at hverified
  split at hverified
  · exact absurd hverified not_mem_nil
  · next hopen =>
    push Not at hopen
    obtain ⟨target, hkept, rfl⟩ := mem_map.mp hverified
    have htarget := (mem_filter.mp hkept).1
    obtain ⟨hguild, hat⟩ := htargets target htarget
    cases next with
    | searchDone => exact absurd rfl hnext
    | guildDone =>
      left
      rw [hguild]
      exact hnights.refused rfl (Bool.eq_true_of_not_eq_false hopen.1)
    | goOn =>
      right
      obtain ⟨night, hnight, hstart, hfinish⟩ := exists_nightWindow htarget
      refine ⟨target.2, night, hat, hstart, hfinish, ?_⟩
      rw [hguild]
      exact hnights.listed rfl (Bool.eq_false_of_not_eq_true hopen.2) night hnight

theorem searchGuilds_cons (guild : Guild) (targets : List (VerifiedKill × Instant))
    (rest : List (Guild × List (VerifiedKill × Instant))) (r : AttendanceRecovery) :
    searchGuilds requestCap upstream ((guild, targets) :: rest) r =
      let search := listNights requestCap upstream guild (nightWindows targets) r.search
      if search.2 = .searchDone then { r.add search.1 [] with searchedEmpty := r.searchedEmpty }
      else searchGuilds requestCap upstream rest
        (r.add search.1 (searchedEmptyOf search.1 targets)) := rfl

theorem searchedFor_searchGuilds (wanted : List (Guild × List (VerifiedKill × Instant)))
    (r : AttendanceRecovery) (hread : ScannedRead r.budgeted)
    (hwanted : ∀ guild targets, (guild, targets) ∈ wanted → ∀ target ∈ targets,
      target.1.guild = guild ∧ target.1.at_ = some target.2)
    (hmet : ∀ met ∈ metGuilds requestCap upstream wanted r,
      MetClean upstream omittedReportCodes met.1 met.2)
    (hsofar : ∀ verified ∈ r.searchedEmpty,
      SearchedFor upstream omittedReportCodes r.budgeted.requests verified) :
    ∀ verified ∈ (searchGuilds requestCap upstream wanted r).searchedEmpty,
      SearchedFor upstream omittedReportCodes
        (searchGuilds requestCap upstream wanted r).budgeted.requests verified := by
  induction wanted generalizing r with
  | nil => exact hsofar
  | cons first rest ih =>
    obtain ⟨guild, targets⟩ := first
    unfold metGuilds at hmet
    rw [searchGuilds_cons]
    dsimp only at hmet ⊢
    have hnights := nightsListed requestCap upstream omittedReportCodes guild
      (nightWindows targets) r.search hread
      (fun met hin => hmet met (mem_append_left _ hin))
    have hlater := fun met hin => hmet met (mem_append_right _ hin)
    generalize listNights requestCap upstream guild (nightWindows targets) r.search =
      search at hnights hlater ⊢
    have hgrown := hnights.searches.carries.requests
    by_cases hdone : search.2 = .searchDone
    · rw [if_pos hdone]
      exact fun verified hverified => (hsofar verified hverified).mono hgrown
    · rw [if_neg hdone] at hlater ⊢
      refine ih _ (hnights.searches.carries.scanned hread)
        (fun guild targets hin => hwanted guild targets (mem_cons_of_mem _ hin)) hlater ?_
      intro verified hverified
      rcases mem_append.mp hverified with hbefore | hnew
      · exact (hsofar verified hbefore).mono hgrown
      · exact searchedFor_of_guild upstream omittedReportCodes hnights hdone
          (hwanted guild targets mem_cons_self) verified hnew

def metByRecovery (verifiedKills : List VerifiedKill) (spans : List ReportSpan)
    (b : Budgeted) : List (GuildSearch × String) :=
  metGuilds requestCap upstream
    (recoveryTargets (uncoveredVerifiedKills verifiedKills spans)).entries
    { budgeted := b, searched := false, recoveredKills := 0, searchedEmpty := [] }

theorem searchedFor_recoverFromAttendance (verifiedKills : List VerifiedKill)
    (spans : List ReportSpan) (b : Budgeted) (hread : ScannedRead b)
    (hmet : ∀ met ∈ metByRecovery requestCap upstream verifiedKills spans b,
      MetClean upstream omittedReportCodes met.1 met.2) :
    ∀ verified ∈
        (recoverFromAttendance requestCap upstream verifiedKills spans b).searchedEmpty,
      SearchedFor upstream omittedReportCodes
        (recoverFromAttendance requestCap upstream verifiedKills spans b).budgeted.requests
        verified :=
  searchedFor_searchGuilds requestCap upstream omittedReportCodes _
    { budgeted := b, searched := false, recoveredKills := 0, searchedEmpty := [] } hread
    (fun _ _ hin _ htarget => recoveryTargets_spec hin htarget) hmet
    (fun _ hverified => absurd hverified not_mem_nil)

end SlashWho.HistoryRecovery

namespace SlashWho.FirstKillCollection

open List EvidenceMerge HistoryScan HistoryRecovery

/-! The whole run. -/

@[simp] theorem noteBoundary_scannedReportCodes (s : ScanState) (page : ℕ)
    (boundary : Option String) :
    (s.noteBoundary page boundary).scannedReportCodes = s.scannedReportCodes := by
  cases boundary <;> rfl

/-- A page read marks as read only the reports of a cleanly decoded page. -/
theorem scanPage_scanned (options : ScanOptions) (page : ℕ) (read : PageRead) (s : ScanState) :
    ∀ code ∈ (scanPage options page read s).1.scannedReportCodes,
      code ∈ s.scannedReportCodes ∨ (HistoryRequest.page page read).Reads code := by
  intro code hcode
  cases read with
  | limitation refusal => exact .inl hcode
  | success value =>
    unfold scanPage at hcode
    dsimp only at hcode
    cases hdecoded : value.decoded with
    | limitation refusal =>
      rw [hdecoded] at hcode
      exact .inl hcode
    | evidence kills wipes omitted limited =>
      rw [hdecoded] at hcode
      cases limited with
      | some refusal => exact .inl hcode
      | none =>
        have hmarked : code ∈ s.scannedReportCodes ++ value.reportCodes := by
          dsimp only at hcode
          split at hcode
          · exact hcode
          · split at hcode
            · exact hcode
            · split at hcode
              · simpa [ScanState.addEvidence] using hcode
              · split at hcode
                · simpa [ScanState.addEvidence] using hcode
                · split at hcode
                  · simpa [ScanState.addEvidence] using hcode
                  · simpa [ScanState.addEvidence] using hcode
        rcases mem_append.mp hmarked with hbefore | hnew
        · exact .inl hbefore
        · exact .inr ⟨⟨kills, wipes, omitted, hdecoded⟩, hnew⟩

theorem scanPages_scanned (options : ScanOptions) (readPage : ℕ → PageRead)
    (requests page : ℕ) (s : ScanState) :
    ∀ code ∈ (scanPages options readPage requests page s).scannedReportCodes,
      code ∈ s.scannedReportCodes ∨
        ∃ request ∈ pageRequests (pagesRead options readPage requests page s),
          request.Reads code := by
  induction requests generalizing page s with
  | zero => exact fun code hcode => .inl hcode
  | succ requests ih =>
    intro code hcode
    unfold scanPages at hcode
    unfold pagesRead pageRequests
    have hpage := scanPage_scanned options page (readPage page) s
    rcases hstep : scanPage options page (readPage page) s with ⟨next, on⟩
    rw [hstep] at hcode hpage
    cases on with
    | false =>
      rcases hpage code hcode with hbefore | hreads
      · exact .inl hbefore
      · exact .inr ⟨_, mem_cons_self, hreads⟩
    | true =>
      rcases ih (page + 1) next code hcode with hsofar | ⟨request, hmem, hreads⟩
      · rcases hpage code hsofar with hbefore | hreads
        · exact .inl hbefore
        · exact .inr ⟨_, mem_cons_self, hreads⟩
      · exact .inr ⟨request, mem_cons_of_mem _ hmem, hreads⟩

theorem probeEntry_scanned {options : ScanOptions} {upstream : Upstream} {startPage : ℕ}
    {s : ScanState} (h : probeEntry options upstream = .ok (startPage, s)) :
    ∀ code ∈ s.scannedReportCodes,
      ∃ request ∈ probeRequests options upstream, request.Reads code := by
  have hstart : (entry options).2.scannedReportCodes = [] := by
    unfold entry
    split <;> rfl
  intro code hcode
  unfold probeEntry probeBoundary at h
  by_cases hprobes : probes options
  · have hrequests : probeRequests options upstream =
        [.page ((entry options).1 - 1) upstream.probe] := if_pos hprobes
    have hcond : options.requestCap > 0 ∧ (entry options).1 > 1 ∧
        (entry options).2.resumeBoundaryReportCode.isSome = true := hprobes
    rw [if_pos hcond] at h
    dsimp only at h
    cases hread : upstream.probe with
    | limitation refusal =>
      rw [hread] at h
      cases h
    | success value =>
      rw [hread] at h hrequests
      dsimp only at h
      cases hdecoded : value.decoded with
      | limitation refusal =>
        rw [hdecoded] at h
        cases h
      | evidence kills wipes omitted limited =>
        rw [hdecoded, hstart] at h
        dsimp only at h
        cases limited with
        | some refusal => cases h
        | none =>
          rw [if_neg (by simp)] at h
          have hmarked : code ∈ value.reportCodes := by
            split at h
            · obtain ⟨-, rfl⟩ := Prod.mk.inj (Except.ok.inj h)
              exact hcode
            · obtain ⟨-, rfl⟩ := Prod.mk.inj (Except.ok.inj h)
              exact hcode
          refine ⟨.page ((entry options).1 - 1) (.success value), ?_,
            ⟨kills, wipes, omitted, hdecoded⟩, hmarked⟩
          rw [hrequests]
          exact mem_singleton_self _
  · have hcond : ¬ (options.requestCap > 0 ∧ (entry options).1 > 1 ∧
        (entry options).2.resumeBoundaryReportCode.isSome = true) := hprobes
    rw [if_neg hcond] at h
    obtain ⟨-, rfl⟩ := Prod.mk.inj (Except.ok.inj h)
    rw [hstart] at hcode
    exact absurd hcode not_mem_nil

theorem scannedRead_scanUpstream {options : ScanOptions} {upstream : Upstream}
    {scan : ScanState} {resumed : Bool}
    (h : scanUpstream options upstream = .historyScan scan resumed) :
    ScannedRead ⟨scan, scanRequests options upstream⟩ := by
  unfold scanUpstream at h
  cases hentry : probeEntry options upstream with
  | error result =>
    rw [hentry] at h
    cases h
  | ok entered =>
    obtain ⟨startPage, s⟩ := entered
    rw [hentry] at h
    obtain ⟨rfl, -⟩ := ScanOutcome.historyScan.inj h
    intro code hcode
    have hlimit : (limitByBudget options (scanPages options upstream.page
        (options.requestCap - s.historyRequests) startPage s)).scannedReportCodes =
        (scanPages options upstream.page (options.requestCap - s.historyRequests) startPage
          s).scannedReportCodes := by
      unfold limitByBudget
      split <;> rfl
    rw [hlimit] at hcode
    rw [scanRequests_of_ok hentry]
    rcases scanPages_scanned options upstream.page _ startPage s code hcode with
      hprobed | ⟨request, hmem, hreads⟩
    · obtain ⟨request, hmem, hreads⟩ := probeEntry_scanned hentry code hprobed
      exact ⟨request, mem_append_left _ hmem, hreads⟩
    · exact ⟨request, mem_append_right _ hmem, hreads⟩

/-- The reports the attendance search of a run meets. -/
def metByRun (options : FirstKillOptions) (upstream : Upstream) : List (GuildSearch × String) :=
  match scanUpstream options.toScanOptions upstream with
  | .ended _ => []
  | .historyScan scan resumedFromCursor =>
    metByRecovery options.requestCap upstream options.verifiedKills
      ((scanRequests options.toScanOptions upstream).flatMap (HistoryRequest.spans upstream))
      (rereadStoredReports options.requestCap upstream options.storedKillReportCodes
        resumedFromCursor ⟨scan, scanRequests options.toScanOptions upstream⟩)

theorem attendanceSearchedEmpty_eq {options : FirstKillOptions} {later : LaterWork}
    {recovery : AttendanceRecovery} {resumed : Bool} {result : EvidenceResult}
    (h : reportResult options later recovery resumed = .evidence result) :
    result.attendanceSearchedEmpty = recovery.searchedEmpty := by
  unfold reportResult at h
  dsimp only at h
  split at h
  · obtain rfl := ReportResult.evidence.inj h
    rfl
  · split at h
    · obtain rfl := ReportResult.evidence.inj h
      rfl
    · split at h
      · cases h
      · cases h
      · obtain rfl := ReportResult.evidence.inj h
        rfl

/-- In a run whose attendance search meets every report cleanly, a verified kill
reported as searched for in vain was searched for: its guild does not exist, or its
night was listed to the last page and every report listed was read to its end. -/
theorem attendanceSearchedEmpty_searchedFor (options : FirstKillOptions) (upstream : Upstream)
    (later : LaterWork) (omittedReportCodes : HistoryPage → List String)
    (hmet : ∀ met ∈ metByRun options upstream,
      MetClean upstream omittedReportCodes met.1 met.2) :
    ∀ result, (collectFirstKillReports options upstream later).1 = .evidence result →
      ∀ verified ∈ result.attendanceSearchedEmpty,
        SearchedFor upstream omittedReportCodes
          (collectFirstKillReports options upstream later).2 verified := by
  intro result hresult
  unfold collectFirstKillReports at hresult ⊢
  unfold metByRun at hmet
  cases hscan : scanUpstream options.toScanOptions upstream with
  | ended ended =>
    rw [hscan] at hresult
    cases ended with
    | limitation code => cases hresult
    | evidence kills wipes omitted limited =>
      obtain rfl := ReportResult.evidence.inj hresult
      exact fun verified hverified => absurd hverified not_mem_nil
  | historyScan scan resumed =>
    rw [hscan] at hresult hmet
    dsimp only at hresult hmet ⊢
    rw [attendanceSearchedEmpty_eq hresult]
    have hread := (carries_rereadStoredReports options.requestCap upstream
      options.storedKillReportCodes resumed _).scanned (scannedRead_scanUpstream hscan)
    exact searchedFor_recoverFromAttendance options.requestCap upstream omittedReportCodes
      options.verifiedKills _ _ hread hmet

/-! A night with one report listed, and a kill of that night to look for. -/

def raiders : Guild := ⟨"raiders", "silvermoon", "eu"⟩

def wantedKill : VerifiedKill := ⟨some 1000000000, raiders⟩

def listedReport (answer : DecodedPage) : Upstream :=
  { twoPages with
    report := fun _ => answer
    guildReports := fun _ _ _ => .success (some ⟨["listed"], false⟩) }

def wantedOptions : FirstKillOptions := { twoPageOptions 10 with verifiedKills := [wantedKill] }

/-- A kill of another night, stored from the report listed. -/
def otherKill : MythicKill where
  raidId := "1"
  raidName := "raid"
  bossId := "1"
  bossName := "boss"
  journalBossId := none
  killedAt := 0
  fightUrl := "listed#fight=1"
  historicWorldRank := none
  historicRankCheckedAt := none
  performance := ⟨none, .unavailable, .unavailable, .unavailable⟩

/-- The stored report is read again before the search, so that the search skips it. -/
def rereadOptions : FirstKillOptions :=
  { wantedOptions with storedKills := [otherKill], storedKillReportCodes := ["listed"] }

theorem attendanceSearchedEmpty_searchedFor_decoded :
    ∃ result, (collectFirstKillReports wantedOptions (listedReport (.evidence [] [] false none))
        noLaterWork).1 = .evidence result ∧ wantedKill ∈ result.attendanceSearchedEmpty ∧
      SearchedFor (listedReport (.evidence [] [] false none)) (fun _ => [])
        (collectFirstKillReports wantedOptions (listedReport (.evidence [] [] false none))
          noLaterWork).2 wantedKill := by
  refine ⟨_, rfl, mem_singleton_self _, attendanceSearchedEmpty_searchedFor wantedOptions
    (listedReport (.evidence [] [] false none)) noLaterWork (fun _ => []) ?_ _ rfl wantedKill
      (mem_singleton_self _)⟩
  intro met hmet
  obtain rfl := mem_singleton.mp hmet
  refine .inr ?_
  rw [if_neg (by decide)]
  rfl

/-- The report was refused for now when it was read again; the search skips it, and the
kill is reported as searched for in vain. -/
theorem refused_reread_reported :
    ¬ ∀ result, (collectFirstKillReports rereadOptions (listedReport (.limitation .transient))
        noLaterWork).1 = .evidence result →
      ∀ verified ∈ result.attendanceSearchedEmpty,
        SearchedFor (listedReport (.limitation .transient)) (fun _ => [])
          (collectFirstKillReports rereadOptions (listedReport (.limitation .transient))
            noLaterWork).2 verified := by
  intro hall
  have hspoilt : ∀ request ∈ (collectFirstKillReports rereadOptions
      (listedReport (.limitation .transient)) noLaterWork).2, request.Reads "listed" →
      request.Spoils (listedReport (.limitation .transient)) (fun _ => []) "listed" := by
    intro request hmem hreads
    cases request with
    | report code => exact ⟨hreads, rfl⟩
    | guildReports guild night number => exact hreads.elim
    | page number read =>
      -- the two history pages name another report
      change HistoryRequest.page number read ∈ [.page 1 (.success (twoPage 1)),
        .page 2 (.success (twoPage 2)), .report "listed", .guildReports raiders _ 1] at hmem
      simp only [mem_cons, not_mem_nil, or_false, reduceCtorEq,
        HistoryRequest.page.injEq] at hmem
      rcases hmem with ⟨rfl, rfl⟩ | ⟨rfl, rfl⟩
      · exact absurd hreads.2 (by decide)
      · exact absurd hreads.2 (by decide)
  have hunsettled : ¬ Settled (listedReport (.limitation .transient)) (fun _ => [])
      (collectFirstKillReports rereadOptions (listedReport (.limitation .transient))
        noLaterWork).2 "listed" := by
    rintro ⟨request, hmem, hreads, hclean⟩
    exact hclean (hspoilt request hmem hreads)
  rcases hall _ rfl wantedKill (mem_singleton_self _) with
    ⟨night, number, -, hrefused⟩ | ⟨at_, night, -, -, -, hlisted⟩
  · cases hrefused
  · cases hlisted with
    | last _ hread hsettled _ =>
      obtain rfl := Option.some.inj (ListingRead.success.inj hread)
      exact hunsettled (hsettled "listed" mem_cons_self)
    | more _ hread hsettled _ _ =>
      obtain rfl := Option.some.inj (ListingRead.success.inj hread)
      exact hunsettled (hsettled "listed" mem_cons_self)

end SlashWho.FirstKillCollection
