import SlashWho.ReportDecoding

/-!
Reading one page of a character's report history in two requests. The page comes
without actors; the actors of the reports that hold a Mythic encounter follow in
one reply and are spliced in, and the other reports are given none. What decodes
from the two is what decodes from a page that carried every report's actors.
-/

namespace SlashWho.HistoryPageRead

open Characters HistoryScan JsonNarrowing ReportDecoding

inductive GraphqlResult
  | success (value : Json)
  | limitation (code : LimitationCode)

variable (value : Json)

def recentReportsOf : Option Fields :=
  let envelope := record (some value)
  let data := record (andField envelope "data")
  let characterData := record (andField data "characterData")
  let character := record (andField characterData "character")
  record (andField character "recentReports")

def recentReportsData : List Json :=
  (array (andField (recentReportsOf value) "data")).getD []

def isMythicDifficulty : Option Json → Bool
  | some (.number value) => value = mythicDifficulty
  | _ => false

def isMythicEncounter (fightValue : Json) : Bool :=
  match record (some fightValue) with
  | none => false
  | some fight =>
    (positiveInteger (fight.lookup "encounterID")).isSome &&
      isMythicDifficulty (fight.lookup "difficulty")

/-- Whether a report holds a fight that could become evidence. -/
def holdsMythicEncounter (report : Fields) : Bool :=
  ((array (report.lookup "fights")).getD []).any isMythicEncounter

/-- The codes of the reports whose actors are wanted, in the order they are met. -/
def wantedCodes : List String :=
  ((recentReportsData value).filterMap fun reportValue => do
    let report ← record (some reportValue)
    let code ← nonEmptyString (report.lookup "code")
    guard (holdsMythicEncounter report)
    return code).eraseDups

/-- The reply's object for the report asked for at an index, under its alias. -/
def replyReport (reply : Json) (index : ℕ) : Option Fields :=
  let data := record (andField (record (some reply)) "data")
  let reportData := record (andField data "reportData")
  record (andField reportData ("report" ++ toString index))

def repliedMasterData (reply : Json) (index : ℕ) (code : String) : Option Fields := do
  let report ← replyReport reply index
  let masterData ← record (report.lookup "masterData")
  guard (nonEmptyString (report.lookup "code") = some code)
  guard (array (masterData.lookup "actors")).isSome
  return masterData

def actorsByCode (reply : Json) (wanted : List String) : OrderedMap String Fields :=
  .ofList (wanted.zipIdx.filterMap fun asked =>
    (repliedMasterData reply asked.2 asked.1).map fun masterData => (asked.1, masterData))

/-- The records a page nests its reports in, outermost first. -/
structure PageRecords where
  envelope : Fields
  data : Fields
  characterData : Fields
  character : Fields
  recentReports : Fields
  reports : List Json

def pageRecords : Option PageRecords := do
  let envelope ← record (some value)
  let data ← record (envelope.lookup "data")
  let characterData ← record (data.lookup "characterData")
  let character ← record (characterData.lookup "character")
  let recentReports ← record (character.lookup "recentReports")
  let reports ← array (recentReports.lookup "data")
  return { envelope, data, characterData, character, recentReports, reports }

/-- The page with other reports, every field around them spread as it was. -/
def PageRecords.setReports (page : PageRecords) (reports : List Json) : PageRecords :=
  let recentReports := setEntry "data" (Json.array reports) page.recentReports
  let character := setEntry "recentReports" (Json.object recentReports) page.character
  let characterData := setEntry "character" (Json.object character) page.characterData
  let data := setEntry "characterData" (Json.object characterData) page.data
  let envelope := setEntry "data" (Json.object data) page.envelope
  { envelope, data, characterData, character, recentReports, reports }

def mapReports (f : Json → Json) (value : Json) : Json :=
  match pageRecords value with
  | none => value
  | some page => .object (page.setReports (page.reports.map f)).envelope

def withMasterData (report masterData : Fields) : Json :=
  .object (setEntry "masterData" (.object masterData) report)

def spliceActors (actorsByCode : OrderedMap String Fields) (reportValue : Json) : Json :=
  match record (some reportValue) with
  | none => reportValue
  | some report =>
    if holdsMythicEncounter report then
      match (nonEmptyString (report.lookup "code")).bind actorsByCode.get? with
      | none => reportValue
      | some masterData => withMasterData report masterData
    else withMasterData report [("actors", .array [])]

def withActors (actorsByCode : OrderedMap String Fields) : Json :=
  mapReports (spliceActors actorsByCode) value

/-- One page, from the answer to its query and the answers to a query for actors. -/
def readHistoryPage (page : GraphqlResult) (loadActors : List String → GraphqlResult) :
    GraphqlResult :=
  match page with
  | .limitation code => .limitation code
  | .success value =>
    let wanted := wantedCodes value
    if wanted = [] then .success (withActors value .empty)
    else
      match loadActors wanted with
      | .limitation code => .limitation code
      | .success reply => .success (withActors value (actorsByCode reply wanted))

/-- A report as the page's own query answers it, which asks for no `masterData`. -/
def omitActors (reportValue : Json) : Json :=
  match record (some reportValue) with
  | none => reportValue
  | some report => .object (omitField "masterData" report)

def withoutActors (full : Json) : Json := mapReports omitActors full

/-- Each report asked for is answered with its code and with the actors it has on the full page. -/
def AnswersFor (full : Json) (wanted : List String) (reply : Json) : Prop :=
  ∀ index code, wanted[index]? = some code →
    ∃ answer masterData actors,
      replyReport reply index = some answer ∧
      nonEmptyString (answer.lookup "code") = some code ∧
      answer.lookup "masterData" = some (.object masterData) ∧
      masterData.lookup "actors" = some (.array actors) ∧
      ∀ report, .object report ∈ recentReportsData full →
        nonEmptyString (report.lookup "code") = some code → reportActors report = some actors

theorem pageRecords_setReports (page : PageRecords) (reports : List Json) :
    pageRecords (.object (page.setReports reports).envelope) = some (page.setReports reports) := by
  simp [pageRecords, PageRecords.setReports, lookup_setEntry]

theorem recentReportsData_of_pageRecords {value : Json} {page : PageRecords}
    (h : pageRecords value = some page) : recentReportsData value = page.reports := by
  simp only [pageRecords, Option.bind_eq_bind, Option.bind_eq_some_iff] at h
  obtain ⟨envelope, henvelope, data, hdata, characterData, hcharacterData, character, hcharacter,
    recentReports, hrecent, reports, hreports, hpage⟩ := h
  cases hpage
  simp only [recentReportsData, recentReportsOf, henvelope, andField_some, hdata, hcharacterData,
    hcharacter, hrecent, hreports, Option.getD_some]

variable (runtime : Runtime) (key : CharacterKey)

theorem firstKillReports_of_pageRecords {value : Json} {page : PageRecords}
    (h : pageRecords value = some page) :
    firstKillReports runtime key (some value) =
      if (nonEmptyString (andField (record (page.character.lookup "server"))
          "normalizedName")).isSome ∧
        (boolean (page.recentReports.lookup "has_more_pages")).isSome then
        decodeReports runtime key page.reports
      else .limitation .schemaDrift := by
  simp only [pageRecords, Option.bind_eq_bind, Option.bind_eq_some_iff] at h
  obtain ⟨envelope, henvelope, data, hdata, characterData, hcharacterData, character, hcharacter,
    recentReports, hrecent, reports, hreports, hpage⟩ := h
  cases hpage
  have hobject := record_eq_some_iff.mp hcharacter
  simp only [firstKillReports, henvelope, andField_some, hdata, hcharacterData, hobject,
    record_object, hrecent, hreports]
  cases hrealm : nonEmptyString (andField (record (character.lookup "server"))
    "normalizedName") with
  | none => simp
  | some realm =>
    cases hmore : boolean (recentReports.lookup "has_more_pages") with
    | none => simp
    | some more => simp

theorem recentReportsData_of_pageRecords_none {value : Json} (h : pageRecords value = none) :
    recentReportsData value = [] := by
  simp only [recentReportsData, recentReportsOf]
  cases henvelope : record (some value) with
  | none => rfl
  | some envelope =>
    cases hdata : record (envelope.lookup "data") with
    | none => simp [hdata, andField, array]
    | some data =>
      cases hcharacterData : record (data.lookup "characterData") with
      | none => simp [hdata, hcharacterData, andField, array]
      | some characterData =>
        cases hcharacter : record (characterData.lookup "character") with
        | none => simp [hdata, hcharacterData, hcharacter, andField, array]
        | some character =>
          cases hrecent : record (character.lookup "recentReports") with
          | none => simp [hdata, hcharacterData, hcharacter, hrecent, andField, array]
          | some recentReports =>
            cases hreports : array (recentReports.lookup "data") with
            | none => simp [hdata, hcharacterData, hcharacter, hrecent, hreports]
            | some reports =>
              simp [pageRecords, henvelope, hdata, hcharacterData, hcharacter, hrecent,
                hreports] at h

/-- What reports are mapped to is all that a decode of the mapped page can differ in. -/
theorem firstKillReports_mapReports {f : Json → Json} {value : Json}
    (h : ∀ report ∈ recentReportsData value, ∀ d,
      decodeReport runtime key d (f report) = decodeReport runtime key d report) :
    firstKillReports runtime key (some (mapReports f value)) =
      firstKillReports runtime key (some value) := by
  cases hpage : pageRecords value with
  | none => simp only [mapReports, hpage]
  | some page =>
    rw [recentReportsData_of_pageRecords hpage] at h
    have hsame : decodeReports runtime key (page.reports.map f) =
        decodeReports runtime key page.reports := by
      rw [decodeReports, decodeReports, List.foldlM_map,
        Fallible.foldlM_congr fun report hin d => h report hin d]
    simp only [mapReports, hpage]
    rw [firstKillReports_of_pageRecords runtime key (pageRecords_setReports page _),
      firstKillReports_of_pageRecords runtime key hpage]
    simp [PageRecords.setReports, lookup_setEntry, hsame]

theorem recentReportsData_mapReports (f : Json → Json) (value : Json) :
    recentReportsData (mapReports f value) = (recentReportsData value).map f := by
  cases hpage : pageRecords value with
  | none => simp [mapReports, hpage, recentReportsData_of_pageRecords_none hpage]
  | some page =>
    simp only [mapReports, hpage]
    rw [recentReportsData_of_pageRecords (pageRecords_setReports page _),
      recentReportsData_of_pageRecords hpage]
    simp [PageRecords.setReports]

theorem mapReports_mapReports (f g : Json → Json) (value : Json) :
    mapReports g (mapReports f value) = mapReports (fun report => g (f report)) value := by
  cases hpage : pageRecords value with
  | none => simp only [mapReports, hpage]
  | some page =>
    simp only [mapReports, hpage, pageRecords_setReports]
    simp [PageRecords.setReports, setEntry_setEntry, Function.comp_def]

theorem isMythicDifficulty_of_safeInteger {value : Option Json}
    (h : safeInteger value = some mythicDifficulty) : isMythicDifficulty value = true := by
  rcases value with _ | ⟨_ | _ | number | _ | _ | _⟩
  case some.number =>
    simp only [safeInteger] at h
    split at h
    · next hsafe =>
      simp only [Option.some.injEq] at h
      have hnumber : number = mythicDifficulty := by
        rw [← h, Rat.coe_int_num_of_den_eq_one hsafe.1]
      simp [isMythicDifficulty, hnumber]
    · cases h
  all_goals cases h

variable {report : Fields}

theorem not_mythic_of_not_holds {fights : List Json} (head : ReportHead)
    (hfights : array (report.lookup "fights") = some fights)
    (h : holdsMythicEncounter report = false) :
    ∀ fightValue ∈ fights, ∀ fight, readFight head fightValue = .boss fight →
      fight.difficulty ≠ mythicDifficulty := by
  intro fightValue hin fight hread hmythic
  obtain ⟨fields, hfields, hencounter, hdifficulty⟩ := boss_of_readFight hread
  have hholds : isMythicEncounter fightValue = true := by
    rw [hmythic] at hdifficulty
    simp [isMythicEncounter, hfields, hencounter, isMythicDifficulty_of_safeInteger hdifficulty]
  have hany : holdsMythicEncounter report = true := by
    rw [holdsMythicEncounter, hfights]
    exact List.any_eq_true.mpr ⟨fightValue, hin, hholds⟩
  rw [h] at hany
  cases hany

theorem decodeReport_of_not_holds {report' : Fields} (d : Decoded)
    (hsame : ∀ field, field ≠ "masterData" → report'.lookup field = report.lookup field)
    (h : holdsMythicEncounter report = false) (hactors : (reportActors report).isSome)
    (hactors' : (reportActors report').isSome) :
    decodeReport runtime key d (.object report') = decodeReport runtime key d (.object report) := by
  obtain ⟨actors, hsome⟩ := Option.isSome_iff_exists.mp hactors
  obtain ⟨actors', hsome'⟩ := Option.isSome_iff_exists.mp hactors'
  simp only [decodeReport, record_object, reportHead_eq_of_lookup runtime hsame, hsome, hsome',
    hsame "fights" (by decide)]
  cases hhead : reportHead runtime report with
  | none => rfl
  | some head =>
    cases hfights : array (report.lookup "fights") with
    | none => rfl
    | some fights =>
      dsimp only
      have hother := not_mythic_of_not_holds head hfights h
      rw [foldlM_decodeFight_of_not_mythic runtime hother,
        foldlM_decodeFight_of_not_mythic runtime hother (participantIds runtime key actors)]

theorem holdsMythicEncounter_omitField (report : Fields) :
    holdsMythicEncounter (omitField "masterData" report) = holdsMythicEncounter report := by
  simp [holdsMythicEncounter, lookup_omitField]

variable {full : Json} {code : String}

/-- The code of a report that holds a Mythic encounter is wanted, with or without its actors. -/
theorem mem_wantedCodes (hin : .object report ∈ recentReportsData full)
    (hcode : nonEmptyString (report.lookup "code") = some code)
    (hholds : holdsMythicEncounter report = true) : code ∈ wantedCodes (withoutActors full) := by
  rw [wantedCodes, List.mem_eraseDups, withoutActors, recentReportsData_mapReports,
    List.mem_filterMap]
  refine ⟨omitActors (.object report), List.mem_map_of_mem hin, ?_⟩
  simp [omitActors, lookup_omitField, hcode, holdsMythicEncounter_omitField, hholds]

theorem repliedMasterData_of_answersFor {reply : Json} {wanted : List String} {index : ℕ}
    (hanswers : AnswersFor full wanted reply) (hasked : wanted[index]? = some code) :
    ∃ masterData, repliedMasterData reply index code = some masterData ∧
      ∀ report, .object report ∈ recentReportsData full →
        nonEmptyString (report.lookup "code") = some code →
        array (masterData.lookup "actors") = reportActors report := by
  obtain ⟨answer, masterData, actors, hreply, hcode, hmaster, hactors, hfull⟩ :=
    hanswers index code hasked
  refine ⟨masterData, ?_, ?_⟩
  · simp [repliedMasterData, hreply, hcode, hmaster, hactors]
  · intro report hin hreport
    rw [hfull report hin hreport, hactors, array_array]

/-- A wanted code is filed with the actors its reports have on the full page. -/
theorem get?_actorsByCode {reply : Json} {wanted : List String}
    (hanswers : AnswersFor full wanted reply) (hwanted : code ∈ wanted)
    (hin : .object report ∈ recentReportsData full)
    (hcode : nonEmptyString (report.lookup "code") = some code) :
    ∃ masterData, (actorsByCode reply wanted).get? code = some masterData ∧
      array (masterData.lookup "actors") = reportActors report := by
  obtain ⟨index, hindex⟩ := List.mem_iff_getElem?.mp hwanted
  obtain ⟨answered, hanswered, -⟩ := repliedMasterData_of_answersFor hanswers hindex
  have hkey : code ∈ (actorsByCode reply wanted).keys := by
    rw [actorsByCode, OrderedMap.mem_keys_ofList]
    apply List.mem_map.mpr
    refine ⟨(code, answered), List.mem_filterMap.mpr ⟨(code, index), ?_, ?_⟩, rfl⟩
    · exact List.mem_zipIdx_iff_getElem?.mpr hindex
    · simp [hanswered]
  obtain ⟨masterData, hget⟩ := (OrderedMap.mem_keys_iff _ code).mp hkey
  refine ⟨masterData, hget, ?_⟩
  -- the entry filed last for the code was replied for one of the indices that asked for it
  have hentry := OrderedMap.mem_of_mem_entries_ofList ((OrderedMap.mem_entries_iff _ _ _).mpr hget)
  obtain ⟨asked, hasked, hreplied⟩ := List.mem_filterMap.mp hentry
  obtain ⟨own, hown, heq⟩ := Option.map_eq_some_iff.mp hreplied
  cases heq
  obtain ⟨again, hagain, hactors⟩ :=
    repliedMasterData_of_answersFor hanswers (List.mem_zipIdx_iff_getElem?.mp hasked)
  rw [hown] at hagain
  cases hagain
  exact hactors report hin hcode

/-- A report spliced after the split read decodes as the full page's own. -/
theorem decodeReport_splice {found : OrderedMap String Fields} {reportValue : Json}
    (d : Decoded)
    (hactors : ∀ report, reportValue = .object report → (reportActors report).isSome)
    (hfound : ∀ report code, reportValue = .object report →
      nonEmptyString (report.lookup "code") = some code → holdsMythicEncounter report = true →
      ∃ masterData, found.get? code = some masterData ∧
        array (masterData.lookup "actors") = reportActors report) :
    decodeReport runtime key d (spliceActors found (omitActors reportValue)) =
      decodeReport runtime key d reportValue := by
  cases hrecord : record (some reportValue) with
  | none => simp only [omitActors, hrecord, spliceActors]
  | some report =>
    have hobject : reportValue = .object report := by
      simpa using record_eq_some_iff.mp hrecord
    subst hobject
    have hmapped : ∀ masterData field, field ≠ "masterData" →
        (setEntry "masterData" (Json.object masterData)
          (omitField "masterData" report)).lookup field = report.lookup field := by
      intro masterData field hfield
      simp [lookup_setEntry, lookup_omitField, hfield]
    simp only [omitActors, record_object, spliceActors, holdsMythicEncounter_omitField]
    by_cases hholds : holdsMythicEncounter report = true
    · rw [if_pos hholds]
      have hlookup : (omitField "masterData" report).lookup "code" = report.lookup "code" := by
        simp [lookup_omitField]
      cases hcode : nonEmptyString (report.lookup "code") with
      | none =>
        have hhead : reportHead runtime (omitField "masterData" report) = none := by
          apply reportHead_of_code_none
          rw [hlookup, hcode]
        simp only [hlookup, hcode, Option.bind_none]
        rw [decodeReport_of_head_none runtime key d hhead,
          decodeReport_of_head_none runtime key d (reportHead_of_code_none runtime hcode)]
      | some code =>
        obtain ⟨masterData, hget, hactors'⟩ := hfound report code rfl hcode hholds
        simp only [hlookup, hcode, Option.bind_some, hget, withMasterData]
        apply decodeReport_eq_of_lookup runtime key d (hmapped masterData)
        rw [← hactors']
        simp [reportActors, lookup_setEntry]
    · rw [if_neg hholds, withMasterData]
      apply decodeReport_of_not_holds runtime key d (hmapped _)
        (Bool.eq_false_of_not_eq_true hholds) (hactors report rfl)
      simp [reportActors, lookup_setEntry]

/-- A page read in two requests decodes as the page that carries every report's actors. -/
theorem readHistoryPage_decodesFullPage (full : Json)
    (loadActors : List String → GraphqlResult) (reply : Json)
    (hactors : ∀ report, .object report ∈ recentReportsData full →
      (reportActors report).isSome)
    (hreply : wantedCodes (withoutActors full) ≠ [] →
      loadActors (wantedCodes (withoutActors full)) = .success reply)
    (hanswers : AnswersFor full (wantedCodes (withoutActors full)) reply) :
    ∃ value, readHistoryPage (.success (withoutActors full)) loadActors = .success value ∧
      firstKillReports runtime key (some value) = firstKillReports runtime key (some full) := by
  have hsplice : ∀ found : OrderedMap String Fields,
      (∀ report code, .object report ∈ recentReportsData full →
        nonEmptyString (report.lookup "code") = some code → holdsMythicEncounter report = true →
        ∃ masterData, found.get? code = some masterData ∧
          array (masterData.lookup "actors") = reportActors report) →
      firstKillReports runtime key (some (withActors (withoutActors full) found)) =
        firstKillReports runtime key (some full) := by
    intro found hfound
    rw [withActors, withoutActors, mapReports_mapReports]
    apply firstKillReports_mapReports
    intro reportValue hin d
    apply decodeReport_splice
    · intro report hobject
      exact hactors report (hobject ▸ hin)
    · intro report code hobject hcode hholds
      exact hfound report code (hobject ▸ hin) hcode hholds
  by_cases hnone : wantedCodes (withoutActors full) = []
  · refine ⟨withActors (withoutActors full) .empty, ?_, hsplice _ ?_⟩
    · simp only [readHistoryPage, if_pos hnone]
    intro report code hin hcode hholds
    have hwanted := mem_wantedCodes hin hcode hholds
    rw [hnone] at hwanted
    cases hwanted
  · refine ⟨withActors (withoutActors full)
      (actorsByCode reply (wantedCodes (withoutActors full))), ?_, hsplice _ ?_⟩
    · simp only [readHistoryPage, if_neg hnone, hreply hnone]
    intro report code hin hcode hholds
    exact get?_actorsByCode hanswers (mem_wantedCodes hin hcode hholds) hin hcode

def asciiRuntime : Runtime where
  lower := String.toLower
  lettersAndNumbers := fun value => String.ofList (value.toList.filter Char.isAlphanum)
  encodeURIComponent := id
  toISOString := toString
  localeCompare := compare
  isNonRaidZone := fun zone => zone.startsWith "Mythic+ Season"

def bossFight (difficulty : ℚ) : Json :=
  .object [("id", .number 1), ("encounterID", .number 2902), ("name", .string "Boss"),
    ("startTime", .number 60000), ("endTime", .number 360000), ("kill", .bool true),
    ("difficulty", .number difficulty), ("friendlyPlayers", .array [.number 7])]

def sentinelActors : List Json :=
  [.object [("id", .number 7), ("name", .string "Sentinel"), ("server", .string "Silvermoon"),
    ("type", .string "Player")]]

def sentinelMasterData : Json := .object [("actors", .array sentinelActors)]

def raidReport (code : String) (difficulty : ℚ) : Fields :=
  [("code", .string code), ("startTime", .number 1736800000000), ("guild", .null),
    ("zone", .object [("id", .number 38), ("name", .string "Nerub-ar Palace")]),
    ("fights", .array [bossFight difficulty]), ("masterData", sentinelMasterData)]

def historyPage (reports : List Fields) : Json :=
  .object [("data", .object [("characterData", .object [("character", .object [
    ("server", .object [("normalizedName", .string "silvermoon")]),
    ("recentReports", .object [("data", .array (reports.map .object)),
      ("has_more_pages", .bool false)])])])])]

/-- The actors of the one report asked for. -/
def actorsReply (code : String) : Json :=
  .object [("data", .object [("reportData", .object [("report0",
    .object [("code", .string code), ("masterData", sentinelMasterData)])])])]

def sentinel : CharacterKey := ⟨.eu, "silvermoon", "sentinel"⟩

def twoReports : Json := historyPage [raidReport "mythic" 5, raidReport "heroic" 4]

theorem wantedCodes_twoReports : wantedCodes (withoutActors twoReports) = ["mythic"] := by
  decide

theorem reportActors_twoReports (report : Fields)
    (h : .object report ∈ recentReportsData twoReports) :
    reportActors report = some sentinelActors := by
  change _ ∈ [Json.object (raidReport "mythic" 5), .object (raidReport "heroic" 4)] at h
  simp only [List.mem_cons, Json.object.injEq, List.not_mem_nil, or_false] at h
  rcases h with rfl | rfl <;> rfl

theorem answersFor_twoReports : AnswersFor twoReports ["mythic"] (actorsReply "mythic") := by
  intro index code hcode
  obtain ⟨rfl, rfl⟩ : index = 0 ∧ code = "mythic" := by
    cases index with
    | zero => simpa [eq_comm] using hcode
    | succ index => simp at hcode
  exact ⟨_, _, sentinelActors, rfl, rfl, rfl, rfl, fun report hin _ =>
    reportActors_twoReports report hin⟩

theorem readHistoryPage_decodesFullPage_twoReports :
    ∃ value, readHistoryPage (.success (withoutActors twoReports))
        (fun _ => .success (actorsReply "mythic")) = .success value ∧
      firstKillReports asciiRuntime sentinel (some value) =
        firstKillReports asciiRuntime sentinel (some twoReports) :=
  readHistoryPage_decodesFullPage asciiRuntime sentinel twoReports _ (actorsReply "mythic")
    (fun report hin => by rw [reportActors_twoReports report hin]; rfl) (fun _ => rfl)
    (by rw [wantedCodes_twoReports]; exact answersFor_twoReports)

end SlashWho.HistoryPageRead
