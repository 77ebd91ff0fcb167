import SlashWho.ReportDecoding

/-!
Wipes beside kills of the same report and boss. What each fight of a payload says is
read before anything is gathered; the walk gathers the readings up to the first drift.
Read to its end, a page drops the wipes of every boss killed in their report. The exit
on drift drops none, so there such a wipe is returned wherever it was gathered.
-/

namespace SlashWho.ReportWipes

open List Characters HistoryScan JsonNarrowing OrderedMap ReportDecoding

variable (runtime : Runtime)

/-- What one fight says on its own. -/
inductive Reading
  | drift
  | passed
  | omitted (code : String)
  | kill (kill : FirstKillEvidence)
  | wipe (wipe : WipeEvidence)
  deriving DecidableEq

def Reading.kill? : Reading → Option FirstKillEvidence
  | .kill found => some found
  | _ => none

def Reading.wipe? : Reading → Option WipeEvidence
  | .wipe found => some found
  | _ => none

def readBoss (head : ReportHead) (fight : BossFight) : Reading :=
  match evidenceAt head fight with
  | none => .omitted head.code
  | some time =>
    if runtime.isNonRaidZone fight.raidName then .passed
    else
      match fight.bossName with
      | none => .drift
      | some bossName =>
        if time > maxSafeInteger ∨ time > maxDateMilliseconds then .omitted head.code
        else if fight.killed then .kill (killOf runtime head fight bossName time)
        else .wipe (wipeOf runtime head fight bossName time)

def readingOf (head : ReportHead) (participants : List ℕ) (fightValue : Json) : Reading :=
  match readFight head fightValue with
  | .drift => .drift
  | .trash => .passed
  | .boss fight => if attributed participants fight then readBoss runtime head fight else .passed

variable (key : CharacterKey)

/-- The fights of a report, or a drift where the report itself does not narrow. -/
def reportReadings (reportValue : Json) : List Reading :=
  match record (some reportValue) with
  | none => [.drift]
  | some report =>
    match reportHead runtime report, reportActors report, array (report.lookup "fights") with
    | some head, some actors, some fights =>
      fights.map (readingOf runtime head (participantIds runtime key actors))
    | _, _, _ => [.drift]

/-- The reports of a payload whose envelope narrows. -/
def reportsOf (value : Option Json) : Option (List Json) :=
  let characterData := record (andField (record (andField (record value) "data")) "characterData")
  match andField characterData "character" with
  | some .null => none
  | character =>
    let entry := record character
    let recentReports := record (andField entry "recentReports")
    match nonEmptyString (andField (record (andField entry "server")) "normalizedName"),
      array (andField recentReports "data"), boolean (andField recentReports "has_more_pages") with
    | some _, some reports, some _ => some reports
    | _, _, _ => none

/-- Every fight of a payload in the order it is walked. -/
def pageReadings (value : Option Json) : List Reading :=
  ((reportsOf value).getD []).flatMap (reportReadings runtime key)

/-- The readings before the first drift. -/
def beforeDrift (readings : List Reading) : List Reading :=
  readings.takeWhile (fun reading => reading ≠ .drift)

/-- Those no later one of the same fight address stands in for. -/
def lastByUrl {α : Type} [DecidableEq α] (fightUrl : α → String) (items : List α) : List α :=
  items.filter (fun item =>
    items.reverse.find? (fun other => fightUrl other = fightUrl item) = some item)

def SameReportBoss (kill : FirstKillEvidence) (wipe : WipeEvidence) : Prop :=
  wipe.reportUrl = kill.reportUrl ∧ wipe.bossId = kill.bossId

instance (kill : FirstKillEvidence) (wipe : WipeEvidence) : Decidable (SameReportBoss kill wipe) :=
  inferInstanceAs (Decidable (_ ∧ _))

/-- No drift, or before it no kill and wipe of one report and boss. -/
def ReadsSafely (value : Option Json) : Prop :=
  .drift ∉ pageReadings runtime key value ∨
    ∀ kill ∈ lastByUrl FirstKillEvidence.fightUrl
        ((beforeDrift (pageReadings runtime key value)).filterMap Reading.kill?),
      ∀ wipe ∈ lastByUrl WipeEvidence.fightUrl
          ((beforeDrift (pageReadings runtime key value)).filterMap Reading.wipe?),
        ¬ SameReportBoss kill wipe

/-- No returned wipe is of the report and the boss of a returned kill. -/
def Unsuperseded : ReportResult → Prop
  | .limitation _ => True
  | .evidence page => ∀ kill ∈ page.kills, ∀ wipe ∈ page.wipes, ¬ SameReportBoss kill wipe

instance : DecidablePred Unsuperseded
  | .limitation _ => inferInstanceAs (Decidable True)
  | .evidence page =>
    inferInstanceAs (Decidable (∀ kill ∈ page.kills, ∀ wipe ∈ page.wipes,
      ¬ SameReportBoss kill wipe))

def gather (d : Decoded) : Reading → Decoded
  | .drift => d
  | .passed => d
  | .omitted code => d.omit code
  | .kill kill => d.addKill kill
  | .wipe wipe => d.addWipe wipe

def gatherOrDrift (d : Decoded) (reading : Reading) : Except Decoded Decoded :=
  if reading = .drift then .error d else .ok (gather d reading)

theorem decodeFight_eq (head : ReportHead) (participants : List ℕ) (d : Decoded)
    (fightValue : Json) :
    decodeFight runtime head participants d fightValue =
      gatherOrDrift d (readingOf runtime head participants fightValue) := by
  unfold decodeFight readingOf
  cases readFight head fightValue with
  | drift => rfl
  | trash => rfl
  | boss fight =>
    simp only
    by_cases hattributed : attributed participants fight = true
    · rw [if_pos hattributed, if_pos hattributed]
      unfold addFight readBoss
      cases evidenceAt head fight with
      | none => rfl
      | some time =>
        simp only
        by_cases hzone : runtime.isNonRaidZone fight.raidName = true
        · rw [if_pos hzone, if_pos hzone]
          rfl
        · rw [if_neg hzone, if_neg hzone]
          cases fight.bossName with
          | none => rfl
          | some bossName =>
            simp only
            by_cases htime : time > maxSafeInteger ∨ time > maxDateMilliseconds
            · rw [if_pos htime, if_pos htime]
              rfl
            · rw [if_neg htime, if_neg htime]
              by_cases hkilled : fight.killed = true
              · rw [if_pos hkilled, if_pos hkilled]
                rfl
              · rw [if_neg hkilled, if_neg hkilled]
                rfl
    · rw [if_neg hattributed, if_neg hattributed]
      rfl

theorem decodeReport_eq (d : Decoded) (reportValue : Json) :
    decodeReport runtime key d reportValue =
      (reportReadings runtime key reportValue).foldlM gatherOrDrift d := by
  unfold decodeReport reportReadings
  cases record (some reportValue) with
  | none => rfl
  | some report =>
    simp only
    cases reportHead runtime report with
    | none => rfl
    | some head =>
      cases reportActors report with
      | none => rfl
      | some actors =>
        cases array (report.lookup "fights") with
        | none => rfl
        | some fights =>
          simp only
          rw [foldlM_map]
          exact Fallible.foldlM_congr
            (fun fightValue _ d => decodeFight_eq runtime head _ d fightValue) d

theorem foldlM_reports (reports : List Json) (d : Decoded) :
    reports.foldlM (decodeReport runtime key) d =
      (reports.flatMap (reportReadings runtime key)).foldlM gatherOrDrift d := by
  induction reports generalizing d with
  | nil => rfl
  | cons report rest ih =>
    rw [foldlM_cons, flatMap_cons, foldlM_append, decodeReport_eq]
    apply bind_congr
    intro next
    exact ih next

theorem foldlM_gatherOrDrift (readings : List Reading) (d : Decoded) :
    readings.foldlM gatherOrDrift d =
      if .drift ∈ readings then .error ((beforeDrift readings).foldl gather d)
      else .ok ((beforeDrift readings).foldl gather d) := by
  induction readings generalizing d with
  | nil => rfl
  | cons reading rest ih =>
    rw [foldlM_cons]
    unfold gatherOrDrift beforeDrift
    by_cases hdrift : reading = .drift
    · rw [if_pos hdrift, hdrift]
      simp
      rfl
    · rw [if_neg hdrift, takeWhile_cons_of_pos (by simpa using hdrift), foldl_cons]
      have hmem : Reading.drift ∈ reading :: rest ↔ Reading.drift ∈ rest := by
        rw [mem_cons]
        exact or_iff_right (Ne.symm hdrift)
      simp only [hmem]
      exact ih (gather d reading)

theorem decodeReports_eq (reports : List Json) :
    decodeReports runtime key reports =
      if .drift ∈ reports.flatMap (reportReadings runtime key) then
        ((beforeDrift (reports.flatMap (reportReadings runtime key))).foldl gather
          .start).schemaDrift
      else ((beforeDrift (reports.flatMap (reportReadings runtime key))).foldl gather
        .start).evidence runtime := by
  unfold decodeReports
  rw [foldlM_reports, foldlM_gatherOrDrift]
  by_cases hdrift : .drift ∈ reports.flatMap (reportReadings runtime key)
  · rw [if_pos hdrift, if_pos hdrift]
  · rw [if_neg hdrift, if_neg hdrift]

theorem firstKillReports_cases (value : Option Json) :
    (∃ code, firstKillReports runtime key value = .limitation code ∧ reportsOf value = none) ∨
      ∃ reports, reportsOf value = some reports ∧
        firstKillReports runtime key value = decodeReports runtime key reports := by
  unfold firstKillReports reportsOf
  simp only
  generalize andField (record (andField (record (andField (record value) "data"))
    "characterData")) "character" = character
  cases character with
  | none => exact .inl ⟨_, rfl, rfl⟩
  | some character =>
    cases character with
    | object fields =>
      simp only
      cases nonEmptyString (andField (record (andField (record (some (.object fields))) "server"))
        "normalizedName") with
      | none => exact .inl ⟨_, rfl, rfl⟩
      | some name =>
        cases array (andField (record (andField (record (some (.object fields))) "recentReports"))
          "data") with
        | none => exact .inl ⟨_, rfl, rfl⟩
        | some reports =>
          cases boolean (andField (record (andField (record (some (.object fields)))
            "recentReports")) "has_more_pages") with
          | none => exact .inl ⟨_, rfl, rfl⟩
          | some more => exact .inr ⟨reports, rfl, rfl⟩
    | null => exact .inl ⟨_, rfl, rfl⟩
    | bool value => exact .inl ⟨_, rfl, rfl⟩
    | number value => exact .inl ⟨_, rfl, rfl⟩
    | string value => exact .inl ⟨_, rfl, rfl⟩
    | array items => exact .inl ⟨_, rfl, rfl⟩

theorem firstKillReports_eq (value : Option Json) :
    (∃ code, firstKillReports runtime key value = .limitation code ∧
        pageReadings runtime key value = []) ∨
      firstKillReports runtime key value =
        if .drift ∈ pageReadings runtime key value then
          ((beforeDrift (pageReadings runtime key value)).foldl gather .start).schemaDrift
        else ((beforeDrift (pageReadings runtime key value)).foldl gather .start).evidence
          runtime := by
  unfold pageReadings
  rcases firstKillReports_cases runtime key value with ⟨code, hlimited, hnone⟩ |
      ⟨reports, hreports, hdecoded⟩
  · rw [hnone]
    exact .inl ⟨code, hlimited, rfl⟩
  · rw [hreports, hdecoded]
    exact .inr (decodeReports_eq runtime key reports)

theorem mem_values_ofList {α : Type} [DecidableEq α] (fightUrl : α → String) (items : List α)
    {item : α} :
    item ∈ (OrderedMap.ofList (items.map (fun item => (fightUrl item, item)))).values ↔
      item ∈ lastByUrl fightUrl items := by
  have hfiled := filedBy_ofList fightUrl items
  unfold lastByUrl
  rw [mem_filter, decide_eq_true_eq, mem_values_iff]
  constructor
  · intro h
    obtain ⟨url, hget⟩ := h
    have hfound := hget
    rw [← hfiled url item hget, get?_ofList_map] at hfound
    exact ⟨mem_reverse.mp (mem_of_find?_eq_some hfound), hfound⟩
  · intro h
    refine ⟨fightUrl item, ?_⟩
    rw [get?_ofList_map]
    exact h.2

structure Gathered (readings : List Reading) (d : Decoded) : Prop where
  kills : d.kills = .ofList ((readings.filterMap Reading.kill?).map (fun kill =>
    (kill.fightUrl, kill)))
  wipes : d.wipes = .ofList ((readings.filterMap Reading.wipe?).map (fun wipe =>
    (wipe.fightUrl, wipe)))
  killed : ∀ kill ∈ readings.filterMap Reading.kill?,
    reportBoss kill.reportUrl kill.bossId ∈ d.killedByReportBoss

variable {before : List Reading}

theorem Gathered.other {d d' : Decoded} (h : Gathered before d) {reading : Reading}
    (hkill : reading.kill? = none) (hwipe : reading.wipe? = none) (hkills : d'.kills = d.kills)
    (hwipes : d'.wipes = d.wipes) (hkilled : d'.killedByReportBoss = d.killedByReportBoss) :
    Gathered (before ++ [reading]) d' := by
  have hkillsOf : (before ++ [reading]).filterMap Reading.kill? =
      before.filterMap Reading.kill? := by simp [hkill]
  have hwipesOf : (before ++ [reading]).filterMap Reading.wipe? =
      before.filterMap Reading.wipe? := by simp [hwipe]
  refine ⟨?_, ?_, ?_⟩
  · rw [hkillsOf, hkills, h.kills]
  · rw [hwipesOf, hwipes, h.wipes]
  · rw [hkillsOf, hkilled]
    exact h.killed

theorem Gathered.kill {d : Decoded} (h : Gathered before d) (kill : FirstKillEvidence) :
    Gathered (before ++ [.kill kill]) (d.addKill kill) := by
  have hkillsOf : (before ++ [Reading.kill kill]).filterMap Reading.kill? =
      before.filterMap Reading.kill? ++ [kill] := by
    rw [filterMap_append]
    rfl
  have hwipesOf : (before ++ [Reading.kill kill]).filterMap Reading.wipe? =
      before.filterMap Reading.wipe? := by
    rw [filterMap_append]
    exact append_nil _
  refine ⟨?_, ?_, ?_⟩
  · unfold OrderedMap.ofList
    rw [hkillsOf, map_append, setAll_append]
    unfold Decoded.addKill
    rw [h.kills]
    rfl
  · rw [hwipesOf]
    exact h.wipes
  · rw [hkillsOf]
    intro other hother
    unfold Decoded.addKill
    rcases mem_append.mp hother with hin | hin
    · exact mem_cons_of_mem _ (h.killed other hin)
    · rw [mem_singleton.mp hin]
      exact mem_cons_self

theorem Gathered.wipe {d : Decoded} (h : Gathered before d) (wipe : WipeEvidence) :
    Gathered (before ++ [.wipe wipe]) (d.addWipe wipe) := by
  have hkillsOf : (before ++ [Reading.wipe wipe]).filterMap Reading.kill? =
      before.filterMap Reading.kill? := by
    rw [filterMap_append]
    exact append_nil _
  have hwipesOf : (before ++ [Reading.wipe wipe]).filterMap Reading.wipe? =
      before.filterMap Reading.wipe? ++ [wipe] := by
    rw [filterMap_append]
    rfl
  refine ⟨?_, ?_, ?_⟩
  · rw [hkillsOf]
    exact h.kills
  · unfold OrderedMap.ofList
    rw [hwipesOf, map_append, setAll_append]
    unfold Decoded.addWipe
    rw [h.wipes]
    rfl
  · rw [hkillsOf]
    exact h.killed

theorem gathered_foldl (readings : List Reading) :
    Gathered readings (readings.foldl gather .start) := by
  induction readings using List.reverseRecOn with
  | nil => exact ⟨rfl, rfl, fun kill hkill => absurd hkill not_mem_nil⟩
  | append_singleton before reading ih =>
    rw [foldl_append, foldl_cons, foldl_nil]
    generalize before.foldl gather .start = d at ih ⊢
    cases reading with
    | drift => exact ih.other rfl rfl rfl rfl rfl
    | passed => exact ih.other rfl rfl rfl rfl rfl
    | omitted code => exact ih.other rfl rfl rfl rfl rfl
    | kill kill => exact ih.kill kill
    | wipe wipe => exact ih.wipe wipe

variable {readings : List Reading} {d : Decoded}

theorem Gathered.mem_kills (h : Gathered readings d) {kill : FirstKillEvidence} :
    kill ∈ d.kills.values ↔
      kill ∈ lastByUrl FirstKillEvidence.fightUrl (readings.filterMap Reading.kill?) := by
  rw [h.kills, mem_values_ofList]

theorem Gathered.mem_wipes (h : Gathered readings d) {wipe : WipeEvidence} :
    wipe ∈ d.wipes.values ↔
      wipe ∈ lastByUrl WipeEvidence.fightUrl (readings.filterMap Reading.wipe?) := by
  rw [h.wipes, mem_values_ofList]

theorem Gathered.unsuperseded_schemaDrift (h : Gathered readings d) :
    Unsuperseded d.schemaDrift ↔
      ∀ kill ∈ lastByUrl FirstKillEvidence.fightUrl (readings.filterMap Reading.kill?),
        ∀ wipe ∈ lastByUrl WipeEvidence.fightUrl (readings.filterMap Reading.wipe?),
          ¬ SameReportBoss kill wipe := by
  unfold Decoded.schemaDrift
  by_cases hany : d.kills.entries ≠ [] ∨ d.wipes.entries ≠ [] ∨ d.omittedInvalidTimestamp = true
  · rw [if_pos hany]
    constructor
    · intro hpage kill hkill wipe hwipe
      exact hpage kill (h.mem_kills.mpr hkill) wipe (h.mem_wipes.mpr hwipe)
    · intro hpage kill hkill wipe hwipe
      exact hpage kill (h.mem_kills.mp hkill) wipe (h.mem_wipes.mp hwipe)
  · rw [if_neg hany]
    refine iff_of_true trivial ?_
    intro kill hkill
    -- nothing was gathered, so there is no kill
    have hin := h.mem_kills.mpr hkill
    unfold OrderedMap.values at hin
    by_cases hempty : d.kills.entries = []
    · rw [hempty] at hin
      cases hin
    · exact absurd (.inl hempty) hany

theorem Gathered.unsuperseded_evidence (h : Gathered readings d) (runtime : Runtime) :
    Unsuperseded (d.evidence runtime) := by
  intro kill hkill wipe hwipe hsame
  have hin := (mem_insertionSort (killOrder runtime)).mp hkill
  obtain ⟨-, hkept⟩ := mem_filter.mp ((mem_insertionSort (wipeOrder runtime)).mp hwipe)
  rw [decide_eq_true_eq] at hkept
  apply hkept
  rw [hsame.1, hsame.2]
  have hlast := h.mem_kills.mp hin
  exact h.killed kill (mem_of_mem_filter hlast)

/-- Text and times of one raid night, as the runtime gives them. -/
def nightRuntime : Runtime where
  lower := id
  lettersAndNumbers := id
  encodeURIComponent := id
  toISOString := fun time =>
    if time = 1700000060000 then "2023-11-14T22:14:20.000Z" else "2023-11-14T22:15:20.000Z"
  localeCompare := fun a b => compare a b
  isNonRaidZone := fun _ => false

/-- One Mythic fight of player 7 on one boss, a minute after another. -/
def bossFight (id : ℕ) (kill : Bool) : Json :=
  .object [("id", .number id), ("encounterID", .number 3009),
    ("name", .string "Vexie and the Geargrinders"), ("kill", .bool kill),
    ("difficulty", .number 5), ("friendlyPlayers", .array [.number 7]),
    ("startTime", .number 0), ("endTime", .number (60000 * id))]

/-- A report with a wipe, a kill of the same boss, and a fight with no id. -/
def driftingPayload : Json :=
  .object [("data", .object [("characterData", .object [("character", .object [
    ("server", .object [("normalizedName", .string "ragnaros")]),
    ("recentReports", .object [("has_more_pages", .bool false), ("data", .array [.object [
      ("code", .string "aBcDeF"), ("startTime", .number 1700000000000),
      ("zone", .object [("id", .number 42), ("name", .string "Liberation of Undermine")]),
      ("masterData", .object [("actors", .array [.object [("type", .string "Player"),
        ("id", .number 7), ("name", .string "aelia"), ("server", .string "ragnaros")]])]),
      ("fights", .array [bossFight 1 false, bossFight 2 true, .object []])]])])])])])]

/-- The exit on drift returns the wipe beside the kill of its own boss. -/
theorem superseded_on_drift :
    ¬ ∀ (runtime : Runtime) (key : CharacterKey) (value : Option Json),
      Unsuperseded (firstKillReports runtime key value) := by
  intro h
  exact absurd (h nightRuntime ⟨.eu, "ragnaros", "aelia"⟩ (some driftingPayload))
    (by decide +kernel)

/-- A payload returns no superseded wipe exactly where it reads without drift or gathered
no kill and wipe of one report and boss before it. -/
theorem unsuperseded_iff (runtime : Runtime) (key : CharacterKey) (value : Option Json) :
    Unsuperseded (firstKillReports runtime key value) ↔ ReadsSafely runtime key value := by
  unfold ReadsSafely
  rcases firstKillReports_eq runtime key value with ⟨code, hlimited, hnone⟩ | hwalked
  · rw [hlimited, hnone]
    exact iff_of_true trivial (.inl not_mem_nil)
  · rw [hwalked]
    have hgathered := gathered_foldl (beforeDrift (pageReadings runtime key value))
    by_cases hdrift : .drift ∈ pageReadings runtime key value
    · rw [if_pos hdrift, hgathered.unsuperseded_schemaDrift]
      constructor
      · exact .inr
      · intro h
        exact h.resolve_left (fun hclean => hclean hdrift)
    · rw [if_neg hdrift]
      exact iff_of_true (hgathered.unsuperseded_evidence runtime) (.inl hdrift)

end SlashWho.ReportWipes
