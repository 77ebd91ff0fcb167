import SlashWho.RankingDecode

/-!
Whom a decoded report ranks. A row is kept exactly where the answer lists, under a metric
and a fight that was asked about, a character of the requested name, realm and region; and
of the percentiles kept for a fight and metric the highest is the one written.
-/

namespace SlashWho.RankedRows

open List

open Characters EvidenceMerge Fallible JsonNarrowing ParsePlan RankingDecode ReportDecoding

theorem narrowed_ok {α : Type} {value : Option α} {found : α} (h : narrowed value = .ok found) :
    value = some found := by
  unfold narrowed at h
  cases value with
  | none => cases h
  | some a =>
    cases h
    rfl

/-- The report an answer holds. -/
def reportOf (value : Json) : Option Fields := do
  let envelope ← record (some value)
  let data ← record (envelope.lookup "data")
  let reportData ← record (data.lookup "reportData")
  record (reportData.lookup "report")

/-- Where an answer lists a character: under a metric, in a row of a fight that was asked
about, in one of its roles. -/
inductive Listed (value : Json) (scope : ParseGroup) (metric : MetricName) (fightId : ℕ)
    (characterValue : Json) : Prop
  | intro {report metricValue metricRow encounter roles role : Fields}
      {metricRows characters : List Json} {metricRowValue : Json} {encounterId difficulty : ℕ}
      {roleName : String}
      (reports : reportOf value = some report)
      (hasMetric : record (report.lookup (metricField metric)) = some metricValue)
      (hasRows : array (metricValue.lookup "data") = some metricRows)
      (row : metricRowValue ∈ metricRows)
      (narrows : record (some metricRowValue) = some metricRow)
      (fight : positiveInteger (metricRow.lookup "fightID") = some fightId)
      (hasEncounter : record (metricRow.lookup "encounter") = some encounter)
      (encounterIs : positiveInteger (encounter.lookup "id") = some encounterId)
      (difficultyIs : positiveInteger (metricRow.lookup "difficulty") = some difficulty)
      (expected : isExpected scope fightId encounterId difficulty = true)
      (hasRoles : record (metricRow.lookup "roles") = some roles)
      (inRole : roleName ∈ ["tanks", "healers", "dps"])
      (hasRole : record (roles.lookup roleName) = some role)
      (hasCharacters : array (role.lookup "characters") = some characters)
      (lists : characterValue ∈ characters)

variable (runtime : Runtime)

/-- The answer ranks the requested character in a fight, with a percentile for a metric. -/
def RankedIn (value : Json) (scope : ParseGroup) (requestedKey : CharacterKey)
    (metric : MetricName) (fightId : ℕ) (percentile : Percentile) : Prop :=
  ∃ characterValue identity character, Listed value scope metric fightId characterValue ∧
    rankingIdentity characterValue = .ok identity ∧
    isRequested runtime requestedKey identity = true ∧
    record (some characterValue) = some character ∧
    rankPercent (character.lookup "rankPercent") = some percentile

variable {value : Json} {scope : ParseGroup}

structure RowOf (metric : MetricName) (fightId : ℕ) (characterValue : Json)
    (identity : RankingIdentity) (row : RankingRow) : Prop where
  identified : rankingIdentity characterValue = .ok identity
  metricIs : row.metric = metric
  fightIs : row.fightId = fightId
  characterIs : row.characterId = identity.id
  percentileIs : ∃ character, record (some characterValue) = some character ∧
    row.percentile = rankPercent (character.lookup "rankPercent")

/-- Every row read is that of a listed character, whose identity is kept under its id. -/
def Sound (value : Json) (scope : ParseGroup) (ranked : Ranked) : Prop :=
  ∀ row ∈ ranked.rows, ∃ characterValue identity,
    Listed value scope row.metric row.fightId characterValue ∧
      RowOf row.metric row.fightId characterValue identity row ∧
      ranked.identities.get? identity.id = some identity

/-- The identities are kept under their own ids. -/
def Filed (ranked : Ranked) : Prop := ranked.identities.FiledBy RankingIdentity.id

/-- The row of a listed character is among those read, its identity under its id. -/
def Holds (metric : MetricName) (fightId : ℕ) (characterValue : Json) (ranked : Ranked) : Prop :=
  ∃ row ∈ ranked.rows, ∃ identity, RowOf metric fightId characterValue identity row ∧
    ranked.identities.get? identity.id = some identity

variable {characterValue : Json}

theorem identity_record {identity : RankingIdentity}
    (h : rankingIdentity characterValue = .ok identity) :
    ∃ character, record (some characterValue) = some character := by
  unfold rankingIdentity at h
  obtain ⟨character, hcharacter, -⟩ := ok_of_bind_ok h
  exact ⟨character, narrowed_ok hcharacter⟩

variable {metric : MetricName} {fightId : ℕ} {ranked ranked' : Ranked}

theorem readCharacter_ok (h : readCharacter metric fightId ranked characterValue = .ok ranked') :
    ∃ identity row, RowOf metric fightId characterValue identity row ∧
      ranked'.rows = ranked.rows ++ [row] ∧
      ranked'.identities = ranked.identities.set identity.id identity ∧
      ∀ known, ranked.identities.get? identity.id = some known → identity.id = known.id →
        known = identity := by
  unfold readCharacter at h
  obtain ⟨identity, hidentity, h⟩ := ok_of_bind_ok h
  obtain ⟨character, hcharacter⟩ := identity_record hidentity
  simp only at h
  cases hknown : ranked.identities.get? identity.id with
  | none =>
    rw [hknown] at h
    cases h
    refine ⟨identity, _, ⟨hidentity, rfl, rfl, rfl, character, hcharacter, ?_⟩, rfl, rfl, ?_⟩
    · rw [hcharacter]
      rfl
    · intro known hsome _
      rw [hknown] at hsome
      cases hsome
  | some known =>
    rw [hknown] at h
    simp only at h
    split at h
    · cases h
    · rename_i hsame
      cases h
      refine ⟨identity, _, ⟨hidentity, rfl, rfl, rfl, character, hcharacter, ?_⟩, rfl, rfl, ?_⟩
      · rw [hcharacter]
        rfl
      · intro other hother hid
        rw [hknown] at hother
        rw [Option.some.inj hother] at hsame
        obtain ⟨id, name, realm, region⟩ := identity
        obtain ⟨id', name', realm', region'⟩ := other
        simp only [Bool.or_eq_true, decide_eq_true_eq, not_or, not_not] at hsame hid
        obtain ⟨⟨hname, hrealm⟩, hregion⟩ := hsame
        rw [hid, hname, hrealm, hregion]

theorem get?_readCharacter (h : readCharacter metric fightId ranked characterValue = .ok ranked')
    (hfiled : Filed ranked) {id : ℕ} {identity : RankingIdentity}
    (hget : ranked.identities.get? id = some identity) :
    ranked'.identities.get? id = some identity := by
  obtain ⟨read, row, -, -, hidentities, hsame⟩ := readCharacter_ok h
  rw [hidentities, OrderedMap.get?_set]
  split
  · rename_i hid
    rw [hid] at hget
    rw [hsame identity hget (hfiled _ _ hget).symm]
  · exact hget

theorem filed_readCharacter (h : readCharacter metric fightId ranked characterValue = .ok ranked')
    (hfiled : Filed ranked) : Filed ranked' := by
  obtain ⟨read, row, -, -, hidentities, -⟩ := readCharacter_ok h
  unfold Filed
  rw [hidentities]
  exact OrderedMap.FiledBy.set hfiled rfl

theorem holds_readCharacter {metric' : MetricName} {fightId' : ℕ} {other : Json}
    (h : readCharacter metric' fightId' ranked other = .ok ranked') (hfiled : Filed ranked)
    (hholds : Holds metric fightId characterValue ranked) :
    Holds metric fightId characterValue ranked' := by
  obtain ⟨row, hrow, identity, hof, hget⟩ := hholds
  obtain ⟨_, _, -, hrows, -, -⟩ := readCharacter_ok h
  refine ⟨row, ?_, identity, hof, get?_readCharacter h hfiled hget⟩
  rw [hrows]
  exact mem_append_left _ hrow

theorem holds_of_readCharacter
    (h : readCharacter metric fightId ranked characterValue = .ok ranked') :
    Holds metric fightId characterValue ranked' := by
  obtain ⟨identity, row, hof, hrows, hidentities, -⟩ := readCharacter_ok h
  refine ⟨row, ?_, identity, hof, ?_⟩
  · rw [hrows]
    exact mem_append_right _ mem_cons_self
  · rw [hidentities, OrderedMap.get?_set, if_pos rfl]

theorem sound_readCharacter (h : readCharacter metric fightId ranked characterValue = .ok ranked')
    (hlisted : Listed value scope metric fightId characterValue) (hfiled : Filed ranked)
    (hsound : Sound value scope ranked) : Sound value scope ranked' := by
  obtain ⟨identity, row, hof, hrows, hidentities, -⟩ := readCharacter_ok h
  intro other hother
  rw [hrows] at hother
  rcases mem_append.mp hother with hin | hin
  · obtain ⟨otherValue, otherIdentity, hlistedOther, hofOther, hget⟩ := hsound other hin
    exact ⟨otherValue, otherIdentity, hlistedOther, hofOther, get?_readCharacter h hfiled hget⟩
  · rw [mem_singleton.mp hin]
    refine ⟨characterValue, identity, ?_, ?_, ?_⟩
    · rw [hof.metricIs, hof.fightIs]
      exact hlisted
    · rw [hof.metricIs, hof.fightIs]
      exact hof
    · rw [hidentities, OrderedMap.get?_set, if_pos rfl]

/-- What a loop over characters keeps, of identities filed under their ids. -/
structure Grows (ranked ranked' : Ranked) : Prop where
  filed : Filed ranked'
  holds : ∀ metric fightId characterValue, Holds metric fightId characterValue ranked →
    Holds metric fightId characterValue ranked'

theorem grows_foldlM {α : Type} {f : Ranked → α → Except Limitation Ranked} {items : List α}
    (hstep : ∀ item ∈ items, ∀ u u', Filed u → f u item = .ok u' → Grows u u')
    (hfiled : Filed ranked) (h : items.foldlM f ranked = .ok ranked') : Grows ranked ranked' := by
  apply foldlM_keeps (P := Grows ranked) _ ⟨hfiled, fun _ _ _ hholds => hholds⟩ h
  intro item hitem u u' hu hu'
  have hnext := hstep item hitem u u' hu.filed hu'
  exact ⟨hnext.filed, fun metric fightId characterValue hholds =>
    hnext.holds _ _ _ (hu.holds _ _ _ hholds)⟩

theorem holds_foldlM {α : Type} {f : Ranked → α → Except Limitation Ranked} {items : List α}
    {item : α} (hitem : item ∈ items)
    (hreach : ∀ u u', Filed u → f u item = .ok u' → Holds metric fightId characterValue u')
    (hstep : ∀ item ∈ items, ∀ u u', Filed u → f u item = .ok u' → Grows u u')
    (hfiled : Filed ranked) (h : items.foldlM f ranked = .ok ranked') :
    Holds metric fightId characterValue ranked' := by
  have hinv : ∀ i ∈ items, ∀ u u', Filed u → f u i = .ok u' → Filed u' :=
    fun i hi u u' hu hu' => (hstep i hi u u' hu hu').filed
  exact foldlM_reaches_of hitem hinv hreach
    (fun i hi u u' hu hholds hu' => (hstep i hi u u' hu hu').holds _ _ _ hholds) hfiled h

theorem sound_foldlM {α : Type} {f : Ranked → α → Except Limitation Ranked} {items : List α}
    (hstep : ∀ item ∈ items, ∀ u u', Filed u → f u item = .ok u' → Grows u u')
    (hsound : ∀ item ∈ items, ∀ u u', Filed u → Sound value scope u → f u item = .ok u' →
      Sound value scope u') (hfiled : Filed ranked) (hstart : Sound value scope ranked)
    (h : items.foldlM f ranked = .ok ranked') : Sound value scope ranked' :=
  (foldlM_keeps (P := fun u => Filed u ∧ Sound value scope u)
    (fun item hitem u u' hu hu' => ⟨(hstep item hitem u u' hu.1 hu').filed,
      hsound item hitem u u' hu.1 hu.2 hu'⟩) ⟨hfiled, hstart⟩ h).2

theorem grows_readCharacter (hfiled : Filed ranked)
    (h : readCharacter metric fightId ranked characterValue = .ok ranked') :
    Grows ranked ranked' :=
  ⟨filed_readCharacter h hfiled, fun _ _ _ hholds => holds_readCharacter h hfiled hholds⟩

theorem readRole_ok {roles : Fields} {roleName : String}
    (h : readRole metric fightId roles ranked roleName = .ok ranked') :
    ∃ role characters, record (roles.lookup roleName) = some role ∧
      array (role.lookup "characters") = some characters ∧
      characters.foldlM (readCharacter metric fightId) ranked = .ok ranked' := by
  unfold readRole at h
  obtain ⟨role, hrole, h⟩ := ok_of_bind_ok h
  obtain ⟨characters, hcharacters, h⟩ := ok_of_bind_ok h
  exact ⟨role, characters, narrowed_ok hrole, narrowed_ok hcharacters, h⟩

theorem grows_readRole {roles : Fields} {roleName : String} (hfiled : Filed ranked)
    (h : readRole metric fightId roles ranked roleName = .ok ranked') : Grows ranked ranked' := by
  obtain ⟨_, _, -, -, hread⟩ := readRole_ok h
  exact grows_foldlM (fun _ _ _ _ hu hu' => grows_readCharacter hu hu') hfiled hread

structure MetricRow (metricRowValue : Json) (metricRow encounter roles : Fields)
    (fightId encounterId difficulty : ℕ) : Prop where
  narrows : record (some metricRowValue) = some metricRow
  fight : positiveInteger (metricRow.lookup "fightID") = some fightId
  hasEncounter : record (metricRow.lookup "encounter") = some encounter
  encounterIs : positiveInteger (encounter.lookup "id") = some encounterId
  difficultyIs : positiveInteger (metricRow.lookup "difficulty") = some difficulty
  hasRoles : record (metricRow.lookup "roles") = some roles

theorem readMetricRow_ok {metricRowValue : Json}
    (h : readMetricRow scope metric ranked metricRowValue = .ok ranked') :
    ∃ metricRow encounter roles fightId encounterId difficulty,
      MetricRow metricRowValue metricRow encounter roles fightId encounterId difficulty ∧
      ((isExpected scope fightId encounterId difficulty = true ∧
          ["tanks", "healers", "dps"].foldlM (readRole metric fightId roles) ranked = .ok ranked') ∨
        (isExpected scope fightId encounterId difficulty = false ∧ ranked' = ranked)) := by
  unfold readMetricRow at h
  obtain ⟨metricRow, hrow, h⟩ := ok_of_bind_ok h
  obtain ⟨fightId, hfight, h⟩ := ok_of_bind_ok h
  obtain ⟨encounter, hencounter, h⟩ := ok_of_bind_ok h
  obtain ⟨encounterId, hencounterId, h⟩ := ok_of_bind_ok h
  obtain ⟨difficulty, hdifficulty, h⟩ := ok_of_bind_ok h
  obtain ⟨roles, hroles, h⟩ := ok_of_bind_ok h
  refine ⟨metricRow, encounter, roles, fightId, encounterId, difficulty,
    ⟨narrowed_ok hrow, narrowed_ok hfight, narrowed_ok hencounter, narrowed_ok hencounterId,
      narrowed_ok hdifficulty, narrowed_ok hroles⟩, ?_⟩
  split at h
  · rename_i hexpected
    exact .inl ⟨hexpected, h⟩
  · rename_i hexpected
    cases h
    exact .inr ⟨Bool.eq_false_iff.mpr hexpected, rfl⟩

theorem grows_readMetricRow {metricRowValue : Json} (hfiled : Filed ranked)
    (h : readMetricRow scope metric ranked metricRowValue = .ok ranked') :
    Grows ranked ranked' := by
  obtain ⟨_, _, _, _, _, _, -, ⟨-, hread⟩ | ⟨-, hsame⟩⟩ := readMetricRow_ok h
  · exact grows_foldlM (fun _ _ _ _ hu hu' => grows_readRole hu hu') hfiled hread
  · rw [hsame]
    exact ⟨hfiled, fun _ _ _ hholds => hholds⟩

variable {report : Fields}

theorem readMetric_ok (h : readMetric scope report ranked metric = .ok ranked') :
    ∃ metricValue metricRows, record (report.lookup (metricField metric)) = some metricValue ∧
      array (metricValue.lookup "data") = some metricRows ∧
      metricRows.foldlM (readMetricRow scope metric) ranked = .ok ranked' := by
  unfold readMetric at h
  obtain ⟨metricValue, hvalue, h⟩ := ok_of_bind_ok h
  obtain ⟨metricRows, hrows, h⟩ := ok_of_bind_ok h
  exact ⟨metricValue, metricRows, narrowed_ok hvalue, narrowed_ok hrows, h⟩

theorem grows_readMetric (hfiled : Filed ranked)
    (h : readMetric scope report ranked metric = .ok ranked') :
    Grows ranked ranked' := by
  obtain ⟨_, _, -, -, hread⟩ := readMetric_ok h
  exact grows_foldlM (fun _ _ _ _ hu hu' => grows_readMetricRow hu hu') hfiled hread

/-- The rows of a metric are those of characters the answer lists under it. -/
theorem sound_readMetric (hreport : reportOf value = some report) (hfiled : Filed ranked)
    (hsound : Sound value scope ranked) (h : readMetric scope report ranked metric = .ok ranked') :
    Sound value scope ranked' := by
  obtain ⟨metricValue, metricRows, hmetric, hrows, hread⟩ := readMetric_ok h
  apply sound_foldlM (fun _ _ _ _ hu hu' => grows_readMetricRow hu hu') _ hfiled hsound hread
  intro metricRowValue hin u u' hu hsoundU hu'
  obtain ⟨metricRow, encounter, roles, fightId, encounterId, difficulty, hrow,
    ⟨hexpected, hroles⟩ | ⟨-, hsame⟩⟩ := readMetricRow_ok hu'
  · apply sound_foldlM (fun _ _ _ _ hv hv' => grows_readRole hv hv') _ hu hsoundU hroles
    intro roleName hroleName v v' hv hsoundV hv'
    obtain ⟨role, characters, hrole, hcharacters, hreadRole⟩ := readRole_ok hv'
    apply sound_foldlM (fun _ _ _ _ hw hw' => grows_readCharacter hw hw') _ hv hsoundV hreadRole
    intro characterValue hcharacter w w' hw hsoundW hw'
    exact sound_readCharacter hw' (.intro hreport hmetric hrows hin hrow.narrows hrow.fight
      hrow.hasEncounter hrow.encounterIs hrow.difficultyIs hexpected hrow.hasRoles hroleName hrole
      hcharacters hcharacter) hw hsoundW
  · rw [hsame]
    exact hsoundU

theorem holds_readMetric (hreport : reportOf value = some report)
    (hlisted : Listed value scope metric fightId characterValue) (hfiled : Filed ranked)
    (h : readMetric scope report ranked metric = .ok ranked') :
    Holds metric fightId characterValue ranked' := by
  obtain ⟨hreports, hhasMetric, hhasRows, hin, hnarrows, hfight, hencounter, hencounterId,
    hdifficulty, hexpected, hroles, hroleName, hrole, hcharacters, hcharacter⟩ := hlisted
  obtain ⟨metricValue, metricRows, hmetric, hrows, hread⟩ := readMetric_ok h
  rw [hreport] at hreports
  rw [← Option.some.inj hreports, hmetric] at hhasMetric
  rw [← Option.some.inj hhasMetric, hrows] at hhasRows
  rw [← Option.some.inj hhasRows] at hin
  apply holds_foldlM hin _ (fun _ _ _ _ hu hu' => grows_readMetricRow hu hu') hfiled hread
  intro u u' hu hu'
  obtain ⟨metricRow, encounter, roles, fightId', encounterId, difficulty, hrow, hcases⟩ :=
    readMetricRow_ok hu'
  -- the fields of one row narrow to one reading
  rw [hrow.narrows] at hnarrows
  rw [← Option.some.inj hnarrows] at hfight hencounter hdifficulty hroles
  rw [hrow.fight] at hfight
  rw [hrow.hasEncounter] at hencounter
  rw [← Option.some.inj hencounter, hrow.encounterIs] at hencounterId
  rw [hrow.difficultyIs] at hdifficulty
  rw [hrow.hasRoles] at hroles
  rw [← Option.some.inj hroles] at hrole
  rw [← Option.some.inj hfight] at hexpected ⊢
  rw [← Option.some.inj hencounterId, ← Option.some.inj hdifficulty] at hexpected
  rcases hcases with ⟨-, hreadRoles⟩ | ⟨hunexpected, -⟩
  · apply holds_foldlM hroleName _ (fun _ _ _ _ hv hv' => grows_readRole hv hv') hu hreadRoles
    intro v v' hv hv'
    obtain ⟨role, characters, hrole', hcharacters', hreadRole⟩ := readRole_ok hv'
    rw [hrole'] at hrole
    rw [← Option.some.inj hrole, hcharacters'] at hcharacters
    rw [← Option.some.inj hcharacters] at hcharacter
    exact holds_foldlM hcharacter (fun _ _ _ hw' => holds_of_readCharacter hw')
      (fun _ _ _ _ hw hw' => grows_readCharacter hw hw') hv hreadRole
  · rw [hunexpected] at hexpected
    cases hexpected

variable {runtime : Runtime} {requestedKey : CharacterKey} {decoded : RankingRows}

/-- A decoded answer was read metric by metric, and kept what is the requested character's. -/
theorem decodeRankingRows_ok
    (h : decodeRankingRows runtime value scope requestedKey = .ok decoded) :
    ∃ report actors ranked, reportOf value = some report ∧
      metrics.foldlM (readMetric scope report) ⟨.empty, []⟩ = .ok ranked ∧
      requestedRows runtime requestedKey actors ranked = .ok decoded := by
  unfold decodeRankingRows at h
  obtain ⟨envelope, henvelope, h⟩ := ok_of_bind_ok h
  obtain ⟨data, hdata, h⟩ := ok_of_bind_ok h
  obtain ⟨reportData, hreportData, h⟩ := ok_of_bind_ok h
  obtain ⟨report, hreport, h⟩ := ok_of_bind_ok h
  obtain ⟨code, -, h⟩ := ok_of_bind_ok h
  simp only at h
  have hreported : reportOf value = some report := by
    unfold reportOf
    simp only [narrowed_ok henvelope, narrowed_ok hdata, narrowed_ok hreportData,
      Option.bind_eq_bind, Option.bind_some]
    exact narrowed_ok hreport
  split at h
  · cases h
  · obtain ⟨actors, -, h⟩ := ok_of_bind_ok h
    obtain ⟨ranked, hranked, h⟩ := ok_of_bind_ok h
    exact ⟨report, actors, ranked, hreported, hranked, h⟩

theorem requestedRows_ok {actors : List Json} {ranked : Ranked}
    (h : requestedRows runtime requestedKey actors ranked = .ok decoded) :
    decoded.identities = ranked.identities.values.filter (isRequested runtime requestedKey) ∧
      decoded.rows = ranked.rows.filter (fun row =>
        row.characterId ∈ decoded.identities.map RankingIdentity.id) := by
  unfold requestedRows at h
  simp only at h
  split at h
  · cases h
  · split at h
    · cases h
    · cases h
      exact ⟨rfl, rfl⟩

theorem filed_start : Filed ⟨.empty, []⟩ := OrderedMap.filedBy_empty _

theorem sound_start (value : Json) (scope : ParseGroup) : Sound value scope ⟨.empty, []⟩ := by
  intro row hrow
  cases hrow

theorem decoded_identities (h : decodeRankingRows runtime value scope requestedKey = .ok decoded) :
    (∀ identity ∈ decoded.identities, isRequested runtime requestedKey identity = true) ∧
      ∀ row ∈ decoded.rows, row.characterId ∈ decoded.identities.map RankingIdentity.id := by
  obtain ⟨_, _, _, -, -, hrequested⟩ := decodeRankingRows_ok h
  obtain ⟨hidentities, hrows⟩ := requestedRows_ok hrequested
  constructor
  · intro identity hidentity
    rw [hidentities] at hidentity
    exact (mem_filter.mp hidentity).2
  · intro row hrow
    rw [hrows] at hrow
    exact of_decide_eq_true (mem_filter.mp hrow).2

/-- A decoded answer keeps a percentile exactly where it ranks the requested character. -/
theorem decoded_rows_iff (h : decodeRankingRows runtime value scope requestedKey = .ok decoded)
    (metric : MetricName) (fightId : ℕ) (percentile : Percentile) :
    (∃ row ∈ decoded.rows, row.metric = metric ∧ row.fightId = fightId ∧
      row.percentile = some percentile) ↔
        RankedIn runtime value scope requestedKey metric fightId percentile := by
  obtain ⟨report, actors, ranked, hreport, hranked, hrequested⟩ := decodeRankingRows_ok h
  obtain ⟨hidentities, hrows⟩ := requestedRows_ok hrequested
  have hgrows : ∀ metric ∈ metrics, ∀ u u', Filed u → readMetric scope report u metric = .ok u' →
      Grows u u' := fun _ _ _ _ hu hu' => grows_readMetric hu hu'
  have hfiled : Filed ranked := (grows_foldlM hgrows filed_start hranked).filed
  constructor
  · intro hrow
    obtain ⟨row, hrow, hmetric, hfight, hpercentile⟩ := hrow
    rw [hrows] at hrow
    obtain ⟨hread, hcharacter⟩ := mem_filter.mp hrow
    have hsound := sound_foldlM hgrows (fun _ _ _ _ hu hsoundU hu' =>
      sound_readMetric hreport hu hsoundU hu') filed_start (sound_start value scope) hranked
    obtain ⟨characterValue, identity, hlisted, hof, hget⟩ := hsound row hread
    obtain ⟨requested, hin, hid⟩ := mem_map.mp (of_decide_eq_true hcharacter)
    rw [hidentities] at hin
    obtain ⟨hvalue, hasked⟩ := mem_filter.mp hin
    -- one id is kept for one identity, so the row is the requested character's
    have hsame : requested = identity := by
      have hother := hfiled.get?_of_mem hvalue
      rw [hid, hof.characterIs, hget] at hother
      exact (Option.some.inj hother).symm
    obtain ⟨character, hrecord, hread⟩ := hof.percentileIs
    rw [hsame] at hasked
    rw [hmetric, hfight] at hlisted
    rw [hpercentile] at hread
    exact ⟨characterValue, identity, character, hlisted, hof.identified, hasked, hrecord,
      hread.symm⟩
  · intro hin
    obtain ⟨characterValue, identity, character, hlisted, hidentified, hasked, hrecord,
      hpercent⟩ := hin
    have hmetric : metric ∈ metrics := by
      cases metric <;> decide
    obtain ⟨row, hrow, read, hof, hget⟩ := holds_foldlM hmetric
      (fun u u' hu hu' => holds_readMetric hreport hlisted hu hu') hgrows filed_start hranked
    have hsame : read = identity := by
      have hboth := hof.identified.symm.trans hidentified
      cases hboth
      rfl
    rw [hsame] at hof hget
    refine ⟨row, ?_, hof.metricIs, hof.fightIs, ?_⟩
    · rw [hrows]
      refine mem_filter.mpr ⟨hrow, decide_eq_true ?_⟩
      rw [hof.characterIs, hidentities]
      refine mem_map_of_mem (mem_filter.mpr ⟨?_, hasked⟩)
      exact (ranked.identities.mem_values_iff identity).mpr ⟨identity.id, hget⟩
    · obtain ⟨other, hother, hpercentile⟩ := hof.percentileIs
      rw [hrecord] at hother
      rw [hpercentile, ← Option.some.inj hother]
      exact hpercent

variable (specIconUrl : String → Option String → Option String) {rows : List RankingRow}
  {requestedIds fightIds : List ℕ}

theorem foldl_addValue_spec (rows : List RankingRow) (requestedIds : List ℕ) (fightId : ℕ)
    (metric : MetricName) :
    (∀ row ∈ rows, ∀ percentile, row.characterId ∈ requestedIds → row.fightId = fightId →
      row.metric = metric → row.percentile = some percentile →
        ∃ highest, (rows.foldl (addValue requestedIds) .empty).get? (fightId, metric) =
          some highest ∧ percentile ≤ highest) ∧
      ∀ highest, (rows.foldl (addValue requestedIds) .empty).get? (fightId, metric) =
        some highest → ∃ row ∈ rows, row.fightId = fightId ∧ row.metric = metric ∧
          row.percentile = some highest := by
  induction rows using List.reverseRecOn with
  | nil =>
    constructor
    · intro row hrow
      cases hrow
    · intro highest hget
      cases hget
  | append_singleton before last ih =>
    obtain ⟨hreached, hkept⟩ := ih
    rw [foldl_append, foldl_cons, foldl_nil]
    generalize before.foldl (addValue requestedIds) .empty = values at hreached hkept ⊢
    have hold : ∀ highest, values.get? (fightId, metric) = some highest →
        ∃ row ∈ before ++ [last], row.fightId = fightId ∧ row.metric = metric ∧
          row.percentile = some highest := by
      intro highest hget
      obtain ⟨row, hrow, hrest⟩ := hkept highest hget
      exact ⟨row, mem_append_left _ hrow, hrest⟩
    unfold addValue
    cases hlast : last.percentile with
    | none =>
      refine ⟨?_, hold⟩
      intro row hrow percentile hcharacter hfight hmetric hpercentile
      rcases mem_append.mp hrow with hin | hin
      · exact hreached row hin percentile hcharacter hfight hmetric hpercentile
      · rw [mem_singleton.mp hin, hlast] at hpercentile
        cases hpercentile
    | some given =>
      simp only
      split
      · rename_i hrequested
        rw [OrderedMap.get?_set]
        by_cases hkey : (fightId, metric) = (last.fightId, last.metric)
        · rw [if_pos hkey]
          obtain ⟨hfightLast, hmetricLast⟩ := Prod.mk.inj hkey
          constructor
          · intro row hrow percentile hcharacter hfight hmetric hpercentile
            refine ⟨_, rfl, ?_⟩
            rcases mem_append.mp hrow with hin | hin
            · obtain ⟨highest, hget, hle⟩ :=
                hreached row hin percentile hcharacter hfight hmetric hpercentile
              rw [← hkey, hget]
              exact le_max_of_le_left hle
            · rw [mem_singleton.mp hin, hlast] at hpercentile
              rw [← Option.some.inj hpercentile]
              exact le_max_right _ _
          · intro highest hget
            rw [← hkey] at hget
            cases hheld : values.get? (fightId, metric) with
            | none =>
              rw [hheld, Option.getD_none, max_self] at hget
              exact ⟨last, mem_append_right _ mem_cons_self, hfightLast.symm,
                hmetricLast.symm, by rw [hlast]; exact hget⟩
            | some held =>
              rw [hheld, Option.getD_some] at hget
              rcases max_choice held given with hmax | hmax
              · rw [hmax] at hget
                exact hold highest (hheld.trans hget)
              · rw [hmax] at hget
                exact ⟨last, mem_append_right _ mem_cons_self, hfightLast.symm,
                  hmetricLast.symm, by rw [hlast]; exact hget⟩
        · rw [if_neg hkey]
          refine ⟨?_, hold⟩
          intro row hrow percentile hcharacter hfight hmetric hpercentile
          rcases mem_append.mp hrow with hin | hin
          · exact hreached row hin percentile hcharacter hfight hmetric hpercentile
          · rw [mem_singleton.mp hin] at hfight hmetric
            rw [hfight, hmetric] at hkey
            exact absurd rfl hkey
      · rename_i hother
        refine ⟨?_, hold⟩
        intro row hrow percentile hcharacter hfight hmetric hpercentile
        rcases mem_append.mp hrow with hin | hin
        · exact hreached row hin percentile hcharacter hfight hmetric hpercentile
        · rw [mem_singleton.mp hin] at hcharacter
          exact absurd hcharacter hother

theorem metric_fightPerformance (values : OrderedMap (ℕ × MetricName) Percentile)
    (specs : OrderedMap ℕ SpecIdentity) (knownClassName : Option String) (fightId : ℕ)
    (metric : MetricName) :
    (fightPerformance specIconUrl values specs knownClassName fightId).metric metric =
      metricOf values fightId metric := by
  cases metric <;> rfl

theorem normalizedPerformance_get? (knownClassName : Option String) {fightId : ℕ}
    (hfight : fightId ∈ fightIds) (hrequested : ∀ row ∈ rows, row.characterId ∈ requestedIds) :
    ∃ performance, (normalizedPerformance specIconUrl rows requestedIds fightIds
        knownClassName).get? fightId = some performance ∧
      ∀ metric percentile, (∃ row ∈ rows, row.metric = metric ∧ row.fightId = fightId ∧
          row.percentile = some percentile) →
        ∃ highest, performance.metric metric = .available highest ∧ percentile ≤ highest ∧
          ∃ row ∈ rows, row.metric = metric ∧ row.fightId = fightId ∧
            row.percentile = some highest := by
  have hget : ∀ f : ℕ → PerformanceValues,
      (OrderedMap.ofList (fightIds.map (fun id => (id, f id)))).get? fightId = some (f fightId) := by
    intro f
    have hfilter := OrderedMap.get?_ofList_filterMap (fun id => some (f id)) fightIds fightId
    rw [if_pos hfight] at hfilter
    rw [← hfilter]
    congr
    exact (congrFun filterMap_eq_map fightIds).symm
  refine ⟨_, hget _, ?_⟩
  intro metric percentile hrow
  obtain ⟨row, hin, hmetric, hfightId, hpercentile⟩ := hrow
  obtain ⟨hreached, hkept⟩ := foldl_addValue_spec rows requestedIds fightId metric
  obtain ⟨highest, hvalue, hle⟩ := hreached row hin percentile (hrequested row hin) hfightId
    hmetric hpercentile
  refine ⟨highest, ?_, hle, ?_⟩
  · rw [metric_fightPerformance]
    unfold metricOf
    rw [hvalue]
  · obtain ⟨other, hother, hotherFight, hotherMetric, hotherPercentile⟩ := hkept highest hvalue
    exact ⟨other, hother, hotherMetric, hotherFight, hotherPercentile⟩

end SlashWho.RankedRows
