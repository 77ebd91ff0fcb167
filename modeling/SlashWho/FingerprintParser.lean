import Mathlib.Algebra.Order.Ring.Rat
import SlashWho.OrderedMap

/-!
Reading an achievements body into a fingerprint, on the calling thread and on a parser thread, which
runs a program of its own, kept as source text, and answers with a flat array that the calling
thread builds the map from. Decoding a body and parsing its text is the runtime's, and may throw.
JSON can spell a number past the largest one. The sign of a zero is left out.
-/

namespace SlashWho.FingerprintParser

inductive Number
  | finite (value : ℚ)
  | infinite (negative : Bool)
  deriving DecidableEq

inductive Value
  | null
  | bool (value : Bool)
  | number (value : Number)
  | string (value : String)
  | array (items : List Value)
  | object (fields : List (String × Value))

abbrev AchievementFingerprint := OrderedMap ℚ ℚ

def record : Option Value → Option (List (String × Value))
  | some (.object fields) => some fields
  | _ => none

def finiteNumber : Option Value → Option ℚ
  | some (.number (.finite value)) => some value
  | _ => none

/-- One turn of the loop over the achievements. -/
def setAchievement (fingerprint : AchievementFingerprint) (achievement : Value) :
    AchievementFingerprint :=
  let entry := record (some achievement)
  let id := entry.bind (fun entry => finiteNumber (entry.lookup "id"))
  let timestamp := entry.bind (fun entry => finiteNumber (entry.lookup "completed_timestamp"))
  match id, timestamp with
  | some id, some timestamp => fingerprint.set id timestamp
  | _, _ => fingerprint

def fingerprintFromResponse (value : Value) : Option AchievementFingerprint :=
  match record (some value) with
  | none => none
  | some response =>
    match response.lookup "achievements" with
    | some (.array achievements) => some (achievements.foldl setAchievement OrderedMap.empty)
    | _ => none

/-- What a body says, where decoding and parsing it does not throw. -/
def fingerprintFromBytes {Body : Type*} (decode : Body → Option Value) (body : Body) :
    Option AchievementFingerprint :=
  match decode body with
  | some value => fingerprintFromResponse value
  | none => none

def isRecord : Value → Bool
  | .object _ => true
  | _ => false

/-- `value[name]`, of a value that is a record. -/
def property (value : Value) (name : String) : Option Value :=
  match value with
  | .object fields => fields.lookup name
  | _ => none

/-- One turn of the thread's loop over its source. -/
def pushPair (pairs : List ℚ) (entry : Value) : List ℚ :=
  if !isRecord entry then pairs
  else
    match property entry "id", property entry "completed_timestamp" with
    | some (.number (.finite achievementId)), some (.number (.finite timestamp)) =>
      pairs ++ [achievementId, timestamp]
    | _, _ => pairs

/-- The thread's answer to a body, `null` for one of another shape. -/
def reply {Body : Type*} (decode : Body → Option Value) (body : Body) : Option (List ℚ) :=
  match decode body with
  | none => none
  | some response =>
    if !isRecord response then none
    else
      match property response "achievements" with
      | some (.array source) => some (source.foldl pushPair [])
      | _ => none

/-- The map of an answer, its numbers read two by two. -/
def setPairs (fingerprint : AchievementFingerprint) : List ℚ → AchievementFingerprint
  | id :: timestamp :: rest => setPairs (fingerprint.set id timestamp) rest
  | _ => fingerprint

/-- What a parse resolves with on a thread's answer. -/
def fingerprintFromReply (pairs : Option (List ℚ)) : Option AchievementFingerprint :=
  pairs.map (setPairs OrderedMap.empty)

/-- The id and the timestamp of an achievement that has both. -/
def achievementPair (achievement : Value) : Option (ℚ × ℚ) :=
  match record (some achievement) with
  | none => none
  | some entry =>
    match finiteNumber (entry.lookup "id"), finiteNumber (entry.lookup "completed_timestamp") with
    | some id, some timestamp => some (id, timestamp)
    | _, _ => none

theorem setAchievement_eq (fingerprint : AchievementFingerprint) (achievement : Value) :
    setAchievement fingerprint achievement =
      ((achievementPair achievement).elim fingerprint fun p => fingerprint.set p.1 p.2) := by
  unfold setAchievement achievementPair
  cases record (some achievement) with
  | none => rfl
  | some entry =>
    dsimp only [Option.bind_some]
    cases finiteNumber (entry.lookup "id") with
    | none => rfl
    | some id =>
      cases finiteNumber (entry.lookup "completed_timestamp") with
      | none => rfl
      | some timestamp => rfl

theorem pushPair_eq (pairs : List ℚ) (entry : Value) :
    pushPair pairs entry =
      ((achievementPair entry).elim pairs fun p => pairs ++ [p.1, p.2]) := by
  unfold pushPair achievementPair
  cases entry with
  | object fields =>
    rw [if_neg (by simp [isRecord])]
    dsimp only [record, property]
    rcases fields.lookup "id" with _ | ⟨_ | _ | (_ | _) | _ | _ | _⟩
    all_goals rcases fields.lookup "completed_timestamp" with _ | ⟨_ | _ | (_ | _) | _ | _ | _⟩
    all_goals rfl
  | _ => rfl

theorem foldl_pushPair (source : List Value) (pairs : List (ℚ × ℚ)) :
    source.foldl pushPair (pairs.flatMap fun p => [p.1, p.2]) =
      (pairs ++ source.filterMap achievementPair).flatMap fun p => [p.1, p.2] := by
  induction source generalizing pairs with
  | nil => rw [List.filterMap_nil, List.append_nil, List.foldl_nil]
  | cons entry rest ih =>
    rw [List.foldl_cons, pushPair_eq]
    cases hpair : achievementPair entry with
    | none =>
      rw [List.filterMap_cons_none hpair]
      exact ih pairs
    | some p =>
      rw [List.filterMap_cons_some hpair]
      have hnext := ih (pairs ++ [p])
      rw [List.flatMap_append, List.append_assoc] at hnext
      exact hnext

theorem setPairs_flatMap (pairs : List (ℚ × ℚ)) (fingerprint : AchievementFingerprint) :
    setPairs fingerprint (pairs.flatMap fun p => [p.1, p.2]) =
      pairs.foldl (fun m p => m.set p.1 p.2) fingerprint := by
  induction pairs generalizing fingerprint with
  | nil => rfl
  | cons p rest ih => exact ih (fingerprint.set p.1 p.2)

theorem foldl_setAchievement (achievements : List Value) (fingerprint : AchievementFingerprint) :
    achievements.foldl setAchievement fingerprint =
      (achievements.filterMap achievementPair).foldl (fun m p => m.set p.1 p.2) fingerprint := by
  induction achievements generalizing fingerprint with
  | nil => rfl
  | cons achievement rest ih =>
    rw [List.foldl_cons, setAchievement_eq, ih]
    cases hpair : achievementPair achievement with
    | none => rw [List.filterMap_cons_none hpair]; rfl
    | some p => rw [List.filterMap_cons_some hpair]; rfl

theorem fingerprintFromReply_reply {Body : Type*} (decode : Body → Option Value) (body : Body) :
    fingerprintFromReply (reply decode body) = fingerprintFromBytes decode body := by
  unfold reply fingerprintFromBytes
  cases decode body with
  | none => rfl
  | some response =>
    dsimp only
    unfold fingerprintFromResponse
    cases response with
    | object fields =>
      rw [if_neg (by simp [isRecord])]
      dsimp only [record, property]
      cases fields.lookup "achievements" with
      | none => rfl
      | some value =>
        cases value with
        | array source =>
          have hpairs := foldl_pushPair source []
          rw [List.flatMap_nil, List.nil_append] at hpairs
          change some (setPairs OrderedMap.empty (source.foldl pushPair [])) = _
          rw [hpairs, setPairs_flatMap]
          exact congrArg some (foldl_setAchievement source OrderedMap.empty).symm
        | _ => rfl
    | _ => rfl

end SlashWho.FingerprintParser
