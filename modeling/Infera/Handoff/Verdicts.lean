import Infera.JsonRoundTrip
import Infera.Runs

/-! The verdicts on a published version. `validation.yaml` holds them all, and to
record one is to read the file and write it anew: opening it truncates it, and
the text follows. A process may die at any point of that. The YAML library is a
parameter that reads back what it wrote and finds no document in an empty text;
ids and times are their texts. -/

namespace Infera.Handoff
open List

structure Verdict where
  validator : String
  result : Bool
  strength : String
  dimension : String
  taskId : String
  agentId : Option String
  environment : List (String × Json)
  time : String

def Verdict.toRow (v : Verdict) : Json := .obj [
  ("validator", .str v.validator),
  ("result", .bool v.result),
  ("strength", .str v.strength),
  ("dimension", .str v.dimension),
  ("task_id", .str v.taskId),
  ("agent_id", v.agentId.elim .null .str),
  ("environment", .obj v.environment),
  ("at", .str v.time)]

/-- A row that lacks a key is malformed, and so is one with a value of another type here. -/
def fromRow : Json → Option Verdict
  | .obj fields => do
    let text := fun key => match fields.lookup key with
      | some (.str s) => some s
      | _ => none
    let some (.bool result) := fields.lookup "result" | none
    let agentId ← if let some .null := fields.lookup "agent_id" then some none
      else (text "agent_id").map some
    let some (.obj environment) := fields.lookup "environment" | none
    return ⟨← text "validator", result, ← text "strength", ← text "dimension", ← text "task_id",
      agentId, environment, ← text "at"⟩
  | _ => none

theorem fromRow_toRow (v : Verdict) : fromRow v.toRow = some v := by
  cases v with
  | mk _ _ _ _ _ agentId => cases agentId <;> rfl

structure Yaml where
  safeDump : Json → Option (List Char)
  safeLoad : List Char → Option Json
  load_dump : ∀ {doc text}, safeDump doc = some text → safeLoad text = some doc
  load_nil : safeLoad [] = some .null

structure VerdictFile where
  text : List Char
  /-- The verdicts whose recording returned. -/
  recorded : List Verdict

/-- A verdict is recorded; the process dies in it before it opens the file, or when it has written
some of the text. -/
inductive Recording
  | whole (v : Verdict)
  | early
  | torn (v : Verdict) (written : ℕ)

section
variable (yaml : Yaml)

/-- An empty document has no rows. -/
def read (text : List Char) : Option (List Verdict) := do
  match ← yaml.safeLoad text with
  | .null => some []
  | .obj fields => match fields.lookup "verdicts" with
    | none | some .null => some []
    | some (.arr rows) => rows.mapM fromRow
    | some _ => none
  | _ => none

/-- What `append` writes. -/
def appended (text : List Char) (v : Verdict) : Option (List Char) := do
  let rows := (← read yaml text).map Verdict.toRow ++ [v.toRow]
  yaml.safeDump (.obj [("verdicts", .arr rows)])

namespace VerdictFile

def step (f : VerdictFile) : Recording → VerdictFile
  | .whole v => match appended yaml f.text v with
    | none => f
    | some text => ⟨text, f.recorded ++ [v]⟩
  | .early => f
  | .torn v written => match appended yaml f.text v with
    | none => f
    | some text => { f with text := text.take written }

/-- As `create_empty` leaves it. -/
def Created (f : VerdictFile) : Prop :=
  yaml.safeLoad f.text = some (.obj [("verdicts", .arr [])]) ∧ f.recorded = []

/-- No process dies between opening the file and the end of its text. -/
def Unbroken (f : VerdictFile) : Recording → Prop
  | .torn v written => ∀ text ∈ appended yaml f.text v, text.length ≤ written
  | _ => True

instance (yaml : Yaml) (f : VerdictFile) : (r : Recording) → Decidable (Unbroken yaml f r)
  | .torn v written =>
    inferInstanceAs (Decidable (∀ text ∈ appended yaml f.text v, text.length ≤ written))
  | .whole _ | .early => .isTrue trivial

/-- Every verdict whose recording returned is read, in the order of the recordings. -/
def Kept (f : VerdictFile) : Prop := ∃ vs, read yaml f.text = some vs ∧ f.recorded.Sublist vs

variable {yaml} {f : VerdictFile} {vs : List Verdict}

theorem read_appended {text : List Char} {v : Verdict} (reads : read yaml f.text = some vs)
    (written : appended yaml f.text v = some text) : read yaml text = some (vs ++ [v]) := by
  rw [appended, reads] at written
  have rows : ∀ vs : List Verdict, (vs.map Verdict.toRow).mapM fromRow = some vs := by
    intro vs
    induction vs with
    | nil => rfl
    | cons v vs ih => rw [map_cons, mapM_cons, fromRow_toRow, ih]; rfl
  have listed := rows (vs ++ [v])
  rw [map_append] at listed
  rw [read, yaml.load_dump written]
  exact listed

theorem verdicts_kept (reached : Reaches (Created yaml) (step yaml) (Unbroken yaml) f) :
    Kept yaml f := by
  refine reached.invariant (fun f created => ?_) fun f recording kept unbroken => ?_
  · refine ⟨[], ?_, created.2 ▸ .slnil⟩
    rw [read, created.1]
    rfl
  obtain ⟨vs, reads, within⟩ := kept
  cases recording with
  | early => exact ⟨vs, reads, within⟩
  | whole v =>
    dsimp only [step]
    cases written : appended yaml f.text v with
    | none => exact ⟨vs, reads, within⟩
    | some text => exact ⟨_, read_appended reads written, within.append (.refl [v])⟩
  | torn v n =>
    dsimp only [step]
    cases written : appended yaml f.text v with
    | none => exact ⟨vs, reads, within⟩
    | some text =>
      dsimp only
      rw [take_of_length_le (unbroken text written)]
      exact ⟨_, read_appended reads written, within.trans (sublist_append_left ..)⟩

end VerdictFile
end

namespace VerdictFile

/-- JSON is YAML. -/
def json : Yaml where
  safeDump doc := if doc.encodable ∧ doc.distinct then some doc.dumps else none
  safeLoad text := if text = [] then some .null else Json.loads text
  load_dump := by
    intro doc text dumped
    split_ifs at dumped with ok
    cases dumped
    have reads := Json.loads_dumps (Json.writable_of_encodable doc ok.1 ok.2)
    rw [if_neg (fun empty => by rw [empty] at reads; cases reads), reads]
  load_nil := rfl

def verdict (validator : String) : Verdict :=
  ⟨validator, true, "must", "form", "t", none, [], "2026-01-01T00:00:00+00:00"⟩

def created : VerdictFile := ⟨Json.dumps (.obj [("verdicts", .arr [])]), []⟩

theorem last_verdict_kept :
    Kept json ([.whole (verdict "a"), .torn (verdict "b") 1000].foldl (step json) created) :=
  verdicts_kept (Reaches.along _ (.start ⟨json.load_dump rfl, rfl⟩) (by decide +kernel))

/-- The process dies when the file is open and empty: the first verdict is gone. -/
theorem truncation_loses :
    let f := [Recording.whole (verdict "a"), .torn (verdict "b") 0].foldl (step json) created
    f.recorded.length = 1 ∧ (read json f.text).map length = some 0 := by
  decide +kernel

end VerdictFile
end Infera.Handoff
