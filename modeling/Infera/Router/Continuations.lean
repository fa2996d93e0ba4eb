import Infera.Router.Migration
import Infera.Router.PyClient

/-! What the workers of a migrated request are sent. The first gets the caller's
body with the fields of its engine and its rank; each later one gets a
continuation of the body the first was sent, with only its own rank put in. So the
first worker's fields stay, and what they ask for is right for a later worker only
if it has the same engine. -/

namespace Infera.Router.Migration
open Py List

structure RouteTarget where
  engine : EngineType
  dpRank : Option ℕ

/-- The effective retention of a request. -/
inductive Retention
  | none
  | short
  | long

def Retention.value : Retention → String
  | none => "none"
  | short => "short"
  | long => "long"

def sglangPriority : Retention → ℤ
  | .none => 0
  | .short => 50
  | .long => 100

variable (body : Body) (t : RouteTarget) (retention : Retention) (path : List Char) (limit : ℕ)

def setDefault (key : String) (value : Json) : Body :=
  if body.contains key then body else body.set key value

def injectEnginePriority : EngineType → Body
  | .sglang => setDefault (setDefault body "priority" (.int (sglangPriority retention)))
      "infera_retention" (.str retention.value)
  | .vllm =>
    let existing := match body.get? "kv_transfer_params" with
      | some (.obj fields) => fields
      | _ => []
    let body := if (existing.lookup "infera_retention").isSome then body
      else body.set "kv_transfer_params"
        (.obj (existing ++ [("infera_retention", .str retention.value)]))
    setDefault body "_infera_retention" (.str retention.value)
  | .atom => body

def dpRankHeader : Option (String × String) :=
  if t.engine = .atom then none
  else t.dpRank.map fun rank => ("X-Data-Parallel-Rank", toString rank)

def injectDpRank : Body :=
  match t.engine, t.dpRank with
  | .atom, some rank => body.set "data_parallel_rank" (.int rank)
  | _, _ => body

def supportsStreamingIds : EngineType → Bool
  | .vllm => true
  | .sglang => !("/chat/completions".toList <:+ path)
  | .atom => false

/-- What `_attempt` sends for a streamed request. -/
def attempt : Body × Option (String × String) :=
  let forwarded := (injectDpRank (injectEnginePriority body retention t.engine) t).eraseAll
    ["_infera_cache_hints", "_infera_request_id", "_infera_session_headers"]
  (if limit > 0 && supportsStreamingIds path t.engine && !forwarded.contains "return_token_ids"
    then forwarded.set "return_token_ids" (.bool true) else forwarded, dpRankHeader t)

/-- What `_resume_elsewhere` sends. -/
def resume : Body × Option (String × String) := (injectDpRank body t, dpRankHeader t)

/-- The carried output and the budget. -/
def carriedKeys : List String := ["messages", "prompt"] ++ budgetKeys

theorem get?_injectDpRank (key : String) : (injectDpRank body t).get? key =
    if t.engine = .atom ∧ key = "data_parallel_rank"
    then (t.dpRank.map fun rank => .int rank).or (body.get? key) else body.get? key := by
  obtain ⟨engine, rank⟩ := t
  cases engine <;> cases rank <;> simp [injectDpRank, Dict.get?_set]

theorem get?_injectEnginePriority (unasked : body.get? "return_token_ids" = none)
    (engine : EngineType) :
    (injectEnginePriority body retention engine).get? "return_token_ids" = none := by
  cases engine <;> grind [injectEnginePriority, setDefault, Dict.get?_set]

variable {body path} {first : RouteTarget} {next : Body}

/-- A later worker is sent what it would be sent first, if it has the first one's engine, that
engine is not asked for ids, and a rank put into the first body is replaced. -/
theorem continuation_like_first_dispatch (unasked : body.get? "return_token_ids" = none)
    (engine : t.engine = first.engine) (silent : supportsStreamingIds path first.engine = false)
    (ranked : first.engine = .atom → first.dpRank.isSome → t.dpRank.isSome)
    (s : MigrationState (attempt body first retention path limit).1 path)
    (made : s.nextContinuation.1 = some next) :
    (resume next t).2 = (attempt body t retention path limit).2 ∧
      ∀ key ∉ carriedKeys, (resume next t).1.get? key =
        (attempt body t retention path limit).1.get? key := by
  refine ⟨rfl, fun key own => ?_⟩
  rw [carriedKeys, mem_append, not_or] at own
  have sent : ∀ t : RouteTarget, t.engine = first.engine →
      (attempt body t retention path limit).1.get? key = if key ∈ ["_infera_cache_hints",
        "_infera_request_id", "_infera_session_headers"] then none else
          (injectDpRank (injectEnginePriority body retention first.engine) t).get? key := by
    intro t same
    rw [attempt, same, silent, Bool.and_false, Bool.false_and, if_neg Bool.false_ne_true,
      Dict.get?_eraseAll]
  have unasked := get?_injectEnginePriority body retention unasked first.engine
  rw [resume, get?_injectDpRank, MigrationState.get?_nextContinuation made own.1,
    MigrationState.get?_baseBody, sent first rfl, sent t engine]
  simp only [own.2, if_false, Option.map_id', get?_injectDpRank, engine]
  cases given : t.dpRank <;> cases before : first.dpRank <;> grind

def greeting : Body :=
  ((Dict.empty.set "prompt" (.str "Hi")).set "max_tokens" (.int 9)).set "seed" (.int 1)

/-- The first worker has sent two chunks of text. -/
theorem second_rank_sent :
    let s : MigrationState (attempt greeting ⟨.atom, some 0⟩ .long [] 1).1 [] :=
      [⟨1, none, [], false, some " th"⟩, ⟨1, none, [], false, some "ere"⟩].foldl .observe
        { migrationsLeft := 1 }
    ∃ next, s.nextContinuation.1 = some next ∧ next.get? "prompt" = some (.str "Hi there") ∧
      ∀ key ∉ carriedKeys, (resume next ⟨.atom, some 1⟩).1.get? key =
        (attempt greeting ⟨.atom, some 1⟩ .long [] 1).1.get? key := by
  intro s
  have like := @continuation_like_first_dispatch greeting ⟨.atom, some 1⟩ .long [] 1
    ⟨.atom, some 0⟩ _ rfl rfl rfl (by simp) s rfl
  exact ⟨_, rfl, rfl, like.2⟩

/-- A worker of another engine, without ranks, is sent the first one's rank. -/
theorem first_rank_survives :
    let s : MigrationState (attempt .empty ⟨.atom, some 3⟩ .long [] 1).1 [] :=
      { migrationsLeft := 1 }
    ∃ next, s.nextContinuation.1 = some next ∧
      ((resume next ⟨.sglang, none⟩).1.get? "data_parallel_rank").isSome ∧
      (attempt .empty ⟨.sglang, none⟩ .long [] 1).1.get? "data_parallel_rank" = none :=
  ⟨_, rfl, rfl, rfl⟩

end Infera.Router.Migration
