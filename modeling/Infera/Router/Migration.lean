import Infera.Anthropic.Messages
import Infera.Dict

/-! A generation that is carried to another worker when its stream breaks. The
body of each continuation is made anew from the first worker's body and from what
the client has read: the ids that were reported or, where they do not cover it,
the text. Its budget is what is left of the first one, but never below one, so the
tokens of a chain stay within the budget only if no worker breaks after its last. -/

namespace Infera.Router.Migration
open List

abbrev Body := Dict String Json

/-- What `_record` reads of a chunk. -/
structure Chunk where
  choices : ℕ := 1
  promptIds : Option (List ℤ) := none
  ids : List ℤ
  /-- A tool call or reasoning. -/
  carriesMore : Bool := false
  delta : Option String

def isTokenArray (prompt : List Json) : Bool := !prompt.isEmpty && prompt.all (· matches .int _)

def asksForSeveralCompletions (body : Body) : Bool :=
  (["n", "best_of"].any fun key => match body.get? key with
    | some (.int value) => value > 1
    | _ => false) ||
  match body.get? "prompt" with
  | some (.arr prompt) => !isTokenArray prompt
  | _ => false

def budgetKeys : List String := ["max_tokens", "max_completion_tokens"]

def chatOnlyFields : List String :=
  ["tools", "functions", "tool_choice", "function_call", "response_format"]

/-- The state for a first body and its path. -/
structure MigrationState (originalBody : Body) (path : List Char) where
  migrationsLeft : ℕ
  text : List String := []
  chunksWithText : ℕ := 0
  outputIds : List ℤ := []
  promptIds : Option (List ℤ) := none
  idsCoverOutput : Bool := true
  poisoned : Bool := asksForSeveralCompletions originalBody

namespace MigrationState
variable {originalBody : Body} {path : List Char} (s : MigrationState originalBody path) (c : Chunk)

def poison : MigrationState originalBody path := { s with poisoned := true }

def record : MigrationState originalBody path :=
  if c.choices > 1 then s.poison
  else
    let s := { s with promptIds := s.promptIds <|> c.promptIds }
    if c.ids = [] ∧ c.carriesMore then s.poison
    else
      let s := { s with outputIds := s.outputIds ++ c.ids }
      match c.delta with
      | none => s
      | some delta =>
        if c.ids = [] ∧ !((originalBody.get? "prompt").getD (.str "") matches .str _) then s.poison
        else { s with
          text := s.text ++ [delta]
          chunksWithText := s.chunksWithText + 1
          idsCoverOutput := s.idsCoverOutput && c.ids ≠ [] }

def observe : MigrationState originalBody path := if s.poisoned then s else s.record c

def hasExactOutput : Bool := s.idsCoverOutput && s.outputIds ≠ []

def producedTokens : ℕ := if s.hasExactOutput then s.outputIds.length else s.chunksWithText

def isExact : Bool := s.promptIds.any (· ≠ []) && s.hasExactOutput

def canMigrate : Bool := !s.poisoned && s.migrationsLeft > 0

def remaining : Json → Json
  | .int budget => .int (max 1 (budget - s.producedTokens))
  | .bool _ => .int 1
  | other => other

def baseBody : Body :=
  (originalBody.erase "return_token_ids").mapValues fun key value =>
    if key ∈ budgetKeys then s.remaining value else value

def exactContinuation : Body :=
  (s.baseBody.erase "messages").set "prompt"
    (.arr ((s.promptIds.getD [] ++ s.outputIds).map .int))

/-- Nothing if the prompt is not a text. -/
def textContinuation : Option Body :=
  let body := s.baseBody
  let carried := String.join s.text
  match body.get? "messages" with
  | some (.arr messages) =>
    let turn := .obj [("role", .str "assistant"), ("content", .str carried)]
    some (body.set "messages" (.arr (messages ++ [turn])))
  | _ =>
    match (body.get? "prompt").getD (.str "") with
    | .str original => some (body.set "prompt" (.str (original ++ carried)))
    | _ => none

/-- Whether the request can be sent to the completions path. -/
def convertible (originalBody : Body) (path : List Char) : Bool :=
  "/completions".toList <:+ path && !("/chat/completions".toList <:+ path) ||
    !chatOnlyFields.any fun f => (originalBody.get? f).any Anthropic.truthy

def nextContinuation : Option Body × MigrationState originalBody path :=
  (if s.isExact && convertible originalBody path then some s.exactContinuation
    else s.textContinuation, { s with migrationsLeft := s.migrationsLeft - 1 })

variable {s}

theorem get?_nextContinuation {body : Body} (made : s.nextContinuation.1 = some body)
    {key : String} (carried : key ∉ ["messages", "prompt"]) :
    body.get? key = s.baseBody.get? key := by
  simp only [mem_cons, not_mem_nil, or_false, not_or] at carried
  unfold nextContinuation at made
  split_ifs at made
  · cases made
    exact (Dict.get?_set_of_ne carried.2).trans (Dict.get?_erase_of_ne carried.1)
  · unfold textContinuation at made
    dsimp only at made
    split at made
    · cases made
      exact Dict.get?_set_of_ne carried.1
    · split at made
      · cases made
        exact Dict.get?_set_of_ne carried.2
      · cases made

theorem get?_baseBody (s : MigrationState originalBody path) (key : String) : s.baseBody.get? key =
    if key = "return_token_ids" then none
    else (originalBody.get? key).map fun v => if key ∈ budgetKeys then s.remaining v else v := by
  rw [baseBody, Dict.get?_mapValues, Dict.get?_erase]
  split_ifs <;> rfl

end MigrationState

open MigrationState

/-- The budgets of the body admit this many tokens. -/
def admits (body : Body) (n : ℕ) : Bool :=
  budgetKeys.all fun key => match body.get? key with
    | some (.int budget) => n ≤ budget
    | _ => true

variable {body : Body} {path : List Char} {s : MigrationState body path} {byText : Bool} {n : ℕ}
  {c : Chunk} {key : String} {budget : ℤ}

/-- The chunks of each worker in turn, one token each: a worker keeps within its body, and one
whose stream breaks leaves at least `spare` tokens of it. -/
def Chain (spare : ℕ) : Body → MigrationState body path → List (List Chunk) → Prop
  | _, _, [] => False
  | sent, _, [leg] => admits sent leg.length = true
  | sent, s, leg :: rest =>
    let s := leg.foldl observe s
    admits sent (leg.length + spare) = true ∧ s.canMigrate = true ∧
      ∃ next, s.nextContinuation.1 = some next ∧ Chain spare next s.nextContinuation.2 rest

/-- The count agrees with the tokens so far, by text or by ids. -/
def Tracks (byText : Bool) (s : MigrationState body path) (n : ℕ) : Prop :=
  s.poisoned = true ∨
    if byText then s.chunksWithText = n ∧ (s.idsCoverOutput = true → s.outputIds.length = n)
    else s.idsCoverOutput = true ∧ s.outputIds.length = n ∧ s.chunksWithText ≤ n

def Counts (byText : Bool) (c : Chunk) : Prop :=
  c.ids.length ≤ 1 ∧ if byText then c.delta ≠ none else c.ids ≠ []

theorem Tracks.observe (tracks : Tracks byText s n) (counts : Counts byText c) :
    Tracks byText (s.observe c) (n + 1) := by
  unfold MigrationState.observe
  split_ifs with poisoned
  · exact .inl poisoned
  · have tracks := tracks.resolve_left poisoned
    obtain ⟨one, counts⟩ := counts
    have id : c.ids ≠ [] → c.ids.length = 1 := fun ids => one.antisymm (length_pos_of_ne_nil ids)
    -- each branch gives up, or leaves both counts right
    unfold record
    cases text : c.delta <;> dsimp only <;> split_ifs <;>
      first | exact .inl rfl | exact .inr (by cases byText <;> grind)

theorem Tracks.producedTokens (tracks : Tracks byText s n) (healthy : s.poisoned = false) :
    s.producedTokens = n := by
  have tracks := tracks.resolve_left (by simp [healthy])
  unfold MigrationState.producedTokens hasExactOutput
  cases byText <;> grind

theorem Tracks.foldl {leg : List Chunk} (counts : ∀ c ∈ leg, Counts byText c)
    (tracks : Tracks byText s n) :
    Tracks byText (leg.foldl MigrationState.observe s) (n + leg.length) := by
  induction leg generalizing s n with
  | nil => exact tracks
  | cons c leg ih =>
    have rest := ih (fun c mem => counts c (.tail _ mem)) (tracks.observe (counts c mem_cons_self))
    rwa [length_cons, Nat.add_comm leg.length, ← Nat.add_assoc]

theorem get?_budget (isBudget : key ∈ budgetKeys) {next : Body}
    (made : s.nextContinuation.1 = some next) :
    next.get? key = (body.get? key).map s.remaining := by
  have other : key ∉ ["messages", "prompt"] ∧ key ≠ "return_token_ids" := by
    revert key
    decide
  rw [get?_nextContinuation made other.1, get?_baseBody, if_neg other.2]
  simp [isBudget]

theorem le_budget (isBudget : key ∈ budgetKeys) {sent : Body} (kept : admits sent n = true)
    (asked : sent.get? key = some (.int budget)) : n ≤ budget := by
  have fits := all_eq_true.mp kept key isBudget
  simpa [asked] using fits

theorem chain_within (isBudget : key ∈ budgetKeys) (asked : body.get? key = some (.int budget))
    (legs : List (List Chunk)) :
    ∀ sent (s : MigrationState body path) n, Chain 1 sent s legs →
      (∀ c ∈ legs.dropLast.flatten, Counts byText c) → Tracks byText s n →
      (∃ left, sent.get? key = some (.int left) ∧ n + left ≤ budget) →
      (n + legs.flatten.length : ℤ) ≤ budget := by
  induction legs with
  | nil => exact fun _ _ _ chain => chain.elim
  | cons leg rest ih =>
    intro sent s n chain counts tracks ⟨left, given, room⟩
    cases rest with
    | nil =>
      have kept := le_budget isBudget chain given
      simp only [flatten_cons, flatten_nil, append_nil]
      omega
    | cons _ rest =>
      obtain ⟨kept, carried, next, made, chain⟩ := chain
      have kept := le_budget isBudget kept given
      rw [dropLast_cons_cons, flatten_cons, forall_mem_append] at counts
      have tracks := tracks.foldl counts.1
      generalize leg.foldl MigrationState.observe s = s' at *
      rw [canMigrate, Bool.and_eq_true, Bool.not_eq_true'] at carried
      have produced := tracks.producedTokens carried.1
      have left : next.get? key = some (.int (max 1 (budget - s'.producedTokens))) := by
        rw [get?_budget isBudget made, asked]
        rfl
      have total := ih _ _ (n + leg.length) chain counts.2 tracks ⟨_, left, by omega⟩
      rw [flatten_cons, length_append]
      push_cast at total ⊢
      omega

/-- Within the budget if no worker breaks after its last token, and of the workers that break each
chunk has text or each has an id. -/
theorem tokens_within_budget (limit : ℕ) (legs : List (List Chunk))
    (chain : Chain 1 body ({ migrationsLeft := limit } : MigrationState body path) legs)
    (counts : ∀ c ∈ legs.dropLast.flatten, Counts byText c) (isBudget : key ∈ budgetKeys)
    (asked : body.get? key = some (.int budget)) : (legs.flatten.length : ℤ) ≤ budget := by
  have all := chain_within isBudget asked legs body _ 0 chain counts
    (.inr (by cases byText <;> simp)) ⟨budget, asked, by simp⟩
  simpa using all

def word (id : ℤ) : Chunk := { ids := [id], delta := some "a" }

def asking (budget : ℤ) : Body := Dict.empty.set "max_tokens" (.int budget)

theorem carried_within_budget : ([[word 0], [word 1, word 2]].flatten.length : ℤ) ≤ 3 :=
  @tokens_within_budget (asking 3) [] true "max_tokens" 3 1 _ ⟨rfl, rfl, _, rfl, rfl⟩
    (by simp [Counts, word]) (by decide) rfl

/-- The first worker breaks after its last token, and the next one is asked for one more. -/
theorem clamped_budget_exceeded :
    let legs := [[word 0], [word 1]]
    Chain 0 (asking 1) ({ migrationsLeft := 1 } : MigrationState (asking 1) []) legs ∧
      (legs.flatten.length : ℤ) > 1 :=
  ⟨⟨rfl, rfl, _, rfl, rfl⟩, by decide⟩

end Infera.Router.Migration
