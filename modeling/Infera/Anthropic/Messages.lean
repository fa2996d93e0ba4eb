import Infera.Json

/-! Anthropic conversations as OpenAI message lists: `translate_request` and
`translate_message` of the Rust router, `_translate_anthropic_message` of the
Python server. They read the same members and differ in what they make of one
that is not a string, which is their `Dialect`. Only the messages of a request
are followed, after its images were refused; a call carries the value that is
sent as its arguments' text, and `hex` is what the random source gives for a
block without an id.

The engine wants every call answered by the tool messages right behind it
(`Paired`). A user turn becomes a user message and then the tool messages, so
this holds, with the blocks in their order (`inOrder`), just for turns that do
not mix text with results. -/

namespace Infera.Anthropic
open List Option

def field (x : Json) (name : String) : Option Json :=
  match x with
  | .obj fields => fields.lookup name
  | _ => none

def strField (x : Json) (name : String) : Option String :=
  match field x name with
  | some (.str s) => some s
  | _ => none

def hasType (type : String) (block : Json) : Bool := strField block "type" = some type

def truthy : Json → Bool
  | .null => false
  | .bool b => b
  | .int n => n ≠ 0
  | .float x => (x.whole ++ x.part).any fun c => c.isDigit && c ≠ '0'
  | .str s => s ≠ ""
  | .bytes b => b ≠ []
  | .arr xs => !xs.isEmpty
  | .obj fields => !fields.isEmpty

/-- The blocks of a content; a text stands for one text block, anything else for the empty text. -/
def contentBlocks (x : Json) : List Json :=
  match field x "content" with
  | some (.arr blocks) => blocks
  | some (.str s) => [.obj [("type", .str "text"), ("text", .str s)]]
  | _ => [.obj [("type", .str "text"), ("text", .str "")]]

/-- `"\n".join`. -/
def join : List String → String
  | [] => ""
  | [s] => s
  | s :: rest => s ++ "\n" ++ join rest

inductive Role
  | user
  | assistant

inductive Refusal
  | missingToolUseId
  | typeError

structure ToolCall where
  id : Json
  name : Json
  arguments : Json

inductive Message
  | system (content : String)
  | user (content : String)
  | assistant (content reasoning : Option String) (calls : List ToolCall)
  | tool (callId content : String)

structure Dialect where
  callId : Json → String → Json
  callName : Json → Json
  partText : Json → Except Refusal String

def rust : Dialect where
  callId block hex := .str (((strField block "id").filter (· ≠ "")).getD ("call_" ++ hex))
  callName block := .str ((strField block "name").getD "")
  partText part := .ok ((strField part "text").getD "")

def python : Dialect where
  callId block hex := ((field block "id").filter truthy).getD (.str ("call_" ++ hex))
  callName block := (field block "name").getD (.str "")
  partText part :=
    match field part "text" with
    | none => .ok ""
    | some (.str s) => .ok s
    | some _ => .error .typeError

variable (blocks : List Json)

def texts : List String :=
  (blocks.filter (hasType "text")).filterMap (strField · "text")

def roleOf (msg : Json) : Option Role :=
  match strField msg "role" with
  | some "user" => some .user
  | some "assistant" => some .assistant
  | _ => none

def requestMessages (body : Json) : List Json :=
  match field body "messages" with
  | some (.arr messages) => messages
  | _ => []

/-- The top-level prompt, flattened, up front. -/
def systemMessages (body : Json) : List Message :=
  let text := match field body "system" with
    | some (.str s) => s
    | some (.arr blocks) => join (texts blocks)
    | _ => ""
  if text = "" then [] else [.system text]

/-- A turn without content stays, as an empty message. -/
def orEmpty : List Message → List Message
  | [] => [.user ""]
  | out => out

section
variable (d : Dialect) (hex : Json → String)

def toolCall (block : Json) : ToolCall :=
  ⟨d.callId block (hex block), d.callName block,
    ((field block "input").filter truthy).getD (.obj [])⟩

def assistantMessage (blocks : List Json) : Message :=
  let thinking := ((blocks.filter (hasType "thinking")).filterMap (strField · "thinking")).filter
    (· ≠ "")
  .assistant (if texts blocks = [] then none else some (join (texts blocks)))
    (if thinking = [] then none else some (join thinking))
    ((blocks.filter (hasType "tool_use")).map (toolCall d hex))

def toolMessage (block : Json) : Except Refusal Message :=
  match (strField block "tool_use_id").filter (· ≠ "") with
  | none => .error .missingToolUseId
  | some id =>
    (.tool id <| join ·) <$> ((contentBlocks block).filter (hasType "text")).mapM d.partText

def userMessages (blocks : List Json) : Except Refusal (List Message) := do
  let tools ← (blocks.filter (hasType "tool_result")).mapM (toolMessage d)
  return orEmpty ((if texts blocks = [] then [] else [.user (join (texts blocks))]) ++ tools)

def translateMessage (role : Option Role) (blocks : List Json) : Except Refusal (List Message) :=
  match role with
  | some .assistant => .ok [assistantMessage d hex blocks]
  | some .user => userMessages d blocks
  | none => .ok []

/-- The `messages` of the translated request; turns of other roles are skipped. -/
def translateRequest (body : Json) : Except Refusal (List Message) := do
  let turns ← (requestMessages body).mapM fun msg =>
    translateMessage d hex (roleOf msg) (contentBlocks msg)
  return systemMessages body ++ turns.flatten

end

/-- Texts are texts, calls and results have their ids. -/
structure Sound (block : Json) : Prop where
  text : hasType "text" block = true → (strField block "text").isSome
  call : hasType "tool_use" block = true → ∃ id ≠ "", strField block "id" = some id
  result : hasType "tool_result" block = true → ∃ id ≠ "", strField block "tool_use_id" = some id
  parts : ∀ part ∈ contentBlocks block, hasType "text" part = true → (strField part "text").isSome

def callIds : List String :=
  (blocks.filter (hasType "tool_use")).filterMap (strField · "id")

def resultIds : List String :=
  (blocks.filter (hasType "tool_result")).filterMap (strField · "tool_use_id")

/-- The rest of a valid conversation, from the turn of a role on, where results are owed. -/
inductive Conversation : List String → Role → List Json → Prop
  | done (role : Role) : Conversation [] role []
  | user {owed : List String} {msg : Json} {rest : List Json} (role : roleOf msg = some .user)
      (sound : ∀ block ∈ contentBlocks msg, Sound block)
      (answers : owed.Perm (resultIds (contentBlocks msg)))
      (later : Conversation [] .assistant rest) : Conversation owed .user (msg :: rest)
  | assistant {msg : Json} {rest : List Json} (role : roleOf msg = some .assistant)
      (sound : ∀ block ∈ contentBlocks msg, Sound block)
      (distinct : (callIds (contentBlocks msg)).Nodup)
      (later : Conversation (callIds (contentBlocks msg)) .user rest) :
      Conversation [] .assistant (msg :: rest)

/-- Tool messages answer the calls that are owed, each once, before anything else is said. -/
def Paired : List Json → List Message → Prop
  | owed, [] => owed = []
  | owed, .tool id _ :: rest => ∃ left, owed.Perm (.str id :: left) ∧ Paired left rest
  | owed, .assistant _ _ calls :: rest => owed = [] ∧ Paired (calls.map (·.id)) rest
  | owed, _ :: rest => owed = [] ∧ Paired [] rest

/-- A message before others, in one with the next if both are text. -/
def before : Message → List Message → List Message
  | .user s, .user t :: more => .user (s ++ "\n" ++ t) :: more
  | first, more => first :: more

def inOrder (d : Dialect) (blocks : List Json) : List Message :=
  (blocks.filterMap fun block =>
    if hasType "text" block then (strField block "text").map .user
    else if hasType "tool_result" block then (toolMessage d block).toOption
    else none).foldr before []

def turnInOrder (d : Dialect) (hex : Json → String) (msg : Json) : List Message :=
  match roleOf msg with
  | some .assistant => [assistantMessage d hex (contentBlocks msg)]
  | some .user => orEmpty (inOrder d (contentBlocks msg))
  | none => []

def Apart : Prop :=
  blocks.filter (hasType "tool_result") = [] ∨ texts blocks = []

structure Dialect.Reads (d : Dialect) : Prop where
  callId : ∀ block hex id, id ≠ "" → strField block "id" = some id → d.callId block hex = .str id
  partText : ∀ part, (strField part "text").isSome → ∃ s, d.partText part = .ok s

theorem field_of_strField {x : Json} {name s : String} (found : strField x name = some s) :
    field x name = some (.str s) := by
  unfold strField at found
  split at found
  · next read => rw [read, some.inj found]
  · cases found

theorem rust_reads : rust.Reads where
  callId block hex id named found := by simp [rust, found, named, filter_some]
  partText part _ := ⟨_, rfl⟩

theorem python_reads : python.Reads where
  callId block hex id named found := by
    simp [python, field_of_strField found, truthy, named, filter_some]
  partText part text := by
    obtain ⟨s, found⟩ := isSome_iff_exists.mp text
    exact ⟨s, by simp [python, field_of_strField found]⟩

section
variable {d : Dialect} {hex : Json → String} {blocks : List Json} {block msg : Json}
  {owed : List String} {rest : List Message}

theorem mapM_ok {α β ε : Type} {f : α → Except ε β} {xs : List α}
    (each : ∀ x ∈ xs, ∃ y, f x = .ok y) : ∃ ys, xs.mapM f = .ok ys := by
  induction xs with
  | nil => exact ⟨[], rfl⟩
  | cons x xs ih =>
    obtain ⟨y, here⟩ := each x mem_cons_self
    obtain ⟨ys, later⟩ := ih fun x mem => each x (.tail _ mem)
    exact ⟨y :: ys, by rw [mapM_cons, here, later]; rfl⟩

theorem mapM_cons_ok {α β ε : Type} {f : α → Except ε β} {x : α} {xs : List α} {ys : List β}
    (made : (x :: xs).mapM f = .ok ys) :
    ∃ y later, f x = .ok y ∧ xs.mapM f = .ok later ∧ ys = y :: later := by
  rw [mapM_cons] at made
  cases first : f x with
  | error e => rw [first] at made; cases made
  | ok y =>
    cases rest : xs.mapM f with
    | error e => rw [first, rest] at made; cases made
    | ok later =>
      rw [first, rest] at made
      cases made
      exact ⟨y, later, rfl, rfl, rfl⟩

theorem toolMessage_of_sound (reads : d.Reads) (sound : Sound block)
    (result : hasType "tool_result" block = true) :
    ∃ id s, strField block "tool_use_id" = some id ∧ toolMessage d block = .ok (.tool id s) := by
  obtain ⟨id, named, found⟩ := sound.result result
  obtain ⟨ss, read⟩ := mapM_ok fun part mem =>
    reads.partText part (sound.parts part (mem_of_mem_filter mem) (of_mem_filter mem))
  exact ⟨id, join ss, found, by simp [toolMessage, found, named, filter_some, read]⟩

theorem inOrder_skip (noText : hasType "text" block = false)
    (noResult : hasType "tool_result" block = false) :
    inOrder d (block :: blocks) = inOrder d blocks := by
  simp [inOrder, noText, noResult]

theorem foldr_before_user (said : List String) :
    (said.map .user).foldr before [] = if said = [] then [] else [.user (join said)] := by
  induction said with
  | nil => rfl
  | cons s said ih =>
    rw [map_cons, foldr_cons, ih]
    cases said <;> rfl

theorem texts_inOrder (d : Dialect) (noResult : blocks.filter (hasType "tool_result") = []) :
    inOrder d blocks = if texts blocks = [] then [] else [.user (join (texts blocks))] := by
  rw [← foldr_before_user, texts, map_filterMap, filterMap_filter]
  refine congrArg _ (filterMap_congr fun block mem => ?_)
  have result := filter_eq_nil_iff.mp noResult block mem
  rw [if_neg result]

section
variable (reads : d.Reads) (sound : ∀ block ∈ blocks, Sound block)
include reads sound

theorem results_inOrder (quiet : texts blocks = []) :
    (blocks.filter (hasType "tool_result")).mapM (toolMessage d) = .ok (inOrder d blocks) ∧
      ∀ (owed : List String) (rest : List Message), owed.Perm (resultIds blocks) →
        Paired [] rest → Paired (owed.map .str) (inOrder d blocks ++ rest) := by
  induction blocks with
  | nil =>
    refine ⟨rfl, fun owed rest answers later => ?_⟩
    rw [perm_nil.mp answers]
    exact later
  | cons block blocks ih =>
    rw [forall_mem_cons] at sound
    have noText : hasType "text" block = false := by
      refine Bool.eq_false_iff.mpr fun text => ?_
      obtain ⟨s, found⟩ := isSome_iff_exists.mp (sound.1.text text)
      simp [texts, text, found] at quiet
    have quiet' : texts blocks = [] := by simpa [texts, noText] using quiet
    cases result : hasType "tool_result" block with
    | false =>
      rw [inOrder_skip noText result]
      simpa [resultIds, result] using ih sound.2 quiet'
    | true =>
      obtain ⟨id, s, found, made⟩ := toolMessage_of_sound reads sound.1 result
      have order : inOrder d (block :: blocks) = .tool id s :: inOrder d blocks := by
        simp [inOrder, noText, result, made, Except.toOption, before]
      have ids : resultIds (block :: blocks) = id :: resultIds blocks := by
        simp [resultIds, result, found]
      obtain ⟨later, paired⟩ := ih sound.2 quiet'
      rw [filter_cons_of_pos result, mapM_cons, made, order, later]
      exact ⟨rfl, fun owed rest answers after => ⟨(resultIds blocks).map .str,
        by simpa [ids] using answers.map Json.str, paired _ rest (List.Perm.refl _) after⟩⟩

theorem userMessages_inOrder
    (apart : Apart blocks) : userMessages d blocks = .ok (orEmpty (inOrder d blocks)) := by
  unfold userMessages
  rcases apart with noResult | quiet
  · rw [texts_inOrder d noResult, noResult]
    cases texts blocks <;> rfl
  · rw [(results_inOrder reads sound quiet).1, if_pos quiet]
    rfl

theorem paired_user
    (answers : owed.Perm (resultIds blocks)) (apart : Apart blocks) (later : Paired [] rest) :
    Paired (owed.map .str) (orEmpty (inOrder d blocks) ++ rest) := by
  have said : ∀ s, resultIds blocks = [] → Paired (owed.map .str) (.user s :: rest) := by
    intro s none
    rw [none] at answers
    exact ⟨by rw [perm_nil.mp answers]; rfl, later⟩
  rcases apart with noResult | quiet
  · have nothing : resultIds blocks = [] := by rw [resultIds, noResult]; rfl
    rw [texts_inOrder d noResult]
    cases texts blocks <;> exact said _ nothing
  · have paired := (results_inOrder reads sound quiet).2 owed rest answers later
    have all := (results_inOrder reads sound quiet).2 _ [] (List.Perm.refl _) rfl
    cases order : inOrder d blocks with
    | nil => exact said "" (map_eq_nil_iff.mp (by rwa [order] at all))
    | cons first more => rwa [order] at paired

theorem ids_of_calls :
    ((blocks.filter (hasType "tool_use")).map (toolCall d hex)).map (·.id) =
      (callIds blocks).map .str := by
  induction blocks with
  | nil => rfl
  | cons block blocks ih =>
    rw [forall_mem_cons] at sound
    cases call : hasType "tool_use" block with
    | false => simpa [callIds, call] using ih sound.2
    | true =>
      obtain ⟨id, named, found⟩ := sound.1.call call
      have later := ih sound.2
      simp only [callIds, filter_cons_of_pos call, map_cons] at later ⊢
      rw [filterMap_cons, found, map_cons, later, toolCall, reads.callId block _ id named found]

end

theorem toolMessage_eq_ok {m : Message} (made : toolMessage d block = .ok m) :
    ∃ id s, m = .tool id s := by
  unfold toolMessage at made
  split at made
  · cases made
  · next id _ =>
    cases parts : ((contentBlocks block).filter (hasType "text")).mapM d.partText with
    | error e => simp [parts] at made
    | ok ss => exact ⟨id, join ss, by simpa [parts] using made.symm⟩

/-- Tool messages pay off what is owed one by one. -/
theorem Paired.of_tools {blocks : List Json} {tools : List Message} {owed : List Json}
    (made : blocks.mapM (toolMessage d) = .ok tools) (paired : Paired owed (tools ++ rest)) :
    ∃ left, owed.length = left.length + blocks.length ∧ Paired left rest := by
  induction blocks generalizing tools owed with
  | nil =>
    cases made
    exact ⟨owed, rfl, paired⟩
  | cons block blocks ih =>
    obtain ⟨m, ms, first, later, rfl⟩ := mapM_cons_ok made
    obtain ⟨id, s, rfl⟩ := toolMessage_eq_ok first
    obtain ⟨left, pays, paired⟩ := paired
    obtain ⟨left', count, paired⟩ := ih later paired
    exact ⟨left', by simp [pays.length_eq, count]; omega, paired⟩

theorem length_resultIds (sound : ∀ block ∈ blocks, Sound block) :
    (resultIds blocks).length = (blocks.filter (hasType "tool_result")).length := by
  rw [resultIds, length_filterMap_eq_countP, countP_eq_length]
  intro block mem
  obtain ⟨id, -, found⟩ := (sound block (mem_of_mem_filter mem)).result (of_mem_filter mem)
  rw [found]
  rfl

/-- A user turn that leaves nothing open has no text beside results. -/
theorem apart_of_paired {out : List Message} (sound : ∀ block ∈ blocks, Sound block)
    (answers : owed.Perm (resultIds blocks)) (made : userMessages d blocks = .ok out)
    (paired : Paired (owed.map .str) (out ++ rest)) : Apart blocks ∧ Paired [] rest := by
  unfold userMessages at made
  cases tools : (blocks.filter (hasType "tool_result")).mapM (toolMessage d) with
  | error e => simp [tools] at made
  | ok ms =>
    have count := answers.length_eq.trans (length_resultIds sound)
    have nothing (paid : owed.map Json.str = []) : blocks.filter (hasType "tool_result") = [] := by
      rw [map_eq_nil_iff] at paid
      rw [paid] at count
      exact length_eq_zero_iff.mp count.symm
    rw [tools] at made
    by_cases quiet : texts blocks = []
    · refine ⟨.inr quiet, ?_⟩
      cases ms with
      | nil =>
        obtain rfl : [.user ""] = out := by simpa [quiet, orEmpty] using made
        exact paired.2
      | cons m ms =>
        obtain rfl : m :: ms = out := by simpa [quiet, orEmpty] using made
        obtain ⟨left, sum, paired⟩ := Paired.of_tools tools paired
        have none : left = [] := by
          rw [length_map] at sum
          exact length_eq_zero_iff.mp (by omega)
        exact none ▸ paired
    · obtain rfl : .user (join (texts blocks)) :: ms = out := by
        simpa [quiet, orEmpty] using made
      have none := nothing paired.1
      refine ⟨.inl none, ?_⟩
      rw [none] at tools
      cases tools
      exact paired.2

/-- A valid conversation is translated turn by turn, in the order of its blocks and with every call
answered right behind it, if and only if no turn has text beside results. -/
theorem conversation_translated_in_order (d : Dialect) (either : d = rust ∨ d = python)
    (hex : Json → String) (body : Json) (role : Role)
    (talk : Conversation [] role (requestMessages body)) :
    translateRequest d hex body =
          .ok (systemMessages body ++ ((requestMessages body).map (turnInOrder d hex)).flatten) ∧
        Paired [] ((requestMessages body).map (turnInOrder d hex)).flatten ↔
      ∀ msg ∈ requestMessages body, roleOf msg = some .user → Apart (contentBlocks msg) := by
  have reads : d.Reads := by
    rcases either with rfl | rfl
    · exact rust_reads
    · exact python_reads
  constructor
  · rintro ⟨translated, paired⟩
    -- what is said in fact is what should be said, so it is paired
    have turns : ∀ {owed role messages}, Conversation owed role messages → ∀ out,
        messages.mapM (fun msg => translateMessage d hex (roleOf msg) (contentBlocks msg)) =
            .ok out → Paired (owed.map .str) out.flatten →
        ∀ msg ∈ messages, roleOf msg = some .user → Apart (contentBlocks msg) := by
      intro owed role messages talk
      induction talk with
      | done => simp
      | @user owed msg rest role sound answers _ ih =>
        intro out made paired
        obtain ⟨turn, out, said, later, rfl⟩ := mapM_cons_ok made
        rw [role] at said
        obtain ⟨apart, paired⟩ := apart_of_paired sound answers said paired
        exact forall_mem_cons.mpr ⟨fun _ => apart, ih out later paired⟩
      | assistant role sound _ _ ih =>
        intro out made paired
        obtain ⟨turn, out, said, later, rfl⟩ := mapM_cons_ok made
        rw [role] at said
        cases said
        refine forall_mem_cons.mpr ⟨fun user => ?_, ih out later ?_⟩
        · cases role.symm.trans user
        · rw [← ids_of_calls reads sound]
          exact paired.2
    unfold translateRequest at translated
    cases made : (requestMessages body).mapM fun msg =>
        translateMessage d hex (roleOf msg) (contentBlocks msg) with
    | error e => rw [made] at translated; cases translated
    | ok out =>
      rw [made] at translated
      have same := append_cancel_left (Except.ok.inj translated)
      exact turns talk out made (same ▸ paired)
  · intro apart
    -- along the conversation, with the results that are owed at each turn
    have turns : ∀ {owed role messages}, Conversation owed role messages →
        (∀ msg ∈ messages, roleOf msg = some .user → Apart (contentBlocks msg)) →
        messages.mapM (fun msg => translateMessage d hex (roleOf msg) (contentBlocks msg)) =
            .ok (messages.map (turnInOrder d hex)) ∧
          Paired (owed.map .str) (messages.map (turnInOrder d hex)).flatten := by
      intro owed role messages talk
      induction talk with
      | done => exact fun _ => ⟨rfl, rfl⟩
      | user role sound answers _ ih =>
        intro apart
        rw [forall_mem_cons] at apart
        obtain ⟨later, paired⟩ := ih apart.2
        rw [mapM_cons, later, map_cons, flatten_cons, turnInOrder, role,
          translateMessage, userMessages_inOrder reads sound (apart.1 role)]
        exact ⟨rfl, paired_user reads sound answers (apart.1 role) paired⟩
      | assistant role sound _ _ ih =>
        intro apart
        rw [forall_mem_cons] at apart
        obtain ⟨later, paired⟩ := ih apart.2
        rw [mapM_cons, later, map_cons, flatten_cons, turnInOrder, role]
        exact ⟨rfl, rfl, by rw [ids_of_calls reads sound]; exact paired⟩
    obtain ⟨translated, paired⟩ := turns talk apart
    exact ⟨by rw [translateRequest, translated]; rfl, paired⟩

end

def typed (type : String) (fields : List (String × Json)) : Json :=
  .obj (("type", .str type) :: fields)

/-- A call, and the turn with its result and what else is said. -/
def answered (said : List Json) : Json :=
  .obj [("messages", .arr [
    .obj [("role", .str "assistant"), ("content", .arr [typed "tool_use" [("id", .str "a")]])],
    .obj [("role", .str "user"),
      ("content", .arr (typed "tool_result" [("tool_use_id", .str "a")] :: said))]])]

theorem answered_conversation {said : List Json} (sound : ∀ block ∈ said, Sound block)
    (none : resultIds said = []) :
    Conversation [] .assistant (requestMessages (answered said)) := by
  refine .assistant rfl ?_ (nodup_singleton "a") (.user rfl ?_ ?_ (.done _))
  · rintro block (_ | ⟨_, ⟨⟩⟩)
    exact ⟨nofun, fun _ => ⟨"a", by decide, rfl⟩, nofun, forall_mem_singleton.mpr fun _ => rfl⟩
  · exact forall_mem_cons.mpr ⟨⟨nofun, nofun, fun _ => ⟨"a", by decide, rfl⟩,
      forall_mem_singleton.mpr fun _ => rfl⟩, sound⟩
  · change ["a"].Perm ("a" :: resultIds said)
    rw [none]

theorem bare_result_answers :
    Paired [] ((requestMessages (answered [])).map (turnInOrder rust fun _ => "")).flatten :=
  ((conversation_translated_in_order rust (.inl rfl) (fun _ => "") (answered []) .assistant
    (answered_conversation (by simp) rfl)).mpr fun msg mem _ => .inr (by fin_cases mem <;> rfl)).2

/-- Text after a result is said before it, between the call and its answer. -/
theorem text_parts_call_and_answer :
    let said := [typed "text" [("text", .str "go on")]]
    Conversation [] .assistant (requestMessages (answered said)) ∧
      ∀ d ∈ [rust, python], ∃ call, ¬Paired [] [call, .user "go on", .tool "a" ""] ∧
        translateRequest d (fun _ => "") (answered said) =
          .ok [call, .user "go on", .tool "a" ""] := by
  refine ⟨answered_conversation ?_ rfl, ?_⟩
  · rintro block (_ | ⟨_, ⟨⟩⟩)
    exact ⟨fun _ => rfl, nofun, nofun, forall_mem_singleton.mpr fun _ => rfl⟩
  · have unpaired : ∀ call : ToolCall,
        ¬Paired [] [.assistant none none [call], .user "go on", .tool "a" ""] := by
      simp [Paired]
    rw [forall_mem_cons, forall_mem_singleton]
    exact ⟨⟨_, unpaired _, rfl⟩, ⟨_, unpaired _, rfl⟩⟩

end Infera.Anthropic
