import Infera.Coroutine

/-! `MixedRouter`: a request is tried on one worker after the other until one takes
it, and a stream that breaks is carried on elsewhere. The entries of a run are the
policy's `on_request_started` and `on_request_finished`, the breaker's records and
the bytes that the client gets.

The model is given what the router cannot know: which target the policy picks, what
each await answers, and how often the client asks for more. `MigrationState` is any
machine with its three operations. -/

namespace Infera.Mixed

open Coroutine

abbrev Bytes := List UInt8

inductive Event
  | data (bytes : Bytes)
  | error (status : Option ℕ) (bytes : Bytes)
  | done (status : ℕ)

/-- `raised` stands for every exception that the router does not catch. -/
inductive Exn
  | cancelled
  | raised
  | retry (status : ℕ)

structure Target where
  workerId : String
  routeKey : String
  blocks : List ℕ

inductive Score
  | success
  | failure
  | neutral

inductive Act
  | scored (workerId : String) (score : Score)
  | sent (bytes : Bytes)

abbrev Run := Coroutine Target Act Exn

/-- The events of a worker's stream; after them it stops or raises. `closing` is the answer to
`aclose`. -/
structure Feed where
  events : List Event
  ending : Option Exn
  closing : Except Exn Unit

/-- The first `__anext__`; a stream without events counts as done. -/
def Feed.peek (feed : Feed) : Except Exn Event :=
  match feed.events, feed.ending with
  | event :: _, _ => .ok event
  | [], none => .ok (.done 200)
  | [], some e => .error e

structure MigrationState (σ : Type) where
  limit : ℕ
  observe : σ → Bytes → σ × Bytes
  canMigrate : σ → Bool
  /-- The state after it, and whether the continuation is sent on another path. -/
  nextContinuation : σ → σ × Bool
  asChatChunk : Bytes → Bytes

/-- What `generate` streams from, to be reshaped for the client or not. -/
structure Leg (σ : Type) where
  target : Target
  feed : Feed
  reshape : Bool
  state : Option σ

/-- One turn of the loop in `dispatch`. -/
structure Try (σ κ : Type) where
  pick : Except Exn (Option Target)
  nats : Bool
  admits : Except Exn Bool
  initial : σ
  feed : Feed
  unary : Except Exn (ℕ × κ)

/-- What `_resume_elsewhere` meets. -/
structure Migration where
  pick : Except Exn (Option Target)
  nats : Bool
  feed : Feed

/-- `failed` is the last error, or that no worker is left. -/
inductive Response (ρ : Type)
  | committed (status : ℕ) (body : ρ)
  | failed (status : ℕ)

def isWorkerFault (status : ℕ) : Bool := 500 ≤ status || status = 0

section
variable {σ κ ρ : Type} (M : MigrationState σ) (target : Target) (tries : List (Try σ κ))
  (migrations : List Migration) (reshape : Bool) (n : ℕ) (state : Option σ)

def failBefore (feed : Feed) (status : Option ℕ) : Run ρ := do
  await feed.closing
  tell (.finished target)
  throw (.retry ((status.filter (400 ≤ ·)).getD 502))

def attemptStream (s : Try σ κ) : Run (ℕ × Leg σ) := do
  match ← await s.feed.peek with
  | .data _ =>
    let state := if s.nats && 0 < M.limit then some s.initial else none
    pure (200, ⟨target, s.feed, false, state⟩)
  | .error status _ => failBefore target s.feed status
  | .done status => failBefore target s.feed (some status)

def attemptUnary (s : Try σ κ) : Run (ℕ × κ) :=
  (await s.unary).cleanup (tell (.finished target))

def attempt (send : Target → Try σ κ → Run (ℕ × ρ)) (target : Target) (s : Try σ κ) :
    Run (ℕ × ρ) := do
  tell (.started target)
  let admitted ← await (if s.nats then s.admits else .ok true)
  if admitted then send target s
  else do
    tell (.finished target)
    throw (.retry 429)

def scored (target : Target) (score : Score) : Run Unit :=
  tell (.other (.scored target.workerId score))

def dispatch (send : Target → Try σ κ → Run (ℕ × ρ)) (last : Option ℕ) :
    List (Try σ κ) → Run (Response ρ)
  | [] => pure (.failed (last.getD 503))
  | s :: later => do
    match ← await s.pick with
    | none => pure (.failed (last.getD 503))
    | some target =>
      handle (do
        let (status, body) ← attempt send target s
        scored target (if status < 400 then .success else .neutral)
        pure (.committed status body))
        fun
        | .retry status => do
          scored target (if isWorkerFault status then .failure else .neutral)
          dispatch send (some status) later
        | e => throw e

/-- `yield`: the client asks for more while `n` lasts, and then drops the generator. -/
def send (bytes : Bytes) : Run ℕ := do
  tell (.other (.sent bytes))
  match n with
  | 0 => throw .cancelled
  | n + 1 => pure n

def transform (raw : Bytes) : Option σ × Bytes :=
  let (state, out) := match state with
    | none => (none, raw)
    | some s => (some (M.observe s raw).1, (M.observe s raw).2)
  (state, if reshape then M.asChatChunk out else out)

def drainingNotice : Bytes := "infera: worker draining".toUTF8.toList

/-- A stream that breaks returns whether its worker is draining, and what is left. -/
def relay (reshape : Bool) (ending : Option Exn) :
    List Event → ℕ → Option σ → Run (Option (Bool × ℕ × Option σ))
  | .data [] :: rest, n, state => relay reshape ending rest n state
  | .data raw :: rest, n, state => do
    let n ← send n (transform M reshape state raw).2
    relay reshape ending rest n (transform M reshape state raw).1
  | .error _ text :: _, n, state => pure (some (drainingNotice.isPrefixOf text, n, state))
  | .done _ :: _, _, _ => pure none
  | [], n, state =>
    match ending with
    | none => pure (some (false, n, state))
    | some e => throw e

def resumeElsewhere (state : σ) (m : Migration) : Run (Option (Leg σ)) := do
  match ← await m.pick with
  | none => pure none
  | some target =>
    if m.nats then do
      tell (.started target)
      match ← await m.feed.peek with
      | .data _ =>
        let (next, reshape) := M.nextContinuation state
        pure (some ⟨target, m.feed, reshape, some next⟩)
      | _ => do
        await m.feed.closing
        tell (.finished target)
        pure none
    else pure none

def carryOn (m : Migration) : Run (Option (Leg σ)) :=
  match state.filter M.canMigrate with
  | some s => resumeElsewhere M s m
  | none => pure none

def midStreamError (draining : Bool) : Bytes :=
  ("data: \x7b\"error\":\"worker " ++ target.workerId ++ " " ++
    (if draining then "is shutting down" else "failed") ++ " mid-stream\"\x7d\n\n").toUTF8.toList

def breakOff (target : Target) (draining : Bool) : Run Unit := do
  let _ ← send n (midStreamError target draining)

/-- One round of the loop in `generate`, with the leg it is to go on with. -/
def follow (m : Migration) (n : ℕ) (leg : Leg σ) : Run (Option (ℕ × Leg σ)) := do
  match ← relay M leg.reshape leg.feed.ending leg.feed.events n leg.state with
  | none => pure none
  | some (draining, n, state) =>
    match ← carryOn M state m with
    | some next => pure (some (n, next))
    | none => do
      breakOff n leg.target draining
      pure none

-- The current target is finished when the next leg takes over and when `generate` is left.
-- After the last migration nobody else serves the model.
def generate : List Migration → ℕ → Leg σ → Run Unit
  | [], n, leg =>
    cleanup (do
      match ← relay M leg.reshape leg.feed.ending leg.feed.events n leg.state with
      | none => pure ()
      | some (draining, n, _) => breakOff n leg.target draining) (tell (.finished leg.target))
  | m :: later, n, leg => do
    match ← (follow M m n leg).cleanup (tell (.finished leg.target)) with
    | none => pure ()
    | some (n, next) => generate later n next

/-- A generator that is never advanced does nothing. -/
def serve : ℕ → Response (Leg σ) → Run ℕ
  | _, .failed status => pure status
  | 0, .committed status _ => pure status
  | n + 1, .committed status leg => do
    generate M migrations n leg
    pure status

def requestStream (advances : ℕ) : Run ℕ := do
  serve M migrations advances (← dispatch (attemptStream M) none tries)

def requestUnary : Run (ℕ × Option κ) := do
  match ← dispatch attemptUnary none tries with
  | .failed status => pure (status, none)
  | .committed status content => pure (status, some content)

/-- The first event arrives, and a stream that is not taken up can be closed. -/
structure Feed.Opens (feed : Feed) : Prop where
  peek : ∃ event, feed.peek = .ok event
  closing : ∀ event, feed.peek = .ok event →
    (∃ raw, event = .data raw) ∨ ∃ u, feed.closing = .ok u

def Response.held (held : ρ → Multiset Target) : Response ρ → Multiset Target
  | .committed _ body => held body
  | .failed _ => 0

variable {M} (held : Multiset Target) {m : Migration}

theorem failBefore_leaves {target : Target} {feed : Feed} (closes : ∃ u, feed.closing = .ok u)
    (status : Option ℕ) (held : ρ → Multiset Target) :
    (failBefore target feed status : Run ρ).Leaves {target} held 0 :=
  .bind (leaves_await_ok closes) fun _ _ =>
    .bind (leaves_finished target) fun _ _ => leaves_throw _

theorem attemptStream_leaves {s : Try σ κ} (opens : s.feed.Opens) (target : Target) :
    (attemptStream M target s).Leaves {target} (fun r => {r.2.target}) 0 := by
  refine .bind (leaves_await_ok opens.peek) fun event peeked => ?_
  rcases opens.closing event peeked with ⟨raw, rfl⟩ | closes
  · exact leaves_pure rfl
  · cases event with
    | data => exact leaves_pure rfl
    | error | done => exact failBefore_leaves closes _ _

theorem attemptUnary_leaves (s : Try σ κ) (target : Target) :
    (attemptUnary target s).Leaves {target} (fun _ => 0) 0 :=
  .cleanup (leaves_await _) (fun _ => leaves_finished target) (leaves_finished target)

theorem dispatch_leaves {send : Target → Try σ κ → Run (ℕ × ρ)} {tries : List (Try σ κ)}
    (held : ρ → Multiset Target) (last : Option ℕ)
    (admits : ∀ s ∈ tries, s.nats = true → ∃ b, s.admits = .ok b)
    (sends : ∀ s ∈ tries, ∀ target, (send target s).Leaves {target} (fun r => held r.2) 0) :
    (dispatch send last tries).Leaves 0 (Response.held held) 0 := by
  induction tries generalizing last with
  | nil => exact leaves_pure rfl
  | cons s later ih =>
    rw [List.forall_mem_cons] at admits sends
    have answered : ∃ b, (if s.nats then s.admits else .ok true) = .ok b := by
      cases nats : s.nats with
      | true => exact admits.1 nats
      | false => exact ⟨true, rfl⟩
    have attempted : ∀ target, (attempt send target s).Leaves 0 (fun r => held r.2) 0 := by
      intro target
      refine .bind (leaves_started target) fun _ _ =>
        .bind (leaves_await_ok answered) fun b _ => ?_
      cases b with
      | false => exact .bind (leaves_finished target) fun _ _ => leaves_throw _
      | true => exact sends.1 target
    refine .bind (leaves_await _) fun picked _ => ?_
    cases picked with
    | none => exact leaves_pure rfl
    | some target =>
      refine .handle (m := 0) ?_ fun e _ => ?_
      · exact .bind (attempted target) fun _ _ =>
          .bind (leaves_other _) fun _ _ => leaves_pure rfl
      · cases e with
        | retry status => exact .bind (leaves_other _) fun _ _ => ih _ admits.2 sends.2
        | cancelled | raised => exact leaves_throw _

theorem send_leaves (n : ℕ) (bytes : Bytes) : (send n bytes).Leaves held (fun _ => held) held := by
  refine .bind (leaves_other _) fun _ _ => ?_
  cases n with
  | zero => exact leaves_throw _
  | succ n => exact leaves_pure rfl

theorem relay_leaves (reshape : Bool) (ending : Option Exn)
    (events : List Event) (n : ℕ) (state : Option σ) :
    (relay M reshape ending events n state).Leaves held (fun _ => held) held := by
  fun_induction relay M reshape ending events n state with
  | case1 _ _ _ ih => exact ih
  | case2 _ _ _ _ _ ih => exact .bind (send_leaves held _ _) fun n _ => ih n
  | case3 | case4 | case5 => exact leaves_pure rfl
  | case6 => exact leaves_throw _

theorem resumeElsewhere_leaves (state : σ)
    (opens : m.feed.Opens) : (resumeElsewhere M state m).Leaves held
      (fun next => next.elim held fun next => next.target ::ₘ held) held := by
  refine .bind (leaves_await _) fun picked _ => ?_
  cases picked with
  | none => exact leaves_pure rfl
  | some target =>
    dsimp only
    split
    · refine .bind (leaves_started target) fun _ _ =>
        .bind (leaves_await_ok opens.peek) fun event peeked => ?_
      split
      · exact leaves_pure rfl
      · rename_i other
        have closes := (opens.closing _ peeked).resolve_left fun ⟨raw, same⟩ => other raw same
        exact .bind (leaves_await_ok closes) fun _ _ =>
          .bind (leaves_finished target) fun _ _ => leaves_pure rfl
    · exact leaves_pure rfl

theorem carryOn_leaves (state : Option σ) (opens : m.feed.Opens) : (carryOn M state m).Leaves held
      (fun next => next.elim held fun next => next.target ::ₘ held) held := by
  unfold carryOn
  split
  · exact resumeElsewhere_leaves held _ opens
  · exact leaves_pure rfl

theorem breakOff_leaves (n : ℕ) (target : Target) (draining : Bool) :
    (breakOff n target draining).Leaves held (fun _ => held) held :=
  .bind (send_leaves held _ _) fun _ _ => leaves_pure rfl

theorem follow_leaves (n : ℕ) (leg : Leg σ) (opens : m.feed.Opens) :
    (follow M m n leg).Leaves {leg.target}
      (fun next => leg.target ::ₘ next.elim 0 fun next => {next.2.target}) {leg.target} := by
  refine .bind (relay_leaves _ _ _ _ _ _) fun broken _ => ?_
  cases broken with
  | none => exact leaves_pure rfl
  | some broken =>
    refine .bind (carryOn_leaves _ _ opens) fun next _ => ?_
    cases next with
    | none => exact .bind (breakOff_leaves _ _ _ _) fun _ _ => leaves_pure rfl
    | some next => exact leaves_pure (Multiset.cons_swap next.target leg.target 0)

theorem generate_leaves {migrations : List Migration} (n : ℕ) (leg : Leg σ)
    (opens : ∀ m ∈ migrations, m.feed.Opens) :
    (generate M migrations n leg).Leaves {leg.target} (fun _ => 0) 0 := by
  induction migrations generalizing n leg with
  | nil =>
    refine .cleanup (.bind (relay_leaves _ _ _ _ _ _) fun broken _ => ?_)
      (fun _ => leaves_finished leg.target) (leaves_finished leg.target)
    cases broken with
    | none => exact leaves_pure rfl
    | some broken => exact breakOff_leaves _ _ _ _
  | cons m later ih =>
    rw [List.forall_mem_cons] at opens
    refine .bind (.cleanup (follow_leaves n leg opens.1) (fun _ => leaves_finished _)
      (leaves_finished _)) fun next _ => ?_
    cases next with
    | none => exact leaves_pure rfl
    | some next => exact ih _ _ opens.2

/-- Every start of a request is finished once, for the same target, if the awaits between a start
and what releases it return, and a body that is streamed is asked for at least once. -/
theorem request_load_balanced (M : MigrationState σ) (tries : List (Try σ κ))
    (migrations : List Migration) (advances : ℕ)
    (admits : ∀ s ∈ tries, s.nats = true → ∃ b, s.admits = .ok b) :
    Moves (requestUnary tries).log 0 0 ∧
      ((∀ s ∈ tries, s.feed.Opens) → (∀ m ∈ migrations, m.feed.Opens) → advances ≠ 0 →
        Moves (requestStream M tries migrations advances).log 0 0) := by
  constructor
  · refine Leaves.moves (m := 0) (.bind (dispatch_leaves (fun _ => 0) none admits fun s _ =>
      attemptUnary_leaves s) fun response _ => ?_)
    cases response <;> exact leaves_pure rfl
  · intro opens resumes advanced
    obtain ⟨n, rfl⟩ := Nat.exists_eq_succ_of_ne_zero advanced
    refine Leaves.moves (m := 0) (.bind (dispatch_leaves (fun leg => {leg.target}) none admits
      fun s mem => attemptStream_leaves (opens s mem)) fun response _ => ?_)
    cases response with
    | failed => exact leaves_pure rfl
    | committed status leg => exact .bind (generate_leaves n leg resumes) fun _ _ => leaves_pure rfl

end

def carrying : MigrationState Unit where
  limit := 1
  observe _ raw := ((), raw)
  canMigrate _ := true
  nextContinuation _ := ((), false)
  asChatChunk raw := raw

def Feed.of (events : List Event) : Feed := ⟨events, none, .ok ()⟩

def offer (id : String) (feed : Feed) : Try Unit Unit :=
  ⟨.ok (some ⟨id, id, [1]⟩), true, .ok true, (), feed, .error .raised⟩

theorem Feed.of_opens (event : Event) (rest : List Event) : (Feed.of (event :: rest)).Opens :=
  ⟨⟨event, rfl⟩, fun _ _ => .inr ⟨(), rfl⟩⟩

/-- The first worker refuses, the second breaks off and the third goes on. -/
theorem migrated_request_balanced :
    Moves (requestStream carrying [offer "a" (.of [.error (some 500) []]),
        offer "b" (.of [.data [1]])]
      [⟨.ok (some ⟨"c", "c", [1]⟩), true, .of [.data [2], .done 200]⟩] 3).log 0 0 :=
  (request_load_balanced carrying _ _ 3 (by simp [offer])).2
    (by simp [offer, Feed.of_opens]) (by simp [Feed.of_opens]) (by decide)

/-- The client leaves before the first event: the start is never finished. -/
theorem cancelled_peek_keeps_load :
    let log := (requestStream carrying [offer "a" ⟨[], some .cancelled, .ok ()⟩] [] 1).log
    log = [.started ⟨"a", "a", [1]⟩] ∧ ¬Moves log 0 0 := by
  exact ⟨rfl, Multiset.cons_ne_zero⟩

end Infera.Mixed
