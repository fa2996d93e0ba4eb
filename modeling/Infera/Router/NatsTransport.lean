import Infera.Router.Mixed

/-! An engine's reply on its way to `MixedRouter`: read by the router itself over
HTTP, or by the worker's `_do_proxy` and sent in frames over NATS. The reply is in
time and the connection to the broker stays up.

The proxy sends what it reads before it says with which status, so a refusal with a
body looks like a stream that has begun. Two requests are compared by their attempts,
breaker records and bytes, and by the status if a worker takes them. -/

namespace Infera.Mixed

open Coroutine List

inductive Reply
  | refused
  | answered (status : ℕ) (final : 200 ≤ status) (chunks : List Bytes)

def body (chunks : List Bytes) : List Bytes := chunks.filter (· ≠ [])

def httpEvents : Reply → List Event
  | .refused => [.error none "worker stream transport error".toUTF8.toList]
  | .answered status _ chunks =>
    if 400 ≤ status then [.error (some status) chunks.flatten]
    else (body chunks).map .data ++ [.done 200]

/-- The payloads that the broker takes, the text of an exception, and `json.loads`. -/
structure Bus (κ : Type) where
  accepts : Bytes → Bool
  failure : Bytes
  loads : Bytes → Option κ
  loads_nil : loads [] = none
  empty : κ

section
variable {σ κ ρ : Type} (M : MigrationState σ) (bus : Bus κ)

def frames (status : ℕ) : List Bytes → List Event
  | [] => [.done status]
  | chunk :: rest =>
    if bus.accepts chunk then .data chunk :: frames status rest else [.error none bus.failure]

/-- `_do_proxy`: a reply that is not streamed is one frame. -/
def natsEvents (stream : Bool) : Reply → List Event
  | .refused => [.error none bus.failure]
  | .answered status _ chunks =>
    frames bus status (if stream then body chunks else [chunks.flatten])

def conclude (status : ℕ) : Option κ → Except Exn (ℕ × κ)
  | none => .error (.retry 502)
  | some content =>
    if isWorkerFault status then .error (.retry status) else .ok (status, content)

def httpUnary : Reply → Except Exn (ℕ × κ)
  | .refused => .error (.retry 502)
  | .answered status _ chunks => conclude status (bus.loads chunks.flatten)

def natsUnary : List Event → Bytes → Except Exn (ℕ × κ)
  | .data chunk :: rest, raw => natsUnary rest (raw ++ chunk)
  | .error status _ :: _, _ => .error (.retry (status.getD 502))
  | .done status :: _, raw => conclude (if status = 0 then 200 else status)
      (if raw = [] then some bus.empty else bus.loads raw)
  | [], raw => conclude 200 (if raw = [] then some bus.empty else bus.loads raw)

/-- A target that the policy picks, the state of its migrations, and the reply it gives. -/
structure Exchange (σ : Type) where
  target : Target
  initial : σ
  reply : Reply

def via (nats : Bool) (x : Exchange σ) : Try σ κ where
  pick := .ok (some x.target)
  nats := nats
  admits := .ok true
  initial := x.initial
  feed := ⟨if nats then natsEvents bus true x.reply else httpEvents x.reply,
    none, .ok ()⟩
  unary := if nats then natsUnary bus (natsEvents bus false x.reply) []
    else httpUnary bus x.reply

/-- Every reply that a request gets to, which ends with the first one it commits to. -/
def Tried (alike commits : Exchange σ → Prop) : List (Exchange σ) → Prop
  | [] => True
  | x :: xs => alike x ∧ (commits x ∨ Tried alike commits xs)

def Exchange.Streamed (x : Exchange σ) : Prop :=
  match x.reply with
  | .refused => False
  | .answered status _ chunks => status < 400 ∧ body chunks ≠ []

/-- The chunks pass the broker and `observe` as they are. A refused one makes no difference only
if it is the last and reads like the notice that the router sends in its place. -/
def Unchanged (target : Target) : Option σ → List Bytes → Prop
  | _, [] => True
  | state, chunk :: rest =>
    if bus.accepts chunk then (transform M false state chunk).2 = chunk ∧
      Unchanged target (transform M false state chunk).1 rest
    else rest = [] ∧ state.filter M.canMigrate = none ∧
      midStreamError target (drainingNotice.isPrefixOf bus.failure) = chunk

/-- The state that a stream over NATS starts from. -/
def Exchange.observer (x : Exchange σ) : Option σ := if 0 < M.limit then some x.initial else none

/-- What the broker does with the first chunk decides what the status has to be. -/
def Exchange.StreamsAlike (x : Exchange σ) : Prop :=
  match x.reply with
  | .refused => True
  | .answered status _ chunks =>
    match body chunks with
    | [] => True
    | chunk :: rest =>
      if bus.accepts chunk then status < 400 ∧
        Unchanged M bus x.target (x.observer M) (chunk :: rest)
      else 500 ≤ status

def Exchange.Answered (x : Exchange σ) : Prop := ∃ answer, httpUnary bus x.reply = .ok answer

/-- A 5xx, or a body that the broker takes and is not empty, or one it refuses that is no JSON. -/
def Exchange.AnswersAlike (x : Exchange σ) : Prop :=
  match x.reply with
  | .refused => True
  | .answered status _ chunks =>
    if bus.accepts chunks.flatten then 500 ≤ status ∨ chunks.flatten ≠ []
    else 500 ≤ status ∨ bus.loads chunks.flatten = none

/-- The client's side of a request: its status only if a worker took it. -/
def serveTaken (migrations : List Migration) (advances : ℕ) : Response (Leg σ) → Run (Option ℕ)
  | .failed _ => pure none
  | .committed status leg => do
    let status ← serve M migrations advances (.committed status leg)
    pure (some status)

def streamed (nats : Bool) (xs : List (Exchange σ)) (migrations : List Migration) (advances : ℕ) :
    Run (Option ℕ) := do
  let tries := xs.map (via bus nats)
  serveTaken M migrations advances (← dispatch (attemptStream M) none tries)

def answered (nats : Bool) (xs : List (Exchange σ)) : Run (Option (ℕ × κ)) := do
  let (status, content) ← requestUnary (xs.map (via bus nats))
  pure (content.map (status, ·))

variable {M bus} {s : Try σ κ} {log : List (Entry Target Act)}

/-- A leg that is streamed as it comes. -/
def Leg.of (target : Target) (state : Option σ) (events : List Event) : Leg σ :=
  ⟨target, ⟨events, none, .ok ()⟩, false, state⟩

section
variable (migrations : List Migration) (target : Target) (state : Option σ) (events : List Event)
  (n : ℕ) {chunk : Bytes}

theorem generate_data_zero (full : chunk ≠ []) :
    generate M migrations 0 (.of target state (.data chunk :: events)) =
      ⟨[.other (.sent (transform M false state chunk).2), .finished target],
        .error .cancelled⟩ := by
  cases migrations <;> simp only [generate, follow, Leg.of, relay] <;> rfl

theorem relay_data_succ (full : chunk ≠ []) :
    relay M false none (.data chunk :: events) (n + 1) state =
      (relay M false none events n (transform M false state chunk).1).noting
        [.other (.sent (transform M false state chunk).2)] := by
  rw [relay]
  · rfl
  · exact full

theorem generate_data_succ (full : chunk ≠ []) :
    generate M migrations (n + 1) (.of target state (.data chunk :: events)) =
      (generate M migrations n (.of target (transform M false state chunk).1 events)).noting
        [.other (.sent (transform M false state chunk).2)] := by
  cases migrations <;>
    simp only [generate, follow, Leg.of, relay_data_succ _ _ _ full, noting_bind, noting_cleanup]

theorem generate_done (status : ℕ) :
    generate M migrations n (.of target state [.done status]) = ⟨[.finished target], .ok ()⟩ := by
  cases migrations <;> rfl

/-- A stream that breaks and cannot be carried on ends with the notice. -/
theorem generate_broken (text : Bytes) (stays : state.filter M.canMigrate = none) :
    generate M migrations n (.of target state [.error none text]) =
      ⟨[.other (.sent (midStreamError target (drainingNotice.isPrefixOf text))),
        .finished target], if n = 0 then .error .cancelled else .ok ()⟩ := by
  cases migrations <;> cases n <;>
    simp only [generate, follow, Leg.of, relay, pure_bind, carryOn, stays] <;> rfl

end

/-- A migration to a target that ends at once. -/
def unresumed (target : Target) : Migration :=
  ⟨.ok (some target), true, ⟨[.done 200], none, .ok ()⟩⟩

theorem starts_elsewhere (target : Target) (text : Bytes) {state : Option σ} {s : σ}
    (carried : state.filter M.canMigrate = some s) :
    (generate M [unresumed target] 0 (.of target state [.error none text])).log.head? =
      some (.started target) := by
  simp only [generate, follow, Leg.of, relay, pure_bind, carryOn, carried]
  rfl

/-- Over NATS the chunks reach the client as over HTTP, however often it asks and wherever else
the request could be carried. -/
theorem generate_alike_iff (target : Target) (status : ℕ) {chunks : List Bytes} (state : Option σ)
    (full : ∀ chunk ∈ chunks, chunk ≠ []) :
    (∀ migrations n, generate M migrations n
          (.of target state (frames bus status chunks)) =
        generate M migrations n (.of target none (chunks.map .data ++ [.done 200]))) ↔
      Unchanged M bus target state chunks := by
  induction chunks generalizing state with
  | nil => simp [frames, generate_done, Unchanged]
  | cons chunk rest ih =>
    rw [forall_mem_cons] at full
    rw [map_cons, cons_append, frames, Unchanged]
    split_ifs with accepted
    · rw [← ih _ full.2]
      constructor
      · intro same
        have first := same [] 0
        simp only [generate_data_zero _ _ _ _ full.1, mk.injEq, cons.injEq, Entry.other.injEq,
          Act.sent.injEq] at first
        refine ⟨first.1.1, fun migrations n => ?_⟩
        have later := same migrations (n + 1)
        simp only [generate_data_succ _ _ _ _ _ full.1, first.1.1] at later
        exact (noting_inj _).mp later
      · rintro ⟨unchanged, later⟩ migrations n
        cases n with
        | zero => simp only [generate_data_zero _ _ _ _ full.1, unchanged]; rfl
        | succ n =>
          simp only [generate_data_succ _ _ _ _ _ full.1, unchanged, later]
          rfl
    · constructor
      · intro same
        have stays : state.filter M.canMigrate = none := by
          rw [Option.eq_none_iff_forall_ne_some]
          intro s carried
          have first := congrArg (·.log.head?) (same [unresumed target] 0)
          rw [generate_data_zero _ _ _ _ full.1] at first
          cases (starts_elsewhere target bus.failure carried).symm.trans first
        have notice := same [] 0
        have last := same [] 1
        rw [generate_broken _ _ _ _ _ stays, generate_data_zero _ _ _ _ full.1] at notice
        rw [generate_broken _ _ _ _ _ stays, generate_data_succ _ _ _ _ _ full.1] at last
        simp only [mk.injEq, cons.injEq, Entry.other.injEq, Act.sent.injEq] at notice
        refine ⟨?_, stays, notice.1.1⟩
        cases rest with
        | nil => rfl
        | cons next rest =>
          have later := (forall_mem_cons.mp full.2).1
          rw [map_cons, cons_append, generate_data_zero _ _ _ _ later] at last
          cases congrArg (·.result) last
      · rintro ⟨rfl, stays, rfl⟩ migrations n
        rw [generate_broken _ _ _ _ _ stays]
        cases n with
        | zero => rw [generate_data_zero _ _ _ _ full.1]; rfl
        | succ n =>
          rw [generate_data_succ _ _ _ _ _ full.1, map_nil, nil_append, generate_done]
          rfl

/-- The breaker's record of a request that a worker took, and of one that goes to the next. -/
def scoredTaken (target : Target) (status : ℕ) : Entry Target Act :=
  .other (.scored target.workerId (if status < 400 then .success else .neutral))

def scoredRetried (target : Target) (code : ℕ) : Entry Target Act :=
  .other (.scored target.workerId (if isWorkerFault code then .failure else .neutral))

/-- What comes of one exchange over the two transports, for a client that goes on with `k`. -/
inductive Compared {ι α : Type} (send : Target → Try σ κ → Run (ℕ × ρ))
    (k : ι → Response ρ → Run α) (target : Target) (carry : Bool → Try σ κ) (alike commits : Prop) :
    Prop
  | retried (log : List (Entry Target Act)) (code : Bool → ℕ)
      (failed : ∀ nats, attempt send target (carry nats) = ⟨log, .error (.retry (code nats))⟩)
      (same : alike ↔ isWorkerFault (code true) = isWorkerFault (code false))
      (goes_on : ¬commits)
  | taken (log : List (Entry Target Act)) (status : ℕ) (content : Bool → ρ)
      (taken : ∀ nats, attempt send target (carry nats) = ⟨log, .ok (status, content nats)⟩)
      (same : alike ↔ ∀ i, k i (.committed status (content true)) =
        k i (.committed status (content false)))
      (commits : commits)
  | apart (nats : Bool) (log log' : List (Entry Target Act)) (status code : ℕ) (content : ρ)
      (taken : attempt send target (carry nats) = ⟨log, .ok (status, content)⟩)
      (failed : attempt send target (carry !nats) = ⟨log', .error (.retry code)⟩)
      (differ : ∀ r r' : Run α, r.noting (log ++ [scoredTaken target status]) ≠
        r'.noting (log' ++ [scoredRetried target code]))
      (unlike : ¬alike)

section
variable {send : Target → Try σ κ → Run (ℕ × ρ)} {target : Target} {code status : ℕ} {content : ρ}
  {ι α : Type}

theorem dispatch_retried (picked : s.pick = .ok (some target))
    (failed : attempt send target s = ⟨log, .error (.retry code)⟩) (last : Option ℕ)
    (later : List (Try σ κ)) (k : Response ρ → Run α) :
    dispatch send last (s :: later) >>= k = (dispatch send (some code) later >>= k).noting
      (log ++ [scoredRetried target code]) := by
  simp only [dispatch, picked, await, failed, handle, bind, scored, Coroutine.tell, noting]
  cases ended : (dispatch send (some code) later).result <;> simp [scoredRetried]

theorem dispatch_taken (picked : s.pick = .ok (some target))
    (taken : attempt send target s = ⟨log, .ok (status, content)⟩) (last : Option ℕ)
    (later : List (Try σ κ)) (k : Response ρ → Run α) :
    dispatch send last (s :: later) >>= k = (k (.committed status content)).noting
      (log ++ [scoredTaken target status]) := by
  simp only [dispatch, picked, await, taken, handle, bind, scored, Coroutine.tell, pure, noting]
  simp [scoredTaken]

/-- Two requests go alike if every exchange does that they get to. -/
theorem dispatch_alike_iff [Nonempty ι] {k : ι → Response ρ → Run α}
    {carry : Bool → Exchange σ → Try σ κ} {alike commits : Exchange σ → Prop}
    (picked : ∀ nats x, (carry nats x).pick = .ok (some x.target))
    (blind : ∀ i status status', k i (.failed status) = k i (.failed status'))
    (compared : ∀ x, Compared send k x.target (carry · x) (alike x) (commits x))
    (xs : List (Exchange σ)) (last last' : Option ℕ) :
    (∀ i, dispatch send last (xs.map (carry true)) >>= k i =
        dispatch send last' (xs.map (carry false)) >>= k i) ↔ Tried alike commits xs := by
  induction xs generalizing last last' with
  | nil => exact iff_of_true (fun i => blind i _ _) trivial
  | cons x xs ih =>
    rw [map_cons, map_cons, Tried]
    cases compared x with
    | retried log code failed same goes_on =>
      simp only [dispatch_retried (picked _ x) (failed _), same, goes_on, false_or,
        ← ih (some (code true)) (some (code false)), noting_concat_inj, forall_and]
      refine and_congr_left' ⟨fun scores => ?_, fun faults _ => by rw [scoredRetried, faults]; rfl⟩
      have score := scores (Classical.arbitrary ι)
      unfold scoredRetried at score
      split_ifs at score <;> simp_all
    | taken log status content taken same commits =>
      simp only [dispatch_taken (picked _ x) (taken _), noting_inj, same, commits, true_or,
        and_true]
    | apart nats log log' status code content taken failed differ unlike =>
      refine iff_of_false (fun same => ?_) fun both => unlike both.1
      have same := same (Classical.arbitrary ι)
      cases nats with
      | false =>
        rw [Bool.not_false] at failed
        rw [dispatch_retried (picked _ x) failed, dispatch_taken (picked _ x) taken] at same
        exact differ _ _ same.symm
      | true =>
        rw [Bool.not_true] at failed
        rw [dispatch_taken (picked _ x) taken, dispatch_retried (picked _ x) failed] at same
        exact differ _ _ same

end

theorem attempt_taken (target : Target) (admits : s.admits = .ok true)
    (peek : ∃ raw, s.feed.peek = .ok (.data raw)) :
    attempt (attemptStream M) target s = ⟨[.started target], .ok (200, ⟨target, s.feed, false,
      if s.nats && 0 < M.limit then some s.initial else none⟩)⟩ := by
  obtain ⟨raw, peek⟩ := peek
  simp only [attempt, attemptStream, admits, peek, ite_self]
  rfl

theorem attempt_refused (target : Target) {status : Option ℕ}
    (admits : s.admits = .ok true) (closing : s.feed.closing = .ok ())
    (peek : ∃ event, s.feed.peek = .ok event ∧
      (some event = status.map .done ∨ ∃ text, event = .error status text)) :
    attempt (attemptStream M) target s = ⟨[.started target, .finished target],
      .error (.retry ((status.filter (400 ≤ ·)).getD 502))⟩ := by
  obtain ⟨event, peek, done | ⟨text, rfl⟩⟩ := peek
  · obtain ⟨code, rfl, rfl⟩ := Option.map_eq_some_iff.mp done.symm
    simp only [attempt, attemptStream, failBefore, admits, closing, peek, ite_self]
    rfl
  · simp only [attempt, attemptStream, failBefore, admits, closing, peek, ite_self]
    rfl

theorem serveTaken_alike_iff {leg leg' : Leg σ} :
    (∀ i : List Migration × ℕ, serveTaken M i.1 i.2 (.committed 200 leg) =
        serveTaken M i.1 i.2 (.committed 200 leg')) ↔
      ∀ migrations n, generate M migrations n leg = generate M migrations n leg' := by
  constructor
  · intro same migrations n
    have served := same (migrations, n + 1)
    simp only [serveTaken, serve, bind, pure] at served
    cases left : generate M migrations n leg with
    | mk log result =>
      cases right : generate M migrations n leg' with
      | mk log' result' =>
        rw [left, right] at served
        cases result <;> cases result' <;> simp_all
  · rintro same ⟨migrations, _ | n⟩
    · rfl
    · simp only [serveTaken, serve, same]

section
variable (M bus) (target : Target) (initial : σ) {status : ℕ}
  (final : 200 ≤ status) {chunks : List Bytes}

theorem http_refuses (refusal : 400 ≤ status) :
    attempt (attemptStream M) target
        (via bus false ⟨target, initial, .answered status final chunks⟩) =
      ⟨[.started target, .finished target], .error (.retry status)⟩ := by
  rw [@attempt_refused _ _ _ _ target (some status) rfl rfl]
  · simp [Option.filter_some, refusal]
  · exact ⟨_, by simp [via, Feed.peek, httpEvents, refusal], .inr ⟨chunks.flatten, rfl⟩⟩

theorem http_takes (served : ¬400 ≤ status) (full : body chunks ≠ []) :
    attempt (attemptStream M) target
        (via bus false ⟨target, initial, .answered status final chunks⟩) =
      ⟨[.started target], .ok (200, .of target none ((body chunks).map .data ++ [.done 200]))⟩ := by
  obtain ⟨chunk, rest, full⟩ := exists_cons_of_ne_nil full
  have read : httpEvents (.answered status final chunks) =
      (body chunks).map .data ++ [.done 200] := if_neg served
  rw [attempt_taken target rfl ⟨chunk, by simp [via, Feed.peek, read, full]⟩]
  simp [via, read, Leg.of]

theorem nats_takes {chunk : Bytes} {rest : List Bytes} (full : body chunks = chunk :: rest)
    (accepted : bus.accepts chunk = true) :
    let x : Exchange σ := ⟨target, initial, .answered status final chunks⟩
    attempt (attemptStream M) target (via bus true x) =
      ⟨[.started target], .ok (200, .of target (x.observer M)
        (frames bus status (body chunks)))⟩ := by
  intro x
  rw [attempt_taken target rfl
    ⟨chunk, by simp [x, via, Feed.peek, natsEvents, full, frames, accepted]⟩]
  simp [x, via, natsEvents, Leg.of, Exchange.observer]

theorem nats_refuses {chunk : Bytes} {rest : List Bytes} (full : body chunks = chunk :: rest)
    (refused : ¬bus.accepts chunk = true) :
    attempt (attemptStream M) target
        (via bus true ⟨target, initial, .answered status final chunks⟩) =
      ⟨[.started target, .finished target], .error (.retry 502)⟩ :=
  @attempt_refused _ _ _ _ target none rfl rfl
    ⟨_, by simp [via, Feed.peek, natsEvents, full, frames, refused], .inr ⟨bus.failure, rfl⟩⟩

theorem empty_body_retried (empty_body : body chunks = []) (nats : Bool) :
    attempt (attemptStream M) target
        (via bus nats ⟨target, initial, .answered status final chunks⟩) =
      ⟨[.started target, .finished target],
        .error (.retry (if 400 ≤ status then status else 502))⟩ := by
  by_cases refusal : 400 ≤ status
  · cases nats with
    | false => rw [http_refuses M bus target initial final refusal,
        if_pos refusal]
    | true =>
      rw [@attempt_refused _ _ _ _ target (some status) rfl rfl
        ⟨_, by simp [via, Feed.peek, natsEvents, frames, empty_body], .inl rfl⟩]
      simp [Option.filter_some, refusal]
  · rw [@attempt_refused _ _ _ _ target (some (if nats then status else 200)) rfl rfl
      ⟨_, by cases nats <;> simp [via, Feed.peek, natsEvents, httpEvents, frames, empty_body,
        refusal], .inl rfl⟩]
    cases nats <;> simp [Option.filter_some, refusal]

end

variable (M bus) in
theorem stream_compared (x : Exchange σ) :
    Compared (attemptStream M) (fun i : List Migration × ℕ => serveTaken M i.1 i.2) x.target
      (via bus · x) (x.StreamsAlike M bus) x.Streamed := by
  obtain ⟨target, initial, reply⟩ := x
  cases reply with
  | refused =>
    exact .retried _ (fun _ => 502) (fun nats => by cases nats <;> rfl) (iff_of_true trivial rfl) id
  | answered status final chunks =>
    have nonempty : ∀ c ∈ body chunks, c ≠ [] := by
      intro c mem
      simpa using of_mem_filter mem
    simp only [Exchange.StreamsAlike, Exchange.Streamed]
    cases full : body chunks with
    | nil =>
      have retried := empty_body_retried M bus target initial final full
      exact .retried _ _ retried (iff_of_true trivial rfl) fun streamed => streamed.2 rfl
    | cons chunk rest =>
      dsimp only
      have taken := nats_takes M bus target initial final full
      have refused := nats_refuses M bus target initial final full
      by_cases refusal : 400 ≤ status
      · have http := @http_refuses _ _ M bus target initial _ final chunks
          refusal
        by_cases accepted : bus.accepts chunk = true
        · rw [if_pos accepted]
          exact .apart true _ _ _ _ _ (taken accepted) http (by simp [noting, scoredTaken])
            fun alike => by omega
        · rw [if_neg accepted]
          refine .retried _ (fun nats => if nats then 502 else status)
            (Bool.forall_bool.mpr ⟨http, refused accepted⟩) ?_ fun streamed => by omega
          have ordinary : status ≠ 0 := by omega
          simp [isWorkerFault, ordinary]
      · have http := http_takes M bus target initial final refusal
          (full ▸ cons_ne_nil _ _)
        by_cases accepted : bus.accepts chunk = true
        · rw [if_pos accepted, ← full]
          refine .taken _ 200 (fun nats => if nats then _ else _)
            (Bool.forall_bool.mpr ⟨http, taken accepted⟩) ?_ ⟨by omega, by simp [full]⟩
          exact (and_iff_right (by omega)).trans
            ((generate_alike_iff target status _ nonempty).symm.trans serveTaken_alike_iff.symm)
        · rw [if_neg accepted]
          exact .apart false _ _ _ _ _ http (refused accepted) (by simp [noting, scoredTaken])
            fun alike => by omega

theorem attempt_unary (target : Target) (admits : s.admits = .ok true) :
    attempt attemptUnary target s = ⟨[.started target, .finished target], s.unary⟩ := by
  simp only [attempt, attemptUnary, admits, ite_self]
  rfl

theorem natsUnary_answered (status : ℕ) (final : 200 ≤ status) (chunks : List Bytes) :
    natsUnary bus (natsEvents bus false (.answered status final chunks)) [] =
      if bus.accepts chunks.flatten then
        conclude status (if chunks.flatten = [] then some bus.empty else bus.loads chunks.flatten)
      else .error (.retry 502) := by
  have ordinary : status ≠ 0 := by omega
  simp only [natsEvents, Bool.false_eq_true, if_false, frames]
  split_ifs <;> simp only [natsUnary, nil_append, *, if_false, if_true, Option.getD_none]

/-- What comes of a body: an answer, or a fault of the worker. -/
theorem conclude_cases {status : ℕ} (final : 200 ≤ status) (content : Option κ) :
    (∃ answer, content = some answer ∧ ¬500 ≤ status ∧
        conclude status content = .ok (status, answer)) ∨
      (content = none ∨ 500 ≤ status) ∧ ∃ code, isWorkerFault code = true ∧
        conclude status content = .error (.retry code) := by
  have ordinary : status ≠ 0 := by omega
  cases content with
  | none => exact .inr ⟨.inl rfl, 502, rfl, rfl⟩
  | some answer =>
    by_cases fault : 500 ≤ status
    · exact .inr ⟨.inr fault, status, by simp [isWorkerFault, fault],
        by simp [conclude, isWorkerFault, fault]⟩
    · exact .inl ⟨answer, rfl, fault, by simp [conclude, isWorkerFault, fault, ordinary]⟩

/-- How `requestUnary` is read: the status only with a content. -/
def contentTaken : Response κ → Run (Option (ℕ × κ))
  | .failed _ => pure none
  | .committed status content => pure (some (status, content))

section
variable {carry : Bool → Try σ κ} {alike commits : Prop} {target : Target}
  (admits : ∀ nats, (carry nats).admits = .ok true)
include admits

theorem compared_retried {code : Bool → ℕ} (faults : ∀ nats, isWorkerFault (code nats) = true)
    (failed : ∀ nats, (carry nats).unary = .error (.retry (code nats)))
    (same : alike) (goes_on : ¬commits) :
    Compared attemptUnary (fun _ : Unit => contentTaken) target carry alike commits :=
  .retried _ code (fun nats => by rw [attempt_unary target (admits nats), failed nats])
    (iff_of_true same (by rw [faults, faults])) goes_on

theorem compared_apart (nats : Bool) {status code : ℕ} {content : κ}
    (taken : (carry nats).unary = .ok (status, content))
    (failed : (carry !nats).unary = .error (.retry code)) (fault : isWorkerFault code = true)
    (unlike : ¬alike) :
    Compared attemptUnary (fun _ : Unit => contentTaken) target carry alike commits := by
  refine .apart nats _ _ status code content
    ((attempt_unary target (admits nats)).trans (congrArg _ taken))
    ((attempt_unary target (admits !nats)).trans (congrArg _ failed)) (fun r r' same => ?_) unlike
  have scores := ((noting_concat_inj _).mp same).1
  rw [scoredTaken, scoredRetried, fault, if_pos rfl] at scores
  split_ifs at scores <;> cases scores

end

variable (bus) in
theorem unary_compared (x : Exchange σ) :
    Compared attemptUnary (fun _ : Unit => contentTaken) x.target
      (via bus · x) (x.AnswersAlike bus) (x.Answered bus) := by
  obtain ⟨target, initial, reply⟩ := x
  cases reply with
  | refused =>
    exact @compared_retried _ _ _ _ _ _ (fun _ => rfl) (fun _ => 502) (fun _ => rfl)
      (fun nats => by cases nats <;> rfl) trivial (by rintro ⟨_, ok⟩; cases ok)
  | answered status final chunks =>
    simp only [Exchange.AnswersAlike, Exchange.Answered]
    have nats := @natsUnary_answered _ bus status final chunks
    have http : httpUnary bus (.answered status final chunks) =
      conclude status (bus.loads chunks.flatten) := rfl
    by_cases accepted : bus.accepts chunks.flatten = true
    · rw [if_pos accepted] at nats ⊢
      by_cases empty : chunks.flatten = []
      · rw [if_pos empty] at nats
        rw [empty, bus.loads_nil] at http
        rw [http]
        rcases conclude_cases final (some _) with
          ⟨answer, parsed, served, ok⟩ | ⟨faulty, code, fault, failed⟩
        · exact compared_apart (fun _ => rfl) true (nats.trans ok) http rfl
            (not_or.mpr ⟨served, not_not.mpr empty⟩)
        · exact @compared_retried _ _ _ _ _ _ (fun _ => rfl)
            (fun nats => if nats then code else 502)
            (Bool.forall_bool.mpr ⟨rfl, fault⟩) (Bool.forall_bool.mpr ⟨http, nats.trans failed⟩)
            (.inl (faulty.resolve_left nofun)) (by simp [conclude])
      · rw [if_neg empty] at nats
        rw [http]
        rcases conclude_cases final (bus.loads chunks.flatten) with
          ⟨answer, parsed, served, ok⟩ | ⟨faulty, code, fault, failed⟩
        · exact .taken _ status (fun _ => answer)
            (Bool.forall_bool.mpr ⟨(attempt_unary target rfl).trans (congrArg _ ok),
              (attempt_unary target rfl).trans (congrArg _ (nats.trans ok))⟩)
            (iff_of_true (.inr empty) fun _ => rfl) ⟨_, ok⟩
        · exact @compared_retried _ _ _ _ _ _ (fun _ => rfl) (fun _ => code) (fun _ => fault)
            (Bool.forall_bool.mpr ⟨failed, nats.trans failed⟩) (.inr empty) (by rw [failed]; simp)
    · rw [if_neg accepted] at nats ⊢
      rw [http]
      rcases conclude_cases final (bus.loads chunks.flatten) with
        ⟨answer, parsed, served, ok⟩ | ⟨faulty, code, fault, failed⟩
      · exact compared_apart (fun _ => rfl) false ok nats rfl
          (not_or.mpr ⟨served, by simp [parsed]⟩)
      · exact @compared_retried _ _ _ _ _ _ (fun _ => rfl) (fun nats => if nats then 502 else code)
          (Bool.forall_bool.mpr ⟨fault, rfl⟩) (Bool.forall_bool.mpr ⟨failed, nats⟩)
          faulty.symm (by rw [failed]; simp)

theorem answered_eq (nats : Bool) (xs : List (Exchange σ)) :
    answered bus nats xs =
      dispatch attemptUnary none (xs.map (via bus nats)) >>= contentTaken := by
  rw [answered, requestUnary, bind_assoc]
  congr
  funext response
  cases response <;> rfl

/-- A request goes over NATS as over HTTP, with the same attempts, breaker records and bytes and,
if a worker takes it, the same status, exactly if every reply does that it gets to. -/
theorem nats_like_http (M : MigrationState σ) (bus : Bus κ) (xs : List (Exchange σ)) :
    ((∀ migrations advances, streamed M bus true xs migrations advances =
          streamed M bus false xs migrations advances) ↔
        Tried (Exchange.StreamsAlike M bus) Exchange.Streamed xs) ∧
      (answered bus true xs = answered bus false xs ↔
        Tried (Exchange.AnswersAlike bus) (Exchange.Answered bus) xs) := by
  constructor
  · have stream := dispatch_alike_iff (fun _ _ => rfl) (fun _ _ _ => rfl)
      (stream_compared M bus) xs none none
    exact Prod.forall.symm.trans stream
  · have unary := dispatch_alike_iff (fun _ _ => rfl) (fun _ _ _ => rfl)
      (unary_compared bus) xs none none
    rw [answered_eq, answered_eq, ← unary, forall_const]

end

def exchange (id : String) (reply : Reply) : Exchange Unit := ⟨⟨id, id, [1]⟩, (), reply⟩

/-- A broker that takes every payload. -/
def wide : Bus Unit := ⟨fun _ => true, [], fun _ => none, rfl, ()⟩

def streamOver (nats : Bool) (xs : List (Exchange Unit)) : Run ℕ :=
  requestStream carrying (xs.map (via wide nats)) [] 3

theorem failover_like_http :
    let xs := [exchange "a" .refused, exchange "b" (.answered 200 le_rfl [[1], [], [2]]),
      exchange "c" (.answered 500 (by decide) [[1]])]
    ∀ migrations advances, streamed carrying wide true xs migrations advances =
      streamed carrying wide false xs migrations advances :=
  (nats_like_http carrying wide _).1.mpr
    (by simp [exchange, Tried, Exchange.StreamsAlike, Exchange.Streamed, body, Unchanged,
      Exchange.observer, transform, carrying, wide])

/-- A 500 with a body is failed over and held against the worker; over NATS the body is streamed
to the client as a success. -/
theorem refusal_streamed_over_nats :
    let xs := [exchange "a" (.answered 500 (by decide) [[1]])]
    let target : Target := ⟨"a", "a", [1]⟩
    streamOver false xs = ⟨[.started target, .finished target, .other (.scored "a" .failure)],
        .ok 500⟩ ∧
      streamOver true xs = ⟨[.started target, .other (.scored "a" .success), .other (.sent [1]),
        .finished target], .ok 200⟩ :=
  ⟨rfl, rfl⟩

end Infera.Mixed
