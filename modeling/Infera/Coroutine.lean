import Mathlib.Data.Multiset.AddSub

/-! Coroutines with exceptions, by what they leave behind: the entries they wrote
and how they ended. What an await answers is an argument of the model, so that a
coroutine is a value; a cancellation is an answer like any other exception.

Entries open and close the uses of a resource. `Leaves` is the triple for it: from
the open uses `before` the coroutine comes to `after a` if it returns `a`, and to
`thrown` if it raises. -/

namespace Infera

/-- A use of `x` begins or ends; anything else that is of interest is `other`. -/
inductive Entry (τ β : Type)
  | started (x : τ)
  | finished (x : τ)
  | other (b : β)

/-- The entries lead from these open uses to those, and end no use that is not open. -/
def Moves {τ β : Type} : List (Entry τ β) → Multiset τ → Multiset τ → Prop
  | [], before, after => before = after
  | .started x :: log, before, after => Moves log (x ::ₘ before) after
  | .finished x :: log, before, after => ∃ rest, before = x ::ₘ rest ∧ Moves log rest after
  | .other _ :: log, before, after => Moves log before after

theorem Moves.append {τ β : Type} {log more : List (Entry τ β)} {before mid after : Multiset τ}
    (first : Moves log before mid) (next : Moves more mid after) :
    Moves (log ++ more) before after := by
  induction log generalizing before with
  | nil => exact first ▸ next
  | cons entry log ih =>
    cases entry with
    | started | other => exact ih first
    | finished x =>
      obtain ⟨rest, held, later⟩ := first
      exact ⟨rest, held, ih later⟩

structure Coroutine (τ β ε α : Type) where
  log : List (Entry τ β)
  result : Except ε α

namespace Coroutine

variable {τ β ε α γ : Type} (x : Coroutine τ β ε α) (answer : Except ε α)

instance : Monad (Coroutine τ β ε) where
  pure a := ⟨[], .ok a⟩
  bind x f :=
    match x.result with
    | .ok a => ⟨x.log ++ (f a).log, (f a).result⟩
    | .error e => ⟨x.log, .error e⟩

instance : LawfulMonad (Coroutine τ β ε) := LawfulMonad.mk' _
  (fun x => by
    simp only [Functor.map]
    cases ended : x.result <;> simp [← ended])
  (fun _ _ => rfl)
  (fun x f g => by
    simp only [Bind.bind]
    cases x.result with
    | error e => rfl
    | ok a => cases ended : (f a).result <;> simp [ended])

def await : Coroutine τ β ε α := ⟨[], answer⟩

def throw (e : ε) : Coroutine τ β ε α := ⟨[], .error e⟩

def tell (entry : Entry τ β) : Coroutine τ β ε Unit := ⟨[entry], .ok ()⟩

/-- `try … except`. -/
def handle (handler : ε → Coroutine τ β ε α) : Coroutine τ β ε α :=
  match x.result with
  | .ok _ => x
  | .error e => ⟨x.log ++ (handler e).log, (handler e).result⟩

/-- `try … finally`: what the last part raises replaces how the first ended. -/
def cleanup (last : Coroutine τ β ε Unit) : Coroutine τ β ε α :=
  ⟨x.log ++ last.log, last.result.bind fun _ => x.result⟩

/-- The coroutine with these entries before its own. -/
def noting (entries : List (Entry τ β)) : Coroutine τ β ε α := ⟨entries ++ x.log, x.result⟩

def Leaves (before : Multiset τ) (after : α → Multiset τ) (thrown : Multiset τ) : Prop :=
  Moves x.log before (match x.result with | .ok a => after a | .error _ => thrown)

variable {x : Coroutine τ β ε α} {before thrown : Multiset τ} {after : α → Multiset τ}
  {m : α → Multiset τ}

theorem noting_bind (entries : List (Entry τ β)) (f : α → Coroutine τ β ε γ) :
    x.noting entries >>= f = (x >>= f).noting entries := by
  simp only [Bind.bind, noting]
  cases x.result <;> simp

theorem noting_inj {y : Coroutine τ β ε α} (entries : List (Entry τ β)) :
    x.noting entries = y.noting entries ↔ x = y := by
  cases x
  cases y
  simp [noting]

theorem noting_concat_inj {y : Coroutine τ β ε α} {entry entry' : Entry τ β}
    (entries : List (Entry τ β)) :
    x.noting (entries ++ [entry]) = y.noting (entries ++ [entry']) ↔ entry = entry' ∧ x = y := by
  cases x
  cases y
  simp [noting, and_assoc]

theorem noting_cleanup (entries : List (Entry τ β)) (last : Coroutine τ β ε Unit) :
    (x.noting entries).cleanup last = (x.cleanup last).noting entries := by
  simp [noting, cleanup]

theorem leaves_pure {a : α} (held : before = after a) :
    (pure a : Coroutine τ β ε α).Leaves before after thrown := held

theorem leaves_throw (e : ε) : (throw e : Coroutine τ β ε α).Leaves thrown after thrown := rfl

theorem leaves_await :
    (await answer : Coroutine τ β ε α).Leaves before (fun _ => before) before := by
  cases answer <;> rfl

theorem leaves_await_ok {answer : Except ε α} (returns : ∃ a, answer = .ok a) :
    (await answer : Coroutine τ β ε α).Leaves before (fun _ => before) thrown := by
  obtain ⟨a, rfl⟩ := returns
  rfl

theorem leaves_started (x : τ) :
    (tell (.started x) : Coroutine τ β ε Unit).Leaves before (fun _ => x ::ₘ before) thrown := rfl

theorem leaves_finished (x : τ) :
    (tell (.finished x) : Coroutine τ β ε Unit).Leaves (x ::ₘ before) (fun _ => before) thrown :=
  ⟨before, rfl, rfl⟩

theorem leaves_other (b : β) :
    (tell (.other b) : Coroutine τ β ε Unit).Leaves before (fun _ => before) thrown := rfl

theorem Leaves.bind {f : α → Coroutine τ β ε γ} {after : γ → Multiset τ}
    (first : x.Leaves before m thrown)
    (next : ∀ a, x.result = .ok a → (f a).Leaves (m a) after thrown) :
    (x >>= f).Leaves before after thrown := by
  unfold Leaves at first ⊢
  simp only [Bind.bind]
  cases ended : x.result with
  | error e => rwa [ended] at first
  | ok a =>
    rw [ended] at first
    exact first.append (next a ended)

theorem Leaves.handle {handler : ε → Coroutine τ β ε α} {m : Multiset τ}
    (first : x.Leaves before after m)
    (next : ∀ e, x.result = .error e → (handler e).Leaves m after thrown) :
    (x.handle handler).Leaves before after thrown := by
  unfold Leaves at first ⊢
  unfold Coroutine.handle
  cases ended : x.result with
  | ok a => simpa [ended] using first
  | error e =>
    rw [ended] at first
    exact first.append (next e ended)

theorem Leaves.moves {m : Multiset τ} (leaves : x.Leaves before (fun _ => m) m) :
    Moves x.log before m := by
  unfold Leaves at leaves
  cases ended : x.result <;> rwa [ended] at leaves

theorem Leaves.cleanup {last : Coroutine τ β ε Unit} {left : Multiset τ}
    (first : x.Leaves before m left) (returned : ∀ a, last.Leaves (m a) (fun _ => after a) thrown)
    (raised : last.Leaves left (fun _ => thrown) thrown) :
    (x.cleanup last).Leaves before after thrown := by
  unfold Leaves at first returned raised ⊢
  unfold Coroutine.cleanup
  cases ended : x.result with
  | ok a =>
    rw [ended] at first
    have whole := first.append (returned a)
    cases closed : last.result <;> rw [closed] at whole <;> exact whole
  | error e =>
    rw [ended] at first
    have whole := first.append raised
    cases closed : last.result <;> rw [closed] at whole <;> exact whole

end Coroutine

end Infera
