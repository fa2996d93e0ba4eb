import Infera.Router.Sessions
import Infera.Runs

/-! Stickiness of sessions over whole histories. Next to the sessions runs what
their callers know: the target each key was last bound to and under which
generation, whom each live lease was given to, since when a key has had no
lease, and how often each entry was bound. A bond ends with an invalidation of
its own generation; while the key idles for less than `ttl`, the next pick
returns the bound target. The invariant: a bond is the entry's own target and
generation, or the key has been idle for `ttl` already. -/

namespace Infera.Router
open Dict Sessions Function Option

structure Bond (ρ : Type) where
  target : RouteTarget ρ
  binding : Binding

inductive AffinityCall (ρ : Type) where
  | pick (r : Request ρ)
  | dropLease (lease : ℕ) (now : Instant)
  | invalidate (b : Binding)

structure AffinityRun (ρ : Type) where
  sessions : Sessions ρ
  clock : Instant
  bond : Key → Option (Bond ρ)
  owners : Dict ℕ Key
  /-- When a key without a lease lost its last one. -/
  idle : Key → Instant
  /-- How often an entry was bound. -/
  bindings : ℕ → ℕ
  /-- For each lease issued so far its binding and the number of it. -/
  origin : ℕ → Option (Binding × ℕ)

namespace AffinityRun
variable {ρ : Type} [DecidableEq ρ]

variable (s : AffinityRun ρ) (k : Key) (id : ℕ) (reason : Reason)

def Start : Prop :=
  ∃ mode ttl capacity,
    s = { sessions := .new mode ttl capacity s.clock, clock := s.clock, bond := fun _ => none,
          owners := .empty, idle := fun _ => s.clock, bindings := fun _ => 0,
          origin _ := none }

def Held : Prop := ∃ n, s.owners.get? n = some k

def rebound : ℕ → ℕ :=
  if reason = .hit then s.bindings else update s.bindings id (s.bindings id + 1)

def leasedTo (target : RouteTarget ρ) (n : ℕ) (reason : Reason) : AffinityRun ρ :=
  match s.sessions.leases.get? n with
  | none => s
  | some l =>
    { s with
      bond := update s.bond k (some ⟨target, l.binding⟩)
      owners := s.owners.set n k
      bindings := s.rebound l.entry reason
      origin := update s.origin n (some (l.binding, s.rebound l.entry reason l.entry)) }

def observe (key : Option Key) (picked : Picked ρ) : AffinityRun ρ :=
  match key, picked.lease with
  | none, _ => s
  | some k, none => { s with bond := update s.bond k none }
  | some k, some (n, reason) => s.leasedTo k picked.target n reason

def step : AffinityCall ρ → AffinityRun ρ
  | .pick r =>
    let result := s.sessions.pick r
    { s with sessions := result.2, clock := r.locked }.observe (s.sessions.keyOf r) result.1
  | .dropLease n now =>
    let owners := s.owners.erase n
    { s with
      sessions := s.sessions.dropLease n now
      clock := now
      owners
      idle k := if s.owners.get? n = some k ∧ k ∉ owners.values then now else s.idle k }
  | .invalidate b =>
    { s with
      sessions := s.sessions.invalidate b
      bond k := (s.bond k).filter fun bond => bond.binding ≠ b }

def Monotone : AffinityCall ρ → Prop
  | .pick r => s.clock ≤ r.now ∧ r.now ≤ r.locked
  | .dropLease _ now => s.clock ≤ now
  | .invalidate _ => True

structure Affine (s : AffinityRun ρ) : Prop where
  /-- The next pick for a bound key that did not idle for `ttl` returns the bound target. -/
  sticky : ∀ r k b, s.Monotone (.pick r) → s.sessions.keyOf r = some k → s.bond k = some b →
    b.target ∈ expandTargets r.candidates →
    (¬s.Held k → elapsed r.locked (s.idle k) < s.sessions.ttl) →
    (s.sessions.pick r).1.target = b.target
  /-- An invalidation of another generation, or of an entry that is gone, has no effect. -/
  stale : ∀ b : Binding, (s.sessions.heap b.entry).generation ≠ b.generation ∨
    (∀ k, s.sessions.values.get? k ≠ some b.entry) → s.sessions.invalidate b = s.sessions
  /-- So has one from a lease of an earlier binding, until the generations wrap around. -/
  older : ∀ n b i, s.origin n = some (b, i) → i < s.bindings b.entry →
    s.bindings b.entry < i + 2 ^ 64 → s.sessions.invalidate b = s.sessions
  active : ∀ k id, s.sessions.values.get? k = some id →
    (s.sessions.heap id).active = s.sessions.leaseCount id
  bounded : s.sessions.values.items.length ≤ s.sessions.capacity

omit [DecidableEq ρ] in
theorem rebound_of_ne {id id' : ℕ} (other : id' ≠ id) :
    s.rebound id reason id' = s.bindings id' := by
  unfold rebound
  split_ifs
  · rfl
  · exact update_of_ne other _ _

omit [DecidableEq ρ] in
theorem le_rebound (id' : ℕ) : s.bindings id' ≤ s.rebound id reason id' := by
  unfold rebound
  split_ifs
  · exact le_rfl
  · rw [update_apply]
    split_ifs with here
    · rw [here]
      exact Nat.le_succ _
    · exact le_rfl

def Secure (b : Bond ρ) : Prop :=
  s.sessions.values.get? k = some b.binding.entry ∧
    (s.sessions.heap b.binding.entry).target = some b.target ∧
    (s.sessions.heap b.binding.entry).generation = b.binding.generation

def Lapsed : Prop :=
  ¬s.Held k ∧ s.idle k + s.sessions.ttl ≤ s.clock

/-- What holds between calls; a key that is just being picked for is exempt from the bonds. -/
structure Sound (exempt : Option Key) (s : AffinityRun ρ) : Prop where
  wellFormed : s.sessions.WellFormed
  owned : ∀ n l, s.sessions.leases.get? n = some l →
    ∃ k, s.owners.get? n = some k ∧ s.sessions.values.get? k = some l.entry
  live : ∀ n k, s.owners.get? n = some k → ∃ l, s.sessions.leases.get? n = some l
  idle : ∀ k id, some k ≠ exempt → s.sessions.values.get? k = some id →
    (s.sessions.heap id).active = 0 → (s.sessions.heap id).idleSince = s.idle k
  idled : ∀ k, s.idle k ≤ s.clock
  bonds : ∀ k b, some k ≠ exempt → s.bond k = some b → s.Secure k b ∨ s.Lapsed k
  generation : ∀ id, (s.sessions.heap id).generation = UInt64.ofNat (s.bindings id)
  origins : ∀ n b i, s.origin n = some (b, i) →
    b.generation = UInt64.ofNat i ∧ i ≤ s.bindings b.entry
  unbound : ∀ id, s.sessions.allocated ≤ id → s.bindings id = 0
  expanded : ∀ id t, (s.sessions.heap id).target = some t → ∃ workers, t ∈ expandTargets workers

omit [DecidableEq ρ] in
theorem sound_of_start {s : AffinityRun ρ} (start : s.Start) : s.Sound none := by
  obtain ⟨mode, ttl, capacity, fresh⟩ := start
  rw [fresh]
  exact {
    wellFormed := new_wellFormed mode ttl capacity _
    owned n l live := by cases live
    live n k owner := by cases owner
    idle k id _ mapped := by cases mapped
    idled _ := le_rfl
    bonds k b _ bound := by cases bound
    generation _ := rfl
    origins n b i known := by cases known
    unbound _ _ := rfl
    expanded id t bound := by cases bound }

namespace Sound
variable {s : AffinityRun ρ} {exempt : Option Key} {now : Instant} {k : Key} {id : ℕ}

section
omit [DecidableEq ρ]

theorem held_iff (sound : s.Sound exempt) (mapped : s.sessions.values.get? k = some id) :
    s.Held k ↔ 0 < (s.sessions.heap id).active := by
  rw [sound.wellFormed.active]
  constructor
  · rintro ⟨n, owner⟩
    obtain ⟨l, live⟩ := sound.live n k owner
    obtain ⟨k', owner', mapped'⟩ := sound.owned n l live
    cases owner.symm.trans owner'
    rw [mapped] at mapped'
    cases mapped'
    exact leaseCount_pos live
  · intro counted
    obtain ⟨l, mem, here⟩ := List.countP_pos_iff.mp counted
    rw [decide_eq_true_eq] at here
    obtain ⟨n, live⟩ := mem_values_iff.mp mem
    obtain ⟨k', owner, mapped'⟩ := sound.owned n l live
    rw [here] at mapped'
    exact ⟨n, sound.wellFormed.distinct k k' id mapped mapped' ▸ owner⟩

theorem tick (sound : s.Sound exempt) (later : s.clock ≤ now) :
    { s with clock := now }.Sound exempt :=
  { sound with
    idled k := (sound.idled k).trans later
    bonds k b apart bound :=
      (sound.bonds k b apart bound).imp id fun lapsed => ⟨lapsed.1, lapsed.2.trans later⟩ }

theorem sweep (sound : s.Sound none) (key : Key) (later : s.clock ≤ now) :
    { s with sessions := s.sessions.sweep key now, clock := now }.Sound none := by
  have wf := sound.wellFormed.sweep key now
  unfold Sessions.sweep at wf ⊢
  split_ifs at wf ⊢ with due
  · refine { sound.tick later with
      wellFormed := wf, owned := ?_, idle := ?_, bonds := ?_ }
    · intro n l live
      obtain ⟨k, owner, mapped⟩ := sound.owned n l live
      exact ⟨k, owner, get?_filter_eq_some_iff.mpr ⟨mapped, retains_of_lease mapped live now⟩⟩
    · intro k id apart mapped
      exact sound.idle k id apart (get?_filter_eq_some_iff.mp mapped).1
    · intro k b apart bound
      rcases (sound.tick later).bonds k b apart bound with ⟨mapped, target, generation⟩ | lapsed
      · by_cases kept : s.sessions.retains now b.binding.entry = true
        · exact .inl ⟨get?_filter_eq_some_iff.mpr ⟨mapped, kept⟩, target, generation⟩
        · right
          simp only [retains, Bool.or_eq_true, decide_eq_true_eq, not_or, not_lt] at kept
          obtain ⟨⟨-, inactive⟩, idled⟩ := kept
          have since := sound.idle k _ apart mapped (Nat.le_zero.mp inactive)
          refine ⟨fun held => ?_, ?_⟩
          · have busy := (sound.held_iff mapped).mp held
            omega
          · have before := sound.idled k
            rw [since] at idled
            have ordered : s.idle k ≤ now := before.trans later
            exact (Nat.le_sub_iff_add_le' ordered).mp idled
      · exact .inr lapsed
  · exact sound.tick later

theorem locate (sound : s.Sound none) (key : Key) (now : Instant) {t : Sessions ρ}
    (located : s.sessions.locate key now = (some id, t)) :
    { s with sessions := t }.Sound (some key) ∧ t.values.get? key = some id := by
  have wf := sound.wellFormed.locate key now
  unfold Sessions.locate at located wf
  cases known : s.sessions.values.get? key with
  | some id' =>
    rw [known] at located
    cases located
    exact ⟨{ sound with
      idle k id _ := sound.idle k id (by simp)
      bonds k b _ := sound.bonds k b (by simp) }, known⟩
  | none =>
    rw [known] at located wf
    split_ifs at located wf
    swap
    · cases located
    cases located
    have apart : ∀ k id, s.sessions.values.get? k = some id → id ≠ s.sessions.allocated :=
      fun k id mapped => (sound.wellFormed.allocated k id mapped).ne
    have others : ∀ k, some k ≠ some key →
        (s.sessions.values.set key s.sessions.allocated).get? k = s.sessions.values.get? k :=
      fun k other => get?_set_of_ne fun same => other (by rw [same])
    refine ⟨{ sound with
      wellFormed := wf, owned := ?_, idle := ?_, bonds := ?_, generation := ?_, unbound := ?_
      expanded := ?_ }, get?_set_self _ _ _⟩
    · intro n l live
      obtain ⟨k, owner, mapped⟩ := sound.owned n l live
      refine ⟨k, owner, (others k fun same => ?_).trans mapped⟩
      cases same
      cases known.symm.trans mapped
    · intro k id other mapped
      dsimp only at mapped ⊢
      rw [others k other] at mapped
      rw [update_of_ne (apart k id mapped)]
      exact sound.idle k id (by simp) mapped
    · intro k b other bound
      refine (sound.bonds k b (by simp) bound).imp ?_ id
      rintro ⟨mapped, entry⟩
      refine ⟨(others k other).trans mapped, ?_⟩
      dsimp only
      rw [update_of_ne (apart k _ mapped)]
      exact entry
    · intro id
      dsimp only
      rw [update_apply]
      split_ifs with here
      · rw [here, sound.unbound _ le_rfl]
        rfl
      · exact sound.generation id
    · exact fun id free => sound.unbound id (Nat.le_of_succ_le free)
    · intro id t bound
      dsimp only at bound
      rw [update_apply] at bound
      split_ifs at bound
      exact sound.expanded id t bound

theorem lend {key : Key} (sound : s.Sound (some key))
    (mapped : s.sessions.values.get? key = some id) {e : Entry ρ} {target : RouteTarget ρ}
    {reason : Reason} (active : e.active = (s.sessions.heap id).active)
    (bound : e.target = some target) (known : ∃ workers, target ∈ expandTargets workers)
    (generation : e.generation = if reason = .hit then (s.sessions.heap id).generation
      else (s.sessions.heap id).generation + 1) :
    ({ s with sessions := s.sessions.lend id e }.leasedTo key target s.sessions.issued
      reason).Sound none := by
  have wf := sound.wellFormed.lend mapped (active.trans (sound.wellFormed.active id))
  have live : (s.sessions.lend id e).leases.get? s.sessions.issued = some ⟨id, e.generation⟩ :=
    get?_set_self _ _ _
  have heap : ∀ id', id' ≠ id → (s.sessions.lend id e).heap id' = s.sessions.heap id' :=
    fun id' other => update_of_ne other _ _
  have here : (s.sessions.lend id e).heap id = { e with active := e.active + 1 } :=
    update_self _ _ _
  have others : ∀ k id', k ≠ key → s.sessions.values.get? k = some id' → id' ≠ id := by
    rintro k id' other mapped' rfl
    exact other (sound.wellFormed.distinct k key id' mapped' mapped)
  have allocated : id < s.sessions.allocated := sound.wellFormed.allocated key id mapped
  have numbered : e.generation = UInt64.ofNat (s.rebound id reason id) := by
    rw [generation, sound.generation, rebound]
    split_ifs
    · rfl
    · rw [update_self, UInt64.ofNat_add]
      rfl
  unfold leasedTo
  simp only [live]
  refine { sound with
    wellFormed := wf, owned := ?_, live := ?_, idle := ?_, bonds := ?_, generation := ?_
    origins := ?_, unbound := ?_, expanded := ?_ }
  · intro n l leased
    rw [Sessions.lend, get?_set] at leased
    rw [get?_set]
    split_ifs at leased ⊢ with newest
    · cases leased
      exact ⟨key, rfl, mapped⟩
    · exact sound.owned n l leased
  · intro n k owner
    rw [get?_set] at owner
    rw [Sessions.lend, get?_set]
    split_ifs at owner ⊢
    · exact ⟨_, rfl⟩
    · exact sound.live n k owner
  · intro k id' _ mapped' inactive
    by_cases same : k = key
    · subst same
      obtain rfl : id = id' := some.inj (mapped.symm.trans mapped')
      rw [here] at inactive
      cases inactive
    · rw [heap id' (others k id' same mapped')] at inactive ⊢
      exact sound.idle k id' (by simpa using same) mapped' inactive
  · intro k b _ bond
    dsimp only at bond
    by_cases same : k = key
    · subst same
      rw [update_self] at bond
      cases bond
      exact .inl ⟨mapped, by rw [Lease.binding, here, bound], by rw [Lease.binding, here]⟩
    · rw [update_of_ne same] at bond
      rcases sound.bonds k b (by simpa using same) bond with ⟨mapped', entry⟩ | ⟨unheld, since⟩
      · refine .inl ⟨mapped', ?_⟩
        rw [heap _ (others k _ same mapped')]
        exact entry
      · refine .inr ⟨?_, since⟩
        rintro ⟨n, owner⟩
        rcases get?_set_cases owner with ⟨-, own⟩ | ⟨-, owner⟩
        · exact same own.symm
        · exact unheld ⟨n, owner⟩
  · intro id'
    by_cases same : id' = id
    · rw [same, here]
      exact numbered
    · rw [heap id' same, sound.generation]
      exact congrArg _ (s.rebound_of_ne reason same).symm
  · intro n b i known'
    dsimp only at known' ⊢
    rw [update_apply] at known'
    split_ifs at known'
    · cases known'
      exact ⟨numbered, le_rfl⟩
    · obtain ⟨same, before⟩ := sound.origins n b i known'
      exact ⟨same, before.trans (s.le_rebound id reason _)⟩
  · intro id' free
    have apart : id' ≠ id := (Nat.lt_of_lt_of_le allocated free).ne'
    exact (s.rebound_of_ne reason apart).trans (sound.unbound id' free)
  · intro id' t bound'
    by_cases same : id' = id
    · rw [same, here] at bound'
      cases bound.symm.trans bound'
      exact known
    · rw [heap id' same] at bound'
      exact sound.expanded id' t bound'

theorem unbind (sound : s.Sound exempt) (key : Key) :
    { s with bond := update s.bond key none }.Sound exempt :=
  { sound with
    bonds := by
      intro k b apart bound
      dsimp only at bound
      rw [update_apply] at bound
      split_ifs at bound
      exact sound.bonds k b apart bound }

end

theorem held_eq (sound : s.Sound exempt) {candidates : List (PoolWorker ρ)}
    {t : RouteTarget ρ} (held : s.sessions.held id candidates now = some t) :
    (s.sessions.heap id).target = some t ∧ t ∈ expandTargets candidates := by
  unfold Sessions.held at held
  split at held
  · cases held
  · rename_i old bound
    split_ifs at held
    have mem := List.mem_of_find?_eq_some held
    have same := List.find?_some held
    rw [decide_eq_true_eq] at same
    obtain ⟨workers, mem'⟩ := sound.expanded id old bound
    rw [bound, eq_of_routeKey mem mem' same.1 same.2]
    exact ⟨rfl, eq_of_routeKey mem mem' same.1 same.2 ▸ mem⟩

theorem pickEntry {key : Key} (sound : s.Sound (some key))
    (mapped : s.sessions.values.get? key = some id) (r : Request ρ) :
    ({ s with sessions := (s.sessions.pickEntry id r).2 }.observe (some key)
      (s.sessions.pickEntry id r).1).Sound none := by
  unfold Sessions.pickEntry
  split
  · rename_i target held
    obtain ⟨bound, mem⟩ := sound.held_eq held
    simp only [Choice.choose_singleton]
    exact sound.lend mapped rfl bound ⟨_, mem⟩ rfl
  · have mem := r.policy.mem _ (expandTargets_ne_nil r.nonempty)
    refine sound.lend mapped rfl rfl ⟨_, mem⟩ ?_
    split_ifs <;> simp_all

section
variable (sound : s.Sound none)
include sound

theorem pick {r : Request ρ} (monotone : s.Monotone (.pick r)) : (s.step (.pick r)).Sound none := by
  obtain ⟨later, later'⟩ := monotone
  simp only [step, Sessions.pick]
  cases s.sessions.keyOf r with
  | none => exact sound.tick (later.trans later')
  | some key =>
    have swept := (sound.sweep key later).tick later'
    simp only
    cases located : (s.sessions.sweep key r.now).locate key r.now with
    | mk found t =>
      cases found with
      | none =>
        rw [eq_of_locate_none located]
        exact swept.unbind key
      | some id =>
        obtain ⟨found, mapped⟩ := swept.locate key r.now located
        exact found.pickEntry mapped r

theorem dropLease {n : ℕ} (later : s.clock ≤ now) : (s.step (.dropLease n now)).Sound none := by
  have wf := sound.wellFormed.dropLease n now
  simp only [step]
  unfold Sessions.dropLease at wf ⊢
  cases live : s.sessions.leases.get? n with
  | none =>
    have unowned : s.owners.get? n = none := by
      cases owner : s.owners.get? n with
      | none => rfl
      | some k =>
        obtain ⟨l, live'⟩ := sound.live n k owner
        cases live.symm.trans live'
    simpa [erase_of_absent _ unowned, unowned] using sound.tick later
  | some l =>
    obtain ⟨k₀, owner, mapped⟩ := sound.owned n l live
    rw [live] at wf
    have same : ∀ id, (update s.sessions.heap l.entry
        ((s.sessions.heap l.entry).release now) id).target = (s.sessions.heap id).target ∧
        (update s.sessions.heap l.entry ((s.sessions.heap l.entry).release now) id).generation =
            (s.sessions.heap id).generation := by
      intro id
      by_cases here : id = l.entry
      · subst here
        rw [update_self]
        exact ⟨rfl, rfl⟩
      · rw [update_of_ne here]
        exact ⟨rfl, rfl⟩
    have kept : ∀ n' k, (s.owners.erase n).get? n' = some k → s.owners.get? n' = some k := by
      exact fun n' k owner' => (get?_of_erase owner').2
    refine { sound.tick later with
      wellFormed := wf, owned := ?_, live := ?_, idle := ?_, idled := ?_, bonds := ?_
      generation id := ((same id).2).trans (sound.generation id)
      expanded id t bound := sound.expanded id t ((same id).1.symm.trans bound) }
    · intro n' l' live'
      rw [get?_erase] at live' ⊢
      split_ifs at live' ⊢
      exact sound.owned n' l' live'
    · intro n' k owner'
      rw [get?_erase] at owner' ⊢
      split_ifs at owner' ⊢
      exact sound.live n' k owner'
    · intro k id _ mapped' inactive
      dsimp only at mapped' inactive ⊢
      by_cases here : id = l.entry
      · -- the last lease of the entry's key is returned
        subst here
        obtain rfl : k₀ = k := sound.wellFormed.distinct _ _ _ mapped mapped'
        have last : k₀ ∉ (s.owners.erase n).values := by
          intro mem
          obtain ⟨n', owner'⟩ := mem_values_iff.mp mem
          have differ : n' ≠ n := by
            rintro rfl
            rw [get?_erase_self] at owner'
            cases owner'
          obtain ⟨l', live'⟩ := sound.live n' k₀ (kept n' k₀ owner')
          obtain ⟨k, owner'', mapped''⟩ := sound.owned n' l' live'
          obtain rfl : k₀ = k := some.inj ((kept n' k₀ owner').symm.trans owner'')
          have entry : l.entry = l'.entry := some.inj (mapped.symm.trans mapped'')
          have count := wf.active l.entry
          rw [inactive, entry] at count
          have counted := leaseCount_pos (s := { s.sessions with
            heap := update s.sessions.heap l.entry ((s.sessions.heap l.entry).release now)
            leases := s.sessions.leases.erase n })
            ((get?_erase_of_ne differ).trans live')
          exact absurd count counted.ne
        rw [update_self] at inactive ⊢
        rw [if_pos ⟨owner, last⟩]
        exact if_pos inactive
      · have other : ¬(s.owners.get? n = some k ∧ k ∉ (s.owners.erase n).values) := by
          rintro ⟨owner', -⟩
          cases owner.symm.trans owner'
          exact here (some.inj (mapped'.symm.trans mapped))
        rw [update_of_ne here] at inactive ⊢
        rw [if_neg other]
        exact sound.idle k id (by simp) mapped' inactive
    · intro k
      dsimp only
      split_ifs
      · exact le_rfl
      · exact (sound.idled k).trans later
    · intro k b _ bound
      rcases (sound.tick later).bonds k b (by simp) bound with ⟨mapped', target, generation⟩ | lapsed
      · exact .inl ⟨mapped', (same _).1.trans target, (same _).2.trans generation⟩
      · obtain ⟨unheld, since⟩ := lapsed
        refine .inr ⟨fun ⟨n', owner'⟩ => unheld ⟨n', kept n' k owner'⟩, ?_⟩
        have other : ¬(s.owners.get? n = some k ∧ k ∉ (s.owners.erase n).values) :=
          fun both => unheld ⟨n, both.1⟩
        dsimp only
        rw [if_neg other]
        exact since

theorem invalidate (b : Binding) : (s.step (.invalidate b)).Sound none := by
  have wf := sound.wellFormed.invalidate b
  have survives : ∀ k bond, (s.bond k).filter (fun bond => bond.binding ≠ b) = some bond →
      s.bond k = some bond ∧ bond.binding ≠ b := by
    intro k bond found
    simpa using filter_eq_some_iff.mp found
  simp only [step]
  unfold Sessions.invalidate at wf ⊢
  split_ifs at wf ⊢ with effective
  · obtain ⟨-, current⟩ := effective
    refine { sound with
      wellFormed := wf, idle := ?_, bonds := ?_, generation := ?_, expanded := ?_ }
    · intro k id apart mapped inactive
      dsimp only at inactive ⊢
      by_cases here : id = b.entry
      · subst here
        rw [update_self] at inactive ⊢
        exact sound.idle k _ apart mapped inactive
      · rw [update_of_ne here] at inactive ⊢
        exact sound.idle k id apart mapped inactive
    · intro k bond apart bound
      obtain ⟨bound, other⟩ := survives k bond bound
      refine (sound.bonds k bond apart bound).imp ?_ id
      rintro ⟨mapped, target, generation⟩
      have elsewhere : bond.binding.entry ≠ b.entry := by
        intro here
        apply other
        rcases h : bond.binding with ⟨entry, gen⟩
        cases b
        simp_all
      refine ⟨mapped, ?_⟩
      dsimp only
      rw [update_of_ne elsewhere]
      exact ⟨target, generation⟩
    · intro id
      dsimp only
      rw [← sound.generation, update_apply]
      split_ifs with here
      · rw [here]
      · rfl
    · intro id t bound
      dsimp only at bound
      rw [update_apply] at bound
      split_ifs at bound
      exact sound.expanded id t bound
  · exact { sound with
      bonds k bond apart bound := sound.bonds k bond apart (survives k bond bound).1 }

theorem step {call : AffinityCall ρ} (monotone : s.Monotone call) : (s.step call).Sound none := by
  cases call with
  | pick r => exact sound.pick monotone
  | dropLease n now => exact sound.dropLease monotone
  | invalidate b => exact sound.invalidate b

omit [DecidableEq ρ] in
theorem secure {b : Bond ρ} (bound : s.bond k = some b) (later : s.clock ≤ now)
    (fresh : ¬s.Held k → elapsed now (s.idle k) < s.sessions.ttl) : s.Secure k b := by
  rcases sound.bonds k b (by simp) bound with secure | ⟨unheld, lapsed⟩
  · exact secure
  · have short := fresh unheld
    have long : s.sessions.ttl ≤ now - s.idle k := Nat.le_sub_of_add_le' (lapsed.trans later)
    exact absurd short (Nat.not_lt.mpr long)

theorem sticky {r : Request ρ} {b : Bond ρ}
    (monotone : s.Monotone (.pick r)) (key : s.sessions.keyOf r = some k)
    (bound : s.bond k = some b) (candidate : b.target ∈ expandTargets r.candidates)
    (fresh : ¬s.Held k → elapsed r.locked (s.idle k) < s.sessions.ttl) :
    (s.sessions.pick r).1.target = b.target := by
  obtain ⟨later, later'⟩ := monotone
  have swept := sound.sweep k later
  have ttl : (s.sessions.sweep k r.now).ttl = s.sessions.ttl := by
    unfold Sessions.sweep
    split_ifs <;> rfl
  obtain ⟨mapped, target, -⟩ := swept.secure bound later' (by rwa [ttl])
  have present : (s.sessions.sweep k r.now).locate k r.now =
      (some b.binding.entry, s.sessions.sweep k r.now) := by
    rw [Sessions.locate, mapped]
  have current : (s.sessions.sweep k r.now).expired b.binding.entry r.locked = false := by
    rw [expired, Bool.and_eq_false_iff, decide_eq_false_iff_not,
      decide_eq_false_iff_not]
    by_contra both
    obtain ⟨inactive, long⟩ := not_or.mp both
    rw [not_not] at inactive long
    have unheld : ¬s.Held k := fun held =>
      absurd ((swept.held_iff mapped).mp held) (by rw [inactive]; exact lt_irrefl 0)
    rw [swept.idle k _ (by simp) mapped inactive, ttl] at long
    exact absurd (fresh unheld) (Nat.not_lt.mpr long)
  obtain ⟨t, found⟩ : ∃ t, (s.sessions.sweep k r.now).held b.binding.entry r.candidates r.locked =
      some t := by
    rw [Sessions.held, target]
    simp only [current]
    refine isSome_iff_exists.mp (List.find?_isSome.mpr ⟨b.target, candidate, ?_⟩)
    simp
  obtain ⟨own, -⟩ := swept.held_eq found
  have same : t = b.target := some.inj (own.symm.trans target)
  rw [Sessions.pick, key]
  simp [present, Sessions.pickEntry, found, same]

omit [DecidableEq ρ] in
theorem stale {b : Binding} (old : (s.sessions.heap b.entry).generation ≠ b.generation ∨
      ∀ k, s.sessions.values.get? k ≠ some b.entry) : s.sessions.invalidate b = s.sessions := by
  refine if_neg ?_
  rintro ⟨referenced, current⟩
  rcases old with other | unmapped
  · exact other current
  · rw [sound.wellFormed.strongCount_of_unmapped unmapped] at referenced
    exact absurd referenced (lt_irrefl 0)

omit [DecidableEq ρ] in
theorem older {n i : ℕ} {b : Binding} (issued : s.origin n = some (b, i))
    (before : i < s.bindings b.entry) (recent : s.bindings b.entry < i + 2 ^ 64) :
    s.sessions.invalidate b = s.sessions := by
  refine sound.stale (.inl ?_)
  rw [sound.generation, (sound.origins n b i issued).1]
  intro same
  have numbers := congrArg UInt64.toNat same
  simp only [UInt64.toNat_ofNat'] at numbers
  omega

end

end Sound

theorem sessions_affine {s : AffinityRun ρ} (reached : Reaches Start step Monotone s) :
    s.Affine := by
  have base : ∀ s : AffinityRun ρ, s.Start → s.Sound none := fun _ => sound_of_start
  have sound : s.Sound none :=
    Reaches.invariant base (fun _ _ sound monotone => sound.step monotone) reached
  exact {
    sticky _ _ _ := sound.sticky
    stale _ := sound.stale
    older _ _ _ := sound.older
    active _ id _ := sound.wellFormed.active id
    bounded := sound.wellFormed.bounded }

end AffinityRun

def rankedWorker : PoolWorker Unit where
  workerId := "w"
  kvEventsEndpoint := none
  kvBlockSize := none
  dpSize := some 8
  dpRank := none
  rest := ()

def sessionRequest (session : String) (idx now : ℕ) : Request Unit where
  policy := .roundRobin ⟨rankedWorker, none⟩ idx
  candidates := [rankedWorker]
  nonempty := by simp
  role := .prefill
  model := "m"
  session := some session
  now := now
  locked := now

def AffinityRun.idle₀ : AffinityRun Unit where
  sessions := .new .both 10 1 0
  clock := 0
  bond _ := none
  owners := .empty
  idle _ := 0
  bindings _ := 0
  origin _ := none

/-- A session is served on rank 3, and another is turned away at capacity. -/
def AffinityRun.served : AffinityRun Unit :=
  [.pick (sessionRequest "x" 3 1), .dropLease 0 5, .pick (sessionRequest "y" 4 6)].foldl step idle₀

/-- The session returns within `ttl` of its last lease and is served on rank 3 again. -/
theorem returning_session_sticks :
    AffinityRun.served.Affine ∧
      (AffinityRun.served.sessions.pick (sessionRequest "x" 5 14)).1.target =
        ⟨rankedWorker, some 3⟩ := by
  have start : AffinityRun.idle₀.Start := ⟨.both, 10, 1, rfl⟩
  have reached : Reaches AffinityRun.Start AffinityRun.step AffinityRun.Monotone
      AffinityRun.served := by
    refine Reaches.next (AffinityCall.pick (sessionRequest "y" 4 6)) (Reaches.next
      (AffinityCall.dropLease 0 5) (Reaches.next (AffinityCall.pick (sessionRequest "x" 3 1))
      (.start start) ?_) ?_) ?_
    · exact ⟨by decide, by decide⟩
    · show 1 ≤ 5
      decide
    · exact ⟨show 5 ≤ 6 by decide, le_rfl⟩
  exact ⟨AffinityRun.sessions_affine reached, by decide +kernel⟩

end Infera.Router
