import Infera.Router.Fleet

/-! Session affinity. A session of a model in a role is bound to a target: the
map has one entry per key, shared with the leases of its requests. A pick for a
bound key is constrained to the target while that is still a candidate; any
other pick chooses freely and binds the entry anew under the next generation. A
failed request unbinds the generation it was leased under. An entry that idles
for `ttl` is as good as unbound and is swept when a sweep is due.

Entries are numbered as they are allocated, and so are leases; the entries and
the live leases say how many strong references an entry has. The histories are
sequential: no lock is ever found taken. Readings of the clock are arguments.
The counters behind the metrics are not modelled. -/

namespace Infera.Router
open Dict Function List

inductive Role where
  | prefill
  | decode
  | mixed
  deriving DecidableEq

inductive Mode where
  | off
  | prefill
  | both
  deriving DecidableEq

/-- A registration with all its fields; those the router only compares are in `rest`. -/
structure PoolWorker (ρ : Type) extends Worker where
  rest : ρ
  deriving DecidableEq

structure RouteTarget (ρ : Type) where
  worker : PoolWorker ρ
  dpRank : Option Int
  deriving DecidableEq

section Targets
variable {ρ : Type} {workers : List (PoolWorker ρ)} (fallback : RouteTarget ρ)
  (before : RouteTarget ρ → RouteTarget ρ → Bool)

def RouteTarget.routeKey (t : RouteTarget ρ) : String :=
  match t.dpRank with
  | none => t.worker.workerId
  | some r => t.worker.workerId ++ "#dp" ++ toString r

def isRankMultiplexed (w : PoolWorker ρ) : Bool := w.dpSize.getD 1 > 1 && w.dpRank.isNone

/-- One target per worker, except that rank-multiplexed workers fan out. -/
def expandTargets (workers : List (PoolWorker ρ)) : List (RouteTarget ρ) :=
  workers.flatMap fun w =>
    if isRankMultiplexed w then
      (List.range (w.dpSize.getD 1).toNat).map fun (r : ℕ) => ⟨w, some (r : Int)⟩
    else [⟨w, none⟩]

/-- What a policy in its current state answers: one of the targets it is given. -/
structure Choice (ρ : Type) where
  choose : List (RouteTarget ρ) → RouteTarget ρ
  mem : ∀ targets, targets ≠ [] → choose targets ∈ targets

@[simp] theorem Choice.choose_singleton (c : Choice ρ) (t : RouteTarget ρ) : c.choose [t] = t := by
  simpa using c.mem [t] (by simp)

/-- Round robin, where the counter of this candidate set stands at `idx`. -/
def Choice.roundRobin (idx : ℕ) : Choice ρ where
  choose targets := targets[idx % targets.length]?.getD fallback
  mem targets nonempty := by
    have inside : idx % targets.length < targets.length :=
      Nat.mod_lt _ (List.length_pos_iff.mpr nonempty)
    rw [List.getElem?_eq_getElem inside, Option.getD_some]
    exact List.getElem_mem inside

/-- `min_by`: the earlier of two that compare equal. -/
def minBy (before : RouteTarget ρ → RouteTarget ρ → Bool) :
    RouteTarget ρ → List (RouteTarget ρ) → RouteTarget ρ
  | best, [] => best
  | best, t :: targets => minBy before (if before t best then t else best) targets

theorem minBy_mem (best : RouteTarget ρ)
    (targets : List (RouteTarget ρ)) : minBy before best targets ∈ best :: targets := by
  induction targets generalizing best with
  | nil => exact mem_cons_self
  | cons t targets ih =>
    have later := ih (if before t best then t else best)
    unfold minBy
    split_ifs at later ⊢
    · exact mem_cons_of_mem _ later
    · rcases mem_cons.mp later with same | mem
      · rw [same]
        exact mem_cons_self
      · exact mem_cons_of_mem _ (.tail _ mem)

/-- The cost-aware policy, by when it holds one target strictly cheaper than another. -/
def Choice.leastCost : Choice ρ where
  choose
    | [] => fallback
    | t :: targets => minBy before t targets
  mem
    | [], nonempty => absurd rfl nonempty
    | t :: targets, _ => minBy_mem before t targets

theorem expandTargets_ne_nil (nonempty : workers ≠ []) : expandTargets workers ≠ [] := by
  obtain ⟨w, rest, rfl⟩ := exists_cons_of_ne_nil nonempty
  simp only [expandTargets, flatMap_cons, ne_eq, append_eq_nil_iff, not_and_or]
  left
  split_ifs with multiplexed
  · simp only [isRankMultiplexed, Bool.and_eq_true, decide_eq_true_eq] at multiplexed
    rw [map_eq_nil_iff, range_eq_nil]
    omega
  · simp

theorem dpRank_of_mem {t : RouteTarget ρ}
    (mem : t ∈ expandTargets workers) : t.dpRank = none ∨ ∃ r : ℕ, t.dpRank = some (r : Int) := by
  simp only [expandTargets, mem_flatMap] at mem
  obtain ⟨w, -, mem⟩ := mem
  split_ifs at mem
  · obtain ⟨r, -, rfl⟩ := mem_map.mp mem
    exact .inr ⟨r, rfl⟩
  · rw [mem_singleton] at mem
    exact .inl (by rw [mem])

theorem eq_of_toString_eq {r r' : ℕ} (same : toString (r : Int) = toString (r' : Int)) :
    r = r' := by
  have digits : r.repr = r'.repr := same
  rw [Nat.repr_eq_ofList_toDigits, Nat.repr_eq_ofList_toDigits, String.ofList_inj] at digits
  have parsed := congrArg (fun cs => Nat.ofDigitChars 10 cs 0) digits
  simpa using parsed

theorem eq_of_routeKey {workers workers' : List (PoolWorker ρ)} {t t' : RouteTarget ρ}
    (mem : t ∈ expandTargets workers) (mem' : t' ∈ expandTargets workers')
    (sameKey : t.routeKey = t'.routeKey) (sameWorker : t.worker = t'.worker) : t = t' := by
  obtain ⟨w, rank⟩ := t
  obtain ⟨w', rank'⟩ := t'
  obtain rfl : w = w' := sameWorker
  have longer : ∀ r : ℕ, w.workerId ≠ w.workerId ++ "#dp" ++ toString (r : Int) := by
    intro r same
    have lengths := congrArg String.length same
    simp only [String.length_append, show "#dp".length = 3 from rfl] at lengths
    omega
  rcases dpRank_of_mem mem with rfl | ⟨r, rfl⟩ <;> rcases dpRank_of_mem mem' with rfl | ⟨r', rfl⟩
  · rfl
  · exact absurd sameKey (longer r')
  · exact absurd sameKey.symm (longer r)
  · rw [eq_of_toString_eq ((String.append_right_inj _).mp sameKey)]

end Targets

structure Key where
  model : String
  session : String
  role : Role
  deriving DecidableEq

structure Entry (ρ : Type) where
  target : Option (RouteTarget ρ)
  generation : UInt64
  active : ℕ
  idleSince : Instant

def Entry.release {ρ : Type} (e : Entry ρ) (now : Instant) : Entry ρ :=
  let active := e.active - 1
  { e with active, idleSince := if active = 0 then now else e.idleSince }

structure Lease where
  entry : ℕ
  generation : UInt64

structure Binding where
  entry : ℕ
  generation : UInt64
  deriving DecidableEq

def Lease.binding (l : Lease) : Binding := ⟨l.entry, l.generation⟩

structure Sessions (ρ : Type) where
  mode : Mode
  ttl : ℕ
  capacity : ℕ
  values : Dict Key ℕ
  swept : Instant
  /-- What each number was allocated for; numbers from `allocated` on are free. -/
  heap : ℕ → Entry ρ
  allocated : ℕ
  leases : Dict ℕ Lease
  issued : ℕ

/-- A request to pick for, with the two readings of the clock. -/
structure Request (ρ : Type) where
  policy : Choice ρ
  candidates : List (PoolWorker ρ)
  nonempty : candidates ≠ []
  role : Role
  model : String
  session : Option String
  now : Instant
  locked : Instant

inductive Reason where
  | hit
  | expired
  | invalid
  | new
  deriving DecidableEq

/-- The target, and for a session the lease and why the target was picked. -/
structure Picked (ρ : Type) where
  target : RouteTarget ρ
  lease : Option (ℕ × Reason)

def second : ℕ := 10 ^ 9

namespace Sessions
variable {ρ : Type} [DecidableEq ρ]

def new (mode : Mode) (ttl capacity : ℕ) (now : Instant) : Sessions ρ :=
  { mode, ttl, capacity, values := .empty, swept := now
    heap _ := ⟨none, 0, 0, 0⟩, allocated := 0, leases := .empty, issued := 0 }

variable (s : Sessions ρ) (id : ℕ) (key : Key) (now : Instant) (r : Request ρ)

def leaseCount : ℕ := s.leases.values.countP fun l => l.entry = id

def strongCount : ℕ := s.values.values.count id + s.leaseCount id

def retains (id : ℕ) : Bool :=
  1 < s.strongCount id || 0 < (s.heap id).active || elapsed now (s.heap id).idleSince < s.ttl

/-- A full map is swept for a new session at most once a second. -/
def sweepDue : Bool :=
  let since := elapsed now s.swept
  let full := s.capacity ≤ s.values.items.length && !s.values.contains key
  30 * second ≤ since || full && second ≤ since

def sweep : Sessions ρ :=
  if s.sweepDue key now then
    { s with values := s.values.filter fun _ id => s.retains now id, swept := now }
  else s

/-- The entry of the key; at capacity a new key has none. -/
def locate : Option ℕ × Sessions ρ :=
  match s.values.get? key with
  | some id => (some id, s)
  | none =>
    if s.values.items.length < s.capacity then
      (some s.allocated,
        { s with
          values := s.values.set key s.allocated
          heap := update s.heap s.allocated ⟨none, 0, 0, now⟩
          allocated := s.allocated + 1 })
    else (none, s)

omit [DecidableEq ρ] in
theorem eq_of_locate_none {s t : Sessions ρ} {key : Key} {now : Instant}
    (located : s.locate key now = (none, t)) : t = s := by
  unfold locate at located
  split at located
  · cases located
  · split_ifs at located
    · cases located
    · cases located
      rfl

def expired : Bool :=
  (s.heap id).active = 0 && s.ttl ≤ elapsed now (s.heap id).idleSince

/-- The bound target, if it is still a candidate with the same record. -/
def held (candidates : List (PoolWorker ρ)) (now : Instant) : Option (RouteTarget ρ) :=
  match (s.heap id).target with
  | none => none
  | some old =>
    if s.expired id now then none
    else (expandTargets candidates).find? fun t =>
      t.routeKey = old.routeKey ∧ t.worker = old.worker

def lend (e : Entry ρ) : Sessions ρ :=
  { s with
    heap := update s.heap id { e with active := e.active + 1 }
    leases := s.leases.set s.issued ⟨id, e.generation⟩
    issued := s.issued + 1 }

def pickEntry : Picked ρ × Sessions ρ :=
  let e := s.heap id
  match s.held id r.candidates r.locked with
  | some target => (⟨r.policy.choose [target], some (s.issued, .hit)⟩, s.lend id e)
  | none =>
    let reason := if s.expired id r.locked then .expired
      else if e.target.isSome then .invalid else .new
    let target := r.policy.choose (expandTargets r.candidates)
    (⟨target, some (s.issued, reason)⟩,
      s.lend id { e with target := some target, generation := e.generation + 1 })

def enabled (role : Role) : Bool :=
  s.mode = .both || s.mode = .prefill && role = .prefill

def keyOf : Option Key :=
  (r.session.filter fun _ => s.enabled r.role).map fun session => ⟨r.model, session, r.role⟩

def pick : Picked ρ × Sessions ρ :=
  match s.keyOf r with
  | none => (⟨r.policy.choose (expandTargets r.candidates), none⟩, s)
  | some key =>
    match (s.sweep key r.now).locate key r.now with
    | (none, s) => (⟨r.policy.choose (expandTargets r.candidates), none⟩, s)
    | (some id, s) => s.pickEntry id r

def dropLease (lease : ℕ) (now : Instant) : Sessions ρ :=
  match s.leases.get? lease with
  | none => s
  | some l =>
    { s with
      heap := update s.heap l.entry ((s.heap l.entry).release now)
      leases := s.leases.erase lease }

/-- Without a strong reference there is no entry to upgrade to. -/
def invalidate (b : Binding) : Sessions ρ :=
  if 0 < s.strongCount b.entry ∧ (s.heap b.entry).generation = b.generation then
    { s with heap := update s.heap b.entry { s.heap b.entry with target := none } }
  else s

structure WellFormed (s : Sessions ρ) : Prop where
  active : ∀ id, (s.heap id).active = s.leaseCount id
  allocated : ∀ k id, s.values.get? k = some id → id < s.allocated
  distinct : ∀ k k' id, s.values.get? k = some id → s.values.get? k' = some id → k = k'
  leased : ∀ n l, s.leases.get? n = some l → ∃ k, s.values.get? k = some l.entry
  issued : ∀ n l, s.leases.get? n = some l → n < s.issued
  bounded : s.values.items.length ≤ s.capacity

variable {s}
omit [DecidableEq ρ]

theorem leaseCount_pos {n : ℕ} {l : Lease} (live : s.leases.get? n = some l) :
    0 < s.leaseCount l.entry := by
  refine countP_pos_iff.mpr ⟨l, ?_, by simp⟩
  exact mem_values_iff.mpr ⟨n, live⟩

theorem strongCount_pos {k : Key} {id : ℕ} (mapped : s.values.get? k = some id) :
    s.leaseCount id < s.strongCount id := by
  have counted : 0 < s.values.values.count id := count_pos_iff.mpr (mem_values_iff.mpr ⟨k, mapped⟩)
  unfold strongCount
  omega

theorem retains_of_lease {k : Key} {n : ℕ} {l : Lease}
    (mapped : s.values.get? k = some l.entry) (live : s.leases.get? n = some l) (now : Instant) :
    s.retains now l.entry = true := by
  have referenced : 1 < s.strongCount l.entry :=
    Nat.lt_of_le_of_lt (leaseCount_pos live) (strongCount_pos mapped)
  simp [retains, referenced]

theorem new_wellFormed (mode : Mode) (ttl capacity : ℕ) (now : Instant) :
    (new mode ttl capacity now : Sessions ρ).WellFormed where
  active _ := rfl
  allocated _ _ mapped := by cases mapped
  distinct _ _ _ mapped := by cases mapped
  leased _ _ live := by cases live
  issued _ _ live := by cases live
  bounded := Nat.zero_le _

namespace WellFormed

section
variable (wf : s.WellFormed)
include wf

theorem leaseCount_free : s.leaseCount s.allocated = 0 := by
  refine countP_eq_zero.mpr fun l mem => ?_
  obtain ⟨n, live⟩ := mem_values_iff.mp mem
  obtain ⟨k, mapped⟩ := wf.leased n l live
  have below := wf.allocated k l.entry mapped
  simp only [decide_eq_true_eq]
  omega

theorem strongCount_of_unmapped {id : ℕ}
    (unmapped : ∀ k, s.values.get? k ≠ some id) : s.strongCount id = 0 := by
  have absent : s.values.values.count id = 0 := by
    refine count_eq_zero.mpr fun mem => ?_
    obtain ⟨k, mapped⟩ := mem_values_iff.mp mem
    exact unmapped k mapped
  have free : s.leaseCount id = 0 := by
    refine countP_eq_zero.mpr fun l mem => ?_
    obtain ⟨n, live⟩ := mem_values_iff.mp mem
    obtain ⟨k, mapped⟩ := wf.leased n l live
    simp only [decide_eq_true_eq]
    exact fun same => unmapped k (same ▸ mapped)
  rw [strongCount, absent, free]

theorem sweep (key : Key) (now : Instant) : (s.sweep key now).WellFormed := by
  unfold Sessions.sweep
  split_ifs
  · refine ⟨wf.active, ?_, ?_, ?_, wf.issued, ?_⟩
    · intro k id mapped
      exact wf.allocated k id (get?_filter_eq_some_iff.mp mapped).1
    · intro k k' id mapped mapped'
      exact wf.distinct k k' id (get?_filter_eq_some_iff.mp mapped).1
        (get?_filter_eq_some_iff.mp mapped').1
    · intro n l live
      obtain ⟨k, mapped⟩ := wf.leased n l live
      exact ⟨k, get?_filter_eq_some_iff.mpr ⟨mapped, retains_of_lease mapped live now⟩⟩
    · exact (length_filter_le _ _).trans wf.bounded
  · exact wf

theorem locate (key : Key) (now : Instant) : (s.locate key now).2.WellFormed := by
  unfold Sessions.locate
  split
  · exact wf
  · rename_i absent
    split_ifs with room
    · refine ⟨?_, ?_, ?_, ?_, wf.issued, ?_⟩
      · intro id
        show (update s.heap s.allocated _ id).active = s.leaseCount id
        rw [update_apply]
        split_ifs with here
        · rw [here, wf.leaseCount_free]
        · exact wf.active id
      · intro k id mapped
        rcases get?_set_cases mapped with ⟨-, rfl⟩ | ⟨-, mapped⟩
        · exact Nat.lt_succ_self _
        · exact Nat.lt_succ_of_lt (wf.allocated k id mapped)
      · intro k k' id mapped mapped'
        have apart : ∀ k, s.values.get? k ≠ some s.allocated :=
          fun k old => absurd (wf.allocated k _ old) (lt_irrefl _)
        rcases get?_set_cases mapped, get?_set_cases mapped' with
          ⟨⟨rfl, rfl⟩ | ⟨-, old⟩, ⟨rfl, same⟩ | ⟨-, old'⟩⟩
        · rfl
        · exact absurd old' (apart k')
        · exact absurd (same ▸ old) (apart k)
        · exact wf.distinct k k' id old old'
      · intro n l live
        obtain ⟨k, mapped⟩ := wf.leased n l live
        refine ⟨k, ?_⟩
        rw [get?_set, if_neg]
        · exact mapped
        · rintro rfl
          cases absent.symm.trans mapped
      · rw [items_set_of_fresh _ _ _ absent, length_append]
        exact room
    · exact wf

theorem lend {k : Key} {id : ℕ} (mapped : s.values.get? k = some id)
    {e : Entry ρ} (count : e.active = s.leaseCount id) : (s.lend id e).WellFormed := by
  have fresh : s.leases.get? s.issued = none := by
    cases known : s.leases.get? s.issued with
    | none => rfl
    | some l => exact absurd (wf.issued _ l known) (lt_irrefl _)
  have leases : ∀ id', (s.lend id e).leaseCount id' =
      s.leaseCount id' + if id = id' then 1 else 0 := by
    intro id'
    simp [leaseCount, Sessions.lend, values_set_of_fresh _ _ _ fresh]
  refine ⟨?_, wf.allocated, wf.distinct, ?_, ?_, wf.bounded⟩
  · intro id'
    rw [leases]
    show (update s.heap id _ id').active = _
    rw [update_apply]
    split_ifs with here there there
    · rw [here, ← count]
    · exact absurd here.symm there
    · exact absurd there.symm here
    · exact wf.active id'
  · intro n l live
    rcases get?_set_cases live with ⟨-, rfl⟩ | ⟨-, live⟩
    · exact ⟨k, mapped⟩
    · exact wf.leased n l live
  · intro n l live
    rcases get?_set_cases live with ⟨rfl, -⟩ | ⟨-, live⟩
    · exact Nat.lt_succ_self _
    · exact Nat.lt_succ_of_lt (wf.issued n l live)

theorem dropLease (n : ℕ) (now : Instant) : (s.dropLease n now).WellFormed := by
  unfold Sessions.dropLease
  split
  · exact wf
  · rename_i l live
    refine ⟨?_, wf.allocated, wf.distinct, ?_, ?_, wf.bounded⟩
    · intro id
      have counts : s.leaseCount id = (s.leases.erase n).values.countP (fun l => l.entry = id) +
            if l.entry = id then 1 else 0 := by
        unfold leaseCount
        rw [(s.leases.values_perm_erase live).countP_eq, countP_cons]
        simp
      show (update s.heap l.entry _ id).active =
        (s.leases.erase n).values.countP fun l => l.entry = id
      by_cases here : id = l.entry
      · subst here
        rw [if_pos rfl] at counts
        rw [update_self, Entry.release, wf.active, counts, Nat.add_sub_cancel]
      · rw [if_neg (Ne.symm here), Nat.add_zero] at counts
        rw [update_of_ne here, wf.active, counts]
    · exact fun n' l' live' => wf.leased n' l' (get?_of_erase live').2
    · exact fun n' l' live' => wf.issued n' l' (get?_of_erase live').2

theorem invalidate (b : Binding) : (s.invalidate b).WellFormed := by
  unfold Sessions.invalidate
  split_ifs
  · refine { wf with active := fun id => ?_ }
    show (update s.heap b.entry _ id).active = s.leaseCount id
    rw [update_apply]
    split_ifs with here
    · rw [here, ← wf.active]
    · exact wf.active id
  · exact wf

end

end WellFormed
end Sessions
end Infera.Router
