import Infera.Kvd.SetThenGet

/-! Retention classes in RAM. The eviction loop of `set` respects priorities,
the arena's own LRU does not: a write may take the slot of a row of any
retention, and the drain then drops every row under that raw key. `Spares` says
when that does not reach a row of higher priority. -/

namespace Infera.Kvd
open List Option

namespace SharedArena

/-- The key whose slot a write of this size would take: the least recently written one, when
nothing is free. -/
def victimKey (a : SharedArena) (key : Bytes) (size : Nat) : Option Bytes :=
  let b := (a.ensureGrid size).releaseKey key
  if a.accepts size ∧ b.freeSlots = [] then b.slotIndex.keys.head? else none

variable {a : SharedArena}

theorem freeSlots_releaseKey_ensureGrid (free : a.freeSlots ≠ []) (key : Bytes)
    (size : Nat) : ((a.ensureGrid size).releaseKey key).freeSlots ≠ [] := by
  have grid : (a.ensureGrid size).freeSlots ≠ [] := by
    unfold ensureGrid
    split_ifs with decided none
    · exact free
    · exact free
    · simpa using none
  unfold releaseKey
  split
  · exact grid
  · exact cons_ne_nil _ _

theorem popFirst_head {victim : Bytes} {slot : Nat} {rest : Dict Bytes Nat}
    (popped : a.slotIndex.popFirst = some ((victim, slot), rest)) :
    a.slotIndex.keys.head? = some victim := by
  rw [Dict.keys, a.slotIndex.popFirst_eq_some popped]
  rfl

theorem Loosened.mem_log_put {a b : SharedArena} (loose : Loosened a b) {key value k : Bytes}
    (logged : k ∈ (b.put key value).1.recentEvictedKeys) :
    k ∈ a.recentEvictedKeys ∨ a.victimKey key value.length = some k := by
  rw [← loose.log]
  have before : ((b.ensureGrid value.length).releaseKey key).recentEvictedKeys =
      b.recentEvictedKeys := by
    rw [(releaseKey_frame _ key).2.2.2, recentEvictedKeys_ensureGrid]
  rcases b.put_cases key value with ⟨-, eq⟩ | ⟨accepted, ⟨-, eq⟩ | ⟨slot, c, took, eq⟩⟩
  · rw [eq] at logged
    unfold refused at logged
    split_ifs at logged
    · exact .inl logged
    · exact .inl (by simpa using logged)
  · rw [eq] at logged
    exact .inl (before ▸ logged)
  · rw [eq] at logged
    rcases takeSlot_cases took with ⟨rest, -, rfl⟩ | ⟨full, victim, rest, popped, rfl⟩
    · exact .inl (before ▸ logged)
    · rcases of_mem_logEvicted logged with old | rfl
      · exact .inl (before ▸ old)
      · rcases loose.free with rfl | free
        · refine .inr ?_
          unfold victimKey
          rw [if_pos ⟨accepted, full⟩]
          exact popFirst_head popped
        · exact absurd full (freeSlots_releaseKey_ensureGrid free key value.length)

theorem victimKey_logged {key value k : Bytes} (victim : a.victimKey key value.length = some k) :
    k ∈ (a.put key value).1.recentEvictedKeys := by
  unfold victimKey at victim
  simp only at victim
  split_ifs at victim with guard
  obtain ⟨accepted, full⟩ := guard
  rcases a.put_cases key value with ⟨refused, -⟩ | ⟨-, ⟨none, -⟩ | ⟨slot, c, took, eq⟩⟩
  · simp [refused] at accepted
  · have empty := (takeSlot_eq_none none).2
    simp [Dict.keys, empty] at victim
  · rw [eq]
    rcases takeSlot_cases took with ⟨rest, free, rfl⟩ | ⟨-, first, rest, popped, rfl⟩
    · simp [free] at full
    · cases (popFirst_head popped).symm.trans victim
      exact mem_logEvicted_self _ _

end SharedArena

namespace HostStore
variable {σ ρ : Type} {c : Composite} {e : Entry} {w : Write} {now : ℚ}
open SharedArena
variable {base st st' : HostStore σ ρ}

/-- The raw keys whose rows the drain of a write would drop. -/
def drainedKeys (st : HostStore σ ρ) (key : Bytes) (size : Nat) : List Bytes :=
  match st.sharedArena with
  | none => []
  | some arena => arena.recentEvictedKeys ++ (arena.victimKey key size).toList

theorem drainedKeys_of_notice {slot : Option Nat}
    (loose : LoosenedArena st base) (seated : Seated w base st' slot e) {k : Bytes}
    (noticed : k ∈ st'.pendingNotices) : k ∈ st.drainedKeys w.c.key w.value.length := by
  unfold pendingNotices at noticed
  rw [seated.arena] at noticed
  unfold drainedKeys
  rcases loose with ⟨none, none'⟩ | ⟨a, b, wired, wired', loose⟩
  · simp [storeBytes_of_no_arena none', none'] at noticed
  · rw [storeBytes_of_arena wired'] at noticed
    rw [wired]
    rcases loose.mem_log_put noticed with old | victim
    · exact mem_append_left _ old
    · exact mem_append_right _ (mem_toList.mpr victim)

theorem notice_of_drainedKeys {slot : Option Nat} (seated : Seated w base st' slot e)
    (room : base.pendingNotices.length < evictLogCap) {k : Bytes}
    (drained : k ∈ base.drainedKeys w.c.key w.value.length) : k ∈ st'.pendingNotices := by
  have kept := seated.notice_kept room (k := k)
  unfold pendingNotices at kept ⊢
  rw [seated.arena] at kept ⊢
  unfold drainedKeys at drained
  cases wired : base.sharedArena with
  | none => simp [wired] at drained
  | some arena =>
    rw [wired] at drained kept
    rw [storeBytes_of_arena wired] at kept ⊢
    rcases mem_append.mp drained with old | victim
    · exact kept old
    · exact victimKey_logged (mem_toList.mp victim)

structure Protected (st : HostStore σ ρ) (now : ℚ) (retention : Retention) (c : Composite)
    (e : Entry) : Prop where
  row : st.entries.get? c = some e
  live : e.isExpired now = false
  higher : retention.priority < e.priority

structure SetCall where
  clk : Clock
  c : Composite
  value : Bytes
  retention : Retention
  metadata : Metadata
  ttl : Option ℚ

/-- No key the drain would act on has a row of higher retention. -/
def Spares (st : HostStore σ ρ) (call : SetCall) : Prop :=
  ∀ c e, st.Protected (call.clk 0) call.retention c e →
    c.key ∉ st.drainedKeys call.c.key call.value.length

theorem Protected.ne {spills : List Spill}
    (guarded : st.Protected now w.retention c e) (room : RoomMade w st base spills) : c ≠ w.c := by
  rintro rfl
  have row := guarded.row
  rcases room with ⟨old, present, lower, -, -⟩ | ⟨absent, -, -⟩
  · rw [present] at row
    exact absurd guarded.higher (not_lt.mpr (some.inj row ▸ lower))
  · simp [absent] at row

theorem Protected.thinned {retention : Retention}
    (guarded : st.Protected now retention c e) (thinned : Thinned retention st base) :
    base.entries.get? c = some e := by
  cases found : base.entries.get? c with
  | none => exact absurd guarded.higher (not_lt.mpr (thinned.lost c e guarded.row found))
  | some e' => exact (thinned.rows c e' found).symm.trans guarded.row

theorem Protected.rowOutcome {out : Except PyErr RowResult} (wf : st.WellFormed)
    (guarded : st.Protected now w.retention c e) (outcome : RowOutcome w st st' out) :
    st'.entries.get? c = some e := by
  cases outcome with
  | downgrade | tooLarge => exact guarded.row
  | protectedRows _ absent _ stuck =>
    have loop := makeRoom_thinned st w.retention (st.inlineDemand w.value.length)
      st.entries.items.length st [] wf (.refl _ _) (by simp)
    rw [stuck] at loop
    exact guarded.thinned loop.1
  | raised _ _ room =>
    rw [entries_storeBytes]
    exact guarded.thinned (room.thinned wf).1
  | stored _ _ _ room _ _ seated =>
    rw [seated.entries, Dict.get?_set_of_ne (guarded.ne room)]
    exact guarded.thinned (room.thinned wf).1

variable [Region σ] [Region ρ]

section
variable (st : HostStore σ ρ) (call : SetCall)

def apply : HostStore σ ρ × Except PyErr (Bool × Option String) :=
  st.set call.clk call.c call.value call.retention call.metadata call.ttl

def KeepsHigher : Prop :=
  ∀ c e, st.Protected (call.clk 0) call.retention c e → (st.apply call).1.entries.get? c = some e

end

theorem WellFormed.keepsHigher (wf : st.WellFormed) (call : SetCall)
    (spares : st.Spares call) : st.KeepsHigher call := by
  intro c e guarded
  have counted : st.countSet.WellFormed := wf.stats _
  have guarded' : st.countSet.Protected (call.clk 0) call.retention c e :=
    { guarded with }
  have live : ∀ expiresAt, (st.setLive call.clk call.c call.value call.retention call.metadata
      expiresAt).1.entries.get? c = some e := by
    intro expiresAt
    rcases (wf.setOutcome ⟨call.clk, call.c, call.value, call.retention, call.metadata,
      expiresAt⟩).ram with ⟨_, outcome⟩ | ⟨row, spills, accepted, outcome, ram⟩
    · exact guarded'.rowOutcome counted outcome
    · have inRow := guarded'.rowOutcome counted outcome
      cases outcome with
      | stored _ _ _ room _ _ seated =>
        have spared : c.key ∉ row.pendingNotices := fun noticed =>
          spares c e guarded (drainedKeys_of_notice (room.thinned counted).1.arena seated noticed)
        refine (congrArg (Dict.get? · c) ram.entries).trans ?_
        rwa [get?_drain seated.lockstep, if_neg spared]
  unfold apply HostStore.set
  split
  · exact live none
  · split_ifs
    · exact guarded.row
    · exact live _

def applyAll (st : HostStore σ ρ) (calls : List SetCall) : HostStore σ ρ :=
  calls.foldl (fun st call => (st.apply call).1) st

theorem WellFormed.outlasts (calls : List SetCall) :
    ∀ (st : HostStore σ ρ), st.WellFormed → ∀ c e, st.entries.get? c = some e →
      (∀ call ∈ calls, call.retention.priority < e.priority ∧ e.isExpired (call.clk 0) = false) →
      (∀ before call after, calls = before ++ call :: after → (st.applyAll before).Spares call) →
      (st.applyAll calls).entries.get? c = some e := by
  induction calls with
  | nil => exact fun st _ c e row _ _ => row
  | cons call calls ih =>
    intro st wf c e row lower spares
    obtain ⟨higher, unexpired⟩ := lower call mem_cons_self
    have kept := wf.keepsHigher call (spares [] call calls rfl) c e ⟨row, unexpired, higher⟩
    refine ih _ (wf.set ..) c e kept (fun call mem => lower call (.tail _ mem)) ?_
    intro before call' after split
    exact spares (call :: before) call' after (by rw [split, cons_append])

theorem WellFormed.spares_of_keepsHigher (wf : st.WellFormed) (call : SetCall)
    (accepted : (st.apply call).2 = .ok (true, none)) (positive : ∀ t, call.ttl = some t → 0 < t)
    (budget : st.usedBytes + st.inlineDemand call.value.length ≤ st.maxBytes)
    (logRoom : st.pendingNotices.length < evictLogCap) (keeps : st.KeepsHigher call) :
    st.Spares call := by
  intro c e guarded drained
  have kept := keeps c e guarded
  unfold apply at accepted kept
  rw [st.set_eq_setLive _ _ _ _ _ positive] at accepted kept
  obtain ⟨base, row, spills, slot, e', stored⟩ := wf.stored
    ⟨call.clk, call.c, call.value, call.retention, call.metadata, call.ttl.map (call.clk 0 + ·)⟩
    accepted
  have same : base = st.countSet := by
    rcases stored.room with ⟨-, -, -, same, -⟩ | ⟨-, -, made⟩
    · exact same
    · have fits : st.countSet.usedBytes + st.countSet.inlineDemand call.value.length ≤
          st.countSet.maxBytes := budget
      rw [makeRoom_of_fits fits] at made
      exact (Prod.mk.inj made).1.symm
  have noticed : c.key ∈ row.pendingNotices := by
    refine notice_of_drainedKeys stored.seated ?_ ?_ <;> rw [same] <;> assumption
  rw [stored.entries, get?_drain stored.seated.lockstep, if_pos noticed] at kept
  simp at kept

/-- In every reachable state a write that spares the higher rows leaves them all in place, and a
row outlasts any flood of such writes. An accepted write that has room for its inline bytes, with
the log below its cap, leaves them in place only then. -/
theorem higher_kept_iff_spared {st : HostStore σ ρ} (reached : Server.Reachable st) :
    (∀ call, st.Spares call → st.KeepsHigher call) ∧ (∀ calls c e, st.entries.get? c = some e →
        (∀ call ∈ calls, call.retention.priority < e.priority ∧ e.isExpired (call.clk 0) = false) →
        (∀ before call after, calls = before ++ call :: after → (st.applyAll before).Spares call) →
        (st.applyAll calls).entries.get? c = some e) ∧
      ∀ call, (st.apply call).2 = .ok (true, none) → (∀ t, call.ttl = some t → 0 < t) →
        st.usedBytes + st.inlineDemand call.value.length ≤ st.maxBytes →
        st.pendingNotices.length < evictLogCap → (st.KeepsHigher call ↔ st.Spares call) := by
  have wf := reached.wellFormed
  refine ⟨wf.keepsHigher, fun calls => WellFormed.outlasts calls st wf, ?_⟩
  intro call accepted positive budget logRoom
  exact ⟨wf.spares_of_keepsHigher call accepted positive budget logRoom, wf.keepsHigher call⟩

def longRowStore : HostStore TablespaceLongRegion TablespaceLongRegion :=
  [Server.Event.request 1 false (fun _ => 0) (.set ⟨"m", "", [1]⟩ [7] "long" .empty none)].foldl
    Server.step (HostStore.new 100 (some (SharedArena.new 64)) none none [])

theorem reachable_longRowStore : Server.Reachable longRowStore :=
  Reaches.unconditional _ ⟨100, _, none, none, [], fun _ wired => ⟨64, by decide,
    (some.inj wired).symm⟩, rfl⟩

def ephemeralWrite : SetCall := ⟨fun _ => 1, ⟨"m", "", [2]⟩, [8], .ephemeral, .empty, none⟩

/-- An ephemeral write is accepted and the long row is gone. -/
theorem ephemeral_write_displaces_long :
    Server.Reachable longRowStore ∧ (longRowStore.apply ephemeralWrite).2 = .ok (true, none) ∧
      (longRowStore.apply ephemeralWrite).1.entries.get? ⟨"m", "", [1]⟩ = none ∧
      ¬longRowStore.KeepsHigher ephemeralWrite := by
  have gone : (longRowStore.apply ephemeralWrite).1.entries.get? ⟨"m", "", [1]⟩ = none := by rfl
  refine ⟨reachable_longRowStore, by decide, gone, fun keeps => ?_⟩
  have kept := keeps ⟨"m", "", [1]⟩ _ ⟨rfl, rfl, by decide⟩
  rw [gone] at kept
  simp at kept

theorem ephemeral_write_spares_long :
    let st : HostStore TablespaceLongRegion TablespaceLongRegion :=
      [Server.Event.request 1 false (fun _ => 0) (.set ⟨"m", "", [1]⟩ [7] "long" .empty none)].foldl
        Server.step (HostStore.new 100 (some (SharedArena.new 128)) none none [])
    (st.apply ephemeralWrite).2 = .ok (true, none) ∧
      (st.apply ephemeralWrite).1.entries.get? ⟨"m", "", [1]⟩ = st.entries.get? ⟨"m", "", [1]⟩ ∧
      st.entries.get? ⟨"m", "", [1]⟩ ≠ none := by
  intro st
  have reached : Server.Reachable st := Reaches.unconditional _ ⟨100, _, none, none, [],
    fun _ wired => ⟨128, by decide, (some.inj wired).symm⟩, rfl⟩
  have spares : st.Spares ephemeralWrite := by
    intro c e _ drained
    exact absurd drained not_mem_nil
  have kept := (higher_kept_iff_spared reached).1 ephemeralWrite spares ⟨"m", "", [1]⟩ _
    ⟨rfl, rfl, by decide⟩
  exact ⟨by decide, kept.trans rfl, by simp [show st.entries.get? ⟨"m", "", [1]⟩ = some _ from rfl]⟩

end HostStore
end Infera.Kvd
