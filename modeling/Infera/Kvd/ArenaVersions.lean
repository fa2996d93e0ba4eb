import Infera.Kvd.ArenaContents

/-! Slot headers along a run. A header write never lowers a slot's version, and a
completed `put` or commit leaves an even version above every earlier one, so a
slot and version name one tenant only. Nothing wraps at `2 ^ 32`: the header
write raises there instead. -/

namespace Infera.Kvd

namespace Slot

/-- What a header write does; `stable` says whether it ends a write. -/
structure Written (s : Slot) (length : Nat) (stable : Bool) (w : Slot × Except PyErr Unit) :
    Prop where
  version : s.version ≤ w.1.version
  completed : stable = true → w.2 = .ok () → w.1.version % 2 = 0 ∧ s.version < w.1.version
  raised : w.2 ≠ .ok () → 2 ^ 32 ≤ length ∨ 2 ^ 32 ≤ s.version + 3

variable (s : Slot)

theorem written_writeSeqlock (value : Bytes) :
    s.Written value.length true (s.writeSeqlock value) := by
  simp only [writeSeqlock, midVersion, packsU32]
  constructor <;> split_ifs <;> simp <;> omega

theorem written_markReserved : s.Written 0 false s.markReserved := by
  simp only [markReserved, midVersion, packsU32]
  constructor <;> split_ifs <;> simp <;> omega

theorem written_stampCommitted (length : Nat) :
    s.Written length true (s.stampCommitted length) := by
  rcases Nat.mod_two_eq_zero_or_one s.version with parity | parity <;>
    simp only [stampCommitted, packsU32, parity, if_false, zero_ne_one] <;>
    constructor <;> split_ifs <;> simp <;> omega

end Slot

namespace SharedArena
variable {a : SharedArena} {op : Op}

/-- How an operation ends: it raises, or hands out a slot as stable, or none. -/
def answer (a : SharedArena) : Op → Except PyErr (Option Nat)
  | .put key value => (a.put key value).2
  | .reserve size connectionId => (a.reserve size connectionId).2.map fun _ => none
  | .commitReservation token key length connectionId =>
    (a.commitReservation token key length connectionId).2.map fun
      | .committed _ => (a.reservations.get? token).map (·.slotId)
      | .refused _ => none
  | _ => .ok none

/-- The slot an operation hands out as stable, with the version it carries. -/
def published (a : SharedArena) (op : Op) : Option (Nat × Nat) :=
  (a.answer op).toOption.join.map fun slot => (slot, ((a.step op).slots slot).version)

def publications : List Op → SharedArena → List (Nat × Nat)
  | [], _ => []
  | op :: rest, a => (a.published op).toList ++ publications rest (a.step op)

/-- The length that the operation stores in a header. -/
def Op.storedLength : Op → Nat
  | .put _ value => value.length
  | .commitReservation _ _ length _ => length.toNat
  | _ => 0

/-- What one operation does to the headers. -/
structure Advances (a : SharedArena) (op : Op) : Prop where
  version : ∀ slot, (a.slots slot).version ≤ ((a.step op).slots slot).version
  stable : ∀ slot, a.answer op = .ok (some slot) → ((a.step op).slots slot).version % 2 = 0 ∧
    (a.slots slot).version < ((a.step op).slots slot).version
  raised : a.answer op = .error .structError →
    2 ^ 32 ≤ op.storedLength ∨ ∃ slot, 2 ^ 32 ≤ (a.slots slot).version + 3

theorem Advances.same (slots : (a.step op).slots = a.slots)
    (answer : a.answer op = .ok none ∨ a.answer op = .error .keyError) : Advances a op := by
  refine ⟨fun slot => by rw [slots], fun slot eq => ?_, fun eq => ?_⟩ <;> simp [eq] at answer

theorem Advances.write {slot : Nat} {stable : Bool} {w : Slot × Except PyErr Unit}
    (written : (a.slots slot).Written op.storedLength stable w)
    (slots : (a.step op).slots = Function.update a.slots slot w.1)
    (answer : a.answer op = w.2.map fun _ => if stable then some slot else none) :
    Advances a op := by
  refine ⟨fun other => ?_, fun other handed => ?_, fun raised => ?_⟩
  · by_cases same : other = slot
    · simpa [slots, same] using written.version
    · simp [slots, same]
  · cases wrote : w.2 with
    | error e => simp [answer, wrote, Except.map] at handed
    | ok u =>
      obtain ⟨ends, rfl⟩ : stable = true ∧ slot = other := by
        simpa [answer, wrote, Except.map] using handed
      simpa [slots] using written.completed ends wrote
  · refine (written.raised fun wrote => ?_).imp_right fun room => ⟨slot, room⟩
    simp [answer, wrote, Except.map] at raised

section
variable (a : SharedArena)

theorem advances_put (key value : Bytes) : Advances a (.put key value) := by
  rcases a.put_cases key value with ⟨-, eq⟩ | ⟨-, ⟨-, eq⟩ | ⟨slot, c, taken, eq⟩⟩
  · refine .same ?_ (.inl (by rw [answer, eq]))
    simp only [step, eq, refused]
    split_ifs <;> simp
  · exact .same (by simp [step, eq, releaseKey_frame]) (.inr (by rw [answer, eq]))
  · have before : c.slots = a.slots := by
      rw [(takeSlot_frame taken).2.2.1, (releaseKey_frame _ key).1, slots_ensureGrid]
    exact .write ((a.slots slot).written_writeSeqlock value) (by simp [step, eq, before])
      (by simp [answer, eq, before])

theorem advances_reserve (size : Int) (connectionId : Nat) :
    Advances a (.reserve size connectionId) := by
  rcases a.reserve_cases size connectionId with ⟨b, grid, eq⟩ | ⟨-, -, slot, c, took, eq⟩
  · refine .same ?_ (.inl (by rw [answer, eq]; rfl))
    rcases grid with rfl | rfl <;> simp [step, eq]
  · have before : c.slots = a.slots := by rw [(takeSlot_frame took).2.2.1, slots_ensureGrid]
    refine .write (a.slots slot).written_markReserved (by simp [step, eq, before]) ?_
    rw [answer, eq, before]
    cases (a.slots slot).markReserved.2 <;> rfl

theorem advances_commit (token : Nat) (key : Bytes) (length : Int)
    (connectionId : Nat) : Advances a (.commitReservation token key length connectionId) := by
  have refused : ∀ reason, a.commitReservation token key length connectionId =
      (a, .ok (.refused reason)) → Advances a (.commitReservation token key length connectionId) :=
    fun reason eq => .same (by rw [step, eq]) (.inl (by rw [answer, eq]; rfl))
  cases found : a.reservations.get? token with
  | none => exact refused "unknown_lease" (by simp [commitReservation, found])
  | some lease =>
    by_cases owner : lease.connectionId ≠ connectionId
    · exact refused "wrong_owner" (by simp [commitReservation, found, owner])
    by_cases size : length < 0 ∨ length > lease.promisedSize
    · exact refused "oversize_commit" (by simp [commitReservation, found, owner, size])
    refine .write ((a.slots lease.slotId).written_stampCommitted length.toNat)
      (by simp [step, commitReservation, found, owner, size]) ?_
    simp only [answer, commitReservation, found, owner, size]
    cases ((a.slots lease.slotId).stampCommitted length.toNat).2 <;> rfl

theorem advances_step (op : Op) : Advances a op := by
  cases op with
  | put key value => exact advances_put a key value
  | reserve size connectionId => exact advances_reserve a size connectionId
  | commitReservation token key length connectionId =>
    exact advances_commit a token key length connectionId
  | cancelReservation token connectionId =>
    refine .same ?_ (.inl rfl)
    simp only [step, cancelReservation]
    split
    · rfl
    · split_ifs <;> rfl
  | getSlotForKey key =>
    refine .same ?_ (.inl rfl)
    simp only [step, getSlotForKey]
    split <;> rfl
  | evictLru notifyDrain =>
    refine .same ?_ (.inl rfl)
    simp only [step, evictLru]
    split <;> rfl
  | evictKey key notifyDrain =>
    refine .same ?_ (.inl rfl)
    simp only [step, evictKey]
    split
    · rfl
    · exact (releaseKey_frame _ key).1
  | engineWrite slot offset data =>
    have kept : (a.slots slot).Written 0 false
        ((a.engineWrite slot offset data).slots slot, .ok ()) :=
      ⟨by simp [engineWrite], by simp, fun raised => absurd rfl raised⟩
    exact .write kept (by simp [step, engineWrite]) rfl
  | drainRecentEvictions | cancelConnectionReservations | clear => exact .same rfl (.inl rfl)

end

theorem stable_of_published {p : Nat × Nat} (published : p ∈ (a.published op).toList) :
    p.2 % 2 = 0 ∧ (a.slots p.1).version < p.2 ∧ ((a.step op).slots p.1).version = p.2 := by
  rw [Option.mem_toList, SharedArena.published, Option.map_eq_some_iff] at published
  obtain ⟨slot, handed, rfl⟩ := published
  have answer : a.answer op = .ok (some slot) := by
    revert handed
    cases a.answer op <;> simp [Except.toOption]
  obtain ⟨even, lt⟩ := (advances_step a op).stable slot answer
  exact ⟨even, lt, rfl⟩

theorem lt_of_mem_publications {ops : List Op} {p : Nat × Nat} :
    ∀ {a : SharedArena}, p ∈ publications ops a → (a.slots p.1).version < p.2 ∧ p.2 % 2 = 0 := by
  induction ops with
  | nil => simp [publications]
  | cons op rest ih =>
    intro a mem
    rcases List.mem_append.mp mem with now | later
    · obtain ⟨even, lt, -⟩ := stable_of_published now
      exact ⟨lt, even⟩
    · exact ⟨((advances_step a op).version p.1).trans_lt (ih later).1, (ih later).2⟩

theorem publications_pairwise (ops : List Op) :
    ∀ a : SharedArena, (publications ops a).Pairwise fun p q => p.1 = q.1 → p.2 < q.2 := by
  induction ops with
  | nil => simp [publications]
  | cons op rest ih =>
    intro a
    refine List.pairwise_append.mpr ⟨by cases a.published op <;> simp, ih _, ?_⟩
    intro p now q later same
    rw [← (stable_of_published now).2.2, same]
    exact (lt_of_mem_publications later).1

/-- Every header has room for the next write, and the length stored fits in 32 bits. -/
def HeadersFit (a : SharedArena) (op : Op) : Prop :=
  op.storedLength < 2 ^ 32 ∧ ∀ slot, (a.slots slot).version + 3 < 2 ^ 32

/-- The versions published for a slot are even and strictly increasing, and while the
headers have room no operation fails on them. -/
theorem published_versions_increase (a : SharedArena) (ops : List Op)
    (fit : Along step HeadersFit ops a) :
    (∀ p ∈ publications ops a, p.2 % 2 = 0) ∧
      (publications ops a).Pairwise (fun p q => p.1 = q.1 → p.2 < q.2) ∧
      (publications ops a).Nodup ∧
      ∀ pre op post, ops = pre ++ op :: post →
        (pre.foldl step a).answer op ≠ .error .structError := by
  have increasing := publications_pairwise ops a
  refine ⟨fun p mem => (lt_of_mem_publications mem).2, increasing, ?_, ?_⟩
  · refine increasing.imp ?_
    rintro p q lt rfl
    exact lt_irrefl _ (lt rfl)
  · intro pre op post split raised
    subst split
    induction pre generalizing a with
    | nil =>
      rcases (advances_step a op).raised raised with long | ⟨slot, full⟩
      · exact absurd fit.1.1 (not_lt.mpr long)
      · exact absurd (fit.1.2 slot) (not_lt.mpr full)
    | cons first pre ih => exact ih (a.step first) raised fit.2 (publications_pairwise _ _)

theorem rewritten_slot_versions :
    publications [.put [1] [7], .put [2] [8]] (new 64) = [(0, 2), (0, 4)] ∧
      (publications [.put [1] [7], .put [2] [8]] (new 64)).Nodup := by
  have fit : Along step HeadersFit [.put [1] [7], .put [2] [8]] (new 64) := by
    refine ⟨⟨by decide, fun _ => (by decide : 0 + 3 < 2 ^ 32)⟩, ⟨by decide, ?_⟩, trivial⟩
    intro slot
    cases slot with
    | zero => decide
    | succ n => exact (by decide : 0 + 3 < 2 ^ 32)
  exact ⟨by decide, (published_versions_increase _ _ fit).2.2.1⟩

/-- A one-slot arena whose only key has been written `n` times. -/
structure Rewritten (n : Nat) (a : SharedArena) : Prop where
  capacity : a.capacity = 64
  slotSize : a.slotSize = 64
  free : a.freeSlots = []
  index : a.slotIndex = Dict.empty.set [1] 0
  version : (a.slots 0).version = 2 * n

theorem Rewritten.put {n : Nat} (wf : Rewritten n a) :
    a.put [1] [7] = (a.setSlot 0 ((a.slots 0).writeSeqlock [7]).1,
      ((a.slots 0).writeSeqlock [7]).2.map fun _ => some 0) := by
  simp [SharedArena.put, ensureGrid, fits, releaseKey, wf.capacity, wf.slotSize, wf.index, setSlot]
  rfl

theorem rewritten_replicate (n : Nat) (room : 2 * n + 2 < 2 ^ 32) :
    Rewritten (n + 1) ((List.replicate (n + 1) (Op.put [1] [7])).foldl step (new 64)) := by
  induction n with
  | zero => exact ⟨rfl, rfl, rfl, rfl, rfl⟩
  | succ n ih =>
    have wf := ih (by omega)
    rw [List.replicate_succ', List.foldl_concat]
    generalize (List.replicate (n + 1) (Op.put [1] [7])).foldl step (new 64) = a at wf ⊢
    have stable : packsU32 ((a.slots 0).midVersion + 1) := by
      simp only [packsU32, Slot.midVersion, wf.version]
      split_ifs <;> omega
    rw [step, wf.put, Slot.writeSeqlock_eq (by decide) stable]
    refine { wf with version := ?_ }
    simp [Slot.midVersion, wf.version]
    omega

theorem raises_rewritten {n : Nat} (wf : Rewritten n a) (last : 2 * n + 2 = 2 ^ 32) :
    a.answer (.put [1] [7]) = .error .structError := by
  have mid : ¬4294967295 ≤ 2 * n := by omega
  simp [answer, wf.put, Slot.writeSeqlock, Slot.midVersion, wf.version, packsU32, Except.map, mid, last]

/-- After `2 ^ 31 - 1` writes of one slot the next one raises. -/
theorem put_raises_at_last_version :
    ∃ writes, writes < 2 ^ 31 ∧
      ((List.replicate writes (Op.put [1] [7])).foldl step (new 64)).answer (.put [1] [7]) =
        .error .structError :=
  have last : ∃ n, 2 * n + 4 = 2 ^ 32 := ⟨2147483646, by norm_num⟩
  last.elim fun n eq =>
    ⟨n + 1, by omega, raises_rewritten (rewritten_replicate n (by omega)) (by omega)⟩

end SharedArena
end Infera.Kvd
