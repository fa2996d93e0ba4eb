import Infera.Kv.NoRegression

/-! What a probe takes for announced. A probe emits a block once and keeps its hash
until the block is evicted or cleared. A clear of the probe's own model, or of its
tier, empties the mirror and every index but not the probe's set, and the block
is never announced again (`cleared_model_still_emitted`). In runs without such a
clear the set is what the mirror holds on the probe's tier
(`emitted_iff_held`). -/

namespace Infera.Kv.Feed
open Function
variable {s : Feed} {i : Nat}

/-- The set is what the events emitted so far leave on the probe's tier. -/
def Deduped (i : Nat) (s : Feed) : Prop :=
  ∀ h, h ∈ (s.probes i).emitted ↔ (s.probes i).tier ∈ residencyAfter (s.probes i).key s.emitted h

/-- The engine reports through this probe alone. -/
def OwnCall (i : Nat) : Event → Prop
  | .inserted j _ | .evicted j _ | .cleared j _ => j = i
  | _ => True

/-- No clear of the probe's own model or tier. -/
def Spares (i : Nat) (s : Feed) : Event → Prop
  | .cleared _ (some (.model name)) => name ≠ (s.probes i).key.model
  | .cleared _ (some (.tier tier)) => tier ≠ (s.probes i).tier
  | _ => True

def Begun (i : Nat) (s : Feed) : Prop := s.Start ∧ (s.probes i).emitted = ∅

theorem deduped_of_begun (begun : s.Begun i) : s.Deduped i := by
  intro h
  simp [begun.2, begun.1.emitted, residencyAfter]

theorem setEmitted_self (s : Feed) (i : Nat) : s.setEmitted i (s.probes i).emitted = s := by
  simp [setEmitted]

theorem deduped_emit {event : KvEvent} {emitted : Finset Nat}
    (each : ∀ h, h ∈ emitted ↔ (s.probes i).tier ∈ observe (s.probes i).key
      (residencyAfter (s.probes i).key s.emitted) ((s.probes i).key, event) h) :
    Deduped i ((s.emit (s.probes i).key event).setEmitted i emitted) := by
  intro h
  simpa [setEmitted, emit, residencyAfter] using each h

theorem emitted_emitStored (s : Feed) (i : Nat) (block : BlockKey) :
    ((s.emitStored i block).probes i).emitted = insert block.sequenceHash (s.probes i).emitted := by
  unfold emitStored
  dsimp only
  split_ifs with known
  · exact (Finset.insert_eq_of_mem known).symm
  · simp [setEmitted]

theorem mem_emitted_onNodeInserted (chain : List BlockKey) (s : Feed) {h : Nat} :
    h ∈ ((s.onNodeInserted i chain).probes i).emitted ↔
      h ∈ (s.probes i).emitted ∨ ∃ block ∈ chain, block.sequenceHash = h := by
  induction chain generalizing s with
  | nil => simp [onNodeInserted]
  | cons block chain ih =>
    exact (ih _).trans (by simp [emitted_emitStored, or_assoc, or_left_comm, eq_comm])

section Step
variable (deduped : s.Deduped i) (chain : List BlockKey)
include deduped

theorem Deduped.emitStored (block : BlockKey) : (s.emitStored i block).Deduped i := by
  unfold Feed.emitStored
  dsimp only
  split_ifs with known
  · exact deduped
  · refine deduped_emit fun h => ?_
    by_cases here : h = block.sequenceHash <;>
      simp [observe, TreeEvent.record, here, deduped h]

theorem Deduped.onNodeEvicted : (s.onNodeEvicted i chain).Deduped i := by
  unfold Feed.onNodeEvicted
  cases chain.getLast? with
  | none => exact deduped
  | some last =>
    dsimp only
    split_ifs with known
    · refine deduped_emit fun h => ?_
      by_cases here : h = last.sequenceHash <;>
        simp [observe, TreeEvent.record, here, deduped h]
    · exact deduped

theorem Deduped.onClear {scope : Option Scope} (spares : Spares i s (.cleared i scope)) :
    (s.onClear i scope).Deduped i := by
  unfold Feed.onClear
  dsimp only
  split_ifs with own
  · refine deduped_emit fun h => ?_
    rcases own with all | compatKey
    · simp [all, observe, Scope.covers]
    · simp [compatKey, observe, Scope.covers]
  · rw [← setEmitted_self (s.emit _ _) i]
    refine deduped_emit fun h => (deduped h).trans ?_
    rcases scope with _ | _ | name | hex | tier | text
    · exact absurd (.inr rfl) own
    · exact absurd (.inl rfl) own
    · simp [observe, Scope.covers, Ne.symm spares]
    · have other : (s.probes i).key.compatKey ≠ hex := fun same => own (.inr (same ▸ rfl))
      simp [observe, Scope.covers, other]
    · simp [observe, Ne.symm spares]
    · simp [observe, Scope.covers]

theorem Deduped.onNodeInserted : (s.onNodeInserted i chain).Deduped i := by
  induction chain generalizing s with
  | nil => exact deduped
  | cons block chain ih => exact ih (deduped.emitStored block)

theorem Deduped.step {event : Event} (own : OwnCall i event) (spares : Spares i s event) :
    (s.step event).Deduped i := by
  cases event with
  | inserted j chain => exact own ▸ (deduped.onNodeInserted chain)
  | evicted j chain => exact own ▸ (deduped.onNodeEvicted chain)
  | cleared j scope =>
    obtain rfl : j = i := own
    exact deduped.onClear spares
  | applyNext now =>
    unfold Feed.step applyNext
    dsimp only
    split
    · exact deduped
    · split <;> exact deduped
  | arrive n now =>
    unfold Feed.step reconcileOne
    dsimp only
    split
    · exact deduped
    · split_ifs <;> exact deduped
  | flush | capture | lost | register | unregister => exact deduped

end Step

/-- In every run without a clear of the probe's own model or tier, the probe's set is what the
mirror, and a map that took in every event, hold on its tier; a block reported again is there. -/
theorem emitted_iff_held
    (reached : Reaches (Begun i) step (fun s event => OwnCall i event ∧ Spares i s event) s) :
    (∀ h, h ∈ (s.probes i).emitted ↔
      ∃ blk, (s.producer.blocksOf (s.probes i).key).get? h = some blk ∧
        (s.probes i).tier ∈ blk.tiers) ∧
    s.Deduped i ∧
    ∀ chain, let s' := s.onNodeInserted i chain
      ∀ block ∈ chain, (s'.probes i).tier ∈
        residencyAfter (s'.probes i).key s'.emitted block.sequenceHash := by
  have kept : s.Faithful ∧ s.Deduped i := by
    induction reached with
    | start begun => exact ⟨faithful_of_start begun.1, deduped_of_begun begun⟩
    | next event _ call ih => exact ⟨ih.1.step event, ih.2.step call.1 call.2⟩
  obtain ⟨faithful, deduped⟩ := kept
  refine ⟨fun h => ?_, deduped, fun chain block mem => ?_⟩
  · rw [deduped h, (faithful.mirror _).tiers h]
    cases (s.producer.blocksOf (s.probes i).key).get? h <;> simp
  · exact (deduped.onNodeInserted chain _).1
      ((mem_emitted_onNodeInserted chain s).2 (.inr ⟨block, mem, rfl⟩))

theorem recached_block_held :
    ([.inserted 0 [⟨1, 10, none⟩], .cleared 0 none, .inserted 0 [⟨1, 10, none⟩]].foldl step
      idle).Deduped 0 := by
  refine (emitted_iff_held (Reaches.along _ (.start ⟨start_idle, rfl⟩) ?_)).2.1
  exact ⟨⟨rfl, trivial⟩, ⟨rfl, trivial⟩, ⟨rfl, trivial⟩, trivial⟩

/-- The mirror has lost the block, the probe's set has not, and the next report emits nothing. -/
theorem cleared_model_still_emitted :
    let s := [.inserted 0 [⟨1, 10, none⟩], .cleared 0 (some (.model "m"))].foldl step idle
    1 ∈ (s.probes 0).emitted ∧ (s.producer.blocksOf onlyStream).get? 1 = none ∧
      (s.onNodeInserted 0 [⟨1, 10, none⟩]).emitted.length = s.emitted.length := by
  decide +kernel

end Infera.Kv.Feed
