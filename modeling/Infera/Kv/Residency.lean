import Infera.Kv.Index

/-! Streams of stored and removed events on one tree, against the plain map that
adds a tier on stored and deletes it on removed.

A block that arrives before its parent is put under the root. There two such
blocks with equal contents fall on one node (`orphans_share_a_node`), and a removal
looks for the block under the parent named by its hash. As long as every block is
stored in and removed from the slot the table knows it in, the tree is the map
(`mirrors_of_attached`). -/

namespace Infera.Kv

inductive TreeEvent where
  | stored (block : BlockKey) (tier : Tier) (now : Int)
  | removed (sequenceHash : Nat) (tier : Tier)

def TreeEvent.record (resident : Nat → Finset Tier) : TreeEvent → Nat → Finset Tier
  | stored block tier _ =>
    Function.update resident block.sequenceHash (insert tier (resident block.sequenceHash))
  | removed s tier => Function.update resident s ((resident s).erase tier)

def Tree.apply (t : Tree) : TreeEvent → Tree
  | .stored block tier now => t.applyStored block tier now
  | .removed s tier => t.applyRemoved s tier

structure Reported where
  tree : Tree
  resident : Nat → Finset Tier

namespace Reported

def step (r : Reported) (event : TreeEvent) : Reported :=
  ⟨r.tree.apply event, event.record r.resident⟩

def Start (r : Reported) : Prop := r.tree = Tree.new ∧ r.resident = fun _ => ∅

def Attached (r : Reported) : TreeEvent → Prop
  | .stored block _ _ => r.tree.Placed block
  | .removed s tier => r.tree.Detachable s tier

/-- Each sequence hash determines the block hash and the parent. -/
def FromChain (chain : Nat → Nat × Option Nat) : TreeEvent → Prop
  | .stored block _ _ => chain block.sequenceHash = (block.blockHash, block.parentSequenceHash)
  | .removed _ _ => True

structure Agrees (r : Reported) : Prop where
  links : r.tree.WellLinked
  residency : ∀ s, r.tree.residency s = r.resident s

variable {r : Reported}

theorem Agrees.mirrors (agrees : r.Agrees) : r.tree.Mirrors r.resident :=
  ⟨agrees.residency, agrees.links.mirrors.known⟩

theorem agrees_of_start (start : r.Start) : r.Agrees := by
  obtain ⟨tree, resident⟩ := start
  refine ⟨tree ▸ Tree.wellLinked_new, fun s => ?_⟩
  rw [tree, resident]
  rfl

open TreeEvent

theorem Agrees.step (agrees : r.Agrees) (event : TreeEvent)
    (attached : r.Attached event) : (r.step event).Agrees := by
  cases event with
  | stored block tier now =>
    obtain ⟨links, reported⟩ := agrees.links.applyStored attached tier now
    refine ⟨links, fun s => ?_⟩
    simp only [Reported.step, Tree.apply, record, Function.update_apply, reported, agrees.residency]
    split_ifs with same
    · rw [same]
    · rfl
  | removed s tier =>
    obtain ⟨links, reported⟩ := agrees.links.applyRemoved attached
    refine ⟨links, fun s' => ?_⟩
    simp only [Reported.step, Tree.apply, record, Function.update_apply, reported, agrees.residency]
    split_ifs with same
    · rw [same]
    · rfl

theorem agrees_of_attached (reached : Reaches Start step Attached r) : r.Agrees :=
  reached.invariant (fun _ start => agrees_of_start start)
    fun _ event agrees attached => agrees.step event attached

/-- In every run whose blocks are stored and removed where the table knows them, the tree is the
plain map. -/
theorem mirrors_of_attached {r : Reported} (reached : Reaches Start step Attached r) :
    r.tree.Mirrors r.resident :=
  (agrees_of_attached reached).mirrors

def blankReport : Reported := ⟨Tree.new, fun _ => ∅⟩

theorem start_blankReport : blankReport.Start := ⟨rfl, rfl⟩

/-- Two prompts, each of two blocks, with the same second block. -/
def twoPrompts : Nat → Nat × Option Nat := fun s =>
  if s = 1 then (10, none) else if s = 2 then (20, some 1)
  else if s = 3 then (11, none) else (20, some 3)

/-- The second blocks of two prompts arrive before the first ones and fall on one node, so that the
table does not know the later of them. -/
theorem orphans_share_a_node : ∃ r : Reported,
    Reaches Start step (fun _ event => FromChain twoPrompts event) r ∧
      r.tree.residency 4 = ∅ ∧ r.resident 4 = {.device} ∧ ¬r.tree.Mirrors r.resident := by
  have begun : Reaches Start step (fun _ event => FromChain twoPrompts event) blankReport :=
    .start start_blankReport
  have first := begun.next (stored ⟨2, 20, some 1⟩ .device 0) rfl
  have second := first.next (stored ⟨4, 20, some 3⟩ .device 0) rfl
  have reported : ((blankReport.step (stored ⟨2, 20, some 1⟩ .device 0)).step
      (stored ⟨4, 20, some 3⟩ .device 0)).tree.residency 4 = ∅ := by decide +kernel
  have told : ((blankReport.step (stored ⟨2, 20, some 1⟩ .device 0)).step
      (stored ⟨4, 20, some 3⟩ .device 0)).resident 4 = {.device} := by decide +kernel
  refine ⟨_, second, reported, told, fun mirrors => ?_⟩
  have same := mirrors.residency 4
  rw [reported, told] at same
  exact Finset.singleton_ne_empty _ same.symm

theorem chain_in_order_mirrored :
    let r := ((blankReport.step (TreeEvent.stored ⟨1, 10, none⟩ .device 0)).step
      (TreeEvent.stored ⟨2, 20, some 1⟩ .device 0)).step (TreeEvent.removed 2 .device)
    r.tree.Mirrors r.resident := by
  have begun : Reaches Start step Attached blankReport := .start start_blankReport
  have first := begun.next (stored ⟨1, 10, none⟩ .device 0) (by
    change Tree.Placed _ _
    decide +kernel)
  have second := first.next (stored ⟨2, 20, some 1⟩ .device 0) (by
    change Tree.Placed _ _
    decide +kernel)
  refine mirrors_of_attached (second.next (removed 2 .device) fun i found _ _ => ?_)
  have node : some 2 = some i := by
    rw [← found]
    decide +kernel
  cases node
  exact ⟨1, by decide +kernel, by decide +kernel⟩

end Reported
end Infera.Kv
