import Infera.Dict
import Infera.Runs

/-! The prefix tree of `KVIndex`: one node per cached block, children keyed by
block hash, and a flat table from sequence hash to node. Nodes are objects with an
identity, since the tree and the table may come to hold different ones; node 0 is
the synthetic root. The table is kept per tree, as every one of its keys starts
with the tree's own. -/

namespace Infera.Kv
open Dict

inductive Tier where
  | device
  | host
  | disk
  | fabric
  deriving DecidableEq, Repr

structure BlockKey where
  sequenceHash : Nat
  blockHash : Nat
  parentSequenceHash : Option Nat
  deriving DecidableEq, Repr

structure IndexNode where
  blockHash : Nat
  sequenceHash : Nat
  parentSequenceHash : Option Nat
  /-- Block hash to the identity of the child. -/
  children : Dict Nat Nat
  tiers : Finset Tier
  insertedTsMs : Int
  lastAccessTsMs : Int
  optimisticUntilMs : Option Int

def IndexNode.blank : IndexNode :=
  { blockHash := 0, sequenceHash := 0, parentSequenceHash := none, children := .empty, tiers := ∅
    insertedTsMs := 0, lastAccessTsMs := 0, optimisticUntilMs := none }

namespace IndexNode

variable (tier : Tier) (now : Int) (n : IndexNode)

def accessed : IndexNode := { n with lastAccessTsMs := now }

def confirmed : IndexNode :=
  { n with tiers := insert tier n.tiers, optimisticUntilMs := none, lastAccessTsMs := now }

def stripped : IndexNode := { n with tiers := n.tiers.erase tier }

def isLeaf : Bool := n.children.items.isEmpty

end IndexNode

structure Tree where
  node : Nat → IndexNode
  next : Nat
  bySeq : Dict Nat Nat

namespace Tree
variable {block : BlockKey} {i s : Nat} {t : Tree} {f : IndexNode → IndexNode}

def root : Nat := 0

def new : Tree := ⟨fun _ => .blank, 1, .empty⟩

variable (t) (sequenceHash : Nat) (tier : Tier) (now : Int)

def modify (i : Nat) (f : IndexNode → IndexNode) : Tree :=
  { t with node := Function.update t.node i (f (t.node i)) }

section
variable (block : BlockKey)

/-- A block whose parent has not been seen goes directly under the root. -/
def parentFor : Nat :=
  match block.parentSequenceHash with
  | none => root
  | some parent => (t.bySeq.get? parent).getD root

/-- The node of a block, made when its slot under the parent is empty. -/
def upsertNode (now : Int) : Tree × Nat :=
  let parent := t.parentFor block
  match (t.node parent).children.get? block.blockHash with
  | some existing => (t.modify existing (IndexNode.accessed now), existing)
  | none =>
    let linked := t.modify parent fun n =>
      { n with children := n.children.set block.blockHash t.next }
    ({ node := Function.update linked.node t.next
        { blockHash := block.blockHash, sequenceHash := block.sequenceHash
          parentSequenceHash := block.parentSequenceHash, children := .empty, tiers := ∅
          insertedTsMs := now, lastAccessTsMs := now, optimisticUntilMs := none }
       next := t.next + 1
       bySeq := t.bySeq.set block.sequenceHash t.next }, t.next)

def applyStored (tier : Tier) (now : Int) : Tree :=
  let placed := t.upsertNode block now
  placed.1.modify placed.2 (IndexNode.confirmed tier now)

end

def parentOf (n : IndexNode) : Option Nat :=
  match n.parentSequenceHash with
  | none => some root
  | some parent => t.bySeq.get? parent

def unlinkLeaf (n : IndexNode) : Tree :=
  let detached :=
    match t.parentOf n with
    | none => t
    | some parent => t.modify parent fun p => { p with children := p.children.erase n.blockHash }
  { detached with bySeq := t.bySeq.erase n.sequenceHash }

def applyRemoved : Tree :=
  match t.bySeq.get? sequenceHash with
  | none => t
  | some i =>
    let t := t.modify i (IndexNode.stripped tier)
    if (t.node i).tiers = ∅ ∧ (t.node i).isLeaf = true then t.unlinkLeaf (t.node i) else t

def residency : Finset Tier :=
  match t.bySeq.get? sequenceHash with
  | none => ∅
  | some i => (t.node i).tiers

inductive Linked (t : Tree) : Nat → Prop
  | root : Linked t root
  | child {p b i : Nat} (parent : Linked t p) (link : (t.node p).children.get? b = some i) :
      Linked t i

/-- The index reports the given tiers, and the tree holds no node that the table does not know. -/
structure Mirrors (t : Tree) (resident : Nat → Finset Tier) : Prop where
  residency : ∀ s, t.residency s = resident s
  known : ∀ i, t.Linked i → i ≠ root → ∃ s, t.bySeq.get? s = some i

/-- The slot the block is put under holds the node the table has for it; both may be empty. -/
def Placed (block : BlockKey) : Prop :=
  (t.node (t.parentFor block)).children.get? block.blockHash = t.bySeq.get? block.sequenceHash

/-- A leaf that loses its last tier hangs under the parent found by its hash. -/
def Detachable : Prop :=
  ∀ i, t.bySeq.get? sequenceHash = some i → (t.node i).tiers.erase tier = ∅ →
    (t.node i).isLeaf = true →
    ∃ p, t.parentOf (t.node i) = some p ∧ (t.node p).children.get? (t.node i).blockHash = some i

variable {t}

instance (t : Tree) (block : BlockKey) : Decidable (t.Placed block) :=
  inferInstanceAs (Decidable (_ = _))

/-- Every link leads to a node the table knows, and no node hangs in two places. -/
structure WellLinked (t : Tree) : Prop where
  rooted : root < t.next
  known : ∀ s i, t.bySeq.get? s = some i → i ≠ root ∧ i < t.next ∧ (t.node i).sequenceHash = s
  linked : ∀ p b i, (t.node p).children.get? b = some i →
    t.bySeq.get? (t.node i).sequenceHash = some i
  single : ∀ p p' b b' i, (t.node p).children.get? b = some i →
    (t.node p').children.get? b' = some i → p = p' ∧ b = b'

open IndexNode

theorem wellLinked_new : WellLinked new where
  rooted := Nat.one_pos
  known s i found := by simp [new] at found
  linked p b i link := by simp [new, blank] at link
  single p p' b b' i link := by simp [new, blank] at link

theorem WellLinked.mirrors (links : t.WellLinked) : t.Mirrors t.residency where
  residency _ := rfl
  known i reached away := by
    cases reached with
    | root => exact absurd rfl away
    | child parent link => exact ⟨_, links.linked _ _ _ link⟩

theorem WellLinked.bySeq_inj (links : t.WellLinked) {s' : Nat}
    (found : t.bySeq.get? s = some i) (found' : t.bySeq.get? s' = some i) : s = s' :=
  (links.known s i found).2.2.symm.trans (links.known s' i found').2.2

theorem node_modify (t : Tree) (i : Nat) (f : IndexNode → IndexNode) (j : Nat) :
    (t.modify i f).node j = if j = i then f (t.node j) else t.node j := by
  by_cases same : j = i
  · subst same; simp [modify]
  · simp [modify, same]

/-- A change that leaves links and hashes alone. -/
structure Relabels (f : IndexNode → IndexNode) : Prop where
  children : ∀ n, (f n).children = n.children
  sequenceHash : ∀ n, (f n).sequenceHash = n.sequenceHash

theorem relabels_accessed : Relabels (accessed now) := ⟨fun _ => rfl, fun _ => rfl⟩

theorem relabels_confirmed : Relabels (confirmed tier now) := ⟨fun _ => rfl, fun _ => rfl⟩

theorem relabels_stripped : Relabels (stripped tier) := ⟨fun _ => rfl, fun _ => rfl⟩

section
variable (relabels : Relabels f) (t : Tree) (i j : Nat)
include relabels

theorem Relabels.children_modify : ((t.modify i f).node j).children = (t.node j).children := by
  rw [node_modify]
  split_ifs
  · exact relabels.children _
  · rfl

theorem Relabels.sequenceHash_modify :
    ((t.modify i f).node j).sequenceHash = (t.node j).sequenceHash := by
  rw [node_modify]
  split_ifs
  · exact relabels.sequenceHash _
  · rfl

end

theorem WellLinked.modify (links : t.WellLinked)
    (relabels : Relabels f) (i : Nat) : (t.modify i f).WellLinked where
  rooted := links.rooted
  known s j found := by
    rw [relabels.sequenceHash_modify]
    exact links.known s j found
  linked p b j link := by
    rw [relabels.children_modify] at link
    rw [relabels.sequenceHash_modify]
    exact links.linked p b j link
  single p p' b b' j link link' := by
    rw [relabels.children_modify] at link link'
    exact links.single p p' b b' j link link'

theorem WellLinked.residency_modify (links : t.WellLinked)
    (found : t.bySeq.get? s = some i) (f : IndexNode → IndexNode) (s' : Nat) :
    (t.modify i f).residency s' = if s' = s then (f (t.node i)).tiers else t.residency s' := by
  unfold residency
  change (match t.bySeq.get? s' with | none => _ | some j => _) = _
  split_ifs with same
  · subst same
    simp only [found, node_modify, if_true]
  · cases found' : t.bySeq.get? s' with
    | none => rfl
    | some j =>
      have differ : j ≠ i := fun eq => same (links.bySeq_inj found' (eq ▸ found))
      simp [node_modify, if_neg differ]

def leafOf (block : BlockKey) (now : Int) : IndexNode :=
  { blockHash := block.blockHash, sequenceHash := block.sequenceHash
    parentSequenceHash := block.parentSequenceHash, children := .empty, tiers := ∅
    insertedTsMs := now, lastAccessTsMs := now, optimisticUntilMs := none }

def grown (t : Tree) (block : BlockKey) (now : Int) : Tree :=
  { node := Function.update (t.modify (t.parentFor block) fun n =>
      { n with children := n.children.set block.blockHash t.next }).node t.next (leafOf block now)
    next := t.next + 1
    bySeq := t.bySeq.set block.sequenceHash t.next }

theorem upsertNode_of_empty
    (empty : (t.node (t.parentFor block)).children.get? block.blockHash = none) (now : Int) :
    t.upsertNode block now = (t.grown block now, t.next) := by
  simp only [upsertNode, empty]
  rfl

section
variable (t : Tree) (block : BlockKey) (now : Int)

theorem node_grown (j : Nat) : (t.grown block now).node j = if j = t.next then leafOf block now
      else if j = t.parentFor block then
        { t.node j with children := (t.node j).children.set block.blockHash t.next }
      else t.node j := by
  simp [grown, Function.update_apply, node_modify]

theorem children_grown {j b : Nat} (link : ((t.grown block now).node j).children.get? b = some i) :
    j = t.parentFor block ∧ b = block.blockHash ∧ i = t.next ∨
      (t.node j).children.get? b = some i := by
  rw [node_grown] at link
  split_ifs at link with own parent
  · simp [leafOf] at link
  · rcases get?_set_cases link with ⟨slot, new⟩ | ⟨-, link⟩
    · exact .inl ⟨parent, slot, new.symm⟩
    · exact .inr link
  · exact .inr link

theorem sequenceHash_grown (j : Nat) : ((t.grown block now).node j).sequenceHash =
      if j = t.next then block.sequenceHash else (t.node j).sequenceHash := by
  rw [node_grown]
  split_ifs <;> rfl

end

section
variable (links : t.WellLinked)
include links

section
variable (unknown : t.bySeq.get? block.sequenceHash = none)
include unknown

theorem WellLinked.link_old {p b : Nat} (link : (t.node p).children.get? b = some i) :
    i < t.next ∧ (t.bySeq.set block.sequenceHash t.next).get? (t.node i).sequenceHash = some i := by
  have entry := links.linked p b i link
  have other : (t.node i).sequenceHash ≠ block.sequenceHash := fun same => by
    rw [same, unknown] at entry
    cases entry
  exact ⟨(links.known _ i entry).2.1, (get?_set_of_ne other).trans entry⟩

theorem WellLinked.grown (now : Int) : (t.grown block now).WellLinked where
  rooted := Nat.lt_succ_of_lt links.rooted
  known s i found := by
    rw [sequenceHash_grown]
    rcases get?_set_cases found with ⟨rfl, rfl⟩ | ⟨-, found⟩
    · exact ⟨Nat.ne_of_gt links.rooted, Nat.lt_succ_self _, if_pos rfl⟩
    · obtain ⟨away, old, hash⟩ := links.known s i found
      exact ⟨away, Nat.lt_succ_of_lt old, by rw [if_neg (Nat.ne_of_lt old), hash]⟩
  linked p b i link := by
    change (t.bySeq.set block.sequenceHash t.next).get? _ = some i
    rw [sequenceHash_grown]
    rcases children_grown t block now link with ⟨-, -, rfl⟩ | before
    · rw [if_pos rfl, get?_set_self]
    · obtain ⟨old, entry⟩ := links.link_old unknown before
      rw [if_neg (Nat.ne_of_lt old), entry]
  single p p' b b' i link link' := by
    rcases children_grown t block now link with ⟨rfl, rfl, rfl⟩ | before
    · rcases children_grown t block now link' with ⟨rfl, rfl, -⟩ | before'
      · exact ⟨rfl, rfl⟩
      · exact absurd (links.link_old unknown before').1 (Nat.lt_irrefl _)
    · rcases children_grown t block now link' with ⟨-, -, rfl⟩ | before'
      · exact absurd (links.link_old unknown before).1 (Nat.lt_irrefl _)
      · exact links.single p p' b b' i before before'

theorem WellLinked.residency_grown (now : Int) (s : Nat) :
    (t.grown block now).residency s = t.residency s := by
  unfold residency
  change (match (t.bySeq.set block.sequenceHash t.next).get? s with | none => _ | some i => _) = _
  rw [get?_set]
  split_ifs with same
  · subst same
    simp only [unknown, node_grown, if_true, leafOf]
  · cases found : t.bySeq.get? s with
    | none => rfl
    | some i =>
      have old := (links.known s i found).2.1
      simp only [node_grown, if_neg (Nat.ne_of_lt old)]
      split_ifs <;> rfl

end

theorem WellLinked.upsertNode (placed : t.Placed block) (now : Int) :
    (t.upsertNode block now).1.WellLinked ∧
      (t.upsertNode block now).1.bySeq.get? block.sequenceHash = some (t.upsertNode block now).2 ∧
      ∀ s, (t.upsertNode block now).1.residency s = t.residency s := by
  cases slot : (t.node (t.parentFor block)).children.get? block.blockHash with
  | none =>
    have unknown := placed.symm.trans slot
    rw [upsertNode_of_empty slot]
    exact ⟨links.grown unknown now, get?_set_self _ _ _, links.residency_grown unknown now⟩
  | some i =>
    have found := placed.symm.trans slot
    simp only [Tree.upsertNode, slot]
    refine ⟨links.modify (relabels_accessed now) i, found, fun s => ?_⟩
    rw [links.residency_modify found]
    split_ifs with same
    · simp [residency, same, found, accessed]
    · rfl

theorem WellLinked.applyStored (placed : t.Placed block) (tier : Tier) (now : Int) :
    (t.applyStored block tier now).WellLinked ∧ ∀ s, (t.applyStored block tier now).residency s =
      if s = block.sequenceHash then insert tier (t.residency s) else t.residency s := by
  obtain ⟨links', found, same⟩ := links.upsertNode placed now
  refine ⟨links'.modify (relabels_confirmed tier now) _, fun s => ?_⟩
  rw [Tree.applyStored, links'.residency_modify found]
  split_ifs with own
  · rw [← same s]
    simp [residency, own, found, confirmed]
  · exact same s

theorem WellLinked.unlinkLeaf {p : Nat}
    (found : t.bySeq.get? s = some i) (parent : t.parentOf (t.node i) = some p)
    (link : (t.node p).children.get? (t.node i).blockHash = some i) :
    (t.unlinkLeaf (t.node i)).WellLinked ∧ ∀ s', (t.unlinkLeaf (t.node i)).residency s' =
      if s' = s then ∅ else t.residency s' := by
  obtain ⟨-, -, hash⟩ := links.known s i found
  set cut : IndexNode → IndexNode := fun n =>
    { n with children := n.children.erase (t.node i).blockHash } with cutDef
  have tree : t.unlinkLeaf (t.node i) = { t.modify p cut with bySeq := t.bySeq.erase s } := by
    simp only [Tree.unlinkLeaf, parent, hash]
    rfl
  have hashes : ∀ j, ((t.modify p cut).node j).sequenceHash = (t.node j).sequenceHash := fun j => by
    rw [node_modify]
    split_ifs <;> rfl
  -- The link to the node is gone and the others are still there.
  have remaining : ∀ p' b j, ((t.modify p cut).node p').children.get? b = some j →
      (t.node p').children.get? b = some j ∧ j ≠ i := by
    intro p' b j left
    rw [node_modify] at left
    split_ifs at left with here
    · simp only [cutDef, get?_erase] at left
      split_ifs at left with slot
      refine ⟨left, ?_⟩
      rintro rfl
      exact slot (links.single _ _ _ _ _ left link).2
    · refine ⟨left, ?_⟩
      rintro rfl
      exact here (links.single _ _ _ _ _ left link).1
  rw [tree]
  refine ⟨⟨links.rooted, fun s' j found' => ?_, fun p' b j left => ?_, fun p₁ p₂ b₁ b₂ j l₁ l₂ => ?_⟩,
    fun s' => ?_⟩
  · obtain ⟨away, old, own⟩ := links.known s' j (get?_of_erase found').2
    exact ⟨away, old, (hashes j).trans own⟩
  · obtain ⟨before, differ⟩ := remaining p' b j left
    have entry := links.linked p' b j before
    have other : (t.node j).sequenceHash ≠ s := fun same => by
      rw [same, found] at entry
      exact differ (Option.some.inj entry).symm
    rw [hashes, get?_erase_of_ne other, entry]
  · exact links.single p₁ p₂ b₁ b₂ j (remaining _ _ _ l₁).1 (remaining _ _ _ l₂).1
  · unfold residency
    rw [get?_erase]
    split_ifs
    · rfl
    · cases t.bySeq.get? s' with
      | none => rfl
      | some j =>
        simp only [node_modify]
        split_ifs <;> rfl

theorem WellLinked.applyRemoved {tier : Tier} (detachable : t.Detachable s tier) :
    (t.applyRemoved s tier).WellLinked ∧ ∀ s', (t.applyRemoved s tier).residency s' =
      if s' = s then (t.residency s').erase tier else t.residency s' := by
  unfold Tree.applyRemoved
  cases found : t.bySeq.get? s with
  | none =>
    refine ⟨links, fun s' => ?_⟩
    split_ifs with same
    · simp [residency, same, found]
    · rfl
  | some i =>
    set stripped := t.modify i (stripped tier) with strip
    have links' : stripped.WellLinked := links.modify (relabels_stripped tier) i
    have reported : ∀ s', stripped.residency s' =
        if s' = s then (t.residency s').erase tier else t.residency s' := fun s' => by
      rw [links.residency_modify found]
      split_ifs with same
      · simp [residency, same, found, IndexNode.stripped]
      · rfl
    have own : stripped.node i = (t.node i).stripped tier := by
      rw [node_modify, if_pos rfl]
    dsimp only
    split_ifs with gone
    · obtain ⟨noTier, leaf⟩ := gone
      rw [own] at noTier leaf
      obtain ⟨p, parent, link⟩ := detachable i found noTier leaf
      have parent' : stripped.parentOf (stripped.node i) = some p := by
        rw [own]
        exact parent
      have link' : (stripped.node p).children.get? (stripped.node i).blockHash = some i := by
        rw [own, (relabels_stripped tier).children_modify]
        exact link
      obtain ⟨unlinked, left⟩ := links'.unlinkLeaf found parent' link'
      refine ⟨unlinked, fun s' => ?_⟩
      rw [left, reported]
      split_ifs with same
      · subst same
        simp only [residency, found]
        exact noTier.symm
      · rfl
    · exact ⟨links', reported⟩

end

end Tree
end Infera.Kv
