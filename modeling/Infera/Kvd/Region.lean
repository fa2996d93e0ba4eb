import Infera.Kvd.Types

/-! The lower tiers as the host store sees them. `Region` is the duck-typed
surface the store calls on a long or spillover region; `LawfulRegion` states
what the store relies on, in terms of the block a region holds for a composite.
A region may forget a block at any operation, for its own LRU or a failed read,
but it never returns one composite's bytes for another. -/

namespace Infera.Kvd

class Region (ρ : Type) where
  getEntry : ρ → Composite → Option (Retention × Metadata)
  getBytes : ρ → Clock → Composite → ρ × Option Bytes
  /-- `get_bytes_batch`, on the backends that define it. -/
  getBytesBatch : Option (ρ → Clock → List Composite → ρ × Except PyErr (List (Option Bytes)))
  contains : ρ → Composite → Bool
  put : ρ → Clock → Composite → Bytes → Retention → Metadata →
    ρ × Except PyErr (Bool × Option String)
  clear : ρ → ρ
  clearNamespace : ρ → String → String → ρ

/-- The region's copy of a composite after an operation: as before, or dropped. -/
def KeptOrDropped (before after : Option Bytes) : Prop := after = before ∨ after = none

/-- The region's copy after a `put`: the block, unless it was refused or the call raised. -/
def PutLeaves (value : Bytes) (before after : Option Bytes) :
    Except PyErr (Bool × Option String) → Prop
  | .ok (true, _) => after = some value
  | .ok (false, _) => KeptOrDropped before after
  | .error _ => KeptOrDropped before after ∨ after = some value

theorem PutLeaves.cases {value : Bytes} {before after : Option Bytes} :
    ∀ {answer}, PutLeaves value before after answer →
      KeptOrDropped before after ∨ after = some value
  | .ok (true, _) => .inr
  | .ok (false, _) => .inl
  | .error _ => id

class LawfulRegion (ρ : Type) [Region ρ] where
  Valid : ρ → Prop
  /-- Every metadata dictionary in the region is encodable. -/
  Clean : ρ → Prop
  /-- Composites the region stores under names of their own. -/
  Apart : Composite → Prop
  /-- The block the region would return for a composite. -/
  held : ρ → Composite → Option Bytes
  getEntry_held : ∀ r c found, Valid r → Region.getEntry r c = some found → held r c ≠ none
  contains_held : ∀ r c, Valid r → Region.contains r c = true → held r c ≠ none
  getBytes_valid : ∀ r clk c, Valid r → Valid (Region.getBytes r clk c).1
  getBytes_some : ∀ r clk c v, Valid r → (Region.getBytes r clk c).2 = some v → held r c = some v
  getBytes_kept : ∀ r clk c c', Valid r →
    KeptOrDropped (held r c') (held (Region.getBytes r clk c).1 c')
  batch_reads : ∀ f, (Region.getBytesBatch : Option (ρ → _)) = some f → ∀ r clk cs, Valid r →
    Valid (f r clk cs).1 ∧ (∀ c, KeptOrDropped (held r c) (held (f r clk cs).1 c)) ∧
      ∀ vals, (f r clk cs).2 = .ok vals → vals.length = cs.length →
        ∀ c v, (c, some v) ∈ cs.zip vals → held r c = some v
  put_valid : ∀ r clk c v ret md, Valid r → Apart c → Valid (Region.put r clk c v ret md).1
  put_own : ∀ r clk c v ret md, Valid r → Apart c →
    PutLeaves v (held r c) (held (Region.put r clk c v ret md).1 c) (Region.put r clk c v ret md).2
  put_other : ∀ r clk c v ret md c', Valid r → Apart c → c' ≠ c →
    KeptOrDropped (held r c') (held (Region.put r clk c v ret md).1 c')
  clear_valid : ∀ r, Valid r → Valid (Region.clear r)
  clear_held : ∀ r c, Valid r → held (Region.clear r) c = none
  clearNamespace_valid : ∀ r model compat, Valid r → Valid (Region.clearNamespace r model compat)
  clearNamespace_kept : ∀ r model compat c, Valid r →
    KeptOrDropped (held r c) (held (Region.clearNamespace r model compat) c)
  clearNamespace_held : ∀ r c, Valid r → held (Region.clearNamespace r c.model c.compatKey) c = none
  clean_getEntry : ∀ r c ret md, Clean r → Region.getEntry r c = some (ret, md) →
    Metadata.encodable md = true
  clean_getBytes : ∀ r clk c, Clean r → Clean (Region.getBytes r clk c).1
  clean_batch : ∀ f, (Region.getBytesBatch : Option (ρ → _)) = some f → ∀ r clk cs, Clean r →
    Clean (f r clk cs).1
  clean_put : ∀ r clk c v ret md, Clean r → Metadata.encodable md = true →
    Clean (Region.put r clk c v ret md).1
  clean_clear : ∀ r, Clean r → Clean (Region.clear r)
  clean_clearNamespace : ∀ r model compat, Clean r → Clean (Region.clearNamespace r model compat)
  /-- Nothing but metadata makes a write raise. -/
  put_ok : ∀ (r : ρ) clk c v ret md, Metadata.encodable md = true →
    ∃ answer, (Region.put r clk c v ret md).2 = .ok answer

theorem KeptOrDropped.none {a : Option Bytes} (kept : KeptOrDropped Option.none a) :
    a = Option.none := by
  rcases kept with rfl | rfl <;> rfl

end Infera.Kvd
