import Infera.Json
import Mathlib.Data.String.Basic

/-! Values with their members in the order of their names, as
`json.dumps(..., sort_keys=True)` writes them. Sorting changes neither what can be
encoded nor which names occur, and a sorted value stays as it is, so a checksum
over the sorted text is the same before a value is written and after it is read. -/

namespace Infera
namespace Json
open List
variable {fields : List (String × Json)} {P : Json → Prop} (xs : List Json) (x : Json)

/-- Two dictionaries that differ at most in the order of their members. -/
def SameMembers (x y : Json) : Prop := x.sortKeys = y.sortKeys

/-- The order `sort_keys` puts members in. -/
def ByName (a b : String × Json) : Prop := ¬b.1 < a.1

instance : DecidableRel ByName := fun a b => inferInstanceAs (Decidable (¬b.1 < a.1))

instance : Std.Total ByName :=
  ⟨fun a b => (le_total a.1 b.1).imp not_lt.mpr not_lt.mpr⟩

instance : IsTrans (String × Json) ByName :=
  ⟨fun _ _ _ first second => not_lt.mpr (le_trans (not_lt.mp first) (not_lt.mp second))⟩

variable (fields)

theorem sortKeys_obj :
    sortKeys (.obj fields) = .obj ((sortKeysFields fields).insertionSort ByName) := rfl

theorem sortKeysAll_eq_map : sortKeysAll xs = xs.map sortKeys := by
  induction xs with
  | nil => rfl
  | cons x xs ih => rw [sortKeysAll, ih, map_cons]

theorem sortKeysFields_eq_map :
    sortKeysFields fields = fields.map fun kv => (kv.1, kv.2.sortKeys) := by
  induction fields with
  | nil => rfl
  | cons kv fields ih => rw [sortKeysFields, ih, map_cons]

theorem encodableAll_iff : encodableAll xs = true ↔ ∀ x ∈ xs, x.encodable = true := by
  induction xs with
  | nil => simp [encodableAll]
  | cons x xs ih => simp [encodableAll, ih]

theorem encodableFields_iff :
    encodableFields fields = true ↔ ∀ kv ∈ fields, kv.2.encodable = true := by
  induction fields with
  | nil => simp [encodableFields]
  | cons kv fields ih => simp [encodableFields, ih]

theorem distinctAll_iff : distinctAll xs = true ↔ ∀ x ∈ xs, x.distinct = true := by
  induction xs with
  | nil => simp [distinctAll]
  | cons x xs ih => simp [distinctAll, ih]

theorem distinctFields_iff :
    distinctFields fields = true ↔ ∀ kv ∈ fields, kv.2.distinct = true := by
  induction fields with
  | nil => simp [distinctFields]
  | cons kv fields ih => simp [distinctFields, ih]

variable {fields}

theorem sortKeys_obj_fixed
    (values : ∀ kv ∈ fields, kv.2.sortKeys = kv.2) (sorted : fields.Pairwise ByName) :
    sortKeys (.obj fields) = .obj fields := by
  have unchanged : sortKeysFields fields = fields := by
    rw [sortKeysFields_eq_map]
    conv_rhs => rw [← map_id fields]
    exact map_congr_left fun kv mem => by rw [values kv mem, id]
  rw [sortKeys_obj, unchanged, sorted.insertionSort_eq]

theorem mem_sorted {kv : String × Json} (mem : kv ∈ (sortKeysFields fields).insertionSort ByName) :
    ∃ kv' ∈ fields, kv = (kv'.1, kv'.2.sortKeys) := by
  rw [mem_insertionSort, sortKeysFields_eq_map, mem_map] at mem
  obtain ⟨kv', inFields, eq⟩ := mem
  exact ⟨kv', inFields, eq.symm⟩

def Scalar : Prop := (∀ xs, x ≠ .arr xs) ∧ ∀ fields, x ≠ .obj fields

section
variable (scalar : ∀ x, x.Scalar → P x) (arr : ∀ xs, (∀ x ∈ xs, P x) → P (.arr xs))
  (obj : ∀ fields, (∀ kv ∈ fields, P kv.2) → P (.obj fields))
include scalar arr obj
set_option linter.unusedSectionVars false

mutual
@[elab_as_elim]
theorem nestingInduction : (x : Json) → P x
  | .null | .bool _ | .int _ | .float _ | .str _ | .bytes _ => scalar _ ⟨by simp, by simp⟩
  | .arr xs => arr xs (nestingInductionAll xs)
  | .obj fields => obj fields (nestingInductionFields fields)

theorem nestingInductionAll : (xs : List Json) → ∀ x ∈ xs, P x
  | [] => by simp
  | x :: xs => forall_mem_cons.mpr ⟨nestingInduction x, nestingInductionAll xs⟩

theorem nestingInductionFields : (fields : List (String × Json)) → ∀ kv ∈ fields, P kv.2
  | [] => by simp
  | (_, x) :: fields => forall_mem_cons.mpr ⟨nestingInduction x, nestingInductionFields fields⟩
end

end

theorem Scalar.sortKeys {x : Json} (scalar : x.Scalar) : x.sortKeys = x := by
  cases x with
  | arr xs => exact absurd rfl (scalar.1 xs)
  | obj fields => exact absurd rfl (scalar.2 fields)
  | _ => rfl

theorem sortKeys_sortKeys : x.sortKeys.sortKeys = x.sortKeys := by
  induction x using nestingInduction with
  | scalar x flat => rw [flat.sortKeys, flat.sortKeys]
  | arr xs ih =>
    rw [sortKeys, sortKeys, sortKeysAll_eq_map, sortKeysAll_eq_map, map_map]
    exact congrArg Json.arr (map_congr_left ih)
  | obj fields ih =>
    refine sortKeys_obj_fixed (fun kv mem => ?_) (pairwise_insertionSort ByName _)
    obtain ⟨kv', inFields, rfl⟩ := mem_sorted mem
    exact ih kv' inFields

theorem encodable_sortKeys : x.encodable = true → x.sortKeys.encodable = true := by
  induction x using nestingInduction with
  | scalar x flat => rw [flat.sortKeys]; exact id
  | arr xs ih =>
    rw [sortKeys, Json.encodable, Json.encodable, sortKeysAll_eq_map, encodableAll_iff,
      encodableAll_iff, forall_mem_map]
    exact fun encodable x mem => ih x mem (encodable x mem)
  | obj fields ih =>
    rw [sortKeys_obj, Json.encodable, Json.encodable, encodableFields_iff, encodableFields_iff]
    intro encodable kv mem
    obtain ⟨kv', inFields, rfl⟩ := mem_sorted mem
    exact ih kv' inFields (encodable kv' inFields)

theorem nodup_sorted (nodup : (fields.map Prod.fst).Nodup) :
    (((sortKeysFields fields).insertionSort ByName).map Prod.fst).Nodup := by
  have names : (sortKeysFields fields).map Prod.fst = fields.map Prod.fst := by
    rw [sortKeysFields_eq_map, map_map]
    rfl
  rw [((perm_insertionSort ByName (sortKeysFields fields)).map Prod.fst).nodup_iff, names]
  exact nodup

theorem distinct_sortKeys : x.distinct = true → x.sortKeys.distinct = true := by
  induction x using nestingInduction with
  | scalar x flat => rw [flat.sortKeys]; exact id
  | arr xs ih =>
    rw [sortKeys, Json.distinct, Json.distinct, sortKeysAll_eq_map, distinctAll_iff,
      distinctAll_iff, forall_mem_map]
    exact fun distinct x mem => ih x mem (distinct x mem)
  | obj fields ih =>
    simp only [sortKeys_obj, Json.distinct, Bool.and_eq_true, decide_eq_true_eq, distinctFields_iff]
    rintro ⟨nodup, distinct⟩
    refine ⟨nodup_sorted nodup, fun kv mem => ?_⟩
    obtain ⟨kv', inFields, rfl⟩ := mem_sorted mem
    exact ih kv' inFields (distinct kv' inFields)

end Json
end Infera
