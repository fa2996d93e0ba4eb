import Mathlib.Data.List.Basic

/-! Members that register, register anew in place, and leave. A `Roster` has the
latest record of each member and what was heard from it since its key last
changed. A store of per-member states `Mirrors` the roster when each state is
the one of a fresh record, with everything heard since applied to it; a member
whose record does not qualify has no state. -/

namespace Infera
open Function Option

/-- The latest record of each member, with what was heard under its key, oldest first. -/
abbrev Roster (ν R I : Type*) := ν → Option (R × List I)

namespace Roster
variable {ν R K I S : Type*} [DecidableEq ν] [DecidableEq K] (name : R → ν) (key : R → K)
  (r : Roster ν R I)

def empty : Roster ν R I := fun _ => none

def depart (id : ν) : Roster ν R I := update r id none

def hear (id : ν) (input : I) : Roster ν R I :=
  update r id ((r id).map fun (w, heard) => (w, heard ++ [input]))

/-- What stays of the messages heard when the member registers with the key `k`. -/
def kept (before : Option (R × List I)) (k : K) : List I :=
  match before with
  | some (w, heard) => if key w = k then heard else []
  | none => []

def register (w : R) : Roster ν R I :=
  update r (name w) (some (w, kept key (r (name w)) (key w)))

section
variable (fresh : R → Option S) (apply : S → I → S)

/-- The state of a member: none if its record does not qualify. -/
def stateOf (entry : Option (R × List I)) : Option S :=
  entry.bind fun (w, heard) => (fresh w).map fun s => heard.foldl apply s

def Mirrors (store : ν → Option S) (r : Roster ν R I) : Prop :=
  ∀ id, store id = stateOf fresh apply (r id)

end

theorem foldl_depart (ids : List ν) (r : Roster ν R I) :
    ids.foldl depart r = fun id => if id ∈ ids then none else r id := by
  induction ids generalizing r with
  | nil => simp
  | cons id' ids ih =>
    rw [List.foldl_cons, ih]
    funext id
    rw [depart]
    by_cases mem : id ∈ ids <;> by_cases here : id = id' <;> simp [here]

variable {fresh : R → Option S} {apply : S → I → S} {store : ν → Option S} {r : Roster ν R I}
  (name : R → ν) {key : R → K}

omit [DecidableEq ν] in
theorem Mirrors.isSome_iff (mirrors : Mirrors fresh apply store r) (id : ν) :
    (store id).isSome ↔ ∃ w heard, r id = some (w, heard) ∧ (fresh w).isSome := by
  rw [mirrors id]
  match r id with
  | none | some (w, heard) => simp [stateOf]

omit [DecidableEq ν] in
theorem Mirrors.of_known (mirrors : Mirrors fresh apply store r) {id : ν} {w : R}
    {heard : List I} (known : r id = some (w, heard)) :
    store id = (fresh w).map fun s => heard.foldl apply s := by
  rw [mirrors id, known, stateOf, bind_some]

omit [DecidableEq ν] in
theorem Mirrors.empty : Mirrors fresh apply (fun _ : ν => none) Roster.empty := fun _ => rfl

section
variable (mirrors : Mirrors fresh apply store r)
include mirrors

theorem Mirrors.depart (id : ν) : Mirrors fresh apply (update store id none) (r.depart id) := by
  intro id'
  rw [Roster.depart, update_apply, update_apply]
  split_ifs
  · rfl
  · exact mirrors id'

theorem Mirrors.hear (id : ν) (input : I) :
    Mirrors fresh apply (update store id ((store id).map (apply · input))) (r.hear id input) := by
  intro id'
  rw [Roster.hear, update_apply, update_apply]
  split_ifs
  · rw [mirrors id]
    match r id with
    | none => rfl
    | some (w, heard) =>
      simp only [stateOf, map_some, bind_some, List.foldl_append, map_map]
      rfl
  · exact mirrors id'

theorem Mirrors.register_new {w : R}
    (changed : ∀ w' heard, r (name w) = some (w', heard) → key w' ≠ key w) :
    Mirrors fresh apply (update store (name w) (fresh w)) (r.register name key w) := by
  have nothing : kept key (r (name w)) (key w) = [] := by
    unfold kept
    split
    · rename_i w' heard known
      exact if_neg (changed w' heard known)
    · rfl
  intro id
  rw [Roster.register, update_apply, update_apply, nothing]
  split_ifs
  · simp [stateOf]
  · exact mirrors id

variable (respects : ∀ w w', key w' = key w → fresh w' = fresh w)
include respects

theorem Mirrors.register_same {w w' : R} {heard : List I}
    (known : r (name w) = some (w', heard)) (same : key w' = key w) :
    Mirrors fresh apply store (r.register name key w) := by
  intro id
  rw [Roster.register, update_apply]
  split_ifs with here
  · rw [mirrors id, here, known, kept, if_pos same]
    simp [stateOf, respects w w' same]
  · exact mirrors id

theorem Mirrors.register_absent {w : R} (absent : store (name w) = none) :
    Mirrors fresh apply (update store (name w) (fresh w)) (r.register name key w) := by
  by_cases again : ∃ w' heard, r (name w) = some (w', heard) ∧ key w' = key w
  · obtain ⟨w', heard, known, same⟩ := again
    have declined : fresh w = none := by
      rw [mirrors, known] at absent
      simpa [stateOf, respects w w' same] using absent
    rw [declined, ← absent, update_eq_self]
    exact mirrors.register_same name respects known same
  · exact mirrors.register_new name fun w' heard known same => again ⟨w', heard, known, same⟩

end

end Roster
end Infera
