import Infera.Kvd.StoreWrites

/-! What a lookup does to the store. `get`, `get_many` and `exists` are built
from a few steps: drop an expired row, touch a row, read a tier, promote what it
returned. `Touches P` says that a property survives the steps in RAM, `Reads P`
that it survives all of them; the rules below carry it through the loops. In
`Reads` the property is indexed by the number of promotions it still allows, so
that it may pay for each one. -/

namespace Infera.Kvd
namespace HostStore
open List
variable {σ ρ : Type} {clk : Clock} {c : Composite} {e : Entry} {n : Nat}
variable {st : HostStore σ ρ}

/-- `P` survives the steps of a lookup in RAM. -/
structure Touches (P : HostStore σ ρ → Prop) : Prop where
  stats : ∀ st stats, P st → P { st with stats := stats }
  remove : ∀ st c e, P st → st.entries.get? c = some e → P (st.removeEntry c e)
  touch : ∀ st c e t, P st → st.entries.get? c = some e →
    P { st with entries := st.entries.set c { e with lastAccess := t } }

variable [Region σ] [Region ρ] {Good : Composite → Fetched → Prop} {P : Nat → HostStore σ ρ → Prop}
  {On : Composite → Prop} {cs : List Composite} {fetched : Option Fetched}

/-- `P` survives the steps of a lookup of the composites in `On`; `Good` is what is known of
a block a tier has returned. -/
structure Reads (On : Composite → Prop) (Good : Composite → Fetched → Prop)
    (P : Nat → HostStore σ ρ → Prop) : Prop where
  ram : ∀ n, Touches (P n)
  weaken : ∀ n st, P (n + 1) st → P n st
  oid : ∀ n st, P n st → P n { st with nextOid := st.nextOid + 1 }
  fetchLong : ∀ n st clk c, P n st → On c → P n (st.fetchLong clk c).1 ∧
    ∀ f, (st.fetchLong clk c).2 = some f → Good c f
  fetchSpill : ∀ n st clk c, P n st → On c → P n (st.fetchSpill clk c).1 ∧
    ∀ f, (st.fetchSpill clk c).2 = some f → Good c f
  batch : ∀ n st clk misses, P n st → (∀ p ∈ misses, On p.2) → (misses.map Prod.fst).Nodup →
    P n (st.readBatch clk misses).1 ∧
    ∀ vals, (st.readBatch clk misses).2 = some vals → ∀ i c value, (i, c) ∈ misses →
      ((misses.map Prod.fst).zip vals).lookup i = some (some value) →
      Good c ⟨value, .long, .empty⟩
  promote : ∀ n st clk c f ttl, P (n + 1) st → On c → Good c f →
    P n (st.set clk c f.value f.retention f.metadata ttl).1

theorem length_missing (cs : List Composite) (results : List (Option Entry)) :
    (missing cs results).length ≤ cs.length := by
  have filtered := length_filterMap_le (fun p : Nat × Composite × Option Entry =>
    if p.2.2.isSome then none else some (p.1, p.2.1)) ((List.range cs.length).zip (cs.zip results))
  simp only [length_zip] at filtered
  unfold missing
  omega

theorem mem_missing {results : List (Option Entry)} {p : Nat × Composite}
    (mem : p ∈ missing cs results) : p.2 ∈ cs := by
  obtain ⟨q, inZip, eq⟩ := mem_filterMap.mp mem
  split_ifs at eq
  cases eq
  exact (of_mem_zip (of_mem_zip inZip).2).1

theorem nodup_missing (cs : List Composite) (results : List (Option Entry)) :
    ((missing cs results).map Prod.fst).Nodup := by
  have ascending : ((List.range cs.length).zip (cs.zip results)).Pairwise (·.1 < ·.1) := by
    rw [pairwise_iff_getElem]
    intro i j _ _ lt
    simpa using lt
  unfold missing
  rw [List.Nodup, pairwise_map, pairwise_filterMap]
  refine ascending.imp ?_
  intro p q lt p' isP q' isQ
  split_ifs at isP isQ
  cases isP
  cases isQ
  exact Nat.ne_of_lt lt

namespace Touches
variable {P : HostStore σ ρ → Prop}

omit [Region σ] [Region ρ] in
theorem existsRam (touches : Touches P) (now : ℚ) (cs : List Composite) :
    ∀ st : HostStore σ ρ, P st → P (st.existsRam now cs).1 := by
  induction cs with
  | nil => exact fun st holds => holds
  | cons c cs ih =>
    intro st holds
    unfold HostStore.existsRam
    split
    · exact ih st holds
    · rename_i e row
      split_ifs
      · exact ih _ (touches.remove st c e holds row)
      · exact ih st holds

theorem existsKeys (touches : Touches P) {st : HostStore σ ρ} (holds : P st) (clk : Clock)
    (cs : List Composite) : P (st.existsKeys clk cs).1 := by
  have ram := touches.existsRam (clk 0) cs st holds
  unfold HostStore.existsKeys
  simp only
  split_ifs <;> exact ram

omit [Region σ] [Region ρ] in
theorem getManyRam (touches : Touches P) (now : ℚ) (cs : List Composite) :
    ∀ st : HostStore σ ρ, P st → P (st.getManyRam now cs).1 := by
  induction cs with
  | nil => exact fun st holds => holds
  | cons c cs ih =>
    intro st holds
    have counted : P st.countGet := touches.stats _ _ holds
    unfold HostStore.getManyRam
    simp only
    split
    · exact ih _ counted
    · rename_i e row
      split_ifs
      · exact ih _ (touches.remove _ c e counted row)
      · exact ih _ (touches.stats _ _ (touches.touch _ c e now counted row))

end Touches

namespace Reads
variable {On : Composite → Prop} {Good : Composite → Fetched → Prop}
  {P : Nat → HostStore σ ρ → Prop} {c : Composite} {n : Nat}
variable {st : HostStore σ ρ}

section
variable (reads : Reads On Good P)
include reads

theorem mono {m : Nat} (le : m ≤ n) (holds : P n st) : P m st := by
  induction le with
  | refl => exact holds
  | step _ ih => exact ih (reads.weaken _ st holds)

theorem promoteFromSsd
    (holds : P (n + 1) st) (clk : Clock) {f : Fetched} (on : On c) (good : Good c f) :
    P n (st.promoteFromSsd clk c f).1 := by
  have stored := reads.promote n st clk c f none holds on good
  unfold HostStore.promoteFromSsd
  simp only
  split
  · exact stored
  · exact stored
  · exact reads.oid n _ stored

theorem promoteFetched (holds : P (n + 1) st) (clk : Clock) (on : On c)
    (good : ∀ f, fetched = some f → Good c f) : P n (st.promoteFetched clk c fetched).1 := by
  cases fetched with
  | none => exact reads.weaken n st holds
  | some f =>
    have promoted := reads.promoteFromSsd holds clk on (good f rfl)
    unfold HostStore.promoteFetched
    simp only
    split
    · exact (reads.ram n).stats _ _ promoted
    · exact promoted

section
variable (holds : P (n + 2) st) (clk : Clock) (on : On c)
include holds on

theorem getBelow : P n (st.getBelow clk c).1 := by
  have long := reads.fetchLong (n + 2) st clk c holds on
  have promoted := reads.promoteFetched long.1 (clk.after 1) on long.2
  unfold HostStore.getBelow
  simp only
  split
  · exact reads.weaken n _ promoted
  · exact reads.weaken n _ promoted
  · have spill := reads.fetchSpill (n + 1) _ (clk.after 4) c promoted on
    have promoted' := reads.promoteFetched spill.1 (clk.after 5) on spill.2
    split
    · exact (reads.ram n).stats _ _ promoted'
    · exact promoted'

theorem get : P n (st.get clk c).1 := by
  have counted : P (n + 2) st.countGet := (reads.ram _).stats _ _ holds
  have enough : ∀ st', P (n + 2) st' → P n st' :=
    fun st' holds => reads.weaken n st' (reads.weaken (n + 1) st' holds)
  unfold HostStore.get
  simp only
  split
  · rename_i e row
    split_ifs
    · exact enough _ ((reads.ram _).stats _ _ ((reads.ram _).remove _ c e counted row))
    · exact enough _ ((reads.ram _).stats _ _ ((reads.ram _).touch _ c e (clk 1) counted row))
  · exact reads.getBelow counted clk on

end

theorem fillMisses
    (fetch : HostStore σ ρ → Clock → Nat → Composite → HostStore σ ρ × Option Fetched)
    (misses : List (Nat × Composite)) :
    (∀ n st clk i c, P n st → (i, c) ∈ misses → P n (fetch st clk i c).1 ∧
        ∀ f, (fetch st clk i c).2 = some f → Good c f) →
      (∀ p ∈ misses, On p.2) → ∀ n st clk results, P (n + misses.length) st →
        P n (HostStore.fillMisses fetch st clk misses results).1 := by
  induction misses with
  | nil => exact fun _ _ n st clk results holds => holds
  | cons p rest ih =>
    intro fetches on n st clk results holds
    obtain ⟨i, c⟩ := p
    have ih := ih (fun n st clk i c holds mem =>
      fetches n st clk i c holds (.tail _ mem))
      (fun p mem => on p (.tail _ mem))
    have fetched := fetches _ st clk i c holds mem_cons_self
    unfold HostStore.fillMisses
    simp only
    split
    · exact ih n _ _ _ (reads.weaken _ _ fetched.1)
    · rename_i f found
      have promoted : P (n + rest.length)
          ((fetch st clk i c).1.promoteFetched (clk.after 1) c (some f)).1 :=
        reads.promoteFetched fetched.1 (clk.after 1) (on (i, c) mem_cons_self)
          fun f' eq => fetched.2 f' (found.trans eq)
      split
      · exact reads.mono (Nat.le_add_right n rest.length) promoted
      · exact ih n _ _ _ promoted

theorem getManyLong
    (results : List (Option Entry)) (holds : P (n + (missing cs results).length) st) (clk : Clock)
    (on : ∀ p ∈ missing cs results, On p.2) : P n (st.getManyLong clk cs results).1 := by
  have batch := reads.batch _ st clk (missing cs results) holds on (nodup_missing cs results)
  unfold HostStore.getManyLong
  simp only
  split_ifs with complete
  · exact reads.mono (Nat.le_add_right _ _) holds
  · split
    · rename_i vals read
      refine reads.fillMisses _ _ (fun m st clk i c holds mem => ⟨holds, fun f found => ?_⟩) on n _ _ _
        batch.1
      obtain ⟨value, at_i, rfl⟩ := Option.map_eq_some_iff.mp found
      exact batch.2 vals read i c value mem (Option.join_eq_some_iff.mp at_i)
    · exact reads.fillMisses _ _ (fun m st clk i c holds mem =>
        reads.fetchLong m st clk c holds (on _ mem)) on n _ _ _ batch.1

end

end Reads

theorem Reads.getMany (reads : Reads On Good P) (holds : P (n + cs.length + cs.length) st) (clk : Clock)
    (on : ∀ c ∈ cs, On c) : P n (st.getMany clk cs).1 := by
  have onMissing : ∀ results, ∀ p ∈ missing cs results, On p.2 :=
    fun results p mem => on p.2 (mem_missing mem)
  have ram := (reads.ram _).getManyRam (clk 0) cs st holds
  have long := reads.getManyLong (n := n + cs.length) (st.getManyRam (clk 0) cs).2
    (reads.mono (Nat.add_le_add_left (length_missing cs _) _) ram) (clk.after 1) (onMissing _)
  unfold HostStore.getMany
  simp only
  split
  · exact reads.mono (Nat.le_add_right _ _) long
  · rename_i results _
    have spill := reads.fillMisses (fun st clk _ c => st.fetchSpill clk c) (missing cs results)
      (fun m st clk i c holds mem => reads.fetchSpill m st clk c holds (onMissing results _ mem))
      (onMissing results) n _ (clk.after (2 + 4 * cs.length)) results
      (reads.mono (Nat.add_le_add_left (length_missing cs results) _) long)
    split
    · exact spill
    · exact (reads.ram _).stats _ _ spill

theorem Reads.warmFromSsd (reads : Reads On Good P)
    (bare : ∀ c f retention, Good c f → Good c ⟨f.value, retention, .empty⟩)
    (holds : P (n + 1) st) (clk : Clock) (on : On c) (ttl : ℚ) :
    P n (st.warmFromSsd clk c ttl).1 := by
  have long := reads.fetchLong (n + 1) st clk c holds on
  have warm : ∀ st' f, P (n + 1) st' → Good c f → P n (st'.set (clk.after 2) c f.value
      (if f.retention = .none then .short else f.retention) .empty (some (max ttl (1 / 1000)))).1 :=
    fun st' f kept good =>
      reads.promote n st' (clk.after 2) c ⟨f.value, _, .empty⟩ _ kept on (bare c f _ good)
  unfold HostStore.warmFromSsd
  split_ifs
  · exact reads.weaken n st holds
  · cases here : (st.fetchLong clk c).2 with
    | some f =>
      simp only [here]
      exact warm _ f long.1 (long.2 f here)
    | none =>
      have spill := reads.fetchSpill (n + 1) _ (clk.after 1) c long.1 on
      simp only [here]
      cases there : ((st.fetchLong clk c).1.fetchSpill (clk.after 1) c).2 with
      | none => exact reads.weaken n _ spill.1
      | some f => exact warm _ f spill.1 (spill.2 f there)

theorem promoteFromSsd_answer {f : Fetched}
    (answer : (st.promoteFromSsd clk c f).2 = .ok (some e)) :
    (st.promoteFromSsd clk c f).1.entries.get? c = some e ∨ e.slotId < 0 ∧ e.value = f.value := by
  unfold HostStore.promoteFromSsd at answer ⊢
  simp only at answer ⊢
  split at answer
  · simp at answer
  · exact .inl (Except.ok.inj answer)
  · cases answer
    exact .inr ⟨by simp [newEntry], by simp [newEntry]⟩

theorem promoteFetched_answer (answer : (st.promoteFetched clk c fetched).2 = .ok (some e)) :
    (st.promoteFetched clk c fetched).1.entries.get? c = some e ∨
      ∃ f, fetched = some f ∧ e.slotId < 0 ∧ e.value = f.value := by
  unfold HostStore.promoteFetched at answer ⊢
  split at answer
  · simp at answer
  · rename_i f
    simp only at answer ⊢
    split at answer
    · rename_i e' promoted
      cases answer
      rcases promoteFromSsd_answer promoted with row | oneOff
      · exact .inl row
      · exact .inr ⟨f, rfl, oneOff⟩
    · rename_i other
      exact absurd answer (other e)

theorem Reads.get_answer (reads : Reads On Good P)
    (holds : P (n + 2) st) (on : On c) (answer : (st.get clk c).2 = .ok (some e)) :
    (st.get clk c).1.entries.get? c = some e ∨
      ∃ f, Good c f ∧ e.slotId < 0 ∧ e.value = f.value := by
  have counted : P (n + 2) st.countGet := (reads.ram _).stats _ _ holds
  unfold HostStore.get at answer ⊢
  simp only at answer ⊢
  split at answer
  · rename_i e' row
    split_ifs at answer ⊢ with expired
    · simp at answer
    · obtain rfl := Option.some.inj (Except.ok.inj answer)
      exact .inl (Dict.get?_set_self _ c _)
  · have long := reads.fetchLong (n + 2) _ clk c counted on
    have promoted := reads.promoteFetched long.1 (clk.after 1) on long.2
    unfold HostStore.getBelow at answer ⊢
    simp only at answer ⊢
    split at answer
    · simp at answer
    · rename_i e' found
      cases answer
      rcases promoteFetched_answer found with row | ⟨f, fetched, oneOff⟩
      · exact .inl row
      · exact .inr ⟨f, long.2 f fetched, oneOff⟩
    · have spill := reads.fetchSpill (n + 1) _ (clk.after 4) c promoted on
      split at answer
      · simp at answer
      · rcases promoteFetched_answer answer with row | ⟨f, fetched, oneOff⟩
        · exact .inl row
        · exact .inr ⟨f, spill.2 f fetched, oneOff⟩

end HostStore
end Infera.Kvd
