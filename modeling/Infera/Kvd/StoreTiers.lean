import Infera.Kvd.Daemon
import Infera.Kvd.StoreEviction

/-! The store's traffic with its lower tiers. `BothTiers P Q` says that the
spillover region, if wired, satisfies `P` and the long region `Q`; the lemmas
carry such a property through the reads and writes the store makes. -/

namespace Infera.Kvd
open HostStore Region
namespace HostStore
open LawfulRegion List
variable {σ ρ : Type} {st : HostStore σ ρ} {A : Composite → Bytes → Prop} {P : σ → Prop}
  {Q : ρ → Prop} {c : Composite} (spills : List Spill)

structure BothTiers (P : σ → Prop) (Q : ρ → Prop) (st : HostStore σ ρ) : Prop where
  spillover : ∀ r, st.spillover = some r → P r
  longRegion : ∀ r, st.longRegion = some r → Q r

section
variable (tiers : BothTiers P Q st)
include tiers

theorem BothTiers.congr {st' : HostStore σ ρ} (spillover : st'.spillover = st.spillover)
    (longRegion : st'.longRegion = st.longRegion) : BothTiers P Q st' :=
  ⟨by rw [spillover]; exact tiers.spillover, by rw [longRegion]; exact tiers.longRegion⟩

theorem BothTiers.setSpillover {region : σ} (holds : P region) :
    BothTiers P Q (st.setSpillover region) :=
  ⟨fun r eq => by cases eq; exact holds, tiers.longRegion⟩

theorem BothTiers.setLongRegion {region : ρ} (holds : Q region) :
    BothTiers P Q (st.setLongRegion region) :=
  ⟨tiers.spillover, fun r eq => by cases eq; exact holds⟩

theorem BothTiers.writeThrough [Region ρ] (clk : Clock) (c : Composite) (retention : Retention)
    (keep : ∀ r e, Q r → retention = .long → st.entries.get? c = some e →
      Q (put r clk c (st.resolveValue e) .long e.metadata).1) :
    BothTiers P Q (st.writeThrough clk c retention).1 := by
  unfold HostStore.writeThrough
  split
  · rename_i region e wired row
    exact tiers.setLongRegion (keep region e (tiers.longRegion region wired) rfl row)
  · exact tiers

end

theorem BothTiers.flushSpills [Region σ] :
    (∀ r clk, ∀ s ∈ spills, P r → P (put r clk s.composite s.value .short s.metadata).1) →
      ∀ (st : HostStore σ ρ) (clk : Clock), BothTiers P Q st →
        BothTiers P Q (st.flushSpills clk spills).1 := by
  induction spills with
  | nil => exact fun _ st clk tiers => tiers
  | cons spill spills ih =>
    intro keep st clk tiers
    unfold HostStore.flushSpills
    split
    · exact tiers
    · rename_i region wired
      have written := tiers.setSpillover
        (keep region clk spill mem_cons_self (tiers.spillover region wired))
      simp only
      split
      · exact written
      · exact ih (fun r clk s mem => keep r clk s (.tail _ mem)) _ _ written

theorem longRegion_flushSpills [Region σ] : ∀ (st : HostStore σ ρ) (clk : Clock),
      (st.flushSpills clk spills).1.longRegion = st.longRegion := by
  induction spills with
  | nil => exact fun _ _ => rfl
  | cons spill spills ih =>
    intro st clk
    unfold HostStore.flushSpills
    split
    · rfl
    · simp only
      split
      · rfl
      · exact ih _ _

theorem flushSpills_ok [Region σ] [LawfulRegion σ] :
    (∀ s ∈ spills, s.metadata.encodable = true) → ∀ (st : HostStore σ ρ) (clk : Clock),
      (st.flushSpills clk spills).2 = .ok () := by
  induction spills with
  | nil => exact fun _ _ _ => rfl
  | cons spill spills ih =>
    intro encodable st clk
    unfold flushSpills
    split
    · rfl
    · rename_i region wired
      obtain ⟨answer, ok⟩ := put_ok region clk spill.composite spill.value .short
        spill.metadata (encodable spill mem_cons_self)
      simp only [ok]
      exact ih (fun s mem => encodable s (.tail _ mem)) _ _

theorem writeThrough_ok [Region ρ] [LawfulRegion ρ] (clk : Clock)
    (c : Composite) (retention : Retention)
    (encodable : ∀ e, st.entries.get? c = some e → e.metadata.encodable = true) :
    (st.writeThrough clk c retention).2 = .ok () := by
  unfold writeThrough
  split
  · rename_i region e wired row
    obtain ⟨answer, ok⟩ := put_ok region clk c (st.resolveValue e) .long e.metadata
      (encodable e row)
    simp [ok, Except.map]
  · rfl

section
variable {τ : Type} [Region τ] [LawfulRegion τ]
open LawfulRegion

section
variable {r : τ} (valid : Valid r)
include valid

theorem fetchFrom_held {clk : Clock} {f : Fetched}
    (found : (fetchFrom r clk c).2 = some f) : held r c = some f.value := by
  unfold fetchFrom at found
  split at found
  · simp at found
  · obtain ⟨value, read, rfl⟩ := Option.map_eq_some_iff.mp found
    exact getBytes_some r clk c value valid read

theorem fetchFrom_none (absent : held r c = none) (clk : Clock) : (fetchFrom r clk c).2 = none := by
  cases found : (fetchFrom r clk c).2 with
  | none => rfl
  | some f => simp [fetchFrom_held valid found] at absent

theorem fetchFrom_valid (clk : Clock) (c : Composite) : Valid (fetchFrom r clk c).1 := by
  unfold fetchFrom
  split
  · exact valid
  · exact getBytes_valid r clk c valid

theorem fetchFrom_kept (clk : Clock) (c c' : Composite) :
    KeptOrDropped (held r c') (held (fetchFrom r clk c).1 c') := by
  unfold fetchFrom
  split
  · exact .inl rfl
  · exact getBytes_kept r clk c c' valid

end

theorem fetchFrom_clean {r : τ} (clean : Clean r) (clk : Clock) (c : Composite) :
    Clean (fetchFrom r clk c).1 ∧
      ∀ f, (fetchFrom r clk c).2 = some f → f.metadata.encodable = true := by
  unfold fetchFrom
  split
  · exact ⟨clean, by simp⟩
  · rename_i retention metadata entry
    refine ⟨clean_getBytes r clk c clean, fun f found => ?_⟩
    obtain ⟨value, -, rfl⟩ := Option.map_eq_some_iff.mp found
    exact clean_getEntry r c retention metadata clean entry

end

section
variable {τ : Type} [Region τ] [LawfulRegion τ]
open LawfulRegion

/-- Every block of the region satisfies `A`, and every metadata dictionary can be written. -/
structure Holds (A : Composite → Bytes → Prop) (r : τ) : Prop where
  valid : Valid r
  clean : Clean r
  block : ∀ c v, held r c = some v → A c v

theorem Holds.kept {r r' : τ} (holds : Holds A r) (valid : Valid r')
    (clean : Clean r') (kept : ∀ c, KeptOrDropped (held r c) (held r' c)) : Holds A r' := by
  refine ⟨valid, clean, fun c v found => ?_⟩
  rcases kept c with same | gone
  · exact holds.block c v (same ▸ found)
  · simp [gone] at found

theorem held_put {r : τ} (valid : Valid r) (apart : Apart τ c) {clk : Clock}
    {value : Bytes} {retention : Retention} {metadata : Metadata} {c' : Composite} {v : Bytes}
    (found : held (put r clk c value retention metadata).1 c' = some v) :
    held r c' = some v ∨ c' = c ∧ v = value := by
  have old : ∀ {a b : Option Bytes}, KeptOrDropped a b → b = some v → a = some v := by
    rintro a b (rfl | rfl) eq
    · exact eq
    · simp at eq
  by_cases same : c' = c
  · subst same
    rcases (put_own r clk c' value retention metadata valid apart).cases with kept | now
    · exact .inl (old kept found)
    · exact .inr ⟨rfl, Option.some.inj (found.symm.trans now)⟩
  · exact .inl (old (put_other r clk c value retention metadata c' valid apart same) found)

section
variable {r : τ} (holds : Holds A r)
include holds

theorem Holds.put (clk : Clock) (apart : Apart τ c) {value : Bytes} (good : A c value) (retention : Retention)
    {metadata : Metadata} (encodable : metadata.encodable = true) :
    Holds A (put r clk c value retention metadata).1 := by
  refine ⟨put_valid r clk c value retention metadata holds.valid apart,
    clean_put r clk c value retention metadata holds.clean encodable, fun c' v found => ?_⟩
  rcases held_put holds.valid apart found with old | ⟨rfl, rfl⟩
  · exact holds.block c' v old
  · exact good

theorem Holds.fetchFrom (clk : Clock)
    (c : Composite) : Holds A (fetchFrom r clk c).1 ∧
      ∀ f, (fetchFrom r clk c).2 = some f → A c f.value ∧ f.metadata.encodable = true := by
  have clean := fetchFrom_clean holds.clean clk c
  refine ⟨holds.kept (fetchFrom_valid holds.valid clk c) clean.1 (fetchFrom_kept holds.valid clk c),
    fun f found => ⟨?_, clean.2 f found⟩⟩
  exact holds.block c f.value (fetchFrom_held holds.valid found)

theorem Holds.clear : Holds A (Region.clear r) :=
  holds.kept (clear_valid r holds.valid) (clean_clear r holds.clean)
    fun c => .inr (clear_held r c holds.valid)

theorem Holds.clearNamespace
    (model compatKey : String) : Holds A (clearNamespace r model compatKey) :=
  holds.kept (clearNamespace_valid r model compatKey holds.valid)
    (clean_clearNamespace r model compatKey holds.clean)
    fun c => clearNamespace_kept r model compatKey c holds.valid

end

end

section
variable [Region ρ] [LawfulRegion ρ] {A : Composite → Bytes → Prop} {st : HostStore σ ρ}

theorem BothTiers.fetchLong (tiers : BothTiers P (Holds A) st) (clk : Clock)
    (c : Composite) : BothTiers P (Holds A) (st.fetchLong clk c).1 ∧
      ∀ f, (st.fetchLong clk c).2 = some f → A c f.value ∧ f.metadata.encodable = true := by
  unfold HostStore.fetchLong
  split
  · exact ⟨tiers, by simp⟩
  · rename_i region wired
    have fetched := (tiers.longRegion region wired).fetchFrom clk c
    exact ⟨tiers.setLongRegion fetched.1, fetched.2⟩

theorem mem_zip_of_lookup (misses : List (Nat × Composite)) :
    ∀ {vals : List (Option Bytes)} {i : Nat} {c : Composite} {x : Option Bytes},
      (misses.map Prod.fst).Nodup → (i, c) ∈ misses →
      ((misses.map Prod.fst).zip vals).lookup i = some x → (c, x) ∈ (misses.map Prod.snd).zip vals := by
  induction misses with
  | nil => simp
  | cons p misses ih =>
    intro vals i c x nodup mem found
    obtain ⟨j, d⟩ := p
    cases vals with
    | nil => simp at found
    | cons v vals =>
      rw [map_cons, nodup_cons] at nodup
      rcases mem_cons.mp mem with here | later
      · cases here
        simp_all
      · have differ : i ≠ j := by
          rintro rfl
          exact nodup.1 (mem_map.mpr ⟨(i, c), later, rfl⟩)
        simp only [map_cons, zip_cons_cons, lookup_cons, beq_eq_false_iff_ne.mpr differ] at found ⊢
        exact mem_cons_of_mem _ (ih nodup.2 later found)

theorem BothTiers.readBatch (tiers : BothTiers P (Holds A) st) (clk : Clock)
    (misses : List (Nat × Composite)) (nodup : (misses.map Prod.fst).Nodup) :
    BothTiers P (Holds A) (st.readBatch clk misses).1 ∧
      ∀ vals, (st.readBatch clk misses).2 = some vals → ∀ i c value, (i, c) ∈ misses →
        ((misses.map Prod.fst).zip vals).lookup i = some (some value) → A c value := by
  unfold HostStore.readBatch
  split
  · rename_i region batch wired defined
    have holds := tiers.longRegion region wired
    obtain ⟨valid, kept, reads⟩ := batch_reads batch defined region clk (misses.map Prod.snd)
      holds.valid
    refine ⟨tiers.setLongRegion (holds.kept valid ?_ kept), fun vals read i c value mem found => ?_⟩
    · exact clean_batch batch defined region clk _ holds.clean
    · simp only at read
      split at read
      · rename_i vals' answer
        split_ifs at read with complete
        cases read
        have inBatch := mem_zip_of_lookup misses nodup mem found
        have block := reads vals answer (by simpa using complete) c value inBatch
        exact holds.block c value block
      · simp at read
  · exact ⟨tiers, by simp⟩

end

theorem BothTiers.fetchSpill [Region σ] [LawfulRegion σ] (tiers : BothTiers (Holds A) Q st) (clk : Clock)
    (c : Composite) : BothTiers (Holds A) Q (st.fetchSpill clk c).1 ∧
      ∀ f, (st.fetchSpill clk c).2 = some f → A c f.value ∧ f.metadata.encodable = true := by
  unfold HostStore.fetchSpill
  split
  · exact ⟨tiers, by simp⟩
  · rename_i region wired
    have fetched := (tiers.spillover region wired).fetchFrom clk c
    exact ⟨tiers.setSpillover fetched.1, fetched.2⟩

variable [Region σ] [Region ρ] [LawfulRegion σ] [LawfulRegion ρ]
open LawfulRegion

def NotBelow (c : Composite) : HostStore σ ρ → Prop :=
  BothTiers (fun r => Valid r ∧ held r c = none) (fun r => Valid r ∧ held r c = none)

/-- Both regions store the composite under a name of its own. -/
def Separate (σ ρ : Type) [Region σ] [Region ρ] [LawfulRegion σ] [LawfulRegion ρ] (c : Composite) :
    Prop :=
  LawfulRegion.Apart σ c ∧ LawfulRegion.Apart ρ c

section
variable (below : st.NotBelow c) (clk : Clock)
include below clk

theorem fetchLong_of_notBelow
    : (st.fetchLong clk c).2 = none ∧ (st.fetchLong clk c).1.NotBelow c := by
  unfold fetchLong
  split
  · exact ⟨rfl, below⟩
  · rename_i region wired
    obtain ⟨valid, absent⟩ := below.longRegion region wired
    refine ⟨fetchFrom_none valid absent clk, below.setLongRegion ⟨fetchFrom_valid valid clk c, ?_⟩⟩
    exact (absent ▸ fetchFrom_kept valid clk c c).none

theorem fetchSpill_of_notBelow
    : (st.fetchSpill clk c).2 = none ∧ (st.fetchSpill clk c).1.NotBelow c := by
  unfold fetchSpill
  split
  · exact ⟨rfl, below⟩
  · rename_i region wired
    obtain ⟨valid, absent⟩ := below.spillover region wired
    refine ⟨fetchFrom_none valid absent clk, below.setSpillover ⟨fetchFrom_valid valid clk c, ?_⟩⟩
    exact (absent ▸ fetchFrom_kept valid clk c c).none

theorem getBelow_of_notBelow : (st.getBelow clk c).2 = .ok none := by
  obtain ⟨long, below⟩ := fetchLong_of_notBelow below clk
  obtain ⟨spill, -⟩ := fetchSpill_of_notBelow below (clk.after 4)
  simp [getBelow, long, promoteFetched, spill]

end

end HostStore
end Infera.Kvd
