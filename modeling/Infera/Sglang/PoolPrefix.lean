import Infera.Dict

/-! How far a prefix is present in every pool of a hybrid cache. The SGLang backend
takes the longest run of key-value pages, asks each further pool for the longest
prefix its policy accepts, and answers the least of these. A pool that wants only
the trailing pages may accept a prefix and no shorter one, so the answer need not
be usable (`least_prefix_unusable`); it is just when the longest usable prefix is
the longest of one pool on its own. -/

namespace Infera.Sglang
open List

inductive PoolHitPolicy where
  | allPages
  | trailingPages

structure PoolTransfer where
  name : String
  keys : Option (List String)
  hitPolicy : PoolHitPolicy

def PoolTransfer.trailing (t : PoolTransfer) : ℕ := max 1 (t.keys.elim 0 length)

/-- The key-value pool uses the bare key. -/
def poolStorageKey (poolName : Option String) (key : String) : String :=
  match poolName with
  | none => key
  | some name => if name ∈ ["", "kv", "__default__"] then key else key ++ "." ++ name

/-- The index of the first page that is missing. -/
def leading (present : List Bool) : ℕ := present.findIdx (!·)

/-- All pages of `range(max(0, n - trailing), n)`. -/
def window (trailing : ℕ) (present : List Bool) (n : ℕ) : Bool :=
  (range' (n - trailing) (n - (n - trailing))).all fun i => present[i]? = some true

/-- The loop from the longest prefix down. -/
def trailingBoundary (trailing : ℕ) (present : List Bool) : ℕ → ℕ
  | 0 => 0
  | n + 1 =>
    if window trailing present (n + 1) then n + 1 else trailingBoundary trailing present n

section Backend
variable (client : List String → Option (List Bool)) (held : String → Bool) (keys : List String)

/-- A call that fails reports every page missing. -/
def existsForPool (poolName : Option String) : List Bool :=
  if keys = [] then []
  else (client (keys.map (poolStorageKey poolName))).getD (replicate keys.length false)

def boundary (kvPages : ℕ) (t : PoolTransfer) : ℕ :=
  let present := existsForPool client (keys.take kvPages) (some t.name)
  match t.hitPolicy with
  | .allPages => leading present
  | .trailingPages => trailingBoundary t.trailing present kvPages

def kvPages : ℕ := leading (existsForPool client keys none)

/-- A prefix of no pages ends the loop. -/
def poolStep : ℕ × Dict String ℕ → PoolTransfer → ℕ × Dict String ℕ
  | (final, hits), t =>
    if final = 0 then (final, hits)
    else
      let b := boundary client keys (kvPages client keys) t
      (min final b, if b = 0 then hits else hits.set t.name b)

/-- Pages of the common prefix, and the hits of each pool. -/
def batchExistsV2 (poolTransfers : List PoolTransfer) : ℕ × Dict String ℕ :=
  if keys = [] then (0, .empty)
  else
    let n := kvPages client keys
    poolTransfers.foldl (poolStep client keys) (n, if n = 0 then .empty else Dict.empty.set "kv" n)

/-- A daemon that answers and has these pages. -/
def answering : List String → Option (List Bool) := fun ks => some (ks.map held)

def Present (poolName : Option String) (i : ℕ) : Prop :=
  ∃ k, keys[i]? = some k ∧ held (poolStorageKey poolName k) = true

/-- The first page that the pool needs for a prefix. -/
def PoolTransfer.first (t : PoolTransfer) (n : ℕ) : ℕ :=
  match t.hitPolicy with
  | .allPages => 0
  | .trailingPages => n - min t.trailing n

def Accepts (t : PoolTransfer) (n : ℕ) : Prop :=
  ∀ i < n, t.first n ≤ i → Present held keys (some t.name) i

def Usable (poolTransfers : List PoolTransfer) (n : ℕ) : Prop :=
  (∀ i < n, Present held keys none i) ∧ ∀ t ∈ poolTransfers, Accepts held keys t n

/-- Some usable prefix cannot be longer for the key-value pages alone or for one of the pools. -/
def Tight (poolTransfers : List PoolTransfer) : Prop :=
  ∃ n, Usable held keys poolTransfers n ∧
    ((∀ n', (∀ i < n', Present held keys none i) → n' ≤ n) ∨
      ∃ t ∈ poolTransfers, ∀ n', (∀ i < n', Present held keys none i) → Accepts held keys t n' → n' ≤ n)

variable {client held keys} {n : ℕ} {t : PoolTransfer} {present : List Bool} {trailing kv : ℕ}
  {ts : List PoolTransfer}

theorem existsForPool_answering (keys : List String) (name : Option String) :
    existsForPool (answering held) keys name = keys.map (held ∘ poolStorageKey name) := by
  unfold existsForPool answering
  split_ifs with empty
  · rw [empty, map_nil]
  · exact map_map

theorem getElem?_existsForPool {name : Option String} {i : ℕ} (inside : i < kv) :
    (existsForPool (answering held) (keys.take kv) name)[i]? = some true ↔
      Present held keys name i := by
  simp [existsForPool_answering, inside, Present]

theorem le_leading : n ≤ leading present ↔ ∀ i < n, present[i]? = some true := by
  induction present generalizing n with
  | nil =>
    cases n with
    | zero => simp
    | succ n => simp only [leading, Nat.forall_lt_succ_left]; simp
  | cons ok rest ih =>
    unfold leading at ih ⊢
    cases n with
    | zero => simp
    | succ n => cases ok <;> simp only [findIdx_cons, Nat.forall_lt_succ_left] <;> simp [ih]

theorem window_iff :
    window trailing present n = true ↔ ∀ i < n, n - trailing ≤ i → present[i]? = some true := by
  simp only [window, all_eq_true, mem_range'_1, decide_eq_true_eq]
  exact forall_congr' fun i => ⟨fun all inside low => all ⟨low, by omega⟩,
    fun all inside => all (by omega) inside.1⟩

theorem trailingBoundary_spec (trailing : ℕ) (present : List Bool) (kv : ℕ) :
    let b := trailingBoundary trailing present kv
    b ≤ kv ∧ window trailing present b = true ∧
      ∀ n ≤ kv, window trailing present n = true → n ≤ b := by
  induction kv with
  | zero => simp [trailingBoundary, window]
  | succ kv ih =>
    unfold trailingBoundary
    split_ifs with whole
    · exact ⟨le_rfl, whole, fun n le _ => le⟩
    · refine ⟨ih.1.trans (Nat.le_succ _), ih.2.1, fun n le all => ?_⟩
      rcases Nat.le_succ_iff.mp le with below | rfl
      · exact ih.2.2 n below all
      · exact absurd all whole

/-- A pool's boundary is the longest prefix of the key-value pages that it accepts. -/
theorem boundary_spec (held : String → Bool) (keys : List String) (kv : ℕ) (t : PoolTransfer) :
    let b := boundary (answering held) keys kv t
    b ≤ kv ∧ Accepts held keys t b ∧ ∀ n ≤ kv, Accepts held keys t n → n ≤ b := by
  cases policy : t.hitPolicy with
  | allPages =>
    simp only [boundary, Accepts, PoolTransfer.first, policy]
    have bound : leading (existsForPool (answering held) (keys.take kv) (some t.name)) ≤ kv := by
      refine findIdx_le_length.trans ?_
      rw [existsForPool_answering, length_map, length_take]
      exact Nat.min_le_left ..
    refine ⟨bound, fun i inside _ => ?_, fun n le all => le_leading.mpr fun i inside => ?_⟩
    · exact (getElem?_existsForPool (inside.trans_le bound)).mp (le_leading.mp le_rfl i inside)
    · exact (getElem?_existsForPool (inside.trans_le le)).mpr (all i inside (Nat.zero_le i))
  | trailingPages =>
    simp only [boundary, Accepts, PoolTransfer.first, policy]
    obtain ⟨bound, accepted, longest⟩ := trailingBoundary_spec t.trailing
      (existsForPool (answering held) (keys.take kv) (some t.name)) kv
    refine ⟨bound, fun i inside low => ?_, fun n le all => longest n le ?_⟩
    · exact (getElem?_existsForPool (inside.trans_le bound)).mp
        (window_iff.mp accepted i inside (by omega))
    · exact window_iff.mpr fun i inside low =>
        (getElem?_existsForPool (inside.trans_le le)).mpr (all i inside (by omega))

theorem le_foldl_poolStep (ts : List PoolTransfer) (final : ℕ) (hits : Dict String ℕ) :
    n ≤ (ts.foldl (poolStep client keys) (final, hits)).1 ↔
      n ≤ final ∧ ∀ t ∈ ts, n ≤ boundary client keys (kvPages client keys) t := by
  induction ts generalizing final hits with
  | nil => simp
  | cons t ts ih =>
    rw [foldl_cons, poolStep]
    split_ifs with none
    · -- the loop has ended: only the empty prefix is below both sides
      rw [ih, none]
      constructor
      all_goals rintro ⟨le, -⟩; simp [Nat.le_zero.mp le]
    · rw [ih, forall_mem_cons, Nat.le_min, and_assoc]

theorem le_kvPages : n ≤ kvPages (answering held) keys ↔ ∀ i < n, Present held keys none i := by
  simp [kvPages, le_leading, existsForPool_answering, Present]

theorem le_batchExistsV2 (ts : List PoolTransfer) :
    n ≤ (batchExistsV2 (answering held) keys ts).1 ↔ n ≤ kvPages (answering held) keys ∧
      ∀ t ∈ ts, n ≤ boundary (answering held) keys (kvPages (answering held) keys) t := by
  unfold batchExistsV2
  split_ifs with empty
  · subst empty
    refine ⟨fun le => ?_, And.left⟩
    rw [Nat.le_zero.mp le]
    simp
  · exact le_foldl_poolStep ..

theorem le_batchExistsV2_of_usable (usable : Usable held keys ts n) :
    n ≤ (batchExistsV2 (answering held) keys ts).1 := by
  have pages := le_kvPages.mpr usable.1
  exact (le_batchExistsV2 ts).mpr ⟨pages, fun t among =>
    (boundary_spec held keys _ t).2.2 n pages (usable.2 t among)⟩

theorem Tight.usable (tight : Tight held keys ts) :
    Usable held keys ts (batchExistsV2 (answering held) keys ts).1 := by
  have spec := boundary_spec held keys (kvPages (answering held) keys)
  obtain ⟨pages, least⟩ := (le_batchExistsV2 ts).mp (le_refl (batchExistsV2 (answering held) keys ts).1)
  obtain ⟨n, usable, bound⟩ := tight
  have answered : (batchExistsV2 (answering held) keys ts).1 = n := by
    refine (le_batchExistsV2_of_usable usable).antisymm' ?_
    rcases bound with all | ⟨t, among, longest⟩
    · exact all _ (le_kvPages.mp pages)
    · exact (least t among).trans
        (longest _ (le_kvPages.mp (spec t).1) (spec t).2.1)
  exact answered ▸ usable

/-- The answer is the longest usable prefix exactly when some usable prefix is all that one of the
pools accepts. -/
theorem batchExistsV2_longest (held : String → Bool) (keys : List String) (ts : List PoolTransfer) :
    (Usable held keys ts (batchExistsV2 (answering held) keys ts).1 ∧
      ∀ n, Usable held keys ts n → n ≤ (batchExistsV2 (answering held) keys ts).1) ↔
    Tight held keys ts := by
  refine ⟨fun ⟨usable, _⟩ => ⟨_, usable, ?_⟩,
    fun tight => ⟨tight.usable, fun n usable => le_batchExistsV2_of_usable usable⟩⟩
  -- the least of the bounds is one of them
  by_contra loose
  push Not at loose
  obtain ⟨⟨n, pages, longer⟩, pools⟩ := loose
  have beyond : (batchExistsV2 (answering held) keys ts).1 + 1 ≤
      (batchExistsV2 (answering held) keys ts).1 := by
    refine (le_batchExistsV2 ts).mpr ⟨longer.trans_le (le_kvPages.mpr pages), fun t among => ?_⟩
    obtain ⟨n, pages, accepted, longer⟩ := pools t among
    exact longer.trans_le ((boundary_spec held keys _ t).2.2 n (le_kvPages.mpr pages) accepted)
  exact Nat.not_succ_le_self _ beyond

end Backend

/-- An indexer that wants every page, and states of which the last is wanted. -/
def twoPools : List PoolTransfer :=
  [⟨"indexer", none, .allPages⟩, ⟨"mamba", none, .trailingPages⟩]

def twoPoolsHeld (key : String) : Bool :=
  key ∈ ["a", "b", "c", "a.indexer", "b.indexer", "a.mamba", "c.mamba"]

/-- Two pages are answered, and the state after the second is missing. -/
theorem least_prefix_unusable :
    (batchExistsV2 (answering twoPoolsHeld) ["a", "b", "c"] twoPools).1 = 2 ∧
      ¬ Usable twoPoolsHeld ["a", "b", "c"] twoPools 2 := by
  refine ⟨by decide +kernel, fun usable => ?_⟩
  obtain ⟨k, second, held⟩ := usable.2 _ (mem_of_mem_tail (mem_singleton_self _)) 1 (by decide)
    (by decide)
  cases second
  exact absurd held (by decide +kernel)

end Infera.Sglang
