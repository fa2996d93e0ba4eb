import Mathlib

/-! Chained block hashes of the router. A token sequence is cut into full
blocks and each block is hashed together with the hash of its parent, starting
from the seed. The byte hash `xxh3_64` comes from a crate and is a parameter
of everything built on it. `chainHash` is the hash of a root-to-block path; the
query side (`hashRequest`) and the event side chain through it. -/

namespace Infera.Router
open List

/-- The `width` low bytes of `n`, least significant first. -/
def leBytes (width n : ℕ) : List UInt8 :=
  (List.range width).map fun i => UInt8.ofNat (n / 256 ^ i)

@[simp] theorem length_leBytes (width n : ℕ) : (leBytes width n).length = width := by
  simp [leBytes]

theorem leBytes_succ (width n : ℕ) :
    leBytes (width + 1) n = UInt8.ofNat n :: leBytes width (n / 256) := by
  simp only [leBytes, range_succ_eq_map, map_cons, map_map, Nat.pow_zero, Nat.div_one]
  congr 1
  refine map_congr_left fun i _ => ?_
  simp only [Function.comp_apply, Nat.pow_succ']
  rw [Nat.div_div_eq_div_mul]

theorem leBytes_inj (width : ℕ) : ∀ {n m : ℕ}, n < 256 ^ width → m < 256 ^ width →
    leBytes width n = leBytes width m → n = m := by
  induction width with
  | zero =>
    intro n m small small' _
    omega
  | succ width ih =>
    intro n m small small' same
    rw [leBytes_succ, leBytes_succ, List.cons.injEq] at same
    rw [Nat.pow_succ'] at small small'
    have low : n % 256 = m % 256 := by
      have bytes := congrArg UInt8.toNat same.1
      simpa using bytes
    have high : n / 256 = m / 256 := by
      refine ih ?_ ?_ same.2
      · exact Nat.div_lt_of_lt_mul small
      · exact Nat.div_lt_of_lt_mul small'
    omega

/-- Seed for the first block in a chain. -/
def routerSeed : UInt64 := 0

/-- The bytes hashed for one block: the parent, then each token. -/
def chunkBytes (parent : UInt64) (tokenIds : List UInt32) : List UInt8 :=
  leBytes 8 parent.toNat ++ tokenIds.flatMap fun t => leBytes 4 t.toNat

theorem tokenBytes_inj : ∀ {ts us : List UInt32},
    (ts.flatMap fun t => leBytes 4 t.toNat) = (us.flatMap fun t => leBytes 4 t.toNat) →
      ts = us := by
  intro ts
  induction ts with
  | nil =>
    intro us same
    cases us with
    | nil => rfl
    | cons u us => simp [leBytes_succ] at same
  | cons t ts ih =>
    intro us same
    cases us with
    | nil => simp [leBytes_succ] at same
    | cons u us =>
      obtain ⟨first, rest⟩ := append_inj same (by simp)
      have token : t.toNat = u.toNat := leBytes_inj 4 t.toNat_lt u.toNat_lt first
      rw [UInt32.toNat_inj.mp token, ih rest]

theorem chunkBytes_inj {parent parent' : UInt64} {ts us : List UInt32}
    (same : chunkBytes parent ts = chunkBytes parent' us) : parent = parent' ∧ ts = us := by
  obtain ⟨first, rest⟩ := append_inj same (by simp)
  have parents : parent.toNat = parent'.toNat :=
    leBytes_inj 8 parent.toNat_lt parent'.toNat_lt first
  exact ⟨UInt64.toNat_inj.mp parents, tokenBytes_inj rest⟩

section Blocks
variable {T : Type*} (path blocks : List (List T)) (size : ℕ) (tokens : List T)

/-- The full blocks of `size` tokens; a trailing partial block is dropped. -/
def fullBlocks : List (List T) :=
  (List.range (tokens.length / size)).map fun i => (tokens.drop (i * size)).take size

@[simp] theorem length_fullBlocks : (fullBlocks size tokens).length = tokens.length / size := by
  simp [fullBlocks]

theorem fullBlocks_map {T' : Type*} (g : T → T') (size : ℕ) (tokens : List T) :
    fullBlocks size (tokens.map g) = (fullBlocks size tokens).map (List.map g) := by
  simp [fullBlocks]

def rootPaths : List (List (List T)) :=
  (List.range blocks.length).map fun i => path ++ blocks.take (i + 1)

@[simp] theorem rootPaths_nil (path : List (List T)) : rootPaths path [] = [] := rfl

theorem rootPaths_cons (path : List (List T)) (block : List T) (blocks : List (List T)) :
    rootPaths path (block :: blocks) = (path ++ [block]) :: rootPaths (path ++ [block]) blocks := by
  simp [rootPaths, range_succ_eq_map]

@[simp] theorem length_rootPaths : (rootPaths path blocks).length = blocks.length := by
  simp [rootPaths]

theorem map_snd_zip_rootPaths {H : Type*} {hs : List H}
    (aligned : hs.length = tokens.length / size) :
    (hs.zip (rootPaths path (fullBlocks size tokens))).map Prod.snd =
      rootPaths path (fullBlocks size tokens) := List.map_snd_zip (by simp [aligned])

theorem rootPaths_map {T' : Type*} (g : T → T') (path blocks : List (List T)) :
    rootPaths (path.map (List.map g)) (blocks.map (List.map g)) =
      (rootPaths path blocks).map (List.map (List.map g)) := by
  simp [rootPaths]

end Blocks

variable (xxh3_64 : List UInt8 → UInt64) (path : List (List UInt32)) (tokenIds : List UInt32)

def hashChunk (parent : UInt64) (tokenIds : List UInt32) : UInt64 :=
  xxh3_64 (chunkBytes parent tokenIds)

def hashRequest (blockSize : ℕ) : List UInt64 :=
  if blockSize = 0 then []
  else
    ((fullBlocks blockSize tokenIds).foldl (fun (parent, out) chunk =>
        let parent := hashChunk xxh3_64 parent chunk
        (parent, out ++ [parent]))
      (routerSeed, [])).2

def chainHash (path : List (List UInt32)) : UInt64 :=
  path.foldl (hashChunk xxh3_64) routerSeed

@[simp] theorem chainHash_nil : chainHash xxh3_64 [] = routerSeed := rfl

@[simp] theorem chainHash_append_singleton (chunk : List UInt32) :
    chainHash xxh3_64 (path ++ [chunk]) = hashChunk xxh3_64 (chainHash xxh3_64 path) chunk := by
  simp [chainHash]

theorem hashRequest_eq {blockSize : ℕ} (positive : 0 < blockSize) :
    hashRequest xxh3_64 tokenIds blockSize =
      (rootPaths [] (fullBlocks blockSize tokenIds)).map (chainHash xxh3_64) := by
  -- the accumulator holds the hash of the path chained so far
  have chained : ∀ (blocks path : List (List UInt32)) (out : List UInt64), (blocks.foldl
        (fun (parent, out) chunk =>
          let parent := hashChunk xxh3_64 parent chunk
          (parent, out ++ [parent]))
        (chainHash xxh3_64 path, out)).2 =
      out ++ (rootPaths path blocks).map (chainHash xxh3_64) := by
    intro blocks
    induction blocks with
    | nil => simp
    | cons block blocks ih =>
      intro path out
      rw [foldl_cons, rootPaths_cons, map_cons]
      simp only
      rw [← chainHash_append_singleton, ih, append_assoc, singleton_append]
  rw [hashRequest, if_neg positive.ne']
  simpa using chained (fullBlocks blockSize tokenIds) [] []

/-- Chaining does not collide on a set of paths closed under dropping the last
block, when the byte hash does not collide on their inputs and never yields the
seed there. -/
theorem chainHash_injOn {paths : Set (List (List UInt32))}
    (closed : ∀ path chunk, path ++ [chunk] ∈ paths → path ∈ paths)
    (injective : ∀ path chunk path' chunk', path ++ [chunk] ∈ paths → path' ++ [chunk'] ∈ paths →
      xxh3_64 (chunkBytes (chainHash xxh3_64 path) chunk) =
        xxh3_64 (chunkBytes (chainHash xxh3_64 path') chunk') →
      chunkBytes (chainHash xxh3_64 path) chunk = chunkBytes (chainHash xxh3_64 path') chunk')
    (unseeded : ∀ path chunk, path ++ [chunk] ∈ paths →
      xxh3_64 (chunkBytes (chainHash xxh3_64 path) chunk) ≠ routerSeed) :
    Set.InjOn (chainHash xxh3_64) paths := by
  intro path
  induction path using List.reverseRecOn with
  | nil =>
    intro _ path' mem' same
    induction path' using List.reverseRecOn with
    | nil => rfl
    | append_singleton path' chunk' _ =>
      rw [chainHash_append_singleton, chainHash_nil] at same
      exact absurd same.symm (unseeded path' chunk' mem')
  | append_singleton path chunk ih =>
    intro mem path' mem' same
    induction path' using List.reverseRecOn with
    | nil =>
      rw [chainHash_append_singleton, chainHash_nil] at same
      exact absurd same (unseeded path chunk mem)
    | append_singleton path' chunk' _ =>
      rw [chainHash_append_singleton, chainHash_append_singleton] at same
      obtain ⟨parents, chunks⟩ := chunkBytes_inj (injective path chunk path' chunk' mem mem' same)
      rw [ih (closed path chunk mem) (closed path' chunk' mem') parents, chunks]

/-- The byte strings hashed along a path, from its parent's hash on. -/
def chainInputs : UInt64 → List (List UInt32) → List (List UInt8)
  | _, [] => []
  | parent, chunk :: chunks =>
    chunkBytes parent chunk :: chainInputs (hashChunk xxh3_64 parent chunk) chunks

theorem mem_chainInputs (chunk : List UInt32) (rest : List (List UInt32)) (parent : UInt64) :
    chunkBytes (path.foldl (hashChunk xxh3_64) parent) chunk ∈
      chainInputs xxh3_64 parent (path ++ chunk :: rest) := by
  induction path generalizing parent with
  | nil => exact mem_cons_self
  | cons c path ih => exact mem_cons_of_mem _ (ih _)

/-- The byte hash does not collide on the inputs of these paths, nor does any of
them hash to the seed. -/
structure CollisionFree (paths : List (List (List UInt32))) : Prop where
  injective : ∀ b ∈ paths.flatMap (chainInputs xxh3_64 routerSeed),
    ∀ b' ∈ paths.flatMap (chainInputs xxh3_64 routerSeed), xxh3_64 b = xxh3_64 b' → b = b'
  unseeded : ∀ b ∈ paths.flatMap (chainInputs xxh3_64 routerSeed), xxh3_64 b ≠ routerSeed

theorem CollisionFree.injOn {xxh3_64 : List UInt8 → UInt64} {paths : List (List (List UInt32))}
    (free : CollisionFree xxh3_64 paths) :
    Set.InjOn (chainHash xxh3_64) {path | ∃ whole ∈ paths, path <+: whole} := by
  have used : ∀ path chunk, (∃ whole ∈ paths, path ++ [chunk] <+: whole) →
      chunkBytes (chainHash xxh3_64 path) chunk ∈
        paths.flatMap (chainInputs xxh3_64 routerSeed) := by
    rintro path chunk ⟨_, mem, rest, rfl⟩
    refine mem_flatMap.mpr ⟨_, mem, ?_⟩
    rw [append_assoc]
    exact mem_chainInputs xxh3_64 path chunk rest routerSeed
  refine chainHash_injOn xxh3_64 ?_ ?_ ?_
  · rintro path chunk ⟨whole, mem, below⟩
    exact ⟨whole, mem, (prefix_append path [chunk]).trans below⟩
  · intro path chunk path' chunk' mem mem' same
    exact free.injective _ (used path chunk mem) _ (used path' chunk' mem') same
  · intro path chunk mem
    exact free.unseeded _ (used path chunk mem)

def rollingHash (bytes : List UInt8) : UInt64 :=
  bytes.foldl (fun acc b => acc * 31 + b.toUInt64 + 1) 7

end Infera.Router
