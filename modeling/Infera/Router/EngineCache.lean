import Infera.Router.KvEvent

/-! What the engine itself holds. An `EngineCache` maps each resident block's
engine hash to its root-to-block path of token blocks; `step` follows one cache
event. A stored event lists hashes and a token span: `covers` says which block
of the span each hash names, which the wire does not carry when the two lengths
disagree. `Translates` relates a rank's translation map to the cache through a
reading `f` of hashes and `g` of tokens, and `Tally.event` keeps it. -/

namespace Infera.Router
open List Dict

namespace Event
variable {H T H' T' : Type}

def map (f : H → H') (g : T → T') : Event H T → Event H' T'
  | .stored blockHashes parentBlockHash tokenIds specKind =>
    .stored (blockHashes.map f) (parentBlockHash.map f) (tokenIds.map g) specKind
  | .removed blockHashes => .removed (blockHashes.map f)
  | .cleared => .cleared

@[simp] theorem map_id (e : Event H T) : e.map id id = e := by
  cases e <;> simp [map]

def hashes : Event H T → List H
  | .stored blockHashes parentBlockHash _ _ => blockHashes ++ parentBlockHash.toList
  | .removed blockHashes => blockHashes
  | .cleared => []

def span (bs : ℕ) : Event H T → ℕ
  | .stored _ _ tokenIds _ => tokenIds.length / bs
  | _ => 0

def Aligned (bs : ℕ) : Event H T → Prop
  | .stored blockHashes _ tokenIds _ => blockHashes.length = tokenIds.length / bs
  | _ => True

instance (bs : ℕ) : (e : Event H T) → Decidable (e.Aligned bs)
  | .stored hs _ ts _ => inferInstanceAs (Decidable (hs.length = ts.length / bs))
  | .removed _ => .isTrue trivial
  | .cleared => .isTrue trivial

def Indexable : Event H T → Prop
  | .stored _ _ _ specKind => isIndexableSpecKind specKind = true
  | _ => True

instance : (e : Event H T) → Decidable e.Indexable
  | .stored _ _ _ specKind => inferInstanceAs (Decidable (isIndexableSpecKind specKind = true))
  | .removed _ => .isTrue trivial
  | .cleared => .isTrue trivial

end Event

abbrev EngineCache (H T : Type) := Dict H (List (List T))

namespace EngineCache
variable {H T : Type} [DecidableEq H] (bs : ℕ) (cache : EngineCache H T) (e : Event H T)
  (covers : List ℕ)

/-- Where the blocks of a stored event attach. -/
def parentPath : Option H → Option (List (List T))
  | none => some []
  | some ph => cache.get? ph

def placed : Event H T → List (H × List (List T))
  | .stored blockHashes parentBlockHash tokenIds _ =>
    match cache.parentPath parentBlockHash with
    | none => []
    | some path =>
      blockHashes.zip (covers.map fun i => path ++ (fullBlocks bs tokenIds).take (i + 1))
  | _ => []

def step : EngineCache H T :=
  match e with
  | .stored .. => cache.assign (cache.placed bs covers e)
  | .removed blockHashes => cache.eraseAll blockHashes
  | .cleared => .empty

def Holds (path : List (List T)) : Prop := ∃ h, cache.get? h = some path

/-- A hash names one block: neither the cache nor the event itself has another
block under a hash the event stores. -/
def Identified (e : Event H T) : Prop :=
  ∀ b ∈ cache.placed bs covers e, (∀ path ∈ cache.get? b.1, path = b.2) ∧
    ∀ b' ∈ cache.placed bs covers e, b'.1 = b.1 → b'.2 = b.2

theorem placed_stored_of_parent {bs : ℕ} {cache : EngineCache H T} {hs : List H} {ph : Option H}
    {ts : List T} {path : List (List T)} (parent : cache.parentPath ph = some path)
    (kind : Option String) :
    cache.placed bs (List.range (ts.length / bs)) (.stored hs ph ts kind) =
      hs.zip (rootPaths path (fullBlocks bs ts)) := by
  simp [placed, parent, rootPaths]

end EngineCache

section Indexing
variable (xxh3_64 : List UInt8 → UInt64) (blockHashes : List UInt64)
  (index : Finset UInt64 × Dict UInt64 UInt64) (path blocks : List (List UInt32))

def chained : List UInt64 :=
  (rootPaths path blocks).map (chainHash xxh3_64)

section
variable (blockHashes : List UInt64) (index : Finset UInt64 × Dict UInt64 UInt64)

theorem indexBlocks_fst (aligned : Bool) (path blocks : List (List UInt32)) :
    (indexBlocks xxh3_64 aligned (chainHash xxh3_64 path) blocks blockHashes index).1 =
      index.1 ∪ (chained xxh3_64 path blocks).toFinset := by
  induction blocks generalizing path blockHashes index with
  | nil => simp [indexBlocks, chained]
  | cons block blocks ih =>
    rw [indexBlocks, ← chainHash_append_singleton, ih, chained, chained, rootPaths_cons,
      map_cons, toFinset_cons]
    ext r
    simp only [Finset.mem_union, Finset.mem_insert]
    tauto

theorem indexBlocks_snd (lengths : blockHashes.length = blocks.length) :
    (indexBlocks xxh3_64 true (chainHash xxh3_64 path) blocks blockHashes index).2 =
      index.2.assign (blockHashes.zip (chained xxh3_64 path blocks)) := by
  induction blocks generalizing path blockHashes index with
  | nil =>
    rw [length_eq_zero_iff.mp lengths]
    rfl
  | cons block blocks ih =>
    cases blockHashes with
    | nil => simp at lengths
    | cons blockHash blockHashes =>
      rw [indexBlocks, ← chainHash_append_singleton, ih _ _ _ (by simpa using lengths), chained,
        chained, rootPaths_cons]
      rfl

end

theorem dropBlock_snd (blockHash : UInt64) :
    (dropBlock index blockHash).2 = index.2.erase blockHash := by
  unfold dropBlock
  split
  · rfl
  · rename_i absent
    exact (index.2.erase_of_absent absent).symm

theorem foldl_dropBlock_snd :
    (blockHashes.foldl dropBlock index).2 = index.2.eraseAll blockHashes := by
  induction blockHashes generalizing index with
  | nil => rfl
  | cons blockHash rest ih =>
    rw [foldl_cons, ih, dropBlock_snd]
    rfl

theorem foldl_dropBlock_fst_subset : (blockHashes.foldl dropBlock index).1 ⊆ index.1 := by
  induction blockHashes generalizing index with
  | nil => exact Finset.Subset.refl _
  | cons blockHash rest ih =>
    refine (ih _).trans ?_
    unfold dropBlock
    split
    · exact Finset.erase_subset _ _
    · exact Finset.Subset.refl _

end Indexing

section Translation
variable {H T : Type} [DecidableEq H] (xxh3_64 : List UInt8 → UInt64) (f : H → UInt64)
  (g : T → UInt32) (known : Set H) {covers : List ℕ} {t : Tally} {bs : ℕ}
variable {cache : EngineCache H T} {e : Event H T}

def readChain (path : List (List T)) : UInt64 := chainHash xxh3_64 (path.map (List.map g))

def Translates (map : Dict UInt64 UInt64) (cache : EngineCache H T) : Prop :=
  ∀ u r, map.get? u = some r →
    ∃ h ∈ known, f h = u ∧ ∃ path, cache.get? h = some path ∧ r = readChain xxh3_64 g path

/-- What a stored event does to a rank: nothing, or the blocks of its span are
chained below the path its parent has in the cache. -/
inductive StoredEffect (bs : ℕ) (t : Tally) (cache : EngineCache H T) (blockHashes : List H)
    (parentBlockHash : Option H) (tokenIds : List T) (specKind : Option String) : Tally → Prop
  | skipped (orphaned : ℕ)
      (reason : isIndexableSpecKind specKind = false ∨ tokenIds.length / bs = 0 ∨
        resolveParent t.map (parentBlockHash.map f) = none) :
      StoredEffect bs t cache blockHashes parentBlockHash tokenIds specKind
        { t with orphaned := orphaned }
  | indexed (path : List (List T)) (map : Dict UInt64 UInt64)
      (indexable : isIndexableSpecKind specKind = true)
      (parent : cache.parentPath parentBlockHash = some path)
      (spans : tokenIds.length / bs ≠ 0)
      (entries : blockHashes.length = tokenIds.length / bs →
        map = t.map.assign ((blockHashes.zip (rootPaths path (fullBlocks bs tokenIds))).map
          (Prod.map f (readChain xxh3_64 g)))) :
      StoredEffect bs t cache blockHashes parentBlockHash tokenIds specKind
        { t with
          view := t.view ∪
            ((rootPaths path (fullBlocks bs tokenIds)).map (readChain xxh3_64 g)).toFinset
          map := map
          applied := t.applied + 1 }

variable {xxh3_64 f g known} {map : Dict UInt64 UInt64}

@[simp] theorem readChain_id (path : List (List UInt32)) :
    readChain xxh3_64 id path = chainHash xxh3_64 path := by
  simp [readChain]

theorem Translates.resolveParent
    (translates : Translates xxh3_64 f g known map cache) (injective : Set.InjOn f known)
    {ph : Option H} (mem : ∀ h ∈ ph, h ∈ known) {parent : UInt64}
    (resolved : resolveParent map (ph.map f) = some parent) :
    ∃ path, cache.parentPath ph = some path ∧ parent = readChain xxh3_64 g path := by
  cases ph with
  | none =>
    injection resolved with seed
    exact ⟨[], rfl, seed.symm⟩
  | some h =>
    obtain ⟨h', mem', same, path, held, value⟩ := translates (f h) parent resolved
    rw [injective mem' (mem h rfl) same] at held
    exact ⟨path, held, value⟩

theorem chained_readTokens (bs : ℕ) (path : List (List T)) (tokenIds : List T) :
    chained xxh3_64 (path.map (List.map g)) (fullBlocks bs (tokenIds.map g)) =
      (rootPaths path (fullBlocks bs tokenIds)).map (readChain xxh3_64 g) := by
  rw [chained, fullBlocks_map, rootPaths_map, map_map]
  rfl

theorem Translates.stored
    (translates : Translates xxh3_64 f g known t.map cache) (injective : Set.InjOn f known)
    {hs : List H} {ph : Option H} {ts : List T} {kind : Option String}
    (mem : ∀ h ∈ (Event.stored hs ph ts kind).hashes, h ∈ known) :
    ∃ t', t.event xxh3_64 bs ((Event.stored hs ph ts kind).map f g) = t' ∧
      StoredEffect xxh3_64 f g bs t cache hs ph ts kind t' := by
  refine ⟨_, rfl, ?_⟩
  simp only [Event.map, Tally.event, length_map]
  split_ifs with indexable none_spanned
  · exact .skipped t.orphaned (.inr (.inl none_spanned))
  · split
    · exact .skipped _ (.inr (.inr ‹_›))
    · rename_i parent resolved
      have parentKnown : ∀ h ∈ ph, h ∈ known := fun h isParent =>
        mem h (mem_append_right _ (Option.mem_toList.mpr isParent))
      obtain ⟨path, held, rfl⟩ := translates.resolveParent injective parentKnown resolved
      rw [readChain, indexBlocks_fst, chained_readTokens]
      refine .indexed path _ indexable held none_spanned fun aligned => ?_
      rw [show (ts.length / bs == hs.length) = true by simp [aligned]]
      rw [indexBlocks_snd _ _ _ _ _ (by simp [aligned]), chained_readTokens, zip_map]
  · exact .skipped t.orphaned (.inl (by simpa using indexable))

/-- A stored event the router indexes reports each of its blocks. -/
def Reported (bs : ℕ) (e : Event H T) (covers : List ℕ) : Prop :=
  e.Indexable → e.Aligned bs ∧ covers = List.range (e.span bs)

/-- The map can retract every hash of the view. -/
def Backed (view : Finset UInt64) (map : Dict UInt64 UInt64) : Prop :=
  ∀ r ∈ view, ∃ u, map.get? u = some r

theorem Backed.dropBlocks {index : Finset UInt64 × Dict UInt64 UInt64}
    (backed : Backed index.1 index.2) (us : List UInt64) :
    Backed (us.foldl dropBlock index).1 (us.foldl dropBlock index).2 := by
  induction us generalizing index with
  | nil => exact backed
  | cons u us ih =>
    refine ih fun r mem => ?_
    unfold dropBlock at mem ⊢
    cases entry : index.2.get? u with
    | none =>
      simp only [entry] at mem
      exact backed r mem
    | some routerHash =>
      simp only [entry] at mem
      obtain ⟨differ, inView⟩ := Finset.mem_erase.mp mem
      obtain ⟨u', found⟩ := backed r inView
      have other : u' ≠ u := by
        rintro rfl
        rw [entry] at found
        injection found with same
        exact differ same.symm
      exact ⟨u', by simp [get?_erase_of_ne other, found]⟩

section
variable (translates : Translates xxh3_64 f g known map cache)
include translates

theorem Translates.assign (items : List (H × List (List T))) (mem : ∀ b ∈ items, b.1 ∈ known) :
    Translates xxh3_64 f g known (map.assign (items.map (Prod.map f (readChain xxh3_64 g))))
      (cache.assign items) := by
  induction items generalizing map cache with
  | nil => exact translates
  | cons b rest ih =>
    refine ih (fun u r found => ?_) fun b' inRest => mem b' (.tail _ inRest)
    have bKnown := mem b mem_cons_self
    rcases get?_set_cases found with ⟨same, value⟩ | ⟨same, found⟩
    · exact ⟨b.1, bKnown, same.symm, b.2, cache.get?_set_self _ _, value.symm⟩
    · obtain ⟨h, hKnown, rfl, path, held, value⟩ := translates u r found
      have differ : h ≠ b.1 := fun eq => same (congrArg f eq)
      exact ⟨h, hKnown, rfl, path, by rw [get?_set_of_ne differ, held], value⟩

theorem Translates.extend (identified : cache.Identified bs covers e) :
    Translates xxh3_64 f g known map (cache.assign (cache.placed bs covers e)) := by
  intro u r found
  obtain ⟨h, hKnown, same, path, held, value⟩ := translates u r found
  refine ⟨h, hKnown, same, path, ?_, value⟩
  by_cases stored : ∃ path', (h, path') ∈ cache.placed bs covers e
  · obtain ⟨path', mem⟩ := stored
    obtain ⟨heldSame, storedSame⟩ := identified _ mem
    rw [heldSame path held]
    exact get?_assign_of_mem mem fun path'' mem' => storedSame _ mem' rfl
  · rw [get?_assign_of_not_mem fun path' mem => stored ⟨path', mem⟩]
    exact held

theorem Translates.eraseAll (hs : List H) :
    Translates xxh3_64 f g known (map.eraseAll (hs.map f)) (cache.eraseAll hs) := by
  intro u r found
  rw [get?_eraseAll] at found
  split_ifs at found with erased
  obtain ⟨h, hKnown, rfl, path, held, value⟩ := translates u r found
  have kept : h ∉ hs := fun mem => erased (mem_map_of_mem mem)
  exact ⟨h, hKnown, rfl, path, by rw [get?_eraseAll, if_neg kept, held], value⟩

theorem Translates.backed_assign {view : Finset UInt64}
    (injective : Set.InjOn f known) (mem : ∀ b ∈ cache.placed bs covers e, b.1 ∈ known)
    (identified : cache.Identified bs covers e) (backed : Backed view map) :
    Backed (view ∪ ((cache.placed bs covers e).map fun b => readChain xxh3_64 g b.2).toFinset)
      (map.assign ((cache.placed bs covers e).map (Prod.map f (readChain xxh3_64 g)))) := by
  have bound : ∀ b ∈ cache.placed bs covers e,
      (map.assign ((cache.placed bs covers e).map (Prod.map f (readChain xxh3_64 g)))).get? (f b.1)
        = some (readChain xxh3_64 g b.2) := by
    intro b inPlaced
    refine get?_assign_of_mem (mem_map.mpr ⟨b, inPlaced, rfl⟩) fun v other => ?_
    obtain ⟨b', inPlaced', same⟩ := mem_map.mp other
    obtain ⟨hashes, rfl⟩ := Prod.mk.inj same
    have one : b'.1 = b.1 := injective (mem b' inPlaced') (mem b inPlaced) hashes
    rw [(identified b inPlaced).2 b' inPlaced' one]
  intro r inView
  rcases Finset.mem_union.mp inView with old | new
  · obtain ⟨u, found⟩ := backed r old
    obtain ⟨h, hKnown, rfl, path, held, rfl⟩ := translates u r found
    by_cases stored : ∃ b ∈ cache.placed bs covers e, f b.1 = f h
    · obtain ⟨b, inPlaced, same⟩ := stored
      have one : b.1 = h := injective (mem b inPlaced) hKnown same
      subst one
      exact ⟨f b.1, by rw [bound b inPlaced, (identified b inPlaced).1 path held]⟩
    · refine ⟨f h, ?_⟩
      rw [get?_assign_of_not_mem, found]
      intro v mapped
      obtain ⟨b, inPlaced, same⟩ := mem_map.mp mapped
      exact stored ⟨b, inPlaced, (Prod.mk.inj same).1⟩
  · obtain ⟨b, inPlaced, rfl⟩ := mem_map.mp (mem_toFinset.mp new)
    exact ⟨f b.1, bound b inPlaced⟩

end

section
variable (translates : Translates xxh3_64 f g known t.map cache) (injective : Set.InjOn f known)
  (mem : ∀ h ∈ e.hashes, h ∈ known) (reported : Reported bs e covers)
include translates injective mem reported

theorem Translates.event (identified : cache.Identified bs covers e) :
    Translates xxh3_64 f g known (t.event xxh3_64 bs (e.map f g)).map (cache.step bs e covers) := by
  cases e with
  | cleared =>
    intro u r found
    simp [Event.map, Tally.event] at found
  | removed hs =>
    simp only [Tally.event, foldl_dropBlock_snd]
    exact translates.eraseAll hs
  | stored =>
    obtain ⟨t', after, effect⟩ := translates.stored injective mem
    rw [after]
    cases effect with
    | skipped orphaned reason => exact translates.extend identified
    | indexed _ _ indexable parent _ entries =>
      obtain ⟨aligned, rfl⟩ := reported indexable
      simp only [entries aligned, EngineCache.step, Event.span,
        EngineCache.placed_stored_of_parent parent]
      refine translates.assign _ fun b inZip => ?_
      exact mem b.1 (mem_append_left _ (of_mem_zip inZip).1)

theorem Translates.view_event {r : UInt64} (found : r ∈ (t.event xxh3_64 bs (e.map f g)).view) :
    r ∈ t.view ∨ ∃ b ∈ cache.placed bs covers e, r = readChain xxh3_64 g b.2 := by
  cases e with
  | cleared => simp [Event.map, Tally.event] at found
  | removed hs => exact .inl (foldl_dropBlock_fst_subset _ _ found)
  | stored hs _ ts =>
    obtain ⟨t', after, effect⟩ := translates.stored injective mem
    rw [after] at found
    cases effect with
    | skipped orphaned reason => exact .inl found
    | indexed path _ indexable parent =>
      obtain ⟨aligned, rfl⟩ := reported indexable
      rcases Finset.mem_union.mp found with old | new
      · exact .inl old
      · obtain ⟨p, inPaths, rfl⟩ := mem_map.mp (mem_toFinset.mp new)
        rw [Event.span, EngineCache.placed_stored_of_parent parent]
        rw [← map_snd_zip_rootPaths _ _ _ aligned] at inPaths
        obtain ⟨b, inZip, rfl⟩ := mem_map.mp inPaths
        exact .inr ⟨b, inZip, rfl⟩

theorem Translates.backed_event
    (identified : cache.Identified bs covers e) (backed : Backed t.view t.map) :
    Backed (t.event xxh3_64 bs (e.map f g)).view (t.event xxh3_64 bs (e.map f g)).map := by
  cases e with
  | cleared =>
    intro r inView
    simp [Event.map, Tally.event] at inView
  | removed hs => exact backed.dropBlocks (hs.map f)
  | stored hs ph ts kind =>
    obtain ⟨t', after, effect⟩ := translates.stored injective mem
    rw [after]
    cases effect with
    | skipped orphaned reason => exact backed
    | indexed path _ indexable parent _ entries =>
      obtain ⟨aligned, rfl⟩ := reported indexable
      have placed : cache.placed bs (List.range (ts.length / bs)) (.stored hs ph ts kind) =
          hs.zip (rootPaths path (fullBlocks bs ts)) :=
        EngineCache.placed_stored_of_parent parent kind
      have assigned := translates.backed_assign injective
        (fun b inPlaced => mem b.1 (mem_append_left _ ?_)) identified backed
      · rw [Event.span, placed] at assigned
        simp only [entries aligned]
        rwa [← Function.comp_def, ← map_map, map_snd_zip_rootPaths _ _ _ aligned] at assigned
      · rw [Event.span, placed] at inPlaced
        exact (of_mem_zip inPlaced).1

end

end Translation

end Infera.Router
