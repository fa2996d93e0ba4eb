import Mathlib

/-! Insertion-ordered dictionaries. A `Dict` is an association list whose keys
are distinct by construction; assignment to a present key keeps its position
and assignment to a fresh key appends, so the order of `items` is insertion
order. `popFirst` takes the oldest item. Every lookup lemma goes through
`get?_eq_some_iff`, which identifies lookup with membership. -/

namespace Infera
open List Function

structure Dict (α : Type*) (β : Type*) where
  items : List (α × β)
  nodupKeys : (items.map Prod.fst).Nodup

namespace Dict
variable {α β : Type*} (d : Dict α β) {γ : Type*}

def empty : Dict α β := ⟨[], List.nodup_nil⟩

def keys (d : Dict α β) : List α := d.items.map Prod.fst

def values (d : Dict α β) : List β := d.items.map Prod.snd

/-- Keep the items whose key and value satisfy `p`, in order. -/
def filter (p : α → β → Bool) (d : Dict α β) : Dict α β :=
  ⟨d.items.filter (fun kv => p kv.1 kv.2), (List.filter_sublist.map Prod.fst).nodup d.nodupKeys⟩

def mapValues (f : α → β → γ) (d : Dict α β) : Dict α γ :=
  ⟨d.items.map fun kv => (kv.1, f kv.1 kv.2), by
    rw [List.map_map]
    exact d.nodupKeys⟩

def mapKeys (f : α → γ) (injective : Function.Injective f) : Dict γ β :=
  ⟨d.items.map (Prod.map f id), by
    have keys : (d.items.map (Prod.map f id)).map Prod.fst = (d.items.map Prod.fst).map f := by simp
    rw [keys]
    exact d.nodupKeys.map injective⟩

def popFirst (d : Dict α β) : Option ((α × β) × Dict α β) :=
  match h : d.items with
  | [] => none
  | kv :: rest => some (kv, ⟨rest, by
      have nodup := d.nodupKeys
      rw [h, List.map_cons] at nodup
      exact nodup.of_cons⟩)

section
variable {k : α} {v : β} {rest : Dict α β} (popped : d.popFirst = some ((k, v), rest))
include popped

theorem popFirst_eq_some : d.items = (k, v) :: rest.items := by
  unfold popFirst at popped
  split at popped
  · simp at popped
  · rename_i kv tail items
    simp only [Option.some.injEq, Prod.mk.injEq] at popped
    rw [items, popped.1, ← popped.2]

theorem values_popFirst : d.values = v :: rest.values := by
  rw [values, d.popFirst_eq_some popped]
  rfl

end

theorem popFirst_eq_none (popped : d.popFirst = none) : d.items = [] := by
  unfold popFirst at popped
  split at popped
  · assumption
  · simp at popped

variable [DecidableEq α]

variable (d : Dict α β) (k : α) (v : β) {items : List (α × β)} (p : α → β → Bool) (ks : List α)

def get? (k : α) : Option β := d.items.lookup k

def contains (k : α) : Bool := (d.get? k).isSome

def erase (k : α) : Dict α β := d.filter fun k' _ => k' ≠ k

def eraseAll : Dict α β := ks.foldl erase d

theorem map_fst_replace (items : List (α × β)) :
    (items.map fun kv => if kv.1 = k then (k, v) else kv).map Prod.fst = items.map Prod.fst := by
  rw [map_map]
  apply map_congr_left
  intro kv _
  by_cases h : kv.1 = k <;> simp [h]

/-- Assign in place when the key is present, append otherwise. -/
def set (k : α) (v : β) : Dict α β :=
  if h : k ∈ d.items.map Prod.fst then
    ⟨d.items.map fun kv => if kv.1 = k then (k, v) else kv, by
      rw [map_fst_replace]; exact d.nodupKeys⟩
  else
    ⟨d.items ++ [(k, v)], by
      rw [List.map_append]
      exact d.nodupKeys.append (List.nodup_singleton k) (by simpa using h)⟩

def assign (items : List (α × β)) : Dict α β :=
  items.foldl (fun d kv => d.set kv.1 kv.2) d

theorem get?_eq_some_iff : d.get? k = some v ↔ (k, v) ∈ d.items := by
  obtain ⟨items, nodup⟩ := d
  simp only [get?]
  induction items with
  | nil => simp
  | cons kv rest ih =>
    obtain ⟨k', v'⟩ := kv
    rw [map_cons, nodup_cons] at nodup
    by_cases same : k = k'
    · subst same
      have fresh : (k, v) ∉ rest := fun mem => nodup.1 (mem_map.mpr ⟨_, mem, rfl⟩)
      simp [fresh, eq_comm]
    · have differ : (k == k') = false := by simpa using same
      simp [lookup_cons, differ, same, ih nodup.2]

theorem get?_eq_none_iff : d.get? k = none ↔ k ∉ d.keys := by
  constructor
  · intro absent mem
    obtain ⟨⟨k', v⟩, item, rfl⟩ := mem_map.mp mem
    have present := (d.get?_eq_some_iff k' v).mpr item
    simp [absent] at present
  · intro fresh
    cases found : d.get? k with
    | none => rfl
    | some v =>
      exact absurd (mem_map_of_mem (f := Prod.fst) ((d.get?_eq_some_iff k v).mp found)) fresh

theorem mem_keys_iff {d : Dict α β} {k : α} : k ∈ d.keys ↔ ∃ v, d.get? k = some v := by
  rw [← not_iff_not, ← get?_eq_none_iff, ← Option.ne_none_iff_exists', not_not]

theorem mem_values_iff {d : Dict α β} {v : β} : v ∈ d.values ↔ ∃ k, d.get? k = some v := by
  simp only [values, mem_map, get?_eq_some_iff]
  constructor
  · rintro ⟨⟨k, _⟩, item, rfl⟩
    exact ⟨k, item⟩
  · rintro ⟨k, item⟩
    exact ⟨(k, v), item, rfl⟩

@[simp] theorem get?_empty : (empty : Dict α β).get? k = none := rfl

@[simp] theorem contains_eq_true_iff : d.contains k = true ↔ ∃ v, d.get? k = some v := by
  simp [contains, Option.isSome_iff_exists]

@[simp] theorem get?_filter_eq_some_iff {d : Dict α β} {p : α → β → Bool} {k : α} {v : β} :
    (d.filter p).get? k = some v ↔ d.get? k = some v ∧ p k v = true := by
  simp [get?_eq_some_iff, filter]

theorem get?_filter (d : Dict α β) (k : α) : (d.filter p).get? k = (d.get? k).filter (p k) := by
  ext v
  rw [get?_filter_eq_some_iff, Option.filter_eq_some_iff]

theorem get?_filter_of_true {p : α → β → Bool} {k : α} (keep : ∀ v, p k v = true) :
    (d.filter p).get? k = d.get? k := by
  ext v
  rw [get?_filter_eq_some_iff, keep v, eq_self, and_true]

theorem get?_erase (k k' : α) : (d.erase k).get? k' = if k' = k then none else d.get? k' := by
  ext v
  rw [erase]
  by_cases same : k' = k <;> simp [same]

@[simp] theorem get?_erase_self : (d.erase k).get? k = none := by
  simp [get?_erase]

section
variable {d : Dict α β} {k k' : α}

theorem get?_erase_of_ne (differ : k' ≠ k) : (d.erase k).get? k' = d.get? k' := by
  simp [get?_erase, differ]

theorem get?_of_erase {v : β} (found : (d.erase k).get? k' = some v) :
    k' ≠ k ∧ d.get? k' = some v := by
  rw [get?_erase] at found
  split_ifs at found with same
  exact ⟨same, found⟩

theorem contains_of_erase (still : (d.erase k).contains k' = true) : d.contains k' = true := by
  rw [contains, get?_erase] at still
  split_ifs at still
  · cases still
  · exact still

end

theorem get?_set (k' : α) : (d.set k v).get? k' = if k' = k then some v else d.get? k' := by
  ext w
  rw [get?_eq_some_iff]
  unfold set
  split_ifs with mem same same
  · subst same
    obtain ⟨⟨k, u⟩, item, rfl⟩ := mem_map.mp mem
    simp only [mem_map, Option.some.injEq]
    constructor
    · rintro ⟨⟨k', u'⟩, _, image⟩
      by_cases h : k' = k <;> simp_all
    · rintro rfl
      exact ⟨(k, u), item, by simp⟩
  · rw [get?_eq_some_iff]
    simp only [mem_map]
    constructor
    · rintro ⟨⟨k₁, u⟩, item, image⟩
      by_cases h : k₁ = k <;> simp_all
    · intro item
      exact ⟨(k', w), item, by simp [same]⟩
  · subst same
    have fresh : ∀ u, (k', u) ∉ d.items := fun u item =>
      mem (mem_map_of_mem (f := Prod.fst) item)
    simp [fresh, eq_comm]
  · rw [get?_eq_some_iff]
    simp [same]

@[simp] theorem get?_set_self : (d.set k v).get? k = some v := by
  simp [get?_set]

theorem get?_set_cases {d : Dict α β} {k k' : α} {v w : β} (found : (d.set k v).get? k' = some w) :
    k' = k ∧ v = w ∨ k' ≠ k ∧ d.get? k' = some w := by
  rw [get?_set] at found
  split_ifs at found with same
  · exact .inl ⟨same, by simpa using found⟩
  · exact .inr ⟨same, found⟩

theorem contains_of_set {d : Dict α β} {k k' : α} {v : β} (held : (d.set k v).contains k' = true) :
    k' = k ∨ d.contains k' = true := by
  rw [contains, get?_set] at held
  split_ifs at held with same
  · exact .inl same
  · exact .inr held

theorem key_unique_set {d : Dict α β} {k : α} {v : β} (f : β → γ)
    (alone : ∀ k' w, k' ≠ k → d.get? k' = some w → f w ≠ f v)
    (unique : ∀ k₁ k₂ v₁ v₂, d.get? k₁ = some v₁ → d.get? k₂ = some v₂ → f v₁ = f v₂ → k₁ = k₂)
    (k₁ k₂ : α) (v₁ v₂ : β) (found₁ : (d.set k v).get? k₁ = some v₁)
    (found₂ : (d.set k v).get? k₂ = some v₂) (same : f v₁ = f v₂) : k₁ = k₂ := by
  rcases get?_set_cases found₁ with ⟨rfl, rfl⟩ | ⟨other₁, old₁⟩ <;>
    rcases get?_set_cases found₂ with ⟨rfl, rfl⟩ | ⟨other₂, old₂⟩
  · rfl
  · exact absurd same.symm (alone k₂ v₂ other₂ old₂)
  · exact absurd same (alone k₁ v₁ other₁ old₁)
  · exact unique k₁ k₂ v₁ v₂ old₁ old₂ same

theorem get?_set_of_ne {d : Dict α β} {k k' : α} {v : β} (differ : k' ≠ k) :
    (d.set k v).get? k' = d.get? k' := by
  simp [get?_set, differ]

theorem get?_set_eq_update : (d.set k v).get? = update d.get? k (some v) := by
  funext k'
  rw [get?_set, update_apply]

theorem get?_erase_eq_update : (d.erase k).get? = update d.get? k none := by
  funext k'
  rw [get?_erase, update_apply]

theorem items_set_of_fresh (fresh : d.get? k = none) : (d.set k v).items = d.items ++ [(k, v)] := by
  have absent : k ∉ d.items.map Prod.fst := (d.get?_eq_none_iff k).mp fresh
  simp [set, dif_neg absent]

theorem perm_erase {k : α} {v : β} (found : d.get? k = some v) :
    d.items.Perm ((k, v) :: (d.erase k).items) := by
  obtain ⟨items, nodup⟩ := d
  rw [get?_eq_some_iff] at found
  simp only [erase, filter] at found ⊢
  induction items with
  | nil => simp at found
  | cons kv rest ih =>
    obtain ⟨k', v'⟩ := kv
    rw [map_cons, nodup_cons] at nodup
    by_cases same : k' = k
    · subst same
      have value : v' = v := by
        rcases mem_cons.mp found with eq | mem
        · exact (Prod.mk.inj eq).2.symm
        · exact absurd (mem_map.mpr ⟨_, mem, rfl⟩) nodup.1
      have untouched : rest.filter (fun kv => decide (kv.1 ≠ k')) = rest := by
        rw [filter_eq_self]
        intro kv mem
        have : kv.1 ≠ k' := fun eq => nodup.1 (mem_map.mpr ⟨kv, mem, eq⟩)
        simpa using this
      subst value
      simp only [ne_eq, not_true_eq_false, decide_false, Bool.false_eq_true,
        not_false_eq_true, filter_cons_of_neg]
      rw [show rest.filter (fun kv => decide (¬kv.1 = k')) = rest from untouched]
    · have inRest : (k, v) ∈ rest := by
        rcases mem_cons.mp found with eq | mem
        · exact absurd (Prod.mk.inj eq).1.symm same
        · exact mem
      have step := ih nodup.2 inRest
      simp only [ne_eq, same, not_false_eq_true, decide_true, filter_cons_of_pos]
      exact (List.Perm.cons _ step).trans (List.Perm.swap _ _ _)

theorem values_perm_erase {k : α} {v : β} (found : d.get? k = some v) :
    d.values.Perm (v :: (d.erase k).values) :=
  (d.perm_erase found).map Prod.snd

theorem values_set_of_fresh (fresh : d.get? k = none) : (d.set k v).values = d.values ++ [v] := by
  rw [values, d.items_set_of_fresh k v fresh, map_append]
  rfl

theorem erase_set : (d.set k v).erase k = d.erase k := by
  have items : ((d.set k v).erase k).items = (d.erase k).items := by
    simp only [erase, filter]
    unfold set
    split_ifs with present
    · simp only [filter_map]
      conv_rhs => rw [← map_id (List.filter _ d.items)]
      have kept : ∀ kv : α × β, (decide ((if kv.1 = k then (k, v) else kv).1 ≠ k)) =
          decide (kv.1 ≠ k) := fun kv => by by_cases h : kv.1 = k <;> simp [h]
      simp only [comp_def, kept]
      refine map_congr_left fun kv mem => ?_
      have differ : kv.1 ≠ k := by simpa using (mem_filter.mp mem).2
      simp [differ]
    · simp
  cases h : (d.set k v).erase k
  simp_all

theorem items_set_of_present (present : k ∈ d.keys) :
    (d.set k v).items = d.items.map fun kv => if kv.1 = k then (k, v) else kv := by
  rw [set, dif_pos (show k ∈ d.items.map Prod.fst from present)]

theorem set_set (v v' : β) : (d.set k v).set k v' = d.set k v' := by
  have items : ((d.set k v).set k v').items = (d.set k v').items := by
    have still : k ∈ (d.set k v).keys := mem_keys_iff.mpr ⟨v, d.get?_set_self k v⟩
    rw [items_set_of_present _ k v' still]
    by_cases present : k ∈ d.keys
    · rw [items_set_of_present d k v present, items_set_of_present d k v' present, map_map]
      refine map_congr_left fun kv _ => ?_
      by_cases own : kv.1 = k <;> simp [own]
    · have fresh := (d.get?_eq_none_iff k).mpr present
      have kept : (d.items.map fun kv => if kv.1 = k then (k, v') else kv) = d.items := by
        conv_rhs => rw [← map_id d.items]
        refine map_congr_left fun kv mem => if_neg fun own => ?_
        exact present (mem_map.mpr ⟨kv, mem, own⟩)
      rw [items_set_of_fresh d k v fresh, items_set_of_fresh d k v' fresh, map_append, kept]
      simp
  cases h : (d.set k v).set k v'
  simp_all

theorem set_comm {k k' : α} (differ : k ≠ k') (present : k ∈ d.keys) (v v' : β) :
    (d.set k v).set k' v' = (d.set k' v').set k v := by
  have keys : ∀ (d : Dict α β) (k : α) (v : β), k ∈ d.keys → (d.set k v).keys = d.keys := by
    intro d k v present
    rw [keys, items_set_of_present d k v present, map_fst_replace]
    rfl
  have still : k ∈ (d.set k' v').keys :=
    mem_keys_iff.mpr (by
      rw [get?_set_of_ne differ]
      exact mem_keys_iff.mp present)
  have items : ((d.set k v).set k' v').items = ((d.set k' v').set k v).items := by
    rw [items_set_of_present _ k v still]
    by_cases other : k' ∈ d.keys
    · have there : k' ∈ (d.set k v).keys := by rwa [keys d k v present]
      rw [items_set_of_present _ k' v' there, items_set_of_present d k v present,
        items_set_of_present d k' v' other, map_map, map_map]
      refine map_congr_left fun kv _ => ?_
      by_cases first : kv.1 = k
      · simp [first, differ]
      · by_cases second : kv.1 = k' <;> simp [first, second, differ.symm]
    · have fresh := (d.get?_eq_none_iff k').mpr other
      have absent : (d.set k v).get? k' = none := by rwa [get?_set_of_ne differ.symm]
      rw [items_set_of_fresh _ k' v' absent, items_set_of_present d k v present,
        items_set_of_fresh d k' v' fresh]
      simp [differ.symm]
  cases h : (d.set k v).set k' v'
  simp_all

theorem values_perm_set : (d.set k v).values.Perm (v :: (d.erase k).values) := by
  have split := (d.set k v).values_perm_erase (d.get?_set_self k v)
  rwa [erase_set] at split

theorem key_unique (f : β → γ) (nodup : (d.values.map f).Nodup)
    {k k' : α} {v v' : β} (found : d.get? k = some v) (found' : d.get? k' = some v')
    (same : f v = f v') : k = k' := by
  rw [values, map_map] at nodup
  have eq := inj_on_of_nodup_map nodup ((d.get?_eq_some_iff k v).mp found)
    ((d.get?_eq_some_iff k' v').mp found') same
  exact (Prod.mk.inj eq).1

theorem erase_of_absent {k : α} (absent : d.get? k = none) : d.erase k = d := by
  obtain ⟨items, nodup⟩ := d
  rw [get?_eq_none_iff] at absent
  simp only [erase, filter, mk.injEq, filter_eq_self]
  intro kv mem
  have : kv.1 ≠ k := fun eq => absent (mem_map.mpr ⟨kv, mem, eq⟩)
  simpa using this

section
variable (d : Dict α (List β))

/-- `d[k].append(x)` of a `defaultdict(list)`. -/
def push (k : α) (x : β) : Dict α (List β) :=
  d.set k ((d.get? k).getD [] ++ [x])

/-- Every element under its key. -/
def pairs : List (α × β) := d.items.flatMap fun kv => kv.2.map (kv.1, ·)

theorem pairs_push (x : β) : (d.push k x).pairs.Perm ((k, x) :: d.pairs) := by
  have pushed := (d.push k x).perm_erase (get?_set_self _ k _)
  rw [push, erase_set] at pushed
  refine (pushed.flatMap_right _).trans ?_
  cases found : d.get? k with
  | none => simp [pairs, d.erase_of_absent found]
  | some xs =>
    refine List.Perm.trans ?_ (((d.perm_erase found).flatMap_right _).symm.cons _)
    simp

end

theorem pairs_foldl_push (key : γ → α) (item : γ → β) (xs : List γ) (d : Dict α (List β)) :
    (xs.foldl (fun d x => d.push (key x) (item x)) d).pairs.Perm
      (xs.map (fun x => (key x, item x)) ++ d.pairs) := by
  induction xs generalizing d with
  | nil => exact .rfl
  | cons x xs ih =>
    exact (ih _).trans (((d.pairs_push _ _).append_left _).trans perm_middle)

theorem get?_mapValues (f : α → β → γ) (d : Dict α β) (k : α) :
    (d.mapValues f).get? k = (d.get? k).map (f k) := by
  ext w
  simp only [get?_eq_some_iff, mapValues, mem_map, Option.map_eq_some_iff, Prod.mk.injEq]
  constructor
  · rintro ⟨⟨k', v⟩, item, rfl, rfl⟩
    exact ⟨v, item, rfl⟩
  · rintro ⟨v, item, rfl⟩
    exact ⟨(k, v), item, rfl, rfl⟩

theorem get?_popFirst {k : α} {v : β} {rest : Dict α β}
    (popped : d.popFirst = some ((k, v), rest)) (k' : α) :
    rest.get? k' = if k' = k then none else d.get? k' := by
  have items := d.popFirst_eq_some popped
  have nodup := d.nodupKeys
  rw [items, map_cons, nodup_cons] at nodup
  ext w
  split_ifs with same
  · subst same
    rw [get?_eq_some_iff]
    have fresh : (k', w) ∉ rest.items := fun mem => nodup.1 (mem_map.mpr ⟨_, mem, rfl⟩)
    simp [fresh]
  · rw [get?_eq_some_iff, get?_eq_some_iff, items]
    simp [same]

theorem get?_eraseAll (k : α) : (d.eraseAll ks).get? k = if k ∈ ks then none else d.get? k := by
  induction ks generalizing d with
  | nil => simp [eraseAll]
  | cons k' ks ih =>
    rw [eraseAll, foldl_cons, ← eraseAll, ih, get?_erase]
    by_cases same : k = k' <;> simp [same]

@[simp] theorem eraseAll_empty : (empty : Dict α β).eraseAll ks = empty := by
  induction ks with
  | nil => rfl
  | cons k ks ih =>
    exact ih

theorem get?_assign_eq_some {d : Dict α β} {k : α} {v : β}
    (found : (d.assign items).get? k = some v) : (k, v) ∈ items ∨ d.get? k = some v := by
  induction items generalizing d with
  | nil => exact .inr found
  | cons kv rest ih =>
    rcases ih found with mem | before
    · exact .inl (.tail _ mem)
    · rcases get?_set_cases before with ⟨rfl, rfl⟩ | ⟨-, before⟩
      · exact .inl mem_cons_self
      · exact .inr before

theorem get?_assign_of_mem {d : Dict α β} {k : α} {v : β}
    (mem : (k, v) ∈ items) (functional : ∀ v', (k, v') ∈ items → v' = v) :
    (d.assign items).get? k = some v := by
  induction items using List.reverseRecOn generalizing d with
  | nil => simp at mem
  | append_singleton rest last ih =>
    rw [assign, foldl_append, foldl_cons, foldl_nil, get?_set]
    split_ifs with same
    · rw [functional last.2 (by simp [same])]
    · have inRest : (k, v) ∈ rest := by
        rcases mem_append.mp mem with before | at_last
        · exact before
        · exact absurd (congrArg Prod.fst (mem_singleton.mp at_last)) same
      exact ih inRest fun v' mem' => functional v' (mem_append_left _ mem')

theorem get?_assign_of_not_mem {d : Dict α β} {k : α}
    (fresh : ∀ v, (k, v) ∉ items) : (d.assign items).get? k = d.get? k := by
  induction items generalizing d with
  | nil => rfl
  | cons kv rest ih =>
    have differ : k ≠ kv.1 := fun same => fresh kv.2 (by simp [same])
    rw [assign, foldl_cons, ← assign, ih fun v mem => fresh v (.tail _ mem)]
    exact get?_set_of_ne differ

section MapKeys
variable [DecidableEq γ] (f : α → γ) (injective : Function.Injective f)

theorem get?_mapKeys : (d.mapKeys f injective).get? (f k) = d.get? k := by
  ext v
  simp [get?_eq_some_iff, mapKeys, injective.eq_iff]

theorem mapKeys_set : (d.set k v).mapKeys f injective = (d.mapKeys f injective).set (f k) v := by
  have present : f k ∈ (d.mapKeys f injective).items.map Prod.fst ↔ k ∈ d.items.map Prod.fst := by
    simp [mapKeys, injective.eq_iff]
  simp only [set, present]
  split_ifs
  · simp only [mapKeys, map_map, Dict.mk.injEq]
    refine map_congr_left fun kv _ => ?_
    by_cases same : kv.1 = k <;> simp [same, injective.eq_iff]
  · simp [mapKeys]

theorem mapKeys_erase : (d.erase k).mapKeys f injective = (d.mapKeys f injective).erase (f k) := by
  simp [mapKeys, erase, filter, filter_map, comp_def, injective.eq_iff]

end MapKeys

end Dict
end Infera
