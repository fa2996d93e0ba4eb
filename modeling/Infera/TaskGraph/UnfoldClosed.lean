import Infera.TaskGraph.Unfold

/-! When unfolding gives a closed graph. The load checks say that every entry
names a closure, that a leaf has an agent, and that `froms` points to earlier
entries, so unfolding does not fail. Whether the kinds are supplied they do not
say. The invariant of the walk relates the slot a kind resolves to with the
producer that the derived edges take it from. -/

namespace Infera.TaskGraph
open Function List
variable {b : Builder} {doc : ClosureDoc} {x : Expansion} {task : GraphTask} {next : HandoffId}
  {regs : Registries} {name : String} {entry : SubgraphEntry} {spec : TaskSpec}
  {kindAt : HandoffId → String} {slots : Dict String HandoffId} {hid : HandoffId}
  {out : List HandoffId × Wiring} {producerOf : Dict String ℕ} {placed : List SubgraphEntry}

theorem length_derivedEdgesFrom (specs : Dict String TaskSpec) (entries : List SubgraphEntry) :
    ∀ producerOf index, (derivedEdgesFrom specs producerOf index entries).length =
      entries.length := by
  induction entries with
  | nil => exact fun _ _ => rfl
  | cons entry rest ih =>
    intro producerOf index
    rw [derivedEdgesFrom, length_cons, ih, length_cons]

theorem indexOf_closure {entries : List SubgraphEntry} {i : ℕ}
    (found : (indexOf entries).get? name = some i) :
    ∃ entry, entries[i]? = some entry ∧ entry.closure = name := by
  rcases Dict.get?_assign_eq_some found with listed | absent
  · obtain ⟨⟨entry, j⟩, given, same⟩ := mem_map.mp listed
    cases same
    exact ⟨entry, mk_mem_zipIdx_iff_getElem?.mp given, rfl⟩
  · cases absent

theorem froms_earlier {specs : Dict String TaskSpec}
    (clean : ∀ problem ∈ checkSubgraphFroms name spec specs, problem.fatal = false)
    {i : ℕ} (listed : (subgraphEntries spec)[i]? = some entry) :
    ∀ f ∈ entry.froms, ∃ earlier ∈ (subgraphEntries spec).take i, earlier.closure = f := by
  intro f declared
  unfold checkSubgraphFroms at clean
  dsimp only at clean
  split_ifs at clean with distinct
  · set entries := subgraphEntries spec
    set edges := derivedEdges entries specs
    have bound : i < entries.length := (List.getElem?_eq_some_iff.mp listed).1
    have inRange : i < edges.length := by
      rw [show edges.length = entries.length from length_derivedEdgesFrom specs entries _ _]
      exact bound
    have given : ((entry, edges[i]), i) ∈ (entries.zip edges).zipIdx := by
      rw [mk_mem_zipIdx_iff_getElem?, getElem?_zip_eq_some]
      exact ⟨listed, getElem?_eq_getElem inRange⟩
    have resolves : ∀ problem ∈ checkFromsResolve name entry i (indexOf entries),
        problem.fatal = false := by
      intro problem raised
      exact clean problem (mem_append_left _ (mem_flatMap.mpr ⟨_, given,
        mem_append_left _ (mem_append_left _ raised)⟩))
    cases found : (indexOf entries).get? f with
    | none =>
      have := resolves ⟨name, s!"$.subgraph[{i}].froms", "froms_resolves", true⟩
        (mem_flatMap.mpr ⟨f, declared, by rw [found]; exact mem_singleton_self _⟩)
      cases this
    | some target =>
      by_cases late : target ≥ i
      · have := resolves ⟨name, s!"$.subgraph[{i}].froms", "froms_order", true⟩
          (mem_flatMap.mpr ⟨f, declared, by
            rw [found]
            dsimp only
            rw [if_pos late]
            exact mem_singleton_self _⟩)
        cases this
      · obtain ⟨earlier, at_target, same⟩ := indexOf_closure found
        refine ⟨earlier, ?_, same⟩
        have inTake : (entries.take i)[target]? = some earlier := by
          rw [getElem?_take_of_lt (by omega), at_target]
        exact mem_of_getElem? inTake
  · exact absurd (clean _ (mem_singleton_self _)) (by simp)

section
variable (accepted : Accepted regs) (found : regs.closures.get? name = some doc)
include accepted found

theorem Accepted.graph :
    ∀ problem ∈ checkSubgraphFroms name doc.task (checkClosures regs []).1,
      problem.fatal = false := by
  intro problem given
  have keyed := accepted.taskSpecs found
  refine accepted.2 problem (mem_flatMap.mpr ⟨name, ?_, ?_⟩)
  · exact mem_filter.mpr ⟨(mem_sortedNames _ _).mpr ⟨_, keyed⟩, by simp⟩
  · rw [keyed]
    exact mem_append_right _ given

theorem Accepted.agentSpec :
    ∃ agent, agentSpecFor doc = .ok agent := by
  unfold agentSpecFor
  by_cases named : agentOf doc = ""
  · have inner : doc.task.subgraph ≠ [] := fun leaf => accepted.agent found leaf named
    rw [if_neg (not_not_intro named), if_pos (by simpa using inner)]
    exact ⟨_, rfl⟩
  · rw [if_pos named]
    exact ⟨_, rfl⟩

end

/-- An entry that can be placed after these: it names a closure, its agent is known, `froms`
points back, and what it consumes is at hand. -/
structure Ready (regs : Registries) (spec : TaskSpec) (earlier : List SubgraphEntry)
    (entry : SubgraphEntry) (doc : ClosureDoc) : Prop where
  found : regs.closures.get? entry.closure = some doc
  agent : ∃ agent, agentSpecFor doc = .ok agent
  froms : ∀ f ∈ entry.froms, ∃ e ∈ earlier, e.closure = f
  consumed : ∀ kind ∈ doc.task.inputs, kind ∈ spec.inputs ∨
    ∃ e ∈ earlier, kind ∈ kindsOf regs TaskSpec.outputs e

/-- The walk has placed these entries, and the derived edges have these producers. -/
structure Wired (regs : Registries) (task : GraphTask) (mine : Dict String HandoffId)
    (placed : List SubgraphEntry) (producerOf : Dict String ℕ) (b : Builder) : Prop where
  length : b.made.length = placed.length
  outside : ∀ kind, producerOf.get? kind = none →
    b.wiring.available.get? kind = (firstOfKind task.kinds task.inputs).get? kind
  inside : ∀ kind j, producerOf.get? kind = some j → ∃ u, b.made[j]? = some u ∧
    ∃ hid ∈ u.outputs, b.wiring.available.get? kind = some hid
  produced : ∀ entry ∈ placed, ∀ kind ∈ kindsOf regs TaskSpec.outputs entry,
    (producerOf.get? kind).isSome
  named : ∀ entry ∈ placed, (b.latestNamed.get? entry.closure).isSome
  closed : ∀ (i : ℕ) (t : GraphTask), b.made[i]? = some t → ∀ hid ∈ t.inputs,
    hid ∈ task.inputs ∨ ∃ (j : ℕ) (u : GraphTask),
      j < i ∧ b.made[j]? = some u ∧ hid ∈ u.outputs ∧ u.id ∈ t.dependsOn
  exports : ∀ entry ∈ placed, entry.isEnd = true → ∀ kind ∈ kindsOf regs TaskSpec.outputs entry,
    ∀ hid, mine.get? kind = some hid → ∃ t ∈ b.made, t.isEnd = true ∧ hid ∈ t.outputs

theorem Builder.add_made (b : Builder) (x : Expansion) (index : ℕ) (entry : SubgraphEntry)
    (doc : ClosureDoc) (dependsOn : List TaskId) (agentSpec : String) :
    ∃ t, (b.add x index entry doc dependsOn agentSpec).made = b.made ++ [t] ∧
      t.inputs = (consume doc.task.inputs b.wiring).1 ∧
      t.outputs = (supply x.mine entry.isEnd doc.task.outputs
        (consume doc.task.inputs b.wiring).2).1 ∧ t.dependsOn = dependsOn ∧ t.isEnd = entry.isEnd :=
  ⟨_, rfl, rfl, rfl, rfl, rfl⟩

section
variable (wired : Wired regs task x.mine placed producerOf b)
include wired

theorem Wired.add (found : regs.closures.get? entry.closure = some doc)
    (known : ∀ kind ∈ doc.task.inputs, (b.wiring.available.get? kind).isSome)
    {dependsOn : List TaskId} (edges : ((edgesOf producerOf doc.task.inputs).filterMap
      fun edge => b.made[edge.producerIndex]?.map (·.id)) ⊆ dependsOn) (agentSpec : String) :
    Wired regs task x.mine (placed ++ [entry])
      (produce producerOf placed.length doc.task.outputs)
      (b.add x placed.length entry doc dependsOn agentSpec) := by
  have outputs : kindsOf regs TaskSpec.outputs entry = doc.task.outputs := by
    rw [kindsOf, found]
    rfl
  obtain ⟨same, resolved⟩ := consume_of_available known
  obtain ⟨t, made, inputs, written, depends, isEnd⟩ :=
    b.add_made x placed.length entry doc dependsOn agentSpec
  have available : (b.add x placed.length entry doc dependsOn agentSpec).wiring.available =
      (supply x.mine entry.isEnd doc.task.outputs b.wiring).2.available := by
    simp [Builder.add, same]
  rw [same] at written
  have supplied := supply_available x.mine entry.isEnd doc.task.outputs b.wiring
  have earlier : ∀ {i : ℕ} {u : GraphTask}, b.made[i]? = some u → (b.made ++ [t])[i]? = some u := by
    intro i u at_i
    rw [List.getElem?_append_left (List.getElem?_eq_some_iff.mp at_i).1, at_i]
  have last : (b.made ++ [t])[placed.length]? = some t := by
    rw [← wired.length, getElem?_concat_length]
  constructor
  case length => rw [made, length_append, length_append, wired.length]; rfl
  case outside =>
    intro kind unproduced
    rw [get?_produce] at unproduced
    split_ifs at unproduced with own
    rw [available, (supplied kind).1 own]
    exact wired.outside kind unproduced
  case inside =>
    intro kind j producer
    rw [get?_produce] at producer
    rw [made, available]
    split_ifs at producer with own
    · cases producer
      obtain ⟨hid, inside, resolves⟩ := (supplied kind).2 own
      exact ⟨t, last, hid, written ▸ inside, resolves⟩
    · obtain ⟨u, at_j, hid, inside, resolves⟩ := wired.inside kind j producer
      exact ⟨u, earlier at_j, hid, inside, by rw [(supplied kind).1 own, resolves]⟩
  case produced =>
    intro e listed kind output
    rw [get?_produce]
    split_ifs with own
    · rfl
    · rcases mem_append.mp listed with before | at_last
      · exact wired.produced e before kind output
      · rw [mem_singleton.mp at_last, outputs] at output
        exact absurd output own
  case named =>
    intro e listed
    show ((b.latestNamed.set entry.closure placed.length).get? e.closure).isSome
    rw [Dict.get?_set]
    split_ifs with same
    · rfl
    · rcases mem_append.mp listed with before | at_last
      · exact wired.named e before
      · exact absurd (congrArg SubgraphEntry.closure (mem_singleton.mp at_last)) same
  case closed =>
    intro i u at_i hid read
    rw [made] at at_i ⊢
    by_cases old : i < b.made.length
    · rw [List.getElem?_append_left old] at at_i
      rcases wired.closed i u at_i hid read with own | ⟨j, v, before, at_j, writes, edge⟩
      · exact .inl own
      · exact .inr ⟨j, v, before, earlier at_j, writes, edge⟩
    · have at_end : i = b.made.length ∧ u = t := by
        have bound := (List.getElem?_eq_some_iff.mp at_i).1
        rw [length_append, length_singleton] at bound
        have : i = b.made.length := by omega
        subst this
        rw [getElem?_concat_length] at at_i
        exact ⟨rfl, (Option.some.inj at_i).symm⟩
      obtain ⟨rfl, rfl⟩ := at_end
      rw [inputs] at read
      obtain ⟨kind, consumed, resolves⟩ := resolved hid read
      cases producer : producerOf.get? kind with
      | none =>
        -- nobody inside produces the kind, so the slot is the parent's
        rw [wired.outside kind producer, get?_firstOfKind] at resolves
        exact .inl (mem_of_find?_eq_some resolves)
      | some j =>
        obtain ⟨v, at_j, slot, writes, resolves'⟩ := wired.inside kind j producer
        cases resolves.symm.trans resolves'
        obtain ⟨edge, derived, rfl⟩ := mem_edgesOf consumed producer
        refine .inr ⟨_, v, (List.getElem?_eq_some_iff.mp at_j).1, earlier at_j, writes, ?_⟩
        rw [depends]
        exact edges (mem_filterMap.mpr ⟨edge, derived, by rw [at_j]; rfl⟩)
  case exports =>
    intro e listed ends kind output hid own
    rw [made]
    rcases mem_append.mp listed with before | at_last
    · obtain ⟨u, inside, marked, writes⟩ := wired.exports e before ends kind output hid own
      exact ⟨u, mem_append_left _ inside, marked, writes⟩
    · rw [mem_singleton.mp at_last] at ends output
      rw [outputs] at output
      refine ⟨t, mem_append_right _ (mem_singleton_self _), isEnd.trans ends, ?_⟩
      rw [written, ends]
      exact mem_supply_of_mine output own

theorem Wired.place
    (own : ∀ kind ∈ spec.inputs, ((firstOfKind task.kinds task.inputs).get? kind).isSome)
    (ready : Ready regs spec placed entry doc) :
    ∃ b', TaskGraph.place regs x placed.length entry (edgesOf producerOf doc.task.inputs) b = .ok b' ∧
      Wired regs task x.mine (placed ++ [entry])
        (produce producerOf placed.length doc.task.outputs) b' := by
  obtain ⟨agent, bound⟩ := ready.agent
  have known : ∀ kind ∈ doc.task.inputs, (b.wiring.available.get? kind).isSome := by
    intro kind consumed
    cases producer : producerOf.get? kind with
    | some j =>
      obtain ⟨u, -, hid, -, resolves⟩ := wired.inside kind j producer
      rw [resolves]
      rfl
    | none =>
      rcases ready.consumed kind consumed with given | ⟨e, earlier, listed⟩
      · rw [wired.outside kind producer]
        exact own kind given
      · have := wired.produced e earlier kind listed
        rw [producer] at this
        cases this
  have named : ∀ f ∈ entry.froms, (b.latestNamed.get? f).isSome := by
    intro f declared
    obtain ⟨e, earlier, rfl⟩ := ready.froms f declared
    exact wired.named e earlier
  obtain ⟨dependsOn, depends, edges⟩ := dependencies_ok named
    ((edgesOf producerOf doc.task.inputs).filterMap fun edge =>
      b.made[edge.producerIndex]?.map (·.id))
  refine ⟨b.add x placed.length entry doc dependsOn agent, ?_,
    wired.add ready.found known edges agent⟩
  rw [TaskGraph.place, ready.found]
  dsimp only
  rw [depends, bound]

end

theorem Wired.placeAll
    (own : ∀ kind ∈ spec.inputs, ((firstOfKind task.kinds task.inputs).get? kind).isSome)
    (rest : List SubgraphEntry) :
    ∀ {placed : List SubgraphEntry} {producerOf : Dict String ℕ} {b : Builder},
      Wired regs task x.mine placed producerOf b →
      (∀ before entry after, rest = before ++ entry :: after →
        ∃ doc, Ready regs spec (placed ++ before) entry doc) →
      ∃ b' producerOf', TaskGraph.placeAll regs x placed.length
          (rest.zip (derivedEdgesFrom (specsByName regs) producerOf placed.length rest)) b = .ok b' ∧
        Wired regs task x.mine (placed ++ rest) producerOf' b' := by
  induction rest with
  | nil =>
    intro placed producerOf b wired _
    exact ⟨b, producerOf, rfl, by rwa [append_nil]⟩
  | cons entry rest ih =>
    intro placed producerOf b wired ready
    obtain ⟨doc, first⟩ := ready [] entry rest rfl
    rw [append_nil] at first
    obtain ⟨b', placedOne, wired'⟩ := wired.place own first
    have kinds : (specsByName regs).get? entry.closure = some doc.task := by
      rw [specsByName, Dict.get?_mapValues, first.found]
      rfl
    have later : ∀ before e after, rest = before ++ e :: after →
        ∃ doc, Ready regs spec ((placed ++ [entry]) ++ before) e doc := by
      intro before e after split
      rw [append_assoc]
      exact ready (entry :: before) e after (by rw [split]; rfl)
    obtain ⟨last, producerOf', goes, final⟩ := ih wired' later
    refine ⟨last, producerOf', ?_, ?_⟩
    · rw [derivedEdgesFrom, kinds, zip_cons_cons, TaskGraph.placeAll]
      simp only [Option.map_some, Option.getD_some, placedOne]
      rwa [length_append] at goes
    · rwa [append_assoc] at final

structure InstanceOf (task : GraphTask) (spec : TaskSpec) : Prop where
  inputs : task.inputs.map task.kinds.get? = spec.inputs.map some
  outputs : task.outputs.map task.kinds.get? = spec.outputs.map some

/-- Each kind resolves to a slot of that kind, below the next new one. -/
def Typed (kindAt : HandoffId → String) (next : HandoffId) (slots : Dict String HandoffId) : Prop :=
  ∀ kind hid, slots.get? kind = some hid → kindAt hid = kind ∧ hid < next

section
variable (typed : Typed kindAt next slots)
include typed

theorem Typed.set (old : hid < next) : Typed kindAt next (slots.set (kindAt hid) hid) := by
  intro kind slot found
  rcases Dict.get?_set_cases found with ⟨same, rfl⟩ | ⟨-, found⟩
  · exact ⟨same.symm, old⟩
  · exact typed kind slot found

theorem Typed.fresh (kind : String) : Typed (update kindAt next kind) (next + 1) slots := by
  intro other hid found
  obtain ⟨own, old⟩ := typed other hid found
  exact ⟨by rw [update_of_ne old.ne, own], Nat.lt_succ_of_lt old⟩

theorem Typed.set_fresh (kind : String) :
    Typed (update kindAt next kind) (next + 1) (slots.set kind next) := by
  have wider := (typed.fresh kind).set (Nat.lt_succ_self next)
  rwa [update_self] at wider

end

/-- Slots of these kinds, with the kinds of the slots there were left as they are. -/
def Wires (kindAt : HandoffId → String) (next : HandoffId) (kinds : List String)
    (out : List HandoffId × Wiring) : Prop :=
  ∃ kindAt', (∀ hid < next, kindAt' hid = kindAt hid) ∧ next ≤ out.2.next ∧
    Typed kindAt' out.2.next out.2.available ∧
    List.Forall₂ (fun hid kind => kindAt' hid = kind ∧ hid < out.2.next) out.1 kinds

theorem Wires.known {kinds : List String} {kind : String} (rest : Wires kindAt next kinds out)
    (typed : kindAt hid = kind ∧ hid < next) :
    Wires kindAt next (kind :: kinds) (hid :: out.1, out.2) := by
  obtain ⟨kindAt', agrees, grows, typed', all⟩ := rest
  obtain ⟨own, old⟩ := typed
  exact ⟨kindAt', agrees, grows, typed', .cons ⟨by rw [agrees hid old, own], old.trans_le grows⟩ all⟩

theorem Wires.fresh {kinds : List String} {kind : String}
    (rest : Wires (update kindAt next kind) (next + 1) kinds out) :
    Wires kindAt next (kind :: kinds) (next :: out.1, out.2) := by
  obtain ⟨kindAt', agrees, grows, typed', all⟩ := rest
  refine ⟨kindAt', fun hid old => ?_, (Nat.le_succ _).trans grows, typed', .cons ⟨?_, ?_⟩ all⟩
  · rw [agrees hid (Nat.lt_succ_of_lt old), update_of_ne old.ne]
  · rw [agrees next (Nat.lt_succ_self _), update_self]
  · exact (Nat.lt_succ_self _).trans_le grows

theorem consume_typed (kinds : List String) :
    ∀ (w : Wiring) (kindAt : HandoffId → String), Typed kindAt w.next w.available →
      Wires kindAt w.next kinds (consume kinds w) := by
  induction kinds with
  | nil => exact fun w kindAt typed => ⟨kindAt, fun _ _ => rfl, le_refl _, typed, .nil⟩
  | cons kind rest ih =>
    intro w kindAt typed
    rw [consume]
    cases found : w.available.get? kind with
    | some hid => exact (ih w kindAt typed).known (typed kind hid found)
    | none => exact (ih ⟨_, w.next + 1⟩ _ (typed.set_fresh kind)).fresh

theorem supply_typed (mine : Dict String HandoffId) (isEnd : Bool) (kinds : List String) :
    ∀ (w : Wiring) (kindAt : HandoffId → String), Typed kindAt w.next w.available →
      Typed kindAt w.next mine → Wires kindAt w.next kinds (supply mine isEnd kinds w) := by
  induction kinds with
  | nil => exact fun w kindAt typed _ => ⟨kindAt, fun _ _ => rfl, le_refl _, typed, .nil⟩
  | cons kind rest ih =>
    intro w kindAt typed typedMine
    rw [supply]
    split
    · rename_i hid chosen
      have found : mine.get? kind = some hid := by
        split_ifs at chosen
        exact chosen
      have own := typedMine kind hid found
      have wider := typed.set own.2
      rw [own.1] at wider
      exact (ih ⟨_, w.next⟩ kindAt wider typedMine).known own
    · exact (ih ⟨_, w.next + 1⟩ _ (typed.set_fresh kind) (typedMine.fresh kind)).fresh

theorem map_get?_assign {items : List (HandoffId × String)}
    (typed : ∀ item ∈ items, kindAt item.1 = item.2) {slots : List HandoffId} {kinds : List String}
    (all : List.Forall₂ (fun hid kind => kindAt hid = kind) slots kinds)
    (listed : ∀ hid ∈ slots, hid ∈ items.map Prod.fst) :
    slots.map (Dict.empty.assign items).get? = kinds.map some := by
  induction all with
  | nil => rfl
  | @cons hid kind _ _ own _ ih =>
    have found : (Dict.empty.assign items).get? hid = some kind := by
      obtain ⟨⟨slot, kind'⟩, inside, same⟩ := mem_map.mp (listed hid mem_cons_self)
      cases same
      have value : kind' = kind := (typed _ inside).symm.trans own
      subst value
      exact Dict.get?_assign_of_mem inside fun v inside' =>
        (typed _ inside').symm.trans (typed _ inside)
    rw [map_cons, map_cons, found, ih fun slot inside => listed slot (.tail _ inside)]

theorem mem_map_fst_zip {slots : List HandoffId} {kinds : List String}
    (length : slots.length = kinds.length) : ∀ hid ∈ slots, hid ∈ (slots.zip kinds).map Prod.fst := by
  rw [map_fst_zip length.le]
  exact fun _ inside => inside

def Declared (regs : Registries) (task : GraphTask) : Prop :=
  ∃ name doc, task.closure = some name ∧ regs.closures.get? name = some doc ∧
    InstanceOf task doc.task

/-- The subtask of an entry, with the kinds of its slots; those below `bound` are the parent's. -/
structure Made (regs : Registries) (mine : Dict String HandoffId) (bound : HandoffId)
    (kindAt : HandoffId → String) (next : HandoffId) (t : GraphTask) (entry : SubgraphEntry) :
    Prop where
  declared : Declared regs t
  isEnd : t.isEnd = entry.isEnd
  inputs : List.Forall₂ (fun hid kind => kindAt hid = kind ∧ hid < next) t.inputs
    (kindsOf regs TaskSpec.inputs entry)
  outputs : List.Forall₂ (fun hid kind => kindAt hid = kind ∧ hid < next) t.outputs
    (kindsOf regs TaskSpec.outputs entry)
  old : ∀ hid ∈ t.outputs, hid < bound → ∃ kind, mine.get? kind = some hid

section
variable {bound next' : HandoffId} {kindAt' : HandoffId → String} {t : GraphTask}

theorem Made.mono {mine : Dict String HandoffId} (made : Made regs mine bound kindAt next t entry)
    (agrees : ∀ hid < next, kindAt' hid = kindAt hid) (grows : next ≤ next') :
    Made regs mine bound kindAt' next' t entry where
  declared := made.declared
  isEnd := made.isEnd
  inputs := made.inputs.imp fun hid _ own => ⟨(agrees hid own.2).trans own.1, own.2.trans_le grows⟩
  outputs := made.outputs.imp fun hid _ own =>
    ⟨(agrees hid own.2).trans own.1, own.2.trans_le grows⟩
  old := made.old

end

/-- The walk has given every slot below the next one its kind. -/
structure Kinded (mine : Dict String HandoffId) (bound : HandoffId) (kindAt : HandoffId → String)
    (b : Builder) : Prop where
  above : bound ≤ b.wiring.next
  available : Typed kindAt b.wiring.next b.wiring.available
  mine : Typed kindAt b.wiring.next mine

theorem Kinded.add {bound : HandoffId} (kinded : Kinded x.mine bound kindAt b)
    (found : regs.closures.get? entry.closure = some doc) (index : ℕ)
    (dependsOn : List TaskId) (agentSpec : String) :
    ∃ kindAt' t, (b.add x index entry doc dependsOn agentSpec).made = b.made ++ [t] ∧
      (∀ hid < b.wiring.next, kindAt' hid = kindAt hid) ∧
      b.wiring.next ≤ (b.add x index entry doc dependsOn agentSpec).wiring.next ∧
      Made regs x.mine bound kindAt' (b.add x index entry doc dependsOn agentSpec).wiring.next t
        entry ∧
      Kinded x.mine bound kindAt' (b.add x index entry doc dependsOn agentSpec) := by
  obtain ⟨middle, agrees, grows, typed', inputs⟩ :=
    consume_typed doc.task.inputs b.wiring kindAt kinded.available
  have mineTyped : Typed middle (consume doc.task.inputs b.wiring).2.next x.mine := by
    intro kind hid given
    obtain ⟨own, old⟩ := kinded.mine kind hid given
    exact ⟨by rw [agrees hid old, own], old.trans_le grows⟩
  obtain ⟨last, agrees', grows', typed'', outputs⟩ :=
    supply_typed x.mine entry.isEnd doc.task.outputs _ middle typed' mineTyped
  have inputs' := inputs.imp fun hid kind own =>
    (⟨(agrees' hid own.2).trans own.1, own.2.trans_le grows'⟩ : last hid = kind ∧ hid < _)
  have listed : ∀ key : TaskSpec → List String, kindsOf regs key entry = key doc.task := by
    intro key
    rw [kindsOf, found]
    rfl
  refine ⟨last, _, rfl, fun hid old => ?_, grows.trans grows', ?_, ?_⟩
  · rw [agrees' hid (old.trans_le grows), agrees hid old]
  · refine ⟨⟨entry.closure, doc, rfl, found, ?_⟩, rfl, by rw [listed]; exact inputs',
      by rw [listed]; exact outputs, supply_old _ (kinded.above.trans grows)⟩
    have items : ∀ item ∈ (consume doc.task.inputs b.wiring).1.zip doc.task.inputs ++
        (supply x.mine entry.isEnd doc.task.outputs (consume doc.task.inputs b.wiring).2).1.zip
          doc.task.outputs, last item.1 = item.2 := by
      intro item inside
      rcases mem_append.mp inside with first | second
      · exact ((forall₂_iff_zip.mp inputs').2 first).1
      · exact ((forall₂_iff_zip.mp outputs).2 second).1
    constructor
    · refine map_get?_assign items (inputs'.imp fun _ _ own => own.1) fun hid inside => ?_
      rw [map_append]
      exact mem_append_left _ (mem_map_fst_zip inputs'.length_eq hid inside)
    · refine map_get?_assign items (outputs.imp fun _ _ own => own.1) fun hid inside => ?_
      rw [map_append]
      exact mem_append_right _ (mem_map_fst_zip outputs.length_eq hid inside)
  · refine ⟨kinded.above.trans (grows.trans grows'), typed'', fun kind hid given => ?_⟩
    obtain ⟨own, old⟩ := mineTyped kind hid given
    exact ⟨by rw [agrees' hid old, own], old.trans_le grows'⟩

theorem place_eq_ok {index : ℕ} {edges : List DerivedEdge} {b' : Builder}
    (placed : place regs x index entry edges b = .ok b') :
    ∃ doc dependsOn agentSpec, regs.closures.get? entry.closure = some doc ∧
      b' = b.add x index entry doc dependsOn agentSpec := by
  unfold place at placed
  split at placed
  · cases placed
  · rename_i doc found
    split at placed
    · cases placed
    · split at placed
      · cases placed
      · cases placed
        exact ⟨doc, _, _, found, rfl⟩

theorem Kinded.placeAll {bound : HandoffId} (rest : List (SubgraphEntry × List DerivedEdge)) :
    ∀ {index : ℕ} {b b' : Builder} {kindAt : HandoffId → String} {placed : List SubgraphEntry},
      Kinded x.mine bound kindAt b →
      List.Forall₂ (Made regs x.mine bound kindAt b.wiring.next) b.made placed →
      placeAll regs x index rest b = .ok b' → ∃ kindAt',
        (∀ hid < b.wiring.next, kindAt' hid = kindAt hid) ∧
        List.Forall₂ (Made regs x.mine bound kindAt' b'.wiring.next) b'.made
          (placed ++ rest.map Prod.fst) := by
  induction rest with
  | nil =>
    intro index b b' kindAt placed kinded made goes
    cases goes
    exact ⟨kindAt, fun _ _ => rfl, by rwa [map_nil, append_nil]⟩
  | cons first rest ih =>
    intro index b b' kindAt placed kinded made goes
    obtain ⟨entry, edges⟩ := first
    rw [TaskGraph.placeAll] at goes
    cases one : place regs x index entry edges b with
    | error e => rw [one] at goes; cases goes
    | ok middle =>
      rw [one] at goes
      obtain ⟨doc, dependsOn, agentSpec, found, rfl⟩ := place_eq_ok one
      obtain ⟨kindAt', t, grown, agrees, grows, fits, kinded'⟩ :=
        kinded.add found index dependsOn agentSpec
      have made' : List.Forall₂ (Made regs x.mine bound kindAt'
            (b.add x index entry doc dependsOn agentSpec).wiring.next)
          (b.add x index entry doc dependsOn agentSpec).made (placed ++ [entry]) := by
        rw [grown]
        exact rel_append (made.imp fun t e own => own.mono agrees grows) (.cons fits .nil)
      obtain ⟨last, agrees', all⟩ := ih kinded' made' goes
      refine ⟨last, fun hid old => ?_, by rwa [append_assoc] at all⟩
      rw [agrees' hid (old.trans_le grows), agrees hid old]

theorem typed_firstOfKind {kinds : Dict HandoffId String}
    (unused : ∀ hid ∈ kinds.keys, hid < next) (slots : List HandoffId) :
    Typed (fun hid => (kinds.get? hid).getD "") next (firstOfKind kinds slots) := by
  intro kind hid found
  rw [get?_firstOfKind] at found
  have own : kinds.get? hid = some kind := by simpa using find?_some found
  refine ⟨?_, unused hid (Dict.mem_keys_iff.mpr ⟨kind, own⟩)⟩
  show (kinds.get? hid).getD "" = kind
  rw [own]
  rfl

theorem rootTask_declared {id : TaskId}
    (made : rootTask regs name next id = .ok task) : Declared regs task := by
  unfold rootTask at made
  split at made
  · cases made
  · rename_i doc found
    split at made
    · cases made
    · cases made
      set declared := (doc.handoffs ++ doc.task.inputs ++ doc.task.outputs).eraseDups with all
      have listed : ∀ kind ∈ doc.task.inputs ++ doc.task.outputs, kind ∈ declared := by
        intro kind inside
        rw [mem_eraseDups, append_assoc]
        exact mem_append_right _ inside
      -- one slot per kind, so the kind can be read off the slot
      have typed : ∀ item ∈ (doc.task.inputs ++ doc.task.outputs).map
          (fun kind => (next + declared.idxOf kind, kind)),
          (declared[item.1 - next]?).getD "" = item.2 := by
        intro item inside
        obtain ⟨kind, named, rfl⟩ := mem_map.mp inside
        rw [Nat.add_sub_cancel_left, getElem?_idxOf (listed kind named)]
        rfl
      have slots : ∀ kinds : List String, kinds ⊆ doc.task.inputs ++ doc.task.outputs →
          (kinds.map fun kind => next + declared.idxOf kind).map
            (Dict.empty.assign ((doc.task.inputs ++ doc.task.outputs).map
              fun kind => (next + declared.idxOf kind, kind))).get? = kinds.map some := by
        intro kinds named
        refine @map_get?_assign (fun slot => (declared[slot - next]?).getD "") _ typed _ _ ?_ ?_
        · rw [forall₂_map_left_iff, forall₂_same]
          intro kind inside
          rw [Nat.add_sub_cancel_left, getElem?_idxOf (listed kind (named inside))]
          rfl
        · intro hid inside
          obtain ⟨kind, given, rfl⟩ := mem_map.mp inside
          exact mem_map.mpr ⟨_, mem_map_of_mem (named given), rfl⟩
      exact ⟨name, doc, rfl, found, slots _ (subset_append_left _ _),
        slots _ (subset_append_right _ _)⟩

theorem forall₂_at {α β : Type} {R : α → β → Prop} {xs : List α} {ys : List β}
    (all : List.Forall₂ R xs ys) {i : ℕ} {a : α} (at_i : xs[i]? = some a) :
    ∃ y, ys[i]? = some y ∧ R a y := by
  induction all generalizing i with
  | nil => cases at_i
  | cons head _ ih =>
    cases i with
    | zero =>
      cases at_i
      exact ⟨_, rfl, head⟩
    | succ i => exact ih at_i

/-- What a successful unfolding has made: a subtask per entry, and kinds of slots that agree with
those of the task. -/
theorem instantiate_made {parent : Option TaskId} {nextTask : TaskId} {subtasks : List GraphTask}
    (unused : ∀ hid ∈ task.kinds.keys, hid < next)
    (made : instantiate regs task name parent next nextTask = .ok subtasks) :
    ∃ doc kindAt next', regs.closures.get? name = some doc ∧
      (∀ hid kind, task.kinds.get? hid = some kind → kindAt hid = kind ∧ hid < next) ∧
      List.Forall₂ (Made regs (firstOfKind task.kinds task.outputs) next kindAt next') subtasks
        (subgraphEntries doc.task) := by
  unfold instantiate at made
  split at made
  · cases made
  · rename_i doc found
    dsimp only at made
    split_ifs at made
    cases goes : placeAll regs _ 0 _ _ with
    | error e => rw [goes] at made; cases made
    | ok b =>
      rw [goes] at made
      cases made
      obtain ⟨kindAt, agrees, all⟩ := Kinded.placeAll _ ⟨le_refl _,
        typed_firstOfKind unused task.inputs, typed_firstOfKind unused task.outputs⟩ .nil goes
      rw [nil_append, derivedEdges, map_fst_zip (length_derivedEdgesFrom _ _ _ _).ge] at all
      refine ⟨doc, kindAt, _, found, fun hid kind own => ?_, all⟩
      have old := unused hid (Dict.mem_keys_iff.mpr ⟨kind, own⟩)
      exact ⟨by rw [agrees hid old, own]; rfl, old⟩

theorem Instantiated.declared (from_ : Instantiated regs task) : Declared regs task := by
  cases from_ with
  | root made => exact rootTask_declared made
  | subtask _ unused made mem =>
    obtain ⟨doc, kindAt, next', -, -, all⟩ := instantiate_made unused made
    obtain ⟨i, at_i⟩ := mem_iff_getElem?.mp mem
    obtain ⟨entry, -, own⟩ := forall₂_at all at_i
    exact own.declared

theorem InstanceOf.own_input (own : InstanceOf task spec) :
    ∀ kind ∈ spec.inputs, ((firstOfKind task.kinds task.inputs).get? kind).isSome := by
  intro kind listed
  have inside : some kind ∈ task.inputs.map task.kinds.get? := by
    rw [own.inputs]
    exact mem_map_of_mem listed
  obtain ⟨hid, given, typed⟩ := mem_map.mp inside
  rw [get?_firstOfKind, find?_isSome]
  exact ⟨hid, given, by simpa using typed⟩

theorem InstanceOf.kind_input (own : InstanceOf task spec) (given : hid ∈ task.inputs) :
    ∃ kind ∈ spec.inputs, task.kinds.get? hid = some kind := by
  have inside := mem_map_of_mem (f := task.kinds.get?) given
  rw [own.inputs] at inside
  obtain ⟨kind, listed, typed⟩ := mem_map.mp inside
  exact ⟨kind, listed, typed.symm⟩

theorem InstanceOf.own_output (own : InstanceOf task spec)
    (once : ∀ hid ∈ task.outputs, ∀ other ∈ task.outputs,
      task.kinds.get? hid = task.kinds.get? other → hid = other) (given : hid ∈ task.outputs) :
    ∃ kind ∈ spec.outputs, (firstOfKind task.kinds task.outputs).get? kind = some hid := by
  have inside : task.kinds.get? hid ∈ spec.outputs.map some := by
    rw [← own.outputs]
    exact mem_map_of_mem given
  obtain ⟨kind, listed, typed⟩ := mem_map.mp inside
  refine ⟨kind, listed, ?_⟩
  rw [get?_firstOfKind]
  cases found : task.outputs.find? fun hid => task.kinds.get? hid = some kind with
  | none =>
    have := find?_eq_none.mp found hid given
    simp [typed] at this
  | some other =>
    have same : task.kinds.get? other = some kind := by simpa using find?_some found
    rw [once other (mem_of_find?_eq_some found) hid given (same.trans typed)]

theorem unfolds_closed (accepted : Accepted regs) (own : InstanceOf task doc.task)
    (closure : task.closure = some name) (found : regs.closures.get? name = some doc)
    (nonLeaf : doc.task.subgraph ≠ []) (supplied : Supplied regs task doc.task)
    (next : HandoffId) (nextTask : TaskId) :
    ∃ subtasks, unfold regs task false next nextTask = .ok subtasks ∧
      ClosedGraph task subtasks := by
  have ready : ∀ before entry after, subgraphEntries doc.task = before ++ entry :: after →
      ∃ member, Ready regs doc.task ([] ++ before) entry member := by
    intro before entry after split
    have at_i : (subgraphEntries doc.task)[before.length]? = some entry := by
      rw [split, getElem?_append_right (le_refl _), Nat.sub_self]
      rfl
    have taken : (subgraphEntries doc.task).take before.length = before := by
      rw [split, take_left]
    have listed : entry ∈ subgraphEntries doc.task := mem_of_getElem? at_i
    obtain ⟨⟨written, i⟩, given, rfl⟩ := mem_map.mp listed
    obtain ⟨member, known⟩ := accepted.target found (fst_mem_of_mem_zipIdx given)
    refine ⟨member, known, accepted.agentSpec known, ?_, ?_⟩
    · have earlier := froms_earlier (accepted.graph found) at_i
      rwa [taken] at earlier
    · have consumed := supplied.consumed (_, before.length)
        (mk_mem_zipIdx_iff_getElem?.mpr at_i)
      rwa [taken, kindsOf, known] at consumed
  have start : Wired regs task (firstOfKind task.kinds task.outputs) [] .empty
      ⟨⟨firstOfKind task.kinds task.inputs, next⟩, nextTask, .empty, []⟩ := by
    constructor
    · rfl
    · exact fun _ _ => rfl
    · exact fun kind j producer => nomatch producer
    · exact fun entry inside => absurd inside not_mem_nil
    · exact fun entry inside => absurd inside not_mem_nil
    · exact fun i t at_i => nomatch at_i
    · exact fun entry inside => absurd inside not_mem_nil
  obtain ⟨b, producerOf, goes, wired⟩ := Wired.placeAll
    (x := ⟨(some task.id).or task.parent, task.monitorSpec, firstOfKind task.kinds task.outputs⟩)
    own.own_input (subgraphEntries doc.task) start ready
  refine ⟨b.made, ?_, wired.closed, fun hid given => ?_⟩
  · have some_ : (subgraphEntries doc.task).isEmpty = false := by
      rw [isEmpty_eq_false_iff, ← length_pos_iff_ne_nil, length_subgraphEntries]
      exact length_pos_iff_ne_nil.mpr nonLeaf
    rw [unfold, closure]
    simp only [Bool.false_eq_true, if_false, instantiate, found, some_]
    rw [derivedEdges, show (0 : ℕ) = [].length (α := SubgraphEntry) from rfl]
    rw [goes]
    rfl
  · obtain ⟨kind, listed, mine⟩ := own.own_output supplied.once given
    obtain ⟨entry, inside, ends, written⟩ := supplied.exported kind listed
    exact wired.exports entry inside ends kind written hid mine

/-- A closed graph is supplied: a slot has one kind, so whoever writes it is declared to. -/
theorem supplied_of_closed {doc : ClosureDoc} {subtasks : List GraphTask} {next' : HandoffId}
    (own : InstanceOf task doc.task)
    (typed : ∀ hid kind, task.kinds.get? hid = some kind → kindAt hid = kind ∧ hid < next)
    (all : List.Forall₂ (Made regs (firstOfKind task.kinds task.outputs) next kindAt next') subtasks
      (subgraphEntries doc.task)) (closed : ClosedGraph task subtasks) :
    Supplied regs task doc.task := by
  have written : ∀ hid ∈ task.outputs, ∃ entry ∈ subgraphEntries doc.task, entry.isEnd = true ∧
      kindAt hid ∈ kindsOf regs TaskSpec.outputs entry ∧
      (hid < next → ∃ kind, (firstOfKind task.kinds task.outputs).get? kind = some hid) := by
    intro hid given
    obtain ⟨t, made, ends, writes⟩ := closed.outputs hid given
    obtain ⟨i, at_i⟩ := mem_iff_getElem?.mp made
    obtain ⟨entry, listed, fits⟩ := forall₂_at all at_i
    obtain ⟨k, at_k⟩ := mem_iff_getElem?.mp writes
    obtain ⟨kind, declared, same, -⟩ := forall₂_at fits.outputs at_k
    exact ⟨entry, mem_of_getElem? listed, fits.isEnd ▸ ends, same ▸ mem_of_getElem? declared,
      fits.old hid writes⟩
  refine ⟨?_, ?_, ?_⟩
  · rintro ⟨entry, i⟩ listed kind consumed
    obtain ⟨t, at_i, fits⟩ := forall₂_at all.flip (mk_mem_zipIdx_iff_getElem?.mp listed)
    obtain ⟨k, at_k⟩ := mem_iff_getElem?.mp consumed
    obtain ⟨hid, read, same, -⟩ := forall₂_at fits.inputs.flip at_k
    rcases closed.inputs i t at_i hid (mem_of_getElem? read) with
      given | ⟨j, u, before, at_j, writes, -⟩
    · obtain ⟨kind', declared, here⟩ := own.kind_input given
      rw [← same, (typed hid kind' here).1]
      exact .inl declared
    · obtain ⟨earlier, listed, fits⟩ := forall₂_at all at_j
      obtain ⟨k, at_k⟩ := mem_iff_getElem?.mp writes
      obtain ⟨kind', declared, here, -⟩ := forall₂_at fits.outputs at_k
      rw [← same, here]
      exact .inr ⟨earlier, mem_of_getElem? (by rw [getElem?_take_of_lt before, listed]),
        mem_of_getElem? declared⟩
  · intro kind listed
    have slot : some kind ∈ task.outputs.map task.kinds.get? := by
      rw [own.outputs]
      exact mem_map_of_mem listed
    obtain ⟨hid, given, here⟩ := mem_map.mp slot
    obtain ⟨entry, inside, ends, kinds, -⟩ := written hid given
    rw [(typed hid kind here).1] at kinds
    exact ⟨entry, inside, ends, kinds⟩
  · -- only the first slot of a kind is handed to an end entry
    have first : ∀ hid ∈ task.outputs,
        (task.kinds.get? hid).bind (firstOfKind task.kinds task.outputs).get? = some hid := by
      intro hid given
      have slot := mem_map_of_mem (f := task.kinds.get?) given
      rw [own.outputs] at slot
      obtain ⟨kind, -, here⟩ := mem_map.mp slot
      obtain ⟨-, -, -, -, old⟩ := written hid given
      obtain ⟨kind', mine⟩ := old (typed hid kind here.symm).2
      have same := find?_some ((get?_firstOfKind ..).symm.trans mine)
      rw [of_decide_eq_true same, Option.bind_some, mine]
    intro hid given other given' same
    have chosen := first hid given
    rw [same, first other given'] at chosen
    exact (Option.some.inj chosen).symm

/-- Unfolding a task of an accepted catalogue gives a closed graph when the kinds of its closure are
supplied, and with new ids above those in use only then. -/
theorem unfold_closed {regs : Registries} (accepted : Accepted regs) {task : GraphTask}
    (from_ : Instantiated regs task) {name : String} {doc : ClosureDoc}
    (closure : task.closure = some name) (found : regs.closures.get? name = some doc)
    (nonLeaf : doc.task.subgraph ≠ []) (next : HandoffId) (nextTask : TaskId) :
    (Supplied regs task doc.task → ∃ subtasks,
        unfold regs task false next nextTask = .ok subtasks ∧ ClosedGraph task subtasks) ∧
      ((∀ hid ∈ task.kinds.keys, hid < next) → ∀ subtasks,
        unfold regs task false next nextTask = .ok subtasks → ClosedGraph task subtasks →
          Supplied regs task doc.task) := by
  obtain ⟨name', doc', closure', found', own⟩ := from_.declared
  cases closure.symm.trans closure'
  rw [found] at found'
  cases found'
  refine ⟨fun supplied => ?_, fun unused subtasks made closed => ?_⟩
  · exact unfolds_closed accepted own closure found nonLeaf supplied next nextTask
  · rw [unfold, closure] at made
    obtain ⟨doc', kindAt, next', found', typed, all⟩ := instantiate_made unused made
    cases found.symm.trans found'
    exact supplied_of_closed own typed all closed

def plainSpec (goal : String) (inputs outputs : List String) (subgraph : List DeclaredEntry) :
    TaskSpec where
  goal
  body := ⟨"readme.md", none⟩
  version := "1"
  materials := []
  repos := []
  monitor := none
  inputs
  outputs
  resources := []
  grants := inputs.map (⟨".", .read, some ·⟩) ++ outputs.map (⟨".", .write, some ·⟩)
  subgraph

def plainDoc (spec : TaskSpec) : ClosureDoc :=
  ⟨spec, some "worker", spec.inputs ++ spec.outputs, []⟩

def reportCatalogue (main collect write : TaskSpec) : Registries where
  closures := ((Dict.empty.set "main" (plainDoc main)).set "collect" (plainDoc collect)).set
    "write" (plainDoc write)
  originOf := id
  handoffSpecs := ["notes", "report", "source"]
  agentSpecs := ["worker"]
  validatorSpecs := .empty
  validatorOrigin := id
  withoutValidator := []

def reportMain : TaskSpec :=
  plainSpec "report" [] ["report"] [⟨"collect", [], none, none⟩, ⟨"write", ["collect"], none, none⟩]

def suppliedReport : Registries :=
  reportCatalogue reportMain (plainSpec "collect" [] ["notes"] []) (plainSpec "write" ["notes"] ["report"] [])

theorem report_unfolds_closed :
    ∃ root, rootTask suppliedReport "main" 0 0 = .ok root ∧
      ∃ subtasks, unfold suppliedReport root false 10 1 = .ok subtasks ∧
        ClosedGraph root subtasks := by
  refine ⟨_, rfl, ?_⟩
  have made : rootTask suppliedReport "main" 0 0 = .ok _ := rfl
  exact (unfold_closed (by decide +kernel) (.root made) rfl rfl (by decide) 10 1).1
    (by decide +kernel)

/-- The notes are collected from a source that nothing gives, and no one writes the report. -/
def danglingReport : Registries :=
  reportCatalogue reportMain (plainSpec "collect" ["source"] [] []) (plainSpec "write" [] ["notes"] [])

/-- No check objects, and the first subtask waits for a slot that nothing writes, as does whoever
reads the task's own output. -/
theorem unsupplied_slot_never_written :
    Accepted danglingReport ∧ ∃ root subtasks, rootTask danglingReport "main" 0 0 = .ok root ∧
        unfold danglingReport root false 10 1 = .ok subtasks ∧
        (∃ t ∈ subtasks, ∃ hid ∈ t.inputs, hid ∉ root.inputs ∧ ∀ u ∈ subtasks, hid ∉ u.outputs) ∧
        ∃ hid ∈ root.outputs, ∀ u ∈ subtasks, hid ∉ u.outputs :=
  ⟨by decide +kernel, _, _, rfl, rfl, by decide +kernel, by decide +kernel⟩

end Infera.TaskGraph
