import Infera.Kvd.SlotAccounting

/-! The snapshot written by `shutdown` and read by the next `start`. Keys are
sorted before the text and its checksum are made, so what comes back are the
records with their members in order: `replayIndex_snapshot`. From them `start`
rebuilds every entry up to its access time and the order of its metadata
(`populate_records`). -/

namespace Infera.Kvd
open Json JsonText JsonLines List

def Metadata.sorted (metadata : Metadata) : Metadata :=
  ⟨(sortKeysFields metadata.fields).insertionSort ByName,
    distinct_sortKeys metadata.toJson metadata.distinct⟩

theorem Metadata.sorted_toJson (metadata : Metadata) :
    metadata.sorted.toJson = metadata.toJson.sortKeys := (sortKeys_obj metadata.fields).symm

namespace TablespaceLongRegion
variable {r : TablespaceLongRegion} (e : TablespaceEntry)

theorem sortKeys_snapshotRecord : (snapshotRecord e).sortKeys =
    .obj [("compat_key", .str e.compatKey), ("container", .int e.containerIdx),
      ("key_hex", .str (hexText e.key)), ("metadata", e.metadata.sorted.toJson),
      ("model", .str e.model), ("retention", .str e.retention.toString),
      ("size", .int e.sizeBytes), ("slot", .int e.slotIdx)] := by
  rw [Metadata.sorted_toJson]
  simp only [snapshotRecord, sortKeys, sortKeysFields, insertionSort_cons,
    insertionSort_nil, orderedInsert_cons, orderedInsert_nil, String.reduceLT,
    not_true_eq_false, not_false_eq_true, if_true, if_false]

theorem compositeOf_sortedRecord :
    compositeOf (snapshotRecord e).sortKeys = .ok ⟨e.model, e.compatKey, e.key⟩ := by
  rw [sortKeys_snapshotRecord]
  exact compositeOf_eq rfl rfl rfl

def reloaded (now : ℚ) (e : TablespaceEntry) : TablespaceEntry :=
  { e with lastAccess := now, metadata := e.metadata.sorted }

theorem admit_sortedRecord {cfg : TablespaceConfig} {e : TablespaceEntry}
    (fits : e.placement.Fits cfg) (now : ℚ) :
    admitRecord cfg now ⟨e.model, e.compatKey, e.key⟩ (snapshotRecord e).sortKeys =
      .ok (some (reloaded now e)) := by
  rw [sortKeys_snapshotRecord, admitRecord_eq fits rfl rfl rfl rfl rfl, Retention.ofString?_toString]
  rfl

def records (items : List (Composite × TablespaceEntry)) : List (Composite × Json) :=
  items.map fun item => (item.1, (snapshotRecord item.2).sortKeys)

theorem foldlM_records : ∀ (items : List (Composite × TablespaceEntry))
    (index : Dict Composite Json), (items.map Prod.fst).Nodup →
    (∀ c e, (c, e) ∈ items → Composite.mk e.model e.compatKey e.key = c) →
    (∀ c ∈ items.map Prod.fst, index.get? c = none) →
    ∃ index', ((records items).map Prod.snd).foldlM
        (fun index raw => do return index.set (← compositeOf raw) raw) index = .ok index' ∧
      index'.items = index.items ++ records items
  | [], index, _, _, _ => ⟨index, rfl, by simp [records]⟩
  | (c, e) :: items, index, nodup, keyed, fresh => by
    rw [map_cons, nodup_cons] at nodup
    have own : Composite.mk e.model e.compatKey e.key = c := keyed c e mem_cons_self
    have absent : index.get? c = none := fresh c mem_cons_self
    obtain ⟨index', folded, content⟩ := foldlM_records items
      (index.set c (snapshotRecord e).sortKeys) nodup.2
      (fun c' e' mem => keyed c' e' (.tail _ mem))
      (fun c' mem => by
        have differ : c' ≠ c := fun same => nodup.1 (same ▸ mem)
        rw [Dict.get?_set_of_ne differ]
        exact fresh c' (.tail _ mem))
    refine ⟨index', ?_, ?_⟩
    · simp only [records, map_cons, foldlM_cons, compositeOf_sortedRecord, own, pure]
      exact folded
    · rw [content, Dict.items_set_of_fresh _ _ _ absent, append_assoc]
      rfl

theorem Clean.encodableAll (clean : r.Clean) :
    ∀ x ∈ r.entries.values.map snapshotRecord, x.encodable = true := by
  rw [forall_mem_map]
  intro e mem
  obtain ⟨c, found⟩ := Dict.mem_values_iff.mp mem
  have inner : e.metadata.toJson.encodable = true := clean c e found
  simp [snapshotRecord, Json.encodable, encodableFields, inner]

theorem distinct_snapshotRecord : (snapshotRecord e).distinct = true := by
  have inner : e.metadata.toJson.distinct = true := e.metadata.distinct
  simp [snapshotRecord, Json.distinct, distinctFields, inner]

def persisted (r : TablespaceLongRegion) : TablespaceDisk :=
  { writeSnapshot r.disk (snapshotText r.cfg (r.entries.values.map snapshotRecord)) with
    journal := [] }

theorem snapshotNow_of_clean (clean : r.Clean) :
    r.snapshotNow = .ok { r with disk := r.persisted } := by
  have encodable := (encodableAll_iff _).mpr clean.encodableAll
  simp only [snapshotNow, encodable]
  rfl

theorem replayIndex_snapshot (clean : r.Clean)
    (keyed : ∀ c e, r.entries.get? c = some e → Composite.mk e.model e.compatKey e.key = c) :
    ∃ index, replayIndex r.cfg r.persisted = .ok index ∧ index.items = records r.entries.items := by
  have file : readSnapshot r.cfg r.persisted = .ok ((records r.entries.items).map Prod.snd) := by
    have text := snapshotEntries_text r.cfg r.cfg clean.encodableAll
      (forall_mem_map.mpr fun e _ => distinct_snapshotRecord e)
    simp only [readSnapshot, persisted, writeSnapshot, Option.bind_some, text]
    simp [records, Dict.values]
  obtain ⟨index, folded, content⟩ := foldlM_records r.entries.items .empty r.entries.nodupKeys
    (fun c e mem => keyed c e ((r.entries.get?_eq_some_iff c e).mpr mem)) (fun c _ => rfl)
  refine ⟨index, ?_, by rw [content]; rfl⟩
  simp only [replayIndex, file, bind, Except.bind] at folded ⊢
  rw [folded]
  rfl

theorem populate_records : ∀ (items : List (Composite × TablespaceEntry))
    (r : TablespaceLongRegion) (clk : Clock), (items.map Prod.fst).Nodup →
    (∀ c e, (c, e) ∈ items → Composite.mk e.model e.compatKey e.key = c ∧ e.placement.Fits r.cfg) →
    ∃ r', r.populate clk (records items) = .ok r' ∧
      (∀ c e, (c, e) ∈ items → ∃ now, r'.entries.get? c = some (reloaded now e)) ∧
      (∀ c, c ∉ items.map Prod.fst → r'.entries.get? c = r.entries.get? c) ∧
      r'.usedBytes = r.usedBytes + (items.map fun item => item.2.sizeBytes).sum
  | [], r, clk, _, _ => ⟨_, rfl, by simp, fun c _ => rfl, (Int.add_zero _).symm⟩
  | (c, e) :: items, r, clk, nodup, placed => by
    rw [map_cons, nodup_cons] at nodup
    obtain ⟨own, fits⟩ := placed c e mem_cons_self
    obtain ⟨r', ok, reached, others, used⟩ := populate_records items
      (r.restoreEntry c (reloaded (clk 0) e)) (clk.after 1) nodup.2
      (fun c' e' mem => placed c' e' (.tail _ mem))
    refine ⟨r', ?_, fun c' e' mem => ?_, fun c' absent => ?_, ?_⟩
    · subst own
      rw [records, map_cons, populate, admit_sortedRecord fits]
      exact ok
    · rcases mem_cons.mp mem with head | later
      · cases head
        exact ⟨clk 0, (others c nodup.1).trans (Dict.get?_set_self _ _ _)⟩
      · exact reached c' e' later
    · rw [map_cons, mem_cons, not_or] at absent
      rw [others c' absent.2]
      exact Dict.get?_set_of_ne absent.1
    · rw [used, map_cons, sum_cons]
      simp only [restoreEntry, reloaded]
      push_cast
      ring

end TablespaceLongRegion
end Infera.Kvd
