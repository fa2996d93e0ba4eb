import Infera.Kvd.SnapshotRoundTrip
import Infera.Kvd.SsdNames

/-! Sidecars read back. A payload that fits is decoded to itself with its keys in
order, and from the sidecar of an entry the scan rebuilds the entry up to its
time stamps and the order of its metadata. -/

namespace Infera.Kvd
open Json JsonText List
variable {payload : Json}

theorem leNat_leBytes (width : ℕ) : ∀ {n : ℕ}, n < 256 ^ width →
    leNat (Router.leBytes width n) = n := by
  induction width with
  | zero =>
    intro n small
    rw [Nat.pow_zero, Nat.lt_one_iff] at small
    rw [small]
    rfl
  | succ width ih =>
    intro n small
    have high : n / 256 < 256 ^ width := Nat.div_lt_of_lt_mul (Nat.pow_succ' ▸ small)
    rw [Router.leBytes_succ, leNat, foldr_cons, ← leNat, ih high]
    exact Nat.mod_add_div n 256

def sidecarBytes (payload : Json) : Bytes := (sidecarText payload).flatMap String.utf8EncodeChar

/-- A payload whose text is written and fits into the sidecar. -/
def Fits (payload : Json) : Prop :=
  payload.encodable = true ∧ (sidecarBytes payload).length ≤ sidecarRoom

def sidecarBlob (payload : Json) : Bytes :=
  Router.leBytes sidecarHeaderLenBytes (sidecarBytes payload).length ++ sidecarBytes payload ++
    List.replicate (sidecarRoom - (sidecarBytes payload).length) 0

theorem encodeSidecar_of_fits (fits : Fits payload) :
    encodeSidecar payload = .ok (sidecarBlob payload) := by
  have room : ¬(sidecarBytes payload).length > sidecarRoom := Nat.not_lt.2 fits.2
  rw [encodeSidecar, if_neg (by simp [fits.1])]
  exact if_neg room

theorem length_sidecarBlob (fits : Fits payload) :
    (sidecarBlob payload).length = sidecarTotalBytes := by
  have room := fits.2
  simp only [sidecarBlob, length_append, Router.length_leBytes, length_replicate]
  simp only [sidecarRoom, sidecarTotalBytes, sidecarHeaderLenBytes] at room ⊢
  omega

theorem utf8Decode?_sidecarBytes (payload : Json) :
    (sidecarBytes payload).toByteArray.utf8Decode? = some (sidecarText payload).toArray :=
  List.utf8Decode?_utf8Encode

theorem decodeSidecar_sidecarBlob (distinct : payload.distinct = true)
    (fits : Fits payload) : decodeSidecar (sidecarBlob payload) = some payload.sortKeys := by
  have room := fits.2
  have small : (sidecarBytes payload).length < 256 ^ sidecarHeaderLenBytes :=
    lt_of_le_of_lt room (by decide)
  have header : (sidecarBlob payload).take sidecarHeaderLenBytes =
      Router.leBytes sidecarHeaderLenBytes (sidecarBytes payload).length := by
    exact take_left' (Router.length_leBytes _ _)
  have body : ((sidecarBlob payload).drop sidecarHeaderLenBytes).take
      (sidecarBytes payload).length = sidecarBytes payload := by
    exact take_left' rfl
  have written : payload.sortKeys.writable :=
    writable_of_encodable _ (encodable_sortKeys payload fits.1) (distinct_sortKeys payload distinct)
  simp only [decodeSidecar, length_sidecarBlob fits, header, leNat_leBytes _ small, body,
    Nat.not_lt.2 room, utf8Decode?_sidecarBytes, ne_eq, not_true_eq_false, if_false,
    Option.bind_eq_bind, Option.bind_some]
  rw [sidecarText, loads_dumps written]

variable (wall : WallClock) (e : SsdEntry) (value : Bytes)

theorem sortKeys_sidecarPayload : (sidecarPayload wall e value).sortKeys =
      .obj [("compat_key", .str e.compatKey), ("inserted_at", .float (wall.toWall e.insertedAt)),
        ("last_access", .float (wall.toWall e.lastAccess)), ("metadata", e.metadata.sorted.toJson),
        ("model", .str e.model), ("retention", .str e.retention), ("size_bytes", .int e.sizeBytes),
        ("value_sha256", .str (String.ofList (Sha256.hexdigest value))),
        ("version", .int sidecarVersion)] := by
  rw [Metadata.sorted_toJson]
  simp only [sidecarPayload, sortKeys, sortKeysFields, insertionSort_cons,
    insertionSort_nil, orderedInsert_cons, orderedInsert_nil, String.reduceLT,
    not_true_eq_false, not_false_eq_true, if_true, if_false]

theorem distinct_sidecarPayload : (sidecarPayload wall e value).distinct = true := by
  have inner : e.metadata.toJson.distinct = true := e.metadata.distinct
  simp [sidecarPayload, Json.distinct, distinctFields, inner]

theorem encodable_sidecarPayload :
    (sidecarPayload wall e value).encodable = e.metadata.encodable := by
  simp [sidecarPayload, Json.encodable, encodableFields, Metadata.encodable]

def rebuilt (wall wall' : WallClock) (e : SsdEntry) : SsdEntry :=
  { e with
    insertedAt := wall'.fromWall (wall.toWall e.insertedAt)
    lastAccess := wall'.fromWall (wall.toWall e.lastAccess)
    metadata := e.metadata.sorted }

theorem recoverEntry_sidecarPayload (wall wall' : WallClock) {e : SsdEntry} {value : Bytes}
    (plain : Plain e.composite) (size : e.sizeBytes = value.length) :
    recoverEntry wall' (sidecarPayload wall e value).sortKeys (filenameForComposite e.composite)
      value = .ok (some (rebuilt wall wall' e)) := by
  have named : (UrlQuote.unquote (filenameForComposite e.composite)).bind decodeComposite =
      some e.composite := by
    rw [filenameForComposite, UrlQuote.unquote_quote, Option.bind_some,
      decodeComposite_encodeComposite plain.model plain.compatKey]
  rw [sortKeys_sidecarPayload]
  set payload := Json.obj _
  have model : names payload "model" e.composite.model = .ok (decide (e.model = e.model)) := rfl
  have compatKey : names payload "compat_key" e.composite.compatKey =
      .ok (decide (e.compatKey = e.compatKey)) := rfl
  have declared : sizeField payload = .ok (e.sizeBytes : Int) := rfl
  have metadata : metadataField payload = .ok e.metadata.sorted := metadataField_eq rfl
  simp only [recoverEntry, named, model, compatKey, declared, metadata, bind, Except.bind, size, ne_eq]
  rw [← size]
  rfl

end Infera.Kvd
