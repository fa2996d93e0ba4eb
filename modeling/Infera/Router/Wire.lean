import Infera.Router.KvEvent

/-! Event batches on the wire. The subscriber reads a msgpack value, takes the
events of the batch and keeps the fields it acts on; vLLM sends tagged maps,
SGLang tagged arrays. Reading the bytes of a value is the codec's work, so a
batch starts as the value read or the codec's error. -/

namespace Infera.Router

/-- A msgpack integer: signed or unsigned 64 bits. -/
structure WireInt where
  val : Int
  lower : -2 ^ 63 ≤ val
  upper : val < 2 ^ 64
  deriving DecidableEq

namespace WireInt

def asU64 (i : WireInt) : Option UInt64 := if 0 ≤ i.val then some (UInt64.ofInt i.val) else none

def asI64 (i : WireInt) : Option Int := if i.val < 2 ^ 63 then some i.val else none

end WireInt

inductive Value where
  | nil
  | boolean (b : Bool)
  | integer (i : WireInt)
  | float (bits : UInt64)
  | string (s : String)
  | rawString (bytes : List UInt8)
  | binary (bytes : List UInt8)
  | array (items : List Value)
  | map (entries : List (Value × Value))
  | ext (kind : Int) (bytes : List UInt8)

namespace Value

def asArray : Value → Option (List Value)
  | .array items => some items
  | _ => none

def asMap : Value → Option (List (Value × Value))
  | .map entries => some entries
  | _ => none

/-- A string that is not UTF-8 has no text. -/
def asStr : Value → Option String
  | .string s => some s
  | _ => none

/-- Read any msgpack integer, the negative ones by their two's complement. -/
def asU64Any : Value → Option UInt64
  | .integer i => i.asU64 <|> i.asI64.map UInt64.ofInt
  | _ => none

def asU64Vec (v : Value) : List UInt64 := (v.asArray.map (List.filterMap asU64Any)).getD []

def asU32Any : Value → Option UInt32
  | .array pair => (pair.head?.bind asU64Any).map UInt64.toUInt32
  | v => (asU64Any v).map UInt64.toUInt32

def asU32Vec (v : Value) : List UInt32 := (v.asArray.map (List.filterMap asU32Any)).getD []

end Value

variable (entries : List (Value × Value))

/-- The value of the first entry under a text key. -/
def entryAt (k : String) : Option Value :=
  (entries.find? fun e => e.1.asStr == some k).map Prod.snd

def parseEventMap : Option (Event UInt64 UInt32) := do
  let tag ← (← entryAt entries "type").asStr
  match tag with
  | "BlockStored" =>
    some (.stored ((entryAt entries "block_hashes").map Value.asU64Vec |>.getD [])
      ((entryAt entries "parent_block_hash").bind Value.asU64Any)
      ((entryAt entries "token_ids").map Value.asU32Vec |>.getD [])
      ((entryAt entries "kv_cache_spec_kind").bind Value.asStr))
  | "BlockRemoved" =>
    some (.removed ((entryAt entries "block_hashes").map Value.asU64Vec |>.getD []))
  | "AllBlocksCleared" => some .cleared
  | _ => none

def parseEventArray (a : List Value) : Option (Event UInt64 UInt32) := do
  let tag ← (← a.head?).asStr
  match tag with
  | "BlockStored" =>
    some (.stored ((a[1]?.map Value.asU64Vec).getD []) (a[2]?.bind Value.asU64Any)
      ((a[3]?.map Value.asU32Vec).getD []) none)
  | "BlockRemoved" => some (.removed ((a[1]?.map Value.asU64Vec).getD []))
  | "AllBlocksCleared" => some .cleared
  | _ => none

def parseEvent (ev : Value) : Option (Event UInt64 UInt32) :=
  match ev.asMap with
  | some entries => parseEventMap entries
  | none => ev.asArray.bind parseEventArray

/-- A batch is `[ts, events, attn_dp_rank?]`; an event that does not parse is left out. -/
def decodeBatch (read : Except String Value) : Except String (List (Event UInt64 UInt32)) := do
  let val ← read
  let arr ← val.asArray.elim (.error "batch is not an array") .ok
  let events ← (arr[1]?.bind Value.asArray).elim
    (.error "batch[1] (events) is not an array") .ok
  .ok (events.filterMap parseEvent)

end Infera.Router
