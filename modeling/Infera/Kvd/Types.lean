import Infera.Dict
import Infera.Json

/-! Values shared by the daemon's modules: block bytes, the composite key a
block is stored under, retention classes and the exceptions the code raises.
Times are exact rationals, one reading of `time.monotonic()` per index. -/

namespace Infera.Kvd

abbrev Bytes := List UInt8

inductive PyErr where
  | keyError
  | structError
  | typeError
  | valueError
  | osError
  | attributeError
  deriving DecidableEq, Repr

inductive Retention where
  | none
  | ephemeral
  | short
  | long
  deriving DecidableEq, Repr

namespace Retention

/-- `_PRIORITY`: a higher number is retained longer. -/
def priority : Retention → Nat
  | none => 0
  | ephemeral => 10
  | short => 50
  | long => 100

def toString : Retention → String
  | none => "none"
  | ephemeral => "ephemeral"
  | short => "short"
  | long => "long"

/-- `_VALID_RETENTIONS`, by the name used on the wire and on disk. -/
def ofString? (s : String) : Option Retention :=
  if s = "none" then some none
  else if s = "ephemeral" then some ephemeral
  else if s = "short" then some short
  else if s = "long" then some long
  else Option.none

theorem ofString?_toString (r : Retention) : ofString? r.toString = some r := by
  cases r <;> rfl

end Retention

/-- The key of a block: namespace and content hash. -/
structure Composite where
  model : String
  compatKey : String
  key : Bytes
  deriving DecidableEq, Repr

/-- Block metadata, a Python dictionary. -/
structure Metadata where
  fields : List (String × Json)
  distinct : (Json.obj fields).distinct = true

namespace Metadata

def empty : Metadata := ⟨[], rfl⟩

def toJson (md : Metadata) : Json := .obj md.fields

def encodable (md : Metadata) : Bool := md.toJson.encodable

end Metadata

/-- The readings of `time.monotonic()` during one call, in order. -/
abbrev Clock := Nat → ℚ

/-- The readings left for a nested call after the first `n`. -/
def Clock.after (clk : Clock) (n : Nat) : Clock := fun i => clk (n + i)

end Infera.Kvd
