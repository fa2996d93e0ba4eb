import Infera.Kvd.CrashRestore

/-! A restart with another geometry. The container files keep their bytes, so a
slot number means another byte range under another slot size. A snapshot names the
geometry it was written under and is skipped under any other; a journal record has
slot numbers only and is replayed as it stands, if it is within the range of the new
geometry. So the restarted region serves what was put exactly if every record it takes
over names bytes that are its block. -/

namespace Infera.Kvd
open List

namespace TablespaceLongRegion
variable {r r' : TablespaceLongRegion} {cfg : TablespaceConfig} {c : Composite}

/-- The place that a raw record is taken over with, if it is. -/
def placed (cfg : TablespaceConfig) (c : Composite) (raw : Json) : Option Placement :=
  match admitRecord cfg 0 c raw with
  | .ok (some e) => some e.placement
  | _ => none

def eightByteSlots : TablespaceConfig :=
  { fourByteSlots 3 with
    slotBytes := 8
    slotBytes_pos := by decide
    slot_le_container := by decide
    aligned := by simp [fourByteSlots] }

end TablespaceLongRegion
end Infera.Kvd
