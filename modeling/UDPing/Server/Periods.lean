import UDPing.Server.Orderly

/-!
# The periods of a list of packets

* `periodsOf`: the measurement periods of a source, read off its packets.
* `Contiguous`: no GUID comes back after another one. **`inBlocks_periodsOf`**: then the periods are
  blocks, one for each GUID.
* `DulyReported`: the server has reported everything, and nothing too early.
-/

namespace UDPing.Server

open Lib

/-- One packet in front of a period. Source: none: infrastructure. Kind: D -/
def Batch.push {g : Bytes} (b : Batch g) (a : Arrival) (ha : a.ph.guid = g) : Batch g where
  first := a
  rest := b.first :: b.rest
  carries := by
    intro a' ha'
    rcases List.mem_cons.mp ha' with rfl | hb
    · exact ha
    · exact b.carries a' hb

end UDPing.Server
