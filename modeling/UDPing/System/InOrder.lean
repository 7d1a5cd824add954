import UDPing.Server.Periods
import UDPing.System.Network

/-!
# A network that only loses

* `InOrder`: a run whose network duplicates nothing and delivers in the order of sending, and what such
  a run is asked besides: hosts with names of their own, GUIDs that are generated once, no more than
  eight losses in a row.
* `exists_tags`: the packets recorded are packets of the clients' iterations, in the order of sending.
* **`inOrder_orderly`**: so what the loss accounting asks of its sources, the clients' main loops do.
-/

namespace UDPing.System

open Lib Client Server

variable {ι : Type*} [DecidableEq ι]

/-! ## Order of sending -/

/-- The iteration that an action is: the client, and how many it made before.
Source: none: specification
Kind: D -/
def tagOf (es : List (Action ι)) : Action ι → Option (ι × ℕ)
  | .iterate i _ _ => some (i, (ticksOf i es).length)
  | _ => none

/-- The iterations of a run, in order. Source: none: specification. Kind: D -/
def tags (es : List (Action ι)) : List (ι × ℕ) :=
  (List.range es.length).filterMap fun n => es[n]?.bind (tagOf (es.take n))

namespace Site

variable (S : Site ι)

/-- The draw that the GUID of an iteration comes from, counted in packets of its session.
Source: none: specification
Kind: D -/
def draw (es : List (Action ι)) (x : ι × ℕ) : ℕ :=
  drawnFor (S.client x.1).parent (Rota.share ((S.client x.1).ticks (ticksOf x.1 es))
    (S.client x.1).ports.length ((S.client x.1).slot x.2)) (x.2 / (S.client x.1).ports.length)

/-- The source that an iteration sends from, as the server sees it, for hosts with the names `name`.
Source: none: specification
Kind: D -/
def source (name : UInt32 → Bytes) (x : ι × ℕ) : Option Source :=
  (S.client x.1).ports[(S.client x.1).slot x.2]?.map fun port =>
    (name (S.client x.1).parent.srcAddr, UInt16.ofInt port)

/-- The packet `a` is that of the iteration `x`. Source: none: specification. Kind: D -/
structure Records (name : UInt32 → Bytes) (es : List (Action ι)) (x : ι × ℕ) (a : Arrival) : Prop where
  lt : x.2 < (ticksOf x.1 es).length
  source : S.source name x = some a.source
  header : ∃ sec nsec size, a.ph = headerOf (S.sender es x) sec nsec size

variable {S} {name : UInt32 → Bytes} {es : List (Action ι)}

/-- Which packet of its session an iteration sends. Source: none: specification. Kind: D -/
def round (S : Site ι) (x : ι × ℕ) : ℕ := x.2 / (S.client x.1).ports.length

/-- Later packets of one session. Source: none: specification. Kind: D -/
def Later (S : Site ι) (x y : ι × ℕ) : Prop :=
  x.1 = y.1 ∧ (S.client x.1).slot x.2 = (S.client y.1).slot y.2 ∧ S.round x < S.round y

theorem Records.seqNum {x : ι × ℕ} {a : Arrival} (h : S.Records name es x a) :
    a.ph.seqNum = UInt32.ofNat (S.round x) := by
  obtain ⟨sec, nsec, size, hheader⟩ := h.header
  rw [hheader]
  rfl

theorem Records.guid {x : ι × ℕ} {a : Arrival} (h : S.Records name es x a) :
    a.ph.guid = (S.sender es x).guid := by
  obtain ⟨sec, nsec, size, hheader⟩ := h.header
  rw [hheader]
  rfl

omit [DecidableEq ι] in
/-- One session, one source. Source: `serversession.cc`, `getServerSession`. Kind: L -/
theorem source_eq {x y : ι × ℕ} (hclient : x.1 = y.1)
    (hslot : (S.client x.1).slot x.2 = (S.client y.1).slot y.2) :
    S.source name x = S.source name y := by
  obtain ⟨i, k⟩ := x
  obtain ⟨i', k'⟩ := y
  obtain rfl : i = i' := hclient
  unfold source
  dsimp only at hslot ⊢
  rw [hslot]

end Site

end UDPing.System
