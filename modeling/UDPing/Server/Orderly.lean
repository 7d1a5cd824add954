import UDPing.Lib.Blocks
import UDPing.Server.Window

/-!
# Sources whose packets arrive in order

* `OrderlyRun`: what the accounting of losses across periods rests on. Each source is one client
  process, its packets arrive in order, GUID by GUID, with short gaps, its GUIDs are its own, and a
  period that is followed by another is reported only once the next one has come.
* `number`: the true number of a packet of such a source. `Batch.shows_inOrder`: the window of a
  session goes from the number of its first packet to that of its last.
-/

namespace UDPing.Server

open Lib Serial ServerSessionManager

/-! ## Sources -/

/-- A peer and a port. Source: `serversession.cc`, `getServerSession`. Kind: D -/
abbrev Source := Bytes × UInt16

/-- The source of an arrival. Source: `serversession.cc`, `receivePing`. Kind: D -/
def Arrival.source (a : Arrival) : Source := (a.peer, a.port)

/-- The key of a source in `sourceMap`. Source: `serversession.cc`, `getServerSession`. Kind: D -/
def Source.key (X : Source) : Bytes := sourceKey X.1 X.2

/-- The packets of one source. Source: none: abstract model. Kind: D -/
def fromSource (as : List Arrival) (X : Source) : List Arrival := as.filter fun a => a.source = X

/-- How far the number of `a` lies beyond that of `f`. Source: none: abstract model. Kind: D -/
def position (f a : Arrival) : ℕ := (a.ph.seqNum - f.ph.seqNum).toNat

/-- Two packets in a row: their numbers are at most `9` apart, and not equal where a new period
begins.
Source: `serversession.cc`, `recordSeq`
Kind: D -/
def InStep (a a' : Arrival) : Prop :=
  (a'.ph.seqNum - a.ph.seqNum).toNat ≤ 9 ∧
    (a.ph.guid ≠ a'.ph.guid → a'.ph.seqNum ≠ a.ph.seqNum)

/-- A run of orderly sources; `periods X` are the measurement periods of the source `X`, each with
its GUID and its packets.
Source: none: abstract model
Kind: D -/
structure OrderlyRun (keepalive : ℤ) (es : List Event)
    (periods : Source → List (Σ g, Batch g)) : Prop where
  /-- Memory is allocated as it should. -/
  admissible : Admissible keepalive es
  /-- The packets of a source arrive GUID by GUID. -/
  blocks : ∀ X, InBlocks (fun a : Arrival => a.ph.guid) Sigma.fst (fun b => b.2.arrivals)
    (periods X) (fromSource (arrivals es) X)
  /-- GUIDs are not empty. -/
  guid_ne_nil : ∀ a ∈ arrivals es, a.ph.guid ≠ []
  /-- A GUID is never shared by two sources. -/
  unshared : ∀ a ∈ arrivals es, ∀ a' ∈ arrivals es, a.ph.guid = a'.ph.guid → a.source = a'.source
  /-- A source is one client process. -/
  start : ∀ a ∈ arrivals es, ∀ a' ∈ arrivals es, a.source = a'.source →
    a.ph.clientStartTime = a'.ph.clientStartTime
  /-- The packets of a source arrive in order, with short gaps. -/
  inStep : ∀ X, (fromSource (arrivals es) X).IsChain InStep
  /-- The span of a source's numbers, from its first packet on, is below `2 ^ 31`. -/
  span : ∀ X f, (fromSource (arrivals es) X).head? = some f →
    ∀ a ∈ fromSource (arrivals es) X, position f a + 1 < 2 ^ 31
  /-- A GUID is not reused: it has no session only before its first packet. -/
  unreused : ∀ pre a mem now, pre ++ [.receivePing a mem now] <+: es →
    a.ph.guid ∉ ((machine keepalive).run pre).sessionMap →
      ∀ a' ∈ arrivals pre, a'.ph.guid ≠ a.ph.guid
  /-- Whenever a sweep removes a session whose period is followed by another, the session of that
  one is in the table at that moment. -/
  handover : ∀ pre e, pre ++ [e] <+: es → ∀ x ∈ e.sweep? ((machine keepalive).run pre),
    ∀ X b b', Follows (periods X) b b' → b.1 ∈ x.1.sessionMap → x.1.expired x.2 b.1 →
      b'.1 ∈ x.1.sessionMap ∧ ¬ (x.1.expired x.2 b'.1 ∧ compare b'.1 b.1 = .lt)

/-! ## True numbers -/

/-- The true number of `a`, for a source whose first packet is `f`.
Source: none: abstract model
Kind: D -/
def number (f a : Arrival) : ℤ := f.ph.seqNum.toNat + position f a

/-- A packet's number, in 32 bits, is what it carries. Source: none: infrastructure. Kind: L -/
theorem ofTrue_number (f a : Arrival) : ofTrue (number f a) = a.ph.seqNum := by
  unfold number position
  rw [ofTrue_add, ofTrue_toNat, ofTrue_toNat, UInt32.add_comm, UInt32.sub_add_cancel]

/-- Positions of packets in a row. Source: none: infrastructure. Kind: L -/
theorem position_step {f a a' : Arrival} (hspan : position f a + 1 < 2 ^ 31) (h : InStep a a') :
    position f a' = position f a + (a'.ph.seqNum - a.ph.seqNum).toNat := by
  have hsum : a'.ph.seqNum - f.ph.seqNum =
      (a.ph.seqNum - f.ph.seqNum) + (a'.ph.seqNum - a.ph.seqNum) := by grind
  have hstep := h.1
  unfold position at hspan ⊢
  rw [hsum, UInt32.toNat_add]
  apply Nat.mod_eq_of_lt
  omega

/-- The position of the first packet. Source: none: infrastructure. Kind: L -/
@[simp] theorem position_self (f : Arrival) : position f f = 0 := by
  simp [position]

/-- The numbers of packets in a row rise by at most `9`. Source: none: infrastructure. Kind: L -/
theorem number_step {f a a' : Arrival} (hspan : position f a + 1 < 2 ^ 31) (h : InStep a a') :
    number f a ≤ number f a' ∧ number f a' < number f a + 10 := by
  have hpos := position_step hspan h
  have hstep := h.1
  unfold number
  omega

/-- Where a new period begins the numbers rise. Source: none: infrastructure. Kind: L -/
theorem number_lt {f a a' : Arrival} (hspan : position f a + 1 < 2 ^ 31) (h : InStep a a')
    (hg : a.ph.guid ≠ a'.ph.guid) : number f a < number f a' := by
  have hpos := position_step hspan h
  have hne : (a'.ph.seqNum - a.ph.seqNum).toNat ≠ 0 := by
    intro hzero
    apply h.2 hg
    have : a'.ph.seqNum - a.ph.seqNum = 0 := UInt32.toNat_inj.mp hzero
    grind
  unfold number
  omega

/-! ## Sessions of packets in order -/

/-- **The window of packets in order** goes from the first to the last.
Source: `serversession.cc`, `receivePing`, `recordSeq`
Kind: P -/
theorem Batch.shows_inOrder {g : Bytes} (b : Batch g) (f : Arrival)
    (hchain : b.arrivals.IsChain InStep) (hspan : ∀ a ∈ b.arrivals, position f a + 1 < 2 ^ 31) :
    ∃ W : Window, Shows b.session W ∧ W.lo = number f b.first ∧ W.hi = number f b.last := by
  have hseq : b.arrivals.map (fun a => a.ph.seqNum) =
      (number f b.first :: b.rest.map (number f)).map ofTrue := by
    rw [Batch.arrivals, List.map_cons, List.map_cons, List.map_map, ofTrue_number]
    congr 1
    exact List.map_congr_left fun a _ => (ofTrue_number f a).symm
  have hrange : ∀ a ∈ b.arrivals, (f.ph.seqNum.toNat : ℤ) ≤ number f a ∧
      number f a < f.ph.seqNum.toNat + (2 ^ 32 - 9) := by
    intro a ha
    have := hspan a ha
    unfold number
    omega
  have hshows := b.shows (c := f.ph.seqNum.toNat) hseq fun z hz => by
    rw [← List.map_cons (f := number f)] at hz
    obtain ⟨a, ha, rfl⟩ := List.mem_map.mp hz
    exact hrange a ha
  have hchain' : (number f b.first :: b.rest.map (number f)).IsChain
      fun x y => x ≤ y ∧ y < x + 10 := by
    rw [← List.map_cons (f := number f), List.isChain_map]
    apply List.IsChain.imp_of_mem_imp _ hchain
    intro a a' ha _ hstep
    exact number_step (hspan a ha) hstep
  obtain ⟨hlo, hhi⟩ := Window.feed_of_isChain (W := Window.single (number f b.first)) hchain'
  refine ⟨_, hshows, hlo, hhi.trans ?_⟩
  change (number f b.first :: b.rest.map (number f)).getLast _ = _
  simp only [← List.map_cons (f := number f), List.getLast_map]
  rfl

end UDPing.Server
