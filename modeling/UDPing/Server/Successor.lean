import UDPing.Server.Window

/-!
# The successor rule

When a session expires and its successor is stored, the sweep records the number before the
successor's first one, to account for what was lost at the end of the period.

* `Sender`, `Fleet`: well-behaved clients. The `n`-th packet of a sender carries the number `n` (in
  32 bits) and the GUID of its period; GUIDs are never shared. A run of a fleet receives packets
  that were sent: any of them, in any order, any number of times.
* `RuleSound`: what the rule is for. The successor is the next period of the same source, and
  recording the number only extends the window upwards.
* **`successorRule_sound`**: so it is in every run in which sessions are only linked to later
  periods of their own sender (`LinksForward`) and two linked periods lie within less than a turn
  of the counter (`PeriodsNear`).
* `successorRule_lowers`: when the first packet of the next period overtakes the last one of a
  period, the link points backwards, and the rule lowers the window of the later period.
-/

namespace UDPing.Server

open Lib Serial ServerSessionManager

/-! ## Well-behaved clients -/

/-- What one port of a client process sends: packet after packet, period after period.
Source: `clientsession.cc`, `ClientSession`
Kind: D -/
structure Sender where
  peer : Bytes
  port : UInt16
  clientStartTime : UInt32
  /-- The GUID of the period of the `n`-th packet. -/
  guid : ℕ → Bytes
  /-- A GUID is not empty. -/
  guid_ne_nil : ∀ n, guid n ≠ []
  /-- A period is an interval. -/
  period : ∀ {x y z}, x ≤ y → y ≤ z → guid x = guid z → guid y = guid x

/-- The arrival brings the `n`-th packet of the sender.
Source: `clientsession.cc`, `sendPingPacket`, `increment`
Kind: D -/
structure Sender.Sends (S : Sender) (n : ℕ) (a : Arrival) : Prop where
  peer : a.peer = S.peer
  port : a.port = S.port
  clientStartTime : a.ph.clientStartTime = S.clientStartTime
  guid : a.ph.guid = S.guid n
  seqNum : a.ph.seqNum = ofTrue n

/-- Client processes whose GUIDs are all fresh.
Source: none: abstract model
Kind: D -/
structure Fleet (ι : Type*) where
  sender : ι → Sender
  /-- No two senders share a GUID. -/
  fresh : ∀ {i j x y}, (sender i).guid x = (sender j).guid y → i = j

variable {ι : Type*}

/-- Every packet received was sent by the fleet. Source: none: abstract model. Kind: D -/
def Fleet.Sent (F : Fleet ι) (as : List Arrival) : Prop :=
  ∀ a ∈ as, ∃ i n, (F.sender i).Sends n a

/-- `g` and `g'` are GUIDs of one sender, and the period of `g` comes before that of `g'`.
Source: none: abstract model
Kind: D -/
def Fleet.Precedes (F : Fleet ι) (g g' : Bytes) : Prop :=
  ∃ i x n, (F.sender i).guid x = g ∧ (F.sender i).guid n = g' ∧ g ≠ g' ∧ x < n

/-- All packets of an earlier period were sent before those of a later one.
Source: none: abstract model
Kind: L -/
theorem Fleet.Precedes.lt {F : Fleet ι} {g g' : Bytes} (h : F.Precedes g g') {i j : ι} {x y : ℕ}
    (hx : (F.sender i).guid x = g) (hy : (F.sender j).guid y = g') : i = j ∧ x < y := by
  obtain ⟨k, x', y', hx', hy', hne, hlt⟩ := h
  obtain rfl : i = k := F.fresh (hx.trans hx'.symm)
  obtain rfl : j = i := F.fresh (hy.trans hy'.symm)
  refine ⟨rfl, ?_⟩
  by_contra hle
  rw [not_lt] at hle
  rcases Nat.lt_or_ge x' y with hxy | hyx
  · -- `y` would lie between two packets of the earlier period
    have := (F.sender j).period hxy.le hle (hx'.trans hx.symm)
    exact hne (hx'.symm.trans (this.symm.trans hy))
  · -- `x'` would lie between two packets of the later period
    have := (F.sender j).period hyx hlt.le (hy.trans hy'.symm)
    exact hne (hx'.symm.trans (this.trans hy))

/-! ## The condition -/

/-- If the packet opens a session and a session is linked to it, that session is of an earlier
period of the same sender.
Source: `serversession.cc`, `getServerSession`
Kind: D -/
def LinksForward (F : Fleet ι) (m : ServerSessionManager) : Event → Prop
  | .receivePing a mem _ => a.ph.guid ∉ m.sessionMap → ∀ b s, m.predecessorOf a mem = some b →
      (m.newSession a.peer a.port a.ph mem).heap b = some s → F.Precedes s.guid a.ph.guid
  | _ => True

/-- The packets of an expired session's period and of its successor's lie within less than a turn
of the 32-bit counter.
Source: `serversession.cc`, `recordSeq`
Kind: D -/
def PeriodsNear (F : Fleet ι) (m : ServerSessionManager) (now : Time) : Prop :=
  ∀ g s, m.session g = some s → m.expired now g →
    ∀ i x y, (F.sender i).guid x = g → (F.sender i).guid y = s.successor → y < x + (2 ^ 32 - 9)

/-- The condition on one event. Source: none: abstract model. Kind: D -/
def SuccessorCondition (F : Fleet ι) (m : ServerSessionManager) (e : Event) : Prop :=
  LinksForward F m e ∧ ∀ x ∈ e.sweep? m, PeriodsNear F x.1 x.2

/-! ## What the rule is for -/

/-- What recording `q` in the session `s` at its end should be, where `b` are the packets of `s`,
and `t` and `b'` are the successor and its packets: `q` is the number before the first one of `t`;
`t` is of the same source and client process and its packets were all sent after those of `s`; the
lower end of the window stays, and in the sender's numbers the window, which covers the first
packet received, is extended upwards only.
Source: `serversession.cc`, `sweepServerSessions`
Kind: D -/
structure RuleSound (S : Sender) {g g' : Bytes} (b : Batch g) (b' : Batch g')
    (s t : ServerSession) (q : UInt32) : Prop where
  /-- The number recorded. -/
  number : q = t.minSeq - 1
  /-- The successor is of the same source. -/
  source : t.statsWriters.peer = s.statsWriters.peer ∧ t.statsWriters.port = s.statsWriters.port
  /-- The successor is of the same client process. -/
  start : t.clientStartTime = s.clientStartTime
  /-- Its packets are later. -/
  later : ∀ a ∈ b.arrivals, ∀ a' ∈ b'.arrivals, ∃ x y, S.Sends x a ∧ S.Sends y a' ∧ x < y
  /-- The lower end stays. -/
  minSeq : (s.recordSeq q).minSeq = s.minSeq
  /-- The window is extended upwards only. -/
  window : ∃ (x₀ : ℕ) (W W' : Window), S.Sends x₀ b.first ∧ Shows s W ∧
    Shows (s.recordSeq q) W' ∧ W.Covers x₀ ∧ W'.lo = W.lo ∧ W.hi ≤ W'.hi

/-- Whenever the sweep at `now` applies the rule to an expired session, the rule is sound.
Source: `serversession.cc`, `sweepServerSessions`
Kind: D -/
def SweepRuleSound (F : Fleet ι) (L : Ledger) (m : ServerSessionManager) (now : Time) : Prop :=
  ∀ g s q, m.session g = some s → m.expired now g → m.finalTail now g s = some q →
    ∃ i t b b', m.session s.successor = some t ∧ L.pending g = some b ∧
      L.pending s.successor = some b' ∧ RuleSound (F.sender i) b b' s t q

/-! ## Links point forward -/

/-- Every link leads to a later period of the same sender.
Source: `serversession.h`, `successor`
Kind: D -/
def LinksOrdered (F : Fleet ι) (m : ServerSessionManager) : Prop :=
  ∀ g s, m.session g = some s → s.successor ≠ [] → F.Precedes g s.successor

/-- A packet sets links forward only. Source: `serversession.cc`, `getServerSession`. Kind: L -/
theorem LinksOrdered.recordPing {F : Fleet ι} {m : ServerSessionManager} {a : Arrival}
    {mem : Memory} {now : Time} (hl : LinksOrdered F m) (h : WF m) (hfree : m.heap mem.addr = none)
    (hforward : LinksForward F m (.receivePing a mem now)) :
    LinksOrdered F (m.recordPing a mem) := by
  intro g s hs hne
  by_cases hg : a.ph.guid = g
  · subst hg
    by_cases hmem : a.ph.guid ∈ m.sessionMap
    · obtain ⟨s₀, hs₀⟩ := (h.mem_iff _).mp hmem
      rw [recordPing_session_live h hs₀, Option.some.injEq] at hs
      subst hs
      have hsucc : (s₀.absorb a).successor = s₀.successor := by rw [ServerSession.absorb_eq]
      rw [hsucc] at hne ⊢
      exact hl _ _ hs₀ hne
    · have hpred : m.predecessorOf a mem ≠ some mem.addr := by
        intro hc
        have hself := hforward hmem _ _ hc (Function.update_self ..)
        exact absurd (hself.lt (i := hself.choose) hself.choose_spec.choose_spec.choose_spec.1
          hself.choose_spec.choose_spec.choose_spec.1).2 (lt_irrefl _)
      rw [recordPing_session_new h hfree hmem, if_neg hpred, Option.some.injEq] at hs
      subst hs
      rw [ServerSession.absorb_eq] at hne
      exact absurd rfl hne
  · rw [recordPing_session_other h hfree hg] at hs
    split_ifs at hs with hlink
    · obtain ⟨s₀, hs₀, rfl⟩ := Option.map_eq_some_iff.mp hs
      obtain ⟨b, hb, hheap⟩ := session_eq_some.mp hs₀
      have hb' : b ≠ mem.addr := by
        rintro rfl
        rw [hfree] at hheap
        cases hheap
      have hnew : (m.newSession a.peer a.port a.ph mem).heap b = some s₀ :=
        (Function.update_of_ne hb' ..).trans hheap
      have hprec := hforward hlink.1 b s₀ (hlink.2.symm.trans (subscript_eq_some.mpr hb)) hnew
      rwa [h.guid_eq hs₀] at hprec
    · exact hl g s hs hne

/-- A sweep sets no link. Source: `serversession.cc`, `sweepServerSessions`. Kind: L -/
theorem LinksOrdered.sweep {F : Fleet ι} {m : ServerSessionManager} (hl : LinksOrdered F m)
    (h : WF m) (now : Time) : LinksOrdered F (m.sweepServerSessions now) := by
  intro g s hs
  rw [h.session_sweep] at hs
  split_ifs at hs
  exact hl g s hs

/-- Links point forward in the state a sweep starts from, and after the event.
Source: `serversession.cc`
Kind: L -/
theorem LinksOrdered.step {F : Fleet ι} {m : ServerSessionManager} (hl : LinksOrdered F m)
    (h : WF m) {e : Event} (he : e.Allocates m) (hforward : LinksForward F m e) :
    (∀ x ∈ e.sweep? m, LinksOrdered F x.1) ∧ LinksOrdered F (m.step e) := by
  rcases e with ⟨a, mem, now⟩ | now | now
  · have hl' := hl.recordPing h he hforward
    refine ⟨fun x hx => ?_, hl'.sweep (h.recordPing he) now⟩
    obtain rfl : (_, _) = x := by simpa [Event.sweep?] using hx
    exact hl'
  · refine ⟨fun x hx => ?_, ?_⟩
    · unfold Event.sweep? at hx
      split_ifs at hx
      · obtain rfl : (_, _) = x := by simpa using hx
        exact hl
      · cases hx
    · unfold ServerSessionManager.step handleAlarm
      by_cases hz : m.intervalPacketsReceived = 0
      · simp only [if_pos hz]
        exact hl.sweep h now
      · simp only [if_neg hz]
        exact hl
  · refine ⟨fun x hx => ?_, hl.sweep h now⟩
    obtain rfl : (_, _) = x := by simpa [Event.sweep?] using hx
    exact hl

/-- **Links point forward in every run that meets the condition.** Source: `serversession.cc`.
Kind: P -/
theorem linksOrdered_run {F : Fleet ι} {keepalive : ℤ} {es : List Event}
    (hes : Admissible keepalive es)
    (hcond : (machine keepalive).Always (SuccessorCondition F) es) :
    LinksOrdered F ((machine keepalive).run es) := by
  revert hcond
  refine (machine keepalive).history_induction (P := fun es =>
    (machine keepalive).Always (SuccessorCondition F) es →
      LinksOrdered F ((machine keepalive).run es)) ?_ ?_ es hes
  · intro _ g s hs
    simp [machine, ServerSessionManager.new, session, subscript] at hs
  · intro es e hes he ih hcond
    obtain ⟨hpre, hforward, -⟩ := ((machine keepalive).always_concat ..).mp hcond
    rw [EventMachine.run_concat]
    exact ((ih hpre).step (wf_run hes) he hforward).2

/-! ## The packets of a session and its numbers -/

/-- The numbers of packets of one sender. Source: none: infrastructure. Kind: L -/
theorem exists_numbers {S : Sender} {as : List Arrival} (h : ∀ a ∈ as, ∃ n, S.Sends n a) :
    ∃ zs : List ℤ, as.map (fun a => a.ph.seqNum) = zs.map ofTrue ∧
      ∀ z ∈ zs, ∃ a ∈ as, ∃ n : ℕ, S.Sends n a ∧ z = n := by
  induction as with
  | nil => exact ⟨[], rfl, fun z hz => absurd hz List.not_mem_nil⟩
  | cons a as ih =>
      obtain ⟨n, hn⟩ := h a List.mem_cons_self
      obtain ⟨zs, hseq, hzs⟩ := ih fun a' ha' => h a' (List.mem_cons_of_mem a ha')
      refine ⟨n :: zs, by rw [List.map_cons, List.map_cons, hseq, hn.seqNum], fun z hz => ?_⟩
      rcases List.mem_cons.mp hz with rfl | hz
      · exact ⟨a, List.mem_cons_self, n, hn, rfl⟩
      · obtain ⟨a', ha', hz'⟩ := hzs z hz
        exact ⟨a', List.mem_cons_of_mem a ha', hz'⟩

/-- The lower end of a session's window is the number of one of its packets.
Source: `serversession.cc`, `recordSeq`
Kind: L -/
theorem Batch.exists_minSeq {g : Bytes} (b : Batch g) :
    ∃ a ∈ b.arrivals, b.session.minSeq = a.ph.seqNum := by
  have h : ∀ (s : ServerSession) (as : List Arrival),
      (as.foldl ServerSession.absorb s).minSeq = s.minSeq ∨
        ∃ a ∈ as, (as.foldl ServerSession.absorb s).minSeq = a.ph.seqNum := by
    intro s as
    induction as generalizing s with
    | nil => exact Or.inl rfl
    | cons a as ih =>
        rw [List.foldl_cons]
        rcases ih (s.absorb a) with hmin | ⟨a', ha', hmin⟩
        · rw [hmin, ServerSession.absorb_eq]
          change ServerSession.lower s.minSeq a.ph.seqNum = _ ∨
            ∃ a' ∈ a :: as, ServerSession.lower s.minSeq a.ph.seqNum = _
          unfold ServerSession.lower
          split_ifs
          · exact Or.inr ⟨a, List.mem_cons_self, rfl⟩
          · exact Or.inl rfl
        · exact Or.inr ⟨a', List.mem_cons_of_mem a ha', hmin⟩
  rcases h (ServerSession.create b.first.peer b.first.port b.first.ph) b.arrivals with hmin | hmin
  · exact ⟨b.first, List.mem_cons_self, hmin⟩
  · exact hmin

/-- All packets of a batch are of one sender. Source: none: abstract model. Kind: L -/
theorem Batch.exists_sender {F : Fleet ι} {g : Bytes} (b : Batch g) (hsent : F.Sent b.arrivals) :
    ∃ i, ∀ a ∈ b.arrivals, ∃ n, (F.sender i).Sends n a := by
  obtain ⟨i, n, hn⟩ := hsent b.first List.mem_cons_self
  refine ⟨i, fun a ha => ?_⟩
  obtain ⟨j, k, hk⟩ := hsent a ha
  obtain rfl : i = j := by
    apply F.fresh (x := n) (y := k)
    rw [← hn.guid, ← hk.guid, b.carries _ List.mem_cons_self, b.carries a ha]
  exact ⟨k, hk⟩

/-! ## The rule is sound -/

/-- **One application of the rule**: if the successor's period is later and near, the rule extends
the window upwards.
Source: `serversession.cc`, `sweepServerSessions`, `recordSeq`
Kind: P -/
theorem ruleSound_of_precedes {F : Fleet ι} {g g' : Bytes} {b : Batch g} {b' : Batch g'}
    {s t : ServerSession} (hs : s.forget = b.session) (ht : t.forget = b'.session)
    (hb : F.Sent b.arrivals) (hb' : F.Sent b'.arrivals) (hprec : F.Precedes g g')
    (hnear : ∀ i x y, (F.sender i).guid x = g → (F.sender i).guid y = g' →
      y < x + (2 ^ 32 - 9)) :
    ∃ i, RuleSound (F.sender i) b b' s t (t.minSeq - 1) := by
  obtain ⟨i, hi⟩ := b.exists_sender hb
  obtain ⟨j, hj⟩ := b'.exists_sender hb'
  have hguid : ∀ a ∈ b.arrivals, ∀ x, (F.sender i).Sends x a → (F.sender i).guid x = g :=
    fun a ha x hx => hx.guid.symm.trans (b.carries a ha)
  have hguid' : ∀ a ∈ b'.arrivals, ∀ y, (F.sender j).Sends y a → (F.sender j).guid y = g' :=
    fun a ha y hy => hy.guid.symm.trans (b'.carries a ha)
  obtain ⟨x₀, hx₀⟩ := hi b.first List.mem_cons_self
  obtain ⟨y₀, hy₀⟩ := hj b'.first List.mem_cons_self
  obtain rfl : i = j := (hprec.lt (hguid _ List.mem_cons_self x₀ hx₀)
    (hguid' _ List.mem_cons_self y₀ hy₀)).1
  -- the number of the successor's lower end
  obtain ⟨a', ha', hmin⟩ := b'.exists_minSeq
  obtain ⟨y, hy⟩ := hj a' ha'
  have htmin : t.minSeq = ofTrue y := by
    rw [← hy.seqNum, ← hmin, ← ht]
    rfl
  have hq : t.minSeq - 1 = ofTrue (y - 1) := by
    rw [htmin, ofTrue_sub, ofTrue_one]
  -- the numbers of the packets of `s` lie in less than a turn below `y`
  have hrange : ∀ a ∈ b.arrivals, ∀ x, (F.sender i).Sends x a → x < y ∧ y < x + (2 ^ 32 - 9) := by
    intro a ha x hx
    exact ⟨(hprec.lt (hguid a ha x hx) (hguid' a' ha' y hy)).2,
      hnear i x y (hguid a ha x hx) (hguid' a' ha' y hy)⟩
  obtain ⟨zs, hrest, hzs⟩ := exists_numbers fun a ha => hi a (List.mem_cons_of_mem b.first ha)
  have hseq : b.arrivals.map (fun a => a.ph.seqNum) = ((x₀ : ℤ) :: zs).map ofTrue := by
    rw [Batch.arrivals, List.map_cons, hrest, hx₀.seqNum]
    rfl
  have hspan : ∀ z ∈ (x₀ : ℤ) :: zs, (y : ℤ) - (2 ^ 32 - 10) ≤ z ∧ z ≤ (y : ℤ) - 1 := by
    intro z hz
    rcases List.mem_cons.mp hz with rfl | hz
    · have := hrange b.first List.mem_cons_self x₀ hx₀
      omega
    · obtain ⟨a, ha, n, hn, rfl⟩ := hzs z hz
      have := hrange a (List.mem_cons_of_mem b.first ha) n hn
      omega
  have hx₀span := hspan x₀ List.mem_cons_self
  have hshows := b.shows (c := (y : ℤ) - (2 ^ 32 - 10)) hseq fun z hz => by
    have := hspan z hz
    omega
  obtain ⟨hlo, hhi⟩ := Window.feed_within (w := 10) (W := Window.single x₀) hx₀span.1 hx₀span.2
    fun z hz => hspan z (List.mem_cons_of_mem _ hz)
  obtain ⟨hlo₀, hhi₀⟩ := Window.feed_grows 10 (Window.single x₀) zs
  generalize (Window.single x₀).feed 10 zs = W at hshows hlo hhi hlo₀ hhi₀
  have hle := W.le
  have hshows_s : Shows s W := by
    rw [← hs] at hshows
    exact ⟨hshows.minSeq, hshows.maxSeq⟩
  have hrec : Shows (s.recordSeq (t.minSeq - 1)) (W.extend 10 (y - 1)) := by
    rw [hq]
    apply hshows_s.recordSeq
    · rw [abs_le]; omega
    · rw [abs_le]; omega
  have hlow : (W.extend 10 (y - 1)).lo = W.lo := by
    simp only [Window.extend]
    split_ifs <;> omega
  refine ⟨i, rfl, ?_, ?_, ?_, ?_, x₀, W, _, hx₀, hshows_s, hrec, ⟨hlo₀, hhi₀⟩, hlow, ?_⟩
  · have hsw : s.statsWriters = b.session.statsWriters := by rw [← hs]; rfl
    have htw : t.statsWriters = b'.session.statsWriters := by rw [← ht]; rfl
    rw [hsw, htw, b.session_statsWriters, b'.session_statsWriters]
    exact ⟨hy₀.peer.trans hx₀.peer.symm, hy₀.port.trans hx₀.port.symm⟩
  · have hsc : s.clientStartTime = b.session.clientStartTime := by rw [← hs]; rfl
    have htc : t.clientStartTime = b'.session.clientStartTime := by rw [← ht]; rfl
    rw [hsc, htc, b.session_clientStartTime, b'.session_clientStartTime, hy₀.clientStartTime,
      hx₀.clientStartTime]
  · intro a ha a'' ha''
    obtain ⟨x, hx⟩ := hi a ha
    obtain ⟨z, hz⟩ := hj a'' ha''
    exact ⟨x, z, hx, hz, (hprec.lt (hguid a ha x hx) (hguid' a'' ha'' z hz)).2⟩
  · rw [hrec.minSeq, hlow, hshows_s.minSeq]
  · simp only [Window.extend]
    split_ifs <;> omega

/-- **A sweep whose expired links point forward to near periods applies the rule soundly.**
Source: `serversession.cc`, `sweepServerSessions`
Kind: P -/
theorem sweepRuleSound {F : Fleet ι} {L : Ledger} {m : ServerSessionManager} {now : Time}
    (href : Refines m L) (hsent : ∀ g b, L.pending g = some b → F.Sent b.arrivals)
    (hl : LinksOrdered F m) (hnear : PeriodsNear F m now) : SweepRuleSound F L m now := by
  intro g s q hs hexp hq
  obtain ⟨b, hb, hsb⟩ := href.pending_of_session hs
  obtain ⟨t, ht, rfl⟩ : ∃ t, m.session s.successor = some t ∧ t.minSeq - 1 = q := by
    unfold finalTail at hq
    split_ifs at hq
    exact Option.map_eq_some_iff.mp hq
  obtain ⟨b', hb', htb⟩ := href.pending_of_session ht
  have hne : s.successor ≠ [] := by
    obtain ⟨i, n, hn⟩ := hsent _ b' hb' b'.first List.mem_cons_self
    intro hnil
    exact (F.sender i).guid_ne_nil n
      (hn.guid.symm.trans ((b'.carries _ List.mem_cons_self).trans hnil))
  obtain ⟨i, hsound⟩ := ruleSound_of_precedes hsb htb (hsent g b hb) (hsent _ b' hb')
    (hl g s hs hne) (hnear g s hs hexp)
  exact ⟨i, t, b, b', ht, hb, hb', hsound⟩

/-- **The successor rule closes gaps at the ends of periods only.** In every run of a fleet, with
any loss, delay, reordering and duplication, in which every session that is linked is of an earlier
period of the sender of the packet that sets the link, and the periods of an expired session and of
its successor lie within less than a turn of the counter: whenever a sweep applies the rule to a
session, the successor is of the same source and client process, all its packets were sent after
those of the session, and the rule leaves the lower end of the window and extends it upwards only.
Source: `serversession.cc`, `getServerSession`, `sweepServerSessions`, `recordSeq`
Kind: P -/
theorem successorRule_sound {F : Fleet ι} {keepalive : ℤ} {es : List Event}
    (hes : Admissible keepalive es) (hsent : F.Sent (arrivals es))
    (hcond : (machine keepalive).Always (SuccessorCondition F) es) {pre : List Event} {e : Event}
    (hpre : pre ++ [e] <+: es) {x : ServerSessionManager × Time}
    (hx : x ∈ e.sweep? ((machine keepalive).run pre)) :
    ∃ L, Refines x.1 L ∧
      (∀ g, carrying (arrivals (pre ++ [e])) g = (L.closedOf g).flatten ++ L.pendingOf g) ∧
      SweepRuleSound F L x.1 x.2 := by
  have hadm : Admissible keepalive (pre ++ [e]) := hes.of_prefix _ hpre
  obtain ⟨hadm', he⟩ := ((machine keepalive).always_concat ..).mp hadm
  obtain ⟨hcond', hforward, hnear⟩ :=
    ((machine keepalive).always_concat ..).mp (hcond.of_prefix _ hpre)
  obtain ⟨L, href, hseg⟩ := (Point.of_sweep hadm hx).exists_segments
  have hl := ((linksOrdered_run hadm' hcond').step (wf_run hadm') he hforward).1 x hx
  refine ⟨L, href, hseg, sweepRuleSound href ?_ hl (hnear x hx)⟩
  intro g b hb a ha
  obtain ⟨post, rfl⟩ := hpre
  apply hsent
  rw [arrivals, List.filterMap_append]
  refine List.mem_append_left _ ?_
  have hmem : a ∈ carrying (arrivals (pre ++ [e])) g := by
    rw [hseg, Ledger.pendingOf, hb]
    exact List.mem_append_right _ ha
  exact (List.mem_filter.mp hmem).1

/-! ### Periods of five packets -/

/-- The port `5000` of one client, with five packets in each period.
Source: `clientsession.cc`, `ClientSession`
Kind: D -/
def fiveEach : Sender where
  peer := ascii "h"
  port := 5000
  clientStartTime := 7
  guid := fun n => 103 :: decimal (n / 5)
  guid_ne_nil := fun _ => List.cons_ne_nil _ _
  period := by
    intro x y z hxy hyz h
    have hdiv : x / 5 = z / 5 := decimal_injective (List.cons_injective h)
    have : y / 5 = x / 5 := by omega
    rw [this]

/-- One such client. Source: none: example. Kind: D -/
def oneClient : Fleet Unit where
  sender := fun _ => fiveEach
  fresh := fun _ => rfl

theorem fiveEach_guid {x k : ℕ} (h : fiveEach.guid x = 103 :: decimal k) : x / 5 = k :=
  decimal_injective (List.cons_injective h)

/-- The stored GUIDs, which of them have expired, and their successors.
Source: none: infrastructure
Kind: D -/
def links (m : ServerSessionManager) (now : Time) : List (Bytes × Bool × Bytes) :=
  m.sessionMap.toList.map fun e =>
    (e.1, m.expired now e.1, ((m.session e.1).map ServerSession.successor).getD [])

/-- Only the stored GUIDs matter to `PeriodsNear`. Source: none: infrastructure. Kind: L -/
theorem periodsNear_of_links {F : Fleet ι} {m : ServerSessionManager} {now : Time}
    {l : List (Bytes × Bool × Bytes)} (hl : links m now = l)
    (h : ∀ e ∈ l, e.2.1 → ∀ i x y, (F.sender i).guid x = e.1 → (F.sender i).guid y = e.2.2 →
      y < x + (2 ^ 32 - 9)) : PeriodsNear F m now := by
  intro g s hs hexp
  obtain ⟨b, hb, -⟩ := session_eq_some.mp hs
  apply h (g, true, s.successor) _ rfl
  rw [← hl]
  refine List.mem_map.mpr ⟨(g, some b),
    Std.ExtTreeMap.mem_toList_iff_getElem?_eq_some.mpr hb, ?_⟩
  rw [hexp, hs]
  rfl

/-- The last packet of a period and the first one of the next, in order.
Source: `serversession.cc`, `receivePing`
Kind: D -/
def orderedRun : List Event :=
  [.receivePing (probe (ascii "g0") 4 0) ⟨0, 0⟩ 0, .receivePing (probe (ascii "g1") 5 50) ⟨1, 0⟩ 50,
    .sweep 100]

theorem successorRule_sound_ordered :
    ∃ L, Refines ((machine 60).run (orderedRun.take 2)) L ∧
      SweepRuleSound oneClient L ((machine 60).run (orderedRun.take 2)) 100 := by
  have hsent : oneClient.Sent (arrivals orderedRun) := by
    intro a ha
    have ha : a = probe (ascii "g0") 4 0 ∨ a = probe (ascii "g1") 5 50 := by
      simpa [arrivals, orderedRun, Event.arrival?] using ha
    rcases ha with rfl | rfl
    · exact ⟨(), 4, rfl, rfl, rfl, by decide, by decide⟩
    · exact ⟨(), 5, rfl, rfl, rfl, by decide, by decide⟩
  have hcond : (machine 60).Always (SuccessorCondition oneClient) orderedRun := by
    refine ⟨⟨?_, ?_⟩, ⟨?_, ?_⟩, ⟨trivial, ?_⟩, trivial⟩
    · intro _ b s hb
      have hnone : (machine 60).init.predecessorOf (probe (ascii "g0") 4 0) ⟨0, 0⟩ = none := by
        decide
      rw [hnone] at hb
      cases hb
    · intro x hx
      obtain rfl : (_, _) = x := Option.some.inj hx
      exact periodsNear_of_links (l := [(ascii "g0", false, [])]) (by decide) (by simp)
    · intro _ b s hb hs
      have hzero : ((machine 60).run (orderedRun.take 1)).predecessorOf
          (probe (ascii "g1") 5 50) ⟨1, 0⟩ = some 0 := by decide
      obtain rfl : 0 = b := Option.some.inj (hzero.symm.trans hb)
      have hguid : ((((machine 60).run (orderedRun.take 1)).newSession (ascii "h") 5000
          (probe (ascii "g1") 5 50).ph ⟨1, 0⟩).heap 0).map ServerSession.guid =
          some (ascii "g0") := by decide
      have hs' : some s.guid = some (ascii "g0") := hguid ▸ congrArg (Option.map _) hs.symm
      rw [Option.some.inj hs']
      exact ⟨(), 4, 5, by decide, by decide, by decide, by decide⟩
    · intro x hx
      obtain rfl : (_, _) = x := Option.some.inj hx
      exact periodsNear_of_links (l := [(ascii "g0", false, ascii "g1"), (ascii "g1", false, [])])
        (by decide) (by simp)
    · intro x hx
      obtain rfl : (_, _) = x := Option.some.inj hx
      apply periodsNear_of_links (l := [(ascii "g0", true, ascii "g1"), (ascii "g1", false, [])])
        (by decide)
      intro e he hexp _ x y hx hy
      rcases List.mem_cons.mp he with rfl | he
      · have hx' := fiveEach_guid (k := 0) hx
        have hy' := fiveEach_guid (k := 1) hy
        omega
      · rw [List.mem_singleton.mp he] at hexp
        cases hexp
  have hpre : orderedRun.take 2 ++ [.sweep 100] <+: orderedRun := List.prefix_rfl
  obtain ⟨L, href, -, hrule⟩ := successorRule_sound (by decide) hsent hcond hpre rfl
  exact ⟨L, href, hrule⟩

/-- The same two packets, the first one of the later period overtaking the last one of the earlier.
Source: `serversession.cc`, `receivePing`
Kind: D -/
def overtakingRun : List Event :=
  [.receivePing (probe (ascii "g1") 5 0) ⟨0, 0⟩ 0, .receivePing (probe (ascii "g0") 4 50) ⟨1, 0⟩ 50,
    .sweep 100]

/-- **The rule can lower a window**: the later period's session is linked to the earlier period's,
and when it expires its window is extended from packet `5` down to packet `3`.
Source: `serversession.cc`, `getServerSession`, `sweepServerSessions`
Kind: C -/
theorem successorRule_lowers :
    Admissible 60 overtakingRun ∧
      ((machine 60).run (overtakingRun.take 2)).expired 100 (ascii "g1") = true ∧
      (((machine 60).run (overtakingRun.take 2)).session (ascii "g1")).map (fun s =>
        (s.successor, ((machine 60).run (overtakingRun.take 2)).finalTail 100 (ascii "g1") s,
          s.minSeq, (s.recordSeq 3).minSeq)) = some (ascii "g0", some 3, 5, 3) ∧
      ((machine 60).run overtakingRun).written.map
        (fun r => (r.guid, r.stats.count, r.stats.targetCount)) = [(ascii "g1", 1, 3)] := by
  decide

end UDPing.Server
