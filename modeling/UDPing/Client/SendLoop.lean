import UDPing.Client.Session
import UDPing.Lib.RoundRobin

/-!
# The main loop of a client

* `ClientSessionList` with `getNextSession` (`clientsession.cc`) and `iterate`, one iteration of the
  main loop (`client.cc`).
* `ClientSession.turn`: what an iteration does with its session. `AfterTurns`: a session after `k` of
  its turns, and what a turn sends: `turn_rolls`, `turn_sends`, `afterTurns`.
* **`sending_discipline`**: ports and next hops in rotation, sequence numbers without a gap, a new GUID
  for each new interval, and nothing else in a header that changes.
-/

namespace UDPing.Client

open Lib

/-! ## Iterations -/

/-- What the clocks and `rand()` yield during an iteration: in `rollover`, in `reset`, and in
`sendPingPacket`.
Source: `client.cc`, `main`
Kind: D -/
structure Tick where
  now : Time
  guidRand : ℕ → ℕ
  ts : Timespec
  sizeRand : ℕ

/-- Whether a GUID is generated, the packet, and the session after it.
Source: `client.cc`, `main`
Kind: D -/
def ClientSession.turn (A : Abi) (parent : Parent) (session : ClientSession) (t : Tick) :
    (Bool × Message) × ClientSession :=
  let (rolled, session) := session.rollover parent t.now
  let session := if rolled then session.reset A t.guidRand else session
  let (message, session) := session.sendPingPacket A parent t.ts t.sizeRand
  ((rolled, message), session.increment A)

/-- Source: `clientsession.h`, `ClientSessionList`. Kind: D
Fidelity: the iterator `curSession` is the position it stands at -/
structure ClientSessionList where
  parent : Parent
  sessions : List ClientSession
  curSession : ℕ

/-- What a session is made of: the memory that `new` returns, and what the clock and `rand()` yield.
Source: `clientsession.cc`, `ClientSession::ClientSession`
Kind: D -/
structure Fresh where
  memory : Mem
  now : Time
  rand : ℕ → ℕ

namespace ClientSessionList

/-- A list with a session for each port. Each has its own list of next hops, whose cursor the parser
leaves behind the last one.
Source: `clientsession.cc`, `ClientSessionList::ClientSessionList`; `maclist.cc`, `MacList::MacList`
Kind: D -/
def create (A : Abi) (parent : Parent) (ports : List ℤ) (macs : List Mac) (fresh : ℕ → Fresh) :
    ClientSessionList where
  parent := parent
  sessions := ports.mapIdx fun ix port =>
    ClientSession.create A port ⟨macs, macs.length⟩ (fresh ix).memory (fresh ix).now (fresh ix).rand
  curSession := 0

/-- The position of the next session.
Source: `clientsession.cc`, `ClientSessionList::getNextSession`
Kind: D -/
def getNextSession (l : ClientSessionList) : ℕ × ClientSessionList :=
  let nextSession := l.curSession
  let curSession := l.curSession + 1
  let curSession := if curSession = l.sessions.length then 0 else curSession
  (nextSession, { l with curSession })

/-- One iteration of the main loop. `none`: there is no session.
Source: `client.cc`, `main`
Kind: D -/
def iterate (A : Abi) (l : ClientSessionList) (t : Tick) :
    Option (Bool × Message) × ClientSessionList :=
  let (nextSession, l) := l.getNextSession
  match l.sessions[nextSession]? with
  | none => (none, l)
  | some session =>
      let (sent, session) := session.turn A l.parent t
      (some sent, { l with sessions := l.sessions.set nextSession session })

/-- The list before iteration `i`. Source: `client.cc`, `main`. Kind: D -/
def before (A : Abi) (l : ClientSessionList) (ticks : ℕ → Tick) : ℕ → ClientSessionList :=
  iterateOn (fun l t => (l.iterate A t).2) l ticks

/-- What iteration `i` sends, and whether it generates a GUID.
Source: `client.cc`, `main`
Kind: D -/
def sent (A : Abi) (l : ClientSessionList) (ticks : ℕ → Tick) (i : ℕ) : Option (Bool × Message) :=
  ((l.before A ticks i).iterate A (ticks i)).1

end ClientSessionList

/-! ## The turns of one session -/

/-- The interval that a reading of the clock lies in, by its first second.
Source: `clientsession.cc`, `ClientSession::rollover`
Kind: D -/
def bucket (parent : Parent) (now : Time) : Time := now - now.tmod parent.interval

theorem bucket_ne_zero {parent : Parent} {now : Time} (hinterval : 1 ≤ parent.interval)
    (hnow : parent.interval ≤ now) : bucket parent now ≠ 0 := by
  have hmod : now.tmod parent.interval = now % parent.interval :=
    Int.tmod_eq_emod_of_nonneg (by omega)
  have hlt := Int.emod_lt_of_pos now (show 0 < parent.interval by omega)
  unfold bucket
  rw [hmod]
  exact Int.ne_of_gt (Int.sub_pos_of_lt (Int.lt_of_lt_of_le hlt hnow))

/-- `true`: the interval is another one than at the session's last turn.
Source: `clientsession.cc`, `ClientSession::rollover`
Kind: L -/
theorem rollover_eq {parent : Parent} {now : Time} (hzero : bucket parent now ≠ 0)
    (s : ClientSession) :
    s.rollover parent now =
      (decide (s.lastRollover ≠ 0 ∧ s.lastRollover ≠ bucket parent now),
        { s with lastRollover := bucket parent now }) := by
  have hunfold : s.rollover parent now =
      (let s := if s.lastRollover = 0 then { s with lastRollover := bucket parent now } else s
       if bucket parent now = s.lastRollover then (false, s)
       else (true, { s with lastRollover := bucket parent now })) := rfl
  rw [hunfold]
  by_cases hfirst : s.lastRollover = 0
  · simp [hfirst]
  · by_cases hsame : s.lastRollover = bucket parent now
    · simp only [hsame, hzero, ↓reduceIte, ne_eq, not_true_eq_false, and_false, decide_false,
        Prod.mk.injEq, true_and]
      rw [← hsame]
    · simp [hfirst, hsame, Ne.symm hsame]

section Turns

variable (A : Abi) (parent : Parent) (macs : List Mac) (port : ℤ) (fresh : Fresh) (ticks : ℕ → Tick)

/-- A GUID is generated before packet `k` of a session.
Source: none: specification
Kind: D -/
def Rolls : ℕ → Prop
  | 0 => False
  | k + 1 => bucket parent (ticks k).now ≠ bucket parent (ticks (k + 1)).now

instance : ∀ k, Decidable (Rolls parent ticks k)
  | 0 => inferInstanceAs (Decidable False)
  | k + 1 =>
      inferInstanceAs (Decidable (bucket parent (ticks k).now ≠ bucket parent (ticks (k + 1)).now))

/-- The packet for which the GUID of packet `k` was generated; `0` also for the constructor's.
Source: none: specification
Kind: D -/
def drawnFor : ℕ → ℕ
  | 0 => 0
  | k + 1 => if Rolls parent ticks (k + 1) then k + 1 else drawnFor k

/-- The stream that the GUID generated for packet `k` is drawn from.
Source: none: specification
Kind: D -/
def drawRand : ℕ → ℕ → ℕ
  | 0 => fresh.rand
  | k + 1 => (ticks (k + 1)).guidRand

/-- A byte of no field that changes. Source: none: specification. Kind: D -/
def Outside (o : ℕ) : Prop :=
  (o < A.guid ∨ A.guid + maxGuid ≤ o) ∧ (o < A.seqNum ∨ A.seqNum + 4 ≤ o) ∧
    (o < A.sentSec ∨ A.sentSec + 4 ≤ o) ∧ (o < A.sentNsec ∨ A.sentNsec + 8 ≤ o) ∧
    (o < A.size ∨ A.size + 4 ≤ o)

/-- The sender of packet `k`, with a GUID that was generated for packet `d`.
Source: none: abstract model
Kind: D -/
def senderOf (k d : ℕ) : Sender :=
  Sender.draw (UInt32.ofInt fresh.now) (UInt32.ofNat k) (drawRand fresh ticks d)

/-- A session after `k` turns. Source: `clientsession.cc`, `ClientSession`. Kind: D -/
structure AfterTurns (k : ℕ) (s : ClientSession) : Prop where
  port_eq : s.port = port
  macs_eq : s.dstMacList.macs = macs
  /-- The cursor starts behind the last address. -/
  curMac : s.dstMacList.curMac = if k = 0 then macs.length else (k - 1) % macs.length
  lastRollover : s.lastRollover = if k = 0 then 0 else bucket parent (ticks (k - 1)).now
  holds : Holds A s.p (senderOf fresh ticks k (drawnFor parent ticks (k - 1)))
  outside : ∀ o, Outside A o → s.p o = (ClientSession.create A port ⟨macs, macs.length⟩
    fresh.memory fresh.now fresh.rand).p o

variable {A parent macs port fresh ticks} {k : ℕ} {s : ClientSession}

/-- The next number. Source: none: abstract model. Kind: L -/
theorem senderOf_increment (k d : ℕ) :
    (senderOf fresh ticks k d).step ClientSession.Call.increment = senderOf fresh ticks (k + 1) d := by
  have hsucc : UInt32.ofNat k + 1 = UInt32.ofNat (k + 1) := (UInt32.ofNat_add k 1).symm
  show { senderOf fresh ticks k d with seqNum := UInt32.ofNat k + 1 } = senderOf fresh ticks (k + 1) d
  rw [hsucc]
  rfl

/-- A new session has had no turn. Source: `clientsession.cc`, `ClientSession::ClientSession`.
Kind: L -/
theorem afterTurns_create :
    AfterTurns A parent macs port fresh ticks 0
      (ClientSession.create A port ⟨macs, macs.length⟩ fresh.memory fresh.now fresh.rand) where
  port_eq := rfl
  macs_eq := rfl
  curMac := rfl
  lastRollover := rfl
  holds := (HoldsButGuid.clear A fresh.memory (UInt32.ofInt fresh.now) 0).writeGuid fresh.rand
  outside := fun _ _ => rfl

/-- **The next hops take turns.** Source: `maclist.cc`, `MacList::nextMac`. Kind: L -/
theorem nextMac_eq {l : MacList} (hmacs : l.macs ≠ [])
    (hcur : l.curMac = if k = 0 then l.macs.length else (k - 1) % l.macs.length) :
    l.nextMac = (l.macs[k % l.macs.length]?, { l with curMac := k % l.macs.length }) := by
  have hpos := List.length_pos_iff.mpr hmacs
  have hnext : (if l.macs.length ≤ l.curMac + 1 then 0 else l.curMac + 1) = k % l.macs.length := by
    rw [hcur]
    rcases k with _ | k
    · rw [if_pos rfl, Nat.zero_mod, if_pos (by omega)]
    · rw [if_neg (Nat.succ_ne_zero k), Nat.add_sub_cancel]
      rcases Rota.succ_turns k hpos with ⟨hlt, -, hmod⟩ | ⟨hlast, -, hmod⟩
      · rw [hmod, if_neg (by omega)]
      · rw [hmod, if_pos (by omega)]
  unfold MacList.nextMac
  rw [if_neg (by omega)]
  dsimp only
  rw [hnext]

/-- Whether a turn generates a GUID. Source: `clientsession.cc`, `ClientSession::rollover`.
Kind: L -/
theorem AfterTurns.rollover (h : AfterTurns A parent macs port fresh ticks k s)
    (hbucket : ∀ k, bucket parent (ticks k).now ≠ 0) :
    s.rollover parent (ticks k).now =
      (decide (Rolls parent ticks k), { s with lastRollover := bucket parent (ticks k).now }) := by
  have hrolls : s.lastRollover ≠ 0 ∧ s.lastRollover ≠ bucket parent (ticks k).now ↔
      Rolls parent ticks k := by
    rw [h.lastRollover]
    rcases k with _ | k
    · simp [Rolls]
    · simp [Rolls, hbucket k]
  rw [rollover_eq (hbucket k), decide_eq_decide.mpr hrolls]

/-- A turn's session when its packet is about to be sent.
Source: `clientsession.cc`, `ClientSession::reset`
Kind: L -/
theorem AfterTurns.reset (h : AfterTurns A parent macs port fresh ticks k s) (now : Time)
    {s' : ClientSession}
    (hs' : s' = if Rolls parent ticks k then
        ClientSession.reset A { s with lastRollover := now } (ticks k).guidRand
      else { s with lastRollover := now }) :
    s'.port = s.port ∧ s'.dstMacList = s.dstMacList ∧ s'.lastRollover = now ∧
      Holds A s'.p (senderOf fresh ticks k (drawnFor parent ticks k)) ∧
      ∀ o, Outside A o → s'.p o = s.p o := by
  rcases k with _ | k
  · rw [hs', if_neg (show ¬Rolls parent ticks 0 from id)]
    exact ⟨rfl, rfl, rfl, h.holds, fun _ _ => rfl⟩
  · by_cases hrolls : Rolls parent ticks (k + 1)
    · rw [hs', if_pos hrolls, drawnFor, if_pos hrolls]
      refine ⟨rfl, rfl, rfl, h.holds.toHoldsButGuid.writeGuid _, fun o ho => ?_⟩
      apply Mem.store_outside
      rw [length_generateGuid]
      exact ho.1
    · rw [hs', if_neg hrolls, drawnFor, if_neg hrolls]
      exact ⟨rfl, rfl, rfl, h.holds, fun _ _ => rfl⟩

/-- Sending and counting write into the fields that change.
Source: `clientsession.cc`, `sendPingPacket`, `sendPacket`, `increment`
Kind: L -/
theorem outside_send {o : ℕ} (ho : Outside A o) (t : Tick) :
    (s.sendPingPacket A parent t.ts t.sizeRand).2.p o = s.p o ∧
      ((s.sendPingPacket A parent t.ts t.sizeRand).2.increment A).p o = s.p o := by
  obtain ⟨-, hseq, hsec, hnsec, hsize⟩ := ho
  have hsend : (s.sendPingPacket A parent t.ts t.sizeRand).2.p o = s.p o := by
    unfold ClientSession.sendPingPacket ClientSession.sendPacket
    refine (Mem.store_outside ?_).trans ((Mem.store_outside ?_).trans (Mem.store_outside ?_))
    · rwa [length_encode]
    · rwa [length_encode]
    · rwa [length_encode]
  refine ⟨hsend, (Mem.store_outside ?_).trans hsend⟩
  rwa [length_encode]

/-- **One turn**: what it sends, and the session after it.
Source: `clientsession.cc`, `ClientSession`
Kind: P -/
theorem AfterTurns.turn (h : AfterTurns A parent macs port fresh ticks k s) (hmacs : macs ≠ [])
    (hbucket : ∀ k, bucket parent (ticks k).now ≠ 0) {rolled : Bool} {message : Message}
    {s' : ClientSession} (hturn : s.turn A parent (ticks k) = ((rolled, message), s')) :
    (rolled = true ↔ Rolls parent ticks k) ∧
      (message.srcPort = port ∧ message.dstMacHex = macs[k % macs.length]? ∧
        Holds A message.message (senderOf fresh ticks k (drawnFor parent ticks k)) ∧
        ∀ o, Outside A o → message.message o = (ClientSession.create A port ⟨macs, macs.length⟩
          fresh.memory fresh.now fresh.rand).p o) ∧
      AfterTurns A parent macs port fresh ticks (k + 1) s' := by
  unfold ClientSession.turn at hturn
  rw [h.rollover hbucket] at hturn
  simp only [decide_eq_true_eq, Prod.mk.injEq] at hturn
  generalize hready : (if Rolls parent ticks k then
      ClientSession.reset A { s with lastRollover := bucket parent (ticks k).now }
        (ticks k).guidRand
    else { s with lastRollover := bucket parent (ticks k).now }) = ready at hturn
  obtain ⟨⟨rfl, rfl⟩, rfl⟩ := hturn
  obtain ⟨hport, hlist, hrollover, hholds, houtside⟩ := h.reset _ hready.symm
  have hnext : ready.dstMacList.nextMac =
      (macs[k % macs.length]?, { ready.dstMacList with curMac := k % macs.length }) := by
    have hcur := h.curMac
    rw [hlist]
    rw [← h.macs_eq] at hcur hmacs ⊢
    exact nextMac_eq hmacs hcur
  have hsent := hholds.sendPingPacket parent (ticks k).ts (ticks k).sizeRand
  refine ⟨decide_eq_true_iff, ⟨?_, ?_, ?_, fun o ho => ?_⟩, ?_, ?_, ?_, ?_, ?_, fun o ho => ?_⟩
  · exact hport.trans h.port_eq
  · show ready.dstMacList.nextMac.1 = _
    rw [hnext]
  · exact hsent
  · exact (outside_send ho (ticks k)).1.trans ((houtside o ho).trans (h.outside o ho))
  · exact hport.trans h.port_eq
  · show ready.dstMacList.nextMac.2.macs = _
    rw [hnext, hlist]
    exact h.macs_eq
  · show ready.dstMacList.nextMac.2.curMac = _
    rw [hnext]
    rfl
  · exact hrollover
  · have hcount := hsent.step parent ClientSession.Call.increment
    rw [senderOf_increment] at hcount
    exact hcount
  · exact (outside_send ho (ticks k)).2.trans ((houtside o ho).trans (h.outside o ho))

/-- **A session after `k` of its turns.** Source: `clientsession.cc`, `ClientSession`. Kind: P -/
theorem afterTurns (hmacs : macs ≠ []) (hbucket : ∀ k, bucket parent (ticks k).now ≠ 0) (k : ℕ) :
    AfterTurns A parent macs port fresh ticks k (iterateOn (fun s t => (s.turn A parent t).2)
      (ClientSession.create A port ⟨macs, macs.length⟩ fresh.memory fresh.now fresh.rand) ticks k) := by
  induction k with
  | zero => exact afterTurns_create
  | succ k ih => exact (ih.turn hmacs hbucket rfl).2.2

variable (parent ticks)

theorem drawnFor_le (k : ℕ) : drawnFor parent ticks k ≤ k := by
  induction k with
  | zero => exact le_rfl
  | succ k ih =>
      unfold drawnFor
      split_ifs
      · exact le_rfl
      · omega

theorem drawnFor_mono {k k' : ℕ} (hle : k ≤ k') : drawnFor parent ticks k ≤ drawnFor parent ticks k' := by
  induction k', hle using Nat.le_induction with
  | base => exact le_rfl
  | succ k' hle ih =>
      have hk := drawnFor_le parent ticks k
      have hsucc : drawnFor parent ticks (k' + 1) =
        if Rolls parent ticks (k' + 1) then k' + 1 else drawnFor parent ticks k' := rfl
      rw [hsucc]
      split_ifs
      · omega
      · exact ih

end Turns

/-! ## The sessions take turns -/

section Loop

variable (A : Abi) (l : ClientSessionList) (ticks : ℕ → Tick)

/-- An iteration is a turn of the rota of sessions. Source: `client.cc`, `main`. Kind: L -/
theorem iterate_turn (t : Tick) :
    (l.iterate A t).2.parent = l.parent ∧
      (⟨(l.iterate A t).2.sessions, (l.iterate A t).2.curSession⟩ : Rota ClientSession) =
        Rota.turn (fun s t => (s.turn A l.parent t).2) ⟨l.sessions, l.curSession⟩ t := by
  unfold ClientSessionList.iterate ClientSessionList.getNextSession Rota.turn
  dsimp only
  rcases hs : l.sessions[l.curSession]? with _ | s
  · have hout : l.sessions.length ≤ l.curSession := List.getElem?_eq_none_iff.mp hs
    refine ⟨rfl, ?_⟩
    rw [List.modify_eq_self hout]
  · refine ⟨rfl, ?_⟩
    dsimp only
    congr 1
    apply List.ext_getElem?
    intro j
    rw [List.getElem?_set, List.getElem?_modify]
    by_cases hj : l.curSession = j
    · subst hj
      obtain ⟨hlt, -⟩ := List.getElem?_eq_some_iff.mp hs
      rw [if_pos rfl, if_pos hlt, hs]
      simp
    · simp [hj]

/-- The sessions before an iteration. Source: `client.cc`, `main`. Kind: L -/
theorem before_rota (i : ℕ) :
    (l.before A ticks i).parent = l.parent ∧
      (⟨(l.before A ticks i).sessions, (l.before A ticks i).curSession⟩ : Rota ClientSession) =
        iterateOn (Rota.turn fun s t => (s.turn A l.parent t).2) ⟨l.sessions, l.curSession⟩ ticks i := by
  induction i with
  | zero => exact ⟨rfl, rfl⟩
  | succ i ih =>
      obtain ⟨hparent, hrota⟩ := ih
      obtain ⟨hparent', hrota'⟩ := iterate_turn A (l.before A ticks i) (ticks i)
      refine ⟨hparent'.trans hparent, ?_⟩
      rw [hparent, hrota] at hrota'
      exact hrota'

end Loop

/-! ## What is sent -/

section Discipline

variable {A : Abi} {parent : Parent} {ports : List ℤ} {macs : List Mac} {fresh : ℕ → Fresh}
  {ticks : ℕ → Tick}

/-- **What an iteration sends**: the next packet of the session whose turn it is.
Source: `client.cc`, `main`
Kind: P -/
theorem sent_turn (hports : ports ≠ []) (hmacs : macs ≠ [])
    (hbucket : ∀ i, bucket parent (ticks i).now ≠ 0) (i : ℕ) :
    ∃ rolled message, (ClientSessionList.create A parent ports macs fresh).sent A ticks i =
        some (rolled, message) ∧
      ports[i % ports.length]? = some message.srcPort ∧
      (rolled = true ↔
        Rolls parent (Rota.share ticks ports.length (i % ports.length)) (i / ports.length)) ∧
      message.dstMacHex = macs[i / ports.length % macs.length]? ∧
      Holds A message.message (senderOf (fresh (i % ports.length))
        (Rota.share ticks ports.length (i % ports.length)) (i / ports.length)
        (drawnFor parent (Rota.share ticks ports.length (i % ports.length)) (i / ports.length))) ∧
      ∀ o, Outside A o → message.message o = (ClientSession.create A message.srcPort
        ⟨macs, macs.length⟩ (fresh (i % ports.length)).memory (fresh (i % ports.length)).now
        (fresh (i % ports.length)).rand).p o := by
  obtain ⟨hparent, hrota⟩ :=
    before_rota A (ClientSessionList.create A parent ports macs fresh) ticks i
  have hlength : (ClientSessionList.create A parent ports macs fresh).sessions.length =
    ports.length := List.length_mapIdx
  have hne : (ClientSessionList.create A parent ports macs fresh).sessions ≠ [] := by
    rw [← List.length_pos_iff, hlength]
    exact List.length_pos_iff.mpr hports
  obtain ⟨hcur, hslot⟩ := @Rota.slot_after _ _ (fun s t => (ClientSession.turn A parent s t).2)
    _ ticks hne i
  rw [hlength] at hcur hslot
  obtain ⟨port, hport⟩ : ∃ port, ports[i % ports.length]? = some port :=
    ⟨_, List.getElem?_eq_getElem (Nat.mod_lt i (List.length_pos_iff.mpr hports))⟩
  have hfirst : (ClientSessionList.create A parent ports macs fresh).sessions[i % ports.length]? =
      some (ClientSession.create A port ⟨macs, macs.length⟩ (fresh (i % ports.length)).memory
        (fresh (i % ports.length)).now (fresh (i % ports.length)).rand) := by
    show (ports.mapIdx _)[i % ports.length]? = _
    rw [List.getElem?_mapIdx, hport]
    rfl
  have hcur' := (congrArg Rota.cur hrota).trans hcur
  have hslot' := (congrArg (fun r => r.slots[i % ports.length]?) hrota).trans hslot
  dsimp only at hcur' hslot'
  rw [hfirst, Option.map_some] at hslot'
  have hafter := @afterTurns A parent macs port (fresh (i % ports.length))
    (Rota.share ticks ports.length (i % ports.length)) hmacs (fun k => hbucket _) (i / ports.length)
  have htick : Rota.share ticks ports.length (i % ports.length) (i / ports.length) = ticks i := by
    show ticks (i / ports.length * ports.length + i % ports.length) = ticks i
    rw [Nat.mul_comm, Nat.div_add_mod]
  generalize hsession : iterateOn _ _ _ (i / ports.length) = session at hslot' hafter
  obtain ⟨⟨⟨rolled, message⟩, session'⟩, hturn⟩ : ∃ out, session.turn A parent (ticks i) = out :=
    ⟨_, rfl⟩
  have hturn' := hturn
  rw [← htick] at hturn'
  obtain ⟨hrolls, ⟨hsrc, hmac, hholds, houtside⟩, -⟩ := hafter.turn hmacs (fun k => hbucket _) hturn'
  refine ⟨rolled, message, ?_, hport.trans (congrArg some hsrc.symm), hrolls, hmac, hholds, ?_⟩
  · unfold ClientSessionList.sent ClientSessionList.iterate ClientSessionList.getNextSession
    dsimp only
    rw [hcur', hslot', hparent]
    exact congrArg (fun out => some out.1) hturn
  · rw [hsrc]
    exact houtside

variable (parent ports fresh ticks)

/-- The iteration that the GUID of iteration `i`'s packet was generated in; the port's first one for
that of the constructor.
Source: none: specification
Kind: D -/
def drawOf (i : ℕ) : ℕ :=
  drawnFor parent (Rota.share ticks ports.length (i % ports.length)) (i / ports.length) *
    ports.length + i % ports.length

/-- The GUID generated in iteration `d`, or by the constructor of the `d`-th session.
Source: none: specification
Kind: D -/
def guidDrawn (d : ℕ) : Bytes :=
  generateGuid (if d < ports.length then (fresh d).rand else (ticks d).guidRand) 0 maxGuid

variable {parent ports fresh ticks}

/-- The stream a GUID is drawn from, by the iteration. Source: none: specification. Kind: L -/
theorem generateGuid_drawRand {j : ℕ} (hj : j < ports.length) (d : ℕ) :
    generateGuid (drawRand (fresh j) (Rota.share ticks ports.length j) d) 0 maxGuid =
      guidDrawn ports fresh ticks (d * ports.length + j) := by
  unfold guidDrawn
  rcases d with _ | d
  · rw [Nat.zero_mul, Nat.zero_add, if_pos hj]
    rfl
  · rw [if_neg (show ¬(d + 1) * ports.length + j < ports.length by rw [Nat.succ_mul]; omega)]
    rfl

/-- A GUID is generated when the interval is another one than at the port's last packet.
Source: `client.cc`, `main`
Kind: L -/
theorem rolls_iff (hports : ports ≠ []) (i : ℕ) :
    Rolls parent (Rota.share ticks ports.length (i % ports.length)) (i / ports.length) ↔
      ports.length ≤ i ∧
        bucket parent (ticks (i - ports.length)).now ≠ bucket parent (ticks i).now := by
  have hpos := List.length_pos_iff.mpr hports
  have hdiv := Nat.div_add_mod i ports.length
  rw [Nat.mul_comm] at hdiv
  rcases hk : i / ports.length with _ | k
  · have hlt : i < ports.length := (Nat.div_eq_zero_iff.mp hk).resolve_left (by omega)
    refine iff_of_false id fun h => ?_
    omega
  · rw [hk, Nat.succ_mul] at hdiv
    have hlast : Rota.share ticks ports.length (i % ports.length) k = ticks (i - ports.length) := by
      show ticks (k * ports.length + i % ports.length) = _
      congr 1
      omega
    have hthis : Rota.share ticks ports.length (i % ports.length) (k + 1) = ticks i := by
      show ticks ((k + 1) * ports.length + i % ports.length) = _
      rw [Nat.succ_mul]
      congr 1
    show bucket parent (Rota.share ticks ports.length (i % ports.length) k).now ≠
      bucket parent (Rota.share ticks ports.length (i % ports.length) (k + 1)).now ↔ _
    rw [hlast, hthis]
    exact (and_iff_right (by omega)).symm

/-- The iterations that use one GUID are successive ones of one port.
Source: `client.cc`, `main`
Kind: L -/
theorem drawOf_between (hports : ports ≠ []) {i i' i'' : ℕ}
    (hsame : drawOf parent ports ticks i = drawOf parent ports ticks i'') (hle : i ≤ i')
    (hle' : i' ≤ i'') (hport : i' % ports.length = i % ports.length) :
    i'' % ports.length = i % ports.length ∧
      drawOf parent ports ticks i' = drawOf parent ports ticks i := by
  have hpos := List.length_pos_iff.mpr hports
  have hmod := Nat.mod_lt i hpos
  have hmod'' := Nat.mod_lt i'' hpos
  unfold drawOf at hsame
  have hport'' : i'' % ports.length = i % ports.length := by
    have hrem := congrArg (· % ports.length) hsame
    simp only [Nat.mul_add_mod_self_right, Nat.mod_mod] at hrem
    exact hrem.symm
  refine ⟨hport'', ?_⟩
  rw [hport''] at hsame
  have hdraw := Nat.eq_of_mul_eq_mul_right hpos (Nat.add_right_cancel hsame)
  have hlo := drawnFor_mono parent (Rota.share ticks ports.length (i % ports.length))
    (Nat.div_le_div_right (c := ports.length) hle)
  have hhi := drawnFor_mono parent (Rota.share ticks ports.length (i % ports.length))
    (Nat.div_le_div_right (c := ports.length) hle')
  unfold drawOf
  rw [hport, show drawnFor parent (Rota.share ticks ports.length (i % ports.length))
    (i' / ports.length) = drawnFor parent (Rota.share ticks ports.length (i % ports.length))
    (i / ports.length) by omega]

/-- **The discipline of sending.** Iteration `i` sends one packet, from port `i % n` to next hop
`i / n % m`, with number `i / n`. It generates a GUID exactly if the port has sent before and the clock
stood in another interval then; so the packets of one GUID are successive packets of one port, also
by its characters where no GUID is drawn twice. Nothing else in the headers of a port changes but time
stamps and size.
Source: `client.cc`, `main`; `clientsession.cc`, `ClientSession`; `maclist.cc`, `MacList::nextMac`
Kind: P -/
theorem sending_discipline (A : Abi) {parent : Parent} (hinterval : 1 ≤ parent.interval)
    {ports : List ℤ} (hports : ports ≠ []) {macs : List Mac} (hmacs : macs ≠ []) (fresh : ℕ → Fresh)
    {ticks : ℕ → Tick} (hclock : ∀ i, parent.interval ≤ (ticks i).now) :
    ∃ message : ℕ → Message,
      (∀ i, ∃ rolled,
        (ClientSessionList.create A parent ports macs fresh).sent A ticks i =
          some (rolled, message i) ∧
        ports[i % ports.length]? = some (message i).srcPort ∧
        macs[i / ports.length % macs.length]? = (message i).dstMacHex ∧
        (message i).dstMacHex.isSome ∧
        A.read32 (message i).message A.seqNum = UInt32.ofNat (i / ports.length) ∧
        (rolled = true ↔ ports.length ≤ i ∧
          bucket parent (ticks (i - ports.length)).now ≠ bucket parent (ticks i).now) ∧
        (message i).message.load A.guid maxGuid =
          guidDrawn ports fresh ticks (drawOf parent ports ticks i)) ∧
      (∀ i i' i'', drawOf parent ports ticks i = drawOf parent ports ticks i'' → i ≤ i' → i' ≤ i'' →
        i' % ports.length = i % ports.length → i'' % ports.length = i % ports.length ∧
          drawOf parent ports ticks i' = drawOf parent ports ticks i) ∧
      ((∀ i i', guidDrawn ports fresh ticks (drawOf parent ports ticks i) =
          guidDrawn ports fresh ticks (drawOf parent ports ticks i') →
            drawOf parent ports ticks i = drawOf parent ports ticks i') →
        ∀ i i' i'', (message i).message.load A.guid maxGuid = (message i'').message.load A.guid maxGuid →
          i ≤ i' → i' ≤ i'' → i' % ports.length = i % ports.length →
          i'' % ports.length = i % ports.length ∧
            (message i').message.load A.guid maxGuid = (message i).message.load A.guid maxGuid) ∧
      ∀ i i', i % ports.length = i' % ports.length → ∀ o, Outside A o →
        (message i).message o = (message i').message o := by
  have hbucket : ∀ i, bucket parent (ticks i).now ≠ 0 :=
    fun i => bucket_ne_zero hinterval (hclock i)
  choose rolled message hsent hsrc hrolls hmac hholds houtside using
    fun i => @sent_turn A parent ports macs fresh ticks hports hmacs hbucket i
  have hguid : ∀ i, (message i).message.load A.guid maxGuid =
      guidDrawn ports fresh ticks (drawOf parent ports ticks i) := fun i =>
    (hholds i).guid.trans (generateGuid_drawRand (Nat.mod_lt i (List.length_pos_iff.mpr hports)) _)
  refine ⟨message, fun i => ⟨rolled i, hsent i, hsrc i, (hmac i).symm, ?_, (hholds i).seqNum, ?_,
    hguid i⟩, fun i i' i'' hsame hle hle' hport => drawOf_between hports hsame hle hle' hport,
    fun hdistinct i i' i'' hsame hle hle' hport => ?_, fun i i' hport o ho => ?_⟩
  · rw [hmac i, List.getElem?_eq_getElem (Nat.mod_lt _ (List.length_pos_iff.mpr hmacs))]
    rfl
  · exact (hrolls i).trans (rolls_iff hports i)
  · rw [hguid i, hguid i''] at hsame
    obtain ⟨hport'', hdraw⟩ := drawOf_between hports (hdistinct i i'' hsame) hle hle' hport
    exact ⟨hport'', by rw [hguid i', hdraw, hguid i]⟩
  · have hsame : (message i).srcPort = (message i').srcPort := by
      have hi := hsrc i
      rw [hport, hsrc i'] at hi
      exact (Option.some.inj hi).symm
    rw [houtside i o ho, houtside i' o ho, hsame, hport]

end Discipline

/-- Two ports and two next hops, an iteration every 30 seconds: the sixth sends the third packet of the
second port, in a new interval. Source: none: specification. Kind: C -/
theorem sending_discipline_twoPorts :
    ∃ message, (ClientSessionList.create (lp64 .little) exampleParent [4000, 4001]
        [⟨[2, 0, 0, 0, 0, 8], rfl⟩, ⟨[2, 0, 0, 0, 0, 9], rfl⟩]
        fun ix => { memory := fun _ => 170, now := 60, rand := fun k => k + ix }).sent (lp64 .little)
          (fun i => { now := 60 + 30 * i, guidRand := fun k => k * i, ts := { tvSec := 0, tvNsec := 0 },
                      sizeRand := 7 * i }) 5 = some (true, message) ∧
      message.srcPort = 4001 ∧ message.dstMacHex = some ⟨[2, 0, 0, 0, 0, 8], rfl⟩ ∧
      (lp64 .little).read32 message.message (lp64 .little).seqNum = 2 := by
  obtain ⟨message, hsent, -⟩ := @sending_discipline (lp64 .little) exampleParent (by decide)
    [4000, 4001] (by decide) [⟨[2, 0, 0, 0, 0, 8], rfl⟩, ⟨[2, 0, 0, 0, 0, 9], rfl⟩] (by simp)
    (fun ix => { memory := fun _ => 170, now := 60, rand := fun k => k + ix })
    (fun i => { now := 60 + 30 * i, guidRand := fun k => k * i, ts := { tvSec := 0, tvNsec := 0 },
                sizeRand := 7 * i })
    (fun i => show (60 : ℤ) ≤ 60 + 30 * i by omega)
  obtain ⟨rolled, hsent, hsrc, hmac, -, hseq, hrolls, -⟩ := hsent 5
  obtain rfl : rolled = true := hrolls.mpr (by decide)
  exact ⟨message 5, hsent, (Option.some.inj hsrc).symm, hmac.symm, hseq⟩

end UDPing.Client
