import UDPing.Server.Manager

/-!
# The session table: well-formedness and what each operation does to it

* `session m g` is the live session stored under `g`.
* `WF`: no entry of `sessionMap` is null, and the table and the memory agree: an address is stored
  under `g` exactly when it holds a session created for `g`. Every admissible run keeps it
  (`wf_run`).
* `recordPing_session` and `sweep_eq` say once what a packet and a sweep do; everything later is
  derived from these two and never from the code.
-/

namespace UDPing.Server

open Lib
open Std (ExtTreeMap)

namespace ServerSession

/-- Recording the numbers before a successor's first one, if there is a successor.
Source: `serversession.cc`, `sweepServerSessions`
Kind: D -/
def closeWith (s : ServerSession) (tail : Option UInt32) : ServerSession := tail.elim s s.recordSeq

/-- The session without its successor link. Source: none: infrastructure. Kind: D -/
def forget (s : ServerSession) : ServerSession := s.setSuccessor []

@[simp] theorem setSuccessor_guid (s : ServerSession) (g : Bytes) :
    (s.setSuccessor g).guid = s.guid := rfl

@[simp] theorem recordSeq_guid (s : ServerSession) (q : UInt32) : (s.recordSeq q).guid = s.guid := by
  rw [recordSeq_eq]

@[simp] theorem closeWith_guid (s : ServerSession) (tail : Option UInt32) :
    (s.closeWith tail).guid = s.guid := by
  cases tail with
  | none => rfl
  | some q => exact s.recordSeq_guid q

@[simp] theorem absorb_guid (s : ServerSession) (a : Arrival) : (s.absorb a).guid = s.guid := by
  rw [absorb_eq]

@[simp] theorem create_guid (peer : Bytes) (port : UInt16) (p : Packet) :
    (create peer port p).guid = p.guid := rfl

theorem forget_absorb (s : ServerSession) (a : Arrival) : (s.absorb a).forget = s.forget.absorb a :=
  (absorb_setSuccessor s [] a).symm

/-- A report does not read the successor link. Source: none: infrastructure. Kind: L -/
theorem closeWith_forget_writeStats (s : ServerSession) (tail : Option UInt32) (now : Time) :
    (s.forget.closeWith tail).writeStats now = (s.closeWith tail).writeStats now := by
  cases tail with
  | none => rfl
  | some q =>
      simp only [closeWith, Option.elim, recordSeq_eq, forget, setSuccessor]
      rfl

end ServerSession

namespace ServerSessionManager

variable {m : ServerSessionManager}

/-! ## The live session under a GUID -/

/-- The session stored under `g`, if there is one.
Source: `serversession.h`, `sessionMap`
Kind: D -/
def session (m : ServerSessionManager) (g : Bytes) : Option ServerSession :=
  (subscript m.sessionMap g).bind m.heap

/-- **Well-formedness**: no null entry, and an address is stored under `g` exactly when it holds a
session created for `g`.
Source: `serversession.h`, `sessionMap`
Kind: D -/
structure WF (m : ServerSessionManager) : Prop where
  /-- No entry is null. -/
  nonnull : ∀ g : Bytes, m.sessionMap[g]? ≠ some none
  /-- The table and the memory agree. -/
  stored : ∀ (g : Bytes) (a : Addr), m.sessionMap[g]? = some (some a) ↔ ∃ s, m.heap a = some s ∧ s.guid = g

theorem subscript_eq_some {map : ExtTreeMap Bytes Ptr} {g : Bytes} {a : Addr} :
    subscript map g = some a ↔ map[g]? = some (some a) := by
  rw [subscript]
  cases map[g]? <;> simp

theorem subscript_insert (map : ExtTreeMap Bytes Ptr) (g g' : Bytes) (p : Ptr) :
    subscript (map.insert g p) g' = if g = g' then p else subscript map g' := by
  unfold subscript
  rw [ExtTreeMap.getElem?_insert]
  by_cases h : g = g'
  · simp [h]
  · simp [h]

theorem session_eq_some {g : Bytes} {s : ServerSession} :
    m.session g = some s ↔ ∃ a, m.sessionMap[g]? = some (some a) ∧ m.heap a = some s := by
  simp only [session, Option.bind_eq_some_iff, subscript_eq_some]

/-- A live session carries the GUID it is stored under. Source: none: infrastructure. Kind: L -/
theorem WF.guid_eq (h : WF m) {g : Bytes} {s : ServerSession} (hs : m.session g = some s) :
    s.guid = g := by
  obtain ⟨a, ha, hheap⟩ := session_eq_some.mp hs
  obtain ⟨s', hs', rfl⟩ := (h.stored g a).mp ha
  rw [hheap, Option.some.injEq] at hs'
  rw [hs']

/-- The live sessions are the sessions in memory. Source: none: infrastructure. Kind: L -/
theorem WF.session_of_heap (h : WF m) {a : Addr} {s : ServerSession} (hs : m.heap a = some s) :
    m.session s.guid = some s :=
  session_eq_some.mpr ⟨a, (h.stored s.guid a).mpr ⟨s, hs, rfl⟩, hs⟩

/-- Two addresses that hold sessions of one GUID are one address.
Source: none: infrastructure
Kind: L -/
theorem WF.addr_unique (h : WF m) {a b : Addr} {s t : ServerSession} (hs : m.heap a = some s)
    (ht : m.heap b = some t) (hg : s.guid = t.guid) : a = b := by
  have ha := (h.stored s.guid a).mpr ⟨s, hs, rfl⟩
  have hb := (h.stored t.guid b).mpr ⟨t, ht, rfl⟩
  rw [hg, hb] at ha
  simpa using ha.symm

/-- An entry of the table leads to its session. Source: none: infrastructure. Kind: L -/
theorem WF.entry (h : WF m) {g : Bytes} {p : Ptr} (hp : m.sessionMap[g]? = some p) :
    ∃ a s, p = some a ∧ m.heap a = some s ∧ s.guid = g := by
  cases p with
  | none => exact absurd hp (h.nonnull g)
  | some a =>
      obtain ⟨s, hs, hg⟩ := (h.stored g a).mp hp
      exact ⟨a, s, rfl, hs, hg⟩

/-- A key of the table has a live session and no other GUID has.
Source: none: infrastructure
Kind: L -/
theorem WF.mem_iff (h : WF m) (g : Bytes) : g ∈ m.sessionMap ↔ ∃ s, m.session g = some s := by
  rw [ExtTreeMap.mem_iff_isSome_getElem?, Option.isSome_iff_exists]
  constructor
  · rintro ⟨p, hp⟩
    obtain ⟨a, s, rfl, hs, -⟩ := h.entry hp
    exact ⟨s, session_eq_some.mpr ⟨a, hp, hs⟩⟩
  · rintro ⟨s, hs⟩
    obtain ⟨a, ha, -⟩ := session_eq_some.mp hs
    exact ⟨some a, ha⟩

/-- The fresh manager is well formed. Source: none: infrastructure. Kind: L -/
theorem wf_new (keepalive : ℤ) : WF (ServerSessionManager.new keepalive) where
  nonnull := fun g => by simp [ServerSessionManager.new]
  stored := fun g a => by simp [ServerSessionManager.new]

/-! ## Writing through a pointer -/

@[simp] theorem modify_sessionMap (m : ServerSessionManager) (p : Ptr)
    (f : ServerSession → ServerSession) : (m.modify p f).sessionMap = m.sessionMap := by
  cases p <;> rfl

@[simp] theorem modify_sourceMap (m : ServerSessionManager) (p : Ptr)
    (f : ServerSession → ServerSession) : (m.modify p f).sourceMap = m.sourceMap := by
  cases p <;> rfl

@[simp] theorem modify_keepalive (m : ServerSessionManager) (p : Ptr)
    (f : ServerSession → ServerSession) : (m.modify p f).keepalive = m.keepalive := by
  cases p <;> rfl

@[simp] theorem modify_written (m : ServerSessionManager) (p : Ptr)
    (f : ServerSession → ServerSession) : (m.modify p f).written = m.written := by
  cases p <;> rfl

theorem modify_heap (m : ServerSessionManager) (p : Ptr) (f : ServerSession → ServerSession)
    (a : Addr) : (m.modify p f).heap a = if p = some a then (m.heap a).map f else m.heap a := by
  cases p with
  | none => simp [modify]
  | some b =>
      by_cases hab : b = a
      · subst hab; simp [modify]
      · simp [modify, hab, Function.update_of_ne (Ne.symm hab)]

/-- Two writes through one pointer are one. Source: none: infrastructure. Kind: L -/
theorem modify_modify (m : ServerSessionManager) (p : Ptr) (f g : ServerSession → ServerSession) :
    (m.modify p f).modify p g = m.modify p fun s => g (f s) := by
  cases p with
  | none => rfl
  | some a => simp [modify, Function.comp_def]

/-- The sessions after a write. Source: none: infrastructure. Kind: L -/
theorem session_modify (m : ServerSessionManager) (p : Ptr) (f : ServerSession → ServerSession)
    (g : Bytes) :
    (m.modify p f).session g =
      if subscript m.sessionMap g = p then (m.session g).map f else m.session g := by
  unfold session
  rw [modify_sessionMap]
  cases hsub : subscript m.sessionMap g with
  | none => simp
  | some a =>
      simp only [Option.bind_some, modify_heap]
      by_cases hp : p = some a
      · simp [hp]
      · simp [hp, Ne.symm hp]

/-- A write that keeps the GUID keeps the table well formed.
Source: none: infrastructure
Kind: L -/
theorem WF.modify (h : WF m) (p : Ptr) {f : ServerSession → ServerSession}
    (hf : ∀ s, (f s).guid = s.guid) : WF (m.modify p f) where
  nonnull := fun g => by rw [modify_sessionMap]; exact h.nonnull g
  stored := fun g a => by
    rw [modify_sessionMap, h.stored g a, modify_heap]
    by_cases hp : p = some a
    · simp [hp, hf]
    · simp [hp]

/-! ## What one packet does -/

/-- The session whose successor link a packet with a new GUID sets: the one `sourceMap` holds for
the source, if it reads as started at the same time.
Source: `serversession.cc`, `ServerSessionManager::getServerSession`
Kind: D -/
def linkTarget (m : ServerSessionManager) (source : Bytes) (p : Packet) (mem : Memory) : Ptr :=
  match subscript m.sourceMap source with
  | none => none
  | some predecessor =>
    if m.readClientStartTime predecessor mem = p.clientStartTime.toNat then some predecessor
    else none

/-- Counting a packet of the interval. Source: `serversession.cc`, `receivePing`. Kind: D -/
def countPacket (m : ServerSessionManager) : ServerSessionManager :=
  { m with intervalPacketsReceived := cInt (m.intervalPacketsReceived + 1) }

/-- The manager with a new session in memory and in both maps.
Source: `serversession.cc`, `ServerSessionManager::getServerSession`
Kind: D -/
def addSession (m : ServerSessionManager) (a : Arrival) (mem : Memory) : ServerSessionManager :=
  (m.newSession a.peer a.port a.ph mem).storeSession (sourceKey a.peer a.port) a.ph.guid
    (some mem.addr)

/-- The session a packet with a new GUID sets a successor on.
Source: `serversession.cc`, `ServerSessionManager::getServerSession`
Kind: D -/
def predecessorOf (m : ServerSessionManager) (a : Arrival) (mem : Memory) : Ptr :=
  (m.newSession a.peer a.port a.ph mem).linkTarget (sourceKey a.peer a.port) a.ph mem

/-- A source that is not known has no predecessor. Source: `serversession.cc`,
`getServerSession`. Kind: L -/
theorem predecessorOf_none {a : Arrival} (mem : Memory)
    (hsub : subscript m.sourceMap (sourceKey a.peer a.port) = none) :
    m.predecessorOf a mem = none := by
  unfold predecessorOf linkTarget
  change (match subscript m.sourceMap (sourceKey a.peer a.port) with
    | none => none
    | some predecessor => _) = none
  rw [hsub]

/-- The predecessor, when the session of the source is not deleted.
Source: `serversession.cc`, `getServerSession`
Kind: L -/
theorem predecessorOf_of_heap {a : Arrival} {mem : Memory} {b : Addr} {s : ServerSession}
    (hsub : subscript m.sourceMap (sourceKey a.peer a.port) = some b) (hs : m.heap b = some s)
    (hfree : m.heap mem.addr = none) :
    m.predecessorOf a mem =
      if s.clientStartTime = a.ph.clientStartTime.toNat then some b else none := by
  have hne : b ≠ mem.addr := by
    rintro rfl
    rw [hfree] at hs
    cases hs
  unfold predecessorOf linkTarget
  change (match subscript m.sourceMap (sourceKey a.peer a.port) with
    | none => none
    | some predecessor => _) = _
  rw [hsub]
  simp only [readClientStartTime, newSession, Function.update_of_ne hne, hs]

/-- Linking is one write. Source: `serversession.cc`, `getServerSession`. Kind: L -/
theorem linkPredecessor_eq (m : ServerSessionManager) (source : Bytes) (p : Packet)
    (mem : Memory) :
    m.linkPredecessor source p mem =
      m.modify (m.linkTarget source p mem) fun s => s.setSuccessor p.guid := by
  unfold linkPredecessor linkTarget
  cases subscript m.sourceMap source with
  | none => rfl
  | some b =>
      dsimp only
      split_ifs <;> rfl

/-- Writing through a pointer and storing commute. Source: none: infrastructure. Kind: L -/
theorem storeSession_modify (m : ServerSessionManager) (p : Ptr)
    (f : ServerSession → ServerSession) (source guid : Bytes) (ds : Ptr) :
    (m.modify p f).storeSession source guid ds = (m.storeSession source guid ds).modify p f := by
  cases p <;> rfl

/-- After it has the session, `receivePing` makes it absorb the packet.
Source: `serversession.cc`, `ServerSessionManager::receivePing`
Kind: L -/
theorem recordPing_eq (m : ServerSessionManager) (a : Arrival) (mem : Memory) :
    m.recordPing a mem =
      (m.countPacket.getServerSession a.peer a.port a.ph mem).2.modify
        (m.countPacket.getServerSession a.peer a.port a.ph mem).1 fun s => s.absorb a := by
  unfold recordPing
  simp only [modify_modify]
  rfl

/-- The session of a GUID that has one. Source: `serversession.cc`, `getServerSession`. Kind: L -/
theorem getServerSession_of_mem {a : Arrival} (mem : Memory) (hg : a.ph.guid ∈ m.sessionMap) :
    m.getServerSession a.peer a.port a.ph mem = (subscript m.sessionMap a.ph.guid, m) := by
  unfold getServerSession
  rw [if_pos hg]

/-- A session for a GUID that has none: it is created, and the previous session of the source is
linked to it.
Source: `serversession.cc`, `ServerSessionManager::getServerSession`
Kind: L -/
theorem getServerSession_of_not_mem {a : Arrival} (mem : Memory) (hg : a.ph.guid ∉ m.sessionMap) :
    m.getServerSession a.peer a.port a.ph mem =
      (some mem.addr, (m.addSession a mem).modify (m.predecessorOf a mem)
        fun s => s.setSuccessor a.ph.guid) := by
  unfold getServerSession
  rw [if_neg hg]
  dsimp only
  rw [linkPredecessor_eq, storeSession_modify, modify_sessionMap]
  exact Prod.ext ((subscript_insert _ _ _ _).trans (if_pos rfl)) rfl

/-- **A packet of a live session**: the session absorbs it.
Source: `serversession.cc`, `ServerSessionManager::receivePing`
Kind: L -/
theorem recordPing_of_mem {a : Arrival} (mem : Memory) (hg : a.ph.guid ∈ m.sessionMap) :
    m.recordPing a mem =
      m.countPacket.modify (subscript m.sessionMap a.ph.guid) fun s => s.absorb a := by
  have hcount : a.ph.guid ∈ m.countPacket.sessionMap := hg
  rw [recordPing_eq, getServerSession_of_mem mem hcount]
  rfl

/-- **A packet of a GUID without a session**: a session is created, the previous session of the
source is linked to it, and it absorbs the packet.
Source: `serversession.cc`, `ServerSessionManager::receivePing`, `getServerSession`
Kind: L -/
theorem recordPing_of_not_mem {a : Arrival} (mem : Memory) (hg : a.ph.guid ∉ m.sessionMap) :
    m.recordPing a mem =
      ((m.countPacket.addSession a mem).modify (m.predecessorOf a mem)
        fun s => s.setSuccessor a.ph.guid).modify (some mem.addr) fun s => s.absorb a := by
  have hcount : a.ph.guid ∉ m.countPacket.sessionMap := hg
  rw [recordPing_eq, getServerSession_of_not_mem mem hcount]
  rfl

/-! ### The table after one packet -/

section packet

variable {a : Arrival} {mem : Memory}

/-- The table after a packet: its GUID is stored at its own address or at the new one.
Source: `serversession.cc`, `getServerSession`
Kind: L -/
theorem recordPing_sessionMap (m : ServerSessionManager) (a : Arrival) (mem : Memory) :
    (m.recordPing a mem).sessionMap =
      if a.ph.guid ∈ m.sessionMap then m.sessionMap
      else m.sessionMap.insert a.ph.guid (some mem.addr) := by
  by_cases hg : a.ph.guid ∈ m.sessionMap
  · rw [recordPing_of_mem mem hg, modify_sessionMap, if_pos hg]
    rfl
  · rw [recordPing_of_not_mem mem hg, modify_sessionMap, modify_sessionMap, if_neg hg]
    rfl

/-- The sources after a packet: the source of a new session points to it.
Source: `serversession.cc`, `getServerSession`
Kind: L -/
theorem recordPing_sourceMap (m : ServerSessionManager) (a : Arrival) (mem : Memory) :
    (m.recordPing a mem).sourceMap =
      if a.ph.guid ∈ m.sessionMap then m.sourceMap
      else m.sourceMap.insert (sourceKey a.peer a.port) (some mem.addr) := by
  by_cases hg : a.ph.guid ∈ m.sessionMap
  · rw [recordPing_of_mem mem hg, modify_sourceMap, if_pos hg]
    rfl
  · rw [recordPing_of_not_mem mem hg, modify_sourceMap, modify_sourceMap, if_neg hg]
    rfl

@[simp] theorem recordPing_written (m : ServerSessionManager) (a : Arrival) (mem : Memory) :
    (m.recordPing a mem).written = m.written := by
  by_cases hg : a.ph.guid ∈ m.sessionMap
  · rw [recordPing_of_mem mem hg, modify_written]
    rfl
  · rw [recordPing_of_not_mem mem hg, modify_written, modify_written]
    rfl

@[simp] theorem recordPing_keepalive (m : ServerSessionManager) (a : Arrival) (mem : Memory) :
    (m.recordPing a mem).keepalive = m.keepalive := by
  by_cases hg : a.ph.guid ∈ m.sessionMap
  · rw [recordPing_of_mem mem hg, modify_keepalive]
    rfl
  · rw [recordPing_of_not_mem mem hg, modify_keepalive, modify_keepalive]
    rfl

theorem mem_recordPing_sessionMap (m : ServerSessionManager) (a : Arrival) (mem : Memory)
    (g : Bytes) :
    g ∈ (m.recordPing a mem).sessionMap ↔ a.ph.guid = g ∨ g ∈ m.sessionMap := by
  rw [recordPing_sessionMap]
  split_ifs with hg
  · exact ⟨Or.inr, fun h => h.elim (fun h => h ▸ hg) id⟩
  · simp

/-- Storing a session at a free address keeps the table well formed.
Source: `serversession.cc`, `getServerSession`
Kind: L -/
theorem WF.addSession (h : WF m) (hfree : m.heap mem.addr = none)
    (hg : a.ph.guid ∉ m.sessionMap) : WF (m.addSession a mem) where
  nonnull := fun g => by
    change (m.sessionMap.insert a.ph.guid (some mem.addr))[g]? ≠ some none
    rw [ExtTreeMap.getElem?_insert]
    split_ifs
    · simp
    · exact h.nonnull g
  stored := fun g b => by
    change (m.sessionMap.insert a.ph.guid (some mem.addr))[g]? = _ ↔
      ∃ s, Function.update m.heap mem.addr (some (ServerSession.create a.peer a.port a.ph)) b =
        some s ∧ s.guid = g
    have hnot : ∀ s, ¬ (m.heap b = some s ∧ s.guid = a.ph.guid) := fun s ⟨hs, hsg⟩ =>
      hg ((h.mem_iff _).mpr ⟨s, hsg ▸ h.session_of_heap hs⟩)
    rw [ExtTreeMap.getElem?_insert]
    simp only [Std.compare_eq_iff_eq]
    by_cases hb : b = mem.addr
    · subst hb
      rw [Function.update_self]
      by_cases hgg : a.ph.guid = g
      · simp [hgg]
      · -- no other GUID can be stored at an address that was free
        rw [if_neg hgg, h.stored, hfree]
        simp [hgg]
    · rw [Function.update_of_ne hb]
      by_cases hgg : a.ph.guid = g
      · subst hgg
        simp only [if_true, Option.some.injEq, Ne.symm hb, false_iff, not_exists]
        exact hnot
      · rw [if_neg hgg, h.stored]

/-- The sessions after a new one is stored. Source: `serversession.cc`, `getServerSession`.
Kind: L -/
theorem session_addSession (h : WF m) (hfree : m.heap mem.addr = none) (g : Bytes) :
    (m.addSession a mem).session g =
      if a.ph.guid = g then some (ServerSession.create a.peer a.port a.ph) else m.session g := by
  change (subscript (m.sessionMap.insert a.ph.guid (some mem.addr)) g).bind
    (Function.update m.heap mem.addr (some (ServerSession.create a.peer a.port a.ph))) = _
  rw [subscript_insert]
  split_ifs with hg
  · simp
  · cases hsub : subscript m.sessionMap g with
    | none => simp [session, hsub]
    | some b =>
        have hb : b ≠ mem.addr := by
          intro hb
          obtain ⟨s, hs, -⟩ := (h.stored g b).mp (subscript_eq_some.mp hsub)
          rw [hb, hfree] at hs
          cases hs
        simp [session, hsub, Function.update_of_ne hb]

/-- A packet keeps the table well formed.
Source: `serversession.cc`, `receivePing`
Kind: P -/
theorem WF.recordPing (h : WF m) (hfree : m.heap mem.addr = none) : WF (m.recordPing a mem) := by
  have hcount : WF m.countPacket := ⟨h.nonnull, h.stored⟩
  by_cases hg : a.ph.guid ∈ m.sessionMap
  · rw [recordPing_of_mem mem hg]
    exact hcount.modify _ fun s => s.absorb_guid a
  · rw [recordPing_of_not_mem mem hg]
    exact ((hcount.addSession hfree hg).modify _ fun s => s.setSuccessor_guid a.ph.guid).modify _
      fun s => s.absorb_guid a

/-- **The session of the packet**, when its GUID was live.
Source: `serversession.cc`, `receivePing`
Kind: P -/
theorem recordPing_session_live {s : ServerSession} (h : WF m)
    (hs : m.session a.ph.guid = some s) :
    (m.recordPing a mem).session a.ph.guid = some (s.absorb a) := by
  have hg : a.ph.guid ∈ m.sessionMap := (h.mem_iff _).mpr ⟨s, hs⟩
  rw [recordPing_of_mem mem hg, session_modify]
  exact (if_pos rfl).trans (congrArg (Option.map _) hs)

/-- **The session of the packet**, when its GUID was new. It is its own successor exactly when the
allocator gave it the address `sourceMap` still holds for the source.
Source: `serversession.cc`, `receivePing`, `getServerSession`
Kind: P -/
theorem recordPing_session_new (h : WF m) (hfree : m.heap mem.addr = none)
    (hg : a.ph.guid ∉ m.sessionMap) :
    (m.recordPing a mem).session a.ph.guid =
      some ((if m.predecessorOf a mem = some mem.addr then
        (ServerSession.create a.peer a.port a.ph).setSuccessor a.ph.guid
        else ServerSession.create a.peer a.port a.ph).absorb a) := by
  have hcount : WF m.countPacket := ⟨h.nonnull, h.stored⟩
  have hsub : subscript (m.countPacket.addSession a mem).sessionMap a.ph.guid = some mem.addr :=
    (subscript_insert _ _ _ _).trans (if_pos rfl)
  rw [recordPing_of_not_mem mem hg, session_modify, modify_sessionMap, if_pos hsub,
    session_modify, hsub, session_addSession hcount hfree, if_pos rfl]
  by_cases hp : m.predecessorOf a mem = some mem.addr
  · rw [if_pos hp.symm, if_pos hp]
    rfl
  · rw [if_neg (Ne.symm hp), if_neg hp]
    rfl

/-- **The other sessions** after a packet: only a predecessor changes, and only in its link.
Source: `serversession.cc`, `receivePing`, `getServerSession`
Kind: P -/
theorem recordPing_session_other {g : Bytes} (h : WF m) (hfree : m.heap mem.addr = none)
    (hne : a.ph.guid ≠ g) :
    (m.recordPing a mem).session g =
      if a.ph.guid ∉ m.sessionMap ∧ subscript m.sessionMap g = m.predecessorOf a mem then
        (m.session g).map fun s => s.setSuccessor a.ph.guid
      else m.session g := by
  have hcount : WF m.countPacket := ⟨h.nonnull, h.stored⟩
  by_cases hg : a.ph.guid ∈ m.sessionMap
  · have hsub : subscript m.sessionMap g ≠ subscript m.sessionMap a.ph.guid := by
      -- two GUIDs at one address would be one GUID
      intro hsub
      obtain ⟨s, hs⟩ := (h.mem_iff _).mp hg
      obtain ⟨b, hb, hheap⟩ := session_eq_some.mp hs
      rw [subscript_eq_some.mpr hb] at hsub
      obtain ⟨t, ht, htg⟩ := (h.stored g b).mp (subscript_eq_some.mp hsub)
      rw [hheap, Option.some.injEq] at ht
      exact hne (by rw [← h.guid_eq hs, ht, htg])
    rw [recordPing_of_mem mem hg, session_modify]
    exact (if_neg hsub).trans (if_neg fun hc => hc.1 hg).symm
  · have hsub : subscript (m.countPacket.addSession a mem).sessionMap g =
        subscript m.sessionMap g := (subscript_insert _ _ _ _).trans (if_neg hne)
    have haddr : subscript m.sessionMap g ≠ some mem.addr := by
      intro hc
      obtain ⟨t, ht, -⟩ := (h.stored g _).mp (subscript_eq_some.mp hc)
      rw [hfree] at ht
      cases ht
    rw [recordPing_of_not_mem mem hg, session_modify, modify_sessionMap, hsub, if_neg haddr,
      session_modify, hsub, session_addSession hcount hfree, if_neg hne]
    by_cases hp : subscript m.sessionMap g = m.predecessorOf a mem
    · rw [if_pos hp, if_pos ⟨hg, hp⟩]
      rfl
    · rw [if_neg hp, if_neg fun hc => hp hc.2]
      rfl

/-- Up to the links, a packet changes the session of its GUID and no other.
Source: `serversession.cc`, `receivePing`
Kind: P -/
theorem recordPing_forget (h : WF m) (hfree : m.heap mem.addr = none) (g : Bytes) :
    ((m.recordPing a mem).session g).map ServerSession.forget =
      if a.ph.guid = g then
        some ((((m.session g).map ServerSession.forget).getD
          (ServerSession.create a.peer a.port a.ph)).absorb a)
      else (m.session g).map ServerSession.forget := by
  split_ifs with hg
  · subst hg
    by_cases hmem : a.ph.guid ∈ m.sessionMap
    · obtain ⟨s, hs⟩ := (h.mem_iff _).mp hmem
      rw [recordPing_session_live h hs, hs]
      exact congrArg some (s.forget_absorb a)
    · have hnone : m.session a.ph.guid = none := by
        rw [← Option.not_isSome_iff_eq_none, Option.isSome_iff_exists, ← h.mem_iff]
        exact hmem
      rw [recordPing_session_new h hfree hmem, hnone]
      split_ifs <;> exact congrArg some (ServerSession.forget_absorb _ a)
  · rw [recordPing_session_other h hfree hg]
    split_ifs
    · cases m.session g <;> rfl
    · rfl

end packet

/-! ## What a sweep does -/

/-- The session under `g` has expired at `now`.
Source: `serversession.cc`, `sweepServerSessions` (`getLastArrival() < now - keepalive`)
Kind: D -/
def expired (m : ServerSessionManager) (now : Time) (g : Bytes) : Bool :=
  (m.session g).elim false fun s => decide (s.lastArrival < now - m.keepalive)

/-- The manager without the sessions of the GUIDs in `P`.
Source: none: infrastructure
Kind: D -/
def without (m : ServerSessionManager) (P : Bytes → Bool) : ServerSessionManager :=
  { m with
    heap := fun a => (m.heap a).filter fun s => !P s.guid
    sessionMap := m.sessionMap.filter fun g _ => !P g }

/-- What the sweep at `now` records in the session of `g` before reporting it: the number before
its successor's first one, unless there is no successor or the sweep has removed it already.
Source: `serversession.cc`, `sweepServerSessions`
Kind: D -/
def finalTail (m : ServerSessionManager) (now : Time) (g : Bytes) (s : ServerSession) :
    Option UInt32 :=
  if m.expired now s.successor ∧ compare s.successor g = .lt then none
  else (m.session s.successor).map fun successor => successor.minSeq - 1

/-- The report the sweep at `now` writes for `g`. Source: `serversession.cc`,
`sweepServerSessions`. Kind: D -/
def finalReport (m : ServerSessionManager) (now : Time) (g : Bytes) : Option Report :=
  (m.session g).map fun s => (s.closeWith (m.finalTail now g s)).writeStats now

/-- The reports a sweep at `now` writes, in key order.
Source: `serversession.cc`, `sweepServerSessions`
Kind: D -/
def sweepReports (m : ServerSessionManager) (now : Time) : List Report :=
  (m.sessionMap.toList.filter fun e => m.expired now e.1).filterMap fun e => m.finalReport now e.1

/-- `closeGap` reads the successor's live session.
Source: `serversession.cc`, `sweepServerSessions`
Kind: L -/
theorem closeGap_eq (m : ServerSessionManager) (s : ServerSession) :
    m.closeGap s = s.closeWith ((m.session s.successor).map fun t => t.minSeq - 1) := by
  unfold closeGap session
  split_ifs with hmem
  · cases (subscript m.sessionMap s.successor).bind m.heap <;> rfl
  · have hnone : subscript m.sessionMap s.successor = none := by
      rw [subscript, ExtTreeMap.getElem?_eq_none hmem]
      rfl
    rw [hnone]
    rfl

theorem without_sessionMap (P : Bytes → Bool) (g : Bytes) :
    (m.without P).sessionMap[g]? = if P g then none else m.sessionMap[g]? := by
  change (m.sessionMap.filter fun g _ => !P g)[g]? = _
  rw [ExtTreeMap.getElem?_filter']
  cases m.sessionMap[g]? <;> cases P g <;> rfl

/-- The sessions left. Source: none: infrastructure. Kind: L -/
theorem WF.session_without (h : WF m) (P : Bytes → Bool) (g : Bytes) :
    (m.without P).session g = if P g then none else m.session g := by
  unfold session subscript
  rw [without_sessionMap]
  cases hP : P g with
  | true => rfl
  | false =>
      cases hsub : m.sessionMap[g]? with
      | none => rfl
      | some p =>
          obtain ⟨a, s, rfl, hs, hsg⟩ := h.entry hsub
          change (m.heap a).filter (fun s => !P s.guid) = m.heap a
          rw [hs, Option.filter_some, hsg, hP]
          rfl

/-- Removing sessions keeps the table well formed. Source: none: infrastructure. Kind: L -/
theorem WF.without (h : WF m) (P : Bytes → Bool) : WF (m.without P) where
  nonnull := fun g => by
    rw [without_sessionMap]
    split_ifs
    · simp
    · exact h.nonnull g
  stored := fun g a => by
    change _ ↔ ∃ s, (m.heap a).filter (fun s => !P s.guid) = some s ∧ s.guid = g
    rw [without_sessionMap]
    simp only [Option.filter_eq_some_iff, Bool.not_eq_true', and_assoc]
    cases hP : P g with
    | true =>
        simp only [if_true, reduceCtorEq, false_iff, not_exists, not_and]
        rintro s - hs rfl
        rw [hP] at hs
        cases hs
    | false =>
        rw [if_neg (by simp), h.stored]
        constructor
        · rintro ⟨s, hs, rfl⟩
          exact ⟨s, hs, hP, rfl⟩
        · rintro ⟨s, hs, -, rfl⟩
          exact ⟨s, hs, rfl⟩

/-- Only the GUIDs with a live session matter to `without`.
Source: none: infrastructure
Kind: L -/
theorem WF.without_congr (h : WF m) {P Q : Bytes → Bool}
    (hPQ : ∀ g s, m.session g = some s → P g = Q g) : m.without P = m.without Q := by
  have hheap : (m.without P).heap = (m.without Q).heap := by
    funext a
    change (m.heap a).filter (fun s => !P s.guid) = (m.heap a).filter (fun s => !Q s.guid)
    cases hs : m.heap a with
    | none => rfl
    | some s => simp only [Option.filter_some, hPQ _ _ (h.session_of_heap hs)]
  have hmap : (m.without P).sessionMap = (m.without Q).sessionMap := by
    refine ExtTreeMap.ext_getElem? fun g => ?_
    rw [without_sessionMap, without_sessionMap]
    cases hg : m.sessionMap[g]? with
    | none => simp
    | some p =>
        obtain ⟨a, s, rfl, hs, -⟩ := h.entry hg
        rw [hPQ g s (session_eq_some.mpr ⟨a, hg, hs⟩)]
  exact ServerSessionManager.ext hmap rfl rfl rfl hheap rfl

/-- Removing nothing. Source: none: infrastructure. Kind: L -/
theorem without_false (m : ServerSessionManager) : (m.without fun _ => false) = m := by
  have hmap : (m.without fun _ => false).sessionMap = m.sessionMap := by
    refine ExtTreeMap.ext_getElem? fun g => ?_
    rw [without_sessionMap]
    rfl
  have hheap : (m.without fun _ => false).heap = m.heap := by
    funext a
    change (m.heap a).filter (fun s => !false) = m.heap a
    cases m.heap a <;> rfl
  exact ServerSessionManager.ext hmap rfl rfl rfl hheap rfl

/-- One removal more. Source: none: infrastructure. Kind: L -/
theorem WF.removeSession_without (h : WF m) {P : Bytes → Bool} {g : Bytes} {a : Addr}
    {s s' : ServerSession} (hs : m.heap a = some s) (hg : s.guid = g) (now : Time)
    (w : List Report) :
    ({ m.without P with written := w }).removeSession now g a s' =
      { m.without fun g' => P g' || g' == g with written := w ++ [s'.writeStats now] } := by
  refine ServerSessionManager.ext ?_ rfl rfl rfl ?_ rfl
  · refine ExtTreeMap.ext_getElem? fun g' => ?_
    change ((m.without P).sessionMap.erase g)[g']? =
      (m.without fun g' => P g' || g' == g).sessionMap[g']?
    rw [ExtTreeMap.getElem?_erase, without_sessionMap, without_sessionMap]
    by_cases hgg : g = g'
    · simp [hgg]
    · have : (g' == g) = false := by simpa using Ne.symm hgg
      simp [hgg, this]
  · funext b
    change Function.update (fun b => (m.heap b).filter fun s => !P s.guid) a none b =
      (m.heap b).filter fun s => !(P s.guid || s.guid == g)
    by_cases hb : b = a
    · subst hb
      rw [Function.update_self, hs, Option.filter_some, hg]
      simp
    · rw [Function.update_of_ne hb]
      cases ht : m.heap b with
      | none => rfl
      | some t =>
          have : (t.guid == g) = false := by
            simpa using fun htg => hb (h.addr_unique ht hs (htg.trans hg.symm))
          rw [Option.filter_some, Option.filter_some, this, Bool.or_false]

/-- The keys before an entry of the table are the keys below it.
Source: `std::map` (key order)
Kind: L -/
theorem any_prefix_iff {map : ExtTreeMap Bytes Ptr} {pre post : List (Bytes × Ptr)} {g x : Bytes}
    {p q : Ptr} (htl : map.toList = pre ++ (g, p) :: post) (hx : map[x]? = some q) :
    pre.any (fun e => e.1 == x) = true ↔ compare x g = .lt := by
  have hord := map.ordered_keys_toList
  rw [htl, List.pairwise_append, List.pairwise_cons] at hord
  have hmem : (x, q) ∈ pre ++ (g, p) :: post := by
    rw [← htl]
    exact ExtTreeMap.mem_toList_iff_getElem?_eq_some.mpr hx
  constructor
  · intro hany
    obtain ⟨e, he, hex⟩ := List.any_eq_true.mp hany
    rw [← beq_iff_eq.mp hex]
    exact hord.2.2 e he (g, p) List.mem_cons_self
  · intro hlt
    rcases List.mem_append.mp hmem with hpre | hpost
    · exact List.any_eq_true.mpr ⟨(x, q), hpre, by simp⟩
    · rcases List.mem_cons.mp hpost with heq | hpost
      · have hxg : x = g := (Prod.ext_iff.mp heq).1
        rw [hxg, Std.compare_self] at hlt
        cases hlt
      · have hgt := Std.OrientedCmp.gt_of_lt (hord.2.1.1 (x, q) hpost)
        rw [hlt] at hgt
        cases hgt

/-- The GUIDs whose sessions are gone once the loop has passed the entries `pre`.
Source: `serversession.cc`, `sweepServerSessions`
Kind: D -/
def passed (m : ServerSessionManager) (now : Time) (pre : List (Bytes × Ptr)) (g : Bytes) : Bool :=
  m.expired now g && pre.any fun e => e.1 == g

/-- The entry the loop stands on has not been passed. Source: none: infrastructure. Kind: L -/
theorem passed_self {pre post : List (Bytes × Ptr)} {g : Bytes} {p : Ptr}
    (htl : m.sessionMap.toList = pre ++ (g, p) :: post) (hp : m.sessionMap[g]? = some p)
    (now : Time) : m.passed now pre g = false := by
  have hpre : (pre.any fun e => e.1 == g) = false := by
    rw [← Bool.not_eq_true, any_prefix_iff htl hp, Std.compare_self]
    simp
  rw [passed, hpre, Bool.and_false]

/-- Once all entries have been passed. Source: none: infrastructure. Kind: L -/
theorem WF.without_passed_toList (h : WF m) (now : Time) :
    m.without (m.passed now m.sessionMap.toList) = m.without (m.expired now) := by
  refine h.without_congr fun g s hs => ?_
  obtain ⟨a, ha, -⟩ := session_eq_some.mp hs
  have hany : (m.sessionMap.toList.any fun e => e.1 == g) = true := List.any_eq_true.mpr
    ⟨(g, some a), ExtTreeMap.mem_toList_iff_getElem?_eq_some.mpr ha, by simp⟩
  rw [passed, hany, Bool.and_true]

/-- An expired entry is passed and removed. Source: none: infrastructure. Kind: L -/
theorem WF.without_passed_concat (h : WF m) {now : Time} {g : Bytes}
    (hexp : m.expired now g = true) (pre : List (Bytes × Ptr)) (p : Ptr) :
    m.without (fun g' => m.passed now pre g' || g' == g) =
      m.without (m.passed now (pre ++ [(g, p)])) := by
  refine h.without_congr fun g' s' _ => ?_
  rw [passed, passed, List.any_append]
  by_cases hgg : g' = g
  · simp [hgg, hexp]
  · have h1 : (g' == g) = false := by simpa using hgg
    have h2 : (g == g') = false := by simpa using Ne.symm hgg
    simp [h1, h2]

/-- An entry that has not expired is passed. Source: none: infrastructure. Kind: L -/
theorem WF.without_passed_concat_of_live (h : WF m) {now : Time} {g : Bytes}
    (hexp : m.expired now g = false) (pre : List (Bytes × Ptr)) (p : Ptr) :
    m.without (m.passed now pre) = m.without (m.passed now (pre ++ [(g, p)])) := by
  refine h.without_congr fun g' s' _ => ?_
  rw [passed, passed, List.any_append]
  by_cases hgg : g' = g
  · simp [hgg, hexp]
  · have h2 : (g == g') = false := by simpa using Ne.symm hgg
    simp [h2]

/-- The successor is found unless it lies before the entry and has expired.
Source: `serversession.cc`, `sweepServerSessions`
Kind: L -/
theorem WF.closeGap_passed (h : WF m) {now : Time} {pre post : List (Bytes × Ptr)} {g : Bytes}
    {p : Ptr} (htl : m.sessionMap.toList = pre ++ (g, p) :: post) (w : List Report)
    (s : ServerSession) :
    ServerSessionManager.closeGap { m.without (m.passed now pre) with written := w } s =
      s.closeWith (m.finalTail now g s) := by
  rw [closeGap_eq]
  refine congrArg s.closeWith ?_
  change ((m.without _).session s.successor).map _ = _
  rw [h.session_without, finalTail]
  cases ht : m.session s.successor with
  | none => simp
  | some t =>
      obtain ⟨b, hb, -⟩ := session_eq_some.mp ht
      simp only [passed, Bool.and_eq_true, any_prefix_iff htl hb]
      split_ifs <;> rfl

/-- The loop at the entry of a session. Source: `serversession.cc`, `sweepServerSessions`.
Kind: L -/
theorem sweepFrom_cons (now : Time) {m : ServerSessionManager} {a : Addr} {s : ServerSession}
    (hs : m.heap a = some s) (guid : Bytes) (rest : List (Bytes × Ptr)) :
    sweepFrom now ((guid, some a) :: rest) m =
      if s.lastArrival < now - m.keepalive then
        sweepFrom now rest (m.removeSession now guid a (m.closeGap s))
      else sweepFrom now rest m := by
  rw [sweepFrom, hs]

/-- The loop from an entry on, once the expired entries before it are gone.
Source: `serversession.cc`, `sweepServerSessions`
Kind: L -/
theorem WF.sweepFrom_eq (h : WF m) (now : Time) (post : List (Bytes × Ptr)) :
    ∀ (pre : List (Bytes × Ptr)) (w : List Report), m.sessionMap.toList = pre ++ post →
      sweepFrom now post { m.without (m.passed now pre) with written := w } =
        { m.without (m.expired now) with
          written := w ++ (post.filter fun e => m.expired now e.1).filterMap fun e =>
            m.finalReport now e.1 } := by
  induction post with
  | nil =>
      intro pre w htl
      rw [List.append_nil] at htl
      simp only [sweepFrom, ← htl, h.without_passed_toList, List.filter_nil, List.filterMap_nil,
        List.append_nil]
  | cons e post ih =>
      obtain ⟨g, p⟩ := e
      intro pre w htl
      have hp : m.sessionMap[g]? = some p := by
        rw [← ExtTreeMap.mem_toList_iff_getElem?_eq_some, htl]
        simp
      obtain ⟨a, s, rfl, hs, hsg⟩ := h.entry hp
      have hsess : m.session g = some s := session_eq_some.mpr ⟨a, hp, hs⟩
      have hexp : m.expired now g = decide (s.lastArrival < now - m.keepalive) := by
        rw [expired, hsess]
        rfl
      have htl' : m.sessionMap.toList = (pre ++ [(g, some a)]) ++ post := by
        rw [htl, List.append_assoc]
        rfl
      have hheap : (m.without (m.passed now pre)).heap a = some s := by
        change (m.heap a).filter _ = some s
        rw [hs, Option.filter_some, hsg]
        simp [passed_self htl hp now]
      rw [sweepFrom_cons now (m := { m.without (m.passed now pre) with written := w }) hheap]
      change (if s.lastArrival < now - m.keepalive then _ else _) = _
      by_cases hlt : s.lastArrival < now - m.keepalive
      · have hexp' : m.expired now g = true := hexp.trans (decide_eq_true hlt)
        rw [if_pos hlt, h.closeGap_passed htl w s, h.removeSession_without hs hsg,
          h.without_passed_concat hexp' pre (some a), ih _ _ htl',
          List.filter_cons_of_pos (by simpa using hexp')]
        simp only [List.filterMap_cons, finalReport, hsess, Option.map_some,
          List.append_assoc, List.singleton_append]
      · have hexp' : m.expired now g = false := hexp.trans (decide_eq_false hlt)
        rw [if_neg hlt, h.without_passed_concat_of_live hexp' pre (some a), ih _ _ htl',
          List.filter_cons_of_neg (by simp [hexp'])]

/-- **What a sweep does**: the expired sessions are gone, each has been reported once in key
order, nothing else has changed.
Source: `serversession.cc`, `ServerSessionManager::sweepServerSessions`
Kind: P -/
theorem WF.sweep_eq (h : WF m) (now : Time) :
    m.sweepServerSessions now =
      { m.without (m.expired now) with written := m.written ++ m.sweepReports now } := by
  have hstart := h.sweepFrom_eq now m.sessionMap.toList [] m.written rfl
  have hpassed : m.passed now [] = fun _ => false := by
    funext g
    rw [passed, List.any_nil, Bool.and_false]
  have hnone : m.without (m.passed now []) = m := by
    rw [hpassed, without_false]
  rw [hnone] at hstart
  exact hstart

/-- A sweep that finds nothing expired changes nothing.
Source: `serversession.cc`, `sweepServerSessions`
Kind: C -/
theorem WF.sweep_of_not_expired (h : WF m) {now : Time} (hno : ∀ g, m.expired now g = false) :
    m.sweepServerSessions now = m := by
  have hreports : m.sweepReports now = [] := by
    rw [sweepReports, List.filter_eq_nil_iff.mpr fun e _ => by simp [hno]]
    rfl
  rw [h.sweep_eq, hreports, funext hno, without_false, List.append_nil]

/-- The sessions after a sweep. Source: `serversession.cc`, `sweepServerSessions`. Kind: C -/
theorem WF.session_sweep (h : WF m) (now : Time) (g : Bytes) :
    (m.sweepServerSessions now).session g = if m.expired now g then none else m.session g := by
  rw [h.sweep_eq]
  exact h.session_without _ g

/-- A sweep keeps the table well formed. Source: `serversession.cc`, `sweepServerSessions`.
Kind: P -/
theorem WF.sweep (h : WF m) (now : Time) : WF (m.sweepServerSessions now) := by
  rw [h.sweep_eq]
  exact ⟨(h.without _).nonnull, (h.without _).stored⟩

/-! ## The first packet -/

/-- The fresh manager after one packet: one session, at the new address.
Source: `serversession.cc`, `receivePing`
Kind: L -/
theorem new_recordPing (keepalive : ℤ) (a : Arrival) (mem : Memory) :
    WF ((new keepalive).recordPing a mem) ∧
      (∀ g, ((new keepalive).recordPing a mem).session g =
        if a.ph.guid = g then some ((ServerSession.create a.peer a.port a.ph).absorb a)
        else none) ∧
      ∀ b, b ≠ mem.addr → ((new keepalive).recordPing a mem).heap b = none := by
  have hwf := wf_new keepalive
  have hfree : (new keepalive).heap mem.addr = none := rfl
  have hnone : a.ph.guid ∉ (new keepalive).sessionMap := by
    simp [new]
  refine ⟨hwf.recordPing hfree, fun g => ?_, fun b hb => ?_⟩
  · by_cases hg : a.ph.guid = g
    · subst hg
      rw [if_pos rfl, recordPing_session_new hwf hfree hnone, if_neg]
      simp [predecessorOf, linkTarget, newSession, new, subscript]
    · rw [if_neg hg, recordPing_session_other hwf hfree hg]
      simp [new, session, subscript]
  · rw [recordPing_of_not_mem _ hnone, modify_heap, modify_heap]
    have hnew : ((new keepalive).countPacket.addSession a mem).heap b = none :=
      Function.update_of_ne hb ..
    rw [hnew]
    split_ifs <;> rfl

/-- The first packet's sweep finds nothing expired. Source: `serversession.cc`, `receivePing`.
Kind: L -/
theorem new_receivePing {keepalive : ℤ} {a : Arrival} {now : Time}
    (hnow : now - keepalive ≤ a.stamp) (mem : Memory) :
    (new keepalive).receivePing a mem now = (new keepalive).recordPing a mem := by
  obtain ⟨hwf, hs, -⟩ := new_recordPing keepalive a mem
  apply hwf.sweep_of_not_expired
  intro g
  unfold expired
  rw [hs, recordPing_keepalive, ServerSession.absorb_eq]
  split_ifs
  · exact decide_eq_false (not_lt.mpr hnow)
  · rfl

end ServerSessionManager

end UDPing.Server
