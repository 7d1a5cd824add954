import UDPing.Agent.Reconciliation

/-!
# A server for every client

* `Settled`: an agent that has synchronized with the controller's answer; `child_of_desired` and
  `desired_of_child` say what its children are, `ClientOf` and `ServerOf` what they run.
* `Served`: every client has its server, alone at its address. `Servable`: the tables for which it has.
* **`served_iff`**: whatever the agents have been through and in whatever order the answers come, every
  client is served, exactly if the tables are servable.
-/

namespace UDPing.Agent

open Lib
open UDPing.Controller

/-! ## The last entries of a list -/

theorem lastEntry_append (l₁ l₂ : List Target) (s : Bytes) :
    lastEntry (l₁ ++ l₂) s = (lastEntry l₂ s).or (lastEntry l₁ s) := by
  rw [lastEntry, List.reverse_append, List.find?_append]
  rfl

theorem lastEntry_eq_none {entries : List Target} {s : Bytes} (h : ∀ e ∈ entries, e.signature ≠ s) :
    lastEntry entries s = none := by
  simpa [lastEntry] using h

/-- The only entry of its signature. Source: `udping_agent`, `synchronize`. Kind: L -/
theorem lastEntry_eq_some {entries : List Target} {t : Target} (hmem : t ∈ entries)
    (honly : ∀ e ∈ entries, e.signature = t.signature → e = t) :
    lastEntry entries t.signature = some t := by
  cases h : lastEntry entries t.signature with
  | none =>
      have hnone := List.find?_eq_none.mp h t (List.mem_reverse.mpr hmem)
      exact absurd (decide_eq_true rfl) hnone
  | some e =>
      have he : e ∈ entries := List.mem_reverse.mp (List.mem_of_find?_eq_some h)
      rw [honly e he (signature_of_lastEntry h)]

theorem mem_of_lastEntry {entries : List Target} {s : Bytes} {t : Target}
    (h : lastEntry entries s = some t) : t ∈ entries :=
  List.mem_reverse.mp (List.mem_of_find?_eq_some h)

/-- The entries for an answer. Source: `udping_agent`, `synchronize`. Kind: D -/
def answered (rows : List Peer) : List Target := (rows.map Target.peer).flatMap Target.entries

theorem mem_answered {rows : List Peer} {t : Target} : t ∈ answered rows ↔
    (∃ p ∈ rows, t = .peer p) ∨
      ∃ p ∈ rows, p.meshMechanism = ascii "udping" ∧ t = .server p.meshName p.localIp := by
  simp only [answered, List.mem_flatMap, List.mem_map, Target.entries, List.mem_cons]
  constructor
  · rintro ⟨_, ⟨p, hp, rfl⟩, rfl | hserver⟩
    · exact Or.inl ⟨p, hp, rfl⟩
    · split at hserver
      · next hudping => exact Or.inr ⟨p, hp, hudping, List.mem_singleton.mp hserver⟩
      · cases hserver
  · rintro (⟨p, hp, rfl⟩ | ⟨p, hp, hudping, rfl⟩)
    · exact ⟨_, ⟨p, hp, rfl⟩, Or.inl rfl⟩
    · refine ⟨_, ⟨p, hp, rfl⟩, Or.inr ?_⟩
      rw [if_pos (show (Target.peer p).meshMechanism = ascii "udping" from hudping)]
      exact List.mem_singleton.mpr rfl

theorem peer_mem_answered (p : Peer) : Target.peer p ∈ answered [p] :=
  mem_answered.mpr (Or.inl ⟨p, List.mem_singleton.mpr rfl, rfl⟩)

theorem answered_subset {l₁ l₂ : List Peer} (h : ∀ p ∈ l₁, p ∈ l₂) {t : Target}
    (ht : t ∈ answered l₁) : t ∈ answered l₂ := by
  rw [mem_answered] at ht ⊢
  rcases ht with ⟨p, hp, rfl⟩ | ⟨p, hp, hudping, rfl⟩
  · exact Or.inl ⟨p, h p hp, rfl⟩
  · exact Or.inr ⟨p, h p hp, hudping, rfl⟩

/-- The rows with `p` at the end. Source: none: infrastructure. Kind: D -/
def toEnd (p : Peer) (rows : List Peer) : List Peer :=
  rows.filter (· ≠ p) ++ rows.filter (· = p)

theorem toEnd_perm (p : Peer) (rows : List Peer) : (toEnd p rows).Perm rows := by
  have h := List.filter_append_perm (fun x => decide (x ≠ p)) rows
  simpa [toEnd] using h

theorem answered_append (l₁ l₂ : List Peer) : answered (l₁ ++ l₂) = answered l₁ ++ answered l₂ := by
  rw [answered, List.map_append, List.flatMap_append]
  rfl

theorem signature_injOn_answered {p : Peer} {t t' : Target} (ht : t ∈ answered [p])
    (ht' : t' ∈ answered [p]) (hsig : t'.signature = t.signature) : t' = t := by
  simp only [mem_answered, List.mem_singleton, exists_eq_left] at ht ht'
  have hclash : ∀ meshName localIp, p.meshMechanism = ascii "udping" →
      (Target.server meshName localIp).signature ≠ (Target.peer p).signature := by
    intro meshName localIp hudping hsame
    have hprefix := Target.server_prefix meshName localIp
    rw [hsame] at hprefix
    exact Target.not_server_prefix (Or.inr hudping) hprefix
  rcases ht with rfl | ⟨hudping, rfl⟩
  · rcases ht' with rfl | ⟨hudping, rfl⟩
    · rfl
    · exact absurd hsig (hclash _ _ hudping)
  · rcases ht' with rfl | ⟨-, rfl⟩
    · exact absurd hsig.symm (hclash _ _ hudping)
    · rfl

/-- What is at the end is the last entry of its signatures.
Source: `udping_agent`, `synchronize`
Kind: L -/
theorem lastEntry_toEnd {p : Peer} {rows : List Peer} (hp : p ∈ rows) {t : Target}
    (ht : t ∈ answered [p]) : lastEntry (answered (toEnd p rows)) t.signature = some t := by
  have hsub : ∀ e ∈ answered (rows.filter (· = p)), e ∈ answered [p] := fun e =>
    answered_subset fun q hq => by simpa using (List.mem_filter.mp hq).2
  have hmem : t ∈ answered (rows.filter (· = p)) := by
    refine answered_subset (fun q hq => ?_) ht
    rw [List.mem_singleton.mp hq]
    exact List.mem_filter.mpr ⟨hp, decide_eq_true rfl⟩
  rw [toEnd, answered_append, lastEntry_append, lastEntry_eq_some hmem fun e he hsig =>
    signature_injOn_answered ht (hsub e he) hsig]
  rfl

/-- What is at the end does not matter for other signatures.
Source: `udping_agent`, `synchronize`
Kind: L -/
theorem lastEntry_toEnd_of_ne {q : Peer} {s : Bytes} (rows : List Peer)
    (h : ∀ e ∈ answered [q], e.signature ≠ s) :
    lastEntry (answered (toEnd q rows)) s = lastEntry (answered (rows.filter (· ≠ q))) s := by
  have hnone : lastEntry (answered (rows.filter (· = q))) s = none := by
    refine lastEntry_eq_none fun e he => h e (answered_subset (fun q' hq => ?_) he)
    simpa using (List.mem_filter.mp hq).2
  rw [toEnd, answered_append, lastEntry_append, hnone]
  rfl

/-- Source: none: infrastructure. Kind: L -/
theorem filter_toEnd (f : Peer → Bool) (p : Peer) (rows : List Peer) :
    (toEnd p rows).filter f = toEnd p (rows.filter f) := by
  unfold toEnd
  rw [List.filter_append]
  exact congrArg₂ (· ++ ·) (List.filter_comm ..) (List.filter_comm ..)

/-! ## What the commands tell -/

theorem command_peer (p : Peer) : (Target.peer p).command =
    if p.meshMechanism = ascii "ping" then some (pingCommand (.peer p))
    else if p.meshMechanism = ascii "udping" then some (udpingClientCommand (.peer p))
    else none := by
  unfold Target.command
  by_cases hudping : p.meshMechanism = ascii "udping"
  · have hprefix : ¬(ascii "udping_server").isPrefixOf (Target.peer p).signature := by
      rw [List.isPrefixOf_iff_prefix]
      exact Target.not_server_prefix (Or.inr hudping)
    rw [if_neg hprefix]
    rfl
  · simp only [Target.meshMechanism, hudping, if_false]

theorem command_eq_client {p : Peer} :
    (Target.peer p).command = some (udpingClientCommand (.peer p)) ↔
      p.meshMechanism = ascii "udping" := by
  rw [command_peer]
  by_cases hudping : p.meshMechanism = ascii "udping"
  · rw [hudping, if_neg (by decide), if_pos rfl]
    exact iff_of_true rfl rfl
  · rw [if_neg hudping]
    refine iff_of_false (fun h => ?_) hudping
    split at h <;> cases h

theorem command_eq_server {t : Target} {localIp meshName : Bytes} :
    t.command = some (.udpingServer localIp meshName) ↔ t = .server meshName localIp := by
  cases t with
  | peer p =>
      refine iff_of_false (fun h => ?_) (by simp)
      rw [command_peer] at h
      split at h
      · cases h
      · split at h <;> cases h
  | server m ip =>
      have hcommand : (Target.server m ip).command = some (.udpingServer ip m) := rfl
      rw [hcommand]
      simp [and_comm]

/-! ## Agents that have synchronized with an answer -/

/-- An agent with any past, after an answer. Source: `udping_agent`. Kind: D -/
def settled (fork : ℕ → ℕ) (es : List Event) (rows : List Peer) : State :=
  (agent fork).run (es ++ [.update (some rows), .synchronize])

/-- The child under `s` is a client for the row `p`.
Source: `udping_agent`, `launchUDPingClient`
Kind: D -/
def ClientOf (a : State) (s : Bytes) (p : Peer) : Prop :=
  ∃ i, a.child s = some ⟨.peer p, some ⟨i, udpingClientCommand (.peer p)⟩⟩

/-- The child under `s` is a server for a mesh, started with a local address.
Source: `udping_agent`, `launchUDPingServer`
Kind: D -/
def ServerOf (a : State) (s meshName localIp : Bytes) : Prop :=
  ∃ child i, a.child s = some child ∧ child.pid = some ⟨i, .udpingServer localIp meshName⟩

section Settled

variable (fork : ℕ → ℕ) (es : List Event) (rows : List Peer) (s : Bytes)

theorem settled_eq : settled fork es rows =
    (((agent fork).run es).update (some rows)).synchronize fork := by
  rw [settled, List.append_cons, EventMachine.run_concat, EventMachine.run_concat]
  rfl

/-- The child of a target. Source: `udping_agent`, `synchronize`. Kind: L -/
theorem child_settled_iff (t : Target) (command : Command) (hcommand : t.command = some command) :
    lastEntry (answered rows) s = some t ↔
      ∃ i, (settled fork es rows).child s = some ⟨t, some ⟨i, command⟩⟩ := by
  obtain ⟨hbefore, hrows⟩ := (sound_run fork es).update (some rows)
  rw [Option.elim_some] at hrows
  obtain ⟨hsound, -, actions, -, hrec⟩ := State.synchronize_reconciled fork hbefore
  have hs := hrec s
  rw [hrows] at hs
  rw [settled_eq]
  constructor
  · intro hlast
    rw [show desired _ s = some t from hlast] at hs
    have hsome := (hs.isSome_after fun child hchild => by
      obtain ⟨r, hr, rfl⟩ := Option.map_eq_some_iff.mp hchild
      obtain ⟨_, _, hcommand', -⟩ := hbefore.running s r hr
      rw [hcommand']
      rfl).mpr ⟨t, rfl, by rw [hcommand]; rfl⟩
    obtain ⟨child, hchild⟩ := Option.isSome_iff_exists.mp hsome
    obtain ⟨r, hr, rfl⟩ := Option.map_eq_some_iff.mp hchild
    obtain ⟨i, command', hcommand', hpid⟩ := hsound.running s r hr
    rw [hchild] at hs
    have htarget := Option.some.inj hs.target_of_after
    rw [← htarget, hcommand] at hcommand'
    refine ⟨i, hchild.trans (congrArg some ?_)⟩
    rw [htarget, Option.some.inj hcommand', ← hpid]
  · rintro ⟨i, hchild⟩
    rw [hchild] at hs
    exact hs.target_of_after

theorem running_settled {child : Params} (h : (settled fork es rows).child s = some child) :
    ∃ i command, child.target.command = some command ∧ child.pid = some ⟨i, command⟩ := by
  have hsound : (settled fork es rows).Sound := sound_run fork _
  obtain ⟨r, hr, rfl⟩ := Option.map_eq_some_iff.mp h
  exact hsound.running s r hr

theorem clientOf_iff (p : Peer) : ClientOf (settled fork es rows) s p ↔
    lastEntry (answered rows) s = some (.peer p) ∧ p.meshMechanism = ascii "udping" := by
  constructor
  · rintro ⟨i, hchild⟩
    obtain ⟨i', command, hcommand, hpid⟩ := running_settled fork es rows s hchild
    obtain ⟨-, rfl⟩ : i = i' ∧ udpingClientCommand (.peer p) = command := by simpa using hpid
    exact ⟨(child_settled_iff fork es rows s _ _ hcommand).mpr ⟨i, hchild⟩,
      command_eq_client.mp hcommand⟩
  · rintro ⟨hlast, hudping⟩
    exact (child_settled_iff fork es rows s _ _ (command_eq_client.mpr hudping)).mp hlast

theorem serverOf_iff (meshName localIp : Bytes) :
    ServerOf (settled fork es rows) s meshName localIp ↔
      lastEntry (answered rows) s = some (.server meshName localIp) := by
  constructor
  · rintro ⟨child, i, hchild, hpid⟩
    obtain ⟨i', command, hcommand, hpid'⟩ := running_settled fork es rows s hchild
    obtain ⟨-, rfl⟩ : i = i' ∧ Command.udpingServer localIp meshName = command := by
      simpa using hpid.symm.trans hpid'
    obtain ⟨t, pid⟩ := child
    obtain rfl : t = _ := command_eq_server.mp hcommand
    obtain rfl : pid = _ := hpid
    exact (child_settled_iff fork es rows s _ _ hcommand).mpr ⟨i, hchild⟩
  · intro hlast
    obtain ⟨i, hchild⟩ :=
      (child_settled_iff fork es rows s _ _ (command_eq_server.mpr rfl)).mp hlast
    exact ⟨_, i, hchild, rfl⟩

end Settled

/-! ## Servable tables -/

/-- Every client has its server, and the server is alone at its address: all servers bind one port.
Source: `udping_agent`, `launchUDPingClient`, `launchUDPingServer`
Kind: D -/
def Served (agents : Bytes → State) : Prop :=
  ∀ hostname s p, ClientOf (agents hostname) s p →
    ∃ s', ServerOf (agents p.peerHostname) s' p.meshName p.peerIp ∧
      ∀ s'' meshName, ServerOf (agents p.peerHostname) s'' meshName p.peerIp → s'' = s'

/-- A node has peers in a mesh of the mechanism `udping`.
Source: `database.js`, `"/q/peers"`
Kind: D -/
def Active (db : Database) (n : Node) (m : Mesh) : Prop :=
  m.mechanism = ascii "udping" ∧ db.Member n m ∧ ∃ n', db.Member n' m ∧ n.id ≠ n'.id

/-- A host has one address in a mesh and different ones in different meshes, and no row it gets has the
signature of one of its servers.
Source: `udping_agent`, `synchronize`; `database.js`, `"/q/peers"`
Kind: D -/
structure Servable (db : Database) : Prop where
  one_address : ∀ b c m, Active db b m → Active db c m → b.hostname = c.hostname → b.ip = c.ip
  own_address : ∀ b c m m', Active db b m → Active db c m' → m ≠ m' → b.hostname = c.hostname →
    b.ip ≠ c.ip
  no_clash : ∀ b m, Active db b m → ∀ q ∈ peers db b.hostname,
    (Target.peer q).signature ≠ (Target.server m.name b.ip).signature

variable {db : Database} {b c n n' : Node} {m m' : Mesh} {rows : List Peer} {hostname : Bytes}

theorem Active.exists_row (h : Active db n m) : ∃ p ∈ peers db n.hostname,
    p.meshMechanism = ascii "udping" ∧ p.meshName = m.name ∧ p.localIp = n.ip := by
  obtain ⟨hudping, hn, n', hn', hne⟩ := h
  exact ⟨_, mem_peers.mpr ⟨n, n', m, hn, hn', hne, rfl, rfl⟩, hudping, rfl, rfl⟩

theorem server_mem_answered (hrows : rows.Perm (peers db hostname)) {meshName localIp : Bytes} :
    Target.server meshName localIp ∈ answered rows ↔
      ∃ n m, Active db n m ∧ n.hostname = hostname ∧ meshName = m.name ∧ localIp = n.ip := by
  rw [mem_answered]
  constructor
  · rintro (⟨_, _, h⟩ | ⟨p, hp, hudping, h⟩)
    · cases h
    · obtain ⟨rfl, rfl⟩ := Target.server.inj h
      obtain ⟨n, n', m, hn, hn', hne, hhost, rfl⟩ := mem_peers.mp (hrows.mem_iff.mp hp)
      exact ⟨n, m, ⟨hudping, hn, n', hn', hne⟩, hhost, rfl, rfl⟩
  · rintro ⟨n, m, hactive, rfl, rfl, rfl⟩
    obtain ⟨p, hp, hudping, hname, hip⟩ := hactive.exists_row
    exact Or.inr ⟨p, hrows.mem_iff.mpr hp, hudping, by rw [hname, hip]⟩

theorem mesh_of_name (h : Active db n m) (h' : Active db n' m') (hname : m.name = m'.name) : m = m' :=
  List.inj_on_of_nodup_map db.mesh_name h.2.1.2.1 h'.2.1.2.1 hname

theorem name_of_signature {meshName meshName' localIp localIp' : Bytes}
    (h : (Target.server meshName localIp).signature = (Target.server meshName' localIp').signature) :
    meshName = meshName' :=
  List.append_cancel_left h

/-- Where a host has one address in a mesh and no row clashes, the mesh's server runs there, whatever
the order of the answer.
Source: `udping_agent`, `synchronize`
Kind: P -/
theorem server_last (h : Active db b m)
    (hone : ∀ c, Active db c m → b.hostname = c.hostname → b.ip = c.ip)
    (hclash : ∀ q ∈ peers db b.hostname,
      (Target.peer q).signature ≠ (Target.server m.name b.ip).signature)
    (hrows : rows.Perm (peers db b.hostname)) :
    lastEntry (answered rows) (Target.server m.name b.ip).signature =
      some (.server m.name b.ip) := by
  refine lastEntry_eq_some ((server_mem_answered hrows).mpr ⟨b, m, h, rfl, rfl, rfl⟩) ?_
  intro e he hsig
  cases e with
  | peer q =>
      obtain ⟨q', hq', hqq'⟩ | ⟨_, _, _, hserver⟩ := mem_answered.mp he
      · obtain rfl := Target.peer.inj hqq'
        exact absurd hsig (hclash q (hrows.mem_iff.mp hq'))
      · cases hserver
  | server meshName localIp =>
      obtain ⟨c, m', hc, hhost, rfl, rfl⟩ := (server_mem_answered hrows).mp he
      obtain rfl := mesh_of_name hc h (name_of_signature hsig)
      rw [hone c hc hhost.symm]

theorem served_of_servable (h : Servable db) (fork : Bytes → ℕ → ℕ) (es : Bytes → List Event)
    {rows : Bytes → List Peer} (hrows : ∀ hostname, (rows hostname).Perm (peers db hostname)) :
    Served fun hostname => settled (fork hostname) (es hostname) (rows hostname) := by
  intro hostname s p hclient
  obtain ⟨hlast, hudping⟩ := (clientOf_iff ..).mp hclient
  obtain ⟨p', hp, hpp'⟩ | ⟨_, _, _, hserver⟩ := mem_answered.mp (mem_of_lastEntry hlast)
  · obtain rfl := Target.peer.inj hpp'
    obtain ⟨a, b, m, ha, hb, hne, -, rfl⟩ := mem_peers.mp ((hrows hostname).mem_iff.mp hp)
    have hactive : Active db b m := ⟨hudping, hb, a, ha, hne.symm⟩
    have hserver := server_last hactive (fun c hc => h.one_address b c m hactive hc)
      (h.no_clash b m hactive) (hrows b.hostname)
    refine ⟨(Target.server m.name b.ip).signature, (serverOf_iff ..).mpr hserver, ?_⟩
    intro s'' meshName hother
    have hother' := (serverOf_iff ..).mp hother
    obtain ⟨c, m', hc, hhost, rfl, hip⟩ :=
      (server_mem_answered (hrows b.hostname)).mp (mem_of_lastEntry hother')
    rw [← signature_of_lastEntry hother']
    by_contra hsig
    have hmm : m ≠ m' := by
      rintro rfl
      exact hsig rfl
    exact h.own_address b c m m' hactive hc hmm hhost.symm hip
  · cases hserver

/-! ## Tables whose clients are always served -/

section Necessary

variable {fork : Bytes → ℕ → ℕ} {es : Bytes → List Event}

/-- A row that is the last entry of its signature on its host has a server on the other host.
Source: `udping_agent`, `synchronize`
Kind: L -/
theorem server_of_client {rows : Bytes → List Peer} {p : Peer}
    (h : Served fun hostname => settled (fork hostname) (es hostname) (rows hostname))
    (hlast : lastEntry (answered (rows hostname)) (Target.peer p).signature = some (.peer p))
    (hudping : p.meshMechanism = ascii "udping") :
    lastEntry (answered (rows p.peerHostname)) (Target.server p.meshName p.peerIp).signature =
        some (.server p.meshName p.peerIp) ∧
      ∀ meshName, lastEntry (answered (rows p.peerHostname))
        (Target.server meshName p.peerIp).signature = some (.server meshName p.peerIp) →
          meshName = p.meshName := by
  obtain ⟨s', hserver, halone⟩ := h hostname _ p ((clientOf_iff ..).mpr ⟨hlast, hudping⟩)
  have hserver' := (serverOf_iff ..).mp hserver
  have hs' := signature_of_lastEntry hserver'
  subst hs'
  refine ⟨hserver', fun meshName hother => ?_⟩
  exact name_of_signature (halone _ meshName ((serverOf_iff ..).mpr hother))

variable (h : ∀ rows : Bytes → List Peer, (∀ hostname, (rows hostname).Perm (peers db hostname)) →
  Served fun hostname => settled (fork hostname) (es hostname) (rows hostname))

include h

theorem one_address_of_served (hb : Active db b m) (hc : Active db c m)
    (hhost : b.hostname = c.hostname) : b.ip = c.ip := by
  by_cases hid : b.id = c.id
  · rw [List.inj_on_of_nodup_map db.node_id hb.2.1.1 hc.2.1.1 hid]
  · -- the last row of the host is the one from `b` to `c`
    obtain ⟨hudping, hmb, -⟩ := hb
    have hp : Peer.row b c m ∈ peers db b.hostname :=
      mem_peers.mpr ⟨b, c, m, hmb, hc.2.1, hid, rfl, rfl⟩
    have hserved := h (fun hostname => toEnd (Peer.row b c m) (peers db hostname)) fun _ =>
      toEnd_perm ..
    have hpeer := lastEntry_toEnd hp (peer_mem_answered _)
    have hserver := lastEntry_toEnd hp
      (mem_answered.mpr (Or.inr ⟨_, List.mem_singleton.mpr rfl, hudping, rfl⟩))
    have hclient := (server_of_client hserved hpeer hudping).1
    rw [show (Peer.row b c m).peerHostname = b.hostname from hhost.symm] at hclient
    exact (Target.server.inj (Option.some.inj (hserver.symm.trans hclient))).2

theorem no_clash_of_served (hb : Active db b m) {q : Peer} (hq : q ∈ peers db b.hostname) :
    (Target.peer q).signature ≠ (Target.server m.name b.ip).signature := by
  intro hclash
  obtain ⟨hudping, hmb, a, hma, hne⟩ := hb
  have hp : Peer.row a b m ∈ peers db a.hostname :=
    mem_peers.mpr ⟨a, b, m, hma, hmb, hne.symm, rfl, rfl⟩
  have hprefix := Target.server_prefix m.name b.ip
  rw [← hclash] at hprefix
  have hqudping : q.meshMechanism ≠ ascii "udping" := fun hq =>
    Target.not_server_prefix (Or.inr hq) hprefix
  have hqp : Peer.row a b m ≠ q := fun hqp => hqudping (hqp ▸ hudping)
  -- the last row of the second host is `q`, that of the first one is the row from `a` to `b`
  have hserved := h (fun hostname => toEnd q (toEnd (Peer.row a b m) (peers db hostname))) fun _ =>
    (toEnd_perm ..).trans (toEnd_perm ..)
  have hlastq := lastEntry_toEnd ((toEnd_perm (Peer.row a b m) _).mem_iff.mpr hq)
    (peer_mem_answered _)
  have hlastp : lastEntry (answered (toEnd q (toEnd (Peer.row a b m) (peers db a.hostname))))
      (Target.peer (Peer.row a b m)).signature = some (.peer (Peer.row a b m)) := by
    have hother : ∀ e ∈ answered [q], e.signature ≠ (Target.peer (Peer.row a b m)).signature := by
      intro e he hsig
      obtain ⟨q', hq', rfl⟩ | ⟨q', hq', hq'udping, -⟩ := mem_answered.mp he
      · obtain rfl := List.mem_singleton.mp hq'
        rw [hsig] at hprefix
        exact Target.not_server_prefix (Or.inr hudping) hprefix
      · obtain rfl := List.mem_singleton.mp hq'
        exact hqudping hq'udping
    rw [lastEntry_toEnd_of_ne _ hother, filter_toEnd]
    refine lastEntry_toEnd ?_ (peer_mem_answered _)
    exact List.mem_filter.mpr ⟨hp, decide_eq_true hqp⟩
  have hclient := (server_of_client hserved hlastp hudping).1
  rw [show (Target.server (Peer.row a b m).meshName (Peer.row a b m).peerIp).signature = _ from
    hclash.symm] at hclient
  cases hlastq.symm.trans hclient

theorem own_address_of_served (hb : Active db b m) (hc : Active db c m') (hmm : m ≠ m')
    (hhost : b.hostname = c.hostname) : b.ip ≠ c.ip := by
  intro hip
  have ⟨hudping, hmb, a, hma, hne⟩ := hb
  have hp : Peer.row a b m ∈ peers db a.hostname :=
    mem_peers.mpr ⟨a, b, m, hma, hmb, hne.symm, rfl, rfl⟩
  have hserved := h (fun hostname => toEnd (Peer.row a b m) (peers db hostname)) fun _ =>
    toEnd_perm ..
  have hlastp := lastEntry_toEnd hp (peer_mem_answered _)
  have hother := server_last hc (fun _ hc' hhost' => one_address_of_served h hc hc' hhost')
    (fun _ hq => no_clash_of_served h hc hq) (toEnd_perm (Peer.row a b m) (peers db c.hostname))
  rw [← hhost, ← hip] at hother
  have hname := (server_of_client hserved hlastp hudping).2 m'.name hother
  exact hmm (mesh_of_name hb hc hname.symm)

end Necessary

/-- **Every client has its server exactly if the tables are servable**: whatever the agents have been
through before, and in whatever order the rows of the answers come.
Source: `udping_agent`, `synchronize`; `database.js`, `"/q/peers"`
Kind: C -/
theorem served_iff (db : Database) :
    (∀ (fork : Bytes → ℕ → ℕ) (es : Bytes → List Event) (rows : Bytes → List Peer),
      (∀ hostname, (rows hostname).Perm (peers db hostname)) →
        Served fun hostname => settled (fork hostname) (es hostname) (rows hostname)) ↔
      Servable db := by
  constructor
  · intro h
    have h' := h (fun _ i => i) fun _ => []
    exact ⟨fun b c m hb hc hhost => one_address_of_served h' hb hc hhost,
      fun b c m m' hb hc hmm hhost => own_address_of_served h' hb hc hmm hhost,
      fun b m hb q hq => no_clash_of_served h' hb hq⟩
  · exact fun h fork es rows hrows => served_of_servable h fork es hrows

/-- Two hosts in two meshes. Source: none: infrastructure. Kind: D -/
def exampleTables : Database where
  node := [⟨1, ascii "10.0.0.1", ascii "a"⟩, ⟨2, ascii "10.0.0.2", ascii "b"⟩]
  mesh := [⟨1, ascii "m", ascii "udping", .integer 1000, .integer 30, ascii "system"⟩,
    ⟨2, ascii "n", ascii "udping", .integer 1000, .integer 30, ascii "system"⟩]
  nodeMesh := [⟨.integer 1, .integer 1⟩, ⟨.integer 2, .integer 1⟩, ⟨.integer 1, .integer 2⟩,
    ⟨.integer 2, .integer 2⟩]
  node_id := by decide
  mesh_id := by decide
  mesh_name := by decide
  node_mesh_pk := by decide

/-- Two hosts that are in two meshes: each starts a server for either mesh at its one address.
Source: `udping_agent`, `synchronize`
Kind: C -/
theorem servers_share_address :
    ¬Served fun hostname => settled (fun i => 100 + i) [] (peers exampleTables hostname) := by
  intro h
  obtain ⟨s', -, halone⟩ := h (ascii "a") (ascii "udping:m.a:10.0.0.1.b:10.0.0.2")
    (Peer.row ⟨1, ascii "10.0.0.1", ascii "a"⟩ ⟨2, ascii "10.0.0.2", ascii "b"⟩
      ⟨1, ascii "m", ascii "udping", .integer 1000, .integer 30, ascii "system"⟩)
    ⟨100, by decide⟩
  have hm := halone (ascii "udping_server:m") (ascii "m")
    ⟨⟨.server (ascii "m") (ascii "10.0.0.2"), some ⟨101, .udpingServer (ascii "10.0.0.2") (ascii "m")⟩⟩,
      101, by decide, rfl⟩
  have hn := halone (ascii "udping_server:n") (ascii "n")
    ⟨⟨.server (ascii "n") (ascii "10.0.0.2"), some ⟨103, .udpingServer (ascii "10.0.0.2") (ascii "n")⟩⟩,
      103, by decide, rfl⟩
  exact absurd (hm.trans hn.symm) (by decide)

end UDPing.Agent
