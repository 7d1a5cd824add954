import UDPing.Controller.Database

/-!
# What the controller answers an agent

* `peers`: the join of `/q/peers` (`database.js`). SQL does not order its rows.
* `Database.Member`: a node is a member of a mesh. `mem_peers`: the rows are the pairs of different
  members of a mesh, the first one on the host that asks.
-/

namespace UDPing.Controller

open Lib

/-- A row of the controller's answer. Source: `database.js`, `"/q/peers"`. Kind: D -/
@[ext]
structure Peer where
  localIp : Bytes
  localHostname : Bytes
  meshName : Bytes
  meshMechanism : Bytes
  meshDelayMs : SqlValue
  meshReportingIntervalS : SqlValue
  peerIp : Bytes
  peerHostname : Bytes
deriving DecidableEq

/-- The columns of one row. Source: `database.js`, `"/q/peers"`. Kind: D -/
def Peer.row (node1 node2 : Node) (mesh : Mesh) : Peer where
  localIp := node1.ip
  localHostname := node1.hostname
  meshName := mesh.name
  meshMechanism := mesh.mechanism
  meshDelayMs := mesh.delayMs
  meshReportingIntervalS := mesh.reportingIntervalS
  peerIp := node2.ip
  peerHostname := node2.hostname

/-- Source: `database.js`, `"/q/peers"`. Kind: D -/
def peers (db : Database) (hostname : Bytes) : List Peer :=
  db.node.flatMap fun node1 => db.node.flatMap fun node2 =>
    db.nodeMesh.flatMap fun nm1 => db.nodeMesh.flatMap fun nm2 =>
      db.mesh.filterMap fun mesh =>
        if node1.hostname = hostname ∧ .integer node1.id = nm1.nodeId ∧ nm1.meshId = nm2.meshId ∧
            .integer node2.id = nm2.nodeId ∧ .integer mesh.id = nm1.meshId ∧
            nm2.nodeId ≠ .integer node1.id then
          some (Peer.row node1 node2 mesh)
        else none

/-- Source: `udping.sql`, `node_mesh`. Kind: D -/
def Database.Member (db : Database) (n : Node) (m : Mesh) : Prop :=
  n ∈ db.node ∧ m ∈ db.mesh ∧ ⟨.integer n.id, .integer m.id⟩ ∈ db.nodeMesh

/-- **The answer**: the pairs of different members of one mesh.
Source: `database.js`, `"/q/peers"`
Kind: P -/
theorem mem_peers {db : Database} {hostname : Bytes} {p : Peer} :
    p ∈ peers db hostname ↔ ∃ n₁ n₂ m, db.Member n₁ m ∧ db.Member n₂ m ∧ n₁.id ≠ n₂.id ∧
      n₁.hostname = hostname ∧ p = Peer.row n₁ n₂ m := by
  simp only [peers, List.mem_flatMap, List.mem_filterMap, Option.ite_none_right_eq_some,
    Option.some.injEq]
  constructor
  · rintro ⟨n₁, hn₁, n₂, hn₂, nm₁, hnm₁, nm₂, hnm₂, m, hm, ⟨hhost, h₁, hmesh, h₂, hm₁, hne⟩, rfl⟩
    refine ⟨n₁, n₂, m, ⟨hn₁, hm, ?_⟩, ⟨hn₂, hm, ?_⟩, ?_, hhost, rfl⟩
    · rw [h₁, hm₁]
      exact hnm₁
    · rw [h₂, hm₁, hmesh]
      exact hnm₂
    · rintro hid
      rw [← h₂, hid] at hne
      exact hne rfl
  · rintro ⟨n₁, n₂, m, ⟨hn₁, hm, hrow₁⟩, ⟨hn₂, -, hrow₂⟩, hne, hhost, rfl⟩
    refine ⟨n₁, hn₁, n₂, hn₂, _, hrow₁, _, hrow₂, m, hm, ⟨hhost, rfl, rfl, rfl, rfl, ?_⟩, rfl⟩
    exact fun hid => hne (SqlValue.integer.inj hid).symm

end UDPing.Controller
