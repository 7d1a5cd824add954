import UDPing.Lib.Bytes
import UDPing.Lib.Dict
import UDPing.Lib.EventMachine
import Mathlib.Data.Rat.Defs

/-!
# The controller's store and its requests

* `Database`: the tables `node`, `mesh` and `node_mesh` (`udping.sql`). The primary keys and the
  unique indices are fields, so that no content the schema refuses can be built.
* `queries`: the parameters of each request that changes the tables. `query`: the tables after a
  request, and its answer (`database.js`).
* `Sqlite`: what SQLite makes of a text in a column or a comparison that wants a number.
-/

namespace UDPing.Controller

open Lib

/-! ## Values -/

/-- A value of a column without text affinity. Source: `udping.sql`. Kind: D -/
inductive SqlValue where
  | integer (n : ℤ)
  | real (q : ℚ)
  | text (t : Bytes)
deriving DecidableEq

/-- A value bound to a `?`: a text of the request, or a number among the defaults.
Source: `database.js`, `query`
Kind: D -/
inductive Param where
  | text (t : Bytes)
  | number (n : ℕ)
deriving DecidableEq

/-- `numeric`: a text under numeric affinity, an integer where it reads as one.
Source: `udping.sql`
Kind: D -/
structure Sqlite where
  numeric : Bytes → SqlValue

/-- A parameter in a column of numeric affinity, or compared with one.
Source: `udping.sql`
Kind: D -/
def Sqlite.value (sq : Sqlite) : Param → SqlValue
  | .text t => sq.numeric t
  | .number n => .integer n

/-- A parameter in a column of text affinity. Source: `udping.sql`. Kind: D -/
def Param.asText : Param → Bytes
  | .text t => t
  | .number n => decimal n

/-! ## Tables -/

/-- Source: `udping.sql`, `node`. Kind: D -/
structure Node where
  id : ℤ
  ip : Bytes
  hostname : Bytes
deriving DecidableEq

/-- Source: `udping.sql`, `mesh`. Kind: D -/
structure Mesh where
  id : ℤ
  name : Bytes
  mechanism : Bytes
  delayMs : SqlValue
  reportingIntervalS : SqlValue
  createdBy : Bytes
deriving DecidableEq

/-- Source: `udping.sql`, `node_mesh`. Kind: D -/
@[ext]
structure NodeMesh where
  nodeId : SqlValue
  meshId : SqlValue
deriving DecidableEq

/-- Source: `udping.sql`. Kind: D -/
structure Database where
  node : List Node
  mesh : List Mesh
  nodeMesh : List NodeMesh
  /-- `id integer not null primary key` -/
  node_id : (node.map Node.id).Nodup
  /-- `id integer not null primary key` -/
  mesh_id : (mesh.map Mesh.id).Nodup
  /-- `create unique index mesh_name on mesh(name)` -/
  mesh_name : (mesh.map Mesh.name).Nodup
  /-- `create unique index node_mesh_pk on node_mesh (node_id, mesh_id)` -/
  node_mesh_pk : nodeMesh.Nodup

/-- The id of a new row: one more than the largest. Source: `udping.sql`. Kind: D -/
def nextId (ids : List ℤ) : ℤ := ids.foldr max 0 + 1

theorem lt_nextId {ids : List ℤ} {id : ℤ} (h : id ∈ ids) : id < nextId ids := by
  have hle : id ≤ ids.foldr max 0 := by
    induction ids with
    | nil => cases h
    | cons i ids ih =>
        rcases List.mem_cons.mp h with rfl | h'
        · exact le_max_left _ _
        · exact le_trans (ih h') (le_max_right _ _)
  exact Int.lt_add_one_of_le hle

theorem nextId_notMem (ids : List ℤ) : nextId ids ∉ ids := fun h => lt_irrefl _ (lt_nextId h)

/-- A statement that a unique index refuses. Source: `udping.sql`. Kind: D -/
inductive Constraint where
  | mesh_name
  | node_mesh_pk
deriving DecidableEq

/-- What SQLite says of it. Source: `udping.sql`. Kind: D -/
def Constraint.message : Constraint → String
  | .mesh_name => "SQLITE_CONSTRAINT: UNIQUE constraint failed: mesh.name"
  | .node_mesh_pk => "SQLITE_CONSTRAINT: UNIQUE constraint failed: node_mesh.node_id, node_mesh.mesh_id"

namespace Database

/-- The tables as the schema creates them. Source: `udping.sql`. Kind: D -/
def empty : Database where
  node := []
  mesh := []
  nodeMesh := []
  node_id := List.nodup_nil
  mesh_id := List.nodup_nil
  mesh_name := List.nodup_nil
  node_mesh_pk := List.nodup_nil

variable (db : Database)

/-- Source: `database.js`, `"/r/addNode"`. Kind: D -/
def insertNode (ip hostname : Bytes) : Database :=
  { db with
    node := db.node ++ [⟨nextId (db.node.map Node.id), ip, hostname⟩]
    node_id := nodup_map_concat db.node_id (nextId_notMem _) }

/-- Source: `database.js`, `"/r/addMesh"`. Kind: D -/
def insertMesh (name mechanism : Bytes) (delayMs reportingIntervalS : SqlValue)
    (createdBy : Bytes) : Except Constraint Database :=
  if h : name ∈ db.mesh.map Mesh.name then .error .mesh_name
  else .ok { db with
    mesh := db.mesh ++ [⟨nextId (db.mesh.map Mesh.id), name, mechanism, delayMs, reportingIntervalS,
      createdBy⟩]
    mesh_id := nodup_map_concat db.mesh_id (nextId_notMem _)
    mesh_name := nodup_map_concat db.mesh_name h }

/-- Source: `database.js`, `"/r/addNodeToMesh"`. Kind: D -/
def insertNodeMesh (row : NodeMesh) : Except Constraint Database :=
  if h : row ∈ db.nodeMesh then .error .node_mesh_pk
  else .ok { db with
    nodeMesh := db.nodeMesh ++ [row]
    node_mesh_pk := by rw [← List.concat_eq_append]; exact db.node_mesh_pk.concat h }

/-- Source: `database.js`, `"/r/deleteNode"`. Kind: D -/
def deleteNode (id : SqlValue) : Database :=
  { db with
    node := db.node.filter fun n => .integer n.id ≠ id
    node_id := db.node_id.sublist (List.filter_sublist.map _) }

/-- Source: `database.js`, `"/r/deleteMesh"`. Kind: D -/
def deleteMesh (id : SqlValue) : Database :=
  { db with
    mesh := db.mesh.filter fun m => .integer m.id ≠ id
    mesh_id := db.mesh_id.sublist (List.filter_sublist.map _)
    mesh_name := db.mesh_name.sublist (List.filter_sublist.map _) }

/-- Source: `database.js`, `"/r/deleteNodeFromMesh"`, `"/r/deleteNodeMesh"`. Kind: D -/
def deleteNodeMesh (p : NodeMesh → Bool) : Database :=
  { db with
    nodeMesh := db.nodeMesh.filter fun row => !p row
    node_mesh_pk := db.node_mesh_pk.filter _ }

/-- Source: `database.js`, `"/r/updateNode"`. Kind: D -/
def updateNode (set : Node → Node) (hset : ∀ n, (set n).id = n.id) (id : SqlValue) : Database :=
  { db with
    node := db.node.map fun n => if .integer n.id = id then set n else n
    node_id := by rw [map_update fun r _ => hset r]; exact db.node_id }

/-- Source: `database.js`, `"/r/updateMesh"`. Kind: D -/
def updateMesh (set : Mesh → Mesh) (hset : ∀ m, (set m).id = m.id) (id : SqlValue) :
    Except Constraint Database :=
  let mesh := db.mesh.map fun m => if .integer m.id = id then set m else m
  if h : (mesh.map Mesh.name).Nodup then .ok { db with
    mesh := mesh
    mesh_id := by rw [map_update fun r _ => hset r]; exact db.mesh_id
    mesh_name := h }
  else .error .mesh_name

end Database

/-! ## Requests -/

/-- The names of parameters and of columns. Source: `database.js`, `queries`. Kind: D -/
inductive Field where
  | ip
  | hostname
  | name
  | mechanism
  | delay_ms
  | reporting_interval_s
  | created_by
  | mesh_id
  | node_id
deriving DecidableEq

/-- Source: `database.js`, `queries`. Kind: D -/
def Field.text : Field → String
  | .ip => "ip"
  | .hostname => "hostname"
  | .name => "name"
  | .mechanism => "mechanism"
  | .delay_ms => "delay_ms"
  | .reporting_interval_s => "reporting_interval_s"
  | .created_by => "created_by"
  | .mesh_id => "mesh_id"
  | .node_id => "node_id"

/-- The requests that change a table. Source: `database.js`, `queries`. Kind: D -/
inductive Operation where
  | addNode
  | addMesh
  | deleteMesh
  | addNodeToMesh
  | deleteNodeFromMesh
  | updateMesh
  | updateNode
  | deleteNode
  | deleteNodeMesh
deriving DecidableEq

/-- An entry of `queries` but for its SQL, which is `execute`.
Source: `database.js`, `queries`
Kind: D -/
structure Entry where
  params : List Field
  defaults : List (Field × Param) := []
  updateFields : Option (List Field) := none

/-- Source: `database.js`, `queries`. Kind: D -/
def queries : Operation → Entry
  | .addNode => { params := [.ip, .hostname] }
  | .addMesh => {
      params := [.name, .mechanism, .delay_ms, .reporting_interval_s, .created_by]
      defaults := [(.mechanism, .text (ascii "udping")), (.delay_ms, .number 1000),
        (.reporting_interval_s, .number 30)] }
  | .deleteMesh => { params := [.mesh_id] }
  | .addNodeToMesh => { params := [.node_id, .mesh_id] }
  | .deleteNodeFromMesh => { params := [.node_id, .mesh_id] }
  | .updateMesh => {
      params := [.mesh_id]
      updateFields := some [.name, .mechanism, .delay_ms, .reporting_interval_s] }
  | .updateNode => { params := [.node_id], updateFields := some [.hostname, .ip] }
  | .deleteNode => { params := [.node_id] }
  | .deleteNodeMesh => {
      params := [.node_id, .mesh_id]
      defaults := [(.node_id, .text []), (.mesh_id, .text [])] }

/-- `query`: the texts of the URL's parameters.
Source: `database.js`, `query`
Kind: D -/
structure Request where
  operation : Operation
  query : Field → Option Bytes

/-- Source: `database.js`, `query`. Kind: D -/
inductive Answer where
  | ok
  | noFieldsToUpdate
  | parameterNotFound (param : Field)
  | error (err : Constraint)
deriving DecidableEq

/-- Source: `database.js`, `query`. Kind: D -/
def Answer.body : Answer → String
  | .ok => "Ok\n"
  | .noFieldsToUpdate => "No fields to update\n"
  | .parameterNotFound param => "Parameter " ++ param.text ++ " not found\n"
  | .error err => "Error: Error: " ++ err.message ++ "\n"

/-- Source: `database.js`, `query`. Kind: D -/
def Answer.status : Answer → ℕ
  | .ok => 200
  | _ => 400

/-- The fields that the request updates, with their new values.
Source: `database.js`, `query`
Kind: D -/
def Request.updates (req : Request) (updateFields : List Field) : List (Field × Param) :=
  updateFields.filterMap fun field => (req.query field).map fun t => (field, .text t)

/-- A parameter of the request, or its default. Source: `database.js`, `query`. Kind: D -/
def Request.param (req : Request) (entry : Entry) (param : Field) : Option Param :=
  match req.query param with
  | some t => some (.text t)
  | none => entry.defaults.lookup param

/-- The parameters in their order, up to the first that is not found.
Source: `database.js`, `query`
Kind: D -/
def Request.params (req : Request) (entry : Entry) : List Field → Except Field (List Param)
  | [] => .ok []
  | param :: rest =>
      match req.param entry param with
      | some p => (req.params entry rest).map (p :: ·)
      | none => .error param

/-- `set` for one field of a node. Source: `database.js`, `"/r/updateNode"`. Kind: D -/
def Node.set (n : Node) : Field × Param → Node
  | (.hostname, p) => { n with hostname := p.asText }
  | (.ip, p) => { n with ip := p.asText }
  | _ => n

/-- `set` for one field of a mesh. Source: `database.js`, `"/r/updateMesh"`. Kind: D -/
def Mesh.set (sq : Sqlite) (m : Mesh) : Field × Param → Mesh
  | (.name, p) => { m with name := p.asText }
  | (.mechanism, p) => { m with mechanism := p.asText }
  | (.delay_ms, p) => { m with delayMs := sq.value p }
  | (.reporting_interval_s, p) => { m with reportingIntervalS := sq.value p }
  | _ => m

theorem Node.foldl_set_id (us : List (Field × Param)) (n : Node) : (us.foldl Node.set n).id = n.id := by
  induction us generalizing n with
  | nil => rfl
  | cons u us ih =>
      rw [List.foldl_cons, ih]
      unfold Node.set
      split <;> rfl

theorem Mesh.foldl_set_id (sq : Sqlite) (us : List (Field × Param)) (m : Mesh) :
    (us.foldl (Mesh.set sq) m).id = m.id := by
  induction us generalizing m with
  | nil => rfl
  | cons u us ih =>
      rw [List.foldl_cons, ih]
      unfold Mesh.set
      split <;> rfl

/-- The SQL of a request with the parameters in place of its `?`s. The lists of parameters that
`query` builds have the lengths matched here.
Source: `database.js`, `queries`
Kind: D -/
def execute (sq : Sqlite) (updates : List (Field × Param)) (db : Database) :
    Operation → List Param → Except Constraint Database
  | .addNode, [ip, hostname] => .ok (db.insertNode ip.asText hostname.asText)
  | .addMesh, [name, mechanism, delayMs, reportingIntervalS, createdBy] =>
      db.insertMesh name.asText mechanism.asText (sq.value delayMs) (sq.value reportingIntervalS)
        createdBy.asText
  | .deleteMesh, [meshId] => .ok (db.deleteMesh (sq.value meshId))
  | .addNodeToMesh, [nodeId, meshId] => db.insertNodeMesh ⟨sq.value nodeId, sq.value meshId⟩
  | .deleteNodeFromMesh, [nodeId, meshId] =>
      .ok (db.deleteNodeMesh fun row => row.nodeId = sq.value nodeId ∧ row.meshId = sq.value meshId)
  | .updateMesh, [meshId] =>
      db.updateMesh (updates.foldl (Mesh.set sq)) (Mesh.foldl_set_id sq updates) (sq.value meshId)
  | .updateNode, [nodeId] =>
      .ok (db.updateNode (updates.foldl Node.set) (Node.foldl_set_id updates) (sq.value nodeId))
  | .deleteNode, [nodeId] => .ok (db.deleteNode (sq.value nodeId))
  | .deleteNodeMesh, [nodeId, meshId] =>
      .ok (db.deleteNodeMesh fun row => row.nodeId = sq.value nodeId ∨ row.meshId = sq.value meshId)
  | _, _ => .ok db

/-- Source: `database.js`, `query`. Kind: D -/
def query (sq : Sqlite) (db : Database) (req : Request) : Database × Answer :=
  let entry := queries req.operation
  let updates := entry.updateFields.map req.updates
  if updates = some [] then (db, .noFieldsToUpdate)
  else match req.params entry entry.params with
    | .error param => (db, .parameterNotFound param)
    | .ok params =>
        match execute sq (updates.getD []) db req.operation params with
        | .error err => (db, .error err)
        | .ok db => (db, .ok)

/-- The controller, from the empty tables on, over the requests of all its clients.
Source: `udping.js`; `database.js`, `query`
Kind: D -/
def controller (sq : Sqlite) : EventMachine Database Request where
  init := .empty
  step db req := (query sq db req).1

end UDPing.Controller
