import UDPing.Controller.Database
import UDPing.Lib.Incidence

/-!
# Integrity of the memberships

* `Database.incidence`: the tables as an incidence of nodes and meshes; `query_incidence`: a request
  makes one change of it.
* `Referential`: every membership refers to a node and a mesh. `Keeps`: a request adds a membership of
  a node and a mesh that are there, and deletes nodes and meshes without memberships.
* **`referential_iff`**: memberships refer to what is there, and what was just added has none, at every
  point of a run exactly if every request `Keeps` the tables it meets.
-/

namespace UDPing.Controller

open Lib

/-! ## The tables as an incidence -/

namespace Database

/-- The ids of the nodes, as a column compares them. Source: `udping.sql`, `node`. Kind: D -/
def nodeIds (db : Database) : List SqlValue := db.node.map fun n => .integer n.id

/-- The ids of the meshes, as a column compares them. Source: `udping.sql`, `mesh`. Kind: D -/
def meshIds (db : Database) : List SqlValue := db.mesh.map fun m => .integer m.id

/-- Nodes, meshes and memberships. Source: `udping.sql`. Kind: D -/
def incidence (db : Database) : Incidence SqlValue SqlValue where
  left := {id | id ∈ db.nodeIds}
  right := {id | id ∈ db.meshIds}
  pairs := {p | ⟨p.1, p.2⟩ ∈ db.nodeMesh}

/-- Every membership refers to a node and a mesh. Source: `udping.sql`, `node_mesh`. Kind: D -/
def Referential (db : Database) : Prop :=
  ∀ row ∈ db.nodeMesh, row.nodeId ∈ db.nodeIds ∧ row.meshId ∈ db.meshIds

instance (db : Database) : Decidable db.Referential :=
  inferInstanceAs (Decidable (∀ row ∈ db.nodeMesh, row.nodeId ∈ db.nodeIds ∧ row.meshId ∈ db.meshIds))

theorem closed_incidence (db : Database) : db.incidence.Closed ↔ db.Referential :=
  ⟨fun h row hrow => h (row.nodeId, row.meshId) hrow, fun h p hp => h ⟨p.1, p.2⟩ hp⟩

variable (db : Database)

theorem incidence_insertNode (ip hostname : Bytes) :
    (db.insertNode ip hostname).incidence =
      db.incidence.apply (.addLeft (.integer (nextId (db.node.map Node.id)))) := by
  refine Incidence.ext (Set.ext fun id => ?_) rfl rfl
  show id ∈ (db.node ++ [_]).map _ ↔ id = _ ∨ id ∈ db.nodeIds
  rw [List.map_append, List.mem_append, List.map_singleton, List.mem_singleton, or_comm]
  rfl

theorem incidence_insertMesh {name mechanism createdBy : Bytes} {delay interval : SqlValue}
    {db' : Database} (h : db.insertMesh name mechanism delay interval createdBy = .ok db') :
    db'.incidence = db.incidence.apply (.addRight (.integer (nextId (db.mesh.map Mesh.id)))) := by
  unfold insertMesh at h
  split at h
  · cases h
  · cases h
    refine Incidence.ext rfl (Set.ext fun id => ?_) rfl
    show id ∈ (db.mesh ++ [_]).map _ ↔ id = _ ∨ id ∈ db.meshIds
    rw [List.map_append, List.mem_append, List.map_singleton, List.mem_singleton, or_comm]
    rfl

theorem incidence_insertNodeMesh {row : NodeMesh} {db' : Database}
    (h : db.insertNodeMesh row = .ok db') :
    db'.incidence = db.incidence.apply (.addPair (row.nodeId, row.meshId)) := by
  unfold insertNodeMesh at h
  split at h
  · cases h
  · cases h
    refine Incidence.ext rfl rfl (Set.ext fun p => ?_)
    show ⟨p.1, p.2⟩ ∈ db.nodeMesh ++ [row] ↔ p = (row.nodeId, row.meshId) ∨ ⟨p.1, p.2⟩ ∈ db.nodeMesh
    rw [List.mem_append, List.mem_singleton, or_comm, NodeMesh.ext_iff, Prod.ext_iff]

theorem incidence_deleteNode (id : SqlValue) :
    (db.deleteNode id).incidence = db.incidence.apply (.dropLeft id) :=
  Incidence.ext (Set.ext fun _ => mem_map_delete db.node) rfl rfl

theorem incidence_deleteMesh (id : SqlValue) :
    (db.deleteMesh id).incidence = db.incidence.apply (.dropRight id) :=
  Incidence.ext rfl (Set.ext fun _ => mem_map_delete db.mesh) rfl

theorem incidence_deleteNodeMesh (p : NodeMesh → Prop) [DecidablePred p] :
    (db.deleteNodeMesh fun row => p row).incidence =
      db.incidence.apply (.dropPairs {q | p ⟨q.1, q.2⟩}) := by
  refine Incidence.ext rfl rfl (Set.ext fun q => ?_)
  show ⟨q.1, q.2⟩ ∈ db.nodeMesh.filter _ ↔ ⟨q.1, q.2⟩ ∈ db.nodeMesh ∧ ¬p ⟨q.1, q.2⟩
  rw [List.mem_filter, Bool.not_eq_true', decide_eq_false_iff_not]

theorem incidence_updateNode (set : Node → Node) (hset : ∀ n, (set n).id = n.id) (id : SqlValue) :
    (db.updateNode set hset id).incidence = db.incidence := by
  have hids : (db.updateNode set hset id).nodeIds = db.nodeIds :=
    map_update (p := fun n : Node => .integer n.id = id)
      (fun n _ => congrArg SqlValue.integer (hset n)) db.node
  rw [incidence, incidence, hids]
  rfl

theorem incidence_updateMesh {set : Mesh → Mesh} {hset : ∀ m, (set m).id = m.id} {id : SqlValue}
    {db' : Database} (h : db.updateMesh set hset id = .ok db') : db'.incidence = db.incidence := by
  have hids : (db.mesh.map fun m => if .integer m.id = id then set m else m).map
      (fun m => SqlValue.integer m.id) = db.meshIds :=
    map_update (p := fun m : Mesh => .integer m.id = id)
      (fun m _ => congrArg SqlValue.integer (hset m)) db.mesh
  simp only [updateMesh] at h
  split at h
  · cases h
    exact Incidence.ext rfl (Set.ext fun id => by rw [incidence, meshIds, hids]; rfl) rfl
  · cases h

end Database

/-! ## One request -/

/-- A membership is added of a node and a mesh that are there; what is deleted has no membership.
Source: `database.js`, `queries`
Kind: D -/
def Keeps (sq : Sqlite) (db : Database) (req : Request) : Prop :=
  match req.operation with
  | .addNodeToMesh => ∀ nodeId meshId, req.query .node_id = some nodeId →
      req.query .mesh_id = some meshId →
        sq.numeric nodeId ∈ db.nodeIds ∧ sq.numeric meshId ∈ db.meshIds
  | .deleteNode => ∀ nodeId, req.query .node_id = some nodeId →
      ∀ row ∈ db.nodeMesh, row.nodeId ≠ sq.numeric nodeId
  | .deleteMesh => ∀ meshId, req.query .mesh_id = some meshId →
      ∀ row ∈ db.nodeMesh, row.meshId ≠ sq.numeric meshId
  | _ => True

/-- What the SQL of a request does to the incidence. Source: `database.js`, `queries`. Kind: D -/
def change (sq : Sqlite) (db : Database) :
    Operation → List Param → Incidence.Change SqlValue SqlValue
  | .addNode, [_, _] => .addLeft (.integer (nextId (db.node.map Node.id)))
  | .addMesh, [_, _, _, _, _] => .addRight (.integer (nextId (db.mesh.map Mesh.id)))
  | .deleteMesh, [meshId] => .dropRight (sq.value meshId)
  | .addNodeToMesh, [nodeId, meshId] => .addPair (sq.value nodeId, sq.value meshId)
  | .deleteNodeFromMesh, [nodeId, meshId] =>
      .dropPairs {p | p.1 = sq.value nodeId ∧ p.2 = sq.value meshId}
  | .deleteNode, [nodeId] => .dropLeft (sq.value nodeId)
  | .deleteNodeMesh, [nodeId, meshId] =>
      .dropPairs {p | p.1 = sq.value nodeId ∨ p.2 = sq.value meshId}
  | _, _ => .nothing

theorem execute_incidence {sq : Sqlite} {updates : List (Field × Param)} {db db' : Database}
    {op : Operation} {params : List Param} (h : execute sq updates db op params = .ok db') :
    db'.incidence = db.incidence.apply (change sq db op params) := by
  unfold execute at h
  split at h
  · cases h; exact db.incidence_insertNode _ _
  · exact db.incidence_insertMesh h
  · cases h; exact db.incidence_deleteMesh _
  · exact db.incidence_insertNodeMesh h
  · cases h; exact db.incidence_deleteNodeMesh fun row => row.nodeId = _ ∧ row.meshId = _
  · exact db.incidence_updateMesh h
  · cases h; exact db.incidence_updateNode _ _ _
  · cases h; exact db.incidence_deleteNode _
  · cases h; exact db.incidence_deleteNodeMesh fun row => row.nodeId = _ ∨ row.meshId = _
  · cases h
    have hchange : change sq db op params = .nothing := by
      unfold change
      split <;> grind
    rw [hchange]
    rfl

/-- A request leaves the tables, or its SQL runs on all its parameters.
Source: `database.js`, `query`
Kind: L -/
theorem query_cases (sq : Sqlite) (db : Database) (req : Request) :
    (query sq db req).1 = db ∨ ∃ updates params,
      execute sq updates db req.operation params = .ok (query sq db req).1 := by
  generalize hq : query sq db req = result
  simp only [query] at hq
  split at hq
  · exact Or.inl (hq ▸ rfl)
  · split at hq
    · exact Or.inl (hq ▸ rfl)
    · rename_i params _
      split at hq
      · exact Or.inl (hq ▸ rfl)
      · rename_i db' hexec
        exact Or.inr ⟨_, params, by rw [hexec, ← hq]⟩

/-- A parameter that the request gives. Source: `database.js`, `query`. Kind: L -/
theorem params_cons_of_some {req : Request} {entry : Entry} {param : Field} {t : Bytes}
    (h : req.query param = some t) (rest : List Field) :
    req.params entry (param :: rest) = (req.params entry rest).map (.text t :: ·) := by
  simp only [Request.params, Request.param, h]

/-- A parameter that is neither given nor has a default. Source: `database.js`, `query`. Kind: L -/
theorem params_cons_of_none {req : Request} {entry : Entry} {param : Field}
    (h : req.query param = none) (hdefault : entry.defaults = []) (rest : List Field) :
    req.params entry (param :: rest) = .error param := by
  simp only [Request.params, Request.param, h, hdefault, List.lookup_nil]

/-- A request without fields to update, whose parameters are found.
Source: `database.js`, `query`
Kind: L -/
theorem query_of_params {sq : Sqlite} {db : Database} {req : Request} {params : List Param}
    (hplain : (queries req.operation).updateFields = none)
    (hparams : req.params (queries req.operation) (queries req.operation).params = .ok params) :
    (query sq db req).1 = (execute sq [] db req.operation params).toOption.getD db := by
  simp only [query, hplain, hparams, Option.map_none, reduceCtorEq, if_false, Option.getD_none]
  cases execute sq [] db req.operation params <;> rfl

/-- A request whose parameters are not found. Source: `database.js`, `query`. Kind: L -/
theorem query_of_missing {sq : Sqlite} {db : Database} {req : Request} {param : Field}
    (hplain : (queries req.operation).updateFields = none)
    (hparams : req.params (queries req.operation) (queries req.operation).params = .error param) :
    (query sq db req).1 = db := by
  simp only [query, hplain, hparams, Option.map_none, reduceCtorEq, if_false]

theorem query_deleteNode (sq : Sqlite) (db : Database) (q : Field → Option Bytes) :
    (query sq db ⟨.deleteNode, q⟩).1 =
      (q .node_id).elim db fun nodeId => db.deleteNode (sq.numeric nodeId) := by
  cases hnode : q .node_id with
  | none => exact query_of_missing rfl (params_cons_of_none hnode rfl [])
  | some nodeId =>
      have hparams : Request.params ⟨.deleteNode, q⟩ (queries .deleteNode) [.node_id] =
          .ok [.text nodeId] := params_cons_of_some hnode []
      exact query_of_params rfl hparams

theorem query_deleteMesh (sq : Sqlite) (db : Database) (q : Field → Option Bytes) :
    (query sq db ⟨.deleteMesh, q⟩).1 =
      (q .mesh_id).elim db fun meshId => db.deleteMesh (sq.numeric meshId) := by
  cases hmesh : q .mesh_id with
  | none => exact query_of_missing rfl (params_cons_of_none hmesh rfl [])
  | some meshId =>
      have hparams : Request.params ⟨.deleteMesh, q⟩ (queries .deleteMesh) [.mesh_id] =
          .ok [.text meshId] := params_cons_of_some hmesh []
      exact query_of_params rfl hparams

theorem query_addNodeToMesh (sq : Sqlite) (db : Database) (q : Field → Option Bytes) :
    (query sq db ⟨.addNodeToMesh, q⟩).1 =
      (q .node_id).elim db fun nodeId => (q .mesh_id).elim db fun meshId =>
        (db.insertNodeMesh ⟨sq.numeric nodeId, sq.numeric meshId⟩).toOption.getD db := by
  cases hnode : q .node_id with
  | none => exact query_of_missing rfl (params_cons_of_none hnode rfl [.mesh_id])
  | some nodeId =>
      cases hmesh : q .mesh_id with
      | none =>
          have hparams : Request.params ⟨.addNodeToMesh, q⟩ (queries .addNodeToMesh)
              [.node_id, .mesh_id] = .error .mesh_id := by
            rw [params_cons_of_some hnode, params_cons_of_none hmesh rfl]
            rfl
          exact query_of_missing rfl hparams
      | some meshId =>
          have hparams : Request.params ⟨.addNodeToMesh, q⟩ (queries .addNodeToMesh)
              [.node_id, .mesh_id] = .ok [.text nodeId, .text meshId] := by
            rw [params_cons_of_some hnode, params_cons_of_some hmesh]
            rfl
          exact query_of_params rfl hparams

/-- A request that changes the tables if its parameter is there.
Source: `database.js`, `query`
Kind: L -/
theorem elim_referential_iff {db : Database} (h : db.Referential) {changed : Bytes → Database}
    {P : Bytes → Prop} (hchanged : ∀ t, (changed t).Referential ↔ P t) (param : Option Bytes) :
    (param.elim db changed).Referential ↔ ∀ t, param = some t → P t := by
  cases param <;> simp [h, hchanged]

/-- **A request keeps the integrity exactly if it keeps the tables it meets.**
Source: `database.js`, `query`
Kind: P -/
theorem query_referential_iff (sq : Sqlite) {db : Database} (h : db.Referential) (req : Request) :
    (query sq db req).1.Referential ↔ Keeps sq db req := by
  have hclosed := db.closed_incidence.mpr h
  obtain ⟨op, q⟩ := req
  have harmless : (∀ params, db.incidence.Keeps (change sq db op params)) →
      (query sq db ⟨op, q⟩).1.Referential := by
    intro hkeeps
    rcases query_cases sq db ⟨op, q⟩ with hsame | ⟨updates, params, hok⟩
    · rwa [hsame]
    · rw [← Database.closed_incidence, execute_incidence hok]
      exact (Incidence.closed_apply_iff hclosed _).mpr (hkeeps params)
  cases op with
  | updateMesh | updateNode => exact iff_of_true (harmless fun _ => trivial) trivial
  | addNode | addMesh | deleteNodeFromMesh | deleteNodeMesh =>
      refine iff_of_true (harmless fun params => ?_) trivial
      simp only [change]
      split <;> trivial
  | deleteNode =>
      rw [query_deleteNode]
      refine elim_referential_iff h (fun t => ?_) _
      rw [← Database.closed_incidence, Database.incidence_deleteNode,
        Incidence.closed_apply_iff hclosed]
      exact ⟨fun hkeeps row hrow => hkeeps (row.nodeId, row.meshId) hrow,
        fun hkeeps p hp => hkeeps ⟨p.1, p.2⟩ hp⟩
  | deleteMesh =>
      rw [query_deleteMesh]
      refine elim_referential_iff h (fun t => ?_) _
      rw [← Database.closed_incidence, Database.incidence_deleteMesh,
        Incidence.closed_apply_iff hclosed]
      exact ⟨fun hkeeps row hrow => hkeeps (row.nodeId, row.meshId) hrow,
        fun hkeeps p hp => hkeeps ⟨p.1, p.2⟩ hp⟩
  | addNodeToMesh =>
      have hkeeps : Keeps sq db ⟨.addNodeToMesh, q⟩ ↔
          ∀ t u, q .node_id = some t → q .mesh_id = some u →
            sq.numeric t ∈ db.nodeIds ∧ sq.numeric u ∈ db.meshIds := Iff.rfl
      rw [query_addNodeToMesh, hkeeps]
      cases hnode : q .node_id with
      | none => simpa using h
      | some t =>
          cases hmesh : q .mesh_id with
          | none => simpa using h
          | some u =>
              refine Iff.trans ?_ (show _ ∧ _ ↔ _ from
                ⟨by rintro hthere _ _ ⟨⟩ ⟨⟩; exact hthere, fun hall => hall t u rfl rfl⟩)
              simp only [Option.elim_some]
              cases hinsert : db.insertNodeMesh ⟨sq.numeric t, sq.numeric u⟩ with
              | error err =>
                  -- the membership is there already, and refers to what is there
                  refine iff_of_true h (h ⟨sq.numeric t, sq.numeric u⟩ ?_)
                  by_contra hnew
                  rw [Database.insertNodeMesh, dif_neg hnew] at hinsert
                  cases hinsert
              | ok db' =>
                  show db'.Referential ↔ _
                  rw [← Database.closed_incidence, db.incidence_insertNodeMesh hinsert]
                  exact Incidence.closed_apply_iff hclosed _

/-! ## Runs -/

/-- Nothing in `db'` that was not in `db` has a membership.
Source: `database.js`, `"/r/addNode"`, `"/r/addMesh"`
Kind: D -/
def AddedWithoutMembers (db db' : Database) : Prop :=
  (∀ id ∈ db'.nodeIds, id ∉ db.nodeIds → ∀ row ∈ db'.nodeMesh, row.nodeId ≠ id) ∧
    ∀ id ∈ db'.meshIds, id ∉ db.meshIds → ∀ row ∈ db'.nodeMesh, row.meshId ≠ id

/-- After the requests `es`, every membership refers to a node and a mesh, and what the last request
added has none.
Source: `udping.sql`
Kind: D -/
def Integral (sq : Sqlite) (es : List Request) : Prop :=
  ((controller sq).run es).Referential ∧ ∀ es' req, es = es' ++ [req] →
    AddedWithoutMembers ((controller sq).run es') ((controller sq).run es)

theorem query_addedWithoutMembers (sq : Sqlite) {db : Database} (h : db.Referential)
    (req : Request) : AddedWithoutMembers db (query sq db req).1 := by
  have hclosed := db.closed_incidence.mpr h
  obtain ⟨c, hc⟩ : ∃ c, (query sq db req).1.incidence = db.incidence.apply c := by
    rcases query_cases sq db req with hsame | ⟨_, _, hok⟩
    · exact ⟨.nothing, by rw [hsame]; rfl⟩
    · exact ⟨_, execute_incidence hok⟩
  have hpairs : ∀ row ∈ (query sq db req).1.nodeMesh,
      (row.nodeId, row.meshId) ∈ (db.incidence.apply c).pairs := fun row hrow => hc ▸ hrow
  constructor
  · intro id hid hnew row hrow
    have hid' : id ∈ (db.incidence.apply c).left := hc ▸ hid
    exact Incidence.isolated_left hclosed hnew hid' _ (hpairs row hrow)
  · intro id hid hnew row hrow
    have hid' : id ∈ (db.incidence.apply c).right := hc ▸ hid
    exact Incidence.isolated_right hclosed hnew hid' _ (hpairs row hrow)

/-- **The store keeps its integrity at every point of a run exactly if** every membership is added
between a node and a mesh that are there, and every node and mesh is deleted after its memberships.
Source: `database.js`, `query`; `udping.js`, `deleteMesh`, `deleteNode`
Kind: C -/
theorem integral_iff (sq : Sqlite) (es : List Request) :
    (∀ pre, pre <+: es → Integral sq pre) ↔ (controller sq).Always (Keeps sq) es := by
  refine (controller sq).forall_prefix_iff_always (c := fun _ _ => True) ?_ ?_ es
    ((controller sq).always_true es)
  · exact ⟨fun _ h => absurd h List.not_mem_nil, fun es' req h => by simp at h⟩
  · intro es req _ _ h
    have hstep := query_referential_iff sq h.1 req
    rw [Integral, EventMachine.run_concat]
    refine ⟨fun h' => hstep.mp h'.1, fun hkeeps => ⟨hstep.mpr hkeeps, fun es' req' heq => ?_⟩⟩
    obtain ⟨rfl, hreq⟩ := List.append_inj' heq rfl
    obtain rfl := List.singleton_inj.mp hreq
    exact query_addedWithoutMembers sq h.1 req

/-- Texts of digits read as integers. Source: none: infrastructure. Kind: D -/
def exampleSqlite : Sqlite where
  numeric t :=
    if t ≠ [] ∧ t.all fun b => 48 ≤ b ∧ b ≤ 57 then
      .integer (t.foldl (fun n b => 10 * n + (b.toNat - 48 : ℕ)) 0)
    else .text t

/-- The parameters of a request, by their texts. Source: none: infrastructure. Kind: D -/
def exampleRequest (operation : Operation) (params : List (Field × String)) : Request where
  operation := operation
  query field := (params.lookup field).map ascii

/-- A mesh with one member is deleted the way the pages do it, and another mesh is added before the
second request of the deletion arrives: the new mesh has the old one's member.
Source: `udping.js`, `deleteMesh`
Kind: C -/
theorem member_of_new_mesh :
    let sq := exampleSqlite
    let es := [
      exampleRequest .addNode [(.ip, "10.0.0.1"), (.hostname, "a")],
      exampleRequest .addMesh [(.name, "m"), (.created_by, "system")],
      exampleRequest .addNodeToMesh [(.node_id, "1"), (.mesh_id, "1")],
      exampleRequest .deleteMesh [(.mesh_id, "1")]]
    let es' := es ++ [exampleRequest .addMesh [(.name, "n"), (.created_by, "system")]]
    ¬Integral sq es ∧ ((controller sq).run es').nodeMesh = [⟨.integer 1, .integer 1⟩] ∧
      ((controller sq).run es').meshIds = [.integer 1] ∧ ¬Integral sq es' := by
  refine ⟨fun h => absurd h.1 (by decide), by decide, by decide, fun h => ?_⟩
  exact (h.2 _ _ rfl).2 (.integer 1) (by decide) (by decide) ⟨.integer 1, .integer 1⟩ (by decide) rfl

end UDPing.Controller
