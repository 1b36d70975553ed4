import SimplyIpExporter.Entities
import SimplyIpExporter.KeyedTables

/-!
# The database

Four tables with the constraints of the schema: primary keys, the unique columns,
and the references to `api_keys`. Each statement the exporter sends is one
function on the database, with the answer it reads back; a violated constraint is
an error that leaves the database as it was. An update names the columns it sets,
so that it writes those and no others.
-/
namespace SimplyIpExporter.Storage
open Entities KeyedTables

structure Database where
  apiKeys : Table ApiKey Uuid ApiKey.id
  endpoints : Table Endpoint Uuid Endpoint.id
  grants : Table VaultGroupPermission Uuid VaultGroupPermission.id
  auditLogs : Table AuditLog Uuid AuditLog.id

def Database.empty : Database := ⟨.empty, .empty, .empty, .empty⟩

/-- A reference to `api_keys` is null or names a row. -/
def Database.refers (db : Database) (key : Option Uuid) : Bool :=
  key.all fun id => (db.apiKeys.find id).isSome

/-- The columns of `endpoints` that an active model has set. -/
structure EndpointChanges where
  ownerKeyId : Option (Option Uuid) := none
  name : Option String := none
  description : Option (Option String) := none
  vaultGroups : Option String := none
  ttlSeconds : Option ℤ := none
  maxAgeSeconds : Option ℤ := none
  boundIps : Option (Option String) := none
  filterRfc1918 : Option Bool := none
  filterBogons : Option Bool := none
  filterLoopback : Option Bool := none
  lastSyncedAt : Option (Option NaiveDateTime) := none
  updatedAt : Option NaiveDateTime := none
  deriving DecidableEq, Repr

def EndpointChanges.apply (ch : EndpointChanges) (row : Endpoint) : Endpoint :=
  { row with
    ownerKeyId := ch.ownerKeyId.getD row.ownerKeyId
    name := ch.name.getD row.name
    description := ch.description.getD row.description
    vaultGroups := ch.vaultGroups.getD row.vaultGroups
    ttlSeconds := ch.ttlSeconds.getD row.ttlSeconds
    maxAgeSeconds := ch.maxAgeSeconds.getD row.maxAgeSeconds
    boundIps := ch.boundIps.getD row.boundIps
    filterRfc1918 := ch.filterRfc1918.getD row.filterRfc1918
    filterBogons := ch.filterBogons.getD row.filterBogons
    filterLoopback := ch.filterLoopback.getD row.filterLoopback
    lastSyncedAt := ch.lastSyncedAt.getD row.lastSyncedAt
    updatedAt := ch.updatedAt.getD row.updatedAt }

theorem EndpointChanges.apply_id (ch : EndpointChanges) (row : Endpoint) :
    (ch.apply row).id = row.id := rfl

/-- The columns of `api_keys` that an active model has set. -/
structure KeyChanges where
  name : Option String := none
  keyPrefix : Option String := none
  keyHash : Option String := none
  signingSecret : Option (Option String) := none
  boundIps : Option (Option String) := none
  canManageKeys : Option Bool := none
  updatedAt : Option NaiveDateTime := none
  deriving DecidableEq, Repr

def KeyChanges.apply (ch : KeyChanges) (row : ApiKey) : ApiKey :=
  { row with
    name := ch.name.getD row.name
    keyPrefix := ch.keyPrefix.getD row.keyPrefix
    keyHash := ch.keyHash.getD row.keyHash
    signingSecret := ch.signingSecret.getD row.signingSecret
    boundIps := ch.boundIps.getD row.boundIps
    canManageKeys := ch.canManageKeys.getD row.canManageKeys
    updatedAt := ch.updatedAt.getD row.updatedAt }

theorem KeyChanges.apply_id (ch : KeyChanges) (row : ApiKey) : (ch.apply row).id = row.id := rfl

inductive Statement where
  | findKey (id : Uuid)
  | allKeys
  | insertKey (row : ApiKey)
  | updateKey (id : Uuid) (changes : KeyChanges)
  | findEndpoint (id : Uuid)
  | allEndpoints
  | endpointsOwnedBy (owner : Uuid)
  | insertEndpoint (row : Endpoint)
  | updateEndpoint (id : Uuid) (changes : EndpointChanges)
  | deleteEndpoint (id : Uuid)
  | findGrant (id : Uuid)
  | findGrantFor (key group : Uuid)
  | grantsOf (key : Uuid)
  | allGrants
  | insertGrant (row : VaultGroupPermission)
  | deleteGrant (id : Uuid)
  | deleteGrants (ids : List Uuid)
  | auditPage (action : Option String) (limit offset : ℕ)
  | insertAudit (row : AuditLog)

/-- What a statement reads back; deletions count the rows they removed. -/
@[reducible] def Statement.Rows : Statement → Type
  | .findKey _ => Option ApiKey
  | .allKeys => List ApiKey
  | .insertKey _ | .updateKey _ _ => ApiKey
  | .findEndpoint _ => Option Endpoint
  | .allEndpoints | .endpointsOwnedBy _ => List Endpoint
  | .insertEndpoint _ | .updateEndpoint _ _ => Endpoint
  | .findGrant _ | .findGrantFor _ _ => Option VaultGroupPermission
  | .grantsOf _ | .allGrants => List VaultGroupPermission
  | .insertGrant _ => VaultGroupPermission
  | .deleteEndpoint _ | .deleteGrant _ | .deleteGrants _ => ℕ
  | .auditPage _ _ _ => List AuditLog
  | .insertAudit _ => AuditLog

section Statements
variable {Row : Type} {key : Row → Uuid}

def insertRow (t : Table Row Uuid key) (allowed : Bool) (row : Row)
    (store : Table Row Uuid key → Database) : Except DbErr (Row × Database) :=
  match allowed, t.insert row with
  | true, some t' => .ok (row, store t')
  | _, _ => .error .constraint

def updateRow (t : Table Row Uuid key) (allowed : Bool) (id : Uuid) (f : Row → Row)
    (hf : ∀ r, key (f r) = key r) (store : Table Row Uuid key → Database) :
    Except DbErr (Row × Database) :=
  match t.find id with
  | none => .error .recordNotUpdated
  | some row =>
    if allowed then .ok (f row, store (t.change (fun r => decide (key r = id)) f hf))
    else .error .constraint

def deleteRows (t : Table Row Uuid key) (p : Row → Bool)
    (store : Table Row Uuid key → Database) : Except DbErr (ℕ × Database) :=
  .ok (t.rows.countP p, store (t.delete p))

theorem insertRow_ok {t : Table Row Uuid key} {allowed : Bool} {row row' : Row}
    {store : Table Row Uuid key → Database} {db : Database}
    (h : insertRow t allowed row store = .ok (row', db)) :
    row' = row ∧ ∃ t', t.insert row = some t' ∧ db = store t' := by
  unfold insertRow at h
  split at h
  · rename_i t' ht
    cases h
    exact ⟨rfl, t', ht, rfl⟩
  · cases h

theorem updateRow_ok {t : Table Row Uuid key} {allowed : Bool} {id : Uuid} {f : Row → Row}
    {hf : ∀ r, key (f r) = key r} {row' : Row} {store : Table Row Uuid key → Database}
    {db : Database} (h : updateRow t allowed id f hf store = .ok (row', db)) :
    ∃ row, t.find id = some row ∧ row' = f row ∧
      db = store (t.change (fun r => decide (key r = id)) f hf) := by
  unfold updateRow at h
  split at h
  · cases h
  · rename_i row hrow
    split at h
    · cases h
      exact ⟨row, hrow, rfl, rfl⟩
    · cases h

end Statements

def Database.endpointsOf (db : Database) (owner : Uuid) : List Endpoint :=
  db.endpoints.rows.filter fun r => decide (r.ownerKeyId = some owner)

/-- Two grants of one key for one group violate the unique index. -/
def Database.grantFor (db : Database) (key group : Uuid) : Option VaultGroupPermission :=
  db.grants.rows.find? fun g => decide (g.apiKeyId = key ∧ g.vaultGroupId = group)

/-- A page of the trail, newest first. -/
def Database.auditPage (db : Database) (action : Option String) (limit offset : ℕ) :
    List AuditLog :=
  let kept := db.auditLogs.rows.filter fun r => action.all (r.action = ·)
  ((kept.mergeSort fun a b => decide (b.timestamp ≤ a.timestamp)).drop offset).take limit

def Statement.run : (s : Statement) → Database → Except DbErr (s.Rows × Database)
  | .findKey id, db => .ok (db.apiKeys.find id, db)
  | .allKeys, db => .ok (db.apiKeys.rows, db)
  | .insertKey row, db =>
      insertRow db.apiKeys
        (!db.apiKeys.rows.any fun r =>
          decide (r.keyHash = row.keyHash) || (r.isMaster && row.isMaster))
        row fun t => { db with apiKeys := t }
  | .updateKey id ch, db =>
      updateRow db.apiKeys
        (!db.apiKeys.rows.any fun r => decide (r.id ≠ id ∧ ch.keyHash = some r.keyHash))
        id ch.apply ch.apply_id fun t => { db with apiKeys := t }
  | .findEndpoint id, db => .ok (db.endpoints.find id, db)
  | .allEndpoints, db => .ok (db.endpoints.rows, db)
  | .endpointsOwnedBy owner, db =>
      .ok (db.endpointsOf owner, db)
  | .insertEndpoint row, db =>
      insertRow db.endpoints
        (db.refers row.ownerKeyId &&
          !db.endpoints.rows.any fun r => decide (r.tokenSecret = row.tokenSecret))
        row fun t => { db with endpoints := t }
  | .updateEndpoint id ch, db =>
      updateRow db.endpoints (ch.ownerKeyId.all db.refers) id ch.apply ch.apply_id
        fun t => { db with endpoints := t }
  | .deleteEndpoint id, db =>
      deleteRows db.endpoints (fun r => decide (r.id = id)) fun t => { db with endpoints := t }
  | .findGrant id, db => .ok (db.grants.find id, db)
  | .findGrantFor key group, db => .ok (db.grantFor key group, db)
  | .grantsOf key, db => .ok (db.grants.rows.filter fun g => decide (g.apiKeyId = key), db)
  | .allGrants, db => .ok (db.grants.rows, db)
  | .insertGrant row, db =>
      insertRow db.grants
        (db.refers (some row.apiKeyId) && (db.grantFor row.apiKeyId row.vaultGroupId).isNone)
        row fun t => { db with grants := t }
  | .deleteGrant id, db =>
      deleteRows db.grants (fun g => decide (g.id = id)) fun t => { db with grants := t }
  | .deleteGrants ids, db =>
      deleteRows db.grants (fun g => ids.contains g.id) fun t => { db with grants := t }
  | .auditPage action limit offset, db => .ok (db.auditPage action limit offset, db)
  | .insertAudit row, db =>
      insertRow db.auditLogs (db.refers row.apiKeyId) row fun t => { db with auditLogs := t }

theorem run_insertEndpoint {row row' : Endpoint} {db db' : Database}
    (h : (Statement.insertEndpoint row).run db = .ok (row', db')) :
    row' = row ∧ ∃ t, db.endpoints.insert row = some t ∧ db' = { db with endpoints := t } :=
  insertRow_ok h

theorem run_updateEndpoint {id : Uuid} {ch : EndpointChanges} {row' : Endpoint} {db db' : Database}
    (h : (Statement.updateEndpoint id ch).run db = .ok (row', db')) :
    ∃ row, db.endpoints.find id = some row ∧ row' = ch.apply row ∧
      db' = { db with
        endpoints := db.endpoints.change (fun r => decide (r.id = id)) ch.apply ch.apply_id } := by
  rw [Statement.run] at h
  exact updateRow_ok h

/-- An update changes one row and leaves all others. -/
theorem mem_of_updateEndpoint {id : Uuid} {ch : EndpointChanges} {row' rows : Endpoint}
    {db db' : Database} (h : (Statement.updateEndpoint id ch).run db = .ok (rows, db'))
    (hrow' : row' ∈ db'.endpoints.rows) :
    row' ∈ db.endpoints.rows ∨ ∃ row, db.endpoints.find id = some row ∧ row' = ch.apply row := by
  obtain ⟨-, -, -, rfl⟩ := run_updateEndpoint h
  obtain ⟨row, hrow, rfl⟩ := List.mem_map.mp hrow'
  split
  · rename_i hid
    exact .inr ⟨row, Table.find_eq_some.mpr ⟨hrow, of_decide_eq_true hid⟩, rfl⟩
  · exact .inl hrow

theorem run_insertAudit {row row' : AuditLog} {db db' : Database}
    (h : (Statement.insertAudit row).run db = .ok (row', db')) :
    row' = row ∧ ∃ t, db.auditLogs.insert row = some t ∧ db' = { db with auditLogs := t } :=
  insertRow_ok h

def Statement.onEndpoints : Statement → Bool
  | .insertEndpoint _ | .updateEndpoint _ _ | .deleteEndpoint _ => true
  | _ => false

theorem run_not_onEndpoints {s : Statement} {rows : s.Rows} {db db' : Database}
    (hs : s.onEndpoints = false) (h : s.run db = .ok (rows, db')) :
    db'.endpoints = db.endpoints := by
  cases s with
  | insertEndpoint row | updateEndpoint id ch | deleteEndpoint id => cases hs
  | insertKey row | insertGrant row | insertAudit row =>
      obtain ⟨-, t, -, rfl⟩ := insertRow_ok h
      rfl
  | updateKey id ch =>
      rw [Statement.run] at h
      obtain ⟨row, -, -, rfl⟩ := updateRow_ok h
      rfl
  | _ =>
      cases h
      rfl

theorem run_insertKey {row row' : ApiKey} {db db' : Database}
    (h : (Statement.insertKey row).run db = .ok (row', db')) :
    row' = row ∧ ∃ t, db.apiKeys.insert row = some t ∧ db' = { db with apiKeys := t } :=
  insertRow_ok h

theorem run_updateKey {id : Uuid} {ch : KeyChanges} {row' : ApiKey} {db db' : Database}
    (h : (Statement.updateKey id ch).run db = .ok (row', db')) :
    ∃ row, db.apiKeys.find id = some row ∧ row' = ch.apply row ∧
      db' = { db with
        apiKeys := db.apiKeys.change (fun r => decide (r.id = id)) ch.apply ch.apply_id } := by
  rw [Statement.run] at h
  exact updateRow_ok h

def Statement.onKeys : Statement → Bool
  | .insertKey _ | .updateKey _ _ => true
  | _ => false

theorem run_not_onKeys {s : Statement} {rows : s.Rows} {db db' : Database}
    (hs : s.onKeys = false) (h : s.run db = .ok (rows, db')) : db'.apiKeys = db.apiKeys := by
  cases s with
  | insertKey row | updateKey id ch => cases hs
  | insertEndpoint row | insertGrant row | insertAudit row =>
      obtain ⟨-, t, -, rfl⟩ := insertRow_ok h
      rfl
  | updateEndpoint id ch =>
      obtain ⟨row, -, -, rfl⟩ := run_updateEndpoint h
      rfl
  | _ =>
      cases h
      rfl

/-- `create_audit_log`'s row, but for the identifier and the time. -/
structure AuditEntry where
  caller : ApiKey
  clientIp : String
  action : String
  targetResource : Option String
  details : Option String

def AuditEntry.row (e : AuditEntry) (id : Uuid) (timestamp : NaiveDateTime) : AuditLog where
  id := id
  apiKeyId := some e.caller.id
  apiKeyName := e.caller.name
  apiKeyPrefix := e.caller.keyPrefix
  clientIp := e.clientIp
  action := e.action
  targetResource := e.targetResource
  details := e.details
  timestamp := timestamp

structure KeyDeletion where
  id : Uuid
  reassignTo : Option Uuid
  now : NaiveDateTime
  /-- The trail's entry, its details filled in from what the deletion finds. -/
  entry : Option String → AuditEntry

/-- Removes a key: its endpoints and audit rows lose their reference, its grants go. -/
def Database.removeKey (db : Database) (id : Uuid) : Database where
  apiKeys := db.apiKeys.delete fun r => decide (r.id = id)
  endpoints := db.endpoints.change (fun r => decide (r.ownerKeyId = some id))
    (fun r => { r with ownerKeyId := none }) fun _ => rfl
  grants := db.grants.delete fun g => decide (g.apiKeyId = id)
  auditLogs := db.auditLogs.change (fun r => decide (r.apiKeyId = some id))
    (fun r => { r with apiKeyId := none }) fun _ => rfl

def Database.reassignEndpoints (db : Database) (owner newOwner : Uuid) (now : NaiveDateTime) :
    Database :=
  { db with
    endpoints := db.endpoints.change (fun r => decide (r.ownerKeyId = some owner))
      (fun r => { r with ownerKeyId := some newOwner, updatedAt := now }) fun _ => rfl }

/-- The key endpoints go to, or why the key cannot be deleted. -/
def reassignTarget (d : KeyDeletion) (owned : List Endpoint) (db : Database) :
    Except AppError (Option ApiKey) :=
  match d.reassignTo with
  | some targetId =>
    match db.apiKeys.find targetId with
    | some row => .ok (some row)
    | none => .error (.invalidInput "reassign_to does not name an existing key")
  | none =>
    if owned.isEmpty then .ok none
    else .error (.conflictWithDetails
      (s!"this key still owns {owned.length} endpoint(s); reassign or delete them first, " ++
        "or retry with ?reassign_to=<key id>")
      (owned.map fun e => (e.id, e.name)))

/-- The endpoints of the deleted key go to the key named, if one is. -/
def KeyDeletion.moved (d : KeyDeletion) (target : Option ApiKey) (db : Database) : Database :=
  target.elim db fun t => db.reassignEndpoints d.id t.id d.now

/-- What the entry says of endpoints that were passed on. -/
def reassignedDetails (count : ℕ) (target : Option ApiKey) : Option String :=
  target.map fun t => s!"reassigned {count} endpoint(s) to " ++ t.name ++ " (" ++ uuidText t.id ++
    "); key deleted"

/-- The row goes, if there is one, and the trail gets its entry. -/
def Database.removeRecorded (db : Database) (id : Uuid) (entry : AuditLog) :
    Except AppError Database :=
  if (db.apiKeys.find id).isNone then .error .notFound
  else
    match (Statement.insertAudit entry).run (db.removeKey id) with
    | .error e => .error (.dbError e)
    | .ok (_, final) => .ok final

/-- The one transaction of the exporter. It holds the only connection, so no other
statement runs inside it, and an early return undoes it: it is one function from
the database to the new database or to the error answered. -/
def KeyDeletion.run (d : KeyDeletion) (auditId : Uuid) (auditTime : NaiveDateTime) (db : Database) :
    Except AppError Database :=
  let owned := db.endpointsOf d.id
  match reassignTarget d owned db with
  | .error e => .error e
  | .ok target => (d.moved target db).removeRecorded d.id
      ((d.entry (reassignedDetails owned.length target)).row auditId auditTime)

theorem KeyDeletion.run_of_error {d : KeyDeletion} {auditId : Uuid} {auditTime : NaiveDateTime}
    {db : Database} {e : AppError} (h : reassignTarget d (db.endpointsOf d.id) db = .error e) :
    d.run auditId auditTime db = .error e := by
  simp only [KeyDeletion.run, h]

theorem KeyDeletion.run_of_target {d : KeyDeletion} {auditId : Uuid} {auditTime : NaiveDateTime}
    {db : Database} {target : Option ApiKey}
    (h : reassignTarget d (db.endpointsOf d.id) db = .ok target) :
    d.run auditId auditTime db = (d.moved target db).removeRecorded d.id
      ((d.entry (reassignedDetails (db.endpointsOf d.id).length target)).row auditId
        auditTime) := by
  simp only [KeyDeletion.run, h]

/-- The key named, which exists; or none, and there is nothing to pass on. -/
theorem reassignTarget_ok {d : KeyDeletion} {owned : List Endpoint} {db : Database}
    {target : Option ApiKey} (h : reassignTarget d owned db = .ok target) :
    (target = none ∧ d.reassignTo = none ∧ owned = []) ∨
      ∃ t, target = some t ∧ d.reassignTo = some t.id ∧ db.apiKeys.find t.id = some t := by
  unfold reassignTarget at h
  split at h
  · rename_i targetId hto
    split at h
    · rename_i row hrow
      cases h
      have hid : row.id = targetId := (Table.find_eq_some.mp hrow).2
      exact .inr ⟨row, rfl, by rw [hto, hid], by rw [hid, hrow]⟩
    · cases h
  · rename_i hto
    split at h
    · rename_i hempty
      cases h
      exact .inl ⟨rfl, hto, List.isEmpty_iff.mp hempty⟩
    · cases h

/-- What a deletion that went through has done. -/
theorem KeyDeletion.run_ok {d : KeyDeletion} {auditId : Uuid} {auditTime : NaiveDateTime}
    {db db' : Database} (h : d.run auditId auditTime db = .ok db') :
    ∃ target details audits,
      reassignTarget d (db.endpointsOf d.id) db = .ok target ∧
      (db.apiKeys.find d.id).isSome = true ∧
      ((d.moved target db).removeKey d.id).auditLogs.insert
        ((d.entry details).row auditId auditTime) = some audits ∧
      db' = { (d.moved target db).removeKey d.id with auditLogs := audits } := by
  dsimp only [KeyDeletion.run, Database.removeRecorded] at h
  split at h
  · cases h
  · rename_i target htarget
    split at h
    · cases h
    · rename_i hpresent
      split at h
      · cases h
      · rename_i row final hinsert
        cases h
        obtain ⟨-, audits, haudits, rfl⟩ := run_insertAudit hinsert
        -- moving endpoints does not touch the keys
        have hsome : ¬ (db.apiKeys.find d.id).isNone = true := by
          cases target <;> exact hpresent
        refine ⟨target, _, audits, htarget, ?_, haudits, rfl⟩
        exact Option.ne_none_iff_isSome.mp fun hnone => hsome (by rw [hnone]; rfl)

/-- Endpoints of the deleted key go to the key named, if one is, or lose their owner. -/
theorem KeyDeletion.endpoints_of_run {d : KeyDeletion} {auditId : Uuid} {auditTime : NaiveDateTime}
    {db db' : Database} (h : d.run auditId auditTime db = .ok db') :
    db'.endpoints = (db.removeKey d.id).endpoints ∨ ∃ newOwner, d.reassignTo = some newOwner ∧
      db'.endpoints = ((db.reassignEndpoints d.id newOwner d.now).removeKey d.id).endpoints := by
  obtain ⟨target, details, audits, htarget, -, -, rfl⟩ := KeyDeletion.run_ok h
  rcases reassignTarget_ok htarget with ⟨rfl, -⟩ | ⟨t, rfl, hto, -⟩
  · exact .inl rfl
  · exact .inr ⟨t.id, hto, rfl⟩

/-- Deleting a key only moves endpoints between owners. -/
theorem KeyDeletion.find_endpoint {d : KeyDeletion} {auditId : Uuid} {auditTime : NaiveDateTime}
    {db db' : Database} (h : d.run auditId auditTime db = .ok db') (id : Uuid) :
    db'.endpoints.find id = none ↔ db.endpoints.find id = none := by
  obtain heq | ⟨newOwner, -, heq⟩ := KeyDeletion.endpoints_of_run h
  · rw [heq]
    simp only [Database.removeKey, Table.find_change, Option.map_eq_none_iff]
  · rw [heq]
    simp only [Database.removeKey, Database.reassignEndpoints, Table.find_change,
      Option.map_eq_none_iff]

theorem mem_removeKey {db : Database} {id : Uuid} {row' : Endpoint}
    (h : row' ∈ (db.removeKey id).endpoints.rows) : row' ∈ db.endpoints.rows ∨
    row'.ownerKeyId = none := by
  obtain ⟨row, hrow, rfl⟩ := List.mem_map.mp h
  split
  · exact .inr rfl
  · exact .inl hrow

/-- An endpoint that has an owner after the deletion of a key is one from before, or
has gone to the key named. -/
theorem KeyDeletion.mem_endpoint {d : KeyDeletion} {auditId : Uuid} {auditTime : NaiveDateTime}
    {db db' : Database} {row' : Endpoint} (h : d.run auditId auditTime db = .ok db')
    (hrow' : row' ∈ db'.endpoints.rows) : row' ∈ db.endpoints.rows ∨ row'.ownerKeyId = none ∨
      ∃ newOwner, d.reassignTo = some newOwner ∧ row'.ownerKeyId = some newOwner := by
  obtain heq | ⟨newOwner, hto, heq⟩ := KeyDeletion.endpoints_of_run h
  · rw [heq] at hrow'
    rcases mem_removeKey hrow' with hold | hnone
    · exact .inl hold
    · exact .inr (.inl hnone)
  · rw [heq] at hrow'
    rcases mem_removeKey hrow' with hmoved | hnone
    · obtain ⟨row, hrow, rfl⟩ := List.mem_map.mp hmoved
      split
      · exact .inr (.inr ⟨newOwner, hto, rfl⟩)
      · exact .inl hrow
    · exact .inr (.inl hnone)

/-- What becomes of an endpoint when a key is deleted. -/
def passedOn (id : Uuid) (reassignTo : Option Uuid) (now : NaiveDateTime) (row : Endpoint) :
    Endpoint :=
  if row.ownerKeyId = some id then { row with ownerKeyId := reassignTo, updatedAt := now } else row

/-- An endpoint of the deleted key has a new owner to go to. -/
theorem KeyDeletion.newOwner {d : KeyDeletion} {auditId : Uuid} {auditTime : NaiveDateTime}
    {db db' : Database} {row : Endpoint} (h : d.run auditId auditTime db = .ok db')
    (hrow : row ∈ db.endpoints.rows) (howner : row.ownerKeyId = some d.id) :
    ∃ t, d.reassignTo = some t.id ∧ db.apiKeys.find t.id = some t := by
  obtain ⟨target, details, audits, htarget, -⟩ := KeyDeletion.run_ok h
  rcases reassignTarget_ok htarget with ⟨-, -, howned⟩ | ⟨t, -, hto, hfind⟩
  · have hmem : row ∈ db.endpointsOf d.id :=
      List.mem_filter.mpr ⟨hrow, by simpa using howner⟩
    rw [howned] at hmem
    cases hmem
  · exact ⟨t, hto, hfind⟩

theorem KeyDeletion.endpoints_eq {d : KeyDeletion} {auditId : Uuid} {auditTime : NaiveDateTime}
    {db db' : Database} (hother : d.reassignTo ≠ some d.id)
    (h : d.run auditId auditTime db = .ok db') :
    db'.endpoints.rows = db.endpoints.rows.map (passedOn d.id d.reassignTo d.now) := by
  have hnew : ∀ row ∈ db.endpoints.rows, row.ownerKeyId = some d.id → d.reassignTo ≠ none := by
    intro row hrow howner
    obtain ⟨t, hto, -⟩ := KeyDeletion.newOwner h hrow howner
    simp [hto]
  obtain ⟨target, details, audits, htarget, -, -, rfl⟩ := KeyDeletion.run_ok h
  rcases reassignTarget_ok htarget with ⟨rfl, hto, -⟩ | ⟨t, rfl, hto, -⟩
  · refine List.map_congr_left ?_
    intro row hrow
    have hfree : row.ownerKeyId ≠ some d.id := fun howner => hnew row hrow howner hto
    simp [passedOn, hfree]
  · have hne : t.id ≠ d.id := fun heq => hother (heq ▸ hto)
    change (db.endpoints.rows.map _).map _ = _
    rw [List.map_map]
    refine List.map_congr_left ?_
    intro row _
    by_cases howner : row.ownerKeyId = some d.id
    · simp [passedOn, howner, hto, hne]
    · simp [passedOn, howner]

end SimplyIpExporter.Storage
