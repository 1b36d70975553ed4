import SimplyIpExporter.BoundIps
import SimplyIpExporter.Services

/-!
# Handlers of endpoints

Creating, listing, updating, deleting and reassigning endpoints, check by check in
the order of the originals. Checks that need no call are functions into `Except`;
what an update sets is a function of its payload alone.
-/
namespace SimplyIpExporter.EndpointHandlers
open RustText IpAddresses Entities BoundIps Storage Services Programs

structure AppState where
  crates : Crates
  vaultConfigured : Bool

def sampleApp : AppState := ⟨sampleCrates, true⟩

/-- The authenticated key, and the address the request came from. -/
structure Caller where
  key : ApiKey
  clientIp : IpAddr

def describeResource (kind : String) (id : Uuid) (name : String) : String :=
  kind ++ ":" ++ uuidText id ++ " (" ++ name ++ ")"

def auditEntry (app : AppState) (caller : Caller) (action : String)
    (targetResource details : Option String) : AuditEntry :=
  ⟨caller.key, app.crates.ipText caller.clientIp, action, targetResource, details⟩

def createAuditLog (entry : AuditEntry) : Handler Unit := do
  let id ← ask .newUuid
  let timestamp ← ask .now
  let _ ← statement (.insertAudit (entry.row id timestamp))
  pure ()

def orNotFound {A : Type} : Option A → Except AppError A
  | some a => .ok a
  | none => .error .notFound

def requireName (name : String) : Except AppError Unit :=
  if trim name = "" then .error (.invalidInput "name must not be empty") else .ok ()

def checkBoundIps (app : AppState) (raw : String) : Except AppError Unit :=
  match validateBoundIps app.crates raw with
  | .ok () => .ok ()
  | .error message => .error (.invalidInput message)

/-- A check of an optional field. -/
def ifPresent {A : Type} (field : Option A) (check : A → Except AppError Unit) :
    Except AppError Unit :=
  match field with
  | none => .ok ()
  | some a => check a

def changedText (changed : List String) : String :=
  "changed: " ++ if changed.isEmpty then "(none)" else ", ".intercalate changed

/-- Blank text stands for no value. -/
def unlessBlank (s : String) : Option String := if trim s = "" then none else some s

structure EndpointResponse extends Endpoint where
  feedPath : String
  deriving DecidableEq, Repr

def EndpointResponse.of (m : Endpoint) : EndpointResponse :=
  { m with feedPath := "/feed/v1/" ++ m.tokenSecret ++ "/list.txt" }

def mayManage (caller : ApiKey) (ep : Endpoint) : Bool :=
  caller.isMaster || decide (ep.ownerKeyId = some caller.id)

def requireManage (caller : ApiKey) (ep : Endpoint) : Except AppError Unit :=
  if mayManage caller ep then .ok ()
  else .error (.forbidden "You do not have management rights over this endpoint")

def validateGroups (raw : String) : Except AppError Unit :=
  if ((split ',' raw).map trim).all (· == "") then
    .error (.invalidInput "vault_groups must name at least one group")
  else .ok ()

def validateMaxAge (maxAgeSeconds : ℤ) : Except AppError Unit :=
  if maxAgeSeconds < 0 then
    .error (.invalidInput
      "max_age_seconds must be zero (unlimited) or a positive number of seconds")
  else .ok ()

def validateTtl (ttlSeconds : ℤ) : Except AppError Unit :=
  if ttlSeconds ≤ 0 then .error (.invalidInput "ttl_seconds must be positive") else .ok ()

def grantedGroupNames (keyId : Uuid) : Handler (List String) := do
  let grants ← statement (.grantsOf keyId)
  pure (grants.map (·.vaultGroupName))

def requireGranted (granted : List String) (vaultGroups : String) : Except AppError Unit :=
  let ungranted := (groupNames vaultGroups).filter fun g => !granted.contains g
  if ungranted.isEmpty then .ok ()
  else .error (.forbidden ("You do not have read access to Vault group(s): " ++
    ", ".intercalate ungranted ++
    " — ask the Master to grant it via POST /api/keys/\x7bid\x7d/groups"))

/-- The Master may name every group. -/
def validateGroupAccess (caller : ApiKey) (vaultGroups : String) : Handler Unit :=
  if caller.isMaster then pure ()
  else do
    let granted ← grantedGroupNames caller.id
    attempt (requireGranted granted vaultGroups)

structure CreateEndpointPayload where
  name : String
  description : Option String
  vaultGroups : String
  ttlSeconds : Option ℤ
  maxAgeSeconds : Option ℤ
  boundIps : Option String
  filterRfc1918 : Bool
  filterBogons : Bool
  filterLoopback : Bool

/-- The row of a new endpoint. -/
def CreateEndpointPayload.row (p : CreateEndpointPayload) (owner id : Uuid) (token : List UInt8)
    (now : NaiveDateTime) : Endpoint where
  id := id
  ownerKeyId := some owner
  name := p.name
  description := p.description
  tokenSecret := hexText token
  vaultGroups := p.vaultGroups
  ttlSeconds := p.ttlSeconds.getD 3600
  maxAgeSeconds := p.maxAgeSeconds.getD 0
  boundIps := p.boundIps.bind unlessBlank
  filterRfc1918 := p.filterRfc1918
  filterBogons := p.filterBogons
  filterLoopback := p.filterLoopback
  lastSyncedAt := none
  createdAt := now
  updatedAt := now

def createEndpoint (app : AppState) (caller : Caller) (payload : CreateEndpointPayload) :
    Handler EndpointResponse := do
  attempt (requireName payload.name)
  attempt (validateGroups payload.vaultGroups)
  validateGroupAccess caller.key payload.vaultGroups
  attempt (ifPresent (payload.boundIps.bind unlessBlank) (checkBoundIps app))
  attempt (validateTtl (payload.ttlSeconds.getD 3600))
  attempt (validateMaxAge (payload.maxAgeSeconds.getD 0))
  let now ← ask .now
  let id ← ask .newUuid
  let token ← ask (.random 16)
  let created ← statement (.insertEndpoint (payload.row caller.key.id id token now))
  createAuditLog (auditEntry app caller "ENDPOINT_CREATE"
    (some (describeResource "endpoint" created.id created.name))
    (some ("vault_groups=" ++ created.vaultGroups)))
  pure (.of created)

/-- The Master sees every endpoint, any other key its own. -/
def listEndpoints (caller : Caller) : Handler (List EndpointResponse) := do
  let rows ← if caller.key.isMaster then statement .allEndpoints
    else statement (.endpointsOwnedBy caller.key.id)
  pure (rows.map .of)

structure UpdateEndpointPayload where
  name : Option String
  description : Option String
  vaultGroups : Option String
  ttlSeconds : Option ℤ
  maxAgeSeconds : Option ℤ
  boundIps : Option String
  filterRfc1918 : Option Bool
  filterBogons : Option Bool
  filterLoopback : Option Bool

/-- The columns an update sets. The owner, the token and the cursor are not among
them. -/
def UpdateEndpointPayload.changes (p : UpdateEndpointPayload) (now : NaiveDateTime) :
    EndpointChanges where
  name := p.name
  description := p.description.map unlessBlank
  vaultGroups := p.vaultGroups
  ttlSeconds := p.ttlSeconds
  maxAgeSeconds := p.maxAgeSeconds
  boundIps := p.boundIps.map fun raw => unlessBlank (trim raw)
  filterRfc1918 := p.filterRfc1918
  filterBogons := p.filterBogons
  filterLoopback := p.filterLoopback
  updatedAt := some now

def UpdateEndpointPayload.changed (p : UpdateEndpointPayload) : List String :=
  [("name", p.name.isSome), ("description", p.description.isSome),
    ("vault_groups", p.vaultGroups.isSome), ("ttl_seconds", p.ttlSeconds.isSome),
    ("max_age_seconds", p.maxAgeSeconds.isSome), ("bound_ips", p.boundIps.isSome),
    ("filter_rfc1918", p.filterRfc1918.isSome), ("filter_bogons", p.filterBogons.isSome),
    ("filter_loopback", p.filterLoopback.isSome)].filterMap fun (name, present) =>
      if present then some name else none

/-- The check of `vault_groups` in an update, the only one that needs a call. -/
def checkGroups (caller : ApiKey) : Option String → Handler Unit
  | none => pure ()
  | some vaultGroups => do
    attempt (validateGroups vaultGroups)
    validateGroupAccess caller vaultGroups

def updateEndpoint (app : AppState) (caller : Caller) (id : Uuid)
    (payload : UpdateEndpointPayload) : Handler EndpointResponse := do
  let found ← statement (.findEndpoint id)
  let existing ← attempt (orNotFound found)
  attempt (requireManage caller.key existing)
  attempt (ifPresent payload.name requireName)
  checkGroups caller.key payload.vaultGroups
  attempt (ifPresent payload.ttlSeconds validateTtl)
  attempt (ifPresent payload.maxAgeSeconds validateMaxAge)
  attempt (ifPresent (payload.boundIps.bind fun raw => unlessBlank (trim raw)) (checkBoundIps app))
  let now ← ask .now
  let updated ← statement (.updateEndpoint existing.id (payload.changes now))
  createAuditLog (auditEntry app caller "ENDPOINT_UPDATE"
    (some (describeResource "endpoint" updated.id updated.name))
      (some (changedText payload.changed)))
  pure (.of updated)

def deleteEndpoint (app : AppState) (caller : Caller) (id : Uuid) : Handler Unit := do
  let found ← statement (.findEndpoint id)
  let existing ← attempt (orNotFound found)
  attempt (requireManage caller.key existing)
  let removed ← statement (.deleteEndpoint id)
  attempt (if removed = 0 then .error .notFound else .ok ())
  let _ ← ask (.evict id)
  createAuditLog (auditEntry app caller "ENDPOINT_DELETE"
    (some (describeResource "endpoint" existing.id existing.name)) none)

structure ReassignOwnerPayload where
  ownerKeyId : Option Uuid

/-- The new owner, when one is named, has to exist. -/
def checkOwner : Option Uuid → Handler Unit
  | none => pure ()
  | some newOwner => do
    let key ← statement (.findKey newOwner)
    attempt (if key.isSome then .ok ()
      else .error (.invalidInput "owner_key_id does not name an existing key"))

def reassignEndpointOwner (app : AppState) (caller : Caller) (id : Uuid)
    (payload : ReassignOwnerPayload) : Handler EndpointResponse := do
  attempt (if caller.key.isMaster then .ok ()
    else .error (.forbidden "Only the Master key can reassign endpoint ownership"))
  let found ← statement (.findEndpoint id)
  let existing ← attempt (orNotFound found)
  checkOwner payload.ownerKeyId
  let now ← ask .now
  let updated ← statement (.updateEndpoint existing.id
    { ownerKeyId := some payload.ownerKeyId, updatedAt := some now })
  createAuditLog (auditEntry app caller "ENDPOINT_OWNER_REASSIGN"
    (some (describeResource "endpoint" updated.id updated.name))
    (some ("owner_key_id -> " ++ payload.ownerKeyId.elim "(none)" uuidText)))
  pure (.of updated)

end SimplyIpExporter.EndpointHandlers
