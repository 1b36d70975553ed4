import SimplyIpExporter.EndpointHandlers

/-!
# Handlers of keys, grants and the trail

Everything here but the caller's own identity and its own grants is for the
Master. A pass of the cleanup worker is at the end.
-/
namespace SimplyIpExporter.KeyHandlers
open RustText Entities VaultClient Storage Services Programs EndpointHandlers

def requireMaster (caller : ApiKey) : Except AppError Unit :=
  if caller.isMaster then .ok () else .error (.forbidden "Only the Master key can manage API keys")

def guardMasterDeleteOrRotate (target : ApiKey) (operation : String) : Except AppError Unit :=
  if target.isMaster then
    .error (.forbidden ("The Master key cannot be " ++ operation ++ " through the API"))
  else .ok ()

theorem isMaster_of_guard {target : ApiKey} {operation : String} {u : Unit}
    (h : guardMasterDeleteOrRotate target operation = .ok u) : target.isMaster = false := by
  unfold guardMasterDeleteOrRotate at h
  split at h
  · cases h
  · rename_i hnot
    simpa using hnot

def guardMasterUpdate (target : ApiKey) (namePresent canManageKeysPresent : Bool) :
    Except AppError Unit :=
  if target.isMaster && (namePresent || canManageKeysPresent) then
    .error (.forbidden "The Master key is immutable through the API except for its own bound_ips")
  else .ok ()

structure KeyResponse where
  id : Uuid
  name : String
  keyPrefix : String
  boundIps : Option String
  isMaster : Bool
  canManageKeys : Bool
  parentKeyId : Option Uuid
  ownerKeyId : Option Uuid
  createdAt : NaiveDateTime
  updatedAt : NaiveDateTime
  deriving DecidableEq, Repr

def KeyResponse.of (m : ApiKey) : KeyResponse :=
  ⟨m.id, m.name, m.keyPrefix, m.boundIps, m.isMaster, m.canManageKeys, m.parentKeyId, m.ownerKeyId,
    m.createdAt, m.updatedAt⟩

structure MintedKeyResponse where
  key : KeyResponse
  apiKey : String
  signingSecret : String
  deriving DecidableEq, Repr

/-- A key or a signing secret: thirty-two random bytes. -/
def generateSecret : Handler String := do
  let bytes ← ask (.random 32)
  pure (hexText bytes)

def sealed (app : AppState) (secret : String) : Handler String := do
  let nonce ← ask (.random 24)
  attempt (match app.crates.sealSecret nonce secret with
    | some text => .ok text
    | none => .error .internal)

def shownPrefix (key : String) : String := String.ofList (key.toList.take 8)

structure CreateKeyPayload where
  name : String
  boundIps : Option String
  canManageKeys : Bool

def createApiKey (app : AppState) (caller : Caller) (payload : CreateKeyPayload) :
    Handler MintedKeyResponse := do
  attempt (requireMaster caller.key)
  attempt (requireName payload.name)
  let boundIps := payload.boundIps.bind unlessBlank
  attempt (ifPresent boundIps (checkBoundIps app))
  let plaintextKey ← generateSecret
  let signingSecret ← generateSecret
  let now ← ask .now
  let id ← ask .newUuid
  let stored ← sealed app signingSecret
  let created ← statement (.insertKey
    { id := id
      name := payload.name
      keyPrefix := shownPrefix plaintextKey
      keyHash := app.crates.hashKey plaintextKey
      signingSecret := some stored
      boundIps := boundIps
      isMaster := false
      canManageKeys := payload.canManageKeys
      parentKeyId := some caller.key.id
      ownerKeyId := some caller.key.id
      createdAt := now
      updatedAt := now })
  createAuditLog (auditEntry app caller "KEY_CREATE"
    (some (describeResource "api_key" created.id created.name))
    (some ("can_manage_keys=" ++ toString created.canManageKeys)))
  pure ⟨.of created, plaintextKey, signingSecret⟩

def listApiKeys (caller : Caller) : Handler (List KeyResponse) := do
  attempt (requireMaster caller.key)
  let keys ← statement .allKeys
  pure (keys.map .of)

structure UpdateKeyPayload where
  name : Option String
  boundIps : Option String
  canManageKeys : Option Bool

def UpdateKeyPayload.changes (p : UpdateKeyPayload) (now : NaiveDateTime) : KeyChanges where
  name := p.name
  boundIps := p.boundIps.map fun raw => unlessBlank (trim raw)
  canManageKeys := p.canManageKeys
  updatedAt := some now

def UpdateKeyPayload.changed (p : UpdateKeyPayload) : List String :=
  [("name", p.name.isSome), ("bound_ips", p.boundIps.isSome),
    ("can_manage_keys", p.canManageKeys.isSome)].filterMap fun (name, present) =>
      if present then some name else none

def updateApiKey (app : AppState) (caller : Caller) (id : Uuid) (payload : UpdateKeyPayload) :
    Handler KeyResponse := do
  attempt (requireMaster caller.key)
  let found ← statement (.findKey id)
  let existing ← attempt (orNotFound found)
  attempt (guardMasterUpdate existing payload.name.isSome payload.canManageKeys.isSome)
  attempt (ifPresent payload.name requireName)
  attempt (ifPresent (payload.boundIps.bind fun raw => unlessBlank (trim raw)) (checkBoundIps app))
  let now ← ask .now
  let updated ← statement (.updateKey existing.id (payload.changes now))
  createAuditLog (auditEntry app caller "KEY_UPDATE"
    (some (describeResource "api_key" updated.id updated.name))
      (some (changedText payload.changed)))
  pure (.of updated)

structure DeleteKeyQuery where
  reassignTo : Option Uuid

def deleteApiKey (app : AppState) (caller : Caller) (id : Uuid) (query : DeleteKeyQuery) :
    Handler Unit := do
  attempt (requireMaster caller.key)
  let found ← statement (.findKey id)
  let existing ← attempt (orNotFound found)
  attempt (guardMasterDeleteOrRotate existing "deleted")
  attempt (if query.reassignTo = some id then
      .error (.invalidInput "reassign_to cannot name the key being deleted")
    else .ok ())
  let now ← ask .now
  let outcome : Except AppError Unit ← ask (Call.deleteKey
    { id := id
      reassignTo := query.reassignTo
      now := now
      entry := auditEntry app caller "KEY_DELETE"
        (some (describeResource "api_key" existing.id existing.name)) })
  attempt outcome

def rotateApiKey (app : AppState) (caller : Caller) (id : Uuid) : Handler MintedKeyResponse := do
  attempt (requireMaster caller.key)
  let found ← statement (.findKey id)
  let existing ← attempt (orNotFound found)
  attempt (guardMasterDeleteOrRotate existing "rotated")
  let plaintextKey ← generateSecret
  let signingSecret ← generateSecret
  let stored ← sealed app signingSecret
  let now ← ask .now
  let updated ← statement (.updateKey existing.id
    { keyHash := some (app.crates.hashKey plaintextKey)
      keyPrefix := some (shownPrefix plaintextKey)
      signingSecret := some (some stored)
      updatedAt := some now })
  createAuditLog (auditEntry app caller "KEY_ROTATE"
    (some (describeResource "api_key" updated.id updated.name)) (some "credentials rotated"))
  pure ⟨.of updated, plaintextKey, signingSecret⟩

structure RotateSigningSecretResponse where
  id : Uuid
  name : String
  signingSecret : String
  deriving DecidableEq, Repr

def rotateSigningSecret (app : AppState) (caller : Caller) (id : Uuid) :
    Handler RotateSigningSecretResponse := do
  attempt (requireMaster caller.key)
  let found ← statement (.findKey id)
  let existing ← attempt (orNotFound found)
  attempt (guardMasterDeleteOrRotate existing "rotated")
  let signingSecret ← generateSecret
  let stored ← sealed app signingSecret
  let now ← ask .now
  let updated ← statement (.updateKey existing.id
    { signingSecret := some (some stored), updatedAt := some now })
  createAuditLog (auditEntry app caller "KEY_SECRET_ROTATE"
    (some (describeResource "api_key" updated.id updated.name)) (some "signing secret rotated"))
  pure ⟨updated.id, existing.name, signingSecret⟩

structure MeResponse where
  id : Uuid
  name : String
  keyPrefix : String
  isMaster : Bool
  canManageKeys : Bool
  boundIps : Option String
  deriving DecidableEq, Repr

def getMe (caller : Caller) : MeResponse :=
  ⟨caller.key.id, caller.key.name, caller.key.keyPrefix, caller.key.isMaster,
    caller.key.canManageKeys, caller.key.boundIps⟩

/-- Vault's groups; a refusal to list them counts as none. -/
def currentGroups (app : AppState) : Handler (List VaultGroup) := do
  attempt (if app.vaultConfigured then .ok () else .error .vaultNotConfigured)
  let reply : Except VaultError (List VaultGroup) ← ask Call.listGroups
  attempt (match reply with
    | .ok groups => .ok groups
    | .error (.status 403) => .ok []
    | .error _ => .error .vaultUnreachable)

def listVaultGroups (app : AppState) (caller : Caller) : Handler (List VaultGroup) := do
  attempt (requireMaster caller.key)
  currentGroups app

def listKeyGroups (caller : Caller) (id : Uuid) : Handler (List VaultGroupPermission) := do
  attempt (if !caller.key.isMaster && caller.key.id != id then
      .error (.forbidden "You may only view your own group grants")
    else .ok ())
  statement (.grantsOf id)

structure GrantGroupPayload where
  vaultGroupId : Uuid

/-- Granting twice returns the first grant. -/
def grantKeyGroup (app : AppState) (caller : Caller) (id : Uuid) (payload : GrantGroupPayload) :
    Handler VaultGroupPermission := do
  attempt (requireMaster caller.key)
  let found ← statement (.findKey id)
  let target ← attempt (orNotFound found)
  let groups ← currentGroups app
  let group ← attempt (match groups.find? fun g => decide (g.id = payload.vaultGroupId) with
    | some group => .ok group
    | none => .error (.invalidInput "No such Vault group"))
  let existing ← statement (.findGrantFor id group.id)
  match existing with
  | some grant => pure grant
  | none => do
    let now ← ask .now
    let grantId ← ask .newUuid
    let created ← statement (.insertGrant ⟨grantId, id, group.id, group.name, now⟩)
    createAuditLog (auditEntry app caller "KEY_GROUP_GRANT"
      (some (describeResource "api_key" target.id target.name))
      (some ("granted read on Vault group " ++ group.name ++ " (" ++ uuidText group.id ++ ")")))
    pure created

def revokeKeyGroup (app : AppState) (caller : Caller) (id permissionId : Uuid) : Handler Unit := do
  attempt (requireMaster caller.key)
  let foundKey ← statement (.findKey id)
  let target ← attempt (orNotFound foundKey)
  let foundGrant ← statement (.findGrant permissionId)
  let grant ← attempt (orNotFound foundGrant)
  attempt (if grant.apiKeyId = id then .ok () else .error .notFound)
  let _ ← statement (.deleteGrant permissionId)
  createAuditLog (auditEntry app caller "KEY_GROUP_REVOKE"
    (some (describeResource "api_key" target.id target.name))
    (some ("revoked read on Vault group " ++ grant.vaultGroupName ++ " (" ++
      uuidText grant.vaultGroupId ++ ")")))

structure AuditLogQuery where
  action : Option String
  limit : Option ℕ
  offset : Option ℕ

def listAuditLogs (caller : Caller) (query : AuditLogQuery) : Handler (List AuditLog) := do
  attempt (if caller.key.isMaster then .ok ()
    else .error (.forbidden "Only the Master key can view audit logs"))
  statement (.auditPage (query.action.filter (· != "")) (min (query.limit.getD 50) 500)
    (query.offset.getD 0))

/-- The grants of groups that are not among those listed. -/
def staleGrants (live : List Uuid) (grants : List VaultGroupPermission) : List Uuid :=
  (grants.filter fun g => !live.contains g.vaultGroupId).map (·.id)

/-- One pass: grants of groups Vault no longer lists are removed. A failed call
ends the pass. -/
def cleanupStaleGroupPermissions (app : AppState) : Program Answer Unit :=
  if app.vaultConfigured then do
    let reply : Except VaultError (List VaultGroup) ← perform Call.listGroups
    match reply with
    | .error _ => pure ()
    | .ok groups => do
      let listed : Except DbErr (List VaultGroupPermission) ← perform (Call.db .allGrants)
      match listed with
      | .error _ => pure ()
      | .ok grants =>
        let stale := staleGrants (groups.map (·.id)) grants
        if stale.isEmpty then pure ()
        else do
          let _ ← perform (Call.db (.deleteGrants stale))
          pure ()
  else pure ()

/-- A policy that lets the three calls of a pass through lets the pass through. -/
theorem cleanupStaleGroupPermissions_follows {M : Type} {P : Policy Answer M}
    (hgroups : ∀ m, P.permits m .listGroups) (hgrants : ∀ m, P.permits m (.db .allGrants))
    (hdelete : ∀ m ids, P.permits m (.db (.deleteGrants ids))) (app : AppState) (m : M) :
    Follows P (fun _ _ => True) (cleanupStaleGroupPermissions app) m := by
  unfold cleanupStaleGroupPermissions
  split
  · refine Follows.perform_bind (hgroups m) fun reply m₁ _ => ?_
    cases reply with
    | error e => exact Follows.pure trivial
    | ok groups =>
        refine Follows.perform_bind (hgrants m₁) fun listed m₂ _ => ?_
        cases listed with
        | error e => exact Follows.pure trivial
        | ok grants =>
            dsimp only
            split
            · exact Follows.pure trivial
            · exact Follows.perform_bind (hdelete m₂ _) fun _ _ _ => Follows.pure trivial
  · exact Follows.pure trivial

end SimplyIpExporter.KeyHandlers
