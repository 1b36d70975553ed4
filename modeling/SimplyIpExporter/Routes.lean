import SimplyIpExporter.KeyHandlers
import SimplyIpExporter.SyncWorker

/-!
# The routes under `/api`

A request as a handler meets it: the caller has been authenticated, and every
path, query and body is what its extractor returned, a value or a rejection. The
extractors run before the handler, in the order of its arguments.
-/
namespace SimplyIpExporter.Routes
open Entities Storage Services Programs Interleaving EndpointHandlers KeyHandlers SyncWorker

/-- The outcome of an extractor. -/
abbrev Extracted (A : Type) := Except AppError A

inductive ApiRequest where
  | getMe
  | createApiKey (payload : Extracted CreateKeyPayload)
  | listApiKeys
  | updateApiKey (id : Extracted Uuid) (payload : Extracted UpdateKeyPayload)
  | deleteApiKey (id : Extracted Uuid) (query : Extracted DeleteKeyQuery)
  | rotateApiKey (id : Extracted Uuid)
  | rotateSigningSecret (id : Extracted Uuid)
  | createEndpoint (payload : Extracted CreateEndpointPayload)
  | listEndpoints
  | updateEndpoint (id : Extracted Uuid) (payload : Extracted UpdateEndpointPayload)
  | deleteEndpoint (id : Extracted Uuid)
  | reassignEndpointOwner (id : Extracted Uuid) (payload : Extracted ReassignOwnerPayload)
  | listAuditLogs (query : Extracted AuditLogQuery)
  | listVaultGroups
  | listKeyGroups (id : Extracted Uuid)
  | grantKeyGroup (id : Extracted Uuid) (payload : Extracted GrantGroupPayload)
  | revokeKeyGroup (path : Extracted (Uuid × Uuid))

inductive Response where
  | me (r : MeResponse)
  | key (r : KeyResponse)
  | keys (rs : List KeyResponse)
  | mintedKey (r : MintedKeyResponse)
  | rotatedSecret (r : RotateSigningSecretResponse)
  | endpoint (r : EndpointResponse)
  | endpoints (rs : List EndpointResponse)
  | grant (r : VaultGroupPermission)
  | grants (rs : List VaultGroupPermission)
  | groups (rs : List VaultGroup)
  | logs (rs : List AuditLog)
  | noContent

/-- Wraps a handler's result as a response. -/
def answer {A : Type} (wrap : A → Response) (h : Handler A) : Handler Response := do
  let a ← h
  pure (wrap a)

/-- A handler behind one extractor, and behind two. -/
def with1 {A B : Type} (a : Extracted A) (h : A → Handler B) : Handler B := do
  let a ← attempt a
  h a

def with2 {A A' B : Type} (a : Extracted A) (a' : Extracted A') (h : A → A' → Handler B) :
    Handler B := do
  let a ← attempt a
  let a' ← attempt a'
  h a a'

def handle (app : AppState) (caller : Caller) : ApiRequest → Handler Response
  | .getMe => pure (.me (KeyHandlers.getMe caller))
  | .createApiKey payload => with1 payload fun p => answer .mintedKey (createApiKey app caller p)
  | .listApiKeys => answer .keys (listApiKeys caller)
  | .updateApiKey id payload =>
      with2 id payload fun id p => answer .key (updateApiKey app caller id p)
  | .deleteApiKey id query =>
      with2 id query fun id q => answer (fun _ => .noContent) (deleteApiKey app caller id q)
  | .rotateApiKey id => with1 id fun id => answer .mintedKey (rotateApiKey app caller id)
  | .rotateSigningSecret id =>
      with1 id fun id => answer .rotatedSecret (rotateSigningSecret app caller id)
  | .createEndpoint payload => with1 payload fun p => answer .endpoint (createEndpoint app caller p)
  | .listEndpoints => answer .endpoints (listEndpoints caller)
  | .updateEndpoint id payload =>
      with2 id payload fun id p => answer .endpoint (updateEndpoint app caller id p)
  | .deleteEndpoint id =>
      with1 id fun id => answer (fun _ => .noContent) (deleteEndpoint app caller id)
  | .reassignEndpointOwner id payload =>
      with2 id payload fun id p => answer .endpoint (reassignEndpointOwner app caller id p)
  | .listAuditLogs query => with1 query fun q => answer .logs (listAuditLogs caller q)
  | .listVaultGroups => answer .groups (listVaultGroups app caller)
  | .listKeyGroups id => with1 id fun id => answer .grants (listKeyGroups caller id)
  | .grantKeyGroup id payload =>
      with2 id payload fun id p => answer .grant (grantKeyGroup app caller id p)
  | .revokeKeyGroup path =>
      with1 path fun (id, permissionId) =>
        answer (fun _ => .noContent) (revokeKeyGroup app caller id permissionId)

/-- What may run at the same time in the process. -/
inductive Task where
  | request (caller : Caller) (r : ApiRequest)
  | cleanup
  | sync (passes : ℕ)

/-- Requests end with an outcome, background work with none. -/
def Task.program (app : AppState) : Task → Program Answer (Option (Except AppError Response))
  | .request caller r =>
      (show Program Answer (Except AppError Response) from handle app caller r) >>=
      fun outcome => pure (some outcome)
  | .cleanup => cleanupStaleGroupPermissions app >>= fun _ => pure none
  | .sync passes => worker app.vaultConfigured passes >>= fun _ => pure none

/-- The state of the process and its surroundings, and where each task stands. -/
abbrev Process (I : Type) := Pool Answer I (Option (Except AppError Response)) World

/-- All tasks before their first step. -/
def process {I : Type} (app : AppState) (tasks : I → Task) (w : World) : Process I :=
  ⟨w, fun i => (tasks i).program app⟩

end SimplyIpExporter.Routes
