import SimplyIpExporter.Gates
import SimplyIpExporter.RequestAuthentication
import SimplyIpExporter.Routes

/-!
# Requests as they arrive

`create_app`: the handler that a method and a path under `/api` lead to, what the
extractors make of the path, the query and the body, and the middleware in front of all
of it. A request for one of these paths with a method that none of its handlers has is
refused by the router behind the middleware; any other path is answered by a part of the
router that this middleware does not stand in front of.

The whole service is the handlers' process with the middleware's state beside it. The
middleware looks keys up in the very table that the handlers write. Its clock is a field
of its own, and nothing is assumed of how it and the clock of the handlers agree.
-/
namespace SimplyIpExporter.HttpRouter
open RustText IpAddresses Entities ClientAddress Storage Services Programs Interleaving Gates
open EndpointHandlers KeyHandlers Routes
open RequestAuthentication (AuthCall AuthAnswer AuthState Request Config Abort authMiddleware)

inductive JsonRejection where
  | dataError (text : String)
  | syntaxError (text : String)
  | other (status : ℕ) (text : String)

def strictJson {A : Type} : Except JsonRejection A → Extracted A
  | .ok a => .ok a
  | .error (.dataError text) | .error (.syntaxError text) => .error (.invalidInput text)
  | .error (.other status text) => .error (.bodyRejected status text)

/-- A rejection, given by its text, as invalid input. -/
def normalized {A : Type} : Except String A → Extracted A
  | .ok a => .ok a
  | .error text => .error (.invalidInput text)

def strictPath {A : Type} (segment : Except String A) : Extracted A := normalized segment

def strictQuery {A : Type} (query : Except String A) : Extracted A := normalized query

/-- What the extractors of axum read off segments of the path, off the query, and off the
headers and the body. -/
structure Readers where
  uuid : String → Except String Uuid
  uuids : String → String → Except String (Uuid × Uuid)
  createKey : HeaderMap → List UInt8 → Except JsonRejection CreateKeyPayload
  updateKey : HeaderMap → List UInt8 → Except JsonRejection UpdateKeyPayload
  deleteKey : String → Except String DeleteKeyQuery
  createEndpoint : HeaderMap → List UInt8 → Except JsonRejection CreateEndpointPayload
  updateEndpoint : HeaderMap → List UInt8 → Except JsonRejection UpdateEndpointPayload
  reassignOwner : HeaderMap → List UInt8 → Except JsonRejection ReassignOwnerPayload
  auditLogs : String → Except String AuditLogQuery
  grantGroup : HeaderMap → List UInt8 → Except JsonRejection GrantGroupPayload

inductive Verb where
  | get
  | post
  | put
  | delete
  deriving DecidableEq, Repr

/-- A route for GET answers HEAD too. -/
def Verb.ofMethod : String → Option Verb
  | "GET" | "HEAD" => some .get
  | "POST" => some .post
  | "PUT" => some .put
  | "DELETE" => some .delete
  | _ => none

def pathOf (target : String) : String := String.ofList (target.toList.takeWhile (· != '?'))

def queryOf (target : String) : String :=
  String.ofList ((target.toList.dropWhile (· != '?')).drop 1)

/-- The handlers of one path under `/api`. -/
def apiRoutes (x : Readers) (req : Request) : List String → List (Verb × ApiRequest)
  | ["auth", "me"] => [(.get, .getMe)]
  | ["keys"] =>
      [(.post, .createApiKey (strictJson (x.createKey req.headers req.body))), (.get, .listApiKeys)]
  | ["keys", id] =>
      [(.put, .updateApiKey (strictPath (x.uuid id))
        (strictJson (x.updateKey req.headers req.body))),
        (.delete, .deleteApiKey (strictPath (x.uuid id))
          (strictQuery (x.deleteKey (queryOf req.target))))]
  | ["keys", id, "rotate"] => [(.post, .rotateApiKey (strictPath (x.uuid id)))]
  | ["keys", id, "rotate-secret"] => [(.post, .rotateSigningSecret (strictPath (x.uuid id)))]
  | ["endpoints"] =>
      [(.post, .createEndpoint (strictJson (x.createEndpoint req.headers req.body))),
        (.get, .listEndpoints)]
  | ["endpoints", id] =>
      [(.put, .updateEndpoint (strictPath (x.uuid id))
          (strictJson (x.updateEndpoint req.headers req.body))),
        (.delete, .deleteEndpoint (strictPath (x.uuid id)))]
  | ["endpoints", id, "owner"] =>
      [(.put, .reassignEndpointOwner (strictPath (x.uuid id))
        (strictJson (x.reassignOwner req.headers req.body)))]
  | ["audit-logs"] => [(.get, .listAuditLogs (strictQuery (x.auditLogs (queryOf req.target))))]
  | ["vault-groups"] => [(.get, .listVaultGroups)]
  | ["keys", id, "groups"] =>
      [(.get, .listKeyGroups (strictPath (x.uuid id))),
        (.post, .grantKeyGroup (strictPath (x.uuid id))
          (strictJson (x.grantGroup req.headers req.body)))]
  | ["keys", id, "groups", permissionId] =>
      [(.delete, .revokeKeyGroup (normalized (x.uuids id permissionId)))]
  | _ => []

inductive Routed where
  | api (r : ApiRequest)
  | methodNotAllowed
  | elsewhere

/-- Among the handlers of a path, the one for the method. -/
def forMethod (method : String) : List (Verb × ApiRequest) → Routed
  | [] => .elsewhere
  | handlers =>
    match (Verb.ofMethod method).bind fun verb => handlers.lookup verb with
    | some r => .api r
    | none => .methodNotAllowed

/-- A parameter of a path is never empty. -/
def route (x : Readers) (req : Request) : Routed :=
  match split '/' (pathOf req.target) with
  | "" :: "api" :: segments =>
    if segments.contains "" then .elsewhere else forMethod req.method (apiRoutes x req segments)
  | _ => .elsewhere

inductive Refusal where
  | abort (a : Abort)
  | methodNotAllowed
  | elsewhere

/-- What the middleware's outcome comes to. -/
def Routed.letPass : Routed → Except Abort (ApiKey × IpAddr) → Except Refusal Task
  | .elsewhere, _ => .error .elsewhere
  | _, .error a => .error (.abort a)
  | .methodNotAllowed, .ok _ => .error .methodNotAllowed
  | .api r, .ok (key, ip) => .ok (.request ⟨key, ip⟩ r)

/-- What the process works on: requests off the wire, and its two workers. -/
inductive Work where
  | http (req : Request)
  | cleanup
  | sync (passes : ℕ)

/-- What stands before the handlers. -/
def gate (x : Readers) (config : Config) : Work → Program AuthAnswer (Except Refusal Task)
  | .http req =>
    match route x req with
    | .elsewhere => .pure (.error .elsewhere)
    | routed => (show Program AuthAnswer (Except Abort (ApiKey × IpAddr)) from
        authMiddleware config req) >>= fun outcome => pure (routed.letPass outcome)
  | .cleanup => .pure (.ok .cleanup)
  | .sync passes => .pure (.ok (.sync passes))

structure Service where
  world : World
  pin : Option Uuid
  guard : ReplayGuard.Guard
  clock : ReplayGuard.Instant

/-- What the middleware sees of it. -/
def Service.auth (s : Service) : AuthState := ⟨s.clock, s.world.db.apiKeys.rows, s.pin, s.guard⟩

abbrev ServiceChoice := RequestAuthentication.Choice ⊕ Services.Choice

def exec (crates : Crates) : (c : AuthCall ⊕ Call) → ServiceChoice → Service →
    Option (EitherAnswer AuthAnswer Answer c × Service)
  | .inl c, .inl e, s => (RequestAuthentication.exec c e s.auth).map fun answer =>
      (answer.1, { s with pin := answer.2.pin, guard := answer.2.guard })
  | .inr c, .inr e, s => (Services.exec crates c e s.world).map fun answer =>
      (answer.1, { s with world := answer.2 })
  | _, _, _ => none

/-- Time passes for the middleware, or something changes in Vault. -/
inductive ServiceChange where
  | advance (nanos : ℕ)
  | vault (ch : Change)

def env : ServiceChange → Service → Option Service
  | .advance nanos, s => some { s with clock := s.clock + nanos }
  | .vault ch, s => (Services.env ch s.world).map fun w => { s with world := w }

def serviceSystem (crates : Crates) :
    System (EitherAnswer AuthAnswer Answer) ServiceChoice ServiceChange Service :=
  ⟨exec crates, env⟩

abbrev ServicePool (I : Type) :=
  Pool (EitherAnswer AuthAnswer Answer) I
    (Except Refusal (Option (Except AppError Response))) Service

/-- All work before its first step. -/
def service {I : Type} (x : Readers) (config : Config) (app : AppState) (works : I → Work)
    (s : Service) : ServicePool I :=
  ⟨s, fun i => guarded (Task.program app) (gate x config (works i))⟩

theorem auth_exec_keys {c : AuthCall} {e : RequestAuthentication.Choice} {s s' : AuthState}
    {r : AuthAnswer c} (h : RequestAuthentication.exec c e s = some (r, s')) :
    s'.keys = s.keys := by
  unfold RequestAuthentication.exec at h
  split at h <;> cases h <;> rfl

theorem exec_front {crates : Crates} {c : AuthCall} {e : ServiceChoice} {s s' : Service}
    {r : AuthAnswer c} (h : exec crates (.inl c) e s = some (r, s')) :
    s'.world = s.world ∧ ∃ e₁, RequestAuthentication.exec c e₁ s.auth = some (r, s'.auth) := by
  cases e with
  | inr e => cases h
  | inl e =>
      obtain ⟨⟨r', a⟩, hexec, heq⟩ := Option.map_eq_some_iff.mp h
      cases heq
      refine ⟨rfl, e, ?_⟩
      have hkept : a = ⟨s.clock, s.world.db.apiKeys.rows, a.pin, a.guard⟩ := by
        obtain ⟨hclock, -⟩ := RequestAuthentication.exec_effect hexec
        have hkeys := auth_exec_keys hexec
        cases a
        cases hclock
        cases hkeys
        rfl
      rw [hexec, hkept]
      rfl

theorem exec_back {crates : Crates} {c : Call} {e : ServiceChoice} {s s' : Service} {r : Answer c}
    (h : exec crates (.inr c) e s = some (r, s')) :
    (∃ e₂, Services.exec crates c e₂ s.world = some (r, s'.world)) ∧
      RequestAuthentication.env (.editKeys s'.world.db.apiKeys.rows) s.auth = some s'.auth := by
  cases e with
  | inl e => cases h
  | inr e =>
      obtain ⟨⟨r', w⟩, hexec, heq⟩ := Option.map_eq_some_iff.mp h
      cases heq
      exact ⟨⟨e, hexec⟩, rfl⟩

/-- The middleware and the handlers as parts of the service. What the handlers do to the
table of keys happens to the middleware from outside. -/
def serviceParts (crates : Crates) :
    Joined (serviceSystem crates) RequestAuthentication.system (Services.system crates) where
  frontView := Service.auth
  backView := Service.world
  front_call := exec_front
  back_call {d e s r s'} h := ⟨(exec_back h).1, .editKeys s'.world.db.apiKeys.rows, (exec_back h).2⟩
  world := by
    intro ch s s' henv
    cases ch with
    | advance nanos =>
        cases henv
        exact ⟨⟨.advance nanos, rfl⟩, .inl rfl⟩
    | vault ch =>
        obtain ⟨w, hw, rfl⟩ := Option.map_eq_some_iff.mp henv
        have hsame : w.db = s.world.db := by rw [env_eq_some hw]
        refine ⟨⟨.advance 0, ?_⟩, .inr ⟨ch, hw⟩⟩
        simp [RequestAuthentication.system, RequestAuthentication.env, Service.auth, hsame]

end SimplyIpExporter.HttpRouter
