import SimplyIpExporter.HandlerRules
import SimplyIpExporter.SyncPasses

/-!
# The calls of a request

What a request may call, read off the request and its caller: which rows it may write,
in whose name it makes its entry, and that the worker's calls are not among them. The
handlers are walked through once; an invariant of the process then needs one case for
each call and not one for each route.

The last theorem is the rule for that. In every run the upcoming call of a task is one it
may make, so what each such call keeps is kept by the run.
-/
namespace SimplyIpExporter.RequestCalls
open Entities Storage Services Programs Interleaving EndpointHandlers KeyHandlers SyncWorker Routes
open HandlerRules SyncPasses

def editedEndpoint : ApiRequest → Option Uuid
  | .updateEndpoint (.ok id) _ | .reassignEndpointOwner (.ok id) _ => some id
  | _ => none

def deletedEndpoint : ApiRequest → Option Uuid
  | .deleteEndpoint (.ok id) => some id
  | _ => none

def rotatedKey : ApiRequest → Option Uuid
  | .rotateApiKey (.ok id) | .rotateSigningSecret (.ok id) => some id
  | _ => none

def deletedKey : ApiRequest → Option Uuid
  | .deleteApiKey (.ok id) _ => some id
  | _ => none

/-- An entry of the trail in the name of the caller. -/
structure SignedBy (caller : Caller) (row : AuditLog) : Prop where
  id : row.apiKeyId = some caller.key.id
  name : row.apiKeyName = caller.key.name
  shown : row.apiKeyPrefix = caller.key.keyPrefix

def Calls (caller : Caller) (r : ApiRequest) : Call → Prop
  | .db (.insertKey row) => row.isMaster = false
  | .db (.updateKey id ch) => (ch.keyHash = none ∧ ch.signingSecret = none) ∨ rotatedKey r = some id
  | .db (.insertEndpoint row) => row.ownerKeyId = some caller.key.id ∧ row.lastSyncedAt = none
  | .db (.updateEndpoint id ch) => ch.lastSyncedAt = none ∧ editedEndpoint r = some id
  | .db (.deleteEndpoint id) => deletedEndpoint r = some id
  | .db (.insertAudit row) => SignedBy caller row
  | .deleteKey d => deletedKey r = some d.id ∧
      ∀ details id t, SignedBy caller ((d.entry details).row id t)
  | .evict id => deletedEndpoint r = some id
  | .db .allGrants | .db (.deleteGrants _) | .fetchIps _ _ | .fullSyncDue _ | .applyFull _ _
  | .applyDiff _ _ => False
  | _ => True

/-- The ways to write keys, endpoints and grants. -/
inductive Writing where
  | insertKey
  | updateKey
  | deleteKey
  | insertEndpoint
  | updateEndpoint
  | deleteEndpoint
  | insertGrant
  | deleteGrant
  deriving DecidableEq, Repr

def writingOf : Call → Option Writing
  | .db (.insertKey _) => some .insertKey
  | .db (.updateKey _ _) => some .updateKey
  | .deleteKey _ => some .deleteKey
  | .db (.insertEndpoint _) => some .insertEndpoint
  | .db (.updateEndpoint _ _) => some .updateEndpoint
  | .db (.deleteEndpoint _) => some .deleteEndpoint
  | .db (.insertGrant _) => some .insertGrant
  | .db (.deleteGrant _) | .db (.deleteGrants _) => some .deleteGrant
  | _ => none

def footprint : ApiRequest → Option Writing
  | .createApiKey _ => some .insertKey
  | .updateApiKey _ _ | .rotateApiKey _ | .rotateSigningSecret _ => some .updateKey
  | .deleteApiKey _ _ => some .deleteKey
  | .createEndpoint _ => some .insertEndpoint
  | .updateEndpoint _ _ | .reassignEndpointOwner _ _ => some .updateEndpoint
  | .deleteEndpoint _ => some .deleteEndpoint
  | .grantKeyGroup _ _ => some .insertGrant
  | .revokeKeyGroup _ => some .deleteGrant
  | _ => none

/-- The call writes in this way or not at all. -/
def Within (w : Option Writing) (c : Call) : Prop := writingOf c = none ∨ writingOf c = w

/-- The calls of a request: those it may make, and of the writes only those of its own way. -/
def requestRules (caller : Caller) (r : ApiRequest) : CallRules where
  permits c := Calls caller r c ∧ Within (footprint r) c
  answers := FoundById
  permits_harmless c hc := by
    cases c with
    | db st => cases st <;> first | exact ⟨trivial, .inl rfl⟩ | cases hc
    | now | newUuid | random n | listGroups => exact ⟨trivial, .inl rfl⟩
    | _ => cases hc

section Handlers
variable (app : AppState) {caller : Caller} {r : ApiRequest}

theorem signed_permitted (action : String) (target details : Option String) (id : Uuid)
    (t : NaiveDateTime) : (requestRules caller r).permits
      (.db (.insertAudit ((auditEntry app caller action target details).row id t))) :=
  ⟨⟨rfl, rfl, rfl⟩, .inl rfl⟩

theorem keeps_createApiKey {payload : Extracted CreateKeyPayload} (p : CreateKeyPayload) :
    Keeps (requestRules caller (.createApiKey payload)) (createApiKey app caller p) := by
  refine attempt_bind fun _ _ => attempt_bind fun _ _ => attempt_bind fun _ _ => ?_
  refine keeps_then keeps_generateSecret fun _ => keeps_then keeps_generateSecret fun _ => ?_
  refine draw_bind rfl fun now => draw_bind rfl fun id => sealed_bind fun _ stored _ => ?_
  exact statement_bind ⟨rfl, .inr rfl⟩ fun created _ => entry_bind (signed_permitted app _ _ _) _

theorem keeps_updateApiKey {path : Extracted Uuid} {payload : Extracted UpdateKeyPayload}
    (id : Uuid) (p : UpdateKeyPayload) :
    Keeps (requestRules caller (.updateApiKey path payload)) (updateApiKey app caller id p) := by
  refine attempt_bind fun _ _ => findKey_bind fun existing _ => attempt_bind fun _ _ => ?_
  refine attempt_bind fun _ _ => attempt_bind fun _ _ => draw_bind rfl fun now => ?_
  exact statement_bind ⟨.inl ⟨rfl, rfl⟩, .inr rfl⟩ fun updated _ =>
    entry_bind (signed_permitted app _ _ _) _

theorem keeps_deleteApiKey {id : Uuid} {query : Extracted DeleteKeyQuery} (q : DeleteKeyQuery) :
    Keeps (requestRules caller (.deleteApiKey (.ok id) query)) (deleteApiKey app caller id q) := by
  refine attempt_bind fun _ _ => findKey_bind fun existing _ => attempt_bind fun _ _ => ?_
  refine attempt_bind fun _ _ => draw_bind rfl fun now => ?_
  refine ask_bind ⟨⟨rfl, ?_⟩, .inr rfl⟩ fun outcome => keeps_attempt outcome
  exact fun _ _ _ => ⟨rfl, rfl, rfl⟩

theorem keeps_rotateApiKey {id : Uuid} :
    Keeps (requestRules caller (.rotateApiKey (.ok id))) (rotateApiKey app caller id) := by
  refine attempt_bind fun _ _ => findKey_bind fun existing hid => attempt_bind fun _ _ => ?_
  refine keeps_then keeps_generateSecret fun key => keeps_then keeps_generateSecret fun secret => ?_
  refine sealed_bind fun _ stored _ => draw_bind rfl fun now => ?_
  refine statement_bind ⟨.inr (congrArg some hid.symm), .inr rfl⟩ fun updated _ => ?_
  exact entry_bind (signed_permitted app _ _ _) _

theorem keeps_rotateSigningSecret {id : Uuid} :
    Keeps (requestRules caller (.rotateSigningSecret (.ok id)))
      (rotateSigningSecret app caller id) := by
  refine attempt_bind fun _ _ => findKey_bind fun existing hid => attempt_bind fun _ _ => ?_
  refine keeps_then keeps_generateSecret fun secret => sealed_bind fun _ stored _ => ?_
  refine draw_bind rfl fun now => ?_
  refine statement_bind ⟨.inr (congrArg some hid.symm), .inr rfl⟩ fun updated _ => ?_
  exact entry_bind (signed_permitted app _ _ _) _

theorem keeps_createEndpoint {payload : Extracted CreateEndpointPayload}
    (p : CreateEndpointPayload) :
    Keeps (requestRules caller (.createEndpoint payload)) (createEndpoint app caller p) := by
  refine attempt_bind fun _ _ => attempt_bind fun _ _ => ?_
  refine keeps_then (keeps_validateGroupAccess _ _) fun _ => attempt_bind fun _ _ => ?_
  refine attempt_bind fun _ _ => attempt_bind fun _ _ => draw_bind rfl fun now => ?_
  refine draw_bind rfl fun id => draw_bind rfl fun token => ?_
  exact statement_bind ⟨⟨rfl, rfl⟩, .inr rfl⟩ fun created _ =>
    entry_bind (signed_permitted app _ _ _) _

theorem keeps_listEndpoints : Keeps (requestRules caller r) (listEndpoints caller) := by
  unfold listEndpoints
  split
  · exact read_bind rfl fun _ _ => keeps_pure _
  · exact read_bind rfl fun _ _ => keeps_pure _

theorem keeps_updateEndpoint {id : Uuid} {payload : Extracted UpdateEndpointPayload}
    (p : UpdateEndpointPayload) :
    Keeps (requestRules caller (.updateEndpoint (.ok id) payload))
      (updateEndpoint app caller id p) := by
  refine findEndpoint_bind fun existing hid => attempt_bind fun _ _ => attempt_bind fun _ _ => ?_
  refine keeps_then (keeps_checkGroups _ _) fun _ => attempt_bind fun _ _ => ?_
  refine attempt_bind fun _ _ => attempt_bind fun _ _ => draw_bind rfl fun now => ?_
  refine statement_bind ⟨⟨rfl, congrArg some hid.symm⟩, .inr rfl⟩ fun updated _ => ?_
  exact entry_bind (signed_permitted app _ _ _) _

theorem keeps_deleteEndpoint {id : Uuid} :
    Keeps (requestRules caller (.deleteEndpoint (.ok id))) (deleteEndpoint app caller id) := by
  refine findEndpoint_bind fun existing _ => attempt_bind fun _ _ => ?_
  refine statement_bind ⟨rfl, .inr rfl⟩ fun removed _ => attempt_bind fun _ _ => ?_
  refine ask_bind ⟨rfl, .inl rfl⟩ fun _ => ?_
  exact keeps_createAuditLog (signed_permitted app _ _ _)

theorem keeps_reassignEndpointOwner {id : Uuid} {payload : Extracted ReassignOwnerPayload}
    (p : ReassignOwnerPayload) :
    Keeps (requestRules caller (.reassignEndpointOwner (.ok id) payload))
      (reassignEndpointOwner app caller id p) := by
  refine attempt_bind fun _ _ => findEndpoint_bind fun existing hid => ?_
  refine keeps_then (keeps_checkOwner _) fun _ => draw_bind rfl fun now => ?_
  refine statement_bind ⟨⟨rfl, congrArg some hid.symm⟩, .inr rfl⟩ fun updated _ => ?_
  exact entry_bind (signed_permitted app _ _ _) _

theorem keeps_grantKeyGroup {path : Extracted Uuid} {payload : Extracted GrantGroupPayload}
    (id : Uuid) (p : GrantGroupPayload) :
    Keeps (requestRules caller (.grantKeyGroup path payload)) (grantKeyGroup app caller id p) := by
  refine attempt_bind fun _ _ => findKey_bind fun target _ => ?_
  refine keeps_then (keeps_currentGroups app) fun groups => attempt_bind fun group _ => ?_
  refine read_bind rfl fun existing _ => ?_
  cases existing with
  | some grant => exact keeps_pure grant
  | none =>
      refine draw_bind rfl fun now => draw_bind rfl fun grantId => ?_
      exact statement_bind ⟨trivial, .inr rfl⟩ fun created _ =>
        entry_bind (signed_permitted app _ _ _) _

theorem keeps_revokeKeyGroup {path : Extracted (Uuid × Uuid)} (id permissionId : Uuid) :
    Keeps (requestRules caller (.revokeKeyGroup path))
      (revokeKeyGroup app caller id permissionId) := by
  refine attempt_bind fun _ _ => findKey_bind fun target _ => ?_
  refine read_bind rfl fun foundGrant _ => attempt_bind fun grant _ => ?_
  refine attempt_bind fun _ _ => statement_bind ⟨trivial, .inr rfl⟩ fun _ _ => ?_
  exact keeps_createAuditLog (signed_permitted app _ _ _)

end Handlers

theorem handle_keeps (app : AppState) (caller : Caller) (r : ApiRequest) :
    Keeps (requestRules caller r) (handle app caller r) := by
  cases r with
  | getMe => exact keeps_pure _
  | createApiKey payload => exact attempt_bind fun p _ => keeps_answer (keeps_createApiKey app p)
  | listApiKeys =>
      exact keeps_answer (attempt_bind fun _ _ => read_bind rfl fun _ _ => keeps_pure _)
  | updateApiKey path payload =>
      exact attempt_bind fun id _ => attempt_bind fun p _ =>
        keeps_answer (keeps_updateApiKey app id p)
  | deleteApiKey path query =>
      refine attempt_bind fun id hid => attempt_bind fun q _ => keeps_answer ?_
      subst hid
      exact keeps_deleteApiKey app q
  | rotateApiKey path =>
      refine attempt_bind fun id hid => keeps_answer ?_
      subst hid
      exact keeps_rotateApiKey app
  | rotateSigningSecret path =>
      refine attempt_bind fun id hid => keeps_answer ?_
      subst hid
      exact keeps_rotateSigningSecret app
  | createEndpoint payload =>
      exact attempt_bind fun p _ => keeps_answer (keeps_createEndpoint app p)
  | listEndpoints => exact keeps_answer keeps_listEndpoints
  | updateEndpoint path payload =>
      refine attempt_bind fun id hid => attempt_bind fun p _ => keeps_answer ?_
      subst hid
      exact keeps_updateEndpoint app p
  | deleteEndpoint path =>
      refine attempt_bind fun id hid => keeps_answer ?_
      subst hid
      exact keeps_deleteEndpoint app
  | reassignEndpointOwner path payload =>
      refine attempt_bind fun id hid => attempt_bind fun p _ => keeps_answer ?_
      subst hid
      exact keeps_reassignEndpointOwner app p
  | listAuditLogs query =>
      refine attempt_bind fun q _ => keeps_answer (attempt_bind fun _ _ => ?_)
      exact keeps_statement ⟨trivial, .inl rfl⟩
  | listVaultGroups => exact keeps_answer (attempt_bind fun _ _ => keeps_currentGroups app)
  | listKeyGroups path =>
      refine attempt_bind fun id _ => keeps_answer (attempt_bind fun _ _ => ?_)
      exact keeps_statement ⟨trivial, .inl rfl⟩
  | grantKeyGroup path payload =>
      exact attempt_bind fun id _ => attempt_bind fun p _ =>
        keeps_answer (keeps_grantKeyGroup app id p)
  | revokeKeyGroup path =>
      exact attempt_bind fun ids _ => keeps_answer (keeps_revokeKeyGroup app ids.1 ids.2)

/-- Rules that mind some ways of writing only are kept to by all requests that write in
another way. -/
theorem handle_keeps_of_spared (app : AppState) (caller : Caller) {R : CallRules}
    (spares : Option Writing → Bool) (hnone : spares none = true)
    (hpermits : ∀ c, spares (writingOf c) = true → R.permits c)
    (hfound : ∀ c answer, R.answers c answer → FoundById c answer) {r : ApiRequest}
    (hr : spares (footprint r) = true) : Keeps R (handle app caller r) := by
  refine (handle_keeps app caller r).relax ?_ hfound
  rintro c ⟨-, hidle | hown⟩
  · apply hpermits
    rw [hidle]
    exact hnone
  · apply hpermits
    rw [hown]
    exact hr

/-- The calls of a cleanup pass. -/
def CleanupCalls : Call → Prop
  | .listGroups | .db .allGrants | .db (.deleteGrants _) => True
  | _ => False

def taskPolicy : Task → Policy Answer Pass
  | .request caller r => (requestRules caller r).policy Pass
  | .cleanup => ⟨fun _ => CleanupCalls, fun m _ _ m' => m' = m⟩
  | .sync _ => syncing

theorem task_follows (app : AppState) (t : Task) (pass : Pass) :
    Follows (taskPolicy t) (fun _ _ => True) (t.program app) pass := by
  cases t with
  | request caller r => exact (handle_keeps app caller r Pass pass).bind fun _ _ _ => .pure trivial
  | cleanup =>
      have hpass :=
        cleanupStaleGroupPermissions_follows (P := taskPolicy .cleanup) (fun _ => trivial)
        (fun _ => trivial) (fun _ _ => trivial) app pass
      exact hpass.bind fun _ _ _ => .pure trivial
  | sync passes => exact sync_follows app passes pass

/-- A call that a task may make. -/
def TaskCalls (t : Task) (c : Call) : Prop := ∃ pass, (taskPolicy t).permits pass c

/-- How the watching state of a task moves. -/
def taskMove (t : Task) (pass : Pass) (c : Call) (r : Answer c) : Pass :=
  match t with
  | .sync _ => pass.next c r
  | _ => pass

theorem taskPolicy_moves {crates : Crates} {c : Call} {e : Choice} {s s' : World} {r : Answer c}
    (t : Task) (pass : Pass) (hexec : exec crates c e s = some (r, s')) :
    (taskPolicy t).moves pass c r (taskMove t pass c r) := by
  cases t with
  | request caller req => exact ⟨exec_foundById hexec, rfl⟩
  | cleanup => rfl
  | sync passes => rfl

section Runs
variable {I : Type} [DecidableEq I] {app : AppState} {tasks : I → Task} {w₀ : World}
  {events : List (Event I Choice Change)} {q : Process I}

/-- An invariant of the history, of what is watched for each task and of the state holds
in every run, if every call a task may make keeps it. -/
theorem run_tracked {Inv : List (Event I Choice Change) → (I → Pass) → World → Prop}
    (hinit : Inv [] (fun _ => .listed []) w₀)
    (hact : ∀ past p ms i e c r s',
      Interleaving.run (system app.crates) (process app tasks w₀) past = some p →
      Inv past ms p.state →
      (taskPolicy (tasks i)).permits (ms i) c → exec app.crates c e p.state = some (r, s') →
      Inv (past ++ [.act i e]) (Function.update ms i (taskMove (tasks i) (ms i) c r)) s')
    (hworld : ∀ past ms ch s s', Inv past ms s → env ch s = some s' →
      Inv (past ++ [.world ch]) ms s')
    (hrun : Interleaving.run (system app.crates) (process app tasks w₀) events = some q) :
    ∃ ms, Inv events ms q.state := by
  have hstart : Watched (fun i => taskPolicy (tasks i)) (fun _ _ _ => True) Inv []
      (process app tasks w₀) fun _ => .listed [] := ⟨fun i => task_follows app (tasks i) _, hinit⟩
  obtain ⟨ms, hms⟩ := run_watched _ _ _ (fun _ _ => True) hstart
    (fun past p ms i e c next r s' hp hwatched _ _ hpermits hexec =>
      ⟨_, taskPolicy_moves (tasks i) (ms i) hexec,
        hact past p ms i e c r s' hp hwatched.inv hpermits hexec⟩)
    (fun past p ms ch s' _ hwatched _ henv => hworld past ms ch p.state s' hwatched.inv henv) hrun
    fun _ _ _ _ _ _ => trivial
  exact ⟨ms, hms.inv⟩

/-- The upcoming call of a task is one that it may make. -/
theorem upcoming_calls {i : I} {c : Call}
    (hrun : Interleaving.run (system app.crates) (process app tasks w₀) events = some q)
    (hc : (q.threads i).upcoming = some c) : TaskCalls (tasks i) c := by
  have hstart : Watched (fun i => taskPolicy (tasks i)) (fun _ _ _ => True)
      (fun (_ : List (Event I Choice Change)) _ _ => True) [] (process app tasks w₀) fun _ =>
        .listed [] :=
    ⟨fun i => task_follows app (tasks i) _, trivial⟩
  obtain ⟨ms, hms⟩ := run_watched _ _ _ (fun _ _ => True) hstart
    (fun _ _ ms i _ c _ r _ _ _ _ _ _ hexec =>
      ⟨_, taskPolicy_moves (tasks i) (ms i) hexec, trivial⟩)
    (fun _ _ _ _ _ _ _ _ _ => trivial) hrun fun _ _ _ _ _ _ => trivial
  exact ⟨ms i, (hms.follows i).permits_upcoming hc⟩

/-- What holds at one moment and is kept by every call that a task makes after it, and by
every change in Vault, holds at every later moment. -/
theorem run_between (Inv : World → Prop) {past rest : List (Event I Choice Change)} {p : Process I}
    (hp : Interleaving.run (system app.crates) (process app tasks w₀) past = some p)
    (hq : Interleaving.run (system app.crates) (process app tasks w₀) (past ++ rest) = some q)
    (hstart : Inv p.state)
    (hact : ∀ i c e s r s', Event.act i e ∈ rest → Inv s → TaskCalls (tasks i) c →
      exec app.crates c e s = some (r, s') → Inv s')
    (hworld : ∀ ch s s', Inv s → env ch s = some s' → Inv s') : Inv q.state := by
  induction rest using List.reverseRecOn generalizing q with
  | nil =>
      rw [List.append_nil, hp] at hq
      cases hq
      exact hstart
  | append_singleton rest ev ih =>
      rw [← List.append_assoc, run_append_singleton] at hq
      obtain ⟨q₁, hq₁, hstep⟩ := Option.bind_eq_some_iff.mp hq
      have hbefore :=
        ih hq₁ fun i c e s r s' hmem => hact i c e s r s' (List.mem_append_left _ hmem)
      cases ev with
      | world ch => exact hworld ch q₁.state q.state hbefore (step_world hstep).1
      | act i e =>
          obtain ⟨c, next, r, hc, hexec, -⟩ := step_act hstep
          exact hact i c e q₁.state r q.state (by simp) hbefore
            (upcoming_calls hq₁ (by rw [hc]; rfl)) hexec

end Runs
end SimplyIpExporter.RequestCalls
