import SimplyIpExporter.HandlerRules
import SimplyIpExporter.Mutations
import SimplyIpExporter.SyncPasses

/-!
# The trail of a request

Eleven routes change something. Each of them reads and checks, makes one mutation, and
then puts one entry on the trail that names its action and what it was done to. What a
request has done so far is kept in a tally; a request ends with a tally that its
outcome accounts for.
-/
namespace SimplyIpExporter.AuditTrail
open Entities KeyedTables Storage Services Programs EndpointHandlers KeyHandlers SyncWorker Routes
open SyncPasses Mutations HandlerRules

inductive Action where
  | keyCreate
  | keyUpdate
  | keyDelete
  | keyRotate
  | keySecretRotate
  | keyGroupGrant
  | keyGroupRevoke
  | endpointCreate
  | endpointUpdate
  | endpointDelete
  | endpointOwnerReassign
  deriving DecidableEq, Repr

def Action.text : Action → String
  | .keyCreate => "KEY_CREATE"
  | .keyUpdate => "KEY_UPDATE"
  | .keyDelete => "KEY_DELETE"
  | .keyRotate => "KEY_ROTATE"
  | .keySecretRotate => "KEY_SECRET_ROTATE"
  | .keyGroupGrant => "KEY_GROUP_GRANT"
  | .keyGroupRevoke => "KEY_GROUP_REVOKE"
  | .endpointCreate => "ENDPOINT_CREATE"
  | .endpointUpdate => "ENDPOINT_UPDATE"
  | .endpointDelete => "ENDPOINT_DELETE"
  | .endpointOwnerReassign => "ENDPOINT_OWNER_REASSIGN"

/-- The kind of resource that entries of the action name. Grants are entered under the
key that holds them. -/
def Action.kind : Action → String
  | .endpointCreate | .endpointUpdate | .endpointDelete | .endpointOwnerReassign => "endpoint"
  | _ => "api_key"

theorem Action.text_inj {a b : Action} (h : a.text = b.text) : a = b := by
  cases a <;> cases b <;> first | rfl | exact absurd h (by decide +kernel)

/-- The action of a mutating route. -/
def actionOf : ApiRequest → Option Action
  | .createApiKey _ => some .keyCreate
  | .updateApiKey _ _ => some .keyUpdate
  | .deleteApiKey _ _ => some .keyDelete
  | .rotateApiKey _ => some .keyRotate
  | .rotateSigningSecret _ => some .keySecretRotate
  | .createEndpoint _ => some .endpointCreate
  | .updateEndpoint _ _ => some .endpointUpdate
  | .deleteEndpoint _ => some .endpointDelete
  | .reassignEndpointOwner _ _ => some .endpointOwnerReassign
  | .grantKeyGroup _ _ => some .keyGroupGrant
  | .revokeKeyGroup _ => some .keyGroupRevoke
  | _ => none

/-- What the trail has to name for a mutation that the request is there to make. -/
def target : ApiRequest → Mutation → Option Uuid
  | .createApiKey _, .insertedKey id => some id
  | .updateApiKey (.ok id) _, .updatedKey id' => if id' = id then some id else none
  | .deleteApiKey (.ok id) _, .removedKey id' => if id' = id then some id else none
  | .rotateApiKey (.ok id), .updatedKey id' => if id' = id then some id else none
  | .rotateSigningSecret (.ok id), .updatedKey id' => if id' = id then some id else none
  | .createEndpoint _, .insertedEndpoint id => some id
  | .updateEndpoint (.ok id) _, .updatedEndpoint id' => if id' = id then some id else none
  | .deleteEndpoint (.ok id), .removedEndpoint id' => if id' = id then some id else none
  | .reassignEndpointOwner (.ok id) _, .updatedEndpoint id' => if id' = id then some id else none
  | .grantKeyGroup (.ok key) _, .insertedGrant _ key' => if key' = key then some key else none
  | .revokeKeyGroup (.ok (key, grant)), .removedGrant grant' =>
      if grant' = grant then some key else none
  | _, _ => none

/-- The entry names the action of the request and what the mutation was done to. -/
def Records (r : ApiRequest) (mu : Mutation) (row : AuditLog) : Prop :=
  ∃ a id name, actionOf r = some a ∧ target r mu = some id ∧ row.action = a.text ∧
    row.targetResource = some (describeResource a.kind id name)

/-- Requests that take a row away. -/
def removing : ApiRequest → Bool
  | .deleteApiKey _ _ | .deleteEndpoint _ | .revokeKeyGroup _ => true
  | _ => false

/-- Requests that may succeed without a mutation: reads, and a repeated grant. -/
def idle : ApiRequest → Bool
  | .grantKeyGroup _ _ => true
  | r => (actionOf r).isNone

structure Tally where
  mutations : List Mutation
  audits : List AuditLog
  /-- A row that had to be there was not. -/
  gone : Bool
  /-- An entry could not be written. -/
  lost : Bool

def Tally.start : Tally := ⟨[], [], false, false⟩

/-- A row that had to be there was not, and nothing has been done. -/
def Tally.missed : Tally := ⟨[], [], true, false⟩

/-- The mutation is made, and not yet on the trail. -/
def Tally.acted (mu : Mutation) : Tally := ⟨[mu], [], false, false⟩

def misses : (c : Call) → Answer c → Bool
  | .db (.findKey _), .ok none | .db (.findEndpoint _), .ok none | .db (.findGrant _), .ok none =>
      true
  | .db (.deleteEndpoint _), .ok removed | .db (.deleteGrant _), .ok removed => removed == 0
  | .deleteKey _, .error .notFound => true
  | _, _ => false

def loses : (c : Call) → Answer c → Bool
  | .db (.insertAudit _), .error _ => true
  | _, _ => false

def Tally.next (m : Tally) (c : Call) (answer : Answer c) (added : List AuditLog) : Tally where
  mutations := m.mutations ++ (mutationOf c answer).toList
  audits := m.audits ++ added
  gone := m.gone || misses c answer
  lost := m.lost || loses c answer

/-- Rows answered are those asked for or written, and a grant that is deleted is there. -/
def Heard : (c : Call) → Answer c → Prop
  | .db (.findKey id), .ok (some row) => row.id = id
  | .db (.findEndpoint id), .ok (some row) => row.id = id
  | .db (.insertKey row), .ok row' => row' = row
  | .db (.updateKey id _), .ok row' => row'.id = id
  | .db (.insertEndpoint row), .ok row' => row' = row
  | .db (.updateEndpoint id _), .ok row' => row'.id = id
  | .db (.deleteGrant _), .ok removed => removed ≠ 0
  | _, _ => True

/-- A request that takes a row away does nothing more once it has missed one. -/
def following (r : ApiRequest) : Policy Answer Tally where
  permits m _ := removing r = true → m.gone = false
  moves m c answer m' := Heard c answer ∧ ∃ added, Adds c answer added ∧ m' = m.next c answer added

/-- The tally is accounted for: no mutation where none is needed, or one and its entry. -/
def Done (r : ApiRequest) (m : Tally) : Prop :=
  (idle r = true ∧ m.mutations = [] ∧ m.audits = []) ∨
    ∃ mu a, m.mutations = [mu] ∧ m.audits = [a] ∧ Records r mu a

/-- How the tally has to be when the request ends. -/
def Settles {A : Type} (r : ApiRequest) (m : Tally) : Except AppError A → Prop
  | .ok _ => Done r m ∧ (removing r = true → m.gone = false)
  | .error e => m.audits = [] ∧ (m.lost = false → m.mutations = []) ∧
      (removing r = true → m.gone = true → e = .notFound)

/-- Nothing has been done, and what was looked for was found. -/
def Idles {A : Type} (r : ApiRequest) (m : Tally) : Except AppError A → Prop
  | .ok _ => m = .start
  | .error _ => m.mutations = [] ∧ m.audits = [] ∧ (removing r = true → m.gone = false)

/-- Statements that only read, and never miss a row. -/
def reading : Statement → Bool
  | .allKeys | .allEndpoints | .endpointsOwnedBy _ | .findGrantFor _ _ | .grantsOf _ | .allGrants
  | .auditPage _ _ _ => true
  | _ => false

/-- The mutation of a statement that either writes its row or fails. -/
def writing : Statement → Option Mutation
  | .insertKey row => some (.insertedKey row.id)
  | .updateKey id _ => some (.updatedKey id)
  | .insertEndpoint row => some (.insertedEndpoint row.id)
  | .updateEndpoint id _ => some (.updatedEndpoint id)
  | .insertGrant row => some (.insertedGrant row.id row.apiKeyId)
  | _ => none

/-- Calls that are neither mutations nor about rows. -/
def apart : Call → Bool
  | .now | .newUuid | .random _ | .listGroups | .evict _ => true
  | _ => false

abbrev Walks (r : ApiRequest) {A : Type} (h : Handler A) (m : Tally) : Prop :=
  Follows (following r) (Settles r) h m

section Rules
variable {r : ApiRequest} {A B : Type} {m : Tally} {post : Tally → Except AppError B → Prop}

theorem next_eq_self {c : Call} {answer : Answer c} (hmutation : mutationOf c answer = none)
    (hmisses : misses c answer = false) (hloses : loses c answer = false) :
    m.next c answer [] = m := by
  simp [Tally.next, hmutation, hmisses, hloses]

theorem next_apart {c : Call} {answer : Answer c} {added : List AuditLog} (hc : apart c = true)
    (hadds : Adds c answer added) : m.next c answer added = m := by
  cases c with
  | db st | deleteKey d | fetchIps g t | fullSyncDue id | applyFull id rs | applyDiff id rs =>
      cases hc
  | _ =>
      cases hadds
      exact next_eq_self rfl rfl rfl

theorem next_deleteEndpoint {id : Uuid} {removed : ℕ} (hremoved : removed ≠ 0) :
    Tally.start.next (.db (.deleteEndpoint id)) (.ok removed) [] =
      .acted (.removedEndpoint id) := by
  obtain ⟨n, rfl⟩ := Nat.exists_eq_succ_of_ne_zero hremoved
  rfl

theorem next_deleteGrant {id : Uuid} {removed : ℕ} (hremoved : removed ≠ 0) :
    Tally.start.next (.db (.deleteGrant id)) (.ok removed) [] = .acted (.removedGrant id) := by
  obtain ⟨n, rfl⟩ := Nat.exists_eq_succ_of_ne_zero hremoved
  rfl

theorem quiet_apart {c : Call} (hc : apart c = true) (hgone : m.gone = false) :
    Quiet (following r) m c := by
  refine ⟨fun _ => hgone, ?_⟩
  rintro answer _ ⟨-, added, hadds, rfl⟩
  exact next_apart hc hadds

theorem quiet_reading {st : Statement} (hst : reading st = true) :
    Quiet (following r) .start (.db st) := by
  refine ⟨fun _ => rfl, ?_⟩
  rintro (e | rows) _ ⟨-, added, hadds, rfl⟩ <;> cases st <;> cases hst <;> cases hadds <;> rfl

theorem settles_error (e : AppError) : Settles r .start (.error e : Except AppError B) :=
  ⟨rfl, fun _ => rfl, fun _ => nofun⟩

theorem idles_error (e : AppError) : Idles r .start (.error e : Except AppError B) :=
  ⟨rfl, rfl, fun _ => rfl⟩

theorem write_bind {st : Statement} {mu : Mutation} {f : st.Rows → Handler B}
    (hst : writing st = some mu)
    (hrest : ∀ rows, Heard (.db st) (.ok rows) → Walks r (f rows) (.acted mu)) :
    Walks r (statement st >>= f : Handler B) .start := by
  refine follows_statement_bind (fun _ => rfl) ?_ ?_
  · rintro e _ ⟨-, added, hadds, rfl⟩
    cases st <;> cases hst <;> cases hadds <;> exact settles_error _
  · rintro rows _ ⟨hheard, added, hadds, rfl⟩
    cases st <;> cases hst <;> cases hadds <;> exact hrest rows hheard

/-- What comes first may fail, and has done nothing. -/
theorem idle_bind {x : Handler A} {f : A → Handler B}
    (hx : Follows (following r) (Idles r) x .start) (hrest : ∀ a, Walks r (f a) .start) :
    Walks r (x >>= f) .start := by
  refine hx.except_bind ?_ ?_
  · rintro m e ⟨hmutations, haudits, hgone⟩
    refine ⟨haudits, fun _ => hmutations, ?_⟩
    intro hremoving hmissed
    rw [hgone hremoving] at hmissed
    cases hmissed
  · rintro m a rfl
    exact hrest a

/-- A row that is not found ends the request with 404. -/
theorem orNotFound_bind {found : Option A} {f : A → Handler B}
    (hm : m = if found.isSome then .start else .missed)
    (hrest : ∀ a, found = some a → Walks r (f a) .start) :
    Walks r (attempt (orNotFound found) >>= f) m := by
  subst hm
  cases found with
  | none =>
      refine .attempt_bind ?_ nofun
      intro e he
      cases he
      exact ⟨rfl, fun _ => rfl, fun _ _ => rfl⟩
  | some a =>
      refine check_bind settles_error ?_
      intro a' ha'
      cases ha'
      exact hrest a rfl

theorem findKey_bind {id : Uuid} {f : ApiKey → Handler B}
    (hrest : ∀ existing : ApiKey, existing.id = id → Walks r (f existing) .start) :
    Walks r (do
      let found ← statement (.findKey id)
      let existing ← attempt (orNotFound found)
      f existing) .start := by
  refine follows_statement_bind (fun _ => rfl) ?_ ?_
  · rintro e _ ⟨-, _, ⟨⟩, rfl⟩
    exact settles_error _
  · rintro found _ ⟨hheard, _, ⟨⟩, rfl⟩
    refine orNotFound_bind (by cases found <;> rfl) ?_
    rintro existing rfl
    exact hrest existing hheard

theorem findEndpoint_bind {id : Uuid} {f : Endpoint → Handler B}
    (hrest : ∀ existing : Endpoint, existing.id = id → Walks r (f existing) .start) :
    Walks r (do
      let found ← statement (.findEndpoint id)
      let existing ← attempt (orNotFound found)
      f existing) .start := by
  refine follows_statement_bind (fun _ => rfl) ?_ ?_
  · rintro e _ ⟨-, _, ⟨⟩, rfl⟩
    exact settles_error _
  · rintro found _ ⟨hheard, _, ⟨⟩, rfl⟩
    refine orNotFound_bind (by cases found <;> rfl) ?_
    rintro existing rfl
    exact hrest existing hheard

theorem findGrant_bind {id : Uuid} {f : VaultGroupPermission → Handler B}
    (hrest : ∀ grant, Walks r (f grant) .start) :
    Walks r (do
      let found ← statement (.findGrant id)
      let grant ← attempt (orNotFound found)
      f grant) .start := by
  refine follows_statement_bind (fun _ => rfl) ?_ ?_
  · rintro e _ ⟨-, _, ⟨⟩, rfl⟩
    exact settles_error _
  · rintro found _ ⟨-, _, ⟨⟩, rfl⟩
    exact orNotFound_bind (by cases found <;> rfl) fun grant _ => hrest grant

/-- An entry for the row that was read or written, which is the one that was asked for. -/
theorem records_row {mu : Mutation} {a : Action} {entry : AuditEntry} {id id' : Uuid}
    {name : String} (haction : actionOf r = some a) (htarget : target r mu = some id)
    (hid : id' = id) (htext : entry.action = a.text)
    (hresource : entry.targetResource = some (describeResource a.kind id' name)) (auditId : Uuid)
    (t : NaiveDateTime) : Records r mu (entry.row auditId t) := by
  subst hid
  exact ⟨a, id', name, haction, htarget, htext, hresource⟩

/-- After a mutation only its entry can go wrong. -/
theorem entry_recorded {mu : Mutation} {entry : AuditEntry}
    (hentry : ∀ id t, Records r mu (entry.row id t)) :
    Follows (following r) (fun m (result : Except AppError Unit) => match result with
      | .ok _ => ∃ a, Records r mu a ∧ m = ⟨[mu], [a], false, false⟩
      | .error _ => m = ⟨[mu], [], false, true⟩) (createAuditLog entry) (.acted mu) := by
  refine Quiet.ask_bind (quiet_apart rfl rfl) fun id => ?_
  refine Quiet.ask_bind (quiet_apart rfl rfl) fun t => ?_
  refine follows_statement_bind (fun _ => rfl) ?_ ?_
  · rintro e _ ⟨-, _, ⟨⟩, rfl⟩
    exact rfl
  · rintro row _ ⟨-, _, ⟨⟩, rfl⟩
    exact .ok ⟨_, hentry id t, rfl⟩

theorem settles_lost {mu : Mutation} (e : AppError) :
    Settles r ⟨[mu], [], false, true⟩ (.error e : Except AppError B) :=
  ⟨rfl, nofun, fun _ => nofun⟩

theorem settles_done {mu : Mutation} {a : AuditLog} (h : Records r mu a) (b : B) :
    Settles r ⟨[mu], [a], false, false⟩ (.ok b) :=
  ⟨.inr ⟨mu, a, rfl, rfl, h⟩, fun _ => rfl⟩

theorem walks_createAuditLog {mu : Mutation} {entry : AuditEntry}
    (hentry : ∀ id t, Records r mu (entry.row id t)) :
    Walks r (createAuditLog entry) (.acted mu) := by
  refine (entry_recorded hentry).mono ?_
  intro m result hresult
  cases result with
  | error e =>
      rw [show m = _ from hresult]
      exact settles_lost e
  | ok _ =>
      obtain ⟨a, ha, rfl⟩ := hresult
      exact settles_done ha ()

/-- The entry, and then the answer. -/
theorem recorded_bind {mu : Mutation} {entry : AuditEntry} {b : B}
    (hentry : ∀ id t, Records r mu (entry.row id t)) :
    Walks r (do
      createAuditLog entry
      pure b) (.acted mu) := by
  refine (entry_recorded hentry).except_bind ?_ ?_
  · intro m e hm
    rw [show m = _ from hm]
    exact settles_lost e
  · rintro m _ ⟨a, ha, rfl⟩
    exact .ok (settles_done ha b)

/-- Success without a mutation. -/
theorem walks_pure (hidle : idle r = true) (b : B) : Walks r (pure b : Handler B) .start :=
  .ok ⟨.inl ⟨hidle, rfl, rfl⟩, fun _ => rfl⟩

theorem walks_attempt (hidle : idle r = true) (x : Except AppError B) :
    Walks r (attempt x : Handler B) .start := by
  cases x with
  | error e => exact .pure (settles_error e)
  | ok b => exact .pure ⟨.inl ⟨hidle, rfl, rfl⟩, fun _ => rfl⟩

theorem walks_statement (st : Statement) (hst : reading st = true) (hidle : idle r = true) :
    Walks r (statement st) .start := by
  refine Quiet.ask_bind (quiet_reading hst) fun answer => ?_
  cases answer with
  | error e => exact .throw (settles_error _)
  | ok rows => exact walks_pure hidle rows

/-- Rows that are read and answered. -/
theorem walks_listing {st : Statement} {f : st.Rows → B} (hst : reading st = true)
    (hidle : idle r = true) :
    Walks r (statement st >>= fun rows => pure (f rows) : Handler B) .start :=
  Quiet.statement_bind (quiet_reading hst) (fun _ => settles_error _) fun _ _ => walks_pure hidle _

end Rules

section Parts
variable {r : ApiRequest}

theorem secret_still : Still (following r) .start generateSecret :=
  still_generateSecret (quiet_apart rfl rfl)

/-- An owner that does not exist is refused, but not with 404. -/
theorem idles_checkOwner (hr : removing r = false) (owner : Option Uuid) :
    Follows (following r) (Idles r) (checkOwner owner) .start := by
  cases owner with
  | none => exact .ok rfl
  | some newOwner =>
      refine follows_statement_bind (fun _ => rfl) ?_ ?_
      · rintro e _ ⟨-, _, ⟨⟩, rfl⟩
        exact idles_error _
      · rintro found _ ⟨-, _, ⟨⟩, rfl⟩
        cases found with
        | none => exact .pure ⟨rfl, rfl, fun h => by rw [hr] at h; cases h⟩
        | some key => exact .pure rfl

end Parts

section Handlers
variable (app : AppState) (caller : Caller)

theorem walks_createApiKey (extracted : Extracted CreateKeyPayload) (payload : CreateKeyPayload) :
    Walks (.createApiKey extracted) (createApiKey app caller payload) .start := by
  refine check_bind settles_error fun _ _ => check_bind settles_error fun _ _ => ?_
  refine check_bind settles_error fun _ _ => secret_still.bind settles_error fun plaintextKey => ?_
  refine secret_still.bind settles_error fun signingSecret => ?_
  refine Quiet.ask_bind (quiet_apart rfl rfl) fun now => ?_
  refine Quiet.ask_bind (quiet_apart rfl rfl) fun id => ?_
  refine Quiet.sealed_bind (quiet_apart rfl rfl) settles_error fun _ stored _ => ?_
  refine write_bind rfl ?_
  rintro created rfl
  exact recorded_bind fun _ _ => ⟨.keyCreate, _, _, rfl, rfl, rfl, rfl⟩

theorem walks_updateApiKey (id : Uuid) (extracted : Extracted UpdateKeyPayload)
    (payload : UpdateKeyPayload) :
    Walks (.updateApiKey (.ok id) extracted) (updateApiKey app caller id payload) .start := by
  refine check_bind settles_error fun _ _ => findKey_bind fun existing hexisting => ?_
  refine check_bind settles_error fun _ _ => check_bind settles_error fun _ _ => ?_
  refine check_bind settles_error fun _ _ => Quiet.ask_bind (quiet_apart rfl rfl) fun now => ?_
  subst hexisting
  refine write_bind rfl fun updated hupdated => recorded_bind ?_
  exact records_row rfl (if_pos rfl) hupdated rfl rfl

theorem walks_rotateApiKey (id : Uuid) :
    Walks (.rotateApiKey (.ok id)) (rotateApiKey app caller id) .start := by
  refine check_bind settles_error fun _ _ => findKey_bind fun existing hexisting => ?_
  refine check_bind settles_error fun _ _ => secret_still.bind settles_error fun plaintextKey => ?_
  refine secret_still.bind settles_error fun signingSecret => ?_
  refine Quiet.sealed_bind (quiet_apart rfl rfl) settles_error fun _ stored _ => ?_
  refine Quiet.ask_bind (quiet_apart rfl rfl) fun now => ?_
  subst hexisting
  refine write_bind rfl fun updated hupdated => recorded_bind ?_
  exact records_row rfl (if_pos rfl) hupdated rfl rfl

theorem walks_rotateSigningSecret (id : Uuid) :
    Walks (.rotateSigningSecret (.ok id)) (rotateSigningSecret app caller id) .start := by
  refine check_bind settles_error fun _ _ => findKey_bind fun existing hexisting => ?_
  refine check_bind settles_error fun _ _ => secret_still.bind settles_error fun signingSecret => ?_
  refine Quiet.sealed_bind (quiet_apart rfl rfl) settles_error fun _ stored _ => ?_
  refine Quiet.ask_bind (quiet_apart rfl rfl) fun now => ?_
  subst hexisting
  refine write_bind rfl fun updated hupdated => recorded_bind ?_
  exact records_row rfl (if_pos rfl) hupdated rfl rfl

theorem walks_deleteApiKey (id : Uuid) (extracted : Extracted DeleteKeyQuery)
    (query : DeleteKeyQuery) :
    Walks (.deleteApiKey (.ok id) extracted) (deleteApiKey app caller id query) .start := by
  refine check_bind settles_error fun _ _ => findKey_bind fun existing hexisting => ?_
  refine check_bind settles_error fun _ _ => check_bind settles_error fun _ _ => ?_
  refine Quiet.ask_bind (quiet_apart rfl rfl) fun now => .ask_bind (fun _ => rfl) ?_
  rintro outcome _ ⟨-, added, hadds, rfl⟩
  cases outcome with
  | error e =>
      cases hadds
      refine .pure ⟨rfl, fun _ => rfl, ?_⟩
      intro _ hgone
      cases e <;> first | rfl | cases hgone
  | ok _ =>
      obtain ⟨details, auditId, t, rfl⟩ := hadds
      have hrecords : ∀ auditId t, Records (.deleteApiKey (.ok id) extracted) (.removedKey id)
          ((auditEntry app caller "KEY_DELETE"
            (some (describeResource "api_key" existing.id existing.name)) details).row auditId t) :=
        records_row rfl (if_pos rfl) hexisting rfl rfl
      exact .pure (settles_done (hrecords auditId t) ())

theorem walks_createEndpoint (extracted : Extracted CreateEndpointPayload)
    (payload : CreateEndpointPayload) :
    Walks (.createEndpoint extracted) (createEndpoint app caller payload) .start := by
  refine check_bind settles_error fun _ _ => check_bind settles_error fun _ _ => ?_
  refine (still_validateGroupAccess (quiet_reading rfl) _).bind settles_error fun _ => ?_
  refine check_bind settles_error fun _ _ => check_bind settles_error fun _ _ => ?_
  refine check_bind settles_error fun _ _ => Quiet.ask_bind (quiet_apart rfl rfl) fun now => ?_
  refine Quiet.ask_bind (quiet_apart rfl rfl) fun id => ?_
  refine Quiet.ask_bind (quiet_apart rfl rfl) fun token => ?_
  refine write_bind rfl ?_
  rintro created rfl
  exact recorded_bind fun _ _ => ⟨.endpointCreate, _, _, rfl, rfl, rfl, rfl⟩

theorem walks_updateEndpoint (id : Uuid) (extracted : Extracted UpdateEndpointPayload)
    (payload : UpdateEndpointPayload) :
    Walks (.updateEndpoint (.ok id) extracted) (updateEndpoint app caller id payload) .start := by
  refine findEndpoint_bind fun existing hexisting => check_bind settles_error fun _ _ => ?_
  refine check_bind settles_error fun _ _ => ?_
  refine (still_checkGroups (quiet_reading rfl) _).bind settles_error fun _ => ?_
  refine check_bind settles_error fun _ _ => check_bind settles_error fun _ _ => ?_
  refine check_bind settles_error fun _ _ => Quiet.ask_bind (quiet_apart rfl rfl) fun now => ?_
  subst hexisting
  refine write_bind rfl fun updated hupdated => recorded_bind ?_
  exact records_row rfl (if_pos rfl) hupdated rfl rfl

theorem walks_reassignEndpointOwner (id : Uuid) (extracted : Extracted ReassignOwnerPayload)
    (payload : ReassignOwnerPayload) :
    Walks (.reassignEndpointOwner (.ok id) extracted) (reassignEndpointOwner app caller id payload)
      .start := by
  refine check_bind settles_error fun _ _ => findEndpoint_bind fun existing hexisting => ?_
  refine idle_bind (idles_checkOwner rfl _) fun _ => ?_
  refine Quiet.ask_bind (quiet_apart rfl rfl) fun now => ?_
  subst hexisting
  refine write_bind rfl fun updated hupdated => recorded_bind ?_
  exact records_row rfl (if_pos rfl) hupdated rfl rfl

/-- A deletion that removed no row ends the request with 404, any other has to be on the
trail. -/
theorem walks_deleteEndpoint (id : Uuid) :
    Walks (.deleteEndpoint (.ok id)) (deleteEndpoint app caller id) .start := by
  refine findEndpoint_bind fun existing hexisting => check_bind settles_error fun _ _ => ?_
  refine follows_statement_bind (fun _ => rfl) ?_ ?_
  · rintro e _ ⟨-, _, ⟨⟩, rfl⟩
    exact settles_error _
  · rintro removed _ ⟨-, _, ⟨⟩, rfl⟩
    by_cases hzero : removed = 0
    · subst hzero
      refine .attempt_bind ?_ nofun
      intro e he
      cases he
      exact ⟨rfl, fun _ => rfl, fun _ _ => rfl⟩
    · rw [next_deleteEndpoint hzero]
      refine .attempt_bind ?_ fun _ _ => ?_
      · intro e he
        rw [if_neg hzero] at he
        cases he
      · refine Quiet.ask_bind (quiet_apart rfl rfl) fun _ => walks_createAuditLog ?_
        exact records_row rfl (if_pos rfl) hexisting rfl rfl

theorem walks_grantKeyGroup (id : Uuid) (extracted : Extracted GrantGroupPayload)
    (payload : GrantGroupPayload) :
    Walks (.grantKeyGroup (.ok id) extracted) (grantKeyGroup app caller id payload) .start := by
  refine check_bind settles_error fun _ _ => findKey_bind fun existing hexisting => ?_
  refine (still_currentGroups (quiet_apart rfl rfl) app).bind settles_error fun groups => ?_
  refine check_bind settles_error fun group _ => ?_
  refine Quiet.statement_bind (quiet_reading rfl) (fun _ => settles_error _) fun found _ => ?_
  cases found with
  | some grant => exact walks_pure rfl grant
  | none =>
      refine Quiet.ask_bind (quiet_apart rfl rfl) fun now => ?_
      refine Quiet.ask_bind (quiet_apart rfl rfl) fun grantId => ?_
      refine write_bind rfl fun created _ => recorded_bind ?_
      exact records_row rfl (if_pos rfl) hexisting rfl rfl

/-- The deletion of a grant is not asked how many rows it removed. -/
theorem walks_revokeKeyGroup (id permissionId : Uuid) :
    Walks (.revokeKeyGroup (.ok (id, permissionId))) (revokeKeyGroup app caller id permissionId)
      .start := by
  refine check_bind settles_error fun _ _ => findKey_bind fun existing hexisting => ?_
  refine findGrant_bind fun grant => check_bind settles_error fun _ _ => ?_
  refine follows_statement_bind (fun _ => rfl) ?_ ?_
  · rintro e _ ⟨-, _, ⟨⟩, rfl⟩
    exact settles_error _
  · rintro removed _ ⟨hremoved, _, ⟨⟩, rfl⟩
    rw [next_deleteGrant hremoved]
    refine walks_createAuditLog ?_
    exact records_row rfl (if_pos rfl) hexisting rfl rfl

theorem walks_listEndpoints : Walks .listEndpoints (listEndpoints caller) .start := by
  unfold listEndpoints
  split
  · exact walks_listing rfl rfl
  · exact walks_listing rfl rfl

theorem walks_answer {A : Type} {r : ApiRequest} {wrap : A → Response} {h : Handler A}
    (hh : Walks r h .start) : Walks r (answer wrap h) .start :=
  hh.except_bind (fun _ _ hsettles => hsettles) fun _ _ hsettles => .ok hsettles

theorem walks_handle (r : ApiRequest) : Walks r (handle app caller r) .start := by
  cases r with
  | getMe => exact walks_pure rfl _
  | createApiKey payload =>
      refine check_bind settles_error fun p _ => ?_
      exact walks_answer (walks_createApiKey app caller payload p)
  | listApiKeys =>
      exact walks_answer (check_bind settles_error fun _ _ => walks_listing rfl rfl)
  | updateApiKey id payload =>
      refine check_bind settles_error fun id hid => check_bind settles_error fun p _ => ?_
      subst hid
      exact walks_answer (walks_updateApiKey app caller id payload p)
  | deleteApiKey id query =>
      refine check_bind settles_error fun id hid => check_bind settles_error fun q _ => ?_
      subst hid
      exact walks_answer (walks_deleteApiKey app caller id query q)
  | rotateApiKey id =>
      refine check_bind settles_error fun id hid => ?_
      subst hid
      exact walks_answer (walks_rotateApiKey app caller id)
  | rotateSigningSecret id =>
      refine check_bind settles_error fun id hid => ?_
      subst hid
      exact walks_answer (walks_rotateSigningSecret app caller id)
  | createEndpoint payload =>
      refine check_bind settles_error fun p _ => ?_
      exact walks_answer (walks_createEndpoint app caller payload p)
  | listEndpoints => exact walks_answer (walks_listEndpoints caller)
  | updateEndpoint id payload =>
      refine check_bind settles_error fun id hid => check_bind settles_error fun p _ => ?_
      subst hid
      exact walks_answer (walks_updateEndpoint app caller id payload p)
  | deleteEndpoint id =>
      refine check_bind settles_error fun id hid => ?_
      subst hid
      exact walks_answer (walks_deleteEndpoint app caller id)
  | reassignEndpointOwner id payload =>
      refine check_bind settles_error fun id hid => check_bind settles_error fun p _ => ?_
      subst hid
      exact walks_answer (walks_reassignEndpointOwner app caller id payload p)
  | listAuditLogs query =>
      exact check_bind settles_error fun q _ => walks_answer (check_bind settles_error fun _ _ =>
        walks_statement (.auditPage _ _ _) rfl rfl)
  | listVaultGroups =>
      refine walks_answer (check_bind settles_error fun _ _ => ?_)
      refine check_bind settles_error fun _ _ => ?_
      exact Quiet.ask_bind (quiet_apart rfl rfl) fun _ => walks_attempt rfl _
  | listKeyGroups id =>
      exact check_bind settles_error fun id _ => walks_answer (check_bind settles_error fun _ _ =>
        walks_statement (.grantsOf id) rfl rfl)
  | grantKeyGroup id payload =>
      refine check_bind settles_error fun id hid => check_bind settles_error fun p _ => ?_
      subst hid
      exact walks_answer (walks_grantKeyGroup app caller id payload p)
  | revokeKeyGroup path =>
      refine check_bind settles_error fun ids hids => ?_
      subst hids
      exact walks_answer (walks_revokeKeyGroup app caller ids.1 ids.2)

end Handlers

end SimplyIpExporter.AuditTrail
