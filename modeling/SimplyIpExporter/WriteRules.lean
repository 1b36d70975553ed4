import SimplyIpExporter.RequestCalls

/-!
# What requests and workers write

One policy for everything that runs in the process. New keys are never Master keys;
a row that has been found to be a Master's loses nothing but its binding; bindings
are stored only after they have been parsed, signing secrets only after they have
been sealed; and an endpoint is left without an owner only by a request that asks for
it. What one permitted call does to the rows is stated once, for keys and for
endpoints; what holds in every reachable state follows from it.
-/
namespace SimplyIpExporter.WriteRules
open RustText Entities BoundIps KeyedTables Storage Services Programs Interleaving
open EndpointHandlers KeyHandlers SyncWorker Routes HandlerRules SyncPasses
open RequestCalls (Writing writingOf handle_keeps_of_spared)

/-- The binding is absent or parses. -/
def Parses (crates : Crates) (boundIps : Option String) : Prop :=
  ∀ raw, boundIps = some raw → ∃ entries, parseBoundIps crates raw = .ok entries

/-- The stored secret came out of the cipher. -/
def Sealed (crates : Crates) (signingSecret : Option String) : Prop :=
  ∃ nonce secret text, crates.sealSecret nonce secret = some text ∧ signingSecret = some text

/-- An update that sets no column of a key but its binding and the time. -/
def BindingOnly (ch : KeyChanges) : Prop :=
  ch = { boundIps := ch.boundIps, updatedAt := ch.updatedAt }

structure Scope where
  crates : Crates
  /-- The identifiers whose rows are Master rows. -/
  guarded : Uuid → Prop
  /-- The endpoint that the task may leave without an owner. -/
  orphans : Option Uuid

def permitsStatement (scope : Scope) : Statement → Prop
  | .insertKey row => row.isMaster = false ∧ Parses scope.crates row.boundIps ∧
      Sealed scope.crates row.signingSecret
  | .updateKey id ch => (scope.guarded id → BindingOnly ch) ∧
      (∀ b, ch.boundIps = some b → Parses scope.crates b) ∧
      ∀ secret, ch.signingSecret = some secret → Sealed scope.crates secret
  | .insertEndpoint row => Parses scope.crates row.boundIps ∧ row.ownerKeyId ≠ none
  | .updateEndpoint id ch => (∀ b, ch.boundIps = some b → Parses scope.crates b) ∧
      (ch.ownerKeyId = some none → scope.orphans = some id)
  | _ => True

def permits (scope : Scope) : Call → Prop
  | .db st => permitsStatement scope st
  | .deleteKey d => ¬ scope.guarded d.id ∧ d.reassignTo ≠ some d.id
  | _ => True

/-- A row that is found is the one asked for, and guarded keys are found to be Masters. -/
def answers (scope : Scope) : (c : Call) → Answer c → Prop
  | .db (.findKey id), .ok (some row) => row.id = id ∧ (scope.guarded id → row.isMaster = true)
  | .db (.findEndpoint id), .ok (some row) => row.id = id
  | _, _ => True

theorem permits_harmless {scope : Scope} (c : Call) (hc : harmless c = true) : permits scope c := by
  cases c with
  | db st => cases st <;> trivial
  | deleteKey d => cases hc
  | _ => trivial

def writeRules (scope : Scope) : CallRules := ⟨permits scope, answers scope, permits_harmless⟩

abbrev writes (scope : Scope) : Policy Answer Unit := (writeRules scope).policy Unit

theorem foundById_of_answers {scope : Scope} {c : Call} {r : Answer c} (h : answers scope c r) :
    FoundById c r := by
  unfold FoundById
  split
  · exact h.1
  · exact h
  · trivial

section Checks
variable {app : AppState}

theorem parses_of_checked {raw : String} {u : Unit} (h : checkBoundIps app raw = .ok u) :
    Parses app.crates (some raw) := by
  rintro _ ⟨⟩
  unfold checkBoundIps validateBoundIps at h
  cases hparse : parseBoundIps app.crates raw with
  | error e =>
      rw [hparse] at h
      cases h
  | ok entries => exact ⟨entries, rfl⟩

theorem parses_of_ifPresent {boundIps : Option String} {u : Unit}
    (h : ifPresent boundIps (checkBoundIps app) = .ok u) : Parses app.crates boundIps := by
  cases boundIps with
  | none => exact nofun
  | some raw => exact parses_of_checked h

/-- What an update stores as a binding is what it has checked. -/
theorem parses_of_update {boundIps : Option String} {u : Unit}
    (h : ifPresent (boundIps.bind fun raw => unlessBlank (trim raw)) (checkBoundIps app) = .ok u) :
    ∀ b, boundIps.map (fun raw => unlessBlank (trim raw)) = some b → Parses app.crates b := by
  intro b hb
  obtain ⟨raw, rfl, rfl⟩ := Option.map_eq_some_iff.mp hb
  rw [Option.bind_some] at h
  exact parses_of_ifPresent h

end Checks

section Handlers
variable {app : AppState} {guarded : Uuid → Prop} {orphans : Option Uuid} (caller : Caller)

/-- What changes a key that is not the Master's may set anything. -/
theorem rotation_permitted {id : Uuid} {existing : ApiKey} {operation : String} {u : Unit}
    {ch : KeyChanges} (hid : existing.id = id) (hmaster : guarded id → existing.isMaster = true)
    (hguard : guardMasterDeleteOrRotate existing operation = .ok u) (hbound : ch.boundIps = none)
    (hsealed : ∀ secret, ch.signingSecret = some secret → Sealed app.crates secret) :
    permitsStatement ⟨app.crates, guarded, orphans⟩ (.updateKey existing.id ch) := by
  refine ⟨?_, ?_, hsealed⟩
  · intro hguarded
    rw [hid] at hguarded
    have htrue := hmaster hguarded
    rw [isMaster_of_guard hguard] at htrue
    cases htrue
  · intro b hb
    rw [hbound] at hb
    cases hb

theorem keeps_createApiKey (payload : CreateKeyPayload) :
    Keeps (writeRules ⟨app.crates, guarded, orphans⟩) (createApiKey app caller payload) := by
  refine attempt_bind fun _ _ => attempt_bind fun _ _ => attempt_bind fun _ hchecked => ?_
  refine keeps_then keeps_generateSecret fun plaintextKey => ?_
  refine keeps_then keeps_generateSecret fun signingSecret => ?_
  refine draw_bind rfl fun now => draw_bind rfl fun id => sealed_bind fun nonce stored hsealed => ?_
  have hstored : Sealed app.crates (some stored) := ⟨nonce, signingSecret, stored, hsealed, rfl⟩
  refine statement_bind ⟨rfl, parses_of_ifPresent hchecked, hstored⟩ fun created _ => ?_
  exact entry_bind (fun _ _ => trivial) _

theorem keeps_updateApiKey (id : Uuid) (payload : UpdateKeyPayload) :
    Keeps (writeRules ⟨app.crates, guarded, orphans⟩) (updateApiKey app caller id payload) := by
  refine attempt_bind fun _ _ => findKey_bind fun existing hfound => ?_
  refine attempt_bind fun _ hguard => attempt_bind fun _ _ => attempt_bind fun _ hchecked => ?_
  refine draw_bind rfl fun now => ?_
  refine statement_bind ⟨?_, parses_of_update hchecked, nofun⟩ fun updated _ =>
    entry_bind (fun _ _ => trivial) _
  -- the guard has refused every other column of a Master row
  intro hguarded
  rw [hfound.1] at hguarded
  unfold guardMasterUpdate at hguard
  split at hguard
  · cases hguard
  · rename_i hallowed
    simp only [hfound.2 hguarded, Bool.true_and, Bool.or_eq_true, not_or, Bool.not_eq_true,
      Option.isSome_eq_false_iff, Option.isNone_iff_eq_none] at hallowed
    simp [BindingOnly, UpdateKeyPayload.changes, hallowed]

theorem keeps_deleteApiKey (id : Uuid) (query : DeleteKeyQuery) :
    Keeps (writeRules ⟨app.crates, guarded, orphans⟩) (deleteApiKey app caller id query) := by
  refine attempt_bind fun _ _ => findKey_bind fun existing hfound => ?_
  refine attempt_bind fun _ hguard => attempt_bind fun _ hother => draw_bind rfl fun now => ?_
  refine ask_bind ⟨?_, ?_⟩ fun outcome => keeps_attempt outcome
  · intro hguarded
    have htrue := hfound.2 hguarded
    rw [isMaster_of_guard hguard] at htrue
    cases htrue
  · intro hself
    rw [if_pos hself] at hother
    cases hother

theorem keeps_rotateApiKey (id : Uuid) :
    Keeps (writeRules ⟨app.crates, guarded, orphans⟩) (rotateApiKey app caller id) := by
  refine attempt_bind fun _ _ => findKey_bind fun existing hfound => attempt_bind fun _ hguard => ?_
  refine keeps_then keeps_generateSecret fun plaintextKey => ?_
  refine keeps_then keeps_generateSecret fun signingSecret =>
    sealed_bind fun nonce stored hsealed => ?_
  refine draw_bind rfl fun now => ?_
  refine statement_bind (rotation_permitted hfound.1 hfound.2 hguard rfl ?_) fun updated _ =>
    entry_bind (fun _ _ => trivial) _
  rintro _ ⟨⟩
  exact ⟨nonce, signingSecret, stored, hsealed, rfl⟩

theorem keeps_rotateSigningSecret (id : Uuid) :
    Keeps (writeRules ⟨app.crates, guarded, orphans⟩) (rotateSigningSecret app caller id) := by
  refine attempt_bind fun _ _ => findKey_bind fun existing hfound => attempt_bind fun _ hguard => ?_
  refine keeps_then keeps_generateSecret fun signingSecret =>
    sealed_bind fun nonce stored hsealed => ?_
  refine draw_bind rfl fun now => ?_
  refine statement_bind (rotation_permitted hfound.1 hfound.2 hguard rfl ?_) fun updated _ =>
    entry_bind (fun _ _ => trivial) _
  rintro _ ⟨⟩
  exact ⟨nonce, signingSecret, stored, hsealed, rfl⟩

theorem keeps_createEndpoint (payload : CreateEndpointPayload) :
    Keeps (writeRules ⟨app.crates, guarded, orphans⟩) (createEndpoint app caller payload) := by
  refine attempt_bind fun _ _ => attempt_bind fun _ _ => ?_
  refine keeps_then (keeps_validateGroupAccess _ _) fun _ => attempt_bind fun _ hchecked => ?_
  refine attempt_bind fun _ _ => attempt_bind fun _ _ => ?_
  refine draw_bind rfl fun now => draw_bind rfl fun id => draw_bind rfl fun token => ?_
  refine statement_bind ⟨parses_of_ifPresent hchecked, nofun⟩ fun created _ => ?_
  exact entry_bind (fun _ _ => trivial) _

theorem keeps_updateEndpoint (id : Uuid) (payload : UpdateEndpointPayload) :
    Keeps (writeRules ⟨app.crates, guarded, orphans⟩) (updateEndpoint app caller id payload) := by
  refine findEndpoint_bind fun existing _ => attempt_bind fun _ _ => attempt_bind fun _ _ => ?_
  refine keeps_then (keeps_checkGroups _ _) fun _ => attempt_bind fun _ _ => ?_
  refine attempt_bind fun _ _ => attempt_bind fun _ hchecked => draw_bind rfl fun now => ?_
  exact statement_bind ⟨parses_of_update hchecked, nofun⟩ fun updated _ =>
    entry_bind (fun _ _ => trivial) _

theorem keeps_reassignEndpointOwner (id : Uuid) (payload : ReassignOwnerPayload)
    (horphans : payload.ownerKeyId = none → orphans = some id) :
    Keeps (writeRules ⟨app.crates, guarded, orphans⟩)
      (reassignEndpointOwner app caller id payload) := by
  refine attempt_bind fun _ _ => findEndpoint_bind fun existing hfound => ?_
  refine keeps_then (keeps_checkOwner _) fun _ => draw_bind rfl fun now => ?_
  refine statement_bind ⟨nofun, ?_⟩ fun updated _ => entry_bind (fun _ _ => trivial) _
  intro howner
  have hid : existing.id = id := hfound
  rw [hid]
  exact horphans (Option.some.inj howner)

end Handlers

/-- The endpoint that the request asks to be left without an owner. -/
def orphaning : Task → Option Uuid
  | .request _ (.reassignEndpointOwner (.ok id) (.ok payload)) =>
      if payload.ownerKeyId = none then some id else none
  | _ => none

def scopeOf (app : AppState) (guarded : Uuid → Prop) (t : Task) : Scope :=
  ⟨app.crates, guarded, orphaning t⟩

/-- Ways of writing that the policy does not mind. -/
def freeWriting : Option Writing → Bool
  | none | some .deleteEndpoint | some .insertGrant | some .deleteGrant => true
  | _ => false

section Tasks
variable {app : AppState} {guarded : Uuid → Prop}

theorem permits_free {scope : Scope} (c : Call) (hc : freeWriting (writingOf c) = true) :
    permits scope c := by
  cases c with
  | db st =>
      cases st with
      | insertKey _ | updateKey _ _ | insertEndpoint _ | updateEndpoint _ _ => cases hc
      | _ => trivial
  | deleteKey d => cases hc
  | _ => trivial

theorem keeps_handle (caller : Caller) (r : ApiRequest) :
    Keeps (writeRules (scopeOf app guarded (.request caller r))) (handle app caller r) := by
  cases r with
  | createApiKey payload =>
      exact attempt_bind fun p _ => keeps_answer (keeps_createApiKey caller p)
  | updateApiKey id payload =>
      exact attempt_bind fun id _ => attempt_bind fun p _ =>
        keeps_answer (keeps_updateApiKey caller id p)
  | deleteApiKey id query =>
      exact attempt_bind fun id _ => attempt_bind fun q _ =>
        keeps_answer (keeps_deleteApiKey caller id q)
  | rotateApiKey id => exact attempt_bind fun id _ => keeps_answer (keeps_rotateApiKey caller id)
  | rotateSigningSecret id =>
      exact attempt_bind fun id _ => keeps_answer (keeps_rotateSigningSecret caller id)
  | createEndpoint payload =>
      exact attempt_bind fun p _ => keeps_answer (keeps_createEndpoint caller p)
  | updateEndpoint id payload =>
      exact attempt_bind fun id _ => attempt_bind fun p _ =>
        keeps_answer (keeps_updateEndpoint caller id p)
  | reassignEndpointOwner id payload =>
      refine attempt_bind fun id hid => attempt_bind fun p hp => ?_
      subst hid hp
      refine keeps_answer (keeps_reassignEndpointOwner caller id p ?_)
      intro hnone
      simp [orphaning, hnone]
  | _ =>
      exact handle_keeps_of_spared app caller freeWriting rfl permits_free
        (fun _ _ => foundById_of_answers) rfl

theorem keeps_cleanup {scope : Scope} (app : AppState) :
    Follows (writes scope) (fun _ _ => True) (cleanupStaleGroupPermissions app) () :=
  cleanupStaleGroupPermissions_follows (fun _ => trivial) (fun _ => trivial)
    (fun _ _ => trivial) app ()

/-- The worker writes no column of an endpoint but its cursor. -/
theorem keeps_sync {scope : Scope} (app : AppState) (passes : ℕ) :
    Follows (writes scope) (fun _ _ => True) ((Task.sync passes).program app) () := by
  refine sync_follows_of_permits ?_ app passes ()
  intro pass _ c hpermits
  cases c with
  | db st =>
      cases st with
      | updateEndpoint id ch =>
          obtain ⟨-, -, t, -, rfl⟩ := hpermits
          exact ⟨nofun, nofun⟩
      | insertKey _ | updateKey _ _ | insertEndpoint _ => exact hpermits.elim
      | _ => trivial
  | deleteKey d => exact hpermits.elim
  | _ => trivial

theorem program_keeps (app : AppState) (guarded : Uuid → Prop) (t : Task) :
    Follows (writes (scopeOf app guarded t)) (fun _ _ => True) (t.program app) () := by
  cases t with
  | request caller r => exact (keeps_handle caller r Unit ()).bind fun _ _ _ => .pure trivial
  | cleanup => exact (keeps_cleanup app).bind fun _ _ _ => .pure trivial
  | sync passes => exact keeps_sync app passes

end Tasks

/-- A row of `api_keys` after a call: an old one, an old one updated, a new one. -/
def KeyExplained (scope : Scope) (db : Database) (row' : ApiKey) : Prop :=
  row' ∈ db.apiKeys.rows ∨
  (∃ row ∈ db.apiKeys.rows, ∃ ch, row' = KeyChanges.apply ch row ∧
    permitsStatement scope (.updateKey row.id ch)) ∨
  permitsStatement scope (.insertKey row')

/-- A row of `endpoints` after a call: an old one, an old one updated, a new one, or an
old one that has a new owner. -/
def EndpointExplained (scope : Scope) (db : Database) (row' : Endpoint) : Prop :=
  row' ∈ db.endpoints.rows ∨
  (∃ row ∈ db.endpoints.rows, ∃ ch, row' = EndpointChanges.apply ch row ∧
    permitsStatement scope (.updateEndpoint row.id ch)) ∨
  permitsStatement scope (.insertEndpoint row') ∨
  ∃ row ∈ db.endpoints.rows, ∃ owner t, row' = { row with ownerKeyId := some owner, updatedAt := t }

section Effects
variable {crates : Crates} {scope : Scope} {c : Call} {e : Choice} {s s' : World} {r : Answer c}

theorem statement_keys {st : Statement} {rows : st.Rows} {db db' : Database}
    (hpermits : permitsStatement scope st) (hrun : st.run db = .ok (rows, db')) :
    ∀ row' ∈ db'.apiKeys.rows, KeyExplained scope db row' := by
  intro row' hrow'
  cases st with
  | insertKey row =>
      obtain ⟨-, t, hinsert, rfl⟩ := run_insertKey hrun
      simp only [(Table.rows_insert hinsert).1, List.mem_append, List.mem_singleton] at hrow'
      rcases hrow' with hold | rfl
      · exact .inl hold
      · exact .inr (.inr hpermits)
  | updateKey id ch =>
      obtain ⟨-, -, -, rfl⟩ := run_updateKey hrun
      obtain ⟨row, hrow, rfl⟩ := List.mem_map.mp hrow'
      split
      · rename_i hid
        refine .inr (.inl ⟨row, hrow, ch, rfl, ?_⟩)
        rw [of_decide_eq_true hid]
        exact hpermits
      · exact .inl hrow
  | _ =>
      rw [run_not_onKeys rfl hrun] at hrow'
      exact .inl hrow'

theorem exec_keys (hpermits : permits scope c) (hexec : exec crates c e s = some (r, s')) :
    ∀ row' ∈ s'.db.apiKeys.rows, KeyExplained scope s.db row' := by
  intro row' hrow'
  cases c with
  | db st =>
      cases r with
      | error err =>
          cases exec_db_error hexec
          exact .inl hrow'
      | ok rows =>
          obtain ⟨db, hrun, -, rfl⟩ := exec_db_ok hexec
          exact statement_keys hpermits hrun row' hrow'
  | deleteKey d =>
      obtain ⟨-, ⟨hdb, -⟩ | ⟨id, t, hrun, -⟩⟩ := exec_deleteKey hexec
      · rw [hdb] at hrow'
        exact .inl hrow'
      · obtain ⟨target, details, audits, -, -, -, hdb⟩ := KeyDeletion.run_ok hrun
        rw [hdb] at hrow'
        refine .inl ?_
        cases target <;> exact List.mem_of_mem_filter hrow'
  | _ =>
      rw [(exec_not_storing rfl hexec).1] at hrow'
      exact .inl hrow'

/-- A guarded row stays, and keeps everything but its binding and the time of change. -/
theorem exec_guarded {id : Uuid} {row : ApiKey} (hpermits : permits scope c)
    (hexec : exec crates c e s = some (r, s')) (hguarded : scope.guarded id)
    (hfind : s.db.apiKeys.find id = some row) :
    ∃ row', s'.db.apiKeys.find id = some row' ∧
      row' = { row with boundIps := row'.boundIps, updatedAt := row'.updatedAt } := by
  cases c with
  | db st =>
      cases r with
      | error err =>
          cases exec_db_error hexec
          exact ⟨row, hfind, rfl⟩
      | ok rows =>
          obtain ⟨db, hrun, -, rfl⟩ := exec_db_ok hexec
          cases st with
          | insertKey new =>
              obtain ⟨-, t, hinsert, rfl⟩ := run_insertKey hrun
              have hne : new.id ≠ id := by
                intro heq
                have hnone := (Table.rows_insert hinsert).2
                rw [heq, hfind] at hnone
                cases hnone
              exact ⟨row, by simp only [Table.find_insert hinsert, if_neg hne, hfind], rfl⟩
          | updateKey target ch =>
              obtain ⟨-, -, -, rfl⟩ := run_updateKey hrun
              simp only [Table.find_change, hfind, Option.map_some]
              refine ⟨_, rfl, ?_⟩
              split
              · rename_i htarget
                have hid : row.id = id := (Table.find_eq_some.mp hfind).2
                rw [hid, decide_eq_true_eq] at htarget
                have honly := hpermits.1 (htarget ▸ hguarded)
                rw [BindingOnly] at honly
                rw [honly]
                rfl
              · rfl
          | _ =>
              refine ⟨row, ?_, rfl⟩
              dsimp only
              rw [run_not_onKeys rfl hrun]
              exact hfind
  | deleteKey d =>
      obtain ⟨-, ⟨hdb, -⟩ | ⟨auditId, t, hrun, -⟩⟩ := exec_deleteKey hexec
      · exact ⟨row, by rw [hdb]; exact hfind, rfl⟩
      · obtain ⟨target, details, audits, -, -, -, hdb⟩ := KeyDeletion.run_ok hrun
        have hid : row.id = id := (Table.find_eq_some.mp hfind).2
        have hne : row.id ≠ d.id := by
          rw [hid]
          exact fun heq => hpermits.1 (heq ▸ hguarded)
        refine ⟨row, ?_, rfl⟩
        rw [hdb]
        cases target <;>
          simp [KeyDeletion.moved, Database.removeKey, Database.reassignEndpoints,
            Table.find_delete, hfind, hne]
  | _ => exact ⟨row, by rw [(exec_not_storing rfl hexec).1]; exact hfind, rfl⟩

/-- A key is deleted only when its endpoints have a new owner, or there are none. -/
theorem deletion_endpoints {d : KeyDeletion} {auditId : Uuid} {auditTime : NaiveDateTime}
    {db db' : Database} (hother : d.reassignTo ≠ some d.id)
    (h : d.run auditId auditTime db = .ok db') :
    ∀ row' ∈ db'.endpoints.rows, row' ∈ db.endpoints.rows ∨
      ∃ row ∈ db.endpoints.rows, ∃ owner t,
        row' = { row with ownerKeyId := some owner, updatedAt := t } := by
  intro row' hrow'
  rw [KeyDeletion.endpoints_eq hother h] at hrow'
  obtain ⟨row, hrow, rfl⟩ := List.mem_map.mp hrow'
  unfold passedOn
  split
  · rename_i howner
    obtain ⟨t, hto, -⟩ := KeyDeletion.newOwner h hrow howner
    rw [hto]
    exact .inr ⟨row, hrow, t.id, d.now, rfl⟩
  · exact .inl hrow

theorem statement_endpoints {st : Statement} {rows : st.Rows} {db db' : Database}
    (hpermits : permitsStatement scope st) (hrun : st.run db = .ok (rows, db')) :
    ∀ row' ∈ db'.endpoints.rows, EndpointExplained scope db row' := by
  intro row' hrow'
  cases st with
  | insertEndpoint row =>
      obtain ⟨-, t, hinsert, rfl⟩ := run_insertEndpoint hrun
      simp only [(Table.rows_insert hinsert).1, List.mem_append, List.mem_singleton] at hrow'
      rcases hrow' with hold | rfl
      · exact .inl hold
      · exact .inr (.inr (.inl hpermits))
  | updateEndpoint id ch =>
      rcases mem_of_updateEndpoint hrun hrow' with hold | ⟨row, hfind, rfl⟩
      · exact .inl hold
      · obtain ⟨hrow, hid⟩ := Table.find_eq_some.mp hfind
        exact .inr (.inl ⟨row, hrow, ch, rfl, hid ▸ hpermits⟩)
  | deleteEndpoint id =>
      cases hrun
      exact .inl (List.mem_of_mem_filter hrow')
  | _ =>
      rw [run_not_onEndpoints rfl hrun] at hrow'
      exact .inl hrow'

theorem exec_endpoints (hpermits : permits scope c) (hexec : exec crates c e s = some (r, s')) :
    ∀ row' ∈ s'.db.endpoints.rows, EndpointExplained scope s.db row' := by
  intro row' hrow'
  cases c with
  | db st =>
      cases r with
      | error err =>
          cases exec_db_error hexec
          exact .inl hrow'
      | ok rows =>
          obtain ⟨db, hrun, -, rfl⟩ := exec_db_ok hexec
          exact statement_endpoints hpermits hrun row' hrow'
  | deleteKey d =>
      obtain ⟨-, ⟨hdb, -⟩ | ⟨id, t, hrun, -⟩⟩ := exec_deleteKey hexec
      · rw [hdb] at hrow'
        exact .inl hrow'
      · rcases deletion_endpoints hpermits.2 hrun row' hrow' with hold | hmoved
        · exact .inl hold
        · exact .inr (.inr (.inr hmoved))
  | _ =>
      rw [(exec_not_storing rfl hexec).1] at hrow'
      exact .inl hrow'

/-- What a call answers is consistent with the rows, as long as guarded rows are
Master rows. -/
theorem exec_answers (hmaster : ∀ id, scope.guarded id → ∀ row, s.db.apiKeys.find id = some row →
      row.isMaster = true) (hexec : exec crates c e s = some (r, s')) : answers scope c r := by
  cases c with
  | db st =>
      cases r with
      | error err => cases st <;> trivial
      | ok rows =>
          cases st with
          | findKey id =>
              obtain ⟨db, hrun, -⟩ := exec_db_ok hexec
              cases hrun
              cases hfind : s.db.apiKeys.find id with
              | none => trivial
              | some row =>
                  exact ⟨(Table.find_eq_some.mp hfind).2, fun hguarded =>
                    hmaster id hguarded row hfind⟩
          | findEndpoint id =>
              obtain ⟨db, hrun, -⟩ := exec_db_ok hexec
              cases hrun
              cases hfind : s.db.endpoints.find id with
              | none => trivial
              | some row => exact (Table.find_eq_some.mp hfind).2
          | _ => trivial
  | _ => trivial

end Effects

section Runs
variable {I : Type} [DecidableEq I] {app : AppState} {tasks : I → Task} {w : World}

/-- Along every run each task keeps to the policy, and what every permitted call keeps
holds. -/
theorem run_writes (guarded : Uuid → Prop) (Inv : Database → Prop)
    (hmaster : ∀ db, Inv db → ∀ id, guarded id → ∀ row, db.apiKeys.find id = some row →
      row.isMaster = true)
    (hstep : ∀ t (c : Call) e (s s' : World) (r : Answer c), permits (scopeOf app guarded t) c →
      exec app.crates c e s = some (r, s') → Inv s.db → Inv s'.db)
    (hinit : Inv w.db) {events : List (Event I Choice Change)} {p : Process I}
    (hrun : run (system app.crates) (process app tasks w) events = some p) :
    (∀ i, Follows (writes (scopeOf app guarded (tasks i))) (fun _ _ => True) (p.threads i) ()) ∧
      Inv p.state.db := by
  have hwatched := run_watched (fun i => writes (scopeOf app guarded (tasks i))) (fun _ _ _ => True)
    (fun _ _ (s : World) => Inv s.db) (fun _ _ => True)
    ⟨fun i => program_keeps app guarded (tasks i), hinit⟩ ?_ ?_ hrun (fun _ _ _ _ _ _ => trivial)
  · obtain ⟨ms, h⟩ := hwatched
    exact ⟨h.follows, h.inv⟩
  · intro past p ms i e c next r s' _ hinv _ _ hpermits hexec
    exact ⟨(), ⟨exec_answers (hmaster _ hinv.inv) hexec, rfl⟩,
      hstep (tasks i) c e _ s' r hpermits hexec hinv.inv⟩
  · intro past p ms ch s' _ hinv _ henv
    rw [env_eq_some henv]
    exact hinv.inv

theorem run_keeps (guarded : Uuid → Prop) (Inv : Database → Prop)
    (hmaster : ∀ db, Inv db → ∀ id, guarded id → ∀ row, db.apiKeys.find id = some row →
      row.isMaster = true)
    (hstep : ∀ t (c : Call) e (s s' : World) (r : Answer c), permits (scopeOf app guarded t) c →
      exec app.crates c e s = some (r, s') → Inv s.db → Inv s'.db)
    (hinit : Inv w.db) {events : List (Event I Choice Change)} {p : Process I}
    (hrun : run (system app.crates) (process app tasks w) events = some p) : Inv p.state.db :=
  (run_writes guarded Inv hmaster hstep hinit hrun).2

/-- The call a task is about to make is permitted, with no row guarded. -/
theorem run_permits {events : List (Event I Choice Change)} {p : Process I} {i : I} {c : Call}
    (hrun : run (system app.crates) (process app tasks w) events = some p)
    (hc : (p.threads i).upcoming = some c) :
    permits (scopeOf app (fun _ => False) (tasks i)) c :=
  ((run_writes (fun _ => False) (fun _ => True) (fun _ _ _ h => h.elim)
    (fun _ _ _ _ _ _ _ _ _ => trivial)
    trivial hrun).1 i).permits_upcoming hc

end Runs
end SimplyIpExporter.WriteRules
