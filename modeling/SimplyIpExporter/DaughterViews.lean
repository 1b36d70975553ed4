import SimplyIpExporter.CredentialSecrecy

/-!
# What a daughter key can tell apart

A key that is not the Master sees its own endpoints, its own grants, the time and whether
it is still there itself. It also sees which identifiers are endpoints at all, for an
endpoint of somebody else is refused in another way than one that does not exist. That is
all: two services that agree on this much answer each of its requests alike, whatever else
they hold and whatever happens in them between the calls of the request.

New identifiers and tokens are taken to collide with none in use, and an endpoint is taken
not to change hands between the check of a request and its write.
-/
namespace SimplyIpExporter.DaughterViews
open RustText Entities KeyedTables Storage Services Programs Interleaving EndpointHandlers
open KeyHandlers Routes Lockstep CredentialSecrecy DaughterConfinement

def ownGrants (key : Uuid) (db : Database) : List VaultGroupPermission :=
  db.grants.rows.filter fun g => decide (g.apiKeyId = key)

/-- Two databases that look the same to a key. -/
structure SameView (key : Uuid) (db db' : Database) : Prop where
  endpoints : db'.endpointsOf key = db.endpointsOf key
  known : ∀ id, (db'.endpoints.find id).isSome = (db.endpoints.find id).isSome
  grants : ownGrants key db' = ownGrants key db
  present : (db'.apiKeys.find key).isSome = (db.apiKeys.find key).isSome

/-- Two states that look the same to a key. -/
structure LooksAlike (key : Uuid) (w w' : World) : Prop where
  view : SameView key w.db w'.db
  clock : w'.clock = w.clock

/-- What is drawn is new, and an endpoint about to be updated still belongs to the key. -/
def undisturbed (key : Uuid) : Call → World → Bool
  | .db (.insertEndpoint row), w => !w.retired.contains row.id &&
      !w.db.endpoints.rows.any fun r => decide (r.tokenSecret = row.tokenSecret)
  | .db (.updateEndpoint id _), w =>
      (w.db.endpoints.find id).all fun r => decide (r.ownerKeyId = some key)
  | .db (.insertAudit row), w => (w.db.auditLogs.find row.id).isNone
  | _, _ => true

/-- The same row, or two rows of others. -/
def SameFound (key : Uuid) (found found' : Option Endpoint) : Prop :=
  found = found' ∨ ∃ row row', found = some row ∧ found' = some row' ∧
    row.ownerKeyId ≠ some key ∧ row'.ownerKeyId ≠ some key

/-- Calls that a request of the key makes and that are answered from its view. -/
def onOwn (key : Uuid) : Call → Bool
  | .db (.endpointsOwnedBy owner) => decide (owner = key)
  | .db (.grantsOf holder) => decide (holder = key)
  | .db (.insertEndpoint row) => decide (row.ownerKeyId = some key)
  | .db (.updateEndpoint _ ch) => decide (ch.ownerKeyId = none)
  | .db (.insertAudit row) => decide (row.apiKeyId = some key)
  | .db (.deleteEndpoint _) | .now | .newUuid | .random _ | .evict _ => true
  | _ => false

inductive Viewing (key : Uuid) : Pairing Answer
  | own {c : Call} (h : onOwn key c = true) : Viewing key c c Eq
  | findEndpoint (id : Uuid) :
      Viewing key (.db (.findEndpoint id)) (.db (.findEndpoint id)) (Both (SameFound key))

section View
variable {key : Uuid} {db db' : Database}

theorem SameView.symm (h : SameView key db db') : SameView key db' db where
  endpoints := h.endpoints.symm
  known id := (h.known id).symm
  grants := h.grants.symm
  present := h.present.symm

/-- An endpoint of the key is in both databases. -/
theorem SameView.found (h : SameView key db db') {id : Uuid} {row : Endpoint}
    (hrow : db.endpoints.find id = some row) (howner : row.ownerKeyId = some key) :
    db'.endpoints.find id = some row := by
  obtain ⟨hmem, hid⟩ := Table.find_eq_some.mp hrow
  have hown : row ∈ db'.endpointsOf key := by
    rw [h.endpoints]
    exact List.mem_filter.mpr ⟨hmem, decide_eq_true howner⟩
  exact Table.find_eq_some.mpr ⟨(List.mem_filter.mp hown).1, hid⟩

theorem SameView.sameFound (h : SameView key db db') (id : Uuid) :
    SameFound key (db.endpoints.find id) (db'.endpoints.find id) := by
  have hknown := h.known id
  cases hrow : db.endpoints.find id with
  | none =>
      rw [hrow, Option.isSome_none, Option.isSome_eq_false_iff, Option.isNone_iff_eq_none] at hknown
      exact .inl hknown.symm
  | some row =>
      rw [hrow, Option.isSome_some, Option.isSome_iff_exists] at hknown
      obtain ⟨row', hrow'⟩ := hknown
      by_cases howner : row.ownerKeyId = some key
      · exact .inl (h.found hrow howner).symm
      · refine .inr ⟨row, row', rfl, hrow', howner, ?_⟩
        intro howner'
        have hsame := h.symm.found hrow' howner'
        rw [hrow] at hsame
        cases hsame
        exact howner howner'

theorem isSome_insert {Row : Type} {key : Row → Uuid} (t : Table Row Uuid key) (r : Row) :
    (t.insert r).isSome = !(t.find (key r)).isSome := by
  cases hfind : t.find (key r) with
  | none =>
      obtain ⟨t', ht'⟩ := Table.insert_of_find_none hfind
      rw [ht']
      rfl
  | some row =>
      cases ht : t.insert r with
      | none => rfl
      | some t' =>
          rw [(Table.rows_insert ht).2] at hfind
          cases hfind

/-- A statement that both databases refuse alike, or answer alike with the view kept. -/
def AnsweredAlike {X : Type} (key : Uuid) (result result' : Except DbErr (X × Database)) : Prop :=
  (∃ e, result = .error e ∧ result' = .error e) ∨
    ∃ x u u', result = .ok (x, u) ∧ result' = .ok (x, u') ∧ SameView key u u'

theorem insertEndpoint_alike (h : SameView key db db') {row : Endpoint}
    (howner : row.ownerKeyId = some key)
    (hnew : (db.endpoints.rows.any fun r => decide (r.tokenSecret = row.tokenSecret)) = false)
    (hnew' : (db'.endpoints.rows.any fun r => decide (r.tokenSecret = row.tokenSecret)) = false) :
    AnsweredAlike key ((Statement.insertEndpoint row).run db)
      ((Statement.insertEndpoint row).run db') := by
  have hrefers : ∀ db : Database, db.refers row.ownerKeyId = (db.apiKeys.find key).isSome := by
    intro db
    rw [howner]
    rfl
  have hinserted : (db'.endpoints.insert row).isSome = (db.endpoints.insert row).isSome := by
    rw [isSome_insert, isSome_insert, h.known]
  simp only [Statement.run, insertRow, hnew, hnew', hrefers, h.present, Bool.not_false,
    Bool.and_true]
  cases (db.apiKeys.find key).isSome with
  | false => exact .inl ⟨_, rfl, rfl⟩
  | true =>
      cases ht : db.endpoints.insert row with
      | none =>
          rw [ht, Option.isSome_none, Option.isSome_eq_false_iff,
            Option.isNone_iff_eq_none] at hinserted
          rw [hinserted]
          exact .inl ⟨_, rfl, rfl⟩
      | some t =>
          rw [ht, Option.isSome_some, Option.isSome_iff_exists] at hinserted
          obtain ⟨t', ht'⟩ := hinserted
          rw [ht']
          refine .inr ⟨row, _, _, rfl, rfl, ?_, ?_, h.grants, h.present⟩
          · unfold Database.endpointsOf
            rw [(Table.rows_insert ht).1, (Table.rows_insert ht').1, List.filter_append,
              List.filter_append]
            exact congrArg (· ++ _) h.endpoints
          · intro id
            rw [Table.find_insert ht, Table.find_insert ht']
            split
            · rfl
            · exact h.known id

/-- An update that leaves the owner alone changes the own endpoints among themselves. -/
theorem endpointsOf_change (db : Database) (id : Uuid) {ch : EndpointChanges}
    (hch : ch.ownerKeyId = none) :
    Database.endpointsOf { db with
        endpoints := db.endpoints.change (fun r => decide (r.id = id)) ch.apply ch.apply_id } key =
      (db.endpointsOf key).map fun r => if decide (r.id = id) then ch.apply r else r := by
  have howner : ∀ r : Endpoint, (if decide (r.id = id) then ch.apply r else r).ownerKeyId =
      r.ownerKeyId := by
    intro r
    split
    · simp [EndpointChanges.apply, hch]
    · rfl
  simp only [Database.endpointsOf, Table.change, List.filter_map, Function.comp_def, howner]

theorem updateEndpoint_alike (h : SameView key db db') (id : Uuid) {ch : EndpointChanges}
    (hch : ch.ownerKeyId = none)
    (hown : ∀ row, db.endpoints.find id = some row → row.ownerKeyId = some key) :
    AnsweredAlike key ((Statement.updateEndpoint id ch).run db)
      ((Statement.updateEndpoint id ch).run db') := by
  have hfound : db'.endpoints.find id = db.endpoints.find id := by
    rcases h.sameFound id with hsame | ⟨row, row', hrow, -, hforeign, -⟩
    · exact hsame.symm
    · exact absurd (hown row hrow) hforeign
  simp only [Statement.run, updateRow, hfound, hch, Option.all_none, if_true]
  cases db.endpoints.find id with
  | none => exact .inl ⟨_, rfl, rfl⟩
  | some row =>
      refine .inr ⟨_, _, _, rfl, rfl, ?_, ?_, h.grants, h.present⟩
      · rw [endpointsOf_change db id hch, endpointsOf_change db' id hch, h.endpoints]
      · intro id'
        simp only [Table.find_change, Option.isSome_map]
        exact h.known id'

theorem countP_id (t : Table Endpoint Uuid Endpoint.id) (id : Uuid) :
    t.rows.countP (fun r => decide (r.id = id)) = (t.find id).isSome.toNat := by
  have hcount : t.rows.countP (fun r => decide (r.id = id)) = (t.rows.map (·.id)).count id := by
    rw [List.count, List.countP_map]
    rfl
  rw [hcount]
  cases hfind : t.find id with
  | none =>
      refine List.count_eq_zero_of_not_mem ?_
      intro hmem
      obtain ⟨r, hr, hid⟩ := List.mem_map.mp hmem
      exact Table.find_eq_none.mp hfind r hr hid
  | some row =>
      obtain ⟨hmem, hid⟩ := Table.find_eq_some.mp hfind
      exact List.count_eq_one_of_mem t.distinct (List.mem_map.mpr ⟨row, hmem, hid⟩)

theorem find_delete_id (t : Table Endpoint Uuid Endpoint.id) (id id' : Uuid) :
    (t.delete fun r => decide (r.id = id)).find id' = if id' = id then none else t.find id' := by
  rw [Table.find_delete]
  cases hfind : t.find id' with
  | none => simp
  | some row =>
      have hrow := (Table.find_eq_some.mp hfind).2
      by_cases hid : id' = id
      · simp [hrow, hid]
      · simp [hrow, hid]

theorem deleteEndpoint_alike (h : SameView key db db') (id : Uuid) :
    AnsweredAlike key ((Statement.deleteEndpoint id).run db)
      ((Statement.deleteEndpoint id).run db') := by
  have hcount : db'.endpoints.rows.countP (fun r => decide (r.id = id)) =
      db.endpoints.rows.countP (fun r => decide (r.id = id)) := by
    rw [countP_id, countP_id, h.known]
  refine .inr ⟨_, _, _, rfl, congrArg (fun n => Except.ok (n, _)) hcount, ?_, ?_, h.grants,
    h.present⟩
  · have hown : ∀ db : Database, Database.endpointsOf
        { db with endpoints := db.endpoints.delete fun r => decide (r.id = id) } key =
          (db.endpointsOf key).filter fun r => !decide (r.id = id) := by
      intro db
      exact List.filter_comm ..
    rw [hown, hown, h.endpoints]
  · intro id'
    simp only [find_delete_id]
    split
    · rfl
    · exact h.known id'

theorem insertAudit_alike (h : SameView key db db') {row : AuditLog}
    (hkey : row.apiKeyId = some key) (hnew : db.auditLogs.find row.id = none)
    (hnew' : db'.auditLogs.find row.id = none) :
    AnsweredAlike key ((Statement.insertAudit row).run db)
      ((Statement.insertAudit row).run db') := by
  have hrefers : ∀ db : Database, db.refers row.apiKeyId = (db.apiKeys.find key).isSome := by
    intro db
    rw [hkey]
    rfl
  obtain ⟨t, ht⟩ := Table.insert_of_find_none hnew
  obtain ⟨t', ht'⟩ := Table.insert_of_find_none hnew'
  simp only [Statement.run, insertRow, hrefers, h.present, ht, ht']
  cases (db.apiKeys.find key).isSome with
  | false => exact .inl ⟨_, rfl, rfl⟩
  | true => exact .inr ⟨row, _, _, rfl, rfl, h.endpoints, h.known, h.grants, h.present⟩

end View

theorem exec_alike {crates : Crates} {key : Uuid} {w w' : World} {s : Statement}
    (hreuses : reuses s w = false) (hreuses' : reuses s w' = false) (h : LooksAlike key w w')
    (hrun : AnsweredAlike key (s.run w.db) (s.run w'.db)) (e : Choice) :
    (exec crates (.db s) e w = none ∧ exec crates (.db s) e w' = none) ∨
      ∃ r w₁ r' w₁', exec crates (.db s) e w = some (r, w₁) ∧
        exec crates (.db s) e w' = some (r', w₁') ∧
        r = r' ∧ LooksAlike key w₁ w₁' := by
  simp only [exec, hreuses, hreuses', Bool.false_eq_true, if_false]
  cases e with
  | succeed =>
      simp only [execStatement]
      rcases hrun with ⟨err, hs, hs'⟩ | ⟨x, u, u', hs, hs', hview⟩
      · rw [hs, hs']
        exact .inr ⟨_, _, _, _, rfl, rfl, rfl, h⟩
      · rw [hs, hs']
        exact .inr ⟨_, _, _, _, rfl, rfl, rfl, hview, h.clock⟩
  | fail => exact .inr ⟨_, _, _, _, rfl, rfl, rfl, h⟩
  | _ => exact .inl ⟨rfl, rfl⟩

theorem viewing_mirrors (crates : Crates) (key : Uuid) :
    Mirrors (Viewing key) (LooksAlike key) (undisturbed key · ·) (exec crates) (exec crates) := by
  rintro c c' answers e w w' hpair h hfine hfine'
  cases hpair with
  | findEndpoint id =>
      cases e with
      | succeed => exact .inr ⟨_, _, _, _, rfl, rfl, .ok (h.view.sameFound id), h⟩
      | fail => exact .inr ⟨_, _, _, _, rfl, rfl, .error _, h⟩
      | _ => exact .inl ⟨rfl, rfl⟩
  | own hc =>
      cases c with
      | db s =>
          cases s with
          | endpointsOwnedBy owner =>
              obtain rfl := of_decide_eq_true hc
              refine exec_alike rfl rfl h (.inr ⟨_, _, _, rfl, ?_, h.view⟩) e
              exact congrArg (fun rows => Except.ok (rows, w'.db)) h.view.endpoints
          | grantsOf holder =>
              obtain rfl := of_decide_eq_true hc
              refine exec_alike rfl rfl h (.inr ⟨_, _, _, rfl, ?_, h.view⟩) e
              exact congrArg (fun rows => Except.ok (rows, w'.db)) h.view.grants
          | insertEndpoint row =>
              simp only [undisturbed, Bool.and_eq_true, Bool.not_eq_true'] at hfine hfine'
              have hreuses : reuses (.insertEndpoint row) w = false := hfine.1
              have hreuses' : reuses (.insertEndpoint row) w' = false := hfine'.1
              exact exec_alike hreuses hreuses' h
                (insertEndpoint_alike h.view (of_decide_eq_true hc) hfine.2 hfine'.2) e
          | updateEndpoint id ch =>
              refine exec_alike rfl rfl h
                (updateEndpoint_alike h.view id (of_decide_eq_true hc) ?_) e
              intro row hrow
              simpa [undisturbed, hrow] using hfine
          | deleteEndpoint id => exact exec_alike rfl rfl h (deleteEndpoint_alike h.view id) e
          | insertAudit row =>
              refine exec_alike rfl rfl h (insertAudit_alike h.view (of_decide_eq_true hc) ?_ ?_) e
              · simpa [undisturbed] using hfine
              · simpa [undisturbed] using hfine'
          | _ => cases hc
      | now =>
          cases e with
          | time t =>
              simp only [exec, h.clock]
              split
              · exact .inr ⟨_, _, _, _, rfl, rfl, rfl, h.view, rfl⟩
              · exact .inl ⟨rfl, rfl⟩
          | _ => exact .inl ⟨rfl, rfl⟩
      | newUuid =>
          cases e with
          | uuid id => exact .inr ⟨_, _, _, _, rfl, rfl, rfl, h⟩
          | _ => exact .inl ⟨rfl, rfl⟩
      | random length =>
          cases e with
          | bytes bytes =>
              simp only [exec]
              split
              · exact .inr ⟨_, _, _, _, rfl, rfl, rfl, h⟩
              · exact .inl ⟨rfl, rfl⟩
          | _ => exact .inl ⟨rfl, rfl⟩
      | evict id =>
          cases e with
          | succeed => exact .inr ⟨_, _, _, _, rfl, rfl, rfl, h.view, h.clock⟩
          | _ => exact .inl ⟨rfl, rfl⟩
      | _ => cases hc

section Handlers
variable (app : AppState) (caller : Caller)

/-- A request of the key and itself. -/
abbrev Alone {B : Type} (key : Uuid) (h : Handler B) : Prop := Same (Viewing key) h h

/-- A guard that refuses ends the handler. -/
theorem refused {key : Uuid} {A B : Type} {x : Except AppError A} {f : A → Handler B} {e : AppError}
    (h : x = .error e) : Alone key (attempt x >>= f) := by
  rw [h]
  exact Twin.value rfl

theorem requireMaster_refused (hkey : caller.key.isMaster = false) :
    requireMaster caller.key = .error (.forbidden "Only the Master key can manage API keys") := by
  simp [requireMaster, hkey]

theorem createAuditLog_alone (action : String) (target details : Option String) :
    Alone caller.key.id (createAuditLog (auditEntry app caller action target details)) :=
  ask_self (.own rfl) fun _ => ask_self (.own rfl) fun _ =>
    statement_self (.own (decide_eq_true rfl)) fun _ => .ok ()

theorem entry_alone {A : Type} (action : String) (target details : Option String) (a : A) :
    Alone caller.key.id
      (createAuditLog (auditEntry app caller action target details) >>= fun _ => pure a :
        Handler A) :=
  Same.then (createAuditLog_alone app caller action target details) fun _ => .ok a

theorem validateGroupAccess_alone (vaultGroups : String) :
    Alone caller.key.id (validateGroupAccess caller.key vaultGroups) := by
  unfold validateGroupAccess
  split
  · exact .ok ()
  · refine Same.then ?_ fun _ => .attempt _
    exact statement_self (.own (decide_eq_true rfl)) fun _ => .ok _

theorem createEndpoint_alone (payload : CreateEndpointPayload) :
    Alone caller.key.id (createEndpoint app caller payload) := by
  refine Same.attempt_bind fun _ _ => Same.attempt_bind fun _ _ => ?_
  refine Same.then (validateGroupAccess_alone caller _) fun _ => Same.attempt_bind fun _ _ => ?_
  refine Same.attempt_bind fun _ _ => Same.attempt_bind fun _ _ => ask_self (.own rfl) fun now => ?_
  refine ask_self (.own rfl) fun id => ask_self (.own rfl) fun token => ?_
  exact statement_self (.own (decide_eq_true rfl)) fun created => entry_alone app caller _ _ _ _

theorem listEndpoints_alone (hkey : caller.key.isMaster = false) :
    Alone caller.key.id (listEndpoints caller) := by
  unfold listEndpoints
  rw [if_neg (by simp [hkey])]
  exact statement_self (.own (decide_eq_true rfl)) fun _ => .ok _

/-- An endpoint that is looked up is the caller's in both states, or refused in both. -/
theorem findEndpoint_bind {B : Type} {id : Uuid} {f : Endpoint → Handler B}
    (hkey : caller.key.isMaster = false) (hrest : ∀ existing, Alone caller.key.id (f existing)) :
    Alone caller.key.id
      (statement (.findEndpoint id) >>= fun found => attempt (orNotFound found) >>=
      fun existing => attempt (requireManage caller.key existing) >>= fun _ => f existing :
      Handler B) := by
  refine statement_twin (.findEndpoint id) ?_
  rintro found found' (rfl | ⟨row, row', rfl, rfl, hforeign, hforeign'⟩)
  · exact Same.attempt_bind fun existing _ => Same.attempt_bind fun _ _ => hrest existing
  · have hrefused : ∀ ep : Endpoint, ep.ownerKeyId ≠ some caller.key.id →
        requireManage caller.key ep =
        .error (.forbidden "You do not have management rights over this endpoint") := by
      intro ep hep
      simp [requireManage, mayManage, hkey, hep]
    change Same _ (attempt (requireManage caller.key row) >>= fun _ => f row)
      (attempt (requireManage caller.key row') >>= fun _ => f row')
    rw [hrefused row hforeign, hrefused row' hforeign']
    exact Twin.value rfl

theorem checkGroups_alone (vaultGroups : Option String) :
    Alone caller.key.id (checkGroups caller.key vaultGroups) := by
  cases vaultGroups with
  | none => exact .ok ()
  | some raw => exact Same.attempt_bind fun _ _ => validateGroupAccess_alone caller raw

theorem updateEndpoint_alone (hkey : caller.key.isMaster = false) (id : Uuid)
    (payload : UpdateEndpointPayload) :
    Alone caller.key.id (updateEndpoint app caller id payload) := by
  refine findEndpoint_bind caller hkey fun existing => Same.attempt_bind fun _ _ => ?_
  refine Same.then (checkGroups_alone caller _) fun _ => Same.attempt_bind fun _ _ => ?_
  refine Same.attempt_bind fun _ _ => Same.attempt_bind fun _ _ => ask_self (.own rfl) fun now => ?_
  exact statement_self (.own rfl) fun updated => entry_alone app caller _ _ _ _

theorem deleteEndpoint_alone (hkey : caller.key.isMaster = false) (id : Uuid) :
    Alone caller.key.id (deleteEndpoint app caller id) := by
  refine findEndpoint_bind caller hkey fun existing => statement_self (.own rfl) fun removed => ?_
  refine Same.attempt_bind fun _ _ => ask_self (.own rfl) fun _ => ?_
  exact createAuditLog_alone app caller _ _ _

theorem answer_alone {A : Type} {key : Uuid} {wrap : A → Response} {h : Handler A}
    (hh : Alone key h) :
    Alone key (answer wrap h) := Same.then hh fun _ => .ok _

theorem handle_alone (hkey : caller.key.isMaster = false) (r : ApiRequest) :
    Alone caller.key.id (handle app caller r) := by
  have hmaster := requireMaster_refused caller hkey
  cases r with
  | getMe => exact .ok _
  | createApiKey payload => exact Same.attempt_bind fun p _ => answer_alone (refused hmaster)
  | listApiKeys => exact answer_alone (refused hmaster)
  | updateApiKey id payload | deleteApiKey id payload | grantKeyGroup id payload =>
      exact Same.attempt_bind fun id _ => Same.attempt_bind fun p _ =>
        answer_alone (refused hmaster)
  | rotateApiKey id | rotateSigningSecret id | revokeKeyGroup id =>
      exact Same.attempt_bind fun id _ => answer_alone (refused hmaster)
  | createEndpoint payload =>
      exact Same.attempt_bind fun p _ => answer_alone (createEndpoint_alone app caller p)
  | listEndpoints => exact answer_alone (listEndpoints_alone caller hkey)
  | updateEndpoint id payload =>
      exact Same.attempt_bind fun id _ => Same.attempt_bind fun p _ =>
        answer_alone (updateEndpoint_alone app caller hkey id p)
  | deleteEndpoint id =>
      exact Same.attempt_bind fun id _ => answer_alone (deleteEndpoint_alone app caller hkey id)
  | reassignEndpointOwner id payload =>
      refine Same.attempt_bind fun id _ => Same.attempt_bind fun p _ => answer_alone ?_
      exact refused (if_neg (by simp [hkey]))
  | listAuditLogs query =>
      exact Same.attempt_bind fun q _ => answer_alone (refused (if_neg (by simp [hkey])))
  | listVaultGroups => exact answer_alone (refused hmaster)
  | listKeyGroups id =>
      refine Same.attempt_bind fun id _ => answer_alone ?_
      refine Same.attempt_bind fun _ hown => statement_same (.own ?_)
      by_contra hne
      have hother : caller.key.id ≠ id := fun heq => hne (decide_eq_true heq.symm)
      simp [hkey, hother] at hown

end Handlers

section Runs
variable {I J : Type} [DecidableEq I] [DecidableEq J]

/-- The same request of a key that is not the Master in two services, each with whatever
else is under way. If its calls meet states that look alike to the key, under the same
choices and undisturbed, it has ended alike in both. To look alike, the states must have the
same endpoints and grants of the key, the same identifiers of endpoints, the key's row or
none, and the same time. -/
theorem daughter_sees_only_its_own {app : AppState} {caller : Caller} {r : ApiRequest}
    (hkey : caller.key.isMaster = false) {tasks : I → Task} {tasks' : J → Task} {i : I} {j : J}
    (hi : tasks i = .request caller r) (hj : tasks' j = .request caller r) {w w' : World}
    {events : List (Event I Choice Change)} {events' : List (Event J Choice Change)}
    {q : Process I} {q' : Process J}
    (hrun : Interleaving.run (system app.crates) (process app tasks w) events = some q)
    (hrun' : Interleaving.run (system app.crates) (process app tasks' w') events' = some q')
    (halike : List.Forall₂ (Comparable (LooksAlike caller.key.id) (undisturbed caller.key.id · ·))
      (meetings (system app.crates) i (process app tasks w) events)
      (meetings (system app.crates) j (process app tasks' w') events')) :
    q'.outcome j = q.outcome i := by
  have htwin : Twin (Viewing caller.key.id) Eq ((process app tasks w).threads i)
      ((process app tasks' w').threads j) := by
    change Twin _ _ ((tasks i).program app) ((tasks' j).program app)
    rw [hi, hj]
    refine Twin.bind (handle_alone app caller hkey r) ?_
    rintro outcome _ rfl
    exact .value rfl
  have hend := htwin.leads (viewing_mirrors app.crates caller.key.id) halike (leads_meetings i hrun)
    (leads_meetings j hrun')
  unfold Pool.outcome
  generalize q.threads i = prog at hend ⊢
  generalize q'.threads j = prog' at hend ⊢
  cases hend with
  | value heq => rw [heq]
  | call => rfl

end Runs

def foreignEndpoint (name groups : String) : Endpoint where
  id := 5
  ownerKeyId := none
  name := name
  description := none
  tokenSecret := name
  vaultGroups := groups
  ttlSeconds := 60
  maxAgeSeconds := 0
  boundIps := none
  filterRfc1918 := true
  filterBogons := true
  filterLoopback := true
  lastSyncedAt := none
  createdAt := 0
  updatedAt := 0

def foreignWorld (name groups : String) : World :=
  { sampleWorld with
    db := { sampleWorld.db with
      endpoints := ⟨[foreignEndpoint name groups], List.nodup_singleton _⟩ } }

def foreignDeletion (_ : Unit) : Task := .request sampleCaller (.deleteEndpoint (.ok 5))

def foreignProcess (name groups : String) : Process Unit :=
  process sampleApp foreignDeletion (foreignWorld name groups)

theorem foreign_looksAlike :
    LooksAlike 7 (foreignWorld "dmz" "lan") (foreignWorld "office" "wifi") where
  view :=
    { endpoints := by decide
      known := by
        intro id
        by_cases hid : id = 5
        · rw [hid]
          decide
        · have hnone : ∀ name groups, (foreignWorld name groups).db.endpoints.find id = none := by
            intro name groups
            refine Table.find_eq_none.mpr ?_
            intro r hr
            obtain rfl := List.mem_singleton.mp hr
            exact Ne.symm hid
          rw [hnone, hnone]
      grants := rfl
      present := rfl }
  clock := rfl

/-- Deleting an endpoint of somebody else is refused alike, whatever it is. -/
theorem daughter_sees_only_its_own_foreign :
    ∃ q q', Interleaving.run (system sampleApp.crates)
      (foreignProcess "dmz" "lan") [.act () .succeed] =
        some q ∧
      Interleaving.run (system sampleApp.crates) (foreignProcess "office" "wifi")
        [.act () .succeed] =
        some q' ∧
      q'.outcome () = q.outcome () ∧
      (q.outcome ()).map (Option.map Except.isOk) = some (some false) := by
  have hends : ((Interleaving.run (system sampleApp.crates) (foreignProcess "dmz" "lan")
      [.act () .succeed]).map fun q => (q.outcome ()).map (Option.map Except.isOk)) =
        some (some (some false)) := by
    decide +kernel
  have hends' : (Interleaving.run (system sampleApp.crates) (foreignProcess "office" "wifi")
      [.act () .succeed]).isSome = true := by
    decide +kernel
  obtain ⟨q, hrun, houtcome⟩ := Option.map_eq_some_iff.mp hends
  obtain ⟨q', hrun'⟩ := Option.isSome_iff_exists.mp hends'
  refine ⟨q, q', hrun, hrun', ?_, houtcome⟩
  have htask : foreignDeletion () = .request sampleCaller (.deleteEndpoint (.ok 5)) := rfl
  refine daughter_sees_only_its_own rfl htask htask hrun hrun' ?_
  exact .cons ⟨rfl, foreign_looksAlike, rfl, rfl⟩ .nil

end SimplyIpExporter.DaughterViews
