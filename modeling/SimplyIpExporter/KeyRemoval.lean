import SimplyIpExporter.Bootstrap

/-!
# Deleting a key

The request ends with its transaction: before it nothing is written, after it nothing
is done. So a step of the request either leaves the database alone or removes the key
and ends the request with success. The transaction is also given statement by
statement, each of which may fail; whichever does, the outcome is one the single call
has.
-/
namespace SimplyIpExporter.KeyRemoval
open Entities KeyedTables Storage Services Programs Interleaving EndpointHandlers KeyHandlers Routes
open WriteRules Bootstrap

/-- The points at which the transaction may fail. -/
inductive FailurePoint where
  | opening
  | ownedEndpoints
  | targetKey
  | reassignment
  | deletion
  | audit
  | commit
  deriving DecidableEq, Repr

/-- A statement that is sent only when it is needed. -/
def passes (failing : FailurePoint → Bool) (stage : FailurePoint) (needed : Bool) :
    Except AppError Unit :=
  if needed && failing stage then .error (.dbError .exec) else .ok ()

/-- The statements on the working copy, up to its commit. -/
def statements (d : KeyDeletion) (failing : FailurePoint → Bool) (auditId : Uuid)
    (auditTime : NaiveDateTime) (db : Database) : Except AppError Database := do
  passes failing .opening true
  passes failing .ownedEndpoints true
  let owned := db.endpointsOf d.id
  passes failing .targetKey d.reassignTo.isSome
  let target ← reassignTarget d owned db
  passes failing .reassignment target.isSome
  let moved := d.moved target db
  passes failing .deletion true
  if (moved.apiKeys.find d.id).isNone then .error .notFound
  else do
    let entry := d.entry (reassignedDetails owned.length target)
    passes failing .audit true
    match (Statement.insertAudit (entry.row auditId auditTime)).run (moved.removeKey d.id) with
    | .error e => .error (.dbError e)
    | .ok (_, final) => do
      passes failing .commit true
      pure final

/-- What is not committed is undone. -/
def transaction (d : KeyDeletion) (failing : FailurePoint → Bool) (auditId : Uuid)
    (auditTime : NaiveDateTime) (db : Database) : Except AppError Unit × Database :=
  match statements d failing auditId auditTime db with
  | .error e => (.error e, db)
  | .ok final => (.ok (), final)

section Failures
variable {d : KeyDeletion} {failing : FailurePoint → Bool} {auditId : Uuid}
  {auditTime : NaiveDateTime}
  {db : Database}

theorem passes_bind {A : Type} {stage : FailurePoint} {needed : Bool} {x y : Except AppError A}
    (h : x = .error (.dbError .exec) ∨ x = y) :
    (passes failing stage needed >>= fun _ => x) = .error (.dbError .exec) ∨
      (passes failing stage needed >>= fun _ => x) = y := by
  unfold passes
  split
  · exact .inl rfl
  · exact h

/-- Failures of single statements bring nothing that the call as a whole has not. -/
theorem statements_eq : statements d failing auditId auditTime db = .error (.dbError .exec) ∨
    statements d failing auditId auditTime db = d.run auditId auditTime db := by
  unfold statements KeyDeletion.run Database.removeRecorded
  dsimp only
  refine passes_bind (passes_bind (passes_bind ?_))
  cases reassignTarget d (db.endpointsOf d.id) db with
  | error e => exact .inr rfl
  | ok target =>
      refine passes_bind (passes_bind ?_)
      dsimp only
      split
      · exact .inr rfl
      · refine passes_bind ?_
        generalize (Statement.insertAudit _).run _ = inserted
        cases inserted with
        | error e => exact .inr rfl
        | ok result => exact passes_bind (.inr rfl)

theorem transaction_exec {crates : Crates} {w : World} (htime : w.clock ≤ auditTime) :
    ∃ e w', exec crates (.deleteKey d) e w =
        some ((transaction d failing auditId auditTime w.db).1, w') ∧
      w'.db = (transaction d failing auditId auditTime w.db).2 := by
  unfold transaction
  have hcases : statements d failing auditId auditTime w.db = .error (.dbError .exec) ∨
      statements d failing auditId auditTime w.db = d.run auditId auditTime w.db := statements_eq
  rcases hcases with hfail | hrun
  · rw [hfail]
    exact ⟨.fail, w, rfl, rfl⟩
  · rw [hrun]
    refine ⟨.audited auditId auditTime, ?_⟩
    simp only [exec, if_pos htime]
    cases d.run auditId auditTime w.db with
    | error e => exact ⟨_, rfl, rfl⟩
    | ok final => exact ⟨_, rfl, rfl⟩

end Failures

/-- An entry of the trail once its key is gone. -/
def unsigned (id : Uuid) (row : AuditLog) : AuditLog :=
  if row.apiKeyId = some id then { row with apiKeyId := none } else row

/-- The key and its grants are gone, its endpoints passed on, its entries of the trail
kept without it, and the deletion is on the trail. -/
structure Removed (caller : ApiKey) (id : Uuid) (reassignTo : Option Uuid) (db db' : Database) :
    Prop where
  present : (db.apiKeys.find id).isSome = true
  keys : db'.apiKeys.rows = db.apiKeys.rows.filter fun row => !decide (row.id = id)
  grants : db'.grants.rows = db.grants.rows.filter fun row => !decide (row.apiKeyId = id)
  endpoints : ∃ now, db'.endpoints.rows = db.endpoints.rows.map (passedOn id reassignTo now)
  owners : ∀ row ∈ db.endpoints.rows, row.ownerKeyId = some id →
    ∃ newOwner, reassignTo = some newOwner ∧ (db'.apiKeys.find newOwner).isSome = true
  audits : ∃ entry : AuditLog, entry.action = "KEY_DELETE" ∧ entry.apiKeyId = some caller.id ∧
    (∃ name, entry.targetResource = some (describeResource "api_key" id name)) ∧
    db'.auditLogs.rows = db.auditLogs.rows.map (unsigned id) ++ [entry]

theorem removed_of_run {app : AppState} {caller : Caller} {d : KeyDeletion} {name : String}
    {auditId : Uuid} {auditTime : NaiveDateTime} {db db' : Database}
    (hother : d.reassignTo ≠ some d.id)
    (hentry : d.entry =
      auditEntry app caller "KEY_DELETE" (some (describeResource "api_key" d.id name)))
    (h : d.run auditId auditTime db = .ok db') : Removed caller.key d.id d.reassignTo db db' := by
  have hendpoints := KeyDeletion.endpoints_eq hother h
  have howners : ∀ row ∈ db.endpoints.rows, row.ownerKeyId = some d.id →
      ∃ t, d.reassignTo = some t.id ∧ db.apiKeys.find t.id = some t :=
    fun row hrow howner => KeyDeletion.newOwner h hrow howner
  obtain ⟨target, details, audits, -, hpresent, haudits, rfl⟩ := KeyDeletion.run_ok h
  -- only endpoints are moved before the key is removed
  have hmoved : (d.moved target db).apiKeys = db.apiKeys ∧ (d.moved target db).grants = db.grants ∧
      (d.moved target db).auditLogs = db.auditLogs := by
    cases target <;> exact ⟨rfl, rfl, rfl⟩
  obtain ⟨hkeys, hgrants, hlogs⟩ := hmoved
  refine ⟨hpresent, ?_, ?_, ⟨d.now, hendpoints⟩, ?_, ?_⟩
  · simp only [Database.removeKey, Table.delete, hkeys]
  · simp only [Database.removeKey, Table.delete, hgrants]
  · intro row hrow howner
    obtain ⟨t, hto, hfind⟩ := howners row hrow howner
    have hne : t.id ≠ d.id := fun heq => hother (heq ▸ hto)
    refine ⟨t.id, hto, ?_⟩
    simp [Database.removeKey, Table.find_delete, hkeys, hfind, hne]
  · refine ⟨(d.entry details).row auditId auditTime, ?_, ?_, ⟨name, ?_⟩, ?_⟩
    · rw [hentry]
      rfl
    · rw [hentry]
      rfl
    · rw [hentry]
      rfl
    · have hrows : ((d.moved target db).removeKey d.id).auditLogs.rows =
          db.auditLogs.rows.map (unsigned d.id) := by
        simp only [Database.removeKey, Table.change, hlogs, decide_eq_true_eq]
        rfl
      rw [(Table.rows_insert haudits).1, hrows]

/-- Reads, then the one transaction, then nothing. -/
def removal (app : AppState) (caller : Caller) (id : Uuid) (reassignTo : Option Uuid) :
    Policy Answer (Option (Except AppError Unit)) where
  permits m c := m = none ∧ match c with
    | .db (.findKey _) | .now => True
    | .deleteKey d => d.id = id ∧ d.reassignTo = reassignTo ∧ reassignTo ≠ some id ∧
        ∃ name, d.entry =
          auditEntry app caller "KEY_DELETE" (some (describeResource "api_key" id name))
    | _ => False
  moves m c r m' :=
    match c, r with
    | .deleteKey _, r => m' = some r
    | .db (.findKey k), .ok (some row) => m' = m ∧ row.id = k
    | _, _ => m' = m

/-- The request ends as its transaction did. -/
def EndsAlike {A : Type} (m : Option (Except AppError Unit)) : Except AppError A → Prop
  | .ok _ => m = some (.ok ())
  | .error _ => m ≠ some (.ok ())

/-- Where a deletion stands: its transaction has removed the key, or nothing is changed. -/
def Stands (caller : ApiKey) (id : Uuid) (reassignTo : Option Uuid) (before : Database)
    (m : Option (Except AppError Unit)) (db : Database) : Prop :=
  m = some (.ok ()) ∧ Removed caller id reassignTo before db ∨ m ≠ some (.ok ()) ∧ db = before

section Request
variable {app : AppState} {caller : Caller} {id : Uuid}

theorem deleteApiKey_follows (query : DeleteKeyQuery) :
    Follows (removal app caller id query.reassignTo) EndsAlike (deleteApiKey app caller id query)
      none := by
  refine .attempt_bind (fun _ _ => nofun) fun _ _ => ?_
  refine follows_statement_bind ⟨rfl, trivial⟩ ?_ ?_
  · rintro e m' rfl
    exact nofun
  · intro found m₁ hfound
    cases found with
    | none =>
        cases hfound
        exact .attempt_bind (fun _ _ => nofun) fun _ habsent => nomatch habsent
    | some existing =>
        obtain ⟨rfl, rfl⟩ := hfound
        refine .attempt_bind (fun _ _ => nofun) fun existing' hexisting => ?_
        cases hexisting
        refine .attempt_bind (fun _ _ => nofun) fun _ _ =>
          .attempt_bind (fun _ _ => nofun) fun _ hother => ?_
        refine .ask_bind ⟨rfl, trivial⟩ ?_
        rintro now m₂ rfl
        refine .ask_bind ⟨rfl, rfl, rfl, ?_, existing.name, rfl⟩ ?_
        · intro hself
          rw [if_pos hself] at hother
          cases hother
        · rintro outcome m₃ rfl
          cases outcome with
          | error e => exact .pure nofun
          | ok _ => exact .pure rfl

theorem exec_removal {reassignTo : Option Uuid} {m : Option (Except AppError Unit)} {c : Call}
    {e : Choice} {s s' : World} {r : Answer c}
    (hpermits : (removal app caller id reassignTo).permits m c)
    (hexec : exec app.crates c e s = some (r, s')) :
    ∃ m', (removal app caller id reassignTo).moves m c r m' ∧
      Stands caller.key id reassignTo s.db m' s'.db := by
  obtain ⟨rfl, hpermits⟩ := hpermits
  cases c with
  | db st =>
      cases st with
      | findKey k =>
          have hdb : s'.db = s.db := by
            cases r with
            | error err => rw [exec_db_error hexec]
            | ok found =>
                obtain ⟨db, hrun, -, rfl⟩ := exec_db_ok hexec
                cases hrun
                rfl
          refine ⟨none, ?_, .inr ⟨nofun, hdb⟩⟩
          cases r with
          | error err => rfl
          | ok found =>
              obtain ⟨db, hrun, -⟩ := exec_db_ok hexec
              cases hrun
              cases hfind : s.db.apiKeys.find k with
              | none => rfl
              | some row => exact ⟨rfl, (Table.find_eq_some.mp hfind).2⟩
      | _ => exact hpermits.elim
  | deleteKey d =>
      obtain ⟨rfl, rfl, hother, name, hentry⟩ := hpermits
      refine ⟨some r, rfl, ?_⟩
      obtain ⟨-, ⟨hdb, err, rfl⟩ | ⟨auditId, t, hrun, rfl⟩⟩ := exec_deleteKey hexec
      · exact .inr ⟨nofun, hdb⟩
      · exact .inl ⟨rfl, removed_of_run hother hentry hrun⟩
  | now => exact ⟨none, rfl, .inr ⟨nofun, (exec_not_storing rfl hexec).1⟩⟩
  | _ => exact hpermits.elim

/-- Executed on its own: success and the key is removed, or an error and nothing is changed. -/
theorem deleteApiKey_run {query : DeleteKeyQuery} {choices : List Choice} {s s' : World}
    {result : Except AppError Unit}
    (h : Programs.run (exec app.crates) (deleteApiKey app caller id query) choices s =
      some (result, s')) :
    (result = .ok () ∧ Removed caller.key id query.reassignTo s.db s'.db) ∨
      ((∃ e, result = .error e) ∧ s'.db = s.db) := by
  have hstep : ∀ m c e (s₁ : World) (r : Answer c) s₂,
      Stands caller.key id query.reassignTo s.db m s₁.db →
      (removal app caller id query.reassignTo).permits m c → exec app.crates c e s₁ = some (r, s₂) →
      ∃ m', (removal app caller id query.reassignTo).moves m c r m' ∧
        Stands caller.key id query.reassignTo s.db m' s₂.db := by
    intro m c e s₁ r s₂ hstands hpermits hexec
    have hdb : s₁.db = s.db := by
      rcases hstands with ⟨rfl, -⟩ | ⟨-, hdb⟩
      · exact absurd hpermits.1 nofun
      · exact hdb
    obtain ⟨m', hmoves, hstands'⟩ := exec_removal hpermits hexec
    rw [hdb] at hstands'
    exact ⟨m', hmoves, hstands'⟩
  obtain ⟨m, hagrees, hstands⟩ := (deleteApiKey_follows query).run hstep (.inr ⟨nofun, rfl⟩) h
  cases result with
  | ok _ =>
      rcases hstands with ⟨-, hremoved⟩ | ⟨hne, -⟩
      · exact .inl ⟨rfl, hremoved⟩
      · exact absurd hagrees hne
  | error e =>
      rcases hstands with ⟨hok, -⟩ | ⟨-, hdb⟩
      · exact absurd hok hagrees
      · exact .inr ⟨⟨e, rfl⟩, hdb⟩

end Request

/-- Deletions of keys are watched, everything else is let through. -/
def watching (app : AppState) : Task → Policy Answer (Option (Except AppError Unit))
  | .request caller (.deleteApiKey (.ok id) (.ok query)) => removal app caller id query.reassignTo
  | _ => ⟨fun _ _ => True, fun _ _ _ _ => True⟩

def accountedFor : Task → Option (Except AppError Unit) → Option (Except AppError Response) → Prop
  | .request _ (.deleteApiKey (.ok _) (.ok _)), m, outcome =>
      m = some (.ok ()) ∧ outcome = some (.ok .noContent) ∨
        m ≠ some (.ok ()) ∧ ∃ e, outcome = some (.error e)
  | _, _, _ => True

section Requests
variable {app : AppState}

theorem program_follows (t : Task) :
    Follows (watching app t) (accountedFor t) (t.program app) none := by
  unfold watching
  split
  · rename_i caller id query
    have hanswered : Follows (removal app caller id query.reassignTo)
        (fun m result => m = some (.ok ()) ∧ result = .ok .noContent ∨
          m ≠ some (.ok ()) ∧ ∃ e, result = .error e)
        (handle app caller (.deleteApiKey (.ok id) (.ok query))) none := by
      refine (deleteApiKey_follows query).except_bind ?_ ?_
      · intro m e hagrees
        exact .inr ⟨hagrees, e, rfl⟩
      · intro m _ hagrees
        exact .ok (.inl ⟨hagrees, rfl⟩)
    refine hanswered.bind fun m result hresult => .pure ?_
    rcases hresult with ⟨hok, rfl⟩ | ⟨hne, e, rfl⟩
    · exact .inl ⟨hok, rfl⟩
    · exact .inr ⟨hne, e, rfl⟩
  · rename_i hother
    have hfree : ∀ m outcome, accountedFor t m outcome := by
      intro m outcome
      unfold accountedFor
      split
      · exact (hother _ _ _ rfl).elim
      · trivial
    exact (Follows.of_permits_all (fun _ _ => trivial) _ none).mono fun m outcome _ =>
      hfree m outcome

theorem exec_watching {t : Task} {m : Option (Except AppError Unit)} {c : Call} {e : Choice}
    {s s' : World} {r : Answer c} (hpermits : (watching app t).permits m c)
    (hexec : exec app.crates c e s = some (r, s')) : ∃ m', (watching app t).moves m c r m' := by
  unfold watching at hpermits ⊢
  split at hpermits
  · obtain ⟨m', hmoves, -⟩ := exec_removal hpermits hexec
    exact ⟨m', hmoves⟩
  · exact ⟨none, trivial⟩

variable {I : Type} [DecidableEq I] {tasks : I → Task} {w : World}
  {events : List (Event I Choice Change)} {p q : Process I}

theorem run_follows (hrun : run (system app.crates) (process app tasks w) events = some p) :
    ∃ ms : I → Option (Except AppError Unit), ∀ i,
      Follows (watching app (tasks i)) (accountedFor (tasks i)) (p.threads i) (ms i) := by
  have hwatched := run_watched (fun i => watching app (tasks i)) (fun i => accountedFor (tasks i))
    (fun _ _ _ => True) (fun _ _ => True) ⟨fun i => program_follows (tasks i), trivial⟩ ?_
    (fun _ _ _ _ _ _ _ _ _ => trivial) hrun (fun _ _ _ _ _ _ => trivial)
  · obtain ⟨ms, h⟩ := hwatched
    exact ⟨ms, h.follows⟩
  · intro past p ms i e c next r s' _ _ _ _ hpermits hexec
    obtain ⟨m', hmoves⟩ := exec_watching hpermits hexec
    exact ⟨m', hmoves, trivial⟩

/-- A step of a deletion removes the key and ends the request with success, or changes
nothing and does not. -/
theorem step_deletion {i : I} {e : Choice} {caller : Caller} {id : Uuid} {query : DeleteKeyQuery}
    (hrun : run (system app.crates) (process app tasks w) events = some p)
    (hstep : step (system app.crates) p (.act i e) = some q)
    (htask : tasks i = .request caller (.deleteApiKey (.ok id) (.ok query))) :
    (Removed caller.key id query.reassignTo p.state.db q.state.db ∧
        q.outcome i = some (some (.ok .noContent))) ∨
      (q.state.db = p.state.db ∧ ∀ response, q.outcome i ≠ some (some (.ok response))) := by
  obtain ⟨ms, hfollows⟩ := run_follows hrun
  obtain ⟨c, next, r, hcall, hexec, hthreads⟩ := step_act hstep
  have hi := hfollows i
  rw [hcall, htask, follows_call] at hi
  obtain ⟨m', hmoves, hstands⟩ := exec_removal hi.1 hexec
  have hnext := hi.2 r m' hmoves
  have hthread : q.threads i = next r := by rw [hthreads, Function.update_self]
  cases hrest : next r with
  | pure outcome =>
      rw [hrest, follows_value] at hnext
      have houtcome : q.outcome i = some outcome := Pool.outcome_eq_some.mpr (hthread.trans hrest)
      rcases hstands with ⟨hok, hremoved⟩ | ⟨hne, hdb⟩
      · rcases hnext with ⟨-, rfl⟩ | ⟨hne, -⟩
        · exact .inl ⟨hremoved, houtcome⟩
        · exact absurd hok hne
      · rcases hnext with ⟨hok, -⟩ | ⟨-, err, rfl⟩
        · exact absurd hok hne
        · refine .inr ⟨hdb, ?_⟩
          intro response hresponse
          rw [houtcome] at hresponse
          cases hresponse
  | call c' next' =>
      -- after the transaction no call is permitted
      rw [hrest, follows_call] at hnext
      have hnone : m' = none := hnext.1.1
      rcases hstands with ⟨hok, -⟩ | ⟨-, hdb⟩
      · rw [hnone] at hok
        cases hok
      · refine .inr ⟨hdb, ?_⟩
        intro response hresponse
        have hended := hthread.symm.trans (Pool.outcome_eq_some.mp hresponse)
        rw [hrest] at hended
        cases hended

/-- An endpoint loses its owner only to a request that asks for it. -/
theorem step_owner {ev : Event I Choice Change}
    (hrun : run (system app.crates) (process app tasks w) events = some p)
    (hstep : step (system app.crates) p ev = some q) {row' : Endpoint}
    (hrow' : row' ∈ q.state.db.endpoints.rows) (hnone : row'.ownerKeyId = none) :
    (∃ row ∈ p.state.db.endpoints.rows, row.id = row'.id ∧ row.ownerKeyId = none) ∨
      ∃ i e, ev = .act i e ∧ orphaning (tasks i) = some row'.id := by
  cases ev with
  | world ch =>
      have hdb : q.state.db = p.state.db := by rw [env_eq_some (step_world hstep).1]
      rw [hdb] at hrow'
      exact .inl ⟨row', hrow', rfl, hnone⟩
  | act i e =>
      obtain ⟨c, next, r, hcall, hexec, -⟩ := step_act hstep
      have hupcoming : (p.threads i).upcoming = some c := by
        rw [hcall]
        rfl
      have hpermits := run_permits hrun hupcoming
      rcases exec_endpoints hpermits hexec row' hrow' with
        hold | ⟨row, hrow, ch, rfl, hchange⟩ | hinsert | ⟨row, -, owner, t, rfl⟩
      · exact .inl ⟨row', hold, rfl, hnone⟩
      · cases hset : ch.ownerKeyId with
        | none =>
            refine .inl ⟨row, hrow, rfl, ?_⟩
            simpa [EndpointChanges.apply, hset] using hnone
        | some owner =>
            have howner : owner = none := by simpa [EndpointChanges.apply, hset] using hnone
            rw [howner] at hset
            exact .inr ⟨i, e, rfl, hchange.2 hset⟩
      · exact absurd hnone hinsert.2
      · cases hnone

end Requests

/-- Deleting a key is atomic and orphans no endpoint. Whichever statement of the
transaction fails, the outcome is one that the call has. The request ends with success,
the key removed and its endpoints passed on, or with an error and nothing changed;
whatever else runs, this is also what a single step of it does. And an endpoint loses
its owner only at a step of a request that asks for it by name. -/
theorem key_deletion_atomic (app : AppState) :
    (∀ (d : KeyDeletion) (failing : FailurePoint → Bool) (auditId : Uuid)
      (auditTime : NaiveDateTime)
        (s : World), s.clock ≤ auditTime →
      ∃ choice s', exec app.crates (.deleteKey d) choice s =
          some ((transaction d failing auditId auditTime s.db).1, s') ∧
        s'.db = (transaction d failing auditId auditTime s.db).2) ∧
    (∀ (caller : Caller) (id : Uuid) (query : DeleteKeyQuery) (choices : List Choice) (s s' : World)
        (result : Except AppError Unit),
      Programs.run (exec app.crates) (deleteApiKey app caller id query) choices s =
        some (result, s') →
      (result = .ok () ∧ Removed caller.key id query.reassignTo s.db s'.db) ∨
        ((∃ e, result = .error e) ∧ s'.db = s.db)) ∧
    ∀ {I : Type} [DecidableEq I] (tasks : I → Task) (w : World) (events :
      List (Event I Choice Change))
        (ev : Event I Choice Change) (p q : Process I),
      run (system app.crates) (process app tasks w) events = some p →
      step (system app.crates) p ev = some q →
      (∀ i e caller id query, ev = .act i e →
        tasks i = .request caller (.deleteApiKey (.ok id) (.ok query)) →
        (Removed caller.key id query.reassignTo p.state.db q.state.db ∧
            q.outcome i = some (some (.ok .noContent))) ∨
          (q.state.db = p.state.db ∧ ∀ response, q.outcome i ≠ some (some (.ok response)))) ∧
      ∀ row' ∈ q.state.db.endpoints.rows, row'.ownerKeyId = none →
        (∃ row ∈ p.state.db.endpoints.rows, row.id = row'.id ∧ row.ownerKeyId = none) ∨
          ∃ i e, ev = .act i e ∧ orphaning (tasks i) = some row'.id := by
  refine ⟨fun d failing auditId auditTime s htime => transaction_exec htime,
    fun caller id query choices s s' result h => deleteApiKey_run h, ?_⟩
  intro I _ tasks w events ev p q hrun hstep
  refine ⟨?_, fun row' hrow' hnone => step_owner hrun hstep hrow' hnone⟩
  intro i e caller id query hev htask
  subst hev
  exact step_deletion hrun hstep htask

def ownedFeed : Endpoint where
  id := 5
  ownerKeyId := some 2
  name := "feed"
  description := none
  tokenSecret := "token"
  vaultGroups := "dmz"
  ttlSeconds := 60
  maxAgeSeconds := 0
  boundIps := none
  filterRfc1918 := false
  filterBogons := false
  filterLoopback := false
  lastSyncedAt := none
  createdAt := 0
  updatedAt := 0

def owningWorld : World :=
  { bootedWorld with
    db :=
      { apiKeys := ⟨[sampleMaster.key,
        { sampleMaster.key with id := 2, isMaster := false }], by decide⟩
        endpoints := ⟨[ownedFeed], by decide⟩
        grants := .empty
        auditLogs := .empty } }

def sampleDeletion : DeleteKeyQuery := ⟨some 1⟩

def removalTasks (_ : Unit) : Task :=
  .request sampleMaster (.deleteApiKey (.ok 2) (.ok sampleDeletion))

theorem key_deletion_atomic_passed_on :
    ∃ p q, run (system sampleApp.crates) (process sampleApp removalTasks owningWorld)
        [.act () .succeed, .act () (.time 1)] = some p ∧
      step (system sampleApp.crates) p (.act () (.audited 9 2)) = some q ∧
      q.state.db.endpoints.rows = [{ ownedFeed with ownerKeyId := some 1, updatedAt := 1 }] ∧
      Removed sampleMaster.key 2 (some 1) p.state.db q.state.db ∧
      ∃ s', Programs.run (exec sampleApp.crates)
        (deleteApiKey sampleApp sampleMaster 2 sampleDeletion)
          [.succeed, .time 1, .audited 9 2] owningWorld = some (.ok (), s') ∧
        Removed sampleMaster.key 2 (some 1) owningWorld.db s'.db := by
  have hpast : (run (system sampleApp.crates) (process sampleApp removalTasks owningWorld)
      [.act () .succeed, .act () (.time 1)]).map (fun p =>
        (step (system sampleApp.crates) p (.act () (.audited 9 2))).map fun q =>
          (q.state.db.endpoints.rows, q.state.db.apiKeys.rows.length,
            p.state.db.apiKeys.rows.length)) =
      some (some ([{ ownedFeed with ownerKeyId := some 1, updatedAt := 1 }], 1, 2)) := by
    decide +kernel
  obtain ⟨p, hrun, hp⟩ := Option.map_eq_some_iff.mp hpast
  obtain ⟨q, hstep, hq⟩ := Option.map_eq_some_iff.mp hp
  simp only [Prod.mk.injEq] at hq
  obtain ⟨hrows, hafter, hbefore⟩ := hq
  have halone : (Programs.run (exec sampleApp.crates)
      (deleteApiKey sampleApp sampleMaster 2 sampleDeletion)
      [.succeed, .time 1, .audited 9 2] owningWorld).map (·.1) = some (.ok ()) := by
    decide +kernel
  obtain ⟨⟨result, s'⟩, hends, hresult⟩ := Option.map_eq_some_iff.mp halone
  dsimp only at hresult
  subst hresult
  refine ⟨p, q, hrun, hstep, hrows, ?_, s', hends, ?_⟩
  · rcases ((key_deletion_atomic sampleApp).2.2 removalTasks owningWorld _ _ p q hrun hstep).1 () _
        sampleMaster 2 sampleDeletion rfl rfl with ⟨hremoved, -⟩ | ⟨hsame, -⟩
    · exact hremoved
    · rw [hsame, hbefore] at hafter
      cases hafter
  · rcases (key_deletion_atomic sampleApp).2.1 sampleMaster 2 sampleDeletion _ owningWorld
      s' _ hends with
      ⟨-, hremoved⟩ | ⟨⟨e, he⟩, -⟩
    · exact hremoved
    · cases he

end SimplyIpExporter.KeyRemoval
