import SimplyIpExporter.Bootstrap

/-!
# Granting one group many times

A grant is looked up first and inserted only when it is not there. Between the two
statements another request may have inserted it; the unique index then refuses the
second row, and the request fails. When every insertion still finds the pair free, all
requests answer with one and the same row.
-/
namespace SimplyIpExporter.GrantIdempotence
open Entities KeyedTables Storage Services Programs Interleaving EndpointHandlers KeyHandlers Routes
open Bootstrap

/-- The rows that the unique index is about. -/
def granted (key group : Uuid) (db : Database) : List VaultGroupPermission :=
  db.grants.rows.filter fun g => decide (g.apiKeyId = key ∧ g.vaultGroupId = group)

theorem grantFor_eq_head (key group : Uuid) (db : Database) :
    db.grantFor key group = (granted key group db).head? :=
  List.head?_filter.symm

def succeeds : Choice → Bool
  | .succeed => true
  | _ => false

/-- Nothing fails around the requests: statements are executed, drawn identifiers are
new, callers exist, and Vault lists the group. -/
def serves (group : Uuid) (db : Database) (e : Choice) : Call → Bool
  | .listGroups =>
      match e with
      | .groups (.ok groups) => groups.any fun g => decide (g.id = group)
      | _ => false
  | .db (.insertGrant row) => succeeds e && (db.grants.find row.id).isNone
  | .db (.insertAudit row) =>
      succeeds e && (db.refers row.apiKeyId && (db.auditLogs.find row.id).isNone)
  | .db _ => succeeds e
  | _ => true

def served {I : Type} (group : Uuid) (p : Process I) : Event I Choice Change → Bool
  | .act i e => (p.threads i).upcoming.all (serves group p.state.db e)
  | .world _ => true

/-- The pair that is inserted is free. -/
def free (db : Database) : Call → Bool
  | .db (.insertGrant row) => (db.grantFor row.apiKeyId row.vaultGroupId).isNone
  | _ => true

def uncontested {I : Type} (p : Process I) : Event I Choice Change → Bool
  | .act i _ => (p.threads i).upcoming.all (free p.state.db)
  | .world _ => true

/-- What a request has come to: the row it found or inserted, or a refused insertion,
after which nothing is called. -/
inductive GrantProgress where
  | looking
  | holding (row : VaultGroupPermission)
  | refused

def GrantProgress.found : Option VaultGroupPermission → GrantProgress
  | some row => .holding row
  | none => .looking

section Requests
variable (key group : Uuid)

def calls : Call → Prop
  | .db (.findKey id) => id = key
  | .db (.findGrantFor key' group') => key' = key ∧ group' = group
  | .db (.insertGrant row) => row.apiKeyId = key ∧ row.vaultGroupId = group
  | .db (.insertAudit _) | .now | .newUuid | .listGroups => True
  | _ => False

def moves (m : GrantProgress) : (c : Call) → Answer c → GrantProgress → Prop
  | .db (.findKey _), .ok found, m' => found.isSome = true ∧ m' = m
  | .db (.findGrantFor _ _), .ok found, m' => m' = .found found
  | .db (.insertGrant row), .ok row', m' => row' = row ∧ m' = .holding row
  | .db (.insertGrant _), .error _, m' => m' = .refused
  | .db (.insertAudit _), .ok _, m' => m' = m
  | .db _, _, _ => False
  | .listGroups, .ok groups, m' => (groups.any fun g => decide (g.id = group)) = true ∧ m' = m
  | .listGroups, .error _, _ => False
  | _, _, m' => m' = m

def granting : Policy Answer GrantProgress where
  permits m c := m ≠ .refused ∧ calls key group c
  moves := moves group

variable {key group}

theorem entry_succeeds (entry : AuditEntry) (row : VaultGroupPermission) :
    Follows (granting key group) (fun m result => result = .ok () ∧ m = .holding row)
      (createAuditLog entry) (.holding row) := by
  refine .ask_bind ⟨nofun, trivial⟩ ?_
  rintro id _ rfl
  refine .ask_bind ⟨nofun, trivial⟩ ?_
  rintro t _ rfl
  refine follows_statement_bind ⟨nofun, trivial⟩ nofun ?_
  rintro entered _ rfl
  exact .ok ⟨rfl, rfl⟩

/-- Vault lists the group that is asked for. -/
theorem currentGroups_follows {app : AppState} (hvault : app.vaultConfigured = true) :
    Follows (granting key group) (fun m result => m = .looking ∧ ∃ groups, result = .ok groups ∧
      (groups.any fun g : VaultGroup => decide (g.id = group)) = true)
        (currentGroups app) .looking := by
  unfold currentGroups
  rw [if_pos hvault]
  refine .attempt_bind nofun fun _ _ => .ask_bind ⟨nofun, trivial⟩ ?_
  intro reply m hmoves
  cases reply with
  | error e => exact hmoves.elim
  | ok groups => exact .pure ⟨hmoves.2, groups, rfl, hmoves.1⟩

/-- The handler comes to the row it holds, or fails when it was refused. -/
def Comes : GrantProgress → Except AppError VaultGroupPermission → Prop
  | .looking, _ => False
  | .holding row, result => result = .ok row
  | .refused, result => ∃ e, result = .error (.dbError e)

theorem grantKeyGroup_follows {app : AppState} (hvault : app.vaultConfigured = true)
    {caller : Caller} (hmaster : caller.key.isMaster = true) :
    Follows (granting key group) Comes (grantKeyGroup app caller key ⟨group⟩) .looking := by
  unfold grantKeyGroup requireMaster
  rw [if_pos hmaster]
  refine .attempt_bind nofun fun _ _ => follows_statement_bind ⟨nofun, rfl⟩ nofun ?_
  rintro found _ ⟨hfound, rfl⟩
  obtain ⟨target, rfl⟩ := Option.isSome_iff_exists.mp hfound
  refine .attempt_bind nofun ?_
  rintro _ ⟨⟩
  refine (currentGroups_follows hvault).except_bind ?_ ?_
  · rintro m e ⟨-, groups, hgroups, -⟩
    cases hgroups
  rintro m groups ⟨rfl, groups', hgroups, hlisted⟩
  cases hgroups
  -- The group that is found is the one that was asked for.
  obtain ⟨g, hg⟩ : ∃ g, groups.find? (fun g => decide (g.id = group)) = some g := by
    rw [← Option.isSome_iff_exists, List.find?_isSome]
    simpa using hlisted
  have hid : g.id = group := by simpa using List.find?_some hg
  rw [hg]
  refine .attempt_bind nofun ?_
  rintro _ ⟨⟩
  refine follows_statement_bind ⟨nofun, rfl, hid⟩ nofun ?_
  rintro existing _ rfl
  cases existing with
  | some grant => exact .ok rfl
  | none =>
      refine .ask_bind ⟨nofun, trivial⟩ ?_
      rintro now _ rfl
      refine .ask_bind ⟨nofun, trivial⟩ ?_
      rintro grantId _ rfl
      refine follows_statement_bind ⟨nofun, rfl, hid⟩ ?_ ?_
      · rintro e _ rfl
        exact ⟨e, rfl⟩
      rintro created _ ⟨rfl, rfl⟩
      refine (entry_succeeds _ _).except_bind ?_ ?_
      · rintro m e ⟨he, -⟩
        cases he
      · rintro m _ ⟨-, rfl⟩
        exact .ok rfl

def grantTask (caller : Caller) (key group : Uuid) : Task :=
  .request caller (.grantKeyGroup (.ok key) (.ok ⟨group⟩))

def Answers : GrantProgress → Option (Except AppError Response) → Prop
  | .looking, _ => False
  | .holding row, outcome => outcome = some (.ok (.grant row))
  | .refused, outcome => ∃ e, outcome = some (.error (.dbError e))

theorem grantTask_follows {app : AppState} (hvault : app.vaultConfigured = true) {caller : Caller}
    (hmaster : caller.key.isMaster = true) :
    Follows (granting key group) Answers ((grantTask caller key group).program app) .looking := by
  have hhandle : Follows (granting key group) (fun m result => Answers m (some result))
      (handle app caller (.grantKeyGroup (.ok key) (.ok ⟨group⟩))) .looking := by
    refine .attempt_bind nofun ?_
    rintro _ ⟨⟩
    refine .attempt_bind nofun ?_
    rintro _ ⟨⟩
    refine (grantKeyGroup_follows hvault hmaster).except_bind ?_ ?_
    · intro m e hcomes
      cases m with
      | looking => exact hcomes.elim
      | holding row => cases hcomes
      | refused =>
          obtain ⟨e', he⟩ := hcomes
          cases he
          exact ⟨e', rfl⟩
    · intro m row hcomes
      cases m with
      | looking => exact hcomes.elim
      | holding row' =>
          cases hcomes
          exact .ok rfl
      | refused =>
          obtain ⟨e', he⟩ := hcomes
          cases he
  exact hhandle.bind fun m result hresult => .pure hresult

end Requests

section Steps
variable {key group : Uuid} {crates : Crates} {e : Choice} {s s' : World}

/-- An insertion that nothing hinders but perhaps the pair. -/
theorem exec_insertGrant {row : VaultGroupPermission} {r : Answer (.db (.insertGrant row))}
    (hexec : exec crates (.db (.insertGrant row)) e s = some (r, s'))
    (hserves : serves group s.db e (.db (.insertGrant row)) = true)
    (hkey : (s.db.apiKeys.find row.apiKeyId).isSome = true) :
    if (s.db.grantFor row.apiKeyId row.vaultGroupId).isNone then
      r = .ok row ∧ s'.db.apiKeys = s.db.apiKeys ∧ s'.db.grants.rows = s.db.grants.rows ++ [row]
    else r = .error .constraint ∧ s' = s := by
  obtain ⟨hsucceeds, hnew⟩ := Bool.and_eq_true_iff.mp hserves
  obtain ⟨t, hinsert⟩ := Table.insert_of_find_none (Option.isNone_iff_eq_none.mp hnew)
  have hrefers : s.db.refers (some row.apiKeyId) = true := hkey
  cases e with
  | succeed =>
      split
      · rename_i hfree
        simp only [exec, reuses, execStatement, Statement.run, insertRow, hrefers, hfree, hinsert,
          Bool.and_true, Bool.false_eq_true, if_false] at hexec
        cases hexec
        exact ⟨rfl, rfl, (Table.rows_insert hinsert).1⟩
      · rename_i hfree
        simp only [exec, reuses, execStatement, Statement.run, insertRow, hfree,
          Bool.and_false, Bool.false_eq_true, if_false] at hexec
        cases hexec
        exact ⟨rfl, rfl⟩
  | _ => cases hsucceeds

theorem served_insertAudit {row : AuditLog} {r : Answer (.db (.insertAudit row))}
    (hexec : exec crates (.db (.insertAudit row)) e s = some (r, s'))
    (hserves : serves group s.db e (.db (.insertAudit row)) = true) :
    r = .ok row ∧ s'.db.apiKeys = s.db.apiKeys ∧ s'.db.grants = s.db.grants := by
  obtain ⟨hsucceeds, hfits⟩ := Bool.and_eq_true_iff.mp hserves
  obtain ⟨hrefers, hnew⟩ := Bool.and_eq_true_iff.mp hfits
  cases e with
  | succeed =>
      obtain ⟨rfl, t, rfl⟩ := exec_insertAudit hexec hrefers (Option.isNone_iff_eq_none.mp hnew)
      exact ⟨rfl, rfl, rfl⟩
  | _ => cases hsucceeds

end Steps

section Runs
variable {I : Type} {key group : Uuid} {start : Database} {strict : Prop}
  {ms : I → GrantProgress} {m' : GrantProgress} {crates : Crates} {c : Call} {e : Choice}
  {s s' : World} {i : I}

/-- Whoever holds a row holds the only one. -/
structure OneRow (key group : Uuid) (start : Database) (strict : Prop) (ms : I → GrantProgress)
    (s : World) : Prop where
  keys : s.db.apiKeys = start.apiKeys
  single : (granted key group s.db).length ≤ 1
  held : ∀ i row, ms i = .holding row → granted key group s.db = [row]
  passed : strict → ∀ i, ms i ≠ .refused

section Updates
variable [DecidableEq I]

/-- The grants stay, and one request comes to what is there. -/
theorem OneRow.update (h : OneRow key group start strict ms s)
    (hkeys : s'.db.apiKeys = s.db.apiKeys) (hgrants : s'.db.grants = s.db.grants)
    (hheld : ∀ row, m' = .holding row → granted key group s.db = [row])
    (hpassed : strict → m' ≠ .refused) :
    OneRow key group start strict (Function.update ms i m') s' := by
  have hsame : granted key group s'.db = granted key group s.db := by
    unfold granted
    rw [hgrants]
  refine ⟨hkeys.trans h.keys, hsame ▸ h.single, ?_, ?_⟩
  · rw [hsame]
    exact (Function.forall_update_iff ms fun _ m => ∀ row, m = .holding row →
      granted key group s.db = [row]).mpr ⟨hheld, fun j _ => h.held j⟩
  · intro hstrict
    exact (Function.forall_update_iff ms fun _ m => m ≠ .refused).mpr
      ⟨hpassed hstrict, fun j _ => h.passed hstrict j⟩

/-- The first row of the pair: nobody held one before. -/
theorem OneRow.insert {row : VaultGroupPermission} (h : OneRow key group start strict ms s)
    (hpair : row.apiKeyId = key ∧ row.vaultGroupId = group) (hfree : s.db.grantFor key group = none)
    (hkeys : s'.db.apiKeys = s.db.apiKeys) (hrows : s'.db.grants.rows = s.db.grants.rows ++ [row]) :
    OneRow key group start strict (Function.update ms i (.holding row)) s' := by
  have hnone : granted key group s.db = [] := by
    rw [grantFor_eq_head, List.head?_eq_none_iff] at hfree
    exact hfree
  have hone : granted key group s'.db = [row] := by
    unfold granted at hnone ⊢
    rw [hrows, List.filter_append, hnone]
    simp [hpair]
  refine ⟨hkeys.trans h.keys, by rw [hone]; rfl, ?_, ?_⟩
  · have hself : ∀ row', GrantProgress.holding row = .holding row' →
        granted key group s'.db = [row'] := by
      intro row' hrow'
      cases hrow'
      exact hone
    have hothers : ∀ j, j ≠ i → ∀ row', ms j = .holding row' →
        granted key group s'.db = [row'] := by
      intro j _ row' hj
      have hheld : granted key group s.db = [row'] := h.held j row' hj
      rw [hnone] at hheld
      cases hheld
    exact (Function.forall_update_iff ms fun _ m => ∀ row', m = .holding row' →
      granted key group s'.db = [row']).mpr ⟨hself, hothers⟩
  · intro hstrict
    exact (Function.forall_update_iff ms fun _ m => m ≠ .refused).mpr
      ⟨GrantProgress.noConfusion, fun j _ => h.passed hstrict j⟩

end Updates

/-- A lookup comes to the one row there is, if there is one. -/
theorem OneRow.found {row : VaultGroupPermission} (h : OneRow key group start strict ms s)
    (hrow : GrantProgress.found (s.db.grantFor key group) = .holding row) :
    granted key group s.db = [row] := by
  have hsingle : (granted key group s.db).length ≤ 1 := h.single
  rw [grantFor_eq_head] at hrow
  cases hrows : granted key group s.db with
  | nil =>
      rw [hrows] at hrow
      cases hrow
  | cons first rest =>
      rw [hrows] at hrow hsingle
      cases hrow
      rw [List.length_eq_zero_iff.mp (Nat.le_zero.mp (Nat.le_of_succ_le_succ hsingle))]

theorem exec_statement {st : Statement} {r : Answer (.db st)} {rows : st.Rows}
    (hread : st.run s.db = .ok (rows, s.db)) (hexec : exec crates (.db st) e s = some (r, s'))
    (hserves : succeeds e = true) : r = .ok rows ∧ s'.db = s.db := by
  have hfail : e ≠ .fail := by
    rintro rfl
    cases hserves
  have hr : r = .ok rows := by
    rw [exec_db_answer hexec hfail, hread]
    rfl
  subst hr
  obtain ⟨db, hrun, -, rfl⟩ := exec_db_ok hexec
  rw [hread] at hrun
  cases hrun
  exact ⟨rfl, rfl⟩

variable [DecidableEq I]

theorem OneRow.step {r : Answer c} (h : OneRow key group start strict ms s)
    (hkey : (start.apiKeys.find key).isSome = true)
    (hpermits : (granting key group).permits (ms i) c) (hserves : serves group s.db e c = true)
    (hfree : strict → free s.db c = true) (hexec : exec crates c e s = some (r, s')) :
    ∃ m', moves group (ms i) c r m' ∧
      OneRow key group start strict (Function.update ms i m') s' := by
  have hkept : s'.db = s.db → OneRow key group start strict (Function.update ms i (ms i)) s' := by
    intro hdb
    refine h.update (by rw [hdb]) (by rw [hdb]) (h.held i) fun _ => hpermits.1
  cases c with
  | db st =>
      cases st with
      | findKey id =>
          obtain ⟨rfl, hdb⟩ := exec_statement rfl hexec hserves
          refine ⟨ms i, ⟨?_, rfl⟩, hkept hdb⟩
          rw [h.keys, show id = key from hpermits.2]
          exact hkey
      | findGrantFor key' group' =>
          obtain ⟨rfl, hdb⟩ := exec_statement rfl hexec hserves
          obtain ⟨rfl, rfl⟩ : key' = key ∧ group' = group := hpermits.2
          refine ⟨_, rfl, h.update (by rw [hdb]) (by rw [hdb]) (fun row hrow => h.found hrow) ?_⟩
          intro _
          cases s.db.grantFor key' group' <;> exact GrantProgress.noConfusion
      | insertGrant row =>
          have hpair : row.apiKeyId = key ∧ row.vaultGroupId = group := hpermits.2
          have hcases := exec_insertGrant hexec hserves (by rw [h.keys, hpair.1]; exact hkey)
          split at hcases
          · rename_i hnone
            obtain ⟨rfl, hkeys, hrows⟩ := hcases
            rw [Option.isNone_iff_eq_none, hpair.1, hpair.2] at hnone
            exact ⟨.holding row, ⟨rfl, rfl⟩, h.insert hpair hnone hkeys hrows⟩
          · rename_i hsome
            obtain ⟨rfl, rfl⟩ := hcases
            refine ⟨.refused, rfl, h.update rfl rfl nofun ?_⟩
            intro hstrict
            exact absurd (hfree hstrict) hsome
      | insertAudit row =>
          obtain ⟨rfl, hkeys, hgrants⟩ := served_insertAudit hexec hserves
          exact ⟨ms i, rfl, h.update hkeys hgrants (h.held i) fun _ => hpermits.1⟩
      | _ => exact hpermits.2.elim
  | listGroups =>
      cases e with
      | groups reply =>
          cases reply with
          | error err => cases hserves
          | ok listed =>
              cases hexec
              exact ⟨ms i, ⟨hserves, rfl⟩, hkept rfl⟩
      | _ => cases hserves
  | now => exact ⟨ms i, rfl, hkept (exec_not_storing rfl hexec).1⟩
  | newUuid => exact ⟨ms i, rfl, hkept (exec_not_storing rfl hexec).1⟩
  | _ => exact hpermits.2.elim

theorem run_oneRow (strict : Prop) {app : AppState} {callers : I → Caller} {w : World}
    {events : List (Event I Choice Change)} {p : Process I} (hvault : app.vaultConfigured = true)
    (hmaster : ∀ i, (callers i).key.isMaster = true) (hkey : (w.db.apiKeys.find key).isSome = true)
    (hindex : (granted key group w.db).length ≤ 1)
    (hrun : Interleaving.run (system app.crates)
      (process app (fun i => grantTask (callers i) key group) w) events = some p)
    (hserved : Along (system app.crates) (fun p ev => served group p ev = true)
      (process app (fun i => grantTask (callers i) key group) w) events)
    (hfree : strict → Along (system app.crates) (fun p ev => uncontested p ev = true)
      (process app (fun i => grantTask (callers i) key group) w) events) :
    ∃ ms, Watched (fun _ => granting key group) (fun _ => Answers)
      (fun _ => OneRow key group w.db strict) events p ms := by
  have hinit : Watched (fun _ : I => granting key group) (fun _ => Answers)
      (fun _ : List (Event I Choice Change) => OneRow key group w.db strict) []
      (process app (fun i => grantTask (callers i) key group) w) (fun _ => .looking) :=
    ⟨fun i => grantTask_follows hvault (hmaster i), rfl, hindex,
      nofun, fun _ _ => GrantProgress.noConfusion⟩
  refine run_watched _ _ (fun _ => OneRow key group w.db strict)
    (fun p ev => served group p ev = true ∧ (strict → uncontested p ev = true)) hinit ?_ ?_ hrun ?_
  · intro past p ms i e c next r s' _ hms hc hcond hpermits hexec
    simp only [served, uncontested, hc, Program.upcoming, Option.all_some] at hcond
    exact hms.inv.step hkey hpermits hcond.1 hcond.2 hexec
  · intro past p ms ch s' _ hms _ henv
    rw [env_eq_some henv]
    exact ⟨hms.inv.keys, hms.inv.single, hms.inv.held, hms.inv.passed⟩
  · intro before ev rest q heq hbefore
    exact ⟨hserved before ev rest q heq hbefore, fun hstrict =>
      hfree hstrict before ev rest q heq hbefore⟩

/-- A refused request has failed. -/
theorem outcome_of_refused {prog : Program Answer (Option (Except AppError Response))}
    (h : Follows (granting key group) Answers prog .refused) :
    ∃ e, prog = .pure (some (.error (.dbError e))) := by
  cases prog with
  | pure outcome =>
      obtain ⟨e, rfl⟩ : Answers .refused outcome := follows_value.mp h
      exact ⟨e, rfl⟩
  | call c next => exact absurd rfl (h.permits_upcoming rfl).1

/-- The insertion of a pair that is taken fails, and the request with it. -/
theorem fails_of_contested {app : AppState} {past : List (Event I Choice Change)} {q q' : Process I}
    (hms : Watched (fun _ => granting key group) (fun _ => Answers)
      (fun _ => OneRow key group start strict) past q ms)
    (hkey : (start.apiKeys.find key).isSome = true) (hserved : served group q (.act i e) = true)
    (hcontested : uncontested q (.act i e) = false)
    (hstep : Interleaving.step (system app.crates) q (.act i e) = some q') :
    ∃ err, q'.outcome i = some (some (.error (.dbError err))) := by
  obtain ⟨c, next, r, hc, hexec, hthreads⟩ := step_act hstep
  simp only [served, uncontested, hc, Program.upcoming, Option.all_some] at hserved hcontested
  have hi : Follows (granting key group) Answers (.call c next) (ms i) := hc ▸ hms.follows i
  rw [follows_call] at hi
  cases c with
  | db st =>
      cases st with
      | insertGrant row =>
          have hpair : row.apiKeyId = key ∧ row.vaultGroupId = group := hi.1.2
          have hkept : (q.state.db.apiKeys.find row.apiKeyId).isSome = true := by
            rw [hms.inv.keys, hpair.1]
            exact hkey
          have hrefused :=
            exec_insertGrant (show exec app.crates _ e _ = _ from hexec) hserved hkept
          have htaken : ¬ (q.state.db.grantFor row.apiKeyId row.vaultGroupId).isNone = true :=
            Bool.eq_false_iff.mp hcontested
          rw [if_neg htaken] at hrefused
          obtain ⟨rfl, -⟩ := hrefused
          obtain ⟨err, hend⟩ := outcome_of_refused (hi.2 (.error .constraint) .refused rfl)
          refine ⟨err, ?_⟩
          rw [Pool.outcome_eq_some, hthreads, Function.update_self, hend]
      | _ => cases hcontested
  | _ => cases hcontested

end Runs

/-- Any number of requests of the Master for one key and one group, none of which meets a
failure around it. All answer with the same row, the only one there is, exactly when each
insertion finds the pair still free. -/
theorem granting_idempotent_iff {I : Type} [DecidableEq I] [Nonempty I] {app : AppState}
    {callers : I → Caller} {key group : Uuid} {w : World} {events : List (Event I Choice Change)}
    {p : Process I} (hvault : app.vaultConfigured = true)
    (hmaster : ∀ i, (callers i).key.isMaster = true) (hkey : (w.db.apiKeys.find key).isSome = true)
    (hindex : (granted key group w.db).length ≤ 1)
    (hrun : Interleaving.run (system app.crates)
      (process app (fun i => grantTask (callers i) key group) w) events = some p)
    (hserved : Along (system app.crates) (fun p ev => served group p ev = true)
      (process app (fun i => grantTask (callers i) key group) w) events)
    (hended : ∀ i, (p.outcome i).isSome = true) :
    (∃ row, granted key group p.state.db = [row] ∧
      ∀ i, p.outcome i = some (some (.ok (.grant row)))) ↔
    Along (system app.crates) (fun p ev => uncontested p ev = true)
      (process app (fun i => grantTask (callers i) key group) w) events := by
  constructor
  · rintro ⟨row, -, hanswers⟩ before ev rest q hevents hbefore
    cases ev with
    | world ch => rfl
    | act i e =>
        by_contra hcontested
        rw [hevents, run_append, hbefore] at hrun
        obtain ⟨q', hstep, hrest⟩ :=
          Option.bind_eq_some_iff.mp (show (step _ q _).bind _ = _ from hrun)
        have hearlier : Along (system app.crates) (fun p ev => served group p ev = true)
            (process app (fun i => grantTask (callers i) key group) w) before := by
          intro past ev rest' q'' heq hpast
          refine hserved past ev (rest' ++ .act i e :: rest) q'' ?_ hpast
          rw [hevents, heq, List.append_assoc, List.cons_append]
        obtain ⟨ms, hms⟩ := run_oneRow False hvault hmaster hkey hindex hbefore hearlier nofun
        obtain ⟨err, hfails⟩ :=
          fails_of_contested hms hkey (hserved before _ rest q hevents hbefore)
          (Bool.eq_false_iff.mpr hcontested) hstep
        have hend : p.outcome i = some (some (.error (.dbError err))) := outcome_run hrest hfails
        rw [hanswers i] at hend
        cases hend
  · intro hfree
    obtain ⟨ms, hms⟩ := run_oneRow True hvault hmaster hkey hindex hrun hserved fun _ => hfree
    have hholds : ∀ i, ∃ row, ms i = .holding row ∧
        p.outcome i = some (some (.ok (.grant row))) := by
      intro i
      obtain ⟨outcome, houtcome⟩ := Option.isSome_iff_exists.mp (hended i)
      have hi := hms.follows i
      rw [Pool.outcome_eq_some.mp houtcome] at hi
      have hanswers : Answers (ms i) outcome := follows_value.mp hi
      cases hm : ms i with
      | looking =>
          rw [hm] at hanswers
          exact hanswers.elim
      | holding row =>
          rw [hm] at hanswers
          exact ⟨row, rfl, houtcome.trans (congrArg some hanswers)⟩
      | refused => exact absurd hm (hms.inv.passed trivial i)
    obtain ⟨row, hrow, -⟩ := hholds (Classical.arbitrary I)
    have hone : granted key group p.state.db = [row] := hms.inv.held _ row hrow
    refine ⟨row, hone, ?_⟩
    intro i
    obtain ⟨row', hrow', houtcome⟩ := hholds i
    have hsame : [row] = [row'] := hone.symm.trans (hms.inv.held i row' hrow')
    rw [houtcome, List.singleton_inj.mp hsame]

def ungrantedWorld : World :=
  { bootedWorld with
    db :=
      { apiKeys := ⟨[sampleMaster.key,
          { sampleMaster.key with id := 2, name := "client", isMaster := false }], by decide⟩
        endpoints := .empty
        grants := .empty
        auditLogs := .empty } }

/-- A request up to its lookup of the grant. -/
def lookup (i : Bool) : List (Event Bool Choice Change) :=
  [.act i .succeed, .act i (.groups (.ok [⟨3, "dmz"⟩])), .act i .succeed]

/-- The insertion, and the entry of the trail after it. -/
def insertion : List (Event Bool Choice Change) :=
  [.act true (.time 1), .act true (.uuid 8), .act true .succeed, .act true (.uuid 9),
    .act true (.time 1), .act true .succeed]

/-- The second request looks the grant up when the first has inserted it. -/
theorem granting_idempotent_in_turn :
    ∃ p, Interleaving.run (system sampleApp.crates)
        (process sampleApp (fun _ => grantTask sampleMaster 2 3) ungrantedWorld)
        (lookup true ++ insertion ++ lookup false) = some p ∧
      ∃ row, granted 2 3 p.state.db = [row] ∧
        ∀ i, p.outcome i = some (some (.ok (.grant row))) := by
  have hchecks : (checkedRun (system sampleApp.crates)
      (fun p ev => served 3 p ev = true ∧ uncontested p ev = true)
      (process sampleApp (fun _ => grantTask sampleMaster 2 3) ungrantedWorld)
      (lookup true ++ insertion ++ lookup false)).map
        (fun p => ((p.outcome true).isSome, (p.outcome false).isSome)) = some (true, true) := by
    decide +kernel
  obtain ⟨p, hchecked, hp⟩ := Option.map_eq_some_iff.mp hchecks
  obtain ⟨htrue, hfalse⟩ := Prod.mk.inj hp
  obtain ⟨hrun, halong⟩ := checkedRun_eq_some hchecked
  have hserved : Along (system sampleApp.crates) (fun p ev => served 3 p ev = true)
      (process sampleApp (fun _ => grantTask sampleMaster 2 3) ungrantedWorld)
      (lookup true ++ insertion ++ lookup false) :=
    fun past ev rest q heq hpast => (halong past ev rest q heq hpast).1
  have hended : ∀ i, (p.outcome i).isSome = true := by
    intro i
    cases i with
    | true => exact htrue
    | false => exact hfalse
  refine ⟨p, hrun, (granting_idempotent_iff rfl (fun _ => rfl) (by decide) (by decide) hrun hserved
    hended).mpr ?_⟩
  exact fun past ev rest q heq hpast => (halong past ev rest q heq hpast).2

/-- Both requests look the grant up before either inserts it. -/
theorem second_insertion_refused :
    ∃ p, Interleaving.run (system sampleApp.crates)
        (process sampleApp (fun _ => grantTask sampleMaster 2 3) ungrantedWorld)
        (lookup true ++ lookup false ++ insertion ++
          [.act false (.time 1), .act false (.uuid 10), .act false .succeed]) = some p ∧
      Along (system sampleApp.crates) (fun p ev => served 3 p ev = true)
        (process sampleApp (fun _ => grantTask sampleMaster 2 3) ungrantedWorld)
        (lookup true ++ lookup false ++ insertion ++
          [.act false (.time 1), .act false (.uuid 10), .act false .succeed]) ∧
      (∃ row, p.outcome true = some (some (.ok (.grant row)))) ∧
      p.outcome false = some (some (.error (.dbError .constraint))) := by
  have hends : (checkedRun (system sampleApp.crates) (fun p ev => served 3 p ev = true)
      (process sampleApp (fun _ => grantTask sampleMaster 2 3) ungrantedWorld)
      (lookup true ++ lookup false ++ insertion ++
        [.act false (.time 1), .act false (.uuid 10), .act false .succeed])).map
          (fun p => (p.outcome true, p.outcome false)) =
      some (some (some (.ok (.grant ⟨8, 2, 3, "dmz", 1⟩))),
        some (some (.error (.dbError .constraint)))) := by
    rfl
  obtain ⟨p, hchecked, hp⟩ := Option.map_eq_some_iff.mp hends
  obtain ⟨htrue, hfalse⟩ := Prod.mk.inj hp
  obtain ⟨hrun, hserved⟩ := checkedRun_eq_some hchecked
  exact ⟨p, hrun, hserved, ⟨_, htrue⟩, hfalse⟩

end SimplyIpExporter.GrantIdempotence
