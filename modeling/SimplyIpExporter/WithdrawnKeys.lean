import SimplyIpExporter.AdmittedRequests
import SimplyIpExporter.CredentialSecrecy
import SimplyIpExporter.KeySteps

/-!
# Keys that were withdrawn

A request that rotates a key or deletes it withdraws the key there was. In every run, once
the request has succeeded the key is not let in again, unless its hash is stored anew.
-/
namespace SimplyIpExporter.WithdrawnKeys
open Entities KeyedTables Storage Services Programs Interleaving Lockstep EndpointHandlers
open KeyHandlers Routes HandlerRules RequestCalls IpAddresses KeySteps
open RequestAuthentication (Config Request AuthCall AuthAnswer AuthState authMiddleware)
open AdmittedRequests (Told listening authMiddleware_follows)
open HttpRouter (auth_exec_keys)
open CredentialSecrecy (rotatingWorld rotatingTask rotatingEvents)

/-- The key that a request rotates away or deletes. -/
def withdraws : Task → Option Uuid
  | .request _ (.rotateApiKey (.ok id)) | .request _ (.deleteApiKey (.ok id) _) => some id
  | _ => none

/-- Whether the key has been replaced or deleted. -/
def withdrawing (id : Uuid) : KeyWatch Bool where
  inserts _ _ := True
  updates _ _ _ := True
  deletes _ _ := True
  found m _ := m
  inserted m _ := m
  updated m id' ch := m || (decide (id' = id) && ch.keyHash.isSome)
  deleted m d := m || decide (d.id = id)

/-- The call stores the hash. -/
def renews (hash : String) : Call → Bool
  | .db (.insertKey row) => decide (row.keyHash = hash)
  | .db (.updateKey _ ch) => decide (ch.keyHash = some hash)
  | _ => false

section Withdrawal
variable {id : Uuid} {app : AppState} {caller : Caller} {A : Type}

theorem withdrawing_deleteApiKey (query : DeleteKeyQuery) :
    Achieves (withdrawing id).policy (fun m _ => m = true) (deleteApiKey app caller id query)
      false := by
  refine achieves_attempt_bind fun _ _ => KeyWatch.achieves_findKey fun existing _ => ?_
  refine achieves_attempt_bind fun _ _ => achieves_attempt_bind fun _ _ => ?_
  refine Quiet.ask_bind (KeyWatch.quiet rfl) fun now => Follows.ask_bind trivial ?_
  intro outcome m hm
  cases outcome with
  | error e => exact follows_value.mpr nofun
  | ok u =>
      refine follows_value.mpr fun _ _ => ?_
      rw [show m = (false || decide (id = id)) from hm]
      simp

theorem withdrawing_rotateApiKey :
    Achieves (withdrawing id).policy (fun m _ => m = true) (rotateApiKey app caller id) false := by
  refine achieves_attempt_bind fun _ _ => KeyWatch.achieves_findKey fun existing hid => ?_
  refine achieves_attempt_bind fun _ _ => ?_
  refine Still.achieves_bind (still_generateSecret (KeyWatch.quiet rfl)) fun plaintextKey => ?_
  refine Still.achieves_bind (still_generateSecret (KeyWatch.quiet rfl)) fun secret => ?_
  refine Quiet.sealed_bind (KeyWatch.quiet rfl) (fun _ => nofun) fun nonce stored _ => ?_
  refine Quiet.ask_bind (KeyWatch.quiet rfl) fun now => achieves_statement_bind trivial ?_
  rintro updated _ ⟨-, rfl⟩
  have hdone : (withdrawing id).updated false existing.id
      { keyHash := some (app.crates.hashKey plaintextKey) } = true := by
    simp [withdrawing, hid]
  exact Still.achieves_bind (KeyWatch.still_entry _) fun _ => achieves_pure hdone

theorem withdrawing_follows {task : Task} (htask : withdraws task = some id) :
    Follows (withdrawing id).policy
      (fun m outcome => ∀ response, outcome = some (.ok response) → m = true)
      (task.program app) false := by
  cases task with
  | cleanup | sync passes => cases htask
  | request caller r =>
      have hhandle : Achieves (withdrawing id).policy (fun m _ => m = true)
          (handle app caller r) false := by
        unfold withdraws at htask
        split at htask
        · rename_i heq
          cases heq
          cases htask
          exact achieves_answer withdrawing_rotateApiKey
        · rename_i heq
          cases heq
          cases htask
          refine achieves_attempt_bind fun target htarget => ?_
          cases htarget
          exact achieves_attempt_bind fun query _ =>
            achieves_answer (withdrawing_deleteApiKey query)
        · cases htask
      refine Follows.bind hhandle fun m outcome hend => Follows.pure ?_
      rintro response ⟨⟩
      exact hend response rfl

/-- Only the key in question may have the hash, and none once it was withdrawn. -/
structure HashGone (id : Uuid) (hash : String) (m : Bool) (t : Keys) : Prop where
  owner : ∀ row ∈ t.rows, row.keyHash = hash → row.id = id
  gone : m = true → ∀ row ∈ t.rows, row.keyHash ≠ hash

variable {t t' : Keys} {c : Call} {r : Answer c} {hash : String} {m : Bool}

/-- A row under a hash that is not stored anew was there before. -/
theorem hash_before {row : ApiKey} (h : KeyStep t t' c r) (hnew : renews hash c = false)
    (hrow : row ∈ t'.rows) (hhash : row.keyHash = hash) :
    ∃ before ∈ t.rows, before.keyHash = hash ∧ before.id = row.id := by
  cases h with
  | same h | find h =>
      rw [h] at hrow
      exact ⟨row, hrow, hhash, rfl⟩
  | insert hfree h =>
      rw [(Table.rows_insert h).1, List.mem_append, List.mem_singleton] at hrow
      rcases hrow with hrow | rfl
      · exact ⟨row, hrow, hhash, rfl⟩
      · exact absurd hhash (of_decide_eq_false hnew)
  | update hfind hfree h =>
      rename_i id' ch found
      rw [h] at hrow
      obtain ⟨before, hbefore, rfl⟩ := List.mem_map.mp hrow
      refine ⟨before, hbefore, ?_, ?_⟩
      · split at hhash
        · cases hch : ch.keyHash with
          | none => simpa [KeyChanges.apply, hch] using hhash
          | some new =>
              have hwritten : new = hash := by simpa [KeyChanges.apply, hch] using hhash
              exact absurd (hch.trans (congrArg some hwritten)) (of_decide_eq_false hnew)
        · exact hhash
      · split <;> rfl
  | delete h =>
      rw [h] at hrow
      exact ⟨row, List.mem_of_mem_filter hrow, hhash, rfl⟩

theorem HashGone.kept (h : HashGone id hash m t) (hstep : KeyStep t t' c r)
    (hnew : renews hash c = false) :
    HashGone id hash m t' := by
  constructor
  · intro row hrow hhash
    obtain ⟨before, hbefore, hhash', hid⟩ := hash_before hstep hnew hrow hhash
    exact hid.symm.trans (h.owner before hbefore hhash')
  · intro hm row hrow hhash
    obtain ⟨before, hbefore, hhash', -⟩ := hash_before hstep hnew hrow hhash
    exact h.gone hm before hbefore hhash'

theorem HashGone.own (h : HashGone id hash m t) (hstep : KeyStep t t' c r)
    (hnew : renews hash c = false) :
    ∃ m', (withdrawing id).policy.moves m c r m' ∧ HashGone id hash m' t' := by
  have hkept := h.kept hstep hnew
  cases hstep with
  | same heq hsilent =>
      exact ⟨m, KeyWatch.moves_silent hsilent, hkept⟩
  | find heq hfind => exact ⟨m, ⟨(Table.find_eq_some.mp hfind).2, rfl⟩, hkept⟩
  | insert hfree hinsert => exact ⟨m, ⟨rfl, rfl⟩, hkept⟩
  | update hfind hfree heq =>
      rename_i id' ch found
      refine ⟨_, ⟨(Table.find_eq_some.mp hfind).2, rfl⟩, hkept.owner, ?_⟩
      intro hm row hrow hhash
      rcases Bool.or_eq_true_iff.mp hm with hbefore | hnow
      · exact hkept.gone hbefore row hrow hhash
      · rw [Bool.and_eq_true, decide_eq_true_iff, Option.isSome_iff_exists] at hnow
        obtain ⟨rfl, new, hch⟩ := hnow
        have hid := hkept.owner row hrow hhash
        rw [heq] at hrow
        obtain ⟨before, hbefore, rfl⟩ := List.mem_map.mp hrow
        split at hhash
        · have hwritten : new = hash := by simpa [KeyChanges.apply, hch] using hhash
          exact of_decide_eq_false hnew (hch.trans (congrArg some hwritten))
        · rename_i hother
          rw [if_neg hother] at hid
          exact hother (decide_eq_true hid)
  | delete heq =>
      rename_i d
      refine ⟨_, rfl, hkept.owner, ?_⟩
      intro hm row hrow hhash
      rcases Bool.or_eq_true_iff.mp hm with hbefore | hnow
      · exact hkept.gone hbefore row hrow hhash
      · have hid := hkept.owner row hrow hhash
        rw [heq] at hrow
        have hleft := (List.mem_filter.mp hrow).2
        simp [hid, of_decide_eq_true hnow] at hleft

end Withdrawal

/-- What the middleware has been told of a row, it found in the table. -/
theorem listening_step {c : AuthCall} {e : RequestAuthentication.Choice} {s s' : AuthState}
    {r : AuthAnswer c} (m : Told) (h : RequestAuthentication.exec c e s = some (r, s')) :
    ∃ m', listening.moves m c r m' ∧ (m'.row = m.row ∨ ∃ row ∈ s.keys, m'.row = some row) := by
  cases c with
  | findKeyByHash hash =>
      cases r with
      | error err => exact ⟨m, rfl, .inl rfl⟩
      | ok found =>
          cases found with
          | none => exact ⟨m, rfl, .inl rfl⟩
          | some row =>
              have hfound := RequestAuthentication.exec_findKeyByHash h
              have hhash := List.find?_some hfound
              exact ⟨_, ⟨of_decide_eq_true hhash, rfl⟩,
                .inr ⟨row, List.mem_of_find?_eq_some hfound, rfl⟩⟩
  | utcNow | pinned | resolvedProxies | resolveHost name => exact ⟨_, rfl, .inl rfl⟩
  | _ => exact ⟨m, rfl, .inl rfl⟩

/-- What the middleware knows of a row is from these rows. -/
def Sourced (rows : List ApiKey) (m : Told) (s : AuthState) : Prop :=
  (∀ row, m.row = some row → row ∈ rows) ∧ s.keys = rows

theorem sourced_step (rows : List ApiKey) (m : Told) (c : AuthCall)
    (e : RequestAuthentication.Choice) (s : AuthState) (r : AuthAnswer c) (s' : AuthState)
    (h : Sourced rows m s) (_ : listening.permits m c)
    (hexec : RequestAuthentication.exec c e s = some (r, s')) :
    ∃ m', listening.moves m c r m' ∧ Sourced rows m' s' := by
  obtain ⟨m', hmoves, hrow⟩ := listening_step m hexec
  refine ⟨m', hmoves, ?_, (auth_exec_keys hexec).trans h.2⟩
  rcases hrow with hrow | ⟨row, hmem, hrow⟩
  · rw [hrow]
    exact h.1
  · intro row' hrow'
    cases hrow.symm.trans hrow'
    rw [← h.2]
    exact hmem

/-- A key is let in by a row of the table that has its hash. -/
theorem row_of_admitted {config : Config} {req : Request} {s s' : AuthState}
    {choices : List RequestAuthentication.Choice} {key : ApiKey} {ip : IpAddr} {presented : String}
    (hpresented : req.apiKey = some presented)
    (h : Programs.run RequestAuthentication.exec (authMiddleware config req) choices s =
      some (.ok (key, ip), s')) :
    ∃ row ∈ s.keys, row.keyHash = config.crates.hashKey presented := by
  obtain ⟨m, hadmission, htold, -⟩ :=
    Follows.run (sourced_step s.keys) (authMiddleware_follows .nothing)
    ⟨by rintro row ⟨⟩, rfl⟩ h
  obtain ⟨presented', row, hpresented', hrow, hhash, -⟩ := (hadmission key ip rfl).looked
  cases hpresented.symm.trans hpresented'
  exact ⟨row, htold row hrow, hhash⟩

section Refused
variable {I : Type} [DecidableEq I] {app : AppState} {tasks : I → Task} {w₀ : World}
  {past rest : List (Event I Choice Change)} {p q : Process I} {i : I}

/-- A request that rotates a key away or deletes it starts at one moment and has succeeded
by another. Whatever other requests did meanwhile, unless one of them stored the very hash
again, the key that was valid at the start is not in the table any more, and no request
that presents it is let in. -/
theorem withdrawn_key_refused {config : Config} (hcrates : config.crates = app.crates)
    (hdistinct : HashesDistinct w₀.db.apiKeys)
    (hp : Interleaving.run (system app.crates) (process app tasks w₀) past = some p)
    (hq : Interleaving.run (system app.crates) (process app tasks w₀) (past ++ rest) = some q)
    (hidle : ∀ e, .act i e ∉ past) {id : Uuid} (htask : withdraws (tasks i) = some id)
    {response : Response} (hend : q.outcome i = some (some (.ok response)))
    {row₀ : ApiKey} (hrow₀ : p.state.db.apiKeys.find id = some row₀)
    (hnew : Along (system app.crates) (suited fun c _ => renews row₀.keyHash c = false) p rest) :
    (∀ row ∈ q.state.db.apiKeys.rows, row.keyHash ≠ row₀.keyHash) ∧
      ∀ (req : Request) (presented : String) (s s' : AuthState)
        (choices : List RequestAuthentication.Choice)
        (outcome : Except RequestAuthentication.Abort (ApiKey × IpAddr)),
        req.apiKey = some presented → app.crates.hashKey presented = row₀.keyHash →
        s.keys = q.state.db.apiKeys.rows →
        Programs.run RequestAuthentication.exec (authMiddleware config req) choices s =
          some (outcome, s') →
        ∃ e, outcome = .error e := by
  have hthread : p.threads i = (tasks i).program app := thread_of_idle hidle hp
  obtain ⟨hmem₀, hid₀⟩ := Table.find_eq_some.mp hrow₀
  have hdistinct' := run_hashesDistinct hdistinct hp
  have hstart : HashGone id row₀.keyHash false p.state.db.apiKeys := by
    refine ⟨?_, fun h => by cases h⟩
    intro row hrow hhash
    exact (hdistinct' row hrow row₀ hmem₀ hhash).trans hid₀
  obtain ⟨m, hm, hgone⟩ := run_beside (withdrawing id).policy _
    (fun m s => HashGone id row₀.keyHash m s.db.apiKeys) _ hp hq hnew
    (by rw [hthread]; exact withdrawing_follows htask) hstart
    (fun m c e s r s' hsuits h _ hexec => h.own (exec_keyStep hexec) hsuits)
    (fun m j c e s r s' _ _ hsuits h _ hexec => h.kept (exec_keyStep hexec) hsuits)
    (fun m ch s s' h henv => by rw [exec_keys_env henv]; exact h)
  rw [Pool.outcome_eq_some.mp hend, follows_value] at hm
  have hnone := hgone.gone (hm response rfl)
  refine ⟨hnone, ?_⟩
  intro req presented s s' choices outcome hpresented hhash hrows hrun
  cases outcome with
  | error e => exact ⟨e, rfl⟩
  | ok admitted =>
      obtain ⟨row, hrow, hrowHash⟩ := row_of_admitted hpresented hrun
      rw [hrows] at hrow
      rw [hcrates] at hrowHash
      exact absurd (hrowHash.trans hhash) (hnone row hrow)

end Refused

theorem withdrawn_key_refused_rotation :
    ∃ q, Interleaving.run (system sampleApp.crates)
        (process sampleApp (fun _ : Unit => rotatingTask) rotatingWorld) ([] ++ rotatingEvents) =
          some q ∧
      ∀ row ∈ q.state.db.apiKeys.rows, row.keyHash ≠ DaughterConfinement.sampleKey.keyHash := by
  have hends : ((checkedRun (system sampleApp.crates)
      (suited fun c _ => renews DaughterConfinement.sampleKey.keyHash c = false)
      (process sampleApp (fun _ : Unit => rotatingTask) rotatingWorld) rotatingEvents).map
        fun q => (q.outcome ()).map fun outcome => outcome.map Except.isOk) =
          some (some (some true)) := by
    decide +kernel
  obtain ⟨q, hchecked, hended⟩ := Option.map_eq_some_iff.mp hends
  obtain ⟨hrun, hnew⟩ := checkedRun_eq_some hchecked
  obtain ⟨outcome, houtcome, hok⟩ := Option.map_eq_some_iff.mp hended
  obtain ⟨result, rfl, hresult⟩ := Option.map_eq_some_iff.mp hok
  have hdistinct : HashesDistinct rotatingWorld.db.apiKeys := by
    unfold HashesDistinct
    decide
  have hcrates : SignatureSingleUse.sampleConfig.crates = sampleApp.crates := rfl
  have hstart : Interleaving.run (system sampleApp.crates)
      (process sampleApp (fun _ : Unit => rotatingTask) rotatingWorld) [] =
        some (process sampleApp (fun _ : Unit => rotatingTask) rotatingWorld) := rfl
  cases result with
  | error e => cases hresult
  | ok response =>
      exact ⟨q, hrun, (withdrawn_key_refused hcrates hdistinct hstart hrun (fun e h => by cases h)
        (show withdraws rotatingTask = some 7 from rfl) houtcome rfl hnew).1⟩

end SimplyIpExporter.WithdrawnKeys
