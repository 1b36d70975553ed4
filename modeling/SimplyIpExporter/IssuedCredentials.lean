import SimplyIpExporter.AdmissionRuns
import SimplyIpExporter.CredentialSecrecy
import SimplyIpExporter.KeySteps
import SimplyIpExporter.SecretsAtRest

/-!
# Credentials that were shown

A key and its signing secret are shown once, by the request that makes or rotates them.
The table keeps a hash and a sealed text. In every run, whoever has what was shown is let
in until another request about the same key takes a step.
-/
namespace SimplyIpExporter.IssuedCredentials
open Entities KeyedTables Storage Services Programs Interleaving Lockstep EndpointHandlers
open KeyHandlers Routes HandlerRules RequestCalls IpAddresses BoundIps ClientAddress AdmissionRuns
open KeySteps
open RustText (i64Max)
open RequestAuthentication (Config AuthState authMiddleware)
open SignatureSingleUse (swept)
open CredentialSecrecy (rotatingWorld rotatingTask rotatingEvents)
open SecretsAtRest (cratesWith cratesWith_opens sampleAead sampleAead_sound)

/-- Credentials in an answer. A new signing secret goes with the key there was. -/
structure Credentials where
  id : Uuid
  apiKey : Option String
  signingSecret : String
  deriving DecidableEq

def shown : Option (Except AppError Response) → Option Credentials
  | some (.ok (.mintedKey m)) => some ⟨m.key.id, some m.apiKey, m.signingSecret⟩
  | some (.ok (.rotatedSecret r)) => some ⟨r.id, none, r.signingSecret⟩
  | _ => none

/-- What a request has stored for a key. -/
structure Written where
  id : Uuid
  keyHash : Option String
  stored : String

structure Watch where
  /-- The key in question has been found not to be the Master's. -/
  ordinary : Bool
  written : Option Written

/-- A request that issues credentials stores some once; it has found a key that it updates. -/
def issuing (id : Uuid) : KeyWatch Watch where
  inserts m row := m.written = none ∧ row.isMaster = false
  updates m id' ch := m.written = none ∧ (id' = id → m.ordinary = true) ∧
    ∃ stored, ch.signingSecret = some (some stored)
  deletes _ _ := False
  found m row := { m with ordinary := m.ordinary || (decide (row.id = id) && !row.isMaster) }
  inserted m row :=
    { m with written := row.signingSecret.map fun stored => ⟨row.id, some row.keyHash, stored⟩ }
  updated m id' ch :=
    { m with written := ch.signingSecret.join.map fun stored => ⟨id', ch.keyHash, stored⟩ }
  deleted m _ := m

/-- What has been stored is what is shown. -/
def Matches (crates : Crates) (m : Watch) (given : Credentials) : Prop :=
  ∃ stored, m.written = some ⟨given.id, given.apiKey.map crates.hashKey, stored⟩ ∧
    crates.openSecret stored = some given.signingSecret

section Walk
variable {id : Uuid} {app : AppState} {caller : Caller}

variable (hseal : ∀ nonce secret text, app.crates.sealSecret nonce secret = some text →
  app.crates.openSecret text = some secret)
include hseal

theorem createApiKey_follows (payload : CreateKeyPayload) :
    Achieves (issuing id).policy (fun m minted =>
      Matches app.crates m ⟨minted.key.id, some minted.apiKey, minted.signingSecret⟩)
      (createApiKey app caller payload) ⟨false, none⟩ := by
  refine achieves_attempt_bind fun _ _ => achieves_attempt_bind fun _ _ => ?_
  refine achieves_attempt_bind fun _ _ => ?_
  refine Still.achieves_bind (still_generateSecret (KeyWatch.quiet rfl)) fun plaintextKey => ?_
  refine Still.achieves_bind (still_generateSecret (KeyWatch.quiet rfl)) fun secret => ?_
  refine Quiet.ask_bind (KeyWatch.quiet rfl) fun now =>
    Quiet.ask_bind (KeyWatch.quiet rfl) fun newId => ?_
  refine Quiet.sealed_bind (KeyWatch.quiet rfl) (fun _ => nofun) fun nonce stored hsealed => ?_
  refine achieves_statement_bind ⟨rfl, rfl⟩ ?_
  rintro created _ ⟨rfl, rfl⟩
  refine Still.achieves_bind (KeyWatch.still_entry _) fun _ => achieves_pure ?_
  exact ⟨stored, rfl, hseal nonce secret stored hsealed⟩

theorem rotateApiKey_follows (target : Uuid) :
    Achieves (issuing id).policy (fun m minted =>
      Matches app.crates m ⟨minted.key.id, some minted.apiKey, minted.signingSecret⟩)
      (rotateApiKey app caller target) ⟨false, none⟩ := by
  refine achieves_attempt_bind fun _ _ => KeyWatch.achieves_findKey fun existing _ => ?_
  refine achieves_attempt_bind fun _ hguard => ?_
  refine Still.achieves_bind (still_generateSecret (KeyWatch.quiet rfl)) fun plaintextKey => ?_
  refine Still.achieves_bind (still_generateSecret (KeyWatch.quiet rfl)) fun secret => ?_
  refine Quiet.sealed_bind (KeyWatch.quiet rfl) (fun _ => nofun) fun nonce stored hsealed => ?_
  refine Quiet.ask_bind (KeyWatch.quiet rfl) fun now => ?_
  refine achieves_statement_bind ⟨rfl, fun h => ?_, stored, rfl⟩ ?_
  · simp [issuing, h, isMaster_of_guard hguard]
  rintro updated _ ⟨hupdated, rfl⟩
  refine Still.achieves_bind (KeyWatch.still_entry _) fun _ => achieves_pure ?_
  refine ⟨stored, ?_, hseal nonce secret stored hsealed⟩
  simp [issuing, KeyResponse.of, hupdated]

theorem rotateSigningSecret_follows (target : Uuid) :
    Achieves (issuing id).policy (fun m rotated =>
      Matches app.crates m ⟨rotated.id, none, rotated.signingSecret⟩)
      (rotateSigningSecret app caller target) ⟨false, none⟩ := by
  refine achieves_attempt_bind fun _ _ => KeyWatch.achieves_findKey fun existing _ => ?_
  refine achieves_attempt_bind fun _ hguard => ?_
  refine Still.achieves_bind (still_generateSecret (KeyWatch.quiet rfl)) fun secret => ?_
  refine Quiet.sealed_bind (KeyWatch.quiet rfl) (fun _ => nofun) fun nonce stored hsealed => ?_
  refine Quiet.ask_bind (KeyWatch.quiet rfl) fun now => ?_
  refine achieves_statement_bind ⟨rfl, fun h => ?_, stored, rfl⟩ ?_
  · simp [issuing, h, isMaster_of_guard hguard]
  rintro updated _ ⟨hupdated, rfl⟩
  refine Still.achieves_bind (KeyWatch.still_entry _) fun _ => achieves_pure ?_
  refine ⟨stored, ?_, hseal nonce secret stored hsealed⟩
  simp [issuing, hupdated]

end Walk

section Stored
variable {t t' t₀ : Keys} {c : Call} {r : Answer c} {id : Uuid} {m : Watch} {task : Task}

/-- The row of the key is that of an ordinary one once it was found to be, and has what was
written to it. While no key was written, it presents the key it did. -/
structure RowKept (id : Uuid) (t₀ : Keys) (m : Watch) (t : Keys) : Prop where
  distinct : HashesDistinct t
  ordinary : m.ordinary = true → ∀ row, t.find id = some row → row.isMaster = false
  written : ∀ w, m.written = some w → w.id = id → ∃ row, t.find id = some row ∧
    row.isMaster = false ∧
    row.signingSecret = some w.stored ∧ ∀ hash, w.keyHash = some hash → row.keyHash = hash
  hash : (∀ w, m.written = some w → w.keyHash = none) → ∀ row₀, t₀.find id = some row₀ →
    ∃ row, t.find id = some row ∧ row.keyHash = row₀.keyHash

theorem RowKept.other (h : RowKept id t₀ m t) (hstep : KeyStep t t' c r) (hcalls : TaskCalls task c)
    (htask : ¬Reissues id task) : RowKept id t₀ m t' := by
  refine ⟨hstep.hashesDistinct h.distinct, ?_, ?_, ?_⟩
  · intro hordinary row' hrow'
    cases hfind : t.find id with
    | none =>
        obtain ⟨rfl, -⟩ := hstep.find_new hfind hrow'
        exact calls_insertKey hcalls
    | some row =>
        obtain ⟨row'', hrow'', -, -, hmaster⟩ := hstep.find_undisturbed hcalls htask hfind
        cases hrow'.symm.trans hrow''
        exact hmaster.trans (h.ordinary hordinary row hfind)
  · intro w hw hid
    obtain ⟨row, hfind, hmaster, hsecret, hhash⟩ := h.written w hw hid
    obtain ⟨row', hfind', hhash', hsecret', hmaster'⟩ := hstep.find_undisturbed hcalls htask hfind
    exact ⟨row', hfind', hmaster'.trans hmaster, hsecret'.trans hsecret,
      fun hash h => hhash'.trans (hhash hash h)⟩
  · intro hnone row₀ hrow₀
    obtain ⟨row, hfind, hhash⟩ := h.hash hnone row₀ hrow₀
    obtain ⟨row', hfind', hhash', -, -⟩ := hstep.find_undisturbed hcalls htask hfind
    exact ⟨row', hfind', hhash'.trans hhash⟩

theorem RowKept.own (h : RowKept id t₀ m t) (hstep : KeyStep t t' c r)
    (hpermits : (issuing id).policy.permits m c) :
    ∃ m', (issuing id).policy.moves m c r m' ∧ RowKept id t₀ m' t' := by
  have hdistinct := hstep.hashesDistinct h.distinct
  cases hstep with
  | same heq hsilent =>
      refine ⟨m, KeyWatch.moves_silent hsilent, ?_⟩
      rw [heq]
      exact h
  | find heq hfind =>
      rename_i id' row
      refine ⟨_, ⟨(Table.find_eq_some.mp hfind).2, rfl⟩, ?_⟩
      rw [heq]
      refine ⟨h.distinct, ?_, h.written, h.hash⟩
      intro hordinary row' hrow'
      rcases Bool.or_eq_true_iff.mp hordinary with hbefore | hnow
      · exact h.ordinary hbefore row' hrow'
      · rw [Bool.and_eq_true, decide_eq_true_iff, Bool.not_eq_true'] at hnow
        rw [← (Table.find_eq_some.mp hfind).2, hnow.1, hrow'] at hfind
        cases hfind
        exact hnow.2
  | insert hnew hinsert =>
      rename_i row
      obtain ⟨hnone, hmaster⟩ := hpermits
      refine ⟨_, ⟨rfl, rfl⟩, hdistinct, ?_, ?_, ?_⟩
      · intro hordinary row' hrow'
        rw [Table.find_insert hinsert] at hrow'
        split at hrow'
        · cases hrow'
          exact hmaster
        · exact h.ordinary hordinary row' hrow'
      · intro w hw hid
        obtain ⟨stored, hstored, rfl⟩ := Option.map_eq_some_iff.mp hw
        refine ⟨row, ?_, hmaster, hstored, ?_⟩
        · rw [Table.find_insert hinsert, if_pos hid]
        · rintro hash ⟨⟩
          rfl
      · intro _ row₀ hrow₀
        obtain ⟨before, hbefore, hhash⟩ := h.hash (by simp [hnone]) row₀ hrow₀
        refine ⟨before, ?_, hhash⟩
        rw [Table.find_insert hinsert, if_neg, hbefore]
        intro hid
        have hfree := (Table.rows_insert hinsert).2
        rw [hid, hbefore] at hfree
        cases hfree
  | update hfind hnew heq =>
      rename_i id' ch row
      obtain ⟨hnone, hordinary, stored, hstored⟩ := hpermits
      have hid' : row.id = id' := (Table.find_eq_some.mp hfind).2
      have hwritten : (issuing id).updated m id' ch =
          ⟨m.ordinary, some ⟨id', ch.keyHash, stored⟩⟩ := by
        simp [issuing, hstored]
      refine ⟨_, ⟨hid', rfl⟩, ?_⟩
      rw [hwritten]
      by_cases hid : id' = id
      · subst hid
        have hfind' : t'.find id' = some (ch.apply row) := by
          rw [heq, Table.find_change, hfind]
          simp [hid']
        have hmaster : (ch.apply row).isMaster = false := h.ordinary (hordinary rfl) row hfind
        refine ⟨hdistinct, ?_, ?_, ?_⟩
        · intro _ row' hrow'
          cases hrow'.symm.trans hfind'
          exact hmaster
        · rintro w ⟨⟩ _
          refine ⟨_, hfind', hmaster, by simp [KeyChanges.apply, hstored], ?_⟩
          intro hash hhash
          simp [KeyChanges.apply, show ch.keyHash = some hash from hhash]
        · intro hkept row₀ hrow₀
          obtain ⟨before, hbefore, hhash⟩ := h.hash (by simp [hnone]) row₀ hrow₀
          cases hfind.symm.trans hbefore
          refine ⟨_, hfind', ?_⟩
          rw [← hhash]
          simp [KeyChanges.apply, show ch.keyHash = none from hkept _ rfl]
      · have hsame : t'.find id = t.find id := by
          rw [heq, Table.find_change]
          cases hrow : t.find id with
          | none => rfl
          | some before =>
              have hbefore : before.id = id := (Table.find_eq_some.mp hrow).2
              simp [hbefore, Ne.symm hid]
        refine ⟨hdistinct, ?_, ?_, ?_⟩
        · rw [hsame]
          exact h.ordinary
        · rintro w ⟨⟩ hw
          exact absurd hw hid
        · rw [hsame]
          exact fun _ => h.hash (by simp [hnone])
  | delete heq => cases hpermits

end Stored

/-- The requests whose answers show credentials. -/
def issues : Task → Bool
  | .request _ (.createApiKey _) | .request _ (.rotateApiKey _)
  | .request _ (.rotateSigningSecret _) => true
  | _ => false

/-- What the answer shows has been stored. -/
def Issued (crates : Crates) (m : Watch) (outcome : Option (Except AppError Response)) : Prop :=
  ∀ given, shown outcome = some given → Matches crates m given

section Tasks
variable {id : Uuid} {app : AppState} {caller : Caller} {A : Type}

theorem issued_error (crates : Crates) (m : Watch) (e : AppError) :
    Issued crates m (some (.error e)) := by
  intro given h
  cases h

theorem issued_answer {wrap : A → Response} {given : A → Credentials} {h : Handler A} {m : Watch}
    (hwrap : ∀ a, shown (some (.ok (wrap a))) = some (given a))
    (hh : Achieves (issuing id).policy (fun m a => Matches app.crates m (given a)) h m) :
    Follows (issuing id).policy (fun m outcome => Issued app.crates m (some outcome))
      (answer wrap h) m := by
  refine Follows.except_bind hh (fun m' e _ => issued_error _ m' e) ?_
  intro m' a ha
  refine Follows.ok ?_
  intro given hgiven
  cases (hwrap a).symm.trans hgiven
  exact ha a rfl

theorem issued_with1 {x : Except AppError A} {h : A → Handler Response} {m : Watch}
    (hh : ∀ a, Follows (issuing id).policy (fun m outcome => Issued app.crates m (some outcome))
      (h a) m) :
    Follows (issuing id).policy (fun m outcome => Issued app.crates m (some outcome))
      (with1 x h) m :=
  Follows.attempt_bind (fun e _ => issued_error _ m e) fun a _ => hh a

theorem issued_follows
    (hseal : ∀ nonce secret text, app.crates.sealSecret nonce secret = some text →
    app.crates.openSecret text = some secret) {task : Task} (htask : issues task = true) :
    Follows (issuing id).policy (Issued app.crates) (task.program app) ⟨false, none⟩ := by
  cases task with
  | cleanup | sync passes => cases htask
  | request caller r =>
      have hhandle : Follows (issuing id).policy
          (fun m outcome => Issued app.crates m (some outcome))
          (handle app caller r) ⟨false, none⟩ := by
        cases r with
        | createApiKey payload =>
            exact issued_with1 fun p => issued_answer (fun _ => rfl) (createApiKey_follows hseal p)
        | rotateApiKey target =>
            exact issued_with1 fun target =>
              issued_answer (fun _ => rfl) (rotateApiKey_follows hseal target)
        | rotateSigningSecret target =>
            exact issued_with1 fun target =>
              issued_answer (fun _ => rfl) (rotateSigningSecret_follows hseal target)
        | _ => cases htask
      exact hhandle.bind fun _ _ h => Follows.pure h

theorem silent_answer {wrap : A → Response} (h : Handler A)
    (hwrap : ∀ a, shown (some (.ok (wrap a))) = none) :
    Follows (anything Answer) (fun _ outcome => shown (some outcome) = none) (answer wrap h) () :=
  (Follows.of_permits_all (fun _ _ => trivial) h ()).except_bind (fun _ _ _ => rfl) fun _ a _ =>
    Follows.ok (hwrap a)

theorem silent_with1 {x : Except AppError A} {h : A → Handler Response}
    (hh : ∀ a, Follows (anything Answer) (fun _ outcome => shown (some outcome) = none) (h a) ()) :
    Follows (anything Answer) (fun _ outcome => shown (some outcome) = none) (with1 x h) () :=
  Follows.attempt_bind (fun _ _ => rfl) fun a _ => hh a

theorem silent_with2 {B : Type} {x : Except AppError A} {y : Except AppError B}
    {h : A → B → Handler Response}
    (hh : ∀ a b, Follows (anything Answer) (fun _ outcome => shown (some outcome) = none)
      (h a b) ()) :
    Follows (anything Answer) (fun _ outcome => shown (some outcome) = none) (with2 x y h) () :=
  silent_with1 (h := fun a => with1 y (h a)) fun a => silent_with1 (hh a)

theorem silent_follows {task : Task} (htask : issues task = false) :
    Follows (anything Answer) (fun _ outcome => shown outcome = none) (task.program app) () := by
  cases task with
  | cleanup | sync passes =>
      exact (Follows.of_permits_all (fun _ _ => trivial) _ ()).bind fun _ _ _ => Follows.pure rfl
  | request caller r =>
      have hhandle : Follows (anything Answer) (fun _ outcome => shown (some outcome) = none)
          (handle app caller r) () := by
        cases r with
        | getMe => exact Follows.ok rfl
        | createApiKey | rotateApiKey | rotateSigningSecret => cases htask
        | listApiKeys | listEndpoints | listVaultGroups => exact silent_answer _ fun _ => rfl
        | deleteEndpoint | listAuditLogs | listKeyGroups | revokeKeyGroup | createEndpoint =>
            exact silent_with1 fun _ => silent_answer _ fun _ => rfl
        | updateApiKey | deleteApiKey | updateEndpoint | reassignEndpointOwner | grantKeyGroup =>
            exact silent_with2 fun _ _ => silent_answer _ fun _ => rfl
      exact hhandle.bind fun _ _ h => Follows.pure h

end Tasks

/-- The row opens the service to whoever presents its key and signs with the secret, in
time, afresh and from an address it is bound to, with the rows as they stand: where no
query fails the middleware lets the request pass, and so there is a run in which it does. -/
def Admits (config : Config) (rows : List ApiKey) (row : ApiKey) (secret : String) : Prop :=
  ∀ (around : NetworkView) (sent : Sent config secret) (s : AuthState) (entries :
    List BoundIpEntry), s.keys = rows → config.crates.hashKey sent.key = row.keyHash →
    |timestamp s.clock - sent.time| ≤ config.signatureMaxAgeSeconds →
    ((swept s).honour ⟨row.id, sent.digest⟩ s.clock).1 = true →
    parseBoundIps config.crates (row.boundIps.getD "") = .ok entries →
    entries = [] ∨ entries.any
      (covers around.dns (resolveClientIp sent.req.peer sent.req.headers around.proxies)) = true →
    (settle (authReply around) (authMiddleware config sent.req) s).1 =
        .ok (row, resolveClientIp sent.req.peer sent.req.headers around.proxies) ∧
      ∃ choices s',
        Programs.run RequestAuthentication.exec (authMiddleware config sent.req) choices s =
        some (.ok (row, resolveClientIp sent.req.peer sent.req.headers around.proxies), s')

theorem admits_of_find {config : Config} (hwindow : config.signatureMaxAgeSeconds ≤ i64Max)
    {t : Keys} {id : Uuid} {row : ApiKey} {stored secret : String} (hdistinct : HashesDistinct t)
    (hfind : t.find id = some row) (hordinary : row.isMaster = false)
    (hstored : row.signingSecret = some stored)
    (hopen : config.crates.openSecret stored = some secret) : Admits config t.rows row secret := by
  intro around sent s entries hrows hhash htimely hfresh hparse hcovered
  have harrives : Arrives sent row s := by
    refine ⟨?_, ?_, ?_, hwindow, htimely⟩
    · rw [AuthState.findKey, hrows, hhash]
      exact find_of_hash hdistinct hfind
    · intro hmaster
      rw [hordinary] at hmaster
      cases hmaster
    · rw [hstored]
      exact hopen
  have hallowed : (entries.isEmpty || entries.any
      (covers around.dns (resolveClientIp sent.req.peer sent.req.headers around.proxies))) =
        true := by
    rcases hcovered with rfl | hany
    · rfl
    · rw [hany, Bool.or_true]
  have hsettle : settle (authReply around) (authMiddleware config sent.req) s = _ :=
    settle_authMiddleware harrives hparse rfl
  rw [hfresh, hallowed] at hsettle
  obtain ⟨choices, hrun⟩ := exists_run around (authMiddleware config sent.req) s
  rw [hsettle] at hrun ⊢
  exact ⟨rfl, choices, _, hrun⟩

section Shown
variable {I : Type} [DecidableEq I] {app : AppState} {tasks : I → Task} {w₀ : World}
  {past rest : List (Event I Choice Change)} {p q : Process I} {i : I}

/-- A request that starts at one moment and by another has shown credentials, while no
other request about the same key took a step: the key is in the table, as an ordinary
one, under the hash of what was shown or as before. Whoever has what was shown is let in. -/
theorem issued_credentials_work {config : Config} (hcrates : config.crates = app.crates)
    (hwindow : config.signatureMaxAgeSeconds ≤ i64Max)
    (hseal : ∀ nonce secret text, app.crates.sealSecret nonce secret = some text →
      app.crates.openSecret text = some secret)
    (hdistinct : HashesDistinct w₀.db.apiKeys)
    (hp : Interleaving.run (system app.crates) (process app tasks w₀) past = some p)
    (hq : Interleaving.run (system app.crates) (process app tasks w₀) (past ++ rest) = some q)
    (hidle : ∀ e, .act i e ∉ past) {given : Credentials}
    (hgiven : (q.outcome i).bind shown = some given)
    (hothers : ∀ j e, j ≠ i → .act j e ∈ rest → ¬Reissues given.id (tasks j)) :
    ∃ row, q.state.db.apiKeys.find given.id = some row ∧ row.isMaster = false ∧
      (∀ key, given.apiKey = some key → row.keyHash = app.crates.hashKey key) ∧
      (given.apiKey = none → ∀ row₀, p.state.db.apiKeys.find given.id = some row₀ →
        row.keyHash = row₀.keyHash) ∧
      Admits config q.state.db.apiKeys.rows row given.signingSecret := by
  have hthread : p.threads i = (tasks i).program app := thread_of_idle hidle hp
  have halong : Along (system app.crates) (suited fun _ _ => True) p rest := by
    intro past ev rest q _ _
    cases ev with
    | world ch => trivial
    | act j e => exact fun _ _ => trivial
  obtain ⟨outcome, hend, hshown⟩ := Option.bind_eq_some_iff.mp hgiven
  have hvalue := Pool.outcome_eq_some.mp hend
  cases hissues : issues (tasks i) with
  | false =>
      obtain ⟨m, hm, -⟩ :=
        run_beside (anything Answer) (fun _ outcome => shown outcome = none) (fun _ _ => True)
        (fun _ _ => True) hp hq halong (by rw [hthread]; exact silent_follows hissues) trivial
        (fun _ _ _ _ _ _ _ _ _ _ => ⟨(), trivial, trivial⟩)
          (fun _ _ _ _ _ _ _ _ _ _ _ _ _ => trivial)
        fun _ _ _ _ _ _ => trivial
      rw [hvalue, follows_value, hshown] at hm
      cases hm
  | true =>
      obtain ⟨m, hm, hkept⟩ := run_beside (issuing given.id).policy (Issued app.crates)
        (fun m s => RowKept given.id p.state.db.apiKeys m s.db.apiKeys)
          (fun _ _ => True) hp hq halong
        (by rw [hthread]; exact issued_follows hseal hissues)
        ⟨run_hashesDistinct hdistinct hp, by simp, by simp, fun _ row₀ hrow₀ => ⟨row₀, hrow₀, rfl⟩⟩
        (fun m c e s r s' _ h hpermits hexec => h.own (exec_keyStep hexec) hpermits)
        (fun m j c e s r s' hj hmem _ h hcalls hexec =>
          h.other (exec_keyStep hexec) hcalls (hothers j e hj hmem))
        (fun m ch s s' h henv => by rw [exec_keys_env henv]; exact h)
      rw [hvalue, follows_value] at hm
      obtain ⟨stored, hwritten, hopen⟩ := hm given hshown
      obtain ⟨row, hfind, hordinary, hstored, hhash⟩ := hkept.written _ hwritten rfl
      refine ⟨row, hfind, hordinary, ?_, ?_, ?_⟩
      · intro key hkey
        exact hhash _ (by rw [hkey]; rfl)
      · intro hnone row₀ hrow₀
        obtain ⟨row', hfind', hsame⟩ := hkept.hash (by simp [hwritten, hnone]) row₀ hrow₀
        cases hfind.symm.trans hfind'
        exact hsame
      · rw [← hcrates] at hopen
        exact admits_of_find hwindow hkept.distinct hfind hordinary hstored hopen

end Shown

/-- A service that seals what it stores. -/
def sealingApp : AppState :=
  { sampleApp with crates := cratesWith sampleCrates sampleAead (.sealed 1) }

def sealingConfig : Config := { SignatureSingleUse.sampleConfig with crates := sealingApp.crates }

theorem issued_credentials_work_rotation :
    ∃ q row, Interleaving.run (system sealingApp.crates)
        (process sealingApp (fun _ : Unit => rotatingTask) rotatingWorld) ([] ++ rotatingEvents) =
          some q ∧
      q.state.db.apiKeys.find 7 = some row ∧
      row.keyHash = sealingApp.crates.hashKey (hexText (List.replicate 32 1)) ∧
      Admits sealingConfig q.state.db.apiKeys.rows row (hexText (List.replicate 32 2)) := by
  have hends : ((Interleaving.run (system sealingApp.crates)
      (process sealingApp (fun _ : Unit => rotatingTask) rotatingWorld) ([] ++ rotatingEvents)).map
        fun q => (q.outcome ()).bind shown) =
      some (some ⟨7, some (hexText (List.replicate 32 1)), hexText (List.replicate 32 2)⟩) := by
    decide +kernel
  obtain ⟨q, hrun, hshown⟩ := Option.map_eq_some_iff.mp hends
  have hdistinct : HashesDistinct rotatingWorld.db.apiKeys := by
    unfold HashesDistinct
    decide
  have hcrates : sealingConfig.crates = sealingApp.crates := rfl
  obtain ⟨row, hfind, -, hhash, -, hadmits⟩ := issued_credentials_work hcrates (by decide)
    (fun _ _ _ => cratesWith_opens sampleAead_sound) hdistinct rfl hrun
      (fun e h => by cases h) hshown
    fun j e hj => absurd rfl hj
  exact ⟨q, row, hrun, hfind, hhash _ rfl, hadmits⟩

end SimplyIpExporter.IssuedCredentials
