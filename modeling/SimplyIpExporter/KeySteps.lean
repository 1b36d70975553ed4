import SimplyIpExporter.Lockstep
import SimplyIpExporter.RequestCalls

/-!
# The table of keys beside one request

What a call can do to the table of keys is said once, and a run is followed beside one
request that is watched by a policy of its own. How the handlers of keys are walked
through, for a policy that looks at nothing else, is at the end.
-/
namespace SimplyIpExporter.KeySteps
open Entities KeyedTables Storage Services Programs Interleaving Lockstep EndpointHandlers
open KeyHandlers Routes HandlerRules RequestCalls

abbrev Keys := Table ApiKey Uuid ApiKey.id

/-- The answer says that a key was written or found. -/
def Tells : (c : Call) → Answer c → Prop
  | .db (.findKey _), .ok (some _) => True
  | .db (.insertKey _), .ok _ | .db (.updateKey _ _), .ok _ | .deleteKey _, .ok _ => True
  | _, _ => False

/-- What a call does to the table, with what it answers. -/
inductive KeyStep (t t' : Keys) : (c : Call) → Answer c → Prop
  | same {c : Call} {r : Answer c} (h : t' = t) (hsilent : ¬Tells c r) : KeyStep t t' c r
  | find {id : Uuid} {row : ApiKey} (h : t' = t) (hfind : t.find id = some row) :
      KeyStep t t' (.db (.findKey id)) (.ok (some row))
  | insert {row : ApiKey} (hnew : ∀ r ∈ t.rows, r.keyHash ≠ row.keyHash) (h :
      t.insert row = some t') :
      KeyStep t t' (.db (.insertKey row)) (.ok row)
  | update {id : Uuid} {ch : KeyChanges} {row : ApiKey} (hfind : t.find id = some row)
      (hnew : ∀ r ∈ t.rows, r.id ≠ id → ch.keyHash ≠ some r.keyHash)
      (h : t' = t.change (fun r => decide (r.id = id)) ch.apply ch.apply_id) :
      KeyStep t t' (.db (.updateKey id ch)) (.ok (ch.apply row))
  | delete {d : KeyDeletion} (h : t' = t.delete fun r => decide (r.id = d.id)) :
      KeyStep t t' (.deleteKey d) (.ok ())

theorem run_insertKey_new {row row' : ApiKey} {db db' : Database}
    (h : (Statement.insertKey row).run db = .ok (row', db')) :
    ∀ r ∈ db.apiKeys.rows, r.keyHash ≠ row.keyHash := by
  intro r hr heq
  have hany : (db.apiKeys.rows.any fun r =>
      decide (r.keyHash = row.keyHash) || (r.isMaster && row.isMaster)) = true :=
    List.any_eq_true.mpr ⟨r, hr, by simp [heq]⟩
  simp only [Statement.run, insertRow, hany, Bool.not_true] at h
  cases h

theorem run_updateKey_new {id : Uuid} {ch : KeyChanges} {row' : ApiKey} {db db' : Database}
    (h : (Statement.updateKey id ch).run db = .ok (row', db')) :
    ∀ r ∈ db.apiKeys.rows, r.id ≠ id → ch.keyHash ≠ some r.keyHash := by
  intro r hr hne heq
  have hany : (db.apiKeys.rows.any fun r =>
      decide (r.id ≠ id ∧ ch.keyHash = some r.keyHash)) = true :=
    List.any_eq_true.mpr ⟨r, hr, by simp [hne, heq]⟩
  simp only [Statement.run, updateRow, hany, Bool.not_true, Bool.false_eq_true, if_false] at h
  split at h <;> cases h

theorem exec_keyStep {crates : Crates} {c : Call} {e : Choice} {s s' : World} {r : Answer c}
    (hexec : exec crates c e s = some (r, s')) : KeyStep s.db.apiKeys s'.db.apiKeys c r := by
  cases hc : c.storing with
  | false =>
      refine .same (by rw [(exec_not_storing hc hexec).1]) ?_
      cases c <;> first | exact id | cases hc
  | true =>
      cases c with
      | db st =>
          cases r with
          | error err =>
              cases exec_db_error hexec
              refine .same rfl ?_
              cases st <;> exact id
          | ok rows =>
              obtain ⟨db, hrun, -, rfl⟩ := exec_db_ok hexec
              cases st with
              | findKey id =>
                  have hfound := congrArg Except.toOption hrun
                  simp only [Statement.run, Except.toOption, Option.some.injEq,
                    Prod.mk.injEq] at hfound
                  obtain ⟨hfind, hdb⟩ := hfound
                  rw [← hdb]
                  cases rows with
                  | none => exact .same rfl fun h => h
                  | some row => exact .find rfl hfind
              | insertKey row =>
                  have hnew := run_insertKey_new hrun
                  obtain ⟨hrow, t, hinsert, hdb⟩ := run_insertKey hrun
                  rw [hrow, hdb]
                  exact .insert hnew hinsert
              | updateKey id ch =>
                  have hnew := run_updateKey_new hrun
                  obtain ⟨row, hfind, hrow, hdb⟩ := run_updateKey hrun
                  rw [hrow, hdb]
                  exact .update hfind hnew rfl
              | _ => exact .same (run_not_onKeys rfl hrun) fun h => h
      | deleteKey d =>
          obtain ⟨-, ⟨hdb, err, rfl⟩ | ⟨id, t, hrun, rfl⟩⟩ := exec_deleteKey hexec
          · exact .same (by rw [hdb]) fun h => h
          · obtain ⟨target, details, audits, -, -, -, hdb⟩ := KeyDeletion.run_ok hrun
            refine .delete ?_
            rw [hdb]
            cases target <;> rfl
      | _ => cases hc

section Steps
variable {t t' : Keys} {c : Call} {r : Answer c} {id : Uuid}

/-- No two keys have one hash. -/
def HashesDistinct (t : Keys) : Prop :=
  ∀ row ∈ t.rows, ∀ row' ∈ t.rows, row.keyHash = row'.keyHash → row.id = row'.id

theorem KeyStep.hashesDistinct (h : KeyStep t t' c r) (ht : HashesDistinct t) :
    HashesDistinct t' := by
  cases h with
  | same h | find h =>
      rw [h]
      exact ht
  | insert hnew h =>
      rename_i new
      intro row hrow row' hrow' heq
      rw [(Table.rows_insert h).1, List.mem_append, List.mem_singleton] at hrow hrow'
      rcases hrow with hrow | rfl <;> rcases hrow' with hrow' | rfl
      · exact ht row hrow row' hrow' heq
      · exact absurd heq (hnew row hrow)
      · exact absurd heq.symm (hnew row' hrow')
      · rfl
  | update hfind hnew h =>
      rename_i id ch found
      -- a row that was written to, and one that was not
      have hmixed : ∀ x ∈ t.rows, ∀ y ∈ t.rows, x.id = id → y.id ≠ id →
          (ch.apply x).keyHash ≠ y.keyHash := by
        intro x hx y hy hxid hyid heq
        cases hhash : ch.keyHash with
        | none =>
            have hkept : x.keyHash = y.keyHash := by simpa [KeyChanges.apply, hhash] using heq
            exact hyid ((ht x hx y hy hkept).symm.trans hxid)
        | some hash =>
            refine hnew y hy hyid ?_
            rw [hhash, ← heq]
            simp [KeyChanges.apply, hhash]
      rw [h]
      intro row hrow row' hrow' heq
      obtain ⟨x, hx, rfl⟩ := List.mem_map.mp hrow
      obtain ⟨y, hy, rfl⟩ := List.mem_map.mp hrow'
      by_cases hxid : x.id = id <;> by_cases hyid : y.id = id
      · simp [hxid, hyid, KeyChanges.apply]
      · simp only [hxid, hyid, decide_true, decide_false, if_true, Bool.false_eq_true,
          if_false] at heq
        exact absurd heq (hmixed x hx y hy hxid hyid)
      · simp only [hxid, hyid, decide_true, decide_false, if_true, Bool.false_eq_true,
          if_false] at heq
        exact absurd heq.symm (hmixed y hy x hx hyid hxid)
      · simp only [hxid, hyid, decide_false, Bool.false_eq_true, if_false] at heq ⊢
        exact ht x hx y hy heq
  | delete h =>
      rw [h]
      intro row hrow row' hrow' heq
      exact ht row (List.mem_of_mem_filter hrow) row' (List.mem_of_mem_filter hrow') heq

/-- A key that is not deleted stays, and changes only by being updated. -/
theorem KeyStep.find_kept {row : ApiKey} (h : KeyStep t t' c r) (hfind : t.find id = some row)
    (hkept : ∀ d, c = .deleteKey d → d.id ≠ id) :
    ∃ row', t'.find id = some row' ∧
      (row' = row ∨ ∃ ch, c = .db (.updateKey id ch) ∧ row' = ch.apply row) := by
  cases h with
  | same h | find h =>
      rw [h]
      exact ⟨row, hfind, .inl rfl⟩
  | insert hnew h =>
      rename_i new
      refine ⟨row, ?_, .inl rfl⟩
      rw [Table.find_insert h, if_neg, hfind]
      intro hid
      have hnone := (Table.rows_insert h).2
      rw [hid, hfind] at hnone
      cases hnone
  | update hfound hnew h =>
      rename_i id' ch found
      have hid : row.id = id := (Table.find_eq_some.mp hfind).2
      rw [h, Table.find_change, hfind]
      by_cases hsame : id = id'
      · subst hsame
        refine ⟨ch.apply row, by simp [hid], .inr ⟨ch, rfl, rfl⟩⟩
      · refine ⟨row, ?_, .inl rfl⟩
        simp [hid, hsame]
  | delete h =>
      rename_i d
      have hid : row.id = id := (Table.find_eq_some.mp hfind).2
      refine ⟨row, ?_, .inl rfl⟩
      rw [h, Table.find_delete, hfind]
      simp [hid, Ne.symm (hkept d rfl)]

/-- A key that was not there has been inserted. -/
theorem KeyStep.find_new {row : ApiKey} (h : KeyStep t t' c r) (hnone : t.find id = none)
    (hfind : t'.find id = some row) : c = .db (.insertKey row) ∧ row.id = id := by
  cases h with
  | same h | find h =>
      rw [h, hnone] at hfind
      cases hfind
  | insert hnew h =>
      rename_i new
      rw [Table.find_insert h, hnone] at hfind
      split at hfind
      · rename_i hid
        cases hfind
        exact ⟨rfl, hid⟩
      · cases hfind
  | update hfound hnew h =>
      rw [h, Table.find_change, hnone] at hfind
      cases hfind
  | delete h =>
      rw [h, Table.find_delete, hnone] at hfind
      cases hfind

/-- Looking the hash of a key up finds the key. -/
theorem find_of_hash {row : ApiKey} (ht : HashesDistinct t) (hfind : t.find id = some row) :
    t.rows.find? (fun key => decide (key.keyHash = row.keyHash)) = some row := by
  have hmem := (Table.find_eq_some.mp hfind).1
  have hsome : (t.rows.find? fun key => decide (key.keyHash = row.keyHash)).isSome = true :=
    List.find?_isSome.mpr ⟨row, hmem, by simp⟩
  obtain ⟨row', hrow'⟩ := Option.isSome_iff_exists.mp hsome
  have hhash : row'.keyHash = row.keyHash := by
    have hpicked := List.find?_some hrow'
    simpa using hpicked
  have hmem' := List.mem_of_find?_eq_some hrow'
  rw [hrow', t.eq_of_key hmem' hmem (ht row' hmem' row hmem hhash)]

end Steps

/-- The task is a request that rotates or deletes the key. -/
def Reissues (id : Uuid) (task : Task) : Prop :=
  ∃ caller r, task = .request caller r ∧ (rotatedKey r = some id ∨ deletedKey r = some id)

section Callers
variable {t t' : Keys} {c : Call} {r : Answer c} {id : Uuid} {task : Task}

theorem calls_insertKey {row : ApiKey} (h : TaskCalls task (.db (.insertKey row))) :
    row.isMaster = false := by
  obtain ⟨pass, h⟩ := h
  cases task with
  | request caller r => exact h.1
  | cleanup | sync passes => cases h

theorem calls_updateKey {ch : KeyChanges} (h : TaskCalls task (.db (.updateKey id ch))) :
    (ch.keyHash = none ∧ ch.signingSecret = none) ∨ Reissues id task := by
  obtain ⟨pass, h⟩ := h
  cases task with
  | request caller r => exact h.1.imp_right fun h => ⟨caller, r, rfl, .inl h⟩
  | cleanup | sync passes => cases h

theorem calls_deleteKey {d : KeyDeletion} (h : TaskCalls task (.deleteKey d)) :
    Reissues d.id task := by
  obtain ⟨pass, h⟩ := h
  cases task with
  | request caller r => exact ⟨caller, r, rfl, .inr h.1.1⟩
  | cleanup | sync passes => cases h

/-- A task that is not about the key leaves its credentials alone. -/
theorem KeyStep.find_undisturbed {row : ApiKey} (h : KeyStep t t' c r) (hcalls : TaskCalls task c)
    (htask : ¬Reissues id task) (hfind : t.find id = some row) :
    ∃ row', t'.find id = some row' ∧ row'.keyHash = row.keyHash ∧
      row'.signingSecret = row.signingSecret ∧ row'.isMaster = row.isMaster := by
  have hkept : ∀ d, c = .deleteKey d → d.id ≠ id := by
    rintro d rfl rfl
    exact htask (calls_deleteKey hcalls)
  obtain ⟨row', hfind', rfl | ⟨ch, rfl, rfl⟩⟩ := h.find_kept hfind hkept
  · exact ⟨row', hfind', rfl, rfl, rfl⟩
  · obtain ⟨hhash, hsecret⟩ := (calls_updateKey hcalls).resolve_right htask
    refine ⟨_, hfind', ?_, ?_, rfl⟩
    · simp [KeyChanges.apply, hhash]
    · simp [KeyChanges.apply, hsecret]

end Callers

section Beside
variable {I : Type} [DecidableEq I] {app : AppState} {tasks : I → Task} {w₀ : World}
  {past rest : List (Event I Choice Change)} {p q : Process I} {i : I}

/-- From one moment on, one task is watched by a policy of its own. What its calls keep
together with what is watched, and what the calls of all other tasks keep, holds at every
later moment, where calls are as is assumed of them. -/
theorem run_beside {M : Type} (P : Policy Answer M)
    (post : M → Option (Except AppError Response) → Prop) (Inv : M → World → Prop)
    (suits : Call → World → Prop)
    (hp : Interleaving.run (system app.crates) (process app tasks w₀) past = some p)
    (hq : Interleaving.run (system app.crates) (process app tasks w₀) (past ++ rest) = some q)
    (halong : Along (system app.crates) (suited suits) p rest) {m₀ : M}
    (hfollows : Follows P post (p.threads i) m₀) (hstart : Inv m₀ p.state)
    (hown : ∀ m c e s r s', suits c s → Inv m s → P.permits m c →
      exec app.crates c e s = some (r, s') → ∃ m', P.moves m c r m' ∧ Inv m' s')
    (hother : ∀ m j c e s r s', j ≠ i → .act j e ∈ rest → suits c s → Inv m s →
      TaskCalls (tasks j) c →
      exec app.crates c e s = some (r, s') → Inv m s')
    (hworld : ∀ m ch s s', Inv m s → env ch s = some s' → Inv m s') :
    ∃ m, Follows P post (q.threads i) m ∧ Inv m q.state := by
  induction rest using List.reverseRecOn generalizing q with
  | nil =>
      rw [List.append_nil, hp] at hq
      cases hq
      exact ⟨m₀, hfollows, hstart⟩
  | append_singleton rest ev ih =>
      rw [← List.append_assoc, run_append_singleton] at hq
      obtain ⟨q₁, hq₁, hstep⟩ := Option.bind_eq_some_iff.mp hq
      obtain ⟨m, hm, hinv⟩ := ih hq₁ halong.init fun m j c e s r s' hj hmem =>
        hother m j c e s r s' hj (List.mem_append_left _ hmem)
      have hmoment : Interleaving.run (system app.crates) p rest = some q₁ := by
        rw [run_append, hp, Option.bind_some] at hq₁
        exact hq₁
      have hsuited := halong.last hmoment
      cases ev with
      | world ch =>
          obtain ⟨henv, hthreads⟩ := step_world hstep
          refine ⟨m, ?_, hworld m ch q₁.state q.state hinv henv⟩
          rw [hthreads]
          exact hm
      | act j e =>
          obtain ⟨c, next, r, hc, hexec, hthreads⟩ := step_act hstep
          have hupcoming : (q₁.threads j).upcoming = some c := by rw [hc]; rfl
          have hsuits : suits c q₁.state := hsuited c hupcoming
          by_cases hj : j = i
          · subst hj
            rw [hc, follows_call] at hm
            obtain ⟨m', hmoves, hinv'⟩ := hown m c e q₁.state r q.state hsuits hinv hm.1 hexec
            refine ⟨m', ?_, hinv'⟩
            rw [hthreads, Function.update_self]
            exact hm.2 r m' hmoves
          · refine ⟨m, ?_, ?_⟩
            · rw [hthreads, Function.update_of_ne (Ne.symm hj)]
              exact hm
            · exact hother m j c e q₁.state r q.state hj (by simp) hsuits hinv
                (upcoming_calls hq₁ hupcoming) hexec

theorem exec_keys_env {ch : Change} {s s' : World} (h : env ch s = some s') : s'.db = s.db := by
  rw [env_eq_some h]

theorem run_hashesDistinct (hdistinct : HashesDistinct w₀.db.apiKeys)
    (hp : Interleaving.run (system app.crates) (process app tasks w₀) past = some p) :
    HashesDistinct p.state.db.apiKeys := by
  have hnil : Interleaving.run (system app.crates) (process app tasks w₀) [] =
      some (process app tasks w₀) := rfl
  refine run_between (fun w => HashesDistinct w.db.apiKeys) hnil hp hdistinct ?_ ?_
  · intro i c e s r s' _ h _ hexec
    exact (exec_keyStep hexec).hashesDistinct h
  · intro ch s s' h henv
    rw [exec_keys_env henv]
    exact h

end Beside

def aboutKeys : Call → Bool
  | .db (.findKey _) | .db (.insertKey _) | .db (.updateKey _ _) | .deleteKey _ => true
  | _ => false

/-- What a watcher of the keys demands of the calls that write them, and what it makes of
the answers that tell about one. -/
structure KeyWatch (M : Type) where
  inserts : M → ApiKey → Prop
  updates : M → Uuid → KeyChanges → Prop
  deletes : M → KeyDeletion → Prop
  found : M → ApiKey → M
  inserted : M → ApiKey → M
  updated : M → Uuid → KeyChanges → M
  deleted : M → KeyDeletion → M

/-- Other calls are free, and nothing is learnt from them. -/
def KeyWatch.policy {M : Type} (w : KeyWatch M) : Policy Answer M where
  permits m
    | .db (.insertKey row) => w.inserts m row
    | .db (.updateKey id ch) => w.updates m id ch
    | .deleteKey d => w.deletes m d
    | _ => True
  moves m
    | .db (.findKey id), .ok (some row), m' => row.id = id ∧ m' = w.found m row
    | .db (.insertKey row), .ok row', m' => row' = row ∧ m' = w.inserted m row
    | .db (.updateKey id ch), .ok row', m' => row'.id = id ∧ m' = w.updated m id ch
    | .deleteKey d, .ok _, m' => m' = w.deleted m d
    | _, _, m' => m' = m

namespace KeyWatch
variable {M A : Type} {w : KeyWatch M} {good : M → A → Prop} {m : M}

theorem permits_other {c : Call} (hc : aboutKeys c = false) : w.policy.permits m c := by
  cases c with
  | db st => cases st <;> trivial
  | deleteKey d => cases hc
  | _ => trivial

theorem moves_other {c : Call} {r : Answer c} {m' : M} (hc : aboutKeys c = false)
    (h : w.policy.moves m c r m') : m' = m := by
  cases c with
  | db st => cases st <;> first | exact h | cases hc
  | deleteKey d => cases hc
  | _ => exact h

theorem moves_silent {c : Call} {r : Answer c} (hsilent : ¬Tells c r) : w.policy.moves m c r m := by
  cases c with
  | db st =>
      cases r with
      | error e => cases st <;> rfl
      | ok rows =>
          cases st with
          | findKey id =>
              cases rows with
              | none => rfl
              | some row => exact absurd trivial hsilent
          | insertKey row | updateKey id ch => exact absurd trivial hsilent
          | _ => rfl
  | deleteKey d =>
      cases r with
      | error e => rfl
      | ok u => exact absurd trivial hsilent
  | _ => rfl

theorem quiet {c : Call} (hc : aboutKeys c = false) : Quiet w.policy m c :=
  ⟨permits_other hc, fun _ _ => moves_other hc⟩

theorem still_entry (entry : AuditEntry) : Still w.policy m (createAuditLog entry) :=
  still_createAuditLog (quiet rfl) (quiet rfl) fun _ _ => quiet rfl

/-- The key that a handler is about, once it was found. -/
theorem achieves_findKey {id : Uuid} {f : ApiKey → Handler A}
    (hrest : ∀ existing : ApiKey, existing.id = id →
      Achieves w.policy good (f existing) (w.found m existing)) :
    Achieves w.policy good (do
      let found ← statement (.findKey id)
      let existing ← attempt (orNotFound found)
      f existing : Handler A) m := by
  refine achieves_statement_bind trivial ?_
  intro found m' hfound
  refine achieves_attempt_bind fun existing hexisting => ?_
  cases orNotFound_ok hexisting
  obtain ⟨hid, rfl⟩ := hfound
  exact hrest existing hid

end KeyWatch

end SimplyIpExporter.KeySteps
