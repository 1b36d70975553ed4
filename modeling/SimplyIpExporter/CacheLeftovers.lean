import SimplyIpExporter.Bootstrap
import SimplyIpExporter.CacheFreshness

/-!
# What a deleted endpoint leaves in the cache

A deletion removes the row and evicts the entry right afterwards. The worker treats the
rows of an earlier listing, and stores for a row without looking whether it still
exists; storing makes the entry anew. As long as it stores only for rows that exist or
whose eviction is still to come, every entry has its row whenever nothing is under way.
An entry stored after the eviction stays.
-/
namespace SimplyIpExporter.CacheLeftovers
open Entities KeyedTables Storage Services Programs Interleaving EndpointHandlers SyncWorker Routes
open SyncPasses Bootstrap HandlerRules

/-- The endpoint that a call stores for. -/
def storesFor : Call → Option Uuid
  | .applyFull id _ | .applyDiff id _ => some id
  | _ => none

def evicted : Call → Option Uuid
  | .evict id => some id
  | _ => none

/-- The endpoint whose row a call has removed, so that its entry is to be evicted. -/
def removed : (c : Call) → Answer c → Option Uuid
  | .db (.deleteEndpoint id), .ok rows => if rows = 0 then none else some id
  | _, _ => none

section Calls
variable {crates : Crates} {c : Call} {e : Choice} {s s' : World} {r : Answer c} {id : Uuid}

theorem exec_cache (hexec : exec crates c e s = some (r, s')) (hstored : storesFor c = none)
    (hevicted : evicted c = none) : s'.cache = s.cache := by
  cases c with
  | db st =>
      cases r with
      | error err => rw [exec_db_error hexec]
      | ok rows =>
          obtain ⟨db, -, -, rfl⟩ := exec_db_ok hexec
          rfl
  | evict id => cases hevicted
  | applyFull id rs | applyDiff id rs => cases hstored
  | fetchIps groups since => rw [(exec_fetchIps hexec).1]
  | fullSyncDue id =>
      obtain ⟨t, -, rfl⟩ := exec_fullSyncDue hexec
      rfl
  | now | newUuid | random length =>
      obtain ⟨hsame, -⟩ := exec_drawing rfl hexec
      rw [hsame]
  | listGroups =>
      cases e <;> cases hexec
      rfl
  | deleteKey d =>
      cases e with
      | audited id t =>
          simp only [exec] at hexec
          split at hexec
          · split at hexec <;> cases hexec <;> rfl
          · cases hexec
      | fail =>
          cases hexec
          rfl
      | _ => cases hexec

/-- An entry was there before and is not evicted, or the call stores it. -/
theorem exec_cached (hexec : exec crates c e s = some (r, s'))
    (hcached : (s'.cache.lookup id).isSome = true) :
    ((s.cache.lookup id).isSome = true ∧ evicted c ≠ some id) ∨ storesFor c = some id := by
  by_cases hstored : storesFor c = some id
  · exact .inr hstored
  refine .inl ?_
  cases c with
  | applyFull id' rs =>
      obtain ⟨t, rfl⟩ := exec_applyFull hexec
      have hne : id ≠ id' := fun h => hstored (congrArg some h.symm)
      refine ⟨?_, (Option.some_ne_none id).symm⟩
      simpa [AddressCache.applyFull, AList.lookup_insert_ne hne] using hcached
  | applyDiff id' rs =>
      rw [exec_applyDiff hexec] at hcached
      have hne : id ≠ id' := fun h => hstored (congrArg some h.symm)
      refine ⟨?_, (Option.some_ne_none id).symm⟩
      simpa [AddressCache.applyDiff, AList.lookup_insert_ne hne] using hcached
  | evict id' =>
      cases e <;> cases hexec
      by_cases hid : id' = id
      · subst hid
        simp [AddressCache.evict, AList.lookup_erase] at hcached
      · refine ⟨?_, fun h => hid (Option.some.inj h)⟩
        simpa [AddressCache.evict, AList.lookup_erase_ne (Ne.symm hid)] using hcached
  | _ =>
      rw [exec_cache hexec rfl rfl] at hcached
      exact ⟨hcached, (Option.some_ne_none id).symm⟩

/-- Only insertions and deletions change which endpoints there are. -/
theorem exec_ids (hexec : exec crates c e s = some (r, s'))
    (hinsert : ∀ row, c ≠ .db (.insertEndpoint row))
    (hdelete : ∀ id, c ≠ .db (.deleteEndpoint id)) :
    s'.db.endpoints.find id = none ↔ s.db.endpoints.find id = none := by
  cases hc : c.storing with
  | false => rw [(exec_not_storing hc hexec).1]
  | true =>
      cases c with
      | db st =>
          cases r with
          | error err => rw [exec_db_error hexec]
          | ok rows =>
              obtain ⟨db, hrun, -, rfl⟩ := exec_db_ok hexec
              cases st with
              | insertEndpoint row => exact absurd rfl (hinsert row)
              | deleteEndpoint id => exact absurd rfl (hdelete id)
              | updateEndpoint id' ch =>
                  obtain ⟨row, -, -, rfl⟩ := run_updateEndpoint hrun
                  simp only [Table.find_change, Option.map_eq_none_iff]
              | _ => rw [run_not_onEndpoints rfl hrun]
      | deleteKey d =>
          obtain ⟨-, ⟨hdb, -⟩ | ⟨auditId, t, hrun, -⟩⟩ := exec_deleteKey hexec
          · rw [hdb]
          · exact KeyDeletion.find_endpoint hrun id
      | _ => cases hc

theorem exec_deleteEndpoint {id' : Uuid} {r : Answer (.db (.deleteEndpoint id'))}
    (hexec : exec crates (.db (.deleteEndpoint id')) e s = some (r, s')) :
    s'.db = s.db ∨ ∃ rows, r = .ok rows ∧
      rows = s.db.endpoints.rows.countP (fun row => decide (row.id = id')) ∧
      s'.db.endpoints = s.db.endpoints.delete fun row => decide (row.id = id') := by
  cases r with
  | error err => exact .inl (by rw [exec_db_error hexec])
  | ok rows =>
      obtain ⟨db, hrun, -, rfl⟩ := exec_db_ok hexec
      cases hrun
      exact .inr ⟨_, rfl, rfl, rfl⟩

/-- A row stays, or its removal is answered. -/
theorem exec_present (hexec : exec crates c e s = some (r, s'))
    (hrow : (s.db.endpoints.find id).isSome = true) :
    (s'.db.endpoints.find id).isSome = true ∨ removed c r = some id := by
  by_cases hdelete : ∃ id', c = .db (.deleteEndpoint id')
  · obtain ⟨id', rfl⟩ := hdelete
    rcases exec_deleteEndpoint hexec with hdb | ⟨rows, rfl, hrows, hendpoints⟩
    · rw [hdb]
      exact .inl hrow
    · obtain ⟨row, hfind⟩ := Option.isSome_iff_exists.mp hrow
      obtain ⟨hmem, hid⟩ := Table.find_eq_some.mp hfind
      by_cases hsame : id' = id
      · have hpos : rows ≠ 0 := by
          rw [hrows]
          exact Nat.pos_iff_ne_zero.mp
            (List.countP_pos_iff.mpr ⟨row, hmem, decide_eq_true (hid.trans hsame.symm)⟩)
        refine .inr ?_
        rw [← hsame]
        exact if_neg hpos
      · have hkept : row.id ≠ id' := fun h => hsame (h.symm.trans hid)
        refine .inl ?_
        rw [hendpoints, Table.find_delete, hfind]
        simp [hkept]
  · by_cases hinsert : ∃ row, c = .db (.insertEndpoint row)
    · obtain ⟨row, rfl⟩ := hinsert
      refine .inl ?_
      cases r with
      | error err =>
          rw [exec_db_error hexec]
          exact hrow
      | ok created =>
          obtain ⟨db, hrun, -, rfl⟩ := exec_db_ok hexec
          obtain ⟨-, t, ht, rfl⟩ := run_insertEndpoint hrun
          rw [Table.find_insert ht]
          split
          · rfl
          · exact hrow
    · refine .inl ?_
      have hids : s'.db.endpoints.find id = none ↔ s.db.endpoints.find id = none :=
        exec_ids hexec (fun row h => hinsert ⟨row, h⟩) fun id' h => hdelete ⟨id', h⟩
      rw [← Option.ne_none_iff_isSome] at hrow ⊢
      exact fun hnone => hrow (hids.mp hnone)

/-- A row that is not there comes back only by an insertion. -/
theorem exec_absent (hexec : exec crates c e s = some (r, s'))
    (hinsert : ∀ row, c ≠ .db (.insertEndpoint row)) (hrow : s.db.endpoints.find id = none) :
    s'.db.endpoints.find id = none := by
  by_cases hdelete : ∃ id', c = .db (.deleteEndpoint id')
  · obtain ⟨id', rfl⟩ := hdelete
    rcases exec_deleteEndpoint hexec with hdb | ⟨rows, -, -, hendpoints⟩
    · rw [hdb]
      exact hrow
    · rw [hendpoints, Table.find_delete, hrow]
      rfl
  · exact (exec_ids hexec hinsert fun id' h => hdelete ⟨id', h⟩).mpr hrow

end Calls

/-- Creations and deletions of endpoints, and the worker. -/
def concerned : Task → Bool
  | .request _ (.createEndpoint _) | .request _ (.deleteEndpoint _) | .sync _ => true
  | _ => false

def working : Task → Bool
  | .request _ _ => false
  | _ => true

/-- With an eviction due nothing else is called, without one nothing is evicted. The
worker neither inserts nor deletes. -/
def permits (t : Task) : Option Uuid → Call → Prop
  | some id, c => c = .evict id
  | none, .evict _ => False
  | none, .db (.insertEndpoint _) | none, .db (.deleteEndpoint _) => working t = false
  | none, _ => True

/-- What is watched is the eviction that is due. -/
def evicting (t : Task) : Policy Answer (Option Uuid) where
  permits := permits t
  moves _ c r due := due = removed c r

section Requests
variable {t : Task}

/-- Calls after which nothing is due, and which every task may make. -/
def uneventful : Call → Bool
  | .evict _ | .db (.insertEndpoint _) | .db (.deleteEndpoint _) => false
  | _ => true

theorem permits_uneventful {c : Call} (hc : uneventful c = true) : permits t none c := by
  unfold permits
  split <;> trivial

theorem removed_uneventful {c : Call} {r : Answer c} (hc : uneventful c = true) :
    removed c r = none := by
  unfold removed
  split
  · cases hc
  · rfl

theorem quiet_uneventful {c : Call} (hc : uneventful c = true) : Quiet (evicting t) none c :=
  ⟨permits_uneventful hc, fun _ _ hdue => hdue.trans (removed_uneventful hc)⟩

/-- The request ends with no eviction due. -/
abbrev Clears (t : Task) {A : Type} (h : Handler A) : Prop := Still (evicting t) none h

theorem clears_entry (entry : AuditEntry) : Clears t (createAuditLog entry) :=
  still_createAuditLog (quiet_uneventful rfl) (quiet_uneventful rfl) fun _ _ => quiet_uneventful rfl

variable (app : AppState) (caller : Caller)

theorem clears_createEndpoint (ht : working t = false) (payload : CreateEndpointPayload) :
    Clears t (createEndpoint app caller payload) := by
  refine check_bind (fun _ => rfl) fun _ _ => check_bind (fun _ => rfl) fun _ _ => ?_
  refine (still_validateGroupAccess (quiet_uneventful rfl) _).bind (fun _ => rfl) fun _ => ?_
  refine check_bind (fun _ => rfl) fun _ _ => check_bind (fun _ => rfl) fun _ _ => ?_
  refine check_bind (fun _ => rfl) fun _ _ => Quiet.ask_bind (quiet_uneventful rfl) fun now => ?_
  refine Quiet.ask_bind (quiet_uneventful rfl) fun id =>
    Quiet.ask_bind (quiet_uneventful rfl) fun token => ?_
  refine follows_statement_bind ht ?_ ?_
  · intro e due hdue
    exact hdue
  · rintro created _ rfl
    exact (clears_entry _).bind (fun _ => rfl) fun _ => still_pure _

/-- Once the row is removed, the eviction comes next. -/
theorem clears_deleteEndpoint (ht : working t = false) (id : Uuid) :
    Clears t (deleteEndpoint app caller id) := by
  refine Quiet.statement_bind (quiet_uneventful rfl) (fun _ => rfl) fun found _ => ?_
  refine check_bind (fun _ => rfl) fun existing _ => check_bind (fun _ => rfl) fun _ _ => ?_
  refine follows_statement_bind ht ?_ ?_
  · intro e due hdue
    exact hdue
  · rintro rows _ rfl
    by_cases hzero : rows = 0
    · subst hzero
      exact .attempt_bind (fun _ _ => rfl) nofun
    · have hdue : removed (.db (.deleteEndpoint id)) (.ok rows) = some id := if_neg hzero
      rw [hdue]
      refine .attempt_bind ?_ fun _ _ => ?_
      · intro e he
        rw [if_neg hzero] at he
        cases he
      · refine .ask_bind rfl ?_
        rintro _ _ rfl
        exact clears_entry _

theorem clears_handle {caller : Caller} {r : ApiRequest}
    (h : concerned (.request caller r) = true) :
    Clears (.request caller r) (handle app caller r) := by
  cases r with
  | createEndpoint payload =>
      refine check_bind (fun _ => rfl) fun p _ => ?_
      exact Still.bind (clears_createEndpoint app caller rfl p) (fun _ => rfl) fun _ => still_pure _
  | deleteEndpoint id =>
      refine check_bind (fun _ => rfl) fun id _ => ?_
      exact Still.bind (clears_deleteEndpoint app caller rfl id) (fun _ => rfl) fun _ =>
        still_pure _
  | _ => cases h

end Requests

/-- The worker is not watched to its end: it never has an eviction due. -/
def nothingDue (t : Task) (due : Option Uuid) (_ : Option (Except AppError Response)) : Prop :=
  working t = false → due = none

theorem program_clears {app : AppState} {t : Task} (ht : concerned t = true) :
    Follows (evicting t) (nothingDue t) (t.program app) none := by
  cases t with
  | request caller r =>
      exact Follows.bind (clears_handle app ht) fun _ _ hdue => .pure fun _ => hdue
  | cleanup => cases ht
  | sync passes =>
      have hfree : Follows (evicting (.sync passes)) (fun _ _ => True)
          ((Task.sync passes).program app) none := by
        refine Follows.weaken (L := fun _ due => due = none) ?_ ?_ rfl
          (sync_follows app passes (.listed []))
        · rintro pass _ c rfl hpermits
          cases c with
          | db st => cases st <;> first | exact hpermits.elim | trivial
          | evict id => exact hpermits.elim
          | _ => trivial
        · rintro pass due c answer due' rfl hpermits hmoves
          refine ⟨pass.next c answer, rfl, ?_⟩
          rw [show due' = removed c answer from hmoves]
          unfold removed
          split
          · exact hpermits.elim
          · rfl
      exact hfree.mono fun _ _ _ => nofun

section Runs
variable {I : Type} [DecidableEq I]

/-- What is stored for has its row, or the eviction of its entry is still to come. -/
def Lands (p : Process I) : Event I Choice Change → Prop
  | .act i _ => ∀ id ∈ (p.threads i).upcoming.bind storesFor,
      (p.state.db.endpoints.find id).isSome = true ∨
        ∃ j, (p.threads j).upcoming.bind evicted = some id
  | .world _ => True

instance [Fintype I] (p : Process I) : (ev : Event I Choice Change) → Decidable (Lands p ev)
  -- Over the option and not over all identifiers, of which there are finitely many too.
  | .act i _ => Option.decidableForallMem ((p.threads i).upcoming.bind storesFor)
  | .world _ => inferInstanceAs (Decidable True)

/-- Every entry has its row, or is to be evicted next by some request. -/
structure Backed (tasks : I → Task) (strict : Prop) (due : I → Option Uuid) (s : World) : Prop where
  entries : strict → ∀ id, (s.cache.lookup id).isSome = true →
    (s.db.endpoints.find id).isSome = true ∨ ∃ i, due i = some id
  workers : ∀ i, working (tasks i) = true → due i = none

variable {app : AppState} {tasks : I → Task} {w : World} {strict : Prop} {due : I → Option Uuid}
  {p : Process I} {i : I}

/-- An eviction that comes next is the one that is due. -/
theorem due_of_upcoming {t : Task} {thread : Program Answer (Option (Except AppError Response))}
    {due : Option Uuid} {id : Uuid} (h : Follows (evicting t) (nothingDue t) thread due)
    (hupcoming : thread.upcoming.bind evicted = some id) : due = some id := by
  obtain ⟨c, hc, hevicted⟩ := Option.bind_eq_some_iff.mp hupcoming
  have hpermits : permits t due c := h.permits_upcoming hc
  cases c with
  | evict id' =>
      cases hevicted
      cases due with
      | none => exact hpermits.elim
      | some id' =>
          cases hpermits
          rfl
  | _ => cases hevicted

theorem Backed.step {e : Choice} {c : Call} {next : Answer c → Program Answer _} {r : Answer c}
    {s' : World} (h : Backed tasks strict due p.state)
    (hfollows : ∀ j, Follows (evicting (tasks j)) (nothingDue (tasks j)) (p.threads j) (due j))
    (hc : p.threads i = .call c next) (hexec : exec app.crates c e p.state = some (r, s'))
    (hlands : strict → Lands p (.act i e)) :
    Backed tasks strict (Function.update due i (removed c r)) s' := by
  have hpermits : permits (tasks i) (due i) c := (hfollows i).permits_upcoming (by rw [hc]; rfl)
  refine ⟨?_, ?_⟩
  · intro hstrict id hcached
    -- A row that was there is there, or this call removed it and its eviction is due.
    have hrowed : (p.state.db.endpoints.find id).isSome = true →
        (s'.db.endpoints.find id).isSome = true ∨
        ∃ j, Function.update due i (removed c r) j = some id := by
      intro hrow
      rcases exec_present hexec hrow with hrow' | hremoved
      · exact .inl hrow'
      · exact .inr ⟨i, by rw [Function.update_self, hremoved]⟩
    -- Where the entry comes from: it is stored now, or it was there and is not evicted now.
    rcases exec_cached hexec hcached with ⟨hbefore, hnot⟩ | hstored
    · rcases h.entries hstrict id hbefore with hrow | ⟨j, hj⟩
      · exact hrowed hrow
      · have hne : j ≠ i := by
          rintro rfl
          rw [hj] at hpermits
          exact hnot (by rw [show c = .evict id from hpermits]; rfl)
        exact .inr ⟨j, by rw [Function.update_of_ne hne, hj]⟩
    · have hupcoming : id ∈ (p.threads i).upcoming.bind storesFor := by
        rw [hc]
        exact hstored
      rcases hlands hstrict id hupcoming with hrow | ⟨j, hj⟩
      · exact hrowed hrow
      · have hne : j ≠ i := by
          rintro rfl
          rw [hc] at hj
          cases c <;> cases hstored <;> cases hj
        exact .inr ⟨j, by rw [Function.update_of_ne hne, due_of_upcoming (hfollows j) hj]⟩
  · intro j hworking
    by_cases hj : j = i
    · subst hj
      rw [h.workers j hworking] at hpermits
      rw [Function.update_self]
      unfold removed
      split
      · rw [show working (tasks j) = false from hpermits] at hworking
        cases hworking
      · rfl
    · rw [Function.update_of_ne hj]
      exact h.workers j hworking

theorem run_backed {events : List (Event I Choice Change)}
    (htasks : ∀ i, concerned (tasks i) = true)
    (hstart : strict → ∀ id, (w.cache.lookup id).isSome = true →
      (w.db.endpoints.find id).isSome = true)
    (hrun : Interleaving.run (system app.crates) (process app tasks w) events = some p)
    (hlands : strict → Along (system app.crates) Lands (process app tasks w) events) :
    ∃ due, Watched (fun i => evicting (tasks i)) (fun i => nothingDue (tasks i))
      (fun _ => Backed tasks strict) events p due := by
  have hinit : Watched (fun i => evicting (tasks i)) (fun i => nothingDue (tasks i))
      (fun _ : List (Event I Choice Change) => Backed tasks strict) [] (process app tasks w)
      (fun _ => none) := by
    refine ⟨fun i => program_clears (htasks i), ?_, fun _ _ => rfl⟩
    exact fun hstrict id hcached => .inl (hstart hstrict id hcached)
  refine run_watched _ _ (fun _ => Backed tasks strict) (fun p ev => strict → Lands p ev)
    hinit ?_ ?_
    hrun ?_
  · intro past p due i e c next r s' _ hdue hc hcond _ hexec
    exact ⟨removed c r, rfl, hdue.inv.step hdue.follows hc hexec hcond⟩
  · intro past p due ch s' _ hdue _ henv
    rw [env_eq_some henv]
    exact ⟨hdue.inv.entries, hdue.inv.workers⟩
  · intro before ev rest q heq hbefore hstrict
    exact hlands hstrict before ev rest q heq hbefore

/-- The task has not begun, or has ended. -/
def Idle (app : AppState) (t : Task)
    (thread : Program Answer (Option (Except AppError Response))) : Prop :=
  thread = t.program app ∨ ∃ outcome, thread = .pure outcome

theorem due_of_idle {t : Task} {thread : Program Answer (Option (Except AppError Response))}
    {due : Option Uuid} (ht : concerned t = true) (hrequest : working t = false)
    (h : Follows (evicting t) (nothingDue t) thread due) (hidle : Idle app t thread) :
    due = none := by
  cases thread with
  | pure outcome => exact follows_value.mp h hrequest
  | call c next =>
      rcases hidle with hbegin | ⟨outcome, houtcome⟩
      · have hfirst : permits t none c :=
          (program_clears ht).permits_upcoming (by rw [← hbegin]; rfl)
        have hnext : permits t due c := h.permits_upcoming rfl
        cases due with
        | none => rfl
        | some id =>
            rw [show c = .evict id from hnext] at hfirst
            exact hfirst.elim
      · cases houtcome

end Runs

/-- Creations and deletions of endpoints beside the worker, from a state in which every
entry has its row:

* if the worker stores only for rows that exist or whose entry is still to be evicted,
  then every entry has its row whenever no request is under way, wherever the worker is;
* in any case no step of the worker, marking a row as synced or another, brings a row
  back. -/
theorem no_entry_left_behind {I : Type} [DecidableEq I] {app : AppState} {tasks : I → Task}
    {w : World} {events : List (Event I Choice Change)} {p : Process I}
    (htasks : ∀ i, concerned (tasks i) = true)
    (hstart : ∀ id, (w.cache.lookup id).isSome = true → (w.db.endpoints.find id).isSome = true)
    (hrun : Interleaving.run (system app.crates) (process app tasks w) events = some p) :
    (Along (system app.crates) Lands (process app tasks w) events →
      (∀ i, working (tasks i) = false → Idle app (tasks i) (p.threads i)) →
      ∀ id, (p.state.cache.lookup id).isSome = true →
        (p.state.db.endpoints.find id).isSome = true) ∧
    ∀ i passes e q, tasks i = .sync passes → step (system app.crates) p (.act i e) = some q →
      ∀ id, p.state.db.endpoints.find id = none → q.state.db.endpoints.find id = none := by
  refine ⟨?_, ?_⟩
  · intro hlands hidle id hcached
    have hwatched : ∃ due, Watched (fun i => evicting (tasks i)) (fun i => nothingDue (tasks i))
        (fun _ => Backed tasks True) events p due :=
      run_backed htasks (fun _ => hstart) hrun fun _ => hlands
    obtain ⟨due, hdue⟩ := hwatched
    rcases hdue.inv.entries trivial id hcached with hrow | ⟨i, hi⟩
    · exact hrow
    · have hnone : due i = none := by
        cases hworking : working (tasks i) with
        | true => exact hdue.inv.workers i hworking
        | false => exact due_of_idle (htasks i) hworking (hdue.follows i) (hidle i hworking)
      rw [hnone] at hi
      cases hi
  · intro i passes e q htask hstep id habsent
    have hwatched : ∃ due, Watched (fun i => evicting (tasks i)) (fun i => nothingDue (tasks i))
        (fun _ => Backed tasks False) events p due :=
      run_backed htasks nofun hrun nofun
    obtain ⟨due, hdue⟩ := hwatched
    obtain ⟨c, next, r, hc, hexec, -⟩ := step_act hstep
    have hworking : working (tasks i) = true := by rw [htask]; rfl
    have hpermits : permits (tasks i) (due i) c :=
      (hdue.follows i).permits_upcoming (by rw [hc]; rfl)
    rw [hdue.inv.workers i hworking] at hpermits
    refine exec_absent hexec ?_ habsent
    rintro row rfl
    rw [show working (tasks i) = false from hpermits] at hworking
    cases hworking

/-- The Master, one endpoint, and nothing in the cache. -/
def servedWorld : World :=
  { bootedWorld with
    db := { bootedWorld.db with endpoints := CacheFreshness.syncedWorld.db.endpoints } }

/-- The Master deletes the endpoint, beside the worker. -/
def deletionTasks : Bool → Task
  | true => .request sampleMaster (.deleteEndpoint (.ok 5))
  | false => .sync 2

/-- The worker has listed the row, the request removes it, and the worker stores before
the eviction. -/
def storedFirst : List (Event Bool Choice Change) :=
  [.act false .succeed, .act true .succeed, .act true .succeed, .act false (.instant 0),
    .act false (.records (.ok [])), .act false (.instant 0), .act true .succeed,
    .act true (.uuid 9), .act true (.time 1), .act true .succeed, .act false (.time 2)]

/-- The same with the eviction before the worker stores, and to the end of the pass. -/
def evictedFirst : List (Event Bool Choice Change) :=
  [.act false .succeed, .act true .succeed, .act true .succeed, .act true .succeed,
    .act true (.uuid 9), .act true (.time 1), .act true .succeed, .act false (.instant 0),
    .act false (.records (.ok [])), .act false (.instant 0), .act false (.time 2),
    .act false .succeed]

theorem no_entry_left_behind_stored_first :
    ∃ p q, Interleaving.run (system sampleApp.crates) (process sampleApp deletionTasks servedWorld)
        storedFirst = some p ∧
      Along (system sampleApp.crates) Lands (process sampleApp deletionTasks servedWorld)
        storedFirst ∧
      p.outcome true = some (some (.ok .noContent)) ∧
      (∀ id, (p.state.cache.lookup id).isSome = true →
        (p.state.db.endpoints.find id).isSome = true) ∧
      step (system sampleApp.crates) p (.act false .succeed) = some q ∧
      p.state.db.endpoints.find 5 = none ∧ q.state.db.endpoints.find 5 = none := by
  have hchecks : ((checkedRun (system sampleApp.crates) Lands
      (process sampleApp deletionTasks servedWorld) storedFirst).bind fun p =>
        step (system sampleApp.crates) p (.act false .succeed)).isSome = true := by
    decide +kernel
  have hends : (Interleaving.run (system sampleApp.crates)
      (process sampleApp deletionTasks servedWorld) storedFirst).map (fun p =>
        (p.outcome true, p.state.db.endpoints.find 5)) =
      some (some (some (.ok .noContent)), none) := by
    rfl
  obtain ⟨q, hq⟩ := Option.isSome_iff_exists.mp hchecks
  obtain ⟨p, hchecked, hstep⟩ := Option.bind_eq_some_iff.mp hq
  obtain ⟨hrun, hlands⟩ := checkedRun_eq_some hchecked
  rw [hrun] at hends
  obtain ⟨houtcome, habsent⟩ := Prod.mk.inj (Option.some.inj hends)
  have htasks : ∀ i, concerned (deletionTasks i) = true := by decide
  have hstart : ∀ id, (servedWorld.cache.lookup id).isSome = true →
      (servedWorld.db.endpoints.find id).isSome = true := by
    intro id hcached
    cases hcached
  have hboth := no_entry_left_behind htasks hstart hrun
  refine ⟨p, q, hrun, hlands, houtcome, hboth.1 hlands ?_, hstep, habsent,
    hboth.2 false 2 .succeed q rfl hstep 5 habsent⟩
  intro i hrequest
  cases i with
  | true => exact .inr ⟨_, Pool.outcome_eq_some.mp houtcome⟩
  | false => cases hrequest

/-- The worker is between two passes and the request has ended, and the entry of the
deleted endpoint is there. -/
theorem entry_left_behind :
    ∃ p, Interleaving.run (system sampleApp.crates) (process sampleApp deletionTasks servedWorld)
        evictedFirst = some p ∧
      (∀ i, concerned (deletionTasks i) = true) ∧ servedWorld.cache = ∅ ∧
      p.outcome true = some (some (.ok .noContent)) ∧
      (p.threads false).upcoming = some (.db .allEndpoints) ∧
      (p.state.cache.lookup 5).isSome = true ∧ p.state.db.endpoints.find 5 = none := by
  have hends : (Interleaving.run (system sampleApp.crates)
      (process sampleApp deletionTasks servedWorld) evictedFirst).map (fun p =>
        (p.outcome true, (p.threads false).upcoming, (p.state.cache.lookup 5).isSome,
          p.state.db.endpoints.find 5)) =
      some (some (some (.ok .noContent)), some (.db .allEndpoints), true, none) := by
    rfl
  obtain ⟨p, hrun, hp⟩ := Option.map_eq_some_iff.mp hends
  simp only [Prod.mk.injEq] at hp
  exact ⟨p, hrun, by decide, rfl, hp⟩

end SimplyIpExporter.CacheLeftovers
