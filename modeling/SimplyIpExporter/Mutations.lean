import SimplyIpExporter.Journals
import SimplyIpExporter.ResourceNames
import SimplyIpExporter.Routes

/-!
# What single calls do to the tables

A mutation is a call that wrote a row of one of the three managed tables or took one
away. It is read off the call and its answer: a deletion that found no row is none.
Beside it stands what a call has put on the trail.
-/
namespace SimplyIpExporter.Mutations
open Entities KeyedTables Storage Services Programs Interleaving Journals EndpointHandlers Routes

inductive Mutation where
  | insertedKey (id : Uuid)
  | updatedKey (id : Uuid)
  | removedKey (id : Uuid)
  | insertedEndpoint (id : Uuid)
  | updatedEndpoint (id : Uuid)
  | removedEndpoint (id : Uuid)
  | insertedGrant (id key : Uuid)
  | removedGrant (id : Uuid)
  | removedGrants (ids : List Uuid)
  deriving DecidableEq, Repr

def mutationOf : (c : Call) → Answer c → Option Mutation
  | .db (.insertKey row), .ok _ => some (.insertedKey row.id)
  | .db (.updateKey id _), .ok _ => some (.updatedKey id)
  | .deleteKey d, .ok _ => some (.removedKey d.id)
  | .db (.insertEndpoint row), .ok _ => some (.insertedEndpoint row.id)
  | .db (.updateEndpoint id _), .ok _ => some (.updatedEndpoint id)
  | .db (.deleteEndpoint id), .ok removed =>
      if removed = 0 then none else some (.removedEndpoint id)
  | .db (.insertGrant row), .ok _ => some (.insertedGrant row.id row.apiKeyId)
  | .db (.deleteGrant id), .ok removed => if removed = 0 then none else some (.removedGrant id)
  | .db (.deleteGrants ids), .ok removed => if removed = 0 then none else some (.removedGrants ids)
  | _, _ => none

/-- The managed tables are as they were. -/
structure Untouched (db db' : Database) : Prop where
  apiKeys : db'.apiKeys = db.apiKeys
  endpoints : db'.endpoints = db.endpoints
  grants : db'.grants = db.grants

/-- The row was there, and is not any more. -/
def Mutation.Removes (mu : Mutation) (db db' : Database) : Prop :=
  match mu with
  | .removedKey id => (db.apiKeys.find id).isSome = true ∧ db'.apiKeys.find id = none
  | .removedEndpoint id => (db.endpoints.find id).isSome = true ∧ db'.endpoints.find id = none
  | .removedGrant id => (db.grants.find id).isSome = true ∧ db'.grants.find id = none
  | _ => True

section Deletions
variable {Row : Type} {key : Row → Uuid}

theorem delete_eq_self {t : Table Row Uuid key} {p : Row → Bool} (h : t.rows.countP p = 0) :
    t.delete p = t := by
  have hrows : (t.rows.filter fun r => !p r) = t.rows := by
    refine List.filter_eq_self.mpr ?_
    intro r hr
    simpa using List.countP_eq_zero.mp h r hr
  cases t
  simp only [Table.delete]
  congr

theorem removes_of_countP {t : Table Row Uuid key} {id : Uuid}
    (h : t.rows.countP (fun r => decide (key r = id)) ≠ 0) :
    (t.find id).isSome = true ∧ (t.delete fun r => decide (key r = id)).find id = none := by
  obtain ⟨row, hrow, hid⟩ := List.countP_pos_iff.mp (Nat.pos_of_ne_zero h)
  have hfind : t.find id = some row := Table.find_eq_some.mpr ⟨hrow, of_decide_eq_true hid⟩
  refine ⟨by rw [hfind]; rfl, ?_⟩
  rw [Table.find_delete, hfind]
  simpa using of_decide_eq_true hid

end Deletions

section Calls
variable {crates : Crates} {c : Call} {e : Choice} {s s' : World} {r : Answer c}

theorem untouched_of_eq {db db' : Database} (h : db' = db) : Untouched db db' := by
  subst h
  exact ⟨rfl, rfl, rfl⟩

theorem eq_zero_of_none {mu : Mutation} {removed : ℕ}
    (h : (if removed = 0 then none else some mu) = none) : removed = 0 := by
  by_contra hne
  rw [if_neg hne] at h
  cases h

theorem ne_zero_of_some {mu mu' : Mutation} {removed : ℕ}
    (h : (if removed = 0 then none else some mu) = some mu') : removed ≠ 0 ∧ mu' = mu := by
  by_cases hzero : removed = 0
  · rw [if_pos hzero] at h
    cases h
  · rw [if_neg hzero] at h
    cases h
    exact ⟨hzero, rfl⟩

/-- Without a mutation the managed tables stay as they are. -/
theorem exec_untouched (hexec : exec crates c e s = some (r, s')) (hnone : mutationOf c r = none) :
    Untouched s.db s'.db := by
  cases c with
  | db st =>
      cases r with
      | error err => exact untouched_of_eq (by rw [exec_db_error hexec])
      | ok rows =>
          obtain ⟨db, hrun, -, rfl⟩ := exec_db_ok hexec
          cases st with
          | insertKey row | updateKey id ch | insertEndpoint row | updateEndpoint id ch
          | insertGrant row => cases hnone
          | deleteEndpoint _ | deleteGrant _ | deleteGrants _ =>
              cases hrun
              exact untouched_of_eq (by rw [delete_eq_self (eq_zero_of_none hnone)])
          | insertAudit row =>
              obtain ⟨-, t, -, rfl⟩ := run_insertAudit hrun
              exact ⟨rfl, rfl, rfl⟩
          | _ =>
              cases hrun
              exact untouched_of_eq rfl
  | deleteKey d =>
      obtain ⟨-, ⟨hdb, -⟩ | ⟨id, t, -, rfl⟩⟩ := exec_deleteKey hexec
      · exact untouched_of_eq hdb
      · cases hnone
  | _ => exact untouched_of_eq (exec_not_storing rfl hexec).1

theorem exec_removes {mu : Mutation} (hexec : exec crates c e s = some (r, s'))
    (hmu : mutationOf c r = some mu) : mu.Removes s.db s'.db := by
  cases c with
  | db st =>
      cases r with
      | error err => cases st <;> cases hmu
      | ok rows =>
          obtain ⟨db, hrun, -, rfl⟩ := exec_db_ok hexec
          cases st with
          | deleteEndpoint _ | deleteGrant _ =>
              cases hrun
              obtain ⟨hne, rfl⟩ := ne_zero_of_some hmu
              exact removes_of_countP hne
          | deleteGrants ids =>
              obtain ⟨-, rfl⟩ := ne_zero_of_some hmu
              trivial
          | insertKey row | updateKey id ch | insertEndpoint row | updateEndpoint id ch
          | insertGrant row =>
              cases hmu
              trivial
          | _ => cases hmu
  | deleteKey d =>
      obtain ⟨-, ⟨-, err, rfl⟩ | ⟨id, t, hrun, rfl⟩⟩ := exec_deleteKey hexec
      · cases hmu
      · cases hmu
        obtain ⟨target, details, audits, -, hpresent, -, hdb⟩ := KeyDeletion.run_ok hrun
        refine ⟨hpresent, ?_⟩
        rw [hdb]
        simp only [Database.removeKey, Table.find_delete, Option.filter_eq_none_iff]
        intro row hrow
        simpa using (Table.find_eq_some.mp hrow).2
  | _ => cases hmu

/-- What a call puts on the trail. -/
def Adds : (c : Call) → Answer c → List AuditLog → Prop
  | .db (.insertAudit row), .ok _, added => added = [row]
  | .deleteKey d, .ok _, added => ∃ details id t, added = [(d.entry details).row id t]
  | _, _, added => added = []

/-- An entry whatever became of the key that wrote it. -/
def blank (row : AuditLog) : AuditLog := { row with apiKeyId := none }

theorem exec_adds (hexec : exec crates c e s = some (r, s')) :
    ∃ added, Adds c r added ∧ s'.db.auditLogs.rows.drop s.db.auditLogs.rows.length = added ∧
      s'.db.auditLogs.rows.map blank = s.db.auditLogs.rows.map blank ++ added.map blank := by
  have hsame : s'.db.auditLogs = s.db.auditLogs → Adds c r [] →
      ∃ added, Adds c r added ∧ s'.db.auditLogs.rows.drop s.db.auditLogs.rows.length = added ∧
        s'.db.auditLogs.rows.map blank = s.db.auditLogs.rows.map blank ++ added.map blank := by
    intro heq hadds
    refine ⟨[], hadds, ?_, ?_⟩
    · rw [heq, List.drop_length]
    · rw [heq, List.map_nil, List.append_nil]
  cases c with
  | db st =>
      cases r with
      | error err =>
          refine hsame (by rw [exec_db_error hexec]) ?_
          cases st <;> rfl
      | ok rows =>
          obtain ⟨db, hrun, -, rfl⟩ := exec_db_ok hexec
          cases st with
          | insertAudit row =>
              obtain ⟨-, t, hinsert, rfl⟩ := run_insertAudit hrun
              have hrows := (Table.rows_insert hinsert).1
              refine ⟨[row], rfl, ?_, ?_⟩
              · simp only [hrows, List.drop_left]
              · simp only [hrows, List.map_append]
          | insertKey row | insertEndpoint row | insertGrant row =>
              obtain ⟨-, t, -, rfl⟩ := insertRow_ok hrun
              exact hsame rfl rfl
          | updateKey id ch =>
              obtain ⟨-, -, -, rfl⟩ := run_updateKey hrun
              exact hsame rfl rfl
          | updateEndpoint id ch =>
              obtain ⟨-, -, -, rfl⟩ := run_updateEndpoint hrun
              exact hsame rfl rfl
          | _ =>
              cases hrun
              exact hsame rfl rfl
  | deleteKey d =>
      obtain ⟨-, ⟨hdb, err, rfl⟩ | ⟨id, t, hrun, rfl⟩⟩ := exec_deleteKey hexec
      · exact hsame (by rw [hdb]) rfl
      · obtain ⟨target, details, audits, -, -, haudits, hdb⟩ := KeyDeletion.run_ok hrun
        have hmoved : (d.moved target s.db).auditLogs = s.db.auditLogs := by cases target <;> rfl
        have hrows : s'.db.auditLogs.rows =
            (s.db.auditLogs.rows.map fun r =>
              if decide (r.apiKeyId = some d.id) then { r with apiKeyId := none } else r) ++
            [(d.entry details).row id t] := by
          rw [hdb]
          simp only [(Table.rows_insert haudits).1, Database.removeKey, Table.change, hmoved]
        refine ⟨[(d.entry details).row id t], ⟨details, id, t, rfl⟩, ?_, ?_⟩
        · rw [hrows, ← List.length_map (f := fun r =>
            if decide (r.apiKeyId = some d.id) then { r with apiKeyId := none } else r),
              List.drop_left]
        · rw [hrows, List.map_append, List.map_map]
          congr 1
          refine List.map_congr_left ?_
          intro row _
          simp only [Function.comp, blank]
          split <;> rfl
  | _ => exact hsame (by rw [(exec_not_storing rfl hexec).1]) rfl

end Calls
end SimplyIpExporter.Mutations
