import SimplyIpExporter.Bootstrap
import SimplyIpExporter.DaughterConfinement
import SimplyIpExporter.Mutations
import SimplyIpExporter.RequestCalls

/-!
# The trail over whole runs

Whatever runs beside whatever else, the table of the trail only grows at its end. An entry
keeps all it says but for the reference to the key it was made with, which goes when that
key is deleted; name and prefix stay. Every new entry is made in the name of the key of a
request under way, and the workers make none.
-/
namespace SimplyIpExporter.TrailHistory
open Entities KeyedTables Storage Services Programs Interleaving EndpointHandlers KeyHandlers Routes
open Mutations RequestCalls Bootstrap

/-- The entry as it was, or without its key if that one is gone. -/
def Faded (gone : Uuid → Prop) (row row' : AuditLog) : Prop :=
  row' = row ∨ row' = blank row ∧ ∃ key, row.apiKeyId = some key ∧ gone key

section Fading
variable {gone : Uuid → Prop} {row row' row'' : AuditLog}

theorem Faded.blank_eq (h : Faded gone row row') : blank row' = blank row := by
  rcases h with rfl | ⟨rfl, -⟩ <;> rfl

theorem Faded.trans (h : Faded gone row row') (h' : Faded gone row' row'') :
    Faded gone row row'' := by
  rcases h with rfl | ⟨rfl, hkey⟩
  · exact h'
  · rcases h' with rfl | ⟨-, key, hnone, -⟩
    · exact .inr ⟨rfl, hkey⟩
    · cases hnone

theorem Faded.mono {gone' : Uuid → Prop} (hgone : ∀ key, gone key → gone' key)
    (h : Faded gone row row') :
    Faded gone' row row' :=
  h.imp_right fun ⟨hblank, key, hkey, hdeleted⟩ => ⟨hblank, key, hkey, hgone key hdeleted⟩

theorem Faded.timestamp (h : Faded gone row row') : row'.timestamp = row.timestamp :=
  (congrArg AuditLog.timestamp h.blank_eq : (blank row').timestamp = (blank row).timestamp)

theorem Faded.action (h : Faded gone row row') : row'.action = row.action :=
  (congrArg AuditLog.action h.blank_eq : (blank row').action = (blank row).action)

end Fading

/-- The trail after some time: what was there has at most faded, and entries that pass are
added at the end. -/
def Grows (gone : Uuid → Prop) (made : AuditLog → Prop) (rows rows' : List AuditLog) : Prop :=
  ∃ (fade : AuditLog → AuditLog) (added : List AuditLog), (∀ row, Faded gone row (fade row)) ∧
    rows' = rows.map fade ++ added ∧ ∀ row ∈ added, ∃ first, made first ∧ Faded gone first row

section Growth
variable {gone : Uuid → Prop} {made : AuditLog → Prop} {rows rows' rows'' : List AuditLog}

theorem Grows.refl (gone : Uuid → Prop) (made : AuditLog → Prop) (rows : List AuditLog) :
    Grows gone made rows rows :=
  ⟨id, [], fun _ => .inl rfl, by simp, fun _ h => absurd h List.not_mem_nil⟩

theorem Grows.trans (h : Grows gone made rows rows') (h' : Grows gone made rows' rows'') :
    Grows gone made rows rows'' := by
  obtain ⟨fade, added, hfade, rfl, hadded⟩ := h
  obtain ⟨fade', added', hfade', rfl, hadded'⟩ := h'
  refine ⟨fade' ∘ fade, added.map fade' ++ added', fun row => (hfade row).trans (hfade' _), ?_, ?_⟩
  · simp [List.map_append]
  · intro row hrow
    rcases List.mem_append.mp hrow with hold | hnew
    · obtain ⟨row₁, hrow₁, rfl⟩ := List.mem_map.mp hold
      obtain ⟨first, hfirst, hfaded⟩ := hadded row₁ hrow₁
      exact ⟨first, hfirst, hfaded.trans (hfade' row₁)⟩
    · exact hadded' row hnew

end Growth

/-- Calls that write to the trail. -/
def onTrail : Call → Bool
  | .db (.insertAudit _) | .deleteKey _ => true
  | _ => false

section Calls
variable {crates : Crates} {c : Call} {e : Choice} {s s' : World} {r : Answer c}

theorem exec_not_onTrail (hc : onTrail c = false) (hexec : exec crates c e s = some (r, s')) :
    s'.db.auditLogs = s.db.auditLogs := by
  cases c with
  | db st =>
      cases r with
      | error err => rw [exec_db_error hexec]
      | ok answer =>
          obtain ⟨db, hrun, -, rfl⟩ := exec_db_ok hexec
          cases st with
          | insertAudit row => cases hc
          | insertKey row | insertEndpoint row | insertGrant row =>
              obtain ⟨-, t, -, rfl⟩ := insertRow_ok hrun
              rfl
          | updateKey id ch =>
              obtain ⟨-, -, -, rfl⟩ := run_updateKey hrun
              rfl
          | updateEndpoint id ch =>
              obtain ⟨-, -, -, rfl⟩ := run_updateEndpoint hrun
              rfl
          | _ =>
              cases hrun
              rfl
  | deleteKey d => cases hc
  | _ => rw [(exec_not_storing rfl hexec).1]

/-- A request adds entries in the name of its caller. -/
theorem exec_grows {caller : Caller} {req : ApiRequest} {gone : Uuid → Prop}
    {made : AuditLog → Prop} (hgone : ∀ key, deletedKey req = some key → gone key)
    (hmade : ∀ row, SignedBy caller row → made row) (hc : Calls caller req c)
    (hexec : exec crates c e s = some (r, s')) :
    Grows gone made s.db.auditLogs.rows s'.db.auditLogs.rows := by
  cases htrail : onTrail c with
  | false =>
      rw [exec_not_onTrail htrail hexec]
      exact .refl _ _ _
  | true =>
      cases c with
      | db st =>
          cases st with
          | insertAudit row =>
              cases r with
              | error err =>
                  rw [exec_db_error hexec]
                  exact .refl _ _ _
              | ok answer =>
                  obtain ⟨db, hrun, -, rfl⟩ := exec_db_ok hexec
                  obtain ⟨-, t, hinsert, rfl⟩ := run_insertAudit hrun
                  refine ⟨id, [row], fun _ =>
                    .inl rfl, by simpa using (Table.rows_insert hinsert).1, ?_⟩
                  intro row' hrow'
                  obtain rfl := List.mem_singleton.mp hrow'
                  exact ⟨row', hmade row' hc, .inl rfl⟩
          | _ => cases htrail
      | deleteKey d =>
          obtain ⟨hid, hentry⟩ := hc
          obtain ⟨-, ⟨hdb, -⟩ | ⟨id, t, hrun, -⟩⟩ := exec_deleteKey hexec
          · rw [hdb]
            exact .refl _ _ _
          · obtain ⟨target, details, audits, -, -, haudits, hdb⟩ := KeyDeletion.run_ok hrun
            have hmoved : (d.moved target s.db).auditLogs =
                s.db.auditLogs := by cases target <;> rfl
            refine ⟨fun row => if decide (row.apiKeyId = some d.id) then blank row else row,
              [(d.entry details).row id t], ?_, ?_, ?_⟩
            · intro row
              by_cases hkey : row.apiKeyId = some d.id
              · exact .inr ⟨by simp [hkey], d.id, hkey, hgone d.id hid⟩
              · exact .inl (by simp [hkey])
            · rw [hdb]
              simp only [(Table.rows_insert haudits).1, Database.removeKey, Table.change, hmoved]
              rfl
            · intro row hrow
              obtain rfl := List.mem_singleton.mp hrow
              exact ⟨_, hmade _ (hentry details id t), .inl rfl⟩
      | _ => cases htrail

end Calls

section Runs
variable {I : Type}

/-- A request to delete the key takes a step. -/
def DeletedBy (tasks : I → Task) (events : List (Event I Choice Change)) (key : Uuid) : Prop :=
  ∃ i caller r e, tasks i = .request caller r ∧ .act i e ∈ events ∧ deletedKey r = some key

/-- The entry is in the name of the key of a request that takes a step. -/
def MadeBy (tasks : I → Task) (events : List (Event I Choice Change)) (row : AuditLog) : Prop :=
  ∃ i caller r e, tasks i = .request caller r ∧ .act i e ∈ events ∧ SignedBy caller row

theorem taskCalls_grows {tasks : I → Task} {events : List (Event I Choice Change)} {i : I}
    {crates : Crates} {c : Call} {e : Choice} {s s' : World} {r : Answer c}
    (hmem : .act i e ∈ events) (hc : TaskCalls (tasks i) c)
    (hexec : exec crates c e s = some (r, s')) :
    Grows (DeletedBy tasks events) (MadeBy tasks events) s.db.auditLogs.rows
      s'.db.auditLogs.rows := by
  obtain ⟨pass, hpermits⟩ := hc
  cases ht : tasks i with
  | request caller req =>
      rw [ht] at hpermits
      exact exec_grows (fun key hkey => ⟨i, caller, req, e, ht, hmem, hkey⟩)
        (fun row hrow => ⟨i, caller, req, e, ht, hmem, hrow⟩) hpermits.1 hexec
  | cleanup | sync passes =>
      -- background work writes nothing to the trail
      rw [ht] at hpermits
      have htrail : onTrail c = false := by
        unfold onTrail
        split
        · exact False.elim hpermits
        · exact False.elim hpermits
        · rfl
      rw [exec_not_onTrail htrail hexec]
      exact .refl _ _ _

variable [DecidableEq I] {app : AppState} {tasks : I → Task} {w₀ : World}
  {past rest : List (Event I Choice Change)} {p q : Process I}

theorem run_grows
    (hp : Interleaving.run (system app.crates) (process app tasks w₀) past = some p)
    (hq : Interleaving.run (system app.crates) (process app tasks w₀) (past ++ rest) = some q) :
    Grows (DeletedBy tasks rest) (MadeBy tasks rest) p.state.db.auditLogs.rows
      q.state.db.auditLogs.rows := by
  refine run_between (fun s => Grows (DeletedBy tasks rest) (MadeBy tasks rest)
    p.state.db.auditLogs.rows s.db.auditLogs.rows) hp hq (.refl _ _ _) ?_ ?_
  · intro i c e s r s' hmem hgrows hc hexec
    exact hgrows.trans (taskCalls_grows hmem hc hexec)
  · intro ch s s' hgrows henv
    rw [env_eq_some henv]
    exact hgrows

/-- Between any two moments of a run, whatever the tasks are: the trail of the later moment
is that of the earlier one, entry for entry and in the same order, with new entries behind
it. An entry has lost at most its reference to the key, and only where a request to delete
that key has taken a step in between. Each new entry has the name and prefix of the key of
a request that has taken a step in between, and its identifier unless a deletion of that
key has taken it. -/
theorem trail_append_only
    (hp : Interleaving.run (system app.crates) (process app tasks w₀) past = some p)
    (hq : Interleaving.run (system app.crates) (process app tasks w₀) (past ++ rest) = some q) :
    ∃ old added, q.state.db.auditLogs.rows = old ++ added ∧
      List.Forall₂ (fun row row' => row' = row ∨ row' = { row with apiKeyId := none } ∧
        ∃ key, row.apiKeyId = some key ∧ DeletedBy tasks rest key) p.state.db.auditLogs.rows old ∧
      ∀ row ∈ added, ∃ i caller r e, tasks i = .request caller r ∧ .act i e ∈ rest ∧
        row.apiKeyName = caller.key.name ∧ row.apiKeyPrefix = caller.key.keyPrefix ∧
        (row.apiKeyId = some caller.key.id ∨
          row.apiKeyId = none ∧ DeletedBy tasks rest caller.key.id) := by
  obtain ⟨fade, added, hfade, heq, hadded⟩ := run_grows hp hq
  refine ⟨p.state.db.auditLogs.rows.map fade, added, heq, ?_, ?_⟩
  · rw [List.forall₂_map_right_iff]
    exact List.forall₂_same.mpr fun row _ => hfade row
  · intro row hrow
    obtain ⟨first, ⟨i, caller, r, e, ht, hmem, hsigned⟩, hfaded⟩ := hadded row hrow
    rcases hfaded with rfl | ⟨rfl, key, hkey, hdeleted⟩
    · exact ⟨i, caller, r, e, ht, hmem, hsigned.name, hsigned.shown, .inl hsigned.id⟩
    · obtain rfl : caller.key.id = key := Option.some.inj (hsigned.id.symm.trans hkey)
      exact ⟨i, caller, r, e, ht, hmem, hsigned.name, hsigned.shown, .inr ⟨rfl, hdeleted⟩⟩

end Runs

/-- The entry of a key that has made one change so far. -/
def sampleEntry : AuditLog where
  id := 3
  apiKeyId := some 7
  apiKeyName := "daughter"
  apiKeyPrefix := "abcdefgh"
  clientIp := "10.0.0.1"
  action := "ENDPOINT_CREATE"
  targetResource := none
  details := none
  timestamp := 0

def authoredWorld : World :=
  { bootedWorld with
    db :=
      { bootedWorld.db with
        apiKeys := ⟨[sampleMaster.key, DaughterConfinement.sampleKey], by decide⟩
        auditLogs := ⟨[sampleEntry], by decide⟩ } }

def authorDeletion :
    Unit → Task := fun _ => .request sampleMaster (.deleteApiKey (.ok 7) (.ok ⟨none⟩))

theorem trail_append_only_deletion :
    ∃ q, Interleaving.run (system sampleApp.crates) (process sampleApp authorDeletion authoredWorld)
        [.act () .succeed, .act () (.time 1), .act () (.audited 4 2)] = some q ∧
      q.state.db.auditLogs.rows.map (fun row => (row.apiKeyId, row.apiKeyName)) =
        [(none, "daughter"), (some 1, "System Master")] ∧
      ∃ old added, q.state.db.auditLogs.rows = old ++ added ∧
        List.Forall₂ (fun row row' => row' = row ∨ row' = { row with apiKeyId := none } ∧
          ∃ key, row.apiKeyId = some key ∧ DeletedBy authorDeletion
            [.act () .succeed, .act () (.time 1), .act () (.audited 4 2)] key) [sampleEntry]
              old := by
  have hends : (Interleaving.run (system sampleApp.crates)
      (process sampleApp authorDeletion authoredWorld)
      [.act () .succeed, .act () (.time 1), .act () (.audited 4 2)]).map (fun q =>
        q.state.db.auditLogs.rows.map fun row => (row.apiKeyId, row.apiKeyName)) =
      some [(none, "daughter"), (some 1, "System Master")] := by
    decide +kernel
  obtain ⟨q, hrun, hrows⟩ := Option.map_eq_some_iff.mp hends
  have hstart : Interleaving.run (system sampleApp.crates)
      (process sampleApp authorDeletion authoredWorld) [] =
        some (process sampleApp authorDeletion authoredWorld) := rfl
  obtain ⟨old, added, heq, hold, -⟩ := trail_append_only hstart hrun
  exact ⟨q, hrun, hrows, old, added, heq, hold⟩

end SimplyIpExporter.TrailHistory
