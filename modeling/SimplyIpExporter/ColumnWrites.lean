import SimplyIpExporter.Journals
import SimplyIpExporter.Bootstrap

/-!
# The columns of an endpoint

Updates of endpoints, reassignments, deletions of keys and the worker all write rows
that they have read some time before. A statement gives values to the columns set in
it and to no others, so each column ends with the value of the last statement that set
it, whatever was read when. Which columns a statement sets is decided by the request
alone: an edit never sets the time of the last sync, and the worker sets nothing else.
-/
namespace SimplyIpExporter.ColumnWrites
open Entities KeyedTables Storage Services Programs Interleaving Journals LastWriterWins
open EndpointHandlers KeyHandlers SyncWorker Routes SyncPasses
open Bootstrap
open HandlerRules
open WriteRules (answers scopeOf program_keeps exec_answers)

inductive Column where
  | id
  | ownerKeyId
  | name
  | description
  | tokenSecret
  | vaultGroups
  | ttlSeconds
  | maxAgeSeconds
  | boundIps
  | filterRfc1918
  | filterBogons
  | filterLoopback
  | lastSyncedAt
  | createdAt
  | updatedAt
  deriving DecidableEq, Repr

abbrev Column.Value : Column → Type
  | .id => Uuid
  | .ownerKeyId => Option Uuid
  | .name | .tokenSecret | .vaultGroups => String
  | .description | .boundIps => Option String
  | .ttlSeconds | .maxAgeSeconds => ℤ
  | .filterRfc1918 | .filterBogons | .filterLoopback => Bool
  | .lastSyncedAt => Option NaiveDateTime
  | .createdAt | .updatedAt => NaiveDateTime

def columns (row : Endpoint) : (c : Column) → c.Value
  | .id => row.id
  | .ownerKeyId => row.ownerKeyId
  | .name => row.name
  | .description => row.description
  | .tokenSecret => row.tokenSecret
  | .vaultGroups => row.vaultGroups
  | .ttlSeconds => row.ttlSeconds
  | .maxAgeSeconds => row.maxAgeSeconds
  | .boundIps => row.boundIps
  | .filterRfc1918 => row.filterRfc1918
  | .filterBogons => row.filterBogons
  | .filterLoopback => row.filterLoopback
  | .lastSyncedAt => row.lastSyncedAt
  | .createdAt => row.createdAt
  | .updatedAt => row.updatedAt

/-- The columns that are set. -/
def sets (ch : EndpointChanges) : (c : Column) → Option c.Value
  | .ownerKeyId => ch.ownerKeyId
  | .name => ch.name
  | .description => ch.description
  | .vaultGroups => ch.vaultGroups
  | .ttlSeconds => ch.ttlSeconds
  | .maxAgeSeconds => ch.maxAgeSeconds
  | .boundIps => ch.boundIps
  | .filterRfc1918 => ch.filterRfc1918
  | .filterBogons => ch.filterBogons
  | .filterLoopback => ch.filterLoopback
  | .lastSyncedAt => ch.lastSyncedAt
  | .updatedAt => ch.updatedAt
  | .id | .tokenSecret | .createdAt => none

theorem columns_apply (ch : EndpointChanges) (row : Endpoint) :
    columns (ch.apply row) = overlay (columns row) (sets ch) := by
  funext c
  cases c <;> rfl

/-- An endpoint that goes to another key. -/
def passing (newOwner : Uuid) (now : NaiveDateTime) : EndpointChanges :=
  { ownerKeyId := some (some newOwner), updatedAt := some now }

/-- The columns that a call has set in a row, as it was before. -/
def written (row : Endpoint) : (c : Call) → Answer c → Option EndpointChanges
  | .db (.updateEndpoint id ch), .ok _ => if id = row.id then some ch else none
  | .deleteKey d, .ok _ =>
      if row.ownerKeyId = some d.id then d.reassignTo.map fun newOwner => passing newOwner d.now
      else none
  | _, _ => none

def rewritten (row : Endpoint) (changes : Option EndpointChanges) : Endpoint :=
  changes.elim row fun ch => ch.apply row

section Calls
variable {crates : Crates} {c : Call} {e : Choice} {s s' : World} {r : Answer c} {id : Uuid}
  {row : Endpoint}

/-- The endpoints of a deleted key all go to the key named; without one there are none. -/
theorem deleteKey_row {d : KeyDeletion} {auditId : Uuid} {auditTime : NaiveDateTime}
    {db db' : Database} (hother : d.reassignTo ≠ some d.id)
    (hrun : d.run auditId auditTime db = .ok db') (hrow : db.endpoints.find id = some row) :
    db'.endpoints.find id = some (rewritten row (written row (.deleteKey d) (.ok ()))) := by
  obtain ⟨hmem, hid⟩ := Table.find_eq_some.mp hrow
  have hpassed : rewritten row (written row (.deleteKey d) (.ok ())) =
      passedOn d.id d.reassignTo d.now row := by
    unfold passedOn
    by_cases howner : row.ownerKeyId = some d.id
    · obtain ⟨t, hto, -⟩ := KeyDeletion.newOwner hrun hmem howner
      simp [written, rewritten, passing, EndpointChanges.apply, howner, hto]
    · simp [written, rewritten, howner]
  rw [hpassed, Table.find_eq_some, KeyDeletion.endpoints_eq hother hrun]
  refine ⟨List.mem_map_of_mem hmem, ?_⟩
  unfold passedOn
  split <;> exact hid

/-- A row that is still there is the old one with the columns set that the call set. -/
theorem exec_row (hexec : exec crates c e s = some (r, s'))
    (hother : ∀ d, c = .deleteKey d → d.reassignTo ≠ some d.id)
    (hrow : s.db.endpoints.find id = some row) :
    s'.db.endpoints.find id = none ∨
      s'.db.endpoints.find id = some (rewritten row (written row c r)) := by
  have hid : row.id = id := (Table.find_eq_some.mp hrow).2
  have hkept : s'.db = s.db → written row c r = none →
      s'.db.endpoints.find id = some (rewritten row (written row c r)) := by
    intro hdb hnone
    rw [hdb, hnone, hrow]
    rfl
  cases c with
  | db st =>
      cases r with
      | error err =>
          refine .inr (hkept (by rw [exec_db_error hexec]) ?_)
          cases st <;> rfl
      | ok rows =>
          obtain ⟨db, hrun, -, rfl⟩ := exec_db_ok hexec
          cases st with
          | insertEndpoint row' =>
              refine .inr ?_
              obtain ⟨-, t, hinsert, rfl⟩ := run_insertEndpoint hrun
              have hne : row'.id ≠ id := by
                intro heq
                have hnone : s.db.endpoints.find row'.id = none := (Table.rows_insert hinsert).2
                rw [heq, hrow] at hnone
                cases hnone
              simp only [Table.find_insert hinsert, if_neg hne]
              exact hrow
          | updateEndpoint id' ch =>
              refine .inr ?_
              obtain ⟨row', -, -, rfl⟩ := run_updateEndpoint hrun
              simp only [Table.find_change, hrow, Option.map_some, written, hid]
              by_cases heq : id' = id
              · simp [heq, rewritten]
              · simp [heq, rewritten, Ne.symm heq]
          | deleteEndpoint id' =>
              cases hrun
              simp only [Table.find_delete, hrow]
              by_cases heq : row.id = id'
              · exact .inl (by simp [heq])
              · refine .inr ?_
                change Option.filter _ (some row) = some row
                simp [heq]
          | _ =>
              refine .inr ?_
              simp only [run_not_onEndpoints rfl hrun]
              exact hrow
  | deleteKey d =>
      obtain ⟨-, ⟨hdb, err, rfl⟩ | ⟨auditId, t, hrun, rfl⟩⟩ := exec_deleteKey hexec
      · exact .inr (hkept hdb rfl)
      · exact .inr (deleteKey_row (hother d rfl) hrun hrow)
  | _ => exact .inr (hkept (exec_not_storing rfl hexec).1 rfl)

/-- The identifier of a deleted endpoint does not come back. -/
theorem exec_retired (hexec : exec crates c e s = some (r, s'))
    (hrow : s.db.endpoints.find id = none) (hretired : id ∈ s.retired) :
    s'.db.endpoints.find id = none := by
  cases c with
  | db st =>
      cases r with
      | error err =>
          rw [exec_db_error hexec]
          exact hrow
      | ok rows =>
          obtain ⟨db, hrun, hreuse, rfl⟩ := exec_db_ok hexec
          cases st with
          | insertEndpoint row' =>
              obtain ⟨-, t, hinsert, rfl⟩ := run_insertEndpoint hrun
              have hne : row'.id ≠ id := by
                rintro rfl
                simp [reuses, hretired] at hreuse
              simp only [Table.find_insert hinsert, if_neg hne]
              exact hrow
          | updateEndpoint id' ch =>
              obtain ⟨row', -, -, rfl⟩ := run_updateEndpoint hrun
              simp [Table.find_change, hrow]
          | deleteEndpoint id' =>
              cases hrun
              simp [Table.find_delete, hrow]
          | _ =>
              simp only [run_not_onEndpoints rfl hrun]
              exact hrow
  | deleteKey d =>
      obtain ⟨-, ⟨hdb, -⟩ | ⟨auditId, t, hrun, -⟩⟩ := exec_deleteKey hexec
      · rw [hdb]
        exact hrow
      · exact (KeyDeletion.find_endpoint hrun id).mpr hrow
  | _ =>
      rw [(exec_not_storing rfl hexec).1]
      exact hrow

end Calls

/-- The tasks that write rows of endpoints that exist. -/
def writer : Task → Bool
  | .request _ (.updateEndpoint _ _) | .request _ (.reassignEndpointOwner _ _)
  | .request _ (.deleteApiKey _ _) | .sync _ => true
  | _ => false

/-- The columns set in an update are those that the request gives. -/
def Updates : Task → Uuid → EndpointChanges → Prop
  | .request _ (.updateEndpoint path payload), id, ch =>
      ∃ p now, path = .ok id ∧ payload = .ok p ∧ ch = p.changes now
  | .request _ (.reassignEndpointOwner path payload), id, ch =>
      ∃ p now, path = .ok id ∧ payload = .ok p ∧
        ch = { ownerKeyId := some p.ownerKeyId, updatedAt := some now }
  | .sync _, _, ch => ∃ now, ch = { lastSyncedAt := some (some now) }
  | t, _, _ => writer t = false

def Deletes : Task → KeyDeletion → Prop
  | .request _ (.deleteApiKey path query), d =>
      ∃ q, path = .ok d.id ∧ query = .ok q ∧ d.reassignTo = q.reassignTo
  | t, _ => writer t = false

def Writes (t : Task) : Call → Prop
  | .db (.updateEndpoint id ch) => Updates t id ch
  | .deleteKey d => d.reassignTo ≠ some d.id ∧ Deletes t d
  | _ => True

/-- The call has written rows of endpoints. -/
def stores : (c : Call) → Answer c → Bool
  | .db (.updateEndpoint _ _), .ok _ | .deleteKey _, .ok _ => true
  | _, _ => false

/-- What is watched is whether the task has written. -/
def notingWrites (app : AppState) (t : Task) : Policy Answer Bool where
  permits _ := Writes t
  moves m c r m' := answers (scopeOf app (fun _ => False) t) c r ∧ m' = (m || stores c r)

section Tasks
variable {app : AppState} {t : Task} {A B : Type} {m : Bool}

/-- A request that succeeds has written. -/
abbrev Completes (app : AppState) (t : Task) {A : Type} (h : Handler A) (m : Bool) : Prop :=
  Achieves (notingWrites app t) (fun m' _ => m' = true) h m

def keepsEndpoints : Call → Bool
  | .db (.updateEndpoint _ _) | .deleteKey _ => false
  | _ => true

theorem writes_keepsEndpoints {c : Call} (hc : keepsEndpoints c = true) : Writes t c := by
  unfold Writes
  split
  · cases hc
  · cases hc
  · trivial

theorem stores_keepsEndpoints {c : Call} {r : Answer c} (hc : keepsEndpoints c = true) :
    stores c r = false := by
  unfold stores
  split
  · cases hc
  · cases hc
  · rfl

theorem quiet {c : Call} (hc : keepsEndpoints c = true) : Quiet (notingWrites app t) m c := by
  refine ⟨writes_keepsEndpoints hc, ?_⟩
  rintro r _ ⟨-, rfl⟩
  rw [stores_keepsEndpoints hc, Bool.or_false]

theorem update_bind {id : Uuid} {ch : EndpointChanges} {f : Endpoint → Handler B}
    (h : Updates t id ch) (hrest : ∀ row, Completes app t (f row) true) :
    Completes app t (statement (.updateEndpoint id ch) >>= f : Handler B) false := by
  refine achieves_statement_bind h ?_
  rintro row _ ⟨-, rfl⟩
  exact hrest row

/-- After the entry on the trail the request has done what it was to do. -/
theorem completes_entry {entry : AuditEntry} {b : B} :
    Completes app t (createAuditLog entry >>= fun _ => pure b : Handler B) true :=
  Still.achieves_bind (still_createAuditLog (quiet rfl) (quiet rfl) fun _ _ => quiet rfl) fun _ =>
    achieves_pure rfl

end Tasks

section Handlers
variable {app : AppState} {caller : Caller} {id : Uuid}

theorem updateEndpoint_follows {payload : UpdateEndpointPayload} :
    Completes app (.request caller (.updateEndpoint (.ok id) (.ok payload)))
      (updateEndpoint app caller id payload) false := by
  refine Quiet.achieves_findEndpoint (quiet rfl) fun existing hfound => ?_
  refine achieves_attempt_bind fun _ _ => achieves_attempt_bind fun _ _ => ?_
  refine Still.achieves_bind (still_checkGroups (quiet rfl) _) fun _ => ?_
  refine achieves_attempt_bind fun _ _ => achieves_attempt_bind fun _ _ => ?_
  refine achieves_attempt_bind fun _ _ => Quiet.ask_bind (quiet rfl) fun now => ?_
  have hid : existing.id = id := hfound.1
  exact update_bind ⟨payload, now, by rw [hid], rfl, rfl⟩ fun updated => completes_entry

theorem reassignEndpointOwner_follows {payload : ReassignOwnerPayload} :
    Completes app (.request caller (.reassignEndpointOwner (.ok id) (.ok payload)))
      (reassignEndpointOwner app caller id payload) false := by
  refine achieves_attempt_bind fun _ _ => ?_
  refine Quiet.achieves_findEndpoint (quiet rfl) fun existing hfound => ?_
  refine Still.achieves_bind (still_checkOwner (fun _ => quiet rfl) _) fun _ => ?_
  refine Quiet.ask_bind (quiet rfl) fun now => ?_
  have hid : existing.id = id := hfound.1
  exact update_bind ⟨payload, now, by rw [hid], rfl, rfl⟩ fun updated => completes_entry

theorem deleteApiKey_follows {query : DeleteKeyQuery} :
    Completes app (.request caller (.deleteApiKey (.ok id) (.ok query)))
      (deleteApiKey app caller id query) false := by
  refine achieves_attempt_bind fun _ _ => Quiet.achieves_bind (quiet rfl) fun found _ => ?_
  refine achieves_attempt_bind fun existing _ => achieves_attempt_bind fun _ _ => ?_
  refine achieves_attempt_bind fun _ hother => Quiet.ask_bind (quiet rfl) fun now => ?_
  refine Follows.ask_bind ⟨?_, query, rfl, rfl, rfl⟩ ?_
  · intro hself
    rw [if_pos hself] at hother
    cases hother
  · rintro outcome _ ⟨-, rfl⟩
    cases outcome with
    | error e => exact .pure nofun
    | ok u => exact .pure fun _ _ => rfl

theorem handle_follows {r : ApiRequest} (hwriter : writer (.request caller r) = true) :
    Completes app (.request caller r) (handle app caller r) false := by
  cases r with
  | updateEndpoint path payload =>
      refine achieves_attempt_bind ?_
      rintro id rfl
      refine achieves_attempt_bind ?_
      rintro p rfl
      exact achieves_answer updateEndpoint_follows
  | reassignEndpointOwner path payload =>
      refine achieves_attempt_bind ?_
      rintro id rfl
      refine achieves_attempt_bind ?_
      rintro p rfl
      exact achieves_answer reassignEndpointOwner_follows
  | deleteApiKey path query =>
      refine achieves_attempt_bind ?_
      rintro id rfl
      refine achieves_attempt_bind ?_
      rintro q rfl
      exact achieves_answer deleteApiKey_follows
  | _ => cases hwriter

end Handlers

/-- A writing request that has answered with success has written. -/
def Finishes (t : Task) (m : Bool) (outcome : Option (Except AppError Response)) : Prop :=
  ∀ caller r response, t = .request caller r → writer t = true →
    outcome = some (.ok response) → m = true

theorem updates_of_not_writer {t : Task} (ht : writer t = false) (id : Uuid)
    (ch : EndpointChanges) :
    Updates t id ch := by
  cases t with
  | request caller r => cases r <;> first | exact rfl | cases ht
  | cleanup => rfl
  | sync passes => cases ht

theorem deletes_of_not_writer {t : Task} (ht : writer t = false) (d : KeyDeletion) :
    Deletes t d := by
  cases t with
  | request caller r => cases r <;> first | exact rfl | cases ht
  | cleanup => rfl
  | sync passes => cases ht

theorem program_writes (app : AppState) (t : Task) :
    Follows (notingWrites app t) (Finishes t) (t.program app) false := by
  cases ht : writer t with
  | true =>
      cases t with
      | request caller r =>
          refine Follows.bind (handle_follows ht) ?_
          intro m result hdone
          refine .pure ?_
          rintro _ _ response - - ⟨⟩
          exact hdone response rfl
      | cleanup => cases ht
      | sync passes =>
          have hsync : Follows (notingWrites app (.sync passes)) (fun _ _ => True)
              ((Task.sync passes).program app) false := by
            refine sync_follows_of_permits ?_ app passes false
            intro pass m c hpermits
            cases c with
            | db st =>
                cases st with
                | updateEndpoint id ch =>
                    obtain ⟨-, -, now, -, hch⟩ := hpermits
                    exact ⟨now, hch⟩
                | _ => trivial
            | deleteKey d => exact hpermits.elim
            | _ => trivial
          refine hsync.mono ?_
          rintro _ _ - caller r response ⟨⟩
  | false =>
      have hkeeps : Follows (notingWrites app t) (fun _ _ => True) (t.program app) false := by
        refine Follows.weaken (L := fun _ _ => True) ?_ ?_ trivial
          (program_keeps app (fun _ => False) t)
        · intro _ m c _ hpermits
          cases c with
          | db st =>
              cases st with
              | updateEndpoint id ch => exact updates_of_not_writer ht id ch
              | _ => trivial
          | deleteKey d => exact ⟨hpermits.2, deletes_of_not_writer ht d⟩
          | _ => trivial
        · intro _ m c answer m' _ _ hmoves
          exact ⟨(), ⟨hmoves.1, rfl⟩, trivial⟩
      refine hkeeps.mono ?_
      intro _ _ _ caller r response _ hwriter
      rw [ht] at hwriter
      cases hwriter

section Runs
variable {I : Type} [DecidableEq I] {app : AppState} {tasks : I → Task} {w : World} {id : Uuid}
  {start : Endpoint}

/-- The columns that an entry of the journal has set in the row. -/
def updateBy (id : Uuid) (en : Entry Answer I World) : Option ((c : Column) → Option c.Value) :=
  (en.before.db.endpoints.find id).bind fun row => (written row en.call en.answer).map sets

def updatesTo (id : Uuid) (j : List (Entry Answer I World)) :
    List ((c : Column) → Option c.Value) :=
  j.filterMap (updateBy id)

/-- The row is what the journal has made of it, and the journal is as the tasks permit. -/
structure Recorded (tasks : I → Task) (id : Uuid) (start : Endpoint)
    (j : List (Entry Answer I World)) (ms : I → Bool) (s : World) : Prop where
  permitted : ∀ en ∈ j, Writes (tasks en.thread) en.call
  stored : ∀ i, ms i = true → ∃ en ∈ j, en.thread = i ∧ stores en.call en.answer = true
  row : ∀ row, s.db.endpoints.find id = some row →
    columns row = overlayAll (columns start) (updatesTo id j)
  gone : s.db.endpoints.find id = none → id ∈ s.retired

theorem columns_rewritten (row : Endpoint) (changes : Option EndpointChanges) :
    columns (rewritten row changes) = overlayAll (columns row) (changes.map sets).toList := by
  cases changes with
  | none => rfl
  | some ch => exact columns_apply ch row

theorem Recorded.step {j : List (Entry Answer I World)} {ms : I → Bool} {crates : Crates} {c : Call}
    {e : Choice} {s s' : World} {answer : Answer c} {i : I} (h : Recorded tasks id start j ms s)
    (hpermits : Writes (tasks i) c) (hexec : exec crates c e s = some (answer, s')) :
    Recorded tasks id start (j ++ [⟨i, c, answer, s, s'⟩])
      (Function.update ms i (ms i || stores c answer)) s' := by
  have hother : ∀ d, c = .deleteKey d → d.reassignTo ≠ some d.id := by
    rintro d rfl
    exact hpermits.1
  have hids : IdsKept s s' := exec_idsKept hexec
  refine ⟨?_, ?_, ?_, ?_⟩
  · intro en hen
    rcases List.mem_append.mp hen with hold | hnew
    · exact h.permitted en hold
    · rw [List.mem_singleton.mp hnew]
      exact hpermits
  · intro k hk
    have hold : ms k = true → ∃ en ∈ j ++ [⟨i, c, answer, s, s'⟩],
        en.thread = k ∧ stores en.call en.answer = true := by
      intro hms
      obtain ⟨en, hen, hthread, hstores⟩ := h.stored k hms
      exact ⟨en, List.mem_append_left _ hen, hthread, hstores⟩
    by_cases hki : k = i
    · subst hki
      rw [Function.update_self, Bool.or_eq_true] at hk
      rcases hk with hms | hstores
      · exact hold hms
      · exact ⟨_, List.mem_append_right _ (List.mem_singleton_self _), rfl, hstores⟩
    · rw [Function.update_of_ne hki] at hk
      exact hold hk
  · intro row' hrow'
    cases hrow : s.db.endpoints.find id with
    | none =>
        rw [exec_retired hexec hrow (h.gone hrow)] at hrow'
        cases hrow'
    | some row =>
        have hupdates : updatesTo id (j ++ [⟨i, c, answer, s, s'⟩]) =
            updatesTo id j ++ ((written row c answer).map sets).toList := by
          unfold updatesTo
          rw [List.filterMap_append]
          have hlast : updateBy id (⟨i, c, answer, s, s'⟩ : Entry Answer I World) =
              (written row c answer).map sets := by
            simp [updateBy, hrow]
          rw [List.filterMap_cons, hlast]
          cases (written row c answer).map sets <;> rfl
        rcases exec_row hexec hother hrow with hnone | hsome
        · rw [hnone] at hrow'
          cases hrow'
        · rw [hsome] at hrow'
          cases hrow'
          rw [columns_rewritten, h.row row hrow, hupdates]
          exact List.foldl_append.symm
  · intro hnone
    by_cases hrow : s.db.endpoints.find id = none
    · exact hids.retired id (h.gone hrow)
    · exact hids.gone id hrow hnone

theorem run_recorded {events : List (Event I Choice Change)} {p : Process I}
    (hrun : Interleaving.run (system app.crates) (process app tasks w) events = some p)
    (hstart : w.db.endpoints.find id = some start) :
    ∃ ms, Watched (fun i => notingWrites app (tasks i)) (fun i => Finishes (tasks i))
      (fun past => Recorded tasks id start
        (journal (system app.crates) (process app tasks w) past)) events p ms := by
  have hinit : Watched (fun i => notingWrites app (tasks i)) (fun i => Finishes (tasks i))
      (fun past => Recorded tasks id start
        (journal (system app.crates) (process app tasks w) past)) [] (process app tasks w)
      (fun _ => false) := by
    refine ⟨fun i => program_writes app (tasks i), ?_, ?_, ?_, ?_⟩
    · intro en hen
      cases hen
    · intro i hfalse
      cases hfalse
    · intro row hrow
      rw [show row = start from Option.some.inj (hrow.symm.trans hstart)]
      rfl
    · intro hnone
      rw [show w.db.endpoints.find id = none from hnone] at hstart
      cases hstart
  refine run_watched _ _ _ (fun _ _ => True) hinit ?_ ?_ hrun fun _ _ _ _ _ _ => trivial
  · intro past p ms i e c next answer s' hp hms hc _ hpermits hexec
    refine ⟨ms i || stores c answer, ⟨exec_answers (fun _ => False.elim) hexec, rfl⟩, ?_⟩
    rw [journal_append_singleton hp, entries_act hc hexec]
    exact hms.inv.step hpermits hexec
  · intro past p ms ch s' hp hms _ henv
    rw [journal_append_singleton hp, entries, List.append_nil, env_eq_some henv]
    exact ⟨hms.inv.permitted, hms.inv.stored, hms.inv.row, hms.inv.gone⟩

/-- What is written by an update is what it names. -/
theorem written_updateEndpoint {id' : Uuid} {ch ch' : EndpointChanges} {row : Endpoint}
    {answer : Answer (.db (.updateEndpoint id' ch'))}
    (h : written row (.db (.updateEndpoint id' ch')) answer = some ch) : ch = ch' := by
  cases answer with
  | error err => cases h
  | ok updated =>
      rw [written] at h
      split at h
      · exact (Option.some.inj h).symm
      · cases h

/-- The worker sets nothing but the time of the last sync. -/
theorem sync_sets {passes : ℕ} {c : Call} {answer : Answer c} {row : Endpoint}
    {ch : EndpointChanges} (hpermits : Writes (.sync passes) c)
    (hwritten : written row c answer = some ch) {col : Column} (hcol : col ≠ .lastSyncedAt) :
    sets ch col = none := by
  cases c with
  | db st =>
      cases st with
      | updateEndpoint id' ch' =>
          obtain ⟨now, rfl⟩ : ∃ now, ch' = { lastSyncedAt := some (some now) } := hpermits
          rw [written_updateEndpoint hwritten]
          cases col <;> first | rfl | exact absurd rfl hcol
      | _ => cases hwritten
  | deleteKey d => exact absurd (show true = false from hpermits.2) Bool.noConfusion
  | _ => cases hwritten

/-- No edit sets it. -/
theorem request_sets {caller : Caller} {r : ApiRequest} {c : Call} {answer : Answer c}
    {row : Endpoint} {ch : EndpointChanges} (hwriter : writer (.request caller r) = true)
    (hpermits : Writes (.request caller r) c) (hwritten : written row c answer = some ch) :
    sets ch .lastSyncedAt = none := by
  cases c with
  | db st =>
      cases st with
      | updateEndpoint id' ch' =>
          rw [written_updateEndpoint hwritten]
          have hupdates : Updates (.request caller r) id' ch' := hpermits
          cases r with
          | updateEndpoint path payload =>
              obtain ⟨p, now, -, -, rfl⟩ := hupdates
              rfl
          | reassignEndpointOwner path payload =>
              obtain ⟨p, now, -, -, rfl⟩ := hupdates
              rfl
          | deleteApiKey path query =>
              exact absurd (show true = false from hupdates) Bool.noConfusion
          | _ => cases hwriter
      | _ => cases hwritten
  | deleteKey d =>
      cases answer with
      | error err => cases hwritten
      | ok _ =>
          rw [written] at hwritten
          split at hwritten
          · obtain ⟨newOwner, -, rfl⟩ := Option.map_eq_some_iff.mp hwritten
            rfl
          · cases hwritten
  | _ => cases hwritten

/-- A column that an entry has not set is as before. -/
theorem column_kept {crates : Crates} {c : Call} {e : Choice} {s s' : World} {answer : Answer c}
    {before after : Endpoint} {col : Column} (hexec : exec crates c e s = some (answer, s'))
    (hother : ∀ d, c = .deleteKey d → d.reassignTo ≠ some d.id)
    (hbefore : s.db.endpoints.find id = some before) (hafter : s'.db.endpoints.find id = some after)
    (hunset : ∀ ch, written before c answer = some ch → sets ch col = none) :
    columns after col = columns before col := by
  rcases exec_row hexec hother hbefore with hnone | hsome
  · rw [hnone] at hafter
    cases hafter
  · rw [hsome] at hafter
    cases hafter
    cases hwritten : written before c answer with
    | none => rfl
    | some ch =>
        change columns (ch.apply before) col = _
        rw [columns_apply, overlay, hunset ch hwritten]
        rfl

end Runs

/-- Any tasks beside each other, and an endpoint that is there at the beginning and at the
end. Every column of its row holds the value of the last statement that set it, and its
old value when none did. The statements of updates, reassignments, deletions of keys and
the worker set the columns that their requests give, each such request that succeeds has
made its statement, and at every step:

* the worker leaves all columns but the time of the last sync as they are;
* an update, a reassignment and the deletion of a key leave that time as it is. -/
theorem last_explicit_write_wins {I : Type} [DecidableEq I] {app : AppState} {tasks : I → Task}
    {w : World} {events : List (Event I Choice Change)} {p : Process I} {id : Uuid}
    {start row : Endpoint}
    (hrun : Interleaving.run (system app.crates) (process app tasks w) events = some p)
    (hstart : w.db.endpoints.find id = some start)
    (hrow : p.state.db.endpoints.find id = some row) :
    (∀ c, columns row c = (lastSet c (updatesTo id
      (journal (system app.crates) (process app tasks w) events))).getD (columns start c)) ∧
    (∀ en ∈ journal (system app.crates) (process app tasks w) events,
      Writes (tasks en.thread) en.call) ∧
    (∀ i caller r response, tasks i = .request caller r → writer (tasks i) = true →
      p.outcome i = some (some (.ok response)) →
      ∃ en ∈ journal (system app.crates) (process app tasks w) events,
        en.thread = i ∧ stores en.call en.answer = true) ∧
    ∀ en ∈ journal (system app.crates) (process app tasks w) events, ∀ before after,
      en.before.db.endpoints.find id = some before → en.after.db.endpoints.find id = some after →
      (∀ passes, tasks en.thread = .sync passes →
        ∀ c, c ≠ .lastSyncedAt → columns after c = columns before c) ∧
      ∀ caller r, tasks en.thread = .request caller r → writer (tasks en.thread) = true →
        columns after .lastSyncedAt = columns before .lastSyncedAt := by
  obtain ⟨ms, hms⟩ := run_recorded hrun hstart
  refine ⟨?_, hms.inv.permitted, ?_, ?_⟩
  · intro c
    rw [hms.inv.row row hrow, overlayAll_eq]
  · intro i caller r response htask hwriter houtcome
    have hi := hms.follows i
    rw [Pool.outcome_eq_some.mp houtcome] at hi
    exact hms.inv.stored i (follows_value.mp hi caller r response htask hwriter rfl)
  · intro en hen before after hbefore hafter
    obtain ⟨e, hexec⟩ := exec_of_mem_journal hen
    have hpermits : Writes (tasks en.thread) en.call := hms.inv.permitted en hen
    have hother : ∀ d, en.call = .deleteKey d → d.reassignTo ≠ some d.id := by
      intro d hd
      rw [hd] at hpermits
      exact hpermits.1
    refine ⟨?_, ?_⟩
    · intro passes htask c hc
      rw [htask] at hpermits
      exact column_kept hexec hother hbefore hafter fun ch hwritten =>
        sync_sets hpermits hwritten hc
    · intro caller r htask hwriter
      rw [htask] at hpermits hwriter
      exact column_kept hexec hother hbefore hafter fun ch hwritten =>
        request_sets hwriter hpermits hwritten

/-- The Master and one endpoint. -/
def listedWorld : World :=
  { bootedWorld with
    db :=
      { bootedWorld.db with
        endpoints := ⟨[{
          id := 5
          ownerKeyId := some 1
          name := "feed"
          description := none
          tokenSecret := "token"
          vaultGroups := "dmz"
          ttlSeconds := 60
          maxAgeSeconds := 0
          boundIps := none
          filterRfc1918 := false
          filterBogons := false
          filterLoopback := false
          lastSyncedAt := none
          createdAt := 0
          updatedAt := 0 }], by decide⟩ } }

/-- The endpoint gets another name, beside the worker. -/
def renamingTasks : Bool → Task
  | true => .request sampleMaster (.updateEndpoint (.ok 5)
      (.ok ⟨some "renamed", none, none, none, none, none, none, none, none⟩))
  | false => .sync 1

/-- The whole update falls between the worker's listing and the end of its pass. -/
def renamedMeanwhile : List (Event Bool Choice Change) :=
  [.act false .succeed, .act false (.instant 0), .act true .succeed, .act true (.time 1),
    .act true .succeed, .act true (.uuid 9), .act true (.time 1), .act true .succeed,
    .act false (.records (.ok [])), .act false (.instant 0), .act false (.time 2),
    .act false .succeed]

/-- Marking the row as synced does not bring back the name that was listed. -/
theorem last_explicit_write_wins_renamed :
    ∃ p start row, Interleaving.run (system sampleApp.crates)
        (process sampleApp renamingTasks listedWorld) renamedMeanwhile = some p ∧
      listedWorld.db.endpoints.find 5 = some start ∧ p.state.db.endpoints.find 5 = some row ∧
      columns row .name = "renamed" ∧ columns row .lastSyncedAt = some 2 ∧
      columns row .updatedAt = (1 : NaiveDateTime) ∧
      ∀ c, columns row c = (lastSet c (updatesTo 5 (journal (system sampleApp.crates)
        (process sampleApp renamingTasks listedWorld) renamedMeanwhile))).getD
          (columns start c) := by
  have hends : ((Interleaving.run (system sampleApp.crates)
      (process sampleApp renamingTasks listedWorld) renamedMeanwhile).bind fun p =>
        (p.state.db.endpoints.find 5).map fun row => (row.name, row.lastSyncedAt, row.updatedAt)) =
      some ("renamed", some 2, 1) := by
    decide +kernel
  have hlisted : (listedWorld.db.endpoints.find 5).isSome = true := by decide +kernel
  obtain ⟨p, hrun, hp⟩ := Option.bind_eq_some_iff.mp hends
  obtain ⟨row, hrow, hcolumns⟩ := Option.map_eq_some_iff.mp hp
  obtain ⟨start, hstart⟩ := Option.isSome_iff_exists.mp hlisted
  simp only [Prod.mk.injEq] at hcolumns
  exact ⟨p, start, row, hrun, hstart, hrow, hcolumns.1, hcolumns.2.1, hcolumns.2.2,
    (last_explicit_write_wins hrun hstart hrow).1⟩

end SimplyIpExporter.ColumnWrites
