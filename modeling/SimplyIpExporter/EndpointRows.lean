import SimplyIpExporter.ColumnWrites

/-!
# Rows of endpoints, edited and valid

An update of an endpoint checks its fields one after another and writes them in one
statement, so a check that fails half way has written nothing. What it does write is
the row with the given fields in place of the old ones. Creating an endpoint checks the
same fields in code of its own.

What an update has done is followed through the journal of a run: it reads, then it
stores the edited row, then it enters the edit on the trail. Beside it any other
requests and the workers run, and every row of the table stays valid.
-/
namespace SimplyIpExporter.EndpointRows
open RustText Entities KeyedTables Storage Services Programs Interleaving Journals
open EndpointHandlers KeyHandlers SyncWorker Routes HandlerRules SyncPasses
open RequestCalls (Writing writingOf handle_keeps_of_spared)
open ColumnWrites (listedWorld renamingTasks renamedMeanwhile)

structure ValidRow (row : Endpoint) : Prop where
  name : trim row.name ≠ ""
  /-- Group names are what is left of the entries that are not blank. -/
  vaultGroups : ∃ g, g ∈ groupNames row.vaultGroups
  ttlSeconds : 0 < row.ttlSeconds
  maxAgeSeconds : 0 ≤ row.maxAgeSeconds

/-- Whatever column is set is set to a valid value. -/
structure ValidChanges (ch : EndpointChanges) : Prop where
  name : ∀ name, ch.name = some name → trim name ≠ ""
  vaultGroups : ∀ raw, ch.vaultGroups = some raw → ∃ g, g ∈ groupNames raw
  ttlSeconds : ∀ t, ch.ttlSeconds = some t → 0 < t
  maxAgeSeconds : ∀ t, ch.maxAgeSeconds = some t → 0 ≤ t

def AllValid (t : Table Endpoint Uuid Endpoint.id) : Prop := ∀ row ∈ t.rows, ValidRow row

theorem getD_of {A : Type} {P : A → Prop} {given : Option A} {old : A}
    (hgiven : ∀ a, given = some a → P a) (hold : P old) : P (given.getD old) := by
  cases given with
  | none => exact hold
  | some a => exact hgiven a rfl

theorem ValidChanges.apply {ch : EndpointChanges} {row : Endpoint} (hch : ValidChanges ch)
    (hrow : ValidRow row) : ValidRow (ch.apply row) where
  name := getD_of (P := fun name => trim name ≠ "") hch.name hrow.name
  vaultGroups := getD_of (P := fun raw => ∃ g, g ∈ groupNames raw) hch.vaultGroups hrow.vaultGroups
  ttlSeconds := getD_of (P := fun t => 0 < t) hch.ttlSeconds hrow.ttlSeconds
  maxAgeSeconds := getD_of (P := fun t => 0 ≤ t) hch.maxAgeSeconds hrow.maxAgeSeconds

section Tables
variable {t t' : Table Endpoint Uuid Endpoint.id}

theorem AllValid.insert {row : Endpoint} (h : AllValid t) (hrow : ValidRow row)
    (hinsert : t.insert row = some t') : AllValid t' := by
  intro row' hrow'
  rw [(Table.rows_insert hinsert).1] at hrow'
  rcases List.mem_append.mp hrow' with hold | hnew
  · exact h row' hold
  · rw [List.mem_singleton.mp hnew]
    exact hrow

theorem AllValid.change {p : Endpoint → Bool} {f : Endpoint → Endpoint} (h : AllValid t)
    (hid : ∀ r, (f r).id = r.id) (hf : ∀ row, ValidRow row → ValidRow (f row)) :
    AllValid (t.change p f hid) := by
  intro row' hrow'
  obtain ⟨row, hrow, rfl⟩ := List.mem_map.mp hrow'
  split
  · exact hf row (h row hrow)
  · exact h row hrow

end Tables

section Checks
variable {u : Unit}

theorem trim_of_requireName {name : String} (h : requireName name = .ok u) : trim name ≠ "" := by
  intro hblank
  rw [requireName, if_pos hblank] at h
  cases h

theorem named_of_validateGroups {raw : String} (h : validateGroups raw = .ok u) :
    ∃ g, g ∈ groupNames raw := by
  by_contra hnone
  have hblank : ((split ',' raw).map trim).all (· == "") = true := by
    apply List.all_eq_true.mpr
    intro g hg
    by_contra hne
    exact hnone ⟨g, List.mem_filter.mpr ⟨hg, by simpa using hne⟩⟩
  rw [validateGroups, if_pos hblank] at h
  cases h

theorem pos_of_validateTtl {t : ℤ} (h : validateTtl t = .ok u) : 0 < t := by
  by_contra hle
  rw [validateTtl, if_pos (by omega)] at h
  cases h

theorem nonneg_of_validateMaxAge {t : ℤ} (h : validateMaxAge t = .ok u) : 0 ≤ t := by
  by_contra hneg
  rw [validateMaxAge, if_pos (by omega)] at h
  cases h

/-- A field that is given has passed its check. -/
theorem checked_of_ifPresent {A : Type} {field : Option A} {check : A → Except AppError Unit}
    (h : ifPresent field check = .ok u) : ∀ a, field = some a → check a = .ok u := by
  intro a ha
  rw [ha] at h
  exact h

end Checks

/-- An absent field is as before, a present one has the value given. -/
structure Given {A : Type} (given : Option A) (old new : A) : Prop where
  absent : given = none → new = old
  present : ∀ a, given = some a → new = a

theorem given_getD {A : Type} (given : Option A) (old : A) : Given given old (given.getD old) where
  absent h := by rw [h, Option.getD_none]
  present a h := by rw [h, Option.getD_some]

structure Edited (payload : UpdateEndpointPayload) (row row' : Endpoint) : Prop where
  id : row'.id = row.id
  ownerKeyId : row'.ownerKeyId = row.ownerKeyId
  tokenSecret : row'.tokenSecret = row.tokenSecret
  createdAt : row'.createdAt = row.createdAt
  lastSyncedAt : row'.lastSyncedAt = row.lastSyncedAt
  name : Given payload.name row.name row'.name
  /-- Blank text takes the description away. -/
  description : Given (payload.description.map unlessBlank) row.description row'.description
  vaultGroups : Given payload.vaultGroups row.vaultGroups row'.vaultGroups
  ttlSeconds : Given payload.ttlSeconds row.ttlSeconds row'.ttlSeconds
  maxAgeSeconds : Given payload.maxAgeSeconds row.maxAgeSeconds row'.maxAgeSeconds
  /-- The binding is trimmed, and blank text takes it away. -/
  boundIps : Given (payload.boundIps.map fun raw => if trim raw = "" then none else some (trim raw))
    row.boundIps row'.boundIps
  filterRfc1918 : Given payload.filterRfc1918 row.filterRfc1918 row'.filterRfc1918
  filterBogons : Given payload.filterBogons row.filterBogons row'.filterBogons
  filterLoopback : Given payload.filterLoopback row.filterLoopback row'.filterLoopback

theorem unlessBlank_trim (raw : String) :
    unlessBlank (trim raw) = if trim raw = "" then none else some (trim raw) := by
  simp only [unlessBlank, trim_trim_eq_empty]

theorem edited_changes (payload : UpdateEndpointPayload) (now : NaiveDateTime) (row : Endpoint) :
    Edited payload row ((payload.changes now).apply row) where
  id := rfl
  ownerKeyId := rfl
  tokenSecret := rfl
  createdAt := rfl
  lastSyncedAt := rfl
  name := given_getD _ _
  description := given_getD _ _
  vaultGroups := given_getD _ _
  ttlSeconds := given_getD _ _
  maxAgeSeconds := given_getD _ _
  boundIps := by
    rw [← funext unlessBlank_trim]
    exact given_getD _ _
  filterRfc1918 := given_getD _ _
  filterBogons := given_getD _ _
  filterLoopback := given_getD _ _

/-- How far an update has come. -/
inductive EditProgress where
  | reading
  | failed
  | stored (row : Endpoint)
  | entered (row : Endpoint)

def failing : (c : Call) → Answer c → Bool
  | .db _, .error _ => true
  | _, _ => false

def EditProgress.next : EditProgress → (c : Call) → Answer c → EditProgress
  | _, .db _, .error _ => .failed
  | .reading, .db (.updateEndpoint _ _), .ok row => .stored row
  | .stored row, .db (.insertAudit _), .ok _ => .entered row
  | m, _, _ => m

/-- Statements that only read. -/
def reads : Statement → Bool
  | .findEndpoint _ | .grantsOf _ => true
  | _ => false

/-- Reads come first, then the row is stored with valid columns as the payload gives
them, then the edit is entered. -/
def editPermits (id : Uuid) (payload : UpdateEndpointPayload) : EditProgress → Call → Prop
  | .reading, .db (.updateEndpoint id' ch) =>
      id' = id ∧ ValidChanges ch ∧ ∃ now, ch = payload.changes now
  | .reading, .db st => reads st = true
  | .stored _, .db (.insertAudit _) => True
  | .reading, .now | .stored _, .now | .stored _, .newUuid => True
  | _, _ => False

/-- Rows are written with valid values only. -/
def storing : Call → Prop
  | .db (.insertEndpoint row) => ValidRow row
  | .db (.updateEndpoint _ ch) => ValidChanges ch
  | _ => True

/-- The policy of an update. -/
def edits (id : Uuid) (payload : UpdateEndpointPayload) : Policy Answer EditProgress where
  permits := editPermits id payload
  moves m c r m' := FoundById c r ∧ m' = m.next c r

/-- The policy of everything else. -/
def storesValid : Policy Answer EditProgress where
  permits _ := storing
  moves _ c r _ := FoundById c r

def policyOf : Task → Policy Answer EditProgress
  | .request _ (.updateEndpoint (.ok id) (.ok payload)) => edits id payload
  | _ => storesValid

/-- An error has left the request reading, unless it is that of a statement. -/
def Stops (m : EditProgress) : Prop := m = .reading ∨ m = .failed

def EndsEdit {A : Type} (wrap : Endpoint → A) (m : EditProgress) : Except AppError A → Prop
  | .ok a => ∃ row, m = .entered row ∧ a = wrap row
  | .error _ => Stops m

/-- A check leaves the request reading. -/
def Checks {A : Type} (m : EditProgress) : Except AppError A → Prop
  | .ok _ => m = .reading
  | .error _ => Stops m

section Updates
variable {id : Uuid} {payload : UpdateEndpointPayload} {A B : Type}

theorem checks_attempt (x : Except AppError A) :
    Follows (edits id payload) Checks (attempt x : Handler A) .reading := by
  cases x with
  | error e => exact .pure (.inl rfl)
  | ok a => exact .pure rfl

theorem reading_bind {st : Statement} {f : st.Rows → Handler B}
    {post : EditProgress → Except AppError B → Prop} (hst : reads st = true)
    (herror : ∀ m e, Stops m → post m (.error e))
    (hrest : ∀ rows, FoundById (.db st) (.ok rows) →
      Follows (edits id payload) post (f rows) .reading) :
    Follows (edits id payload) post (statement st >>= f : Handler B) .reading := by
  have hpermits : editPermits id payload .reading (.db st) := by
    cases st <;> first | exact hst | cases hst
  have hnext : ∀ rows : st.Rows, EditProgress.next .reading (.db st) (.ok rows) = .reading := by
    intro rows
    cases st <;> first | rfl | cases hst
  refine follows_statement_bind hpermits ?_ ?_
  · rintro e m ⟨-, rfl⟩
    exact herror _ _ (.inr rfl)
  · rintro rows m ⟨hfound, rfl⟩
    rw [hnext rows]
    exact hrest rows hfound

theorem validateGroupAccess_checks (caller : ApiKey) (vaultGroups : String) :
    Follows (edits id payload) Checks (validateGroupAccess caller vaultGroups) .reading := by
  unfold validateGroupAccess
  split
  · exact .ok rfl
  · have hnames : Follows (edits id payload) Checks (grantedGroupNames caller.id) .reading :=
      reading_bind rfl (fun _ _ hstops => hstops) fun _ _ => .ok rfl
    refine hnames.except_bind (fun _ _ hstops => hstops) ?_
    intro m granted hm
    rw [show m = .reading from hm]
    exact checks_attempt _

/-- Groups that are given have been named. -/
theorem checkGroups_bind {caller : ApiKey} {vaultGroups : Option String} {f : Unit → Handler B}
    {wrap : Endpoint → B}
    (hrest : (∀ raw, vaultGroups = some raw → ∃ g, g ∈ groupNames raw) →
      Follows (edits id payload) (EndsEdit wrap) (f ()) .reading) :
    Follows (edits id payload) (EndsEdit wrap) (checkGroups caller vaultGroups >>= f : Handler B)
      .reading := by
  cases vaultGroups with
  | none =>
      refine Still.bind (still_pure ()) (fun _ => .inl rfl) fun _ => hrest ?_
      intro raw hraw
      cases hraw
  | some raw =>
      have hchecks : Follows (edits id payload)
          (fun m (result : Except AppError Unit) => Checks m result ∧
            (∀ u, result = .ok u → ∃ g, g ∈ groupNames raw))
          (checkGroups caller (some raw)) .reading := by
        refine .attempt_bind ?_ fun u hnamed => ?_
        · intro e _
          refine ⟨.inl rfl, ?_⟩
          intro u hu
          cases hu
        · exact (validateGroupAccess_checks caller raw).mono fun m result h =>
            ⟨h, fun _ _ => named_of_validateGroups hnamed⟩
      refine hchecks.except_bind (fun _ _ h => h.1) ?_
      rintro m u ⟨hm, hnamed⟩
      rw [show m = .reading from hm]
      apply hrest
      intro raw' hraw'
      cases hraw'
      exact hnamed u rfl

/-- The edit is entered, unless the statement fails. -/
def Enrolls {A : Type} (row : Endpoint) (m : EditProgress) : Except AppError A → Prop
  | .ok _ => m = .entered row
  | .error _ => m = .failed

/-- Once the row is stored, only the entry is left. -/
theorem enrolled_bind {entry : AuditEntry} {row : Endpoint} {wrap : Endpoint → B} :
    Follows (edits id payload) (EndsEdit wrap)
      (createAuditLog entry >>= fun _ => pure (wrap row) : Handler B) (.stored row) := by
  have hentry : Follows (edits id payload) (Enrolls row) (createAuditLog entry) (.stored row) := by
    refine .ask_bind trivial ?_
    rintro auditId _ ⟨-, rfl⟩
    refine .ask_bind trivial ?_
    rintro timestamp _ ⟨-, rfl⟩
    refine follows_statement_bind trivial ?_ ?_
    · rintro e _ ⟨-, rfl⟩
      rfl
    · rintro stored _ ⟨-, rfl⟩
      exact .ok rfl
  refine hentry.except_bind (fun _ _ hm => .inr hm) ?_
  intro m _ hm
  exact .ok ⟨row, hm, rfl⟩

theorem updateEndpoint_edits (app : AppState) (caller : Caller) :
    Follows (edits id payload) (EndsEdit EndpointResponse.of) (updateEndpoint app caller id payload)
      .reading := by
  have hstops : ∀ e, EndsEdit EndpointResponse.of .reading (.error e) := fun _ => .inl rfl
  refine reading_bind rfl (fun _ _ hstops => hstops) fun row hrow => ?_
  refine check_bind hstops fun existing hfound => ?_
  cases orNotFound_ok hfound
  have hid : existing.id = id := hrow
  refine check_bind hstops fun _ _ => ?_
  refine check_bind hstops fun _ hname => checkGroups_bind fun hgroups => ?_
  refine check_bind hstops fun _ httl => check_bind hstops fun _ hmaxAge => ?_
  refine check_bind hstops fun _ _ => ?_
  refine .ask_bind trivial ?_
  rintro now _ ⟨-, rfl⟩
  have hvalid : ValidChanges (payload.changes now) :=
    { name := fun name h => trim_of_requireName (checked_of_ifPresent hname name h)
      vaultGroups := hgroups
      ttlSeconds := fun t h => pos_of_validateTtl (checked_of_ifPresent httl t h)
      maxAgeSeconds := fun t h => nonneg_of_validateMaxAge (checked_of_ifPresent hmaxAge t h) }
  refine follows_statement_bind ⟨hid, hvalid, now, rfl⟩ ?_ ?_
  · rintro e _ ⟨-, rfl⟩
    exact .inr rfl
  · rintro updated _ ⟨-, rfl⟩
    exact enrolled_bind

end Updates

def storingRules : CallRules where
  permits := storing
  answers := FoundById
  permits_harmless c hc := by
    cases c with
    | db st => cases st <;> trivial
    | _ => trivial

theorem stores_of_keeps {A : Type} {h : Handler A} (hh : Keeps storingRules h) (m : EditProgress) :
    Follows storesValid (fun _ _ => True) h m := by
  refine (hh Unit ()).weaken (L := fun _ _ => True) (fun _ _ _ _ hc => hc) ?_ trivial
  intro _ _ c r _ _ _ hfound
  exact ⟨(), ⟨hfound, rfl⟩, trivial⟩

/-- Ways of writing that set no column of an endpoint but its owner. -/
def leavesColumns : Option Writing → Bool
  | some .insertEndpoint | some .updateEndpoint => false
  | _ => true

theorem storing_of_leavesColumns (c : Call) (hc : leavesColumns (writingOf c) = true) :
    storing c := by
  cases c with
  | db st =>
      cases st with
      | insertEndpoint _ | updateEndpoint _ _ => cases hc
      | _ => trivial
  | _ => trivial

section Handlers
variable (app : AppState) (caller : Caller)

theorem createEndpoint_stores (payload : CreateEndpointPayload) :
    Keeps storingRules (createEndpoint app caller payload) := by
  refine attempt_bind fun _ hname => attempt_bind fun _ hgroups => ?_
  refine keeps_then (keeps_validateGroupAccess _ _) fun _ => attempt_bind fun _ _ => ?_
  refine attempt_bind fun _ httl => attempt_bind fun _ hmaxAge => ?_
  refine draw_bind rfl fun now => draw_bind rfl fun id => draw_bind rfl fun token => ?_
  have hvalid : ValidRow (payload.row caller.key.id id token now) :=
    { name := trim_of_requireName hname
      vaultGroups := named_of_validateGroups hgroups
      ttlSeconds := pos_of_validateTtl httl
      maxAgeSeconds := nonneg_of_validateMaxAge hmaxAge }
  exact statement_bind hvalid fun created _ => entry_bind (fun _ _ => trivial) _

/-- A new owner is all that a reassignment sets. -/
theorem reassignEndpointOwner_stores (id : Uuid) (payload : ReassignOwnerPayload) :
    Keeps storingRules (reassignEndpointOwner app caller id payload) := by
  refine attempt_bind fun _ _ => findEndpoint_bind fun _ _ => ?_
  refine keeps_then (keeps_checkOwner _) fun _ => draw_bind rfl fun now => ?_
  exact statement_bind ⟨nofun, nofun, nofun, nofun⟩ fun _ _ =>
    entry_bind (fun _ _ => trivial) _

end Handlers

/-- How an update ends, in the state it has reached. -/
def endsOf : Task → EditProgress → Option (Except AppError Response) → Prop
  | .request _ (.updateEndpoint (.ok _) (.ok _)), m, outcome =>
      ∃ result, outcome = some result ∧ EndsEdit (fun row => .endpoint (.of row)) m result
  | _, _, _ => True

/-- A request whose path or payload is refused makes no call. -/
def editsOf : Task → Option (Uuid × UpdateEndpointPayload)
  | .request _ (.updateEndpoint (.ok id) (.ok payload)) => some (id, payload)
  | _ => none

section Tasks
variable (app : AppState)

theorem handle_stores (caller : Caller) (r : ApiRequest)
    (hother : ∀ id payload, r ≠ .updateEndpoint (.ok id) (.ok payload)) :
    Keeps storingRules (handle app caller r) := by
  cases r with
  | createEndpoint payload =>
      exact attempt_bind fun p _ => keeps_answer (createEndpoint_stores app caller p)
  | updateEndpoint id payload =>
      refine attempt_bind fun id' hid => attempt_bind fun p hp => ?_
      rw [hid, hp] at hother
      exact absurd rfl (hother id' p)
  | reassignEndpointOwner id payload =>
      exact attempt_bind fun id _ => attempt_bind fun p _ =>
        keeps_answer (reassignEndpointOwner_stores app caller id p)
  | _ =>
      exact handle_keeps_of_spared app caller leavesColumns rfl storing_of_leavesColumns
        (fun _ _ h => h) rfl

theorem cleanup_stores (m : EditProgress) :
    Follows storesValid (fun _ _ => True) (Task.cleanup.program app) m := by
  have hpass := cleanupStaleGroupPermissions_follows (P := storesValid) (fun _ => trivial)
    (fun _ => trivial) (fun _ _ => trivial) app m
  exact hpass.bind fun _ _ _ => .pure trivial

theorem sync_stores (passes : ℕ) (m : EditProgress) :
    Follows storesValid (fun _ _ => True) ((Task.sync passes).program app) m := by
  refine sync_follows_of_permits ?_ app passes m
  intro pass _ c hpermits
  cases c with
  | db st =>
      cases st with
      | updateEndpoint id ch =>
          -- the worker sets the time of the last sync
          obtain ⟨-, -, now, -, rfl⟩ := hpermits
          exact ⟨nofun, nofun, nofun, nofun⟩
      | insertEndpoint row => exact hpermits.elim
      | _ => trivial
  | _ => trivial

theorem program_edits (t : Task) :
    Follows (policyOf t) (endsOf t) (t.program app) .reading := by
  cases hedits : editsOf t with
  | some edit =>
      unfold editsOf at hedits
      split at hedits
      · rename_i caller id payload
        have hhandle : Follows (edits id payload) (EndsEdit (fun row => .endpoint (.of row)))
            (handle app caller (.updateEndpoint (.ok id) (.ok payload))) .reading := by
          refine (updateEndpoint_edits app caller).except_bind (fun _ _ hstops => hstops) ?_
          rintro m _ ⟨row, hm, rfl⟩
          exact .ok ⟨row, hm, rfl⟩
        exact hhandle.bind fun m result hends => .pure ⟨result, rfl, hends⟩
      · cases hedits
  | none =>
      have hpolicy : policyOf t = storesValid := by
        unfold policyOf
        split
        · cases hedits
        · rfl
      have hends : ∀ m outcome, endsOf t m outcome := by
        intro m outcome
        unfold endsOf
        split
        · cases hedits
        · trivial
      rw [hpolicy]
      refine Follows.mono (fun m outcome (_ : True) => hends m outcome) ?_
      cases t with
      | request caller r =>
          have hother : ∀ id payload, r ≠ .updateEndpoint (.ok id) (.ok payload) := by
            rintro id payload rfl
            cases hedits
          exact (stores_of_keeps (handle_stores app caller r hother) .reading).bind fun _ _ _ =>
            .pure trivial
      | cleanup => exact cleanup_stores app .reading
      | sync passes => exact sync_stores app passes .reading

end Tasks

section Effects
variable {crates : Crates} {c : Call} {e : Choice} {s s' : World} {r : Answer c} {id : Uuid}
  {payload : UpdateEndpointPayload}

theorem storing_of_editPermits {m : EditProgress} (h : editPermits id payload m c) : storing c := by
  cases c with
  | db st =>
      cases st with
      | insertEndpoint row =>
          cases m with
          | reading => cases h
          | _ => exact h.elim
      | updateEndpoint id' ch =>
          cases m with
          | reading => exact h.2.1
          | _ => exact h.elim
      | _ => trivial
  | _ => trivial

theorem storing_of_policy {t : Task} {m : EditProgress} (h : (policyOf t).permits m c) :
    storing c := by
  unfold policyOf at h
  split at h
  · exact storing_of_editPermits h
  · exact h

/-- Who owns an endpoint is not among the columns that are checked. -/
theorem ValidRow.passedOn {row : Endpoint} (h : ValidRow row) (owner : Option Uuid)
    (time : NaiveDateTime) : ValidRow { row with ownerKeyId := owner, updatedAt := time } :=
  ⟨h.name, h.vaultGroups, h.ttlSeconds, h.maxAgeSeconds⟩

theorem valid_removeKey {db : Database} (h : AllValid db.endpoints) (key : Uuid) :
    AllValid (db.removeKey key).endpoints := by
  refine h.change ?_ ?_
  · intro row
    rfl
  · intro row hrow
    exact hrow.passedOn none row.updatedAt

theorem valid_reassignEndpoints {db : Database} (h : AllValid db.endpoints) (owner newOwner : Uuid)
    (now : NaiveDateTime) : AllValid (db.reassignEndpoints owner newOwner now).endpoints := by
  refine h.change ?_ ?_
  · intro row
    rfl
  · intro row hrow
    exact hrow.passedOn (some newOwner) now

theorem exec_valid (hpermits : storing c) (hexec : exec crates c e s = some (r, s'))
    (h : AllValid s.db.endpoints) : AllValid s'.db.endpoints := by
  cases c with
  | db st =>
      cases r with
      | error err =>
          rw [exec_db_error hexec]
          exact h
      | ok rows =>
          obtain ⟨db, hrun, -, rfl⟩ := exec_db_ok hexec
          cases st with
          | insertEndpoint row =>
              obtain ⟨-, t, hinsert, rfl⟩ := run_insertEndpoint hrun
              exact h.insert hpermits hinsert
          | updateEndpoint id ch =>
              obtain ⟨-, -, -, rfl⟩ := run_updateEndpoint hrun
              exact h.change ch.apply_id fun _ hrow => ValidChanges.apply hpermits hrow
          | deleteEndpoint id =>
              cases hrun
              exact fun row hrow => h row (List.mem_of_mem_filter hrow)
          | _ =>
              dsimp only
              rw [run_not_onEndpoints rfl hrun]
              exact h
  | deleteKey d =>
      -- endpoints only go from one owner to another
      obtain ⟨-, ⟨hdb, -⟩ | ⟨auditId, t, hrun, -⟩⟩ := exec_deleteKey hexec
      · rw [hdb]
        exact h
      · obtain heq | ⟨newOwner, -, heq⟩ := KeyDeletion.endpoints_of_run hrun
        · rw [heq]
          exact valid_removeKey h d.id
        · rw [heq]
          exact valid_removeKey (valid_reassignEndpoints h d.id newOwner d.now) d.id
  | _ =>
      rw [(exec_not_storing rfl hexec).1]
      exact h

end Effects

/-- One row is written, and everything else is as before. -/
structure Rewrites (id : Uuid) (row row' : Endpoint) (before after : Database) : Prop where
  was : before.endpoints.find id = some row
  becomes : after.endpoints.find id = some row'
  others : ∀ other, other ≠ id → after.endpoints.find other = before.endpoints.find other
  rest : after = { before with endpoints := after.endpoints }

/-- One entry comes onto the trail, and everything else is as before. -/
structure Enters (before after : Database) : Prop where
  trail : ∃ log, after.auditLogs.rows = before.auditLogs.rows ++ [log]
  rest : after = { before with auditLogs := after.auditLogs }

section Journal
variable {I : Type} {crates : Crates} {id : Uuid} {payload : UpdateEndpointPayload}
  {own : List (Entry Answer I World)}

def Unwritten (own : List (Entry Answer I World)) : Prop :=
  ∀ en ∈ own, en.after.db = en.before.db

/-- Among the entries one has stored the edited row; the others have written nothing. -/
def HasStored (id : Uuid) (payload : UpdateEndpointPayload) (row' : Endpoint)
    (own : List (Entry Answer I World)) : Prop :=
  ∃ earlier write later row, own = earlier ++ write :: later ∧ Unwritten earlier ∧ Unwritten later ∧
    Edited payload row row' ∧ Rewrites id row row' write.before.db write.after.db

/-- The row is stored, and in the end the edit is entered. -/
def HasEntered (id : Uuid) (payload : UpdateEndpointPayload) (row' : Endpoint)
    (own : List (Entry Answer I World)) : Prop :=
  ∃ earlier entry, own = earlier ++ [entry] ∧ HasStored id payload row' earlier ∧
    Enters entry.before.db entry.after.db

def Noted (id : Uuid) (payload : UpdateEndpointPayload) (own : List (Entry Answer I World)) :
    EditProgress → Prop
  | .reading => Unwritten own
  | .failed => ∃ en ∈ own, failing en.call en.answer = true
  | .stored row => HasStored id payload row own
  | .entered row => HasEntered id payload row own

theorem Unwritten.snoc {en : Entry Answer I World} (h : Unwritten own)
    (hen : en.after.db = en.before.db) : Unwritten (own ++ [en]) := by
  intro en' hen'
  rcases List.mem_append.mp hen' with hold | hnew
  · exact h en' hold
  · rw [List.mem_singleton.mp hnew]
    exact hen

theorem HasStored.snoc {en : Entry Answer I World} {row : Endpoint}
    (h : HasStored id payload row own) (hen : en.after.db = en.before.db) :
    HasStored id payload row (own ++ [en]) := by
  obtain ⟨earlier, write, later, old, rfl, hearlier, hlater, hedited, hrewrites⟩ := h
  exact ⟨earlier, write, later ++ [en], old, by simp, hearlier, hlater.snoc hen, hedited, hrewrites⟩

theorem rewrites_updateEndpoint {ch : EndpointChanges} {row' : Endpoint} {db db' : Database}
    (hrun : (Statement.updateEndpoint id ch).run db = .ok (row', db')) :
    ∃ row, row' = ch.apply row ∧ Rewrites id row row' db db' := by
  obtain ⟨row, hfind, rfl, rfl⟩ := run_updateEndpoint hrun
  have hid : row.id = id := (Table.find_eq_some.mp hfind).2
  refine ⟨row, rfl, hfind, ?_, ?_, rfl⟩
  · simp [Table.find_change, hfind, hid]
  · intro other hother
    rw [Table.find_change]
    cases hrow : db.endpoints.find other with
    | none => rfl
    | some row₂ =>
        have hid₂ : row₂.id ≠ id := by
          rw [(Table.find_eq_some.mp hrow).2]
          exact hother
        simp [hid₂]

theorem run_reads {st : Statement} {rows : st.Rows} {db db' : Database} (hst : reads st = true)
    (hrun : st.run db = .ok (rows, db')) : db' = db := by
  cases st with
  | findEndpoint _ | grantsOf _ =>
      cases hrun
      rfl
  | _ => cases hst

/-- One more call of the update, and what it has done by then. -/
theorem Noted.step {m : EditProgress} {i : I} {c : Call} {e : Choice} {s s' : World} {r : Answer c}
    (h : Noted id payload own m) (hpermits : editPermits id payload m c)
    (hexec : exec crates c e s = some (r, s')) :
    Noted id payload (own ++ [⟨i, c, r, s, s'⟩]) (m.next c r) := by
  have hlast : (⟨i, c, r, s, s'⟩ : Entry Answer I World) ∈ own ++ [⟨i, c, r, s, s'⟩] :=
    List.mem_append_right _ (List.mem_singleton_self _)
  cases c with
  | db st =>
      cases r with
      | error err =>
          have hfailed : m.next (.db st) (.error err) = .failed := by cases m <;> rfl
          rw [hfailed]
          exact ⟨_, hlast, rfl⟩
      | ok rows =>
          obtain ⟨db, hrun, -, hs'⟩ := exec_db_ok hexec
          have hdb : s'.db = db := by rw [hs']
          cases m with
          | reading =>
              by_cases hupdate : ∃ id' ch, st = .updateEndpoint id' ch
              · obtain ⟨id', ch, rfl⟩ := hupdate
                obtain ⟨rfl, -, now, rfl⟩ := hpermits
                obtain ⟨row, rfl, hrewrites⟩ := rewrites_updateEndpoint hrun
                refine ⟨own, _, [], row, rfl, h, ?_, edited_changes payload now row, ?_⟩
                · intro en hen
                  cases hen
                · rw [hdb]
                  exact hrewrites
              · have hst : reads st = true := by
                  cases st with
                  | updateEndpoint id' ch => exact absurd ⟨id', ch, rfl⟩ hupdate
                  | _ => exact hpermits
                have hreading : EditProgress.next .reading (.db st) (.ok rows) = .reading := by
                  cases st <;> first | rfl | cases hst
                rw [hreading]
                refine Unwritten.snoc h ?_
                rw [hdb]
                exact run_reads hst hrun
          | stored row =>
              cases st with
              | insertAudit log =>
                  obtain ⟨-, t, hinsert, rfl⟩ := run_insertAudit hrun
                  refine ⟨own, _, rfl, h, ⟨log, ?_⟩, ?_⟩
                  · rw [hdb]
                    exact (Table.rows_insert hinsert).1
                  · rw [hdb]
              | _ => exact hpermits.elim
          | failed | entered row => exact hpermits.elim
  | now =>
      have hdb := (exec_not_storing rfl hexec).1
      cases m with
      | reading => exact Unwritten.snoc h hdb
      | stored row => exact HasStored.snoc h hdb
      | failed | entered row => exact hpermits.elim
  | newUuid =>
      cases m with
      | stored row => exact HasStored.snoc h (exec_not_storing rfl hexec).1
      | reading | failed | entered row => exact hpermits.elim
  | _ => cases m <;> exact hpermits.elim

end Journal

section Runs
variable {I : Type} [DecidableEq I] {app : AppState} {tasks : I → Task} {w : World}

/-- The rows are valid, and each update has done what its progress says. -/
structure Accounted (tasks : I → Task) (j : List (Entry Answer I World)) (ms : I → EditProgress)
    (s : World) : Prop where
  valid : AllValid s.db.endpoints
  noted : ∀ i id payload, editsOf (tasks i) = some (id, payload) →
    Noted id payload (ownEntries i j) (ms i)

theorem policyOf_edits {t : Task} {id : Uuid} {payload : UpdateEndpointPayload}
    (h : editsOf t = some (id, payload)) : policyOf t = edits id payload := by
  unfold editsOf at h
  split at h
  · cases h
    rfl
  · cases h

theorem Accounted.step {j : List (Entry Answer I World)} {ms : I → EditProgress} {i : I} {c : Call}
    {e : Choice} {s s' : World} {r : Answer c} (h : Accounted tasks j ms s)
    (hpermits : (policyOf (tasks i)).permits (ms i) c)
    (hexec : exec app.crates c e s = some (r, s')) :
    Accounted tasks (j ++ [⟨i, c, r, s, s'⟩]) (Function.update ms i ((ms i).next c r)) s' where
  valid := exec_valid (storing_of_policy hpermits) hexec h.valid
  noted := by
    intro k id payload hedits
    rw [ownEntries_append]
    by_cases hk : i = k
    · subst hk
      have hself : ownEntries i [(⟨i, c, r, s, s'⟩ : Entry Answer I World)] = [⟨i, c, r, s, s'⟩] :=
        ownEntries_self rfl
      rw [policyOf_edits hedits] at hpermits
      rw [hself, Function.update_self]
      exact (h.noted i id payload hedits).step hpermits hexec
    · rw [ownEntries_other hk, List.append_nil, Function.update_of_ne (Ne.symm hk)]
      exact h.noted k id payload hedits

theorem policyOf_moves {t : Task} {m : EditProgress} {c : Call} {r : Answer c}
    (hfound : FoundById c r) :
    (policyOf t).moves m c r (m.next c r) := by
  unfold policyOf
  split
  · exact ⟨hfound, rfl⟩
  · exact hfound

theorem run_accounted {events : List (Event I Choice Change)} {p : Process I}
    (hvalid : AllValid w.db.endpoints)
    (hrun : Interleaving.run (system app.crates) (process app tasks w) events = some p) :
    ∃ ms, Watched (fun i => policyOf (tasks i)) (fun i => endsOf (tasks i))
      (fun past => Accounted tasks (journal (system app.crates) (process app tasks w) past))
      events p ms := by
  have hinit : Watched (fun i => policyOf (tasks i)) (fun i => endsOf (tasks i))
      (fun past => Accounted tasks (journal (system app.crates) (process app tasks w) past)) []
      (process app tasks w) (fun _ => .reading) := by
    refine ⟨fun i => program_edits app (tasks i), hvalid, ?_⟩
    intro i id payload _ en hen
    cases hen
  refine run_watched _ _ _ (fun _ _ => True) hinit ?_ ?_ hrun fun _ _ _ _ _ _ => trivial
  · intro past p ms i e c next r s' hp hms hc _ hpermits hexec
    refine ⟨(ms i).next c r, policyOf_moves (exec_foundById hexec), ?_⟩
    rw [journal_append_singleton hp, entries_act hc hexec]
    exact hms.inv.step hpermits hexec
  · intro past p ms ch s' hp hms _ henv
    rw [journal_append_singleton hp, entries, List.append_nil, env_eq_some henv]
    exact ⟨hms.inv.valid, hms.inv.noted⟩

end Runs

/-- Any tasks beside each other, on a table of valid rows (one without rows among them).
Every row stays valid. And of each update of an endpoint that has ended:

* when it has succeeded, one of its calls has written the row of that endpoint, edited
  field by field, and after it one has entered the edit on the trail; it has written
  nothing else, and answers with the edited row;
* when it has failed, though none of its statements has, it has written nothing. -/
theorem endpoint_rows_edited {I : Type} [DecidableEq I] {app : AppState} {tasks : I → Task}
    {w : World} {events : List (Event I Choice Change)} {p : Process I}
    (hvalid : ∀ row ∈ w.db.endpoints.rows, ValidRow row)
    (hrun : Interleaving.run (system app.crates) (process app tasks w) events = some p) :
    (∀ row ∈ p.state.db.endpoints.rows, ValidRow row) ∧
    ∀ i caller id payload, tasks i = .request caller (.updateEndpoint (.ok id) (.ok payload)) →
      (∀ response, p.outcome i = some (some (.ok response)) →
        ∃ row', response = .endpoint (.of row') ∧ HasEntered id payload row'
          (ownEntries i (journal (system app.crates) (process app tasks w) events))) ∧
      ∀ err, p.outcome i = some (some (.error err)) →
        (∀ en ∈ ownEntries i (journal (system app.crates) (process app tasks w) events),
          failing en.call en.answer = false) →
        Unwritten (ownEntries i (journal (system app.crates) (process app tasks w) events)) := by
  obtain ⟨ms, hms⟩ := run_accounted hvalid hrun
  refine ⟨hms.inv.valid, ?_⟩
  intro i caller id payload htask
  have hnoted := hms.inv.noted i id payload (by rw [htask]; rfl)
  have hends : ∀ outcome, p.outcome i = some outcome → endsOf (tasks i) (ms i) outcome := by
    intro outcome houtcome
    have hi := hms.follows i
    rw [Pool.outcome_eq_some.mp houtcome] at hi
    exact follows_value.mp hi
  rw [htask] at hends
  refine ⟨?_, ?_⟩
  · intro response houtcome
    obtain ⟨_, ⟨⟩, row, hm, rfl⟩ := hends _ houtcome
    rw [hm] at hnoted
    exact ⟨row, rfl, hnoted⟩
  · intro err houtcome hnone
    obtain ⟨_, ⟨⟩, hreading | hfailed⟩ := hends _ houtcome
    · rw [hreading] at hnoted
      exact hnoted
    · rw [hfailed] at hnoted
      obtain ⟨en, hen, hfailing⟩ := hnoted
      rw [hnone en hen] at hfailing
      cases hfailing

theorem listedWorld_valid : ∀ row ∈ listedWorld.db.endpoints.rows, ValidRow row := by
  intro row hrow
  rw [List.mem_singleton.mp hrow]
  exact ⟨by decide +kernel, ⟨"dmz", by decide +kernel⟩, by decide, by decide⟩

/-- The name of the endpoint answered with. -/
def answeredName : Option (Option (Except AppError Response)) → Option String
  | some (some (.ok (.endpoint response))) => some response.name
  | _ => none

/-- The endpoint gets another name while the worker is at it. -/
theorem endpoint_rows_edited_renamed :
    (∀ row ∈ listedWorld.db.endpoints.rows, ValidRow row) ∧
    ∃ p row', Interleaving.run (system sampleApp.crates)
        (process sampleApp renamingTasks listedWorld) renamedMeanwhile = some p ∧
      (∀ row ∈ p.state.db.endpoints.rows, ValidRow row) ∧
      p.outcome true = some (some (.ok (.endpoint (.of row')))) ∧ row'.name = "renamed" ∧
      HasEntered 5 ⟨some "renamed", none, none, none, none, none, none, none, none⟩ row'
        (ownEntries true (journal (system sampleApp.crates)
          (process sampleApp renamingTasks listedWorld) renamedMeanwhile)) := by
  have hends : ((Interleaving.run (system sampleApp.crates)
      (process sampleApp renamingTasks listedWorld) renamedMeanwhile).bind fun p =>
        answeredName (p.outcome true)) = some "renamed" := by
    decide +kernel
  obtain ⟨p, hrun, hname⟩ := Option.bind_eq_some_iff.mp hends
  obtain ⟨hvalid, hupdate⟩ := endpoint_rows_edited listedWorld_valid hrun
  unfold answeredName at hname
  split at hname
  · rename_i response houtcome
    obtain ⟨row', hresponse, hentered⟩ := (hupdate true _ _ _ rfl).1 _ houtcome
    cases hresponse
    exact ⟨listedWorld_valid, p, row', hrun, hvalid, houtcome, Option.some.inj hname, hentered⟩
  · cases hname

end SimplyIpExporter.EndpointRows
