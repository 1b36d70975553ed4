import SimplyIpExporter.HandlerRules

/-!
# How a sync pass proceeds

What the worker may call next depends on the listed rows it has not begun, on the
row at hand and on what it has received for it. It fetches for that row only, stores
what it fetched, and writes a cursor only after it has stored. An update of an
endpoint, by anybody, writes no cursor and does not reach the cache.
-/
namespace SimplyIpExporter.SyncPasses
open Entities VaultClient VaultMemberships Storage Services Programs EndpointHandlers SyncWorker
open Routes HandlerRules

structure Pass where
  /-- Rows of the present listing that have not been begun. -/
  pending : List Endpoint
  current : Option Endpoint
  /-- A full sync was due for the current row. -/
  full : Bool
  reply : Option (List VaultApiRecord)
  applied : Bool
  now : Option NaiveDateTime

def Pass.listed (rows : List Endpoint) : Pass := ⟨rows, none, false, none, false, none⟩

def Pass.begun (ep : Endpoint) (rest : List Endpoint) (full : Bool) : Pass :=
  ⟨rest, some ep, full, none, false, none⟩

/-- Rows the worker still holds. -/
def Pass.rows (w : Pass) : List Endpoint := w.current.toList ++ w.pending

def Pass.next (w : Pass) : (c : Call) → Answer c → Pass
  | .db .allEndpoints, .ok rows => .listed rows
  | .db (.updateEndpoint _ _), _ => .listed w.pending
  | .fullSyncDue _, due => ⟨w.pending.tail, w.pending.head?, due, none, false, none⟩
  | .now, t => { w with now := some t }
  | .fetchIps _ _, .ok records => { w with reply := some records }
  | .applyFull _ _, _ | .applyDiff _ _, _ => { w with applied := true }
  | _, _ => w

/-- The records have been received for the current row, which has the identifier, and
not yet stored. -/
def Pass.Received (w : Pass) (id : Uuid) (records : List VaultApiRecord) : Prop :=
  (∃ ep, w.current = some ep ∧ id = ep.id) ∧ w.reply = some records ∧ w.applied = false

def Pass.permits (w : Pass) : Call → Prop
  | .db .allEndpoints | .now => True
  | .db (.updateEndpoint id ch) => w.applied = true ∧ (∃ ep, w.current = some ep ∧ id = ep.id) ∧
      ∃ t, w.now = some t ∧ ch = { lastSyncedAt := some (some t) }
  | .fullSyncDue id => ∃ ep, w.pending.head? = some ep ∧ id = ep.id
  | .fetchIps groups since => w.applied = false ∧ ∃ ep, w.current = some ep ∧
      groups = ep.vaultGroups ∧ since = if w.full then none else ep.lastSyncedAt
  | .applyFull id rs => w.full = true ∧ ∃ records, w.Received id records ∧ rs = mapRecords records
  | .applyDiff id rs => w.full = false ∧ ∃ records, w.Received id records ∧ rs = mapRecords records
  | _ => False

def syncing : Policy Answer Pass := ⟨Pass.permits, fun w c r w' => w' = w.next c r⟩

section Worker
variable {ep : Endpoint} {rest : List Endpoint} {w : Pass}

theorem markSynced_follows (hcurrent : w.current = some ep) (happlied : w.applied = true)
    (hpending : w.pending = rest) :
    Follows syncing (fun w' _ => w'.pending = rest) (markSynced ep) w := by
  refine Follows.perform_bind trivial ?_
  rintro now _ rfl
  refine Follows.perform_bind ⟨happlied, ⟨ep, hcurrent, rfl⟩, now, rfl, rfl⟩ ?_
  rintro updated _ rfl
  exact Follows.pure hpending

theorem fullSync_follows :
    Follows syncing (fun w' _ => w'.pending = rest) (fullSync ep) (.begun ep rest true) := by
  refine Follows.perform_bind ⟨rfl, ep, rfl, rfl, rfl⟩ ?_
  rintro reply _ rfl
  cases reply with
  | error e => exact Follows.pure rfl
  | ok records =>
      refine Follows.perform_bind ⟨rfl, records, ⟨⟨ep, rfl, rfl⟩, rfl, rfl⟩, rfl⟩ ?_
      rintro u _ rfl
      exact markSynced_follows rfl rfl rfl

theorem differentialSync_follows (hcurrent : w.current = some ep) (hfull : w.full = false)
    (happlied : w.applied = false) (hpending : w.pending = rest) :
    Follows syncing (fun w' _ => w'.pending = rest) (differentialSync ep) w := by
  have hfetch : w.permits (.fetchIps ep.vaultGroups ep.lastSyncedAt) := by
    refine ⟨happlied, ep, hcurrent, rfl, ?_⟩
    rw [hfull]
    rfl
  refine Follows.perform_bind hfetch ?_
  rintro reply _ rfl
  cases reply with
  | error e => exact Follows.pure hpending
  | ok records =>
      refine Follows.perform_bind ⟨hfull, records, ⟨⟨ep, hcurrent, rfl⟩, rfl, happlied⟩, rfl⟩ ?_
      rintro u _ rfl
      exact markSynced_follows hcurrent rfl hpending

theorem differentialDue_follows :
    Follows syncing (fun w' _ => w'.current = some ep ∧ w'.full = false ∧ w'.applied = false ∧
      w'.pending = rest) (differentialDue ep) (.begun ep rest false) := by
  unfold differentialDue
  split
  · exact Follows.pure ⟨rfl, rfl, rfl, rfl⟩
  · refine Follows.perform_bind trivial ?_
    rintro now _ rfl
    exact Follows.pure ⟨rfl, rfl, rfl, rfl⟩

theorem syncEndpoint_follows (hpending : w.pending = ep :: rest) :
    Follows syncing (fun w' _ => w'.pending = rest) (syncEndpoint ep) w := by
  refine Follows.perform_bind ⟨ep, by rw [hpending]; rfl, rfl⟩ ?_
  rintro due _ rfl
  have hbegun : w.next (.fullSyncDue ep.id) due = .begun ep rest due := by
    simp [Pass.next, Pass.begun, hpending]
  simp only [hbegun]
  cases due with
  | true => exact fullSync_follows
  | false =>
      refine differentialDue_follows.bind ?_
      rintro w' due ⟨hcurrent, hfull, happlied, hrest⟩
      split
      · exact differentialSync_follows hcurrent hfull happlied hrest
      · exact Follows.pure hrest

theorem syncEach_follows (rows : List Endpoint) (hpending : w.pending = rows) :
    Follows syncing (fun _ _ => True) (syncEach rows) w := by
  induction rows generalizing w with
  | nil => exact Follows.pure trivial
  | cons ep rest ih => exact (syncEndpoint_follows hpending).bind fun w' _ hrest => ih hrest

theorem syncAllEndpoints_follows (vaultConfigured : Bool) (w : Pass) :
    Follows syncing (fun _ _ => True) (syncAllEndpoints vaultConfigured) w := by
  unfold syncAllEndpoints
  split
  · refine Follows.perform_bind trivial ?_
    rintro listed _ rfl
    cases listed with
    | error e => exact Follows.pure trivial
    | ok rows => exact syncEach_follows rows rfl
  · exact Follows.pure trivial

theorem worker_follows (vaultConfigured : Bool) (passes : ℕ) (w : Pass) :
    Follows syncing (fun _ _ => True) (worker vaultConfigured passes) w := by
  induction passes generalizing w with
  | zero => exact Follows.pure trivial
  | succ passes ih => exact (syncAllEndpoints_follows vaultConfigured w).bind fun w' _ _ => ih w'

end Worker

/-- An edit changes columns of existing endpoints other than the cursor. -/
def editingRules : CallRules where
  permits
    | .db (.updateEndpoint _ ch) => ch.lastSyncedAt = none
    | .db st => st.onEndpoints = false
    | .now | .newUuid | .random _ | .listGroups => True
    | _ => False
  answers _ _ := True
  permits_harmless c hc := by
    cases c with
    | db st => cases st <;> first | rfl | cases hc
    | now | newUuid | random length | listGroups => trivial
    | _ => cases hc

def editing : Policy Answer Pass := editingRules.policy Pass

theorem keeps_updateEndpoint (app : AppState) (caller : Caller) (id : Uuid)
    (payload : UpdateEndpointPayload) :
    Keeps editingRules (updateEndpoint app caller id payload) := by
  refine findEndpoint_bind fun existing _ => attempt_bind fun _ _ => attempt_bind fun _ _ => ?_
  refine keeps_then (keeps_checkGroups caller.key payload.vaultGroups) fun _ => ?_
  refine attempt_bind fun _ _ => attempt_bind fun _ _ => attempt_bind fun _ _ => ?_
  refine draw_bind rfl fun now => statement_bind rfl fun updated _ => ?_
  exact entry_bind (fun _ _ => rfl) _

/-- The task is an update of an endpoint. -/
def IsUpdate (t : Task) : Prop :=
  ∃ caller id payload, t = .request caller (.updateEndpoint id payload)

theorem update_follows {app : AppState} {t : Task} (ht : IsUpdate t) (w : Pass) :
    Follows editing (fun _ _ => True) (t.program app) w := by
  obtain ⟨caller, id, payload, rfl⟩ := ht
  have hhandle : Keeps editingRules (handle app caller (.updateEndpoint id payload)) :=
    attempt_bind fun id _ => attempt_bind fun payload _ =>
      keeps_answer (keeps_updateEndpoint app caller id payload)
  exact (hhandle Pass w).bind fun _ _ _ => Follows.pure trivial

theorem sync_follows (app : AppState) (passes : ℕ) (w : Pass) :
    Follows syncing (fun _ _ => True) ((Task.sync passes).program app) w :=
  (worker_follows app.vaultConfigured passes w).bind fun _ _ _ => Follows.pure trivial

/-- The worker keeps to every policy that permits in each state what it may call. -/
theorem sync_follows_of_permits {M : Type} {P : Policy Answer M}
    (hpermits : ∀ pass m c, syncing.permits pass c → P.permits m c) (app : AppState) (passes : ℕ)
    (m : M) : Follows P (fun _ _ => True) ((Task.sync passes).program app) m :=
  (sync_follows app passes (.listed [])).relax hpermits (fun pass c r => ⟨pass.next c r, rfl⟩) m

end SimplyIpExporter.SyncPasses
