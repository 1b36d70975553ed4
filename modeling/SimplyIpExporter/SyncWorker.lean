import SimplyIpExporter.Pagination
import SimplyIpExporter.Services

/-!
# The sync worker

A pass lists the endpoints and then treats one after the other from that list: a
full sync every twenty-four hours, a differential one once the time to live has
passed. A row of the list may be old by the time it is used. Failures are logged
and otherwise ignored.
-/
namespace SimplyIpExporter.SyncWorker
open Entities VaultClient VaultMemberships Storage Services Programs

/-- Moves the cursor to the present. -/
def markSynced (ep : Endpoint) : Program Answer Unit := do
  let now ← perform Call.now
  let _ ← perform (Call.db (.updateEndpoint ep.id { lastSyncedAt := some (some now) }))
  pure ()

def differentialDue (ep : Endpoint) : Program Answer Bool :=
  match ep.lastSyncedAt with
  | none => pure true
  | some last => do
    let now ← perform Call.now
    pure (decide (max ep.ttlSeconds 1 * nanosPerSecond ≤ now - last))

def fullSync (ep : Endpoint) : Program Answer Unit := do
  let reply : Except VaultError (List VaultApiRecord) ← perform (Call.fetchIps ep.vaultGroups none)
  match reply with
  | .error _ => pure ()
  | .ok records => do
    let _ ← perform (Call.applyFull ep.id (mapRecords records))
    markSynced ep

def differentialSync (ep : Endpoint) : Program Answer Unit := do
  let reply : Except VaultError (List VaultApiRecord) ←
    perform (Call.fetchIps ep.vaultGroups ep.lastSyncedAt)
  match reply with
  | .error _ => pure ()
  | .ok records => do
    let _ ← perform (Call.applyDiff ep.id (mapRecords records))
    markSynced ep

def syncEndpoint (ep : Endpoint) : Program Answer Unit := do
  let fullDue : Bool ← perform (Call.fullSyncDue ep.id)
  if fullDue then fullSync ep
  else do
    let due ← differentialDue ep
    if due then differentialSync ep else pure ()

def syncEach : List Endpoint → Program Answer Unit
  | [] => pure ()
  | ep :: rest => do
    syncEndpoint ep
    syncEach rest

def syncAllEndpoints (vaultConfigured : Bool) : Program Answer Unit :=
  if vaultConfigured then do
    let listed : Except DbErr (List Endpoint) ← perform (Call.db .allEndpoints)
    match listed with
    | .error _ => pure ()
    | .ok rows => syncEach rows
  else pure ()

/-- The worker's loop, for as many passes as it lives. -/
def worker (vaultConfigured : Bool) : ℕ → Program Answer Unit
  | 0 => pure ()
  | passes + 1 => do
    syncAllEndpoints vaultConfigured
    worker vaultConfigured passes

/-- What the client collects page by page from a Vault that does not change
meanwhile is an answer a fetch may give. -/
theorem fetchIps_is_answer (crates : Crates) (w : World) (groups : String)
    (since : Option NaiveDateTime) (flavour : Pagination.Flavour) (pick : ℕ → ℕ)
    {listing : List VaultApiRecord}
    (hlisting : listing.Perm (query w.vault (groupNames groups) since))
    (hfits : listing.length ≤ maxPages * pageSizeDefault) :
    ∃ rs, (VaultClient.fetchIps (Pagination.exactServer flavour listing) pick pageSizeDefault groups
        since).1 = .ok rs ∧
      exec crates (.fetchIps groups since) (.records (.ok rs)) w = some (.ok rs, w) := by
  obtain ⟨rs, hrs, hperm⟩ := (Pagination.fetch_whole (by decide : 0 < pageSizeDefault)
    (rfl : id pageSizeDefault = pageSizeDefault) pick groups since flavour listing).result
  rw [List.take_of_length_le hfits] at hperm
  refine ⟨rs, hrs, ?_⟩
  have hanswer := List.isPerm_iff.mpr (hperm.trans hlisting)
  simp [exec, hanswer]

end SimplyIpExporter.SyncWorker
