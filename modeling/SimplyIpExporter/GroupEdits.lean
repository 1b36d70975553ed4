import SimplyIpExporter.CacheFreshness
import SimplyIpExporter.DaughterConfinement

/-!
# Edits of an endpoint's groups

Updates of endpoints run beside the worker. An update leaves the cursor and the cache
as they are, so that a differential sync after it merges what has lately changed in
the new groups into the addresses of the old ones. A full sync does follow the edit,
if its pass listed the rows after it.
-/
namespace SimplyIpExporter.GroupEdits
open Entities KeyedTables AddressCache VaultClient VaultMemberships Storage Services Programs
open Interleaving EndpointHandlers Routes SyncPasses SyncHistory CacheFreshness

/-- The worker fetched for the groups the endpoint's row named at that moment. A batch
was asked for with a cursor and for the groups the cache goes back to, and has no
tombstone for an address still live in them. No cursor is stored over an unseen
change. -/
def settledCall (focus : Uuid) (s : World) (h : History) : Call → Bool
  | .db (.updateEndpoint id ch) => marksSafely focus s h id ch
  | .applyFull id _ => decide (id = focus → ∀ f ∈ h.served, f.configured = some f.groups)
  | .applyDiff id _ => decide (id = focus → ∀ f ∈ h.served, f.configured = some f.groups ∧
      f.since ≠ none ∧ (∀ f₀ ∈ h.synced, f₀.names = f.names) ∧
      TombstonesFinal f.vault f.names f.records)
  | _ => true

theorem orderly_of_settled {focus : Uuid} {s : World} {h : History} {c : Call}
    (hcall : settledCall focus s h c = true) :
    Orderly focus (fun f => f.configured = some f.groups) s h c := by
  cases c with
  | db st =>
      cases st with
      | updateEndpoint id ch => exact changedFrom_of_marksSafely hcall
      | _ => trivial
  | applyFull id rs | applyDiff id rs =>
      intro hid f hserved
      exact of_decide_eq_true hcall hid f hserved
  | _ => trivial

/-- One worker beside any updates of endpoints. As long as every sync of the endpoint
is a full one or one for unchanged groups, as the condition says, the cache holds
exactly the addresses live in the groups the row named when the worker fetched. -/
theorem feed_follows_groups {I : Type} [DecidableEq I] {app : AppState} {focus : Uuid}
    {tasks : I → Task} {worker : I} {passes : ℕ} {s₀ : World}
    {events : List (Event I Choice Change)} {q : Process I} (hcrew : Crew tasks worker passes)
    (hcold : Cold focus s₀) (hparsed : Parsed app.crates s₀.vault)
    (hrun : run (system app.crates) (process app tasks s₀) events = some q)
    (hsettled : Along (observed app.crates focus)
      (fun p ev => callsMeet app.crates (settledCall focus) p ev = true)
        (start app tasks s₀) events) :
    ∃ h, run (observed app.crates focus) (start app tasks s₀) events = some (q.noting h) ∧
      ∀ f, h.synced = some f → ∃ raw, f.configured = some raw ∧
        Holds (q.state.cache.entry focus).records f.vault (groupNames raw) := by
  obtain ⟨h, hnoted⟩ := run_observe (note focus) hrun .start
  obtain ⟨w, -, -, -, hf⟩ := run_fresh (K := fun _ _ _ => True) hcrew hcold hparsed trivial
    (fun _ _ _ _ _ _ _ _ _ _ _ => trivial) (fun _ _ _ _ _ _ _ _ _ => trivial)
    (fun _ _ _ _ _ _ _ => trivial) (fun _ _ _ _ _ _ _ hcall => orderly_of_settled hcall) hnoted
      hsettled
  refine ⟨h, hnoted, ?_⟩
  intro f hsynced
  obtain ⟨hholds, hconfigured⟩ := hf.holds f hsynced
  exact ⟨f.groups, hconfigured, hholds⟩

def editingMaster : ApiKey := { DaughterConfinement.sampleKey with isMaster := true }

def editedWorld : World :=
  { syncedWorld with
    db := { syncedWorld.db with apiKeys := ⟨[editingMaster], by decide⟩ }
    vault := ((∅ : Vault).insert ("dmz", "10.0.0.1") ⟨0, false, 0⟩).insert ("lan", "10.0.0.2")
      ⟨0, false, 0⟩ }

def sampleEdit : UpdateEndpointPayload where
  name := none
  description := none
  vaultGroups := some "lan"
  ttlSeconds := none
  maxAgeSeconds := none
  boundIps := none
  filterRfc1918 := none
  filterBogons := none
  filterLoopback := none

/-- The worker, and the Master's update. -/
def editTasks (isWorker : Bool) : Task :=
  if isWorker then .sync 2
  else .request ⟨editingMaster, .v4 0x0a000001#32⟩ (.updateEndpoint (.ok 5) (.ok sampleEdit))

theorem editTasks_crew : Crew editTasks true 2 where
  syncs := rfl
  updates := by
    intro i hi
    obtain rfl : i = false := by simpa using hi
    exact ⟨_, _, _, rfl⟩

theorem editedWorld_cold : Cold 5 editedWorld where
  cache := rfl
  past := by
    intro t hcursor
    cases hcursor

theorem editedWorld_parsed : Parsed sampleApp.crates editedWorld.vault := by
  intro key m hm
  by_cases hlan : key = ("lan", "10.0.0.2")
  · rw [hlan]
    decide
  · by_cases hdmz : key = ("dmz", "10.0.0.1")
    · rw [hdmz]
      decide
    · dsimp only [editedWorld] at hm
      rw [AList.lookup_insert_ne hlan, AList.lookup_insert_ne hdmz] at hm
      cases hm

/-- The update from beginning to end. -/
def editEvents : List (Event Bool Choice Change) :=
  [.act false .succeed, .act false (.time 2000000000), .act false .succeed, .act false (.uuid 9),
    .act false (.time 2000000000), .act false .succeed]

def editThenSync : List (Event Bool Choice Change) :=
  editEvents ++ fullFetch true [⟨"10.0.0.2", 0, false⟩] ++ fullStore true 2000000000

def syncThenEdit : List (Event Bool Choice Change) :=
  fullFetch true [⟨"10.0.0.1", 0, false⟩] ++ fullStore true 2000000000 ++ editEvents ++
    differentialPass true 3000000000 []

/-- Before the first sync the edit is followed. -/
theorem feed_follows_groups_full :
    ∃ q, run (system sampleApp.crates) (process sampleApp editTasks editedWorld)
        editThenSync = some q ∧
      ∃ h, run (observed sampleApp.crates 5) (start sampleApp editTasks editedWorld)
          editThenSync = some (q.noting h) ∧
        h.synced.map Serving.configured = some (some "lan") ∧
        (q.state.cache.entry 5).records.keys = ["10.0.0.2"] ∧
        ∀ f, h.synced = some f → ∃ raw, f.configured = some raw ∧
          Holds (q.state.cache.entry 5).records f.vault (groupNames raw) := by
  have hruns : (run (system sampleApp.crates) (process sampleApp editTasks editedWorld)
      editThenSync).map (fun q => (q.state.cache.entry 5).records.keys) = some ["10.0.0.2"] := by
    decide +kernel
  have hchecks : (checkedRun (observed sampleApp.crates 5)
      (fun p ev => callsMeet sampleApp.crates (settledCall 5) p ev = true)
        (start sampleApp editTasks editedWorld)
      editThenSync).map (fun q => q.state.2.synced.map Serving.configured) =
        some (some (some "lan")) := by
    decide +kernel
  obtain ⟨q, hrun, hkeys⟩ := Option.map_eq_some_iff.mp hruns
  obtain ⟨q', hchecked, hconfigured⟩ := Option.map_eq_some_iff.mp hchecks
  obtain ⟨hrun', hsettled⟩ := checkedRun_eq_some hchecked
  obtain ⟨h, hnoted, hholds⟩ :=
    feed_follows_groups editTasks_crew editedWorld_cold editedWorld_parsed hrun hsettled
  refine ⟨q, hrun, h, hnoted, ?_, hkeys, hholds⟩
  rw [hrun'] at hnoted
  cases hnoted
  exact hconfigured

/-- After a sync it is not: the update has returned, a sync begun after it succeeds,
and the cache still has the address of the old group and lacks that of the new one. -/
theorem edit_not_followed :
    ∃ q, run (system sampleApp.crates) (process sampleApp editTasks editedWorld)
        syncThenEdit = some q ∧
      (q.outcome false).map (Option.map Except.isOk) = some (some true) ∧
      (q.state.db.endpoints.find 5).map (·.vaultGroups) = some "lan" ∧
      (q.state.cache.entry 5).records.keys = ["10.0.0.1"] ∧
      ∃ h f, run (observed sampleApp.crates 5) (start sampleApp editTasks editedWorld)
          syncThenEdit = some (q.noting h) ∧
        h.synced = some f ∧ f.configured = some "lan" ∧
        ¬ Holds (q.state.cache.entry 5).records f.vault ["lan"] := by
  have hruns : (run (system sampleApp.crates) (process sampleApp editTasks editedWorld)
      syncThenEdit).map (fun q => ((q.outcome false).map (Option.map Except.isOk),
          (q.state.db.endpoints.find 5).map (·.vaultGroups),
          (q.state.cache.entry 5).records.keys)) =
      some (some (some true), some "lan", ["10.0.0.1"]) := by
    decide +kernel
  have hnotes : (run (observed sampleApp.crates 5) (start sampleApp editTasks editedWorld)
      syncThenEdit).map (fun q => q.state.2.synced.map fun f =>
          (f.configured, decide (f.vault.Live ["lan"] "10.0.0.2"))) =
            some (some (some "lan", true)) := by
    decide +kernel
  obtain ⟨q, hrun, hstate⟩ := Option.map_eq_some_iff.mp hruns
  obtain ⟨houtcome, hgroups, hkeys⟩ := by simpa only [Prod.mk.injEq] using hstate
  obtain ⟨h, hnoted⟩ := run_observe (note 5) hrun .start
  have hnoted' : run (observed sampleApp.crates 5) (start sampleApp editTasks editedWorld)
      syncThenEdit = some (q.noting h) := hnoted
  rw [hnoted', Option.map_some, Option.some.injEq] at hnotes
  obtain ⟨f, hsynced, hf⟩ := Option.map_eq_some_iff.mp hnotes
  obtain ⟨hconfigured, hlive⟩ := Prod.mk.inj hf
  refine ⟨q, hrun, houtcome, hgroups, hkeys, h, f, hnoted', hsynced, hconfigured, ?_⟩
  intro hholds
  have hheld := (hholds "10.0.0.2").mpr (of_decide_eq_true hlive)
  have hmem : "10.0.0.2" ∈ (q.state.cache.entry 5).records.keys := AList.lookup_isSome.mp hheld
  rw [hkeys] at hmem
  revert hmem
  decide

end SimplyIpExporter.GroupEdits
