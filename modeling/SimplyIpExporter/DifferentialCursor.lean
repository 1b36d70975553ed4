import SimplyIpExporter.CacheFreshness

/-!
# The differential cursor

The worker alone, against a Vault that changes at any moment. The cursor stored after
a sync is the time of storing it, not of the fetch: a change that falls between the
two, in an earlier second than the cursor, is in neither listing. Apart from that,
and from a differential fetch that has no cursor to start from and so lists no
tombstones, no change is lost.
-/
namespace SimplyIpExporter.DifferentialCursor
open Entities KeyedTables AddressCache VaultClient VaultMemberships Storage Services Programs
open Interleaving EndpointHandlers Routes SyncPasses SyncHistory CacheFreshness

/-- No cursor is stored over an unseen change, and no differential batch was asked
for without a cursor. -/
def safeCall (focus : Uuid) (s : World) (h : History) : Call → Bool
  | .db (.updateEndpoint id ch) => marksSafely focus s h id ch
  | .applyDiff id _ => decide (id = focus → ∀ f ∈ h.served, f.since ≠ none)
  | _ => true

/-- The endpoint's row, the worker's copies of it and the cache all go with the same
groups. -/
structure SameGroups (focus : Uuid) (raw : String) (w : Pass) (s : World) (h : History) : Prop where
  row : ∀ row, s.db.endpoints.find focus = some row → row.vaultGroups = raw
  rows : ∀ row ∈ w.rows, row.id = focus → row.vaultGroups = raw
  synced : ∀ f, h.synced = some f → f.groups = raw

section SameGroups
variable {crates : Crates} {focus : Uuid} {raw : String} {w : Pass} {s s' : World} {h : History}
  {e : Choice}

theorem SameGroups.mark {id : Uuid} {ch : EndpointChanges} {answer : Except DbErr Endpoint}
    (hs : SameGroups focus raw w s h) (hpermits : w.permits (.db (.updateEndpoint id ch)))
    (hexec : exec crates (.db (.updateEndpoint id ch)) e s = some (answer, s')) :
    SameGroups focus raw (.listed w.pending) s' h := by
  have hrows : ∀ row ∈ w.pending, row.id = focus → row.vaultGroups = raw := by
    intro row hrow
    exact hs.rows row (List.mem_append_right _ hrow)
  cases answer with
  | error err =>
      cases exec_db_error hexec
      exact ⟨hs.row, hrows, hs.synced⟩
  | ok row' =>
      obtain ⟨-, -, t, -, rfl⟩ := hpermits
      obtain ⟨db, hrun, -, rfl⟩ := exec_db_ok hexec
      refine ⟨?_, hrows, hs.synced⟩
      intro row hfind
      obtain ⟨hmem, hid⟩ := Table.find_eq_some.mp hfind
      rcases mem_of_updateEndpoint hrun hmem with hold | ⟨old, hold, rfl⟩
      · exact hs.row row (Table.find_eq_some.mpr ⟨hold, hid⟩)
      · obtain ⟨hmem', hid'⟩ := Table.find_eq_some.mp hold
        exact hs.row old (Table.find_eq_some.mpr ⟨hmem', hid⟩)

/-- What the worker has received for the endpoint it asked for with the endpoint's
groups. -/
theorem SameGroups.served {id : Uuid} {records : List VaultApiRecord}
    (hs : SameGroups focus raw w s h) (ht : PassTracks focus w s h)
    (hreceived : w.Received id records) (hid : id = focus) :
    ∃ f, h.served = some f ∧ f.records = records ∧ f.groups = raw ∧
      f.records.Perm (query f.vault f.names f.since) := by
  obtain ⟨⟨ep, hcurrent, rfl⟩, hreply, -⟩ := hreceived
  obtain ⟨ep', f, hcurrent', hserved, hrecords, hgroups, -, hperm⟩ := ht.received records hreply
  obtain rfl : ep = ep' := Option.some.inj (hcurrent.symm.trans hcurrent')
  exact ⟨f, hserved, hrecords,
    hgroups.trans (hs.rows ep (by simp [Pass.rows, hcurrent]) hid), hperm⟩

theorem SameGroups.store {id : Uuid} {records : List VaultApiRecord}
    (hs : SameGroups focus raw w s h) (ht : PassTracks focus w s h)
    (hreceived : w.Received id records) (hdb : s'.db = s.db) :
    SameGroups focus raw { w with applied := true } s'
      (if id = focus then { h with synced := h.served } else h) := by
  have hrow : ∀ row, s'.db.endpoints.find focus = some row → row.vaultGroups = raw := by
    rw [hdb]
    exact hs.row
  split
  · rename_i hid
    obtain ⟨f, hserved, -, hgroups, -⟩ := hs.served ht hreceived hid
    refine ⟨hrow, hs.rows, ?_⟩
    intro f' hf'
    obtain rfl : f = f' := Option.some.inj (hserved.symm.trans hf')
    exact hgroups
  · exact ⟨hrow, hs.rows, hs.synced⟩

theorem SameGroups.world {ch : Change} (hs : SameGroups focus raw w s h)
    (henv : env ch s = some s') :
    SameGroups focus raw w s' h := by
  rw [env_eq_some henv]
  exact ⟨hs.row, hs.rows, hs.synced⟩

theorem SameGroups.step {c : Call} {r : Answer c} (hs : SameGroups focus raw w s h)
    (ht : PassTracks focus w s h) (hpermits : w.permits c)
    (hexec : exec crates c e s = some (r, s')) :
    SameGroups focus raw (w.next c r) s' (note focus c r s h) := by
  cases c with
  | db st =>
      cases st with
      | allEndpoints =>
          cases r with
          | error err =>
              cases exec_db_error hexec
              exact hs
          | ok rows =>
              obtain ⟨db, hrun, -, rfl⟩ := exec_db_ok hexec
              cases hrun
              refine ⟨hs.row, ?_, hs.synced⟩
              intro row hrow hid
              exact hs.row row (Table.find_eq_some.mpr ⟨hrow, hid⟩)
      | updateEndpoint id ch => exact hs.mark hpermits hexec
      | _ => exact absurd hpermits id
  | now =>
      obtain ⟨-, rfl⟩ := exec_now hexec
      exact ⟨hs.row, hs.rows, hs.synced⟩
  | fullSyncDue id =>
      obtain ⟨ep, hhead, -⟩ := hpermits
      obtain ⟨t, -, rfl⟩ := exec_fullSyncDue hexec
      obtain ⟨rest, hpending⟩ := List.head?_eq_some_iff.mp hhead
      refine ⟨hs.row, ?_, hs.synced⟩
      intro row hrow
      refine hs.rows row (List.mem_append_right _ ?_)
      simpa [Pass.next, Pass.rows, hpending] using hrow
  | fetchIps groups since =>
      obtain ⟨rfl, -⟩ := exec_fetchIps hexec
      cases r with
      | error err => exact hs
      | ok records => exact ⟨hs.row, hs.rows, hs.synced⟩
  | applyFull id rs =>
      obtain ⟨-, records, hreceived, -⟩ := hpermits
      obtain ⟨t, rfl⟩ := exec_applyFull hexec
      exact hs.store ht hreceived rfl
  | applyDiff id rs =>
      obtain ⟨-, records, hreceived, -⟩ := hpermits
      cases exec_applyDiff hexec
      exact hs.store ht hreceived rfl
  | _ => exact absurd hpermits id

end SameGroups

/-- With one group, an address has one membership, and a tombstone is its last word. -/
theorem tombstonesFinal_single {f : Serving} {group : String} (hnames : f.names = [group])
    (hperm : f.records.Perm (query f.vault f.names f.since)) :
    TombstonesFinal f.vault f.names f.records := by
  rw [hnames] at hperm ⊢
  rintro address r hlast hdeleted ⟨g, hg, m, hm, hlive⟩
  obtain ⟨hr, rfl⟩ := lastRecord_mem hlast
  obtain ⟨g', hg', address, m', hm', rfl, -⟩ := mem_query.mp (hperm.mem_iff.mp hr)
  obtain rfl := List.mem_singleton.mp hg
  obtain rfl := List.mem_singleton.mp hg'
  obtain rfl : m = m' := Option.some.inj (hm.symm.trans hm')
  exact absurd hdeleted (by simp [recordOf, hlive])

theorem SameGroups.orderly {focus : Uuid} {raw group : String} {w : Pass} {s : World} {h : History}
    {c : Call} (hs : SameGroups focus raw w s h) (hgroup : groupNames raw = [group])
    (ht : PassTracks focus w s h) (hpermits : w.permits c) (hcall : safeCall focus s h c = true) :
    Orderly focus (fun _ => True) s h c := by
  cases c with
  | db st =>
      cases st with
      | updateEndpoint id ch => exact changedFrom_of_marksSafely hcall
      | _ => trivial
  | applyFull id rs => exact fun _ _ _ => trivial
  | applyDiff id rs =>
      intro hid f hserved
      obtain ⟨-, records, hreceived, -⟩ := hpermits
      obtain ⟨f', hserved', -, hraw, hperm⟩ := hs.served ht hreceived hid
      obtain rfl : f = f' := Option.some.inj (hserved.symm.trans hserved')
      have hnames : f.names = [group] := by rw [Serving.names, hraw, hgroup]
      refine ⟨trivial, of_decide_eq_true hcall hid f hserved, ?_,
        tombstonesFinal_single hnames hperm⟩
      intro f₀ hf₀
      rw [Serving.names, Serving.names, hraw, hs.synced f₀ hf₀]
  | _ => trivial

section Runs
variable {app : AppState} {focus : Uuid} {passes : ℕ} {s₀ : World} {row : Endpoint}
  {events : List (Event Unit Choice Change)}

/-- The worker alone. -/
def alone (passes : ℕ) : Unit → Task := fun _ => .sync passes

theorem crew_alone (passes : ℕ) : Crew (alone passes) () passes :=
  ⟨rfl, fun _ hi => absurd rfl hi⟩

theorem sameGroups_start (hrow : s₀.db.endpoints.find focus = some row) :
    SameGroups focus row.vaultGroups (.listed []) s₀ .start where
  row := by
    intro row' hrow'
    rw [hrow] at hrow'
    cases hrow'
    rfl
  rows := by
    intro row' hrow'
    cases hrow'
  synced := by
    intro f hf
    cases hf

/-- The worker serves an endpoint with one group while Vault changes at any moment but
within a fetch, which is one listing (`MovingPages` has it page by page). If the cursor is
never stored over a change the fetch did not see, and no differential fetch lacks a cursor,
then at every moment the cache holds the addresses live at the fetch it goes back to, and a
differential batch about to be applied has the current record of every membership that has
changed since that fetch. -/
theorem no_change_lost {group : String} (hrow : s₀.db.endpoints.find focus = some row)
    (hgroup : groupNames row.vaultGroups = [group]) (hcold : Cold focus s₀)
    (hparsed : Parsed app.crates s₀.vault)
    {q : Process Unit}
    (hrun : run (system app.crates) (process app (alone passes) s₀) events = some q)
    (hsafe : Along (observed app.crates focus)
      (fun p ev => callsMeet app.crates (safeCall focus) p ev = true)
      (start app (alone passes) s₀) events) :
    ∃ h, run (observed app.crates focus) (start app (alone passes) s₀) events = some (q.noting h) ∧
      (∀ f, h.synced = some f → Holds (q.state.cache.entry focus).records f.vault [group]) ∧
      ∀ rs f f₀, (q.threads ()).upcoming = some (.applyDiff focus rs) → h.served = some f →
        f.since ≠ none → h.synced = some f₀ → rs = mapRecords f.records ∧
          ∀ address, f₀.vault.lookup (group, address) ≠ f.vault.lookup (group, address) →
            ∃ m, f.vault.lookup (group, address) = some m ∧
              recordOf (group, address) m ∈ f.records := by
  obtain ⟨h, hnoted⟩ := run_observe (note focus) hrun .start
  obtain ⟨w, hfollows, ht, hs, hf⟩ := run_fresh (K := SameGroups focus row.vaultGroups)
    (crew_alone passes) hcold hparsed (sameGroups_start hrow)
    (fun w c e s s' h r ht hs hpermits hexec => hs.step ht hpermits hexec)
    (fun _ hi => absurd rfl hi) (fun ch w s s' h henv hs => hs.world henv)
    (fun w s h c ht hs hpermits hcall => hs.orderly hgroup ht hpermits hcall) hnoted hsafe
  have hnames : ∀ f, h.synced = some f → f.names = [group] := by
    intro f hsynced
    rw [Serving.names, hs.synced f hsynced, hgroup]
  refine ⟨h, hnoted, ?_, ?_⟩
  · intro f hsynced
    rw [← hnames f hsynced]
    exact (hf.holds f hsynced).1
  · intro rs f f₀ hc hserved hsince hsynced
    obtain ⟨-, records, hreceived, rfl⟩ := hfollows.permits_upcoming hc
    obtain ⟨f', hserved', rfl, hraw, -⟩ := hs.served ht hreceived rfl
    obtain rfl : f = f' := Option.some.inj (hserved.symm.trans hserved')
    have hsame : f.names = [group] := by rw [Serving.names, hraw, hgroup]
    obtain ⟨⟨ep, hcurrent, hid⟩, hreply, happlied⟩ := hreceived
    obtain ⟨t, ht'⟩ := Option.ne_none_iff_exists'.mp hsince
    have hbatch :=
      hf.batch ep f t f₀ hcurrent hid.symm (by simp [hreply]) happlied hserved ht' hsynced
      ((hnames f₀ hsynced).trans hsame.symm)
    rw [hsame] at hbatch
    exact ⟨rfl, hbatch.changed group List.mem_cons_self⟩

end Runs

def sampleRun (committed marked : NaiveDateTime) (reply : List VaultApiRecord) :
    List (Event Unit Choice Change) :=
  fullFetch () [] ++ [.world (.commit "dmz" "10.0.0.1" 0 false committed)] ++ fullStore () marked ++
    differentialPass () (marked + nanosPerSecond) reply

/-- In the second of the cursor, the change is found by the next sync. -/
theorem no_change_lost_same_second :
    ∃ q, run (system sampleApp.crates) (process sampleApp (alone 2) syncedWorld)
        (sampleRun 2100000000 2200000000 [⟨"10.0.0.1", 0, false⟩]) = some q ∧
      ∃ h, run (observed sampleApp.crates 5) (start sampleApp (alone 2) syncedWorld)
          (sampleRun 2100000000 2200000000 [⟨"10.0.0.1", 0, false⟩]) = some (q.noting h) ∧
        h.synced.map Serving.since = some (some 2200000000) ∧
        (q.state.cache.entry 5).records.keys = ["10.0.0.1"] ∧
        ∀ f, h.synced = some f → Holds (q.state.cache.entry 5).records f.vault ["dmz"] := by
  have hruns : (run (system sampleApp.crates) (process sampleApp (alone 2) syncedWorld)
      (sampleRun 2100000000 2200000000 [⟨"10.0.0.1", 0, false⟩])).map
      (fun q => (q.state.cache.entry 5).records.keys) = some ["10.0.0.1"] := by
    decide +kernel
  have hchecks : (checkedRun (observed sampleApp.crates 5)
      (fun p ev => callsMeet sampleApp.crates (safeCall 5) p ev = true)
        (start sampleApp (alone 2) syncedWorld)
      (sampleRun 2100000000 2200000000 [⟨"10.0.0.1", 0, false⟩])).map
      (fun q => q.state.2.synced.map Serving.since) = some (some (some 2200000000)) := by
    decide +kernel
  obtain ⟨q, hrun, hkeys⟩ := Option.map_eq_some_iff.mp hruns
  obtain ⟨q', hchecked, hsince⟩ := Option.map_eq_some_iff.mp hchecks
  obtain ⟨hrun', hsafe⟩ := checkedRun_eq_some hchecked
  have hrow : syncedWorld.db.endpoints.find 5 = some syncedFeed := rfl
  have hgroup : groupNames syncedFeed.vaultGroups = ["dmz"] := by decide
  obtain ⟨h, hnoted, hholds, -⟩ :=
    no_change_lost hrow hgroup syncedWorld_cold (syncedWorld_parsed _) hrun hsafe
  refine ⟨q, hrun, h, hnoted, ?_, hkeys, hholds⟩
  rw [hrun'] at hnoted
  cases hnoted
  exact hsince

/-- In an earlier second it is lost: the next sync does not list it, and leaves the
cache without an address that was live when it fetched. -/
theorem earlier_second_lost :
    ∃ q, run (system sampleApp.crates) (process sampleApp (alone 2) syncedWorld)
        (sampleRun 500000000 2200000000 []) = some q ∧
      ∃ h f, run (observed sampleApp.crates 5) (start sampleApp (alone 2) syncedWorld)
          (sampleRun 500000000 2200000000 []) = some (q.noting h) ∧
        h.synced = some f ∧ f.since = some 2200000000 ∧
        ¬ Holds (q.state.cache.entry 5).records f.vault ["dmz"] := by
  have hruns : (run (system sampleApp.crates) (process sampleApp (alone 2) syncedWorld)
      (sampleRun 500000000 2200000000 [])).map
      (fun q => ((q.state.cache.entry 5).records.lookup "10.0.0.1").isSome) = some false := by
    decide +kernel
  have hnotes : (run (observed sampleApp.crates 5) (start sampleApp (alone 2) syncedWorld)
      (sampleRun 500000000 2200000000 [])).map (fun q => q.state.2.synced.map fun f =>
        (f.since, decide (f.vault.Live ["dmz"] "10.0.0.1"))) =
          some (some (some 2200000000, true)) := by
    decide +kernel
  obtain ⟨q, hrun, habsent⟩ := Option.map_eq_some_iff.mp hruns
  obtain ⟨h, hnoted⟩ := run_observe (note 5) hrun .start
  have hnoted' : run (observed sampleApp.crates 5) (start sampleApp (alone 2) syncedWorld)
      (sampleRun 500000000 2200000000 []) = some (q.noting h) := hnoted
  rw [hnoted', Option.map_some, Option.some.injEq] at hnotes
  obtain ⟨f, hsynced, hf⟩ := Option.map_eq_some_iff.mp hnotes
  obtain ⟨hsince, hlive⟩ := Prod.mk.inj hf
  refine ⟨q, hrun, h, f, hnoted', hsynced, hsince, ?_⟩
  intro hholds
  rw [(hholds "10.0.0.1").mpr (of_decide_eq_true hlive)] at habsent
  cases habsent

end SimplyIpExporter.DifferentialCursor
