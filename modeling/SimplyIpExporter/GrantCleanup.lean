import SimplyIpExporter.GrantIdempotence

/-!
# Removing the grants of groups that are gone

A pass asks Vault for its groups, then reads the grants, then deletes those whose group
was not listed. The listing is older than the grants it is compared with, so a group that
is created and granted in between looks as if it were gone. Where no grant is inserted
between the two readings, every grant that is removed was there when its group was not.
-/
namespace SimplyIpExporter.GrantCleanup
open Entities KeyedTables Storage Services Programs Interleaving EndpointHandlers KeyHandlers Routes
open Bootstrap GrantIdempotence

/-- The process, and the groups that Vault has. -/
abbrev Setting := World × List VaultGroup

/-- A listing that succeeds has all groups of the moment. -/
def exec (crates : Crates) : (c : Call) → Choice → Setting → Option (Answer c × Setting)
  | .listGroups, .groups (.ok groups), s => if groups.isPerm s.2 then some (.ok groups, s) else none
  | c, e, s => (Services.exec crates c e s.1).map fun answer => (answer.1, answer.2, s.2)

inductive GroupChange where
  | member (ch : Change)
  | create (group : VaultGroup)
  | rename (id : Uuid) (name : String)
  | delete (id : Uuid)

def env : GroupChange → Setting → Option Setting
  | .member ch, s => (Services.env ch s.1).map fun w => (w, s.2)
  | .create group, s =>
      if s.2.any fun g => decide (g.id = group.id) then none else some (s.1, group :: s.2)
  | .rename id name, s =>
      some (s.1, s.2.map fun g => if g.id = id then { g with name := name } else g)
  | .delete id, s => some (s.1, s.2.filter fun g => decide (g.id ≠ id))

def system (crates : Crates) : System Answer Choice GroupChange Setting := ⟨exec crates, env⟩

abbrev Surrounded (I : Type) := Pool Answer I (Option (Except AppError Response)) Setting

/-- All tasks before their first step. -/
def surrounded {I : Type} (app : AppState) (tasks : I → Task) (w : World)
    (groups : List VaultGroup) :
    Surrounded I :=
  ⟨(w, groups), fun i => (tasks i).program app⟩

def grantsOf {I : Type} (p : Surrounded I) : List VaultGroupPermission := p.state.1.db.grants.rows

section Calls
variable {crates : Crates} {c : Call} {e : Choice} {s s' : Setting} {r : Answer c}

theorem exec_process (h : exec crates c e s = some (r, s')) :
    Services.exec crates c e s.1 = some (r, s'.1) ∧ s'.2 = s.2 := by
  unfold exec at h
  split at h
  · split at h
    · cases h
      exact ⟨rfl, rfl⟩
    · cases h
  · obtain ⟨answer, hanswer, hs⟩ := Option.map_eq_some_iff.mp h
    cases hs
    exact ⟨hanswer, rfl⟩

theorem exec_listGroups {groups : List VaultGroup}
    (h : exec crates .listGroups e s = some (.ok groups, s')) :
    e = .groups (.ok groups) ∧ s' = s ∧ ∀ g ∈ s.2, g ∈ groups := by
  cases e with
  | groups reply =>
      cases reply with
      | error err => cases h
      | ok listed =>
          simp only [exec] at h
          split at h
          · rename_i hperm
            cases h
            exact ⟨rfl, rfl, fun g hg => (List.isPerm_iff.mp hperm).mem_iff.mpr hg⟩
          · cases h
  | _ => cases h

theorem exec_allGrants {grants : List VaultGroupPermission}
    (h : exec crates (.db .allGrants) e s = some (.ok grants, s')) :
    grants = s.1.db.grants.rows ∧ s'.1.db = s.1.db := by
  obtain ⟨db, hrun, -, hs'⟩ := exec_db_ok (exec_process h).1
  cases hrun
  exact ⟨rfl, by rw [hs']⟩

/-- A grant that is there after a call was there before, or has been inserted. -/
theorem exec_grants {w w' : World} (h : Services.exec crates c e w = some (r, w'))
    {row : VaultGroupPermission} (hrow : row ∈ w'.db.grants.rows) :
    row ∈ w.db.grants.rows ∨ c = .db (.insertGrant row) := by
  cases c with
  | db st =>
      cases r with
      | error err =>
          rw [exec_db_error h] at hrow
          exact .inl hrow
      | ok rows =>
          obtain ⟨db, hrun, -, rfl⟩ := exec_db_ok h
          cases st with
          | insertGrant row' =>
              obtain ⟨-, t, hinsert, rfl⟩ := insertRow_ok hrun
              rcases List.mem_append.mp ((Table.rows_insert hinsert).1 ▸ hrow) with hold | hnew
              · exact .inl hold
              · rw [List.mem_singleton.mp hnew]
                exact .inr rfl
          | deleteGrant id | deleteGrants ids =>
              cases hrun
              exact .inl (List.mem_of_mem_filter hrow)
          | insertKey row' | insertEndpoint row' | insertAudit row' =>
              obtain ⟨-, t, -, rfl⟩ := insertRow_ok hrun
              exact .inl hrow
          | updateKey id ch =>
              obtain ⟨-, -, -, rfl⟩ := run_updateKey hrun
              exact .inl hrow
          | updateEndpoint id ch =>
              obtain ⟨-, -, -, rfl⟩ := run_updateEndpoint hrun
              exact .inl hrow
          | _ =>
              cases hrun
              exact .inl hrow
  | deleteKey d =>
      obtain ⟨-, ⟨hdb, -⟩ | ⟨id, t, hrun, -⟩⟩ := exec_deleteKey h
      · rw [hdb] at hrow
        exact .inl hrow
      · obtain ⟨target, details, audits, -, -, -, hdb⟩ := KeyDeletion.run_ok hrun
        rw [hdb] at hrow
        have hmoved : row ∈ (d.moved target w.db).grants.rows := List.mem_of_mem_filter hrow
        cases target <;> exact .inl hmoved
  | _ =>
      rw [(exec_not_storing rfl h).1] at hrow
      exact .inl hrow

end Calls

/-- Where a pass stands, with the identifiers of the groups that were listed or of the
grants that are to go. -/
inductive Stage where
  | start
  | listed (live : List Uuid)
  | compared (stale : List Uuid)
  | ended

def Stage.permits : Stage → Call → Prop
  | .start, .listGroups => True
  | .listed _, .db .allGrants => True
  | .compared ids, .db (.deleteGrants ids') => ids' = ids
  | _, _ => False

def Stage.next : Stage → (c : Call) → Answer c → Stage
  | .start, .listGroups, .ok groups => .listed (groups.map (·.id))
  | .listed live, .db .allGrants, .ok grants => .compared (staleGrants live grants)
  | _, _, _ => .ended

def sweeping : Policy Answer Stage where
  permits := Stage.permits
  moves m c r m' := m' = m.next c r

/-- A pass does not end between its readings, nor with grants still to go. -/
def EndsPass : Stage → Option (Except AppError Response) → Prop
  | .listed _, _ => False
  | .compared ids, outcome => outcome = none ∧ ids = []
  | _, outcome => outcome = none

theorem cleanup_sweeps (app : AppState) :
    Follows sweeping EndsPass (Task.cleanup.program app) .start := by
  have hpass : Follows sweeping (fun m _ => EndsPass m none) (cleanupStaleGroupPermissions app)
      .start := by
    unfold cleanupStaleGroupPermissions
    split
    · refine .perform_bind trivial ?_
      rintro reply _ rfl
      cases reply with
      | error e => exact .pure rfl
      | ok groups =>
          refine .perform_bind trivial ?_
          rintro found _ rfl
          cases found with
          | error e => exact .pure rfl
          | ok grants =>
              dsimp only
              split
              · rename_i hempty
                exact .pure ⟨rfl, List.isEmpty_iff.mp hempty⟩
              · refine .perform_bind rfl ?_
                rintro removed _ rfl
                exact .pure rfl
    · exact .pure rfl
  exact hpass.bind fun _ _ hends => .pure hends

/-- A grant that a pass removes is one that it has found stale. -/
theorem stale_of_removed {crates : Crates} {m : Stage} {c : Call} {e : Choice} {s s' : Setting}
    {r : Answer c} {row : VaultGroupPermission} (hpermits : m.permits c)
    (hexec : exec crates c e s = some (r, s')) (hrow : row ∈ s.1.db.grants.rows)
    (hgone : row ∉ s'.1.db.grants.rows) : ∃ ids, m = .compared ids ∧ row.id ∈ ids := by
  have hkept : s'.1.db = s.1.db → False := by
    intro hdb
    rw [hdb] at hgone
    exact hgone hrow
  obtain ⟨hprocess, -⟩ := exec_process hexec
  cases c with
  | listGroups => exact (hkept (exec_not_storing rfl hprocess).1).elim
  | db st =>
      cases st with
      | allGrants =>
          cases r with
          | error err => exact (hkept (by rw [exec_db_error hprocess])).elim
          | ok grants => exact (hkept (exec_allGrants hexec).2).elim
      | deleteGrants ids =>
          cases m with
          | compared ids' =>
              cases hpermits
              refine ⟨ids, rfl, ?_⟩
              cases r with
              | error err => exact (hkept (by rw [exec_db_error hprocess])).elim
              | ok removed =>
                  obtain ⟨db, hrun, -, hs'⟩ := exec_db_ok hprocess
                  cases hrun
                  rw [hs'] at hgone
                  by_contra hnot
                  exact hgone (List.mem_filter.mpr ⟨hrow, by simpa using hnot⟩)
          | _ => exact hpermits.elim
      | _ => cases m <;> exact hpermits.elim
  | _ => cases m <;> exact hpermits.elim

/-- Passes are watched, and everything else is let through. -/
def watching : Task → Policy Answer Stage
  | .cleanup => sweeping
  | _ => ⟨fun _ _ => True, fun _ _ _ m' => m' = .start⟩

def Ended : Task → Stage → Option (Except AppError Response) → Prop
  | .cleanup => EndsPass
  | _ => fun _ _ => True

theorem program_sweeps (app : AppState) (t : Task) :
    Follows (watching t) (Ended t) (t.program app) .start := by
  cases t with
  | cleanup => exact cleanup_sweeps app
  | request caller r => exact Follows.of_permits_all (fun _ _ => trivial) _ _
  | sync passes => exact Follows.of_permits_all (fun _ _ => trivial) _ _

def inserted : Call → Option VaultGroupPermission
  | .db (.insertGrant row) => some row
  | _ => none

/-- The call neither reads the grants for a pass nor deletes by the row's identifier. -/
def spares (row : VaultGroupPermission) : Call → Bool
  | .db .allGrants => false
  | .db (.deleteGrants ids) => !ids.contains row.id
  | _ => true

/-- A grant is inserted only when no pass has listed the groups and not yet the grants,
and under an identifier that no pass is about to delete. -/
def Undisturbed {I : Type} (p : Surrounded I) : Event I Choice GroupChange → Prop
  | .act i _ => ∀ row ∈ (p.threads i).upcoming.bind inserted,
      ∀ j, (p.threads j).upcoming.all (spares row) = true
  | .world _ => True

instance {I : Type} [Fintype I] (p : Surrounded I) :
    (ev : Event I Choice GroupChange) → Decidable (Undisturbed p ev)
  | .act i _ => Option.decidableForallMem ((p.threads i).upcoming.bind inserted)
  | .world _ => inferInstanceAs (Decidable True)

section Runs
variable {I : Type} [DecidableEq I]

/-- At the moment of the pass's listing the grant was there, and its group was not. -/
def GoneAtListing (crates : Crates) (start : Surrounded I)
    (past : List (Event I Choice GroupChange)) (i : I) (row : VaultGroupPermission) : Prop :=
  ∃ before groups rest p, past = before ++ .act i (.groups (.ok groups)) :: rest ∧
    Interleaving.run (system crates) start before = some p ∧ row ∈ grantsOf p ∧
    ∀ g ∈ p.state.2, g.id ≠ row.vaultGroupId

/-- A listing holds all groups of its moment, and all grants of the present were there. -/
structure Listed (crates : Crates) (start : Surrounded I) (past : List (Event I Choice GroupChange))
    (i : I) (live : List Uuid) (grants : List VaultGroupPermission) : Prop where
  moment : ∃ before groups rest p, past = before ++ .act i (.groups (.ok groups)) :: rest ∧
    Interleaving.run (system crates) start before = some p ∧
    (∀ g ∈ p.state.2, g.id ∈ live) ∧ ∀ row ∈ grants, row ∈ grantsOf p

structure Justified (crates : Crates) (tasks : I → Task) (start : Surrounded I)
    (past : List (Event I Choice GroupChange)) (ms : I → Stage) (s : Setting) : Prop where
  others : ∀ i, tasks i ≠ .cleanup → ms i = .start
  listed : ∀ i live, ms i = .listed live → Listed crates start past i live s.1.db.grants.rows
  compared : ∀ i ids, ms i = .compared ids →
    ∀ row ∈ s.1.db.grants.rows, row.id ∈ ids → GoneAtListing crates start past i row

variable {crates : Crates} {start : Surrounded I} {past : List (Event I Choice GroupChange)} {i : I}
  {row : VaultGroupPermission}

theorem GoneAtListing.later (h : GoneAtListing crates start past i row)
    (ev : Event I Choice GroupChange) :
    GoneAtListing crates start (past ++ [ev]) i row := by
  obtain ⟨before, groups, rest, p, rfl, hmoment⟩ := h
  exact ⟨before, groups, rest ++ [ev], p, by simp, hmoment⟩

theorem Listed.later {live : List Uuid} {grants grants' : List VaultGroupPermission}
    (h : Listed crates start past i live grants) (hsub : ∀ row ∈ grants', row ∈ grants)
    (ev : Event I Choice GroupChange) : Listed crates start (past ++ [ev]) i live grants' := by
  obtain ⟨before, groups, rest, p, rfl, hrun, hlive, hrows⟩ := h.moment
  exact ⟨before, groups, rest ++ [ev],
    p, by simp, hrun, hlive, fun row hrow => hrows row (hsub row hrow)⟩

/-- What is stale by a listing was there without its group. -/
theorem goneAtListing_of_stale {live : List Uuid} {t : Table VaultGroupPermission Uuid (·.id)}
    (h : Listed crates start past i live t.rows) (hrow : row ∈ t.rows)
    (hstale : row.id ∈ staleGrants live t.rows) : GoneAtListing crates start past i row := by
  obtain ⟨before, groups, rest, p, hpast, hrun, hlive, hrows⟩ := h.moment
  obtain ⟨g, hg, hid⟩ := List.mem_map.mp hstale
  obtain ⟨hmem, hgone⟩ := List.mem_filter.mp hg
  have hsame : g = row := by
    have hfind : t.find row.id = some g := Table.find_eq_some.mpr ⟨hmem, hid⟩
    have hfind' : t.find row.id = some row := Table.find_eq_some.mpr ⟨hrow, rfl⟩
    exact Option.some.inj (hfind.symm.trans hfind')
  subst hsame
  refine ⟨before, groups, rest, p, hpast, hrun, hrows g hmem, ?_⟩
  intro g' hg' heq
  have hin : live.contains g.vaultGroupId = true := by
    rw [← heq]
    exact List.contains_iff_mem.mpr (hlive g' hg')
  rw [hin] at hgone
  cases hgone

/-- A pass that has listed the groups is about to read the grants. -/
theorem upcoming_of_listed {live : List Uuid}
    {thread : Program Answer (Option (Except AppError Response))}
    (h : Follows sweeping EndsPass thread (.listed live)) :
    thread.upcoming = some (.db .allGrants) := by
  cases thread with
  | pure outcome => exact (follows_value.mp h : False).elim
  | call c next =>
      have hpermits : (Stage.listed live).permits c := (follows_call.mp h).1
      cases c with
      | db st => cases st <;> first | rfl | exact hpermits.elim
      | _ => exact hpermits.elim

/-- A pass that has found stale grants is about to delete them. -/
theorem upcoming_of_compared {ids : List Uuid} (hids : ids ≠ [])
    {thread : Program Answer (Option (Except AppError Response))}
    (h : Follows sweeping EndsPass thread (.compared ids)) :
    thread.upcoming = some (.db (.deleteGrants ids)) := by
  cases thread with
  | pure outcome => exact absurd (follows_value.mp h).2 hids
  | call c next =>
      have hpermits : (Stage.compared ids).permits c := (follows_call.mp h).1
      cases c with
      | db st =>
          cases st with
          | deleteGrants ids' =>
              cases hpermits
              rfl
          | _ => exact hpermits.elim
      | _ => exact hpermits.elim

variable {tasks : I → Task} {ms : I → Stage} {p : Surrounded I} {e : Choice} {c : Call}
  {next : Answer c → Program Answer (Option (Except AppError Response))} {r : Answer c}
  {s' : Setting}

theorem isCleanup_of_ne_start (h : Justified crates tasks start past ms p.state)
    (hi : ms i ≠ .start) :
    tasks i = .cleanup := by
  by_contra hother
  exact hi (h.others i hother)

/-- Under the condition a step leaves standing passes justified. -/
theorem Justified.kept (h : Justified crates tasks start past ms p.state)
    (hfollows : ∀ j, Follows (watching (tasks j)) (Ended (tasks j)) (p.threads j) (ms j))
    (hc : p.threads i = .call c next) (hcond : Undisturbed p (.act i e))
    (hexec : exec crates c e p.state = some (r, s')) :
    Justified crates tasks start (past ++ [.act i e]) ms s' := by
  have hgrants : ∀ row ∈ s'.1.db.grants.rows, row ∈ p.state.1.db.grants.rows ∨
      ∀ j, (p.threads j).upcoming.all (spares row) = true := by
    intro row hrow
    rcases exec_grants (exec_process hexec).1 hrow with hold | rfl
    · exact .inl hold
    · exact .inr (hcond row (by rw [hc]; rfl))
  refine ⟨h.others, ?_, ?_⟩
  · intro j live hj
    refine (h.listed j live hj).later ?_ _
    intro row hrow
    rcases hgrants row hrow with hold | hspares
    · exact hold
    · have hfollow := hfollows j
      rw [isCleanup_of_ne_start h (by rw [hj]; exact nofun), hj] at hfollow
      have hspared := hspares j
      rw [upcoming_of_listed hfollow] at hspared
      cases hspared
  · intro j ids hj row hrow hid
    rcases hgrants row hrow with hold | hspares
    · exact (h.compared j ids hj row hold hid).later _
    · have hfollow := hfollows j
      rw [isCleanup_of_ne_start h (by rw [hj]; exact nofun), hj] at hfollow
      have hspared := hspares j
      rw [upcoming_of_compared (List.ne_nil_of_mem hid) hfollow] at hspared
      simp [spares, hid] at hspared

/-- The pass that makes the step comes to where its answer leads. -/
theorem Justified.update {m' : Stage} {s : Setting} (h : Justified crates tasks start past ms s)
    (hstart : tasks i ≠ .cleanup → m' = .start)
    (hlisted : ∀ live, m' = .listed live → Listed crates start past i live s.1.db.grants.rows)
    (hcompared : ∀ ids, m' = .compared ids →
      ∀ row ∈ s.1.db.grants.rows, row.id ∈ ids → GoneAtListing crates start past i row) :
    Justified crates tasks start past (Function.update ms i m') s := by
  refine ⟨?_, ?_, ?_⟩
  · exact (Function.forall_update_iff ms fun j m => tasks j ≠ .cleanup → m = .start).mpr
      ⟨hstart, fun j _ => h.others j⟩
  · exact (Function.forall_update_iff ms fun j m => ∀ live, m = .listed live →
      Listed crates start past j live s.1.db.grants.rows).mpr ⟨hlisted, fun j _ => h.listed j⟩
  · exact (Function.forall_update_iff ms fun j m => ∀ ids, m = .compared ids →
      ∀ row ∈ s.1.db.grants.rows, row.id ∈ ids → GoneAtListing crates start past j row).mpr
      ⟨hcompared, fun j _ => h.compared j⟩

/-- A step of a pass: its listing is of this moment, and what it finds stale was there
without its group when it listed. -/
theorem Justified.sweep (h : Justified crates tasks start past ms p.state)
    (hkept : Justified crates tasks start (past ++ [.act i e]) ms s')
    (hp : Interleaving.run (system crates) start past = some p)
    (hpermits : (ms i).permits c) (hexec : exec crates c e p.state = some (r, s'))
    (htask : tasks i = .cleanup) :
    Justified crates tasks start (past ++ [.act i e]) (Function.update ms i ((ms i).next c r))
      s' := by
  refine hkept.update (fun hother => absurd htask hother) ?_ ?_
  · intro live hnext
    cases hm : ms i with
    | start =>
        rw [hm] at hpermits hnext
        cases c with
        | listGroups =>
            cases r with
            | error err => cases hnext
            | ok groups =>
                cases hnext
                obtain ⟨rfl, rfl, hall⟩ := exec_listGroups hexec
                refine ⟨past, groups, [], p, rfl, hp, ?_, fun row hrow => hrow⟩
                exact fun g hg => List.mem_map_of_mem (hall g hg)
        | _ => exact hpermits.elim
    | listed live' =>
        rw [hm] at hpermits hnext
        cases c with
        | db st =>
            cases st with
            | allGrants => cases r <;> cases hnext
            | _ => exact hpermits.elim
        | _ => exact hpermits.elim
    | compared ids =>
        rw [hm] at hnext
        cases hnext
    | ended =>
        rw [hm] at hpermits
        exact hpermits.elim
  · intro ids hnext row hrow hid
    cases hm : ms i with
    | listed live =>
        rw [hm] at hpermits hnext
        cases c with
        | db st =>
            cases st with
            | allGrants =>
                cases r with
                | error err => cases hnext
                | ok grants =>
                    cases hnext
                    obtain ⟨rfl, hdb⟩ := exec_allGrants hexec
                    rw [hdb] at hrow
                    exact (goneAtListing_of_stale (h.listed i live hm) hrow hid).later _
            | _ => exact hpermits.elim
        | _ => exact hpermits.elim
    | start =>
        rw [hm] at hpermits hnext
        cases c with
        | listGroups => cases r <;> cases hnext
        | _ => exact hpermits.elim
    | compared ids' =>
        rw [hm] at hnext
        cases hnext
    | ended =>
        rw [hm] at hpermits
        exact hpermits.elim

theorem run_justified {app : AppState} {w : World} {groups : List VaultGroup}
    {events : List (Event I Choice GroupChange)}
    (hrun : Interleaving.run (system app.crates) (surrounded app tasks w groups) events = some p)
    (hcond : Along (system app.crates) Undisturbed (surrounded app tasks w groups) events) :
    ∃ ms, Watched (fun i => watching (tasks i)) (fun i => Ended (tasks i))
      (Justified app.crates tasks (surrounded app tasks w groups)) events p ms := by
  have hinit : Watched (fun i => watching (tasks i)) (fun i => Ended (tasks i))
      (Justified app.crates tasks (surrounded app tasks w groups)) []
        (surrounded app tasks w groups)
      (fun _ => .start) :=
    ⟨fun i => program_sweeps app (tasks i), fun _ _ => rfl, nofun, nofun⟩
  refine run_watched _ _ _ Undisturbed hinit ?_ ?_ hrun hcond
  · intro past p ms i e c next r s' hp hms hc hcond hpermits hexec
    have hkept := hms.inv.kept hms.follows hc hcond hexec
    cases htask : tasks i with
    | cleanup =>
        rw [htask] at hpermits
        exact ⟨(ms i).next c r, rfl, hms.inv.sweep hkept hp hpermits hexec htask⟩
    | request caller req =>
        exact ⟨.start, rfl, hkept.update (fun _ => rfl) nofun nofun⟩
    | sync passes => exact ⟨.start, rfl, hkept.update (fun _ => rfl) nofun nofun⟩
  · intro past p ms ch s' _ hms _ henv
    have hdb : s'.1.db = p.state.1.db := by
      cases ch with
      | member ch =>
          obtain ⟨w', hw', rfl⟩ := Option.map_eq_some_iff.mp henv
          rw [env_eq_some hw']
      | create group =>
          simp only [system, env] at henv
          split at henv
          · cases henv
          · cases henv
            rfl
      | rename id name =>
          cases henv
          rfl
      | delete id =>
          cases henv
          rfl
    refine ⟨hms.inv.others, ?_, ?_⟩
    · intro j live hj
      refine (hms.inv.listed j live hj).later ?_ _
      rw [hdb]
      exact fun row hrow => hrow
    · intro j ids hj row hrow hid
      rw [hdb] at hrow
      exact (hms.inv.compared j ids hj row hrow hid).later _

/-- Where the passes stand, in any run. -/
theorem run_sweeps {app : AppState} {w : World} {groups : List VaultGroup}
    {events : List (Event I Choice GroupChange)}
    (hrun : Interleaving.run (system app.crates) (surrounded app tasks w groups) events = some p) :
    ∃ ms : I → Stage, ∀ i, Follows (watching (tasks i)) (Ended (tasks i)) (p.threads i) (ms i) := by
  have hinit : Watched (fun i => watching (tasks i)) (fun i => Ended (tasks i))
      (fun (_ : List (Event I Choice GroupChange)) _ _ => True) []
      (surrounded app tasks w groups) (fun _ => .start) :=
    ⟨fun i => program_sweeps app (tasks i), trivial⟩
  have hwatched : ∃ ms, Watched (fun i => watching (tasks i)) (fun i => Ended (tasks i))
      (fun _ _ _ => True) events p ms := by
    refine run_watched _ _ _ (fun _ _ => True) hinit ?_ (fun _ _ _ _ _ _ _ _ _ => trivial) hrun
      fun _ _ _ _ _ _ => trivial
    intro past p ms i e c next r s' _ _ _ _ _ _
    cases tasks i with
    | cleanup => exact ⟨(ms i).next c r, rfl, trivial⟩
    | request caller req => exact ⟨.start, rfl, trivial⟩
    | sync passes => exact ⟨.start, rfl, trivial⟩
  obtain ⟨ms, hms⟩ := hwatched
  exact ⟨ms, hms.follows⟩

/-- A pass whose listing fails is over. -/
theorem over_of_failure {err : VaultClient.VaultError} {m : Stage}
    {next : Answer .listGroups → Program Answer (Option (Except AppError Response))}
    (h : Follows sweeping EndsPass (.call .listGroups next) m) :
    next (.error err) = .pure none := by
  obtain ⟨hpermits, hnext⟩ := follows_call.mp h
  have hover : m.next .listGroups (.error err) = .ended := by
    cases m <;> rfl
  have hrest : Follows sweeping EndsPass (next (.error err)) .ended :=
    hover ▸ hnext (.error err) _ rfl
  cases hprog : next (.error err) with
  | pure outcome =>
      rw [hprog] at hrest
      have hends : EndsPass .ended outcome := follows_value.mp hrest
      rw [show outcome = none from hends]
  | call c next' =>
      rw [hprog] at hrest
      exact (show False from (follows_call.mp hrest).1).elim

end Runs

/-- Any tasks beside each other, and any changes of Vault's groups. If grants are inserted
only while no pass stands between its two readings, then every grant that a pass removes
was there, without its group, when that pass listed the groups. In any case a pass whose
listing fails ends there, and nothing is changed. -/
theorem cleanup_removes_only_gone {I : Type} [DecidableEq I] {app : AppState} {tasks : I → Task}
    {w : World} {groups : List VaultGroup} {events : List (Event I Choice GroupChange)}
    {p : Surrounded I}
    (hrun : Interleaving.run (system app.crates) (surrounded app tasks w groups) events = some p) :
    (Along (system app.crates) Undisturbed (surrounded app tasks w groups) events →
      ∀ i e q row, tasks i = .cleanup → step (system app.crates) p (.act i e) = some q →
        row ∈ grantsOf p → row ∉ grantsOf q →
        GoneAtListing app.crates (surrounded app tasks w groups) events i row) ∧
    ∀ i err q, tasks i = .cleanup → (p.threads i).upcoming = some .listGroups →
      step (system app.crates) p (.act i (.groups (.error err))) = some q →
      q.outcome i = some none ∧ q.state = p.state := by
  refine ⟨?_, ?_⟩
  · intro hcond i e q row htask hstep hrow hgone
    obtain ⟨ms, hms⟩ := run_justified hrun hcond
    obtain ⟨c, next, r, hc, hexec, -⟩ := step_act hstep
    have hi := hms.follows i
    rw [htask, hc, show watching .cleanup = sweeping from rfl, follows_call] at hi
    obtain ⟨ids, hids, hid⟩ := stale_of_removed hi.1 hexec hrow hgone
    exact hms.inv.compared i ids hids row hrow hid
  · intro i err q htask hupcoming hstep
    obtain ⟨ms, hms⟩ := run_sweeps hrun
    obtain ⟨c, next, r, hc, hexec, hthreads⟩ := step_act hstep
    have hi := hms i
    rw [htask, hc] at hi
    rw [hc] at hupcoming
    cases hupcoming
    have hanswer : some ((.error err : Answer .listGroups), p.state) = some (r, q.state) := hexec
    obtain ⟨rfl, hstate⟩ := Prod.mk.inj (Option.some.inj hanswer)
    have hover : next (.error err) = .pure none := over_of_failure hi
    refine ⟨?_, hstate.symm⟩
    rw [Pool.outcome_eq_some, hthreads, Function.update_self, hover]

/-- A request for a grant, beside a pass. -/
def racingTasks : Bool → Task
  | true => grantTask sampleMaster 2 3
  | false => .cleanup

/-- The request from its first statement to the entry on the trail. -/
def grantingRun : List (Event Bool Choice GroupChange) :=
  [.succeed, .groups (.ok [⟨3, "dmz"⟩]), .succeed, .time 1, .uuid 8, .succeed, .uuid 9, .time 1,
    .succeed].map (.act true)

/-- The group is granted and then deleted in Vault, and the pass comes after. -/
def grantedThenDeleted : List (Event Bool Choice GroupChange) :=
  grantingRun ++ [.world (.delete 3), .act false (.groups (.ok [])), .act false .succeed]

/-- The pass lists the groups before the group is created. -/
def listedThenGranted : List (Event Bool Choice GroupChange) :=
  .act false (.groups (.ok [])) :: .world (.create ⟨3, "dmz"⟩) :: grantingRun ++
    [.act false .succeed]

theorem cleanup_removes_only_gone_in_turn :
    ∃ p q, Interleaving.run (system sampleApp.crates)
        (surrounded sampleApp racingTasks ungrantedWorld [⟨3, "dmz"⟩]) grantedThenDeleted = some p ∧
      step (system sampleApp.crates) p (.act false .succeed) = some q ∧
      ⟨8, 2, 3, "dmz", 1⟩ ∈ grantsOf p ∧ ⟨8, 2, 3, "dmz", 1⟩ ∉ grantsOf q ∧
      GoneAtListing sampleApp.crates (surrounded sampleApp racingTasks ungrantedWorld [⟨3, "dmz"⟩])
        grantedThenDeleted false ⟨8, 2, 3, "dmz", 1⟩ := by
  have hends : ((checkedRun (system sampleApp.crates) Undisturbed
      (surrounded sampleApp racingTasks ungrantedWorld [⟨3, "dmz"⟩])
        grantedThenDeleted).bind fun p =>
        (step (system sampleApp.crates) p (.act false .succeed)).map fun q =>
          (grantsOf p, grantsOf q)) = some ([⟨8, 2, 3, "dmz", 1⟩], []) := by
    decide +kernel
  obtain ⟨p, hchecked, hp⟩ := Option.bind_eq_some_iff.mp hends
  obtain ⟨q, hstep, hgrants⟩ := Option.map_eq_some_iff.mp hp
  obtain ⟨hbefore, hafter⟩ := Prod.mk.inj hgrants
  obtain ⟨hrun, hcond⟩ := checkedRun_eq_some hchecked
  have hin : ⟨8, 2, 3, "dmz", 1⟩ ∈ grantsOf p := by
    rw [hbefore]
    exact List.mem_singleton_self _
  have hout : ⟨8, 2, 3, "dmz", 1⟩ ∉ grantsOf q := by
    rw [hafter]
    exact List.not_mem_nil
  exact ⟨p, q, hrun, hstep, hin, hout,
    (cleanup_removes_only_gone hrun).1 hcond false .succeed q _ rfl hstep hin hout⟩

/-- The grant is removed although its group has been there all the time since before it
was made. -/
theorem live_grant_removed :
    ∃ p q, Interleaving.run (system sampleApp.crates)
        (surrounded sampleApp racingTasks ungrantedWorld []) listedThenGranted = some p ∧
      step (system sampleApp.crates) p (.act false .succeed) = some q ∧
      p.outcome true = some (some (.ok (.grant ⟨8, 2, 3, "dmz", 1⟩))) ∧
      ⟨8, 2, 3, "dmz", 1⟩ ∈ grantsOf p ∧ ⟨8, 2, 3, "dmz", 1⟩ ∉ grantsOf q ∧
      ∀ before m, before <+: listedThenGranted → Interleaving.run (system sampleApp.crates)
        (surrounded sampleApp racingTasks ungrantedWorld []) before = some m →
        ⟨8, 2, 3, "dmz", 1⟩ ∈ grantsOf m → ∃ g ∈ m.state.2, g.id = 3 := by
  have hends : ((Interleaving.run (system sampleApp.crates)
      (surrounded sampleApp racingTasks ungrantedWorld []) listedThenGranted).bind fun p =>
        (step (system sampleApp.crates) p (.act false .succeed)).map fun q =>
          (p.outcome true, grantsOf p, grantsOf q)) =
      some (some (some (.ok (.grant ⟨8, 2, 3, "dmz", 1⟩))), [⟨8, 2, 3, "dmz", 1⟩], []) := by
    rfl
  have hpresent :
      (listedThenGranted.inits.all fun before => (Interleaving.run (system sampleApp.crates)
      (surrounded sampleApp racingTasks ungrantedWorld []) before).all fun m =>
        !(grantsOf m).contains ⟨8, 2, 3, "dmz", 1⟩ || m.state.2.any fun g => decide (g.id = 3)) =
          true := by
    decide +kernel
  obtain ⟨p, hrun, hp⟩ := Option.bind_eq_some_iff.mp hends
  obtain ⟨q, hstep, hq⟩ := Option.map_eq_some_iff.mp hp
  obtain ⟨houtcome, hgrants⟩ := Prod.mk.inj hq
  obtain ⟨hbefore, hafter⟩ := Prod.mk.inj hgrants
  refine ⟨p, q, hrun, hstep, houtcome, ?_, ?_, ?_⟩
  · rw [hbefore]
    exact List.mem_singleton_self _
  · rw [hafter]
    exact List.not_mem_nil
  · intro before m hearlier hm hrow
    have hall := List.all_eq_true.mp hpresent before ((List.mem_inits _ _).mpr hearlier)
    rw [hm, Option.all_some, List.contains_iff_mem.mpr hrow] at hall
    simpa using hall

end SimplyIpExporter.GrantCleanup
