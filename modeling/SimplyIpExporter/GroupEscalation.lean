import SimplyIpExporter.DaughterConfinement
import SimplyIpExporter.SyncPasses

/-!
# No key writes a group it was never granted

Requests of any keys, cleanup passes and the sync worker run interleaved. The
check of a request's groups, the table of grants and the write are separate calls,
so a grant may be gone by the time of the write; but it was there when the request
looked. What is shown follows from three facts kept along every run: the groups a
request has seen granted were granted at a moment of that request, endpoints name
only groups their owner has held, and what a request of somebody else has found to
be its own never becomes an endpoint of the key in question.
-/
namespace SimplyIpExporter.GroupEscalation
open Entities KeyedTables Storage Services Programs Interleaving EndpointHandlers KeyHandlers
open Routes SyncPasses DaughterPolicy DaughterConfinement

/-- The row has a counterpart before the call with the same owner and groups. -/
def HasCounterpart (s : World) (row' : Endpoint) : Prop :=
  ∃ row ∈ s.db.endpoints.rows, row.id = row'.id ∧ row.ownerKeyId = row'.ownerKeyId ∧
    row.vaultGroups = row'.vaultGroups

section Daughter
variable {crates : Crates} {key : Uuid} {asked : List String} {w : Watch} {c : Call} {e : Choice}
  {s s' : World} {r : Answer c}

/-- An endpoint after a call is as it was, but for groups the request has seen
granted, or is a new one of the caller's that names only such groups. -/
def Explained (key : Uuid) (w : Watch) (s : World) (row' : Endpoint) : Prop :=
  HasCounterpart s row' ∨
  (∃ row ∈ s.db.endpoints.rows, row.id = row'.id ∧ row.ownerKeyId = row'.ownerKeyId ∧
    row.id ∈ w.mine ∧ ∀ g ∈ groupNames row'.vaultGroups, g ∈ w.covered) ∨
  (s.db.endpoints.find row'.id = none ∧ row'.id ∉ s.retired ∧ row'.ownerKeyId = some key ∧
    ∀ g ∈ groupNames row'.vaultGroups, g ∈ w.covered)

theorem hasCounterpart_of_mem {row : Endpoint} (h : row ∈ s.db.endpoints.rows) :
    HasCounterpart s row :=
  ⟨row, h, rfl, rfl, rfl⟩

theorem statement_explained {st : Statement} {rows : st.Rows} {db : Database}
    (hpermits : permitsStatement key asked w st) (hrun : st.run s.db = .ok (rows, db))
    (hreuse : reuses st s = false) : ∀ row' ∈ db.endpoints.rows, Explained key w s row' := by
  intro row' hrow'
  cases st with
  | insertEndpoint row =>
      obtain ⟨howner, -, -, hcovered⟩ := hpermits
      obtain ⟨-, t, hinsert, rfl⟩ := run_insertEndpoint hrun
      obtain ⟨hrows, hnone⟩ := Table.rows_insert hinsert
      simp only [hrows, List.mem_append, List.mem_singleton] at hrow'
      rcases hrow' with hold | rfl
      · exact .inl (hasCounterpart_of_mem hold)
      · exact .inr (.inr ⟨hnone, by simpa [reuses] using hreuse, howner, hcovered⟩)
  | updateEndpoint id ch =>
      obtain ⟨hmine, howner, -, hcovered⟩ := hpermits
      rcases mem_of_updateEndpoint hrun hrow' with hold | ⟨row, hfind, rfl⟩
      · exact .inl (hasCounterpart_of_mem hold)
      · obtain ⟨hrow, hid⟩ := Table.find_eq_some.mp hfind
        have hsame : (ch.apply row).ownerKeyId = row.ownerKeyId := by
          simp [EndpointChanges.apply, howner]
        cases hgroups : ch.vaultGroups with
        | none =>
            refine .inl ⟨row, hrow, rfl, hsame.symm, ?_⟩
            simp [EndpointChanges.apply, hgroups]
        | some raw =>
            refine .inr (.inl ⟨row, hrow, rfl, hsame.symm, hid.symm ▸ hmine, ?_⟩)
            simpa [EndpointChanges.apply, hgroups] using hcovered raw hgroups
  | deleteEndpoint id =>
      cases hrun
      exact .inl (hasCounterpart_of_mem (List.mem_of_mem_filter hrow'))
  | _ =>
      rw [run_not_onEndpoints rfl hrun] at hrow'
      exact .inl (hasCounterpart_of_mem hrow')

theorem exec_explained (hpermits : permits key asked w c)
    (hexec : exec crates c e s = some (r, s')) :
    ∀ row' ∈ s'.db.endpoints.rows, Explained key w s row' := by
  intro row' hrow'
  cases c with
  | db st =>
      cases r with
      | error err =>
          cases exec_db_error hexec
          exact .inl (hasCounterpart_of_mem hrow')
      | ok rows =>
          obtain ⟨db, hrun, hreuse, rfl⟩ := exec_db_ok hexec
          exact statement_explained hpermits hrun hreuse row' hrow'
  | now | newUuid | random _ | evict _ =>
      rw [(exec_not_storing rfl hexec).1] at hrow'
      exact .inl (hasCounterpart_of_mem hrow')
  | _ => exact absurd hpermits id

/-- As long as not all groups asked for have been seen granted, a request only
reads. -/
theorem exec_of_not_settled (hpermits : permits key asked w c) (hunsettled : ¬ AskedCovered asked w)
    (hexec : exec crates c e s = some (r, s')) : s' = { s with clock := s'.clock } := by
  cases c with
  | db st =>
      cases r with
      | error err =>
          cases exec_db_error hexec
          rfl
      | ok rows =>
          obtain ⟨db, hrun, -, rfl⟩ := exec_db_ok hexec
          cases st with
          | findEndpoint _ | endpointsOwnedBy _ | grantsOf _ =>
              cases hrun
              rfl
          | insertEndpoint _ => exact absurd hpermits.2.2.1 hunsettled
          | updateEndpoint _ _ => exact absurd hpermits.2.2.1 hunsettled
          | deleteEndpoint _ => exact absurd hpermits.2 hunsettled
          | insertAudit _ => exact absurd hpermits hunsettled
          | _ => exact absurd hpermits id
  | now | newUuid | random _ => exact (exec_drawing rfl hexec).1
  | evict _ => exact absurd hpermits hunsettled
  | _ => exact absurd hpermits id

end Daughter

/-- Background work sets no owner and no groups of an endpoint. -/
def background : Policy Answer Watch where
  permits _ c := match c with
    | .db (.updateEndpoint _ ch) => ch.ownerKeyId = none ∧ ch.vaultGroups = none
    | .db (.insertEndpoint _) => False
    | .deleteKey _ => False
    | _ => True
  moves w _ _ w' := w' = w

theorem cleanup_follows (app : AppState) (w : Watch) :
    Follows background (fun _ _ => True) (cleanupStaleGroupPermissions app) w :=
  cleanupStaleGroupPermissions_follows (fun _ => trivial) (fun _ => trivial)
    (fun _ _ => trivial) app w

theorem sync_background (app : AppState) (passes : ℕ) (w : Watch) :
    Follows background (fun _ _ => True) ((Task.sync passes).program app) w := by
  refine sync_follows_of_permits ?_ app passes w
  intro pass _ c hpermits
  cases c with
  | db st =>
      cases st with
      | updateEndpoint id ch =>
          obtain ⟨-, -, t, -, rfl⟩ := hpermits
          exact ⟨rfl, rfl⟩
      | insertEndpoint row => exact hpermits
      | _ => trivial
  | deleteKey d => exact hpermits
  | _ => trivial

/-- The call gives an endpoint to the key, or changes the groups of one it owns. -/
def touches (key : Uuid) (s : World) : Call → Prop
  | .db (.insertEndpoint row) => row.ownerKeyId = some key
  | .db (.updateEndpoint id ch) => ch.ownerKeyId = some (some key) ∨ (ch.vaultGroups ≠ none ∧
      ∃ row, s.db.endpoints.find id = some row ∧ row.ownerKeyId = some key)
  | .deleteKey d => d.reassignTo = some key
  | _ => False

theorem background_not_touches {key : Uuid} {s : World} {w : Watch} {c : Call}
    (h : background.permits w c) : ¬ touches key s c := by
  intro htouches
  cases c with
  | db st =>
      cases st with
      | insertEndpoint row => exact h
      | updateEndpoint id ch =>
          obtain ⟨howner, hgroups⟩ := h
          rcases htouches with hkey | ⟨hset, -⟩
          · rw [howner] at hkey
            cases hkey
          · exact hset hgroups
      | _ => exact htouches
  | deleteKey d => exact h
  | _ => exact htouches

theorem hasCounterpart_of_not_touches {crates : Crates} {key : Uuid} {c : Call} {e : Choice}
    {s s' : World} {r : Answer c} (hnot : ¬ touches key s c)
    (hexec : exec crates c e s = some (r, s')) :
    ∀ row' ∈ s'.db.endpoints.rows, row'.ownerKeyId = some key → HasCounterpart s row' := by
  intro row' hrow' howner
  cases c with
  | db st =>
      cases r with
      | error err =>
          cases exec_db_error hexec
          exact hasCounterpart_of_mem hrow'
      | ok rows =>
          obtain ⟨db, hrun, -, rfl⟩ := exec_db_ok hexec
          cases st with
          | insertEndpoint row =>
              obtain ⟨-, t, hinsert, rfl⟩ := run_insertEndpoint hrun
              simp only [(Table.rows_insert hinsert).1, List.mem_append,
                List.mem_singleton] at hrow'
              rcases hrow' with hold | rfl
              · exact hasCounterpart_of_mem hold
              · exact absurd howner hnot
          | updateEndpoint id ch =>
              rcases mem_of_updateEndpoint hrun hrow' with hold | ⟨row, hfind, rfl⟩
              · exact hasCounterpart_of_mem hold
              · obtain ⟨hgiven, hset⟩ := not_or.mp hnot
                have hkeeps : ch.ownerKeyId = none := by
                  cases hch : ch.ownerKeyId with
                  | none => rfl
                  | some owner =>
                      have hkey : owner =
                          some key := by simpa [EndpointChanges.apply, hch] using howner
                      exact absurd (hkey ▸ hch) hgiven
                have hsame : row.ownerKeyId = (ch.apply row).ownerKeyId := by
                  simp [EndpointChanges.apply, hkeeps]
                refine ⟨row, (Table.find_eq_some.mp hfind).1, rfl, hsame, ?_⟩
                have hgroups : ch.vaultGroups = none := by
                  by_contra hne
                  exact hset ⟨hne, row, hfind, hsame.trans howner⟩
                simp [EndpointChanges.apply, hgroups]
          | deleteEndpoint id =>
              cases hrun
              exact hasCounterpart_of_mem (List.mem_of_mem_filter hrow')
          | _ =>
              rw [run_not_onEndpoints rfl hrun] at hrow'
              exact hasCounterpart_of_mem hrow'
  | deleteKey d =>
      obtain ⟨-, ⟨hdb, -⟩ | ⟨id, t, hrun, -⟩⟩ := exec_deleteKey hexec
      · rw [hdb] at hrow'
        exact hasCounterpart_of_mem hrow'
      · rcases KeyDeletion.mem_endpoint hrun hrow' with hold | hnone | ⟨newOwner, hto, hnew⟩
        · exact hasCounterpart_of_mem hold
        · rw [hnone] at howner
          cases howner
        · rw [hnew] at howner
          exact absurd (hto.trans howner) hnot
  | _ =>
      rw [(exec_not_storing rfl hexec).1] at hrow'
      exact hasCounterpart_of_mem hrow'

/-- The key and the groups asked for, if the task is a request of a key that is not
the Master. -/
def requester : Task → Option (Uuid × List String)
  | .request caller r => if caller.key.isMaster then none else some (caller.key.id, askedGroups r)
  | .cleanup | .sync _ => none

def byMaster : Task → Bool
  | .request caller _ => caller.key.isMaster
  | .cleanup | .sync _ => false

/-- The Master may do anything. -/
def master : Policy Answer Watch := ⟨fun _ _ => True, fun w _ _ w' => w' = w⟩

def policy (t : Task) : Policy Answer Watch :=
  match requester t with
  | some (key, asked) => daughter key asked False
  | none => if byMaster t then master else background

theorem program_follows (app : AppState) (t : Task) :
    Follows (policy t) (fun _ _ => True) (t.program app) .start := by
  cases t with
  | request caller r =>
      cases hmaster : caller.key.isMaster with
      | true =>
          refine Follows.of_permits_all ?_ _ _
          simp [policy, requester, byMaster, hmaster, master]
      | false =>
          have hpolicy : policy (.request caller r) =
              daughter caller.key.id (askedGroups r) False := by
            simp [policy, requester, hmaster]
          rw [hpolicy]
          exact Follows.bind (handle_obeys hmaster r) fun _ _ _ => Follows.pure trivial
  | cleanup => exact (cleanup_follows app .start).bind fun _ _ _ => Follows.pure trivial
  | sync passes => exact sync_background app passes .start

section Runs
variable {I : Type} [DecidableEq I]

/-- A grant of the group to the key was in the table at some step of the task. -/
def GrantedDuring (app : AppState) (tasks : I → Task) (w : World)
    (events : List (Event I Choice Change)) (i : I) (key : Uuid) (group : String) : Prop :=
  ∃ past e rest p, events = past ++ .act i e :: rest ∧
    run (system app.crates) (process app tasks w) past = some p ∧ GrantIn p.state key group

/-- It was there at some moment of the run. -/
def GrantedBefore (app : AppState) (tasks : I → Task) (w : World)
    (events : List (Event I Choice Change)) (key : Uuid) (group : String) : Prop :=
  ∃ past rest p, events = past ++ rest ∧
    run (system app.crates) (process app tasks w) past = some p ∧ GrantIn p.state key group

/-- The Master leaves the endpoints of the key as they are, and gives it none. -/
def handsOff (tasks : I → Task) (key : Uuid)
    (p : Process I) : Event I Choice Change → Prop
  | .act i _ => byMaster (tasks i) = true →
      ∀ c, (p.threads i).upcoming = some c → ¬ touches key p.state c
  | .world _ => True

section Histories
variable {app : AppState} {tasks : I → Task} {w : World}
  {events more : List (Event I Choice Change)}
  {i : I} {key : Uuid} {group : String}

theorem GrantedDuring.append (h : GrantedDuring app tasks w events i key group) :
    GrantedDuring app tasks w (events ++ more) i key group := by
  obtain ⟨past, e, rest, p, rfl, hrun, hgrant⟩ := h
  exact ⟨past, e, rest ++ more, p, by simp, hrun, hgrant⟩

theorem GrantedBefore.append (h : GrantedBefore app tasks w events key group) :
    GrantedBefore app tasks w (events ++ more) key group := by
  obtain ⟨past, rest, p, rfl, hrun, hgrant⟩ := h
  exact ⟨past, rest ++ more, p, by simp, hrun, hgrant⟩

theorem GrantedDuring.before (h : GrantedDuring app tasks w events i key group) :
    GrantedBefore app tasks w events key group := by
  obtain ⟨past, e, rest, p, rfl, hrun, hgrant⟩ := h
  exact ⟨past, .act i e :: rest, p, rfl, hrun, hgrant⟩

end Histories

/-- Groups a request has seen granted were granted during it. -/
def Seen (app : AppState) (tasks : I → Task) (w₀ : World) (past : List (Event I Choice Change))
    (ms : I → Watch) : Prop :=
  ∀ i key asked, requester (tasks i) = some (key, asked) → ∀ g ∈ (ms i).covered,
    GrantedDuring app tasks w₀ past i key g

/-- How the watch of a task moves at a call. -/
theorem policy_moves {crates : Crates} {t : Task} {w : Watch} {c : Call} {e : Choice} {s s' : World}
    {r : Answer c} (hpermits : (policy t).permits w c) (hexec : exec crates c e s = some (r, s')) :
    ∃ w', (policy t).moves w c r w' ∧
      ∀ key asked, requester t = some (key, asked) → Learns key s w w' := by
  cases ht : requester t with
  | some asker =>
      obtain ⟨key, asked⟩ := asker
      have hpolicy : policy t = daughter key asked False := by simp [policy, ht]
      rw [hpolicy] at hpermits ⊢
      obtain ⟨w', hmoves, hlearns⟩ := exec_learns hpermits hexec False.elim
      refine ⟨w', hmoves, ?_⟩
      rintro _ _ ⟨⟩
      exact hlearns
  | none =>
      refine ⟨w, ?_, fun _ _ h => by cases h⟩
      rw [policy, ht]
      dsimp only
      split <;> rfl

theorem Seen.step {app : AppState} {tasks : I → Task} {w₀ : World}
    {past : List (Event I Choice Change)} {ms : I → Watch} {i : I} {e : Choice} {w' : Watch}
    {p : Process I} (h : Seen app tasks w₀ past ms)
    (hrun : run (system app.crates) (process app tasks w₀) past = some p)
    (hlearns : ∀ key asked, requester (tasks i) = some (key, asked) →
      Learns key p.state (ms i) w') :
    Seen app tasks w₀ (past ++ [.act i e]) (Function.update ms i w') := by
  intro j key asked hj g hg
  by_cases hji : j = i
  · subst hji
    rw [Function.update_self] at hg
    rcases (hlearns key asked hj).covered g hg with hold | hnow
    · exact (h j key asked hj g hold).append
    · exact ⟨past, e, [], p, rfl, hrun, hnow⟩
  · rw [Function.update_of_ne hji] at hg
    exact (h j key asked hj g hg).append

theorem run_seen {app : AppState} {tasks : I → Task} {w₀ : World}
    {events : List (Event I Choice Change)}
    {q : Process I}
    (hrun : run (system app.crates) (process app tasks w₀) events = some q) :
    ∃ ms, Watched (fun i => policy (tasks i)) (fun _ _ _ => True)
      (fun past ms _ => Seen app tasks w₀ past ms) events q ms := by
  have hstart : Watched (fun i => policy (tasks i)) (fun _ _ _ => True)
      (fun past ms _ => Seen app tasks w₀ past ms) [] (process app tasks w₀) fun _ => .start := by
    refine ⟨fun i => program_follows app (tasks i), ?_⟩
    intro i key asked _ g hg
    cases hg
  refine run_watched _ _ _ (fun _ _ => True) hstart ?_ ?_ hrun fun _ _ _ _ _ _ => trivial
  · intro past p ms i e c next r s' hp hseen _ _ hpermits hexec
    obtain ⟨w', hmoves, hlearns⟩ := policy_moves hpermits hexec
    exact ⟨w', hmoves, hseen.inv.step hp hlearns⟩
  · intro past p ms w s' _ hseen _ _ i key asked hi g hg
    exact (hseen.inv i key asked hi g hg).append

/-- An identifier that no endpoint of the key has or will have. -/
structure Apart (key : Uuid) (s : World) (id : Uuid) : Prop where
  retired : s.db.endpoints.find id = none → id ∈ s.retired
  owner : ∀ row, s.db.endpoints.find id = some row → row.ownerKeyId ≠ some key

/-- Where an endpoint of the key can come from. -/
def Descends (key : Uuid) (s : World) (row' : Endpoint) : Prop :=
  (∃ row ∈ s.db.endpoints.rows, row.id = row'.id ∧ row.ownerKeyId = some key) ∨
    (s.db.endpoints.find row'.id = none ∧ row'.id ∉ s.retired)

theorem HasCounterpart.descends {key : Uuid} {s : World} {row' : Endpoint}
    (h : HasCounterpart s row') (howner : row'.ownerKeyId = some key) : Descends key s row' := by
  obtain ⟨row, hrow, hid, hsame, -⟩ := h
  exact .inl ⟨row, hrow, hid, hsame.trans howner⟩

theorem Apart.step {key : Uuid} {s s' : World} {id : Uuid} (h : Apart key s id)
    (hids : IdsKept s s')
    (hrows : ∀ row' ∈ s'.db.endpoints.rows, row'.ownerKeyId = some key → Descends key s row') :
    Apart key s' id where
  retired := by
    intro hnone
    by_cases hfind : s.db.endpoints.find id = none
    · exact hids.retired id (h.retired hfind)
    · exact hids.gone id hfind hnone
  owner := by
    intro row' hfind' howner
    obtain ⟨hrow', rfl⟩ := Table.find_eq_some.mp hfind'
    rcases hrows row' hrow' howner with ⟨row, hrow, hid, hkey⟩ | ⟨hnone, hfresh⟩
    · exact h.owner row (Table.find_eq_some.mpr ⟨hrow, hid⟩) hkey
    · exact hfresh (h.retired hnone)

/-- What holds between steps, as long as the Master keeps off: the key's endpoints
name only groups it has held, and no request of another key is about to write to
one of them. -/
structure NamesHeld (app : AppState) (tasks : I → Task) (w₀ : World) (key : Uuid)
    (held : String → Prop) (past : List (Event I Choice Change)) (ms : I → Watch) (s : World) :
    Prop where
  seen : Seen app tasks w₀ past ms
  named : ∀ row ∈ s.db.endpoints.rows, row.ownerKeyId = some key → ∀ g ∈ groupNames row.vaultGroups,
    held g ∨ GrantedBefore app tasks w₀ past key g
  apart : ∀ i other asked, requester (tasks i) = some (other, asked) → other ≠ key →
    ∀ id ∈ (ms i).mine, Apart key s id

section NamesHeld
variable {app : AppState} {tasks : I → Task} {w₀ : World} {key : Uuid} {held : String → Prop}
  {past : List (Event I Choice Change)} {ms : I → Watch} {s s' : World} {i : I} {c : Call}
  {e : Choice} {r : Answer c}

/-- An endpoint of the key after a call has its groups from before, or the key itself
has just written them and had seen them granted. -/
theorem NamesHeld.owned (h : NamesHeld app tasks w₀ key held past ms s)
    (hpermits : (policy (tasks i)).permits (ms i) c)
    (hoff : byMaster (tasks i) = true → ¬ touches key s c)
    (hexec : exec app.crates c e s = some (r, s')) {row' : Endpoint}
    (hrow' : row' ∈ s'.db.endpoints.rows) (howner : row'.ownerKeyId = some key) :
    HasCounterpart s row' ∨
    (Descends key s row' ∧ ∃ asked, requester (tasks i) = some (key, asked) ∧
      ∀ g ∈ groupNames row'.vaultGroups, g ∈ (ms i).covered) := by
  cases hi : requester (tasks i) with
  | none =>
      refine .inl (hasCounterpart_of_not_touches ?_ hexec row' hrow' howner)
      cases hmaster : byMaster (tasks i) with
      | true => exact hoff hmaster
      | false =>
          rw [policy, hi, hmaster] at hpermits
          exact background_not_touches hpermits
  | some asker =>
      obtain ⟨other, asked⟩ := asker
      rw [policy, hi] at hpermits
      rcases exec_explained hpermits hexec row' hrow' with
        hkept | ⟨row, hrow, hid, hsame, hmine, hcovered⟩ | ⟨hnone, hfresh, hother, hcovered⟩
      · exact .inl hkept
      · have hkey : row.ownerKeyId = some key := hsame.trans howner
        by_cases hne : other = key
        · subst hne
          exact .inr ⟨.inl ⟨row, hrow, hid, hkey⟩, asked, rfl, hcovered⟩
        · have hapart := h.apart i other asked hi hne row.id hmine
          exact absurd hkey (hapart.owner row (Table.find_eq_some.mpr ⟨hrow, rfl⟩))
      · obtain rfl : other = key := by
          rw [hother] at howner
          exact Option.some.inj howner
        exact .inr ⟨.inr ⟨hnone, hfresh⟩, asked, rfl, hcovered⟩

theorem NamesHeld.step {p : Process I} {w' : Watch}
    (h : NamesHeld app tasks w₀ key held past ms p.state)
    (hrun : run (system app.crates) (process app tasks w₀) past = some p)
    (hpermits : (policy (tasks i)).permits (ms i) c)
    (hoff : byMaster (tasks i) = true → ¬ touches key p.state c)
    (hexec : exec app.crates c e p.state = some (r, s'))
    (hlearns : ∀ other asked, requester (tasks i) = some (other, asked) →
      Learns other p.state (ms i) w') :
    NamesHeld app tasks w₀ key held (past ++ [.act i e]) (Function.update ms i w') s' where
  seen := h.seen.step hrun hlearns
  named := by
    intro row' hrow' howner g hg
    rcases h.owned hpermits hoff hexec hrow' howner with
      ⟨row, hrow, -, hsame, hgroups⟩ | ⟨-, asked, hi, hcovered⟩
    · rw [← hgroups] at hg
      exact (h.named row hrow (hsame.trans howner) g hg).imp_right GrantedBefore.append
    · exact .inr (h.seen i key asked hi g (hcovered g hg)).before.append
  apart := by
    intro j other asked hj hne id hid
    have hnow : Apart key p.state id := by
      by_cases hji : j = i
      · subst hji
        rw [Function.update_self] at hid
        rcases (hlearns other asked hj).mine id hid with hold | ⟨row, hfind, howner⟩
        · exact h.apart j other asked hj hne id hold
        · refine ⟨fun hnone => ?_, fun row' hfind' howner' => ?_⟩
          · rw [hfind] at hnone
            cases hnone
          · rw [hfind] at hfind'
            cases hfind'
            rw [howner] at howner'
            exact hne (Option.some.inj howner')
      · rw [Function.update_of_ne hji] at hid
        exact h.apart j other asked hj hne id hid
    refine hnow.step (exec_idsKept hexec) ?_
    intro row' hrow' howner
    rcases h.owned hpermits hoff hexec hrow' howner with hkept | ⟨hdescends, -⟩
    · exact hkept.descends howner
    · exact hdescends

theorem NamesHeld.world {ch : Change} (h : NamesHeld app tasks w₀ key held past ms s)
    (henv : env ch s = some s') : NamesHeld app tasks w₀ key held (past ++ [.world ch]) ms s' := by
  rw [env_eq_some henv]
  refine ⟨?_, ?_, ?_⟩
  · intro j other asked hj g hg
    exact (h.seen j other asked hj g hg).append
  · intro row hrow howner g hg
    exact (h.named row hrow howner g hg).imp_right GrantedBefore.append
  · intro j other asked hj hne id hid
    obtain ⟨hretired, howner⟩ := h.apart j other asked hj hne id hid
    exact ⟨hretired, howner⟩

theorem run_namesHeld {events : List (Event I Choice Change)}
    {q : Process I}
    (hheld : ∀ row ∈ w₀.db.endpoints.rows, row.ownerKeyId = some key →
      ∀ g ∈ groupNames row.vaultGroups, held g)
    (hrun : run (system app.crates) (process app tasks w₀) events = some q)
    (hoff : Along (system app.crates) (handsOff tasks key) (process app tasks w₀) events) :
    ∃ ms, Watched (fun i => policy (tasks i)) (fun _ _ _ => True)
      (NamesHeld app tasks w₀ key held) events q ms := by
  have hstart : Watched (fun i => policy (tasks i)) (fun _ _ _ => True)
      (NamesHeld app tasks w₀ key held) [] (process app tasks w₀) fun _ => .start := by
    refine ⟨fun i => program_follows app (tasks i), ?_, ?_, ?_⟩
    · intro i other asked _ g hg
      cases hg
    · intro row hrow howner g hg
      exact .inl (hheld row hrow howner g hg)
    · intro i other asked _ _ id hid
      cases hid
  refine run_watched _ _ _ (handsOff tasks key) hstart ?_ ?_ hrun hoff
  · intro past p ms i e c next r s' hp hsound hc hoff hpermits hexec
    obtain ⟨w', hmoves, hlearns⟩ := policy_moves hpermits hexec
    refine ⟨w', hmoves, hsound.inv.step hp hpermits ?_ hexec hlearns⟩
    intro hmaster
    exact hoff hmaster c (by rw [hc]; rfl)
  · intro past p ms ch s' _ hsound _ henv
    exact hsound.inv.world henv

end NamesHeld

/-- The groups a call is about to write into an endpoint. -/
def writtenGroups : Call → Option String
  | .db (.insertEndpoint row) => some row.vaultGroups
  | .db (.updateEndpoint _ ch) => ch.vaultGroups
  | _ => none

theorem covered_of_writtenGroups {key : Uuid} {asked : List String} {w : Watch} {c : Call}
    {raw : String} (hpermits : permits key asked w c) (hraw : writtenGroups c = some raw) :
    ∀ g ∈ groupNames raw, g ∈ w.covered := by
  unfold writtenGroups at hraw
  split at hraw
  · cases hraw
    exact hpermits.2.2.2
  · exact hpermits.2.2.2 raw hraw
  · cases hraw

/-- In every run of requests, cleanup passes and sync passes, from any state:

* groups that a key other than the Master is about to write into an endpoint were
  granted to it at a step of the same request;
* as long as the Master does not touch the key's endpoints, they name only groups
  the key held at the start or was granted in the run;
* no step of a request for a group not granted while it ran changes anything but the
  time last read from the clock. -/
theorem no_group_escalation {app : AppState} {tasks : I → Task} {w₀ : World}
    {events : List (Event I Choice Change)}
    {q : Process I}
    (hrun : run (system app.crates) (process app tasks w₀) events = some q) :
    (∀ i key asked c raw, requester (tasks i) = some (key, asked) →
      (q.threads i).upcoming = some c → writtenGroups c = some raw → ∀ g ∈ groupNames raw,
        GrantedDuring app tasks w₀ events i key g) ∧
    (∀ key (held : String → Prop),
      (∀ row ∈ w₀.db.endpoints.rows, row.ownerKeyId = some key →
        ∀ g ∈ groupNames row.vaultGroups, held g) →
      Along (system app.crates) (handsOff tasks key) (process app tasks w₀) events →
      ∀ row ∈ q.state.db.endpoints.rows, row.ownerKeyId = some key →
        ∀ g ∈ groupNames row.vaultGroups, held g ∨ GrantedBefore app tasks w₀ events key g) ∧
    (∀ i key asked g, requester (tasks i) = some (key, asked) → g ∈ asked →
      ¬ GrantedDuring app tasks w₀ events i key g →
      ∀ past e rest p p', events = past ++ .act i e :: rest →
        run (system app.crates) (process app tasks w₀) past = some p →
        step (system app.crates) p (.act i e) = some p' →
        p'.state = { p.state with clock := p'.state.clock }) := by
  refine ⟨?_, ?_, ?_⟩
  · intro i key asked c raw hi hc hraw g hg
    obtain ⟨ms, hfollows, hseen⟩ := run_seen hrun
    have hpermits := (hfollows i).permits_upcoming hc
    rw [policy, hi] at hpermits
    exact hseen i key asked hi g (covered_of_writtenGroups hpermits hraw g hg)
  · intro key held hheld hoff
    obtain ⟨ms, hms⟩ := run_namesHeld hheld hrun hoff
    exact hms.inv.named
  · intro i key asked g hi hg hnever past e rest p p' hevents hp hstep
    obtain ⟨ms, hfollows, hseen⟩ := run_seen hp
    obtain ⟨c, next, r, hc, hexec, -⟩ := step_act hstep
    have hpermits := hfollows i
    rw [hc, follows_call, policy, hi] at hpermits
    refine exec_of_not_settled hpermits.1 ?_ hexec
    intro hsettled
    refine hnever ?_
    rw [hevents]
    exact (hseen i key asked hi g (hsettled g hg)).append

end Runs

/-- A key with a grant of one group creates an endpoint for it. -/
theorem no_group_escalation_creation :
    ∃ q, run (system sampleApp.crates)
        (process sampleApp (fun _ : Unit => .request sampleCaller sampleCreation) sampleWorld)
        (sampleChoices.map (.act ())) = some q ∧
      q.state.db.endpoints.rows.map (·.vaultGroups) = ["dmz"] ∧
      ∀ row ∈ q.state.db.endpoints.rows, row.ownerKeyId = some 7 → ∀ g ∈ groupNames row.vaultGroups,
        GrantedBefore sampleApp (fun _ : Unit => .request sampleCaller sampleCreation) sampleWorld
          (sampleChoices.map (.act ())) 7 g := by
  have hcreates : (run (system sampleApp.crates)
      (process sampleApp (fun _ : Unit => .request sampleCaller sampleCreation) sampleWorld)
      (sampleChoices.map (.act ()))).map (fun q => q.state.db.endpoints.rows.map (·.vaultGroups)) =
        some ["dmz"] := by
    decide +kernel
  obtain ⟨q, hrun, hrows⟩ := Option.map_eq_some_iff.mp hcreates
  refine ⟨q, hrun, hrows, ?_⟩
  intro row hrow howner g hg
  have hnamed := (no_group_escalation hrun).2.1 7 (fun _ => False)
    (by simp [sampleWorld, Table.empty]) ?_ row hrow howner g hg
  · exact hnamed.resolve_left id
  · intro past ev rest p _ _
    cases ev with
    | act i e =>
        intro hmaster
        cases hmaster
    | world ch => trivial

end SimplyIpExporter.GroupEscalation
