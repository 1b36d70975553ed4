import SimplyIpExporter.AuditTrail
import SimplyIpExporter.Bootstrap

/-!
# Counting mutations on the trail

Requests run in any interleaving, beside the workers. What each has done is read off
the journal of the run: its mutations, and the entries it has put on the trail. As long
as every grant that is deleted is still there, a request that succeeds has made one
mutation and one entry for it. When no entry is lost either, the trail counts for every
action and resource the requests that have really done it. Revoking a grant does not
ask whether a row was removed, so that of two requests for one grant both can succeed
and make an entry.
-/
namespace SimplyIpExporter.AuditCounts
open Entities KeyedTables Storage Services Programs Interleaving Journals EndpointHandlers
open KeyHandlers SyncWorker Routes SyncPasses ResourceNames Mutations AuditTrail Bootstrap

abbrev CallEntry (I : Type) := Entry Answer I World

def mutationsBy {I : Type} [DecidableEq I] (j : List (CallEntry I)) (i : I) : List Mutation :=
  (ownEntries i j).filterMap fun en => mutationOf en.call en.answer

/-- The rows that the call has added to the trail. -/
def added {I : Type} (en : CallEntry I) : List AuditLog :=
  en.after.db.auditLogs.rows.drop en.before.db.auditLogs.rows.length

def auditsBy {I : Type} [DecidableEq I] (j : List (CallEntry I)) (i : I) : List AuditLog :=
  (ownEntries i j).flatMap added

/-- The grant to be deleted is there. -/
def grantPresent (db : Database) : Call → Bool
  | .db (.deleteGrant id) => (db.grants.find id).isSome
  | _ => true

def revokesPresent {I : Type} (p : Process I) : Event I Choice Change → Bool
  | .act i .succeed => (p.threads i).upcoming.all (grantPresent p.state.db)
  | _ => true

/-- The entry can be written: the statement does not fail, the key it refers to exists,
and its identifier is new. -/
def entryFits (db : Database) (e : Choice) : Call → Bool
  | .db (.insertAudit row) =>
      match e with
      | .succeed => db.refers row.apiKeyId && (db.auditLogs.find row.id).isNone
      | _ => false
  | _ => true

def entersTrail {I : Type} (p : Process I) : Event I Choice Change → Bool
  | .world _ => true
  | .act i e => (p.threads i).upcoming.all (entryFits p.state.db e)

def auditing : Call → Bool
  | .db (.insertAudit _) | .deleteKey _ => true
  | _ => false

/-- Workers put nothing on the trail. -/
def attending : Policy Answer Tally where
  permits _ c := auditing c = false
  moves m c answer m' := Heard c answer ∧ ∃ added, Adds c answer added ∧ m' = m.next c answer added

def trailing : Task → Policy Answer Tally
  | .request _ r => following r
  | _ => attending

def settled : Task → Tally → Option (Except AppError Response) → Prop
  | .request _ r, m, outcome => ∃ result, outcome = some result ∧ Settles r m result
  | _, _, _ => True

theorem trailing_moves {t : Task} {m m' : Tally} {c : Call} {answer : Answer c}
    {added : List AuditLog} (hheard : Heard c answer) (hadds : Adds c answer added)
    (hm' : m' = m.next c answer added) : (trailing t).moves m c answer m' := by
  cases t <;> exact ⟨hheard, added, hadds, hm'⟩

theorem program_trails (app : AppState) (t : Task) :
    Follows (trailing t) (settled t) (t.program app) .start := by
  cases t with
  | request caller r =>
      refine (walks_handle app caller r).bind fun m result hsettles => .pure ?_
      exact ⟨result, rfl, hsettles⟩
  | cleanup =>
      have hfree : Follows attending (fun _ _ => True) (cleanupStaleGroupPermissions app)
          Tally.start :=
        cleanupStaleGroupPermissions_follows (fun _ => rfl) (fun _ => rfl)
          (fun _ _ => rfl) app Tally.start
      exact hfree.bind fun _ _ _ => .pure trivial
  | sync passes =>
      refine sync_follows_of_permits ?_ app passes Tally.start
      intro pass _ c hpermits
      cases c with
      | db st =>
          cases st with
          | insertAudit row => exact hpermits.elim
          | _ => rfl
      | deleteKey d => exact hpermits.elim
      | _ => rfl

section Steps
variable {crates : Crates} {c : Call} {e : Choice} {s s' : World} {answer : Answer c}

theorem exec_heard (hexec : exec crates c e s = some (answer, s'))
    (hpresent : ∀ id, c = .db (.deleteGrant id) → e = .succeed →
      (s.db.grants.find id).isSome = true) :
    Heard c answer := by
  cases c with
  | db st =>
      cases answer with
      | error err => cases st <;> trivial
      | ok rows =>
          obtain ⟨db, hrun, -⟩ := exec_db_ok hexec
          cases st with
          | findKey id =>
              cases hrun
              cases hfind : s.db.apiKeys.find id with
              | none => trivial
              | some row => exact (Table.find_eq_some.mp hfind).2
          | findEndpoint id =>
              cases hrun
              cases hfind : s.db.endpoints.find id with
              | none => trivial
              | some row => exact (Table.find_eq_some.mp hfind).2
          | insertKey row => exact (run_insertKey hrun).1
          | updateKey id ch =>
              obtain ⟨row, hfind, rfl, -⟩ := run_updateKey hrun
              exact (Table.find_eq_some.mp hfind).2
          | insertEndpoint row => exact (run_insertEndpoint hrun).1
          | updateEndpoint id ch =>
              obtain ⟨row, hfind, rfl, -⟩ := run_updateEndpoint hrun
              exact (Table.find_eq_some.mp hfind).2
          | deleteGrant id =>
              have hfind := hpresent id rfl (exec_db_choice hexec)
              obtain ⟨row, hrow⟩ := Option.isSome_iff_exists.mp hfind
              obtain ⟨hmem, hid⟩ := Table.find_eq_some.mp hrow
              cases hrun
              exact Nat.pos_iff_ne_zero.mp (List.countP_pos_iff.mpr ⟨row, hmem, by simpa using hid⟩)
          | _ => trivial
  | _ => trivial

theorem loses_insertAudit {row : AuditLog} {answer : Answer (.db (.insertAudit row))}
    (hexec : exec crates (.db (.insertAudit row)) .succeed s = some (answer, s'))
    (hrefers : s.db.refers row.apiKeyId = true) (hnew : s.db.auditLogs.find row.id = none) :
    loses (.db (.insertAudit row)) answer = false := by
  obtain ⟨rfl, -⟩ := exec_insertAudit hexec hrefers hnew
  rfl

theorem adds_nil {added : List AuditLog} (hc : auditing c = false) (hadds : Adds c answer added) :
    added = [] := by
  cases c with
  | db st =>
      cases st with
      | insertAudit row => cases hc
      | _ => cases answer <;> exact hadds
  | deleteKey d => cases hc
  | _ => exact hadds

/-- No entry is lost where the condition holds. -/
theorem loses_eq_false (hexec : exec crates c e s = some (answer, s'))
    (hcond : entryFits s.db e c = true) : loses c answer = false := by
  cases c with
  | db st =>
      cases st with
      | insertAudit row =>
          cases e with
          | succeed =>
              obtain ⟨hrefers, hnew⟩ := Bool.and_eq_true_iff.mp hcond
              exact loses_insertAudit hexec hrefers (Option.isNone_iff_eq_none.mp hnew)
          | _ => cases hcond
      | _ => cases answer <;> rfl
  | _ => rfl

/-- The row that the call looks for or is to remove is not there. A key is looked for
only after the one its endpoints go to. -/
def rowAbsent (db : Database) : Call → Bool
  | .db (.findKey id) => (db.apiKeys.find id).isNone
  | .db (.findEndpoint id) | .db (.deleteEndpoint id) => (db.endpoints.find id).isNone
  | .db (.findGrant id) | .db (.deleteGrant id) => (db.grants.find id).isNone
  | .deleteKey d => (db.apiKeys.find d.id).isNone &&
      (reassignTarget d (db.endpointsOf d.id) db).isOk
  | _ => false

theorem countP_of_find_none {Row : Type} {key : Row → Uuid} {t : Table Row Uuid key} {id : Uuid}
    (h : (t.find id).isNone = true) : t.rows.countP (fun r => decide (key r = id)) = 0 := by
  refine List.countP_eq_zero.mpr ?_
  intro row hrow hid
  exact Table.find_eq_none.mp (Option.isNone_iff_eq_none.mp h) row hrow (of_decide_eq_true hid)

theorem deletion_notFound {d : KeyDeletion} {auditId : Uuid} {auditTime : NaiveDateTime}
    {db : Database} (h : rowAbsent db (.deleteKey d) = true) :
    d.run auditId auditTime db = .error .notFound := by
  obtain ⟨habsent, htarget⟩ := Bool.and_eq_true_iff.mp h
  cases hto : reassignTarget d (db.endpointsOf d.id) db with
  | error err =>
      rw [hto] at htarget
      cases htarget
  | ok target =>
      rw [KeyDeletion.run_of_target hto]
      refine if_pos ?_
      cases target <;> exact habsent

/-- What looks for an absent row, and does not fail, misses it. -/
theorem exec_misses (hexec : exec crates c e s = some (answer, s')) (hfail : e ≠ .fail)
    (habsent : rowAbsent s.db c = true) : misses c answer = true := by
  cases c with
  | db st =>
      have hanswer := exec_db_answer hexec hfail
      cases st with
      | findKey id | findEndpoint id | findGrant id =>
          rw [hanswer, Statement.run, Option.isNone_iff_eq_none.mp habsent]
          rfl
      | deleteEndpoint id | deleteGrant id =>
          rw [hanswer, Statement.run, deleteRows, countP_of_find_none habsent]
          rfl
      | _ => cases habsent
  | deleteKey d =>
      cases e with
      | fail => exact absurd rfl hfail
      | audited id t =>
          simp only [exec] at hexec
          split at hexec
          · rw [deletion_notFound habsent] at hexec
            cases hexec
            rfl
          · cases hexec
      | _ => cases hexec
  | _ => cases habsent

end Steps

section Runs
variable {I : Type} [DecidableEq I] (app : AppState) (tasks : I → Task) (w : World)

/-- The journal of a run of the process. -/
abbrev journalOf (events : List (Event I Choice Change)) : List (CallEntry I) :=
  journal (system app.crates) (process app tasks w) events

/-- The tallies are what the journal says, and so is the trail. -/
structure Tallied (strict : Prop) (past : List (Event I Choice Change)) (ms : I → Tally)
    (s : World) : Prop where
  mutations : ∀ i, (ms i).mutations = mutationsBy (journalOf app tasks w past) i
  audits : ∀ i, (ms i).audits = auditsBy (journalOf app tasks w past) i
  trail : s.db.auditLogs.rows.map blank =
    w.db.auditLogs.rows.map blank ++ ((journalOf app tasks w past).flatMap added).map blank
  lossless : strict → ∀ i, (ms i).lost = false
  workers : ∀ i, (∀ caller r, tasks i ≠ .request caller r) → (ms i).audits = []

variable {app tasks w} {strict : Prop} {past : List (Event I Choice Change)} {ms : I → Tally}
  {p : Process I}

theorem mutationsBy_append (j : List (CallEntry I)) (en : CallEntry I) (i : I) :
    mutationsBy (j ++ [en]) i = mutationsBy j i ++
      if en.thread = i then (mutationOf en.call en.answer).toList else [] := by
  rw [mutationsBy, ownEntries_append, List.filterMap_append]
  split
  · rename_i h
    rw [ownEntries_self h]
    cases hmu : mutationOf en.call en.answer <;> simp [hmu, mutationsBy]
  · rename_i h
    rw [ownEntries_other h]
    rfl

theorem auditsBy_append (j : List (CallEntry I)) (en : CallEntry I) (i : I) :
    auditsBy (j ++ [en]) i = auditsBy j i ++ if en.thread = i then added en else [] := by
  rw [auditsBy, ownEntries_append, List.flatMap_append]
  split
  · rename_i h
    rw [ownEntries_self h, List.flatMap_singleton]
    rfl
  · rename_i h
    rw [ownEntries_other h]
    rfl

theorem Tallied.start : Tallied app tasks w strict [] (fun _ => .start) w where
  mutations _ := rfl
  audits _ := rfl
  trail := by simp [journalOf, journal]
  lossless _ _ := rfl
  workers _ _ := rfl

theorem Tallied.step {i : I} {e : Choice} {c : Call} {next : Answer c → Program Answer _}
    {answer : Answer c} {s' : World} {rows : List AuditLog}
    (h : Tallied app tasks w strict past ms p.state)
    (hp : Interleaving.run (system app.crates) (process app tasks w) past = some p)
    (hc : p.threads i = .call c next) (hexec : exec app.crates c e p.state = some (answer, s'))
    (hpermits : (trailing (tasks i)).permits (ms i) c) (hadds : Adds c answer rows)
    (hrows : s'.db.auditLogs.rows.drop p.state.db.auditLogs.rows.length = rows)
    (htrail : s'.db.auditLogs.rows.map blank = p.state.db.auditLogs.rows.map blank ++
      rows.map blank)
    (hkept : strict → loses c answer = false) :
    Tallied app tasks w strict (past ++ [.act i e])
      (Function.update ms i ((ms i).next c answer rows)) s' := by
  have hjournal : journalOf app tasks w (past ++ [.act i e]) =
      journalOf app tasks w past ++ [⟨i, c, answer, p.state, s'⟩] := by
    rw [journalOf, journal_append_singleton hp, entries_act hc hexec]
  refine ⟨?_, ?_, ?_, ?_, ?_⟩
  · intro j
    rw [hjournal, mutationsBy_append, ← h.mutations j]
    by_cases hj : j = i
    · subst hj
      simp [Tally.next]
    · simp [Function.update_of_ne hj, Ne.symm hj]
  · intro j
    rw [hjournal, auditsBy_append, ← h.audits j]
    by_cases hj : j = i
    · subst hj
      simp [Tally.next, added, hrows]
    · simp [Function.update_of_ne hj, Ne.symm hj]
  · rw [hjournal, List.flatMap_append, List.map_append, ← List.append_assoc, ← h.trail, htrail,
      List.flatMap_singleton, added, hrows]
  · intro hstrict j
    by_cases hj : j = i
    · subst hj
      simp [Tally.next, h.lossless hstrict j, hkept hstrict]
    · simp [Function.update_of_ne hj, h.lossless hstrict j]
  · intro j hworker
    by_cases hj : j = i
    · subst hj
      have hquiet : auditing c = false := by
        cases ht : tasks j with
        | request caller r => exact absurd ht (hworker caller r)
        | cleanup | sync =>
            rw [ht] at hpermits
            exact hpermits
      simp [Tally.next, h.workers j hworker, adds_nil hquiet hadds]
    · simp [Function.update_of_ne hj, h.workers j hworker]

omit [DecidableEq I] in
/-- The condition on revocations, for the call that is made. -/
theorem present_of_revokes {i : I} {e : Choice} {c : Call}
    (hupcoming : (p.threads i).upcoming = some c) (h : revokesPresent p (.act i e) = true) :
    ∀ id, c = .db (.deleteGrant id) → e = .succeed → (p.state.db.grants.find id).isSome = true := by
  rintro id rfl rfl
  simpa [revokesPresent, hupcoming, grantPresent] using h

theorem run_tallied {events : List (Event I Choice Change)}
    (hrun : Interleaving.run (system app.crates) (process app tasks w) events = some p)
    (hpresent : Along (system app.crates) (fun p ev => revokesPresent p ev = true)
      (process app tasks w) events)
    (hstrict : strict → Along (system app.crates) (fun p ev => entersTrail p ev = true)
      (process app tasks w) events) :
    ∃ ms, Watched (fun i => trailing (tasks i)) (fun i => settled (tasks i))
      (Tallied app tasks w strict) events p ms := by
  refine run_watched _ _ (Tallied app tasks w strict)
    (fun p ev => revokesPresent p ev = true ∧ (strict → entersTrail p ev = true))
    ⟨fun i => program_trails app (tasks i), Tallied.start⟩ ?_ ?_ hrun ?_
  · intro past p ms i e c next answer s' hp hms hc hcond hpermits hexec
    have hupcoming : (p.threads i).upcoming = some c := by
      rw [hc]
      rfl
    have hfind := present_of_revokes hupcoming hcond.1
    have hfits : strict → entryFits p.state.db e c = true := by
      intro hs
      simpa [entersTrail, hupcoming] using hcond.2 hs
    obtain ⟨rows, hadds, hrows, htrail⟩ := exec_adds hexec
    refine ⟨(ms i).next c answer rows, trailing_moves (exec_heard hexec hfind) hadds rfl, ?_⟩
    exact hms.inv.step hp hc hexec hpermits hadds hrows htrail fun hs =>
      loses_eq_false hexec (hfits hs)
  · intro past p ms ch s' hp hms _ henv
    have hdb : s'.db = p.state.db := by rw [env_eq_some henv]
    have hjournal : journalOf app tasks w (past ++ [.world ch]) = journalOf app tasks w past := by
      rw [journalOf, journal_append_singleton hp, entries, List.append_nil]
    refine ⟨?_, ?_, ?_, hms.inv.lossless, hms.inv.workers⟩
    · rw [hjournal]
      exact hms.inv.mutations
    · rw [hjournal]
      exact hms.inv.audits
    · rw [hjournal, hdb]
      exact hms.inv.trail
  · intro before ev rest q heq hbefore
    exact ⟨hpresent before ev rest q heq hbefore, fun hs => hstrict hs before ev rest q heq hbefore⟩

/-- A request that misses a row it is to remove has ended with 404. -/
theorem step_absent {events : List (Event I Choice Change)} {q : Process I} {i : I} {e : Choice}
    {caller : Caller} {r : ApiRequest} {c : Call}
    (hrun : Interleaving.run (system app.crates) (process app tasks w) events = some p)
    (hpresent : Along (system app.crates) (fun p ev => revokesPresent p ev = true)
      (process app tasks w) events)
    (hstep : step (system app.crates) p (.act i e) = some q)
    (hlast : revokesPresent p (.act i e) = true) (htask : tasks i = .request caller r)
    (hremoving : removing r = true) (hfail : e ≠ .fail) (hc : (p.threads i).upcoming = some c)
    (habsent : rowAbsent p.state.db c = true) :
    q.outcome i = some (some (.error .notFound)) := by
  have hwatched : ∃ ms, Watched (fun i => trailing (tasks i)) (fun i => settled (tasks i))
      (Tallied app tasks w False) events p ms := run_tallied hrun hpresent nofun
  obtain ⟨ms, hms⟩ := hwatched
  obtain ⟨c', next, answer, hcall, hexec, hthreads⟩ := step_act hstep
  rw [hcall] at hc
  cases hc
  have hi := hms.follows i
  rw [hcall, htask, follows_call] at hi
  have hupcoming : (p.threads i).upcoming = some c := by
    rw [hcall]
    rfl
  have hfind := present_of_revokes hupcoming hlast
  obtain ⟨rows, hadds, -, -⟩ := exec_adds hexec
  have hgone : ((ms i).next c answer rows).gone = true := by
    simp [Tally.next, exec_misses hexec hfail habsent]
  have hnext := hi.2 answer _ ⟨exec_heard hexec hfind, rows, hadds, rfl⟩
  have hthread : q.threads i = next answer := by rw [hthreads, Function.update_self]
  cases hrest : next answer with
  | call c' next' =>
      rw [hrest, follows_call] at hnext
      rw [hnext.1 hremoving] at hgone
      cases hgone
  | pure outcome =>
      rw [hrest, follows_value] at hnext
      obtain ⟨result, rfl, hsettles⟩ := hnext
      cases result with
      | ok response =>
          rw [hsettles.2 hremoving] at hgone
          cases hgone
      | error err =>
          rw [← hsettles.2.2 hremoving hgone]
          exact Pool.outcome_eq_some.mpr (hthread.trans hrest)

/-- The entry says that the action was done to the resource. -/
def about (a : Action) (id : Uuid) (row : AuditLog) : Bool :=
  decide (row.action = a.text) && names a.kind id row

/-- The request has done the action to the resource. -/
def performed (tasks : I → Task) (j : List (CallEntry I)) (a : Action) (id : Uuid) (i : I) : Bool :=
  match tasks i with
  | .request _ r => decide (actionOf r = some a) &&
      (mutationsBy j i).any fun mu => decide (target r mu = some id)
  | _ => false

theorem about_of_records {r : ApiRequest} {mu : Mutation} {row : AuditLog} (h : Records r mu row)
    (a : Action) (id : Uuid) :
    about a id row = (decide (actionOf r = some a) && decide (target r mu = some id)) := by
  obtain ⟨b, id', name, hb, htarget, haction, hresource⟩ := h
  rw [about, haction, hb, htarget]
  by_cases hab : b = a
  · subst hab
    rw [names_describeResource hresource]
    simp
  · have htext : b.text ≠ a.text := fun h => hab (Action.text_inj h)
    simp [hab, htext]

/-- What the trail counts is what the requests have entered. -/
theorem Tallied.count [Fintype I] {s : World} (h : Tallied app tasks w strict past ms s)
    (a : Action) (id : Uuid) :
    s.db.auditLogs.rows.countP (about a id) = w.db.auditLogs.rows.countP (about a id) +
      ∑ i, (auditsBy (journalOf app tasks w past) i).countP (about a id) := by
  have hblank : ∀ rows : List AuditLog,
      (rows.map blank).countP (about a id) = rows.countP (about a id) := by
    intro rows
    rw [List.countP_map]
    rfl
  have hown : ∀ i, (auditsBy (journalOf app tasks w past) i).countP (about a id) =
      ((ownEntries i (journalOf app tasks w past)).map fun en =>
        (added en).countP (about a id)).sum := by
    intro i
    rw [auditsBy, List.countP_flatMap]
    rfl
  have hsum := sum_ownEntries (fun en : CallEntry I => (added en).countP (about a id))
    (journalOf app tasks w past)
  rw [← hblank s.db.auditLogs.rows, h.trail, List.countP_append, hblank, hblank,
    List.countP_flatMap]
  simp only [hown, ← hsum]
  rfl

/-- When no entry is lost, a request that has ended has made no mutation and no entry, or
one of each. -/
theorem Tallied.balanced {events : List (Event I Choice Change)}
    (hms : Watched (fun i => trailing (tasks i)) (fun i => settled (tasks i))
      (Tallied app tasks w True) events p ms) {i : I} {caller : Caller} {r : ApiRequest}
    (htask : tasks i = .request caller r) {outcome : Option (Except AppError Response)}
    (houtcome : p.outcome i = some outcome) :
    (mutationsBy (journalOf app tasks w events) i = [] ∧
      auditsBy (journalOf app tasks w events) i = []) ∨
      ∃ mu row, mutationsBy (journalOf app tasks w events) i = [mu] ∧
        auditsBy (journalOf app tasks w events) i = [row] ∧ Records r mu row := by
  have hi := hms.follows i
  rw [Pool.outcome_eq_some.mp houtcome, follows_value, htask] at hi
  obtain ⟨result, rfl, hsettles⟩ := hi
  rw [← hms.inv.audits i, ← hms.inv.mutations i]
  cases result with
  | error err => exact .inl ⟨hsettles.2.1 (hms.inv.lossless trivial i), hsettles.1⟩
  | ok response =>
      rcases hsettles.1 with ⟨-, hnone, hempty⟩ | hdone
      · exact .inl ⟨hnone, hempty⟩
      · exact .inr hdone

theorem countP_auditsBy {events : List (Event I Choice Change)}
    (hms : Watched (fun i => trailing (tasks i)) (fun i => settled (tasks i))
      (Tallied app tasks w True) events p ms) {i : I}
    (hended : ∀ caller r, tasks i = .request caller r → ∃ outcome, p.outcome i = some outcome)
    (a : Action) (id : Uuid) : (auditsBy (journalOf app tasks w events) i).countP (about a id) =
      if performed tasks (journalOf app tasks w events) a id i then 1 else 0 := by
  cases htask : tasks i with
  | cleanup | sync =>
      rw [← hms.inv.audits i, hms.inv.workers i (by simp [htask])]
      simp [performed, htask]
  | request caller r =>
      obtain ⟨outcome, houtcome⟩ := hended caller r htask
      simp only [performed, htask]
      rcases Tallied.balanced hms htask houtcome with ⟨hnone, hempty⟩ |
        ⟨mu, row, hmu, hrow, hrecords⟩
      · rw [hnone, hempty]
        simp
      · rw [hmu, hrow]
        simp [about_of_records hrecords]

/-- The request is to revoke the grant. -/
def revokes (grant : Uuid) : Task → Bool
  | .request _ (.revokeKeyGroup (.ok (_, permissionId))) => decide (permissionId = grant)
  | _ => false

/-- It has removed the grant. -/
def revoked (tasks : I → Task) (j : List (CallEntry I)) (grant : Uuid) (i : I) : Bool :=
  revokes grant (tasks i) && decide (.removedGrant grant ∈ mutationsBy j i)

theorem length_auditsBy {events : List (Event I Choice Change)}
    (hms : Watched (fun i => trailing (tasks i)) (fun i => settled (tasks i))
      (Tallied app tasks w True) events p ms) {i : I}
    (hended : ∀ caller r, tasks i = .request caller r → ∃ outcome, p.outcome i = some outcome)
    {grant : Uuid} (hrevokes : revokes grant (tasks i) = true) :
    (auditsBy (journalOf app tasks w events) i).length =
      if revoked tasks (journalOf app tasks w events) grant i then 1 else 0 := by
  rw [revoked, hrevokes, Bool.true_and]
  unfold revokes at hrevokes
  split at hrevokes
  · rename_i caller key permissionId htask
    have hgrant := of_decide_eq_true hrevokes
    subst hgrant
    obtain ⟨outcome, houtcome⟩ := hended _ _ htask
    rcases Tallied.balanced hms htask houtcome with ⟨hnone, hempty⟩ | ⟨mu, row, hmu, hrow, hrecords⟩
    · rw [hnone, hempty]
      simp
    · obtain ⟨a, id, name, -, htarget, -⟩ := hrecords
      rw [hmu, hrow]
      cases mu with
      | removedGrant removed =>
          have hremoved : removed = permissionId := by
            by_contra hne
            simp [target, hne] at htarget
          simp [hremoved]
      | _ => cases htarget
  · cases hrevokes

end Runs

/-- In every run, beside workers, in which each grant is still there when it is deleted:

* a call that is no mutation leaves the managed tables as they were, and one that counts
  as the removal of a row has removed it;
* a mutating request that succeeded was a repeated grant and did nothing, or has made
  one mutation and one entry, which names its action and target;
* a removal that does not find its row answers 404;
* if no entry was lost and all requests have ended, the trail has gained for each action
  and resource as many entries as requests have done it, and for each grant as many as
  requests have removed it. -/
theorem trail_counts_mutations {I : Type} [DecidableEq I] [Fintype I] {app : AppState}
    {tasks : I → Task} {w : World} {events : List (Event I Choice Change)} {p : Process I}
    (hrun : Interleaving.run (system app.crates) (process app tasks w) events = some p)
    (hpresent : Along (system app.crates) (fun p ev => revokesPresent p ev = true)
      (process app tasks w) events) :
    (∀ en ∈ journalOf app tasks w events,
      (mutationOf en.call en.answer = none → Untouched en.before.db en.after.db) ∧
        ∀ mu, mutationOf en.call en.answer = some mu → mu.Removes en.before.db en.after.db) ∧
    (∀ i caller r response, tasks i = .request caller r → (actionOf r).isSome = true →
      p.outcome i = some (some (.ok response)) →
      ((∃ id payload, r = .grantKeyGroup id payload) ∧
          mutationsBy (journalOf app tasks w events) i = [] ∧
          auditsBy (journalOf app tasks w events) i = []) ∨
        ∃ mu row, mutationsBy (journalOf app tasks w events) i = [mu] ∧
          auditsBy (journalOf app tasks w events) i = [row] ∧ Records r mu row) ∧
    (∀ i e q caller r c, step (system app.crates) p (.act i e) = some q →
      revokesPresent p (.act i e) = true → tasks i = .request caller r → removing r = true →
      e ≠ .fail → (p.threads i).upcoming = some c → rowAbsent p.state.db c = true →
      q.outcome i = some (some (.error .notFound))) ∧
    (Along (system app.crates) (fun p ev => entersTrail p ev = true) (process app tasks w) events →
      (∀ i caller r, tasks i = .request caller r → ∃ outcome, p.outcome i = some outcome) →
      (∀ a id, p.state.db.auditLogs.rows.countP (about a id) =
        w.db.auditLogs.rows.countP (about a id) +
          (Finset.univ.filter fun i =>
            performed tasks (journalOf app tasks w events) a id i = true).card) ∧
      ∀ grant, (∑ i, if revokes grant (tasks i) = true then
          (auditsBy (journalOf app tasks w events) i).length else 0) =
        (Finset.univ.filter fun i =>
          revoked tasks (journalOf app tasks w events) grant i = true).card) := by
  refine ⟨?_, ?_, ?_, ?_⟩
  · intro en hen
    obtain ⟨e, hexec⟩ := exec_of_mem_journal hen
    exact ⟨exec_untouched hexec, fun mu => exec_removes hexec⟩
  · intro i caller r response htask hmutating houtcome
    have hwatched : ∃ ms, Watched (fun i => trailing (tasks i)) (fun i => settled (tasks i))
        (Tallied app tasks w False) events p ms := run_tallied hrun hpresent nofun
    obtain ⟨ms, hms⟩ := hwatched
    have hi := hms.follows i
    rw [Pool.outcome_eq_some.mp houtcome, follows_value, htask] at hi
    obtain ⟨result, hresult, hsettles⟩ := hi
    cases hresult
    rw [← hms.inv.audits i, ← hms.inv.mutations i]
    rcases hsettles.1 with ⟨hidle, hnone, hempty⟩ | hdone
    · cases r with
      | grantKeyGroup id payload => exact .inl ⟨⟨id, payload, rfl⟩, hnone, hempty⟩
      | _ => cases hmutating <;> cases hidle
    · exact .inr hdone
  · intro i e q caller r c hstep hlast htask hremoving hfail hc habsent
    exact step_absent hrun hpresent hstep hlast htask hremoving hfail hc habsent
  · intro henters hended
    have hwatched : ∃ ms, Watched (fun i => trailing (tasks i)) (fun i => settled (tasks i))
        (Tallied app tasks w True) events p ms := run_tallied hrun hpresent fun _ => henters
    obtain ⟨ms, hms⟩ := hwatched
    refine ⟨?_, ?_⟩
    · intro a id
      rw [hms.inv.count a id, Finset.card_filter]
      congr 1
      exact Finset.sum_congr rfl fun i _ => countP_auditsBy hms (hended i) a id
    · intro grant
      rw [Finset.card_filter]
      refine Finset.sum_congr rfl ?_
      intro i _
      by_cases hrevokes : revokes grant (tasks i) = true
      · rw [if_pos hrevokes, length_auditsBy hms (hended i) hrevokes]
      · rw [if_neg hrevokes, revoked]
        simp [hrevokes]

def grantedWorld : World :=
  { bootedWorld with
    db :=
      { apiKeys := ⟨[sampleMaster.key,
          { sampleMaster.key with id := 2, name := "daughter", isMaster := false }], by decide⟩
        endpoints := .empty
        grants := ⟨[⟨7, 2, 3, "dmz", 0⟩], by decide⟩
        auditLogs := .empty } }

def revocations (_ : Bool) : Task := .request sampleMaster (.revokeKeyGroup (.ok (2, 7)))

/-- The second request begins when the first has ended, and has found the key. -/
def revokedInTurn : List (Event Bool Choice Change) :=
  [.act true .succeed, .act true .succeed, .act true .succeed, .act true (.uuid 8),
    .act true (.time 1), .act true .succeed, .act false .succeed]

/-- Both requests find the grant before either deletes it. -/
def revokedAtOnce : List (Event Bool Choice Change) :=
  [.act true .succeed, .act true .succeed, .act false .succeed, .act false .succeed,
    .act true .succeed, .act false .succeed, .act true (.uuid 8), .act true (.time 1),
    .act true .succeed, .act false (.uuid 9), .act false (.time 1), .act false .succeed]

/-- In turn: the first request counts, and the second does not find the grant. -/
theorem trail_counts_mutations_in_turn :
    ∃ p q, Interleaving.run (system sampleApp.crates) (process sampleApp revocations grantedWorld)
        revokedInTurn = some p ∧
      step (system sampleApp.crates) p (.act false .succeed) = some q ∧
      q.outcome true = some (some (.ok .noContent)) ∧
      q.outcome false = some (some (.error .notFound)) ∧
      (∃ mu row, mutationsBy (journalOf sampleApp revocations grantedWorld
            (revokedInTurn ++ [.act false .succeed])) true = [mu] ∧
          auditsBy (journalOf sampleApp revocations grantedWorld
            (revokedInTurn ++ [.act false .succeed])) true = [row] ∧
          Records (.revokeKeyGroup (.ok (2, 7))) mu row) ∧
      q.state.db.auditLogs.rows.countP (about .keyGroupRevoke 2) =
        (Finset.univ.filter fun i =>
          performed revocations (journalOf sampleApp revocations grantedWorld
          (revokedInTurn ++ [.act false .succeed])) .keyGroupRevoke 2 i = true).card := by
  have hends : (checkedRun (system sampleApp.crates)
      (fun p ev => revokesPresent p ev = true ∧ entersTrail p ev = true)
      (process sampleApp revocations grantedWorld) (revokedInTurn ++ [.act false .succeed])).map
        (fun q => (q.outcome true, q.outcome false)) =
      some (some (some (.ok .noContent)), some (some (.error .notFound))) := by
    rfl
  have hbegins : (Interleaving.run (system sampleApp.crates)
      (process sampleApp revocations grantedWorld) revokedInTurn).map
        (fun p => ((p.threads false).upcoming, (p.state.db.grants.find 7).isNone)) =
      some (some (.db (.findGrant 7)), true) := by
    rfl
  obtain ⟨q, hchecked, hq⟩ := Option.map_eq_some_iff.mp hends
  obtain ⟨htrue, hfalse⟩ := Prod.mk.inj hq
  obtain ⟨hrun, halong⟩ := checkedRun_eq_some hchecked
  obtain ⟨p, hbefore, hp⟩ := Option.map_eq_some_iff.mp hbegins
  obtain ⟨hupcoming, habsent⟩ := Prod.mk.inj hp
  have hstep : step (system sampleApp.crates) p (.act false .succeed) = some q := by
    rw [run_append_singleton, hbefore] at hrun
    exact hrun
  have hpresent : Along (system sampleApp.crates) (fun p ev => revokesPresent p ev = true)
      (process sampleApp revocations grantedWorld) (revokedInTurn ++ [.act false .succeed]) :=
    fun past ev rest p heq hpast => (halong past ev rest p heq hpast).1
  have hentered : Along (system sampleApp.crates) (fun p ev => entersTrail p ev = true)
      (process sampleApp revocations grantedWorld) (revokedInTurn ++ [.act false .succeed]) :=
    fun past ev rest p heq hpast => (halong past ev rest p heq hpast).2
  obtain ⟨-, hsucceeds, -, hcounts⟩ := trail_counts_mutations hrun hpresent
  obtain ⟨-, -, hmisses, -⟩ := trail_counts_mutations hbefore hpresent.init
  refine ⟨p, q, hbefore, hstep, htrue, ?_, ?_, ?_⟩
  · exact hmisses false .succeed q sampleMaster _ _ hstep (hpresent.last hbefore) rfl rfl nofun
      hupcoming habsent
  · rcases hsucceeds true sampleMaster _ _ rfl rfl htrue with ⟨⟨id, payload, hgrant⟩, -⟩ | hdone
    · cases hgrant
    · exact hdone
  · have hended : ∀ i caller r, revocations i = .request caller r →
        ∃ outcome, q.outcome i = some outcome
      | true, _, _, _ => ⟨_, htrue⟩
      | false, _, _, _ => ⟨_, hfalse⟩
    rw [(hcounts hentered hended).1 .keyGroupRevoke 2]
    exact Nat.zero_add _

/-- At once: both requests succeed and are on the trail, and only one has removed the
grant. -/
theorem revocation_counted_twice :
    ∃ p, Interleaving.run (system sampleApp.crates) (process sampleApp revocations grantedWorld)
        revokedAtOnce = some p ∧
      p.outcome true = some (some (.ok .noContent)) ∧
      p.outcome false = some (some (.ok .noContent)) ∧
      mutationsBy (journalOf sampleApp revocations grantedWorld revokedAtOnce) true =
        [.removedGrant 7] ∧
      mutationsBy (journalOf sampleApp revocations grantedWorld revokedAtOnce) false = [] ∧
      (auditsBy (journalOf sampleApp revocations grantedWorld revokedAtOnce) false).map (·.action) =
        ["KEY_GROUP_REVOKE"] ∧
      p.state.db.auditLogs.rows.countP (about .keyGroupRevoke 2) = 2 ∧
      (Finset.univ.filter fun i => revoked revocations
        (journalOf sampleApp revocations grantedWorld revokedAtOnce) 7 i = true).card = 1 := by
  have hends :
      (Interleaving.run (system sampleApp.crates) (process sampleApp revocations grantedWorld)
      revokedAtOnce).map (fun p => (p.outcome true, p.outcome false)) =
      some (some (some (.ok .noContent)), some (some (.ok .noContent))) := by
    rfl
  have hcounts :
      (Interleaving.run (system sampleApp.crates) (process sampleApp revocations grantedWorld)
      revokedAtOnce).map (fun p => p.state.db.auditLogs.rows.countP (about .keyGroupRevoke 2)) =
      some 2 := by
    decide +kernel
  obtain ⟨p, hrun, hp⟩ := Option.map_eq_some_iff.mp hends
  obtain ⟨htrue, hfalse⟩ := Prod.mk.inj hp
  rw [hrun] at hcounts
  exact ⟨p, hrun, htrue, hfalse, by decide +kernel, by decide +kernel, by decide +kernel,
    Option.some.inj hcounts, by decide +kernel⟩

end SimplyIpExporter.AuditCounts
