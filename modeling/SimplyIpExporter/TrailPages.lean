import SimplyIpExporter.OffsetPages
import SimplyIpExporter.TrailHistory

/-!
# Reading the trail page by page

The dashboard takes the trail in pages by offset, newest first, and goes on for as long as
a page is full. Requests add entries between one page and the next. An entry moves to
later pages only, so the pages together hold every entry that was there when the first one
was read. Entries of one and the same time are listed in an order that the query leaves
open; what is shown here is about times that differ.
-/
namespace SimplyIpExporter.TrailPages
open Entities Storage Services Programs Interleaving EndpointHandlers KeyHandlers Routes Mutations
open OffsetPages TrailHistory

/-- The entries that a query is about. -/
def sought (action : Option String) (rows : List AuditLog) : List AuditLog :=
  rows.filter fun r => action.all (r.action = ·)

def newestFirst (rows : List AuditLog) : List AuditLog :=
  rows.mergeSort fun a b => decide (b.timestamp ≤ a.timestamp)

theorem auditPage_eq (db : Database) (action : Option String) (limit offset : ℕ) :
    db.auditPage action limit offset =
      page limit offset (newestFirst (sought action db.auditLogs.rows)) :=
  rfl

theorem newestFirst_descending {rows : List AuditLog} (h : (rows.map AuditLog.timestamp).Nodup) :
    Descending AuditLog.timestamp (newestFirst rows) := by
  have hsorted : (newestFirst rows).Pairwise fun a b =>
      decide (b.timestamp ≤ a.timestamp) = true := by
    refine List.pairwise_mergeSort ?_ ?_ rows
    · intro a b c hab hbc
      simp only [decide_eq_true_eq] at hab hbc ⊢
      exact hbc.trans hab
    · intro a b
      simpa using le_total b.timestamp a.timestamp
  have hdistinct : ((newestFirst rows).map AuditLog.timestamp).Nodup :=
    ((List.mergeSort_perm rows _).map _).nodup_iff.mpr h
  refine (hsorted.and (List.pairwise_map.mp hdistinct)).imp ?_
  rintro a b ⟨hle, hne⟩
  exact lt_of_le_of_ne (of_decide_eq_true hle) (Ne.symm hne)

/-- Which page an entry is on. -/
theorem mem_auditPage {db : Database} {action : Option String} {limit offset : ℕ} {row : AuditLog}
    (hdistinct : (db.auditLogs.rows.map AuditLog.timestamp).Nodup)
    (hrow : row ∈ sought action db.auditLogs.rows)
    (hlow : offset ≤ rank AuditLog.timestamp (sought action db.auditLogs.rows) row)
    (hhigh : rank AuditLog.timestamp (sought action db.auditLogs.rows) row < offset + limit) :
    row ∈ db.auditPage action limit offset := by
  have hperm : (newestFirst (sought action db.auditLogs.rows)).Perm
      (sought action db.auditLogs.rows) :=
    List.mergeSort_perm _ _
  have hdesc : Descending AuditLog.timestamp (newestFirst (sought action db.auditLogs.rows)) :=
    newestFirst_descending (hdistinct.sublist (List.filter_sublist.map _))
  rw [← rank_perm hperm] at hlow hhigh
  rw [auditPage_eq]
  exact hdesc.mem_page (hperm.mem_iff.mpr hrow) hlow hhigh

section Growth
variable {gone : Uuid → Prop} {made : AuditLog → Prop} {rows rows' : List AuditLog}

theorem Grows.distinct (h : Grows gone made rows rows')
    (hdistinct : (rows'.map AuditLog.timestamp).Nodup) : (rows.map AuditLog.timestamp).Nodup := by
  obtain ⟨fade, added, hfade, rfl, -⟩ := h
  have hsame : (rows.map fade).map AuditLog.timestamp = rows.map AuditLog.timestamp := by
    rw [List.map_map]
    exact List.map_congr_left fun row _ => (hfade row).timestamp
  rw [List.map_append, hsame] at hdistinct
  exact hdistinct.sublist (List.sublist_append_left _ _)

theorem sought_append_map {fade : AuditLog → AuditLog} (hfade : ∀ row, Faded gone row (fade row))
    (action : Option String) (rows added : List AuditLog) :
    sought action (rows.map fade ++ added) =
      (sought action rows).map fade ++ sought action added := by
  simp only [sought, List.filter_append, List.filter_map, Function.comp_def, (hfade _).action]

theorem Grows.exists_mem (h : Grows gone made rows rows') {action : Option String} {row : AuditLog}
    (hrow : row ∈ sought action rows) : ∃ row' ∈ sought action rows', Faded gone row row' := by
  obtain ⟨fade, added, hfade, rfl, -⟩ := h
  rw [sought_append_map hfade]
  exact ⟨fade row, List.mem_append_left _ (List.mem_map_of_mem hrow), hfade row⟩

/-- Entries are only moved to later pages. -/
theorem Grows.rank_le (h : Grows gone made rows rows') (action : Option String) (row : AuditLog) :
    rank AuditLog.timestamp (sought action rows) row ≤
      rank AuditLog.timestamp (sought action rows') row := by
  obtain ⟨fade, added, hfade, rfl, -⟩ := h
  have hsame : rank AuditLog.timestamp ((sought action rows).map fade) row =
      rank AuditLog.timestamp (sought action rows) row := by
    simp only [rank, List.countP_map, Function.comp_def, (hfade _).timestamp]
  rw [sought_append_map hfade, rank_append, hsame]
  exact Nat.le_add_right _ _

end Growth

section Reading
variable {I : Type}

/-- Requests of the Master for the pages up to one of them, each answered before the next is
sent: the events up to the moment each of them reads the trail, and those after it. -/
structure Reading (tasks : I → Task) (action : Option String) (limit last : ℕ)
    (events : List (Event I Choice Change)) where
  caller : Caller
  isMaster : caller.key.isMaster = true
  reader : ℕ → I
  asks : ∀ j ≤ last, tasks (reader j) =
    .request caller (.listAuditLogs (.ok ⟨action, some limit, some (j * limit)⟩))
  past : ℕ → List (Event I Choice Change)
  rest : ℕ → List (Event I Choice Change)
  choice : ℕ → Choice
  reads : ∀ j ≤ last, events = past j ++ .act (reader j) (choice j) :: rest j
  inOrder : ∀ j < last, (past j).length ≤ (past (j + 1)).length

/-- What the dashboard's filter of actions comes to. -/
def filtered (action : Option String) : Option String := action.filter (· != "")

/-- What a request for a page answers. -/
def listed : Except DbErr (List AuditLog) → Except AppError Response
  | .ok rows => .ok (.logs rows)
  | .error e => .error (.dbError e)

theorem listAuditLogs_program (app : AppState) {caller : Caller}
    (hmaster : caller.key.isMaster = true) (action : Option String) {limit : ℕ}
    (hlimit : limit ≤ 500) (offset : ℕ) :
    (Task.request caller (.listAuditLogs (.ok ⟨action, some limit, some offset⟩))).program app =
      .call (.db (.auditPage (filtered action) limit offset)) fun answer =>
        .pure (some (listed answer)) := by
  have hlist : listAuditLogs caller ⟨action, some limit, some offset⟩ =
      statement (.auditPage (filtered action) limit offset) := by
    have hmin : min ((some limit).getD 50) 500 = limit := Nat.min_eq_left hlimit
    rw [listAuditLogs, if_pos hmaster, hmin]
    rfl
  have hhandle : handle app caller (.listAuditLogs (.ok ⟨action, some limit, some offset⟩)) =
      answer .logs (listAuditLogs caller ⟨action, some limit, some offset⟩) := rfl
  rw [Task.program, hhandle, hlist]
  refine congrArg (Program.call _) (funext fun reply => ?_)
  cases reply <;> rfl

variable [DecidableEq I] {app : AppState} {tasks : I → Task} {w₀ : World}
  {events : List (Event I Choice Change)} {action : Option String} {limit last : ℕ} {q : Process I}

/-- A page that was answered is one of the trail as it was when the request read it. -/
theorem Reading.page (walk : Reading tasks action limit last events) (hlimit : limit ≤ 500)
    (hrun : Interleaving.run (system app.crates) (process app tasks w₀) events = some q) {j : ℕ}
    (hj : j ≤ last) {rows : List AuditLog}
    (hanswer : q.outcome (walk.reader j) = some (some (.ok (.logs rows)))) :
    ∃ p, Interleaving.run (system app.crates) (process app tasks w₀) (walk.past j) = some p ∧
      rows = p.state.db.auditPage (filtered action) limit (j * limit) := by
  rw [walk.reads j hj] at hrun
  obtain ⟨p, hp, -⟩ := Option.bind_eq_some_iff.mp ((run_append _ _ _ _).symm.trans hrun)
  refine ⟨p, hp, ?_⟩
  have hstart : (process app tasks w₀).threads (walk.reader j) = _ :=
    (congrArg (Task.program app) (walk.asks j hj)).trans
      (listAuditLogs_program app walk.isMaster action hlimit (j * limit))
  obtain ⟨r, s', hexec, hend⟩ := outcome_of_single hstart (fun r => ⟨_, rfl⟩) hp hrun
  have houtcome : q.outcome (walk.reader j) = some (some (listed r)) :=
    Pool.outcome_eq_some.mpr hend
  have hlisted := Option.some.inj (Option.some.inj (houtcome.symm.trans hanswer))
  cases r with
  | error e => cases hlisted
  | ok found =>
      have hread : exec app.crates (.db (.auditPage (filtered action) limit (j * limit)))
          (walk.choice j)
          p.state = some (.ok found, s') := hexec
      obtain ⟨db, hquery, -, -⟩ := exec_db_ok hread
      cases hquery
      cases hlisted
      rfl

omit [DecidableEq I] in
theorem Reading.past_append (walk : Reading tasks action limit last events) {i j : ℕ} (hij : i ≤ j)
    (hj : j ≤ last) : ∃ between, walk.past j = walk.past i ++ between := by
  have hlength : (walk.past i).length ≤ (walk.past j).length := by
    induction j, hij using Nat.le_induction with
    | base => exact le_rfl
    | succ j _ ih => exact (ih (by omega)).trans (walk.inOrder j (by omega))
  have hi : walk.past i <+: events := ⟨_, (walk.reads i (hij.trans hj)).symm⟩
  have hj' : walk.past j <+: events := ⟨_, (walk.reads j hj).symm⟩
  obtain ⟨between, hbetween⟩ := List.prefix_of_prefix_length_le hi hj' hlength
  exact ⟨between, hbetween.symm⟩

/-- The Master reads the trail page by page until one is not full, while any other tasks are
under way. If no two entries have the same time, every entry that was there when the first
page was read and has the action asked for is on one of the pages, with all it says but for
the reference to a key that has been deleted meanwhile. -/
theorem audit_walk_complete (walk : Reading tasks action limit last events) (hlimit : limit ≤ 500)
    (hrun : Interleaving.run (system app.crates) (process app tasks w₀) events = some q)
    {pages : ℕ → List AuditLog}
    (hpages : ∀ j ≤ last, q.outcome (walk.reader j) = some (some (.ok (.logs (pages j)))))
    (hshort : (pages last).length < limit)
    (hdistinct : (q.state.db.auditLogs.rows.map AuditLog.timestamp).Nodup) {p : Process I}
    (hp : Interleaving.run (system app.crates) (process app tasks w₀) (walk.past 0) = some p) :
    ∀ row ∈ p.state.db.auditLogs.rows, (filtered action).all (row.action = ·) = true →
      ∃ j ≤ last, ∃ row' ∈ pages j, Faded (DeletedBy tasks events) row row' := by
  intro row hmem haction
  have hrow : row ∈ sought (filtered action) p.state.db.auditLogs.rows :=
    List.mem_filter.mpr ⟨hmem, haction⟩
  have hstates : ∀ j, ∃ s, j ≤ last →
      Interleaving.run (system app.crates) (process app tasks w₀) (walk.past j) = some s ∧
        pages j = s.state.db.auditPage (filtered action) limit (j * limit) := by
    intro j
    by_cases hj : j ≤ last
    · obtain ⟨s, hs⟩ := walk.page hlimit hrun hj (hpages j hj)
      exact ⟨s, fun _ => hs⟩
    · exact ⟨q, fun hle => absurd hle hj⟩
  choose states hstates using hstates
  -- the trail at the moment of one page, at that of a later one, and at the end
  have hgrows : ∀ i j, i ≤ j → j ≤ last → ∃ between, walk.past j = walk.past i ++ between ∧
      Grows (DeletedBy tasks between) (MadeBy tasks between)
        (states i).state.db.auditLogs.rows (states j).state.db.auditLogs.rows := by
    intro i j hij hj
    obtain ⟨between, hbetween⟩ := walk.past_append hij hj
    have hlater := (hstates j hj).1
    rw [hbetween] at hlater
    exact ⟨between, hbetween, run_grows (hstates i (hij.trans hj)).1 hlater⟩
  have htimes : ∀ j ≤ last, ((states j).state.db.auditLogs.rows.map AuditLog.timestamp).Nodup := by
    intro j hj
    have hend := hrun
    rw [walk.reads j hj] at hend
    exact Grows.distinct (run_grows (hstates j hj).1 hend) hdistinct
  have hfound : ∀ j ≤ last, ∃ row' ∈ sought (filtered action) (states j).state.db.auditLogs.rows,
      Faded (DeletedBy tasks events) row row' := by
    intro j hj
    obtain ⟨between, hbetween, hgrown⟩ := hgrows 0 j (Nat.zero_le j) hj
    cases hp.symm.trans (hstates 0 (Nat.zero_le last)).1
    obtain ⟨row', hrow', hfaded⟩ := Grows.exists_mem hgrown hrow
    refine ⟨row', hrow', hfaded.mono ?_⟩
    rintro key ⟨i, caller, r, e, ht, hact, hkey⟩
    refine ⟨i, caller, r, e, ht, ?_, hkey⟩
    rw [walk.reads j hj, hbetween]
    simp [hact]
  have hrise : ∀ j < last,
      rank AuditLog.timestamp (sought (filtered action) (states j).state.db.auditLogs.rows) row ≤
        rank AuditLog.timestamp (sought (filtered action) (states (j + 1)).state.db.auditLogs.rows)
          row := by
    intro j hj
    obtain ⟨between, -, hgrown⟩ := hgrows j (j + 1) (Nat.le_succ j) hj
    exact Grows.rank_le hgrown _ row
  have hend : rank AuditLog.timestamp
      (sought (filtered action) (states last).state.db.auditLogs.rows) row <
      last * limit + limit := by
    obtain ⟨row', hrow', hfaded⟩ := hfound last le_rfl
    rw [(hstates last le_rfl).2, auditPage_eq] at hshort
    have hlength := length_le_of_short hshort
    rw [newestFirst, List.length_mergeSort] at hlength
    rw [rank_congr hfaded.timestamp.symm]
    exact (rank_lt_length hrow').trans hlength
  obtain ⟨j, hj, hlow, hhigh⟩ := exists_page (fun j => rank AuditLog.timestamp
    (sought (filtered action) (states j).state.db.auditLogs.rows) row) hrise hend
  obtain ⟨row', hrow', hfaded⟩ := hfound j hj
  refine ⟨j, hj, row', ?_, hfaded⟩
  rw [(hstates j hj).2]
  rw [rank_congr hfaded.timestamp.symm] at hlow hhigh
  exact mem_auditPage (htimes j hj) hrow' hlow hhigh

end Reading

/-- Two entries on the trail. -/
def readWorld : World :=
  { Bootstrap.bootedWorld with
    db :=
      { Bootstrap.bootedWorld.db with
        auditLogs := ⟨[sampleEntry, { sampleEntry with id := 4, timestamp := 1 }], by decide⟩ } }

/-- Two pages of two entries are asked for, and an endpoint is created. -/
def readTasks : Option ℕ → Task
  | some j => .request Bootstrap.sampleMaster (.listAuditLogs (.ok ⟨none, some 2, some (j * 2)⟩))
  | none => .request Bootstrap.sampleMaster DaughterConfinement.sampleCreation

def creationChoices : List (Event (Option ℕ) Choice Change) :=
  [.time 2, .uuid 5, .bytes (List.replicate 16 0), .succeed, .uuid 6, .time 3, .succeed].map
    (.act none)

def readSteps : List (Event (Option ℕ) Choice Change) :=
  .act (some 0) .succeed :: (creationChoices ++ [.act (some 1) .succeed])

def sampleReading : Reading readTasks none 2 1 readSteps where
  caller := Bootstrap.sampleMaster
  isMaster := rfl
  reader := some
  asks _ _ := rfl
  past j := if j = 0 then [] else .act (some 0) .succeed :: creationChoices
  rest j := if j = 0 then creationChoices ++ [.act (some 1) .succeed] else []
  choice _ := .succeed
  reads j hj := by
    obtain rfl | rfl := Nat.le_one_iff_eq_zero_or_eq_one.mp hj <;> rfl
  inOrder j hj := by
    obtain rfl := Nat.lt_one_iff.mp hj
    exact Nat.zero_le _

/-- What a finished request for a page has listed. -/
def listing : Option (Option (Except AppError Response)) → Option (List AuditLog)
  | some (some (.ok (.logs rows))) => some rows
  | _ => none

theorem eq_of_listing {outcome : Option (Option (Except AppError Response))} {rows : List AuditLog}
    (h : listing outcome = some rows) : outcome = some (some (.ok (.logs rows))) := by
  unfold listing at h
  split at h
  · rw [Option.some.inj h]
  · cases h

/-- The endpoint's entry moves the second page on by one, and neither of the two is missed. -/
theorem audit_walk_complete_interrupted :
    ∃ (q : Process (Option ℕ)) (pages : ℕ → List AuditLog),
      Interleaving.run (system sampleApp.crates) (process sampleApp readTasks readWorld) readSteps =
        some q ∧ q.state.db.auditLogs.rows.length = 3 ∧ (pages 1).length < 2 ∧
      (∀ j ≤ 1, q.outcome (some j) = some (some (.ok (.logs (pages j))))) ∧
      ∀ row ∈ readWorld.db.auditLogs.rows, ∃ j ≤ 1, ∃ row' ∈ pages j,
        Faded (DeletedBy readTasks readSteps) row row' := by
  have hends : (Interleaving.run (system sampleApp.crates) (process sampleApp readTasks readWorld)
      readSteps).map (fun q => (q.state.db.auditLogs.rows.map AuditLog.timestamp,
        (listing (q.outcome (some 0))).isSome, (listing (q.outcome (some 1))).isSome)) =
      some ([0, 1, 3], true, true) := by
    decide +kernel
  obtain ⟨q, hrun, hends⟩ := Option.map_eq_some_iff.mp hends
  simp only [Prod.mk.injEq, Option.isSome_iff_exists] at hends
  obtain ⟨htimes, ⟨first, hfirst⟩, second, hsecond⟩ := hends
  have hlength : q.state.db.auditLogs.rows.length = 3 := by
    simpa using congrArg List.length htimes
  have hpages : ∀ j ≤ 1, q.outcome (sampleReading.reader j) =
      some (some (.ok (.logs (if j = 0 then first else second)))) := by
    intro j hj
    obtain rfl | rfl := Nat.le_one_iff_eq_zero_or_eq_one.mp hj
    · exact eq_of_listing hfirst
    · exact eq_of_listing hsecond
  have hshort : second.length < 2 := by
    obtain ⟨p, hp, rfl⟩ := sampleReading.page (by decide) hrun le_rfl (hpages 1 le_rfl)
    have hsteps : readSteps = sampleReading.past 1 ++ [.act (some 1) .succeed] := rfl
    rw [hsteps] at hrun
    obtain ⟨fade, added, -, hrows, -⟩ := run_grows hp hrun
    have hle : (sought none p.state.db.auditLogs.rows).length ≤ 3 :=
      (List.length_filter_le _ _).trans (by simp [← hlength, hrows])
    rw [auditPage_eq, page, List.length_take, List.length_drop, newestFirst, List.length_mergeSort]
    exact (min_le_right _ _).trans_lt (by simpa [filtered] using by omega)
  have hdistinct : (q.state.db.auditLogs.rows.map AuditLog.timestamp).Nodup := by
    rw [htimes]
    decide
  refine ⟨q, _, hrun, hlength, hshort, hpages, fun row hrow => ?_⟩
  exact audit_walk_complete sampleReading (by decide) hrun hpages hshort hdistinct rfl row hrow rfl

end SimplyIpExporter.TrailPages
