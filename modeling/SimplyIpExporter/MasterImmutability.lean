import SimplyIpExporter.Bootstrap

/-!
# The Master row does not change

Whatever requests are served after a start, one row carries the Master flag, it is the
row of the start, and nothing of it has changed but its binding and the time of the
last change. A further start finds it and writes nothing.
-/
namespace SimplyIpExporter.MasterImmutability
open Entities KeyedTables Storage Services Interleaving EndpointHandlers Routes WriteRules Bootstrap

/-- The row with the identifier differs from the one at the start in its binding and the
time of change at most, and no other row is a Master's. -/
structure Unchanged (master : ApiKey) (db : Database) : Prop where
  kept : ∃ row, db.apiKeys.find master.id = some row ∧
    row = { master with boundIps := row.boundIps, updatedAt := row.updatedAt }
  only : ∀ row ∈ db.apiKeys.rows, row.isMaster = true → row.id = master.id

theorem Unchanged.onlyMaster {master : ApiKey} {db : Database} (h : Unchanged master db)
    (hmaster : master.isMaster = true) : OnlyMaster master.id db where
  present := by
    obtain ⟨row, hfind, hrow⟩ := h.kept
    refine ⟨row, hfind, ?_⟩
    rw [hrow]
    exact hmaster
  only := h.only

theorem Unchanged.step {app : AppState} {t : Task} {master : ApiKey} {c : Call} {e : Choice}
    {s s' : World} {r : Answer c} (hpermits : permits (scopeOf app (· = master.id) t) c)
    (hexec : exec app.crates c e s = some (r, s')) (h : Unchanged master s.db) :
    Unchanged master s'.db := by
  constructor
  · obtain ⟨row, hfind, hrow⟩ := h.kept
    obtain ⟨row', hfind', hrow'⟩ := exec_guarded hpermits hexec rfl hfind
    refine ⟨row', hfind', ?_⟩
    rw [hrow] at hrow'
    exact hrow'
  · intro row' hrow' hflag
    rcases exec_keys hpermits hexec row' hrow' with hold | ⟨row, hrow, ch, rfl, -⟩ | hnew
    · exact h.only row' hold hflag
    · exact h.only row hrow hflag
    · rw [hnew.1] at hflag
      cases hflag

/-- After a start that went well on a table with at most one Master row, and after any
run of any requests and workers: exactly one row is a Master's, it is the row of the
start with nothing changed but its binding and the time of change, and a further start
leaves the database as it is. -/
theorem master_row_immutable {I : Type} [DecidableEq I] {app : AppState} {env : BootEnv}
    {db₀ : Database} {tasks : I → Task} {w : World} {events : List (Event I Choice Change)}
    {p : Process I} (hone : (db₀.apiKeys.rows.filter (·.isMaster)).length ≤ 1)
    (hboot : bootstrapMasterKey app.crates env db₀ = (.ok (), w.db))
    (hrun : run (system app.crates) (process app tasks w) events = some p) :
    ∃ master row, w.db.apiKeys.rows.filter (·.isMaster) = [master] ∧
      p.state.db.apiKeys.rows.filter (·.isMaster) = [row] ∧
      row = { master with boundIps := row.boundIps, updatedAt := row.updatedAt } ∧
      ∀ crates' env', (bootstrapMasterKey crates' env' p.state.db).2 = p.state.db := by
  obtain ⟨id, honly⟩ := onlyMaster_of_bootstrap hone hboot
  obtain ⟨master, hfind, hfilter⟩ := honly.filter_eq
  have hid : master.id = id := (Table.find_eq_some.mp hfind).2
  have hmem : master ∈ w.db.apiKeys.rows.filter (·.isMaster) := by simp [hfilter]
  have hmaster : master.isMaster = true := (List.mem_filter.mp hmem).2
  have hstart : Unchanged master w.db := by
    subst hid
    exact ⟨⟨master, hfind, rfl⟩, honly.only⟩
  have hflag : ∀ db, Unchanged master db → ∀ id', id' = master.id → ∀ row,
      db.apiKeys.find id' = some row → row.isMaster = true := by
    rintro db h _ rfl row hrow
    obtain ⟨row', hrow', hflag'⟩ := (h.onlyMaster hmaster).present
    rw [hrow] at hrow'
    cases hrow'
    exact hflag'
  have hend : Unchanged master p.state.db :=
    run_keeps (· = master.id) (Unchanged master) hflag
      (fun t c e s s' r hpermits hexec h => h.step hpermits hexec) hstart hrun
  have hendOnly := hend.onlyMaster hmaster
  obtain ⟨row, hrow, hrowFilter⟩ := hendOnly.filter_eq
  obtain ⟨row', hrow', hsame⟩ := hend.kept
  rw [hrow] at hrow'
  cases hrow'
  refine ⟨master, row, hfilter, hrowFilter, hsame, ?_⟩
  intro crates' env'
  exact bootstrapMasterKey_writes_nothing (hendOnly.findMaster_eq.trans hrow) crates' env'

/-- A first start, and then the Master creates a key. -/
theorem master_row_immutable_minting :
    (Database.empty.apiKeys.rows.filter (·.isMaster)).length ≤ 1 ∧
    bootstrapMasterKey sampleApp.crates sampleBoot .empty = (.ok (), bootedWorld.db) ∧
    ∃ p, run (system sampleApp.crates)
        (process sampleApp (fun _ : Unit => .request sampleMaster sampleMinting) bootedWorld)
        (mintingChoices.map (.act ())) = some p ∧
      p.state.db.apiKeys.rows.map (·.isMaster) = [true, false] ∧
      ∃ master row, bootedWorld.db.apiKeys.rows.filter (·.isMaster) = [master] ∧
        p.state.db.apiKeys.rows.filter (·.isMaster) = [row] ∧
        row = { master with boundIps := row.boundIps, updatedAt := row.updatedAt } := by
  have hmints : (run (system sampleApp.crates)
      (process sampleApp (fun _ : Unit => .request sampleMaster sampleMinting) bootedWorld)
      (mintingChoices.map (.act ()))).map (fun p => p.state.db.apiKeys.rows.map (·.isMaster)) =
        some [true, false] := by
    decide +kernel
  obtain ⟨p, hrun, hrows⟩ := Option.map_eq_some_iff.mp hmints
  have hone : (Database.empty.apiKeys.rows.filter (·.isMaster)).length ≤ 1 := by decide
  obtain ⟨master, row, hstart, hend, hsame, -⟩ := master_row_immutable hone bootedWorld_boot hrun
  exact ⟨hone, bootedWorld_boot, p, hrun, hrows, master, row, hstart, hend, hsame⟩

end SimplyIpExporter.MasterImmutability
