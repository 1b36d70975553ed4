import SimplyIpExporter.Bootstrap
import SimplyIpExporter.NetworkBindings

/-!
# Stored bindings parse

Handlers parse a binding before they store it; the start of the process stores
`BOOTSTRAP_SUBNET` as it is. So whether both paths can rely on stored bindings is
decided by that one value.
-/
namespace SimplyIpExporter.StoredBindings
open IpAddresses Entities BoundIps KeyedTables Storage Services Interleaving EndpointHandlers Routes
open WriteRules Bootstrap
open RequestAuthentication (parsedBinding)

/-- Every stored binding parses. -/
structure AllParse (crates : Crates) (db : Database) : Prop where
  keys : ∀ row ∈ db.apiKeys.rows, Parses crates row.boundIps
  endpoints : ∀ row ∈ db.endpoints.rows, Parses crates row.boundIps

section Steps
variable {app : AppState} {guarded : Uuid → Prop} {t : Task}

theorem AllParse.step {c : Call} {e : Choice} {s s' : World} {r : Answer c}
    (hpermits : permits (scopeOf app guarded t) c) (hexec : exec app.crates c e s = some (r, s'))
    (h : AllParse app.crates s.db) : AllParse app.crates s'.db := by
  constructor
  · intro row' hrow'
    rcases exec_keys hpermits hexec row' hrow' with hold | ⟨row, hrow, ch, rfl, -, hbound, -⟩ | hnew
    · exact h.keys row' hold
    · cases hset : ch.boundIps with
      | none => simpa [KeyChanges.apply, hset] using h.keys row hrow
      | some b =>
          have hparses : Parses app.crates b := hbound b hset
          simpa [KeyChanges.apply, hset] using hparses
    · exact hnew.2.1
  · intro row' hrow'
    rcases exec_endpoints hpermits hexec row' hrow' with
      hold | ⟨row, hrow, ch, rfl, hbound, -⟩ | hnew | ⟨row, hrow, owner, time, rfl⟩
    · exact h.endpoints row' hold
    · cases hset : ch.boundIps with
      | none => simpa [EndpointChanges.apply, hset] using h.endpoints row hrow
      | some b =>
          have hparses : Parses app.crates b := hbound b hset
          simpa [EndpointChanges.apply, hset] using hparses
    · exact hnew.1
    · exact h.endpoints row hrow

end Steps

section Branches
variable {crates : Crates} {db : Database}

/-- The middleware reads the binding of a stored key without an internal error. -/
theorem AllParse.parsedBinding_ok (h : AllParse crates db) {row : ApiKey}
    (hrow : row ∈ db.apiKeys.rows) : ∃ entries, parsedBinding crates row = .ok entries := by
  unfold parsedBinding
  cases hbound : row.boundIps with
  | none => exact ⟨[], rfl⟩
  | some raw =>
      obtain ⟨entries, hentries⟩ := h.keys row hrow raw hbound
      exact ⟨entries, by rw [Option.getD_some, hentries]⟩

/-- So does the feed with the binding of a stored endpoint. -/
theorem AllParse.checkBinding_ne (h : AllParse crates db) {row : Endpoint}
    (hrow : row ∈ db.endpoints.rows) (dns : String → List IpNet) (clientIp : IpAddr) :
    PublicFeed.checkBinding crates row.boundIps dns clientIp ≠ .error .internal := by
  unfold PublicFeed.checkBinding
  cases hset : row.boundIps.filter fun s => RustText.trim s != "" with
  | none => exact nofun
  | some raw =>
      obtain ⟨entries, hentries⟩ := h.endpoints row hrow raw (Option.filter_eq_some_iff.mp hset).1
      dsimp only
      rw [hentries]
      dsimp only
      split <;> exact nofun

end Branches

theorem allParse_of_bootstrap {crates : Crates} {env : BootEnv} {db : Database}
    (hboot : bootstrapMasterKey crates env .empty = (.ok (), db)) :
    AllParse crates db ↔ ∃ entries, parseBoundIps crates env.boundIp = .ok entries := by
  rcases bootstrapMasterKey_ok hboot with ⟨-, master, hmaster⟩ | ⟨-, stored, keys, -, hkeys, rfl⟩
  · cases hmaster
  · have hrows : keys.rows = [env.masterRow crates stored] := (Table.rows_insert hkeys).1
    constructor
    · intro h
      exact h.keys (env.masterRow crates stored) (by simp [hrows]) env.boundIp rfl
    · intro hparses
      constructor
      · intro row hrow raw hraw
        simp only [hrows, List.mem_singleton] at hrow
        subst hrow
        cases hraw
        exact hparses
      · intro row hrow
        cases hrow

/-- After a start that went well on an empty database: whatever requests and workers run
then, every stored binding parses and neither path meets its internal error, exactly
when the value of `BOOTSTRAP_SUBNET` (or its default) parses. -/
theorem stored_bindings_parse_iff {app : AppState} {env : BootEnv} {db : Database}
    (hboot : bootstrapMasterKey app.crates env .empty = (.ok (), db)) :
    (∀ (I : Type) [DecidableEq I] (tasks : I → Task) (w : World)
        (events : List (Event I Choice Change)) (p : Process I), w.db = db →
      run (system app.crates) (process app tasks w) events = some p →
      (∀ row ∈ p.state.db.apiKeys.rows, Parses app.crates row.boundIps ∧
        ∃ entries, parsedBinding app.crates row = .ok entries) ∧
      ∀ row ∈ p.state.db.endpoints.rows, Parses app.crates row.boundIps ∧
        ∀ dns clientIp, PublicFeed.checkBinding app.crates row.boundIps dns clientIp ≠
          .error .internal) ↔
    ∃ entries, parseBoundIps app.crates env.boundIp = .ok entries := by
  rw [← allParse_of_bootstrap hboot]
  constructor
  · intro hruns
    have hstart := hruns Unit (fun _ => .cleanup) ⟨db, [], ∅, ∅, 0, 0⟩ [] _ rfl rfl
    exact ⟨fun row hrow => (hstart.1 row hrow).1, fun row hrow => (hstart.2 row hrow).1⟩
  · intro hstart I _ tasks w events p hw hrun
    subst hw
    have hend : AllParse app.crates p.state.db :=
      run_keeps (fun _ => False) (AllParse app.crates) (fun _ _ _ hfalse => hfalse.elim)
        (fun t c e s s' r hpermits hexec h => h.step hpermits hexec) hstart hrun
    exact ⟨fun row hrow => ⟨hend.keys row hrow, hend.parsedBinding_ok hrow⟩,
      fun row hrow => ⟨hend.endpoints row hrow, hend.checkBinding_ne hrow⟩⟩

/-- A start that binds the Master to one address. -/
def boundBoot : BootEnv := { sampleBoot with bootstrapSubnet := some "192.0.2.7" }

/-- A start with a network that has too many leading bits. -/
def misboundBoot : BootEnv := { sampleBoot with bootstrapSubnet := some "10.0.0.0/99" }

theorem stored_bindings_parse_bound :
    bootstrapMasterKey sampleApp.crates boundBoot .empty =
      (.ok (), (bootstrapMasterKey sampleApp.crates boundBoot .empty).2) ∧
    ∀ (tasks : Unit → Task) (w : World) (events : List (Event Unit Choice Change)) (p :
      Process Unit), w.db = (bootstrapMasterKey sampleApp.crates boundBoot .empty).2 →
      run (system sampleApp.crates) (process sampleApp tasks w) events = some p →
      ∀ row ∈ p.state.db.apiKeys.rows, Parses sampleApp.crates row.boundIps :=
  have hboot : bootstrapMasterKey sampleApp.crates boundBoot .empty =
      (.ok (), (bootstrapMasterKey sampleApp.crates boundBoot .empty).2) :=
    Prod.ext (by decide +kernel) rfl
  have hparses : ∃ entries, parseBoundIps sampleApp.crates boundBoot.boundIp = .ok entries :=
    ⟨[.network (.fromAddr (.v4 0xc0000207#32))], by decide +kernel⟩
  ⟨hboot, fun tasks w events p hw hrun row hrow =>
    (((stored_bindings_parse_iff hboot).mpr hparses Unit tasks w events p hw hrun).1 row hrow).1⟩

/-- The start goes well, and no request of the Master passes the middleware's binding
check afterwards. -/
theorem misbound_master_internal :
    (bootstrapMasterKey sampleCrates misboundBoot .empty).1 = .ok () ∧
    ∃ row ∈ (bootstrapMasterKey sampleCrates misboundBoot .empty).2.apiKeys.rows,
      row.boundIps = some "10.0.0.0/99" ∧
      parsedBinding sampleCrates row = .error (.refused .internal) := by
  refine ⟨?_, misboundBoot.masterRow sampleCrates misboundBoot.signingSecret, ?_, rfl, ?_⟩
  · decide +kernel
  · decide +kernel
  · decide +kernel

end SimplyIpExporter.StoredBindings
