import SimplyIpExporter.DaughterPolicy

/-!
# A daughter key stays within its own endpoints

Whatever a key that is not the Master sends to any route, and however the
statements of the request fare, the request leaves keys and grants alone, changes
only rows of its own, moves no endpoint and no token, creates at most one endpoint
and shows only what belongs to it.
-/
namespace SimplyIpExporter.DaughterConfinement
open Entities KeyedTables Storage Services Programs EndpointHandlers Routes DaughterPolicy

/-- An endpoint of somebody else, or of nobody. -/
def foreign (key : Uuid) (row : Endpoint) : Bool := decide (row.ownerKeyId ≠ some key)

/-- What a request of the key may have done to the tables. -/
structure Confined (key : Uuid) (before after : Database) : Prop where
  apiKeys : after.apiKeys = before.apiKeys
  grants : after.grants = before.grants
  others : after.endpoints.rows.filter (foreign key) = before.endpoints.rows.filter (foreign key)
  fixed : ∀ row ∈ before.endpoints.rows, ∀ row' ∈ after.endpoints.rows, row'.id = row.id →
    row'.ownerKeyId = row.ownerKeyId ∧ row'.tokenSecret = row.tokenSecret
  own : ∀ row ∈ after.endpoints.rows, before.endpoints.find row.id = none →
    row.ownerKeyId = some key
  once : ∀ row ∈ after.endpoints.rows, ∀ row' ∈ after.endpoints.rows,
    before.endpoints.find row.id = none → before.endpoints.find row'.id = none → row = row'

/-- The state in the middle of a request that started from `before`. -/
structure Midway (key : Uuid) (before : Database) (w : Watch) (s : World) : Prop where
  confined : Confined key before s.db
  gone : ∀ id, before.endpoints.find id ≠ none → s.db.endpoints.find id = none → id ∈ s.retired
  unborn : w.created = false → ∀ row ∈ s.db.endpoints.rows, before.endpoints.find row.id ≠ none
  mine : ∀ id ∈ w.mine, ∀ row, s.db.endpoints.find id = some row → row.ownerKeyId = some key

section Steps
variable {key : Uuid} {before : Database} {w w' : Watch} {s s' : World}

theorem Midway.start (s : World) : Midway key s.db .start s where
  confined :=
    { apiKeys := rfl
      grants := rfl
      others := rfl
      fixed := by
        intro row hrow row' hrow' hid
        rw [s.db.endpoints.eq_of_key hrow' hrow hid]
        exact ⟨rfl, rfl⟩
      own := by
        intro row hrow hnone
        exact absurd rfl (Table.find_eq_none.mp hnone row hrow)
      once := by
        intro row hrow _ _ hnone
        exact absurd rfl (Table.find_eq_none.mp hnone row hrow) }
  gone := by
    intro id hsome hnone
    exact absurd hnone hsome
  unborn := by
    intro _ row hrow hnone
    exact Table.find_eq_none.mp hnone row hrow rfl
  mine := by
    intro id hid
    cases hid

/-- Calls that do not touch keys, grants or endpoints. -/
theorem Midway.frame (h : Midway key before w s) (hkeys : s'.db.apiKeys = s.db.apiKeys)
    (hgrants : s'.db.grants = s.db.grants) (hends : s'.db.endpoints = s.db.endpoints)
    (hretired : s'.retired = s.retired) : Midway key before w s' := by
  obtain ⟨⟨h1, h2, h3, h4, h5, h6⟩, h7, h8, h9⟩ := h
  refine ⟨⟨hkeys.trans h1, hgrants.trans h2, ?_, ?_, ?_, ?_⟩, ?_, ?_, ?_⟩ <;> rw [hends]
  · exact h3
  · exact h4
  · exact h5
  · exact h6
  · rw [hretired]
    exact h7
  · exact h8
  · exact h9

/-- What the request has learned is still true if the tables have not moved. -/
theorem Midway.learn (h : Midway key before w s) (hlearns : Learns key s w w') :
    Midway key before w' s where
  confined := h.confined
  gone := h.gone
  unborn := by
    intro hfalse
    exact h.unborn (hlearns.created hfalse)
  mine := by
    intro id hid row hrow
    rcases hlearns.mine id hid with hold | ⟨row', hfind, howner⟩
    · exact h.mine id hold row hrow
    · rw [hfind] at hrow
      cases hrow
      exact howner

/-- Identifiers of deleted endpoints do not come back, so a new row is new for the
whole request. -/
theorem Midway.insert (h : Midway key before w s) {row : Endpoint}
    {t : Table Endpoint Uuid Endpoint.id} (hinsert : s.db.endpoints.insert row = some t)
    (howner : row.ownerKeyId = some key) (hfirst : w.created = false) (hfresh : row.id ∉ s.retired)
    (hkeys : s'.db.apiKeys = s.db.apiKeys) (hgrants : s'.db.grants = s.db.grants)
    (hends : s'.db.endpoints = t) (hids : IdsKept s s') :
    Midway key before { w with created := true } s' := by
  obtain ⟨hrows, hnone⟩ := Table.rows_insert hinsert
  have hnew : before.endpoints.find row.id = none := by
    by_contra hsome
    exact hfresh (h.gone row.id hsome hnone)
  have hmem : ∀ r, r ∈ t.rows ↔ r ∈ s.db.endpoints.rows ∨ r = row := by
    intro r
    rw [hrows, List.mem_append, List.mem_singleton]
  refine ⟨⟨hkeys.trans h.confined.apiKeys, hgrants.trans h.confined.grants, ?_, ?_, ?_, ?_⟩,
    hids.since h.gone, ?_, ?_⟩
  · rw [hends, hrows, List.filter_append, h.confined.others]
    simp [foreign, howner]
  · intro old hold r hr hid
    rw [hends, hmem] at hr
    rcases hr with hr | rfl
    · exact h.confined.fixed old hold r hr hid
    · exact absurd hid.symm (Table.find_eq_none.mp hnew old hold)
  · intro r hr hr'
    rw [hends, hmem] at hr
    rcases hr with hr | rfl
    · exact h.confined.own r hr hr'
    · exact howner
  · intro r hr r' hr' hfind hfind'
    rw [hends, hmem] at hr hr'
    rcases hr with hr | rfl
    · exact absurd hfind (h.unborn hfirst r hr)
    · rcases hr' with hr' | rfl
      · exact absurd hfind' (h.unborn hfirst r' hr')
      · rfl
  · intro hfalse
    cases hfalse
  · intro id hid r hr
    rw [hends, Table.find_insert hinsert] at hr
    split at hr
    · cases hr
      exact howner
    · exact h.mine id hid r hr

/-- An update of a row of the key's own that leaves the owner alone. -/
theorem Midway.update (h : Midway key before w s) {id : Uuid} {ch : EndpointChanges}
    (hmine : id ∈ w.mine) (hch : ch.ownerKeyId = none)
    (hkeys : s'.db.apiKeys = s.db.apiKeys) (hgrants : s'.db.grants = s.db.grants)
    (hends : s'.db.endpoints =
      s.db.endpoints.change (fun r => decide (r.id = id)) ch.apply ch.apply_id)
    (hids : IdsKept s s') : Midway key before w s' := by
  have howner : ∀ r, (ch.apply r).ownerKeyId = r.ownerKeyId := by
    intro r
    simp [EndpointChanges.apply, hch]
  have hmem : ∀ r' ∈ s'.db.endpoints.rows, ∃ r ∈ s.db.endpoints.rows, r'.id = r.id ∧
      r'.ownerKeyId = r.ownerKeyId ∧ r'.tokenSecret = r.tokenSecret := by
    intro r' hr'
    rw [hends] at hr'
    obtain ⟨r, hr, rfl⟩ := List.mem_map.mp hr'
    refine ⟨r, hr, ?_⟩
    split
    · exact ⟨rfl, howner r, rfl⟩
    · exact ⟨rfl, rfl, rfl⟩
  refine ⟨⟨hkeys.trans h.confined.apiKeys, hgrants.trans h.confined.grants, ?_, ?_, ?_, ?_⟩,
    hids.since h.gone, ?_, ?_⟩
  · rw [hends, Table.filter_change, h.confined.others]
    intro r hr hid
    have hkey := h.mine id hmine r (Table.find_eq_some.mpr ⟨hr, of_decide_eq_true hid⟩)
    simp [foreign, howner, hkey]
  · intro old hold r' hr' hid
    obtain ⟨r, hr, hsame, hkey, htoken⟩ := hmem r' hr'
    obtain ⟨hkey', htoken'⟩ := h.confined.fixed old hold r hr (hsame.symm.trans hid)
    exact ⟨hkey.trans hkey', htoken.trans htoken'⟩
  · intro r' hr' hnone
    obtain ⟨r, hr, hsame, hkey, -⟩ := hmem r' hr'
    rw [hkey]
    exact h.confined.own r hr (hsame ▸ hnone)
  · intro r₁ hr₁ r₂ hr₂ hnone₁ hnone₂
    obtain ⟨r, hr, hsame, -⟩ := hmem r₁ hr₁
    obtain ⟨r', hr', hsame', -⟩ := hmem r₂ hr₂
    have hrr := h.confined.once r hr r' hr' (hsame ▸ hnone₁) (hsame' ▸ hnone₂)
    refine s'.db.endpoints.eq_of_key hr₁ hr₂ ?_
    rw [hsame, hsame', hrr]
  · intro hfalse r' hr'
    obtain ⟨r, hr, hsame, -⟩ := hmem r' hr'
    rw [hsame]
    exact h.unborn hfalse r hr
  · intro id' hid' r' hr'
    rw [hends, Table.find_change] at hr'
    obtain ⟨r, hr, rfl⟩ := Option.map_eq_some_iff.mp hr'
    have hkey := h.mine id' hid' r hr
    split
    · rw [howner, hkey]
    · exact hkey

theorem Midway.delete (h : Midway key before w s) {id : Uuid} (hmine : id ∈ w.mine)
    (hkeys : s'.db.apiKeys = s.db.apiKeys) (hgrants : s'.db.grants = s.db.grants)
    (hends : s'.db.endpoints = s.db.endpoints.delete fun r => decide (r.id = id))
    (hids : IdsKept s s') : Midway key before w s' := by
  have hmem : ∀ r ∈ s'.db.endpoints.rows, r ∈ s.db.endpoints.rows := by
    intro r hr
    rw [hends] at hr
    exact List.mem_of_mem_filter hr
  refine ⟨⟨hkeys.trans h.confined.apiKeys, hgrants.trans h.confined.grants, ?_, ?_, ?_, ?_⟩,
    hids.since h.gone, ?_, ?_⟩
  · rw [hends, Table.filter_delete, h.confined.others]
    intro r hr hid
    have hkey := h.mine id hmine r (Table.find_eq_some.mpr ⟨hr, of_decide_eq_true hid⟩)
    simp [foreign, hkey]
  · intro old hold r hr
    exact h.confined.fixed old hold r (hmem r hr)
  · intro r hr
    exact h.confined.own r (hmem r hr)
  · intro r hr r' hr'
    exact h.confined.once r (hmem r hr) r' (hmem r' hr')
  · intro hfalse r hr
    exact h.unborn hfalse r (hmem r hr)
  · intro id' hid' r hr
    rw [hends, Table.find_delete] at hr
    exact h.mine id' hid' r (Option.filter_eq_some_iff.mp hr).1

/-- A statement that succeeds. -/
theorem Midway.statement {asked : List String} (h : Midway key before w s) {st : Statement}
    {rows : st.Rows} {db : Database} (hpermits : permitsStatement key asked w st)
    (hrun : st.run s.db = .ok (rows, db)) (hreuse : reuses st s = false) :
    ∃ w', moves key True w (.db st) (.ok rows) w' ∧
      Midway key before w' { s with db := db, retired := retires st s ++ s.retired } := by
  have hmine : True → ∀ id ∈ w.mine, ∀ row, s.db.endpoints.find id = some row →
      row.ownerKeyId = some key := fun _ => h.mine
  obtain ⟨w', hmoves, hlearns⟩ := statement_learns hpermits hrun hmine
  have hids := statement_idsKept hrun
  refine ⟨w', hmoves, ?_⟩
  cases st with
  | findEndpoint _ | endpointsOwnedBy _ | grantsOf _ =>
      cases hrun
      exact h.learn hlearns
  | insertEndpoint row =>
      obtain ⟨howner, hfirst, -, -⟩ := hpermits
      obtain ⟨-, t, hinsert, rfl⟩ := run_insertEndpoint hrun
      obtain ⟨-, rfl⟩ := hmoves
      exact h.insert hinsert howner hfirst (by simpa [reuses] using hreuse) rfl rfl rfl hids
  | updateEndpoint id ch =>
      obtain ⟨-, -, -, rfl⟩ := run_updateEndpoint hrun
      obtain ⟨-, rfl⟩ := hmoves
      exact h.update hpermits.1 hpermits.2.1 rfl rfl rfl hids
  | deleteEndpoint id =>
      cases hrun
      cases hmoves
      exact h.delete hpermits.1 rfl rfl rfl hids
  | insertAudit row =>
      obtain ⟨-, t, -, rfl⟩ := run_insertAudit hrun
      cases hmoves
      exact h.frame rfl rfl rfl rfl
  | _ => exact absurd hpermits id

theorem Midway.step {crates : Crates} {asked : List String} {c : Call} {e : Choice} {r : Answer c}
    (h : Midway key before w s) (hpermits : permits key asked w c)
    (hexec : exec crates c e s = some (r, s')) :
    ∃ w', moves key True w c r w' ∧ Midway key before w' s' := by
  cases c with
  | db st =>
      cases r with
      | error err =>
          cases exec_db_error hexec
          exact ⟨w, by cases st <;> rfl, h⟩
      | ok rows =>
          obtain ⟨db, hrun, hreuse, rfl⟩ := exec_db_ok hexec
          exact h.statement hpermits hrun hreuse
  | now | newUuid | random _ | evict _ =>
      obtain ⟨hdb, hretired⟩ := exec_not_storing rfl hexec
      refine ⟨w, rfl, h.frame ?_ ?_ ?_ hretired⟩ <;> rw [hdb]
  | _ => exact absurd hpermits id

end Steps

/-- Requests of any keys, one after the other, from a state to a state. -/
inductive ServedFrom (app : AppState) (start : World) :
    List (Caller × ApiRequest) → World → Prop where
  | none : ServedFrom app start [] start
  | next {past : List (Caller × ApiRequest)} {s s' : World} {caller : Caller} {r : ApiRequest}
      {choices : List Choice} {outcome : Except AppError Response} (h : ServedFrom app start past s)
      (hrun : Programs.run (exec app.crates) (handle app caller r) choices s = some (outcome, s')) :
      ServedFrom app start (past ++ [(caller, r)]) s'

theorem request_confined {app : AppState} {caller : Caller} {r : ApiRequest} {choices : List Choice}
    {outcome : Except AppError Response} {s s' : World} (hdaughter : caller.key.isMaster = false)
    (hrun : Programs.run (exec app.crates) (handle app caller r) choices s = some (outcome, s')) :
    Confined caller.key.id s.db s'.db ∧
      ∀ response, outcome = .ok response → Response.belongsTo caller.key.id response := by
  obtain ⟨w, hpost, hprogress⟩ := Follows.run (P := daughter caller.key.id (askedGroups r) True)
    (fun w c e s r s' h hpermits hexec => Midway.step h hpermits hexec)
    (handle_obeys hdaughter r) (Midway.start s) hrun
  exact ⟨hprogress.confined, fun response hok => hpost response hok trivial⟩

/-- Endpoints that belong to none of the callers. -/
def outside (past : List (Caller × ApiRequest)) (row : Endpoint) : Bool :=
  past.all fun p => foreign p.1.key.id row

theorem ServedFrom.frame {app : AppState} {start s : World} {past : List (Caller × ApiRequest)}
    (h : ServedFrom app start past s) (hdaughters : ∀ p ∈ past, p.1.key.isMaster = false) :
    s.db.apiKeys = start.db.apiKeys ∧ s.db.grants = start.db.grants ∧
      s.db.endpoints.rows.filter (outside past) =
        start.db.endpoints.rows.filter (outside past) := by
  induction h with
  | none => exact ⟨rfl, rfl, rfl⟩
  | next h hrun ih =>
      rename_i past s s' caller r choices outcome
      obtain ⟨hkeys, hgrants, hrows⟩ := ih fun p hp => hdaughters p (List.mem_append_left _ hp)
      have hdaughter := hdaughters (caller, r) (List.mem_append_right _ List.mem_cons_self)
      have hconfined := (request_confined hdaughter hrun).1
      refine ⟨hconfined.apiKeys.trans hkeys, hconfined.grants.trans hgrants, ?_⟩
      have hboth : outside (past ++ [(caller, r)]) =
          fun row => foreign caller.key.id row && outside past row := by
        funext row
        simp [outside, Bool.and_comm]
      calc s'.db.endpoints.rows.filter (outside (past ++ [(caller, r)]))
          = (s'.db.endpoints.rows.filter (foreign caller.key.id)).filter (outside past) := by
            simp only [List.filter_filter, hboth, Bool.and_comm]
        _ = (s.db.endpoints.rows.filter (outside past)).filter (foreign caller.key.id) := by
            simp only [hconfined.others, List.filter_filter, Bool.and_comm]
        _ = start.db.endpoints.rows.filter (outside (past ++ [(caller, r)])) := by
            rw [hrows, List.filter_filter, hboth]

/-- After any requests of keys that are not the Master, one more such request, on
any route with any payload and any failures, is confined to its caller, and no
request so far has touched keys, grants or endpoints of others. -/
theorem daughter_confined {app : AppState} {start s s' : World} {past : List (Caller × ApiRequest)}
    {caller : Caller} {r : ApiRequest} {choices : List Choice} {outcome : Except AppError Response}
    (hpast : ServedFrom app start past s) (hdaughters : ∀ p ∈ past, p.1.key.isMaster = false)
    (hdaughter : caller.key.isMaster = false)
    (hrun : Programs.run (exec app.crates) (handle app caller r) choices s = some (outcome, s')) :
    Confined caller.key.id s.db s'.db ∧
    (∀ response, outcome = .ok response → Response.belongsTo caller.key.id response) ∧
    s'.db.apiKeys = start.db.apiKeys ∧ s'.db.grants = start.db.grants ∧
    s'.db.endpoints.rows.filter (outside (past ++ [(caller, r)])) =
      start.db.endpoints.rows.filter (outside (past ++ [(caller, r)])) := by
  obtain ⟨hconfined, hbelongs⟩ := request_confined hdaughter hrun
  refine ⟨hconfined, hbelongs, (hpast.next hrun).frame ?_⟩
  intro p hp
  rcases List.mem_append.mp hp with hp | hp
  · exact hdaughters p hp
  · cases List.mem_singleton.mp hp
    exact hdaughter

def sampleKey : ApiKey where
  id := 7
  name := "daughter"
  keyPrefix := "abcdefgh"
  keyHash := "hash"
  signingSecret := none
  boundIps := none
  isMaster := false
  canManageKeys := true
  parentKeyId := none
  ownerKeyId := none
  createdAt := 0
  updatedAt := 0

def sampleCaller : Caller := ⟨sampleKey, .v4 0x0a000001#32⟩

def sampleWorld : World where
  db :=
    { apiKeys := ⟨[sampleKey], by decide⟩
      endpoints := .empty
      grants := ⟨[⟨1, 7, 3, "dmz", 0⟩], by decide⟩
      auditLogs := .empty }
  retired := []
  cache := ∅
  vault := ∅
  clock := 0
  uptime := 0

def sampleCreation : ApiRequest :=
  .createEndpoint (.ok
    { name := "feed"
      description := none
      vaultGroups := "dmz"
      ttlSeconds := none
      maxAgeSeconds := none
      boundIps := none
      filterRfc1918 := false
      filterBogons := false
      filterLoopback := false })

def sampleChoices : List Choice :=
  [.succeed, .time 1, .uuid 5, .bytes (List.replicate 16 0), .succeed, .uuid 6, .time 2, .succeed]

theorem daughter_confined_creation :
    ∃ outcome s', Programs.run (exec sampleApp.crates)
      (handle sampleApp sampleCaller sampleCreation)
        sampleChoices sampleWorld = some (outcome, s') ∧
      s'.db.endpoints.rows.map (·.ownerKeyId) = [some 7] ∧ Confined 7 sampleWorld.db s'.db := by
  have hcreates : (Programs.run (exec sampleApp.crates)
      (handle sampleApp sampleCaller sampleCreation) sampleChoices sampleWorld).map
      (fun result => result.2.db.endpoints.rows.map (·.ownerKeyId)) = some [some 7] := by
    decide +kernel
  obtain ⟨⟨outcome, s'⟩, hrun, hrows⟩ := Option.map_eq_some_iff.mp hcreates
  exact ⟨outcome, s', hrun, hrows,
    (daughter_confined (.none : ServedFrom sampleApp sampleWorld [] sampleWorld) (by simp) rfl
      hrun).1⟩

end SimplyIpExporter.DaughterConfinement
