import SimplyIpExporter.HandlerRules

/-!
# What a key that is not the Master may call

One policy for all seventeen routes. It watches which endpoints the request has
found to be its own, which groups it has seen granted, and whether it has already
created an endpoint. Writing is permitted only within these, and only once every
group the request asks for is among the granted ones.
-/
namespace SimplyIpExporter.DaughterPolicy
open RustText Entities KeyedTables Storage Services Programs EndpointHandlers KeyHandlers Routes
open HandlerRules

structure Watch where
  mine : List Uuid
  covered : List String
  created : Bool

def Watch.start : Watch := ⟨[], [], false⟩

section Policy
variable (key : Uuid) (asked : List String) (undisturbed : Prop)

def AskedCovered (w : Watch) : Prop := ∀ g ∈ asked, g ∈ w.covered

def permitsStatement (w : Watch) : Statement → Prop
  | .findEndpoint _ => True
  | .endpointsOwnedBy owner => owner = key
  | .grantsOf holder => holder = key
  | .insertEndpoint row => row.ownerKeyId = some key ∧ w.created = false ∧ AskedCovered asked w ∧
      ∀ g ∈ groupNames row.vaultGroups, g ∈ w.covered
  | .updateEndpoint id ch => id ∈ w.mine ∧ ch.ownerKeyId = none ∧ AskedCovered asked w ∧
      ∀ raw, ch.vaultGroups = some raw → ∀ g ∈ groupNames raw, g ∈ w.covered
  | .deleteEndpoint id => id ∈ w.mine ∧ AskedCovered asked w
  | .insertAudit _ => AskedCovered asked w
  | _ => False

def permits (w : Watch) : Call → Prop
  | .db s => permitsStatement key asked w s
  | .now | .newUuid | .random _ => True
  | .evict _ => AskedCovered asked w
  | _ => False

/-- How the watch moves, with what an answer is known to hold. That an updated row
still belongs to the caller is known only when nobody else interferes. -/
def moves (w : Watch) : (c : Call) → Answer c → Watch → Prop
  | .db (.findEndpoint id), .ok (some row), w' => row.id = id ∧
      w' = if row.ownerKeyId = some key then { w with mine := id :: w.mine } else w
  | .db (.endpointsOwnedBy owner), .ok rows, w' =>
      (∀ row ∈ rows, row.ownerKeyId = some owner) ∧ w' = w
  | .db (.grantsOf holder), .ok grants, w' => (∀ g ∈ grants, g.apiKeyId = holder) ∧
      w' = { w with covered := grants.map (·.vaultGroupName) ++ w.covered }
  | .db (.insertEndpoint row), .ok row', w' => row' = row ∧ w' = { w with created := true }
  | .db (.updateEndpoint _ _), .ok row, w' => (undisturbed → row.ownerKeyId = some key) ∧ w' = w
  | _, _, w' => w' = w

def daughter : Policy Answer Watch := ⟨permits key asked, moves key undisturbed⟩

end Policy

/-- The handler keeps to the policy, and returns an error or a value as wanted (when
nobody interferes). -/
abbrev Obeys {B : Type} (key : Uuid) (asked : List String) (undisturbed : Prop) (good : B → Prop)
    (h : Handler B) (w : Watch) : Prop :=
  Achieves (daughter key asked undisturbed) (fun _ b => undisturbed → good b) h w

section Rules
variable {key : Uuid} {asked : List String} {undisturbed : Prop} {w : Watch} {caller : ApiKey}

theorem quiet_drawing {c : Call} (hc : c.drawing = true) :
    Quiet (daughter key asked undisturbed) w c := by
  cases c with
  | now | newUuid | random length => exact ⟨trivial, fun _ _ h => h⟩
  | _ => cases hc

theorem still_entry {entry : AuditEntry} (hsettled : AskedCovered asked w) :
    Still (daughter key asked undisturbed) w (createAuditLog entry) := by
  refine still_createAuditLog (quiet_drawing rfl) (quiet_drawing rfl) fun id t => ⟨hsettled, ?_⟩
  rintro (e | row) w' h <;> exact h

theorem requireGranted_ok {granted : List String} {vaultGroups : String} {u : Unit}
    (h : requireGranted granted vaultGroups = .ok u) :
    ∀ g ∈ groupNames vaultGroups, g ∈ granted := by
  dsimp only [requireGranted] at h
  split at h
  · rename_i hempty
    intro g hg
    have hnot := List.filter_eq_nil_iff.mp (List.isEmpty_iff.mp hempty) g hg
    simpa using hnot
  · cases h

/-- The watch has only seen more grants, and all that are named. -/
def SeenGranted (names : List String) (w w' : Watch) : Prop :=
  ∃ covered, w' = { w with covered := covered } ∧ ∀ g ∈ names, g ∈ covered

theorem validateGroupAccess_seenGranted (hdaughter : caller.isMaster = false)
    (hkey : caller.id = key) (vaultGroups : String) :
    Achieves (daughter key asked undisturbed)
      (fun w' _ => SeenGranted (groupNames vaultGroups) w w')
      (validateGroupAccess caller vaultGroups) w := by
  unfold validateGroupAccess
  rw [hdaughter, if_neg Bool.false_ne_true]
  have hnames : Achieves (daughter key asked undisturbed)
      (fun w' granted => w' = { w with covered := granted ++ w.covered })
      (grantedGroupNames caller.id) w := by
    refine achieves_statement_bind hkey ?_
    rintro grants _ ⟨-, rfl⟩
    exact achieves_pure rfl
  refine hnames.bind ?_
  rintro _ granted rfl
  refine follows_value.mpr ?_
  intro u hu
  refine ⟨_, rfl, ?_⟩
  intro g hg
  exact List.mem_append_left _ (requireGranted_ok hu g hg)

/-- After the check of groups, those asked for have been seen granted. -/
theorem checkGroups_seenGranted (hdaughter : caller.isMaster = false) (hkey : caller.id = key)
    (vaultGroups : Option String) :
    Achieves (daughter key asked undisturbed)
      (fun w' _ => SeenGranted (vaultGroups.elim [] groupNames) w w')
        (checkGroups caller vaultGroups) w := by
  cases vaultGroups with
  | none => exact achieves_pure ⟨w.covered, rfl, by simp⟩
  | some raw =>
      exact achieves_attempt_bind fun _ _ => validateGroupAccess_seenGranted hdaughter hkey raw

end Rules

theorem askedCovered_nil (w : Watch) : AskedCovered [] w := by
  intro g hg
  cases hg

section Handlers
variable {app : AppState} {caller : Caller} (hdaughter : caller.key.isMaster = false)
  {undisturbed : Prop}
include hdaughter

theorem requireMaster_refuses :
    requireMaster caller.key = .error (.forbidden "Only the Master key can manage API keys") := by
  rw [requireMaster, hdaughter]
  rfl

/-- What a check of ownership has established. -/
theorem owner_of_requireManage {ep : Endpoint} {u : Unit}
    (h : requireManage caller.key ep = .ok u) :
    ep.ownerKeyId = some caller.key.id := by
  unfold requireManage mayManage at h
  rw [hdaughter, Bool.false_or] at h
  split at h
  · rename_i howner
    exact of_decide_eq_true howner
  · cases h

theorem createEndpoint_obeys (payload : CreateEndpointPayload) :
    Obeys caller.key.id (groupNames payload.vaultGroups) undisturbed
      (fun r => r.ownerKeyId = some caller.key.id) (createEndpoint app caller payload) .start := by
  refine achieves_attempt_bind fun _ _ => achieves_attempt_bind fun _ _ => ?_
  refine (validateGroupAccess_seenGranted hdaughter rfl payload.vaultGroups).bind ?_
  rintro _ _ ⟨covered, rfl, hasked⟩
  refine achieves_attempt_bind fun _ _ => achieves_attempt_bind fun _ _ =>
    achieves_attempt_bind fun _ _ => ?_
  refine Quiet.ask_bind (quiet_drawing rfl) fun now =>
    Quiet.ask_bind (quiet_drawing rfl) fun id => ?_
  refine Quiet.ask_bind (quiet_drawing rfl) fun token => ?_
  refine achieves_statement_bind ⟨rfl, rfl, hasked, hasked⟩ ?_
  rintro row _ ⟨rfl, rfl⟩
  exact Still.achieves_bind (still_entry hasked) fun _ => achieves_pure fun _ => rfl

theorem listEndpoints_obeys :
    Obeys caller.key.id [] undisturbed (fun rs => ∀ r ∈ rs, r.ownerKeyId = some caller.key.id)
      (listEndpoints caller) .start := by
  unfold listEndpoints
  rw [hdaughter]
  refine achieves_statement_bind rfl ?_
  rintro rows _ ⟨howned, rfl⟩
  refine achieves_pure fun _ r hr => ?_
  obtain ⟨row, hrow, rfl⟩ := List.mem_map.mp hr
  exact howned row hrow

/-- Finding an endpoint and passing the check of ownership puts it among the
caller's own. -/
theorem manage_bind {A : Type} {good : A → Prop} {asked : List String} {id : Uuid}
    {f : Endpoint → Handler A}
    (hrest : ∀ existing : Endpoint, existing.id = id →
      Obeys caller.key.id asked undisturbed good (f existing) { Watch.start with mine := [id] }) :
    Obeys caller.key.id asked undisturbed good (do
      let found ← statement (.findEndpoint id)
      let existing ← attempt (orNotFound found)
      attempt (requireManage caller.key existing)
      f existing) .start := by
  refine achieves_statement_bind trivial ?_
  intro found w hmoves
  refine achieves_attempt_bind fun existing hfound => achieves_attempt_bind fun u hmanage => ?_
  cases found with
  | none => cases hfound
  | some row =>
      cases hfound
      obtain ⟨hid, rfl⟩ := hmoves
      rw [owner_of_requireManage hdaughter hmanage, if_pos rfl]
      exact hrest existing hid

theorem updateEndpoint_obeys (id : Uuid) (payload : UpdateEndpointPayload) :
    Obeys caller.key.id (payload.vaultGroups.elim [] groupNames) undisturbed
      (fun r => r.ownerKeyId = some caller.key.id)
      (updateEndpoint app caller id payload) .start := by
  refine manage_bind hdaughter fun existing hid => achieves_attempt_bind fun _ _ => ?_
  refine (checkGroups_seenGranted hdaughter rfl payload.vaultGroups).bind ?_
  rintro _ _ ⟨covered, rfl, hasked⟩
  refine achieves_attempt_bind fun _ _ => achieves_attempt_bind fun _ _ =>
    achieves_attempt_bind fun _ _ => ?_
  refine Quiet.ask_bind (quiet_drawing rfl) fun now => ?_
  refine achieves_statement_bind ⟨by simp [hid], rfl, hasked, ?_⟩ ?_
  · intro raw hraw
    have hgroups : payload.vaultGroups = some raw := hraw
    simpa [hgroups] using hasked
  · rintro row _ ⟨howned, rfl⟩
    exact Still.achieves_bind (still_entry hasked) fun _ => achieves_pure howned

theorem deleteEndpoint_obeys (id : Uuid) :
    Obeys caller.key.id [] undisturbed (fun _ => True) (deleteEndpoint app caller id) .start := by
  refine manage_bind hdaughter fun existing hid => ?_
  refine achieves_statement_bind ⟨by simp, askedCovered_nil _⟩ ?_
  rintro removed _ rfl
  refine achieves_attempt_bind fun _ _ => ?_
  have hevict : Quiet (daughter caller.key.id [] undisturbed)
      { Watch.start with mine := [id] } (.evict id) := ⟨askedCovered_nil _, fun _ _ h => h⟩
  refine hevict.ask_bind fun _ => ?_
  exact (still_entry (askedCovered_nil _)).mono fun _ _ _ _ _ _ => trivial

theorem listKeyGroups_obeys (id : Uuid) :
    Obeys caller.key.id [] undisturbed (fun gs => ∀ g ∈ gs, g.apiKeyId = caller.key.id)
      (listKeyGroups caller id) .start := by
  refine achieves_attempt_bind fun _ hself => ?_
  have hid : caller.key.id = id := by
    by_contra hne
    simp [hdaughter, hne] at hself
  refine achieves_statement (.grantsOf id) hid.symm ?_
  rintro grants _ ⟨howned, -⟩ _
  rw [hid]
  exact howned

end Handlers

/-- The groups a request asks an endpoint to name. -/
def askedGroups : ApiRequest → List String
  | .createEndpoint (.ok payload) => groupNames payload.vaultGroups
  | .updateEndpoint _ (.ok payload) => payload.vaultGroups.elim [] groupNames
  | _ => []

/-- Every endpoint row and grant row of a response belongs to the key. -/
def Response.belongsTo (key : Uuid) : Response → Prop
  | .endpoint r => r.ownerKeyId = some key
  | .endpoints rs => ∀ r ∈ rs, r.ownerKeyId = some key
  | .grant g => g.apiKeyId = key
  | .grants gs => ∀ g ∈ gs, g.apiKeyId = key
  | _ => True

section Routes
variable {app : AppState} {caller : Caller} {undisturbed : Prop}

/-- Every route keeps to the policy when the caller is not the Master. -/
theorem handle_obeys (hdaughter : caller.key.isMaster = false) (r : ApiRequest) :
    Obeys caller.key.id (askedGroups r) undisturbed (Response.belongsTo caller.key.id)
      (handle app caller r) .start := by
  have hrefuses := requireMaster_refuses hdaughter
  cases r with
  | getMe => exact achieves_pure fun _ => trivial
  | createApiKey payload =>
      exact achieves_attempt_bind fun p _ => achieves_answer (achieves_refused hrefuses)
  | listApiKeys => exact achieves_answer (achieves_refused hrefuses)
  | updateApiKey id payload =>
      exact achieves_attempt_bind fun _ _ => achieves_attempt_bind fun _ _ =>
        achieves_answer (achieves_refused hrefuses)
  | deleteApiKey id query =>
      exact achieves_attempt_bind fun _ _ => achieves_attempt_bind fun _ _ =>
        achieves_answer (achieves_refused hrefuses)
  | rotateApiKey id =>
      exact achieves_attempt_bind fun _ _ => achieves_answer (achieves_refused hrefuses)
  | rotateSigningSecret id =>
      exact achieves_attempt_bind fun _ _ => achieves_answer (achieves_refused hrefuses)
  | createEndpoint payload =>
      refine achieves_attempt_bind fun p hp => achieves_answer ?_
      subst hp
      exact createEndpoint_obeys hdaughter p
  | listEndpoints => exact achieves_answer (listEndpoints_obeys hdaughter)
  | updateEndpoint id payload =>
      refine achieves_attempt_bind fun i _ => achieves_attempt_bind fun p hp => achieves_answer ?_
      subst hp
      exact updateEndpoint_obeys hdaughter i p
  | deleteEndpoint id =>
      exact achieves_attempt_bind fun i _ => achieves_answer (deleteEndpoint_obeys hdaughter i)
  | reassignEndpointOwner id payload =>
      refine achieves_attempt_bind fun _ _ => achieves_attempt_bind fun _ _ => achieves_answer ?_
      exact achieves_refused (if_neg (by simp [hdaughter]))
  | listAuditLogs query =>
      refine achieves_attempt_bind fun _ _ => achieves_answer ?_
      exact achieves_refused (if_neg (by simp [hdaughter]))
  | listVaultGroups => exact achieves_answer (achieves_refused hrefuses)
  | listKeyGroups id =>
      exact achieves_attempt_bind fun i _ => achieves_answer (listKeyGroups_obeys hdaughter i)
  | grantKeyGroup id payload =>
      exact achieves_attempt_bind fun _ _ => achieves_attempt_bind fun _ _ =>
        achieves_answer (achieves_refused hrefuses)
  | revokeKeyGroup path =>
      exact achieves_attempt_bind fun _ _ => achieves_answer (achieves_refused hrefuses)

end Routes

/-- A grant of the group to the key is in the table. -/
def GrantIn (s : World) (key : Uuid) (group : String) : Prop :=
  ∃ g ∈ s.db.grants.rows, g.apiKeyId = key ∧ g.vaultGroupName = group

/-- What the watch has learned from a call was true of the tables at that moment. -/
structure Learns (key : Uuid) (s : World) (w w' : Watch) : Prop where
  covered : ∀ g ∈ w'.covered, g ∈ w.covered ∨ GrantIn s key g
  mine : ∀ id ∈ w'.mine, id ∈ w.mine ∨
    ∃ row, s.db.endpoints.find id = some row ∧ row.ownerKeyId = some key
  created : w'.created = false → w.created = false

theorem Learns.refl (key : Uuid) (s : World) (w : Watch) : Learns key s w w :=
  ⟨fun _ hg => .inl hg, fun _ hid => .inl hid, id⟩

section Learning
variable {crates : Crates} {key : Uuid} {asked : List String} {undisturbed : Prop} {w : Watch}
  {s s' : World}

theorem statement_learns {st : Statement} {rows : st.Rows} {db : Database}
    (hpermits : permitsStatement key asked w st) (hrun : st.run s.db = .ok (rows, db))
    (howned : undisturbed → ∀ id ∈ w.mine, ∀ row, s.db.endpoints.find id = some row →
      row.ownerKeyId = some key) :
    ∃ w', moves key undisturbed w (.db st) (.ok rows) w' ∧ Learns key s w w' := by
  cases st with
  | findEndpoint id =>
      cases hrun
      cases hfind : s.db.endpoints.find id with
      | none => exact ⟨w, rfl, .refl key s w⟩
      | some row =>
          refine ⟨_, ⟨(Table.find_eq_some.mp hfind).2, rfl⟩, ?_⟩
          split
          · rename_i howner
            refine ⟨fun _ hg => .inl hg, ?_, fun hfalse => hfalse⟩
            intro id' hid'
            rcases List.mem_cons.mp hid' with rfl | hmem
            · exact .inr ⟨row, hfind, howner⟩
            · exact .inl hmem
          · exact .refl key s w
  | endpointsOwnedBy owner =>
      cases hrun
      refine ⟨w, ⟨?_, rfl⟩, .refl key s w⟩
      intro row hrow
      simpa using (List.mem_filter.mp hrow).2
  | grantsOf holder =>
      cases hrun
      cases hpermits
      refine ⟨_, ⟨?_, rfl⟩, ?_, fun _ hid => .inl hid, fun hfalse => hfalse⟩
      · intro g hg
        simpa using (List.mem_filter.mp hg).2
      · intro name hname
        rcases List.mem_append.mp hname with hname | hname
        · obtain ⟨g, hg, rfl⟩ := List.mem_map.mp hname
          obtain ⟨hmem, hholder⟩ := List.mem_filter.mp hg
          exact .inr ⟨g, hmem, of_decide_eq_true hholder, rfl⟩
        · exact .inl hname
  | insertEndpoint row =>
      refine ⟨_, ⟨(run_insertEndpoint hrun).1, rfl⟩, fun _ hg => .inl hg, fun _ hid => .inl hid, ?_⟩
      intro hfalse
      cases hfalse
  | updateEndpoint id ch =>
      obtain ⟨hmine, hch, -⟩ := hpermits
      obtain ⟨row, hrow, hrows, -⟩ := run_updateEndpoint hrun
      refine ⟨w, ⟨?_, rfl⟩, .refl key s w⟩
      intro hundisturbed
      simp [hrows, EndpointChanges.apply, hch, howned hundisturbed id hmine row hrow]
  | deleteEndpoint id => exact ⟨w, rfl, .refl key s w⟩
  | insertAudit row => exact ⟨w, rfl, .refl key s w⟩
  | _ => exact absurd hpermits id

theorem exec_learns {c : Call} {e : Choice} {r : Answer c} (hpermits : permits key asked w c)
    (hexec : exec crates c e s = some (r, s'))
    (howned : undisturbed → ∀ id ∈ w.mine, ∀ row, s.db.endpoints.find id = some row →
      row.ownerKeyId = some key) :
    ∃ w', moves key undisturbed w c r w' ∧ Learns key s w w' := by
  cases c with
  | db st =>
      cases r with
      | error err => exact ⟨w, by cases st <;> rfl, .refl key s w⟩
      | ok rows =>
          obtain ⟨db, hrun, -⟩ := exec_db_ok hexec
          exact statement_learns hpermits hrun howned
  | now | newUuid | random _ | evict _ => exact ⟨w, rfl, .refl key s w⟩
  | _ => exact absurd hpermits id

end Learning
end SimplyIpExporter.DaughterPolicy
