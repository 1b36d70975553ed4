import SimplyIpExporter.Routes

/-!
# Rules for handlers

Each property of the handlers comes with a policy for their calls. Most calls of a
handler leave what a policy watches as it is, and most properties ask nothing of a
handler that fails. The rules for both are stated once, for any policy, and with them
those for the parts that the handlers share.
-/
namespace SimplyIpExporter.HandlerRules
open Entities Storage Services Programs EndpointHandlers KeyHandlers Routes

theorem orNotFound_ok {A : Type} {found : Option A} {a : A} (h : orNotFound found = .ok a) :
    found = some a := by
  cases found with
  | none => cases h
  | some b =>
      cases h
      rfl

section Policies
variable {M A B : Type} {P : Policy Answer M} {m : M} {post : M → Except AppError B → Prop}

/-- The call may be made and leaves what is watched as it is. -/
structure Quiet (P : Policy Answer M) (m : M) (c : Call) : Prop where
  permits : P.permits m c
  still : ∀ r m', P.moves m c r m' → m' = m

theorem Quiet.ask_bind {c : Call} {f : Answer c → Handler B} (h : Quiet P m c)
    (hrest : ∀ r, Follows P post (f r) m) : Follows P post (ask c >>= f : Handler B) m := by
  refine .ask_bind h.permits ?_
  intro r m' hmoves
  rw [h.still r m' hmoves]
  exact hrest r

theorem Quiet.statement_bind {st : Statement} {f : st.Rows → Handler B} (h : Quiet P m (.db st))
    (herror : ∀ e, post m (.error (.dbError e)))
    (hrest : ∀ rows, P.moves m (.db st) (.ok rows) m → Follows P post (f rows) m) :
    Follows P post (statement st >>= f : Handler B) m := by
  refine follows_statement_bind h.permits ?_ ?_
  · intro e m' hmoves
    rw [h.still _ m' hmoves]
    exact herror e
  · intro rows m' hmoves
    obtain rfl := h.still _ m' hmoves
    exact hrest rows hmoves

/-- A check whose refusal ends the handler. -/
theorem check_bind {x : Except AppError A} {f : A → Handler B} (herror : ∀ e, post m (.error e))
    (hrest : ∀ a, x = .ok a → Follows P post (f a) m) :
    Follows P post (attempt x >>= f : Handler B) m :=
  .attempt_bind (fun e _ => herror e) hrest

/-- What is written is what was sealed. -/
theorem Quiet.sealed_bind {app : AppState} {secret : String} {f : String → Handler B}
    (h : Quiet P m (.random 24)) (herror : ∀ e, post m (.error e))
    (hrest : ∀ nonce text, app.crates.sealSecret nonce secret = some text →
      Follows P post (f text) m) :
    Follows P post (sealed app secret >>= f : Handler B) m := by
  have hsealed : Follows P (fun m' result => m' = m ∧ ∀ text, result = .ok text →
      ∃ nonce, app.crates.sealSecret nonce secret = some text) (sealed app secret) m := by
    refine h.ask_bind fun nonce => .pure ⟨rfl, ?_⟩
    intro text htext
    cases hseal : app.crates.sealSecret nonce secret with
    | none =>
        rw [hseal] at htext
        cases htext
    | some text' =>
        rw [hseal] at htext
        cases htext
        exact ⟨nonce, hseal⟩
  refine hsealed.except_bind ?_ ?_
  · rintro _ e ⟨rfl, -⟩
    exact herror e
  · rintro _ text ⟨rfl, htext⟩
    obtain ⟨nonce, hseal⟩ := htext text rfl
    exact hrest nonce text hseal

/-- Whatever comes of it, the part leaves what is watched as it is. -/
abbrev Still (P : Policy Answer M) (m : M) (h : Handler A) : Prop :=
  Follows P (fun m' _ => m' = m) h m

theorem still_pure (a : A) : Still P m (pure a : Handler A) := .ok rfl

theorem still_attempt (x : Except AppError A) : Still P m (attempt x : Handler A) := .pure rfl

theorem Still.bind {x : Handler A} {f : A → Handler B} (hx : Still P m x)
    (herror : ∀ e, post m (.error e)) (hrest : ∀ a, Follows P post (f a) m) :
    Follows P post (x >>= f : Handler B) m := by
  refine hx.except_bind ?_ ?_
  · rintro _ e rfl
    exact herror e
  · rintro _ a rfl
    exact hrest a

theorem still_createAuditLog {entry : AuditEntry} (hid : Quiet P m .newUuid) (hnow : Quiet P m .now)
    (hinsert : ∀ id t, Quiet P m (.db (.insertAudit (entry.row id t)))) :
    Still P m (createAuditLog entry) :=
  hid.ask_bind fun id => hnow.ask_bind fun t =>
    (hinsert id t).statement_bind (fun _ => rfl) fun _ _ => still_pure ()

theorem still_generateSecret (h : Quiet P m (.random 32)) : Still P m generateSecret :=
  h.ask_bind fun _ => still_pure _

theorem still_validateGroupAccess {key : ApiKey} (h : Quiet P m (.db (.grantsOf key.id)))
    (vaultGroups : String) : Still P m (validateGroupAccess key vaultGroups) := by
  unfold validateGroupAccess
  split
  · exact still_pure ()
  · have hnames : Still P m (grantedGroupNames key.id) :=
      h.statement_bind (fun _ => rfl) fun _ _ => still_pure _
    exact hnames.bind (fun _ => rfl) fun _ => still_attempt _

theorem still_checkGroups {key : ApiKey} (h : Quiet P m (.db (.grantsOf key.id)))
    (vaultGroups : Option String) : Still P m (checkGroups key vaultGroups) := by
  cases vaultGroups with
  | none => exact still_pure ()
  | some raw => exact check_bind (fun _ => rfl) fun _ _ => still_validateGroupAccess h raw

theorem still_checkOwner (h : ∀ id, Quiet P m (.db (.findKey id))) (owner : Option Uuid) :
    Still P m (checkOwner owner) := by
  cases owner with
  | none => exact still_pure ()
  | some id => exact (h id).statement_bind (fun _ => rfl) fun _ _ => still_attempt _

theorem still_currentGroups (h : Quiet P m .listGroups) (app : AppState) :
    Still P m (currentGroups app) :=
  check_bind (fun _ => rfl) fun _ _ => h.ask_bind fun _ => still_attempt _

/-- Where the handler succeeds, this holds of what is watched and of its answer. -/
def Achieves (P : Policy Answer M) (good : M → B → Prop) (h : Handler B) (m : M) : Prop :=
  Follows P (fun m' result => ∀ b, result = .ok b → good m' b) h m

variable {good : M → B → Prop}

theorem achieves_pure {b : B} (h : good m b) : Achieves P good (pure b : Handler B) m := by
  refine .ok ?_
  rintro _ ⟨⟩
  exact h

theorem Achieves.bind {mid : M → A → Prop} {x : Handler A} {f : A → Handler B}
    (hx : Achieves P mid x m) (hrest : ∀ m' a, mid m' a → Achieves P good (f a) m') :
    Achieves P good (x >>= f : Handler B) m :=
  Follows.except_bind hx (fun _ _ _ => nofun) fun m' a h => hrest m' a (h a rfl)

theorem achieves_attempt_bind {x : Except AppError A} {f : A → Handler B}
    (hrest : ∀ a, x = .ok a → Achieves P good (f a) m) :
    Achieves P good (attempt x >>= f : Handler B) m :=
  check_bind (fun _ => nofun) hrest

theorem achieves_statement_bind {st : Statement} {f : st.Rows → Handler B}
    (hc : P.permits m (.db st))
    (hrest : ∀ rows m', P.moves m (.db st) (.ok rows) m' → Achieves P good (f rows) m') :
    Achieves P good (statement st >>= f : Handler B) m :=
  follows_statement_bind hc (fun _ _ _ => nofun) hrest

/-- A handler that ends with a statement. -/
theorem achieves_statement (st : Statement) {good : M → st.Rows → Prop} (hc : P.permits m (.db st))
    (hgood : ∀ rows m', P.moves m (.db st) (.ok rows) m' → good m' rows) :
    Achieves P good (statement st) m := by
  refine .ask_bind hc ?_
  intro answer m' hmoves
  cases answer with
  | error e => exact .throw nofun
  | ok rows => exact achieves_pure (hgood rows m' hmoves)

/-- A guard that refuses ends the handler. -/
theorem achieves_refused {x : Except AppError A} {f : A → Handler B} {e : AppError}
    (h : x = .error e) : Achieves P good (attempt x >>= f : Handler B) m := by
  refine achieves_attempt_bind ?_
  intro a ha
  rw [h] at ha
  cases ha

theorem Quiet.achieves_bind {st : Statement} {f : st.Rows → Handler B} (h : Quiet P m (.db st))
    (hrest : ∀ rows, P.moves m (.db st) (.ok rows) m → Achieves P good (f rows) m) :
    Achieves P good (statement st >>= f : Handler B) m :=
  h.statement_bind (fun _ => nofun) hrest

theorem Quiet.achieves_findEndpoint {id : Uuid} {f : Endpoint → Handler B}
    (h : Quiet P m (.db (.findEndpoint id)))
    (hrest : ∀ existing, P.moves m (.db (.findEndpoint id)) (.ok (some existing)) m →
      Achieves P good (f existing) m) :
    Achieves P good (do
      let found ← statement (.findEndpoint id)
      let existing ← attempt (orNotFound found)
      f existing : Handler B) m := by
  refine h.achieves_bind fun found hfound => achieves_attempt_bind fun existing hexisting => ?_
  cases orNotFound_ok hexisting
  exact hrest existing hfound

theorem Still.achieves_bind {x : Handler A} {f : A → Handler B} (hx : Still P m x)
    (hrest : ∀ a, Achieves P good (f a) m) : Achieves P good (x >>= f : Handler B) m :=
  hx.bind (fun _ => nofun) hrest

theorem achieves_answer {wrap : A → Response} {good : M → Response → Prop} {h : Handler A}
    (hh : Achieves P (fun m' a => good m' (wrap a)) h m) : Achieves P good (answer wrap h) m :=
  hh.bind fun _ _ ha => achieves_pure ha

end Policies

/-- A row that was looked up by its identifier has it. -/
def FoundById : (c : Call) → Answer c → Prop
  | .db (.findKey id), .ok (some row) => row.id = id
  | .db (.findEndpoint id), .ok (some row) => row.id = id
  | _, _ => True

theorem exec_foundById {crates : Crates} {c : Call} {e : Choice} {s s' : World} {r : Answer c}
    (hexec : exec crates c e s = some (r, s')) : FoundById c r := by
  cases c with
  | db st =>
      cases r with
      | error err => cases st <;> trivial
      | ok rows =>
          obtain ⟨db, hrun, -, rfl⟩ := exec_db_ok hexec
          cases st with
          | findKey id | findEndpoint id =>
              cases rows with
              | none => trivial
              | some row =>
                  have hfound := congrArg Except.toOption hrun
                  simp only [Statement.run, Except.toOption, Option.some.injEq,
                    Prod.mk.injEq] at hfound
                  exact (KeyedTables.Table.find_eq_some.mp hfound.1).2
          | _ => trivial
  | _ => trivial

/-- Calls that draw a value or look something up for a request. -/
def harmless : Call → Bool
  | .now | .newUuid | .random _ | .listGroups => true
  | .db (.findKey _) | .db .allKeys | .db (.findEndpoint _) | .db .allEndpoints
  | .db (.endpointsOwnedBy _) | .db (.findGrant _) | .db (.findGrantFor _ _) | .db (.grantsOf _)
  | .db (.auditPage _ _ _) => true
  | _ => false

/-- The calls that may be made, and what is known of their answers. -/
structure CallRules where
  permits : Call → Prop
  answers : (c : Call) → Answer c → Prop
  permits_harmless : ∀ c, harmless c = true → permits c

/-- Beside whatever is watched for other tasks. -/
def CallRules.policy (R : CallRules) (M : Type) : Policy Answer M where
  permits _ := R.permits
  moves m c r m' := R.answers c r ∧ m' = m

/-- The handler makes only calls that may be made. -/
def Keeps (R : CallRules) {A : Type} (h : Handler A) : Prop :=
  ∀ (M : Type) (m : M), Follows (R.policy M) (fun _ _ => True) h m

section Rules
variable {R : CallRules} {A B : Type}

theorem CallRules.quiet {c : Call} (hc : R.permits c) {M : Type} (m : M) : Quiet (R.policy M) m c :=
  ⟨hc, fun _ _ h => h.2⟩

theorem CallRules.quiet_harmless {c : Call} (hc : harmless c = true) {M : Type} (m : M) :
    Quiet (R.policy M) m c :=
  R.quiet (R.permits_harmless c hc) m

theorem keeps_of_still {h : Handler A} (hh : ∀ (M : Type) (m : M), Still (R.policy M) m h) :
    Keeps R h :=
  fun M m => (hh M m).mono fun _ _ _ => trivial

theorem Keeps.relax {R' : CallRules} {h : Handler A} (hh : Keeps R h)
    (hpermits : ∀ c, R.permits c → R'.permits c)
    (hanswers : ∀ c r, R'.answers c r → R.answers c r) : Keeps R' h := by
  intro M m
  refine (hh M m).weaken (L := Eq) ?_ ?_ rfl
  · rintro m _ c rfl hc
    exact hpermits c hc
  · rintro m _ c r _ rfl _ ⟨hanswer, rfl⟩
    exact ⟨_, ⟨hanswers c r hanswer, rfl⟩, rfl⟩

theorem keeps_pure (a : A) : Keeps R (pure a : Handler A) := fun _ _ => .ok trivial

theorem keeps_attempt (x : Except AppError A) : Keeps R (attempt x : Handler A) :=
  fun _ _ => .pure trivial

theorem keeps_then {x : Handler A} {f : A → Handler B} (hx : Keeps R x)
    (hrest : ∀ a, Keeps R (f a)) : Keeps R (x >>= f : Handler B) :=
  fun M m => (hx M m).except_bind (fun _ _ _ => trivial) fun m' a _ => hrest a M m'

theorem attempt_bind {x : Except AppError A} {f : A → Handler B}
    (hrest : ∀ a, x = .ok a → Keeps R (f a)) : Keeps R (attempt x >>= f : Handler B) :=
  fun M m => .attempt_bind (fun _ _ => trivial) fun a ha => hrest a ha M m

theorem ask_bind {c : Call} {f : Answer c → Handler B} (hc : R.permits c)
    (hrest : ∀ r, Keeps R (f r)) : Keeps R (ask c >>= f : Handler B) :=
  fun M m => (R.quiet hc m).ask_bind fun r => hrest r M m

theorem statement_bind {st : Statement} {f : st.Rows → Handler B} (hc : R.permits (.db st))
    (hrest : ∀ rows, R.answers (.db st) (.ok rows) → Keeps R (f rows)) :
    Keeps R (statement st >>= f : Handler B) :=
  fun M m => (R.quiet hc m).statement_bind (fun _ => trivial) fun rows h => hrest rows h.1 M m

theorem draw_bind {c : Call} {f : Answer c → Handler B} (hc : harmless c = true)
    (hrest : ∀ r, Keeps R (f r)) : Keeps R (ask c >>= f : Handler B) :=
  ask_bind (R.permits_harmless c hc) hrest

theorem read_bind {st : Statement} {f : st.Rows → Handler B} (hc : harmless (.db st) = true)
    (hrest : ∀ rows, R.answers (.db st) (.ok rows) → Keeps R (f rows)) :
    Keeps R (statement st >>= f : Handler B) :=
  statement_bind (R.permits_harmless _ hc) hrest

theorem keeps_statement {st : Statement} (hc : R.permits (.db st)) : Keeps R (statement st) := by
  refine ask_bind hc fun answer => ?_
  cases answer with
  | error e => exact fun _ _ => .throw trivial
  | ok rows => exact keeps_pure rows

theorem findKey_bind {id : Uuid} {f : ApiKey → Handler B}
    (hrest : ∀ existing, R.answers (.db (.findKey id)) (.ok (some existing)) →
      Keeps R (f existing)) :
    Keeps R (do
      let found ← statement (.findKey id)
      let existing ← attempt (orNotFound found)
      f existing : Handler B) := by
  refine read_bind rfl fun found hfound => attempt_bind fun existing hexisting => ?_
  cases orNotFound_ok hexisting
  exact hrest existing hfound

theorem findEndpoint_bind {id : Uuid} {f : Endpoint → Handler B}
    (hrest : ∀ existing, R.answers (.db (.findEndpoint id)) (.ok (some existing)) →
      Keeps R (f existing)) :
    Keeps R (do
      let found ← statement (.findEndpoint id)
      let existing ← attempt (orNotFound found)
      f existing : Handler B) := by
  refine read_bind rfl fun found hfound => attempt_bind fun existing hexisting => ?_
  cases orNotFound_ok hexisting
  exact hrest existing hfound

theorem sealed_bind {app : AppState} {secret : String} {f : String → Handler B}
    (hrest : ∀ nonce text, app.crates.sealSecret nonce secret = some text → Keeps R (f text)) :
    Keeps R (sealed app secret >>= f : Handler B) :=
  fun M m => (R.quiet_harmless rfl m).sealed_bind (fun _ => trivial) fun nonce text h =>
    hrest nonce text h M m

theorem keeps_createAuditLog {entry : AuditEntry}
    (hinsert : ∀ id t, R.permits (.db (.insertAudit (entry.row id t)))) :
    Keeps R (createAuditLog entry) :=
  keeps_of_still fun _ m => still_createAuditLog (R.quiet_harmless rfl m) (R.quiet_harmless rfl m)
    fun id t => R.quiet (hinsert id t) m

/-- The entry on the trail, and then the answer. -/
theorem entry_bind {entry : AuditEntry}
    (hinsert : ∀ id t, R.permits (.db (.insertAudit (entry.row id t)))) (a : A) :
    Keeps R (createAuditLog entry >>= fun _ => pure a : Handler A) :=
  keeps_then (keeps_createAuditLog hinsert) fun _ => keeps_pure a

theorem keeps_generateSecret : Keeps R generateSecret :=
  keeps_of_still fun _ m => still_generateSecret (R.quiet_harmless rfl m)

theorem keeps_validateGroupAccess (key : ApiKey) (vaultGroups : String) :
    Keeps R (validateGroupAccess key vaultGroups) :=
  keeps_of_still fun _ m => still_validateGroupAccess (R.quiet_harmless rfl m) vaultGroups

theorem keeps_checkGroups (key : ApiKey) (vaultGroups : Option String) :
    Keeps R (checkGroups key vaultGroups) :=
  keeps_of_still fun _ m => still_checkGroups (R.quiet_harmless rfl m) vaultGroups

theorem keeps_checkOwner (owner : Option Uuid) : Keeps R (checkOwner owner) :=
  keeps_of_still fun _ m => still_checkOwner (fun _ => R.quiet_harmless rfl m) owner

theorem keeps_currentGroups (app : AppState) : Keeps R (currentGroups app) :=
  keeps_of_still fun _ m => still_currentGroups (R.quiet_harmless rfl m) app

theorem keeps_answer {wrap : A → Response} {h : Handler A} (hh : Keeps R h) :
    Keeps R (answer wrap h) :=
  keeps_then hh fun _ => keeps_pure _

end Rules
end SimplyIpExporter.HandlerRules
