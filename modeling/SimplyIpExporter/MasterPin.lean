import SimplyIpExporter.RequestAuthentication

/-!
# One Master identity per process

The identity of the Master is kept in a cell that is written once. It is read from
the database, at startup or on first use, and the rows it is read from may change at
any moment; several requests may read different rows before one of them stores. Each
of them then asks the cell again, and decides by what the cell says.

What carries the argument is that an answer of the cell stays its answer. A program
is watched for the last answer it got; everything it concludes agrees with that.
-/
namespace SimplyIpExporter.MasterPin
open IpAddresses Entities RequestAuthentication Programs Interleaving

inductive MasterPinError where
  | noMaster
  | duplicates (ids : List Uuid)
  | missingConstraint
  | db (e : DbErr)
  deriving DecidableEq, Repr

abbrev Pinning := ExceptT MasterPinError (Program AuthAnswer)

def resolveInner : Pinning Uuid := do
  let masters : Except DbErr (List ApiKey) ← ask AuthCall.findMasters
  attempt (match masters with
    | .error e => .error (.db e)
    | .ok [] => .error .noMaster
    | .ok [master] => .ok master.id
    | .ok masters => .error (.duplicates (masters.map (·.id))))

/-- The answer of the catalogue query for the unique index is an argument. -/
def requireIndex : Except DbErr Bool → Except MasterPinError Unit
  | .error e => .error (.db e)
  | .ok false => .error .missingConstraint
  | .ok true => .ok ()

def pinAtBoot (hasIndex : Except DbErr Bool) : Pinning Uuid := do
  attempt (requireIndex hasIndex)
  let id ← resolveInner
  let _ ← ask (AuthCall.pin id)
  let pinned : Option Uuid ← ask AuthCall.pinned
  pure (pinned.getD id)

inductive PinTask where
  | authenticate (key : ApiKey)
  | resolve
  | pinAtBoot (hasIndex : Except DbErr Bool)
  | request (config : Config) (req : Request)

inductive PinOutcome where
  | key (key : ApiKey)
  | pinned (id : Option Uuid)
  | booted (outcome : Except MasterPinError Uuid)
  | request (outcome : Except Abort (ApiKey × IpAddr))

def PinTask.program : PinTask → Program AuthAnswer PinOutcome
  | .authenticate key => RequestAuthentication.authenticate key >>= fun key => pure (.key key)
  | .resolve => RequestAuthentication.resolve >>= fun id => pure (.pinned id)
  | .pinAtBoot hasIndex =>
      (show Program AuthAnswer (Except MasterPinError Uuid) from MasterPin.pinAtBoot hasIndex) >>=
        fun outcome => pure (.booted outcome)
  | .request config req =>
      (show Program AuthAnswer (Except Abort (ApiKey × IpAddr)) from authMiddleware config req) >>=
        fun outcome => pure (.request outcome)

/-- The key as `authenticate` left it. -/
def PinOutcome.authenticated : PinOutcome → Option ApiKey
  | .key k => some k
  | .request (.ok (k, _)) => some k
  | _ => none

/-- The Master identity an outcome stands for. -/
def PinOutcome.identity : PinOutcome → Option Uuid
  | .key k => if k.isMaster then some k.id else none
  | .pinned id => id
  | .booted (.ok id) => some id
  | .request (.ok (k, _)) => if k.isMaster then some k.id else none
  | _ => none

theorem PinOutcome.identity_of_authenticated {o : PinOutcome} {key : ApiKey}
    (h : o.authenticated = some key) (hmaster : key.isMaster = true) :
    o.identity = some key.id := by
  unfold authenticated at h
  split at h <;> cases h <;> simp [identity, hmaster]

structure Watch where
  /-- The last answer of the cell. -/
  pin : Option Uuid
  /-- An identity has been offered to the cell. -/
  stored : Bool
  /-- The row the request's key was looked up as. -/
  row : Option ApiKey

def Watch.start : Watch := ⟨none, false, none⟩

/-- Nothing is forbidden. Once an identity has been offered, the cell is not empty. -/
def watching : Policy AuthAnswer Watch where
  permits _ _ := True
  moves w
    | .pinned, r, w' => (w.stored = true → r ≠ none) ∧ w' = { w with pin := r }
    | .pin _, _, w' => w' = { w with stored := true }
    | .findKeyByHash _, .ok (some row), w' => w' = { w with row := some row }
    | _, _, w' => w' = w

/-- The key is still called the Master only if the cell says so, and is then the row
itself. -/
def Confirms (row : ApiKey) (w : Watch) (key : ApiKey) : Prop :=
  key.isMaster = true → w.pin = some key.id ∧ key = row

theorem resolve_follows (w : Watch) :
    Follows watching (fun w' id => w'.pin = id ∧ w'.row = w.row) resolve w := by
  refine Follows.perform_bind trivial ?_
  rintro (_ | id) _ ⟨-, rfl⟩
  · refine Follows.perform_bind trivial ?_
    rintro (_ | _ | ⟨master, _ | _⟩) _ rfl
    · exact Follows.pure ⟨rfl, rfl⟩
    · exact Follows.pure ⟨rfl, rfl⟩
    · refine Follows.perform_bind trivial ?_
      rintro _ _ rfl
      refine Follows.perform (c := AuthCall.pinned) trivial ?_
      rintro id _ ⟨-, rfl⟩
      exact ⟨rfl, rfl⟩
    · exact Follows.pure ⟨rfl, rfl⟩
  · exact Follows.pure ⟨rfl, rfl⟩

theorem authenticate_follows (row : ApiKey) (w : Watch) :
    Follows watching (fun w' key => Confirms row w' key ∧ w'.row = w.row) (authenticate row) w := by
  unfold authenticate
  split
  · rename_i hmaster
    refine Follows.pure ⟨?_, rfl⟩
    intro hclaims
    simp [hclaims] at hmaster
  · refine (resolve_follows w).bind ?_
    rintro w' pinned ⟨hpin, hrow⟩
    refine Follows.pure ⟨?_, hrow⟩
    by_cases hsame : pinned = some row.id
    · rw [if_pos hsame]
      exact fun _ => ⟨hpin.trans hsame, rfl⟩
    · rw [if_neg hsame]
      intro hclaims
      cases hclaims

theorem resolveInner_follows (w : Watch) :
    Follows watching (fun w' _ => w' = w) (resolveInner : Pinning Uuid) w := by
  refine Follows.ask_bind trivial ?_
  rintro masters _ rfl
  exact follows_value.mpr rfl

theorem pinAtBoot_follows (hasIndex : Except DbErr Bool) (w : Watch) :
    Follows watching (fun w' outcome => ∀ id, outcome = .ok id → w'.pin = some id)
      (pinAtBoot hasIndex : Pinning Uuid) w := by
  refine Follows.attempt_bind (fun e _ id h => by cases h) fun _ _ => ?_
  refine (resolveInner_follows w).except_bind (fun w' e _ id h => by cases h) ?_
  intro w' id _
  refine Follows.ask_bind trivial ?_
  rintro _ _ rfl
  refine Follows.ask_bind trivial ?_
  rintro pinned _ ⟨hset, rfl⟩
  refine Follows.ok ?_
  rintro id' ⟨⟩
  cases pinned with
  | none => exact absurd rfl (hset rfl)
  | some id' => rfl

section Requests
variable {config : Config} {req : Request}

/-- The request goes on with a key that the cell has confirmed. -/
def Accepts (w : Watch) (key : ApiKey) : Prop :=
  key.isMaster = true → w.pin = some key.id ∧ w.row = some key

theorem watching_passesGuard : PassesGuard watching := by
  intro w c hc
  refine ⟨trivial, ?_⟩
  cases c with
  | instantNow | overCapacity | schedule now crowded | sweep now | honour id now =>
      exact fun _ _ h => h
  | _ => cases hc

theorem verifyRequest_follows (w : Watch) :
    Follows watching (fun w' outcome => ∀ key, outcome = .ok key → Accepts w' key)
      (verifyRequest config req) w := by
  have hrefused : ∀ (w : Watch) (e : Abort) (key : ApiKey), Except.error e = .ok key →
      Accepts w key := by
    intro w e key h
    cases h
  unfold verifyRequest
  refine Follows.attempt_bind (fun e _ => hrefused _ e) fun presented _ => ?_
  refine Follows.attempt_bind (fun e _ => hrefused _ e) fun text _ => ?_
  refine Follows.ask_bind trivial ?_
  rintro now _ rfl
  refine Follows.attempt_bind (fun e _ => hrefused _ e) fun _ _ => ?_
  refine Follows.attempt_bind (fun e _ => hrefused _ e) fun signature _ => ?_
  refine Follows.ask_bind trivial ?_
  intro found w₁ hfound
  refine Follows.attempt_bind (fun e _ => hrefused _ e) ?_
  rintro row hrow
  have hlooked₁ : w₁.row = some row := by
    unfold foundKey at hrow
    split at hrow <;> cases hrow
    rw [hfound]
  refine Follows.always_bind (authenticate_follows row w₁) ?_
  rintro w₂ key ⟨hconfirms, hlooked⟩
  have haccepts : Accepts w₂ key := by
    intro hmaster
    obtain ⟨hpin, rfl⟩ := hconfirms hmaster
    exact ⟨hpin, hlooked.trans hlooked₁⟩
  refine Follows.attempt_bind (fun e _ => hrefused _ e) fun secret _ => ?_
  refine Follows.attempt_bind (fun e _ => hrefused _ e) fun _ _ => ?_
  refine Follows.ask_bind trivial ?_
  rintro arrived _ rfl
  refine Follows.attempt_bind (fun e _ => hrefused _ e) fun _ _ => ?_
  refine Follows.attempt_bind (fun e _ => hrefused _ e) fun digest _ => ?_
  refine Follows.always_bind (checkAndRecord_still watching_passesGuard _ _) ?_
  rintro _ fresh rfl
  split
  · refine Follows.ok ?_
    rintro key' ⟨⟩
    exact haccepts
  · exact Follows.throw (hrefused _ _)

theorem isAllowed_follows (clientIp : IpAddr) (entries : List BoundIps.BoundIpEntry) (w : Watch) :
    Follows watching (fun w' _ => w' = w) (isAllowed clientIp entries) w := by
  induction entries with
  | nil => exact Follows.pure rfl
  | cons entry rest ih =>
      cases entry with
      | network net =>
          unfold isAllowed
          split
          · exact Follows.pure rfl
          · exact ih
      | hostname name =>
          refine Follows.perform_bind trivial ?_
          rintro nets _ rfl
          split
          · exact Follows.pure rfl
          · exact ih

theorem authMiddleware_follows (w : Watch) :
    Follows watching (fun w' outcome => ∀ key ip, outcome = .ok (key, ip) → Accepts w' key)
      (authMiddleware config req) w := by
  refine Follows.ask_bind trivial ?_
  rintro proxies _ rfl
  refine (verifyRequest_follows _).except_bind (fun w' e _ key ip h => by cases h) ?_
  intro w' key hkey
  have haccepts := hkey key rfl
  refine Follows.attempt_bind (fun e _ key ip h => by cases h) fun entries _ => ?_
  have hchecked : Follows watching (fun w'' _ => w'' = w')
      (if entries.isEmpty then pure true
        else isAllowed (ClientAddress.resolveClientIp req.peer req.headers proxies) entries)
      w' := by
    split
    · exact Follows.pure rfl
    · exact isAllowed_follows _ entries w'
  refine Follows.always_bind hchecked ?_
  rintro _ allowed rfl
  split
  · refine Follows.ok ?_
    rintro key' ip ⟨⟩
    exact haccepts
  · exact Follows.throw fun key ip h => by cases h

end Requests

/-- What an outcome says agrees with what its program was told. -/
structure Vouches (t : PinTask) (w : Watch) (o : PinOutcome) : Prop where
  identity : ∀ id, o.identity = some id → w.pin = some id
  demotes : ∀ key key', t = .authenticate key → o = .key key' → key'.isMaster = true → key' = key
  looked : ∀ key ip, o = .request (.ok (key, ip)) → key.isMaster = true → w.row = some key

theorem program_follows (t : PinTask) : Follows watching (Vouches t) t.program .start := by
  cases t with
  | authenticate key =>
      refine (authenticate_follows key .start).bind ?_
      rintro w key' ⟨hconfirms, -⟩
      refine Follows.pure ⟨?_, ?_, ?_⟩
      · intro id hid
        simp only [PinOutcome.identity, Option.ite_none_right_eq_some] at hid
        obtain ⟨hmaster, ⟨⟩⟩ := hid
        exact (hconfirms hmaster).1
      · rintro _ _ ⟨⟩ ⟨⟩ hmaster
        exact (hconfirms hmaster).2
      · rintro key ip ⟨⟩
  | resolve =>
      refine (resolve_follows .start).bind ?_
      rintro w id ⟨hpin, -⟩
      refine Follows.pure ⟨fun id' hid => hpin.trans hid, ?_, ?_⟩
      · rintro key key' ⟨⟩
      · rintro key ip ⟨⟩
  | pinAtBoot hasIndex =>
      refine (pinAtBoot_follows hasIndex .start).bind ?_
      intro w outcome hpin
      refine Follows.pure ⟨?_, ?_, ?_⟩
      · intro id hid
        cases outcome with
        | error e => cases hid
        | ok id' => exact hpin id (congrArg Except.ok (Option.some.inj hid))
      · rintro key key' ⟨⟩
      · rintro key ip ⟨⟩
  | request config req =>
      refine (authMiddleware_follows .start).bind ?_
      intro w outcome haccepts
      refine Follows.pure ⟨?_, ?_, ?_⟩
      · intro id hid
        cases outcome with
        | error e => cases hid
        | ok found =>
            simp only [PinOutcome.identity, Option.ite_none_right_eq_some] at hid
            obtain ⟨hmaster, ⟨⟩⟩ := hid
            exact (haccepts found.1 found.2 rfl hmaster).1
      · rintro key key' ⟨⟩
      · rintro key ip ⟨⟩ hmaster
        exact (haccepts key ip rfl hmaster).2

section Runs
variable {I : Type} [DecidableEq I]

def pool (tasks : I → PinTask) (s : AuthState) : Pool AuthAnswer I PinOutcome AuthState :=
  ⟨s, fun i => (tasks i).program⟩

/-- The row was in the table at some moment of the run. -/
def RowOnce (tasks : I → PinTask) (s₀ : AuthState) (events : List (Event I Choice Change))
    (row : ApiKey) : Prop :=
  ∃ past rest p, events = past ++ rest ∧ run system (pool tasks s₀) past = some p ∧
    row ∈ p.state.keys

theorem RowOnce.append {tasks : I → PinTask} {s₀ : AuthState}
    {events more : List (Event I Choice Change)} {row : ApiKey}
    (h : RowOnce tasks s₀ events row) : RowOnce tasks s₀ (events ++ more) row := by
  obtain ⟨past, rest, p, rfl, hrun, hrow⟩ := h
  exact ⟨past, rest ++ more, p, by simp, hrun, hrow⟩

/-- The cell still says what it said to anybody. -/
structure StillSays (tasks : I → PinTask) (s₀ : AuthState) (past : List (Event I Choice Change))
    (ms : I → Watch) (s : AuthState) : Prop where
  pin : ∀ i id, (ms i).pin = some id → s.pin = some id
  stored : ∀ i, (ms i).stored = true → s.pin ≠ none
  row : ∀ i row, (ms i).row = some row → RowOnce tasks s₀ past row

variable {tasks : I → PinTask} {s₀ : AuthState} {past : List (Event I Choice Change)}
  {ms : I → Watch} {s s' : AuthState}

/-- A call that keeps what the cell says keeps the agreement of everybody else. -/
theorem StillSays.update {i : I} {ev : Event I Choice Change} {w' : Watch}
    (h : StillSays tasks s₀ past ms s) (hcell : ∀ id, s.pin = some id → s'.pin = some id)
    (hpin : ∀ id, w'.pin = some id → s'.pin = some id)
    (hstored : w'.stored = true → s'.pin ≠ none)
    (hrow : ∀ row, w'.row = some row → RowOnce tasks s₀ past row) :
    StillSays tasks s₀ (past ++ [ev]) (Function.update ms i w') s' := by
  have hkeeps : s.pin ≠ none → s'.pin ≠ none := by
    intro hne
    obtain ⟨id, hid⟩ := Option.ne_none_iff_exists'.mp hne
    rw [hcell id hid]
    exact Option.some_ne_none id
  refine ⟨fun j id hj => ?_, fun j hj => ?_, fun j row hj => ?_⟩ <;> by_cases hji : j = i
  · subst hji
    rw [Function.update_self] at hj
    exact hpin id hj
  · rw [Function.update_of_ne hji] at hj
    exact hcell id (h.pin j id hj)
  · subst hji
    rw [Function.update_self] at hj
    exact hstored hj
  · rw [Function.update_of_ne hji] at hj
    exact hkeeps (h.stored j hj)
  · subst hji
    rw [Function.update_self] at hj
    exact (hrow row hj).append
  · rw [Function.update_of_ne hji] at hj
    exact (h.row j row hj).append

/-- Only offering an identity reaches the cell, and a full cell stays as it is. -/
theorem exec_pin {c : AuthCall} {e : Choice} {r : AuthAnswer c} (h : exec c e s = some (r, s')) :
    s'.pin = match c with
      | .pin id => s.pin.or (some id)
      | _ => s.pin := by
  unfold exec at h
  split at h <;> cases h <;> rfl

theorem exec_pinned {e : Choice} {r : Option Uuid} (h : exec .pinned e s = some (r, s')) :
    r = s.pin := by
  cases h
  rfl

theorem StillSays.step {i : I} {c : AuthCall} {e : Choice} {r : AuthAnswer c}
    {p : Pool AuthAnswer I PinOutcome AuthState}
    (h : StillSays tasks s₀ past ms p.state) (hrun : run system (pool tasks s₀) past = some p)
    (hexec : exec c e p.state = some (r, s')) :
    ∃ w', watching.moves (ms i) c r w' ∧
      StillSays tasks s₀ (past ++ [.act i e]) (Function.update ms i w') s' := by
  have hpin := exec_pin hexec
  have hcell : ∀ id, p.state.pin = some id → s'.pin = some id := by
    intro id hid
    rw [hpin]
    split <;> simp [hid]
  have hstays : ∀ id, (ms i).pin = some id →
      s'.pin = some id := fun id hid => hcell id (h.pin i id hid)
  have hfull : (ms i).stored = true → s'.pin ≠ none := by
    intro hstored
    obtain ⟨id, hid⟩ := Option.ne_none_iff_exists'.mp (h.stored i hstored)
    rw [hcell id hid]
    exact Option.some_ne_none id
  have hsame : StillSays tasks s₀ (past ++ [.act i e]) (Function.update ms i (ms i)) s' :=
    h.update hcell hstays hfull (h.row i)
  cases c with
  | pinned =>
      obtain rfl := exec_pinned hexec
      exact ⟨_, ⟨h.stored i, rfl⟩, h.update hcell hcell hfull (h.row i)⟩
  | pin id =>
      refine ⟨_, rfl, h.update hcell hstays (fun _ => ?_) (h.row i)⟩
      rw [hpin]
      cases p.state.pin <;> simp
  | findKeyByHash hash =>
      match r, hexec with
      | .error _, _ => exact ⟨ms i, rfl, hsame⟩
      | .ok none, _ => exact ⟨ms i, rfl, hsame⟩
      | .ok (some row), hexec =>
          refine ⟨_, rfl, h.update hcell hstays hfull ?_⟩
          rintro row' ⟨⟩
          exact ⟨past, [], p, by simp, hrun, List.mem_of_find?_eq_some (exec_findKeyByHash hexec)⟩
  | _ => exact ⟨ms i, rfl, hsame⟩

theorem StillSays.world {ch : Change} (h : StillSays tasks s₀ past ms s)
    (henv : env ch s = some s') :
    StillSays tasks s₀ (past ++ [.world ch]) ms s' := by
  have hpin : s'.pin = s.pin := by
    cases ch <;> cases henv <;> rfl
  refine ⟨?_, ?_, fun i row hi => (h.row i row hi).append⟩
  · rw [hpin]
    exact h.pin
  · rw [hpin]
    exact h.stored

theorem run_stillSays {events : List (Event I Choice Change)}
    {q : Pool AuthAnswer I PinOutcome AuthState}
    (hrun : run system (pool tasks s₀) events = some q) :
    ∃ ms, Watched (fun _ => watching) (fun i => Vouches (tasks i))
      (StillSays tasks s₀) events q ms := by
  have hstart : Watched (fun _ => watching) (fun i => Vouches (tasks i)) (StillSays tasks s₀) []
      (pool tasks s₀) fun _ => .start := by
    refine ⟨fun i => program_follows (tasks i), ?_, ?_, ?_⟩
    · rintro i id ⟨⟩
    · rintro i ⟨⟩
    · rintro i row ⟨⟩
  refine run_watched _ _ _ (fun _ _ => True) hstart ?_ ?_ hrun fun _ _ _ _ _ _ => trivial
  · intro past p ms i e c next r s' hp hagrees _ _ _ hexec
    exact hagrees.inv.step hp hexec
  · intro past p ms ch s' _ hagrees _ henv
    exact hagrees.inv.world henv

/-- In every run of authentications, resolutions, startups and whole requests, while
the rows of `api_keys` are edited in any way, from any state of the cell:

* all of them that end stand for one and the same Master identity;
* in particular all keys that leave `authenticate` as the Master have one id;
* a key that leaves `authenticate` as the Master is the row it was called with, and for
  a request that row was in the table; so a row that does not claim to be the Master
  is never promoted. -/
theorem one_master_identity {events : List (Event I Choice Change)}
    {q : Pool AuthAnswer I PinOutcome AuthState}
    (hrun : run system (pool tasks s₀) events = some q) :
    (∀ i j o o' id id', q.outcome i = some o → q.outcome j = some o' → o.identity = some id →
      o'.identity = some id' → id = id') ∧
    (∀ i j o o' key key', q.outcome i = some o → q.outcome j = some o' →
      o.authenticated = some key → o'.authenticated = some key' →
      key.isMaster = true → key'.isMaster = true → key.id = key'.id) ∧
    (∀ i key key', tasks i = .authenticate key → q.outcome i = some (.key key') →
      key'.isMaster = true → key' = key) ∧
    (∀ i key ip, q.outcome i = some (.request (.ok (key, ip))) → key.isMaster = true →
      RowOnce tasks s₀ events key) := by
  obtain ⟨ms, hfollows, hagrees⟩ := run_stillSays hrun
  have hvouches : ∀ i o, q.outcome i = some o → Vouches (tasks i) (ms i) o := by
    intro i o ho
    have hi := hfollows i
    rw [Pool.outcome_eq_some.mp ho] at hi
    exact follows_value.mp hi
  have hone : ∀ i j o o' id id', q.outcome i = some o → q.outcome j = some o' →
      o.identity = some id → o'.identity = some id' → id = id' := by
    intro i j o o' id id' ho ho' hid hid'
    have hpin := hagrees.pin i id ((hvouches i o ho).identity id hid)
    have hpin' := hagrees.pin j id' ((hvouches j o' ho').identity id' hid')
    exact Option.some.inj (hpin.symm.trans hpin')
  refine ⟨hone, ?_, ?_, ?_⟩
  · intro i j o o' key key' ho ho' hkey hkey' hmaster hmaster'
    exact hone i j o o' key.id key'.id ho ho' (PinOutcome.identity_of_authenticated hkey hmaster)
      (PinOutcome.identity_of_authenticated hkey' hmaster')
  · intro i key key' ht ho hmaster
    exact (hvouches i _ ho).demotes key key' ht rfl hmaster
  · intro i key ip ho hmaster
    exact hagrees.row i key ((hvouches i _ ho).looked key ip rfl hmaster)

end Runs

def claimant (id : Uuid) : ApiKey where
  id := id
  name := "claimant"
  keyPrefix := "abcdefgh"
  keyHash := "hash"
  signingSecret := none
  boundIps := none
  isMaster := true
  canManageKeys := true
  parentKeyId := none
  ownerKeyId := none
  createdAt := 0
  updatedAt := 0

def raceTasks : Bool → PinTask
  | false => .authenticate (claimant 1)
  | true => .authenticate (claimant 2)

def raceStart : AuthState := ⟨0, [claimant 1], none, .new 300 0⟩

def raceEvents : List (Event Bool Choice Change) :=
  [.act false .succeed, .act false .succeed, .world (.editKeys [claimant 2]), .act true .succeed,
    .act true .succeed, .act true .succeed, .act false .succeed, .act false .succeed,
    .act true .succeed]

theorem one_master_identity_race :
    ∃ q, run system (pool raceTasks raceStart) raceEvents = some q ∧
      (q.outcome true).bind (·.identity) = some 2 ∧
      ∀ o key, q.outcome false = some o → o.authenticated = some key → key.isMaster = true →
        key.id = 2 := by
  have hends : (run system (pool raceTasks raceStart) raceEvents).map
      (fun q => (q.outcome true).bind (·.identity)) = some (some 2) := by
    decide +kernel
  obtain ⟨q, hrun, hwins⟩ := Option.map_eq_some_iff.mp hends
  refine ⟨q, hrun, hwins, ?_⟩
  intro o key ho hkey hmaster
  obtain ⟨o', ho', hid⟩ := Option.bind_eq_some_iff.mp hwins
  exact (one_master_identity hrun).1 false true o o' key.id 2 ho ho'
    (PinOutcome.identity_of_authenticated hkey hmaster) hid

end SimplyIpExporter.MasterPin
