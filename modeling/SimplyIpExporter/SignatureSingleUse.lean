import Mathlib.Algebra.Order.Group.Abs
import Mathlib.Algebra.Order.Group.Int
import SimplyIpExporter.RequestAuthentication

/-!
# Single use of signatures

Requests of one process run interleaved, while time passes and key rows change.
Two requests that present the same key and the same signed parts must not both
get past the replay guard.

The guard forgets a signature a fixed time after its acceptance, while its
freshness is counted from the timestamp its signer chose, in both directions and
at another moment. The two agree when every request reaches the guard while its
timestamp is still fresh, at an instant from which the guard's memory outlasts
that freshness. Under this condition no signature is used twice, whatever the
interleaving; without it a signature dated ahead is accepted twice.
-/
namespace SimplyIpExporter.SignatureSingleUse
open Entities CanonicalSigning ReplayGuard RequestAuthentication Programs Interleaving

def SameSigned (req req' : Request) : Prop :=
  req.apiKey = req'.apiKey ∧ req.method = req'.method ∧ req.target = req'.target ∧
    req.timestampText = req'.timestampText ∧ req.body = req'.body

abbrev AuthPool := Pool AuthAnswer ℕ (Except Abort ApiKey) AuthState

def pool (config : Config) (requests : ℕ → Request) (start : AuthState) : AuthPool :=
  { state := start, threads := fun i => verifyRequest config (requests i) }

def Passed (p : AuthPool) (i : ℕ) : Prop := ∃ key, p.outcome i = some (.ok key)

/-- A process starts with an empty guard. -/
def Started (config : Config) (start : AuthState) : Prop :=
  start.guard = Guard.new config.signatureMaxAgeSeconds start.clock

/-- The last second in which the timestamp of a request is fresh. -/
def deadline (config : Config) (req : Request) : Option ℤ :=
  (req.timestampText.bind parseTimestamp).map (· + config.signatureMaxAgeSeconds)

/-- The signature a request has to carry, when its key stands for `signer`: the
id of its row and its stored secret. -/
def expectedId (config : Config) (signer : String → Uuid × Option String) (req : Request) :
    Option SignatureId :=
  req.apiKey.bind fun key => req.timestampText.bind fun text =>
    (signer key).2.bind fun stored => (config.crates.openSecret stored).bind fun secret =>
      (config.crates.hmacSha256 secret).map fun mac =>
        ⟨(signer key).1, mac (canonicalV1Payload req.method req.target text req.body)⟩

theorem SameSigned.symm {req req' : Request} (h : SameSigned req req') : SameSigned req' req :=
  ⟨h.1.symm, h.2.1.symm, h.2.2.1.symm, h.2.2.2.1.symm, h.2.2.2.2.symm⟩

theorem SameSigned.deadline_eq {config : Config} {req req' : Request} (h : SameSigned req req') :
    deadline config req = deadline config req' := by
  unfold deadline
  rw [h.2.2.2.1]

theorem SameSigned.expectedId_eq {config : Config} {signer : String → Uuid × Option String}
    {req req' : Request} (h : SameSigned req req') :
    expectedId config signer req = expectedId config signer req' := by
  obtain ⟨hkey, hmethod, htarget, htext, hbody⟩ := h
  unfold expectedId
  rw [hkey, hmethod, htarget, htext, hbody]

/-- The instant a request has read for the guard, and whether the guard let it pass. -/
structure Watch where
  reading : Option Instant
  passed : Bool

section Policy
variable (config : Config) (signer : String → Uuid × Option String) (req : Request)

def policy : Policy AuthAnswer Watch where
  permits m
    | .sweep now => m.reading = some now
    | .honour id now => m.reading = some now ∧ m.passed = false ∧
        expectedId config signer req = some id ∧ (deadline config req).isSome
    | _ => True
  moves m c r m' :=
    match c with
    | .instantNow => m' = { m with reading := some r }
    | .findKeyByHash _ => m' = m ∧ ∀ row, r = .ok (some row) →
        ∀ key, req.apiKey = some key → (row.id, row.signingSecret) = signer key
    | .honour _ _ => m' = { m with passed := r }
    | _ => m' = m

theorem resolve_follows (m : Watch) :
    Follows (policy config signer req) (fun m' _ => m' = m) resolve m := by
  refine Follows.perform_bind trivial ?_
  rintro (_ | id) m₁ rfl
  · refine Follows.perform_bind trivial ?_
    rintro (_ | _ | ⟨master, _ | _⟩) m₂ rfl
    · exact Follows.pure rfl
    · exact Follows.pure rfl
    · refine Follows.perform_bind trivial ?_
      rintro _ m₃ rfl
      exact Follows.perform (c := AuthCall.pinned) trivial fun _ _ h => h
    · exact Follows.pure rfl
  · exact Follows.pure rfl

theorem authenticate_follows (row : ApiKey) (m : Watch) :
    Follows (policy config signer req)
      (fun m' key => m' = m ∧ key.id = row.id ∧ key.signingSecret = row.signingSecret)
      (authenticate row) m := by
  unfold authenticate
  split_ifs with hmaster
  · exact Follows.pure ⟨rfl, rfl, rfl⟩
  · refine Follows.bind (resolve_follows config signer req m) ?_
    rintro m' pinned rfl
    apply Follows.pure
    split_ifs <;> exact ⟨rfl, rfl, rfl⟩

theorem pruneIfDue_follows (now : Instant) {m : Watch} (hm : m.reading = some now) :
    Follows (policy config signer req) (fun m' _ => m' = m) (pruneIfDue now) m := by
  refine Follows.perform_bind trivial ?_
  rintro crowded m₁ rfl
  refine Follows.perform_bind trivial ?_
  rintro due m₂ rfl
  cases due with
  | false => exact Follows.pure rfl
  | true => exact Follows.perform (c := AuthCall.sweep now) hm fun _ _ h => h

theorem checkAndRecord_follows {id : SignatureId} {m : Watch} (hm : m.passed = false)
    (hid : expectedId config signer req = some id) (hdead : (deadline config req).isSome) :
    Follows (policy config signer req) (fun m' fresh => m'.passed = fresh)
      (checkAndRecord id) m := by
  refine Follows.perform_bind trivial ?_
  rintro now m₁ rfl
  refine Follows.bind (pruneIfDue_follows config signer req now rfl) ?_
  rintro m' - rfl
  refine Follows.perform (c := AuthCall.honour id now) ?_ ?_
  · exact ⟨rfl, hm, hid, hdead⟩
  · rintro fresh m₂ rfl
    rfl

variable {config signer req}

theorem require_eq_ok {A : Type} {x : Option A} {message : String} {a : A}
    (h : require x message = .ok a) : x = some a := by
  cases x with
  | none => cases h
  | some b => cases h; rfl

theorem deadline_of_validateTimestamp {text : String} {now : ℤ} {u : Unit}
    (htext : req.timestampText = some text)
    (h : validateTimestamp config.build text config.signatureMaxAgeSeconds now = .ok u) :
    (deadline config req).isSome := by
  unfold validateTimestamp at h
  cases hp : parseTimestamp text with
  | none => simp [hp] at h
  | some t => simp [deadline, htext, hp]

theorem foundKey_eq_ok {found : Except DbErr (Option ApiKey)} {row : ApiKey}
    (h : foundKey found = .ok row) : found = .ok (some row) := by
  unfold foundKey at h
  split at h <;> cases h
  rfl

theorem expectedId_of_verified {key text secret signature : String} {record : ApiKey}
    {digest : List UInt8} (hkey : req.apiKey = some key) (htext : req.timestampText = some text)
    (hrecord : (record.id, record.signingSecret) = signer key)
    (hsecret : recoverSigningSecret config.crates record = .ok secret)
    (hdigest : verified (verifySignature config.crates secret
      (canonicalV1Payload req.method req.target text req.body) signature) = .ok digest) :
    expectedId config signer req = some ⟨record.id, digest⟩ := by
  have hmac : (config.crates.hmacSha256 secret).map (fun mac =>
      mac (canonicalV1Payload req.method req.target text req.body)) = some digest := by
    unfold verified at hdigest
    split at hdigest <;> cases hdigest
    rename_i hverify
    exact verifySignature_eq_ok hverify
  obtain ⟨mac, husable, rfl⟩ := Option.map_eq_some_iff.mp hmac
  have hopen : record.signingSecret.bind config.crates.openSecret = some secret := by
    unfold recoverSigningSecret at hsecret
    split at hsecret <;> [cases hsecret; split at hsecret <;> cases hsecret]
    simp_all
  obtain ⟨stored, hstored, hopen⟩ := Option.bind_eq_some_iff.mp hopen
  have hid : (signer key).1 = record.id := by rw [← hrecord]
  have hsec : (signer key).2 = some stored := by rw [← hrecord, hstored]
  simp only [expectedId, hkey, htext, hid, hsec, hopen, husable, Option.bind_some, Option.map_some]

/-- Only a request that the guard let pass ends well, and what it shows to the
guard is the signature expected of it. -/
theorem verifyRequest_follows :
    Follows (policy config signer req) (fun m result => ∀ key, result = .ok key → m.passed = true)
      (verifyRequest config req) ⟨none, false⟩ := by
  have herror : ∀ (m : Watch) (e : Abort) (key : ApiKey), Except.error e = .ok key →
      m.passed = true := by
    intro m e key h
    cases h
  unfold verifyRequest
  refine Follows.attempt_bind (fun e _ => herror _ e) ?_
  intro key hkey
  refine Follows.attempt_bind (fun e _ => herror _ e) ?_
  intro text htext
  refine Follows.ask_bind trivial ?_
  rintro now m rfl
  refine Follows.attempt_bind (fun e _ => herror _ e) ?_
  intro _ hvalid
  refine Follows.attempt_bind (fun e _ => herror _ e) ?_
  intro signature _
  refine Follows.ask_bind trivial ?_
  rintro found m ⟨rfl, hfound⟩
  refine Follows.attempt_bind (fun e _ => herror _ e) ?_
  intro row hrow
  refine Follows.always_bind (authenticate_follows config signer req row _) ?_
  rintro m record ⟨rfl, hid, hstored⟩
  refine Follows.attempt_bind (fun e _ => herror _ e) ?_
  intro secret hsecret
  refine Follows.attempt_bind (fun e _ => herror _ e) ?_
  intro _ _
  refine Follows.ask_bind trivial ?_
  rintro arrived m rfl
  refine Follows.attempt_bind (fun e _ => herror _ e) ?_
  intro _ _
  refine Follows.attempt_bind (fun e _ => herror _ e) ?_
  intro digest hdigest
  have hsigner := hfound row (foundKey_eq_ok hrow) key (require_eq_ok hkey)
  rw [← hid, ← hstored] at hsigner
  have hexpected := expectedId_of_verified (require_eq_ok hkey) (require_eq_ok htext) hsigner
    hsecret hdigest
  refine Follows.always_bind (checkAndRecord_follows config signer req rfl hexpected
    (deadline_of_validateTimestamp (require_eq_ok htext) hvalid)) ?_
  intro m fresh hfresh
  cases fresh with
  | false => exact Follows.throw (herror m _)
  | true => exact Follows.ok fun _ _ => hfresh

end Policy

section Runs
variable (config : Config) (requests : ℕ → Request) (signer : String → Uuid × Option String)

/-- The guard remembers every request it let pass for as long as its timestamp is
fresh, and has let no signature pass twice. -/
structure Inv (ms : ℕ → Watch) (s : AuthState) : Prop where
  window : s.guard.window = windowSeconds config.signatureMaxAgeSeconds * nanosPerSecond
  readings : ∀ i now, (ms i).reading = some now → now ≤ s.clock
  remembered : ∀ i id t, (ms i).passed = true → expectedId config signer (requests i) = some id →
    deadline config (requests i) = some t → s.guard.Remembers s.clock id t
  once : ∀ i j, i ≠ j → SameSigned (requests i) (requests j) →
    ¬ ((ms i).passed = true ∧ (ms j).passed = true)

/-- When the guard's last section may be reached: while the timestamp is fresh, and
with an instant from which the guard's memory outlasts that freshness. A lookup
may be made while the presented key stands for the row id and secret of `signer`. -/
def callOnTime (req : Request) (s : AuthState) : AuthCall → Bool
  | .honour _ now => (deadline config req).all fun t =>
      timestamp s.clock ≤ t && t < timestamp now + windowSeconds config.signatureMaxAgeSeconds
  | .findKeyByHash hash => (s.findKey hash).all fun row => req.apiKey.all fun key =>
      (row.id, row.signingSecret) = signer key
  | _ => true

/-- The condition on a run: every call is made on time. -/
def OnTime (p : AuthPool) : Event ℕ Choice Change → Prop
  | .world _ => True
  | .act i _ => (p.threads i).upcoming.all (callOnTime config signer (requests i) p.state) = true

instance (p : AuthPool) : DecidablePred (OnTime config requests signer p)
  | .world _ => inferInstanceAs (Decidable True)
  | .act _ _ => inferInstanceAs (Decidable (_ = _))

variable {config requests signer}

theorem Remembers.onGuard {g : Guard} {clock : Instant} {id : SignatureId} {t : ℤ} {c : AuthCall}
    {m : Watch} {req : Request} (h : g.Remembers clock id t)
    (hperm : (policy config signer req).permits m c)
    (hread : ∀ now, m.reading = some now → now ≤ clock) :
    (c.onGuard g).Remembers clock id t := by
  cases c with
  | schedule now crowded => exact h.schedule crowded
  | sweep now => exact h.sweep (hread now hperm)
  | honour id' now => exact h.honour id' (hread now hperm.1)
  | _ => exact h

/-- Moving one watching state keeps the invariant, when a request newly let pass
is remembered and is the first of its signature. -/
theorem Inv.update {ms : ℕ → Watch} {s s' : AuthState} {i : ℕ} {m' : Watch}
    (hinv : Inv config requests signer ms s) (hclock : s'.clock = s.clock)
    (hwindow : s'.guard.window = s.guard.window)
    (hkeep : ∀ id t, s.guard.Remembers s.clock id t → s'.guard.Remembers s'.clock id t)
    (hread : ∀ now, m'.reading = some now → now ≤ s'.clock)
    (hnew : m'.passed = true → (ms i).passed = true ∨
      (∀ id t, expectedId config signer (requests i) = some id →
        deadline config (requests i) = some t → s'.guard.Remembers s'.clock id t) ∧
      ∀ j, SameSigned (requests i) (requests j) → (ms j).passed = false) :
    Inv config requests signer (Function.update ms i m') s' := by
  have hothers : ∀ j, SameSigned (requests i) (requests j) → j ≠ i → m'.passed = true →
      (ms j).passed = true → False := by
    intro j hsame hj hi hpassed
    rcases hnew hi with hold | ⟨-, hfirst⟩
    · exact hinv.once i j (Ne.symm hj) hsame ⟨hold, hpassed⟩
    · rw [hfirst j hsame] at hpassed
      cases hpassed
  refine ⟨by rw [hwindow, hinv.window], ?_, ?_, ?_⟩
  · intro j now hj
    by_cases h : j = i
    · subst h
      rw [Function.update_self] at hj
      exact hread now hj
    · rw [Function.update_of_ne h] at hj
      rw [hclock]
      exact hinv.readings j now hj
  · intro j id t hj hid ht
    by_cases h : j = i
    · subst h
      rw [Function.update_self] at hj
      rcases hnew hj with hold | ⟨hrem, -⟩
      · exact hkeep id t (hinv.remembered j id t hold hid ht)
      · exact hrem id t hid ht
    · rw [Function.update_of_ne h] at hj
      exact hkeep id t (hinv.remembered j id t hj hid ht)
  · rintro j k hjk hsame ⟨hj, hk⟩
    by_cases hji : j = i
    · subst hji
      rw [Function.update_self] at hj
      rw [Function.update_of_ne (Ne.symm hjk)] at hk
      exact hothers k hsame (Ne.symm hjk) hj hk
    · rw [Function.update_of_ne hji] at hj
      by_cases hki : k = i
      · subst hki
        rw [Function.update_self] at hk
        exact hothers j hsame.symm hji hk hj
      · rw [Function.update_of_ne hki] at hk
        exact hinv.once j k hjk hsame ⟨hj, hk⟩

/-- The guard's last section: a pass is remembered, and no earlier request of the
same signature has passed, or this one would have been refused. -/
theorem Inv.honour {ms : ℕ → Watch} {s : AuthState} {i : ℕ} {id : SignatureId} {now : Instant}
    (hinv : Inv config requests signer ms s) (hread : (ms i).reading = some now)
    (hid : expectedId config signer (requests i) = some id)
    (hdead : (deadline config (requests i)).isSome)
    (hcond : callOnTime config signer (requests i) s (.honour id now) = true) :
    Inv config requests signer
      (Function.update ms i { ms i with passed := (s.guard.honour id now).1 })
      { s with guard := (s.guard.honour id now).2 } := by
  obtain ⟨t, ht⟩ := Option.isSome_iff_exists.mp hdead
  obtain ⟨hclock, hwindow⟩ : timestamp s.clock ≤ t ∧
      t < timestamp now + windowSeconds config.signatureMaxAgeSeconds := by
    simpa [callOnTime, ht] using hcond
  have hnow := hinv.readings i now hread
  refine Inv.update hinv rfl (Guard.honour_window ..) ?_ (fun now' h => hinv.readings i now' h) ?_
  · exact fun id' t' h => h.honour id hnow
  intro hpass
  refine .inr ⟨?_, ?_⟩
  · intro id' t' hid' ht'
    rw [hid] at hid'
    rw [ht] at ht'
    cases hid'
    cases ht'
    exact Guard.remembers_of_honour hinv.window hpass hwindow
  · intro j hsame
    by_contra hj
    have hrem := hinv.remembered j id t (by simpa using hj) (hsame.expectedId_eq ▸ hid)
      (hsame.deadline_eq ▸ ht)
    have hrefused := hrem.refuses hnow hclock
    rw [hrefused] at hpass
    cases hpass

theorem Inv.step {ms : ℕ → Watch} {p : AuthPool} {i : ℕ} {e : Choice} {c : AuthCall}
    {next : AuthAnswer c → Program AuthAnswer (Except Abort ApiKey)} {r : AuthAnswer c}
    {s' : AuthState} (hinv : Inv config requests signer ms p.state)
    (hthread : p.threads i = .call c next) (hcond : OnTime config requests signer p (.act i e))
    (hperm : (policy config signer (requests i)).permits (ms i) c)
    (hexec : exec c e p.state = some (r, s')) :
    ∃ m', (policy config signer (requests i)).moves (ms i) c r m' ∧
      Inv config requests signer (Function.update ms i m') s' := by
  obtain ⟨hclock, hguard⟩ := exec_effect hexec
  have hcall : callOnTime config signer (requests i) p.state c = true := by
    simpa [OnTime, hthread, Program.upcoming] using hcond
  have hkeep : ∀ id t, p.state.guard.Remembers p.state.clock id t →
      s'.guard.Remembers s'.clock id t := by
    intro id t h
    rw [hclock, hguard]
    exact Remembers.onGuard h hperm (hinv.readings i)
  have hwindow : s'.guard.window = p.state.guard.window := by
    rw [hguard, AuthCall.onGuard_window]
  have hsame : Inv config requests signer (Function.update ms i (ms i)) s' := by
    apply hinv.update hclock hwindow hkeep
    · rw [hclock]
      exact hinv.readings i
    · exact fun h => .inl h
  cases c with
  | instantNow =>
      cases hexec
      refine ⟨{ ms i with reading := some p.state.clock }, rfl, ?_⟩
      apply hinv.update hclock hwindow hkeep
      · intro now hnow
        cases hnow
        exact le_refl _
      · exact fun h => .inl h
  | findKeyByHash hash =>
      refine ⟨ms i, ⟨rfl, ?_⟩, hsame⟩
      rintro row rfl key hkey
      simpa [callOnTime, exec_findKeyByHash hexec, hkey] using hcall
  | honour id now =>
      cases hexec
      exact ⟨_, rfl, hinv.honour hperm.1 hperm.2.2.1 hperm.2.2.2 hcall⟩
  | _ => exact ⟨ms i, rfl, hsame⟩

theorem Inv.world {ms : ℕ → Watch} {s s' : AuthState} {w : Change}
    (hinv : Inv config requests signer ms s) (henv : env w s = some s') :
    Inv config requests signer ms s' := by
  cases w with
  | advance nanos =>
      cases henv
      have hle : s.clock ≤ s.clock + nanos := le_add_of_nonneg_right (Int.natCast_nonneg nanos)
      exact ⟨hinv.window, fun i now h => le_trans (hinv.readings i now h) hle,
        fun i id t hi hid ht => (hinv.remembered i id t hi hid ht).advance hle, hinv.once⟩
  | editKeys rows =>
      cases henv
      exact ⟨hinv.window, hinv.readings, hinv.remembered, hinv.once⟩

theorem Inv.start {start : AuthState} (hstart : Started config start) :
    Inv config requests signer (fun _ => ⟨none, false⟩) start := by
  refine ⟨?_, ?_, ?_, ?_⟩
  · rw [hstart]
    rfl
  · intro i now h
    cases h
  · intro i id t h
    cases h
  · rintro i j _ _ ⟨h, -⟩
    cases h

end Runs

/-- In every interleaving that keeps the condition, two requests with the same key
and the same signed parts do not both get past the guard. -/
theorem singleUse_of_onTime (config : Config) (requests : ℕ → Request)
    (signer : String → Uuid × Option String) {start : AuthState} (hstart : Started config start)
    {events : List (Event ℕ Choice Change)} {q : AuthPool}
    (hrun : run system (pool config requests start) events = some q)
    (hcond : Along system (OnTime config requests signer) (pool config requests start) events)
    {i j : ℕ} (hij : i ≠ j) (hsame : SameSigned (requests i) (requests j)) :
    ¬ (Passed q i ∧ Passed q j) := by
  rintro ⟨⟨key, hi⟩, ⟨key', hj⟩⟩
  obtain ⟨ms, hms⟩ := run_watched (fun i => policy config signer (requests i))
    (fun _ m result => ∀ key, result = .ok key → m.passed = true)
    (fun _ ms s => Inv config requests signer ms s) (OnTime config requests signer)
    ⟨fun i => verifyRequest_follows, Inv.start hstart⟩
    (fun _ _ _ _ _ _ _ _ _ _ hinv hthread hc hperm hexec => hinv.inv.step hthread hc hperm hexec)
    (fun _ _ _ _ _ _ hinv _ henv => hinv.inv.world henv) hrun hcond
  have hpi := hms.follows i
  have hpj := hms.follows j
  rw [Pool.outcome_eq_some.mp hi, follows_value] at hpi
  rw [Pool.outcome_eq_some.mp hj, follows_value] at hpj
  exact hms.inv.once i j hij hsame ⟨hpi key rfl, hpj key' rfl⟩

def sampleConfig : Config :=
  { crates := sampleCrates, build := .checked, signatureMaxAgeSeconds := 300 }

def sampleRow : ApiKey :=
  { id := 7, name := "exporter", keyPrefix := "sie_exp1", keyHash := "6b6579",
    signingSecret := some "secret", boundIps := none, isMaster := false, canManageKeys := false,
    parentKeyId := none, ownerKeyId := none, createdAt := 0, updatedAt := 0 }

def sampleRequest (timestampText : ClientAddress.HeaderValue) : Request :=
  { method := "GET", target := "/api/endpoints"
    headers := [("x-api-key", ⟨utf8 "key", by decide⟩), ("x-timestamp", timestampText),
      ("x-signature-256", ⟨utf8 "sha256=ab", by decide⟩)]
    body := [], peer := .v4 0 }

/-- Second 1800000000, right after the start. -/
def sampleStart : AuthState :=
  { clock := 1800000000000000000, keys := [sampleRow], pin := none
    guard := Guard.new 300 1800000000000000000 }

/-- Two copies of a request dated one second back, one after the other. -/
def sampleEvents : List (Event ℕ Choice Change) :=
  List.replicate 7 (.act 0 .succeed) ++ List.replicate 7 (.act 1 .succeed)

def datedBack : Request := sampleRequest ⟨utf8 "1799999999", by decide⟩

def sampleSigner (_ : String) : Uuid × Option String := (7, some "secret")

theorem datedBack_run :
    ((checkedRun system (OnTime sampleConfig (fun _ => datedBack) sampleSigner)
      (pool sampleConfig (fun _ => datedBack) sampleStart) sampleEvents).bind fun q =>
        q.outcome 0) = some (.ok sampleRow) := by
  decide +kernel

theorem singleUse_of_onTime_datedBack :
    ∃ q, run system (pool sampleConfig (fun _ => datedBack) sampleStart) sampleEvents = some q ∧
      Passed q 0 ∧ ¬ (Passed q 0 ∧ Passed q 1) := by
  obtain ⟨q, hchecked, hpassed⟩ := Option.bind_eq_some_iff.mp datedBack_run
  obtain ⟨hrun, halong⟩ := checkedRun_eq_some hchecked
  have hstart : Started sampleConfig sampleStart := rfl
  exact ⟨q, hrun, ⟨sampleRow, hpassed⟩, singleUse_of_onTime sampleConfig (fun _ => datedBack)
    sampleSigner hstart hrun halong Nat.zero_ne_one ⟨rfl, rfl, rfl, rfl, rfl⟩⟩

/-- A request correctly signed for an ordinary key row, dated `t`. -/
structure DatedRequest (config : Config) (row : ApiKey) (t : ℤ) where
  req : Request
  key : String
  text : String
  stored : String
  secret : String
  header : String
  mac : List UInt8 → List UInt8
  apiKey_eq : req.apiKey = some key
  timestampText_eq : req.timestampText = some text
  parse_eq : parseTimestamp text = some t
  keyHash_eq : row.keyHash = config.crates.hashKey key
  ordinary : row.isMaster = false
  signingSecret_eq : row.signingSecret = some stored
  open_eq : config.crates.openSecret stored = some secret
  hmac_eq : config.crates.hmacSha256 secret = some mac
  header_eq : computeSignature config.crates secret
    (canonicalV1Payload req.method req.target text req.body) = some header
  signature_eq : req.signature = some header
  declared_ok : checkDeclaredLength req = .ok ()
  body_ok : req.body.length ≤ maxRequestBodyBytes

section Acceptance
variable {config : Config} {row : ApiKey} {t : ℤ}

def DatedRequest.id (r : DatedRequest config row t) : SignatureId :=
  ⟨row.id, r.mac (canonicalV1Payload r.req.method r.req.target r.text r.req.body)⟩

theorem validateTimestamp_ok {build : Build} {raw : String} {maxAge now : ℤ}
    (hparse : parseTimestamp raw = some t) (hmax : maxAge ≤ RustText.i64Max)
    (hskew : |now - t| ≤ maxAge) : validateTimestamp build raw maxAge now = .ok () := by
  have hbounds := abs_le.mp hskew
  have hmin : RustText.i64Min = -RustText.i64Max - 1 := by decide
  have hdiff : build.i64 (now - t) = some (now - t) := by
    unfold Build.i64
    rw [if_pos]
    omega
  have habs : build.i64 |now - t| = some |now - t| := by
    have hnonneg := abs_nonneg (now - t)
    unfold Build.i64
    rw [if_pos]
    omega
  simp only [validateTimestamp, hparse, hdiff, Option.bind_some, habs]
  rw [if_neg (by omega)]

/-- What a call of `check_and_record` at one instant leaves of the guard. -/
def swept (s : AuthState) : Guard :=
  let scheduled := s.guard.schedule s.clock s.guard.overCapacity
  if scheduled.1 then scheduled.2.sweep s.clock else scheduled.2

theorem swept_window (s : AuthState) : (swept s).window = s.guard.window := by
  simp only [swept]
  split_ifs <;> simp

theorem lookup_swept {s : AuthState} {id : SignatureId} {e : Instant}
    (h : (swept s).seen.lookup id = some e) : s.guard.seen.lookup id = some e := by
  simp only [swept] at h
  split_ifs at h
  · simpa using Guard.lookup_sweep h
  · simpa using h

theorem pruneIfDue_run (s : AuthState) :
    ∃ es, Programs.run exec (pruneIfDue s.clock) es s = some ((), { s with guard := swept s }) := by
  have hover : exec .overCapacity .succeed s = some (s.guard.overCapacity, s) := rfl
  have hschedule : exec (.schedule s.clock s.guard.overCapacity) .succeed s =
      some ((s.guard.schedule s.clock s.guard.overCapacity).1,
        { s with guard := (s.guard.schedule s.clock s.guard.overCapacity).2 }) := rfl
  unfold pruneIfDue
  cases hdue : (s.guard.schedule s.clock s.guard.overCapacity).1 with
  | false =>
      refine ⟨[.succeed, .succeed], ?_⟩
      rw [run_perform_bind hover, run_perform_bind hschedule]
      simp only [swept, hdue]
      rfl
  | true =>
      refine ⟨[.succeed, .succeed, .succeed], ?_⟩
      rw [run_perform_bind hover, run_perform_bind hschedule]
      simp only [swept, hdue]
      rfl

/-- Nothing in a call of the guard can fail: it comes to its answer. -/
theorem checkAndRecord_honours (id : SignatureId) (s : AuthState) :
    ∃ es, Programs.run exec (checkAndRecord id) es s =
      some (((swept s).honour id s.clock).1,
        { s with guard := ((swept s).honour id s.clock).2 }) := by
  obtain ⟨es, hprune⟩ := pruneIfDue_run s
  have hinstant : exec .instantNow .succeed s = some (s.clock, s) := rfl
  refine ⟨.succeed :: (es ++ [.succeed]), ?_⟩
  unfold checkAndRecord
  rw [run_perform_bind hinstant, run_bind hprune]
  rfl

/-- Once its memory of a signature has expired, the guard lets it pass and
remembers it anew. -/
theorem checkAndRecord_run {id : SignatureId} {s : AuthState}
    (hexpired : ∀ e, s.guard.seen.lookup id = some e → e ≤ s.clock) :
    ∃ es s', Programs.run exec (checkAndRecord id) es s = some (true, s') ∧
      s'.clock = s.clock ∧ s'.keys = s.keys ∧ s'.guard.window = s.guard.window ∧
      s'.guard.seen.lookup id = some (s.clock + s.guard.window) := by
  obtain ⟨es, hrun⟩ := checkAndRecord_honours id s
  rw [Guard.honour_of_expired fun e he => hexpired e (lookup_swept he)] at hrun
  refine ⟨es, _, hrun, rfl, rfl, swept_window s, ?_⟩
  rw [← swept_window s]
  exact AList.lookup_insert _

/-- A correctly signed request that is fresh and not remembered is accepted. -/
theorem verifyRequest_run (r : DatedRequest config row t) {s : AuthState}
    (hrow : s.findKey row.keyHash = some row)
    (hmax : config.signatureMaxAgeSeconds ≤ RustText.i64Max)
    (hskew : |timestamp s.clock - t| ≤ config.signatureMaxAgeSeconds)
    (hexpired : ∀ e, s.guard.seen.lookup r.id = some e → e ≤ s.clock) :
    ∃ es s', Programs.run exec (verifyRequest config r.req) es s = some (.ok row, s') ∧
      s'.clock = s.clock ∧ s'.keys = s.keys ∧ s'.guard.window = s.guard.window ∧
      s'.guard.seen.lookup r.id = some (s.clock + s.guard.window) := by
  obtain ⟨es, s', hrecord, hkept⟩ := checkAndRecord_run hexpired
  refine ⟨.succeed :: .succeed :: ([] ++ .succeed :: (es ++ [])), s', ?_, hkept⟩
  have hnow : exec .utcNow .succeed s = some (s.clock, s) := rfl
  have hfind : exec (.findKeyByHash (config.crates.hashKey r.key)) .succeed s =
      some (.ok (some row), s) := by
    simp only [exec, ← r.keyHash_eq, hrow]
  have hfound : foundKey (.ok (some row)) = .ok row := rfl
  have hauth : Programs.run exec (authenticate row) [] s = some (row, s) := by
    simp [authenticate, r.ordinary]
    rfl
  have hsecret : recoverSigningSecret config.crates row = .ok r.secret := by
    simp [recoverSigningSecret, r.signingSecret_eq, r.open_eq]
  have hbodyCall : exec .readBody .succeed s = some (true, s) := rfl
  have hbody : checkBody true r.req.body = .ok () := by
    simp [checkBody, r.body_ok]
  have hverify : verified (verifySignature config.crates r.secret
      (canonicalV1Payload r.req.method r.req.target r.text r.req.body) r.header) =
        .ok r.id.digest := by
    obtain ⟨header, hheader, hok⟩ := verifySignature_computeSignature r.hmac_eq
      (canonicalV1Payload r.req.method r.req.target r.text r.req.body)
    rw [r.header_eq] at hheader
    cases hheader
    rw [hok]
    rfl
  have hid : (⟨row.id, r.id.digest⟩ : SignatureId) = r.id := rfl
  unfold verifyRequest
  rw [run_attempt_bind (by rw [r.apiKey_eq]; rfl),
    run_attempt_bind (by rw [r.timestampText_eq]; rfl),
    run_ask_bind hnow, run_attempt_bind (validateTimestamp_ok r.parse_eq hmax hskew),
    run_attempt_bind (by rw [r.signature_eq]; rfl), run_ask_bind hfind,
    run_attempt_bind hfound, run_always_bind hauth, run_attempt_bind hsecret,
    run_attempt_bind r.declared_ok, run_ask_bind hbodyCall, run_attempt_bind hbody,
    run_attempt_bind hverify, hid, run_always_bind hrecord]
  rfl

/-- Whatever the window and whatever the digest function: a request that is fresh when it
arrives and will still be when the guard has forgotten it is accepted twice. It need not be
dated ahead; the second of its arrival will do. -/
theorem accepted_twice {start : AuthState} (r : DatedRequest config row t)
    (hstart : Started config start) (hrow : start.findKey row.keyHash = some row)
    (hmax : config.signatureMaxAgeSeconds ≤ RustText.i64Max)
    (hskew : |timestamp start.clock - t| ≤ config.signatureMaxAgeSeconds)
    (hlasting : timestamp start.clock + windowSeconds config.signatureMaxAgeSeconds ≤
      t + config.signatureMaxAgeSeconds) :
    ∃ events q, run system (pool config (fun _ => r.req) start) events = some q ∧
      Passed q 0 ∧ Passed q 1 := by
  have hwindow : start.guard.window =
      windowSeconds config.signatureMaxAgeSeconds * nanosPerSecond := by
    rw [hstart]
    rfl
  have hseconds : 1 ≤ windowSeconds config.signatureMaxAgeSeconds := le_max_left ..
  have hunseen : ∀ e, start.guard.seen.lookup r.id = some e → e ≤ start.clock := by
    rw [hstart]
    intro e he
    cases he
  obtain ⟨es, s, hfirst, hclock, hkeys, hkept, hseen⟩ :=
    verifyRequest_run r hrow hmax hskew hunseen
  let later : AuthState := { s with clock := s.clock + (start.guard.window.toNat : ℤ) }
  have hwait : later.clock = start.clock + start.guard.window := by
    have hnonneg : 0 ≤ start.guard.window := by
      rw [hwindow]
      exact Int.mul_nonneg (by omega) (by decide)
    change s.clock + (start.guard.window.toNat : ℤ) = _
    rw [hclock, Int.toNat_of_nonneg hnonneg]
  have hrow' : later.findKey row.keyHash = some row := by
    rw [← hrow]
    simp only [AuthState.findKey, later, hkeys]
  have hskew' : |timestamp later.clock - t| ≤ config.signatureMaxAgeSeconds := by
    rw [hwait, hwindow, timestamp_add_seconds]
    rw [abs_le] at hskew ⊢
    omega
  have hexpired : ∀ e, later.guard.seen.lookup r.id = some e → e ≤ later.clock := by
    intro e he
    have hlook : s.guard.seen.lookup r.id = some e := he
    rw [hseen] at hlook
    cases hlook
    exact le_of_eq hwait.symm
  obtain ⟨es', s', hsecond, -⟩ := verifyRequest_run r hrow' hmax hskew' hexpired
  have hrun₁ := run_thread system (pool config (fun _ => r.req) start) 0 rfl hfirst
  let waited : AuthPool :=
    { state := later, threads := Function.update (pool config (fun _ => r.req) start).threads 0
        (.pure (.ok row)) }
  have hwaiting : waited.threads 1 = verifyRequest config r.req :=
    Function.update_of_ne (one_ne_zero : (1 : ℕ) ≠ 0) (.pure (.ok row))
      (pool config (fun _ => r.req) start).threads
  have hrun₂ := run_thread system waited 1 hwaiting hsecond
  refine ⟨es.map (.act 0) ++ (.world (.advance start.guard.window.toNat) :: es'.map (.act 1)),
    { state := s', threads := Function.update waited.threads 1 (.pure (.ok row)) }, ?_,
    ⟨row, ?_⟩, ⟨row, ?_⟩⟩
  · rw [run_append, hrun₁]
    exact hrun₂
  · simp [Pool.outcome, waited]
  · simp [Pool.outcome]

end Acceptance

/-- The contract: in no interleaving do two requests with the same key and the same
signed parts both get past the guard. -/
def SingleUse (config : Config) : Prop :=
  ∀ (requests : ℕ → Request) (start : AuthState) (events : List (Event ℕ Choice Change))
    (q : AuthPool), Started config start → run system (pool config requests start) events = some q →
    ∀ i j, i ≠ j → SameSigned (requests i) (requests j) → ¬ (Passed q i ∧ Passed q j)

def dated300Ahead : DatedRequest sampleConfig sampleRow (timestamp sampleStart.clock + 300) where
  req := sampleRequest ⟨utf8 "1800000300", by decide⟩
  key := "key"
  text := "1800000300"
  stored := "secret"
  secret := "secret"
  header := "sha256=ab"
  mac _ := [0xab]
  apiKey_eq := by decide
  timestampText_eq := by decide
  parse_eq := by decide
  keyHash_eq := by decide
  ordinary := rfl
  signingSecret_eq := rfl
  open_eq := rfl
  hmac_eq := rfl
  header_eq := by decide
  signature_eq := by decide
  declared_ok := by decide
  body_ok := by decide

theorem not_singleUse_dated_ahead : ¬ SingleUse sampleConfig := by
  intro h
  have hstart : Started sampleConfig sampleStart := rfl
  obtain ⟨events, q, hrun, hfirst, hsecond⟩ :=
    accepted_twice dated300Ahead hstart (by decide) (by decide) (by decide) (by decide)
  have hsame : SameSigned dated300Ahead.req dated300Ahead.req := ⟨rfl, rfl, rfl, rfl, rfl⟩
  exact h (fun _ => dated300Ahead.req) sampleStart events q rfl hrun 0 1 zero_ne_one hsame
    ⟨hfirst, hsecond⟩

end SimplyIpExporter.SignatureSingleUse
