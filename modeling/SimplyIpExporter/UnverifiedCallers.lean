import SimplyIpExporter.PublicFeed
import SimplyIpExporter.Services
import SimplyIpExporter.SignatureSingleUse

/-!
# Callers whose signature does not verify

Two states of the service that differ in what keys are bound to, in what the names of
bindings resolve to and in the signatures used so far cannot be told apart by a request
whose signature does not verify: it makes the same calls in both, gets the same refusal,
and leaves both as they are. The order of the checks carries this. The guard is asked
and the binding is read only after the signature has been verified.
-/
namespace SimplyIpExporter.UnverifiedCallers
open RustText IpAddresses Entities BoundIps CanonicalSigning ClientAddress ReplayGuard
open Storage AddressCache PublicFeed Programs RequestAuthentication
open SignatureSingleUse (require_eq_ok sampleConfig sampleRow sampleStart datedBack)

structure ServiceState where
  db : Database
  cache : IpCache
  limiter : RateLimiter
  guard : Guard
  pin : Option Uuid
  clock : ReplayGuard.Instant
  /-- The trusted proxies, resolved. -/
  proxies : List IpNet
  /-- What the names in bindings resolve to. -/
  dns : String → List IpNet

def ServiceState.auth (s : ServiceState) : AuthState := ⟨s.clock, s.db.apiKeys.rows, s.pin, s.guard⟩

def ServiceState.exec :
    (c : AuthCall) → Choice → ServiceState → Option (AuthAnswer c × ServiceState)
  | .resolvedProxies, _, s => some (s.proxies, s)
  | .resolveHost name, _, s => some (s.dns name, s)
  | c, e, s => (RequestAuthentication.exec c e s.auth).map fun answer =>
      (answer.1, { s with pin := answer.2.pin, guard := answer.2.guard })

/-- The digest that verifies for the presented key, if everything needed is there. -/
def verifiedDigest (config : Config) (s : ServiceState) (req : Request) : Option (List UInt8) := do
  let presentedKey ← req.apiKey
  let timestampText ← req.timestampText
  let _ ← (validateTimestamp config.build timestampText config.signatureMaxAgeSeconds
    (timestamp s.clock)).toOption
  let signature ← req.signature
  let row ← s.auth.findKey (config.crates.hashKey presentedKey)
  let secret ← (recoverSigningSecret config.crates row).toOption
  (verifySignature config.crates secret
    (canonicalV1Payload req.method req.target timestampText req.body) signature).toOption

/-- The same row but for its binding. -/
def Rebound (row row' : ApiKey) : Prop := row' = { row with boundIps := row'.boundIps }

/-- The states differ in bindings, in what their names resolve to and in the guard. -/
structure Indistinct (s s' : ServiceState) : Prop where
  keys : List.Forall₂ Rebound s.db.apiKeys.rows s'.db.apiKeys.rows
  endpoints : s'.db.endpoints = s.db.endpoints
  grants : s'.db.grants = s.db.grants
  auditLogs : s'.db.auditLogs = s.db.auditLogs
  cache : s'.cache = s.cache
  limiter : s'.limiter = s.limiter
  pin : s'.pin = s.pin
  clock : s'.clock = s.clock
  proxies : s'.proxies = s.proxies

theorem find_rebound {rows rows' : List ApiKey} (h : List.Forall₂ Rebound rows rows')
    (hash : String) :
    (rows.find? (fun key => key.keyHash = hash) = none ∧
      rows'.find? (fun key => key.keyHash = hash) = none) ∨
    ∃ row row', rows.find? (fun key => key.keyHash = hash) = some row ∧
      rows'.find? (fun key => key.keyHash = hash) = some row' ∧ Rebound row row' := by
  induction h with
  | nil => exact .inl ⟨rfl, rfl⟩
  | @cons row row' rows rows' hrow _ ih =>
      have hhash : row'.keyHash = row.keyHash := by rw [hrow]
      simp only [List.find?_cons, hhash]
      by_cases hmatch : row.keyHash = hash
      · exact .inr ⟨row, row', by simp [hmatch], by simp [hmatch], hrow⟩
      · simpa [hmatch] using ih

section Requests
variable {config : Config} {req : Request} {s s' : ServiceState} {A : Type}

/-- In both states the same refusal. -/
abbrev Refused (s s' : ServiceState) (p p' : Auth A) : Prop :=
  InStep ServiceState.exec s s' (fun r r' => ∃ abort, r = .error abort ∧ r' = .error abort) p p'

theorem attempt_bind {B : Type} {x : Except Abort A} {f f' : A → Auth B}
    (hrest : ∀ a, x = .ok a → Refused s s' (f a) (f' a)) :
    Refused s s' (attempt x >>= f) (attempt x >>= f') := by
  cases x with
  | error abort => exact .value ⟨abort, rfl, rfl⟩
  | ok a => exact hrest a rfl

/-- A call that answers the same in both whatever the choice, and changes nothing. -/
theorem read_bind {c : AuthCall} {r : AuthAnswer c} {f f' : AuthAnswer c → Auth A}
    (h : ∀ e, ServiceState.exec c e s = some (r, s))
    (h' : ∀ e, ServiceState.exec c e s' = some (r, s')) (hrest : Refused s s' (f r) (f' r)) :
    Refused s s' (await c >>= f) (await c >>= f') := by
  refine .ask_bind (fun e => .inr ⟨r, r, h e, h' e⟩) ?_
  intro e r₁ r₂ h₁ h₂
  rw [h e] at h₁
  rw [h' e] at h₂
  cases h₁
  cases h₂
  exact hrest

theorem findKey_bind {hash : String} {f : Except DbErr (Option ApiKey) → Auth A}
    (h : Indistinct s s') (herror : ∀ e, Refused s s' (f (.error e)) (f (.error e)))
    (hnone : Refused s s' (f (.ok none)) (f (.ok none)))
    (hrow : ∀ row row', s.auth.findKey hash = some row → Rebound row row' →
      Refused s s' (f (.ok (some row))) (f (.ok (some row')))) :
    Refused s s' (await (.findKeyByHash hash) >>= f) (await (.findKeyByHash hash) >>= f) := by
  refine .ask_bind ?_ ?_
  · intro e
    cases e with
    | addresses nets => exact .inl ⟨rfl, rfl⟩
    | succeed => exact .inr ⟨_, _, rfl, rfl⟩
    | fail => exact .inr ⟨_, _, rfl, rfl⟩
  · intro e r r' hr hr'
    cases e with
    | addresses nets => cases hr
    | fail =>
        cases hr
        cases hr'
        exact herror _
    | succeed =>
        cases hr
        cases hr'
        rcases find_rebound h.keys hash with ⟨hfind, hfind'⟩ | ⟨row, row', hfind, hfind', hrebound⟩
        · simp only [AuthState.findKey, ServiceState.auth, hfind, hfind']
          exact hnone
        · have hkey := hrow row row' hfind hrebound
          simp only [AuthState.findKey, ServiceState.auth, hfind, hfind']
          exact hkey

/-- With the Master pinned, nothing else is asked for. -/
theorem authenticate_inStep {row row' : ApiKey} {id : Uuid} (hpin : s.pin = some id)
    (hpin' : s'.pin = some id) (hrow : Rebound row row') :
    InStep ServiceState.exec s s' (fun record record' => Rebound record record' ∧
      record.signingSecret = row.signingSecret) (authenticate row) (authenticate row') := by
  have hmaster : row'.isMaster = row.isMaster := by rw [hrow]
  have hid : row'.id = row.id := by rw [hrow]
  unfold authenticate
  rw [hmaster, hid]
  cases row.isMaster with
  | false => exact .value ⟨hrow, rfl⟩
  | true =>
      refine .call (fun e => .inr ⟨_, _, rfl, rfl⟩) ?_
      intro e pinned pinned' h h'
      cases h
      cases h'
      simp only [ServiceState.auth, hpin, hpin']
      refine .value ?_
      split
      · exact ⟨hrow, rfl⟩
      · rw [hrow]
        exact ⟨rfl, rfl⟩

theorem recoverSigningSecret_eq {crates : Crates} {row row' : ApiKey}
    (h : row'.signingSecret = row.signingSecret) :
    recoverSigningSecret crates row' = recoverSigningSecret crates row := by
  unfold recoverSigningSecret
  rw [h]

theorem verifyRequest_refused {id : Uuid} (h : Indistinct s s') (hpin : s.pin = some id)
    (hunverified : verifiedDigest config s req = none) :
    Refused s s' (verifyRequest config req) (verifyRequest config req) := by
  have hpin' : s'.pin = some id := h.pin.trans hpin
  refine attempt_bind fun presentedKey hkey => attempt_bind fun timestampText htext => ?_
  refine read_bind (r := s.clock) (fun _ => rfl) ?_ ?_
  · intro e
    rw [← h.clock]
    rfl
  refine attempt_bind fun _ hfresh => attempt_bind fun signature hsignature => ?_
  refine findKey_bind h ?_ ?_ ?_
  · intro e
    exact .value ⟨_, rfl, rfl⟩
  · exact .value ⟨_, rfl, rfl⟩
  · intro row row' hfind hrow
    refine .always_bind (authenticate_inStep hpin hpin' hrow) ?_
    rintro record record' ⟨hrecord, hsecret⟩
    have hsecret' : record'.signingSecret = record.signingSecret := by rw [hrecord]
    rw [recoverSigningSecret_eq hsecret', recoverSigningSecret_eq hsecret]
    refine attempt_bind fun secret hrecovered => attempt_bind fun _ _ => ?_
    refine .ask_bind ?_ ?_
    · intro e
      cases e with
      | addresses nets => exact .inl ⟨rfl, rfl⟩
      | succeed => exact .inr ⟨_, _, rfl, rfl⟩
      | fail => exact .inr ⟨_, _, rfl, rfl⟩
    · intro e arrived arrived' harrived harrived'
      have hsame : arrived' = arrived := by
        cases e with
        | addresses nets => cases harrived
        | succeed =>
            cases harrived
            cases harrived'
            rfl
        | fail =>
            cases harrived
            cases harrived'
            rfl
      subst hsame
      refine attempt_bind fun _ _ => ?_
      -- Up to here the request has all that verification needs, so verification fails.
      have hrejected : ∃ rejection, verifySignature config.crates secret
          (canonicalV1Payload req.method req.target timestampText req.body) signature =
            .error rejection := by
        simp only [verifiedDigest, require_eq_ok hkey, require_eq_ok htext, hfresh,
          require_eq_ok hsignature, hfind, hrecovered, Except.toOption, Option.bind_eq_bind,
          Option.bind_some] at hunverified
        split at hunverified
        · cases hunverified
        · exact ⟨_, by assumption⟩
      obtain ⟨rejection, hrejection⟩ := hrejected
      rw [hrejection]
      exact .value ⟨_, rfl, rfl⟩

theorem authMiddleware_refused {id : Uuid} (h : Indistinct s s') (hpin : s.pin = some id)
    (hunverified : verifiedDigest config s req = none) :
    Refused s s' (authMiddleware config req) (authMiddleware config req) := by
  refine read_bind (r := s.proxies) (fun _ => rfl) ?_ ?_
  · intro e
    rw [← h.proxies]
    rfl
  · refine InStep.except_bind (verifyRequest_refused h hpin hunverified) ?_
    rintro _ _ ⟨abort, rfl, rfl⟩
    exact .value ⟨abort, rfl, rfl⟩

end Requests

/-- A request whose signature does not verify, in two states that differ in bindings, in
what their names resolve to and in the guard, the Master being pinned. Under the same
choices of the surroundings it gets the same refusal in both, and leaves each as it is. -/
theorem unverified_request_changes_nothing {config : Config} {req : Request} {s s' : ServiceState}
    {id : Uuid} (h : Indistinct s s') (hpin : s.pin = some id)
    (hunverified : verifiedDigest config s req = none) (choices : List Choice) :
    (run ServiceState.exec (authMiddleware config req) choices s).map Prod.fst =
      (run ServiceState.exec (authMiddleware config req) choices s').map Prod.fst ∧
    (∀ outcome after, run ServiceState.exec (authMiddleware config req) choices s =
      some (outcome, after) →
      (∃ abort, outcome = .error abort) ∧ after = s) ∧
    ∀ outcome after, run ServiceState.exec (authMiddleware config req) choices s' =
      some (outcome, after) →
      (∃ abort, outcome = .error abort) ∧ after = s' := by
  rcases (authMiddleware_refused h hpin hunverified).run choices with
    ⟨hnone, hnone'⟩ | ⟨_, _, ⟨abort, rfl, rfl⟩, hrun, hrun'⟩
  · rw [hnone, hnone']
    refine ⟨rfl, ?_, ?_⟩
    · intro outcome after hrun
      cases hrun
    · intro outcome after hrun
      cases hrun
  · rw [hrun, hrun']
    refine ⟨rfl, ?_, ?_⟩
    · rintro _ _ ⟨⟩
      exact ⟨⟨abort, rfl⟩, rfl⟩
    · rintro _ _ ⟨⟩
      exact ⟨⟨abort, rfl⟩, rfl⟩

/-- The sample key with a binding, the Master pinned. -/
def boundService (boundIps : Option String) (nets : List IpNet) : ServiceState where
  db := { Database.empty with
    apiKeys := ⟨[{ sampleRow with boundIps := boundIps }], List.nodup_singleton _⟩ }
  cache := ∅
  limiter := .empty
  guard := sampleStart.guard
  pin := some 1
  clock := sampleStart.clock
  proxies := []
  dns _ := nets

/-- A request with a signature that is not the key's. -/
def forgedRequest : Request :=
  { datedBack with
    headers := datedBack.headers.set 2 ("x-signature-256", ⟨utf8 "sha256=cd", by decide⟩) }

theorem unverified_request_changes_nothing_forged :
    Indistinct (boundService none []) (boundService (some "gateway") [.v4 0 32]) ∧
      verifiedDigest sampleConfig (boundService none []) forgedRequest = none ∧
      ∃ abort,
        run ServiceState.exec (authMiddleware sampleConfig forgedRequest)
          (List.replicate 4 .succeed)
          (boundService none []) = some (.error abort, boundService none []) ∧
        run ServiceState.exec (authMiddleware sampleConfig forgedRequest)
          (List.replicate 4 .succeed)
          (boundService (some "gateway") [.v4 0 32]) =
            some (.error abort, boundService (some "gateway") [.v4 0 32]) := by
  have halike : Indistinct (boundService none []) (boundService (some "gateway") [.v4 0 32]) :=
    ⟨.cons rfl .nil, rfl, rfl, rfl, rfl, rfl, rfl, rfl, rfl⟩
  have hunverified : verifiedDigest sampleConfig (boundService none []) forgedRequest = none := by
    decide +kernel
  have hends :
      (run ServiceState.exec (authMiddleware sampleConfig forgedRequest) (List.replicate 4 .succeed)
      (boundService none [])).isSome = true := by
    decide +kernel
  obtain ⟨⟨outcome, after⟩, hrun⟩ := Option.isSome_iff_exists.mp hends
  obtain ⟨hsame, hfirst, hsecond⟩ :=
    unverified_request_changes_nothing halike rfl hunverified (List.replicate 4 .succeed)
  obtain ⟨⟨abort, rfl⟩, rfl⟩ := hfirst outcome after hrun
  rw [hrun] at hsame
  obtain ⟨⟨outcome', after'⟩, hrun', houtcome⟩ := Option.map_eq_some_iff.mp hsame.symm
  obtain ⟨-, rfl⟩ := hsecond outcome' after' hrun'
  cases houtcome
  exact ⟨halike, hunverified, abort, hrun, hrun'⟩

end SimplyIpExporter.UnverifiedCallers
