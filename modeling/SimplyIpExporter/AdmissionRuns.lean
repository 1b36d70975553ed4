import SimplyIpExporter.SignatureSingleUse

/-!
# What the middleware answers

Where no query fails and every body arrives, the state and the surroundings decide each
answer that the middleware gets. For a request that is signed with the secret of the key
it presents, and in time, two things are left to decide: the replay guard, and the
addresses the key is bound to.
-/
namespace SimplyIpExporter.AdmissionRuns
open RustText IpAddresses Entities BoundIps CanonicalSigning ClientAddress ReplayGuard
open Programs RequestAuthentication
open SignatureSingleUse (swept validateTimestamp_ok)

/-- The trusted proxies, and what names stand for. -/
structure NetworkView where
  proxies : List IpNet
  dns : String → List IpNet

def authReply (around : NetworkView) : (c : AuthCall) → AuthState → AuthAnswer c × AuthState
  | .resolvedProxies, s => (around.proxies, s)
  | .utcNow, s => (s.clock, s)
  | .findKeyByHash hash, s => (.ok (s.findKey hash), s)
  | .pinned, s => (s.pin, s)
  | .findMasters, s => (.ok (s.keys.filter (·.isMaster)), s)
  | .pin id, s => ((), { s with pin := s.pin.or (some id) })
  | .readBody, s => (true, s)
  | .instantNow, s => (s.clock, s)
  | .overCapacity, s => (s.guard.overCapacity, s)
  | .schedule now crowded, s =>
      ((s.guard.schedule now crowded).1, { s with guard := (s.guard.schedule now crowded).2 })
  | .sweep now, s => ((), { s with guard := s.guard.sweep now })
  | .honour id now, s => ((s.guard.honour id now).1, { s with guard := (s.guard.honour id now).2 })
  | .resolveHost name, s => (around.dns name, s)

/-- These are answers the middleware can get: what it settles on, it comes to in a run. -/
theorem exists_run {A : Type} (around : NetworkView) (p : Program AuthAnswer A) (s : AuthState) :
    ∃ choices, Programs.run exec p choices s = some (settle (authReply around) p s) := by
  refine exists_run_eq_settle ?_ p s
  intro c s
  cases c with
  | resolvedProxies => exact ⟨.addresses around.proxies, rfl⟩
  | resolveHost name => exact ⟨.addresses (around.dns name), rfl⟩
  | _ => exact ⟨.succeed, rfl⟩

section Answers
variable {around : NetworkView} {s : AuthState}

/-- A row that does not claim to be the Master, or is the one that the cell names, goes on
as it is. -/
theorem settle_authenticate {row : ApiKey} (hpin : row.isMaster = true → s.pin = some row.id) :
    settle (authReply around) (authenticate row) s = (row, s) := by
  unfold authenticate
  cases hmaster : row.isMaster with
  | false => rfl
  | true =>
      simp only [Bool.not_true, Bool.false_eq_true, if_false]
      have hcell : authReply around .pinned s = (some row.id, s) := by
        rw [authReply, hpin hmaster]
      have hresolve : settle (authReply around) resolve s = (some row.id, s) := by
        rw [resolve, settle_perform_bind hcell]
        rfl
      rw [settle_bind, hresolve]
      simp [Pure.pure, settle]

theorem settle_pruneIfDue :
    settle (authReply around) (pruneIfDue s.clock) s = ((), { s with guard := swept s }) := by
  have hover : authReply around .overCapacity s = (s.guard.overCapacity, s) := rfl
  have hschedule : authReply around (.schedule s.clock s.guard.overCapacity) s =
      ((s.guard.schedule s.clock s.guard.overCapacity).1,
        { s with guard := (s.guard.schedule s.clock s.guard.overCapacity).2 }) := rfl
  rw [pruneIfDue, settle_perform_bind hover, settle_perform_bind hschedule]
  cases hdue : (s.guard.schedule s.clock s.guard.overCapacity).1 with
  | false =>
      simp only [swept, hdue]
      rfl
  | true =>
      simp only [swept, hdue]
      rfl

theorem settle_checkAndRecord (id : SignatureId) :
    settle (authReply around) (checkAndRecord id) s =
      (((swept s).honour id s.clock).1, { s with guard := ((swept s).honour id s.clock).2 }) := by
  have hinstant : authReply around .instantNow s = (s.clock, s) := rfl
  rw [checkAndRecord, settle_perform_bind hinstant, settle_bind, settle_pruneIfDue]
  rfl

def covers (dns : String → List IpNet) (ip : IpAddr) : BoundIpEntry → Bool
  | .network net => net.contains ip
  | .hostname name => (dns name).any (·.contains ip)

theorem settle_isAllowed (ip : IpAddr) (entries : List BoundIpEntry) :
    settle (authReply around) (isAllowed ip entries) s =
      (entries.any (covers around.dns ip), s) := by
  induction entries with
  | nil => rfl
  | cons entry rest ih =>
      cases entry with
      | network net =>
          unfold isAllowed
          by_cases hnet : net.contains ip = true
          · simp only [hnet, if_true, List.any_cons, covers, Bool.true_or]
            rfl
          · rw [if_neg hnet, ih, List.any_cons, covers, Bool.eq_false_of_not_eq_true hnet,
              Bool.false_or]
      | hostname name =>
          have hresolve : authReply around (.resolveHost name) s = (around.dns name, s) := rfl
          rw [isAllowed, settle_perform_bind hresolve]
          by_cases hnets : (around.dns name).any (·.contains ip) = true
          · simp only [hnets, if_true, List.any_cons, covers, Bool.true_or]
            rfl
          · rw [if_neg hnets, ih, List.any_cons, covers, Bool.eq_false_of_not_eq_true hnets,
              Bool.false_or]

end Answers

/-- A request signed with a secret, as a client signs it. -/
structure Sent (config : Config) (secret : String) where
  req : Request
  key : String
  text : String
  header : String
  mac : List UInt8 → List UInt8
  time : ℤ
  apiKey_eq : req.apiKey = some key
  timestampText_eq : req.timestampText = some text
  parse_eq : parseTimestamp text = some time
  hmac_eq : config.crates.hmacSha256 secret = some mac
  header_eq : computeSignature config.crates secret
    (canonicalV1Payload req.method req.target text req.body) = some header
  signature_eq : req.signature = some header
  declared_ok : checkDeclaredLength req = .ok ()
  body_ok : req.body.length ≤ maxRequestBodyBytes

section Signed
variable {config : Config} {secret : String} {around : NetworkView} {s : AuthState} {row : ApiKey}

def Sent.digest (r : Sent config secret) : List UInt8 :=
  r.mac (canonicalV1Payload r.req.method r.req.target r.text r.req.body)

def alreadyUsed : Abort := unauthorized "This signature has already been used; sign a fresh request"

/-- The row the request's key is found as is one whose secret signed it, and the timestamp
is within the window. -/
structure Arrives (r : Sent config secret) (row : ApiKey) (s : AuthState) : Prop where
  row_eq : s.findKey (config.crates.hashKey r.key) = some row
  pin : row.isMaster = true → s.pin = some row.id
  opens : row.signingSecret.bind config.crates.openSecret = some secret
  window : config.signatureMaxAgeSeconds ≤ i64Max
  timely : |timestamp s.clock - r.time| ≤ config.signatureMaxAgeSeconds

theorem settle_verifyRequest {r : Sent config secret} (h : Arrives r row s) :
    settle (authReply around) (verifyRequest config r.req) s =
      (if ((swept s).honour ⟨row.id, r.digest⟩ s.clock).1 then .ok row else .error alreadyUsed,
        { s with guard := ((swept s).honour ⟨row.id, r.digest⟩ s.clock).2 }) := by
  have hsecret : recoverSigningSecret config.crates row = .ok secret := by
    obtain ⟨stored, hstored, hopen⟩ := Option.bind_eq_some_iff.mp h.opens
    simp [recoverSigningSecret, hstored, hopen]
  have hbody : checkBody true r.req.body = .ok () := by
    simp [checkBody, r.body_ok]
  have hverify : verified (verifySignature config.crates secret
      (canonicalV1Payload r.req.method r.req.target r.text r.req.body) r.header) =
        .ok r.digest := by
    obtain ⟨header, hheader, hok⟩ := verifySignature_computeSignature r.hmac_eq
      (canonicalV1Payload r.req.method r.req.target r.text r.req.body)
    rw [r.header_eq] at hheader
    cases hheader
    rw [hok]
    rfl
  have hnow : authReply around .utcNow s = (s.clock, s) := rfl
  have hfind : authReply around (.findKeyByHash (config.crates.hashKey r.key)) s =
      (.ok (some row), s) := by
    rw [authReply, h.row_eq]
  have hfound : foundKey (.ok (some row)) = .ok row := rfl
  have hread : authReply around .readBody s = (true, s) := rfl
  unfold verifyRequest
  rw [settle_attempt_bind (by rw [r.apiKey_eq]; rfl),
    settle_attempt_bind (by rw [r.timestampText_eq]; rfl),
    settle_ask_bind hnow, settle_attempt_bind (validateTimestamp_ok r.parse_eq h.window h.timely),
    settle_attempt_bind (by rw [r.signature_eq]; rfl), settle_ask_bind hfind,
    settle_attempt_bind hfound,
    settle_always_bind (settle_authenticate h.pin), settle_attempt_bind hsecret,
    settle_attempt_bind r.declared_ok, settle_ask_bind hread, settle_attempt_bind hbody,
    settle_attempt_bind hverify, settle_always_bind (settle_checkAndRecord _)]
  cases hfresh : ((swept s).honour ⟨row.id, r.digest⟩ s.clock).1 with
  | false => rfl
  | true => rfl

def forbiddenAddress : Abort := .refused (.forbidden "Client IP not allowed")

/-- The guard decides first, and has taken note of the signature when the binding is read. -/
theorem settle_authMiddleware {r : Sent config secret} (h : Arrives r row s)
    {entries : List BoundIpEntry}
    (hbound : parseBoundIps config.crates (row.boundIps.getD "") = .ok entries) {ip : IpAddr}
    (hip : resolveClientIp r.req.peer r.req.headers around.proxies = ip) :
    settle (authReply around) (authMiddleware config r.req) s =
      (if ((swept s).honour ⟨row.id, r.digest⟩ s.clock).1 then
          if entries.isEmpty || entries.any (covers around.dns ip) then .ok (row, ip)
          else .error forbiddenAddress
        else .error alreadyUsed,
        { s with guard := ((swept s).honour ⟨row.id, r.digest⟩ s.clock).2 }) := by
  have hproxies : authReply around .resolvedProxies s = (around.proxies, s) := rfl
  have hverify : settle (authReply around) (verifyRequest config r.req) s = _ :=
    settle_verifyRequest h
  rw [authMiddleware, settle_ask_bind hproxies, hip]
  cases hfresh : ((swept s).honour ⟨row.id, r.digest⟩ s.clock).1 with
  | false =>
      rw [hfresh] at hverify
      exact settle_except_error hverify _
  | true =>
      rw [hfresh] at hverify
      have hparsed : parsedBinding config.crates row = .ok entries := by
        rw [parsedBinding, hbound]
      rw [settle_except_ok hverify, settle_attempt_bind hparsed]
      cases hempty : entries.isEmpty with
      | true => rfl
      | false =>
          simp only [Bool.false_eq_true, if_false, Bool.false_or, if_true]
          rw [settle_always_bind (settle_isAllowed _ _)]
          cases hallowed : entries.any (covers around.dns ip) with
          | false => rfl
          | true => rfl

end Signed
end SimplyIpExporter.AdmissionRuns
