import SimplyIpExporter.BoundIps
import SimplyIpExporter.CanonicalSigning
import SimplyIpExporter.ClientAddress
import SimplyIpExporter.Interleaving
import SimplyIpExporter.ReplayGuard

/-!
# Authentication of an admin request

`authMiddleware` as a program of calls: readings of the two clocks, database
queries, the write-once cell of the Master identity, the arrival of the body, and
the critical sections of the replay guard. Between any two calls other requests
may run.

The two clocks advance together, so one clock is kept: the wall clock in
nanoseconds, which also dates the guard's instants. Lock poisoning is not
modelled, since no critical section here can panic.
-/
namespace SimplyIpExporter.RequestAuthentication
open RustText IpAddresses Entities BoundIps CanonicalSigning ClientAddress ReplayGuard
open Programs Interleaving

inductive AuthCall where
  | resolvedProxies
  | utcNow
  | findKeyByHash (hash : String)
  | pinned
  | findMasters
  | pin (id : Uuid)
  | readBody
  | instantNow
  | overCapacity
  | schedule (now : Instant) (overCapacity : Bool)
  | sweep (now : Instant)
  | honour (id : SignatureId) (now : Instant)
  | resolveHost (name : String)

@[reducible] def AuthAnswer : AuthCall → Type
  | .resolvedProxies => List IpNet
  | .utcNow => NaiveDateTime
  | .findKeyByHash _ => Except DbErr (Option ApiKey)
  | .pinned => Option Uuid
  | .findMasters => Except DbErr (List ApiKey)
  | .pin _ => Unit
  | .readBody => Bool
  | .instantNow => Instant
  | .overCapacity => Bool
  | .schedule _ _ => Bool
  | .sweep _ => Unit
  | .honour _ _ => Bool
  | .resolveHost _ => List IpNet

/-- What the environment decides at a call: whether a query or the body's arrival
fails, and which addresses a name stands for. -/
inductive Choice where
  | succeed
  | fail
  | addresses (nets : List IpNet)

structure AuthState where
  clock : Instant
  keys : List ApiKey
  pin : Option Uuid
  guard : Guard

def AuthState.findKey (s : AuthState) (hash : String) : Option ApiKey :=
  s.keys.find? fun key => key.keyHash = hash

def exec : (c : AuthCall) → Choice → AuthState → Option (AuthAnswer c × AuthState)
  | .resolvedProxies, .addresses nets, s => some (nets, s)
  | .resolveHost _, .addresses nets, s => some (nets, s)
  | .utcNow, _, s => some (s.clock, s)
  | .findKeyByHash hash, .succeed, s => some (.ok (s.findKey hash), s)
  | .findKeyByHash _, .fail, s => some (.error .exec, s)
  | .findMasters, .succeed, s => some (.ok (s.keys.filter (·.isMaster)), s)
  | .findMasters, .fail, s => some (.error .exec, s)
  | .pinned, _, s => some (s.pin, s)
  | .pin id, _, s => some ((), { s with pin := s.pin.or (some id) })
  | .readBody, .succeed, s => some (true, s)
  | .readBody, .fail, s => some (false, s)
  | .instantNow, _, s => some (s.clock, s)
  | .overCapacity, _, s => some (s.guard.overCapacity, s)
  | .schedule now crowded, _, s =>
      some ((s.guard.schedule now crowded).1, { s with guard := (s.guard.schedule now crowded).2 })
  | .sweep now, _, s => some ((), { s with guard := s.guard.sweep now })
  | .honour id now, _, s =>
      some ((s.guard.honour id now).1, { s with guard := (s.guard.honour id now).2 })
  | _, _, _ => none

/-- What a call does to the guard. -/
def AuthCall.onGuard : AuthCall → Guard → Guard
  | .schedule now crowded, g => (g.schedule now crowded).2
  | .sweep now, g => g.sweep now
  | .honour id now, g => (g.honour id now).2
  | _, g => g

theorem AuthCall.onGuard_window (c : AuthCall) (g : Guard) : (c.onGuard g).window = g.window := by
  cases c <;> simp [onGuard]

theorem exec_effect {c : AuthCall} {e : Choice} {s s' : AuthState} {r : AuthAnswer c}
    (h : exec c e s = some (r, s')) : s'.clock = s.clock ∧ s'.guard = c.onGuard s.guard := by
  unfold exec at h
  split at h <;> cases h <;> exact ⟨rfl, rfl⟩

theorem exec_findKeyByHash {hash : String} {e : Choice} {s s' : AuthState} {row : ApiKey}
    (h : exec (.findKeyByHash hash) e s = some (.ok (some row), s')) :
    s.findKey hash = some row := by
  cases e with
  | succeed =>
      simp only [exec, Option.some.injEq, Prod.mk.injEq, Except.ok.injEq] at h
      exact h.1
  | fail => simp [exec] at h
  | addresses nets => simp [exec] at h

/-- Time passes, or the rows of `api_keys` change in any way. -/
inductive Change where
  | advance (nanos : ℕ)
  | editKeys (rows : List ApiKey)

def env : Change → AuthState → Option AuthState
  | .advance nanos, s => some { s with clock := s.clock + nanos }
  | .editKeys rows, s => some { s with keys := rows }

def system : System AuthAnswer Choice Change AuthState := ⟨exec, env⟩

/-- Overflow of 64-bit arithmetic panics in a checked build and wraps otherwise. -/
inductive Build where
  | checked
  | wrapping
  deriving DecidableEq, Repr

def Build.i64 (build : Build) (n : ℤ) : Option ℤ :=
  if i64Min ≤ n ∧ n ≤ i64Max then some n
  else match build with
    | .checked => none
    | .wrapping => some ((n - i64Min) % 2 ^ 64 + i64Min)

inductive Abort where
  | panic
  | refused (e : AppError)
  deriving DecidableEq, Repr

structure Config where
  crates : Crates
  build : Build
  signatureMaxAgeSeconds : ℤ

structure Request where
  method : String
  target : String
  headers : HeaderMap
  body : List UInt8
  peer : IpAddr

def Request.header (req : Request) (name : String) : Option String :=
  (req.headers.get name).bind HeaderValue.toStr

def apiKeyHeader : String := "X-API-Key"
def signatureHeader : String := "X-Signature-256"
def timestampHeader : String := "X-Timestamp"

def Request.apiKey (req : Request) : Option String := req.header "x-api-key"
def Request.timestampText (req : Request) : Option String := req.header "x-timestamp"
def Request.signature (req : Request) : Option String := req.header "x-signature-256"

def unauthorized (message : String) : Abort := .refused (.unauthorized message)

def require {A : Type} (x : Option A) (message : String) : Except Abort A :=
  match x with
  | some a => .ok a
  | none => .error (unauthorized message)

def parseTimestamp (raw : String) : Option ℤ := parseI64 (trim raw)

def validateTimestamp (build : Build) (raw : String) (maxAgeSeconds now : ℤ) :
    Except Abort Unit :=
  match parseTimestamp raw with
  | none => .error (unauthorized s!"{timestampHeader} must be a Unix timestamp")
  | some presented =>
    match (build.i64 (now - presented)).bind fun d => build.i64 |d| with
    | none => .error .panic
    | some skew =>
      if maxAgeSeconds < skew then
        .error (unauthorized (s!"Request timestamp is outside the permitted {maxAgeSeconds}s " ++
          s!"window (off by {skew}s)"))
      else .ok ()

def rejectSignature : SignatureRejection → Abort
  | .missingPrefix => unauthorized "Signature must be formatted as sha256=<hex>"
  | .malformedHex => unauthorized "Signature is not valid hexadecimal"
  | .mismatch => unauthorized "Invalid request signature"
  | .keyUnusable => .refused .internal

def recoverSigningSecret (crates : Crates) (record : ApiKey) : Except Abort String :=
  match record.signingSecret with
  | none => .error (unauthorized "This API key has no signing secret; rotate it to obtain one")
  | some stored =>
    match crates.openSecret stored with
    | none => .error (.refused .internal)
    | some secret => .ok secret

def maxRequestBodyBytes : ℕ := 3 * 1024 * 1024

def bodyTooLarge : Abort :=
  .refused (.bodyRejected 413 "Request body exceeds the maximum allowed size")

/-- A declared length above the limit is refused before the body is read. -/
def checkDeclaredLength (req : Request) : Except Abort Unit :=
  match (req.header "content-length").bind parseU64 with
  | none => .ok ()
  | some declared => if maxRequestBodyBytes < declared then .error bodyTooLarge else .ok ()

def checkBody (arrived : Bool) (body : List UInt8) : Except Abort Unit :=
  if arrived && body.length ≤ maxRequestBodyBytes then .ok () else .error bodyTooLarge

def foundKey : Except DbErr (Option ApiKey) → Except Abort ApiKey
  | .error e => .error (.refused (.dbError e))
  | .ok none => .error (unauthorized "Invalid API Key")
  | .ok (some record) => .ok record

def verified : Except SignatureRejection (List UInt8) → Except Abort (List UInt8)
  | .error rejection => .error (rejectSignature rejection)
  | .ok digest => .ok digest

abbrev Auth := ExceptT Abort (Program AuthAnswer)

abbrev make (c : AuthCall) : Program AuthAnswer (AuthAnswer c) := perform c

abbrev await (c : AuthCall) : Auth (AuthAnswer c) := ask c

/-- The pinned Master id, established from the rows on first use. -/
def resolve : Program AuthAnswer (Option Uuid) := do
  match ← make .pinned with
  | some id => return some id
  | none =>
    match ← make .findMasters with
    | .ok [master] => do
      let _ ← make (.pin master.id)
      make .pinned
    | _ => return none

/-- A row that claims to be the Master but is not the pinned one is demoted. -/
def authenticate (key : ApiKey) : Program AuthAnswer ApiKey := do
  if !key.isMaster then return key
  else
    let pinned ← resolve
    return if pinned = some key.id then key else { key with isMaster := false }

def pruneIfDue (now : Instant) : Program AuthAnswer Unit := do
  let crowded ← make .overCapacity
  let due : Bool ← make (.schedule now crowded)
  if due then make (.sweep now) else return ()

def checkAndRecord (id : SignatureId) : Program AuthAnswer Bool := do
  let now ← make .instantNow
  pruneIfDue now
  make (.honour id now)

/-- The middleware from the credentials to the replay guard. -/
def verifyRequest (config : Config) (req : Request) : Auth ApiKey := do
  let presentedKey ← attempt (require req.apiKey
    s!"Missing credentials: provide an {apiKeyHeader} header")
  let timestampText ← attempt (require req.timestampText
    s!"A signed request must include {timestampHeader}")
  let now ← await .utcNow
  attempt (validateTimestamp config.build timestampText config.signatureMaxAgeSeconds
    (timestamp now))
  let signature ← attempt (require req.signature
    s!"A signed request must include {signatureHeader}")
  let found ← await (.findKeyByHash (config.crates.hashKey presentedKey))
  let row ← attempt (foundKey found)
  let record ← always (authenticate row)
  let secret ← attempt (recoverSigningSecret config.crates record)
  attempt (checkDeclaredLength req)
  let arrived ← await .readBody
  attempt (checkBody arrived req.body)
  let digest ← attempt (verified (verifySignature config.crates secret
    (canonicalV1Payload req.method req.target timestampText req.body) signature))
  let fresh : Bool ← always (checkAndRecord ⟨record.id, digest⟩)
  if fresh then return record
  else throw (unauthorized "This signature has already been used; sign a fresh request")

/-- Whether one of the entries covers the address; names are looked up in order. -/
def isAllowed (clientIp : IpAddr) : List BoundIpEntry → Program AuthAnswer Bool
  | [] => pure false
  | .network net :: rest => if net.contains clientIp then pure true else isAllowed clientIp rest
  | .hostname name :: rest => do
      let nets : List IpNet ← make (.resolveHost name)
      if nets.any (·.contains clientIp) then return true else isAllowed clientIp rest

def parsedBinding (crates : Crates) (record : ApiKey) : Except Abort (List BoundIpEntry) :=
  match parseBoundIps crates (record.boundIps.getD "") with
  | .ok entries => .ok entries
  | .error _ => .error (.refused .internal)

def authMiddleware (config : Config) (req : Request) : Auth (ApiKey × IpAddr) := do
  let proxies ← await .resolvedProxies
  let clientIp := resolveClientIp req.peer req.headers proxies
  let record ← verifyRequest config req
  let entries ← attempt (parsedBinding config.crates record)
  let allowed ← always (if entries.isEmpty then pure true else isAllowed clientIp entries)
  if allowed then return (record, clientIp)
  else throw (.refused (.forbidden "Client IP not allowed"))

/-- The clock readings and critical sections of the replay guard. -/
def ofGuard : AuthCall → Bool
  | .instantNow | .overCapacity | .schedule _ _ | .sweep _ | .honour _ _ => true
  | _ => false

section Guard
variable {M : Type} {P : Policy AuthAnswer M}

/-- What the policy watches is not in the guard. -/
def PassesGuard (P : Policy AuthAnswer M) : Prop :=
  ∀ m c, ofGuard c = true → P.permits m c ∧ ∀ r m', P.moves m c r m' → m' = m

theorem pruneIfDue_still (hP : PassesGuard P) (now : Instant) (m : M) :
    Follows P (fun m' _ => m' = m) (pruneIfDue now) m := by
  refine Follows.perform_bind (hP m .overCapacity rfl).1 ?_
  intro crowded m₁ hcrowded
  obtain rfl := (hP m .overCapacity rfl).2 crowded m₁ hcrowded
  refine Follows.perform_bind (hP m₁ (.schedule now crowded) rfl).1 ?_
  intro due m₂ hdue
  obtain rfl := (hP m₁ (.schedule now crowded) rfl).2 due m₂ hdue
  cases due with
  | false => exact Follows.pure rfl
  | true => exact Follows.perform (hP m₂ (.sweep now) rfl).1 (hP m₂ (.sweep now) rfl).2

theorem checkAndRecord_still (hP : PassesGuard P) (id : SignatureId) (m : M) :
    Follows P (fun m' _ => m' = m) (checkAndRecord id) m := by
  refine Follows.perform_bind (hP m .instantNow rfl).1 ?_
  intro now m₁ hnow
  obtain rfl := (hP m .instantNow rfl).2 now m₁ hnow
  refine (pruneIfDue_still hP now m₁).bind ?_
  rintro m₂ _ rfl
  exact Follows.perform (hP m₂ (.honour id now) rfl).1 (hP m₂ (.honour id now) rfl).2

end Guard

end SimplyIpExporter.RequestAuthentication
