import SimplyIpExporter.AdmissionRuns
import SimplyIpExporter.HttpRouter
import SimplyIpExporter.PercentEncoding
import SimplyIpExporter.PureCrypto

/-!
# Calls of the dashboard

`apiCall` of the dashboard builds and signs a request in the browser; the router and the
middleware of the service read it. Both ends are put together here: where each call of the
dashboard is routed to, that its timestamp and its signature are read as they were
written, and what becomes of it where the operator has the dashboard sign another path
than it asks for.
-/
namespace SimplyIpExporter.DashboardCalls
open RustText Entities ClientAddress CanonicalSigning RequestAuthentication PercentEncoding
open EndpointHandlers KeyHandlers Routes HttpRouter AdmissionRuns PureCrypto JsNumbers

/-- Bytes that `encodeURIComponent` leaves as they are. -/
def isComponentByte (b : UInt8) : Bool :=
  let n := b.toNat
  (48 ≤ n && n ≤ 57) || (65 ≤ n && n ≤ 90) || (97 ≤ n && n ≤ 122) ||
    [45, 95, 46, 33, 126, 42, 39, 40, 41].contains n

theorem isComponentByte_plain {b : UInt8} (h : isComponentByte b = true) :
    b.toNat < 128 ∧ Char.ofNat b.toNat ∉ '%' :: delimiters := by
  have hall : ∀ n < 256, isComponentByte (UInt8.ofNat n) = true →
      n < 128 ∧ Char.ofNat n ∉ '%' :: delimiters := by
    decide +kernel
  apply hall b.toNat b.toNat_lt
  rwa [UInt8.ofNat_toNat]

def componentEscaping : Escaping where
  keep := isComponentByte
  digit n := (hexDigitChar n).toUpper
  ascii _ h := (isComponentByte_plain h).1
  plain _ h := (isComponentByte_plain h).2
  reads := by decide

def encodeURIComponent (s : String) : String := String.ofList (componentEscaping.encode (utf8 s))

/-- The calls that the dashboard makes. Identifiers are texts. A body is what
`JSON.stringify` made of it, the query of the trail what `URLSearchParams` made of it. -/
inductive DashboardCall where
  | getMe
  | loadEndpoints
  | createEndpoint (body : String)
  | submitEditEndpoint (id body : String)
  | deleteEndpoint (id : String)
  | loadVaultGroups
  | loadKeyGroups (id : String)
  | grantGroup (id body : String)
  | revokeGroup (id permissionId : String)
  | loadKeys
  | createKey (body : String)
  | submitEditKey (id body : String)
  | deleteKey (id : String)
  | reassignAndDelete (id target : String)
  | regenerateKey (id : String)
  | rotateSecret (id : String)
  | loadAuditLogs (query : String)
  deriving DecidableEq

namespace DashboardCall

def method : DashboardCall → String
  | .getMe | .loadEndpoints | .loadVaultGroups | .loadKeyGroups _ | .loadKeys | .loadAuditLogs _ =>
      "GET"
  | .createEndpoint _ | .grantGroup _ _ | .createKey _ | .regenerateKey _ | .rotateSecret _ =>
      "POST"
  | .submitEditEndpoint _ _ | .submitEditKey _ _ => "PUT"
  | .deleteEndpoint _ | .revokeGroup _ _ | .deleteKey _ | .reassignAndDelete _ _ => "DELETE"

def path : DashboardCall → String
  | .getMe => "/api/auth/me"
  | .loadEndpoints | .createEndpoint _ => "/api/endpoints"
  | .submitEditEndpoint id _ | .deleteEndpoint id => "/api/endpoints/" ++ id
  | .loadVaultGroups => "/api/vault-groups"
  | .loadKeyGroups id | .grantGroup id _ => "/api/keys/" ++ id ++ "/groups"
  | .revokeGroup id permissionId => "/api/keys/" ++ id ++ "/groups/" ++ permissionId
  | .loadKeys | .createKey _ => "/api/keys"
  | .submitEditKey id _ | .deleteKey id => "/api/keys/" ++ id
  | .reassignAndDelete id target =>
      "/api/keys/" ++ id ++ "?reassign_to=" ++ encodeURIComponent target
  | .regenerateKey id => "/api/keys/" ++ id ++ "/rotate"
  | .rotateSecret id => "/api/keys/" ++ id ++ "/rotate-secret"
  | .loadAuditLogs query => "/api/audit-logs?" ++ query

def body : DashboardCall → Option String
  | .createEndpoint body | .submitEditEndpoint _ body | .grantGroup _ body | .createKey body
  | .submitEditKey _ body => some body
  | _ => none

end DashboardCall

/-- What the getters of `Session` answer, as texts. -/
structure SessionValues where
  apiKey : String
  signingSecret : String
  apiBaseOverride : String

structure Fetch where
  url : String
  method : String
  headers : List (String × String)
  body : Option String

/-- `replace(/\/{2,}/g, '/')`. -/
def collapseSlashes : List Char → List Char
  | [] => []
  | c :: rest =>
    if c = '/' ∧ rest.head? = some '/' then collapseSlashes rest else c :: collapseSlashes rest

/-- `now` is in milliseconds. -/
def apiCall (r : Rounding) (subtle : Option (List UInt8 → List UInt8 → Option (List UInt8)))
    (session : SessionValues) (requestBase : String) (now : ℕ) (call : DashboardCall) :
    Option Fetch := do
  let body := call.body.getD ""
  let timestamp := toString (now / 1000)
  let signTarget := session.apiBaseOverride ++ call.path
  let signature ← hmacSign r subtle session.signingSecret call.method signTarget timestamp body
  return {
    url := String.ofList (collapseSlashes (requestBase ++ call.path).toList)
    method := call.method
    headers := [("X-API-Key", session.apiKey), ("X-Timestamp", timestamp),
      ("X-Signature-256", signature), ("Content-Type", "application/json")]
    body := call.body }

/-- Header names are sent in lower case. -/
def lowerCase (name : String) : String := String.ofList (name.toList.map Char.toLower)

/-- The request as it gets to the service. Proxies on the way may change the target; HTTP
keeps newlines out of the first line, and a length that is declared is that of the body. -/
structure Received (f : Fetch) (req : Request) : Prop where
  method : req.method = f.method
  headers : ∀ name value, (name, value) ∈ f.headers → req.header (lowerCase name) = some value
  body : req.body = utf8 (f.body.getD "")
  length : ∀ n, (req.header "content-length").bind parseU64 = some n → n = req.body.length
  line : '\n' ∉ req.target.toList

namespace DashboardCall

/-- What the call is meant to ask of the service. -/
def meant (x : Readers) (headers : HeaderMap) : DashboardCall → ApiRequest
  | .getMe => .getMe
  | .loadEndpoints => .listEndpoints
  | .createEndpoint body => .createEndpoint (strictJson (x.createEndpoint headers (utf8 body)))
  | .submitEditEndpoint id body =>
      .updateEndpoint (strictPath (x.uuid id)) (strictJson (x.updateEndpoint headers (utf8 body)))
  | .deleteEndpoint id => .deleteEndpoint (strictPath (x.uuid id))
  | .loadVaultGroups => .listVaultGroups
  | .loadKeyGroups id => .listKeyGroups (strictPath (x.uuid id))
  | .grantGroup id body =>
      .grantKeyGroup (strictPath (x.uuid id)) (strictJson (x.grantGroup headers (utf8 body)))
  | .revokeGroup id permissionId => .revokeKeyGroup (normalized (x.uuids id permissionId))
  | .loadKeys => .listApiKeys
  | .createKey body => .createApiKey (strictJson (x.createKey headers (utf8 body)))
  | .submitEditKey id body =>
      .updateApiKey (strictPath (x.uuid id)) (strictJson (x.updateKey headers (utf8 body)))
  | .deleteKey id => .deleteApiKey (strictPath (x.uuid id)) (strictQuery (x.deleteKey ""))
  | .reassignAndDelete id target => .deleteApiKey (strictPath (x.uuid id))
      (strictQuery (x.deleteKey ("reassign_to=" ++ encodeURIComponent target)))
  | .regenerateKey id => .rotateApiKey (strictPath (x.uuid id))
  | .rotateSecret id => .rotateSigningSecret (strictPath (x.uuid id))
  | .loadAuditLogs query => .listAuditLogs (strictQuery (x.auditLogs query))

/-- The path after `/api`, part by part. -/
def segments : DashboardCall → List String
  | .getMe => ["auth", "me"]
  | .loadEndpoints | .createEndpoint _ => ["endpoints"]
  | .submitEditEndpoint id _ | .deleteEndpoint id => ["endpoints", id]
  | .loadVaultGroups => ["vault-groups"]
  | .loadKeyGroups id | .grantGroup id _ => ["keys", id, "groups"]
  | .revokeGroup id permissionId => ["keys", id, "groups", permissionId]
  | .loadKeys | .createKey _ => ["keys"]
  | .submitEditKey id _ | .deleteKey id | .reassignAndDelete id _ => ["keys", id]
  | .regenerateKey id => ["keys", id, "rotate"]
  | .rotateSecret id => ["keys", id, "rotate-secret"]
  | .loadAuditLogs _ => ["audit-logs"]

def query : DashboardCall → Option String
  | .reassignAndDelete _ target => some ("reassign_to=" ++ encodeURIComponent target)
  | .loadAuditLogs query => some query
  | _ => none

/-- Identifiers are not empty and have no character that ends a part of a path. -/
def Plain (call : DashboardCall) : Prop :=
  ∀ s ∈ call.segments, s ≠ "" ∧ '/' ∉ s.toList ∧ '?' ∉ s.toList

instance (call : DashboardCall) : Decidable call.Plain :=
  inferInstanceAs (Decidable (∀ s ∈ call.segments, s ≠ "" ∧ '/' ∉ s.toList ∧ '?' ∉ s.toList))

end DashboardCall

section Paths
variable {x : Readers} {req : Request} {call : DashboardCall}

/-- Each segment behind a slash. -/
def slashed (segments : List String) : List Char := segments.flatMap fun s => '/' :: s.toList

theorem path_eq (call : DashboardCall) :
    call.path.toList = slashed ("api" :: call.segments) ++
      call.query.elim [] ('?' :: ·.toList) := by
  cases call
  all_goals dsimp only [DashboardCall.path, DashboardCall.segments, DashboardCall.query, slashed,
    Option.elim]
  all_goals simp only [String.toList_append, List.flatMap_cons, List.flatMap_nil, List.append_nil,
    List.append_assoc, List.cons_append]
  all_goals rfl

theorem split_slashed (front : List Char) {segments : List String}
    (h : ∀ s ∈ segments, '/' ∉ s.toList) :
    split '/' (String.ofList (front ++ slashed segments)) =
      split '/' (String.ofList front) ++ segments := by
  induction segments generalizing front with
  | nil => simp [slashed]
  | cons s segments ih =>
      have hs : split '/' (String.ofList s.toList) = [s] := by
        rw [String.ofList_toList]
        exact split_of_notMem (h s List.mem_cons_self)
      have hrest := ih s.toList fun s' hs' => h s' (List.mem_cons_of_mem _ hs')
      rw [slashed, List.flatMap_cons, List.cons_append, split_append_cons]
      rw [slashed] at hrest
      rw [hrest, hs]
      rfl

theorem notMem_slashed {segments : List String} {c : Char} (hc : c ≠ '/')
    (h : ∀ s ∈ segments, c ∉ s.toList) : c ∉ slashed segments := by
  intro hmem
  obtain ⟨s, hs, hin⟩ := List.mem_flatMap.mp hmem
  rcases List.mem_cons.mp hin with rfl | hin
  · exact hc rfl
  · exact h s hs hin

/-- A target is cut at its first question mark. -/
theorem target_cut {target : String} {front : List Char} {query : Option String} (h : '?' ∉ front)
    (htarget : target.toList = front ++ query.elim [] ('?' :: ·.toList)) :
    pathOf target = String.ofList front ∧ queryOf target = query.getD "" := by
  have hfront : ∀ c ∈ front, (c != '?') = true := by
    intro c hc
    rw [bne_iff_ne]
    rintro rfl
    exact h hc
  rw [pathOf, queryOf, htarget, List.takeWhile_append_of_pos hfront,
    List.dropWhile_append_of_pos hfront]
  cases query with
  | none => exact ⟨by simp, rfl⟩
  | some q => simp

theorem Plain.notMem (hplain : call.Plain) : '?' ∉ slashed ("api" :: call.segments) := by
  refine notMem_slashed (by decide) ?_
  intro s hs
  rcases List.mem_cons.mp hs with rfl | hs
  · decide
  · exact (hplain s hs).2.2

theorem Plain.split (hplain : call.Plain) : ∀ s ∈ "api" :: call.segments, '/' ∉ s.toList := by
  intro s hs
  rcases List.mem_cons.mp hs with rfl | hs
  · decide
  · exact (hplain s hs).2.1

theorem forMethod_apiRoutes (hquery : queryOf req.target = call.query.getD "")
    (hbody : req.body = utf8 (call.body.getD "")) :
    forMethod call.method (apiRoutes x req call.segments) = .api (call.meant x req.headers) := by
  obtain ⟨method, target, headers, body, peer⟩ := req
  cases hbody
  cases call with
  | deleteKey id | reassignAndDelete id target' =>
      exact congrArg
        (fun q => Routed.api (.deleteApiKey (strictPath (x.uuid id)) (strictQuery (x.deleteKey q))))
        hquery
  | loadAuditLogs query =>
      exact congrArg (fun q => Routed.api (.listAuditLogs (strictQuery (x.auditLogs q)))) hquery
  | _ => rfl

/-- Every call of the dashboard has a route, and it is the one that is meant. -/
theorem route_eq_meant (hplain : call.Plain) (hmethod : req.method = call.method)
    (htarget : req.target = call.path) (hbody : req.body = utf8 (call.body.getD "")) :
    route x req = .api (call.meant x req.headers) := by
  have hcut : req.target.toList =
      slashed ("api" :: call.segments) ++ call.query.elim [] ('?' :: ·.toList) := by
    rw [htarget, path_eq]
  obtain ⟨hpath, hquery⟩ := target_cut (Plain.notMem hplain) hcut
  have hsplit : split '/' (pathOf req.target) = "" :: "api" :: call.segments := by
    have h := split_slashed [] (Plain.split hplain)
    rw [hpath]
    exact h
  have hfull : call.segments.contains "" = false := by
    rw [List.contains_eq_mem, decide_eq_false_iff_not]
    exact fun h => (hplain "" h).1 rfl
  rw [route, hsplit]
  simp only [hfull, Bool.false_eq_true, if_false, hmethod]
  exact forMethod_apiRoutes hquery hbody

/-- What is routed does not begin with `api`, and in its third place is no identifier. -/
theorem apiRoutes_shape {segments : List String} (h : apiRoutes x req segments ≠ []) :
    segments.head? ≠ some "api" ∧ segments.length ≤ 4 ∧
      ∀ third, segments[2]? = some third →
        third ∈ ["groups", "rotate", "rotate-secret", "owner"] := by
  unfold apiRoutes at h
  split at h
  all_goals first | exact absurd rfl h | simp

/-- No route has `api` inside, with the parts of a call of the dashboard behind it. -/
theorem apiRoutes_inside (before : List String) :
    apiRoutes x req (before ++ "api" :: call.segments) = [] := by
  by_contra hroutes
  obtain ⟨hfirst, hlength, hthird⟩ := apiRoutes_shape hroutes
  obtain ⟨first, rest, hsegments, hpart⟩ : ∃ first rest, call.segments = first :: rest ∧
      first ∉ ["groups", "rotate", "rotate-secret", "owner"] := by
    cases call <;> exact ⟨_, _, rfl, by decide⟩
  rw [hsegments] at hfirst hlength hthird
  rcases before with _ | ⟨a, _ | ⟨b, _ | ⟨c, before⟩⟩⟩
  · exact hfirst rfl
  · exact hpart (hthird first rfl)
  · exact absurd (hthird "api" rfl) (by decide)
  · simp only [List.length_append, List.length_cons] at hlength
    omega

/-- A base in front of a call leads past all routes. -/
theorem route_based {base : List Char} (hplain : call.Plain) (hbase : '?' ∉ '/' :: base)
    (htarget : req.target.toList = '/' :: base ++ call.path.toList) : route x req = .elsewhere := by
  have hcut : req.target.toList =
      ('/' :: base ++ slashed ("api" :: call.segments)) ++
        call.query.elim [] ('?' :: ·.toList) := by
    rw [htarget, path_eq, List.append_assoc]
  have hfront : '?' ∉ '/' :: base ++ slashed ("api" :: call.segments) := by
    rw [List.mem_append, not_or]
    exact ⟨hbase, Plain.notMem hplain⟩
  have hsplit : split '/' (pathOf req.target) =
      "" :: split '/' (String.ofList base) ++ "api" :: call.segments := by
    have hroot := split_append_cons '/' [] base
    rw [List.nil_append] at hroot
    rw [(target_cut hfront hcut).1, split_slashed _ (Plain.split hplain), hroot]
    rfl
  rw [route, hsplit]
  cases hparts : split '/' (String.ofList base) with
  | nil => simp [split] at hparts
  | cons first before =>
      by_cases hfirst : first = "api"
      · subst hfirst
        simp only [List.cons_append, apiRoutes_inside]
        split <;> rfl
      · simp only [List.cons_append]
        split
        · rename_i heq
          cases heq
          exact absurd rfl hfirst
        · rfl

end Paths

theorem toDigit_digitChar {d : ℕ} (h : d < 10) : toDigit 10 (Nat.digitChar d) = some d := by
  have hall : ∀ d < 10, toDigit 10 (Nat.digitChar d) = some d := by decide
  exact hall d h

theorem digitsValue_toDigits (n : ℕ) : digitsValue 10 (Nat.toDigits 10 n) = some n := by
  induction n using Nat.strongRecOn with
  | ind n ih =>
      rw [Nat.toDigits_eq_if (by decide)]
      split
      · rename_i hlt
        simp [digitsValue, toDigit_digitChar hlt]
      · have hrec := ih (n / 10) (by omega)
        unfold digitsValue at hrec ⊢
        rw [List.foldlM_append, hrec]
        simp [toDigit_digitChar (Nat.mod_lt n (by decide)), Nat.div_add_mod]

theorem parseTimestamp_toString {n : ℕ} (h : (n : ℤ) ≤ i64Max) :
    parseTimestamp (toString n) = some (n : ℤ) := by
  have hrange : ∀ c ∈ (toString n).toList, 48 ≤ c.toNat ∧ c.toNat ≤ 57 :=
    fun c hc => digit_of_mem_repr hc
  have hblank : ∀ c ∈ (toString n).toList, isWhitespace c = false := by
    intro c hc
    have hc' := hrange c hc
    simp only [isWhitespace, Bool.or_eq_false_iff, Bool.and_eq_false_iff, decide_eq_false_iff_not,
      beq_eq_false_iff_ne, ne_eq]
    omega
  have htrim : trim (toString n) = toString n := by
    rw [trim, trimChars_of_none hblank, String.ofList_toList]
  have hvalue := digitsValue_toDigits n
  rw [← Nat.toList_repr, ← Nat.toString_eq_repr] at hvalue
  rw [parseTimestamp, htrim, parseI64]
  cases hcs : (toString n).toList with
  | nil => simp at hcs
  | cons c cs =>
      have hc := hrange c (by rw [hcs]; exact List.mem_cons_self)
      have hplus : c ≠ '+' := by
        rintro rfl
        exact absurd hc.1 (by decide)
      have hminus : c ≠ '-' := by
        rintro rfl
        exact absurd hc.1 (by decide)
      rw [hcs] at hvalue
      have hmin : i64Min ≤ (n : ℤ) := by
        unfold i64Min
        omega
      simp [hplus, hminus, hvalue, hmin, h]

/-- The keyed hash of the browser, if it offers one, is that of the standard. -/
def Standard (subtle : Option (List UInt8 → List UInt8 → Option (List UInt8))) : Prop :=
  ∀ sign, subtle = some sign → ∀ key message, key ≠ [] →
    sign key message = some (SecureHash.hmacSha256 key message)

/-- Either way of signing gives the header that the service computes. -/
theorem hmacSign_eq_computeSignature (r : Rounding)
    {subtle : Option (List UInt8 → List UInt8 → Option (List UInt8))} (hsubtle : Standard subtle)
    {crates : Crates} {secret method target timestamp body : String}
    (hcrate : crates.hmacSha256 secret = some (SecureHash.hmacSha256 (utf8 secret)))
    (hsecret : utf8 secret ≠ []) (hshort : (utf8 secret).length < 2 ^ 50)
    (hsize : (utf8 (message method target timestamp body)).length < 2 ^ 50) :
    hmacSign r subtle secret method target timestamp body =
      computeSignature crates secret (canonicalV1Payload method target timestamp (utf8 body)) := by
  rw [computeSignature, hcrate, Option.map_some]
  cases subtle with
  | some sign =>
      simp only [hmacSign, hsubtle sign rfl _ _ hsecret, Option.map_some, toHex_eq, utf8_message]
      rfl
  | none =>
      have hbytes : hmacSha256 r (utf8 secret) (utf8 (message method target timestamp body)) = _ :=
        hmacSha256_eq r (by omega) (by omega)
      rw [utf8_message] at hbytes
      simp only [hmacSign, toHex_eq, utf8_message, hbytes]
      rfl

/-- A dashboard that is logged in, in a browser and against a service that compute the same
keyed hash. -/
structure Dashboard (config : Config) where
  rounding : Rounding
  subtle : Option (List UInt8 → List UInt8 → Option (List UInt8))
  session : SessionValues
  requestBase : String
  standard : Standard subtle
  hmac : config.crates.hmacSha256 session.signingSecret =
    some (SecureHash.hmacSha256 (utf8 session.signingSecret))
  secret : utf8 session.signingSecret ≠ []
  short : (utf8 session.signingSecret).length < 2 ^ 50

/-- What the dashboard sends for a call. -/
def Dashboard.fetch {config : Config} (b : Dashboard config) (now : ℕ) (call : DashboardCall) :
    Option Fetch :=
  apiCall b.rounding b.subtle b.session b.requestBase now call

section Sending
variable {config : Config} {b : Dashboard config} {now : ℕ} {call : DashboardCall} {f : Fetch}
  {req : Request}

/-- The text that the dashboard signs. -/
def Dashboard.signed (b : Dashboard config) (now : ℕ) (call : DashboardCall) : List UInt8 :=
  canonicalV1Payload call.method (b.session.apiBaseOverride ++ call.path) (toString (now / 1000))
    (utf8 (call.body.getD ""))

theorem fetch_eq_some (hfetch : b.fetch now call = some f)
    (hsize : (b.signed now call).length < 2 ^ 50) :
    ∃ header, computeSignature config.crates b.session.signingSecret (b.signed now call) =
      some header ∧
      f.method = call.method ∧ f.body = call.body ∧
      f.headers = [("X-API-Key", b.session.apiKey), ("X-Timestamp", toString (now / 1000)),
        ("X-Signature-256", header), ("Content-Type", "application/json")] := by
  obtain ⟨header, hheader, heq⟩ := Option.bind_eq_some_iff.mp hfetch
  rw [hmacSign_eq_computeSignature b.rounding b.standard b.hmac b.secret b.short
    (by rw [utf8_message]; exact hsize)] at hheader
  cases heq
  exact ⟨header, hheader, rfl, rfl, rfl⟩

/-- What the service reads of a call. -/
theorem read_of_received (hfetch : b.fetch now call = some f) (hreceived : Received f req)
    (hsize : (b.signed now call).length < 2 ^ 50) :
    ∃ header, computeSignature config.crates b.session.signingSecret (b.signed now call) =
      some header ∧
      req.method = call.method ∧ req.body = utf8 (call.body.getD "") ∧
      req.apiKey = some b.session.apiKey ∧ req.timestampText = some (toString (now / 1000)) ∧
      req.signature = some header := by
  obtain ⟨header, hheader, hmethod, hbody, hheaders⟩ := fetch_eq_some hfetch hsize
  have hread : ∀ name value, (name, value) ∈ [("X-API-Key", b.session.apiKey),
      ("X-Timestamp", toString (now / 1000)), ("X-Signature-256", header),
      ("Content-Type", "application/json")] → req.header (lowerCase name) = some value := by
    rw [← hheaders]
    exact hreceived.headers
  refine ⟨header, hheader, hreceived.method.trans hmethod, ?_, hread "X-API-Key" _ (by simp),
    hread "X-Timestamp" _ (by simp), hread "X-Signature-256" _ (by simp)⟩
  rw [hreceived.body, hbody]

/-- The service reads a call as one that was signed with the session's secret, if the
target it sees is the one that was signed. -/
theorem exists_sent (hfetch : b.fetch now call = some f) (hreceived : Received f req)
    (htarget : req.target = b.session.apiBaseOverride ++ call.path)
    (hsize : (b.signed now call).length < 2 ^ 50) (hnow : ((now / 1000 : ℕ) : ℤ) ≤ i64Max)
    (hbody : req.body.length ≤ maxRequestBodyBytes) :
    ∃ sent : Sent config b.session.signingSecret, sent.req = req ∧ sent.key = b.session.apiKey ∧
      sent.time = (now / 1000 : ℕ) ∧
      sent.digest = SecureHash.hmacSha256 (utf8 b.session.signingSecret) (b.signed now call) := by
  obtain ⟨header, hheader, hmethod, hbytes, hkey, htime, hsignature⟩ :=
    read_of_received hfetch hreceived hsize
  have hpayload : canonicalV1Payload req.method req.target (toString (now / 1000)) req.body =
      b.signed now call := by
    rw [hmethod, htarget, hbytes, Dashboard.signed]
  refine ⟨{
    req := req
    key := b.session.apiKey
    text := toString (now / 1000)
    header := header
    mac := SecureHash.hmacSha256 (utf8 b.session.signingSecret)
    time := (now / 1000 : ℕ)
    apiKey_eq := hkey
    timestampText_eq := htime
    parse_eq := parseTimestamp_toString hnow
    hmac_eq := b.hmac
    header_eq := by rw [hpayload]; exact hheader
    signature_eq := hsignature
    declared_ok := ?_
    body_ok := hbody }, rfl, rfl, rfl, ?_⟩
  · unfold checkDeclaredLength
    cases hlength : (req.header "content-length").bind parseU64 with
    | none => rfl
    | some n =>
        have hn := hreceived.length n hlength
        simp only
        rw [if_neg (by omega)]
  · exact congrArg (SecureHash.hmacSha256 (utf8 b.session.signingSecret)) hpayload

end Sending

end SimplyIpExporter.DashboardCalls
