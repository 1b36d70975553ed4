import SimplyIpExporter.AdmittedRequests
import SimplyIpExporter.DashboardCalls
import SimplyIpExporter.GuardPruning
import SimplyIpExporter.PayloadParts

/-!
# Sessions of the dashboard

The dashboard signs every call afresh, but with the time in whole seconds. So two equal
calls within one second have one signature, and the replay guard takes the second for a
replay of the first. The calls of a dashboard are served here one after another, as they
arrive: that is the only reason for which one that is signed with the right secret is
refused, apart from the address it comes from.

A session may put something in front of the paths that it signs, for a proxy that leaves its
own part in front of them. No call of such a session is let in: as it was signed it is not
for the API, and otherwise the signature is not its own.
-/
namespace SimplyIpExporter.DashboardSessions
open RustText IpAddresses Entities BoundIps ClientAddress CanonicalSigning ReplayGuard Programs
open RequestAuthentication Routes EndpointHandlers HttpRouter AdmissionRuns GuardPruning
open DashboardCalls
open SignatureSingleUse (swept)
open OutboundStamps (utf8_inj)
open PayloadParts (Signable payload_injective toString_line decoded_of_verifySignature)
open AdmittedRequests Interleaving Gates

/-- A call, when the browser made it (in milliseconds), and what arrived of it when. -/
structure Submission where
  call : DashboardCall
  sentAt : ℕ
  req : Request
  arrivesAt : Instant

def Submission.second (d : Submission) : ℕ := d.sentAt / 1000

/-- Requests are let in or refused one after another. -/
def serve (around : NetworkView) (x : Readers) (config : Config) :
    AuthState → List Submission → List (Except Refusal Task)
  | _, [] => []
  | s, d :: ds =>
      let answer :=
        settle (authReply around) (gate x config (.http d.req)) { s with clock := d.arrivesAt }
      answer.1 :: serve around x config answer.2 ds

/-- Complete executions of the gate, each at the time its request arrives. -/
def ServedInTurn (x : Readers) (config : Config) :
    AuthState → List Submission → List (Except Refusal Task) → Prop
  | _, [], answers => answers = []
  | s, d :: ds, answers => ∃ choices answer s' rest, answers = answer :: rest ∧
      Programs.run exec (gate x config (.http d.req)) choices { s with clock := d.arrivesAt } =
        some (answer, s') ∧ ServedInTurn x config s' ds rest

theorem servedInTurn_serve (around : NetworkView) (x : Readers) (config : Config) (s : AuthState)
    (ds : List Submission) : ServedInTurn x config s ds (serve around x config s ds) := by
  induction ds generalizing s with
  | nil => rfl
  | cons d ds ih =>
      obtain ⟨choices, hrun⟩ := exists_run around (gate x config (.http d.req))
        { s with clock := d.arrivesAt }
      exact ⟨choices, _, _, _, rfl, hrun, ih _⟩

/-- The same call in the same second. -/
def repeats (earlier d : Submission) : Bool :=
  earlier.call.method == d.call.method && earlier.call.path == d.call.path &&
    earlier.call.body.getD "" == d.call.body.getD "" && earlier.second == d.second

theorem repeats_iff {earlier d : Submission} : repeats earlier d = true ↔
    earlier.call.method = d.call.method ∧ earlier.call.path = d.call.path ∧
      earlier.call.body.getD "" = d.call.body.getD "" ∧ earlier.second = d.second := by
  simp [repeats, and_assoc]

theorem repeats_refl (d : Submission) : repeats d d = true := repeats_iff.mpr ⟨rfl, rfl, rfl, rfl⟩

theorem repeats_trans {d₁ d₂ d₃ : Submission} (h : repeats d₁ d₂ = true)
    (h' : repeats d₂ d₃ = true) :
    repeats d₁ d₃ = true := by
  obtain ⟨hm, hp, hb, hs⟩ := repeats_iff.mp h
  obtain ⟨hm', hp', hb', hs'⟩ := repeats_iff.mp h'
  exact repeats_iff.mpr ⟨hm.trans hm', hp.trans hp', hb.trans hb', hs.trans hs'⟩

/-- How long the guard remembers, in nanoseconds. -/
def guardWindow (config : Config) : ℤ :=
  windowSeconds config.signatureMaxAgeSeconds * nanosPerSecond

def digest {config : Config} (b : Dashboard config) (d : Submission) : List UInt8 :=
  SecureHash.hmacSha256 (utf8 b.session.signingSecret) (b.signed d.sentAt d.call)

/-- The calls of one dashboard in the order of their arrival, for whose session nothing is
put in front of a path. Those of one second arrive while the guard still remembers the
first of them, and no two different ones have the same signature. -/
structure Conversation {config : Config} (b : Dashboard config) (ds : List Submission) : Prop where
  base : b.session.apiBaseOverride = ""
  sent : ∀ d ∈ ds, ∃ f, b.fetch d.sentAt d.call = some f ∧ Received f d.req
  target : ∀ d ∈ ds, d.req.target = d.call.path
  plain : ∀ d ∈ ds, d.call.Plain
  size : ∀ d ∈ ds, (b.signed d.sentAt d.call).length < 2 ^ 50 ∧
    d.req.body.length ≤ maxRequestBodyBytes ∧
    (d.second : ℤ) ≤ i64Max
  timely : ∀ d ∈ ds, |timestamp d.arrivesAt - d.second| ≤ config.signatureMaxAgeSeconds
  together : ∀ d ∈ ds, ∀ d' ∈ ds, d.second = d'.second →
    d'.arrivesAt < d.arrivesAt + guardWindow config
  sorted : ds.Pairwise fun d d' => d.arrivesAt ≤ d'.arrivesAt
  distinct : ∀ d ∈ ds, ∀ d' ∈ ds, digest b d = digest b d' →
    b.signed d.sentAt d.call = b.signed d'.sentAt d'.call

/-- The key of the session, as the service knows it. -/
structure Account {config : Config} (b : Dashboard config) (row : ApiKey) (s : AuthState) :
    Prop where
  row_eq : s.findKey (config.crates.hashKey b.session.apiKey) = some row
  pin : row.isMaster = true → s.pin = some row.id
  opens : row.signingSecret.bind config.crates.openSecret = some b.session.signingSecret

def addressOf (around : NetworkView) (req : Request) : IpAddr :=
  resolveClientIp req.peer req.headers around.proxies

/-- What is expected to become of a call, given those before it. -/
def verdict (around : NetworkView) (x : Readers) (row : ApiKey) (entries : List BoundIpEntry)
    (before : List Submission) (d : Submission) : Except Refusal Task :=
  if before.any (repeats · d) then .error (.abort alreadyUsed)
  else if entries.isEmpty || entries.any (covers around.dns (addressOf around d.req)) then
    .ok (.request ⟨row, addressOf around d.req⟩ (d.call.meant x d.req.headers))
  else .error (.abort forbiddenAddress)

section Guarding
variable {config : Config} {b : Dashboard config} {ds : List Submission}

theorem method_line (call : DashboardCall) : '\n' ∉ call.method.toList := by
  have hmethod : call.method ∈ ["GET", "POST", "PUT", "DELETE"] := by
    cases call <;> simp [DashboardCall.method]
  have hall : ∀ m ∈ ["GET", "POST", "PUT", "DELETE"], '\n' ∉ m.toList := by decide
  exact hall _ hmethod

/-- What is signed of a call, part by part. -/
def signable (h : Conversation b ds) {d : Submission} (hd : d ∈ ds) : Signable where
  method := d.call.method
  target := d.call.path
  timestamp := toString d.second
  body := utf8 (d.call.body.getD "")
  method_line := method_line d.call
  target_line := by
    obtain ⟨f, -, hreceived⟩ := h.sent d hd
    rw [← h.target d hd]
    exact hreceived.line
  timestamp_line := toString_line d.second

theorem signed_eq (h : Conversation b ds) {d : Submission} (hd : d ∈ ds) :
    b.signed d.sentAt d.call = (signable h hd).payload := by
  rw [Dashboard.signed, h.base, String.empty_append]
  rfl

theorem second_inj {d d' : Submission} (h : toString d.second = toString d'.second)
    (hd : (d.second : ℤ) ≤ i64Max) (hd' : (d'.second : ℤ) ≤ i64Max) : d.second = d'.second := by
  have hread := parseTimestamp_toString hd
  rw [h, parseTimestamp_toString hd', Option.some.injEq] at hread
  exact (Int.ofNat_inj.mp hread).symm

/-- Repeated calls have one signature, and no others have. -/
theorem digest_eq_iff (h : Conversation b ds) {d d' : Submission} (hd : d ∈ ds) (hd' : d' ∈ ds) :
    digest b d' = digest b d ↔ repeats d' d = true := by
  rw [repeats_iff]
  constructor
  · intro heq
    have hsigned := h.distinct d' hd' d hd heq
    rw [signed_eq h hd, signed_eq h hd'] at hsigned
    have hparts := payload_injective hsigned
    exact ⟨congrArg Signable.method hparts, congrArg Signable.target hparts,
      utf8_inj (congrArg Signable.body hparts),
      second_inj (congrArg Signable.timestamp hparts) (h.size d' hd').2.2 (h.size d hd).2.2⟩
  · rintro ⟨hm, hp, hb, hs⟩
    unfold Submission.second at hs
    rw [digest, digest, Dashboard.signed, Dashboard.signed, hm, hp, hb, hs]

/-- The call of the guard for a submission. -/
def honoured (b : Dashboard config) (row : ApiKey) (d : Submission) : Call :=
  ⟨⟨row.id, digest b d⟩, d.arrivesAt⟩

/-- The guard has accepted calls of those that were made, and for each that was made one
that it repeats. -/
structure Remembering (b : Dashboard config) (row : ApiKey) (done : List Submission)
    (accepted : List Call) : Prop where
  made : ∀ call ∈ accepted, ∃ d ∈ done, call = honoured b row d
  first : ∀ d ∈ done, ∃ d' ∈ done, repeats d' d = true ∧ honoured b row d' ∈ accepted

variable {row : ApiKey} {done : List Submission} {accepted : List Call} {d : Submission}

theorem unused_eq (h : Conversation b ds) (hdone : ∀ d' ∈ done, d' ∈ ds) (hd : d ∈ ds)
    (hr : Remembering b row done accepted) :
    unused (guardWindow config) accepted (honoured b row d) =
      !done.any (repeats · d) := by
  rw [Bool.eq_iff_iff, unused_iff, Bool.not_eq_true', List.any_eq_false]
  constructor
  · intro hunused d' hd' hrepeats
    obtain ⟨first, hfirst, hsame, haccepted⟩ := hr.first d' hd'
    have hagain := repeats_trans hsame hrepeats
    have hid : (honoured b row first).id = (honoured b row d).id :=
      congrArg (SignatureId.mk row.id) ((digest_eq_iff h hd (hdone first hfirst)).mpr hagain)
    have hopen := h.together first (hdone first hfirst) d hd (repeats_iff.mp hagain).2.2.2
    exact absurd (hunused _ haccepted hid) (not_le.mpr hopen)
  · intro hnone call hcall hid
    obtain ⟨d', hd', rfl⟩ := hr.made call hcall
    have hdigest : digest b d' = digest b d := congrArg SignatureId.digest hid
    exact absurd ((digest_eq_iff h hd (hdone d' hd')).mp hdigest) (hnone d' hd')

theorem recorded_honoured {window : ℤ} {s : AuthState}
    (h : GuardMatches window s.guard accepted d.arrivesAt) :
    (recorded (honoured b row d).id { s with clock := d.arrivesAt }).1 =
        unused window accepted (honoured b row d) ∧
      GuardMatches window (recorded (honoured b row d).id { s with clock := d.arrivesAt }).2.guard
        (remember window accepted (honoured b row d)) d.arrivesAt :=
  @GuardMatches.recorded window s accepted (honoured b row d) h

theorem Remembering.next (h : Conversation b ds) (hdone : ∀ d' ∈ done, d' ∈ ds) (hd : d ∈ ds)
    (hr : Remembering b row done accepted) :
    Remembering b row (done ++ [d])
      (remember (guardWindow config) accepted (honoured b row d)) := by
  have hmade : ∀ call ∈ accepted, ∃ d' ∈ done ++ [d], call = honoured b row d' := by
    intro call hcall
    obtain ⟨d', hd', heq⟩ := hr.made call hcall
    exact ⟨d', List.mem_append_left _ hd', heq⟩
  rw [remember, unused_eq h hdone hd hr]
  cases hrepeated : done.any (repeats · d) with
  | true =>
      refine ⟨hmade, ?_⟩
      intro d' hd'
      have hearlier : ∃ d₁ ∈ done, repeats d₁ d' = true := by
        rcases List.mem_append.mp hd' with hd' | hd'
        · exact ⟨d', hd', repeats_refl d'⟩
        · rw [List.mem_singleton.mp hd']
          exact List.any_eq_true.mp hrepeated
      obtain ⟨d₁, hd₁, hsame⟩ := hearlier
      obtain ⟨first, hfirst, hsame₁, haccepted⟩ := hr.first d₁ hd₁
      exact ⟨first, List.mem_append_left _ hfirst, repeats_trans hsame₁ hsame, haccepted⟩
  | false =>
      refine ⟨?_, ?_⟩
      · intro call hcall
        rcases List.mem_cons.mp hcall with rfl | hcall
        · exact ⟨d, by simp, rfl⟩
        · exact hmade call hcall
      · intro d' hd'
        rcases List.mem_append.mp hd' with hd' | hd'
        · obtain ⟨first, hfirst, hsame, haccepted⟩ := hr.first d' hd'
          exact ⟨first, List.mem_append_left _ hfirst, hsame, List.mem_cons_of_mem _ haccepted⟩
        · rw [List.mem_singleton.mp hd']
          exact ⟨d, by simp, repeats_refl d, List.mem_cons_self⟩

end Guarding

section Serving
variable {config : Config} {b : Dashboard config} {ds : List Submission} {around : NetworkView}
  {x : Readers} {row : ApiKey} {entries : List BoundIpEntry} {s : AuthState}
  {done : List Submission}
  {accepted : List Call} {d : Submission}

theorem settle_gate {req : Request} {r : ApiRequest} (hroute : route x req = .api r)
    {outcome : Except Abort (ApiKey × IpAddr)} {s' : AuthState}
    (hsettle : settle (authReply around) (authMiddleware config req) s = (outcome, s')) :
    settle (authReply around) (gate x config (.http req)) s =
      ((Routed.api r).letPass outcome, s') := by
  simp only [gate, hroute]
  rw [settle_bind]
  change ((Routed.api r).letPass (settle (authReply around) (authMiddleware config req) s).1,
    (settle (authReply around) (authMiddleware config req) s).2) = _
  rw [hsettle]

/-- What a call is answered, and what the guard then knows. -/
theorem serve_call (h : Conversation b ds) (hwindow : config.signatureMaxAgeSeconds ≤ i64Max)
    (hbound : parseBoundIps config.crates (row.boundIps.getD "") = .ok entries) (hd : d ∈ ds)
    (haccount : Account b row s) :
    settle (authReply around) (gate x config (.http d.req)) { s with clock := d.arrivesAt } =
      (if (recorded (honoured b row d).id { s with clock := d.arrivesAt }).1 then
          if entries.isEmpty || entries.any (covers around.dns (addressOf around d.req)) then
            .ok (.request ⟨row, addressOf around d.req⟩ (d.call.meant x d.req.headers))
          else .error (.abort forbiddenAddress)
        else .error (.abort alreadyUsed),
        (recorded (honoured b row d).id { s with clock := d.arrivesAt }).2) := by
  obtain ⟨f, hfetch, hreceived⟩ := h.sent d hd
  obtain ⟨hsize, hbody, hsecond⟩ := h.size d hd
  have htarget : d.req.target = b.session.apiBaseOverride ++ d.call.path := by
    rw [h.base, String.empty_append]
    exact h.target d hd
  obtain ⟨sent, hreq, hkey, htime, hdigest⟩ :=
    exists_sent hfetch hreceived htarget hsize hsecond hbody
  obtain ⟨header, -, hmethod, hbytes, -⟩ := read_of_received hfetch hreceived hsize
  have hroute : route x d.req = .api (d.call.meant x d.req.headers) :=
    route_eq_meant (h.plain d hd) hmethod (h.target d hd) hbytes
  have harrives : Arrives sent row { s with clock := d.arrivesAt } := by
    refine ⟨?_, haccount.pin, haccount.opens, hwindow, ?_⟩
    · rw [hkey]
      exact haccount.row_eq
    · rw [htime]
      exact h.timely d hd
  have hsettle : settle (authReply around) (authMiddleware config sent.req) _ = _ :=
    settle_authMiddleware harrives hbound rfl
  rw [hreq, hdigest] at hsettle
  rw [settle_gate hroute hsettle, apply_ite (Routed.letPass _), apply_ite (Routed.letPass _)]
  rfl

theorem answer_eq (h : Conversation b ds) (hwindow : config.signatureMaxAgeSeconds ≤ i64Max)
    (hbound : parseBoundIps config.crates (row.boundIps.getD "") = .ok entries) (hd : d ∈ ds)
    (hdone : ∀ d' ∈ done, d' ∈ ds) (haccount : Account b row s)
    (hr : Remembering b row done accepted)
    (hmirrors : GuardMatches (guardWindow config) s.guard accepted
      d.arrivesAt) :
    settle (authReply around) (gate x config (.http d.req)) { s with clock := d.arrivesAt } =
      (verdict around x row entries done d,
        (recorded (honoured b row d).id { s with clock := d.arrivesAt }).2) := by
  have hanswer : (recorded (honoured b row d).id { s with clock := d.arrivesAt }).1 =
      !done.any (repeats · d) :=
    (recorded_honoured hmirrors).1.trans (unused_eq h hdone hd hr)
  rw [serve_call h hwindow hbound hd haccount, hanswer, verdict]
  cases done.any (repeats · d) with
  | true => rfl
  | false => rfl

/-- The verdicts on calls, given those before them. -/
def verdicts (around : NetworkView) (x : Readers) (row : ApiKey) (entries : List BoundIpEntry) :
    List Submission → List Submission → List (Except Refusal Task)
  | _, [] => []
  | done, d :: ds =>
      verdict around x row entries done d :: verdicts around x row entries (done ++ [d]) ds

theorem verdicts_getElem (before after : List Submission) :
    (verdicts around x row entries done (before ++ d :: after))[before.length]? =
      some (verdict around x row entries (done ++ before) d) := by
  induction before generalizing done with
  | nil => simp [verdicts]
  | cons d' before ih =>
      have hrest := @ih (done ++ [d'])
      rw [List.append_assoc] at hrest
      exact hrest

theorem length_verdicts (done ds : List Submission) :
    (verdicts around x row entries done ds).length = ds.length := by
  induction ds generalizing done with
  | nil => rfl
  | cons d ds ih => rw [verdicts, List.length_cons, ih, List.length_cons]

/-- The guard is all that a call changes. -/
theorem account_recorded (haccount : Account b row s) (id : SignatureId) (now : Instant) :
    Account b row (recorded id { s with clock := now }).2 :=
  ⟨haccount.row_eq, haccount.pin, haccount.opens⟩

theorem serve_eq_verdicts (h : Conversation b ds) (hwindow : config.signatureMaxAgeSeconds ≤ i64Max)
    (hbound : parseBoundIps config.crates (row.boundIps.getD "") = .ok entries)
    {rest : List Submission} (hsplit : ds = done ++ rest) (haccount : Account b row s)
    (hr : Remembering b row done accepted) {now : Instant} (hnow : ∀ d ∈ rest, now ≤ d.arrivesAt)
    (hmirrors : GuardMatches (guardWindow config) s.guard accepted now) :
    serve around x config s rest = verdicts around x row entries done rest := by
  induction rest generalizing done accepted s now with
  | nil => rfl
  | cons d rest ih =>
      have hd : d ∈ ds := by simp [hsplit]
      have hdone : ∀ d' ∈ done, d' ∈ ds := by
        intro d' hd'
        rw [hsplit]
        exact List.mem_append_left _ hd'
      have hmirrors' := hmirrors.advance (hnow d List.mem_cons_self)
      have hlater : ∀ d' ∈ rest, d.arrivesAt ≤ d'.arrivesAt := by
        have hsorted := h.sorted
        rw [hsplit] at hsorted
        exact (List.pairwise_cons.mp (List.pairwise_append.mp hsorted).2.1).1
      rw [serve, verdicts, answer_eq h hwindow hbound hd hdone haccount hr hmirrors']
      exact congrArg _ (ih (by rw [hsplit, List.append_assoc]; rfl) (account_recorded haccount _ _)
        (hr.next h hdone hd) hlater (recorded_honoured hmirrors').2)

/-- The calls of a dashboard against a service that has just started, for a key that it
knows, are served in a run of it. Call by call, what is let in is what was meant, as the
key of the session; refused are calls from an address that the key is not bound to, and
calls that were made before in the same second. -/
theorem dashboard_session (h : Conversation b ds) (hwindow : config.signatureMaxAgeSeconds ≤ i64Max)
    (hbound : parseBoundIps config.crates (row.boundIps.getD "") = .ok entries)
    (haccount : Account b row s) {start : Instant}
    (hguard : s.guard = Guard.new config.signatureMaxAgeSeconds start) :
    ServedInTurn x config s ds (serve around x config s ds) ∧
    (serve around x config s ds).length = ds.length ∧
    ∀ before d after, ds = before ++ d :: after →
      (serve around x config s ds)[before.length]? =
        some (verdict around x row entries before d) := by
  have hserve : serve around x config s ds = verdicts around x row entries [] ds := by
    cases ds with
    | nil => rfl
    | cons d ds =>
        have hnone : Remembering b row [] [] := ⟨by simp, by simp⟩
        have hmirrors : GuardMatches (guardWindow config) s.guard [] d.arrivesAt := by
          rw [hguard]
          exact guardMatches_new _ _ _
        refine serve_eq_verdicts h hwindow hbound rfl haccount hnone ?_ hmirrors
        intro d' hd'
        rcases List.mem_cons.mp hd' with rfl | hd'
        · exact le_refl _
        · exact (List.pairwise_cons.mp h.sorted).1 d' hd'
  rw [hserve]
  refine ⟨hserve ▸ servedInTurn_serve around x config s ds, length_verdicts [] ds, ?_⟩
  rintro before d after rfl
  exact verdicts_getElem before after

end Serving

def hmacConfig : Config where
  crates := { sampleCrates with
    hmacSha256 := fun secret => some (SecureHash.hmacSha256 (utf8 secret)) }
  build := .checked
  signatureMaxAgeSeconds := 300

theorem standard_hmac :
    Standard (some fun key message => some (SecureHash.hmacSha256 key message)) := by
  rintro sign ⟨⟩ key message -
  rfl

theorem hmacConfig_hmac (secret : String) :
    hmacConfig.crates.hmacSha256 secret = some (SecureHash.hmacSha256 (utf8 secret)) := rfl

theorem sampleSecret_ne_nil : utf8 "secret" ≠ [] := by decide

theorem length_sampleSecret_lt : (utf8 "secret").length < 2 ^ 50 := by decide

def sampleDashboard : Dashboard hmacConfig where
  rounding := ⟨id, fun q _ => Eq.refl q⟩
  subtle := some fun key message => some (SecureHash.hmacSha256 key message)
  session := ⟨"key", "secret", ""⟩
  requestBase := ""
  standard := standard_hmac
  hmac := hmacConfig_hmac "secret"
  secret := sampleSecret_ne_nil
  short := length_sampleSecret_lt

def sampleSignature : String :=
  "sha256=05dde41a1a3167c2d16dff7911d91c4127c829bccd7958662d9290aa66b7c51a"

theorem sampleSignature_eq :
    PureCrypto.hmacSign sampleDashboard.rounding sampleDashboard.subtle "secret" "GET"
      "/api/auth/me"
      "1800000000" "" = some sampleSignature := by
  decide +kernel

def sampleFetch : Fetch where
  url := "/api/auth/me"
  method := "GET"
  headers := [("X-API-Key", "key"), ("X-Timestamp", "1800000000"),
    ("X-Signature-256", sampleSignature), ("Content-Type", "application/json")]
  body := none

theorem fetch_getMe {now : ℕ} (h : now / 1000 = 1800000000) :
    sampleDashboard.fetch now .getMe = some sampleFetch := by
  have htext : toString 1800000000 = "1800000000" := by decide +kernel
  have hurl : String.ofList (collapseSlashes
      (sampleDashboard.requestBase ++ DashboardCall.getMe.path).toList) = "/api/auth/me" := by
    decide +kernel
  have hsignature := sampleSignature_eq
  rw [Dashboard.fetch, apiCall, h, htext]
  refine Option.bind_eq_some_iff.mpr ⟨sampleSignature, hsignature, ?_⟩
  rw [hurl]
  rfl

theorem legal_apiKey : (utf8 "key").all legalByte = true := by decide

theorem legal_timestamp : (utf8 "1800000000").all legalByte = true := by decide

theorem legal_signature : (utf8 sampleSignature).all legalByte = true := by decide

theorem legal_contentType : (utf8 "application/json").all legalByte = true := by decide

def sampleReceived : Request where
  method := "GET"
  target := "/api/auth/me"
  headers := [("x-api-key", ⟨utf8 "key", legal_apiKey⟩),
    ("x-timestamp", ⟨utf8 "1800000000", legal_timestamp⟩),
    ("x-signature-256", ⟨utf8 sampleSignature, legal_signature⟩),
    ("content-type", ⟨utf8 "application/json", legal_contentType⟩)]
  body := []
  peer := .v4 0

theorem received_getMe : Received sampleFetch sampleReceived where
  method := rfl
  headers := by
    have hall : ∀ h ∈ sampleFetch.headers, sampleReceived.header (lowerCase h.1) = some h.2 := by
      decide +kernel
    exact fun name value hmem => hall (name, value) hmem
  body := rfl
  length := by
    intro n h
    cases h
  line := by decide

/-- Twice within a second, half a second apart. -/
def doubleCall : List Submission :=
  [⟨.getMe, 1800000000000, sampleReceived, 1800000000 * nanosPerSecond⟩,
    ⟨.getMe, 1800000000500, sampleReceived, 1800000000 * nanosPerSecond + 500000000⟩]

theorem forall_doubleCall {P : Submission → Prop}
    (h : ∀ t i, t / 1000 = 1800000000 → P ⟨.getMe, t, sampleReceived, i⟩) :
    ∀ d ∈ doubleCall, P d := by
  intro d hd
  rcases List.mem_cons.mp hd with rfl | hd
  · exact h _ _ (by decide)
  · rw [List.mem_singleton.mp hd]
    exact h _ _ (by decide)

theorem plain_getMe : DashboardCall.getMe.Plain := by decide

theorem doubleCall_conversation : Conversation sampleDashboard doubleCall where
  base := rfl
  sent := forall_doubleCall fun t i ht => ⟨sampleFetch, fetch_getMe ht, received_getMe⟩
  target := forall_doubleCall fun t i _ => rfl
  plain := forall_doubleCall fun t i _ => plain_getMe
  size := by decide +kernel
  timely := by decide +kernel
  together := by decide +kernel
  sorted := by decide +kernel
  distinct := forall_doubleCall fun t i ht => forall_doubleCall fun t' i' ht' _ => by
    rw [Dashboard.signed, Dashboard.signed, ht, ht']

def freshStart : AuthState where
  clock := 0
  keys := [SignatureSingleUse.sampleRow]
  pin := none
  guard := Guard.new 300 0

def sampleSurroundings : NetworkView := ⟨[], fun _ => []⟩

/-- The second of the two is taken for a replay of the first. -/
theorem dashboard_session_doubleCall :
    let answers :=
      serve sampleSurroundings AdmittedRequests.sampleReaders hmacConfig freshStart doubleCall
    answers[0]? = some (.ok (.request ⟨SignatureSingleUse.sampleRow, .v4 0⟩ .getMe)) ∧
      answers[1]? = some (.error (.abort alreadyUsed)) := by
  intro answers
  have haccount : Account sampleDashboard SignatureSingleUse.sampleRow freshStart :=
    ⟨by decide, by decide, rfl⟩
  have hanswers : ∀ before d after, doubleCall = before ++ d :: after → answers[before.length]? =
      some (verdict sampleSurroundings AdmittedRequests.sampleReaders
        SignatureSingleUse.sampleRow []
        before d) :=
    (dashboard_session doubleCall_conversation (by decide) rfl haccount rfl).2.2
  refine ⟨hanswers [] _ _ rfl, ?_⟩
  have hsecond := hanswers [_] _ [] rfl
  rw [verdict, if_pos (by decide +kernel)] at hsecond
  exact hsecond

/-- What the service checks the signature of. -/
def checked (req : Request) (now : ℕ) : List UInt8 :=
  canonicalV1Payload req.method req.target (toString (now / 1000)) req.body

/-- A call of a session that puts something in front of its paths, as it arrives. On the way
the target may have become anything, but not one whose text has the signature of the text
that was signed without being it. -/
structure Based {config : Config} (b : Dashboard config) (now : ℕ) (call : DashboardCall)
    (req : Request) : Prop where
  base : ∃ base, b.session.apiBaseOverride.toList = '/' :: base ∧ '?' ∉ base
  plain : call.Plain
  sent : ∃ f, b.fetch now call = some f ∧ Received f req
  size : (b.signed now call).length < 2 ^ 50
  distinct : SecureHash.hmacSha256 (utf8 b.session.signingSecret) (checked req now) =
    SecureHash.hmacSha256 (utf8 b.session.signingSecret) (b.signed now call) →
      checked req now = b.signed now call

section Based
variable {config : Config} {b : Dashboard config} {now : ℕ} {call : DashboardCall} {req : Request}
  {x : Readers}

/-- What is taken for signed with the secret of the session has the target that was signed. -/
theorem Based.target_eq (h : Based b now call req) {key : ApiKey}
    (hsecret : key.signingSecret.bind config.crates.openSecret = some b.session.signingSecret)
    (hsigned : Signed config.crates req key) :
    req.target = b.session.apiBaseOverride ++ call.path := by
  obtain ⟨f, hfetch, hreceived⟩ := h.sent
  obtain ⟨header, hheader, hmethod, hbody, -, htime, hsignature⟩ :=
    read_of_received hfetch hreceived h.size
  obtain ⟨text, provided, stored, secret, digest, htext, hprovided, hstored, hopen, hverify⟩ :=
    hsigned
  rw [htime, Option.some.injEq] at htext
  rw [hsignature, Option.some.injEq] at hprovided
  rw [hstored, Option.bind_some, hopen, Option.some.injEq] at hsecret
  subst htext hprovided hsecret
  -- Both the text that was signed and the one that is checked have the digest in the header.
  obtain ⟨header', hheader', hown⟩ := verifySignature_computeSignature b.hmac (b.signed now call)
  rw [hheader, Option.some.injEq] at hheader'
  subst hheader'
  have hdigest := decoded_of_verifySignature hown
  rw [decoded_of_verifySignature hverify, Option.some.injEq] at hdigest
  have hmac := verifySignature_eq_ok hverify
  rw [b.hmac, Option.map_some, Option.some.injEq] at hmac
  have hsame := h.distinct (hmac.trans hdigest)
  rw [checked, Dashboard.signed, hmethod, hbody] at hsame
  have htargets := List.cons_injective (List.append_cancel_left hsame)
  exact utf8_inj (List.append_cancel_right htargets)

/-- With that target it is not for the API. -/
theorem Based.not_signed (h : Based b now call req) {key : ApiKey} {r : ApiRequest}
    (hsecret : key.signingSecret.bind config.crates.openSecret = some b.session.signingSecret)
    (hroute : route x req = .api r) : ¬ Signed config.crates req key := by
  intro hsigned
  obtain ⟨base, hbase, hquery⟩ := h.base
  have htarget : req.target.toList = '/' :: base ++ call.path.toList := by
    rw [h.target_eq hsecret hsigned, String.toList_append, hbase]
  have hfront : '?' ∉ '/' :: base := by
    rw [List.mem_cons, not_or]
    exact ⟨by decide, hquery⟩
  rw [route_based h.plain hfront htarget] at hroute
  cases hroute

variable {I : Type} [DecidableEq I] {app : AppState} {works : I → Work} {s₀ : Service}
  {events : List (Event I ServiceChoice ServiceChange)} {q : ServicePool I} {i : I}

/-- With something in front of its paths a session gets nowhere, whatever the proxies on the
way make of it. In every run of the service no handler takes a step for such a call, and
none answers it, as long as the key has the secret of the session. -/
theorem based_calls_refused (h : Based b now call req) (hwork : works i = .http req)
    (hsecret : ∀ row, Once (serviceSystem app.crates) (service x config app works s₀)
      (fun _ p => row ∈ p.state.world.db.apiKeys.rows) events →
      row.keyHash = config.crates.hashKey b.session.apiKey →
      row.signingSecret.bind config.crates.openSecret = some b.session.signingSecret)
    (hrun : Interleaving.run (serviceSystem app.crates) (service x config app works s₀) events =
      some q) :
    (∀ outcome, q.outcome i ≠ some (.ok outcome)) ∧
    ∃ tasks events' p,
      Interleaving.run (Services.system app.crates) (process app tasks s₀.world) events' = some p ∧
      p.state = q.state.world ∧ ∀ e, .act i e ∉ events' := by
  obtain ⟨split⟩ := exists_split (serviceParts app.crates) Task.cleanup hrun
  have hnever : split.frontPool.outcome i ≠ some (.ok (split.granted i)) := by
    intro hpassed
    have hauthorised := authorised_of_outcome split hpassed
    rw [hwork] at hauthorised
    obtain ⟨r, key, ip, hroute, -, hadmitted⟩ := hauthorised
    obtain ⟨presented, hpresented, past, rest, p, heq, hp, row, hrow, hhash, hkey, -⟩ :=
      hadmitted.looked
    obtain ⟨f, hfetch, hreceived⟩ := h.sent
    obtain ⟨_, -, -, -, hown, -⟩ := read_of_received hfetch hreceived h.size
    rw [hpresented, Option.some.injEq] at hown
    rw [hown] at hhash
    have hopens : key.signingSecret.bind config.crates.openSecret =
        some b.session.signingSecret := by
      rw [hkey]
      exact hsecret row ⟨past, rest, p, heq, hp, hrow⟩ hhash
    exact h.not_signed hopens hroute hadmitted.signed
  refine ⟨?_, split.granted, split.backEvents, split.backPool, split.back_run, split.back_state, ?_⟩
  · intro outcome hend
    exact hnever (split.outcome hend).1
  · intro e hact
    exact hnever (split.passed hact)

end Based
/-- The dashboard of a service behind a proxy that serves it under a path of its own. -/
def mountedDashboard : Dashboard hmacConfig :=
  { sampleDashboard with
    session := ⟨"key", "secret", "/ip_exporter"⟩
    hmac := hmacConfig_hmac "secret"
    secret := sampleSecret_ne_nil
    short := length_sampleSecret_lt }

def mountedSignature : String :=
  "sha256=bdcbc54728d1c0b78b5dfa152f626a40d38e2fa545482b9949165295eb8ed16e"

theorem mountedSignature_eq :
    PureCrypto.hmacSign mountedDashboard.rounding mountedDashboard.subtle "secret" "GET"
      "/ip_exporter/api/auth/me" "1800000000" "" = some mountedSignature := by
  decide +kernel

def mountedFetch : Fetch where
  url := "/api/auth/me"
  method := "GET"
  headers := [("X-API-Key", "key"), ("X-Timestamp", "1800000000"),
    ("X-Signature-256", mountedSignature), ("Content-Type", "application/json")]
  body := none

theorem fetch_mounted : mountedDashboard.fetch 1800000000000 .getMe = some mountedFetch := by
  have htext : toString (1800000000000 / 1000) = "1800000000" := by decide +kernel
  have htarget : mountedDashboard.session.apiBaseOverride ++ DashboardCall.getMe.path =
      "/ip_exporter/api/auth/me" := by
    decide +kernel
  have hurl : String.ofList (collapseSlashes
      (mountedDashboard.requestBase ++ DashboardCall.getMe.path).toList) = "/api/auth/me" := by
    decide +kernel
  have hsignature := mountedSignature_eq
  rw [Dashboard.fetch, apiCall, htext, htarget]
  refine Option.bind_eq_some_iff.mpr ⟨mountedSignature, hsignature, ?_⟩
  rw [hurl]
  rfl

theorem legal_mountedSignature : (utf8 mountedSignature).all legalByte = true := by decide

/-- The proxy has left its part in front. -/
def mountedReceived : Request :=
  { sampleReceived with
    target := "/ip_exporter/api/auth/me"
    headers := [("x-api-key", ⟨utf8 "key", legal_apiKey⟩),
      ("x-timestamp", ⟨utf8 "1800000000", legal_timestamp⟩),
      ("x-signature-256", ⟨utf8 mountedSignature, legal_mountedSignature⟩),
      ("content-type", ⟨utf8 "application/json", legal_contentType⟩)] }

theorem received_mounted : Received mountedFetch mountedReceived where
  method := rfl
  headers := by
    have hall : ∀ h ∈ mountedFetch.headers, mountedReceived.header (lowerCase h.1) = some h.2 := by
      decide +kernel
    exact fun name value hmem => hall (name, value) hmem
  body := rfl
  length := by
    intro n h
    cases h
  line := by decide

theorem based_mounted : Based mountedDashboard 1800000000000 .getMe mountedReceived where
  base := ⟨"ip_exporter".toList, by decide, by decide⟩
  plain := plain_getMe
  sent := ⟨mountedFetch, fetch_mounted, received_mounted⟩
  size := by decide +kernel
  distinct := fun _ => by decide +kernel

def mountedService : Service where
  world :=
    { DaughterConfinement.sampleWorld with
      db := { DaughterConfinement.sampleWorld.db with
        apiKeys := ⟨[SignatureSingleUse.sampleRow], by decide⟩ } }
  pin := none
  guard := Guard.new 300 0
  clock := 1800000000 * nanosPerSecond

def mountedWork (_ : Unit) : Work := .http mountedReceived

/-- Signed as it arrives, and still not for the API. -/
theorem based_calls_refused_mounted :
    ∃ q, Interleaving.run (serviceSystem sampleApp.crates)
        (service sampleReaders hmacConfig sampleApp mountedWork mountedService) [] = some q ∧
      q.outcome () = some (.error .elsewhere) ∧ ∀ outcome, q.outcome () ≠ some (.ok outcome) := by
  have hwork : mountedWork () = .http mountedReceived := rfl
  have hrun : Interleaving.run (serviceSystem sampleApp.crates)
      (service sampleReaders hmacConfig sampleApp mountedWork mountedService) [] = some _ := rfl
  refine ⟨_, hrun, by rfl, (based_calls_refused based_mounted hwork ?_ hrun).1⟩
  rintro row ⟨past, rest, p, heq, hp, hrow⟩ -
  obtain ⟨rfl, -⟩ := List.append_eq_nil_iff.mp heq.symm
  cases hp
  rw [List.mem_singleton.mp hrow]
  rfl

end SimplyIpExporter.DashboardSessions
