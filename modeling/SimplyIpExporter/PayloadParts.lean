import SimplyIpExporter.AdmittedRequests
import SimplyIpExporter.OutboundStamps

/-!
# The parts of a signed payload

Method, target and timestamp are joined by newlines in front of the body. None of the
three can contain a newline, so cutting the payload at its first three newlines gives
the parts back, however many newlines the body has. Content cannot be moved from one
part into another under the same payload.

With a digest that has no collisions, a header made for one request is therefore
accepted for no other: neither by the middleware, nor for what `signed_get` has sent.
-/
namespace SimplyIpExporter.PayloadParts
open RustText Entities CanonicalSigning ClientAddress RequestAuthentication OutboundStamps Programs
open AdmittedRequests (Told Signed listening exists_moves verifyRequest_follows)

/-- No byte of a character but the newline itself is a newline. -/
theorem eq_of_mem_utf8EncodeChar {c : Char} (h : newline ∈ String.utf8EncodeChar c) : c = '\n' := by
  have hbyte : ∀ n : ℕ, newline = UInt8.ofNat n → n % 256 = 10 := by
    intro n hn
    have hnat := congrArg UInt8.toNat hn
    simpa [newline] using hnat.symm
  unfold String.utf8EncodeChar at h
  dsimp only at h
  split_ifs at h with h₁ h₂ h₃
  · have hn := hbyte _ (List.mem_singleton.mp h)
    apply Char.toNat_inj.mp
    change c.val.toNat = 10
    omega
  -- the bytes of a longer character are all above 127
  all_goals simp only [List.mem_cons, List.not_mem_nil, or_false] at h
  · rcases h with h | h
    all_goals have hn := hbyte _ h
    all_goals omega
  · rcases h with h | h | h
    all_goals have hn := hbyte _ h
    all_goals omega
  · rcases h with h | h | h | h
    all_goals have hn := hbyte _ h
    all_goals omega

theorem newline_notMem_utf8 {s : String} (h : '\n' ∉ s.toList) : newline ∉ utf8 s := by
  intro hmem
  rw [← String.ofList_toList (s := s), utf8_ofList] at hmem
  obtain ⟨c, hc, hbyte⟩ := List.mem_flatMap.mp hmem
  rw [eq_of_mem_utf8EncodeChar hbyte] at hc
  exact h hc

/-- The payload cut at its first three newlines. -/
def parts (payload : List UInt8) :
    Option (List UInt8 × List UInt8 × List UInt8 × List UInt8) := do
  let (method, rest) ← splitOnce newline payload
  let (target, rest) ← splitOnce newline rest
  let (timestamp, body) ← splitOnce newline rest
  return (method, target, timestamp, body)

/-- What is signed of a request; HTTP keeps newlines out of the first three. -/
@[ext] structure Signable where
  method : String
  target : String
  timestamp : String
  body : List UInt8
  method_line : '\n' ∉ method.toList
  target_line : '\n' ∉ target.toList
  timestamp_line : '\n' ∉ timestamp.toList

def Signable.payload (r : Signable) : List UInt8 :=
  canonicalV1Payload r.method r.target r.timestamp r.body

theorem parts_payload (r : Signable) :
    parts r.payload = some (utf8 r.method, utf8 r.target, utf8 r.timestamp, r.body) := by
  unfold parts Signable.payload canonicalV1Payload
  rw [splitOnce_append (newline_notMem_utf8 r.method_line)]
  simp only [Option.bind_eq_bind, Option.bind_some]
  rw [splitOnce_append (newline_notMem_utf8 r.target_line)]
  simp only [Option.bind_some]
  rw [splitOnce_append (newline_notMem_utf8 r.timestamp_line)]
  rfl

theorem payload_injective {r r' : Signable} (h : r.payload = r'.payload) : r = r' := by
  have hparts := parts_payload r
  rw [h, parts_payload r'] at hparts
  simp only [Option.some.injEq, Prod.mk.injEq] at hparts
  obtain ⟨hmethod, htarget, htimestamp, hbody⟩ := hparts
  exact (Signable.ext (utf8_inj hmethod) (utf8_inj htarget) (utf8_inj htimestamp) hbody).symm

/-- A header value that is available as text has no newline. -/
theorem toStr_line {v : HeaderValue} {s : String} (h : v.toStr = some s) : '\n' ∉ s.toList := by
  unfold HeaderValue.toStr at h
  split_ifs at h with hvisible
  cases h
  intro hmem
  rw [String.toList_ofList] at hmem
  obtain ⟨b, hb, hc⟩ := List.mem_map.mp hmem
  have hbytes : ∀ n < 256, Char.ofNat n = '\n' → n = 10 := by decide +kernel
  have hb' : b = 10 := UInt8.toNat_inj.mp (hbytes _ b.toNat_lt hc)
  have hnot := List.all_eq_true.mp hvisible b hb
  rw [hb'] at hnot
  cases hnot

theorem repr_line (n : ℕ) : '\n' ∉ (Nat.repr n).toList := by
  intro hmem
  exact absurd (digit_of_mem_repr hmem).1 (by decide)

theorem toString_line (n : ℤ) : '\n' ∉ (toString n).toList := by
  cases n with
  | ofNat n => exact repr_line n
  | negSucc n =>
      change '\n' ∉ ("-" ++ Nat.repr (n + 1)).toList
      rw [String.toList_append, List.mem_append]
      rintro (h | h)
      · revert h
        decide
      · exact repr_line _ h

/-- The signed parts of a request the middleware gets. -/
def Signable.inbound (req : Request) (hmethod : '\n' ∉ req.method.toList)
    (htarget : '\n' ∉ req.target.toList) {timestamp : String}
    (htimestamp : req.timestampText = some timestamp) : Signable where
  method := req.method
  target := req.target
  timestamp := timestamp
  body := req.body
  method_line := hmethod
  target_line := htarget
  timestamp_line := by
    obtain ⟨v, -, hv⟩ := Option.bind_eq_some_iff.mp htimestamp
    exact toStr_line hv

/-- The signed parts of a request `signed_get` sends. -/
def Signable.outbound (pathAndQuery : String) (hpath : '\n' ∉ pathAndQuery.toList) (ts : ℤ) :
    Signable where
  method := "GET"
  target := pathAndQuery
  timestamp := toString ts
  body := []
  method_line := by decide
  target_line := hpath
  timestamp_line := toString_line ts

/-- Under any secrets, equal digests are of equal payloads. -/
def CollisionFree (crates : Crates) : Prop :=
  ∀ secret secret' mac mac' payload payload', crates.hmacSha256 secret = some mac →
    crates.hmacSha256 secret' = some mac' → mac payload = mac' payload' → payload = payload'

/-- The bytes a header holds, whoever checks it. -/
def decoded (header : String) : Option (List UInt8) :=
  (stripPrefix signaturePrefix (trimChars header.toList)).bind fun digits =>
    hexDecode (trimChars digits)

theorem decoded_of_verifySignature {crates : Crates} {secret : String} {payload digest : List UInt8}
    {header : String} (h : verifySignature crates secret payload header = .ok digest) :
    decoded header = some digest := by
  unfold verifySignature at h
  unfold decoded
  split at h
  · cases h
  · rename_i digits hstrip
    rw [hstrip, Option.bind_some]
    split at h
    · cases h
    · rename_i bytes hdecode
      split at h
      · cases h
      · split_ifs at h
        cases h
        exact hdecode

theorem made_for_accepted {crates : Crates} (hfree : CollisionFree crates) {secret secret' : String}
    {payload payload' digest : List UInt8} {header : String}
    (hmade : computeSignature crates secret payload = some header)
    (haccepted : verifySignature crates secret' payload' header = .ok digest) :
    payload' = payload := by
  obtain ⟨mac, hmac, -⟩ := Option.map_eq_some_iff.mp hmade
  obtain ⟨mac', hmac', hdigest'⟩ := Option.map_eq_some_iff.mp (verifySignature_eq_ok haccepted)
  obtain ⟨header', hheader, hown⟩ := verifySignature_computeSignature hmac payload
  rw [hmade, Option.some.injEq] at hheader
  rw [← hheader] at hown
  have hdigest : mac payload = digest := by
    have hsame := decoded_of_verifySignature hown
    rw [decoded_of_verifySignature haccepted, Option.some.injEq] at hsame
    exact hsame.symm
  exact hfree secret' secret mac' mac payload' payload hmac' hmac (hdigest'.trans hdigest.symm)

theorem signed_of_run {config : Config} {req : Request} {es : List Choice} {s s' : AuthState}
    {row : ApiKey}
    (hrun : Programs.run RequestAuthentication.exec (verifyRequest config req) es s =
      some (.ok row, s')) : Signed config.crates req row := by
  have hstep : ∀ (m : Told) (c : AuthCall) (e : Choice) (s : AuthState) (r : AuthAnswer c)
      (s' : AuthState),
      True → listening.permits m c → RequestAuthentication.exec c e s = some (r, s') →
      ∃ m', listening.moves m c r m' ∧ True := by
    intro m c e s r s' _ _ hexec
    obtain ⟨m', hmoves⟩ := exists_moves m hexec
    exact ⟨m', hmoves, trivial⟩
  obtain ⟨_, hpost, -⟩ := Follows.run hstep (verifyRequest_follows .nothing) trivial hrun
  exact (hpost row rfl).1.signed

theorem sends_of_run {crates : Crates} {secret pathAndQuery : String} {es : List Unit}
    {s s' : Clocks} {sent : SignedRequest}
    (hrun : Programs.run OutboundStamps.exec (signedGet crates secret pathAndQuery) es s =
      some (.ok sent, s')) : ∃ m, Sends crates secret pathAndQuery m (.ok sent) := by
  have hstep : ∀ (m : Option ℤ) (c : StampCall) (e : Unit) (s : Clocks) (r : StampAnswer c)
      (s' : Clocks), True → taking.permits m c → OutboundStamps.exec c e s = some (r, s') →
      ∃ m', taking.moves m c r m' ∧ True := by
    intro m c e s r s' _ _ _
    cases c with
    | utcNow => exact ⟨m, rfl, trivial⟩
    | fetchUpdate now => exact ⟨some r, rfl, trivial⟩
  obtain ⟨m, hpost, -⟩ :=
    Follows.run hstep (signedGet_follows crates secret pathAndQuery) trivial hrun
  exact ⟨m, hpost⟩

/-- * Cutting a payload at its first three newlines recovers its parts.
* Equal payloads are of equal requests.
* Without collisions, a header made for one request is accepted for that request only: by
  `verify_signature`, by the middleware, and where `signed_get` has made it. -/
theorem canonicalV1_unambiguous :
    (∀ r : Signable, parts r.payload =
      some (utf8 r.method, utf8 r.target, utf8 r.timestamp, r.body)) ∧
    (∀ r r' : Signable, r.payload = r'.payload → r = r') ∧
    ∀ crates, CollisionFree crates →
      (∀ (made other : Signable) secret secret' header digest,
        computeSignature crates secret made.payload = some header →
        verifySignature crates secret' other.payload header = .ok digest → other = made) ∧
      (∀ (made : Signable) secret header build maxAge req es s row s',
        (hmethod : '\n' ∉ req.method.toList) → (htarget : '\n' ∉ req.target.toList) →
        computeSignature crates secret made.payload = some header → req.signature = some header →
        Programs.run RequestAuthentication.exec (verifyRequest ⟨crates, build, maxAge⟩ req) es s =
          some (.ok row, s') →
        ∃ timestamp, ∃ htimestamp : req.timestampText = some timestamp,
          Signable.inbound req hmethod htarget htimestamp = made) ∧
      ∀ pathAndQuery secret secret' es s sent s' (other : Signable) digest,
        (hpath : '\n' ∉ pathAndQuery.toList) →
        Programs.run OutboundStamps.exec (signedGet crates secret pathAndQuery) es s =
          some (.ok sent, s') →
        verifySignature crates secret' other.payload sent.signature = .ok digest →
        ∃ ts, sent.timestamp = toString ts ∧ other = .outbound pathAndQuery hpath ts := by
  refine ⟨parts_payload, fun r r' => payload_injective, ?_⟩
  intro crates hfree
  refine ⟨?_, ?_, ?_⟩
  · intro made other secret secret' header digest hmade haccepted
    exact payload_injective (made_for_accepted hfree hmade haccepted)
  · intro made secret header build maxAge req es s row s' hmethod htarget hmade hheader hrun
    obtain ⟨timestamp, header', _, secret', digest, htimestamp, hheader', -, -, haccepted⟩ :=
      signed_of_run hrun
    rw [hheader, Option.some.injEq] at hheader'
    rw [← hheader'] at haccepted
    exact ⟨timestamp, htimestamp, payload_injective (made_for_accepted hfree hmade haccepted)⟩
  · intro pathAndQuery secret secret' es s sent s' other digest hpath hrun haccepted
    obtain ⟨m, hsends⟩ := sends_of_run hrun
    obtain ⟨hsame, ⟨ts, -, htimestamp⟩, hmade⟩ := hsends sent rfl
    have hpayload : sent.payload = (Signable.outbound pathAndQuery hpath ts).payload := by
      unfold SignedRequest.payload
      rw [hsame, htimestamp]
      rfl
    rw [hpayload] at hmade
    exact ⟨ts, htimestamp, payload_injective (made_for_accepted hfree hmade haccepted)⟩

/-- A digest that is the payload itself has no collisions. -/
def plainCrates : Crates := { sampleCrates with hmacSha256 := fun _ => some id }

/-- Moved across the newline, the same bytes are refused. -/
theorem canonicalV1_unambiguous_moved :
    CollisionFree plainCrates ∧
    ∀ secret header digest,
      computeSignature plainCrates secret (canonicalV1Payload "GET" "/a" "1" []) = some header →
      verifySignature plainCrates secret (canonicalV1Payload "GET" "/" "a1" []) header ≠
        .ok digest := by
  have hfree : CollisionFree plainCrates := by
    intro secret secret' mac mac' payload payload' hmac hmac' hdigest
    cases hmac
    cases hmac'
    exact hdigest
  refine ⟨hfree, ?_⟩
  intro secret header digest hmade haccepted
  have hsame := (canonicalV1_unambiguous.2.2 plainCrates hfree).1
    ⟨"GET", "/a", "1", [], by decide, by decide, by decide⟩
    ⟨"GET", "/", "a1", [], by decide, by decide, by decide⟩ secret secret header digest hmade
      haccepted
  exact absurd (congrArg Signable.target hsame) (by decide)

end SimplyIpExporter.PayloadParts
