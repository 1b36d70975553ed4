import SimplyIpExporter.Entities

/-!
# Signed payloads

The byte string a request is signed over, the header value a signer sends, and
the check a server makes. A verified header yields the decoded digest bytes, so
two spellings of one signature yield the same bytes.
-/
namespace SimplyIpExporter.CanonicalSigning
open RustText Entities

def newline : UInt8 := 10

/-- `METHOD\nTARGET\nTIMESTAMP\nRAW_BODY`. -/
def canonicalV1Payload (method target timestamp : String) (body : List UInt8) : List UInt8 :=
  utf8 method ++ newline :: (utf8 target ++ newline :: (utf8 timestamp ++ newline :: body))

def signaturePrefix : String := "sha256="

def computeSignature (crates : Crates) (secret : String) (payload : List UInt8) : Option String :=
  (crates.hmacSha256 secret).map fun mac => signaturePrefix ++ hexText (mac payload)

/-- `hex::decode`: pairs of digits of either case. -/
def hexDecode : List Char → Option (List UInt8)
  | [] => some []
  | [_] => none
  | c :: d :: rest => do
      let high ← toDigit 16 c
      let low ← toDigit 16 d
      let bytes ← hexDecode rest
      return UInt8.ofNat (16 * high + low) :: bytes

inductive SignatureRejection where
  | missingPrefix
  | malformedHex
  | mismatch
  | keyUnusable
  deriving DecidableEq, Repr

def verifySignature (crates : Crates) (secret : String) (payload : List UInt8)
    (provided : String) : Except SignatureRejection (List UInt8) :=
  match stripPrefix signaturePrefix (trimChars provided.toList) with
  | none => .error .missingPrefix
  | some hexDigest =>
    match hexDecode (trimChars hexDigest) with
    | none => .error .malformedHex
    | some providedBytes =>
      match crates.hmacSha256 secret with
      | none => .error .keyUnusable
      | some mac => if mac payload = providedBytes then .ok providedBytes else .error .mismatch

/-- Whatever the spelling, a verified header yields the digest itself. -/
theorem verifySignature_eq_ok {crates : Crates} {secret : String} {payload digest : List UInt8}
    {provided : String} (h : verifySignature crates secret payload provided = .ok digest) :
    (crates.hmacSha256 secret).map (fun mac => mac payload) = some digest := by
  unfold verifySignature at h
  split at h
  · cases h
  · split at h
    · cases h
    · split at h
      · cases h
      · rename_i mac hmac
        split_ifs at h with heq
        cases h
        rw [hmac, Option.map_some, heq]

theorem toDigit_hexDigitChar {n : ℕ} (h : n < 16) : toDigit 16 (hexDigitChar n) = some n := by
  revert n
  decide

theorem hexDigitChar_not_whitespace {n : ℕ} (h : n < 16) :
    isWhitespace (hexDigitChar n) = false := by
  revert n
  decide

def hexChars (bytes : List UInt8) : List Char :=
  bytes.flatMap fun b => [hexDigitChar (b.toNat / 16), hexDigitChar (b.toNat % 16)]

theorem toList_hexText (bytes : List UInt8) : (hexText bytes).toList = hexChars bytes := by
  simp [hexText, hexChars]

theorem halves_lt (b : UInt8) : b.toNat / 16 < 16 ∧ b.toNat % 16 < 16 := by
  have hb := b.toNat_lt
  omega

theorem hexDecode_hexChars (bytes : List UInt8) : hexDecode (hexChars bytes) = some bytes := by
  induction bytes with
  | nil => rfl
  | cons b bytes ih =>
      obtain ⟨hhigh, hlow⟩ := halves_lt b
      have hcons : hexChars (b :: bytes) =
          hexDigitChar (b.toNat / 16) :: hexDigitChar (b.toNat % 16) :: hexChars bytes := rfl
      have hbyte : 16 * (b.toNat / 16) + b.toNat % 16 = b.toNat := by omega
      rw [hcons, hexDecode, toDigit_hexDigitChar hhigh, toDigit_hexDigitChar hlow, ih]
      simp only [Option.bind_eq_bind, Option.bind_some, hbyte]
      simp

theorem hexChars_not_whitespace {bytes : List UInt8} {c : Char} (h : c ∈ hexChars bytes) :
    isWhitespace c = false := by
  obtain ⟨b, -, hc⟩ := List.mem_flatMap.mp h
  obtain ⟨hhigh, hlow⟩ := halves_lt b
  rcases List.mem_pair.mp hc with rfl | rfl
  · exact hexDigitChar_not_whitespace hhigh
  · exact hexDigitChar_not_whitespace hlow

/-- The header a signer computes verifies, and yields the digest. -/
theorem verifySignature_computeSignature {crates : Crates} {secret : String}
    {mac : List UInt8 → List UInt8} (hmac : crates.hmacSha256 secret = some mac)
    (payload : List UInt8) :
    ∃ header, computeSignature crates secret payload = some header ∧
      verifySignature crates secret payload header = .ok (mac payload) := by
  refine ⟨signaturePrefix ++ hexText (mac payload), by simp [computeSignature, hmac], ?_⟩
  have hlist : (signaturePrefix ++ hexText (mac payload)).toList =
      signaturePrefix.toList ++ hexChars (mac payload) := by
    rw [String.toList_append, toList_hexText]
  have hnone : ∀ c ∈ signaturePrefix.toList ++ hexChars (mac payload), isWhitespace c = false := by
    intro c hc
    have hpre : signaturePrefix.toList.any isWhitespace = false := by decide
    rcases List.mem_append.mp hc with hc | hc
    · simpa using List.any_eq_false.mp hpre c hc
    · exact hexChars_not_whitespace hc
  unfold verifySignature
  rw [hlist, trimChars_of_none hnone, stripPrefix_append]
  simp only [trimChars_of_none fun c hc => hexChars_not_whitespace hc, hexDecode_hexChars, hmac,
    if_true]

end SimplyIpExporter.CanonicalSigning
