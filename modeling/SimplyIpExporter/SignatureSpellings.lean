import SimplyIpExporter.CanonicalSigning

/-!
# The texts a signature is accepted under

Which header texts `verify_signature` accepts: around the prefix and around the digits
white space does not matter, and neither does the case of a digit. Everything accepted
for one payload decodes to the same bytes, which is what the replay guard goes by.
-/
namespace SimplyIpExporter.SignatureSpellings
open RustText Entities CanonicalSigning

theorem toNat_toLower (c : Char) :
    c.toLower.toNat = if 65 ≤ c.toNat ∧ c.toNat ≤ 90 then c.toNat + 32 else c.toNat := by
  have hA : 'A'.val ≤ c.val ↔ 65 ≤ c.toNat := UInt32.le_iff_toNat_le
  have hZ : c.val ≤ 'Z'.val ↔ c.toNat ≤ 90 := UInt32.le_iff_toNat_le
  unfold Char.toLower
  split
  · rename_i h
    rw [ge_iff_le, hA, hZ] at h
    have hle : c.val.toNat ≤ 90 := h.2
    rw [if_pos h]
    change (c.val + 32).toNat = c.val.toNat + 32
    rw [UInt32.toNat_add]
    exact Nat.mod_eq_of_lt (by simp; omega)
  · rename_i h
    rw [ge_iff_le, hA, hZ] at h
    rw [if_neg h]

theorem toNat_hexDigitChar {d : ℕ} (h : d < 16) :
    (hexDigitChar d).toNat = if d < 10 then 48 + d else 87 + d := by
  revert d
  decide

/-- A character counts as a digit when its lower-case form is that digit. -/
theorem toDigit_eq_some_iff {c : Char} {d : ℕ} :
    toDigit 16 c = some d ↔ d < 16 ∧ c.toLower = hexDigitChar d := by
  have hlower := toNat_toLower c
  constructor
  · intro h
    simp only [toDigit] at h
    have hd : d < 16 := by
      split_ifs at h <;> cases h <;> omega
    refine ⟨hd, ?_⟩
    rw [← Char.toNat_inj, hlower, toNat_hexDigitChar hd]
    split_ifs at h <;> cases h <;> split_ifs <;> omega
  · rintro ⟨hd, hc⟩
    have hhex := toNat_hexDigitChar hd
    rw [← hc, hlower] at hhex
    have hvalue : (if 48 ≤ c.toNat ∧ c.toNat ≤ 57 then c.toNat - 48
        else if 97 ≤ c.toNat ∧ c.toNat ≤ 102 then c.toNat - 87
        else if 65 ≤ c.toNat ∧ c.toNat ≤ 70 then c.toNat - 55 else 16) = d := by
      split_ifs at hhex ⊢ <;> omega
    simp only [toDigit, hvalue, if_pos hd]

/-- A digit of either case is not white space. -/
theorem isWhitespace_of_toDigit {c : Char} {d : ℕ} (h : toDigit 16 c = some d) :
    isWhitespace c = false := by
  have hrange : 48 ≤ c.toNat ∧ c.toNat ≤ 102 := by
    simp only [toDigit] at h
    split_ifs at h <;> omega
  simp only [isWhitespace, Bool.or_eq_false_iff, Bool.and_eq_false_iff, beq_eq_false_iff_ne,
    decide_eq_false_iff_not]
  omega

theorem hexChars_cons (b : UInt8) (bytes : List UInt8) : hexChars (b :: bytes) =
    hexDigitChar (b.toNat / 16) :: hexDigitChar (b.toNat % 16) :: hexChars bytes := rfl

theorem hexDecode_cons_cons {c d : Char} {rest : List Char} {bytes : List UInt8} :
    hexDecode (c :: d :: rest) = some bytes ↔ ∃ high low tail, toDigit 16 c = some high ∧
      toDigit 16 d = some low ∧ hexDecode rest = some tail ∧
        UInt8.ofNat (16 * high + low) :: tail = bytes := by
  simp [hexDecode, Option.bind_eq_some_iff]

/-- The decoder reads exactly the spellings of the bytes, in either case. -/
theorem hexDecode_eq_some_iff {cs : List Char} {bytes : List UInt8} :
    hexDecode cs = some bytes ↔ cs.map Char.toLower = hexChars bytes := by
  induction cs using hexDecode.induct generalizing bytes with
  | case1 =>
      cases bytes with
      | nil => simp [hexDecode, hexChars]
      | cons b bytes => simp [hexDecode, hexChars_cons]
  | case2 c =>
      cases bytes with
      | nil => simp [hexDecode, hexChars]
      | cons b bytes => simp [hexDecode, hexChars_cons]
  | case3 c d rest ih =>
      rw [hexDecode_cons_cons]
      constructor
      · rintro ⟨high, low, tail, hhigh, hlow, htail, rfl⟩
        obtain ⟨hhighLt, hc⟩ := toDigit_eq_some_iff.mp hhigh
        obtain ⟨hlowLt, hd⟩ := toDigit_eq_some_iff.mp hlow
        have hbyte : (UInt8.ofNat (16 * high + low)).toNat = 16 * high + low :=
          Nat.mod_eq_of_lt (by omega)
        have hdiv : (16 * high + low) / 16 = high := by omega
        have hmod : (16 * high + low) % 16 = low := by omega
        rw [hexChars_cons, hbyte, hdiv, hmod, List.map_cons, List.map_cons, hc, hd, ih.mp htail]
      · intro h
        cases bytes with
        | nil => cases h
        | cons b bytes =>
            rw [hexChars_cons, List.map_cons, List.map_cons, List.cons.injEq, List.cons.injEq] at h
            obtain ⟨hc, hd, hrest⟩ := h
            obtain ⟨hhigh, hlow⟩ := halves_lt b
            have hbyte : 16 * (b.toNat / 16) + b.toNat % 16 = b.toNat := by omega
            refine ⟨b.toNat / 16, b.toNat % 16, bytes, toDigit_eq_some_iff.mpr ⟨hhigh, hc⟩,
              toDigit_eq_some_iff.mpr ⟨hlow, hd⟩, ih.mpr hrest, ?_⟩
            rw [hbyte, UInt8.ofNat_toNat]

theorem isWhitespace_of_spelling {digits : List Char} {bytes : List UInt8}
    (h : digits.map Char.toLower = hexChars bytes) : ∀ c ∈ digits, isWhitespace c = false := by
  intro c hc
  have hmem : c.toLower ∈ hexChars bytes := by
    rw [← h]
    exact List.mem_map_of_mem hc
  obtain ⟨b, -, hb⟩ := List.mem_flatMap.mp hmem
  obtain ⟨hhigh, hlow⟩ := halves_lt b
  rcases List.mem_pair.mp hb with heq | heq
  · exact isWhitespace_of_toDigit (toDigit_eq_some_iff.mpr ⟨hhigh, heq⟩)
  · exact isWhitespace_of_toDigit (toDigit_eq_some_iff.mpr ⟨hlow, heq⟩)

/-- The text, trimmed, is the prefix, white space, and a spelling of the digest. -/
def Spells (provided : String) (digest : List UInt8) : Prop :=
  ∃ blank digits, trimChars provided.toList = signaturePrefix.toList ++ (blank ++ digits) ∧
    (∀ c ∈ blank, isWhitespace c = true) ∧ digits.map Char.toLower = hexChars digest

theorem verifySignature_eq_ok_iff {crates : Crates} {secret : String} {payload : List UInt8}
    {provided : String} {digest : List UInt8} :
    verifySignature crates secret payload provided = .ok digest ↔
      (crates.hmacSha256 secret).map (fun mac => mac payload) = some digest ∧
        Spells provided digest := by
  constructor
  · intro h
    refine ⟨verifySignature_eq_ok h, ?_⟩
    unfold verifySignature at h
    split at h
    · cases h
    · rename_i rest hstrip
      have htext := stripPrefix_eq_some_iff.mp hstrip
      obtain ⟨blank, hrest, hblank⟩ := blank_before_trimChars htext
      split at h
      · cases h
      · rename_i bytes hdecode
        refine ⟨blank, trimChars rest, by rw [htext, ← hrest], hblank, ?_⟩
        rw [← hexDecode_eq_some_iff, hdecode]
        split at h
        · cases h
        · split_ifs at h
          cases h
          rfl
  · rintro ⟨hmac, blank, digits, htext, hblank, hdigits⟩
    obtain ⟨mac, hsome, rfl⟩ := Option.map_eq_some_iff.mp hmac
    have hstrip := stripPrefix_eq_some_iff.mpr htext
    have htrim : trimChars (blank ++ digits) = digits := by
      rw [trimChars_blank_append hblank, trimChars_of_none (isWhitespace_of_spelling hdigits)]
    unfold verifySignature
    rw [hstrip]
    simp only [htrim, hexDecode_eq_some_iff.mpr hdigits, hsome, if_true]

/-- For every secret, payload and header text:

* the text is accepted, with digest `d`, exactly when `d` is the HMAC of the payload and
  the text spells it;
* the header a signer computes is accepted;
* all texts accepted for the payload give one digest. -/
theorem signature_accepted_iff (crates : Crates) (secret : String) (payload : List UInt8) :
    (∀ provided d, verifySignature crates secret payload provided = .ok d ↔
      (crates.hmacSha256 secret).map (fun mac => mac payload) = some d ∧ Spells provided d) ∧
    (∀ header, computeSignature crates secret payload = some header →
      ∃ d, verifySignature crates secret payload header = .ok d) ∧
    ∀ provided provided' d d', verifySignature crates secret payload provided = .ok d →
      verifySignature crates secret payload provided' = .ok d' → d = d' := by
  refine ⟨fun provided d => verifySignature_eq_ok_iff, ?_, ?_⟩
  · intro header hheader
    obtain ⟨mac, hmac, -⟩ := Option.map_eq_some_iff.mp hheader
    obtain ⟨header', hheader', hok⟩ := verifySignature_computeSignature hmac payload
    rw [hheader, Option.some.injEq] at hheader'
    exact ⟨mac payload, by rw [hheader', hok]⟩
  · intro provided provided' d d' hd hd'
    have h := verifySignature_eq_ok hd
    rw [verifySignature_eq_ok hd', Option.some.injEq] at h
    exact h.symm

example : verifySignature sampleCrates "secret" [] " sha256= aB" = .ok [0xab] := by decide

end SimplyIpExporter.SignatureSpellings
