import SimplyIpExporter.SecretsAtRest
import SimplyIpExporter.SignatureSpellings

/-!
# Stored secrets read back

What one configuration writes, and what each configuration makes of it. A text that has
neither of the two stored forms is malformed to all of them; hexadecimal may be in either
case there, since the decoder takes both.
-/
namespace SimplyIpExporter.StoredSecrets
open RustText Entities CanonicalSigning SignatureSpellings SecretsAtRest

/-- The characters are hexadecimal of the bytes, in either case. -/
def HexOf (cs : List Char) (bytes : List UInt8) : Prop := cs.map Char.toLower = hexChars bytes

inductive Stored (text : String) : Prop
  | plain {digits : List Char} {secret : String} (hex : HexOf digits (utf8 secret))
      (spelled : text.toList = plaintextPrefix.toList ++ digits) : Stored text
  | sealed {nonceHex ciphertextHex : List Char} {nonce ciphertext : List UInt8}
      (hexNonce : HexOf nonceHex nonce) (length : nonce.length = nonceLen)
      (hexCiphertext : HexOf ciphertextHex ciphertext)
      (spelled : text.toList = sealedPrefix.toList ++ (nonceHex ++ '.' :: ciphertextHex)) :
      Stored text

theorem fromUtf8_eq_some {bytes : List UInt8} {secret : String}
    (h : fromUtf8 bytes = some secret) : utf8 secret = bytes := by
  unfold fromUtf8 String.fromUTF8? at h
  split_ifs at h with hvalid
  cases h
  rfl

section Forms
variable {Key : Type} {aead : Aead Key} {cipher : SecretCipher Key} {text : String}

theorem stored_of_plain {encoded : List Char}
    (hspelled : text.toList = plaintextPrefix.toList ++ encoded) :
    asText (hexDecode encoded) = .error .malformedCiphertext ∨ Stored text := by
  unfold asText
  cases hread : (hexDecode encoded).bind fromUtf8 with
  | none => exact .inl rfl
  | some secret =>
      obtain ⟨bytes, hdecode, hutf8⟩ := Option.bind_eq_some_iff.mp hread
      rw [← fromUtf8_eq_some hutf8] at hdecode
      exact .inr (.plain (hexDecode_eq_some_iff.mp hdecode) hspelled)

/-- Past every check on the way, the text has been found to be in one of the forms. -/
theorem malformed_or_stored :
    cipher.open aead text = .error .malformedCiphertext ∨ Stored text := by
  unfold SecretCipher.open
  split
  · rename_i encoded hplain
    exact stored_of_plain (stripPrefix_eq_some_iff.mp hplain)
  · split
    · exact .inl rfl
    · rename_i nonceHex ciphertextHex hparts
      obtain ⟨body, hbody, hsplit⟩ := Option.bind_eq_some_iff.mp hparts
      split
      · exact .inl rfl
      · rename_i nonce hnonce
        split_ifs with hlength
        · exact .inl rfl
        · split
          · exact .inl rfl
          · rename_i ciphertext hciphertext
            refine .inr (.sealed (hexDecode_eq_some_iff.mp hnonce) (not_not.mp hlength)
              (hexDecode_eq_some_iff.mp hciphertext) ?_)
            rw [stripPrefix_eq_some_iff.mp hbody, splitOnce_eq_some hsplit]

end Forms

/-- One secret, written under each cipher with any nonce and read under each. -/
structure RoundTrips {Key : Type} (aead : Aead Key) (secret : String) : Prop where
  sealsPlain : ∀ nonce, (SecretCipher.plaintext.seal aead nonce secret).isSome
  seals : ∀ key nonce, nonce.length = nonceLen →
    ((SecretCipher.sealed key).seal aead nonce secret).isSome =
      (aead.encrypt key nonce (utf8 secret)).isSome
  own : ∀ (cipher : SecretCipher Key) nonce text, cipher.seal aead nonce secret = some text →
    cipher.open aead text = .ok secret
  plain : ∀ (cipher : SecretCipher Key) nonce text,
    SecretCipher.plaintext.seal aead nonce secret = some text →
    cipher.open aead text = .ok secret
  other : ∀ key (cipher : SecretCipher Key) nonce text,
    (SecretCipher.sealed key).seal aead nonce secret = some text →
    cipher ≠ .sealed key → cipher.open aead text = .error .decryptionFailed

theorem roundTrips {Key : Type} {aead : Aead Key} (hsound : aead.Sound) (secret : String) :
    RoundTrips aead secret where
  sealsPlain _ := rfl
  seals key nonce hnonce := by
    unfold SecretCipher.seal
    dsimp only
    rw [if_pos hnonce, Option.isSome_map]
  own _ _ _ h := open_seal hsound h
  plain _ _ _ h := open_seal_plaintext h
  other _ _ _ _ h hother := open_seal_other hsound h hother

theorem stored_secrets_round_trip {Key : Type} (aead : Aead Key) (hsound : aead.Sound) :
    (∀ secret, RoundTrips aead secret) ∧
    ∀ (cipher : SecretCipher Key) (text : String), ¬ Stored text →
      cipher.open aead text = .error .malformedCiphertext := by
  refine ⟨roundTrips hsound, ?_⟩
  intro cipher text hnot
  exact malformed_or_stored.resolve_right hnot

/-- A secret sealed under one key, read with that key, with another and without one. -/
theorem stored_secrets_sample :
    ∃ text, (SecretCipher.sealed 1).seal sampleAead (List.replicate 24 0) "s3cr3t" = some text ∧
      (SecretCipher.sealed 1).open sampleAead text = .ok "s3cr3t" ∧
      (SecretCipher.sealed 2).open sampleAead text = .error .decryptionFailed ∧
      SecretCipher.plaintext.open sampleAead text = .error .decryptionFailed := by
  have htrips := (stored_secrets_round_trip sampleAead sampleAead_sound).1 "s3cr3t"
  have hsome : ((SecretCipher.sealed 1).seal sampleAead (List.replicate 24 0) "s3cr3t").isSome := by
    rw [htrips.seals 1 _ rfl]
    rfl
  obtain ⟨text, hseal⟩ := Option.isSome_iff_exists.mp hsome
  exact ⟨text, hseal, htrips.own _ _ _ hseal, htrips.other _ _ _ _ hseal (by decide),
    htrips.other _ _ _ _ hseal (by decide)⟩

end SimplyIpExporter.StoredSecrets
