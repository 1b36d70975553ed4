import SimplyIpExporter.CanonicalSigning

/-!
# Signing secrets at rest

A secret is stored as text that says how it is protected: hexadecimal as it is, or
sealed under a key with the nonce beside it. Plain text can be read with any
configuration. The authenticated encryption is a pair of functions; of it is assumed
that it opens what it sealed, and only under the key it was sealed with.
-/
namespace SimplyIpExporter.SecretsAtRest
open RustText Entities CanonicalSigning

structure Aead (Key : Type) where
  encrypt : Key → (nonce message : List UInt8) → Option (List UInt8)
  decrypt : Key → (nonce ciphertext : List UInt8) → Option (List UInt8)

structure Aead.Sound {Key : Type} (aead : Aead Key) : Prop where
  opens : ∀ {key nonce message ciphertext}, aead.encrypt key nonce message = some ciphertext →
    aead.decrypt key nonce ciphertext = some message
  binds : ∀ {key key' nonce message ciphertext},
    aead.encrypt key nonce message = some ciphertext → key' ≠ key →
    aead.decrypt key' nonce ciphertext = none

inductive SecretCipher (Key : Type) where
  | plaintext
  | sealed (key : Key)
  deriving DecidableEq, Repr

inductive CryptoError where
  | malformedCiphertext
  | decryptionFailed
  deriving DecidableEq, Repr

def plaintextPrefix : String := "v1.plain."
def sealedPrefix : String := "v1.xchacha20poly1305."
def nonceLen : ℕ := 24

/-- `String::from_utf8`. -/
def fromUtf8 (bytes : List UInt8) : Option String := String.fromUTF8? ⟨bytes.toArray⟩

section Cipher
variable {Key : Type}

/-- `SecretCipher::seal`. A nonce has its fixed length by type in the original. -/
def SecretCipher.seal (aead : Aead Key) (nonce : List UInt8) (secret : String) :
    SecretCipher Key → Option String
  | .plaintext => some (plaintextPrefix ++ hexText (utf8 secret))
  | .sealed key =>
    if nonce.length = nonceLen then
      (aead.encrypt key nonce (utf8 secret)).map fun ciphertext =>
        sealedPrefix ++ (hexText nonce ++ ("." ++ hexText ciphertext))
    else none

def asText (bytes : Option (List UInt8)) : Except CryptoError String :=
  match bytes.bind fromUtf8 with
  | some secret => .ok secret
  | none => .error .malformedCiphertext

/-- `SecretCipher::open`. -/
def SecretCipher.open (aead : Aead Key) (stored : String) (cipher : SecretCipher Key) :
    Except CryptoError String :=
  match stripPrefix plaintextPrefix stored.toList with
  | some encoded => asText (hexDecode encoded)
  | none =>
    match (stripPrefix sealedPrefix stored.toList).bind (splitOnce '.') with
    | none => .error .malformedCiphertext
    | some (nonceHex, ciphertextHex) =>
      match hexDecode nonceHex with
      | none => .error .malformedCiphertext
      | some nonce =>
        if nonce.length ≠ nonceLen then .error .malformedCiphertext
        else
          match hexDecode ciphertextHex with
          | none => .error .malformedCiphertext
          | some ciphertext =>
            match cipher with
            | .plaintext => .error .decryptionFailed
            | .sealed key =>
              match aead.decrypt key nonce ciphertext with
              | none => .error .decryptionFailed
              | some message => asText (some message)

/-- The functions of a process that runs with a cipher. -/
def cratesWith (base : Crates) (aead : Aead Key) (cipher : SecretCipher Key) : Crates :=
  { base with
    sealSecret := fun nonce secret => cipher.seal aead nonce secret
    openSecret := fun stored => (cipher.open aead stored).toOption }

end Cipher

theorem hexDigitChar_ne_dot {n : ℕ} (h : n < 16) : hexDigitChar n ≠ '.' := by
  revert n
  decide

theorem dot_notMem_hexChars (bytes : List UInt8) : '.' ∉ hexChars bytes := by
  intro hmem
  obtain ⟨b, -, hc⟩ := List.mem_flatMap.mp hmem
  obtain ⟨hhigh, hlow⟩ := halves_lt b
  rcases List.mem_pair.mp hc with h | h
  · exact hexDigitChar_ne_dot hhigh h.symm
  · exact hexDigitChar_ne_dot hlow h.symm

theorem fromUtf8_utf8 (s : String) : fromUtf8 (utf8 s) = some s := by
  unfold fromUtf8 utf8 String.fromUTF8?
  have hvalid : (⟨s.toUTF8.data.toList.toArray⟩ : ByteArray).IsValidUTF8 := by
    simpa using s.isValidUTF8
  rw [dif_pos hvalid]
  congr 1

section Texts
variable {Key : Type} {aead : Aead Key} {cipher : SecretCipher Key} {key : Key}
  {nonce ciphertext : List UInt8} {secret text : String}

theorem open_plaintext :
    cipher.open aead (plaintextPrefix ++ hexText (utf8 secret)) = .ok secret := by
  unfold SecretCipher.open
  rw [String.toList_append, stripPrefix_append, toList_hexText]
  dsimp only
  rw [hexDecode_hexChars, asText, Option.bind_some, fromUtf8_utf8]

theorem stripPrefix_plaintext_sealed (cs : List Char) :
    stripPrefix plaintextPrefix (sealedPrefix.toList ++ cs) = none := by
  have hnot : plaintextPrefix.toList.isPrefixOf (sealedPrefix.toList ++ cs) = false := rfl
  rw [stripPrefix, hnot]
  rfl

/-- What opening a sealed text comes to. -/
theorem open_sealed (hnonce : nonce.length = nonceLen) :
    cipher.open aead (sealedPrefix ++ (hexText nonce ++ ("." ++ hexText ciphertext))) =
      match cipher with
      | .plaintext => .error .decryptionFailed
      | .sealed key =>
        match aead.decrypt key nonce ciphertext with
        | none => .error .decryptionFailed
        | some message => asText (some message) := by
  have hchars : (sealedPrefix ++ (hexText nonce ++ ("." ++ hexText ciphertext))).toList =
      sealedPrefix.toList ++ (hexChars nonce ++ '.' :: hexChars ciphertext) := by
    simp [String.toList_append, toList_hexText]
  unfold SecretCipher.open
  rw [hchars, stripPrefix_plaintext_sealed, stripPrefix_append, Option.bind_some,
    splitOnce_append (dot_notMem_hexChars nonce)]
  dsimp only
  rw [hexDecode_hexChars, hexDecode_hexChars]
  dsimp only
  rw [if_neg (not_not.mpr hnonce)]

/-- The text is plain. -/
def IsPlain (text : String) : Prop := ∃ secret, text = plaintextPrefix ++ hexText (utf8 secret)

/-- The text was sealed under the key. -/
def SealedUnder (aead : Aead Key) (key : Key) (text : String) : Prop :=
  ∃ nonce secret, (SecretCipher.sealed key).seal aead nonce secret = some text

theorem seal_cases (h : cipher.seal aead nonce secret = some text) :
    (cipher = .plaintext ∧ IsPlain text) ∨ ∃ key, cipher = .sealed key ∧
    SealedUnder aead key text := by
  cases cipher with
  | plaintext =>
      cases h
      exact .inl ⟨rfl, secret, rfl⟩
  | sealed key => exact .inr ⟨key, rfl, nonce, secret, h⟩

theorem IsPlain.opens (h : IsPlain text) (cipher : SecretCipher Key) :
    ∃ secret, cipher.open aead text = .ok secret := by
  obtain ⟨secret, rfl⟩ := h
  exact ⟨secret, open_plaintext⟩

theorem seal_sealed_eq_some (h : (SecretCipher.sealed key).seal aead nonce secret = some text) :
    nonce.length = nonceLen ∧ ∃ ciphertext, aead.encrypt key nonce (utf8 secret) = some ciphertext ∧
      text = sealedPrefix ++ (hexText nonce ++ ("." ++ hexText ciphertext)) := by
  unfold SecretCipher.seal at h
  dsimp only at h
  split_ifs at h with hnonce
  obtain ⟨ciphertext, hencrypt, rfl⟩ := Option.map_eq_some_iff.mp h
  exact ⟨hnonce, ciphertext, hencrypt, rfl⟩

theorem open_seal_plaintext (h : SecretCipher.plaintext.seal aead nonce secret = some text) :
    cipher.open aead text = .ok secret := by
  cases h
  exact open_plaintext

variable (hsound : aead.Sound)
include hsound

theorem open_seal_sealed (h : (SecretCipher.sealed key).seal aead nonce secret = some text) :
    (SecretCipher.sealed key).open aead text = .ok secret := by
  obtain ⟨hnonce, ciphertext, hencrypt, rfl⟩ := seal_sealed_eq_some h
  rw [open_sealed hnonce]
  dsimp only
  rw [hsound.opens hencrypt]
  dsimp only
  rw [asText, Option.bind_some, fromUtf8_utf8]

theorem open_seal (h : cipher.seal aead nonce secret = some text) :
    cipher.open aead text = .ok secret := by
  cases cipher with
  | plaintext => exact open_seal_plaintext h
  | sealed key => exact open_seal_sealed hsound h

/-- A process reads back the secrets it stores. -/
theorem cratesWith_opens {base : Crates}
    (h : (cratesWith base aead cipher).sealSecret nonce secret = some text) :
    (cratesWith base aead cipher).openSecret text = some secret := by
  unfold cratesWith at h ⊢
  dsimp only at h ⊢
  rw [open_seal hsound h]
  rfl

theorem open_seal_other (h : (SecretCipher.sealed key).seal aead nonce secret = some text)
    (hother : cipher ≠ .sealed key) : cipher.open aead text = .error .decryptionFailed := by
  obtain ⟨hnonce, ciphertext, hencrypt, rfl⟩ := seal_sealed_eq_some h
  rw [open_sealed hnonce]
  cases cipher with
  | plaintext => rfl
  | sealed key' =>
      have hkey : key' ≠ key := fun heq => hother (by rw [heq])
      dsimp only
      rw [hsound.binds hencrypt hkey]

/-- A sealed text opens under its key and under no other configuration. -/
theorem SealedUnder.opens_iff (h : SealedUnder aead key text) (cipher : SecretCipher Key) :
    (∃ secret, cipher.open aead text = .ok secret) ↔ cipher = .sealed key := by
  obtain ⟨nonce, secret, hseal⟩ := h
  constructor
  · rintro ⟨opened, hopened⟩
    by_contra hother
    rw [open_seal_other hsound hseal hother] at hopened
    cases hopened
  · rintro rfl
    exact ⟨secret, open_seal_sealed hsound hseal⟩

theorem SealedUnder.unique {key' : Key} (h : SealedUnder aead key text)
    (h' : SealedUnder aead key' text) : key = key' := by
  have hopens := (h.opens_iff hsound (.sealed key)).mpr rfl
  have hsame := (h'.opens_iff hsound (.sealed key)).mp hopens
  cases hsame
  rfl

omit hsound in
theorem SealedUnder.not_plain (h : SealedUnder aead key text) : ¬ IsPlain text := by
  rintro ⟨secret', rfl⟩
  obtain ⟨nonce, secret, hseal⟩ := h
  obtain ⟨-, ciphertext, -, htext⟩ := seal_sealed_eq_some hseal
  have hchars := congrArg (fun s => stripPrefix plaintextPrefix s.toList) htext
  simp only [String.toList_append, stripPrefix_append, stripPrefix_plaintext_sealed] at hchars
  cases hchars

end Texts

/-- Sealing that writes the key in front of the message. -/
def sampleAead : Aead UInt8 where
  encrypt key _ message := some (key :: message)
  decrypt key _ ciphertext :=
    match ciphertext with
    | [] => none
    | sealedUnder :: message => if sealedUnder = key then some message else none

theorem sampleAead_sound : sampleAead.Sound where
  opens := by
    intro key nonce message ciphertext h
    cases h
    exact if_pos rfl
  binds := by
    intro key key' nonce message ciphertext h hne
    cases h
    exact if_neg (Ne.symm hne)

end SimplyIpExporter.SecretsAtRest
