import SimplyIpExporter.IpAddresses
import SimplyIpExporter.RustText

/-!
# Rows, errors and borrowed functions

The four tables' rows with their columns, the errors a handler answers with, and
the functions the exporter takes from other crates. The latter are parameters:
every result holds for whatever functions they are, and an assumption about one
of them is stated where it is needed.

Times are nanoseconds since the Unix epoch, without a zone, as `NaiveDateTime`
keeps them.
-/
namespace SimplyIpExporter.Entities
open IpAddresses

abbrev Uuid := BitVec 128

abbrev NaiveDateTime := ℤ

def nanosPerSecond : ℤ := 1000000000

/-- `timestamp()`: whole seconds, rounded towards the past. -/
def timestamp (t : NaiveDateTime) : ℤ := t / nanosPerSecond

theorem timestamp_mono {t u : NaiveDateTime} (h : t ≤ u) : timestamp t ≤ timestamp u :=
  Int.ediv_le_ediv (by decide) h

theorem timestamp_add_seconds (t : NaiveDateTime) (n : ℤ) :
    timestamp (t + n * nanosPerSecond) = timestamp t + n := by
  unfold timestamp nanosPerSecond
  omega

def hexDigitChar (n : ℕ) : Char := Char.ofNat (if n < 10 then 48 + n else 87 + n)

theorem hexDigitChar_inj {m n : ℕ} (hm : m < 16) (hn : n < 16)
    (h : hexDigitChar m = hexDigitChar n) :
    m = n := by
  have hdigits : ∀ m < 16, ∀ n < 16, hexDigitChar m = hexDigitChar n → m = n := by decide
  exact hdigits m hm n hn h

/-- The digits of a number to a base, most significant first and padded with zeros. -/
def digitsOf (radix count n : ℕ) : List ℕ :=
  (List.range count).map fun i => n / radix ^ (count - 1 - i) % radix

theorem eq_of_digits {radix m n : ℕ} : ∀ count,
    (∀ j < count, m / radix ^ j % radix = n / radix ^ j % radix) →
    m % radix ^ count = n % radix ^ count := by
  intro count
  induction count with
  | zero => simp [Nat.mod_one]
  | succ count ih =>
      intro h
      rw [Nat.mod_pow_succ, Nat.mod_pow_succ, ih fun j hj => h j (by omega), h count (by omega)]

/-- Numbers that are written alike, digit by digit, are the same. -/
theorem digitsOf_inj {A : Type} {render : ℕ → A} {radix count m n : ℕ} (hradix : 0 < radix)
    (hrender : ∀ d < radix, ∀ e < radix, render d = render e → d = e) (hm : m < radix ^ count)
    (hn : n < radix ^ count)
    (h : (digitsOf radix count m).map render = (digitsOf radix count n).map render) : m = n := by
  have hdigits : ∀ j < count, m / radix ^ j % radix = n / radix ^ j % radix := by
    intro j hj
    have hat := List.map_inj_left.mp (by simpa only [digitsOf, List.map_map] using h)
        (count - 1 - j)
      (List.mem_range.mpr (by omega))
    have hback : count - 1 - (count - 1 - j) = j := by omega
    simp only [Function.comp_apply, hback] at hat
    exact hrender _ (Nat.mod_lt _ hradix) _ (Nat.mod_lt _ hradix) hat
  have hmod := eq_of_digits count hdigits
  rwa [Nat.mod_eq_of_lt hm, Nat.mod_eq_of_lt hn] at hmod

/-- The hyphenated lower-case form of `Uuid::to_string`. -/
def uuidText (id : Uuid) : String :=
  let digits := (digitsOf 16 32 id.toNat).map hexDigitChar
  let part (start len : ℕ) := String.ofList ((digits.drop start).take len)
  "-".intercalate [part 0 8, part 8 4, part 12 4, part 16 4, part 20 12]

structure ApiKey where
  id : Uuid
  name : String
  keyPrefix : String
  keyHash : String
  signingSecret : Option String
  boundIps : Option String
  isMaster : Bool
  canManageKeys : Bool
  parentKeyId : Option Uuid
  ownerKeyId : Option Uuid
  createdAt : NaiveDateTime
  updatedAt : NaiveDateTime
  deriving DecidableEq, Repr

structure Endpoint where
  id : Uuid
  ownerKeyId : Option Uuid
  name : String
  description : Option String
  tokenSecret : String
  vaultGroups : String
  ttlSeconds : ℤ
  maxAgeSeconds : ℤ
  boundIps : Option String
  filterRfc1918 : Bool
  filterBogons : Bool
  filterLoopback : Bool
  lastSyncedAt : Option NaiveDateTime
  createdAt : NaiveDateTime
  updatedAt : NaiveDateTime
  deriving DecidableEq, Repr

structure VaultGroupPermission where
  id : Uuid
  apiKeyId : Uuid
  vaultGroupId : Uuid
  vaultGroupName : String
  createdAt : NaiveDateTime
  deriving DecidableEq, Repr

structure AuditLog where
  id : Uuid
  apiKeyId : Option Uuid
  apiKeyName : String
  apiKeyPrefix : String
  clientIp : String
  action : String
  targetResource : Option String
  details : Option String
  timestamp : NaiveDateTime
  deriving DecidableEq, Repr

/-- A statement that failed, a violated constraint, an update that found no row. -/
inductive DbErr where
  | exec
  | constraint
  | recordNotUpdated
  deriving DecidableEq, Repr

inductive AppError where
  | dbError (e : DbErr)
  | invalidInput (message : String)
  | unauthorized (message : String)
  | forbidden (message : String)
  | notFound
  | conflict (message : String)
  | conflictWithDetails (message : String) (ownedEndpoints : List (Uuid × String))
  | tooManyRequests (message : String)
  | bodyRejected (status : ℕ) (message : String)
  | internal
  | vaultNotConfigured
  | vaultUnreachable
  deriving DecidableEq, Repr

structure Crates where
  sha256 : List UInt8 → List UInt8
  /-- `Hmac::<Sha256>::new_from_slice`, then the digest of a message. -/
  hmacSha256 : String → Option (List UInt8 → List UInt8)
  /-- `SecretCipher::seal` with the nonce it draws, and `SecretCipher::open`. -/
  sealSecret : List UInt8 → String → Option String
  openSecret : String → Option String
  /-- `IpNet::from_str`. -/
  parseNet : String → Option IpNet
  /-- `IpAddr::to_string`. -/
  ipText : IpAddr → String
  /-- A string as `{:?}` prints it. -/
  debugText : String → String

def utf8 (s : String) : List UInt8 := s.toUTF8.data.toList

theorem utf8_ofList (cs : List Char) :
    utf8 (String.ofList cs) = cs.flatMap String.utf8EncodeChar := by
  simp [utf8, List.utf8Encode]

def hexText (bytes : List UInt8) : String :=
  String.ofList (bytes.flatMap fun b => [hexDigitChar (b.toNat / 16), hexDigitChar (b.toNat % 16)])

/-- `hash_key`: how `api_keys.key_hash` is computed from a presented key. -/
def Crates.hashKey (crates : Crates) (key : String) : String := hexText (crates.sha256 (utf8 key))

/-- Simple functions to run concrete cases with: a digest of one byte, secrets
stored as they are, and no network syntax beyond plain addresses. -/
def sampleCrates : Crates where
  sha256 bytes := bytes
  hmacSha256 _ := some fun _ => [0xab]
  sealSecret _ s := some s
  openSecret s := some s
  parseNet _ := none
  ipText _ := ""
  debugText s := s

end SimplyIpExporter.Entities
