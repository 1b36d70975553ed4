import Mathlib.Data.BitVec
import SimplyIpExporter.RustText

/-!
# Addresses and networks

`IpAddr` and its text parser follow the standard library: an address is read as
IPv4 first and as IPv6 otherwise, and the whole text has to be consumed. The
reader of IPv6 groups takes an embedded IPv4 tail, and `::` stands for at least
one group. `IpNet` carries an address and a prefix length; containment compares
the leading bits and never relates the two families.

The parser's text is an external grammar, so the only fact proved about it is
the one the header code depends on: a text that parses consists of hexadecimal
digits, dots and colons, hence holds no comma and no white space.
-/
namespace SimplyIpExporter.IpAddresses
open RustText

inductive IpAddr where
  | v4 (bits : BitVec 32)
  | v6 (bits : BitVec 128)
  deriving DecidableEq, Repr

inductive IpNet where
  | v4 (addr : BitVec 32) (len : Fin 33)
  | v6 (addr : BitVec 128) (len : Fin 129)
  deriving DecidableEq, Repr

/-- `IpNet::contains`. -/
def IpNet.contains : IpNet → IpAddr → Bool
  | .v4 net len, .v4 a => net >>> (32 - len.val) == a >>> (32 - len.val)
  | .v6 net len, .v6 a => net >>> (128 - len.val) == a >>> (128 - len.val)
  | _, _ => false

/-- `IpNet::network`: the first address, with the host bits cleared. -/
def IpNet.network : IpNet → IpAddr
  | .v4 net len => .v4 (net >>> (32 - len.val) <<< (32 - len.val))
  | .v6 net len => .v6 (net >>> (128 - len.val) <<< (128 - len.val))

/-- `IpNet::from`: the network of one address. -/
def IpNet.fromAddr : IpAddr → IpNet
  | .v4 a => .v4 a 32
  | .v6 a => .v6 a 128

/-- A reader consumes a front part of the characters, or fails. -/
abbrev Reader (A : Type) := List Char → Option (A × List Char)

def readGivenChar (c : Char) : Reader Unit
  | [] => none
  | d :: cs => if d = c then some ((), cs) else none

def spanDigits (radix : ℕ) : List Char → List ℕ × List Char
  | [] => ([], [])
  | c :: cs =>
    match toDigit radix c with
    | none => ([], c :: cs)
    | some d => (d :: (spanDigits radix cs).1, (spanDigits radix cs).2)

def readNumber (radix maxDigits : ℕ) (allowZeroPrefix : Bool) (bound : ℕ) : Reader ℕ := fun cs =>
  let (ds, rest) := spanDigits radix cs
  if ds.isEmpty ∨ maxDigits < ds.length then none
  else if !allowZeroPrefix ∧ cs.head? = some '0' ∧ 1 < ds.length then none
  else
    let n := ds.foldl (fun n d => radix * n + d) 0
    if n < bound then some (n, rest) else none

def readSeparator {A : Type} (sep : Char) (index : ℕ) (inner : Reader A) : Reader A := fun cs =>
  if index = 0 then inner cs
  else do
    let ((), cs) ← readGivenChar sep cs
    inner cs

def readOctet (index : ℕ) : Reader ℕ := readSeparator '.' index (readNumber 10 3 false 256)

def readIpv4 : Reader (BitVec 32) := fun cs => do
  let (a, cs) ← readOctet 0 cs
  let (b, cs) ← readOctet 1 cs
  let (c, cs) ← readOctet 2 cs
  let (d, cs) ← readOctet 3 cs
  some (BitVec.ofNat 32 (((a * 256 + b) * 256 + c) * 256 + d), cs)

/-- `slots` groups are left to fill and `index` have been read. The flag tells
whether the last two came from an embedded IPv4 address. -/
def readGroups : (slots index : ℕ) → List Char → List ℕ × Bool × List Char
  | 0, _, cs => ([], false, cs)
  | slots + 1, index, cs =>
    match if 0 < slots then readSeparator ':' index readIpv4 cs else none with
    | some (a, rest) => ([a.toNat / 65536, a.toNat % 65536], true, rest)
    | none =>
      match readSeparator ':' index (readNumber 16 4 true 65536) cs with
      | none => ([], false, cs)
      | some (g, rest) =>
        let r := readGroups slots (index + 1) rest
        (g :: r.1, r.2)

def groupsBits (groups : List ℕ) : BitVec 128 :=
  BitVec.ofNat 128 (groups.foldl (fun n g => n * 65536 + g) 0)

def readIpv6 : Reader (BitVec 128) := fun cs =>
  let head := readGroups 8 0 cs
  if head.1.length = 8 then some (groupsBits head.1, head.2.2)
  -- an embedded IPv4 part is not allowed before `::`
  else if head.2.1 then none
  else do
    let ((), cs) ← readGivenChar ':' head.2.2
    let ((), cs) ← readGivenChar ':' cs
    let tail := readGroups (8 - (head.1.length + 1)) 0 cs
    let zeros := List.replicate (8 - head.1.length - tail.1.length) 0
    some (groupsBits (head.1 ++ zeros ++ tail.1), tail.2.2)

def readIpAddr : Reader IpAddr := fun cs =>
  match readIpv4 cs with
  | some (a, rest) => some (.v4 a, rest)
  | none => (readIpv6 cs).map fun r => (.v6 r.1, r.2)

/-- `str::parse::<IpAddr>`. -/
def parseIpAddr (s : String) : Option IpAddr :=
  match readIpAddr s.toList with
  | some (a, []) => some a
  | _ => none

example : parseIpAddr "10.0.0.5" = some (.v4 0x0a000005#32) := by decide
example : parseIpAddr "10.0.0.05" = none := by decide
example : parseIpAddr "::ffff:192.168.1.1" = some (.v6 0xffffc0a80101#128) := by decide

/-- Hexadecimal digits, dots and colons. -/
def ipChar (c : Char) : Bool := (toDigit 16 c).isSome || c == '.' || c == ':'

theorem ipChar_of_toDigit {c : Char} {d : ℕ} (h : toDigit 10 c = some d) : ipChar c = true := by
  have hd : (toDigit 16 c).isSome = true := by
    simp only [toDigit] at h ⊢
    split_ifs at h ⊢ <;> first | rfl | omega
  simp [ipChar, hd]

/-- The characters between `cs` and `rest` were consumed, and are address characters. -/
def Consumed (cs rest : List Char) : Prop :=
  ∃ front, cs = front ++ rest ∧ ∀ c ∈ front, ipChar c = true

theorem Consumed.refl (cs : List Char) : Consumed cs cs := ⟨[], rfl, by simp⟩

theorem Consumed.trans {cs ds es : List Char} (h : Consumed cs ds) (h' : Consumed ds es) :
    Consumed cs es := by
  obtain ⟨f, rfl, hf⟩ := h
  obtain ⟨g, rfl, hg⟩ := h'
  refine ⟨f ++ g, by simp, ?_⟩
  intro c hc
  rcases List.mem_append.mp hc with hc | hc
  · exact hf c hc
  · exact hg c hc

theorem Consumed.cons {c : Char} {cs rest : List Char} (hc : ipChar c = true)
    (h : Consumed cs rest) : Consumed (c :: cs) rest :=
  Consumed.trans ⟨[c], rfl, by simpa using hc⟩ h

theorem readGivenChar_consumed {c : Char} (hc : ipChar c = true) {cs rest : List Char} {u : Unit}
    (h : readGivenChar c cs = some (u, rest)) : Consumed cs rest := by
  cases cs with
  | nil => simp [readGivenChar] at h
  | cons d cs =>
      simp only [readGivenChar] at h
      split_ifs at h with hd
      cases h
      exact Consumed.cons (hd ▸ hc) (.refl _)

theorem spanDigits_consumed {radix : ℕ} (hr : radix = 10 ∨ radix = 16) (cs : List Char) :
    Consumed cs (spanDigits radix cs).2 := by
  induction cs with
  | nil => exact .refl _
  | cons c cs ih =>
      simp only [spanDigits]
      cases hd : toDigit radix c with
      | none => exact .refl _
      | some d =>
          refine ih.cons ?_
          rcases hr with rfl | rfl
          · exact ipChar_of_toDigit hd
          · simp [ipChar, hd]

theorem readNumber_consumed {radix maxDigits bound n : ℕ} {zero : Bool} {cs rest : List Char}
    (hr : radix = 10 ∨ radix = 16)
    (h : readNumber radix maxDigits zero bound cs = some (n, rest)) : Consumed cs rest := by
  simp only [readNumber] at h
  split_ifs at h
  cases h
  exact spanDigits_consumed hr cs

theorem readSeparator_consumed {A : Type} {sep : Char} {index : ℕ} {inner : Reader A}
    (hs : ipChar sep = true)
    (hi : ∀ {cs a rest}, inner cs = some (a, rest) → Consumed cs rest)
    {cs rest : List Char} {a : A} (h : readSeparator sep index inner cs = some (a, rest)) :
    Consumed cs rest := by
  simp only [readSeparator] at h
  split_ifs at h
  · exact hi h
  · obtain ⟨⟨u, ds⟩, hd, h⟩ := Option.bind_eq_some_iff.mp h
    exact (readGivenChar_consumed hs hd).trans (hi h)

theorem readOctet_consumed {index n : ℕ} {cs rest : List Char}
    (h : readOctet index cs = some (n, rest)) : Consumed cs rest :=
  readSeparator_consumed (by decide) (readNumber_consumed (.inl rfl)) h

theorem readIpv4_consumed {a : BitVec 32} {cs rest : List Char}
    (h : readIpv4 cs = some (a, rest)) : Consumed cs rest := by
  obtain ⟨⟨_, _⟩, h₁, h⟩ := Option.bind_eq_some_iff.mp h
  obtain ⟨⟨_, _⟩, h₂, h⟩ := Option.bind_eq_some_iff.mp h
  obtain ⟨⟨_, _⟩, h₃, h⟩ := Option.bind_eq_some_iff.mp h
  obtain ⟨⟨_, _⟩, h₄, h⟩ := Option.bind_eq_some_iff.mp h
  cases h
  exact (readOctet_consumed h₁).trans ((readOctet_consumed h₂).trans
    ((readOctet_consumed h₃).trans (readOctet_consumed h₄)))

theorem readGroups_consumed (slots index : ℕ) (cs : List Char) :
    Consumed cs (readGroups slots index cs).2.2 := by
  induction slots generalizing index cs with
  | zero => exact .refl _
  | succ slots ih =>
      simp only [readGroups]
      split
      · rename_i a rest h
        split_ifs at h
        exact readSeparator_consumed (by decide) readIpv4_consumed h
      · split
        · exact .refl _
        · rename_i g rest h
          exact (readSeparator_consumed (by decide) (readNumber_consumed (.inr rfl)) h).trans
            (ih _ _)

theorem readIpv6_consumed {a : BitVec 128} {cs rest : List Char}
    (h : readIpv6 cs = some (a, rest)) : Consumed cs rest := by
  simp only [readIpv6] at h
  split_ifs at h
  · cases h
    exact readGroups_consumed _ _ _
  · obtain ⟨⟨_, _⟩, h₁, h⟩ := Option.bind_eq_some_iff.mp h
    obtain ⟨⟨_, _⟩, h₂, h⟩ := Option.bind_eq_some_iff.mp h
    cases h
    exact (readGroups_consumed _ _ _).trans ((readGivenChar_consumed (by decide) h₁).trans
      ((readGivenChar_consumed (by decide) h₂).trans (readGroups_consumed _ _ _)))

theorem parseIpAddr_chars {s : String} {a : IpAddr} (h : parseIpAddr s = some a) :
    ∀ c ∈ s.toList, ipChar c = true := by
  have hc : Consumed s.toList [] := by
    simp only [parseIpAddr, readIpAddr] at h
    cases h₄ : readIpv4 s.toList with
    | some r =>
        obtain ⟨a, rest⟩ := r
        cases rest with
        | nil => exact readIpv4_consumed h₄
        | cons c cs => simp [h₄] at h
    | none =>
        cases h₆ : readIpv6 s.toList with
        | none => simp [h₄, h₆] at h
        | some r =>
            obtain ⟨a, rest⟩ := r
            cases rest with
            | nil => exact readIpv6_consumed h₆
            | cons c cs => simp [h₄, h₆] at h
  obtain ⟨front, hs, hf⟩ := hc
  rw [List.append_nil] at hs
  exact hs ▸ hf

theorem ipChar_toNat {c : Char} (h : ipChar c = true) : 46 ≤ c.toNat ∧ c.toNat ≤ 102 := by
  simp only [ipChar, Bool.or_eq_true, beq_iff_eq] at h
  rcases h with (h | rfl) | rfl
  · obtain ⟨d, hd⟩ := Option.isSome_iff_exists.mp h
    simp only [toDigit] at hd
    split_ifs at hd <;> omega
  · decide
  · decide

theorem ipChar_not_whitespace {c : Char} (h : ipChar c = true) : isWhitespace c = false := by
  obtain ⟨h₁, h₂⟩ := ipChar_toNat h
  simp only [isWhitespace, Bool.or_eq_false_iff, Bool.and_eq_false_iff, beq_eq_false_iff_ne,
    decide_eq_false_iff_not]
  omega

theorem ipChar_ne_comma {c : Char} (h : ipChar c = true) : c ≠ ',' := by
  rintro rfl
  revert h
  decide

end SimplyIpExporter.IpAddresses
