import SimplyIpExporter.RustText

/-!
# Percent-encoded queries

An escaping says which bytes stand for themselves and which digits write the others. A
query joins encoded names and values with `=` and `&`; reading one splits it at these
again and decodes the parts. Encoded text has neither of the two, so reading a query that
was built gives back what it was built from.

A decoder leaves a `%` that no two digits follow as it is. Encoded text has none of those
either.
-/
namespace SimplyIpExporter.PercentEncoding
open RustText

/-- Characters that have a meaning in the query part of a URL. -/
def delimiters : List Char := ['&', '=', '#', '+', '?', ' ']

structure Escaping where
  keep : UInt8 → Bool
  digit : ℕ → Char
  ascii : ∀ b, keep b = true → b.toNat < 128
  plain : ∀ b, keep b = true → Char.ofNat b.toNat ∉ '%' :: delimiters
  reads : ∀ n, n < 16 → toDigit 16 (digit n) = some n

def Escaping.escape (e : Escaping) (b : UInt8) : List Char :=
  if e.keep b then [Char.ofNat b.toNat] else ['%', e.digit (b.toNat / 16), e.digit (b.toNat % 16)]

def Escaping.encode (e : Escaping) (bytes : List UInt8) : List Char := bytes.flatMap e.escape

def decode : List Char → List UInt8
  | '%' :: c :: d :: rest =>
    match toDigit 16 c, toDigit 16 d with
    | some high, some low => UInt8.ofNat (16 * high + low) :: decode rest
    | _, _ => 37 :: decode (c :: d :: rest)
  | c :: rest => String.utf8EncodeChar c ++ decode rest
  | [] => []

section Encoded
variable {e : Escaping} {bytes : List UInt8}

theorem not_delimiter_of_toDigit {c : Char} {n : ℕ} (h : toDigit 16 c = some n) :
    c ∉ '%' :: delimiters := by
  intro hmem
  have hnone : ('%' :: delimiters).all (fun d => (toDigit 16 d).isNone) = true := by decide
  have hc := List.all_eq_true.mp hnone c hmem
  rw [h] at hc
  cases hc

theorem utf8EncodeChar_ascii {b : UInt8} (h : b.toNat < 128) :
    String.utf8EncodeChar (Char.ofNat b.toNat) = [b] := by
  have hall : ∀ n < 128, String.utf8EncodeChar (Char.ofNat n) = [UInt8.ofNat n] := by decide
  rw [hall _ h, UInt8.ofNat_toNat]

/-- The encoding of one byte, seen from outside. -/
theorem escape_cases (e : Escaping) (b : UInt8) :
    (∃ c, e.escape b = [c] ∧ c ∉ '%' :: delimiters ∧ String.utf8EncodeChar c = [b]) ∨
    ∃ c d high low, e.escape b = ['%', c, d] ∧ toDigit 16 c = some high ∧ toDigit 16 d = some low ∧
      UInt8.ofNat (16 * high + low) = b := by
  unfold Escaping.escape
  by_cases hkeep : e.keep b
  · refine .inl ⟨_, if_pos hkeep, e.plain b hkeep, ?_⟩
    exact utf8EncodeChar_ascii (e.ascii b hkeep)
  · have hbyte : 16 * (b.toNat / 16) + b.toNat % 16 = b.toNat := Nat.div_add_mod _ _
    have hlt := b.toNat_lt
    refine .inr ⟨_, _, _, _, if_neg hkeep, e.reads _ (by omega), e.reads _ (by omega), ?_⟩
    rw [hbyte, UInt8.ofNat_toNat]

theorem encode_cons (b : UInt8) (bytes : List UInt8) :
    e.encode (b :: bytes) = e.escape b ++ e.encode bytes := List.flatMap_cons

theorem decode_cons_of_ne {c : Char} (h : c ≠ '%') (rest : List Char) :
    decode (c :: rest) = String.utf8EncodeChar c ++ decode rest := by
  rw [decode]
  intro _ _ _ heq
  exact absurd heq h

theorem decode_escaped {c d : Char} {high low : ℕ} (hc : toDigit 16 c = some high)
    (hd : toDigit 16 d = some low) (rest : List Char) :
    decode ('%' :: c :: d :: rest) = UInt8.ofNat (16 * high + low) :: decode rest := by
  simp only [decode, hc, hd]

/-- Decoding reads one encoded byte after the other, whatever follows. -/
theorem decode_encode_append (bytes : List UInt8) (rest : List Char) :
    decode (e.encode bytes ++ rest) = bytes ++ decode rest := by
  induction bytes with
  | nil => rfl
  | cons b bytes ih =>
      rw [encode_cons, List.append_assoc]
      obtain ⟨c, hescape, hplain, hbyte⟩ | ⟨c, d, high, low, hescape, hc, hd, hbyte⟩ :=
        escape_cases e b
      · have hne : c ≠ '%' := fun heq => hplain (by rw [heq]; exact List.mem_cons_self)
        rw [hescape, List.singleton_append, decode_cons_of_ne hne, hbyte, ih]
        rfl
      · rw [hescape]
        change decode ('%' :: c :: d :: (e.encode bytes ++ rest)) = _
        rw [decode_escaped hc hd, hbyte, ih]
        rfl

theorem decode_encode (bytes : List UInt8) : decode (e.encode bytes) = bytes := by
  rw [← List.append_nil (e.encode bytes), decode_encode_append]
  exact List.append_nil bytes

theorem not_delimiter_of_mem_encode {c : Char} (h : c ∈ e.encode bytes) : c ∉ delimiters := by
  obtain ⟨b, -, hc⟩ := List.mem_flatMap.mp h
  obtain ⟨d, hescape, hplain, -⟩ | ⟨d, d', high, low, hescape, hd, hd', -⟩ := escape_cases e b
  · rw [hescape, List.mem_singleton] at hc
    rw [hc]
    exact fun hmem => hplain (List.mem_cons_of_mem _ hmem)
  · rw [hescape] at hc
    simp only [List.mem_cons, List.not_mem_nil, or_false] at hc
    obtain rfl | rfl | rfl := hc
    · decide
    · exact fun hmem => not_delimiter_of_toDigit hd (List.mem_cons_of_mem _ hmem)
    · exact fun hmem => not_delimiter_of_toDigit hd' (List.mem_cons_of_mem _ hmem)

/-- A `%` starts the digits of a byte wherever it stands. -/
theorem digits_of_percent {front back : List Char} (h : e.encode bytes = front ++ '%' :: back) :
    ∃ c d rest, back = c :: d :: rest ∧ (toDigit 16 c).isSome ∧ (toDigit 16 d).isSome := by
  induction bytes generalizing front with
  | nil => simp [Escaping.encode] at h
  | cons b bytes ih =>
      rw [encode_cons] at h
      obtain ⟨c, hescape, hplain, -⟩ | ⟨c, d, high, low, hescape, hc, hd, -⟩ := escape_cases e b
      · rw [hescape, List.singleton_append] at h
        cases front with
        | nil =>
            obtain ⟨rfl, -⟩ := List.cons.inj h
            exact absurd List.mem_cons_self hplain
        | cons x front => exact ih (List.cons.inj h).2
      · rw [hescape] at h
        have hdigit : ∀ {x : Char} {n : ℕ}, toDigit 16 x = some n → x ≠ '%' :=
          fun hx heq => not_delimiter_of_toDigit hx (by rw [heq]; exact List.mem_cons_self)
        -- it is the first of the three, or stands behind them: digits are no `%`
        obtain _ | ⟨_, _ | ⟨_, _ | ⟨_, front⟩⟩⟩ := front
        · obtain ⟨-, hback⟩ := List.cons.inj h
          exact ⟨c, d, _, hback.symm, by simp [hc], by simp [hd]⟩
        · have hsecond := (List.cons.inj (List.cons.inj h).2).1
          exact absurd hsecond (hdigit hc)
        · have hthird := (List.cons.inj (List.cons.inj (List.cons.inj h).2).2).1
          exact absurd hthird (hdigit hd)
        · exact ih (List.cons.inj (List.cons.inj (List.cons.inj h).2).2).2

/-- Text of kept characters is its own encoding. -/
theorem encode_kept {cs : List Char}
    (h : ∀ c ∈ cs, c.toNat < 128 ∧ e.keep (UInt8.ofNat c.toNat) = true) :
    e.encode (cs.flatMap String.utf8EncodeChar) = cs := by
  induction cs with
  | nil => rfl
  | cons c cs ih =>
      obtain ⟨hascii, hkeep⟩ := h c List.mem_cons_self
      have hnat : (UInt8.ofNat c.toNat).toNat = c.toNat := Nat.mod_eq_of_lt (by omega)
      have hchar : Char.ofNat (UInt8.ofNat c.toNat).toNat = c := by rw [hnat, Char.ofNat_toNat]
      have hbytes := utf8EncodeChar_ascii (b := UInt8.ofNat c.toNat) (by omega)
      rw [hchar] at hbytes
      rw [List.flatMap_cons, hbytes, Escaping.encode, List.flatMap_append]
      change e.escape _ ++ [] ++ e.encode _ = _
      rw [ih fun d hd => h d (List.mem_cons_of_mem _ hd), Escaping.escape, if_pos hkeep, hchar]
      rfl

end Encoded

abbrev Parameter := List UInt8 × List UInt8

def Escaping.parameter (e : Escaping) (p : Parameter) : List Char :=
  e.encode p.1 ++ '=' :: e.encode p.2

def Escaping.build (e : Escaping) : List Parameter → List Char
  | [] => []
  | p :: ps => e.parameter p ++ ps.flatMap fun q => '&' :: e.parameter q

/-- The name before the first `=` and the value after it, decoded. -/
def readParameter (part : List Char) : Parameter :=
  (decode (part.takeWhile (· != '=')), decode ((part.dropWhile (· != '=')).drop 1))

def read (query : List Char) : List Parameter := (query.splitOn '&').map readParameter

section Queries
variable {e : Escaping}

theorem readParameter_parameter (p : Parameter) : readParameter (e.parameter p) = p := by
  have hne : ∀ c ∈ e.encode p.1, (c != '=') = true := by
    intro c hc
    rw [bne_iff_ne]
    rintro rfl
    exact not_delimiter_of_mem_encode hc (by decide)
  unfold readParameter Escaping.parameter
  rw [List.takeWhile_append_of_pos hne, List.dropWhile_append_of_pos hne,
    List.takeWhile_cons_of_neg (by decide), List.dropWhile_cons_of_neg (by decide), List.append_nil]
  exact Prod.ext (decode_encode _) (decode_encode _)

theorem ampersand_notMem_parameter (p : Parameter) : '&' ∉ e.parameter p := by
  intro hmem
  obtain h | h := List.mem_append.mp hmem
  · exact not_delimiter_of_mem_encode h (by decide)
  · obtain h | h := List.mem_cons.mp h
    · cases h
    · exact not_delimiter_of_mem_encode h (by decide)

theorem splitOn_build (p : Parameter) (ps : List Parameter) :
    (e.build (p :: ps)).splitOn '&' = (p :: ps).map e.parameter := by
  induction ps generalizing p with
  | nil =>
      rw [Escaping.build, List.flatMap_nil, List.append_nil]
      exact List.splitOn_eq_singleton (ampersand_notMem_parameter p)
  | cons q ps ih =>
      have hbuild : e.build (p :: q :: ps) = e.parameter p ++ '&' :: e.build (q :: ps) := rfl
      rw [hbuild, List.splitOn_append_cons_self,
        List.splitOn_eq_singleton (ampersand_notMem_parameter p), ih]
      rfl

/-- What is read from a query are the parameters that it was built from. -/
theorem read_build {ps : List Parameter} (h : ps ≠ []) : read (e.build ps) = ps := by
  cases ps with
  | nil => exact absurd rfl h
  | cons p ps =>
      rw [read, splitOn_build, List.map_map]
      exact List.map_id'' readParameter_parameter _

end Queries
end SimplyIpExporter.PercentEncoding
