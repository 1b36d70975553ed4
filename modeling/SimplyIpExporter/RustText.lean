import Mathlib.Data.Int.Basic
import Mathlib.Data.List.Basic
import Mathlib.Data.List.TakeWhile

/-!
# Text operations of the Rust standard library

Strings are Lean strings; every operation goes through the list of their
characters, as the Rust originals go through `char`s. Only the operations the
exporter calls are here: trimming, splitting, stripping a known start, and reading a
signed 64-bit decimal.
-/
namespace SimplyIpExporter.RustText

/-- `char::is_whitespace`: the Unicode `White_Space` property. -/
def isWhitespace (c : Char) : Bool :=
  let n := c.toNat
  (9 ≤ n && n ≤ 13) || n == 0x20 || n == 0x85 || n == 0xA0 || n == 0x1680 ||
    (0x2000 ≤ n && n ≤ 0x200A) || n == 0x2028 || n == 0x2029 || n == 0x202F ||
    n == 0x205F || n == 0x3000

def trimChars (cs : List Char) : List Char :=
  ((cs.dropWhile isWhitespace).reverse.dropWhile isWhitespace).reverse

/-- `str::trim`. -/
def trim (s : String) : String := String.ofList (trimChars s.toList)

@[simp] theorem dropWhile_of_none {cs : List Char} (h : ∀ c ∈ cs, isWhitespace c = false) :
    cs.dropWhile isWhitespace = cs := by
  cases cs with
  | nil => rfl
  | cons c cs => exact List.dropWhile_cons_of_neg (by simp [h c List.mem_cons_self])

theorem trimChars_of_none {cs : List Char} (h : ∀ c ∈ cs, isWhitespace c = false) :
    trimChars cs = cs := by
  unfold trimChars
  rw [dropWhile_of_none h, dropWhile_of_none (by simpa using h), List.reverse_reverse]

theorem trimChars_cons_of_pos {c : Char} (hc : isWhitespace c = true) (cs : List Char) :
    trimChars (c :: cs) = trimChars cs := by
  unfold trimChars
  rw [List.dropWhile_cons_of_pos hc]

theorem forall_of_dropWhile_nil {p : Char → Bool} {cs : List Char} (h : cs.dropWhile p = []) :
    ∀ c ∈ cs, p c = true := by
  induction cs with
  | nil => simp
  | cons c cs ih =>
      cases hc : p c with
      | true =>
          rw [List.dropWhile_cons_of_pos hc] at h
          simpa [hc] using ih h
      | false => simp [hc] at h

theorem isWhitespace_of_trimChars_nil {cs : List Char} (h : trimChars cs = []) :
    ∀ c ∈ cs, isWhitespace c = true := by
  have hrest := forall_of_dropWhile_nil (List.reverse_eq_nil_iff.mp h)
  -- nothing is left in front of a first character that is not whitespace
  have hnil : cs.dropWhile isWhitespace = [] := by
    cases hdrop : cs.dropWhile isWhitespace with
    | nil => rfl
    | cons c rest =>
        have hnot := List.head?_dropWhile_not isWhitespace cs
        have hblank := hrest c (by simp [hdrop])
        simp [hdrop, hblank] at hnot
  exact forall_of_dropWhile_nil hnil

theorem trimChars_blank_append {blank : List Char} (h : ∀ c ∈ blank, isWhitespace c = true)
    (cs : List Char) : trimChars (blank ++ cs) = trimChars cs := by
  induction blank with
  | nil => rfl
  | cons c blank ih =>
      rw [List.cons_append, trimChars_cons_of_pos (h c List.mem_cons_self)]
      exact ih fun d hd => h d (List.mem_cons_of_mem _ hd)

/-- A trimmed text does not end in white space. -/
theorem getLast?_trimChars {cs : List Char} {c : Char} (h : (trimChars cs).getLast? = some c) :
    isWhitespace c = false := by
  have hnot := List.head?_dropWhile_not isWhitespace (cs.dropWhile isWhitespace).reverse
  rw [trimChars, List.getLast?_reverse] at h
  rw [h] at hnot
  simpa using hnot

/-- Nothing is trimmed behind a text that does not end in white space. -/
theorem trimChars_eq_dropWhile {cs : List Char}
    (h : ∀ c, cs.getLast? = some c → isWhitespace c = false) :
    trimChars cs = cs.dropWhile isWhitespace := by
  unfold trimChars
  cases hback : (cs.dropWhile isWhitespace).reverse with
  | nil =>
      rw [List.reverse_eq_nil_iff] at hback
      rw [hback]
      rfl
  | cons c back =>
      have hlast : (cs.dropWhile isWhitespace).getLast? = some c := by
        rw [← List.head?_reverse, hback]
        rfl
      have hend : cs.getLast? = some c := by
        have hsplit := List.takeWhile_append_dropWhile (p := isWhitespace) (l := cs)
        rw [← hsplit, List.getLast?_append, hlast]
        rfl
      have hc := h c hend
      rw [List.dropWhile_cons_of_neg (by simp [hc]), ← hback, List.reverse_reverse]

/-- What follows the front of a trimmed text is white space and its own trimmed part. -/
theorem blank_before_trimChars {front rest cs : List Char} (h : trimChars cs = front ++ rest) :
    ∃ blank, rest = blank ++ trimChars rest ∧ ∀ c ∈ blank, isWhitespace c = true := by
  have hlast : ∀ c, rest.getLast? = some c → isWhitespace c = false := by
    intro c hc
    have hend : (trimChars cs).getLast? = some c := by
      rw [h, List.getLast?_append, hc]
      rfl
    exact getLast?_trimChars hend
  refine ⟨rest.takeWhile isWhitespace, ?_, ?_⟩
  · rw [trimChars_eq_dropWhile hlast, List.takeWhile_append_dropWhile]
  · intro c hc
    exact List.mem_takeWhile_imp hc

/-- Trimming a second time finds nothing more to take away. -/
theorem trim_trim_eq_empty {s : String} : trim (trim s) = "" ↔ trim s = "" := by
  constructor
  · intro h
    have hnil : trimChars (trimChars s.toList) = [] := by simpa [trim] using h
    have hblank := isWhitespace_of_trimChars_nil hnil
    cases hlast : (trimChars s.toList).getLast? with
    | none => rw [trim, List.getLast?_eq_none_iff.mp hlast]
    | some c =>
        have hc := hblank c (List.mem_of_getLast? hlast)
        rw [getLast?_trimChars hlast] at hc
        cases hc
  · intro h
    rw [h]
    rfl

/-- `str::split` on one character; the empty string has one empty part. -/
def split (sep : Char) (s : String) : List String :=
  (s.toList.splitOn sep).map String.ofList

theorem split_append_cons (sep : Char) (xs ys : List Char) :
    split sep (String.ofList (xs ++ sep :: ys)) =
      split sep (String.ofList xs) ++ split sep (String.ofList ys) := by
  simp only [split, String.toList_ofList, List.splitOn_append_cons_self, List.map_append]

theorem split_of_notMem {sep : Char} {s : String} (h : sep ∉ s.toList) : split sep s = [s] := by
  simp [split, List.splitOn_eq_singleton h]

/-- The parts of a blank text are blank. -/
theorem trim_split_blank {sep : Char} (hsep : isWhitespace sep = false) {s : String}
    (h : trim s = "") : (split sep s).map trim = [""] := by
  have hnil : trimChars s.toList = [] := by simpa [trim] using h
  have hmem : sep ∉ s.toList := by
    intro hin
    have hblank := isWhitespace_of_trimChars_nil hnil sep hin
    rw [hsep] at hblank
    cases hblank
  rw [split_of_notMem hmem, List.map_singleton, h]

/-- `str::split_once`, of characters or of bytes. -/
def splitOnce {A : Type} [DecidableEq A] (sep : A) : List A → Option (List A × List A)
  | [] => none
  | a :: rest =>
    if a = sep then some ([], rest) else (splitOnce sep rest).map fun cut => (a :: cut.1, cut.2)

section SplitOnce
variable {A : Type} [DecidableEq A] {sep : A}

theorem splitOnce_append {front : List A} (h : sep ∉ front) (rest : List A) :
    splitOnce sep (front ++ sep :: rest) = some (front, rest) := by
  induction front with
  | nil => simp [splitOnce]
  | cons a front ih =>
      obtain ⟨hne, hfront⟩ : sep ≠ a ∧ sep ∉ front := by simpa using h
      rw [List.cons_append, splitOnce, if_neg (Ne.symm hne), ih hfront]
      rfl

theorem splitOnce_eq_some {text front rest : List A} (h : splitOnce sep text = some (front, rest)) :
    text = front ++ sep :: rest := by
  induction text generalizing front with
  | nil => cases h
  | cons a text ih =>
      unfold splitOnce at h
      split_ifs at h with hsep
      · cases h
        rw [hsep]
        rfl
      · obtain ⟨⟨before, after⟩, hcut, hpair⟩ := Option.map_eq_some_iff.mp h
        cases hpair
        rw [ih hcut]
        rfl

end SplitOnce

/-- `str::strip_prefix`. -/
def stripPrefix (start : String) (cs : List Char) : Option (List Char) :=
  if start.toList.isPrefixOf cs then some (cs.drop start.toList.length) else none

theorem stripPrefix_eq_some_iff {start : String} {cs rest : List Char} :
    stripPrefix start cs = some rest ↔ cs = start.toList ++ rest := by
  unfold stripPrefix
  constructor
  · intro h
    split_ifs at h with hfront
    obtain ⟨tail, rfl⟩ := List.isPrefixOf_iff_prefix.mp hfront
    rw [List.drop_left, Option.some.injEq] at h
    rw [h]
  · rintro rfl
    have hfront : start.toList.isPrefixOf (start.toList ++ rest) = true :=
      List.isPrefixOf_iff_prefix.mpr (List.prefix_append _ _)
    rw [if_pos hfront, List.drop_left]

theorem stripPrefix_append (start : String) (cs : List Char) :
    stripPrefix start (start.toList ++ cs) = some cs :=
  stripPrefix_eq_some_iff.mpr rfl

theorem digit_of_mem_repr {n : ℕ} {c : Char} (h : c ∈ n.repr.toList) :
    48 ≤ c.toNat ∧ c.toNat ≤ 57 := by
  rw [Nat.toList_repr] at h
  have hdigit := Nat.isDigit_of_mem_toDigits (by decide) (by decide) h
  simpa [Char.isDigit, UInt32.le_iff_toNat_le] using hdigit

theorem repr_inj {m n : ℕ} (h : m.repr = n.repr) : m = n := by
  have hdigits := congrArg String.toList h
  rw [Nat.toList_repr, Nat.toList_repr] at hdigits
  rw [← Nat.ofDigitChars_ten_toDigits (n := m), hdigits, Nat.ofDigitChars_ten_toDigits]

theorem repr_ne_minus (m n : ℕ) : m.repr ≠ "-" ++ n.repr := by
  intro h
  have hminus : '-' ∈ m.repr.toList := by simp [h]
  exact absurd (digit_of_mem_repr hminus).1 (by decide)

/-- Different integers are written differently. -/
theorem toString_inj {m n : ℤ} (h : toString m = toString n) : m = n := by
  cases m with
  | ofNat m =>
      cases n with
      | ofNat n => rw [repr_inj h]
      | negSucc n => exact absurd h (repr_ne_minus m (n + 1))
  | negSucc m =>
      cases n with
      | ofNat n => exact absurd h.symm (repr_ne_minus n (m + 1))
      | negSucc n =>
          have hdigits : (m + 1).repr = (n + 1).repr := (String.append_right_inj "-").mp h
          rw [Nat.succ.inj (repr_inj hdigits)]

/-- `char::to_digit` for a radix of at most sixteen. -/
def toDigit (radix : ℕ) (c : Char) : Option ℕ :=
  let n := c.toNat
  let d := if 48 ≤ n ∧ n ≤ 57 then n - 48
    else if 97 ≤ n ∧ n ≤ 102 then n - 87
    else if 65 ≤ n ∧ n ≤ 70 then n - 55
    else radix
  if d < radix then some d else none

/-- Digits to their value, most significant first; `none` on any other character. -/
def digitsValue (radix : ℕ) (cs : List Char) : Option ℕ :=
  cs.foldlM (fun n c => (toDigit radix c).map (radix * n + ·)) 0

def i64Min : ℤ := -9223372036854775808
def i64Max : ℤ := 9223372036854775807

/-- `str::parse::<i64>`: an optional sign, at least one decimal digit, in range. -/
def parseI64 (s : String) : Option ℤ :=
  let (negative, digits) := match s.toList with
    | '+' :: cs => (false, cs)
    | '-' :: cs => (true, cs)
    | cs => (false, cs)
  if digits.isEmpty then none else do
    let n ← digitsValue 10 digits
    let value : ℤ := if negative then -n else n
    if i64Min ≤ value ∧ value ≤ i64Max then some value else none

/-- `str::parse::<u64>`, also `usize` on a 64-bit machine. -/
def parseU64 (s : String) : Option ℕ :=
  let digits := match s.toList with
    | '+' :: cs => cs
    | cs => cs
  if digits.isEmpty then none else do
    let n ← digitsValue 10 digits
    if n ≤ 18446744073709551615 then some n else none

example : parseI64 "-9223372036854775808" = some i64Min := by decide
example : parseI64 "9223372036854775808" = none := by decide

end SimplyIpExporter.RustText
