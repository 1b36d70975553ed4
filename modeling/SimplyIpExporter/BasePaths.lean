import Mathlib.Data.List.DropRight
import Mathlib.Data.List.Infix

/-!
# The base path that is signed

The login form of the admin page takes a base path, which is put in front of every path
that the page signs. `normalizeBasePath` trims the text once, then takes the slashes off
both ends once, and puts one in front. Its comment promises one leading slash, no trailing
one, and that a second pass changes nothing.

A text of slashes only leaves nothing behind the slash put in front; and white space that
stood before trailing slashes is at the end once they are gone, where the next pass finds
it.
-/
namespace SimplyIpExporter.BasePaths

section Strip
variable {A : Type} {p : A → Bool} {xs : List A}

def strip (p : A → Bool) (xs : List A) : List A := (xs.dropWhile p).rdropWhile p

theorem head?_dropWhile {x : A} (h : (xs.dropWhile p).head? = some x) : p x = false := by
  have hnot := List.head?_dropWhile_not p xs
  rw [h] at hnot
  simpa using hnot

theorem head?_strip {x : A} (h : (strip p xs).head? = some x) : p x = false := by
  obtain ⟨rest, hrest⟩ := List.rdropWhile_prefix p (l := xs.dropWhile p)
  apply head?_dropWhile
  rw [← hrest, List.head?_append]
  exact Option.or_eq_some_iff.mpr (.inl h)

theorem getLast?_strip {x : A} (h : (strip p xs).getLast? = some x) : p x = false := by
  have hne : strip p xs ≠ [] := by
    intro hnil
    rw [hnil] at h
    cases h
  have hlast := List.rdropWhile_last_not p (xs.dropWhile p) hne
  rw [List.getLast?_eq_some_getLast hne, Option.some.injEq] at h
  rw [← h]
  exact Bool.eq_false_iff.mpr hlast

theorem strip_eq_nil_iff : strip p xs = [] ↔ ∀ x ∈ xs, p x = true := by
  rw [strip, List.rdropWhile_eq_nil_iff, ← List.dropWhile_eq_nil_iff, List.dropWhile_idempotent,
    List.dropWhile_eq_nil_iff]

theorem strip_eq_self (hhead : ∀ x, xs.head? = some x → p x = false)
    (hlast : ∀ x, xs.getLast? = some x → p x = false) : strip p xs = xs := by
  have hdrop : xs.dropWhile p = xs := by
    cases xs with
    | nil => rfl
    | cons x rest => exact List.dropWhile_cons_of_neg (by simp [hhead x rfl])
  rw [strip, hdrop, List.rdropWhile_eq_self_iff]
  intro hne
  have hx := hlast _ (List.getLast?_eq_some_getLast hne)
  simp [hx]

/-- One pass leaves nothing for a second one of the same kind. -/
theorem strip_strip : strip p (strip p xs) = strip p xs :=
  strip_eq_self (fun _ => head?_strip) fun _ => getLast?_strip

theorem strip_cons_of_pos {x : A} (h : p x = true) : strip p (x :: xs) = strip p xs := by
  rw [strip, List.dropWhile_cons_of_pos h, strip]

theorem length_strip_le : (strip p xs).length ≤ xs.length :=
  le_trans (List.rdropWhile_prefix p _).length_le (List.dropWhile_suffix p).length_le

theorem rdropWhile_cons_of_neg {x : A} (h : p x = false) :
    (x :: xs).rdropWhile p = x :: xs.rdropWhile p := by
  induction xs using List.reverseRecOn with
  | nil => simp [List.rdropWhile_singleton, h]
  | append_singleton xs y ih =>
      rw [← List.cons_append, List.rdropWhile_concat, List.rdropWhile_concat, ih]
      split <;> rfl

end Strip

/-- A string of the page, as its code units. -/
abbrev JsString := List UInt16

/-- The code units of a text without characters beyond the basic plane. -/
def units (s : String) : JsString := s.toList.map fun c => UInt16.ofNat c.toNat

def slash : UInt16 := 47

/-- What `String.prototype.trim` takes for white space, line ends included. -/
def isSpace (u : UInt16) : Bool :=
  let n := u.toNat
  (9 ≤ n && n ≤ 13) || n == 0x20 || n == 0xA0 || n == 0x1680 || (0x2000 ≤ n && n ≤ 0x200A) ||
    n == 0x2028 || n == 0x2029 || n == 0x202F || n == 0x205F || n == 0x3000 || n == 0xFEFF

def isSlash (u : UInt16) : Bool := u == slash

def trim (s : JsString) : JsString := strip isSpace s

/-- The regular expressions `^\/+` and `\/+$` match the slashes at either end. -/
def normalizeBasePath (raw : JsString) : JsString :=
  let trimmed := trim raw
  if trimmed.isEmpty then []
  else slash :: (trimmed.dropWhile isSlash).rdropWhile isSlash

/-- The items that the page keeps in the session storage. -/
structure Session where
  apiKey : Option JsString
  signingSecret : Option JsString
  apiBase : Option JsString

def Session.empty : Session := ⟨none, none, none⟩

def Session.apiBaseOverride (s : Session) : JsString := s.apiBase.getD []

inductive Operation where
  | set (apiKey signingSecret : JsString)
  | setApiBaseOverride (raw : JsString)
  | clear

def Session.step (s : Session) : Operation → Session
  | .set apiKey signingSecret =>
    { s with apiKey := some apiKey, signingSecret := some signingSecret }
  | .setApiBaseOverride raw =>
    let normalized := normalizeBasePath raw
    if normalized.isEmpty then { s with apiBase := none } else { s with apiBase := some normalized }
  | .clear => { s with apiKey := none, signingSecret := none }

def run (ops : List Operation) : Session := ops.foldl Session.step .empty

/-- The target that `apiCall` signs. -/
def signTarget (s : Session) (path : JsString) : JsString := s.apiBaseOverride ++ path

/-- The first segment of a target that begins with a slash. -/
def firstSegment (target : JsString) : JsString := (target.drop 1).takeWhile fun u => !isSlash u

/-- What `normalizeBasePath` puts behind its slash. -/
def inner (raw : JsString) : JsString := strip isSlash (trim raw)

section Passes
variable {raw s : JsString}

theorem normalizeBasePath_blank (h : trim raw = []) : normalizeBasePath raw = [] := by
  unfold normalizeBasePath
  rw [h]
  rfl

theorem normalizeBasePath_eq (h : trim raw ≠ []) : normalizeBasePath raw = slash :: inner raw := by
  unfold normalizeBasePath
  dsimp only
  rw [if_neg (by simpa using h)]
  rfl

/-- A pass over text behind a slash sees the white space at its end, and then the
slashes. -/
theorem normalizeBasePath_slash :
    normalizeBasePath (slash :: s) = slash :: strip isSlash (s.rdropWhile isSpace) := by
  have htrim : trim (slash :: s) = slash :: s.rdropWhile isSpace := by
    rw [trim, strip, List.dropWhile_cons_of_neg (by decide), rdropWhile_cons_of_neg (by decide)]
  have hne : trim (slash :: s) ≠ [] := by
    rw [htrim]
    exact List.cons_ne_nil _ _
  rw [normalizeBasePath_eq hne, inner, htrim, strip_cons_of_pos (by decide)]

theorem inner_of_blank (h : trim raw = []) : inner raw = [] := by
  rw [inner, h]
  rfl

/-- A second pass changes nothing exactly when the first has not moved white space to
the end. -/
theorem normalizeBasePath_again_iff :
    normalizeBasePath (normalizeBasePath raw) = normalizeBasePath raw ↔
      ∀ u, (inner raw).getLast? = some u → isSpace u = false := by
  by_cases hblank : trim raw = []
  · rw [normalizeBasePath_blank hblank, inner_of_blank hblank]
    exact iff_of_true rfl nofun
  · rw [normalizeBasePath_eq hblank, normalizeBasePath_slash, List.cons.injEq]
    constructor
    · rintro ⟨-, hsame⟩ u hu
      have hlength : (inner raw).length ≤ ((inner raw).rdropWhile isSpace).length := by
        calc (inner raw).length = (strip isSlash ((inner raw).rdropWhile isSpace)).length := by
              rw [hsame]
          _ ≤ _ := length_strip_le
      have hself := (List.rdropWhile_prefix isSpace _).eq_of_length_le hlength
      rw [List.rdropWhile_eq_self_iff] at hself
      have hne : inner raw ≠ [] := by
        intro hnil
        rw [hnil] at hu
        cases hu
      have hlast := hself hne
      rw [List.getLast?_eq_some_getLast hne, Option.some.injEq] at hu
      rw [← hu]
      simpa using hlast
    · intro hlast
      have hself : (inner raw).rdropWhile isSpace = inner raw := by
        rw [List.rdropWhile_eq_self_iff]
        intro hne
        simp [hlast _ (List.getLast?_eq_some_getLast hne)]
      rw [hself]
      exact ⟨rfl, strip_strip⟩

/-- Nothing, or one leading slash and no trailing one. -/
def Shaped (s : JsString) : Prop :=
  s = [] ∨ (∃ rest, s = slash :: rest ∧ rest.head? ≠ some slash) ∧ s.getLast? ≠ some slash

/-- The trimmed text is made of slashes. -/
def SlashesOnly (raw : JsString) : Prop := trim raw ≠ [] ∧ ∀ u ∈ trim raw, isSlash u = true

theorem not_slash_of_head {u : UInt16} (h : (inner raw).head? = some u) : u ≠ slash := by
  intro heq
  have hnot := head?_strip h
  rw [heq] at hnot
  cases hnot

theorem not_slash_of_last {u : UInt16} (h : (inner raw).getLast? = some u) : u ≠ slash := by
  intro heq
  have hnot := getLast?_strip h
  rw [heq] at hnot
  cases hnot

/-- The three kinds of text: blank, slashes, and one with something between its slashes. -/
theorem normalizeBasePath_cases (raw : JsString) :
    (normalizeBasePath raw = [] ∧ ¬ SlashesOnly raw) ∨
    (normalizeBasePath raw = [slash] ∧ SlashesOnly raw) ∨
    (normalizeBasePath raw = slash :: inner raw ∧ inner raw ≠ [] ∧ ¬ SlashesOnly raw) := by
  by_cases hblank : trim raw = []
  · exact .inl ⟨normalizeBasePath_blank hblank, fun hslashes => hslashes.1 hblank⟩
  · have hinner : inner raw = [] ↔ ∀ u ∈ trim raw, isSlash u = true := strip_eq_nil_iff
    rw [normalizeBasePath_eq hblank]
    by_cases hnil : inner raw = []
    · exact .inr (.inl ⟨by rw [hnil], hblank, hinner.mp hnil⟩)
    · exact .inr (.inr ⟨rfl, hnil, fun hslashes => hnil (hinner.mpr hslashes.2)⟩)

theorem shaped_iff : Shaped (normalizeBasePath raw) ↔ ¬ SlashesOnly raw := by
  obtain ⟨hout, hnot⟩ | ⟨hout, hslashes⟩ | ⟨hout, hne, hnot⟩ := normalizeBasePath_cases raw
  · rw [hout]
    exact iff_of_true (.inl rfl) hnot
  · rw [hout]
    refine iff_of_false ?_ (not_not.mpr hslashes)
    rintro (hnil | ⟨-, hlast⟩)
    · cases hnil
    · exact hlast rfl
  · rw [hout]
    refine iff_of_true (.inr ⟨⟨inner raw, rfl, ?_⟩, ?_⟩) hnot
    · exact fun hhead => not_slash_of_head hhead rfl
    · intro hlast
      rw [List.getLast?_cons_of_ne_nil hne] at hlast
      exact not_slash_of_last hlast rfl

theorem firstSegment_iff {path : JsString} (hpath : units "/api" <+: path) :
    firstSegment (normalizeBasePath raw ++ path) ≠ [] ↔ ¬ SlashesOnly raw := by
  obtain ⟨rest, rfl⟩ := hpath
  obtain ⟨hout, hnot⟩ | ⟨hout, hslashes⟩ | ⟨hout, hne, hnot⟩ := normalizeBasePath_cases raw
  · rw [hout]
    exact iff_of_true (List.cons_ne_nil _ _) hnot
  · rw [hout]
    exact iff_of_false (fun hsegment => hsegment rfl) (not_not.mpr hslashes)
  · rw [hout]
    refine iff_of_true ?_ hnot
    cases hinner : inner raw with
    | nil => exact absurd hinner hne
    | cons u tail =>
        have hhead : (inner raw).head? = some u := by rw [hinner]; rfl
        have hu : (!isSlash u) = true := by rw [head?_strip hhead]; rfl
        change (u :: (tail ++ _)).takeWhile _ ≠ []
        rw [List.takeWhile_cons, if_pos hu]
        exact List.cons_ne_nil _ _

end Passes

def typed (raw : JsString) : Operation → JsString
  | .setApiBaseOverride raw => raw
  | .set _ _ | .clear => raw

/-- The text given last, or none. -/
def lastTyped (ops : List Operation) : JsString := ops.foldl typed []

theorem step_override {s : Session} {raw : JsString} (h : s.apiBaseOverride = normalizeBasePath raw)
    (op : Operation) : (s.step op).apiBaseOverride = normalizeBasePath (typed raw op) := by
  cases op with
  | set apiKey signingSecret => exact h
  | setApiBaseOverride raw =>
      unfold Session.step typed
      dsimp only
      split_ifs with hempty
      · rw [List.isEmpty_iff.mp hempty]
        rfl
      · rfl
  | clear => exact h

/-- The base path in use is the normal form of what was given last; a logout keeps it. -/
theorem run_override (ops : List Operation) :
    (run ops).apiBaseOverride = normalizeBasePath (lastTyped ops) := by
  induction ops using List.reverseRecOn with
  | nil => rfl
  | append_singleton ops op ih =>
      unfold run lastTyped
      rw [List.foldl_append, List.foldl_append]
      exact step_override ih op

/-- What the comment says of `normalizeBasePath`, and what `apiCall` makes of it. -/
structure Contract (raw : JsString) : Prop where
  shaped : Shaped (normalizeBasePath raw)
  stable : normalizeBasePath (normalizeBasePath raw) = normalizeBasePath raw
  target : ∀ (ops : List Operation) (path : JsString), lastTyped ops = raw → units "/api" <+: path →
    firstSegment (signTarget (run ops) path) ≠ []

/-- The text is not all slashes, and no white space stands before its trailing slashes. -/
structure Regular (raw : JsString) : Prop where
  notSlashes : ¬ SlashesOnly raw
  noBlankEnd : ∀ u, (inner raw).getLast? = some u → isSpace u = false

theorem base_path_contract_iff (raw : JsString) : Contract raw ↔ Regular raw := by
  constructor
  · intro hcontract
    exact ⟨shaped_iff.mp hcontract.shaped, normalizeBasePath_again_iff.mp hcontract.stable⟩
  · intro hregular
    refine ⟨shaped_iff.mpr hregular.notSlashes,
      normalizeBasePath_again_iff.mpr hregular.noBlankEnd, ?_⟩
    intro ops path htyped hpath
    rw [signTarget, run_override, htyped]
    exact (firstSegment_iff hpath).mpr hregular.notSlashes

/-- A lone slash stays, ends in a slash and makes the signed target begin with two; a
path with a blank before its trailing slash is changed by a second pass. -/
theorem base_path_contract_broken :
    normalizeBasePath (units "/") = units "/" ∧ ¬ Shaped (normalizeBasePath (units "/")) ∧
    signTarget (run [.setApiBaseOverride (units "/")]) (units "/api/auth/me") =
      units "//api/auth/me" ∧
    firstSegment (signTarget (run [.setApiBaseOverride (units "/")]) (units "/api/auth/me")) = [] ∧
    normalizeBasePath (units "a /") = units "/a " ∧
    normalizeBasePath (normalizeBasePath (units "a /")) = units "/a" := by
  refine ⟨by decide, ?_, by decide, by decide, by decide, by decide⟩
  rintro (hnil | ⟨-, hlast⟩)
  · exact absurd hnil (by decide)
  · exact absurd rfl hlast

end SimplyIpExporter.BasePaths
