import SimplyIpExporter.PercentEncoding
import SimplyIpExporter.SecretsAtRest
import SimplyIpExporter.VaultClient

/-!
# The query of a fetch

The group list of an endpoint is free text. `fetch_ips` puts it into the query of every
page it asks for, on three paths. Whatever the text is, the query reads as the parameters
that were meant and nothing else: names and numbers are their own encodings, so that the
concatenated text is the query that is built from the parameters.
-/
namespace SimplyIpExporter.IpsQueries
open RustText Entities VaultClient PercentEncoding

theorem isUnreserved_plain {b : UInt8} (h : isUnreserved b = true) :
    b.toNat < 128 ∧ Char.ofNat b.toNat ∉ '%' :: delimiters := by
  have hall : ∀ n < 256, isUnreserved (UInt8.ofNat n) = true →
      n < 128 ∧ Char.ofNat n ∉ '%' :: delimiters := by
    decide +kernel
  apply hall b.toNat b.toNat_lt
  rwa [UInt8.ofNat_toNat]

def urlEscaping : Escaping where
  keep := isUnreserved
  digit := upperHexDigit
  ascii _ h := (isUnreserved_plain h).1
  plain _ h := (isUnreserved_plain h).2
  reads := by decide

theorem toList_urlencode (raw : String) : (urlencode raw).toList = urlEscaping.encode (utf8 raw) :=
  String.toList_ofList

/-- What `urlencode` makes of a text. -/
structure Escaped (raw : String) : Prop where
  decoded : decode (urlencode raw).toList = utf8 raw
  plain : ∀ c ∈ (urlencode raw).toList, c ∉ ['&', '=', '#', '+', '?', ' ']
  percent : ∀ front back, (urlencode raw).toList = front ++ '%' :: back →
    ∃ c d rest, back = c :: d :: rest ∧ (toDigit 16 c).isSome ∧ (toDigit 16 d).isSome

theorem urlencode_escaped (raw : String) : Escaped raw where
  decoded := by rw [toList_urlencode, decode_encode]
  plain c hc := by
    rw [toList_urlencode] at hc
    exact not_delimiter_of_mem_encode hc
  percent front back h := by
    rw [toList_urlencode] at h
    exact digits_of_percent h

def isPlainChar (c : Char) : Bool := decide (c.toNat < 128) && isUnreserved (UInt8.ofNat c.toNat)

theorem encode_plain {s : String} (h : s.toList.all isPlainChar = true) :
    urlEscaping.encode (utf8 s) = s.toList := by
  have hchars : ∀ c ∈ s.toList, c.toNat < 128 ∧ urlEscaping.keep (UInt8.ofNat c.toNat) = true := by
    intro c hc
    have hplain := List.all_eq_true.mp h c hc
    rw [isPlainChar, Bool.and_eq_true, decide_eq_true_iff] at hplain
    exact hplain
  have hencode := encode_kept hchars
  rwa [← utf8_ofList, String.ofList_toList] at hencode

theorem encode_toString (n : ℕ) : urlEscaping.encode (utf8 (toString n)) = (toString n).toList := by
  apply encode_plain
  rw [List.all_eq_true]
  intro c hc
  have hrange := digit_of_mem_repr hc
  have hall : ∀ n, n ≤ 57 → 48 ≤ n → isUnreserved (UInt8.ofNat n) = true := by decide
  rw [isPlainChar, Bool.and_eq_true, decide_eq_true_iff]
  exact ⟨by omega, hall _ hrange.2 hrange.1⟩

/-- What a page request is meant to say. -/
def ipsParameters (groups : String) (since : Option NaiveDateTime) (r : PageRequest) :
    List (String × String) :=
  ("groups", groups) :: (since.elim [] fun t =>
      [("since", toString (timestamp t)), ("include_deleted", "true")]) ++
    (if r.includeTotal then [("include_total", "true")] else []) ++
    [("limit", toString r.limit), ("offset", toString r.offset)]

/-- The characters after the first `?`. -/
def queryChars (path : String) : List Char := (path.toList.dropWhile (· != '?')).drop 1

def parameterText (p : Parameter) : Option (String × String) :=
  (SecretsAtRest.fromUtf8 p.1).bind fun name =>
    (SecretsAtRest.fromUtf8 p.2).map fun value => (name, value)

/-- The parameters of a path as text. -/
def readPath (path : String) : Option (List (String × String)) :=
  (read (queryChars path)).mapM parameterText

def parameterBytes (p : String × String) : Parameter := (utf8 p.1, utf8 p.2)

theorem parameterText_parameterBytes (p : String × String) :
    parameterText (parameterBytes p) = some p := by
  rw [parameterText, parameterBytes, SecretsAtRest.fromUtf8_utf8, SecretsAtRest.fromUtf8_utf8]
  rfl

theorem mapM_parameterText (ps : List (String × String)) :
    (ps.map parameterBytes).mapM parameterText = some ps := by
  induction ps with
  | nil => rfl
  | cons p ps ih =>
      rw [List.map_cons, List.mapM_cons, parameterText_parameterBytes, ih]
      rfl

theorem parameter_eq (name : String) (h : name.toList.all isPlainChar = true) (value : String) :
    urlEscaping.parameter (parameterBytes (name, value)) =
      name.toList ++ '=' :: urlEscaping.encode (utf8 value) := by
  rw [Escaping.parameter, parameterBytes, encode_plain h]

/-- The text that `fetch_ips` puts together is the one built from the parameters. -/
theorem path_eq (groups : String) (since : Option NaiveDateTime) {r : PageRequest}
    (hbase : r.base = ipsBase groups since) :
    r.path.toList = "/api/ips".toList ++
      '?' :: urlEscaping.build ((ipsParameters groups since r).map parameterBytes) := by
  have hgroups := parameter_eq "groups" (by decide) groups
  have hdeleted := parameter_eq "include_deleted" (by decide) "true"
  have htotal := parameter_eq "include_total" (by decide) "true"
  have hlimit := parameter_eq "limit" (by decide) (toString r.limit)
  have hoffset := parameter_eq "offset" (by decide) (toString r.offset)
  rw [encode_plain (by decide)] at hdeleted htotal
  rw [encode_toString] at hlimit hoffset
  unfold PageRequest.path
  rw [hbase]
  unfold ipsBase ipsParameters
  generalize toString r.limit = limit at hlimit ⊢
  generalize toString r.offset = offset at hoffset ⊢
  cases since with
  | none =>
      cases r.includeTotal <;>
        simp [Escaping.build, toList_urlencode, hgroups, htotal, hlimit, hoffset]
  | some t =>
      have hsince := parameter_eq "since" (by decide) (toString (timestamp t))
      rw [Option.elim_some, Option.elim_some]
      generalize toString (timestamp t) = seconds at hsince ⊢
      cases r.includeTotal <;>
        simp [Escaping.build, toList_urlencode, hgroups, hsince, hdeleted, htotal, hlimit, hoffset]

/-- A request that carries the meant parameters, each of them once. -/
structure CarriesOnce (groups : String) (since : Option NaiveDateTime) (r : PageRequest) :
    Prop where
  parameters : readPath r.path = some (ipsParameters groups since r)
  once : ((ipsParameters groups since r).map Prod.fst).Nodup

theorem carriesOnce_of_base {groups : String} {since : Option NaiveDateTime} {r : PageRequest}
    (hbase : r.base = ipsBase groups since) : CarriesOnce groups since r where
  parameters := by
    have hfront : ∀ c ∈ "/api/ips".toList, (c != '?') = true := by simp
    have hquery : queryChars r.path =
        urlEscaping.build ((ipsParameters groups since r).map parameterBytes) := by
      rw [queryChars, path_eq groups since hbase, List.dropWhile_append_of_pos hfront]
      rfl
    have hsome : (ipsParameters groups since r).map parameterBytes ≠ [] := by simp [ipsParameters]
    rw [readPath, hquery, read_build hsome, mapM_parameterText]
  once := by
    unfold ipsParameters
    cases since <;> cases r.includeTotal <;> simp

section Requests
variable {server : Server} {pageSize : ℕ} {base : String}

/-- Every page a fetch asks for has its base and its page size. -/
def Asks (base : String) (pageSize : ℕ) (r : PageRequest) : Prop :=
  r.base = base ∧ r.limit = pageSize

theorem pageAt_asks (offset : ℕ) : Asks base pageSize (pageAt base pageSize offset) := ⟨rfl, rfl⟩

theorem walk_asks (budget offset : ℕ) (all : List VaultApiRecord) (sent : List PageRequest)
    (h : ∀ r ∈ sent, Asks base pageSize r) :
    ∀ r ∈ (walk server pageSize base budget offset all sent).2, Asks base pageSize r := by
  induction budget generalizing offset all sent with
  | zero => exact h
  | succ budget ih =>
      have hsent : ∀ r ∈ sent ++ [pageAt base pageSize offset], Asks base pageSize r := by
        simpa [or_imp, forall_and] using ⟨h, pageAt_asks offset⟩
      unfold walk
      dsimp only
      split
      · exact hsent
      · split
        · exact hsent
        · exact ih _ _ _ hsent

theorem fetchSequentially_asks (already : List VaultApiRecord) {sent : List PageRequest}
    (h : ∀ r ∈ sent, Asks base pageSize r) :
    ∀ r ∈ (fetchSequentially server pageSize base already sent).2, Asks base pageSize r := by
  unfold fetchSequentially
  split_ifs
  · exact walk_asks _ _ _ _ h
  · exact walk_asks _ _ _ _ h
  · exact h

theorem fetchRemainingPagesInParallel_asks (pick : ℕ → ℕ) (data : List VaultApiRecord)
    (totalPages : ℕ) {sent : List PageRequest} (h : ∀ r ∈ sent, Asks base pageSize r) :
    ∀ r ∈ (fetchRemainingPagesInParallel server pick pageSize base data totalPages sent).2,
      Asks base pageSize r := by
  unfold fetchRemainingPagesInParallel
  dsimp only
  split_ifs
  · exact h
  · intro r hr
    obtain hr | hr := List.mem_append.mp hr
    · exact h r hr
    · obtain ⟨offset, -, rfl⟩ := List.mem_map.mp hr
      exact pageAt_asks offset

theorem fetchIps_asks (server : Server) (pick : ℕ → ℕ) (pageSize : ℕ) (groups : String)
    (since : Option NaiveDateTime) :
    ∀ r ∈ (fetchIps server pick pageSize groups since).2, Asks
      (ipsBase groups since) pageSize r := by
  have hfirst : ∀ r ∈ [(⟨ipsBase groups since, true, pageSize, 0⟩ : PageRequest)],
      Asks (ipsBase groups since) pageSize r := by
    intro r hr
    rw [List.mem_singleton] at hr
    rw [hr]
    exact ⟨rfl, rfl⟩
  unfold fetchIps
  dsimp only
  split
  · exact fetchRemainingPagesInParallel_asks pick _ _ hfirst
  · exact fetchSequentially_asks _ hfirst
  · exact fetchSequentially_asks _ hfirst
  · exact hfirst

end Requests

/-- For every group list, every `since` and every page: the query reads as the parameters
that were meant. This holds of whatever the fetch sends, to a server that answers as it
likes; and the group list is escaped so that nothing in it can end its parameter. -/
theorem group_names_cannot_inject (groups : String) (since : Option NaiveDateTime) :
    (∀ includeTotal limit offset,
      CarriesOnce groups since ⟨ipsBase groups since, includeTotal, limit, offset⟩) ∧
    (∀ server pick pageSize, ∀ r ∈ (fetchIps server pick pageSize groups since).2,
      r.limit = pageSize ∧ CarriesOnce groups since r) ∧
    Escaped groups := by
  refine ⟨fun _ _ _ => carriesOnce_of_base rfl, ?_, urlencode_escaped groups⟩
  intro server pick pageSize r hr
  obtain ⟨hbase, hlimit⟩ := fetchIps_asks server pick pageSize groups since r hr
  exact ⟨hlimit, carriesOnce_of_base hbase⟩

end SimplyIpExporter.IpsQueries
