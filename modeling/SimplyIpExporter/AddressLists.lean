import SimplyIpExporter.AddressEntries
import SimplyIpExporter.NetworkBindings

/-!
# Two parsers of one list

`parse_bound_ips` returns at the first entry that it cannot use, while
`parse_trusted_proxies` goes on and collects all of them. Both are the same check made
on the same entries, so that one keeps what the other keeps, and the message of the
first is about the head of the list that the second reports.
-/
namespace SimplyIpExporter.AddressLists
open IpAddresses Entities BoundIps NetworkBindings AddressEntries ListChecks

def asBoundIpEntry : ProxyMatcher → BoundIpEntry
  | .network net => .network net
  | .hostname name => .hostname name

/-- The message that a `bound_ips` value with such an entry gets. -/
def report (crates : Crates) (invalid : InvalidProxyEntry) : String :=
  s!"Invalid entry in bound_ips: {crates.debugText invalid.entry} is not a " ++
    s!"CIDR range, IP address, or valid hostname ({invalid.reason})"

/-- An entry that is no network, no address and no host name. -/
def rejected (crates : Crates) (entry : String) : Bool :=
  (crates.parseNet entry).isNone && (parseIpAddr entry).isNone && (hostnameRejection entry).isSome

section Entry
variable {crates : Crates} {entry : String}

/-- The two parsers try the same spellings in the same order: both keep an entry, or both
reject it for the same reason. -/
theorem parse_cases (crates : Crates) (entry : String) :
    (∃ m, parseProxyEntry crates entry = .ok m ∧ parseEntry crates entry = .ok (asBoundIpEntry m) ∧
      rejected crates entry = false) ∨
    ∃ reason, parseProxyEntry crates entry = .error ⟨entry, reason⟩ ∧
      parseEntry crates entry = .error (report crates ⟨entry, reason⟩) ∧
      rejected crates entry = true ∧ hostnameRejection entry = some reason := by
  unfold parseProxyEntry parseEntry rejected
  cases crates.parseNet entry with
  | some net => exact .inl ⟨_, rfl, rfl, rfl⟩
  | none =>
      cases parseIpAddr entry with
      | some addr => exact .inl ⟨_, rfl, rfl, rfl⟩
      | none =>
          cases hostnameRejection entry with
          | none => exact .inl ⟨_, rfl, rfl, rfl⟩
          | some reason => exact .inr ⟨reason, rfl, rfl, rfl, rfl⟩

theorem failure_parseEntry : failure (parseEntry crates entry) =
    (failure (parseProxyEntry crates entry)).map (report crates) := by
  obtain ⟨m, hproxy, hbound, -⟩ | ⟨reason, hproxy, hbound, -⟩ := parse_cases crates entry
  · rw [hproxy, hbound]
    rfl
  · rw [hproxy, hbound]
    rfl

theorem toOption_parseEntry : (parseEntry crates entry).toOption =
    (parseProxyEntry crates entry).toOption.map asBoundIpEntry := by
  obtain ⟨m, hproxy, hbound, -⟩ | ⟨reason, hproxy, hbound, -⟩ := parse_cases crates entry
  · rw [hproxy, hbound]
    rfl
  · rw [hproxy, hbound]
    rfl

theorem entry_failure : (failure (parseProxyEntry crates entry)).map (·.entry) =
    Option.guard (rejected crates) entry := by
  unfold Option.guard
  obtain ⟨m, hproxy, -, hkept⟩ | ⟨reason, hproxy, -, hrejected, -⟩ := parse_cases crates entry
  · rw [hproxy, hkept]
    rfl
  · rw [hproxy, hrejected]
    rfl

theorem reason_of_failure {invalid : InvalidProxyEntry}
    (h : failure (parseProxyEntry crates entry) = some invalid) :
    hostnameRejection invalid.entry = some invalid.reason := by
  obtain ⟨m, hproxy, -⟩ | ⟨reason, hproxy, -, -, hreason⟩ := parse_cases crates entry
  · rw [hproxy] at h
    cases h
  · rw [hproxy] at h
    cases h
    exact hreason

end Entry

section Lists
variable {crates : Crates} {raw : String}

theorem failures_parseEntry (texts : List String) : failures (parseEntry crates) texts =
    (failures (parseProxyEntry crates) texts).map (report crates) := by
  simp only [failures, failure_parseEntry, List.map_filterMap]

theorem passes_parseEntry (texts : List String) : passes (parseEntry crates) texts =
    (passes (parseProxyEntry crates) texts).map asBoundIpEntry := by
  simp only [passes, toOption_parseEntry, List.map_filterMap]

theorem entries_failures (texts : List String) :
    (failures (parseProxyEntry crates) texts).map (·.entry) = texts.filter (rejected crates) := by
  simp only [failures, List.map_filterMap, entry_failure]
  exact congrFun List.filterMap_eq_filter texts

theorem reason_of_mem_failures {texts : List String} :
    ∀ e ∈ failures (parseProxyEntry crates) texts, hostnameRejection e.entry = some e.reason := by
  intro e he
  obtain ⟨text, -, hfailure⟩ := List.mem_filterMap.mp he
  exact reason_of_failure hfailure

theorem parseTrustedProxies_eq : parseTrustedProxies crates raw =
    if (failures (parseProxyEntry crates) (entryTexts raw)).isEmpty then
      .ok (passes (parseProxyEntry crates) (entryTexts raw))
    else .error (failures (parseProxyEntry crates) (entryTexts raw)) := by
  unfold parseTrustedProxies failures passes entryTexts
  simp only [List.filterMap_map, Function.comp_def]
  congr! 5
  case h₁ text _ => cases parseProxyEntry crates text <;> rfl
  case h₂ _ text _ => cases parseProxyEntry crates text <;> rfl
  case h₃ _ text _ => cases parseProxyEntry crates text <;> rfl

theorem parsers_accept (h : failures (parseProxyEntry crates) (entryTexts raw) = []) :
    parseTrustedProxies crates raw = .ok (passes (parseProxyEntry crates) (entryTexts raw)) ∧
    parseBoundIps crates raw =
      .ok ((passes (parseProxyEntry crates) (entryTexts raw)).map asBoundIpEntry) := by
  refine ⟨?_, ?_⟩
  · rw [parseTrustedProxies_eq, h]
    rfl
  · rw [← passes_parseEntry]
    have hnone : failures (parseEntry crates) (entryTexts raw) = [] := by
      rw [failures_parseEntry, h]
      rfl
    exact mapM_of_no_failures hnone

theorem parsers_refuse {first : InvalidProxyEntry} {rest : List InvalidProxyEntry}
    (h : failures (parseProxyEntry crates) (entryTexts raw) = first :: rest) :
    parseTrustedProxies crates raw = .error (first :: rest) ∧
    parseBoundIps crates raw = .error (report crates first) := by
  refine ⟨?_, ?_⟩
  · rw [parseTrustedProxies_eq, h]
    rfl
  · have hreports : failures (parseEntry crates) (entryTexts raw) =
        report crates first :: rest.map (report crates) := by
      rw [failures_parseEntry, h]
      rfl
    exact mapM_of_failures hreports

end Lists

/-- Networks and host names are those of the list, each kind in the list's order. -/
structure Splits (matchers : List ProxyMatcher) (proxies : TrustedProxies) : Prop where
  networks : (proxies.networks.map .network).Sublist matchers
  hostnames : (proxies.hostnames.map .hostname).Sublist matchers
  all : (proxies.networks.map ProxyMatcher.network ++
    proxies.hostnames.map ProxyMatcher.hostname).Perm matchers

theorem new_splits (matchers : List ProxyMatcher) : Splits matchers (.new matchers) := by
  induction matchers with
  | nil => exact ⟨.slnil, .slnil, .nil⟩
  | cons m matchers ih =>
      cases m with
      | network net => exact ⟨ih.networks.cons_cons _, ih.hostnames.cons _, ih.all.cons _⟩
      | hostname name =>
          exact ⟨ih.networks.cons _, ih.hostnames.cons_cons _,
            List.perm_middle.trans (ih.all.cons _)⟩

/-- The two parsers on one text. -/
structure Agree (crates : Crates) (raw : String) : Prop where
  succeed : (∃ matchers, parseTrustedProxies crates raw = .ok matchers) ↔
    ∃ entries, parseBoundIps crates raw = .ok entries
  entries : ∀ matchers entries, parseTrustedProxies crates raw = .ok matchers →
    parseBoundIps crates raw = .ok entries →
    entries.length = matchers.length ∧ ∀ i : ℕ, entries[i]? = matchers[i]?.map asBoundIpEntry
  first : ∀ invalid, parseTrustedProxies crates raw = .error invalid →
    ∃ first rest, invalid = first :: rest ∧ parseBoundIps crates raw = .error (report crates first)
  all : ∀ invalid, parseTrustedProxies crates raw = .error invalid →
    invalid.map (·.entry) = (entryTexts raw).filter (rejected crates) ∧
    ∀ e ∈ invalid, hostnameRejection e.entry = some e.reason
  split : ∀ matchers, parseTrustedProxies crates raw = .ok matchers →
    Splits matchers (.new matchers)

theorem address_lists_agree (crates : Crates) (raw : String) : Agree crates raw := by
  cases hfailures : failures (parseProxyEntry crates) (entryTexts raw) with
  | nil =>
      obtain ⟨hproxies, hbound⟩ := parsers_accept hfailures
      exact
        { succeed := iff_of_true ⟨_, hproxies⟩ ⟨_, hbound⟩
          entries := by
            intro matchers entries hmatchers hentries
            rw [hproxies] at hmatchers
            rw [hbound] at hentries
            cases hmatchers
            cases hentries
            exact ⟨List.length_map _, fun i => List.getElem?_map⟩
          first := by
            intro invalid hinvalid
            rw [hproxies] at hinvalid
            cases hinvalid
          all := by
            intro invalid hinvalid
            rw [hproxies] at hinvalid
            cases hinvalid
          split := fun matchers _ => new_splits matchers }
  | cons first rest =>
      obtain ⟨hproxies, hbound⟩ := parsers_refuse hfailures
      have haccepted : ∀ matchers, parseTrustedProxies crates raw ≠ .ok matchers := by
        intro matchers hmatchers
        rw [hproxies] at hmatchers
        cases hmatchers
      exact
        { succeed := by
            refine iff_of_false (fun ⟨matchers, h⟩ => haccepted matchers h) ?_
            rintro ⟨entries, hentries⟩
            rw [hbound] at hentries
            cases hentries
          entries := fun matchers _ hmatchers => absurd hmatchers (haccepted matchers)
          first := by
            intro invalid hinvalid
            rw [hproxies] at hinvalid
            cases hinvalid
            exact ⟨first, rest, rfl, hbound⟩
          all := by
            intro invalid hinvalid
            rw [hproxies] at hinvalid
            cases hinvalid
            rw [← hfailures]
            exact ⟨entries_failures _, reason_of_mem_failures⟩
          split := fun matchers hmatchers => absurd hmatchers (haccepted matchers) }

end SimplyIpExporter.AddressLists
