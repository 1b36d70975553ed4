import SimplyIpExporter.PublicFeed

/-!
# Trusted proxies, and entries that name one address

`TRUSTED_PROXIES` is read like a `bound_ips` value, except that every unusable entry
is reported. Both lists take the text of an address as the network of that address.

The peer of a connection is compared with these lists only after an IPv4-mapped
address has been turned into plain IPv4, while the entries stay as written. An entry
therefore matches the address it names exactly when that address is its own plain
form.
-/
namespace SimplyIpExporter.AddressEntries
open RustText IpAddresses Entities BoundIps ClientAddress

inductive ProxyMatcher where
  | network (net : IpNet)
  | hostname (name : String)
  deriving DecidableEq, Repr

structure InvalidProxyEntry where
  entry : String
  reason : String
  deriving DecidableEq, Repr

def parseProxyEntry (crates : Crates) (entry : String) : Except InvalidProxyEntry ProxyMatcher :=
  match crates.parseNet entry with
  | some net => .ok (.network net)
  | none =>
    match parseIpAddr entry with
    | some addr => .ok (.network (.fromAddr addr))
    | none =>
      match hostnameRejection entry with
      | none => .ok (.hostname entry)
      | some reason => .error ⟨entry, reason⟩

def parseTrustedProxies (crates : Crates) (raw : String) :
    Except (List InvalidProxyEntry) (List ProxyMatcher) :=
  let parsed := (((split ',' raw).map trim).filter (· != "")).map (parseProxyEntry crates)
  let invalid := parsed.filterMap fun
    | .error e => some e
    | .ok _ => none
  let matchers := parsed.filterMap fun
    | .ok m => some m
    | .error _ => none
  if invalid.isEmpty then .ok matchers else .error invalid

structure TrustedProxies where
  networks : List IpNet
  hostnames : List String
  deriving DecidableEq, Repr

def TrustedProxies.new (matchers : List ProxyMatcher) : TrustedProxies where
  networks := matchers.filterMap fun
    | .network net => some net
    | .hostname _ => none
  hostnames := matchers.filterMap fun
    | .hostname name => some name
    | .network _ => none

/-- An unset variable trusts nothing. -/
def TrustedProxies.fromEnv (crates : Crates) (raw : Option String) :
    Except (List InvalidProxyEntry) TrustedProxies :=
  match raw with
  | none => .ok ⟨[], []⟩
  | some raw => (parseTrustedProxies crates raw).map .new

def TrustedProxies.resolved (proxies : TrustedProxies) (dns : String → List IpNet) : List IpNet :=
  proxies.networks ++ proxies.hostnames.flatMap dns

theorem fromAddr_contains (a b : IpAddr) : (IpNet.fromAddr a).contains b = true ↔ a = b := by
  cases a with
  | v4 a => cases b <;> simp [IpNet.fromAddr, IpNet.contains]
  | v6 a => cases b <;> simp [IpNet.fromAddr, IpNet.contains]

section Literal
variable {crates : Crates} {a : IpAddr} (hparse : parseIpAddr (crates.ipText a) = some a)
  (hnet : ∀ net, crates.parseNet (crates.ipText a) = some net → net = .fromAddr a)

include hparse in
/-- The text of an address is one entry of a list. -/
theorem entries_ipText :
    ((split ',' (crates.ipText a)).map trim).filter (· != "") = [crates.ipText a] := by
  have hchars := parseIpAddr_chars hparse
  have hcomma : ',' ∉ (crates.ipText a).toList := fun hc => ipChar_ne_comma (hchars _ hc) rfl
  have htrim : trim (crates.ipText a) = crates.ipText a := by
    rw [trim, trimChars_of_none fun c hc => ipChar_not_whitespace (hchars c hc),
      String.ofList_toList]
  have hne : crates.ipText a ≠ "" := by
    intro hempty
    rw [hempty] at hparse
    exact absurd hparse (by simp [show parseIpAddr "" = none by decide])
  rw [split_of_notMem hcomma]
  simp [htrim, hne]

include hparse hnet in
theorem parseEntry_ipText : parseEntry crates (crates.ipText a) = .ok (.network (.fromAddr a)) := by
  unfold parseEntry
  split
  · rename_i net hsome
    rw [hnet net hsome]
  · rw [hparse]

include hparse hnet in
theorem parseProxyEntry_ipText :
    parseProxyEntry crates (crates.ipText a) = .ok (.network (.fromAddr a)) := by
  unfold parseProxyEntry
  split
  · rename_i net hsome
    rw [hnet net hsome]
  · rw [hparse]

include hparse hnet in
theorem parseBoundIps_ipText :
    parseBoundIps crates (crates.ipText a) = .ok [.network (.fromAddr a)] := by
  unfold parseBoundIps
  rw [entries_ipText hparse, List.mapM_cons, parseEntry_ipText hparse hnet]
  rfl

include hparse hnet in
theorem fromEnv_ipText :
    TrustedProxies.fromEnv crates (some (crates.ipText a)) = .ok ⟨[.fromAddr a], []⟩ := by
  unfold TrustedProxies.fromEnv parseTrustedProxies
  dsimp only
  rw [entries_ipText hparse, List.map_singleton, parseProxyEntry_ipText hparse hnet]
  rfl

end Literal

/-- What the forwarding headers of a peer say is taken for the client. -/
structure HeadersBelieved (peer : IpAddr) (trusted : List IpNet) : Prop where
  forwarded : ∀ (headers : HeaderMap) (line : String) (ip : IpAddr),
    (headers.get xForwardedFor).bind HeaderValue.toStr = some line →
    forwardedClient line trusted = some ip → resolveClientIp peer headers trusted = ip
  real : ∀ (headers : HeaderMap) (ip : IpAddr), headers.get xForwardedFor = none →
    realIp headers = some ip → resolveClientIp peer headers trusted = normalizeIp ip

/-- An `X-Real-IP` line with the address `0.0.0.d`, for a digit `d`. -/
def realIpLine (digit : Fin 10) : HeaderMap :=
  [(xRealIp, ⟨[48, 46, 48, 46, 48, 46, 48 + UInt8.ofNat digit.val], by revert digit; decide⟩)]

theorem headersBelieved_iff {peer : IpAddr} {trusted : List IpNet} :
    HeadersBelieved peer trusted ↔ isTrusted (normalizeIp peer) trusted = true := by
  constructor
  · intro hbelieved
    by_contra huntrusted
    rw [Bool.not_eq_true] at huntrusted
    -- two lines that name different addresses cannot both be believed
    have hzero := hbelieved.real (realIpLine 0) (.v4 0) (by decide) (by decide)
    have hone := hbelieved.real (realIpLine 1) (.v4 1) (by decide) (by decide)
    rw [resolveClientIp_untrusted huntrusted] at hzero hone
    rw [hzero] at hone
    exact absurd hone (by decide)
  · intro htrusted
    refine ⟨?_, ?_⟩
    · intro headers line ip hline hclient
      simp [resolveClientIp, htrusted, hline, hclient]
    · intro headers ip hnone hreal
      simp [resolveClientIp, htrusted, hnone, hreal]

/-- A direct client at `a` is let through a binding to the text of `a`. -/
def LetThrough (crates : Crates) (a : IpAddr) : Prop :=
  ∀ (headers : HeaderMap) (trusted : List IpNet) (dns : String → List IpNet),
    isTrusted (normalizeIp a) trusted = false →
    ∃ entries, parseBoundIps crates (crates.ipText a) = .ok entries ∧
      PublicFeed.isAllowed dns (resolveClientIp a headers trusted) entries = true

/-- With the text of `a` as the setting, a connection from `a` comes from a trusted
proxy. -/
def Trusted (crates : Crates) (a : IpAddr) : Prop :=
  ∀ dns : String → List IpNet,
    ∃ proxies, TrustedProxies.fromEnv crates (some (crates.ipText a)) = .ok proxies ∧
      HeadersBelieved a (proxies.resolved dns)

theorem isAllowed_literal (dns : String → List IpNet) (a ip : IpAddr) :
    PublicFeed.isAllowed dns ip [.network (.fromAddr a)] = true ↔ a = ip := by
  simp [PublicFeed.isAllowed, fromAddr_contains]

theorem isTrusted_literal (dns : String → List IpNet) (a ip : IpAddr) :
    isTrusted ip ((⟨[.fromAddr a], []⟩ : TrustedProxies).resolved dns) = true ↔ a = ip := by
  simp [isTrusted, TrustedProxies.resolved, fromAddr_contains]

/-- An entry with the text of an address, in either list, matches that address exactly
when it is not IPv4-mapped. -/
theorem entry_names_address_iff (crates : Crates) (a : IpAddr)
    (hparse : parseIpAddr (crates.ipText a) = some a)
    (hnet : ∀ net, crates.parseNet (crates.ipText a) = some net → net = .fromAddr a) :
    (LetThrough crates a ↔ normalizeIp a = a) ∧ (Trusted crates a ↔ normalizeIp a = a) := by
  have hbound := parseBoundIps_ipText hparse hnet
  have hproxies := fromEnv_ipText hparse hnet
  refine ⟨⟨?_, ?_⟩, ?_, ?_⟩
  · intro hadmitted
    obtain ⟨entries, hentries, hallowed⟩ := hadmitted [] [] (fun _ => []) rfl
    rw [hbound] at hentries
    cases hentries
    rw [resolveClientIp_untrusted rfl, isAllowed_literal] at hallowed
    exact hallowed.symm
  · intro hplain headers trusted dns huntrusted
    refine ⟨_, hbound, ?_⟩
    rw [resolveClientIp_untrusted huntrusted, isAllowed_literal, hplain]
  · intro htrusted
    obtain ⟨proxies, hsome, hbelieved⟩ := htrusted fun _ => []
    rw [hproxies] at hsome
    cases hsome
    rw [headersBelieved_iff, isTrusted_literal] at hbelieved
    exact hbelieved.symm
  · intro hplain dns
    refine ⟨_, hproxies, ?_⟩
    rw [headersBelieved_iff, isTrusted_literal, hplain]

/-- Texts for two addresses, one of them IPv4-mapped. -/
def textingCrates : Crates :=
  { sampleCrates with
    ipText := fun a => if a = .v4 0xc0000207#32 then "192.0.2.7" else "::ffff:192.0.2.7" }

theorem entry_names_address_plain :
    LetThrough textingCrates (.v4 0xc0000207#32) ∧ Trusted textingCrates (.v4 0xc0000207#32) := by
  have hboth := entry_names_address_iff textingCrates (.v4 0xc0000207#32) (by decide) nofun
  exact ⟨hboth.1.mpr rfl, hboth.2.mpr rfl⟩

/-- A dual-stack listener sees the client 192.0.2.7 as `::ffff:192.0.2.7`; neither list
matches it under that name. -/
theorem entry_misses_mapped :
    parseIpAddr (textingCrates.ipText (.v6 0xffffc0000207#128)) = some (.v6 0xffffc0000207#128) ∧
    ¬ LetThrough textingCrates (.v6 0xffffc0000207#128) ∧
    ¬ Trusted textingCrates (.v6 0xffffc0000207#128) := by
  have hparse : parseIpAddr (textingCrates.ipText (.v6 0xffffc0000207#128)) =
      some (.v6 0xffffc0000207#128) := by
    decide
  refine ⟨hparse, ?_, ?_⟩
  · intro hadmitted
    obtain ⟨entries, hentries, hallowed⟩ := hadmitted [] [] (fun _ => []) rfl
    rw [parseBoundIps_ipText hparse nofun] at hentries
    cases hentries
    exact absurd hallowed (by decide)
  · intro htrusted
    obtain ⟨proxies, hsome, hbelieved⟩ := htrusted fun _ => []
    rw [fromEnv_ipText hparse nofun] at hsome
    cases hsome
    exact absurd (headersBelieved_iff.mp hbelieved) (by decide)

end SimplyIpExporter.AddressEntries
