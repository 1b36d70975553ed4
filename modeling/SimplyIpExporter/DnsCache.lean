import SimplyIpExporter.AddressEntries
import SimplyIpExporter.Exclusion
import SimplyIpExporter.Journals
import SimplyIpExporter.LastWriterWins

/-!
# The cache of resolved hostnames

A hostname is looked up behind a double check: once under the read lock and once more
under the write lock, which is then held until the answer is there and stored. Calls are
split where they wait, that is at the locks and at the answer; what lies between is one
step. The surroundings decide when a step takes place, what a lookup answers and whether
the request that waits for it is dropped, which gives the lock back and stores nothing.
-/
namespace SimplyIpExporter.DnsCache
open IpAddresses ClientAddress AddressEntries LastWriterWins Programs Interleaving

structure HostnameState where
  addresses : List IpNet
  /-- Nanoseconds of the monotonic clock. -/
  attemptedAt : ℕ
  resolved : Bool
  deriving DecidableEq, Repr

/-- `elapsed` is never negative. -/
def HostnameState.isFresh (state : HostnameState) (positive negative now : ℕ) : Bool :=
  let ttl := if state.resolved then positive else negative
  decide (now - state.attemptedAt < ttl)

structure DnsResolver where
  positiveTtl : ℕ
  negativeTtl : ℕ
  deriving DecidableEq, Repr

/-- Thirty seconds, and five. -/
def DnsResolver.new : DnsResolver := ⟨30 * 1000000000, 5 * 1000000000⟩

/-- What a name resolves to; an error of `lookup_host` is no address. -/
def lookupHostname : Option (List IpAddr) → List IpNet
  | some addrs => addrs.map fun addr => .fromAddr (normalizeIp addr)
  | none => []

/-- What a lookup that ends now leaves in the cache. -/
def HostnameState.of (addresses : List IpNet) (now : ℕ) : HostnameState :=
  ⟨addresses, now, !addresses.isEmpty⟩

structure World where
  cache : Store String HostnameState
  /-- The write lock is held. -/
  locked : Bool
  clock : ℕ

inductive Call where
  /-- Waits for the read lock, and gives it back. -/
  | checkRead (hostname : String)
  /-- Waits for the write lock, and keeps it unless the cache is fresh. -/
  | checkWrite (hostname : String)
  /-- Waits for the write lock. -/
  | lockWrite (hostname : String)
  /-- Waits for the answer, stores it and gives the lock back. -/
  | finishLookup (hostname : String)
  deriving DecidableEq, Repr

/-- The addresses that are still fresh; the attempt stored, unless the request was dropped. -/
@[reducible] def Answer : Call → Type
  | .checkRead _ | .checkWrite _ => Option (List IpNet)
  | .lockWrite _ => Unit
  | .finishLookup _ => Option HostnameState

inductive Choice where
  | instant (now : ℕ)
  | answered (now : ℕ) (reply : Option (List IpAddr))
  | dropped

/-- The addresses of a cached attempt that may still be reused. -/
def DnsResolver.fresh (resolver : DnsResolver) (cache : Store String HostnameState)
    (hostname : String) (now : ℕ) : Option (List IpNet) :=
  (cache.lookup hostname).bind fun state =>
    if state.isFresh resolver.positiveTtl resolver.negativeTtl now then
      some state.addresses else none

def exec (resolver : DnsResolver) : (c : Call) → Choice → World → Option (Answer c × World)
  | .checkRead hostname, .instant now, w =>
      if w.locked = false ∧ w.clock ≤ now then
        some (resolver.fresh w.cache hostname now, { w with clock := now })
      else none
  | .checkWrite hostname, .instant now, w =>
      if w.locked = false ∧ w.clock ≤ now then
        let cached := resolver.fresh w.cache hostname now
        some (cached, { w with locked := cached.isNone, clock := now })
      else none
  | .lockWrite _, .instant now, w =>
      if w.locked = false ∧ w.clock ≤ now then some ((), { w with locked := true, clock := now })
      else none
  | .finishLookup hostname, .answered now reply, w =>
      if w.clock ≤ now then
        let state := HostnameState.of (lookupHostname reply) now
        some (some state, ⟨w.cache.insert hostname state, false, now⟩)
      else none
  | .finishLookup _, .dropped, w => some (none, { w with locked := false })
  | _, _, _ => none

/-- Nothing else touches the cache. -/
def env : Empty → World → Option World := nofun

def system (resolver : DnsResolver) : System Answer Choice Empty World := ⟨exec resolver, env⟩

/-- Under the write lock; `none` when the request is dropped. -/
def refreshLocked (hostname : String) : Program Answer (Option (List IpNet)) := do
  let stored : Option HostnameState ← perform (Call.finishLookup hostname)
  pure (stored.map (·.addresses))

def resolve (hostname : String) : Program Answer (Option (List IpNet)) := do
  let cached : Option (List IpNet) ← perform (Call.checkRead hostname)
  match cached with
  | some addresses => pure (some addresses)
  | none => do
    let cached : Option (List IpNet) ← perform (Call.checkWrite hostname)
    match cached with
    | some addresses => pure (some addresses)
    | none => refreshLocked hostname

def forceResolve (hostname : String) : Program Answer (Option (List IpNet)) := do
  let _ ← perform (Call.lockWrite hostname)
  refreshLocked hostname

/-- Extends the networks by what each name resolves to. -/
def extendAll : List IpNet → List String → Program Answer (Option (List IpNet))
  | merged, [] => pure (some merged)
  | merged, name :: names => do
    let found ← resolve name
    match found with
    | some addresses => extendAll (merged ++ addresses) names
    | none => pure none

def resolved (proxies : TrustedProxies) : Program Answer (Option (List IpNet)) :=
  if proxies.hostnames.isEmpty then pure (some proxies.networks)
  else extendAll proxies.networks proxies.hostnames

/-- Collects the names that do not resolve. -/
def primeAll : List String → List String → Program Answer (Option (List String))
  | failed, [] => pure (some failed)
  | failed, name :: names => do
    let found ← forceResolve name
    match found with
    | some addresses => primeAll (if addresses.isEmpty then failed ++ [name] else failed) names
    | none => pure none

def prime (proxies : TrustedProxies) : Program Answer (Option (List String)) :=
  if proxies.hostnames.isEmpty then pure (some []) else primeAll [] proxies.hostnames

inductive Task where
  | resolve (hostname : String)
  | forceResolve (hostname : String)
  | resolved (proxies : TrustedProxies)
  | prime (proxies : TrustedProxies)

inductive Result where
  | networks (nets : List IpNet)
  | failed (names : List String)
  deriving DecidableEq, Repr

def Task.program : Task → Program Answer (Option Result)
  | .resolve hostname => DnsCache.resolve hostname >>= fun found => pure (found.map .networks)
  | .forceResolve hostname =>
      DnsCache.forceResolve hostname >>= fun found => pure (found.map .networks)
  | .resolved proxies => DnsCache.resolved proxies >>= fun found => pure (found.map .networks)
  | .prime proxies => DnsCache.prime proxies >>= fun failed => pure (failed.map .failed)

abbrev Process (I : Type) := Pool Answer I (Option Result) World

/-- Any tasks before their first step, and nothing in the cache. -/
def process {I : Type} (tasks : I → Task) (now : ℕ) : Process I :=
  ⟨⟨∅, false, now⟩, fun i => (tasks i).program⟩

section Steps
variable {resolver : DnsResolver} {hostname : String} {e : Choice} {w w' : World}

theorem exec_checkRead {cached : Option (List IpNet)}
    (h : exec resolver (.checkRead hostname) e w = some (cached, w')) :
    w.locked = false ∧ ∃ now, w.clock ≤ now ∧ cached = resolver.fresh w.cache hostname now ∧
      w' = { w with clock := now } := by
  cases e with
  | instant now =>
      simp only [exec] at h
      split at h
      · rename_i hfree
        cases h
        exact ⟨hfree.1, now, hfree.2, rfl, rfl⟩
      · cases h
  | _ => cases h

theorem exec_checkWrite {cached : Option (List IpNet)}
    (h : exec resolver (.checkWrite hostname) e w = some (cached, w')) :
    w.locked = false ∧ ∃ now, w.clock ≤ now ∧ cached = resolver.fresh w.cache hostname now ∧
      w' = { w with locked := cached.isNone, clock := now } := by
  cases e with
  | instant now =>
      simp only [exec] at h
      split at h
      · rename_i hfree
        cases h
        exact ⟨hfree.1, now, hfree.2, rfl, rfl⟩
      · cases h
  | _ => cases h

theorem exec_lockWrite {u : Unit} (h : exec resolver (.lockWrite hostname) e w = some (u, w')) :
    w.locked = false ∧ ∃ now, w.clock ≤ now ∧ w' = { w with locked := true, clock := now } := by
  cases e with
  | instant now =>
      simp only [exec] at h
      split at h
      · rename_i hfree
        cases h
        exact ⟨hfree.1, now, hfree.2, rfl⟩
      · cases h
  | _ => cases h

theorem exec_finishLookup {stored : Option HostnameState}
    (h : exec resolver (.finishLookup hostname) e w = some (stored, w')) :
    (stored = none ∧ w' = { w with locked := false }) ∨
      ∃ addresses now, w.clock ≤ now ∧ stored = some (.of addresses now) ∧
        w' = ⟨w.cache.insert hostname (.of addresses now), false, now⟩ := by
  cases e with
  | answered now reply =>
      simp only [exec] at h
      split at h
      · rename_i hclock
        cases h
        exact .inr ⟨lookupHostname reply, now, hclock, rfl, rfl⟩
      · cases h
  | dropped =>
      cases h
      exact .inl ⟨rfl, rfl⟩
  | _ => cases h

end Steps
end SimplyIpExporter.DnsCache
