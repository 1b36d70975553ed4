import Mathlib.Data.List.Sort
import SimplyIpExporter.AddressCache
import SimplyIpExporter.BoundIps
import SimplyIpExporter.ClientAddress
import SimplyIpExporter.FirstSeenQueues

/-!
# The public feed

`serveFeed` from the token to the response: the endpoint, its network binding, the
records inside its retention window, filters, aggregation, the body and its tag, and
last the rate limiter. Everything a request meets on its way is given with it, among
that the order in which the cache's map is gone through; the limiter is the only
state a request changes.

`prepareFeed` is the part before the limiter. It ends early with an answer, or with
the panic of a retention window whose cutoff is no date.
-/
namespace SimplyIpExporter.PublicFeed
open RustText IpAddresses Entities BoundIps ClientAddress AddressCache FirstSeenQueues

/-- The functions of `ipnet` a feed needs besides parsing. -/
structure FeedCrates extends Crates where
  /-- `IpNet::aggregate`. -/
  aggregate : List IpNet → List IpNet
  /-- `IpNet::to_string`. -/
  netText : IpNet → String

/-- The literals that parse. -/
def nets (crates : Crates) (raw : List String) : List IpNet := raw.filterMap crates.parseNet

def rfc1918Literals : List String := ["10.0.0.0/8", "172.16.0.0/12", "192.168.0.0/16"]

def loopbackLiterals : List String := ["127.0.0.0/8", "::1/128"]

def bogonLiterals : List String :=
  ["0.0.0.0/8", "100.64.0.0/10", "169.254.0.0/16", "192.0.0.0/24", "192.0.2.0/24",
    "192.88.99.0/24", "198.18.0.0/15", "198.51.100.0/24", "203.0.113.0/24", "224.0.0.0/4",
    "240.0.0.0/4", "255.255.255.255/32", "::/128", "::ffff:0:0/96", "100::/64", "2001:db8::/32",
    "fc00::/7", "fe80::/10", "ff00::/8"]

def rfc1918 (crates : Crates) : List IpNet := nets crates rfc1918Literals

def loopback (crates : Crates) : List IpNet := nets crates loopbackLiterals

def bogons (crates : Crates) : List IpNet := nets crates bogonLiterals

def overlapsAny (candidate : IpNet) (excluded : List IpNet) : Bool :=
  excluded.any fun ex => ex.contains candidate.network || candidate.contains ex.network

def filterAndAggregate (crates : FeedCrates) (networks : List IpNet)
    (filterRfc1918 filterBogons filterLoopback : Bool) : List IpNet :=
  let filtered := ((networks.filter fun net =>
        !filterRfc1918 || !overlapsAny net (rfc1918 crates.toCrates)).filter fun net =>
      !filterBogons || !overlapsAny net (bogons crates.toCrates)).filter fun net =>
    !filterLoopback || !overlapsAny net (loopback crates.toCrates)
  crates.aggregate filtered

/-- Monotonic time, in nanoseconds. -/
abbrev Instant := ℤ

/-- Two minutes. -/
def rateLimitWindow : ℤ := 120 * nanosPerSecond

def maxTrackedIps : ℕ := 10000

/-- When each tracked address may next be served, and the addresses in the order in
which they were first seen. -/
abbrev RateLimiter := Tracker IpAddr Instant

/-- Records that an address is served, or says how long it has to wait. -/
def checkAndRecord (ip : IpAddr) (now : Instant) (limiter : RateLimiter) :
    Except ℤ Unit × RateLimiter :=
  match limiter.entries.lookup ip with
  | some nextAllowed =>
    if now < nextAllowed then (.error (nextAllowed - now), limiter)
    else (.ok (), limiter.record maxTrackedIps ip (now + rateLimitWindow))
  | none => (.ok (), limiter.record maxTrackedIps ip (now + rateLimitWindow))

structure FeedRequest where
  tokenSecret : String
  peer : IpAddr
  headers : HeaderMap

/-- What a request meets. -/
structure Surroundings where
  /-- The trusted proxies as resolved for this request. -/
  proxies : List IpNet
  /-- The rows of `endpoints`, unless the query fails. -/
  endpoints : Except DbErr (List Endpoint)
  /-- The addresses each host name stands for. -/
  dns : String → List IpNet
  cache : IpCache
  now : NaiveDateTime
  /-- The order in which the map of records is gone through. -/
  order : { f : List IpNet → List IpNet // ∀ l, (f l).Perm l }
  /-- When the limiter is asked. -/
  instant : Instant

structure FeedResponse where
  status : ℕ
  headers : List (String × String)
  body : String
  deriving DecidableEq, Repr

inductive Served where
  | panicked
  | refused (e : AppError)
  | responded (r : FeedResponse)
  deriving DecidableEq, Repr

def findFeed (token : String) : Except DbErr (List Endpoint) → Except AppError Endpoint
  | .error e => .error (.dbError e)
  | .ok rows =>
    match rows.find? fun ep => decide (ep.tokenSecret = token) with
    | none => .error .notFound
    | some ep => .ok ep

/-- Whether one of the entries covers the address. -/
def isAllowed (dns : String → List IpNet) (clientIp : IpAddr) : List BoundIpEntry → Bool
  | [] => false
  | .network net :: rest => if net.contains clientIp then true else isAllowed dns clientIp rest
  | .hostname name :: rest =>
      if (dns name).any (·.contains clientIp) then true else isAllowed dns clientIp rest

def checkBinding (crates : Crates) (boundIps : Option String) (dns : String → List IpNet)
    (clientIp : IpAddr) : Except AppError Unit :=
  match boundIps.filter fun s => trim s != "" with
  | none => .ok ()
  | some raw =>
    match parseBoundIps crates raw with
    | .error _ => .error .internal
    | .ok entries =>
      if isAllowed dns clientIp entries then .ok ()
      else .error (.forbidden "Client IP not allowed for this endpoint")

/-- The lines of the feed; none when the cutoff of the window cannot be computed. -/
def feedLines (crates : FeedCrates) (ep : Endpoint) (env : Surroundings) : Option (List String) :=
  (snapshotWithin ep.id ep.maxAgeSeconds env.now env.cache).map fun raw =>
    ((filterAndAggregate crates (env.order.1 raw) ep.filterRfc1918 ep.filterBogons
      ep.filterLoopback).map crates.netText).insertionSort (· ≤ ·)

def bodyOf (lines : List String) : String :=
  if lines.isEmpty then "" else "\n".intercalate lines ++ "\n"

def etagOf (crates : Crates) (body : String) : String :=
  "\"" ++ hexText (crates.sha256 (utf8 body)) ++ "\""

/-- The client already holds the body with this tag. -/
def revalidates (headers : HeaderMap) (etag : String) : Bool :=
  match (headers.get "if-none-match").bind HeaderValue.toStr with
  | none => false
  | some inm => trim inm == etag

def FeedRequest.clientIp (req : FeedRequest) (env : Surroundings) : IpAddr :=
  resolveClientIp req.peer req.headers env.proxies

/-- The tag and the body, or the answer given without asking the limiter. -/
def prepareFeed (crates : FeedCrates) (req : FeedRequest) (env : Surroundings) :
    Except Served (String × String) :=
  match findFeed req.tokenSecret env.endpoints with
  | .error e => .error (.refused e)
  | .ok ep =>
    match checkBinding crates.toCrates ep.boundIps env.dns (req.clientIp env) with
    | .error e => .error (.refused e)
    | .ok () =>
      match feedLines crates ep env with
      | none => .error .panicked
      | some lines =>
        let body := bodyOf lines
        let etag := etagOf crates.toCrates body
        if revalidates req.headers etag then .error (.responded ⟨304, [("ETag", etag)], ""⟩)
        else .ok (etag, body)

def tooManyRequests (remaining : ℤ) : FeedResponse where
  status := 429
  headers := [("Retry-After", toString (remaining / nanosPerSecond))]
  body := "Rate limit exceeded: at most one request per source IP every 2 minutes\n"

def serveFeed (crates : FeedCrates) (req : FeedRequest) (env : Surroundings)
    (limiter : RateLimiter) : Served × RateLimiter :=
  match prepareFeed crates req env with
  | .error answer => (answer, limiter)
  | .ok (etag, body) =>
    match checkAndRecord (req.clientIp env) env.instant limiter with
    | (.error remaining, limiter) => (.responded (tooManyRequests remaining), limiter)
    | (.ok (), limiter) =>
      (.responded ⟨200, [("Content-Type", "text/plain; charset=utf-8"), ("ETag", etag)], body⟩,
        limiter)

/-- The map gone through as it is kept. -/
def keptOrder : { f : List IpNet → List IpNet // ∀ l, (f l).Perm l } := ⟨id, fun l => .refl l⟩

def sampleFeedCrates : FeedCrates := { sampleCrates with aggregate := id, netText := fun _ => "" }

def sampleFeed : Endpoint where
  id := 1
  ownerKeyId := none
  name := "feed"
  description := none
  tokenSecret := "token"
  vaultGroups := "[]"
  ttlSeconds := 60
  maxAgeSeconds := 0
  boundIps := none
  filterRfc1918 := true
  filterBogons := true
  filterLoopback := true
  lastSyncedAt := none
  createdAt := 0
  updatedAt := 0

end SimplyIpExporter.PublicFeed
