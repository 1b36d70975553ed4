import SimplyIpExporter.BufferedCompletion
import SimplyIpExporter.Entities

/-!
# Fetching from Vault

`fetch_ips` asks for the first page together with a page count. An envelope with
the count lets the other pages be fetched concurrently; a bare array continues as
an offset walk that ends on the first short page; a `400` restarts that walk from
the beginning without the flag. The server is a function from the number of
requests sent before to its reply, so it may answer each request as it likes. Every
fetch also returns the requests it sent, in order.
-/
namespace SimplyIpExporter.VaultClient
open Entities BufferedCompletion

/-- One record of `GET /api/ips`. -/
structure VaultApiRecord where
  targetAddress : String
  lastSeenAt : NaiveDateTime
  isDeleted : Bool
  deriving DecidableEq, Repr

inductive VaultError where
  | notConfigured
  | request
  | status (code : ℕ)
  deriving DecidableEq, Repr

def pageSizeDefault : ℕ := 1000

def maxPages : ℕ := 1000

def maxConcurrentPages : ℕ := 5

def upperHexDigit (n : ℕ) : Char := Char.ofNat (if n < 10 then 48 + n else 55 + n)

def isUnreserved (b : UInt8) : Bool :=
  let c := Char.ofNat b.toNat
  c.isUpper || c.isLower || c.isDigit || ['-', '_', '.', '~', ','].contains c

/-- Percent-encoding of every byte outside the unreserved ones and the comma. -/
def urlencode (raw : String) : String :=
  String.ofList ((utf8 raw).flatMap fun b =>
    if isUnreserved b then [Char.ofNat b.toNat]
    else ['%', upperHexDigit (b.toNat / 16), upperHexDigit (b.toNat % 16)])

/-- What all pages of one fetch share. -/
def ipsBase (groups : String) (since : Option NaiveDateTime) : String :=
  "/api/ips?groups=" ++ urlencode groups ++
    since.elim "" fun t => "&since=" ++ urlencode (toString (timestamp t)) ++
      "&include_deleted=true"

structure PageRequest where
  base : String
  includeTotal : Bool
  limit : ℕ
  offset : ℕ
  deriving DecidableEq, Repr

/-- The signed path and query. -/
def PageRequest.path (r : PageRequest) : String :=
  r.base ++ (if r.includeTotal then "&include_total=true" else "") ++
    "&limit=" ++ toString r.limit ++ "&offset=" ++ toString r.offset

/-- A JSON body, as far as the two response shapes tell bodies apart. -/
inductive Body where
  | envelope (data : List VaultApiRecord) (totalPages : ℕ)
  | array (data : List VaultApiRecord)
  | other
  deriving DecidableEq, Repr

/-- What becomes of one request: it cannot be signed, nobody answers, or a response
arrives. -/
inductive Reply where
  | unsigned
  | unanswered
  | response (status : ℕ) (body : Body)
  deriving DecidableEq, Repr

inductive IpsResponse where
  | envelope (data : List VaultApiRecord) (totalPages : ℕ)
  | legacy (data : List VaultApiRecord)
  deriving DecidableEq, Repr

def decodeIps : Body → Option IpsResponse
  | .envelope data totalPages => some (.envelope data totalPages)
  | .array data => some (.legacy data)
  | .other => none

def decodePage : Body → Option (List VaultApiRecord)
  | .array data => some data
  | .envelope _ _ | .other => none

/-- The outcome of `signed_get` for a reply. -/
def signedGet {T : Type} (decode : Body → Option T) : Reply → Except VaultError T
  | .unsigned => .error (.status 500)
  | .unanswered => .error .request
  | .response status body =>
    if 200 ≤ status ∧ status < 300 then
      match decode body with
      | some value => .ok value
      | none => .error .request
    else .error (.status status)

/-- The reply to a request, given how many were sent before it. -/
abbrev Server := ℕ → PageRequest → Reply

abbrev Fetched := Except VaultError (List VaultApiRecord) × List PageRequest

def pageAt (base : String) (pageSize offset : ℕ) : PageRequest := ⟨base, false, pageSize, offset⟩

/-- Pages two and later of an envelope, in completion order after page one. -/
def fetchRemainingPagesInParallel (server : Server) (pick : ℕ → ℕ) (pageSize : ℕ) (base : String)
    (data : List VaultApiRecord) (totalPages : ℕ) (sent : List PageRequest) : Fetched :=
  let offsets := (List.range' 1 (totalPages - 1)).map (· * pageSize)
  if offsets.isEmpty then (.ok data, sent)
  else
    let offsets := offsets.take (maxPages - 1)
    let pages := bufferUnordered
      (fun n offset =>
        signedGet decodePage (server (sent.length + n) (pageAt base pageSize offset)))
      maxConcurrentPages pick offsets
    (pages.1.map fun pages => data ++ pages.flatten,
      sent ++ (offsets.take pages.2).map (pageAt base pageSize))

/-- The loop of the offset walk; `budget` is the number of pages it may still ask
for. -/
def walk (server : Server) (pageSize : ℕ) (base : String) :
    ℕ → ℕ → List VaultApiRecord → List PageRequest → Fetched
  | 0, _, all, sent => (.ok all, sent)
  | budget + 1, offset, all, sent =>
    let request := pageAt base pageSize offset
    match signedGet decodePage (server sent.length request) with
    | .error e => (.error e, sent ++ [request])
    | .ok page =>
      if page.length < pageSize then (.ok (all ++ page), sent ++ [request])
      else walk server pageSize base budget (offset + pageSize) (all ++ page) (sent ++ [request])

def fetchSequentially (server : Server) (pageSize : ℕ) (base : String)
    (alreadyFetched : List VaultApiRecord) (sent : List PageRequest) : Fetched :=
  if alreadyFetched.length = pageSize then
    walk server pageSize base (maxPages - 1) pageSize alreadyFetched sent
  else if alreadyFetched.isEmpty then walk server pageSize base maxPages 0 [] sent
  else (.ok alreadyFetched, sent)

def fetchIps (server : Server) (pick : ℕ → ℕ) (pageSize : ℕ) (groups : String)
    (since : Option NaiveDateTime) : Fetched :=
  let base := ipsBase groups since
  let first : PageRequest := ⟨base, true, pageSize, 0⟩
  match signedGet decodeIps (server 0 first) with
  | .ok (.envelope data totalPages) =>
    fetchRemainingPagesInParallel server pick pageSize base data totalPages [first]
  | .ok (.legacy data) => fetchSequentially server pageSize base data [first]
  | .error (.status 400) => fetchSequentially server pageSize base [] [first]
  | .error e => (.error e, [first])

end SimplyIpExporter.VaultClient
