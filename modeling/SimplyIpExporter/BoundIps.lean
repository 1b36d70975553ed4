import SimplyIpExporter.Entities

/-!
# Network bindings of keys and endpoints

A `bound_ips` value is a comma-separated list of networks, addresses and host
names. Parsing stops at the first entry that is none of them.
-/
namespace SimplyIpExporter.BoundIps
open RustText IpAddresses Entities

inductive BoundIpEntry where
  | network (net : IpNet)
  | hostname (name : String)
  deriving DecidableEq, Repr

def isAsciiDigit (c : Char) : Bool := 48 ≤ c.toNat && c.toNat ≤ 57

def isAsciiAlphanumeric (c : Char) : Bool :=
  isAsciiDigit c || (65 ≤ c.toNat && c.toNat ≤ 90) || (97 ≤ c.toNat && c.toNat ≤ 122)

/-- Whether the first and the last byte are letters or digits. A byte of a longer
character is neither, so the characters decide. -/
def edgesAreAlphanumeric (cs : List Char) : Bool :=
  match cs.head?, cs.getLast? with
  | some first, some last => isAsciiAlphanumeric first && isAsciiAlphanumeric last
  | _, _ => false

/-- Why an entry cannot be a host name, if it cannot. -/
def hostnameRejection (entry : String) : Option String :=
  let cs := entry.toList
  if cs.isEmpty then some "empty"
  else if entry.utf8ByteSize > 253 then some "longer than the 253-character limit on a DNS name"
  else if cs.contains '/' || cs.contains ':' then
    some ("contains '/' or ':', which appear only in CIDR and IPv6 syntax, so this is a " ++
      "malformed address rather than a hostname")
  else if !edgesAreAlphanumeric cs then
    some "a hostname must begin and end with a letter or a digit"
  else if cs.all fun c => isAsciiDigit c || c == '.' then
    some "made only of digits and dots, so this is a malformed IPv4 literal"
  else if !cs.all fun c => isAsciiAlphanumeric c || c == '-' || c == '.' || c == '_' then
    some "contains characters that cannot appear in a DNS name"
  else none

def parseEntry (crates : Crates) (entry : String) : Except String BoundIpEntry :=
  match crates.parseNet entry with
  | some net => .ok (.network net)
  | none =>
    match parseIpAddr entry with
    | some addr => .ok (.network (.fromAddr addr))
    | none =>
      match hostnameRejection entry with
      | none => .ok (.hostname entry)
      | some reason => .error (s!"Invalid entry in bound_ips: {crates.debugText entry} is not a " ++
          s!"CIDR range, IP address, or valid hostname ({reason})")

def parseBoundIps (crates : Crates) (raw : String) : Except String (List BoundIpEntry) :=
  (((split ',' raw).map trim).filter (· != "")).mapM (parseEntry crates)

def validateBoundIps (crates : Crates) (raw : String) : Except String Unit :=
  (parseBoundIps crates raw).map fun _ => ()

end SimplyIpExporter.BoundIps
