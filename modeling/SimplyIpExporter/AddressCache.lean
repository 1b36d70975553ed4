import SimplyIpExporter.Entities
import SimplyIpExporter.LastWriterWins

/-!
# The in-memory address cache

Each endpoint holds its records keyed by the address text Vault sent. A full sync
replaces them, a differential sync merges a batch: both go through the batch in
order. The results of the two loops are stated once as lists of writes; everything
later argues about writes.

A retention window is applied when a feed is read. Computing its cutoff leaves
the range of the date type for large windows, which panics in the original; here
the reading then has no result.
-/
namespace SimplyIpExporter.AddressCache
open IpAddresses Entities LastWriterWins

structure CachedRecord where
  network : IpNet
  lastSeenAt : NaiveDateTime
  deriving DecidableEq, Repr

structure EndpointCache where
  records : Store String CachedRecord
  lastSyncedAt : Option NaiveDateTime
  lastFullSyncAt : Option ℤ

def EndpointCache.default : EndpointCache := ⟨∅, none, none⟩

structure VaultRecord where
  targetAddress : String
  lastSeenAt : NaiveDateTime
  isDeleted : Bool
  deriving DecidableEq, Repr

abbrev IpCache := Store Uuid EndpointCache

def IpCache.entry (cache : IpCache) (id : Uuid) : EndpointCache :=
  (cache.lookup id).getD .default

def parseTargetAddress (crates : Crates) (raw : String) : Option IpNet :=
  (crates.parseNet raw).or ((parseIpAddr raw).map .fromAddr)

/-- `max_last_seen` after one more record. -/
def latest (seen : Option NaiveDateTime) (t : NaiveDateTime) : Option NaiveDateTime :=
  some (seen.elim t (max · t))

def fullStep (crates : Crates) (acc : Store String CachedRecord × Option NaiveDateTime)
    (r : VaultRecord) : Store String CachedRecord × Option NaiveDateTime :=
  if r.isDeleted then acc
  else match parseTargetAddress crates r.targetAddress with
    | none => acc
    | some network =>
      (acc.1.insert r.targetAddress ⟨network, r.lastSeenAt⟩, latest acc.2 r.lastSeenAt)

def applyFull (crates : Crates) (id : Uuid) (records : List VaultRecord) (now : ℤ)
    (cache : IpCache) : IpCache :=
  let entry := cache.entry id
  let merged := records.foldl (fullStep crates) (∅, entry.lastSyncedAt)
  cache.insert id ⟨merged.1, merged.2, some now⟩

def diffStep (crates : Crates) (acc : Store String CachedRecord × Option NaiveDateTime)
    (r : VaultRecord) : Store String CachedRecord × Option NaiveDateTime :=
  let seen := latest acc.2 r.lastSeenAt
  if r.isDeleted then (acc.1.erase r.targetAddress, seen)
  else match parseTargetAddress crates r.targetAddress with
    | none => (acc.1, seen)
    | some network => (acc.1.insert r.targetAddress ⟨network, r.lastSeenAt⟩, seen)

def applyDiff (crates : Crates) (id : Uuid) (records : List VaultRecord) (cache : IpCache) :
    IpCache :=
  let entry := cache.entry id
  let merged := records.foldl (diffStep crates) (entry.records, entry.lastSyncedAt)
  cache.insert id ⟨merged.1, merged.2, entry.lastFullSyncAt⟩

def evict (id : Uuid) (cache : IpCache) : IpCache := cache.erase id

/-- Whether a full sync has never run, or ran at least `interval` ago. -/
def fullSyncDue (id : Uuid) (interval now : ℤ) (cache : IpCache) : Bool :=
  match (cache.lookup id).bind (·.lastFullSyncAt) with
  | some ranAt => decide (interval ≤ now - ranAt)
  | none => true

/-- The first instant of `NaiveDateTime::MIN`. -/
def minDateTime : NaiveDateTime := -8334601228800 * nanosPerSecond

/-- `now - TimeDelta::seconds(max_age_seconds)`, when neither step overflows. -/
def cutoff (maxAgeSeconds : ℤ) (now : NaiveDateTime) : Option NaiveDateTime :=
  let t := now - maxAgeSeconds * nanosPerSecond
  if maxAgeSeconds ≤ RustText.i64Max / 1000 ∧ minDateTime ≤ t then some t else none

/-- Which ages a retention window lets through; zero and below mean all. -/
def window (maxAgeSeconds : ℤ) (now : NaiveDateTime) : Option (NaiveDateTime → Bool) :=
  if maxAgeSeconds ≤ 0 then some fun _ => true
  else (cutoff maxAgeSeconds now).map fun cut t => decide (cut ≤ t)

/-- The networks inside the window, in whatever order the map yields them. -/
def snapshotWithin (id : Uuid) (maxAgeSeconds : ℤ) (now : NaiveDateTime) (cache : IpCache) :
    Option (List IpNet) :=
  match cache.lookup id with
  | none => some []
  | some entry => (window maxAgeSeconds now).map fun inside =>
      (entry.records.entries.filter fun e => inside e.2.lastSeenAt).map (·.2.network)

def liveWrite (crates : Crates) (r : VaultRecord) : Option (Write String CachedRecord) :=
  (parseTargetAddress crates r.targetAddress).map fun network =>
    ⟨r.targetAddress, some ⟨network, r.lastSeenAt⟩⟩

def fullWrite (crates : Crates) (r : VaultRecord) : Option (Write String CachedRecord) :=
  if r.isDeleted then none else liveWrite crates r

def diffWrite (crates : Crates) (r : VaultRecord) : Option (Write String CachedRecord) :=
  if r.isDeleted then some ⟨r.targetAddress, none⟩ else liveWrite crates r

theorem fullStep_records (crates : Crates) (acc : Store String CachedRecord × Option NaiveDateTime)
    (r : VaultRecord) :
    (fullStep crates acc r).1 = writeAll acc.1 (fullWrite crates r).toList := by
  unfold fullStep fullWrite liveWrite
  split_ifs with hdel
  · rfl
  · cases parseTargetAddress crates r.targetAddress <;> rfl

theorem diffStep_records (crates : Crates) (acc : Store String CachedRecord × Option NaiveDateTime)
    (r : VaultRecord) :
    (diffStep crates acc r).1 = writeAll acc.1 (diffWrite crates r).toList := by
  unfold diffStep diffWrite liveWrite
  split_ifs with hdel
  · rfl
  · cases parseTargetAddress crates r.targetAddress <;> rfl

theorem foldl_records
    {step : Store String CachedRecord × Option NaiveDateTime → VaultRecord →
      Store String CachedRecord × Option NaiveDateTime}
    {write : VaultRecord → Option (Write String CachedRecord)}
    (hstep : ∀ acc r, (step acc r).1 = writeAll acc.1 (write r).toList)
    (records : List VaultRecord) (acc : Store String CachedRecord × Option NaiveDateTime) :
    (records.foldl step acc).1 = writeAll acc.1 (records.filterMap write) := by
  induction records generalizing acc with
  | nil => rfl
  | cons r records ih =>
      rw [List.foldl_cons, ih, hstep]
      cases h : write r with
      | none => simp [h]
      | some w => simp [h]

theorem entry_applyFull (crates : Crates) (id : Uuid) (records : List VaultRecord) (now : ℤ)
    (cache : IpCache) :
    ((applyFull crates id records now cache).entry id).records =
      writeAll ∅ (records.filterMap (fullWrite crates)) := by
  simp only [applyFull, IpCache.entry, AList.lookup_insert, Option.getD_some]
  exact foldl_records (fullStep_records crates) records _

theorem entry_applyDiff (crates : Crates) (id : Uuid) (records : List VaultRecord)
    (cache : IpCache) :
    ((applyDiff crates id records cache).entry id).records =
      writeAll (cache.entry id).records (records.filterMap (diffWrite crates)) := by
  simp only [applyDiff, IpCache.entry, AList.lookup_insert, Option.getD_some]
  exact foldl_records (diffStep_records crates) records _

end SimplyIpExporter.AddressCache
