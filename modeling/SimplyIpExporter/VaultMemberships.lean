import SimplyIpExporter.AddressCache
import SimplyIpExporter.VaultClient

/-!
# Memberships and tombstones

Vault keeps one state for each address within each group, and lists one record for
each of these memberships. A record does not name its group, and the cache is
keyed by address alone: the last record of an address decides. The theorem says
exactly for which differential batches the cache keeps holding the addresses with
a live membership: an address whose last record is a tombstone must not be live in
another group of the endpoint.
-/
namespace SimplyIpExporter.VaultMemberships
open RustText Entities LastWriterWins AddressCache VaultClient

def mapRecords (records : List VaultApiRecord) : List VaultRecord :=
  records.map fun r => ⟨r.targetAddress, r.lastSeenAt, r.isDeleted⟩

/-- The state of an address within one group, and when it last changed. -/
structure Membership where
  lastSeenAt : NaiveDateTime
  deleted : Bool
  changedAt : NaiveDateTime
  deriving DecidableEq, Repr

/-- Memberships by group name and address. -/
abbrev Vault := Store (String × String) Membership

def recordOf (key : String × String) (m : Membership) : VaultApiRecord :=
  ⟨key.2, m.lastSeenAt, m.deleted⟩

/-- The address has a live membership in one of the groups. -/
def Vault.Live (v : Vault) (groups : List String) (address : String) : Prop :=
  ∃ g ∈ groups, ∃ m, v.lookup (g, address) = some m ∧ m.deleted = false

instance (v : Vault) (groups : List String) (address : String) :
    Decidable (v.Live groups address) :=
  decidable_of_iff (∃ g ∈ groups, (v.lookup (g, address)).any (fun m => !m.deleted) = true) (by
    simp [Vault.Live, Option.any_eq_true])

/-- The cache holds exactly the addresses with a live membership. -/
def Holds (records : Store String CachedRecord) (v : Vault) (groups : List String) : Prop :=
  ∀ address, (records.lookup address).isSome ↔ v.Live groups address

/-- A differential batch: records of memberships of the groups in their new state,
with at least those that changed. -/
structure Batch (before after : Vault) (groups : List String) (records : List VaultApiRecord) :
    Prop where
  current : ∀ r ∈ records, ∃ g ∈ groups, ∃ m, after.lookup (g, r.targetAddress) = some m ∧
    r = recordOf (g, r.targetAddress) m
  changed : ∀ g ∈ groups, ∀ address, before.lookup (g, address) ≠ after.lookup (g, address) →
    ∃ m, after.lookup (g, address) = some m ∧ recordOf (g, address) m ∈ records

/-- The last record of an address in a batch. -/
def lastRecord (address : String) (records : List VaultApiRecord) : Option VaultApiRecord :=
  (records.filter fun r => r.targetAddress = address).getLast?

/-- No tombstone has the last word on an address that is live in the groups. -/
def TombstonesFinal (after : Vault) (groups : List String) (records : List VaultApiRecord) : Prop :=
  ∀ address r, lastRecord address records = some r → r.isDeleted = true →
    ¬ after.Live groups address

theorem lastRecord_mem {address : String} {records : List VaultApiRecord} {r : VaultApiRecord}
    (h : lastRecord address records = some r) : r ∈ records ∧ r.targetAddress = address := by
  have hmem := List.mem_filter.mp (List.mem_of_getLast? h)
  exact ⟨hmem.1, by simpa using hmem.2⟩

theorem tombstonesFinal_iff {after : Vault} {groups : List String} {records : List VaultApiRecord} :
    TombstonesFinal after groups records ↔
    ∀ r ∈ records, lastRecord r.targetAddress records = some r →
      r.isDeleted = true → ¬ after.Live groups r.targetAddress := by
  constructor
  · intro h r _ hlast
    exact h r.targetAddress r hlast
  · intro h address r hlast
    obtain ⟨hmem, rfl⟩ := lastRecord_mem hlast
    exact h r hmem hlast

instance (after : Vault) (groups : List String) (records : List VaultApiRecord) :
    Decidable (TombstonesFinal after groups records) := decidable_of_iff' _ tombstonesFinal_iff

/-- What the cache stores for a record that parses: a tombstone removes. -/
def writeOf (crates : Crates) (r : VaultApiRecord) : Option (Write String CachedRecord) :=
  diffWrite crates ⟨r.targetAddress, r.lastSeenAt, r.isDeleted⟩

theorem filterMap_mapRecords (crates : Crates) (records : List VaultApiRecord) :
    (mapRecords records).filterMap (diffWrite crates) = records.filterMap (writeOf crates) := by
  rw [mapRecords, List.filterMap_map]
  rfl

section Parsed
variable {crates : Crates} {records : List VaultApiRecord}
  (hparse : ∀ r ∈ records, (parseTargetAddress crates r.targetAddress).isSome)
include hparse

theorem writeOf_eq_some {r : VaultApiRecord} (hr : r ∈ records) :
    ∃ w, writeOf crates r = some w ∧ w.key = r.targetAddress ∧ w.value.isNone = r.isDeleted := by
  obtain ⟨net, hnet⟩ := Option.isSome_iff_exists.mp (hparse r hr)
  unfold writeOf diffWrite liveWrite
  cases hdel : r.isDeleted with
  | true => exact ⟨⟨r.targetAddress, none⟩, by simp, rfl, rfl⟩
  | false => exact ⟨⟨r.targetAddress, some ⟨net, r.lastSeenAt⟩⟩, by simp [hnet], rfl, rfl⟩

/-- The last write to an address is that of its last record. -/
theorem lastWrite_records (address : String) :
    (lastWrite address (records.filterMap (writeOf crates))).map Option.isNone =
      (lastRecord address records).map VaultApiRecord.isDeleted := by
  induction records using List.reverseRecOn with
  | nil => rfl
  | append_singleton rs r ih =>
      obtain ⟨w, hw, hkey, hdel⟩ :=
        writeOf_eq_some hparse (List.mem_append_right rs List.mem_cons_self)
      have ih' := ih fun r' hr' => hparse r' (List.mem_append_left [r] hr')
      have hone : [r].filterMap (writeOf crates) = [w] := by simp [hw]
      rw [List.filterMap_append, hone, lastWrite_append]
      unfold lastRecord at ih' ⊢
      rw [List.filter_append]
      by_cases haddr : r.targetAddress = address
      · simp [lastWrite, hkey, haddr, hdel]
      · simpa [lastWrite, hkey, haddr] using ih'

end Parsed

theorem lastRecord_eq_none {address : String} {records : List VaultApiRecord} :
    lastRecord address records = none ↔ ∀ r ∈ records, r.targetAddress ≠ address := by
  simp [lastRecord]

/-- Addresses the batch does not name are as live as before. -/
theorem Batch.live_iff_of_unnamed {before after : Vault} {groups : List String}
    {records : List VaultApiRecord} (hb : Batch before after groups records) {address : String}
    (hnone : ∀ r ∈ records, r.targetAddress ≠ address) :
    before.Live groups address ↔ after.Live groups address := by
  have hsame : ∀ g ∈ groups, before.lookup (g, address) = after.lookup (g, address) := by
    intro g hg
    by_contra hne
    obtain ⟨m, -, hmem⟩ := hb.changed g hg address hne
    exact hnone _ hmem rfl
  constructor
  · rintro ⟨g, hg, m, hm, hlive⟩
    exact ⟨g, hg, m, by rw [← hsame g hg, hm], hlive⟩
  · rintro ⟨g, hg, m, hm, hlive⟩
    exact ⟨g, hg, m, by rw [hsame g hg, hm], hlive⟩

/-- A live record of the batch shows a live membership. -/
theorem Batch.live_of_record {before after : Vault} {groups : List String}
    {records : List VaultApiRecord} (hb : Batch before after groups records) {r : VaultApiRecord}
    (hr : r ∈ records) (hlive : r.isDeleted = false) : after.Live groups r.targetAddress := by
  obtain ⟨g, hg, m, hm, hrec⟩ := hb.current r hr
  refine ⟨g, hg, m, hm, ?_⟩
  rw [hrec] at hlive
  exact hlive

/-- A full listing holds exactly the live memberships of the groups. -/
structure Listing (v : Vault) (groups : List String) (records : List VaultApiRecord) : Prop where
  live : ∀ r ∈ records, v.Live groups r.targetAddress
  complete : ∀ g ∈ groups, ∀ address m, v.lookup (g, address) = some m → m.deleted = false →
    recordOf (g, address) m ∈ records

theorem fullWrite_eq_some {crates : Crates} {r : VaultRecord} {w : Write String CachedRecord}
    (h : fullWrite crates r = some w) : r.isDeleted = false ∧
      ∃ network, parseTargetAddress crates r.targetAddress = some network ∧
        w = ⟨r.targetAddress, some ⟨network, r.lastSeenAt⟩⟩ := by
  unfold fullWrite liveWrite at h
  split at h
  · cases h
  · rename_i hlive
    obtain ⟨network, hnetwork, rfl⟩ := Option.map_eq_some_iff.mp h
    exact ⟨by simpa using hlive, network, hnetwork, rfl⟩

/-- After a full sync, an address is held if the listing has a live record of it that parses. -/
theorem isSome_applyFull (crates : Crates) (id : Uuid) (cache : IpCache) (now : ℤ)
    (records : List VaultApiRecord) (address : String) :
    (((applyFull crates id (mapRecords records) now cache).entry id).records.lookup
      address).isSome ↔
      ∃ r ∈ records, r.targetAddress = address ∧ r.isDeleted = false ∧
        (parseTargetAddress crates address).isSome := by
  rw [entry_applyFull, lookup_writeAll, AList.lookup_empty]
  constructor
  · intro hsome
    cases hw : lastWrite address ((mapRecords records).filterMap (fullWrite crates)) with
    | none => simp [hw] at hsome
    | some value =>
        obtain ⟨vr, hvr, hwrite⟩ := List.mem_filterMap.mp (lastWrite_mem hw)
        obtain ⟨r, hr, rfl⟩ := List.mem_map.mp hvr
        obtain ⟨hlive, network, hnetwork, heq⟩ := fullWrite_eq_some hwrite
        obtain rfl : address = r.targetAddress := congrArg Write.key heq
        exact ⟨r, hr, rfl, hlive, by rw [hnetwork]; rfl⟩
  · rintro ⟨r, hr, rfl, hlive, hparse⟩
    obtain ⟨network, hnetwork⟩ := Option.isSome_iff_exists.mp hparse
    have hwrite : fullWrite crates ⟨r.targetAddress, r.lastSeenAt, r.isDeleted⟩ =
        some ⟨r.targetAddress, some ⟨network, r.lastSeenAt⟩⟩ := by
      simp [fullWrite, liveWrite, hlive, hnetwork]
    have hvr : (⟨r.targetAddress, r.lastSeenAt, r.isDeleted⟩ : VaultRecord) ∈ mapRecords records :=
      List.mem_map.mpr ⟨r, hr, rfl⟩
    obtain ⟨value, hvalue⟩ := exists_lastWrite (List.mem_filterMap.mpr ⟨_, hvr, hwrite⟩) rfl
    obtain ⟨vr, -, hlast⟩ := List.mem_filterMap.mp (lastWrite_mem hvalue)
    obtain ⟨-, network', -, heq⟩ := fullWrite_eq_some hlast
    rw [hvalue, show value = some ⟨network', vr.lastSeenAt⟩ from congrArg Write.value heq]
    rfl

section Syncs
variable {crates : Crates} {records : List VaultApiRecord}
  (hparse : ∀ r ∈ records, (parseTargetAddress crates r.targetAddress).isSome)
include hparse

/-- After a batch, an address is held if its last record is live, or if it has none
and was held before. -/
theorem isSome_applyDiff (id : Uuid) (cache : IpCache) (address : String) :
    (((applyDiff crates id (mapRecords records) cache).entry id).records.lookup address).isSome =
      ((lastRecord address records).elim ((cache.entry id).records.lookup address).isSome
        fun r => !r.isDeleted) := by
  have hlast := lastWrite_records hparse address
  rw [entry_applyDiff, filterMap_mapRecords, lookup_writeAll]
  cases hw : lastWrite address (records.filterMap (writeOf crates)) with
  | none =>
      have hnone : lastRecord address records = none := by simpa [hw] using hlast.symm
      simp [hnone]
  | some value =>
      rw [hw, Option.map_some] at hlast
      obtain ⟨r, hr, hdel⟩ := Option.map_eq_some_iff.mp hlast.symm
      simp [hr, hdel]

/-- One address after a batch. -/
theorem applyDiff_address_iff (id : Uuid) (cache : IpCache) {before after : Vault}
    {groups : List String} (hbatch : Batch before after groups records) {address : String}
    (hheld : ((cache.entry id).records.lookup address).isSome ↔ before.Live groups address) :
    ((((applyDiff crates id (mapRecords records) cache).entry id).records.lookup address).isSome ↔
        after.Live groups address) ↔
      ∀ r, lastRecord address records = some r → r.isDeleted = true →
        ¬ after.Live groups address := by
  rw [isSome_applyDiff hparse]
  cases hr : lastRecord address records with
  | none =>
      have hsame := hbatch.live_iff_of_unnamed (lastRecord_eq_none.mp hr)
      simpa [← hsame] using hheld
  | some r =>
      obtain ⟨hmem, haddr⟩ := lastRecord_mem hr
      cases hdel : r.isDeleted with
      | true => simp [hdel]
      | false =>
          have hlive := hbatch.live_of_record hmem hdel
          rw [haddr] at hlive
          simp [hdel, hlive]

theorem applyFull_holds (id : Uuid) (cache : IpCache) (now : ℤ) {v : Vault} {groups : List String}
    (hlisting : Listing v groups records) :
    Holds ((applyFull crates id (mapRecords records) now cache).entry id).records v groups := by
  intro address
  rw [isSome_applyFull]
  constructor
  · rintro ⟨r, hr, rfl, -, -⟩
    exact hlisting.live r hr
  · rintro ⟨g, hg, m, hm, hlive⟩
    have hr := hlisting.complete g hg address m hm hlive
    exact ⟨_, hr, rfl, hlive, hparse _ hr⟩

end Syncs

/-- A cache that held the live addresses before the change holds them after it
exactly when no tombstone has the last word on an address still live elsewhere. -/
theorem applyDiff_holds_iff (crates : Crates) (id : Uuid) (cache : IpCache)
    {before after : Vault} {groups : List String} {records : List VaultApiRecord}
    (hheld : Holds (cache.entry id).records before groups)
    (hbatch : Batch before after groups records)
    (hparse : ∀ r ∈ records, (parseTargetAddress crates r.targetAddress).isSome) :
    Holds ((applyDiff crates id (mapRecords records) cache).entry id).records after groups ↔
      TombstonesFinal after groups records :=
  forall_congr' fun address => applyDiff_address_iff hparse id cache hbatch (hheld address)

def sampleAddress : String := "10.0.0.1"

def sampleBefore : Vault :=
  ((∅ : Vault).insert ("dmz", sampleAddress) ⟨0, false, 0⟩).insert ("lan", sampleAddress)
    ⟨0, false, 0⟩

def sampleAfter : Vault := sampleBefore.insert ("dmz", sampleAddress) ⟨0, true, 1⟩

def sampleBatch : List VaultApiRecord := [⟨sampleAddress, 0, true⟩]

def sampleCache : IpCache := applyFull sampleCrates 0 [⟨sampleAddress, 0, false⟩] 0 ∅

theorem lookup_sampleBefore {g address : String} {m : Membership}
    (h : sampleBefore.lookup (g, address) = some m) : address = sampleAddress := by
  by_contra hne
  have hlan : (g, address) ≠ ("lan", sampleAddress) := by simp [hne]
  have hdmz : (g, address) ≠ ("dmz", sampleAddress) := by simp [hne]
  rw [sampleBefore, AList.lookup_insert_ne hlan, AList.lookup_insert_ne hdmz] at h
  cases h

theorem sampleCache_holds {groups : List String} (hdmz : "dmz" ∈ groups) :
    Holds (sampleCache.entry 0).records sampleBefore groups := by
  intro address
  rw [sampleCache, entry_applyFull]
  by_cases haddr : address = sampleAddress
  · subst haddr
    have hlive : sampleBefore.Live groups sampleAddress :=
      ⟨"dmz", hdmz, ⟨0, false, 0⟩, by decide, rfl⟩
    simp only [hlive, iff_true]
    decide
  · have hdead : ¬ sampleBefore.Live groups address := by
      rintro ⟨g, -, m, hm, -⟩
      exact haddr (lookup_sampleBefore hm)
    simp only [hdead, iff_false]
    have hwrites : [⟨sampleAddress, 0, false⟩].filterMap (fullWrite sampleCrates) =
        [⟨sampleAddress, some ⟨.v4 0x0a000001#32 32, 0⟩⟩] := by decide
    rw [hwrites, lookup_writeAll, lastWrite_eq_none.mpr (by simpa using Ne.symm haddr)]
    simp

theorem sampleBatch_batch (groups : List String) (hdmz : "dmz" ∈ groups) :
    Batch sampleBefore sampleAfter groups sampleBatch where
  current := by
    intro r hr
    cases List.mem_singleton.mp hr
    exact ⟨"dmz", hdmz, ⟨0, true, 1⟩, by decide, rfl⟩
  changed := by
    intro g hg address hne
    by_cases hkey : (g, address) = ("dmz", sampleAddress)
    · rw [hkey]
      exact ⟨⟨0, true, 1⟩, by decide, by decide⟩
    · rw [sampleAfter, AList.lookup_insert_ne hkey] at hne
      exact absurd rfl hne

theorem sampleBatch_parses :
    ∀ r ∈ sampleBatch, (parseTargetAddress sampleCrates r.targetAddress).isSome := by
  decide

/-- Named alone, the first group is emptied as it should be. -/
theorem applyDiff_holds_single_group :
    Holds ((applyDiff sampleCrates 0 (mapRecords sampleBatch) sampleCache).entry 0).records
      sampleAfter ["dmz"] := by
  refine (applyDiff_holds_iff sampleCrates 0 sampleCache
    (sampleCache_holds (by decide)) (sampleBatch_batch ["dmz"] (by decide)) sampleBatch_parses).mpr
      ?_
  rintro address r hr - ⟨g, hg, m, hm, hlive⟩
  cases List.mem_singleton.mp hg
  have haddr := (lastRecord_mem hr).2
  cases List.mem_singleton.mp (lastRecord_mem hr).1
  subst haddr
  have hdead : sampleAfter.lookup ("dmz", sampleAddress) = some ⟨0, true, 1⟩ := by decide
  rw [hdead] at hm
  cases hm
  cases hlive

/-- Named together, the tombstone of the first group removes the address although
the second still has it. -/
theorem applyDiff_drops_live_address :
    Holds (sampleCache.entry 0).records sampleBefore ["dmz", "lan"] ∧
    Batch sampleBefore sampleAfter ["dmz", "lan"] sampleBatch ∧
    ¬ Holds ((applyDiff sampleCrates 0 (mapRecords sampleBatch) sampleCache).entry 0).records
      sampleAfter ["dmz", "lan"] := by
  refine ⟨sampleCache_holds (by decide), sampleBatch_batch _ (by decide), ?_⟩
  intro h
  have hlive : sampleAfter.Live ["dmz", "lan"] sampleAddress :=
    ⟨"lan", by decide, ⟨0, false, 0⟩, by decide, rfl⟩
  have hheld := (h sampleAddress).mpr hlive
  revert hheld
  decide

end SimplyIpExporter.VaultMemberships
