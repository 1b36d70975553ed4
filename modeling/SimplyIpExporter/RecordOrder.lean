import SimplyIpExporter.AddressCache

/-!
# Does the order of a batch matter?

Pages of a fetch are merged in the order they complete, so one batch may reach
the cache in any order, and an address may occur in it more than once. The last
record of an address decides what is stored. The theorem says exactly for which
batches every order shows the same networks through every retention window: as
soon as some record of the batch would show a network, there has to be an address
that shows it whichever of its records comes last.
-/
namespace SimplyIpExporter.RecordOrder
open IpAddresses Entities LastWriterWins AddressCache

/-- Both readings panic, or both show the same networks. -/
def SameNetworks : Option (List IpNet) → Option (List IpNet) → Prop
  | none, none => True
  | some nets, some nets' => ∀ net, net ∈ nets ↔ net ∈ nets'
  | _, _ => False

/-- The record shows `net` through the window. -/
def shows (inside : NaiveDateTime → Bool) (net : IpNet) (r : CachedRecord) : Bool :=
  decide (r.network = net) && inside r.lastSeenAt

theorem mem_snapshot_iff (inside : NaiveDateTime → Bool) (net : IpNet)
    (records : Store String CachedRecord) :
    net ∈ (records.entries.filter fun e => inside e.2.lastSeenAt).map (·.2.network) ↔
      Exposes (shows inside net) records := by
  simp only [List.mem_map, List.mem_filter, Exposes, shows, Bool.and_eq_true, decide_eq_true_eq]
  constructor
  · rintro ⟨⟨address, r⟩, ⟨hmem, hin⟩, hnet⟩
    exact ⟨address, r, AList.mem_lookup_iff.mpr hmem, hnet, hin⟩
  · rintro ⟨address, r, hlook, hnet, hin⟩
    exact ⟨⟨address, r⟩, ⟨AList.mem_lookup_iff.mp hlook, hin⟩, hnet⟩

/-- Two caches read the same through every window exactly when each window shows
the same networks of their records. -/
theorem sameNetworks_iff {id : Uuid} {cache cache' : IpCache} {e e' : EndpointCache}
    (h : cache.lookup id = some e) (h' : cache'.lookup id = some e') :
    (∀ maxAge now, SameNetworks (snapshotWithin id maxAge now cache)
      (snapshotWithin id maxAge now cache')) ↔
    ∀ maxAge now inside, window maxAge now = some inside → ∀ net,
      (Exposes (shows inside net) e.records ↔ Exposes (shows inside net) e'.records) := by
  have hread : ∀ maxAge now, SameNetworks (snapshotWithin id maxAge now cache)
      (snapshotWithin id maxAge now cache') ↔ ∀ inside, window maxAge now = some inside → ∀ net,
      (Exposes (shows inside net) e.records ↔ Exposes (shows inside net) e'.records) := by
    intro maxAge now
    simp only [snapshotWithin, h, h']
    cases hw : window maxAge now with
    | none => simp [SameNetworks]
    | some inside =>
        simp only [Option.map_some, SameNetworks, mem_snapshot_iff]
        constructor
        · intro hnets inside' hin
          cases hin
          exact hnets
        · exact fun hnets => hnets inside rfl
  exact forall_congr' fun maxAge => forall_congr' fun now => hread maxAge now

/-- For every window and network, the batch leaves some address no choice, or does
not concern the network at all. -/
def OrderFree (write : VaultRecord → Option (Write String CachedRecord))
    (base : Store String CachedRecord) (batch : List VaultRecord) : Prop :=
  ∀ maxAge now inside, window maxAge now = some inside → ∀ net,
    Agreed (shows inside net) base (batch.filterMap write)

/-- Every order of the writes of a batch comes from an order of the batch. -/
theorem exists_perm_filterMap {A B : Type} (f : A → Option B) {ys : List B} :
    ∀ {xs : List A}, ys.Perm (xs.filterMap f) →
      ∃ zs : List A, zs.Perm xs ∧ zs.filterMap f = ys := by
  induction ys with
  | nil => exact fun {xs} h => ⟨xs, List.Perm.refl xs, h.nil_eq.symm⟩
  | cons y ys ih =>
      intro xs h
      obtain ⟨x, hx, hfx⟩ := List.mem_filterMap.mp (h.mem_iff.mp List.mem_cons_self)
      obtain ⟨front, back, rfl⟩ := List.append_of_mem hx
      have hmid : ((front ++ x :: back).filterMap f).Perm (y :: (front ++ back).filterMap f) := by
        simp only [List.filterMap_append, List.filterMap_cons, hfx]
        exact List.perm_middle
      obtain ⟨zs, hzs, hmap⟩ := ih (h.trans hmid).cons_inv
      refine ⟨x :: zs, (hzs.cons x).trans List.perm_middle.symm, ?_⟩
      rw [List.filterMap_cons, hfx, hmap]

theorem orderFree_iff (write : VaultRecord → Option (Write String CachedRecord))
    (base : Store String CachedRecord) (batch : List VaultRecord) :
    (∀ batch' : List VaultRecord, batch'.Perm batch →
      ∀ maxAge now inside, window maxAge now = some inside → ∀ net,
      (Exposes (shows inside net) (writeAll base (batch'.filterMap write)) ↔
        Exposes (shows inside net) (writeAll base (batch.filterMap write)))) ↔
    OrderFree write base batch := by
  constructor
  · intro h maxAge now inside hw net
    rw [← exposes_order_iff]
    intro ws' hperm
    obtain ⟨batch', hbatch, rfl⟩ := exists_perm_filterMap write hperm
    exact h batch' hbatch maxAge now inside hw net
  · intro h batch' hbatch maxAge now inside hw net
    exact exposes_order_iff.mpr (h maxAge now inside hw net) _ (hbatch.filterMap write)

/-- Exactly the batches whose order does not matter, for a full sync and for a
differential one, whatever the cache held before. -/
theorem record_order_iff (crates : Crates) (id : Uuid) (cache : IpCache)
    (batch : List VaultRecord) (ranAt : ℤ) :
    ((∀ batch' : List VaultRecord, batch'.Perm batch → ∀ maxAge now,
        SameNetworks (snapshotWithin id maxAge now (applyFull crates id batch' ranAt cache))
          (snapshotWithin id maxAge now (applyFull crates id batch ranAt cache))) ↔
      OrderFree (fullWrite crates) ∅ batch) ∧
    ((∀ batch' : List VaultRecord, batch'.Perm batch → ∀ maxAge now,
        SameNetworks (snapshotWithin id maxAge now (applyDiff crates id batch' cache))
          (snapshotWithin id maxAge now (applyDiff crates id batch cache))) ↔
      OrderFree (diffWrite crates) (cache.entry id).records batch) := by
  have hfull : ∀ records : List VaultRecord, (applyFull crates id records ranAt cache).lookup id =
      some ((applyFull crates id records ranAt cache).entry id) := by
    intro records
    simp [applyFull, IpCache.entry]
  have hdiff : ∀ records : List VaultRecord, (applyDiff crates id records cache).lookup id =
      some ((applyDiff crates id records cache).entry id) := by
    intro records
    simp [applyDiff, IpCache.entry]
  constructor
  · rw [← orderFree_iff]
    apply forall_congr'
    intro batch'
    apply imp_congr_right
    intro _
    rw [sameNetworks_iff (hfull batch') (hfull batch), entry_applyFull, entry_applyFull]
  · rw [← orderFree_iff]
    apply forall_congr'
    intro batch'
    apply imp_congr_right
    intro _
    rw [sameNetworks_iff (hdiff batch') (hdiff batch), entry_applyDiff, entry_applyDiff]

/-- A live record and a tombstone of one address. -/
def liveRecord : VaultRecord := ⟨"10.0.0.1", 0, false⟩
def tombstone : VaultRecord := ⟨"10.0.0.1", 0, true⟩

theorem record_order_matters :
    [tombstone, liveRecord].Perm [liveRecord, tombstone] ∧
      ¬ SameNetworks (snapshotWithin 0 0 0 (applyDiff sampleCrates 0 [tombstone, liveRecord] ∅))
        (snapshotWithin 0 0 0 (applyDiff sampleCrates 0 [liveRecord, tombstone] ∅)) := by
  refine ⟨List.Perm.swap .., ?_⟩
  intro h
  have hmem := (h (.v4 0x0a000001#32 32)).mp (by decide)
  revert hmem
  decide

end SimplyIpExporter.RecordOrder
