import SimplyIpExporter.Pagination

/-!
# What a fetch costs

The number of requests a fetch sends to a Vault that holds a fixed list and answers
limit and offset exactly. The offset walk ends on its first short page, so a list
that fills its last page costs one more request than it has pages.

The walk tells a first page that was not fetched from one that came back empty by
their length alone. An empty page that was fetched is therefore asked for again.
-/
namespace SimplyIpExporter.FetchCost
open VaultClient Pagination

section Walk
variable (flavour : Flavour) {served : ℕ → ℕ} {records : List VaultApiRecord} {pageSize : ℕ}
  (base : String)

/-- The walk asks for every page up to the first short one. -/
theorem walk_sent (hp : 0 < pageSize) (hserved : served pageSize = pageSize) {budget offset : ℕ}
    (hstart : offset ≤ records.length) (hfits : records.length < offset + budget * pageSize)
    (all : List VaultApiRecord) (sent : List PageRequest) :
    (walk (server flavour served records) pageSize base budget offset all sent).2 =
      sent ++ (List.range ((records.length - offset) / pageSize + 1)).map fun i =>
        pageAt base pageSize (offset + i * pageSize) := by
  induction budget generalizing offset all sent with
  | zero => omega
  | succ budget ih =>
      have hlength : (slice records offset pageSize).length =
          min pageSize (records.length - offset) := by
        simp [slice]
      simp only [walk, server, signedGet_page, hserved]
      by_cases hshort : records.length - offset < pageSize
      · rw [if_pos (by omega), Nat.div_eq_of_lt hshort]
        simp
      · rw [Nat.succ_mul] at hfits
        have hrest := ih (by omega : offset + pageSize ≤ records.length) (by omega)
          (all ++ slice records offset pageSize) (sent ++ [pageAt base pageSize offset])
        have hdiv : (records.length - offset) / pageSize + 1 =
            (records.length - (offset + pageSize)) / pageSize + 1 + 1 := by
          rw [Nat.div_eq_sub_div hp (Nat.le_of_not_lt hshort), Nat.sub_sub]
        rw [if_neg (by omega), hrest, hdiv]
        generalize (records.length - (offset + pageSize)) / pageSize + 1 = k
        rw [List.range_succ_eq_map]
        simp [Function.comp_def, Nat.succ_mul, Nat.add_assoc, Nat.add_comm, Nat.add_left_comm]

end Walk

/-- The requests a fetch of `count` records should take. -/
def cost (flavour : Flavour) (count pageSize : ℕ) : ℕ :=
  match flavour with
  | .envelope => max 1 (ceilDiv count pageSize)
  | .ignores => count / pageSize + 1
  | .rejects => count / pageSize + 2

/-- The requests apart from a probe that is rejected. -/
def answered (flavour : Flavour) (sent : List PageRequest) : List PageRequest :=
  sent.filter fun r => !(decide (flavour = .rejects) && r.includeTotal)

structure ExactCost (flavour : Flavour) (count pageSize : ℕ) (sent : List PageRequest) : Prop where
  requests : sent.length = cost flavour count pageSize
  distinct : ((answered flavour sent).map (·.offset)).Nodup

theorem answered_of_ne {flavour : Flavour} (h : flavour ≠ .rejects) (sent : List PageRequest) :
    answered flavour sent = sent := by
  simp [answered, h]

section Ways
variable {records : List VaultApiRecord} {pageSize : ℕ} (hp : 0 < pageSize)
  (hfits : records.length < maxPages * pageSize) (pick : ℕ → ℕ) (groups : String)
  (since : Option Entities.NaiveDateTime)

theorem ceilDiv_le_maxPages {n d : ℕ} (hd : 0 < d) (h : n < maxPages * d) :
    ceilDiv n d ≤ maxPages := by
  unfold ceilDiv
  apply Nat.le_of_lt_succ
  apply Nat.div_lt_of_lt_mul
  rw [Nat.mul_succ, Nat.mul_comm]
  omega

include hp hfits in
theorem envelope_cost : ExactCost .envelope records.length pageSize
    (fetchIps (exactServer .envelope records) pick pageSize groups since).2 := by
  obtain ⟨rs, hrs, -⟩ := fetchRemainingPagesInParallel_eq .envelope id (ipsBase groups since)
    (fun _ => records) hp pick (slice records 0 pageSize) (ceilDiv records.length pageSize) rfl
    (probe pageSize groups since)
  have hceiling := ceilDiv_le_maxPages hp hfits
  rw [exactServer, fetchIps_envelope, server_eq_movingServer]
  simp only [id_eq] at hrs ⊢
  rw [hrs]
  refine ⟨?_, ?_⟩
  · simp only [cost, List.length_cons, List.length_map, List.length_range]
    omega
  · rw [answered_of_ne (by decide : Flavour.envelope ≠ .rejects)]
    exact nodup_from_probe groups since hp _

include hp hfits in
/-- A full first page is page one of the walk, and a short one is all there is. -/
theorem ignores_cost (hsome : records ≠ []) : ExactCost .ignores records.length pageSize
    (fetchIps (exactServer .ignores records) pick pageSize groups since).2 := by
  have hlength : (slice records 0 pageSize).length = min pageSize records.length := by
    simp [slice]
  have hpos := List.length_pos_iff.mpr hsome
  rw [exactServer, fetchIps_ignores]
  unfold fetchSequentially
  simp only [id_eq]
  by_cases hfull : pageSize ≤ records.length
  · have hbudget : records.length < pageSize + (maxPages - 1) * pageSize := by
      rw [Nat.add_comm, ← Nat.succ_mul]
      exact hfits
    have hoffsets : ∀ i, pageSize + i * pageSize = (1 + i) * pageSize := by
      intro i
      rw [Nat.add_mul, Nat.one_mul]
    rw [if_pos (by omega), walk_sent .ignores _ hp rfl hfull hbudget]
    simp only [hoffsets, List.singleton_append]
    refine ⟨?_, ?_⟩
    · simp only [cost, List.length_cons, List.length_map, List.length_range]
      rw [Nat.div_eq_sub_div hp hfull]
    · rw [answered_of_ne (by decide : Flavour.ignores ≠ .rejects)]
      exact nodup_from_probe groups since hp _
  · have hnonempty : (slice records 0 pageSize).isEmpty = false := by
      rw [List.isEmpty_eq_false_iff, ← List.length_pos_iff]
      omega
    rw [if_neg (by omega), hnonempty]
    refine ⟨?_, ?_⟩
    · simp [cost, Nat.div_eq_of_lt (Nat.lt_of_not_le hfull)]
    · simp [answered]

include hp in
/-- An empty first page is asked for twice. -/
theorem ignores_empty : (fetchIps (exactServer .ignores []) pick pageSize groups since).2 =
    [probe pageSize groups since, pageAt (ipsBase groups since) pageSize 0] := by
  rw [exactServer, fetchIps_ignores]
  unfold fetchSequentially
  rw [if_neg (by simpa [slice] using hp.ne), if_pos (by simp [slice]),
    walk_sent .ignores _ hp rfl (Nat.zero_le _) (by simpa using Nat.mul_pos (by decide) hp)]
  simp

include hp hfits in
theorem rejects_cost : ExactCost .rejects records.length pageSize
    (fetchIps (exactServer .rejects records) pick pageSize groups since).2 := by
  have hnothing : ([] : List VaultApiRecord).length ≠ pageSize := hp.ne
  rw [exactServer, fetchIps_rejects]
  unfold fetchSequentially
  rw [if_neg hnothing, if_pos List.isEmpty_nil,
    walk_sent .rejects _ hp rfl (Nat.zero_le _) (by rwa [Nat.zero_add])]
  refine ⟨?_, ?_⟩
  · simp [cost]
  · have hpages : answered .rejects ([probe pageSize groups since] ++
        (List.range ((records.length - 0) / pageSize + 1)).map fun i =>
          pageAt (ipsBase groups since) pageSize (0 + i * pageSize)) =
        (List.range ((records.length - 0) / pageSize + 1)).map fun i =>
          pageAt (ipsBase groups since) pageSize (0 + i * pageSize) := by
      simp [answered, probe, pageAt]
    rw [hpages]
    exact nodup_offsets _ hp 0 _

end Ways

/-- A fetch costs what it should unless the Vault ignores the flag and has nothing. -/
theorem fetchIps_cost_iff (flavour : Flavour) (records : List VaultApiRecord) {pageSize : ℕ}
    (hp : 0 < pageSize) (hfits : records.length < maxPages * pageSize) (pick : ℕ → ℕ)
    (groups : String) (since : Option Entities.NaiveDateTime) :
    ExactCost flavour records.length pageSize
        (fetchIps (exactServer flavour records) pick pageSize groups since).2 ↔
      ¬ (flavour = .ignores ∧ records = []) := by
  cases flavour with
  | envelope => exact iff_of_true (envelope_cost hp hfits pick groups since) nofun
  | rejects => exact iff_of_true (rejects_cost hp hfits pick groups since) nofun
  | ignores =>
      constructor
      · rintro hcost ⟨-, rfl⟩
        have htwo := hcost.requests
        rw [ignores_empty hp] at htwo
        simp [cost] at htwo
      · intro hnot
        apply ignores_cost hp hfits pick groups since
        intro hnil
        exact hnot ⟨rfl, hnil⟩

/-- Three records in pages of three, with the flag ignored: two requests. -/
theorem fetchIps_cost_fullPage :
    ExactCost .ignores 3 3
      (fetchIps (exactServer .ignores sampleRecords) (fun _ => 0) 3 "dmz" none).2 :=
  (fetchIps_cost_iff .ignores sampleRecords (by decide) (by decide) (fun _ => 0) "dmz" none).mpr
    (by decide)

/-- A Vault that has nothing and ignores the flag is asked for offset zero twice. -/
theorem fetchIps_cost_emptyVault :
    (fetchIps (exactServer .ignores []) (fun _ => 0) pageSizeDefault "dmz" none).2.map (·.offset) =
      [0, 0] ∧
    ¬ ExactCost .ignores 0 pageSizeDefault
      (fetchIps (exactServer .ignores []) (fun _ => 0) pageSizeDefault "dmz" none).2 := by
  refine ⟨by decide, ?_⟩
  intro hcost
  exact absurd hcost.requests (by decide)

end SimplyIpExporter.FetchCost
