import SimplyIpExporter.VaultClient

/-!
# Paging through a fixed list

A Vault that holds a fixed list and serves slices of it, in the three ways it may
take the `include_total` flag. `served` is the number of records it serves for a
requested limit: the limit itself, or the limit under a cap.

When a page is as long as requested, all three ways lead to the same records, the
first `maxPages` pages of the list, whatever order concurrent pages complete in.
Under a cap below the page size the fetch stops short or leaves gaps, because both
the offsets and the end test go by the requested length.

Numbers have no limits here. Those of the machine, for offsets and for the memory that
the announced number of pages takes, are the subject of `FetchLimits`, whose
`fetchIps_matches` says when they make no difference.
-/
namespace SimplyIpExporter.Pagination
open VaultClient BufferedCompletion

/-- How a Vault takes `include_total`. -/
inductive Flavour where
  | envelope
  | ignores
  | rejects
  deriving DecidableEq, Repr

def slice (records : List VaultApiRecord) (offset length : ℕ) : List VaultApiRecord :=
  (records.drop offset).take length

def ceilDiv (n d : ℕ) : ℕ := (n + d - 1) / d

def reply (flavour : Flavour) (served : ℕ → ℕ) (records : List VaultApiRecord)
    (r : PageRequest) : Reply :=
  let data := slice records r.offset (served r.limit)
  match r.includeTotal, flavour with
  | true, .envelope => .response 200 (.envelope data (ceilDiv records.length (served r.limit)))
  | true, .rejects => .response 400 .other
  | true, .ignores | false, _ => .response 200 (.array data)

def server (flavour : Flavour) (served : ℕ → ℕ) (records : List VaultApiRecord) : Server :=
  fun _ => reply flavour served records

/-- A Vault whose list may be another one at each request. -/
def movingServer (flavour : Flavour) (served : ℕ → ℕ) (lists : ℕ → List VaultApiRecord) : Server :=
  fun n => reply flavour served (lists n)

theorem server_eq_movingServer (flavour : Flavour) (served : ℕ → ℕ)
    (records : List VaultApiRecord) :
    server flavour served records = movingServer flavour served fun _ => records := rfl

/-- The offsets of the replies that bring records, in the order of their requests. -/
def dataOffsets (answer : PageRequest → Reply) (sent : List PageRequest) : List ℕ :=
  (sent.filter fun r => match answer r with
    | .response 200 (.envelope (_ :: _) _) | .response 200 (.array (_ :: _)) => true
    | _ => false).map (·.offset)

theorem slice_add (records : List VaultApiRecord) (offset m n : ℕ) :
    slice records offset (m + n) = slice records offset m ++ slice records (offset + m) n := by
  simp only [slice, List.take_add, List.drop_drop]

theorem slice_eq_of_short {records : List VaultApiRecord} {offset m n : ℕ}
    (h : (slice records offset m).length < m) (hmn : m ≤ n) :
    slice records offset n = slice records offset m := by
  simp only [slice, List.length_take, List.length_drop] at h ⊢
  rw [List.take_of_length_le (by simp; omega), List.take_of_length_le (by simp; omega)]

theorem signedGet_page (flavour : Flavour) (served : ℕ → ℕ) (records : List VaultApiRecord)
    (base : String) (pageSize offset : ℕ) :
    signedGet decodePage (reply flavour served records (pageAt base pageSize offset)) =
      .ok (slice records offset (served pageSize)) := rfl

/-- Offsets that advance by the page size are distinct. -/
theorem nodup_offsets (base : String) {pageSize : ℕ} (hp : 0 < pageSize) (start k : ℕ) :
    (((List.range k).map fun i => pageAt base pageSize (start + i * pageSize)).map
      (·.offset)).Nodup := by
  rw [List.map_map]
  refine List.Nodup.map ?_ List.nodup_range
  intro i j hij
  have hmul : i * pageSize = j * pageSize := Nat.add_left_cancel hij
  exact Nat.eq_of_mul_eq_mul_right hp hmul

theorem dataOffsets_nodup {answer : PageRequest → Reply} {sent : List PageRequest}
    (h : (sent.map (·.offset)).Nodup) : (dataOffsets answer sent).Nodup :=
  h.sublist (List.filter_sublist.map _)

theorem dataOffsets_append (answer : PageRequest → Reply) (sent sent' : List PageRequest) :
    dataOffsets answer (sent ++ sent') = dataOffsets answer sent ++ dataOffsets answer sent' := by
  simp [dataOffsets]

section Fetch
variable (flavour : Flavour) (served : ℕ → ℕ) (records : List VaultApiRecord)
  {pageSize : ℕ} (base : String)

/-- The offset walk reads on to the end or to its budget. -/
theorem walk_eq (hserved : served pageSize = pageSize)
    (budget offset : ℕ) (all : List VaultApiRecord) (sent : List PageRequest) :
    ∃ k, walk (server flavour served records) pageSize base budget offset all sent =
      (.ok (all ++ slice records offset (budget * pageSize)),
        sent ++ (List.range k).map fun i => pageAt base pageSize (offset + i * pageSize)) := by
  induction budget generalizing offset all sent with
  | zero => exact ⟨0, by simp [walk, slice]⟩
  | succ budget ih =>
      simp only [walk, server, signedGet_page, hserved]
      rw [Nat.succ_mul, Nat.add_comm (budget * pageSize)]
      by_cases hshort : (slice records offset pageSize).length < pageSize
      · refine ⟨1, ?_⟩
        rw [if_pos hshort, slice_eq_of_short hshort (Nat.le_add_right pageSize _)]
        simp
      · obtain ⟨k, hk⟩ := ih (offset + pageSize) (all ++ slice records offset pageSize)
          (sent ++ [pageAt base pageSize offset])
        refine ⟨k + 1, ?_⟩
        rw [if_neg hshort, hk, slice_add, List.range_succ_eq_map]
        simp [Function.comp_def, Nat.succ_mul, Nat.add_assoc, Nat.add_comm, Nat.add_left_comm]

/-- A first page shorter than requested ends the walk. -/
theorem walk_of_short {budget : ℕ} (hshort : (slice records 0 (served pageSize)).length < pageSize)
    (sent : List PageRequest) :
    walk (server flavour served records) pageSize base (budget + 1) 0 [] sent =
      (.ok (slice records 0 (served pageSize)), sent ++ [pageAt base pageSize 0]) := by
  simp only [walk, server, signedGet_page]
  rw [if_pos hshort, List.nil_append]

omit records in
/-- The concurrent pages are slices at multiples of the page size, in some order, each of
the list at its own request. -/
theorem fetchRemainingPagesInParallel_eq (lists : ℕ → List VaultApiRecord) (hp : 0 < pageSize)
    (pick : ℕ → ℕ) (data : List VaultApiRecord) (totalPages : ℕ) {count : ℕ}
    (hcount : count = min (maxPages - 1) (totalPages - 1)) (first : PageRequest) :
    ∃ rs, fetchRemainingPagesInParallel (movingServer flavour served lists) pick pageSize base data
        totalPages [first] =
      (.ok rs, first :: (List.range count).map fun i => pageAt base pageSize ((1 + i) * pageSize)) ∧
      rs.Perm (data ++ ((List.range count).map fun i =>
        slice (lists (1 + i)) ((1 + i) * pageSize) (served pageSize)).flatten) := by
  have hoffsets : ((List.range' 1 (totalPages - 1)).map (· * pageSize)).take (maxPages - 1) =
      (List.range count).map fun i => (1 + i) * pageSize := by
    rw [List.range'_eq_map_range, List.map_map, ← List.map_take, List.take_range, ← hcount]
    rfl
  unfold fetchRemainingPagesInParallel
  by_cases hnone : totalPages - 1 = 0
  · rw [hnone, Nat.min_zero] at hcount
    subst hcount
    exact ⟨data, by simp [hnone], by simp⟩
  · have hmany : ((List.range' 1 (totalPages - 1)).map (· * pageSize)).isEmpty = false := by
      simpa using hnone
    -- the place of an offset among the requests can be read off the offset
    have hanswer : ∀ n offset, ((List.range count).map fun i => (1 + i) * pageSize)[n]? =
        some offset →
        signedGet decodePage
          (movingServer flavour served lists (1 + n) (pageAt base pageSize offset)) =
          .ok (slice (lists (offset / pageSize)) offset (served pageSize)) := by
      intro n offset hoffset
      obtain ⟨i, hi, rfl⟩ : ∃ i, (List.range count)[n]? = some i ∧ (1 + i) * pageSize = offset := by
        simpa using hoffset
      obtain rfl : n = i := by
        rw [List.getElem?_eq_some_iff] at hi
        simpa using hi.2
      rw [Nat.mul_div_cancel _ hp]
      rfl
    obtain ⟨pages, hpages, hperm⟩ := bufferUnordered_perm hanswer
      (by decide : 0 < maxConcurrentPages) pick
    rw [List.map_map] at hperm
    have hplaces : ((fun offset => slice (lists (offset / pageSize)) offset (served pageSize)) ∘
        fun i => (1 + i) * pageSize) = fun i => slice (lists (1 + i)) ((1 + i) * pageSize)
          (served pageSize) := by
      funext i
      simp only [Function.comp_apply, Nat.mul_div_cancel _ hp]
    rw [hplaces] at hperm
    simp only [hmany, hoffsets, Bool.false_eq_true, if_false, List.length_singleton, hpages]
    refine ⟨data ++ pages.flatten, ?_, hperm.flatten.append_left data⟩
    simp [Except.map, Function.comp_def]

/-- Consecutive pages of full length are a beginning of the list. -/
theorem flatten_slices (n : ℕ) :
    slice records 0 pageSize ++ ((List.range n).map fun i =>
      slice records ((1 + i) * pageSize) pageSize).flatten = records.take ((n + 1) * pageSize) := by
  induction n with
  | zero => simp [slice]
  | succ n ih =>
      rw [List.range_succ, List.map_append, List.flatten_append, ← List.append_assoc, ih,
        Nat.succ_mul (n + 1), List.take_add]
      simp [slice, Nat.add_comm 1 n]

theorem length_le_ceilDiv_mul (n : ℕ) {d : ℕ} (hd : 0 < d) : n ≤ (ceilDiv n d - 1 + 1) * d := by
  have hdiv : (n + d - 1) / d * d + (n + d - 1) % d = n + d - 1 := Nat.div_add_mod' _ _
  have hmod := Nat.mod_lt (n + d - 1) hd
  unfold ceilDiv
  rcases Nat.eq_zero_or_pos ((n + d - 1) / d) with hzero | hpos
  · rw [hzero] at hdiv ⊢
    omega
  · rw [Nat.sub_add_cancel hpos]
    omega

theorem ceilDiv_of_le {n d : ℕ} (h : n ≤ d) : ceilDiv n d - 1 = 0 := by
  unfold ceilDiv
  rcases Nat.eq_zero_or_pos d with rfl | hd
  · simp
  · have hlt : (n + d - 1) / d < 2 := Nat.div_lt_of_lt_mul (by omega)
    omega

/-- All pages the count allows for reach the end or the ceiling. -/
theorem take_pages (hp : 0 < pageSize) :
    records.take ((min (maxPages - 1) (ceilDiv records.length pageSize - 1) + 1) * pageSize) =
      records.take (maxPages * pageSize) := by
  have hall := length_le_ceilDiv_mul records.length hp
  rcases Nat.le_total (maxPages - 1) (ceilDiv records.length pageSize - 1) with h | h
  · rw [Nat.min_eq_left h]
    rfl
  · rw [Nat.min_eq_right h, List.take_of_length_le hall, List.take_of_length_le]
    exact hall.trans (Nat.mul_le_mul_right pageSize (Nat.add_le_add_right h 1))

end Fetch

section Flavours
variable (served : ℕ → ℕ) (records : List VaultApiRecord) (pick : ℕ → ℕ) (pageSize : ℕ)
  (groups : String) (since : Option Entities.NaiveDateTime)

/-- The first request, which asks for the page count. -/
def probe : PageRequest := ⟨ipsBase groups since, true, pageSize, 0⟩

theorem fetchIps_envelope :
    fetchIps (server .envelope served records) pick pageSize groups since =
      fetchRemainingPagesInParallel (server .envelope served records) pick pageSize
        (ipsBase groups since) (slice records 0 (served pageSize))
        (ceilDiv records.length (served pageSize)) [probe pageSize groups since] := rfl

theorem fetchIps_ignores :
    fetchIps (server .ignores served records) pick pageSize groups since =
      fetchSequentially (server .ignores served records) pageSize (ipsBase groups since)
        (slice records 0 (served pageSize)) [probe pageSize groups since] := rfl

theorem fetchIps_rejects :
    fetchIps (server .rejects served records) pick pageSize groups since =
      fetchSequentially (server .rejects served records) pageSize (ipsBase groups since)
        [] [probe pageSize groups since] := rfl

end Flavours

/-- What a fetch of the whole list returns: each record once, and no page of data
asked for twice. -/
structure Whole (answer : PageRequest → Reply) (records : List VaultApiRecord) (fetched : Fetched) :
    Prop where
  result : ∃ rs, fetched.1 = .ok rs ∧ rs.Perm records
  once : (dataOffsets answer fetched.2).Nodup

section Whole
variable {served : ℕ → ℕ} {records : List VaultApiRecord} {pageSize : ℕ} (hp : 0 < pageSize)
  (hserved : served pageSize = pageSize) (pick : ℕ → ℕ) (groups : String)
  (since : Option Entities.NaiveDateTime)

/-- A first page followed by the pages after it. -/
theorem nodup_from_probe (hp : 0 < pageSize) (k : ℕ) :
    ((probe pageSize groups since :: (List.range k).map fun i =>
      pageAt (ipsBase groups since) pageSize ((1 + i) * pageSize)).map (·.offset)).Nodup := by
  have hnodup := nodup_offsets (ipsBase groups since) hp 0 (k + 1)
  rw [List.range_succ_eq_map] at hnodup
  simpa [probe, pageAt, Function.comp_def, Nat.add_comm] using hnodup

include hp hserved

theorem envelope_whole : Whole (reply .envelope served records) (records.take (maxPages * pageSize))
    (fetchIps (server .envelope served records) pick pageSize groups since) := by
  obtain ⟨rs, hrs, hperm⟩ := fetchRemainingPagesInParallel_eq .envelope served
    (ipsBase groups since) (fun _ => records) hp pick (slice records 0 pageSize)
    (ceilDiv records.length pageSize) rfl (probe pageSize groups since)
  rw [hserved, flatten_slices, take_pages records hp] at hperm
  rw [fetchIps_envelope, hserved, server_eq_movingServer, hrs]
  exact ⟨⟨rs, rfl, hperm⟩, dataOffsets_nodup (nodup_from_probe groups since hp _)⟩

/-- A walk from the beginning, after a first request that brought nothing. -/
theorem restart_whole (flavour : Flavour)
    (hprobe : dataOffsets (reply flavour served records) [probe pageSize groups since] = []) :
    Whole (reply flavour served records) (records.take (maxPages * pageSize))
      (walk (server flavour served records) pageSize (ipsBase groups since) maxPages 0 []
        [probe pageSize groups since]) := by
  obtain ⟨k, hk⟩ := walk_eq flavour served records (ipsBase groups since) hserved maxPages 0 []
    [probe pageSize groups since]
  rw [hk]
  refine ⟨⟨_, rfl, List.Perm.refl _⟩, ?_⟩
  rw [dataOffsets_append, hprobe, List.nil_append]
  exact dataOffsets_nodup (nodup_offsets _ hp 0 k)

/-- A bare array of full length is page one of the walk. -/
theorem ignores_whole : Whole (reply .ignores served records) (records.take (maxPages * pageSize))
    (fetchIps (server .ignores served records) pick pageSize groups since) := by
  rw [fetchIps_ignores, hserved]
  unfold fetchSequentially
  by_cases hfull : (slice records 0 pageSize).length = pageSize
  · obtain ⟨k, hk⟩ := walk_eq .ignores served records (ipsBase groups since) hserved (maxPages - 1)
      pageSize (slice records 0 pageSize) [probe pageSize groups since]
    have hall : slice records 0 pageSize ++ slice records pageSize ((maxPages - 1) * pageSize) =
        records.take (maxPages * pageSize) := by
      have hadd := slice_add records 0 pageSize ((maxPages - 1) * pageSize)
      rw [Nat.zero_add] at hadd
      rw [← hadd, Nat.add_comm, ← Nat.succ_mul]
      rfl
    have hoffsets : ∀ i, pageSize + i * pageSize = (1 + i) * pageSize := by
      intro i
      rw [Nat.add_mul, Nat.one_mul]
    rw [if_pos hfull, hk, hall]
    simp only [hoffsets, List.singleton_append]
    exact ⟨⟨_, rfl, List.Perm.refl _⟩, dataOffsets_nodup (nodup_from_probe groups since hp k)⟩
  · have hshort : (slice records 0 pageSize).length < pageSize := by
      refine lt_of_le_of_ne ?_ hfull
      simp [slice]
    have hall : records.take (maxPages * pageSize) = slice records 0 pageSize :=
      slice_eq_of_short hshort (Nat.le_mul_of_pos_left pageSize (by decide))
    rw [if_neg hfull]
    by_cases hnone : (slice records 0 pageSize).isEmpty = true
    · have hnil : slice records 0 (served pageSize) = [] := by
        rw [hserved]
        exact List.isEmpty_iff.mp hnone
      rw [if_pos hnone]
      refine restart_whole hp hserved groups since .ignores ?_
      simp [dataOffsets, reply, probe, hnil]
    · rw [if_neg hnone, hall]
      exact ⟨⟨_, rfl, List.Perm.refl _⟩, dataOffsets_nodup (by simp)⟩

theorem rejects_whole : Whole (reply .rejects served records) (records.take (maxPages * pageSize))
    (fetchIps (server .rejects served records) pick pageSize groups since) := by
  have hempty : ([] : List VaultApiRecord).length ≠ pageSize := hp.ne
  rw [fetchIps_rejects]
  unfold fetchSequentially
  rw [if_neg hempty, if_pos List.isEmpty_nil]
  refine restart_whole hp hserved groups since .rejects ?_
  simp [dataOffsets, reply, probe]

theorem fetch_whole (flavour : Flavour) (records : List VaultApiRecord) :
    Whole (reply flavour served records) (records.take (maxPages * pageSize))
      (fetchIps (server flavour served records) pick pageSize groups since) := by
  cases flavour with
  | envelope => exact envelope_whole hp hserved pick groups since
  | ignores => exact ignores_whole hp hserved pick groups since
  | rejects => exact rejects_whole hp hserved pick groups since

end Whole

def sampleRecords : List VaultApiRecord :=
  [⟨"10.0.0.1", 3, false⟩, ⟨"10.0.0.2", 2, false⟩, ⟨"10.0.0.3", 1, false⟩]

/-- A Vault that serves exactly the limit asked for. -/
def exactServer (flavour : Flavour) (records : List VaultApiRecord) : Server :=
  server flavour id records

/-- The three ways of fetching agree, for every page size and every order of
completion: they return the first `maxPages` pages of records, each once, and ask
for no page of data twice. -/
theorem fetchIps_complete (flavour : Flavour) (records : List VaultApiRecord) {pageSize : ℕ}
    (hp : 0 < pageSize) (pick : ℕ → ℕ) (groups : String)
    (since : Option Entities.NaiveDateTime) :
    ∃ rs sent, fetchIps (exactServer flavour records) pick pageSize groups since = (.ok rs, sent) ∧
      rs.Perm (records.take (min records.length (maxPages * pageSize))) ∧
      (dataOffsets (reply flavour id records) sent).Nodup := by
  obtain ⟨⟨rs, hrs, hperm⟩, honce⟩ := fetch_whole hp (rfl : id pageSize = pageSize) pick groups
    since flavour records
  refine ⟨rs, _, Prod.ext hrs rfl, ?_, honce⟩
  rwa [Nat.min_comm, ← List.take_take, List.take_length]

/-- Three records in pages of two; the second page under way finishes first. -/
theorem fetchIps_complete_pairs :
    ∃ rs sent, fetchIps (exactServer .envelope sampleRecords) (fun _ => 1) 2 "dmz" none =
        (.ok rs, sent) ∧
      rs.Perm sampleRecords ∧ (dataOffsets (reply .envelope id sampleRecords) sent).Nodup :=
  fetchIps_complete .envelope sampleRecords (by decide) (fun _ => 1) "dmz" none

/-- A Vault that serves at most `cap` records however many are asked for. -/
def cappedServer (flavour : Flavour) (cap : ℕ) (records : List VaultApiRecord) : Server :=
  server flavour (min · cap) records

section Capped
variable {records : List VaultApiRecord} {pageSize cap : ℕ}

/-- Disjoint pages that leave a gap after the first do not add up to the list: page
by page, one record before the next offset or the end stays missing. -/
theorem length_gapped (hgap : cap < pageSize) (hmore : cap < records.length) (n : ℕ) :
    (slice records 0 cap ++ ((List.range n).map fun i =>
      slice records ((1 + i) * pageSize) cap).flatten).length <
      min records.length ((n + 1) * pageSize) := by
  induction n with
  | zero =>
      simp only [slice, List.range_zero, List.map_nil, List.flatten_nil, List.append_nil,
        List.length_take, List.drop_zero]
      omega
  | succ n ih =>
      rw [List.range_succ, List.map_append, List.flatten_append, ← List.append_assoc,
        List.length_append, Nat.succ_mul (n + 1)]
      have hpage : ([n].map fun i => slice records ((1 + i) * pageSize) cap).flatten.length =
          min cap (records.length - (n + 1) * pageSize) := by
        simp [slice, Nat.add_comm 1 n]
      rw [hpage]
      omega

/-- With a first page shorter than requested, a sequential fetch returns that page. -/
theorem fetchSequentially_of_short (flavour : Flavour) {served : ℕ → ℕ} (base : String)
    (hshort : (slice records 0 (served pageSize)).length < pageSize) {already : List VaultApiRecord}
    (halready : already = [] ∨ already = slice records 0 (served pageSize))
    (sent : List PageRequest) :
    (fetchSequentially (server flavour served records) pageSize base already sent).1 =
      .ok (slice records 0 (served pageSize)) := by
  have hlength : already.length < pageSize := by
    rcases halready with rfl | rfl
    · exact Nat.zero_lt_of_lt hshort
    · exact hshort
  unfold fetchSequentially
  rw [if_neg hlength.ne]
  by_cases hnone : already.isEmpty = true
  · rw [if_pos hnone, show maxPages = 999 + 1 from rfl, walk_of_short _ _ _ _ hshort]
  · rw [if_neg hnone]
    rcases halready with rfl | rfl
    · exact absurd rfl hnone
    · rfl

/-- Below the page size, a capped fetch returns the whole list only if one page
holds it, and otherwise too few records. -/
theorem capped_result (flavour : Flavour) (records : List VaultApiRecord) (hgap : cap < pageSize)
    (pick : ℕ → ℕ) (groups : String) (since : Option Entities.NaiveDateTime) :
    ∃ rs, (fetchIps (cappedServer flavour cap records) pick pageSize groups since).1 = .ok rs ∧
      (records.length ≤ cap → rs.Perm records) ∧
      (cap < records.length → rs.length < records.length) := by
  have hserved : min pageSize cap = cap := Nat.min_eq_right hgap.le
  have hshort : (slice records 0 (min pageSize cap)).length < pageSize := by
    simp only [slice, List.length_take]
    omega
  have hone : records.length ≤ cap →
      slice records 0 cap = records := fun h => List.take_of_length_le h
  have hpage : (records.length ≤ cap → (slice records 0 cap).Perm records) ∧
      (cap < records.length → (slice records 0 cap).length < records.length) := by
    constructor
    · intro h
      rw [hone h]
    · intro h
      simp only [slice, List.length_take, List.drop_zero]
      omega
  cases flavour with
  | envelope =>
      obtain ⟨rs, hrs, hperm⟩ := fetchRemainingPagesInParallel_eq .envelope (min · cap)
        (ipsBase groups since) (fun _ => records) (Nat.zero_lt_of_lt hgap) pick
        (slice records 0 cap) (ceilDiv records.length cap) rfl (probe pageSize groups since)
      rw [hserved] at hperm
      refine ⟨rs, ?_, ?_, ?_⟩
      · rw [cappedServer, fetchIps_envelope, hserved, server_eq_movingServer, hrs]
      · intro h
        rw [ceilDiv_of_le h, Nat.min_zero, hone h] at hperm
        simpa using hperm
      · intro h
        rw [hperm.length_eq]
        exact lt_of_lt_of_le (length_gapped hgap h _) (Nat.min_le_left _ _)
  | ignores =>
      refine ⟨slice records 0 cap, ?_, hpage⟩
      rw [cappedServer, fetchIps_ignores, fetchSequentially_of_short .ignores _ hshort (.inr rfl),
        hserved]
  | rejects =>
      refine ⟨slice records 0 cap, ?_, hpage⟩
      rw [cappedServer, fetchIps_rejects, fetchSequentially_of_short .rejects _ hshort (.inl rfl),
        hserved]

/-- A capped Vault is fetched whole exactly when the cap leaves pages as long as
requested, or one page under the cap holds everything. -/
theorem fetchIps_capped_iff (flavour : Flavour) (records : List VaultApiRecord) {pageSize cap : ℕ}
    (hp : 0 < pageSize) (hfits : records.length ≤ maxPages * min pageSize cap) (pick : ℕ → ℕ)
    (groups : String) (since : Option Entities.NaiveDateTime) :
    (∀ rs, (fetchIps (cappedServer flavour cap records) pick pageSize groups since).1 = .ok rs →
      rs.Perm records) ↔ pageSize ≤ cap ∨ records.length ≤ cap := by
  rcases Nat.lt_or_ge cap pageSize with hgap | hlong
  · obtain ⟨rs, hrs, hall, hfew⟩ := capped_result flavour records hgap pick groups since
    rw [hrs]
    constructor
    · intro h
      right
      by_contra hmore
      have hlt := hfew (Nat.lt_of_not_le hmore)
      exact hlt.ne (h rs rfl).length_eq
    · rintro (hle | hle) rs' h
      · omega
      · cases h
        exact hall hle
  · have hserved : min pageSize cap = pageSize := Nat.min_eq_left hlong
    have hwhole : Whole (reply flavour (min · cap) records) (records.take (maxPages * pageSize))
        (fetchIps (cappedServer flavour cap records) pick pageSize groups since) :=
      fetch_whole hp hserved pick groups since flavour records
    obtain ⟨rs, hrs, hperm⟩ := hwhole.result
    rw [hserved] at hfits
    rw [List.take_of_length_le hfits] at hperm
    refine iff_of_true ?_ (.inl hlong)
    intro rs' h
    rw [hrs] at h
    cases h
    exact hperm

theorem fetchIps_capped_iff_generous :
    ∃ rs, (fetchIps (cappedServer .rejects 2 sampleRecords) (fun _ => 0) 2 "dmz" none).1 = .ok rs ∧
      rs.Perm sampleRecords := by
  have hok : (fetchIps (cappedServer .rejects 2 sampleRecords) (fun _ => 0) 2 "dmz" none).1 =
      .ok sampleRecords := by
    decide
  have hall :=
    (fetchIps_capped_iff .rejects sampleRecords (by decide) (by decide) (fun _ => 0) "dmz"
    none).mpr (.inl (by decide : 2 ≤ 2))
  exact ⟨sampleRecords, hok, hall sampleRecords hok⟩

/-- Under a cap of two, a fetch of three records in pages of a thousand succeeds
with the first two. -/
theorem fetchIps_capped_truncates :
    sampleRecords.length ≤ maxPages * min pageSizeDefault 2 ∧
    ∃ rs, (fetchIps (cappedServer .envelope 2 sampleRecords) (fun _ => 0) pageSizeDefault "dmz"
        none).1 = .ok rs ∧ ¬ rs.Perm sampleRecords := by
  refine ⟨by decide, sampleRecords.take 2, by decide, ?_⟩
  intro h
  exact absurd h.length_eq (by decide)

end Capped
end SimplyIpExporter.Pagination
