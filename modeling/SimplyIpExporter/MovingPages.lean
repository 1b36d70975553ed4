import SimplyIpExporter.CacheFreshness

/-!
# Paging through a list that moves

While a full sync walks through the pages, Vault goes on: records are added, observed
again and deleted between the requests, and every page is cut from the list as it is when
that page is served. A fetch returns what stood on a requested page at the time of its
request. A record that was live and unchanged all along may have stood on none of them:
when a record before it is deleted after one page has been served, it moves to that page
and is not on the next.

The theorem says that nothing makes up for this. The next sync asks for what has changed
since the walk, and the skipped record has not. So the records that are live and unchanged
during a walk reach the cache by the next sync, whatever happens in between, exactly when
each of them stood on a requested page.
-/
namespace SimplyIpExporter.MovingPages
open RustText Entities KeyedTables LastWriterWins AddressCache VaultClient VaultMemberships
open Pagination Storage Services Programs EndpointHandlers SyncWorker SyncHistory CacheFreshness

section Fetch
variable (flavour : Flavour) (lists : ℕ → List VaultApiRecord) (pageSize : ℕ)

/-- The request that asks for the first page of data the fetch goes on from. -/
def firstRequest : ℕ :=
  match flavour with
  | .envelope => 0
  | .ignores => if (lists 0).isEmpty then 1 else 0
  | .rejects => 1

/-- The page, cut from the list at its request. -/
def pageOf (n : ℕ) : List VaultApiRecord :=
  slice (lists (firstRequest flavour lists + n)) (n * pageSize) pageSize

/-- A page count settles the pages at the first request; without it the walk goes on after
each full page. -/
def Requested (n : ℕ) : Prop :=
  n < maxPages ∧ match flavour with
    | .envelope => n = 0 ∨ n < ceilDiv (lists 0).length pageSize
    | .ignores | .rejects => ∀ m < n, (pageOf flavour lists pageSize m).length = pageSize

end Fetch

section Pages
variable (flavour : Flavour) (lists : ℕ → List VaultApiRecord) (pageSize : ℕ)

theorem length_slice_le (records : List VaultApiRecord) (offset length : ℕ) :
    (slice records offset length).length ≤ length := by
  rw [slice, List.length_take]
  exact Nat.min_le_left _ _

/-- The offset walk collects page after page up to the first short one. -/
theorem mem_walk (base : String) (budget offset : ℕ) (all : List VaultApiRecord)
    (sent : List PageRequest) :
    ∃ rs, (walk (movingServer flavour id lists) pageSize base budget offset all sent).1 = .ok rs ∧
      ∀ r, r ∈ rs ↔ r ∈ all ∨ ∃ i < budget,
        (∀ j < i, (slice (lists (sent.length + j)) (offset + j * pageSize) pageSize).length =
          pageSize) ∧
        r ∈ slice (lists (sent.length + i)) (offset + i * pageSize) pageSize := by
  induction budget generalizing offset all sent with
  | zero =>
      refine ⟨all, rfl, fun r => ?_⟩
      simp
  | succ budget ih =>
      have hpage : signedGet decodePage (movingServer flavour id lists sent.length
          (pageAt base pageSize offset)) = .ok (slice (lists sent.length) offset pageSize) := rfl
      simp only [walk, hpage]
      by_cases hshort : (slice (lists sent.length) offset pageSize).length < pageSize
      · rw [if_pos hshort]
        refine ⟨_, rfl, fun r => ?_⟩
        rw [List.mem_append]
        refine or_congr_right ⟨fun hr => ⟨0, Nat.succ_pos _, by simp, by simpa using hr⟩, ?_⟩
        rintro ⟨i, -, hfull, hr⟩
        cases i with
        | zero => simpa using hr
        | succ i =>
            have hzero := hfull 0 (Nat.succ_pos i)
            simp only [Nat.add_zero, Nat.zero_mul] at hzero
            exact absurd hzero hshort.ne
      · rw [if_neg hshort]
        obtain ⟨rs, hrs, hmem⟩ :=
          ih (offset + pageSize) (all ++ slice (lists sent.length) offset pageSize)
          (sent ++ [pageAt base pageSize offset])
        refine ⟨rs, hrs, fun r => ?_⟩
        have hfirst : (slice (lists sent.length) offset pageSize).length = pageSize :=
          Nat.le_antisymm (length_slice_le _ _ _) (Nat.le_of_not_lt hshort)
        have hplace : ∀ i, slice (lists ((sent ++ [pageAt base pageSize offset]).length + i))
            (offset + pageSize + i * pageSize) pageSize =
            slice (lists (sent.length + (i + 1))) (offset + (i + 1) * pageSize) pageSize := by
          intro i
          rw [List.length_append, List.length_singleton, Nat.add_assoc, Nat.add_comm 1 i,
            Nat.succ_mul, Nat.add_assoc, Nat.add_comm pageSize]
        simp only [hmem, List.mem_append, hplace, or_assoc]
        refine or_congr_right ⟨?_, ?_⟩
        · rintro (hr | ⟨i, hi, hfull, hr⟩)
          · exact ⟨0, Nat.succ_pos _, by simp, by simpa using hr⟩
          · refine ⟨i + 1, Nat.succ_lt_succ hi, ?_, hr⟩
            intro j hj
            cases j with
            | zero => simpa using hfirst
            | succ j => exact hfull j (Nat.lt_of_succ_lt_succ hj)
        · rintro ⟨i, hi, hfull, hr⟩
          cases i with
          | zero => exact .inl (by simpa using hr)
          | succ i =>
              refine .inr ⟨i, Nat.lt_of_succ_lt_succ hi, ?_, hr⟩
              intro j hj
              exact hfull (j + 1) (Nat.succ_lt_succ hj)

theorem requested_iff_of_not_envelope (hflavour : flavour ≠ .envelope) (n : ℕ) :
    Requested flavour lists pageSize n ↔ n < maxPages ∧
    ∀ m < n, (pageOf flavour lists pageSize m).length = pageSize := by
  cases flavour with
  | envelope => exact absurd rfl hflavour
  | ignores => exact Iff.rfl
  | rejects => exact Iff.rfl

/-- A walk from the beginning, after a first request that brought nothing. -/
theorem mem_restarted (base : String) (first : PageRequest)
    (hfirst : firstRequest flavour lists = 1) (hflavour : flavour ≠ .envelope) :
    ∃ rs, (walk (movingServer flavour id lists) pageSize base maxPages 0 [] [first]).1 = .ok rs ∧
      ∀ r, r ∈ rs ↔ ∃ n, Requested flavour lists pageSize n ∧
        r ∈ pageOf flavour lists pageSize n := by
  obtain ⟨rs, hrs, hmem⟩ := mem_walk flavour lists pageSize base maxPages 0 [] [first]
  refine ⟨rs, hrs, fun r => ?_⟩
  have hpages : ∀ n, slice (lists (([first] : List PageRequest).length + n))
      (0 + n * pageSize) pageSize =
      pageOf flavour lists pageSize n := by
    intro n
    rw [pageOf, hfirst, Nat.zero_add]
    rfl
  simp only [hmem, hpages, List.not_mem_nil, false_or]
  simp only [requested_iff_of_not_envelope flavour lists pageSize hflavour, and_assoc]

/-- Page one at hand, the walk goes on from page two. -/
theorem mem_resumed (base : String) (first : PageRequest) (hsome : (lists 0).isEmpty = false)
    (hfull : (slice (lists 0) 0 pageSize).length = pageSize) :
    ∃ rs, (walk (movingServer .ignores id lists) pageSize base (maxPages - 1) pageSize
        (slice (lists 0) 0 pageSize) [first]).1 = .ok rs ∧
      ∀ r, r ∈ rs ↔ ∃ n, Requested .ignores lists pageSize n ∧
        r ∈ pageOf .ignores lists pageSize n := by
  obtain ⟨rs, hrs, hmem⟩ := mem_walk .ignores lists pageSize base (maxPages - 1) pageSize
    (slice (lists 0) 0 pageSize) [first]
  refine ⟨rs, hrs, fun r => ?_⟩
  have hstart : firstRequest .ignores lists = 0 := by
    simp [firstRequest, hsome]
  have hzero : pageOf .ignores lists pageSize 0 = slice (lists 0) 0 pageSize := by
    rw [pageOf, hstart, Nat.zero_mul]
  have hpages : ∀ i, slice (lists (([first] : List PageRequest).length + i))
      (pageSize + i * pageSize)
      pageSize = pageOf .ignores lists pageSize (i + 1) := by
    intro i
    rw [pageOf, hstart, Nat.zero_add, Nat.succ_mul, Nat.add_comm pageSize, Nat.add_comm i]
    rfl
  simp only [hmem, hpages, ← hzero]
  constructor
  · rintro (hr | ⟨i, hi, hbefore, hr⟩)
    · exact ⟨0, ⟨by decide, by simp⟩, hr⟩
    · refine ⟨i + 1, ⟨Nat.add_lt_of_lt_sub hi, ?_⟩, hr⟩
      intro m hm
      cases m with
      | zero =>
          rw [hzero]
          exact hfull
      | succ m => exact hbefore m (Nat.lt_of_succ_lt_succ hm)
  · rintro ⟨n, ⟨hn, hbefore⟩, hr⟩
    cases n with
    | zero => exact .inl hr
    | succ i =>
        refine .inr ⟨i, Nat.lt_sub_of_add_lt hn, ?_, hr⟩
        intro j hj
        exact hbefore (j + 1) (Nat.succ_lt_succ hj)

theorem mem_fetched_envelope (hp : 0 < pageSize) (pick : ℕ → ℕ) (groups : String)
    (since : Option NaiveDateTime) :
    ∃ rs, (fetchIps (movingServer .envelope id lists) pick pageSize groups since).1 = .ok rs ∧
      ∀ r, r ∈ rs ↔ ∃ n, Requested .envelope lists pageSize n ∧
        r ∈ pageOf .envelope lists pageSize n := by
  obtain ⟨rs, hrs, hperm⟩ :=
    fetchRemainingPagesInParallel_eq .envelope id (ipsBase groups since) lists hp
    pick (slice (lists 0) 0 pageSize) (ceilDiv (lists 0).length pageSize) rfl
    (probe pageSize groups since)
  have hfetch : fetchIps (movingServer .envelope id lists) pick pageSize groups since =
      fetchRemainingPagesInParallel (movingServer .envelope id lists) pick pageSize
        (ipsBase groups since) (slice (lists 0) 0 pageSize) (ceilDiv (lists 0).length pageSize)
        [probe pageSize groups since] := rfl
  refine ⟨rs, by rw [hfetch, hrs], fun r => ?_⟩
  have hpages : ∀ n, slice (lists n) (n * pageSize) pageSize =
      pageOf .envelope lists pageSize n := by
    intro n
    rw [pageOf, firstRequest, Nat.zero_add]
  have hzero := hpages 0
  rw [Nat.zero_mul] at hzero
  simp only [hperm.mem_iff, List.mem_append, List.mem_flatten, List.mem_map, List.mem_range,
    id_eq, hzero, hpages, exists_exists_and_eq_and]
  constructor
  · rintro (hr | ⟨i, hi, hr⟩)
    · exact ⟨0, ⟨by decide, .inl rfl⟩, hr⟩
    · have hi' := lt_min_iff.mp hi
      exact ⟨1 + i, ⟨by omega, .inr (by omega)⟩, hr⟩
  · rintro ⟨n, ⟨hn, hcount⟩, hr⟩
    cases n with
    | zero => exact .inl hr
    | succ i =>
        refine .inr ⟨i, lt_min (by omega) (by omega), ?_⟩
        rwa [Nat.add_comm 1 i]

/-- A fetch succeeds with what stood on the requested pages. -/
theorem mem_fetched (hp : 0 < pageSize) (pick : ℕ → ℕ) (groups : String)
    (since : Option NaiveDateTime) :
    ∃ rs, (fetchIps (movingServer flavour id lists) pick pageSize groups since).1 = .ok rs ∧
      ∀ r, r ∈ rs ↔ ∃ n, Requested flavour lists pageSize n ∧
        r ∈ pageOf flavour lists pageSize n := by
  have hempty : ([] : List VaultApiRecord).length ≠ pageSize := hp.ne
  cases flavour with
  | envelope => exact mem_fetched_envelope lists pageSize hp pick groups since
  | rejects =>
      have hfetch : fetchIps (movingServer .rejects id lists) pick pageSize groups since =
          fetchSequentially (movingServer .rejects id lists) pageSize (ipsBase groups since) []
            [probe pageSize groups since] := rfl
      rw [hfetch, fetchSequentially, if_neg hempty, if_pos List.isEmpty_nil]
      exact mem_restarted .rejects lists pageSize _ _ rfl (by decide)
  | ignores =>
      have hfetch : fetchIps (movingServer .ignores id lists) pick pageSize groups since =
          fetchSequentially (movingServer .ignores id lists) pageSize (ipsBase groups since)
            (slice (lists 0) 0 pageSize) [probe pageSize groups since] := rfl
      rw [hfetch, fetchSequentially]
      by_cases hnone : (lists 0).isEmpty = true
      · have hnil : slice (lists 0) 0 pageSize = [] := by
          simp [slice, List.isEmpty_iff.mp hnone]
        rw [hnil, if_neg hempty, if_pos List.isEmpty_nil]
        exact mem_restarted .ignores lists pageSize _ _ (by simp [firstRequest, hnone]) (by decide)
      · have hsome : (lists 0).isEmpty = false := by simpa using hnone
        by_cases hfull : (slice (lists 0) 0 pageSize).length = pageSize
        · rw [if_pos hfull]
          exact mem_resumed lists pageSize _ _ hsome hfull
        · -- a short first page is the only one
          have hpage : (slice (lists 0) 0 pageSize).isEmpty = false := by
            have hpos : 0 < (lists 0).length := List.length_pos_iff.mpr (by simpa using hsome)
            simp [slice, hp.ne', List.length_pos_iff.mp hpos]
          have hzero : pageOf .ignores lists pageSize 0 = slice (lists 0) 0 pageSize := by
            simp [pageOf, firstRequest, hsome]
          rw [if_neg hfull, hpage, if_neg (by decide)]
          refine ⟨_, rfl, fun r => ?_⟩
          rw [← hzero] at hfull ⊢
          constructor
          · intro hr
            exact ⟨0, ⟨by decide, by simp⟩, hr⟩
          · rintro ⟨n, ⟨-, hbefore⟩, hr⟩
            cases n with
            | zero => exact hr
            | succ n => exact absurd (hbefore 0 (Nat.succ_pos n)) hfull

end Pages

/-- Commits, and the list as it is after them. -/
structure Moment where
  commits : List Change
  listing : List VaultApiRecord

/-- What Vault does while one fetch lasts. -/
structure Walk where
  flavour : Flavour
  pick : ℕ → ℕ
  /-- The list when the walk begins. -/
  first : List VaultApiRecord
  later : List Moment
  /-- At which of these moments a request is served. -/
  served : ℕ → ℕ

def Walk.lists (walk : Walk) (n : ℕ) : List VaultApiRecord :=
  (walk.first :: walk.later.map (·.listing)).getD (walk.served n) walk.first

def commitAll (commits : List Change) (w : World) : Option World :=
  commits.foldlM (fun w ch => env ch w) w

/-- The records Vault has for the query, newest observation first; records observed at the
same time stand in any order. -/
def Newest (v : Vault) (names : List String) (since : Option NaiveDateTime)
    (listing : List VaultApiRecord) : Prop :=
  listing.isPerm (query v names since) ∧ listing.Pairwise fun r r' => r'.lastSeenAt ≤ r.lastSeenAt

instance (v : Vault) (names : List String) (since : Option NaiveDateTime)
    (listing : List VaultApiRecord) : Decidable (Newest v names since listing) :=
  inferInstanceAs (Decidable (_ ∧ _))

/-- The moments one after the other, each with a list Vault may show then. -/
def proceed (names : List String) (since : Option NaiveDateTime) :
    List Moment → World → Option World
  | [], w => some w
  | moment :: rest, w => (commitAll moment.commits w).bind fun w' =>
      if Newest w'.vault names since moment.listing then proceed names since rest w' else none

def Walk.pass (walk : Walk) (names : List String) (since : Option NaiveDateTime) (w : World) :
    Option World :=
  if Newest w.vault names since walk.first then proceed names since walk.later w else none

/-- Fetches are walks, everything else is as usual. -/
inductive PageChoice where
  | plain (choice : Choice)
  | walk (walk : Walk)

def exec (crates : Crates) : (c : Call) → PageChoice → World → Option (Answer c × World)
  | .fetchIps groups since, .walk walk, w => (walk.pass (groupNames groups) since w).map fun w' =>
      ((fetchIps (movingServer walk.flavour id walk.lists) walk.pick pageSizeDefault groups
        since).1, w')
  | _, .walk _, _ => none
  | c, .plain choice, w => Services.exec crates c choice w

@[simp] theorem exec_plain (crates : Crates) (c : Call) (choice : Choice) (w : World) :
    exec crates c (.plain choice) w = Services.exec crates c choice w := by
  cases c <;> rfl

/-- The membership a commit is about. -/
def subject : Change → String × String
  | .commit group address _ _ _ => (group, address)

/-- An address the cache can store, with a membership that is live when the walk begins and
of which no commit of the walk speaks. -/
def Steady (crates : Crates) (names : List String) (v : Vault) (walk : Walk)
    (address : String) : Prop :=
  (parseTargetAddress crates address).isSome ∧ ∃ g ∈ names, ∃ m, v.lookup (g, address) = some m ∧
    m.deleted = false ∧ ∀ moment ∈ walk.later, ∀ ch ∈ moment.commits, subject ch ≠ (g, address)

/-- A record of the address stands on a page when that page is served. -/
def Shown (walk : Walk) (address : String) : Prop :=
  ∃ n, Requested walk.flavour walk.lists pageSizeDefault n ∧
    ∃ r ∈ pageOf walk.flavour walk.lists pageSizeDefault n, r.targetAddress = address

def Cached (id : Uuid) (s : World) (address : String) : Prop :=
  ((s.cache.entry id).records.lookup address).isSome

/-- A full sync of the endpoint with the walk, from one state to the next. -/
def FullSync (crates : Crates) (ep : Endpoint) (walk : Walk) (w s : World) : Prop :=
  ∃ t now written, Programs.run (exec crates) (fullSync ep)
    [.walk walk, .plain (.instant t), .plain (.time now), .plain written] w = some ((), s)

/-- The next sync of the endpoint whose fetch succeeds, after commits in Vault. -/
def NextSync (crates : Crates) (id : Uuid) (s s' : World) : Prop :=
  ∃ commits s₁ row es walk, commitAll commits s = some s₁ ∧ s₁.db.endpoints.find id = some row ∧
    Programs.run (exec crates) (syncEndpoint row) es s₁ = some ((), s') ∧ PageChoice.walk walk ∈ es

section Steps
variable {names : List String} {since : Option NaiveDateTime} {w w' : World}

/-- Commits reach Vault and the clock only. -/
theorem commitAll_eq {commits : List Change} (h : commitAll commits w = some w') :
    w' = { w with vault := w'.vault, clock := w'.clock } := by
  induction commits generalizing w with
  | nil =>
      cases h
      rfl
  | cons ch commits ih =>
      obtain ⟨w₁, henv, hrest⟩ := Option.bind_eq_some_iff.mp h
      rw [ih hrest, env_eq_some henv]

theorem proceed_eq {moments : List Moment} (h : proceed names since moments w = some w') :
    w' = { w with vault := w'.vault, clock := w'.clock } := by
  induction moments generalizing w with
  | nil =>
      cases h
      rfl
  | cons moment rest ih =>
      obtain ⟨w₁, hcommits, hrest⟩ := Option.bind_eq_some_iff.mp h
      split_ifs at hrest
      rw [ih hrest, commitAll_eq hcommits]

theorem pass_eq {walk : Walk} (h : walk.pass names since w = some w') :
    w' = { w with vault := w'.vault, clock := w'.clock } := by
  unfold Walk.pass at h
  split_ifs at h
  exact proceed_eq h

/-- A full listing shows live records only. -/
theorem live_of_newest {v : Vault} {listing : List VaultApiRecord}
    (h : Newest v names none listing) :
    ∀ r ∈ listing, r.isDeleted = false := by
  intro r hr
  obtain ⟨g, -, address, m, -, rfl, hlive⟩ := mem_query.mp ((List.isPerm_iff.mp h.1).mem_iff.mp hr)
  exact hlive

theorem live_of_proceed {moments : List Moment} (h : proceed names none moments w = some w') :
    ∀ moment ∈ moments, ∀ r ∈ moment.listing, r.isDeleted = false := by
  induction moments generalizing w with
  | nil => simp
  | cons moment rest ih =>
      obtain ⟨w₁, -, hrest⟩ := Option.bind_eq_some_iff.mp h
      split_ifs at hrest with hnewest
      intro moment' hmem
      rcases List.mem_cons.mp hmem with rfl | hlater
      · exact live_of_newest hnewest
      · exact ih hrest moment' hlater

theorem Walk.lists_mem (walk : Walk) {n : ℕ} :
    walk.lists n ∈ walk.first :: walk.later.map (·.listing) := by
  unfold Walk.lists
  rw [List.getD_eq_getElem?_getD]
  cases hget : (walk.first :: walk.later.map (·.listing))[walk.served n]? with
  | none => exact List.mem_cons_self
  | some listing => exact List.mem_of_getElem? hget

theorem live_of_pass {walk : Walk} (h : walk.pass names none w = some w') (n : ℕ) :
    ∀ r ∈ walk.lists n, r.isDeleted = false := by
  unfold Walk.pass at h
  split_ifs at h with hnewest
  have hall : ∀ listing ∈ walk.first :: walk.later.map (·.listing),
      ∀ r ∈ listing, r.isDeleted = false := by
    intro listing hlisting
    rcases List.mem_cons.mp hlisting with rfl | hlater
    · exact live_of_newest hnewest
    · obtain ⟨moment, hmoment, rfl⟩ := List.mem_map.mp hlater
      exact live_of_proceed h moment hmoment
  exact hall _ walk.lists_mem

end Steps

section Runs
variable {crates : Crates} {ep : Endpoint} {walk : Walk} {w s s' : World}

theorem run_perform_inv {B : Type} {c : Call} {e : PageChoice} {es : List PageChoice}
    {f : Answer c → Program Answer B} {b : B}
    (h : Programs.run (exec crates) (perform c >>= f) (e :: es) s = some (b, s')) :
    ∃ r s₁, exec crates c e s = some (r, s₁) ∧
      Programs.run (exec crates) (f r) es s₁ = some (b, s') := by
  obtain ⟨⟨r, s₁⟩, hexec, hrest⟩ := Option.bind_eq_some_iff.mp h
  exact ⟨r, s₁, hexec, hrest⟩

/-- Whatever becomes of the cursor, the cache stays. -/
theorem cache_of_markSynced {now : NaiveDateTime} {written : Choice}
    (h : Programs.run (exec crates) (markSynced ep) [.plain (.time now), .plain written] s =
      some ((), s')) : s'.cache = s.cache := by
  obtain ⟨t, s₁, hnow, hrest⟩ := run_perform_inv h
  obtain ⟨answer, s₂, hupdate, hend⟩ := run_perform_inv hrest
  cases hend
  rw [exec_plain] at hnow hupdate
  obtain ⟨-, rfl⟩ := exec_now hnow
  cases answer with
  | error err =>
      cases exec_db_error hupdate
      rfl
  | ok row => exact (exec_updateEndpoint ep.id hupdate).2.1

/-- What a walk fetches. -/
theorem exec_walk (crates : Crates) {groups : String} {since : Option NaiveDateTime}
    (hpass : walk.pass (groupNames groups) since w = some s) :
    ∃ rs, exec crates (.fetchIps groups since) (.walk walk) w = some (.ok rs, s) ∧
      ∀ r, r ∈ rs ↔ ∃ n, Requested walk.flavour walk.lists pageSizeDefault n ∧
        r ∈ pageOf walk.flavour walk.lists pageSizeDefault n := by
  obtain ⟨rs, hrs, hmem⟩ :=
    mem_fetched walk.flavour walk.lists pageSizeDefault (by decide) walk.pick
    groups since
  refine ⟨rs, ?_, hmem⟩
  simp only [exec, hpass, Option.map_some, hrs]

/-- After the full sync, the cache holds the addresses that were shown. -/
theorem cached_applyFull {names : List String} (hpass : walk.pass names none w = some s)
    {rs : List VaultApiRecord}
    (hmem : ∀ r, r ∈ rs ↔ ∃ n, Requested walk.flavour walk.lists pageSizeDefault n ∧
      r ∈ pageOf walk.flavour walk.lists pageSizeDefault n) (id : Uuid) (t : ℤ) (cache : IpCache)
    (address : String) :
    (((applyFull crates id (mapRecords rs) t cache).entry id).records.lookup address).isSome ↔
      (parseTargetAddress crates address).isSome ∧ Shown walk address := by
  rw [isSome_applyFull]
  constructor
  · rintro ⟨r, hr, haddress, -, hparse⟩
    obtain ⟨n, hn, hpage⟩ := (hmem r).mp hr
    exact ⟨hparse, n, hn, r, hpage, haddress⟩
  · rintro ⟨hparse, n, hn, r, hpage, haddress⟩
    have hlive : r.isDeleted = false :=
      live_of_pass hpass _ r (List.mem_of_mem_drop (List.mem_of_mem_take hpage))
    exact ⟨r, (hmem r).mpr ⟨n, hn, hpage⟩, haddress, hlive, hparse⟩

theorem cached_of_fullSync (h : FullSync crates ep walk w s) (address : String) :
    Cached ep.id s address ↔ (parseTargetAddress crates address).isSome ∧ Shown walk address := by
  obtain ⟨t, now, written, hrun⟩ := h
  obtain ⟨reply, w₁, hfetch, hrest⟩ := run_perform_inv hrun
  obtain ⟨w₂, hpass, -⟩ := Option.map_eq_some_iff.mp hfetch
  obtain ⟨rs, hexec, hmem⟩ := exec_walk crates hpass
  obtain ⟨rfl, rfl⟩ : reply = .ok rs ∧ w₁ = w₂ := by
    simpa using hfetch.symm.trans hexec
  obtain ⟨u, w₃, happly, hmark⟩ := run_perform_inv hrest
  rw [exec_plain] at happly
  obtain ⟨t', hw₃⟩ := exec_applyFull happly
  unfold Cached
  rw [cache_of_markSynced hmark, hw₃]
  exact cached_applyFull hpass hmem ep.id t' w₁.cache address

theorem exec_update (crates : Crates) (s : World) (ch : EndpointChanges) {id : Uuid}
    {row : Endpoint} (hrow : s.db.endpoints.find id = some row) (howner : ch.ownerKeyId = none) :
    exec crates (.db (.updateEndpoint id ch)) (.plain .succeed) s =
      some (.ok (ch.apply row), { s with
        db.endpoints := s.db.endpoints.change (fun r => decide (r.id = id)) ch.apply
          ch.apply_id }) := by
  simp [Services.exec, execStatement, Statement.run, updateRow, hrow, howner, reuses, retires]

theorem markSynced_runs (crates : Crates) (ep : Endpoint) (s : World) {row : Endpoint}
    {now : NaiveDateTime} (hrow : s.db.endpoints.find ep.id = some row) (hnow : s.clock ≤ now) :
    ∃ s', Programs.run (exec crates) (markSynced ep) [.plain (.time now), .plain .succeed] s =
        some ((), s') ∧ s'.cache = s.cache ∧ s'.vault = s.vault ∧ s'.uptime = s.uptime ∧
        s'.clock = now ∧
      s'.db.endpoints.find ep.id = some { row with lastSyncedAt := some now } := by
  have hid : row.id = ep.id := (Table.find_eq_some.mp hrow).2
  have hread : exec crates .now (.plain (.time now)) s = some (now, { s with clock := now }) := by
    simp [Services.exec, hnow]
  have hwrite :=
    exec_update crates { s with clock := now } { lastSyncedAt := some (some now) } hrow rfl
  refine ⟨_, (run_perform_bind hread _).trans ((run_perform_bind hwrite _).trans rfl), rfl, rfl,
    rfl, rfl, ?_⟩
  simp [Table.find_change, hrow, hid, EndpointChanges.apply]

/-- A cursor later than everything Vault has seen. -/
theorem exists_later (w : World) :
    ∃ t, w.clock ≤ t ∧ ∀ names, query w.vault names (some t) = [] := by
  have hbound : ∃ b, w.clock ≤ b ∧ ∀ e ∈ w.vault.entries, e.2.changedAt ≤ b := by
    induction w.vault.entries with
    | nil => exact ⟨w.clock, le_rfl, by simp⟩
    | cons e entries ih =>
        obtain ⟨b, hclock, hall⟩ := ih
        refine ⟨max b e.2.changedAt, le_max_of_le_left hclock, ?_⟩
        intro e' he'
        rcases List.mem_cons.mp he' with rfl | hmem
        · exact le_max_right _ _
        · exact le_max_of_le_left (hall e' hmem)
  obtain ⟨b, hclock, hall⟩ := hbound
  have hsecond : b < (b / nanosPerSecond + 1) * nanosPerSecond :=
    Int.lt_ediv_add_one_mul_self b (by decide)
  refine ⟨(b / nanosPerSecond + 1) * nanosPerSecond, hclock.trans hsecond.le, ?_⟩
  intro names
  have hnone : ∀ e ∈ w.vault.entries,
      ¬ timestamp ((b / nanosPerSecond + 1) * nanosPerSecond) * nanosPerSecond ≤ e.2.changedAt := by
    intro e he
    rw [timestamp, Int.mul_ediv_cancel _ (by decide)]
    exact not_le.mpr ((hall e he).trans_lt hsecond)
  rw [query, List.map_eq_nil_iff, List.filter_eq_nil_iff]
  intro e he
  simp [hnone e he]

/-- A walk in which Vault has nothing to show. -/
def emptyWalk : Walk := ⟨.envelope, id, [], [], fun _ => 0⟩

theorem exec_emptyWalk {groups : String} {since : Option NaiveDateTime}
    (hnone : query s.vault (groupNames groups) since = []) :
    exec crates (.fetchIps groups since) (.walk emptyWalk) s = some (.ok [], s) := by
  have hpass : emptyWalk.pass (groupNames groups) since s = some s := by
    have hnewest : Newest s.vault (groupNames groups) since emptyWalk.first :=
      ⟨List.isPerm_iff.mpr (by rw [hnone]; rfl), .nil⟩
    rw [Walk.pass, if_pos hnewest]
    rfl
  obtain ⟨rs, hexec, hmem⟩ := exec_walk crates hpass
  have hnil : rs = [] := by
    rw [List.eq_nil_iff_forall_not_mem]
    intro r hr
    obtain ⟨n, -, hpage⟩ := (hmem r).mp hr
    have hlist : r ∈ emptyWalk.lists (firstRequest emptyWalk.flavour emptyWalk.lists + n) :=
      List.mem_of_mem_drop (List.mem_of_mem_take hpage)
    cases hlist
  rw [hexec, hnil]

/-- When nothing happens after the walk, the next sync finds nothing to add. -/
theorem quiet_aftermath (crates : Crates) (hrow : w.db.endpoints.find ep.id = some ep)
    (hpass : walk.pass (groupNames ep.vaultGroups) none w = some s) :
    ∃ s₁ s₂, FullSync crates ep walk w s₁ ∧ NextSync crates ep.id s₁ s₂ ∧ s₂.vault = s.vault ∧
      ∀ address, Cached ep.id s₂ address ↔ Cached ep.id s₁ address := by
  obtain ⟨rs, hfetch, -⟩ := exec_walk crates hpass
  obtain ⟨now, hclock, hquiet⟩ := exists_later s
  have hsame := pass_eq hpass
  have happly : exec crates (.applyFull ep.id (mapRecords rs)) (.plain (.instant s.uptime)) s =
      some ((), { s with cache := applyFull crates ep.id (mapRecords rs) s.uptime s.cache }) := by
    simp [Services.exec]
  have hrow' : s.db.endpoints.find ep.id = some ep := by
    rw [hsame]
    exact hrow
  obtain ⟨s₁, hmark, hcache₁, hvault₁, huptime₁, hclock₁, hrow₁⟩ := markSynced_runs crates
    ep { s with cache := applyFull crates ep.id (mapRecords rs) s.uptime s.cache } hrow' hclock
  have hfull : FullSync crates ep walk w s₁ := by
    refine ⟨s.uptime, now, .succeed, ?_⟩
    rw [fullSync, run_perform_bind hfetch]
    exact (run_perform_bind happly _).trans hmark
  -- the next sync comes once the time to live has passed, well before a full one is due
  have hdue : exec crates (.fullSyncDue ep.id) (.plain (.instant s₁.uptime)) s₁ =
      some (false, s₁) := by
    have hlookup : (s₁.cache.lookup ep.id).bind (·.lastFullSyncAt) = some s₁.uptime := by
      rw [hcache₁, huptime₁]
      simp [applyFull]
    simp [Services.exec, fullSyncDue, hlookup, fullSyncInterval, nanosPerSecond]
  obtain ⟨later, hlater⟩ : ∃ t, t = now + max ep.ttlSeconds 1 * nanosPerSecond := ⟨_, rfl⟩
  have hpassed : now ≤ later := by
    have hpos : 0 ≤ max ep.ttlSeconds 1 * nanosPerSecond :=
      Int.mul_nonneg (le_max_of_le_right zero_le_one) (by decide)
    rw [hlater]
    exact Int.le_add_of_nonneg_right hpos
  have hread : exec crates .now (.plain (.time later)) s₁ =
      some (later, { s₁ with clock := later }) := by
    simp [Services.exec, hclock₁, hpassed]
  have hexpired : Programs.run (exec crates) (differentialDue { ep with lastSyncedAt := some now })
      [.plain (.time later)] s₁ = some (true, { s₁ with clock := later }) := by
    have hcheck : decide (max ep.ttlSeconds 1 * nanosPerSecond ≤ later - now) = true := by
      rw [decide_eq_true_eq, hlater]
      omega
    refine (run_perform_bind hread _).trans ?_
    rw [hcheck]
    rfl
  have hfetched : exec crates (.fetchIps ep.vaultGroups (some now)) (.walk emptyWalk)
      { s₁ with clock := later } = some (.ok [], { s₁ with clock := later }) := by
    refine exec_emptyWalk ?_
    rw [show ({ s₁ with clock := later } : World).vault = s.vault from hvault₁]
    exact hquiet _
  have hmerge : exec crates (.applyDiff ep.id (mapRecords [])) (.plain .succeed)
      { s₁ with clock := later } = some ((), { s₁ with
        cache := applyDiff crates ep.id (mapRecords []) s₁.cache
        clock := later }) := by
    rw [exec_plain]
    rfl
  obtain ⟨s₂, hmark₂, hcache₂, hvault₂, -⟩ :=
    markSynced_runs crates { ep with lastSyncedAt := some now } { s₁ with
    cache := applyDiff crates ep.id (mapRecords []) s₁.cache
    clock := later } hrow₁ (le_refl later)
  refine ⟨s₁, s₂, hfull,
    ⟨[], s₁, _, [.plain (.instant s₁.uptime), .plain (.time later), .walk emptyWalk,
    .plain .succeed, .plain (.time later), .plain .succeed], emptyWalk, rfl, hrow₁, ?_, by simp⟩,
    hvault₂.trans hvault₁, ?_⟩
  · rw [syncEndpoint, run_perform_bind hdue]
    refine (run_bind hexpired _).trans ?_
    refine (run_perform_bind hfetched _).trans ?_
    exact (run_perform_bind hmerge _).trans hmark₂
  · intro address
    unfold Cached
    rw [hcache₂, entry_applyDiff]
    rfl

end Runs

section Forward
variable {crates : Crates} {names : List String} {walk : Walk} {w w' : World} {g address : String}
  {m : Membership}

theorem lookup_commitAll {commits : List Change} (h : commitAll commits w = some w')
    (hother : ∀ ch ∈ commits, subject ch ≠ (g, address)) :
    w'.vault.lookup (g, address) = w.vault.lookup (g, address) := by
  induction commits generalizing w with
  | nil =>
      cases h
      rfl
  | cons ch commits ih =>
      obtain ⟨w₁, henv, hrest⟩ := Option.bind_eq_some_iff.mp h
      rw [ih hrest fun ch' hch' => hother ch' (List.mem_cons_of_mem _ hch')]
      have hne := hother ch List.mem_cons_self
      obtain ⟨group, address', lastSeenAt, deleted, t⟩ := ch
      simp only [env] at henv
      split_ifs at henv
      cases henv
      exact AList.lookup_insert_ne (Ne.symm hne)

theorem listed_of_newest {v : Vault} {listing : List VaultApiRecord}
    (h : Newest v names none listing) (hg : g ∈ names) (hm : v.lookup (g, address) = some m)
    (hlive : m.deleted = false) :
    ∃ r ∈ listing, r.targetAddress = address :=
  ⟨recordOf (g, address) m, (List.isPerm_iff.mp h.1).mem_iff.mpr
    (mem_query.mpr ⟨g, hg, address, m, hm, rfl, hlive⟩), rfl⟩

theorem listed_of_proceed {moments : List Moment} (h : proceed names none moments w = some w')
    (hg : g ∈ names) (hm : w.vault.lookup (g, address) = some m) (hlive : m.deleted = false)
    (hother : ∀ moment ∈ moments, ∀ ch ∈ moment.commits, subject ch ≠ (g, address)) :
    ∀ moment ∈ moments, ∃ r ∈ moment.listing, r.targetAddress = address := by
  induction moments generalizing w with
  | nil => simp
  | cons moment rest ih =>
      obtain ⟨w₁, hcommits, hrest⟩ := Option.bind_eq_some_iff.mp h
      split_ifs at hrest with hnewest
      have hm₁ : w₁.vault.lookup (g, address) = some m := by
        rw [lookup_commitAll hcommits (hother moment List.mem_cons_self), hm]
      intro moment' hmem
      rcases List.mem_cons.mp hmem with rfl | hlater
      · exact listed_of_newest hnewest hg hm₁ hlive
      · exact ih hrest hm₁ (fun moment'' h'' => hother moment'' (List.mem_cons_of_mem _ h''))
          moment' hlater

/-- A steady address is listed at every request. -/
theorem Steady.listed (h : Steady crates names w.vault walk address)
    (hpass : walk.pass names none w = some w') (n : ℕ) :
    ∃ r ∈ walk.lists n, r.targetAddress = address := by
  obtain ⟨-, g, hg, m, hm, hlive, hother⟩ := h
  unfold Walk.pass at hpass
  split_ifs at hpass with hnewest
  have hall : ∀ listing ∈ walk.first :: walk.later.map (·.listing),
      ∃ r ∈ listing, r.targetAddress = address := by
    intro listing hlisting
    rcases List.mem_cons.mp hlisting with rfl | hlater
    · exact listed_of_newest hnewest hg hm hlive
    · obtain ⟨moment, hmoment, rfl⟩ := List.mem_map.mp hlater
      exact listed_of_proceed hpass hg hm hlive hother moment hmoment
  exact hall _ walk.lists_mem

/-- Where the address stands in a list. -/
def place (address : String) (listing : List VaultApiRecord) : ℕ :=
  listing.findIdx fun r => r.targetAddress = address

theorem mem_slice {records : List VaultApiRecord} {offset length i : ℕ} (hi : i < records.length)
    (hfrom : offset ≤ i) (hto : i < offset + length) :
    records[i] ∈ slice records offset length := by
  rw [slice, List.mem_iff_getElem?]
  refine ⟨i - offset, ?_⟩
  rw [List.getElem?_take_of_lt (by omega), List.getElem?_drop, Nat.add_sub_of_le hfrom,
    List.getElem?_eq_getElem hi]

/-- On a requested page that is not to show the address, it stands elsewhere. -/
theorem shown_of_place {n : ℕ} (hn : Requested walk.flavour walk.lists pageSizeDefault n)
    (hlisted : ∃ r ∈ walk.lists (firstRequest walk.flavour walk.lists + n),
      r.targetAddress = address)
    (hfrom : n * pageSizeDefault ≤
      place address (walk.lists (firstRequest walk.flavour walk.lists + n)))
    (hto : place address (walk.lists (firstRequest walk.flavour walk.lists + n)) <
      n * pageSizeDefault + pageSizeDefault) : Shown walk address := by
  obtain ⟨r, hr, haddress⟩ := hlisted
  have hlt : place address (walk.lists (firstRequest walk.flavour walk.lists + n)) <
      (walk.lists (firstRequest walk.flavour walk.lists + n)).length :=
    List.findIdx_lt_length_of_exists ⟨r, hr, by simpa using haddress⟩
  refine ⟨n, hn, _, mem_slice hlt hfrom hto, ?_⟩
  exact of_decide_eq_true (List.findIdx_getElem (w := hlt))

/-- A list that fits one page is shown whole, however it moves. -/
theorem shown_of_single_page (hsteady : Steady crates names w.vault walk address)
    (hpass : walk.pass names none w = some w')
    (hfits : ∀ n, (walk.lists n).length ≤ pageSizeDefault) : Shown walk address := by
  have hlisted := hsteady.listed hpass (firstRequest walk.flavour walk.lists + 0)
  have hzero : Requested walk.flavour walk.lists pageSizeDefault 0 := by
    refine ⟨by decide, ?_⟩
    cases walk.flavour with
    | envelope => exact .inl rfl
    | ignores | rejects => simp
  refine shown_of_place hzero hlisted (by simp) ?_
  obtain ⟨r, hr, haddress⟩ := hlisted
  rw [Nat.zero_mul, Nat.zero_add]
  exact (List.findIdx_lt_length_of_exists ⟨r, hr, by simpa using haddress⟩).trans_le (hfits _)

/-- A walk without a page count shows every steady address that never moves towards the
front: what is added or observed again shifts a record to a later page, and shows it twice
at worst. -/
theorem shown_of_forward (hflavour : walk.flavour ≠ .envelope)
    (hsteady : Steady crates names w.vault walk address) (hpass : walk.pass names none w = some w')
    (hforward : ∀ n, place address (walk.lists n) ≤ place address (walk.lists (n + 1)))
    (hfits : ∀ n, (walk.lists n).length ≤ maxPages * pageSizeDefault) : Shown walk address := by
  by_contra hnot
  have hlisted := fun n => hsteady.listed hpass (firstRequest walk.flavour walk.lists + n)
  have hplace : ∀ n, place address (walk.lists (firstRequest walk.flavour walk.lists + n)) <
      (walk.lists (firstRequest walk.flavour walk.lists + n)).length := by
    intro n
    obtain ⟨r, hr, haddress⟩ := hlisted n
    exact List.findIdx_lt_length_of_exists ⟨r, hr, by simpa using haddress⟩
  have hrequested := requested_iff_of_not_envelope walk.flavour walk.lists pageSizeDefault hflavour
  -- not shown so far, the address stands behind all pages up to here
  have hbehind : ∀ n < maxPages, Requested walk.flavour walk.lists pageSizeDefault n ∧
      n * pageSizeDefault + pageSizeDefault ≤
        place address (walk.lists (firstRequest walk.flavour walk.lists + n)) := by
    intro n
    induction n with
    | zero =>
        intro hn
        have hzero := (hrequested 0).mpr ⟨hn, by simp⟩
        refine ⟨hzero, ?_⟩
        by_contra hbefore
        exact hnot (shown_of_place hzero (hlisted 0) (by simp) (Nat.lt_of_not_le hbefore))
    | succ n ih =>
        intro hn
        obtain ⟨hn', hplace'⟩ := ih (Nat.lt_of_succ_lt hn)
        have hfull : (pageOf walk.flavour walk.lists pageSizeDefault n).length =
            pageSizeDefault := by
          have hlength := hplace n
          rw [pageOf, slice, List.length_take, List.length_drop]
          omega
        have hnext := (hrequested (n + 1)).mpr ⟨hn, fun m hm => by
          rcases Nat.lt_succ_iff_lt_or_eq.mp hm with hlt | rfl
          · exact ((hrequested n).mp hn').2 m hlt
          · exact hfull⟩
        have hmoved : (n + 1) * pageSizeDefault ≤
            place address (walk.lists (firstRequest walk.flavour walk.lists + (n + 1))) := by
          rw [Nat.succ_mul]
          exact hplace'.trans (hforward _)
        refine ⟨hnext, ?_⟩
        by_contra hbefore
        exact hnot (shown_of_place hnext (hlisted (n + 1)) hmoved (Nat.lt_of_not_le hbefore))
  have hlast := (hbehind (maxPages - 1) (by decide)).2
  have hshort := (hplace (maxPages - 1)).trans_le (hfits _)
  rw [← Nat.succ_mul, show (maxPages - 1).succ = maxPages from rfl] at hlast
  exact absurd hshort (Nat.not_lt_of_le hlast)

end Forward

/-- Every address that is live and unchanged during the walk of a full sync is in the cache
after it or after the next successful sync, whatever happens in between, exactly when each
of them stands on a requested page while that page is served. -/
theorem unchanged_recovered_iff {crates : Crates} {ep : Endpoint} {walk : Walk} {w w' : World}
    (hrow : w.db.endpoints.find ep.id = some ep)
    (hpass : walk.pass (groupNames ep.vaultGroups) none w = some w') :
    (∀ address, Steady crates (groupNames ep.vaultGroups) w.vault walk address → ∀ s s',
      FullSync crates ep walk w s → NextSync crates ep.id s s' →
        Cached ep.id s address ∨ Cached ep.id s' address) ↔
      ∀ address, Steady crates (groupNames ep.vaultGroups) w.vault walk address →
        Shown walk address := by
  constructor
  · intro hrecovered address hsteady
    obtain ⟨s, s', hfull, hnext, -, hsame⟩ := quiet_aftermath crates hrow hpass
    have hcached : Cached ep.id s address := by
      rcases hrecovered address hsteady s s' hfull hnext with hnow | hlater
      · exact hnow
      · exact (hsame address).mp hlater
    exact ((cached_of_fullSync hfull address).mp hcached).2
  · intro hshown address hsteady s s' hfull _
    exact .inl ((cached_of_fullSync hfull address).mpr ⟨hsteady.1, hshown address hsteady⟩)

def pairVault : Vault :=
  (AList.singleton ("dmz", "10.0.0.1") (⟨2, false, 0⟩ : Membership)).insert ("dmz", "10.0.0.2")
    ⟨1, false, 0⟩

def pairWorld : World := { syncedWorld with vault := pairVault }

def pairWalk : Walk where
  flavour := .ignores
  pick := id
  first := [⟨"10.0.0.1", 2, false⟩, ⟨"10.0.0.2", 1, false⟩]
  later := [⟨[.commit "dmz" "10.0.0.1" 2 true 0], [⟨"10.0.0.2", 1, false⟩]⟩]
  served := id

theorem unchanged_recovered_single_page :
    ∃ w', pairWalk.pass (groupNames syncedFeed.vaultGroups) none pairWorld = some w' ∧
      Steady sampleCrates (groupNames syncedFeed.vaultGroups) pairVault pairWalk "10.0.0.2" ∧
      ∀ address, Steady sampleCrates (groupNames syncedFeed.vaultGroups) pairVault pairWalk
        address →
        ∀ s s', FullSync sampleCrates syncedFeed pairWalk pairWorld s →
          NextSync sampleCrates 5 s s' →
          Cached 5 s address ∨ Cached 5 s' address := by
  have hruns : (pairWalk.pass (groupNames syncedFeed.vaultGroups) none pairWorld).isSome =
      true := by
    decide +kernel
  obtain ⟨w', hpass⟩ := Option.isSome_iff_exists.mp hruns
  have hrow : pairWorld.db.endpoints.find 5 = some syncedFeed := rfl
  refine ⟨w', hpass, ?_, ?_⟩
  · refine ⟨by decide +kernel, "dmz", by decide +kernel, ⟨1, false, 0⟩, by decide +kernel, rfl, ?_⟩
    intro moment hmoment ch hch
    simp only [pairWalk, List.mem_singleton] at hmoment
    subst hmoment
    simp only [List.mem_singleton] at hch
    subst hch
    decide
  · refine (unchanged_recovered_iff hrow hpass).mpr ?_
    intro address hsteady
    refine shown_of_single_page hsteady hpass ?_
    intro n
    have hall : ∀ listing ∈ pairWalk.first :: pairWalk.later.map (·.listing),
        listing.length ≤ pageSizeDefault := by
      decide
    exact hall _ pairWalk.lists_mem

def numberedAddress (n : ℕ) : String :=
  String.ofList ("2001:db8::".toList ++
    [hexDigitChar (n / 4096 % 16), hexDigitChar (n / 256 % 16), hexDigitChar (n / 16 % 16),
      hexDigitChar (n % 16)])

theorem numberedAddress_inj {i j : ℕ} (hi : i < 65536) (hj : j < 65536)
    (h : numberedAddress i = numberedAddress j) : i = j := by
  have hchars := List.append_cancel_left (String.ofList_injective h)
  simp only [List.cons.injEq, and_true] at hchars
  obtain ⟨h₀, h₁, h₂, h₃⟩ := hchars
  have h₀' := hexDigitChar_inj (Nat.mod_lt _ (by decide)) (Nat.mod_lt _ (by decide)) h₀
  have h₁' := hexDigitChar_inj (Nat.mod_lt _ (by decide)) (Nat.mod_lt _ (by decide)) h₁
  have h₂' := hexDigitChar_inj (Nat.mod_lt _ (by decide)) (Nat.mod_lt _ (by decide)) h₂
  have h₃' := hexDigitChar_inj (Nat.mod_lt _ (by decide)) (Nat.mod_lt _ (by decide)) h₃
  omega

def numberedEntry (n : ℕ) : Sigma fun _ : String × String => Membership :=
  ⟨("dmz", numberedAddress n), ⟨-n, false, 0⟩⟩

def numberedRecord (n : ℕ) : VaultApiRecord := ⟨numberedAddress n, -n, false⟩

def numberedVault (ns : List ℕ) (hdistinct : ns.Nodup) (hsmall : ∀ n ∈ ns, n < 65536) : Vault where
  entries := ns.map numberedEntry
  nodupKeys := by
    rw [List.NodupKeys, List.keys, List.map_map]
    refine List.Nodup.map_on ?_ hdistinct
    intro i hi j hj heq
    exact numberedAddress_inj (hsmall i hi) (hsmall j hj) (Prod.mk.inj heq).2

section Numbered
variable {ns : List ℕ} {n : ℕ}

theorem filter_numbered : (ns.map numberedEntry).filter
    (fun e => decide (e.1.1 ∈ ["dmz"]) && !e.2.deleted) = ns.map numberedEntry := by
  rw [List.filter_eq_self]
  intro e he
  obtain ⟨n, -, rfl⟩ := List.mem_map.mp he
  rfl

/-- Live records in the order of their numbers, whatever else Vault holds. -/
theorem newest_numbered {v : Vault} (hsorted : ns.Pairwise (· < ·)) (hlive : v.entries.filter
      (fun e => decide (e.1.1 ∈ ["dmz"]) && !e.2.deleted) = ns.map numberedEntry) :
    Newest v ["dmz"] none (ns.map numberedRecord) := by
  have hquery : query v ["dmz"] none = ns.map numberedRecord := by
    rw [query, hlive, List.map_map]
    rfl
  refine ⟨List.isPerm_iff.mpr (by rw [hquery]), ?_⟩
  rw [List.pairwise_map]
  refine hsorted.imp ?_
  intro i j hij
  exact Int.neg_le_neg (Int.ofNat_le.mpr hij.le)

theorem entries_deleted {hdistinct : (n :: ns).Nodup} {hsmall : ∀ m ∈ n :: ns, m < 65536}
    (gone : Membership) :
    ((numberedVault (n :: ns) hdistinct hsmall).insert ("dmz", numberedAddress n) gone).entries =
      ⟨("dmz", numberedAddress n), gone⟩ :: ns.map numberedEntry := by
  rw [AList.entries_insert]
  exact congrArg _ (List.kerase_cons_eq rfl)

theorem lookup_numbered {v : Vault} (h : numberedEntry n ∈ v.entries) :
    v.lookup ("dmz", numberedAddress n) = some ⟨-n, false, 0⟩ := AList.mem_lookup_iff.mpr h

end Numbered

theorem crowd_sorted : (0 :: List.range' 1 1000).Pairwise (· < ·) := by
  rw [List.pairwise_cons]
  refine ⟨?_, List.pairwise_lt_range'⟩
  intro n hn
  exact (List.mem_range'_1.mp hn).1

theorem crowd_small : ∀ n ∈ 0 :: List.range' 1 1000, n < 65536 := by
  intro n hn
  rcases List.mem_cons.mp hn with rfl | hrest
  · decide
  · have hlt := (List.mem_range'_1.mp hrest).2
    omega

def crowdedVault : Vault :=
  numberedVault (0 :: List.range' 1 1000) (crowd_sorted.imp Nat.ne_of_lt) crowd_small

def crowdedWorld : World := { syncedWorld with vault := crowdedVault }

def shiftingWalk : Walk where
  flavour := .envelope
  pick := id
  first := (0 :: List.range' 1 1000).map numberedRecord
  later := [⟨[.commit "dmz" (numberedAddress 0) 0 true 0], (List.range' 1 1000).map numberedRecord⟩]
  served := id

/-- Vault after the deletion. -/
def thinnedVault : Vault := crowdedVault.insert ("dmz", numberedAddress 0) ⟨0, true, 0⟩

theorem thinnedVault_entries : thinnedVault.entries =
    ⟨("dmz", numberedAddress 0), ⟨0, true, 0⟩⟩ :: (List.range' 1 1000).map numberedEntry :=
  entries_deleted _

theorem commitAll_deletion :
    commitAll [.commit "dmz" (numberedAddress 0) 0 true 0] crowdedWorld =
      some { crowdedWorld with vault := thinnedVault } := by
  have hclock : crowdedWorld.clock ≤ 0 := le_refl 0
  simp only [commitAll, List.foldlM_cons, List.foldlM_nil, env, if_pos hclock]
  rfl

theorem newest_thinned :
    Newest thinnedVault ["dmz"] none ((List.range' 1 1000).map numberedRecord) := by
  refine newest_numbered List.pairwise_lt_range' ?_
  rw [thinnedVault_entries, List.filter_cons_of_neg (by simp), filter_numbered]

theorem shiftingWalk_pass :
    shiftingWalk.pass ["dmz"] none crowdedWorld =
      some { crowdedWorld with vault := thinnedVault } := by
  have hnewest : Newest crowdedWorld.vault ["dmz"] none shiftingWalk.first :=
    newest_numbered crowd_sorted filter_numbered
  rw [Walk.pass, if_pos hnewest, shiftingWalk, proceed, commitAll_deletion, Option.bind_some,
    if_pos newest_thinned, proceed]

theorem shiftingWalk_steady :
    Steady sampleCrates ["dmz"] crowdedVault shiftingWalk (numberedAddress 1000) := by
  have hlast : 1000 ∈ List.range' 1 1000 := List.mem_range'_1.mpr (by decide)
  have hmem : numberedEntry 1000 ∈ crowdedVault.entries :=
    List.mem_map_of_mem (List.mem_cons_of_mem _ hlast)
  refine ⟨by decide +kernel, "dmz", List.mem_cons_self, _, lookup_numbered hmem, rfl, ?_⟩
  intro moment hmoment ch hch hsubject
  simp only [shiftingWalk, List.mem_singleton] at hmoment
  subst hmoment
  rw [List.mem_singleton] at hch
  subst hch
  have hsame : 0 = 1000 := numberedAddress_inj (by decide) (by decide) (Prod.mk.inj hsubject).2
  omega

theorem shiftingWalk_hides : ¬ Shown shiftingWalk (numberedAddress 1000) := by
  rintro ⟨n, ⟨-, hn⟩, r, hr, haddress⟩
  have hfirst : shiftingWalk.lists 0 = (0 :: List.range' 1 1000).map numberedRecord := rfl
  have hsecond : shiftingWalk.lists 1 = (List.range' 1 1000).map numberedRecord := rfl
  have hcount : ceilDiv (shiftingWalk.lists 0).length pageSizeDefault = 2 := by
    rw [hfirst, List.length_map, List.length_cons, List.length_range']
    rfl
  have hn' : n = 0 ∨ n < 2 := hcount ▸ hn
  have hpage : pageOf shiftingWalk.flavour shiftingWalk.lists pageSizeDefault n =
      slice (shiftingWalk.lists n) (n * pageSizeDefault) pageSizeDefault := by
    rw [pageOf, show firstRequest shiftingWalk.flavour shiftingWalk.lists = 0 from rfl,
      Nat.zero_add]
  rw [hpage] at hr
  obtain rfl | rfl : n = 0 ∨ n = 1 := by omega
  · -- page one is that of the records before it
    rw [hfirst, slice, Nat.zero_mul, List.drop_zero, ← List.map_take] at hr
    obtain ⟨i, hi, rfl⟩ := List.mem_map.mp hr
    have hsame : i = 1000 :=
      numberedAddress_inj (crowd_small i (List.mem_of_mem_take hi)) (by decide) haddress
    subst hsame
    -- the last of the numbers is not among the first thousand
    have hsplit : 0 :: List.range' 1 1000 = (0 :: List.range' 1 999) ++ [1000] := by
      rw [List.cons_append, ← List.range'_concat]
    rw [hsplit, List.take_left' (by rw [List.length_cons, List.length_range']; rfl)] at hi
    rcases List.mem_cons.mp hi with hzero | hrest
    · omega
    · have hlt := (List.mem_range'_1.mp hrest).2
      omega
  · rw [hsecond, slice,
      List.drop_eq_nil_of_le (by rw [List.length_map, List.length_range']; decide)] at hr
    cases hr

/-- The last record stands on page two when page one is served, and on page one when page
two is served. It is never deleted, and neither sync stores it. -/
theorem unchanged_record_lost :
    ∃ s s', FullSync sampleCrates syncedFeed shiftingWalk crowdedWorld s ∧
      NextSync sampleCrates 5 s s' ∧
      Steady sampleCrates (groupNames syncedFeed.vaultGroups) crowdedVault shiftingWalk
        (numberedAddress 1000) ∧
      s'.vault.lookup ("dmz", numberedAddress 1000) = some ⟨-1000, false, 0⟩ ∧
      ¬ Cached 5 s (numberedAddress 1000) ∧ ¬ Cached 5 s' (numberedAddress 1000) := by
  have hgroup : groupNames syncedFeed.vaultGroups = ["dmz"] := by decide
  have hrow : crowdedWorld.db.endpoints.find 5 = some syncedFeed := rfl
  have hpass := shiftingWalk_pass
  rw [← hgroup] at hpass
  obtain ⟨s, s', hfull, hnext, hvault, hsame⟩ := quiet_aftermath sampleCrates hrow hpass
  have hmissing : ¬ Cached 5 s (numberedAddress 1000) := by
    intro hcached
    exact shiftingWalk_hides ((cached_of_fullSync hfull _).mp hcached).2
  refine ⟨s, s', hfull, hnext, ?_, ?_, hmissing, ?_⟩
  · rw [hgroup]
    exact shiftingWalk_steady
  · rw [hvault]
    refine lookup_numbered ?_
    change numberedEntry 1000 ∈ thinnedVault.entries
    have hlast : 1000 ∈ List.range' 1 1000 := List.mem_range'_1.mpr (by decide)
    rw [thinnedVault_entries]
    exact List.mem_cons_of_mem _ (List.mem_map_of_mem hlast)
  · intro hcached
    exact hmissing ((hsame _).mp hcached)

end SimplyIpExporter.MovingPages
