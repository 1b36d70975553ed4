import SimplyIpExporter.Pagination

/-!
# A fetch from a Vault that may answer anything

The fetch of `VaultClient` with the two things a machine adds: offsets are computed
in 64 bits, without overflow checks as in a release build, and the vector of the
offsets of all pages is allocated before any of them is asked for. Its length comes
from the page count in the reply. A request for more memory than is granted ends the
fetch without a result.

Whatever the Vault replies, the number of requests and their offsets stay below the
ceiling and no failed page goes unnoticed. That the fetch ends, and that the offsets
it computes stay inside 64 bits, depends on the page count.
-/
namespace SimplyIpExporter.FetchLimits
open VaultClient hiding walk fetchSequentially fetchRemainingPagesInParallel fetchIps
open Pagination BufferedCompletion

/-- The largest number of bytes granted to one vector, at most `isize::MAX`. -/
structure Allocator where
  limit : ℕ
  limit_le : limit ≤ 2 ^ 63 - 1

def u64 (n : ℕ) : ℕ := n % 2 ^ 64

/-- What a fetch leaves: its result unless it was broken off, the requests it sent,
and the exact values of the offsets it computed. -/
structure Outcome where
  result : Option (Except VaultError (List VaultApiRecord))
  sent : List PageRequest
  computed : List ℕ

def fetchRemainingPagesInParallel (a : Allocator) (server : Server) (pick : ℕ → ℕ) (pageSize : ℕ)
    (base : String) (data : List VaultApiRecord) (totalPages : ℕ) (sent : List PageRequest) :
    Outcome :=
  if a.limit < 8 * (totalPages - 1) then ⟨none, sent, []⟩
  else
    let computed := (List.range' 1 (totalPages - 1)).map (· * pageSize)
    let offsets := computed.map u64
    if offsets.isEmpty then ⟨some (.ok data), sent, computed⟩
    else
      let offsets := offsets.take (maxPages - 1)
      let pages := bufferUnordered
        (fun n offset =>
          signedGet decodePage (server (sent.length + n) (pageAt base pageSize offset)))
        maxConcurrentPages pick offsets
      ⟨some (pages.1.map fun pages => data ++ pages.flatten),
        sent ++ (offsets.take pages.2).map (pageAt base pageSize), computed⟩

/-- The offset is moved on only when another page is to be asked for. -/
def walk (server : Server) (pageSize : ℕ) (base : String) :
    ℕ → ℕ → List VaultApiRecord → List PageRequest → Outcome
  | 0, _, all, sent => ⟨some (.ok all), sent, []⟩
  | budget + 1, offset, all, sent =>
    let request := pageAt base pageSize offset
    match signedGet decodePage (server sent.length request) with
    | .error e => ⟨some (.error e), sent ++ [request], []⟩
    | .ok page =>
      if page.length < pageSize ∨ budget = 0 then ⟨some (.ok (all ++ page)), sent ++ [request], []⟩
      else
        let rest := walk server pageSize base budget (u64 (offset + pageSize)) (all ++ page)
          (sent ++ [request])
        { rest with computed := (offset + pageSize) :: rest.computed }

def fetchSequentially (server : Server) (pageSize : ℕ) (base : String)
    (alreadyFetched : List VaultApiRecord) (sent : List PageRequest) : Outcome :=
  if alreadyFetched.length = pageSize then
    walk server pageSize base (maxPages - 1) pageSize alreadyFetched sent
  else if alreadyFetched.isEmpty then walk server pageSize base maxPages 0 [] sent
  else ⟨some (.ok alreadyFetched), sent, []⟩

def fetchIps (a : Allocator) (server : Server) (pick : ℕ → ℕ) (pageSize : ℕ) (groups : String)
    (since : Option Entities.NaiveDateTime) : Outcome :=
  let base := ipsBase groups since
  let first := probe pageSize groups since
  match signedGet decodeIps (server 0 first) with
  | .ok (.envelope data totalPages) =>
    fetchRemainingPagesInParallel a server pick pageSize base data totalPages [first]
  | .ok (.legacy data) => fetchSequentially server pageSize base data [first]
  | .error (.status 400) => fetchSequentially server pageSize base [] [first]
  | .error e => ⟨some (.error e), [first], []⟩

/-- The outcome is that of the fetch without limits. -/
def Outcome.Matches (o : Outcome) (fetched : Fetched) : Prop :=
  o.result = some fetched.1 ∧ o.sent = fetched.2

section Matching
variable (server : Server) {pageSize : ℕ} (base : String)

theorem u64_of_lt {n : ℕ} (h : n < 2 ^ 64) : u64 n = n := Nat.mod_eq_of_lt h

theorem walk_matches (budget : ℕ) {offset : ℕ} (hoffset : offset + (budget - 1) * pageSize < 2 ^ 64)
    (all : List VaultApiRecord) (sent : List PageRequest) :
    (walk server pageSize base budget offset all sent).Matches
      (VaultClient.walk server pageSize base budget offset all sent) := by
  induction budget generalizing offset all sent with
  | zero => exact ⟨rfl, rfl⟩
  | succ budget ih =>
      unfold walk VaultClient.walk
      dsimp only
      cases hpage : signedGet decodePage (server sent.length (pageAt base pageSize offset)) with
      | error e => exact ⟨rfl, rfl⟩
      | ok page =>
          dsimp only
          by_cases hshort : page.length < pageSize
          · rw [if_pos (.inl hshort), if_pos hshort]
            exact ⟨rfl, rfl⟩
          · rw [if_neg hshort]
            cases budget with
            | zero =>
                rw [if_pos (.inr rfl)]
                exact ⟨rfl, rfl⟩
            | succ budget =>
                rw [Nat.add_sub_cancel, Nat.succ_mul] at hoffset
                have hnext : u64 (offset + pageSize) = offset + pageSize := u64_of_lt (by omega)
                have hleft : ¬ (page.length < pageSize ∨ budget + 1 = 0) := by omega
                rw [if_neg hleft, hnext]
                exact ih (by rw [Nat.add_sub_cancel]; omega) _ _

theorem fetchSequentially_matches (hsize : (maxPages - 1) * pageSize < 2 ^ 64)
    (already : List VaultApiRecord) (sent : List PageRequest) :
    (fetchSequentially server pageSize base already sent).Matches
      (VaultClient.fetchSequentially server pageSize base already sent) := by
  unfold fetchSequentially VaultClient.fetchSequentially
  split_ifs
  · apply walk_matches
    calc pageSize + (maxPages - 1 - 1) * pageSize = (maxPages - 1) * pageSize := by
          rw [Nat.add_comm, ← Nat.succ_mul]
          rfl
      _ < 2 ^ 64 := hsize
  · apply walk_matches
    rw [Nat.zero_add]
    exact hsize
  · exact ⟨rfl, rfl⟩

theorem fetchRemainingPagesInParallel_matches {a : Allocator} {totalPages : ℕ}
    (hgranted : 8 * (totalPages - 1) ≤ a.limit) (hsize : (maxPages - 1) * pageSize < 2 ^ 64)
    (pick : ℕ → ℕ) (data : List VaultApiRecord) (sent : List PageRequest) :
    (fetchRemainingPagesInParallel a server pick pageSize base data totalPages sent).Matches
      (VaultClient.fetchRemainingPagesInParallel server pick pageSize base data totalPages
        sent) := by
  have hoffsets : (((List.range' 1 (totalPages - 1)).map (· * pageSize)).map u64).take
      (maxPages - 1) =
        ((List.range' 1 (totalPages - 1)).map (· * pageSize)).take (maxPages - 1) := by
    rw [← List.map_take, ← List.map_take, List.range'_eq_map_range, ← List.map_take,
      List.take_range, List.map_map]
    apply List.map_congr_left
    intro page hpage
    obtain ⟨i, hi, rfl⟩ := List.mem_map.mp hpage
    rw [List.mem_range] at hi
    apply u64_of_lt
    calc (1 + i) * pageSize ≤ (maxPages - 1) * pageSize := Nat.mul_le_mul_right _ (by omega)
      _ < 2 ^ 64 := hsize
  unfold fetchRemainingPagesInParallel VaultClient.fetchRemainingPagesInParallel
  rw [if_neg (Nat.not_lt.mpr hgranted)]
  dsimp only
  rw [hoffsets, List.isEmpty_map]
  split_ifs <;> exact ⟨rfl, rfl⟩

/-- While the offsets of all pages below the ceiling fit into 64 bits and the page count
into memory, the fetch is the one that knows no limits. -/
theorem fetchIps_matches (a : Allocator) (pick : ℕ → ℕ) (groups : String)
    (since : Option Entities.NaiveDateTime) (hsize : (maxPages - 1) * pageSize < 2 ^ 64)
    (hgranted : ∀ data totalPages, signedGet decodeIps (server 0 (probe pageSize groups since)) =
      .ok (.envelope data totalPages) → 8 * (totalPages - 1) ≤ a.limit) :
    (fetchIps a server pick pageSize groups since).Matches
      (VaultClient.fetchIps server pick pageSize groups since) := by
  have hprobe : (⟨ipsBase groups since, true, pageSize, 0⟩ : PageRequest) =
    probe pageSize groups since := rfl
  unfold fetchIps VaultClient.fetchIps
  dsimp only
  rw [hprobe]
  cases hfirst : signedGet decodeIps (server 0 (probe pageSize groups since)) with
  | error e =>
      by_cases hrejected : e = .status 400
      · subst hrejected
        exact fetchSequentially_matches server _ hsize [] _
      · simp [Outcome.Matches]
  | ok response =>
      cases response with
      | envelope data totalPages =>
          exact fetchRemainingPagesInParallel_matches server _
            (hgranted data totalPages hfirst) hsize
            pick data _
      | legacy data => exact fetchSequentially_matches server _ hsize data _

end Matching

/-- A request whose page arrived. -/
def Succeeded (server : Server) (n : ℕ) (r : PageRequest) : Prop :=
  ∃ page, signedGet decodePage (server n r) = .ok page

/-- An outcome that adds to the requests already sent at most `budget` others, with
no offset above `bound`, and is a success only if all of them are. -/
def Extends (server : Server) (sent : List PageRequest) (budget bound : ℕ) (o : Outcome) : Prop :=
  ∃ rs, o.sent = sent ++ rs ∧ rs.length ≤ budget ∧ (∀ r ∈ rs, r.offset ≤ bound) ∧
    ∀ all, o.result = some (.ok all) → ∀ n r, rs[n]? = some r → Succeeded server (sent.length + n) r

section Requests
variable {server : Server}

theorem extends_nothing {sent : List PageRequest} {budget bound : ℕ} {o : Outcome}
    (h : o.sent = sent) : Extends server sent budget bound o :=
  ⟨[], by simpa using h, Nat.zero_le _, by simp, by simp⟩

theorem extends_one {sent : List PageRequest} {budget bound : ℕ} {request : PageRequest}
    {o : Outcome} (hsent : o.sent = sent ++ [request]) (hbudget : 1 ≤ budget)
    (hbound : request.offset ≤ bound)
    (hok : ∀ all, o.result = some (.ok all) → Succeeded server sent.length request) :
    Extends server sent budget bound o := by
  refine ⟨[request], hsent, hbudget, ?_, ?_⟩
  · intro r hr
    rw [List.mem_singleton.mp hr]
    exact hbound
  · intro all hall n r hr
    obtain ⟨rfl, rfl⟩ : n = 0 ∧ request = r := by
      cases n with
      | zero => exact ⟨rfl, by simpa using hr⟩
      | succ n => simp at hr
    exact hok all hall

/-- A request followed by an outcome that extends the list it is part of. -/
theorem Extends.after {sent : List PageRequest} {budget bound : ℕ} {request : PageRequest}
    {o : Outcome} (h : Extends server (sent ++ [request]) budget bound o)
    (hbound : request.offset ≤ bound) (hok : Succeeded server sent.length request) :
    Extends server sent (budget + 1) bound o := by
  obtain ⟨rs, hsent, hlength, hoffsets, hall⟩ := h
  refine ⟨request :: rs, by simpa using hsent, Nat.succ_le_succ hlength, ?_, ?_⟩
  · intro r hr
    rcases List.mem_cons.mp hr with rfl | hr
    · exact hbound
    · exact hoffsets r hr
  · intro all hresult n r hr
    cases n with
    | zero =>
        obtain rfl : request = r := by simpa using hr
        exact hok
    | succ n =>
        have hrest := hall all hresult n r (by simpa using hr)
        rw [List.length_append, List.length_singleton] at hrest
        rwa [Nat.add_comm n, ← Nat.add_assoc]

theorem Extends.mono {sent : List PageRequest} {budget budget' bound bound' : ℕ} {o : Outcome}
    (h : Extends server sent budget bound o) (hbudget : budget ≤ budget')
    (hbound : bound ≤ bound') :
    Extends server sent budget' bound' o := by
  obtain ⟨rs, hsent, hlength, hoffsets, hall⟩ := h
  exact ⟨rs, hsent, hlength.trans hbudget, fun r hr => (hoffsets r hr).trans hbound, hall⟩

end Requests

section Bounds
variable (server : Server) (pageSize : ℕ) (base : String)

theorem walk_extends (budget offset : ℕ) (all : List VaultApiRecord) (sent : List PageRequest) :
    Extends server sent budget (offset + (budget - 1) * pageSize)
        (walk server pageSize base budget offset all sent) ∧
      (walk server pageSize base budget offset all sent).result.isSome = true ∧
      ∀ n ∈ (walk server pageSize base budget offset all sent).computed,
        n ≤ offset + (budget - 1) * pageSize := by
  induction budget generalizing offset all sent with
  | zero => exact ⟨extends_nothing rfl, rfl, by simp [walk]⟩
  | succ budget ih =>
      rw [Nat.add_sub_cancel]
      have hfirst : (pageAt base pageSize offset).offset ≤ offset + budget * pageSize :=
        Nat.le_add_right _ _
      unfold walk
      dsimp only
      split
      · refine ⟨extends_one rfl (Nat.le_add_left 1 budget) hfirst ?_, rfl, by simp⟩
        intro all h
        cases h
      · rename_i page hpage
        have hok : Succeeded server sent.length (pageAt base pageSize offset) := ⟨page, hpage⟩
        split_ifs with hlast
        · exact ⟨extends_one rfl (Nat.le_add_left 1 budget) hfirst fun _ _ => hok, rfl, by simp⟩
        · obtain ⟨hextends, hends, hcomputed⟩ := ih (u64 (offset + pageSize)) (all ++ page)
            (sent ++ [pageAt base pageSize offset])
          have hwrap : u64 (offset + pageSize) ≤ offset + pageSize := Nat.mod_le _ _
          have hpages : pageSize + (budget - 1) * pageSize = budget * pageSize := by
            rw [Nat.sub_mul, Nat.one_mul]
            have hle : pageSize ≤ budget * pageSize :=
              Nat.le_mul_of_pos_left pageSize (by omega)
            omega
          have hbound : u64 (offset + pageSize) + (budget - 1) * pageSize ≤
              offset + budget * pageSize := by
            omega
          refine ⟨Extends.after (hextends.mono (le_refl _) hbound) hfirst hok, hends, ?_⟩
          intro n hn
          rcases List.mem_cons.mp hn with rfl | hn
          · omega
          · exact (hcomputed n hn).trans hbound

theorem fetchSequentially_extends (already : List VaultApiRecord) (sent : List PageRequest) :
    Extends server sent maxPages ((maxPages - 1) * pageSize)
        (fetchSequentially server pageSize base already sent) ∧
      (fetchSequentially server pageSize base already sent).result.isSome = true ∧
      ∀ n ∈ (fetchSequentially server pageSize base already sent).computed,
        n ≤ (maxPages - 1) * pageSize := by
  unfold fetchSequentially
  split_ifs
  · obtain ⟨hextends, hends, hcomputed⟩ := walk_extends server pageSize base (maxPages - 1) pageSize
      already sent
    have hbound : pageSize + (maxPages - 1 - 1) * pageSize = (maxPages - 1) * pageSize := by
      rw [Nat.add_comm, ← Nat.succ_mul]
      rfl
    rw [hbound] at hextends hcomputed
    exact ⟨hextends.mono (Nat.sub_le _ _) (le_refl _), hends, hcomputed⟩
  · have hwalk := walk_extends server pageSize base maxPages 0 [] sent
    rw [Nat.zero_add] at hwalk
    exact hwalk
  · exact ⟨extends_nothing rfl, rfl, by simp⟩

theorem fetchRemainingPagesInParallel_granted {a : Allocator} (pick : ℕ → ℕ)
    (data : List VaultApiRecord) {totalPages : ℕ} (sent : List PageRequest)
    (hgranted : 8 * (totalPages - 1) ≤ a.limit) :
    (fetchRemainingPagesInParallel a server pick pageSize base data totalPages
        sent).result.isSome = true ∧
      (fetchRemainingPagesInParallel a server pick pageSize base data totalPages sent).computed =
        (List.range' 1 (totalPages - 1)).map (· * pageSize) := by
  unfold fetchRemainingPagesInParallel
  rw [if_neg (Nat.not_lt.mpr hgranted)]
  dsimp only
  split_ifs <;> exact ⟨rfl, rfl⟩

/-- The pages asked for are the first of those computed, and each was given its own
reply. -/
theorem fetchRemainingPagesInParallel_extends (a : Allocator) (pick : ℕ → ℕ)
    (data : List VaultApiRecord) (totalPages : ℕ) (sent : List PageRequest) :
    Extends server sent (maxPages - 1) ((maxPages - 1) * pageSize)
      (fetchRemainingPagesInParallel a server pick pageSize base data totalPages sent) := by
  unfold fetchRemainingPagesInParallel
  dsimp only
  split_ifs with hrefused hnone
  · exact extends_nothing rfl
  · exact extends_nothing rfl
  · generalize hoffsets : (((List.range' 1 (totalPages - 1)).map (· * pageSize)).map u64).take
      (maxPages - 1) = offsets
    generalize hpages : bufferUnordered (fun n offset => signedGet decodePage
      (server (sent.length + n) (pageAt base pageSize offset))) maxConcurrentPages pick
        offsets = pages
    refine ⟨_, rfl, ?_, ?_, ?_⟩
    · have hlength : offsets.length ≤ maxPages - 1 := by
        rw [← hoffsets]
        exact List.length_take_le _ _
      simp only [List.length_map, List.length_take]
      omega
    · intro r hr
      obtain ⟨offset, hoffset, rfl⟩ := List.mem_map.mp hr
      have hmem := List.mem_of_mem_take hoffset
      rw [← hoffsets, List.map_map, ← List.map_take] at hmem
      obtain ⟨page, hpage, rfl⟩ := List.mem_map.mp hmem
      rw [List.range'_eq_map_range, ← List.map_take, List.take_range] at hpage
      obtain ⟨i, hi, rfl⟩ := List.mem_map.mp hpage
      rw [List.mem_range] at hi
      calc u64 ((1 + i) * pageSize) ≤ (1 + i) * pageSize := Nat.mod_le _ _
        _ ≤ (maxPages - 1) * pageSize := Nat.mul_le_mul_right _ (by omega)
    · intro all hall n r hr
      rw [List.getElem?_map, Option.map_eq_some_iff] at hr
      obtain ⟨offset, hoffset, rfl⟩ := hr
      rw [List.getElem?_take] at hoffset
      split_ifs at hoffset with hstarted
      cases hresult : pages.1 with
      | error e =>
          rw [hresult] at hall
          cases hall
      | ok collected =>
          have hcollect := hpages.trans (Prod.ext hresult rfl : pages = (.ok collected, pages.2))
          exact bufferUnordered_ok (by decide) pick hcollect n offset hstarted hoffset

end Bounds

/-- What holds of a fetch whatever the Vault replies. -/
structure Bounded (server : Server) (pageSize : ℕ) (o : Outcome) : Prop where
  requests : o.sent.length ≤ maxPages + 1
  offsets : ∀ r ∈ o.sent, r.offset < maxPages * pageSize
  succeeded : ∀ all, o.result = some (.ok all) → ∀ n r, 0 < n → o.sent[n]? = some r →
    Succeeded server n r

structure Contained (server : Server) (pageSize : ℕ) (o : Outcome) : Prop
    extends Bounded server pageSize o where
  finishes : o.result.isSome = true
  inside : pageSize = pageSizeDefault → ∀ n ∈ o.computed, n < 2 ^ 64

section Replies
variable {server : Server} {pageSize : ℕ} {groups : String} {since : Option Entities.NaiveDateTime}

/-- The probe followed by at most `maxPages` other requests. -/
theorem Extends.bounded (hp : 0 < pageSize) {budget : ℕ} (hbudget : budget ≤ maxPages) {o : Outcome}
    (h : Extends server [probe pageSize groups since] budget ((maxPages - 1) * pageSize) o) :
    Bounded server pageSize o := by
  obtain ⟨rs, hsent, hlength, hoffsets, hall⟩ := h
  have hceiling : (maxPages - 1) * pageSize < maxPages * pageSize :=
    Nat.mul_lt_mul_of_pos_right (by decide) hp
  refine ⟨?_, ?_, ?_⟩
  · rw [hsent, List.length_append, List.length_singleton]
    omega
  · intro r hr
    rw [hsent] at hr
    rcases List.mem_cons.mp hr with rfl | hr
    · exact Nat.mul_pos (by decide) hp
    · exact (hoffsets r hr).trans_lt hceiling
  · intro all hresult n r hn hr
    rw [hsent] at hr
    cases n with
    | zero => cases hn
    | succ n =>
        have hok := hall all hresult n r (by simpa using hr)
        rwa [Nat.add_comm] at hok

theorem fetchSequentially_contained (hp : 0 < pageSize) (base : String)
    (already : List VaultApiRecord) : Contained server pageSize
      (fetchSequentially server pageSize base already [probe pageSize groups since]) := by
  obtain ⟨hextends, hends, hcomputed⟩ := fetchSequentially_extends server pageSize base already
    [probe pageSize groups since]
  refine ⟨hextends.bounded hp (le_refl _), hends, ?_⟩
  intro hsize n hn
  have hle := hcomputed n hn
  rw [hsize] at hle
  exact hle.trans_lt (by decide)

/-- The page count decides whether the other pages are fetched within bounds. -/
theorem fetchRemainingPagesInParallel_contained_iff (hp : 0 < pageSize) (a : Allocator)
    (pick : ℕ → ℕ) (base : String) (data : List VaultApiRecord) (totalPages : ℕ) :
    Contained server pageSize (fetchRemainingPagesInParallel a server pick pageSize base data
        totalPages [probe pageSize groups since]) ↔
      8 * (totalPages - 1) ≤ a.limit ∧
        (pageSize = pageSizeDefault → (totalPages - 1) * pageSize < 2 ^ 64) := by
  have hbounded :=
    (fetchRemainingPagesInParallel_extends server pageSize base a pick data totalPages
    [probe pageSize groups since]).bounded hp (Nat.sub_le _ _)
  by_cases hgranted : 8 * (totalPages - 1) ≤ a.limit
  · obtain ⟨hends, hcomputed⟩ :=
      fetchRemainingPagesInParallel_granted server pageSize base pick data
      [probe pageSize groups since] hgranted
    constructor
    · intro hcontained
      refine ⟨hgranted, ?_⟩
      intro hsize
      by_cases hnone : totalPages - 1 = 0
      · rw [hnone, Nat.zero_mul]
        decide
      · apply hcontained.inside hsize
        rw [hcomputed]
        exact List.mem_map.mpr ⟨totalPages - 1, List.mem_range'_1.mpr (by omega), rfl⟩
    · rintro ⟨-, hsmall⟩
      refine ⟨hbounded, hends, ?_⟩
      intro hsize n hn
      rw [hcomputed] at hn
      obtain ⟨page, hpage, rfl⟩ := List.mem_map.mp hn
      rw [List.mem_range'_1] at hpage
      calc page * pageSize ≤ (totalPages - 1) * pageSize := Nat.mul_le_mul_right _ (by omega)
        _ < 2 ^ 64 := hsmall hsize
  · refine iff_of_false ?_ fun h => hgranted h.1
    intro hcontained
    have hends := hcontained.finishes
    rw [fetchRemainingPagesInParallel, if_pos (Nat.lt_of_not_le hgranted)] at hends
    cases hends

/-- A fetch stays within bounds exactly when a page count it is given can be listed in
the memory granted and, with pages of the default size, numbers the records in 64 bits. -/
theorem fetch_contained_iff (a : Allocator) (server : Server) (pick : ℕ → ℕ) {pageSize : ℕ}
    (hp : 0 < pageSize) (groups : String) (since : Option Entities.NaiveDateTime) :
    Contained server pageSize (fetchIps a server pick pageSize groups since) ↔
      ∀ data totalPages, signedGet decodeIps (server 0 (probe pageSize groups since)) =
          .ok (.envelope data totalPages) →
        8 * (totalPages - 1) ≤ a.limit ∧
          (pageSize = pageSizeDefault → (totalPages - 1) * pageSize < 2 ^ 64) := by
  unfold fetchIps
  dsimp only
  split
  · rename_i data totalPages hfirst
    rw [fetchRemainingPagesInParallel_contained_iff hp, hfirst]
    constructor
    · rintro hcount data' totalPages' heq
      cases heq
      exact hcount
    · intro h
      exact h data totalPages rfl
  · rename_i data hfirst
    exact iff_of_true (fetchSequentially_contained hp _ data) (by simp [hfirst])
  · rename_i hfirst
    exact iff_of_true (fetchSequentially_contained hp _ []) (by simp [hfirst])
  · rename_i e _ hfirst
    refine iff_of_true
      ⟨(extends_nothing rfl : Extends server [probe pageSize groups since] 0 _ _).bounded
      hp (Nat.zero_le _), rfl, by simp⟩ (by simp [hfirst])

end Replies

/-- An allocator that grants whatever a vector may ask for. -/
def generous : Allocator := ⟨2 ^ 63 - 1, le_refl _⟩

/-- A Vault that replies with no records and the same page count to everything. -/
def counting (totalPages : ℕ) : Server := fun _ _ => .response 200 (.envelope [] totalPages)

theorem fetch_contained_thousandPages :
    Contained (counting 1001) pageSizeDefault
      (fetchIps generous (counting 1001) (fun _ => 0) pageSizeDefault "dmz" none) := by
  apply (fetch_contained_iff generous (counting 1001) (fun _ => 0) (by decide) "dmz" none).mpr
  intro data totalPages hfirst
  cases hfirst
  decide

/-- The largest page count asks for more memory than a vector may have. -/
theorem fetch_broken_off :
    (fetchIps generous (counting (2 ^ 64 - 1)) (fun _ => 0) pageSizeDefault "dmz" none).result =
      none := by
  decide

end SimplyIpExporter.FetchLimits
