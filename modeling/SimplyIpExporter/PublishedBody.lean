import SimplyIpExporter.EndpointHandlers
import SimplyIpExporter.NetworkPrefixes
import SimplyIpExporter.PublicFeed

/-!
# What a feed publishes

The aggregation of networks and their text are the `ipnet` crate's. Of them it is
assumed that aggregation gives a smallest disjoint cover in each address family and
that networks without host bits have different texts. Since such networks are a
laminar family, the smallest cover depends on the covered addresses only, and so do
the body and its tag, in whatever order the cache's map is gone through.
-/
namespace SimplyIpExporter.PublishedBody
open RustText IpAddresses Entities AddressCache PublicFeed NetworkPrefixes LaminarCovers

/-- The address lies in one of the networks. -/
def Covered (nets : List IpNet) (a : IpAddr) : Prop := ∃ n ∈ nets, n.contains a = true

def Disjointed (m n : IpNet) : Prop := ∀ a, ¬ (m.contains a = true ∧ n.contains a = true)

/-- What is assumed of `IpNet::aggregate`. No network holds addresses of both families,
so a cover that is smallest in each family is smallest altogether. -/
structure AggregateCorrect (aggregate : List IpNet → List IpNet) : Prop where
  canonical : ∀ nets, ∀ n ∈ aggregate nets, Canonical n
  disjoint : ∀ nets, (aggregate nets).Pairwise Disjointed
  exact : ∀ nets a, Covered (aggregate nets) a ↔ Covered nets a
  minimal : ∀ nets other, (∀ a, Covered other a ↔ Covered nets a) →
    (aggregate nets).length ≤ other.length

section Aggregation
variable {aggregate : List IpNet → List IpNet} (h : AggregateCorrect aggregate)

include h

theorem AggregateCorrect.nodup (nets : List IpNet) : (aggregate nets).Nodup := by
  refine (h.disjoint nets).imp ?_
  intro m n hdisjoint heq
  subst heq
  exact hdisjoint m.network ⟨contains_network m, contains_network m⟩

theorem AggregateCorrect.isCover (nets : List IpNet) :
    IsCover {n | Canonical n} addresses {a | Covered nets a} (aggregate nets).toFinset where
  named n hn := h.canonical nets n (List.mem_toFinset.mp hn)
  mem_iff a := by
    have hexact := h.exact nets a
    simpa [Covered, addresses] using hexact

theorem AggregateCorrect.smallest (nets : List IpNet) (other : Finset IpNet)
    (hother : IsCover {n | Canonical n} addresses {a | Covered nets a} other) :
    (aggregate nets).toFinset.card ≤ other.card := by
  have hcovers : ∀ a, Covered other.toList a ↔ Covered nets a := by
    intro a
    have hmem := hother.mem_iff a
    simpa [Covered, addresses] using hmem
  rw [List.toFinset_card_of_nodup (h.nodup nets), ← Finset.length_toList other]
  exact h.minimal nets other.toList hcovers

/-- The aggregation depends on the addresses only. -/
theorem AggregateCorrect.perm {nets nets' : List IpNet}
    (hsame : ∀ a, Covered nets a ↔ Covered nets' a) : (aggregate nets).Perm (aggregate nets') := by
  have htarget : {a | Covered nets a} = {a | Covered nets' a} := Set.ext hsame
  have hcover' := h.isCover nets'
  have hsmallest' := h.smallest nets'
  rw [← htarget] at hcover' hsmallest'
  have hfinset := laminar.smallest_unique (h.isCover nets) (h.smallest nets) hcover' hsmallest'
  exact List.perm_of_nodup_nodup_toFinset_eq (h.nodup nets) (h.nodup nets') hfinset

end Aggregation

/-- The ranges of the filters that are on. -/
def enabledRanges (crates : Crates) (ep : Endpoint) : List IpNet :=
  (if ep.filterRfc1918 then rfc1918 crates else []) ++
    ((if ep.filterBogons then bogons crates else []) ++
      (if ep.filterLoopback then loopback crates else []))

/-- The network shares no address with a range of a filter that is on. -/
def Survives (crates : Crates) (ep : Endpoint) (n : IpNet) : Prop :=
  ∀ range ∈ enabledRanges crates ep, Disjointed n range

/-- A cached network whose record is inside the retention window. -/
def Retained (ep : Endpoint) (env : Surroundings) (n : IpNet) : Prop :=
  ∃ entry, env.cache.lookup ep.id = some entry ∧
    ∃ address r, entry.records.lookup address = some r ∧ r.network = n ∧
      (ep.maxAgeSeconds ≤ 0 ∨ env.now - ep.maxAgeSeconds * nanosPerSecond ≤ r.lastSeenAt)

/-- The addresses a feed is to publish. -/
def Published (crates : Crates) (ep : Endpoint) (env : Surroundings) (a : IpAddr) : Prop :=
  ∃ n, Retained ep env n ∧ Survives crates ep n ∧ n.contains a = true

/-- The cutoff of the window is a date, or none is needed. -/
def WindowInRange (ep : Endpoint) (env : Surroundings) : Prop :=
  env.cache.lookup ep.id = none ∨ ep.maxAgeSeconds ≤ 0 ∨
    (cutoff ep.maxAgeSeconds env.now).isSome = true

section Records
variable {crates : FeedCrates} {ep : Endpoint} {env : Surroundings}

theorem overlapsAny_eq_false {n : IpNet} {ranges : List IpNet} :
    overlapsAny n ranges = false ↔ ∀ range ∈ ranges, Disjointed n range := by
  rw [overlapsAny, List.any_eq_false]
  refine forall₂_congr fun range _ => ?_
  rw [Bool.or_eq_true, or_comm, ← shared_iff, not_exists]
  rfl

theorem survives_iff {n : IpNet} : Survives crates.toCrates ep n ↔
    (!ep.filterRfc1918 || !overlapsAny n (rfc1918 crates.toCrates)) = true ∧
    (!ep.filterBogons || !overlapsAny n (bogons crates.toCrates)) = true ∧
    (!ep.filterLoopback || !overlapsAny n (loopback crates.toCrates)) = true := by
  have hone : ∀ (on : Bool) (ranges : List IpNet), (!on || !overlapsAny n ranges) = true ↔
      ∀ range ∈ (if on then ranges else []), Disjointed n range := by
    intro on ranges
    cases on with
    | true => simp [overlapsAny_eq_false]
    | false => simp
  rw [hone, hone, hone]
  simp only [Survives, enabledRanges, List.forall_mem_append]

theorem snapshotWithin_isSome :
    (snapshotWithin ep.id ep.maxAgeSeconds env.now env.cache).isSome = true ↔
    WindowInRange ep env := by
  unfold snapshotWithin WindowInRange window
  cases env.cache.lookup ep.id with
  | none => simp
  | some entry =>
      by_cases hzero : ep.maxAgeSeconds ≤ 0
      · simp [hzero]
      · simp [hzero]

theorem mem_snapshotWithin {raw : List IpNet}
    (h : snapshotWithin ep.id ep.maxAgeSeconds env.now env.cache = some raw) (n : IpNet) :
    n ∈ raw ↔ Retained ep env n := by
  unfold snapshotWithin at h
  cases hentry : env.cache.lookup ep.id with
  | none =>
      rw [hentry] at h
      cases h
      simp [Retained, hentry]
  | some entry =>
      rw [hentry] at h
      obtain ⟨inside, hwindow, rfl⟩ := Option.map_eq_some_iff.mp h
      have hinside : ∀ t, inside t = true ↔
          ep.maxAgeSeconds ≤ 0 ∨ env.now - ep.maxAgeSeconds * nanosPerSecond ≤ t := by
        intro t
        unfold window at hwindow
        split at hwindow
        · rename_i hzero
          cases hwindow
          simp [hzero]
        · rename_i hpositive
          obtain ⟨cut, hcut, rfl⟩ := Option.map_eq_some_iff.mp hwindow
          unfold cutoff at hcut
          dsimp only at hcut
          split at hcut
          · cases hcut
            simp [hpositive]
          · cases hcut
      constructor
      · intro hn
        obtain ⟨⟨address, r⟩, hmem, rfl⟩ := List.mem_map.mp hn
        obtain ⟨hrecord, hage⟩ := List.mem_filter.mp hmem
        exact ⟨entry, hentry, address, r, AList.mem_lookup_iff.mpr hrecord, rfl,
          (hinside _).mp hage⟩
      · rintro ⟨entry', hentry', address, r, hrecord, rfl, hage⟩
        cases hentry.symm.trans hentry'
        exact List.mem_map.mpr ⟨⟨address, r⟩, List.mem_filter.mpr
          ⟨AList.mem_lookup_iff.mp hrecord, (hinside _).mpr hage⟩, rfl⟩

end Records

/-- The networks of a feed before they become text. -/
def feedNets (crates : FeedCrates) (ep : Endpoint) (env : Surroundings) : Option (List IpNet) :=
  (snapshotWithin ep.id ep.maxAgeSeconds env.now env.cache).map fun raw =>
    filterAndAggregate crates (env.order.1 raw) ep.filterRfc1918 ep.filterBogons ep.filterLoopback

/-- The line is the text of a network that holds the address. -/
def LineCovers (crates : FeedCrates) (line : String) (a : IpAddr) : Prop :=
  ∃ n, Canonical n ∧ crates.netText n = line ∧ n.contains a = true

/-- What the lines of a feed are to be. -/
structure ExactLines (crates : FeedCrates) (ep : Endpoint) (env : Surroundings)
    (lines : List String) : Prop where
  covers : ∀ a, (∃ line ∈ lines, LineCovers crates line a) ↔ Published crates.toCrates ep env a
  unfiltered : ∀ line ∈ lines, ∀ a, LineCovers crates line a →
    ∀ range ∈ enabledRanges crates.toCrates ep, range.contains a = false
  sorted : lines.Pairwise (· ≤ ·)
  nodup : lines.Nodup
  disjoint : lines.Pairwise fun line line' =>
    ∀ a, ¬ (LineCovers crates line a ∧ LineCovers crates line' a)

section Lines
variable {crates : FeedCrates} {ep ep' : Endpoint} {env env' : Surroundings} {lines : List String}

theorem feedLines_eq : feedLines crates ep env =
    (feedNets crates ep env).map fun nets => (nets.map crates.netText).insertionSort (· ≤ ·) := by
  rw [feedLines, feedNets, Option.map_map]
  rfl

theorem feedNets_isSome : (feedNets crates ep env).isSome = true ↔ WindowInRange ep env := by
  rw [feedNets, Option.isSome_map, snapshotWithin_isSome]

theorem feedLines_isSome : (feedLines crates ep env).isSome = true ↔ WindowInRange ep env := by
  rw [feedLines_eq, Option.isSome_map, feedNets_isSome]

/-- The networks are an aggregation of networks with the addresses to publish. -/
theorem feedNets_spec {nets : List IpNet} (h : feedNets crates ep env = some nets) :
    ∃ surviving, nets = crates.aggregate surviving ∧
      ∀ a, Covered surviving a ↔ Published crates.toCrates ep env a := by
  obtain ⟨raw, hraw, rfl⟩ := Option.map_eq_some_iff.mp h
  refine ⟨_, rfl, ?_⟩
  intro a
  have hmem : ∀ n, n ∈ env.order.1 raw ↔ Retained ep env n := fun n =>
    (env.order.2 raw).mem_iff.trans (mem_snapshotWithin hraw n)
  simp only [Covered, Published, List.mem_filter, hmem, survives_iff, and_assoc]

variable (htext : Set.InjOn crates.netText {n | Canonical n})
include htext

theorem lineCovers_text {n : IpNet} (hn : Canonical n) (a : IpAddr) :
    LineCovers crates (crates.netText n) a ↔ n.contains a = true := by
  constructor
  · rintro ⟨m, hm, hsame, hcontains⟩
    rw [← htext hm hn hsame]
    exact hcontains
  · exact fun hcontains => ⟨n, hn, rfl, hcontains⟩

variable (hagg : AggregateCorrect crates.aggregate)
include hagg

theorem exactLines_of_feedLines (h : feedLines crates ep env = some lines) :
    ExactLines crates ep env lines := by
  rw [feedLines_eq] at h
  obtain ⟨nets, hnets, rfl⟩ := Option.map_eq_some_iff.mp h
  obtain ⟨surviving, rfl, hpublished⟩ := feedNets_spec hnets
  have hperm := List.perm_insertionSort (· ≤ ·) ((crates.aggregate surviving).map crates.netText)
  have hcanonical := hagg.canonical surviving
  have hcovers : ∀ a, (∃ line ∈ ((crates.aggregate surviving).map crates.netText).insertionSort
      (· ≤ ·), LineCovers crates line a) ↔ Published crates.toCrates ep env a := by
    intro a
    rw [← hpublished a, ← hagg.exact surviving a]
    constructor
    · rintro ⟨line, hline, hcover⟩
      obtain ⟨n, hn, rfl⟩ := List.mem_map.mp (hperm.mem_iff.mp hline)
      exact ⟨n, hn, (lineCovers_text htext (hcanonical n hn) a).mp hcover⟩
    · rintro ⟨n, hn, hcontains⟩
      exact ⟨_, hperm.mem_iff.mpr (List.mem_map_of_mem hn),
        (lineCovers_text htext (hcanonical n hn) a).mpr hcontains⟩
  refine ⟨hcovers, ?_, List.pairwise_insertionSort _ _, ?_, ?_⟩
  · intro line hline a hcover range hrange
    obtain ⟨n, -, hsurvives, hcontains⟩ := (hcovers a).mp ⟨line, hline, hcover⟩
    exact Bool.eq_false_iff.mpr fun hin => hsurvives range hrange a ⟨hcontains, hin⟩
  · refine hperm.nodup_iff.mpr ((hagg.nodup surviving).map_on ?_)
    exact fun m hm n hn hsame => htext (hcanonical m hm) (hcanonical n hn) hsame
  · refine (hperm.pairwise_iff ?_).mpr ?_
    · intro line line' hdisjoint a hboth
      exact hdisjoint a hboth.symm
    · rw [List.pairwise_map]
      refine (List.Pairwise.and_mem.mp (hagg.disjoint surviving)).imp ?_
      rintro m n ⟨hm, hn, hdisjoint⟩ a ⟨hcover, hcover'⟩
      exact hdisjoint a ⟨(lineCovers_text htext (hcanonical m hm) a).mp hcover,
        (lineCovers_text htext (hcanonical n hn) a).mp hcover'⟩

omit htext

/-- Feeds with the same addresses have the same lines. -/
theorem feedLines_congr (hwindow : WindowInRange ep' env')
    (h : feedLines crates ep env = some lines)
    (hsame : ∀ a, Published crates.toCrates ep' env' a ↔ Published crates.toCrates ep env a) :
    feedLines crates ep' env' = some lines := by
  have hsome : (feedNets crates ep' env').isSome = true := feedNets_isSome.mpr hwindow
  obtain ⟨nets', hnets'⟩ := Option.isSome_iff_exists.mp hsome
  rw [feedLines_eq] at h ⊢
  obtain ⟨nets, hnets, rfl⟩ := Option.map_eq_some_iff.mp h
  obtain ⟨surviving, rfl, hpublished⟩ := feedNets_spec hnets
  obtain ⟨surviving', rfl, hpublished'⟩ := feedNets_spec hnets'
  have hperm : (crates.aggregate surviving').Perm (crates.aggregate surviving) :=
    hagg.perm fun a => (hpublished' a).trans ((hsame a).trans (hpublished a).symm)
  have hsorted : ((crates.aggregate surviving').map crates.netText).insertionSort (· ≤ ·) =
      ((crates.aggregate surviving).map crates.netText).insertionSort (· ≤ ·) := by
    have htexts := (List.perm_insertionSort (· ≤ ·) _).trans
      ((hperm.map crates.netText).trans (List.perm_insertionSort (· ≤ ·) _).symm)
    exact htexts.eq_of_pairwise' (List.pairwise_insertionSort _ _) (List.pairwise_insertionSort _ _)
  rw [hnets', Option.map_some, hsorted]

end Lines

/-- A full response carries the lines of its endpoint and their tag. -/
theorem serveFeed_full {crates : FeedCrates} {req : FeedRequest} {env : Surroundings}
    {limiter : RateLimiter} {ep : Endpoint} {lines : List String} {r : FeedResponse}
    (hfound : findFeed req.tokenSecret env.endpoints = .ok ep)
    (hlines : feedLines crates ep env = some lines)
    (hserved : (serveFeed crates req env limiter).1 = .responded r) :
    (r.status = 200 → r.body = bodyOf lines) ∧
      (r.status = 200 ∨ r.status = 304 →
        ("ETag", etagOf crates.toCrates (bodyOf lines)) ∈ r.headers) := by
  unfold serveFeed prepareFeed at hserved
  rw [hfound] at hserved
  dsimp only at hserved
  cases hbinding : checkBinding crates.toCrates ep.boundIps env.dns (req.clientIp env) with
  | error e =>
      rw [hbinding] at hserved
      cases hserved
  | ok _ =>
      rw [hbinding, hlines] at hserved
      dsimp only at hserved
      by_cases hheld : revalidates req.headers (etagOf crates.toCrates (bodyOf lines)) = true
      · rw [if_pos hheld] at hserved
        cases hserved
        exact ⟨nofun, fun _ => by simp⟩
      · rw [if_neg hheld] at hserved
        dsimp only at hserved
        split at hserved
        · cases hserved
          exact ⟨nofun, by simp [tooManyRequests]⟩
        · cases hserved
          exact ⟨fun _ => rfl, fun _ => by simp⟩

/-- Under the assumptions on aggregation and text, and whatever order the cache's map is
gone through in, a feed has exact lines exactly when the cutoff of its window can be
computed. The responses of every feed and cache that publish the same addresses carry
these lines and their tag. -/
theorem published_exact_iff (crates : FeedCrates) (hagg : AggregateCorrect crates.aggregate)
    (htext : Set.InjOn crates.netText {n | Canonical n}) (ep : Endpoint) (env : Surroundings) :
    (∃ lines, feedLines crates ep env = some lines ∧ ExactLines crates ep env lines ∧
      ∀ ep' env', WindowInRange ep' env' →
        (∀ a, Published crates.toCrates ep' env' a ↔ Published crates.toCrates ep env a) →
        feedLines crates ep' env' = some lines ∧
        ∀ req limiter r, findFeed req.tokenSecret env'.endpoints = .ok ep' →
          (serveFeed crates req env' limiter).1 = .responded r →
          (r.status = 200 → r.body = bodyOf lines) ∧
          (r.status = 200 ∨ r.status = 304 →
            ("ETag", etagOf crates.toCrates (bodyOf lines)) ∈ r.headers)) ↔
    WindowInRange ep env := by
  constructor
  · rintro ⟨lines, hlines, -⟩
    rw [feedLines_eq] at hlines
    obtain ⟨nets, hnets, -⟩ := Option.map_eq_some_iff.mp hlines
    have hsome : (feedNets crates ep env).isSome = true := by
      rw [hnets]
      rfl
    exact feedNets_isSome.mp hsome
  · intro hwindow
    have hsome : (feedNets crates ep env).isSome = true := feedNets_isSome.mpr hwindow
    obtain ⟨nets, hnets⟩ := Option.isSome_iff_exists.mp hsome
    have hlines : feedLines crates ep env =
        some ((nets.map crates.netText).insertionSort (· ≤ ·)) := by
      rw [feedLines_eq, hnets]
      rfl
    refine ⟨_, hlines, exactLines_of_feedLines htext hagg hlines, ?_⟩
    intro ep' env' hwindow' hsame
    have hlines' := feedLines_congr hagg hwindow' hlines hsame
    exact ⟨hlines', fun req limiter r hfound hserved => serveFeed_full hfound hlines' hserved⟩

section Sample

theorem isCover_trunc (nets : List IpNet) :
    IsCover {n | Canonical n} addresses {a | Covered nets a} (nets.map trunc).toFinset where
  named n hn := by
    obtain ⟨m, -, rfl⟩ := List.mem_map.mp (List.mem_toFinset.mp hn)
    exact canonical_trunc m
  mem_iff a := by simp [Covered, addresses, contains_trunc]

noncomputable def smallestCover (nets : List IpNet) : Finset IpNet :=
  (isCover_trunc nets).exists_smallest.choose

noncomputable def sampleAggregate (nets : List IpNet) : List IpNet := (smallestCover nets).toList

theorem sampleAggregate_correct : AggregateCorrect sampleAggregate := by
  have hspec : ∀ nets,
      IsCover {n | Canonical n} addresses {a | Covered nets a} (smallestCover nets) ∧
      ∀ other, IsCover {n | Canonical n} addresses {a | Covered nets a} other →
        (smallestCover nets).card ≤ other.card :=
    fun nets => (isCover_trunc nets).exists_smallest.choose_spec
  have hcovered : ∀ nets a, Covered (sampleAggregate nets) a ↔ Covered nets a := by
    intro nets a
    have hmem := (hspec nets).1.mem_iff a
    simpa [Covered, addresses, sampleAggregate] using hmem
  refine ⟨?_, ?_, hcovered, ?_⟩
  · intro nets n hn
    exact (hspec nets).1.named n (Finset.mem_toList.mp hn)
  · intro nets
    have hlargest := fun n => (laminar.mem_smallest_iff (hspec nets).1 (hspec nets).2 n).mp
    refine (Finset.nodup_toList _).pairwise_of_forall_ne ?_
    intro m hm n hn hne a hshared
    exact hne (laminar.largest_unique (hlargest m (Finset.mem_toList.mp hm))
      (hlargest n (Finset.mem_toList.mp hn)) hshared.1 hshared.2)
  · intro nets other hother
    have hsame : {a | Covered other a} = {a | Covered nets a} := Set.ext hother
    have hcover := isCover_trunc other
    rw [hsame] at hcover
    calc (sampleAggregate nets).length = (smallestCover nets).card := Finset.length_toList _
      _ ≤ (other.map trunc).toFinset.card := (hspec nets).2 _ hcover
      _ ≤ (other.map trunc).length := List.toFinset_card_le _
      _ = other.length := List.length_map ..

theorem mem_joined {sep c : Char} {parts : List (List Char)} (h : c ∈ [sep].intercalate parts) :
    c = sep ∨ ∃ p ∈ parts, c ∈ p := by
  induction parts with
  | nil => cases h
  | cons p parts ih =>
      cases parts with
      | nil => exact .inr ⟨p, List.mem_cons_self, by simpa using h⟩
      | cons q parts =>
          rw [List.intercalate_cons_cons] at h
          simp only [List.mem_append, List.mem_singleton] at h
          rcases h with (hp | hsep) | hrest
          · exact .inr ⟨p, List.mem_cons_self, hp⟩
          · exact .inl hsep
          · exact (ih hrest).imp_right fun ⟨r, hr, hc⟩ => ⟨r, List.mem_cons_of_mem _ hr, hc⟩

theorem notMem_joined {sep c : Char} {parts : List (List Char)} (hsep : c ≠ sep)
    (hparts : ∀ p ∈ parts, c ∉ p) : c ∉ [sep].intercalate parts := by
  intro hmem
  rcases mem_joined hmem with heq | ⟨p, hp, hc⟩
  · exact hsep heq
  · exact hparts p hp hc

theorem joined_inj {sep : Char} {ps qs : List (List Char)} (hps : ∀ p ∈ ps, sep ∉ p)
    (hqs : ∀ q ∈ qs, sep ∉ q) (hps' : ps ≠ []) (hqs' : qs ≠ [])
    (h : [sep].intercalate ps = [sep].intercalate qs) : ps = qs := by
  rw [← List.splitOn_intercalate sep hps hps', h, List.splitOn_intercalate sep hqs hqs']

/-- An address in parts and a length, as networks are written. -/
def netChars (sep : Char) (parts : List (List Char)) (len : ℕ) : List Char :=
  ['/'].intercalate [[sep].intercalate parts, len.repr.toList]

theorem notMem_repr {n : ℕ} {c : Char} (hc : c.toNat < 48) : c ∉ n.repr.toList := by
  intro hmem
  have hdigit := digit_of_mem_repr hmem
  omega

theorem netChars_inj {sep sep' : Char} {parts parts' : List (List Char)} {len len' : ℕ}
    (hparts : '/' ∉ [sep].intercalate parts) (hparts' : '/' ∉ [sep'].intercalate parts')
    (h : netChars sep parts len = netChars sep' parts' len') :
    [sep].intercalate parts = [sep'].intercalate parts' ∧ len = len' := by
  have hfree : ∀ {addr : List Char} {len : ℕ}, '/' ∉ addr →
      ∀ p ∈ [addr, len.repr.toList], '/' ∉ p := fun haddr =>
    List.forall_mem_cons.mpr ⟨haddr, List.forall_mem_singleton.mpr (notMem_repr (by decide))⟩
  have hpair := joined_inj (hfree hparts) (hfree hparts') (by simp) (by simp) h
  simp only [List.cons.injEq, and_true] at hpair
  exact ⟨hpair.1, repr_inj (String.toList_injective hpair.2)⟩

/-- The octets of an address in decimal. -/
def octetTexts (x : BitVec 32) : List (List Char) :=
  (digitsOf 256 4 x.toNat).map fun n => n.repr.toList

/-- The segments of an address, each in four hexadecimal digits. -/
def segmentTexts (x : BitVec 128) : List (List Char) :=
  (digitsOf 65536 8 x.toNat).map fun n => (digitsOf 16 4 n).map hexDigitChar

theorem notMem_octetTexts {x : BitVec 32} {c : Char} (hc : c.toNat < 48) :
    ∀ p ∈ octetTexts x, c ∉ p := by
  intro p hp hmem
  obtain ⟨n, -, rfl⟩ := List.mem_map.mp hp
  exact notMem_repr hc hmem

theorem notMem_segmentTexts {x : BitVec 128} {c : Char} (hc : ∀ d < 16, hexDigitChar d ≠ c) :
    ∀ p ∈ segmentTexts x, c ∉ p := by
  intro p hp hmem
  obtain ⟨n, -, rfl⟩ := List.mem_map.mp hp
  obtain ⟨d, hd, hdigit⟩ := List.mem_map.mp hmem
  obtain ⟨i, -, rfl⟩ := List.mem_map.mp hd
  exact hc _ (Nat.mod_lt _ (by decide)) hdigit

theorem octetTexts_inj {x y : BitVec 32} (h : octetTexts x = octetTexts y) : x = y := by
  have hbound : ∀ z : BitVec 32, z.toNat < 256 ^ 4 := fun z => z.isLt
  exact BitVec.eq_of_toNat_eq (digitsOf_inj (by decide)
    (fun _ _ _ _ heq => repr_inj (String.toList_injective heq)) (hbound x) (hbound y) h)

theorem segmentTexts_inj {x y : BitVec 128} (h : segmentTexts x = segmentTexts y) : x = y := by
  have hbound : ∀ z : BitVec 128, z.toNat < 65536 ^ 8 := fun z => z.isLt
  refine BitVec.eq_of_toNat_eq (digitsOf_inj (by decide) ?_ (hbound x) (hbound y) h)
  intro d hd e he
  exact digitsOf_inj (by decide) (fun _ hm _ hn => hexDigitChar_inj hm hn) hd he

/-- A network with every part of its address written out. -/
def sampleNetText : IpNet → String
  | .v4 addr len => String.ofList (netChars '.' (octetTexts addr) len.val)
  | .v6 addr len => String.ofList (netChars ':' (segmentTexts addr) len.val)

example : sampleNetText (.v4 0xc0000207#32 24) = "192.0.2.7/24" := by decide +kernel
example : sampleNetText (.v6 0x20010db8000000000000000000000007#128 64) =
    "2001:0db8:0000:0000:0000:0000:0000:0007/64" := by decide +kernel

theorem octetTexts_ne_segmentTexts (x : BitVec 32) (y : BitVec 128) :
    ['.'].intercalate (octetTexts x) ≠ [':'].intercalate (segmentTexts y) := by
  intro h
  have hdot : '.' ∈ ['.'].intercalate (octetTexts x) := by
    simp [octetTexts, digitsOf, List.range_succ, List.intercalate_cons_cons]
  rw [h] at hdot
  exact notMem_joined (by decide) (notMem_segmentTexts (by decide)) hdot

theorem sampleNetText_injective : Function.Injective sampleNetText := by
  have hv4 : ∀ x, '/' ∉ ['.'].intercalate (octetTexts x) := fun x =>
    notMem_joined (by decide) (notMem_octetTexts (by decide))
  have hv6 : ∀ x, '/' ∉ [':'].intercalate (segmentTexts x) := fun x =>
    notMem_joined (by decide) (notMem_segmentTexts (by decide))
  intro m n h
  cases m with
  | v4 x k =>
      cases n with
      | v4 y j =>
          obtain ⟨haddr, hlen⟩ := netChars_inj (hv4 x) (hv4 y) (String.ofList_injective h)
          have hoctets := joined_inj (notMem_octetTexts (by decide)) (notMem_octetTexts (by decide))
            (by simp [octetTexts, digitsOf]) (by simp [octetTexts, digitsOf]) haddr
          rw [octetTexts_inj hoctets, Fin.ext hlen]
      | v6 y j =>
          have haddr := netChars_inj (hv4 x) (hv6 y) (String.ofList_injective h)
          exact absurd haddr.1 (octetTexts_ne_segmentTexts x y)
  | v6 x k =>
      cases n with
      | v4 y j =>
          have haddr := netChars_inj (hv6 x) (hv4 y) (String.ofList_injective h)
          exact absurd haddr.1.symm (octetTexts_ne_segmentTexts y x)
      | v6 y j =>
          obtain ⟨haddr, hlen⟩ := netChars_inj (hv6 x) (hv6 y) (String.ofList_injective h)
          have hsegments :=
            joined_inj (notMem_segmentTexts (by decide)) (notMem_segmentTexts (by decide))
            (by simp [segmentTexts, digitsOf]) (by simp [segmentTexts, digitsOf]) haddr
          rw [segmentTexts_inj hsegments, Fin.ext hlen]

theorem newline_notMem_sampleNetText (n : IpNet) : '\n' ∉ (sampleNetText n).toList := by
  have hfree : ∀ {addr : List Char} {len : ℕ}, '\n' ∉ addr →
      '\n' ∉ ['/'].intercalate [addr, len.repr.toList] := fun haddr =>
    notMem_joined (by decide)
      (List.forall_mem_cons.mpr ⟨haddr, List.forall_mem_singleton.mpr (notMem_repr (by decide))⟩)
  cases n with
  | v4 x k =>
      rw [sampleNetText, String.toList_ofList]
      exact hfree (notMem_joined (by decide) (notMem_octetTexts (by decide)))
  | v6 x k =>
      rw [sampleNetText, String.toList_ofList]
      exact hfree (notMem_joined (by decide) (notMem_segmentTexts (by decide)))

noncomputable def exactCrates : FeedCrates :=
  { sampleCrates with aggregate := sampleAggregate, netText := sampleNetText }

/-- One cached address, seen at the epoch. -/
def sampleCached : Surroundings where
  proxies := []
  endpoints := .ok [sampleFeed]
  dns := fun _ => []
  cache := applyFull sampleCrates sampleFeed.id [⟨"192.0.2.7", 0, false⟩] 0 ∅
  now := 0
  order := keptOrder
  instant := 0

/-- The assumptions hold of some functions, and a feed without a window has exact lines. -/
theorem published_exact_unlimited :
    AggregateCorrect exactCrates.aggregate ∧ Set.InjOn exactCrates.netText {n | Canonical n} ∧
    ∃ lines, feedLines exactCrates sampleFeed sampleCached = some lines ∧
      ExactLines exactCrates sampleFeed sampleCached lines :=
  have htext : Set.InjOn exactCrates.netText {n | Canonical n} := sampleNetText_injective.injOn
  have hwindow : WindowInRange sampleFeed sampleCached := .inr (.inl (by decide))
  have hexact := (published_exact_iff exactCrates sampleAggregate_correct htext sampleFeed
    sampleCached).mpr hwindow
  ⟨sampleAggregate_correct, htext, hexact.imp fun _ h => ⟨h.1, h.2.1⟩⟩

/-- The largest admissible window. -/
def endlessFeed : Endpoint := { sampleFeed with maxAgeSeconds := 9223372036854775807 }

/-- A window that reaches back before every date: the request panics, and no line is
produced for the record that is inside the window. -/
theorem endless_window_panics :
    EndpointHandlers.validateMaxAge endlessFeed.maxAgeSeconds = .ok () ∧
    Published sampleCrates endlessFeed sampleCached (.v4 0xc0000207#32) ∧
    feedLines sampleFeedCrates endlessFeed sampleCached = none ∧
    ∀ limiter, (serveFeed sampleFeedCrates { tokenSecret := "token", peer := .v4 1, headers := [] }
      { sampleCached with endpoints := .ok [endlessFeed] } limiter).1 = .panicked := by
  have hnone : feedLines sampleFeedCrates endlessFeed sampleCached = none := by decide
  refine ⟨by decide, ?_, hnone, ?_⟩
  · refine ⟨.fromAddr (.v4 0xc0000207#32), ?_, ?_, by decide⟩
    · exact ⟨_, rfl, "192.0.2.7",
        ⟨.fromAddr (.v4 0xc0000207#32), 0⟩, by decide, rfl, .inr (by decide)⟩
    · intro range hrange
      cases hrange
  · intro limiter
    rfl

end Sample
end SimplyIpExporter.PublishedBody
