import SimplyIpExporter.CanonicalSigning
import SimplyIpExporter.OutboundStamps
import SimplyIpExporter.PublishedBody
import SimplyIpExporter.Throttling

/-!
# Subscribers that revalidate

A subscriber keeps the body of the last full response with its tag, and sends the tag
along when it asks again. The tag is a digest of the body, the body is a text of the lines,
and the lines are determined by the published addresses. So, unless two bodies have one
digest, a subscriber is told that nothing has changed exactly when the feed still publishes
the addresses of its copy; and it is told so whatever the rate limiter has on record.
-/
namespace SimplyIpExporter.Revalidation
open RustText IpAddresses Entities ClientAddress PublicFeed PublishedBody NetworkPrefixes Throttling
open CanonicalSigning OutboundStamps

/-- No line has a line break in it. -/
def Unbroken (lines : List String) : Prop := ∀ line ∈ lines, '\n' ∉ line.toList

theorem toList_bodyOf_cons (line : String) (lines : List String) :
    (bodyOf (line :: lines)).toList = line.toList ++ '\n' :: (bodyOf lines).toList := by
  cases lines with
  | nil => simp [bodyOf]
  | cons next rest => simp [bodyOf]

/-- A body read line by line. -/
theorem split_bodyOf {lines : List String} (h : Unbroken lines) :
    split '\n' (bodyOf lines) = lines ++ [""] := by
  induction lines with
  | nil => rfl
  | cons line lines ih =>
      have hline : split '\n' line = [line] := split_of_notMem (h line List.mem_cons_self)
      have hrest := ih fun l hl => h l (List.mem_cons_of_mem _ hl)
      have hbody : bodyOf (line :: lines) =
          String.ofList (line.toList ++ '\n' :: (bodyOf lines).toList) := by
        rw [← toList_bodyOf_cons, String.ofList_toList]
      rw [hbody, split_append_cons, String.ofList_toList, String.ofList_toList, hline, hrest]
      rfl

theorem bodyOf_inj {lines lines' : List String} (h : Unbroken lines) (h' : Unbroken lines')
    (heq : bodyOf lines = bodyOf lines') : lines = lines' := by
  have hsplit := congrArg (split '\n') heq
  rw [split_bodyOf h, split_bodyOf h'] at hsplit
  exact List.append_cancel_right hsplit

/-- `HeaderValue::from_str`: visible text only. -/
def headerFromStr (s : String) : Option HeaderValue :=
  let bytes := s.toList.map fun c => UInt8.ofNat c.toNat
  if h : (s.toList.all fun c => decide (c.toNat < 256)) = true ∧ bytes.all visibleByte = true then
    some ⟨bytes, List.all_eq_true.mpr fun b hb => legal_of_visible (List.all_eq_true.mp h.2 b hb)⟩
  else none
where
  legal_of_visible {b : UInt8} (h : visibleByte b = true) : legalByte b = true := by
    revert h
    unfold visibleByte legalByte
    simp only [Bool.or_eq_true, Bool.and_eq_true, decide_eq_true_eq, bne_iff_ne, ne_eq]
    rintro (⟨hlow, hhigh⟩ | htab)
    · refine .inl ⟨hlow, ?_⟩
      rintro rfl
      exact absurd hhigh (by decide)
    · exact .inr htab

/-- Text that a header can carry. -/
def Visible (cs : List Char) : Prop := ∀ c ∈ cs, 32 ≤ c.toNat ∧ c.toNat < 127

theorem headerFromStr_of_visible {s : String} (h : Visible s.toList) :
    ∃ value, headerFromStr s = some value ∧ value.toStr = some s := by
  have hbytes : ∀ c ∈ s.toList, (UInt8.ofNat c.toNat).toNat = c.toNat := fun c hc =>
    UInt8.toNat_ofNat_of_lt ((h c hc).2.trans (by decide))
  have hvisible : (s.toList.map fun c => UInt8.ofNat c.toNat).all visibleByte = true := by
    rw [List.all_map, List.all_eq_true]
    intro c hc
    have hc' := h c hc
    have hb := hbytes c hc
    simp only [Function.comp_apply, visibleByte, Bool.or_eq_true, Bool.and_eq_true,
      decide_eq_true_eq, UInt8.le_iff_toNat_le, UInt8.lt_iff_toNat_lt, hb]
    exact .inl hc'
  have hsmall : (s.toList.all fun c => decide (c.toNat < 256)) = true := by
    rw [List.all_eq_true]
    intro c hc
    have hc' := h c hc
    exact decide_eq_true (by omega)
  refine ⟨_, dif_pos ⟨hsmall, hvisible⟩, ?_⟩
  rw [HeaderValue.toStr, if_pos hvisible, List.map_map]
  have hchars :
      s.toList.map ((fun b : UInt8 => Char.ofNat b.toNat) ∘ fun c => UInt8.ofNat c.toNat) =
      s.toList := by
    refine (List.map_congr_left fun c hc => ?_).trans (List.map_id _)
    rw [Function.comp_apply, hbytes c hc, Char.ofNat_toNat, id]
  rw [hchars, String.ofList_toList]

theorem hexChars_visible {bytes : List UInt8} : Visible (hexChars bytes) := by
  have hdigit : ∀ n < 16, 32 ≤ (hexDigitChar n).toNat ∧ (hexDigitChar n).toNat < 127 := by decide
  intro c hc
  obtain ⟨b, -, hc⟩ := List.mem_flatMap.mp hc
  obtain ⟨hhigh, hlow⟩ := halves_lt b
  rcases List.mem_pair.mp hc with rfl | rfl
  · exact hdigit _ hhigh
  · exact hdigit _ hlow

theorem toList_etagOf (crates : Crates) (body : String) :
    (etagOf crates body).toList = '"' :: hexChars (crates.sha256 (utf8 body)) ++ ['"'] := by
  simp [etagOf, toList_hexText]

theorem etagOf_visible (crates : Crates) (body : String) : Visible (etagOf crates body).toList := by
  intro c hc
  rw [toList_etagOf] at hc
  simp only [List.cons_append, List.mem_cons, List.mem_append, List.not_mem_nil, or_false] at hc
  rcases hc with rfl | hc | rfl
  · decide
  · exact hexChars_visible c hc
  · decide

theorem trim_etagOf (crates : Crates) (body : String) :
    trim (etagOf crates body) = etagOf crates body := by
  have hnone : ∀ c ∈ (etagOf crates body).toList, isWhitespace c = false := by
    intro c hc
    rw [toList_etagOf] at hc
    simp only [List.cons_append, List.mem_cons, List.mem_append, List.not_mem_nil, or_false] at hc
    rcases hc with rfl | hc | rfl
    · decide
    · exact hexChars_not_whitespace hc
    · decide
  rw [trim, trimChars_of_none hnone, String.ofList_toList]

/-- Bodies with one tag have one digest. -/
theorem etagOf_inj {crates : Crates} {body body' : String}
    (h : etagOf crates body = etagOf crates body') :
    crates.sha256 (utf8 body) = crates.sha256 (utf8 body') := by
  have hlist := congrArg String.toList h
  rw [toList_etagOf, toList_etagOf] at hlist
  have hhex := List.append_cancel_right (List.cons.inj hlist).2
  have hdecode := congrArg hexDecode hhex
  rw [hexDecode_hexChars, hexDecode_hexChars] at hdecode
  exact Option.some.inj hdecode

/-- What a subscriber keeps of a full response. -/
structure Copy where
  tag : String
  body : String
  deriving DecidableEq, Repr

def ifNoneMatch : String := "if-none-match"

/-- The headers with the tag in place of any other. -/
def withTag (tag : String) (headers : HeaderMap) : HeaderMap :=
  match headerFromStr tag with
  | some value => (ifNoneMatch, value) :: headers.filter fun e => e.1 != ifNoneMatch
  | none => headers

/-- The request as a subscriber with that copy sends it. -/
def asks (copy : Option Copy) (v : Visit) : Visit :=
  match copy with
  | none => v
  | some c => { v with request := { v.request with headers := withTag c.tag v.request.headers } }

/-- A full response replaces the copy, and nothing else does. -/
def keep (held : Option Copy) : Served → Option Copy
  | .responded r => if r.status = 200 then (r.headers.lookup "ETag").map (⟨·, r.body⟩) else held
  | _ => held

structure Exchange (J : Type) where
  copies : J → Option Copy
  limiter : RateLimiter

section Exchanges
variable {J : Type} [DecidableEq J]

/-- The answer to a subscriber's next request. -/
def answerPoll (crates : FeedCrates) (x : Exchange J) (poll : J × Visit) : Served :=
  answerTo crates x.limiter (asks (x.copies poll.1) poll.2)

def Exchange.next (crates : FeedCrates) (x : Exchange J) (poll : J × Visit) : Exchange J where
  copies := Function.update x.copies poll.1 (keep (x.copies poll.1) (answerPoll crates x poll))
  limiter := limiterNext crates x.limiter (asks (x.copies poll.1) poll.2)

/-- After the requests of any subscribers, one after the other. -/
def exchanged (crates : FeedCrates) (polls : List (J × Visit)) : Exchange J :=
  polls.foldl (Exchange.next crates) ⟨fun _ => none, .empty⟩

end Exchanges

theorem get_withTag_of_ne {name : String} (hname : name ≠ ifNoneMatch) (tag : String)
    (headers : HeaderMap) : (withTag tag headers).get name = headers.get name := by
  unfold withTag
  split
  · have hfilter : (headers.filter fun e => e.1 != ifNoneMatch).find? (fun e => e.1 = name) =
        headers.find? fun e => e.1 = name := by
      rw [List.find?_filter]
      congr 1
      funext e
      by_cases he : e.1 = name
      · simp [he, hname]
      · simp [he]
    simp only [HeaderMap.get, List.find?_cons, hname.symm]
    rw [← hfilter]
    simp
  · rfl

theorem client_asks (copy : Option Copy) (v : Visit) : (asks copy v).client = v.client := by
  cases copy with
  | none => rfl
  | some c =>
      have hforwarded := get_withTag_of_ne (by decide : xForwardedFor ≠ ifNoneMatch) c.tag
        v.request.headers
      have hreal := get_withTag_of_ne (by decide : xRealIp ≠ ifNoneMatch) c.tag v.request.headers
      simp only [asks, Visit.client, FeedRequest.clientIp, resolveClientIp, realIp,
        hforwarded, hreal]

/-- A tag of a body revalidates exactly that tag. -/
theorem revalidates_withTag (crates : Crates) (body etag : String) (headers : HeaderMap) :
    revalidates (withTag (etagOf crates body) headers) etag = (etagOf crates body == etag) := by
  obtain ⟨value, hvalue, htext⟩ := headerFromStr_of_visible (etagOf_visible crates body)
  have hget : (withTag (etagOf crates body) headers).get "if-none-match" = some value := by
    simp [withTag, hvalue, HeaderMap.get, ifNoneMatch]
  simp only [revalidates, hget, Option.bind_some, htext, trim_etagOf]

section Answers
variable {crates : FeedCrates} {v : Visit} {ep : Endpoint} {lines : List String}

/-- The request reaches the feed, which has those lines. -/
structure Reaches (crates : FeedCrates) (v : Visit) (ep : Endpoint) (lines : List String) :
    Prop where
  found : findFeed v.request.tokenSecret v.env.endpoints = .ok ep
  allowed : checkBinding crates.toCrates ep.boundIps v.env.dns v.client = .ok ()
  lines : feedLines crates ep v.env = some lines

theorem Reaches.asks (h : Reaches crates v ep lines) (copy : Option Copy) :
    Reaches crates (asks copy v) ep lines := by
  refine ⟨?_, ?_, ?_⟩
  · cases copy <;> exact h.found
  · rw [client_asks]
    cases copy <;> exact h.allowed
  · cases copy <;> exact h.lines

/-- The full response of a feed. -/
def fullResponseOf (crates : Crates) (lines : List String) : FeedResponse :=
  ⟨200, [("Content-Type", "text/plain; charset=utf-8"), ("ETag", etagOf crates (bodyOf lines))],
    bodyOf lines⟩

theorem prepareFeed_of_reaches (h : Reaches crates v ep lines) :
    prepareFeed crates v.request v.env =
      if revalidates v.request.headers (etagOf crates.toCrates (bodyOf lines)) then
        .error (.responded ⟨304, [("ETag", etagOf crates.toCrates (bodyOf lines))], ""⟩)
      else .ok (etagOf crates.toCrates (bodyOf lines), bodyOf lines) := by
  have hallowed := h.allowed
  unfold Visit.client at hallowed
  simp only [prepareFeed, h.found, hallowed, h.lines]

/-- What a subscriber with a current tag is told, and what the others are. -/
theorem answer_of_reaches (h : Reaches crates v ep lines) (limiter : RateLimiter) :
    (revalidates v.request.headers (etagOf crates.toCrates (bodyOf lines)) = true ∧
      answerTo crates limiter v =
        .responded ⟨304, [("ETag", etagOf crates.toCrates (bodyOf lines))], ""⟩ ∧
      limiterNext crates limiter v = limiter) ∨
    (revalidates v.request.headers (etagOf crates.toCrates (bodyOf lines)) = false ∧
      (answerTo crates limiter v = .responded (fullResponseOf crates.toCrates lines) ∨
        ∃ remaining, answerTo crates limiter v = .responded (tooManyRequests remaining))) := by
  have hprepare := prepareFeed_of_reaches h
  cases hheld : revalidates v.request.headers (etagOf crates.toCrates (bodyOf lines)) with
  | true =>
      rw [hheld, if_pos rfl] at hprepare
      refine .inl ⟨rfl, ?_, ?_⟩
      · simp only [answerTo, serveFeed, hprepare]
      · simp only [limiterNext, serveFeed, hprepare]
  | false =>
      rw [hheld, if_neg Bool.false_ne_true] at hprepare
      refine .inr ⟨rfl, ?_⟩
      simp only [answerTo, serveFeed, hprepare]
      cases hcheck : checkAndRecord (v.request.clientIp v.env) v.env.instant limiter with
      | mk outcome limiter' =>
          cases outcome with
          | error remaining => exact .inr ⟨remaining, rfl⟩
          | ok u => exact .inl rfl

/-- Who is not refused has reached a feed. -/
theorem reaches_of_responded {limiter : RateLimiter} {r : FeedResponse}
    (h : answerTo crates limiter v = .responded r) : ∃ ep lines, Reaches crates v ep lines := by
  unfold answerTo serveFeed prepareFeed at h
  cases hfound : findFeed v.request.tokenSecret v.env.endpoints with
  | error e =>
      rw [hfound] at h
      cases h
  | ok ep =>
      rw [hfound] at h
      dsimp only at h
      cases hallowed :
        checkBinding crates.toCrates ep.boundIps v.env.dns (v.request.clientIp v.env) with
      | error e =>
          rw [hallowed] at h
          cases h
      | ok u =>
          rw [hallowed] at h
          cases hlines : feedLines crates ep v.env with
          | none =>
              rw [hlines] at h
              cases h
          | some lines => exact ⟨ep, lines, hfound, hallowed, hlines⟩

end Answers

section Exchanges
variable {J : Type} [DecidableEq J] {crates : FeedCrates} {polls : List (J × Visit)} {j : J}

/-- The copy was sent to the subscriber in answer to one of the requests. -/
def SentCopy (crates : FeedCrates) (polls : List (J × Visit)) (j : J) (copy : Copy) : Prop :=
  ∃ v ep lines, (j, v) ∈ polls ∧ Reaches crates v ep lines ∧
    copy = ⟨etagOf crates.toCrates (bodyOf lines), bodyOf lines⟩

theorem exchanged_concat (polls : List (J × Visit)) (poll : J × Visit) :
    exchanged crates (polls ++ [poll]) = (exchanged crates polls).next crates poll := by
  rw [exchanged, List.foldl_append]
  rfl

omit [DecidableEq J] in
/-- A copy after an answer was there before, or came with a full response. -/
theorem keep_answerPoll {x : Exchange J} {v : Visit} {copy : Copy}
    (h : keep (x.copies j) (answerPoll crates x (j, v)) = some copy) :
    x.copies j = some copy ∨ ∃ ep lines, Reaches crates v ep lines ∧
      answerPoll crates x (j, v) = .responded (fullResponseOf crates.toCrates lines) ∧
      copy = ⟨etagOf crates.toCrates (bodyOf lines), bodyOf lines⟩ := by
  cases hreply : answerPoll crates x (j, v) with
  | panicked | refused e =>
      rw [hreply] at h
      exact .inl h
  | responded r =>
      rw [hreply] at h
      obtain ⟨ep, lines, hasks⟩ := reaches_of_responded hreply
      have hreaches : Reaches crates v ep lines := by
        refine ⟨?_, ?_, ?_⟩
        · cases hcopy : x.copies j <;> simpa [asks, hcopy] using hasks.found
        · have hallowed := hasks.allowed
          rw [client_asks] at hallowed
          cases hcopy : x.copies j <;> simpa [asks, hcopy] using hallowed
        · cases hcopy : x.copies j <;> simpa [asks, hcopy] using hasks.lines
      rcases answer_of_reaches hasks x.limiter with ⟨-, hsame, -⟩ | ⟨-, hfull | ⟨remaining, hbusy⟩⟩
      · cases hreply.symm.trans hsame
        exact .inl h
      · cases hreply.symm.trans hfull
        exact .inr ⟨ep, lines, hreaches, rfl, (Option.some.inj h).symm⟩
      · cases hreply.symm.trans hbusy
        exact .inl h

theorem exchanged_sentCopy {copy : Copy} (h : (exchanged crates polls).copies j = some copy) :
    SentCopy crates polls j copy := by
  induction polls using List.reverseRecOn with
  | nil => cases h
  | append_singleton polls poll ih =>
      obtain ⟨k, v⟩ := poll
      rw [exchanged_concat] at h
      have hold : (exchanged crates polls).copies j = some copy →
          SentCopy crates (polls ++ [(k, v)]) j copy := by
        intro hcopy
        obtain ⟨v₀, ep, lines, hmem, hreaches, heq⟩ := ih hcopy
        exact ⟨v₀, ep, lines, List.mem_append_left _ hmem, hreaches, heq⟩
      by_cases hjk : j = k
      · subst hjk
        simp only [Exchange.next, Function.update_self] at h
        rcases keep_answerPoll h with hcopy | ⟨ep, lines, hreaches, -, heq⟩
        · exact hold hcopy
        · exact ⟨v, ep, lines, by simp, hreaches, heq⟩
      · simp only [Exchange.next, Function.update_of_ne hjk] at h
        exact hold h

section Exactness
variable (hagg : AggregateCorrect crates.aggregate)
  (htext : Set.InjOn crates.netText {n | Canonical n})

include hagg htext

/-- Lines that cover the same addresses are the same, and those of feeds that publish the
same addresses do. -/
theorem lines_eq_iff {v v₀ : Visit} {ep ep₀ : Endpoint} {lines lines₀ : List String}
    (h : Reaches crates v ep lines) (h₀ : Reaches crates v₀ ep₀ lines₀) :
    lines = lines₀ ↔
      ∀ a, Published crates.toCrates ep v.env a ↔ Published crates.toCrates ep₀ v₀.env a := by
  constructor
  · rintro rfl a
    rw [← (exactLines_of_feedLines htext hagg h.lines).covers a,
      ← (exactLines_of_feedLines htext hagg h₀.lines).covers a]
  · intro hsame
    have hwindow : WindowInRange ep v.env := feedLines_isSome.mp (by rw [h.lines]; rfl)
    exact Option.some.inj (h.lines.symm.trans (feedLines_congr hagg hwindow h₀.lines hsame))

end Exactness

/-- Lines of a feed are texts of networks without host bits. -/
theorem unbroken_of_feedLines (hagg : AggregateCorrect crates.aggregate)
    (hbreak : ∀ n, Canonical n → '\n' ∉ (crates.netText n).toList) {ep : Endpoint}
    {env : Surroundings} {lines : List String} (h : feedLines crates ep env = some lines) :
    Unbroken lines := by
  rw [feedLines_eq] at h
  obtain ⟨nets, hnets, rfl⟩ := Option.map_eq_some_iff.mp h
  obtain ⟨surviving, rfl, -⟩ := feedNets_spec hnets
  intro line hline
  obtain ⟨n, hn, rfl⟩ := List.mem_map.mp ((List.perm_insertionSort (· ≤ ·) _).mem_iff.mp hline)
  exact hbreak n (hagg.canonical surviving n hn)

/-- Any number of subscribers poll in any order, each with the tag of its copy, while the
tables, the cache and the clocks may be anything at each request. Let a subscriber with a
copy ask a feed that it may read, and let the copy's body and the feed's have different
digests if they differ. Then the copy was sent for an earlier request of its own, and

* it is told that nothing has changed exactly when the feed publishes the very addresses
  that were published to it then, in whatever order the cache is gone through;
* being told so is never refused by the limiter and leaves no record in it;
* unless it is told to wait, its copy afterwards is the body of the feed. -/
theorem revalidation_exact (hagg : AggregateCorrect crates.aggregate)
    (htext : Set.InjOn crates.netText {n | Canonical n})
    (hbreak : ∀ n, Canonical n → '\n' ∉ (crates.netText n).toList) {copy : Copy}
    (hcopy : (exchanged crates polls).copies j = some copy) {v : Visit} {ep : Endpoint}
    {lines : List String} (hreaches : Reaches crates v ep lines)
    (hdigest : crates.sha256 (utf8 copy.body) = crates.sha256 (utf8 (bodyOf lines)) →
      copy.body = bodyOf lines) :
    ∃ v₀ ep₀ lines₀, (j, v₀) ∈ polls ∧ Reaches crates v₀ ep₀ lines₀ ∧ copy.body = bodyOf lines₀ ∧
      (Served.status (answerPoll crates (exchanged crates polls) (j, v)) = some 304 ↔
        ∀ a, Published crates.toCrates ep v.env a ↔ Published crates.toCrates ep₀ v₀.env a) ∧
      (Served.status (answerPoll crates (exchanged crates polls) (j, v)) = some 304 →
        (exchanged crates (polls ++ [(j, v)])).limiter = (exchanged crates polls).limiter) ∧
      (Served.status (answerPoll crates (exchanged crates polls) (j, v)) ≠ some 429 →
        ((exchanged crates (polls ++ [(j, v)])).copies j).map Copy.body = some (bodyOf lines)) := by
  obtain ⟨v₀, ep₀, lines₀, hmem, hreaches₀, rfl⟩ := exchanged_sentCopy hcopy
  refine ⟨v₀, ep₀, lines₀, hmem, hreaches₀, rfl, ?_⟩
  have hsent : (asks ((exchanged crates polls).copies j) v).request.headers =
      withTag (etagOf crates.toCrates (bodyOf lines₀)) v.request.headers := by
    rw [hcopy]
    rfl
  have hbody : etagOf crates.toCrates (bodyOf lines₀) = etagOf crates.toCrates (bodyOf lines) ↔
      lines₀ = lines := by
    constructor
    · intro htag
      exact bodyOf_inj (unbroken_of_feedLines hagg hbreak hreaches₀.lines)
        (unbroken_of_feedLines hagg hbreak hreaches.lines) (hdigest (etagOf_inj htag))
    · rintro rfl
      rfl
  rw [← lines_eq_iff hagg htext hreaches hreaches₀, exchanged_concat]
  unfold Exchange.next
  simp only [Function.update_self]
  rcases answer_of_reaches (hreaches.asks ((exchanged crates polls).copies j))
    (exchanged crates polls).limiter with ⟨hheld, hanswer, hserve⟩ | ⟨hheld, hanswer⟩
  · rw [hsent, revalidates_withTag, beq_iff_eq, hbody] at hheld
    subst hheld
    have hreply : answerPoll crates (exchanged crates polls) (j, v) = _ := hanswer
    rw [hreply]
    refine ⟨⟨fun _ => rfl, fun _ => rfl⟩, fun _ => hserve, fun _ => ?_⟩
    rw [hcopy]
    rfl
  · rw [hsent, revalidates_withTag, beq_eq_false_iff_ne, ne_eq, hbody] at hheld
    rcases hanswer with hanswer | ⟨remaining, hanswer⟩
    · have hreply : answerPoll crates (exchanged crates polls) (j, v) = _ := hanswer
      rw [hreply]
      exact ⟨⟨nofun, fun hsame => absurd hsame.symm hheld⟩, nofun, fun _ => rfl⟩
    · have hreply : answerPoll crates (exchanged crates polls) (j, v) = _ := hanswer
      rw [hreply]
      exact ⟨⟨nofun, fun hsame => absurd hsame.symm hheld⟩, nofun, fun hnot => absurd rfl hnot⟩

end Exchanges

def cachedVisit : Visit := ⟨⟨"token", .v4 1, []⟩, sampleCached⟩

theorem cachedVisit_reaches : ∃ lines, Reaches exactCrates cachedVisit sampleFeed lines := by
  have hsome : (feedLines exactCrates sampleFeed sampleCached).isSome = true :=
    feedLines_isSome.mpr (.inr (.inl (by decide)))
  obtain ⟨lines, hlines⟩ := Option.isSome_iff_exists.mp hsome
  exact ⟨lines, rfl, rfl, hlines⟩

theorem cachedVisit_first {lines : List String}
    (h : Reaches exactCrates cachedVisit sampleFeed lines) :
    (exchanged exactCrates [((), cachedVisit)]).copies () =
      some ⟨etagOf sampleCrates (bodyOf lines), bodyOf lines⟩ := by
  have hnone : revalidates cachedVisit.request.headers
      (etagOf exactCrates.toCrates (bodyOf lines)) = false :=
    rfl
  have hprepare := prepareFeed_of_reaches h
  rw [hnone, if_neg Bool.false_ne_true] at hprepare
  have hanswer : answerPoll exactCrates (⟨fun _ => none, .empty⟩ : Exchange Unit)
      ((), cachedVisit) =
      .responded (fullResponseOf sampleCrates lines) := by
    simp only [answerPoll, asks, answerTo, serveFeed, hprepare]
    rfl
  simp only [exchanged, List.foldl_cons, List.foldl_nil, Exchange.next, Function.update_self,
    hanswer]
  rfl

/-- The second request, in the same instant as the first, is answered for free. -/
theorem revalidation_exact_repeated :
    ∃ copy, (exchanged exactCrates [((), cachedVisit)]).copies () = some copy ∧
      Served.status
        (answerPoll exactCrates (exchanged exactCrates [((), cachedVisit)]) ((), cachedVisit)) =
        some 304 ∧
      (exchanged exactCrates [((), cachedVisit), ((), cachedVisit)]).limiter =
        (exchanged exactCrates [((), cachedVisit)]).limiter := by
  obtain ⟨lines, hreaches⟩ := cachedVisit_reaches
  have hcopy := cachedVisit_first hreaches
  have hbreak : ∀ n, Canonical n → '\n' ∉ (exactCrates.netText n).toList :=
    fun n _ => newline_notMem_sampleNetText n
  obtain ⟨v₀, ep₀, lines₀, hmem, hreaches₀, -, hsame, hfree, -⟩ := revalidation_exact
    sampleAggregate_correct sampleNetText_injective.injOn hbreak hcopy hreaches utf8_inj
  obtain rfl : v₀ = cachedVisit := by simpa using hmem
  obtain rfl : sampleFeed = ep₀ := Except.ok.inj (hreaches.found.symm.trans hreaches₀.found)
  have hstatus := hsame.mpr fun _ => Iff.rfl
  exact ⟨_, hcopy, hstatus, hfree hstatus⟩

end SimplyIpExporter.Revalidation
