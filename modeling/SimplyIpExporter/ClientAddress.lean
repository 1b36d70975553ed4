import SimplyIpExporter.IpAddresses

/-!
# The client address behind trusted proxies

`resolveClientIp` decides which address `bound_ips` and the rate limiter see. An
untrusted peer is taken at its word; a trusted one is asked for the rightmost
untrusted hop of `X-Forwarded-For`, then for `X-Real-IP`.

A header map is the list of its lines, and a lookup returns the first line of a
name. Text is only available when every byte of a line is visible ASCII or a
tab. Both facts decide where the address a proxy records has to stand: the last
theorem says exactly for which shapes of sent headers, a shape being the number
of `X-Forwarded-For` lines and whether the last one is readable, the recorded
address is the one returned.
-/
namespace SimplyIpExporter.ClientAddress
open RustText IpAddresses

/-- Bytes `HeaderValue::from_bytes` accepts. -/
def legalByte (b : UInt8) : Bool := (32 ≤ b && b != 127) || b == 9

/-- Bytes `HeaderValue::to_str` accepts. -/
def visibleByte (b : UInt8) : Bool := (32 ≤ b && b < 127) || b == 9

structure HeaderValue where
  bytes : List UInt8
  legal : bytes.all legalByte = true
  deriving DecidableEq, Repr

def HeaderValue.toStr (v : HeaderValue) : Option String :=
  if v.bytes.all visibleByte then some (String.ofList (v.bytes.map fun b => Char.ofNat b.toNat))
  else none

def HeaderValue.append (v w : HeaderValue) : HeaderValue :=
  ⟨v.bytes ++ w.bytes, by rw [List.all_append, v.legal, w.legal]; rfl⟩

theorem HeaderValue.toStr_append (v w : HeaderValue) :
    (v.append w).toStr = v.toStr.bind fun s => w.toStr.map (s ++ ·) := by
  unfold toStr append
  simp only [List.all_append, Bool.and_eq_true]
  split_ifs with h₁ h₂ h₃ h₃ <;> simp_all

/-- A line of one header; names are lower case, as the header map stores them. -/
abbrev HeaderMap := List (String × HeaderValue)

def xForwardedFor : String := "x-forwarded-for"
def xRealIp : String := "x-real-ip"

/-- `HeaderMap::get`: the first line of that name. -/
def HeaderMap.get (name : String) (h : HeaderMap) : Option HeaderValue :=
  (h.find? fun e => e.1 = name).map Prod.snd

/-- An IPv4-mapped IPv6 address as plain IPv4. -/
def normalizeIp : IpAddr → IpAddr
  | .v6 a => if a >>> 32 = 0xffff#128 then .v4 (a.setWidth 32) else .v6 a
  | a => a

def isTrusted (ip : IpAddr) (trusted : List IpNet) : Bool := trusted.any fun net => net.contains ip

/-- The hops of a forwarded line that parse, in the order written. -/
def hops (forwarded : String) : List IpAddr :=
  ((((split ',' forwarded).map trim).filter (· != "")).filterMap parseIpAddr).map normalizeIp

def forwardedClient (forwarded : String) (trusted : List IpNet) : Option IpAddr :=
  (hops forwarded).reverse.find? fun ip => !isTrusted ip trusted

def realIp (headers : HeaderMap) : Option IpAddr :=
  ((headers.get xRealIp).bind HeaderValue.toStr).bind fun s => parseIpAddr (trim s)

def resolveClientIp (peer : IpAddr) (headers : HeaderMap) (trusted : List IpNet) : IpAddr :=
  let peer := normalizeIp peer
  if !isTrusted peer trusted then peer
  else
    let client := ((headers.get xForwardedFor).bind HeaderValue.toStr).bind
      fun forwarded => forwardedClient forwarded trusted
    match client with
    | some client => client
    | none =>
      match realIp headers with
      | some ip => normalizeIp ip
      | none => peer

theorem resolveClientIp_untrusted {peer : IpAddr} {trusted : List IpNet}
    (h : isTrusted (normalizeIp peer) trusted = false) (headers : HeaderMap) :
    resolveClientIp peer headers trusted = normalizeIp peer := by
  simp [resolveClientIp, h]

/-- The two ways a proxy reports the address it saw. -/
inductive Recording where
  | appendToLast
  | addLine
  deriving DecidableEq, Repr

def forwardedLines (h : HeaderMap) : List HeaderValue :=
  (h.filter fun e => e.1 = xForwardedFor).map Prod.snd

def commaSpace : HeaderValue := ⟨[44, 32], by decide⟩

/-- Extends the last forwarded line of the map. -/
def appendToLast (client : HeaderValue) : HeaderMap → HeaderMap
  | [] => []
  | (name, v) :: rest =>
    if name = xForwardedFor ∧ forwardedLines rest = [] then
      (name, v.append (commaSpace.append client)) :: rest
    else (name, v) :: appendToLast client rest

def record (mode : Recording) (client : HeaderValue) (h : HeaderMap) : HeaderMap :=
  match mode with
  | .addLine => h ++ [(xForwardedFor, client)]
  | .appendToLast =>
    if forwardedLines h = [] then h ++ [(xForwardedFor, client)] else appendToLast client h

theorem get_xForwardedFor (h : HeaderMap) :
    h.get xForwardedFor = (forwardedLines h).head? := by
  simp [HeaderMap.get, forwardedLines]

theorem forwardedLines_append (h h' : HeaderMap) :
    forwardedLines (h ++ h') = forwardedLines h ++ forwardedLines h' := by
  simp [forwardedLines]

theorem forwardedLines_cons_pos (v : HeaderValue) (h : HeaderMap) :
    forwardedLines ((xForwardedFor, v) :: h) = v :: forwardedLines h := by
  simp [forwardedLines]

theorem forwardedLines_cons_neg {name : String} (hn : name ≠ xForwardedFor) (v : HeaderValue)
    (h : HeaderMap) : forwardedLines ((name, v) :: h) = forwardedLines h := by
  simp [forwardedLines, hn]

theorem forwardedLines_appendToLast (client : HeaderValue) (h : HeaderMap)
    (init : List HeaderValue) (last : HeaderValue) (hl : forwardedLines h = init ++ [last]) :
    forwardedLines (appendToLast client h) =
      init ++ [last.append (commaSpace.append client)] := by
  induction h generalizing init with
  | nil => simp [forwardedLines] at hl
  | cons e rest ih =>
      obtain ⟨name, v⟩ := e
      by_cases hn : name = xForwardedFor
      · subst hn
        rw [forwardedLines_cons_pos] at hl
        cases init with
        | nil =>
            obtain ⟨rfl, hr⟩ : v = last ∧ forwardedLines rest = [] := by simpa using hl
            simp only [appendToLast, hr, and_self, if_true, forwardedLines_cons_pos,
              List.nil_append]
        | cons w init =>
            obtain ⟨rfl, hr⟩ : v = w ∧ forwardedLines rest = init ++ [last] := by simpa using hl
            have hne : forwardedLines rest ≠ [] := by simp [hr]
            simp only [appendToLast, hne, and_false, if_false, forwardedLines_cons_pos, ih init hr,
              List.cons_append]
      · rw [forwardedLines_cons_neg hn] at hl
        simp only [appendToLast, hn, false_and, if_false, forwardedLines_cons_neg hn, ih init hl]

theorem get_xRealIp_append (h : HeaderMap) (client : HeaderValue) :
    HeaderMap.get xRealIp (h ++ [(xForwardedFor, client)]) = h.get xRealIp := by
  have hne : ¬ (xForwardedFor = xRealIp) := by decide
  simp [HeaderMap.get, List.find?_append, hne]

theorem get_xRealIp_appendToLast (client : HeaderValue) (h : HeaderMap) :
    (appendToLast client h).get xRealIp = h.get xRealIp := by
  have hne : ¬ (xForwardedFor = xRealIp) := by decide
  induction h with
  | nil => rfl
  | cons e rest ih =>
      obtain ⟨name, v⟩ := e
      simp only [appendToLast]
      split_ifs with hc
      · simp [HeaderMap.get, hc.1, hne]
      · by_cases hr : name = xRealIp
        · simp [HeaderMap.get, hr]
        · simpa [HeaderMap.get, hr] using ih

theorem realIp_record (mode : Recording) (client : HeaderValue) (h : HeaderMap) :
    realIp (record mode client h) = realIp h := by
  unfold realIp record
  cases mode with
  | addLine => simp only [get_xRealIp_append]
  | appendToLast =>
      split_ifs
      · rw [get_xRealIp_append]
      · rw [get_xRealIp_appendToLast]

theorem hops_of_parse {t : String} {c : IpAddr} (h : parseIpAddr t = some c) (cs : List Char)
    (hcs : trimChars cs = t.toList) (hcomma : ',' ∉ cs) :
    hops (String.ofList cs) = [normalizeIp c] := by
  have htrim : trim (String.ofList cs) = t := by simp [trim, hcs]
  have hne : (t != "") = true := by
    have hempty : parseIpAddr "" = none := by decide
    have hne : t ≠ "" := by
      intro heq
      simp [heq, hempty] at h
    simpa using hne
  unfold hops
  rw [split_of_notMem (by simpa using hcomma)]
  simp [htrim, hne, h]

theorem hops_recorded_alone {t : String} {c : IpAddr} (h : parseIpAddr t = some c) :
    hops t = [normalizeIp c] := by
  have hchars := parseIpAddr_chars h
  have ht := hops_of_parse h t.toList
    (trimChars_of_none fun d hd => ipChar_not_whitespace (hchars d hd))
    (fun hd => ipChar_ne_comma (hchars _ hd) rfl)
  rwa [String.ofList_toList] at ht

theorem hops_recorded {t : String} {c : IpAddr} (h : parseIpAddr t = some c) (s : String) :
    hops (s ++ (", " ++ t)) = hops s ++ [normalizeIp c] := by
  have hchars := parseIpAddr_chars h
  have hlist : s ++ (", " ++ t) = String.ofList (s.toList ++ ',' :: (' ' :: t.toList)) := by
    apply String.toList_inj.mp
    simp
  have htail : hops (String.ofList (' ' :: t.toList)) = [normalizeIp c] := by
    apply hops_of_parse h
    · rw [trimChars_cons_of_pos (by decide)]
      exact trimChars_of_none fun d hd => ipChar_not_whitespace (hchars d hd)
    · intro hd
      rcases List.mem_cons.mp hd with hd | hd
      · revert hd
        decide
      · exact ipChar_ne_comma (hchars _ hd) rfl
  rw [hlist, ← htail]
  unfold hops
  rw [split_append_cons, String.ofList_toList]
  simp only [List.map_append, List.filter_append, List.filterMap_append]

theorem forwardedClient_of_last {forwarded : String} {ips : List IpAddr} {ip : IpAddr}
    (h : hops forwarded = ips ++ [ip]) (trusted : List IpNet) (hip : isTrusted ip trusted = false) :
    forwardedClient forwarded trusted = some ip := by
  simp [forwardedClient, h, hip]

/-- The last forwarded line can be read as text; so can an absent one. -/
def readable (h : HeaderMap) : Bool := (forwardedLines h).getLast?.all fun v => v.toStr.isSome

/-- As many forwarded lines, the last one readable in both or in neither. -/
def SameShape (h h' : HeaderMap) : Prop :=
  (forwardedLines h).length = (forwardedLines h').length ∧ readable h = readable h'

/-- The recorded address ends up in the first forwarded line, and that line is
readable. -/
def RecordedFirst (mode : Recording) (sent : HeaderMap) : Prop :=
  forwardedLines sent = [] ∨
    mode = .appendToLast ∧ (forwardedLines sent).length = 1 ∧ readable sent = true

theorem RecordedFirst.of_sameShape {mode : Recording} {h sent : HeaderMap}
    (hs : SameShape h sent) (hr : RecordedFirst mode sent) : RecordedFirst mode h := by
  rcases hr with hr | ⟨hm, hl, hr⟩
  · have hz : (forwardedLines h).length = 0 := by rw [hs.1, hr]; rfl
    exact .inl (List.length_eq_zero_iff.mp hz)
  · exact .inr ⟨hm, by rw [hs.1, hl], by rw [hs.2, hr]⟩

/-- The first forwarded line after recording, in terms of the lines sent. -/
theorem head_forwardedLines_record (mode : Recording) (client : HeaderValue) (h : HeaderMap) :
    (forwardedLines (record mode client h)).head? =
      match forwardedLines h, mode with
      | [], _ => some client
      | [v], .appendToLast => some (v.append (commaSpace.append client))
      | v :: _, _ => some v := by
  have hadd : forwardedLines (h ++ [(xForwardedFor, client)]) = forwardedLines h ++ [client] := by
    rw [forwardedLines_append]
    rfl
  cases mode with
  | addLine =>
      simp only [record, hadd]
      cases forwardedLines h with
      | nil => rfl
      | cons v vs => cases vs <;> rfl
  | appendToLast =>
      rcases List.eq_nil_or_concat (forwardedLines h) with hl | ⟨init, last, hl⟩
      · simp only [record, hl, if_true, hadd]
        rfl
      · have hne : forwardedLines h ≠ [] := by simp [hl]
        have happ := forwardedLines_appendToLast client h init last (by simpa using hl)
        simp only [record, hne, if_false, happ]
        rw [hl]
        cases init with
        | nil => rfl
        | cons v vs => cases vs <;> rfl

theorem commaSpace_toStr : commaSpace.toStr = some ", " := by decide

section Trusted
variable {trusted : List IpNet} {peer : IpAddr}
  (hpeer : isTrusted (normalizeIp peer) trusted = true)
include hpeer

theorem resolveClientIp_of_client {headers : HeaderMap} {line : HeaderValue} {text : String}
    {ip : IpAddr} (hline : (forwardedLines headers).head? = some line)
    (htext : line.toStr = some text) (hip : forwardedClient text trusted = some ip) :
    resolveClientIp peer headers trusted = ip := by
  simp [resolveClientIp, hpeer, get_xForwardedFor, hline, htext, hip]

/-- Without a client in the first forwarded line, `X-Real-IP` decides. -/
theorem resolveClientIp_of_realIp {headers : HeaderMap} {line : HeaderValue} {ip : IpAddr}
    (hline : (forwardedLines headers).head? = some line)
    (hnone : line.toStr.bind (fun text => forwardedClient text trusted) = none)
    (hreal : realIp headers = some ip) :
    resolveClientIp peer headers trusted = normalizeIp ip := by
  simp [resolveClientIp, hpeer, get_xForwardedFor, hline, hnone, hreal]

theorem resolveClientIp_record {mode : Recording} {client : HeaderValue} {c : IpAddr}
    (hclient : client.toStr.bind parseIpAddr = some c)
    (hc : isTrusted (normalizeIp c) trusted = false)
    {h : HeaderMap} (hr : RecordedFirst mode h) :
    resolveClientIp peer (record mode client h) trusted = normalizeIp c := by
  obtain ⟨text, htext, hparse⟩ := Option.bind_eq_some_iff.mp hclient
  have hhead := head_forwardedLines_record mode client h
  rcases hr with hr | ⟨rfl, hlen, hread⟩
  · rw [hr] at hhead
    have hlast : hops text = [] ++ [normalizeIp c] := hops_recorded_alone hparse
    exact resolveClientIp_of_client hpeer hhead htext (forwardedClient_of_last hlast trusted hc)
  · obtain ⟨v, hv⟩ := List.length_eq_one_iff.mp hlen
    have hvis : v.toStr.isSome = true := by simpa [readable, hv] using hread
    obtain ⟨s, hs⟩ := Option.isSome_iff_exists.mp hvis
    have hline : (v.append (commaSpace.append client)).toStr = some (s ++ (", " ++ text)) := by
      simp [HeaderValue.toStr_append, hs, commaSpace_toStr, htext]
    rw [hv] at hhead
    exact resolveClientIp_of_client hpeer hhead hline
      (forwardedClient_of_last (hops_recorded hparse s) trusted hc)

/-- A line without hops that is readable or not, as asked. -/
def blankLine (readable : Bool) : HeaderValue :=
  if readable then ⟨[], by decide⟩ else ⟨[0xff], by decide⟩

def zeroText : HeaderValue := ⟨[48, 46, 48, 46, 48, 46, 48], by decide⟩
def oneText : HeaderValue := ⟨[48, 46, 48, 46, 48, 46, 49], by decide⟩

/-- An `X-Real-IP` naming some address other than `c`. -/
def otherText (c : IpAddr) : HeaderValue :=
  if normalizeIp c = .v4 0 then oneText else zeroText

def forged (lines : ℕ) (readable : Bool) (c : IpAddr) : HeaderMap :=
  List.replicate lines (xForwardedFor, blankLine readable) ++ [(xRealIp, otherText c)]

omit hpeer in
theorem forwardedLines_forged (n : ℕ) (b : Bool) (c : IpAddr) :
    forwardedLines (forged n b c) = List.replicate n (blankLine b) := by
  have hne : ¬ (xRealIp = xForwardedFor) := by decide
  rw [forged, forwardedLines_append]
  simp [forwardedLines, hne]

omit hpeer in
theorem readable_forged (n : ℕ) (b : Bool) (c : IpAddr) :
    readable (forged n b c) = (n == 0 || b) := by
  unfold readable
  rw [forwardedLines_forged]
  cases n with
  | zero => rfl
  | succ n => cases b <;> simp [List.getLast?_replicate] <;> decide

omit hpeer in
theorem forged_sameShape (sent : HeaderMap) (c : IpAddr) :
    SameShape (forged (forwardedLines sent).length (readable sent) c) sent := by
  refine ⟨by simp [forwardedLines_forged], ?_⟩
  rw [readable_forged]
  cases hl : forwardedLines sent with
  | nil => simp [readable, hl]
  | cons v vs => simp

omit hpeer in
theorem realIp_forged (n : ℕ) (b : Bool) (c : IpAddr) :
    ∃ ip, realIp (forged n b c) = some ip ∧ normalizeIp ip ≠ normalizeIp c := by
  have hne : ¬ (xForwardedFor = xRealIp) := by decide
  have hget : (forged n b c).get xRealIp = some (otherText c) := by
    simp [HeaderMap.get, forged, List.find?_append, hne]
  by_cases hc : normalizeIp c = .v4 0
  · refine ⟨.v4 1, ?_, ?_⟩
    · simp only [realIp, hget, otherText, hc, if_true]
      decide
    · rw [hc]
      decide
  · refine ⟨.v4 0, ?_, Ne.symm hc⟩
    simp only [realIp, hget, otherText, hc, if_false]
    decide

omit hpeer in
theorem hops_empty : hops "" = [] := by decide

/-- A line that yields no client leaves the forged `X-Real-IP` in charge. -/
theorem resolveClientIp_forged_of_head {mode : Recording} {client line : HeaderValue} {n : ℕ}
    {b : Bool} {c : IpAddr}
    (hline : (forwardedLines (record mode client (forged n b c))).head? = some line)
    (hnone : line.toStr.bind (fun text => forwardedClient text trusted) = none) :
    resolveClientIp peer (record mode client (forged n b c)) trusted ≠ normalizeIp c := by
  obtain ⟨ip, hip, hother⟩ := realIp_forged n b c
  have hreal : realIp (record mode client (forged n b c)) = some ip := by
    rw [realIp_record, hip]
  rw [resolveClientIp_of_realIp hpeer hline hnone hreal]
  exact hother

/-- The forged headers win, unless the recorded address stands in the first
readable line and is untrusted. -/
theorem resolveClientIp_forged {mode : Recording} {client : HeaderValue} {c : IpAddr}
    (hclient : client.toStr.bind parseIpAddr = some c) {n : ℕ} {b : Bool}
    (hfirst : n = 0 ∨ mode = .appendToLast ∧ n = 1 ∧ b = true →
      isTrusted (normalizeIp c) trusted = true) :
    resolveClientIp peer (record mode client (forged n b c)) trusted ≠ normalizeIp c := by
  obtain ⟨text, htext, hparse⟩ := Option.bind_eq_some_iff.mp hclient
  have hhead := head_forwardedLines_record mode client (forged n b c)
  rw [forwardedLines_forged] at hhead
  have hblank : (blankLine b).toStr.bind (fun t => forwardedClient t trusted) = none := by
    cases b with
    | false => rfl
    | true => simp [blankLine, HeaderValue.toStr, forwardedClient, hops_empty]
  match n, mode with
  | 0, _ =>
      have hc := hfirst (.inl rfl)
      apply resolveClientIp_forged_of_head hpeer hhead
      simp [htext, forwardedClient, hops_recorded_alone hparse, hc]
  | 1, .addLine => exact resolveClientIp_forged_of_head hpeer hhead hblank
  | n + 2, .addLine => exact resolveClientIp_forged_of_head hpeer hhead hblank
  | n + 2, .appendToLast => exact resolveClientIp_forged_of_head hpeer hhead hblank
  | 1, .appendToLast =>
      apply resolveClientIp_forged_of_head hpeer hhead
      cases b with
      | false =>
          have hdark : (blankLine false).toStr = none := rfl
          simp only [HeaderValue.toStr_append, hdark, Option.bind_none]
      | true =>
          have hc := hfirst (.inr ⟨rfl, rfl, rfl⟩)
          have hline : ((blankLine true).append (commaSpace.append client)).toStr =
              some ("" ++ (", " ++ text)) := by
            rw [HeaderValue.toStr_append, HeaderValue.toStr_append, commaSpace_toStr, htext]
            rfl
          simp only [hline, Option.bind_some, forwardedClient, hops_recorded hparse, hops_empty]
          simp [hc]

end Trusted

/-- An untrusted peer is taken at its own address whatever it sends. Behind a
trusted peer that records `c`, every content of one shape resolves to `c`
exactly when that shape leaves the recorded address in the first, readable
forwarded line and the address is not itself covered by a trusted network. -/
theorem resolveClientIp_recorded_iff (trusted : List IpNet) (peer : IpAddr) :
    (isTrusted (normalizeIp peer) trusted = false →
      ∀ headers, resolveClientIp peer headers trusted = normalizeIp peer) ∧
    (isTrusted (normalizeIp peer) trusted = true →
      ∀ (c : IpAddr) (client : HeaderValue) (mode : Recording) (sent : HeaderMap),
        client.toStr.bind parseIpAddr = some c → isTrusted c trusted = false →
        ((∀ h, SameShape h sent →
            resolveClientIp peer (record mode client h) trusted = normalizeIp c) ↔
          RecordedFirst mode sent ∧ isTrusted (normalizeIp c) trusted = false)) := by
  refine ⟨fun h headers => resolveClientIp_untrusted h headers, ?_⟩
  intro hpeer c client mode sent hclient _
  constructor
  · intro hall
    by_contra hbad
    apply resolveClientIp_forged hpeer hclient _ (hall _ (forged_sameShape sent c))
    intro hfirst
    by_contra hc
    refine hbad ⟨?_, by simpa using hc⟩
    rcases hfirst with hn | hfirst
    · exact .inl (List.length_eq_zero_iff.mp hn)
    · exact .inr hfirst
  · rintro ⟨hr, hc⟩ h hs
    exact resolveClientIp_record hpeer hclient hc (hr.of_sameShape hs)

def proxyNet : IpNet := .v4 0x0a000000#32 ⟨8, by decide⟩

def clientText : HeaderValue := ⟨[49, 46, 50, 46, 51, 46, 52], by decide⟩
def spoofedText : HeaderValue := ⟨[57, 46, 57, 46, 57, 46, 57], by decide⟩

/-- A proxy at 10.0.0.5 appends 1.2.3.4 to the one readable line it was sent. -/
theorem resolveClientIp_recorded_single_line :
    resolveClientIp (.v4 0x0a000005#32)
      (record .appendToLast clientText [(xForwardedFor, spoofedText)]) [proxyNet] =
        .v4 0x01020304#32 := by
  have h := ((resolveClientIp_recorded_iff [proxyNet] (.v4 0x0a000005#32)).2 (by decide)
    (.v4 0x01020304#32) clientText .appendToLast [(xForwardedFor, spoofedText)]
    (by decide) (by decide)).mpr ⟨.inr ⟨rfl, rfl, by decide⟩, by decide⟩
  exact h _ ⟨rfl, rfl⟩

/-- The same proxy adds a line of its own: the line it was sent decides. -/
theorem resolveClientIp_spoofed_by_first_line :
    resolveClientIp (.v4 0x0a000005#32)
      (record .addLine clientText [(xForwardedFor, spoofedText)]) [proxyNet] ≠
        normalizeIp (.v4 0x01020304#32) := by
  decide

end SimplyIpExporter.ClientAddress
