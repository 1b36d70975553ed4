import SimplyIpExporter.DaughterConfinement
import SimplyIpExporter.HttpRouter
import SimplyIpExporter.SignatureSingleUse

/-!
# Handlers act for admitted callers

What the middleware has been told by the time it lets a request pass: the row of the key
the request presents, the time, the identity of the Master, what the names in the binding
stand for. It is read off the middleware once.

The handlers' process has its callers given. In every run of the service, with requests
off the wire and the middleware before the handlers, what the handlers do is a run of
that process in which each caller has been admitted for the request it makes. So what
holds of the process with given callers holds of the service.
-/
namespace SimplyIpExporter.AdmittedRequests
open RustText IpAddresses Entities BoundIps CanonicalSigning ClientAddress Storage Services
open Programs Interleaving Gates EndpointHandlers Routes RequestAuthentication HttpRouter
open SignatureSingleUse (require_eq_ok foundKey_eq_ok)

structure Told where
  proxies : Option (List IpNet)
  clock : Option NaiveDateTime
  row : Option ApiKey
  /-- The last answer of the cell. -/
  pin : Option Uuid
  names : List (String × List IpNet)

def Told.nothing : Told := ⟨none, none, none, none, []⟩

def listening : Policy AuthAnswer Told where
  permits _ _ := True
  moves m
    | .resolvedProxies, nets, m' => m' = { m with proxies := some nets }
    | .utcNow, t, m' => m' = { m with clock := some t }
    | .findKeyByHash hash, .ok (some row), m' =>
        row.keyHash = hash ∧ m' = { m with row := some row }
    | .pinned, pin, m' => m' = { m with pin := pin }
    | .resolveHost name, nets, m' => m' = { m with names := (name, nets) :: m.names }
    | _, _, m' => m' = m

/-- The entry covers the address, given what its name was said to stand for. -/
def CoveredBy (said : String → List IpNet → Prop) (ip : IpAddr) : BoundIpEntry → Prop
  | .network net => net.contains ip = true
  | .hostname name => ∃ nets, said name nets ∧ nets.any (·.contains ip) = true

/-- The key is bound to no addresses, or to some with this one among them. -/
def BoundTo (crates : Crates) (said : String → List IpNet → Prop) (key : ApiKey)
    (ip : IpAddr) : Prop :=
  ∃ entries, parseBoundIps crates (key.boundIps.getD "") = .ok entries ∧
    (entries = [] ∨ ∃ entry ∈ entries, CoveredBy said ip entry)

theorem BoundTo.imp {crates : Crates} {said said' : String → List IpNet → Prop} {key : ApiKey}
    {ip : IpAddr} (h : BoundTo crates said key ip)
    (himp : ∀ name nets, said name nets → said' name nets) :
    BoundTo crates said' key ip := by
  obtain ⟨entries, hparse, hcovered⟩ := h
  refine ⟨entries, hparse, hcovered.imp_right ?_⟩
  rintro ⟨entry, hmem, hentry⟩
  refine ⟨entry, hmem, ?_⟩
  cases entry with
  | network net => exact hentry
  | hostname name =>
      obtain ⟨nets, hsaid, hany⟩ := hentry
      exact ⟨nets, himp name nets hsaid, hany⟩

/-- What the middleware has been told that a name stands for. -/
def Told.says (m : Told) (name : String) (nets : List IpNet) : Prop := (name, nets) ∈ m.names

/-- The signature of the request verifies with the secret stored for the key. -/
def Signed (crates : Crates) (req : Request) (key : ApiKey) : Prop :=
  ∃ text header stored secret digest, req.timestampText = some text ∧ req.signature = some header ∧
    key.signingSecret = some stored ∧ crates.openSecret stored = some secret ∧
    verifySignature crates secret (canonicalV1Payload req.method req.target text req.body) header =
      .ok digest

/-- Why the signature of a request was taken for that of the key. -/
structure Verified (config : Config) (req : Request) (m : Told) (key : ApiKey) : Prop where
  looked : ∃ presented row, req.apiKey = some presented ∧ m.row = some row ∧
    row.keyHash = config.crates.hashKey presented ∧ key = { row with isMaster := key.isMaster }
  master : key.isMaster = true → m.pin = some key.id ∧ m.row = some key
  timely : ∃ text now, req.timestampText = some text ∧ m.clock = some now ∧
    validateTimestamp config.build text config.signatureMaxAgeSeconds (timestamp now) = .ok ()
  signed : Signed config.crates req key

/-- Why it was let pass as that key from that address. -/
structure Admission (config : Config) (req : Request) (m : Told) (key : ApiKey) (ip : IpAddr) : Prop
    extends Verified config req m key where
  address : ∃ proxies, m.proxies = some proxies ∧ ip = resolveClientIp req.peer req.headers proxies
  bound : BoundTo config.crates m.says key ip

section Walk
variable {config : Config} {req : Request}

theorem resolve_follows (m : Told) :
    Follows listening (fun m' id => m' = { m with pin := id }) resolve m := by
  refine Follows.perform_bind trivial ?_
  rintro (_ | id) _ rfl
  · refine Follows.perform_bind trivial ?_
    rintro (_ | _ | ⟨master, _ | _⟩) _ rfl
    · exact Follows.pure rfl
    · exact Follows.pure rfl
    · refine Follows.perform_bind trivial ?_
      rintro _ _ rfl
      exact Follows.perform (c := AuthCall.pinned) trivial fun _ _ h => h
    · exact Follows.pure rfl
  · exact Follows.pure rfl

/-- The row goes on as it is, or as that of an ordinary key. -/
theorem authenticate_follows (row : ApiKey) (m : Told) :
    Follows listening (fun m' key => key = { row with isMaster := key.isMaster } ∧
      (∃ pin, m' = { m with pin := pin }) ∧
      (key.isMaster = true → m'.pin = some key.id ∧ key = row))
      (authenticate row) m := by
  unfold authenticate
  split
  · rename_i hmaster
    refine Follows.pure ⟨rfl, ⟨m.pin, rfl⟩, ?_⟩
    intro hclaims
    simp [hclaims] at hmaster
  · refine (resolve_follows m).bind ?_
    rintro _ pinned rfl
    by_cases hsame : pinned = some row.id
    · rw [if_pos hsame]
      exact Follows.pure ⟨rfl, ⟨pinned, rfl⟩, fun _ => ⟨hsame, rfl⟩⟩
    · rw [if_neg hsame]
      refine Follows.pure ⟨rfl, ⟨pinned, rfl⟩, ?_⟩
      intro hclaims
      cases hclaims

theorem listening_passesGuard : PassesGuard listening := by
  intro m c hc
  refine ⟨trivial, ?_⟩
  cases c with
  | instantNow | overCapacity | schedule now crowded | sweep now | honour id now =>
      exact fun _ _ h => h
  | _ => cases hc

theorem recoverSigningSecret_eq_ok {crates : Crates} {key : ApiKey} {secret : String}
    (h : recoverSigningSecret crates key = .ok secret) :
    ∃ stored, key.signingSecret = some stored ∧ crates.openSecret stored = some secret := by
  unfold recoverSigningSecret at h
  split at h
  · cases h
  · rename_i stored hstored
    split at h
    · cases h
    · rename_i opened hopen
      cases h
      exact ⟨stored, hstored, hopen⟩

theorem verified_eq_ok {result : Except SignatureRejection (List UInt8)} {digest : List UInt8}
    (h : verified result = .ok digest) : result = .ok digest := by
  unfold verified at h
  split at h <;> cases h
  rfl

theorem verifyRequest_follows (m : Told) :
    Follows listening (fun m' outcome => ∀ key, outcome = .ok key →
      Verified config req m' key ∧ m'.proxies = m.proxies) (verifyRequest config req) m := by
  have hrefused : ∀ (m' : Told) (e : Abort) (key : ApiKey), Except.error e = .ok key →
      Verified config req m' key ∧ m'.proxies = m.proxies := by
    intro m' e key h
    cases h
  unfold verifyRequest
  refine Follows.attempt_bind (fun e _ => hrefused _ e) fun presented hpresented => ?_
  refine Follows.attempt_bind (fun e _ => hrefused _ e) fun text htext => ?_
  refine Follows.ask_bind trivial ?_
  rintro now _ rfl
  refine Follows.attempt_bind (fun e _ => hrefused _ e) fun _ hvalid => ?_
  refine Follows.attempt_bind (fun e _ => hrefused _ e) fun header hheader => ?_
  refine Follows.ask_bind trivial ?_
  intro found m₁ hfound
  refine Follows.attempt_bind (fun e _ => hrefused _ e) fun row hrow => ?_
  obtain rfl := foundKey_eq_ok hrow
  obtain ⟨hhash, rfl⟩ := hfound
  refine Follows.always_bind (authenticate_follows row _) ?_
  rintro m₂ key ⟨hkey, ⟨pin, rfl⟩, hmaster⟩
  refine Follows.attempt_bind (fun e _ => hrefused _ e) fun secret hsecret => ?_
  refine Follows.attempt_bind (fun e _ => hrefused _ e) fun _ _ => ?_
  refine Follows.ask_bind trivial ?_
  rintro arrived _ rfl
  refine Follows.attempt_bind (fun e _ => hrefused _ e) fun _ _ => ?_
  refine Follows.attempt_bind (fun e _ => hrefused _ e) fun digest hdigest => ?_
  refine Follows.always_bind (checkAndRecord_still listening_passesGuard _ _) ?_
  rintro _ fresh rfl
  cases fresh with
  | false => exact Follows.throw (hrefused _ _)
  | true =>
      refine Follows.ok ?_
      rintro _ ⟨⟩
      obtain ⟨stored, hstored, hopen⟩ := recoverSigningSecret_eq_ok hsecret
      refine ⟨⟨⟨presented, row, require_eq_ok hpresented, rfl, hhash, hkey⟩, ?_, ?_, ?_⟩, rfl⟩
      · intro hclaims
        obtain ⟨hpin, rfl⟩ := hmaster hclaims
        exact ⟨hpin, rfl⟩
      · exact ⟨text, now, require_eq_ok htext, rfl, hvalid⟩
      · exact ⟨text, header, stored, secret, digest, require_eq_ok htext, require_eq_ok hheader,
          hstored, hopen, verified_eq_ok hdigest⟩

theorem isAllowed_follows (ip : IpAddr) (entries : List BoundIpEntry) (m : Told) :
    Follows listening (fun m' allowed => (∃ more, m' = { m with names := more ++ m.names }) ∧
      (allowed = true → ∃ entry ∈ entries, CoveredBy m'.says ip entry))
        (isAllowed ip entries) m := by
  induction entries generalizing m with
  | nil => exact Follows.pure ⟨⟨[], rfl⟩, fun h => by cases h⟩
  | cons entry rest ih =>
      cases entry with
      | network net =>
          unfold isAllowed
          split
          · rename_i hnet
            exact Follows.pure ⟨⟨[], rfl⟩, fun _ => ⟨_, List.mem_cons_self, hnet⟩⟩
          · refine (ih m).mono ?_
            rintro m' allowed ⟨hm', hcovers⟩
            refine ⟨hm', fun h => ?_⟩
            obtain ⟨entry, hmem, hentry⟩ := hcovers h
            exact ⟨entry, List.mem_cons_of_mem _ hmem, hentry⟩
      | hostname name =>
          refine Follows.perform_bind trivial ?_
          rintro nets _ rfl
          split
          · rename_i hnets
            exact Follows.pure ⟨⟨[(name, nets)], rfl⟩,
              fun _ => ⟨_, List.mem_cons_self, nets, List.mem_cons_self, hnets⟩⟩
          · refine (ih _).mono ?_
            rintro m' allowed ⟨⟨more, rfl⟩, hcovers⟩
            refine ⟨⟨more ++ [(name, nets)], by simp⟩, fun h => ?_⟩
            obtain ⟨entry, hmem, hentry⟩ := hcovers h
            exact ⟨entry, List.mem_cons_of_mem _ hmem, hentry⟩

theorem parsedBinding_eq_ok {crates : Crates} {key : ApiKey} {entries : List BoundIpEntry}
    (h : parsedBinding crates key = .ok entries) :
    parseBoundIps crates (key.boundIps.getD "") = .ok entries := by
  unfold parsedBinding at h
  split at h
  · rename_i entries' hentries
    cases h
    exact hentries
  · cases h

theorem authMiddleware_follows (m : Told) :
    Follows listening (fun m' outcome => ∀ key ip, outcome = .ok (key, ip) →
      Admission config req m' key ip) (authMiddleware config req) m := by
  refine Follows.ask_bind trivial ?_
  rintro proxies _ rfl
  refine (verifyRequest_follows _).except_bind (fun m' e _ key ip h => by cases h) ?_
  intro m₁ key hkey
  obtain ⟨hverified, hproxies⟩ := hkey key rfl
  refine Follows.attempt_bind (fun e _ key ip h => by cases h) fun entries hentries => ?_
  have hchecked : Follows listening
      (fun m' allowed => (∃ more, m' = { m₁ with names := more ++ m₁.names }) ∧
      (allowed = true → entries = [] ∨
        ∃ entry ∈ entries, CoveredBy m'.says (resolveClientIp req.peer req.headers proxies) entry))
      (if entries.isEmpty then pure true
        else isAllowed (resolveClientIp req.peer req.headers proxies) entries) m₁ := by
    split
    · rename_i hempty
      exact Follows.pure ⟨⟨[], rfl⟩, fun _ => .inl (List.isEmpty_iff.mp hempty)⟩
    · exact (isAllowed_follows _ entries m₁).mono fun m' allowed h => ⟨h.1, fun ha => .inr (h.2 ha)⟩
  refine Follows.always_bind hchecked ?_
  rintro _ allowed ⟨⟨more, rfl⟩, hallowed⟩
  split
  · rename_i hyes
    refine Follows.ok ?_
    rintro _ ip ⟨⟩
    exact ⟨⟨hverified.looked, hverified.master, hverified.timely, hverified.signed⟩,
      ⟨proxies, hproxies, rfl⟩, entries, parsedBinding_eq_ok hentries, hallowed hyes⟩
  · exact Follows.throw fun key ip h => by cases h

end Walk

/-- What a gate lets pass is a worker's task, or a request as it was routed, for a caller
that the middleware has admitted. -/
def Lets (x : Readers) (config : Config) (m : Told) : Work → Task → Prop
  | .http req, t => ∃ r key ip, route x req = .api r ∧ t = .request ⟨key, ip⟩ r ∧
      Admission config req m key ip
  | .cleanup, t => t = .cleanup
  | .sync passes, t => t = .sync passes

theorem letPass_eq_ok {routed : Routed} {outcome : Except Abort (ApiKey × IpAddr)} {t : Task}
    (h : routed.letPass outcome = .ok t) :
    ∃ r key ip, routed = .api r ∧ outcome = .ok (key, ip) ∧ t = .request ⟨key, ip⟩ r := by
  unfold Routed.letPass at h
  split at h
  · cases h
  · cases h
  · cases h
  · cases h
    exact ⟨_, _, _, rfl, rfl, rfl⟩

theorem gate_follows (x : Readers) (config : Config) (work : Work) :
    Follows listening (fun m outcome => ∀ t, outcome = .ok t → Lets x config m work t)
      (gate x config work) .nothing := by
  cases work with
  | http req =>
      have hadmits : ∀ routed, route x req = routed →
          Follows listening (fun m outcome => ∀ t, outcome = .ok t → Lets x config m (.http req) t)
            ((show Program AuthAnswer (Except Abort (ApiKey × IpAddr)) from
              authMiddleware config req) >>= fun outcome => pure (routed.letPass outcome))
            .nothing := by
        intro routed hrouted
        refine (authMiddleware_follows .nothing).bind ?_
        intro m outcome hadmission
        refine Follows.pure ?_
        intro t ht
        obtain ⟨r, key, ip, rfl, rfl, rfl⟩ := letPass_eq_ok ht
        exact ⟨r, key, ip, hrouted, rfl, hadmission key ip rfl⟩
      cases hrouted : route x req with
      | elsewhere =>
          simp only [gate, hrouted]
          exact follows_value.mpr fun t h => by cases h
      | methodNotAllowed | api r =>
          simp only [gate, hrouted]
          exact hadmits _ hrouted
  | cleanup => exact follows_value.mpr fun t h => by cases h; rfl
  | sync passes => exact follows_value.mpr fun t h => by cases h; rfl

section Gates
variable {I : Type} [DecidableEq I] {x : Readers} {config : Config} {works : I → Work}
  {s₀ : AuthState}

abbrev Knocking (I : Type) := Pool AuthAnswer I (Except Refusal Task) AuthState

def gates (x : Readers) (config : Config) (works : I → Work) (s : AuthState) : Knocking I :=
  ⟨s, fun i => gate x config (works i)⟩

variable {p₀ : Knocking I} {past : List (Event I RequestAuthentication.Choice
  RequestAuthentication.Change)} {s s' : AuthState} {i : I} {m : Told}

/-- What a gate has been told was so at some moment, or it was answered so, and the cell
still says what it said. -/
structure Recalls (p₀ : Knocking I) (past : List (Event I RequestAuthentication.Choice
    RequestAuthentication.Change)) (s : AuthState) (i : I) (m : Told) : Prop where
  row : ∀ row, m.row = some row →
    Once RequestAuthentication.system p₀ (fun _ p => row ∈ p.state.keys) past
  clock : ∀ t, m.clock = some t →
    Once RequestAuthentication.system p₀ (fun _ p => p.state.clock = t) past
  pin : ∀ id, m.pin = some id → s.pin = some id
  proxies : ∀ nets, m.proxies = some nets →
    Answered RequestAuthentication.system p₀ i .resolvedProxies nets past
  names : ∀ name nets, m.says name nets →
    Answered RequestAuthentication.system p₀ i (.resolveHost name) nets past

theorem Recalls.snoc (h : Recalls p₀ past s i m) (hcell : ∀ id, s.pin = some id → s'.pin = some id)
    (ev : Event I RequestAuthentication.Choice RequestAuthentication.Change) :
    Recalls p₀ (past ++ [ev]) s' i m where
  row row hrow := (h.row row hrow).append _
  clock t ht := (h.clock t ht).append _
  pin id hid := hcell id (h.pin id hid)
  proxies nets hnets := (h.proxies nets hnets).append _
  names name nets hsays := (h.names name nets hsays).append _

theorem exists_moves (m : Told) {c : AuthCall} {e : RequestAuthentication.Choice} {r : AuthAnswer c}
    (hexec : RequestAuthentication.exec c e s = some (r, s')) : ∃ m', listening.moves m c r m' := by
  cases c with
  | findKeyByHash hash =>
      cases r with
      | error err => exact ⟨m, rfl⟩
      | ok found =>
          cases found with
          | none => exact ⟨m, rfl⟩
          | some row =>
              have hhash := List.find?_some (exec_findKeyByHash hexec)
              exact ⟨_, of_decide_eq_true hhash, rfl⟩
  | _ => exact ⟨_, rfl⟩

/-- A full cell stays as it is. -/
theorem exec_pin_kept {c : AuthCall} {e : RequestAuthentication.Choice} {r : AuthAnswer c}
    {id : Uuid} (h : RequestAuthentication.exec c e s = some (r, s')) (hid : s.pin = some id) :
    s'.pin = some id := by
  unfold RequestAuthentication.exec at h
  split at h <;> cases h <;> simp [hid]

theorem Recalls.step {c : AuthCall} {e : RequestAuthentication.Choice} {r : AuthAnswer c}
    {next : AuthAnswer c → Program AuthAnswer (Except Refusal Task)} {p : Knocking I}
    (h : Recalls p₀ past p.state i m)
    (hrun : Interleaving.run RequestAuthentication.system p₀ past = some p)
    (hthread : p.threads i = .call c next)
    (hexec : RequestAuthentication.exec c e p.state = some (r, s')) :
    ∃ m', listening.moves m c r m' ∧ Recalls p₀ (past ++ [.act i e]) s' i m' := by
  have hkept : Recalls p₀ (past ++ [.act i e]) s' i m := h.snoc (fun id => exec_pin_kept hexec) _
  have hanswered : Answered RequestAuthentication.system p₀ i c r (past ++ [.act i e]) :=
    .now hrun ⟨next, s', hthread, hexec⟩
  cases c with
  | utcNow =>
      cases hexec
      refine ⟨_, rfl, { hkept with clock := ?_ }⟩
      rintro t ⟨⟩
      exact (Once.now hrun rfl).append _
  | pinned =>
      cases hexec
      exact ⟨_, rfl, { hkept with pin := fun id hid => hid }⟩
  | findKeyByHash hash =>
      cases r with
      | error err => exact ⟨m, rfl, hkept⟩
      | ok found =>
          cases found with
          | none => exact ⟨m, rfl, hkept⟩
          | some row =>
              have hfound := exec_findKeyByHash hexec
              have hhash := List.find?_some hfound
              refine ⟨_, ⟨of_decide_eq_true hhash, rfl⟩, { hkept with row := ?_ }⟩
              rintro row' ⟨⟩
              exact (Once.now hrun (List.mem_of_find?_eq_some hfound)).append _
  | resolvedProxies =>
      refine ⟨_, rfl, { hkept with proxies := ?_ }⟩
      rintro nets ⟨⟩
      exact hanswered
  | resolveHost name =>
      refine ⟨_, rfl, { hkept with names := ?_ }⟩
      intro name' nets hsays
      rcases List.mem_cons.mp hsays with heq | hsays
      · cases heq
        exact hanswered
      · exact hkept.names name' nets hsays
  | _ => exact ⟨m, rfl, hkept⟩

def Recalled (p₀ : Knocking I) (past : List (Event I RequestAuthentication.Choice
    RequestAuthentication.Change)) (ms : I → Told) (s : AuthState) : Prop :=
  ∀ i, Recalls p₀ past s i (ms i)

theorem Recalled.step {ms : I → Told} {c : AuthCall} {e : RequestAuthentication.Choice}
    {r : AuthAnswer c} {next : AuthAnswer c → Program AuthAnswer (Except Refusal Task)}
    {p : Knocking I} (h : Recalled p₀ past ms p.state)
    (hrun : Interleaving.run RequestAuthentication.system p₀ past = some p)
    (hthread : p.threads i = .call c next)
    (hexec : RequestAuthentication.exec c e p.state = some (r, s')) :
    ∃ m', listening.moves (ms i) c r m' ∧
      Recalled p₀ (past ++ [.act i e]) (Function.update ms i m') s' := by
  obtain ⟨m', hmoves, hrecalls⟩ := (h i).step hrun hthread hexec
  refine ⟨m', hmoves, ?_⟩
  intro k
  by_cases hki : k = i
  · subst hki
    rw [Function.update_self]
    exact hrecalls
  · rw [Function.update_of_ne hki]
    exact (h k).snoc (fun id => exec_pin_kept hexec) _

theorem Recalled.world {ms : I → Told} {ch : RequestAuthentication.Change}
    (h : Recalled p₀ past ms s) (henv : RequestAuthentication.env ch s = some s') :
    Recalled p₀ (past ++ [.world ch]) ms s' := by
  have hpin : s'.pin = s.pin := by
    cases ch <;> cases henv <;> rfl
  intro i
  refine (h i).snoc ?_ _
  rw [hpin]
  exact fun id hid => hid

theorem run_recalled
    {events : List (Event I RequestAuthentication.Choice RequestAuthentication.Change)}
    {q : Knocking I}
    (hrun : Interleaving.run RequestAuthentication.system (gates x config works s₀) events =
      some q) :
    ∃ ms, Recalled (gates x config works s₀) events ms q.state ∧
      ∀ i t, q.outcome i = some (.ok t) → Lets x config (ms i) (works i) t := by
  have hstart : Watched (fun _ => listening)
      (fun i m outcome => ∀ t, outcome = .ok t → Lets x config m (works i) t)
      (Recalled (gates x config works s₀)) [] (gates x config works s₀) fun _ => .nothing := by
    refine ⟨fun i => gate_follows x config (works i), fun i => ⟨?_, ?_, ?_, ?_, ?_⟩⟩
    · rintro row ⟨⟩
    · rintro t ⟨⟩
    · rintro id ⟨⟩
    · rintro nets ⟨⟩
    · intro name nets hsays
      cases hsays
  obtain ⟨ms, hms⟩ := run_watched _ _ _ (fun _ _ => True) hstart
    (fun past p ms i e c next r s' hp hwatched hthread _ _ hexec =>
      hwatched.inv.step hp hthread hexec)
    (fun past p ms ch s' _ hwatched _ henv => hwatched.inv.world henv)
      hrun fun _ _ _ _ _ _ => trivial
  refine ⟨ms, hms.inv, ?_⟩
  intro i t ht
  have hi := hms.follows i
  rw [Pool.outcome_eq_some.mp ht] at hi
  exact follows_value.mp hi t rfl

end Gates

section Service
variable {I : Type} [DecidableEq I] {x : Readers} {config : Config} {app : AppState}
  {works : I → Work}
  {s₀ : Service} {events : List (Event I ServiceChoice ServiceChange)} {q : ServicePool I}

/-- In a run of the service that has come to a state, the request was let pass as that key
from that address:

* the key is a row that was in the table at some moment, found by the key presented;
* it counts as the Master only if that row did and is the one identity the service takes
  for the Master's;
* the timestamp was within the window at some moment;
* the signature, over the method, the target, the timestamp and the body of this request,
  verifies with the secret stored in the row;
* the address is the one found behind the proxies that this request was told to trust;
* it is among those the row is bound to, by what this request was told that the names in
  the binding stand for. -/
structure Admitted (crates : Crates) (p₀ : ServicePool I)
    (events : List (Event I ServiceChoice ServiceChange)) (s : Service) (config : Config) (i : I)
    (req : Request) (key : ApiKey) (ip : IpAddr) : Prop where
  looked : ∃ presented, req.apiKey = some presented ∧
    Once (serviceSystem crates) p₀ (fun _ p => ∃ row ∈ p.state.world.db.apiKeys.rows,
      row.keyHash = config.crates.hashKey presented ∧ key = { row with isMaster := key.isMaster } ∧
        (key.isMaster = true → row.isMaster = true)) events
  master : key.isMaster = true → s.pin = some key.id
  timely : ∃ text, req.timestampText = some text ∧ Once (serviceSystem crates) p₀ (fun _ p =>
    validateTimestamp config.build text config.signatureMaxAgeSeconds
      (timestamp p.state.clock) = .ok ())
      events
  signed : Signed config.crates req key
  address : ∃ proxies, Answered (serviceSystem crates) p₀ i (.inl .resolvedProxies) proxies events ∧
    ip = resolveClientIp req.peer req.headers proxies
  bound : BoundTo config.crates
    (fun name nets => Answered (serviceSystem crates) p₀ i (.inl (.resolveHost name)) nets events)
      key ip

/-- What the work may be done as. -/
def Authorised (crates : Crates) (x : Readers) (config : Config) (p₀ : ServicePool I)
    (events : List (Event I ServiceChoice ServiceChange)) (s : Service) (i : I) : Work → Task → Prop
  | .http req, t => ∃ r key ip, route x req = .api r ∧ t = .request ⟨key, ip⟩ r ∧
      Admitted crates p₀ events s config i req key ip
  | .cleanup, t => t = .cleanup
  | .sync passes, t => t = .sync passes

/-- A moment that the gates meet is a moment of the service. -/
theorem Split.once
    (h : Split (serviceParts app.crates) (fun i => gate x config (works i))
      (Task.program app) s₀ events q)
    (P : AuthState → Prop)
    (honce : Once RequestAuthentication.system (gates x config works s₀.auth) (fun _ p => P p.state)
      h.frontEvents) :
    Once (serviceSystem app.crates) (service x config app works s₀)
      (fun _ p => P p.state.auth) events := by
  obtain ⟨past, rest, p, heq, hp, hP⟩ := honce
  obtain ⟨past', rest', p', heq', hp', hview⟩ := h.visited past rest p heq hp
  rw [hview] at hP
  exact ⟨past', rest', p', heq', hp', hP⟩

theorem authorised_of_outcome
    (h : Split (serviceParts app.crates) (fun i => gate x config (works i))
      (Task.program app) s₀ events q)
    {i : I} (houtcome : h.frontPool.outcome i = some (.ok (h.granted i))) :
    Authorised app.crates x config (service x config app works s₀) events q.state i (works i)
      (h.granted i) := by
  obtain ⟨ms, hrecalled, hlets⟩ := run_recalled h.front_run
  have hi := hlets i _ houtcome
  cases hwork : works i with
  | cleanup | sync passes =>
      rw [hwork] at hi
      exact hi
  | http req =>
      rw [hwork] at hi
      obtain ⟨r, key, ip, hroute, htask, hadmission⟩ := hi
      refine ⟨r, key, ip, hroute, htask, ?_, ?_, ?_, hadmission.signed, ?_, ?_⟩
      · obtain ⟨presented, row, hpresented, hrow, hhash, hkey⟩ := hadmission.looked
        refine ⟨presented, hpresented,
          (Split.once h (fun s => row ∈ s.keys) ((hrecalled i).row row hrow)).imp ?_⟩
        intro past rest p _ _ hmem
        refine ⟨row, hmem, hhash, hkey, fun hmaster => ?_⟩
        have hsame := (hadmission.master hmaster).2
        rw [hrow, Option.some.injEq] at hsame
        rw [hsame]
        exact hmaster
      · intro hmaster
        have hpin := (hrecalled i).pin key.id (hadmission.master hmaster).1
        rw [h.front_state] at hpin
        exact hpin
      · obtain ⟨text, now, htext, hnow, hvalid⟩ := hadmission.timely
        refine ⟨text, htext,
          (Split.once h (fun s => s.clock = now) ((hrecalled i).clock now hnow)).imp ?_⟩
        intro past rest p _ _ hclock
        have hsame : p.state.clock = now := hclock
        rw [hsame]
        exact hvalid
      · obtain ⟨proxies, htold, hip⟩ := hadmission.address
        exact ⟨proxies, h.answered i _ _ ((hrecalled i).proxies proxies htold), hip⟩
      · refine hadmission.bound.imp ?_
        intro name nets hsays
        exact h.answered i _ _ ((hrecalled i).names name nets hsays)

/-- Requests arrive off the wire while the two workers are under way. Whatever the handlers
do in such a run of the service is a run of their process, from the same world to the same
world and with the same answers. In it, a request that has taken a step or has been answered
by a handler is the one that its method, path, query and body lead to, and is made by a
caller whom the middleware has admitted for this very request. -/
theorem requests_act_as_admitted
    (hrun : Interleaving.run (serviceSystem app.crates) (service x config app works s₀) events =
      some q) :
    ∃ tasks events' p,
      Interleaving.run (Services.system app.crates) (process app tasks s₀.world) events' = some p ∧
      p.state = q.state.world ∧
      (∀ i outcome, q.outcome i = some (.ok outcome) → p.outcome i = some outcome) ∧
      ∀ i, ((∃ e, .act i e ∈ events') ∨ ∃ outcome, q.outcome i = some (.ok outcome)) →
        Authorised app.crates x config (service x config app works s₀) events q.state i (works i)
          (tasks i) := by
  obtain ⟨h⟩ := exists_split (serviceParts app.crates) Task.cleanup hrun
  refine ⟨h.granted, h.backEvents, h.backPool, h.back_run, h.back_state, ?_, ?_⟩
  · intro i outcome hend
    exact (h.outcome hend).2
  · rintro i (⟨e, hact⟩ | ⟨outcome, hend⟩)
    · exact authorised_of_outcome h (h.passed hact)
    · exact authorised_of_outcome h (h.outcome hend).1

end Service

def sampleReaders : Readers where
  uuid _ := .error "uuid"
  uuids _ _ := .error "uuid"
  createKey _ _ := .error (.syntaxError "json")
  updateKey _ _ := .error (.syntaxError "json")
  deleteKey _ := .ok ⟨none⟩
  createEndpoint _ _ := .ok
    { name := "feed"
      description := none
      vaultGroups := "dmz"
      ttlSeconds := none
      maxAgeSeconds := none
      boundIps := none
      filterRfc1918 := false
      filterBogons := false
      filterLoopback := false }
  updateEndpoint _ _ := .error (.syntaxError "json")
  reassignOwner _ _ := .error (.syntaxError "json")
  auditLogs _ := .error "query"
  grantGroup _ _ := .error (.syntaxError "json")

def sentCreation : Request := { SignatureSingleUse.datedBack with method := "POST" }

/-- The key is bound to what a name stands for. -/
def officeRow : ApiKey :=
  { SignatureSingleUse.sampleRow with boundIps := some "office.example.com" }

def sampleService : Service where
  world :=
    { DaughterConfinement.sampleWorld with
      db := { DaughterConfinement.sampleWorld.db with apiKeys := ⟨[officeRow], by decide⟩ } }
  pin := some 1
  guard := SignatureSingleUse.sampleStart.guard
  clock := SignatureSingleUse.sampleStart.clock

def creationSteps : List (Event Unit ServiceChoice ServiceChange) :=
  .act () (.inl (.addresses [])) :: List.replicate 7 (.act () (.inl .succeed)) ++
    .act () (.inl (.addresses [.fromAddr sentCreation.peer])) ::
      DaughterConfinement.sampleChoices.map fun e => .act () (.inr e)

theorem requests_act_as_admitted_creation :
    ∃ q, Interleaving.run (serviceSystem sampleApp.crates)
        (service sampleReaders SignatureSingleUse.sampleConfig sampleApp
          (fun _ => .http sentCreation)
          sampleService) creationSteps = some q ∧
      q.state.world.db.endpoints.rows.map (·.ownerKeyId) = [some 7] ∧
      ∃ key ip, Admitted sampleApp.crates
        (service sampleReaders SignatureSingleUse.sampleConfig sampleApp
        (fun _ => .http sentCreation) sampleService) creationSteps q.state
          SignatureSingleUse.sampleConfig
          () sentCreation key ip := by
  have hends : (Interleaving.run (serviceSystem sampleApp.crates)
      (service sampleReaders SignatureSingleUse.sampleConfig sampleApp (fun _ => .http sentCreation)
        sampleService) creationSteps).map (fun q =>
          (q.state.world.db.endpoints.rows.map (·.ownerKeyId), (q.outcome ()).map Except.isOk)) =
      some ([some 7], some true) := by
    decide +kernel
  obtain ⟨q, hrun, hq⟩ := Option.map_eq_some_iff.mp hends
  obtain ⟨hrows, hok⟩ := Prod.mk.injEq .. ▸ hq
  obtain ⟨outcome, houtcome, hokay⟩ := Option.map_eq_some_iff.mp hok
  obtain ⟨tasks, events', p, -, -, -, hauthorised⟩ := requests_act_as_admitted hrun
  cases outcome with
  | error refusal => cases hokay
  | ok response =>
      obtain ⟨r, key, ip, -, -, hadmitted⟩ := hauthorised () (.inr ⟨response, houtcome⟩)
      exact ⟨q, hrun, hrows, key, ip, hadmitted⟩

end SimplyIpExporter.AdmittedRequests
