import SimplyIpExporter.ListChecks
import SimplyIpExporter.PublicFeed
import SimplyIpExporter.RequestAuthentication

/-!
# One binding on two paths

A key's `bound_ips` is checked by `authMiddleware`, an endpoint's by the public feed.
Both parse the value in the same way and go through its entries in the same way; they
differ in what they take for unrestricted. The middleware asks whether any entry is
left, the feed whether the text is blank. A text of separators is neither blank nor
has it an entry.
-/
namespace SimplyIpExporter.NetworkBindings
open RustText IpAddresses Entities BoundIps ClientAddress Programs RequestAuthentication

/-- What `authMiddleware` does once the request is verified. -/
def checkKeyBinding (crates : Crates) (record : ApiKey) (clientIp : IpAddr) :
    Auth (ApiKey × IpAddr) := do
  let entries ← attempt (parsedBinding crates record)
  let allowed ← always (if entries.isEmpty then pure true
    else RequestAuthentication.isAllowed clientIp entries)
  if allowed then return (record, clientIp)
  else throw (.refused (.forbidden "Client IP not allowed"))

theorem authMiddleware_eq (config : Config) (req : Request) :
    authMiddleware config req = (do
      let proxies ← await .resolvedProxies
      let record ← verifyRequest config req
      checkKeyBinding config.crates record (resolveClientIp req.peer req.headers proxies)) := rfl

/-- Execution of the middleware's calls while host names stand for what `dns` says. -/
def execUnder (dns : String → List IpNet) :
    (c : AuthCall) → Choice → AuthState → Option (AuthAnswer c × AuthState)
  | .resolveHost name, _, s => exec (.resolveHost name) (.addresses (dns name)) s
  | c, e, s => exec c e s

/-- The binding check of the middleware, with the answers of the name server given. -/
def keyBinding (crates : Crates) (record : ApiKey) (dns : String → List IpNet)
    (clientIp : IpAddr) : Except Abort (ApiKey × IpAddr) :=
  match parsedBinding crates record with
  | .error e => .error e
  | .ok entries =>
    if entries.isEmpty || PublicFeed.isAllowed dns clientIp entries then .ok (record, clientIp)
    else .error (.refused (.forbidden "Client IP not allowed"))

section Middleware
variable {crates : Crates} {record : ApiKey} {dns : String → List IpNet} {clientIp : IpAddr}

/-- Names are looked up and stand for what `dns` says. -/
def lookups (dns : String → List IpNet) : Policy AuthAnswer Unit where
  permits _ c := ∃ name, c = .resolveHost name
  moves _ c r _ :=
    ∀ name (h : c = .resolveHost name), (h ▸ r : AuthAnswer (.resolveHost name)) = dns name

theorem isAllowed_follows (entries : List BoundIpEntry) :
    Follows (lookups dns) (fun _ allowed => allowed = PublicFeed.isAllowed dns clientIp entries)
      (RequestAuthentication.isAllowed clientIp entries) () := by
  induction entries with
  | nil => exact .pure rfl
  | cons entry rest ih =>
      cases entry with
      | network net =>
          unfold RequestAuthentication.isAllowed PublicFeed.isAllowed
          by_cases hcovers : net.contains clientIp = true
          · rw [if_pos hcovers, if_pos hcovers]
            exact .pure rfl
          · rw [if_neg hcovers, if_neg hcovers]
            exact ih
      | hostname name =>
          refine .perform_bind ⟨name, rfl⟩ ?_
          intro nets _ hmoves
          have hnets : nets = dns name := hmoves name rfl
          subst hnets
          unfold PublicFeed.isAllowed
          by_cases hcovers : (dns name).any (·.contains clientIp) = true
          · rw [if_pos hcovers, if_pos hcovers]
            exact .pure rfl
          · rw [if_neg hcovers, if_neg hcovers]
            exact ih

theorem checkKeyBinding_follows :
    Follows (lookups dns) (fun _ result => result = keyBinding crates record dns clientIp)
      (checkKeyBinding crates record clientIp) () := by
  refine .attempt_bind ?_ ?_
  · intro e he
    rw [keyBinding, he]
  · intro entries hentries
    have hallowed : Follows (lookups dns)
        (fun _ allowed => allowed =
          (entries.isEmpty || PublicFeed.isAllowed dns clientIp entries))
        (if entries.isEmpty then pure true else RequestAuthentication.isAllowed clientIp entries)
        () := by
      cases hempty : entries.isEmpty with
      | true => exact .pure rfl
      | false => simpa using isAllowed_follows entries
    refine .always_bind hallowed ?_
    intro _ allowed hvalue
    rw [keyBinding, hentries]
    dsimp only
    rw [← hvalue]
    cases allowed with
    | true => exact .ok rfl
    | false => exact .throw rfl

theorem lookups_step {c : AuthCall} {e : Choice} {s s' : AuthState} {r : AuthAnswer c}
    (hpermits : (lookups dns).permits () c) (hexec : execUnder dns c e s = some (r, s')) :
    (lookups dns).moves () c r () := by
  obtain ⟨name, rfl⟩ := hpermits
  intro name' hname
  cases hname
  cases hexec
  rfl

theorem run_isAllowed (entries : List BoundIpEntry) (s : AuthState) :
    ∃ es, run (execUnder dns) (RequestAuthentication.isAllowed clientIp entries) es s =
      some (PublicFeed.isAllowed dns clientIp entries, s) := by
  induction entries with
  | nil => exact ⟨[], rfl⟩
  | cons entry rest ih =>
      obtain ⟨es, hes⟩ := ih
      cases entry with
      | network net =>
          unfold RequestAuthentication.isAllowed PublicFeed.isAllowed
          by_cases hcovers : net.contains clientIp = true
          · rw [if_pos hcovers, if_pos hcovers]
            exact ⟨[], rfl⟩
          · rw [if_neg hcovers, if_neg hcovers]
            exact ⟨es, hes⟩
      | hostname name =>
          have hcall : execUnder dns (.resolveHost name) .succeed s = some (dns name, s) := rfl
          unfold RequestAuthentication.isAllowed PublicFeed.isAllowed
          by_cases hcovers : (dns name).any (·.contains clientIp) = true
          · refine ⟨[.succeed], ?_⟩
            rw [run_perform_bind hcall, if_pos hcovers, if_pos hcovers]
            rfl
          · refine ⟨.succeed :: es, ?_⟩
            rw [run_perform_bind hcall, if_neg hcovers, if_neg hcovers]
            exact hes

theorem run_checkKeyBinding (crates : Crates) (record : ApiKey) (dns : String → List IpNet)
    (clientIp : IpAddr) (s : AuthState) :
    ∃ es, run (execUnder dns) (checkKeyBinding crates record clientIp) es s =
      some (keyBinding crates record dns clientIp, s) := by
  cases hparsed : parsedBinding crates record with
  | error e =>
      refine ⟨[], ?_⟩
      rw [checkKeyBinding, keyBinding, hparsed]
      rfl
  | ok entries =>
      have hallowed : ∃ es, run (execUnder dns)
          (if entries.isEmpty then pure true else RequestAuthentication.isAllowed clientIp entries)
          es s = some (entries.isEmpty || PublicFeed.isAllowed dns clientIp entries, s) := by
        cases hempty : entries.isEmpty with
        | true => exact ⟨[], rfl⟩
        | false => simpa using run_isAllowed entries s
      obtain ⟨es, hes⟩ := hallowed
      refine ⟨es ++ [], ?_⟩
      rw [checkKeyBinding, run_attempt_bind hparsed, run_always_bind hes, keyBinding, hparsed]
      dsimp only
      split <;> rfl

end Middleware

/-- The middleware lets a verified key pass from an address: some run of its binding
check ends well. -/
def AdminAllows (crates : Crates) (record : ApiKey) (dns : String → List IpNet)
    (clientIp : IpAddr) : Prop :=
  ∃ es s s', run (execUnder dns) (checkKeyBinding crates record clientIp) es s =
    some (.ok (record, clientIp), s')

/-- The public feed serves an endpoint with this binding to an address. -/
def FeedAllows (crates : Crates) (boundIps : Option String) (dns : String → List IpNet)
    (clientIp : IpAddr) : Prop :=
  PublicFeed.checkBinding crates boundIps dns clientIp = .ok ()

/-- The entries of a value as text. -/
def entryTexts (raw : String) : List String := ((split ',' raw).map trim).filter (· != "")

section Paths
variable {crates : Crates} {record : ApiKey} {dns : String → List IpNet} {clientIp : IpAddr}

/-- Runs of the check have one outcome. -/
theorem adminAllows_iff : AdminAllows crates record dns clientIp ↔
    keyBinding crates record dns clientIp = .ok (record, clientIp) := by
  constructor
  · rintro ⟨es, s, s', hrun⟩
    have hstep : ∀ (m : Unit) c e (s : AuthState) r s', True → (lookups dns).permits m c →
        execUnder dns c e s = some (r, s') → ∃ m', (lookups dns).moves m c r m' ∧ True :=
      fun _ _ _ _ _ _ _ hpermits hexec => ⟨(), lookups_step hpermits hexec, trivial⟩
    obtain ⟨_, hresult, -⟩ := checkKeyBinding_follows.run hstep trivial hrun
    exact hresult.symm
  · intro hok
    obtain ⟨es, hes⟩ := run_checkKeyBinding crates record dns clientIp
      ⟨0, [], none, ReplayGuard.Guard.new 0 0⟩
    rw [hok] at hes
    exact ⟨es, _, _, hes⟩

theorem parseBoundIps_eq_nil {raw : String} {entries : List BoundIpEntry}
    (h : parseBoundIps crates raw = .ok entries) : entries = [] ↔ entryTexts raw = [] := by
  have hmap : (entryTexts raw).mapM (parseEntry crates) = .ok entries := h
  obtain ⟨hnone, rfl⟩ := ListChecks.mapM_eq_ok_iff.mp hmap
  rw [← List.length_eq_zero_iff, ListChecks.length_passes hnone, List.length_eq_zero_iff]

theorem adminAllows_of_parsed {entries : List BoundIpEntry}
    (h : parsedBinding crates record = .ok entries) :
    AdminAllows crates record dns clientIp ↔
      entries = [] ∨ PublicFeed.isAllowed dns clientIp entries = true := by
  rw [adminAllows_iff, keyBinding, h]
  cases entries with
  | nil => simp
  | cons entry rest =>
      by_cases hallowed : PublicFeed.isAllowed dns clientIp (entry :: rest) <;> simp [hallowed]

theorem feedAllows_blank {raw : String} (h : trim raw = "") :
    FeedAllows crates (some raw) dns clientIp := by
  have hfilter : (some raw).filter (fun s => trim s != "") = none :=
    Option.filter_some_neg (by simp [h])
  rw [FeedAllows, PublicFeed.checkBinding, hfilter]

theorem feedAllows_of_parsed {raw : String} {entries : List BoundIpEntry} (hraw : trim raw ≠ "")
    (h : parseBoundIps crates raw = .ok entries) :
    FeedAllows crates (some raw) dns clientIp ↔
    PublicFeed.isAllowed dns clientIp entries = true := by
  have hfilter : (some raw).filter (fun s => trim s != "") = some raw :=
    Option.filter_some_pos (by simp [hraw])
  rw [FeedAllows, PublicFeed.checkBinding, hfilter]
  dsimp only
  rw [h]
  by_cases hallowed : PublicFeed.isAllowed dns clientIp entries <;> simp [hallowed]

theorem entryTexts_blank {raw : String} (h : trim raw = "") : entryTexts raw = [] := by
  rw [entryTexts, trim_split_blank (by decide) h]
  rfl

/-- The values that mean the same on both paths: none, a blank one, and one with an
entry. -/
def Clear (boundIps : Option String) : Prop :=
  ∀ raw, boundIps = some raw → trim raw = "" ∨ entryTexts raw ≠ []

theorem parsedBinding_of_parsed {raw : String} {entries : List BoundIpEntry}
    (hrecord : record.boundIps = some raw) (h : parseBoundIps crates raw = .ok entries) :
    parsedBinding crates record = .ok entries := by
  rw [parsedBinding, hrecord, Option.getD_some, h]

theorem parseBoundIps_of_accepted {raw : String} (h : validateBoundIps crates raw = .ok ()) :
    ∃ entries, parseBoundIps crates raw = .ok entries := by
  unfold validateBoundIps at h
  cases hparse : parseBoundIps crates raw with
  | error e =>
      rw [hparse] at h
      cases h
  | ok entries => exact ⟨entries, rfl⟩

/-- An accepted value means the same on both paths, and is unrestricted on both when it
has no entry, exactly when it is absent, blank or has an entry. -/
theorem bindings_agree_iff (crates : Crates) (boundIps : Option String)
    (haccepted : ∀ raw, boundIps = some raw → validateBoundIps crates raw = .ok ()) :
    ((∀ record dns clientIp, record.boundIps = boundIps →
        (AdminAllows crates record dns clientIp ↔ FeedAllows crates boundIps dns clientIp)) ∧
      ((∀ raw, boundIps = some raw → entryTexts raw = []) →
        ∀ dns clientIp, FeedAllows crates boundIps dns clientIp ∧
          ∀ record, record.boundIps = boundIps → AdminAllows crates record dns clientIp)) ↔
    Clear boundIps := by
  cases boundIps with
  | none =>
      have hadmin : ∀ record : ApiKey, record.boundIps = none → ∀ dns clientIp,
          AdminAllows crates record dns clientIp := by
        intro record hrecord dns clientIp
        have hparsed : parsedBinding crates record = .ok [] := by
          rw [parsedBinding, hrecord]
          rfl
        exact (adminAllows_of_parsed hparsed).mpr (.inl rfl)
      have hfeed : ∀ dns clientIp, FeedAllows crates none dns clientIp := fun _ _ => rfl
      constructor
      · intro _ raw hraw
        cases hraw
      · intro _
        exact ⟨fun record dns clientIp hrecord => iff_of_true (hadmin record hrecord dns clientIp)
          (hfeed dns clientIp), fun _ dns clientIp => ⟨hfeed dns clientIp,
            fun record hrecord => hadmin record hrecord dns clientIp⟩⟩
  | some raw =>
      obtain ⟨entries, hparse⟩ := parseBoundIps_of_accepted (haccepted raw rfl)
      have hnil := parseBoundIps_eq_nil hparse
      have hadmin : ∀ (record : ApiKey) dns clientIp, record.boundIps = some raw →
          (AdminAllows crates record dns clientIp ↔
            entries = [] ∨ PublicFeed.isAllowed dns clientIp entries = true) :=
        fun record dns clientIp hrecord =>
          adminAllows_of_parsed (parsedBinding_of_parsed hrecord hparse)
      constructor
      · intro hagree raw' hraw'
        cases hraw'
        by_contra hnot
        obtain ⟨hblank, htexts⟩ := not_or.mp hnot
        have hempty : entryTexts raw = [] := not_not.mp htexts
        have hfeed := (hagree.2 (by simpa using hempty) (fun _ => []) (.v4 0)).1
        rw [feedAllows_of_parsed hblank hparse, hnil.mpr hempty] at hfeed
        cases hfeed
      · intro hclear
        by_cases hblank : trim raw = ""
        · have hentries : entries = [] := hnil.mpr (entryTexts_blank hblank)
          have hboth : ∀ dns clientIp, FeedAllows crates (some raw) dns clientIp ∧
              ∀ record : ApiKey, record.boundIps = some raw →
                AdminAllows crates record dns clientIp :=
            fun dns clientIp => ⟨feedAllows_blank hblank, fun record hrecord =>
              (hadmin record dns clientIp hrecord).mpr (.inl hentries)⟩
          exact ⟨fun record dns clientIp hrecord =>
            iff_of_true ((hboth dns clientIp).2 record hrecord) (hboth dns clientIp).1,
            fun _ => hboth⟩
        · have htexts : entryTexts raw ≠ [] := (hclear raw rfl).resolve_left hblank
          have hentries : entries ≠ [] := fun h => htexts (hnil.mp h)
          refine ⟨fun record dns clientIp hrecord => ?_, fun h => absurd (h raw rfl) htexts⟩
          rw [hadmin record dns clientIp hrecord, feedAllows_of_parsed hblank hparse]
          simp [hentries]

/-- A single address on both paths. -/
theorem bindings_agree_address :
    (∀ raw, some "192.0.2.7" = some raw → validateBoundIps sampleCrates raw = .ok ()) ∧
    ∀ record dns clientIp, record.boundIps = some "192.0.2.7" →
      (AdminAllows sampleCrates record dns clientIp ↔
        FeedAllows sampleCrates (some "192.0.2.7") dns clientIp) :=
  have haccepted : ∀ raw, some "192.0.2.7" = some raw →
      validateBoundIps sampleCrates raw = .ok () := by
    intro raw hraw
    cases hraw
    decide
  have hclear : Clear (some "192.0.2.7") := by
    intro raw hraw
    cases hraw
    exact .inr (by decide)
  ⟨haccepted, ((bindings_agree_iff sampleCrates (some "192.0.2.7") haccepted).mpr hclear).1⟩

/-- A lone separator is accepted, lets every verified key pass on the admin path and
refuses every client of the feed. -/
theorem comma_binding_disagrees :
    validateBoundIps sampleCrates "," = .ok () ∧ entryTexts "," = [] ∧
    (∀ record dns clientIp, record.boundIps = some "," →
      AdminAllows sampleCrates record dns clientIp) ∧
    ∀ dns clientIp, PublicFeed.checkBinding sampleCrates (some ",") dns clientIp =
      .error (.forbidden "Client IP not allowed for this endpoint") := by
  have hparse : parseBoundIps sampleCrates "," = .ok [] := by decide
  refine ⟨by decide, by decide, ?_, ?_⟩
  · intro record dns clientIp hrecord
    exact (adminAllows_of_parsed (parsedBinding_of_parsed hrecord hparse)).mpr (.inl rfl)
  · intro dns clientIp
    have hfilter : (some ",").filter (fun s => trim s != "") = some "," := by decide
    rw [PublicFeed.checkBinding, hfilter]
    dsimp only
    rw [hparse]
    rfl

end Paths
end SimplyIpExporter.NetworkBindings
