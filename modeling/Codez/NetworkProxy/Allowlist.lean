import Codez.NetworkProxy.Constraints

/-!
A user's allowlist against the managed one.

Without expansion a configuration is valid only if each of its allowed domains is allowed by a
managed one.
-/

namespace NetworkProxy

open List

namespace DomainPattern

def domain : DomainPattern → Text
  | apexAndSubdomains domain => domain
  | subdomainsOnly domain => domain
  | exact domain => domain

def hasApex : DomainPattern → Bool
  | subdomainsOnly _ => false
  | _ => true

def hasSubdomains : DomainPattern → Bool
  | exact _ => false
  | _ => true

def normalized : DomainPattern → DomainPattern
  | apexAndSubdomains domain => apexAndSubdomains (normalizeDomain domain)
  | subdomainsOnly domain => subdomainsOnly (normalizeDomain domain)
  | exact domain => exact (normalizeDomain domain)

variable (p : DomainPattern) {child parent : Text}

@[simp] theorem domain_normalized : p.normalized.domain = normalizeDomain p.domain := by
  cases p <;> rfl

@[simp] theorem hasApex_normalized : p.normalized.hasApex = p.hasApex := by
  cases p <;> rfl

@[simp] theorem hasSubdomains_normalized : p.normalized.hasSubdomains = p.hasSubdomains := by
  cases p <;> rfl

theorem isSubdomainOrEqual_iff :
    isSubdomainOrEqual child parent = true ↔ normalizeDomain child = normalizeDomain parent ∨
      ∃ label, normalizeDomain child = label ++ '.' :: normalizeDomain parent := by
  unfold isSubdomainOrEqual
  rw [Bool.or_eq_true, beq_iff_eq, isSuffixOf_iff_suffix]
  exact or_congr_right ⟨fun ⟨label, h⟩ => ⟨label, h.symm⟩, fun ⟨label, h⟩ => ⟨label, h.symm⟩⟩

theorem exists_label_of_isStrictSubdomain (h : isStrictSubdomain child parent = true) :
    ∃ label, normalizeDomain child = label ++ '.' :: normalizeDomain parent := by
  unfold isStrictSubdomain at h
  rw [Bool.and_eq_true, isSuffixOf_iff_suffix] at h
  obtain ⟨label, hlabel⟩ := h.2
  exact ⟨label, hlabel.symm⟩

theorem allows_cases {managed candidate : DomainPattern} (h : managed.allows candidate = true) :
    (normalizeDomain candidate.domain = normalizeDomain managed.domain ∧
      (candidate.hasApex = true → managed.hasApex = true) ∧
        (candidate.hasSubdomains = true → managed.hasSubdomains = true)) ∨
    (managed.hasSubdomains = true ∧
      ∃ label, normalizeDomain candidate.domain = label ++ '.' :: normalizeDomain managed.domain) := by
  cases managed with
  | exact domain =>
    cases candidate with
    | exact candidate => exact .inl ⟨beq_iff_eq.mp h, fun _ => rfl, fun h => h⟩
    | subdomainsOnly candidate => cases h
    | apexAndSubdomains candidate => cases h
  | subdomainsOnly domain =>
    cases candidate with
    | exact candidate => exact .inr ⟨rfl, exists_label_of_isStrictSubdomain h⟩
    | apexAndSubdomains candidate => exact .inr ⟨rfl, exists_label_of_isStrictSubdomain h⟩
    | subdomainsOnly candidate =>
      obtain hsame | hlabel := isSubdomainOrEqual_iff.mp h
      · exact .inl ⟨hsame, fun h => h, fun _ => rfl⟩
      · exact .inr ⟨rfl, hlabel⟩
  | apexAndSubdomains domain =>
    have hcases : isSubdomainOrEqual candidate.domain domain = true := by
      cases candidate <;> exact h
    obtain hsame | hlabel := isSubdomainOrEqual_iff.mp hcases
    · exact .inl ⟨hsame, fun _ => rfl, fun _ => rfl⟩
    · exact .inr ⟨rfl, hlabel⟩

end DomainPattern

open DomainPattern

/-- A longer domain is one below the managed domain: in front of the dot stands a glob of its own that needs a
letter. -/
def LabelStands (lib : Libraries) (managed candidate : DomainPattern) : Prop :=
  ∀ label, candidate.domain = label ++ '.' :: managed.domain → ¬"**/".toList <+: managed.domain ∧
    (candidate.hasSubdomains = true → ¬"**/".toList <+: candidate.domain) ∧ ∃ stem, beforeDot label = some stem ∧
      (candidate.hasApex = true → ∀ glob, lib.buildGlob stem = .ok glob → glob [] = false)

section
variable {lib : Libraries} {host label stem domain : Text}

theorem matchedBy_dot (hlabel : beforeDot label = some stem) (hdomain : ¬"**/".toList <+: domain)
    (hbuilds : ∃ glob, lib.buildGlob (label ++ '.' :: domain) = .ok glob) :
    MatchedBy lib [label ++ '.' :: domain] host ↔ ∃ s d t, host = s ++ d :: t ∧ MatchedBy lib [stem] s ∧
      lib.sameLetter '.' d = true ∧ MatchedBy lib [domain] t := by
  obtain ⟨glob, hglob⟩ := hbuilds
  obtain ⟨left, right, hleft, hright, hsides⟩ := lib.buildGlob_dot label stem domain glob hlabel hdomain hglob
  rw [matchedBy_singleton hglob, hsides]
  simp only [matchedBy_singleton hleft, matchedBy_singleton hright]

theorem matchedBy_letters : MatchedBy lib ["?*".toList] host ↔ host ≠ [] := by
  rw [matchedBy_plain (by decide)]
  cases host with
  | nil => exact ⟨fun h => Bool.noConfusion h, fun h => absurd rfl h⟩
  | cons c host =>
    have hrest : Wildcard.accepts lib.sameLetter [.run] host = true :=
      Wildcard.accepts_run_iff.mpr ⟨host, [], (append_nil host).symm, rfl⟩
    exact ⟨fun _ => cons_ne_nil c host, fun _ => hrest⟩

theorem matchedBy_subdomains (hdomain : ¬"**/".toList <+: domain)
    (hbuilds : ∃ glob, lib.buildGlob ("?*.".toList ++ domain) = .ok glob) :
    MatchedBy lib ["?*.".toList ++ domain] host ↔ ∃ s d t, host = s ++ d :: t ∧ s ≠ [] ∧
      lib.sameLetter '.' d = true ∧ MatchedBy lib [domain] t := by
  have hsides := @matchedBy_dot lib host "?*".toList "?*".toList domain rfl hdomain hbuilds
  simp only [matchedBy_letters] at hsides
  exact hsides

theorem builds_of_matchedBy {candidate : Text} (h : MatchedBy lib [candidate] host) :
    ∃ glob, lib.buildGlob candidate = .ok glob := by
  obtain ⟨_, hmem, glob, hglob, -⟩ := h
  rw [mem_singleton.mp hmem] at hglob
  exact ⟨glob, hglob⟩

theorem matchedBy_globs {pattern : DomainPattern} : MatchedBy lib pattern.globs host ↔
    (pattern.hasApex = true ∧ MatchedBy lib [pattern.domain] host) ∨
      (pattern.hasSubdomains = true ∧ MatchedBy lib ["?*.".toList ++ pattern.domain] host) := by
  cases pattern with
  | exact domain | subdomainsOnly domain => simp [globs, hasApex, hasSubdomains, DomainPattern.domain]
  | apexAndSubdomains domain =>
    simp only [hasApex, hasSubdomains, DomainPattern.domain, true_and]
    exact @matchedBy_append lib [domain] ["?*.".toList ++ domain] host

theorem mem_globs_of_hasSubdomains {pattern : DomainPattern} (h : pattern.hasSubdomains = true) :
    "?*.".toList ++ pattern.domain ∈ pattern.globs := by
  cases pattern with
  | exact domain => cases h
  | subdomainsOnly domain => exact mem_cons_self
  | apexAndSubdomains domain => exact mem_cons_of_mem _ mem_cons_self

/-- **A pattern that is allowed matches no more.** -/
theorem matchedBy_of_allows {managed candidate : DomainPattern} (hallows : managed.allows candidate = true)
    (hstands : LabelStands lib managed.normalized candidate.normalized)
    (hbuilds : ∀ glob ∈ managed.normalized.globs, ∃ built, lib.buildGlob glob = .ok built)
    (hmt : MatchedBy lib candidate.normalized.globs host) : MatchedBy lib managed.normalized.globs host := by
  unfold LabelStands at hstands
  have hbuild := fun h => hbuilds _ (@mem_globs_of_hasSubdomains managed.normalized h)
  rw [matchedBy_globs] at hmt ⊢
  simp only [domain_normalized, hasApex_normalized, hasSubdomains_normalized] at hstands hbuild hmt ⊢
  obtain ⟨hsame, hapex, hsub⟩ | ⟨hsub, label, hlabel⟩ := allows_cases hallows
  · rw [hsame] at hmt
    exact hmt.imp (And.imp_left hapex) (And.imp_left hsub)
  · obtain ⟨hdomain, hcandidate, stem, hstem, hletter⟩ := hstands label hlabel
    rw [hlabel] at hmt hcandidate
    refine Or.inr ⟨hsub, (matchedBy_subdomains hdomain (hbuild hsub)).mpr ?_⟩
    obtain ⟨happ, hmt⟩ | ⟨hsubs, hmt⟩ := hmt
    · obtain ⟨s, d, t, rfl, hs, hd, ht⟩ := (matchedBy_dot hstem hdomain (builds_of_matchedBy hmt)).mp hmt
      refine ⟨s, d, t, rfl, ?_, hd, ht⟩
      rintro rfl
      obtain ⟨glob, hglob⟩ := builds_of_matchedBy hs
      rw [matchedBy_singleton hglob, hletter happ glob hglob] at hs
      cases hs
    · obtain ⟨s, d, t, rfl, hs, -, ht⟩ :=
        (matchedBy_subdomains (hcandidate hsubs) (builds_of_matchedBy hmt)).mp hmt
      obtain ⟨s', d', t', rfl, -, hd', ht'⟩ := (matchedBy_dot hstem hdomain (builds_of_matchedBy ht)).mp ht
      exact ⟨s ++ d :: s', d', t', by rw [append_assoc, cons_append], by simp, hd', ht'⟩

end

/-- The check and the proxy read the same pattern, up to case and dots at the end. -/
def ReadAlike (lib : Libraries) (entry : Text) : Prop :=
  (DomainPattern.parseForConstraints lib entry).normalized = DomainPattern.parse (normalizePattern lib entry)

def Accepts (lib : Libraries) (managed entry : Text) : Prop :=
  (DomainPattern.parseForConstraints lib managed).allows (DomainPattern.parseForConstraints lib entry) = true

/-- What the check reads off the two texts is what the proxy does with them. -/
structure Sound (lib : Libraries) (managed entry : Text) : Prop where
  managedAlike : ReadAlike lib managed
  entryAlike : ReadAlike lib entry
  labelStands : LabelStands lib (DomainPattern.parse (normalizePattern lib managed))
    (DomainPattern.parse (normalizePattern lib entry))

/-- **A valid allowlist narrows the managed one**, where what the check accepts it accepts for a sound reason. -/
theorem valid_allowlist_narrows {Hook : Type} (checker : Checker Hook) (config : NetworkProxySettings Hook)
    (constraints : NetworkProxyConstraints) (managed : List Text)
    (hmanaged : constraints.allowedDomains = some managed) (hexpansion : constraints.allowlistExpansionEnabled = none)
    (hvalid : validatePolicyAgainstConstraints checker config constraints = .ok ())
    (hsound : ∀ entry ∈ config.allowedDomains.getD [], (∃ m ∈ managed, Accepts checker.lib m entry) →
      ∃ m ∈ managed, Accepts checker.lib m entry ∧ Sound checker.lib m entry)
    (managedSet set : GlobSet) (hmanagedSet : compileAllowlistGlobset checker.lib managed = .ok managedSet)
    (hset : compileAllowlistGlobset checker.lib (config.allowedDomains.getD []) = .ok set) (host : Text)
    (hmatch : set.isMatch host = true) : managedSet.isMatch host = true := by
  obtain ⟨entry, hentry, hmatched⟩ := (isMatch_compile hset host).mp hmatch
  obtain ⟨m, hm, hallows, hread, hentryRead, hstands⟩ :=
    hsound entry hentry (allows_of_validate hmanaged hexpansion hvalid entry hentry)
  have hbuilds := builds_of_compile hmanagedSet hm
  rw [isMatch_compile hmanagedSet]
  refine ⟨m, hm, ?_⟩
  unfold expandDomainPattern at hmatched hbuilds ⊢
  rw [← hentryRead] at hmatched hstands
  rw [← hread] at hstands hbuilds ⊢
  exact matchedBy_of_allows hallows hstands hbuilds hmatched

instance (lib : Libraries) (entry : Text) : Decidable (ReadAlike lib entry) := inferInstanceAs (Decidable (_ = _))

instance (lib : Libraries) (managed entry : Text) : Decidable (Accepts lib managed entry) :=
  inferInstanceAs (Decidable (_ = _))

def parseShortIpAddr (s : Text) : Option IpAddr :=
  match Text.stripPrefix "::".toList s with
  | some digits =>
    if digits.all Text.isAsciiDigit ∧ digits.length ≤ 4 then
      some (.v6 (digits.foldl (fun bits c => bits * 16 + BitVec.ofNat 128 (c.toNat - 48)) 0))
    else none
  | none => none

/-- Hosts in lower case; characters that no host has are refused, and so is an address outside brackets. -/
def parseAsciiHost (s : Text) : Option Text :=
  if s.any fun c => " #%/:<>?@[\\]^|".toList.contains c then none else some (s.map Char.toLower)

theorem PlainGlob.of_infix {pattern part : Text} (h : PlainGlob pattern) (hpart : part <:+: pattern) :
    PlainGlob part :=
  ⟨fun c hc => h.1 c (hpart.subset hc), fun hstars => h.2 (hstars.trans hpart)⟩

theorem beforeDot_plain {label : Text} (h : PlainGlob label) : beforeDot label = some label := by
  have hnext : ∀ c ∉ ['[', ']', '\x7b', '\x7d', '\\'], GlobState.next (.outside 0) c = .outside 0 := by
    intro c hc
    simp only [mem_cons, not_mem_nil, or_false, not_or] at hc
    simp [GlobState.next, hc]
  have hscan : label.foldl GlobState.next (.outside 0) = .outside 0 :=
    foldlRecOn (motive := (· = .outside 0)) label GlobState.next rfl fun state hstate c hc => by
      rw [hstate]
      exact hnext c (h.1 c hc)
  simp only [beforeDot, hscan]

/-- Only plain globs are built. -/
def buildPlainGlob (pattern : Text) : Except Text (Text → Bool) :=
  if PlainGlob pattern then .ok (Wildcard.accepts (fun c d => c.toLower == d.toLower) (pattern.map globToken))
  else .error "unsupported glob".toList

theorem buildPlainGlob_dot {label stem domain : Text} {glob : Text → Bool} (hlabel : beforeDot label = some stem)
    (h : buildPlainGlob (label ++ '.' :: domain) = .ok glob) : ∃ left right, buildPlainGlob stem = .ok left ∧
      buildPlainGlob domain = .ok right ∧ ∀ host, glob host = true ↔ ∃ s d t, host = s ++ d :: t ∧
        left s = true ∧ ('.'.toLower == d.toLower) = true ∧ right t = true := by
  unfold buildPlainGlob at h
  split at h
  · next hplain =>
    cases h
    have hleft : PlainGlob label := hplain.of_infix (prefix_append label _).isInfix
    have hright : PlainGlob domain := hplain.of_infix ((suffix_cons '.' domain).trans (suffix_append label _)).isInfix
    rw [beforeDot_plain hleft] at hlabel
    cases hlabel
    refine ⟨_, _, if_pos hleft, if_pos hright, fun host => ?_⟩
    rw [map_append, Wildcard.accepts_append]
    constructor
    · rintro ⟨s, rest, rfl, hs, hrest⟩
      cases rest with
      | nil => cases hrest
      | cons d t =>
        obtain ⟨hd, ht⟩ := Bool.and_eq_true_iff.mp hrest
        exact ⟨s, d, t, rfl, hs, hd, ht⟩
    · rintro ⟨s, d, t, rfl, hs, hd, ht⟩
      exact ⟨s, d :: t, rfl, hs, Bool.and_eq_true_iff.mpr ⟨hd, ht⟩⟩
  · cases h

def asciiLibraries : Libraries where
  parseIpAddr := parseShortIpAddr
  parseUrlHost := parseAsciiHost
  sameLetter c d := c.toLower == d.toLower
  buildGlob := buildPlainGlob
  buildGlob_plain _ h := if_pos h
  buildGlob_dot _ _ _ _ hlabel _ h := buildPlainGlob_dot hlabel h

def asciiChecker : Checker Unit where
  lib := asciiLibraries
  validateMitmHookConfig _ := .ok ()
  debug entries := ", ".toList.intercalate entries
  listed entries := entries

def allowing (patterns : List String) : NetworkProxySettings Unit :=
  { domains := some (patterns.map fun pattern => ⟨pattern.toList, .allow⟩) }

def managing (patterns : List String) : NetworkProxyConstraints :=
  { allowedDomains := some (patterns.map String.toList) }

def allowlisted (patterns : List String) (host : String) : Except CompileError Bool :=
  (compileAllowlistGlobset asciiLibraries (patterns.map String.toList)).map (·.isMatch host.toList)

theorem valid_allowlist_narrows_api : ∃ managedSet set,
    compileAllowlistGlobset asciiLibraries ["[::1]".toList, "*.example.com".toList] = .ok managedSet ∧
    compileAllowlistGlobset asciiLibraries ["api.example.com".toList] = .ok set ∧
    set.isMatch "API.example.com".toList = true ∧ managedSet.isMatch "API.example.com".toList = true := by
  have hmanaged : allowlisted ["[::1]", "*.example.com"] "API.example.com" = .ok true := by decide +kernel
  have hconfig : allowlisted ["api.example.com"] "API.example.com" = .ok true := by decide +kernel
  obtain ⟨managedSet, hmanagedSet, -⟩ := Fallible.map_eq_ok hmanaged
  obtain ⟨set, hset, hmatch⟩ := Fallible.map_eq_ok hconfig
  have hdomains : (allowing ["api.example.com"]).allowedDomains.getD [] =
      ["api.example.com".toList] := by decide +kernel
  have hstands : LabelStands asciiLibraries (.subdomainsOnly "example.com".toList)
      (.exact "api.example.com".toList) := by
    intro label hlabel
    have hapi : "api".toList = label :=
      append_cancel_right (show "api".toList ++ ".example.com".toList = label ++ ".example.com".toList from hlabel)
    rw [← hapi]
    refine ⟨by decide, fun h => Bool.noConfusion h, "api".toList, rfl, fun _ glob hglob => ?_⟩
    rw [asciiLibraries.buildGlob_plain _ (by decide)] at hglob
    cases hglob
    rfl
  refine ⟨managedSet, set, hmanagedSet, hset, hmatch, ?_⟩
  refine valid_allowlist_narrows asciiChecker (allowing ["api.example.com"])
    (managing ["[::1]", "*.example.com"]) _ rfl rfl
    (by decide +kernel) ?_ managedSet set hmanagedSet (hdomains ▸ hset) _ hmatch
  rw [hdomains]
  intro entry hentry _
  rw [mem_singleton.mp hentry]
  exact ⟨"*.example.com".toList, mem_cons_of_mem _ mem_cons_self, by decide +kernel, by decide +kernel,
    by decide +kernel, hstands⟩

theorem allowlist_widened :
    (validatePolicyAgainstConstraints asciiChecker (allowing ["evil.com:*.example.com"])
        (managing ["*.example.com"]) = .ok () ∧
      allowlisted ["evil.com:*.example.com"] "evil.com" = .ok true ∧
      allowlisted ["*.example.com"] "evil.com" = .ok false) ∧
    (validatePolicyAgainstConstraints asciiChecker (allowing ["[::2]"]) (managing ["[::1]"]) = .ok () ∧
      allowlisted ["[::2]"] "::2" = .ok true ∧ allowlisted ["[::1]"] "::2" = .ok false) := by
  decide +kernel

end NetworkProxy
