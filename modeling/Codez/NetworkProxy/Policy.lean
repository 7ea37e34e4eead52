import Codez.Lib.Fallible
import Codez.Lib.Framing
import Codez.Lib.Text
import Codez.Lib.Wildcard

/-!
Domain patterns of the network proxy (`network-proxy/src/policy.rs`).
-/

namespace NetworkProxy

open List

inductive IpAddr where
  | v4 (bits : BitVec 32)
  | v6 (bits : BitVec 128)
deriving DecidableEq

def globToken : Char → Wildcard.Token Char
  | '*' => .run
  | '?' => .any
  | c => .letter c

def PlainGlob (pattern : Text) : Prop :=
  (∀ c ∈ pattern, c ∉ ['[', ']', '\x7b', '\x7d', '\\']) ∧ ¬['*', '*'] <:+: pattern

instance (pattern : Text) : Decidable (PlainGlob pattern) :=
  @instDecidableAnd _ _ (List.decidableBAll _ pattern) inferInstance

/-- Where the reader of a glob stands, below `depth` open braces. -/
inductive GlobState where
  | outside (depth : Nat)
  | escaped (depth : Nat)
  | classStart (depth : Nat)
  | classFirst (depth : Nat)
  | inClass (depth : Nat)

def GlobState.next : GlobState → Char → GlobState
  | outside depth, '\\' => escaped depth
  | outside depth, '[' => classStart depth
  | outside depth, '\x7b' => outside (depth + 1)
  | outside depth, '\x7d' => outside (depth - 1)
  | outside depth, _ => outside depth
  | escaped depth, _ => outside depth
  | classStart depth, c => if c = '!' ∨ c = '^' then classFirst depth else inClass depth
  -- a bracket is closed behind its first character only
  | classFirst depth, _ => inClass depth
  | inClass depth, ']' => outside depth
  | inClass depth, _ => inClass depth

/-- The glob in front of a dot that stands for itself; a backslash before the dot only says so. -/
def beforeDot (label : Text) : Option Text :=
  match label.foldl GlobState.next (.outside 0) with
  | .outside 0 => some label
  | .escaped 0 => some label.dropLast
  | _ => none

structure Libraries where
  /-- `str::parse::<IpAddr>` -/
  parseIpAddr : Text → Option IpAddr
  /-- `url::Host::parse`, and the host as text -/
  parseUrlHost : Text → Option Text
  /-- equal up to case -/
  sameLetter : Char → Char → Bool
  /-- `GlobBuilder::build`, not case sensitive -/
  buildGlob : Text → Except Text (Text → Bool)
  buildGlob_plain : ∀ pattern, PlainGlob pattern →
    buildGlob pattern = .ok (Wildcard.accepts sameLetter (pattern.map globToken))
  /-- around a dot of its own a glob matches what its two sides match; `**` before a slash is only read at a start -/
  buildGlob_dot : ∀ label stem domain glob, beforeDot label = some stem → ¬"**/".toList <+: domain →
    buildGlob (label ++ '.' :: domain) = .ok glob → ∃ left right, buildGlob stem = .ok left ∧
      buildGlob domain = .ok right ∧ ∀ host, glob host = true ↔ ∃ s d t, host = s ++ d :: t ∧
        left s = true ∧ sameLetter '.' d = true ∧ right t = true

variable (lib : Libraries) {candidate : Text} {candidates : List Text}

def trimDots (s : Text) : Text := s.rdropWhile (· == '.')

def normalizeIpLiteral (host : Text) : Option Text :=
  if (lib.parseIpAddr host).isSome then some host
  else ["%25".toList, "%".toList].findSome? fun delimiter =>
    match Framing.cutAt delimiter host with
    | some (ip, scope) => if (lib.parseIpAddr ip).isSome then some (ip ++ '%' :: scope) else none
    | none => none

def normalizeDnsHostOrIpLiteral (host : Text) : Text :=
  let host := trimDots (host.map Char.toLower)
  (normalizeIpLiteral lib host).getD host

def normalizeHost (host : Text) : Text :=
  let host := Text.trim host
  if host.head? = some '[' ∧ ']' ∈ host then
    normalizeDnsHostOrIpLiteral lib (host.tail.takeWhile (· != ']'))
  -- a port, but not an IPv6 address without brackets
  else if host.count ':' = 1 then normalizeDnsHostOrIpLiteral lib (host.takeWhile (· != ':'))
  else normalizeDnsHostOrIpLiteral lib host

def normalizePattern (pattern : Text) : Text :=
  let pattern := Text.trim pattern
  if pattern = ['*'] then ['*']
  else
    match Text.stripPrefix "**.".toList pattern with
    | some domain => "**.".toList ++ normalizeHost lib domain
    | none =>
      match Text.stripPrefix "*.".toList pattern with
      | some domain => "*.".toList ++ normalizeHost lib domain
      | none => normalizeHost lib pattern

inductive DomainPattern where
  | apexAndSubdomains (domain : Text)
  | subdomainsOnly (domain : Text)
  | exact (domain : Text)
deriving DecidableEq

def normalizeDomain (domain : Text) : Text := (trimDots domain).map Char.toLower

def domainEq (left right : Text) : Bool := normalizeDomain left == normalizeDomain right

def isSubdomainOrEqual (child parent : Text) : Bool :=
  let child := normalizeDomain child
  let parent := normalizeDomain parent
  child == parent || ('.' :: parent).isSuffixOf child

def isStrictSubdomain (child parent : Text) : Bool :=
  let child := normalizeDomain child
  let parent := normalizeDomain parent
  child != parent && ('.' :: parent).isSuffixOf child

def parseDomainForConstraints (domain : Text) : Text :=
  let domain := trimDots (Text.trim domain)
  if domain.isEmpty then []
  else
    let host :=
      if domain.head? = some '[' ∧ domain.getLast? = some ']' then domain.tail.dropLast else domain
    if '*' ∈ host ∨ '?' ∈ host ∨ '%' ∈ host then domain
    else (lib.parseUrlHost host).getD []

namespace DomainPattern

def parseDomain (domain : Text) (build : Text → DomainPattern) : DomainPattern :=
  let domain := Text.trim domain
  if domain.isEmpty then .exact [] else build domain

def parse (input : Text) : DomainPattern :=
  let input := Text.trim input
  if input.isEmpty then .exact []
  else
    match Text.stripPrefix "**.".toList input with
    | some domain => parseDomain domain .apexAndSubdomains
    | none =>
      match Text.stripPrefix "*.".toList input with
      | some domain => parseDomain domain .subdomainsOnly
      | none => .exact input

def parseForConstraints (input : Text) : DomainPattern :=
  let input := Text.trim input
  if input.isEmpty then .exact []
  else
    match Text.stripPrefix "**.".toList input with
    | some domain => .apexAndSubdomains (parseDomainForConstraints lib domain)
    | none =>
      match Text.stripPrefix "*.".toList input with
      | some domain => .subdomainsOnly (parseDomainForConstraints lib domain)
      | none => .exact (parseDomainForConstraints lib input)

def allows : DomainPattern → DomainPattern → Bool
  | exact domain, exact candidate => domainEq candidate domain
  | exact _, _ => false
  | subdomainsOnly domain, exact candidate => isStrictSubdomain candidate domain
  | subdomainsOnly domain, subdomainsOnly candidate => isSubdomainOrEqual candidate domain
  | subdomainsOnly domain, apexAndSubdomains candidate => isStrictSubdomain candidate domain
  | apexAndSubdomains domain, exact candidate => isSubdomainOrEqual candidate domain
  | apexAndSubdomains domain, subdomainsOnly candidate => isSubdomainOrEqual candidate domain
  | apexAndSubdomains domain, apexAndSubdomains candidate => isSubdomainOrEqual candidate domain

def globs : DomainPattern → List Text
  | exact domain => [domain]
  | subdomainsOnly domain => ["?*.".toList ++ domain]
  | apexAndSubdomains domain => [domain, "?*.".toList ++ domain]

end DomainPattern

def expandDomainPattern (pattern : Text) : List Text := (DomainPattern.parse pattern).globs

def isGlobalWildcardDomainPattern (pattern : Text) : Bool :=
  (expandDomainPattern (normalizePattern lib pattern)).any (· == ['*'])

inductive GlobalWildcard where
  | allow
  | reject
deriving DecidableEq

structure GlobSet where
  globs : List (Text → Bool) := []

def GlobSet.isMatch (set : GlobSet) (host : Text) : Bool := set.globs.any (· host)

inductive CompileError where
  | globalWildcard
  | invalidGlob (candidate cause : Text)
deriving DecidableEq

def CompileError.message : CompileError → Text
  | globalWildcard =>
    ("unsupported global wildcard domain pattern \"*\"; use exact hosts or scoped wildcards like " ++
      "*.example.com or **.example.com").toList
  | invalidGlob candidate _ => "invalid glob pattern: ".toList ++ candidate

structure GlobSetBuilder where
  set : GlobSet := {}
  seen : List Text := []

def addCandidate (b : GlobSetBuilder) (candidate : Text) : Except CompileError GlobSetBuilder :=
  if candidate ∈ b.seen then .ok b
  else do
    let glob ← (lib.buildGlob candidate).mapError (CompileError.invalidGlob candidate)
    return { set := ⟨b.set.globs ++ [glob]⟩, seen := candidate :: b.seen }

def addPattern (globalWildcard : GlobalWildcard) (b : GlobSetBuilder) (pattern : Text) :
    Except CompileError GlobSetBuilder :=
  if globalWildcard = .reject ∧ isGlobalWildcardDomainPattern lib pattern then .error .globalWildcard
  else (expandDomainPattern (normalizePattern lib pattern)).foldlM (addCandidate lib) b

def compileGlobsetWithPolicy (patterns : List Text) (globalWildcard : GlobalWildcard) :
    Except CompileError GlobSet := do
  let b ← patterns.foldlM (addPattern lib globalWildcard) {}
  return b.set

def compileAllowlistGlobset (patterns : List Text) : Except CompileError GlobSet :=
  compileGlobsetWithPolicy lib patterns .allow

def compileDenylistGlobset (patterns : List Text) : Except CompileError GlobSet :=
  compileGlobsetWithPolicy lib patterns .reject

def MatchedBy (candidates : List Text) (host : Text) : Prop :=
  ∃ candidate ∈ candidates, ∃ glob, lib.buildGlob candidate = .ok glob ∧ glob host = true

structure Built (candidates : List Text) (b : GlobSetBuilder) : Prop where
  seen : ∀ candidate, candidate ∈ b.seen ↔ candidate ∈ candidates
  builds : ∀ candidate ∈ candidates, ∃ glob, lib.buildGlob candidate = .ok glob
  isMatch : ∀ host, b.set.isMatch host = true ↔ MatchedBy lib candidates host

variable {lib}

theorem matchedBy_append {candidates candidates' : List Text} {host : Text} :
    MatchedBy lib (candidates ++ candidates') host ↔
      MatchedBy lib candidates host ∨ MatchedBy lib candidates' host := by
  unfold MatchedBy
  simp only [mem_append, or_and_right, exists_or]

theorem matchedBy_singleton {glob : Text → Bool} (h : lib.buildGlob candidate = .ok glob) {host : Text} :
    MatchedBy lib [candidate] host ↔ glob host = true := by
  constructor
  · rintro ⟨_, hmem, glob', hglob', hmt⟩
    rw [mem_singleton.mp hmem, h] at hglob'
    cases hglob'
    exact hmt
  · intro hmt
    exact ⟨candidate, mem_singleton_self _, glob, h, hmt⟩

theorem matchedBy_plain (h : PlainGlob candidate) {host : Text} : MatchedBy lib [candidate] host ↔
    Wildcard.accepts lib.sameLetter (candidate.map globToken) host = true :=
  matchedBy_singleton (lib.buildGlob_plain candidate h)

theorem Built.addCandidate {b b' : GlobSetBuilder} (h : Built lib candidates b)
    (hadd : addCandidate lib b candidate = .ok b') : Built lib (candidates ++ [candidate]) b' := by
  unfold NetworkProxy.addCandidate at hadd
  split at hadd
  · next hseen =>
    cases hadd
    have hmem : candidate ∈ candidates := (h.seen candidate).mp hseen
    constructor
    · intro other
      rw [h.seen, mem_append, mem_singleton]
      constructor
      · exact .inl
      · rintro (hoth | rfl)
        · exact hoth
        · exact hmem
    · exact forall_mem_append.mpr ⟨h.builds, forall_mem_singleton.mpr (h.builds candidate hmem)⟩
    · intro host
      rw [h.isMatch, matchedBy_append]
      constructor
      · exact .inl
      · rintro (hmt | ⟨_, hoth, hglob⟩)
        · exact hmt
        · rw [mem_singleton.mp hoth] at hglob
          exact ⟨candidate, hmem, hglob⟩
  · obtain ⟨glob, hglob, hb'⟩ := Fallible.bind_eq_ok hadd
    cases hb'
    have hbuild := Fallible.mapError_eq_ok hglob
    constructor
    · intro other
      rw [mem_cons, h.seen, mem_append, mem_singleton, or_comm]
    · exact forall_mem_append.mpr ⟨h.builds, forall_mem_singleton.mpr ⟨glob, hbuild⟩⟩
    · intro host
      rw [matchedBy_append, ← h.isMatch, matchedBy_singleton hbuild]
      simp [GlobSet.isMatch, any_append]

variable {globalWildcard : GlobalWildcard}

theorem Built.addPattern {b b' : GlobSetBuilder} (h : Built lib candidates b) {pattern : Text}
    (hadd : addPattern lib globalWildcard b pattern = .ok b') :
    Built lib (candidates ++ expandDomainPattern (normalizePattern lib pattern)) b' := by
  unfold NetworkProxy.addPattern at hadd
  split at hadd
  · cases hadd
  · refine Fallible.foldlM_invariant (fun done b => Built lib (candidates ++ done) b) _ ?_ ?_ hadd
    · intro done candidate todo s s' _ hs hst
      rw [← append_assoc]
      exact hs.addCandidate hst
    · rw [append_nil]
      exact h

section
variable {patterns : List Text} {set : GlobSet} (h : compileGlobsetWithPolicy lib patterns globalWildcard = .ok set)
include h

theorem built_of_compile : ∃ b, b.set = set ∧
    Built lib (patterns.flatMap fun pattern => expandDomainPattern (normalizePattern lib pattern)) b := by
  obtain ⟨b, hb, hset⟩ := Fallible.bind_eq_ok h
  cases hset
  refine ⟨b, rfl, Fallible.foldlM_invariant
    (fun done b => Built lib
      (done.flatMap fun pattern => expandDomainPattern (normalizePattern lib pattern)) b) _ ?_ ?_ hb⟩
  · intro done pattern todo s s' _ hs hst
    rw [flatMap_append, flatMap_singleton]
    exact hs.addPattern hst
  · exact ⟨fun _ => Iff.rfl, fun _ hmem => absurd hmem not_mem_nil, fun host =>
      ⟨fun hmt => absurd hmt Bool.false_ne_true, fun ⟨_, hmem, _⟩ => absurd hmem not_mem_nil⟩⟩

theorem builds_of_compile {pattern : Text} (hpattern : pattern ∈ patterns) :
    ∀ candidate ∈ expandDomainPattern (normalizePattern lib pattern), ∃ glob, lib.buildGlob candidate = .ok glob := by
  obtain ⟨b, -, hbuilt⟩ := built_of_compile h
  exact fun candidate hcandidate => hbuilt.builds candidate (mem_flatMap.mpr ⟨pattern, hpattern, hcandidate⟩)

theorem isMatch_compile (host : Text) : set.isMatch host = true ↔
    ∃ pattern ∈ patterns, MatchedBy lib (expandDomainPattern (normalizePattern lib pattern)) host := by
  obtain ⟨b, rfl, hbuilt⟩ := built_of_compile h
  rw [hbuilt.isMatch]
  constructor
  · rintro ⟨candidate, hmem, hglob⟩
    obtain ⟨pattern, hpat, hcand⟩ := mem_flatMap.mp hmem
    exact ⟨pattern, hpat, candidate, hcand, hglob⟩
  · rintro ⟨pattern, hpat, candidate, hcand, hglob⟩
    exact ⟨candidate, mem_flatMap.mpr ⟨pattern, hpat, hcand⟩, hglob⟩

end

end NetworkProxy
