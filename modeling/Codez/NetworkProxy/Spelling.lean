import Codez.NetworkProxy.Allowlist

/-!
The decision for a host (`host_blocked` of `network-proxy/src/runtime.rs`), and how an address is spelled.
-/

namespace NetworkProxy

open List

def ipv4InCidr (ip base : BitVec 32) (bits : Nat) : Bool :=
  let mask := BitVec.allOnes 32 <<< (32 - bits)
  ip &&& mask == base &&& mask

def nonPublicIpv4 : List (BitVec 32 × Nat) :=
  [(0x7f000000, 8), (0x0a000000, 8), (0xac100000, 12), (0xc0a80000, 16), (0xa9fe0000, 16), (0, 32), (0xe0000000, 4),
    (0xffffffff, 32), (0, 8), (0x64400000, 10), (0xc0000000, 24), (0xc0000200, 24), (0xc6120000, 15),
    (0xc6336400, 24), (0xcb007100, 24), (0xf0000000, 4)]

def isNonPublicIpv4 (ip : BitVec 32) : Bool := nonPublicIpv4.any fun (base, bits) => ipv4InCidr ip base bits

def IpAddr.isLoopback : IpAddr → Bool
  | v4 ip => ipv4InCidr ip 0x7f000000 8
  | v6 ip => ip == 1

def toIpv4 (ip : BitVec 128) : Option (BitVec 32) :=
  if ip >>> 32 = 0 ∨ ip >>> 32 = 0xffff then some (ip.truncate 32) else none

def isNonPublicIpv6 (ip : BitVec 128) : Bool :=
  match toIpv4 ip with
  | some v4 => isNonPublicIpv4 v4 || ip == 1
  | none => ip == 1 || ip == 0 || ip >>> 120 == 0xff || ip >>> 121 == 0x7e || ip >>> 118 == 0x3fa

def isNonPublicIp : IpAddr → Bool
  | .v4 ip => isNonPublicIpv4 ip
  | .v6 ip => isNonPublicIpv6 ip

variable (lib : Libraries) {s : Text}

def Host.parse (input : Text) : Option Text :=
  let normalized := normalizeHost lib input
  if normalized = [] then none else some normalized

def unscopedIpLiteral (host : Text) : Option Text :=
  match Framing.cutAt ['%'] host with
  | some (ip, _) => if (lib.parseIpAddr ip).isSome then some ip else none
  | none => none

def isLoopbackHost (host : Text) : Bool :=
  let host := (unscopedIpLiteral lib host).getD host
  if host = "localhost".toList then true else (lib.parseIpAddr host).any IpAddr.isLoopback

def globsetMatchesHostOrUnscoped (set : GlobSet) (host : Text) : Bool :=
  set.isMatch host || (unscopedIpLiteral lib host).any set.isMatch

def namesHost (host pattern : Text) : Bool :=
  let pattern := Text.trim pattern
  if pattern = ['*'] ∨ "*.".toList <+: pattern ∨ "**.".toList <+: pattern then false
  else if '*' ∈ pattern ∨ '?' ∈ pattern then false
  else
    let normalizedPattern := normalizeHost lib pattern
    normalizedPattern == host || (unscopedIpLiteral lib host).any (normalizedPattern == ·)

def isExplicitLocalAllowlisted (allowedDomains : List Text) (host : Text) : Bool :=
  allowedDomains.any (namesHost lib host)

/-- `lookup` is `none` when the lookup fails or takes too long. -/
def hostResolvesToNonPublicIp (host : Text) (port : Nat) (lookup : Text → Nat → Option (List IpAddr)) : Bool :=
  match lib.parseIpAddr host with
  | some ip => isNonPublicIp ip
  | none =>
    match lookup host port with
    | none => true
    | some addrs => addrs.any isNonPublicIp

inductive HostBlockReason where
  | denied
  | notAllowed
  | notAllowedLocal
deriving DecidableEq

inductive HostBlockDecision where
  | allowed
  | blocked (reason : HostBlockReason)
deriving DecidableEq

/-- The part of `host_blocked` behind the reload.  There is an allowlist unless it is empty. -/
def hostBlocked (allowedDomains : List Text) (allowSet denySet : GlobSet) (allowLocalBinding : Bool)
    (lookup : Text → Nat → Option (List IpAddr)) (host : Text) (port : Nat) : HostBlockDecision :=
  match Host.parse lib host with
  | none => .blocked .notAllowed
  | some host =>
    if globsetMatchesHostOrUnscoped lib denySet host then .blocked .denied
    else
      let isAllowlisted := globsetMatchesHostOrUnscoped lib allowSet host
      let localLiteral := isLoopbackHost lib host ||
        (lib.parseIpAddr ((unscopedIpLiteral lib host).getD host)).any isNonPublicIp
      if !allowLocalBinding && (if localLiteral then !isExplicitLocalAllowlisted lib allowedDomains host
          else hostResolvesToNonPublicIp lib host port lookup) then
        .blocked .notAllowedLocal
      else if allowedDomains.isEmpty || !isAllowlisted then .blocked .notAllowed
      else .allowed

def decideHost (allowedDomains deniedDomains : List Text) (allowLocalBinding : Bool)
    (lookup : Text → Nat → Option (List IpAddr)) (host : Text) (port : Nat) :
    Except CompileError HostBlockDecision := do
  let allowSet ← compileAllowlistGlobset lib allowedDomains
  let denySet ← compileDenylistGlobset lib deniedDomains
  return hostBlocked lib allowedDomains allowSet denySet allowLocalBinding lookup host port

def addressChars : Text :=
  ['0', '1', '2', '3', '4', '5', '6', '7', '8', '9', 'a', 'b', 'c',
    'd', 'e', 'f', 'A', 'B', 'C', 'D', 'E', 'F', ':', '.']

/-- What is known of `str::parse::<IpAddr>`, where an address of IPv4 has one spelling, and of letters that are equal
up to case. -/
structure StdParser : Prop where
  chars : ∀ s ip, lib.parseIpAddr s = some ip → ∀ c ∈ s, c ∈ addressChars
  last : ∀ s ip, lib.parseIpAddr s = some ip → ∃ c, s.getLast? = some c ∧ c ≠ '.'
  colons : ∀ s ip, lib.parseIpAddr s = some ip → s.count ':' ≠ 1
  v4 : ∀ s t bits, lib.parseIpAddr s = some (.v4 bits) → lib.parseIpAddr t = some (.v4 bits) → s = t
  sameLetter : ∀ c ∈ addressChars, ∀ d ∈ addressChars, lib.sameLetter c d = (c.toLower == d.toLower)

variable {lib} {a b : Text} {ip : IpAddr}

theorem not_mem_of_chars (hs : ∀ c ∈ s, c ∈ addressChars) {c : Char} (hc : c ∉ addressChars) : c ∉ s :=
  fun hmem => hc (hs c hmem)

theorem trim_of_chars (hs : ∀ c ∈ s, c ∈ addressChars) : Text.trim s = s := by
  have hall : ∀ c ∈ addressChars, Text.isWhitespace c = false :=
    forall_iff_forall_mem.mp (by decide +kernel)
  exact Text.trim_eq_self fun c hc => hall c (hs c hc)

theorem head?_ne_of_chars (hs : ∀ c ∈ s, c ∈ addressChars) {c : Char} (hc : c ∉ addressChars) :
    s.head? ≠ some c := fun h => not_mem_of_chars hs hc (mem_of_head? h)

theorem stripPrefix_of_chars (hs : ∀ c ∈ s, c ∈ addressChars) :
    Text.stripPrefix "**.".toList s = none ∧ Text.stripPrefix "*.".toList s = none :=
  ⟨Text.stripPrefix_eq_none (head?_ne_of_chars hs (by decide)),
    Text.stripPrefix_eq_none (head?_ne_of_chars hs (by decide))⟩

section
variable (hstd : StdParser lib) (ha : lib.parseIpAddr a = some ip)

include hstd ha

theorem lower_literal {c : Char} (hc : c ∈ a.map Char.toLower) : c ∈ addressChars ∧ c.toLower = c := by
  obtain ⟨d, hd, rfl⟩ := mem_map.mp hc
  have hall : ∀ d ∈ addressChars, d.toLower ∈ addressChars ∧ d.toLower.toLower = d.toLower :=
    forall_iff_forall_mem.mp (by decide +kernel)
  exact hall d (hstd.chars a ip ha d hd)

theorem lower_literal_ne_nil : a.map Char.toLower ≠ [] := by
  obtain ⟨c, hlast, -⟩ := hstd.last a ip ha
  rintro hnil
  rw [map_eq_nil_iff.mp hnil] at hlast
  cases hlast

theorem cutAt_literal (sep : Text) : Framing.cutAt ('%' :: sep) (a.map Char.toLower) = none := by
  have hmem : '%' ∉ a.map Char.toLower := fun h => absurd (lower_literal hstd ha h).1 (by decide)
  have hcut := Framing.cutAt_append_of_not_mem '%' sep _ [] hmem
  rwa [append_nil] at hcut

/-- Only the case of an address is normalized. -/
theorem normalizeHost_literal : normalizeHost lib a = a.map Char.toLower := by
  have hchars := hstd.chars a ip ha
  have hdots : trimDots (a.map Char.toLower) = a.map Char.toLower := by
    obtain ⟨c, hlast, hc⟩ := hstd.last a ip ha
    obtain ⟨front, rfl⟩ := getLast?_eq_some_iff.mp hlast
    have hall : ∀ c ∈ addressChars, c.toLower = '.' → c = '.' :=
      forall_iff_forall_mem.mp (by decide +kernel)
    rw [trimDots, map_append, map_singleton, rdropWhile_concat_neg]
    exact fun h => hc (hall c (hchars c (by simp)) (beq_iff_eq.mp h))
  rw [normalizeHost, trim_of_chars hchars, if_neg (fun h => head?_ne_of_chars hchars (by decide) h.1),
    if_neg (hstd.colons a ip ha), normalizeDnsHostOrIpLiteral, hdots, normalizeIpLiteral]
  split
  · rfl
  · simp [cutAt_literal hstd ha]

theorem normalizePattern_literal : normalizePattern lib a = a.map Char.toLower := by
  have hchars := hstd.chars a ip ha
  rw [normalizePattern, trim_of_chars hchars, if_neg (by rintro rfl; exact head?_ne_of_chars hchars (by decide) rfl)]
  simp only [stripPrefix_of_chars hchars, normalizeHost_literal hstd ha]

theorem namesHost_literal (host : Text) : namesHost lib host a =
    (a.map Char.toLower == host || (unscopedIpLiteral lib host).any (a.map Char.toLower == ·)) := by
  have hchars := hstd.chars a ip ha
  have hstar : '*' ∉ a := not_mem_of_chars hchars (by decide)
  have hquery : '?' ∉ a := not_mem_of_chars hchars (by decide)
  rw [namesHost, trim_of_chars hchars, if_neg, if_neg (by tauto), normalizeHost_literal hstd ha]
  rintro (rfl | hstart | hstart)
  · exact hstar mem_cons_self
  · exact hstar (hstart.subset (by decide))
  · exact hstar (hstart.subset (by decide))

theorem expandDomainPattern_literal : expandDomainPattern (normalizePattern lib a) = [a.map Char.toLower] := by
  have hchars : ∀ c ∈ a.map Char.toLower, c ∈ addressChars := fun c hc => (lower_literal hstd ha hc).1
  rw [normalizePattern_literal hstd ha, expandDomainPattern, DomainPattern.parse, trim_of_chars hchars]
  rw [if_neg (by simpa using lower_literal_ne_nil hstd ha)]
  simp only [stripPrefix_of_chars hchars]
  rfl

theorem plainGlob_literal : PlainGlob (a.map Char.toLower) := by
  have hall : ∀ c ∈ addressChars, c ∉ ['[', ']', '\x7b', '\x7d', '\\'] ∧ c ≠ '*' :=
    forall_iff_forall_mem.mp (by decide +kernel)
  refine ⟨fun c hc => (hall c (lower_literal hstd ha hc).1).1, fun hin => ?_⟩
  exact (hall '*' (lower_literal hstd ha (hin.subset mem_cons_self)).1).2 rfl

/-- The entry of an address matches what is equal to it up to case. -/
theorem matchedBy_literal (hb : lib.parseIpAddr b = some ip) :
    MatchedBy lib (expandDomainPattern (normalizePattern lib a)) (b.map Char.toLower) ↔
      a.map Char.toLower = b.map Char.toLower := by
  have hletters : (a.map Char.toLower).map globToken = (a.map Char.toLower).map .letter := by
    have hall : ∀ c ∈ addressChars, globToken c = .letter c :=
      forall_iff_forall_mem.mp (by decide +kernel)
    exact map_congr_left fun c hc => hall c (lower_literal hstd ha hc).1
  have hsame : ∀ c ∈ a.map Char.toLower, ∀ d ∈ b.map Char.toLower, lib.sameLetter c d = true ↔ c = d := by
    intro c hc d hd
    obtain ⟨hc, hlc⟩ := lower_literal hstd ha hc
    obtain ⟨hd, hld⟩ := lower_literal hstd hb hd
    rw [hstd.sameLetter c hc d hd, beq_iff_eq, hlc, hld]
  rw [expandDomainPattern_literal hstd ha, matchedBy_plain (plainGlob_literal hstd ha), hletters,
    Wildcard.accepts_letters hsame]

end

theorem addPattern_congr (h : normalizePattern lib a = normalizePattern lib b)
    (w : GlobalWildcard) (s : GlobSetBuilder) :
    addPattern lib w s a = addPattern lib w s b := by
  rw [addPattern, addPattern, isGlobalWildcardDomainPattern, isGlobalWildcardDomainPattern, h]

theorem compileGlobset_congr (h : normalizePattern lib a = normalizePattern lib b)
    (l r : List Text) (w : GlobalWildcard) :
    compileGlobsetWithPolicy lib (l ++ a :: r) w = compileGlobsetWithPolicy lib (l ++ b :: r) w := by
  simp only [compileGlobsetWithPolicy, foldlM_append, foldlM_cons, addPattern_congr h]

/-- The decision is the same for `a` and for `b`, as the host and as an entry of either list. -/
def Interchangeable (lib : Libraries) (a b : Text) : Prop :=
  (∀ allowed denied allowLocal lookup port,
    decideHost lib allowed denied allowLocal lookup a port = decideHost lib allowed denied allowLocal lookup b port) ∧
  ∀ l r others allowLocal lookup host port,
    decideHost lib (l ++ a :: r) others allowLocal lookup host port =
      decideHost lib (l ++ b :: r) others allowLocal lookup host port ∧
    decideHost lib others (l ++ a :: r) allowLocal lookup host port =
      decideHost lib others (l ++ b :: r) allowLocal lookup host port

theorem decideHost_congr (hstd : StdParser lib) (ha : lib.parseIpAddr a = some ip) (hb : lib.parseIpAddr b = some ip)
    (hsame : a.map Char.toLower = b.map Char.toLower) : Interchangeable lib a b := by
  have hn : normalizeHost lib a = normalizeHost lib b := by
    rw [normalizeHost_literal hstd ha, normalizeHost_literal hstd hb, hsame]
  have hpattern : normalizePattern lib a = normalizePattern lib b := by
    rw [normalizePattern_literal hstd ha, normalizePattern_literal hstd hb, hsame]
  refine ⟨fun allowed denied allowLocal lookup port => ?_, fun l r others allowLocal lookup host port => ⟨?_, ?_⟩⟩
  · simp only [decideHost, hostBlocked, Host.parse, hn]
  · have hnames : ∀ host, isExplicitLocalAllowlisted lib (l ++ a :: r) host =
        isExplicitLocalAllowlisted lib (l ++ b :: r) host := by
      intro host
      simp only [isExplicitLocalAllowlisted, any_append, any_cons, namesHost_literal hstd ha, namesHost_literal hstd hb,
        hsame]
    simp only [decideHost, compileAllowlistGlobset, compileGlobset_congr hpattern, hostBlocked, hnames]
    simp
  · simp only [decideHost, compileDenylistGlobset, compileGlobset_congr hpattern]

theorem compileGlobset_singleton {pattern candidate : Text} {glob : Text → Bool} {w : GlobalWildcard}
    (hexpand : expandDomainPattern (normalizePattern lib pattern) = [candidate])
    (hglob : lib.buildGlob candidate = .ok glob) (hw : w = .reject → candidate ≠ ['*']) :
    compileGlobsetWithPolicy lib [pattern] w = .ok ⟨[glob]⟩ := by
  have hallowed : ¬(w = .reject ∧ isGlobalWildcardDomainPattern lib pattern = true) := by
    rintro ⟨hreject, hwild⟩
    rw [isGlobalWildcardDomainPattern, hexpand, any_cons, any_nil, Bool.or_false, beq_iff_eq] at hwild
    exact hw hreject hwild
  simp only [compileGlobsetWithPolicy, foldlM_cons, foldlM_nil,
    addPattern, if_neg hallowed, hexpand, addCandidate, hglob]
  rfl

/-- With every host allowed and one address denied, the addresses that are denied are those equal to it up to case. -/
theorem decideHost_denied (hstd : StdParser lib) (ha : lib.parseIpAddr a = some ip) (hb : lib.parseIpAddr b = some ip)
    (lookup : Text → Nat → Option (List IpAddr)) (port : Nat) :
    decideHost lib ["*".toList] [a] true lookup b port =
      .ok (if a.map Char.toLower = b.map Char.toLower then .blocked .denied else .allowed) := by
  obtain ⟨denySet, hdeny⟩ : ∃ denySet, compileDenylistGlobset lib [a] = .ok denySet := by
    refine ⟨_, compileGlobset_singleton (expandDomainPattern_literal hstd ha)
      (lib.buildGlob_plain _ (plainGlob_literal hstd ha)) fun _ hstar => ?_⟩
    exact absurd (lower_literal hstd ha (by rw [hstar]; exact mem_cons_self)).1 (by decide)
  have hall : PlainGlob ['*'] := by decide
  have hallow : compileAllowlistGlobset lib ["*".toList] = .ok ⟨[Wildcard.accepts lib.sameLetter [.run]]⟩ :=
    compileGlobset_singleton rfl (lib.buildGlob_plain _ hall) (by rintro ⟨⟩)
  have hevery : GlobSet.isMatch ⟨[Wildcard.accepts lib.sameLetter [.run]]⟩ (b.map Char.toLower) = true := by
    rw [GlobSet.isMatch, any_cons, any_nil, Bool.or_false]
    exact Wildcard.accepts_run_iff.mpr ⟨_, [], (append_nil _).symm, rfl⟩
  have hmatch := (isMatch_compile hdeny (b.map Char.toLower)).trans (by simpa using matchedBy_literal hstd ha hb)
  have hunscoped : unscopedIpLiteral lib (b.map Char.toLower) = none := by
    rw [unscopedIpLiteral, cutAt_literal hstd hb]
  simp only [decideHost, hallow, hdeny, hostBlocked, Host.parse, normalizeHost_literal hstd hb,
    if_neg (lower_literal_ne_nil hstd hb), globsetMatchesHostOrUnscoped, hunscoped]
  refine congrArg Except.ok ?_
  simp [hmatch, hevery]

def threeSpellings : List Text := [[':', ':', 'a'], [':', ':', 'A'], [':', ':', '0', 'a']]

def spellingLibraries : Libraries :=
  { asciiLibraries with
    parseIpAddr := fun s => if s ∈ threeSpellings then some (.v6 10) else none }

theorem mem_threeSpellings {ip : IpAddr} (h : spellingLibraries.parseIpAddr s = some ip) :
    s ∈ threeSpellings ∧ ip = .v6 10 := by
  simp only [spellingLibraries] at h
  split at h
  · next hmem => exact ⟨hmem, (Option.some.inj h).symm⟩
  · cases h

theorem stdParser_spellingLibraries : StdParser spellingLibraries where
  chars s ip h := by
    have hchars := (forall_iff_forall_mem.mp (by decide +kernel) :
      ∀ s ∈ threeSpellings, (s.all fun c => decide (c ∈ addressChars)) = true) s (mem_threeSpellings h).1
    simpa using hchars
  last s ip h := by
    have hlast := (forall_iff_forall_mem.mp (by decide +kernel) :
      ∀ s ∈ threeSpellings, s.getLast?.any (· != '.') = true) s (mem_threeSpellings h).1
    simpa [Option.any_eq_true] using hlast
  colons s ip h := (forall_iff_forall_mem.mp (by decide +kernel) :
    ∀ s ∈ threeSpellings, s.count ':' ≠ 1) s (mem_threeSpellings h).1
  v4 s t bits h _ := by cases (mem_threeSpellings h).2
  sameLetter _ _ _ _ := rfl

end NetworkProxy
