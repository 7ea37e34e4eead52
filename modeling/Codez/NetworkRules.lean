import Codez.ExecPolicy
import Codez.Lib.Fallible
import Codez.Lib.Framing

/-!
Network rules of the exec policy (`codex-execpolicy`, `append_network_rule_and_update`).
-/

namespace ExecPolicy

open List

inductive RuleError where
  | invalidRule (message : Text)
  | invalidDecision (raw : Text)
deriving DecidableEq

def isPort (port : Text) : Bool := !port.isEmpty && port.all Char.isDigit

def bareHost (raw host : Text) : Except RuleError Text :=
  if host.head? = some '[' then
    match Framing.cutAt [']'] host.tail with
    | none => .error (.invalidRule "network_rule host has an invalid bracketed IPv6 literal".toList)
    | some (inside, rest) =>
      if rest ≠ [] ∧ ¬(rest.head? = some ':' ∧ isPort rest.tail) then
        .error (.invalidRule ("network_rule host contains an unsupported suffix: ".toList ++ raw))
      else .ok inside
  else if host.count ':' = 1 ∧ host.head? ≠ some ':' ∧ isPort (host.dropWhile (· != ':')).tail then
    .ok (host.takeWhile (· != ':'))
  else .ok host

def normalizeNetworkRuleHost (raw : Text) : Except RuleError Text := do
  let host := Text.trim raw
  if host = [] then .error (.invalidRule "network_rule host cannot be empty".toList)
  else if "://".toList <:+: host ∨ '/' ∈ host ∨ '?' ∈ host ∨ '#' ∈ host then
    .error (.invalidRule
      "network_rule host must be a hostname or IP literal (without scheme or path)".toList)
  else
    let host ← bareHost raw host
    let normalized := (Text.trim (host.rdropWhile (· == '.'))).map Char.toLower
    if normalized = [] then .error (.invalidRule "network_rule host cannot be empty".toList)
    else if '*' ∈ normalized then
      .error (.invalidRule "network_rule host must be a specific host; wildcards are not allowed".toList)
    else if normalized.any Text.isWhitespace then
      .error (.invalidRule "network_rule host cannot contain whitespace".toList)
    else .ok normalized

inductive NetworkRuleProtocol where
  | http
  | https
  | socks5Tcp
  | socks5Udp
deriving DecidableEq

def NetworkRuleProtocol.parse (raw : Text) : Except RuleError NetworkRuleProtocol :=
  if raw = "http".toList then .ok .http
  else if raw ∈ ["https".toList, "https_connect".toList, "http-connect".toList] then .ok .https
  else if raw = "socks5_tcp".toList then .ok .socks5Tcp
  else if raw = "socks5_udp".toList then .ok .socks5Udp
  else .error (.invalidRule
    ("network_rule protocol must be one of http, https, socks5_tcp, socks5_udp (got ".toList ++ raw ++ [')']))

def NetworkRuleProtocol.asPolicyString : NetworkRuleProtocol → Text
  | http => "http".toList
  | https => "https".toList
  | socks5Tcp => "socks5_tcp".toList
  | socks5Udp => "socks5_udp".toList

def Decision.parse (raw : Text) : Except RuleError Decision :=
  if raw = "allow".toList then .ok .allow
  else if raw = "prompt".toList then .ok .prompt
  else if raw = "forbidden".toList then .ok .forbidden
  else .error (.invalidDecision raw)

def parseNetworkRuleDecision (raw : Text) : Except RuleError Decision :=
  if raw = "deny".toList then .ok .forbidden else Decision.parse raw

def Decision.networkRuleText : Decision → Text
  | allow => "allow".toList
  | prompt => "prompt".toList
  | forbidden => "deny".toList

structure NetworkRule where
  host : Text
  protocol : NetworkRuleProtocol
  decision : Decision
  justification : Option Text
deriving DecidableEq

def checkJustification (justification : Option Text) : Except RuleError Unit :=
  if justification.any fun raw => (Text.trim raw).isEmpty then
    .error (.invalidRule "justification cannot be empty".toList)
  else .ok ()

structure NetworkRuleLine where
  host : Text
  protocol : Text
  decision : Text
  justification : Option Text
deriving DecidableEq

def networkRuleLine (host : Text) (protocol : NetworkRuleProtocol) (decision : Decision) (justification : Option Text) :
    Except RuleError NetworkRuleLine := do
  let host ← normalizeNetworkRuleHost host
  checkJustification justification
  return { host, protocol := protocol.asPolicyString, decision := decision.networkRuleText, justification }

def addNetworkRule (rules : List NetworkRule) (host : Text) (protocol : NetworkRuleProtocol) (decision : Decision)
    (justification : Option Text) : Except RuleError (List NetworkRule) := do
  let host ← normalizeNetworkRuleHost host
  checkJustification justification
  return rules ++ [⟨host, protocol, decision, justification⟩]

def networkRule (line : NetworkRuleLine) : Except RuleError NetworkRule := do
  let protocol ← NetworkRuleProtocol.parse line.protocol
  let decision ← parseNetworkRuleDecision line.decision
  checkJustification line.justification
  let host ← normalizeNetworkRuleHost line.host
  return { host, protocol, decision, justification := line.justification }

def appendNetworkRuleAndUpdate (append : NetworkRuleLine → Except RuleError Unit)
    (rules : List NetworkRule) (host : Text)
    (protocol : NetworkRuleProtocol) (decision : Decision) (justification : Option Text) :
    Except RuleError (List NetworkRule × NetworkRuleLine) := do
  let line ← networkRuleLine host protocol decision justification
  append line
  return (← addNetworkRule rules host protocol decision justification, line)

/-- No bracket, no port and no dot is left to take away. -/
def Settled (h : Text) : Prop :=
  h.head? ≠ some '[' ∧ h.getLast? ≠ some '.' ∧
    ¬(h.count ':' = 1 ∧ h.head? ≠ some ':' ∧ isPort (h.dropWhile (· != ':')).tail = true)

variable {raw host h : Text}

theorem bareHost_eq_ok (hbare : bareHost raw host = .ok h) : h <+ host ∧ (h.length < host.length ∨ h = host ∧
    host.head? ≠ some '[' ∧
    ¬(host.count ':' = 1 ∧ host.head? ≠ some ':' ∧ isPort (host.dropWhile (· != ':')).tail = true)) := by
  unfold bareHost at hbare
  split at hbare
  · next hbracket =>
    split at hbare
    · cases hbare
    · next inside rest hcut =>
      split at hbare
      · cases hbare
      · cases hbare
        cases host with
        | nil => cases hbracket
        | cons c host =>
          rw [tail_cons] at hcut
          rw [Framing.cutAt_eq_some _ _ _ _ hcut, append_assoc]
          exact ⟨(sublist_append_left _ _).cons c, .inl (by simp)⟩
  · next hbracket =>
    split at hbare
    · next hport =>
      cases hbare
      refine ⟨takeWhile_sublist _, .inl ?_⟩
      have hcolon : ':' ∈ host := count_pos_iff.mp (by omega)
      refine (List.takeWhile_prefix _).length_le.lt_of_ne fun hlen => ?_
      have hall := takeWhile_eq_self_iff.mp ((List.takeWhile_prefix _).eq_of_length hlen) ':' hcolon
      cases hall
    · next hport =>
      cases hbare
      exact ⟨Sublist.refl _, .inr ⟨rfl, hbracket, hport⟩⟩

theorem normalize_eq_ok (hraw : normalizeNetworkRuleHost raw = .ok h) :
    ('/' ∉ Text.trim raw ∧ '?' ∉ Text.trim raw ∧ '#' ∉ Text.trim raw) ∧
    ∃ host, bareHost raw (Text.trim raw) = .ok host ∧ h = (Text.trim (host.rdropWhile (· == '.'))).map Char.toLower ∧
      h ≠ [] ∧ '*' ∉ h ∧ h.any Text.isWhitespace = false := by
  unfold normalizeNetworkRuleHost at hraw
  simp only at hraw
  split at hraw
  · cases hraw
  split at hraw
  · cases hraw
  next hchars =>
  obtain ⟨host, hbare, hr⟩ := Fallible.bind_eq_ok hraw
  split at hr
  · cases hr
  next hne =>
  split at hr
  · cases hr
  next hstar =>
  split at hr
  · cases hr
  next hblank =>
  cases hr
  simp only [not_or] at hchars
  exact ⟨hchars.2, host, hbare, rfl, hne, hstar, Bool.not_eq_true _ ▸ hblank⟩

theorem trim_sublist (s : Text) : Text.trim s <+ s :=
  (Text.trimEnd_isPrefix _).sublist.trans (dropWhile_sublist _)

theorem eq_of_toLower_eq {c d : Char} (hd : d.toLower = c) (hc : c.toNat < 97) : d = c := by
  have hnat := Text.toNat_toLower d
  rw [hd] at hnat
  split at hnat
  · omega
  · exact (Char.toNat_inj.mp hnat).symm

structure Normalized (h : Text) : Prop where
  ne_nil : h ≠ []
  chars : '*' ∉ h ∧ '/' ∉ h ∧ '?' ∉ h ∧ '#' ∉ h
  blank : h.any Text.isWhitespace = false
  lower : h.map Char.toLower = h

theorem normalized_of_normalize (hraw : normalizeNetworkRuleHost raw = .ok h) : Normalized h := by
  obtain ⟨⟨hslash, hquery, hhash⟩, host, hbare, heq, hne, hstar, hblank⟩ := normalize_eq_ok hraw
  have hmem : ∀ c, c.toNat < 97 → c ∉ Text.trim raw → c ∉ h := by
    intro c hc hcraw hch
    rw [heq, mem_map] at hch
    obtain ⟨d, hd, hdc⟩ := hch
    rw [eq_of_toLower_eq hdc hc] at hd
    exact hcraw ((bareHost_eq_ok hbare).1.subset
      ((List.rdropWhile_prefix _ _).sublist.subset ((trim_sublist _).subset hd)))
  refine ⟨hne, ⟨hstar, hmem _ (by decide) hslash, hmem _ (by decide) hquery, hmem _ (by decide) hhash⟩, hblank, ?_⟩
  rw [heq, map_map]
  refine map_congr_left fun c _ => Char.toNat_inj.mp ?_
  simp only [Function.comp_apply, Text.toNat_toLower]
  split
  · rw [if_neg (by omega)]
  · rfl

theorem rdropWhile_dots_iff : h.rdropWhile (· == '.') = h ↔ h.getLast? ≠ some '.' := by
  rw [rdropWhile_eq_self_iff]
  rcases eq_nil_or_concat h with rfl | ⟨t, c, rfl⟩ <;> simp

theorem Normalized.normalize_iff (hn : Normalized h) : normalizeNetworkRuleHost h = .ok h ↔ Settled h := by
  have htrim : Text.trim h = h := Text.trim_eq_self (by simpa using hn.blank)
  constructor
  · intro hself
    obtain ⟨-, host, hbare, heq, -⟩ := normalize_eq_ok hself
    rw [htrim] at hbare
    have hlen : h.length ≤ (host.rdropWhile (· == '.')).length := by
      have := (trim_sublist (host.rdropWhile (· == '.'))).length_le
      rwa [← length_map Char.toLower, ← heq] at this
    have hdots := (List.rdropWhile_prefix (· == '.') host).length_le
    obtain ⟨-, hlt | ⟨rfl, hbracket, hport⟩⟩ := bareHost_eq_ok hbare
    · omega
    · refine ⟨hbracket, rdropWhile_dots_iff.mp ?_, hport⟩
      exact (List.rdropWhile_prefix _ _).eq_of_length (by omega)
  · rintro ⟨hbracket, hl, hport⟩
    have hbare : bareHost h h = .ok h := by rw [bareHost, if_neg hbracket, if_neg hport]
    have hdots := rdropWhile_dots_iff.mpr hl
    have hchars : ¬("://".toList <:+: h ∨ '/' ∈ h ∨ '?' ∈ h ∨ '#' ∈ h) := by
      rintro (hurl | hmem)
      · exact hn.chars.2.1 (hurl.subset (by decide))
      · have hno := hn.chars
        tauto
    unfold normalizeNetworkRuleHost
    simp only [htrim]
    rw [if_neg hn.ne_nil, if_neg hchars, hbare]
    simp only [bind, Except.bind, hdots, htrim, hn.lower]
    rw [if_neg hn.ne_nil, if_neg hn.chars.1, if_neg (by rw [hn.blank]; decide)]

theorem parse_asPolicyString (protocol : NetworkRuleProtocol) :
    NetworkRuleProtocol.parse protocol.asPolicyString = .ok protocol := by
  cases protocol <;> decide

theorem parse_networkRuleText (decision : Decision) :
    parseNetworkRuleDecision decision.networkRuleText = .ok decision := by
  cases decision <;> decide

section
variable {protocol : NetworkRuleProtocol} {decision : Decision} {justification : Option Text} {line : NetworkRuleLine}

theorem networkRule_line (hraw : normalizeNetworkRuleHost raw = .ok h)
    (hl : networkRuleLine raw protocol decision justification = .ok line) :
    networkRule line = (normalizeNetworkRuleHost h).map fun host => ⟨host, protocol, decision, justification⟩ := by
  obtain ⟨host, hhost, hl⟩ := Fallible.bind_eq_ok hl
  obtain rfl : h = host := Except.ok.inj (hraw.symm.trans hhost)
  obtain ⟨⟨⟩, hcheck, hl⟩ := Fallible.bind_eq_ok hl
  cases hl
  rw [networkRule, parse_asPolicyString, parse_networkRuleText, hcheck]
  cases normalizeNetworkRuleHost h <;> rfl

theorem networkRule_eq_ok_iff (hraw : normalizeNetworkRuleHost raw = .ok h)
    (hl : networkRuleLine raw protocol decision justification = .ok line) :
    networkRule line = .ok ⟨h, protocol, decision, justification⟩ ↔ normalizeNetworkRuleHost h = .ok h := by
  rw [networkRule_line hraw hl]
  cases normalizeNetworkRuleHost h <;> simp [Except.map]

/-- **A rule reloads as it was added** just if its host has no bracket, no port and no dot to take away. -/
theorem networkRule_reloads_iff (hraw : normalizeNetworkRuleHost raw = .ok h) :
    (normalizeNetworkRuleHost h = .ok h ↔ Settled h) ∧
    ∀ append rules protocol decision justification rules' line,
      appendNetworkRuleAndUpdate append rules raw protocol decision justification = .ok (rules', line) →
      ∃ rule, rules' = rules ++ [rule] ∧ (networkRule line = .ok rule ↔ Settled h) := by
  have hsettled := (normalized_of_normalize hraw).normalize_iff
  refine ⟨hsettled, fun append rules protocol decision justification rules' line hupdate => ?_⟩
  obtain ⟨line', hline, hupdate⟩ := Fallible.bind_eq_ok hupdate
  obtain ⟨⟨⟩, -, hupdate⟩ := Fallible.bind_eq_ok hupdate
  obtain ⟨added, hadd, hupdate⟩ := Fallible.bind_eq_ok hupdate
  cases hupdate
  obtain ⟨host, hhost, hadd⟩ := Fallible.bind_eq_ok hadd
  obtain rfl : h = host := Except.ok.inj (hraw.symm.trans hhost)
  obtain ⟨⟨⟩, -, hadd⟩ := Fallible.bind_eq_ok hadd
  cases hadd
  exact ⟨_, rfl, (networkRule_eq_ok_iff hraw hline).trans hsettled⟩

end

theorem networkRule_reloads_iff_trailingDot :
    normalizeNetworkRuleHost "Example.com.:80".toList = .ok "example.com".toList ∧
      normalizeNetworkRuleHost "example.com".toList = .ok "example.com".toList := by
  have hraw : normalizeNetworkRuleHost "Example.com.:80".toList = .ok "example.com".toList := by decide +kernel
  refine ⟨hraw, (networkRule_reloads_iff hraw).1.mpr ?_⟩
  unfold Settled
  decide +kernel

theorem bracketed_port_lost :
    normalizeNetworkRuleHost "[a:80]".toList = .ok "a:80".toList ∧
    normalizeNetworkRuleHost "a:80".toList = .ok "a".toList ∧
    appendNetworkRuleAndUpdate (fun _ => .ok ()) [] "[a:80]".toList .http .allow none =
      .ok ([⟨"a:80".toList, .http, .allow, none⟩], ⟨"a:80".toList, "http".toList, "allow".toList, none⟩) ∧
    networkRule ⟨"a:80".toList, "http".toList, "allow".toList, none⟩ = .ok ⟨"a".toList, .http, .allow, none⟩ := by
  decide +kernel

end ExecPolicy
