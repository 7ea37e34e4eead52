import Codez.Lib.Table
import Codez.NetworkProxy.Policy

/-!
A configuration of the network proxy against its managed constraints (`network-proxy/src/config.rs`,
`state.rs`).

The checks run in the order of `validate_policy_against_constraints`, and the first that fails gives
the error.
-/

namespace NetworkProxy

inductive NetworkMode where
  | limited
  | full
deriving DecidableEq

namespace NetworkMode

def rank : NetworkMode → Nat
  | limited => 0
  | full => 1

def debug : NetworkMode → Text
  | limited => "Limited".toList
  | full => "Full".toList

end NetworkMode

inductive NetworkDomainPermission where
  | none
  | allow
  | deny
deriving DecidableEq

def NetworkDomainPermission.precedence : NetworkDomainPermission → Nat
  | none => 0
  | allow => 1
  | deny => 2

structure NetworkDomainPermissionEntry where
  pattern : Text
  permission : NetworkDomainPermission
deriving DecidableEq

inductive NetworkUnixSocketPermission where
  | allow
  | deny
deriving DecidableEq

structure NetworkProxySettings (Hook : Type) where
  enabled : Bool := false
  allowUpstreamProxy : Bool := true
  dangerouslyAllowNonLoopbackProxy : Bool := false
  dangerouslyAllowAllUnixSockets : Bool := false
  mode : NetworkMode := .full
  domains : Option (List NetworkDomainPermissionEntry) := none
  unixSockets : Option (List (Text × NetworkUnixSocketPermission)) := none
  allowLocalBinding : Bool := false
  mitm : Bool := false
  mitmHooks : List Hook := []

structure EffectivePermissions where
  order : List Text := []
  permissions : AList fun _ : Text => NetworkDomainPermission := ∅

def EffectivePermissions.add (e : EffectivePermissions) (entry : NetworkDomainPermissionEntry) : EffectivePermissions :=
  match e.permissions.lookup entry.pattern with
  | none => ⟨e.order ++ [entry.pattern], e.permissions.insert entry.pattern entry.permission⟩
  | some permission =>
    if permission.precedence < entry.permission.precedence then
      { e with permissions := e.permissions.insert entry.pattern entry.permission }
    else e

def takeEntries : List Text → (AList fun _ : Text => NetworkDomainPermission) → List NetworkDomainPermissionEntry
  | [], _ => []
  | pattern :: order, permissions =>
    match permissions.lookup pattern with
    | some permission => ⟨pattern, permission⟩ :: takeEntries order (permissions.erase pattern)
    | none => takeEntries order permissions

def effectiveEntries (entries : List NetworkDomainPermissionEntry) : List NetworkDomainPermissionEntry :=
  let e : EffectivePermissions := entries.foldl EffectivePermissions.add {}
  takeEntries e.order e.permissions

namespace NetworkProxySettings

variable {Hook : Type} (self : NetworkProxySettings Hook)

def domainEntries (permission : NetworkDomainPermission) : Option (List Text) :=
  (self.domains.map fun domains =>
    ((effectiveEntries domains).filter (·.permission = permission)).map (·.pattern)).filter (! ·.isEmpty)

def allowedDomains : Option (List Text) := self.domainEntries .allow

def deniedDomains : Option (List Text) := self.domainEntries .deny

def allowUnixSockets : List Text :=
  ((self.unixSockets.getD []).filter fun e => e.2 = .allow).map Prod.fst

end NetworkProxySettings

structure NetworkProxyConstraints where
  enabled : Option Bool := none
  mode : Option NetworkMode := none
  allowUpstreamProxy : Option Bool := none
  dangerouslyAllowNonLoopbackProxy : Option Bool := none
  dangerouslyAllowAllUnixSockets : Option Bool := none
  allowedDomains : Option (List Text) := none
  allowlistExpansionEnabled : Option Bool := none
  deniedDomains : Option (List Text) := none
  denylistExpansionEnabled : Option Bool := none
  allowUnixSockets : Option (List Text) := none
  allowLocalBinding : Option Bool := none

structure NetworkProxyConstraintError where
  fieldName : String
  candidate : Text
  allowed : Text
deriving DecidableEq

/-- What the checks use: the libraries, the check of the MITM hooks, how a list of strings is printed for
debugging, and in which order a hash set lists its elements. -/
structure Checker (Hook : Type) where
  lib : Libraries
  validateMitmHookConfig : NetworkProxySettings Hook → Except Text Unit
  debug : List Text → Text
  listed : List Text → List Text

abbrev Checked := Except NetworkProxyConstraintError Unit

def invalidValue (fieldName : String) (candidate allowed : Text) : Checked := .error ⟨fieldName, candidate, allowed⟩

def lowercased (entries : List Text) : List Text := entries.map (·.map Char.toLower)

def validateFlag (fieldName : String) (candidate permitted : Bool) : Checked :=
  if candidate && !permitted then invalidValue fieldName "true".toList "false (disabled by managed config)".toList
  else .ok ()

def validateMode (candidate maxMode : NetworkMode) : Checked :=
  if maxMode.rank < candidate.rank then
    invalidValue "network.mode" candidate.debug (maxMode.debug ++ " or more restrictive".toList)
  else .ok ()

def validateOption {α : Type} (constraint : Option α) (validator : α → Checked) : Checked :=
  match constraint with
  | some constraint => validator constraint
  | none => .ok ()

section
variable {Hook : Type} (checker : Checker Hook)

def validateNonGlobalWildcardDomainPatterns (fieldName : String) (patterns : List Text) : Checked :=
  match patterns.find? (isGlobalWildcardDomainPattern checker.lib) with
  | some pattern =>
    invalidValue fieldName (Text.trim pattern)
      "exact hosts or scoped wildcards like *.example.com or **.example.com".toList
  | none => .ok ()

def validateContains (fieldName : String) (missingText : String) (required candidate overrides : List Text) : Checked :=
  let missing := (checker.listed (lowercased required).dedup).filter fun entry =>
    entry ∉ lowercased candidate ∧ entry ∉ overrides
  if missing.isEmpty then .ok () else invalidValue fieldName missingText.toList (checker.debug missing)

def validateEntries (fieldName : String) (allowedText : String) (permitted : Text → Bool) (candidate : List Text) :
    Checked :=
  let invalid := candidate.filter fun entry => !permitted entry
  if invalid.isEmpty then .ok () else invalidValue fieldName (checker.debug invalid) allowedText.toList

def validateSame (fieldName : String) (allowedText : String) (expected : Finset Text) (candidate : List Text) :
    Checked :=
  if (lowercased candidate).toFinset = expected then .ok ()
  else invalidValue fieldName (checker.debug candidate) allowedText.toList

def validateAllowedDomains (expansionEnabled : Option Bool) (candidate deniedDomainOverrides : List Text)
    (allowedDomains : List Text) : Checked := do
  validateNonGlobalWildcardDomainPatterns checker "network.allowed_domains" allowedDomains
  match expansionEnabled with
  | some true =>
    validateContains checker "network.allowed_domains"
      "missing managed allowed_domains entries" allowedDomains candidate
      deniedDomainOverrides
  | some false =>
    validateSame checker "network.allowed_domains" "must match managed allowed_domains"
      ((lowercased allowedDomains).toFinset \ deniedDomainOverrides.toFinset) candidate
  | none =>
    let managedPatterns := allowedDomains.map (DomainPattern.parseForConstraints checker.lib)
    validateEntries checker "network.allowed_domains" "subset of managed allowed_domains"
      (fun entry => managedPatterns.any (·.allows (DomainPattern.parseForConstraints checker.lib entry))) candidate

def validateDeniedDomains (expansionEnabled : Option Bool) (candidate : List Text) (deniedDomains : List Text) :
    Checked := do
  validateNonGlobalWildcardDomainPatterns checker "network.denied_domains" deniedDomains
  match expansionEnabled with
  | some false =>
    validateSame checker "network.denied_domains" "must match managed denied_domains"
      (lowercased deniedDomains).toFinset candidate
  | _ =>
    validateContains checker "network.denied_domains" "missing managed denied_domains entries" deniedDomains
      candidate []

def validatePolicyAgainstConstraints (config : NetworkProxySettings Hook) (constraints : NetworkProxyConstraints) :
    Checked := do
  let configAllowedDomains := config.allowedDomains.getD []
  let configDeniedDomains := config.deniedDomains.getD []
  let deniedDomainOverrides := lowercased configDeniedDomains
  (checker.validateMitmHookConfig config).mapError fun err =>
    ⟨"network.mitm_hooks", err, "valid MITM hook configuration".toList⟩
  validateNonGlobalWildcardDomainPatterns checker "network.denied_domains" configDeniedDomains
  validateOption constraints.enabled (validateFlag "network.enabled" config.enabled)
  validateOption constraints.mode (validateMode config.mode)
  validateFlag "network.allow_upstream_proxy" config.allowUpstreamProxy (constraints.allowUpstreamProxy.getD true)
  validateFlag "network.dangerously_allow_non_loopback_proxy" config.dangerouslyAllowNonLoopbackProxy
    (constraints.dangerouslyAllowNonLoopbackProxy.getD true)
  validateFlag "network.dangerously_allow_all_unix_sockets" config.dangerouslyAllowAllUnixSockets
    (constraints.dangerouslyAllowAllUnixSockets.getD constraints.allowUnixSockets.isNone)
  validateOption constraints.allowLocalBinding (validateFlag "network.allow_local_binding" config.allowLocalBinding)
  validateOption constraints.allowedDomains
    (validateAllowedDomains checker constraints.allowlistExpansionEnabled configAllowedDomains deniedDomainOverrides)
  validateOption constraints.deniedDomains
    (validateDeniedDomains checker constraints.denylistExpansionEnabled configDeniedDomains)
  validateOption constraints.allowUnixSockets fun allowUnixSockets =>
    validateEntries checker "network.allow_unix_sockets" "subset of managed allow_unix_sockets"
      (fun entry => entry.map Char.toLower ∈ lowercased allowUnixSockets) config.allowUnixSockets

end

open Fallible

section
variable {Hook : Type} {checker : Checker Hook}

theorem permitted_of_validateEntries {fieldName allowedText : String} {permitted : Text → Bool} {candidate : List Text}
    (h : validateEntries checker fieldName allowedText permitted candidate = .ok ()) :
    ∀ entry ∈ candidate, permitted entry = true := by
  intro entry hent
  by_contra hnot
  have hmem : entry ∈ candidate.filter fun entry => !permitted entry := by
    rw [List.mem_filter]
    exact ⟨hent, by simpa using hnot⟩
  unfold validateEntries at h
  dsimp only at h
  split at h
  · next hnil =>
    rw [List.isEmpty_iff.mp hnil] at hmem
    cases hmem
  · cases h

theorem allows_of_validate {config : NetworkProxySettings Hook} {constraints : NetworkProxyConstraints}
    {managed : List Text} (hmanaged : constraints.allowedDomains = some managed)
    (hexpansion : constraints.allowlistExpansionEnabled = none)
    (h : validatePolicyAgainstConstraints checker config constraints = .ok ()) :
    ∀ entry ∈ config.allowedDomains.getD [], ∃ managedEntry ∈ managed,
      (DomainPattern.parseForConstraints checker.lib managedEntry).allows
        (DomainPattern.parseForConstraints checker.lib entry) = true := by
  unfold validatePolicyAgainstConstraints at h
  -- the checks in front of the one of the allowed domains
  obtain ⟨_, -, h⟩ := bind_eq_ok h
  obtain ⟨_, -, h⟩ := bind_eq_ok h
  obtain ⟨_, -, h⟩ := bind_eq_ok h
  obtain ⟨_, -, h⟩ := bind_eq_ok h
  obtain ⟨_, -, h⟩ := bind_eq_ok h
  obtain ⟨_, -, h⟩ := bind_eq_ok h
  obtain ⟨_, -, h⟩ := bind_eq_ok h
  obtain ⟨_, -, h⟩ := bind_eq_ok h
  obtain ⟨_, hall, -⟩ := bind_eq_ok h
  rw [hmanaged, hexpansion] at hall
  obtain ⟨_, -, hents⟩ := bind_eq_ok hall
  intro entry hent
  obtain ⟨pattern, hpat, hallows⟩ := List.any_eq_true.mp (permitted_of_validateEntries hents entry hent)
  obtain ⟨managedEntry, hmem, rfl⟩ := List.mem_map.mp hpat
  exact ⟨managedEntry, hmem, hallows⟩

end

end NetworkProxy
