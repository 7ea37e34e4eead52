import Codez.Lib.OrdMap
import Codez.NetworkProxy.Allowlist

/-!
# The domains table of a permission profile

`NetworkToml::to_network_proxy_config` (`config/src/permissions_toml.rs`) goes through the table in the order
of its keys and upserts each entry under the normalized host, so that of several spellings of one host the
last one stays, whatever it says: deny wins only if it comes last (`deny_wins_iff`).
-/

namespace NetworkProxy

open List

inductive NetworkDomainPermissionToml where
  | allow
  | deny
deriving DecidableEq

def NetworkDomainPermissionToml.toProxy : NetworkDomainPermissionToml → NetworkDomainPermission
  | allow => .allow
  | deny => .deny

abbrev NetworkDomainPermissionsToml := OrdMap Text NetworkDomainPermissionToml

/-- Without the addresses of the proxies; of the hooks what they are at run time. -/
structure NetworkToml (Hook : Type) where
  enabled : Option Bool := none
  allowUpstreamProxy : Option Bool := none
  dangerouslyAllowNonLoopbackProxy : Option Bool := none
  dangerouslyAllowAllUnixSockets : Option Bool := none
  mode : Option NetworkMode := none
  domains : Option NetworkDomainPermissionsToml := none
  unixSockets : Option (OrdMap Text NetworkUnixSocketPermission) := none
  allowLocalBinding : Option Bool := none
  mitm : Option (List Hook) := none

variable {Hook : Type}

def upsertEntry (normalize : Text → Text) (entries : List NetworkDomainPermissionEntry)
    (entry : NetworkDomainPermissionEntry) : List NetworkDomainPermissionEntry :=
  entries.filter (fun e => normalize e.pattern ≠ normalize entry.pattern) ++ [entry]

def NetworkProxySettings.upsertDomainPermission (self : NetworkProxySettings Hook) (host : Text)
    (permission : NetworkDomainPermission) (normalize : Text → Text) : NetworkProxySettings Hook :=
  let entries := upsertEntry normalize (self.domains.getD []) ⟨host, permission⟩
  { self with domains := if entries.isEmpty then none else some entries }

def overlayNetworkDomainPermissions (lib : Libraries) (config : NetworkProxySettings Hook)
    (domains : NetworkDomainPermissionsToml) : NetworkProxySettings Hook :=
  domains.entries.foldl (fun config e => config.upsertDomainPermission e.1 e.2.toProxy (normalizeHost lib)) config

namespace NetworkToml

def applyToNetworkProxyConfig (lib : Libraries) (self : NetworkToml Hook) (config : NetworkProxySettings Hook) :
    NetworkProxySettings Hook :=
  let config := { config with
    enabled := self.enabled.getD config.enabled
    allowUpstreamProxy := self.allowUpstreamProxy.getD config.allowUpstreamProxy
    dangerouslyAllowNonLoopbackProxy :=
      self.dangerouslyAllowNonLoopbackProxy.getD config.dangerouslyAllowNonLoopbackProxy
    dangerouslyAllowAllUnixSockets := self.dangerouslyAllowAllUnixSockets.getD config.dangerouslyAllowAllUnixSockets
    mode := self.mode.getD config.mode }
  let config := match self.domains with
    | some domains => overlayNetworkDomainPermissions lib config domains
    | none => config
  let unixSockets := match self.unixSockets with
    | some sockets =>
      let entries := sockets.entries.foldl (fun m e => OrdMap.insertL e.1 e.2 m) (config.unixSockets.getD [])
      if entries.isEmpty then none else some entries
    | none => config.unixSockets
  let mitmHooks := self.mitm.getD config.mitmHooks
  { config with
    unixSockets := unixSockets
    allowLocalBinding := self.allowLocalBinding.getD config.allowLocalBinding
    mitmHooks := mitmHooks
    mitm := config.mode = .limited || !mitmHooks.isEmpty }

def toNetworkProxyConfig (lib : Libraries) (self : NetworkToml Hook) : NetworkProxySettings Hook :=
  self.applyToNetworkProxyConfig lib {}

end NetworkToml

section
variable (normalize : Text → Text) (entries : List NetworkDomainPermissionEntry)

theorem filter_foldl_upsertEntry (host : Text) :
    (entries.foldl (upsertEntry normalize) []).filter (normalize ·.pattern = host) =
      (entries.filter (normalize ·.pattern = host)).getLast?.toList := by
  induction entries using reverseRecOn with
  | nil => rfl
  | append_singleton entries entry ih =>
    rw [foldl_append, foldl_cons, foldl_nil, upsertEntry, filter_append, filter_append, filter_filter]
    by_cases hent : normalize entry.pattern = host
    · simp [hent]
    · have hkept : ∀ e ∈ entries.foldl (upsertEntry normalize) [],
          (decide (normalize e.pattern = host) && decide (normalize e.pattern ≠ normalize entry.pattern)) =
            decide (normalize e.pattern = host) := by
        intro e _
        by_cases he : normalize e.pattern = host <;> simp [he, Ne.symm hent]
      rw [filter_congr hkept, ih]
      simp [hent]

theorem nodup_foldl_upsertEntry : ((entries.foldl (upsertEntry normalize) []).map (·.pattern)).Nodup := by
  induction entries using reverseRecOn with
  | nil => exact nodup_nil
  | append_singleton entries entry ih =>
    rw [foldl_append, foldl_cons, foldl_nil, upsertEntry, map_append, nodup_append']
    refine ⟨ih.sublist ((filter_sublist).map _), nodup_singleton _, ?_⟩
    intro pattern hpat hsame
    obtain ⟨e, he, rfl⟩ := mem_map.mp hpat
    have hne := (mem_filter.mp he).2
    rw [map_singleton, mem_singleton] at hsame
    simp [hsame] at hne

end

open EffectivePermissions

theorem foldl_add {entries : List NetworkDomainPermissionEntry} (h : (entries.map (·.pattern)).Nodup) :
    (entries.foldl add {}).order = entries.map (·.pattern) ∧
      (∀ e ∈ entries, (entries.foldl add {}).permissions.lookup e.pattern = some e.permission) ∧
      ∀ pattern ∉ entries.map (·.pattern),
        (entries.foldl add {}).permissions.lookup pattern = none := by
  induction entries using reverseRecOn with
  | nil => exact ⟨rfl, by simp, fun _ _ => rfl⟩
  | append_singleton entries entry ih =>
    rw [map_append, nodup_append'] at h
    obtain ⟨horder, hlk, hnone⟩ := ih h.1
    have hnew : entry.pattern ∉ entries.map (·.pattern) := fun hmem => h.2.2 hmem (by simp)
    rw [foldl_append, foldl_cons, foldl_nil, add, hnone _ hnew]
    refine ⟨by simp [horder], ?_, ?_⟩
    · rw [forall_mem_append, forall_mem_singleton]
      refine ⟨fun e he => ?_, AList.lookup_insert _⟩
      have hne : e.pattern ≠ entry.pattern := fun heq => hnew (heq ▸ mem_map_of_mem he)
      rw [AList.lookup_insert_ne hne]
      exact hlk e he
    · intro pattern hpat
      rw [map_append, mem_append, not_or, map_singleton, mem_singleton] at hpat
      rw [AList.lookup_insert_ne hpat.2]
      exact hnone pattern hpat.1

theorem takeEntries_eq {entries : List NetworkDomainPermissionEntry} (h : (entries.map (·.pattern)).Nodup)
    {permissions : AList fun _ : Text => NetworkDomainPermission}
    (hl : ∀ e ∈ entries, permissions.lookup e.pattern = some e.permission) :
    takeEntries (entries.map (·.pattern)) permissions = entries := by
  induction entries generalizing permissions with
  | nil => rfl
  | cons entry entries ih =>
    rw [map_cons, nodup_cons] at h
    rw [forall_mem_cons] at hl
    rw [map_cons, takeEntries, hl.1]
    refine congrArg (entry :: ·) (ih h.2 fun e he => ?_)
    have hne : e.pattern ≠ entry.pattern := fun heq => h.1 (heq ▸ mem_map_of_mem he)
    rw [AList.lookup_erase_ne hne]
    exact hl.2 e he

theorem effectiveEntries_eq_self {entries : List NetworkDomainPermissionEntry} (h : (entries.map (·.pattern)).Nodup) :
    effectiveEntries entries = entries := by
  obtain ⟨horder, hlk, -⟩ := foldl_add h
  rw [effectiveEntries, horder]
  exact takeEntries_eq h hlk

def Listed (lib : Libraries) (host : Text) (domains : Option (List Text)) : Prop :=
  ∃ pattern ∈ domains.getD [], normalizeHost lib pattern = host

def spellings (lib : Libraries) (table : NetworkDomainPermissionsToml) (host : Text) :
    List (Text × NetworkDomainPermissionToml) :=
  table.entries.filter fun e => normalizeHost lib e.1 = host

theorem domains_toNetworkProxyConfig (lib : Libraries)
    (toml : NetworkToml Hook) (table : NetworkDomainPermissionsToml) :
    (({ toml with domains := some table }).toNetworkProxyConfig lib).domains.getD [] =
      (table.entries.map fun e => ⟨e.1, e.2.toProxy⟩).foldl (upsertEntry (normalizeHost lib)) [] := by
  have hfold : ∀ (es : List (Text × NetworkDomainPermissionToml)) (config : NetworkProxySettings Hook),
      (es.foldl (fun config e =>
        config.upsertDomainPermission e.1 e.2.toProxy (normalizeHost lib)) config).domains.getD [] =
        (es.map fun e => ⟨e.1, e.2.toProxy⟩).foldl (upsertEntry (normalizeHost lib)) (config.domains.getD []) := by
    intro es
    induction es with
    | nil => exact fun _ => rfl
    | cons e es ih =>
      intro config
      rw [foldl_cons, ih, map_cons, foldl_cons]
      simp [NetworkProxySettings.upsertDomainPermission, upsertEntry]
  exact hfold table.entries _

theorem mem_domainEntries (settings : NetworkProxySettings Hook)
    (permission : NetworkDomainPermission) (pattern : Text) :
    pattern ∈ (settings.domainEntries permission).getD [] ↔
      ⟨pattern, permission⟩ ∈ effectiveEntries (settings.domains.getD []) := by
  have hmem : ∀ entries : List NetworkDomainPermissionEntry,
      pattern ∈ (entries.filter (·.permission = permission)).map (·.pattern) ↔ ⟨pattern, permission⟩ ∈ entries := by
    intro entries
    simp only [mem_map, mem_filter, decide_eq_true_eq]
    constructor
    · rintro ⟨⟨_, _⟩, ⟨hent, rfl⟩, rfl⟩
      exact hent
    · exact fun hent => ⟨_, ⟨hent, rfl⟩, rfl⟩
  unfold NetworkProxySettings.domainEntries
  cases settings.domains with
  | none => simp [effectiveEntries, takeEntries]
  | some domains =>
    rw [Option.getD_some, ← hmem, Option.map_some, Option.filter_some]
    split
    · rfl
    · next hnil =>
      rw [Bool.not_eq_true, Bool.not_eq_false', List.isEmpty_iff] at hnil
      rw [hnil]
      simp

theorem listed_iff (lib : Libraries) (toml : NetworkToml Hook) (table : NetworkDomainPermissionsToml) (host : Text)
    (permission : NetworkDomainPermission) :
    Listed lib host ((({ toml with domains := some table }).toNetworkProxyConfig lib).domainEntries permission) ↔
      ∃ e, (spellings lib table host).getLast? = some e ∧ e.2.toProxy = permission := by
  have hl := filter_foldl_upsertEntry (normalizeHost lib) (table.entries.map fun e => ⟨e.1, e.2.toProxy⟩) host
  rw [filter_map, getLast?_map] at hl
  simp only [Listed, mem_domainEntries, domains_toNetworkProxyConfig,
    effectiveEntries_eq_self (nodup_foldl_upsertEntry _ _)]
  constructor
  · rintro ⟨pattern, hmem, hhost⟩
    have hkept := (mem_filter (p := fun e => decide (normalizeHost lib e.pattern = host))).mpr
      ⟨hmem, decide_eq_true hhost⟩
    rw [hl, Option.mem_toList, Option.map_eq_some_iff] at hkept
    obtain ⟨e, he, hsame⟩ := hkept
    exact ⟨e, he, congrArg NetworkDomainPermissionEntry.permission hsame⟩
  · rintro ⟨e, he, rfl⟩
    have hkept : (⟨e.1, e.2.toProxy⟩ : NetworkDomainPermissionEntry) ∈
        (((spellings lib table host).getLast?).map fun e =>
          (⟨e.1, e.2.toProxy⟩ : NetworkDomainPermissionEntry)).toList := by
      simp [he]
    have hfnd := mem_filter.mp (hl.symm ▸ hkept)
    exact ⟨e.1, hfnd.1, of_decide_eq_true hfnd.2⟩

/-- **Deny wins over allow** for a host if and only if its last spelling in the table says deny where one does. -/
theorem deny_wins_iff (lib : Libraries) (toml : NetworkToml Hook) (table : NetworkDomainPermissionsToml) (host : Text) :
    let config := ({ toml with domains := some table }).toNetworkProxyConfig lib
    (((∃ e ∈ spellings lib table host, e.2 = .deny) →
        Listed lib host config.deniedDomains ∧ ¬Listed lib host config.allowedDomains) ∧
      (spellings lib table host ≠ [] → (∀ e ∈ spellings lib table host, e.2 = .allow) →
        Listed lib host config.allowedDomains ∧ ¬Listed lib host config.deniedDomains)) ↔
      ((∃ e ∈ spellings lib table host, e.2 = .deny) →
        ∃ e, (spellings lib table host).getLast? = some e ∧ e.2 = .deny) := by
  intro config
  have hallow : Listed lib host config.allowedDomains ↔ _ := listed_iff lib toml table host .allow
  have hdeny : Listed lib host config.deniedDomains ↔ _ := listed_iff lib toml table host .deny
  rw [hallow, hdeny]
  constructor
  · rintro ⟨hwins, -⟩ hsome
    obtain ⟨e, he, hproxy⟩ := (hwins hsome).1
    exact ⟨e, he, by cases hperm : e.2 <;> simp_all [NetworkDomainPermissionToml.toProxy]⟩
  · intro hlast
    constructor
    · intro hsome
      obtain ⟨e, he, hperm⟩ := hlast hsome
      refine ⟨⟨e, he, by rw [hperm]; rfl⟩, ?_⟩
      rintro ⟨e', he', hallowed⟩
      rw [he, Option.some.injEq] at he'
      rw [← he', hperm] at hallowed
      cases hallowed
    · intro hne hall
      obtain ⟨e, he⟩ := getLast?_isSome.mpr hne |> Option.isSome_iff_exists.mp
      refine ⟨⟨e, he, by rw [hall e (mem_of_getLast? he)]; rfl⟩, ?_⟩
      rintro ⟨e', he', hdenied⟩
      rw [hall e' (mem_of_getLast? he')] at hdenied
      cases hdenied

def twoSpellings : NetworkDomainPermissionsToml where
  entries := [("Example.com".toList, .deny), ("example.com".toList, .allow)]
  increasing := by
    unfold OrdMap.Increasing
    decide +kernel

theorem denied_host_allowed :
    let config := ({ domains := some twoSpellings } : NetworkToml Unit).toNetworkProxyConfig asciiLibraries
    (∃ e ∈ spellings asciiLibraries twoSpellings "example.com".toList, e.2 = .deny) ∧
      config.allowedDomains = some ["example.com".toList] ∧ config.deniedDomains = none := by
  intro config
  refine ⟨⟨("Example.com".toList, .deny), by decide +kernel, rfl⟩, by decide +kernel, by decide +kernel⟩

end NetworkProxy
