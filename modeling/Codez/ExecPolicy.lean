import Codez.AbsolutePath

/-!
The exec policy (`codex-execpolicy`) and its amendments (`append_amendment_and_update`).
-/

namespace ExecPolicy

open Codex List

inductive Decision where
  | allow
  | prompt
  | forbidden
deriving DecidableEq

namespace Decision

def severity : Decision → Nat
  | allow => 0
  | prompt => 1
  | forbidden => 2

theorem severity_injective : Function.Injective severity := by
  intro a b h
  cases a <;> cases b <;> first | rfl | cases h

instance : LinearOrder Decision := LinearOrder.lift' severity severity_injective

end Decision

inductive PatternToken where
  | single (expected : Text)
  | alts (alternatives : List Text)
deriving DecidableEq

def PatternToken.matches (self : PatternToken) (token : Text) : Bool :=
  match self with
  | single expected => expected == token
  | alts alternatives => alternatives.any (· == token)

structure PrefixPattern where
  first : Text
  rest : List PatternToken
deriving DecidableEq

def PrefixPattern.matchesPrefix (self : PrefixPattern) (cmd : List Text) : Option (List Text) :=
  let patternLength := self.rest.length + 1
  if cmd.length < patternLength ∨ cmd.head? ≠ some self.first then none
  else if (self.rest.zip (cmd.tail.take self.rest.length)).all fun (token, cmdToken) => token.matches cmdToken then
    some (cmd.take patternLength)
  else none

inductive RuleMatch where
  | prefixRuleMatch (matchedPrefix : List Text) (decision : Decision) (resolvedProgram : Option AbsolutePathBuf)
      (justification : Option Text)
  | heuristicsRuleMatch (command : List Text) (decision : Decision)
deriving DecidableEq

namespace RuleMatch

def decision : RuleMatch → Decision
  | prefixRuleMatch _ decision _ _ => decision
  | heuristicsRuleMatch _ decision => decision

def withResolvedProgram (self : RuleMatch) (program : AbsolutePathBuf) : RuleMatch :=
  match self with
  | prefixRuleMatch matched decision _ justification => prefixRuleMatch matched decision (some program) justification
  | other => other

def isPolicyMatch : RuleMatch → Bool
  | prefixRuleMatch .. => true
  | heuristicsRuleMatch .. => false

end RuleMatch

structure PrefixRule where
  pattern : PrefixPattern
  decision : Decision
  justification : Option Text := none
deriving DecidableEq

def PrefixRule.matches (self : PrefixRule) (cmd : List Text) : Option RuleMatch :=
  (self.pattern.matchesPrefix cmd).map fun matched => .prefixRuleMatch matched self.decision none self.justification

/-! ## Policies -/

structure Policy where
  rulesByProgram : Text → List PrefixRule := fun _ => []
  hostExecutablesByName : Text → Option (List AbsolutePathBuf) := fun _ => none

structure MatchOptions where
  resolveHostExecutables : Bool := false

structure Evaluation where
  decision : Decision
  matchedRules : List RuleMatch
deriving DecidableEq

def Evaluation.fromMatches (matchedRules : List RuleMatch) : Option Evaluation :=
  (matchedRules.map RuleMatch.decision).max?.map fun decision => ⟨decision, matchedRules⟩

def executablePathLookupKey (path : AbsolutePathBuf) : Option Text := path.names.getLast?

inductive Error where
  | invalidPattern (message : Text)
deriving DecidableEq

namespace Policy

variable (env : ProcessEnv) (self : Policy)

def addPrefixRule (tokens : List Text) (decision : Decision) : Except Error Policy :=
  match tokens with
  | [] => .error (.invalidPattern "prefix cannot be empty".toList)
  | firstToken :: rest =>
    let rule : PrefixRule := { pattern := ⟨firstToken, rest.map .single⟩, decision }
    .ok { self with
      rulesByProgram := Function.update self.rulesByProgram firstToken (self.rulesByProgram firstToken ++ [rule]) }

def matchExactRules (cmd : List Text) : Option (List RuleMatch) :=
  cmd.head?.map fun first => (self.rulesByProgram first).filterMap fun rule => rule.matches cmd

def matchBasenameRules (cmd : List Text) (program : AbsolutePathBuf) (basename : Text) : List RuleMatch :=
  if ((self.hostExecutablesByName basename).map fun paths => !paths.contains program).getD false then []
  else
    let basenameCommand := basename :: cmd.drop 1
    ((self.rulesByProgram basename).filterMap fun rule => rule.matches basenameCommand).map fun ruleMatch =>
      ruleMatch.withResolvedProgram program

def matchHostExecutableRules (cmd : List Text) : List RuleMatch :=
  match cmd with
  | [] => []
  | first :: _ =>
    match AbsolutePathBuf.fromAbsolutePath env first with
    | none => []
    | some program =>
      match executablePathLookupKey program with
      | none => []
      | some basename => self.matchBasenameRules cmd program basename

def matchesForCommandWithOptions (cmd : List Text) (heuristicsFallback : Option (List Text → Decision))
    (options : MatchOptions) : List RuleMatch :=
  let matchedRules :=
    (((self.matchExactRules cmd).filter fun matched => !matched.isEmpty).or
      ((if options.resolveHostExecutables then some (self.matchHostExecutableRules env cmd) else none).filter
        fun matched => !matched.isEmpty)).getD []
  match matchedRules, heuristicsFallback with
  | [], some fallback => [.heuristicsRuleMatch cmd (fallback cmd)]
  | _, _ => matchedRules

def checkWithOptions (cmd : List Text) (heuristicsFallback : List Text → Decision) (options : MatchOptions) :
    Option Evaluation :=
  Evaluation.fromMatches (self.matchesForCommandWithOptions env cmd (some heuristicsFallback) options)

def checkMultipleWithOptions (commands : List (List Text)) (heuristicsFallback : List Text → Decision)
    (options : MatchOptions) : Option Evaluation :=
  Evaluation.fromMatches (commands.flatMap fun command =>
    self.matchesForCommandWithOptions env command (some heuristicsFallback) options)

end Policy

inductive AmendError where
  | emptyPrefix
  | file (message : Text)
deriving DecidableEq

inductive ExecPolicyUpdateError where
  | appendRule (source : AmendError)
  | addRule (source : Error)
deriving DecidableEq

def hostOptions : MatchOptions := { resolveHostExecutables := true }

section
variable (env : ProcessEnv) (appendLine : List Text → Except AmendError Unit)

def blockingAppendAllowPrefixRule (tokens : List Text) : Except AmendError Unit :=
  if tokens = [] then .error .emptyPrefix else appendLine tokens

def alreadyAllowed (policy : Policy) (amendment : List Text) : Bool :=
  match policy.checkMultipleWithOptions env [amendment] (fun _ => .forbidden) hostOptions with
  | none => false
  | some existing =>
    existing.decision == .allow && existing.matchedRules.any fun ruleMatch =>
      ruleMatch.isPolicyMatch && ruleMatch.decision == .allow

def appendAmendmentAndUpdate (current : Policy) (amendment : List Text) : Except ExecPolicyUpdateError Policy := do
  (blockingAppendAllowPrefixRule appendLine amendment).mapError .appendRule
  if alreadyAllowed env current amendment then return current
  (current.addPrefixRule amendment .allow).mapError .addRule

end

/-! ## Matches and decisions -/

theorem le_forbidden (d : Decision) : d ≤ .forbidden := by
  cases d <;> decide

variable {m : RuleMatch} {amendment : List Text}

theorem decision_fromMatches {ms : List RuleMatch} (hm : m ∈ ms) (hban : m.decision = .forbidden) :
    (Evaluation.fromMatches ms).map Evaluation.decision = some .forbidden := by
  have hmax : (ms.map RuleMatch.decision).max? = some .forbidden := by
    rw [max?_eq_some_iff]
    exact ⟨mem_map.mpr ⟨m, hm, hban⟩, fun d _ => le_forbidden d⟩
  simp [Evaluation.fromMatches, hmax]

open PrefixPattern

theorem isSome_matchesPrefix_singles (first : Text) (rest cmd : List Text) :
    (matchesPrefix ⟨first, rest.map .single⟩ cmd).isSome = true ↔ first :: rest <+: cmd := by
  have hr : ∀ rest args : List Text, rest.length ≤ args.length →
      (((rest.map PatternToken.single).zip (args.take rest.length)).all
        (fun (token, cmdToken) => token.matches cmdToken) = true ↔ rest <+: args) := by
    intro rest
    induction rest with
    | nil => simp
    | cons t rest ih =>
      rintro (_ | ⟨c, args⟩) hlen
      · simp at hlen
      · have hlen : rest.length ≤ args.length := by simpa using hlen
        simp [PatternToken.matches, cons_prefix_cons, ← ih args hlen]
  rcases cmd with _ | ⟨c, args⟩
  · simp [matchesPrefix]
  · unfold matchesPrefix
    simp only [length_map, length_cons, head?_cons, ne_eq, Option.some.injEq, tail_cons, cons_prefix_cons]
    split
    · next hno =>
      simp only [Option.isSome_none, Bool.false_eq_true, false_iff]
      rintro ⟨rfl, hpre⟩
      rcases hno with hlen | hne
      · exact absurd hpre.length_le (by omega)
      · exact hne rfl
    · next hyes =>
      push Not at hyes
      have hlen : rest.length ≤ args.length := by omega
      have hfst : first = c := hyes.2.symm
      split
      · next hall => simpa [hfst] using (hr rest args hlen).mp hall
      · next hall => simpa [hfst] using fun hpre => hall ((hr rest args hlen).mpr hpre)

theorem matchesPrefix_eq_take {pattern : PrefixPattern} {cmd matched : List Text}
    (h : pattern.matchesPrefix cmd = some matched) : matched = cmd.take (pattern.rest.length + 1) := by
  simp only [matchesPrefix, Option.ite_none_left_eq_some, Option.ite_none_right_eq_some,
    Option.some.injEq] at h
  exact h.2.2.symm

theorem matches_singles (first : Text) (rest cmd : List Text) (decision : Decision) :
    PrefixRule.matches ⟨⟨first, rest.map .single⟩, decision, none⟩ cmd =
      if first :: rest <+: cmd then some (.prefixRuleMatch (first :: rest) decision none none) else none := by
  have hiff := isSome_matchesPrefix_singles first rest cmd
  unfold PrefixRule.matches
  cases hmt : matchesPrefix ⟨first, rest.map .single⟩ cmd with
  | none =>
    rw [if_neg fun hpre => by simpa [hmt] using hiff.mpr hpre]
    rfl
  | some matched =>
    have hpre : first :: rest <+: cmd := hiff.mp (by simp [hmt])
    have htake : matched = first :: rest := by
      rw [matchesPrefix_eq_take hmt, length_map]
      exact (prefix_iff_eq_take.mp hpre).symm
    simp [hpre, htake]

namespace Policy

variable {env : ProcessEnv} {policy : Policy} {cmd : List Text}

def exactMatches (policy : Policy) (cmd : List Text) : List RuleMatch := (policy.matchExactRules cmd).getD []

theorem matchesForCommandWithOptions_eq (fallback : Option (List Text → Decision)) :
    policy.matchesForCommandWithOptions env cmd fallback hostOptions =
      if policy.exactMatches cmd ≠ [] then policy.exactMatches cmd
      else if policy.matchHostExecutableRules env cmd ≠ [] then policy.matchHostExecutableRules env cmd
      else (fallback.map fun f => RuleMatch.heuristicsRuleMatch cmd (f cmd)).toList := by
  have hfst : (policy.matchExactRules cmd).filter (fun matched => !matched.isEmpty) =
      if policy.exactMatches cmd ≠ [] then some (policy.exactMatches cmd) else none := by
    unfold exactMatches
    rcases policy.matchExactRules cmd with _ | _ | ⟨m, ms⟩ <;> simp
  have hhost : (some (policy.matchHostExecutableRules env cmd)).filter (fun matched => !matched.isEmpty) =
      if policy.matchHostExecutableRules env cmd ≠ [] then some (policy.matchHostExecutableRules env cmd)
      else none := by
    rcases policy.matchHostExecutableRules env cmd with _ | ⟨m, ms⟩ <;> simp
  unfold matchesForCommandWithOptions
  simp only [hostOptions, if_true, hfst, hhost]
  rcases policy.exactMatches cmd with _ | ⟨m, ms⟩
  · rcases policy.matchHostExecutableRules env cmd with _ | ⟨m, ms⟩
    · cases fallback <;> rfl
    · rfl
  · rfl

section
variable {first : Text} {rest : List Text} {decision : Decision} {policy' : Policy}
  (hadd : policy.addPrefixRule (first :: rest) decision = .ok policy')

include hadd

theorem rulesByProgram_add : policy'.rulesByProgram = Function.update policy.rulesByProgram first
      (policy.rulesByProgram first ++ [⟨⟨first, rest.map .single⟩, decision, none⟩]) := by
  cases hadd
  rfl

theorem exactMatches_add : policy'.exactMatches cmd = policy.exactMatches cmd ++
    if first :: rest <+: cmd then [.prefixRuleMatch (first :: rest) decision none none] else [] := by
  unfold exactMatches matchExactRules
  rcases cmd with _ | ⟨c, args⟩
  · simp
  · simp only [head?_cons, Option.map_some, Option.getD_some, rulesByProgram_add hadd]
    by_cases hc : c = first
    · subst hc
      rw [Function.update_self, filterMap_append]
      simp only [filterMap_cons, filterMap_nil, matches_singles]
      split <;> simp_all
    · have hno : ¬first :: rest <+: c :: args := fun h => hc (cons_prefix_cons.mp h).1.symm
      rw [Function.update_of_ne hc, if_neg hno, append_nil]

theorem mem_matchHostExecutableRules_add (hm : m ∈ policy.matchHostExecutableRules env cmd) :
    m ∈ policy'.matchHostExecutableRules env cmd := by
  have hpaths : policy'.hostExecutablesByName = policy.hostExecutablesByName := by
    cases hadd
    rfl
  have hrules : ∀ name, policy.rulesByProgram name <+: policy'.rulesByProgram name := by
    intro name
    rw [rulesByProgram_add hadd]
    by_cases hn : name = first
    · subst hn
      rw [Function.update_self]
      exact prefix_append _ _
    · rw [Function.update_of_ne hn]
  have hbasename : ∀ program basename, m ∈ policy.matchBasenameRules cmd program basename →
      m ∈ policy'.matchBasenameRules cmd program basename := by
    intro program basename h
    unfold matchBasenameRules at h ⊢
    rw [hpaths]
    split at h
    · cases h
    · next hall =>
      rw [if_neg hall]
      obtain ⟨m', hm', rfl⟩ := mem_map.mp h
      obtain ⟨rule, hrule, hmt⟩ := mem_filterMap.mp hm'
      exact mem_map.mpr ⟨m', mem_filterMap.mpr ⟨rule, (hrules basename).subset hrule, hmt⟩, rfl⟩
  rcases cmd with _ | ⟨c, args⟩
  · cases hm
  · unfold matchHostExecutableRules at hm ⊢
    cases hprogram : AbsolutePathBuf.fromAbsolutePath env c with
    | none => simp [hprogram] at hm
    | some program =>
      cases hkey : executablePathLookupKey program with
      | none => simp [hprogram, hkey] at hm
      | some basename =>
        simp only [hprogram, hkey] at hm ⊢
        exact hbasename program basename hm

end

end Policy

theorem appendAmendmentAndUpdate_eq_ok {env : ProcessEnv} {appendLine : List Text → Except AmendError Unit}
    {policy policy' : Policy}
    (h : appendAmendmentAndUpdate env appendLine policy amendment = .ok policy') :
    (alreadyAllowed env policy amendment = true ∧ policy' = policy) ∨
      (alreadyAllowed env policy amendment = false ∧ policy.addPrefixRule amendment .allow = .ok policy') := by
  unfold appendAmendmentAndUpdate at h
  cases happ : blockingAppendAllowPrefixRule appendLine amendment with
  | error e =>
    rw [happ] at h
    cases h
  | ok u =>
    rw [happ] at h
    change (if alreadyAllowed env policy amendment then Except.ok policy
      else (policy.addPrefixRule amendment .allow).mapError ExecPolicyUpdateError.addRule) = .ok policy' at h
    cases hall : alreadyAllowed env policy amendment with
    | true =>
      rw [hall, if_pos rfl] at h
      exact .inl ⟨rfl, (Except.ok.inj h).symm⟩
    | false =>
      rw [hall, if_neg Bool.false_ne_true] at h
      refine Or.inr ⟨rfl, ?_⟩
      cases hadd : policy.addPrefixRule amendment .allow with
      | error e =>
        rw [hadd] at h
        cases h
      | ok added =>
        rw [hadd] at h
        exact congrArg Except.ok (Except.ok.inj h)

/-- The decision about a banned command after an accepted amendment.  The ban is lifted exactly
when it was found by file name only, the amendment is a beginning of the command and was
not allowed before. -/
theorem decision_amended {env : ProcessEnv} {appendLine : List Text → Except AmendError Unit}
    {policy policy' : Policy} {cmd : List Text} (fallback : List Text → Decision)
    (hban : ∃ m ∈ policy.matchesForCommandWithOptions env cmd none hostOptions,
      m.isPolicyMatch = true ∧ m.decision = .forbidden)
    (hupdate : appendAmendmentAndUpdate env appendLine policy amendment = .ok policy') :
    (policy'.checkWithOptions env cmd fallback hostOptions).map Evaluation.decision =
      some (if policy.matchExactRules cmd = some [] ∧ amendment <+: cmd ∧ alreadyAllowed env policy amendment = false
        then .allow else .forbidden) := by
  obtain ⟨m, hm, -, hforbidden⟩ := hban
  rw [Policy.matchesForCommandWithOptions_eq] at hm
  have hstays : ∀ p : Policy, m ∈ p.matchesForCommandWithOptions env cmd (some fallback) hostOptions →
      (p.checkWithOptions env cmd fallback hostOptions).map Evaluation.decision = some .forbidden :=
    fun p hp => decision_fromMatches hp hforbidden
  by_cases hexact : policy.exactMatches cmd = []
  · -- the ban was found by file name
    simp only [hexact, ne_eq, not_true_eq_false, if_false, Option.map_none, Option.toList_none] at hm
    have hhost : m ∈ policy.matchHostExecutableRules env cmd := by
      split at hm
      · exact hm
      · cases hm
    have hsome : policy.matchExactRules cmd = some [] := by
      rcases cmd with _ | ⟨c, args⟩
      · cases hhost
      · simpa [Policy.exactMatches, Policy.matchExactRules] using hexact
    have hfound : ∀ p : Policy, p.exactMatches cmd = [] → m ∈ p.matchHostExecutableRules env cmd →
        m ∈ p.matchesForCommandWithOptions env cmd (some fallback) hostOptions := by
      intro p hnone hmem
      rw [Policy.matchesForCommandWithOptions_eq, if_neg (not_not.mpr hnone), if_pos (ne_nil_of_mem hmem)]
      exact hmem
    rcases appendAmendmentAndUpdate_eq_ok hupdate with ⟨hallowed, rfl⟩ | ⟨hallowed, hadd⟩
    · rw [hstays policy' (hfound policy' hexact hhost)]
      simp [hallowed]
    · rcases amendment with _ | ⟨first, rest⟩
      · cases hadd
      · have hadded : policy'.exactMatches cmd = _ := Policy.exactMatches_add hadd
        rw [hexact, nil_append] at hadded
        by_cases hbegins : first :: rest <+: cmd
        · rw [if_pos hbegins] at hadded
          rw [Policy.checkWithOptions, Policy.matchesForCommandWithOptions_eq, hadded]
          simp [hsome, hbegins, hallowed, Evaluation.fromMatches, RuleMatch.decision]
        · rw [if_neg hbegins] at hadded
          rw [hstays policy' (hfound policy' hadded (Policy.mem_matchHostExecutableRules_add hadd hhost))]
          simp [hbegins]
  · -- the ban stands at the literal token
    rw [if_pos hexact] at hm
    have hnotSome : policy.matchExactRules cmd ≠ some [] := fun h => hexact (by simp [Policy.exactMatches, h])
    have hfound : ∀ p : Policy, m ∈ p.exactMatches cmd →
        m ∈ p.matchesForCommandWithOptions env cmd (some fallback) hostOptions := by
      intro p hmem
      rw [Policy.matchesForCommandWithOptions_eq, if_pos (ne_nil_of_mem hmem)]
      exact hmem
    rw [if_neg fun h => hnotSome h.1]
    rcases appendAmendmentAndUpdate_eq_ok hupdate with ⟨-, rfl⟩ | ⟨-, hadd⟩
    · exact hstays policy' (hfound policy' hm)
    · rcases amendment with _ | ⟨first, rest⟩
      · cases hadd
      · refine hstays policy' (hfound policy' ?_)
        rw [Policy.exactMatches_add hadd]
        exact mem_append_left _ hm

def noPush : Policy where
  rulesByProgram := Function.update (fun _ => []) "git".toList
    [{ pattern := ⟨"git".toList, [.single "push".toList]⟩, decision := .forbidden }]

theorem noPush_lifted :
    (∃ m ∈ noPush.matchesForCommandWithOptions {} ["/usr/bin/git".toList, "push".toList] none hostOptions,
      m.isPolicyMatch = true ∧ m.decision = .forbidden) ∧
    ∃ policy', appendAmendmentAndUpdate {} (fun _ => .ok ()) noPush ["/usr/bin/git".toList] = .ok policy' ∧
      (policy'.checkWithOptions {} ["/usr/bin/git".toList, "push".toList] (fun _ => .forbidden) hostOptions).map
        Evaluation.decision = some .allow := by
  refine ⟨by decide +kernel, _, rfl, by decide +kernel⟩

theorem decision_amended_literal :
    ∃ policy', appendAmendmentAndUpdate {} (fun _ => .ok ()) noPush ["git".toList] = .ok policy' ∧
      (policy'.checkWithOptions {} ["/usr/bin/git".toList, "push".toList] (fun _ => .allow) hostOptions).map
        Evaluation.decision = some .forbidden := by
  have hban : ∃ m ∈ noPush.matchesForCommandWithOptions {} ["/usr/bin/git".toList, "push".toList] none hostOptions,
      m.isPolicyMatch = true ∧ m.decision = .forbidden := by decide +kernel
  obtain ⟨policy', hupdate⟩ : ∃ policy',
      appendAmendmentAndUpdate {} (fun _ => .ok ()) noPush ["git".toList] = .ok policy' := ⟨_, rfl⟩
  refine ⟨policy', hupdate, (decision_amended (fun _ => .allow) hban hupdate).trans ?_⟩
  rw [if_neg]
  rintro ⟨-, hbegins, -⟩
  exact absurd hbegins (by decide +kernel)

end ExecPolicy
