import Codez.Lib.Framing
import Codez.Lib.Streaming
import Codez.Lib.Text

/-!
Hidden inline tags of a streamed text (`utils/stream-parser/src/inline_hidden_tag.rs`).

`pushStr` takes whole tags off the pending text and holds back an end that may still become one.
-/

namespace StreamParser

open Streaming List

@[ext]
structure StreamTextChunk (T : Type) where
  visibleText : Text := []
  extracted : List T := []
deriving DecidableEq

instance {T : Type} : Append (StreamTextChunk T) where
  append a b := ⟨a.visibleText ++ b.visibleText, a.extracted ++ b.extracted⟩

section
variable {T : Type} (a b out : StreamTextChunk T)

@[simp] theorem StreamTextChunk.visibleText_append :
    (a ++ b).visibleText = a.visibleText ++ b.visibleText := rfl

@[simp] theorem StreamTextChunk.extracted_append :
    (a ++ b).extracted = a.extracted ++ b.extracted := rfl

theorem StreamTextChunk.append_assoc (a b c : StreamTextChunk T) : a ++ b ++ c = a ++ (b ++ c) := by
  ext1
  · exact List.append_assoc _ _ _
  · exact List.append_assoc _ _ _

theorem StreamTextChunk.append_visible (text : Text) (rest : StreamTextChunk T) :
    out ++ ({ visibleText := text } ++ rest) = { out with visibleText := out.visibleText ++ text } ++ rest := by
  rw [← append_assoc]
  congr 1
  ext1
  · rfl
  · exact append_nil _

theorem StreamTextChunk.append_extracted (items : List T) (rest : StreamTextChunk T) :
    out ++ ({ extracted := items } ++ rest) = { out with extracted := out.extracted ++ items } ++ rest := by
  rw [← append_assoc]
  congr 1
  ext1
  · exact append_nil _
  · rfl

theorem StreamTextChunk.eq_empty_of_append {text : Text} {item item' : T} {rest : StreamTextChunk T}
    (h : { visibleText := text } ++ ({ extracted := [item] } ++ rest) = { extracted := [item'] }) :
    item = item' ∧ rest = {} := by
  have hextracted := congrArg extracted h
  have hvisible := congrArg visibleText h
  simp only [extracted_append, visibleText_append, nil_append, singleton_append, cons.injEq,
    append_eq_nil_iff] at hextracted hvisible
  exact ⟨hextracted.1, StreamTextChunk.ext hvisible.2 hextracted.2⟩

end

structure ExtractedInlineTag (T : Type) where
  tag : T
  content : Text
deriving DecidableEq

structure InlineTagSpec (T : Type) where
  tag : T
  openTag : Text
  closeTag : Text
  open_ne_nil : openTag ≠ []
  close_ne_nil : closeTag ≠ []

structure ActiveTag (T : Type) where
  tag : T
  close : Text
  content : Text

structure InlineHiddenTagParser (T : Type) where
  specs : List (InlineTagSpec T)
  pending : Text := []
  active : Option (ActiveTag T) := none

def longestSuffixPrefixLen (s needle : Text) : Nat := Framing.overlap needle s

namespace InlineHiddenTagParser

variable {T : Type}

structure FoundOpen (T : Type) where
  before : Text
  after : Text
  spec : InlineTagSpec T

def findOpen (pending : Text) (spec : InlineTagSpec T) : Option (FoundOpen T) :=
  (Framing.cutAt spec.openTag pending).map fun (before, after) => ⟨before, after, spec⟩

/-- Earlier in the text, or longer at the same place; of equals the first one stays. -/
def FoundOpen.better (a b : FoundOpen T) : Bool :=
  a.before.length < b.before.length ||
    (a.before.length == b.before.length && b.spec.openTag.byteLen < a.spec.openTag.byteLen)

def findNextOpen (p : InlineHiddenTagParser T) : Option (FoundOpen T) :=
  match p.specs.filterMap (findOpen p.pending) with
  | [] => none
  | found :: rest => some (rest.foldl (fun best found => if found.better best then found else best) found)

def maxOpenPrefixSuffixLen (p : InlineHiddenTagParser T) : Nat :=
  (p.specs.map fun spec => longestSuffixPrefixLen p.pending spec.openTag).foldl max 0

def pushLoop : Nat → InlineHiddenTagParser T → StreamTextChunk (ExtractedInlineTag T) →
    StreamTextChunk (ExtractedInlineTag T) × InlineHiddenTagParser T
  | 0, p, out => (out, p)
  | rounds + 1, p, out =>
    match p.active with
    | some active =>
      match Framing.cutAt active.close p.pending with
      | some (before, after) =>
        pushLoop rounds { p with pending := after, active := none }
          { out with extracted := out.extracted ++ [⟨active.tag, active.content ++ before⟩] }
      | none =>
        let take := p.pending.length - longestSuffixPrefixLen p.pending active.close
        (out, { p with
          pending := p.pending.drop take
          active := some { active with content := active.content ++ p.pending.take take } })
    | none =>
      match p.findNextOpen with
      | some found =>
        pushLoop rounds
          { p with pending := found.after, active := some ⟨found.spec.tag, found.spec.closeTag, []⟩ }
          { out with visibleText := out.visibleText ++ found.before }
      | none =>
        let take := p.pending.length - p.maxOpenPrefixSuffixLen
        ({ out with visibleText := out.visibleText ++ p.pending.take take }, { p with pending := p.pending.drop take })

def pushStr (p : InlineHiddenTagParser T) (chunk : Text) :
    StreamTextChunk (ExtractedInlineTag T) × InlineHiddenTagParser T :=
  let pending := p.pending ++ chunk
  pushLoop (pending.length + 1) { p with pending } {}

def finish (p : InlineHiddenTagParser T) : StreamTextChunk (ExtractedInlineTag T) :=
  match p.active with
  | some active => { extracted := [⟨active.tag, active.content ++ p.pending⟩] }
  | none => { visibleText := p.pending }

end InlineHiddenTagParser

/-! ## Whole texts -/

section
variable {T : Type} (spec : InlineTagSpec T)

theorem length_of_cutAt {sep text pre after : Text} (hsep : sep ≠ [])
    (h : Framing.cutAt sep text = some (pre, after)) : after.length < text.length :=
  (Framing.sepCutter sep hsep).shrinks text pre after h

/-- The visible text and the tags of a text; `inside` is the content so far of a tag that is open. -/
def hideTags (inside : Option Text) (text : Text) : StreamTextChunk (ExtractedInlineTag T) :=
  match inside with
  | none =>
    match _h : Framing.cutAt spec.openTag text with
    | none => { visibleText := text }
    | some (before, after) => { visibleText := before } ++ hideTags (some []) after
  | some content =>
    match _h : Framing.cutAt spec.closeTag text with
    | none => { extracted := [⟨spec.tag, content ++ text⟩] }
    | some (before, after) => { extracted := [⟨spec.tag, content ++ before⟩] } ++ hideTags none after
termination_by text.length
decreasing_by
  · exact length_of_cutAt spec.open_ne_nil _h
  · exact length_of_cutAt spec.close_ne_nil _h

end

namespace InlineHiddenTagParser

variable {T : Type} (spec : InlineTagSpec T) {best : Option (FoundOpen T)} {p : InlineHiddenTagParser T}

def whole : Nat → InlineHiddenTagParser T → StreamTextChunk (ExtractedInlineTag T)
  | 0, _ => {}
  | rounds + 1, p =>
    match p.active with
    | some active =>
      match Framing.cutAt active.close p.pending with
      | some (before, after) =>
        { extracted := [⟨active.tag, active.content ++ before⟩] } ++
          whole rounds { p with pending := after, active := none }
      | none => { extracted := [⟨active.tag, active.content ++ p.pending⟩] }
    | none =>
      match p.findNextOpen with
      | some found =>
        { visibleText := found.before } ++
          whole rounds { p with pending := found.after, active := some ⟨found.spec.tag, found.spec.closeTag, []⟩ }
      | none => { visibleText := p.pending }

theorem findNextOpen_single (pending : Text) (active : Option (ActiveTag T)) :
    findNextOpen ⟨[spec], pending, active⟩ = findOpen pending spec := by
  cases hfnd : findOpen pending spec with
  | none | some found => simp [findNextOpen, hfnd]

theorem whole_single (rounds : Nat) (inside : Option Text) (text : Text)
    (hlen : text.length < rounds) :
    whole rounds ⟨[spec], text, inside.map (⟨spec.tag, spec.closeTag, ·⟩)⟩ = hideTags spec inside text := by
  induction rounds generalizing inside text with
  | zero => omega
  | succ rounds ih =>
    symm
    cases inside with
    | none =>
      simp only [whole, Option.map_none, findNextOpen_single, findOpen]
      rw [hideTags]
      split
      · next hcut => rw [hcut, Option.map_none]
      · next pre after hcut =>
        have hshort := length_of_cutAt spec.open_ne_nil hcut
        rw [hcut, Option.map_some, ← ih (some []) after (by omega), Option.map_some]
    | some content =>
      simp only [whole, Option.map_some]
      rw [hideTags]
      split
      · next hcut => rw [hcut]
      · next pre after hcut =>
        have hshort := length_of_cutAt spec.close_ne_nil hcut
        rw [hcut, ← ih none after (by omega), Option.map_none]

/-! ## The next open tag -/

def pick : Option (FoundOpen T) → Option (FoundOpen T) → Option (FoundOpen T)
  | none, found => found
  | some best, none => some best
  | some best, some found => some (if found.better best then found else best)

def pickOpen (pending : Text) (best : Option (FoundOpen T)) (spec : InlineTagSpec T) : Option (FoundOpen T) :=
  pick best (findOpen pending spec)

theorem foldl_pickOpen (pending : Text) (specs : List (InlineTagSpec T)) (best : FoundOpen T) :
    specs.foldl (pickOpen pending) (some best) = some ((specs.filterMap (findOpen pending)).foldl
      (fun best found => if found.better best then found else best) best) := by
  induction specs generalizing best with
  | nil => rfl
  | cons spec specs ih =>
    rw [foldl_cons, filterMap_cons, pickOpen]
    cases findOpen pending spec with
    | none => exact ih best
    | some found => exact ih _

theorem findNextOpen_eq (specs : List (InlineTagSpec T)) (pending : Text) (active : Option (ActiveTag T)) :
    findNextOpen ⟨specs, pending, active⟩ = specs.foldl (pickOpen pending) none := by
  unfold findNextOpen
  induction specs with
  | nil => rfl
  | cons spec specs ih =>
    simp only [foldl_cons, filterMap_cons, pickOpen] at ih ⊢
    cases findOpen pending spec with
    | none => exact ih
    | some found => exact (foldl_pickOpen pending specs found).symm

/-- No open tag is complete before the last character of an open tag. -/
def Clear (specs : List (InlineTagSpec T)) : Prop :=
  ∀ spec ∈ specs, ∀ other ∈ specs, ¬ spec.openTag <:+: other.openTag.dropLast

theorem clear_single : Clear [spec] := by
  intro spec hspec other hoth hin
  obtain rfl := mem_singleton.mp hspec
  obtain rfl := mem_singleton.mp hoth
  have hle := hin.length_le
  have hpos := length_pos_iff.mpr other.open_ne_nil
  rw [length_dropLast] at hle
  omega

section
variable {specs : List (InlineTagSpec T)} {pending text : Text} {active : Option (ActiveTag T)} {found : FoundOpen T}
  {spec : InlineTagSpec T}

/-- The find for a pending text, and the one when `text` follows: the same one, or one that starts behind
every find for the pending text. -/
def Later (specs : List (InlineTagSpec T)) (pending text : Text) : Option (FoundOpen T) → Option (FoundOpen T) → Prop
  | some found, later => later = some { found with after := found.after ++ text } ∧
      ∃ spec ∈ specs, findOpen pending spec = some found
  | none, later => ∀ found ∈ later, ∀ spec ∈ specs, ∀ early, findOpen pending spec = some early →
      early.before.length < found.before.length

theorem findOpen_stable (text : Text) (h : findOpen pending spec = some found) :
    findOpen (pending ++ text) spec = some { found with after := found.after ++ text } := by
  obtain ⟨⟨pre, after⟩, hcut, rfl⟩ := Option.map_eq_some_iff.mp h
  rw [findOpen, Framing.cutAt_stable _ _ _ _ text hcut]
  rfl

theorem findOpen_later (hclear : Clear specs) {other : InlineTagSpec T} (hspec : spec ∈ specs) (hoth : other ∈ specs)
    {early : FoundOpen T} (hearly : findOpen pending spec = some early) (hnone : findOpen pending other = none)
    (hfnd : findOpen (pending ++ text) other = some found) :
    early.before.length < found.before.length := by
  obtain ⟨⟨pre, after⟩, hcut, rfl⟩ := Option.map_eq_some_iff.mp hearly
  obtain ⟨⟨before', after'⟩, hcut', rfl⟩ := Option.map_eq_some_iff.mp hfnd
  exact Framing.length_lt_of_cutAt_append other.open_ne_nil hcut (Option.map_eq_none_iff.mp hnone) hcut'
    (hclear spec hspec other hoth)

theorem Later.pickOpen (hclear : Clear specs) (hspec : spec ∈ specs) {best' : Option (FoundOpen T)}
    (h : Later specs pending text best best') :
    Later specs pending text (pickOpen pending best spec) (pickOpen (pending ++ text) best' spec) := by
  unfold InlineHiddenTagParser.pickOpen
  cases hfnd : findOpen pending spec with
  | some found =>
    rw [findOpen_stable text hfnd]
    cases best with
    | none =>
      refine ⟨?_, spec, hspec, hfnd⟩
      cases best' with
      | none => rfl
      | some late =>
        have hlt := h late rfl spec hspec found hfnd
        simp [pick, FoundOpen.better, hlt]
    | some best =>
      obtain ⟨rfl, hbest⟩ := h
      simp only [pick]
      -- appending to the text behind does not change which one is better
      by_cases hbetter : found.better best = true
      · rw [if_pos hbetter]
        exact ⟨congrArg some (if_pos hbetter), spec, hspec, hfnd⟩
      · rw [if_neg hbetter]
        exact ⟨congrArg some (if_neg hbetter), hbest⟩
  | none =>
    cases hlate : findOpen (pending ++ text) spec with
    | none => cases best <;> cases best' <;> exact h
    | some late =>
      have hbehind : ∀ other ∈ specs, ∀ early, findOpen pending other = some early →
          early.before.length < late.before.length := fun other hoth early hearly =>
        findOpen_later hclear hoth hspec hearly hfnd hlate
      cases best with
      | some best =>
        obtain ⟨rfl, other, hoth, hearly⟩ := h
        have hlt := hbehind other hoth best hearly
        refine ⟨?_, other, hoth, hearly⟩
        simp [pick, FoundOpen.better, Nat.lt_asymm hlt, (Nat.ne_of_lt hlt).symm]
      | none =>
        cases best' with
        | none =>
          rintro found ⟨⟩
          exact hbehind
        | some late' =>
          intro found hmem
          simp only [pick, Option.mem_some_iff] at hmem
          split at hmem
          · exact hmem ▸ hbehind
          · exact hmem ▸ h late' rfl

theorem findNextOpen_stable (hclear : text = [] ∨ Clear specs)
    (h : findNextOpen ⟨specs, pending, active⟩ = some found) :
    findNextOpen ⟨specs, pending ++ text, active⟩ = some { found with after := found.after ++ text } := by
  rcases hclear with rfl | hclear
  · rw [append_nil, append_nil, h]
  rw [findNextOpen_eq] at h ⊢
  have hlater : Later specs pending text (specs.foldl (pickOpen pending) none)
      (specs.foldl (pickOpen (pending ++ text)) none) :=
    foldl_rel (by rintro found ⟨⟩) fun spec hspec _ _ hbest => hbest.pickOpen hclear hspec
  rw [h] at hlater
  exact hlater.1

theorem findOpen_of_findNextOpen (h : findNextOpen ⟨specs, pending, active⟩ = some found) :
    found.spec ∈ specs ∧ Framing.cutAt found.spec.openTag pending = some (found.before, found.after) := by
  rw [findNextOpen_eq] at h
  refine List.foldlRecOn (motive := fun best => ∀ found : FoundOpen T, found ∈ best → found.spec ∈ specs ∧
    Framing.cutAt found.spec.openTag pending = some (found.before, found.after)) specs (pickOpen pending)
    (fun _ hnone => absurd hnone (Option.not_mem_none _)) ?_ found h
  intro best hbest spec hspec found hfnd
  unfold pickOpen at hfnd
  cases hopen : findOpen pending spec with
  | none =>
    rw [hopen] at hfnd
    cases best <;> exact hbest found hfnd
  | some candidate =>
    obtain ⟨⟨pre, after⟩, hcut, rfl⟩ := Option.map_eq_some_iff.mp hopen
    rw [hopen] at hfnd
    cases best with
    | none =>
      cases hfnd
      exact ⟨hspec, hcut⟩
    | some best =>
      simp only [pick, Option.mem_some_iff] at hfnd
      split at hfnd
      · exact hfnd ▸ ⟨hspec, hcut⟩
      · exact hbest found (congrArg some hfnd)

theorem findNextOpen_eq_none_iff :
    findNextOpen ⟨specs, pending, active⟩ = none ↔ ∀ spec ∈ specs, Framing.cutAt spec.openTag pending = none := by
  have hnil : specs.filterMap (findOpen pending) = [] ↔ ∀ spec ∈ specs, Framing.cutAt spec.openTag pending = none := by
    simp only [filterMap_eq_nil_iff, findOpen, Option.map_eq_none_iff]
  rw [← hnil]
  unfold findNextOpen
  split
  · next hnone => exact iff_of_true rfl hnone
  · next hcons => exact iff_of_false (Option.some_ne_none _) (by rw [hcons]; exact cons_ne_nil _ _)

theorem findNextOpen_nil : findNextOpen ⟨specs, [], active⟩ = none :=
  findNextOpen_eq_none_iff.mpr fun _ _ => rfl

theorem overlap_le_max {spec : InlineTagSpec T} (hspec : spec ∈ specs) :
    Framing.overlap spec.openTag pending ≤ maxOpenPrefixSuffixLen ⟨specs, pending, active⟩ := by
  rw [maxOpenPrefixSuffixLen, foldl_eq_foldr]
  exact le_max_of_le (mem_map_of_mem hspec) (Nat.le_refl _)

theorem maxOpenPrefixSuffixLen_le : maxOpenPrefixSuffixLen ⟨specs, pending, active⟩ ≤ pending.length := by
  rw [maxOpenPrefixSuffixLen, foldl_eq_foldr]
  refine max_le_of_forall_le _ _ fun keep hkeep => ?_
  obtain ⟨spec, -, rfl⟩ := mem_map.mp hkeep
  exact Framing.overlap_le_length _ _

def FoundOpen.behind (before : Text) (found : FoundOpen T) : FoundOpen T :=
  { found with before := before ++ found.before }

theorem pick_behind (pre : Text) (best found : Option (FoundOpen T)) :
    pick (best.map (FoundOpen.behind pre)) (found.map (FoundOpen.behind pre)) =
      (pick best found).map (FoundOpen.behind pre) := by
  cases best <;> cases found
  case some.some best found =>
    have hbetter : (found.behind pre).better (best.behind pre) = found.better best := by
      unfold FoundOpen.better FoundOpen.behind
      rw [Bool.eq_iff_iff]
      simp
    simp only [Option.map_some, pick, hbetter]
    split <;> rfl
  all_goals rfl

theorem findNextOpen_held (h : findNextOpen ⟨specs, pending, active⟩ = none) (text : Text) {take : Nat}
    (htake : take = pending.length - maxOpenPrefixSuffixLen ⟨specs, pending, active⟩) :
    findNextOpen ⟨specs, pending ++ text, active⟩ =
      (findNextOpen ⟨specs, pending.drop take ++ text, active⟩).map (FoundOpen.behind (pending.take take)) := by
  rw [findNextOpen_eq, findNextOpen_eq]
  refine foldl_rel (r := fun best best' => best = Option.map _ best') rfl fun spec hspec best best' hbest => ?_
  have hcut := Framing.cutAt_drop_overlap _ _ text (findNextOpen_eq_none_iff.mp h spec hspec)
    (@overlap_le_max _ _ _ active _ hspec) maxOpenPrefixSuffixLen_le
  rw [← htake] at hcut
  have hopen : findOpen (pending ++ text) spec =
      (findOpen (pending.drop take ++ text) spec).map (FoundOpen.behind (pending.take take)) := by
    rw [findOpen, findOpen, hcut, Option.map_map, Option.map_map]
    rfl
  rw [pickOpen, hbest, hopen, pick_behind]
  rfl

end

/-! ## Streaming -/

/-- Between two pushes the pending text holds no tag that could be taken. -/
structure Drained (p : InlineHiddenTagParser T) : Prop where
  close : ∀ active ∈ p.active, active.close ≠ []
  no_open : p.active = none → p.findNextOpen = none
  no_close : ∀ active ∈ p.active, Framing.cutAt active.close p.pending = none

structure Settled (p : InlineHiddenTagParser T) : Prop extends Drained p where
  clear : Clear p.specs

theorem whole_congr (n : Nat) : ∀ (m : Nat) (p : InlineHiddenTagParser T), (∀ active ∈ p.active, active.close ≠ []) →
    p.pending.length < n → p.pending.length < m → whole n p = whole m p := by
  induction n with
  | zero => intros; omega
  | succ n ih =>
    rintro (_ | m) ⟨specs, pending, active⟩ hcl hn hm
    · omega
    simp only at hcl hn hm
    cases active with
    | some active =>
      simp only [whole]
      cases hcut : Framing.cutAt active.close pending with
      | none => rfl
      | some found =>
        have hshort := length_of_cutAt (hcl active rfl) hcut
        have hr := ih m ⟨specs, found.2, none⟩ (by rintro _ ⟨⟩) (by simp only; omega) (by simp only; omega)
        simp only [hr]
    | none =>
      simp only [whole]
      cases hfnd : findNextOpen ⟨specs, pending, none⟩ with
      | none => rfl
      | some found =>
        have hshort := length_of_cutAt found.spec.open_ne_nil (findOpen_of_findNextOpen hfnd).2
        have hr := ih m ⟨specs, found.after, some ⟨found.spec.tag, found.spec.closeTag, []⟩⟩
          (by rintro _ ⟨⟩; exact found.spec.close_ne_nil) (by simp only; omega) (by simp only; omega)
        simp only [hr]

def meaning (p : InlineHiddenTagParser T) (text : Text) : StreamTextChunk (ExtractedInlineTag T) :=
  whole (p.pending.length + text.length + 1) { p with pending := p.pending ++ text }

section
variable {specs : List (InlineTagSpec T)} {pending text : Text} {active : ActiveTag T} {take : Nat}

theorem meaning_eq (hcl : ∀ active ∈ p.active, active.close ≠ []) {n : Nat}
    (hn : p.pending.length + text.length < n) : p.meaning text = whole n { p with pending := p.pending ++ text } :=
  whole_congr _ _ _ hcl (by simp) (by simp [hn])

theorem meaning_close (hne : active.close ≠ []) {pre after : Text}
    (hcut : Framing.cutAt active.close pending = some (pre, after)) :
    meaning ⟨specs, pending, some active⟩ text =
      { extracted := [⟨active.tag, active.content ++ pre⟩] } ++ meaning ⟨specs, after, none⟩ text := by
  have hshort := length_of_cutAt hne hcut
  rw [meaning_eq (p := ⟨specs, after, none⟩) (by rintro _ ⟨⟩) (Nat.add_lt_add_right hshort text.length)]
  simp only [meaning, whole, Framing.cutAt_stable _ _ _ _ text hcut]

theorem meaning_open (hclear : text = [] ∨ Clear specs) {found : FoundOpen T}
    (hfnd : findNextOpen ⟨specs, pending, none⟩ = some found) :
    meaning ⟨specs, pending, none⟩ text =
      { visibleText := found.before } ++
        meaning ⟨specs, found.after, some ⟨found.spec.tag, found.spec.closeTag, []⟩⟩ text := by
  have hshort := length_of_cutAt found.spec.open_ne_nil (findOpen_of_findNextOpen hfnd).2
  rw [meaning_eq (p := ⟨specs, found.after, some ⟨found.spec.tag, found.spec.closeTag, []⟩⟩)
    (by rintro _ ⟨⟩; exact found.spec.close_ne_nil) (Nat.add_lt_add_right hshort text.length)]
  simp only [meaning, whole, findNextOpen_stable hclear hfnd]

theorem meaning_held_inside (hne : active.close ≠ []) (hcut : Framing.cutAt active.close pending = none)
    (htake : take = pending.length - longestSuffixPrefixLen pending active.close) :
    meaning ⟨specs, pending, some active⟩ text =
      meaning ⟨specs, pending.drop take, some { active with content := active.content ++ pending.take take }⟩ text := by
  have hheld := Framing.cutAt_drop_overlap active.close pending text hcut (Nat.le_refl _)
    (Framing.overlap_le_length _ _)
  rw [← longestSuffixPrefixLen, ← htake] at hheld
  have hspl := take_append_drop take pending
  rw [meaning_eq (n := pending.length + text.length + 1) (p := ⟨specs, pending.drop take, some _⟩)
    (by rintro _ ⟨⟩; exact hne) (by simp only [length_drop]; omega)]
  simp only [meaning, whole, hheld]
  cases Framing.cutAt active.close (pending.drop take ++ text) with
  | none =>
    simp only [Option.map_none]
    rw [append_assoc active.content, ← append_assoc (pending.take take), hspl]
  | some found =>
    simp only [Option.map_some]
    rw [append_assoc active.content]

theorem meaning_held (hfnd : findNextOpen ⟨specs, pending, none⟩ = none)
    (htake : take = pending.length - maxOpenPrefixSuffixLen ⟨specs, pending, none⟩) :
    meaning ⟨specs, pending, none⟩ text =
      { visibleText := pending.take take } ++ meaning ⟨specs, pending.drop take, none⟩ text := by
  have hspl := take_append_drop take pending
  rw [meaning_eq (n := pending.length + text.length + 1) (p := ⟨specs, pending.drop take, none⟩)
    (by rintro _ ⟨⟩) (by simp only [length_drop]; omega)]
  simp only [meaning, whole, findNextOpen_held hfnd text htake]
  cases findNextOpen ⟨specs, pending.drop take ++ text, none⟩ with
  | none =>
    ext1
    · rw [StreamTextChunk.visibleText_append, ← append_assoc, hspl]
      rfl
    · rfl
  | some found =>
    rw [← StreamTextChunk.append_assoc]
    rfl

end

theorem pushLoop_spec (rounds : Nat) :
    ∀ (p : InlineHiddenTagParser T) (out : StreamTextChunk (ExtractedInlineTag T)),
      (∀ active ∈ p.active, active.close ≠ []) → p.pending.length < rounds →
      Drained (pushLoop rounds p out).2 ∧ (pushLoop rounds p out).2.specs = p.specs ∧
        ∀ text, text = [] ∨ Clear p.specs →
          out ++ p.meaning text = (pushLoop rounds p out).1 ++ (pushLoop rounds p out).2.meaning text := by
  induction rounds with
  | zero =>
    intro p out _ hlen
    omega
  | succ rounds ih =>
    rintro ⟨specs, pending, active⟩ out hclose hlen
    simp only at hlen
    cases active with
    | some active =>
      have hne := hclose active rfl
      simp only [pushLoop]
      cases hcut : Framing.cutAt active.close pending with
      | some found =>
        have hshort := length_of_cutAt hne hcut
        obtain ⟨hdrained, hspecs, hmeaning⟩ := ih ⟨specs, found.2, none⟩
          { out with extracted := out.extracted ++ [⟨active.tag, active.content ++ found.1⟩] }
          (by rintro _ ⟨⟩) (by simp only; omega)
        refine ⟨hdrained, hspecs, fun text hclear => ?_⟩
        rw [← hmeaning text hclear, meaning_close hne hcut, StreamTextChunk.append_extracted]
      | none =>
        refine ⟨⟨?_, by rintro ⟨⟩, ?_⟩, rfl, fun text _ => congrArg _ (meaning_held_inside hne hcut rfl)⟩
        · rintro _ ⟨⟩
          exact hne
        · rintro _ ⟨⟩
          exact Framing.cutAt_drop_eq_none _ _ hcut _
    | none =>
      simp only [pushLoop]
      cases hfnd : findNextOpen ⟨specs, pending, none⟩ with
      | some found =>
        have hshort := length_of_cutAt found.spec.open_ne_nil (findOpen_of_findNextOpen hfnd).2
        obtain ⟨hdrained, hspecs, hmeaning⟩ := ih ⟨specs, found.after, some ⟨found.spec.tag, found.spec.closeTag, []⟩⟩
          { out with visibleText := out.visibleText ++ found.before }
          (by rintro _ ⟨⟩; exact found.spec.close_ne_nil) (by simp only; omega)
        refine ⟨hdrained, hspecs, fun text hclear => ?_⟩
        rw [← hmeaning text hclear, meaning_open hclear hfnd, StreamTextChunk.append_visible]
      | none =>
        refine ⟨⟨by rintro _ ⟨⟩, fun _ => ?_, by rintro _ ⟨⟩⟩, rfl, fun text _ => ?_⟩
        · rw [findNextOpen_eq_none_iff] at hfnd ⊢
          exact fun spec hspec => Framing.cutAt_drop_eq_none _ _ (hfnd spec hspec) _
        · rw [meaning_held hfnd rfl, StreamTextChunk.append_visible]

theorem pushStr_spec (p : InlineHiddenTagParser T) (piece : Text) (hclose : ∀ active ∈ p.active, active.close ≠ []) :
    Drained (p.pushStr piece).2 ∧ (p.pushStr piece).2.specs = p.specs ∧ ∀ text, text = [] ∨ Clear p.specs →
      p.meaning (piece ++ text) = (p.pushStr piece).1 ++ (p.pushStr piece).2.meaning text := by
  obtain ⟨hdrained, hspecs, hmeaning⟩ :=
    pushLoop_spec _ { p with pending := p.pending ++ piece } {} hclose (Nat.lt_succ_self _)
  refine ⟨hdrained, hspecs, fun text hclear => ?_⟩
  rw [pushStr, ← hmeaning text hclear]
  show whole _ ⟨_, p.pending ++ (piece ++ text), _⟩ = whole _ ⟨_, p.pending ++ piece ++ text, _⟩
  rw [append_assoc, length_append, length_append, ← Nat.add_assoc p.pending.length]

theorem Drained.finish_eq (hp : Drained p) : p.finish = p.meaning [] := by
  obtain ⟨specs, pending, active⟩ := p
  simp only [meaning, whole, append_nil]
  cases active with
  | none =>
    rw [hp.no_open rfl]
    rfl
  | some active =>
    simp only [hp.no_close active rfl]
    rfl

theorem streams_meaning :
    Streams id pushStr InlineHiddenTagParser.finish (Settled (T := T)) meaning where
  inv p piece hp := by
    obtain ⟨hdrained, hspecs, -⟩ := pushStr_spec p piece hp.close
    exact ⟨hdrained, by rw [hspecs]; exact hp.clear⟩
  push p piece text hp := (pushStr_spec p piece hp.close).2.2 text (.inr hp.clear)
  finish _ hp := hp.finish_eq

theorem settled_new {specs : List (InlineTagSpec T)} (hclear : Clear specs) : Settled { specs } where
  clear := hclear
  close := by rintro _ ⟨⟩
  no_open _ := findNextOpen_nil
  no_close := by rintro _ ⟨⟩

theorem run_chunks {specs : List (InlineTagSpec T)} (hclear : Clear specs) (chunks : List Text) :
    run pushStr InlineHiddenTagParser.finish { specs } chunks =
      run pushStr InlineHiddenTagParser.finish { specs } [chunks.flatten] := by
  have hrun := fun pieces => streams_meaning.run_eq (fun _ _ => rfl) pieces { specs } (settled_new hclear)
  have hflat := hrun [chunks.flatten]
  rw [flatten_singleton] at hflat
  exact (hrun chunks).trans hflat.symm

/-! ## Open tags that are not clear -/

theorem run_single (p : InlineHiddenTagParser T) (text : Text) (hclose : ∀ active ∈ p.active, active.close ≠ []) :
    run pushStr InlineHiddenTagParser.finish p [text] = p.meaning text := by
  obtain ⟨hdrained, -, hmeaning⟩ := pushStr_spec p text hclose
  have hmeaning := hmeaning [] (.inl rfl)
  rw [append_nil, ← hdrained.finish_eq] at hmeaning
  exact hmeaning.symm

section
variable {specs : List (InlineTagSpec T)} {pending : Text} {found : FoundOpen T} {spec : InlineTagSpec T}

theorem pick_not_better (h : ∃ b, best = some b ∧ found.better b = false)
    (candidate : Option (FoundOpen T)) : ∃ b, pick best candidate = some b ∧ found.better b = false := by
  obtain ⟨b, rfl, hb⟩ := h
  cases candidate with
  | none => exact ⟨b, rfl, hb⟩
  | some candidate =>
    refine ⟨_, rfl, ?_⟩
    split
    · next hbetter =>
      simp only [FoundOpen.better, Bool.or_eq_true, Bool.and_eq_true, Bool.or_eq_false_iff, Bool.and_eq_false_iff,
        decide_eq_true_eq, decide_eq_false_iff_not, beq_iff_eq, beq_eq_false_iff_ne] at hb hbetter ⊢
      omega
    · exact hb

theorem pick_self (best : Option (FoundOpen T)) : ∃ b, pick best (some found) = some b ∧ found.better b = false := by
  have hself : found.better found = false := by simp [FoundOpen.better]
  cases best with
  | none => exact ⟨found, rfl, hself⟩
  | some best =>
    refine ⟨_, rfl, ?_⟩
    split
    · exact hself
    · next h => simpa using h

/-- What is found in a text is no better than the next open tag. -/
theorem findNextOpen_best (hspec : spec ∈ specs) (h : findOpen pending spec = some found) :
    ∃ best, findNextOpen ⟨specs, pending, none⟩ = some best ∧ found.better best = false := by
  obtain ⟨specs, specs', rfl⟩ := append_of_mem hspec
  rw [findNextOpen_eq, foldl_append, foldl_cons, pickOpen, h]
  refine List.foldlRecOn (motive := fun best => ∃ b, best = some b ∧ found.better b = false) specs' _ (pick_self _) ?_
  intro best hbest spec' _
  exact pick_not_better hbest _

theorem findNextOpen_openTag (hspec : spec ∈ specs) (text : Text) :
    ∃ best, findNextOpen ⟨specs, spec.openTag ++ text, none⟩ = some best ∧ best.before = [] ∧ best.after <:+ text := by
  have hopen : findOpen (spec.openTag ++ text) spec = some ⟨[], text, spec⟩ := by
    obtain ⟨c, rest, hc⟩ := exists_cons_of_ne_nil spec.open_ne_nil
    simp [findOpen, hc, Framing.cutAt]
  obtain ⟨best, hbest, hworse⟩ := findNextOpen_best hspec hopen
  have hcut := Framing.cutAt_eq_some _ _ _ _ (findOpen_of_findNextOpen hbest).2
  simp only [FoundOpen.better, Bool.or_eq_false_iff, Bool.and_eq_false_iff, decide_eq_false_iff_not,
    beq_eq_false_iff_ne, length_nil, not_lt, Nat.le_zero] at hworse
  have hnil : best.before = [] := length_eq_zero_iff.mp hworse.1
  refine ⟨best, hbest, hnil, ?_⟩
  rw [hnil, nil_append] at hcut
  rcases append_eq_append_iff.mp hcut with ⟨more, -, htext⟩ | ⟨more, htag, hafter⟩
  · exact ⟨more, htext.symm⟩
  · -- the tag that is found is not shorter, so nothing of `spec.openTag` is left behind it
    have hbytes := congrArg Text.byteLen htag
    rw [Text.byteLen_append] at hbytes
    have hmore : more = [] := by
      cases more with
      | nil => rfl
      | cons c more =>
        have hpos := c.utf8Size_pos
        rw [Text.byteLen_cons] at hbytes
        rcases hworse.2 with hne | hle
        · exact absurd (congrArg List.length hnil).symm hne
        · omega
    rw [hafter, hmore]
    exact suffix_refl text

/-- The first open tag of a text is complete at the end of some start of it. -/
theorem exists_findNextOpen {text : Text} (hspec : spec ∈ specs) (hin : spec.openTag <:+: text) :
    ∃ piece rest found, text = piece ++ rest ∧ findNextOpen ⟨specs, piece, none⟩ = some found ∧ found.after = [] := by
  induction text using reverseRecOn generalizing spec with
  | nil => exact absurd (infix_nil.mp hin) spec.open_ne_nil
  | append_singleton text c ih =>
    obtain ⟨pre, after, hpre⟩ := hin
    rw [append_assoc] at hpre
    have hsome : findNextOpen ⟨specs, text ++ [c], none⟩ ≠ none := fun hnone =>
      Framing.cutAt_ne_none spec.open_ne_nil pre after (hpre ▸ findNextOpen_eq_none_iff.mp hnone spec hspec)
    obtain ⟨found, hfound⟩ := Option.ne_none_iff_exists'.mp hsome
    obtain ⟨hmem, hcut⟩ := findOpen_of_findNextOpen hfound
    have htext := Framing.cutAt_eq_some _ _ _ _ hcut
    rcases eq_nil_or_concat' found.after with hnil | ⟨more, d, hmore⟩
    · exact ⟨text ++ [c], [], found, (append_nil _).symm, hfound, hnil⟩
    · rw [hmore, ← append_assoc] at htext
      obtain ⟨piece, rest, found', hsplit, hfound', hafter⟩ := ih hmem ⟨_, more, (append_inj' htext rfl).1.symm⟩
      exact ⟨piece, rest ++ [c], found', by rw [hsplit, append_assoc], hfound', hafter⟩

theorem pushStr_openTag (hfound : findNextOpen ⟨specs, pending, none⟩ = some found) (hafter : found.after = []) :
    pushStr { specs } pending =
      ({ visibleText := found.before }, ⟨specs, [], some ⟨found.spec.tag, found.spec.closeTag, []⟩⟩) := by
  cases pending with
  | nil =>
    rw [findNextOpen_nil] at hfound
    cases hfound
  | cons c pending => simp [pushStr, pushLoop, hfound, hafter, Framing.cutAt]

theorem eq_nil_of_whole {rounds : Nat} (hlen : pending.length < rounds)
    (h : whole rounds ⟨specs, pending, none⟩ = {}) : pending = [] := by
  by_contra hne
  have hpos := length_pos_iff.mpr hne
  obtain ⟨n, rfl⟩ : ∃ n, rounds = n + 2 := ⟨rounds - 2, by omega⟩
  simp only [whole] at h
  split at h
  · have hextracted := congrArg StreamTextChunk.extracted h
    split at hextracted <;> simp at hextracted
  · exact hne (congrArg StreamTextChunk.visibleText h)

theorem whole_nil (n : Nat) : whole n ⟨specs, [], none⟩ = {} := by
  cases n with
  | zero => rfl
  | succ n => simp only [whole, findNextOpen_nil]

theorem meaning_openTag (hspec : spec ∈ specs) (text : Text) (htext : text.length ≤ 1) :
    ∃ extracted, meaning { specs } (spec.openTag ++ text) = { extracted := [extracted] } ∧
      (text = [] → extracted.content = []) := by
  obtain ⟨best, hbest, hbefore, hafter⟩ := findNextOpen_openTag hspec text
  have hle := hafter.length_le
  obtain ⟨n, hn⟩ := Nat.exists_eq_succ_of_ne_zero (length_pos_iff.mpr spec.open_ne_nil).ne'
  simp only [meaning, whole, nil_append, hbest, length_nil, length_append, hn, Nat.zero_add, Nat.succ_add, hbefore]
  cases hcut : Framing.cutAt best.spec.closeTag best.after with
  | none =>
    refine ⟨_, rfl, ?_⟩
    rintro rfl
    exact suffix_nil.mp hafter
  | some cut =>
    have hshort := length_of_cutAt best.spec.close_ne_nil hcut
    have hnil : cut.2 = [] := length_eq_zero_iff.mp (by omega)
    simp only [hnil, whole_nil]
    refine ⟨_, rfl, ?_⟩
    rintro rfl
    rw [suffix_nil.mp hafter] at hcut
    cases hcut

theorem clear_of_run_chunks (h : ∀ chunks, run pushStr InlineHiddenTagParser.finish { specs } chunks =
    run pushStr InlineHiddenTagParser.finish { specs } [chunks.flatten]) : Clear specs := by
  intro spec hspec other hother hin
  obtain ⟨piece, rest, found, hsplit, hfound, hafter⟩ := exists_findNextOpen hspec hin
  obtain ⟨init, last, hopen⟩ := eq_nil_or_concat' other.openTag |>.resolve_left other.open_ne_nil
  rw [hopen, dropLast_concat] at hsplit
  -- pushed in two pieces, the open tag `found` is taken before the rest of `other` arrives
  have hcut (text : Text) : { visibleText := found.before } ++
      meaning ⟨specs, [], some ⟨found.spec.tag, found.spec.closeTag, []⟩⟩ (rest ++ [last] ++ text) =
        meaning { specs } (other.openTag ++ text) := by
    have hboth := h [piece, rest ++ [last] ++ text]
    rw [run_single, run, pushStr_openTag hfound hafter, run_single] at hboth
    · rw [hboth, hopen, hsplit]
      simp
    · rintro _ ⟨⟩
      exact found.spec.close_ne_nil
    · rintro _ ⟨⟩
  have hrest : rest ++ [last] ≠ [] := by simp
  obtain ⟨tag, htag, hcontent⟩ := meaning_openTag hother [] (Nat.zero_le 1)
  have hwhole := (hcut []).trans htag
  rw [append_nil] at hwhole
  cases hclose : Framing.cutAt found.spec.closeTag (rest ++ [last]) with
  | none =>
    simp only [meaning, whole, nil_append, hclose] at hwhole
    obtain ⟨rfl⟩ := singleton_inj.mp (congrArg StreamTextChunk.extracted hwhole)
    exact hrest (hcontent rfl)
  | some cut =>
    obtain ⟨inner, after⟩ := cut
    simp only [meaning, whole, nil_append, hclose] at hwhole
    obtain ⟨rfl, hempty⟩ := StreamTextChunk.eq_empty_of_append hwhole
    obtain rfl := eq_nil_of_whole (by have := length_of_cutAt found.spec.close_ne_nil hclose; omega) hempty
    -- the rest of `other` closes `found`: one more character shows the difference
    obtain ⟨tag', htag', -⟩ := meaning_openTag hother [last] (Nat.le_refl 1)
    have hmore := (hcut [last]).trans htag'
    simp only [meaning, whole, nil_append, Framing.cutAt_stable _ _ _ _ [last] hclose] at hmore
    exact cons_ne_nil _ _ (eq_nil_of_whole (by simp) (StreamTextChunk.eq_empty_of_append hmore).2)

/-- **Chunking does not matter** exactly where no open tag is complete before the last character of an
open tag. -/
theorem run_chunks_iff : (∀ chunks, run pushStr InlineHiddenTagParser.finish { specs } chunks =
      run pushStr InlineHiddenTagParser.finish { specs } [chunks.flatten]) ↔ Clear specs :=
  ⟨clear_of_run_chunks, run_chunks⟩

end

def boldTag : InlineTagSpec Bool := ⟨true, "<b>".toList, "</b>".toList, by decide, by decide⟩

theorem open_tag_cut :
    run pushStr InlineHiddenTagParser.finish
        { specs := [boldTag, ⟨false, "<b>x".toList, "</x>".toList, by decide, by decide⟩] }
        ["<b>".toList, "x".toList] ≠
      run pushStr InlineHiddenTagParser.finish
        { specs := [boldTag, ⟨false, "<b>x".toList, "</x>".toList, by decide, by decide⟩] } ["<b>x".toList] := by
  decide +kernel

theorem meaning_single (text : Text) :
    meaning { specs := [spec] } text = hideTags spec none text :=
  whole_single spec _ none text (by simp)

end InlineHiddenTagParser

end StreamParser
