import Mathlib

/-!
Text as a list of characters, with the operations of a UTF-8 string library:
byte length, lines, trimming, searching, decimal numbers.

* `byteLen s` is the length of the UTF-8 encoding, `bytes s` the encoding.
* `lines` drops the line ending (`\n` or `\r\n`) of every line and the empty
  piece after a final `\n`; `splitOn '\n'` keeps every piece.
* White space is the Unicode `White_Space` property.
-/

abbrev Text := List Char

namespace Text

open List

-- named, so that membership in a list of texts is decided by one term everywhere
instance instLawfulBEq : LawfulBEq Text := inferInstance

def byteLen (s : Text) : Nat := (s.map Char.utf8Size).sum

def bytes (s : Text) : List UInt8 := s.flatMap String.utf8EncodeChar

def fromUtf8 (bs : List UInt8) : Option Text :=
  (String.fromUTF8? ⟨bs.toArray⟩).map String.toList

def isWhitespace (c : Char) : Bool :=
  let n := c.toNat
  (decide (9 ≤ n) && decide (n ≤ 13)) || n == 0x20 || n == 0x85 || n == 0xA0 || n == 0x1680 ||
    (decide (0x2000 ≤ n) && decide (n ≤ 0x200A)) || n == 0x2028 || n == 0x2029 || n == 0x202F ||
    n == 0x205F || n == 0x3000

def isAsciiDigit (c : Char) : Bool := decide ('0' ≤ c) && decide (c ≤ '9')

def isAsciiAlphanumeric (c : Char) : Bool :=
  isAsciiDigit c || (decide ('a' ≤ c) && decide (c ≤ 'z')) || (decide ('A' ≤ c) && decide (c ≤ 'Z'))

def trimStart (s : Text) : Text := s.dropWhile isWhitespace

def trimEnd (s : Text) : Text := s.rdropWhile isWhitespace

def trim (s : Text) : Text := trimEnd (trimStart s)

def splitWhitespace (s : Text) : List Text := (s.splitOnP isWhitespace).filter fun w => !w.isEmpty

def stripCr (s : Text) : Text := if s.getLast? = some '\r' then s.dropLast else s

/-- The lines of `s`: a piece that was ended by `\n` also loses a `\r` before it;
the last piece has no line ending and is kept only when it is not empty. -/
def lines (s : Text) : List Text :=
  let ps := s.splitOn '\n'
  ps.dropLast.map stripCr ++ (ps.getLast?.toList.filter fun l => !l.isEmpty)

def joinLines (ls : List Text) : Text := ['\n'].intercalate ls

def contains (p s : Text) : Bool := s.tails.any fun t => p.isPrefixOf t

def afterFirst (p : Text) : Text → Option Text
  | [] => if p.isEmpty then some [] else none
  | c :: s => if p.isPrefixOf (c :: s) then some ((c :: s).drop p.length) else afterFirst p s

def stripPrefix (p s : Text) : Option Text := if p.isPrefixOf s then some (s.drop p.length) else none

def natText (n : Nat) : Text := (Nat.repr n).toList

def takeBytes : Nat → Text → Text
  | _, [] => []
  | n, c :: s => if c.utf8Size ≤ n then c :: takeBytes (n - c.utf8Size) s else []

theorem toList_literal {s : String} {l : List Char} (h : s = String.ofList l) : s.toList = l := by
  rw [h, String.toList_ofList]

@[simp] theorem bytes_nil : bytes [] = [] := rfl

@[simp] theorem bytes_cons (c : Char) (s : Text) : bytes (c :: s) = String.utf8EncodeChar c ++ bytes s := rfl

@[simp] theorem bytes_append (s t : Text) : bytes (s ++ t) = bytes s ++ bytes t := by
  simp [bytes]

theorem utf8Encode_eq_bytes (s : Text) : s.utf8Encode = ⟨(bytes s).toArray⟩ := by
  apply ByteArray.ext
  simp [bytes, List.utf8Encode]

theorem fromUtf8_bytes (s : Text) : fromUtf8 (bytes s) = some s := by
  have hv : ByteArray.IsValidUTF8 ⟨(bytes s).toArray⟩ := ⟨s, (utf8Encode_eq_bytes s).symm⟩
  unfold fromUtf8 String.fromUTF8?
  rw [dif_pos hv]
  have hs : String.fromUTF8 ⟨(bytes s).toArray⟩ hv = String.ofList s := by
    apply String.toByteArray_inj.mp
    rw [← String.utf8Encode_toList (b := String.ofList s), String.toList_ofList, utf8Encode_eq_bytes]
    rfl
  rw [hs]
  simp

theorem toNat_eq_of_mem_utf8EncodeChar (c : Char) (b : UInt8) (h : b ∈ String.utf8EncodeChar c)
    (hb : b.toNat < 128) : c.toNat = b.toNat := by
  change c.val.toNat = b.toNat
  unfold String.utf8EncodeChar at h
  simp only at h
  split at h
  · next hv =>
    simp only [mem_singleton] at h
    subst h
    simp only [UInt8.toNat_ofNat']
    omega
  · -- every byte of a longer encoding is at least 128
    split at h
    · simp only [mem_cons, not_mem_nil, or_false] at h
      rcases h with rfl | rfl <;> simp only [UInt8.toNat_ofNat'] at hb <;> omega
    · split at h
      · simp only [mem_cons, not_mem_nil, or_false] at h
        rcases h with rfl | rfl | rfl <;> simp only [UInt8.toNat_ofNat'] at hb <;> omega
      · simp only [mem_cons, not_mem_nil, or_false] at h
        rcases h with rfl | rfl | rfl | rfl <;> simp only [UInt8.toNat_ofNat'] at hb <;> omega

theorem newline_not_mem_bytes (s : Text) (h : '\n' ∉ s) : (10 : UInt8) ∉ bytes s := by
  intro hm
  obtain ⟨c, hc, hb⟩ := mem_flatMap.mp hm
  have hn : c.toNat = 10 := toNat_eq_of_mem_utf8EncodeChar c 10 hb (by decide)
  have : c = '\n' := Char.toNat_inj.mp hn
  exact h (this ▸ hc)

theorem lines_of_oneLine (s : Text) (h : '\n' ∉ s) (hs : s ≠ []) : lines s = [s] := by
  have hp : s.splitOn '\n' = [s] := by
    rw [splitOn_eq_singleton]
    exact h
  simp [lines, hp, hs]

theorem lines_joinLines (ls : List Text) (last : Text) (hlast : last ≠ [])
    (hls : ∀ l ∈ ls ++ [last], '\n' ∉ l) (hcr : ∀ l ∈ ls, l.getLast? ≠ some '\r') :
    lines (joinLines (ls ++ [last])) = ls ++ [last] := by
  have hstrip : ls.map stripCr = ls := by
    rw [map_congr_left (g := id) fun l hl => by simp [stripCr, hcr l hl], map_id]
  have hspl : (joinLines (ls ++ [last])).splitOn '\n' = ls ++ [last] :=
    splitOn_intercalate '\n' hls (by simp)
  rw [lines, hspl, dropLast_concat, getLast?_concat, hstrip]
  simp [hlast]

theorem joinLines_concat (ls : List Text) (last : Text) :
    joinLines (ls ++ [last]) = (ls.flatMap fun l => l ++ ['\n']) ++ last := by
  induction ls with
  | nil => simp [joinLines]
  | cons l ls ih =>
    have hne : ls ++ [last] ≠ [] := by simp
    obtain ⟨l', ls', heq⟩ := exists_cons_of_ne_nil hne
    rw [heq] at ih
    rw [cons_append, heq, joinLines, intercalate_cons_cons, flatMap_cons, append_assoc,
      append_assoc, append_assoc, ← ih]
    rfl

theorem splitOn_cons (sep c : Char) (s : Text) :
    (c :: s).splitOn sep = if c = sep then [] :: s.splitOn sep else (s.splitOn sep).modifyHead (c :: ·) := by
  rw [List.splitOn, splitOnP_cons_eq_if_modifyHead]
  simp only [beq_iff_eq]
  rfl

variable {s t : Text} {ls : List Text} {c : Char}

theorem not_mem_of_mem_splitOn {sep : Char} {l : Text} (h : l ∈ s.splitOn sep) : sep ∉ l := by
  induction s generalizing l with
  | nil =>
    rw [splitOn_nil, mem_singleton] at h
    rw [h]
    exact not_mem_nil
  | cons c s ih =>
    rw [splitOn_cons] at h
    split at h
    · rcases mem_cons.mp h with rfl | h
      · exact not_mem_nil
      · exact ih h
    · next hc =>
      obtain ⟨first, rest, hspl⟩ := exists_cons_of_ne_nil (splitOn_ne_nil sep s)
      rw [hspl, modifyHead_cons] at h
      rw [hspl] at ih
      rcases mem_cons.mp h with rfl | h
      · rw [mem_cons, not_or]
        exact ⟨fun heq => hc heq.symm, ih mem_cons_self⟩
      · exact ih (mem_cons_of_mem _ h)

theorem splitOn_joinLines (hls : ∀ l ∈ ls, '\n' ∉ l) (hne : ls ≠ []) : (joinLines ls).splitOn '\n' = ls :=
  splitOn_intercalate '\n' hls hne

theorem joinLines_inj {ls' : List Text} (hls : ∀ l ∈ ls, '\n' ∉ l) (hls' : ∀ l ∈ ls', '\n' ∉ l) (hne : ls ≠ [])
    (hne' : ls' ≠ []) (h : joinLines ls = joinLines ls') : ls = ls' := by
  rw [← splitOn_joinLines hls hne, h, splitOn_joinLines hls' hne']

theorem mem_intercalate {sep : Text} {l : Text} (hl : l ∈ ls) (hc : c ∈ l) : c ∈ sep.intercalate ls := by
  induction ls with
  | nil => cases hl
  | cons l' ls ih =>
    cases ls with
    | nil =>
      rw [mem_singleton] at hl
      subst hl
      simpa using hc
    | cons l'' ls =>
      rw [intercalate_cons_cons, mem_append, mem_append]
      rcases mem_cons.mp hl with rfl | hl
      · exact .inl (.inl hc)
      · exact .inr (ih hl)

theorem natText_inj {m n : Nat} (h : natText m = natText n) : m = n := Nat.repr_inj.mp (String.toList_inj.mp h)

theorem newline_not_mem_natText (n : Nat) : '\n' ∉ natText n := by
  intro h
  have hdigits : natText n = Nat.toDigits 10 n := by
    unfold natText Nat.repr
    rw [String.toList_ofList]
  rw [hdigits] at h
  have hdigit := Nat.isDigit_of_mem_toDigits (by decide) (by decide) h
  exact absurd hdigit (by decide)

/-! ## Lengths in bytes -/

@[simp] theorem byteLen_nil : byteLen [] = 0 := rfl

@[simp] theorem byteLen_cons (c : Char) (s : Text) : byteLen (c :: s) = c.utf8Size + byteLen s := rfl

@[simp] theorem byteLen_append (s t : Text) : byteLen (s ++ t) = byteLen s + byteLen t := by
  simp [byteLen]

theorem byteLen_joinLines (l : Text) (ls : List Text) :
    byteLen (joinLines (l :: ls)) = ((l :: ls).map byteLen).sum + ls.length := by
  induction ls generalizing l with
  | nil => simp [joinLines]
  | cons l' ls ih =>
    have hst : joinLines (l :: l' :: ls) = l ++ '\n' :: joinLines (l' :: ls) := by
      rw [joinLines, intercalate_cons_cons, append_assoc]
      rfl
    have hnl : Char.utf8Size '\n' = 1 := by decide
    rw [hst, byteLen_append, byteLen_cons, ih l', hnl, map_cons (l := l' :: ls), sum_cons, length_cons]
    omega

theorem takeBytes_isPrefix (n : Nat) (s : Text) : takeBytes n s <+: s := by
  induction s generalizing n with
  | nil => exact prefix_refl _
  | cons c s ih =>
    unfold takeBytes
    split
    · exact cons_prefix_cons.mpr ⟨rfl, ih _⟩
    · exact List.nil_prefix

theorem byteLen_takeBytes_le (n : Nat) (s : Text) : byteLen (takeBytes n s) ≤ n := by
  induction s generalizing n with
  | nil => exact Nat.zero_le _
  | cons c s ih =>
    unfold takeBytes
    split
    · have := ih (n - c.utf8Size)
      rw [byteLen_cons]
      omega
    · exact Nat.zero_le _

theorem lt_byteLen_of_longer {n : Nat} (ht : t <+: s) (hlonger : (takeBytes n s).length < t.length) :
    n < byteLen t := by
  induction t generalizing n s with
  | nil => exact absurd hlonger (Nat.not_lt_zero _)
  | cons c t ih =>
    obtain ⟨u, rfl⟩ := ht
    rw [cons_append, takeBytes] at hlonger
    rw [byteLen_cons]
    split at hlonger
    · have := ih (prefix_append t u) (Nat.lt_of_succ_lt_succ hlonger)
      omega
    · omega

theorem contains_iff {p : Text} : contains p s = true ↔ p <:+: s := by
  unfold contains
  rw [any_eq_true]
  constructor
  · rintro ⟨t, ht, hp⟩
    have hsuf : t <:+ s := (mem_tails _ _).mp ht
    exact (List.isPrefixOf_iff_prefix.mp hp).isInfix.trans hsuf.isInfix
  · rintro ⟨a, b, rfl⟩
    refine ⟨p ++ b, (mem_tails _ _).mpr ⟨a, by simp⟩, ?_⟩
    exact List.isPrefixOf_iff_prefix.mpr (prefix_append _ _)

theorem afterFirst_append (p a b : Text) : ∃ r, afterFirst p (a ++ p ++ b) = some r ∧ b <:+ r := by
  induction a with
  | nil =>
    refine ⟨b, ?_, suffix_refl _⟩
    cases p with
    | nil => cases b <;> simp [afterFirst]
    | cons c p =>
      show (if (c :: p).isPrefixOf (c :: (p ++ b)) then _ else _) = _
      simp
  | cons c a ih =>
    show ∃ r, (if p.isPrefixOf (c :: (a ++ p ++ b)) then some ((c :: (a ++ p ++ b)).drop p.length)
      else afterFirst p (a ++ p ++ b)) = some r ∧ b <:+ r
    split
    · refine ⟨_, rfl, ?_⟩
      have hcons : c :: (a ++ p ++ b) = (c :: a ++ p) ++ b := by simp
      rw [hcons, drop_append_of_le_length (by simp; omega)]
      exact suffix_append _ _
    · exact ih

/-! ## Trimming -/

theorem mem_dropWhile {p : Char → Bool} (hmem : c ∈ s) (hc : p c = false) : c ∈ s.dropWhile p := by
  rw [← takeWhile_append_dropWhile (p := p) (l := s), mem_append] at hmem
  obtain h | h := hmem
  · rw [mem_takeWhile_imp h] at hc
    cases hc
  · exact h

theorem mem_trim (hmem : c ∈ s) (hc : isWhitespace c = false) : c ∈ trim s := by
  have hst : c ∈ (trimStart s).reverse := mem_reverse.mpr (mem_dropWhile hmem hc)
  exact mem_reverse.mpr (mem_dropWhile hst hc)

structure Tight (s : Text) : Prop where
  first : ∃ c t, s = c :: t ∧ isWhitespace c = false
  last : ∃ t c, s = t ++ [c] ∧ isWhitespace c = false

theorem trimEnd_isPrefix (s : Text) : trimEnd s <+: s := List.rdropWhile_prefix _ s

theorem trim_eq_self (h : ∀ c ∈ s, isWhitespace c = false) : trim s = s := by
  have hst : trimStart s = s := dropWhile_eq_self_iff.mpr fun hl => by simp [h _ (getElem_mem hl)]
  rw [trim, hst, trimEnd, rdropWhile_eq_self_iff]
  exact fun hl => by simp [h _ (getLast_mem hl)]

theorem trimEnd_concat (h : s = t ++ [c]) (hc : isWhitespace c = false) : trimEnd s = s := by
  rw [h, trimEnd, rdropWhile_concat_neg]
  simp [hc]

theorem trim_cons (h : s = c :: t) (hc : isWhitespace c = false) : trim s = trimEnd s := by
  rw [trim, trimStart, h, dropWhile_cons_of_neg]
  simp [hc]

theorem trim_cons_whitespace (s : Text) (hc : isWhitespace c = true) : trim (c :: s) = trim s := by
  rw [trim, trim, trimStart, trimStart, dropWhile_cons_of_pos hc]

theorem Tight.trimEnd_eq (h : Tight s) : trimEnd s = s := by
  obtain ⟨t, c, hs, hc⟩ := h.last
  exact trimEnd_concat hs hc

theorem Tight.trim_eq (h : Tight s) : trim s = s := by
  obtain ⟨c, t, hs, hc⟩ := h.first
  rw [trim_cons hs hc, h.trimEnd_eq]

theorem Tight.append (hs : ∃ c r, s = c :: r ∧ isWhitespace c = false) (ht : Tight t) : Tight (s ++ t) := by
  obtain ⟨c, r, rfl, hc⟩ := hs
  obtain ⟨r', c', rfl, hc'⟩ := ht.last
  exact ⟨⟨c, _, rfl, hc⟩, ⟨c :: r ++ r', c', by simp, hc'⟩⟩

theorem trim_append_newline (h : Tight s) : trim (s ++ ['\n']) = s := by
  obtain ⟨c, t, rfl, hc⟩ := h.first
  rw [cons_append, trim_cons rfl hc, ← cons_append, trimEnd, rdropWhile_concat_pos _ _ _ (by decide)]
  exact h.trimEnd_eq

theorem trim_append_whitespace (s : Text) (hc : isWhitespace c = true) : trim (s ++ [c]) = trim s := by
  unfold trim trimStart trimEnd
  rw [dropWhile_append]
  split
  · next hnil =>
    rw [List.isEmpty_iff.mp hnil, dropWhile_cons_of_pos hc]
    rfl
  · rw [rdropWhile_concat_pos _ _ _ hc]

theorem trim_trimEnd (s : Text) : trim (trimEnd s) = trim s := by
  induction s using reverseRecOn with
  | nil => rfl
  | append_singleton s c ih =>
    by_cases hc : isWhitespace c = true
    · rw [trim_append_whitespace s hc, trimEnd, rdropWhile_concat_pos _ _ _ hc]
      exact ih
    · rw [trimEnd_concat rfl (Bool.eq_false_iff.mpr hc)]

theorem trimEnd_isPrefix_trimEnd_append (s t : Text) : trimEnd s <+: trimEnd (s ++ t) := by
  induction t using reverseRecOn with
  | nil => rw [append_nil]
  | append_singleton t c ih =>
    rw [← append_assoc]
    by_cases hc : isWhitespace c = true
    · rw [trimEnd, trimEnd, rdropWhile_concat_pos _ _ _ hc]
      exact ih
    · rw [trimEnd_concat rfl (Bool.eq_false_iff.mpr hc), append_assoc]
      exact List.IsPrefix.trans ( trimEnd_isPrefix s) (prefix_append s _)

theorem trim_prefix_trim_append (hs : trimStart s ≠ []) (t : Text) : trim s <+: trim (s ++ t) := by
  have hst : trimStart (s ++ t) = trimStart s ++ t := by
    unfold trimStart at hs ⊢
    rw [dropWhile_append, if_neg (by rwa [List.isEmpty_iff])]
  rw [trim, trim, hst]
  exact trimEnd_isPrefix_trimEnd_append _ _

theorem toNat_toLower (c : Char) :
    c.toLower.toNat = if 65 ≤ c.toNat ∧ c.toNat ≤ 90 then c.toNat + 32 else c.toNat := by
  have hiff : (c.val ≥ 'A'.val ∧ c.val ≤ 'Z'.val) ↔ 65 ≤ c.toNat ∧ c.toNat ≤ 90 := Iff.rfl
  unfold Char.toLower
  split
  · next h =>
    rw [if_pos (hiff.mp h)]
    have hle : c.toNat ≤ 90 := (hiff.mp h).2
    show (c.val + 32).toNat = c.val.toNat + 32
    rw [UInt32.toNat_add]
    exact Nat.mod_eq_of_lt (by have : c.val.toNat ≤ 90 := hle; show _ + 32 < _; omega)
  · next h => rw [if_neg fun hmem => h (hiff.mpr hmem)]

/-! ## Lines with their ends -/

def linesInclusive : Text → List Text
  | [] => []
  | c :: s =>
    if c = '\n' then ['\n'] :: linesInclusive s
    else
      match linesInclusive s with
      | [] => [[c]]
      | line :: rest => (c :: line) :: rest

def firstLine (s : Text) : Text := (linesInclusive s).headD []

def otherLines (s : Text) : List Text := (linesInclusive s).tail

theorem linesInclusive_newline (s : Text) : linesInclusive ('\n' :: s) = ['\n'] :: linesInclusive s := rfl

theorem linesInclusive_cons (hc : c ≠ '\n') (s : Text) :
    linesInclusive (c :: s) = (c :: firstLine s) :: otherLines s := by
  rw [linesInclusive, if_neg hc, firstLine, otherLines]
  cases linesInclusive s with
  | nil => rfl
  | cons line rest => rfl

theorem ne_nil_of_mem_linesInclusive {line : Text} (h : line ∈ linesInclusive s) : line ≠ [] := by
  induction s with
  | nil => cases h
  | cons c s ih =>
    by_cases hc : c = '\n'
    · subst hc
      rw [linesInclusive_newline, mem_cons] at h
      obtain rfl | h := h
      · exact cons_ne_nil _ _
      · exact ih h
    · rw [linesInclusive_cons hc, mem_cons] at h
      obtain rfl | h := h
      · exact cons_ne_nil _ _
      · exact ih (mem_of_mem_tail h)

theorem linesInclusive_append (hs : s ≠ []) (hn : '\n' ∉ s) (t : Text) :
    linesInclusive (s ++ t) = (s ++ firstLine t) :: otherLines t := by
  induction s with
  | nil => exact absurd rfl hs
  | cons c s ih =>
    have hc : c ≠ '\n' := by
      rintro rfl
      exact hn mem_cons_self
    rw [cons_append, linesInclusive_cons hc]
    by_cases hnil : s = []
    · subst hnil
      rfl
    · rw [firstLine, otherLines, ih hnil fun h => hn (mem_cons_of_mem c h)]
      rfl

theorem linesInclusive_append_newline (hn : '\n' ∉ s) (t : Text) :
    linesInclusive (s ++ '\n' :: t) = (s ++ ['\n']) :: linesInclusive t := by
  by_cases hnil : s = []
  · subst hnil
    rfl
  · rw [linesInclusive_append hnil hn]
    rfl

theorem stripPrefix_append (p s : Text) : stripPrefix p (p ++ s) = some s := by
  have hp : p.isPrefixOf (p ++ s) = true := List.isPrefixOf_iff_prefix.mpr (prefix_append p s)
  rw [stripPrefix, if_pos hp]
  simp

theorem exists_of_stripPrefix {p rest : Text} (h : stripPrefix p s = some rest) : ∃ t, s = p ++ t := by
  unfold stripPrefix at h
  split at h
  · next hp =>
    obtain ⟨t, ht⟩ := isPrefixOf_iff_prefix.mp hp
    exact ⟨t, ht.symm⟩
  · cases h

theorem stripPrefix_eq_none {p : Text} (h : s.head? ≠ some c) : stripPrefix (c :: p) s = none := by
  rw [stripPrefix, if_neg]
  rw [List.isPrefixOf_iff_prefix]
  rintro ⟨t, rfl⟩
  exact h rfl

end Text
