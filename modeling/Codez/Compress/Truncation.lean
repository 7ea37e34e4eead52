import Codez.Compress.Lines
import Codez.Lib.Utf8

/-!
What the fallback compressor leaves of a text (`compress/truncate.rs`).

The first and the last lines stay, with a marker for those between; if that is still too long, it is cut
at a character boundary and ends with a suffix that says so:

    lines = head ++ omitted ++ tail   ↦   head ++ [marker] ++ tail                   (buildHeadTail_omits)
    text                              ↦   its longest start that fits ++ suffix      (truncate_accounts)
-/

namespace LlmCompress

open List

namespace Truncate

theorem buildHeadTail_omits {lines : List Text} {head tail : Nat} (h : head + tail < lines.length) :
    ∃ first omitted last, lines = first ++ omitted ++ last ∧ first.length = head ∧ last.length = tail ∧
      buildHeadTail lines head tail =
        Text.joinLines (first ++ [marker omitted.length (Text.byteLen (Text.joinLines omitted))] ++ last) := by
  have hspl : lines = lines.take head ++ (lines.take (lines.length - tail)).drop head ++
      lines.drop (lines.length - tail) := by
    have hh : lines.take head = (lines.take (lines.length - tail)).take head := by
      rw [take_take, Nat.min_eq_left (by omega)]
    rw [hh, take_append_drop, take_append_drop]
  refine ⟨_, _, _, hspl, by simp; omega, by simp; omega, ?_⟩
  unfold buildHeadTail
  simp only
  rw [if_neg (by omega)]
  have hlen : ((lines.take (lines.length - tail)).drop head).length = lines.length - tail - head := by simp
  cases homitted : (lines.take (lines.length - tail)).drop head with
  | nil =>
    rw [homitted] at hlen
    simp only [length_nil] at hlen
    omega
  | cons l ls =>
    rw [Text.byteLen_joinLines]
    rfl

end Truncate

/-- **Truncation.**  The product fits the limit and is shorter than the text.  If lines are omitted and the rest fits,
the marker in their place has their number and their bytes; if it does not fit, the product is the longest start of
it that leaves room for the suffix. -/
theorem truncate_accounts {text : Text} {budget : Budget} {new : Text} {saved : Nat} {lossy : Bool} {kind : ContentKind}
    (hmax : Text.byteLen Truncate.suffix ≤ budget.cfg.truncate.maxBytes)
    (h : Truncate.compress text budget = .compressed new saved lossy kind) :
    let cfg := budget.cfg.truncate
    let cleaned := Truncate.stripAnsi text
    let lines := cleaned.splitOn '\n'
    let headTail := Truncate.buildHeadTail lines cfg.headLines cfg.tailLines
    Text.byteLen new ≤ cfg.maxBytes ∧ Text.byteLen new < Text.byteLen text ∧
    (Text.byteLen headTail ≤ cfg.maxBytes → cfg.headLines + cfg.tailLines < lines.length →
      ∃ first omitted last, cleaned = Text.joinLines (first ++ omitted ++ last) ∧
        first.length = cfg.headLines ∧ last.length = cfg.tailLines ∧
        new = Text.joinLines
          (first ++ [Truncate.marker omitted.length (Text.byteLen (Text.joinLines omitted))] ++ last)) ∧
    (cfg.maxBytes < Text.byteLen headTail → ∃ start, new = start ++ Truncate.suffix ∧ start <+: headTail ∧
        ∀ longer, longer <+: headTail → start.length < longer.length →
          cfg.maxBytes < Text.byteLen (longer ++ Truncate.suffix)) := by
  intro cfg cleaned lines headTail
  change Text.byteLen Truncate.suffix ≤ cfg.maxBytes at hmax
  have hproduct : new = (if cfg.maxBytes < Text.byteLen headTail then Truncate.hardTruncate headTail cfg.maxBytes
      else headTail) ∧ Text.byteLen new < Text.byteLen text := by
    unfold Truncate.compress at h
    simp only at h
    split at h
    · cases h
    · obtain ⟨hnew, hlt, -⟩ := textOutcome_eq_compressed h
      exact ⟨hnew, hnew ▸ hlt⟩
  obtain ⟨hnew, hlt⟩ := hproduct
  by_cases hhard : cfg.maxBytes < Text.byteLen headTail
  · rw [if_pos hhard] at hnew
    have hstart := Text.byteLen_takeBytes_le (cfg.maxBytes - Text.byteLen Truncate.suffix) headTail
    refine ⟨?_, hlt, fun hfits => absurd hfits (Nat.not_le.mpr hhard), fun _ => ?_⟩
    · rw [hnew, Truncate.hardTruncate, Text.byteLen_append]
      omega
    · refine ⟨_, hnew, Text.takeBytes_isPrefix _ _, fun longer hprefix hlonger => ?_⟩
      have := Text.lt_byteLen_of_longer hprefix hlonger
      rw [Text.byteLen_append]
      omega
  · rw [if_neg hhard] at hnew
    refine ⟨by rw [hnew]; omega, hlt, fun _ homits => ?_, fun hhard' => absurd hhard' hhard⟩
    obtain ⟨first, omitted, last, hlines, hfirst, hlast, hbuilt⟩ := Truncate.buildHeadTail_omits homits
    refine ⟨first, omitted, last, ?_, hfirst, hlast, hnew.trans hbuilt⟩
    rw [← hlines]
    exact (intercalate_splitOn ..).symm

theorem truncate_accounts_middle : let text : Text := ['a', '\n'] ++ List.replicate 48 'b' ++ ['\n', 'c']
    let cfg : Config := { truncate := { headLines := 1, tailLines := 1 } }
    let new := "a\n[llm-compress: 略 1 行 / 48 字节]\nc".toList
    Truncate.compress text ⟨cfg, none⟩ = .compressed new 11 true .text ∧
      ∃ first omitted last, Truncate.stripAnsi text = Text.joinLines (first ++ omitted ++ last) ∧
        new = Text.joinLines
          (first ++ [Truncate.marker omitted.length (Text.byteLen (Text.joinLines omitted))] ++ last) := by
  intro text cfg new
  have h : Truncate.compress text ⟨cfg, none⟩ = .compressed new 11 true .text := by decide +kernel
  obtain ⟨-, -, homits, -⟩ := truncate_accounts (by decide +kernel) h
  obtain ⟨first, omitted, last, hcleaned, -, -, hnew⟩ := homits (by decide +kernel) (by decide +kernel)
  exact ⟨h, first, omitted, last, hcleaned, hnew⟩

namespace Truncate

def Scan.next : Scan → Char → Scan
  | .plain, c => if c.toNat = 0x1b then .esc else .plain
  | .esc, c => if c.toNat = 91 then .csi else .plain
  | .csi, c => if 0x40 ≤ c.toNat ∧ c.toNat ≤ 0x7e then .plain else .csi

/-- The byte that is dropped behind an `ESC` is the first one of a character that has more. -/
def cutsChar : Scan → Text → Bool
  | _, [] => false
  | .esc, c :: cs => 0x80 ≤ c.toNat || cutsChar (Scan.esc.next c) cs
  | s, c :: cs => cutsChar (s.next c) cs

theorem esc_not_mem_stripAnsiGo (s : Scan) (bs : List UInt8) : 0x1b ∉ stripAnsiGo s bs := by
  fun_induction stripAnsiGo s bs with
  | case3 b bs hb ih => exact fun hmem => (mem_cons.mp hmem).elim (Ne.symm hb) ih
  | _ => simp_all

theorem stripAnsiGo_high {l : List UInt8} (h : ∀ b ∈ l, 0x80 ≤ b) (bs : List UInt8) :
    stripAnsiGo .plain (l ++ bs) = l ++ stripAnsiGo .plain bs ∧ stripAnsiGo .csi (l ++ bs) = stripAnsiGo .csi bs := by
  induction l with
  | nil => exact ⟨rfl, rfl⟩
  | cons b l ih =>
    obtain ⟨hb, hl⟩ := forall_mem_cons.mp h
    have hesc : b ≠ 0x1b := by rintro rfl; exact absurd hb (by decide)
    have hend : ¬(0x40 ≤ b ∧ b ≤ 0x7e) := fun hend => absurd (UInt8.le_trans hb hend.2) (by decide)
    simp only [cons_append, stripAnsiGo, if_neg hesc, if_neg hend, ih hl, and_self]

theorem stripAnsiGo_ascii (s : Scan) {c : Char} (hc : c.toNat < 0x80) (bs : List UInt8) :
    ∃ kept, stripAnsiGo s (String.utf8EncodeChar c ++ bs) = Text.bytes kept ++ stripAnsiGo (s.next c) bs := by
  have henc : String.utf8EncodeChar c = [c.toNat.toUInt8] := by
    unfold String.utf8EncodeChar
    rw [if_pos (by show c.toNat ≤ _; omega)]
    rfl
  have hbyte : c.toNat.toUInt8.toNat = c.toNat := UInt8.toNat_ofNat_of_lt' (Nat.lt_trans hc (by decide))
  rw [henc, singleton_append]
  cases s with
  | plain =>
    by_cases h : c.toNat = 0x1b
    · exact ⟨[], by simp only [stripAnsiGo, Scan.next, ← UInt8.toNat_inj, hbyte, UInt8.reduceToNat, if_pos h]; rfl⟩
    · refine ⟨[c], ?_⟩
      simp only [stripAnsiGo, Scan.next, ← UInt8.toNat_inj, hbyte, UInt8.reduceToNat, if_neg h, Text.bytes_cons, henc]
      rfl
  | esc => exact ⟨[], by simp only [stripAnsiGo, Scan.next, ← UInt8.toNat_inj, hbyte, UInt8.reduceToNat]; split <;> rfl⟩
  | csi =>
    refine ⟨[], ?_⟩
    simp only [stripAnsiGo, Scan.next, UInt8.le_iff_toNat_le, hbyte, UInt8.reduceToNat]
    split <;> rfl

theorem stripAnsiGo_bytes_cons {s : Scan} {c : Char} (h : s = .esc → c.toNat < 0x80) (cs : Text) :
    ∃ kept, stripAnsiGo s (Text.bytes (c :: cs)) = Text.bytes kept ++ stripAnsiGo (s.next c) (Text.bytes cs) := by
  rw [Text.bytes_cons]
  by_cases hc : c.toNat < 0x80
  · exact stripAnsiGo_ascii s hc _
  · have hhigh := stripAnsiGo_high (fun b => @Text.high_of_mem_utf8EncodeChar c (by omega) b) (Text.bytes cs)
    cases s with
    | plain => exact ⟨[c], by rw [hhigh.1, Scan.next, if_neg (by omega)]; simp⟩
    | esc => exact absurd (h rfl) hc
    | csi => exact ⟨[], by rw [hhigh.2, Scan.next, if_neg (by omega)]; rfl⟩

theorem cut_ne_bytes {c : Char} (hc : 0x80 ≤ c.toNat) (cs t : Text) :
    stripAnsiGo .esc (Text.bytes (c :: cs)) ≠ Text.bytes t := by
  intro ht
  have hhigh := fun b => @Text.high_of_mem_utf8EncodeChar c hc b
  obtain ⟨b, b', l, henc⟩ : ∃ b b' l, String.utf8EncodeChar c = b :: b' :: l := by
    unfold String.utf8EncodeChar
    rw [if_neg (by show ¬c.toNat ≤ _; omega)]
    split
    · exact ⟨_, _, _, rfl⟩
    · split <;> exact ⟨_, _, _, rfl⟩
  have hb : b ≠ 91 := by
    rintro rfl
    exact absurd (hhigh 91 (by simp [henc])) (by decide)
  rw [henc] at hhigh
  rw [Text.bytes_cons, henc, cons_append, stripAnsiGo, if_neg hb,
    (stripAnsiGo_high (forall_mem_cons.mp hhigh).2 _).1] at ht
  -- what is left begins with the second byte of `c`, which begins no character
  have hsecond : ¬b'.IsUTF8FirstByte := by
    rw [Text.isUTF8FirstByte_iff (c := c) (i := 1) (by rw [henc]; rfl)]
    decide
  cases t with
  | nil => cases ht
  | cons d t =>
    have hh : (String.utf8EncodeChar d)[0]? = some b' := by
      rw [← head?_eq_getElem?, ← head?_append_of_ne_nil _ String.utf8EncodeChar_ne_nil, ← Text.bytes_cons, ← ht]
      rfl
    exact hsecond ((Text.isUTF8FirstByte_iff hh).mpr rfl)

theorem bytes_stripAnsiGo_iff (s : Scan) (input : Text) :
    (∃ t, stripAnsiGo s (Text.bytes input) = Text.bytes t) ↔ cutsChar s input = false := by
  induction input generalizing s with
  | nil => exact ⟨fun _ => by cases s <;> rfl, fun _ => ⟨[], by cases s <;> rfl⟩⟩
  | cons c cs ih =>
    by_cases hcut : s = .esc ∧ 0x80 ≤ c.toNat
    · obtain ⟨rfl, hc⟩ := hcut
      simp only [cut_ne_bytes hc, exists_false, cutsChar, hc, decide_true, Bool.true_or, Bool.true_eq_false]
    · have hnext : cutsChar s (c :: cs) = cutsChar (s.next c) cs := by
        cases s <;> simp_all [cutsChar]
      obtain ⟨kept, hkept⟩ := stripAnsiGo_bytes_cons (s := s) (c := c) (by rintro rfl; simpa using hcut) cs
      rw [hnext, ← ih, hkept]
      constructor
      · rintro ⟨t, ht⟩
        obtain ⟨u, -, hu⟩ := Text.exists_of_bytes_append_eq ht
        exact ⟨u, hu⟩
      · rintro ⟨t, ht⟩
        exact ⟨kept ++ t, by rw [ht, Text.bytes_append]⟩

end Truncate

/-- **What is left of a text without its escape sequences** has no `ESC`, and is UTF-8 unless an `ESC` stands in front
of a character of several bytes. -/
theorem stripAnsi_utf8_iff (input : Text) :
    let out := Truncate.stripAnsiGo .plain (Text.bytes input)
    0x1b ∉ out ∧ ((∃ t, Text.fromUtf8 out = some t) ↔ Truncate.cutsChar .plain input = false) := by
  refine ⟨Truncate.esc_not_mem_stripAnsiGo _ _, ?_⟩
  simp only [Text.fromUtf8_eq_some_iff]
  exact Truncate.bytes_stripAnsiGo_iff .plain input

theorem escape_cuts_char : Text.fromUtf8 (Truncate.stripAnsiGo .plain (Text.bytes ['\x1b', 'é'])) = none ∧
    Truncate.stripAnsi ['\x1b', 'é'] = ['\x1b', 'é'] := by
  decide +kernel

end LlmCompress
