import Codez.Lib.Text

/-!
Parts of UTF-8 byte strings.
-/

namespace Text

open List

variable {s t : Text} {bs rest : List UInt8}

theorem fromUtf8_eq_some_iff : fromUtf8 bs = some t ↔ bs = bytes t := by
  constructor
  · intro h
    by_cases hval : ByteArray.IsValidUTF8 ⟨bs.toArray⟩
    · obtain ⟨m, hm⟩ := hval
      rw [utf8Encode_eq_bytes] at hm
      obtain rfl : bs = bytes m := by simpa using hm
      rw [fromUtf8_bytes] at h
      rw [Option.some.inj h]
    · rw [fromUtf8, String.fromUTF8?, dif_neg hval] at h
      cases h
  · rintro rfl
    exact fromUtf8_bytes t

theorem fromUtf8_eq_none_iff : fromUtf8 bs = none ↔ ∀ t, bs ≠ bytes t := by
  rw [Option.eq_none_iff_forall_ne_some]
  exact forall_congr' fun t => not_congr fromUtf8_eq_some_iff

theorem utf8EncodeChar_append_inj {c d : Char} {x y : List UInt8}
    (h : String.utf8EncodeChar c ++ x = String.utf8EncodeChar d ++ y) : c = d ∧ x = y := by
  have hdec := @ByteArray.utf8DecodeChar?_utf8EncodeChar_append x.toByteArray c
  rw [← toByteArray_append, h, toByteArray_append, ByteArray.utf8DecodeChar?_utf8EncodeChar_append] at hdec
  obtain rfl : d = c := Option.some.inj hdec
  exact ⟨rfl, append_cancel_left h⟩

theorem high_of_mem_utf8EncodeChar {c : Char} (hc : 0x80 ≤ c.toNat) {b : UInt8} (h : b ∈ String.utf8EncodeChar c) :
    0x80 ≤ b := by
  by_contra hb
  have hlow : b.toNat < 128 := UInt8.not_le.mp hb
  have := toNat_eq_of_mem_utf8EncodeChar c b h hlow
  omega

theorem isUTF8FirstByte_iff {c : Char} {i : Nat} {b : UInt8} (h : (String.utf8EncodeChar c)[i]? = some b) :
    b.IsUTF8FirstByte ↔ i = 0 := by
  obtain ⟨hi, rfl⟩ := List.getElem?_eq_some_iff.mp h
  exact UInt8.isUTF8FirstByte_getElem_utf8EncodeChar

theorem exists_of_bytes_append_eq (h : bytes s ++ rest = bytes t) : ∃ u, t = s ++ u ∧ rest = bytes u := by
  induction s generalizing t with
  | nil => exact ⟨t, rfl, h⟩
  | cons c s ih =>
    rw [bytes_cons, append_assoc] at h
    cases t with
    | nil => exact absurd (append_eq_nil_iff.mp h).1 String.utf8EncodeChar_ne_nil
    | cons d t =>
      obtain ⟨rfl, hr⟩ := utf8EncodeChar_append_inj h
      obtain ⟨u, rfl, hu⟩ := ih hr
      exact ⟨u, rfl, hu⟩

def CutShort (bs : List UInt8) : Prop :=
  ∃ (t : Text) (c : Char) (start : List UInt8), bs = bytes t ++ start ∧ start ≠ [] ∧ start <+: String.utf8EncodeChar c

theorem valid_or_cutShort (h : bs <+: bytes t) : (∃ s, bs = bytes s) ∨ CutShort bs := by
  induction t generalizing bs with
  | nil => exact .inl ⟨[], prefix_nil.mp h⟩
  | cons c t ih =>
    rcases prefix_or_prefix_of_prefix h (prefix_append (String.utf8EncodeChar c) (bytes t)) with hst | ⟨rest, rfl⟩
    · by_cases hnil : bs = []
      · exact .inl ⟨[], hnil⟩
      · exact .inr ⟨[], c, bs, rfl, hnil, hst⟩
    · rcases ih ((prefix_append_right_inj _).mp h) with ⟨s, rfl⟩ | ⟨s, d, start, rfl, hst⟩
      · exact .inl ⟨c :: s, rfl⟩
      · exact .inr ⟨c :: s, d, start, by rw [bytes_cons, append_assoc], hst⟩

end Text
