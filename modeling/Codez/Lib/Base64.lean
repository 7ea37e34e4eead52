import Codez.Lib.Text

/-!
Base64 with padding, in the standard alphabet.
-/

namespace Base64

open List

def alphabet : Text := "ABCDEFGHIJKLMNOPQRSTUVWXYZabcdefghijklmnopqrstuvwxyz0123456789+/".toList

def digit (n : Nat) : Char := alphabet.getD n '='

def value (c : Char) : Option Nat := alphabet.idxOf? c

def encode : List UInt8 → Text
  | [] => []
  | [a] => [digit (a.toNat / 4), digit (a.toNat % 4 * 16), '=', '=']
  | [a, b] => [digit (a.toNat / 4), digit (a.toNat % 4 * 16 + b.toNat / 16), digit (b.toNat % 16 * 4), '=']
  | a :: b :: c :: rest =>
    [digit (a.toNat / 4), digit (a.toNat % 4 * 16 + b.toNat / 16), digit (b.toNat % 16 * 4 + c.toNat / 64),
      digit (c.toNat % 64)] ++ encode rest

/-- One group of four; only the last one may be padded, and then with no bits left over. -/
def decodeGroup (p q r t : Char) (last : Bool) : Option (List UInt8) := do
  let a ← value p
  let b ← value q
  if last && r == '=' && t == '=' then
    if b % 16 = 0 then some [UInt8.ofNat (a * 4 + b / 16)] else none
  else
    let c ← value r
    if last && t == '=' then
      if c % 4 = 0 then some [UInt8.ofNat (a * 4 + b / 16), UInt8.ofNat (b % 16 * 16 + c / 4)] else none
    else
      let d ← value t
      some [UInt8.ofNat (a * 4 + b / 16), UInt8.ofNat (b % 16 * 16 + c / 4), UInt8.ofNat (c % 4 * 64 + d)]

def decode : Text → Option (List UInt8)
  | [] => some []
  | p :: q :: r :: t :: rest => do
    let group ← decodeGroup p q r t rest.isEmpty
    let more ← decode rest
    some (group ++ more)
  | _ => none

theorem value_digit {n : Nat} (h : n < 64) : value (digit n) = some n := by
  have hall : ∀ n < 64, value (digit n) = some n := by decide +kernel
  exact hall n h

theorem digit_ne_pad {n : Nat} (h : n < 64) : (digit n == '=') = false := by
  have hall : ∀ n < 64, (digit n == '=') = false := by decide +kernel
  exact hall n h

theorem ofNat_eq {n : Nat} {a : UInt8} (h : n = a.toNat) : UInt8.ofNat n = a := by
  rw [h, UInt8.ofNat_toNat]

theorem decode_encode (bytes : List UInt8) : decode (encode bytes) = some bytes := by
  fun_induction encode bytes with
  | case1 => rfl
  | case2 a =>
    have ha := a.toNat_lt
    have hfirst : UInt8.ofNat (a.toNat / 4 * 4 + a.toNat % 4 * 16 / 16) = a := ofNat_eq (by omega)
    have hbits : a.toNat % 4 * 16 % 16 = 0 := by omega
    simp (disch := omega) only [decode, decodeGroup, value_digit, Option.bind_eq_bind, Option.bind_some, isEmpty_nil,
      beq_self_eq_true, Bool.and_self, if_true, hbits, hfirst, append_nil]
  | case3 a b =>
    have ha := a.toNat_lt
    have hb := b.toNat_lt
    have hfirst : UInt8.ofNat (a.toNat / 4 * 4 + (a.toNat % 4 * 16 + b.toNat / 16) / 16) = a := ofNat_eq (by omega)
    have hsecond : UInt8.ofNat ((a.toNat % 4 * 16 + b.toNat / 16) % 16 * 16 + b.toNat % 16 * 4 / 4) = b :=
      ofNat_eq (by omega)
    have hbits : b.toNat % 16 * 4 % 4 = 0 := by omega
    simp (disch := omega) only [decode, decodeGroup, value_digit, digit_ne_pad, Option.bind_eq_bind, Option.bind_some,
      isEmpty_nil, beq_self_eq_true, Bool.and_self, Bool.and_false, Bool.false_and, Bool.false_eq_true, if_false,
      if_true, hbits, hfirst, hsecond, append_nil]
  | case4 a b c rest ih =>
    have ha := a.toNat_lt
    have hb := b.toNat_lt
    have hc := c.toNat_lt
    have hfirst : UInt8.ofNat (a.toNat / 4 * 4 + (a.toNat % 4 * 16 + b.toNat / 16) / 16) = a := ofNat_eq (by omega)
    have hsecond : UInt8.ofNat ((a.toNat % 4 * 16 + b.toNat / 16) % 16 * 16 +
        (b.toNat % 16 * 4 + c.toNat / 64) / 4) = b := ofNat_eq (by omega)
    have hthird : UInt8.ofNat ((b.toNat % 16 * 4 + c.toNat / 64) % 4 * 64 + c.toNat % 64) = c := ofNat_eq (by omega)
    simp (disch := omega) only [cons_append, nil_append, decode, decodeGroup, value_digit, digit_ne_pad,
      Option.bind_eq_bind, Option.bind_some, ih, Bool.and_false, Bool.false_eq_true, if_false, hfirst, hsecond, hthird]

theorem length_decodeGroup_le {p q r t : Char} {last : Bool} {group : List UInt8}
    (h : decodeGroup p q r t last = some group) : group.length ≤ 3 := by
  simp only [decodeGroup, Option.bind_eq_bind, Option.bind_eq_some_iff] at h
  obtain ⟨a, -, b, -, h⟩ := h
  split at h
  · split at h
    · cases h
      simp
    · cases h
  · obtain ⟨c, -, h⟩ := Option.bind_eq_some_iff.mp h
    split at h
    · split at h
      · cases h
        simp
      · cases h
    · obtain ⟨d, -, h⟩ := Option.bind_eq_some_iff.mp h
      cases h
      simp

theorem length_decode_le {s : Text} {bytes : List UInt8} (h : decode s = some bytes) :
    bytes.length ≤ s.length / 4 * 3 := by
  fun_induction decode s generalizing bytes with
  | case1 =>
    cases h
    exact Nat.zero_le _
  | case2 p q r t rest ih =>
    obtain ⟨group, hgroup, h⟩ := Option.bind_eq_some_iff.mp h
    obtain ⟨more, hmore, h⟩ := Option.bind_eq_some_iff.mp h
    cases h
    have hle := length_decodeGroup_le hgroup
    have hrest := ih hmore
    simp only [length_append, length_cons]
    omega
  | case3 => cases h

end Base64
