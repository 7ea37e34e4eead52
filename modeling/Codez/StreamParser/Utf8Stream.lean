import Codez.Lib.Fallible
import Codez.Lib.Utf8
import Codez.StreamParser.InlineHiddenTag

/-!
The bytes of a streamed text (`utils/stream-parser/src/utf8_stream.rs`).

`pushBytes` hands on what is complete of the text so far and keeps the start of a character that is
cut.
-/

namespace StreamParser

open Streaming List

structure StreamTextParser (σ T : Type) where
  pushStr : σ → Text → StreamTextChunk T × σ
  finish : σ → StreamTextChunk T × σ

/-- `error_len` of the error that `str::from_utf8` gives: there is none when the input ends inside of a
character. -/
structure Utf8Lib where
  errorLen : List UInt8 → Option Nat
  errorLen_eq_none_iff : ∀ bs, Text.fromUtf8 bs = none → (errorLen bs = none ↔ Text.CutShort bs)

instance : Nonempty Utf8Lib := by
  classical exact ⟨fun bs => if Text.CutShort bs then none else some 1, by simp⟩

def validUpTo (bs : List UInt8) : Nat := Nat.findGreatest (fun n => (Text.fromUtf8 (bs.take n)).isSome) bs.length

inductive Utf8StreamParserError where
  | invalidUtf8 (validUpTo errorLen : Nat)
  | incompleteUtf8AtEof
deriving DecidableEq

structure Utf8StreamParser (σ : Type) where
  inner : σ
  pendingUtf8 : List UInt8 := []

open Text

namespace Utf8StreamParser

variable {σ T : Type} (lib : Utf8Lib) (P : StreamTextParser σ T)

def pushBytes (p : Utf8StreamParser σ) (chunk : List UInt8) :
    Except Utf8StreamParserError (StreamTextChunk T) × Utf8StreamParser σ :=
  let oldLen := p.pendingUtf8.length
  let pending := p.pendingUtf8 ++ chunk
  match Text.fromUtf8 pending with
  | some text => (.ok (P.pushStr p.inner text).1, ⟨(P.pushStr p.inner text).2, []⟩)
  | none =>
    match lib.errorLen pending with
    | some errorLen =>
      (.error (.invalidUtf8 (validUpTo pending) errorLen), { p with pendingUtf8 := pending.take oldLen })
    | none =>
      if validUpTo pending = 0 then (.ok {}, { p with pendingUtf8 := pending })
      else
        let valid := pending.take (validUpTo pending)
        match Text.fromUtf8 valid with
        | some text =>
          (.ok (P.pushStr p.inner text).1, ⟨(P.pushStr p.inner text).2, pending.drop (validUpTo pending)⟩)
        | none =>
          (.error (.invalidUtf8 (validUpTo valid) ((lib.errorLen valid).getD 0)),
            { p with pendingUtf8 := pending.take oldLen })

def finish (p : Utf8StreamParser σ) : Except Utf8StreamParserError (StreamTextChunk T) × Utf8StreamParser σ :=
  if p.pendingUtf8 = [] then (.ok (P.finish p.inner).1, { p with inner := (P.finish p.inner).2 })
  else
    match Text.fromUtf8 p.pendingUtf8 with
    | none =>
      match lib.errorLen p.pendingUtf8 with
      | some errorLen => (.error (.invalidUtf8 (validUpTo p.pendingUtf8) errorLen), p)
      | none => (.error .incompleteUtf8AtEof, p)
    | some text =>
      let out := P.pushStr p.inner text
      (.ok (out.1 ++ (P.finish out.2).1), ⟨(P.finish out.2).2, []⟩)

def run : Utf8StreamParser σ → List (List UInt8) → Except Utf8StreamParserError (StreamTextChunk T)
  | p, [] => (p.finish lib P).1
  | p, chunk :: chunks => do
    let out ← (p.pushBytes lib P chunk).1
    let rest ← run (p.pushBytes lib P chunk).2 chunks
    return out ++ rest

theorem exists_validUpTo (bs : List UInt8) : ∃ t, bs.take (validUpTo bs) = bytes t := by
  have hval := @Nat.findGreatest_spec 0 (fun n => (fromUtf8 (bs.take n)).isSome) _ bs.length (Nat.zero_le _)
    (by rw [take_zero, ← bytes_nil, fromUtf8_bytes]; rfl)
  obtain ⟨t, ht⟩ := Option.isSome_iff_exists.mp hval
  exact ⟨t, fromUtf8_eq_some_iff.mp ht⟩

/-- What a push does, whatever the wrapped parser: it hands on the text in front of what stays pending,
or nothing, or fails because no text begins with these bytes. -/
inductive Pushes (pending chunk : List UInt8) : Prop
  | text (t : Text) (rest : List UInt8) (hsplit : pending ++ chunk = Text.bytes t ++ rest)
    (hpush : ∀ {σ T : Type} (P : StreamTextParser σ T) (s : σ), pushBytes lib P ⟨s, pending⟩ chunk =
      (.ok (P.pushStr s t).1, ⟨(P.pushStr s t).2, rest⟩))
  | waits (hpush : ∀ {σ T : Type} (P : StreamTextParser σ T) (s : σ), pushBytes lib P ⟨s, pending⟩ chunk =
      (.ok {}, ⟨s, pending ++ chunk⟩))
  | fails (e : Utf8StreamParserError) (hno : ∀ t, ¬pending ++ chunk <+: Text.bytes t)
    (hpush : ∀ {σ T : Type} (P : StreamTextParser σ T) (s : σ), pushBytes lib P ⟨s, pending⟩ chunk =
      (.error e, ⟨s, pending⟩))

theorem pushes (pending chunk : List UInt8) : Pushes lib pending chunk := by
  cases hdec : fromUtf8 (pending ++ chunk) with
  | some t =>
    refine .text t [] (by rw [append_nil, fromUtf8_eq_some_iff.mp hdec]) fun P s => ?_
    simp only [pushBytes, hdec]
  | none =>
    cases hlen : lib.errorLen (pending ++ chunk) with
    | some errorLen =>
      refine .fails (.invalidUtf8 (validUpTo (pending ++ chunk)) errorLen) (fun t hprefix => ?_) fun P s => ?_
      · rcases valid_or_cutShort hprefix with ⟨u, hu⟩ | hcut
        · exact fromUtf8_eq_none_iff.mp hdec u hu
        · rw [(lib.errorLen_eq_none_iff _ hdec).mpr hcut] at hlen
          cases hlen
      · simp only [pushBytes, hdec, hlen, take_left]
    | none =>
      by_cases hzero : validUpTo (pending ++ chunk) = 0
      · exact .waits fun P s => by simp only [pushBytes, hdec, hlen, hzero, if_true]
      · obtain ⟨t, ht⟩ := exists_validUpTo (pending ++ chunk)
        refine .text t _ (by rw [← ht, take_append_drop]) fun P s => ?_
        simp only [pushBytes, hdec, hlen, hzero, if_false, ht, fromUtf8_bytes]

theorem exists_texts (chunks : List (List UInt8)) {pending : List UInt8} {text : Text}
    (h : pending ++ chunks.flatten = bytes text) :
    ∃ texts : List Text, texts.flatten = text ∧ ∀ {σ T : Type} (P : StreamTextParser σ T) (s : σ),
      run lib P ⟨s, pending⟩ chunks = .ok (Streaming.run P.pushStr (fun s => (P.finish s).1) s texts) := by
  induction chunks generalizing pending text with
  | nil =>
    rw [flatten_nil, append_nil] at h
    cases text with
    | nil => exact ⟨[], rfl, fun P s => by rw [h]; rfl⟩
    | cons c text =>
      have hne : bytes (c :: text) ≠ [] := fun hnil =>
        String.utf8EncodeChar_ne_nil (append_eq_nil_iff.mp hnil).1
      refine ⟨[c :: text], flatten_singleton, fun P s => ?_⟩
      simp only [run, finish, h, hne, if_false, fromUtf8_bytes]
      rfl
  | cons chunk chunks ih =>
    rw [flatten_cons, ← append_assoc] at h
    cases pushes lib pending chunk with
    | text t rest hspl hpush =>
      rw [hspl, append_assoc] at h
      obtain ⟨u, rfl, hu⟩ := exists_of_bytes_append_eq h
      obtain ⟨texts, rfl, hrun⟩ := ih hu
      refine ⟨t :: texts, rfl, fun P s => ?_⟩
      simp only [run, hpush, hrun]
      rfl
    | waits hpush =>
      obtain ⟨texts, rfl, hrun⟩ := ih h
      refine ⟨texts, rfl, fun P s => ?_⟩
      simp only [run, hpush, hrun]
      rfl
    | fails e hno hpush => exact absurd ⟨chunks.flatten, h⟩ (hno text)

theorem valid_of_run_ok {P : StreamTextParser σ T} (chunks : List (List UInt8)) {s : σ} {pending : List UInt8}
    {out : StreamTextChunk T} (h : run lib P ⟨s, pending⟩ chunks = .ok out) :
    ∃ text, pending ++ chunks.flatten = bytes text := by
  induction chunks generalizing s pending out with
  | nil =>
    rw [flatten_nil, append_nil]
    simp only [run, finish] at h
    split at h
    · next hnil => exact ⟨[], hnil⟩
    · split at h
      · split at h <;> cases h
      · next t ht => exact ⟨t, fromUtf8_eq_some_iff.mp ht⟩
  | cons chunk chunks ih =>
    rw [flatten_cons, ← append_assoc]
    rw [run] at h
    obtain ⟨out', hout, h⟩ := Fallible.bind_eq_ok h
    obtain ⟨rest', hr, -⟩ := Fallible.bind_eq_ok h
    cases pushes lib pending chunk with
    | text t rest hspl hpush =>
      rw [hpush] at hr
      obtain ⟨u, hu⟩ := ih hr
      exact ⟨t ++ u, by rw [hspl, append_assoc, hu, bytes_append]⟩
    | waits hpush =>
      rw [hpush] at hr
      exact ih hr
    | fails e hno hpush =>
      rw [hpush] at hout
      cases hout

/-- **Byte streams decode the same however they are cut, and a push that fails changes nothing.** -/
theorem decodes_chunks (chunks : List (List UInt8)) :
    (∀ text, Text.fromUtf8 chunks.flatten = some text → ∃ texts : List Text, texts.flatten = text ∧
      ∀ {σ T : Type} (P : StreamTextParser σ T) (s : σ),
        run lib P { inner := s } chunks = .ok (Streaming.run P.pushStr (fun s => (P.finish s).1) s texts)) ∧
    (Text.fromUtf8 chunks.flatten = none → ∀ {σ T : Type} (P : StreamTextParser σ T) (s : σ),
      ∃ e, run lib P { inner := s } chunks = .error e) ∧
    ∀ {σ T : Type} (P : StreamTextParser σ T) (p : Utf8StreamParser σ) (chunk : List UInt8) (e : Utf8StreamParserError),
      (p.pushBytes lib P chunk).1 = .error e → (p.pushBytes lib P chunk).2 = p := by
  refine ⟨fun text htext => ?_, fun hnone σ T P s => ?_, fun {σ T} P p chunk e herror => ?_⟩
  · exact exists_texts lib chunks (Text.fromUtf8_eq_some_iff.mp htext)
  · cases hrun : run lib P { inner := s } chunks with
    | error e => exact ⟨e, rfl⟩
    | ok out =>
      obtain ⟨text, htext⟩ := valid_of_run_ok lib chunks hrun
      exact absurd htext (Text.fromUtf8_eq_none_iff.mp hnone text)
  · cases pushes lib p.pendingUtf8 chunk with
    | text t rest hsplit hpush | waits hpush => rw [hpush P p.inner] at herror; cases herror
    | fails e hno hpush => rw [hpush P p.inner]

end Utf8StreamParser

end StreamParser
