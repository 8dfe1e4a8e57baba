import TurnRelay.Proofs.Marker.Chunks

/-!
# What a text is made of

Sieving loses nothing and invents nothing: every text is plain text with honoured markers in between,
and it is taken apart into exactly these. A marker is honoured where it stands written out in full,
from its literal to its closing bracket, with a body that denotes it; all else is plain text.

## The model

* `Honoured m span` — the span is the marker written out.
* `Composed text e` — the text is made of the plain text and the markers of `e`, in order.
* `Passage`, `written`, `plainText` — the same with every piece named: plain text, and passages of a
  marker's span and the plain text behind it.

## What is proved

* `composed_sift`, `composed_release` — what is sifted, and what is released in the end, is composed of
  what comes out.
* `exists_passages` — every text is written in passages whose spans are honoured, and the whole of what
  comes out is the plain text between the spans and the markers of the spans.
-/

namespace TurnRelay

open Marker Extraction

/-! ### Honoured markers -/

/-- What can be a component's name. -/
def Marker.IsName (name : List Char) : Prop := name ≠ [] ∧ ∀ c ∈ name, c ≠ ':' ∧ endsName c = false

/-- The span is the marker written out: its literal, for a rendering the name and a colon, a body that
denotes the marker, and the closing bracket. -/
inductive Honoured : Marker → List Char → Prop where
  /-- A dashboard. -/
  | dashboard {m : Marker} {body : List Char} : dashboardBody? body = some m →
      Honoured m (Kind.dashboard.literal ++ body ++ [']'])
  /-- A rendering. -/
  | render {m : Marker} {name body : List Char} : IsName name → renderBody? name body = some m →
      Honoured m (Kind.render.literal ++ name ++ ':' :: body ++ [']'])

theorem exists_of_settle {o : Option Marker} {m : Marker} {l n : Nat}
    (h : settle o l = .complete m n) : o = some m ∧ n = l := by
  cases o with
  | none => cases h
  | some m' =>
    cases h
    exact ⟨rfl, rfl⟩

/-- A complete marker's object is its body, up to the closing bracket. -/
theorem exists_of_examineObject {parse : List Char → Option Marker} {start n : Nat} {text : List Char}
    {m : Marker} (h : examineObject parse start text = .complete m n) :
    ∃ body rest, text = body ++ ']' :: rest ∧ parse body = some m ∧ n = start + body.length + 1 := by
  unfold examineObject at h
  cases hb : balancedLength .code 0 text with
  | none => simp [hb] at h
  | some l =>
    have hl := balancedLength_le hb
    simp only [hb] at h
    cases hd : text.drop l with
    | nil => simp [hd] at h
    | cons c rest =>
      simp only [hd] at h
      split at h
      · rename_i hc
        obtain ⟨hp, rfl⟩ := exists_of_settle h
        refine ⟨text.take l, rest, ?_, hp, by rw [List.length_take_of_le hl]⟩
        rw [← hc, ← hd, List.take_append_drop]
      · cases h

theorem exists_of_examineDashboard {start n : Nat} {text : List Char} {m : Marker}
    (h : examineDashboard start text = .complete m n) :
    ∃ body rest, text = body ++ ']' :: rest ∧ dashboardBody? body = some m ∧
      n = start + body.length + 1 := by
  cases text with
  | nil => cases h
  | cons c cs =>
    rw [examineDashboard] at h
    split at h
    · exact exists_of_examineObject h
    · cases h

theorem exists_of_examineProps {name : List Char} {start n : Nat} {text : List Char} {m : Marker}
    (h : examineProps name start text = .complete m n) :
    ∃ body rest, text = body ++ ']' :: rest ∧ renderBody? name body = some m ∧
      n = start + body.length + 1 := by
  cases text with
  | nil => cases h
  | cons c cs =>
    rw [examineProps] at h
    split at h
    · exact exists_of_examineObject h
    · cases hu : unnestedLength .code 0 (c :: cs) with
      | none => simp [hu] at h
      | some l =>
        simp only [hu] at h
        obtain ⟨hp, rfl⟩ := exists_of_settle h
        obtain ⟨rest, hr⟩ := drop_unnestedLength hu
        refine ⟨(c :: cs).take l, rest, ?_, hp, by rw [List.length_take_of_le (unnestedLength_lt hu).le]⟩
        rw [← hr, List.take_append_drop]

/-- The name is what was read before, turned round, and what stands before the colon. -/
theorem exists_of_examineRender {start n : Nat} {name text : List Char} {m : Marker}
    (hname : ∀ c ∈ name, c ≠ ':' ∧ endsName c = false) (h : examineRender start name text = .complete m n) :
    ∃ more body rest, text = more ++ ':' :: body ++ ']' :: rest ∧ IsName (name.reverse ++ more) ∧
      renderBody? (name.reverse ++ more) body = some m ∧ n = start + more.length + body.length + 2 := by
  induction text generalizing start name with
  | nil => cases h
  | cons c cs ih =>
    rw [examineRender] at h
    split at h
    · rename_i hc
      subst hc
      split at h
      · cases h
      · rename_i hn
        obtain ⟨body, rest, rfl, hp, rfl⟩ := exists_of_examineProps h
        refine ⟨[], body, rest, rfl, ?_, by simpa using hp, by simp only [List.length_nil]; omega⟩
        exact ⟨by simpa using hn, by simpa using hname⟩
    · rename_i hc
      split at h
      · cases h
      · rename_i he
        obtain ⟨more, body, rest, rfl, hnm, hp, rfl⟩ := ih (by simpa [hc, he] using hname) h
        refine ⟨c :: more, body, rest, rfl, ?_, ?_, by rw [List.length_cons]; omega⟩
        · simpa using hnm
        · simpa using hp

/-- **What is taken for a marker is one**: a complete marker's span is honoured. -/
theorem honoured_of_examine {k : Kind} {w z : List Char} {m : Marker} (hk : k.literal <+: w ++ z)
    (h : examine k (w ++ z) = .complete m w.length) : Honoured m w := by
  obtain ⟨text, ht⟩ := hk
  rw [← ht] at h
  cases k with
  | dashboard =>
    simp only [examine, List.drop_left] at h
    obtain ⟨body, rest, rfl, hp, hn⟩ := exists_of_examineDashboard h
    have hw : Kind.dashboard.literal ++ body ++ [']'] ++ rest = w ++ z := by simpa using ht
    rw [← List.append_inj_left hw (by simp; omega)]
    exact .dashboard hp
  | render =>
    simp only [examine, List.drop_left] at h
    obtain ⟨name, body, rest, rfl, hn, hp, hl⟩ := exists_of_examineRender (by simp) h
    have hw : Kind.render.literal ++ name ++ ':' :: body ++ [']'] ++ rest = w ++ z := by simpa using ht
    rw [← List.append_inj_left hw (by simp; omega)]
    exact .render hn hp

/-! ### Composed texts -/

/-- The text is made of the plain text and the markers of an extraction, in order. -/
inductive Composed : List Char → Extraction → Prop where
  /-- Plain text. -/
  | plain (p : List Char) : Composed p (ofPlain p)
  /-- Plain text, a marker, and what follows. -/
  | marker {p span text : List Char} {m : Marker} {e : Extraction} : Honoured m span → Composed text e →
      Composed (p ++ span ++ text) (ofPlain p ++ ofMarker m ++ e)

theorem Composed.nil : Composed [] empty := .plain []

/-- Plain text in front. -/
theorem Composed.plain_append {text : List Char} {e : Extraction} (p : List Char)
    (h : Composed text e) : Composed (p ++ text) (ofPlain p ++ e) := by
  cases h with
  | plain => exact .plain (p ++ text)
  | @marker q span text m e hs ht =>
    simp only [← List.append_assoc, ← append_assoc, ← ofPlain_append]
    exact .marker hs ht

/-- A marker in front. -/
theorem Composed.marker_append {span text : List Char} {m : Marker} {e : Extraction}
    (hs : Honoured m span) (h : Composed text e) : Composed (span ++ text) (ofMarker m ++ e) :=
  .marker (p := []) hs h

theorem Composed.append {s t : List Char} {d e : Extraction} (hs : Composed s d) (ht : Composed t e) :
    Composed (s ++ t) (d ++ e) := by
  induction hs with
  | plain p => exact ht.plain_append p
  | marker hspan _ ih =>
    rw [List.append_assoc, append_assoc]
    exact .marker hspan ih

/-- **Sifting loses nothing**: the text is composed of what comes out, and then what is withheld. -/
theorem composed_sift (text : List Char) :
    ∃ done, text = done ++ (sift text).2 ∧ Composed done (sift text).1 := by
  have h := sifts text
  generalize (sift text).1 = e, (sift text).2 = rest at h
  induction h with
  | stop => exact ⟨[], rfl, .nil⟩
  | wait => exact ⟨[], rfl, .nil⟩
  | @plain p z rest e _ _ ih =>
    obtain ⟨done, hz, hc⟩ := ih
    exact ⟨p ++ done, by rw [List.append_assoc, ← hz], hc.plain_append p⟩
  | @marker w z rest e k m hk hv _ ih =>
    obtain ⟨done, hz, hc⟩ := ih
    have hm := honoured_of_examine (literalAt_eq_some_iff.1 hk) hv
    exact ⟨w ++ done, by rw [List.append_assoc, ← hz], hc.marker_append hm⟩
  | @malformed w z rest e k _ _ _ ih =>
    obtain ⟨done, hz, hc⟩ := ih
    exact ⟨w ++ done, by rw [List.append_assoc, ← hz], hc.plain_append w⟩

/-- Releasing loses nothing. -/
theorem composed_release (text : List Char) : Composed text (Sieve.release text) := by
  fun_induction Sieve.release text with
  | case1 => exact .nil
  | case2 text hne later ih =>
    obtain ⟨done, hd, hc⟩ := composed_sift (text.drop (Sieve.releaseLength text))
    have h := ((hc.append ih).plain_append (text.take (Sieve.releaseLength text)))
    rwa [← hd, List.take_append_drop, ← append_assoc] at h

theorem composed_flush (s : Sieve) : Composed s.withheld s.flush.1 := by
  obtain ⟨done, hd, hc⟩ := composed_sift s.withheld
  have h := hc.append (composed_release (sift s.withheld).2)
  rwa [← hd] at h

theorem composed_ofText (text : List Char) : Composed text (ofText text) := by
  obtain ⟨done, hd, hc⟩ := composed_sift text
  have h := hc.append (composed_flush ⟨(sift text).2⟩)
  rwa [← hd] at h

/-! ### Passages -/

/-- A marker in a text, and the plain text behind it. -/
structure Passage where
  /-- The marker. -/
  marker : Marker
  /-- The marker written out. -/
  span : List Char
  /-- The plain text behind it, up to the next marker. -/
  behind : List Char

/-- The text that begins with plain text and goes on with passages. -/
def written (first : List Char) (passages : List Passage) : List Char :=
  first ++ passages.flatMap fun p => p.span ++ p.behind

/-- The plain text of such a text. -/
def plainText (first : List Char) (passages : List Passage) : List Char :=
  first ++ passages.flatMap fun p => p.behind

/-- **Nothing is lost, invented or reordered**: every text is plain text and passages, each with a
marker that is honoured where it stands; and sieving the text gives just this plain text and these
markers, in their order. -/
theorem exists_passages (text : List Char) :
    ∃ first passages, text = written first passages ∧
      (∀ p ∈ passages, Honoured p.marker p.span) ∧
      (ofText text).text = plainText first passages ∧
      (ofText text).markers = passages.map fun p => p.marker := by
  have h := composed_ofText text
  generalize ofText text = e at h
  induction h with
  | plain p => exact ⟨p, [], by simp [written], by simp, by simp [plainText], rfl⟩
  | @marker p span text m e hs _ ih =>
    obtain ⟨first, passages, rfl, hp, ht, hm⟩ := ih
    refine ⟨p, ⟨m, span, first⟩ :: passages, ?_, ?_, ?_, ?_⟩
    · simp [written]
    · exact List.forall_mem_cons.2 ⟨hs, hp⟩
    · simp [ht, plainText]
    · simp [hm]

end TurnRelay
