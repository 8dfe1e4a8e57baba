import TurnRelay.Proofs.Marker.Verdict

/-!
# A text in chunks

However a text is cut into chunks, the sieve gives the same plain text and the same markers. The reason
is that `sift` can be taken up where it stopped: what it withholds, with more text behind, leads to the
same result as all of the text at once. Its induction is that of `sift` itself, and it rests on
`Settled.append` where no literal is left and on `examine_append` where there is one.

## What is proved

* `sift_append` — sifting may be interrupted anywhere.
* `split_invariance` — so for every state of the sieve and every two chunks, and for a whole text in any
  number of chunks.
-/

namespace TurnRelay

open Marker

/-! ### Extractions -/

namespace Extraction

theorem ext {a b : Extraction} (ht : a.text = b.text) (hm : a.markers = b.markers) : a = b := by
  cases a
  cases b
  simp only at ht hm
  rw [ht, hm]

@[simp] theorem text_append (a b : Extraction) : (a ++ b).text = a.text ++ b.text := rfl

@[simp] theorem markers_append (a b : Extraction) : (a ++ b).markers = a.markers ++ b.markers := rfl

@[simp] theorem text_empty : empty.text = [] := rfl

@[simp] theorem markers_empty : empty.markers = [] := rfl

@[simp] theorem text_ofPlain (t : List Char) : (ofPlain t).text = t := rfl

@[simp] theorem markers_ofPlain (t : List Char) : (ofPlain t).markers = [] := rfl

@[simp] theorem text_ofMarker (m : Marker) : (ofMarker m).text = [] := rfl

@[simp] theorem markers_ofMarker (m : Marker) : (ofMarker m).markers = [m] := rfl

theorem append_assoc (a b c : Extraction) : a ++ b ++ c = a ++ (b ++ c) :=
  ext (List.append_assoc ..) (List.append_assoc ..)

@[simp] theorem empty_append (a : Extraction) : empty ++ a = a := rfl

@[simp] theorem append_empty (a : Extraction) : a ++ empty = a :=
  ext (List.append_nil _) (List.append_nil _)

theorem ofPlain_append (s t : List Char) : ofPlain (s ++ t) = ofPlain s ++ ofPlain t := rfl

@[simp] theorem ofPlain_nil : ofPlain [] = empty := rfl

end Extraction

open Extraction

/-! ### Sifting -/

theorem sift_of_none {text : List Char} (h : firstLiteral text = none) :
    sift text = (ofPlain (text.take (text.length - (openTail text).length)), openTail text) := by
  rw [sift]
  split
  · rfl
  · rename_i hf
    rw [h] at hf
    cases hf

theorem sift_of_some {text before rest : List Char} {k : Kind}
    (h : firstLiteral text = some (before, k, rest)) :
    sift text = match examine k rest with
      | .incomplete => (ofPlain before, rest)
      | .complete m n =>
        (ofPlain before ++ ofMarker m ++ (sift (rest.drop n)).1, (sift (rest.drop n)).2)
      | .malformed n =>
        (ofPlain (before ++ rest.take n) ++ (sift (rest.drop n)).1, (sift (rest.drop n)).2) := by
  rw [sift]
  split
  · rename_i hf
    rw [h] at hf
    cases hf
  · rename_i hf
    rw [h] at hf
    cases hf
    split <;> rename_i hv <;> simp only [hv]

/-- A settled piece is plain text, and what follows is sifted as if it stood alone. -/
theorem sift_settled {p z : List Char} (h : Settled p z) :
    sift (p ++ z) = (ofPlain p ++ (sift z).1, (sift z).2) := by
  cases hz : firstLiteral z with
  | none =>
    have hl := Sieve.length_openTail_le z
    rw [sift_of_none hz, sift_of_none (by rw [firstLiteral_settled h, hz]; rfl), openTail_settled h]
    have hlen : (p ++ z).length - (openTail z).length = p.length + (z.length - (openTail z).length) := by
      rw [List.length_append]
      omega
    rw [hlen, List.take_length_add_append]
    rfl
  | some f =>
    obtain ⟨before, k, rest⟩ := f
    rw [sift_of_some hz, sift_of_some (by rw [firstLiteral_settled h, hz]; rfl)]
    split <;> simp [ofPlain_append, append_assoc]

theorem sift_stop {z : List Char} (h : firstLiteral z = none) (ho : openTail z = z) :
    sift z = (empty, z) := by
  rw [sift_of_none h, ho, Nat.sub_self]
  rfl

theorem sift_incomplete {text : List Char} {k : Kind} (hk : literalAt text = some k)
    (h : examine k text = .incomplete) : sift text = (empty, text) := by
  rw [sift_of_some (firstLiteral_of_literalAt hk), h]
  rfl

theorem sift_complete {text : List Char} {k : Kind} {m : Marker} {n : Nat} (hk : literalAt text = some k)
    (h : examine k text = .complete m n) :
    sift text = (ofMarker m ++ (sift (text.drop n)).1, (sift (text.drop n)).2) := by
  rw [sift_of_some (firstLiteral_of_literalAt hk), h]
  rfl

theorem sift_malformed {text : List Char} {k : Kind} {n : Nat} (hk : literalAt text = some k)
    (h : examine k text = .malformed n) :
    sift text = (ofPlain (text.take n) ++ (sift (text.drop n)).1, (sift (text.drop n)).2) := by
  rw [sift_of_some (firstLiteral_of_literalAt hk), h]
  rfl

/-- How `sift` gets from a text to what it extracts and what it withholds, piece by piece. -/
inductive Sifts : List Char → Extraction → List Char → Prop where
  /-- No literal is left, and what is left may become one. -/
  | stop {z : List Char} : firstLiteral z = none → openTail z = z → Sifts z empty z
  /-- A literal is left whose marker is incomplete. -/
  | wait {z : List Char} {k : Kind} : literalAt z = some k → examine k z = .incomplete → Sifts z empty z
  /-- A settled piece is plain text. -/
  | plain {p z rest : List Char} {e : Extraction} : Settled p z → Sifts z e rest →
      Sifts (p ++ z) (ofPlain p ++ e) rest
  /-- A marker. -/
  | marker {w z rest : List Char} {e : Extraction} {k : Kind} {m : Marker} :
      literalAt (w ++ z) = some k → examine k (w ++ z) = .complete m w.length → Sifts z e rest →
      Sifts (w ++ z) (ofMarker m ++ e) rest
  /-- What looked like a marker is plain text. -/
  | malformed {w z rest : List Char} {e : Extraction} {k : Kind} :
      literalAt (w ++ z) = some k → examine k (w ++ z) = .malformed w.length → Sifts z e rest →
      Sifts (w ++ z) (ofPlain w ++ e) rest

/-- A text is what a verdict settles and the rest, which is shorter. -/
theorem exists_append_of_settled {text : List Char} {k : Kind} {n : Nat} (hk : literalAt text = some k)
    (h : (examine k text).settled = some n) :
    ∃ w z, text = w ++ z ∧ w.length = n ∧ z.length < text.length := by
  have hle := (examine_append (literalAt_eq_some_iff.1 hk) h []).1
  have hpos := Nat.lt_of_lt_of_le (literal_pos k) (settled_examine h)
  refine ⟨text.take n, text.drop n, (List.take_append_drop n text).symm, ?_, ?_⟩
  · rw [List.length_take]
    omega
  · rw [List.length_drop]
    omega

theorem sifts_of_literalAt {text : List Char} {k : Kind} (hk : literalAt text = some k)
    (ih : ∀ z : List Char, z.length < text.length → Sifts z (sift z).1 (sift z).2) :
    Sifts text (sift text).1 (sift text).2 := by
  cases hv : examine k text with
  | incomplete =>
    rw [sift_incomplete hk hv]
    exact .wait hk hv
  | complete m n =>
    obtain ⟨w, z, rfl, rfl, hz⟩ := exists_append_of_settled hk (by rw [hv]; rfl)
    rw [sift_complete hk hv, List.drop_left]
    exact .marker hk hv (ih z hz)
  | malformed n =>
    obtain ⟨w, z, rfl, rfl, hz⟩ := exists_append_of_settled hk (by rw [hv]; rfl)
    rw [sift_malformed hk hv, List.drop_left, List.take_left]
    exact .malformed hk hv (ih z hz)

theorem sifts (text : List Char) : Sifts text (sift text).1 (sift text).2 := by
  induction hn : text.length using Nat.strongRecOn generalizing text with
  | _ n ih =>
    subst hn
    cases hf : firstLiteral text with
    | none =>
      obtain ⟨p, hp, hs⟩ := settled_openTail hf
      generalize ht : openTail text = tail at hp hs
      subst hp
      rw [openTail_settled hs] at ht
      rw [firstLiteral_settled hs, Option.map_eq_none_iff] at hf
      rw [sift_settled hs, sift_stop hf ht]
      exact .plain hs (.stop hf ht)
    | some f =>
      obtain ⟨before, k, rest⟩ := f
      obtain ⟨rfl, hk, hs⟩ := settled_of_firstLiteral hf
      rw [sift_settled hs]
      refine .plain hs (sifts_of_literalAt hk fun z hz => ih z.length ?_ z rfl)
      rw [List.length_append]
      omega

/-- **Sifting may be interrupted**: sifting `a ++ b` is sifting `a`, and then what was withheld with `b`
behind. -/
theorem sift_append (a b : List Char) :
    sift (a ++ b) = ((sift a).1 ++ (sift ((sift a).2 ++ b)).1, (sift ((sift a).2 ++ b)).2) := by
  have h := sifts a
  generalize (sift a).1 = e, (sift a).2 = rest at h
  induction h with
  | stop => rfl
  | wait => rfl
  | plain hs _ ih =>
    rw [List.append_assoc, sift_settled (hs.append b), ih]
    exact Prod.ext (append_assoc ..).symm rfl
  | marker hk hv _ ih =>
    have hvb := (examine_append (literalAt_eq_some_iff.1 hk) (by rw [hv]; rfl) b).2.trans hv
    rw [sift_complete (literalAt_append hk b) hvb, List.append_assoc, List.drop_left, ih]
    exact Prod.ext (append_assoc ..).symm rfl
  | malformed hk hv _ ih =>
    have hvb := (examine_append (literalAt_eq_some_iff.1 hk) (by rw [hv]; rfl) b).2.trans hv
    rw [sift_malformed (literalAt_append hk b) hvb, List.append_assoc, List.drop_left, List.take_left, ih]
    exact Prod.ext (append_assoc ..).symm rfl

/-! ### Chunks -/

namespace Sieve

theorem push_append (s : Sieve) (a b : List Char) :
    s.push (a ++ b) = ((s.push a).1 ++ ((s.push a).2.push b).1, ((s.push a).2.push b).2) := by
  simp only [push, ← List.append_assoc, sift_append (s.withheld ++ a) b]

/-- What a sieve withholds it withholds as long as nothing comes. -/
theorem push_push_nil (s : Sieve) (a : List Char) : (s.push a).2.push [] = (.empty, (s.push a).2) := by
  have h := push_append s a []
  rw [List.append_nil] at h
  have he : (s.push a).1 = (s.push a).1 ++ ((s.push a).2.push []).1 := congrArg Prod.fst h
  have ht := congrArg Extraction.text he
  have hm := congrArg Extraction.markers he
  rw [text_append, List.self_eq_append_right] at ht
  rw [markers_append, List.self_eq_append_right] at hm
  exact Prod.ext (Extraction.ext ht hm) (congrArg Prod.snd h).symm

/-- Takes chunks one after the other; gives what comes out of all of them. -/
def pushAll (s : Sieve) : List (List Char) → Extraction × Sieve
  | [] => (.empty, s)
  | chunk :: chunks =>
    let (e, s) := s.push chunk
    let (later, s) := s.pushAll chunks
    (e ++ later, s)

/-- Chunks in a row are one chunk, for a sieve that has nothing to give. -/
theorem pushAll_eq_push {s : Sieve} (h : s.push [] = (.empty, s)) (chunks : List (List Char)) :
    s.pushAll chunks = s.push chunks.flatten := by
  induction chunks generalizing s with
  | nil => exact h.symm
  | cons chunk chunks ih =>
    rw [List.flatten_cons, push_append, ← ih (push_push_nil s chunk)]
    rfl

theorem push_empty_nil : empty.push [] = (.empty, empty) := by
  simp only [push, empty, List.append_nil, sift_stop (z := []) rfl rfl]

end Sieve

/-- **Chunks do not matter**: for every state of the sieve, two chunks give the same plain text, the same
markers and the same withheld text as both in one; and every text, in whatever chunks it comes, gives
in the end what it gives as a whole. -/
theorem split_invariance :
    (∀ (s : Sieve) (a b : List Char),
      (s.push a).1.text ++ ((s.push a).2.push b).1.text = (s.push (a ++ b)).1.text ∧
      (s.push a).1.markers ++ ((s.push a).2.push b).1.markers = (s.push (a ++ b)).1.markers ∧
      ((s.push a).2.push b).2.withheld = (s.push (a ++ b)).2.withheld) ∧
    ∀ chunks : List (List Char),
      (Sieve.empty.pushAll chunks).1 ++ (Sieve.empty.pushAll chunks).2.flush.1 =
        Extraction.ofText chunks.flatten := by
  constructor
  · intro s a b
    rw [Sieve.push_append]
    exact ⟨rfl, rfl, rfl⟩
  · intro chunks
    rw [Sieve.pushAll_eq_push Sieve.push_empty_nil]
    rfl

end TurnRelay
