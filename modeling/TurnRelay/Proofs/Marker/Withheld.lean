import TurnRelay.Proofs.Marker.Rounds

/-!
# What is withheld

A sieve withholds a text for two reasons only: a marker has begun whose end has not come, or the end of what it was
told could begin a literal. To withhold less would give out half a marker; to withhold more would keep plain text back
for ever. What is withheld in the second case is the longest end of all the text that could begin a literal, also where
a marker or something that looked like one stands in front of it: nothing that a verdict settles ends in the beginning
of a literal.

## The model

* `Use`, `Sieve.useAll` — chunks and the giving out of all in any order; what comes out, and the sieve then.
* `heard` — the text since all was given out last.
* `Withholds heard rest` — what may be withheld then.

## What is proved

* `shut_of_examine` — nothing that a verdict settles ends in the beginning of a literal.
* `withholds_sift` — what is withheld of a text.
* `withheld_of_uses` — what is withheld after any uses, and what becomes of it.
-/

namespace TurnRelay

namespace Marker

open Extraction

/-! ### Where a verdict stops -/

/-- What a verdict of the length `n` settles behind the first `start` characters: characters that are no opening
bracket, or up to a character that is in no beginning of a literal. -/
def Stops (body : List Char) (start n : Nat) : Prop :=
  ∃ front back, body = front ++ back ∧ n = start + front.length ∧
    ('[' ∉ front ∨ ∃ f c, front = f ++ [c] ∧ c ∈ [']', '}', ':'])

theorem Stops.cons {c : Char} (hc : c ≠ '[') {body : List Char} {start n : Nat} (h : Stops body (start + 1) n) :
    Stops (c :: body) start n := by
  obtain ⟨front, back, rfl, rfl, hfront⟩ := h
  refine ⟨c :: front, back, rfl, by rw [List.length_cons]; omega, ?_⟩
  rcases hfront with hno | ⟨f, d, rfl, hd⟩
  · refine .inl fun hmem => ?_
    rcases List.mem_cons.1 hmem with rfl | hmem
    · exact hc rfl
    · exact hno hmem
  · exact .inr ⟨c :: f, d, rfl, hd⟩

theorem stops_here (body : List Char) (start : Nat) : Stops body start start :=
  ⟨[], body, rfl, rfl, .inl List.not_mem_nil⟩

theorem stops_behind {f back : List Char} {c : Char} (hc : c ∈ [']', '}', ':']) (start : Nat) :
    Stops (f ++ c :: back) start (start + f.length + 1) := by
  refine ⟨f ++ [c], back, by simp, ?_, .inr ⟨f, c, rfl, hc⟩⟩
  rw [List.length_append, List.length_singleton, Nat.add_assoc]

/-- An object ends with its closing brace. -/
theorem exists_of_balancedLength {place : Place} {depth n : Nat} {cs : List Char}
    (h : balancedLength place depth cs = some n) : ∃ f back, cs = f ++ '}' :: back ∧ n = f.length + 1 := by
  fun_induction balancedLength place depth cs generalizing n with
  | case1 => cases h
  | case6 depth cs hd =>
    cases h
    exact ⟨[], cs, rfl, rfl⟩
  | case2 depth c cs ih | case3 depth c cs ih | case4 depth cs ih | case5 depth cs hq ih
  | case7 depth cs hd hq ho ih | case8 depth c cs hq ho hc ih =>
    obtain ⟨m, hm, rfl⟩ := Option.map_eq_some_iff.1 h
    obtain ⟨f, back, rfl, rfl⟩ := ih hm
    exact ⟨_ :: f, back, rfl, rfl⟩

theorem stops_of_examineObject {parse : List Char → Option Marker} {start n : Nat} {body : List Char}
    (h : (examineObject parse start body).settled = some n) : Stops body start n := by
  unfold examineObject at h
  cases hb : balancedLength .code 0 body with
  | none => simp [hb, settled_incomplete] at h
  | some l =>
    obtain ⟨f, back, rfl, rfl⟩ := exists_of_balancedLength hb
    have hdrop : (f ++ '}' :: back).drop (f.length + 1) = back := by simp
    simp only [hb, hdrop] at h
    cases back with
    | nil => exact absurd h settled_incomplete
    | cons c rest =>
      simp only at h
      split at h
      · rename_i hc
        subst hc
        rw [settled_settle, Option.some.injEq] at h
        subst h
        have hstop : Stops ((f ++ ['}']) ++ ']' :: rest) start (start + (f ++ ['}']).length + 1) :=
          stops_behind (by decide) start
        simpa [Nat.add_assoc] using hstop
      · cases h
        exact stops_behind (by decide) _

theorem stops_of_examineDashboard {start n : Nat} {body : List Char}
    (h : (examineDashboard start body).settled = some n) : Stops body start n := by
  cases body with
  | nil => exact absurd h settled_incomplete
  | cons c cs =>
    rw [examineDashboard] at h
    split at h
    · exact stops_of_examineObject h
    · cases h
      exact stops_here _ _

theorem stops_of_examineProps {component : List Char} {start n : Nat} {body : List Char}
    (h : (examineProps component start body).settled = some n) : Stops body start n := by
  cases body with
  | nil => exact absurd h settled_incomplete
  | cons c cs =>
    rw [examineProps] at h
    split at h
    · exact stops_of_examineObject h
    · cases hu : unnestedLength .code 0 (c :: cs) with
      | none => simp [hu, settled_incomplete] at h
      | some l =>
        simp only [hu, settled_settle, Option.some.injEq] at h
        subst h
        obtain ⟨mid, rest, hbody, rfl⟩ := exists_of_unnestedLength hu
        rw [hbody]
        exact stops_behind (by decide) start

theorem stops_of_examineRender {start n : Nat} {name body : List Char}
    (h : (examineRender start name body).settled = some n) : Stops body start n := by
  induction body generalizing start name with
  | nil => exact absurd h settled_incomplete
  | cons c cs ih =>
    rw [examineRender] at h
    split at h
    · rename_i hc
      subst hc
      split at h
      · cases h
        exact stops_behind (f := []) (by decide) _
      · exact (stops_of_examineProps h).cons (by decide)
    · split at h
      · cases h
        exact stops_here _ _
      · rename_i he
        refine (ih h).cons ?_
        rintro rfl
        exact he rfl

/-! ### Nothing is begun -/

/-- No end of the text but the empty one is the beginning of a literal. -/
def Shut (w : List Char) : Prop := ∀ e, e <:+ w → isOpening e = true → e = []

theorem head_of_isOpening {c : Char} {e : List Char} (h : isOpening (c :: e) = true) : c = '[' := by
  obtain ⟨k, -, hp⟩ := isOpening_iff.1 h
  rw [literal_eq_cons, List.cons_prefix_cons] at hp
  exact hp.1

/-- A literal and characters that are no opening bracket end in no beginning of a literal. -/
theorem shut_of_not_mem {k : Kind} {front : List Char} (h : '[' ∉ front) : Shut (k.literal ++ front) := by
  intro e he ho
  cases e with
  | nil => rfl
  | cons c e =>
    obtain rfl := head_of_isOpening ho
    rw [literal_eq_cons, List.cons_append, List.suffix_cons_iff] at he
    rcases he with he | he
    · obtain ⟨k', hlt, hp⟩ := isOpening_iff.1 ho
      rw [he, ← List.cons_append, ← literal_eq_cons] at hlt hp
      obtain rfl := kind_eq_of_literals ((List.prefix_append k.literal front).trans hp) List.prefix_rfl
      rw [List.length_append] at hlt
      omega
    · rcases List.mem_append.1 (he.subset List.mem_cons_self) with hmem | hmem
      · exact absurd hmem (bracket_not_mem_tail k)
      · exact absurd hmem h

/-- All but the last character of a literal are none of these. -/
theorem not_mem_of_isOpening {c : Char} {e : List Char} (h : isOpening e = true) (hc : c ∈ [']', '}', ':']) :
    c ∉ e := by
  obtain ⟨k, r, hne, hr⟩ := isOpening_iff_exists_append.1 h
  have hinit : e ++ r.dropLast = k.literal.dropLast := by rw [← hr, List.dropLast_append_of_ne_nil hne]
  have hnone : k.literal.dropLast.all (fun d => decide (d ∉ [']', '}', ':'])) = true := by cases k <;> decide
  exact fun hmem => of_decide_eq_true (List.all_eq_true.1 hnone c (hinit ▸ List.mem_append_left _ hmem)) hc

theorem shut_of_last {f : List Char} {c : Char} (hc : c ∈ [']', '}', ':']) : Shut (f ++ [c]) := by
  intro e he ho
  rcases List.suffix_or_suffix_of_suffix he (List.suffix_append f [c]) with hin | hin
  · rcases List.suffix_cons_iff.1 hin with rfl | hnil
    · exact absurd List.mem_cons_self (not_mem_of_isOpening ho hc)
    · exact List.suffix_nil.1 hnil
  · exact absurd (hin.subset List.mem_cons_self) (not_mem_of_isOpening ho hc)

/-- **Nothing that a verdict settles ends in the beginning of a literal.** -/
theorem shut_of_examine {k : Kind} {w z : List Char} (hk : literalAt (w ++ z) = some k)
    (h : (examine k (w ++ z)).settled = some w.length) : Shut w := by
  obtain ⟨body, hbody⟩ := literalAt_eq_some_iff.1 hk
  have hstops : Stops body k.literal.length w.length := by
    rw [← hbody] at h
    cases k with
    | dashboard =>
      simp only [examine, List.drop_left] at h
      exact stops_of_examineDashboard h
    | render =>
      simp only [examine, List.drop_left] at h
      exact stops_of_examineRender h
  obtain ⟨front, back, rfl, hlen, hfront⟩ := hstops
  have hw : w = k.literal ++ front := by
    rw [← List.append_assoc] at hbody
    exact ((List.append_inj hbody (by rw [List.length_append, hlen])).1).symm
  rw [hw]
  rcases hfront with hno | ⟨f, c, rfl, hc⟩
  · exact shut_of_not_mem hno
  · rw [← List.append_assoc]
    exact shut_of_last hc

/-! ### What may be withheld -/

/-- The text is the beginning of a literal, and not all of it. -/
def IsBeginning (text : List Char) : Prop := ∃ k : Kind, text <+: k.literal ∧ text ≠ k.literal

theorem isOpening_eq_true_iff {text : List Char} : isOpening text = true ↔ IsBeginning text := by
  rw [isOpening_iff]
  refine exists_congr fun k => ⟨fun ⟨hlt, hp⟩ => ⟨hp, ?_⟩, fun ⟨hp, hne⟩ => ⟨?_, hp⟩⟩
  · rintro rfl
    exact Nat.lt_irrefl _ hlt
  · exact Nat.lt_of_le_of_ne hp.length_le fun he => hne (hp.eq_of_length he)

/-- What may be withheld of a text. -/
inductive Withholds (text : List Char) : List Char → Prop where
  /-- Nothing, if no end of the text could begin a literal. -/
  | nothing : (∀ t, t <:+ text → IsBeginning t → t = []) → Withholds text []
  /-- The longest end that could. -/
  | opening {rest : List Char} : rest ≠ [] → IsBeginning rest → rest <:+ text →
      (∀ t, t <:+ text → IsBeginning t → t <:+ rest) → Withholds text rest
  /-- An end that begins with a literal whose marker is incomplete. -/
  | unfinished {rest : List Char} {k : Kind} : k.literal <+: rest → examine k rest = .incomplete → rest <:+ text →
      Withholds text rest

theorem Withholds.suffix {text rest : List Char} (h : Withholds text rest) : rest <:+ text := by
  cases h with
  | nothing => exact List.nil_suffix
  | opening _ _ hs _ => exact hs
  | unfinished _ _ hs => exact hs

/-- A piece in front does not matter if no beginning of a literal reaches into it. -/
theorem Withholds.append {p z rest : List Char} (h : Withholds z rest)
    (hp : ∀ t, t <:+ p ++ z → IsBeginning t → t <:+ z) : Withholds (p ++ z) rest := by
  cases h with
  | nothing hz => exact .nothing fun t ht hb => hz t (hp t ht hb) hb
  | opening hne hb hs hmax =>
    exact .opening hne hb (hs.trans (List.suffix_append p z)) fun t ht hb => hmax t (hp t ht hb) hb
  | unfinished hk hv hs => exact .unfinished hk hv (hs.trans (List.suffix_append p z))

/-- No beginning of a literal reaches into a settled piece. -/
theorem Settled.suffix {p z t : List Char} (h : Settled p z) (ht : t <:+ p ++ z) (hb : IsBeginning t) : t <:+ z :=
  (openTail_settled h ▸ suffix_openTail ht (isOpening_eq_true_iff.2 hb)).trans (openTail_suffix z)

/-- Nor into one that ends in none. -/
theorem Shut.suffix {w z t : List Char} (h : Shut w) (ht : t <:+ w ++ z) (hb : IsBeginning t) : t <:+ z := by
  rcases List.suffix_or_suffix_of_suffix ht (List.suffix_append w z) with hin | ⟨e, rfl⟩
  · exact hin
  · have he : e <:+ w := ((List.suffix_append_inj_of_length_eq rfl).1 ht).1
    rw [h e he (isOpening_of_append (isOpening_eq_true_iff.2 hb))]
    exact List.suffix_rfl

/-- **What is withheld of a text.** The induction is along what is sifted out: nothing in front of what is withheld
could begin a literal together with it. -/
theorem withholds_sift (text : List Char) : Withholds text (sift text).2 := by
  have h := sifts text
  generalize (sift text).1 = e, (sift text).2 = rest at h
  induction h with
  | @stop z _ ho =>
    by_cases hz : z = []
    · subst hz
      exact .nothing fun t ht _ => List.suffix_nil.1 ht
    · exact .opening hz (isOpening_eq_true_iff.1 (ho ▸ isOpening_openTail z)) List.suffix_rfl fun t ht _ => ht
  | wait hk hv => exact .unfinished (literalAt_eq_some_iff.1 hk) hv List.suffix_rfl
  | plain hs _ ih => exact ih.append fun t => hs.suffix
  | marker hk hv _ ih => exact ih.append fun t => (shut_of_examine hk (by rw [hv]; rfl)).suffix
  | malformed hk hv _ ih => exact ih.append fun t => (shut_of_examine hk (by rw [hv]; rfl)).suffix

/-- The beginning of a literal holds no literal. -/
theorem isPlain_of_isOpening {text : List Char} (h : isOpening text = true) : IsPlain text := by
  intro k hk
  obtain ⟨k', hlt, hp⟩ := isOpening_iff.1 h
  have hin : k.literal <:+: k'.literal := hk.trans hp.isInfix
  have hkk' : k = k' := by revert hin; cases k <;> cases k' <;> decide
  have hle := hk.length_le
  rw [hkk'] at hle
  omega

/-- What may be withheld stays withheld as long as nothing comes. -/
theorem Withholds.push_nil {text rest : List Char} (h : Withholds text rest) :
    Sieve.push ⟨rest⟩ [] = (.empty, ⟨rest⟩) := by
  have hsift : sift rest = (.empty, rest) := by
    cases h with
    | nothing => exact sift_stop rfl rfl
    | opening _ hb _ _ =>
      have ho := isOpening_eq_true_iff.2 hb
      have hwhole : rest = openTail rest :=
        (suffix_openTail List.suffix_rfl ho).eq_of_length_le (openTail_suffix rest).length_le
      exact sift_stop (firstLiteral_eq_none_iff.2 (isPlain_of_isOpening ho)) hwhole.symm
    | unfinished hk hv _ => exact sift_incomplete (literalAt_eq_some_iff.2 hk) hv
  simp only [Sieve.push, List.append_nil, hsift]

end Marker

open Marker

/-! ### Uses -/

/-- What can be done with a sieve. -/
inductive Use where
  /-- To take a chunk. -/
  | chunk (text : List Char)
  /-- To give all out. -/
  | flush
  deriving DecidableEq, Repr

namespace Sieve

/-- Does what is to be done. -/
def use (s : Sieve) : Use → Extraction × Sieve
  | .chunk text => s.push text
  | .flush => s.flush

/-- Does one thing after the other; what comes out each time. -/
def useAll (s : Sieve) : List Use → List Extraction × Sieve
  | [] => ([], s)
  | u :: us =>
    let (e, s) := s.use u
    let (es, s) := s.useAll us
    (e :: es, s)

end Sieve

/-- What a sieve was told since it gave all out last. -/
def heardSince (text : List Char) : List Use → List Char
  | [] => text
  | .chunk more :: us => heardSince (text ++ more) us
  | .flush :: us => heardSince [] us

/-- What a new sieve was told since it gave all out last. -/
def heard (us : List Use) : List Char := heardSince [] us

namespace Sieve

theorem useAll_append (s : Sieve) (us vs : List Use) :
    s.useAll (us ++ vs) =
      ((s.useAll us).1 ++ ((s.useAll us).2.useAll vs).1, ((s.useAll us).2.useAll vs).2) := by
  induction us generalizing s with
  | nil => rfl
  | cons u us ih =>
    simp only [List.cons_append, useAll, ih]

/-- Whatever the chunks, what is withheld is withheld of all the text since everything was given out. -/
theorem withheld_useAll {s : Sieve} {text : List Char} (h : s.withheld = (sift text).2) (us : List Use) :
    (s.useAll us).2.withheld = (sift (heardSince text us)).2 := by
  induction us generalizing s text with
  | nil => exact h
  | cons u us ih =>
    cases u with
    | chunk more =>
      refine ih ?_
      show (sift (s.withheld ++ more)).2 = (sift (text ++ more)).2
      rw [h, sift_append text more]
    | flush =>
      refine ih ?_
      show [] = (sift []).2
      rw [sift_stop rfl rfl]

/-- A sieve that has given all out has nothing more to give. -/
theorem flush_empty : empty.flush = (.empty, empty) := by
  simp only [flush, empty, sift_stop (z := []) rfl rfl]
  rw [release, dif_pos rfl]
  rfl

/-- The sieve after some uses. -/
def after (us : List Use) : Sieve := (empty.useAll us).2

/-- **What a sieve withholds**, after any uses.

It is an end of what the sieve was told since it gave all out last: nothing, or the longest end that could begin a
literal, of ten octets at most, or a literal with a marker that is incomplete. As long as nothing comes, nothing comes
out and it is still withheld. To give all out, by offsets too, leaves nothing withheld; to do so again gives nothing,
and whatever is done later comes to what it comes to for a new sieve. -/
theorem withheld_of_uses (us : List Use) :
    Withholds (heard us) (after us).withheld ∧
    (IsBeginning (after us).withheld → size (after us).withheld ≤ 10) ∧
    (after us).push [] = (.empty, after us) ∧
    Marker.flush (after us).withheld = .ok ((after us).flush.1, []) ∧
    (after us).flush.2.withheld = [] ∧
    (after us).flush.2.flush.1 = .empty ∧
    ∀ later : List Use, empty.useAll (us ++ .flush :: later) =
      ((empty.useAll us).1 ++ (after us).flush.1 :: (empty.useAll later).1, (empty.useAll later).2) := by
  have hnew : empty.withheld = (sift []).2 := by rw [sift_stop rfl rfl]; rfl
  have hw : Withholds (heard us) (after us).withheld := by
    rw [after, withheld_useAll hnew]
    exact withholds_sift (heard us)
  refine ⟨hw, fun hb => size_le_of_isOpening (isOpening_eq_true_iff.2 hb), hw.push_nil, flush_eq _, rfl, ?_,
    fun later => ?_⟩
  · exact congrArg Prod.fst flush_empty
  · rw [useAll_append]
    rfl

end Sieve

end TurnRelay
