import TurnRelay.Proofs.Marker.Composition
import TurnRelay.Proofs.Marker.Delimiter

/-!
# Well-formed markers are found

A marker that is written as it should be is recognised wherever it stands, and at its full length:
whatever brackets, quotes and backslashes its body has inside, and whatever the plain text around it
ends or begins with. The body's text is balanced, because it was accepted, and this is all that the
scans for its end need.

## The model

* `WellFormed m span` — the span is a marker written out, and a body that begins with a brace ends
  with one.

## What is proved

* `WellFormed.examine` — a well-formed marker is complete.
* `ofText_written` — from plain text and well-formed markers in turn come just the plain text and the
  markers.
-/

namespace TurnRelay

open Json Marker Extraction

/-- The span is the marker written out with nothing between its body and the delimiters; a body that
begins with a brace ends with one. -/
inductive WellFormed : Marker → List Char → Prop where
  /-- A dashboard. -/
  | dashboard {m : Marker} {body : List Char} : body.head? = some '{' → body.getLast? = some '}' →
      dashboardBody? body = some m → WellFormed m (Kind.dashboard.literal ++ body ++ [']'])
  /-- A rendering. -/
  | render {m : Marker} {name body : List Char} : IsName name →
      (body.head? = some '{' → body.getLast? = some '}') → renderBody? name body = some m →
      WellFormed m (Kind.render.literal ++ name ++ ':' :: body ++ [']'])

/-! ### Bodies -/

theorem tokens_of_head {text : List Char} (h : text.head? = some '{') :
    ∃ ts, tokens text = .openObject :: ts := by
  cases text with
  | nil => cases h
  | cons c cs =>
    cases h
    exact ⟨tokensWithin cs.length cs, rfl⟩

/-- An accepted object is balanced between its braces. -/
theorem exists_balanced_of_item {body : List Char} (hhead : body.head? = some '{')
    (hlast : body.getLast? = some '}') (h : Item (tokens body)) :
    ∃ w, body = '{' :: (w ++ ['}']) ∧ Balanced w := by
  have hl := lexed_tokens h.nested.malformed_not_mem
  obtain ⟨ts, ht⟩ := tokens_of_head hhead
  rw [ht] at h hl
  obtain ⟨inner, rfl, hn⟩ := h.exists_nested
  exact hl.object hn hhead hlast

theorem item_of_dashboardBody {body : List Char} {m : Marker} (hhead : body.head? = some '{')
    (h : dashboardBody? body = some m) : Item (tokens body) := by
  obtain ⟨ts, ht⟩ := tokens_of_head hhead
  unfold dashboardBody? at h
  split at h
  · rename_i hp
    obtain ⟨inner, rfl, hn⟩ := Record.nested_of_parse ht hp
    rw [ht]
    exact .object hn
  · cases h

theorem item_of_renderBody {name body : List Char} {m : Marker} (h : renderBody? name body = some m) :
    Item (tokens body) := by
  obtain ⟨v, hv, -⟩ := Option.map_eq_some_iff.1 h
  exact item_of_parse hv

/-! ### Examination -/

theorem examineObject_of_item {parse : List Char → Option Marker} {start : Nat} {body : List Char}
    {m : Marker} (hhead : body.head? = some '{') (hlast : body.getLast? = some '}')
    (hi : Item (tokens body)) (hp : parse body = some m) :
    examineObject parse start (body ++ [']']) = .complete m (start + body.length + 1) := by
  obtain ⟨w, rfl, hw⟩ := exists_balanced_of_item hhead hlast hi
  have hlen : ('{' :: (w ++ ['}'])).length = w.length + 2 := by simp
  have hb := balancedLength_append (balancedLength_object hw) [']']
  rw [← hlen] at hb
  rw [examineObject, hb]
  simp only [List.drop_left, List.take_left, hp, settle]
  rfl

theorem examineDashboard_of_head {start : Nat} {body : List Char} {m : Marker}
    (hhead : body.head? = some '{') (hlast : body.getLast? = some '}') (hp : dashboardBody? body = some m) :
    examineDashboard start (body ++ [']']) = .complete m (start + body.length + 1) := by
  have hi := item_of_dashboardBody hhead hp
  cases body with
  | nil => cases hhead
  | cons c cs =>
    cases hhead
    rw [List.cons_append, examineDashboard, if_pos rfl]
    exact examineObject_of_item rfl hlast hi hp

theorem examineProps_of_body {name : List Char} {start : Nat} {body : List Char} {m : Marker}
    (hbrace : body.head? = some '{' → body.getLast? = some '}') (hp : renderBody? name body = some m) :
    examineProps name start (body ++ [']']) = .complete m (start + body.length + 1) := by
  have hi := item_of_renderBody hp
  cases body with
  | nil => cases hp
  | cons c cs =>
    rw [List.cons_append, examineProps]
    split
    · rename_i hc
      subst hc
      exact examineObject_of_item rfl (hbrace rfl) hi hp
    · have hb := (lexed_tokens hi.nested.malformed_not_mem).balanced hi.nested
      rw [← List.cons_append, unnestedLength_balanced hb []]
      simp only [List.take_left, hp, settle]

/-- The name is read up to the colon; `before` is what has been read of it, turned round. -/
theorem examineRender_name {start : Nat} {before name rest : List Char} (hne : before.reverse ++ name ≠ [])
    (hname : ∀ c ∈ name, c ≠ ':' ∧ endsName c = false) :
    examineRender start before (name ++ ':' :: rest) =
      examineProps (before.reverse ++ name) (start + name.length + 1) rest := by
  induction name generalizing start before with
  | nil =>
    have hb : before ≠ [] := by simpa using hne
    simp [examineRender, hb]
  | cons c name ih =>
    obtain ⟨⟨hc, he⟩, hname⟩ := List.forall_mem_cons.1 hname
    rw [List.cons_append, examineRender, if_neg hc, if_neg (by simp [he]), ih (by simp) hname]
    simp only [List.reverse_cons, List.append_assoc, List.singleton_append, List.length_cons]
    congr 1
    omega

/-- **A well-formed marker is complete**, at its full length. -/
theorem WellFormed.examine {m : Marker} {w : List Char} (h : WellFormed m w) :
    ∃ k : Kind, k.literal <+: w ∧ Marker.examine k w = .complete m w.length := by
  cases h with
  | @dashboard body hhead hlast hp =>
    refine ⟨.dashboard, by simp [List.append_assoc], ?_⟩
    simp only [Marker.examine, List.append_assoc, List.drop_left]
    rw [examineDashboard_of_head hhead hlast hp]
    simp only [List.length_append, List.length_cons, List.length_nil]
    congr 1
  | @render name body hn hbrace hp =>
    refine ⟨.render, by simp [List.append_assoc], ?_⟩
    simp only [Marker.examine, List.append_assoc, List.drop_left, List.cons_append]
    rw [examineRender_name (by simpa using hn.1) hn.2, List.reverse_nil, List.nil_append,
      examineProps_of_body hbrace hp]
    simp only [List.length_append, List.length_cons, List.length_nil]
    congr 1
    omega

/-! ### Whole texts -/

theorem sift_wellFormed {m : Marker} {w : List Char} (h : WellFormed m w) (y : List Char) :
    sift (w ++ y) = (ofMarker m ++ (sift y).1, (sift y).2) := by
  obtain ⟨k, hk, hx⟩ := h.examine
  have hxy := (examine_append hk (by rw [hx]; rfl) y).2.trans hx
  rw [sift_complete (literalAt_append (literalAt_eq_some_iff.2 hk) y) hxy, List.drop_left]

/-- Plain text in front of a well-formed marker does not matter. -/
theorem sift_plain_wellFormed {p w : List Char} {m : Marker} (hp : IsPlain p)
    (h : WellFormed m w) (y : List Char) :
    sift (p ++ (w ++ y)) = (ofPlain p ++ ofMarker m ++ (sift y).1, (sift y).2) := by
  obtain ⟨k, ⟨v, rfl⟩, -⟩ := h.examine
  have hs : Settled p (k.literal ++ v ++ y) := by
    rw [literal_eq_cons k]
    exact settled_of_isPlain hp _
  rw [sift_settled hs, sift_wellFormed h, append_assoc]

/-- What a whole text gives is what is sifted, and what is released in the end. -/
theorem ofText_eq (text : List Char) :
    ofText text = (sift text).1 ++ Sieve.release (sift text).2 := by
  have h := Sieve.push_push_nil .empty text
  simp only [Sieve.push, Sieve.empty, List.nil_append, List.append_nil, Prod.mk.injEq, Sieve.mk.injEq] at h
  simp only [ofText, Sieve.push, Sieve.flush, Sieve.empty, List.nil_append, h.1, h.2, empty_append]

theorem ofText_plain_wellFormed {p w : List Char} {m : Marker} (hp : IsPlain p)
    (h : WellFormed m w) (y : List Char) :
    ofText (p ++ (w ++ y)) = ofPlain p ++ ofMarker m ++ ofText y := by
  rw [ofText_eq, ofText_eq y, sift_plain_wellFormed hp h]
  exact append_assoc ..

theorem Honoured.exists_literal {m : Marker} {w : List Char} (h : Honoured m w) :
    ∃ k : Kind, k.literal <+: w := by
  cases h with
  | dashboard => exact ⟨.dashboard, by simp [List.append_assoc]⟩
  | render => exact ⟨.render, by simp [List.append_assoc]⟩

/-- A text without literals is plain text. -/
theorem ofText_of_isPlain {p : List Char} (hp : IsPlain p) : ofText p = ofPlain p := by
  have h := composed_ofText p
  generalize ofText p = e at h
  cases h with
  | plain => rfl
  | @marker q span text m e hs _ =>
    obtain ⟨k, hk⟩ := hs.exists_literal
    exact absurd (hk.isInfix.trans ⟨q, text, rfl⟩) (hp k)

/-- **Well-formed markers are found**: from plain text and well-formed markers in turn, the plain text
without literals, come just the plain text and the markers, in their order. -/
theorem ofText_written {first : List Char} {passages : List Passage} (hfirst : IsPlain first)
    (hpassages : ∀ p ∈ passages, WellFormed p.marker p.span ∧ IsPlain p.behind) :
    ofText (written first passages) = ⟨plainText first passages, passages.map fun p => p.marker⟩ := by
  induction passages generalizing first with
  | nil =>
    simp only [written, plainText, List.flatMap_nil, List.append_nil, List.map_nil]
    exact ofText_of_isPlain hfirst
  | cons p passages ih =>
    obtain ⟨⟨hw, hp⟩, hrest⟩ := List.forall_mem_cons.1 hpassages
    have hsplit : written first (p :: passages) = first ++ (p.span ++ written p.behind passages) := by
      simp [written]
    rw [hsplit, ofText_plain_wellFormed hfirst hw, ih hp hrest]
    refine Extraction.ext ?_ ?_
    · simp [plainText]
    · simp

/-- A dashboard and a rendering whose body has delimiters inside a string; plain text in front of the
first and in front of the second ends like the beginning of a literal. -/
def bracketed : List Passage :=
  [⟨.dashboard "contacts" none, Kind.dashboard.literal ++ "\x7b\"intent\":\"contacts\"\x7d".toList ++ [']'],
      "] or [REND".toList⟩,
    ⟨.render "chart" (.array [.bool true, .string "]\x7d\"[RENDER:"]),
      Kind.render.literal ++ "chart".toList ++ ':' :: " [true, \"]\x7d\\\"[RENDER:\"]".toList ++ [']'],
      ".".toList⟩]

theorem ofText_written_bracketed :
    IsPlain "Hi [DASH".toList ∧
    (∀ p ∈ bracketed, WellFormed p.marker p.span ∧ IsPlain p.behind) ∧
    ofText (written "Hi [DASH".toList bracketed) =
      ⟨plainText "Hi [DASH".toList bracketed, bracketed.map fun p => p.marker⟩ := by
  have hfirst : IsPlain "Hi [DASH".toList := by decide
  have hpassages : ∀ p ∈ bracketed, WellFormed p.marker p.span ∧ IsPlain p.behind := by
    refine List.forall_mem_cons.2 ⟨⟨?_, ?_⟩, List.forall_mem_cons.2 ⟨⟨?_, ?_⟩, by simp⟩⟩
    · exact .dashboard (by decide) (by decide) (by decide +kernel)
    · decide
    · exact .render ⟨by decide, by simp [endsName]⟩ (by decide) (by decide +kernel)
    · decide
  exact ⟨hfirst, hpassages, ofText_written hfirst hpassages⟩

end TurnRelay
