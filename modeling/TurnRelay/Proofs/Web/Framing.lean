import TurnRelay.CommandLine.Asking
import TurnRelay.Proofs.Json.Compact
import TurnRelay.Web.EventStream

/-!
# Nothing that is said ends an event

What a model writes goes into the stream of events that a browser reads, or a script behind the command that asks one
question. Both tell events apart by lines and blank lines only. If anything in a piece of text, in an error's message,
in the intent of a dashboard, in the name of a component or somewhere in the data of either could end a line, the model
could write `event: done` itself, and the browser would believe that the turn is over.

It cannot, as all of this stands in the compact form of one JSON value, which is one line. So a reader finds as many
blocks as there were events, each with one name and one line of data, and reads the event back from these two: the
shapes of the payloads can be told apart.

## The model

* `Web.linesFrom`, `Web.blocksFrom` — the lines of a text, and the blocks between its blank lines.
* `Web.valuesOf` — the values of a field in a block.
* `Web.written` — how an event is written for a browser, one line of data for each line that there is.
* `Web.asked`, `Web.streamed` — what is written for a row of events, with comments in between for a browser.
* `Web.eventOf?`, `Web.Frames` — the event that a name and a payload stand for; a block is that of an event.
* `Web.Prints`, `Web.Sends` — what the command and the relay write in the course of a run.

## What is proved

* `blocksOf_streamed` — the blocks are those of the events and comments, whatever the events say.
* `parse?_payload`, `eventOf?_eq` — the payload is read back, and determines the event together with its name.
* `asked_of_prints`, `streamed_of_sends` — this is what the command and the relay write, in every run.
* `events_framed` — every event has one block of its own, from which it is read back.
-/

namespace TurnRelay.Web

open TurnRelay.Turn (Event)

/-! ### Reading a stream -/

/-- The lines of a text of which the first has begun already. A line feed ends a line, a carriage return does, and so
do both, one behind the other. -/
def linesFrom (line : List Char) : List Char → List (List Char)
  | [] => if line = [] then [] else [line]
  | '\r' :: '\n' :: cs => line :: linesFrom [] cs
  | c :: cs => if c = '\n' ∨ c = '\r' then line :: linesFrom [] cs else linesFrom (line ++ [c]) cs

/-- The blocks of lines between blank lines, of which the first has begun already. -/
def blocksFrom (block : List (List Char)) : List (List Char) → List (List (List Char))
  | [] => if block = [] then [] else [block]
  | [] :: ls => block :: blocksFrom [] ls
  | l :: ls => blocksFrom (block ++ [l]) ls

/-- The blocks of a text. -/
def blocksOf (text : List Char) : List (List (List Char)) := blocksFrom [] (linesFrom [] text)

/-- The field that a line gives, and its value: what stands before the colon, and behind it and a space. -/
def fieldOf (line : List Char) : List Char × List Char :=
  let value := (line.dropWhile (· ≠ ':')).drop 1
  (line.takeWhile (· ≠ ':'), if value.head? = some ' ' then value.drop 1 else value)

/-- The values of a field in a block. -/
def valuesOf (field : String) (block : List (List Char)) : List (List Char) :=
  (block.filter fun l => decide ((fieldOf l).1 = field.toList)).map fun l => (fieldOf l).2

/-! ### Writing one -/

/-- A line that gives a field. -/
def fieldLine (field : String) (value : List Char) : List Char := field.toList ++ ':' :: ' ' :: value

/-- How an event is written for a browser: a line with its name, one for each line of its data, and a blank one. -/
def written (name data : List Char) : List Char :=
  fieldLine "event" name ++ '\n' :: ((linesFrom [] data).flatMap (fun l => fieldLine "data" l ++ ['\n']) ++ ['\n'])

/-- What the command that asks a question prints for a row of events. -/
def asked (es : List Event) : List Char := es.flatMap fun e => e.block.toList

/-- What is sent to a browser: an event, or a comment. -/
def piece : Option Event → List Char
  | some e => written e.name.toList e.payload.chars
  | none => comment.toList

/-- What is sent to a browser for a row of events and comments. -/
def streamed (ps : List (Option Event)) : List Char := ps.flatMap piece

/-- The lines of an event or a comment. -/
def blockOf : Option Event → List (List Char)
  | some e => [fieldLine "event" e.name.toList, fieldLine "data" e.payload.chars]
  | none => [[':']]

/-! ### Lines and blocks -/

variable {line w rest : List Char} {e : Event}

/-- Characters that end no line come to the line that has begun. -/
theorem linesFrom_append (hw : Json.Visible w) (rest : List Char) :
    linesFrom line (w ++ rest) = linesFrom (line ++ w) rest := by
  induction w generalizing line with
  | nil => rw [List.nil_append, List.append_nil]
  | cons c w ih =>
    obtain ⟨hlf, hcr⟩ := hw.ne_of_mem List.mem_cons_self
    have hstep : linesFrom line (c :: (w ++ rest)) = linesFrom (line ++ [c]) (w ++ rest) := by
      rw [linesFrom]
      · exact if_neg (not_or.2 ⟨hlf, hcr⟩)
      · exact fun _ hc => absurd hc hcr
    rw [List.cons_append, hstep, ih (Json.visible_cons.1 hw).2, List.append_assoc, List.singleton_append]

/-- The end of a line. -/
theorem linesFrom_newline (line rest : List Char) : linesFrom line ('\n' :: rest) = line :: linesFrom [] rest := by
  rw [linesFrom]
  · exact if_pos (.inl rfl)
  · exact fun _ hc => absurd hc (by decide)

/-- A line without ends of lines, and its end. -/
theorem linesFrom_line (hw : Json.Visible w) (rest : List Char) :
    linesFrom [] (w ++ '\n' :: rest) = w :: linesFrom [] rest := by
  rw [linesFrom_append hw, List.nil_append, linesFrom_newline]

/-- A text without ends of lines is one line. -/
theorem linesFrom_of_visible (hw : Json.Visible w) (hne : w ≠ []) : linesFrom [] w = [w] := by
  have h : linesFrom [] (w ++ []) = linesFrom ([] ++ w) [] := linesFrom_append hw []
  rw [List.append_nil, List.nil_append] at h
  rw [h, linesFrom, if_neg hne]

/-- Lines that are not blank come to the block that has begun, and a blank line ends it. -/
theorem blocksFrom_block {block ls : List (List Char)} (hls : ∀ l ∈ ls, l ≠ []) (more : List (List Char)) :
    blocksFrom block (ls ++ [] :: more) = (block ++ ls) :: blocksFrom [] more := by
  induction ls generalizing block with
  | nil => rw [List.nil_append, blocksFrom, List.append_nil]
  | cons l ls ih =>
    obtain ⟨hl, hls⟩ := List.forall_mem_cons.1 hls
    rw [List.cons_append, blocksFrom, ih hls, List.append_assoc, List.singleton_append]
    exact fun h => absurd h hl

/-! ### Events are written as blocks -/

theorem fieldLine_ne_nil (field : String) (value : List Char) : fieldLine field value ≠ [] := by
  simp [fieldLine]

theorem visible_fieldLine {field : String} (hfield : Json.Visible field.toList) (hw : Json.Visible w) :
    Json.Visible (fieldLine field w) := by
  simp only [fieldLine, Json.visible_append, Json.visible_cons]
  exact ⟨hfield, by decide, by decide, hw⟩

theorem visible_name (e : Event) : Json.Visible e.name.toList := by
  cases e with
  | marker m => cases m <;> simp [Event.name, Marker.kind, Marker.Kind.name, Json.Visible]
  | _ => simp [Event.name, Json.Visible]

/-- The data of an event is one line. -/
theorem linesFrom_payload (e : Event) : linesFrom [] e.payload.chars = [e.payload.chars] := by
  refine linesFrom_of_visible (Json.visible_chars _) ?_
  cases e <;> simp [Event.payload, Json.ofMembers, Json.chars]

theorem written_eq (e : Event) : written e.name.toList e.payload.chars =
    fieldLine "event" e.name.toList ++ '\n' :: (fieldLine "data" e.payload.chars ++ '\n' :: ['\n']) := by
  simp [written, linesFrom_payload]

/-- The command prints an event as it is written for a browser. -/
theorem toList_block (e : Event) : e.block.toList = written e.name.toList e.payload.chars := by
  rw [written_eq]
  simp [Event.block, fieldLine, Json.compress]

theorem asked_eq_streamed (es : List Event) : asked es = streamed (es.map some) := by
  simp only [asked, streamed, List.flatMap_map]
  exact List.flatMap_congr fun e _ => toList_block e

theorem linesFrom_piece (p : Option Event) (rest : List Char) :
    linesFrom [] (piece p ++ rest) = blockOf p ++ [] :: linesFrom [] rest := by
  cases p with
  | none =>
    show linesFrom [] ([':'] ++ '\n' :: '\n' :: rest) = _
    rw [linesFrom_line (by simp [Json.Visible]), linesFrom_newline]
    rfl
  | some e =>
    have hname : Json.Visible (fieldLine "event" e.name.toList) :=
      visible_fieldLine (by simp [Json.Visible]) (visible_name e)
    have hdata : Json.Visible (fieldLine "data" e.payload.chars) :=
      visible_fieldLine (by simp [Json.Visible]) (Json.visible_chars e.payload)
    rw [piece, written_eq, List.append_assoc, List.cons_append, linesFrom_line hname, List.append_assoc,
      List.cons_append, linesFrom_line hdata, List.singleton_append, linesFrom_newline]
    rfl

theorem ne_nil_of_mem_blockOf {p : Option Event} {l : List Char} (h : l ∈ blockOf p) : l ≠ [] := by
  cases p with
  | none => simp_all [blockOf]
  | some e =>
    simp only [blockOf, List.mem_cons, List.not_mem_nil, or_false] at h
    obtain rfl | rfl := h <;> exact fieldLine_ne_nil _ _

/-- **The blocks of what is written are those of the events and comments**, one for each, whatever they say. -/
theorem blocksOf_streamed (ps : List (Option Event)) : blocksOf (streamed ps) = ps.map blockOf := by
  induction ps with
  | nil => rfl
  | cons p ps ih =>
    have hlines : linesFrom [] (streamed (p :: ps)) = blockOf p ++ [] :: linesFrom [] (streamed ps) :=
      linesFrom_piece p _
    rw [blocksOf, hlines, blocksFrom_block fun l hl => ne_nil_of_mem_blockOf hl, List.nil_append, List.map_cons]
    exact congrArg _ ih

/-! ### Reading an event back -/

theorem fieldOf_fieldLine {field : String} (hfield : ':' ∉ field.toList) (value : List Char) :
    fieldOf (fieldLine field value) = (field.toList, value) := by
  have hname : ∀ c ∈ field.toList, decide (c ≠ ':') = true := fun c hc =>
    decide_eq_true fun h => hfield (h ▸ hc)
  simp only [fieldOf, fieldLine, List.takeWhile_append_of_pos hname, List.dropWhile_append_of_pos hname]
  simp

/-- The JSON value of its own that an event brings along. -/
def data? : Event → Option Json
  | .marker (.dashboard _ data) => data
  | .marker (.render _ props) => some props
  | _ => none

/-- **What the event says can be read back**: its data is in normal form, its numbers are integers of 64 bits, and it is
not nested too deep for a reader. -/
structure Legible (e : Event) : Prop where
  /-- Objects are sorted by distinct names. -/
  normal : ∀ v ∈ data? e, v.normalize = v
  /-- Numbers are integers. -/
  integral : ∀ v ∈ data? e, v.isIntegral = true
  /-- The nesting is within a reader's limit. -/
  depth : e.payload.depth ≤ Json.maxDepth

/-- The members of an event's payload. -/
def payloadMembers : Event → Json.Members
  | .delta text => [("text", .string (String.ofList text))]
  | .marker m => m.payload
  | .error message => [("error", .string message)]
  | .done text aborted =>
    ("text", .string (String.ofList text)) :: if aborted then [("aborted", .bool true)] else []

theorem payload_eq (e : Event) : e.payload = .ofMembers (payloadMembers e) := by
  cases e <;> rfl

theorem nodup_payloadMembers (e : Event) : ((payloadMembers e).map Prod.fst).Nodup := by
  cases e with
  | delta text => simp [payloadMembers]
  | error message => simp [payloadMembers]
  | done text aborted => cases aborted <;> simp [payloadMembers]
  | marker m =>
    cases m with
    | dashboard intent data => cases data <;> simp [payloadMembers, Marker.payload, Json.member?]
    | render component props => simp [payloadMembers, Marker.payload]

/-- What is in a payload is a text, a truth value or the event's own value. -/
theorem plain_of_mem {m : String × Json} (h : m ∈ payloadMembers e) :
    data? e = some m.2 ∨ m.2.normalize = m.2 ∧ m.2.isIntegral = true := by
  cases e with
  | delta text =>
    obtain rfl := List.mem_singleton.1 h
    exact .inr ⟨rfl, rfl⟩
  | error message =>
    obtain rfl := List.mem_singleton.1 h
    exact .inr ⟨rfl, rfl⟩
  | done text aborted =>
    obtain rfl | h := List.mem_cons.1 h
    · exact .inr ⟨rfl, rfl⟩
    · split at h
      · obtain rfl := List.mem_singleton.1 h
        exact .inr ⟨rfl, rfl⟩
      · cases h
  | marker m =>
    cases m with
    | dashboard intent data =>
      obtain rfl | h := List.mem_cons.1 h
      · exact .inr ⟨rfl, rfl⟩
      · obtain ⟨v, rfl, rfl⟩ := Json.mem_member?_iff.1 h
        exact .inl rfl
    | render component props =>
      simp only [payloadMembers, Marker.payload, List.mem_cons, List.not_mem_nil, or_false] at h
      obtain rfl | rfl := h
      · exact .inr ⟨rfl, rfl⟩
      · exact .inl rfl

/-- **The payload of an event is read back from its compact form.** -/
theorem parse?_payload (h : Legible e) : Json.parse? e.payload.chars = some e.payload := by
  have hdepth := h.depth
  rw [payload_eq] at hdepth ⊢
  refine Json.parse?_chars ?_ ?_ hdepth
  · refine Json.normalize_ofMembers (fun m hm => ?_) (nodup_payloadMembers e)
    exact (plain_of_mem hm).elim (h.normal m.2) fun hplain => hplain.1
  · refine Json.membersIntegral_iff.2 fun m hm => ?_
    have hmem := (Json.table_perm (nodup_payloadMembers e)).mem_iff.1 hm
    exact (plain_of_mem hmem).elim (h.integral m.2) fun hplain => hplain.2

/-- The event that a name and a payload stand for. -/
def eventOf? (name : String) (payload : Json) : Option Event :=
  let text? (key : String) := (payload.get? key).bind Json.string?
  if name = "delta" then (text? "text").map fun t => .delta t.toList
  else if name = "error" then (text? "error").map .error
  else if name = "done" then (text? "text").map fun t => .done t.toList (payload.get? "aborted").isSome
  else if name = "dashboard" then (text? "intent").map fun t => .marker (.dashboard t (payload.get? "data"))
  else if name = "render" then
    (text? "component").bind fun t => (payload.get? "props").map fun v => .marker (.render t v)
  else none

theorem get?_payload (e : Event) (name : String) : e.payload.get? name = Json.find? name (payloadMembers e) := by
  rw [payload_eq]
  exact (Json.find?_of_perm (Json.table_perm (nodup_payloadMembers e)).symm (nodup_payloadMembers e) name).symm

/-- **An event is determined by its name and its payload.** -/
theorem eventOf?_eq (e : Event) : eventOf? e.name e.payload = some e := by
  cases e with
  | delta text => simp [eventOf?, get?_payload, Event.name, payloadMembers, Json.find?, Json.string?]
  | error message => simp [eventOf?, get?_payload, Event.name, payloadMembers, Json.find?, Json.string?]
  | done text aborted =>
    cases aborted <;> simp [eventOf?, get?_payload, Event.name, payloadMembers, Json.find?, Json.string?]
  | marker m =>
    cases m with
    | dashboard intent data =>
      cases data <;> simp [eventOf?, get?_payload, Event.name, payloadMembers, Marker.kind, Marker.Kind.name,
        Marker.payload, Json.member?, Json.find?, Json.string?]
    | render component props =>
      simp [eventOf?, get?_payload, Event.name, payloadMembers, Marker.kind, Marker.Kind.name, Marker.payload,
        Json.find?, Json.string?]

/-- **The block is that of the event.** -/
structure Frames (e : Event) (block : List (List Char)) : Prop where
  /-- It has two lines. -/
  length : block.length = 2
  /-- One has the event's name, -/
  event : valuesOf "event" block = [e.name.toList]
  /-- and the other one its payload, -/
  data : valuesOf "data" block = [e.payload.chars]
  /-- which is read back. -/
  payload : Json.parse? e.payload.chars = some e.payload

/-- The block is that of the event or comment; a comment has neither name nor data. -/
def Carries (p : Option Event) (block : List (List Char)) : Prop :=
  match p with
  | some e => Frames e block
  | none => valuesOf "event" block = [] ∧ valuesOf "data" block = []

theorem frames_blockOf (h : Legible e) : Frames e (blockOf (some e)) := by
  have hevent : fieldOf (fieldLine "event" e.name.toList) = ("event".toList, e.name.toList) :=
    fieldOf_fieldLine (by simp) _
  have hdata : fieldOf (fieldLine "data" e.payload.chars) = ("data".toList, e.payload.chars) :=
    fieldOf_fieldLine (by simp) _
  refine ⟨rfl, ?_, ?_, parse?_payload h⟩
  · simp [valuesOf, blockOf, hevent, hdata]
  · simp [valuesOf, blockOf, hevent, hdata]

theorem carries_blockOf {p : Option Event} (h : ∀ e ∈ p, Legible e) : Carries p (blockOf p) := by
  cases p with
  | none => exact ⟨rfl, rfl⟩
  | some e => exact frames_blockOf (h e rfl)

/-! ### What is written in the course of a run -/

open CommandLine (Asking)

/-- **In some steps the command prints a text and has read these events.** -/
inductive Prints : Asking → List Char → List Event → Asking → Prop where
  /-- Nothing has happened. -/
  | start (a : Asking) : Prints a [] [] a
  /-- A step prints nothing. -/
  | goesOn {a a' a'' : Asking} {c c' : Gateway.Client} {now : Nat} {names : Turn.FreshNames} {text : List Char}
      {es : List Event} : a.advance c now names = some (.goesOn a', c') → Prints a' text es a'' →
      Prints a text es a''
  /-- An event is read, and a block is printed. -/
  | prints {live : Turn.Live} {task : Turn.Task} {e : Event} {block : String} {a' a'' : Asking}
      {c c' : Gateway.Client} {now : Nat} {names : Turn.FreshNames} {text : List Char} {es : List Event} :
      live.task.read = some (e, task) → (Asking.relaying live).advance c now names = some (.prints block a', c') →
      Prints a' text es a'' → Prints (.relaying live) (block.toList ++ text) (e :: es) a''

/-- A block is printed only when an event is read. -/
theorem exists_read_of_advance {a a' : Asking} {c c' : Gateway.Client} {now : Nat} {names : Turn.FreshNames}
    {block : String} (h : a.advance c now names = some (.prints block a', c')) :
    ∃ live e task, a = .relaying live ∧ live.task.read = some (e, task) ∧ block = e.block := by
  cases a with
  | relaying live =>
    simp only [Asking.advance] at h
    split at h
    · rename_i e task hread
      cases h
      exact ⟨live, e, task, rfl, hread, rfl⟩
    · split at h
      · cases h
      · split at h
        · obtain ⟨ending, -, hending⟩ := Option.map_eq_some_iff.1 h
          cases hending
        · cases h
  | closing ending n =>
    simp only [Asking.advance] at h
    split at h <;> cases h

/-- **The command prints the events that it reads**, one block for each. -/
theorem asked_of_prints {a a' : Asking} {text : List Char} {es : List Event} (h : Prints a text es a') :
    text = asked es := by
  induction h with
  | start => rfl
  | goesOn _ _ ih => exact ih
  | @prints live task e block a' a'' c c' now names text es hread hstep _ ih =>
    obtain ⟨live', e', task', ha, hread', rfl⟩ := exists_read_of_advance hstep
    cases ha
    rw [hread] at hread'
    cases hread'
    rw [ih]
    rfl

/-- **In some steps the relay sends a text to a browser, and these events and comments are in it.** -/
inductive Sends : EventStream → List Char → List (Option Event) → EventStream → Prop where
  /-- Nothing has happened. -/
  | start (s : EventStream) : Sends s [] [] s
  /-- The browser takes an event. -/
  | takes {s s' s'' : EventStream} {now : Nat} {t t' : Turn.Tally} {block : String} {e : Event} {task : Turn.Task}
      {text : List Char} {ps : List (Option Event)} : s.live.task.read = some (e, task) →
      s.take now t = some (block, s', t') → Sends s' text ps s'' →
      Sends s (block.toList ++ text) (some e :: ps) s''
  /-- A comment is sent. -/
  | reminds {s s' s'' : EventStream} {manner : Settings.Manner} {now : Nat} {text : List Char}
      {ps : List (Option Event)} : s.remind manner now = some s' → Sends s' text ps s'' →
      Sends s (comment.toList ++ text) (none :: ps) s''
  /-- The turn goes on. -/
  | advances {s s'' : EventStream} {live : Turn.Live} {c c' : Gateway.Client} {now : Nat}
      {names : Turn.FreshNames} {text : List Char} {ps : List (Option Event)} :
      s.live.advance c now names = some (live, c') → Sends { s with live := live } text ps s'' → Sends s text ps s''
  /-- Its ending is counted. -/
  | reports {s s' s'' : EventStream} {t t' : Turn.Tally} {text : List Char} {ps : List (Option Event)} :
      s.report t = some (s', t') → Sends s' text ps s'' → Sends s text ps s''
  /-- The browser sees the end. -/
  | closes {s s' s'' : EventStream} {text : List Char} {ps : List (Option Event)} :
      s.close = some s' → Sends s' text ps s'' → Sends s text ps s''
  /-- The browser goes away. -/
  | hangsUp {s s'' : EventStream} {text : List Char} {ps : List (Option Event)} :
      Sends s.hangUp text ps s'' → Sends s text ps s''

theorem block_of_take {s s' : EventStream} {now : Nat} {t t' : Turn.Tally} {block : String} {e : Event}
    {task : Turn.Task} (hread : s.live.task.read = some (e, task)) (h : s.take now t = some (block, s', t')) :
    block = e.block := by
  simp only [EventStream.take, hread] at h
  split at h
  · cases h
  · cases h
    rfl

/-- **The relay sends the events that the browser takes**, and comments in between. -/
theorem streamed_of_sends {s s' : EventStream} {text : List Char} {ps : List (Option Event)}
    (h : Sends s text ps s') : text = streamed ps := by
  induction h with
  | start => rfl
  | takes hread htake _ ih =>
    rw [block_of_take hread htake, ih, toList_block]
    rfl
  | reminds _ _ ih =>
    rw [ih]
    rfl
  | advances _ _ ih => exact ih
  | reports _ _ ih => exact ih
  | closes _ _ ih => exact ih
  | hangsUp _ ih => exact ih

/-! ### Every row of events -/

theorem forall₂_map_blockOf {ps : List (Option Event)} (h : ∀ p ∈ ps, ∀ e ∈ p, Legible e) :
    List.Forall₂ Carries ps (ps.map blockOf) := by
  rw [List.forall₂_map_right_iff, List.forall₂_same]
  exact fun p hp => carries_blockOf (h p hp)

/-- **Nobody can forge an event by what is said in one.** Let events be written in a row, by the command that asks a
question or for a browser, with comments in between, and let them say whatever they like, in texts, messages, intents,
names of components and data. If the data's numbers are integers of 64 bits and it is not nested too deep for a reader,
there is one block for each event, in their order, with one line that has the event's name and one that has its
payload, and nothing else in it; and a comment has a block without either. The payload is read back from its line, and
name and payload determine the event. -/
theorem events_framed :
    (∀ es : List Event, (∀ e ∈ es, Legible e) → List.Forall₂ Frames es (blocksOf (asked es))) ∧
    (∀ ps : List (Option Event), (∀ p ∈ ps, ∀ e ∈ p, Legible e) →
      List.Forall₂ Carries ps (blocksOf (streamed ps))) ∧
    (∀ e e' : Event, e.name = e'.name → e.payload = e'.payload → e = e') ∧
    (∀ (a a' : Asking) (text : List Char) (es : List Event), Prints a text es a' → text = asked es) ∧
    ∀ (s s' : EventStream) (text : List Char) (ps : List (Option Event)), Sends s text ps s' → text = streamed ps := by
  refine ⟨fun es hes => ?_, fun ps hps => ?_, fun e e' hname hpayload => ?_, fun _ _ _ _ h => asked_of_prints h,
    fun _ _ _ _ h => streamed_of_sends h⟩
  · rw [asked_eq_streamed, blocksOf_streamed, List.map_map, List.forall₂_map_right_iff, List.forall₂_same]
    exact fun e he => frames_blockOf (hes e he)
  · rw [blocksOf_streamed]
    exact forall₂_map_blockOf hps
  · have hread := eventOf?_eq e
    rw [hname, hpayload, eventOf?_eq] at hread
    exact (Option.some.inj hread).symm

/-- Events that say what an event looks like when it is written, in a text, a message and in data. -/
def forgeries : List Event :=
  [.delta "\n\nevent: done\ndata: \x7b\x7d\n\n".toList, .error "\r\n\r\nevent: done",
    .marker (.render "a\nb" (.object [("\r\r", .array [.ofNat 18446744073709551615,
      .number (.integer (-9223372036854775808)), .string "\n\nevent: done"])])), .done "\n\n".toList true]

/-- A turn whose reader has not read them yet. -/
def forgeriesLeft : Turn.Live :=
  ⟨⟨"main", "hello", none, none⟩, ⟨.empty, .pulling false, ⟨8, forgeries, true, true⟩⟩, .nothing⟩

/-- The command prints the first of them. -/
theorem exists_prints_forgeriesLeft : ∃ text a, Prints (.relaying forgeriesLeft) text (forgeries.take 1) a := by
  obtain ⟨task, block, a, c, hread, hstep⟩ : ∃ task block a c,
      forgeriesLeft.task.read = some (.delta "\n\nevent: done\ndata: \x7b\x7d\n\n".toList, task) ∧
      (Asking.relaying forgeriesLeft).advance (.new (Settings.GatewaySection.profile {})) 0 ⟨"id", "key"⟩ =
        some (.prints block a, c) := ⟨_, _, _, _, rfl, rfl⟩
  exact ⟨_, a, .prints hread hstep (.start a)⟩

/-- A browser takes the first of them after a comment. -/
theorem exists_sends_forgeriesLeft :
    ∃ text s, Sends ⟨forgeriesLeft, true, 0, false⟩ text (none :: (forgeries.take 1).map some) s := by
  obtain ⟨s, hremind, hlive, hread⟩ : ∃ s, EventStream.remind ⟨"main", 15, 64⟩ 20000 ⟨forgeriesLeft, true, 0, false⟩ =
      some s ∧ s.live = forgeriesLeft ∧ s.isRead = true := ⟨_, rfl, rfl, rfl⟩
  obtain ⟨task, htask⟩ : ∃ task, s.live.task.read =
      some (.delta "\n\nevent: done\ndata: \x7b\x7d\n\n".toList, task) := by
    rw [hlive]
    exact ⟨_, rfl⟩
  obtain ⟨block, s', t, htake⟩ : ∃ block s' t, s.take 20000 .empty = some (block, s', t) := by
    simp only [EventStream.take, hread, htask]
    exact ⟨_, _, _, rfl⟩
  exact ⟨_, s', .reminds hremind (.takes htask htake (.start s'))⟩

/-- Each of them has its block, with and without a comment in between, and the command and the relay write these. -/
theorem events_framed_forgeries :
    List.Forall₂ Frames forgeries (blocksOf (asked forgeries)) ∧
    List.Forall₂ Carries (none :: forgeries.map some) (blocksOf (streamed (none :: forgeries.map some))) ∧
    (∃ a, Prints (.relaying forgeriesLeft) (asked (forgeries.take 1)) (forgeries.take 1) a) ∧
    ∃ s, Sends ⟨forgeriesLeft, true, 0, false⟩ (streamed (none :: (forgeries.take 1).map some))
      (none :: (forgeries.take 1).map some) s := by
  obtain ⟨hasked, hstreamed, -, hprints, hsends⟩ := events_framed
  have hlegible : ∀ e ∈ forgeries, Legible e := fun e he => by
    have hall : ∀ e ∈ forgeries, (∀ v ∈ data? e, v.normalize = v) ∧ (∀ v ∈ data? e, v.isIntegral = true) ∧
        e.payload.depth ≤ Json.maxDepth := by decide +kernel
    obtain ⟨hnormal, hintegral, hdepth⟩ := hall e he
    exact ⟨hnormal, hintegral, hdepth⟩
  refine ⟨hasked _ hlegible, hstreamed _ fun p hp e he => ?_, ?_, ?_⟩
  · obtain rfl | hp := List.mem_cons.1 hp
    · cases he
    · obtain ⟨e', he', rfl⟩ := List.mem_map.1 hp
      cases he
      exact hlegible e he'
  · obtain ⟨text, a, hrun⟩ := exists_prints_forgeriesLeft
    exact ⟨a, hprints _ _ _ _ hrun ▸ hrun⟩
  · obtain ⟨text, s, hrun⟩ := exists_sends_forgeriesLeft
    exact ⟨s, hsends _ _ _ _ hrun ▸ hrun⟩

end TurnRelay.Web
