import TurnRelay.Proofs.Gateway.Answers
import TurnRelay.Proofs.Gateway.Dialing

/-!
# The discipline of the handshake

Credentials go out on a socket only when its gateway has asked for them, and what callers want only when the
gateway has accepted them. Nothing on the socket itself enforces this: the supervisor has the link as soon as the
socket is open, and challenges, responses and requests arrive in any phase. What carries the proof is a reading of
the phase as a summary of what was said so far on the socket of the present attempt (`Stands`): nothing before the
challenge, the `connect` request alone while its answer is awaited, and that request with the gateway's hello
behind it on a connection.

## The model

* `Client.frames` — the frames that the supervisor hands to a socket in a run.
* `Client.Challenges`, `Client.Welcomes` — the supervisor handles the challenge of a socket, or the hello.
* `Phase.Turns` — how the phase may change in a move.

## What is proved

* `disciplined_run` — on every socket of every run at most one `connect` request goes out, first of all and in
  answer to the challenge, and nothing else before the hello; and only the hello makes a connection of an attempt.
-/

namespace TurnRelay.Gateway

/-! ### What is said on a socket -/

/-- The `connect` request of a client under a name. -/
def connectRequest (p : Profile) (id : String) : Wire.Frame :=
  .request id "connect" p.connectParams.encode

/-- The frame that an effect hands to the socket of an epoch. -/
def Effect.frame? (epoch : Nat) : Effect → Option Wire.Frame
  | .send k f => if k = epoch then some f else none
  | _ => none

/-- The frames that the supervisor hands to the socket of an epoch in a run. -/
def Client.frames (epoch : Nat) (c : Client) (moves : List Move) : List Wire.Frame :=
  c.gather (fun c m => (c.effects m).filterMap (Effect.frame? epoch)) moves

/-- The challenge has come on the socket of an epoch, where it was waited for. -/
structure Client.Challenges (c : Client) (x : Cue) (epoch : Nat) : Prop where
  /-- It is an event that came on the socket. -/
  event : ∃ t payload seq, x.input = .report epoch (.text t) ∧
    Wire.Frame.parse? t = some (.event "connect.challenge" payload seq)
  /-- The socket is that of the present attempt. -/
  present : c.connection.epoch = epoch
  /-- The attempt waits for it. -/
  phase : c.connection.phase = .connecting .awaitingChallenge

/-- The `connect` request of a name, sent on the socket of an epoch, is answered there by a hello that accepts. -/
structure Client.Welcomes (c : Client) (x : Cue) (epoch : Nat) (id : String) : Prop where
  /-- It is a response that came on the socket, with the name of the request, and its payload is such a hello. -/
  hello : ∃ t payload error hello, x.input = .report epoch (.text t) ∧
    Wire.Frame.parse? t = some (.response id true (some payload) error) ∧
    Wire.Hello.decode payload = .ok hello ∧ hello.tag = "hello-ok"
  /-- The socket is that of the present attempt. -/
  present : c.connection.epoch = epoch
  /-- The attempt waits for it. -/
  phase : c.connection.phase = .connecting (.awaitingHello id)

/-- In the run the supervisor has handled the challenge of a socket. -/
def Challenged (p : Profile) (moves : List Move) (epoch : Nat) : Prop :=
  ∃ before x, Took p moves before x ∧ (Client.after p before).Challenges x epoch

/-- In the run the supervisor has handled the hello that answers the `connect` request of a name on a socket. -/
def Welcomed (p : Profile) (moves : List Move) (epoch : Nat) (id : String) : Prop :=
  ∃ before x, Took p moves before x ∧ (Client.after p before).Welcomes x epoch id

/-- The frame carries the request that a caller asks for. -/
def Input.Carries (i : Input) (f : Wire.Frame) : Prop :=
  ∃ id method params n l, i = .command (.request id method params n l) ∧ f = .request id method params

/-- How the phase may change in a move. -/
inductive Phase.Turns : Phase → Phase → Prop where
  /-- Not at all. -/
  | stays {φ : Phase} : Turns φ φ
  /-- An attempt begins. -/
  | begins : Turns .disconnected (.connecting .dialing)
  /-- Its socket is open. -/
  | opens : Turns (.connecting .dialing) (.connecting .awaitingChallenge)
  /-- Its challenge is answered. -/
  | greets {id : String} : Turns (.connecting .awaitingChallenge) (.connecting (.awaitingHello id))
  /-- It is accepted. -/
  | enters {id : String} : Turns (.connecting (.awaitingHello id)) .connected
  /-- It fails. -/
  | fails {h : Handshake} : Turns (.connecting h) .disconnected
  /-- The connection is lost. -/
  | ends : Turns .connected .disconnected

namespace Client

theorem frames_concat (epoch : Nat) (c : Client) (moves : List Move) (m : Move) :
    c.frames epoch (moves ++ [m]) =
      c.frames epoch moves ++ ((c.run moves).effects m).filterMap (Effect.frame? epoch) :=
  gather_concat _ c moves m

end Client

section

variable {p : Profile} {moves : List Move} {m : Move} {epoch : Nat}

theorem Challenged.concat (h : Challenged p moves epoch) : Challenged p (moves ++ [m]) epoch := by
  obtain ⟨before, x, ht, hc⟩ := h
  exact ⟨before, x, took_concat.2 (.inl ht), hc⟩

theorem Welcomed.concat {id : String} (h : Welcomed p moves epoch id) :
    Welcomed p (moves ++ [m]) epoch id := by
  obtain ⟨before, x, ht, hw⟩ := h
  exact ⟨before, x, took_concat.2 (.inl ht), hw⟩

end

/-! ### What a step says, and where it leads -/

theorem Tidings.exists_of_ofText_eq_challenge {t : String} (h : Tidings.ofText t = .challenge) :
    ∃ payload seq, Wire.Frame.parse? t = some (.event "connect.challenge" payload seq) := by
  unfold ofText at h
  split at h
  · rename_i name payload seq hp
    have hname : name = "connect.challenge" := by
      by_contra hname
      unfold Wire.classify at h
      rw [if_neg hname] at h
      split at h
      · cases h
      · split at h
        · split at h <;> cases h
        · cases h
    exact ⟨payload, seq, hname ▸ hp⟩
  · cases h
  · cases h

theorem Wire.Hello.exists_of_ofPayload? {payload : Json} {hello : Wire.Hello}
    (h : Wire.Hello.ofPayload? payload = some hello) :
    Wire.Hello.decode payload = .ok hello ∧ hello.tag = "hello-ok" := by
  unfold Wire.Hello.ofPayload? at h
  split at h
  · rename_i hello' hd
    split at h
    · rename_i ht
      cases h
      exact ⟨hd, ht⟩
    · cases h
  · cases h

namespace Client

variable {c : Client} {x : Cue} {t : String}

theorem challenges_of_ofText (hi : x.input = .report c.connection.epoch (.text t))
    (ht : Tidings.ofText t = .challenge) (hp : c.connection.phase = .connecting .awaitingChallenge) :
    c.Challenges x c.connection.epoch := by
  obtain ⟨payload, seq, hparse⟩ := Tidings.exists_of_ofText_eq_challenge ht
  exact ⟨⟨t, payload, seq, hi, hparse⟩, rfl, hp⟩

theorem welcomes_of_ofText {id : String} {payload : Option Json} {error : Option Wire.Failure}
    {hello : Wire.Hello} (hi : x.input = .report c.connection.epoch (.text t))
    (ht : Tidings.ofText t = .response id true payload error)
    (hp : c.connection.phase = .connecting (.awaitingHello id))
    (hh : payload.bind Wire.Hello.ofPayload? = some hello) : c.Welcomes x c.connection.epoch id := by
  obtain ⟨v, rfl, hv⟩ := Option.bind_eq_some_iff.1 hh
  obtain ⟨hdecode, htag⟩ := Wire.Hello.exists_of_ofPayload? hv
  exact ⟨⟨t, v, error, hello, hi, Tidings.ofText_eq_response_iff.1 ht, hdecode, htag⟩, rfl, hp⟩

end Client

namespace Connection

variable {env : Surroundings} {p : Profile} {c c' : Connection} {i : Input} {es : List Effect}

theorem frame?_of_farewells {fault : Fault} {e : Effect} (epoch : Nat) (h : e ∈ c.farewells fault) :
    e.frame? epoch = none := by
  obtain ⟨link, rfl⟩ | ⟨n, a, rfl⟩ := close_or_answer_of_mem_farewells h <;> rfl

/-- What the supervisor says in a step, on which socket, and the connection afterwards. -/
inductive Says (env : Surroundings) (p : Profile) (c : Connection) :
    Input → Connection → Nat → Wire.Frame → Prop where
  /-- It answers the challenge. -/
  | connect {t : String} {link : Nat} : Tidings.ofText t = .challenge →
      c.phase = .connecting .awaitingChallenge → c.link = some link →
      Says env p c (.report c.epoch (.text t)) { c with phase := .connecting (.awaitingHello env.freshId) } link
        (connectRequest p env.freshId)
  /-- It passes on a request. -/
  | request {id method : String} {params : Json} {n link : Nat} {l : Option Listener} :
      c.phase = .connected → c.link = some link →
      Says env p c (.command (.request id method params n l))
        { c with outstanding := c.outstanding.set id ⟨method, n, l⟩ } link (.request id method params)

/-- **The supervisor says one thing in a step at most**: the `connect` request, or that of a caller. -/
theorem says_or_silent (ha : Acts env p c i c' es) :
    (∀ epoch, es.filterMap (Effect.frame? epoch) = []) ∨
      ∃ link f, Says env p c i c' link f ∧ es = [.send link f] := by
  cases ha with
  | requests hp hl => exact .inr ⟨_, _, .request hp hl, rfl⟩
  | greets ht hp hl => exact .inr ⟨_, _, .connect ht hp hl, rfl⟩
  | ends =>
    exact .inl fun epoch => List.filterMap_eq_nil_iff.2 fun e he => frame?_of_farewells epoch he
  | deserts =>
    exact .inl fun epoch => List.filterMap_eq_nil_iff.2 fun e he => frame?_of_farewells epoch he
  | destroys =>
    refine .inl fun epoch => List.filterMap_eq_nil_iff.2 fun e he => ?_
    obtain he | he := List.mem_append.1 he
    · exact frame?_of_farewells epoch he
    · cases List.mem_singleton.1 he
      rfl
  | _ => exact .inl fun epoch => by simp [Effect.frame?]

/-- **The phase changes along the handshake**, if the socket of an attempt is reported open only while the attempt
waits for it. -/
theorem InPhase.turns_of_acts (h : c.InPhase) (hx : c.Expects i)
    (ho : i = .report c.epoch .opened → c.phase = .connecting .dialing) (ha : Acts env p c i c' es) :
    c.phase.Turns c'.phase := by
  have hdown : c.phase.Turns .disconnected := by
    obtain hp | ⟨s, hp⟩ | hp := c.phase_cases
    · exact hp ▸ .stays
    · exact hp ▸ .fails
    · exact hp ▸ .ends
  cases ha with
  | attempts ht =>
    rw [h.disconnected_of_attempts hx ht]
    exact .begins
  | opens =>
    rw [ho rfl]
    exact .opens
  | greets ht hp =>
    rw [hp]
    exact .greets
  | enters ht hp =>
    rw [hp]
    exact .enters
  | ends => exact hdown
  | destroys => exact hdown
  | deserts => exact hdown
  | _ => exact .stays

/-- A connection is entered by the hello. -/
theorem exists_of_entered (ha : Acts env p c i c' es) (hp : c.phase ≠ .connected)
    (hp' : c'.phase = .connected) : ∃ t id payload error hello, i = .report c.epoch (.text t) ∧
      Tidings.ofText t = .response id true payload error ∧ c.phase = .connecting (.awaitingHello id) ∧
      payload.bind Wire.Hello.ofPayload? = some hello := by
  cases ha with
  | enters ht hq hh => exact ⟨_, _, _, _, _, rfl, ht, hq, hh⟩
  | attempts => cases hp'
  | greets => cases hp'
  | ends => cases hp'
  | destroys => cases hp'
  | deserts => cases hp'
  | opens =>
    simp only at hp'
    split at hp'
    · cases hp'
    · exact absurd hp' hp
  | _ => exact absurd hp' hp

/-- A response ends an attempt, unless it is the hello. -/
theorem disconnected_or_hello {t id : String} {ok : Bool} {payload : Option Json}
    {error : Option Wire.Failure} {s : Handshake} (ha : Acts env p c (.report c.epoch (.text t)) c' es)
    (ht : Tidings.ofText t = .response id ok payload error) (hp : c.phase = .connecting s) :
    c'.phase = .disconnected ∨ s = .awaitingHello id ∧ ok = true ∧
      ∃ hello, payload.bind Wire.Hello.ofPayload? = some hello := by
  cases ha with
  | ends => exact .inl rfl
  | attempts hq => cases hq
  | enters ht' hp' hh =>
    cases ht.symm.trans ht'
    cases hp.symm.trans hp'
    exact .inr ⟨rfl, rfl, _, hh⟩
  | greets ht' => cases ht.symm.trans ht'
  | beats ht' => cases ht.symm.trans ht'
  | delivers ht' => cases ht.symm.trans ht'
  | answers ht' hp' => cases hp.symm.trans hp'
  | passes hq =>
    cases hq with
    | stale hne => exact absurd rfl hne
    | nothing ht' => cases ht.symm.trans ht'
    | challenge ht' => cases ht.symm.trans ht'
    | heartbeat ht' => cases ht.symm.trans ht'
    | response ht' hp' => cases hp.symm.trans hp'
    | unknown ht' hp' => cases hp.symm.trans hp'

end Connection

/-! ### The phase as a summary of what was said -/

/-- What may have been said on the socket of an epoch. -/
def Proper (p : Profile) (moves : List Move) (epoch : Nat) (fs : List Wire.Frame) : Prop :=
  fs = [] ∨ ∃ id rest, fs = connectRequest p id :: rest ∧ Challenged p moves epoch ∧
    (rest ≠ [] → Welcomed p moves epoch id) ∧ ∀ f ∈ rest, ∃ id method params, f = .request id method params

/-- What was said on the socket of the present attempt, by phase. -/
def Stands (p : Profile) (moves : List Move) (epoch : Nat) (fs : List Wire.Frame) : Phase → Prop
  | .disconnected => True
  | .connecting (.awaitingHello id) => fs = [connectRequest p id]
  | .connecting _ => fs = []
  | .connected => ∃ id rest, fs = connectRequest p id :: rest ∧ Welcomed p moves epoch id

/-- What was said on the sockets of a run. -/
structure Said (p : Profile) (moves : List Move) : Prop where
  /-- On every socket, what may be said. -/
  proper : ∀ epoch, Proper p moves epoch ((Client.new p).frames epoch moves)
  /-- On sockets to come, nothing. -/
  future : ∀ epoch, (Client.after p moves).connection.epoch < epoch → (Client.new p).frames epoch moves = []
  /-- On the present one, what the phase says. -/
  stands : Stands p moves (Client.after p moves).connection.epoch
    ((Client.new p).frames (Client.after p moves).connection.epoch moves)
    (Client.after p moves).connection.phase

section

variable {p : Profile} {moves : List Move} {m : Move} {x : Cue} {epoch : Nat} {fs : List Wire.Frame}

theorem Proper.concat (h : Proper p moves epoch fs) : Proper p (moves ++ [m]) epoch fs := by
  obtain h | ⟨id, rest, hfs, hc, hw, hr⟩ := h
  · exact .inl h
  · exact .inr ⟨id, rest, hfs, hc.concat, fun hne => (hw hne).concat, hr⟩

theorem Stands.concat {φ : Phase} (h : Stands p moves epoch fs φ) : Stands p (moves ++ [m]) epoch fs φ := by
  cases φ with
  | disconnected => trivial
  | connected =>
    obtain ⟨id, rest, hfs, hw⟩ := h
    exact ⟨id, rest, hfs, hw.concat⟩
  | connecting s => cases s <;> exact h

theorem said_new (p : Profile) : Said p [] := ⟨fun _ => .inl rfl, fun _ _ => rfl, trivial⟩

/-- A move in which nothing is said leaves what was said. -/
theorem Said.silent (h : Said p moves)
    (hsilent : ∀ epoch, ((Client.after p moves).effects m).filterMap (Effect.frame? epoch) = [])
    (hstands : Stands p (moves ++ [m]) (Client.after p (moves ++ [m])).connection.epoch
      ((Client.new p).frames (Client.after p (moves ++ [m])).connection.epoch moves)
      (Client.after p (moves ++ [m])).connection.phase) : Said p (moves ++ [m]) := by
  have hframes : ∀ epoch, (Client.new p).frames epoch (moves ++ [m]) = (Client.new p).frames epoch moves := by
    intro epoch
    rw [Client.frames_concat, hsilent, List.append_nil]
  have hle : (Client.after p moves).connection.epoch ≤ (Client.after p (moves ++ [m])).connection.epoch := by
    rw [Client.after_concat]
    exact (Client.sound_run p moves).epoch_le_move m
  constructor
  · intro epoch
    rw [hframes]
    exact (h.proper epoch).concat
  · intro epoch he
    rw [hframes]
    exact h.future epoch (Nat.lt_of_le_of_lt hle he)
  · rw [hframes]
    exact hstands

/-- A move in which something is said on the socket of the present attempt adds it to what was said there. -/
theorem Said.speak (h : Said p moves) {f : Wire.Frame}
    (hsaid : (Client.after p moves).effects m = [.send (Client.after p moves).connection.epoch f])
    (hepoch : (Client.after p (moves ++ [m])).connection.epoch = (Client.after p moves).connection.epoch)
    (hproper : Proper p (moves ++ [m]) (Client.after p moves).connection.epoch
      ((Client.new p).frames (Client.after p moves).connection.epoch moves ++ [f]))
    (hstands : Stands p (moves ++ [m]) (Client.after p moves).connection.epoch
      ((Client.new p).frames (Client.after p moves).connection.epoch moves ++ [f])
      (Client.after p (moves ++ [m])).connection.phase) : Said p (moves ++ [m]) := by
  have hframes : ∀ epoch, (Client.new p).frames epoch (moves ++ [m]) = (Client.new p).frames epoch moves ++
      if (Client.after p moves).connection.epoch = epoch then [f] else [] := by
    intro epoch
    rw [Client.frames_concat]
    show _ ++ List.filterMap _ ((Client.after p moves).effects m) = _
    rw [hsaid]
    by_cases he : (Client.after p moves).connection.epoch = epoch <;> simp [Effect.frame?, he]
  constructor
  · intro epoch
    rw [hframes]
    by_cases he : (Client.after p moves).connection.epoch = epoch
    · rw [if_pos he]
      exact he ▸ hproper
    · rw [if_neg he, List.append_nil]
      exact (h.proper epoch).concat
  · intro epoch he
    rw [hepoch] at he
    rw [hframes, if_neg (Nat.ne_of_lt he), List.append_nil]
    exact h.future epoch he
  · rw [hframes, hepoch, if_pos rfl]
    exact hstands

/-- The supervisor's steps say what may be said. -/
theorem Said.handle (h : Said p moves) (hx : (Client.after p moves).cue? m = some x) :
    Said p (moves ++ [m]) := by
  have hs := Client.sound_run p moves
  have ha := hs.acts hx
  rw [Client.profile_run] at ha
  have hopened := (Client.opensOnce_run p moves).dialing_of_opened hx
  have heffects := Client.effects_of_cue? hx
  have hconn : (Client.after p (moves ++ [m])).connection = ((Client.after p moves).outcome x).1 := by
    rw [Client.after_concat]
    exact Client.connection_of_cue? hx
  have htook : Took p (moves ++ [m]) moves x := took_concat.2 (.inr ⟨rfl, hx⟩)
  have hold := h.stands
  have hsilent := @Said.silent p moves m h
  have hspeak := @Said.speak p moves m h
  rw [heffects, hconn] at hsilent hspeak
  generalize ((Client.after p moves).outcome x).1 = c', ((Client.after p moves).outcome x).2 = es
    at ha hsilent hspeak
  generalize hi : x.input = i at ha hopened
  obtain hnone | ⟨link, f, hsaid, rfl⟩ := Connection.says_or_silent ha
  · cases ha with
    | attempts ht => exact hsilent hnone (h.future _ (Nat.lt_succ_self _))
    | opens =>
      have hp := hopened rfl
      rw [hp] at hold
      refine hsilent hnone ?_
      simp only [hp]
      exact hold
    | enters ht hp hh =>
      rw [hp] at hold
      exact hsilent hnone ⟨_, [], hold, moves, x, htook, Client.welcomes_of_ofText hi ht hp hh⟩
    | ends => exact hsilent hnone trivial
    | destroys => exact hsilent hnone trivial
    | deserts => exact hsilent hnone trivial
    | greets =>
      have hlink := hnone ‹Nat›
      simp [Effect.frame?] at hlink
    | _ => exact hsilent hnone hold.concat
  · cases hsaid with
    | connect ht hp hl =>
      rw [hp] at hold
      have hempty : (Client.new p).frames (Client.after p moves).connection.epoch moves = [] := hold
      obtain rfl := hs.phase.eq_epoch_of_link hl
      rw [hempty] at hspeak
      refine hspeak rfl rfl (.inr ⟨_, [], rfl, ?_, fun h => absurd rfl h, ?_⟩) rfl
      · exact ⟨moves, x, htook, Client.challenges_of_ofText hi ht hp⟩
      · intro f hf
        cases hf
    | request hp hl =>
      rw [hp] at hold
      obtain ⟨id, rest, hfs, hw⟩ := hold
      obtain rfl := hs.phase.eq_epoch_of_link hl
      have hproper := h.proper (Client.after p moves).connection.epoch
      rw [hfs] at hproper hspeak
      obtain hnil | ⟨id', rest', hfs', hc, -, hr⟩ := hproper
      · cases hnil
      · cases (List.cons.inj hfs').2
        refine hspeak rfl rfl (.inr ⟨id, _, rfl, hc.concat, fun _ => hw.concat, fun f hf => ?_⟩) ?_
        · obtain hf | hf := List.mem_append.1 hf
          · exact hr f hf
          · cases List.mem_singleton.1 hf
            exact ⟨_, _, _, rfl⟩
        · simp only [hp]
          exact ⟨id, _, rfl, hw.concat⟩

/-- **What was said on the sockets of a run** is what may be said, and the phase says how much. -/
theorem said_run (p : Profile) (moves : List Move) : Said p moves := by
  induction moves using List.reverseRecOn with
  | nil => exact said_new p
  | append_singleton moves m ih =>
    cases hx : (Client.after p moves).cue? m with
    | some x => exact ih.handle hx
    | none =>
      refine ih.silent (fun epoch => ?_) ?_
      · rw [Client.effects_of_cue?_eq_none hx]
        rfl
      · rw [Client.after_concat, Client.connection_of_idle hx]
        exact ih.stands.concat

end

/-! ### Every run -/

/-- **The discipline of the handshake**, in a run. -/
structure Disciplined (p : Profile) (moves : List Move) : Prop where
  /-- The phase changes along the handshake only. -/
  turns : ∀ before m later, moves = before ++ m :: later →
    (Client.after p before).connection.phase.Turns (Client.after p (before ++ [m])).connection.phase
  /-- On a socket nothing is said, or one `connect` request and then other requests: the former only once the
  challenge has come there, the latter only once the hello has. -/
  proper : ∀ epoch, Proper p moves epoch ((Client.new p).frames epoch moves)
  /-- Each frame is either the first on its socket, is the `connect` request, and goes out as the challenge comes
  there; or it is what a caller asks for, and the hello that answers the `connect` request has come there
  before. -/
  sends : ∀ before m later epoch f, moves = before ++ m :: later →
    .send epoch f ∈ (Client.after p before).effects m → ∃ x, (Client.after p before).cue? m = some x ∧
      ((Client.new p).frames epoch before = [] ∧ f = connectRequest p x.freshId ∧
          (Client.after p before).Challenges x epoch ∨
        ∃ id rest, (Client.new p).frames epoch before = connectRequest p id :: rest ∧
          Welcomed p before epoch id ∧ x.input.Carries f)
  /-- A connection is entered by the hello that answers the `connect` request, and in no other way. -/
  enters : ∀ before m later, moves = before ++ m :: later →
    (Client.after p before).connection.phase ≠ .connected →
    (Client.after p (before ++ [m])).connection.phase = .connected →
    ∃ x epoch id, (Client.after p before).cue? m = some x ∧
      (Client.after p before).Welcomes x epoch id ∧
      (Client.new p).frames epoch before = [connectRequest p id]
  /-- Any other response on the socket of an attempt ends it. -/
  rejects : ∀ before m later x s t id ok payload error, moves = before ++ m :: later →
    (Client.after p before).cue? m = some x →
    x.input = .report (Client.after p before).connection.epoch (.text t) →
    Wire.Frame.parse? t = some (.response id ok payload error) →
    (Client.after p before).connection.phase = .connecting s →
    (∀ epoch id, ¬ (Client.after p before).Welcomes x epoch id) →
    (Client.after p (before ++ [m])).connection.phase = .disconnected

section

variable {p : Profile} {moves : List Move} {m : Move}

theorem turns_move (p : Profile) (moves : List Move) (m : Move) :
    (Client.after p moves).connection.phase.Turns (Client.after p (moves ++ [m])).connection.phase := by
  have hs := Client.sound_run p moves
  rw [Client.after_concat]
  cases hx : (Client.after p moves).cue? m with
  | none =>
    rw [Client.connection_of_idle hx]
    exact .stays
  | some x =>
    rw [Client.connection_of_cue? hx]
    exact hs.phase.turns_of_acts (hs.expects hx) ((Client.opensOnce_run p moves).dialing_of_opened hx)
      (hs.acts hx)

theorem sends_of_mem {epoch : Nat} {f : Wire.Frame} (h : .send epoch f ∈ (Client.after p moves).effects m) :
    ∃ x, (Client.after p moves).cue? m = some x ∧
      ((Client.new p).frames epoch moves = [] ∧ f = connectRequest p x.freshId ∧
          (Client.after p moves).Challenges x epoch ∨
        ∃ id rest, (Client.new p).frames epoch moves = connectRequest p id :: rest ∧
          Welcomed p moves epoch id ∧ x.input.Carries f) := by
  have hs := Client.sound_run p moves
  have hstands := (said_run p moves).stands
  cases hx : (Client.after p moves).cue? m with
  | none =>
    rw [Client.effects_of_cue?_eq_none hx] at h
    cases h
  | some x =>
    have ha := hs.acts hx
    rw [Client.profile_run] at ha
    rw [Client.effects_of_cue? hx] at h
    refine ⟨x, rfl, ?_⟩
    obtain hnone | ⟨link, f', hsaid, he⟩ := Connection.says_or_silent ha
    · have := List.filterMap_eq_nil_iff.1 (hnone epoch) _ h
      simp [Effect.frame?] at this
    · rw [he] at h
      cases List.mem_singleton.1 h
      generalize hi : x.input = i, ((Client.after p moves).outcome x).1 = c' at hsaid
      cases hsaid with
      | connect ht hp hl =>
        rw [hp] at hstands
        obtain rfl := hs.phase.eq_epoch_of_link hl
        exact .inl ⟨hstands, rfl, Client.challenges_of_ofText hi ht hp⟩
      | request hp hl =>
        rw [hp] at hstands
        obtain ⟨id, rest, hfs, hw⟩ := hstands
        obtain rfl := hs.phase.eq_epoch_of_link hl
        exact .inr ⟨id, rest, hfs, hw, _, _, _, _, _, rfl, rfl⟩

theorem welcomes_of_entered (hp : (Client.after p moves).connection.phase ≠ .connected)
    (hp' : (Client.after p (moves ++ [m])).connection.phase = .connected) :
    ∃ x epoch id, (Client.after p moves).cue? m = some x ∧ (Client.after p moves).Welcomes x epoch id ∧
      (Client.new p).frames epoch moves = [connectRequest p id] := by
  have hs := Client.sound_run p moves
  have hstands := (said_run p moves).stands
  rw [Client.after_concat] at hp'
  cases hx : (Client.after p moves).cue? m with
  | none =>
    rw [Client.connection_of_idle hx] at hp'
    exact absurd hp' hp
  | some x =>
    rw [Client.connection_of_cue? hx] at hp'
    obtain ⟨t, id, payload, error, hello, hi, ht, hrising, hh⟩ :=
      Connection.exists_of_entered (hs.acts hx) hp hp'
    rw [hrising] at hstands
    exact ⟨x, _, id, rfl, Client.welcomes_of_ofText hi ht hrising hh, hstands⟩

theorem disconnected_of_response {x : Cue} {s : Handshake} {t id : String} {ok : Bool}
    {payload : Option Json} {error : Option Wire.Failure}
    (hx : (Client.after p moves).cue? m = some x)
    (hi : x.input = .report (Client.after p moves).connection.epoch (.text t))
    (ht : Wire.Frame.parse? t = some (.response id ok payload error))
    (hp : (Client.after p moves).connection.phase = .connecting s)
    (hw : ∀ epoch id, ¬ (Client.after p moves).Welcomes x epoch id) :
    (Client.after p (moves ++ [m])).connection.phase = .disconnected := by
  have ha := (Client.sound_run p moves).acts hx
  rw [hi] at ha
  have ht := Tidings.ofText_eq_response_iff.2 ht
  rw [Client.after_concat, Client.connection_of_cue? hx]
  obtain hd | ⟨rfl, rfl, hello, hh⟩ := Connection.disconnected_or_hello ha ht hp
  · exact hd
  · exact absurd (Client.welcomes_of_ofText hi ht hp hh) (hw _ _)

end

/-- **Nothing is said to a gateway before it is due.** In every run of a client, whatever callers, sockets and
deadlines did and in whatever order, the phase goes from none to an attempt, from an attempt to a connection or back
to none, and from a connection back to none. On every socket there is nothing said at all, or first the `connect`
request, as the gateway's challenge comes there and only then, and after it requests of callers, each of them after
a hello that accepts the `connect` request has come on that very socket. It is this hello that makes a connection of
the attempt; any other response ends the attempt. -/
theorem disciplined_run (p : Profile) (moves : List Move) : Disciplined p moves where
  turns before m _ _ := turns_move p before m
  proper := (said_run p moves).proper
  sends _ _ _ _ _ _ h := sends_of_mem h
  enters _ _ _ _ hp hp' := welcomes_of_entered hp hp'
  rejects _ _ _ _ _ _ _ _ _ _ _ hx hi ht hp hw := disconnected_of_response hx hi ht hp hw

-- A query that comes too early is not passed on, one that comes after the hello is.
example : (Client.new localProfile).frames 1
    ([.query 0 "q-1" (.plain "health" .null) (.ofSeconds 1), .takeCommand 0 "unused"] ++ greeting ++
      [.query 0 "q-2" (.plain "health" .null) (.ofSeconds 1), .takeCommand 0 "unused"]) =
    [connectRequest localProfile "hello", .request "q-2" "health" .null] := by decide +kernel

end TurnRelay.Gateway
