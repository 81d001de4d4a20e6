import Quizzbot.Correctness.Links
import Quizzbot.Server.Wire

/-!
# `Correctness.Channels` — connections as reliable channels of messages

In runs of ordinary steps everything that is written is a frame (`fitting_run`), the writes are in order, and
both ends pull once for each read. So each direction of a connection is a queue of messages (`uplink_run`,
`downlink_run`): what has been handled at one end is a prefix of what was sent at the other, and the rest is
on its way, to the byte: in the reader's buffer, on the wire, or still to be written.
-/

namespace Quizzbot

open AsyncWrite (Pipe)
open LabelledRun (Run Under)
open PullParser (Frames bytes)

variable {mp : Msgpack} {Endpoint : Type} {names : ConnId → Option CString}

/-! ## Everything fits -/

namespace Client

variable {name : CString}

/-- What a client sends in a step fits. -/
theorem fits_step {hmp : mp.Lawful} {cl cl' : Client mp Endpoint name} {e : ClientEvent Endpoint}
    (hs : Stepped hmp cl e cl') (htype : e = .type → Fits (.ofData (.joinMessage name)))
    (hline : ∀ ch line, e = .main ch (.ok line) → Fits (cl.main.state.gui.line_parser_.parseLine line))
    (h : ∀ m ∈ ClientConnection.sends cl.net.trace, Fits m) :
    ∀ m ∈ ClientConnection.sends cl'.net.trace, Fits m := by
  cases hs with
  | typed _ hnet =>
      intro m hm
      rw [hnet.1, ClientConnection.sends_concat_send] at hm
      rcases List.mem_append.mp hm with hm | hm
      · exact h m hm
      · rw [List.mem_singleton.mp hm]; exact htype rfl
  | @turned ch buf e main net _ hturn _ hnet =>
      intro m hm
      rw [hnet.1, ClientConnection.sends_append, ClientConnection.sends_map_send] at hm
      rcases List.mem_append.mp hm with hm | hm
      · exact h m hm
      · -- the message is made of the line that was in the form
        obtain ⟨line, hentered, rfl⟩ := List.mem_map.mp (List.mem_filter.mp hm).1
        have hbuf := (ClientMain.entered_turn hturn line hentered).2
        have hfits := hline ch line (by rw [hbuf])
        rwa [ClientMain.parser_run cl.main.run] at hfits
  | network he hnet =>
      rw [hnet.1, ClientConnection.sends_concat_other he]
      exact h
  | wrote _ | read _ _ _ _ _ | readFailed | exited _ => exact h

end Client

namespace System

/-- **Everything that is sent fits**, and what the server writes is the packet of its message. -/
structure Fitting (s : System mp Endpoint names) : Prop where
  sends   : ∀ c, ∀ m ∈ ClientConnection.sends (s.clients c).net.trace, Fits m
  written : ∀ c, ∀ x ∈ writtenTo c s.server.trace,
    Fits x.1 ∧ Protocol.pack (messageCodec mp) x.1 = .ok x.2

theorem fitting_step (hsized : mp.Sized) {hmp : mp.Lawful} {s s' : System mp Endpoint names}
    {l : Label Endpoint} (h : s.Fitting) (hs : Stepped hmp s l s') (hord : s.Ordinary l) : s'.Fitting := by
  cases hs with
  | @served e r server game he hrun hsupplied hserver hgame =>
      constructor
      · exact h.sends
      · intro c x hx
        show Fits x.1 ∧ _
        rw [hserver.1, writtenTo_append] at hx
        rcases List.mem_append.mp hx with hx | hx
        · exact h.written c x hx
        · rw [writtenTo_single] at hx
          obtain ⟨effect, hmem, heffect⟩ := List.mem_filterMap.mp hx
          have hcarries := written_step hmp hsized hserver.2.step_of_single (he ▸ hord)
          cases effect with
          | push event => cases heffect
          | asyncWrite c' m packet =>
              dsimp only at heffect
              split at heffect
              · cases heffect
                exact hcarries c' m packet hmem
              · cases heffect
  | looped _ _ => exact ⟨h.sends, h.written⟩
  | signalled _ => exact ⟨h.sends, h.written⟩
  | wrote _ _ =>
      constructor
      · exact forall_setClient
          (P := fun _ cl => ∀ m ∈ ClientConnection.sends cl.net.trace, Fits m) h.sends (h.sends _)
      · exact h.written
  | @client c e cl hc hcl =>
      constructor
      · apply forall_setClient
          (P := fun _ cl => ∀ m ∈ ClientConnection.sends cl.net.trace, Fits m) h.sends
        apply Client.fits_step hcl _ _ (h.sends c)
        · rintro rfl; exact hord
        · rintro ch line rfl; exact hord
      · exact h.written

/-- The runs in which the connections work. -/
abbrev OrdinaryRun (hmp : mp.Lawful) (t : List (Label Endpoint)) (s : System mp Endpoint names) : Prop :=
  Run (Under (Step hmp) Ordinary) {} t s

section
variable {hmp : mp.Lawful} {s : System mp Endpoint names} {t : List (Label Endpoint)}

theorem fitting_run (hsized : mp.Sized) (h : OrdinaryRun hmp t s) : s.Fitting := by
  apply h.invariant (I := Fitting)
  · intro s l s' hs hstep
    exact fitting_step hsized hs (step_cases hstep.1) hstep.2
  · constructor
    · intro c m hm; cases hm
    · intro c x hx; cases hx

/-- The frames that a client has started. -/
theorem frames_started (hsized : mp.Sized) (h : OrdinaryRun hmp t s) (c : ConnId) :
    ∀ x ∈ (s.clients c).net.state.started, Frames (Protocol.parse (messageCodec mp)) x.1 x.2 := by
  intro x hx
  have hpack := (ClientConnection.sent_run hmp (s.clients c).net.run).packed x hx
  apply frames_of_pack hmp hsized hpack
  apply (fitting_run hsized h).sends c
  have hsub := ClientConnection.started_sublist hmp (s.clients c).net.run
  exact hsub.subset (List.mem_append_left _ (List.mem_map_of_mem hx))

/-- The frames that the server has written. -/
theorem frames_written (hsized : mp.Sized) (h : OrdinaryRun hmp t s) (c : ConnId) :
    ∀ x ∈ writtenTo c s.server.trace, Frames (Protocol.parse (messageCodec mp)) x.1 x.2 := by
  intro x hx
  obtain ⟨hfits, hpack⟩ := (fitting_run hsized h).written c x hx
  exact frames_of_pack hmp hsized hpack hfits

/-! ## The two directions -/

/-- What is on its way to the server: in its buffer, on the wire, and still to be written. -/
def upward (s : System mp Endpoint names) (c : ConnId) : Packet :=
  (s.clients c).up.inFlight ++ (s.clients c).up.stream.unsent

def downward (s : System mp Endpoint names) (c : ConnId) : Packet :=
  (s.clients c).down.inFlight ++ (s.clients c).down.stream.unsent

/-- The bytes of a client's frames, as the server has read them and has them before it. -/
theorem upward_bytes (h : OrdinaryRun hmp t s) {c : ConnId} (hc : (names c).isSome) :
    (readsOn c s.server.trace).flatten ++ s.upward c = bytes (s.clients c).net.state.started := by
  have hlinked := (linked_run h.of_under).clients c
  rw [hlinked.taken hc, upward, Pipe.conserved (framed_run h c).1, AsyncWrite.Stream.buffered,
    hlinked.glued.started, bytes]

theorem downward_bytes (h : OrdinaryRun hmp t s) (c : ConnId) :
    (s.clients c).reader.trace.flatten ++ s.downward c = bytes (writtenTo c s.server.trace) := by
  have hlinked := (linked_run h.of_under).clients c
  rw [hlinked.glued.received, downward, Pipe.conserved (framed_run h c).2, AsyncWrite.Stream.buffered,
    hlinked.written, bytes]

/-- **From a client to the server**: what the server has handled is what the client started first, each
    message once and in order, and the rest is on its way. -/
theorem uplink_run (hsized : mp.Sized) (h : OrdinaryRun hmp t s) {c : ConnId} (hc : (names c).isSome) :
    ∃ handled waiting, (s.clients c).net.state.started = handled ++ waiting ∧
      parsedOn c s.server.trace = handled.map Prod.fst ∧
      (s.server.state.conns c).acc_packet_ ++ s.upward c = bytes waiting :=
  (server_feeds hmp s.server.run c).framed rfl (frames_started hsized h c) (upward_bytes h hc)

/-- **From the server to a client.** -/
theorem downlink_run (hsized : mp.Sized) (h : OrdinaryRun hmp t s) (c : ConnId) :
    ∃ handled waiting, writtenTo c s.server.trace = handled ++ waiting ∧
      (s.clients c).reader.state.queue_ = handled.map Prod.fst ∧
      (s.clients c).reader.state.aggr_packet_ ++ s.downward c = bytes waiting :=
  (TcpClient.feeds_run hmp (s.clients c).reader.run).framed rfl (frames_written hsized h c)
    (downward_bytes h c)

/-- **A connection is a reliable channel of messages in either direction**, in every run of ordinary steps: what
    the server has parsed on the connection of a client is what the client has started to send, and what a client's
    queue was given is what the server has written to it, each message once and in order, up to those whose frames
    are, to the byte, in the reader's buffer, on the wire, or still to be written. A write is assumed to carry the
    bytes that were packed for it, as in the whole model (see `Ordinary`). -/
theorem channels_run (hsized : mp.Sized) (h : OrdinaryRun hmp t s) :
    (∀ c, (names c).isSome → ∃ handled waiting, (s.clients c).net.state.started = handled ++ waiting ∧
      parsedOn c s.server.trace = handled.map Prod.fst ∧
      (s.server.state.conns c).acc_packet_ ++ s.upward c = bytes waiting) ∧
    ∀ c, ∃ handled waiting, writtenTo c s.server.trace = handled ++ waiting ∧
      (s.clients c).reader.state.queue_ = handled.map Prod.fst ∧
      (s.clients c).reader.state.aggr_packet_ ++ s.downward c = bytes waiting :=
  ⟨fun _ hc => uplink_run hsized h hc, fun c => downlink_run hsized h c⟩

end

/-! ## A run -/

theorem run_of_exec {hmp : mp.Lawful} {s s' : System mp Endpoint names} {ls : List (Label Endpoint)}
    (h : s.exec hmp ls = .ok (some s')) : Run (Under (Step hmp) Ordinary) s ls s' := by
  induction ls generalizing s with
  | nil => cases h; exact .refl
  | cons l ls ih =>
      unfold exec at h
      split at h
      · rename_i hord
        obtain ⟨s₁?, hnext, h⟩ := bind_ok h
        cases s₁? with
        | none => cases h
        | some s₁ => exact (Run.single ⟨hnext, hord⟩).trans (ih h)
      · cases h

/-- What can be checked at the end of an execution holds at the end of a run. -/
theorem exists_run {hmp : mp.Lawful} {s : System mp Endpoint names} {P : System mp Endpoint names → Prop}
    [DecidablePred P] {ls : List (Label Endpoint)}
    (h : (s.exec hmp ls).toOption.join.any (fun s' => decide (P s')) = true) :
    ∃ s', Run (Under (Step hmp) Ordinary) s ls s' ∧ P s' := by
  cases hexec : s.exec hmp ls with
  | error fault => rw [hexec] at h; cases h
  | ok s? =>
      cases s? with
      | none => rw [hexec] at h; cases h
      | some s' =>
          rw [hexec] at h
          exact ⟨s', run_of_exec hexec, of_decide_eq_true h⟩

/-- The players `a` and `b`. -/
def twoNames : ConnId → Option CString
  | 0 => some [0x61]
  | 1 => some [0x62]
  | _ => none

/-- A client connects, asks to join, and takes the acknowledgement. -/
def joining (c : ConnId) (packet : Packet) : List (Label Nat) :=
  [.client c (.net (.resolved [0])), .client c (.net (.connect false)), .client c .type,
   .client c (.net .runPosted), .client c (.write 0 packet.length), .server (.accept c),
   .server (.read c packet), .serverWrite c 0 ackPacket.length, .client c (.read ackPacket),
   .client c (.main 0 (.ok [])), .client c (.main 0 (.ok []))]

/-- The frame of the text `h`, as the client of `a` makes it. -/
def typedGreeting : Packet := [0x01, 0x02, 0x30, 0x35, 0x00, 0xa1, 0x61, 0xa1, 0x68, 0x30, 0x64]

/-- Both have joined, `a` has entered `h`, and the server has read the first bytes of it. -/
def speaking : List (Label Nat) :=
  joining 0 joinA ++ joining 1 joinB ++
    [.client 0 (.main 0 (.ok [])), .client 0 (.main 10 (.ok [0x68])), .client 0 (.net .runPosted),
     .client 0 (.write 1 4), .server (.read 0 (typedGreeting.take 4))]

/-- The rest of it arrives, and the screen of `b` shows it. -/
def conversation : List (Label Nat) :=
  speaking ++
    [.client 0 (.write 1 7), .server (.read 0 (typedGreeting.drop 4)), .serverWrite 1 1 typedGreeting.length,
     .client 1 (.read typedGreeting), .client 1 (.main 0 (.ok [])), .client 1 (.main 0 (.ok []))]

/-- The text is still on its way when its first bytes have been read. -/
theorem channels_run_speaking : ∃ s : System Msgpack.reference Nat twoNames,
    OrdinaryRun Msgpack.reference_lawful speaking s ∧
      (s.clients 0).net.state.started.length = 2 ∧ (parsedOn 0 s.server.trace).length = 1 ∧
      ∃ handled waiting, (s.clients 0).net.state.started = handled ++ waiting ∧
        parsedOn 0 s.server.trace = handled.map Prod.fst ∧
        (s.server.state.conns 0).acc_packet_ ++ s.upward 0 = bytes waiting := by
  have hend : ∃ s : System Msgpack.reference Nat twoNames, OrdinaryRun Msgpack.reference_lawful speaking s ∧
      ((s.clients 0).net.state.started.length = 2 ∧ (parsedOn 0 s.server.trace).length = 1) :=
    exists_run (by decide +kernel)
  obtain ⟨s, hrun, hstarted, hparsed⟩ := hend
  exact ⟨s, hrun, hstarted, hparsed, (channels_run Msgpack.reference_sized hrun).1 0 rfl⟩

end System

end Quizzbot
