import Quizzbot.Correctness.Channels
import Quizzbot.Server.Correctness.Total

/-!
# `Correctness.NoFault` — clients of this program bring nothing down

A byte stream can make the parser raise, and with it the process that reads it. The streams of this program's
own processes cannot: what has arrived is always the beginning of a stream of frames, on which `parse` returns.
Together with the handlers, which raise nothing of their own, no step of a client fails, and no read of the
server on the connection of such a client, in any interleaving and whatever the other peers send. What is left are
the accept of a connection that was reset meanwhile, and the end of a client that was refused, which aborts
(`no_fault`).
-/

namespace Quizzbot

open AsyncWrite (Pipe)
open LabelledRun (Process Run)
open HexText (ascii)
open PullParser (Frames bytes)

variable {mp : Msgpack} {Endpoint : Type} {names : ConnId → Option CString}

/-- A message that owns an object and fits in a frame can be packed. -/
theorem packable_of_fits (hmp : mp.Lawful) {d : MessageData} (h : Fits (.ofData d)) :
    Packable mp (.ofData d) := by
  apply packable_of_short hmp
  intro s hs
  have hle := List.le_sum_of_mem (List.mem_map_of_mem (f := Msgpack.strSize) hs)
  have hsize : s.length ≤ Msgpack.strSize s := Nat.le_add_left _ _
  have hfit : 1 + (d.fields.map Msgpack.strSize).sum ≤ 255 := h d rfl
  omega

/-! ## The client's threads -/

/-- The keyboard raises nothing: an error of the parser has a text. -/
theorem Ui.handleKeyboard_total (gui : Ui) (ch : Int) (buf : Except CString CString) :
    ∃ res, gui.handleKeyboard ch buf = .ok res := by
  unfold Ui.handleKeyboard
  split
  · exact ⟨_, rfl⟩
  · split
    · cases buf with
      | error text => exact ⟨_, rfl⟩
      | ok line =>
          unfold Ui.sendMsg
          rcases gui.line_parser_.parseLine_cases line with
            ⟨text, -, -, hparse⟩ | ⟨answer, hparse⟩ | ⟨error, hparse⟩
          all_goals
            simp only [hparse]
            exact ⟨_, rfl⟩
    · exact ⟨_, rfl⟩

/-- Nor does the main thread, on messages that were received. -/
theorem ClientMain.turn_total (hmp : mp.Lawful) {s : ClientMain} (hq : ∀ m ∈ s.queue.queue_, Received mp m)
    (ch : Int) (buf : Except CString CString) : ∃ res, s.turn mp ch buf = .ok res := by
  unfold turn
  cases s.pc with
  | waitSize | waitEmpty | guiSize | refused | left => exact ⟨_, rfl⟩
  | guiEmpty =>
      dsimp only
      rw [guiBatch_ok hmp (show ∀ m ∈ s.queue.empty.1, Received mp m from hq)]
      exact ⟨_, rfl⟩
  | keyboard =>
      obtain ⟨⟨gui, msg⟩, h⟩ := s.gui.handleKeyboard_total ch buf
      dsimp only
      rw [h]
      exact ⟨_, rfl⟩

namespace ClientConnection

variable (net : Process (Step mp) ({} : ClientConnection Endpoint))

theorem advance_of_handle {e : ConnectionEvent Endpoint}
    (h : net.state.Enabled e → ∃ cl, net.state.handle mp e = .ok cl) :
    ∃ res, advance net e = .ok res := by
  unfold advance
  split
  · rename_i he
    obtain ⟨cl, hcl⟩ := h he
    split
    · rename_i fault hfault
      rw [hcl] at hfault; cases hfault
    · exact ⟨_, rfl⟩
  · exact ⟨_, rfl⟩

theorem sendAll_total (hmp : mp.Lawful) {cmds : List Message} (h : ∀ m ∈ cmds, Packable mp m) :
    ∃ net', sendAll net cmds = .ok net' := by
  induction cmds generalizing net with
  | nil => exact ⟨net, rfl⟩
  | cons cmd cmds ih =>
      unfold sendAll
      have hcopy := (h cmd (List.mem_cons_self ..)).copy hmp
      obtain ⟨net?, hadv⟩ : ∃ res, advance net (.send cmd) = .ok res := by
        apply advance_of_handle
        intro _
        rw [handle, send, hcopy]
        exact ⟨_, rfl⟩
      rw [hadv]
      cases net? with
      | none => exact ⟨net, rfl⟩
      | some net₁ => exact ih net₁ fun m hm => h m (List.mem_cons_of_mem _ hm)

/-- The events of the connection raise nothing: what is posted can be packed, and a resolver that succeeds
    has found an endpoint. -/
theorem advance_total (hmp : mp.Lawful) {e : ConnectionEvent Endpoint} (he : ¬ e.isSend)
    (hresolved : ∀ endpoints, e = .resolved endpoints → 0 < endpoints.length) :
    ∃ res, advance net e = .ok res := by
  apply advance_of_handle
  intro henabled
  cases e with
  | send cmd => exact absurd rfl he
  | resolved endpoints =>
      cases endpoints with
      | nil => exact absurd (hresolved [] rfl) (Nat.lt_irrefl 0)
      | cons endpoint endpoints => exact ⟨_, rfl⟩
  | resolveError => exact ⟨_, rfl⟩
  | connect err =>
      obtain ⟨endpoint, endpoints, hsocket⟩ := henabled
      rw [handle, hsocket]
      exact ⟨_, rfl⟩
  | runPosted =>
      obtain ⟨cmd, posted, hposted⟩ := List.exists_cons_of_ne_nil henabled
      have hmem : cmd ∈ net.state.posted := by rw [hposted]; exact List.mem_cons_self ..
      obtain ⟨packet, hpack⟩ := (sent_run hmp net.run).packable cmd hmem
      rw [handle, runPosted, hposted]
      dsimp only
      rw [hpack]
      exact ⟨_, rfl⟩

end ClientConnection

/-- The reader raises nothing if `parse` does not. -/
theorem TcpClient.onRead_total (hmp : mp.Lawful) {cl : TcpClient} {bytes : Packet}
    {res : Option Message × Packet}
    (h : Protocol.parse (messageCodec mp) (cl.aggr_packet_ ++ bytes) = .ok res) :
    ∃ cl', cl.onRead mp bytes = .ok cl' := by
  obtain ⟨m?, rest⟩ := res
  rw [TcpClient.onRead, TcpClient.handleRead, h]
  cases m? with
  | none => exact ⟨_, rfl⟩
  | some m =>
      obtain ⟨d, p, -, -, hcopy⟩ := parse_message hmp h
      simp only [ok_bind, hcopy]
      exact ⟨_, rfl⟩

/-! ## The end of a client -/

/-- A process that has ended has left its loops, and was aborted exactly if it was refused. -/
structure Client.Exits {name : CString} (cl : Client mp Endpoint name) : Prop where
  ended   : cl.running = false → cl.main.state.pc = .left ∨ cl.main.state.pc = .refused
  aborted : cl.aborted = true ↔ cl.running = false ∧ cl.main.state.pc = .refused

namespace Client

variable {name : CString}

theorem exits_new : ({} : Client mp Endpoint name).Exits :=
  ⟨nofun, nofun, fun h => nomatch h.1⟩

/-- What a step leaves alone. -/
theorem Exits.of_eq {cl cl' : Client mp Endpoint name} (h : cl.Exits) (hrunning : cl'.running = cl.running)
    (haborted : cl'.aborted = cl.aborted) (hpc : cl'.main.state.pc = cl.main.state.pc) : cl'.Exits := by
  refine ⟨?_, ?_⟩
  · rw [hrunning, hpc]
    exact h.ended
  · rw [haborted, hrunning, hpc]
    exact h.aborted

theorem exits_step {hmp : mp.Lawful} {cl cl' : Client mp Endpoint name} {e : ClientEvent Endpoint}
    (h : cl.Exits) (hs : Stepped hmp cl e cl') : cl'.Exits := by
  cases hs with
  | typed _ _ | network _ _ | wrote _ | readFailed => exact h.of_eq rfl rfl rfl
  | read _ _ _ _ hmain =>
      refine h.of_eq rfl rfl ?_
      rw [ClientMain.push_run hmain.2]
  | @turned ch buf _ _ _ _ hturn _ _ =>
      -- a main thread that has left its loops takes no step
      have hrunning : cl.running = true := by
        by_contra hne
        rcases h.ended (Bool.eq_false_iff.mpr hne) with hpc | hpc <;>
          simp [ClientMain.turn, hpc] at hturn
      have haborted : cl.aborted = false := by
        rw [Bool.eq_false_iff]
        intro haborted
        rw [(h.aborted.mp haborted).1] at hrunning
        cases hrunning
      constructor
      · intro hended
        exact absurd (hrunning.symm.trans hended) Bool.true_eq_false.mp
      · show cl.aborted = true ↔ cl.running = false ∧ _
        rw [hrunning, haborted]
        simp
  | exited hpc =>
      refine ⟨fun _ => hpc, ?_⟩
      show decide (cl.main.state.pc = .refused) = true ↔ _
      rw [decide_eq_true_eq]
      exact ⟨fun hrefused => ⟨rfl, hrefused⟩, And.right⟩

end Client

namespace System

variable {hmp : mp.Lawful} {s : System mp Endpoint names} {t : List (Label Endpoint)}

/-! ## What has arrived -/

/-- **The server can parse what has arrived from a client.** -/
theorem parses_upward (hsized : mp.Sized) (h : OrdinaryRun hmp t s) {c : ConnId} (hc : (names c).isSome)
    {chunk : Packet} (hread : ((s.clients c).up.read chunk).isSome) :
    ∃ res, Protocol.parse (messageCodec mp) ((s.server.state.conns c).acc_packet_ ++ chunk) = .ok res := by
  obtain ⟨handled, waiting, hstarted, -, hbytes⟩ := uplink_run hsized h hc
  obtain ⟨p, hp⟩ := Option.isSome_iff_exists.mp hread
  have hrest := Pipe.inFlight_read hp
  have hframes : ∀ x ∈ waiting, Frames (Protocol.parse (messageCodec mp)) x.1 x.2 := by
    intro x hx
    apply frames_started hsized h c
    rw [hstarted]
    exact List.mem_append_right _ hx
  rw [upward, hrest, List.append_assoc, ← List.append_assoc] at hbytes
  exact PullParser.pull_ok rfl hframes hbytes

/-- **A client can parse what has arrived from the server.** -/
theorem parses_downward (hsized : mp.Sized) (h : OrdinaryRun hmp t s) {c : ConnId} {chunk : Packet}
    (hread : ((s.clients c).down.read chunk).isSome) :
    ∃ res, Protocol.parse (messageCodec mp)
      ((s.clients c).reader.state.aggr_packet_ ++ chunk) = .ok res := by
  obtain ⟨handled, waiting, hwritten, -, hbytes⟩ := downlink_run hsized h c
  obtain ⟨p, hp⟩ := Option.isSome_iff_exists.mp hread
  have hrest := Pipe.inFlight_read hp
  have hframes : ∀ x ∈ waiting, Frames (Protocol.parse (messageCodec mp)) x.1 x.2 := by
    intro x hx
    apply frames_written hsized h c
    rw [hwritten]
    exact List.mem_append_right _ hx
  rw [downward, hrest, List.append_assoc, ← List.append_assoc] at hbytes
  exact PullParser.pull_ok rfl hframes hbytes

/-! ## No step fails -/

/-- A step of a client. -/
theorem client_total (hsized : mp.Sized) (h : OrdinaryRun hmp t s) {c : ConnId}
    {e : ClientEvent Endpoint} (hord : s.Ordinary (.client c e)) :
    ∃ res, (s.clients c).next hmp e = .ok res := by
  cases e with
  | type =>
      rw [Client.next, Client.type]
      split
      · exact ⟨_, rfl⟩
      · have hpackable : ∀ m ∈ [Message.ofData (.joinMessage ((names c).getD []))], Packable mp m := by
          intro m hm
          rw [List.mem_singleton.mp hm]
          exact packable_of_fits hmp hord
        obtain ⟨net, hnet⟩ := ClientConnection.sendAll_total (s.clients c).net hmp hpackable
        rw [hnet]
        exact ⟨_, rfl⟩
  | main ch buf =>
      rw [Client.next, Client.turn]
      split
      · obtain ⟨res, hres⟩ := ClientMain.turn_total hmp
          (ClientMain.received_queue (s.clients c).main.run) ch buf
        split
        · rename_i fault hfault
          rw [hres] at hfault; cases hfault
        · exact ⟨_, rfl⟩
        · rename_i main e hturn
          have hsent := (ClientMain.sent_step (ClientMain.turn_step hturn)).2
          have hpackable : ∀ m ∈ main.sent.drop (s.clients c).main.state.sent.length,
              Packable mp m := by
            intro m hm
            rw [hsent, List.drop_left] at hm
            obtain ⟨line, hline, rfl⟩ := List.mem_map.mp (List.mem_filter.mp hm).1
            have hbuf := (ClientMain.entered_turn hturn line hline).2
            subst hbuf
            have hfits : Fits ((s.clients c).main.state.gui.line_parser_.parseLine line) := hord
            rcases (s.clients c).main.state.gui.line_parser_.parseLine_cases line with
              ⟨text, -, -, hparse⟩ | ⟨answer, hparse⟩ | ⟨error, hparse⟩
            all_goals
              rw [hparse] at hfits
              show Packable mp ((s.clients c).main.state.gui.line_parser_.parseLine line)
              rw [hparse]
              exact packable_of_fits hmp hfits
          obtain ⟨net, hnet⟩ := ClientConnection.sendAll_total (s.clients c).net hmp hpackable
          rw [hnet]
          exact ⟨_, rfl⟩
      · exact ⟨_, rfl⟩
  | net e =>
      rw [Client.next]
      unfold Client.network
      split
      · rename_i hrun
        obtain ⟨net?, hnet⟩ := ClientConnection.advance_total (s.clients c).net hmp hrun.2 (by
          rintro endpoints rfl
          exact hord)
        rw [hnet]
        cases net? with
        | none => exact ⟨_, rfl⟩
        | some net => exact ⟨_, rfl⟩
      · exact ⟨_, rfl⟩
  | write i n =>
      rw [Client.next]
      split <;> exact ⟨_, rfl⟩
  | read chunk =>
      rw [Client.next, Client.read]
      split
      · cases hdown : (s.clients c).down.read chunk with
        | none => exact ⟨_, rfl⟩
        | some down =>
            obtain ⟨res, hparse⟩ := parses_downward hsized h (Option.isSome_iff_exists.mpr ⟨down, hdown⟩)
            obtain ⟨reader, hreader⟩ := TcpClient.onRead_total hmp hparse
            dsimp only
            split
            · rename_i fault hfault
              rw [hreader] at hfault; cases hfault
            · exact ⟨_, rfl⟩
      · exact ⟨_, rfl⟩
  | readError =>
      rw [Client.next]
      split <;> exact ⟨_, rfl⟩
  | exit =>
      rw [Client.next]
      split <;> exact ⟨_, rfl⟩

/-- No ordinary step raises, unless it accepts a connection that was reset, or reads from a peer that does not run
    this program. -/
theorem next_total (hsized : mp.Sized) (h : OrdinaryRun hmp t s) {l : Label Endpoint} (hord : s.Ordinary l)
    (hreset : ∀ c, l ≠ .server (.acceptReset c))
    (hpeer : ∀ c chunk, l = .server (.read c chunk) → (names c).isSome) : ∃ s', s.next hmp l = .ok s' := by
  cases l with
  | server e =>
      rw [next, serverStep]
      split
      · rename_i henabled
        have hbenign : Benign mp s.server.state e := by
          cases e with
          | read c chunk =>
              have hc := hpeer c chunk rfl
              exact parses_upward hsized h hc (henabled.2.2 hc)
          | acceptReset c => exact absurd rfl (hreset c)
          | accept _ | acceptError _ | readError _ => trivial
        obtain ⟨res, hres⟩ := handle_total hmp hbenign
        split
        · rename_i fault hfault
          rw [hres] at hfault; cases hfault
        · exact ⟨_, rfl⟩
      · exact ⟨_, rfl⟩
  | game => exact ⟨_, rfl⟩
  | sigint => exact ⟨_, rfl⟩
  | serverWrite c i n =>
      rw [next]
      split <;> exact ⟨_, rfl⟩
  | client c e =>
      rw [next]
      split
      · obtain ⟨cl?, hcl⟩ := client_total hsized h hord
        rw [hcl]
        cases cl? with
        | none => exact ⟨_, rfl⟩
        | some cl => exact ⟨_, rfl⟩
      · exact ⟨_, rfl⟩

/-- The client processes that have ended: `main` had left its loops, and those that were refused were aborted. -/
theorem exits_run (h : Run (Step hmp) {} t s) : ∀ c, (s.clients c).Exits := by
  apply h.invariant (I := fun s : System mp Endpoint names => ∀ c, (s.clients c).Exits)
  · intro s l s' hexits hstep
    cases step_cases hstep with
    | served _ _ _ _ _ => exact fun c => ⟨(hexits c).ended, (hexits c).aborted⟩
    | looped _ _ | signalled _ => exact hexits
    | @wrote c _ _ _ _ _ =>
        exact forall_setClient (P := fun _ cl => cl.Exits) hexits ⟨(hexits c).ended, (hexits c).aborted⟩
    | @client c _ _ _ hcl =>
        exact forall_setClient (P := fun _ cl => cl.Exits) hexits (Client.exits_step (hexits c) hcl)
  · exact fun _ => Client.exits_new

/-- **Clients of this program bring nothing down**: in every run of ordinary steps, no further such step raises,
    unless it accepts a connection that its peer has reset, or reads from a peer that is not one of them. And a
    client process is aborted exactly if it was refused and has returned from `main`. -/
theorem no_fault (hsized : mp.Sized) (h : OrdinaryRun hmp t s) :
    (∀ l, s.Ordinary l → (∀ c, l ≠ .server (.acceptReset c)) →
      (∀ c chunk, l = .server (.read c chunk) → (names c).isSome) → ∃ s', s.next hmp l = .ok s') ∧
    ∀ c, (s.clients c).aborted = true ↔
      (s.clients c).running = false ∧ (s.clients c).main.state.pc = .refused :=
  ⟨fun _ hord hreset hpeer => next_total hsized h hord hreset hpeer,
    fun c => (exits_run h.of_under c).aborted⟩

/-- Two clients with the name `a`. -/
def oneName : ConnId → Option CString
  | 0 | 1 => some [0x61]
  | _ => none

/-- The packet of the refusal. -/
def takenPacket : Packet := [0x01, 0x02, 0x31, 0x36, 0x04, 0xb4] ++ ascii "Name already exists." ++ [0x33, 0x31]

/-- The second is refused and ends, while a text of the first is on its way. -/
def refusal : List (Label Nat) :=
  joining 0 joinA ++
    [.client 0 (.main 0 (.ok [])), .client 0 (.main 10 (.ok [0x68])), .client 0 (.net .runPosted),
     .client 0 (.write 1 4), .server (.read 0 (typedGreeting.take 4)), .client 0 (.write 1 7)] ++
    (joining 1 joinA).take 7 ++
    [.serverWrite 1 0 takenPacket.length, .client 1 (.read takenPacket), .client 1 (.main 0 (.ok [])),
     .client 1 (.main 0 (.ok [])), .client 1 .exit]

/-- The process of the second client is aborted, and the server can read the rest of the text. -/
theorem no_fault_refusal : ∃ s : System Msgpack.reference Nat oneName,
    OrdinaryRun Msgpack.reference_lawful refusal s ∧ (s.clients 1).aborted = true ∧
      (s.clients 1).main.state.pc = .refused ∧
      ∃ s', s.next Msgpack.reference_lawful (.server (.read 0 (typedGreeting.drop 4))) = .ok s' := by
  have hend : ∃ s : System Msgpack.reference Nat oneName, OrdinaryRun Msgpack.reference_lawful refusal s ∧
      ((s.clients 1).aborted = true ∧ s.Ordinary (.server (.read 0 (typedGreeting.drop 4)))) :=
    exists_run (by decide +kernel)
  obtain ⟨s, hrun, haborted, hord⟩ := hend
  obtain ⟨htotal, haborts⟩ := no_fault Msgpack.reference_sized hrun
  refine ⟨s, hrun, haborted, ((haborts 1).mp haborted).2, htotal _ hord ?_ ?_⟩
  · rintro c ⟨⟩
  · rintro c chunk ⟨⟩
    rfl

end System

end Quizzbot
