import Quizzbot.Client.Correctness.Sending
import Quizzbot.Client.Correctness.Typing
import Quizzbot.Client.Process
import Quizzbot.Delivery

/-!
# `Client.Correctness.Process` — how the parts of a client fit together

`Client.Stepped` says once what a step of a client can do to its components; from it the glue between them
(`Client.Glued`): what the main thread has sent was posted, what was started on the socket is in the buffers of
its writes, and what was read is what the reader was given, and what it found is in the queue.
-/

namespace Quizzbot

open AsyncWrite (Pipe Chain)
open LabelledRun (Run Process)
open PullParser (Feeds)

variable {mp : Msgpack} {Endpoint : Type} {name : CString}

/-! ## The components -/

/-- **The client pulls once for each read**, in every run of its reader. -/
theorem TcpClient.feeds_run (hmp : mp.Lawful) {cl : TcpClient} {reads : List Packet}
    (h : Run (TcpClient.Step mp) {} reads cl) :
    Feeds (Protocol.parse (messageCodec mp)) [] reads cl.queue_ cl.aggr_packet_ := by
  induction h with
  | refl => exact .nil
  | tail _ hs ih =>
      obtain ⟨m?, rest, hparse, rfl⟩ := TcpClient.step_cases hmp hs
      exact ih.snoc hparse

/-- What was found stays found. -/
theorem TcpClient.queue_step (hmp : mp.Lawful) {cl cl' : TcpClient} {bytes : Packet}
    (h : cl.Step mp bytes cl') : cl'.queue_ = cl.queue_ ++ cl'.queue_.drop cl.queue_.length := by
  obtain ⟨m?, rest, -, rfl⟩ := TcpClient.step_cases hmp h
  rw [List.drop_left]

namespace ClientMain

theorem pushAll_extends (main : Process (Step mp) (init name)) (msgs : List Message)
    (h : ∀ m ∈ msgs, Received mp m) : main.Extends (msgs.map .push) (pushAll main msgs h) := by
  induction msgs generalizing main with
  | nil => exact main.extends_refl
  | cons m msgs ih =>
      have hfirst := main.extends_extend (.push (h m (List.mem_cons_self ..)))
      exact hfirst.trans (ih _ _)

theorem pushes_append (t t' : List MainEvent) : pushes (t ++ t') = pushes t ++ pushes t' :=
  List.flatMap_append

theorem pushes_map_push (msgs : List Message) : pushes (msgs.map .push) = msgs := by
  induction msgs with
  | nil => rfl
  | cons m msgs ih => exact congrArg (m :: ·) ih

/-- Pushes change the queue only. -/
theorem push_run {s s' : ClientMain} {msgs : List Message} (h : Run (Step mp) s (msgs.map .push) s') :
    s' = { s with queue := ⟨s.queue.queue_ ++ msgs⟩ } := by
  generalize ht : msgs.map MainEvent.push = t at h
  induction h generalizing msgs with
  | refl =>
      rw [List.map_eq_nil_iff.mp ht, List.append_nil]
  | tail _ hs ih =>
      obtain ⟨early, last, rfl, hearly, hlast⟩ := List.map_eq_append_iff.mp ht
      obtain ⟨m, rfl, rfl⟩ := List.map_eq_singleton_iff.mp hlast
      have hstate := ih hearly
      cases hs with
      | push _ =>
          rw [hstate]
          show { s with queue := _ } = { s with queue := _ }
          rw [EventQueue.push, List.append_assoc]

/-- What a step of the main thread cannot be: a push, and a key that it did not get. -/
theorem turn_event {s s' : ClientMain} {ch : Int} {buf : Except CString CString} {e : MainEvent}
    (h : s.turn mp ch buf = .ok (some (s', e))) :
    (∀ msg, e ≠ .push msg) ∧ ∀ ch' buf' added, e = .keyboard ch' buf' added → ch' = ch ∧ buf' = buf := by
  unfold turn at h
  cases hpc : s.pc with
  | waitSize | waitEmpty | guiSize =>
      simp only [hpc] at h
      cases h
      exact ⟨fun _ => nofun, fun _ _ _ => nofun⟩
  | guiEmpty =>
      simp only [hpc] at h
      obtain ⟨gui, -, h⟩ := bind_ok h
      cases h
      exact ⟨fun _ => nofun, fun _ _ _ => nofun⟩
  | keyboard =>
      simp only [hpc] at h
      obtain ⟨x, -, h⟩ := bind_ok h
      cases h
      refine ⟨fun _ => nofun, ?_⟩
      rintro _ _ _ he
      cases he
      exact ⟨rfl, rfl⟩
  | refused | left => simp only [hpc] at h; cases h

/-- The main thread itself pushes nothing. -/
theorem pushes_turn {s s' : ClientMain} {ch : Int} {buf : Except CString CString} {e : MainEvent}
    (h : s.turn mp ch buf = .ok (some (s', e))) : pushes [e] = [] := by
  cases turn_step h with
  | push _ => exact absurd rfl ((turn_event h).1 _)
  | waitSize _ | waitEmpty _ | guiSize _ | guiEmpty _ _ | keyboard _ _ => rfl

/-- A line is entered with the Enter key, and is what the form held. -/
theorem entered_turn {s s' : ClientMain} {ch : Int} {buf : Except CString CString} {e : MainEvent}
    (h : s.turn mp ch buf = .ok (some (s', e))) : ∀ line ∈ entered [e], ch = 10 ∧ buf = .ok line := by
  intro line hline
  cases turn_step h with
  | push _ | waitSize _ | waitEmpty _ | guiSize _ | guiEmpty _ _ => cases hline
  | @keyboard ch' buf' _ _ _ _ =>
      obtain ⟨rfl, rfl⟩ := (turn_event h).2 _ _ _ rfl
      unfold entered at hline
      rw [List.flatMap_singleton] at hline
      cases buf' with
      | error text => cases hline
      | ok line' =>
          dsimp only at hline
          split at hline
          · rw [List.mem_singleton.mp hline]
            exact ⟨‹_›, rfl⟩
          · cases hline

end ClientMain

namespace ClientConnection

theorem sends_append (t t' : List (ConnectionEvent Endpoint)) : sends (t ++ t') = sends t ++ sends t' :=
  List.filterMap_append

theorem sends_map_send (cmds : List Message) :
    sends (cmds.map .send : List (ConnectionEvent Endpoint)) = cmds := by
  induction cmds with
  | nil => rfl
  | cons cmd cmds ih => exact congrArg (cmd :: ·) ih

theorem advance_extends {net net' : Process (Step mp) ({} : ClientConnection Endpoint)}
    {e : ConnectionEvent Endpoint} (h : advance net e = .ok (some net')) : net.Extends [e] net' := by
  unfold advance at h
  split at h
  · split at h
    · cases h
    · cases h
      exact net.extends_extend _
  · cases h

theorem sendAll_extends {net net' : Process (Step mp) ({} : ClientConnection Endpoint)}
    {cmds : List Message} (h : sendAll net cmds = .ok net') : net.Extends (cmds.map .send) net' := by
  induction cmds generalizing net with
  | nil => cases h; exact Process.extends_refl _
  | cons cmd cmds ih =>
      unfold sendAll at h
      obtain ⟨net₁?, hadv, h⟩ := bind_ok h
      cases net₁? with
      | none =>
          -- `send` can always be called
          unfold advance at hadv
          rw [dif_pos (show net.state.Enabled (.send cmd) from trivial)] at hadv
          split at hadv <;> cases hadv
      | some net₁ => exact (advance_extends hadv).trans (ih h)

/-- What was started stays so. -/
theorem started_step (hmp : mp.Lawful) {cl cl' : ClientConnection Endpoint} {e : ConnectionEvent Endpoint}
    (h : cl.Step mp e cl') : cl.started <+: cl'.started := by
  cases e with
  | send cmd =>
      have hstate := (send_step hmp h).1
      subst hstate
      exact List.prefix_rfl
  | runPosted =>
      obtain ⟨cmd, rest, packet, -, -, -, ⟨-, hstarted, -⟩ | ⟨-, hstarted, -⟩⟩ := runPosted_step h
      · rw [hstarted]; exact List.prefix_append _ _
      · exact hstarted ▸ List.prefix_rfl
  | resolved | resolveError | connect =>
      have hstarted := (socket_step h (by simp) (by simp)).2.1
      exact hstarted ▸ List.prefix_rfl

/-- A socket that is connected stays so. -/
theorem connected_step (hmp : mp.Lawful) {cl cl' : ClientConnection Endpoint} {e : ConnectionEvent Endpoint}
    (h : cl.Step mp e cl') (hc : cl.socket_ = .connected) : cl'.socket_ = .connected := by
  cases e with
  | send cmd =>
      have hstate := (send_step hmp h).1
      subst hstate
      exact hc
  | runPosted =>
      obtain ⟨hne, hrun⟩ := h
      obtain ⟨cmd, posted, hposted⟩ := List.exists_cons_of_ne_nil hne
      rw [handle, runPosted, hposted] at hrun
      obtain ⟨packet, -, hrun⟩ := bind_ok hrun
      cases hrun
      unfold asyncWrite
      dsimp only
      rw [hc]
  | resolved endpoints => rw [Step, Enabled, hc] at h; cases h.1
  | resolveError => rw [Step, Enabled, hc] at h; cases h.1
  | connect err =>
      obtain ⟨⟨endpoint, endpoints, hsocket⟩, -⟩ := h
      rw [hc] at hsocket
      cases hsocket

theorem connected_run (hmp : mp.Lawful) {cl cl' : ClientConnection Endpoint}
    {t : List (ConnectionEvent Endpoint)} (h : Run (Step mp) cl t cl') (hc : cl.socket_ = .connected) :
    cl'.socket_ = .connected :=
  h.invariant (I := fun cl => cl.socket_ = .connected) (fun _ _ _ hs hstep => connected_step hmp hstep hs) hc

/-- `send` starts nothing. -/
theorem started_sends (hmp : mp.Lawful) {cl cl' : ClientConnection Endpoint} {cmds : List Message}
    (h : Run (Step mp) cl (cmds.map .send) cl') : cl'.started = cl.started := by
  generalize ht : (cmds.map .send : List (ConnectionEvent Endpoint)) = t at h
  induction h generalizing cmds with
  | refl => rfl
  | tail _ hs ih =>
      obtain ⟨early, last, rfl, hearly, hlast⟩ := List.map_eq_append_iff.mp ht
      obtain ⟨cmd, rfl, rfl⟩ := List.map_eq_singleton_iff.mp hlast
      rw [(send_step hmp hs).1]
      exact ih hearly

/-- What was started and what is posted was sent, in that order: only what failed is missing. -/
theorem started_sublist (hmp : mp.Lawful) {t : List (ConnectionEvent Endpoint)}
    {cl : ClientConnection Endpoint} (h : Run (Step mp) {} t cl) :
    (cl.started.map Prod.fst ++ cl.posted).Sublist (sends t) := by
  induction h with
  | refl => exact List.Sublist.refl _
  | @tail t cl e cl' _ hs ih =>
      cases e with
      | send cmd =>
          rw [(send_step hmp hs).1, sends_concat_send, ← List.append_assoc]
          exact ih.append_right _
      | runPosted =>
          rw [sends_concat_other (by simp)]
          obtain ⟨cmd, rest, packet, hposted, -, hrest, ⟨-, hstarted, -⟩ | ⟨-, hstarted, -⟩⟩ :=
            runPosted_step hs
          · rw [hstarted, hrest, List.map_append, List.append_assoc]
            rw [hposted] at ih
            exact ih
          · rw [hstarted, hrest]
            rw [hposted] at ih
            exact ((List.sublist_cons_self cmd rest).append_left _).trans ih
      | resolved | resolveError | connect =>
          obtain ⟨hposted, hstarted, -⟩ := socket_step hs (by simp) (by simp)
          rw [hposted, hstarted, sends_concat_other (by simp)]
          exact ih

end ClientConnection

/-! ## What a step does -/

namespace Client

/-- **What a step of a client can do.** -/
inductive Stepped (hmp : mp.Lawful) (cl : Client mp Endpoint name) :
    ClientEvent Endpoint → Client mp Endpoint name → Prop
  | typed {net} (htyped : cl.typed = false)
      (hnet : cl.net.Extends [.send (.ofData (.joinMessage name))] net) :
      Stepped hmp cl .type { cl with typed := true, net := net }
  | turned {ch buf e main net} (htyped : cl.typed = true)
      (hturn : cl.main.state.turn mp ch buf = .ok (some (main.state, e))) (hmain : cl.main.Extends [e] main)
      (hnet : cl.net.Extends ((ClientMain.requests name (ClientMain.entered [e])).map .send) net) :
      Stepped hmp cl (.main ch buf) { cl with main := main, net := net }
  | network {e net} (he : ∀ cmd, e ≠ .send cmd) (hnet : cl.net.Extends [e] net) :
      Stepped hmp cl (.net e) { cl with
        net := net
        up := cl.up.startAll ((net.state.started.drop cl.net.state.started.length).map Prod.snd) }
  | wrote {i n up} (hup : cl.up.transfer i n = some up) :
      Stepped hmp cl (.write i n) { cl with up := up }
  | read {bytes down reader main msgs} (hconn : cl.net.state.socket_ = .connected)
      (hdown : cl.down.read bytes = some down)
      (hreader : cl.reader.Extends [bytes] reader)
      (hqueue : reader.state.queue_ = cl.reader.state.queue_ ++ msgs)
      (hmain : cl.main.Extends (msgs.map .push) main) :
      Stepped hmp cl (.read bytes) { cl with down := down, reader := reader, main := main }
  | readFailed : Stepped hmp cl .readError { cl with readFailed := true }
  | exited (hpc : cl.main.state.pc = .left ∨ cl.main.state.pc = .refused) :
      Stepped hmp cl .exit { cl with running := false, aborted := cl.main.state.pc = .refused }

theorem next_cases {hmp : mp.Lawful} {cl cl' : Client mp Endpoint name} {e : ClientEvent Endpoint}
    (h : cl.next hmp e = .ok (some cl')) : Stepped hmp cl e cl' := by
  cases e with
  | type =>
      rw [next, type] at h
      split at h
      · cases h
      · rename_i htyped
        obtain ⟨net, hnet, h⟩ := bind_ok h
        cases h
        exact .typed (Bool.eq_false_iff.mpr htyped) (ClientConnection.sendAll_extends hnet)
  | main ch buf =>
      rw [next, turn] at h
      split at h
      · rename_i htyped
        split at h
        · cases h
        · cases h
        · rename_i main e hturn
          obtain ⟨net, hnet, h⟩ := bind_ok h
          cases h
          have hstep := ClientMain.turn_step hturn
          have hsent := (ClientMain.sent_step hstep).2
          rw [ClientMain.parser_run cl.main.run] at hsent
          rw [hsent, List.drop_left] at hnet
          exact .turned htyped hturn (cl.main.extends_extend hstep)
            (ClientConnection.sendAll_extends hnet)
      · cases h
  | net e =>
      rw [next] at h
      unfold network at h
      split at h
      · rename_i hrun
        obtain ⟨net?, hadv, h⟩ := bind_ok h
        cases net? with
        | none => cases h
        | some net =>
            cases h
            refine .network ?_ (ClientConnection.advance_extends hadv)
            rintro cmd rfl
            exact hrun.2 rfl
      · cases h
  | write i n =>
      rw [next] at h
      split at h
      · rw [Except.ok.injEq, Option.map_eq_some_iff] at h
        obtain ⟨up, hup, rfl⟩ := h
        exact .wrote hup
      · cases h
  | read bytes =>
      rw [next, read] at h
      split at h
      · rename_i hreading
        split at h
        · cases h
        · rename_i down hdown
          split at h
          · cases h
          · rename_i reader hreader
            cases h
            exact .read (ClientConnection.isConnected_iff.mp hreading.1.2.1) hdown
              (cl.reader.extends_extend hreader)
              (TcpClient.queue_step hmp hreader) (ClientMain.pushAll_extends ..)
      · cases h
  | readError =>
      rw [next] at h
      split at h
      · cases h; exact .readFailed
      · cases h
  | exit =>
      rw [next] at h
      split at h
      · rename_i hexit
        cases h
        exact .exited hexit.2
      · cases h

/-! ## The glue -/

/-- **What ties the components of a client together.** -/
structure Glued (cl : Client mp Endpoint name) : Prop where
  sends    : ClientConnection.sends cl.net.trace = if cl.typed then cl.main.state.sent else []
  untyped  : cl.typed = false → ClientMain.entered cl.main.trace = [] ∧ cl.main.state.pc = .waitSize
  started  : cl.up.stream.chains.map Chain.buffer = cl.net.state.started.map Prod.snd
  received : cl.reader.trace.flatten = cl.down.received
  pushed   : ClientMain.pushes cl.main.trace = cl.reader.state.queue_
  reading  : cl.reader.trace ≠ [] → cl.net.state.socket_ = .connected

theorem glued_new : ({} : Client mp Endpoint name).Glued where
  sends := rfl
  untyped _ := ⟨rfl, rfl⟩
  started := rfl
  received := rfl
  pushed := rfl
  reading hne := absurd rfl hne

theorem entered_pushes (msgs : List Message) : ClientMain.entered (msgs.map .push) = [] := by
  induction msgs with
  | nil => rfl
  | cons m msgs ih => exact ih

/-- **Every step keeps the parts together.** -/
theorem glued_step {hmp : mp.Lawful} {cl cl' : Client mp Endpoint name} {e : ClientEvent Endpoint}
    (h : cl.Glued) (hs : Stepped hmp cl e cl') : cl'.Glued := by
  cases hs with
  | typed htyped hnet =>
      obtain ⟨hentered, hpc⟩ := h.untyped htyped
      have hsends := h.sends
      rw [htyped, if_neg Bool.false_ne_true] at hsends
      exact {
        sends := by
          show ClientConnection.sends _ = if true = true then cl.main.state.sent else []
          rw [hnet.1, ClientConnection.sends_append, hsends, if_pos rfl,
            ClientMain.sent_run cl.main.run, hentered]
          rfl
        untyped := fun hfalse => absurd hfalse.symm Bool.false_ne_true
        started := by
          rw [@ClientConnection.started_sends mp Endpoint hmp _ _ [_] hnet.2]
          exact h.started
        received := h.received
        pushed := h.pushed
        reading := fun hne => ClientConnection.connected_run hmp hnet.2 (h.reading hne) }
  | @turned ch buf e main net htyped hturn hmain hnet =>
      exact {
        sends := by
          have hsends := h.sends
          rw [if_pos htyped] at hsends
          show ClientConnection.sends net.trace = if cl.typed then main.state.sent else []
          rw [if_pos htyped, hnet.1, ClientConnection.sends_append, hsends,
            ClientConnection.sends_map_send, ClientMain.sent_run cl.main.run,
            ClientMain.sent_run main.run, hmain.1, ClientMain.entered_append,
            ClientMain.requests_append]
          rfl
        untyped := by
          intro hfalse
          rw [htyped] at hfalse
          exact absurd hfalse.symm Bool.false_ne_true
        started := by
          rw [ClientConnection.started_sends hmp hnet.2]
          exact h.started
        received := h.received
        pushed := by
          rw [hmain.1, ClientMain.pushes_append, ClientMain.pushes_turn hturn, List.append_nil]
          exact h.pushed
        reading := fun hne => ClientConnection.connected_run hmp hnet.2 (h.reading hne) }
  | @network e net he hnet =>
      obtain ⟨more, hmore⟩ := ClientConnection.started_step hmp hnet.2.step_of_single
      exact {
        sends := by
          show ClientConnection.sends net.trace = _
          rw [hnet.1, ClientConnection.sends_concat_other he]
          exact h.sends
        untyped := h.untyped
        started := by
          show (cl.up.startAll _).stream.chains.map Chain.buffer = net.state.started.map Prod.snd
          rw [Pipe.startAll_buffers, h.started, ← hmore, List.drop_left, List.map_append]
        received := h.received
        pushed := h.pushed
        reading := fun hne => ClientConnection.connected_run hmp hnet.2 (h.reading hne) }
  | wrote hup =>
      obtain ⟨hstream, hrec⟩ := Pipe.transfer_cases hup
      exact {
        sends := h.sends
        untyped := h.untyped
        started := by rw [AsyncWrite.Stream.buffer_transfer hstream]; exact h.started
        received := h.received
        pushed := h.pushed
        reading := h.reading }
  | @read bytes down reader main msgs hconn hdown hreader hqueue hmain =>
      obtain ⟨hstream, hrec⟩ := Pipe.read_cases hdown
      have hstate := ClientMain.push_run hmain.2
      exact {
        sends := by
          show _ = if cl.typed then main.state.sent else []
          rw [hstate]
          exact h.sends
        untyped := by
          intro htyped
          obtain ⟨hentered, hpc⟩ := h.untyped htyped
          show ClientMain.entered main.trace = [] ∧ main.state.pc = .waitSize
          rw [hmain.1, ClientMain.entered_append, hentered, entered_pushes, hstate]
          exact ⟨rfl, hpc⟩
        started := h.started
        received := by
          show reader.trace.flatten = down.received
          rw [hreader.1, List.flatten_append, List.flatten_singleton, h.received, hrec]
        pushed := by
          show ClientMain.pushes main.trace = reader.state.queue_
          rw [hmain.1, ClientMain.pushes_append, ClientMain.pushes_map_push, h.pushed, hqueue]
        reading := fun _ => hconn }
  | readFailed => exact ⟨h.sends, h.untyped, h.started, h.received, h.pushed, h.reading⟩
  | exited _ => exact ⟨h.sends, h.untyped, h.started, h.received, h.pushed, h.reading⟩

end Client

end Quizzbot
