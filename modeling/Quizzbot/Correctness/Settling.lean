import Quizzbot.Correctness.Agreement
import Quizzbot.Correctness.Moves
import Quizzbot.Correctness.NoFault

/-!
# `Correctness.Settling` — nothing stays on its way for ever

As long as both ends of the connections of some clients do their part, what is on its way there can be taken
forward by a step (`goes_on`), and it cannot be taken forward for ever: whatever comes first, they come to rest
(`settle_run`). What has not been handled then are whole messages, in the buffers of readers that pull once for each
read: nothing else keeps a message from arriving.
-/

namespace Quizzbot

open AsyncWrite (Pipe)
open LabelledRun (Run Settles)
open PullParser (bytes)

variable {mp : Msgpack} {Endpoint : Type} {names : ConnId → Option CString}

namespace System

variable {hmp : mp.Lawful} {s : System mp Endpoint names} {t : List (Label Endpoint)} {cs : Finset ConnId}

/-! ## What can move -/

/-- The buffer of the server for a client, with all that may come. -/
theorem memory_bound (hsized : mp.Sized) (h : OrdinaryRun hmp t s) {c : ConnId} (hup : s.Up c) :
    (s.server.state.conns c).acc_packet_.length + (s.upward c).length < 2 ^ 32 := by
  obtain ⟨handled, waiting, hstarted, -, hbytes⟩ := uplink_run hsized h hup.program
  have hpackets : ∀ x ∈ waiting, x.2.length ≤ 261 := by
    intro x hx
    have hmem : x ∈ (s.clients c).net.state.started := by
      rw [hstarted]
      exact List.mem_append_right _ hx
    apply packet_length hsized ((ClientConnection.sent_run hmp (s.clients c).net.run).packed x hmem)
    apply (fitting_run hsized h).sends c
    have hsub := ClientConnection.started_sublist hmp (s.clients c).net.run
    exact hsub.subset (List.mem_append_left _ (List.mem_map_of_mem hmem))
  have hle := PullParser.bytes_length_le hpackets
  have hsub := (ClientConnection.started_sublist hmp (s.clients c).net.run).length_le
  have hsends := hup.client.sends
  rw [← hbytes, List.length_append] at hle
  rw [List.length_append, List.length_map, hstarted, List.length_append] at hsub
  omega

/-- A move of a client that can be made is a move of the system. -/
theorem move_of_client {c : ConnId} (hc : c ∈ cs) (hup : s.Up c) {e : ClientEvent Endpoint}
    {cl : Client mp Endpoint ((names c).getD [])} (h : (s.clients c).next hmp e = .ok (some cl))
    (hord : s.Ordinary (.client c e)) (he : (s.clients c).Moves e) :
    ∃ l s', s.Moving hmp cs l s' := by
  refine ⟨.client c e, s.setClient c cl, ⟨?_, hord⟩, .client hc he⟩
  unfold Step
  rw [next, if_pos hup.program, h]
  rfl

/-- What is posted can be started. -/
theorem moves_posted {c : ConnId} (hc : c ∈ cs) (hup : s.Up c)
    (h : (s.clients c).net.state.posted ≠ []) : ∃ l s', s.Moving hmp cs l s' := by
  obtain ⟨net?, hnet⟩ := ClientConnection.advance_total (s.clients c).net hmp (e := .runPosted)
    Bool.false_ne_true (fun _ he => by cases he)
  cases net? with
  | none =>
      unfold ClientConnection.advance at hnet
      rw [dif_pos (show (s.clients c).net.state.Enabled .runPosted from h)] at hnet
      split at hnet <;> cases hnet
  | some net =>
      have hcl : ∃ cl, (s.clients c).next hmp (.net .runPosted) = .ok (some cl) := by
        rw [Client.next, Client.network, if_pos ⟨hup.client.running, Bool.false_ne_true⟩, hnet]
        exact ⟨_, rfl⟩
      obtain ⟨cl, hcl⟩ := hcl
      exact move_of_client hc hup hcl trivial .posted

/-- What is left to be written can be written. -/
theorem moves_write {c : ConnId} (hc : c ∈ cs) (hup : s.Up c)
    (h : (s.clients c).up.stream.unsent ≠ []) : ∃ l s', s.Moving hmp cs l s' := by
  obtain ⟨i, n, hord, hsome⟩ := Pipe.exists_transfer h
  obtain ⟨up, hup'⟩ := Option.isSome_iff_exists.mp hsome
  have hcl : (s.clients c).next hmp (.write i n) = .ok (some { s.clients c with up := up }) := by
    rw [Client.next, if_pos hup.client.running, hup']
    rfl
  exact move_of_client hc hup hcl hord .write

/-- What is on the wire can be read: at most a buffer of it. -/
theorem take_pos {packet : Packet} (h : packet ≠ []) :
    0 < (packet.take 512).length ∧ (packet.take 512).length ≤ 512 := by
  have hpos := List.length_pos_iff.mpr h
  rw [List.length_take]
  omega

theorem moves_serverRead (hsized : mp.Sized) (h : OrdinaryRun hmp t s) {c : ConnId} (hc : c ∈ cs) (hup : s.Up c)
    (hwire : (s.clients c).up.inFlight ≠ []) : ∃ l s', s.Moving hmp cs l s' := by
  have hread := (s.clients c).up.exists_read 512
  obtain ⟨res, hres⟩ := handle_total (e := .read c ((s.clients c).up.inFlight.take 512)) hmp
    (parses_upward hsized h hup.program hread)
  have henabled : s.game.state.should_run = true ∧
      s.server.state.Enabled (.read c ((s.clients c).up.inFlight.take 512)) ∧
      s.Supplied (.read c ((s.clients c).up.inFlight.take 512)) :=
    ⟨hup.serving, ⟨hup.accepted, take_pos hwire⟩, fun _ => hread⟩
  have hstep : ∃ s', s.Step hmp (.server (.read c ((s.clients c).up.inFlight.take 512))) s' := by
    unfold Step
    rw [next, serverStep, dif_pos henabled]
    split
    · rename_i fault hfault
      rw [hres] at hfault; cases hfault
    · exact ⟨_, rfl⟩
  obtain ⟨s', hs'⟩ := hstep
  refine ⟨_, s', ⟨hs', ?_⟩, .serverRead hc⟩
  have hmemory := memory_bound hsized h hup
  show (s.server.state.conns c).acc_packet_.length + ((s.clients c).up.inFlight.take 512).length < 2 ^ 32
  rw [upward, List.length_append] at hmemory
  have hle := List.length_take_le' 512 (s.clients c).up.inFlight
  omega

theorem moves_serverWrite {c : ConnId} (hc : c ∈ cs) (hup : s.Up c)
    (h : (s.clients c).down.stream.unsent ≠ []) : ∃ l s', s.Moving hmp cs l s' := by
  obtain ⟨i, n, hord, hsome⟩ := Pipe.exists_transfer h
  obtain ⟨down, hdown⟩ := Option.isSome_iff_exists.mp hsome
  refine ⟨.serverWrite c i n, s.setClient c { s.clients c with down := down }, ⟨?_, hord⟩, .serverWrite hc⟩
  unfold Step
  rw [next, if_pos hup.serving, hdown]
  rfl

theorem moves_read (hsized : mp.Sized) (h : OrdinaryRun hmp t s) {c : ConnId} (hc : c ∈ cs) (hup : s.Up c)
    (hwire : (s.clients c).down.inFlight ≠ []) : ∃ l s', s.Moving hmp cs l s' := by
  obtain ⟨down, hdown⟩ := Option.isSome_iff_exists.mp ((s.clients c).down.exists_read 512)
  obtain ⟨res, hparse⟩ := parses_downward hsized h (Option.isSome_iff_exists.mpr ⟨down, hdown⟩)
  obtain ⟨reader, hreader⟩ := TcpClient.onRead_total hmp hparse
  have hreading : (s.clients c).Reading :=
    ⟨hup.client.running, ClientConnection.isConnected_iff.mpr hup.client.connected,
      by simp [hup.client.reading]⟩
  have hnext : ∃ cl, (s.clients c).next hmp (.read ((s.clients c).down.inFlight.take 512)) = .ok (some cl) := by
    rw [Client.next, Client.read, if_pos ⟨hreading, take_pos hwire⟩, hdown]
    dsimp only
    split
    · rename_i fault hfault
      rw [hreader] at hfault; cases hfault
    · exact ⟨_, rfl⟩
  obtain ⟨cl, hcl⟩ := hnext
  exact move_of_client hc hup hcl trivial .read

/-- A main thread that has messages in its queue can take a step; no key is pressed. -/
theorem moves_turn (hsized : mp.Sized) (h : OrdinaryRun hmp t s) {c : ConnId} (hc : c ∈ cs) (hup : s.Up c)
    (htyped : (s.clients c).typed = true) (hwaits : (s.clients c).main.state.waitsFor ≠ 0) :
    ∃ l s', s.Moving hmp cs l s' := by
  obtain ⟨hqueue, hended⟩ := ClientMain.waitsFor_pos hwaits
  have hord : s.Ordinary (.client c (.main (-1) (.error []))) := trivial
  obtain ⟨cl?, hcl⟩ := client_total hsized h hord
  cases cl? with
  | some cl => exact move_of_client hc hup hcl hord (.turn (by decide) hqueue)
  | none =>
      exfalso
      rw [Client.next, Client.turn, if_pos htyped] at hcl
      split at hcl
      · cases hcl
      · rename_i hturn
        exact hended (ClientMain.ended_of_turn hturn)
      · obtain ⟨net, -, hcl⟩ := bind_ok hcl
        cases hcl

/-! ## Rest -/

/-- Nothing of a client can move: what it has posted was started and written, its wires are empty, and so is its
    queue, unless its main thread has ended, or has no name yet. What has not been handled are whole messages in a
    reader's buffer. -/
structure Settled (s : System mp Endpoint names) (c : ConnId) : Prop where
  posted : (s.clients c).net.state.posted = []
  wires  : s.upward c = [] ∧ s.downward c = []
  queue  : (s.clients c).main.state.queue.queue_ = [] ∨ (s.clients c).main.state.Ended ∨
    (s.clients c).typed = false
  up     : ∃ handled waiting, (s.clients c).net.state.started = handled ++ waiting ∧
    parsedOn c s.server.trace = handled.map Prod.fst ∧ (s.server.state.conns c).acc_packet_ = bytes waiting
  down   : ∃ waiting, waiting <:+ writtenTo c s.server.trace ∧
    (writtenTo c s.server.trace).map Prod.fst = ClientMain.drained (s.clients c).main.trace ++
      ((s.clients c).main.state.queue.queue_ ++ waiting.map Prod.fst) ∧
    (s.clients c).reader.state.aggr_packet_ = bytes waiting

theorem settled_of_work (hsized : mp.Sized) (h : OrdinaryRun hmp t s) {c : ConnId} (hc : (names c).isSome)
    (hwork : ∀ i, (s.clients c).work i = 0) : s.Settled c := by
  have hup : s.upward c = [] := by
    rw [upward, List.length_eq_zero_iff.mp (hwork .upUnsent), List.length_eq_zero_iff.mp (hwork .upward)]
    rfl
  have hdown : s.downward c = [] := by
    rw [downward, List.length_eq_zero_iff.mp (hwork .downUnsent), List.length_eq_zero_iff.mp (hwork .downward)]
    rfl
  obtain ⟨handled, waiting, hstarted, hparsed, hbytes⟩ := uplink_run hsized h hc
  obtain ⟨coming, hcoming, hdrained, hbytes'⟩ := written_drained hsized h c
  rw [hup, List.append_nil] at hbytes
  rw [hdown, List.append_nil] at hbytes'
  have hqueue : (s.clients c).main.state.queue.queue_ = [] ∨ (s.clients c).main.state.Ended ∨
      (s.clients c).typed = false := by
    by_cases htyped : (s.clients c).typed = true
    · have hwaits : (if (s.clients c).typed then (s.clients c).main.state.waitsFor else 0) = 0 := hwork .queued
      rw [if_pos htyped] at hwaits
      exact (ClientMain.waitsFor_eq_zero_iff.mp hwaits).imp_right Or.inl
    · exact Or.inr (Or.inr (Bool.eq_false_iff.mpr htyped))
  exact ⟨List.length_eq_zero_iff.mp (hwork .posted), ⟨hup, hdown⟩, hqueue,
    ⟨handled, waiting, hstarted, hparsed, hbytes⟩, coming, hcoming, hdrained, hbytes'⟩

/-- Where a client is settled, no stage has anything. -/
theorem Settled.work {c : ConnId} (h : s.Settled c) (i : Stage) : (s.clients c).work i = 0 := by
  obtain ⟨hwire, hunsent⟩ := List.append_eq_nil_iff.mp h.wires.1
  obtain ⟨hwire', hunsent'⟩ := List.append_eq_nil_iff.mp h.wires.2
  cases i with
  | posted => exact List.length_eq_zero_iff.mpr h.posted
  | upUnsent => exact List.length_eq_zero_iff.mpr hunsent
  | upward => exact List.length_eq_zero_iff.mpr hwire
  | downUnsent => exact List.length_eq_zero_iff.mpr hunsent'
  | downward => exact List.length_eq_zero_iff.mpr hwire'
  | queued =>
      show (if (s.clients c).typed then _ else 0) = 0
      rcases h.queue with hqueue | hended | htyped
      · rw [ClientMain.waitsFor_eq_zero_iff.mpr (Or.inl hqueue), ite_self]
      · rw [ClientMain.waitsFor_eq_zero_iff.mpr (Or.inr hended), ite_self]
      · rw [htyped]
        rfl

/-- **Where something is on its way, something can move.** -/
theorem goes_on (hsized : mp.Sized) (h : OrdinaryRun hmp t s) (hup : ∀ c ∈ cs, s.Up c) :
    (∀ c ∈ cs, s.Settled c) ∨ ∃ l s', s.Moving hmp cs l s' := by
  by_cases hall : ∀ c ∈ cs, ∀ i, (s.clients c).work i = 0
  · left
    intro c hc
    exact settled_of_work hsized h (hup c hc).program (hall c hc)
  · right
    push Not at hall
    obtain ⟨c, hc, i, hi⟩ := hall
    have hne : ∀ {α : Type} {xs : List α}, xs.length ≠ 0 → xs ≠ [] :=
      fun h => List.length_pos_iff.mp (Nat.pos_of_ne_zero h)
    cases i with
    | posted => exact moves_posted hc (hup c hc) (hne hi)
    | upUnsent => exact moves_write hc (hup c hc) (hne hi)
    | upward => exact moves_serverRead hsized h hc (hup c hc) (hne hi)
    | downUnsent => exact moves_serverWrite hc (hup c hc) (hne hi)
    | downward => exact moves_read hsized h hc (hup c hc) (hne hi)
    | queued =>
        obtain ⟨htyped, hwaits⟩ := ite_ne_right_iff.mp hi
        exact moves_turn hsized h hc (hup c hc) htyped hwaits

/-- **Where all is settled, nothing can move.** -/
theorem not_moving (hup : ∀ c ∈ cs, s.Up c) (h : ∀ c ∈ cs, s.Settled c) (l : Label Endpoint)
    (s' : System mp Endpoint names) : ¬ s.Moving hmp cs l s' := by
  rintro ⟨hstep, hmoves⟩
  exact LabelledRun.not_forward (fun c hc => (h c hc).work) (forward_step hup hstep.1 hmoves)

/-- What moves keep: the state is one that ordinary steps lead to, and the connections are up. -/
theorem moving_keeps {s s' : System mp Endpoint names} {l : Label Endpoint}
    (h : (∃ t, OrdinaryRun hmp t s) ∧ ∀ c ∈ cs, s.Up c) (hmove : s.Moving hmp cs l s') :
    (∃ t, OrdinaryRun hmp t s') ∧ ∀ c ∈ cs, s'.Up c := by
  obtain ⟨⟨t, hrun⟩, hup⟩ := h
  exact ⟨⟨t ++ [l], .tail hrun hmove.1⟩, up_step hup (step_cases hmove.1.1) hmove.2⟩

/-- **Nothing stays on its way for ever.** From every state that ordinary steps lead to, for any clients whose
    connections are up: whatever they and the server do to take forward what is on its way, they come to a state
    where it has arrived, but for whole messages that wait in the buffer of a reader; and they can go on exactly
    until then. -/
theorem settle_run (hsized : mp.Sized) (h : OrdinaryRun hmp t s) (hup : ∀ c ∈ cs, s.Up c) :
    Settles (Moving hmp cs) (fun s' => ∀ c ∈ cs, s'.Settled c) s ∧
    ∀ moves s', Run (Moving hmp cs) s moves s' →
      ((∀ c ∈ cs, s'.Settled c) ↔ ∀ l s'', ¬ s'.Moving hmp cs l s'') := by
  constructor
  · apply LabelledRun.settles_of_measure (LabelledRun.forward_wellFounded cs)
      (fun s : System mp Endpoint names => fun c => (s.clients c).work)
      (I := fun s => (∃ t, OrdinaryRun hmp t s) ∧ ∀ c ∈ cs, s.Up c)
    · intro s l s' hkept hmove
      exact moving_keeps hkept hmove
    · rintro s ⟨⟨t, hrun⟩, hup⟩
      exact goes_on hsized hrun hup
    · rintro s l s' ⟨-, hup⟩ ⟨hstep, hmoves⟩
      exact forward_step hup hstep.1 hmoves
    · exact ⟨⟨t, h⟩, hup⟩
  · intro moves s' hmoves
    obtain ⟨⟨t', hrun⟩, hup'⟩ := hmoves.invariant
      (I := fun s => (∃ t, OrdinaryRun hmp t s) ∧ ∀ c ∈ cs, s.Up c)
      (fun _ _ _ hkept hmove => moving_keeps hkept hmove) ⟨⟨t, h⟩, hup⟩
    constructor
    · exact not_moving hup'
    · intro hstuck
      have hgoes : (∀ c ∈ cs, s'.Settled c) ∨ ∃ l s'', s'.Moving hmp cs l s'' := goes_on hsized hrun hup'
      rcases hgoes with hsettled | ⟨l, s'', hmove⟩
      · exact hsettled
      · exact absurd hmove (hstuck l s'')

/-- What `a` has entered, of which the server has the first bytes, is taken forward until both are at rest. -/
theorem settle_run_speaking : ∃ s s' : System Msgpack.reference Nat twoNames,
    OrdinaryRun Msgpack.reference_lawful speaking s ∧
      ∃ t, Run (Moving Msgpack.reference_lawful {0, 1}) s t s' ∧
        s'.Settled 0 ∧ s'.Settled 1 := by
  have hend : ∃ s : System Msgpack.reference Nat twoNames, OrdinaryRun Msgpack.reference_lawful speaking s ∧
      (s.Up 0 ∧ s.Up 1) := exists_run (by decide +kernel)
  obtain ⟨s, hrun, h0, h1⟩ := hend
  have hup : ∀ c ∈ ({0, 1} : Finset ConnId), s.Up c := by
    intro c hc
    rcases Finset.mem_insert.mp hc with rfl | hc
    · exact h0
    · rw [Finset.mem_singleton.mp hc]
      exact h1
  obtain ⟨t, s', hrun', hsettled⟩ := (settle_run Msgpack.reference_sized hrun hup).1.exists_run
  exact ⟨s, s', hrun, t, hrun', hsettled 0 (by decide), hsettled 1 (by decide)⟩

end System

end Quizzbot
