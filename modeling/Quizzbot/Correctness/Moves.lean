import Quizzbot.Correctness.Channels
import Quizzbot.Lib.Settling

/-!
# `Correctness.Moves` — what is on its way, and the steps that take it forward

What is on its way at a client passes through six stages: posted, to be written, on the wire to the server, and back
to be written by the server, on the wire from there, and in the queue (`Client.work`). Each step that takes a
part of it forward takes from one stage, and leaves those in front of it alone, at that client and at all others
(`forward_step`); and it leaves the connections up (`up_step`).
-/

namespace Quizzbot

open AsyncWrite (Pipe)
open LabelledRun (Process Under Forward)

variable {mp : Msgpack} {Endpoint : Type} {names : ConnId → Option CString}

/-! ## The server -/

theorem ReadOn.reads_eq {sv sv' : Server} {c : ConnId} {rest : Packet} (h : ReadOn sv c rest sv') (c' : ConnId) :
    (sv'.conns c').reads = (sv.conns c').reads := by
  by_cases hc : c' = c
  · rw [hc]
    exact h.reads
  · rw [h.others c' hc]

/-- A read leaves every connection with the reads it had. -/
theorem reads_of_read (hmp : mp.Lawful) {sv sv' : Server} {r : Record} {c : ConnId} {chunk : Packet}
    (h : sv.Step mp r sv') (he : r.event = .read c chunk) (c' : ConnId) :
    (sv'.conns c').reads = (sv.conns c').reads := by
  cases step_cases hmp h with
  | accepted he' _ _ _ _ | acceptFailed he' _ _ _ _ | readFailed he' _ _ _ _ => rw [he] at he'; cases he'
  | silent _ _ _ hs _ _ _ => exact hs.reads_eq c'
  | received _ _ _ hs _ _ _ => exact hs.reads_eq c'

/-! ## The clients -/

namespace ClientMain

/-- The main thread has left `main`. -/
def Ended (s : ClientMain) : Prop := s.pc = .refused ∨ s.pc = .left

/-- How many steps of the main thread the messages in its queue wait for. -/
def waitsFor (s : ClientMain) : Nat :=
  if s.queue.queue_ = [] then 0
  else
    match s.pc with
    | .waitEmpty | .guiEmpty => 1
    | .waitSize | .guiSize => 2
    | .keyboard => 3
    | .refused | .left => 0

theorem waitsFor_pos {s : ClientMain} (h : s.waitsFor ≠ 0) : s.queue.queue_ ≠ [] ∧ ¬ s.Ended := by
  unfold waitsFor at h
  split at h
  · exact absurd rfl h
  · rename_i hqueue
    refine ⟨hqueue, ?_⟩
    rintro (hpc | hpc) <;> exact h (by rw [hpc])

theorem waitsFor_eq_zero_iff {s : ClientMain} : s.waitsFor = 0 ↔ s.queue.queue_ = [] ∨ s.Ended := by
  constructor
  · intro h
    unfold waitsFor at h
    split at h
    · exact Or.inl ‹_›
    · right
      unfold Ended
      cases hpc : s.pc with
      | refused => exact Or.inl rfl
      | left => exact Or.inr rfl
      | waitEmpty | guiEmpty | waitSize | guiSize | keyboard => rw [hpc] at h; cases h
  · intro h
    by_contra hne
    obtain ⟨hqueue, hended⟩ := waitsFor_pos hne
    exact h.elim hqueue hended

/-- A step of the main thread brings it closer to its queue, or takes the queue. -/
theorem waitsFor_turn {s s' : ClientMain} {ch : Int} {buf : Except CString CString} {e : MainEvent}
    (h : s.turn mp ch buf = .ok (some (s', e))) (hqueue : s.queue.queue_ ≠ []) : s'.waitsFor < s.waitsFor := by
  have hsize : s.queue.size ≠ 0 := fun hzero => hqueue (List.length_eq_zero_iff.mp hzero)
  cases turn_step h with
  | push _ => exact absurd rfl ((turn_event h).1 _)
  | waitSize hpc | guiSize hpc => simp [waitsFor, hpc, hqueue, hsize]
  | waitEmpty hpc | guiEmpty hpc _ => simp [waitsFor, hpc, hqueue, EventQueue.empty]
  | @keyboard _ _ gui _ hpc _ => cases hrun : gui.should_run_ <;> simp [waitsFor, hpc, hqueue, guiNext, hrun]

/-- It can take one until it ends. -/
theorem ended_of_turn {s : ClientMain} {ch : Int} {buf : Except CString CString}
    (h : s.turn mp ch buf = .ok none) : s.Ended := by
  unfold turn at h
  cases hpc : s.pc with
  | refused => exact Or.inl hpc
  | left => exact Or.inr hpc
  | waitSize | waitEmpty | guiSize => simp only [hpc] at h; cases h
  | guiEmpty | keyboard =>
      simp only [hpc] at h
      obtain ⟨_, -, h⟩ := bind_ok h
      cases h

/-- Without the Enter key nothing is entered. -/
theorem entered_of_other_key {s s' : ClientMain} {ch : Int} {buf : Except CString CString} {e : MainEvent}
    (h : s.turn mp ch buf = .ok (some (s', e))) (hch : ch ≠ 10) : entered [e] = [] :=
  List.eq_nil_iff_forall_not_mem.mpr fun line hline => hch (entered_turn h line hline).1

end ClientMain

/-- The stages that messages pass through, from the client that sends them to the main thread of one that they
    are sent to. -/
inductive Stage where
  | posted
  | upUnsent
  | upward
  | downUnsent
  | downward
  | queued
deriving DecidableEq

namespace Stage

def index : Stage → Nat
  | posted => 0
  | upUnsent => 1
  | upward => 2
  | downUnsent => 3
  | downward => 4
  | queued => 5

theorem index_injective : Function.Injective index := by
  intro i j h
  cases i <;> cases j <;> first | rfl | cases h

theorem index_lt (i : Stage) : i.index < 6 := by cases i <;> decide

instance : LinearOrder Stage := LinearOrder.lift' index index_injective

instance : Finite Stage :=
  Finite.of_injective (fun i => (⟨i.index, i.index_lt⟩ : Fin 6)) fun _ _ h => index_injective (Fin.mk.inj h)

theorem not_lt_posted {i : Stage} : ¬ i < posted := Nat.not_lt_zero i.index

end Stage

namespace Client

variable {name : CString}

/-- Steps of the client that take forward what is on its way there: a posted handler, a part of a write, a read, and
    a step of a main thread that has messages in its queue and does not read Enter. -/
inductive Moves (cl : Client mp Endpoint name) : ClientEvent Endpoint → Prop
  | posted : Moves cl (.net .runPosted)
  | write {i n} : Moves cl (.write i n)
  | read {chunk} : Moves cl (.read chunk)
  | turn {ch buf} (hch : ch ≠ 10) (hqueue : cl.main.state.queue.queue_ ≠ []) : Moves cl (.main ch buf)

/-- How much is on its way at a client. Before the name is typed, the main thread is in `cin >> name`. -/
def work (cl : Client mp Endpoint name) : Stage → Nat
  | .posted => cl.net.state.posted.length
  | .upUnsent => cl.up.stream.unsent.length
  | .upward => cl.up.inFlight.length
  | .downUnsent => cl.down.stream.unsent.length
  | .downward => cl.down.inFlight.length
  | .queued => if cl.typed then cl.main.state.waitsFor else 0

/-- The client does its part. The last field bounds what the server can have to buffer for it. -/
structure Up (cl : Client mp Endpoint name) : Prop where
  running   : cl.running = true
  connected : cl.net.state.socket_ = .connected
  reading   : cl.readFailed = false
  sends     : (ClientConnection.sends cl.net.trace).length < 2 ^ 23

instance (cl : Client mp Endpoint name) : Decidable cl.Up :=
  decidable_of_iff ((cl.running = true ∧ cl.net.state.isConnected) ∧ cl.readFailed = false ∧
    (ClientConnection.sends cl.net.trace).length < 2 ^ 23) (by
      rw [ClientConnection.isConnected_iff]
      exact ⟨fun h => ⟨h.1.1, h.1.2, h.2.1, h.2.2⟩,
        fun h => ⟨⟨h.running, h.connected⟩, h.reading, h.sends⟩⟩)

/-- A step of the main thread that enters nothing leaves the connection alone. -/
theorem net_of_other_key {cl : Client mp Endpoint name} {ch : Int} {buf : Except CString CString}
    {main' : ClientMain} {e : MainEvent} {net : Process (ClientConnection.Step mp) ({} : ClientConnection Endpoint)}
    (hch : ch ≠ 10) (hturn : cl.main.state.turn mp ch buf = .ok (some (main', e)))
    (hnet : cl.net.Extends ((ClientMain.requests name (ClientMain.entered [e])).map .send) net) :
    net.trace = cl.net.trace ∧ net.state = cl.net.state := by
  rw [ClientMain.entered_of_other_key hturn hch] at hnet
  exact ⟨hnet.1.trans (List.append_nil _), hnet.2.eq_of_nil⟩

theorem up_moves {hmp : mp.Lawful} {cl cl' : Client mp Endpoint name} {e : ClientEvent Endpoint} (h : cl.Up)
    (hs : Stepped hmp cl e cl') (hm : cl.Moves e) : cl'.Up := by
  cases hm with
  | posted =>
      cases hs with
      | network he hnet =>
          refine ⟨h.running, ClientConnection.connected_run hmp hnet.2 h.connected, h.reading, ?_⟩
          rw [hnet.1, ClientConnection.sends_concat_other he]
          exact h.sends
  | write => cases hs with | wrote _ => exact ⟨h.running, h.connected, h.reading, h.sends⟩
  | read => cases hs with | read _ _ _ _ _ => exact ⟨h.running, h.connected, h.reading, h.sends⟩
  | turn hch _ =>
      cases hs with
      | turned _ hturn _ hnet =>
          obtain ⟨htrace, hstate⟩ := net_of_other_key hch hturn hnet
          exact ⟨h.running, by rw [hstate]; exact h.connected, h.reading,
            by rw [htrace]; exact h.sends⟩

/-- **A move of a client** takes from one stage, and leaves those in front of it alone. -/
theorem work_moves {hmp : mp.Lawful} {cl cl' : Client mp Endpoint name} {e : ClientEvent Endpoint}
    (hs : Stepped hmp cl e cl') (hchunk : ∀ chunk, e = .read chunk → 0 < chunk.length) (hm : cl.Moves e) :
    ∃ i, (∀ j < i, cl'.work j = cl.work j) ∧ cl'.work i < cl.work i := by
  cases hm with
  | posted =>
      cases hs with
      | network he hnet =>
          obtain ⟨cmd, rest, packet, hposted, -, hrest, -⟩ :=
            ClientConnection.runPosted_step hnet.2.step_of_single
          refine ⟨.posted, fun j hj => absurd hj Stage.not_lt_posted, ?_⟩
          show _ < cl.net.state.posted.length
          rw [hposted]
          show List.length _ < _
          rw [hrest]
          exact Nat.lt_succ_self _
  | write =>
      cases hs with
      | wrote hup =>
          refine ⟨.upUnsent, ?_, AsyncWrite.Stream.unsent_transfer (Pipe.transfer_cases hup).1⟩
          intro j hj
          cases j with
          | posted => rfl
          | upUnsent | upward | downUnsent | downward | queued => exact absurd hj (by decide)
  | @read chunk =>
      cases hs with
      | read _ hdown _ _ _ =>
          have hstream := (Pipe.read_cases hdown).1
          refine ⟨.downward, ?_, ?_⟩
          · intro j hj
            cases j with
            | posted | upUnsent | upward => rfl
            | downUnsent => exact congrArg (fun s => (AsyncWrite.Stream.unsent s).length) hstream
            | downward | queued => exact absurd hj (by decide)
          · show _ < cl.down.inFlight.length
            rw [Pipe.inFlight_read hdown, List.length_append]
            exact Nat.lt_add_of_pos_left (hchunk _ rfl)
  | turn hch hqueue =>
      cases hs with
      | turned htyped hturn _ hnet =>
          obtain ⟨-, hstate⟩ := net_of_other_key hch hturn hnet
          refine ⟨.queued, ?_, ?_⟩
          · intro j hj
            cases j with
            | posted => exact congrArg (fun net => (ClientConnection.posted net).length) hstate
            | upUnsent | upward | downUnsent | downward => rfl
            | queued => exact absurd hj (by decide)
          · show (if cl.typed then _ else 0) < if cl.typed then _ else 0
            rw [if_pos htyped, if_pos htyped]
            exact ClientMain.waitsFor_turn hturn hqueue

end Client

namespace System

variable {hmp : mp.Lawful} {s s' : System mp Endpoint names} {t : List (Label Endpoint)} {l : Label Endpoint}
  {cs : Finset ConnId}

/-- Both ends of a connection do their part. -/
structure Up (s : System mp Endpoint names) (c : ConnId) : Prop where
  program  : (names c).isSome
  serving  : s.game.state.should_run = true
  accepted : 0 < (s.server.state.conns c).reads
  client   : (s.clients c).Up

instance (s : System mp Endpoint names) (c : ConnId) : Decidable (s.Up c) :=
  decidable_of_iff (((names c).isSome ∧ s.game.state.should_run = true) ∧
    0 < (s.server.state.conns c).reads ∧ (s.clients c).Up)
    ⟨fun h => ⟨h.1.1, h.1.2, h.2.1, h.2.2⟩, fun h => ⟨⟨h.program, h.serving⟩, h.accepted, h.client⟩⟩

/-- The steps that take forward what is on its way at the clients `cs`. -/
inductive Moves (cs : Finset ConnId) (s : System mp Endpoint names) : Label Endpoint → Prop
  | client {c e} (hc : c ∈ cs) (he : (s.clients c).Moves e) : Moves cs s (.client c e)
  | serverRead {c chunk} (hc : c ∈ cs) : Moves cs s (.server (.read c chunk))
  | serverWrite {c i n} (hc : c ∈ cs) : Moves cs s (.serverWrite c i n)

/-- Those steps, if they are ordinary. -/
abbrev Moving (hmp : mp.Lawful) (cs : Finset ConnId) (s : System mp Endpoint names) (l : Label Endpoint)
    (s' : System mp Endpoint names) : Prop :=
  Under (Under (Step hmp) Ordinary) (Moves cs) s l s'

/-! ## Moves go forward -/

theorem up_step (hup : ∀ c ∈ cs, s.Up c) (hs : Stepped hmp s l s') (hm : s.Moves cs l) : ∀ c ∈ cs, s'.Up c := by
  cases hm with
  | serverRead hc₀ =>
      cases hs with
      | @served _ r server _ he _ _ hserver hgame =>
          intro c hc
          obtain ⟨hprogram, hserving, haccepted, hclient⟩ := hup c hc
          refine ⟨hprogram, (GameLoop.should_run_pushes hgame.2).trans hserving, ?_,
            hclient.running, hclient.connected, hclient.reading, hclient.sends⟩
          show 0 < (server.state.conns c).reads
          rw [reads_of_read hmp hserver.2.step_of_single he]
          exact haccepted
  | @serverWrite c₀ _ _ hc₀ =>
      cases hs with
      | @wrote _ _ _ down _ _ =>
          have hone : c₀ ∈ cs → { s.clients c₀ with down := down }.Up := by
            intro hc
            obtain ⟨hrunning, hconnected, hreading, hsends⟩ := (hup c₀ hc).client
            exact ⟨hrunning, hconnected, hreading, hsends⟩
          have hclients := forall_setClient (P := fun c cl => c ∈ cs → cl.Up)
            (fun c hc => (hup c hc).client) hone
          intro c hc
          exact ⟨(hup c hc).program, (hup c hc).serving, (hup c hc).accepted, hclients c hc⟩
  | client hc₀ he =>
      cases hs with
      | client _ hcl =>
          have hclients := forall_setClient (P := fun c cl => c ∈ cs → cl.Up) (fun c hc => (hup c hc).client)
            fun hc => Client.up_moves (hup _ hc).client hcl he
          intro c hc
          exact ⟨(hup c hc).program, (hup c hc).serving, (hup c hc).accepted, hclients c hc⟩

/-- A change at one client goes forward if that one does. -/
theorem forward_setClient {c : ConnId} (hc : c ∈ cs) {cl : Client mp Endpoint ((names c).getD [])} {i : Stage}
    (hbefore : ∀ j < i, cl.work j = (s.clients c).work j) (hless : cl.work i < (s.clients c).work i) :
    Forward cs (fun c => (s.clients c).work) fun c' => ((s.setClient c cl).clients c').work := by
  refine LabelledRun.forward_of_one hc (i := i) ?_ ?_ ?_
  · intro c' hne j _
    rw [setClient_of_ne s hne]
  · rw [setClient_self]
    exact hbefore
  · rw [setClient_self]
    exact hless

/-- A client reads at least a byte. -/
theorem read_pos {c : ConnId} {chunk : Packet} (h : s.Step hmp (.client c (.read chunk)) s') :
    0 < chunk.length := by
  unfold Step at h
  rw [next] at h
  split at h
  · obtain ⟨cl?, hcl, h⟩ := bind_ok h
    rw [Client.next, Client.read] at hcl
    split at hcl
    · rename_i hreading
      exact hreading.2.1
    · cases hcl
      cases h
  · cases h

/-- **Every move goes forward.** -/
theorem forward_step (hup : ∀ c ∈ cs, s.Up c) (hstep : s.Step hmp l s') (hm : s.Moves cs l) :
    Forward cs (fun c => (s.clients c).work) fun c => (s'.clients c).work := by
  have hs := step_cases hstep
  cases hm with
  | client hc he =>
      cases hs with
      | client _ hcl =>
          obtain ⟨i, hbefore, hless⟩ := Client.work_moves hcl (by rintro chunk rfl; exact read_pos hstep) he
          exact forward_setClient hc hbefore hless
  | serverWrite hc =>
      cases hs with
      | wrote _ hdown =>
          refine forward_setClient (i := .downUnsent) hc ?_
            (AsyncWrite.Stream.unsent_transfer (Pipe.transfer_cases hdown).1)
          intro j hj
          cases j with
          | posted | upUnsent | upward => rfl
          | downUnsent | downward | queued => exact absurd hj (by decide)
  | @serverRead c chunk hc =>
      cases hs with
      | @served _ r _ _ he _ hsupplied hserver _ =>
          have henabled : s.server.state.Enabled r.event := hserver.2.step_of_single.1
          rw [he] at henabled
          obtain ⟨up, hread⟩ := Option.isSome_iff_exists.mp (hsupplied (hup c hc).program)
          have hself := Client.served_up_read he hread
          refine LabelledRun.forward_of_one hc (i := .upward) ?_ ?_ ?_
          · intro c' hne j hj
            have hother : ((s.clients c').served c' r).up = (s.clients c').up :=
              Client.served_up_other fun bytes hbytes => hne (Event.read.inj (hbytes.symm.trans he)).1
            cases j with
            | posted => rfl
            | upUnsent => exact congrArg (fun up => (AsyncWrite.Stream.unsent (Pipe.stream up)).length) hother
            | upward => exact congrArg (fun up => (Pipe.inFlight up).length) hother
            | downUnsent | downward | queued => exact absurd hj (by decide)
          · intro j hj
            cases j with
            | posted => rfl
            | upUnsent =>
                show (AsyncWrite.Stream.unsent (Pipe.stream _)).length = _
                rw [hself, (Pipe.read_cases hread).1]
                rfl
            | upward | downUnsent | downward | queued => exact absurd hj (by decide)
          · show (Pipe.inFlight _).length < (s.clients c).up.inFlight.length
            rw [hself, Pipe.inFlight_read hread, List.length_append]
            exact Nat.lt_add_of_pos_left henabled.2.1

end System

end Quizzbot
