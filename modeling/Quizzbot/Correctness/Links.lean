import Quizzbot.Client.Correctness.Process
import Quizzbot.Server.Correctness.Game
import Quizzbot.Server.Correctness.Loop
import Quizzbot.System

/-!
# `Correctness.Links` — how the components of the system fit together

`System.Stepped` says once what a step of the system can do. From it what ties the components together in
every run (`linked_run`): the bytes that the server has read on a connection are those its client's socket has
given away, the packets it has sent are in the buffers of its writes, and the game queue was pushed what the
handlers handed over. In runs of ordinary steps the buffers are also written in order (`framed_run`).
-/

namespace Quizzbot

open AsyncWrite (Pipe Chain Framed)
open LabelledRun (Run Process Under)

variable {mp : Msgpack} {Endpoint : Type} {names : ConnId → Option CString}

/-! ## Histories -/

/-- The messages written to `c`, with their packets. -/
def writtenTo (c : ConnId) (t : List Record) : List (Message × Packet) :=
  t.flatMap fun r => sentTo c r.effects

theorem writtenTo_append (c : ConnId) (t t' : List Record) :
    writtenTo c (t ++ t') = writtenTo c t ++ writtenTo c t' := List.flatMap_append

theorem writtenTo_single (c : ConnId) (r : Record) : writtenTo c [r] = sentTo c r.effects :=
  List.flatMap_singleton ..

theorem gameQueue_append (t t' : List Record) : gameQueue (t ++ t') = gameQueue t ++ gameQueue t' :=
  List.flatMap_append

namespace GameLoop

theorem pushAll_extends (g : Process Step {}) (hrun : g.state.should_run = true) (events : List GameEvent) :
    g.Extends (events.map .push) (pushAll g hrun events) := by
  induction events generalizing g with
  | nil => exact g.extends_refl
  | cons event events ih =>
      have hfirst := g.extends_extend (l := .push event) (.push hrun)
      exact hfirst.trans (ih (g.extend (.push hrun)) hrun)

/-- Pushes do not stop the main thread. -/
theorem should_run_pushes {g g' : GameLoop} {events : List GameEvent}
    (h : Run Step g (events.map .push) g') : g'.should_run = g.should_run := by
  generalize ht : events.map LoopEvent.push = t at h
  induction h generalizing events with
  | refl => rfl
  | tail _ hs ih =>
      obtain ⟨early, last, rfl, hearly, hlast⟩ := List.map_eq_append_iff.mp ht
      obtain ⟨event, rfl, rfl⟩ := List.map_eq_singleton_iff.mp hlast
      rw [← ih hearly]
      cases hs with
      | push _ => rfl
      | turn hturn => exact absurd hturn (by unfold turn; split <;> simp)

theorem pushes_map_push (events : List GameEvent) : pushes (events.map .push) = events := by
  induction events with
  | nil => rfl
  | cons event events ih => exact congrArg (event :: ·) ih

/-- The main thread itself pushes nothing. -/
theorem pushes_turn {g g' : GameLoop} {e : LoopEvent} (h : g.turn = some (g', e)) : pushes [e] = [] := by
  unfold turn at h
  cases hpc : g.pc with
  | join => simp only [hpc, reduceCtorEq] at h
  | check | size | empty | sleep => simp only [hpc] at h; cases h; rfl

end GameLoop

/-! ## What a step does -/

namespace System

/-- **What a step of the system can do.** -/
inductive Stepped (hmp : mp.Lawful) (s : System mp Endpoint names) :
    Label Endpoint → System mp Endpoint names → Prop
  | served {e r server game} (he : r.event = e) (hrun : s.game.state.should_run = true)
      (hsupplied : s.Supplied e) (hserver : s.server.Extends [r] server)
      (hgame : s.game.Extends ((pushed r.effects).map .push) game) :
      Stepped hmp s (.server e)
        { server := server, game := game, clients := fun c => (s.clients c).served c r }
  | looped {e game} (hgame : s.game.Extends [e] game) (hpushes : GameLoop.pushes [e] = []) :
      Stepped hmp s .game { s with game := game }
  | signalled {game} (hgame : s.game.Extends [.sigint] game) : Stepped hmp s .sigint { s with game := game }
  | wrote {c i n down} (hrun : s.game.state.should_run = true)
      (hdown : (s.clients c).down.transfer i n = some down) :
      Stepped hmp s (.serverWrite c i n) (s.setClient c { s.clients c with down := down })
  | client {c e cl} (hc : (names c).isSome) (hcl : Client.Stepped hmp (s.clients c) e cl) :
      Stepped hmp s (.client c e) (s.setClient c cl)

theorem step_cases {hmp : mp.Lawful} {s s' : System mp Endpoint names} {l : Label Endpoint}
    (h : s.Step hmp l s') : Stepped hmp s l s' := by
  unfold Step at h
  cases l with
  | server e =>
      rw [next, serverStep] at h
      split at h
      · rename_i henabled
        split at h
        · cases h
        · rename_i server r hhandle
          cases h
          exact .served (Server.handle_event hhandle) henabled.1 henabled.2.2
            (s.server.extends_extend _) (GameLoop.pushAll_extends ..)
      · cases h
  | game =>
      rw [next, gameStep, Except.ok.injEq] at h
      split at h
      · cases h
      · rename_i x hturn
        cases h
        exact .looped (s.game.extends_extend _) (GameLoop.pushes_turn hturn)
  | sigint =>
      rw [next, sigintStep, Except.ok.injEq] at h
      split at h
      · cases h
        exact .signalled (s.game.extends_extend _)
      · cases h
  | serverWrite c i n =>
      rw [next] at h
      split at h
      · rename_i hrun
        rw [Except.ok.injEq, Option.map_eq_some_iff] at h
        obtain ⟨down, hdown, rfl⟩ := h
        exact .wrote hrun hdown
      · cases h
  | client c e =>
      rw [next] at h
      split at h
      · rename_i hc
        obtain ⟨cl?, hcl, h⟩ := bind_ok h
        cases cl? with
        | none => cases h
        | some cl =>
            cases h
            exact .client hc (Client.next_cases hcl)
      · cases h

@[simp] theorem setClient_self (s : System mp Endpoint names) (c : ConnId)
    (cl : Client mp Endpoint ((names c).getD [])) : (s.setClient c cl).clients c = cl :=
  Function.update_self ..

theorem setClient_of_ne (s : System mp Endpoint names) {c c' : ConnId} (h : c' ≠ c)
    (cl : Client mp Endpoint ((names c).getD [])) : (s.setClient c cl).clients c' = s.clients c' :=
  Function.update_of_ne h ..

/-- What holds of the client that changes and of those that do not holds of all. -/
theorem forall_setClient_of_ne {P : ∀ c, Client mp Endpoint ((names c).getD []) → Prop}
    {s : System mp Endpoint names} {c : ConnId} {cl : Client mp Endpoint ((names c).getD [])}
    (h : ∀ c', c' ≠ c → P c' (s.clients c')) (hcl : P c cl) : ∀ c', P c' ((s.setClient c cl).clients c') := by
  intro c'
  by_cases hc : c' = c
  · subst hc; rw [setClient_self]; exact hcl
  · rw [setClient_of_ne s hc]; exact h c' hc

theorem forall_setClient {P : ∀ c, Client mp Endpoint ((names c).getD []) → Prop}
    {s : System mp Endpoint names} {c : ConnId} {cl : Client mp Endpoint ((names c).getD [])}
    (h : ∀ c, P c (s.clients c)) (hcl : P c cl) : ∀ c', P c' ((s.setClient c cl).clients c') :=
  forall_setClient_of_ne (fun c' _ => h c') hcl

end System

/-! ## The glue -/

/-- **What ties a client to its connection**: `t` is the history of the server. -/
structure Client.Linked {name : CString} (cl : Client mp Endpoint name) (c : ConnId) (program : Prop)
    (t : List Record) : Prop where
  glued   : cl.Glued
  taken   : program → (readsOn c t).flatten = cl.up.received
  written : cl.down.stream.chains.map Chain.buffer = (writtenTo c t).map Prod.snd

namespace Client

variable {name : CString} {cl cl' : Client mp Endpoint name} {c : ConnId} {program : Prop}
  {t : List Record}

/-- Steps of the client itself leave the connection as the server sees it alone. -/
theorem Stepped.connection {hmp : mp.Lawful} {e : ClientEvent Endpoint} (h : Stepped hmp cl e cl') :
    cl'.up.received = cl.up.received ∧ cl'.down.stream = cl.down.stream := by
  cases h with
  | network _ _ => exact ⟨Pipe.startAll_received .., rfl⟩
  | wrote hup => exact ⟨(Pipe.transfer_cases hup).2, rfl⟩
  | read _ hdown _ _ _ => exact ⟨rfl, (Pipe.read_cases hdown).1⟩
  | typed _ _ | turned _ _ _ _ | readFailed | exited _ => exact ⟨rfl, rfl⟩

theorem linked_client {hmp : mp.Lawful} {e : ClientEvent Endpoint} (h : cl.Linked c program t)
    (hs : Stepped hmp cl e cl') : cl'.Linked c program t := by
  obtain ⟨hup, hdown⟩ := hs.connection
  exact ⟨glued_step h.glued hs, fun hp => by rw [hup]; exact h.taken hp, by rw [hdown]; exact h.written⟩

/-- Progress of a write of the server. -/
theorem linked_serverWrite {i n : Nat} {down : Pipe UInt8} (h : cl.Linked c program t)
    (hdown : cl.down.transfer i n = some down) : { cl with down := down }.Linked c program t := by
  obtain ⟨hstream, hreceived⟩ := Pipe.transfer_cases hdown
  constructor
  · have hglued := h.glued
    exact ⟨hglued.sends, hglued.untyped, hglued.started, by rw [hreceived]; exact hglued.received,
      hglued.pushed, hglued.reading⟩
  · exact h.taken
  · rw [AsyncWrite.Stream.buffer_transfer hstream]
    exact h.written

/-- What a read of the server takes off the connections: its bytes from its own, nothing from the others. -/
theorem served_up_read {r : Record} {bytes : Packet} {up : Pipe UInt8} (he : r.event = .read c bytes)
    (hread : cl.up.read bytes = some up) : (cl.served c r).up = up := by
  unfold served
  simp [he, hread]

theorem served_up_other {r : Record} (he : ∀ bytes, r.event ≠ .read c bytes) : (cl.served c r).up = cl.up := by
  unfold served
  cases hevent : r.event with
  | read c' bytes =>
      have hne : c' ≠ c := by
        rintro rfl
        exact he bytes hevent
      simp [hne]
  | accept | acceptReset | acceptError | readError => rfl

/-- What the server takes off the connection. -/
theorem served_up {r : Record}
    (hsupplied : ∀ bytes, r.event = .read c bytes → (cl.up.read bytes).isSome) :
    (cl.served c r).up.stream = cl.up.stream ∧
      (cl.served c r).up.received = cl.up.received ++ (readsOn c [r]).flatten := by
  by_cases hread : ∃ bytes, r.event = .read c bytes
  · obtain ⟨bytes, he⟩ := hread
    obtain ⟨up, hup⟩ := Option.isSome_iff_exists.mp (hsupplied bytes he)
    obtain ⟨hstream, hreceived⟩ := Pipe.read_cases hup
    rw [served_up_read he hup, hstream, hreceived]
    simp [readsOn, he]
  · rw [served_up_other fun bytes he => hread ⟨bytes, he⟩]
    have hnone : readsOn c [r] = [] := by
      unfold readsOn
      cases he : r.event with
      | read c' bytes =>
          have hne : c' ≠ c := by
            rintro rfl
            exact hread ⟨bytes, he⟩
          simp [he, hne]
      | accept | acceptReset | acceptError | readError => simp [he]
    rw [hnone]
    exact ⟨rfl, (List.append_nil _).symm⟩

/-- A server that reads from others takes nothing from this connection. -/
theorem served_down (cl : Client mp Endpoint name) (c : ConnId) (r : Record) :
    (cl.served c r).down.received = cl.down.received ∧
      (cl.served c r).down.stream.chains.map Chain.buffer
        = cl.down.stream.chains.map Chain.buffer ++ (writtenTo c [r]).map Prod.snd := by
  rw [writtenTo_single]
  exact ⟨Pipe.startAll_received .., Pipe.startAll_buffers ..⟩

/-- Whatever is read, the buffers of the client's writes stay. -/
theorem served_stream (cl : Client mp Endpoint name) (c : ConnId) (r : Record) :
    (cl.served c r).up.stream = cl.up.stream := by
  unfold served
  cases r.event with
  | read c' bytes =>
      by_cases hc : c' = c
      · subst hc
        cases hup : cl.up.read bytes with
        | none => simp [hup]
        | some up => simp [hup, (Pipe.read_cases hup).1]
      · simp [hc]
  | accept | acceptReset | acceptError | readError => rfl

theorem linked_served {r : Record} (h : cl.Linked c program t)
    (hsupplied : program → ∀ bytes, r.event = .read c bytes → (cl.up.read bytes).isSome) :
    (cl.served c r).Linked c program (t ++ [r]) := by
  obtain ⟨hreceived, hwritten⟩ := served_down cl c r
  have hglued := h.glued
  constructor
  · exact ⟨hglued.sends, hglued.untyped, by rw [served_stream]; exact hglued.started,
      by rw [hreceived]; exact hglued.received, hglued.pushed, hglued.reading⟩
  · intro hp
    rw [readsOn_append, List.flatten_append, h.taken hp, (served_up (hsupplied hp)).2]
  · rw [hwritten, h.written, writtenTo_append, List.map_append]

end Client

namespace System

/-- **What ties the system together.** -/
structure Linked (s : System mp Endpoint names) : Prop where
  clients : ∀ c, (s.clients c).Linked c (names c).isSome s.server.trace
  game    : GameLoop.pushes s.game.trace = gameQueue s.server.trace

theorem linked_new : ({} : System mp Endpoint names).Linked where
  clients _ := ⟨Client.glued_new, fun _ => rfl, rfl⟩
  game := rfl

/-- **Every step keeps the system together.** -/
theorem linked_step {hmp : mp.Lawful} {s s' : System mp Endpoint names} {l : Label Endpoint}
    (h : s.Linked) (hs : Stepped hmp s l s') : s'.Linked := by
  cases hs with
  | @served e r server game he hrun hsupplied hserver hgame =>
      constructor
      · intro c
        show ((s.clients c).served c r).Linked c _ server.trace
        rw [hserver.1]
        apply Client.linked_served (h.clients c)
        intro hp bytes hread
        rw [hread] at he
        rw [← he] at hsupplied
        exact hsupplied hp
      · show GameLoop.pushes game.trace = gameQueue server.trace
        rw [hgame.1, hserver.1, GameLoop.pushes_append, GameLoop.pushes_map_push, h.game,
          gameQueue_append]
        congr 1
        exact (List.flatMap_singleton ..).symm
  | @looped e game hgame hpushes =>
      constructor
      · exact h.clients
      · rw [hgame.1, GameLoop.pushes_append, hpushes, List.append_nil]
        exact h.game
  | signalled hgame =>
      constructor
      · exact h.clients
      · rw [hgame.1, GameLoop.pushes_append]
        exact (List.append_nil _).trans h.game
  | wrote _ hdown =>
      constructor
      · exact forall_setClient (P := fun c cl => cl.Linked c (names c).isSome s.server.trace) h.clients
          (Client.linked_serverWrite (h.clients _) hdown)
      · exact h.game
  | client hc hcl =>
      constructor
      · exact forall_setClient (P := fun c cl => cl.Linked c (names c).isSome s.server.trace) h.clients
          (Client.linked_client (h.clients _) hcl)
      · exact h.game

theorem linked_run {hmp : mp.Lawful} {s : System mp Endpoint names} {t : List (Label Endpoint)}
    (h : Run (Step hmp) {} t s) : s.Linked := by
  apply h.invariant (I := Linked)
  · intro s l s' hs hstep
    exact linked_step hs (step_cases hstep)
  · exact linked_new

/-! ## Histories only grow -/

/-- The components of `s'` have gone on from those of `s`. -/
structure Grows (s s' : System mp Endpoint names) : Prop where
  server : ∃ t, s.server.Extends t s'.server
  net    : ∀ c, ∃ t, (s.clients c).net.Extends t (s'.clients c).net
  main   : ∀ c, ∃ t, (s.clients c).main.Extends t (s'.clients c).main

theorem grows_refl (s : System mp Endpoint names) : s.Grows s where
  server := ⟨[], s.server.extends_refl⟩
  net c := ⟨[], (s.clients c).net.extends_refl⟩
  main c := ⟨[], (s.clients c).main.extends_refl⟩

theorem Grows.trans {s s' s'' : System mp Endpoint names} (h : s.Grows s') (h' : s'.Grows s'') :
    s.Grows s'' := by
  constructor
  · obtain ⟨t, ht⟩ := h.server
    obtain ⟨t', ht'⟩ := h'.server
    exact ⟨t ++ t', ht.trans ht'⟩
  · intro c
    obtain ⟨t, ht⟩ := h.net c
    obtain ⟨t', ht'⟩ := h'.net c
    exact ⟨t ++ t', ht.trans ht'⟩
  · intro c
    obtain ⟨t, ht⟩ := h.main c
    obtain ⟨t', ht'⟩ := h'.main c
    exact ⟨t ++ t', ht.trans ht'⟩

/-- A change at one client lets all go on if that one does. -/
theorem grows_setClient (s : System mp Endpoint names) {c : ConnId}
    {cl : Client mp Endpoint ((names c).getD [])} (hnet : ∃ t, (s.clients c).net.Extends t cl.net)
    (hmain : ∃ t, (s.clients c).main.Extends t cl.main) : s.Grows (s.setClient c cl) where
  server := ⟨[], s.server.extends_refl⟩
  net := forall_setClient (P := fun c cl => ∃ t, (s.clients c).net.Extends t cl.net)
    (fun c => ⟨[], (s.clients c).net.extends_refl⟩) hnet
  main := forall_setClient (P := fun c cl => ∃ t, (s.clients c).main.Extends t cl.main)
    (fun c => ⟨[], (s.clients c).main.extends_refl⟩) hmain

theorem grows_step {hmp : mp.Lawful} {s s' : System mp Endpoint names} {l : Label Endpoint}
    (hs : Stepped hmp s l s') : s.Grows s' := by
  cases hs with
  | served he hrun hsupplied hserver hgame =>
      exact ⟨⟨_, hserver⟩, fun c => ⟨[], (s.clients c).net.extends_refl⟩,
        fun c => ⟨[], (s.clients c).main.extends_refl⟩⟩
  | looped _ _ => exact ⟨s.grows_refl.server, s.grows_refl.net, s.grows_refl.main⟩
  | signalled _ => exact ⟨s.grows_refl.server, s.grows_refl.net, s.grows_refl.main⟩
  | wrote _ _ => exact s.grows_setClient (s.grows_refl.net _) (s.grows_refl.main _)
  | @client c e cl hc hcl =>
      cases hcl with
      | typed _ hnet => exact s.grows_setClient ⟨_, hnet⟩ (s.grows_refl.main c)
      | turned _ _ hmain hnet => exact s.grows_setClient ⟨_, hnet⟩ ⟨_, hmain⟩
      | network _ hnet => exact s.grows_setClient ⟨_, hnet⟩ (s.grows_refl.main c)
      | read _ _ _ _ hmain => exact s.grows_setClient (s.grows_refl.net c) ⟨_, hmain⟩
      | wrote _ | readFailed | exited _ => exact s.grows_setClient (s.grows_refl.net c) (s.grows_refl.main c)

theorem grows_run {hmp : mp.Lawful} {s s' : System mp Endpoint names} {t : List (Label Endpoint)}
    (h : Run (Step hmp) s t s') : s.Grows s' := by
  induction h with
  | refl => exact s.grows_refl
  | tail _ hs ih => exact ih.trans (grows_step (step_cases hs))

/-! ## Writes in order -/

/-- The bytes on both ways of a connection are those of the buffers, in order. -/
def InOrder {name : CString} (cl : Client mp Endpoint name) : Prop :=
  Framed cl.up.stream ∧ Framed cl.down.stream

theorem framed_step {hmp : mp.Lawful} {s s' : System mp Endpoint names} {l : Label Endpoint}
    (h : ∀ c, InOrder (s.clients c)) (hs : Stepped hmp s l s') (hord : s.Ordinary l) :
    ∀ c, InOrder (s'.clients c) := by
  have hone : ∀ {c} {cl : Client mp Endpoint ((names c).getD [])}, InOrder cl →
      ∀ c', InOrder ((s.setClient c cl).clients c') :=
    fun hcl => forall_setClient (P := fun _ cl => InOrder cl) h hcl
  cases hs with
  | @served e r server game he hrun hsupplied hserver hgame =>
      intro c
      refine ⟨?_, Pipe.startAll_framed (h c).2 _⟩
      rw [Client.served_stream]
      exact (h c).1
  | looped _ _ => exact h
  | signalled _ => exact h
  | wrote _ hdown =>
      exact hone ⟨(h _).1, AsyncWrite.framed_transfer (h _).2 (Pipe.transfer_cases hdown).1 hord⟩
  | @client c e cl hc hcl =>
      apply hone
      cases hcl with
      | typed _ _ | turned _ _ _ _ | readFailed | exited _ => exact h c
      | network _ _ => exact ⟨Pipe.startAll_framed (h c).1 _, (h c).2⟩
      | wrote hup =>
          exact ⟨AsyncWrite.framed_transfer (h c).1 (Pipe.transfer_cases hup).1 hord, (h c).2⟩
      | read _ hdown _ _ _ =>
          refine ⟨(h c).1, ?_⟩
          rw [(Pipe.read_cases hdown).1]
          exact (h c).2

theorem framed_run {hmp : mp.Lawful} {s : System mp Endpoint names} {t : List (Label Endpoint)}
    (h : Run (Under (Step hmp) Ordinary) {} t s) : ∀ c, InOrder (s.clients c) := by
  apply h.invariant (I := fun s => ∀ c, InOrder (s.clients c))
  · intro s l s' hs hstep
    exact framed_step hs (step_cases hstep.1) hstep.2
  · intro c
    exact ⟨⟨rfl, List.Pairwise.nil⟩, ⟨rfl, List.Pairwise.nil⟩⟩

end System

end Quizzbot
