import Quizzbot.Correctness.Players
import Quizzbot.Lib.Broadcast

/-!
# `Correctness.Refinement` — the system as an ordered broadcast

Threads, buffers and frames put aside, the system is an ordered broadcast of texts: to enter a text is to submit
it, the acknowledgement makes a connection a member, the room's dispatch puts the texts into the log, and the
clients are shown what they take from their queues behind the acknowledgement. Each step of the system is
followed by steps of the broadcast (`refines_step`), so every ordinary run is one of it (`refines_run`), and its laws
hold of the screens (`screens_agree`).
-/

namespace Quizzbot

open Broadcast (State)
open HexText (ascii)
open LabelledRun (Run Under)

variable {mp : Msgpack} {Endpoint : Type} {names : ConnId → Option CString}

/-- The texts among messages. -/
def texts (ms : List Message) : List Message := ms.filter (·.messageType = .message)

theorem texts_append (ms ms' : List Message) : texts (ms ++ ms') = texts ms ++ texts ms' :=
  List.filter_append ..

/-! ## The room -/

/-- What a step of the server does to the room: nothing, one more name, or one more text. -/
inductive RoomStep (name name' : ConnId → CString) (r : Record) : Prop
  | quiet (hchats : chats [r] = []) (hname : name' = name)
  | joined (c : ConnId) (hc : name c = []) (hc' : name' c ≠ []) (hothers : ∀ c', c' ≠ c → name' c' = name c')
      (hchats : chats [r] = [])
  | spoke (c : ConnId) (m : Message) (hc : name c ≠ []) (hm : m.messageType = .message)
      (hchats : chats [r] = [(c, m)]) (hname : name' = name)

theorem room_step (hmp : mp.Lawful) {s s' : Server} {r : Record} (h : s.Step mp r s') :
    RoomStep s.name s'.name r := by
  rcases (step_cases hmp h).view with ⟨hp, -, hname⟩ | ⟨c, bytes, m, he, hp, hrname, hdisp⟩
  · exact .quiet (by simp [chats, hp]) hname
  · have hconn : r.event.conn = c := by rw [he]; rfl
    have hchats : chats [r] = if s.name c ≠ [] ∧ m.messageType = .message then [(c, m)] else [] := by
      by_cases hne : s.name c ≠ [] ∧ m.messageType = .message <;> simp [chats, hp, hrname, hconn, hne]
    generalize r.effects = effects at hdisp
    generalize s'.name = name' at hdisp ⊢
    cases hdisp with
    | ignored hname _ | refused hname _ _ _ =>
        exact .quiet (by rw [hchats, if_neg (fun hne => hne.1 hname)]) rfl
    | @joined n _ hname _ hne _ _ _ =>
        refine .joined c hname (by rwa [Function.update_self]) ?_ ?_
        · intro c' hc'
          exact Function.update_of_ne hc' ..
        · rw [hchats, if_neg (fun hne => hne.1 hname)]
    | relayed hname hm _ _ => exact .spoke c m hname hm (by rw [hchats, if_pos ⟨hname, hm⟩]) rfl
    | noted hname hm _ _ => exact .quiet (by rw [hchats, if_neg (fun hne => hm hne.2)]) rfl

/-- The log is the chat, the members are the connections with names, and their feeds are what is written to them
    behind the acknowledgement. -/
structure RefinesServer (s : Server) (t : List Record) (a : State ConnId Message) : Prop where
  log    : a.log = chats t
  joined : ∀ c, (a.joined c).isSome ↔ s.name c ≠ []
  feed   : ∀ c, s.name c ≠ [] → (a.feed c).map Prod.snd = ClientMain.afterAck ((writtenTo c t).map Prod.fst)

/-- An acknowledgement has been written to a connection with a name. -/
theorem ack_written (hmp : mp.Lawful) {s : Server} {t : List Record}
    (h : Run (Server.Step mp) Server.init t s) {c : ConnId} (hc : s.name c ≠ []) :
    ∃ m ∈ (writtenTo c t).map Prod.fst, m.messageType = .joinAck := by
  obtain ⟨early, r, late, rfl, hack, -⟩ := afterAck_written hmp h hc
  refine ⟨.ofData .joinAckMessage, ?_, rfl⟩
  rw [← List.singleton_append (l := late), writtenTo_append, writtenTo_append, writtenTo_single,
    List.map_append, List.map_append, sentTo_single hack.sent]
  exact List.mem_append_right _ (List.mem_append_left _ (List.mem_singleton.mpr rfl))

/-- The feed of a connection that had a name grows by the text of the step. -/
theorem feed_written (hmp : mp.Lawful) {s s' : Server} {t : List Record} {r : Record}
    (hrun : Run (Server.Step mp) Server.init t s) (hs : s.Step mp r s') {c : ConnId} (hc : s.name c ≠ []) :
    ClientMain.afterAck ((writtenTo c (t ++ [r])).map Prod.fst)
      = ClientMain.afterAck ((writtenTo c t).map Prod.fst)
        ++ ((chats [r]).filter fun x => x.1 ≠ c).map Prod.snd := by
  rw [writtenTo_append, List.map_append, ClientMain.afterAck_concat (ack_written hmp hrun hc),
    written_named hmp (Server.run_inv hmp hrun) hs hc]

section
variable {s s' : Server} {t : List Record} {r : Record} {a : State ConnId Message}

theorem RefinesServer.quiet (hmp : mp.Lawful) (hrun : Run (Server.Step mp) Server.init t s)
    (hs : s.Step mp r s') (h : RefinesServer s t a) (hchats : chats [r] = []) (hname : s'.name = s.name) :
    RefinesServer s' (t ++ [r]) a := by
  constructor
  · rw [chats_append, hchats, List.append_nil, h.log]
  · intro c
    rw [hname]
    exact h.joined c
  · intro c hc
    rw [hname] at hc
    rw [feed_written hmp hrun hs hc, hchats, h.feed c hc]
    exact (List.append_nil _).symm

/-- The acknowledgement makes a member, whose feed is empty. -/
theorem RefinesServer.join (hmp : mp.Lawful) (hrun : Run (Server.Step mp) Server.init t s)
    (hs : s.Step mp r s') (h : RefinesServer s t a) {c : ConnId} (hc : s.name c = []) (hc' : s'.name c ≠ [])
    (hothers : ∀ c', c' ≠ c → s'.name c' = s.name c') (hchats : chats [r] = []) :
    a.joined c = none ∧ RefinesServer s' (t ++ [r])
      { a with joined := Function.update a.joined c (some a.log.length) } := by
  have hnone : a.joined c = none := by
    rw [← Option.not_isSome_iff_eq_none, h.joined c]
    exact not_not.mpr hc
  refine ⟨hnone, ?_, ?_, ?_⟩
  · rw [chats_append, hchats, List.append_nil]
    exact h.log
  · intro c'
    show (Function.update a.joined c (some a.log.length) c').isSome ↔ _
    by_cases hcc : c' = c
    · subst hcc
      rw [Function.update_self]
      exact iff_of_true rfl hc'
    · rw [Function.update_of_ne hcc, hothers c' hcc]
      exact h.joined c'
  · intro c' hname
    rw [Broadcast.feed_join hnone]
    by_cases hcc : c' = c
    · subst hcc
      obtain ⟨-, -, hsent⟩ := joined_step hmp hs hc hname
      rw [writtenTo_append, writtenTo_single, List.map_append, sentTo_single hsent,
        ClientMain.afterAck_append (no_ack_before hmp hrun hc) rfl, State.feed, hnone]
      rfl
    · rw [hothers c' hcc] at hname
      rw [feed_written hmp hrun hs hname, hchats, h.feed c' hname]
      exact (List.append_nil _).symm

/-- A text that is dispatched is in the feeds of the others. -/
theorem RefinesServer.order (hmp : mp.Lawful) (hrun : Run (Server.Step mp) Server.init t s)
    (hs : s.Step mp r s') (h : RefinesServer s t a) (hinv : Broadcast.Inv a) {c : ConnId} {m : Message}
    (hchats : chats [r] = [(c, m)]) (hname : s'.name = s.name) (pending : ConnId → List Message) :
    RefinesServer s' (t ++ [r]) { a with log := a.log ++ [(c, m)], pending := pending } := by
  constructor
  · rw [chats_append, hchats]
    exact congrArg (· ++ [(c, m)]) h.log
  · intro c'
    rw [hname]
    exact h.joined c'
  · intro c' hc'
    rw [hname] at hc'
    rw [Broadcast.feed_order hinv, feed_written hmp hrun hs hc', hchats, List.map_append, h.feed c' hc']
    have hjoined := (h.joined c').mpr hc'
    by_cases hcc : c = c' <;> simp [hcc, hjoined]

end

/-! ## The screens -/

namespace ClientMain

/-- How far a client has come in its feed: it has taken the first `seen` messages behind the acknowledgement, and
    shows them from `skipped` on. -/
structure Cursor (t : List MainEvent) (s : ClientMain) (skipped seen : Nat) : Prop where
  silent : ¬ Playing s → seen = 0
  taken  : Playing s → seen = (afterAck (drained t)).length
  shown  : Playing s → received t = lines ((afterAck (drained t)).drop skipped)

theorem cursor_new (name : CString) (skipped : Nat) : Cursor [] (init name) skipped 0 := by
  have hwaiting : ¬ Playing (init name) := fun h => h.1 (Or.inl rfl)
  exact ⟨fun _ => rfl, fun h => absurd h hwaiting, fun h => absurd h hwaiting⟩

section
variable {t t' : List MainEvent} {s s' : ClientMain} {skipped seen : Nat}

/-- Steps that take nothing leave the client where it is. -/
theorem Cursor.stay (h : Cursor t s skipped seen) (hplaying : Playing s' ↔ Playing s)
    (hdrained : drained t' = drained t) (hreceived : received t' = received t) :
    Cursor t' s' skipped seen := by
  constructor
  · rw [hplaying]; exact h.silent
  · rw [hplaying, hdrained]; exact h.taken
  · rw [hplaying, hdrained, hreceived]; exact h.shown

theorem drained_map_push (t : List MainEvent) (msgs : List Message) :
    drained (t ++ msgs.map .push) = drained t ∧ received (t ++ msgs.map .push) = received t := by
  unfold drained received
  rw [List.flatMap_append, List.flatMap_append]
  induction msgs with
  | nil => exact ⟨List.append_nil _, List.append_nil _⟩
  | cons m msgs ih => exact ih

/-- Only what it takes brings a client into the loop of its GUI. -/
theorem playing_step {e : MainEvent} (hs : Step mp s e s') (he : ∀ batch written, e ≠ .empty batch written) :
    Playing s' ↔ Playing s := by
  cases hs with
  | push _ => exact Iff.rfl
  | waitSize hpc | guiSize hpc => by_cases hn : s.queue.size = 0 <;> simp [Playing, Waiting, hpc, hn]
  | waitEmpty _ | guiEmpty _ _ => exact absurd rfl (he _ _)
  | keyboard hpc _ =>
      unfold Playing Waiting guiNext
      rw [hpc]
      dsimp only
      split <;> simp

/-- **A step of the main thread** skips what came with the acknowledgement, or shows what it takes. -/
theorem cursor_step (hmp : mp.Lawful) {name : CString} {e : MainEvent} (hrun : Run (Step mp) (init name) t s)
    (h : Cursor t s skipped seen) (hle : skipped ≤ seen) (hs : Step mp s e s') :
    (seen = 0 ∧ ∃ k, Cursor (t ++ [e]) s' k k) ∨ ∃ k, Cursor (t ++ [e]) s' skipped (seen + k) := by
  by_cases he : ∀ batch written, e ≠ .empty batch written
  · have hsame := drained_concat_other (t := t) he
    exact Or.inr ⟨0, h.stay (playing_step hs he) hsame.1 hsame.2⟩
  · cases hs with
    | push _ | waitSize _ | guiSize _ | keyboard _ _ => exact absurd (by simp) he
    | waitEmpty hpc =>
        have hwaiting : ¬ Playing s := fun hplaying => hplaying.1 (Or.inr hpc)
        have hnone := ((phase_run hrun).waiting (Or.inr hpc)).1
        refine Or.inl ⟨h.silent hwaiting, ?_⟩
        by_cases hplaying : Playing { s with pc := waitBatch s.queue.empty.1, queue := s.queue.empty.2 }
        · refine ⟨_, fun hnot => absurd hplaying hnot, fun _ => rfl, fun _ => ?_⟩
          rw [List.drop_length, (drained_concat_empty t _ _).2, hnone]
          rfl
        · exact ⟨0, fun _ => rfl, fun hp => absurd hp hplaying, fun hp => absurd hp hplaying⟩
    | guiEmpty hpc hgui =>
        have hplaying : Playing s := by simp [Playing, Waiting, hpc]
        have hack := (phase_run hrun).playing hplaying.1 hplaying.2
        refine Or.inr ⟨s.queue.empty.1.length, fun hnot => ?_, fun _ => ?_, fun _ => ?_⟩
        · exact absurd (by simp [Playing, Waiting]) hnot
        · rw [(drained_concat_empty t _ _).1, afterAck_concat hack, List.length_append, h.taken hplaying]
        · rw [(drained_concat_empty t _ _).1, (drained_concat_empty t _ _).2, afterAck_concat hack,
            List.drop_append_of_le_length (h.taken hplaying ▸ hle), lines_append, ← h.shown hplaying,
            gui_of_guiBatch hmp (received_queue hrun) hgui]
          show _ ++ (s.gui.chat ++ lines s.queue.empty.1).drop s.gui.chat.length = _
          rw [List.drop_left]

end

end ClientMain

/-- A client that neither sends nor takes anything. -/
structure Client.Idles {name : CString} (cl cl' : Client mp Endpoint name) : Prop where
  sent   : cl'.main.state.sent = cl.main.state.sent
  cursor : ∀ skipped seen, ClientMain.Cursor cl.main.trace cl.main.state skipped seen →
    ClientMain.Cursor cl'.main.trace cl'.main.state skipped seen

theorem Client.idles_of_main {name : CString} {cl cl' : Client mp Endpoint name} (h : cl'.main = cl.main) :
    cl.Idles cl' := by
  refine ⟨by rw [h], fun skipped seen hcursor => ?_⟩
  rw [h]
  exact hcursor

/-- What is pushed on the queue of a client is not taken yet. -/
theorem Client.idles_of_pushes {name : CString} {cl cl' : Client mp Endpoint name} {msgs : List Message}
    (h : cl.main.Extends (msgs.map .push) cl'.main) : cl.Idles cl' := by
  have hstate := ClientMain.push_run h.2
  obtain ⟨hdrained, hreceived⟩ := ClientMain.drained_map_push cl.main.trace msgs
  rw [← h.1] at hdrained hreceived
  refine ⟨by rw [hstate], fun skipped seen hcursor => ?_⟩
  exact hcursor.stay (by rw [hstate]; exact Iff.rfl) hdrained hreceived

namespace System

variable {hmp : mp.Lawful} {s s' : System mp Endpoint names} {t : List (Label Endpoint)}
  {a : State ConnId Message}

/-- What the server has dispatched of a player is a prefix of what was typed there. -/
theorem said_prefix (hsized : mp.Sized) (h : OrdinaryRun hmp t s) {c : ConnId} (hc : (names c).isSome)
    (hname : s.server.state.name c ≠ []) :
    ((chats s.server.trace).filter (·.1 = c)).map Prod.snd <+: texts (s.clients c).main.state.sent := by
  obtain ⟨n, hn⟩ := Option.isSome_iff_exists.mp hc
  have hdefault : (names c).getD [] = n := by rw [hn]; rfl
  obtain ⟨handled, waiting, -, hrequests, -, -, hchats⟩ := player_run hsized h hn hname
  rw [ClientMain.sent_run (s.clients c).main.run,
    congrArg (ClientMain.requests · (ClientMain.entered (s.clients c).main.trace)) hdefault, hrequests, hchats,
    ← List.singleton_append, texts_append, texts_append]
  exact List.prefix_append _ _

/-- A client has not come further than its feed goes. -/
theorem cursor_le (hsized : mp.Sized) (h : OrdinaryRun hmp t s)
    (ha : RefinesServer s.server.state s.server.trace a) {c : ConnId} {skipped seen : Nat}
    (hcursor : ClientMain.Cursor (s.clients c).main.trace (s.clients c).main.state skipped seen) :
    seen ≤ (a.feed c).length := by
  by_cases hplaying : s.Playing c
  · obtain ⟨waiting, -, hwritten, -⟩ := written_drained hsized h c
    have hdrained := (ClientMain.phase_run (s.clients c).main.run).playing hplaying.1 hplaying.2
    rw [hcursor.taken hplaying, ← List.length_map (f := Prod.snd), ha.feed c (named_of_playing hsized h hplaying),
      hwritten, ClientMain.afterAck_concat hdrained, List.length_append]
    exact Nat.le_add_right _ _
  · rw [hcursor.silent hplaying]
    exact Nat.zero_le _

/-! ## The simulation -/

/-- The broadcast that the system is: its members are the connections with names, its messages the texts. -/
structure Refines (s : System mp Endpoint names) (a : State ConnId Message) : Prop where
  server    : RefinesServer s.server.state s.server.trace a
  submitted : ∀ c, (names c).isSome → texts (s.clients c).main.state.sent = a.said c ++ a.pending c
  foreign   : ∀ c, ¬ (names c).isSome → a.pending c = []
  cursor    : ∀ c, ClientMain.Cursor (s.clients c).main.trace (s.clients c).main.state (a.skipped c) (a.seen c)

theorem refines_new : Refines ({} : System mp Endpoint names) {} where
  server := by
    refine ⟨rfl, fun c => ?_, fun c hc => absurd rfl hc⟩
    exact iff_of_false Bool.false_ne_true (not_not.mpr rfl)
  submitted _ _ := rfl
  foreign _ _ := rfl
  cursor _ := ClientMain.cursor_new _ 0

/-- Steps that the server does not take, and in which all clients are idle. -/
theorem Refines.stay (h : s.Refines a) (hserver : s'.server = s.server)
    (hclients : ∀ c, (s.clients c).Idles (s'.clients c)) : s'.Refines a where
  server := by rw [hserver]; exact h.server
  submitted c hc := by rw [(hclients c).sent]; exact h.submitted c hc
  foreign := h.foreign
  cursor c := (hclients c).cursor _ _ (h.cursor c)

/-- A client submits texts, and goes on in its feed. -/
theorem Refines.move (h : s.Refines a) {c : ConnId} {cl : Client mp Endpoint ((names c).getD [])}
    (hc : (names c).isSome) {ms : List Message} {skipped seen : Nat}
    (hsent : texts cl.main.state.sent = texts (s.clients c).main.state.sent ++ ms)
    (hcursor : ClientMain.Cursor cl.main.trace cl.main.state skipped seen) :
    (s.setClient c cl).Refines { a with
      pending := Function.update a.pending c (a.pending c ++ ms)
      skipped := Function.update a.skipped c skipped
      seen := Function.update a.seen c seen } where
  server := ⟨h.server.log, h.server.joined, h.server.feed⟩
  submitted := by
    apply forall_setClient_of_ne (P := fun c' cl' => (names c').isSome → texts cl'.main.state.sent
      = a.said c' ++ Function.update a.pending c (a.pending c ++ ms) c')
    · intro c' hcc hc'
      rw [Function.update_of_ne hcc]
      exact h.submitted c' hc'
    · intro _
      rw [Function.update_self, hsent, h.submitted c hc, List.append_assoc]
  foreign := by
    intro c' hc'
    have hcc : c' ≠ c := by
      rintro rfl
      exact hc' hc
    show Function.update a.pending c _ c' = []
    rw [Function.update_of_ne hcc]
    exact h.foreign c' hc'
  cursor := by
    apply forall_setClient_of_ne (P := fun c' cl' => ClientMain.Cursor cl'.main.trace cl'.main.state
      (Function.update a.skipped c skipped c') (Function.update a.seen c seen c'))
    · intro c' hcc
      rw [Function.update_of_ne hcc, Function.update_of_ne hcc]
      exact h.cursor c'
    · rw [Function.update_self, Function.update_self]
      exact hcursor

/-- The log has a text more. -/
theorem ordered_refines (hsized : mp.Sized) (h : s.Refines a) (hinv : Broadcast.Inv a)
    {t' : List (Label Endpoint)} (hrun' : OrdinaryRun hmp t' s') {r : Record} {c : ConnId} {m : Message}
    (hmain : ∀ c, (s'.clients c).main = (s.clients c).main) (hserver : s.server.Extends [r] s'.server)
    (hc : s.server.state.name c ≠ []) (hchats : chats [r] = [(c, m)])
    (hname : s'.server.state.name = s.server.state.name) :
    ∃ ops a', Run Broadcast.Step a ops a' ∧ s'.Refines a' := by
  have hjoined := (h.server.joined c).mpr hc
  have hstep := hserver.2.step_of_single
  -- whatever becomes of what waits, the server is refined
  have hordered : ∀ pending, RefinesServer s'.server.state s'.server.trace
      { a with log := a.log ++ [(c, m)], pending := pending } := by
    intro pending
    rw [hserver.1]
    exact h.server.order hmp s.server.run hstep hinv hchats hname pending
  have hcursor : ∀ c, ClientMain.Cursor (s'.clients c).main.trace (s'.clients c).main.state
      (a.skipped c) (a.seen c) := by
    intro c'
    rw [hmain]
    exact h.cursor c'
  by_cases hprogram : (names c).isSome
  · -- the text is the first of those that wait
    have hprefix := said_prefix hsized hrun' hprogram (by rw [hname]; exact hc)
    have hsubmitted := h.submitted c hprogram
    rw [hmain, hserver.1, chats_append, hchats, List.filter_append, List.map_append, ← h.server.log,
      hsubmitted, State.said] at hprefix
    obtain ⟨rest, hrest⟩ := (List.prefix_append_right_inj _).mp hprefix
    have hpending : a.pending c = m :: rest := by rw [← hrest]; simp
    refine ⟨_, _, .single (.order hjoined hpending), hordered _, ?_, ?_, hcursor⟩
    · intro c' hc'
      rw [hmain, h.submitted c' hc', Broadcast.said_order]
      show _ = _ ++ Function.update a.pending c rest c'
      by_cases hcc : c' = c
      · subst hcc
        rw [if_pos rfl, Function.update_self, List.append_assoc, hpending]
        rfl
      · rw [if_neg (Ne.symm hcc), Function.update_of_ne hcc, List.append_nil]
    · intro c' hc'
      show Function.update a.pending c rest c' = []
      have hcc : c' ≠ c := by
        rintro rfl
        exact hc' hprogram
      rw [Function.update_of_ne hcc]
      exact h.foreign c' hc'
  · -- what another peer says is submitted when it comes
    have hnone := h.foreign c hprogram
    have hpending : Function.update a.pending c (a.pending c ++ [m]) c = m :: [] := by
      rw [Function.update_self, hnone]
      rfl
    have hsubmit : Broadcast.Step a (.submit c m) _ := .submit
    have horder : Broadcast.Step { a with pending := Function.update a.pending c (a.pending c ++ [m]) }
        (.order c m) _ := .order hjoined hpending
    refine ⟨_, _, (Run.single hsubmit).trans (.single horder), hordered _, ?_, ?_, hcursor⟩
    · intro c' hc'
      have hcc : c' ≠ c := fun hcc => hprogram (hcc ▸ hc')
      rw [hmain, h.submitted c' hc', Broadcast.said_order, if_neg (Ne.symm hcc), List.append_nil]
      show _ = a.said c' ++ Function.update (Function.update a.pending c _) c [] c'
      rw [Function.update_of_ne hcc, Function.update_of_ne hcc]
    · intro c' hc'
      show Function.update (Function.update a.pending c _) c [] c' = []
      by_cases hcc : c' = c
      · rw [hcc, Function.update_self]
      · rw [Function.update_of_ne hcc, Function.update_of_ne hcc]
        exact h.foreign c' hc'

/-- A completion on the server. -/
theorem served_refines (hsized : mp.Sized) (h : s.Refines a)
    (hinv : Broadcast.Inv a) {t' : List (Label Endpoint)} (hrun' : OrdinaryRun hmp t' s') {r : Record}
    (hmain : ∀ c, (s'.clients c).main = (s.clients c).main) (hserver : s.server.Extends [r] s'.server) :
    ∃ ops a', Run Broadcast.Step a ops a' ∧ s'.Refines a' := by
  have hstep := hserver.2.step_of_single
  have hcursor : ∀ c, ClientMain.Cursor (s'.clients c).main.trace (s'.clients c).main.state
      (a.skipped c) (a.seen c) := by
    intro c
    rw [hmain]
    exact h.cursor c
  have hsubmitted : ∀ c, (names c).isSome →
      texts (s'.clients c).main.state.sent = a.said c ++ a.pending c := by
    intro c hc
    rw [hmain]
    exact h.submitted c hc
  rcases room_step hmp hstep with
    ⟨hchats, hname⟩ | ⟨c, hc, hc', hothers, hchats⟩ | ⟨c, m, hc, -, hchats, hname⟩
  · refine ⟨[], a, .refl, ?_, hsubmitted, h.foreign, hcursor⟩
    rw [hserver.1]
    exact h.server.quiet hmp s.server.run hstep hchats hname
  · obtain ⟨hnone, hjoined⟩ := h.server.join hmp s.server.run hstep hc hc' hothers hchats
    refine ⟨_, _, .single (.join hnone), ?_, hsubmitted, h.foreign, hcursor⟩
    rw [hserver.1]
    exact hjoined
  · exact ordered_refines hsized h hinv hrun' hmain hserver hc hchats hname

/-- A step of the main thread of a client, with its calls of `send`. -/
theorem turned_refines (hsized : mp.Sized) (h : s.Refines a) (hinv : Broadcast.Inv a)
    {t' : List (Label Endpoint)} {c : ConnId} {cl : Client mp Endpoint ((names c).getD [])} {e : MainEvent}
    (hc : (names c).isSome) (hrun' : OrdinaryRun hmp t' (s.setClient c cl))
    (hmain : (s.clients c).main.Extends [e] cl.main) :
    ∃ ops a', Run Broadcast.Step a ops a' ∧ (s.setClient c cl).Refines a' := by
  have hstep := hmain.2.step_of_single
  have hsent : texts cl.main.state.sent = texts (s.clients c).main.state.sent
      ++ texts (ClientMain.requests (s.clients c).main.state.gui.line_parser_.name_ (ClientMain.entered [e])) := by
    rw [(ClientMain.sent_step hstep).2, texts_append]
  -- the texts are submitted first
  have hsubmit := Broadcast.submit_run a c
    (texts (ClientMain.requests (s.clients c).main.state.gui.line_parser_.name_ (ClientMain.entered [e])))
  have hle : ∀ {skipped seen}, ClientMain.Cursor cl.main.trace cl.main.state skipped seen →
      seen ≤ (a.feed c).length := by
    intro skipped seen hcursor
    have hclient : ClientMain.Cursor ((s.setClient c cl).clients c).main.trace
        ((s.setClient c cl).clients c).main.state skipped seen := by
      rw [setClient_self]
      exact hcursor
    exact cursor_le hsized hrun' ⟨h.server.log, h.server.joined, h.server.feed⟩ hclient
  have hmoves := ClientMain.cursor_step hmp (s.clients c).main.run (h.cursor c) (hinv.skipped_le c) hstep
  rw [← hmain.1] at hmoves
  rcases hmoves with ⟨hseen, k, hcursor⟩ | ⟨k, hcursor⟩
  · exact ⟨_, _, hsubmit.tail (.skip (i := c) (k := k) hseen (hle hcursor)), h.move hc hsent hcursor⟩
  · refine ⟨_, _, hsubmit.tail (.deliver (i := c) (k := k) (hle hcursor)), ?_⟩
    have hmove := h.move hc hsent hcursor
    rw [Function.update_eq_self] at hmove
    exact hmove

/-- **Each step of the system is followed by steps of the broadcast.** -/
theorem refines_step (hsized : mp.Sized) {l : Label Endpoint} (hrun : OrdinaryRun hmp t s) (h : s.Refines a)
    (hinv : Broadcast.Inv a) (hs : Under (Step hmp) Ordinary s l s') :
    ∃ ops a', Run Broadcast.Step a ops a' ∧ s'.Refines a' := by
  have hrun' : OrdinaryRun hmp (t ++ [l]) s' := .tail hrun hs
  have hidle : ∀ {c} {cl : Client mp Endpoint ((names c).getD [])}, (s.clients c).Idles cl →
      ∃ ops a', Run Broadcast.Step a ops a' ∧ (s.setClient c cl).Refines a' := by
    intro c cl hcl
    refine ⟨[], a, .refl, h.stay rfl ?_⟩
    exact forall_setClient (P := fun c cl => (s.clients c).Idles cl) (fun _ => Client.idles_of_main rfl) hcl
  cases step_cases hs.1 with
  | served _ _ _ hserver _ => exact served_refines hsized h hinv hrun' (fun _ => rfl) hserver
  | looped _ _ => exact ⟨[], a, .refl, h.stay rfl fun _ => Client.idles_of_main rfl⟩
  | signalled _ => exact ⟨[], a, .refl, h.stay rfl fun _ => Client.idles_of_main rfl⟩
  | wrote _ _ => exact hidle (Client.idles_of_main rfl)
  | @client c e cl hc hcl =>
      cases hcl with
      | turned _ _ hmain _ => exact turned_refines hsized h hinv hc hrun' hmain
      | read _ _ _ _ hmain => exact hidle (Client.idles_of_pushes hmain)
      | typed _ _ | network _ _ | wrote _ | readFailed | exited _ => exact hidle (Client.idles_of_main rfl)

/-- The broadcast that a run is. -/
theorem refines_exists (hsized : mp.Sized) (h : OrdinaryRun hmp t s) :
    ∃ ops a, Run Broadcast.Step {} ops a ∧ s.Refines a := by
  induction h with
  | refl => exact ⟨[], {}, .refl, refines_new⟩
  | tail hrun hs ih =>
      obtain ⟨ops, a, hops, ha⟩ := ih
      obtain ⟨ops', a', hops', ha'⟩ := refines_step hsized hrun ha (Broadcast.inv_run hops) hs
      exact ⟨ops ++ ops', a', hops.trans hops', ha'⟩

/-- What a client shows, in the broadcast. -/
theorem shown_cursor (hsized : mp.Sized) (h : OrdinaryRun hmp t s) (ha : s.Refines a) {c : ConnId}
    (hplaying : s.Playing c) :
    ClientMain.lines ((a.shown c).map Prod.snd) = ClientMain.received (s.clients c).main.trace := by
  obtain ⟨waiting, -, hwritten, -⟩ := written_drained hsized h c
  have hdrained := (ClientMain.phase_run (s.clients c).main.run).playing hplaying.1 hplaying.2
  have hfeed := ha.server.feed c (named_of_playing hsized h hplaying)
  rw [hwritten, ClientMain.afterAck_concat hdrained] at hfeed
  rw [State.shown, List.map_drop, List.map_take, hfeed, (ha.cursor c).taken hplaying, List.take_left,
    (ha.cursor c).shown hplaying]

/-- **The system is an ordered broadcast.** For every ordinary run there is a run of the broadcast such that, at
    their ends, the log is the chat that the server has dispatched, the members are the connections with names,
    each client has submitted the texts that were entered there, in that order, and what each player shows is what
    it is shown. -/
theorem refines_run (hsized : mp.Sized) (h : OrdinaryRun hmp t s) :
    ∃ ops a, Run Broadcast.Step {} ops a ∧ a.log = chats s.server.trace ∧
      (∀ c, (a.joined c).isSome ↔ s.server.state.name c ≠ []) ∧
      (∀ c n, names c = some n → Broadcast.submitted c ops
        = texts (ClientMain.requests n (ClientMain.entered (s.clients c).main.trace))) ∧
      ∀ c, s.Playing c →
        ClientMain.lines ((a.shown c).map Prod.snd) = ClientMain.received (s.clients c).main.trace := by
  obtain ⟨ops, a, hops, ha⟩ := refines_exists hsized h
  refine ⟨ops, a, hops, ha.server.log, ha.server.joined, ?_, fun c hc => shown_cursor hsized h ha hc⟩
  intro c n hc
  have hdefault : (names c).getD [] = n := by rw [hc]; rfl
  rw [Broadcast.fifo_run hops c, ← ha.submitted c (by rw [hc]; rfl),
    ClientMain.sent_run (s.clients c).main.run,
    congrArg (ClientMain.requests · (ClientMain.entered (s.clients c).main.trace)) hdefault]
  rfl

/-- In the broadcast, too, `b` is shown what `a` has submitted. -/
theorem refines_run_conversation : ∃ s : System Msgpack.reference Nat twoNames,
    OrdinaryRun Msgpack.reference_lawful conversation s ∧
      ClientMain.received (s.clients 1).main.trace = [ascii "h: a"] ∧
      ∃ ops a, Run Broadcast.Step {} ops a ∧ a.log = chats s.server.trace ∧
        Broadcast.submitted 0 ops
          = texts (ClientMain.requests [0x61] (ClientMain.entered (s.clients 0).main.trace)) ∧
        ClientMain.lines ((a.shown 1).map Prod.snd) = [ascii "h: a"] := by
  obtain ⟨s, hrun, -, hplaying, hreceived⟩ := exists_shown
  obtain ⟨ops, a, hops, hlog, -, hsubmitted, hshown⟩ := refines_run Msgpack.reference_sized hrun
  exact ⟨s, hrun, hreceived, ops, a, hops, hlog, hsubmitted 0 [0x61] rfl, by rw [hshown 1 hplaying, hreceived]⟩

/-- **Any two screens agree.** What a player shows are the lines of a contiguous part of what the room has
    dispatched from the others; and the parts of two players are, but for their own texts, contiguous parts of one
    sequence, so they never show two texts in different orders. -/
theorem screens_agree (hsized : mp.Sized) (h : OrdinaryRun hmp t s) {c c' : ConnId} (hc : s.Playing c)
    (hc' : s.Playing c') :
    ∃ shown shown', ClientMain.received (s.clients c).main.trace = ClientMain.lines (shown.map Prod.snd) ∧
      ClientMain.received (s.clients c').main.trace = ClientMain.lines (shown'.map Prod.snd) ∧
      shown <:+: (chats s.server.trace).filter (fun x => x.1 ≠ c) ∧
      shown' <:+: (chats s.server.trace).filter (fun x => x.1 ≠ c') ∧
      shown.filter (fun x => x.1 ≠ c') <:+: (chats s.server.trace).filter (fun x => x.1 ≠ c ∧ x.1 ≠ c') ∧
      shown'.filter (fun x => x.1 ≠ c) <:+: (chats s.server.trace).filter (fun x => x.1 ≠ c ∧ x.1 ≠ c') := by
  obtain ⟨ops, a, -, ha⟩ := refines_exists hsized h
  obtain ⟨hagree, hagree'⟩ := Broadcast.shown_agree a c c'
  refine ⟨a.shown c, a.shown c', (shown_cursor hsized h ha hc).symm, (shown_cursor hsized h ha hc').symm, ?_⟩
  rw [← ha.server.log]
  exact ⟨Broadcast.shown_contiguous a c, Broadcast.shown_contiguous a c', hagree, hagree'⟩

theorem screens_agree_conversation : ∃ s : System Msgpack.reference Nat twoNames,
    OrdinaryRun Msgpack.reference_lawful conversation s ∧
      ∃ shown, [ascii "h: a"] = ClientMain.lines (shown.map Prod.snd) ∧
        shown <:+: (chats s.server.trace).filter (fun x => x.1 ≠ 1) := by
  obtain ⟨s, hrun, hplaying, hplaying', hreceived⟩ := exists_shown
  obtain ⟨-, shown, -, hlines, -, hshown, -⟩ := screens_agree Msgpack.reference_sized hrun hplaying hplaying'
  exact ⟨s, hrun, shown, by rw [← hlines, hreceived], hshown⟩

end System

end Quizzbot
