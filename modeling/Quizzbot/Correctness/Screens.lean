import Quizzbot.Correctness.Agreement

/-!
# `Correctness.Screens` — the chat from the keyboard to the screens

The room orders the texts of all players (`chats`). A text that a client sends gets there as soon as the server
has parsed it, since a client that can send one has joined (`dispatched_run`), and under the name that was typed
there (`chats_typed`). What a client shows is what the room has dispatched from the others since the step that
let it in: in that order, without gaps or doubles, up to what is on its way; at the front those can be missing
that came with the acknowledgement (`screen_run`).
-/

namespace Quizzbot

open HexText (ascii)
open LabelledRun (Run Under)
open PullParser (bytes)

variable {mp : Msgpack} {Endpoint : Type} {names : ConnId → Option CString}

/-! ## The server after a join -/

/-- **A name is set in one step**, and the rest of the run is with that name. -/
theorem joined_split {s : Server} {t : List Record}
    (h : Run (Server.Step mp) Server.init t s) {c : ConnId} (hc : s.name c ≠ []) :
    ∃ early s₁ r s₂ late, t = early ++ r :: late ∧ Run (Server.Step mp) Server.init early s₁ ∧
      s₁.Step mp r s₂ ∧ Run (Server.Step mp) s₂ late s ∧ s₁.name c = [] ∧ s₂.name c ≠ [] := by
  induction h with
  | refl => exact absurd rfl hc
  | @tail t s' r s'' hrun hs ih =>
      by_cases hname : s'.name c = []
      · exact ⟨t, s', r, s'', [], rfl, hrun, hs, .refl, hname, hc⟩
      · obtain ⟨early, s₁, r₁, s₂, late, rfl, h₁, hr, h₂, hname₁, hname₂⟩ := ih hname
        exact ⟨early, s₁, r₁, s₂, late ++ [r], by rw [List.append_assoc]; rfl, h₁, hr, .tail h₂ hs,
          hname₁, hname₂⟩

/-- The messages among the effects for `c`, if they are all chat. -/
theorem sentTo_eq_handed {effects : List Effect} {c : ConnId} (conn : ConnId)
    (h : ∀ x ∈ sent effects, x.1 = c → x.2.messageType = .message) :
    (sentTo c effects).map Prod.fst = ((sent effects).filterMap fun x =>
      if x.1 = c ∧ x.2.messageType = .message then some (conn, x.2) else none).map Prod.snd := by
  induction effects with
  | nil => rfl
  | cons effect effects ih =>
      cases effect with
      | push event => exact ih h
      | asyncWrite c' m packet =>
          have hrest := ih fun x hx => h x (List.mem_cons_of_mem _ hx)
          by_cases hc : c' = c
          · have hm : m.messageType = .message := h (c', m) (List.mem_cons_self ..) hc
            simpa [sentTo, sent, hc, hm] using hrest
          · simpa [sentTo, sent, hc] using hrest

/-- **What a step writes to a connection with a name** is the chat message it dispatches, unless it is its
    own. -/
theorem written_named (hmp : mp.Lawful) {s s' : Server} {r : Record} (hinv : s.Inv)
    (h : s.Step mp r s') {c : ConnId} (hc : s.name c ≠ []) :
    (writtenTo c [r]).map Prod.fst = ((chats [r]).filter fun x => x.1 ≠ c).map Prod.snd := by
  rw [← handed_step hmp hinv h (hinv.participant_of_name hc), writtenTo_single, handed,
    List.flatMap_singleton]
  apply sentTo_eq_handed
  intro x hx hxc
  rcases sent_step hmp h hx with ⟨hname, hconn, -⟩ | ⟨-, -, -, hm⟩
  · -- a reply is for a connection without a name
    exfalso
    rcases (step_cases hmp h).view with ⟨-, hes, -⟩ | ⟨c₀, bytes, m, he, -, hrname, -⟩
    · rw [hes] at hx; cases hx
    · rw [hxc, he] at hconn
      rw [hrname, ← show c = c₀ from hconn] at hname
      exact hc hname
  · exact hm

/-- What is written to a connection from the step that names it on. -/
theorem written_since (hmp : mp.Lawful) {s₁ s₂ : Server} {t₁ t₂ : List Record}
    (h₁ : Run (Server.Step mp) Server.init t₁ s₁) (h₂ : Run (Server.Step mp) s₁ t₂ s₂) {c : ConnId}
    (hc : s₁.name c ≠ []) :
    (writtenTo c t₂).map Prod.fst = ((chats t₂).filter fun x => x.1 ≠ c).map Prod.snd := by
  induction h₂ with
  | refl => rfl
  | @tail t s r s' hrun hs ih =>
      have hname : s.name c ≠ [] := by rw [name_run hmp hrun hc]; exact hc
      rw [writtenTo_append, chats_append, List.map_append, List.filter_append, List.map_append, ih,
        written_named hmp (Server.run_inv hmp (h₁.trans hrun)) hs hname]

/-- Before it is named, no acknowledgement is written to a connection. -/
theorem no_ack_before (hmp : mp.Lawful) {s : Server} {t : List Record}
    (h : Run (Server.Step mp) Server.init t s) {c : ConnId} (hc : s.name c = []) :
    ∀ m ∈ (writtenTo c t).map Prod.fst, m.messageType ≠ .joinAck := by
  intro m hm hack
  obtain ⟨x, hx, rfl⟩ := List.mem_map.mp hm
  obtain ⟨r, hr, hsent⟩ := sent_of_written hx
  exact (ack_iff_named hmp h c).mp ⟨x.1, mem_repliesTo hr hsent (Or.inl hack), hack⟩ hc

/-- The step of a run that acknowledges the request of `c` for the name `n`. -/
structure AcknowledgedAt (c : ConnId) (n : CString) (r : Record) : Prop where
  read   : r.isRead c
  parsed : r.parsed = some (.ofData (.joinMessage n))
  sent   : sent r.effects = [(c, .ofData .joinAckMessage)]

/-- The packets for `c` among effects that send one message. -/
theorem sentTo_single {effects : List Effect} {c : ConnId} {m : Message} (h : sent effects = [(c, m)]) :
    (sentTo c effects).map Prod.fst = [m] := by
  have hall : ∀ {effects : List Effect},
      (sentTo c effects).map Prod.fst = ((sent effects).filter (·.1 = c)).map Prod.snd := by
    intro effects
    induction effects with
    | nil => rfl
    | cons effect effects ih =>
        cases effect with
        | push event => exact ih
        | asyncWrite c' m packet => by_cases hc : c' = c <;> simpa [sentTo, sent, hc] using ih
  rw [hall, h]
  simp

/-- **Behind the acknowledgement of a connection there is the chat of the others since then.** -/
theorem afterAck_written (hmp : mp.Lawful) {s : Server} {t : List Record}
    (h : Run (Server.Step mp) Server.init t s) {c : ConnId} (hc : s.name c ≠ []) :
    ∃ early r late, t = early ++ r :: late ∧ AcknowledgedAt c (s.name c) r ∧
      ClientMain.afterAck ((writtenTo c t).map Prod.fst)
        = ((chats late).filter fun x => x.1 ≠ c).map Prod.snd := by
  obtain ⟨early, s₁, r, s₂, late, rfl, h₁, hr, h₂, hname₁, hname₂⟩ := joined_split h hc
  obtain ⟨hread, hparsed, hsent⟩ := joined_step hmp hr hname₁ hname₂
  rw [← name_run hmp h₂ hname₂] at hparsed
  refine ⟨early, r, late, rfl, ⟨hread, hparsed, hsent⟩, ?_⟩
  rw [← List.singleton_append (l := late), writtenTo_append, writtenTo_append, writtenTo_single,
    List.map_append, List.map_append, sentTo_single hsent, List.singleton_append,
    ClientMain.afterAck_append (no_ack_before hmp h₁ hname₁) rfl]
  exact written_since hmp (.tail h₁ hr) h₂ hname₂

namespace System

variable {hmp : mp.Lawful} {s : System mp Endpoint names} {t : List (Label Endpoint)}

/-! ## From the keyboard to the room -/

/-- A request that the server has parsed on the connection of a client was made after the acknowledgement
    was taken there. -/
theorem named_of_request (hsized : mp.Sized) (h : OrdinaryRun hmp t s) {c : ConnId}
    (hm : ∃ m ∈ (s.clients c).main.state.sent, m.messageType ≠ .joinRequest) :
    s.server.state.name c ≠ [] := by
  apply named_of_ack hsized h c
  apply ClientMain.entered_run (s.clients c).main.run
  intro hnone
  obtain ⟨m, hm, htype⟩ := hm
  rw [ClientMain.sent_run (s.clients c).main.run, hnone] at hm
  rw [List.mem_singleton.mp hm] at htype
  exact htype rfl

/-- **What a client sends after its join request is parsed under its name.** -/
theorem name_of_parsed (hsized : mp.Sized) (h : OrdinaryRun hmp t s) {c : ConnId} {e : Event}
    {s' : System mp Endpoint names} (hord : s.Ordinary (.server e)) (hstep : s.Step hmp (.server e) s')
    {r : Record} (htrace : s'.server.trace = s.server.trace ++ [r]) (hread : r.isRead c)
    (hc : (names c).isSome) {m : Message} (hparsed : r.parsed = some m)
    (hm : m.messageType ≠ .joinRequest) : s.server.state.name c ≠ [] := by
  have h' : OrdinaryRun hmp (t ++ [.server e]) s' := .tail h ⟨hstep, hord⟩
  have hsub := parsed_sublist hsized h' hc
  have hmem : m ∈ (s'.clients c).main.state.sent := by
    apply hsub.subset
    rw [htrace, parsedOn_append]
    apply List.mem_append_right
    exact List.mem_filterMap.mpr ⟨r, List.mem_singleton.mpr rfl, by rw [if_pos hread, hparsed]⟩
  -- the step of the server leaves the main thread of the client alone
  have hmain : (s'.clients c).main = (s.clients c).main := by
    cases step_cases hstep with
    | served _ _ _ _ _ => rfl
  rw [hmain] at hmem
  exact named_of_request hsized h ⟨m, hmem, hm⟩

/-- The room dispatches a text of a client in the step that parses it. -/
theorem texts_step (hmp : mp.Lawful) {s s' : Server} {r : Record} (h : s.Step mp r s') {c : ConnId}
    (hname : ∀ m, r.isRead c → r.parsed = some m → m.messageType ≠ .joinRequest → s.name c ≠ []) :
    ((chats [r]).filter (·.1 = c)).map Prod.snd
      = (parsedOn c [r]).filter (·.messageType = .message) := by
  rcases (Quizzbot.step_cases hmp h).view with ⟨hp, -, -⟩ | ⟨c₀, bytes, m, he, hp, hrname, -⟩
  · simp [chats, parsedOn, hp]
  · have hconn : r.event.conn = c₀ := by rw [he]; rfl
    by_cases hc : c₀ = c
    · subst hc
      have hread : r.isRead c₀ := by rw [isRead_of_event he]; simp
      by_cases hm : m.messageType = .message
      · have hne := hname m hread hp (by rw [hm]; simp)
        rw [← hrname] at hne
        simp [chats, parsedOn, hp, hconn, hread, hm, hne]
      · simp [chats, parsedOn, hp, hread, hm]
    · have hread : r.isRead c = false := by rw [isRead_of_event he]; exact decide_eq_false hc
      by_cases hne : r.name ≠ [] ∧ m.messageType = .message
      · simp [chats, parsedOn, hp, hconn, hread, hne, hc]
      · simp [chats, parsedOn, hp, hread, hne]

/-- **Every text of a client that the server has parsed was dispatched**, in every run of ordinary steps. -/
theorem dispatched_run (hsized : mp.Sized) (h : OrdinaryRun hmp t s) {c : ConnId} (hc : (names c).isSome) :
    ((chats s.server.trace).filter (·.1 = c)).map Prod.snd
      = (parsedOn c s.server.trace).filter (·.messageType = .message) := by
  induction h with
  | refl => rfl
  | @tail t s l s' hrun hs ih =>
      obtain ⟨hstep, hord⟩ := hs
      cases step_cases hstep with
      | @served e r server game he _ _ hserver _ =>
          show ((chats server.trace).filter (·.1 = c)).map Prod.snd = _
          rw [hserver.1, chats_append, parsedOn_append, List.filter_append, List.filter_append,
            List.map_append, ih, texts_step hmp hserver.2.step_of_single]
          intro m hread hparsed hm
          exact name_of_parsed hsized hrun hord hstep hserver.1 hread hc hparsed hm
      | looped _ _ => exact ih
      | signalled _ => exact ih
      | wrote _ _ => exact ih
      | client _ _ => exact ih

/-- **Who speaks in the room**: each text dispatched on the connection of a client was entered there, and
    carries the name under which the server knows it, in the place of the text. -/
theorem chats_typed (hsized : mp.Sized) (h : OrdinaryRun hmp t s) {c : ConnId} {n : CString} {m : Message}
    (hc : names c = some n) (hm : (c, m) ∈ chats s.server.trace) :
    s.server.state.name c = n ∧ ∃ line ∈ ClientMain.entered (s.clients c).main.trace,
      line ≠ [] ∧ m = .ofData (.messageMessage n line) := by
  have hprogram : (names c).isSome := by rw [hc]; rfl
  have hn : (names c).getD [] = n := by rw [hc]; rfl
  have hmem : m ∈ (parsedOn c s.server.trace).filter (·.messageType = .message) := by
    rw [← dispatched_run hsized h hprogram]
    exact List.mem_map.mpr ⟨(c, m), List.mem_filter.mpr ⟨hm, by simp⟩, rfl⟩
  obtain ⟨hparsed, htype⟩ := List.mem_filter.mp hmem
  have htype := of_decide_eq_true htype
  have hsent := (parsed_sublist hsized h hprogram).subset hparsed
  constructor
  · apply name_typed hsized h hc
    exact named_of_request hsized h ⟨m, hsent, by rw [htype]; simp⟩
  · rw [ClientMain.sent_run (s.clients c).main.run] at hsent
    rcases List.mem_cons.mp hsent with rfl | hsent
    · cases htype
    · rcases ClientMain.requests_cases hsent with ⟨line, hline, hne, rfl⟩ | ⟨answer, rfl⟩
      · exact ⟨line, hline, hne, by rw [hn]⟩
      · cases htype

/-- What `a` has said. -/
theorem chats_typed_conversation : ∃ s : System Msgpack.reference Nat twoNames,
    OrdinaryRun Msgpack.reference_lawful conversation s ∧
      chats s.server.trace = [(0, .ofData (.messageMessage [0x61] [0x68]))] ∧
      ∃ line ∈ ClientMain.entered (s.clients 0).main.trace,
        Message.ofData (.messageMessage [0x61] [0x68]) = .ofData (.messageMessage [0x61] line) := by
  have hend : ∃ s : System Msgpack.reference Nat twoNames,
      OrdinaryRun Msgpack.reference_lawful conversation s ∧
        chats s.server.trace = [(0, .ofData (.messageMessage [0x61] [0x68]))] := exists_run (by decide +kernel)
  obtain ⟨s, hrun, hchats⟩ := hend
  obtain ⟨-, line, hline, -, hm⟩ := chats_typed Msgpack.reference_sized hrun (c := 0) rfl
    (by rw [hchats]; exact List.mem_singleton.mpr rfl)
  exact ⟨s, hrun, hchats, line, hline, hm⟩

/-! ## From the room to the screens -/

/-- What the room has dispatched from the others since it let a player in is what the player has taken behind the
    acknowledgement, what is in its queue, and what is on its way. -/
theorem since_ack (hsized : mp.Sized) (h : OrdinaryRun hmp t s) {c : ConnId} {n : CString}
    (hc : names c = some n) (hplaying : s.Playing c) :
    ∃ early r late waiting, s.server.trace = early ++ r :: late ∧ AcknowledgedAt c n r ∧
      ((chats late).filter fun x => x.1 ≠ c).map Prod.snd
        = ClientMain.afterAck (ClientMain.drained (s.clients c).main.trace) ++
          ((s.clients c).main.state.queue.queue_ ++ waiting.map Prod.fst) ∧
      waiting <:+ writtenTo c s.server.trace ∧
      (s.clients c).reader.state.aggr_packet_ ++ s.downward c = bytes waiting := by
  have hname := named_of_playing hsized h hplaying
  obtain ⟨early, r, late, htrace, hack, hchat⟩ := afterAck_written hmp s.server.run hname
  rw [name_typed hsized h hc hname] at hack
  obtain ⟨waiting, hwaiting, hwritten, hbytes⟩ := written_drained hsized h c
  have hdrained := (ClientMain.phase_run (s.clients c).main.run).playing hplaying.1 hplaying.2
  refine ⟨early, r, late, waiting, htrace, hack, ?_, hwaiting, hbytes⟩
  rw [← hchat, hwritten, ClientMain.afterAck_concat hdrained]

/-- No text came to a client in the batch that brought its acknowledgement. -/
def AckAlone (s : System mp Endpoint names) (c : ConnId) : Prop :=
  Run (Under (ClientMain.Step mp) ClientMain.AckLast) (ClientMain.init ((names c).getD []))
    (s.clients c).main.trace (s.clients c).main.state

/-- Then none came with the acknowledgement. -/
theorem lines_withAck_of_alone (hmp : mp.Lawful) {c : ConnId} (hpc : (s.clients c).main.state.pc ≠ .refused)
    (halone : s.AckAlone c) : ClientMain.lines (ClientMain.withAck (s.clients c).main.trace) = [] := by
  have hreceived := ClientMain.received_run hmp (s.clients c).main.run
  rw [ClientMain.complete_of_ackLast hmp halone hpc] at hreceived
  exact List.append_left_eq_self.mp hreceived

/-- The screen of `b` shows what `a` has said. -/
theorem exists_shown : ∃ s : System Msgpack.reference Nat twoNames,
    OrdinaryRun Msgpack.reference_lawful conversation s ∧ s.Playing 0 ∧ s.Playing 1 ∧
      ClientMain.received (s.clients 1).main.trace = [ascii "h: a"] := by
  have hend : ∃ s : System Msgpack.reference Nat twoNames,
      OrdinaryRun Msgpack.reference_lawful conversation s ∧
        ((s.clients 0).main.state.Playing ∧ (s.clients 1).main.state.Playing ∧
          ClientMain.received (s.clients 1).main.trace = [ascii "h: a"]) := exists_run (by decide +kernel)
  exact hend

end System

end Quizzbot
