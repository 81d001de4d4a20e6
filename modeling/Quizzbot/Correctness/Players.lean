import Quizzbot.Correctness.Loss
import Quizzbot.Correctness.Screens

/-!
# `Correctness.Players` — what the server knows of a player

A player that has joined has lost nothing, so what was typed is, request for request, what the server has
handled, what is on its way to it, and what is posted (`player_run`). The game has got the first part under the
player's name, and the room has dispatched its texts. The main thread of the server prints a line for each
answer that it takes (`answers_run`). Where nothing is on its way, all of it has arrived (`rest_run`).
-/

namespace Quizzbot

open HexText (ascii)
open LabelledRun (Run)
open PullParser (Frames bytes)

variable {mp : Msgpack} {Endpoint : Type} {names : ConnId → Option CString}

/-- The requests made of lines are no join requests. -/
theorem ClientMain.not_join_of_request {name : CString} {lines : List CString} {m : Message}
    (h : m ∈ ClientMain.requests name lines) : m.messageType ≠ .joinRequest := by
  intro htype
  rcases ClientMain.requests_cases h with ⟨text, -, -, rfl⟩ | ⟨answer, rfl⟩ <;> cases htype

/-- The events of a connection, if only the first message parsed on it asks to join. -/
theorem pushesOf_of_parsed (hmp : mp.Lawful) {s : Server} {t : List Record}
    (h : Run (Server.Step mp) Server.init t s) {c : ConnId} (hc : s.name c ≠ []) {first : Message}
    {handled : List Message} (hparsed : parsedOn c t = first :: handled)
    (hhandled : ∀ m ∈ handled, m.messageType ≠ .joinRequest) :
    pushesOf c t = (.ofData (.joinMessage (s.name c)) :: handled).map (⟨s.name c, ·⟩) := by
  obtain ⟨early, r, late, rfl, hearly, hread, hr, -, hlate⟩ := pushes_run hmp h hc
  have hsingle : parsedOn c [r] = [.ofData (.joinMessage (s.name c))] := by
    simp [parsedOn, hread, hr]
  rw [← List.singleton_append (l := late), parsedOn_append, parsedOn_append, hsingle] at hparsed
  rw [pushesOf_append, hearly, List.nil_append, hlate]
  -- the join request is the first message, since none of the others is one
  cases hfirst : parsedOn c early with
  | nil =>
      rw [hfirst, List.nil_append, List.singleton_append, List.cons.injEq] at hparsed
      rw [hparsed.2]
  | cons m ms =>
      rw [hfirst, List.cons_append, List.cons.injEq] at hparsed
      exfalso
      apply hhandled (.ofData (.joinMessage (s.name c))) _ rfl
      rw [← hparsed.2]
      exact List.mem_append_right _ (List.mem_append_left _ (List.mem_singleton.mpr rfl))

namespace System

variable {hmp : mp.Lawful} {s : System mp Endpoint names} {t : List (Label Endpoint)}

/-- **What the server knows of a player** is a prefix of what was typed there. `handled` are the requests that
    the server has parsed: the game has got them under the player's name behind the request to join, and the
    room has dispatched the texts among them. The rest is on its way, to the byte, or posted. -/
theorem player_run (hsized : mp.Sized) (h : OrdinaryRun hmp t s) {c : ConnId} {n : CString}
    (hc : names c = some n) (hname : s.server.state.name c ≠ []) :
    ∃ handled waiting, waiting <:+ (s.clients c).net.state.started ∧
      ClientMain.requests n (ClientMain.entered (s.clients c).main.trace)
        = handled ++ (waiting.map Prod.fst ++ (s.clients c).net.state.posted) ∧
      (s.server.state.conns c).acc_packet_ ++ s.upward c = bytes waiting ∧
      (gameQueue s.server.trace).filter (fun e => e.name = n)
        = (.ofData (.joinMessage n) :: handled).map (⟨n, ·⟩) ∧
      ((chats s.server.trace).filter (·.1 = c)).map Prod.snd
        = handled.filter (·.messageType = .message) := by
  have hprogram : (names c).isSome := by rw [hc]; rfl
  have hn : (names c).getD [] = n := by rw [hc]; rfl
  obtain ⟨handled, waiting, hstarted, hparsed, hbytes⟩ := uplink_run hsized h hprogram
  have hsends := (lossless_of_named hsized h hprogram hname).sends
  rw [((linked_run h.of_under).clients c).glued.sends, hstarted, List.map_append, ← hparsed,
    List.append_assoc] at hsends
  -- the first of the messages parsed is the request to join, the others are those for lines
  have hmem := List.mem_of_mem_filter (asked_of_named hmp s.server.run hname)
  obtain ⟨first, handled', hcons⟩ := List.exists_cons_of_ne_nil (List.ne_nil_of_mem hmem)
  rw [hcons] at hsends
  split at hsends
  · rw [ClientMain.sent_run (s.clients c).main.run, List.cons_append, List.cons.injEq] at hsends
    obtain ⟨hfirst, hrequests⟩ := hsends
    rw [congrArg (ClientMain.requests · (ClientMain.entered (s.clients c).main.trace)) hn] at hrequests
    have hhandled : ∀ m ∈ handled', m.messageType ≠ .joinRequest := by
      intro m hm
      apply ClientMain.not_join_of_request
      rw [hrequests]
      exact List.mem_append_left _ hm
    refine ⟨handled', waiting, ⟨handled, hstarted.symm⟩, hrequests, hbytes, ?_, ?_⟩
    · have htyped := name_typed hsized h hc hname
      have hfilter := gameQueue_filter hmp s.server.run c
      rw [pushesOf_of_parsed hmp s.server.run hname hcons hhandled, htyped] at hfilter
      exact hfilter
    · rw [dispatched_run hsized h hprogram, hcons, ← hfirst]
      rfl
  · cases hsends

/-! ## What is printed -/

/-- What the main thread of the server has taken, with what is in its queue, is what the handlers have pushed,
    and it has printed a line for each answer among what it has taken. -/
theorem printed_run (h : OrdinaryRun hmp t s) :
    (GameLoop.batches s.game.trace).flatten ++ s.game.state.queue.queue_ = gameQueue s.server.trace ∧
    s.game.state.cout = GameLoop.answerLines (GameLoop.batches s.game.trace).flatten := by
  obtain ⟨htaken, hcout⟩ := GameLoop.loop_run s.game.run
  rw [(linked_run h.of_under).game] at htaken
  exact ⟨htaken, hcout⟩

/-- The answers among some events that are stamped with a name. -/
def answersOf (n : CString) (events : List GameEvent) : List Message :=
  ((events.filter fun e => e.name = n).map GameEvent.msg).filter (·.messageType = .answer)

theorem answersOf_append (n : CString) (events events' : List GameEvent) :
    answersOf n (events ++ events') = answersOf n events ++ answersOf n events' := by
  unfold answersOf
  rw [List.filter_append, List.map_append, List.filter_append]

/-- **From the keyboard to the output of the server**: the lines printed are those of the answers `taken`, in
    that order, each for a connection with a name; and the answers taken under the name of a player, with those
    still in the queue, are the first of the answers that were typed there, once each and in order. -/
theorem answers_run (hsized : mp.Sized) (h : OrdinaryRun hmp t s) :
    ∃ taken, taken ++ s.game.state.queue.queue_ = gameQueue s.server.trace ∧
      s.game.state.cout = GameLoop.answerLines taken ∧
      (∀ e ∈ taken, e.name ≠ [] ∧ ∃ c, s.server.state.name c = e.name) ∧
      ∀ c n, names c = some n → s.server.state.name c ≠ [] →
        answersOf n taken ++ answersOf n s.game.state.queue.queue_
          <+: (ClientMain.requests n (ClientMain.entered (s.clients c).main.trace)).filter
            (·.messageType = .answer) := by
  obtain ⟨htaken, hcout⟩ := printed_run h
  refine ⟨_, htaken, hcout, ?_, ?_⟩
  · intro e he
    have hmem : e ∈ gameQueue s.server.trace := by
      rw [← htaken]
      exact List.mem_append_left _ he
    obtain ⟨r, hr, hpushed⟩ := List.mem_flatMap.mp hmem
    obtain ⟨c, -, hname, hne⟩ := stamp_run hmp s.server.run r hr e hpushed
    exact ⟨hne, c, hname.symm⟩
  · intro c n hc hname
    obtain ⟨handled, waiting, -, hrequests, -, hqueue, -⟩ := player_run hsized h hc hname
    rw [← answersOf_append, htaken, answersOf, hqueue, List.map_map]
    have hmsgs : (Message.ofData (.joinMessage n) :: handled).map (GameEvent.msg ∘ (⟨n, ·⟩))
        = .ofData (.joinMessage n) :: handled := List.map_id _
    have hskip : (Message.ofData (.joinMessage n) :: handled).filter (·.messageType = .answer)
        = handled.filter (·.messageType = .answer) := rfl
    rw [hmsgs, hskip, hrequests, List.filter_append]
    exact List.prefix_append _ _

/-- The frame of the answer `1`, as the client of `a` makes it. -/
def typedAnswer : Packet := [0x01, 0x02, 0x30, 0x35, 0x01, 0xa1, 0x61, 0xa1, 0x31, 0x64, 0x36]

/-- `a` has joined and answered `1`, which the server prints after it has taken it from the queue. -/
def answering : List (Label Nat) :=
  joining 0 joinA ++
    [.client 0 (.main 0 (.ok [])), .client 0 (.main 10 (.ok (ascii "/a 1"))), .client 0 (.net .runPosted),
     .client 0 (.write 1 typedAnswer.length), .server (.read 0 typedAnswer), .game, .game, .game]

/-- The line that is printed is that of the answer typed. -/
theorem answers_run_answering : ∃ s : System Msgpack.reference Nat twoNames,
    OrdinaryRun Msgpack.reference_lawful answering s ∧
      s.game.state.cout = [GameLoop.answerLine [0x61]] ∧
      ∃ taken, s.game.state.cout = GameLoop.answerLines taken ∧
        answersOf [0x61] taken ++ answersOf [0x61] s.game.state.queue.queue_
          <+: (ClientMain.requests [0x61] (ClientMain.entered (s.clients 0).main.trace)).filter
            (·.messageType = .answer) := by
  have hend : ∃ s : System Msgpack.reference Nat twoNames,
      OrdinaryRun Msgpack.reference_lawful answering s ∧
        (s.game.state.cout = [GameLoop.answerLine [0x61]] ∧ s.server.state.name 0 ≠ []) :=
    exists_run (by decide +kernel)
  obtain ⟨s, hrun, hcout, hname⟩ := hend
  obtain ⟨taken, -, hlines, -, hanswers⟩ := answers_run Msgpack.reference_sized hrun
  exact ⟨s, hrun, hcout, taken, hlines, hanswers 0 [0x61] rfl hname⟩

/-! ## At rest -/

/-- Nothing of a client is on its way, in either direction. -/
structure AtRest (s : System mp Endpoint names) (c : ConnId) : Prop where
  posted : (s.clients c).net.state.posted = []
  up     : (s.server.state.conns c).acc_packet_ ++ s.upward c = []
  down   : (s.clients c).reader.state.aggr_packet_ ++ s.downward c = []
  queue  : (s.clients c).main.state.queue.queue_ = []

instance (s : System mp Endpoint names) (c : ConnId) : Decidable (s.AtRest c) :=
  decidable_of_iff (((s.clients c).net.state.posted = [] ∧ (s.server.state.conns c).acc_packet_ ++ s.upward c = []) ∧
    (s.clients c).reader.state.aggr_packet_ ++ s.downward c = [] ∧ (s.clients c).main.state.queue.queue_ = [])
    ⟨fun h => ⟨h.1.1, h.1.2, h.2.1, h.2.2⟩, fun h => ⟨⟨h.posted, h.up⟩, h.down, h.queue⟩⟩

/-- A frame has at least one byte, so if no bytes are waiting, no frames are. -/
theorem waiting_eq_nil {sent waiting : List (Message × Packet)}
    (h : ∀ x ∈ sent, Frames (Protocol.parse (messageCodec mp)) x.1 x.2) (hwaiting : waiting <:+ sent)
    (hbytes : bytes waiting = []) : waiting = [] := by
  cases waiting with
  | nil => rfl
  | cons x waiting =>
      have hx := (h x (hwaiting.subset (List.mem_cons_self ..))).whole []
      rw [PullParser.bytes_cons] at hbytes
      rw [(List.append_eq_nil_iff.mp hbytes).1] at hx
      cases hx

/-- **At rest everything has arrived**: the game has got a player's join request and all that the parser has made of
    the lines it has entered, the room has dispatched all its texts, and the player shows all that the room has
    dispatched from the others since it let the player in, but for what came with the acknowledgement, in the same
    batch. -/
theorem rest_run (hsized : mp.Sized) (h : OrdinaryRun hmp t s) {c : ConnId} {n : CString}
    (hc : names c = some n) (hplaying : s.Playing c) (hrest : s.AtRest c) :
    let requests := ClientMain.requests n (ClientMain.entered (s.clients c).main.trace)
    let missed := ClientMain.lines (ClientMain.withAck (s.clients c).main.trace)
    (gameQueue s.server.trace).filter (fun e => e.name = n)
        = (.ofData (.joinMessage n) :: requests).map (⟨n, ·⟩) ∧
    ((chats s.server.trace).filter (·.1 = c)).map Prod.snd
        = requests.filter (·.messageType = .message) ∧
    ∃ early r late, s.server.trace = early ++ r :: late ∧ AcknowledgedAt c n r ∧
      ClientMain.lines (((chats late).filter fun x => x.1 ≠ c).map Prod.snd)
        = missed ++ ClientMain.received (s.clients c).main.trace ∧
      (s.AckAlone c → missed = []) := by
  have hprogram : (names c).isSome := by rw [hc]; rfl
  obtain ⟨handled, waiting, hwaiting, hrequests, hup, hgame, hchats⟩ :=
    player_run hsized h hc (named_of_playing hsized h hplaying)
  obtain ⟨early, r, late, coming, htrace, hack, hscreen, hcoming, hdown⟩ := since_ack hsized h hc hplaying
  -- nothing is waiting in either direction
  have hnone := waiting_eq_nil (frames_started hsized h c) hwaiting (hup.symm.trans hrest.up)
  have hnone' := waiting_eq_nil (frames_written hsized h c) hcoming (hdown.symm.trans hrest.down)
  subst hnone hnone'
  rw [hrest.posted, List.map_nil, List.append_nil, List.append_nil] at hrequests
  rw [hrest.queue, List.map_nil, List.append_nil, List.append_nil] at hscreen
  dsimp only
  rw [hrequests]
  refine ⟨hgame, hchats, early, r, late, htrace, hack, ?_, lines_withAck_of_alone hmp hplaying.2⟩
  rw [hscreen, ClientMain.received_run hmp (s.clients c).main.run]

/-- What `a` says reaches the queue of `b` before `b` has taken its acknowledgement. -/
def crowded : List (Label Nat) :=
  joining 0 joinA ++ (joining 1 joinB).take 9 ++
    [.client 0 (.main 0 (.ok [])), .client 0 (.main 10 (.ok [0x68])), .client 0 (.net .runPosted),
     .client 0 (.write 1 typedGreeting.length), .server (.read 0 typedGreeting),
     .serverWrite 1 1 typedGreeting.length, .client 1 (.read typedGreeting), .client 1 (.main 0 (.ok [])),
     .client 1 (.main 0 (.ok []))]

/-- At rest, `b` shows nothing: what the room has dispatched from `a` is what came with the acknowledgement. -/
theorem rest_run_crowded : ∃ s : System Msgpack.reference Nat twoNames,
    OrdinaryRun Msgpack.reference_lawful crowded s ∧ s.AtRest 1 ∧
      ClientMain.received (s.clients 1).main.trace = [] ∧
      ∃ early r late, s.server.trace = early ++ r :: late ∧ AcknowledgedAt 1 [0x62] r ∧
        ClientMain.lines (((chats late).filter fun x => x.1 ≠ 1).map Prod.snd)
          = ClientMain.lines (ClientMain.withAck (s.clients 1).main.trace) ∧
        ClientMain.lines (ClientMain.withAck (s.clients 1).main.trace) = [ascii "h: a"] := by
  have hend : ∃ s : System Msgpack.reference Nat twoNames, OrdinaryRun Msgpack.reference_lawful crowded s ∧
      ((s.clients 1).main.state.Playing ∧ s.AtRest 1 ∧
        ClientMain.received (s.clients 1).main.trace = [] ∧
        ClientMain.lines (ClientMain.withAck (s.clients 1).main.trace) = [ascii "h: a"]) :=
    exists_run (by decide +kernel)
  obtain ⟨s, hrun, hplaying, hrest, hreceived, hmissed⟩ := hend
  obtain ⟨-, -, early, r, late, htrace, hack, hlines, -⟩ :=
    rest_run Msgpack.reference_sized hrun (c := 1) rfl hplaying hrest
  rw [hreceived, List.append_nil] at hlines
  exact ⟨s, hrun, hrest, hreceived, early, r, late, htrace, hack, hlines, hmissed⟩

/-- What a client at rest has sent was parsed. -/
theorem parsed_at_rest (hsized : mp.Sized) (h : OrdinaryRun hmp t s) {c : ConnId} (hc : (names c).isSome)
    (hlossless : (s.clients c).Lossless) (hrest : s.AtRest c) :
    parsedOn c s.server.trace = ClientConnection.sends (s.clients c).net.trace := by
  obtain ⟨handled, waiting, hstarted, hparsed, hup⟩ := uplink_run hsized h hc
  have hnone := waiting_eq_nil (frames_started hsized h c) ⟨handled, hstarted.symm⟩ (hup.symm.trans hrest.up)
  rw [hnone, List.append_nil] at hstarted
  rw [hlossless.sends, hrest.posted, hstarted, hparsed, List.append_nil]

/-- What was written to it was taken. -/
theorem drained_at_rest (hsized : mp.Sized) (h : OrdinaryRun hmp t s) {c : ConnId} (hrest : s.AtRest c) :
    (writtenTo c s.server.trace).map Prod.fst = ClientMain.drained (s.clients c).main.trace := by
  obtain ⟨waiting, hwaiting, hdrained, hdown⟩ := written_drained hsized h c
  have hnone := waiting_eq_nil (frames_written hsized h c) hwaiting (hdown.symm.trans hrest.down)
  rw [hdrained, hrest.queue, hnone, List.map_nil, List.append_nil, List.append_nil]

/-- **At rest nobody waits in vain**: a client that has asked to join plays or was refused, unless its request was
    lost. -/
theorem answered_at_rest (hsized : mp.Sized) (h : OrdinaryRun hmp t s) {c : ConnId} (hc : (names c).isSome)
    (htyped : (s.clients c).typed = true) (hrest : s.AtRest c) :
    (s.clients c).Stuck ∨ s.Playing c ∨ (s.clients c).main.state.pc = .refused := by
  rcases lossless_or_stuck hsized h hc with hlossless | ⟨hstuck, -⟩
  · right
    -- the request was parsed and answered, and the answer was taken
    have hparsed := parsed_at_rest hsized h hc hlossless hrest
    rw [((linked_run h.of_under).clients c).glued.sends, if_pos htyped,
      ClientMain.sent_run (s.clients c).main.run] at hparsed
    have hasked : requestsOn c s.server.trace ≠ [] := by
      unfold requestsOn
      rw [hparsed, List.filter_cons_of_pos rfl]
      exact List.cons_ne_nil _ _
    obtain ⟨reply, hreply⟩ := List.exists_mem_of_ne_nil _ (answered_run hmp s.server.run hasked)
    obtain ⟨hwritten, hkind⟩ := written_of_reply hreply
    rw [drained_at_rest hsized h hrest] at hwritten
    have hnot : ¬ ClientMain.Waiting (s.clients c).main.state := by
      intro hwaiting
      obtain ⟨hack, hnack⟩ := ClientMain.waiting_run (s.clients c).main.run hwaiting _ hwritten
      exact hkind.elim hack hnack
    by_cases hpc : (s.clients c).main.state.pc = .refused
    · exact Or.inr hpc
    · exact Or.inl ⟨hnot, hpc⟩
  · exact Or.inl hstuck

theorem answered_at_rest_conversation : ∃ s : System Msgpack.reference Nat twoNames,
    OrdinaryRun Msgpack.reference_lawful conversation s ∧
      ((s.clients 0).Stuck ∨ s.Playing 0 ∨ (s.clients 0).main.state.pc = .refused) := by
  have hend : ∃ s : System Msgpack.reference Nat twoNames, OrdinaryRun Msgpack.reference_lawful conversation s ∧
      ((s.clients 0).typed = true ∧ s.AtRest 0) := exists_run (by decide +kernel)
  obtain ⟨s, hrun, htyped, hrest⟩ := hend
  exact ⟨s, hrun, answered_at_rest Msgpack.reference_sized hrun rfl htyped hrest⟩

end System

end Quizzbot
