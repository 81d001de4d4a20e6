import Quizzbot.Client.TcpClient
import Quizzbot.Server.Correctness.Steps

/-!
# `Delivery` — what reaches the handlers, for any way TCP cuts the stream

Server and client both pull once for each read: they append the bytes to their buffer and call
`protocol::parse` a single time. So both are instances of `PullParser.Feeds` (`server_feeds`,
`client_feeds`). What is delivered is a prefix of the messages in the stream, and all of them exactly if
the reads complete messages no faster than one a read (`delivery_iff`).
-/

namespace Quizzbot

open LabelledRun (Run)
open PullParser (drain Drains Feeds found)

variable {mp : Msgpack}

/-! ## The server -/

/-- The bytes of the reads on `c`. -/
def readsOn (c : ConnId) (t : List Record) : List Packet :=
  t.filterMap fun r =>
    match r.event with
    | .read c' bytes => if c' = c then some bytes else none
    | _ => none

theorem readsOn_append (c : ConnId) (t t' : List Record) :
    readsOn c (t ++ t') = readsOn c t ++ readsOn c t' := List.filterMap_append

/-- A read of `c` adds its bytes and what it parsed to the history of `c`. -/
theorem history_read {r : Record} {c : ConnId} {bytes : Packet} (he : r.event = .read c bytes) :
    readsOn c [r] = [bytes] ∧ parsedOn c [r] = r.parsed.toList := by
  constructor
  · simp [readsOn, he]
  · cases hp : r.parsed <;> simp [parsedOn, isRead_of_event he, hp]

/-- Any other step adds nothing. -/
theorem history_other {r : Record} {c : ConnId} (h : r.isRead c = false) :
    readsOn c [r] = [] ∧ parsedOn c [r] = [] := by
  constructor
  · cases he : r.event with
    | read c' bytes =>
        rw [isRead_of_event he, decide_eq_false_iff_not] at h
        simp [readsOn, he, h]
    | _ => simp [readsOn, he]
  · simp [parsedOn, h]

/-- Changes that leave the buffer alone. -/
theorem acc_packet_modify {s : Server} {c₀ : ConnId} {f : TcpConnection → TcpConnection}
    (hf : (f (s.conns c₀)).acc_packet_ = (s.conns c₀).acc_packet_) (c : ConnId) :
    ((s.modify c₀ f).conns c).acc_packet_ = (s.conns c).acc_packet_ := by
  by_cases hcc : c = c₀
  · subst hcc; rw [Server.conns_modify, hf]
  · rw [Server.conns_modify_of_ne hcc]

/-- What a step means for `c`: nothing is read and the buffer stays, or one pull is made from the buffer
    and the bytes that were read. -/
def Pulled (mp : Msgpack) (c : ConnId) (s : Server) (r : Record) (s' : Server) : Prop :=
  (readsOn c [r] = [] ∧ parsedOn c [r] = [] ∧
    (s'.conns c).acc_packet_ = (s.conns c).acc_packet_) ∨
  ∃ bytes m?, readsOn c [r] = [bytes] ∧ parsedOn c [r] = m?.toList ∧
    Protocol.parse (messageCodec mp) ((s.conns c).acc_packet_ ++ bytes)
      = .ok (m?, (s'.conns c).acc_packet_)

/-- A read on some connection is a pull there, and nothing for the others. -/
theorem pulled_readOn {s s' : Server} {r : Record} {c₀ : ConnId} {bytes rest : Packet}
    (he : r.event = .read c₀ bytes)
    (hparse : Protocol.parse (messageCodec mp) ((s.conns c₀).acc_packet_ ++ bytes)
      = .ok (r.parsed, rest)) (hs : ReadOn s c₀ rest s') (c : ConnId) : Pulled mp c s r s' := by
  by_cases hcc : c = c₀
  · subst hcc
    obtain ⟨hreads, hparsed⟩ := history_read he
    right
    exact ⟨bytes, r.parsed, hreads, hparsed, by rw [hs.acc_packet]; exact hparse⟩
  · have hother : r.isRead c = false := by rw [isRead_of_event he]; exact decide_eq_false (Ne.symm hcc)
    obtain ⟨hreads, hparsed⟩ := history_other hother
    left
    exact ⟨hreads, hparsed, by rw [hs.others c hcc]⟩

/-- **Every step pulls at most once**, and only if it is a read. -/
theorem pulled_step (hmp : mp.Lawful) {s s' : Server} {r : Record} (h : s.Step mp r s') (c : ConnId) :
    Pulled mp c s r s' := by
  cases step_cases hmp h with
  | @accepted c₀ he hc hp hes hs =>
      obtain ⟨hreads, hparsed⟩ := history_other (c := c) (by rw [Record.isRead, he])
      left
      refine ⟨hreads, hparsed, ?_⟩
      subst hs
      -- of the connection objects, only the accepted one changes
      show ((s.modify c₀ fun conn => { conn with reads := conn.reads + 1 }).conns c).acc_packet_ = _
      exact acc_packet_modify rfl c
  | acceptFailed he hc hp hes hs =>
      obtain ⟨hreads, hparsed⟩ := history_other (c := c) (by rw [Record.isRead, he])
      left
      exact ⟨hreads, hparsed, by rw [hs]⟩
  | readFailed he hc hp hes hs =>
      obtain ⟨hreads, hparsed⟩ := history_other (c := c) (by rw [Record.isRead, he])
      left
      refine ⟨hreads, hparsed, ?_⟩
      subst hs
      exact acc_packet_modify rfl c
  | silent he hc hparse hs hp hes hname => exact pulled_readOn he (hp ▸ hparse) hs c
  | received he hc hparse hs hp hn hdisp => exact pulled_readOn he (hp ▸ hparse) hs c

/-- **The server pulls once a read**, on each connection. -/
theorem server_feeds (hmp : mp.Lawful) {s : Server} {t : List Record}
    (h : Run (Server.Step mp) Server.init t s) (c : ConnId) :
    Feeds (Protocol.parse (messageCodec mp)) [] (readsOn c t) (parsedOn c t)
      (s.conns c).acc_packet_ := by
  induction h with
  | refl => exact .nil
  | tail _ hstep ih =>
      rw [readsOn_append, parsedOn_append]
      rcases pulled_step hmp hstep c with ⟨hr, hp, hacc⟩ | ⟨bytes, m?, hr, hp, hparse⟩
      · rw [hr, hp, hacc, List.append_nil, List.append_nil]; exact ih
      · rw [hr, hp]; exact ih.snoc hparse

/-! ## The client -/

/-- **The client pulls once a read.** -/
theorem client_feeds (hmp : mp.Lawful) (cl : TcpClient) {reads : List Packet} {ds : List Message}
    {a : Packet} (h : Feeds (Protocol.parse (messageCodec mp)) cl.aggr_packet_ reads ds a) :
    cl.onReads mp reads = .ok ⟨a, cl.queue_ ++ ds⟩ := by
  generalize hb : cl.aggr_packet_ = b at h
  induction h generalizing cl with
  | nil => subst hb; rw [List.append_nil]; rfl
  | @cons a bytes m? a' reads ds a'' h0 _ ih =>
      subst hb
      rw [TcpClient.onReads, TcpClient.onRead, TcpClient.handleRead, h0]
      cases m? with
      | none => exact ih ⟨a', cl.queue_⟩ rfl
      | some m =>
          -- the message on the queue is a copy of the one found, which equals it
          obtain ⟨d, p, -, -, hcopy⟩ := parse_message hmp h0
          have hnext := ih ⟨a', cl.queue_ ++ [m]⟩ rfl
          rw [List.append_assoc] at hnext
          simp only [ok_bind, hcopy]
          exact hnext

/-! ## Delivery -/

/-- The reads complete messages no faster than one a read: at every cut, the whole stream holds at most
    as many more messages than its earlier part as there are later reads. -/
def Paced (mp : Msgpack) (reads : List Packet) : Prop :=
  ∀ early late, reads = early ++ late →
    found (Protocol.parse (messageCodec mp)) reads.flatten
      ≤ found (Protocol.parse (messageCodec mp)) early.flatten + late.length

/-- No complete valid frame is left in the buffer. -/
def Idle (mp : Msgpack) (buffer : Packet) : Prop :=
  ∃ r, Protocol.parse (messageCodec mp) buffer = .ok (none, r)

theorem feeds_iff_paced {reads : List Packet} {ds ms : List Message} {a r : Packet}
    (h : Feeds (Protocol.parse (messageCodec mp)) [] reads ds a)
    (hd : drain (Protocol.parse (messageCodec mp)) reads.flatten = .ok (ms, r)) :
    (ds = ms ↔ Paced mp reads) ∧ (Idle mp a ↔ Paced mp reads) := by
  have hp := parse_incremental (messageCodec_overwrites mp)
  have hdrains := (PullParser.drain_eq_ok_iff hp).mp hd
  have hiff : ds = ms ↔ Paced mp reads := by
    rw [PullParser.feeds_complete_iff hp rfl h hdrains, Paced, PullParser.found_eq hp hdrains]
  exact ⟨hiff, (PullParser.feeds_complete_iff_idle hp h hdrains).symm.trans hiff⟩

/-- **Delivery is complete exactly if the reads are paced**, for each connection of the server in every
    run and for the client: the messages delivered by the last read are those of the whole stream, and no
    frame is left in the buffer. -/
theorem delivery_iff (hmp : mp.Lawful) :
    (∀ s t c ms r, Run (Server.Step mp) Server.init t s →
      drain (Protocol.parse (messageCodec mp)) (readsOn c t).flatten = .ok (ms, r) →
      (parsedOn c t = ms ↔ Paced mp (readsOn c t)) ∧
      (Idle mp (s.conns c).acc_packet_ ↔ Paced mp (readsOn c t))) ∧
    (∀ reads ms r, drain (Protocol.parse (messageCodec mp)) reads.flatten = .ok (ms, r) →
      ∃ cl, TcpClient.onReads mp {} reads = .ok cl ∧ (cl.queue_ = ms ↔ Paced mp reads) ∧
        (Idle mp cl.aggr_packet_ ↔ Paced mp reads)) := by
  constructor
  · intro s t c ms r h hd
    exact feeds_iff_paced (server_feeds hmp h c) hd
  · intro reads ms r hd
    have hp := parse_incremental (messageCodec_overwrites mp)
    -- the whole stream drains, so no read makes the client fail
    obtain ⟨ds, a, h⟩ := PullParser.exists_feeds hp (a := []) ((PullParser.drain_eq_ok_iff hp).mp hd)
    exact ⟨_, client_feeds hmp {} h, feeds_iff_paced h hd⟩

/-- One frame a read, on a connection of the server and on the client. -/
theorem delivery_iff_joins :
    (∃ s t, Server.init.exec Msgpack.reference twoPlayers = .ok (s, t) ∧
      Paced Msgpack.reference (readsOn 1 t)) ∧
    Paced Msgpack.reference [joinA, joinB] := by
  obtain ⟨hserver, hclient⟩ := delivery_iff Msgpack.reference_lawful
  constructor
  · have hrun : (Server.init.exec Msgpack.reference twoPlayers).toOption.map (fun x =>
        (drain (Protocol.parse (messageCodec Msgpack.reference)) (readsOn 1 x.2).flatten,
          parsedOn 1 x.2))
        = some (.ok ([.ofData (.joinMessage [0x61]), .ofData (.joinMessage [0x62])], []),
            [.ofData (.joinMessage [0x61]), .ofData (.joinMessage [0x62])]) := by decide
    obtain ⟨s, t, hexec, hpair⟩ := Server.exec_eval hrun
    obtain ⟨hd, hp⟩ := Prod.mk.inj hpair
    exact ⟨s, t, hexec, (hserver s t 1 _ _ (Server.run_of_exec hexec) hd).1.mp hp⟩
  · obtain ⟨cl, hcl, hiff, -⟩ := hclient [joinA, joinB]
      [.ofData (.joinMessage [0x61]), .ofData (.joinMessage [0x62])] [] (by decide)
    have hqueue : (TcpClient.onReads Msgpack.reference {} [joinA, joinB]).toOption.map (·.queue_)
        = some [.ofData (.joinMessage [0x61]), .ofData (.joinMessage [0x62])] := by decide
    rw [hcl] at hqueue
    exact hiff.mp (Option.some.inj hqueue)

/-- Two frames in one read: the second stays in the buffer. -/
theorem not_delivered_coalesced :
    (∃ s t, Server.init.exec Msgpack.reference [.accept 0, .read 0 (joinA ++ joinB)] = .ok (s, t) ∧
      drain (Protocol.parse (messageCodec Msgpack.reference)) (readsOn 0 t).flatten
        = .ok ([.ofData (.joinMessage [0x61]), .ofData (.joinMessage [0x62])], []) ∧
      parsedOn 0 t = [.ofData (.joinMessage [0x61])] ∧ (s.conns 0).acc_packet_ = joinB) ∧
    TcpClient.onReads Msgpack.reference {} [joinA ++ joinB]
      = .ok ⟨joinB, [.ofData (.joinMessage [0x61])]⟩ := by
  constructor
  · have hrun : (Server.init.exec Msgpack.reference [.accept 0, .read 0 (joinA ++ joinB)]).toOption.map
        (fun x => (drain (Protocol.parse (messageCodec Msgpack.reference)) (readsOn 0 x.2).flatten,
          parsedOn 0 x.2, (x.1.conns 0).acc_packet_))
        = some (.ok ([.ofData (.joinMessage [0x61]), .ofData (.joinMessage [0x62])], []),
            [.ofData (.joinMessage [0x61])], joinB) := by decide
    obtain ⟨s, t, hexec, htriple⟩ := Server.exec_eval hrun
    obtain ⟨hd, hpair⟩ := Prod.mk.inj htriple
    obtain ⟨hp, hacc⟩ := Prod.mk.inj hpair
    exact ⟨s, t, hexec, hd, hp, hacc⟩
  · decide

end Quizzbot
