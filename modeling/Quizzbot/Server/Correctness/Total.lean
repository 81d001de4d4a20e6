import Quizzbot.Delivery
import Quizzbot.Server.Correctness.Written

/-!
# `Server.Correctness.Total` — the handlers raise nothing of their own

A message that was parsed owns an object of its type and can be packed, so the cast of the join handler, the
packing of replies and relayed messages and the copies all succeed. What can go wrong in a completion is
`protocol::parse`, which does not where the peer sends frames, and the accept of a connection that the peer has
already reset (`completions_run`).
-/

namespace Quizzbot

open LabelledRun (Run)
open PullParser (Frames bytes)

variable {mp : Msgpack}

/-- A message that owns an object and can be packed, as those that were parsed. -/
def Packable (mp : Msgpack) (m : Message) : Prop := ∃ d p, m = .ofData d ∧ m.pack mp = .ok p

theorem Packable.copy (hmp : mp.Lawful) {m : Message} (h : Packable mp m) : m.copy mp = .ok m := by
  obtain ⟨d, p, rfl, hp⟩ := h
  exact Message.copy_eq hmp hp

theorem Packable.protocol_pack {m : Message} (h : Packable mp m) :
    ∃ packet, Protocol.pack (messageCodec mp) m = .ok packet := by
  obtain ⟨d, p, -, hp⟩ := h
  unfold Protocol.pack
  rw [show (messageCodec mp).pack m = .ok p from hp]
  exact ⟨_, rfl⟩

theorem packable_of_short (hmp : mp.Lawful) {d : MessageData} (h : ∀ s ∈ d.fields, s.length < 2 ^ 32) :
    Packable mp (.ofData d) := by
  obtain ⟨p, hp⟩ := Message.pack_ok hmp h
  exact ⟨d, p, rfl, hp⟩

theorem JoinReply.packable (hmp : mp.Lawful) {m : Message} (h : JoinReply m) : Packable mp m := by
  rcases h with rfl | rfl | rfl <;> exact packable_of_short hmp (by decide)

/-! ## The handlers -/

theorem sendCommand_total {m : Message} (h : Packable mp m) (c : ConnId) :
    ∃ effects, sendCommand mp c m = .ok effects := by
  obtain ⟨packet, hp⟩ := h.protocol_pack
  rw [sendCommand, hp]
  exact ⟨_, rfl⟩

theorem forEach_total {body : ConnId → Except Fault (List Effect)} (h : ∀ c, ∃ effects, body c = .ok effects)
    (cs : List ConnId) : ∃ effects, forEach body cs = .ok effects := by
  induction cs with
  | nil => exact ⟨[], rfl⟩
  | cons c cs ih =>
      obtain ⟨head, hhead⟩ := h c
      obtain ⟨rest, hrest⟩ := ih
      unfold forEach
      rw [hhead, ok_bind, hrest]
      exact ⟨_, rfl⟩

theorem gameHandler_total (hmp : mp.Lawful) {m : Message} (h : Packable mp m) (s : Server) (c : ConnId) :
    ∃ effects, GameHandler.handle mp s c m = .ok effects := by
  rw [GameHandler.handle, h.copy hmp]
  exact ⟨_, rfl⟩

theorem chatRoom_total {m : Message} (h : Packable mp m) (s : Server) (c : ConnId) :
    ∃ effects, ChatRoom.handle mp s c m = .ok effects := by
  unfold ChatRoom.handle
  split
  · apply forEach_total
    intro p
    split
    · exact sendCommand_total h p
    · exact ⟨[], rfl⟩
  · exact ⟨[], rfl⟩

/-- The object of a join request is a `JoinMessage`. -/
theorem MessageData.joinName_of_type {d : MessageData} (h : d.messageType = .joinRequest) :
    ∃ name, d.joinName? = some name := by
  obtain ⟨cls, fields, arity⟩ := d
  cases cls with
  | joinMessage =>
      obtain ⟨name, rfl⟩ := List.length_eq_one_iff.mp arity
      exact ⟨name, rfl⟩
  | _ => cases h

theorem joinHandler_total (hmp : mp.Lawful) {m : Message} (h : Packable mp m) (s : Server) (c : ConnId) :
    ∃ res, JoinHandler.handle mp s c m = .ok res := by
  obtain ⟨d, p, rfl, -⟩ := h
  have hreply : ∀ {m}, JoinReply m → ∃ effects, sendCommand mp c m = .ok effects :=
    fun hm => sendCommand_total (hm.packable hmp) c
  unfold JoinHandler.handle
  by_cases htype : (Message.ofData d).messageType = .joinRequest
  · obtain ⟨name, hname⟩ := MessageData.joinName_of_type htype
    have hdata : ((Message.ofData d).data_ >>= MessageData.joinName?) = some name := hname
    rw [if_neg (not_not.mpr htype), hdata]
    dsimp only
    by_cases hempty : name = []
    · obtain ⟨effects, he⟩ := hreply (Or.inr (Or.inl rfl))
      rw [if_pos hempty, he]
      exact ⟨_, rfl⟩
    · rw [if_neg hempty]
      cases s.findByName name with
      | some _ =>
          obtain ⟨effects, he⟩ := hreply (Or.inr (Or.inr rfl))
          dsimp only
          rw [he]
          exact ⟨_, rfl⟩
      | none =>
          obtain ⟨effects, he⟩ := hreply (Or.inl rfl)
          dsimp only
          rw [he]
          exact ⟨_, rfl⟩
  · rw [if_pos htype]
    exact ⟨_, rfl⟩

/-- **The dispatch of a message that was parsed raises nothing.** -/
theorem dispatch_total (hmp : mp.Lawful) {m : Message} (h : Packable mp m) (s : Server) (c : ConnId) :
    ∃ res, dispatch mp s c m = .ok res := by
  unfold dispatch
  by_cases hname : s.name c = []
  · obtain ⟨⟨s', reply⟩, hjoin⟩ := joinHandler_total hmp h s c
    rw [if_pos hname, hjoin, ok_bind]
    dsimp only
    by_cases hname' : s'.name c = []
    · rw [if_neg (not_not.mpr hname')]
      exact ⟨_, rfl⟩
    · obtain ⟨event, hevent⟩ := gameHandler_total hmp h s' c
      rw [if_pos hname', hevent]
      exact ⟨_, rfl⟩
  · obtain ⟨relayed, hrelayed⟩ := chatRoom_total h s c
    obtain ⟨event, hevent⟩ := gameHandler_total hmp h s c
    rw [if_neg hname, hrelayed, ok_bind, hevent]
    exact ⟨_, rfl⟩

/-! ## Addressing -/

/-- A new connection still has its peer, and the bytes behind those accumulated can be parsed. -/
def Benign (mp : Msgpack) (s : Server) : Event → Prop
  | .read c bytes => ∃ res, Protocol.parse (messageCodec mp) ((s.conns c).acc_packet_ ++ bytes) = .ok res
  | .acceptReset _ => False
  | .accept _ | .acceptError _ | .readError _ => True

/-- Such a completion raises nothing. -/
theorem handle_total (hmp : mp.Lawful) {s : Server} {e : Event} (h : Benign mp s e) :
    ∃ res, s.handle mp e = .ok res := by
  cases e with
  | accept c | acceptError c | readError c => exact ⟨_, rfl⟩
  | acceptReset c => exact absurd h not_false
  | read c bytes =>
      obtain ⟨⟨m?, rest⟩, hparse⟩ := h
      unfold Server.handle handleReceive
      dsimp only
      rw [Server.conns_modify]
      dsimp only
      rw [hparse]
      cases m? with
      | none => exact ⟨_, rfl⟩
      | some m =>
          obtain ⟨d, p, hm, hp, hcopy⟩ := parse_message hmp hparse
          obtain ⟨⟨s', effects⟩, hdispatch⟩ := dispatch_total hmp ⟨d, p, hm, hp⟩
            ((s.modify c fun conn => { conn with
                reads := conn.reads - 1, acc_packet_ := conn.acc_packet_ ++ bytes }).modify c
              fun conn => { conn with acc_packet_ := rest }) c
          simp only [ok_bind, hcopy, hdispatch]
          exact ⟨_, rfl⟩

/-- Any other raises. -/
theorem handle_ok_iff (hmp : mp.Lawful) (s : Server) (e : Event) :
    (∃ res, s.handle mp e = .ok res) ↔ Benign mp s e := by
  refine ⟨?_, handle_total hmp⟩
  rintro ⟨res, h⟩
  cases e with
  | accept c | acceptError c | readError c => trivial
  | acceptReset c => cases h
  | read c bytes =>
      unfold Server.handle handleReceive at h
      dsimp only at h
      rw [Server.conns_modify] at h
      obtain ⟨step, hstep, -⟩ := bind_ok h
      obtain ⟨parsed, hparse, -⟩ := bind_ok hstep
      exact ⟨parsed, hparse⟩

/-- **The server goes on as long as it can parse**, in every run and whatever its peers send: a completion raises
    exactly if it accepts a connection that its peer has reset, or if it is a read and `protocol::parse` raises on what
    its connection has accumulated. That does not where the bytes of the connection are a part of a stream of frames;
    and what was parsed there are the messages that stand first. -/
theorem completions_run (hmp : mp.Lawful) {s : Server} {t : List Record}
    (h : Run (Server.Step mp) Server.init t s) :
    (∀ e, (∃ res, s.handle mp e = .ok res) ↔ Benign mp s e) ∧
    ∀ c chunk tail fs, (∀ x ∈ fs, Frames (Protocol.parse (messageCodec mp)) x.1 x.2) →
      (readsOn c t).flatten ++ (chunk ++ tail) = bytes fs →
      (∃ res, s.handle mp (.read c chunk) = .ok res) ∧ parsedOn c t <+: fs.map Prod.fst := by
  refine ⟨handle_ok_iff hmp s, ?_⟩
  intro c chunk tail fs hfs hbytes
  obtain ⟨found, waiting, rfl, hfound, hwaiting⟩ := (server_feeds hmp h c).framed rfl hfs hbytes
  constructor
  · apply handle_total hmp
    rw [← List.append_assoc] at hwaiting
    exact PullParser.pull_ok rfl (fun x hx => hfs x (List.mem_append_right _ hx)) hwaiting
  · rw [hfound, List.map_append]
    exact List.prefix_append _ _

/-- The join request of `a`, in two reads. -/
theorem completions_run_joinA : ∃ s t,
    Server.init.exec Msgpack.reference [.accept 0, .read 0 (joinA.take 4)] = .ok (s, t) ∧
      ∃ res, s.handle Msgpack.reference (.read 0 (joinA.drop 4)) = .ok res := by
  have hread : (Server.init.exec Msgpack.reference [.accept 0, .read 0 (joinA.take 4)]).toOption.map
      (fun x => (readsOn 0 x.2).flatten) = some (joinA.take 4) := by decide
  obtain ⟨s, t, hexec, hreads⟩ := Server.exec_eval hread
  have hframe : Frames (Protocol.parse (messageCodec Msgpack.reference)) (.ofData (.joinMessage [0x61])) joinA :=
    frames_of_pack Msgpack.reference_lawful Msgpack.reference_sized (by decide) (by decide)
  obtain ⟨-, hgoes⟩ := completions_run Msgpack.reference_lawful (Server.run_of_exec hexec)
  refine ⟨s, t, hexec, (hgoes 0 (joinA.drop 4) [] [(.ofData (.joinMessage [0x61]), joinA)] ?_ ?_).1⟩
  · intro x hx
    rw [List.mem_singleton.mp hx]
    exact hframe
  · rw [show (readsOn 0 t).flatten = joinA.take 4 from hreads]
    rfl

end Quizzbot
