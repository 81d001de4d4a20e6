import Quizzbot.Common.Correctness.Frames
import Quizzbot.Server.Correctness.Relay

/-!
# `Server.Correctness.Written` — what the server writes on its sockets

A handler writes the packet of one of the three replies to a join request, or of the message it was given,
whatever the connections and their names. All of them fit in a frame (`written_step`), so every packet
that the server writes is a frame of its message.
-/

namespace Quizzbot

open HexText (ascii)

variable {mp : Msgpack}

/-- Every packet among the effects is that of a message with the property. -/
def Carries (mp : Msgpack) (P : Message → Prop) (effects : List Effect) : Prop :=
  ∀ c m p, .asyncWrite c m p ∈ effects → P m ∧ Protocol.pack (messageCodec mp) m = .ok p

section
variable {P : Message → Prop}

theorem carries_nil : Carries mp P [] := by
  intro c m p h
  cases h

theorem carries_append {effects effects' : List Effect} (h : Carries mp P effects)
    (h' : Carries mp P effects') : Carries mp P (effects ++ effects') := by
  intro c m p hmem
  rcases List.mem_append.mp hmem with hmem | hmem
  · exact h c m p hmem
  · exact h' c m p hmem

theorem carries_push (event : GameEvent) : Carries mp P [.push event] := by
  intro c m p h
  cases List.mem_singleton.mp h

theorem carries_sendCommand {c : ConnId} {m : Message} {effects : List Effect}
    (h : sendCommand mp c m = .ok effects) (hm : P m) : Carries mp P effects := by
  obtain ⟨packet, hpack, h⟩ := bind_ok h
  cases h
  intro c' m' p hmem
  cases List.mem_singleton.mp hmem
  exact ⟨hm, hpack⟩

/-- A loop carries what its body carries. -/
theorem carries_forEach {body : ConnId → Except Fault (List Effect)} {cs : List ConnId}
    {effects : List Effect} (hbody : ∀ c effects, body c = .ok effects → Carries mp P effects)
    (h : forEach body cs = .ok effects) : Carries mp P effects := by
  induction cs generalizing effects with
  | nil => cases h; exact carries_nil
  | cons c cs ih =>
      obtain ⟨head, hhead, h⟩ := bind_ok h
      obtain ⟨rest, hrest, h⟩ := bind_ok h
      cases h
      exact carries_append (hbody c head hhead) (ih hrest)

theorem carries_gameHandler {s : Server} {c : ConnId} {m : Message} {effects : List Effect}
    (h : GameHandler.handle mp s c m = .ok effects) : Carries mp P effects := by
  obtain ⟨copy, -, h⟩ := bind_ok h
  cases h
  exact carries_push _

theorem carries_chatRoom {s : Server} {c : ConnId} {m : Message} {effects : List Effect}
    (h : ChatRoom.handle mp s c m = .ok effects) (hm : P m) : Carries mp P effects := by
  unfold ChatRoom.handle at h
  split at h
  · apply carries_forEach _ h
    intro p effects hbody
    split at hbody
    · exact carries_sendCommand hbody hm
    · cases hbody; exact carries_nil
  · cases h; exact carries_nil

end

/-- The replies to a join request. -/
def JoinReply (m : Message) : Prop :=
  m = .ofData .joinAckMessage ∨ m = .ofData (.joinNackMessage (ascii "Name cannot be empty.")) ∨
    m = .ofData (.joinNackMessage (ascii "Name already exists."))

theorem JoinReply.fits {m : Message} (h : JoinReply m) : Fits m := by
  rcases h with rfl | rfl | rfl <;> decide

theorem carries_joinHandler {s s' : Server} {c : ConnId} {m : Message} {effects : List Effect}
    (h : JoinHandler.handle mp s c m = .ok (s', effects)) : Carries mp JoinReply effects := by
  unfold JoinHandler.handle at h
  split at h
  · cases h; exact carries_nil
  · split at h
    · cases h
    · split at h
      · obtain ⟨nack, hnack, h⟩ := bind_ok h
        cases h
        exact carries_sendCommand hnack (Or.inr (Or.inl rfl))
      · split at h
        · obtain ⟨nack, hnack, h⟩ := bind_ok h
          cases h
          exact carries_sendCommand hnack (Or.inr (Or.inr rfl))
        · obtain ⟨ack, hack, h⟩ := bind_ok h
          cases h
          exact carries_sendCommand hack (Or.inl rfl)

/-- **The handlers write replies and the message itself.** -/
theorem carries_dispatch {s s' : Server} {c : ConnId} {m : Message} {effects : List Effect}
    (h : dispatch mp s c m = .ok (s', effects)) :
    Carries mp (fun m' => JoinReply m' ∨ m' = m) effects := by
  unfold dispatch at h
  split at h
  · obtain ⟨⟨s₁, reply⟩, hjoin, h⟩ := bind_ok h
    have hreply : Carries mp (fun m' => JoinReply m' ∨ m' = m) reply := by
      intro c' m' p hmem
      obtain ⟨hm', hpack⟩ := carries_joinHandler hjoin c' m' p hmem
      exact ⟨Or.inl hm', hpack⟩
    dsimp only at h
    split at h
    · obtain ⟨event, hevent, h⟩ := bind_ok h
      cases h
      exact carries_append hreply (carries_gameHandler hevent)
    · cases h; exact hreply
  · obtain ⟨relay, hrelay, h⟩ := bind_ok h
    obtain ⟨event, hevent, h⟩ := bind_ok h
    cases h
    exact carries_append (carries_chatRoom hrelay (Or.inr rfl)) (carries_gameHandler hevent)

/-- The effects of a step carry replies and what was parsed. -/
theorem carries_step (hmp : mp.Lawful) {s s' : Server} {r : Record} (h : s.Step mp r s') :
    Carries mp (fun m => JoinReply m ∨ r.parsed = some m) r.effects := by
  obtain ⟨-, h⟩ := h
  generalize r.event = e at h
  unfold Server.handle at h
  split at h
  · cases h; exact carries_nil
  · cases h
  · cases h; exact carries_nil
  · obtain ⟨⟨s₁, parsed, effects⟩, hreceive, h⟩ := bind_ok h
    cases h
    unfold handleReceive at hreceive
    obtain ⟨⟨m?, rest⟩, hparse, hreceive⟩ := bind_ok hreceive
    cases m? with
    | none => cases hreceive; exact carries_nil
    | some value =>
        obtain ⟨d, content, -, -, hcopy⟩ := parse_message hmp hparse
        simp only [hcopy, ok_bind] at hreceive
        obtain ⟨⟨s₂, effects₂⟩, hdispatch, hreceive⟩ := bind_ok hreceive
        cases hreceive
        intro c' m' p hmem
        obtain ⟨hm', hpack⟩ := carries_dispatch hdispatch c' m' p hmem
        refine ⟨?_, hpack⟩
        rcases hm' with hreply | rfl
        · exact Or.inl hreply
        · exact Or.inr rfl
  · cases h; exact carries_nil

/-- The bytes of a completion fit in the memory of the connection. -/
def InMemory (s : Server) : Event → Prop
  | .read c bytes => (s.conns c).acc_packet_.length + bytes.length < 2 ^ 32
  | _ => True

instance (s : Server) : (e : Event) → Decidable (InMemory s e)
  | .read _ _ => inferInstanceAs (Decidable (_ < _))
  | .accept _ | .acceptReset _ | .acceptError _ | .readError _ => inferInstanceAs (Decidable True)

/-- **Whatever a peer sends, what the server writes fits in frames**, as long as the buffers fit in
    memory. -/
theorem written_step (hlaw : mp.Lawful) (hmp : mp.Sized) {s s' : Server} {r : Record}
    (h : s.Step mp r s') (hmem : InMemory s r.event) : Carries mp Fits r.effects := by
  intro c m p hwrite
  obtain ⟨hm, hpack⟩ := carries_step hlaw h c m p hwrite
  refine ⟨?_, hpack⟩
  rcases hm with hreply | hparsed
  · exact hreply.fits
  · cases step_cases hlaw h with
    | received he hc hparse hs hp hn hdisp =>
        rw [hp] at hparsed
        cases hparsed
        obtain ⟨d, content, rfl, -, -⟩ := parse_message hlaw hparse
        rw [he] at hmem
        intro d' hd'
        cases hd'
        exact packedSize_le_of_parsed hlaw hmp (by rw [List.length_append]; exact hmem) hparse
    | accepted _ _ hp | acceptFailed _ _ hp | readFailed _ _ hp | silent _ _ _ _ hp =>
        rw [hp] at hparsed
        cases hparsed

end Quizzbot
