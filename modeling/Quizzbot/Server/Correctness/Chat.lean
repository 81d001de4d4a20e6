import Quizzbot.Server.Correctness.Join

/-!
# `Server.Correctness.Chat` — chat as an exactly-once, totally ordered broadcast

The room relays a `MESSAGE` in the step that parses it, once to each participant but the emitter, since
the list of participants has no duplicates. So what a joined participant is handed is the one global
sequence of chat messages (`chats`), without its own (`handed_run`), and any two participants agree on
the order of what they both get (`chat_broadcast`).
-/

namespace Quizzbot

open LabelledRun (Run)

variable {mp : Msgpack}

/-! ## Histories -/

/-- The connection a completion belongs to. -/
def Event.conn : Event → ConnId
  | .accept c => c
  | .acceptReset c => c
  | .acceptError c => c
  | .read c _ => c
  | .readError c => c

/-- The chat messages dispatched: each `MESSAGE` parsed on a connection that had a name, with that
    connection. -/
def chats (t : List Record) : List (ConnId × Message) :=
  t.filterMap fun r =>
    match r.parsed with
    | some m => if r.name ≠ [] ∧ m.messageType = .message then some (r.event.conn, m) else none
    | none => none

/-- The chat messages handed to `p`, with the connections on which they were parsed. -/
def handed (p : ConnId) (t : List Record) : List (ConnId × Message) :=
  t.flatMap fun r => (sent r.effects).filterMap fun x =>
    if x.1 = p ∧ x.2.messageType = .message then some (r.event.conn, x.2) else none

theorem chats_append (t t' : List Record) : chats (t ++ t') = chats t ++ chats t' :=
  List.filterMap_append

theorem handed_append (p : ConnId) (t t' : List Record) :
    handed p (t ++ t') = handed p t ++ handed p t' := List.flatMap_append

/-! ## Steps -/

/-- Among the copies of a message sent to `ps`, those for `p`. -/
theorem filterMap_copies (ps : List ConnId) (p c : ConnId) {m : Message} (hm : m.messageType = .message) :
    (ps.map (·, m)).filterMap
        (fun x => if x.1 = p ∧ x.2.messageType = .message then some (c, x.2) else none)
      = (ps.filter (· = p)).map fun _ => (c, m) := by
  induction ps with
  | nil => rfl
  | cons q ps ih => by_cases hq : q = p <;> simp [hq, hm, ih]

/-- One relay hands the message once to each participant but the emitter. -/
theorem filter_relay {ps : List ConnId} (hnodup : ps.Nodup) {p c : ConnId} (hp : p ∈ ps) :
    (ps.filter (· ≠ c)).filter (· = p) = if c ≠ p then [p] else [] := by
  by_cases hc : c = p
  · rw [if_neg (not_not.mpr hc), List.filter_filter, List.filter_eq_nil_iff]
    intro x _ hx
    simp only [Bool.and_eq_true, decide_eq_true_eq] at hx
    exact hx.2 (hx.1.trans hc.symm)
  · -- `p` stands in the list once, and the emitter is somebody else
    have hmem : p ∈ ps.filter (· ≠ c) := by
      rw [List.mem_filter]; exact ⟨hp, decide_eq_true (Ne.symm hc)⟩
    rw [if_pos hc, List.filter_eq, List.count_eq_one_of_mem (hnodup.filter _) hmem]; rfl

/-- **What a step hands to a participant** is the chat message it dispatches, unless it is its own. -/
theorem handed_step (hmp : mp.Lawful) {s s' : Server} {r : Record} (hinv : s.Inv)
    (h : s.Step mp r s') {p : ConnId} (hp : p ∈ s.participants_) :
    handed p [r] = (chats [r]).filter (fun x => x.1 ≠ p) := by
  rw [handed, List.flatMap_singleton]
  rcases (step_cases hmp h).view with ⟨hnone, hes, -⟩ | ⟨c, bytes, m, he, hsome, hname, hdisp⟩
  · simp [hes, chats, hnone]
  · have hconn : r.event.conn = c := by rw [he]; rfl
    generalize s'.name = names, r.effects = effects at hdisp ⊢
    cases hdisp with
    | ignored hn hm => simp [chats, hsome, hname, hn]
    | refused hn hm hsent _ => simp [hsent, chats, hsome, hname, hn, MessageData.messageType,
        MessageClass.messageType, MessageData.joinNackMessage]
    | joined hn hm hne hfree hsent _ => simp [hsent, chats, hsome, hname, hn, MessageData.messageType,
        MessageClass.messageType, MessageData.joinAckMessage]
    | relayed hn hm hsent _ =>
        rw [hsent, hconn, filterMap_copies _ _ _ hm, filter_relay hinv.participants_nodup hp]
        by_cases hc : c = p <;> simp [chats, hsome, hname, hn, hm, hconn, hc]
    | noted hn hm hsent _ => simp [hsent, chats, hsome, hm]

/-- What is sent in a step: a reply to the connection that asked, which had no name, or the message that
    was parsed on a connection with a name, to somebody else. -/
theorem sent_step (hmp : mp.Lawful) {s s' : Server} {r : Record} (h : s.Step mp r s')
    {x : ConnId × Message} (hx : x ∈ sent r.effects) :
    (r.name = [] ∧ x.1 = r.event.conn ∧
      (x.2.messageType = .joinAck ∨ x.2.messageType = .joinNack)) ∨
    (r.name ≠ [] ∧ x.1 ≠ r.event.conn ∧ r.parsed = some x.2 ∧ x.2.messageType = .message) := by
  rcases (step_cases hmp h).view with ⟨-, hes, -⟩ | ⟨c, bytes, m, he, hsome, hname, hdisp⟩
  · rw [hes] at hx; cases hx
  · have hconn : r.event.conn = c := by rw [he]; rfl
    rw [hconn, hname, hsome]
    generalize s'.name = names, r.effects = effects at hdisp hx
    cases hdisp with
    | ignored hn hm => cases hx
    | refused hn hm hsent _ =>
        rw [hsent, List.mem_singleton] at hx
        exact hx ▸ Or.inl ⟨hn, rfl, Or.inr rfl⟩
    | joined hn hm hne hfree hsent _ =>
        rw [hsent, List.mem_singleton] at hx
        exact hx ▸ Or.inl ⟨hn, rfl, Or.inl rfl⟩
    | relayed hn hm hsent _ =>
        rw [hsent] at hx
        obtain ⟨q, hq, rfl⟩ := List.mem_map.mp hx
        exact Or.inr ⟨hn, of_decide_eq_true (List.mem_filter.mp hq).2, rfl, hm⟩
    | noted hn hm hsent _ => rw [hsent] at hx; cases hx

/-! ## Runs -/

/-- **Exactly once and in order**, by induction on the run after the participant has joined. -/
theorem handed_run (hmp : mp.Lawful) {s₁ s₂ : Server} {t₁ t₂ : List Record}
    (h₁ : Run (Server.Step mp) Server.init t₁ s₁) (h₂ : Run (Server.Step mp) s₁ t₂ s₂) {p : ConnId}
    (hp : s₁.name p ≠ []) : handed p t₂ = (chats t₂).filter (fun x => x.1 ≠ p) := by
  induction h₂ with
  | refl => rfl
  | @tail t s r s' hrun hstep ih =>
      have hinv := Server.run_inv hmp (h₁.trans hrun)
      have hname : s.name p ≠ [] := by rw [name_run hmp hrun hp]; exact hp
      rw [handed_append, chats_append, List.filter_append, ih,
        handed_step hmp hinv hstep (hinv.participant_of_name hname)]

theorem sent_run (hmp : mp.Lawful) {s s' : Server} {t : List Record} (h : Run (Server.Step mp) s t s') :
    ∀ r ∈ t, ∀ x ∈ sent r.effects,
      (r.name = [] ∧ x.1 = r.event.conn ∧
        (x.2.messageType = .joinAck ∨ x.2.messageType = .joinNack)) ∨
      (r.name ≠ [] ∧ x.1 ≠ r.event.conn ∧ r.parsed = some x.2 ∧ x.2.messageType = .message) := by
  induction h with
  | refl => intro r hr; cases hr
  | tail _ hstep ih =>
      intro r hr x hx
      rcases List.mem_append.mp hr with hr | hr
      · exact ih r hr x hx
      · rw [List.mem_singleton.mp hr] at hx ⊢
        exact sent_step hmp hstep hx

/-- **Chat is an exactly-once, totally ordered broadcast.** From any reachable state on, a participant
    that has joined is handed the chat messages dispatched on the other connections, each once and in the
    order of their dispatch; two of them agree on what they both get; and nothing that was parsed on a
    nameless connection is sent to anybody. -/
theorem chat_broadcast (hmp : mp.Lawful) {s₁ s₂ : Server} {t₁ t₂ : List Record}
    (h₁ : Run (Server.Step mp) Server.init t₁ s₁) (h₂ : Run (Server.Step mp) s₁ t₂ s₂) :
    (∀ p, s₁.name p ≠ [] → handed p t₂ = (chats t₂).filter (fun x => x.1 ≠ p)) ∧
    (∀ p q, s₁.name p ≠ [] → s₁.name q ≠ [] →
      (handed p t₂).filter (fun x => x.1 ≠ q) = (handed q t₂).filter (fun x => x.1 ≠ p)) ∧
    (∀ r ∈ t₁ ++ t₂, ∀ x ∈ sent r.effects,
      (r.name = [] ∧ x.1 = r.event.conn ∧
        (x.2.messageType = .joinAck ∨ x.2.messageType = .joinNack)) ∨
      (r.name ≠ [] ∧ x.1 ≠ r.event.conn ∧ r.parsed = some x.2 ∧ x.2.messageType = .message)) := by
  refine ⟨?_, ?_, sent_run hmp (h₁.trans h₂)⟩
  · intro p hp
    exact handed_run hmp h₁ h₂ hp
  · intro p q hp hq
    rw [handed_run hmp h₁ h₂ hp, handed_run hmp h₁ h₂ hq, List.filter_filter, List.filter_filter]
    apply List.filter_congr
    intro x _
    exact Bool.and_comm ..

/-- Player `a` greets the others. -/
def greeting : List Event :=
  [.read 0 [0x01, 0x02, 0x30, 0x35, 0x00, 0xa1, 0x68, 0xa1, 0x61, 0x30, 0x64]]

/-- Player `b` is handed what `a` says after both have joined. -/
theorem chat_broadcast_greeting : ∃ s₁ t₁ s₂ t₂,
    Server.init.exec Msgpack.reference twoPlayers = .ok (s₁, t₁) ∧
    s₁.exec Msgpack.reference greeting = .ok (s₂, t₂) ∧
    handed 1 t₂ = [(0, .ofData (.messageMessage [0x68] [0x61]))] := by
  have hcheck : (Server.init.exec Msgpack.reference twoPlayers).toOption.map (fun x => (x.1.name 1,
      (x.1.exec Msgpack.reference greeting).toOption.map fun y => chats y.2))
        = some ([0x62], some [(0, .ofData (.messageMessage [0x68] [0x61]))]) := by decide
  obtain ⟨s₁, t₁, hexec₁, hpair⟩ := Server.exec_eval hcheck
  obtain ⟨h1, hchats⟩ := Prod.mk.inj hpair
  obtain ⟨s₂, t₂, hexec₂, hone⟩ := Server.exec_eval hchats
  obtain ⟨hhanded, -, -⟩ := chat_broadcast Msgpack.reference_lawful
    (Server.run_of_exec hexec₁) (Server.run_of_exec hexec₂)
  refine ⟨s₁, t₁, s₂, t₂, hexec₁, hexec₂, ?_⟩
  have hone : chats t₂ = [(0, .ofData (.messageMessage [0x68] [0x61]))] := hone
  have h1 : s₁.name 1 = [0x62] := h1
  rw [hhanded 1 (by rw [h1]; decide), hone]
  rfl

end Quizzbot
