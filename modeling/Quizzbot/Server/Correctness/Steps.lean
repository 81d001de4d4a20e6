import Quizzbot.Common.Correctness.MessageCodec
import Quizzbot.Server.Network
import Quizzbot.Lib.MsgpackFormat
import Mathlib.Data.List.Nodup

/-!
# `Server.Correctness.Steps` — what a step of the server can do, and its invariant

`Dispatched` says once what the handlers can do with a message, and `Stepped` what a completion can do to
the server; `step_cases` is the inversion lemma from which the theorems about runs are derived. The
invariant (`Server.Inv`) ties together what the classes maintain separately: only participants have been
touched, no connection object is in the room twice or accepted twice, and no two connections have the
same non-empty name.
-/

namespace Quizzbot

open LabelledRun (Run)

variable {mp : Msgpack}

/-! ## Effects -/

/-- The messages handed to sockets, with their addressees. -/
def sent (effects : List Effect) : List (ConnId × Message) :=
  effects.filterMap fun
    | .asyncWrite c m _ => some (c, m)
    | .push _ => none

/-- The events pushed on the game queue. -/
def pushed (effects : List Effect) : List GameEvent :=
  effects.filterMap fun
    | .asyncWrite _ _ _ => none
    | .push e => some e

@[simp] theorem sent_nil : sent [] = [] := rfl
@[simp] theorem pushed_nil : pushed [] = [] := rfl
@[simp] theorem sent_append (e e' : List Effect) : sent (e ++ e') = sent e ++ sent e' :=
  List.filterMap_append
@[simp] theorem pushed_append (e e' : List Effect) : pushed (e ++ e') = pushed e ++ pushed e' :=
  List.filterMap_append

theorem sendCommand_ok {c : ConnId} {m : Message} {effects : List Effect}
    (h : sendCommand mp c m = .ok effects) : sent effects = [(c, m)] ∧ pushed effects = [] := by
  obtain ⟨packet, -, h⟩ := bind_ok h
  cases h
  exact ⟨rfl, rfl⟩

/-- The room relays to every participant but the emitter, in the order of the list. -/
theorem transmitMessage_ok {s : Server} {emitter : ConnId} {m : Message} {effects : List Effect}
    (h : ChatRoom.transmitMessage mp s emitter m = .ok effects) :
    sent effects = (s.participants_.filter (· ≠ emitter)).map (·, m) ∧ pushed effects = [] := by
  unfold ChatRoom.transmitMessage at h
  generalize s.participants_ = ps at h ⊢
  induction ps generalizing effects with
  | nil => cases h; exact ⟨rfl, rfl⟩
  | cons p ps ih =>
      obtain ⟨head, hhead, h⟩ := bind_ok h
      obtain ⟨rest, hrest, h⟩ := bind_ok h
      cases h
      obtain ⟨hsent, hpushed⟩ := ih hrest
      beta_reduce at hhead
      by_cases hp : p = emitter
      · rw [if_neg (not_not.mpr hp)] at hhead
        cases hhead
        simp [hp, hsent, hpushed]
      · rw [if_pos hp] at hhead
        obtain ⟨hs, hpu⟩ := sendCommand_ok hhead
        simp [hp, hsent, hpushed, hs, hpu]

/-! ## What the handlers do with a message -/

/-- The outcome of `dispatch` for a message parsed on `c`: what becomes of the names of the connections
    (`name` before, `name'` after), and the effects. `ps` are the participants of the room. -/
inductive Dispatched (name : ConnId → CString) (ps : List ConnId) (c : ConnId) (m : Message) :
    (name' : ConnId → CString) → List Effect → Prop
  | ignored (hname : name c = []) (hm : m.messageType ≠ .joinRequest) : Dispatched name ps c m name []
  | refused {error effects} (hname : name c = []) (hm : m.messageType = .joinRequest)
      (hsent : sent effects = [(c, .ofData (.joinNackMessage error))]) (hpushed : pushed effects = []) :
      Dispatched name ps c m name effects
  | joined {n effects} (hname : name c = []) (hm : m = .ofData (.joinMessage n)) (hne : n ≠ [])
      (hfree : ∀ p ∈ ps, name p ≠ n) (hsent : sent effects = [(c, .ofData .joinAckMessage)])
      (hpushed : pushed effects = [⟨n, m⟩]) :
      Dispatched name ps c m (Function.update name c n) effects
  | relayed {effects} (hname : name c ≠ []) (hm : m.messageType = .message)
      (hsent : sent effects = (ps.filter (· ≠ c)).map (·, m)) (hpushed : pushed effects = [⟨name c, m⟩]) :
      Dispatched name ps c m name effects
  | noted {effects} (hname : name c ≠ []) (hm : m.messageType ≠ .message) (hsent : sent effects = [])
      (hpushed : pushed effects = [⟨name c, m⟩]) : Dispatched name ps c m name effects

/-- A join request whose object has a name is made of that name. -/
theorem eq_joinMessage {m : Message} {name : CString} (h : m.data_ >>= MessageData.joinName? = some name) :
    m = .ofData (.joinMessage name) := by
  obtain ⟨d, hd, hname⟩ := Option.bind_eq_some_iff.mp h
  rw [Message.eq_ofData hd]
  obtain ⟨cls, fields, arity⟩ := d
  unfold MessageData.joinName? at hname
  split at hname
  · cases hname
    exact congrArg Message.ofData (MessageData.ext ‹_› ‹_›)
  · cases hname

theorem find_none {s : Server} {name : CString} (hne : name ≠ []) (h : s.findByName name = none) :
    ∀ p ∈ s.participants_, s.name p ≠ name := by
  rw [Server.findByName, if_neg hne, List.find?_eq_none] at h
  intro p hp he
  exact h p hp (decide_eq_true he)

@[simp] theorem name_setName (s : Server) (c : ConnId) (name : CString) :
    (s.setName c name).name = Function.update s.name c name := by
  funext c'
  by_cases h : c' = c
  · subst h; simp [Server.setName, Server.modify, Server.name]
  · simp [Server.setName, Server.modify, Server.name, Function.update_of_ne h]

/-- The game handler pushes one event, stamped with the name the connection has then. -/
theorem gameHandler_ok {s : Server} {c : ConnId} {m : Message} (hcopy : m.copy mp = .ok m)
    {effects : List Effect} (h : GameHandler.handle mp s c m = .ok effects) :
    effects = [.push ⟨s.name c, m⟩] := by
  rw [GameHandler.handle, hcopy] at h
  cases h; rfl

/-- The join handler: no request, a refusal that changes nothing, or a name that was free. -/
theorem joinHandler_cases {s s' : Server} {c : ConnId} {m : Message} {reply : List Effect}
    (h : JoinHandler.handle mp s c m = .ok (s', reply)) :
    (m.messageType ≠ .joinRequest ∧ s' = s ∧ reply = []) ∨
    (m.messageType = .joinRequest ∧ s' = s ∧
      ∃ error, sent reply = [(c, .ofData (.joinNackMessage error))] ∧ pushed reply = []) ∨
    (∃ name, m = .ofData (.joinMessage name) ∧ name ≠ [] ∧ (∀ p ∈ s.participants_, s.name p ≠ name) ∧
      s' = s.setName c name ∧ sent reply = [(c, .ofData .joinAckMessage)] ∧ pushed reply = []) := by
  unfold JoinHandler.handle at h
  by_cases hm : m.messageType = .joinRequest
  · rw [if_neg (not_not.mpr hm)] at h
    cases hdata : m.data_ >>= MessageData.joinName? with
    | none => simp only [hdata] at h; cases h
    | some name =>
        simp only [hdata] at h
        by_cases hne : name = []
        · rw [if_pos hne] at h
          obtain ⟨nack, hnack, h⟩ := bind_ok h
          cases h
          exact Or.inr (Or.inl ⟨hm, rfl, _, sendCommand_ok hnack⟩)
        · rw [if_neg hne] at h
          cases hfind : s.findByName name with
          | some p =>
              simp only [hfind] at h
              obtain ⟨nack, hnack, h⟩ := bind_ok h
              cases h
              exact Or.inr (Or.inl ⟨hm, rfl, _, sendCommand_ok hnack⟩)
          | none =>
              simp only [hfind] at h
              obtain ⟨ack, hack, h⟩ := bind_ok h
              cases h
              exact Or.inr (Or.inr ⟨name, eq_joinMessage hdata, hne, find_none hne hfind, rfl,
                sendCommand_ok hack⟩)
  · rw [if_pos hm] at h
    cases h
    exact Or.inl ⟨hm, rfl, rfl⟩

/-- **What the handlers can do** with a message that can be copied. -/
theorem dispatch_cases {s s' : Server} {c : ConnId} {m : Message} {effects : List Effect}
    (hcopy : m.copy mp = .ok m) (h : dispatch mp s c m = .ok (s', effects)) :
    Dispatched s.name s.participants_ c m s'.name effects ∧ (s' = s ∨ ∃ n, s' = s.setName c n) := by
  unfold dispatch at h
  by_cases hname : s.name c = []
  · rw [if_pos hname] at h
    obtain ⟨⟨s₁, reply⟩, hjoin, hgame⟩ := bind_ok h
    simp only at hgame
    rcases joinHandler_cases hjoin with ⟨hm, rfl, rfl⟩ | ⟨hm, rfl, error, hs, hp⟩ |
      ⟨name, hm, hne, hfree, rfl, hs, hp⟩
    · rw [if_neg (not_not.mpr hname)] at hgame
      cases hgame
      exact ⟨.ignored hname hm, Or.inl rfl⟩
    · rw [if_neg (not_not.mpr hname)] at hgame
      cases hgame
      exact ⟨.refused hname hm hs hp, Or.inl rfl⟩
    · -- the second look at the name sees the one that was just set
      have hnew : (s.setName c name).name c = name := by simp
      rw [if_pos (by rw [hnew]; exact hne)] at hgame
      obtain ⟨event, hevent, hgame⟩ := bind_ok hgame
      cases hgame
      rw [gameHandler_ok hcopy hevent, hnew, name_setName]
      exact ⟨.joined hname hm hne hfree (by rw [sent_append, hs]; rfl) (by rw [pushed_append, hp]; rfl),
        Or.inr ⟨name, rfl⟩⟩
  · rw [if_neg hname] at h
    obtain ⟨relay, hrelay, h⟩ := bind_ok h
    obtain ⟨event, hevent, h⟩ := bind_ok h
    cases h
    rw [gameHandler_ok hcopy hevent]
    by_cases hm : m.messageType = .message
    · simp only [ChatRoom.handle, hm] at hrelay
      obtain ⟨hs, hp⟩ := transmitMessage_ok hrelay
      exact ⟨.relayed hname hm (by rw [sent_append, hs]; exact List.append_nil _)
        (by rw [pushed_append, hp]; rfl), Or.inl rfl⟩
    · have hnil : relay = [] := by
        unfold ChatRoom.handle at hrelay
        split at hrelay
        · exact absurd ‹_› hm
        · cases hrelay; rfl
      subst hnil
      exact ⟨.noted hname hm rfl rfl, Or.inl rfl⟩

/-! ## What a completion does -/

namespace Server

@[simp] theorem participants_modify (s : Server) (c : ConnId) (f : TcpConnection → TcpConnection) :
    (s.modify c f).participants_ = s.participants_ := rfl

@[simp] theorem conns_modify (s : Server) (c : ConnId) (f : TcpConnection → TcpConnection) :
    (s.modify c f).conns c = f (s.conns c) := Function.update_self ..

theorem conns_modify_of_ne {c c' : ConnId} (h : c' ≠ c) (s : Server)
    (f : TcpConnection → TcpConnection) : (s.modify c f).conns c' = s.conns c' :=
  Function.update_of_ne h ..

/-- Changes that leave the name alone. -/
theorem name_modify {s : Server} {c : ConnId} {f : TcpConnection → TcpConnection}
    (hf : (f (s.conns c)).name_ = (s.conns c).name_) : (s.modify c f).name = s.name := by
  funext c'
  by_cases h : c' = c
  · subst h; rw [name, conns_modify, hf, name]
  · rw [name, conns_modify_of_ne h, name]

theorem modify_modify (s : Server) (c : ConnId) (f g : TcpConnection → TcpConnection) :
    (s.modify c f).modify c g = s.modify c (fun conn => g (f conn)) := by
  simp [modify]

end Server

/-- What a read on `c` leaves alone, and what it leaves in the buffer. -/
structure ReadOn (s : Server) (c : ConnId) (rest : Packet) (s' : Server) : Prop where
  participants : s'.participants_ = s.participants_
  accepting    : s'.accepting = s.accepting
  created      : s'.created = s.created
  others       : ∀ c', c' ≠ c → s'.conns c' = s.conns c'
  acc_packet   : (s'.conns c).acc_packet_ = rest
  reads        : (s'.conns c).reads = (s.conns c).reads

/-- The outcome of a step: an accept or its failure, a failed read, or a read, whose bytes are parsed once
    behind those accumulated before. -/
inductive Stepped (mp : Msgpack) (s : Server) (r : Record) (s' : Server) : Prop
  | accepted {c} (he : r.event = .accept c) (hc : c ∈ s.accepting) (hp : r.parsed = none)
      (hes : r.effects = []) (hs : s' = { s with accepting := s.accepting.erase c }.handleNewConnection c)
  | acceptFailed {c} (he : r.event = .acceptError c) (hc : c ∈ s.accepting) (hp : r.parsed = none)
      (hes : r.effects = []) (hs : s' = { s with accepting := s.accepting.erase c })
  | readFailed {c} (he : r.event = .readError c) (hc : 0 < (s.conns c).reads) (hp : r.parsed = none)
      (hes : r.effects = []) (hs : s' = s.modify c fun conn => { conn with reads := conn.reads - 1 })
  | silent {c bytes rest} (he : r.event = .read c bytes) (hc : 0 < (s.conns c).reads)
      (hparse : Protocol.parse (messageCodec mp) ((s.conns c).acc_packet_ ++ bytes) = .ok (none, rest))
      (hs : ReadOn s c rest s') (hp : r.parsed = none) (hes : r.effects = []) (hname : s'.name = s.name)
  | received {c bytes rest m} (he : r.event = .read c bytes) (hc : 0 < (s.conns c).reads)
      (hparse : Protocol.parse (messageCodec mp) ((s.conns c).acc_packet_ ++ bytes) = .ok (some m, rest))
      (hs : ReadOn s c rest s') (hp : r.parsed = some m) (hn : r.name = s.name c)
      (hdisp : Dispatched s.name s.participants_ c m s'.name r.effects)

/-- The whole of a read on `c`: the operation completes, the buffer becomes `rest`, the handlers run, and
    the next read begins. -/
theorem readOn_of_dispatch {s s₂ : Server} {c : ConnId} {rest : Packet} (hc : 0 < (s.conns c).reads)
    (h : s₂ = s.modify c (fun conn => { conn with reads := conn.reads - 1, acc_packet_ := rest }) ∨
      ∃ n, s₂ = (s.modify c (fun conn =>
        { conn with reads := conn.reads - 1, acc_packet_ := rest })).setName c n) :
    ReadOn s c rest (s₂.beginRead c) := by
  have hone : (s.conns c).reads - 1 + 1 = (s.conns c).reads := Nat.sub_add_cancel hc
  rcases h with rfl | ⟨n, rfl⟩
  · rw [Server.beginRead, Server.modify_modify]
    exact ⟨rfl, rfl, rfl, fun c' hc' => Server.conns_modify_of_ne hc' ..,
      by rw [Server.conns_modify], by rw [Server.conns_modify]; exact hone⟩
  · rw [Server.beginRead, Server.setName, Server.modify_modify, Server.modify_modify]
    exact ⟨rfl, rfl, rfl, fun c' hc' => Server.conns_modify_of_ne hc' ..,
      by rw [Server.conns_modify], by rw [Server.conns_modify]; exact hone⟩

/-- **What a step can do.** -/
theorem step_cases (hmp : mp.Lawful) {s s' : Server} {r : Record} (h : s.Step mp r s') :
    Stepped mp s r s' := by
  obtain ⟨hen, h⟩ := h
  cases he : r.event with
  | accept c =>
      rw [he] at hen h
      cases h
      exact .accepted he hen rfl rfl rfl
  | acceptReset c =>
      rw [he] at h
      cases h
  | acceptError c =>
      rw [he] at hen h
      cases h
      exact .acceptFailed he hen rfl rfl rfl
  | readError c =>
      rw [he] at hen h
      cases h
      exact .readFailed he hen rfl rfl rfl
  | read c bytes =>
      rw [he] at hen h
      obtain ⟨⟨s₁, parsed, effects⟩, hrec, h⟩ := bind_ok h
      obtain ⟨⟨m?, rest⟩, hparse, hrec⟩ := bind_ok hrec
      simp only [Server.conns_modify] at hparse hrec
      rw [Server.modify_modify] at hrec
      have hname : (s.modify c fun conn =>
          { conn with reads := conn.reads - 1, acc_packet_ := rest }).name = s.name :=
        Server.name_modify rfl
      cases m? with
      | none =>
          cases hrec
          cases h
          refine .silent he hen.1 hparse (readOn_of_dispatch hen.1 (Or.inl rfl)) rfl rfl ?_
          rw [← hname]; exact Server.name_modify rfl
      | some m =>
          -- the handlers get a copy of the message, which equals it
          obtain ⟨d, p, -, -, hcopy⟩ := parse_message hmp hparse
          simp only [hcopy, ok_bind] at hrec
          obtain ⟨⟨s₂, effects'⟩, hdisp, hrec⟩ := bind_ok hrec
          cases hrec
          cases h
          obtain ⟨hd, hs⟩ := dispatch_cases hcopy hdisp
          rw [hname] at hd
          refine .received he hen.1 hparse (readOn_of_dispatch hen.1 hs) rfl rfl ?_
          have hread : (s₂.beginRead c).name = s₂.name := Server.name_modify rfl
          rw [hread]; exact hd

/-! ## The invariant -/

/-- **The invariant of the server.** -/
structure Server.Inv (s : Server) : Prop where
  fresh              : ∀ c, c ∉ s.participants_ → s.conns c = {}
  accepting_lt       : ∀ c ∈ s.accepting, c < s.created
  participants_lt    : ∀ c ∈ s.participants_, c < s.created
  accepting_nodup    : s.accepting.Nodup
  participants_nodup : s.participants_.Nodup
  disjoint           : ∀ c ∈ s.accepting, c ∉ s.participants_
  unique             : ∀ c c', s.name c ≠ [] → s.name c = s.name c' → c = c'

namespace Server

theorem Inv.participant_of_name {s : Server} (h : s.Inv) {c : ConnId} (hc : s.name c ≠ []) :
    c ∈ s.participants_ := by
  by_contra hnot
  exact hc (by rw [name, h.fresh c hnot])

theorem Inv.participant_of_reads {s : Server} (h : s.Inv) {c : ConnId} (hc : 0 < (s.conns c).reads) :
    c ∈ s.participants_ := by
  by_contra hnot
  rw [h.fresh c hnot] at hc
  exact absurd hc (Nat.lt_irrefl 0)

theorem init_inv : Server.init.Inv where
  fresh _ _ := rfl
  accepting_lt := by decide
  participants_lt := by decide
  accepting_nodup := by decide
  participants_nodup := by decide
  disjoint := by decide
  unique _ _ h _ := absurd rfl h

theorem name_handleNewConnection (s : Server) (c : ConnId) : (s.handleNewConnection c).name = s.name := by
  show (({ s with participants_ := s.participants_ ++ [c] } : Server).modify c
    fun conn => { conn with reads := conn.reads + 1 }).name = s.name
  rw [name_modify rfl]; rfl

/-- The number of the next connection object is new. -/
theorem Inv.created_new {s : Server} (h : s.Inv) :
    s.created ∉ s.accepting ∧ s.created ∉ s.participants_ := by
  constructor
  · intro hmem
    exact Nat.lt_irrefl _ (h.accepting_lt _ hmem)
  · intro hmem
    exact Nat.lt_irrefl _ (h.participants_lt _ hmem)

theorem inv_handleNewConnection {s : Server} {c : ConnId} (h : s.Inv) (hc : c ∈ s.accepting) :
    ({ s with accepting := s.accepting.erase c }.handleNewConnection c).Inv := by
  have hname : ({ s with accepting := s.accepting.erase c }.handleNewConnection c).name = s.name :=
    name_handleNewConnection ..
  have herase : ∀ c' ∈ s.accepting.erase c, c' ≠ c ∧ c' ∈ s.accepting := by
    intro c' hc'
    exact (h.accepting_nodup.mem_erase_iff).mp hc'
  constructor
  · intro c' hc'
    obtain ⟨hnot, hne⟩ : c' ∉ s.participants_ ∧ c' ≠ c := by
      simpa [handleNewConnection, beginRead, startAccept] using hc'
    rw [← h.fresh c' hnot]
    exact Function.update_of_ne hne ..
  · intro c' hc'
    rcases List.mem_append.mp hc' with hc' | hc'
    · exact Nat.lt_succ_of_lt (h.accepting_lt c' (herase c' hc').2)
    · rw [List.mem_singleton.mp hc']; exact Nat.lt_succ_self _
  · intro c' hc'
    rcases List.mem_append.mp hc' with hc' | hc'
    · exact Nat.lt_succ_of_lt (h.participants_lt c' hc')
    · rw [List.mem_singleton.mp hc']; exact Nat.lt_succ_of_lt (h.accepting_lt c hc)
  · -- the connection created for the next accept is new
    apply List.Nodup.append (h.accepting_nodup.erase c) (List.nodup_singleton _)
    intro c' hc' hnew
    rw [List.mem_singleton.mp hnew] at hc'
    exact h.created_new.1 (herase _ hc').2
  · -- the connection that is accepted has not been in the room
    apply List.Nodup.append h.participants_nodup (List.nodup_singleton _)
    intro c' hc' hnew
    rw [List.mem_singleton.mp hnew] at hc'
    exact h.disjoint c hc hc'
  · intro c' hc' hmem
    rcases List.mem_append.mp hmem with hp | hp
    · rcases List.mem_append.mp hc' with hc' | hc'
      · exact h.disjoint c' (herase c' hc').2 hp
      · rw [List.mem_singleton.mp hc'] at hp
        exact h.created_new.2 hp
    · rw [List.mem_singleton.mp hp] at hc'
      rcases List.mem_append.mp hc' with hc' | hc'
      · exact (herase c hc').1 rfl
      · rw [List.mem_singleton.mp hc'] at hc
        exact h.created_new.1 hc
  · rw [hname]; exact h.unique

/-- Whatever the handlers do, names stay unique: a name is given only if no participant has it. -/
theorem unique_dispatched {name name' : ConnId → CString} {ps : List ConnId} {c : ConnId} {m : Message}
    {effects : List Effect} (h : Dispatched name ps c m name' effects)
    (hps : ∀ c, name c ≠ [] → c ∈ ps)
    (hu : ∀ c c', name c ≠ [] → name c = name c' → c = c') :
    ∀ c c', name' c ≠ [] → name' c = name' c' → c = c' := by
  cases h with
  | joined hname hm hne hfree _ _ =>
      intro a b ha hab
      -- the new name is that of no participant, and only participants have names
      by_cases hac : a = c
      · by_cases hbc : b = c
        · rw [hac, hbc]
        · rw [hac, Function.update_self, Function.update_of_ne hbc] at hab
          exact absurd hab.symm (hfree b (hps b (hab ▸ hne)))
      · by_cases hbc : b = c
        · rw [Function.update_of_ne hac] at ha
          rw [hbc, Function.update_self, Function.update_of_ne hac] at hab
          exact absurd hab (hfree a (hps a ha))
        · rw [Function.update_of_ne hac] at ha
          rw [Function.update_of_ne hac, Function.update_of_ne hbc] at hab
          exact hu a b ha hab
  | _ => exact hu

/-- What a read leaves alone is enough for the invariant, as long as names stay unique. -/
theorem inv_readOn {s s' : Server} {c : ConnId} {rest : Packet} (h : s.Inv)
    (hc : 0 < (s.conns c).reads) (hs : ReadOn s c rest s')
    (hu : ∀ c c', s'.name c ≠ [] → s'.name c = s'.name c' → c = c') : s'.Inv where
  fresh c' hc' := by
    rw [hs.participants] at hc'
    have hne : c' ≠ c := by
      intro he
      exact hc' (he ▸ h.participant_of_reads hc)
    rw [hs.others c' hne]
    exact h.fresh c' hc'
  accepting_lt := by rw [hs.accepting, hs.created]; exact h.accepting_lt
  participants_lt := by rw [hs.participants, hs.created]; exact h.participants_lt
  accepting_nodup := by rw [hs.accepting]; exact h.accepting_nodup
  participants_nodup := by rw [hs.participants]; exact h.participants_nodup
  disjoint := by rw [hs.accepting, hs.participants]; exact h.disjoint
  unique := hu

/-- **Every step keeps the invariant.** -/
theorem step_inv (hmp : mp.Lawful) {s s' : Server} {r : Record} (h : s.Inv) (hstep : s.Step mp r s') :
    s'.Inv := by
  cases step_cases hmp hstep with
  | accepted he hc hp hes hs => rw [hs]; exact inv_handleNewConnection h hc
  | @acceptFailed c he hc hp hes hs =>
      subst hs
      have herase : ∀ c' ∈ s.accepting.erase c, c' ∈ s.accepting := by
        intro c' hc'
        exact List.mem_of_mem_erase hc'
      refine ⟨h.fresh, ?_, h.participants_lt, h.accepting_nodup.erase c, h.participants_nodup, ?_,
        h.unique⟩
      · intro c' hc'
        exact h.accepting_lt c' (herase c' hc')
      · intro c' hc'
        exact h.disjoint c' (herase c' hc')
  | @readFailed c he hc hp hes hs =>
      subst hs
      refine ⟨?_, h.accepting_lt, h.participants_lt, h.accepting_nodup, h.participants_nodup,
        h.disjoint, by rw [name_modify rfl]; exact h.unique⟩
      intro c' hc'
      have hne : c' ≠ c := by
        intro he
        exact hc' (by rw [he]; exact h.participant_of_reads hc)
      rw [conns_modify_of_ne hne]
      exact h.fresh c' hc'
  | silent he hc hparse hs hp hes hname =>
      exact inv_readOn h hc hs (by rw [hname]; exact h.unique)
  | received he hc hparse hs hp hn hdisp =>
      exact inv_readOn h hc hs (unique_dispatched hdisp (fun _ => h.participant_of_name) h.unique)

/-- Every reachable state satisfies it. -/
theorem run_inv (hmp : mp.Lawful) {s : Server} {t : List Record} (h : Run (Step mp) Server.init t s) :
    s.Inv := by
  apply h.invariant _ init_inv
  intro s r s' hi hstep
  exact step_inv hmp hi hstep

end Server

/-! ## The history of one connection -/

/-- The step is a read on `c`. -/
def Record.isRead (r : Record) (c : ConnId) : Bool :=
  match r.event with
  | .read c' _ => c' = c
  | _ => false

theorem isRead_of_event {r : Record} {c : ConnId} {bytes : Packet} (he : r.event = .read c bytes)
    (c' : ConnId) : r.isRead c' = decide (c = c') := by rw [Record.isRead, he]

/-- The messages parsed on `c`. -/
def parsedOn (c : ConnId) (t : List Record) : List Message :=
  t.filterMap fun r => if r.isRead c then r.parsed else none

theorem parsedOn_append (c : ConnId) (t t' : List Record) :
    parsedOn c (t ++ t') = parsedOn c t ++ parsedOn c t' := List.filterMap_append

/-- A read is on one connection. -/
theorem isRead_unique {r : Record} {c c' : ConnId} (h : r.isRead c) (h' : r.isRead c') : c = c' := by
  cases he : r.event with
  | read c₀ bytes =>
      rw [isRead_of_event he, decide_eq_true_eq] at h h'
      exact h.symm.trans h'
  | _ => rw [Record.isRead, he] at h; cases h

/-! ## Executions are runs -/

theorem Server.handle_event {s s' : Server} {e : Event} {r : Record} (h : s.handle mp e = .ok (s', r)) :
    r.event = e := by
  cases e with
  | accept c => cases h; rfl
  | acceptReset c => cases h
  | acceptError c => cases h; rfl
  | readError c => cases h; rfl
  | read c bytes =>
      obtain ⟨_, -, h⟩ := bind_ok h
      cases h; rfl

theorem Server.run_of_exec {es : List Event} {s s' : Server} {t : List Record}
    (h : s.exec mp es = .ok (s', t)) : Run (Server.Step mp) s t s' := by
  induction es generalizing s t with
  | nil => cases h; exact .refl
  | cons e es ih =>
      rw [Server.exec] at h
      by_cases hen : s.Enabled e
      · rw [if_pos hen] at h
        obtain ⟨⟨s₁, r⟩, hr, h⟩ := bind_ok h
        obtain ⟨⟨s₂, rs⟩, hrs, h⟩ := bind_ok h
        cases h
        have he := Server.handle_event hr
        exact (Run.single ⟨by rw [he]; exact hen, by rw [he]; exact hr⟩).trans (ih hrs)
      · rw [if_neg hen] at h
        cases h; exact .refl

/-- An execution of which something was computed has an end and a history to compute it from. -/
theorem Server.exec_eval {α : Type} {es : List Event} {s : Server} {f : Server × List Record → α} {v : α}
    (h : (s.exec mp es).toOption.map f = some v) :
    ∃ s' t, s.exec mp es = .ok (s', t) ∧ f (s', t) = v := by
  cases hexec : s.exec mp es with
  | error e => rw [hexec] at h; cases h
  | ok x =>
      rw [hexec] at h
      exact ⟨x.1, x.2, rfl, Option.some.inj h⟩

/-- The packets of the join requests for the names `a` and `b`. -/
def joinA : Packet := [0x01, 0x02, 0x30, 0x33, 0x02, 0xa1, 0x61, 0x30, 0x35]
def joinB : Packet := [0x01, 0x02, 0x30, 0x33, 0x02, 0xa1, 0x62, 0x30, 0x36]

/-- Two players: `a` joins, and `b` does after asking for the same name. -/
def twoPlayers : List Event := [.accept 0, .accept 1, .read 0 joinA, .read 1 joinA, .read 1 joinB]

theorem twoPlayers_joined : ∃ s t, Server.init.exec Msgpack.reference twoPlayers = .ok (s, t) ∧
    s.name 0 = [0x61] ∧ s.name 1 = [0x62] := by
  have hnames : (Server.init.exec Msgpack.reference twoPlayers).toOption.map
      (fun x => (x.1.name 0, x.1.name 1)) = some ([0x61], [0x62]) := by decide
  obtain ⟨s, t, hexec, hpair⟩ := Server.exec_eval hnames
  obtain ⟨h0, h1⟩ := Prod.mk.inj hpair
  exact ⟨s, t, hexec, h0, h1⟩

end Quizzbot
