import Quizzbot.Correctness.Channels

/-!
# `Correctness.Agreement` — clients and server agree on who has joined

A client sends one join request, so it gets at most one reply (`replies_run`), and what the server calls its
connection is the name that was typed (`name_typed`). A client that is past the wait for the reply has taken
the acknowledgement, which the server sent when it set the name; one that was refused has taken the refusal,
and there is no second request that could set it. So in every interleaving the two sides agree, and no two
players have the same name (`join_agreement`).
-/

namespace Quizzbot

open LabelledRun (Run)
open PullParser (bytes)

variable {mp : Msgpack} {Endpoint : Type} {names : ConnId → Option CString}

/-! ## What was sent to a connection -/

/-- A message in one of the packets written to `c` was sent to `c` in some step. -/
theorem sent_of_written {c : ConnId} {t : List Record} {x : Message × Packet} (hx : x ∈ writtenTo c t) :
    ∃ r ∈ t, (c, x.1) ∈ sent r.effects := by
  obtain ⟨r, hr, hx⟩ := List.mem_flatMap.mp hx
  obtain ⟨effect, hmem, heffect⟩ := List.mem_filterMap.mp hx
  cases effect with
  | push event => cases heffect
  | asyncWrite c' m packet =>
      dsimp only at heffect
      split at heffect
      · rename_i hc
        cases heffect
        subst hc
        exact ⟨r, hr, List.mem_filterMap.mpr ⟨_, hmem, rfl⟩⟩
      · cases heffect

/-- And what was sent to it is in one of them. -/
theorem written_of_sent {c : ConnId} {t : List Record} {r : Record} {m : Message} (hr : r ∈ t)
    (hsent : (c, m) ∈ sent r.effects) : m ∈ (writtenTo c t).map Prod.fst := by
  obtain ⟨effect, hmem, heffect⟩ := List.mem_filterMap.mp hsent
  cases effect with
  | push event => cases heffect
  | asyncWrite c' m' packet =>
      cases heffect
      refine List.mem_map.mpr ⟨(m, packet), List.mem_flatMap.mpr ⟨r, hr, ?_⟩, rfl⟩
      exact List.mem_filterMap.mpr ⟨_, hmem, if_pos rfl⟩

/-- An acknowledgement or a refusal. -/
def IsReply (m : Message) : Prop := m.messageType = .joinAck ∨ m.messageType = .joinNack

instance (m : Message) : Decidable (IsReply m) := inferInstanceAs (Decidable (_ ∨ _))

/-- The replies sent to `c`. -/
def repliesTo (c : ConnId) (t : List Record) : List Message :=
  ((t.flatMap fun r => sent r.effects).filter fun x => x.1 = c ∧ IsReply x.2).map Prod.snd

theorem repliesTo_append (c : ConnId) (t t' : List Record) :
    repliesTo c (t ++ t') = repliesTo c t ++ repliesTo c t' := by
  unfold repliesTo
  rw [List.flatMap_append, List.filter_append, List.map_append]

/-- A reply is written to its connection. -/
theorem written_of_reply {c : ConnId} {t : List Record} {m : Message} (hm : m ∈ repliesTo c t) :
    m ∈ (writtenTo c t).map Prod.fst ∧ IsReply m := by
  obtain ⟨⟨c', m'⟩, hx, rfl⟩ := List.mem_map.mp hm
  obtain ⟨hsent, hkind⟩ := List.mem_filter.mp hx
  obtain ⟨r, hr, hsent⟩ := List.mem_flatMap.mp hsent
  have hkind := of_decide_eq_true hkind
  obtain ⟨hc, hreply⟩ := hkind
  dsimp only at hc
  subst hc
  exact ⟨written_of_sent hr hsent, hreply⟩

/-- The join requests that were parsed on `c`. -/
def requestsOn (c : ConnId) (t : List Record) : List Message :=
  (parsedOn c t).filter (·.messageType = .joinRequest)

theorem requestsOn_append (c : ConnId) (t t' : List Record) :
    requestsOn c (t ++ t') = requestsOn c t ++ requestsOn c t' := by
  unfold requestsOn
  rw [parsedOn_append, List.filter_append]

/-- The handlers reply to a request, and to the connection on which it was parsed. -/
theorem replies_dispatched {name name' : ConnId → CString} {ps : List ConnId} {c₀ c : ConnId} {m : Message}
    {effects : List Effect} (h : Dispatched name ps c₀ m name' effects) :
    ((sent effects).filter fun x => x.1 = c ∧ IsReply x.2).length
      ≤ ((if c₀ = c then [m] else []).filter (·.messageType = .joinRequest)).length := by
  have hone : ∀ reply, m.messageType = .joinRequest →
      ([(c₀, reply)].filter fun x : ConnId × Message => x.1 = c ∧ IsReply x.2).length
        ≤ ((if c₀ = c then [m] else []).filter (·.messageType = .joinRequest)).length := by
    intro reply hm
    by_cases hc : c₀ = c
    · have hkept : [m].filter (·.messageType = .joinRequest) = [m] :=
        List.filter_cons_of_pos (by simpa using hm)
      rw [if_pos hc, hkept]
      exact List.length_filter_le _ [(c₀, reply)]
    · rw [List.filter_cons_of_neg (by simp [hc])]
      exact Nat.zero_le _
  cases h with
  | ignored _ _ => exact Nat.zero_le _
  | refused _ hm hsent _ => rw [hsent]; exact hone _ hm
  | joined _ hm _ _ hsent _ =>
      rw [hsent]
      exact hone _ (by rw [hm]; rfl)
  | relayed _ hm hsent _ =>
      rw [hsent, List.filter_eq_nil_iff.mpr]
      · exact Nat.zero_le _
      · intro x hx
        obtain ⟨p, -, rfl⟩ := List.mem_map.mp hx
        simp [IsReply, hm]
  | noted _ _ hsent _ => rw [hsent]; exact Nat.zero_le _

/-- A step replies to the request that it parsed. -/
theorem replies_step (hmp : mp.Lawful) {s s' : Server} {r : Record} (h : s.Step mp r s') (c : ConnId) :
    (repliesTo c [r]).length ≤ (requestsOn c [r]).length := by
  unfold repliesTo requestsOn
  rw [List.flatMap_singleton, List.length_map]
  rcases (step_cases hmp h).view with ⟨-, hes, -⟩ | ⟨c₀, bytes, m, he, hp, -, hdisp⟩
  · rw [hes]
    exact Nat.zero_le _
  · have hparsed : parsedOn c [r] = if c₀ = c then [m] else [] := by
      by_cases hc : c₀ = c
      · subst hc
        rw [(history_read he).2, hp, if_pos rfl]; rfl
      · rw [if_neg hc]
        apply (history_other _).2
        rw [isRead_of_event he]
        exact decide_eq_false hc
    rw [hparsed]
    exact replies_dispatched hdisp

/-- **There is at most one reply for each request.** -/
theorem replies_run (hmp : mp.Lawful) {s : Server} {t : List Record}
    (h : Run (Server.Step mp) Server.init t s) (c : ConnId) :
    (repliesTo c t).length ≤ (requestsOn c t).length := by
  induction h with
  | refl => exact Nat.le_refl 0
  | tail _ hs ih =>
      have hstep := replies_step hmp hs c
      rw [repliesTo_append, requestsOn_append, List.length_append, List.length_append]
      omega

/-- A reply that was sent is among the replies. -/
theorem mem_repliesTo {c : ConnId} {t : List Record} {r : Record} {m : Message} (hr : r ∈ t)
    (hm : (c, m) ∈ sent r.effects) (hreply : IsReply m) : m ∈ repliesTo c t := by
  refine List.mem_map.mpr ⟨(c, m), List.mem_filter.mpr ⟨?_, ?_⟩, rfl⟩
  · exact List.mem_flatMap.mpr ⟨r, hr, hm⟩
  · simpa using hreply

/-- A connection that has a name has asked for it. -/
theorem asked_of_named (hmp : mp.Lawful) {s : Server} {t : List Record}
    (h : Run (Server.Step mp) Server.init t s) {c : ConnId} (hc : s.name c ≠ []) :
    .ofData (.joinMessage (s.name c)) ∈ requestsOn c t := by
  obtain ⟨early, r, late, htrace, -, hread, hparsed, -, -⟩ := pushes_run hmp h hc
  refine List.mem_filter.mpr ⟨List.mem_filterMap.mpr ⟨r, ?_, by rw [if_pos hread, hparsed]⟩, rfl⟩
  rw [htrace]
  exact List.mem_append_right _ (List.mem_cons_self ..)

/-- The request of a connection without a name is granted or refused. -/
theorem answered_dispatched {name name' : ConnId → CString} {ps : List ConnId} {c : ConnId} {m : Message}
    {effects : List Effect} (h : Dispatched name ps c m name' effects) (hc : name c = [])
    (hm : m.messageType = .joinRequest) : ∃ reply, IsReply reply ∧ sent effects = [(c, reply)] := by
  cases h with
  | ignored _ hne => exact absurd hm hne
  | refused _ _ hsent _ => exact ⟨_, Or.inr rfl, hsent⟩
  | joined _ _ _ _ hsent _ => exact ⟨_, Or.inl rfl, hsent⟩
  | relayed hname _ _ _ => exact absurd hc hname
  | noted hname _ _ _ => exact absurd hc hname

/-- That is, in the step that parses it. -/
theorem answered_step (hmp : mp.Lawful) {s s' : Server} {r : Record} (h : s.Step mp r s') {c : ConnId}
    (hc : s.name c = []) (hasked : requestsOn c [r] ≠ []) : repliesTo c [r] ≠ [] := by
  obtain ⟨m, hm⟩ := List.exists_mem_of_ne_nil _ hasked
  obtain ⟨hparsed, htype⟩ := List.mem_filter.mp hm
  obtain ⟨r', hr', hread⟩ := List.mem_filterMap.mp hparsed
  rw [List.mem_singleton.mp hr'] at hread
  split at hread
  · rename_i hisRead
    rcases (step_cases hmp h).view with ⟨hp, -, -⟩ | ⟨c₀, bytes, m', he, hp, -, hdisp⟩
    · rw [hp] at hread; cases hread
    · rw [hp, Option.some.injEq] at hread
      subst hread
      rw [isRead_of_event he, decide_eq_true_eq] at hisRead
      subst hisRead
      obtain ⟨reply, hreply, hsent⟩ := answered_dispatched hdisp hc (of_decide_eq_true htype)
      apply List.ne_nil_of_mem
      exact mem_repliesTo (List.mem_singleton.mpr rfl) (hsent ▸ List.mem_singleton.mpr rfl) hreply
  · cases hread

/-- **Whoever has asked has been answered.** -/
theorem answered_run (hmp : mp.Lawful) {s : Server} {t : List Record}
    (h : Run (Server.Step mp) Server.init t s) {c : ConnId} (hasked : requestsOn c t ≠ []) :
    repliesTo c t ≠ [] := by
  induction h with
  | refl => exact absurd rfl hasked
  | @tail t s r s' hrun hs ih =>
      rw [repliesTo_append]
      by_cases hearly : requestsOn c t = []
      · have hname : s.name c = [] := by
          by_contra hname
          have hmem := asked_of_named hmp hrun hname
          rw [hearly] at hmem
          cases hmem
        rw [requestsOn_append, hearly, List.nil_append] at hasked
        exact List.append_ne_nil_of_right_ne_nil _ (answered_step hmp hs hname hasked)
      · exact List.append_ne_nil_of_left_ne_nil (ih hearly) _

/-- A connection with a name has been sent an acknowledgement, and only such a connection has. -/
theorem ack_iff_named (hmp : mp.Lawful) {s : Server} {t : List Record}
    (h : Run (Server.Step mp) Server.init t s) (c : ConnId) :
    (∃ m ∈ repliesTo c t, m.messageType = .joinAck) ↔ s.name c ≠ [] := by
  have hcount := acks_run hmp h c
  constructor
  · rintro ⟨m, hm, hack⟩ hname
    rw [if_pos hname, acksTo, List.countP_eq_zero] at hcount
    obtain ⟨⟨c', m'⟩, hx, rfl⟩ := List.mem_map.mp hm
    obtain ⟨hmem, hc⟩ := List.mem_filter.mp hx
    have hc := of_decide_eq_true hc
    exact hcount _ hmem (decide_eq_true ⟨hc.1, hack⟩)
  · intro hname
    rw [if_neg hname, acksTo] at hcount
    obtain ⟨x, hx, hxc⟩ := List.countP_pos_iff.mp (hcount ▸ Nat.one_pos)
    obtain ⟨hc, hack⟩ := of_decide_eq_true hxc
    refine ⟨x.2, List.mem_map.mpr ⟨x, List.mem_filter.mpr ⟨hx, ?_⟩, rfl⟩, hack⟩
    exact decide_eq_true ⟨hc, Or.inl hack⟩

/-! ## What a client has asked for -/

/-- The client is in the loop of its GUI, or has left it. -/
def ClientMain.Playing (s : ClientMain) : Prop := ¬ Waiting s ∧ s.pc ≠ .refused

instance (s : ClientMain) : Decidable s.Playing :=
  inferInstanceAs (Decidable (¬ (s.pc = .waitSize ∨ s.pc = .waitEmpty) ∧ s.pc ≠ .refused))

namespace System

variable {hmp : mp.Lawful} {s : System mp Endpoint names} {t : List (Label Endpoint)}

/-- What the server has parsed on the connection of a client was sent by it, in that order. -/
theorem parsed_sublist (hsized : mp.Sized) (h : OrdinaryRun hmp t s) {c : ConnId} (hc : (names c).isSome) :
    (parsedOn c s.server.trace).Sublist (s.clients c).main.state.sent := by
  obtain ⟨handled, waiting, hstarted, hparsed, -⟩ := uplink_run hsized h hc
  have hsub := ClientConnection.started_sublist hmp (s.clients c).net.run
  have hsends := ((linked_run h.of_under).clients c).glued.sends
  rw [hparsed]
  have hfirst : (handled.map Prod.fst).Sublist (ClientConnection.sends (s.clients c).net.trace) := by
    apply List.Sublist.trans _ hsub
    rw [hstarted, List.map_append, List.append_assoc]
    exact List.sublist_append_left _ _
  apply hfirst.trans
  rw [hsends]
  split
  · exact List.Sublist.refl _
  · exact List.nil_sublist _

/-- A client asks once, for the name that was typed. -/
theorem requests_sublist (hsized : mp.Sized) (h : OrdinaryRun hmp t s) {c : ConnId} {n : CString}
    (hc : names c = some n) : (requestsOn c s.server.trace).Sublist [.ofData (.joinMessage n)] := by
  have hsub := (parsed_sublist hsized h (c := c) (by rw [hc]; rfl)).filter
    (fun m => decide (m.messageType = .joinRequest))
  have hname : (names c).getD [] = n := by rw [hc]; rfl
  have hrest : ∀ lines, (ClientMain.requests ((names c).getD []) lines).filter
      (fun m => decide (m.messageType = .joinRequest)) = [] := by
    intro lines
    rw [List.filter_eq_nil_iff]
    intro m hm htype
    have htype := of_decide_eq_true htype
    rcases ClientMain.requests_cases hm with ⟨text, -, -, rfl⟩ | ⟨answer, rfl⟩ <;> cases htype
  rw [ClientMain.sent_run (s.clients c).main.run, ← List.singleton_append, List.filter_append, hrest,
    List.append_nil, hname] at hsub
  exact hsub

/-- **The server calls a client by the name that was typed**, if it has a name for it. -/
theorem name_typed (hsized : mp.Sized) (h : OrdinaryRun hmp t s) {c : ConnId} {n : CString}
    (hc : names c = some n) (hname : s.server.state.name c ≠ []) : s.server.state.name c = n := by
  have hmem := asked_of_named hmp s.server.run hname
  have heq := List.mem_singleton.mp ((requests_sublist hsized h hc).subset hmem)
  simpa [MessageData.joinMessage, MessageData.ext_iff] using Message.ofData_inj.mp heq

/-- What was written to a client is what its main thread has taken, what is in its queue, and what is on its
    way. -/
theorem written_drained (hsized : mp.Sized) (h : OrdinaryRun hmp t s) (c : ConnId) :
    ∃ waiting, waiting <:+ writtenTo c s.server.trace ∧
      (writtenTo c s.server.trace).map Prod.fst = ClientMain.drained (s.clients c).main.trace ++
        ((s.clients c).main.state.queue.queue_ ++ waiting.map Prod.fst) ∧
      (s.clients c).reader.state.aggr_packet_ ++ s.downward c = bytes waiting := by
  obtain ⟨handled, waiting, hwritten, hqueue, hbytes⟩ := downlink_run hsized h c
  have hpushed := ((linked_run h.of_under).clients c).glued.pushed
  have hpolled := ClientMain.polling_run (s.clients c).main.run
  refine ⟨waiting, ⟨handled, hwritten.symm⟩, ?_, hbytes⟩
  rw [hwritten, List.map_append, ← hqueue, ← hpushed, ← hpolled, List.append_assoc]

/-- What the main thread has taken was sent to it. -/
theorem drained_sent (hsized : mp.Sized) (h : OrdinaryRun hmp t s) (c : ConnId) {m : Message}
    (hm : m ∈ ClientMain.drained (s.clients c).main.trace) (hreply : IsReply m) :
    m ∈ repliesTo c s.server.trace := by
  obtain ⟨waiting, -, hwritten, -⟩ := written_drained hsized h c
  have hmem : m ∈ (writtenTo c s.server.trace).map Prod.fst := by
    rw [hwritten]
    exact List.mem_append_left _ hm
  obtain ⟨x, hx, rfl⟩ := List.mem_map.mp hmem
  obtain ⟨r, hr, hsent⟩ := sent_of_written hx
  exact mem_repliesTo hr hsent hreply

/-- **A client that has taken the acknowledgement has its name on the server.** -/
theorem named_of_ack (hsized : mp.Sized) (h : OrdinaryRun hmp t s) (c : ConnId)
    (hack : ∃ m ∈ ClientMain.drained (s.clients c).main.trace, m.messageType = .joinAck) :
    s.server.state.name c ≠ [] := by
  obtain ⟨m, hm, htype⟩ := hack
  exact (ack_iff_named hmp s.server.run c).mp ⟨m, drained_sent hsized h c hm (Or.inl htype), htype⟩

def Playing (s : System mp Endpoint names) (c : ConnId) : Prop := ClientMain.Playing (s.clients c).main.state

theorem named_of_playing (hsized : mp.Sized) (h : OrdinaryRun hmp t s) {c : ConnId} (hplaying : s.Playing c) :
    s.server.state.name c ≠ [] :=
  named_of_ack hsized h c
    ((ClientMain.phase_run (s.clients c).main.run).playing hplaying.1 hplaying.2)

/-- **A client that was refused has no name on the server**, and will not get one. -/
theorem nameless_of_refused (hsized : mp.Sized) (h : OrdinaryRun hmp t s) {c : ConnId}
    (hc : (names c).isSome) (hpc : (s.clients c).main.state.pc = .refused) :
    s.server.state.name c = [] := by
  by_contra hname
  obtain ⟨n, hn⟩ := Option.isSome_iff_exists.mp hc
  obtain ⟨nack, hnack, hnack_type⟩ := ClientMain.refused_run (s.clients c).main.run hpc
  have hnack_sent := drained_sent hsized h c hnack (Or.inr hnack_type)
  obtain ⟨ack, hack_sent, hack_type⟩ := (ack_iff_named hmp s.server.run c).mpr hname
  -- two different replies take two requests
  have hlen := replies_run hmp s.server.run c
  have hone := (requests_sublist hsized h hn).length_le
  rw [List.length_singleton] at hone
  obtain ⟨m, hm⟩ := List.length_eq_one_iff.mp (Nat.le_antisymm (Nat.le_trans hlen hone)
    (List.length_pos_of_mem hack_sent))
  rw [hm] at hnack_sent hack_sent
  rw [List.mem_singleton.mp hnack_sent] at hnack_type
  rw [List.mem_singleton.mp hack_sent, hnack_type] at hack_type
  cases hack_type

/-- **Agreement**, in every run of ordinary steps, whatever the other peers do: a client that plays is known
    to the server by the name that was typed, and one that was refused by none; the server has no other name
    for a client; and two clients that play have different names. -/
theorem join_agreement (hsized : mp.Sized) (h : OrdinaryRun hmp t s) :
    (∀ c n, names c = some n →
      (s.Playing c → s.server.state.name c = n) ∧
      ((s.clients c).main.state.pc = .refused → s.server.state.name c = []) ∧
      (s.server.state.name c ≠ [] → s.server.state.name c = n)) ∧
    ∀ c c', (names c).isSome → (names c').isSome → s.Playing c → s.Playing c' → names c = names c' → c = c' := by
  constructor
  · intro c n hc
    refine ⟨?_, ?_, ?_⟩
    · intro hplaying
      exact name_typed hsized h hc (named_of_playing hsized h hplaying)
    · exact nameless_of_refused hsized h (by rw [hc]; rfl)
    · exact name_typed hsized h hc
  · intro c c' hc hc' hplaying hplaying' hsame
    obtain ⟨n, hn⟩ := Option.isSome_iff_exists.mp hc
    have hname := named_of_playing hsized h hplaying
    have heq := name_typed hsized h hn hname
    have heq' := name_typed hsized h (hsame ▸ hn) (named_of_playing hsized h hplaying')
    exact (Server.run_inv hmp s.server.run).unique c c' hname (heq.trans heq'.symm)

/-- Both players are known by their names, while what `a` has entered is on its way. -/
theorem join_agreement_speaking : ∃ s : System Msgpack.reference Nat twoNames,
    OrdinaryRun Msgpack.reference_lawful speaking s ∧ s.Playing 0 ∧ s.Playing 1 ∧
      s.server.state.name 0 = [0x61] ∧ s.server.state.name 1 = [0x62] := by
  have hend : ∃ s : System Msgpack.reference Nat twoNames, OrdinaryRun Msgpack.reference_lawful speaking s ∧
      ((s.clients 0).main.state.Playing ∧ (s.clients 1).main.state.Playing) := exists_run (by decide +kernel)
  obtain ⟨s, hrun, h0, h1⟩ := hend
  obtain ⟨hnames, -⟩ := join_agreement Msgpack.reference_sized hrun
  exact ⟨s, hrun, h0, h1, (hnames 0 [0x61] rfl).1 h0, (hnames 1 [0x62] rfl).1 h1⟩

end System

end Quizzbot
