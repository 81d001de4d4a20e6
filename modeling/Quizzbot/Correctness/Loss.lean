import Quizzbot.Client.Correctness.Connecting
import Quizzbot.Correctness.Agreement

/-!
# `Correctness.Loss` — what the system can lose

A posted handler that runs before the socket is connected loses its message, and a socket that is connected
stays so: what is lost is a prefix of what was sent (`handled_run`). The first message is the join request, and
nothing else is sent before the server has answered it. So there are two kinds of clients (`lossless_or_stuck`): those
that have lost nothing and lose nothing, whose messages are all handled, on their way, or posted; and those
that have lost their join request, have sent nothing else, and wait forever.
-/

namespace Quizzbot

open LabelledRun (Run Under)

variable {mp : Msgpack} {Endpoint : Type} {names : ConnId → Option CString}

/-! ## The clients of the system -/

namespace Client

variable {name : CString}

/-- The client has lost nothing: what it has sent was started, or is posted. -/
structure Lossless (cl : Client mp Endpoint name) : Prop where
  failed : cl.net.state.failed = []
  sends  : ClientConnection.sends cl.net.trace = cl.net.state.started.map Prod.fst ++ cl.net.state.posted

/-- The client has lost its join request, has sent nothing else, and waits for the reply. -/
structure Stuck (cl : Client mp Endpoint name) : Prop where
  failed  : cl.net.state.failed = [.ofData (.joinMessage name)]
  started : cl.net.state.started = []
  posted  : cl.net.state.posted = []
  waiting : ClientMain.Waiting cl.main.state

/-- The first message that is lost is the join request. -/
theorem failed_cons (hmp : mp.Lawful) {cl : Client mp Endpoint name} (h : cl.Glued)
    (hlost : cl.net.state.failed ≠ []) : ∃ failed,
      cl.net.state.failed = .ofData (.joinMessage name) :: failed ∧
      ClientMain.requests name (ClientMain.entered cl.main.trace)
        = failed ++ (cl.net.state.started.map Prod.fst ++ cl.net.state.posted) := by
  obtain ⟨m, failed, hfailed⟩ := List.exists_cons_of_ne_nil hlost
  have hsends := (ClientConnection.handled_run hmp cl.net.run).sends
  rw [h.sends, hfailed, ClientMain.sent_run cl.main.run] at hsends
  split at hsends
  · rw [List.cons_append, List.cons.injEq] at hsends
    exact ⟨failed, by rw [hfailed, hsends.1], hsends.2⟩
  · cases hsends

end Client

namespace System

variable {hmp : mp.Lawful} {s : System mp Endpoint names} {t : List (Label Endpoint)}

/-- What the server has parsed on the connection of a client was started there. -/
theorem parsed_started (hsized : mp.Sized) (h : OrdinaryRun hmp t s) {c : ConnId} (hc : (names c).isSome)
    {m : Message} (hm : m ∈ parsedOn c s.server.trace) :
    m ∈ (s.clients c).net.state.started.map Prod.fst := by
  obtain ⟨handled, waiting, hstarted, hparsed, -⟩ := uplink_run hsized h hc
  rw [hstarted, List.map_append, ← hparsed]
  exact List.mem_append_left _ hm

/-- A client that has a name on the server has started its join request. -/
theorem started_of_named (hsized : mp.Sized) (h : OrdinaryRun hmp t s) {c : ConnId} (hc : (names c).isSome)
    (hname : s.server.state.name c ≠ []) :
    ∃ m ∈ (s.clients c).net.state.started.map Prod.fst, m.messageType = .joinRequest := by
  have hmem := List.mem_of_mem_filter (asked_of_named hmp s.server.run hname)
  exact ⟨_, parsed_started hsized h hc hmem, rfl⟩

/-- A client that has lost something has no name on the server. -/
theorem nameless_of_lost (hsized : mp.Sized) (h : OrdinaryRun hmp t s) {c : ConnId} (hc : (names c).isSome)
    (hlost : (s.clients c).net.state.failed ≠ []) : s.server.state.name c = [] := by
  by_contra hname
  obtain ⟨failed, -, hrequests⟩ := Client.failed_cons hmp ((linked_run h.of_under).clients c).glued hlost
  obtain ⟨m, hm, htype⟩ := started_of_named hsized h hc hname
  have hmem : m ∈ ClientMain.requests ((names c).getD []) (ClientMain.entered (s.clients c).main.trace) := by
    rw [hrequests]
    exact List.mem_append_right _ (List.mem_append_left _ hm)
  -- a request for a line is no join request
  rcases ClientMain.requests_cases hmem with ⟨text, -, -, rfl⟩ | ⟨answer, rfl⟩ <;> cases htype

/-- A client that has lost something has lost its join request, and has sent nothing else. -/
theorem stuck_of_lost (hsized : mp.Sized) (h : OrdinaryRun hmp t s) {c : ConnId} (hc : (names c).isSome)
    (hlost : (s.clients c).net.state.failed ≠ []) : (s.clients c).Stuck := by
  have hname := nameless_of_lost hsized h hc hlost
  have hentered : ClientMain.entered (s.clients c).main.trace = [] := by
    by_contra hne
    exact named_of_ack hsized h c (ClientMain.entered_run (s.clients c).main.run hne) hname
  obtain ⟨failed, hfailed, hrequests⟩ :=
    Client.failed_cons hmp ((linked_run h.of_under).clients c).glued hlost
  rw [hentered] at hrequests
  obtain ⟨rfl, hrest⟩ := List.append_eq_nil_iff.mp hrequests.symm
  obtain ⟨hstarted, hposted⟩ := List.append_eq_nil_iff.mp hrest
  refine ⟨hfailed, List.map_eq_nil_iff.mp hstarted, hposted, ?_⟩
  by_contra hwaiting
  by_cases hpc : (s.clients c).main.state.pc = .refused
  · -- a refusal is the answer to a request, which the server would have parsed
    obtain ⟨nack, hnack, htype⟩ := ClientMain.refused_run (s.clients c).main.run hpc
    have hsent := drained_sent hsized h c hnack (Or.inr htype)
    have hlen := Nat.lt_of_lt_of_le (List.length_pos_of_mem hsent) (replies_run hmp s.server.run c)
    obtain ⟨m, hm⟩ := List.exists_mem_of_length_pos hlen
    have hmem := parsed_started hsized h hc (List.mem_of_mem_filter hm)
    rw [hstarted] at hmem
    cases hmem
  · exact named_of_playing hsized h ⟨hwaiting, hpc⟩ hname

/-- Nothing is lost but a join request. -/
theorem lossless_or_stuck (hsized : mp.Sized) (h : OrdinaryRun hmp t s) {c : ConnId}
    (hc : (names c).isSome) :
    (s.clients c).Lossless ∨ (s.clients c).Stuck ∧ s.server.state.name c = [] := by
  by_cases hlost : (s.clients c).net.state.failed = []
  · left
    have hsends := (ClientConnection.handled_run hmp (s.clients c).net.run).sends
    rw [hlost, List.nil_append] at hsends
    exact ⟨hlost, hsends⟩
  · right
    exact ⟨stuck_of_lost hsized h hc hlost, nameless_of_lost hsized h hc hlost⟩

/-- A client that has joined has lost nothing. -/
theorem lossless_of_named (hsized : mp.Sized) (h : OrdinaryRun hmp t s) {c : ConnId}
    (hc : (names c).isSome) (hname : s.server.state.name c ≠ []) : (s.clients c).Lossless := by
  rcases lossless_or_stuck hsized h hc with hlossless | ⟨-, hnone⟩
  · exact hlossless
  · exact absurd hnone hname

/-- **Nothing is lost but a join request**, in every run of ordinary steps: what a client has sent was
    started, each message once and in order, or is posted; or else it has lost its join request, has sent
    nothing else, is unknown to the server, and waits. In that case it does so in all later states; a client
    that has joined loses nothing in any of them. -/
theorem loss_run (hsized : mp.Sized) (h : OrdinaryRun hmp t s) {s' : System mp Endpoint names}
    {t' : List (Label Endpoint)} (h' : Run (Under (Step hmp) Ordinary) s t' s') {c : ConnId}
    (hc : (names c).isSome) :
    ((s.clients c).Lossless ∨ (s.clients c).Stuck ∧ s.server.state.name c = []) ∧
    ((s.clients c).Stuck → (s'.clients c).Stuck ∧ s'.server.state.name c = []) ∧
    (s.server.state.name c ≠ [] → (s'.clients c).Lossless) := by
  have hgrows := grows_run h'.of_under
  refine ⟨lossless_or_stuck hsized h hc, ?_, ?_⟩
  · intro hstuck
    obtain ⟨events, -, hnet⟩ := hgrows.net c
    have hlost := ClientConnection.lost_run hmp hnet (by rw [hstuck.failed]; simp)
    rcases lossless_or_stuck hsized (h.trans h') hc with hlossless | hstuck'
    · exact absurd hlossless.failed hlost
    · exact hstuck'
  · intro hname
    obtain ⟨records, -, hserver⟩ := hgrows.server
    apply lossless_of_named hsized (h.trans h') hc
    rw [name_run hmp hserver hname]
    exact hname

/-- The request of `a` is posted before there is a connection. -/
def hasty : List (Label Nat) :=
  [.client 0 .type, .client 0 (.net .runPosted), .client 0 (.net (.resolved [0])),
   .client 0 (.net (.connect false)), .client 0 (.main 0 (.ok []))]

/-- It waits when it has connected, and it would after any further steps. -/
theorem loss_run_hasty : ∃ s : System Msgpack.reference Nat twoNames,
    OrdinaryRun Msgpack.reference_lawful hasty s ∧ (s.clients 0).net.state.socket_ = .connected ∧
      (s.clients 0).Stuck ∧ s.server.state.name 0 = [] := by
  have hend : ∃ s : System Msgpack.reference Nat twoNames, OrdinaryRun Msgpack.reference_lawful hasty s ∧
      ((s.clients 0).net.state.socket_ = .connected ∧ (s.clients 0).net.state.failed ≠ []) :=
    exists_run (by decide +kernel)
  obtain ⟨s, hrun, hconnected, hlost⟩ := hend
  obtain ⟨hkinds, -⟩ := loss_run Msgpack.reference_sized hrun .refl (c := 0) rfl
  rcases hkinds with hlossless | hstuck
  · exact absurd hlossless.failed hlost
  · exact ⟨s, hrun, hconnected, hstuck⟩

end System

end Quizzbot
