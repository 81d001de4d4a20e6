import Quizzbot.Client.Correctness.Process

/-!
# `Client.Correctness.Connecting` — how a client gets its connection

The endpoints that the resolver found are tried one after the other, each once, until one accepts
(`dialed_run`). A posted handler that runs before that loses its message, and a socket that is connected stays
so: what is lost is a prefix of what was sent (`handled_run`), and all of it if no endpoint accepts
(`connecting_run`).
-/

namespace Quizzbot

open LabelledRun (Run)

variable {mp : Msgpack} {Endpoint : Type}

namespace ClientConnection

/-! ## What becomes of the messages -/

/-- What becomes of the messages, in the order in which they are sent. -/
structure Handled (t : List (ConnectionEvent Endpoint)) (cl : ClientConnection Endpoint) : Prop where
  sends     : sends t = cl.failed ++ (cl.started.map Prod.fst ++ cl.posted)
  connected : cl.started ≠ [] → cl.socket_ = .connected

theorem handled_step (hmp : mp.Lawful) {t : List (ConnectionEvent Endpoint)}
    {cl cl' : ClientConnection Endpoint} {e : ConnectionEvent Endpoint} (h : Handled t cl)
    (hs : cl.Step mp e cl') : Handled (t ++ [e]) cl' := by
  have hkeeps : cl.started ≠ [] → cl'.socket_ = .connected :=
    fun hne => connected_step hmp hs (h.connected hne)
  cases e with
  | send cmd =>
      have hstate := (send_step hmp hs).1
      subst hstate
      constructor
      · rw [sends_concat_send, h.sends, List.append_assoc, List.append_assoc]
      · exact hkeeps
  | runPosted =>
      obtain ⟨cmd, rest, packet, hposted, -, hrest, ⟨hsocket, hstarted, hfailed⟩ | ⟨hsocket, hstarted, hfailed⟩⟩ :=
        runPosted_step hs
      · constructor
        · rw [sends_concat_other (by simp), h.sends, hposted, hfailed, hstarted, hrest, List.map_append,
            List.append_assoc]
          rfl
        · exact fun _ => connected_step hmp hs hsocket
      · -- nothing was started yet, so the message is lost behind the others that were
        have hnone : cl.started = [] := by
          by_contra hne
          exact hsocket (h.connected hne)
        constructor
        · rw [sends_concat_other (by simp), h.sends, hposted, hfailed, hstarted, hrest, hnone,
            List.append_assoc]
          rfl
        · rw [hstarted]
          exact hkeeps
  | resolved | resolveError | connect =>
      obtain ⟨hposted, hstarted, hfailed⟩ := socket_step hs (by simp) (by simp)
      constructor
      · rw [sends_concat_other (by simp), h.sends, hposted, hstarted, hfailed]
      · rw [hstarted]
        exact hkeeps

/-- **What is lost is a prefix of what was sent**, in every run: the messages are those that were lost, then
    those that were started, then those that are posted. -/
theorem handled_run (hmp : mp.Lawful) {t : List (ConnectionEvent Endpoint)}
    {cl : ClientConnection Endpoint} (h : Run (Step mp) {} t cl) : Handled t cl := by
  induction h with
  | refl => exact ⟨rfl, fun hne => absurd rfl hne⟩
  | tail _ hs ih => exact handled_step hmp ih hs

/-- What is lost stays lost. -/
theorem lost_run (hmp : mp.Lawful) {t : List (ConnectionEvent Endpoint)}
    {cl cl' : ClientConnection Endpoint} (h : Run (Step mp) cl t cl') (hlost : cl.failed ≠ []) :
    cl'.failed ≠ [] := by
  apply h.invariant (I := fun cl => cl.failed ≠ []) _ hlost
  intro cl e cl' hlost hs hfailed
  exact hlost ((failed_step hmp hs).mp hfailed).1

/-! ## The endpoints -/

/-- What the resolver has found. -/
def resolutions (t : List (ConnectionEvent Endpoint)) : List (List Endpoint) :=
  t.filterMap fun
    | .resolved endpoints => some endpoints
    | _ => none

/-- The errors of the connects, in order. -/
def outcomes (t : List (ConnectionEvent Endpoint)) : List Bool :=
  t.filterMap fun
    | .connect err => some err
    | _ => none

theorem dialing_append (t t' : List (ConnectionEvent Endpoint)) :
    resolutions (t ++ t') = resolutions t ++ resolutions t' ∧ outcomes (t ++ t') = outcomes t ++ outcomes t' :=
  ⟨List.filterMap_append, List.filterMap_append⟩

/-- Where the socket stands, by the endpoints that were `tried`: all of them have refused. -/
inductive Dialed (t : List (ConnectionEvent Endpoint)) : SocketState Endpoint → Prop
  | resolving (hfound : resolutions t = []) (hout : outcomes t = []) : Dialed t .resolving
  | unresolved (hfound : resolutions t = []) (hout : outcomes t = []) : Dialed t .gaveUp
  | connecting {tried endpoint endpoints} (hfound : resolutions t = [tried ++ endpoint :: endpoints])
      (hout : outcomes t = tried.map fun _ => true) : Dialed t (.connecting endpoint endpoints)
  | connected {tried endpoint endpoints} (hfound : resolutions t = [tried ++ endpoint :: endpoints])
      (hout : outcomes t = (tried.map fun _ => true) ++ [false]) : Dialed t .connected
  | refused {tried} (hfound : resolutions t = [tried]) (hout : outcomes t = tried.map fun _ => true) :
      Dialed t .gaveUp

/-- Steps that are neither of the resolver nor of a connect. -/
theorem Dialed.stay {t t' : List (ConnectionEvent Endpoint)} {socket : SocketState Endpoint}
    (h : Dialed t socket) (hfound : resolutions t' = resolutions t) (hout : outcomes t' = outcomes t) :
    Dialed t' socket := by
  cases h with
  | resolving hf ho => exact .resolving (hfound.trans hf) (hout.trans ho)
  | unresolved hf ho => exact .unresolved (hfound.trans hf) (hout.trans ho)
  | connecting hf ho => exact .connecting (hfound.trans hf) (hout.trans ho)
  | connected hf ho => exact .connected (hfound.trans hf) (hout.trans ho)
  | refused hf ho => exact .refused (hfound.trans hf) (hout.trans ho)

/-- The completion of a connect: the next endpoint, the end of the list, or success. -/
theorem Dialed.connect {t : List (ConnectionEvent Endpoint)} {endpoint : Endpoint} {endpoints : List Endpoint}
    (h : Dialed t (.connecting endpoint endpoints)) (cl : ClientConnection Endpoint) (err : Bool) :
    Dialed (t ++ [.connect err]) (cl.handleConnect err endpoints).socket_ := by
  cases h with
  | @connecting tried _ _ hfound hout =>
      have hfound' := (dialing_append t [.connect err]).1.trans (List.append_nil _)
      have hout' : outcomes (t ++ [.connect err]) = outcomes t ++ [err] := (dialing_append t [.connect err]).2
      rw [hfound] at hfound'
      rw [hout] at hout'
      cases err with
      | false => exact .connected hfound' hout'
      | true =>
          have hnext : (tried.map fun _ => true) ++ [true] = (tried ++ [endpoint]).map fun _ => true := by
            rw [List.map_append, List.map_singleton]
          rw [hnext] at hout'
          have htried : tried ++ endpoint :: endpoints = (tried ++ [endpoint]) ++ endpoints := by
            rw [List.append_assoc]
            rfl
          rw [htried] at hfound'
          cases endpoints with
          | nil =>
              rw [List.append_nil] at hfound'
              exact .refused hfound' hout'
          | cons next endpoints => exact .connecting hfound' hout'

theorem dialed_step (hmp : mp.Lawful) {t : List (ConnectionEvent Endpoint)}
    {cl cl' : ClientConnection Endpoint} {e : ConnectionEvent Endpoint} (h : Dialed t cl.socket_)
    (hs : cl.Step mp e cl') : Dialed (t ++ [e]) cl'.socket_ := by
  obtain ⟨henabled, hhandle⟩ := hs
  cases e with
  | send cmd =>
      rw [(send_step hmp ⟨henabled, hhandle⟩).1]
      exact h.stay ((dialing_append t _).1.trans (List.append_nil _))
        ((dialing_append t _).2.trans (List.append_nil _))
  | runPosted =>
      have hsocket : cl'.socket_ = cl.socket_ := by
        obtain ⟨cmd, posted, hposted⟩ := List.exists_cons_of_ne_nil henabled
        rw [handle, runPosted, hposted] at hhandle
        obtain ⟨packet, -, hhandle⟩ := bind_ok hhandle
        cases hhandle
        unfold asyncWrite
        dsimp only
        split <;> rfl
      rw [hsocket]
      exact h.stay ((dialing_append t _).1.trans (List.append_nil _))
        ((dialing_append t _).2.trans (List.append_nil _))
  | resolved endpoints =>
      rw [show cl.socket_ = .resolving from henabled] at h
      cases h with
      | resolving hfound hout =>
          have hfound' := (dialing_append t [.resolved endpoints]).1
          have hout' := (dialing_append t [.resolved endpoints]).2
          rw [hfound] at hfound'
          rw [hout] at hout'
          cases endpoints with
          | nil => cases hhandle
          | cons endpoint endpoints =>
              cases hhandle
              exact @Dialed.connecting _ _ [] endpoint endpoints hfound' hout'
  | resolveError =>
      rw [show cl.socket_ = .resolving from henabled] at h
      cases hhandle
      cases h with
      | resolving hfound hout =>
          exact .unresolved ((dialing_append t _).1.trans ((List.append_nil _).trans hfound))
            ((dialing_append t _).2.trans ((List.append_nil _).trans hout))
  | connect err =>
      obtain ⟨endpoint, endpoints, hsocket⟩ := henabled
      rw [hsocket] at h
      rw [handle, hsocket, Except.ok.injEq] at hhandle
      subst hhandle
      exact h.connect cl err

/-- **The endpoints are tried in order**, in every run. -/
theorem dialed_run (hmp : mp.Lawful) {t : List (ConnectionEvent Endpoint)} {cl : ClientConnection Endpoint}
    (h : Run (Step mp) {} t cl) : Dialed t cl.socket_ := by
  induction h with
  | refl => exact .resolving rfl rfl
  | tail _ hs ih => exact dialed_step hmp ih hs

/-- There are no more connects than endpoints. -/
theorem Dialed.outcomes_le {t : List (ConnectionEvent Endpoint)} {socket : SocketState Endpoint}
    (h : Dialed t socket) : (outcomes t).length ≤ (resolutions t).flatten.length := by
  cases h with
  | resolving hfound hout | unresolved hfound hout | refused hfound hout => simp [hfound, hout]
  | connecting hfound hout | connected hfound hout => simp [hfound, hout]

/-- **A client connects to the first endpoint that accepts it**, in every run: those before it have refused, each
    tried once and in order, and there are no other connects; it gives up when there is no endpoint left. What was
    lost was sent before everything that was not, and without a connection everything is lost that is not
    posted. -/
theorem connecting_run (hmp : mp.Lawful) {t : List (ConnectionEvent Endpoint)}
    {cl : ClientConnection Endpoint} (h : Run (Step mp) {} t cl) :
    Dialed t cl.socket_ ∧ (outcomes t).length ≤ (resolutions t).flatten.length ∧
    sends t = cl.failed ++ (cl.started.map Prod.fst ++ cl.posted) ∧
    (cl.socket_ ≠ .connected → sends t = cl.failed ++ cl.posted) := by
  have hdialed := dialed_run hmp h
  have hhandled := handled_run hmp h
  refine ⟨hdialed, hdialed.outcomes_le, hhandled.sends, ?_⟩
  intro hsocket
  have hnone : cl.started = [] := by
    by_contra hne
    exact hsocket (hhandled.connected hne)
  rw [hhandled.sends, hnone]
  rfl

/-- The second endpoint accepts, after the join request was lost. -/
theorem run_earlyConnect : Run (Step Msgpack.reference) ({} : ClientConnection Nat)
    [.send joinRequest, .runPosted, .resolved [0, 1], .connect true, .connect false]
    { socket_ := .connected, failed := [joinRequest] } :=
  run_of_exec (by decide)

theorem connecting_run_early : outcomes
    [.send joinRequest, .runPosted, .resolved [0, 1], .connect true, .connect false] = [true, false] ∧
    Dialed [.send joinRequest, .runPosted, .resolved [0, 1], .connect true, .connect false]
      (SocketState.connected : SocketState Nat) :=
  ⟨rfl, (connecting_run Msgpack.reference_lawful run_earlyConnect).1⟩

end ClientConnection

end Quizzbot
