import Quizzbot.Client.Connection
import Quizzbot.Common.Correctness.MessageCodec
import Quizzbot.Lib.MsgpackFormat

/-!
# `Client.Correctness.Sending` — what becomes of the messages that are sent

Each message passed to `send` is in one of three places: its handler has not run yet, its frame was started
on the connected socket, or its write failed (`Sent`). Handlers run in order, so as long as none has failed
the frames started and the messages posted are together what was sent. A handler that runs before the
socket is connected loses its message, and nothing sends it again: all messages get through exactly if
every handler runs on the connected socket (`allStarted_iff`).
-/

namespace Quizzbot

open LabelledRun (Run Under)

namespace ClientConnection

variable {mp : Msgpack} {Endpoint : Type}

/-- The messages passed to `send`. -/
def sends (t : List (ConnectionEvent Endpoint)) : List Message :=
  t.filterMap fun
    | .send cmd => some cmd
    | _ => none

theorem sends_concat_send (t : List (ConnectionEvent Endpoint)) (cmd : Message) :
    sends (t ++ [.send cmd]) = sends t ++ [cmd] := List.filterMap_append

theorem sends_concat_other {t : List (ConnectionEvent Endpoint)} {e : ConnectionEvent Endpoint}
    (h : ∀ cmd, e ≠ .send cmd) : sends (t ++ [e]) = sends t := by
  rw [sends, List.filterMap_append]
  cases e with
  | send cmd => exact absurd rfl (h cmd)
  | _ => exact List.append_nil _

/-- The messages sent, up to those whose handlers have not run, were each started on the connected socket,
    once and in order, as the packets that `pack` makes of them. -/
def AllStarted (mp : Msgpack) (t : List (ConnectionEvent Endpoint)) (cl : ClientConnection Endpoint) :
    Prop :=
  cl.started.map (·.1) ++ cl.posted = sends t ∧
    ∀ x ∈ cl.started, Protocol.pack (messageCodec mp) x.1 = .ok x.2

/-- A posted handler runs on the connected socket only. -/
def RunsConnected (cl : ClientConnection Endpoint) (e : ConnectionEvent Endpoint) : Prop :=
  e = .runPosted → cl.socket_ = .connected

/-! ## Steps -/

/-- A step that moves the socket on leaves the messages alone. -/
theorem socket_step {cl cl' : ClientConnection Endpoint} {e : ConnectionEvent Endpoint}
    (h : cl.Step mp e cl') (hs : ∀ cmd, e ≠ .send cmd) (hp : e ≠ .runPosted) :
    cl'.posted = cl.posted ∧ cl'.started = cl.started ∧ cl'.failed = cl.failed := by
  obtain ⟨hen, h⟩ := h
  cases e with
  | send cmd => exact absurd rfl (hs cmd)
  | runPosted => exact absurd rfl hp
  | resolveError => cases h; exact ⟨rfl, rfl, rfl⟩
  | resolved endpoints =>
      cases endpoints with
      | nil => cases h
      | cons endpoint endpoints => cases h; exact ⟨rfl, rfl, rfl⟩
  | connect err =>
      obtain ⟨endpoint, endpoints, hsocket⟩ := hen
      simp only [handle, hsocket] at h
      cases h
      cases err with
      | false => exact ⟨rfl, rfl, rfl⟩
      | true => cases endpoints <;> exact ⟨rfl, rfl, rfl⟩

/-- `send` posts the message itself, which can be packed. -/
theorem send_step (hmp : mp.Lawful) {cl cl' : ClientConnection Endpoint} {cmd : Message}
    (h : cl.Step mp (.send cmd) cl') :
    cl' = { cl with posted := cl.posted ++ [cmd] } ∧
      ∃ packet, Protocol.pack (messageCodec mp) cmd = .ok packet := by
  obtain ⟨cmd', hcopy, h⟩ := bind_ok h.2
  cases h
  obtain rfl := Message.eq_of_copy hmp hcopy
  obtain ⟨-, content, -, hcontent⟩ := Message.copy_data hcopy
  exact ⟨rfl, _, by rw [Protocol.pack, show (messageCodec mp).pack cmd' = .ok content from hcontent]; rfl⟩

/-- A posted handler starts the write of its message, or the write fails. -/
theorem runPosted_step {cl cl' : ClientConnection Endpoint} (h : cl.Step mp .runPosted cl') :
    ∃ cmd rest packet, cl.posted = cmd :: rest ∧ Protocol.pack (messageCodec mp) cmd = .ok packet ∧
      cl'.posted = rest ∧
      ((cl.socket_ = .connected ∧ cl'.started = cl.started ++ [(cmd, packet)] ∧
          cl'.failed = cl.failed) ∨
        (cl.socket_ ≠ .connected ∧ cl'.started = cl.started ∧ cl'.failed = cl.failed ++ [cmd])) := by
  obtain ⟨hen, h⟩ := h
  cases hp : cl.posted with
  | nil => exact absurd hp hen
  | cons cmd rest =>
      simp only [handle, runPosted, hp] at h
      obtain ⟨packet, hpacket, h⟩ := bind_ok h
      cases h
      refine ⟨cmd, rest, packet, rfl, hpacket, ?_⟩
      cases hsocket : cl.socket_ <;> simp [asyncWrite]

/-! ## Runs -/

/-- Where the messages sent are. -/
structure Sent (mp : Msgpack) (t : List (ConnectionEvent Endpoint)) (cl : ClientConnection Endpoint) :
    Prop where
  total    : cl.started.length + cl.posted.length + cl.failed.length = (sends t).length
  in_order : cl.failed = [] → cl.started.map (·.1) ++ cl.posted = sends t
  packed   : ∀ x ∈ cl.started, Protocol.pack (messageCodec mp) x.1 = .ok x.2
  packable : ∀ cmd ∈ cl.posted, ∃ packet, Protocol.pack (messageCodec mp) cmd = .ok packet

section
variable {t : List (ConnectionEvent Endpoint)} {cl cl' : ClientConnection Endpoint}

/-- A message that is sent waits behind those that do. -/
theorem Sent.post (h : Sent mp t cl) {cmd : Message}
    (hpack : ∃ packet, Protocol.pack (messageCodec mp) cmd = .ok packet) :
    Sent mp (t ++ [.send cmd]) { cl with posted := cl.posted ++ [cmd] } := by
  constructor
  · have htotal := h.total
    rw [sends_concat_send, List.length_append]
    simp only [List.length_append, List.length_singleton]
    omega
  · intro hf
    rw [sends_concat_send, ← h.in_order hf, List.append_assoc]
  · exact h.packed
  · intro cmd' hcmd'
    rcases List.mem_append.mp hcmd' with hcmd' | hcmd'
    · exact h.packable cmd' hcmd'
    · rw [List.mem_singleton.mp hcmd']; exact hpack

/-- The write of the first of them starts. -/
theorem Sent.start (h : Sent mp t cl) {cmd : Message} {packet : Packet}
    (hposted : cl.posted = cmd :: cl'.posted)
    (hpacket : Protocol.pack (messageCodec mp) cmd = .ok packet)
    (hstarted : cl'.started = cl.started ++ [(cmd, packet)]) (hfailed : cl'.failed = cl.failed) :
    Sent mp (t ++ [.runPosted]) cl' := by
  constructor
  · have htotal := h.total
    rw [hposted, List.length_cons] at htotal
    rw [hstarted, hfailed, sends_concat_other (by simp), List.length_append, List.length_singleton]
    omega
  · rw [hfailed]
    intro hf
    rw [sends_concat_other (by simp), ← h.in_order hf, hstarted, hposted, List.map_append,
      List.append_assoc]
    rfl
  · rw [hstarted]
    intro x hx
    rcases List.mem_append.mp hx with hx | hx
    · exact h.packed x hx
    · rw [List.mem_singleton.mp hx]; exact hpacket
  · intro cmd' hcmd'
    exact h.packable cmd' (by rw [hposted]; exact List.mem_cons_of_mem _ hcmd')

/-- It fails. -/
theorem Sent.fail (h : Sent mp t cl) {cmd : Message} (hposted : cl.posted = cmd :: cl'.posted)
    (hstarted : cl'.started = cl.started) (hfailed : cl'.failed = cl.failed ++ [cmd]) :
    Sent mp (t ++ [.runPosted]) cl' := by
  constructor
  · have htotal := h.total
    rw [hposted, List.length_cons] at htotal
    rw [hstarted, hfailed, sends_concat_other (by simp), List.length_append, List.length_singleton]
    omega
  · rw [hfailed]
    intro hf
    exact absurd hf (List.append_ne_nil_of_right_ne_nil _ (List.cons_ne_nil _ _))
  · rw [hstarted]; exact h.packed
  · intro cmd' hcmd'
    exact h.packable cmd' (by rw [hposted]; exact List.mem_cons_of_mem _ hcmd')

theorem sent_step (hmp : mp.Lawful) {e : ConnectionEvent Endpoint} (h : Sent mp t cl)
    (hstep : cl.Step mp e cl') : Sent mp (t ++ [e]) cl' := by
  have hquiet : (∀ cmd, e ≠ .send cmd) → e ≠ .runPosted → Sent mp (t ++ [e]) cl' := by
    intro hs hp
    obtain ⟨hposted, hstarted, hfailed⟩ := socket_step hstep hs hp
    constructor
    · rw [hposted, hstarted, hfailed, sends_concat_other hs]; exact h.total
    · rw [hposted, hstarted, hfailed, sends_concat_other hs]; exact h.in_order
    · rw [hstarted]; exact h.packed
    · rw [hposted]; exact h.packable
  cases e with
  | send cmd =>
      obtain ⟨rfl, hpack⟩ := send_step hmp hstep
      exact h.post hpack
  | runPosted =>
      obtain ⟨cmd, rest, packet, hposted, hpacket, rfl, hwrite⟩ := runPosted_step hstep
      rcases hwrite with ⟨-, hstarted, hfailed⟩ | ⟨-, hstarted, hfailed⟩
      · exact h.start hposted hpacket hstarted hfailed
      · exact h.fail hposted hstarted hfailed
  | resolved endpoints => exact hquiet (by simp) (by simp)
  | resolveError => exact hquiet (by simp) (by simp)
  | connect err => exact hquiet (by simp) (by simp)

end

theorem sent_run (hmp : mp.Lawful) {t : List (ConnectionEvent Endpoint)} {cl : ClientConnection Endpoint}
    (h : Run (Step mp) {} t cl) : Sent mp t cl := by
  induction h with
  | refl =>
      constructor
      · rfl
      · intro _; rfl
      · intro x hx; cases hx
      · intro cmd hcmd; cases hcmd
  | tail _ hstep ih => exact sent_step hmp ih hstep

/-- All messages are accounted for exactly if no write has failed. -/
theorem Sent.nothing_failed_iff {t : List (ConnectionEvent Endpoint)} {cl : ClientConnection Endpoint}
    (h : Sent mp t cl) : AllStarted mp t cl ↔ cl.failed = [] := by
  constructor
  · rintro ⟨hall, -⟩
    have htotal := h.total
    rw [← hall, List.length_append, List.length_map] at htotal
    exact List.eq_nil_of_length_eq_zero (by omega)
  · intro hf
    exact ⟨h.in_order hf, h.packed⟩

/-- A step makes a write fail exactly if it runs a handler on a socket that is not connected. -/
theorem failed_step (hmp : mp.Lawful) {cl cl' : ClientConnection Endpoint} {e : ConnectionEvent Endpoint}
    (h : cl.Step mp e cl') : cl'.failed = [] ↔ cl.failed = [] ∧ RunsConnected cl e := by
  have hquiet : (∀ cmd, e ≠ .send cmd) → e ≠ .runPosted →
      (cl'.failed = [] ↔ cl.failed = [] ∧ RunsConnected cl e) := by
    intro hs hp
    rw [(socket_step h hs hp).2.2, and_iff_left]
    intro he
    exact absurd he hp
  cases e with
  | send cmd =>
      obtain ⟨rfl, -⟩ := send_step hmp h
      rw [and_iff_left]
      intro he; cases he
  | runPosted =>
      obtain ⟨cmd, rest, packet, -, -, -, hwrite⟩ := runPosted_step h
      rcases hwrite with ⟨hsocket, -, hfailed⟩ | ⟨hsocket, -, hfailed⟩
      · rw [hfailed, and_iff_left]
        intro _; exact hsocket
      · rw [hfailed]
        simp [RunsConnected, hsocket]
  | resolved endpoints => exact hquiet (by simp) (by simp)
  | resolveError => exact hquiet (by simp) (by simp)
  | connect err => exact hquiet (by simp) (by simp)

/-- **No message is lost exactly if every posted handler runs on the connected socket**, in every run; and
    a handler that is posted can always run. -/
theorem allStarted_iff (hmp : mp.Lawful) {t : List (ConnectionEvent Endpoint)}
    {cl : ClientConnection Endpoint} (h : Run (Step mp) {} t cl) :
    (AllStarted mp t cl ↔ Run (Under (Step mp) RunsConnected) {} t cl) ∧
    (cl.posted ≠ [] → ∃ cl', cl.Step mp .runPosted cl') := by
  constructor
  · rw [(sent_run hmp h).nothing_failed_iff]
    apply Run.iff_under (P := fun _ cl => cl.failed = []) rfl _ h
    intro t cl e cl' _ hstep
    exact failed_step hmp hstep
  · intro hne
    obtain ⟨cmd, rest, hposted⟩ := List.exists_cons_of_ne_nil hne
    obtain ⟨packet, hpacket⟩ := (sent_run hmp h).packable cmd (by rw [hposted]; exact List.mem_cons_self ..)
    refine ⟨{ cl with posted := rest }.asyncWrite cmd packet, hne, ?_⟩
    simp only [handle, runPosted, hposted, hpacket]; rfl

theorem run_of_exec {es : List (ConnectionEvent Endpoint)} {cl cl' : ClientConnection Endpoint}
    (h : cl.exec mp es = .ok (some cl')) : Run (Step mp) cl es cl' := by
  induction es generalizing cl with
  | nil => cases h; exact .refl
  | cons e es ih =>
      rw [exec] at h
      by_cases hen : cl.Enabled e
      · rw [if_pos hen] at h
        obtain ⟨cl₁, hcl₁, h⟩ := bind_ok h
        exact (Run.single ⟨hen, hcl₁⟩).trans (ih h)
      · rw [if_neg hen] at h
        cases h

/-- The request that `main` sends first. -/
def joinRequest : Message := .ofData (.joinMessage [0x61])

/-- The first of two endpoints refuses, and the second accepts. -/
def connecting : List (ConnectionEvent Nat) :=
  [.resolved [0, 1], .send joinRequest, .connect true, .connect false]

/-- A handler that runs then starts its write. -/
theorem allStarted_iff_connecting : ∃ cl,
    exec Msgpack.reference {} (connecting ++ [.runPosted]) = .ok (some cl) ∧ cl.posted = [] ∧
      AllStarted Msgpack.reference (connecting ++ [.runPosted]) cl := by
  let cl : ClientConnection Nat := { socket_ := .connected, posted := [joinRequest] }
  let packet : Packet := [0x01, 0x02, 0x30, 0x33, 0x02, 0xa1, 0x61, 0x30, 0x35]
  let cl' : ClientConnection Nat := { socket_ := .connected, started := [(joinRequest, packet)] }
  have hconnected : Run (Step Msgpack.reference) {} connecting cl := run_of_exec (by decide)
  have hexec : exec Msgpack.reference {} (connecting ++ [.runPosted]) = .ok (some cl') := by decide
  have hunder : Run (Under (Step Msgpack.reference) RunsConnected) {} (connecting ++ [.runPosted]) cl' := by
    apply Run.tail (hconnected.under_of_mem _) ⟨⟨by decide, by decide⟩, fun _ => rfl⟩
    -- no handler runs before that
    intro _ e _ he _ hrun
    subst hrun
    exact absurd he (by decide)
  obtain ⟨hiff, -⟩ := allStarted_iff Msgpack.reference_lawful (run_of_exec hexec)
  exact ⟨cl', hexec, rfl, hiff.mpr hunder⟩

/-- The handler runs before the name is resolved. -/
def earlySend : List (ConnectionEvent Nat) :=
  [.send joinRequest, .runPosted, .resolved [0], .connect false]

theorem not_allStarted_earlySend : ∃ cl,
    exec Msgpack.reference {} earlySend = .ok (some cl) ∧ cl.socket_ = .connected ∧ cl.posted = [] ∧
      ¬ AllStarted Msgpack.reference earlySend cl := by
  have hexec : exec Msgpack.reference {} earlySend
      = .ok (some { socket_ := .connected, failed := [joinRequest] }) := by decide
  refine ⟨_, hexec, rfl, rfl, ?_⟩
  rintro ⟨hall, -⟩
  cases hall

end ClientConnection

end Quizzbot
