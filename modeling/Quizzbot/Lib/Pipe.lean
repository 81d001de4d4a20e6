import Quizzbot.Lib.AsyncWrite

/-!
# `Lib.Pipe` — a stream with a reader at its other end

The reader takes symbols off the wire in order, as many at a time as have arrived and it asks for. As long
as the writes make progress in order, nothing is lost, doubled or mixed on the way: what was received, what
is on the wire and what is left to be written are together the buffers, in the order of the calls
(`Pipe.conserved`).
-/

namespace AsyncWrite

variable {α : Type}

/-- What is left of a chain's buffer, and of all chains of a stream. -/
def Chain.rest (c : Chain α) : List α := c.buffer.drop c.sent
def Stream.unsent (s : Stream α) : List α := (s.chains.map Chain.rest).flatten

/-- The buffers of a stream, one after another. -/
def Stream.buffered (s : Stream α) : List α := (s.chains.map Chain.buffer).flatten

/-- What chains that have not begun have left is all of their buffers. -/
theorem rest_not_begun {cs : List (Chain α)} (h : ∀ c ∈ cs, c.sent = 0) :
    cs.map Chain.rest = cs.map Chain.buffer := by
  apply List.map_congr_left
  intro c hc
  rw [Chain.rest, h c hc, List.drop_zero]

/-- Ordered chains have transferred the front of their buffers, and the back is left. -/
theorem done_append_rest {cs : List (Chain α)} (h : cs.Pairwise fun c c' => 0 < c'.sent → c.Finished) :
    (cs.map Chain.done).flatten ++ (cs.map Chain.rest).flatten = (cs.map Chain.buffer).flatten := by
  induction cs with
  | nil => rfl
  | cons c cs ih =>
      obtain ⟨hc, hcs⟩ := List.pairwise_cons.mp h
      simp only [List.map_cons, List.flatten_cons]
      by_cases hfin : c.Finished
      · have hdone : c.done = c.buffer := by rw [Chain.done, hfin, List.take_length]
        have hrest : c.rest = [] := by rw [Chain.rest, hfin, List.drop_length]
        rw [hdone, hrest, List.nil_append, List.append_assoc, ih hcs]
      · -- the chains behind an unfinished one have not begun
        have hzero : ∀ c' ∈ cs, c'.sent = 0 := by
          intro c' hc'
          by_contra hne
          exact hfin (hc c' hc' (Nat.pos_of_ne_zero hne))
        rw [flatten_not_begun hzero, rest_not_begun hzero, List.append_nil, ← List.append_assoc,
          Chain.done, Chain.rest, List.take_append_drop]

/-- **In order, the wire and what is left are the buffers.** -/
theorem Framed.wire_append_unsent {s : Stream α} (h : Framed s) : s.wire ++ s.unsent = s.buffered := by
  rw [h.wire, Stream.unsent, Stream.buffered]
  exact done_append_rest h.order

/-- A transfer adds to the wire, and leaves the buffers alone. -/
theorem Stream.wire_transfer {s s' : Stream α} {i n : Nat} (h : s.transfer i n = some s') :
    s.wire <+: s'.wire := by
  obtain ⟨_, _, rfl⟩ := Stream.transfer_cases h
  exact List.prefix_append _ _

theorem Stream.buffer_transfer {s s' : Stream α} {i n : Nat} (h : s.transfer i n = some s') :
    s'.chains.map Chain.buffer = s.chains.map Chain.buffer := by
  have hstep := buffers_step (show Step s (.transfer i n) s' from h)
  rw [hstep]
  exact List.append_nil _

theorem Stream.buffer_start (s : Stream α) (buffer : List α) :
    (s.start buffer).chains.map Chain.buffer = s.chains.map Chain.buffer ++ [buffer] :=
  List.map_append

/-- A transfer leaves less to be written. -/
theorem Stream.unsent_transfer {s s' : Stream α} {i n : Nat} (h : s.transfer i n = some s') :
    s'.unsent.length < s.unsent.length := by
  obtain ⟨hlt, hn, rfl⟩ := Stream.transfer_cases h
  have hset : ∀ c', s.chains.set i c' = s.chains.take i ++ c' :: s.chains.drop (i + 1) := by
    intro c'
    rw [List.set_eq_take_append_cons_drop, if_pos hlt]
  have hsplit : s.chains = s.chains.take i ++ s.chains[i] :: s.chains.drop (i + 1) := by
    rw [← hset, List.set_getElem_self]
  have hrests : ∀ c', ((s.chains.set i c').map Chain.rest).flatten.length + s.chains[i].rest.length
      = (s.chains.map Chain.rest).flatten.length + c'.rest.length := by
    intro c'
    have hbefore := congrArg (fun cs : List (Chain α) => (cs.map Chain.rest).flatten.length) hsplit
    simp only [List.map_append, List.map_cons, List.flatten_append, List.flatten_cons,
      List.length_append] at hbefore
    rw [hset, hbefore]
    simp only [List.map_append, List.map_cons, List.flatten_append, List.flatten_cons, List.length_append]
    omega
  have hless := hrests ⟨s.chains[i].buffer, s.chains[i].sent + n, hn.2⟩
  unfold Stream.unsent
  simp only [Chain.rest, List.length_drop] at hless ⊢
  omega

/-- The oldest chain that is not finished. -/
theorem exists_oldest {cs : List (Chain α)} (h : (cs.map Chain.rest).flatten ≠ []) :
    ∃ (i : Nat) (hi : i < cs.length), ¬ cs[i].Finished ∧ ∀ c ∈ cs.take i, c.Finished := by
  induction cs with
  | nil => exact absurd rfl h
  | cons c cs ih =>
      by_cases hc : c.Finished
      · have hrest : c.rest = [] := by rw [Chain.rest, hc, List.drop_length]
        rw [List.map_cons, List.flatten_cons, hrest, List.nil_append] at h
        obtain ⟨i, hi, hunfinished, hbefore⟩ := ih h
        refine ⟨i + 1, Nat.succ_lt_succ hi, hunfinished, ?_⟩
        intro c' hc'
        rcases List.mem_cons.mp hc' with rfl | hc'
        · exact hc
        · exact hbefore c' hc'
      · exact ⟨0, Nat.zero_lt_succ _, hc, fun c' hc' => absurd hc' List.not_mem_nil⟩

/-- Where something is left, the next transfer in order is possible. -/
theorem Stream.exists_transfer {s : Stream α} (h : s.unsent ≠ []) :
    ∃ i n, InOrder s (.transfer i n) ∧ (s.transfer i n).isSome := by
  obtain ⟨i, hi, hunfinished, hbefore⟩ := exists_oldest h
  have hlt : s.chains[i].sent < s.chains[i].buffer.length := Nat.lt_of_le_of_ne s.chains[i].le hunfinished
  refine ⟨i, 1, hbefore, ?_⟩
  unfold Stream.transfer
  rw [List.getElem?_eq_getElem hi]
  dsimp only
  rw [dif_pos ⟨Nat.one_pos, hlt⟩]
  rfl

/-! ## Pipes -/

/-- A stream, and how much of what is on the wire its reader has received. -/
structure Pipe (α : Type) where
  stream   : Stream α := {}
  received : List α := []
  arrived  : received <+: stream.wire

namespace Pipe

/-- Nothing was written. -/
def new : Pipe α where
  arrived := List.nil_prefix

/-- What has not been received of the wire. -/
def inFlight (p : Pipe α) : List α := p.stream.wire.drop p.received.length

/-- `async_write` at one end. -/
def start (p : Pipe α) (buffer : List α) : Pipe α := { p with stream := p.stream.start buffer }

/-- The writes of several calls. -/
def startAll (p : Pipe α) (buffers : List (List α)) : Pipe α := buffers.foldl start p

/-- One `async_write_some` of the `i`-th call. -/
def transfer (p : Pipe α) (i n : Nat) : Option (Pipe α) :=
  match h : p.stream.transfer i n with
  | none => none
  | some s => some { stream := s, received := p.received,
                     arrived := p.arrived.trans (Stream.wire_transfer h) }

/-- One `async_read_some` at the other end brings `chunk`. -/
def read [DecidableEq α] (p : Pipe α) (chunk : List α) : Option (Pipe α) :=
  if h : p.received ++ chunk <+: p.stream.wire then
    some { stream := p.stream, received := p.received ++ chunk, arrived := h }
  else none

@[simp] theorem startAll_nil (p : Pipe α) : p.startAll [] = p := rfl
@[simp] theorem start_received (p : Pipe α) (buffer : List α) : (p.start buffer).received = p.received := rfl

theorem startAll_received (p : Pipe α) (buffers : List (List α)) :
    (p.startAll buffers).received = p.received := by
  induction buffers generalizing p with
  | nil => rfl
  | cons buffer buffers ih => exact ih (p.start buffer)

theorem startAll_buffers (p : Pipe α) (buffers : List (List α)) :
    (p.startAll buffers).stream.chains.map Chain.buffer = p.stream.chains.map Chain.buffer ++ buffers := by
  induction buffers generalizing p with
  | nil => exact (List.append_nil _).symm
  | cons buffer buffers ih =>
      show ((p.start buffer).startAll buffers).stream.chains.map Chain.buffer = _
      rw [ih, start, Stream.buffer_start, List.append_assoc]; rfl

theorem startAll_framed {p : Pipe α} (h : Framed p.stream) (buffers : List (List α)) :
    Framed (p.startAll buffers).stream := by
  induction buffers generalizing p with
  | nil => exact h
  | cons buffer buffers ih => exact ih (framed_start h buffer)

/-- What a transfer does. -/
theorem transfer_cases {p p' : Pipe α} {i n : Nat} (h : p.transfer i n = some p') :
    p.stream.transfer i n = some p'.stream ∧ p'.received = p.received := by
  unfold transfer at h
  split at h
  · cases h
  · cases h
    exact ⟨‹_›, rfl⟩

/-- What a read does. -/
theorem read_cases [DecidableEq α] {p p' : Pipe α} {chunk : List α} (h : p.read chunk = some p') :
    p'.stream = p.stream ∧ p'.received = p.received ++ chunk := by
  unfold read at h
  split at h
  · cases h
    exact ⟨rfl, rfl⟩
  · cases h

theorem received_append_inFlight (p : Pipe α) : p.received ++ p.inFlight = p.stream.wire := by
  obtain ⟨rest, hrest⟩ := p.arrived
  rw [inFlight, ← hrest, List.drop_left]

/-- A read takes what it brings off the wire. -/
theorem inFlight_read [DecidableEq α] {p p' : Pipe α} {chunk : List α} (h : p.read chunk = some p') :
    p.inFlight = chunk ++ p'.inFlight := by
  obtain ⟨hstream, hreceived⟩ := read_cases h
  have hwire := received_append_inFlight p'
  rw [hstream, hreceived, ← received_append_inFlight p, List.append_assoc] at hwire
  exact (List.append_cancel_left hwire).symm

/-- What is in front on the wire can be read. -/
theorem exists_read [DecidableEq α] (p : Pipe α) (n : Nat) : (p.read (p.inFlight.take n)).isSome := by
  have hfront : p.received ++ p.inFlight.take n <+: p.stream.wire := by
    rw [← received_append_inFlight p]
    exact (List.prefix_append_right_inj _).mpr (List.take_prefix _ _)
  unfold read
  rw [dif_pos hfront]
  rfl

/-- A transfer by the next chain in order is possible, as long as something is left. -/
theorem exists_transfer {p : Pipe α} (h : p.stream.unsent ≠ []) :
    ∃ i n, InOrder p.stream (.transfer i n) ∧ (p.transfer i n).isSome := by
  obtain ⟨i, n, hord, hsome⟩ := Stream.exists_transfer h
  refine ⟨i, n, hord, ?_⟩
  obtain ⟨s', hs'⟩ := Option.isSome_iff_exists.mp hsome
  unfold transfer
  split
  · rename_i hnone
    rw [hs'] at hnone; cases hnone
  · rfl

/-- **Nothing is lost on the way.** -/
theorem conserved {p : Pipe α} (h : Framed p.stream) :
    p.received ++ (p.inFlight ++ p.stream.unsent) = p.stream.buffered := by
  rw [← List.append_assoc, received_append_inFlight, h.wire_append_unsent]

end Pipe

end AsyncWrite
