import Quizzbot.Lib.Run
import Mathlib.Data.List.Basic
import Mathlib.Tactic.SplitIfs

/-!
# `Lib.AsyncWrite` — composed asynchronous writes on one stream

An `async_write` is a chain of `async_write_some` steps: each transfers a non-empty part of what is left of
the chain's own buffer, until nothing is left. A program may start a chain while an earlier one is
unfinished, and then any of them may take the next step. The bytes on the wire are the buffers one after
another as long as only the oldest unfinished chain transfers (`run_prefix`).
-/

namespace AsyncWrite

open LabelledRun (Run)

variable {α : Type}

/-- A chain: its buffer, and how much of it was transferred. -/
structure Chain (α : Type) where
  buffer : List α
  sent   : Nat
  le     : sent ≤ buffer.length

/-- What was transferred, and whether that is all. -/
def Chain.done (c : Chain α) : List α := c.buffer.take c.sent
def Chain.Finished (c : Chain α) : Prop := c.sent = c.buffer.length

instance (c : Chain α) : Decidable c.Finished := inferInstanceAs (Decidable (_ = _))

/-- A stream with the chains that were started on it, oldest first, and what the peer has received. -/
structure Stream (α : Type) where
  chains : List (Chain α) := []
  wire   : List α := []

/-- `async_write`. -/
def Stream.start (s : Stream α) (buffer : List α) : Stream α :=
  { s with chains := s.chains ++ [⟨buffer, 0, Nat.zero_le _⟩] }

/-- One `async_write_some` of the `i`-th chain transfers `n` symbols. -/
def Stream.transfer (s : Stream α) (i n : Nat) : Option (Stream α) :=
  match s.chains[i]? with
  | none => none
  | some c =>
    if h : 0 < n ∧ c.sent + n ≤ c.buffer.length then
      some { chains := s.chains.set i ⟨c.buffer, c.sent + n, h.2⟩,
             wire := s.wire ++ (c.buffer.drop c.sent).take n }
    else none

inductive Op (α : Type) where
  | start (buffer : List α)
  | transfer (i n : Nat)

def Step (s : Stream α) (op : Op α) (s' : Stream α) : Prop :=
  match op with
  | .start buffer => s' = s.start buffer
  | .transfer i n => s.transfer i n = some s'

/-- Only the oldest unfinished chain transfers. -/
def InOrder (s : Stream α) (op : Op α) : Prop :=
  match op with
  | .start _ => True
  | .transfer i _ => ∀ c ∈ s.chains.take i, c.Finished

instance (s : Stream α) : (op : Op α) → Decidable (InOrder s op)
  | .start _ => .isTrue trivial
  | .transfer i _ => inferInstanceAs (Decidable (∀ c ∈ s.chains.take i, c.Finished))

/-- The buffers, in the order of the calls. -/
def buffers (ops : List (Op α)) : List (List α) :=
  ops.filterMap fun
    | .start buffer => some buffer
    | .transfer _ _ => none

/-- What a transfer does to the stream. -/
theorem Stream.transfer_cases {s s' : Stream α} {i n : Nat} (hs : s.transfer i n = some s') :
    ∃ (hlt : i < s.chains.length) (h : 0 < n ∧ s.chains[i].sent + n ≤ s.chains[i].buffer.length),
      s' = { chains := s.chains.set i ⟨s.chains[i].buffer, s.chains[i].sent + n, h.2⟩,
             wire := s.wire ++ (s.chains[i].buffer.drop s.chains[i].sent).take n } := by
  unfold Stream.transfer at hs
  cases hi : s.chains[i]? with
  | none => simp [hi] at hs
  | some c =>
      obtain ⟨hlt, rfl⟩ := List.getElem?_eq_some_iff.mp hi
      simp only [hi] at hs
      split_ifs at hs with hn
      exact ⟨hlt, hn, (Option.some.inj hs).symm⟩

/-! ## The chains behind the wire -/

/-- The wire is what the chains have transferred, one after another, and no chain has begun before the
    ones in front of it are finished. -/
structure Framed (s : Stream α) : Prop where
  wire  : s.wire = (s.chains.map Chain.done).flatten
  order : s.chains.Pairwise fun c c' => 0 < c'.sent → c.Finished

theorem flatten_not_begun {cs : List (Chain α)} (h : ∀ c ∈ cs, c.sent = 0) :
    (cs.map Chain.done).flatten = [] := by
  rw [List.flatten_eq_nil_iff]
  intro l hl
  obtain ⟨c, hc, rfl⟩ := List.mem_map.mp hl
  rw [Chain.done, h c hc, List.take_zero]

/-- What ordered chains have transferred is a prefix of their buffers. -/
theorem done_prefix {cs : List (Chain α)} (h : cs.Pairwise fun c c' => 0 < c'.sent → c.Finished) :
    (cs.map Chain.done).flatten <+: (cs.map Chain.buffer).flatten := by
  induction cs with
  | nil => exact List.prefix_rfl
  | cons c cs ih =>
      obtain ⟨hc, hcs⟩ := List.pairwise_cons.mp h
      simp only [List.map_cons, List.flatten_cons]
      by_cases hfin : c.Finished
      · have hall : c.done = c.buffer := by rw [Chain.done, hfin, List.take_length]
        rw [hall]
        exact (List.prefix_append_right_inj _).mpr (ih hcs)
      · -- the chains behind an unfinished one have not begun
        have hzero : ∀ c' ∈ cs, c'.sent = 0 := by
          intro c' hc'
          by_contra hne
          exact hfin (hc c' hc' (Nat.pos_of_ne_zero hne))
        rw [flatten_not_begun hzero, List.append_nil]
        exact (List.take_prefix _ _).trans (List.prefix_append _ _)

theorem framed_start {s : Stream α} (h : Framed s) (buffer : List α) : Framed (s.start buffer) where
  wire := by
    rw [Stream.start, h.wire]
    simp [Chain.done]
  order := by
    rw [Stream.start, List.pairwise_append]
    refine ⟨h.order, List.pairwise_singleton _ _, ?_⟩
    -- the new chain has not begun, so it asks nothing of the others
    intro c _ c' hc' hsent
    rw [List.mem_singleton.mp hc'] at hsent
    exact absurd hsent (Nat.lt_irrefl 0)

/-- A transfer by the oldest unfinished chain extends what that chain has transferred, and nothing has
    been transferred behind it. -/
theorem framed_transfer {s s' : Stream α} (h : Framed s) {i n : Nat} (hs : s.transfer i n = some s')
    (hord : ∀ c ∈ s.chains.take i, c.Finished) : Framed s' := by
  obtain ⟨hlt, hn, rfl⟩ := Stream.transfer_cases hs
  have hset : ∀ c', s.chains.set i c' = s.chains.take i ++ c' :: s.chains.drop (i + 1) := by
    intro c'
    rw [List.set_eq_take_append_cons_drop, if_pos hlt]
  have hsplit : s.chains = s.chains.take i ++ s.chains[i] :: s.chains.drop (i + 1) := by
    rw [← hset, List.set_getElem_self]
  obtain ⟨hwire, horder⟩ := h
  rw [hsplit] at hwire horder
  obtain ⟨hpre, hcpost, -⟩ := List.pairwise_append.mp horder
  obtain ⟨hc, hpost⟩ := List.pairwise_cons.mp hcpost
  -- the chain that transfers is not finished, so the ones behind it have not begun
  have hunfinished : ¬ s.chains[i].Finished := by rw [Chain.Finished]; omega
  have hzero : ∀ c' ∈ s.chains.drop (i + 1), c'.sent = 0 := by
    intro c' hc'
    by_contra hne
    exact hunfinished (hc c' hc' (Nat.pos_of_ne_zero hne))
  constructor
  · simp only [hset, hwire, List.map_append, List.map_cons, List.flatten_append,
      List.flatten_cons, flatten_not_begun hzero, List.append_nil, List.append_assoc]
    rw [Chain.done, Chain.done, List.take_add]
  · simp only [hset]
    refine List.pairwise_append.mpr ⟨hpre, List.pairwise_cons.mpr ⟨?_, hpost⟩, ?_⟩
    · intro c' hc' hsent
      exact absurd (hzero c' hc') (Nat.ne_of_gt hsent)
    · intro c' hc' _ _ _
      exact hord c' hc'

/-! ## Runs -/

theorem framed_step {s s' : Stream α} {op : Op α} (h : Framed s) (hstep : Step s op s')
    (hord : InOrder s op) : Framed s' := by
  cases op with
  | start buffer => rw [show s' = s.start buffer from hstep]; exact framed_start h buffer
  | transfer i n => exact framed_transfer h hstep hord

/-- The chains of a stream are the buffers of the calls. -/
theorem buffers_step {s s' : Stream α} {op : Op α} (hstep : Step s op s') :
    s'.chains.map Chain.buffer = s.chains.map Chain.buffer ++ buffers [op] := by
  cases op with
  | start buffer =>
      rw [show s' = s.start buffer from hstep]
      simp [Stream.start, buffers]
  | transfer i n =>
      obtain ⟨hlt, hn, rfl⟩ := Stream.transfer_cases hstep
      have hlt' : i < (s.chains.map Chain.buffer).length := by rwa [List.length_map]
      have hself : (s.chains.map Chain.buffer)[i] = s.chains[i].buffer := by rw [List.getElem_map]
      show (s.chains.set i _).map Chain.buffer = s.chains.map Chain.buffer ++ []
      rw [List.map_set, List.append_nil, ← hself]
      exact List.set_getElem_self hlt'

theorem framed_run {s : Stream α} {ops : List (Op α)}
    (h : Run (fun s op s' => Step s op s' ∧ InOrder s op) {} ops s) : Framed s := by
  apply h.invariant (I := Framed)
  · intro s op s' hf hs
    exact framed_step hf hs.1 hs.2
  · exact ⟨rfl, List.Pairwise.nil⟩

theorem buffers_run {s : Stream α} {ops : List (Op α)} (h : Run Step {} ops s) :
    s.chains.map Chain.buffer = buffers ops := by
  induction h with
  | refl => rfl
  | tail _ hs ih => rw [buffers_step hs, ih, buffers, buffers, buffers, List.filterMap_append]

/-- **In order, the wire is a prefix of the buffers**, in every state of every run. -/
theorem run_prefix {s : Stream α} {ops : List (Op α)}
    (h : Run (fun s op s' => Step s op s' ∧ InOrder s op) {} ops s) :
    s.wire <+: (buffers ops).flatten := by
  have hframed := framed_run h
  have hplain : Run Step {} (ops.map id) s := h.relabel id fun _ _ _ hs => hs.1
  rw [List.map_id] at hplain
  rw [hframed.wire, ← buffers_run hplain]
  exact done_prefix hframed.order

end AsyncWrite
