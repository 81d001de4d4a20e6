import Mathlib.Data.List.Infix
import Mathlib.Logic.Function.Basic
import Quizzbot.Lib.Run

/-!
# `Lib.Broadcast` — ordered broadcast to members that come late

Members submit messages, and a sequencer puts them into one log, those of a member in the order in which it
submitted them. A member that has joined is due what the others have put into the log since then: its *feed*.
It may skip a part of it before it starts, and is shown the rest as far as it has come.

- `fifo_run`: the messages of a member in the log, and those that wait, are those that it has submitted.
- `shown_contiguous`: a member is shown a contiguous part of the others' messages in the log, so any two
  members agree on the order of what they are both shown (`shown_agree`).
-/

namespace Broadcast

open LabelledRun (Run)

variable {ι μ : Type}

/-- The log, what each member has submitted that is not in it yet, the length of the log when it joined, and
    how much of its feed it has skipped and has come to. -/
structure State (ι μ : Type) where
  log     : List (ι × μ) := []
  pending : ι → List μ := fun _ => []
  joined  : ι → Option Nat := fun _ => none
  skipped : ι → Nat := fun _ => 0
  seen    : ι → Nat := fun _ => 0

inductive Op (ι μ : Type) where
  | submit (i : ι) (m : μ)
  | join (i : ι)
  | order (i : ι) (m : μ)
  | skip (i : ι) (k : Nat)
  | deliver (i : ι) (k : Nat)

section
variable [DecidableEq ι]

/-- What a member is due that has joined when the log had that length: the messages of the others since. -/
def due (log : List (ι × μ)) (i : ι) : Option Nat → List (ι × μ)
  | none => []
  | some n => (log.drop n).filter fun x => x.1 ≠ i

def State.feed (s : State ι μ) (i : ι) : List (ι × μ) := due s.log i (s.joined i)

/-- What it is shown. -/
def State.shown (s : State ι μ) (i : ι) : List (ι × μ) :=
  ((s.feed i).take (s.seen i)).drop (s.skipped i)

/-- One step. Only members that have joined speak, a part of the feed can be skipped only at its beginning, and
    nobody is shown what is not in the log. -/
inductive Step : State ι μ → Op ι μ → State ι μ → Prop
  | submit {s i m} :
      Step s (.submit i m) { s with pending := Function.update s.pending i (s.pending i ++ [m]) }
  | join {s i} (h : s.joined i = none) :
      Step s (.join i) { s with joined := Function.update s.joined i (some s.log.length) }
  | order {s i m rest} (hjoined : (s.joined i).isSome) (hpending : s.pending i = m :: rest) :
      Step s (.order i m)
        { s with log := s.log ++ [(i, m)], pending := Function.update s.pending i rest }
  | skip {s i k} (hseen : s.seen i = 0) (hk : k ≤ (s.feed i).length) :
      Step s (.skip i k)
        { s with skipped := Function.update s.skipped i k, seen := Function.update s.seen i k }
  | deliver {s i k} (hk : s.seen i + k ≤ (s.feed i).length) :
      Step s (.deliver i k) { s with seen := Function.update s.seen i (s.seen i + k) }

/-! ## Feeds -/

/-- A feed is a contiguous part of what the others have said. -/
theorem feed_suffix (s : State ι μ) (i : ι) : s.feed i <:+ s.log.filter fun x => x.1 ≠ i := by
  unfold State.feed
  cases s.joined i with
  | none => exact List.nil_suffix
  | some n => exact (List.drop_suffix n s.log).filter _

/-- **A member is shown a contiguous part of what the others have said.** -/
theorem shown_contiguous (s : State ι μ) (i : ι) : s.shown i <:+: s.log.filter fun x => x.1 ≠ i := by
  have htake : s.shown i <:+: s.feed i :=
    (List.drop_suffix _ _).isInfix.trans (List.take_prefix _ _).isInfix
  exact htake.trans (feed_suffix s i).isInfix

/-- **Two members agree**: without their own messages, what they are shown are two contiguous parts of one
    sequence. -/
theorem shown_agree (s : State ι μ) (i j : ι) :
    (s.shown i).filter (fun x => x.1 ≠ j) <:+: s.log.filter (fun x => x.1 ≠ i ∧ x.1 ≠ j) ∧
    (s.shown j).filter (fun x => x.1 ≠ i) <:+: s.log.filter (fun x => x.1 ≠ i ∧ x.1 ≠ j) := by
  have hi := (shown_contiguous s i).filter fun x => x.1 ≠ j
  have hj := (shown_contiguous s j).filter fun x => x.1 ≠ i
  rw [List.filter_filter] at hi hj
  have hswap : (fun x : ι × μ => decide (x.1 ≠ j) && decide (x.1 ≠ i))
      = fun x => decide (x.1 ≠ i ∧ x.1 ≠ j) := by
    funext x
    rw [← Bool.decide_and, decide_eq_decide]
    exact and_comm
  have hsame : (fun x : ι × μ => decide (x.1 ≠ i) && decide (x.1 ≠ j))
      = fun x => decide (x.1 ≠ i ∧ x.1 ≠ j) := by
    funext x
    rw [← Bool.decide_and]
  rw [hswap] at hi
  rw [hsame] at hj
  exact ⟨hi, hj⟩

/-! ## What every step keeps -/

/-- Nobody has come further than its feed goes. -/
structure Inv (s : State ι μ) : Prop where
  seen_le    : ∀ i, s.seen i ≤ (s.feed i).length
  skipped_le : ∀ i, s.skipped i ≤ s.seen i
  joined_le  : ∀ i n, s.joined i = some n → n ≤ s.log.length

theorem inv_new : Inv ({} : State ι μ) where
  seen_le _ := Nat.le_refl 0
  skipped_le _ := Nat.le_refl 0
  joined_le _ _ h := by cases h

/-- What holds of one member after a change, and of all others as before, holds of all. -/
theorem forall_update {β : Type} {P : ι → β → Prop} {f : ι → β} {i : ι} {b : β} (h : ∀ j, P j (f j))
    (hi : P i b) : ∀ j, P j (Function.update f i b j) := by
  intro j
  by_cases hj : j = i
  · subst hj; rw [Function.update_self]; exact hi
  · rw [Function.update_of_ne hj]; exact h j

/-- A member that joins is due nothing yet. -/
theorem feed_join {s : State ι μ} {i : ι} (h : s.joined i = none) (j : ι) :
    State.feed { s with joined := Function.update s.joined i (some s.log.length) } j = s.feed j := by
  show due s.log j (Function.update s.joined i (some s.log.length) j) = due s.log j (s.joined j)
  by_cases hj : j = i
  · subst hj
    rw [Function.update_self, h]
    show (s.log.drop s.log.length).filter _ = []
    rw [List.drop_length, List.filter_nil]
  · rw [Function.update_of_ne hj]

/-- A message is for the others that have joined. -/
theorem feed_order {s : State ι μ} (h : Inv s) (i : ι) (m : μ) (pending : ι → List μ) (j : ι) :
    State.feed { s with log := s.log ++ [(i, m)], pending := pending } j
      = s.feed j ++ if (s.joined j).isSome ∧ i ≠ j then [(i, m)] else [] := by
  show due (s.log ++ [(i, m)]) j (s.joined j) = due s.log j (s.joined j) ++ _
  cases hj : s.joined j with
  | none => rfl
  | some n =>
      rw [due, due, List.drop_append_of_le_length (h.joined_le j n hj), List.filter_append]
      by_cases hij : i = j <;> simp [hij]

theorem inv_step {s s' : State ι μ} {op : Op ι μ} (h : Inv s) (hs : Step s op s') : Inv s' := by
  cases hs with
  | submit => exact ⟨h.seen_le, h.skipped_le, h.joined_le⟩
  | @join i hi =>
      constructor
      · intro j
        rw [feed_join hi]
        exact h.seen_le j
      · exact h.skipped_le
      · apply forall_update (P := fun _ joined => ∀ n, joined = some n → n ≤ s.log.length) h.joined_le
        rintro n ⟨⟩
        exact Nat.le_refl _
  | @order i m rest _ _ =>
      constructor
      · intro j
        rw [feed_order h, List.length_append]
        exact Nat.le_add_right_of_le (h.seen_le j)
      · exact h.skipped_le
      · intro j n hj
        rw [List.length_append]
        exact Nat.le_add_right_of_le (h.joined_le j n hj)
  | @skip i k _ hk =>
      constructor
      · exact forall_update (P := fun j n => n ≤ (s.feed j).length) h.seen_le hk
      · intro j
        by_cases hj : j = i
        · subst hj; simp
        · simp only [Function.update_of_ne hj]; exact h.skipped_le j
      · exact h.joined_le
  | @deliver i k hk =>
      constructor
      · exact forall_update (P := fun j n => n ≤ (s.feed j).length) h.seen_le hk
      · exact forall_update (P := fun j n => s.skipped j ≤ n) h.skipped_le
          (Nat.le_add_right_of_le (h.skipped_le i))
      · exact h.joined_le

theorem inv_run {s : State ι μ} {ops : List (Op ι μ)} (h : Run Step {} ops s) : Inv s := by
  apply h.invariant (I := Inv)
  · intro s op s' hs hstep
    exact inv_step hs hstep
  · exact inv_new

/-! ## First in, first out -/

/-- What a member has submitted. -/
def submitted (i : ι) (ops : List (Op ι μ)) : List μ :=
  ops.filterMap fun
    | .submit j m => if j = i then some m else none
    | _ => none

/-- What it has said: its messages in the log. -/
def State.said (s : State ι μ) (i : ι) : List μ := (s.log.filter fun x => x.1 = i).map Prod.snd

theorem said_order (s : State ι μ) (i : ι) (m : μ) (pending : ι → List μ) (j : ι) :
    State.said { s with log := s.log ++ [(i, m)], pending := pending } j
      = s.said j ++ if i = j then [m] else [] := by
  unfold State.said
  rw [List.filter_append, List.map_append]
  by_cases hij : i = j <;> simp [hij]

/-- **Each message that was submitted is in the log or waits**, once, and in the order of its member. -/
theorem fifo_run {s : State ι μ} {ops : List (Op ι μ)} (h : Run Step {} ops s) (i : ι) :
    submitted i ops = s.said i ++ s.pending i := by
  induction h with
  | refl => rfl
  | @tail ops s op s' hrun hs ih =>
      rw [submitted, List.filterMap_append, ← submitted, ih]
      cases hs with
      | @submit j m =>
          show _ = s.said i ++ Function.update s.pending j (s.pending j ++ [m]) i
          by_cases hj : j = i
          · subst hj; simp
          · simp [hj, Function.update_of_ne (Ne.symm hj)]
      | @order j m rest _ hpending =>
          rw [said_order]
          show _ = _ ++ Function.update s.pending j rest i
          by_cases hj : j = i
          · subst hj; simp [hpending]
          · simp [hj, Function.update_of_ne (Ne.symm hj)]
      | join _ | skip _ _ | deliver _ => exact List.append_nil _

/-- Submissions one after the other. -/
theorem submit_run (s : State ι μ) (i : ι) (ms : List μ) : Run Step s (ms.map (.submit i))
    { s with pending := Function.update s.pending i (s.pending i ++ ms) } := by
  induction ms using List.reverseRecOn with
  | nil =>
      rw [List.append_nil, Function.update_eq_self]
      exact .refl
  | append_singleton ms m ih =>
      have hlast := ih.tail (.submit (i := i) (m := m))
      rw [List.map_append]
      simpa [Function.update_idem] using hlast

end

end Broadcast
