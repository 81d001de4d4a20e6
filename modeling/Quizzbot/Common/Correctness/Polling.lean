import Quizzbot.Common.EventQueue

/-!
# `Common.Correctness.Polling` — the queue delivers what is pushed

A push adds an element to the queue, and taking a batch moves the whole content to the consumer, whatever
was pushed since the size was read. So what was taken and what is in the queue together are, after every
step, what was pushed (`polling_linear`).
-/

namespace Quizzbot

open LabelledRun (Run)

namespace Polling

section
variable {ι α : Type}

/-! ## Histories -/

/-- The elements pushed, with their producers, in the order of the pushes. -/
def pushes (t : List (QueueOp ι α)) : List (ι × α) :=
  t.filterMap fun
    | .push i x => some (i, x)
    | _ => none

/-- What one producer pushed. -/
def pushesOf [DecidableEq ι] (i : ι) (t : List (QueueOp ι α)) : List α :=
  t.filterMap fun
    | .push i' x => if i' = i then some x else none
    | _ => none

/-- The batches the consumer took. -/
def batches (t : List (QueueOp ι α)) : List (List α) :=
  t.filterMap fun
    | .empty batch => some batch
    | _ => none

@[simp] theorem pushes_append (t t' : List (QueueOp ι α)) : pushes (t ++ t') = pushes t ++ pushes t' :=
  List.filterMap_append

@[simp] theorem batches_append (t t' : List (QueueOp ι α)) :
    batches (t ++ t') = batches t ++ batches t' := List.filterMap_append

@[simp] theorem pushes_push (i : ι) (x : α) : pushes [.push i x] = [(i, x)] := rfl
@[simp] theorem pushes_size (n : Nat) : pushes [(.size n : QueueOp ι α)] = [] := rfl
@[simp] theorem pushes_empty (batch : List α) : pushes [(.empty batch : QueueOp ι α)] = [] := rfl
@[simp] theorem batches_push (i : ι) (x : α) : batches [.push i x] = [] := rfl
@[simp] theorem batches_size (n : Nat) : batches [(.size n : QueueOp ι α)] = [] := rfl
@[simp] theorem batches_empty (batch : List α) : batches [(.empty batch : QueueOp ι α)] = [batch] := rfl

/-- The pushes of one producer are its part of all pushes. -/
theorem pushesOf_eq [DecidableEq ι] (i : ι) (t : List (QueueOp ι α)) :
    pushesOf i t = ((pushes t).filter (·.1 = i)).map Prod.snd := by
  induction t with
  | nil => rfl
  | cons op t ih =>
      cases op with
      | push i' x =>
          by_cases hi : i' = i <;> simp_all [pushesOf, pushes]
      | size n => simpa [pushesOf, pushes] using ih
      | empty batch => simpa [pushesOf, pushes] using ih

/-- If every element tells who pushed it, those of one producer are what it pushed. -/
theorem filter_owner [DecidableEq ι] {owner : α → ι} {ps : List (ι × α)}
    (h : ∀ p ∈ ps, owner p.2 = p.1) (i : ι) :
    (ps.map Prod.snd).filter (owner · = i) = (ps.filter (·.1 = i)).map Prod.snd := by
  rw [List.filter_map]
  congr 1
  apply List.filter_congr
  intro p hp
  rw [Function.comp_apply, h p hp]

/-! ## Runs -/

/-- **What was taken and what is still there is what was pushed**, by induction on the run. -/
theorem taken_append_queue {s : Polling α} {t : List (QueueOp ι α)} (h : Run Step {} t s) :
    (batches t).flatten ++ s.queue.queue_ = (pushes t).map Prod.snd := by
  induction h with
  | refl => rfl
  | tail _ hs ih =>
      cases hs with
      | push =>
          rw [pushes_append, batches_append, batches_push, List.append_nil, EventQueue.push,
            ← List.append_assoc, ih, pushes_push, List.map_append]
          rfl
      | size => rw [pushes_append, batches_append, batches_size, pushes_size, List.append_nil,
          List.append_nil, ih]
      | empty _ =>
          -- the content moves to the consumer
          rw [pushes_append, batches_append, batches_empty, pushes_empty, List.append_nil, ← ih,
            List.flatten_append, List.flatten_singleton]
          exact List.append_nil _

/-- **The queue is linear**: in every run of the producers and the polling consumer, the batches taken so
    far and then the content of the queue are the elements pushed, in the order of the pushes. The elements
    of each producer are among them in its order; and if the elements tell who pushed them, those of a
    producer are exactly what it pushed. -/
theorem polling_linear [DecidableEq ι] {s : Polling α} {t : List (QueueOp ι α)}
    (h : Run Step {} t s) :
    (batches t).flatten ++ s.queue.queue_ = (pushes t).map Prod.snd ∧
    (∀ i, (pushesOf i t).Sublist ((batches t).flatten ++ s.queue.queue_)) ∧
    (∀ owner : α → ι, (∀ p ∈ pushes t, owner p.2 = p.1) → ∀ i,
      ((batches t).flatten ++ s.queue.queue_).filter (owner · = i) = pushesOf i t) := by
  have hlin := taken_append_queue h
  refine ⟨hlin, ?_, ?_⟩
  · intro i
    rw [hlin, pushesOf_eq]
    exact List.filter_sublist.map _
  · intro owner hown i
    rw [hlin, pushesOf_eq]
    exact filter_owner hown i

end

/-- Two producers, and a push between the check and the take. -/
theorem polling_linear_two : ∃ (s : Polling Nat) (t : List (QueueOp Bool Nat)),
    t = [.push true 1, .size 1, .push false 2, .empty [1, 2], .size 0, .push true 3] ∧
    (batches t).flatten ++ s.queue.queue_ = [1, 2, 3] := by
  have hrun : Run Step ({} : Polling Nat)
      ([.push true 1, .size 1, .push false 2, .empty [1, 2], .size 0, .push true 3] :
        List (QueueOp Bool Nat)) ⟨⟨[3]⟩, false⟩ :=
    .tail (t := [_, _, _, _, _]) (.tail (t := [_, _, _, _]) (.tail (t := [_, _, _]) (.tail (t := [_, _])
      (.tail (t := [_]) (.tail (t := []) .refl .push) .size) .push) (.empty rfl)) .size) .push
  obtain ⟨hlin, -, -⟩ := polling_linear hrun
  exact ⟨_, _, rfl, hlin⟩

end Polling

end Quizzbot
