import Quizzbot.Lib.Msgpack

/-!
# `Lib.Traced` — computations that record what they do

A `Traced` computation returns or fails, like one in `Except`, and in either case has recorded events on the
way. Its result is that of the computation without the events (`result_bind` and its siblings), so a traced
copy of a program can be shown to compute the same; and what holds of all events is shown step by step
(`safe_bind`), where a later step may use what the earlier ones returned.
-/

/-- A result, and the events recorded until then, oldest first. -/
structure Traced (Ev ε α : Type) where
  events : List Ev
  result : Except ε α

namespace Traced

variable {Ev ε α β : Type}

instance : Monad (Traced Ev ε) where
  pure a := ⟨[], .ok a⟩
  bind x f :=
    match x.result with
    | .ok a => ⟨x.events ++ (f a).events, (f a).result⟩
    | .error e => ⟨x.events, .error e⟩

/-- Record an event. -/
def emit (ev : Ev) : Traced Ev ε Unit := ⟨[ev], .ok ()⟩

/-- A computation that records nothing. -/
def lift (x : Except ε α) : Traced Ev ε α := ⟨[], x⟩

/-! ## Forgetting the events -/

@[simp] theorem result_pure (a : α) : (pure a : Traced Ev ε α).result = .ok a := rfl
@[simp] theorem result_emit (ev : Ev) : (emit ev : Traced Ev ε Unit).result = .ok () := rfl
@[simp] theorem result_lift (x : Except ε α) : (lift x : Traced Ev ε α).result = x := rfl

@[simp] theorem result_bind (x : Traced Ev ε α) (f : α → Traced Ev ε β) :
    (x >>= f).result = (x.result >>= fun a => (f a).result) := by
  obtain ⟨events, result⟩ := x
  cases result <;> rfl

@[simp] theorem result_ite {p : Prop} [Decidable p] (x y : Traced Ev ε α) :
    (if p then x else y).result = if p then x.result else y.result := apply_ite result p x y

/-! ## What holds of all events -/

/-- All events satisfy `P`. -/
def Safe (P : Ev → Prop) (x : Traced Ev ε α) : Prop := ∀ ev ∈ x.events, P ev

variable {P : Ev → Prop}

theorem safe_pure (a : α) : Safe P (pure a : Traced Ev ε α) := by
  intro ev h
  cases h

theorem safe_lift (x : Except ε α) : Safe P (lift x : Traced Ev ε α) := by
  intro ev h
  cases h

theorem safe_emit {ev : Ev} (h : P ev) : Safe P (emit ev : Traced Ev ε Unit) := by
  intro ev' h'
  rw [List.mem_singleton.mp h']
  exact h

/-- In a sequence, the second part starts from what the first one returned. -/
theorem safe_bind {x : Traced Ev ε α} {f : α → Traced Ev ε β} (hx : Safe P x)
    (hf : ∀ a, x.result = .ok a → Safe P (f a)) : Safe P (x >>= f) := by
  obtain ⟨events, result⟩ := x
  cases result with
  | error e => exact hx
  | ok a =>
      intro ev h
      rcases List.mem_append.mp (show ev ∈ events ++ (f a).events from h) with h | h
      · exact hx ev h
      · exact hf a rfl ev h

/-- An event first. -/
theorem safe_emit_bind {ev : Ev} {f : Unit → Traced Ev ε β} (h : P ev) (hf : Safe P (f ())) :
    Safe P (emit ev >>= f) := by
  apply safe_bind (safe_emit h)
  intro _ _
  exact hf

end Traced
