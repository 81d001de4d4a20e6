import Quizzbot.Server.QuizzSystem
import Mathlib.Data.List.DropRight

/-!
# `Server.Correctness.Quizz` — what closes a session, and what is judged

The answers held are those given since the last session was closed, each name with its first one. The
counter is a different matter: closing a session does not reset it. Once it has reached
`SESSION_DURATION` every update closes a session, however short; until then it is a lower bound of the time
elapsed. So the sessions are as long as they should be exactly as long as no update comes in after the
first close that is not a whole session by itself (`sessions_iff`).
-/

namespace Quizzbot

open HexText (ascii)
open LabelledRun (Run Under Each)

namespace QuizzSystem

/-! ## Histories -/

/-- The calls since the last session was closed, or since the construction. -/
def sinceClose (t : List Record) : List Record := t.rtakeWhile (·.judged = none)

/-- The time an update reports. -/
def Call.dt : Call → Int
  | .update dt => dt
  | .submitAnswer _ _ => 0

/-- The answer a call submits. -/
def Call.submission? : Call → Option (CString × CString)
  | .update _ => none
  | .submitAnswer sender answer => some (sender, answer)

/-- The time elapsed since the last close. -/
def elapsed (t : List Record) : Int := ((sinceClose t).map (·.call.dt)).sum

/-- The answers submitted since the last close, oldest first. -/
def submitted (t : List Record) : List (CString × CString) :=
  (sinceClose t).filterMap (·.call.submission?)

/-- If the call closes a session, then the session has lasted its time, and what is judged is the first
    answer of each name since the last close. -/
def SoundClose (t : List Record) (r : Record) : Prop :=
  ∀ j, r.judged = some j → SESSION_DURATION ≤ elapsed t + r.call.dt ∧
    ∀ name, j.answers.lookup name = (submitted t).lookup name

/-- An update finds the counter below the end of a session, or is a whole session itself, or makes the
    counter overflow. -/
def InTime (q : QuizzSystem) (r : Record) : Prop :=
  ∀ dt, r.call = .update dt →
    q.current_session_dt_ < SESSION_DURATION ∨ SESSION_DURATION ≤ dt ∨ 2 ^ 63 ≤ q.current_session_dt_ + dt

theorem sinceClose_open {t : List Record} {r : Record} (h : r.judged = none) :
    sinceClose (t ++ [r]) = sinceClose t ++ [r] := List.rtakeWhile_concat_pos _ _ _ (decide_eq_true h)

theorem sinceClose_closed {t : List Record} {r : Record} {j : Judged} (h : r.judged = some j) :
    sinceClose (t ++ [r]) = [] := List.rtakeWhile_concat_neg _ _ _ (by simp [h])

theorem elapsed_open {t : List Record} {r : Record} (h : r.judged = none) :
    elapsed (t ++ [r]) = elapsed t + r.call.dt := by
  rw [elapsed, sinceClose_open h, List.map_append, List.sum_append, List.map_singleton,
    List.sum_singleton]
  rfl

theorem submitted_open {t : List Record} {r : Record} (h : r.judged = none) :
    submitted (t ++ [r]) = submitted t ++ r.call.submission?.toList := by
  rw [submitted, sinceClose_open h, List.filterMap_append]
  cases hs : r.call.submission? <;> simp [submitted, hs]

theorem elapsed_closed {t : List Record} {r : Record} {j : Judged} (h : r.judged = some j) :
    elapsed (t ++ [r]) = 0 := by rw [elapsed, sinceClose_closed h]; rfl

theorem submitted_closed {t : List Record} {r : Record} {j : Judged} (h : r.judged = some j) :
    submitted (t ++ [r]) = [] := by rw [submitted, sinceClose_closed h]; rfl

/-! ## Steps -/

/-- A sum is exact, or wraps around once. -/
theorem addMilliseconds_cases {a b : Int} (ha : -2 ^ 63 ≤ a ∧ a < 2 ^ 63) (hb : 0 ≤ b ∧ b < 2 ^ 63) :
    (a + b < 2 ^ 63 ∧ addMilliseconds a b = a + b) ∨
    (2 ^ 63 ≤ a + b ∧ addMilliseconds a b = a + b - 2 ^ 64) := by
  rw [addMilliseconds, Int.bmod_def]
  split <;> omega

/-- `emplace` keeps what is there, and adds what is not. -/
theorem lookup_submitAnswer (q : QuizzSystem) (sender answer name : CString) :
    (q.submitAnswer sender answer).answers_.lookup name =
      (q.answers_.lookup name).or (if name = sender then some answer else none) := by
  rw [submitAnswer]
  by_cases hmem : sender ∈ q.answers_
  · rw [if_pos hmem]
    by_cases hn : name = sender
    · subst hn
      obtain ⟨a, ha⟩ := Option.isSome_iff_exists.mp (AList.lookup_isSome.mpr hmem)
      rw [ha, Option.some_or]
    · rw [if_neg hn, Option.or_none]
  · rw [if_neg hmem]
    by_cases hn : name = sender
    · subst hn
      rw [AList.lookup_insert, AList.lookup_eq_none.mpr hmem, if_pos rfl, Option.none_or]
    · rw [AList.lookup_insert_ne hn, if_neg hn, Option.or_none]

/-- What a call can do. -/
theorem step_cases {q q' : QuizzSystem} {r : Record} (h : q.Step r q') :
    (∃ sender answer, r = ⟨.submitAnswer sender answer, none⟩ ∧ q' = q.submitAnswer sender answer) ∨
    (∃ dt, 0 ≤ dt ∧ dt < 2 ^ 63 ∧ r = ⟨.update dt, none⟩ ∧
      addMilliseconds q.current_session_dt_ dt < SESSION_DURATION ∧
      q' = { q with current_session_dt_ := addMilliseconds q.current_session_dt_ dt }) ∨
    (∃ dt j, 0 ≤ dt ∧ dt < 2 ^ 63 ∧ r = ⟨.update dt, some j⟩ ∧ j.answers = q.answers_ ∧
      SESSION_DURATION ≤ addMilliseconds q.current_session_dt_ dt ∧
      q'.current_session_dt_ = addMilliseconds q.current_session_dt_ dt ∧ q'.answers_ = ∅) := by
  obtain ⟨call, judged⟩ := r
  obtain ⟨hvalid, h⟩ := h
  cases call with
  | submitAnswer sender answer =>
      cases h
      exact Or.inl ⟨sender, answer, rfl, rfl⟩
  | update dt =>
      by_cases hle : SESSION_DURATION ≤ addMilliseconds q.current_session_dt_ dt
      · simp only [handle, update, ge_iff_le, if_pos hle] at h
        cases h
        exact Or.inr (Or.inr ⟨dt, _, hvalid.1, hvalid.2, rfl, rfl, hle, rfl, rfl⟩)
      · simp only [handle, update, ge_iff_le, if_neg hle] at h
        cases h
        exact Or.inr (Or.inl ⟨dt, hvalid.1, hvalid.2, rfl, by omega, rfl⟩)

/-! ## Runs -/

/-- How the state is tied to the history. -/
structure Accounted (t : List Record) (q : QuizzSystem) : Prop where
  range   : -2 ^ 63 ≤ q.current_session_dt_ ∧ q.current_session_dt_ < 2 ^ 63
  nonneg  : 0 ≤ elapsed t
  reached : SESSION_DURATION ≤ q.current_session_dt_ → elapsed t = 0
  below   : q.current_session_dt_ < SESSION_DURATION → q.current_session_dt_ ≤ elapsed t
  answers : ∀ name, q.answers_.lookup name = (submitted t).lookup name

theorem accounted_init : Accounted [] init where
  range := by decide
  nonneg := by decide
  reached := by decide
  below := by decide
  answers _ := rfl

theorem accounted_step {t : List Record} {q q' : QuizzSystem} {r : Record} (h : Accounted t q)
    (hstep : q.Step r q') : Accounted (t ++ [r]) q' := by
  obtain ⟨hrange, hnonneg, hreached, hbelow, hanswers⟩ := h
  rcases step_cases hstep with ⟨sender, answer, rfl, rfl⟩ | ⟨dt, h0, hdt, rfl, hlt, rfl⟩ |
    ⟨dt, j, h0, hdt, rfl, -, hle, hc, hempty⟩
  · -- the counter and the time stay
    have hsame : (q.submitAnswer sender answer).current_session_dt_ = q.current_session_dt_ := by
      rw [submitAnswer]; split <;> rfl
    have helapsed : elapsed (t ++ [⟨.submitAnswer sender answer, none⟩]) = elapsed t := by
      rw [elapsed_open rfl]; exact Int.add_zero _
    refine ⟨by rw [hsame]; exact hrange, by rw [helapsed]; exact hnonneg,
      by rw [hsame, helapsed]; exact hreached, by rw [hsame, helapsed]; exact hbelow, ?_⟩
    intro name
    rw [lookup_submitAnswer, submitted_open rfl, List.lookup_append, hanswers]
    congr 1
    by_cases hn : name = sender <;> simp [Call.submission?, hn]
  · have helapsed : elapsed (t ++ [⟨.update dt, none⟩]) = elapsed t + dt := elapsed_open rfl
    have hadd := addMilliseconds_cases hrange ⟨h0, hdt⟩
    simp only [SESSION_DURATION] at hreached hbelow hlt
    refine ⟨?_, ?_, ?_, ?_, ?_⟩
    · dsimp only; omega
    · omega
    · simp only [SESSION_DURATION]; omega
    · simp only [SESSION_DURATION]; omega
    · intro name
      rw [submitted_open rfl]
      exact (hanswers name).trans (by rw [Call.submission?, Option.toList_none, List.append_nil])
  · have hadd := addMilliseconds_cases hrange ⟨h0, hdt⟩
    have helapsed : elapsed (t ++ [⟨.update dt, some j⟩]) = 0 := elapsed_closed rfl
    simp only [SESSION_DURATION] at hle
    refine ⟨by rw [hc]; omega, by rw [helapsed], fun _ => helapsed, ?_, ?_⟩
    · rw [hc, SESSION_DURATION]
      intro hlt
      omega
    · intro name
      rw [hempty, submitted_closed rfl]; rfl

theorem accounted_run {q : QuizzSystem} {t : List Record} (h : Run Step init t q) : Accounted t q := by
  induction h with
  | refl => exact accounted_init
  | tail _ hstep ih => exact accounted_step ih hstep

/-- **A call that closes a session does so in order, exactly if it meets the condition.** -/
theorem soundClose_iff {t : List Record} {q q' : QuizzSystem} {r : Record} (h : Accounted t q)
    (hstep : q.Step r q') : SoundClose t r ↔ InTime q r := by
  obtain ⟨hrange, -, hreached, hbelow, hanswers⟩ := h
  rcases step_cases hstep with ⟨sender, answer, rfl, rfl⟩ | ⟨dt, h0, hdt, rfl, hlt, rfl⟩ |
    ⟨dt, j, h0, hdt, rfl, hj, hle, -, -⟩
  · apply iff_of_true
    · intro j hj; cases hj
    · intro dt hdt; cases hdt
  · -- nothing is closed: the counter is still low, or has overflowed
    apply iff_of_true
    · intro j hj; cases hj
    · intro dt' hdt'
      cases hdt'
      have hadd := addMilliseconds_cases hrange ⟨h0, hdt⟩
      simp only [SESSION_DURATION] at hlt ⊢
      omega
  · have hadd := addMilliseconds_cases hrange ⟨h0, hdt⟩
    simp only [SESSION_DURATION] at hreached hbelow hle
    constructor
    · intro hsound dt' hdt'
      cases hdt'
      obtain ⟨hlong, -⟩ := hsound j rfl
      simp only [SESSION_DURATION, Call.dt] at hlong ⊢
      omega
    · intro hin j' hj'
      cases hj'
      have hcases := hin dt rfl
      simp only [SESSION_DURATION, Call.dt] at hcases ⊢
      refine ⟨by omega, ?_⟩
      intro name
      rw [hj]
      exact hanswers name

/-- **The sessions of a run last their time and judge the right answers, exactly if every update of the run
    is in time.** -/
theorem sessions_iff {q : QuizzSystem} {t : List Record} (h : Run Step init t q) :
    Each SoundClose t ↔ Run (Under Step InTime) init t q := by
  apply Run.each_iff_under _ h
  intro t q r q' hrun hstep
  exact soundClose_iff (accounted_run hrun) hstep

theorem handle_call (q : QuizzSystem) (call : Call) : (q.handle call).2.call = call := by
  cases call <;> rfl

theorem run_handleAll {q : QuizzSystem} {calls : List Call} (h : ∀ call ∈ calls, call.Valid) :
    Run Step q (q.handleAll calls).2 (q.handleAll calls).1 := by
  induction calls generalizing q with
  | nil => exact .refl
  | cons call calls ih =>
      have hfirst : q.Step (q.handle call).2 (q.handle call).1 := by
        constructor
        · rw [handle_call]; exact h call (List.mem_cons_self ..)
        · rw [handle_call]
      apply (Run.single hfirst).trans (ih _)
      intro call' hcall'
      exact h call' (List.mem_cons_of_mem _ hcall')

/-- A session that is closed in time, with two answers of one player. -/
def oneSession : List Call :=
  [.update 2000, .submitAnswer (ascii "ada") (ascii "25"), .submitAnswer (ascii "ada") (ascii "24"),
    .update 3000]

theorem sessions_iff_oneSession : Each SoundClose (init.handleAll oneSession).2 := by
  apply (sessions_iff (run_handleAll (by decide))).mpr
  -- the counter is below the end of the session at every update
  refine .tail (t := [_, _, _]) (.tail (t := [_, _]) (.tail (t := [_]) (.tail (t := []) .refl
    ⟨⟨by decide, rfl⟩, ?_⟩) ⟨⟨trivial, rfl⟩, ?_⟩) ⟨⟨trivial, rfl⟩, ?_⟩) ⟨⟨by decide, rfl⟩, ?_⟩
  · intro dt hdt; cases hdt
    exact Or.inl (by decide)
  · intro dt hdt; cases hdt
  · intro dt hdt; cases hdt
  · intro dt hdt; cases hdt
    exact Or.inl (by decide)

/-- The second session is closed after 16 ms. -/
def shortSession : List Call := [.update 5000, .submitAnswer (ascii "ada") (ascii "25"), .update 16]

theorem not_sound_shortSession :
    Run Step init (init.handleAll shortSession).2 (init.handleAll shortSession).1 ∧
      ¬ Each SoundClose (init.handleAll shortSession).2 := by
  constructor
  · exact run_handleAll (by decide)
  · intro h
    obtain ⟨hlong, -⟩ := h [_, _] _ [] rfl _ rfl
    revert hlong
    decide

end QuizzSystem

end Quizzbot
