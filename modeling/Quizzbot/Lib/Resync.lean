import Quizzbot.Lib.PullParser

/-!
# `Lib.Resync` — scanning for items in a stream with noise

A *reader* looks at the front of a buffer and says whether an item starts there. Its verdict is
*stable*: unless it asks to wait, more symbols behind the buffer do not change it. Scanning drops symbols
one by one until the reader stops rejecting (`Reader.scan`).

- `scan_incremental`: scanning with a stable reader is an incremental pull, so everything of
  `Lib.PullParser` applies to it.
- `scan_split`: a scan splits the buffer into what it drops and what it keeps.
- `Reached rej b s`: the scan of `b` gets to look at the suffix `s`, where `rej` says which fronts are
  passed over. The outcome of a scan is read off the first suffix that is not passed over
  (`scan_ok_iff`, `scan_none_cases`).
-/

namespace Resync

variable {α β ε : Type}

/-- What a reader says about the front of a buffer. -/
inductive Verdict (β ε : Type) where
  | wait
  | reject
  | accept (item : β) (len : Nat)
  | fail (e : ε)

/-- A reader with stable verdicts; an accepted item is not empty and lies inside the buffer. -/
structure Reader (α β ε : Type) where
  read       : List α → Verdict β ε
  accept_len : ∀ {s m n}, read s = .accept m n → 0 < n ∧ n ≤ s.length
  stable     : ∀ {s}, read s ≠ .wait → ∀ c, read (s ++ c) = read s

variable (R : Reader α β ε)

/-- Drop symbols until the reader does not reject. -/
def Reader.scan : List α → Except ε (Option β × List α)
  | [] => .ok (none, [])
  | a :: s =>
    match R.read (a :: s) with
    | .wait => .ok (none, a :: s)
    | .reject => Reader.scan s
    | .accept m n => .ok (some m, (a :: s).drop n)
    | .fail e => .error e

variable {R}

theorem scan_wait {a : α} {s : List α} (h : R.read (a :: s) = .wait) :
    R.scan (a :: s) = .ok (none, a :: s) := by rw [Reader.scan, h]

theorem scan_reject {a : α} {s : List α} (h : R.read (a :: s) = .reject) :
    R.scan (a :: s) = R.scan s := by rw [Reader.scan, h]

theorem scan_accept {a : α} {s : List α} {m : β} {n : Nat} (h : R.read (a :: s) = .accept m n) :
    R.scan (a :: s) = .ok (some m, (a :: s).drop n) := by rw [Reader.scan, h]

theorem scan_fail {a : α} {s : List α} {e : ε} (h : R.read (a :: s) = .fail e) :
    R.scan (a :: s) = .error e := by rw [Reader.scan, h]

/-- A verdict that is not `wait` is unchanged by what follows. -/
theorem read_append {a : α} {s : List α} {v : Verdict β ε} (h : R.read (a :: s) = v)
    (hv : v ≠ .wait) (c : List α) : R.read (a :: (s ++ c)) = v := by
  rw [← List.cons_append, R.stable (h ▸ hv) c, h]

/-! ## Scanning is incremental -/

theorem scan_shrinks {b r : List α} {m : β} (h : R.scan b = .ok (some m, r)) :
    r.length < b.length := by
  induction b with
  | nil => cases h
  | cons a s ih =>
      cases hr : R.read (a :: s) with
      | wait => rw [scan_wait hr] at h; cases h
      | reject =>
          rw [scan_reject hr] at h
          exact Nat.lt_succ_of_lt (ih h)
      | accept m' n =>
          rw [scan_accept hr] at h; cases h
          obtain ⟨h0, hn⟩ := R.accept_len hr
          rw [List.length_drop]; omega
      | fail e => rw [scan_fail hr] at h; cases h

/-- What more symbols make of a scan: one that reached a verdict keeps it, one that found nothing goes
    on with what it kept. -/
theorem scan_append (b c : List α) :
    R.scan (b ++ c) = match R.scan b with
      | .error e => .error e
      | .ok (some m, r) => .ok (some m, r ++ c)
      | .ok (none, r) => R.scan (r ++ c) := by
  induction b with
  | nil => rfl
  | cons a s ih =>
      rw [List.cons_append]
      cases hr : R.read (a :: s) with
      | wait => rw [scan_wait hr]; rfl
      | reject => rw [scan_reject hr, scan_reject (read_append hr (by simp) c), ih]
      | accept m n =>
          have hlen := (R.accept_len hr).2
          rw [scan_accept hr, scan_accept (read_append hr (by simp) c), ← List.cons_append,
            List.drop_append_of_le_length hlen]
      | fail e => rw [scan_fail hr, scan_fail (read_append hr (by simp) c)]

/-- **Scanning with a stable reader is incremental.** -/
theorem scan_incremental (R : Reader α β ε) : PullParser.Incremental R.scan where
  shrinks := scan_shrinks
  none_append h c := by rw [scan_append, h]
  some_append h c := by rw [scan_append, h]
  error_append h c := by rw [scan_append, h]

/-- **What a scan drops and what it keeps**: at every symbol it drops the reader rejects, and the reader's
    word on what it keeps is the outcome. -/
theorem scan_split {b r : List α} {m? : Option β} (h : R.scan b = .ok (m?, r)) :
    ∃ dropped kept, b = dropped ++ kept ∧
      (∀ pre s, dropped = pre ++ s → s ≠ [] → R.read (s ++ kept) = .reject) ∧
      ((m? = none ∧ r = kept) ∨ ∃ m n, m? = some m ∧ R.read kept = .accept m n ∧ r = kept.drop n) := by
  have hstop : ∀ {kept : List α} {P : Prop}, P → kept = [] ++ kept ∧
      (∀ pre s, ([] : List α) = pre ++ s → s ≠ [] → R.read (s ++ kept) = .reject) ∧ P := by
    intro kept P hP
    refine ⟨rfl, ?_, hP⟩
    intro pre s hnil hne
    exact absurd (List.append_eq_nil_iff.mp hnil.symm).2 hne
  induction b with
  | nil => cases h; exact ⟨[], [], hstop (Or.inl ⟨rfl, rfl⟩)⟩
  | cons a t ih =>
      cases hr : R.read (a :: t) with
      | wait => rw [scan_wait hr] at h; cases h; exact ⟨[], a :: t, hstop (Or.inl ⟨rfl, rfl⟩)⟩
      | accept m n =>
          rw [scan_accept hr] at h; cases h
          exact ⟨[], a :: t, hstop (Or.inr ⟨m, n, rfl, hr, rfl⟩)⟩
      | fail e => rw [scan_fail hr] at h; cases h
      | reject =>
          rw [scan_reject hr] at h
          obtain ⟨dropped, kept, rfl, hdropped, hkept⟩ := ih h
          refine ⟨a :: dropped, kept, rfl, ?_, hkept⟩
          intro pre s hsplit hne
          -- the suffix starts at `a` or at a symbol that was dropped later
          cases pre with
          | nil => rw [← show a :: dropped = s from hsplit]; exact hr
          | cons x pre => exact hdropped pre s (List.cons.inj hsplit).2 hne

/-- **An item found** is accepted at some suffix. -/
theorem scan_some {b r : List α} {m : β} (h : R.scan b = .ok (some m, r)) :
    ∃ pre s n, b = pre ++ s ∧ R.read s = .accept m n ∧ r = s.drop n := by
  obtain ⟨dropped, kept, rfl, -, ⟨hm, -⟩ | ⟨m', n, hm, hread, rfl⟩⟩ := scan_split h
  · cases hm
  · cases hm; exact ⟨dropped, kept, n, rfl, hread, rfl⟩

/-! ## The suffixes a scan looks at -/

/-- `Reached rej b s`: dropping symbols of `b` while `rej` holds of what is left gets to the non-empty
    suffix `s`. -/
inductive Reached (rej : List α → Prop) : List α → List α → Prop
  | here {a b} : Reached rej (a :: b) (a :: b)
  | skip {a b s} : rej (a :: b) → Reached rej b s → Reached rej (a :: b) s

/-- `rej` marks the fronts a reader passes over, up to those at which it fails. -/
structure Marks (rej : List α → Prop) (R : Reader α β ε) : Prop where
  of_reject : ∀ {s}, R.read s = .reject → rej s
  cases     : ∀ {s}, rej s → R.read s = .reject ∨ ∃ e, R.read s = .fail e

variable {rej : List α → Prop}

/-- A scan does not look behind a front that is not passed over. -/
theorem Reached.front {a : α} {t s : List α} (h : Reached rej (a :: t) s) (hrej : ¬ rej (a :: t)) :
    s = a :: t := by
  cases h with
  | here => rfl
  | skip hr _ => exact absurd hr hrej

theorem Marks.not_rej (hm : Marks rej R) {s : List α} {v : Verdict β ε} (h : R.read s = v)
    (hr : v ≠ .reject) (hf : ∀ e, v ≠ .fail e) : ¬ rej s := by
  intro hrej
  rcases hm.cases hrej with hs | ⟨e, hs⟩
  · exact hr (h.symm.trans hs)
  · exact hf e (h.symm.trans hs)

/-- **A scan ends normally** exactly when the reader fails at no suffix the scan gets to. -/
theorem scan_ok_iff (hm : Marks rej R) {b : List α} :
    (∃ res, R.scan b = .ok res) ↔ ∀ s, Reached rej b s → ∀ e, R.read s ≠ .fail e := by
  induction b with
  | nil =>
      constructor
      · intro _ s hs; cases hs
      · intro _; exact ⟨_, rfl⟩
  | cons a t ih =>
      cases hr : R.read (a :: t) with
      | wait =>
          constructor
          · intro _ s hs e he
            rw [hs.front (hm.not_rej hr (by simp) (by simp)), hr] at he; cases he
          · intro _; exact ⟨_, scan_wait hr⟩
      | reject =>
          rw [scan_reject hr, ih]
          constructor
          · intro h s hs e he
            cases hs with
            | here => rw [hr] at he; cases he
            | skip _ hs => exact h s hs e he
          · intro h s hs
            exact h s (.skip (hm.of_reject hr) hs)
      | accept m n =>
          constructor
          · intro _ s hs e he
            rw [hs.front (hm.not_rej hr (by simp) (by simp)), hr] at he; cases he
          · intro _; exact ⟨_, scan_accept hr⟩
      | fail e =>
          rw [scan_fail hr]
          constructor
          · rintro ⟨res, h⟩; cases h
          · intro h; exact absurd hr (h _ .here e)

/-- **A scan that finds nothing** has run out of symbols, or keeps a suffix at which the reader waits. -/
theorem scan_none_cases {b r : List α} (hm : Marks rej R) (h : R.scan b = .ok (none, r)) :
    r = [] ∨ (Reached rej b r ∧ R.read r = .wait) := by
  induction b with
  | nil => cases h; exact Or.inl rfl
  | cons a t ih =>
      cases hr : R.read (a :: t) with
      | wait => rw [scan_wait hr] at h; cases h; exact Or.inr ⟨.here, hr⟩
      | reject =>
          rw [scan_reject hr] at h
          rcases ih h with he | ⟨hs, hw⟩
          · exact Or.inl he
          · exact Or.inr ⟨.skip (hm.of_reject hr) hs, hw⟩
      | accept m n => rw [scan_accept hr] at h; cases h
      | fail e => rw [scan_fail hr] at h; cases h

/-- A suffix that is got to without a failure and at which the reader waits is what the scan keeps. -/
theorem scan_of_reached {b s : List α} (hm : Marks rej R) (hs : Reached rej b s)
    (hw : R.read s = .wait) (hf : ∀ s' e, R.read s' ≠ .fail e) : R.scan b = .ok (none, s) := by
  induction hs with
  | here => exact scan_wait hw
  | skip hrej _ ih =>
      rcases hm.cases hrej with h | ⟨e, h⟩
      · rw [scan_reject h]; exact ih hw
      · exact absurd h (hf _ e)

end Resync
