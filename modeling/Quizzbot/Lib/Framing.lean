import Quizzbot.Lib.Resync

/-!
# `Lib.Framing` — a stream that is made of frames

A writer sends items, each as a *frame*: a pull finds the item where its whole frame stands in front, and
waits where only a part of the frame has arrived (`Frames`). A reader that pulls once for each chunk of
such a stream finds the items in order, and what it has not found yet is still there: in its buffer or in
the part of the stream that it has not read (`Feeds.framed`). None of its pulls fails (`pull_ok`).
-/

namespace PullParser

variable {α β ε : Type} {p : Pull α β ε}

/-- `f` is a frame of `m`: found whatever is behind it, and waited for as long as it is cut. -/
structure Frames (p : Pull α β ε) (m : β) (f : List α) : Prop where
  whole : ∀ rest, p (f ++ rest) = .ok (some m, rest)
  cut   : ∀ b, b <+: f → b ≠ f → p b = .ok (none, b)

/-- The bytes of a list of items with their frames. -/
def bytes (fs : List (β × List α)) : List α := (fs.map Prod.snd).flatten

@[simp] theorem bytes_nil : bytes ([] : List (β × List α)) = [] := rfl
@[simp] theorem bytes_cons (x : β × List α) (fs : List (β × List α)) :
    bytes (x :: fs) = x.2 ++ bytes fs := rfl

theorem bytes_length_le {fs : List (β × List α)} {n : Nat} (h : ∀ x ∈ fs, x.2.length ≤ n) :
    (bytes fs).length ≤ fs.length * n := by
  induction fs with
  | nil => exact Nat.zero_le _
  | cons x fs ih =>
      have hx := h x (List.mem_cons_self ..)
      have hfs := ih fun y hy => h y (List.mem_cons_of_mem _ hy)
      rw [bytes_cons, List.length_append, List.length_cons, Nat.succ_mul]
      omega

/-- What a pull from the front of a framed stream can find: the first item, or nothing as long as its
    frame is not complete. -/
inductive Pulled (p : Pull α β ε) (b tail : List α) : List (β × List α) → Prop
  | found {x fs b'} (hb : p b = .ok (some x.1, b')) (hrest : b' ++ tail = bytes fs) :
      Pulled p b tail (x :: fs)
  | waits {fs} (hb : p b = .ok (none, b)) : Pulled p b tail fs

/-- A pull from a stream of frames; `b` is what has arrived of it. -/
theorem pull_framed (hnil : p [] = .ok (none, [])) {fs : List (β × List α)} {b tail : List α}
    (hfs : ∀ x ∈ fs, Frames p x.1 x.2) (hs : b ++ tail = bytes fs) : Pulled p b tail fs := by
  cases fs with
  | nil =>
      obtain ⟨rfl, -⟩ := List.append_eq_nil_iff.mp hs
      exact .waits hnil
  | cons x fs =>
      have hx : Frames p x.1 x.2 := hfs x (List.mem_cons_self ..)
      rw [bytes_cons] at hs
      -- the first frame has arrived, or a part of it
      rcases List.append_eq_append_iff.mp hs with ⟨rest, hframe, htail⟩ | ⟨b', rfl, htail⟩
      · by_cases hcut : b = x.2
        · have hrest : rest = [] := by
            rw [hcut] at hframe
            exact List.append_cancel_left (hframe.symm.trans (List.append_nil _).symm)
          subst hrest
          have hb : p b = .ok (some x.1, []) := by
            rw [hcut, ← List.append_nil x.2]
            exact hx.whole []
          exact .found hb htail
        · exact .waits (hx.cut b ⟨rest, hframe.symm⟩ hcut)
      · exact .found (hx.whole b') htail.symm

/-- **A pull from a stream of frames does not fail.** -/
theorem pull_ok (hnil : p [] = .ok (none, [])) {fs : List (β × List α)} {b tail : List α}
    (hfs : ∀ x ∈ fs, Frames p x.1 x.2) (hs : b ++ tail = bytes fs) : ∃ res, p b = .ok res := by
  cases pull_framed hnil hfs hs with
  | found hb _ => exact ⟨_, hb⟩
  | waits hb => exact ⟨_, hb⟩

/-- **What one pull a chunk finds in a stream of frames** is a prefix of the items, and what it has not
    found is in its buffer or behind it, by induction on the chunks. -/
theorem Feeds.framed (hnil : p [] = .ok (none, [])) {a a' tail : List α} {cs : List (List α)}
    {ds : List β} (h : Feeds p a cs ds a') {fs : List (β × List α)}
    (hfs : ∀ x ∈ fs, Frames p x.1 x.2) (hs : a ++ (cs.flatten ++ tail) = bytes fs) :
    ∃ found waiting, fs = found ++ waiting ∧ ds = found.map Prod.fst ∧ a' ++ tail = bytes waiting := by
  induction h generalizing fs with
  | nil => exact ⟨[], fs, rfl, rfl, by simpa using hs⟩
  | @cons a c m? a1 cs ds a2 h0 _ ih =>
      have hsplit : a ++ c ++ (cs.flatten ++ tail) = bytes fs := by
        rw [← hs, List.flatten_cons, List.append_assoc, List.append_assoc]
      cases pull_framed hnil hfs hsplit with
      | @found x fs b' hb hrest =>
          rw [h0] at hb; cases hb
          have hfs' : ∀ y ∈ fs, Frames p y.1 y.2 := fun y hy => hfs y (List.mem_cons_of_mem _ hy)
          obtain ⟨found, waiting, rfl, rfl, hrest'⟩ := ih hfs' hrest
          exact ⟨x :: found, waiting, rfl, rfl, hrest'⟩
      | waits hb =>
          rw [h0] at hb; cases hb
          obtain ⟨found, waiting, rfl, rfl, hrest⟩ := ih hfs hsplit
          exact ⟨found, waiting, rfl, rfl, hrest⟩

/-- The item a reader accepts at the front, and nothing behind it: then the whole buffer is its frame. -/
theorem frames_of_read {R : Resync.Reader α β ε} {a : α} {f : List α} {m : β}
    (hread : R.read (a :: f) ≠ .reject) (hscan : R.scan (a :: f) = .ok (some m, [])) :
    Frames R.scan m (a :: f) := by
  obtain ⟨n, haccept, hn⟩ : ∃ n, R.read (a :: f) = .accept m n ∧ (a :: f).length ≤ n := by
    cases hr : R.read (a :: f) with
    | wait => rw [Resync.scan_wait hr] at hscan; cases hscan
    | reject => exact absurd hr hread
    | fail e => rw [Resync.scan_fail hr] at hscan; cases hscan
    | accept m' n =>
        rw [Resync.scan_accept hr, Except.ok.injEq, Prod.mk.injEq] at hscan
        obtain ⟨hm, hdrop⟩ := hscan
        cases hm
        exact ⟨n, rfl, List.drop_eq_nil_iff.mp hdrop⟩
  constructor
  · intro rest
    rw [Resync.scan_append, hscan]; rfl
  · intro b hb hne
    cases b with
    | nil => rfl
    | cons b₀ b =>
        apply Resync.scan_wait
        by_contra hw
        -- a verdict on a part of the frame is the verdict on all of it, which is longer
        obtain ⟨rest, hrest⟩ := hb
        have hsame := R.stable hw rest
        rw [hrest, haccept] at hsame
        have hlen := (R.accept_len hsame.symm).2
        have hrest_nil : rest = [] := by
          have := congrArg List.length hrest
          rw [List.length_append] at this
          exact List.eq_nil_of_length_eq_zero (by omega)
        rw [hrest_nil, List.append_nil] at hrest
        exact hne hrest

end PullParser
