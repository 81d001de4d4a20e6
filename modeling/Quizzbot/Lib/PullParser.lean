import Mathlib.Data.List.Basic

/-!
# `Lib.PullParser` — parsers that take items off the front of a growing buffer

A *pull* looks at a buffer and either takes one item off it, or takes nothing and waits for more, or
fails; in the first two cases it returns the buffer that is left. Which items a reader finds must not
depend on how the stream was cut into chunks; what a pull has to satisfy for that is `Incremental`: a
verdict, once reached, is not changed by symbols that arrive later.

- **Draining.** `drain` pulls until nothing is found; `Drains` is its graph, on which the induction over
  repeated pulls is done. `drain_append`: draining a stream in two parts finds what draining it at once
  finds.
- **Feeding.** `Feeds` is the other client: one pull for each chunk that arrives. It delivers a prefix of
  what draining finds (`feeds_rest`), and all of it exactly when the chunks complete items no faster
  than one a pull (`feeds_complete_iff`).
-/

namespace PullParser

variable {α β ε : Type}

/-- One attempt to take an item off the front of a buffer. -/
abbrev Pull (α β ε : Type) := List α → Except ε (Option β × List α)

/-- A pull whose verdicts survive the arrival of more symbols. -/
structure Incremental (p : Pull α β ε) : Prop where
  shrinks      : ∀ {b m r}, p b = .ok (some m, r) → r.length < b.length
  none_append  : ∀ {b r}, p b = .ok (none, r) → ∀ c, p (b ++ c) = p (r ++ c)
  some_append  : ∀ {b m r}, p b = .ok (some m, r) → ∀ c, p (b ++ c) = .ok (some m, r ++ c)
  error_append : ∀ {b e}, p b = .error e → ∀ c, p (b ++ c) = .error e

/-! ## Draining -/

/-- Pull at most `fuel` times, collecting the items found. -/
def drainFuel (p : Pull α β ε) : Nat → List α → Except ε (List β × List α)
  | 0, b => .ok ([], b)
  | fuel + 1, b =>
    match p b with
    | .error e => .error e
    | .ok (none, r) => .ok ([], r)
    | .ok (some m, r) =>
      match drainFuel p fuel r with
      | .error e => .error e
      | .ok (ms, r') => .ok (m :: ms, r')

/-- Pull until nothing is found: the items in order and the buffer that is left. A pull that finds an
    item shortens the buffer, so one pull more than the buffer is long is never reached. -/
def drain (p : Pull α β ε) (b : List α) : Except ε (List β × List α) := drainFuel p (b.length + 1) b

/-- `Drains p b ms r`: pulling from `b` until nothing is found yields `ms` and leaves `r`. -/
inductive Drains (p : Pull α β ε) : List α → List β → List α → Prop
  | done {b r} : p b = .ok (none, r) → Drains p b [] r
  | next {b m r ms r'} : p b = .ok (some m, r) → Drains p r ms r' → Drains p b (m :: ms) r'

variable {p : Pull α β ε}

/-! ### Inversion: the first pull decides -/

theorem Drains.of_none {b b' r : List α} {ms : List β} (h : Drains p b ms r)
    (hb : p b = .ok (none, b')) : ms = [] ∧ r = b' := by
  cases h with
  | done h0 => rw [hb] at h0; cases h0; exact ⟨rfl, rfl⟩
  | next h0 _ => rw [hb] at h0; cases h0

theorem Drains.of_some {b b' r : List α} {m : β} {ms : List β} (h : Drains p b ms r)
    (hb : p b = .ok (some m, b')) : ∃ ms', ms = m :: ms' ∧ Drains p b' ms' r := by
  cases h with
  | done h0 => rw [hb] at h0; cases h0
  | next h0 h1 => rw [hb] at h0; cases h0; exact ⟨_, rfl, h1⟩

theorem Drains.not_error {b r : List α} {e : ε} {ms : List β} (h : Drains p b ms r) :
    p b ≠ .error e := by
  intro hb
  cases h with
  | done h0 => rw [hb] at h0; cases h0
  | next h0 _ => rw [hb] at h0; cases h0

/-- Buffers on which the first pull agrees drain alike. -/
theorem Drains.congr {b b' : List α} {ms : List β} {r : List α} (hb : p b = p b')
    (h : Drains p b ms r) : Drains p b' ms r := by
  cases h with
  | done h0 => exact .done (hb ▸ h0)
  | next h0 h1 => exact .next (hb ▸ h0) h1

/-- The loop has one outcome. -/
theorem Drains.unique {b : List α} {ms ms' : List β} {r r' : List α}
    (h : Drains p b ms r) (h' : Drains p b ms' r') : ms = ms' ∧ r = r' := by
  induction h generalizing ms' with
  | done h0 =>
      obtain ⟨rfl, rfl⟩ := h'.of_none h0
      exact ⟨rfl, rfl⟩
  | next h0 _ ih =>
      obtain ⟨ms1, rfl, h1⟩ := h'.of_some h0
      obtain ⟨he, hr⟩ := ih h1
      exact ⟨by rw [he], hr⟩

/-! ### The loop computes its graph -/

/-- Any pull, incremental or not: with more fuel than items, the fuelled loop finds them all. -/
theorem drainFuel_of_drains {b : List α} {ms : List β} {r : List α} (h : Drains p b ms r) :
    ∀ fuel, ms.length < fuel → drainFuel p fuel b = .ok (ms, r) := by
  induction h with
  | done h0 =>
      intro fuel hf
      cases fuel with
      | zero => exact absurd hf (Nat.not_lt_zero _)
      | succ fuel => rw [drainFuel, h0]
  | next h0 _ ih =>
      intro fuel hf
      cases fuel with
      | zero => exact absurd hf (Nat.not_lt_zero _)
      | succ fuel => simp only [drainFuel, h0, ih fuel (Nat.lt_of_succ_lt_succ hf)]

theorem drain_of_drains {b : List α} {ms : List β} {r : List α} (h : Drains p b ms r)
    (hlen : ms.length ≤ b.length) : drain p b = .ok (ms, r) :=
  drainFuel_of_drains h _ (Nat.lt_succ_of_le hlen)

/-- An incremental pull finds no more items than there are symbols. -/
theorem Drains.length_le (hp : Incremental p) {b : List α} {ms : List β} {r : List α}
    (h : Drains p b ms r) : ms.length ≤ b.length := by
  induction h with
  | done h0 => exact Nat.zero_le _
  | next h0 _ ih => exact Nat.succ_le_of_lt (Nat.lt_of_le_of_lt ih (hp.shrinks h0))

/-- What the fuelled loop of an incremental pull returns is in the graph, if fuel is to spare. -/
theorem drains_of_drainFuel (hp : Incremental p) {fuel : Nat} {b : List α} {ms : List β}
    {r : List α} (hf : b.length < fuel) (h : drainFuel p fuel b = .ok (ms, r)) : Drains p b ms r := by
  induction fuel generalizing b ms with
  | zero => exact absurd hf (Nat.not_lt_zero _)
  | succ fuel ih =>
      unfold drainFuel at h
      cases hpb : p b with
      | error e => simp [hpb] at h
      | ok res =>
          obtain ⟨m?, b'⟩ := res
          cases m? with
          | none =>
              rw [hpb] at h; cases h
              exact .done hpb
          | some m =>
              -- the buffer got shorter, so the fuel that is left is enough for it
              have hlt : b'.length < fuel := by have := hp.shrinks hpb; omega
              cases hd : drainFuel p fuel b' with
              | error e => simp [hpb, hd] at h
              | ok res =>
                  obtain ⟨ms', r'⟩ := res
                  simp only [hpb, hd, Except.ok.injEq, Prod.mk.injEq] at h
                  obtain ⟨rfl, rfl⟩ := h
                  exact .next hpb (ih hlt hd)

/-- **`drain` computes the loop.** -/
theorem drain_eq_ok_iff (hp : Incremental p) {b : List α} {ms : List β} {r : List α} :
    drain p b = .ok (ms, r) ↔ Drains p b ms r := by
  constructor
  · intro h
    exact drains_of_drainFuel hp (Nat.lt_succ_self _) h
  · intro h
    exact drain_of_drains h (h.length_le hp)

/-- A pull that never fails drains every buffer. -/
theorem exists_drains (hp : Incremental p) (ht : ∀ b, ∃ res, p b = .ok res) (b : List α) :
    ∃ ms r, Drains p b ms r := by
  induction hn : b.length using Nat.strongRecOn generalizing b with
  | ind n ih =>
      obtain ⟨⟨m?, r⟩, hb⟩ := ht b
      cases m? with
      | none => exact ⟨[], r, .done hb⟩
      | some m =>
          obtain ⟨ms, r', hd⟩ := ih r.length (hn ▸ hp.shrinks hb) r rfl
          exact ⟨m :: ms, r', .next hb hd⟩

/-! ### A stream in two parts -/

/-- **Draining in two parts.** What is left of `b` and the rest of the stream drain to what the whole
    stream drains to. -/
theorem Drains.append (hp : Incremental p) {b c : List α} {ms ms' : List β} {r r' : List α}
    (h : Drains p b ms r) (h' : Drains p (r ++ c) ms' r') : Drains p (b ++ c) (ms ++ ms') r' := by
  induction h with
  | done h0 => exact h'.congr (hp.none_append h0 c).symm
  | next h0 _ ih => exact .next (hp.some_append h0 c) (ih h')

/-- A stream that drains has prefixes that drain. -/
theorem Drains.of_append (hp : Incremental p) {b c : List α} {ms : List β} {r : List α}
    (h : Drains p (b ++ c) ms r) : ∃ ms' r', Drains p b ms' r' := by
  induction hn : b.length using Nat.strongRecOn generalizing b ms with
  | ind n ih =>
      cases hb : p b with
      | error e => exact absurd (hp.error_append hb c) h.not_error
      | ok res =>
          obtain ⟨m?, r1⟩ := res
          cases m? with
          | none => exact ⟨[], r1, .done hb⟩
          | some m =>
              obtain ⟨ms1, rfl, h1⟩ := h.of_some (hp.some_append hb c)
              obtain ⟨ms', r', hd⟩ := ih r1.length (hn ▸ hp.shrinks hb) h1 rfl
              exact ⟨m :: ms', r', .next hb hd⟩

/-! ## Feeding — one pull for each chunk -/

/-- `Feeds p a cs ds a'`: starting from the buffer `a`, appending each chunk of `cs` and pulling once
    after each delivers `ds` and leaves the buffer `a'`. -/
inductive Feeds (p : Pull α β ε) : List α → List (List α) → List β → List α → Prop
  | nil {a} : Feeds p a [] [] a
  | cons {a c m? a' cs ds a''} : p (a ++ c) = .ok (m?, a') → Feeds p a' cs ds a'' →
      Feeds p a (c :: cs) (m?.toList ++ ds) a''

/-- One more chunk. -/
theorem Feeds.snoc {a c a' a'' : List α} {cs : List (List α)} {ds : List β} {m? : Option β}
    (h : Feeds p a cs ds a') (hc : p (a' ++ c) = .ok (m?, a'')) :
    Feeds p a (cs ++ [c]) (ds ++ m?.toList) a'' := by
  induction h with
  | nil => simpa using Feeds.cons hc .nil
  | cons h0 _ ih => rw [List.append_assoc]; exact .cons h0 (ih hc)

/-- Where the whole stream drains, no pull on the way fails. -/
theorem exists_feeds (hp : Incremental p) {a r : List α} {cs : List (List α)} {ms : List β}
    (hd : Drains p (a ++ cs.flatten) ms r) : ∃ ds a', Feeds p a cs ds a' := by
  induction cs generalizing a ms with
  | nil => exact ⟨[], a, .nil⟩
  | cons c cs ih =>
      rw [List.flatten_cons, ← List.append_assoc] at hd
      cases h0 : p (a ++ c) with
      | error e => exact absurd (hp.error_append h0 cs.flatten) hd.not_error
      | ok res =>
          obtain ⟨m?, a1⟩ := res
          cases m? with
          | none =>
              obtain ⟨ds, a', h⟩ := ih (hd.congr (hp.none_append h0 _))
              exact ⟨ds, a', .cons h0 h⟩
          | some m =>
              obtain ⟨ms1, -, h1⟩ := hd.of_some (hp.some_append h0 cs.flatten)
              obtain ⟨ds, a', h⟩ := ih h1
              exact ⟨m :: ds, a', .cons h0 h⟩

/-- **What one pull a chunk delivers is a prefix of what there is**: the rest is still in the buffer. -/
theorem feeds_rest (hp : Incremental p) {a a' r : List α} {cs : List (List α)} {ds ms : List β}
    (h : Feeds p a cs ds a') (hd : Drains p (a ++ cs.flatten) ms r) :
    ∃ rest, ms = ds ++ rest ∧ Drains p a' rest r := by
  induction h generalizing ms with
  | nil => exact ⟨ms, rfl, by simpa using hd⟩
  | @cons a c m? a1 cs ds a2 h0 _ ih =>
      rw [List.flatten_cons, ← List.append_assoc] at hd
      cases m? with
      | none => exact ih (hd.congr (hp.none_append h0 _))
      | some m =>
          obtain ⟨ms1, rfl, hd1⟩ := hd.of_some (hp.some_append h0 cs.flatten)
          obtain ⟨rest, he, hr⟩ := ih hd1
          exact ⟨rest, by rw [he]; rfl, hr⟩

/-- The number of items draining finds (0 where it fails). -/
def found (p : Pull α β ε) (b : List α) : Nat :=
  match drain p b with
  | .ok (ms, _) => ms.length
  | .error _ => 0

theorem found_eq (hp : Incremental p) {b : List α} {ms : List β} {r : List α}
    (h : Drains p b ms r) : found p b = ms.length := by
  rw [found, (drain_eq_ok_iff hp).mpr h]

/-- Where nothing is found at first, what is left of the buffer stands for all of it. -/
theorem found_none (hp : Incremental p) {b r c d r' : List α} {ms : List β}
    (h : p b = .ok (none, r)) (hd : Drains p (b ++ c ++ d) ms r') :
    found p (b ++ c) = found p (r ++ c) := by
  obtain ⟨ms1, r1, hd1⟩ := hd.of_append hp
  rw [found_eq hp hd1, found_eq hp (hd1.congr (hp.none_append h c))]

/-- Where an item is found at first, there is one more than in the buffer that is left. -/
theorem found_some (hp : Incremental p) {b r c d r' : List α} {m : β} {ms : List β}
    (h : p b = .ok (some m, r)) (hd : Drains p (b ++ c ++ d) ms r') :
    found p (b ++ c) = found p (r ++ c) + 1 := by
  obtain ⟨ms1, r1, hd1⟩ := hd.of_append hp
  obtain ⟨ms2, rfl, hd2⟩ := hd1.of_some (hp.some_append h c)
  rw [found_eq hp hd1, found_eq hp hd2, List.length_cons]

/-- The head of a proper cut of `c :: cs`. -/
theorem cut_cons {γ : Type} {c : γ} {cs early late : List γ} (h : c :: cs = early ++ late)
    (hne : early ≠ []) : ∃ early', early = c :: early' ∧ cs = early' ++ late := by
  cases early with
  | nil => exact absurd rfl hne
  | cons e early' =>
      rw [List.cons_append] at h
      injection h with hc hcs
      exact ⟨early', by rw [hc], hcs⟩

/-- For each cut of the chunks, `n` items are at most those the earlier ones complete and one for each
    later one. -/
def Paced (p : Pull α β ε) (a : List α) (cs : List (List α)) (n : Nat) : Prop :=
  ∀ early late, cs = early ++ late → early ≠ [] → n ≤ found p (a ++ early.flatten) + late.length

/-- The first chunk and its pull: if the pull takes `k` items, the pace of the others is that of `k`
    items fewer, and the cut right after the pull is a condition of its own. -/
theorem paced_cons {a a1 c : List α} {cs : List (List α)} {n k : Nat}
    (hfound : ∀ early late, cs = early ++ late →
      found p (a ++ c ++ early.flatten) = found p (a1 ++ early.flatten) + k) :
    Paced p a (c :: cs) (n + k) ↔ n ≤ found p a1 + cs.length ∧ Paced p a1 cs n := by
  have hcut : ∀ early late, cs = early ++ late →
      (n + k ≤ found p (a ++ (c :: early).flatten) + late.length ↔
        n ≤ found p (a1 ++ early.flatten) + late.length) := by
    intro early late he
    rw [List.flatten_cons, ← List.append_assoc, hfound early late he]
    omega
  constructor
  · intro h
    constructor
    · have h1 := (hcut [] cs rfl).mp (h [c] cs rfl (List.cons_ne_nil _ _))
      rwa [List.flatten_nil, List.append_nil] at h1
    · intro early late he _
      exact (hcut early late he).mp (h (c :: early) late (by rw [he]; rfl) (List.cons_ne_nil _ _))
  · rintro ⟨h1, h⟩ early late he hne
    obtain ⟨early', rfl, hcs⟩ := cut_cons he hne
    apply (hcut early' late hcs).mpr
    by_cases hnil : early' = []
    · subst hnil; subst hcs
      rw [List.flatten_nil, List.append_nil]; exact h1
    · exact h early' late hcs hnil

/-- The counting argument, from any starting buffer: the items that were already there count against
    the number of pulls, and so do the items each later group of chunks completes. -/
theorem feeds_complete_aux (hp : Incremental p) {a a' r : List α} {cs : List (List α)}
    {ds ms : List β} (h : Feeds p a cs ds a') (hd : Drains p (a ++ cs.flatten) ms r) :
    ds = ms ↔ ms.length ≤ cs.length ∧ Paced p a cs ms.length := by
  induction h generalizing ms with
  | nil =>
      constructor
      · intro he; subst he
        exact ⟨Nat.zero_le _, fun _ _ _ _ => Nat.zero_le _⟩
      · rintro ⟨hlen, -⟩
        exact (List.eq_nil_of_length_eq_zero (Nat.le_zero.mp hlen)).symm
  | @cons a c m? a1 cs ds a2 h0 _ ih =>
      rw [List.flatten_cons, ← List.append_assoc] at hd
      -- every cut of the remaining chunks is a prefix of a stream that drains
      have hcut : ∀ early late, cs = early ++ late →
          Drains p (a ++ c ++ early.flatten ++ late.flatten) ms r := by
        intro early late he
        rw [List.append_assoc _ early.flatten, ← List.flatten_append, ← he]
        exact hd
      cases m? with
      | none =>
          have hfound : ∀ early late, cs = early ++ late →
              found p (a ++ c ++ early.flatten) = found p (a1 ++ early.flatten) + 0 := by
            intro early late he
            exact found_none hp h0 (hcut early late he)
          -- the pull found nothing, so nothing is left to find in `a1` either
          have ha1 : found p a1 = 0 := by
            have hself := hp.none_append h0 []
            rw [List.append_nil, List.append_nil, h0] at hself
            rw [found_eq hp (.done hself.symm)]; rfl
          have hpace := paced_cons (n := ms.length) hfound
          rw [Nat.add_zero, ha1, Nat.zero_add] at hpace
          show ds = ms ↔ _
          rw [ih (hd.congr (hp.none_append h0 _)), hpace]
          constructor
          · rintro ⟨hlen, h⟩
            exact ⟨Nat.le_succ_of_le hlen, hlen, h⟩
          · rintro ⟨-, hlen, h⟩
            exact ⟨hlen, h⟩
      | some m =>
          obtain ⟨ms1, rfl, hd1⟩ := hd.of_some (hp.some_append h0 cs.flatten)
          have hfound : ∀ early late, cs = early ++ late →
              found p (a ++ c ++ early.flatten) = found p (a1 ++ early.flatten) + 1 := by
            intro early late he
            exact found_some hp h0 (hcut early late he)
          show m :: ds = m :: ms1 ↔ _
          rw [List.cons.injEq, and_iff_right rfl, ih hd1, List.length_cons, List.length_cons,
            paced_cons hfound, Nat.add_le_add_iff_right]
          constructor
          · rintro ⟨hlen, h⟩
            exact ⟨hlen, Nat.le_trans hlen (Nat.le_add_left _ _), h⟩
          · rintro ⟨hlen, -, h⟩
            exact ⟨hlen, h⟩

/-- **When one pull a chunk is enough.** Starting from the empty buffer, everything in the stream has
    been delivered exactly when, for each cut of the chunks, the later ones complete at most one item
    each on average: the whole stream holds at most as many more items than its earlier part as there are
    later chunks. -/
theorem feeds_complete_iff (hp : Incremental p) (hnil : p [] = .ok (none, [])) {a' r : List α}
    {cs : List (List α)} {ds ms : List β} (h : Feeds p [] cs ds a')
    (hd : Drains p cs.flatten ms r) :
    ds = ms ↔ ∀ early late, cs = early ++ late →
      ms.length ≤ found p early.flatten + late.length := by
  have h0 : found p ([] : List (List α)).flatten = 0 := by
    rw [List.flatten_nil, found_eq hp (.done hnil)]; rfl
  rw [feeds_complete_aux hp h (by simpa using hd)]
  unfold Paced
  constructor
  · rintro ⟨hlen, hcut⟩ early late he
    by_cases hne : early = []
    · subst hne; subst he
      rw [h0, Nat.zero_add]; exact hlen
    · exact hcut early late he hne
  · intro hcut
    constructor
    · have := hcut [] cs rfl
      rwa [h0, Nat.zero_add] at this
    · intro early late he _
      exact hcut early late he

/-- Nothing is left to find exactly when everything has been delivered. -/
theorem feeds_complete_iff_idle (hp : Incremental p) {a' r : List α} {cs : List (List α)}
    {ds ms : List β} (h : Feeds p [] cs ds a') (hd : Drains p cs.flatten ms r) :
    ds = ms ↔ ∃ r', p a' = .ok (none, r') := by
  obtain ⟨rest, rfl, hr⟩ := feeds_rest hp h (by simpa using hd)
  rw [List.self_eq_append_right]
  constructor
  · intro he; subst he
    cases hr with
    | done h0 => exact ⟨r, h0⟩
  · rintro ⟨r', h0⟩
    exact (hr.of_none h0).1

end PullParser
