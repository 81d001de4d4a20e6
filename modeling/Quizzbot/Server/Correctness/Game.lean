import Quizzbot.Server.Correctness.Join

/-!
# `Server.Correctness.Game` — what the game sees of each player, over every run

A read on a connection pushes the message it parsed, stamped with the name the connection has after the
handlers, if it has one then (`pushes_step`). Since names stay once they are set, the events of a
connection are the request that was acknowledged and every message parsed after it (`pushes_run`); since
names are unique, the queue can be separated by name (`game_stream`).
-/

namespace Quizzbot

open LabelledRun (Run)

variable {mp : Msgpack}

/-! ## Histories -/

/-- The events pushed while a read on `c` was handled. -/
def pushesOf (c : ConnId) (t : List Record) : List GameEvent :=
  t.flatMap fun r => if r.isRead c then pushed r.effects else []

/-- Everything pushed on the game queue. -/
def gameQueue (t : List Record) : List GameEvent := t.flatMap fun r => pushed r.effects

theorem pushesOf_append (c : ConnId) (t t' : List Record) :
    pushesOf c (t ++ t') = pushesOf c t ++ pushesOf c t' := List.flatMap_append

theorem pushesOf_single (c : ConnId) (r : Record) :
    pushesOf c [r] = if r.isRead c then pushed r.effects else [] := List.flatMap_singleton ..

/-! ## Steps -/

/-- The push of a dispatch: the message, under the name the connection has afterwards. -/
theorem pushed_dispatched {name name' : ConnId → CString} {ps : List ConnId} {c : ConnId} {m : Message}
    {effects : List Effect} (h : Dispatched name ps c m name' effects) :
    pushed effects = if name' c = [] then [] else [⟨name' c, m⟩] := by
  cases h with
  | ignored hname hm => rw [if_pos hname]; rfl
  | refused hname hm hsent hpushed => rw [if_pos hname, hpushed]
  | joined hname hm hne hfree hsent hpushed =>
      rw [Function.update_self, if_neg hne, hpushed]
  | relayed hname hm hsent hpushed => rw [if_neg hname, hpushed]
  | noted hname hm hsent hpushed => rw [if_neg hname, hpushed]

/-- **A step pushes what it parsed** on a connection that has a name after it. -/
theorem pushes_step (hmp : mp.Lawful) {s s' : Server} {r : Record} (h : s.Step mp r s') (c : ConnId) :
    pushesOf c [r] = if s'.name c = [] then [] else (parsedOn c [r]).map (⟨s'.name c, ·⟩) := by
  rw [pushesOf_single]
  rcases (step_cases hmp h).view with ⟨hp, hes, -⟩ | ⟨c₀, bytes, m, he, hp, -, hdisp⟩
  · simp [hes, parsedOn, hp]
  · rw [isRead_of_event he]
    by_cases hc : c₀ = c
    · subst hc
      have hone : parsedOn c₀ [r] = [m] := by simp [parsedOn, isRead_of_event he, hp]
      rw [hone, if_pos (by simp), pushed_dispatched hdisp]; rfl
    · have hnone : parsedOn c [r] = [] := by simp [parsedOn, isRead_of_event he, hc]
      rw [hnone, if_neg (by simp [hc])]
      simp

/-- Every push is made by a read, under the non-empty name of its connection. -/
theorem stamp_step (hmp : mp.Lawful) {s s' : Server} {r : Record} (h : s.Step mp r s') {e : GameEvent}
    (he : e ∈ pushed r.effects) : ∃ c, r.isRead c ∧ e.name = s'.name c ∧ e.name ≠ [] := by
  rcases (step_cases hmp h).view with ⟨-, hes, -⟩ | ⟨c, bytes, m, hev, -, -, hdisp⟩
  · rw [hes] at he; cases he
  · refine ⟨c, by simp [isRead_of_event hev], ?_⟩
    rw [pushed_dispatched hdisp] at he
    by_cases hc : s'.name c = []
    · rw [if_pos hc] at he; cases he
    · rw [if_neg hc] at he
      rw [List.mem_singleton.mp he]
      exact ⟨rfl, hc⟩

/-- A connection gets its name from the acknowledged request. -/
theorem joined_step (hmp : mp.Lawful) {s s' : Server} {r : Record} (h : s.Step mp r s') {c : ConnId}
    (hc : s.name c = []) (hc' : s'.name c ≠ []) :
    r.isRead c ∧ r.parsed = some (.ofData (.joinMessage (s'.name c))) ∧
      sent r.effects = [(c, .ofData .joinAckMessage)] := by
  rcases (step_cases hmp h).view with ⟨-, -, hname⟩ | ⟨c₀, bytes, m, he, hp, -, hdisp⟩
  · rw [hname] at hc'; exact absurd hc hc'
  · generalize s'.name = name', r.effects = effects at hdisp hc' ⊢
    cases hdisp with
    | @joined n _ hname hm hne hfree hsent hpushed =>
        by_cases hcc : c = c₀
        · subst hcc
          rw [Function.update_self]
          exact ⟨by simp [isRead_of_event he], hm ▸ hp, hsent⟩
        · rw [Function.update_of_ne hcc] at hc'
          exact absurd hc hc'
    | _ => exact absurd hc hc'

/-! ## Runs -/

/-- Every event ever pushed by a read on `c` carries the name `c` has now. -/
theorem stamp_run (hmp : mp.Lawful) {s : Server} {t : List Record}
    (h : Run (Server.Step mp) Server.init t s) :
    ∀ r ∈ t, ∀ e ∈ pushed r.effects, ∃ c, r.isRead c ∧ e.name = s.name c ∧ e.name ≠ [] := by
  induction h with
  | refl => intro r hr; cases hr
  | tail hrun hstep ih =>
      intro r hr e he
      rcases List.mem_append.mp hr with hr | hr
      · obtain ⟨c, hread, hname, hne⟩ := ih r hr e he
        exact ⟨c, hread, by rw [hname, name_step hmp hstep (hname ▸ hne)], hne⟩
      · rw [List.mem_singleton.mp hr] at he ⊢
        exact stamp_step hmp hstep he

theorem pushesOf_nil (hmp : mp.Lawful) {s : Server} {t : List Record}
    (h : Run (Server.Step mp) Server.init t s) {c : ConnId} (hc : s.name c = []) :
    pushesOf c t = [] := by
  rw [pushesOf, List.flatMap_eq_nil_iff]
  intro r hr
  by_cases hread : r.isRead c
  · rw [if_pos hread, List.eq_nil_iff_forall_not_mem]
    intro e he
    obtain ⟨c', hread', hname, hne⟩ := stamp_run hmp h r hr e he
    rw [isRead_unique hread hread', ← hname] at hc
    exact hne hc
  · rw [if_neg hread]

/-- What the run of a connection that has a name looks like: up to the acknowledged request nothing is
    pushed, and from it on everything that is parsed. -/
def JoinedAt (c : ConnId) (n : CString) (early : List Record) (r : Record) (late : List Record) : Prop :=
  pushesOf c early = [] ∧ r.isRead c ∧ r.parsed = some (.ofData (.joinMessage n)) ∧
    sent r.effects = [(c, .ofData .joinAckMessage)] ∧
    pushesOf c (r :: late) = ((Message.ofData (.joinMessage n)) :: parsedOn c late).map (⟨n, ·⟩)

/-- **The events of a connection**, by induction on the run: each further step pushes what it parses. -/
theorem pushes_run (hmp : mp.Lawful) {s : Server} {t : List Record}
    (h : Run (Server.Step mp) Server.init t s) {c : ConnId} (hc : s.name c ≠ []) :
    ∃ early r late, t = early ++ r :: late ∧ JoinedAt c (s.name c) early r late := by
  induction h with
  | refl => exact absurd rfl hc
  | @tail t s r s' hrun hstep ih =>
      by_cases hs : s.name c = []
      · -- the name was set in this step
        obtain ⟨hread, hp, hsent⟩ := joined_step hmp hstep hs hc
        refine ⟨t, r, [], rfl, pushesOf_nil hmp hrun hs, hread, hp, hsent, ?_⟩
        rw [pushes_step hmp hstep, if_neg hc]
        simp [parsedOn, hread, hp]
      · -- it was set before, and this step adds to the end
        obtain ⟨early, r₀, late, rfl, hnil, hread, hp, hsent, hpushes⟩ := ih hs
        have hname := name_step hmp hstep hs
        refine ⟨early, r₀, late ++ [r], by simp, hnil, hread, hname ▸ hp, hsent, ?_⟩
        rw [← List.cons_append, pushesOf_append, hpushes, pushes_step hmp hstep, if_neg hc, hname,
          parsedOn_append, ← List.map_append]
        rfl

/-- The queue separates by name. -/
theorem gameQueue_filter (hmp : mp.Lawful) {s : Server} {t : List Record}
    (h : Run (Server.Step mp) Server.init t s) (c : ConnId) :
    (gameQueue t).filter (fun e => e.name = s.name c) = pushesOf c t := by
  have hinv := Server.run_inv hmp h
  rw [gameQueue, pushesOf, List.filter_flatMap]
  apply List.flatMap_congr
  intro r hr
  by_cases hread : r.isRead c
  · rw [if_pos hread, List.filter_eq_self]
    intro e he
    obtain ⟨c', hread', hname, -⟩ := stamp_run hmp h r hr e he
    rw [isRead_unique hread hread']
    exact decide_eq_true hname
  · -- an event of another connection has that connection's name, which `c` cannot have
    rw [if_neg hread, List.filter_eq_nil_iff]
    intro e he hn
    obtain ⟨c', hread', hname, hne⟩ := stamp_run hmp h r hr e he
    have hsame : s.name c' = s.name c := hname.symm.trans (of_decide_eq_true hn)
    rw [hinv.unique c' c (hname ▸ hne) hsame] at hread'
    exact hread hread'

/-- **What the game sees of each player**, in every run: nothing of a nameless connection; of one with a
    name, the acknowledged join request and then every message parsed on it, in order and under that name;
    and the queue, which holds nothing else, separates by name into these streams. -/
theorem game_stream (hmp : mp.Lawful) {s : Server} {t : List Record}
    (h : Run (Server.Step mp) Server.init t s) :
    (∀ c, s.name c = [] → pushesOf c t = []) ∧
    (∀ c, s.name c ≠ [] → (∃ early r late, t = early ++ r :: late ∧ JoinedAt c (s.name c) early r late) ∧
      (gameQueue t).filter (fun e => e.name = s.name c) = pushesOf c t) ∧
    (∀ e ∈ gameQueue t, ∃ c, e ∈ pushesOf c t ∧ e.name = s.name c ∧ e.name ≠ []) := by
  refine ⟨?_, ?_, ?_⟩
  · intro c hc
    exact pushesOf_nil hmp h hc
  · intro c hc
    exact ⟨pushes_run hmp h hc, gameQueue_filter hmp h c⟩
  · intro e he
    obtain ⟨r, hr, he⟩ := List.mem_flatMap.mp he
    obtain ⟨c, hread, hname, hne⟩ := stamp_run hmp h r hr e he
    exact ⟨c, List.mem_flatMap.mpr ⟨r, hr, by rw [if_pos hread]; exact he⟩, hname, hne⟩

/-- What the game sees of player `a`. -/
theorem game_stream_twoPlayers :
    ∃ s t, Server.init.exec Msgpack.reference twoPlayers = .ok (s, t) ∧
      (gameQueue t).filter (fun e => e.name = [0x61]) = pushesOf 0 t ∧
      ∃ early r late, t = early ++ r :: late ∧ JoinedAt 0 [0x61] early r late := by
  obtain ⟨s, t, hexec, h0, h1⟩ := twoPlayers_joined
  obtain ⟨-, hnamed, -⟩ := game_stream Msgpack.reference_lawful (Server.run_of_exec hexec)
  obtain ⟨hjoined, hfilter⟩ := hnamed 0 (by rw [h0]; decide)
  rw [h0] at hjoined hfilter
  exact ⟨s, t, hexec, hfilter, hjoined⟩

end Quizzbot
