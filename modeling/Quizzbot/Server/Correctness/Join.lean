import Quizzbot.Server.Correctness.Steps

/-!
# `Server.Correctness.Join` — names and join replies, over every run

The handlers change one name at a time, from empty to one that is free, and each such change sends one
`JoinAck`. The step lemma `acks_step` counts the replies of one step against the change of the names; the
run lemma adds them up (`acks_run`), and together with the invariant of the server this is the join
invariant (`join_invariant`).
-/

namespace Quizzbot

open LabelledRun (Run)

variable {mp : Msgpack}

/-! ## Steps as the names see them -/

/-- A step parses nothing and has no effects, or dispatches one message. -/
theorem Stepped.view {s s' : Server} {r : Record} (h : Stepped mp s r s') :
    (r.parsed = none ∧ r.effects = [] ∧ s'.name = s.name) ∨
    ∃ c bytes m, r.event = .read c bytes ∧ r.parsed = some m ∧ r.name = s.name c ∧
      Dispatched s.name s.participants_ c m s'.name r.effects := by
  cases h with
  | accepted he hc hp hes hs =>
      rw [hs]; exact Or.inl ⟨hp, hes, Server.name_handleNewConnection ..⟩
  | acceptFailed he hc hp hes hs => rw [hs]; exact Or.inl ⟨hp, hes, rfl⟩
  | readFailed he hc hp hes hs => rw [hs]; exact Or.inl ⟨hp, hes, Server.name_modify rfl⟩
  | silent he hc hparse hs hp hes hname => exact Or.inl ⟨hp, hes, hname⟩
  | received he hc hparse hs hp hn hdisp => exact Or.inr ⟨_, _, _, he, hp, hn, hdisp⟩

/-- The message a read has parsed is the one in the buffer with the bytes behind it. -/
theorem Stepped.parsed_iff {s s' : Server} {r : Record} (h : Stepped mp s r s') {c : ConnId}
    {bytes : Packet} {m : Message} (he : r.event = .read c bytes) :
    r.parsed = some m ↔ ∃ rest,
      Protocol.parse (messageCodec mp) ((s.conns c).acc_packet_ ++ bytes) = .ok (some m, rest) := by
  cases h with
  | accepted he' _ _ _ _ => rw [he] at he'; cases he'
  | acceptFailed he' _ _ _ _ => rw [he] at he'; cases he'
  | readFailed he' _ _ _ _ => rw [he] at he'; cases he'
  | silent he' _ hparse _ hp _ _ => rw [he] at he'; cases he'; simp [hp, hparse]
  | received he' _ hparse _ hp _ _ => rw [he] at he'; cases he'; simp [hp, hparse]

/-- A name that is set stays. -/
theorem Dispatched.name_eq {name name' : ConnId → CString} {ps : List ConnId} {c c' : ConnId}
    {m : Message} {effects : List Effect} (h : Dispatched name ps c m name' effects)
    (hc : name c' ≠ []) : name' c' = name c' := by
  cases h with
  | joined hname hm hne hfree _ _ =>
      -- the name that was set had been empty
      have hcc : c' ≠ c := by
        intro he; subst he
        exact hc hname
      exact Function.update_of_ne hcc ..
  | _ => rfl

theorem name_step (hmp : mp.Lawful) {s s' : Server} {r : Record} (h : s.Step mp r s') {c : ConnId}
    (hc : s.name c ≠ []) : s'.name c = s.name c := by
  rcases (step_cases hmp h).view with ⟨-, -, hname⟩ | ⟨_, _, _, -, -, -, hdisp⟩
  · rw [hname]
  · exact hdisp.name_eq hc

/-- **A name once set never changes.** -/
theorem name_run (hmp : mp.Lawful) {s s' : Server} {t : List Record} (h : Run (Server.Step mp) s t s')
    {c : ConnId} (hc : s.name c ≠ []) : s'.name c = s.name c := by
  induction h with
  | refl => rfl
  | tail _ hstep ih => rw [name_step hmp hstep (by rw [ih]; exact hc), ih]

/-! ## Acknowledgements -/

/-- The number of `JoinAck`s sent to a connection. -/
def acksTo (c : ConnId) (t : List Record) : Nat :=
  (t.flatMap fun r => sent r.effects).countP fun x => x.1 = c ∧ x.2.messageType = .joinAck

theorem acksTo_concat (c : ConnId) (t : List Record) (r : Record) :
    acksTo c (t ++ [r]) = acksTo c t + acksTo c [r] := by
  rw [acksTo, List.flatMap_append, List.countP_append]; rfl

theorem acksTo_single (c : ConnId) (r : Record) :
    acksTo c [r] = (sent r.effects).countP fun x => x.1 = c ∧ x.2.messageType = .joinAck := by
  rw [acksTo, List.flatMap_singleton]

/-- The acknowledgements among the effects of a dispatch are the names it sets. -/
theorem acks_dispatched {name name' : ConnId → CString} {ps : List ConnId} {c : ConnId} {m : Message}
    {effects : List Effect} (h : Dispatched name ps c m name' effects) (c' : ConnId) :
    (sent effects).countP (fun x => x.1 = c' ∧ x.2.messageType = .joinAck)
      = if name c' = [] ∧ name' c' ≠ [] then 1 else 0 := by
  cases h with
  | ignored hname hm => simp
  | refused hname hm hsent hpushed => simp [hsent, MessageData.messageType, MessageClass.messageType,
      MessageData.joinNackMessage]
  | joined hname hm hne hfree hsent hpushed =>
      rw [hsent]
      -- one acknowledgement to `c`, whose name is set, and none to the others
      by_cases hc : c' = c
      · subst hc
        simp [hname, hne, MessageData.messageType, MessageClass.messageType, MessageData.joinAckMessage]
      · simp [Function.update_of_ne hc, Ne.symm hc]
  | relayed hname hm hsent hpushed =>
      rw [hsent, List.countP_map]
      simp [Function.comp_def, hm]
  | noted hname hm hsent hpushed => simp [hsent]

theorem acks_step (hmp : mp.Lawful) {s s' : Server} {r : Record} (h : s.Step mp r s') (c : ConnId) :
    acksTo c [r] = if s.name c = [] ∧ s'.name c ≠ [] then 1 else 0 := by
  rw [acksTo_single]
  rcases (step_cases hmp h).view with ⟨-, hes, hname⟩ | ⟨_, _, _, -, -, -, hdisp⟩
  · rw [hes, hname]; simp
  · exact acks_dispatched hdisp c

/-- **A connection has been sent one acknowledgement if it has a name, and none otherwise.** -/
theorem acks_run (hmp : mp.Lawful) {s : Server} {t : List Record}
    (h : Run (Server.Step mp) Server.init t s) (c : ConnId) :
    acksTo c t = if s.name c = [] then 0 else 1 := by
  induction h with
  | refl => rfl
  | @tail t s r s' _ hstep ih =>
      rw [acksTo_concat, ih, acks_step hmp hstep]
      by_cases hc : s.name c = []
      · simp [hc]
      · simp [hc, name_step hmp hstep hc]

/-! ## The join invariant -/

/-- A join request parsed on a nameless connection is answered once. -/
theorem reply_step (hmp : mp.Lawful) {s s' : Server} {r : Record} (h : s.Step mp r s') {m : Message}
    (hp : r.parsed = some m) (hname : r.name = []) (hm : m.messageType = .joinRequest) :
    ∃ c bytes, r.event = .read c bytes ∧
      ((∃ error, sent r.effects = [(c, .ofData (.joinNackMessage error))] ∧ s'.name = s.name) ∨
       (∃ n, n ≠ [] ∧ sent r.effects = [(c, .ofData .joinAckMessage)] ∧
          s'.name = Function.update s.name c n)) := by
  rcases (step_cases hmp h).view with ⟨hnone, -, -⟩ | ⟨c, bytes, m', he, hsome, hn, hdisp⟩
  · rw [hp] at hnone; cases hnone
  · rw [hp] at hsome; cases hsome
    rw [hname] at hn
    refine ⟨c, bytes, he, ?_⟩
    generalize s'.name = names, r.effects = effects at hdisp ⊢
    cases hdisp with
    | ignored _ hne => exact absurd hm hne
    | refused _ _ hsent _ => exact Or.inl ⟨_, hsent, rfl⟩
    | joined _ _ hne _ hsent _ => exact Or.inr ⟨_, hne, hsent, rfl⟩
    | relayed hne _ _ _ => exact absurd hn.symm hne
    | noted hne _ _ _ => exact absurd hn.symm hne

/-- **The join invariant**, in every reachable state: no two participants share a non-empty name, the
    acknowledgements sent agree with the names, names that are set stay, and a join request of a nameless
    connection gets one reply, which changes no name if it is a refusal. -/
theorem join_invariant (hmp : mp.Lawful) {s : Server} {t : List Record}
    (hrun : Run (Server.Step mp) Server.init t s) :
    s.participants_.Pairwise (fun c c' => s.name c ≠ [] → s.name c ≠ s.name c') ∧
    (∀ c, acksTo c t = if s.name c = [] then 0 else 1) ∧
    (∀ t' s' c, Run (Server.Step mp) s t' s' → s.name c ≠ [] → s'.name c = s.name c) ∧
    (∀ r s' m, s.Step mp r s' → r.parsed = some m → r.name = [] → m.messageType = .joinRequest →
      ∃ c bytes, r.event = .read c bytes ∧
        ((∃ error, sent r.effects = [(c, .ofData (.joinNackMessage error))] ∧ s'.name = s.name) ∨
         (∃ n, n ≠ [] ∧ sent r.effects = [(c, .ofData .joinAckMessage)] ∧
            s'.name = Function.update s.name c n))) := by
  have hinv := Server.run_inv hmp hrun
  refine ⟨?_, acks_run hmp hrun, ?_, ?_⟩
  · apply List.Pairwise.imp _ hinv.participants_nodup
    intro c c' hne hc he
    exact hne (hinv.unique c c' hc he)
  · intro t' s' c h hc
    exact name_run hmp h hc
  · intro r s' m h hp hname hm
    exact reply_step hmp h hp hname hm

/-- Both players have a name, and one acknowledgement each. -/
theorem join_invariant_twoPlayers :
    ∃ s t, Server.init.exec Msgpack.reference twoPlayers = .ok (s, t) ∧ acksTo 0 t = 1 ∧ acksTo 1 t = 1 ∧
      s.participants_.Pairwise (fun c c' => s.name c ≠ [] → s.name c ≠ s.name c') := by
  obtain ⟨s, t, hexec, h0, h1⟩ := twoPlayers_joined
  obtain ⟨hunique, hacks, -⟩ := join_invariant Msgpack.reference_lawful (Server.run_of_exec hexec)
  exact ⟨s, t, hexec, by rw [hacks, h0]; rfl, by rw [hacks, h1]; rfl, hunique⟩

end Quizzbot
