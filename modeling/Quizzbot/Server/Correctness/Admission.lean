import Quizzbot.Server.Correctness.Chat

/-!
# `Server.Correctness.Admission` — who is handed chat before joining

A connection is in the room from its accept on, and gets its name only when a join request of it is
granted. The relay does not look at names, so it hands chat to the connections in between. It hands
nothing to a nameless connection exactly as long as a chat message comes in only when everybody else in
the room has joined (`handsToNamed_iff`), and then a connection that has not joined is only ever sent
refusals (`admission_iff`).
-/

namespace Quizzbot

open LabelledRun (Run Under)

variable {mp : Msgpack}

/-- No `MESSAGE` is handed to a connection whose name is empty. -/
def HandsToNamed (s : Server) (r : Record) : Prop :=
  ∀ x ∈ sent r.effects, x.2.messageType = .message → s.name x.1 ≠ []

/-- If the completion brings a chat message of a connection that has joined, then all others in the room
    have joined. -/
def Admits (mp : Msgpack) (s : Server) (r : Record) : Prop :=
  ∀ c bytes m rest, r.event = .read c bytes → s.name c ≠ [] →
    Protocol.parse (messageCodec mp) ((s.conns c).acc_packet_ ++ bytes) = .ok (some m, rest) →
    m.messageType = .message → ∀ p ∈ s.participants_, p ≠ c → s.name p ≠ []

/-! ## Steps -/

/-- What the condition says of a step, given what it parsed. -/
theorem admits_iff (hmp : mp.Lawful) {s s' : Server} {r : Record} (h : s.Step mp r s') :
    Admits mp s r ↔ ∀ c bytes m, r.event = .read c bytes → r.parsed = some m → s.name c ≠ [] →
      m.messageType = .message → ∀ p ∈ s.participants_, p ≠ c → s.name p ≠ [] := by
  constructor
  · intro hadm c bytes m he hp hname hm
    obtain ⟨rest, hparse⟩ := ((step_cases hmp h).parsed_iff he).mp hp
    exact hadm c bytes m rest he hname hparse hm
  · intro hall c bytes m rest he hname hparse hm
    exact hall c bytes m he (((step_cases hmp h).parsed_iff he).mpr ⟨rest, hparse⟩) hname hm

/-- **A step hands chat to named connections only, exactly if it meets the condition.** -/
theorem handsToNamed_iff (hmp : mp.Lawful) {s s' : Server} {r : Record} (h : s.Step mp r s') :
    HandsToNamed s r ↔ Admits mp s r := by
  rw [admits_iff hmp h, HandsToNamed]
  rcases (step_cases hmp h).view with ⟨hp, hes, -⟩ | ⟨c, bytes, m, he, hp, -, hdisp⟩
  · rw [hp, hes]; simp
  · -- the step is about `m`, parsed on `c`
    have hone : (∀ c' bytes' m', r.event = .read c' bytes' → r.parsed = some m' → s.name c' ≠ [] →
        m'.messageType = .message → ∀ p ∈ s.participants_, p ≠ c' → s.name p ≠ []) ↔
        (s.name c ≠ [] → m.messageType = .message → ∀ p ∈ s.participants_, p ≠ c → s.name p ≠ []) := by
      rw [he, hp]
      constructor
      · intro hall
        exact hall c bytes m rfl rfl
      · intro hc c' bytes' m' he' hp'
        cases he'
        cases hp'
        exact hc
    rw [hone]
    generalize s'.name = names, r.effects = effects at hdisp ⊢
    cases hdisp with
    | ignored hname _ => simp [hname]
    | refused hname _ hsent _ => simp [hname, hsent, MessageData.messageType,
        MessageClass.messageType, MessageData.joinNackMessage]
    | joined hname _ _ _ hsent _ => simp [hname, hsent, MessageData.messageType,
        MessageClass.messageType, MessageData.joinAckMessage]
    | noted _ hm hsent _ => simp [hm, hsent]
    | relayed hname hm hsent _ =>
        -- the copies go to everybody but the emitter
        rw [hsent]
        constructor
        · intro hnamed _ _ p hp hpc
          exact hnamed (p, m) (List.mem_map_of_mem (by simp [hp, hpc])) hm
        · intro hall x hx _
          obtain ⟨p, hp, rfl⟩ := List.mem_map.mp hx
          obtain ⟨hp, hpc⟩ := List.mem_filter.mp hp
          exact hall hname hm p hp (of_decide_eq_true hpc)

/-- No acknowledgement goes to a connection that has no name afterwards. -/
theorem not_ack_of_nameless (hmp : mp.Lawful) {s s' : Server} {r : Record} (h : s.Step mp r s')
    {x : ConnId × Message} (hx : x ∈ sent r.effects) (hname : s'.name x.1 = []) :
    x.2.messageType ≠ .joinAck := by
  intro hack
  have hcount := acks_step hmp h x.1
  rw [acksTo_single, if_neg (by rintro ⟨-, hne⟩; exact hne hname), List.countP_eq_zero] at hcount
  exact hcount x hx (by simp [hack])

/-! ## Runs -/

/-- A connection that is nameless at the end of a run without chat to nameless connections has only been
    sent refusals. -/
theorem only_refusals (hmp : mp.Lawful) {s : Server} {t : List Record}
    (h : Run (Under (Server.Step mp) HandsToNamed) Server.init t s) {p : ConnId} (hp : s.name p = []) :
    ∀ r ∈ t, ∀ x ∈ sent r.effects, x.1 = p → x.2.messageType = .joinNack := by
  induction h with
  | refl => intro r hr; cases hr
  | @tail t s r s' _ hs ih =>
      obtain ⟨hstep, hnamed⟩ := hs
      -- it was nameless before
      have hbefore : s.name p = [] := by
        by_contra hne
        exact hne (by rw [← name_step hmp hstep hne, hp])
      intro r' hr x hx hxp
      rcases List.mem_append.mp hr with hr | hr
      · exact ih hbefore r' hr x hx hxp
      · rw [List.mem_singleton.mp hr] at hx
        rcases sent_step hmp hstep hx with ⟨-, -, hack | hnack⟩ | ⟨-, -, -, hm⟩
        · exact absurd hack (not_ack_of_nameless hmp hstep hx (by rw [hxp]; exact hp))
        · exact hnack
        · exact absurd (hxp ▸ hbefore) (hnamed x hx hm)

/-- **Chat before joining**: a run hands no `MESSAGE` to a nameless connection exactly if each of its steps
    meets the condition; and then a connection that has not joined, or whose requests were all refused, has
    only been sent `JoinNack`s. -/
theorem admission_iff (hmp : mp.Lawful) (s : Server) (t : List Record) :
    (Run (Under (Server.Step mp) HandsToNamed) Server.init t s ↔
      Run (Under (Server.Step mp) (Admits mp)) Server.init t s) ∧
    (Run (Under (Server.Step mp) (Admits mp)) Server.init t s → ∀ p, s.name p = [] →
      ∀ r ∈ t, ∀ x ∈ sent r.effects, x.1 = p → x.2.messageType = .joinNack) := by
  have hiff : Run (Under (Server.Step mp) HandsToNamed) Server.init t s ↔
      Run (Under (Server.Step mp) (Admits mp)) Server.init t s := by
    apply Run.under_congr
    intro _ _ _ _ _ hstep
    exact handsToNamed_iff hmp hstep
  refine ⟨hiff, ?_⟩
  intro h p hp
  exact only_refusals hmp (hiff.mpr h) hp

/-- The first player greets the second; a third asks for the name of the first and gets no other one. -/
def refusedPlayer : List Event := greeting ++ [.accept 2, .read 2 joinA]

theorem admission_iff_refusedPlayer : ∃ s₁ t₁ s t,
    Server.init.exec Msgpack.reference twoPlayers = .ok (s₁, t₁) ∧
    s₁.exec Msgpack.reference refusedPlayer = .ok (s, t) ∧
    handed 1 t = [(0, .ofData (.messageMessage [0x68] [0x61]))] ∧ s.name 2 = [] ∧
      ∀ r ∈ t₁ ++ t, ∀ x ∈ sent r.effects, x.1 = 2 → x.2.messageType = .joinNack := by
  have hcheck : (Server.init.exec Msgpack.reference twoPlayers).toOption.map (fun x =>
      (decide (x.1.name 1 ≠ [] ∧ ∀ r ∈ x.2, ∀ y ∈ sent r.effects, y.2.messageType ≠ .message),
        (x.1.exec Msgpack.reference refusedPlayer).toOption.map fun y =>
          decide ((handed 1 y.2 = [(0, .ofData (.messageMessage [0x68] [0x61]))] ∧ y.1.name 2 = []) ∧
            ∀ r ∈ y.2, ∀ z ∈ sent r.effects, z.2.messageType = .message → z.1 = 1)))
        = some (true, some true) := by decide
  obtain ⟨s₁, t₁, hexec₁, hpair⟩ := Server.exec_eval hcheck
  obtain ⟨hfirst, hsecond⟩ := Prod.mk.inj hpair
  obtain ⟨h1, hquiet⟩ := of_decide_eq_true hfirst
  obtain ⟨s, t, hexec, hcheck⟩ := Server.exec_eval hsecond
  obtain ⟨⟨hhanded, hname⟩, hgreets⟩ := of_decide_eq_true hcheck
  have hrun₁ : Run (Under (Server.Step Msgpack.reference) HandsToNamed) Server.init t₁ s₁ := by
    apply (Server.run_of_exec hexec₁).under_of_mem
    intro _ r _ hr _ x hx hm
    exact absurd hm (hquiet r hr x hx)
  -- what is handed over then goes to the second player, who has a name
  have hrun : Run (Under (Server.Step Msgpack.reference) HandsToNamed) s₁ t s := by
    have honly : Run (Under (Server.Step Msgpack.reference) fun _ r => ∀ x ∈ sent r.effects,
        x.2.messageType = .message → x.1 = 1) s₁ t s := by
      apply (Server.run_of_exec hexec).under_of_mem
      intro _ r _ hr _ x hx hm
      exact hgreets r hr x hx hm
    apply honly.under_mono
    intro _ s' r _ hearly _ honly x hx hm
    rw [honly x hx hm, name_run Msgpack.reference_lawful hearly h1]
    exact h1
  obtain ⟨hiff, hrefusals⟩ := admission_iff Msgpack.reference_lawful s (t₁ ++ t)
  exact ⟨s₁, t₁, s, t, hexec₁, hexec, hhanded, hname, hrefusals (hiff.mp (hrun₁.trans hrun)) 2 hname⟩

/-- The first player speaks before the second has joined. -/
def earlyGreeting : List Event := [.accept 0, .accept 1, .read 0 joinA] ++ greeting

theorem not_handsToNamed_earlyGreeting : ∃ s t,
    Server.init.exec Msgpack.reference earlyGreeting = .ok (s, t) ∧ s.name 1 = [] ∧
      ¬ Run (Under (Server.Step Msgpack.reference) HandsToNamed) Server.init t s := by
  have hcheck : (Server.init.exec Msgpack.reference earlyGreeting).toOption.map
      (fun x => (x.1.name 1, decide (∃ r ∈ x.2, ∃ x ∈ sent r.effects,
        x.1 = 1 ∧ x.2.messageType = .message))) = some ([], true) := by decide
  obtain ⟨s, t, hexec, hpair⟩ := Server.exec_eval hcheck
  obtain ⟨hname, hsent⟩ := Prod.mk.inj hpair
  refine ⟨s, t, hexec, hname, ?_⟩
  intro h
  -- the greeting is not a refusal
  obtain ⟨r, hr, x, hx, hx1, hm⟩ := of_decide_eq_true hsent
  have hnack := only_refusals Msgpack.reference_lawful h hname r hr x hx hx1
  rw [hm] at hnack
  cases hnack

end Quizzbot
