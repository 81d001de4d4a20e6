import Quizzbot.Server.Correctness.Chat

/-!
# `Server.Correctness.Lifecycle` — outstanding operations and the room, over every run

What is outstanding is determined by the history: there is one accept as long as none has failed; a
connection is in the room from its accept on, and has one read outstanding until a read of it fails
(`accounted_run`). Nothing takes a connection out of the room: one that cannot be read any more is still
handed the chat of the others, and its name stays taken (`lifecycle_run`). So the room and the operations
agree with the connections that are alive exactly as long as no completion reports an error
(`lifecycle_iff`).
-/

namespace Quizzbot

open LabelledRun (Run)

variable {mp : Msgpack}

/-! ## Histories of completions -/

/-- The connection a successful accept made. -/
def Event.accepted? : Event → Option ConnId
  | .accept c => some c
  | _ => none

/-- The connection a failed accept was for. -/
def Event.acceptFailed? : Event → Option ConnId
  | .acceptError c => some c
  | _ => none

/-- The connection whose read failed. -/
def Event.readFailed? : Event → Option ConnId
  | .readError c => some c
  | _ => none

/-- The completion reports an error. -/
def Event.isError : Event → Bool
  | .acceptError _ => true
  | .readError _ => true
  | _ => false

/-- The connections of the completions of one kind. -/
def completions (f : Event → Option ConnId) (t : List Record) : List ConnId :=
  t.filterMap fun r => f r.event

theorem completions_concat (f : Event → Option ConnId) (t : List Record) (r : Record) :
    completions f (t ++ [r]) = completions f t ++ (f r.event).toList := by
  rw [completions, List.filterMap_append]
  cases h : f r.event <;> simp [completions, h]

/-- A completion of another kind adds nothing. -/
theorem completions_other {f : Event → Option ConnId} {t : List Record} {r : Record}
    (h : f r.event = none) : completions f (t ++ [r]) = completions f t := by
  rw [completions_concat, h, Option.toList_none, List.append_nil]

/-- A completion of the kind adds its connection. -/
theorem completions_same {f : Event → Option ConnId} {t : List Record} {r : Record} {c : ConnId}
    (h : f r.event = some c) : completions f (t ++ [r]) = completions f t ++ [c] := by
  rw [completions_concat, h, Option.toList_some]

/-! ## What the history says -/

/-- The outstanding operations and the room, read off the history. -/
structure Accounted (t : List Record) (s : Server) : Prop where
  accepting    : s.accepting.length = if completions Event.acceptFailed? t = [] then 1 else 0
  participants : s.participants_ = completions Event.accepted? t
  failed_mem   : ∀ c ∈ completions Event.readFailed? t, c ∈ completions Event.accepted? t
  reads        : ∀ c, (s.conns c).reads =
    if c ∈ completions Event.accepted? t ∧ c ∉ completions Event.readFailed? t then 1 else 0

/-- A read that is followed by the next one changes nothing that is accounted for. -/
theorem Accounted.readOn {t : List Record} {s s' : Server} {r : Record} {c : ConnId}
    {bytes rest : Packet} (h : Accounted t s) (he : r.event = .read c bytes) (hs : ReadOn s c rest s') :
    Accounted (t ++ [r]) s' := by
  have hacc := completions_other (f := Event.accepted?) (t := t) (r := r) (by rw [he]; rfl)
  have haf := completions_other (f := Event.acceptFailed?) (t := t) (r := r) (by rw [he]; rfl)
  have hrf := completions_other (f := Event.readFailed?) (t := t) (r := r) (by rw [he]; rfl)
  constructor
  · rw [hs.accepting, haf]; exact h.accepting
  · rw [hs.participants, hacc]; exact h.participants
  · rw [hrf, hacc]; exact h.failed_mem
  · intro c'
    rw [hacc, hrf, ← h.reads c']
    by_cases hc : c' = c
    · subst hc; exact hs.reads
    · rw [hs.others c' hc]

theorem Accounted.accept {t : List Record} {s : Server} {r : Record} {c : ConnId} (h : Accounted t s)
    (hinv : s.Inv) (he : r.event = .accept c) (hc : c ∈ s.accepting) :
    Accounted (t ++ [r]) ({ s with accepting := s.accepting.erase c }.handleNewConnection c) := by
  have hnew : c ∉ completions Event.accepted? t := by
    rw [← h.participants]; exact hinv.disjoint c hc
  have hacc := completions_same (f := Event.accepted?) (t := t) (r := r) (c := c) (by rw [he]; rfl)
  have haf := completions_other (f := Event.acceptFailed?) (t := t) (r := r) (by rw [he]; rfl)
  have hrf := completions_other (f := Event.readFailed?) (t := t) (r := r) (by rw [he]; rfl)
  constructor
  · -- the accept that completed was the only one, and the next one is started
    show (s.accepting.erase c ++ [s.created]).length = _
    have hlen := h.accepting
    have hpos := List.length_pos_of_mem hc
    rw [haf, ← hlen, List.length_append, List.length_erase_of_mem hc, List.length_singleton]
    omega
  · show s.participants_ ++ [c] = _
    rw [hacc, h.participants]
  · rw [hrf, hacc]
    intro c' hc'
    exact List.mem_append_left _ (h.failed_mem c' hc')
  · intro c'
    rw [hrf, hacc]
    by_cases hcc : c' = c
    · subst hcc
      have hreads : (s.conns c').reads = 0 := by
        rw [h.reads, if_neg (by rintro ⟨hmem, -⟩; exact hnew hmem)]
      have halive : c' ∈ completions Event.accepted? t ++ [c'] ∧ c' ∉ completions Event.readFailed? t :=
        ⟨by simp, by intro hf; exact hnew (h.failed_mem c' hf)⟩
      rw [if_pos halive]
      show ((s.modify c' fun conn => { conn with reads := conn.reads + 1 }).conns c').reads = 1
      rw [Server.conns_modify, hreads]
    · show ((s.modify c fun conn => { conn with reads := conn.reads + 1 }).conns c').reads = _
      rw [Server.conns_modify_of_ne hcc, h.reads c']
      simp [hcc]

theorem Accounted.acceptError {t : List Record} {s : Server} {r : Record} {c : ConnId}
    (h : Accounted t s) (he : r.event = .acceptError c) (hc : c ∈ s.accepting) :
    Accounted (t ++ [r]) { s with accepting := s.accepting.erase c } := by
  have hacc := completions_other (f := Event.accepted?) (t := t) (r := r) (by rw [he]; rfl)
  have haf := completions_same (f := Event.acceptFailed?) (t := t) (r := r) (c := c) (by rw [he]; rfl)
  have hrf := completions_other (f := Event.readFailed?) (t := t) (r := r) (by rw [he]; rfl)
  constructor
  · have hlen := h.accepting
    have hpos := List.length_pos_of_mem hc
    rw [haf, if_neg (List.append_ne_nil_of_right_ne_nil _ (List.cons_ne_nil _ _))]
    show (s.accepting.erase c).length = 0
    rw [List.length_erase_of_mem hc]
    split at hlen <;> omega
  · rw [hacc]; exact h.participants
  · rw [hrf, hacc]; exact h.failed_mem
  · rw [hrf, hacc]; exact h.reads

theorem Accounted.readError {t : List Record} {s : Server} {r : Record} {c : ConnId}
    (h : Accounted t s) (he : r.event = .readError c) (hc : 0 < (s.conns c).reads) :
    Accounted (t ++ [r]) (s.modify c fun conn => { conn with reads := conn.reads - 1 }) := by
  have hacc := completions_other (f := Event.accepted?) (t := t) (r := r) (by rw [he]; rfl)
  have haf := completions_other (f := Event.acceptFailed?) (t := t) (r := r) (by rw [he]; rfl)
  have hrf := completions_same (f := Event.readFailed?) (t := t) (r := r) (c := c) (by rw [he]; rfl)
  -- only a connection whose chain is alive has a read to fail
  obtain ⟨hmem, hone⟩ : c ∈ completions Event.accepted? t ∧ (s.conns c).reads = 1 := by
    have hreads := h.reads c
    split at hreads
    · exact ⟨by tauto, hreads⟩
    · omega
  constructor
  · rw [haf]; exact h.accepting
  · rw [hacc]; exact h.participants
  · rw [hrf, hacc]
    intro c' hc'
    rcases List.mem_append.mp hc' with hc' | hc'
    · exact h.failed_mem c' hc'
    · rw [List.mem_singleton.mp hc']; exact hmem
  · intro c'
    rw [hrf, hacc]
    by_cases hcc : c' = c
    · subst hcc
      rw [Server.conns_modify, if_neg (by simp), hone]
    · rw [Server.conns_modify_of_ne hcc, h.reads c']
      simp [hcc]

/-- **The history accounts for what is outstanding**, in every run. -/
theorem accounted_run (hmp : mp.Lawful) {s : Server} {t : List Record}
    (h : Run (Server.Step mp) Server.init t s) : Accounted t s := by
  induction h with
  | refl =>
      constructor
      · rfl
      · rfl
      · intro c hc; cases hc
      · intro c; rfl
  | tail hrun hstep ih =>
      cases step_cases hmp hstep with
      | accepted he hc _ _ hs => subst hs; exact ih.accept (Server.run_inv hmp hrun) he hc
      | acceptFailed he hc _ _ hs => subst hs; exact ih.acceptError he hc
      | readFailed he hc _ _ hs => subst hs; exact ih.readError he hc
      | silent he _ _ hs _ _ _ => exact ih.readOn he hs
      | received he _ _ hs _ _ _ => exact ih.readOn he hs

/-! ## The lifecycle -/

/-- The participants are the connections that were accepted, each listed once, and those whose reads have
    not failed have one read outstanding. A participant that has a name is found under it. No more than one
    accept is outstanding, and one is as long as none has failed. -/
structure Enrolled (t : List Record) (s : Server) : Prop where
  nodup        : s.participants_.Nodup
  mem_iff      : ∀ c, c ∈ s.participants_ ↔ c ∈ completions Event.accepted? t
  reads        : ∀ c, (s.conns c).reads =
    if c ∈ s.participants_ ∧ c ∉ completions Event.readFailed? t then 1 else 0
  found        : ∀ c ∈ s.participants_, s.name c ≠ [] → s.findByName (s.name c) = some c
  accepting_le : s.accepting.length ≤ 1
  one_accept   : completions Event.acceptFailed? t = [] → s.accepting.length = 1

/-- Names are unique, so the participant that is found under a name is the one that has it. -/
theorem Server.Inv.findByName {s : Server} (h : s.Inv) {c : ConnId} (hc : c ∈ s.participants_)
    (hne : s.name c ≠ []) : s.findByName (s.name c) = some c := by
  rw [Server.findByName, if_neg hne]
  cases hfind : s.participants_.find? fun p => s.name p = s.name c with
  | none =>
      have hno := List.find?_eq_none.mp hfind c hc
      simp at hno
  | some c' =>
      have hname : s.name c' = s.name c := by simpa using List.find?_some hfind
      rw [h.unique c c' hne hname.symm]

theorem Accounted.enrolled {t : List Record} {s : Server} (h : Accounted t s) (hinv : s.Inv) :
    Enrolled t s where
  nodup := hinv.participants_nodup
  mem_iff c := by rw [h.participants]
  reads c := by rw [h.reads, h.participants]
  found c hc hne := hinv.findByName hc hne
  accepting_le := by rw [h.accepting]; split <;> omega
  one_accept hno := by rw [h.accepting, if_pos hno]

/-- **A connection is in the room for good**: in every reachable state the participants are the connections
    that were accepted so far, and whether its reads have failed or not, a participant is handed the chat
    message a step dispatches, unless it is its own. -/
theorem lifecycle_run (hmp : mp.Lawful) {s : Server} {t : List Record}
    (h : Run (Server.Step mp) Server.init t s) :
    Enrolled t s ∧
    ∀ r s', s.Step mp r s' → ∀ p ∈ s.participants_,
      handed p [r] = (chats [r]).filter (fun x => x.1 ≠ p) := by
  have hinv := Server.run_inv hmp h
  refine ⟨(accounted_run hmp h).enrolled hinv, ?_⟩
  intro r s' hstep p hp
  exact handed_step hmp hinv hstep hp

/-- The second of two players cannot be read any more. -/
def lostPlayer : List Event := twoPlayers ++ [.readError 1]

/-- It is in the room, and its name is taken. -/
theorem lifecycle_run_lostPlayer : ∃ s t, Server.init.exec Msgpack.reference lostPlayer = .ok (s, t) ∧
    1 ∈ s.participants_ ∧ (s.conns 1).reads = 0 ∧ s.findByName [0x62] = some 1 := by
  have hcheck : (Server.init.exec Msgpack.reference lostPlayer).toOption.map
      (fun x => (x.1.name 1, decide (1 ∈ completions Event.accepted? x.2),
        decide (1 ∈ completions Event.readFailed? x.2))) = some ([0x62], true, true) := by decide
  obtain ⟨s, t, hexec, hpair⟩ := Server.exec_eval hcheck
  obtain ⟨hname, hpair⟩ := Prod.mk.inj hpair
  obtain ⟨hacc, hfailed⟩ := Prod.mk.inj hpair
  obtain ⟨henrolled, -⟩ := lifecycle_run Msgpack.reference_lawful (Server.run_of_exec hexec)
  have hmem : 1 ∈ s.participants_ := (henrolled.mem_iff 1).mpr (of_decide_eq_true hacc)
  refine ⟨s, t, hexec, hmem, ?_, ?_⟩
  · rw [henrolled.reads, if_neg (by rintro ⟨-, hnot⟩; exact hnot (of_decide_eq_true hfailed))]
  · have hname : s.name 1 = [0x62] := hname
    rw [← hname]
    exact henrolled.found 1 hmem (by rw [hname]; decide)

/-- One accept is outstanding, and the participants are the connections that were accepted and whose reads
    have not failed, each listed once and with one read outstanding. -/
structure Lifecycle (t : List Record) (s : Server) : Prop where
  one_accept : s.accepting.length = 1
  nodup      : s.participants_.Nodup
  mem_iff    : ∀ c, c ∈ s.participants_ ↔
    c ∈ completions Event.accepted? t ∧ c ∉ completions Event.readFailed? t
  one_read   : ∀ c ∈ s.participants_, (s.conns c).reads = 1

theorem no_errors_iff {t : List Record} : (∀ r ∈ t, r.event.isError = false) ↔
    completions Event.acceptFailed? t = [] ∧ completions Event.readFailed? t = [] := by
  unfold completions
  rw [List.filterMap_eq_nil_iff, List.filterMap_eq_nil_iff]
  constructor
  · intro h
    constructor
    · intro r hr
      have hno := h r hr
      cases he : r.event <;> rw [he] at hno <;> first | rfl | cases hno
    · intro r hr
      have hno := h r hr
      cases he : r.event <;> rw [he] at hno <;> first | rfl | cases hno
  · rintro ⟨ha, hr⟩ r hmem
    have h1 := ha r hmem
    have h2 := hr r hmem
    cases he : r.event with
    | accept c => rfl
    | acceptReset c => rfl
    | read c bytes => rfl
    | acceptError c => rw [he] at h1; cases h1
    | readError c => rw [he] at h2; cases h2

/-- **The lifecycle is in order exactly as long as no completion reports an error**, in every run. -/
theorem lifecycle_iff (hmp : mp.Lawful) {s : Server} {t : List Record}
    (h : Run (Server.Step mp) Server.init t s) :
    Lifecycle t s ↔ ∀ r ∈ t, r.event.isError = false := by
  have hacc := accounted_run hmp h
  have hinv := Server.run_inv hmp h
  rw [no_errors_iff]
  constructor
  · intro hl
    constructor
    · by_contra hne
      have hzero := hacc.accepting
      rw [if_neg hne, hl.one_accept] at hzero
      cases hzero
    · -- a connection whose read failed would still be in the room
      rw [List.eq_nil_iff_forall_not_mem]
      intro c hc
      have hmem : c ∈ s.participants_ := by rw [hacc.participants]; exact hacc.failed_mem c hc
      exact ((hl.mem_iff c).mp hmem).2 hc
  · rintro ⟨ha, hr⟩
    constructor
    · rw [hacc.accepting, if_pos ha]
    · exact hinv.participants_nodup
    · intro c
      rw [hacc.participants, hr]
      simp
    · intro c hc
      rw [hacc.reads, if_pos ⟨hacc.participants ▸ hc, by rw [hr]; exact List.not_mem_nil⟩]

/-- After a failed accept none is outstanding, and after a failed read the connection is in the room. -/
theorem not_lifecycle_errors :
    (∃ s t, Server.init.exec Msgpack.reference [.acceptError 0] = .ok (s, t) ∧ ¬ Lifecycle t s) ∧
    (∃ s t, Server.init.exec Msgpack.reference [.accept 0, .readError 0] = .ok (s, t) ∧
      ¬ Lifecycle t s) := by
  constructor
  · refine ⟨_, _, rfl, ?_⟩
    intro h
    cases h.one_accept
  · refine ⟨_, _, rfl, ?_⟩
    intro h
    exact ((h.mem_iff 0).mp (List.mem_singleton.mpr rfl)).2 (List.mem_singleton.mpr rfl)

end Quizzbot
