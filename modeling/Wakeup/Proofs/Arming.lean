import Wakeup.Proofs.Claims
import Wakeup.Proofs.Uses

/-! Which waits are armed, and on whose behalf. Tickets tell the waits that are armed from some
point on. -/
namespace Wakeup

/-- A watcher or a heartbeat. -/
inductive Part
  | watcher (id : Nat)
  | heartbeat (id : Nat)
  deriving DecidableEq, Repr

def Owner.part : Owner → Part
  | .watcher i _ => .watcher i
  | .heartbeat t _ => .heartbeat t

/-- On whose behalf a callback was armed. -/
def Callback.part? : Callback → Option Part
  | .ready i _ _ => some (.watcher i)
  | .beat t _ _ => some (.heartbeat t)
  | .bare _ => none

namespace Manual
variable {m m' m'' : Manual} {P Q : Callback → Prop}

/-- All waits of a reactor. -/
def waits (m : Manual) : List Wait := m.ready.map (·.wait) ++ m.timed.map (·.wait) ++ m.parked

theorem mem_waits {w : Wait} : w ∈ m.waits ↔
    (∃ r ∈ m.ready, r.wait = w) ∨ (∃ t ∈ m.timed, t.wait = w) ∨ w ∈ m.parked := by
  simp [waits]

/-- No wait gets lost when a registration ends. -/
theorem mem_waits_release (r : Registration) {w : Wait} :
    w ∈ (m.release r).waits ↔ w ∈ m.waits := by
  rw [mem_waits, mem_waits, release]
  simp only [List.mem_filter, List.mem_append, List.mem_map, decide_eq_true_eq]
  constructor
  · rintro (⟨x, ⟨hx, -⟩, rfl⟩ | ht | hp | ⟨x, ⟨hx, -⟩, rfl⟩)
    · exact Or.inl ⟨x, hx, rfl⟩
    · exact Or.inr (Or.inl ht)
    · exact Or.inr (Or.inr hp)
    · exact Or.inl ⟨x, hx, rfl⟩
  · rintro (⟨x, hx, rfl⟩ | ht | hp)
    · by_cases hid : x.registration.id = r.id
      · exact Or.inr (Or.inr (Or.inr ⟨x, ⟨hx, hid⟩, rfl⟩))
      · exact Or.inl ⟨x, ⟨hx, hid⟩, rfl⟩
    · exact Or.inr (Or.inl ht)
    · exact Or.inr (Or.inr (Or.inl hp))

/-- No wait gets lost when a timer is cancelled. -/
theorem mem_waits_cancel (t : Nat) {w : Wait} : w ∈ (m.cancel t).waits ↔ w ∈ m.waits := by
  rw [mem_waits, mem_waits, cancel]
  simp only [List.mem_filter, List.mem_append, List.mem_map, decide_eq_true_eq]
  constructor
  · rintro (hr | ⟨x, ⟨hx, -⟩, rfl⟩ | hp | ⟨x, ⟨hx, -⟩, rfl⟩)
    · exact Or.inl hr
    · exact Or.inr (Or.inl ⟨x, hx, rfl⟩)
    · exact Or.inr (Or.inr hp)
    · exact Or.inr (Or.inl ⟨x, hx, rfl⟩)
  · rintro (hr | ⟨x, hx, rfl⟩ | hp)
    · exact Or.inl hr
    · by_cases htimer : x.timer = t
      · exact Or.inr (Or.inr (Or.inr ⟨x, ⟨hx, htimer⟩, rfl⟩))
      · exact Or.inr (Or.inl ⟨x, ⟨hx, htimer⟩, rfl⟩)
    · exact Or.inr (Or.inr (Or.inl hp))

theorem mem_waits_arm (r : Registration) (d : Direction) (c : Callback) {w : Wait} :
    w ∈ (m.arm r d c).waits ↔ w ∈ m.waits ∨ w = ⟨m.tickets, c⟩ := by
  simp only [waits, arm, List.map_append, List.mem_append, List.map_cons, List.map_nil,
    List.mem_singleton]
  tauto

theorem mem_waits_schedule (t deadline : Nat) (c : Callback) {w : Wait} :
    w ∈ (m.schedule t deadline c).waits ↔ w ∈ m.waits ∨ w = ⟨m.tickets, c⟩ := by
  rw [← mem_waits_cancel (m := m) t]
  simp only [waits, schedule, cancel, List.map_append, List.mem_append, List.map_cons,
    List.map_nil, List.mem_singleton]
  tauto

theorem mem_waits_takeReady {fd : Fd} {d : Direction} {wait : Wait}
    (h : m.takeReady fd d = some (wait, m')) :
    m'.tickets = m.tickets ∧ ∀ w, w ∈ m.waits ↔ w = wait ∨ w ∈ m'.waits := by
  obtain ⟨x, rs, rfl, hperm, rfl⟩ := takeReady_some h
  refine ⟨rfl, fun w => ?_⟩
  have hmem := (hperm.map (·.wait)).mem_iff (a := w)
  simp only [waits, List.mem_append, hmem, List.map_cons, List.mem_cons, or_assoc]

theorem mem_waits_takeTimed {deadline : Nat} {wait : Wait}
    (h : m.takeTimed deadline = some (wait, m')) :
    m'.tickets = m.tickets ∧ ∀ w, w ∈ m.waits ↔ w = wait ∨ w ∈ m'.waits := by
  obtain ⟨x, ts, rfl, hperm, rfl⟩ := takeTimed_some h
  refine ⟨rfl, fun w => ?_⟩
  have hmem := (hperm.map (·.wait)).mem_iff (a := w)
  simp only [waits, List.mem_append, hmem, List.map_cons, List.mem_cons]
  tauto

theorem mem_waits_takeParked {w : Wait} :
    w ∈ m.waits ↔ w ∈ m.takeParked.1 ∨ w ∈ m.takeParked.2.waits := by
  simp only [waits, takeParked, List.append_nil, List.mem_append]
  tauto

/-- From one reactor to the other, only callbacks of one kind were armed. -/
structure Arms (P : Callback → Prop) (m m' : Manual) : Prop where
  tickets_le : m.tickets ≤ m'.tickets
  waits : ∀ w ∈ m'.waits,
    w ∈ m.waits ∨ m.tickets ≤ w.ticket ∧ w.ticket < m'.tickets ∧ P w.callback

namespace Arms

theorem of_waits (ht : m'.tickets = m.tickets) (hw : ∀ w ∈ m'.waits, w ∈ m.waits) :
    Arms P m m' where
  tickets_le := ht.ge
  waits := fun w h => Or.inl (hw w h)

theorem refl (m : Manual) : Arms P m m := of_waits rfl fun _ => id

theorem of_eq (h : m' = m) : Arms P m m' := by
  rw [h]
  exact refl m

theorem trans (h : Arms P m m') (h' : Arms P m' m'') : Arms P m m'' where
  tickets_le := h.tickets_le.trans h'.tickets_le
  waits := by
    intro w hw
    rcases h'.waits w hw with hw | ⟨hle, hlt, hP⟩
    · rcases h.waits w hw with hw | ⟨hle, hlt, hP⟩
      · exact Or.inl hw
      · exact Or.inr ⟨hle, hlt.trans_le h'.tickets_le, hP⟩
    · exact Or.inr ⟨h.tickets_le.trans hle, hlt, hP⟩

theorem mono (h : Arms P m m') (hPQ : ∀ c, P c → Q c) : Arms Q m m' where
  tickets_le := h.tickets_le
  waits := fun w hw => (h.waits w hw).imp id fun h => ⟨h.1, h.2.1, hPQ _ h.2.2⟩

theorem release (m : Manual) (r : Registration) : Arms P m (m.release r) :=
  of_waits rfl fun _ hw => (mem_waits_release r).mp hw

theorem cancel (m : Manual) (t : Nat) : Arms P m (m.cancel t) :=
  of_waits rfl fun _ hw => (mem_waits_cancel t).mp hw

theorem of_new {c : Callback} (ht : m'.tickets = m.tickets + 1)
    (hw : ∀ w ∈ m'.waits, w ∈ m.waits ∨ w = ⟨m.tickets, c⟩) : Arms (· = c) m m' where
  tickets_le := by omega
  waits := by
    intro w hmem
    rcases hw w hmem with h | rfl
    · exact Or.inl h
    · refine Or.inr ⟨le_refl _, ?_, rfl⟩
      rw [ht]
      exact Nat.lt_succ_self _

theorem arm (m : Manual) (r : Registration) (d : Direction) (c : Callback) :
    Arms (· = c) m (m.arm r d c) :=
  of_new rfl fun _ hw => (mem_waits_arm r d c).mp hw

theorem schedule (m : Manual) (t deadline : Nat) (c : Callback) :
    Arms (· = c) m (m.schedule t deadline c) :=
  of_new rfl fun _ hw => (mem_waits_schedule t deadline c).mp hw

end Arms
end Manual

namespace Hub
open Manual
variable {P : Callback → Prop} {hub hub' : Hub Manual}

/-- Whether the engine's call after a completion is followed by another wait. -/
def rearms (hub : Hub Manual) (call : Call) : Bool :=
  match call.owner, call.notice with
  | .watcher i d, .process .. =>
    hub.watchers[i]?.any fun x => (x.sides.get d).wanted && !(x.sides.get d).pending
  | .heartbeat t generation, .heartbeat =>
    hub.heartbeats[t]?.any fun x => x.schedule.deadline.isSome && x.schedule.interval.isSome &&
      x.schedule.generation == generation
  | _, _ => false

theorem arms_armSide (hub : Hub Manual) (i : Nat) (d : Direction) (e : Nat) :
    Arms (·.part? = some (.watcher i)) hub.reactor (hub.armSide i d e).reactor := by
  unfold armSide
  split
  · exact .refl _
  · split
    · exact .refl _
    · exact (Arms.arm _ _ d (.ready i d e)).mono fun c hc => hc ▸ rfl

theorem arms_setSide (hub : Hub Manual) (i e : Nat) (d : Direction) (wanted : Bool) :
    Arms (·.part? = some (.watcher i)) hub.reactor (hub.setSide i e d wanted).reactor := by
  unfold setSide
  cases wanted with
  | false => exact .refl _
  | true => exact arms_armSide (hub.modifySide i d _) i d e

theorem arms_setInterest (hub : Hub Manual) (i e : Nat) (ev : Events) :
    Arms (·.part? = some (.watcher i)) hub.reactor (hub.setInterest i e ev).reactor :=
  (arms_setSide hub i e .read _).trans (arms_setSide _ i e .write _)

theorem arms_armDeadline (hub : Hub Manual) (t deadline e : Nat) :
    Arms (·.part? = some (.heartbeat t)) hub.reactor (hub.armDeadline t deadline e).reactor := by
  unfold armDeadline
  split
  · exact .refl _
  · exact (Arms.schedule _ _ deadline _).mono fun c hc => hc ▸ rfl

theorem arms_setHeartbeat (hub : Hub Manual) (t e : Nat) (interval : Interval) :
    Arms (·.part? = some (.heartbeat t)) hub.reactor
      (hub.setHeartbeat t e interval).reactor := by
  unfold setHeartbeat
  split
  · exact .refl _
  · rename_i x _
    exact (Arms.cancel hub.reactor x.timer).trans
      (arms_armDeadline ((hub.cancelTimer x.timer).modifySchedule t _) t _ e)

theorem arms_stopHeartbeat (hub : Hub Manual) (t : Nat) :
    Arms P hub.reactor (hub.stopHeartbeat t).reactor := by
  unfold stopHeartbeat
  split
  · exact .refl _
  · exact .cancel _ _

theorem arms_reapWatcher (hub : Hub Manual) (i : Nat) :
    Arms P hub.reactor (hub.reapWatcher i).reactor := by
  unfold reapWatcher
  split
  · exact .refl _
  · split
    · exact .refl _
    · exact .release _ _

theorem arms_reapHeartbeat (hub : Hub Manual) (t : Nat) :
    Arms P hub.reactor (hub.reapHeartbeat t).reactor := by
  unfold reapHeartbeat
  split
  · exact .refl _
  · split
    · exact .refl _
    · exact .cancel _ _

theorem arms_dropWatcher (hub : Hub Manual) (i : Nat) :
    Arms P hub.reactor (hub.dropWatcher i).reactor :=
  arms_reapWatcher (hub.modifyWatcher i _) i

theorem arms_dropHeartbeat (hub : Hub Manual) (t : Nat) :
    Arms P hub.reactor (hub.dropHeartbeat t).reactor :=
  arms_reapHeartbeat (hub.modifyHeartbeat t _) t

theorem reactor_startCall (hub : Hub Manual) (call : Call) :
    (hub.startCall call).1.reactor = hub.reactor := by
  obtain ⟨owner, s, e, notice⟩ := call
  unfold startCall
  split
  · cases owner <;> rfl
  · rfl

theorem reactor_begin (hub : Hub Manual) (c : Callback) (o : Outcome) :
    (hub.begin c o).1.reactor = hub.reactor := by
  cases c with
  | bare tag => rfl
  | ready i d e =>
    simp only [begin, beginReady]
    repeat' split
    all_goals first
      | rfl
      | exact reactor_startCall _ _
  | beat t generation e =>
    simp only [begin, beginBeat]
    repeat' split
    all_goals first
      | rfl
      | exact reactor_startCall _ _

theorem mem_waits_releaseOwner (hub : Hub Manual) (o : Owner) {w : Wait} :
    w ∈ (hub.releaseOwner o).reactor.waits ↔ w ∈ hub.reactor.waits := by
  cases o with
  | watcher i d =>
    simp only [releaseOwner, releaseWatcher, reapWatcher]
    repeat' split
    · exact Iff.rfl
    · exact Iff.rfl
    · exact mem_waits_release _
  | heartbeat t generation =>
    simp only [releaseOwner, releaseHeartbeat, reapHeartbeat]
    repeat' split
    · exact Iff.rfl
    · exact Iff.rfl
    · exact mem_waits_cancel _

theorem tickets_releaseOwner (hub : Hub Manual) (o : Owner) :
    (hub.releaseOwner o).reactor.tickets = hub.reactor.tickets := by
  cases o with
  | watcher i d =>
    simp only [releaseOwner, releaseWatcher, reapWatcher]
    repeat' split
    all_goals rfl
  | heartbeat t generation =>
    simp only [releaseOwner, releaseHeartbeat, reapHeartbeat]
    repeat' split
    all_goals rfl

/-- After a call, the wait that is armed again is that of its owner. -/
theorem waits_resume (hub : Hub Manual) (call : Call) :
    (hub.resume call).reactor = hub.reactor ∧ hub.rearms call = false ∨
      hub.rearms call = true ∧ ∃ c, c.part? = some call.owner.part ∧
        (hub.resume call).reactor.tickets = hub.reactor.tickets + 1 ∧
        ∀ w, w ∈ (hub.resume call).reactor.waits ↔
          w ∈ hub.reactor.waits ∨ w = ⟨hub.reactor.tickets, c⟩ := by
  obtain ⟨owner, s, e, notice⟩ := call
  cases owner with
  | watcher i d =>
    cases notice with
    | heartbeat => exact Or.inl ⟨rfl, rfl⟩
    | waitError => exact Or.inl ⟨rfl, rfl⟩
    | process fd ev =>
      simp only [resume, rearms, wants, armSide]
      cases hub.watchers[i]? with
      | none => exact Or.inl ⟨rfl, rfl⟩
      | some x =>
        simp only [Option.any_some]
        cases hw : (x.sides.get d).wanted with
        | false => exact Or.inl ⟨rfl, rfl⟩
        | true =>
          cases hp : (x.sides.get d).pending with
          | true => exact Or.inl ⟨rfl, rfl⟩
          | false =>
            exact Or.inr ⟨rfl, .ready i d e, rfl, rfl, fun w => mem_waits_arm x.registration d _⟩
  | heartbeat t generation =>
    cases notice with
    | process => exact Or.inl ⟨rfl, rfl⟩
    | waitError => exact Or.inl ⟨rfl, rfl⟩
    | heartbeat =>
      simp only [resume, rearms, nextBeat]
      cases hx : hub.heartbeats[t]? with
      | none => exact Or.inl ⟨rfl, rfl⟩
      | some x =>
        simp only [Option.any_some]
        cases hd : x.schedule.deadline with
        | none => exact Or.inl ⟨rfl, rfl⟩
        | some deadline =>
          cases hi : x.schedule.interval with
          | none => exact Or.inl ⟨rfl, rfl⟩
          | some interval =>
            by_cases hg : x.schedule.generation = generation
            · right
              refine ⟨by simp [hg], .beat t generation e, rfl, ?_⟩
              simp only [hg, if_true, armDeadline, modifySchedule, modifyHeartbeat,
                List.getElem?_modify_eq, hx, Option.map_eq_map, Option.map_some]
              exact ⟨rfl, fun w => mem_waits_schedule _ _ _⟩
            · left
              simp [hg]

end Hub

namespace Scenario
namespace Ledger
variable {L L' : Ledger}

/-- A wait that is in the reactor, or was taken out of it and is kept. -/
def HasWait (L : Ledger) (w : Wait) : Prop := w ∈ L.hub.reactor.waits ∨ w ∈ L.kept

/-- The parts that handlers hold, and those that are on their own. -/
def parts (L : Ledger) : Multiset Part :=
  L.watchers.map (fun e => .watcher e.2) + L.heartbeats.map (fun e => .heartbeat e.2)

/-- From one ledger to the other, waits were armed only for parts that are held. -/
structure Armed (L L' : Ledger) : Prop where
  tickets_le : L.hub.reactor.tickets ≤ L'.hub.reactor.tickets
  waits : ∀ w, L'.HasWait w → L.HasWait w ∨ L.hub.reactor.tickets ≤ w.ticket ∧
    w.ticket < L'.hub.reactor.tickets ∧ ∀ p ∈ w.callback.part?, p ∈ L.parts

namespace Armed

theorem of_reactor (h : Manual.Arms (fun c => ∀ p ∈ c.part?, p ∈ L.parts) L.hub.reactor
    L'.hub.reactor) (hk : ∀ w ∈ L'.kept, L.HasWait w) : Armed L L' where
  tickets_le := h.tickets_le
  waits := by
    rintro w (hw | hw)
    · exact (h.waits w hw).imp Or.inl id
    · exact Or.inl (hk w hw)

private theorem of_part {p : Part} (h : Manual.Arms (·.part? = some p) L.hub.reactor L'.hub.reactor)
    (hp : p ∈ L.parts) (hk : L'.kept = L.kept) : Armed L L' := by
  refine of_reactor (h.mono ?_) fun w hw => Or.inr (hk ▸ hw)
  intro c hc q hq
  rw [hc] at hq
  cases hq
  exact hp

private theorem of_bare {tag : Tag} (h : Manual.Arms (· = .bare tag) L.hub.reactor L'.hub.reactor)
    (hk : L'.kept = L.kept) : Armed L L' := by
  refine of_reactor (h.mono ?_) fun w hw => Or.inr (hk ▸ hw)
  intro c hc q hq
  rw [hc] at hq
  cases hq

theorem of_quiet (h : Manual.Arms (fun _ => False) L.hub.reactor L'.hub.reactor)
    (hk : ∀ w ∈ L'.kept, L.HasWait w) : Armed L L' :=
  of_reactor (h.mono fun _ => False.elim) hk

private theorem of_same (h : L'.hub.reactor = L.hub.reactor) (hk : L'.kept = L.kept) : Armed L L' :=
  of_quiet (.of_eq h) fun _ hw => Or.inr (hk ▸ hw)

private theorem of_waits (ht : L'.hub.reactor.tickets = L.hub.reactor.tickets)
    (hw : L'.hub.reactor.waits = L.hub.reactor.waits) (hk : L'.kept = L.kept) : Armed L L' := by
  refine of_quiet (.of_waits ht fun w hmem => ?_) fun w hmem => Or.inr ?_
  · rwa [← hw]
  · rwa [← hk]

private theorem of_take {m : Manual} {wait : Wait} (ht : m.tickets = L.hub.reactor.tickets)
    (hw : ∀ w, w ∈ L.hub.reactor.waits ↔ w = wait ∨ w ∈ m.waits) :
    Armed L { L.setReactor m with kept := wait ::ₘ L.kept } := by
  refine of_quiet (.of_waits ht fun _ h => (hw _).mpr (Or.inr h)) ?_
  intro w hmem
  rcases Multiset.mem_cons.mp hmem with rfl | hmem
  · exact Or.inl ((hw w).mpr (Or.inl rfl))
  · exact Or.inr hmem

private theorem of_kept {wait : Wait} {ws : Multiset Wait} (hk : L.kept = wait ::ₘ ws)
    (h : L'.hub.reactor = L.hub.reactor) (hws : L'.kept = ws) : Armed L L' := by
  refine of_quiet (.of_eq h) fun _ hw => Or.inr ?_
  rw [hk]
  exact Multiset.mem_cons_of_mem (hws ▸ hw)

theorem watcher_mem {e : Option (Nat × Fd) × Nat} (h : e ∈ L.watchers) :
    Part.watcher e.2 ∈ L.parts :=
  Multiset.mem_add.mpr (Or.inl (Multiset.mem_map_of_mem (fun e => Part.watcher e.2) h))

theorem heartbeat_mem {e : Option Nat × Nat} (h : e ∈ L.heartbeats) :
    Part.heartbeat e.2 ∈ L.parts :=
  Multiset.mem_add.mpr (Or.inr (Multiset.mem_map_of_mem (fun e => Part.heartbeat e.2) h))

end Armed

theorem Move.armed (hm : Move L L') : Armed L L' := by
  cases hm with
  | advance => exact .of_waits rfl rfl rfl
  | refuse => exact .of_waits rfl rfl rfl
  | refused hr =>
    rw [Manual.register_error hr]
    exact .of_waits rfl rfl rfl
  | newHandler => exact .of_same rfl rfl
  | dropHandler => exact .of_same rfl rfl
  | newStrand => exact .of_same rfl rfl
  | dropStrand => exact .of_same rfl rfl
  | newEngine => exact .of_same rfl rfl
  | dropEngine => exact .of_same rfl rfl
  | newWatcher hp hf hn =>
    obtain ⟨r, m, hr, -, rfl⟩ := Hub.newWatcher_ok hn
    obtain ⟨-, rfl⟩ := Manual.register_ok hr
    exact .of_waits rfl rfl rfl
  | @setInterest place i e ev hmem =>
    exact .of_part (Hub.arms_setInterest L.hub i e ev) (Armed.watcher_mem hmem) rfl
  | retire => exact .of_same rfl rfl
  | dropWatcher => exact .of_quiet (Hub.arms_dropWatcher _ _) fun _ => Or.inr
  | unasked => exact .of_same rfl rfl
  | newHeartbeat => exact .of_waits rfl rfl rfl
  | @setHeartbeat place t e interval hmem =>
    exact .of_part (Hub.arms_setHeartbeat L.hub t e interval) (Armed.heartbeat_mem hmem) rfl
  | stopHeartbeat => exact .of_quiet (Hub.arms_stopHeartbeat _ _) fun _ => Or.inr
  | dropHeartbeat => exact .of_quiet (Hub.arms_dropHeartbeat _ _) fun _ => Or.inr
  | enter => exact .of_same rfl rfl
  | leave => exact .of_same rfl rfl
  | takeReady ht =>
    obtain ⟨htickets, hwaits⟩ := Manual.mem_waits_takeReady ht
    exact .of_take htickets hwaits
  | takeTimed ht =>
    obtain ⟨htickets, hwaits⟩ := Manual.mem_waits_takeTimed ht
    exact .of_take htickets hwaits
  | takeParked =>
    refine .of_quiet (.of_waits rfl fun w hw => ?_) fun w hw => ?_
    · exact Manual.mem_waits_takeParked.mpr (Or.inr hw)
    · rcases Multiset.mem_add.mp hw with hw | hw
      · exact Or.inl (Manual.mem_waits_takeParked.mpr (Or.inl hw))
      · exact Or.inr hw
  | discard hk => exact .of_kept hk rfl rfl
  | complete o hk => exact .of_kept hk (Hub.reactor_begin _ _ _) rfl
  | register hr =>
    obtain ⟨-, rfl⟩ := Manual.register_ok hr
    exact .of_waits rfl rfl rfl
  | armBare d tag => exact .of_bare (.arm _ _ d _) rfl
  | release => exact .of_quiet (.release _ _) fun _ => Or.inr
  | newTimer => exact .of_waits rfl rfl rfl
  | scheduleBare deadline tag => exact .of_bare (.schedule _ _ deadline _) rfl
  | cancelBare => exact .of_quiet (.cancel _ _) fun _ => Or.inr
  | dropTimer => exact .of_quiet (.cancel _ _) fun _ => Or.inr

/-- The end of a call loses no wait, and arms one at most, for the owner of the call. -/
theorem waits_finish (L : Ledger) (call : Call) (cs : List Call) :
    (L.finish call cs).hub.reactor.tickets = L.hub.reactor.tickets ∧
        (∀ w, (L.finish call cs).HasWait w ↔ L.HasWait w) ∧ L.hub.rearms call = false ∨
      L.hub.rearms call = true ∧ ∃ c, c.part? = some call.owner.part ∧
        (L.finish call cs).hub.reactor.tickets = L.hub.reactor.tickets + 1 ∧
        ∀ w, (L.finish call cs).HasWait w ↔ L.HasWait w ∨ w = ⟨L.hub.reactor.tickets, c⟩ := by
  have hw : ∀ w, (L.finish call cs).HasWait w ↔
      w ∈ (L.hub.resume call).reactor.waits ∨ w ∈ L.kept := by
    intro w
    unfold HasWait finish Hub.finish
    rw [Hub.mem_waits_releaseOwner]
    exact Iff.rfl
  have ht : (L.finish call cs).hub.reactor.tickets = (L.hub.resume call).reactor.tickets :=
    Hub.tickets_releaseOwner _ _
  rcases L.hub.waits_resume call with ⟨hr, hn⟩ | ⟨hy, c, hp, htickets, hwaits⟩
  · left
    rw [hr] at ht hw
    exact ⟨ht, hw, hn⟩
  · right
    refine ⟨hy, c, hp, ht.trans htickets, fun w => ?_⟩
    rw [hw, hwaits]
    unfold HasWait
    tauto

/-- Every wait has a ticket that was given out. -/
def Ticketed (L : Ledger) : Prop := ∀ w, L.HasWait w → w.ticket < L.hub.reactor.tickets

namespace Ticketed

theorem move (hm : Move L L') (h : Ticketed L) : Ticketed L' := by
  intro w hw
  rcases hm.armed.waits w hw with hw | ⟨-, hlt, -⟩
  · exact (h w hw).trans_le hm.armed.tickets_le
  · exact hlt

theorem finish (h : Ticketed L) (call : Call) (cs : List Call) : Ticketed (L.finish call cs) := by
  intro w hw
  rcases L.waits_finish call cs with ⟨ht, hwaits, -⟩ | ⟨-, c, -, ht, hwaits⟩
  · rw [ht]
    exact h w ((hwaits w).mp hw)
  · rw [ht]
    rcases (hwaits w).mp hw with hw | rfl
    · exact Nat.lt_succ_of_lt (h w hw)
    · exact Nat.lt_succ_self _

theorem empty : Ticketed (({} : World).ledger [] [] []) := by
  rintro w (hw | hw)
  · cases hw
  · exact absurd hw (Multiset.notMem_zero w)

end Ticketed
end Ledger
end Scenario
end Wakeup
