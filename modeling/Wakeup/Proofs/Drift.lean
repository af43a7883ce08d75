import Wakeup.Proofs.Cadence

/-! Heartbeats without drift. As long as nothing disturbs a schedule, its engine is told of every
beat once, and no deadline depends on when a beat was told. -/
namespace Wakeup.Scenario
namespace Config
open Ledger
variable {c c' c₁ : Config} {log : List Event} {steps : List (Config × Config)} {r : Cadence}
variable {armed : TimedWait → Prop} {base k t generation e : Nat} {interval : Interval}

section Path

/-- The runs from a configuration with their steps, latest first. -/
inductive Path (c₀ : Config) : Config → List (Config × Config) → Prop
  | refl : Path c₀ c₀ []
  | step {c c' : Config} {steps : List (Config × Config)} :
      Path c₀ c steps → c.step = some c' → Path c₀ c' ((c, c') :: steps)
  | more {c : Config} {steps : List (Config × Config)} (ops : List Op) :
      Path c₀ c steps → c.step = none → Path c₀ (c.world.start ops) steps

/-- What happened in steps, latest first. -/
def happened (steps : List (Config × Config)) : List Event :=
  steps.flatMap fun s => s.1.events.reverse

/-- The calls that a step begins. -/
def entered (s : Config × Config) : List Call :=
  s.2.calls.take (s.2.calls.length - s.1.calls.length)

/-- The calls that began in steps, latest first. -/
def begun (steps : List (Config × Config)) : List Call := steps.flatMap entered

/-- Whether a wait was in the reactor at some point. -/
def WasArmed (c : Config) (steps : List (Config × Config)) (x : TimedWait) : Prop :=
  x ∈ c.world.hub.reactor.timed ∨ ∃ s ∈ steps, x ∈ s.2.world.hub.reactor.timed

/-- No step sets a heartbeat or stops it, as closing does, and no wait for a generation of it fails,
is cancelled or is thrown away. -/
structure Spared (t generation : Nat) (steps : List (Config × Config)) : Prop where
  unset : ∀ s ∈ steps, s.1.sets?.map (·.1) ≠ some t
  unhalted : ∀ s ∈ steps, s.1.halts? ≠ some t
  undisturbed : ∀ ev ∈ happened steps, ev.disturbs (Beat.isIn t generation) = false

private theorem happened_cons (s : Config × Config) (steps : List (Config × Config))
    (log : List Event) :
    happened (s :: steps) ++ log = s.1.events.reverse ++ (happened steps ++ log) := by
  rw [happened, List.flatMap_cons, List.append_assoc]
  rfl

theorem Path.run (h : Path c c₁ steps) : Run c c₁ (happened steps) := by
  induction h with
  | refl => exact .refl
  | step _ hs ih => exact ih.step hs
  | more ops _ hs ih => exact ih.more ops hs

/-- Every run is a path. -/
theorem Run.exists_path (h : Run c c₁ log) : ∃ steps, Path c c₁ steps ∧ happened steps = log := by
  induction h with
  | refl => exact ⟨[], .refl, rfl⟩
  | step _ hs ih =>
    obtain ⟨steps, hp, rfl⟩ := ih
    exact ⟨_, hp.step hs, rfl⟩
  | more ops _ hs ih =>
    obtain ⟨steps, hp, rfl⟩ := ih
    exact ⟨steps, hp.more ops hs, rfl⟩

/-- A heartbeat that is neither set nor stopped stays in its generation. -/
theorem Path.generation?_eq (h : Path c c₁ steps) (hspared : Spared t generation steps)
    (hg : c.world.hub.generation? t = some generation) :
    c₁.world.hub.generation? t = some generation := by
  obtain ⟨hunset, hunhalted, -⟩ := hspared
  induction h with
  | refl => exact hg
  | @step c₁ c₂ steps _ hs ih =>
    have hg₁ := ih (fun s hmem => hunset s (List.mem_cons_of_mem _ hmem))
      (fun s hmem => hunhalted s (List.mem_cons_of_mem _ hmem))
    obtain ⟨x, hx, -⟩ := Option.map_eq_some_iff.mp hg₁
    obtain ⟨y, hy, -⟩ := Option.map_eq_some_iff.mp hx
    have hlt : t < c₁.world.hub.heartbeats.length := (List.getElem?_eq_some_iff.mp hy).1
    rw [generation?_step hs hlt (hunset _ List.mem_cons_self) (hunhalted _ List.mem_cons_self)]
    exact hg₁
  | more ops _ _ ih => exact ih hunset hunhalted

end Path

section Follows

/-- In a step, the engine of a schedule that goes on is told of as many beats as were completed. -/
theorem countP_entered (hs : c.step = some c') (hf : r.Follows armed base k (c.ledger log))
    (h : r.Steady k (c.ledger log)) (h' : r.Steady k (c'.ledger (c.events.reverse ++ log))) :
    (entered (c, c')).countP (·.beat?.any r.owns) =
      c.events.reverse.countP (·.completes r.owns) := by
  rcases calls_step hs with ⟨call, hc, he⟩ | ⟨wait, o, call?, he, hbegins, hc⟩ | ⟨hc, honly⟩
  · have hnone : entered (c, c') = [] := by simp [entered, hc]
    rw [hnone, he]
    rfl
  · have hbegun : entered (c, c') = call?.toList := by simp [entered, hc]
    rw [hbegun, he, List.reverse_singleton, List.countP_singleton]
    obtain ⟨m, -, hbegin⟩ := hbegins
    cases hb : wait.isBeat r.owns with
    | false =>
      have hnone := beat?_begin { c.world.hub with reactor := m } wait o r.owns
      simp only [hbegin, hb, Bool.false_eq_true, and_false, if_false] at hnone
      have hzero : call?.toList.countP (·.beat?.any r.owns) = 0 :=
        Nat.eq_zero_of_add_eq_zero_right hnone
      rw [hzero]
      simp [World.completed, Event.completes, hb]
    | true =>
      by_cases hv : Verdict.of o = .proceed
      · have hmem : .completed wait o (serves c.world.hub wait.callback) ∈ c.events := by
          rw [he]
          exact List.mem_singleton_self _
        have hw : (c.ledger log).HasWait wait := World.mem_waits.mp (mem_waits_of_completed hmem)
        obtain ⟨n, -, hon⟩ := hf.onTime h
        have hone := hon.countP_begin hf.paced h hw hb hv m r.owns_beat
        change (Hub.begin wait.callback o { c.world.hub with reactor := m }).2.toList.countP _ = 1
          at hone
        rw [hbegin] at hone
        simpa [World.completed, Event.completes, hb, hv] using hone
      · -- a wait that is not ready disturbs the schedule
        have hbefore : log.countP (·.disturbs r.owns) = k := h.undisturbed
        have hafter : (c.events.reverse ++ log).countP (·.disturbs r.owns) = k := h'.undisturbed
        rw [he, List.countP_append, hbefore] at hafter
        simp [World.completed, Event.disturbs, hb, hv] at hafter
  · have hnone : entered (c, c') = [] := by simp [entered, hc]
    rw [hnone, List.countP_nil, eq_comm, List.countP_eq_zero]
    intro ev hev
    cases ev with
    | completed wait o served =>
      obtain ⟨rfl, -, -⟩ := honly wait o served (List.mem_reverse.mp hev)
      simp [Event.completes, Verdict.of_canceled]
    | _ => exact Bool.false_ne_true

/-- A schedule is followed along a path. As long as it goes on, its engine is told of as many beats
as were completed. -/
theorem Path.follows (h : Path c c₁ steps) (hr : Reached c log)
    (hf : r.Follows (· ∈ c.world.hub.reactor.timed) base k (c.ledger log)) :
    r.Follows (WasArmed c steps) base k (c₁.ledger (happened steps ++ log)) ∧
      (r.Steady k (c₁.ledger (happened steps ++ log)) →
        (begun steps).countP (·.beat?.any r.owns) =
          (happened steps).countP (·.completes r.owns)) := by
  induction h with
  | refl => exact ⟨hf.mono fun x => Or.inl, fun _ => rfl⟩
  | @step c₁ c₂ steps hp hs ih =>
    obtain ⟨hf₁, hcount⟩ := ih
    have hr₁ := hr.run hp.run
    rw [happened_cons]
    obtain ⟨hf₂, hback⟩ := Cadence.Follows.advance (hr₁.advance hs) hf₁
    constructor
    · refine hf₂.mono fun x hx => ?_
      rcases hx with (hx | ⟨s, hmem, hx⟩) | hx
      · exact Or.inl hx
      · exact Or.inr ⟨s, List.mem_cons_of_mem _ hmem, hx⟩
      · exact Or.inr ⟨_, List.mem_cons_self, hx⟩
    · intro hsteady
      have hstep := countP_entered hs hf₁ (hback hsteady) hsteady
      have hbefore := hcount (hback hsteady)
      simp only [begun, happened, List.flatMap_cons, List.countP_append] at hbefore ⊢
      omega
  | @more c₁ steps ops hp hs ih =>
    obtain ⟨hc, hi⟩ := eq_outside_of_step_eq_none (hr.run hp.run).grounded hs
    rw [ledger_start]
    rw [Config.ledger, hc, hi] at ih
    exact ih

/-- Of a generation that is current, a wait that can be run is the only one. -/
theorem waits_eq_singleton (hr : Reached c log) (hg : c.world.hub.generation? t = some generation)
    {w : Wait} (hw : w ∈ c.world.waits) (hb : w.isBeat (Beat.isIn t generation) = true) :
    c.world.waits.filter (·.isBeat (Beat.isIn t generation)) = [w] := by
  have hone := hr.paced.single.expected_isIn_le (L := c.ledger log) hg
  exact filter_eq_singleton ((countP_waits_le c log _).trans hone) hw hb

/-- When no engine is being told of a beat of a schedule that goes on, one wait of it can be run,
and that was armed for the next deadline. -/
theorem exists_wait_of_steady (hr : Reached c log) (hf : r.Follows armed base k (c.ledger log))
    (h : r.Steady k (c.ledger log))
    (hno : ∀ call ∈ c.calls, call.owner ≠ .heartbeat r.heartbeat r.generation) :
    ∃ n x, log.countP (·.completes r.owns) = base + n ∧ armed x ∧ x.wait.callback = r.callback ∧
      c.world.waits.filter (·.isBeat r.owns) = [x.wait] ∧
      (x ∈ c.world.hub.reactor.timed ∨ x.wait ∈ c.world.slots.values) ∧
      x.deadline = r.deadline n := by
  obtain ⟨n, hn, hon⟩ := hf.onTime h
  cases hon with
  | @awaits _ x hs ha hcb hd hor =>
    have hwait : (c.ledger log).HasWait x.wait := hor.elim hasWait_of_timed Or.inr
    have hone := waits_eq_singleton hr h.generation (World.mem_waits.mpr hwait)
      (Wait.isBeat_of_callback hcb)
    exact ⟨n, x, hn, ha, hcb, hone, hor.imp_right Multiset.mem_coe.mp, hd⟩
  | tells hs hmem hb =>
    have howner := (Call.beat?_eq_some hb).1
    exact absurd howner (hno _ hmem)

/-- A schedule that is spared goes on as long as its engine, its timer and its strand are alive. -/
theorem Path.steady (h : Path c c₁ steps) (hspared : Spared r.heartbeat r.generation steps)
    (hg : c.world.hub.generation? r.heartbeat = some r.generation)
    (halive : c₁.world.hub.engineAlive r.engine = true)
    (hreaches : c₁.world.hub.reaches r.callback = true) (log : List Event) :
    r.Steady (log.countP (·.disturbs r.owns)) (c₁.ledger (happened steps ++ log)) := by
  have hzero : (happened steps).countP (·.disturbs r.owns) = 0 := by
    rw [List.countP_eq_zero]
    intro ev hev
    rw [Bool.not_eq_true]
    exact hspared.undisturbed ev hev
  constructor
  · exact h.generation?_eq hspared hg
  · exact hreaches
  · exact halive
  · change (happened steps ++ log).countP _ = _
    rw [List.countP_append, hzero, Nat.zero_add]

/-- What a path leaves of a schedule that is spared, at a point at which no engine is being told of
a beat of it. -/
theorem Path.beats (h : Path c c₁ steps) (hr : Reached c log)
    (hf : r.Follows (· ∈ c.world.hub.reactor.timed) (log.countP (·.completes r.owns))
      (log.countP (·.disturbs r.owns)) (c.ledger log))
    (hsteady : r.Steady (log.countP (·.disturbs r.owns)) (c₁.ledger (happened steps ++ log)))
    (hno : ∀ call ∈ c₁.calls, call.owner ≠ .heartbeat r.heartbeat r.generation) :
    (begun steps).countP (·.beat?.any r.owns) = (happened steps).countP (·.completes r.owns) ∧
      ∃ x, WasArmed c steps x ∧ x.wait.callback = r.callback ∧
        c₁.world.waits.filter (·.isBeat r.owns) = [x.wait] ∧
        (x ∈ c₁.world.hub.reactor.timed ∨ x.wait ∈ c₁.world.slots.values) ∧
        x.deadline = r.deadline ((happened steps).countP (·.completes r.owns)) := by
  obtain ⟨hf₁, hcount⟩ := h.follows hr hf
  obtain ⟨n, x, hn, harmed, hcb, hone, hor, hdeadline⟩ :=
    exists_wait_of_steady (hr.run h.run) hf₁ hsteady hno
  have hcompleted : (happened steps).countP (·.completes r.owns) = n := by
    rw [List.countP_append] at hn
    omega
  rw [hcompleted]
  exact ⟨hcompleted ▸ hcount hsteady, x, harmed, hcb, hone, hor, hdeadline⟩

end Follows

section Sets

/-- The schedule that a step begins, and the wait that it arms. -/
theorem exists_timed_of_sets (hr : Reached c log) (hs : c.step = some c')
    (hset : c.sets? = some (t, e, interval)) :
    ∃ generation, ∃ x ∈ c'.world.hub.reactor.timed,
      c'.world.hub.schedule? t = some ⟨some interval,
        some (c.world.hub.reactor.now + interval.length), generation⟩ ∧
      x.wait.callback = .beat t generation e ∧
      x.deadline = c.world.hub.reactor.now + interval.length := by
  obtain ⟨hub, hhub, hnow, -, -, hmem⟩ := step_of_sets hr hs hset
  obtain ⟨y, hy⟩ := schedule?_of_held (hr.step hs).owned hmem
  change c'.world.hub.schedule? t = some y at hy
  rw [hhub] at hy ⊢
  obtain ⟨x, hx, hdeadline, hcb⟩ := Hub.mem_timed_setHeartbeat hy
  rw [Hub.schedule?_setHeartbeat, if_pos rfl] at hy
  obtain ⟨z, hz, rfl⟩ := Option.map_eq_some_iff.mp hy
  rw [← hnow]
  refine ⟨z.generation + 1, x, hx, ?_, hcb, hdeadline⟩
  rw [Hub.schedule?_setHeartbeat, if_pos rfl, hz]
  rfl

/-- The end of a call leaves the wait of a heartbeat that is held in the reactor. -/
theorem timed_of_return (hr : Reached c log) (hs : c.step = some c') {call : Call}
    (hc : c.calls = call :: c'.calls) (hg : c.world.hub.generation? t = some generation)
    (hmem : t ∈ (c.ledger log).heartbeats.map (·.2)) {x : TimedWait}
    (hx : x ∈ c.world.hub.reactor.timed) (hcb : x.wait.callback = .beat t generation e) :
    x ∈ c'.world.hub.reactor.timed ∧ c'.world.hub.generation? t = some generation := by
  have hpaced := hr.paced
  have howned := (hr.step hs).owned
  have hledger := ledger_of_return hr hs hc
  rw [hledger] at howned
  have hhub : c'.world.hub = c.world.hub.finish call := congrArg Ledger.hub hledger
  have hlasts : ((c.ledger log).finish call c'.calls).hub.lasts (.heartbeat t) = true := by
    obtain ⟨⟨place, j⟩, hheld, rfl⟩ := Multiset.mem_map.mp hmem
    exact Lasting.lasts_of_mem howned hheld
  have hbeat := Wait.isBeat_of_callback hcb
  have hcall : call ∈ (c.ledger log).calls := by
    change call ∈ c.calls
    rw [hc]
    exact List.mem_cons_self
  have hnot : call.beat?.any (Beat.isIn t generation) = false :=
    (hasWait_of_timed hx).not_told (hpaced.single.expected_isIn_le hg) hbeat hcall
  have htimed := timed_finish hpaced hc hx hcb hg hlasts hnot
  rw [hhub]
  exact ⟨htimed, (Hub.generation?_finish _ call t).trans hg⟩

/-- The wait for a deadline of a heartbeat is the only one. -/
theorem timed_heartbeat_eq_singleton (hr : Reached c log) {x : TimedWait}
    (hx : x ∈ c.world.hub.reactor.timed) (hcb : x.wait.callback = .beat t generation e) :
    c.world.hub.reactor.timed.filter (·.wait.isBeat (·.heartbeat == t)) = [x] := by
  have hle := expected_mono (q := Beat.isDue c.world.hub t)
    (p := fun b => b.current c.world.hub && b.heartbeat == t)
    (fun b hb => by rwa [Beat.isDue, Bool.and_comm]) (c.ledger log)
  apply timed_eq_singleton hr (hle.trans (hr.paced.single t)) hx
  rw [Wait.isBeat, hcb]
  exact beq_self_eq_true t

end Sets

/-- Heartbeats without drift. After a heartbeat was set, as long as it is spared and its engine, its
timer and its strand are alive, at every point at which no engine is being told of a beat of it: its
engine was told of it as often as waits of it were completed, and the one wait of it that can be
run, in the reactor or kept, was armed for the deadline that many intervals after the first. If a
call ends right after a heartbeat was set, then the reactor has one wait of the heartbeat, for the
deadline an interval after it was set. -/
theorem heartbeat_without_drift (hr : Reached c log) (hs : c.step = some c')
    (hset : c.sets? = some (t, e, interval)) :
    ∃ generation, c'.world.hub.generation? t = some generation ∧
      (∀ c₁ steps, Path c' c₁ steps → Spared t generation steps →
        c₁.world.hub.engineAlive e = true →
        c₁.world.hub.reaches (.beat t generation e) = true →
        (∀ call ∈ c₁.calls, call.owner ≠ .heartbeat t generation) →
        (begun steps).countP (·.beat?.any (Beat.isIn t generation)) =
          (happened steps).countP (·.completes (Beat.isIn t generation)) ∧
        ∃ x, WasArmed c' steps x ∧ x.wait.callback = .beat t generation e ∧
          c₁.world.waits.filter (·.isBeat (Beat.isIn t generation)) = [x.wait] ∧
          (x ∈ c₁.world.hub.reactor.timed ∨ x.wait ∈ c₁.world.slots.values) ∧
          x.deadline = c.world.hub.reactor.now +
            ((happened steps).countP (·.completes (Beat.isIn t generation)) + 1) *
              interval.length) ∧
      ∀ call c'', c'.calls = call :: c''.calls → c'.step = some c'' →
        ∃ x, c''.world.hub.reactor.timed.filter (·.wait.isBeat (·.heartbeat == t)) = [x] ∧
          c''.world.waits.filter (·.isBeat (Beat.isIn t generation)) = [x.wait] ∧
          x.wait.callback = .beat t generation e ∧
          x.deadline = c.world.hub.reactor.now + interval.length := by
  have hr' := hr.step hs
  obtain ⟨-, -, -, -, ⟨n, hengine⟩, hmem⟩ := step_of_sets hr hs hset
  obtain ⟨generation, x, hx, hschedule, hcb, hdeadline⟩ := exists_timed_of_sets hr hs hset
  have hg := Hub.generation?_eq hschedule
  refine ⟨generation, hg, ?_, ?_⟩
  · intro c₁ steps hpath hspared halive hreaches hno
    let r : Cadence := ⟨t, generation, e, interval, c.world.hub.reactor.now⟩
    have hfirst : r.deadline 0 = c.world.hub.reactor.now + interval.length := by
      rw [Cadence.deadline, Nat.zero_add, Nat.one_mul]
    have hlt : e < c'.world.hub.engines.length :=
      (hr.engine_lt hengine).trans_le (Run.wanes hr (Run.refl.step hs)).length_le
    have hsame : c'.world.hub.schedule? t = some (r.schedule 0) := by
      rw [Cadence.schedule, hfirst]
      exact hschedule
    have hfollows := Cadence.Follows.of_schedule (r := r) hr'.paced hlt hsame hx hcb
      (hdeadline.trans hfirst.symm)
    have hsteady := hpath.steady (r := r) hspared hg halive hreaches (c.events.reverse ++ log)
    exact hpath.beats hr' hfollows hsteady hno
  · intro call c'' hc hs'
    obtain ⟨hx', hg'⟩ := timed_of_return hr' hs' hc hg hmem hx hcb
    have hr'' := hr'.step hs'
    have hwait : x.wait ∈ c''.world.waits :=
      World.mem_waits.mpr (hasWait_of_timed (L := c''.ledger log) hx')
    exact ⟨x, timed_heartbeat_eq_singleton hr'' hx' hcb,
      waits_eq_singleton hr'' hg' hwait (Wait.isBeat_of_callback hcb), hcb, hdeadline⟩

/-- The first wait for a heartbeat is run late. In the second heartbeat, which is late too, the
engine negotiates another interval. -/
def overdue : List Op :=
  [.newHandler 0, .newEngine 0 ⟨[], [[], [.negotiate 0 0 7]], []⟩ false, .negotiate 0 0 5,
    .takeTimed 1, .advance 12000, .invoke 1 (.ok ()), .fireTimers]

/-- The second wait is armed for ten seconds. The next one is armed for seven seconds after the
negotiation. -/
theorem heartbeat_without_drift_overdue :
    (∃ x : TimedWait, x.deadline = 10000 ∧ x.wait.callback = .beat 0 1 0 ∧
      (sample overdue 7).1.world.waits.filter (·.isBeat (Beat.isIn 0 1)) = [x.wait]) ∧
    ∃ x : TimedWait, x.deadline = 19000 ∧
      (sample overdue 11).1.world.hub.reactor.timed.filter (·.wait.isBeat (·.heartbeat == 0)) =
        [x] := by
  constructor
  · have hs : (sample overdue 2).1.step = some (sample overdue 3).1 := rfl
    have hset : (sample overdue 2).1.sets? = some (0, 0, ⟨5, by decide⟩) := rfl
    obtain ⟨generation, hg, hpaths, -⟩ :=
      heartbeat_without_drift (reached_sample overdue 2) hs hset
    have hfirst : (sample overdue 3).1.world.hub.generation? 0 = some 1 := rfl
    cases hfirst.symm.trans hg
    have h₃ : (sample overdue 3).1.step = some (sample overdue 4).1 := rfl
    have h₄ : (sample overdue 4).1.step = some (sample overdue 5).1 := rfl
    have h₅ : (sample overdue 5).1.step = some (sample overdue 6).1 := rfl
    have h₆ : (sample overdue 6).1.step = some (sample overdue 7).1 := rfl
    have hpath := (((Path.refl.step h₃).step h₄).step h₅).step h₆
    obtain ⟨-, x, -, hcb, hone, -, hdeadline⟩ := hpaths _ _ hpath
      ⟨by decide +kernel, by decide +kernel, by decide +kernel⟩ rfl rfl
      fun _ hmem => absurd hmem List.not_mem_nil
    exact ⟨x, hdeadline, hcb, hone⟩
  · have hs : (sample overdue 9).1.step = some (sample overdue 10).1 := rfl
    have hset : (sample overdue 9).1.sets? = some (0, 0, ⟨7, by decide⟩) := rfl
    obtain ⟨_, -, -, hreturns⟩ := heartbeat_without_drift (reached_sample overdue 9) hs hset
    obtain ⟨x, hone, -, -, hdeadline⟩ := hreturns _ (sample overdue 11).1 rfl rfl
    exact ⟨x, hdeadline, hone⟩

end Config
end Wakeup.Scenario
