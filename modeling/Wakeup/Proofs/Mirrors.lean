import Wakeup.Proofs.Metronome
import Wakeup.Proofs.Resuming
import Wakeup.Total

/-! A handler does what a metronome does, on any reactor that keeps the wait of one timer. -/
namespace Wakeup

/-- A wait of a timer. -/
structure Alarm where
  timer : Nat
  deadline : Nat
  callback : Callback
  deriving DecidableEq, Repr

/-- How the states of a reactor show that it keeps the wait of a heartbeat as it is asked to. -/
structure Keeper (ρ : Type) [Reactor ρ] where
  /-- The reactor waits for this and for nothing else. -/
  Awaits : ρ → Option Alarm → Prop
  /-- The reactor made the timer. -/
  Made : ρ → Nat → Prop
  newTimer {r : ρ} {a : Option Alarm} : Awaits r a →
    Awaits (Reactor.newTimer r).2 a ∧ Made (Reactor.newTimer r).2 (Reactor.newTimer r).1 ∧
      Reactor.now (Reactor.newTimer r).2 = Reactor.now r
  cancel {r : ρ} {a : Option Alarm} {t : Nat} : Awaits r a → (∀ x ∈ a, x.timer = t) →
    Awaits (Reactor.cancel t r) none ∧ (∀ t', Made r t' → Made (Reactor.cancel t r) t') ∧
      Reactor.now (Reactor.cancel t r) = Reactor.now r
  schedule {r : ρ} {timer : Nat} (deadline t generation e : Nat) : Awaits r none → Made r timer →
    Awaits (Reactor.schedule timer deadline (.beat t generation e) r)
        (some ⟨timer, deadline, .beat t generation e⟩) ∧
      Made (Reactor.schedule timer deadline (.beat t generation e) r) timer ∧
      Reactor.now (Reactor.schedule timer deadline (.beat t generation e) r) = Reactor.now r

namespace Hub
variable {ρ : Type} [Reactor ρ] {hub : Hub ρ} {t : Nat} {y : Heartbeat}

theorem setHeartbeat_eq (hy : hub.heartbeats[t]? = some y) (e : Nat) (interval : Interval) :
    hub.setHeartbeat t e interval = { hub with
      reactor := Reactor.schedule y.timer
        (Reactor.now (Reactor.cancel y.timer hub.reactor) + interval.length)
        (.beat t (y.schedule.generation + 1) e) (Reactor.cancel y.timer hub.reactor)
      heartbeats := hub.heartbeats.modify t fun x => { x with
        schedule := ⟨some interval,
          some (Reactor.now (Reactor.cancel y.timer hub.reactor) + interval.length),
          x.schedule.generation + 1⟩ } } := by
  unfold setHeartbeat armDeadline
  simp only [hy, cancelTimer, modifySchedule, modifyHeartbeat, List.getElem?_modify_eq,
    Option.map_eq_map, Option.map_some]

theorem stopHeartbeat_eq (hy : hub.heartbeats[t]? = some y) :
    hub.stopHeartbeat t = { hub with
      reactor := Reactor.cancel y.timer hub.reactor
      heartbeats := hub.heartbeats.modify t fun x => { x with
        schedule := { x.schedule with
          deadline := none, generation := x.schedule.generation + 1 } } } := by
  unfold stopHeartbeat
  simp only [hy, cancelTimer, modifySchedule, modifyHeartbeat]

/-- A heartbeat that is not in use ends with its owner. -/
theorem dropHeartbeat_eq (hy : hub.heartbeats[t]? = some y) (hp : y.presence.uses = 0) :
    hub.dropHeartbeat t = { hub with
      reactor := Reactor.cancel y.timer hub.reactor
      heartbeats := hub.heartbeats.modify t fun x =>
        { x with presence := x.presence.disown } } := by
  have hdead : y.presence.disown.alive = false := by
    rw [Presence.alive_disown, Presence.inUse, hp]
    rfl
  unfold dropHeartbeat reapHeartbeat
  simp only [modifyHeartbeat, List.getElem?_modify_eq, hy, Option.map_eq_map, Option.map_some,
    hdead, Bool.false_eq_true, if_false, cancelTimer]

end Hub

namespace Metronome
variable {ρ : Type} [Reactor ρ]

/-- The alarm of a heartbeat is for the deadline of a metronome. -/
inductive Paces (m : Metronome) (t : Nat) (y : Heartbeat) : Option Alarm → Prop
  | idle (hdue : m.due = none) : Paces m t y none
  | set {deadline : Nat} {interval : Interval} (hdue : m.due = some (deadline, interval))
      (hdeadline : y.schedule.deadline = some deadline)
      (hinterval : y.schedule.interval = some interval) :
      Paces m t y (some ⟨y.timer, deadline, .beat t y.schedule.generation 0⟩)

/-- A handler has the heartbeat and the alarm of a metronome. -/
inductive Beats (k : Keeper ρ) (m : Metronome) (hub : Hub ρ) :
    Option Handler → Option Alarm → Prop
  | gone (hhandler : m.handler = false) (hinterval : m.interval = none) (hdue : m.due = none) :
      Beats k m hub none none
  | closed {h : Handler} (hhandler : m.handler = true) (hw : h.watchers = ∅)
      (hs : hub.strandAlive h.strand = true) (hh : h.heartbeat = none)
      (hinterval : m.interval = none) (hdue : m.due = none) : Beats k m hub (some h) none
  | held {h : Handler} {t : Nat} {y : Heartbeat} {a : Option Alarm} (hhandler : m.handler = true)
      (hw : h.watchers = ∅) (hs : hub.strandAlive h.strand = true) (hh : h.heartbeat = some t)
      (hy : hub.heartbeats[t]? = some y) (hstrand : y.strand = h.strand) (hp : y.presence = {})
      (hm : k.Made hub.reactor y.timer)
      (hinterval : m.interval = if y.schedule.deadline.isSome then y.schedule.interval else none)
      (hpaces : m.Paces t y a) : Beats k m hub (some h) a

/-- A hub with one engine does for a handler what a metronome does. -/
structure Mirrors (k : Keeper ρ) (m : Metronome) (handler : Option Handler) (hub : Hub ρ)
    (a : Option Alarm) : Prop where
  now : Reactor.now hub.reactor = m.now
  engines : hub.engines = [⟨m.engine, 0⟩]
  awaits : k.Awaits hub.reactor a
  beats : m.Beats k hub handler a

variable {k : Keeper ρ} {m : Metronome} {hub : Hub ρ} {h : Handler} {handler : Option Handler}
  {a : Option Alarm} {x : Alarm} {t : Nat} {y : Heartbeat}

theorem Paces.timer_eq (h : m.Paces t y a) : ∀ x ∈ a, x.timer = y.timer := by
  cases h with
  | idle => exact fun _ hx => absurd hx (Option.not_mem_none _)
  | set =>
    intro x hx
    rw [← Option.some.inj hx]

theorem Paces.deadline_eq (h : m.Paces t y a) : m.due.map (·.1) = a.map (·.deadline) := by
  cases h with
  | idle hdue => rw [hdue]; rfl
  | set hdue => rw [hdue]; rfl

namespace Mirrors

theorem engineAlive (hm : m.Mirrors k handler hub a) : hub.engineAlive 0 = m.engine := by
  unfold Hub.engineAlive
  rw [hm.engines]
  exact Bool.or_false _

theorem handler_eq (hm : m.Mirrors k handler hub a) : m.handler = handler.isSome := by
  cases hm.beats with
  | gone hhandler => exact hhandler
  | closed hhandler => exact hhandler
  | held hhandler => exact hhandler

/-- What the handler reports. -/
theorem interval_eq (hm : m.Mirrors k handler hub a) :
    (handler.bind fun h => h.heartbeatInterval hub) = m.interval := by
  cases hm.beats with
  | gone _ hinterval => exact hinterval.symm
  | closed _ _ _ hh hinterval =>
    rw [hinterval, Option.bind_some, Handler.heartbeatInterval, hh]
    rfl
  | held _ _ _ hh hy _ _ _ hinterval =>
    rw [hinterval, Option.bind_some, Handler.heartbeatInterval, hh, Option.bind_some, hy]
    rfl

/-- The alarm is for the deadline. -/
theorem deadline_eq (hm : m.Mirrors k handler hub a) : m.due.map (·.1) = a.map (·.deadline) := by
  cases hm.beats with
  | gone _ _ hdue => rw [hdue]; rfl
  | closed _ _ _ _ _ hdue => rw [hdue]; rfl
  | held _ _ _ _ _ _ _ _ _ hpaces => exact hpaces.deadline_eq

/-- There is nothing to catch up with as long as the deadline is to come. -/
theorem catchUp_eq (hm : m.Mirrors k handler hub a) (hlt : ∀ x ∈ a, m.now < x.deadline) :
    m.catchUp = (0, m) := by
  refine catchUp_of_lt fun deadline interval hdue => ?_
  have hdeadline := hm.deadline_eq
  rw [hdue] at hdeadline
  obtain ⟨x, hx, hxd⟩ := Option.map_eq_some_iff.mp hdeadline.symm
  rw [← show x.deadline = deadline from hxd]
  exact hlt x hx

/-- The beats that are late are overdue. -/
theorem lag_le (hm : m.Mirrors k handler hub a) :
    m.lag ≤ total (fun y => y.schedule.overdue (Reactor.now hub.reactor)) hub.heartbeats := by
  have hidle (hdue : m.due = none) : m.lag ≤
      total (fun y => y.schedule.overdue (Reactor.now hub.reactor)) hub.heartbeats := by
    unfold lag
    rw [hdue]
    exact Nat.zero_le _
  cases hm.beats with
  | gone _ _ hdue => exact hidle hdue
  | closed _ _ _ _ _ hdue => exact hidle hdue
  | held _ _ _ _ hy _ _ _ _ hpaces =>
    cases hpaces with
    | idle hdue => exact hidle hdue
    | set hdue hdeadline =>
      refine Nat.le_trans (Nat.le_of_eq ?_) (le_total_of_mem (List.mem_of_getElem? hy))
      rw [lag_of_due hdue, Schedule.overdue, hdeadline, hm.now]

/-- Nothing changes with another reactor that keeps the same wait. -/
theorem withReactor (hm : m.Mirrors k handler hub a) {r : ρ} (ha : k.Awaits r a)
    (hmade : ∀ t, k.Made hub.reactor t → k.Made r t) (now : Nat) (hnow : Reactor.now r = now) :
    Mirrors k { m with now := now } handler { hub with reactor := r } a := by
  refine ⟨hnow, hm.engines, ha, ?_⟩
  cases hm.beats with
  | gone hhandler hinterval hdue => exact .gone hhandler hinterval hdue
  | closed hhandler hw hs hh hinterval hdue => exact .closed hhandler hw hs hh hinterval hdue
  | held hhandler hw hs hh hy hstrand hp hm₁ hinterval hpaces =>
    refine .held hhandler hw hs hh hy hstrand hp (hmade _ hm₁) hinterval ?_
    cases hpaces with
    | idle hdue => exact .idle hdue
    | set hdue hdeadline hinterval => exact .set hdue hdeadline hinterval

theorem dropEngine (hm : m.Mirrors k handler hub a) :
    Mirrors k { m with engine := false } handler (hub.dropEngine 0) a := by
  refine ⟨hm.now, ?_, hm.awaits, ?_⟩
  · unfold Hub.dropEngine Hub.modifyEngine
    rw [hm.engines]
    rfl
  · cases hm.beats with
    | gone hhandler hinterval hdue => exact .gone hhandler hinterval hdue
    | closed hhandler hw hs hh hinterval hdue => exact .closed hhandler hw hs hh hinterval hdue
    | held hhandler hw hs hh hy hstrand hp hmade hinterval hpaces =>
      refine .held hhandler hw hs hh hy hstrand hp hmade hinterval ?_
      cases hpaces with
      | idle hdue => exact .idle hdue
      | set hdue hdeadline hinterval => exact .set hdue hdeadline hinterval

/-- Without a handler another drop changes nothing. -/
theorem dropped (hm : m.Mirrors k none hub a) :
    Mirrors k { m.stop with handler := false } none hub none := by
  cases hm.beats with
  | gone => exact ⟨hm.now, hm.engines, hm.awaits, .gone rfl rfl rfl⟩

/-- A heartbeat is set. -/
theorem set (hnow : Reactor.now hub.reactor = m.now) (hengines : hub.engines = [⟨m.engine, 0⟩])
    (ha : k.Awaits hub.reactor a) (hat : ∀ x ∈ a, x.timer = y.timer) (hhandler : m.handler = true)
    (hw : h.watchers = ∅) (hs : hub.strandAlive h.strand = true) (hh : h.heartbeat = some t)
    (hy : hub.heartbeats[t]? = some y) (hstrand : y.strand = h.strand) (hp : y.presence = {})
    (hm : k.Made hub.reactor y.timer) (interval : Interval) :
    ∃ a, (m.set interval).Mirrors k (some h) (hub.setHeartbeat t 0 interval) a := by
  obtain ⟨ha₁, hm₁, hnow₁⟩ := k.cancel ha hat
  obtain ⟨ha₂, hm₂, hnow₂⟩ := k.schedule (m.now + interval.length) t (y.schedule.generation + 1) 0
    ha₁ (hm₁ _ hm)
  rw [Hub.setHeartbeat_eq hy, hnow₁, hnow]
  refine ⟨_, hnow₂.trans (hnow₁.trans hnow), hengines, ha₂, ?_⟩
  refine .held (y := { y with schedule := ⟨some interval, some (m.now + interval.length),
    y.schedule.generation + 1⟩ }) hhandler hw hs hh ?_ hstrand hp hm₂ rfl (.set rfl rfl rfl)
  change (hub.heartbeats.modify t _)[t]? = _
  rw [List.getElem?_modify_eq, hy]
  rfl

theorem negotiate (hm : m.Mirrors k (some h) hub a) (seconds : Nat) :
    ∃ a, (m.negotiate seconds).Mirrors k (some (h.negotiate 0 seconds hub).2.1)
      (h.negotiate 0 seconds hub).2.2 a := by
  unfold Metronome.negotiate Handler.negotiate
  cases Interval.ofSeconds? seconds with
  | none => exact ⟨a, hm⟩
  | some interval =>
    cases hm.beats with
    | closed hhandler hw hs hh =>
      obtain ⟨ha, hmade, hnow⟩ := k.newTimer hm.awaits
      simp only [hh]
      have hnow' : Reactor.now (hub.newHeartbeat h.strand).2.reactor = m.now := hnow.trans hm.now
      exact set (h := { h with heartbeat := some hub.heartbeats.length })
        (y := ⟨(Reactor.newTimer hub.reactor).1, h.strand, {}, {}⟩) hnow' hm.engines ha
        (fun _ hx => absurd hx (Option.not_mem_none _)) hhandler hw hs rfl
        List.getElem?_concat_length rfl rfl hmade interval
    | held hhandler hw hs hh hy hstrand hp hmade _ hpaces =>
      simp only [hh]
      exact set hm.now hm.engines hm.awaits hpaces.timer_eq hhandler hw hs hh hy hstrand hp hmade
        interval

theorem close (hm : m.Mirrors k (some h) hub a) :
    m.stop.Mirrors k (some (h.close hub).1) (h.close hub).2 none := by
  unfold Handler.close
  cases hm.beats with
  | closed hhandler hw hs hh =>
    simp only [hh]
    exact ⟨hm.now, hm.engines, hm.awaits, .closed hhandler hw hs hh rfl rfl⟩
  | @held _ t y _ hhandler hw hs hh hy hstrand hp hmade _ hpaces =>
    obtain ⟨ha₁, -, hnow₁⟩ := k.cancel hm.awaits hpaces.timer_eq
    obtain ⟨ha₂, -, hnow₂⟩ := k.cancel (t := y.timer) ha₁
      fun _ hx => absurd hx (Option.not_mem_none _)
    simp only [hh]
    rw [Hub.stopHeartbeat_eq hy, Hub.dropHeartbeat_eq (y := { y with schedule := { y.schedule with
      deadline := none, generation := y.schedule.generation + 1 } }) ?_ (by rw [hp])]
    · exact ⟨hnow₂.trans (hnow₁.trans hm.now), hm.engines, ha₂,
        .closed hhandler hw hs rfl rfl rfl⟩
    · dsimp only
      rw [List.getElem?_modify_eq, hy]
      rfl

theorem drop (hm : m.Mirrors k (some h) hub a) :
    Mirrors k { m.stop with handler := false } none (h.drop hub) none := by
  have hvalues (hw : h.watchers = ∅) : h.watchers.values = [] := by
    rw [hw]
    rfl
  unfold Handler.drop
  cases hm.beats with
  | closed _ hw _ hh =>
    simp only [hvalues hw, hh, List.foldl_nil]
    exact ⟨hm.now, hm.engines, hm.awaits, .gone rfl rfl rfl⟩
  | held _ hw _ hh hy _ hp _ _ hpaces =>
    obtain ⟨ha, -, hnow⟩ := k.cancel hm.awaits hpaces.timer_eq
    simp only [hvalues hw, hh, List.foldl_nil]
    rw [Hub.dropHeartbeat_eq hy (by rw [hp])]
    exact ⟨hnow.trans hm.now, hm.engines, ha, .gone rfl rfl rfl⟩

/-- The heartbeat goes on to its next deadline. -/
theorem next {deadline : Nat} {interval : Interval} (hnow : Reactor.now hub.reactor = m.now)
    (hengines : hub.engines = [⟨m.engine, 0⟩]) (ha : k.Awaits hub.reactor none)
    (hhandler : m.handler = true) (hw : h.watchers = ∅) (hs : hub.strandAlive h.strand = true)
    (hh : h.heartbeat = some t) (hy : hub.heartbeats[t]? = some y) (hstrand : y.strand = h.strand)
    (hp : y.presence = {}) (hm : k.Made hub.reactor y.timer)
    (hreports : m.interval = if y.schedule.deadline.isSome then y.schedule.interval else none)
    (hdeadline : y.schedule.deadline = some deadline)
    (hinterval : y.schedule.interval = some interval) :
    (m.await (some (deadline + interval.length, interval))).Mirrors k (some h)
      (hub.nextBeat t y.schedule.generation 0)
      (some ⟨y.timer, deadline + interval.length, .beat t y.schedule.generation 0⟩) := by
  obtain ⟨ha', hm', hnow'⟩ :=
    k.schedule (deadline + interval.length) t y.schedule.generation 0 ha hm
  rw [hub.nextBeat_eq hy hdeadline hinterval]
  refine ⟨hnow'.trans hnow, hengines, ha', .held (y := { y with schedule := { y.schedule with
    deadline := some (deadline + interval.length) } }) hhandler hw hs hh ?_ hstrand hp hm' ?_
    (.set rfl rfl hinterval)⟩
  · change (hub.heartbeats.modify t _)[t]? = _
    rw [List.getElem?_modify_eq, hy]
    rfl
  · change m.interval = y.schedule.interval
    rw [hreports, hdeadline]
    rfl

/-- The wait of the alarm was taken from the reactor when its deadline was over. Without an engine
nothing comes of it, and with one there is a call. If nothing is done in it, the alarm is set for
the next deadline. -/
theorem ring (hm : m.Mirrors k handler hub (some x)) {r : ρ} (ha : k.Awaits r none)
    (hmade : ∀ t, k.Made hub.reactor t → k.Made r t) (hnow : Reactor.now r = m.now)
    (hdue : x.deadline ≤ m.now) : ∃ m' : Metronome, m'.engine = m.engine ∧ m'.lag < m.lag ∧
      (m.Counts 0 m' ∧ m'.Mirrors k handler { hub with reactor := r } none ∧
          Hub.begin x.callback (.ok ()) { hub with reactor := r } =
            ({ hub with reactor := r }, none) ∨
        ∃ hub' call a, m.Counts 1 m' ∧ m'.Mirrors k handler (hub'.finish call) a ∧
          Hub.begin x.callback (.ok ()) { hub with reactor := r } = (hub', some call) ∧
          call.engine = 0 ∧ call.notice = .heartbeat ∧
          ∃ deadline, (hub'.finish call).reactor =
            Reactor.schedule x.timer deadline x.callback r) := by
  have hengine := hm.engineAlive
  cases hm.beats with
  | @held h t y _ hhandler hw hs hh hy hstrand hp hm₁ hreports hpaces =>
    cases hpaces with
    | @set deadline interval hmdue hdeadline hinterval =>
      let hub₀ : Hub ρ := { hub with reactor := r }
      have hbegin := hub₀.begin_beat hy (by rw [hp]; rfl) 0
      rw [if_pos (show hub₀.strandAlive y.strand = true from hstrand ▸ hs), Hub.startCall] at hbegin
      cases he : m.engine with
      | false =>
        have hgone : ¬ hub₀.engineAlive 0 = true :=
          Bool.eq_false_iff.mp ((show hub₀.engineAlive 0 = m.engine from hengine).trans he)
        rw [if_neg hgone] at hbegin
        obtain ⟨hcounts, hlag⟩ := m.counts_none hmdue hdue he
        refine ⟨m.await none, he, hlag, Or.inl ⟨hcounts, ⟨hnow, hm.engines, ha, ?_⟩, hbegin⟩⟩
        exact .held hhandler hw hs hh hy hstrand hp (hmade _ hm₁) hreports (.idle rfl)
      | true =>
        rw [if_pos (show hub₀.engineAlive 0 = true from hengine.trans he)] at hbegin
        obtain ⟨hcounts, hlag⟩ := counts_next hmdue hdue he
        have hkept : hub₀.heartbeats[t]?.any (·.presence.kept) = true := by
          rw [show hub₀.heartbeats[t]? = some y from hy, Option.any_some, hp]
        -- what the call takes is given back, so that its end only goes on to the next deadline
        have hfinish := hub₀.finish_beat hkept y.strand 0 y.schedule.generation
        refine ⟨m.await (some (deadline + interval.length, interval)), he, hlag, Or.inr
          ⟨((hub₀.acquireHeartbeat t).enterStrand y.strand).modifyEngine 0 .acquire,
            ⟨.heartbeat t y.schedule.generation, y.strand, 0, .heartbeat⟩,
            some ⟨y.timer, deadline + interval.length, .beat t y.schedule.generation 0⟩, hcounts,
            ?_, hbegin, rfl, rfl, deadline + interval.length, ?_⟩⟩
        · rw [hfinish]
          exact next hnow hm.engines ha hhandler hw hs hh hy hstrand hp (hmade _ hm₁) hreports
            hdeadline hinterval
        · rw [hfinish, hub₀.nextBeat_eq hy hdeadline hinterval]

end Mirrors
end Metronome
end Wakeup
