import Wakeup.Proofs.CatchUp
import Wakeup.Proofs.Settling

/-! Heartbeats do not depend on the reactor. A handler whose waits are completed by hand and one
whose waits are tasks both do what a metronome does. -/
namespace Wakeup.Scenario

def Record.isHeartbeat (record : Record) : Bool := record.said?.any (·.2 = .heartbeat)

/-- A world with one handler and one engine that does nothing in a heartbeat does what a metronome
does. -/
structure World.Mirrors (m : Metronome) (w : World) (a : Option Alarm) : Prop where
  hub : m.Mirrors Manual.keeper (w.handlers.get? 0) w.hub a
  engine : w.engines.get? 0 = if m.engine then some 0 else none
  sole : w.actors.length = 1
  still : w.Still

namespace World.Mirrors
variable {m m' : Metronome} {w w' : World} {a a' : Option Alarm}

/-- The engine is told of a beat. -/
theorem cue (hsole : w.actors.length = 1) (hstill : w.Still) {call : Call} (he : call.engine = 0)
    (hnotice : call.notice = .heartbeat) :
    (w.cue call).2.ops.getD [] = [] ∧ (w.cue call).1.Still ∧ (w.cue call).1.actors.length = 1 ∧
      ((w.cue call).1.callRecords (w.cue call).2 []).countP Record.isHeartbeat = 1 := by
  obtain ⟨hstill', hops⟩ := hstill.cue call
  obtain ⟨actors, hcast, hworld⟩ := cue_world call w
  have hlength := congrArg List.length hcast
  rw [List.length_map, List.length_map, hsole] at hlength
  refine ⟨hops hnotice, hstill', by rw [hworld]; exact hlength, ?_⟩
  obtain ⟨actor, hactor⟩ := List.length_eq_one_iff.mp hsole
  have hsaid := said_cue call w
  have hhear : hear w.actors call.engine call.notice = [(actor.name, .heartbeat)] := by
    rw [hactor, he, hnotice]
    simp [hear, Notice.isWaitError]
  have hcount := congrArg (List.countP (·.any (·.2 = Notice.heartbeat))) hsaid
  rw [hhear, List.countP_map] at hcount
  exact hcount

private theorem countP_bareRecords (c : Callback) (o : Outcome) :
    (bareRecords c o).countP Record.isHeartbeat = 0 := by
  unfold bareRecords
  split <;> rfl

/-- The deadline of the heartbeat is over. -/
theorem settle {x : Alarm} (h : Mirrors m w (some x)) {wait : Wait}
    (hc : wait.callback = x.callback) {r : Manual} (hr : r.timed = [])
    (hnow : r.now = w.hub.reactor.now) (hdue : x.deadline ≤ w.hub.reactor.now) :
    (w.modifyReactor fun _ => r).Mute wait (.ok ()) ∧
    ∃ m' a', Mirrors m' ((w.modifyReactor fun _ => r).settle wait (.ok ())).1 a' ∧ m'.lag < m.lag ∧
      m.Counts (((w.modifyReactor fun _ => r).settle wait (.ok ())).2.countP Record.isHeartbeat)
        m' := by
  have hwnow : w.hub.reactor.now = m.now := h.hub.now
  obtain ⟨m', he, hlag, ⟨hcounts, hm, hbegin⟩ |
      ⟨hub', call, a', hcounts, hm, hbegin, hengine, hnotice, -⟩⟩ :=
    h.hub.ring (congrArg (List.map TimedWait.alarm) hr) (fun _ _ => trivial) (hnow.trans hwnow)
      (hwnow ▸ hdue)
  · have hbegin' : (w.modifyReactor fun _ => r).begin wait (.ok ()) =
        (w.modifyReactor fun _ => r, none) := by
      unfold World.begin modifyReactor setHub
      dsimp only
      rw [hc, hbegin]
    have hsettle : (w.modifyReactor fun _ => r).settle wait (.ok ()) =
        (w.modifyReactor fun _ => r, bareRecords wait.callback (.ok ())) := by
      unfold World.settle
      rw [hbegin']
    refine ⟨?_, m', none, ?_, hlag, ?_⟩
    · intro call hmem
      rw [hbegin'] at hmem
      exact absurd hmem (Option.not_mem_none call)
    · rw [hsettle]
      exact ⟨hm, he ▸ h.engine, h.sole, h.still⟩
    · rw [hsettle, countP_bareRecords]
      exact hcounts
  · have hbegin' : (w.modifyReactor fun _ => r).begin wait (.ok ()) =
        (w.setHub hub', some call) := by
      unfold World.begin modifyReactor setHub
      dsimp only
      rw [hc, hbegin]
    obtain ⟨hops, hstill, hsole, hcount⟩ := cue (w := w.setHub hub') h.sole h.still hengine hnotice
    obtain ⟨actors, -, hworld⟩ := cue_world call (w.setHub hub')
    have hsettle : (w.modifyReactor fun _ => r).settle wait (.ok ()) =
        (((w.setHub hub').cue call).1.finishCall call,
          ((w.setHub hub').cue call).1.callRecords ((w.setHub hub').cue call).2 []) := by
      unfold World.settle
      rw [hbegin']
    refine ⟨?_, m', a', ?_, hlag, ?_⟩
    · intro call' hmem
      rw [hbegin'] at hmem ⊢
      cases hmem
      exact hops
    · rw [hsettle]
      refine ⟨?_, ?_, hsole, hstill⟩
      · rw [hworld]
        exact hm
      · rw [hworld]
        exact he ▸ h.engine
    · rw [hsettle, hcount]
      exact hcounts

/-- All due waits are completed. -/
theorem steps_firing (h : Mirrors m w a) (n : Nat) (records : List Record) (f : Frame) :
    ∃ w' a' entry, Config.Steps ⟨w, ⟨.firing n records none, [], []⟩, [f]⟩ ⟨w', f.push entry, []⟩ ∧
      Mirrors m.catchUp.2 w' a' ∧ entry.records.countP Record.isHeartbeat =
        records.countP Record.isHeartbeat + m.catchUp.1 := by
  -- each completion makes the next beat less late
  induction hlag : m.lag using Nat.strong_induction_on generalizing m w a n records with
  | _ lag ih =>
    subst hlag
    have hnow : w.hub.reactor.now = m.now := h.hub.now
    by_cases hdue : ∃ x ∈ a, x.deadline ≤ w.hub.reactor.now
    · obtain ⟨x, rfl, hdue⟩ := hdue
      obtain ⟨wait, hc, htake⟩ := Manual.Awaits.takeDue h.hub.awaits hdue
      obtain ⟨hmute, m', a', hm, hlag, hcounts⟩ :=
        h.settle hc (r := { w.hub.reactor with timed := [] }) rfl rfl hdue
      obtain ⟨w'', a'', entry, hsteps, hm', hcount⟩ := ih m'.lag hlag hm (n + 1) (_ ++ records) rfl
      refine ⟨w'', a'', entry, ?_, hcounts.rest ▸ hm', ?_⟩
      · rcases Config.step_fire hmute htake rfl with ⟨-, hs⟩ | ⟨v, cue, -, hs, hs'⟩
        · exact .head hs hsteps
        · exact .head hs (.head hs' hsteps)
      · rw [hcount, List.countP_append, ← hcounts.beats]
        omega
    · have hlt : ∀ x ∈ a, w.hub.reactor.now < x.deadline := fun x hx =>
        Nat.lt_of_not_le fun hle => hdue ⟨x, hx, hle⟩
      have hnone := Manual.Awaits.takeDue_eq_none h.hub.awaits hlt
      have hs : Config.step ⟨w, ⟨.firing n records none, [], []⟩, [f]⟩ =
          some ⟨w, f.push (.mk (.number n) records.reverse), []⟩ := by
        unfold Config.step Config.fire
        simp only [hnone]
        rfl
      rw [hnow] at hlt
      have hcatch := h.hub.catchUp_eq hlt
      refine ⟨w, a, _, .single hs, ?_, ?_⟩
      · rw [hcatch]
        exact h
      · rw [hcatch, Entry.records, List.countP_reverse]
        rfl

end World.Mirrors

/-- The operations of a scenario for a move. -/
def Op.listOf : Metronome.Move → List Op
  | .negotiate seconds => [.negotiate 0 0 seconds]
  | .close => [.close 0 0]
  | .advance elapsed => [.advance elapsed, .fireTimers]
  | .dropEngine => [.dropEngine 0]
  | .dropHandler => [.dropHandler 0]

namespace World
variable {m : Metronome} {w w' : World} {a : Option Alarm}

/-- The interval that the handler reports. -/
def heartbeatInterval (w : World) : Option Interval :=
  (w.handlers.get? 0).bind fun h => h.heartbeatInterval w.hub

/-- The heartbeats of each move, and the interval reported after it. -/
def beatEach : List Metronome.Move → World → List (Nat × Option Interval)
  | [], _ => []
  | move :: moves, w =>
    let (w, entries) := w.performAll (Op.listOf move)
    ((entries.flatMap Entry.records).countP Record.isHeartbeat, w.heartbeatInterval) ::
      beatEach moves w

private theorem performAll_of_ended {op : Op} {result : World × Reply}
    (h : w.perform op = ended result) : w.performAll [op] = (result.1, [.mk result.2 []]) := by
  have hs := Config.step_of_ended (c := w.start [op]) (w := result.1) rfl h
  unfold performAll
  rw [Config.run_of_step_eq_some hs, Config.run_of_step_eq_none rfl]
  rfl

namespace Mirrors

/-- The handler is replaced by what is left of it. -/
theorem insert (h : Mirrors m w a) {m' : Metronome} {a' : Option Alarm} {g : Handler}
    {hub : Hub Manual} (hm : m'.Mirrors Manual.keeper (some g) hub a') (he : m'.engine = m.engine) :
    Mirrors m' { w with hub := hub, handlers := w.handlers.insert 0 g } a' := by
  refine ⟨?_, he ▸ h.engine, h.sole, h.still⟩
  dsimp only
  rw [Table.get?_insert_self]
  exact hm

private theorem negotiate (h : Mirrors m w a) (seconds : Nat) :
    ∃ a', Mirrors (m.step (.negotiate seconds)).2 (w.negotiate 0 0 seconds).1 a' := by
  have hm := h.hub
  simp only [Metronome.step, World.negotiate, h.engine]
  cases he : m.engine with
  | false => exact ⟨a, h⟩
  | true =>
    rw [hm.handler_eq]
    cases hh : w.handlers.get? 0 with
    | none => exact ⟨a, h⟩
    | some g =>
      rw [hh] at hm
      obtain ⟨a', hm'⟩ := hm.negotiate seconds
      exact ⟨a', h.insert hm' (m.engine_negotiate seconds)⟩

private theorem close (h : Mirrors m w a) :
    ∃ a', Mirrors (m.step .close).2 (w.close 0 0).1 a' := by
  have hm := h.hub
  simp only [Metronome.step, World.close, h.engine]
  cases he : m.engine with
  | false => exact ⟨a, h⟩
  | true =>
    rw [hm.handler_eq]
    cases hh : w.handlers.get? 0 with
    | none => exact ⟨a, h⟩
    | some g =>
      rw [hh] at hm
      exact ⟨none, h.insert hm.close rfl⟩

private theorem dropEngine (h : Mirrors m w a) :
    Mirrors (m.step .dropEngine).2 (w.dropEngine 0).1 a := by
  simp only [Metronome.step, World.dropEngine, h.engine]
  cases he : m.engine with
  | false =>
    have hsame : { m with engine := false } = m := by rw [← he]
    exact hsame ▸ h
  | true =>
    refine ⟨h.hub.dropEngine, ?_, h.sole, h.still⟩
    exact Table.get?_erase_self w.engines 0

private theorem dropHandler (h : Mirrors m w a) :
    Mirrors (m.step .dropHandler).2 (w.dropHandler 0).1 none := by
  have hm := h.hub
  simp only [Metronome.step, World.dropHandler]
  cases hh : w.handlers.get? 0 with
  | none =>
    rw [hh] at hm
    exact ⟨by rw [hh]; exact hm.dropped, h.engine, h.sole, h.still⟩
  | some g =>
    rw [hh] at hm
    refine ⟨?_, h.engine, h.sole, h.still⟩
    dsimp only
    rw [Table.get?_erase_self]
    exact hm.drop

private theorem advance (h : Mirrors m w a) (elapsed : Nat) :
    Mirrors { m with now := m.now + elapsed } (w.modifyReactor (Manual.advance elapsed)) a := by
  have hnow : w.hub.reactor.now + elapsed = m.now + elapsed := congrArg (· + elapsed) h.hub.now
  have hlater : (w.hub.reactor.advance elapsed).Awaits a := h.hub.awaits
  exact ⟨h.hub.withReactor hlater (fun _ _ => trivial) _ hnow, h.engine, h.sole, h.still⟩

/-- The due waits are completed after the clock was advanced. -/
theorem performAll_advance (h : Mirrors m w a) (elapsed : Nat) :
    ∃ w' a' entry reply, w.performAll [.advance elapsed, .fireTimers] =
        (w', [.mk reply [], entry]) ∧ Mirrors (m.step (.advance elapsed)).2 w' a' ∧
      entry.records.countP Record.isHeartbeat = (m.step (.advance elapsed)).1 := by
  let v := w.modifyReactor (Manual.advance elapsed)
  let reply : Reply := .number v.hub.reactor.now
  obtain ⟨w', a', entry, hsteps, hm, hcalls⟩ :=
    (h.advance elapsed).steps_firing 0 [] ⟨.outside, [], [.mk reply []]⟩
  have hfirst : Config.step (w.start [.advance elapsed, .fireTimers]) =
      some ⟨v, ⟨.outside, [.fireTimers], [.mk reply []]⟩, []⟩ := Config.step_of_ended rfl rfl
  have hopen : Config.step ⟨v, ⟨.outside, [.fireTimers], [.mk reply []]⟩, []⟩ =
      some ⟨v, ⟨.firing 0 [] none, [], []⟩, [⟨.outside, [], [.mk reply []]⟩]⟩ := rfl
  refine ⟨w', a', entry, reply, ?_, hm, hcalls.trans (Nat.zero_add _)⟩
  unfold performAll
  rw [Config.run_of_step_eq_some hfirst, Config.run_of_step_eq_some hopen, hsteps.run_eq,
    Config.run_of_step_eq_none rfl]
  rfl

/-- A move of a scenario and of a metronome. -/
theorem perform (h : Mirrors m w a) (move : Metronome.Move) :
    ((w.performAll (Op.listOf move)).2.flatMap Entry.records).countP Record.isHeartbeat =
        (m.step move).1 ∧
      ∃ a', Mirrors (m.step move).2 (w.performAll (Op.listOf move)).1 a' := by
  unfold Op.listOf
  cases move with
  | negotiate seconds =>
    dsimp only
    rw [performAll_of_ended rfl]
    exact ⟨rfl, h.negotiate seconds⟩
  | close =>
    dsimp only
    rw [performAll_of_ended rfl]
    exact ⟨rfl, h.close⟩
  | dropEngine =>
    dsimp only
    rw [performAll_of_ended rfl]
    exact ⟨rfl, a, h.dropEngine⟩
  | dropHandler =>
    dsimp only
    rw [performAll_of_ended rfl]
    exact ⟨rfl, none, h.dropHandler⟩
  | advance elapsed =>
    obtain ⟨w', a', entry, reply, hall, hm, hcalls⟩ := h.performAll_advance elapsed
    dsimp only
    rw [hall]
    refine ⟨?_, a', hm⟩
    simpa [Entry.records] using hcalls

theorem initial (script : Script Op) (hscript : ∀ ops ∈ script.beat, ops = []) :
    Mirrors {} (World.initial script) none := by
  refine ⟨⟨rfl, rfl, rfl, ?_⟩, rfl, rfl, fun actor hactor => ?_⟩
  · exact .held (h := ⟨0, some 0, ∅⟩) (y := ⟨0, 0, {}, {}⟩) rfl rfl rfl rfl rfl rfl rfl trivial rfl
      (.idle rfl)
  · rw [List.mem_singleton.mp hactor]
    exact hscript

theorem beatEach_eq (h : Mirrors m w a) (moves : List Metronome.Move) :
    beatEach moves w = m.showEach moves := by
  induction moves generalizing m w a with
  | nil => rfl
  | cons move moves ih =>
    obtain ⟨hcalls, a', hm⟩ := h.perform move
    unfold beatEach Metronome.showEach
    dsimp only
    rw [hcalls, ih hm]
    exact congrArg (fun i => (_, i) :: _) hm.hub.interval_eq

end Mirrors
end World
end Wakeup.Scenario

namespace Wakeup
open Scenario

/-- The reactors agree on heartbeats. An interval is negotiated, the connection is closed, the engine
or the handler is dropped and time passes, in any order, and the engine does nothing in a heartbeat.
In each of these moves a session on a task reactor, and a scenario on a manual one in which the due
waits are completed whenever time has passed, make the same number of heartbeat calls, and after it
they report the same interval. Whenever time has passed the session has settled. -/
theorem heartbeats_agree (runtime : Runtime) (options : Options) (script : Script Scenario.Op)
    (hscript : ∀ ops ∈ script.beat, ops = []) (moves : List Metronome.Move) :
    let s := Session.create { runtime := runtime, options := options } none none
    s.beatEach moves = (World.initial script).beatEach moves ∧
      ∀ elapsed, (s.after (moves ++ [.advance elapsed])).round =
        ([], s.after (moves ++ [.advance elapsed])) := by
  have hsession := Session.Mirrors.create runtime options
  have hworld := World.Mirrors.initial script hscript
  exact ⟨(hsession.beatEach_eq moves).trans (hworld.beatEach_eq moves).symm,
    fun elapsed => hsession.round_after moves elapsed⟩

/-- They agree in whichever order the session polls the tasks that are scheduled. -/
theorem heartbeats_agree_in_any_order (runtime : Runtime) (options : Options)
    (script : Script Scenario.Op) (hscript : ∀ ops ∈ script.beat, ops = [])
    {moves : List Metronome.Move} {shown : List (Nat × Option Interval)}
    (hs : (Session.create { runtime := runtime, options := options } none none).Shows moves shown) :
    shown = (World.initial script).beatEach moves :=
  ((Session.Mirrors.create runtime options).shows_eq hs).trans
    ((World.Mirrors.initial script hscript).beatEach_eq moves).symm

/-- Beats that were missed are made up for, a heartbeat that is set again starts over, and none is
left when the engine is gone. -/
def disturbed : List Metronome.Move :=
  [.negotiate 2, .advance 1500, .negotiate 0, .advance 5000, .negotiate 3, .advance 2999,
    .negotiate 3, .advance 1, .close, .advance 9000, .negotiate 1, .advance 2500, .dropEngine,
    .advance 4000, .dropHandler, .advance 1000]

theorem heartbeats_agree_disturbed :
    ((World.initial ⟨[], [[], []], []⟩).beatEach disturbed).map (·.1) =
        [0, 0, 0, 3, 0, 0, 0, 0, 0, 0, 0, 2, 0, 0, 0, 0] ∧
      ((World.initial ⟨[], [[], []], []⟩).beatEach disturbed).map
          (·.2.map Interval.seconds) =
        [some 2, some 2, some 2, some 2, some 3, some 3, some 3, some 3, none, none, some 1, some 1,
          some 1, some 1, none, none] := by
  obtain ⟨hagree, -⟩ := heartbeats_agree ⟨0⟩ {} ⟨[], [[], []], []⟩ (by simp) disturbed
  rw [← hagree]
  decide

end Wakeup
