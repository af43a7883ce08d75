import Mathlib.Order.Bounds.Defs
import Wakeup.Proofs.Drift
import Wakeup.Proofs.Due
import Wakeup.Proofs.Effects
import Wakeup.Proofs.Quiet

/-! Completing all due waits. It ends, each heartbeat beats at every deadline that it missed, and
all completions are in the order of their deadlines. -/
namespace Wakeup.Scenario

namespace Ledger
variable {L L' : Ledger}

/-- A schedule with a deadline has an interval. -/
def Spaced (L : Ledger) : Prop :=
  ∀ t x, L.hub.schedule? t = some x → x.deadline.isSome → x.interval.isSome

private theorem Ages.keeps_spaced (ha : Ages L L') (h : Spaced L) : Spaced L' := by
  intro t y hy hd
  cases ha with
  | same hs => exact h t y (hs t ▸ hy) hd
  | makes hs =>
    rw [hs] at hy
    split at hy
    · cases hy
      cases hd
    · exact h t y hy hd
  | sets _ hs =>
    rw [hs] at hy
    split at hy
    · obtain ⟨x, -, rfl⟩ := Option.map_eq_some_iff.mp hy
      rfl
    · exact h t y hy hd
  | stops hs =>
    rw [hs] at hy
    split at hy
    · obtain ⟨x, -, rfl⟩ := Option.map_eq_some_iff.mp hy
      cases hd
    · exact h t y hy hd
  | runs hs =>
    rw [hs] at hy
    split at hy
    · obtain ⟨x, -, rfl⟩ := Option.map_eq_some_iff.mp hy
      cases hd
    · exact h t y hy hd
  | @ends call hs =>
    rw [hs] at hy
    split at hy
    · split at hy
      · obtain ⟨x, hx, rfl⟩ := Option.map_eq_some_iff.mp hy
        unfold Schedule.next at hd ⊢
        split at hd
        · rename_i deadline interval hdeadline hinterval
          split
          · rw [hinterval]
            rfl
          · rw [hinterval]
            rfl
        · exact h t x hx hd
      · exact h t y hy hd
    · exact h t y hy hd

end Ledger

namespace Config
open Ledger
variable {c c' c₁ c₂ : Config} {log : List Event} {steps steps' : List (Config × Config)}

private theorem Reached.spaced (hr : Reached c log) : (c.ledger log).Spaced :=
  hr.keeps (fun hm ho => (hm.ages ho).keeps_spaced) (fun hc _ => (ages_finish hc).keeps_spaced)
    fun _ _ h => by cases h

/-- What lasts when no engine is being called is kept. -/
theorem kept_of_lasts (hr : Reached c log) (hc : c.calls = []) {t : Nat} {y : Heartbeat}
    (hy : c.world.hub.heartbeats[t]? = some y)
    (hlasts : c.world.hub.lasts (.heartbeat t) = true) : y.presence.kept = true := by
  have huses := hr.inUse.heartbeats t
  change usesOf (c.world.hub.heartbeats.map (·.presence)) t = c.calls.countP _ at huses
  rw [hc, List.countP_nil, usesOf, List.getElem?_map, hy] at huses
  rw [Hub.lasts_heartbeat_of_getElem? hy, Presence.alive, Presence.inUse] at hlasts
  have hzero : y.presence.uses = 0 := huses
  rw [hzero] at hlasts
  simpa using hlasts

/-- When no engine is being called, the waits for deadlines are in order. -/
theorem Reached.orderly (hr : Reached c log) (hc : c.calls = []) : c.world.hub.Orderly := by
  have hbalanced := hr.balanced
  refine ⟨fun x hx => ?_, hbalanced.timed_sorted, fun x hx => ?_, hbalanced.single⟩
  · have htimely := hr.paced.punctual.timed x hx
    have hlasts := hr.lasting x hx
    unfold Timely at htimely
    cases hcb : x.wait.callback with
    | ready =>
      rw [hcb] at htimely
      exact htimely.elim
    | bare tag => exact .bare hcb
    | beat t generation e =>
      rw [hcb] at htimely hlasts
      obtain ⟨htimer, s, hs, hgeneration, hdeadline⟩ := htimely
      have hspaced := hr.spaced t s hs (by rw [hdeadline]; rfl)
      obtain ⟨interval, hinterval⟩ := Option.isSome_iff_exists.mp hspaced
      obtain ⟨y, hy, rfl⟩ := Option.map_eq_some_iff.mp hs
      have htimer' := Option.some.inj ((Hub.timer?_of_getElem? hy).symm.trans htimer)
      have hkept := kept_of_lasts hr hc hy (hlasts _ rfl)
      exact .beat (y := y) (by rw [hcb, hgeneration]) hy htimer' hdeadline hinterval hkept
  · exact hbalanced.ticket_lt (Account.Balanced.timed_mem_waits hx)

end Config

/-- No engine has anything to do in a beat. -/
def World.Still (w : World) : Prop := ∀ actor ∈ w.actors, ∀ ops ∈ actor.script.beat, ops = []

theorem Script.beat_take {notice : Notice} {s t : Script Op} {ops : List Op}
    (h : s.take notice = some (ops, t)) :
    t.beat ⊆ s.beat ∧ (notice = .heartbeat → ops ∈ s.beat) := by
  obtain ⟨process, beat, error⟩ := s
  unfold take at h
  cases notice with
  | process =>
    cases process <;> cases h
    exact ⟨List.Subset.refl _, fun h => by cases h⟩
  | heartbeat =>
    cases beat <;> cases h
    exact ⟨List.subset_cons_self _ _, fun _ => List.mem_cons_self⟩
  | waitError =>
    cases error <;> cases h
    exact ⟨List.Subset.refl _, fun h => by cases h⟩

namespace World.Still
variable {w : World} {wait : Wait}

theorem cue (h : w.Still) (call : Call) : (w.cue call).1.Still ∧
    (call.notice = .heartbeat → (w.cue call).2.ops.getD [] = []) := by
  unfold World.cue
  split
  · exact ⟨h, fun _ => rfl⟩
  · rename_i actor ha
    split
    · exact ⟨h, fun _ => rfl⟩
    · split
      · exact ⟨h, fun _ => rfl⟩
      · rename_i ops script htake
        obtain ⟨hsub, hbeat⟩ := Script.beat_take htake
        have hactor := h actor (List.mem_of_getElem? ha)
        refine ⟨fun a hmem => ?_, fun hn => hactor ops (hbeat hn)⟩
        obtain ⟨j, hj⟩ := List.mem_iff_getElem?.mp hmem
        rw [List.getElem?_modify] at hj
        obtain ⟨b, hb, rfl⟩ := Option.map_eq_some_iff.mp hj
        split
        · exact fun ops hops => hactor ops (hsub hops)
        · exact h b (List.mem_of_getElem? hb)

private theorem settle (h : w.Still) (wait : Wait) (o : Outcome) : (w.settle wait o).1.Still := by
  unfold World.settle
  have hactors := World.actors_begin wait o w
  cases hbegin : w.begin wait o with
  | mk v call? =>
    rw [hbegin] at hactors
    have hv : v.Still := fun actor hmem => h actor (hactors ▸ hmem)
    cases call? with
    | none => exact hv
    | some call => exact (hv.cue call).1

private theorem mute (h : w.Still) {o : Outcome}
    (hcall : ∀ call ∈ (w.hub.through wait.callback o).2, call.notice = .heartbeat) :
    w.Mute wait o := by
  intro call hmem
  rw [World.begin_snd] at hmem
  exact (Still.cue (w := (w.begin wait o).1) h call).2 (hcall call hmem)

end World.Still

namespace Config
variable {c c' c₁ c₂ : Config} {steps steps' : List (Config × Config)}

/-- Steps that lead from one configuration to another, latest first. -/
inductive Trail (c₀ : Config) : Config → List (Config × Config) → Prop
  | refl : Trail c₀ c₀ []
  | step {c c' : Config} {steps : List (Config × Config)} :
      Trail c₀ c steps → c.step = some c' → Trail c₀ c' ((c, c') :: steps)

theorem Trail.trans (h : Trail c c₁ steps) (h' : Trail c₁ c₂ steps') :
    Trail c c₂ (steps' ++ steps) := by
  induction h' with
  | refl => exact h
  | step _ hs ih => exact ih.step hs

theorem happened_append (steps steps' : List (Config × Config)) :
    happened (steps' ++ steps) = happened steps' ++ happened steps := List.flatMap_append

theorem begun_append (steps steps' : List (Config × Config)) :
    begun (steps' ++ steps) = begun steps' ++ begun steps := List.flatMap_append

theorem WasArmed.append {x : TimedWait} (hx : WasArmed c₁ steps' x) (h : Trail c c₁ steps) :
    WasArmed c (steps' ++ steps) x := by
  rcases hx with hx | ⟨s, hs, hx⟩
  · cases h with
    | refl => exact Or.inl hx
    | step => exact Or.inr ⟨_, List.mem_append_right _ List.mem_cons_self, hx⟩
  · exact Or.inr ⟨s, List.mem_append_left _ hs, hx⟩

/-- The steps in which the next due wait is completed. Less is left to do after them. -/
theorem trail_fire {w : World} {n : Nat} {records : List Record} {f : Frame} {wait : Wait}
    {m : Manual} {c' : Config} (hmute : (w.modifyReactor fun _ => m).Mute wait (.ok ()))
    (hdue : w.hub.reactor.takeDue = some (wait, m))
    (hc : c' = ⟨((w.modifyReactor fun _ => m).settle wait (.ok ())).1,
      ⟨.firing (n + 1) (((w.modifyReactor fun _ => m).settle wait (.ok ())).2 ++ records) none,
        [], []⟩, [f]⟩) :
    ∃ steps, Trail ⟨w, ⟨.firing n records none, [], []⟩, [f]⟩ c' steps ∧
      Relation.TransGen Before c' ⟨w, ⟨.firing n records none, [], []⟩, [f]⟩ ∧
      happened steps = [w.completed wait (.ok ())] ∧
      begun steps = ((w.modifyReactor fun _ => m).hub.through wait.callback (.ok ())).2.toList := by
  rw [← World.begin_snd]
  have hevents : events ⟨w, ⟨.firing n records none, [], []⟩, [f]⟩ =
      [w.completed wait (.ok ())] := by
    unfold events
    simp only [hdue]
  rcases step_fire hmute hdue hc with ⟨hnone, hs⟩ | ⟨v, cue, hsome, hs, hs'⟩
  · subst hc
    refine ⟨_, Trail.refl.step hs, .single (before_of_step hs), ?_, ?_⟩
    · unfold happened
      rw [List.flatMap_cons, hevents]
      rfl
    · simp [begun, entered, calls, Activity.call?, hnone]
  · subst hc
    refine ⟨_, (Trail.refl.step hs).step hs',
      .tail (.single (before_of_step hs')) (before_of_step hs), ?_, ?_⟩
    · unfold happened
      rw [List.flatMap_cons, List.flatMap_cons, hevents]
      rfl
    · simp [begun, entered, calls, Activity.call?, hsome]

/-- All due waits are completed. -/
theorem trail_firing {w : World} {n : Nat} {records : List Record} {f : Frame}
    (ho : w.hub.Orderly) (hstill : w.Still) (hf : f.activity.call? = none) :
    ∃ w' fired records' steps,
      Trail ⟨w, ⟨.firing n records none, [], []⟩, [f]⟩
        ⟨w', f.push (.mk (.number (n + fired.length)) records'), []⟩ steps ∧
      w.hub.Fires fired w'.hub ∧
      happened steps = (fired.map fun x => w.completed x.wait (.ok ())).reverse ∧
      begun steps = (fired.filterMap fun x => w.hub.beatCall? x.wait.callback).reverse ∧
      ∀ x ∈ fired, WasArmed ⟨w, ⟨.firing n records none, [], []⟩, [f]⟩ steps x := by
  -- the steps of one completion make the run shorter that is left
  induction hc : (⟨w, ⟨.firing n records none, [], []⟩, [f]⟩ : Config)
    using before_wellFounded.transGen.induction generalizing w n records with
  | _ c ih =>
    subst hc
    cases hdue : w.hub.reactor.takeDue with
    | none =>
      have hs : step ⟨w, ⟨.firing n records none, [], []⟩, [f]⟩ =
          some ⟨w, f.push (.mk (.number n) records.reverse), []⟩ := by
        unfold step fire
        simp only [hdue]
        rfl
      have hfiring : (Activity.firing n records none).call? = none := rfl
      refine ⟨w, [], records.reverse, _, Trail.refl.step hs, .nil (Manual.takeDue_eq_none hdue), ?_,
        ?_, fun x hx => absurd hx List.not_mem_nil⟩
      · simp [happened, events, hdue]
      · simp [begun, entered, calls, hfiring, hf, Frame.push]
    | some due =>
      obtain ⟨wait, m⟩ := due
      obtain ⟨x, l, l', rfl, hl, rfl, hle, hfirst⟩ := Manual.takeDue_some hdue ho.sorted
      obtain ⟨hfire, hcall⟩ := ho.fire hl hle hfirst
      let w₀ : World := w.modifyReactor fun _ => { w.hub.reactor with timed := l ++ l' }
      have hstill₀ : w₀.Still := hstill
      change (w₀.hub.through x.wait.callback (.ok ())).2 = _ at hcall
      have hmute : w₀.Mute x.wait (.ok ()) := by
        refine hstill₀.mute fun call hmem => ?_
        rw [hcall] at hmem
        exact Hub.notice_of_beatCall? hmem
      obtain ⟨first, htrail, hbefore, hhappened, hbegun⟩ :=
        @trail_fire w n records f x.wait _ _ hmute hdue rfl
      obtain ⟨actors, -, hworld⟩ := World.settle_world x.wait (.ok ()) w₀
      have hhub : (w₀.settle x.wait (.ok ())).1.hub =
          ((w.hub.withTimed (l ++ l')).through x.wait.callback (.ok ())).1 :=
        congrArg World.hub hworld
      rw [← hhub] at hfire
      obtain ⟨w', fired, records', rest, htrail', hfires, hhappened', hbegun', harmed⟩ :=
        ih _ hbefore hfire.orderly (hstill₀.settle x.wait (.ok ())) rfl
      have hlength : n + (x :: fired).length = n + 1 + fired.length := by
        rw [List.length_cons]
        omega
      have hcompleted : (w₀.settle x.wait (.ok ())).1.completed = w.completed := by
        funext wait o
        unfold World.completed
        rw [serves_congr hfire.engines]
      refine ⟨w', x :: fired, records', rest ++ first, ?_, .cons hfire hfires, ?_, ?_, ?_⟩
      · rw [hlength]
        exact htrail.trans htrail'
      · rw [happened_append, hhappened, hhappened', hcompleted, List.map_cons, List.reverse_cons]
      · rw [begun_append, hbegun, hcall, hbegun', hfire.call, List.filterMap_cons]
        cases w.hub.beatCall? x.wait.callback with
        | none => exact List.append_nil _
        | some call => exact (List.reverse_cons ..).symm
      · intro y hy
        rcases List.mem_cons.mp hy with rfl | hy
        · exact Or.inl hfire.mem
        · exact (harmed y hy).append htrail

end Config

/-- What completing all due waits does to a world: which waits complete, and which calls are made,
in order. -/
structure CatchesUp (w : World) (fired : List TimedWait) (called : List Call) (w' : World) :
    Prop where
  /-- The clock does not move, and no wait is due any more. -/
  now : w'.hub.reactor.now = w.hub.reactor.now
  none_due : ∀ x ∈ w'.hub.reactor.timed, w'.hub.reactor.now < x.deadline
  /-- A heartbeat beats at every deadline that it missed, and waits for the first to come. -/
  beats : ∀ x ∈ w.hub.reactor.timed, x.deadline ≤ w.hub.reactor.now → ∀ t generation e y,
    x.wait.callback = .beat t generation e → w.hub.heartbeats[t]? = some y →
    w.hub.strandAlive y.strand = true → w.hub.engineAlive e = true →
    ∃ interval, y.schedule.interval = some interval ∧
      called.filter (·.owner.isHeartbeat t) =
        List.replicate ((w.hub.reactor.now - x.deadline) / interval.length + 1)
          ⟨.heartbeat t generation, y.strand, e, .heartbeat⟩ ∧
      (fired.filter (·.timer = x.timer)).map (·.deadline) =
        (List.range ((w.hub.reactor.now - x.deadline) / interval.length + 1)).map
          (x.deadline + · * interval.length) ∧
      ∃ next, w'.hub.reactor.timed.filter (·.timer = x.timer) = [next] ∧
        next.wait.callback = x.wait.callback ∧
        IsLeast {d | w.hub.reactor.now < d ∧ ∃ k, d = x.deadline + k * interval.length}
          next.deadline
  /-- One whose strand or engine is gone does not beat, and does not wait any more. -/
  gone : ∀ x ∈ w.hub.reactor.timed, x.deadline ≤ w.hub.reactor.now → ∀ t generation e y,
    x.wait.callback = .beat t generation e → w.hub.heartbeats[t]? = some y →
    w.hub.strandAlive y.strand = false ∨ w.hub.engineAlive e = false →
    called.filter (·.owner.isHeartbeat t) = [] ∧ fired.filter (·.timer = x.timer) = [x] ∧
      w'.hub.reactor.timed.filter (·.timer = x.timer) = []
  bare : ∀ x ∈ w.hub.reactor.timed, x.deadline ≤ w.hub.reactor.now → ∀ tag,
    x.wait.callback = .bare tag → fired.filter (·.timer = x.timer) = [x] ∧
      w'.hub.reactor.timed.filter (·.timer = x.timer) = []
  /-- Waits that are not due do not complete, and are left as they are. -/
  due : ∀ x ∈ fired, x.deadline ≤ w.hub.reactor.now
  undue : w.hub.reactor.timed.filter (w.hub.reactor.now < ·.deadline) <+: w'.hub.reactor.timed
  count : fired.length = total w.hub.firings w.hub.reactor.timed
  /-- Waits complete in the order of their deadlines, and for one deadline in that of arming. -/
  ordered : fired.Pairwise TimedWait.Before

/-- The first deadline to come, of those that are whole intervals after one that has passed. -/
theorem isLeast_deadline {now deadline : Nat} (h : deadline ≤ now) (interval : Interval) :
    IsLeast {d | now < d ∧ ∃ k, d = deadline + k * interval.length}
      (deadline + ((now - deadline) / interval.length + 1) * interval.length) := by
  have hpos := interval.length_pos
  refine ⟨⟨?_, _, rfl⟩, ?_⟩
  · have hlt := Nat.lt_mul_div_succ (now - deadline) hpos
    rw [Nat.mul_comm] at hlt
    omega
  · rintro d ⟨hlt, k, rfl⟩
    have hk : (now - deadline) / interval.length < k :=
      (Nat.div_lt_iff_lt_mul hpos).mpr (by omega)
    exact Nat.add_le_add_left (Nat.mul_le_mul_right _ hk) deadline

private theorem catchesUp_of_fires {w w' : World} {fired : List TimedWait} (ho : w.hub.Orderly)
    (h : w.hub.Fires fired w'.hub) :
    CatchesUp w fired (fired.filterMap fun x => w.hub.beatCall? x.wait.callback) w' := by
  refine ⟨h.now, h.none_due, ?_, ?_, ?_, h.due, h.undue ho, h.length_eq, h.ordered ho⟩
  · intro x hx hdue t generation e y hc hy hstrand hengine
    obtain ⟨z, interval, hz, -, hinterval⟩ := ho.beat hx hc
    cases hy.symm.trans hz
    have hperiod : w.hub.period? x.wait.callback = some interval := by
      simp only [hc, Hub.period?, hy, Option.bind_some, hstrand, hengine, Bool.and_self, if_true,
        hinterval]
    have hcall : w.hub.beatCall? x.wait.callback =
        some ⟨.heartbeat t generation, y.strand, e, .heartbeat⟩ := by
      simp only [hc, Hub.beatCall?, hy, Option.bind_some, hstrand, hengine, Bool.and_self, if_true]
    have hcount : w.hub.firings x = (w.hub.reactor.now - x.deadline) / interval.length + 1 := by
      simp only [Hub.firings, hdue, if_true, hperiod]
    obtain ⟨hseries, next, hleft, hdeadline, hcb⟩ := h.series ho hx hperiod
    rw [hcount] at hseries hdeadline
    refine ⟨interval, hinterval, ?_, hseries, next, hleft, hcb, ?_⟩
    · have hlength := congrArg List.length hseries
      rw [List.length_map, List.length_map, List.length_range] at hlength
      rw [h.filter_calls ho hx hc, hcall, ← hlength, ← List.map_const']
      exact congrFun (List.filterMap_eq_map (f := fun _ => _)) _
    · rw [hdeadline]
      exact isLeast_deadline hdue interval
  · intro x hx hdue t generation e y hc hy hgone
    have hdead : (w.hub.strandAlive y.strand && w.hub.engineAlive e) = false :=
      Bool.and_eq_false_iff.mpr hgone
    have hperiod : w.hub.period? x.wait.callback = none := by
      simp only [hc, Hub.period?, hy, Option.bind_some, hdead, Bool.false_eq_true, if_false]
    have hcall : w.hub.beatCall? x.wait.callback = none := by
      simp only [hc, Hub.beatCall?, hy, Option.bind_some, hdead, Bool.false_eq_true, if_false]
    refine ⟨?_, h.once ho hx hdue hperiod⟩
    rw [h.filter_calls ho hx hc, hcall]
    exact List.filterMap_none _
  · intro x hx hdue tag hc
    exact h.once ho hx hdue (by rw [hc]; rfl)

namespace Config

/-- Completing all due waits ends and catches up. At every point of every run at which no engine is
being called, if the engines have nothing to do in a beat, it runs the callbacks of the waits that
complete one after the other, begins the calls that they lead to, and answers how many they are. -/
theorem exact_catch_up {w : World} {todo : List Op} {entries : List Entry} {log : List Event}
    (hr : Reached ⟨w, ⟨.outside, .fireTimers :: todo, entries⟩, []⟩ log) (hstill : w.Still) :
    ∃ w' fired records steps,
      Trail ⟨w, ⟨.outside, .fireTimers :: todo, entries⟩, []⟩
        ⟨w', ⟨.outside, todo, .mk (.number fired.length) records :: entries⟩, []⟩ steps ∧
      happened steps = (fired.map fun x => w.completed x.wait (.ok ())).reverse ∧
      (∀ x ∈ fired, WasArmed ⟨w, ⟨.outside, .fireTimers :: todo, entries⟩, []⟩ steps x) ∧
      CatchesUp w fired (begun steps).reverse w' := by
  have ho : w.hub.Orderly := hr.orderly rfl
  obtain ⟨w', fired, records, steps, htrail, hfires, hhappened, hbegun, harmed⟩ :=
    @trail_firing w 0 [] ⟨.outside, todo, entries⟩ ho hstill rfl
  have hs : step ⟨w, ⟨.outside, .fireTimers :: todo, entries⟩, []⟩ =
      some ⟨w, ⟨.firing 0 [] none, [], []⟩, [⟨.outside, todo, entries⟩]⟩ := rfl
  have hfirst := Trail.refl.step hs
  rw [Nat.zero_add] at htrail
  refine ⟨w', fired, records, _, hfirst.trans htrail, ?_, fun x hx => (harmed x hx).append hfirst,
    ?_⟩
  · rw [happened_append, hhappened]
    exact List.append_nil _
  · have hnone : begun [((⟨w, ⟨.outside, .fireTimers :: todo, entries⟩, []⟩ : Config),
        ⟨w, ⟨.firing 0 [] none, [], []⟩, [⟨.outside, todo, entries⟩]⟩)] = [] := rfl
    rw [begun_append, hnone, List.append_nil, hbegun, List.reverse_reverse]
    exact catchesUp_of_fires ho hfires

/-- A handler with a heartbeat, a heartbeat on its own, one whose engine is gone, and two waits on
their own, one of which is not due. -/
def missed : List Op :=
  [.newHandler 0, .newEngine 0 ⟨[], [[]], []⟩ false, .newEngine 1 ⟨[], [], []⟩ false, .newStrand 5,
    .newHeartbeat 7 5, .newHeartbeat 8 5, .negotiate 0 0 2, .setHeartbeat 7 0 3,
    .setHeartbeat 8 1 4, .dropEngine 1, .newTimer 9, .armTimer 9 2000 ⟨"soon"⟩, .newTimer 10,
    .armTimer 10 9000 ⟨"later"⟩, .advance 6500, .fireTimers]

/-- The handler beats three times, and the heartbeat on its own twice. -/
theorem exact_catch_up_missed : ∃ (w' : World) (fired : List TimedWait) (records : List Record)
    (steps : List (Config × Config)),
    Trail (sample missed 15).1 ⟨w', ⟨.outside, [], .mk (.number fired.length) records ::
      (sample missed 15).1.frame.entries⟩, []⟩ steps ∧
    fired.length = 7 ∧
    ((begun steps).reverse.filter (·.owner.isHeartbeat 0)).length = 3 ∧
    ((begun steps).reverse.filter (·.owner.isHeartbeat 1)).length = 2 ∧
    (begun steps).reverse.filter (·.owner.isHeartbeat 2) = [] := by
  have hactors : (sample missed 15).1.world.actors =
      [⟨0, false, ⟨[], [[]], []⟩⟩, ⟨1, false, ⟨[], [], []⟩⟩] := rfl
  have hstill : (sample missed 15).1.world.Still := by
    intro actor hmem ops hops
    rw [hactors] at hmem
    rcases List.mem_cons.mp hmem with rfl | hmem
    · exact List.mem_singleton.mp hops
    · rw [List.mem_singleton.mp hmem] at hops
      cases hops
  have hr : Reached ⟨(sample missed 15).1.world,
      ⟨.outside, [.fireTimers], (sample missed 15).1.frame.entries⟩, []⟩ (sample missed 15).2 :=
    reached_sample missed 15
  obtain ⟨w', fired, records, steps, htrail, -, -, hcatches⟩ := exact_catch_up hr hstill
  refine ⟨w', fired, records, steps, htrail, hcatches.count, ?_, ?_, ?_⟩
  · obtain ⟨interval, hinterval, hcalls, -⟩ :=
      hcatches.beats ⟨0, 2000, ⟨0, .beat 0 1 0⟩⟩ (by decide) (by decide) 0 1 0 _ rfl rfl rfl rfl
    cases hinterval
    rw [hcalls, List.length_replicate]
    decide
  · obtain ⟨interval, hinterval, hcalls, -⟩ :=
      hcatches.beats ⟨1, 3000, ⟨1, .beat 1 1 0⟩⟩ (by decide) (by decide) 1 1 0 _ rfl rfl rfl rfl
    cases hinterval
    rw [hcalls, List.length_replicate]
    decide
  · obtain ⟨hcalls, -⟩ := hcatches.gone ⟨2, 4000, ⟨2, .beat 2 1 1⟩⟩ (by decide) (by decide) 2 1 1 _
      rfl rfl (Or.inr rfl)
    exact hcalls

end Config
end Wakeup.Scenario
