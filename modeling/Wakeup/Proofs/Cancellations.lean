import Mathlib.Data.List.Forall2
import Wakeup.Proofs.Answers
import Wakeup.Proofs.Parking
import Wakeup.Proofs.Waits

/-! When parked waits are told that they were cancelled does not matter, nor whether they are told
at all. Two runs of the same operations, of which the second tells or forgets them at will, differ
in nothing but what is parked and what deliveries answer. -/
namespace Wakeup

namespace Hub
variable {hub : Hub Manual} {c : Callback}

/-- A callback whose watcher is gone, if it is for one. -/
def Dull (hub : Hub Manual) (c : Callback) : Prop :=
  ∀ i d, c.claims i d = true → ∀ x, hub.watchers[i]? = some x → x.presence.alive = false

/-- A heartbeat does nothing when its wait is cancelled, and a watcher that is gone never does. -/
theorem begin_of_dull (h : hub.Dull c) : hub.begin c (.error .canceled) = (hub, none) := by
  cases c with
  | ready i d e =>
    simp only [begin, beginReady]
    split
    · rfl
    · rename_i x hx
      have hdead := h i d ((Scenario.claims_ready e i d i d).mpr ⟨rfl, rfl⟩) x hx
      rw [if_neg (by simp [hdead])]
  | beat t generation e =>
    simp only [begin, beginBeat, Verdict.of_canceled]
    repeat' split
    all_goals rfl
  | bare => rfl

end Hub

namespace Scenario

namespace World
variable {w : World}

/-- The waits that were cancelled and not told so. -/
def parked (w : World) : List Wait := w.hub.reactor.parked

/-- A world in which other waits are parked. -/
def withParked (P : List Wait) (w : World) : World :=
  w.modifyReactor fun m => { m with parked := P }

theorem parked_prepark (P : List Wait) (w : World) :
    (w.prepark P).parked = P ++ w.parked := rfl

theorem prepark_withParked (P : List Wait) (w : World) :
    (w.withParked []).prepark P = w.withParked P := by
  simp only [prepark, withParked, modifyReactor, setHub, Hub.prepark, Manual.prepark,
    List.append_nil]

theorem withParked_self (w : World) : w.withParked w.parked = w := rfl

/-- What a delivery of all parked waits answers. -/
def delivery (w : World) : Entry := .told w.parked

/-- Cancellations that only reach what is gone are delivered without a trace. -/
theorem deliverCanceled_of_dull (h : ∀ wait ∈ w.parked, w.hub.Dull wait.callback) :
    w.deliverCanceled = (w.withParked [], w.delivery) := by
  have hfold (waits : List Wait) (v : World) (hv : ∀ wait ∈ waits, v.hub.Dull wait.callback) :
      waits.foldl (fun w wait => w.deliverOne wait) v = v := by
    induction waits with
    | nil => rfl
    | cons wait waits ih =>
      have hone : v.deliverOne wait = v := by
        unfold deliverOne begin
        rw [Hub.begin_of_dull (hv wait List.mem_cons_self)]
        rfl
      rw [List.foldl_cons, hone]
      exact ih fun wait hwait => hv wait (List.mem_cons_of_mem _ hwait)
  exact congrArg (·, _) (hfold w.parked (w.withParked []) h)

private theorem records_delivery (h : ∀ wait ∈ w.parked, ∀ tag, wait.callback ≠ .bare tag) :
    w.delivery.records = [] := by
  refine List.flatMap_eq_nil_iff.mpr fun wait hwait => ?_
  unfold bareRecords
  split
  · rename_i tag hbare
    exact absurd hbare (h wait hwait tag)
  · rfl

theorem perform_deliver (h : ∀ wait ∈ w.parked, w.hub.Dull wait.callback) :
    w.perform .deliverCanceled = (w.withParked [], .ended w.delivery) := by
  unfold perform
  dsimp only
  rw [deliverCanceled_of_dull h]

end World

namespace Activity.Interspersed
variable {a b : Activity}

private theorem call?_eq (h : a.Interspersed b) : b.call? = a.call? := by
  cases h with
  | firing count current => cases current <;> rfl
  | _ => rfl

end Activity.Interspersed

namespace Config

/-- A configuration in which the parked waits are to be told next. -/
def delivering (c : Config) : Config :=
  { c with frame := { c.frame with todo := .deliverCanceled :: c.frame.todo } }

/-- The next step, without what a delivery answers. -/
def stepSilently (c : Config) : Option Config :=
  match c.frame.todo with
  | .deliverCanceled :: todo =>
    some ⟨(c.world.perform .deliverCanceled).1, { c.frame with todo := todo }, c.below⟩
  | _ => c.step

private theorem stepSilently_eq_step {c : Config} (h : c.frame.todo.head? ≠ some .deliverCanceled) :
    c.stepSilently = c.step := by
  unfold stepSilently
  split
  · rename_i htodo
    exact absurd (congrArg List.head? htodo) h
  · rfl

/-- A configuration that differs from a silent one in nothing but what is parked, of which it has no
more, and in answers of deliveries. -/
structure Follows (q x : Config) : Prop where
  world : x.world.withParked [] = q.world.withParked []
  parked : x.world.parked.Sublist q.world.parked
  frame : q.frame.Interspersed x.frame
  below : List.Forall₂ Frame.Interspersed q.below x.below

/-- Pairs of runs of the same operations in an empty world, of which the second tells parked waits
that they were cancelled, or throws some of them away, whenever it likes. Beside them goes the first
run with the answers of its deliveries left out. -/
inductive Lockstep : Config → Config → Config → Prop
  | start (ops : List Op) :
    Lockstep (({} : World).start ops) (({} : World).start ops) (({} : World).start ops)
  | step {q q' c c' d d' : Config} (h : Lockstep q c d) (hq : q.stepSilently = some q')
    (hc : c.step = some c') (hd : d.step = some d') : Lockstep q' c' d'
  | more {q c d : Config} (ops : List Op) (h : Lockstep q c d) (hc : c.step = none)
    (hd : d.step = none) : Lockstep (q.world.start ops) (c.world.start ops) (d.world.start ops)
  | deliver {q c d d' : Config} (h : Lockstep q c d) (hd : d.delivering.step = some d') :
    Lockstep q c d'
  | drop {q c d : Config} {P : List Wait} (h : Lockstep q c d) (hP : P.Sublist d.world.parked) :
    Lockstep q c { d with world := d.world.withParked P }

namespace Follows
variable {q x : Config}

theorem refl (q : Config) : Follows q q :=
  ⟨rfl, List.Sublist.refl _, .refl _, List.forall₂_same.mpr fun f _ => .refl f⟩

/-- Both worlds come from one in which nothing is parked. -/
theorem exists_prepark (h : Follows q x) : ∃ w : World, w.parked = [] ∧
    q.world = w.prepark q.world.parked ∧ x.world = w.prepark x.world.parked := by
  refine ⟨q.world.withParked [], rfl, ?_, ?_⟩
  · rw [World.prepark_withParked, World.withParked_self]
  · rw [← h.world, World.prepark_withParked, World.withParked_self]

private theorem calls_eq (h : Follows q x) : x.calls = q.calls := by
  have hframes {fs gs : List Frame} (h : List.Forall₂ Frame.Interspersed fs gs) :
      gs.filterMap (·.activity.call?) = fs.filterMap (·.activity.call?) := by
    induction h with
    | nil => rfl
    | cons hf _ ih => rw [List.filterMap_cons, List.filterMap_cons, hf.activity.call?_eq, ih]
  exact hframes (.cons h.frame h.below)

/-- An operation that is no delivery leads to the same. -/
theorem effect_eq (h : Follows q x) {op : Op} (hop : op ≠ .deliverCanceled) :
    (x.world.perform op).2 = (q.world.perform op).2 := by
  obtain ⟨w, -, hq, hx⟩ := h.exists_prepark
  rw [hq, hx, World.prepark_perform _ _ hop, World.prepark_perform _ _ hop]
  rfl

theorem dull (h : Follows q x) (hq : ∀ wait ∈ q.world.parked, q.world.hub.Dull wait.callback) :
    ∀ wait ∈ x.world.parked, x.world.hub.Dull wait.callback := by
  have hwatchers := congrArg (fun w : World => w.hub.watchers) h.world
  change x.world.hub.watchers = q.world.hub.watchers at hwatchers
  intro wait hwait i dir hclaims
  rw [hwatchers]
  exact hq wait (h.parked.subset hwait) i dir hclaims

section Steps
variable {P Q : List Wait} {fs gs : List Frame}

/-- What follows from a world in which other waits were parked before. If they were the same, so are
the worlds. -/
theorem of_prepark (hQ : Q.Sublist P) (w : World) {f g : Frame} (hf : f.Interspersed g)
    (hfs : List.Forall₂ Frame.Interspersed fs gs) :
    Follows ⟨w.prepark P, f, fs⟩ ⟨w.prepark Q, g, gs⟩ ∧ (Q = P → w.prepark Q = w.prepark P) :=
  ⟨⟨rfl, hQ.append_right _, hf, hfs⟩, congrArg (w.prepark ·)⟩

/-- Both close a frame or both have none to close. -/
theorem close (hQ : Q.Sublist P) (w : World) {e e' : Entry} (he : Entry.Interspersed [e] [e'])
    (hfs : List.Forall₂ Frame.Interspersed fs gs) :
    Option.Rel (fun q' x' => Follows q' x' ∧ (Q = P → x'.world = q'.world))
      (Config.close (w.prepark P) e fs) (Config.close (w.prepark Q) e' gs) := by
  cases hfs with
  | nil => exact .none
  | cons hf hfs => exact .some (of_prepark hQ w (hf.push he) hfs)

/-- Both complete the same due wait, or both find none and close. -/
theorem fire (hQ : Q.Sublist P) (w : World) (count : Nat) {rs rs' : List Record}
    (hr : Record.Interspersed rs rs') (hfs : List.Forall₂ Frame.Interspersed fs gs) :
    Option.Rel (fun q' x' => Follows q' x' ∧ (Q = P → x'.world = q'.world))
      (Config.fire (w.prepark P) count rs fs) (Config.fire (w.prepark Q) count rs' gs) := by
  have hdue (P : List Wait) : (w.prepark P).hub.reactor.takeDue =
      w.hub.reactor.takeDue.map (Prod.map id (Manual.prepark P)) := Manual.prepark_takeDue P _
  unfold Config.fire
  rw [hdue, hdue]
  cases w.hub.reactor.takeDue with
  | none => exact close hQ w (.cons _ hr.reverse .nil) hfs
  | some taken =>
    obtain ⟨wait, m⟩ := taken
    have hbegin (P : List Wait) :
        ((w.prepark P).modifyReactor fun _ => m.prepark P).begin wait (.ok ()) =
          Prod.map (World.prepark P) id ((w.modifyReactor fun _ => m).begin wait (.ok ())) :=
      World.prepark_begin P (w.modifyReactor fun _ => m) wait (.ok ())
    simp only [Option.map_some, Prod.map, id]
    rw [hbegin, hbegin]
    cases (w.modifyReactor fun _ => m).begin wait (.ok ()) with
    | mk w' call =>
      cases call with
      | none =>
        have hfiring := Activity.Interspersed.firing (count + 1) none
          ((Record.Interspersed.refl (World.bareRecords wait.callback (.ok ()))).append hr)
        exact .some (of_prepark hQ w' ⟨hfiring, rfl, .nil⟩ hfs)
      | some call =>
        simp only [Prod.map, id, World.prepark_cue]
        exact .some (of_prepark hQ (w'.cue call).1 ⟨.firing count _ hr, rfl, .nil⟩ hfs)

/-- Both do the same step, and the one goes on following the other. -/
theorem step (h : Follows q x)
    (hdull : ∀ wait ∈ q.world.parked, q.world.hub.Dull wait.callback) :
    Option.Rel
      (fun q' x' => Follows q' x' ∧
        (x.world.parked = q.world.parked → x'.world = q'.world))
      q.stepSilently x.step := by
  obtain ⟨w, hw, hqw, hxw⟩ := h.exists_prepark
  obtain ⟨v, ⟨a, todo, es⟩, fs⟩ := q
  obtain ⟨v', ⟨a', todo', es'⟩, gs⟩ := x
  obtain ⟨-, hQ, ⟨ha, rfl, hes⟩, hfs⟩ := h
  dsimp only at hqw hxw hQ hfs hdull ha hes ⊢
  generalize v.parked = P at *
  generalize v'.parked = Q at *
  subst hqw hxw
  cases todo' with
  | cons op todo =>
    by_cases hop : op = .deliverCanceled
    · subst hop
      have hparked (P : List Wait) : (w.prepark P).parked = P := by
        rw [World.parked_prepark, hw, List.append_nil]
      unfold stepSilently Config.step
      dsimp only
      rw [World.perform_deliver (w := w.prepark P) (by rwa [hparked]),
        World.perform_deliver (w := w.prepark Q) (by
          rw [hparked]
          exact fun wait hwait => hdull wait (hQ.subset hwait))]
      have hf : Frame.Interspersed ⟨a, todo, es⟩ ⟨a', todo, es'⟩ := ⟨ha, rfl, hes⟩
      exact .some ⟨⟨rfl, List.Sublist.refl _, hf.pushTold _, hfs⟩, fun _ => rfl⟩
    · rw [stepSilently_eq_step (by simpa using hop)]
      unfold Config.step
      dsimp only
      rw [World.prepark_perform P w hop, World.prepark_perform Q w hop]
      have hf : Frame.Interspersed ⟨a, todo, es⟩ ⟨a', todo, es'⟩ := ⟨ha, rfl, hes⟩
      cases w.perform op with
      | mk w' effect =>
        cases effect with
        | ended entry => exact .some (of_prepark hQ w' (hf.push (.refl [entry])) hfs)
        | opened activity ops => exact .some (of_prepark hQ w' (.refl _) (.cons hf hfs))
  | nil =>
    unfold stepSilently Config.step
    cases ha with
    | outside => exact .none
    | inside s =>
      dsimp only
      rw [World.prepark_leaveDispatch, World.prepark_leaveDispatch]
      exact close hQ _ (.inside hes.reverse .nil) hfs
    | completion cue reply =>
      dsimp only
      rw [World.prepark_finishCall, World.prepark_finishCall]
      exact close hQ _ (.cons reply (hes.callRecords cue w) .nil) hfs
    | firing count current hr =>
      cases current with
      | none => exact fire hQ w count hr hfs
      | some cue =>
        dsimp only
        rw [World.prepark_finishCall, World.prepark_finishCall]
        exact .some (of_prepark hQ _
          ⟨.firing (count + 1) none ((hes.callRecords cue w).append hr), rfl, .nil⟩ hfs)

private theorem step_eq_none_iff (h : Follows q x)
    (hdull : ∀ wait ∈ q.world.parked, q.world.hub.Dull wait.callback) :
    x.step = none ↔ q.stepSilently = none := by
  have hstep := h.step hdull
  generalize q.stepSilently = a at *
  generalize x.step = b at *
  cases hstep with
  | none => exact iff_of_true rfl rfl
  | some _ => exact iff_of_false (Option.some_ne_none _) (Option.some_ne_none _)

end Steps
end Follows

/-- The waits that are parked at a point of a run are for watchers that are gone, or for heartbeats,
which do nothing then. -/
theorem Reached.dull {c : Config} {log : List Event} (h : Reached c log) :
    ∀ wait ∈ c.world.parked, c.world.hub.Dull wait.callback := by
  intro wait hwait i d hclaims x hx
  obtain ⟨p, hp, hdead⟩ := h.waits.parked wait hwait i d hclaims
  cases (Hub.posts_of_getElem? hx).symm.trans hp
  exact hdead

theorem step_delivering {c : Config}
    (h : ∀ wait ∈ c.world.parked, c.world.hub.Dull wait.callback) :
    c.delivering.step = some
      { c with world := c.world.withParked [], frame := c.frame.push c.world.delivery } := by
  unfold step delivering
  dsimp only
  rw [World.perform_deliver h]

namespace Lockstep
variable {q c d : Config}

private theorem reached (h : Lockstep q c d) : ∃ log, Reached c log := by
  induction h with
  | start ops => exact ⟨[], ops, .refl⟩
  | step _ _ hc _ ih =>
    obtain ⟨log, hr⟩ := ih
    exact ⟨_, hr.step hc⟩
  | more ops _ hc _ ih =>
    obtain ⟨log, ops₀, hr⟩ := ih
    exact ⟨log, ops₀, hr.more ops hc⟩
  | deliver _ _ ih => exact ih
  | drop _ _ ih => exact ih

theorem dull (h : Lockstep q c d) :
    ∀ wait ∈ c.world.parked, c.world.hub.Dull wait.callback := by
  obtain ⟨log, hr⟩ := h.reached
  exact hr.dull

/-- Both runs follow the silent one, and the first has its world. -/
theorem follows (h : Lockstep q c d) : Follows q c ∧ c.world = q.world ∧ Follows q d := by
  induction h with
  | start => exact ⟨.refl _, rfl, .refl _⟩
  | @step q q' c c' d d' h hq hc hd ih =>
    obtain ⟨hqc, hworld, hqd⟩ := ih
    have hdull := h.dull
    rw [hworld] at hdull
    have hfirst := hqc.step hdull
    have hsecond := hqd.step hdull
    rw [hq, hc] at hfirst
    rw [hq, hd] at hsecond
    cases hfirst with
    | some hfirst =>
      cases hsecond with
      | some hsecond => exact ⟨hfirst.1, hfirst.2 (congrArg _ hworld), hsecond.1⟩
  | more ops _ _ _ ih =>
    obtain ⟨hqc, hworld, hqd⟩ := ih
    exact ⟨⟨hqc.world, hqc.parked, .refl _, .nil⟩, hworld, hqd.world, hqd.parked, .refl _, .nil⟩
  | deliver h hd ih =>
    obtain ⟨hqc, hworld, hqd⟩ := ih
    have hdull := h.dull
    rw [hworld] at hdull
    rw [step_delivering (hqd.dull hdull)] at hd
    cases hd
    exact ⟨hqc, hworld, hqd.world, List.nil_sublist _, hqd.frame.pushTold _, hqd.below⟩
  | drop _ hP ih =>
    obtain ⟨hqc, hworld, hqd⟩ := ih
    exact ⟨hqc, hworld, hqd.world, hP.trans hqd.parked, hqd.frame, hqd.below⟩

/-- Two runs of the same operations make the same calls of engines and get the same answers, those
of calls and dispatches in progress included, whenever parked waits are told of their cancellation,
and whether or not they are. Only answers of deliveries differ: the answers of each run are those of
the silent run with these in between. An additional delivery calls no engine and changes nothing but
what is parked. -/
theorem delivery_immaterial (h : Lockstep q c d) :
    Follows q c ∧ c.world = q.world ∧ Follows q d ∧ d.calls = c.calls ∧
      (d.step = none ↔ c.step = none) ∧
      (∀ op, op ≠ .deliverCanceled → (d.world.perform op).2 = (c.world.perform op).2) ∧
      (∀ e ∈ [c, d], e.world.perform .deliverCanceled =
          (e.world.withParked [], .ended e.world.delivery) ∧
        e.delivering.step = some
          { e with world := e.world.withParked [], frame := e.frame.push e.world.delivery }) ∧
      ((∀ wait ∈ c.world.parked, ∀ tag, wait.callback ≠ .bare tag) →
        c.world.delivery.records = [] ∧ d.world.delivery.records = []) := by
  obtain ⟨hqc, hworld, hqd⟩ := h.follows
  have hdull := h.dull
  rw [hworld] at hdull
  refine ⟨hqc, hworld, hqd, hqd.calls_eq.trans hqc.calls_eq.symm, ?_, fun op hop => ?_, ?_,
    fun hplain => ?_⟩
  · exact (hqd.step_eq_none_iff hdull).trans (hqc.step_eq_none_iff hdull).symm
  · rw [hqd.effect_eq hop, hworld]
  · intro e he
    have hdull : ∀ wait ∈ e.world.parked, e.world.hub.Dull wait.callback := by
      rcases List.mem_pair.mp he with rfl | rfl
      · exact h.dull
      · exact hqd.dull hdull
    exact ⟨World.perform_deliver hdull, step_delivering hdull⟩
  · rw [hworld] at hplain ⊢
    exact ⟨World.records_delivery hplain, World.records_delivery fun wait hwait =>
      hplain wait (hqd.parked.subset hwait)⟩

/-- A descriptor is watched and given up while another one is. The engine asks something when it is
told of readiness. -/
def withdrawn : List Op :=
  [.newHandler 0, .newEngine 0 { process := [[.busy 0]] } false,
    .monitor 0 0 5 (Events.ofDirection .read), .monitor 0 0 6 (Events.ofDirection .write),
    .monitor 0 0 6 (.ofSides (.both false)), .complete 5 .read (.ok ())]

/-- The wait that was given up is told so in one of the runs only, inside a call of the engine. Both
runs report the call, with an answer more in the second. -/
theorem delivery_immaterial_withdrawn : ∃ q c d, Lockstep q c d ∧
    c.world.parked.length = 1 ∧ d.world.parked.length = 0 ∧
    c.frame.entries.head? = some (.mk (.flag true)
      [.call 0 (.process 5 (Events.ofDirection .read)) (some [.mk (.flag true) []])]) ∧
    d.frame.entries.head? = some (.mk (.flag true)
      [.call 0 (.process 5 (Events.ofDirection .read))
        (some [.mk (.number 1) [], .mk (.flag true) []])]) ∧
    Follows q d := by
  have hstep (n : Nat)
      (hs : (sample withdrawn n).1.stepSilently = some (sample withdrawn (n + 1)).1)
      (h : (sample withdrawn n).1.step = some (sample withdrawn (n + 1)).1)
      (hn : Lockstep (sample withdrawn n).1 (sample withdrawn n).1 (sample withdrawn n).1) :
      Lockstep (sample withdrawn (n + 1)).1 (sample withdrawn (n + 1)).1
        (sample withdrawn (n + 1)).1 := hn.step hs h h
  have h₅ := hstep 4 rfl rfl (hstep 3 rfl rfl (hstep 2 rfl rfl (hstep 1 rfl rfl
    (hstep 0 rfl rfl (.start withdrawn)))))
  have h₆ := hstep 5 rfl rfl h₅
  have hdelivery := (h₆.delivery_immaterial.2.2.2.2.2.2.1 _ List.mem_cons_self).2
  have h₈ := ((h₆.deliver hdelivery).step rfl rfl rfl).step rfl rfl rfl
  exact ⟨_, _, _, h₈, rfl, rfl, rfl, rfl, h₈.delivery_immaterial.2.2.1⟩

end Lockstep
end Config
end Scenario
end Wakeup
