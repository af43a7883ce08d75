import Wakeup.Proofs.Projections

/-! Operations that concern no descriptor. What comes of heartbeats and of parked waits shows in
none, and engines show in all of them alike. -/
namespace Wakeup.Scenario

/-- No descriptor shows that anything happened. -/
structure Quiet (w v : World) : Prop where
  front : v.hub.front = w.hub.front
  present : v.hub.engines = w.hub.engines
  index : ∀ fd, v.index fd = w.index fd
  slots : v.slots = w.slots
  names : v.engines = w.engines
  cast : v.actors.map (fun a => (a.name, a.plain)) = w.actors.map fun a => (a.name, a.plain)
  idle : (∀ actor ∈ w.actors, actor.script.Idle) → ∀ actor ∈ v.actors, actor.script.Idle
  handler : (∃ h, w.handlers = (∅ : Table Handler).insert 0 h) →
    ∃ h, v.handlers = (∅ : Table Handler).insert 0 h
  watchers : v.watchers = w.watchers
  registrations : v.registrations = w.registrations
  replaced : v.replaced = w.replaced

namespace Quiet
variable {σ : Int → Option Fd} {fd : Fd} {u w v : World}

theorem refl (w : World) : Quiet w w :=
  ⟨rfl, rfl, fun _ => rfl, rfl, rfl, rfl, id, id, rfl, rfl, rfl⟩

theorem trans (h : Quiet u w) (h' : Quiet w v) : Quiet u v where
  front := h'.front.trans h.front
  present := h'.present.trans h.present
  index := fun fd => (h'.index fd).trans (h.index fd)
  slots := h'.slots.trans h.slots
  names := h'.names.trans h.names
  cast := h'.cast.trans h.cast
  idle := h'.idle ∘ h.idle
  handler := h'.handler ∘ h.handler
  watchers := h'.watchers.trans h.watchers
  registrations := h'.registrations.trans h.registrations
  replaced := h'.replaced.trans h.replaced

theorem of_hub {hub : Hub Manual} (hfront : hub.front = w.hub.front)
    (hpresent : hub.engines = w.hub.engines) (heartbeats : Table Nat) :
    Quiet w { w with hub := hub, heartbeats := heartbeats } :=
  ⟨hfront, hpresent, fun _ => rfl, rfl, rfl, rfl, id, id, rfl, rfl, rfl⟩

/-- The handler is replaced by one with the same watchers. -/
theorem of_handler (hw : Lone σ w) {h h' : Handler} {n : Int} (hh : w.handlers.get? n = some h)
    (hwatchers : h'.watchers = h.watchers) {hub : Hub Manual} (hfront : hub.front = w.hub.front)
    (hpresent : hub.engines = w.hub.engines) :
    Quiet w { w with hub := hub, handlers := w.handlers.insert n h' } := by
  obtain ⟨g, hg⟩ := hw.handler
  rw [get?_handlers hg] at hh
  split at hh
  · rename_i hn
    subst hn
    cases hh
    refine ⟨hfront, hpresent, fun fd => ?_, rfl, rfl, rfl, id, fun _ => ⟨h', insert_handlers hg⟩,
      rfl, rfl, rfl⟩
    rw [Rests.index_eq hg, ← hwatchers]
    exact index_answered hg h' hub fd
  · cases hh

theorem lone (h : Quiet w v) (hw : Lone σ w) : Lone σ v where
  handler := h.handler hw.handler
  watchers := h.watchers.trans hw.watchers
  registrations := h.registrations.trans hw.registrations
  replaced := h.replaced.trans hw.replaced
  idle := h.idle hw.idle
  slots := by
    intro slot wait hwait
    rw [h.slots] at hwait
    obtain ⟨i, d, e, fd, hc, hσ, hfd⟩ := hw.slots hwait
    refine ⟨i, d, e, fd, hc, hσ, ?_⟩
    have hwatchers : v.hub.watchers = w.hub.watchers := congrArg Prod.fst h.front
    obtain ⟨x, hx, rfl⟩ := Hub.exists_of_fdOf? hfd
    rw [← hwatchers] at hx
    exact Hub.fdOf?_of_getElem? hx

private theorem view (h : Quiet w v) (σ : Int → Option Fd) (fd : Fd) :
    v.view σ fd = w.view σ fd := by
  rw [view_of_scene (h.index fd) h.slots h.present h.names h.cast, Hub.scene_of_front h.front]
  rfl

theorem shown (h : Quiet w v) {op : Op} (hn : op.names σ = none)
    (hp : ∀ V : View, V.perform fd op = (V, .done, [])) {entry : Entry}
    (htold : entry.records.filterMap (Record.told? fd) = []) : Shown σ fd op w v entry := by
  refine .of_none hn ?_ ?_
  · rw [hp]
    exact h.view σ fd
  · rw [hp]
    exact htold

end Quiet

section Heartbeats
variable {σ : Int → Option Fd} {w : World}

theorem ask_fst (w : World) (n : Int) (f : Handler → Reply) : (w.ask n f).1 = w := by
  unfold World.ask
  split <;> rfl

theorem quiet_ask (w : World) (n : Int) (f : Handler → Reply) : Quiet w (w.ask n f).1 := by
  rw [ask_fst]
  exact .refl w

theorem quiet_negotiate (hw : Lone σ w) (n e : Int) (seconds : Nat) :
    Quiet w (w.negotiate n e seconds).1 := by
  have hleaves (h : Handler) (e : Nat) : (h.negotiate e seconds w.hub).2.1.watchers = h.watchers ∧
      (h.negotiate e seconds w.hub).2.2.front = w.hub.front ∧
      (h.negotiate e seconds w.hub).2.2.engines = w.hub.engines := by
    unfold Handler.negotiate
    split
    · exact ⟨rfl, rfl, rfl⟩
    · split
      · exact ⟨rfl, Hub.front_setHeartbeat w.hub _ e _, Hub.engines_setHeartbeat w.hub _ e _⟩
      · exact ⟨rfl, Hub.front_setHeartbeat _ _ e _, Hub.engines_setHeartbeat _ _ e _⟩
  unfold World.negotiate
  split
  · rename_i engine h he hh
    obtain ⟨hwatchers, hfront, hpresent⟩ := hleaves h engine
    exact .of_handler hw hh hwatchers hfront hpresent
  · exact .refl w

theorem quiet_close (hw : Lone σ w) (n e : Int) : Quiet w (w.close n e).1 := by
  have hleaves (h : Handler) : (h.close w.hub).1.watchers = h.watchers ∧
      (h.close w.hub).2.front = w.hub.front ∧ (h.close w.hub).2.engines = w.hub.engines := by
    unfold Handler.close
    split
    · exact ⟨rfl, rfl, rfl⟩
    · exact ⟨rfl, (Hub.front_dropHeartbeat _ _).trans (Hub.front_stopHeartbeat w.hub _),
        (Hub.engines_dropHeartbeat _ _).trans (Hub.engines_stopHeartbeat w.hub _)⟩
  unfold World.close
  split
  · rename_i engine h he hh
    obtain ⟨hwatchers, hfront, hpresent⟩ := hleaves h
    exact .of_handler hw hh hwatchers hfront hpresent
  · exact .refl w

theorem quiet_newHeartbeat (w : World) (t s : Int) : Quiet w (w.newHeartbeat t s).1 := by
  unfold World.newHeartbeat
  split
  · exact .refl w
  · rename_i strand _
    have hnew : (w.hub.newHeartbeat strand).2.front = w.hub.front := rfl
    cases w.heartbeats.get? t with
    | none => exact .of_hub hnew rfl _
    | some old =>
      exact .of_hub ((Hub.front_dropHeartbeat _ old).trans hnew)
        (Hub.engines_dropHeartbeat (w.hub.newHeartbeat strand).2 old) _

theorem quiet_setHeartbeat (w : World) (t e : Int) (seconds : Nat) :
    Quiet w (w.setHeartbeat t e seconds).1 := by
  unfold World.setHeartbeat
  split
  · exact .of_hub (Hub.front_setHeartbeat w.hub _ _ _) (Hub.engines_setHeartbeat w.hub _ _ _) _
  · exact .refl w

theorem quiet_stopHeartbeat (w : World) (t : Int) : Quiet w (w.stopHeartbeat t).1 := by
  unfold World.stopHeartbeat
  split
  · exact .refl w
  · exact .of_hub (Hub.front_stopHeartbeat w.hub _) (Hub.engines_stopHeartbeat w.hub _) _

theorem quiet_viewHeartbeat (w : World) (t : Int) : Quiet w (w.viewHeartbeat t).1 := by
  unfold World.viewHeartbeat
  split <;> exact .refl w

theorem quiet_dropHeartbeat (w : World) (t : Int) : Quiet w (w.dropHeartbeat t).1 := by
  unfold World.dropHeartbeat
  split
  · exact .refl w
  · exact .of_hub (Hub.front_dropHeartbeat w.hub _) (Hub.engines_dropHeartbeat w.hub _) _

theorem quiet_modifyReactor {f : Manual → Manual}
    (hf : ({ w.hub with reactor := f w.hub.reactor } : Hub Manual).front = w.hub.front) :
    Quiet w (w.modifyReactor f) :=
  .of_hub hf rfl _

theorem quiet_extendScript (w : World) (e : Int) {s : Script Op} (hs : s.Idle) :
    Quiet w (w.extendScript e s).1 := by
  unfold World.extendScript
  split
  · exact .refl w
  · rename_i i _
    have hidle (h : ∀ actor ∈ w.actors, actor.script.Idle) :
        ∀ actor ∈ w.actors.modify i fun a => { a with script := a.script.append s },
          actor.script.Idle := by
      intro actor hmem
      obtain ⟨j, hj⟩ := List.mem_iff_getElem?.mp hmem
      rw [List.getElem?_modify] at hj
      obtain ⟨a, ha, rfl⟩ := Option.map_eq_some_iff.mp hj
      have ha' := h a (List.mem_of_getElem? ha)
      split
      · exact ha'.append hs
      · exact ha'
    exact ⟨rfl, rfl, fun _ => rfl, rfl, rfl, map_modify_of_eq _ _ _ _ fun _ => rfl, hidle, id, rfl,
      rfl, rfl⟩

end Heartbeats

section Timed
variable {w : World}

/-- What is told of a wait that is for no watcher. -/
theorem quiet_settle (hidle : ∀ actor ∈ w.actors, actor.script.Idle) {wait : Wait}
    (hwait : wait.Idle) (o : Outcome) :
    Quiet w (w.settle wait o).1 ∧
      ∀ fd, (w.settle wait o).2.filterMap (Record.told? fd) = [] := by
  obtain ⟨actors, hrecast, hworld, htold⟩ := World.settle_idle hidle wait o
  have hthrough : (w.hub.through wait.callback o).1.front = w.hub.front ∧
      ∀ call ∈ (w.hub.through wait.callback o).2, call.notice.fd? = none := by
    cases hc : wait.callback with
    | ready i d e =>
      have hclaims := hwait i d
      rw [hc] at hclaims
      simp [Callback.claims] at hclaims
    | beat t generation e => exact Hub.through_beat w.hub t generation e o
    | bare tag => exact ⟨rfl, fun _ h => absurd h (Option.not_mem_none _)⟩
  refine ⟨?_, fun fd => ?_⟩
  · rw [hworld]
    exact ⟨hthrough.1, Hub.engines_through w.hub wait.callback o, fun _ => rfl, rfl, rfl,
      hrecast.cast, fun _ => hrecast.idle, id, rfl, rfl, rfl⟩
  · rw [htold, List.flatMap_eq_nil_iff]
    intro call hcall
    rw [hthrough.2 call (Option.mem_toList.mp hcall)]
    exact if_neg (Option.some_ne_none fd).symm

namespace Config

/-- The next due wait is completed: in one step, or in two if an engine is called. -/
theorem step_fire {n : Nat} {records : List Record} {f : Frame} {wait : Wait} {m : Manual}
    {c' : Config} (hmute : (w.modifyReactor fun _ => m).Mute wait (.ok ()))
    (hdue : w.hub.reactor.takeDue = some (wait, m))
    (hc : c' = ⟨((w.modifyReactor fun _ => m).settle wait (.ok ())).1,
      ⟨.firing (n + 1) (((w.modifyReactor fun _ => m).settle wait (.ok ())).2 ++ records) none,
        [], []⟩, [f]⟩) :
    ((w.modifyReactor fun _ => m).begin wait (.ok ())).2 = none ∧
        step ⟨w, ⟨.firing n records none, [], []⟩, [f]⟩ = some c' ∨
      ∃ v cue, ((w.modifyReactor fun _ => m).begin wait (.ok ())).2 = some cue.call ∧
        step ⟨w, ⟨.firing n records none, [], []⟩, [f]⟩ =
          some ⟨v, ⟨.firing n records (some cue), [], []⟩, [f]⟩ ∧
        step ⟨v, ⟨.firing n records (some cue), [], []⟩, [f]⟩ = some c' := by
  subst hc
  unfold World.settle
  cases hbegin : (w.modifyReactor fun _ => m).begin wait (.ok ()) with
  | mk v call? =>
    cases call? with
    | none =>
      refine Or.inl ⟨rfl, ?_⟩
      unfold step fire
      simp only [hdue]
      rw [hbegin]
    | some call =>
      obtain ⟨hcall, hops⟩ := World.cue_of_mute hmute hbegin
      refine Or.inr ⟨(v.cue call).1, (v.cue call).2, by rw [hcall], ?_, ?_⟩
      · unfold step fire
        simp only [hdue]
        rw [hbegin]
        dsimp only
        rw [hops]
      · unfold step
        dsimp only
        rw [hcall]

/-- All due waits are completed, whatever is left to do after them. -/
theorem steps_firing {n : Nat} {records : List Record} {g : Frame} {log : List Event}
    (hr : Reached ⟨w, ⟨.firing n records none, [], []⟩, [g]⟩ log)
    (hidle : ∀ actor ∈ w.actors, actor.script.Idle)
    (htold : ∀ fd, records.filterMap (Record.told? fd) = []) :
    ∃ v entry, (∀ f, Steps ⟨w, ⟨.firing n records none, [], []⟩, [f]⟩ ⟨v, f.push entry, []⟩) ∧
      Quiet w v ∧ ∀ fd, entry.records.filterMap (Record.told? fd) = [] := by
  -- the steps of one completion make the run shorter that is left
  induction hc : (⟨w, ⟨.firing n records none, [], []⟩, [g]⟩ : Config)
    using before_wellFounded.transGen.induction generalizing w n records log with
  | _ c ih =>
    subst hc
    cases hdue : w.hub.reactor.takeDue with
    | none =>
      refine ⟨w, .mk (.number n) records.reverse, fun f => .single ?_, .refl w, fun fd => ?_⟩
      · unfold step fire
        simp only [hdue]
        rfl
      · rw [Entry.records, List.filterMap_reverse, htold, List.reverse_nil]
    | some due =>
      obtain ⟨wait, m⟩ := due
      let w' := w.modifyReactor fun _ => m
      have hidle' : wait.Idle := by
        obtain ⟨deadline, ht⟩ := Manual.takeTimed_of_takeDue hdue
        obtain ⟨x, ts, rfl, hperm, -⟩ := Manual.takeTimed_some ht
        exact hr.waits.timed x (hperm.mem_iff.mpr List.mem_cons_self)
      have hfront : Quiet w w' := by
        obtain ⟨deadline, ht⟩ := Manual.takeTimed_of_takeDue hdue
        obtain ⟨x, ts, -, -, rfl⟩ := Manual.takeTimed_some ht
        exact quiet_modifyReactor rfl
      obtain ⟨hquiet, htold'⟩ := quiet_settle (w := w') hidle hidle' (.ok ())
      have hmute := World.mute_of_idle (w := w') hidle wait (.ok ())
      have hsteps (f : Frame) : Relation.TransGen (fun c c' : Config => c.step = some c')
          ⟨w, ⟨.firing n records none, [], []⟩, [f]⟩ ⟨(w'.settle wait (.ok ())).1,
            ⟨.firing (n + 1) ((w'.settle wait (.ok ())).2 ++ records) none, [], []⟩, [f]⟩ := by
        rcases step_fire hmute hdue rfl with ⟨-, hs⟩ | ⟨v, cue, -, hs, hs'⟩
        · exact .single hs
        · exact .head hs (.single hs')
      obtain ⟨log', hr'⟩ := Steps.reached (hsteps g).to_reflTransGen hr
      have hbefore := Relation.TransGen.mono (fun _ _ h => before_of_step h) _ _ (hsteps g).swap
      obtain ⟨v, entry, hrest, hquiet', htold''⟩ := ih _ hbefore hr' (hquiet.idle hidle)
        (fun fd => by rw [List.filterMap_append, htold', htold, List.append_nil]) rfl
      exact ⟨v, entry, fun f => (hsteps f).to_reflTransGen.trans (hrest f),
        (hfront.trans hquiet).trans hquiet', htold''⟩

end Config

/-- All parked waits are told that they were cancelled. -/
theorem quiet_delivery (h : ∀ wait ∈ w.parked, w.hub.Dull wait.callback) :
    w.perform .deliverCanceled = (w.withParked [], .ended w.delivery) ∧ Quiet w (w.withParked []) ∧
      ∀ fd, w.delivery.records.filterMap (Record.told? fd) = [] := by
  refine ⟨World.perform_deliver h, quiet_modifyReactor rfl, fun fd => ?_⟩
  rw [List.filterMap_eq_nil_iff]
  intro record hrecord
  obtain ⟨wait, -, hrecord⟩ := List.mem_flatMap.mp hrecord
  unfold World.bareRecords at hrecord
  split at hrecord
  · rw [List.mem_singleton.mp hrecord]
    rfl
  · cases hrecord

end Timed

section Engines
variable {σ : Int → Option Fd} {fd : Fd}

theorem shown_newEngine (w : World) (name : Int) (s : Script Op) (plain : Bool) :
    Shown σ fd (.newEngine name s plain) w (w.newEngine name s plain) (.mk .done []) := by
  refine .of_none rfl ?_ rfl
  unfold View.perform View.newEngine World.newEngine World.view
  dsimp only
  cases w.engines.get? name with
  | none => simp only [List.map_append, List.map_cons, List.map_nil]; rfl
  | some old => simp only [List.map_append, List.map_cons, List.map_nil]; rfl

theorem shown_dropEngine (w : World) (name : Int) :
    Shown σ fd (.dropEngine name) w (w.dropEngine name).1 (.mk (w.dropEngine name).2 []) := by
  unfold World.dropEngine
  have hnames : (w.view σ fd).names = w.engines := rfl
  cases he : w.engines.get? name with
  | none =>
    refine .of_none rfl ?_ ?_
    · simp only [View.perform, hnames, he]
    · simp only [View.perform, hnames, he]
      rfl
  | some e =>
    refine .of_none rfl ?_ ?_
    · simp only [View.perform, hnames, he]
      rfl
    · simp only [View.perform, hnames, he]
      rfl

end Engines

end Wakeup.Scenario
