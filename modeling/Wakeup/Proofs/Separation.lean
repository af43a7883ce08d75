import Wakeup.Proofs.Quiet
import Wakeup.Proofs.Takings

/-! Descriptors do not interfere. What can be found out about a descriptor comes of the operations
that concern it, and is the same if all others are left out. -/
namespace Wakeup.Scenario

section Carried
variable {σ : Int → Option Fd} {w v : World} {op : Op} {entry : Entry}

namespace Lone

/-- Watchers keep their descriptors, so that slots stay for the same ones. -/
theorem of_hub (hw : Lone σ w) {hub : Hub Manual} {actors : List Actor} (h : Handler)
    (hfd : ∀ i fd, w.hub.fdOf? i = some fd → hub.fdOf? i = some fd)
    (hidle : ∀ actor ∈ actors, actor.script.Idle) :
    Lone σ { w with
      hub := hub, actors := actors, handlers := (∅ : Table Handler).insert 0 h } := by
  refine ⟨⟨h, rfl⟩, hw.watchers, hw.registrations, hw.replaced, hidle, fun hwait => ?_⟩
  obtain ⟨i, d, e, fd, hc, hσ, hi⟩ := hw.slots hwait
  exact ⟨i, d, e, fd, hc, hσ, hfd i fd hi⟩

private theorem monitor (hw : Lone σ w) (n e : Int) (fd : Fd) (ev : Events)
    (hfd : ∀ i fd', w.hub.fdOf? i = some fd' →
      (w.monitor n e fd ev).1.hub.fdOf? i = some fd') : Lone σ (w.monitor n e fd ev).1 := by
  obtain ⟨h, hh⟩ := hw.handler
  have hsame (hub : Hub Manual) : w.setHub hub =
      { w with hub := hub, handlers := (∅ : Table Handler).insert 0 h } := by
    rw [← hh]
    rfl
  have heq : ∃ hub h', (w.monitor n e fd ev).1 =
      { w with hub := hub, handlers := (∅ : Table Handler).insert 0 h' } := by
    have hget := get?_handlers hh n
    unfold World.monitor
    split
    · rename_i engine handler he hn
      rw [hn] at hget
      split at hget
      · rename_i h0
        subst h0
        split
        · exact ⟨_, h, hsame _⟩
        · exact ⟨_, _, by rw [insert_handlers hh]⟩
      · cases hget
    · exact ⟨_, h, hsame w.hub⟩
  obtain ⟨hub, h', heq⟩ := heq
  rw [heq] at hfd ⊢
  exact hw.of_hub h' hfd hw.idle

private theorem settle (hw : Lone σ w) (wait : Wait) (o : Outcome)
    (hfd : ∀ i fd, w.hub.fdOf? i = some fd → (w.settle wait o).1.hub.fdOf? i = some fd) :
    Lone σ (w.settle wait o).1 := by
  obtain ⟨actors, hrecast, hworld, -⟩ := World.settle_idle hw.idle wait o
  obtain ⟨h, hh⟩ := hw.handler
  have hlone := hw.of_hub h (by rwa [hworld] at hfd) hrecast.idle
  rw [hworld]
  rwa [← hh] at hlone

theorem erase (hw : Lone σ w) (slot : Int) :
    Lone σ { w with slots := w.slots.erase slot } := by
  refine ⟨hw.handler, hw.watchers, hw.registrations, hw.replaced, hw.idle, fun hwait => ?_⟩
  rw [Table.get?_erase] at hwait
  split at hwait
  · cases hwait
  · exact hw.slots hwait

private theorem discard (hw : Lone σ w) (slot : Int) : Lone σ (w.discard slot).1 := by
  unfold World.discard
  split
  · exact hw
  · exact hw.erase slot

private theorem newEngine (hw : Lone σ w) (name : Int) {s : Script Op} (hs : s.Idle)
    (plain : Bool) : Lone σ (w.newEngine name s plain) := by
  refine ⟨hw.handler, hw.watchers, hw.registrations, hw.replaced, fun actor hmem => ?_,
    fun hwait => ?_⟩
  · rcases List.mem_append.mp hmem with hmem | hmem
    · exact hw.idle actor hmem
    · rw [List.mem_singleton.mp hmem]
      exact hs
  · have hfdOf : (w.newEngine name s plain).hub.fdOf? = w.hub.fdOf? := by
      unfold World.newEngine
      cases w.engines.get? name <;> rfl
    rw [hfdOf]
    exact hw.slots hwait

private theorem dropEngine (hw : Lone σ w) (name : Int) : Lone σ (w.dropEngine name).1 := by
  unfold World.dropEngine
  split
  · exact hw
  · exact ⟨hw.handler, hw.watchers, hw.registrations, hw.replaced, hw.idle, hw.slots⟩

end Lone

/-- An operation is carried out outside of all callbacks, with all that it leads to. -/
structure Carried (σ : Int → Option Fd) (op : Op) (w v : World) (entry : Entry) : Prop where
  steps : ∀ todo entries, Config.Steps ⟨w, ⟨.outside, op :: todo, entries⟩, []⟩
    ⟨v, ⟨.outside, todo, entry :: entries⟩, []⟩
  shown : ∀ fd, Shown σ fd op w v entry
  lone : (∀ i fd, w.hub.fdOf? i = some fd → v.hub.fdOf? i = some fd) → Lone σ v

namespace Carried

theorem ended (result : World × Reply) (hp : w.perform op = World.ended result)
    (hshown : ∀ fd, Shown σ fd op w result.1 (.mk result.2 []))
    (hlone : (∀ i fd, w.hub.fdOf? i = some fd → result.1.hub.fdOf? i = some fd) →
      Lone σ result.1) : Carried σ op w result.1 (.mk result.2 []) where
  steps := fun _ _ => .single (Config.step_of_ended rfl hp)
  shown := hshown
  lone := hlone

private theorem quiet (hw : Lone σ w) {result : World × Reply}
    (hp : w.perform op = World.ended result) (hquiet : Quiet w result.1) (hn : op.names σ = none)
    (hview : ∀ fd (V : View), V.perform fd op = (V, .done, [])) :
    Carried σ op w result.1 (.mk result.2 []) :=
  ended _ hp (fun fd => hquiet.shown hn (hview fd) rfl) fun _ => hquiet.lone hw

theorem settled {w' : World} {wait : Wait} {o : Outcome} {reply : Reply}
    (hp : w.perform op = w'.completeWait wait o reply) (hw : Lone σ w')
    (hfdOf : w'.hub.fdOf? = w.hub.fdOf?)
    (hshown : ∀ fd, Shown σ fd op w (w'.settle wait o).1 (.mk reply (w'.settle wait o).2)) :
    Carried σ op w (w'.settle wait o).1 (.mk reply (w'.settle wait o).2) where
  steps := fun _ _ => Config.steps_completeWait (World.mute_of_idle hw.idle _ _) hp
  shown := hshown
  lone := by
    rw [← hfdOf]
    exact hw.settle wait o

end Carried

private theorem fdOf?_of_steps {c c' : Config} {log : List Event} (hr : Config.Reached c log)
    (h : Config.Steps c c') {i : Nat} {fd : Fd} (hi : c.world.hub.fdOf? i = some fd) :
    c'.world.hub.fdOf? i = some fd := by
  obtain ⟨log', hrun⟩ := h.run
  have hkeeps := Config.Run.keeps
    (P := fun L => c.world.hub.roster.watched <+: L.hub.roster.watched) hr hrun
    (fun hm _ hkept => hkept.trans (Ledger.watched_of_makes hm.makes))
    (fun _ _ hkept => hkept.trans (Ledger.watched_of_makes (Ledger.makes_finish _ _ _)))
    List.prefix_rfl
  obtain ⟨p, hp, hfd⟩ := Option.map_eq_some_iff.mp hi
  exact Option.map_eq_some_iff.mpr ⟨p, getElem?_of_prefix hkeeps hp, hfd⟩

private theorem Carried.rests (h : Carried σ op w v entry) (hw : Rests σ w) : Rests σ v := by
  obtain ⟨entries, log, hr⟩ := hw.reached
  have hr' : Config.Reached (w.start [op]) log := by
    obtain ⟨ops, hrun⟩ := hr
    exact ⟨ops, hrun.more [op] rfl⟩
  have hsteps := h.steps [] []
  obtain ⟨log', hreached⟩ := hsteps.reached hr'
  exact ⟨h.lone fun i fd hi => fdOf?_of_steps hr' hsteps hi, _, _, hreached⟩

private theorem Rests.takeReady (hw : Rests σ w) {fd : Fd} {slot : Int} (hσ : σ slot = some fd)
    (d : Direction) : Lone σ (w.takeReady fd d slot).1 := by
  unfold World.takeReady
  cases ht : w.hub.reactor.takeReady fd d with
  | none => exact hw.toLone
  | some taken =>
    obtain ⟨wait, m⟩ := taken
    obtain ⟨i, e, x, hc, -, hx, hfd, -⟩ := hw.taken ht
    refine ⟨hw.handler, hw.watchers, hw.registrations, hw.replaced, hw.idle, fun hwait => ?_⟩
    rename_i slot' wait'
    rw [Table.get?_insert] at hwait
    split at hwait
    · rename_i hslot
      cases hwait
      refine ⟨i, d, e, fd, hc, hslot ▸ hσ, ?_⟩
      rw [← hfd]
      exact Hub.fdOf?_of_getElem? hx
    · exact hw.slots hwait

private theorem Rests.carried_complete (hw : Rests σ w) (fd : Fd) (d : Direction) (o : Outcome) :
    ∃ v entry, Carried σ (.complete fd d o) w v entry := by
  cases ht : w.hub.reactor.takeReady fd d with
  | none =>
    have hp : w.perform (.complete fd d o) = World.ended (w, .flag false) := by
      simp only [World.perform, World.complete, ht]
      rfl
    exact ⟨_, _, .ended _ hp (fun _ => shown_complete_of_none o ht) fun _ => hw.toLone⟩
  | some taken =>
    obtain ⟨wait, m⟩ := taken
    have hp : w.perform (.complete fd d o) =
        (w.modifyReactor fun _ => m).completeWait wait o (.flag true) := by
      simp only [World.perform, World.complete, ht]
    have htaken : Lone σ (w.modifyReactor fun _ => m) :=
      ⟨hw.handler, hw.watchers, hw.registrations, hw.replaced, hw.idle, hw.slots⟩
    exact ⟨_, _, .settled hp htaken rfl fun _ => shown_complete hw o ht⟩

private theorem Rests.carried_invoke (hw : Rests σ w) (slot : Int) (o : Outcome) :
    ∃ v entry, Carried σ (.invoke slot o) w v entry := by
  cases hwait : w.slots.get? slot with
  | none =>
    have hp : w.perform (.invoke slot o) = World.ended (w, .missing) := by
      simp only [World.perform, World.invoke, hwait]
      rfl
    refine ⟨_, _, .ended _ hp (fun fd => shown_of_empty rfl (fun V hV => ?_) hwait)
      fun _ => hw.toLone⟩
    simp only [View.perform, hV]
  | some wait =>
    have hp : w.perform (.invoke slot o) =
        { w with slots := w.slots.erase slot }.completeWait wait o .done := by
      simp only [World.perform, World.invoke, hwait]
    exact ⟨_, _, .settled hp (hw.toLone.erase slot) rfl fun _ => shown_invoke hw hwait o⟩

private theorem step_fireTimers (w : World) (todo : List Op) (entries : List Entry) :
    Config.step ⟨w, ⟨.outside, .fireTimers :: todo, entries⟩, []⟩ =
      some ⟨w, ⟨.firing 0 [] none, [], []⟩, [⟨.outside, todo, entries⟩]⟩ := rfl

private theorem Rests.carried_fireTimers (hw : Rests σ w) :
    ∃ v entry, Carried σ .fireTimers w v entry := by
  obtain ⟨entries, log, ops, hrun⟩ := hw.reached
  have hr : Config.Reached (w.start [.fireTimers]) log := ⟨ops, hrun.more [.fireTimers] rfl⟩
  obtain ⟨v, entry, hsteps, hquiet, htold⟩ :=
    Config.steps_firing (hr.step (step_fireTimers w [] [])) hw.idle fun _ => rfl
  exact ⟨v, entry, fun todo entries => (hsteps _).head (step_fireTimers w todo entries),
    fun fd => hquiet.shown rfl (fun _ => rfl) (htold fd), fun _ => hquiet.lone hw.toLone⟩

private theorem Rests.carried_deliver (hw : Rests σ w) :
    ∃ v entry, Carried σ .deliverCanceled w v entry := by
  obtain ⟨entries, log, hr⟩ := hw.reached
  obtain ⟨hp, hquiet, htold⟩ := quiet_delivery hr.dull
  refine ⟨w.withParked [], w.delivery, fun todo entries => .single ?_,
    fun fd => hquiet.shown rfl (fun _ => rfl) (htold fd), fun _ => hquiet.lone hw.toLone⟩
  unfold Config.step
  dsimp only
  rw [hp]
  rfl

/-- Each operation is carried out. -/
theorem Rests.carried (hw : Rests σ w) (hop : op.Plain σ) :
    ∃ v entry, Carried σ op w v entry := by
  have hlone : Lone σ w := hw.toLone
  cases op with
  | monitor n e fd ev =>
    exact ⟨_, _, .ended (w.monitor n e fd ev) rfl (fun _ => shown_monitor hw n e fd ev)
      (hlone.monitor n e fd ev)⟩
  | negotiate n e seconds =>
    exact ⟨_, _, .quiet hlone rfl (quiet_negotiate hlone n e seconds) rfl fun _ _ => rfl⟩
  | close n e => exact ⟨_, _, .quiet hlone rfl (quiet_close hlone n e) rfl fun _ _ => rfl⟩
  | query n fd =>
    let result := w.ask n fun x => .watching (x.interest fd w.hub)
    have hsame : result.1 = w := ask_fst w n _
    refine ⟨_, _, .ended result rfl (fun _ => ?_) fun _ => ?_⟩
    · rw [hsame]
      exact shown_query hw n fd
    · rw [hsame]
      exact hlone
  | debug n => exact ⟨_, _, .quiet hlone rfl (quiet_ask w n _) rfl fun _ _ => rfl⟩
  | busy n => exact ⟨_, _, .quiet hlone rfl (quiet_ask w n _) rfl fun _ _ => rfl⟩
  | busyInside n => exact ⟨_, _, .quiet hlone rfl (quiet_ask w n _) rfl fun _ _ => rfl⟩
  | newEngine e s plain =>
    exact ⟨_, _, .ended (w.newEngine e s plain, .done) rfl
      (fun _ => shown_newEngine w e s plain) fun _ => hlone.newEngine e hop plain⟩
  | dropEngine e =>
    exact ⟨_, _, .ended (w.dropEngine e) rfl (fun _ => shown_dropEngine w e)
      fun _ => hlone.dropEngine e⟩
  | script e s => exact ⟨_, _, .quiet hlone rfl (quiet_extendScript w e hop) rfl fun _ _ => rfl⟩
  | refuse fd =>
    exact ⟨_, _, .ended (w.modifyReactor (Manual.refuse fd), .done) rfl
      (fun _ => shown_refuse w fd) fun _ =>
        ⟨hw.handler, hw.watchers, hw.registrations, hw.replaced, hw.idle, hw.slots⟩⟩
  | advance elapsed =>
    exact ⟨_, _, .quiet hlone rfl (quiet_modifyReactor rfl) rfl fun _ _ => rfl⟩
  | complete fd d o => exact hw.carried_complete fd d o
  | fireTimers => exact hw.carried_fireTimers
  | deliverCanceled => exact hw.carried_deliver
  | takeReady fd d slot =>
    exact ⟨_, _, .ended (w.takeReady fd d slot) rfl (fun _ => shown_takeReady hw hop)
      fun _ => hw.takeReady hop d⟩
  | invoke slot o => exact hw.carried_invoke slot o
  | discard slot =>
    exact ⟨_, _, .ended (w.discard slot) rfl (fun _ => shown_discard hw slot)
      fun _ => hlone.discard slot⟩
  | newHeartbeat t s =>
    exact ⟨_, _, .quiet hlone rfl (quiet_newHeartbeat w t s) rfl fun _ _ => rfl⟩
  | setHeartbeat t e seconds =>
    exact ⟨_, _, .quiet hlone rfl (quiet_setHeartbeat w t e seconds) rfl fun _ _ => rfl⟩
  | stopHeartbeat t =>
    exact ⟨_, _, .quiet hlone rfl (quiet_stopHeartbeat w t) rfl fun _ _ => rfl⟩
  | viewHeartbeat t =>
    exact ⟨_, _, .quiet hlone rfl (quiet_viewHeartbeat w t) rfl fun _ _ => rfl⟩
  | dropHeartbeat t =>
    exact ⟨_, _, .quiet hlone rfl (quiet_dropHeartbeat w t) rfl fun _ _ => rfl⟩
  | _ => exact hop.elim

end Carried

section Observation

/-- What can be found out about a descriptor. -/
structure Observation where
  watching : Bool
  interest : Option Events
  /-- The number of waits for each direction. -/
  outstanding : Sides Nat
  /-- How often each direction was armed. -/
  arms : Sides Nat
  /-- The number of registrations. -/
  live : Nat
  /-- The answers of the operations that name the descriptor. -/
  replies : List Reply
  /-- Whom was told of the descriptor, and what. -/
  told : List (Int × Notice)

/-- The answers of the operations that name a descriptor. -/
def repliesOf (σ : Int → Option Fd) (fd : Fd) : List Op → List Entry → List Reply
  | op :: ops, entry :: entries =>
    if op.names σ = some fd then entry.reply :: repliesOf σ fd ops entries
    else repliesOf σ fd ops entries
  | _, _ => []

def toldOf (fd : Fd) (entries : List Entry) : List (Int × Notice) :=
  entries.flatMap fun entry => entry.records.filterMap (Record.told? fd)

/-- Performs operations in a fresh world, and answers what can be found out about a descriptor. -/
def observe (σ : Int → Option Fd) (script : Script Op) (fd : Fd) (ops : List Op) : Observation :=
  let (w, entries) := (World.initial script).performAll ops
  { watching := (w.handlers.get? 0).any (·.isWatching fd)
    interest := (w.handlers.get? 0).bind (·.interest fd w.hub)
    outstanding := ⟨w.hub.reactor.outstanding fd .read, w.hub.reactor.outstanding fd .write⟩
    arms := ⟨w.hub.reactor.armCount fd .read, w.hub.reactor.armCount fd .write⟩
    live := (w.hub.reactor.live.get? fd).getD 0
    replies := repliesOf σ fd ops entries
    told := toldOf fd entries }

namespace View

/-- Performs the operations that concern the descriptor, with the answers of those that name it and
what engines are told of it. -/
def replay (σ : Int → Option Fd) (fd : Fd) :
    List Op → View → View × List Reply × List (Int × Notice)
  | [], V => (V, [], [])
  | op :: ops, V =>
    if op.concerns σ fd then
      let (V', reply, told) := V.perform fd op
      let (V'', replies, tolds) := replay σ fd ops V'
      (V'', if op.names σ = some fd then reply :: replies else replies, told ++ tolds)
    else replay σ fd ops V

/-- What can be found out about a descriptor by what is shown of it. -/
def observed (replayed : View × List Reply × List (Int × Notice)) : Observation where
  watching := replayed.1.scene.sides.isSome
  interest := replayed.1.interest
  outstanding := ⟨replayed.1.scene.waits.countP (·.1 == .read),
    replayed.1.scene.waits.countP (·.1 == .write)⟩
  arms := replayed.1.scene.arms
  live := replayed.1.scene.live
  replies := replayed.2.1
  told := replayed.2.2

private theorem replay_filter (σ : Int → Option Fd) (fd : Fd) (ops : List Op) (V : View) :
    replay σ fd (ops.filter (·.concerns σ fd)) V = replay σ fd ops V := by
  induction ops generalizing V with
  | nil => rfl
  | cons op ops ih =>
    rw [List.filter_cons]
    by_cases hc : op.concerns σ fd = true
    · simp only [hc, if_true, replay, ih]
    · simp only [hc, Bool.false_eq_true, if_false, replay, ih]

end View

variable {σ : Int → Option Fd} {w : World} {fd : Fd} {ops : List Op}

private theorem Rests.observed (hw : Rests σ w) (fd : Fd) (replies : List Reply)
    (told : List (Int × Notice)) :
    View.observed (w.view σ fd, replies, told) =
      { watching := (w.handlers.get? 0).any (·.isWatching fd)
        interest := (w.handlers.get? 0).bind (·.interest fd w.hub)
        outstanding := ⟨w.hub.reactor.outstanding fd .read, w.hub.reactor.outstanding fd .write⟩
        arms := ⟨w.hub.reactor.armCount fd .read, w.hub.reactor.armCount fd .write⟩
        live := (w.hub.reactor.live.get? fd).getD 0
        replies := replies
        told := told } := by
  obtain ⟨h, hh⟩ := hw.handler
  have hget : w.handlers.get? 0 = some h := by rw [get?_handlers hh, if_pos rfl]
  have hwatching : (w.view σ fd).scene.sides.isSome = h.isWatching fd := by
    have hindex := Rests.index_eq hh fd
    unfold Handler.isWatching Table.contains
    cases hi : w.index fd with
    | none => rw [← hindex, hi, sides_scene_of_none hi]; rfl
    | some i =>
      obtain ⟨s, hs⟩ := sides_scene_of_index (σ := σ) hw hi
      rw [← hindex, hi, hs]
      rfl
  have houtstanding (d : Direction) :
      (w.view σ fd).scene.waits.countP (·.1 == d) = w.hub.reactor.outstanding fd d := by
    change ((w.hub.reactor.ready.filter (·.registration.fd = fd)).map _).countP _ = _
    rw [List.countP_map, List.countP_filter]
    exact List.countP_congr fun x _ => by simp [and_comm]
  rw [hget, Option.any_some, Option.bind_some, interest_view hh (σ := σ), ← hwatching,
    ← houtstanding, ← houtstanding]
  rfl

/-- What is shown of a descriptor comes of the operations that concern it. -/
theorem Rests.replay (hw : Rests σ w) (hops : ∀ op ∈ ops, op.Plain σ) (fd : Fd)
    (entries : List Entry) : ∃ v es, Rests σ v ∧
      Config.run ⟨w, ⟨.outside, ops, entries⟩, []⟩ = (v, entries.reverse ++ es) ∧
      View.replay σ fd ops (w.view σ fd) =
        (v.view σ fd, repliesOf σ fd ops es, toldOf fd es) := by
  -- each operation leads to a world at rest, in which the others are carried out
  induction ops generalizing w entries with
  | nil => exact ⟨w, [], hw, by rw [List.append_nil]; exact Config.run_of_step_eq_none rfl, rfl⟩
  | cons op ops ih =>
    obtain ⟨u, entry, hcarried⟩ := hw.carried (hops op List.mem_cons_self)
    obtain ⟨v, es, hv, hrun, hreplay⟩ := ih (hcarried.rests hw)
      (fun op' hmem => hops op' (List.mem_cons_of_mem _ hmem)) (entry :: entries)
    refine ⟨v, entry :: es, hv, ?_, ?_⟩
    · rw [(hcarried.steps ops entries).run_eq, hrun, List.reverse_cons, List.append_assoc]
      rfl
    · obtain ⟨hview, hreply, htold⟩ := hcarried.shown fd
      unfold View.replay
      by_cases hc : op.concerns σ fd = true
      · rw [if_pos hc] at hview htold
        simp only [hc, if_true]
        rw [← hview, hreplay]
        by_cases hn : op.names σ = some fd
        · simp only [repliesOf, toldOf, hn, if_true, List.flatMap_cons, htold, hreply hn]
        · simp only [repliesOf, toldOf, hn, if_false, List.flatMap_cons, htold]
      · have hn : op.names σ ≠ some fd := by
          intro hn
          apply hc
          unfold Op.concerns
          rw [hn]
          exact decide_eq_true rfl
        rw [if_neg hc] at hview htold
        rw [if_neg hc, ← hview, hreplay]
        simp only [repliesOf, toldOf, hn, if_false, List.flatMap_cons, htold, List.nil_append]

private theorem rests_initial {script : Script Op} (hs : script.Idle) :
    Rests σ (World.initial script) := by
  obtain ⟨c, log, ⟨ops, hrun⟩, hn, hw⟩ := Config.reached_initial script
  have hreached : Config.Reached ((World.initial script).start []) log := by
    rw [← hw]
    exact ⟨ops, hrun.more [] hn⟩
  refine ⟨⟨⟨_, rfl⟩, rfl, rfl, rfl, ?_, ?_⟩, [], log, hreached⟩
  · intro actor hmem
    rw [List.mem_singleton.mp hmem]
    exact hs
  · intro slot wait hwait
    cases hwait

theorem observe_eq {script : Script Op} (hs : script.Idle) (hops : ∀ op ∈ ops, op.Plain σ)
    (fd : Fd) : observe σ script fd ops =
      View.observed (View.replay σ fd ops ((World.initial script).view σ fd)) := by
  obtain ⟨v, es, hv, hrun, hreplay⟩ := (rests_initial hs).replay hops fd []
  have hall : (World.initial script).performAll ops = (v, es) := hrun
  rw [hreplay, hv.observed]
  unfold observe
  rw [hall]

/-- Descriptors do not interfere. With one handler and engines that do nothing in their callbacks,
and as long as no slot is for two descriptors, all that can be found out about a descriptor is the
same if the operations that name others are left out. So operations that name different descriptors
can change places, and no descriptor tells. -/
theorem separation {script : Script Op} (hs : script.Idle) (hops : ∀ op ∈ ops, op.Plain σ)
    (fd : Fd) :
    observe σ script fd (ops.filter (·.concerns σ fd)) = observe σ script fd ops ∧
    ∀ a b before after fd₁ fd₂, ops = before ++ a :: b :: after →
      a.names σ = some fd₁ → b.names σ = some fd₂ → fd₁ ≠ fd₂ →
      observe σ script fd (before ++ b :: a :: after) = observe σ script fd ops := by
  have hplain {ops' : List Op} (hsub : ∀ op ∈ ops', op ∈ ops) : ∀ op ∈ ops', op.Plain σ :=
    fun op hmem => hops op (hsub op hmem)
  refine ⟨?_, fun a b before after fd₁ fd₂ heq ha hb hne => ?_⟩
  · rw [observe_eq hs hops, observe_eq hs (hplain fun op => List.mem_of_mem_filter),
      View.replay_filter]
  · have hfilter : (before ++ b :: a :: after).filter (·.concerns σ fd) =
        ops.filter (·.concerns σ fd) := by
      -- the descriptor is concerned by one of them at most
      have hc : (a.concerns σ fd && b.concerns σ fd) = false := by
        rw [Bool.and_eq_false_iff, Op.concerns, Op.concerns, ha, hb]
        by_contra h
        simp only [Option.all_some, beq_eq_false_iff_ne, not_or, not_not] at h
        exact hne (h.1.trans h.2.symm)
      rw [heq, List.filter_append, List.filter_append]
      congr 1
      simp only [List.filter_cons]
      cases ha' : a.concerns σ fd <;> cases hb' : b.concerns σ fd <;> simp_all
    have hswapped : ∀ op ∈ before ++ b :: a :: after, op.Plain σ := by
      refine hplain fun op hmem => ?_
      rw [heq]
      simp only [List.mem_append, List.mem_cons] at hmem ⊢
      tauto
    rw [observe_eq hs hops, observe_eq hs hswapped, ← View.replay_filter, hfilter,
      View.replay_filter]

/-- The slot with the number of a descriptor is for its waits. -/
def ownSlot (slot : Int) : Option Fd := some slot

/-- A wait of one descriptor is kept while another is watched, completed and no longer watched. -/
def crossing : List Op :=
  [.monitor 0 0 3 .readable, .monitor 0 0 4 (Events.readable.union .writable),
    .takeReady 3 .read 3, .complete 4 .write (.ok ()), .monitor 0 0 4 .none, .deliverCanceled,
    .invoke 3 (.ok ()), .query 0 3]

/-- The engine is told of the descriptor once, with and without the other one. -/
theorem separation_crossing :
    ({} : Script Op).Idle ∧ (∀ op ∈ crossing, op.Plain ownSlot) ∧
      (crossing.filter (·.concerns ownSlot 3)).length < crossing.length ∧
      observe ownSlot {} 3 (crossing.filter (·.concerns ownSlot 3)) =
        observe ownSlot {} 3 crossing ∧
      (observe ownSlot {} 3 crossing).told = [(0, .process 3 .readable)] := by
  have hs : ({} : Script Op).Idle := ⟨nofun, nofun, nofun⟩
  have hops : ∀ op ∈ crossing, op.Plain ownSlot := by
    simp [crossing, Op.Plain, ownSlot]
  refine ⟨hs, hops, by decide, (separation hs hops 3).1, ?_⟩
  rw [observe_eq hs hops]
  rfl

end Observation
end Wakeup.Scenario
