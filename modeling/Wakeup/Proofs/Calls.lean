import Wakeup.Proofs.Arming

/-! When calls of engines begin and when they end. -/
namespace Wakeup

namespace Hub
open Scenario

/-- Whether what a callback is for lasts, and the strand of it. -/
def reaches (hub : Hub Manual) : Callback → Bool
  | .ready i _ _ => hub.watchers[i]?.any fun x => x.presence.alive && hub.strandAlive x.strand
  | .beat t _ _ => hub.heartbeats[t]?.any fun x => x.presence.alive && hub.strandAlive x.strand
  | .bare _ => false

/-- Whether an engine is still to be told of an outcome. -/
def asks (hub : Hub Manual) (c : Callback) (o : Outcome) : Bool :=
  match c, Verdict.of o with
  | .ready i d _, .proceed => hub.wants i d
  | .ready _ _ _, .failed _ => true
  | .beat t generation _, .proceed =>
    hub.heartbeats[t]?.any (·.schedule.generation == generation)
  | .beat t generation _, .failed _ =>
    hub.heartbeats[t]?.any (·.schedule.generation == generation)
  | _, _ => false

theorem isSome_startCall (hub : Hub Manual) (call : Call) :
    (hub.startCall call).2.isSome = hub.engineAlive call.engine := by
  unfold startCall
  cases hub.engineAlive call.engine <;> rfl

theorem engineAlive_modifySide (hub : Hub Manual) (i : Nat) (d : Direction) (f : Side → Side)
    (e : Nat) : (hub.modifySide i d f).engineAlive e = hub.engineAlive e := rfl

theorem engineAlive_modifySchedule (hub : Hub Manual) (t : Nat) (f : Schedule → Schedule)
    (e : Nat) : (hub.modifySchedule t f).engineAlive e = hub.engineAlive e := rfl

theorem isSome_begin (hub : Hub Manual) (c : Callback) (o : Outcome) :
    (hub.begin c o).2.isSome = (hub.reaches c && serves hub c && hub.asks c o) := by
  cases c with
  | bare tag => rfl
  | ready i d e =>
    simp only [begin, beginReady, reaches, serves]
    cases hx : hub.watchers[i]? with
    | none => rfl
    | some x =>
      simp only [Option.any_some]
      cases x.presence.alive with
      | false => simp
      | true =>
        simp only [if_true, Bool.true_and]
        change (if hub.strandAlive x.strand then _ else _ : Hub Manual × Option Call).2.isSome = _
        cases hub.strandAlive x.strand with
        | false => simp
        | true =>
          simp only [if_true, Bool.true_and, asks]
          cases Verdict.of o with
          | canceled => simp
          | proceed =>
            simp only [wants, hx, Option.any_some]
            cases (x.sides.get d).wanted with
            | false => simp
            | true =>
              simp only [if_true, isSome_startCall, Bool.and_true, engineAlive_modifySide]
          | failed err =>
            simp only [isSome_startCall, Bool.and_true, engineAlive_modifySide]
  | beat t generation e =>
    simp only [begin, beginBeat, reaches, serves]
    cases hx : hub.heartbeats[t]? with
    | none => rfl
    | some x =>
      simp only [Option.any_some]
      cases (x.presence.alive && hub.strandAlive x.strand) with
      | false => simp
      | true =>
        simp only [if_true, Bool.true_and, asks]
        cases Verdict.of o with
        | canceled => simp
        | proceed =>
          simp only [hx, Option.any_some]
          by_cases hg : x.schedule.generation = generation
          · simp only [hg, if_true, isSome_startCall, beq_self_eq_true, Bool.and_true]
          · simp [hg]
        | failed err =>
          simp only [hx, Option.any_some]
          by_cases hg : x.schedule.generation = generation
          · simp only [hg, if_true, isSome_startCall, beq_self_eq_true, Bool.and_true,
              engineAlive_modifySchedule]
          · simp [hg]

/-- The calls that begin. A watcher that wants it tells of readiness, and a heartbeat of a beat of
its current generation; either tells of a wait that failed. -/
theorem call_of_begin {hub : Hub Manual} {c : Callback} {o : Outcome} {call : Call}
    (h : (hub.begin c o).2 = some call) :
    (∃ i d x, hub.watchers[i]? = some x ∧ c = .ready i d call.engine ∧
      call.owner = .watcher i d ∧ call.strand = x.strand ∧
        (call.notice = .process x.fd (.ofDirection d) ∧ hub.wants i d = true ∨
          ∃ err, call.notice = .waitError (some x.fd) err)) ∨
    ∃ t x, hub.heartbeats[t]? = some x ∧ c = .beat t x.schedule.generation call.engine ∧
      call.owner = .heartbeat t x.schedule.generation ∧ call.strand = x.strand ∧
        (call.notice = .heartbeat ∨ ∃ err, call.notice = .waitError none err) := by
  cases c with
  | bare tag => cases h
  | ready i d e =>
    left
    simp only [begin, beginReady] at h
    cases hx : hub.watchers[i]? with
    | none =>
      rw [hx] at h
      cases h
    | some x =>
      rw [hx] at h
      dsimp only at h
      repeat' split at h
      all_goals try cases h
      · rename_i hwanted
        rw [← startCall_eq_some h]
        refine ⟨i, d, x, hx, rfl, rfl, rfl, Or.inl ⟨rfl, ?_⟩⟩
        unfold wants
        rw [hx, Option.any_some, hwanted]
      · rw [← startCall_eq_some h]
        exact ⟨i, d, x, hx, rfl, rfl, rfl, Or.inr ⟨_, rfl⟩⟩
  | beat t generation e =>
    right
    simp only [begin, beginBeat] at h
    cases hx : hub.heartbeats[t]? with
    | none =>
      rw [hx] at h
      cases h
    | some x =>
      rw [hx] at h
      dsimp only at h
      repeat' split at h
      all_goals try cases h
      · rename_i hg
        subst hg
        rw [← startCall_eq_some h]
        exact ⟨t, x, hx, rfl, rfl, rfl, Or.inl rfl⟩
      · rename_i hg
        subst hg
        rw [← startCall_eq_some h]
        exact ⟨t, x, hx, rfl, rfl, rfl, Or.inr ⟨_, rfl⟩⟩

theorem part_begin {hub : Hub Manual} {c : Callback} {o : Outcome} {call : Call}
    (h : (hub.begin c o).2 = some call) : c.part? = some call.owner.part := by
  rcases call_of_begin h with ⟨i, d, x, -, hc, howner, -⟩ | ⟨t, x, -, hc, howner, -⟩
  · rw [hc, howner]
    rfl
  · rw [hc, howner]
    rfl

theorem heartbeats_begin_canceled (c : Callback) (hub : Hub Manual) :
    (hub.begin c (.error .canceled)).1.heartbeats = hub.heartbeats := by
  unfold begin
  cases c with
  | ready w d e =>
    simp only [beginReady, Verdict.of_canceled]
    repeat' split
    all_goals rfl
  | beat t generation e =>
    simp only [beginBeat, Verdict.of_canceled]
    repeat' split
    all_goals rfl
  | bare => rfl

end Hub

namespace Scenario
open Ledger

/-- Moves begin calls, and end none. -/
theorem Ledger.Move.calls_suffix {L L' : Ledger} (hm : Move L L') : L.calls <:+ L'.calls := by
  cases hm with
  | complete => exact List.suffix_append _ _
  | _ => exact List.suffix_rfl

theorem Ledger.Moves.calls_suffix {L L' : Ledger} (hm : Moves L L') : L.calls <:+ L'.calls :=
  hm.preserves (P := fun L' => L.calls <:+ L'.calls) (fun hm h => h.trans hm.calls_suffix)
    List.suffix_rfl

/-- What the completion of a wait leads to, and the call if there is one. The wait was taken out of
the reactor before. -/
def Begins (hub : Hub Manual) (wait : Wait) (o : Outcome) (hub' : Hub Manual)
    (call? : Option Call) : Prop :=
  ∃ m, m.tickets = hub.reactor.tickets ∧
    { hub with reactor := m }.begin wait.callback o = (hub', call?)

namespace Begins
variable {hub hub' : Hub Manual} {wait : Wait} {o : Outcome} {call? : Option Call}

theorem isSome_eq (h : Begins hub wait o hub' call?) : call?.isSome =
    (hub.reaches wait.callback && serves hub wait.callback && hub.asks wait.callback o) := by
  obtain ⟨m, -, h⟩ := h
  have hsome := Hub.isSome_begin { hub with reactor := m } wait.callback o
  rw [h] at hsome
  rw [hsome]
  cases wait.callback <;> rfl

theorem part?_eq (h : Begins hub wait o hub' call?) :
    ∀ call ∈ call?, wait.callback.part? = some call.owner.part := by
  obtain ⟨m, -, h⟩ := h
  intro call hcall
  have hpart := @Hub.part_begin { hub with reactor := m } wait.callback o call
  rw [h] at hpart
  exact hpart hcall

end Begins

namespace World

private theorem calls_completeWait (w : World) (wait : Wait) (o : Outcome) (reply : Reply) :
    (w.completeWait wait o reply).2.calls = (w.hub.begin wait.callback o).2.toList := by
  unfold completeWait
  have hb : (w.begin wait o).2 = (w.hub.begin wait.callback o).2 := rfl
  cases hbegin : w.begin wait o with
  | mk w' call =>
    rw [hbegin] at hb
    rw [← hb]
    cases call with
    | none => rfl
    | some call =>
      have hcue := (w'.cue_fields call).1
      dsimp only [Effect.calls, Activity.call?]
      rw [hcue]

theorem hub_completeWait (w : World) (wait : Wait) (o : Outcome) (reply : Reply) :
    (w.completeWait wait o reply).1.hub = (w.hub.begin wait.callback o).1 := by
  unfold completeWait
  have hb : (w.begin wait o).1.hub = (w.hub.begin wait.callback o).1 := rfl
  cases hbegin : w.begin wait o with
  | mk w' call =>
    rw [hbegin] at hb
    cases call with
    | none => exact hb
    | some call => exact (hub_cue call w').trans hb

theorem hub_deliver (waits : List Wait) (w : World) :
    (waits.foldl (fun w wait => w.deliverOne wait) w).hub.heartbeats = w.hub.heartbeats ∧
      (waits.foldl (fun w wait => w.deliverOne wait) w).hub.reactor = w.hub.reactor := by
  induction waits generalizing w with
  | nil => exact ⟨rfl, rfl⟩
  | cons wait waits ih =>
    obtain ⟨hheartbeats, hreactor⟩ := ih (w.deliverOne wait)
    exact ⟨hheartbeats.trans (Hub.heartbeats_begin_canceled wait.callback w.hub),
      hreactor.trans (Hub.reactor_begin w.hub wait.callback _)⟩

/-- What a step tells that begins no call. Waits are completed in it only because they were
cancelled, which matters to no heartbeat and arms nothing. -/
def OnlyCancels (events : List Event) (hub hub' : Hub Manual) : Prop :=
  ∀ wait o served, .completed wait o served ∈ events → o = .error .canceled ∧
    wait ∈ hub.reactor.parked ∧
    hub'.heartbeats = hub.heartbeats ∧ hub'.reactor.tickets = hub.reactor.tickets

theorem onlyCancels_nil (hub hub' : Hub Manual) : OnlyCancels [] hub hub' :=
  fun _ _ _ h => absurd h List.not_mem_nil

/-- The operations in which callbacks are run at once. -/
theorem op_of_completed {w : World} {op : Op} {wait : Wait} {o : Outcome} {served : Bool}
    (h : .completed wait o served ∈ w.events op) :
    (∃ fd d, op = .complete fd d o) ∨ (∃ slot, op = .invoke slot o) ∨ op = .deliverCanceled := by
  cases op with
  | complete fd d o' =>
    simp only [events] at h
    split at h
    · exact absurd h List.not_mem_nil
    · injection List.mem_singleton.mp h with _ ho
      exact Or.inl ⟨fd, d, by rw [ho]⟩
  | invoke slot o' =>
    obtain ⟨wait', -, heq⟩ := List.mem_map.mp h
    injection heq with _ ho
    exact Or.inr (Or.inl ⟨slot, by rw [ho]⟩)
  | deliverCanceled => exact Or.inr (Or.inr rfl)
  | monitor =>
    simp only [events] at h
    repeat' split at h
    all_goals simp at h
  | negotiate =>
    simp only [events] at h
    split at h <;> simp at h
  | takeReady =>
    simp only [events] at h
    split at h <;> simp at h
  | takeTimed =>
    simp only [events] at h
    split at h <;> simp at h
  | discard => simp [events] at h
  | _ => exact absurd h List.not_mem_nil

/-- An operation completes a wait, or it begins no call. -/
theorem calls_perform (w : World) (op : Op) :
    (∃ wait o call?, w.events op = [w.completed wait o] ∧
      Begins w.hub wait o (w.perform op).1.hub call? ∧
      (w.perform op).2.calls = call?.toList) ∨
    (w.perform op).2.calls = [] ∧ OnlyCancels (w.events op) w.hub (w.perform op).1.hub := by
  cases op with
  | complete fd d o =>
    simp only [perform, events, complete]
    cases ht : w.hub.reactor.takeReady fd d with
    | none => exact Or.inr ⟨rfl, onlyCancels_nil _ _⟩
    | some taken =>
      obtain ⟨wait, m⟩ := taken
      have hm := (Manual.mem_waits_takeReady ht).1
      have hhub := hub_completeWait (w.modifyReactor fun _ => m) wait o (.flag true)
      exact Or.inl ⟨wait, o, _, rfl, ⟨m, hm, Prod.ext hhub.symm rfl⟩, calls_completeWait _ _ _ _⟩
  | invoke slot o =>
    simp only [perform, events, invoke]
    cases w.slots.get? slot with
    | none => exact Or.inr ⟨rfl, onlyCancels_nil _ _⟩
    | some wait =>
      have hhub := hub_completeWait { w with slots := w.slots.erase slot } wait o .done
      exact Or.inl ⟨wait, o, _, rfl, ⟨w.hub.reactor, rfl, Prod.ext hhub.symm rfl⟩,
        calls_completeWait _ _ _ _⟩
  | deliverCanceled =>
    refine Or.inr ⟨rfl, ?_⟩
    intro wait o served hmem
    obtain ⟨w', hparked, heq⟩ := List.mem_map.mp hmem
    cases heq
    obtain ⟨hheartbeats, hreactor⟩ := hub_deliver w.hub.reactor.takeParked.1
      (w.modifyReactor fun _ => w.hub.reactor.takeParked.2)
    have htickets := congrArg Manual.tickets hreactor
    exact ⟨rfl, hparked, hheartbeats, htickets⟩
  | dispatch h ops =>
    simp only [perform, dispatch]
    split <;> exact Or.inr ⟨rfl, onlyCancels_nil _ _⟩
  | _ =>
    refine Or.inr ⟨rfl, fun wait o served hmem => ?_⟩
    rcases op_of_completed hmem with ⟨_, _, h⟩ | ⟨_, h⟩ | h <;> cases h

end World

namespace Config

/-- A step ends a call, or completes a wait, or leaves the calls as they are. -/
theorem calls_step {c c' : Config} (h : c.step = some c') :
    (∃ call, c.calls = call :: c'.calls ∧ c.events = []) ∨
    (∃ wait o call?, c.events = [c.world.completed wait o] ∧
      Begins c.world.hub wait o c'.world.hub call? ∧ c'.calls = call?.toList ++ c.calls) ∨
    c'.calls = c.calls ∧ World.OnlyCancels c.events c.world.hub c'.world.hub := by
  obtain ⟨w, ⟨activity, todo, entries⟩, below⟩ := c
  unfold step at h
  cases todo with
  | cons op todo =>
    have hstep : c'.world = (w.perform op).1 ∧ c'.calls =
        (w.perform op).2.calls ++ calls ⟨w, ⟨activity, op :: todo, entries⟩, below⟩ := by
      dsimp only at h
      cases hp : w.perform op with
      | mk w' effect =>
        rw [hp] at h
        cases effect with
        | ended entry =>
          cases h
          exact ⟨rfl, rfl⟩
        | opened activity' ops =>
          cases h
          rw [calls_mk w']
          exact ⟨rfl, rfl⟩
    obtain ⟨hworld, hcalls⟩ := hstep
    rw [hworld]
    right
    rcases w.calls_perform op with ⟨wait, o, call?, he, hb, hc⟩ | ⟨hc, he⟩
    · exact Or.inl ⟨wait, o, call?, he, hb, hc ▸ hcalls⟩
    · rw [hc] at hcalls
      exact Or.inr ⟨hcalls, he⟩
  | nil =>
    have hclose {w' : World} {entry : Entry} (h : close w' entry below = some c') :
        c'.calls = below.filterMap fun f => f.activity.call? := by
      unfold close at h
      split at h
      · cases h
      · cases h
        rfl
    cases activity with
    | outside => cases h
    | inside s => exact Or.inr (Or.inr ⟨hclose h, World.onlyCancels_nil _ _⟩)
    | completion cue reply =>
      left
      refine ⟨cue.call, ?_, rfl⟩
      rw [calls_mk, hclose h]
      rfl
    | firing count records current =>
      cases current with
      | some cue =>
        left
        refine ⟨cue.call, ?_, rfl⟩
        cases h
        rfl
      | none =>
        right
        dsimp only [fire] at h
        simp only [events]
        cases ht : w.hub.reactor.takeDue with
        | none =>
          rw [ht] at h
          exact Or.inr ⟨hclose h, World.onlyCancels_nil _ _⟩
        | some taken =>
          obtain ⟨wait, m⟩ := taken
          left
          rw [ht] at h
          obtain ⟨deadline, htimed⟩ := Manual.takeTimed_of_takeDue ht
          have hm := (Manual.mem_waits_takeTimed htimed).1
          have hb : (w.modifyReactor fun _ => m).hub.begin wait.callback (.ok ()) =
              (((w.modifyReactor fun _ => m).begin wait (.ok ())).1.hub,
                ((w.modifyReactor fun _ => m).begin wait (.ok ())).2) := rfl
          dsimp only at h
          cases hbegin : (w.modifyReactor fun _ => m).begin wait (.ok ()) with
          | mk w' call =>
            rw [hbegin] at h hb
            cases call with
            | none =>
              cases h
              exact ⟨wait, .ok (), none, rfl, ⟨m, hm, hb⟩, rfl⟩
            | some call =>
              have hcue := (w'.cue_fields call).1
              have hhub := World.hub_cue call w'
              cases h
              refine ⟨wait, .ok (), some call, rfl, ⟨m, hm, ?_⟩, ?_⟩
              · rw [hhub]
                exact hb
              · rw [calls_mk, calls_mk]
                simp only [Activity.call?, hcue]
                rfl

/-- The step in which a call ends. -/
theorem ledger_of_return {c c' : Config} {log : List Event} (hr : Reached c log)
    (hs : c.step = some c') {call : Call} (hc : c.calls = call :: c'.calls) :
    c'.ledger (c.events.reverse ++ log) = (c.ledger log).finish call c'.calls := by
  have hadvance := hr.advance hs
  have hcalls : (c.ledger log).calls =
      call :: (c'.ledger (c.events.reverse ++ log)).calls := hc
  change _ = (c.ledger log).finish call (c'.ledger (c.events.reverse ++ log)).calls
  generalize c'.ledger (c.events.reverse ++ log) = L' at hadvance hcalls
  cases hadvance with
  | moves hm =>
    have hle := hm.calls_suffix.length_le
    rw [hcalls, List.length_cons] at hle
    omega
  | finish hcalls' =>
    rw [hcalls'] at hcalls
    cases hcalls
    rfl

/-- A call begins because a wait completes. -/
theorem begins_of_calls {c c' : Config} {call : Call} (hs : c.step = some c')
    (hc : c'.calls = call :: c.calls) :
    ∃ wait o, c.events = [c.world.completed wait o] ∧
      Begins c.world.hub wait o c'.world.hub (some call) := by
  rcases calls_step hs with ⟨call', hend, -⟩ | ⟨wait, o, call?, he, hb, hc'⟩ | ⟨hc', -⟩
  · have hlen := congrArg List.length (hend.trans (congrArg _ hc))
    simp only [List.length_cons] at hlen
    omega
  · rw [hc] at hc'
    cases call? with
    | none => exact absurd hc' (List.cons_ne_self _ _)
    | some call' =>
      cases hc'
      exact ⟨wait, o, he, hb⟩
  · exact absurd (hc.symm.trans hc') (List.cons_ne_self _ _)

end Config
end Scenario
end Wakeup
