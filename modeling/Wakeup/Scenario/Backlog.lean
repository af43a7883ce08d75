import Wakeup.Scenario.Machine
import Wakeup.Total

/-! What is left to do in a configuration, as a pair of numbers that falls with each step: the size
of the operations to come, and the beats that are overdue. -/
namespace Wakeup

section Lists
variable {α : Type}

theorem map_modify_of_eq {β : Type} (l : List α) (i : Nat) (f : α → α) (g : α → β)
    (h : ∀ a, g (f a) = g a) : (l.modify i f).map g = l.map g := by
  induction l generalizing i with
  | nil => simp
  | cons a l ih => cases i <;> simp [h, ih]

theorem countP_eraseP_of_mem (l : List α) (p q : α → Bool) {a : α} (ha : a ∈ l) (hq : q a)
    (h : ∀ b ∈ l, q b → p b) : (l.eraseP q).countP p + 1 = l.countP p := by
  obtain ⟨b, l₁, l₂, -, hb, hl, he⟩ := List.exists_of_eraseP ha hq
  rw [he, hl]
  have : p b := h b (by simp [hl]) hb
  simp [List.countP_append, this]
  omega

end Lists

namespace Manual

/-- The number of timer waits that are due. -/
def dueCount (m : Manual) : Nat := m.timed.countP (·.deadline ≤ m.now)

theorem dueCount_cancel_le (t : Nat) (m : Manual) : (m.cancel t).dueCount ≤ m.dueCount :=
  List.Sublist.countP_le List.filter_sublist

theorem dueCount_schedule_le (t : Nat) (deadline : Nat) (c : Callback) (m : Manual) :
    (m.schedule t deadline c).dueCount ≤ m.dueCount + if deadline ≤ m.now then 1 else 0 := by
  have h := m.dueCount_cancel_le t
  have : (m.schedule t deadline c).dueCount =
      (m.cancel t).dueCount + if deadline ≤ m.now then 1 else 0 := by
    simp [dueCount, schedule, cancel, List.countP_append, List.countP_singleton]
  omega

theorem dueCount_takeDue {m m' : Manual} {w : Wait} (h : m.takeDue = some (w, m')) :
    m'.dueCount + 1 = m.dueCount ∧ m'.now = m.now := by
  simp only [takeDue, Option.bind_eq_some_iff] at h
  obtain ⟨deadline, -, h⟩ := h
  split at h
  · rename_i hle
    simp only [takeTimed, Option.map_eq_some_iff, Prod.mk.injEq] at h
    obtain ⟨x, hx, -, rfl⟩ := h
    refine ⟨?_, rfl⟩
    have hq := List.find?_some hx
    refine countP_eraseP_of_mem _ _ _ (List.mem_of_find?_eq_some hx) hq fun y _ hy => ?_
    have : y.deadline = deadline := by simpa using hy
    simpa [this] using hle
  · simp at h

end Manual

namespace Hub

def overdue (hub : Hub Manual) : Nat :=
  total (fun x => x.schedule.overdue hub.reactor.now) hub.heartbeats

/-- Bounds the number of steps in which due timer waits are completed. -/
def backlog (hub : Hub Manual) : Nat := 4 * hub.overdue + 2 * hub.reactor.dueCount

theorem backlog_congr {hub hub' : Hub Manual} (hnow : hub'.reactor.now = hub.reactor.now)
    (htimed : hub'.reactor.timed = hub.reactor.timed)
    (hs : hub'.heartbeats.map (·.schedule) = hub.heartbeats.map (·.schedule)) :
    hub'.backlog = hub.backlog := by
  have h (b : Hub Manual) : b.overdue =
      total (Schedule.overdue b.reactor.now) (b.heartbeats.map (·.schedule)) := by
    rw [total_map, overdue]
  simp only [backlog, h, Manual.dueCount, hnow, htimed, hs]

theorem backlog_cancelTimer_le (t : Nat) (hub : Hub Manual) :
    (hub.cancelTimer t).backlog ≤ hub.backlog := by
  have := hub.reactor.dueCount_cancel_le t
  simp only [backlog, overdue, cancelTimer, Reactor.cancel] at *
  have hnow : (hub.reactor.cancel t).now = hub.reactor.now := rfl
  rw [hnow]
  omega

theorem backlog_modifySide (w : Nat) (d : Direction) (f : Side → Side) (hub : Hub Manual) :
    (hub.modifySide w d f).backlog = hub.backlog := backlog_congr rfl rfl rfl

theorem backlog_armSide (w : Nat) (d : Direction) (e : Nat) (hub : Hub Manual) :
    (hub.armSide w d e).backlog = hub.backlog := by
  simp only [armSide]
  split
  · rfl
  · split
    · rfl
    · exact backlog_congr rfl rfl rfl

theorem backlog_modifyStrand (s : Nat) (f : Presence → Presence) (hub : Hub Manual) :
    (hub.modifyStrand s f).backlog = hub.backlog := backlog_congr rfl rfl rfl

theorem backlog_modifyEngine (e : Nat) (f : Presence → Presence) (hub : Hub Manual) :
    (hub.modifyEngine e f).backlog = hub.backlog := backlog_congr rfl rfl rfl

theorem backlog_modifyWatcher (w : Nat) (f : Watcher → Watcher) (hub : Hub Manual) :
    (hub.modifyWatcher w f).backlog = hub.backlog := backlog_congr rfl rfl rfl

theorem backlog_modifyPresence (t : Nat) (f : Presence → Presence) (hub : Hub Manual) :
    (hub.modifyHeartbeat t fun x => { x with presence := f x.presence }).backlog = hub.backlog :=
  backlog_congr rfl rfl (map_modify_of_eq _ _ _ _ fun _ => rfl)

theorem backlog_releaseWatcher (w : Nat) (hub : Hub Manual) :
    (hub.releaseWatcher w).backlog = hub.backlog := by
  simp only [releaseWatcher, reapWatcher]
  split
  · exact backlog_modifyWatcher ..
  · split
    · exact backlog_modifyWatcher ..
    · exact backlog_congr rfl rfl rfl

theorem backlog_releaseHeartbeat_le (t : Nat) (hub : Hub Manual) :
    (hub.releaseHeartbeat t).backlog ≤ hub.backlog := by
  have h := backlog_modifyPresence t Presence.release hub
  simp only [releaseHeartbeat, reapHeartbeat]
  split
  · exact Nat.le_of_eq h
  · split
    · exact Nat.le_of_eq h
    · exact Nat.le_trans (backlog_cancelTimer_le ..) (Nat.le_of_eq h)

theorem backlog_acquireOwner (o : Owner) (hub : Hub Manual) :
    (hub.acquireOwner o).backlog = hub.backlog := by
  cases o
  · exact backlog_modifyWatcher ..
  · exact backlog_modifyPresence ..

theorem backlog_releaseOwner_le (o : Owner) (hub : Hub Manual) :
    (hub.releaseOwner o).backlog ≤ hub.backlog := by
  cases o
  · exact Nat.le_of_eq (backlog_releaseWatcher ..)
  · exact backlog_releaseHeartbeat_le ..

theorem overdue_modifySchedule {t : Nat} {f : Schedule → Schedule} {hub : Hub Manual}
    {x : Heartbeat} (hx : hub.heartbeats[t]? = some x) :
    (hub.modifySchedule t f).overdue + x.schedule.overdue hub.reactor.now =
      hub.overdue + (f x.schedule).overdue hub.reactor.now :=
  total_modify hub.heartbeats t _ (fun x => x.schedule.overdue hub.reactor.now) hx

theorem backlog_armDeadline_le (t : Nat) (deadline : Nat) (e : Nat)
    (hub : Hub Manual) :
    (hub.armDeadline t deadline e).backlog ≤
      hub.backlog + if deadline ≤ hub.reactor.now then 2 else 0 := by
  simp only [armDeadline]
  split
  · exact Nat.le_add_right ..
  · rename_i x hx
    have := Manual.dueCount_schedule_le x.timer deadline (.beat t x.schedule.generation e)
      hub.reactor
    simp only [backlog, overdue, Reactor.schedule]
    have hnow : (hub.reactor.schedule x.timer deadline
      (.beat t x.schedule.generation e)).now = hub.reactor.now := rfl
    rw [hnow]
    split at this <;> simp_all <;> omega

/-- A later deadline that is due too is at least one millisecond less late. -/
theorem backlog_nextBeat_le (t : Nat) (generation : Nat) (e : Nat)
    (hub : Hub Manual) : (hub.nextBeat t generation e).backlog ≤ hub.backlog := by
  simp only [nextBeat]
  split
  · exact Nat.le_refl _
  · rename_i x hx
    split
    · rename_i deadline interval hd hi
      split
      · have hpos := interval.length_pos
        have hsum := overdue_modifySchedule
          (f := ({ · with deadline := some (deadline + interval.length) })) hx
        have hreactor : (hub.modifySchedule t
          ({ · with deadline := some (deadline + interval.length) })).reactor = hub.reactor := rfl
        have harm := backlog_armDeadline_le t (deadline + interval.length) e
          (hub.modifySchedule t ({ · with deadline := some (deadline + interval.length) }))
        refine Nat.le_trans harm ?_
        generalize hub.modifySchedule t _ = hub' at hsum hreactor ⊢
        simp only [Schedule.overdue, hd] at hsum
        simp only [backlog, hreactor]
        split <;> omega
      · exact Nat.le_refl _
    · exact Nat.le_refl _

theorem backlog_resume_le (call : Call) (hub : Hub Manual) :
    (hub.resume call).backlog ≤ hub.backlog := by
  simp only [resume]
  split
  · split
    · exact Nat.le_of_eq (backlog_armSide ..)
    · exact Nat.le_refl _
  · exact backlog_nextBeat_le ..
  · exact Nat.le_refl _

theorem backlog_finish_le (call : Call) (hub : Hub Manual) :
    (hub.finish call).backlog ≤ hub.backlog := by
  refine Nat.le_trans (backlog_releaseOwner_le ..) ?_
  rw [leaveStrand, backlog_modifyStrand, backlog_modifyEngine]
  exact backlog_resume_le ..

theorem backlog_startCall (call : Call) (hub : Hub Manual) :
    (hub.startCall call).1.backlog = hub.backlog := by
  simp only [startCall]
  split
  · rw [backlog_modifyEngine, enterStrand, backlog_modifyStrand, backlog_acquireOwner]
  · rfl

theorem backlog_forgetDeadline_le (t : Nat) (hub : Hub Manual) :
    (hub.modifySchedule t ({ · with deadline := none })).backlog ≤ hub.backlog := by
  have : (hub.modifySchedule t ({ · with deadline := none })).overdue ≤ hub.overdue :=
    total_modify_le hub.heartbeats t _ (fun x => x.schedule.overdue hub.reactor.now)
      fun x => by simp [Schedule.overdue]
  have hnow : (hub.modifySchedule t ({ · with deadline := none })).reactor = hub.reactor := rfl
  simp only [backlog, hnow]
  omega

theorem backlog_begin_le (c : Callback) (o : Outcome) (hub : Hub Manual) :
    (hub.begin c o).1.backlog ≤ hub.backlog := by
  cases c with
  | ready w d e =>
    simp only [begin, beginReady]
    repeat' split
    all_goals simp [backlog_startCall, backlog_modifySide]
  | beat t generation e =>
    simp only [begin, beginBeat]
    repeat' split
    all_goals simp [backlog_startCall, backlog_forgetDeadline_le]
  | bare => exact Nat.le_refl _

end Hub

namespace Scenario

section Sizes

theorem sizeOf_append {α : Type} [SizeOf α] (l m : List α) :
    sizeOf (l ++ m) + 1 = sizeOf l + sizeOf m := by
  induction l with
  | nil => simp; omega
  | cons a l ih => simp; omega

theorem sizeOf_script_append (s t : Script Op) : sizeOf (s.append t) < sizeOf s + sizeOf t := by
  obtain ⟨p, b, e⟩ := s
  obtain ⟨p', b', e'⟩ := t
  have hp := sizeOf_append p p'
  have hb := sizeOf_append b b'
  have he := sizeOf_append e e'
  simp [Script.append]
  omega

theorem sizeOf_of_take {n : Notice} {s s' : Script Op} {ops : List Op}
    (h : s.take n = some (ops, s')) : sizeOf ops + sizeOf s' < sizeOf s := by
  obtain ⟨p, b, e⟩ := s
  simp only [Script.take] at h
  split at h
  all_goals
    split at h
    · simp at h
    · simp only [Option.some.injEq, Prod.mk.injEq] at h
      obtain ⟨rfl, rfl⟩ := h
      simp
      omega

end Sizes

/-- The size of the operations that are to be performed next. -/
noncomputable def Effect.size : Effect → Nat
  | .ended _ => 0
  | .opened _ ops => sizeOf ops

theorem sizeOf_op_pos (op : Op) : 0 < sizeOf op := by
  cases op <;> exact Nat.pos_of_ne_zero (by simp)

namespace World

/-- The size of the operations that engines are still to perform. -/
noncomputable def scripted (w : World) : Nat := total (fun a => sizeOf a.script) w.actors

theorem scripted_congr {w w' : World} (h : w'.actors = w.actors) : w'.scripted = w.scripted := by
  simp only [scripted, h]

theorem scripted_cue_le (call : Call) (w : World) :
    (w.cue call).1.scripted + sizeOf ((w.cue call).2.ops.getD []) ≤ w.scripted + 1 := by
  simp only [cue]
  split
  · simp
  · rename_i actor ha
    split
    · simp
    · split
      · simp
      · rename_i ops script ht
        have := sizeOf_of_take ht
        have := total_modify w.actors call.engine ({ · with script := script })
          (fun a => sizeOf a.script) ha
        simp only [scripted, Option.getD_some] at *
        omega

theorem hub_cue (call : Call) (w : World) : (w.cue call).1.hub = w.hub := by
  simp only [cue]
  repeat' split
  all_goals rfl

theorem actors_leaveDispatch (s : Nat) (w : World) : (w.leaveDispatch s).actors = w.actors := by
  simp only [leaveDispatch]
  repeat' split
  all_goals rfl

theorem actors_begin (wait : Wait) (o : Outcome) (w : World) :
    (w.begin wait o).1.actors = w.actors := rfl

theorem hub_begin (wait : Wait) (o : Outcome) (w : World) :
    (w.begin wait o).1.hub = (w.hub.begin wait.callback o).1 := rfl

theorem scripted_completeWait_le (wait : Wait) (o : Outcome) (reply : Reply) (w : World) :
    (w.completeWait wait o reply).1.scripted + Effect.size (w.completeWait wait o reply).2 ≤
      w.scripted + 1 := by
  have h := scripted_congr (actors_begin wait o w)
  simp only [completeWait]
  split
  · rename_i hb
    rw [hb] at h
    simp only [Effect.size] at h ⊢
    omega
  · rename_i w' call hb
    rw [hb] at h
    have := scripted_cue_le call w'
    simp only [Effect.size] at h ⊢
    exact h ▸ this

theorem actors_deliverCanceled (w : World) : w.deliverCanceled.1.actors = w.actors := by
  have h (waits : List Wait) (w : World) :
      (waits.foldl (fun w wait => w.deliverOne wait) w).actors = w.actors := by
    induction waits generalizing w with
    | nil => rfl
    | cons wait waits ih => exact ih _
  exact h ..

theorem scripted_extendScript_lt (e : Int) (script : Script Op) (w : World) :
    (w.extendScript e script).1.scripted ≤ w.scripted + sizeOf script := by
  simp only [extendScript]
  split
  · simp
  · rename_i id _
    simp only [scripted]
    cases h : w.actors[id]? with
    | none =>
      have : w.actors.modify id (fun a => { a with script := a.script.append script }) =
          w.actors := by
        apply List.ext_getElem?
        intro j
        rw [List.getElem?_modify]
        split
        · rename_i hij
          subst hij
          simp [h]
        · simp
      rw [this]
      omega
    | some actor =>
      have := total_modify w.actors id (fun a => { a with script := a.script.append script })
        (fun a => sizeOf a.script) h
      have := sizeOf_script_append actor.script script
      simp only at *
      omega

theorem scripted_newEngine (e : Int) (script : Script Op) (plain : Bool) (w : World) :
    (w.newEngine e script plain).scripted = w.scripted + sizeOf script := by
  simp [newEngine, scripted, total_append]

theorem scripted_perform_lt (op : Op) (w : World) :
    (w.perform op).1.scripted + Effect.size (w.perform op).2 < w.scripted + sizeOf op + 1 := by
  have hpos := sizeOf_op_pos op
  have hend (r : World × Reply) (h : r.1.actors = w.actors) :
      (ended r).1.scripted + Effect.size (ended r).2 < w.scripted + sizeOf op + 1 := by
    simp only [ended, Effect.size, scripted_congr h]
    omega
  cases op with
  | newEngine e script plain =>
    have := scripted_newEngine e script plain w
    simp only [perform, ended, Effect.size, Op.newEngine.sizeOf_spec]
    omega
  | script e script =>
    have := scripted_extendScript_lt e script w
    simp only [perform, ended, Effect.size, Op.script.sizeOf_spec]
    omega
  | dispatch h ops =>
    simp only [perform, dispatch]
    split
    · simp only [Effect.size]
      omega
    · simp only [Effect.size, scripted, enterDispatch, World.actors_setHub,
        Op.dispatch.sizeOf_spec]
      omega
  | complete fd d o =>
    simp only [perform, complete]
    split
    · simp only [Effect.size]
      omega
    · rename_i wait m _
      have := scripted_completeWait_le wait o (.flag true) (w.modifyReactor fun _ => m)
      have hw : (w.modifyReactor fun _ => m).scripted = w.scripted := rfl
      omega
  | invoke slot o =>
    simp only [perform, invoke]
    split
    · simp only [Effect.size]
      omega
    · rename_i wait _
      have := scripted_completeWait_le wait o .done { w with slots := w.slots.erase slot }
      have hw : ({ w with slots := w.slots.erase slot } : World).scripted = w.scripted := rfl
      omega
  | fireTimers =>
    simp only [perform, Effect.size, List.nil.sizeOf_spec]
    omega
  | deliverCanceled =>
    simp only [perform, scripted_congr (actors_deliverCanceled w), Effect.size]
    omega
  | _ =>
    refine hend _ ?_
    simp only [newHandler, replaceHandler, dropHandler, monitor, negotiate, close, ask,
      dropEngine, takeReady, takeTimed, discard, register, armRegistration, dropRegistration,
      newTimer, armTimer, cancelTimer, dropTimer, newStrand, dropStrand, strandBusy, newWatcher,
      setWatcher, retireWatcher, viewWatcher, dropWatcher, newHeartbeat, setHeartbeat,
      stopHeartbeat, viewHeartbeat, dropHeartbeat]
    repeat' split
    all_goals rfl

end World
end Scenario
end Wakeup
