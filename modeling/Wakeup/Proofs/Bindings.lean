import Wakeup.Proofs.Enlisted

/-! For which engines waits are armed in a step: those that the operation names, and the one whose
call ends. -/
namespace Wakeup

/-- The engine that a callback is for. -/
def Callback.engine? : Callback → Option Nat
  | .ready _ _ e => some e
  | .beat _ _ e => some e
  | .bare _ => none

namespace Hub
open Manual
variable {P : Callback → Prop} {hub hub' : Hub Manual} {h : Handler}

theorem armsFor_setInterest (hub : Hub Manual) (i e : Nat) (ev : Events) :
    Arms (·.engine? = some e) hub.reactor (hub.setInterest i e ev).reactor :=
  (arms_setInterest_ready hub i e ev).mono fun _ hc => hc.choose_spec.1 ▸ rfl

theorem armsFor_armDeadline (hub : Hub Manual) (t deadline e : Nat) :
    Arms (·.engine? = some e) hub.reactor (hub.armDeadline t deadline e).reactor := by
  unfold armDeadline
  split
  · exact .refl _
  · exact (Arms.schedule _ _ deadline _).mono fun _ hc => hc ▸ rfl

theorem armsFor_setHeartbeat (hub : Hub Manual) (t e : Nat) (interval : Interval) :
    Arms (·.engine? = some e) hub.reactor (hub.setHeartbeat t e interval).reactor := by
  unfold setHeartbeat
  split
  · exact .refl _
  · rename_i x _
    exact (Arms.cancel hub.reactor x.timer).trans
      (armsFor_armDeadline ((hub.cancelTimer x.timer).modifySchedule t _) t _ e)

theorem armsFor_nextBeat (hub : Hub Manual) (t generation e : Nat) :
    Arms (·.engine? = some e) hub.reactor (hub.nextBeat t generation e).reactor := by
  unfold nextBeat
  repeat' split
  all_goals first
    | exact .refl _
    | exact armsFor_armDeadline (hub.modifySchedule t _) t _ e

theorem arms_releaseOwner (hub : Hub Manual) (o : Owner) :
    Arms P hub.reactor (hub.releaseOwner o).reactor := by
  cases o with
  | watcher i d => exact arms_reapWatcher (hub.modifyWatcher i _) i
  | heartbeat t generation => exact arms_reapHeartbeat (hub.modifyHeartbeat t _) t

/-- The end of a call arms nothing but for the engine that was called. -/
theorem armsFor_finish (hub : Hub Manual) (call : Call) :
    Arms (·.engine? = some call.engine) hub.reactor (hub.finish call).reactor := by
  have hresume : Arms (·.engine? = some call.engine) hub.reactor (hub.resume call).reactor := by
    obtain ⟨owner, s, e, notice⟩ := call
    cases owner with
    | watcher i d =>
      cases notice with
      | process fd ev =>
        simp only [resume]
        split
        · exact (arms_armSide_ready hub i d e).mono fun _ hc => hc.1 ▸ rfl
        · exact .refl _
      | heartbeat => exact .refl _
      | waitError fd err => exact .refl _
    | heartbeat t generation =>
      cases notice with
      | process fd ev => exact .refl _
      | heartbeat => exact armsFor_nextBeat hub t generation e
      | waitError fd err => exact .refl _
  let left := ((hub.resume call).modifyEngine call.engine Presence.release).leaveStrand call.strand
  exact hresume.trans (arms_releaseOwner left call.owner)

theorem arms_dropWatchers (is : List Nat) (hub : Hub Manual) :
    Arms P hub.reactor (is.foldl (fun hub i => hub.dropWatcher i) hub).reactor := by
  induction is generalizing hub with
  | nil => exact .refl _
  | cons i is ih => exact (arms_dropWatcher hub i).trans (ih _)

theorem arms_drop (h : Handler) (hub : Hub Manual) : Arms P hub.reactor (h.drop hub).reactor := by
  have hwatchers := arms_dropWatchers (P := P) h.watchers.values hub
  unfold Handler.drop
  cases h.heartbeat with
  | none => exact hwatchers
  | some t => exact hwatchers.trans (arms_dropHeartbeat _ t)

theorem arms_close (h : Handler) (hub : Hub Manual) :
    Arms P hub.reactor (h.close hub).2.reactor := by
  unfold Handler.close
  split
  · exact .refl _
  · exact (arms_stopHeartbeat hub _).trans (arms_dropHeartbeat _ _)

theorem arms_register (fd : Fd) (m : Manual) : Arms P m (m.register fd).2 := by
  unfold Manual.register
  split <;> exact .of_waits rfl fun _ => id

theorem arms_newWatcher (hub : Hub Manual) (s : Nat) (fd : Fd) :
    Arms P hub.reactor (hub.newWatcher s fd).2.reactor := by
  have hregister := arms_register (P := P) fd hub.reactor
  simp only [newWatcher, Manual.reactor_register]
  split
  · rename_i hr
    rwa [hr] at hregister
  · rename_i hr
    rwa [hr] at hregister

theorem armsFor_monitor (h : Handler) (e : Nat) (fd : Fd) (ev : Events) (hub : Hub Manual) :
    Arms (·.engine? = some e) hub.reactor (h.monitor e fd ev hub).2.reactor := by
  unfold Handler.monitor
  split
  · split
    · exact .refl _
    · have hnew := arms_newWatcher (P := (·.engine? = some e)) hub h.strand fd
      split
      · rename_i hn
        rwa [hn] at hnew
      · rename_i hn
        rw [hn] at hnew
        exact hnew.trans (armsFor_setInterest _ _ e ev)
  · split
    · exact arms_dropWatcher (hub.retire _) _
    · exact armsFor_setInterest hub _ e ev

theorem armsFor_negotiate (h : Handler) (e seconds : Nat) (hub : Hub Manual) :
    Arms (·.engine? = some e) hub.reactor (h.negotiate e seconds hub).2.2.reactor := by
  unfold Handler.negotiate
  split
  · exact .refl _
  · split
    · exact armsFor_setHeartbeat hub _ e _
    · refine .trans ?_ (armsFor_setHeartbeat (hub.newHeartbeat h.strand).2 _ e _)
      exact .of_waits rfl fun _ => id

end Hub

namespace Scenario
namespace World

/-- From one world to the other, nothing was armed but for engines of some kind. -/
def Binds (Q : Nat → Prop) (w w' : World) : Prop :=
  ∀ wait ∈ w'.waits, wait ∈ w.waits ∨ ∀ e ∈ wait.callback.engine?, Q e

namespace Binds
variable {Q : Nat → Prop} {w w' : World}

theorem refl (w : World) : Binds Q w w := fun _ hmem => Or.inl hmem

theorem mono {R : Nat → Prop} (h : Binds Q w w') (hQR : ∀ e, Q e → R e) : Binds R w w' := by
  intro wait hmem
  rcases h wait hmem with hmem | hq
  · exact Or.inl hmem
  · exact Or.inr fun e he => hQR e (hq e he)

/-- Waits may have changed their places. -/
theorem of_waits (h : ∀ wait ∈ w'.waits, wait ∈ w.waits) : Binds Q w w' :=
  fun wait hmem => Or.inl (h wait hmem)

private theorem of_arms {P : Callback → Prop} (h : Manual.Arms P w.hub.reactor w'.hub.reactor)
    (hs : ∀ wait ∈ w'.slots.values, wait ∈ w.waits)
    (hP : ∀ c, P c → ∀ e ∈ c.engine?, Q e) : Binds Q w w' := by
  intro wait hmem
  rcases List.mem_append.mp hmem with hmem | hmem
  · rcases h.waits wait hmem with hmem | ⟨-, -, hc⟩
    · exact Or.inl (List.mem_append.mpr (Or.inl hmem))
    · exact Or.inr (hP _ hc)
  · exact Or.inl (hs wait hmem)

/-- What is kept stays as it is. -/
theorem of_reactor {P : Callback → Prop} (h : Manual.Arms P w.hub.reactor w'.hub.reactor)
    (hs : w'.slots = w.slots) (hP : ∀ c, P c → ∀ e ∈ c.engine?, Q e) : Binds Q w w' :=
  of_arms h (fun _ hmem => List.mem_append.mpr (Or.inr (hs ▸ hmem))) hP

theorem of_quiet (h : Manual.Arms (fun _ => False) w.hub.reactor w'.hub.reactor)
    (hs : w'.slots = w.slots) : Binds Q w w' :=
  of_reactor h hs fun _ => False.elim

theorem of_engine {e : Nat} (h : Manual.Arms (·.engine? = some e) w.hub.reactor w'.hub.reactor)
    (hs : w'.slots = w.slots) (hq : Q e) : Binds Q w w' := by
  refine of_reactor h hs fun c hc e' he' => ?_
  rw [hc] at he'
  cases he'
  exact hq

private theorem of_bare {tag : Tag} (h : Manual.Arms (· = .bare tag) w.hub.reactor w'.hub.reactor)
    (hs : w'.slots = w.slots) : Binds Q w w' := by
  refine of_reactor h hs fun c hc e he => ?_
  rw [hc] at he
  cases he

/-- A wait that is taken out of the reactor is kept, or completed. -/
theorem of_take {m : Manual} {wait : Wait}
    (hm : ∀ x, x ∈ w.hub.reactor.waits ↔ x = wait ∨ x ∈ m.waits)
    (hr : w'.hub.reactor = m)
    (hs : ∀ x ∈ w'.slots.values, x = wait ∨ x ∈ w.slots.values) : Binds Q w w' := by
  refine of_waits fun x hx => ?_
  rcases List.mem_append.mp hx with hx | hx
  · rw [hr] at hx
    exact List.mem_append.mpr (Or.inl ((hm x).mpr (Or.inr hx)))
  · rcases hs x hx with hx | hx
    · exact List.mem_append.mpr (Or.inl ((hm x).mpr (Or.inl hx)))
    · exact List.mem_append.mpr (Or.inr hx)

private theorem of_slots (hr : w'.hub.reactor = w.hub.reactor)
    (hs : ∀ wait ∈ w'.slots.values, wait ∈ w.slots.values) : Binds Q w w' := by
  refine of_waits fun wait hmem => ?_
  rcases List.mem_append.mp hmem with hmem | hmem
  · exact List.mem_append.mpr (Or.inl (hr ▸ hmem))
  · exact List.mem_append.mpr (Or.inr (hs wait hmem))

end Binds

theorem slots_completeWait (w : World) (wait : Wait) (o : Outcome) (reply : Reply) :
    (w.completeWait wait o reply).1.slots = w.slots := by
  unfold completeWait
  cases hb : w.begin wait o with
  | mk w' call =>
    have hw : w'.slots = w.slots := congrArg (·.1.slots) hb.symm
    cases call with
    | none => exact hw
    | some call =>
      refine Eq.trans ?_ hw
      simp only [cue]
      repeat' split
      all_goals rfl

theorem reactor_completeWait (w : World) (wait : Wait) (o : Outcome) (reply : Reply) :
    (w.completeWait wait o reply).1.hub.reactor = w.hub.reactor := by
  rw [hub_completeWait, Hub.reactor_begin]

private theorem slots_deliver (waits : List Wait) (w : World) :
    (waits.foldl (fun w wait => w.deliverOne wait) w).slots = w.slots := by
  induction waits generalizing w with
  | nil => rfl
  | cons wait waits ih => exact ih (w.deliverOne wait)

theorem mem_values_insert {t : Table Wait} {k : Int} {wait x : Wait}
    (h : x ∈ (t.insert k wait).values) : x = wait ∨ x ∈ t.values := by
  obtain ⟨k', hk⟩ := Table.mem_values.mp h
  rw [Table.get?_insert] at hk
  split at hk
  · exact Or.inl (Option.some.inj hk).symm
  · exact Or.inr (Table.mem_values.mpr ⟨k', hk⟩)

private theorem mem_values_erase {t : Table Wait} {k : Int} {x : Wait}
    (h : x ∈ (t.erase k).values) : x ∈ t.values := by
  obtain ⟨k', hk⟩ := Table.mem_values.mp h
  rw [Table.get?_erase] at hk
  split at hk
  · cases hk
  · exact Table.mem_values.mpr ⟨k', hk⟩

/-- Watching a descriptor arms waits for the engine that is named. -/
theorem binds_monitor (w : World) (n a : Int) (fd : Fd) (ev : Events) :
    Binds (fun e => ∃ n, w.engines.get? n = some e) w (w.perform (.monitor n a fd ev)).1 := by
  simp only [perform, ended, monitor]
  split
  · rename_i engine h he hh
    have ha := Hub.armsFor_monitor h engine fd ev w.hub
    split
    · rename_i hm
      rw [hm] at ha
      exact .of_engine ha rfl ⟨a, he⟩
    · rename_i hm
      rw [hm] at ha
      exact .of_engine ha rfl ⟨a, he⟩
  · exact .refl w

private theorem binds_newHandler {Q : Nat → Prop} (w : World) (n : Int) :
    Binds Q w (w.perform (.newHandler n)).1 := by
  have hnew : Manual.Arms (fun _ => False) w.hub.reactor (Handler.create w.hub).2.reactor :=
    .of_waits rfl fun _ => id
  simp only [perform, ended, newHandler, replaceHandler]
  repeat' split
  · exact .of_quiet hnew rfl
  · exact .of_quiet hnew rfl
  · exact .of_quiet (hnew.trans (Hub.arms_drop _ _)) rfl

private theorem binds_newWatcher {Q : Nat → Prop} (w : World) (x s : Int) (fd : Fd) :
    Binds Q w (w.perform (.newWatcher x s fd)).1 := by
  simp only [perform, ended, newWatcher]
  split
  · exact .refl w
  · rename_i strand _
    have hnew := Hub.arms_newWatcher (P := fun _ => False) w.hub strand fd
    split
    · rename_i hn
      rw [hn] at hnew
      exact .of_quiet hnew rfl
    · rename_i hn
      rw [hn] at hnew
      split
      · exact .of_quiet hnew rfl
      · exact .of_quiet (hnew.trans (Hub.arms_dropWatcher _ _)) rfl

private theorem binds_newHeartbeat {Q : Nat → Prop} (w : World) (t s : Int) :
    Binds Q w (w.perform (.newHeartbeat t s)).1 := by
  simp only [perform, ended, newHeartbeat]
  split
  · exact .refl w
  · rename_i strand _
    have hnew : Manual.Arms (fun _ => False) w.hub.reactor
        (w.hub.newHeartbeat strand).2.reactor := .of_waits rfl fun _ => id
    split
    · exact .of_quiet hnew rfl
    · exact .of_quiet (hnew.trans (Hub.arms_dropHeartbeat _ _)) rfl

private theorem binds_complete {Q : Nat → Prop} (w : World) (fd : Fd) (d : Direction)
    (o : Outcome) : Binds Q w (w.perform (.complete fd d o)).1 := by
  simp only [perform, complete]
  cases ht : w.hub.reactor.takeReady fd d with
  | none => exact .refl w
  | some taken =>
    obtain ⟨wait, m⟩ := taken
    refine .of_take (Manual.mem_waits_takeReady ht).2 (reactor_completeWait _ _ _ _) ?_
    intro x hx
    rw [slots_completeWait] at hx
    exact Or.inr hx

private theorem binds_takeReady {Q : Nat → Prop} (w : World) (fd : Fd) (d : Direction)
    (slot : Int) : Binds Q w (w.perform (.takeReady fd d slot)).1 := by
  simp only [perform, ended, takeReady]
  cases ht : w.hub.reactor.takeReady fd d with
  | none => exact .refl w
  | some taken =>
    exact .of_take (Manual.mem_waits_takeReady ht).2 rfl fun x hx => mem_values_insert hx

private theorem binds_takeTimed {Q : Nat → Prop} (w : World) (slot : Int) :
    Binds Q w (w.perform (.takeTimed slot)).1 := by
  simp only [perform, ended, takeTimed]
  cases ht : w.hub.reactor.takeEarliest with
  | none => exact .refl w
  | some taken =>
    obtain ⟨deadline, wait, m⟩ := taken
    have htimed := Manual.takeTimed_of_takeEarliest ht
    exact .of_take (Manual.mem_waits_takeTimed htimed).2 rfl fun x hx => mem_values_insert hx

private theorem binds_deliverCanceled {Q : Nat → Prop} (w : World) :
    Binds Q w (w.perform .deliverCanceled).1 := by
  have hreactor : (w.perform .deliverCanceled).1.hub.reactor = w.hub.reactor.takeParked.2 :=
    (hub_deliver _ _).2
  have hslots : (w.perform .deliverCanceled).1.slots = w.slots := slots_deliver _ _
  refine .of_quiet ?_ hslots
  rw [hreactor]
  exact .of_waits rfl fun _ hmem => Manual.mem_waits_takeParked.mpr (Or.inr hmem)

private theorem binds_register {Q : Nat → Prop} (w : World) (id n : Int) (fd : Fd) :
    Binds Q w (w.perform (.register id n fd)).1 := by
  have hregister := Hub.arms_register (P := fun _ => False) fd w.hub.reactor
  simp only [perform, ended, register]
  split
  · exact .refl w
  · split
    · rename_i hr
      rw [hr] at hregister
      exact .of_quiet hregister rfl
    · rename_i hr
      rw [hr] at hregister
      split
      · exact .of_quiet hregister rfl
      · exact .of_quiet (hregister.trans (.release _ _)) rfl

/-- An operation arms waits only for the engine that it names. -/
theorem binds_perform (w : World) (op : Op) :
    Binds (fun e => ∃ n, w.engines.get? n = some e) w (w.perform op).1 := by
  cases op with
  | monitor n a fd ev => exact binds_monitor w n a fd ev
  | negotiate n a seconds =>
    simp only [perform, ended, negotiate]
    split
    · rename_i engine h he hh
      exact .of_engine (Hub.armsFor_negotiate h engine seconds w.hub) rfl ⟨a, he⟩
    · exact .refl w
  | setWatcher x a ev =>
    simp only [perform, ended, setWatcher]
    split
    · rename_i engine i he hi
      exact .of_engine (Hub.armsFor_setInterest w.hub i engine ev) rfl ⟨a, he⟩
    · exact .refl w
  | setHeartbeat t a seconds =>
    simp only [perform, ended, setHeartbeat]
    split
    · rename_i engine i interval he hi hs
      exact .of_engine (Hub.armsFor_setHeartbeat w.hub i engine interval) rfl ⟨a, he⟩
    · exact .refl w
  | armRegistration id d tag =>
    simp only [perform, ended, armRegistration]
    split
    · exact .refl w
    · exact .of_bare (.arm _ _ d (.bare tag)) rfl
  | armTimer id delay tag =>
    simp only [perform, ended, armTimer]
    split
    · exact .refl w
    · exact .of_bare (.schedule _ _ _ (.bare tag)) rfl
  | newHandler n => exact binds_newHandler w n
  | dropHandler n =>
    simp only [perform, ended, dropHandler]
    split
    · exact .refl w
    · exact .of_quiet (Hub.arms_drop _ w.hub) rfl
  | close n a =>
    simp only [perform, ended, close]
    split
    · rename_i h _ _
      exact .of_quiet (Hub.arms_close h w.hub) rfl
    · exact .refl w
  | newWatcher x s fd => exact binds_newWatcher w x s fd
  | dropWatcher x =>
    simp only [perform, ended, dropWatcher]
    split
    · exact .refl w
    · exact .of_quiet (Hub.arms_dropWatcher w.hub _) rfl
  | newHeartbeat t s => exact binds_newHeartbeat w t s
  | stopHeartbeat t =>
    simp only [perform, ended, stopHeartbeat]
    split
    · exact .refl w
    · exact .of_quiet (Hub.arms_stopHeartbeat w.hub _) rfl
  | dropHeartbeat t =>
    simp only [perform, ended, dropHeartbeat]
    split
    · exact .refl w
    · exact .of_quiet (Hub.arms_dropHeartbeat w.hub _) rfl
  | complete fd d o => exact binds_complete w fd d o
  | invoke slot o =>
    simp only [perform, invoke]
    split
    · exact .refl w
    · refine .of_slots (reactor_completeWait _ _ _ _) fun x hx => ?_
      rw [slots_completeWait] at hx
      exact mem_values_erase hx
  | takeReady fd d slot => exact binds_takeReady w fd d slot
  | takeTimed slot => exact binds_takeTimed w slot
  | discard slot =>
    simp only [perform, ended, discard]
    split
    · exact .refl w
    · exact .of_slots rfl fun x hx => mem_values_erase hx
  | deliverCanceled => exact binds_deliverCanceled w
  | register id n fd => exact binds_register w id n fd
  | dropRegistration id =>
    simp only [perform, ended, dropRegistration]
    split
    · exact .refl w
    · exact .of_quiet (.release _ _) rfl
  | newTimer n =>
    have hnew : Manual.Arms (fun _ => False) w.hub.reactor w.hub.reactor.newTimer.2 :=
      .of_waits rfl fun _ => id
    simp only [perform, ended, newTimer]
    split
    · exact .of_quiet hnew rfl
    · exact .of_quiet (hnew.trans (.cancel _ _)) rfl
  | cancelTimer id =>
    simp only [perform, ended, cancelTimer]
    split
    · exact .refl w
    · exact .of_quiet (.cancel _ _) rfl
  | dropTimer id =>
    simp only [perform, ended, dropTimer]
    split
    · exact .refl w
    · exact .of_quiet (.cancel _ _) rfl
  | _ =>
    simp only [perform, ended, ask, dispatch, newEngine, dropEngine, extendScript, newStrand,
      dropStrand, strandBusy, retireWatcher, viewWatcher, viewHeartbeat]
    repeat' split
    all_goals exact .of_waits fun _ => id

private theorem binds_leaveDispatch {Q : Nat → Prop} (w : World) (s : Nat) :
    Binds Q w (w.leaveDispatch s) := by
  simp only [leaveDispatch]
  split
  · exact .of_waits fun _ => id
  · split
    · exact .of_waits fun _ => id
    · exact .of_quiet (Hub.arms_drop _ (w.hub.leaveStrand s)) rfl

private theorem binds_finishCall {Q : Nat → Prop} (w : World) (call : Call) (hq : Q call.engine) :
    Binds Q w (w.finishCall call) :=
  .of_engine (Hub.armsFor_finish w.hub call) rfl hq

end World

namespace Config
variable {c c' : Config}

/-- An engine that has a name, or that is being called. -/
def Engages (c : Config) (e : Nat) : Prop :=
  (∃ n, c.world.engines.get? n = some e) ∨ ∃ call ∈ c.calls, call.engine = e

/-- A step arms waits only for such engines. -/
theorem binds_step (hs : c.step = some c') : World.Binds c.Engages c.world c'.world := by
  obtain ⟨w, ⟨activity, todo, entries⟩, below⟩ := c
  unfold step at hs
  cases todo with
  | cons op todo =>
    have hperform : World.Binds (Engages ⟨w, ⟨activity, op :: todo, entries⟩, below⟩) w
        (w.perform op).1 := (w.binds_perform op).mono fun _ hn => Or.inl hn
    dsimp only at hs
    cases hp : w.perform op with
    | mk w' effect =>
      rw [hp] at hs hperform
      cases effect with
      | ended entry =>
        cases hs
        exact hperform
      | opened activity' ops =>
        cases hs
        exact hperform
  | nil =>
    cases activity with
    | outside => cases hs
    | inside s =>
      rw [close_world hs]
      exact World.binds_leaveDispatch w s
    | completion cue reply =>
      rw [close_world hs]
      refine World.binds_finishCall w cue.call (Or.inr ⟨cue.call, ?_, rfl⟩)
      rw [calls_mk]
      exact List.mem_append.mpr (Or.inl (List.mem_singleton_self _))
    | firing count records current =>
      cases current with
      | some cue =>
        cases hs
        refine World.binds_finishCall w cue.call (Or.inr ⟨cue.call, ?_, rfl⟩)
        rw [calls_mk]
        exact List.mem_append.mpr (Or.inl (List.mem_singleton_self _))
      | none =>
        dsimp only at hs
        unfold fire at hs
        cases ht : w.hub.reactor.takeDue with
        | none =>
          rw [ht] at hs
          rw [close_world hs]
          exact .refl w
        | some taken =>
          obtain ⟨wait, m⟩ := taken
          obtain ⟨deadline, htimed⟩ := Manual.takeTimed_of_takeDue ht
          have hmem := (Manual.mem_waits_takeTimed htimed).2
          let w₁ := w.modifyReactor fun _ => m
          have hreactor := w₁.reactor_completeWait wait (.ok ()) .done
          have hslots := w₁.slots_completeWait wait (.ok ()) .done
          have hbinds : World.Binds
              (Engages ⟨w, ⟨.firing count records none, [], entries⟩, below⟩) w
              (w₁.completeWait wait (.ok ()) .done).1 :=
            .of_take hmem hreactor fun x hx => Or.inr (hslots ▸ hx)
          unfold World.completeWait at hbinds
          rw [ht] at hs
          dsimp only at hs
          cases hb : (w.modifyReactor fun _ => m).begin wait (.ok ()) with
          | mk w' call =>
            rw [hb] at hs hbinds
            cases call with
            | none =>
              cases hs
              exact hbinds
            | some call =>
              cases hs
              exact hbinds

end Config
end Scenario
end Wakeup
