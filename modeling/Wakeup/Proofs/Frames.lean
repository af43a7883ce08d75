import Wakeup.Proofs.Granted

/-! Handlers watch what they are asked to watch. No other operation, and no end of a dispatch or a
call, changes which descriptors a handler watches or what is wanted of them. -/
namespace Wakeup

namespace Hub
variable (hub : Hub Manual) (i j : Nat) (d : Direction)

theorem wants_dropWatcher : (hub.dropWatcher i).wants j d = hub.wants j d :=
  wants_congr (side?_dropWatcher hub i j d)

theorem wants_drop (h : Handler) : (h.drop hub).wants j d = hub.wants j d := by
  have hwatchers : ∀ (is : List Nat) (hub : Hub Manual),
      (is.foldl (fun hub i => hub.dropWatcher i) hub).wants j d = hub.wants j d := by
    intro is
    induction is with
    | nil => exact fun _ => rfl
    | cons i is ih =>
      intro hub
      rw [List.foldl_cons, ih, wants_dropWatcher]
  unfold Handler.drop
  cases h.heartbeat with
  | none => exact hwatchers _ hub
  | some t =>
    refine Eq.trans ?_ (hwatchers h.watchers.values hub)
    exact wants_congr (side?_congr (Calm.dropHeartbeat _ t).watchers j d)

/-- Asking for interest in one watcher changes what is wanted of no other. -/
theorem wants_setInterest_of_ne {i j : Nat} (h : i ≠ j) (e : Nat) (ev : Events) :
    (hub.setInterest i e ev).wants j d = hub.wants j d :=
  wants_congr ((side?_setInterest hub i e ev j d).trans (if_neg h))

theorem wants_setInterest_self {i : Nat} (h : i < hub.watchers.length) (e : Nat) (ev : Events) :
    (hub.setInterest i e ev).wants i d = ev.wants d := by
  rw [wants_eq, side?_setInterest, if_pos rfl]
  have hside : hub.side? i d = some (hub.watchers[i].sides.get d) := by simp [side?, h]
  rw [hside]
  rfl

theorem wants_retire_of_ne {i j : Nat} (h : i ≠ j) :
    (hub.retire i).wants j d = hub.wants j d :=
  wants_congr ((side?_retire hub i j d).trans (if_neg h))

theorem wants_newWatcher_of_lt {hub hub' : Hub Manual} {s : Nat} {fd : Fd} {i j : Nat}
    (h : hub.newWatcher s fd = (.ok i, hub')) (hlt : j < hub.watchers.length) :
    hub'.wants j d = hub.wants j d := by
  obtain ⟨-, -, -, hi, -⟩ := newWatcher_ok h
  refine wants_congr ((side?_newWatcher h j d).trans (if_neg ?_))
  omega

end Hub

namespace Scenario
namespace World

/-- A change after which handlers watch what they watched, and what is wanted of the watchers that
there were is the same, but for watchers on their own. -/
structure KeepsRegistry (w w' : World) : Prop where
  live : ∀ h' ∈ w'.live, (∃ h ∈ w.live, h'.strand = h.strand ∧ h'.watchers = h.watchers) ∨
    h'.strand = w.hub.strands.length ∧ h'.watchers = ∅
  wants : ∀ i < w.hub.watchers.length, i ∉ w.watchers.values → ∀ d,
    w'.hub.wants i d = w.hub.wants i d

theorem mem_live_of_insert {w w' : World} {n : Int} {x h : Handler}
    (hh : w'.handlers = w.handlers.insert n x) (hr : ∀ h' ∈ w'.replaced, h' ∈ w.live)
    (hmem : h ∈ w'.live) : h = x ∨ h ∈ w.live := by
  rcases List.mem_append.mp hmem with hmem | hmem
  · obtain ⟨k, hk⟩ := Table.mem_values.mp hmem
    rw [hh, Table.get?_insert] at hk
    split at hk
    · exact Or.inl (Option.some.inj hk).symm
    · exact Or.inr (List.mem_append.mpr (Or.inl (Table.mem_values.mpr ⟨k, hk⟩)))
  · exact Or.inr (hr h hmem)

private theorem mem_live_of_erase {w w' : World} {n : Int} {h : Handler}
    (hh : w'.handlers = w.handlers.erase n) (hr : w'.replaced = w.replaced)
    (hmem : h ∈ w'.live) : h ∈ w.live := by
  rcases List.mem_append.mp hmem with hmem | hmem
  · obtain ⟨k, hk⟩ := Table.mem_values.mp hmem
    rw [hh, Table.get?_erase] at hk
    split at hk
    · cases hk
    · exact List.mem_append.mpr (Or.inl (Table.mem_values.mpr ⟨k, hk⟩))
  · exact List.mem_append.mpr (Or.inr (hr ▸ hmem))

namespace KeepsRegistry
variable {w w' : World}

theorem of_live (hl : ∀ h ∈ w'.live, h ∈ w.live)
    (hw : ∀ i < w.hub.watchers.length, i ∉ w.watchers.values → ∀ d,
      w'.hub.wants i d = w.hub.wants i d) : KeepsRegistry w w' :=
  ⟨fun h hmem => Or.inl ⟨h, hl h hmem, rfl, rfl⟩, hw⟩

theorem of_wants (hh : w'.handlers = w.handlers) (hr : w'.replaced = w.replaced)
    (hw : ∀ i d, w'.hub.wants i d = w.hub.wants i d) : KeepsRegistry w w' := by
  refine .of_live ?_ fun i _ _ d => hw i d
  unfold World.live
  rw [hh, hr]
  exact fun _ => id

theorem of_watchers (hh : w'.handlers = w.handlers) (hr : w'.replaced = w.replaced)
    (hw : w'.hub.watchers = w.hub.watchers) : KeepsRegistry w w' :=
  .of_wants hh hr fun i d => Hub.wants_congr (Hub.side?_congr hw i d)

/-- A handler changes and watches what it watched. -/
theorem of_insert {n : Int} {h x : Handler} (hget : w.handlers.get? n = some h)
    (hs : x.strand = h.strand) (hx : x.watchers = h.watchers)
    (hh : w'.handlers = w.handlers.insert n x) (hr : w'.replaced = w.replaced)
    (hw : w'.hub.watchers = w.hub.watchers) : KeepsRegistry w w' := by
  constructor
  · intro h' hmem
    have hreplaced : ∀ h' ∈ w'.replaced, h' ∈ w.live :=
      fun h' hmem => List.mem_append.mpr (Or.inr (hr ▸ hmem))
    rcases mem_live_of_insert hh hreplaced hmem with rfl | hmem
    · exact Or.inl ⟨h, Config.mem_live_of_get? hget, hs, hx⟩
    · exact Or.inl ⟨h', hmem, rfl, rfl⟩
  · exact fun i _ _ d => Hub.wants_congr (Hub.side?_congr hw i d)

private theorem newHandler (w : World) (n : Int) : KeepsRegistry w (w.newHandler n) := by
  have hnew (w' : World) (hh : w'.handlers = w.handlers.insert n (Handler.create w.hub).1)
      (hr : ∀ h ∈ w'.replaced, h ∈ w.live)
      (hw : ∀ i d, w'.hub.wants i d = w.hub.wants i d) : KeepsRegistry w w' := by
    refine ⟨fun h' hmem => ?_, fun i _ _ d => hw i d⟩
    rcases mem_live_of_insert hh hr hmem with rfl | hmem
    · exact Or.inr ⟨rfl, rfl⟩
    · exact Or.inl ⟨h', hmem, rfl, rfl⟩
  have hreplaced : ∀ h ∈ w.replaced, h ∈ w.live := fun h hmem => List.mem_append.mpr (Or.inr hmem)
  unfold World.newHandler
  cases hold : w.handlers.get? n with
  | none => exact hnew _ rfl hreplaced fun _ _ => rfl
  | some old =>
    dsimp only
    unfold World.replaceHandler
    split
    · refine hnew _ rfl (fun h hmem => ?_) fun _ _ => rfl
      rcases List.mem_cons.mp hmem with rfl | hmem
      · exact Config.mem_live_of_get? hold
      · exact hreplaced h hmem
    · exact hnew _ rfl hreplaced fun i d => Hub.wants_drop _ i d old

private theorem dropHandler (w : World) (n : Int) : KeepsRegistry w (w.dropHandler n).1 := by
  unfold World.dropHandler
  split
  · exact .of_watchers rfl rfl rfl
  · rename_i h _
    exact .of_live (fun _ => mem_live_of_erase rfl rfl) fun i _ _ d => Hub.wants_drop w.hub i d h

private theorem leaveDispatch (w : World) (s : Nat) : KeepsRegistry w (w.leaveDispatch s) := by
  unfold World.leaveDispatch
  dsimp only
  split
  · exact .of_watchers rfl rfl rfl
  · split
    · exact .of_watchers rfl rfl rfl
    · rename_i old _
      refine .of_live (fun h hmem => ?_) fun i _ _ d => Hub.wants_drop (w.hub.leaveStrand s) i d old
      refine (List.mem_append.mp hmem).elim (fun hmem => ?_) fun hmem => ?_
      · exact List.mem_append.mpr (Or.inl hmem)
      · exact List.mem_append.mpr (Or.inr (List.mem_of_mem_filter hmem))

private theorem negotiate (w : World) (n e : Int) (seconds : Nat) :
    KeepsRegistry w (w.negotiate n e seconds).1 := by
  unfold World.negotiate
  split
  · rename_i engine h he hh
    have hset (hub : Hub Manual) (t : Nat) (interval : Interval) :
        (hub.setHeartbeat t engine interval).watchers = hub.watchers :=
      (Calm.setHeartbeat hub t engine interval).watchers
    unfold Handler.negotiate
    cases Interval.ofSeconds? seconds with
    | none => exact .of_insert hh rfl rfl rfl rfl rfl
    | some interval =>
      cases hb : h.heartbeat with
      | some t => exact .of_insert hh rfl rfl rfl rfl (hset ..)
      | none =>
        let x : Handler := { h with heartbeat := some (w.hub.newHeartbeat h.strand).1 }
        exact .of_insert (x := x) hh rfl rfl rfl rfl (hset ..)
  · exact .of_watchers rfl rfl rfl

private theorem close (w : World) (n e : Int) : KeepsRegistry w (w.close n e).1 := by
  unfold World.close
  split
  · rename_i engine h he hh
    unfold Handler.close
    cases h.heartbeat with
    | none => exact .of_insert hh rfl rfl rfl rfl rfl
    | some t =>
      refine .of_insert (x := { h with heartbeat := none }) hh rfl rfl rfl rfl ?_
      exact (Calm.dropHeartbeat _ t).watchers.trans (Calm.stopHeartbeat _ t).watchers
  · exact .of_watchers rfl rfl rfl

theorem completeWait {w₀ : World} (wait : Wait) (o : Outcome) (reply : Reply)
    (h : KeepsRegistry w₀ (w.begin wait o).1) :
    KeepsRegistry w₀ (w.completeWait wait o reply).1 := by
  unfold World.completeWait
  cases hb : w.begin wait o with
  | mk w' call =>
    rw [hb] at h
    cases call with
    | none => exact h
    | some call =>
      have hcue : (w'.cue call).1.handlers = w'.handlers ∧ (w'.cue call).1.replaced = w'.replaced ∧
          (w'.cue call).1.hub = w'.hub := by
        unfold World.cue
        repeat' split
        all_goals exact ⟨rfl, rfl, rfl⟩
      obtain ⟨hh, hr, hhub⟩ := hcue
      refine ⟨fun h' hmem => h.live h' ?_, fun i hi hn d => ?_⟩
      · unfold World.live at hmem ⊢
        rwa [← hh, ← hr]
      · exact (congrArg (·.wants i d) hhub).trans (h.wants i hi hn d)

private theorem deliverCanceled (w : World) : KeepsRegistry w w.deliverCanceled.1 := by
  have hall : ∀ (waits : List Wait) (w : World),
      (waits.foldl (fun w wait => w.deliverOne wait) w).handlers = w.handlers ∧
      (waits.foldl (fun w wait => w.deliverOne wait) w).replaced = w.replaced ∧
      ∀ i d, (waits.foldl (fun w wait => w.deliverOne wait) w).hub.wants i d =
        w.hub.wants i d := by
    intro waits
    induction waits with
    | nil => exact fun w => ⟨rfl, rfl, fun _ _ => rfl⟩
    | cons wait waits ih =>
      intro w
      obtain ⟨hh, hr, hw⟩ := ih (w.deliverOne wait)
      refine ⟨hh, hr, fun i d => (hw i d).trans ?_⟩
      exact Hub.wants_begin w.hub wait.callback _ i d
  obtain ⟨hh, hr, hw⟩ := hall w.hub.reactor.parked (w.modifyReactor fun m => m.takeParked.2)
  exact .of_wants hh hr hw

private theorem newWatcher (w : World) (n s : Int) (fd : Fd) :
    KeepsRegistry w (w.newWatcher n s fd).1 := by
  unfold World.newWatcher
  split
  · exact .of_watchers rfl rfl rfl
  · rename_i strand _
    cases hn : w.hub.newWatcher strand fd with
    | mk result hub =>
      cases result with
      | error err =>
        obtain ⟨m, -, rfl⟩ := Hub.newWatcher_error hn
        exact .of_watchers rfl rfl rfl
      | ok x =>
        refine .of_live (fun _ => id) fun i hlt _ d => ?_
        have hnew := Hub.wants_newWatcher_of_lt d hn hlt
        dsimp only
        split
        · exact hnew
        · exact (Hub.wants_dropWatcher _ _ _ _).trans hnew

private theorem setWatcher (w : World) (n e : Int) (ev : Events) :
    KeepsRegistry w (w.setWatcher n e ev).1 := by
  unfold World.setWatcher
  split
  · rename_i engine x he hx
    refine .of_live (fun _ => id) fun i _ hi d => Hub.wants_setInterest_of_ne _ _ ?_ _ _
    rintro rfl
    exact hi (Table.mem_values.mpr ⟨n, hx⟩)
  · exact .of_watchers rfl rfl rfl

private theorem retireWatcher (w : World) (n : Int) : KeepsRegistry w (w.retireWatcher n).1 := by
  unfold World.retireWatcher
  split
  · exact .of_watchers rfl rfl rfl
  · rename_i x hx
    refine .of_live (fun _ => id) fun i _ hi d => Hub.wants_retire_of_ne _ _ ?_
    rintro rfl
    exact hi (Table.mem_values.mpr ⟨n, hx⟩)

private theorem dropWatcher (w : World) (n : Int) : KeepsRegistry w (w.dropWatcher n).1 := by
  unfold World.dropWatcher
  split
  · exact .of_watchers rfl rfl rfl
  · exact .of_wants rfl rfl fun i d => Hub.wants_dropWatcher _ _ i d

/-- Only being asked for interest changes what handlers watch. -/
theorem perform (w : World) {op : Op} (hop : ∀ n e fd ev, op ≠ .monitor n e fd ev) :
    KeepsRegistry w (w.perform op).1 := by
  cases op with
  | monitor n e fd ev => exact absurd rfl (hop n e fd ev)
  | newHandler n => exact newHandler w n
  | dropHandler n => exact dropHandler w n
  | negotiate n e seconds => exact negotiate w n e seconds
  | close n e => exact close w n e
  | complete fd d o =>
    simp only [World.perform, World.complete]
    split
    · exact .of_watchers rfl rfl rfl
    · exact completeWait _ _ _ (.of_wants rfl rfl fun i d => Hub.wants_begin _ _ _ i d)
  | invoke slot o =>
    simp only [World.perform, World.invoke]
    split
    · exact .of_watchers rfl rfl rfl
    · exact completeWait _ _ _ (.of_wants rfl rfl fun i d => Hub.wants_begin _ _ _ i d)
  | deliverCanceled => exact deliverCanceled w
  | newWatcher n s fd => exact newWatcher w n s fd
  | setWatcher n e ev => exact setWatcher w n e ev
  | retireWatcher n => exact retireWatcher w n
  | dropWatcher n => exact dropWatcher w n
  | setHeartbeat n e seconds =>
    simp only [World.perform, World.setHeartbeat]
    split
    · rename_i engine t interval _ _ _
      exact .of_watchers rfl rfl (Calm.setHeartbeat w.hub t engine interval).watchers
    · exact .of_watchers rfl rfl rfl
  | stopHeartbeat n =>
    simp only [World.perform, World.stopHeartbeat]
    split
    · exact .of_watchers rfl rfl rfl
    · rename_i t _
      exact .of_watchers rfl rfl (Calm.stopHeartbeat w.hub t).watchers
  | dropHeartbeat n =>
    simp only [World.perform, World.dropHeartbeat]
    split
    · exact .of_watchers rfl rfl rfl
    · rename_i t _
      exact .of_watchers rfl rfl (Calm.dropHeartbeat w.hub t).watchers
  | newHeartbeat n s =>
    simp only [World.perform, World.newHeartbeat]
    split
    · exact .of_watchers rfl rfl rfl
    · rename_i s _
      refine .of_watchers rfl rfl ?_
      dsimp only [World.ended]
      split
      · rfl
      · rename_i old _
        exact (Calm.dropHeartbeat (w.hub.newHeartbeat s).2 old).watchers
  | _ =>
    simp only [World.perform, World.ask, World.dispatch, World.newEngine, World.dropEngine,
      World.extendScript, World.takeReady, World.takeTimed, World.discard, World.register,
      World.armRegistration, World.dropRegistration, World.newTimer, World.armTimer,
      World.cancelTimer, World.dropTimer, World.newStrand, World.dropStrand, World.strandBusy,
      World.viewWatcher, World.viewHeartbeat]
    repeat' split
    all_goals exact .of_watchers rfl rfl rfl

end KeepsRegistry

/-- Nothing else than being asked for interest counts as being asked. -/
theorem asked?_of_mem_events {w : World} {op : Op} (hop : ∀ n e fd ev, op ≠ .monitor n e fd ev)
    {entry : Event} (hmem : entry ∈ w.events op) (s : Nat) (fd : Fd) :
    entry.asked? s fd = none := by
  have hmap {l : List Wait} {f : Wait → Event} (hf : ∀ wait, (f wait).asked? s fd = none)
      (hmem : entry ∈ l.map f) : entry.asked? s fd = none := by
    obtain ⟨wait, -, rfl⟩ := List.mem_map.mp hmem
    exact hf wait
  cases op with
  | monitor n e fd ev => exact absurd rfl (hop n e fd ev)
  | negotiate n e seconds =>
    simp only [World.events] at hmem
    split at hmem
    · rw [List.mem_singleton.mp hmem]
      rfl
    · cases hmem
  | complete fd' d o =>
    simp only [World.events] at hmem
    split at hmem
    · cases hmem
    · rw [List.mem_singleton.mp hmem]
      rfl
  | takeReady fd' d slot =>
    simp only [World.events] at hmem
    split at hmem
    · cases hmem
    · exact hmap (fun _ => rfl) hmem
  | takeTimed slot =>
    simp only [World.events] at hmem
    split at hmem
    · cases hmem
    · exact hmap (fun _ => rfl) hmem
  | invoke slot o => exact hmap (fun _ => rfl) hmem
  | deliverCanceled => exact hmap (fun _ => rfl) hmem
  | discard slot => exact hmap (fun _ => rfl) hmem
  | _ => cases hmem

end World

namespace Config
open World
variable {c c' : Config}

theorem close_world {w : World} {entry : Entry} {below : List Frame}
    (h : close w entry below = some c') : c'.world = w := by
  unfold close at h
  split at h
  · cases h
  · cases h
    rfl

/-- A step either performs an operation by which a handler is asked for interest, or leaves what
handlers watch as it is. -/
theorem keepsRegistry_step (hs : c.step = some c')
    (hop : ∀ n e fd ev todo, c.frame.todo ≠ .monitor n e fd ev :: todo) :
    KeepsRegistry c.world c'.world ∧ ∀ entry ∈ c.events, ∀ s fd, entry.asked? s fd = none := by
  obtain ⟨w, ⟨activity, todo, entries⟩, below⟩ := c
  unfold step at hs
  cases todo with
  | cons op todo =>
    have hop' : ∀ n e fd ev, op ≠ .monitor n e fd ev :=
      fun n e fd ev heq => hop n e fd ev todo (congrArg (· :: todo) heq)
    refine ⟨?_, fun entry hmem s fd => asked?_of_mem_events hop' hmem s fd⟩
    have hkeeps := KeepsRegistry.perform w hop'
    dsimp only at hs
    cases hp : w.perform op with
    | mk w' effect =>
      rw [hp] at hs hkeeps
      cases effect with
      | ended entry =>
        cases hs
        exact hkeeps
      | opened activity' ops =>
        cases hs
        exact hkeeps
  | nil =>
    have hnone : ∀ entry ∈ ([] : List Event), ∀ s fd, entry.asked? s fd = none :=
      fun _ hmem => absurd hmem List.not_mem_nil
    cases activity with
    | outside => cases hs
    | inside s =>
      rw [close_world hs]
      exact ⟨.leaveDispatch w s, hnone⟩
    | completion cue reply =>
      rw [close_world hs]
      exact ⟨.of_wants rfl rfl fun i d => Hub.wants_finish w.hub cue.call i d, hnone⟩
    | firing count records current =>
      cases current with
      | some cue =>
        cases hs
        exact ⟨.of_wants rfl rfl fun i d => Hub.wants_finish w.hub cue.call i d, hnone⟩
      | none =>
        dsimp only at hs
        unfold fire at hs
        simp only [events]
        cases ht : w.hub.reactor.takeDue with
        | none =>
          rw [ht] at hs
          rw [close_world hs]
          exact ⟨.of_watchers rfl rfl rfl, hnone⟩
        | some taken =>
          obtain ⟨wait, m⟩ := taken
          rw [ht] at hs
          dsimp only at hs
          constructor
          · have hbegin : KeepsRegistry w ((w.modifyReactor fun _ => m).begin wait (.ok ())).1 :=
              .of_wants rfl rfl fun i d => Hub.wants_begin _ _ _ i d
            have hcomplete := hbegin.completeWait wait (.ok ()) .done
            unfold World.completeWait at hcomplete
            cases hb : (w.modifyReactor fun _ => m).begin wait (.ok ()) with
            | mk w' call =>
              rw [hb] at hs hcomplete
              cases call with
              | none =>
                cases hs
                exact hcomplete
              | some call =>
                cases hs
                exact hcomplete
          · intro entry hmem s fd
            rw [List.mem_singleton.mp hmem]
            rfl

end Config
end Scenario
end Wakeup
