import Wakeup.Proofs.Operations

/-! Every step of the machine is a sequence of moves of its ledger. -/
namespace Wakeup

namespace Manual

theorem takeTimed_of_takeEarliest {m m' : Manual} {deadline : Nat} {wait : Wait}
    (h : m.takeEarliest = some (deadline, wait, m')) :
    m.takeTimed deadline = some (wait, m') := by
  unfold takeEarliest at h
  obtain ⟨d, _, h⟩ := Option.bind_eq_some_iff.mp h
  obtain ⟨⟨wait', m''⟩, ht, heq⟩ := Option.map_eq_some_iff.mp h
  cases heq
  exact ht

theorem takeTimed_of_takeDue {m m' : Manual} {wait : Wait} (h : m.takeDue = some (wait, m')) :
    ∃ deadline, m.takeTimed deadline = some (wait, m') := by
  unfold takeDue at h
  obtain ⟨d, _, h⟩ := Option.bind_eq_some_iff.mp h
  split at h
  · exact ⟨d, h⟩
  · cases h

end Manual

namespace Scenario
open Ledger

/-- The calls of engines that an operation leads to. -/
def Effect.calls : Effect → List Call
  | .ended _ => []
  | .opened activity _ => activity.call?.toList

/-- The dispatches that an operation leads to. -/
def Effect.insides : Effect → List Nat
  | .ended _ => []
  | .opened activity _ => activity.inside?.toList

theorem serves_congr {hub hub' : Hub Manual} (h : hub.engines = hub'.engines) (c : Callback) :
    serves hub c = serves hub' c := by
  cases c <;> simp [serves, Hub.engineAlive, h]

namespace World

theorem cue_fields (call : Call) (w : World) :
    (w.cue call).2.call = call ∧
      ∀ calls inside log, (w.cue call).1.ledger calls inside log = w.ledger calls inside log := by
  unfold cue
  repeat' split
  all_goals exact ⟨rfl, fun _ _ _ => rfl⟩

end World

section Operations
variable (w : World) (calls : List Call) (inside : List Nat) (log : List Event)

private theorem moves_register (id h : Int) (fd : Fd) :
    Moves (w.ledger calls inside log) ((w.register id h fd).1.ledger calls inside log) := by
  unfold World.register
  split
  · exact .refl
  · split
    · rename_i err m hr
      exact .single (.refused hr)
    · rename_i r m hr
      have h₁ : Moves (w.ledger calls inside log) { (w.ledger calls inside log).setReactor m with
          registrations := r ::ₘ ↑w.registrations.values } := .single (.register hr)
      dsimp only
      change Moves _ { (w.ledger calls inside log).setReactor _ with
        registrations := ↑(w.registrations.insert id r).values }
      rw [Table.coe_values_insert]
      split
      · rename_i hg
        rw [Table.erase_of_get?_eq_none hg]
        exact h₁
      · rename_i old hg
        rw [Table.coe_values_of_get? hg, Multiset.cons_swap] at h₁
        exact h₁.tail (.release rfl)

private theorem moves_armRegistration (id : Int) (d : Direction) (tag : Tag) :
    Moves (w.ledger calls inside log)
      ((w.armRegistration id d tag).1.ledger calls inside log) := by
  unfold World.armRegistration
  split
  · exact .refl
  · rename_i r hg
    exact .single (.armBare d tag (Table.mem_values.mpr ⟨id, hg⟩))

private theorem moves_dropRegistration (id : Int) :
    Moves (w.ledger calls inside log) ((w.dropRegistration id).1.ledger calls inside log) := by
  unfold World.dropRegistration
  split
  · exact .refl
  · rename_i r hg
    exact .single (.release (Table.coe_values_of_get? hg))

private theorem moves_newTimer (id : Int) :
    Moves (w.ledger calls inside log) ((w.newTimer id).ledger calls inside log) := by
  have h₁ : Moves (w.ledger calls inside log)
      { (w.ledger calls inside log).setReactor w.hub.reactor.newTimer.2 with
        timers := w.hub.reactor.newTimer.1 ::ₘ ↑w.timers.values } := .single .newTimer
  unfold World.newTimer
  dsimp only
  change Moves _ { (w.ledger calls inside log).setReactor _ with
    timers := ↑(w.timers.insert id w.hub.reactor.newTimer.1).values }
  rw [Table.coe_values_insert]
  split
  · rename_i hg
    rw [Table.erase_of_get?_eq_none hg]
    exact h₁
  · rename_i old hg
    rw [Table.coe_values_of_get? hg, Multiset.cons_swap] at h₁
    exact h₁.tail (.dropTimer rfl)

private theorem moves_armTimer (id : Int) (delay : Nat) (tag : Tag) :
    Moves (w.ledger calls inside log) ((w.armTimer id delay tag).1.ledger calls inside log) := by
  unfold World.armTimer
  split
  · exact .refl
  · rename_i t hg
    exact .single (.scheduleBare _ tag (Table.mem_values.mpr ⟨id, hg⟩))

private theorem moves_cancelTimer (id : Int) :
    Moves (w.ledger calls inside log) ((w.cancelTimer id).1.ledger calls inside log) := by
  unfold World.cancelTimer
  split
  · exact .refl
  · rename_i t hg
    exact .single (.cancelBare (Table.mem_values.mpr ⟨id, hg⟩))

private theorem moves_dropTimer (id : Int) :
    Moves (w.ledger calls inside log) ((w.dropTimer id).1.ledger calls inside log) := by
  unfold World.dropTimer
  split
  · exact .refl
  · rename_i t hg
    exact .single (.dropTimer (Table.coe_values_of_get? hg))

/-- A wait is put into a slot, and what was kept there is thrown away. -/
theorem moves_keep {w : World} {m : Manual} {wait : Wait} (slot : Int)
    (h : Moves (w.ledger calls inside log)
      { (w.ledger calls inside log).setReactor m with kept := wait ::ₘ ↑w.slots.values }) :
    Moves (w.ledger calls inside log)
      (World.ledger { w.modifyReactor fun _ => m with slots := w.slots.insert slot wait }
        calls inside (((w.slots.get? slot).toList.map .discarded).reverse ++ log)) := by
  change Moves _ { (w.ledger calls inside log).setReactor m with
    kept := ↑(w.slots.insert slot wait).values, log := _ }
  rw [Table.coe_values_insert]
  cases hg : w.slots.get? slot with
  | none =>
    rw [Table.erase_of_get?_eq_none hg]
    exact h
  | some old =>
    rw [Table.coe_values_of_get? hg, Multiset.cons_swap] at h
    exact h.tail (.discard rfl)

private theorem moves_takeReady (fd : Fd) (d : Direction) (slot : Int) :
    Moves (w.ledger calls inside log) ((w.takeReady fd d slot).1.ledger calls inside
      ((w.events (.takeReady fd d slot)).reverse ++ log)) := by
  simp only [World.takeReady, World.events]
  cases ht : w.hub.reactor.takeReady fd d with
  | none => exact .refl
  | some taken =>
    obtain ⟨wait, m⟩ := taken
    exact moves_keep calls inside log slot (.single (.takeReady ht))

private theorem moves_takeTimed (slot : Int) :
    Moves (w.ledger calls inside log) ((w.takeTimed slot).1.ledger calls inside
      ((w.events (.takeTimed slot)).reverse ++ log)) := by
  simp only [World.takeTimed, World.events]
  cases ht : w.hub.reactor.takeEarliest with
  | none => exact .refl
  | some taken =>
    obtain ⟨deadline, wait, m⟩ := taken
    exact moves_keep calls inside log slot
      (.single (.takeTimed (Manual.takeTimed_of_takeEarliest ht)))

private theorem moves_discard (slot : Int) :
    Moves (w.ledger calls inside log) ((w.discard slot).1.ledger calls inside
      ((w.events (.discard slot)).reverse ++ log)) := by
  simp only [World.discard, World.events]
  cases hg : w.slots.get? slot with
  | none => exact .refl
  | some wait => exact .single (.discard (Table.coe_values_of_get? hg))

/-- A wait that was taken from the reactor is completed. -/
theorem moves_begin {L : Ledger} (wait : Wait) (o : Outcome)
    (hL : L = { w.ledger calls inside log with kept := wait ::ₘ ↑w.slots.values }) :
    Moves L ((w.begin wait o).1.ledger ((w.begin wait o).2.toList ++ calls) inside
      (w.completed wait o :: log)) := by
  subst hL
  exact .single (.complete o rfl)

theorem moves_completeWait {L : Ledger} (wait : Wait) (o : Outcome) (reply : Reply)
    (hL : L = { w.ledger calls inside log with kept := wait ::ₘ ↑w.slots.values }) :
    Moves L ((w.completeWait wait o reply).1.ledger
      ((w.completeWait wait o reply).2.calls ++ calls)
      ((w.completeWait wait o reply).2.insides ++ inside) (w.completed wait o :: log)) := by
  have h₁ := moves_begin w calls inside log wait o hL
  unfold World.completeWait
  cases hb : w.begin wait o with
  | mk w' call =>
    rw [hb] at h₁
    cases call with
    | none => exact h₁
    | some call =>
      obtain ⟨hc, hl⟩ := w'.cue_fields call
      dsimp only
      rw [hl]
      simp only [Effect.calls, Effect.insides, Activity.call?, Activity.inside?, hc]
      exact h₁

private theorem moves_complete (fd : Fd) (d : Direction) (o : Outcome) :
    Moves (w.ledger calls inside log) ((w.complete fd d o).1.ledger
      ((w.complete fd d o).2.calls ++ calls) ((w.complete fd d o).2.insides ++ inside)
      ((w.events (.complete fd d o)).reverse ++ log)) := by
  simp only [World.complete, World.events]
  cases ht : w.hub.reactor.takeReady fd d with
  | none => exact .refl
  | some taken =>
    obtain ⟨wait, m⟩ := taken
    have h₁ := Move.takeReady (L := w.ledger calls inside log) ht
    have h₂ := moves_completeWait (w.modifyReactor fun _ => m) calls inside log wait o (.flag true)
      rfl
    have hs : (w.modifyReactor fun _ => m).completed wait o = w.completed wait o := by
      unfold World.completed
      rw [serves_congr rfl]
      rfl
    rw [hs] at h₂
    exact Relation.ReflTransGen.head h₁ h₂

private theorem moves_invoke (slot : Int) (o : Outcome) :
    Moves (w.ledger calls inside log) ((w.invoke slot o).1.ledger
      ((w.invoke slot o).2.calls ++ calls) ((w.invoke slot o).2.insides ++ inside)
      ((w.events (.invoke slot o)).reverse ++ log)) := by
  simp only [World.invoke, World.events]
  cases hg : w.slots.get? slot with
  | none => exact .refl
  | some wait =>
    have hL : w.ledger calls inside log =
        { World.ledger { w with slots := w.slots.erase slot } calls inside log with
          kept := wait ::ₘ ↑(w.slots.erase slot).values } := by
      rw [← Table.coe_values_of_get? hg]
      rfl
    exact moves_completeWait _ calls inside log wait o .done hL

private theorem moves_deliver (waits : List Wait) :
    Moves { w.ledger calls inside log with kept := ↑waits + ↑w.slots.values }
      ((waits.foldl (fun w wait => w.deliverOne wait) w).ledger calls inside
        ((waits.map (w.completed · (.error .canceled))).reverse ++ log)) := by
  induction waits generalizing w log with
  | nil =>
    have hL : { w.ledger calls inside log with kept := ↑([] : List Wait) + ↑w.slots.values } =
        w.ledger calls inside log := by
      rw [Multiset.coe_nil, zero_add]
      rfl
    rw [hL]
    exact .refl
  | cons wait waits ih =>
    have h₁ : Move
        { w.ledger calls inside log with kept := ↑(wait :: waits) + ↑w.slots.values }
        { (w.deliverOne wait).ledger calls inside
            (w.completed wait (.error .canceled) :: log) with
          kept := ↑waits + ↑(w.deliverOne wait).slots.values } := by
      have h := Move.complete
        (L := { w.ledger calls inside log with kept := ↑(wait :: waits) + ↑w.slots.values })
        (.error .canceled) (by rw [← Multiset.cons_coe, Multiset.cons_add])
      dsimp only at h
      rw [Hub.begin_canceled] at h
      exact h
    have hs : ∀ wait', (w.deliverOne wait).completed wait' (.error .canceled) =
        w.completed wait' (.error .canceled) := by
      intro wait'
      have hengines := Hub.engines_begin_canceled wait.callback w.hub
      exact congrArg (Event.completed wait' _) (serves_congr hengines wait'.callback)
    have h₂ := ih (w.deliverOne wait) (w.completed wait (.error .canceled) :: log)
    simp only [hs] at h₂
    rw [List.map_cons, List.reverse_cons, List.append_assoc, List.foldl_cons]
    exact Relation.ReflTransGen.head h₁ h₂

private theorem moves_deliverCanceled :
    Moves (w.ledger calls inside log) ((w.deliverCanceled).1.ledger calls inside
      ((w.events .deliverCanceled).reverse ++ log)) := by
  have h₁ := Move.takeParked (L := w.ledger calls inside log)
  have h₂ := moves_deliver (w.modifyReactor fun _ => w.hub.reactor.takeParked.2) calls inside log
    w.hub.reactor.parked
  exact Relation.ReflTransGen.head h₁ h₂

private theorem moves_dispatch (h : Int) (ops : List Op) :
    Moves (w.ledger calls inside log) ((w.dispatch h ops).1.ledger
      ((w.dispatch h ops).2.calls ++ calls) ((w.dispatch h ops).2.insides ++ inside) log) := by
  unfold World.dispatch
  split
  · exact .refl
  · rename_i handler hg
    have hheld : handler ∈ w.held := by
      rw [World.held_of_get? hg]
      exact Multiset.mem_cons_self _ _
    exact moves_enterDispatch w calls inside log hheld

/-- What an operation does before the operations that it leads to. -/
theorem moves_perform (op : Op)
    (hf : (w.hub.newStrand.1 ::ₘ (w.ledger calls inside log).handlers).Nodup) :
    Moves (w.ledger calls inside log) ((w.perform op).1.ledger
      ((w.perform op).2.calls ++ calls) ((w.perform op).2.insides ++ inside)
      ((w.events op).reverse ++ log)) := by
  have hn : (w.ledger calls inside log).handlers.Nodup := (Multiset.nodup_cons.mp hf).2
  cases op with
  | newHandler h => exact moves_newHandler w calls inside log h hf
  | dropHandler h => exact moves_dropHandlerOp w calls inside log h hn
  | monitor h e fd ev => exact moves_monitorOp w calls inside log h e fd ev hn
  | negotiate h e seconds => exact moves_negotiateOp w calls inside log h e seconds hn
  | close h e => exact moves_closeOp w calls inside log h e
  | query h fd => exact moves_ask w calls inside log h _
  | debug h => exact moves_ask w calls inside log h _
  | busy h => exact moves_ask w calls inside log h _
  | busyInside h => exact moves_ask w calls inside log h _
  | dispatch h ops => exact moves_dispatch w calls inside log h ops
  | newEngine e script plain => exact moves_newEngine w calls inside log e script plain
  | dropEngine e => exact moves_dropEngineOp w calls inside log e
  | script e script => exact moves_extendScript w calls inside log e script
  | refuse fd => exact .single (.refuse fd)
  | advance elapsed => exact .single (.advance elapsed)
  | complete fd d o => exact moves_complete w calls inside log fd d o
  | fireTimers => exact .refl
  | deliverCanceled => exact moves_deliverCanceled w calls inside log
  | takeReady fd d slot => exact moves_takeReady w calls inside log fd d slot
  | takeTimed slot => exact moves_takeTimed w calls inside log slot
  | invoke slot o => exact moves_invoke w calls inside log slot o
  | discard slot => exact moves_discard w calls inside log slot
  | register id h fd => exact moves_register w calls inside log id h fd
  | armRegistration id d tag => exact moves_armRegistration w calls inside log id d tag
  | dropRegistration id => exact moves_dropRegistration w calls inside log id
  | newTimer id => exact moves_newTimer w calls inside log id
  | armTimer id delay tag => exact moves_armTimer w calls inside log id delay tag
  | cancelTimer id => exact moves_cancelTimer w calls inside log id
  | dropTimer id => exact moves_dropTimer w calls inside log id
  | newStrand s => exact moves_newStrand w calls inside log s
  | dropStrand s => exact moves_dropStrandOp w calls inside log s
  | strandBusy s => exact moves_strandBusy w calls inside log s
  | newWatcher x s fd => exact moves_newWatcher w calls inside log x s fd
  | setWatcher x e ev => exact moves_setWatcher w calls inside log x e ev
  | retireWatcher x => exact moves_retireWatcher w calls inside log x
  | viewWatcher x => exact moves_viewWatcher w calls inside log x
  | dropWatcher x => exact moves_dropWatcherOp w calls inside log x
  | newHeartbeat t s => exact moves_newHeartbeat w calls inside log t s
  | setHeartbeat t e seconds => exact moves_setHeartbeat w calls inside log t e seconds
  | stopHeartbeat t => exact moves_stopHeartbeat w calls inside log t
  | viewHeartbeat t => exact moves_viewHeartbeat w calls inside log t
  | dropHeartbeat t => exact moves_dropHeartbeatOp w calls inside log t

end Operations

namespace Config

theorem calls_mk (w : World) (f : Frame) (below : List Frame) : calls ⟨w, f, below⟩ =
    f.activity.call?.toList ++ below.filterMap fun f => f.activity.call? := by
  unfold calls
  rw [List.filterMap_cons]
  cases f.activity.call? <;> rfl

theorem insides_mk (w : World) (f : Frame) (below : List Frame) : insides ⟨w, f, below⟩ =
    f.activity.inside?.toList ++ below.filterMap fun f => f.activity.inside? := by
  unfold insides
  rw [List.filterMap_cons]
  cases f.activity.inside? <;> rfl

theorem ledger_close {w : World} {entry : Entry} {below : List Frame} {c : Config}
    (h : close w entry below = some c) (log : List Event) :
    c.ledger log = w.ledger (below.filterMap fun f => f.activity.call?)
      (below.filterMap fun f => f.activity.inside?) log := by
  unfold close at h
  split at h
  · cases h
  · rename_i f below'
    cases h
    change w.ledger ((f.push entry :: below').filterMap fun f => f.activity.call?)
      ((f.push entry :: below').filterMap fun f => f.activity.inside?) log = _
    rw [List.filterMap_cons, List.filterMap_cons, List.filterMap_cons, List.filterMap_cons]
    rfl

private theorem moves_fire {w : World} {count : Nat} {records : List Record} {entries : List Entry}
    {below : List Frame} {c c' : Config}
    (hc : c = ⟨w, ⟨.firing count records none, [], entries⟩, below⟩)
    (h : fire w count records below = some c') (log : List Event) :
    Moves (c.ledger log) (c'.ledger (c.events.reverse ++ log)) := by
  have hl : c.ledger log = w.ledger (below.filterMap fun f => f.activity.call?)
      (below.filterMap fun f => f.activity.inside?) log := by
    rw [hc, Config.ledger, calls_mk, insides_mk]
    rfl
  unfold fire at h
  cases ht : w.hub.reactor.takeDue with
  | none =>
    have he : c.events = [] := by simp [hc, events, ht]
    rw [ht] at h
    rw [he, hl, ledger_close h]
    exact .refl
  | some taken =>
    obtain ⟨wait, m⟩ := taken
    obtain ⟨deadline, hd⟩ := Manual.takeTimed_of_takeDue ht
    have he : c.events = [w.completed wait (.ok ())] := by simp [hc, events, ht]
    have hs : (w.modifyReactor fun _ => m).completed wait (.ok ()) =
        w.completed wait (.ok ()) := by
      unfold World.completed
      rw [serves_congr rfl]
      rfl
    have h₁ := Move.takeTimed (L := w.ledger (below.filterMap fun f => f.activity.call?)
      (below.filterMap fun f => f.activity.inside?) log) hd
    have h₂ := moves_begin (w.modifyReactor fun _ => m) (below.filterMap fun f => f.activity.call?)
      (below.filterMap fun f => f.activity.inside?) log wait (.ok ()) rfl
    rw [hs] at h₂
    have h₃ := Relation.ReflTransGen.head h₁ h₂
    rw [he, hl]
    rw [ht] at h
    dsimp only at h
    cases hb : (w.modifyReactor fun _ => m).begin wait (.ok ()) with
    | mk w' call =>
      rw [hb] at h h₃
      cases call with
      | none =>
        cases h
        rw [Config.ledger, calls_mk, insides_mk]
        exact h₃
      | some call =>
        obtain ⟨hcall, hledger⟩ := w'.cue_fields call
        cases h
        rw [Config.ledger, calls_mk, insides_mk]
        simp only [Activity.call?, Activity.inside?, hcall, hledger]
        exact h₃

/-- How a step advances its ledger. -/
theorem advance_step {c c' : Config} {log : List Event}
    (hf : ((c.ledger log).hub.newStrand.1 ::ₘ (c.ledger log).handlers).Nodup)
    (h : c.step = some c') :
    Advance (c.ledger log) (c'.ledger (c.events.reverse ++ log)) := by
  obtain ⟨w, ⟨activity, todo, entries⟩, below⟩ := c
  unfold step at h
  cases todo with
  | cons op todo =>
    have hm := moves_perform w (calls ⟨w, ⟨activity, op :: todo, entries⟩, below⟩)
      (insides ⟨w, ⟨activity, op :: todo, entries⟩, below⟩) log op hf
    dsimp only at h
    cases hp : w.perform op with
    | mk w' effect =>
      rw [hp] at h hm
      cases effect with
      | ended entry =>
        cases h
        exact .moves hm
      | opened activity' ops =>
        cases h
        rw [Config.ledger, Config.ledger, calls_mk w', insides_mk w']
        exact .moves hm
  | nil =>
    cases activity with
    | outside => cases h
    | inside s =>
      have hn := (Multiset.nodup_cons.mp hf).2
      rw [Config.ledger, calls_mk, insides_mk] at hn
      rw [Config.ledger, calls_mk, insides_mk, ledger_close h]
      exact .moves (moves_leaveDispatch w _ _ log s hn)
    | completion cue reply =>
      rw [Config.ledger, calls_mk, insides_mk, ledger_close h]
      exact .finish rfl
    | firing count records current =>
      cases current with
      | none => exact .moves (moves_fire rfl h log)
      | some cue =>
        cases h
        rw [Config.ledger, Config.ledger, calls_mk, insides_mk, calls_mk, insides_mk]
        exact .finish rfl

variable {c c' : Config}

theorem ledger_start (w : World) (ops : List Op) (log : List Event) :
    (w.start ops).ledger log = w.ledger [] [] log := rfl

/-- What every move and every end of a call keeps, a run keeps. -/
theorem Run.preserves {P : Ledger → Prop} {log log' : List Event} (hr : Reached c log)
    (h : Run c c' log') (hn : ∀ {L : Ledger}, P L → L.handlers.Nodup)
    (hmove : ∀ {L L' : Ledger}, Move L L' → P L → P L')
    (hfinish : ∀ {L : Ledger} {call : Call} {cs : List Call}, L.calls = call :: cs → P L →
      P (L.finish call cs)) (hP : P (c.ledger log)) : P (c'.ledger (log' ++ log)) := by
  induction h with
  | refl => exact hP
  | step _ hs ih =>
    rw [List.append_assoc]
    -- a strand that is new is that of no handler
    exact (advance_step (hn (hmove .newHandler ih)) hs).preserves hmove hfinish ih
  | @more c' log' ops h hs ih =>
    obtain ⟨ops₀, hr⟩ := hr
    obtain ⟨hc, hi⟩ := eq_outside_of_step_eq_none (Reached.grounded ⟨ops₀, hr.trans h⟩) hs
    rw [ledger_start]
    rw [Config.ledger, hc, hi] at ih
    exact ih

/-- What holds of the ledger of an empty world, and is kept by every move and every end of a call,
holds at every point of every run. -/
theorem Reached.preserves {P : Ledger → Prop} {log : List Event} (h : Reached c log)
    (hn : ∀ {L : Ledger}, P L → L.handlers.Nodup)
    (hmove : ∀ {L L' : Ledger}, Move L L' → P L → P L')
    (hfinish : ∀ {L : Ledger} {call : Call} {cs : List Call}, L.calls = call :: cs → P L →
      P (L.finish call cs)) (hP : P (({} : World).ledger [] [] [])) : P (c.ledger log) := by
  obtain ⟨ops, h⟩ := h
  have hempty : Reached (({} : World).start ops) [] := ⟨ops, .refl⟩
  have hrun := Run.preserves hempty h hn hmove hfinish hP
  rwa [List.append_nil] at hrun

end Config
end Scenario
end Wakeup
