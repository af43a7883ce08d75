import Wakeup.Proofs.Projections

/-! Waits for readiness that are taken from the reactor: they are completed at once, or kept in
slots and completed or thrown away later. Each shows in its own descriptor alone. -/
namespace Wakeup.Scenario
variable {σ : Int → Option Fd} {fd fd' : Fd} {w v : World} {d : Direction} {wait : Wait}
  {m : Manual}

/-- A wait of a watcher completes. -/
theorem view_settle (hidle : ∀ actor ∈ w.actors, actor.script.Idle) {i e : Nat} {x : Watcher}
    (hx : w.hub.watchers[i]? = some x) (hkept : x.presence.kept = true)
    (hs : w.hub.strandAlive x.strand = true) (hk : w.index fd = some i ↔ x.fd = fd)
    (hc : wait.callback = .ready i d e) (o : Outcome) (reply : Reply) :
    (w.settle wait o).1.view σ fd =
      (if x.fd = fd then ((w.view σ fd).tell fd d e o reply).1 else w.view σ fd) ∧
    (w.settle wait o).2.filterMap (Record.told? fd) =
      if x.fd = fd then ((w.view σ fd).tell fd d e o reply).2.2 else [] := by
  obtain ⟨actors, hrecast, hworld, htold⟩ := World.settle_idle hidle wait o
  obtain ⟨hscene, hcalls, hnotice⟩ := Hub.scene_through (e := e) (o := o) (d := d) hx hkept hs hk
  rw [hc] at hworld htold
  have hengines := Hub.engines_through w.hub (.ready i d e) o
  have hview : (w.settle wait o).1.view σ fd = { w.view σ fd with
      scene := (w.hub.through (.ready i d e) o).1.scene fd (w.index fd) } := by
    rw [hworld]
    exact view_of_scene rfl rfl hengines rfl hrecast.cast
  rw [hview, hscene, htold fd]
  by_cases hfd : x.fd = fd
  · rw [if_pos hfd, if_pos (hk.mpr hfd), if_pos hfd]
    refine ⟨rfl, ?_⟩
    have htell : ((w.view σ fd).tell fd d e o reply).2.2 =
        ((w.hub.through (.ready i d e) o).2.map (·.notice)).toList.flatMap
          fun notice => hear w.actors e notice := by
      rw [hnotice (hk.mpr hfd)]
      exact congrArg (List.flatMap · _) (funext fun notice => hear_view w e notice)
    rw [htell]
    cases hcall : (w.hub.through (.ready i d e) o).2 with
    | none => rfl
    | some call =>
      obtain ⟨hengine, htoldOf⟩ := hcalls call hcall
      rw [hfd] at htoldOf
      simp only [Option.map_some, Option.toList_some, List.flatMap_cons, List.flatMap_nil,
        List.append_nil, htoldOf, if_true, hengine]
  · rw [if_neg hfd, if_neg fun h => hfd (hk.mp h), if_neg hfd]
    refine ⟨rfl, ?_⟩
    rw [List.flatMap_eq_nil_iff]
    intro call hcall
    rw [(hcalls call (Option.mem_toList.mp hcall)).2, if_neg (by simpa using hfd)]

/-- A wait of a watcher that is gone completes without a trace. -/
theorem view_settle_of_dead (σ : Int → Option Fd) (fd : Fd)
    (hidle : ∀ actor ∈ w.actors, actor.script.Idle) {i e : Nat} {x : Watcher}
    (hx : w.hub.watchers[i]? = some x) (ha : x.presence.alive = false)
    (hc : wait.callback = .ready i d e) (o : Outcome) :
    (w.settle wait o).1.view σ fd = w.view σ fd ∧
      (w.settle wait o).2.filterMap (Record.told? fd) = [] := by
  obtain ⟨actors, hrecast, hworld, htold⟩ := World.settle_idle hidle wait o
  rw [hc, Hub.through_of_dead hx ha] at hworld htold
  refine ⟨?_, htold fd⟩
  rw [hworld]
  exact view_of_scene rfl rfl rfl rfl hrecast.cast

theorem shown_complete_of_none (o : Outcome)
    (ht : w.hub.reactor.takeReady fd' d = none) :
    Shown σ fd (.complete fd' d o) w w (.mk (.flag false) []) := by
  by_cases hfd : fd' = fd
  · subst hfd
    have htake : (w.view σ fd').scene.take d = none := Hub.takeReady_eq_none ht _
    refine .of_own rfl (V := (w.view σ fd', .flag false, [])) ?_ rfl rfl rfl
    simp only [View.perform, htake]
  · exact .of_other rfl hfd rfl rfl

/-- The oldest wait of a descriptor is one of its watcher. -/
theorem Rests.taken (hw : Rests σ w) (ht : w.hub.reactor.takeReady fd' d = some (wait, m)) :
    ∃ i e x, wait.callback = .ready i d e ∧ w.index fd' = some i ∧ w.hub.watchers[i]? = some x ∧
      x.fd = fd' ∧ x.presence.kept = true ∧ w.hub.strandAlive x.strand = true := by
  obtain ⟨y, hy, heq⟩ := Option.map_eq_some_iff.mp ht
  cases heq
  have hmine := List.find?_some hy
  obtain ⟨hyfd, hyd⟩ := Bool.and_eq_true_iff.mp hmine
  obtain ⟨i, e, -, hc, -, -, hi⟩ := hw.ready (List.mem_of_find?_eq_some hy)
  rw [beq_iff_eq.mp hyd] at hc
  rw [beq_iff_eq.mp hyfd] at hi
  obtain ⟨x, hx, hfd, hkept, -, hs⟩ := hw.getElem?_of_index hi
  exact ⟨i, e, x, hc, hi, hx, hfd, hkept, hs⟩

/-- What is shown once the oldest wait of a descriptor is taken out. -/
theorem view_taken (σ : Int → Option Fd) (fd : Fd)
    (ht : w.hub.reactor.takeReady fd' d = some (wait, m)) :
    (fd' = fd → (w.view σ fd).scene.take d =
      some (wait.callback.engine, ((w.modifyReactor fun _ => m).view σ fd).scene)) ∧
    (fd' ≠ fd → (w.modifyReactor fun _ => m).view σ fd = w.view σ fd) := by
  constructor
  · rintro rfl
    exact Hub.take_scene ht _
  · intro hfd
    have hscene := Hub.scene_takeReady_of_ne ht hfd (w.index fd)
    exact congrArg (fun S => { w.view σ fd with scene := S }) hscene

theorem shown_complete (hw : Rests σ w) (o : Outcome)
    (ht : w.hub.reactor.takeReady fd' d = some (wait, m)) :
    Shown σ fd (.complete fd' d o) w ((w.modifyReactor fun _ => m).settle wait o).1
      (.mk (.flag true) ((w.modifyReactor fun _ => m).settle wait o).2) := by
  obtain ⟨i, e, x, hc, hi, hx, rfl, hkept, hs⟩ := hw.taken ht
  have hk : w.index fd = some i ↔ x.fd = fd := hw.index_iff hx (by simp [Presence.alive, hkept])
  obtain ⟨hview, htold⟩ := view_settle (w := w.modifyReactor fun _ => m) (σ := σ) hw.idle hx
    hkept hs hk hc o (.flag true)
  obtain ⟨hown, hother⟩ := view_taken σ fd ht
  by_cases hfd : x.fd = fd
  · subst hfd
    rw [if_pos rfl] at hview htold
    refine .of_own rfl ?_ hview rfl htold
    simp only [View.perform, hown rfl, hc]
    rfl
  · rw [if_neg hfd] at hview htold
    exact .of_other rfl hfd (hview.trans (hother hfd)) htold

/-- Other contents of one slot. -/
theorem view_of_slot (σ : Int → Option Fd) (fd : Fd) (w : World) {slots : Table Wait} {slot : Int}
    {wait? : Option Wait}
    (hslots : ∀ s, slots.get? s = if s = slot then wait? else w.slots.get? s) :
    ({ w with slots := slots } : World).view σ fd =
      if σ slot = some fd then { w.view σ fd with
        slots := Function.update (w.view σ fd).slots slot
          (wait?.bind (·.callback.keptFor? (w.index fd))) }
      else w.view σ fd := by
  have hslot (s : Int) : (({ w with slots := slots } : World).view σ fd).slots s =
      if s = slot ∧ σ slot = some fd then wait?.bind (·.callback.keptFor? (w.index fd))
      else (w.view σ fd).slots s := by
    change (if σ s = some fd then (slots.get? s).bind (·.callback.keptFor? (w.index fd))
      else none) = _
    rw [hslots]
    by_cases hs : s = slot
    · subst hs
      by_cases hσ : σ s = some fd <;> simp [World.view, hσ]
    · simp [World.view, hs]
  have hview : ({ w with slots := slots } : World).view σ fd = { w.view σ fd with
      slots := (({ w with slots := slots } : World).view σ fd).slots } := rfl
  rw [hview, funext hslot]
  split
  · rename_i hσ
    simp only [hσ, and_true, View.mk.injEq, true_and]
    exact funext fun s => (Function.update_apply ..).symm
  · rename_i hσ
    simp only [hσ, and_false, if_false]

theorem shown_takeReady (hw : Rests σ w) {slot : Int} (hσ : σ slot = some fd') :
    Shown σ fd (.takeReady fd' d slot) w (w.takeReady fd' d slot).1
      (.mk (w.takeReady fd' d slot).2 []) := by
  unfold World.takeReady
  cases ht : w.hub.reactor.takeReady fd' d with
  | none =>
    by_cases hfd : fd' = fd
    · subst hfd
      have htake : (w.view σ fd').scene.take d = none := Hub.takeReady_eq_none ht _
      refine .of_own rfl (V := (w.view σ fd', .missing, [])) ?_ rfl rfl rfl
      simp only [View.perform, htake]
    · exact .of_other rfl hfd rfl rfl
  | some taken =>
    obtain ⟨wait, m⟩ := taken
    obtain ⟨i, e, x, hc, hi, -⟩ := hw.taken ht
    obtain ⟨hown, hother⟩ := view_taken σ fd ht
    have hview := view_of_slot σ fd (w.modifyReactor fun _ => m)
      (Table.get?_insert w.slots slot · wait)
    by_cases hfd : fd' = fd
    · subst hfd
      rw [if_pos hσ] at hview
      refine .of_own rfl (V := (_, .done, [])) ?_ hview rfl rfl
      have hindex : (w.modifyReactor fun _ => m).index fd' = some i := hi
      simp only [View.perform, hown rfl, hc, Option.bind_some, hindex, Callback.keptFor?,
        beq_self_eq_true]
      rfl
    · rw [if_neg fun h => hfd (Option.some.inj (hσ.symm.trans h))] at hview
      exact .of_other rfl hfd (hview.trans (hother hfd)) rfl

theorem shown_of_empty {op : Op} {slot : Int} (hn : op.names σ = σ slot)
    (hp : ∀ V : View, V.slots slot = none → V.perform fd op = (V, .missing, []))
    (hwait : w.slots.get? slot = none) : Shown σ fd op w w (.mk .missing []) := by
  have hempty : (w.view σ fd).slots slot = none := by
    simp only [World.view, hwait, Option.bind_none, ite_self]
  have hV := hp _ hempty
  cases hσ : σ slot with
  | none => exact .of_none (hn.trans hσ) (by rw [hV]) (by rw [hV]; rfl)
  | some fd' =>
    by_cases hfd : fd' = fd
    · subst hfd
      exact .of_own (hn.trans hσ) hV rfl rfl rfl
    · exact .of_other (hn.trans hσ) hfd rfl rfl

theorem slots_view {slot : Int} (hσ : σ slot = some fd) (hwait : w.slots.get? slot = some wait)
    {i e : Nat} (hc : wait.callback = .ready i d e) :
    (w.view σ fd).slots slot = some (w.index fd == some i, d, e) := by
  simp only [World.view, hσ, if_true, hwait, Option.bind_some, hc, Callback.keptFor?]

theorem shown_discard (hw : Rests σ w) (slot : Int) :
    Shown σ fd (.discard slot) w (w.discard slot).1 (.mk (w.discard slot).2 []) := by
  unfold World.discard
  cases hwait : w.slots.get? slot with
  | none =>
    refine shown_of_empty rfl (fun V hV => ?_) hwait
    simp only [View.perform, hV]
  | some wait =>
    obtain ⟨i, d, e, fd', hc, hσ, -⟩ := hw.slots hwait
    have hview := view_of_slot σ fd w (Table.get?_erase w.slots slot)
    by_cases hfd : fd' = fd
    · subst hfd
      rw [if_pos hσ] at hview
      refine .of_own hσ (V := (_, .done, [])) ?_ hview rfl rfl
      simp only [View.perform, slots_view hσ hwait hc]
      rfl
    · rw [if_neg fun h => hfd (Option.some.inj (hσ.symm.trans h))] at hview
      exact .of_other hσ hfd hview rfl

theorem shown_invoke (hw : Rests σ w) {slot : Int} (hwait : w.slots.get? slot = some wait)
    (o : Outcome) :
    Shown σ fd (.invoke slot o) w ({ w with slots := w.slots.erase slot }.settle wait o).1
      (.mk .done ({ w with slots := w.slots.erase slot }.settle wait o).2) := by
  obtain ⟨i, d, e, fd', hc, hσ, hfdOf⟩ := hw.slots hwait
  obtain ⟨x, hx, rfl⟩ := Hub.exists_of_fdOf? hfdOf
  let w' : World := { w with slots := w.slots.erase slot }
  have hempty := view_of_slot σ fd w (Table.get?_erase w.slots slot)
  -- the wait is that of the watcher of its descriptor, or that watcher is gone
  by_cases hi : w.index x.fd = some i
  · obtain ⟨y, hy, -, hkept, -, hs⟩ := hw.getElem?_of_index hi
    cases hx.symm.trans hy
    have hk : w.index fd = some i ↔ x.fd = fd := hw.index_iff hx (by simp [Presence.alive, hkept])
    obtain ⟨hview, htold⟩ := view_settle (w := w') (σ := σ) hw.idle hx hkept hs hk hc o .done
    by_cases hfd : x.fd = fd
    · subst hfd
      rw [if_pos rfl] at hview htold
      rw [if_pos hσ] at hempty
      refine .of_own hσ ?_ hview rfl htold
      simp only [View.perform, slots_view hσ hwait hc, hi, beq_self_eq_true, if_true, w', hempty]
      rfl
    · rw [if_neg hfd] at hview htold
      rw [if_neg fun h => hfd (Option.some.inj (hσ.symm.trans h))] at hempty
      exact .of_other hσ hfd (hview.trans hempty) htold
  · have ha : x.presence.alive = false := by
      rw [Bool.eq_false_iff]
      exact fun ha => hi (hw.index_of_alive hx ha)
    obtain ⟨hview, htold⟩ := view_settle_of_dead (w := w') σ fd hw.idle hx ha hc o
    by_cases hfd : x.fd = fd
    · subst hfd
      rw [if_pos hσ] at hempty
      refine .of_own hσ (V := (_, .done, [])) ?_ (hview.trans hempty) rfl htold
      simp only [View.perform, slots_view hσ hwait hc, beq_false_of_ne hi, Bool.false_eq_true,
        if_false]
      rfl
    · rw [if_neg fun h => hfd (Option.some.inj (hσ.symm.trans h))] at hempty
      exact .of_other hσ hfd (hview.trans hempty) htold

end Wakeup.Scenario
