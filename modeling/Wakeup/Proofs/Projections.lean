import Wakeup.Proofs.Views

/-! The machine of one descriptor. What a world shows of a descriptor changes like this machine, by
the operations that name the descriptor or none, and by no others. -/
namespace Wakeup

/-- What a kept callback is to the watcher `k`: whether it is its own, its direction and its
engine. -/
def Callback.keptFor? (k : Option Nat) : Callback → Option (Bool × Direction × Nat)
  | .ready i d e => some (k == some i, d, e)
  | _ => none

namespace Scenario

/-- The descriptor that an operation names. A slot stands for the descriptor of its waits. -/
def Op.names (σ : Int → Option Fd) : Op → Option Fd
  | .monitor _ _ fd _ => some fd
  | .query _ fd => some fd
  | .refuse fd => some fd
  | .complete fd _ _ => some fd
  | .takeReady fd _ _ => some fd
  | .invoke slot _ => σ slot
  | .discard slot => σ slot
  | _ => none

/-- Whether an operation names a descriptor or none. -/
def Op.concerns (σ : Int → Option Fd) (fd : Fd) (op : Op) : Bool :=
  (op.names σ).all (· == fd)

/-- Operations with one handler and engines that do nothing in their callbacks, where each slot is
for waits of one descriptor. -/
def Op.Plain (σ : Int → Option Fd) : Op → Prop
  | .monitor .. => True
  | .negotiate .. => True
  | .close .. => True
  | .query .. => True
  | .debug .. => True
  | .busy .. => True
  | .busyInside .. => True
  | .newEngine _ s _ => s.Idle
  | .dropEngine .. => True
  | .script _ s => s.Idle
  | .refuse .. => True
  | .advance .. => True
  | .complete .. => True
  | .fireTimers => True
  | .deliverCanceled => True
  | .takeReady fd _ slot => σ slot = some fd
  | .invoke .. => True
  | .discard .. => True
  | .newHeartbeat .. => True
  | .setHeartbeat .. => True
  | .stopHeartbeat .. => True
  | .viewHeartbeat .. => True
  | .dropHeartbeat .. => True
  | _ => False

/-- What a world shows of one descriptor. -/
structure View where
  scene : Scene
  /-- The waits of the descriptor that slots hold. -/
  slots : Int → Option (Bool × Direction × Nat)
  engines : List Presence
  names : Table Nat
  /-- The name of each engine, and whether it is plain. -/
  actors : List (Int × Bool)

namespace View

/-- Whom a call is told to. -/
def hear (e : Nat) (notice : Notice) (V : View) : List (Int × Notice) :=
  match V.actors[e]? with
  | none => []
  | some (name, plain) => if plain && notice.isWaitError then [] else [(name, notice)]

def interest (V : View) : Option Events :=
  V.scene.sides.map fun s => Events.ofSides ⟨s.read.wanted, s.write.wanted⟩

/-- A wait of the watcher completes. -/
def tell (fd : Fd) (d : Direction) (e : Nat) (o : Outcome) (reply : Reply) (V : View) :
    View × Reply × List (Int × Notice) :=
  let told := V.scene.tell fd d e (V.engines[e]?.any Presence.alive) o
  ({ V with scene := told.1 }, reply, told.2.toList.flatMap fun notice => V.hear e notice)

def monitor (fd : Fd) (e : Nat) (ev : Events) (V : View) : View × Reply :=
  match V.scene.sides with
  | none =>
    if ev.isEmpty then (V, .done)
    else if V.scene.refused then
      ({ V with scene := { V.scene with refused := false } },
        .failed (.registration fd (.ofKind .permissionDenied)))
    else ({ V with scene := V.scene.watch.setInterest e ev }, .done)
  | some _ =>
    if ev.isEmpty then
      ({ V with
        scene := V.scene.leave
        slots := fun slot => (V.slots slot).map fun w => (false, w.2) }, .done)
    else ({ V with scene := V.scene.setInterest e ev }, .done)

def newEngine (name : Int) (plain : Bool) (V : View) : View where
  scene := V.scene
  slots := V.slots
  engines :=
    match V.names.get? name with
    | none => V.engines ++ [({} : Presence)]
    | some old => (V.engines ++ [({} : Presence)]).modify old .disown
  names := V.names.insert name V.engines.length
  actors := V.actors ++ [(name, plain)]

/-- An operation that names the descriptor or none, with its answer and what engines are told of the
descriptor. The answers of operations that name none are left out. -/
def perform (fd : Fd) (op : Op) (V : View) : View × Reply × List (Int × Notice) :=
  match op with
  | .monitor h e _ ev =>
    match V.names.get? e with
    | none => (V, .missing, [])
    | some engine =>
      if h = 0 then ((V.monitor fd engine ev).1, (V.monitor fd engine ev).2, [])
      else (V, .missing, [])
  | .query h _ => (V, if h = 0 then .watching V.interest else .missing, [])
  | .refuse _ => ({ V with scene := { V.scene with refused := true } }, .done, [])
  | .complete _ d o =>
    match V.scene.take d with
    | none => (V, .flag false, [])
    | some (e, scene) => { V with scene := scene }.tell fd d e o (.flag true)
  | .takeReady _ d slot =>
    match V.scene.take d with
    | none => (V, .missing, [])
    | some (e, scene) =>
      ({ V with
        scene := scene
        slots := Function.update V.slots slot (some (true, d, e)) }, .done, [])
  | .invoke slot o =>
    match V.slots slot with
    | none => (V, .missing, [])
    | some (current, d, e) =>
      let V' := { V with slots := Function.update V.slots slot none }
      if current then V'.tell fd d e o .done else (V', .done, [])
  | .discard slot =>
    match V.slots slot with
    | none => (V, .missing, [])
    | some _ => ({ V with slots := Function.update V.slots slot none }, .done, [])
  | .newEngine name _ plain => (V.newEngine name plain, .done, [])
  | .dropEngine name =>
    match V.names.get? name with
    | none => (V, .missing, [])
    | some e =>
      ({ V with engines := V.engines.modify e .disown, names := V.names.erase name }, .done, [])
  | _ => (V, .done, [])

end View

def World.view (σ : Int → Option Fd) (fd : Fd) (w : World) : View where
  scene := w.hub.scene fd (w.index fd)
  slots := fun slot =>
    if σ slot = some fd then (w.slots.get? slot).bind (·.callback.keptFor? (w.index fd)) else none
  engines := w.hub.engines
  names := w.engines
  actors := w.actors.map fun a => (a.name, a.plain)

section Shown
variable {σ : Int → Option Fd} {fd : Fd} {op : Op} {w v : World} {entry : Entry}

/-- What an operation does to what is shown of a descriptor. -/
structure Shown (σ : Int → Option Fd) (fd : Fd) (op : Op) (w v : World) (entry : Entry) :
    Prop where
  view : v.view σ fd =
    if op.concerns σ fd then ((w.view σ fd).perform fd op).1 else w.view σ fd
  reply : op.names σ = some fd → entry.reply = ((w.view σ fd).perform fd op).2.1
  told : entry.records.filterMap (Record.told? fd) =
    if op.concerns σ fd then ((w.view σ fd).perform fd op).2.2 else []

/-- An operation of another descriptor. -/
theorem Shown.of_other {fd' : Fd} (hn : op.names σ = some fd') (hfd : fd' ≠ fd)
    (hview : v.view σ fd = w.view σ fd)
    (htold : entry.records.filterMap (Record.told? fd) = []) : Shown σ fd op w v entry := by
  have hc : op.concerns σ fd = false := by
    unfold Op.concerns
    rw [hn]
    exact decide_eq_false hfd
  refine ⟨?_, fun h => ?_, ?_⟩
  · rw [hc]
    exact hview
  · rw [hn, Option.some.injEq] at h
    exact absurd h hfd
  · rw [hc]
    exact htold

/-- An operation of the descriptor. -/
theorem Shown.of_own (hn : op.names σ = some fd) {V : View × Reply × List (Int × Notice)}
    (hp : (w.view σ fd).perform fd op = V) (hview : v.view σ fd = V.1)
    (hreply : entry.reply = V.2.1)
    (htold : entry.records.filterMap (Record.told? fd) = V.2.2) : Shown σ fd op w v entry := by
  have hc : op.concerns σ fd = true := by
    unfold Op.concerns
    rw [hn]
    exact decide_eq_true rfl
  subst hp
  refine ⟨?_, fun _ => hreply, ?_⟩
  · rw [hc]
    exact hview
  · rw [hc]
    exact htold

/-- An operation that names no descriptor. -/
theorem Shown.of_none (hn : op.names σ = none)
    (hview : v.view σ fd = ((w.view σ fd).perform fd op).1)
    (htold : entry.records.filterMap (Record.told? fd) = ((w.view σ fd).perform fd op).2.2) :
    Shown σ fd op w v entry := by
  have hc : op.concerns σ fd = true := by
    unfold Op.concerns
    rw [hn]
    rfl
  refine ⟨?_, fun h => ?_, ?_⟩
  · rw [hc]
    exact hview
  · rw [hn] at h
    cases h
  · rw [hc]
    exact htold

/-- A world in which the scene may be another. -/
theorem view_of_scene (hindex : v.index fd = w.index fd) (hslots : v.slots = w.slots)
    (hengines : v.hub.engines = w.hub.engines) (hnames : v.engines = w.engines)
    (hactors : v.actors.map (fun a => (a.name, a.plain)) =
      w.actors.map fun a => (a.name, a.plain)) :
    v.view σ fd = { w.view σ fd with scene := v.hub.scene fd (w.index fd) } := by
  unfold World.view
  rw [hindex, hslots, hengines, hnames, hactors]

theorem hear_view (w : World) (e : Nat) (notice : Notice) :
    (w.view σ fd).hear e notice = hear w.actors e notice := by
  unfold View.hear hear World.view
  rw [List.getElem?_map]
  cases w.actors[e]? <;> rfl

end Shown

section Operations
variable {σ : Int → Option Fd} {fd : Fd} {w : World}

theorem get?_handlers {h : Handler} (hh : w.handlers = (∅ : Table Handler).insert 0 h) (n : Int) :
    w.handlers.get? n = if n = 0 then some h else none := by
  rw [hh, Table.get?_insert, Table.get?_empty]

theorem insert_handlers {h h' : Handler} (hh : w.handlers = (∅ : Table Handler).insert 0 h) :
    w.handlers.insert 0 h' = (∅ : Table Handler).insert 0 h' := by
  refine Table.ext fun n => ?_
  rw [Table.get?_insert, Table.get?_insert, get?_handlers hh, Table.get?_empty]
  split <;> rfl

theorem interest_view {h : Handler} (hh : w.handlers = (∅ : Table Handler).insert 0 h) :
    h.interest fd w.hub = (w.view σ fd).interest := by
  unfold Handler.interest View.interest World.view Hub.scene
  rw [Rests.index_eq hh, Option.map_map]
  cases h.watchers.get? fd with
  | none => rfl
  | some i => rfl

theorem shown_query (hw : Rests σ w) (n : Int) (fd' : Fd) :
    Shown σ fd (.query n fd') w w
      (.mk (w.ask n fun x => .watching (x.interest fd' w.hub)).2 []) := by
  obtain ⟨h, hh⟩ := hw.handler
  by_cases hfd : fd' = fd
  · subst hfd
    refine .of_own rfl rfl rfl ?_ rfl
    unfold World.ask View.perform
    rw [get?_handlers hh]
    by_cases hn : n = 0
    · simp only [hn, if_true, Entry.reply, interest_view hh (σ := σ)]
    · simp only [hn, if_false, Entry.reply]
  · exact .of_other rfl hfd rfl rfl

theorem shown_refuse (w : World) (fd' : Fd) : Shown σ fd (.refuse fd') w
    (w.modifyReactor (Manual.refuse fd')) (.mk .done []) := by
  have hview : (w.modifyReactor (Manual.refuse fd')).view σ fd =
      { w.view σ fd with scene := if fd' = fd then { (w.view σ fd).scene with refused := true }
        else (w.view σ fd).scene } := by
    refine (view_of_scene rfl rfl rfl rfl rfl).trans ?_
    exact congrArg (fun S => { w.view σ fd with scene := S }) (Hub.scene_refuse w.hub fd fd' _)
  by_cases hfd : fd' = fd
  · subst hfd
    rw [if_pos rfl] at hview
    exact .of_own rfl rfl hview rfl rfl
  · rw [if_neg hfd] at hview
    exact .of_other rfl hfd hview rfl

end Operations

section Monitor
variable {σ : Int → Option Fd} {fd fd' : Fd} {w v : World} {h h' : Handler} {e : Nat} {ev : Events}

private theorem keptFor?_congr {k k' : Option Nat} {c : Callback}
    (h : ∀ i d e, c = .ready i d e → (k = some i ↔ k' = some i)) :
    c.keptFor? k = c.keptFor? k' := by
  cases c with
  | ready i d e =>
    have heq : (k == some i) = (k' == some i) := by
      rw [Bool.eq_iff_iff, beq_iff_eq, beq_iff_eq]
      exact h i d e rfl
    simp only [Callback.keptFor?, heq]
  | beat => rfl
  | bare => rfl

/-- No callback is kept for a watcher that is gone. -/
theorem keptFor?_none (k : Option Nat) (c : Callback) :
    (c.keptFor? k).map (fun w => (false, w.2)) = c.keptFor? none := by
  cases c <;> rfl

/-- What comes of asking the handler for interest. -/
def World.answered (w : World) : Except Error Handler × Hub Manual → World × Reply
  | (.error err, hub) => (w.setHub hub, .failed err)
  | (.ok h, hub) => ({ w with hub := hub, handlers := w.handlers.insert 0 h }, .done)

theorem index_answered (hh : w.handlers = (∅ : Table Handler).insert 0 h) (h' : Handler)
    (hub : Hub Manual) (fd : Fd) :
    (w.answered (.ok h', hub)).1.index fd = h'.watchers.get? fd :=
  Rests.index_eq (w := (w.answered (.ok h', hub)).1) (insert_handlers hh) fd

/-- The handler may have another watcher for the descriptor, but of that no slot holds a wait. -/
theorem view_answered (hw : Rests σ w) (hh : w.handlers = (∅ : Table Handler).insert 0 h)
    {hub : Hub Manual} (hengines : hub.engines = w.hub.engines)
    (hk : ∀ i, w.hub.fdOf? i = some fd → (h'.watchers.get? fd = some i ↔ w.index fd = some i)) :
    (w.answered (.ok h', hub)).1.view σ fd =
      { w.view σ fd with scene := hub.scene fd (h'.watchers.get? fd) } := by
  unfold World.view
  rw [index_answered hh]
  simp only [World.answered, hengines, View.mk.injEq, and_true, true_and]
  funext slot
  split
  · rename_i hσ
    cases hwait : w.slots.get? slot with
    | none => rfl
    | some wait =>
      obtain ⟨i, d, e, fd', hc, hσ', hfd⟩ := hw.slots hwait
      cases hσ.symm.trans hσ'
      refine keptFor?_congr fun j d' e' hc' => ?_
      cases hc.symm.trans hc'
      exact hk i hfd
  · rfl

/-- An answer, and what is shown of a descriptor after it if that was asked for. -/
def Asked (σ : Int → Option Fd) (fd fd' : Fd) (e : Nat) (ev : Events) (w : World)
    (result : World × Reply) : Prop :=
  (fd' = fd → result.1.view σ fd = ((w.view σ fd).monitor fd e ev).1 ∧
    result.2 = ((w.view σ fd).monitor fd e ev).2) ∧
  (fd' ≠ fd → result.1.view σ fd = w.view σ fd)

theorem sides_scene_of_index (hw : Rests σ w) {i : Nat} (hi : w.index fd = some i) :
    ∃ s, (w.view σ fd).scene.sides = some s := by
  obtain ⟨x, hx, -⟩ := hw.getElem?_of_index hi
  refine ⟨x.sides, ?_⟩
  simp only [World.view, Hub.scene, hi, Option.bind_some, hx, Option.map_some]

private theorem asked_update (hw : Rests σ w) (hh : w.handlers = (∅ : Table Handler).insert 0 h)
    {i : Nat} (hi : h.watchers.get? fd' = some i) (he : ev.isEmpty = false) :
    Asked σ fd fd' e ev w (w.answered (h.monitor e fd' ev w.hub)) := by
  have hindex := Rests.index_eq hh
  obtain ⟨x, hx, hfd, -⟩ := hw.getElem?_of_index ((hindex fd').trans hi)
  have hm : h.monitor e fd' ev w.hub = (.ok h, w.hub.setInterest i e ev) := by
    simp only [Handler.monitor, hi, he, Bool.false_eq_true, if_false]
  have hown : w.index fd = some i ↔ w.hub.fdOf? i = some fd := by
    rw [Hub.fdOf?_of_getElem? hx, Option.some.injEq, hfd]
    constructor
    · intro hk
      obtain ⟨y, hy, hyfd, -⟩ := hw.getElem?_of_index hk
      cases hx.symm.trans hy
      exact hfd.symm.trans hyfd
    · rintro rfl
      exact (hindex fd').trans hi
  have hview : (w.answered (h.monitor e fd' ev w.hub)).1.view σ fd = { w.view σ fd with
      scene := (w.hub.setInterest i e ev).scene fd (w.index fd) } := by
    rw [hm, hindex]
    exact view_answered hw hh (Hub.engines_setInterest w.hub i e ev) fun j _ => by rw [hindex]
  rw [Hub.scene_setInterest hown] at hview
  constructor
  · rintro rfl
    obtain ⟨s, hs⟩ := sides_scene_of_index hw ((hindex fd').trans hi)
    rw [hview, hm, if_pos ((hindex fd').trans hi)]
    simp only [View.monitor, hs, he, Bool.false_eq_true, if_false]
    exact ⟨rfl, rfl⟩
  · intro hne
    have hk : w.index fd ≠ some i := by
      rw [Ne, hown, Hub.fdOf?_of_getElem? hx, hfd, Option.some.injEq]
      exact hne
    rw [hview, if_neg hk]
    rfl

private theorem asked_leave (hw : Rests σ w) (hh : w.handlers = (∅ : Table Handler).insert 0 h)
    {i : Nat} (hi : h.watchers.get? fd' = some i) (he : ev.isEmpty = true) :
    Asked σ fd fd' e ev w (w.answered (h.monitor e fd' ev w.hub)) := by
  have hindex := Rests.index_eq hh
  obtain ⟨x, hx, rfl, -, hu, -⟩ := hw.getElem?_of_index ((hindex fd').trans hi)
  have hm : h.monitor e x.fd ev w.hub =
      (.ok { h with watchers := h.watchers.erase x.fd }, (w.hub.retire i).dropWatcher i) := by
    simp only [Handler.monitor, hi, he, if_true]
  have hk : w.index fd = some i ↔ x.fd = fd := by
    constructor
    · intro hk
      obtain ⟨y, hy, hfd, -⟩ := hw.getElem?_of_index hk
      cases hx.symm.trans hy
      exact hfd
    · rintro rfl
      exact (hindex x.fd).trans hi
  have hscene := Hub.scene_leave hx hu
    (fun y hy => hw.own_iff ((hindex x.fd).trans hi) hx hy) hk
  have hengines : ((w.hub.retire i).dropWatcher i).engines = w.hub.engines :=
    Hub.engines_dropWatcher (w.hub.retire i) i
  constructor
  · rintro rfl
    obtain ⟨s, hs⟩ := sides_scene_of_index hw ((hindex x.fd).trans hi)
    rw [if_pos rfl, if_pos rfl] at hscene
    have hgone : (h.watchers.erase x.fd).get? x.fd = none := Table.get?_erase_self _ _
    rw [hm]
    simp only [View.monitor, hs, he, if_true]
    refine ⟨?_, rfl⟩
    unfold World.view
    rw [index_answered hh]
    simp only [World.answered, hengines, hgone, View.mk.injEq, and_true]
    refine ⟨hscene, funext fun slot => ?_⟩
    -- the waits in slots outlive the watcher, but they are not its own any longer
    split
    · cases w.slots.get? slot with
      | none => rfl
      | some wait => exact (keptFor?_none _ _).symm
    · rfl
  · intro hne
    rw [if_neg hne, if_neg hne] at hscene
    have herase : (h.watchers.erase x.fd).get? fd = w.index fd := by
      rw [Table.get?_erase, if_neg (Ne.symm hne), hindex]
    rw [hm, view_answered hw hh hengines fun j _ => by rw [herase], herase]
    exact congrArg (fun S => { w.view σ fd with scene := S }) hscene

theorem sides_scene_of_none (hi : w.index fd = none) : (w.view σ fd).scene.sides = none := by
  simp only [World.view, Hub.scene, hi, Option.bind_none, Option.map_none]

private theorem asked_refused (hh : w.handlers = (∅ : Table Handler).insert 0 h)
    (hi : h.watchers.get? fd' = none) (he : ev.isEmpty = false)
    (hmem : fd' ∈ w.hub.reactor.refused) :
    Asked σ fd fd' e ev w (w.answered (h.monitor e fd' ev w.hub)) := by
  let hub := { w.hub with reactor :=
    { w.hub.reactor with refused := w.hub.reactor.refused.filter (· ≠ fd') } }
  have hm : h.monitor e fd' ev w.hub =
      (.error (.registration fd' (.ofKind .permissionDenied)), hub) := by
    simp only [Handler.monitor, hi, he, Hub.newWatcher, Manual.reactor_register, Manual.register,
      hmem, Bool.false_eq_true, if_false, if_true]
    rfl
  have hview : (w.setHub hub).view σ fd =
      { w.view σ fd with scene := hub.scene fd (w.index fd) } := view_of_scene rfl rfl rfl rfl rfl
  rw [Hub.scene_refused] at hview
  rw [hm]
  constructor
  · rintro rfl
    have hsides := sides_scene_of_none (σ := σ) ((Rests.index_eq hh fd').trans hi)
    have hrefused : (w.view σ fd').scene.refused = true := List.contains_iff_mem.mpr hmem
    have hp : (w.view σ fd').monitor fd' e ev =
        ({ w.view σ fd' with scene := { (w.view σ fd').scene with refused := false } },
          .failed (.registration fd' (.ofKind .permissionDenied))) := by
      simp only [View.monitor, hsides, he, hrefused, Bool.false_eq_true, if_false, if_true]
    rw [if_pos rfl] at hview
    rw [hp]
    exact ⟨hview, rfl⟩
  · intro hne
    rw [if_neg hne] at hview
    exact hview

private theorem asked_watch (hw : Rests σ w) (hh : w.handlers = (∅ : Table Handler).insert 0 h)
    (hi : h.watchers.get? fd' = none) (he : ev.isEmpty = false)
    (hmem : fd' ∉ w.hub.reactor.refused) :
    Asked σ fd fd' e ev w (w.answered (h.monitor e fd' ev w.hub)) := by
  have hindex := Rests.index_eq hh
  obtain ⟨hub, hn, hfdOf, hengines⟩ := w.hub.newWatcher_of_not_refused h.strand hmem
  have hm : h.monitor e fd' ev w.hub =
      (.ok { h with watchers := h.watchers.insert fd' w.hub.watchers.length },
        hub.setInterest w.hub.watchers.length e ev) := by
    simp only [Handler.monitor, hi, he, hn, Bool.false_eq_true, if_false]
  have hget : (h.watchers.insert fd' w.hub.watchers.length).get? fd =
      if fd' = fd then some w.hub.watchers.length else w.index fd := by
    rw [Table.get?_insert, hindex]
    simp only [eq_comm]
  have hown : (if fd' = fd then some w.hub.watchers.length else w.index fd) =
      some w.hub.watchers.length ↔ hub.fdOf? w.hub.watchers.length = some fd := by
    rw [hfdOf, Option.some.injEq]
    by_cases hfd : fd' = fd
    · simp [hfd]
    · simp only [hfd, if_false, iff_false]
      exact fun hj => (hw.index_lt hj).false
  have hview : (w.answered (h.monitor e fd' ev w.hub)).1.view σ fd = { w.view σ fd with
      scene := (hub.setInterest w.hub.watchers.length e ev).scene fd
        (if fd' = fd then some w.hub.watchers.length else w.index fd) } := by
    rw [hm, ← hget]
    refine view_answered hw hh ((Hub.engines_setInterest _ _ _ _).trans hengines) fun j hj => ?_
    -- no slot holds a wait of a watcher that is yet to be made
    have hlen : j ≠ w.hub.watchers.length := by
      obtain ⟨x, hx, -⟩ := Hub.exists_of_fdOf? hj
      exact ((List.getElem?_eq_some_iff.mp hx).1).ne
    rw [hget]
    split
    · rename_i hfd
      subst hfd
      rw [hindex, hi]
      simp [hlen.symm]
    · rfl
  rw [Hub.scene_setInterest hown, Hub.scene_newWatcher hn fun _ => hw.index_lt] at hview
  constructor
  · rintro rfl
    have hsides := sides_scene_of_none (σ := σ) ((hindex fd').trans hi)
    have hrefused : (w.view σ fd').scene.refused = false := by
      rw [Bool.eq_false_iff]
      exact fun h => hmem (List.contains_iff_mem.mp h)
    rw [hm] at hview ⊢
    simp only [if_true] at hview
    have hp : (w.view σ fd').monitor fd' e ev =
        ({ w.view σ fd' with scene := (w.view σ fd').scene.watch.setInterest e ev }, .done) := by
      simp only [View.monitor, hsides, he, hrefused, Bool.false_eq_true, if_false]
    rw [hp]
    exact ⟨hview, rfl⟩
  · intro hne
    have hk : w.index fd ≠ some w.hub.watchers.length := fun hj => (hw.index_lt hj).false
    simp only [if_neg hne, if_neg hk] at hview
    exact hview

private theorem asked_nothing (hw : Rests σ w) (hh : w.handlers = (∅ : Table Handler).insert 0 h)
    (hi : h.watchers.get? fd' = none) (he : ev.isEmpty = true) :
    Asked σ fd fd' e ev w (w.answered (h.monitor e fd' ev w.hub)) := by
  have hm : h.monitor e fd' ev w.hub = (.ok h, w.hub) := by
    simp only [Handler.monitor, hi, he, if_true]
  have hview : (w.answered (.ok h, w.hub)).1.view σ fd = w.view σ fd := by
    rw [view_answered hw hh rfl fun j _ => by rw [Rests.index_eq hh], ← Rests.index_eq hh]
    rfl
  rw [hm]
  refine ⟨?_, fun _ => hview⟩
  rintro rfl
  have hsides := sides_scene_of_none (σ := σ) ((Rests.index_eq hh fd').trans hi)
  have hp : (w.view σ fd').monitor fd' e ev = (w.view σ fd', .done) := by
    simp only [View.monitor, hsides, he, if_true]
  rw [hp]
  exact ⟨hview, rfl⟩

/-- Asking the handler for interest. -/
theorem asked_monitor (hw : Rests σ w) (hh : w.handlers = (∅ : Table Handler).insert 0 h)
    (fd fd' : Fd) (e : Nat) (ev : Events) :
    Asked σ fd fd' e ev w (w.answered (h.monitor e fd' ev w.hub)) := by
  cases hi : h.watchers.get? fd' with
  | none =>
    cases he : ev.isEmpty with
    | true => exact asked_nothing hw hh hi he
    | false =>
      by_cases hmem : fd' ∈ w.hub.reactor.refused
      · exact asked_refused hh hi he hmem
      · exact asked_watch hw hh hi he hmem
  | some i =>
    cases he : ev.isEmpty with
    | true => exact asked_leave hw hh hi he
    | false => exact asked_update hw hh hi he

theorem shown_monitor (hw : Rests σ w) (n a : Int) (fd' : Fd) (ev : Events) :
    Shown σ fd (.monitor n a fd' ev) w (w.monitor n a fd' ev).1
      (.mk (w.monitor n a fd' ev).2 []) := by
  obtain ⟨h, hh⟩ := hw.handler
  have hget := get?_handlers hh n
  have hmissing (hm : w.monitor n a fd' ev = (w, .missing))
      (hp : (w.view σ fd).perform fd (.monitor n a fd' ev) = (w.view σ fd, .missing, [])) :
      Shown σ fd (.monitor n a fd' ev) w (w.monitor n a fd' ev).1
        (.mk (w.monitor n a fd' ev).2 []) := by
    rw [hm]
    by_cases hfd : fd' = fd
    · exact .of_own (congrArg some hfd) hp rfl rfl rfl
    · exact .of_other rfl hfd rfl rfl
  have hnames : (w.view σ fd).names = w.engines := rfl
  cases he : w.engines.get? a with
  | none =>
    refine hmissing ?_ ?_
    · simp only [World.monitor, he]
    · simp only [View.perform, hnames, he]
  | some e =>
    by_cases hn : n = 0
    · subst hn
      have hm : w.monitor 0 a fd' ev = w.answered (h.monitor e fd' ev w.hub) := by
        simp only [World.monitor, he, hget, if_true]
        rfl
      obtain ⟨hown, hother⟩ := asked_monitor hw hh fd fd' e ev
      rw [hm]
      by_cases hfd : fd' = fd
      · subst hfd
        refine .of_own rfl (V := (((w.view σ fd').monitor fd' e ev).1,
          ((w.view σ fd').monitor fd' e ev).2, [])) ?_ (hown rfl).1 (hown rfl).2 rfl
        simp only [View.perform, hnames, he, if_true]
      · exact .of_other rfl hfd (hother hfd) rfl
    · refine hmissing ?_ ?_
      · simp only [World.monitor, he, hget, hn, if_false]
      · simp only [View.perform, hnames, he, hn, if_false]

end Monitor

end Scenario
end Wakeup
