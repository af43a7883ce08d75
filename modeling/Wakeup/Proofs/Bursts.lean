import Wakeup.Proofs.Registry

/-! Bursts of requests for interest in one descriptor. However many there are, the last one says
what is wanted, each direction is armed once at most, and nothing else is done. -/
namespace Wakeup

namespace Sides
variable {α : Type}

theorem modify_modify (s : Sides α) (d : Direction) (f g : α → α) :
    (s.modify d f).modify d g = s.modify d (g ∘ f) := by
  cases d <;> rfl

theorem modify_eq_self {s : Sides α} {d : Direction} {f : α → α} (h : f (s.get d) = s.get d) :
    s.modify d f = s := by
  rw [modify, h]
  cases d <;> rfl

end Sides

/-- A side that is wanted or not from now on. -/
def Side.ask (wanted : Bool) (x : Side) : Side := ⟨wanted, x.pending || wanted⟩

namespace Watcher

/-- A watcher after a change of one direction. -/
def modifySide (d : Direction) (f : Side → Side) (x : Watcher) : Watcher :=
  { x with sides := x.sides.modify d f }

/-- A watcher of which the directions of a mask are wanted from now on. -/
def ask (ev : Events) (x : Watcher) : Watcher :=
  { x with sides := ⟨x.sides.read.ask (ev.wants .read), x.sides.write.ask (ev.wants .write)⟩ }

/-- The waits that a mask makes necessary, on behalf of an engine. -/
def fresh (e : Nat) (ev : Events) (x : Watcher) : List (Direction × Nat) :=
  (Direction.all.filter fun d => ev.wants d && !(x.sides.get d).pending).map (·, e)

theorem get_ask (ev : Events) (x : Watcher) (d : Direction) :
    (x.ask ev).sides.get d = (x.sides.get d).ask (ev.wants d) := by
  cases d <;> rfl

theorem ask_ask (ev : Events) (x : Watcher) : (x.ask ev).ask ev = x.ask ev := by
  simp only [ask, Side.ask, Bool.or_assoc, Bool.or_self]

theorem fresh_ask (e : Nat) (ev : Events) (x : Watcher) : (x.ask ev).fresh e ev = [] := by
  have hnone : ∀ d ∈ Direction.all,
      ¬(ev.wants d && !((x.ask ev).sides.get d).pending) = true := by
    intro d _
    rw [get_ask]
    simp only [Side.ask]
    cases ev.wants d <;> simp
  rw [fresh, List.filter_eq_nil_iff.mpr hnone, List.map_nil]

theorem filter_fresh (e : Nat) (ev : Events) (x : Watcher) (d : Direction) :
    (x.fresh e ev).filter (·.1 == d) =
      if ev.wants d && !(x.sides.get d).pending then [(d, e)] else [] := by
  simp only [fresh, Direction.all, List.filter_cons, List.filter_nil]
  cases d <;> cases ev.wants .read && !(x.sides.get .read).pending <;>
    cases ev.wants .write && !(x.sides.get .write).pending <;> rfl

theorem ask_interest (ev : Events) (x : Watcher) : (x.ask ev).interest = ev.known :=
  ev.ofSides_wants

end Watcher

/-- Waits for directions of a watcher, each on behalf of an engine. -/
def Manual.armEach (i : Nat) (r : Registration) (news : List (Direction × Nat)) (m : Manual) :
    Manual :=
  news.foldl (fun m new => m.arm r new.1 (.ready i new.1 new.2)) m

namespace Hub
variable {hub : Hub Manual} {i : Nat} {x : Watcher}

/-- Changes a watcher and waits for directions of it. -/
def update (i : Nat) (x : Watcher) (news : List (Direction × Nat)) (hub : Hub Manual) :
    Hub Manual :=
  { hub with
    reactor := hub.reactor.armEach i x.registration news
    watchers := hub.watchers.set i x }

theorem update_self (hx : hub.watchers[i]? = some x) : hub.update i x [] = hub := by
  obtain ⟨hlt, hget⟩ := List.getElem?_eq_some_iff.mp hx
  have hset : hub.watchers.set i x = hub.watchers := by
    rw [← hget]
    exact List.set_getElem_self hlt
  unfold update
  rw [hset]
  rfl

theorem update_update {y : Watcher} {news news' : List (Direction × Nat)}
    (hr : y.registration = x.registration) :
    (hub.update i x news).update i y news' = hub.update i y (news ++ news') := by
  simp only [update, List.set_set, Manual.armEach, List.foldl_append, hr]

theorem getElem?_update (hx : hub.watchers[i]? = some x) (y : Watcher)
    (news : List (Direction × Nat)) : (hub.update i y news).watchers[i]? = some y :=
  List.getElem?_set_self (List.getElem?_eq_some_iff.mp hx).1

theorem modifySide_eq (hx : hub.watchers[i]? = some x) (d : Direction) (f : Side → Side) :
    hub.modifySide i d f = hub.update i (x.modifySide d f) [] := by
  unfold modifySide modifyWatcher update
  rw [List.modify_eq_set_getElem?, hx]
  rfl

theorem armSide_eq (hx : hub.watchers[i]? = some x) (d : Direction) (e : Nat) :
    hub.armSide i d e = hub.update i (x.modifySide d ({ · with pending := true }))
      (if (x.sides.get d).pending then [] else [(d, e)]) := by
  unfold armSide
  rw [hx]
  dsimp only
  split
  · rename_i hp
    have hsides : x.sides.modify d ({ · with pending := true }) = x.sides := by
      refine Sides.modify_eq_self ?_
      rw [← hp]
    rw [Watcher.modifySide, hsides]
    exact (update_self hx).symm
  · rw [modifySide_eq hx]
    rfl

theorem setSide_eq (hx : hub.watchers[i]? = some x) (e : Nat) (d : Direction) (wanted : Bool) :
    hub.setSide i e d wanted = hub.update i (x.modifySide d (Side.ask wanted))
      (if wanted && !(x.sides.get d).pending then [(d, e)] else []) := by
  unfold setSide
  rw [modifySide_eq hx]
  cases wanted with
  | false =>
    have hask : Side.ask false = ({ · with wanted := false }) := by
      funext side
      simp only [Side.ask, Bool.or_false]
    rw [hask]
    rfl
  | true =>
    have hpending : ((x.modifySide d ({ · with wanted := true })).sides.get d).pending =
        (x.sides.get d).pending := by
      rw [Watcher.modifySide, Sides.modify, Sides.get_set_self]
    have hside : (x.modifySide d ({ · with wanted := true })).modifySide d
        ({ · with pending := true }) = x.modifySide d (Side.ask true) := by
      have hask : ({ · with pending := true }) ∘ ({ · with wanted := true }) = Side.ask true := by
        funext side
        simp only [Side.ask, Bool.or_true, Function.comp_apply]
      rw [Watcher.modifySide, Watcher.modifySide, Sides.modify_modify, hask]
      rfl
    rw [if_pos rfl, armSide_eq (getElem?_update hx _ _), hpending, hside, update_update]
    · cases (x.sides.get d).pending <;> rfl
    · rfl

/-- Replacing the interest of a watcher, in closed form. -/
theorem setInterest_eq (hx : hub.watchers[i]? = some x) (e : Nat) (ev : Events) :
    hub.setInterest i e ev = hub.update i (x.ask ev) (x.fresh e ev) := by
  have hfresh : x.fresh e ev =
      (if ev.wants .read && !x.sides.read.pending then [(Direction.read, e)] else []) ++
        if ev.wants .write && !x.sides.write.pending then [(Direction.write, e)] else [] := by
    simp only [Watcher.fresh, Direction.all, List.filter_cons, List.filter_nil, Sides.get]
    cases ev.wants .read && !x.sides.read.pending <;>
      cases ev.wants .write && !x.sides.write.pending <;> rfl
  change (hub.setSide i e .read (ev.wants .read)).setSide i e .write (ev.wants .write) = _
  rw [setSide_eq hx, setSide_eq (getElem?_update hx _ _), update_update, hfresh] <;> rfl

/-- What requests of a handler for a descriptor go to: the watcher that it has, or else one that is
made for a new registration. -/
inductive Found (h : Handler) (fd : Fd) (hub : Hub Manual) : Nat → Watcher → Hub Manual → Prop
  | watched {i : Nat} {x : Watcher} :
      h.watchers.get? fd = some i → hub.watchers[i]? = some x → Found h fd hub i x hub
  | registered :
      h.watchers.get? fd = none → fd ∉ hub.reactor.refused →
      Found h fd hub hub.watchers.length ⟨⟨hub.reactor.nextId, fd⟩, h.strand, .both {}, {}⟩
        { hub with
          reactor := { hub.reactor with
            nextId := hub.reactor.nextId + 1
            live := hub.reactor.live.insert fd ((hub.reactor.live.get? fd).getD 0 + 1) }
          watchers := hub.watchers ++ [⟨⟨hub.reactor.nextId, fd⟩, h.strand, .both {}, {}⟩] }

end Hub

namespace Handler
variable {h h' : Handler} {hub hub' hub₁ : Hub Manual} {fd : Fd} {ev : Events} {i : Nat}
  {x : Watcher}

/-- A handler that holds a watcher for a descriptor. -/
def hold (fd : Fd) (i : Nat) (h : Handler) : Handler :=
  { h with watchers := h.watchers.insert fd i }

theorem hold_of_get? (hi : h.watchers.get? fd = some i) : h.hold fd i = h := by
  rw [hold, Table.insert_of_get? hi]

theorem found_of_watching (hlt : ∀ i, h.watchers.get? fd = some i → i < hub.watchers.length)
    (hfd : h.isWatching fd = true ∨ fd ∉ hub.reactor.refused) :
    ∃ i x hub₁, hub.Found h fd i x hub₁ := by
  cases hi : h.watchers.get? fd with
  | some i => exact ⟨_, _, _, .watched hi (List.getElem?_eq_getElem (hlt i hi))⟩
  | none =>
    have hnot : ¬h.isWatching fd = true := by simp [isWatching, Table.contains, hi]
    exact ⟨_, _, _, .registered hi (hfd.resolve_left hnot)⟩

theorem get?_of_found (hf : hub.Found h fd i x hub₁) : hub₁.watchers[i]? = some x := by
  cases hf with
  | watched hi hx => exact hx
  | registered hi hr => exact List.getElem?_concat_length

/-- A request with bits, in closed form. -/
theorem monitor_found (hf : hub.Found h fd i x hub₁) (hev : ev.isEmpty = false) (e : Nat) :
    h.monitor e fd ev hub = (.ok (h.hold fd i), hub₁.update i (x.ask ev) (x.fresh e ev)) := by
  rw [← Hub.setInterest_eq (get?_of_found hf)]
  unfold monitor
  cases hf with
  | watched hi hx =>
    rw [hi]
    dsimp only
    rw [hev, hold_of_get? hi]
    rfl
  | registered hi hr =>
    rw [hi]
    dsimp only
    rw [hev]
    simp only [Bool.false_eq_true, if_false, Hub.newWatcher, Manual.reactor_register,
      Manual.register, hr]
    rfl

theorem found_of_monitor {e : Nat} (hm : h.monitor e fd ev hub = (.ok h', hub'))
    (hev : ev.isEmpty = false)
    (hlt : ∀ i, h.watchers.get? fd = some i → i < hub.watchers.length) :
    ∃ i x hub₁, hub.Found h fd i x hub₁ := by
  refine found_of_watching hlt ?_
  by_contra hnot
  obtain ⟨hwatching, hrefused⟩ := not_or.mp hnot
  have hi : h.watchers.get? fd = none := by
    simpa [isWatching, Table.contains] using hwatching
  have herror : ∃ err hub₂, h.monitor e fd ev hub = (.error err, hub₂) := by
    simp only [monitor, hi, hev, Bool.false_eq_true, if_false, Hub.newWatcher,
      Manual.reactor_register, Manual.register, if_pos (not_not.mp hrefused)]
    exact ⟨_, _, rfl⟩
  obtain ⟨err, hub₂, herr⟩ := herror
  cases herr.symm.trans hm

/-- Removing a descriptor that is not watched does nothing. -/
theorem monitor_of_get?_eq_none (hi : h.watchers.get? fd = none) (hev : ev.isEmpty = true)
    (e : Nat) : h.monitor e fd ev hub = (.ok h, hub) := by
  unfold monitor
  rw [hi]
  exact if_pos hev

/-- A request that is repeated is accepted again and does nothing. -/
theorem monitor_monitor {a : Nat} (hm : h.monitor a fd ev hub = (.ok h', hub'))
    (hlt : ∀ i, h.watchers.get? fd = some i → i < hub.watchers.length) (b : Nat) :
    h'.monitor b fd ev hub' = (.ok h', hub') := by
  cases hev : ev.isEmpty with
  | true =>
    refine monitor_of_get?_eq_none ?_ hev b
    unfold monitor at hm
    cases hi : h.watchers.get? fd with
    | none =>
      rw [hi] at hm
      cases (if_pos hev).symm.trans hm
      exact hi
    | some i =>
      rw [hi] at hm
      cases (if_pos hev).symm.trans hm
      exact Table.get?_erase_self ..
  | false =>
    obtain ⟨i, x, hub₁, hf⟩ := found_of_monitor hm hev hlt
    cases (monitor_found hf hev a).symm.trans hm
    have hx := Hub.getElem?_update (get?_of_found hf) (x.ask ev) (x.fresh a ev)
    have hi : (h.hold fd i).watchers.get? fd = some i := Table.get?_insert_self ..
    have hhold : (h.hold fd i).hold fd i = h.hold fd i := hold_of_get? hi
    rw [monitor_found (.watched hi hx) hev b, hhold, x.ask_ask, x.fresh_ask,
      Hub.update_self hx]

end Handler

namespace Scenario

/-- A request for interest, made for an engine under the name that a scenario gives it. -/
structure Request where
  name : Int
  engine : Nat
  mask : Events

namespace Request

/-- The operation by which a handler is asked. -/
def op (n : Int) (fd : Fd) (q : Request) : Op := .monitor n q.name fd q.mask

/-- What happens when the handler of a strand accepts. -/
def event (s : Nat) (fd : Fd) (q : Request) : Event := .monitored s q.engine fd q.mask

end Request
end Scenario

namespace Watcher
open Scenario

/-- A watcher after requests. -/
def askAll (burst : List Request) (x : Watcher) : Watcher :=
  burst.foldl (fun x q => x.ask q.mask) x

/-- The waits that requests make necessary. -/
def freshAll : List Request → Watcher → List (Direction × Nat)
  | [], _ => []
  | q :: burst, x => x.fresh q.engine q.mask ++ freshAll burst (x.ask q.mask)

theorem askAll_eq (burst : List Request) (x : Watcher) :
    x.askAll burst = { x with sides := (x.askAll burst).sides } := by
  induction burst generalizing x with
  | nil => rfl
  | cons q burst ih => exact ih (x.ask q.mask)

theorem registration_askAll (burst : List Request) (x : Watcher) :
    (x.askAll burst).registration = x.registration := by
  rw [askAll_eq]

theorem askAll_interest {burst : List Request} (hne : burst ≠ []) (x : Watcher) :
    (x.askAll burst).interest = (burst.getLast hne).mask.known := by
  conv_lhs => rw [← List.dropLast_append_getLast hne]
  rw [askAll, List.foldl_append, List.foldl_cons, List.foldl_nil, ask_interest]

theorem get_askAll {burst : List Request} (hne : burst ≠ []) (x : Watcher) (d : Direction) :
    (x.askAll burst).sides.get d = ⟨(burst.getLast hne).mask.wants d,
      (x.sides.get d).pending || burst.any (·.mask.wants d)⟩ := by
  have hpending : ∀ (burst : List Request) (x : Watcher), ((x.askAll burst).sides.get d).pending =
      ((x.sides.get d).pending || burst.any (·.mask.wants d)) := by
    intro burst
    induction burst with
    | nil => exact fun x => (Bool.or_false _).symm
    | cons q burst ih =>
      intro x
      rw [askAll, List.foldl_cons, ← askAll, ih, get_ask, Side.ask, List.any_cons, Bool.or_assoc]
  have hwanted : ((x.askAll burst).sides.get d).wanted = (burst.getLast hne).mask.wants d := by
    conv_lhs => rw [← List.dropLast_append_getLast hne]
    rw [askAll, List.foldl_append, List.foldl_cons, List.foldl_nil, get_ask, Side.ask]
  rw [← hwanted, ← hpending]

/-- Each direction is armed once at most, for the first engine that wants it. -/
theorem filter_freshAll (burst : List Request) (x : Watcher) (d : Direction) :
    (x.freshAll burst).filter (·.1 == d) =
      if (x.sides.get d).pending then []
      else ((burst.find? (·.mask.wants d)).map fun q => (d, q.engine)).toList := by
  induction burst generalizing x with
  | nil => exact (ite_self _).symm
  | cons q burst ih =>
    rw [freshAll, List.filter_append, filter_fresh, ih, get_ask, List.find?_cons]
    cases hp : (x.sides.get d).pending <;> cases hw : q.mask.wants d <;> simp [Side.ask, hp]

end Watcher

namespace Scenario
namespace World
variable {w : World} {n a b : Int} {fd : Fd} {ev : Events}

/-- What a request was that a handler accepted. -/
theorem monitor_done (hdone : (w.monitor n a fd ev).2 = .done) : ∃ e h h' hub',
    w.engines.get? a = some e ∧ w.handlers.get? n = some h ∧
      h.monitor e fd ev w.hub = (.ok h', hub') ∧
      w.monitor n a fd ev =
        ({ w with hub := hub', handlers := w.handlers.insert n h' }, .done) := by
  unfold World.monitor at hdone ⊢
  cases ha : w.engines.get? a with
  | none =>
    rw [ha] at hdone
    cases hdone
  | some e =>
    cases hh : w.handlers.get? n with
    | none =>
      rw [ha, hh] at hdone
      cases hdone
    | some h =>
      rw [ha, hh] at hdone
      dsimp only at hdone ⊢
      cases hm : h.monitor e fd ev w.hub with
      | mk result hub' =>
        rw [hm] at hdone
        cases result with
        | error err => cases hdone
        | ok h' => exact ⟨e, h, h', hub', rfl, rfl, hm, rfl⟩

private theorem monitor_again (hdone : (w.monitor n a fd ev).2 = .done)
    (hlt : ∀ h, w.handlers.get? n = some h → ∀ i, h.watchers.get? fd = some i →
      i < w.hub.watchers.length)
    (hb : (w.engines.get? b).isSome = true) :
    (w.monitor n a fd ev).1.monitor n b fd ev = ((w.monitor n a fd ev).1, .done) := by
  obtain ⟨e, h, h', hub', -, hh, hm, heq⟩ := monitor_done hdone
  obtain ⟨engine, hengine⟩ := Option.isSome_iff_exists.mp hb
  have hagain := Handler.monitor_monitor hm (hlt h hh) engine
  have hget : (w.handlers.insert n h').get? n = some h' := Table.get?_insert_self ..
  rw [heq]
  simp only [World.monitor, hengine, hget, hagain, Table.insert_of_get? hget]

end World

namespace Config
variable {c c' : Config} {log : List Event} {n : Int} {fd : Fd} {h : Handler} {i : Nat}
  {x : Watcher} {hub₁ : Hub Manual} {burst : List Request} {todo : List Op}

/-- The step that performs a request with bits. -/
theorem step_request {q : Request} (ht : c.frame.todo = q.op n fd :: todo)
    (hh : c.world.handlers.get? n = some h) (hf : c.world.hub.Found h fd i x hub₁)
    (he : c.world.engines.get? q.name = some q.engine) (hm : q.mask.isEmpty = false) :
    c.step = some ⟨{ c.world with
        hub := hub₁.update i (x.ask q.mask) (x.fresh q.engine q.mask)
        handlers := c.world.handlers.insert n (h.hold fd i) },
      { c.frame with todo := todo, entries := .mk .done [] :: c.frame.entries }, c.below⟩ ∧
    c.events = [q.event h.strand fd] := by
  have hmonitor := Handler.monitor_found hf hm q.engine
  constructor
  · refine step_of_ended ht ?_
    simp only [Request.op, World.perform, World.monitor, he, hh, hmonitor]
  · unfold events
    rw [ht]
    simp only [Request.op, World.events, he, hh, hmonitor]
    rfl

/-- A burst of requests, in closed form. -/
theorem steps_burst {q : Request} (ht : c.frame.todo = (q :: burst).map (·.op n fd) ++ todo)
    (hh : c.world.handlers.get? n = some h) (hf : c.world.hub.Found h fd i x hub₁)
    (hq : ∀ r ∈ q :: burst, c.world.engines.get? r.name = some r.engine ∧
      r.mask.isEmpty = false) :
    steps (q :: burst).length (c, log) =
      (⟨{ c.world with
          hub := hub₁.update i (x.askAll (q :: burst)) (x.freshAll (q :: burst))
          handlers := c.world.handlers.insert n (h.hold fd i) },
        { c.frame with
          todo := todo
          entries := List.replicate (q :: burst).length (.mk .done []) ++ c.frame.entries },
        c.below⟩, ((q :: burst).map (·.event h.strand fd)).reverse ++ log) := by
  induction burst generalizing c q h x hub₁ log with
  | nil =>
    obtain ⟨he, hm⟩ := hq q List.mem_cons_self
    obtain ⟨hs, hevents⟩ := step_request ht hh hf he hm
    rw [List.length_singleton, steps, hs, Watcher.freshAll, Watcher.freshAll, List.append_nil]
    dsimp only
    rw [hevents]
    rfl
  | cons r burst ih =>
    obtain ⟨he, hm⟩ := hq q List.mem_cons_self
    obtain ⟨hs, hevents⟩ := step_request ht hh hf he hm
    let hub := hub₁.update i (x.ask q.mask) (x.fresh q.engine q.mask)
    let w : World := { c.world with
      hub := hub, handlers := c.world.handlers.insert n (h.hold fd i) }
    let f : Frame := { c.frame with
      todo := (r :: burst).map (·.op n fd) ++ todo
      entries := .mk .done [] :: c.frame.entries }
    have hi : (h.hold fd i).watchers.get? fd = some i := Table.get?_insert_self ..
    have hx : hub.watchers[i]? = some (x.ask q.mask) :=
      Hub.getElem?_update (Handler.get?_of_found hf) _ _
    have hh' : w.handlers.get? n = some (h.hold fd i) := Table.get?_insert_self ..
    -- the requests that are left find the watcher that the first one found or made
    have hrest : steps (r :: burst).length (⟨w, f, c.below⟩, c.events.reverse ++ log) = _ :=
      ih rfl hh' (.watched hi hx) fun r hmem => hq r (List.mem_cons_of_mem _ hmem)
    have hhub : hub.update i ((x.ask q.mask).askAll (r :: burst))
        ((x.ask q.mask).freshAll (r :: burst)) =
        hub₁.update i (x.askAll (q :: r :: burst)) (x.freshAll (q :: r :: burst)) :=
      Hub.update_update (Watcher.registration_askAll _ _)
    rw [List.length_cons, steps, hs]
    refine hrest.trans ?_
    have hlog : ((q :: r :: burst).map (·.event h.strand fd)).reverse ++ log =
        ((r :: burst).map (·.event h.strand fd)).reverse ++
          ([q.event h.strand fd].reverse ++ log) := by
      simp only [List.map_cons, List.reverse_cons, List.append_assoc, List.reverse_nil,
        List.nil_append]
    rw [hlog, hhub, Handler.hold_of_get? hi, Table.insert_of_get? hh', hevents,
      List.replicate_succ', List.append_assoc]
    rfl

/-- The step that performs a request which was just accepted. -/
theorem step_repeated (hr : Reached c log) {a b : Int} {ev : Events}
    (ht : c.frame.todo = .monitor n a fd ev :: .monitor n b fd ev :: todo)
    (hs : c.step = some c') (hdone : c'.frame.entries = .mk .done [] :: c.frame.entries)
    (hb : (c.world.engines.get? b).isSome = true) :
    c'.step = some ⟨c'.world,
      { c'.frame with todo := todo, entries := .mk .done [] :: c'.frame.entries }, c'.below⟩ := by
  have hfirst := step_of_ended ht (rfl : c.world.perform (.monitor n a fd ev) =
    World.ended (c.world.monitor n a fd ev))
  cases hs.symm.trans hfirst
  have hreply : (c.world.monitor n a fd ev).2 = .done :=
    (Entry.mk.inj (List.cons.inj hdone).1).1
  have hlt : ∀ h, c.world.handlers.get? n = some h → ∀ i, h.watchers.get? fd = some i →
      i < c.world.hub.watchers.length :=
    fun h hh i hi => lt_of_get? hr (mem_live_of_get? hh) hi
  exact step_of_ended rfl (congrArg World.ended (World.monitor_again hreply hlt hb))

/-- Bursts of requests for a descriptor, at any point of any run. All are accepted if the descriptor
is watched or the reactor does not refuse it. A new watcher is made only for a descriptor that was
not watched. The last request says what is wanted. Of each direction that was not pending, the first
request that wants it arms one wait. All else stays as it was. A request that is repeated, be it for
another engine or to remove the descriptor, changes nothing at all. -/
theorem requests_in_a_row (hr : Reached c log) :
    (∀ (n : Int) (h : Handler) (fd : Fd) (burst : List Request) (todo : List Op)
        (hne : burst ≠ []),
      c.world.handlers.get? n = some h →
      h.isWatching fd = true ∨ fd ∉ c.world.hub.reactor.refused →
      (∀ q ∈ burst, c.world.engines.get? q.name = some q.engine ∧ q.mask.bits ≠ 0) →
      c.frame.todo = burst.map (·.op n fd) ++ todo →
      ∃ i x hub sides news, c.world.hub.Found h fd i x hub ∧
        (h.isWatching fd = true → ∀ d, c.world.unconsumed i d + thrownAway log i d =
          if (x.sides.get d).pending then 1 else 0) ∧
        (∀ d, sides.get d = ⟨(burst.getLast hne).mask.wants d,
          (x.sides.get d).pending || burst.any (·.mask.wants d)⟩) ∧
        (∀ d, news.filter (·.1 == d) =
          if (x.sides.get d).pending then []
          else ((burst.find? (·.mask.wants d)).map fun q => (d, q.engine)).toList) ∧
        steps burst.length (c, log) =
          (⟨{ c.world with
              hub := hub.update i { x with sides := sides } news
              handlers := c.world.handlers.insert n (h.hold fd i) },
            { c.frame with
              todo := todo
              entries := List.replicate burst.length (.mk .done []) ++ c.frame.entries },
            c.below⟩, (burst.map (·.event h.strand fd)).reverse ++ log) ∧
        (h.hold fd i).interest fd (hub.update i { x with sides := sides } news) =
          some (burst.getLast hne).mask.known) ∧
    ∀ (n a b : Int) (fd : Fd) (ev : Events) (todo : List Op) (c' : Config),
      c.frame.todo = .monitor n a fd ev :: .monitor n b fd ev :: todo →
      c.step = some c' → c'.frame.entries = .mk .done [] :: c.frame.entries →
      (c.world.engines.get? b).isSome = true →
      c'.step = some ⟨c'.world,
        { c'.frame with todo := todo, entries := .mk .done [] :: c'.frame.entries },
        c'.below⟩ := by
  refine ⟨?_, fun n a b fd ev todo c' => step_repeated hr⟩
  intro n h fd burst todo hne hh hfd hq ht
  have hlive := mem_live_of_get? hh
  obtain ⟨i, x, hub, hf⟩ := Handler.found_of_watching (fun i hi => lt_of_get? hr hlive hi) hfd
  have hq' : ∀ q ∈ burst, c.world.engines.get? q.name = some q.engine ∧
      q.mask.isEmpty = false := by
    intro q hmem
    obtain ⟨he, hbits⟩ := hq q hmem
    exact ⟨he, beq_false_of_ne hbits⟩
  refine ⟨i, x, hub, (x.askAll burst).sides, x.freshAll burst, hf, ?_, x.get_askAll hne,
    x.filter_freshAll burst, ?_, ?_⟩
  · intro hwatching d
    cases hf with
    | watched hi hx =>
      exact claims_le_one hr i d hx ((alive_iff hr hlive hx).mpr (Or.inl hi)).1
    | registered hi _ =>
      rw [Handler.isWatching, Table.contains, hi] at hwatching
      cases hwatching
  · rw [← Watcher.askAll_eq]
    cases burst with
    | nil => exact absurd rfl hne
    | cons q burst => exact steps_burst ht hh hf hq'
  · have hi : (h.hold fd i).watchers.get? fd = some i := Table.get?_insert_self ..
    rw [← Watcher.askAll_eq, Handler.interest, hi, Option.bind_some,
      Hub.getElem?_update (Handler.get?_of_found hf), Option.map_some, x.askAll_interest hne]

/-- A handler is asked for a descriptor again and again, for two engines, after it withdrew the
interest for which a wait is left. -/
def restless : List Op :=
  [.newHandler 0, .newEngine 0 {} false, .newEngine 1 {} false, .monitor 0 0 5 .readable,
    .monitor 0 0 5 ⟨4⟩, .monitor 0 1 5 ⟨8⟩, .monitor 0 1 5 ⟨3⟩, .monitor 0 0 5 ⟨4⟩,
    .monitor 0 0 5 .none, .monitor 0 1 5 .none]

/-- Only writing is armed in the burst. Then the descriptor is removed twice. -/
theorem requests_in_a_row_restless :
    (∃ news, news.filter (·.1 == .read) = [] ∧ news.filter (·.1 == .write) = [(.write, 1)] ∧
      (sample restless 8).1.world.hub.reactor =
        (sample restless 5).1.world.hub.reactor.armEach 0 ⟨1, 5⟩ news) ∧
      (sample restless 10).1.world = (sample restless 9).1.world := by
  constructor
  · obtain ⟨i, x, hub, sides, news, hf, -, -, hnews, hsteps, -⟩ :=
      (requests_in_a_row (reached_sample restless 5)).1 0
        ⟨0, some 0, (∅ : Table Nat).insert 5 0⟩ 5
        [⟨1, 1, ⟨8⟩⟩, ⟨1, 1, ⟨3⟩⟩, ⟨0, 0, ⟨4⟩⟩] [.monitor 0 0 5 .none, .monitor 0 1 5 .none]
        (by decide) rfl (Or.inl rfl) (by decide) rfl
    have hreactor := congrArg (·.1.world.hub.reactor) hsteps
    cases hf with
    | registered hi _ => cases hi
    | watched hi hx =>
      cases hi
      cases hx
      exact ⟨news, hnews .read, hnews .write, hreactor⟩
  · have hs := (requests_in_a_row (reached_sample restless 8)).2 0 0 1 5 .none []
      (sample restless 9).1 rfl rfl rfl rfl
    exact congrArg (·.world) (Option.some.inj hs)

end Config
end Scenario
end Wakeup
