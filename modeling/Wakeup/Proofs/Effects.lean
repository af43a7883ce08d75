import Wakeup.Proofs.Dormant
import Wakeup.Proofs.Resuming
import Wakeup.Proofs.Views

/-! One completion, one effect: what is done when a wait of a watcher completes, for each outcome,
and that nothing else is. -/
namespace Wakeup

/-- The outcomes by which a descriptor counts as ready. -/
inductive Benign : Outcome → Prop
  | ok : Benign (.ok ())
  | kind : Benign (.error (.io (.ofKind .wouldBlock)))
  | custom (message : String) : Benign (.error (.io (.custom .wouldBlock message)))
  | errno : Benign (.error (.io (.os 11)))

theorem IoError.benign_of_wouldBlock {cause : IoError} (h : cause.wouldBlock = true) :
    Benign (.error (.io cause)) := by
  cases cause with
  | ofKind kind =>
    rw [show kind = .wouldBlock from beq_iff_eq.mp h]
    exact .kind
  | custom kind message =>
    rw [show kind = .wouldBlock from beq_iff_eq.mp h]
    exact .custom message
  | os number =>
    rw [show number = 11 from beq_iff_eq.mp h]
    exact .errno

theorem Verdict.of_eq_proceed_iff {o : Outcome} : Verdict.of o = .proceed ↔ Benign o := by
  constructor
  · intro h
    match o with
    | .ok () => exact .ok
    | .error err =>
      unfold Verdict.of at h
      dsimp only at h
      split at h
      · rename_i hbenign
        cases err with
        | io cause => exact IoError.benign_of_wouldBlock hbenign
        | config => cases hbenign
        | registration => cases hbenign
        | canceled => cases hbenign
      · split at h <;> cases h
  · intro h
    cases h <;> rfl

/-- What is neither ready nor cancelled has failed, and with its own error. -/
theorem Verdict.of_eq_failed {err : Error} (hb : ¬Benign (.error err)) (hc : err ≠ .canceled) :
    Verdict.of (.error err) = .failed err := by
  refine of_eq_failed_iff.mpr ⟨rfl, ?_, ?_⟩
  · cases hbenign : err.isBenign with
    | false => rfl
    | true =>
      refine absurd (of_eq_proceed_iff.mp ?_) hb
      simp [Verdict.of, hbenign]
  · cases err with
    | canceled => exact absurd rfl hc
    | _ => rfl

namespace Hub
variable {hub : Hub Manual} {i e : Nat} {d : Direction} {x : Watcher} {o : Outcome}

theorem modify_of_getElem? {α : Type} {l : List α} {i : Nat} {a : α} {f : α → α}
    (ha : l[i]? = some a) (hf : f a = a) : l.modify i f = l := by
  refine List.ext_getElem? fun j => ?_
  rw [List.getElem?_modify]
  split
  · rename_i hij
    subst hij
    simp [ha, hf]
  · simp

/-- A side that was pending is waited for again. -/
theorem armSide_idle (hx : hub.watchers[i]? = some x) (hp : (x.sides.get d).pending = true) :
    (hub.modifySide i d ({ · with pending := false })).armSide i d e =
      { hub with reactor := hub.reactor.arm x.registration d (.ready i d e) } := by
  have hset : (x.sides.modify d ({ · with pending := false })).modify d
      ({ · with pending := true }) = x.sides := by
    refine Sides.ext_get fun d' => ?_
    by_cases hd : d' = d
    · subst hd
      simp only [Sides.modify, Sides.get_set_self]
      rw [← hp]
    · simp only [Sides.modify, Sides.get_set_of_ne _ hd]
  have hside : (hub.modifySide i d ({ · with pending := false })).modifySide i d
      ({ · with pending := true }) = hub := by
    simp only [modifySide, modifyWatcher, List.modify_modify_eq]
    rw [modify_of_getElem? hx]
    simp only [Function.comp_apply, hset]
  have hx' : (hub.modifySide i d ({ · with pending := false })).watchers[i]? =
      some { x with sides := x.sides.modify d ({ · with pending := false }) } := by
    change (hub.watchers.modify i _)[i]? = _
    rw [List.getElem?_modify_eq, hx]
    rfl
  unfold armSide
  rw [hx']
  simp only [hside, Sides.modify, Sides.get_set_self, Bool.false_eq_true, if_false]
  rfl

/-- A wait of a watcher that is kept completes. The wait is armed again just when the engine was
told that the direction is ready. -/
theorem through_kept (hx : hub.watchers[i]? = some x) (hkept : x.presence.kept = true)
    (hs : hub.strandAlive x.strand = true) (hp : (x.sides.get d).pending = true) :
    hub.through (.ready i d e) o =
      let idle := hub.modifySide i d ({ · with pending := false })
      match Verdict.of o with
      | .proceed => if (x.sides.get d).wanted && hub.engineAlive e then
          ({ hub with reactor := hub.reactor.arm x.registration d (.ready i d e) },
            some ⟨.watcher i d, x.strand, e, .process x.fd (Events.ofDirection d)⟩)
        else (idle, none)
      | .canceled => (idle, none)
      | .failed err =>
        (idle, if hub.engineAlive e then
          some ⟨.watcher i d, x.strand, e, .waitError (some x.fd) err⟩ else none) := by
  let idle := hub.modifySide i d ({ · with pending := false })
  have hx' : idle.watchers[i]? =
      some { x with sides := x.sides.modify d ({ · with pending := false }) } := by
    change (hub.watchers.modify i _)[i]? = _
    rw [List.getElem?_modify_eq, hx]
    rfl
  have hkeeps : idle.keeps (.watcher i d) = true := by
    simp only [keeps, hx', Option.any_some, hkept]
  have halive : idle.engineAlive e = hub.engineAlive e := rfl
  rw [through_ready hx (by simp [Presence.alive, hkept]) hs]
  cases Verdict.of o with
  | canceled => rfl
  | failed err =>
    dsimp only
    rw [serve_of_keeps _ hkeeps]
    dsimp only
    rw [halive]
    cases hub.engineAlive e <;> rfl
  | proceed =>
    dsimp only
    cases hw : (x.sides.get d).wanted with
    | false => rfl
    | true =>
      rw [if_pos rfl, serve_of_keeps _ hkeeps, Bool.true_and]
      dsimp only
      rw [halive]
      cases hub.engineAlive e with
      | false => rfl
      | true =>
        have hwants : idle.wants i d = true := by
          simp only [wants, hx', Option.any_some, Sides.modify, Sides.get_set_self, hw]
        change (if idle.wants i d then idle.armSide i d e else idle, _) = _
        rw [hwants, if_pos rfl, armSide_idle hx hp]
        rfl

theorem interest_idle (hub : Hub Manual) (i : Nat) (d : Direction) (h : Handler) (fd : Fd) :
    h.interest fd (hub.modifySide i d ({ · with pending := false })) = h.interest fd hub := by
  unfold Handler.interest
  congr 1
  funext j
  change (hub.watchers.modify i _)[j]?.map _ = _
  rw [List.getElem?_modify]
  cases hub.watchers[j]? with
  | none => rfl
  | some x =>
    rw [Option.map_eq_map, Option.map_some, Option.map_some, Option.map_some, Option.some.injEq]
    split
    · cases d <;> rfl
    · rfl

end Hub

namespace Scenario

/-- What an engine reports of a call. -/
def Record.said? : Record → Option (Int × Notice)
  | .call name notice _ => some (name, notice)
  | .bare .. => none

namespace World
variable {w w₀ : World} {wait : Wait}

theorem cue_world (call : Call) (w : World) : ∃ actors : List Actor,
    actors.map (fun a => (a.name, a.plain)) = w.actors.map (fun a => (a.name, a.plain)) ∧
      (w.cue call).1 = { w with actors := actors } := by
  unfold cue
  split
  · exact ⟨w.actors, rfl, rfl⟩
  · split
    · exact ⟨w.actors, rfl, rfl⟩
    · split
      · exact ⟨w.actors, rfl, rfl⟩
      · refine ⟨_, ?_, rfl⟩
        exact map_modify_of_eq _ _ _ _ fun _ => rfl

theorem said_cue (call : Call) (w : World) :
    ((w.cue call).1.callRecords (w.cue call).2 []).map Record.said? =
      (hear w.actors call.engine call.notice).map some := by
  unfold cue hear
  cases ha : w.actors[call.engine]? with
  | none => simp [callRecords, ha]
  | some actor =>
    dsimp only
    split
    · simp [callRecords, ha]
    · split
      · simp [callRecords, ha, Record.said?]
      · simp [callRecords, ha, Record.said?]

/-- Of a completion only the hub shows anything, and which part of its script an engine plays. -/
theorem settle_world (wait : Wait) (o : Outcome) (w : World) : ∃ actors : List Actor,
    actors.map (fun a => (a.name, a.plain)) = w.actors.map (fun a => (a.name, a.plain)) ∧
      (w.settle wait o).1 =
        { w with hub := (w.hub.through wait.callback o).1, actors := actors } := by
  unfold settle begin Hub.through
  cases w.hub.begin wait.callback o with
  | mk hub call? =>
    cases call? with
    | none => exact ⟨w.actors, rfl, rfl⟩
    | some call =>
      obtain ⟨actors, hcast, hworld⟩ := cue_world call (w.setHub hub)
      refine ⟨actors, hcast, ?_⟩
      dsimp only
      rw [hworld]
      rfl

theorem begin_snd (wait : Wait) (o : Outcome) (w : World) :
    (w.begin wait o).2 = (w.hub.through wait.callback o).2 := by
  unfold begin Hub.through
  cases w.hub.begin wait.callback o with
  | mk hub call? => cases call? <;> rfl

private theorem settle_said {i e : Nat} {d : Direction} (hc : wait.callback = .ready i d e)
    (o : Outcome) (w : World) :
    (w.settle wait o).2.map Record.said? =
      ((w.begin wait o).2.toList.flatMap fun call =>
        hear w.actors call.engine call.notice).map some := by
  unfold settle begin
  cases w.hub.begin wait.callback o with
  | mk hub call? =>
    cases call? with
    | none => simp [bareRecords, hc]
    | some call =>
      simp only [Option.toList_some, List.flatMap_cons, List.flatMap_nil, List.append_nil]
      exact said_cue call (w.setHub hub)

/-- A wait is taken to be run: out of the reactor, or out of the slot that keeps it. -/
inductive Takes (w : World) (wait : Wait) : World → Prop
  | ready {l l' : List ReadyWait} {r : ReadyWait} (h : w.hub.reactor.ready = l ++ r :: l')
      (hr : r.wait = wait) : Takes w wait (w.modifyReactor fun m => { m with ready := l ++ l' })
  | slot {n : Int} (h : w.slots.get? n = some wait) :
      Takes w wait { w with slots := w.slots.erase n }

namespace Takes

theorem world (h : w.Takes wait w₀) : ∃ m slots,
    w₀ = { w with hub := { w.hub with reactor := m }, slots := slots } := by
  cases h with
  | ready => exact ⟨_, w.slots, rfl⟩
  | slot => exact ⟨w.hub.reactor, _, rfl⟩

private theorem unconsumed (h : w.Takes wait w₀) (i : Nat) (d : Direction) :
    w.unconsumed i d = w₀.unconsumed i d + if wait.callback.claims i d then 1 else 0 := by
  unfold World.unconsumed
  cases h with
  | @ready l l' r h hr =>
    subst hr
    change _ = (l ++ l').countP _ + w.slots.values.countP _ + _
    rw [h, List.countP_append, List.countP_append, List.countP_cons]
    omega
  | @slot n h =>
    have hperm : w.slots.values.Perm (wait :: (w.slots.erase n).values) :=
      Multiset.coe_eq_coe.mp (Table.coe_values_of_get? h)
    change _ = w.hub.reactor.ready.countP _ + (w.slots.erase n).values.countP _ + _
    rw [hperm.countP_eq, List.countP_cons]
    omega

end Takes
end World

/-- Which call the completion of a wait of a handler for a direction of a descriptor leads to. The
wait was armed for an engine. -/
structure Told (h : Handler) (fd : Fd) (i : Nat) (d : Direction) (e : Nat) (o : Outcome)
    (hub : Hub Manual) (call? : Option Call) : Prop where
  /-- An engine that is alive is told of a direction that is ready and wanted. -/
  ready : Benign o → call? =
    if (h.interest fd hub).any (·.wants d) && hub.engineAlive e then
      some ⟨.watcher i d, h.strand, e, .process fd (Events.ofDirection d)⟩
    else none
  canceled : o = .error .canceled → call? = none
  /-- It is told of every other error, whether or not the direction is wanted. -/
  failed : ∀ err, o = .error err → ¬Benign o → err ≠ .canceled → call? =
    if hub.engineAlive e then some ⟨.watcher i d, h.strand, e, .waitError (some fd) err⟩ else none

/-- What is done when a wait of a handler for a direction of a descriptor completes, and that nothing
else is. The wait has been taken out of the world. -/
structure SoleEffect (h : Handler) (fd : Fd) (i : Nat) (d : Direction) (e : Nat) (o : Outcome)
    (w : World) (call? : Option Call) (w' : World) (records : List Record) : Prop
    extends Told h fd i d e o w.hub call? where
  said : records.map Record.said? =
    (call?.toList.flatMap fun call => hear w.actors call.engine call.notice).map some
  waits : w'.unconsumed i d = if call?.any (·.processes i d) then 1 else 0
  rearmed : call?.any (·.processes i d) = true → ∃ x, w.hub.watchers[i]? = some x ∧
    w'.hub = { w.hub with reactor := w.hub.reactor.arm x.registration d (.ready i d e) }
  idle : call?.any (·.processes i d) = false →
    w'.hub = w.hub.modifySide i d ({ · with pending := false })
  /-- Besides the hub, only an engine goes on in its script. -/
  rest : ∃ actors : List Actor,
    actors.map (fun a => (a.name, a.plain)) = w.actors.map (fun a => (a.name, a.plain)) ∧
      w' = { w with hub := w'.hub, actors := actors }
  interest : ∀ (h' : Handler) (fd' : Fd), h'.interest fd' w'.hub = h'.interest fd' w.hub
  others : ∀ j d', (j, d') ≠ (i, d) →
    w'.hub.side? j d' = w.hub.side? j d' ∧ w'.unconsumed j d' = w.unconsumed j d'
  registry : w'.hub.reactor.live = w.hub.reactor.live ∧
    w'.hub.reactor.released = w.hub.reactor.released
  heartbeats : w'.hub.heartbeats = w.hub.heartbeats ∧
    w'.hub.reactor.timed = w.hub.reactor.timed

section Effect
variable {w w₀ : World} {wait : Wait} {h : Handler} {fd : Fd} {i e : Nat} {d : Direction}
  {x : Watcher} {o : Outcome}

private theorem World.unconsumed_arm (w : World) (actors : List Actor) (r : Registration) (i : Nat)
    (d : Direction) (e j : Nat) (d' : Direction) :
    World.unconsumed { w with
      hub := { w.hub with reactor := w.hub.reactor.arm r d (.ready i d e) }
      actors := actors } j d' = w.unconsumed j d' + if i = j ∧ d = d' then 1 else 0 := by
  unfold World.unconsumed Manual.arm
  dsimp only
  rw [List.countP_append, List.countP_singleton]
  simp only [claims_ready]
  omega

private theorem wants_interest (hget : h.watchers.get? fd = some i)
    (hx : w.hub.watchers[i]? = some x)
    (d : Direction) : (h.interest fd w.hub).any (·.wants d) = (x.sides.get d).wanted := by
  unfold Handler.interest
  rw [hget, Option.bind_some, hx, Option.map_some, Option.any_some, Watcher.interest,
    Events.wants_ofSides]
  cases d <;> rfl

private theorem SoleEffect.of_idle {actors : List Actor} {call? : Option Call}
    {records : List Record}
    (hcast : actors.map (fun a => (a.name, a.plain)) = w.actors.map fun a => (a.name, a.plain))
    (hzero : w.unconsumed i d = 0) (htold : Told h fd i d e o w.hub call?)
    (hcall : call?.any (·.processes i d) = false)
    (hsaid : records.map Record.said? =
      (call?.toList.flatMap fun call => hear w.actors call.engine call.notice).map some) :
    SoleEffect h fd i d e o w call?
      { w with hub := w.hub.modifySide i d ({ · with pending := false }), actors := actors }
      records where
  toTold := htold
  said := hsaid
  waits := by
    rw [hcall]
    exact hzero
  rearmed := fun hc => by
    rw [hcall] at hc
    cases hc
  idle := fun _ => rfl
  rest := ⟨actors, hcast, rfl⟩
  interest := w.hub.interest_idle i d
  others := fun j d' hne => by
    refine ⟨(Hub.side?_modifySide w.hub i d _ j d').trans (if_neg ?_), rfl⟩
    rintro ⟨rfl, rfl⟩
    exact hne rfl
  registry := ⟨rfl, rfl⟩
  heartbeats := ⟨rfl, rfl⟩

private theorem SoleEffect.of_ready {actors : List Actor} {call? : Option Call}
    {records : List Record}
    (hcast : actors.map (fun a => (a.name, a.plain)) = w.actors.map fun a => (a.name, a.plain))
    (hx : w.hub.watchers[i]? = some x) (hzero : w.unconsumed i d = 0)
    (htold : Told h fd i d e o w.hub call?) (hcall : call?.any (·.processes i d) = true)
    (hsaid : records.map Record.said? =
      (call?.toList.flatMap fun call => hear w.actors call.engine call.notice).map some) :
    SoleEffect h fd i d e o w call?
      { w with
        hub := { w.hub with reactor := w.hub.reactor.arm x.registration d (.ready i d e) }
        actors := actors } records where
  toTold := htold
  said := hsaid
  waits := by
    rw [hcall, w.unconsumed_arm, hzero]
    simp
  rearmed := fun _ => ⟨x, hx, rfl⟩
  idle := fun hc => by
    rw [hcall] at hc
    cases hc
  rest := ⟨actors, hcast, rfl⟩
  interest := fun _ _ => rfl
  others := fun j d' hne => by
    refine ⟨rfl, (w.unconsumed_arm actors x.registration i d e j d').trans ?_⟩
    rw [if_neg, Nat.add_zero]
    rintro ⟨rfl, rfl⟩
    exact hne rfl
  registry := ⟨rfl, rfl⟩
  heartbeats := ⟨rfl, rfl⟩

private theorem told_through (hget : h.watchers.get? fd = some i) (hx : w.hub.watchers[i]? = some x)
    (hfd : x.fd = fd) (hstrand : x.strand = h.strand) (hkept : x.presence.kept = true)
    (hs : w.hub.strandAlive x.strand = true) (hp : (x.sides.get d).pending = true) :
    Told h fd i d e o w.hub (w.hub.through (.ready i d e) o).2 := by
  rw [Hub.through_kept hx hkept hs hp, hfd, hstrand]
  constructor
  · intro hb
    rw [Verdict.of_eq_proceed_iff.mpr hb, wants_interest hget hx]
    dsimp only
    split <;> rfl
  · intro hc
    rw [hc, Verdict.of_canceled]
  · intro err herr hb hc
    rw [herr] at hb ⊢
    rw [Verdict.of_eq_failed hb hc]

/-- A wait of a watcher that a handler holds completes after it was taken. -/
theorem soleEffect (hget : h.watchers.get? fd = some i) (hx : w.hub.watchers[i]? = some x)
    (hfd : x.fd = fd) (hstrand : x.strand = h.strand) (hkept : x.presence.kept = true)
    (hs : w.hub.strandAlive x.strand = true) (hp : (x.sides.get d).pending = true)
    (hzero : w.unconsumed i d = 0) (hc : wait.callback = .ready i d e) (o : Outcome) :
    SoleEffect h fd i d e o w (w.begin wait o).2 (w.settle wait o).1 (w.settle wait o).2 := by
  obtain ⟨actors, hcast, hworld⟩ := World.settle_world wait o w
  have hsaid := World.settle_said hc o w
  have htold := told_through (e := e) (o := o) hget hx hfd hstrand hkept hs hp
  have hthrough := Hub.through_kept (e := e) (o := o) hx hkept hs hp
  rw [hworld]
  rw [World.begin_snd, hc] at hsaid ⊢
  rw [hthrough] at hsaid htold ⊢
  cases hv : Verdict.of o with
  | canceled =>
    simp only [hv] at hsaid htold ⊢
    exact .of_idle hcast hzero htold rfl hsaid
  | failed err =>
    simp only [hv] at hsaid htold ⊢
    refine .of_idle hcast hzero htold ?_ hsaid
    cases w.hub.engineAlive e <;> rfl
  | proceed =>
    simp only [hv] at hsaid htold ⊢
    cases hready : (x.sides.get d).wanted && w.hub.engineAlive e with
    | false =>
      simp only [hready, Bool.false_eq_true, if_false] at hsaid htold ⊢
      exact .of_idle hcast hzero htold rfl hsaid
    | true =>
      simp only [hready, if_true] at hsaid htold ⊢
      refine .of_ready hcast hx hzero htold ?_ hsaid
      simp [Call.processes]

end Effect

/-- What an engine has to do in a call, if its script has it do nothing. -/
theorem World.ops_cue {w : World} {call : Call}
    (hidle : ∀ actor ∈ w.actors[call.engine]?, actor.script.Idle) :
    (w.cue call).2.ops.getD [] = [] := by
  unfold cue
  cases ha : w.actors[call.engine]? with
  | none => rfl
  | some actor =>
    dsimp only
    split
    · rfl
    · split
      · rfl
      · rename_i ops script htake
        exact ((hidle actor ha).take htake).1

/-- Only the engine for which a wait was armed can be called when it completes. -/
theorem World.mute_of_engine {w : World} {wait : Wait} {i e : Nat} {d : Direction}
    (hc : wait.callback = .ready i d e) (hidle : ∀ actor ∈ w.actors[e]?, actor.script.Idle)
    (o : Outcome) : w.Mute wait o := by
  intro call hcall
  refine World.ops_cue ?_
  have hbegin : (w.hub.begin wait.callback o).2 = some call := hcall
  rw [World.actors_begin]
  rcases Hub.call_of_begin hbegin with ⟨j, d', x, -, hcb, -⟩ | ⟨t, x, -, hcb, -⟩
  · rw [hc] at hcb
    cases hcb
    exact hidle
  · rw [hc] at hcb
    cases hcb

private theorem World.takes_of_takeReady {w : World} {fd : Fd} {d : Direction} {wait : Wait}
    {m : Manual} (h : w.hub.reactor.takeReady fd d = some (wait, m)) :
    w.Takes wait (w.modifyReactor fun _ => m) := by
  unfold Manual.takeReady at h
  obtain ⟨r, hr, heq⟩ := Option.map_eq_some_iff.mp h
  cases heq
  obtain ⟨r', l, l', hnot, hr', hl, herase⟩ :=
    List.exists_of_eraseP (List.mem_of_find?_eq_some hr) (List.find?_some hr)
  have heq : r' = r := by
    have hfirst : (r' :: l').find? (fun x => x.registration.fd == fd && x.direction == d) =
        some r' := List.find?_cons_of_pos hr'
    rw [hl, List.find?_append, List.find?_eq_none.mpr hnot, Option.none_or, hfirst] at hr
    exact Option.some.inj hr
  rw [herase]
  exact .ready (heq ▸ hl) rfl

namespace Config
open Ledger
variable {w : World} {todo : List Op} {entries : List Entry} {log : List Event} {h : Handler}
  {fd : Fd} {i e : Nat} {d : Direction} {wait : Wait}

/-- No wait of a watcher that a handler holds was cancelled. -/
theorem not_mem_parked (hr : Reached ⟨w, ⟨.outside, todo, entries⟩, []⟩ log) (hh : h ∈ w.live)
    (hget : h.watchers.get? fd = some i) (hc : wait.callback = .ready i d e) :
    wait ∉ w.hub.reactor.parked := by
  intro hmem
  have hlt := lt_of_get? hr hh hget
  have hx : w.hub.watchers[i]? = some w.hub.watchers[i] := List.getElem?_eq_getElem hlt
  have halive := ((alive_iff hr hh hx).mpr (Or.inl hget)).1
  have hnot := ((single_outstanding_wait hr).1 i _ hx halive d).2.2 wait hmem
  rw [hc, (claims_ready e i d i d).mpr ⟨rfl, rfl⟩] at hnot
  cases hnot

/-- A wait of a watcher that a handler holds can be taken to be run. -/
theorem exists_takes (hr : Reached ⟨w, ⟨.outside, todo, entries⟩, []⟩ log) (hh : h ∈ w.live)
    (hget : h.watchers.get? fd = some i) (hc : wait.callback = .ready i d e)
    (hmem : wait ∈ w.waits) : ∃ w₀, w.Takes wait w₀ := by
  have hclaims : wait.callback.claims i d = true := by
    rw [hc]
    exact (claims_ready e i d i d).mpr ⟨rfl, rfl⟩
  rcases List.mem_append.mp hmem with hmem | hmem
  · rcases Manual.mem_waits.mp hmem with ⟨r, hin, rfl⟩ | ⟨t, hin, rfl⟩ | hin
    · obtain ⟨l, l', hl⟩ := List.append_of_mem hin
      exact ⟨_, .ready hl rfl⟩
    · have hidle := hr.waits.timed t hin i d
      rw [hclaims] at hidle
      cases hidle
    · exact absurd hin (not_mem_parked hr hh hget hc)
  · obtain ⟨n, hn⟩ := Table.mem_values.mp hmem
    exact ⟨_, .slot hn⟩

/-- The watcher of a handler at rest, once a wait of it was taken: the side that the wait claims is
pending, and there is no other wait for it. -/
theorem watcher_of_takes (hr : Reached ⟨w, ⟨.outside, todo, entries⟩, []⟩ log) (hh : h ∈ w.live)
    (hget : h.watchers.get? fd = some i) (hc : wait.callback = .ready i d e) {w₀ : World}
    (ht : w.Takes wait w₀) : ∃ x, w₀.hub.watchers[i]? = some x ∧ x.fd = fd ∧
      x.strand = h.strand ∧ x.presence.kept = true ∧ w₀.hub.strandAlive x.strand = true ∧
      (x.sides.get d).pending = true ∧ w₀.unconsumed i d = 0 := by
  have hlt := lt_of_get? hr hh hget
  have hx : w.hub.watchers[i]? = some w.hub.watchers[i] := List.getElem?_eq_getElem hlt
  obtain ⟨ha, hs, hfd⟩ := (alive_iff hr hh hx).mpr (Or.inl hget)
  have hclaims := claims_le_one hr i d hx ha
  have htaken := ht.unconsumed i d
  rw [hc, (claims_ready e i d i d).mpr ⟨rfl, rfl⟩, if_pos rfl] at htaken
  have hpending : (w.hub.watchers[i].sides.get d).pending = true := by
    by_contra hp
    rw [if_neg hp] at hclaims
    dsimp only at hclaims
    omega
  rw [if_pos hpending] at hclaims
  have hkept : w.hub.watchers[i].presence.kept = true := by
    have hplace := mem_watchers_of_get? (c := ⟨w, ⟨.outside, todo, entries⟩, []⟩) log hh hget
    have hheld := (hr.owned.watchers.holds.mem_iff i).mp (Multiset.mem_map_of_mem (·.2) hplace)
    change w.hub.roster.watchers[i]?.any Presence.kept = true at hheld
    rwa [(Hub.roster_of_getElem? hx).2] at hheld
  have halive : w.hub.strandAlive h.strand = true :=
    hr.owned.strandAlive_of_mem (strand_mem_handlers hh)
  obtain ⟨m, slots, rfl⟩ := ht.world
  refine ⟨w.hub.watchers[i], hx, hfd, hs, hkept, hs ▸ halive, hpending, ?_⟩
  dsimp only at hclaims htaken ⊢
  omega

/-- An operation that completes a wait of a handler takes it, and does nothing besides. -/
theorem steps_of_completed {op : Op} (hr : Reached ⟨w, ⟨.outside, op :: todo, entries⟩, []⟩ log)
    (hh : h ∈ w.live) (hget : h.watchers.get? fd = some i) (hc : wait.callback = .ready i d e)
    (hidle : ∀ actor ∈ w.actors[e]?, actor.script.Idle) {o : Outcome} {served : Bool}
    (hop : .completed wait o served ∈ w.events op) :
    ∃ w₀ reply, w.Takes wait w₀ ∧ Steps ⟨w, ⟨.outside, op :: todo, entries⟩, []⟩
      ⟨(w₀.settle wait o).1, ⟨.outside, todo, .mk reply (w₀.settle wait o).2 :: entries⟩, []⟩ := by
  have hmute (w₀ : World) (ht : w.Takes wait w₀) : w₀.Mute wait o := by
    obtain ⟨m, slots, rfl⟩ := ht.world
    refine World.mute_of_engine hc ?_ o
    exact hidle
  rcases World.op_of_completed hop with ⟨fd', d', rfl⟩ | ⟨slot, rfl⟩ | rfl
  · simp only [World.events] at hop
    cases htake : w.hub.reactor.takeReady fd' d' with
    | none =>
      rw [htake] at hop
      exact absurd hop List.not_mem_nil
    | some taken =>
      obtain ⟨wait', m⟩ := taken
      rw [htake] at hop
      injection List.mem_singleton.mp hop with hwait
      subst hwait
      have ht := World.takes_of_takeReady htake
      refine ⟨_, .flag true, ht, steps_completeWait (hmute _ ht) ?_⟩
      simp only [World.perform, World.complete, htake]
  · obtain ⟨wait', hslot, heq⟩ := List.mem_map.mp hop
    injection heq with hwait
    subst hwait
    have hslot' := Option.mem_toList.mp hslot
    have ht : w.Takes wait' _ := .slot hslot'
    refine ⟨_, .done, ht, steps_completeWait (hmute _ ht) ?_⟩
    simp only [World.perform, World.invoke, Option.mem_def.mp hslot']
  · obtain ⟨wait', hparked, heq⟩ := List.mem_map.mp hop
    injection heq with hwait
    subst hwait
    exact absurd hparked (not_mem_parked hr hh hget hc)

/-- What the completion leads to when the engine is not told that the direction is ready. -/
theorem asleep_of_idle {ops : List Op} {entries' : List Entry} {log' : List Event} {w₀ w' : World}
    {call? : Option Call} {records : List Record} {o : Outcome}
    (hr : Reached ⟨w', ⟨.outside, ops, entries'⟩, []⟩ log') (hh : h ∈ w.live)
    (hget : h.watchers.get? fd = some i) (ht : w.Takes wait w₀)
    (heffect : SoleEffect h fd i d e o w₀ call? w' records)
    (hcall : call?.any (·.processes i d) = false) :
    Asleep h.strand fd i d ⟨w', ⟨.outside, ops, entries'⟩, []⟩ := by
  obtain ⟨m, slots, rfl⟩ := ht.world
  obtain ⟨actors, -, hworld⟩ := heffect.rest
  have hh' : h ∈ w'.live := by
    rw [hworld]
    exact hh
  refine asleep_of_dormant hr (stationed_of_get? hr hh' hget) ⟨?_, fun _ hmem => ?_⟩
  · change w'.hub.isPending i d = false
    rw [heffect.idle hcall, Hub.isPending, Hub.side?_modifySide, if_pos ⟨rfl, rfl⟩, Option.any_map]
    cases Hub.side? _ i d <;> rfl
  · exact absurd hmem List.not_mem_nil

/-- One completion, one effect. When no engine is being called, a wait of a handler for a direction
of a descriptor, outstanding or kept, can be run. If it is run, and the engine that it was armed for
does nothing in its callbacks, the engine is told once or not at all, as the outcome says, and the
wait is armed again just when it was told that the direction is ready. Nothing else is done. If the
wait is not armed again, the direction has no wait until it is asked for, and then has one. -/
theorem one_completion_one_effect (hr : Reached ⟨w, ⟨.outside, todo, entries⟩, []⟩ log)
    (hh : h ∈ w.live) (hget : h.watchers.get? fd = some i) (hc : wait.callback = .ready i d e)
    (hmem : wait ∈ w.waits) (hidle : ∀ actor ∈ w.actors[e]?, actor.script.Idle) (o : Outcome) :
    (∃ w₀, w.Takes wait w₀) ∧
    (∀ w₀, w.Takes wait w₀ → SoleEffect h fd i d e o w₀ (w₀.begin wait o).2
      (w₀.settle wait o).1 (w₀.settle wait o).2) ∧
    ∀ op ops served, todo = op :: ops → .completed wait o served ∈ w.events op →
      ∃ w₀ reply, w.Takes wait w₀ ∧
        let c' : Config := ⟨(w₀.settle wait o).1,
          ⟨.outside, ops, .mk reply (w₀.settle wait o).2 :: entries⟩, []⟩
        Steps ⟨w, ⟨.outside, todo, entries⟩, []⟩ c' ∧
          ((w₀.begin wait o).2.any (·.processes i d) = false → c'.Asleep h.strand fd i d) := by
  have heffect (w₀ : World) (ht : w.Takes wait w₀) : SoleEffect h fd i d e o w₀
      (w₀.begin wait o).2 (w₀.settle wait o).1 (w₀.settle wait o).2 := by
    obtain ⟨x, hx, hfd, hstrand, hkept, hs, hp, hzero⟩ := watcher_of_takes hr hh hget hc ht
    exact soleEffect hget hx hfd hstrand hkept hs hp hzero hc o
  refine ⟨exists_takes hr hh hget hc hmem, heffect, ?_⟩
  rintro op ops served rfl hop
  obtain ⟨w₀, reply, ht, hsteps⟩ := steps_of_completed hr hh hget hc hidle hop
  obtain ⟨log', hr'⟩ := hsteps.reached hr
  exact ⟨w₀, reply, ht, hsteps, fun hcall => asleep_of_idle hr' hh hget ht (heffect w₀ ht) hcall⟩

/-- An engine asks for both directions of a descriptor. -/
def listening : List Op :=
  [.newHandler 0, .newEngine 0 {} false, .monitor 0 0 5 ⟨3⟩, .complete 5 .read (.ok ())]

theorem one_completion_one_effect_listening : ∃ w₀,
    (sample listening 3).1.world.Takes ⟨0, .ready 0 .read 0⟩ w₀ ∧
      (w₀.begin ⟨0, .ready 0 .read 0⟩ (.ok ())).2 =
        some ⟨.watcher 0 .read, 0, 0, .process 5 .readable⟩ ∧
      (w₀.settle ⟨0, .ready 0 .read 0⟩ (.ok ())).1.unconsumed 0 .read = 1 := by
  let c := (sample listening 3).1
  have hr : Reached ⟨c.world, ⟨.outside, c.frame.todo, c.frame.entries⟩, []⟩
      (sample listening 3).2 := reached_sample listening 3
  let h : Handler := ⟨0, some 0, (∅ : Table Nat).insert 5 0⟩
  have hget : h.watchers.get? 5 = some 0 := rfl
  have hc : (⟨0, .ready 0 .read 0⟩ : Wait).callback = .ready 0 .read 0 := rfl
  have hidle : ∀ actor ∈ c.world.actors[0]?, actor.script.Idle := by
    intro actor hactor
    cases hactor
    exact ⟨fun _ h => absurd h List.not_mem_nil, fun _ h => absurd h List.not_mem_nil,
      fun _ h => absurd h List.not_mem_nil⟩
  obtain ⟨-, heffect, hop⟩ := one_completion_one_effect hr (List.mem_singleton.mpr rfl) hget hc
    (by decide) hidle (.ok ())
  obtain ⟨w₀, reply, ht, -⟩ := hop _ _ true rfl (by decide)
  have hsole := heffect w₀ ht
  obtain ⟨m, slots, rfl⟩ := ht.world
  have hready := hsole.ready .ok
  refine ⟨_, ht, hready, ?_⟩
  rw [hsole.waits, hready]
  rfl

end Config
end Scenario
end Wakeup
