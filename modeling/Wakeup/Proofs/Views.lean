import Wakeup.Proofs.Cancellations
import Wakeup.Proofs.Scenes
import Wakeup.Proofs.Outstanding

/-! Worlds with one handler, whose engines do nothing in their callbacks, and what happens in them to
a wait that completes. -/
namespace Wakeup.Scenario

/-- A script by which nothing is done. -/
structure Script.Idle (s : Script Op) : Prop where
  process : ∀ ops ∈ s.process, ops = []
  beat : ∀ ops ∈ s.beat, ops = []
  error : ∀ ops ∈ s.error, ops = []

namespace Script.Idle
variable {s t : Script Op}

theorem append (hs : s.Idle) (ht : t.Idle) : (s.append t).Idle where
  process := fun ops h => (List.mem_append.mp h).elim (hs.process ops) (ht.process ops)
  beat := fun ops h => (List.mem_append.mp h).elim (hs.beat ops) (ht.beat ops)
  error := fun ops h => (List.mem_append.mp h).elim (hs.error ops) (ht.error ops)

theorem take {notice : Notice} {ops : List Op} (hs : s.Idle) (h : s.take notice = some (ops, t)) :
    ops = [] ∧ t.Idle := by
  obtain ⟨process, beat, error⟩ := s
  obtain ⟨hprocess, hbeat, herror⟩ := hs
  unfold Script.take at h
  cases notice with
  | process =>
    cases process <;> cases h
    exact ⟨hprocess _ List.mem_cons_self, fun ops h => hprocess ops (List.mem_cons_of_mem _ h),
      hbeat, herror⟩
  | heartbeat =>
    cases beat <;> cases h
    exact ⟨hbeat _ List.mem_cons_self, hprocess, fun ops h => hbeat ops (List.mem_cons_of_mem _ h),
      herror⟩
  | waitError =>
    cases error <;> cases h
    exact ⟨herror _ List.mem_cons_self, hprocess, hbeat,
      fun ops h => herror ops (List.mem_cons_of_mem _ h)⟩

end Script.Idle

/-- One handler, and nothing on its own beside it. Each slot holds waits of one descriptor only. -/
structure Lone (σ : Int → Option Fd) (w : World) : Prop where
  handler : ∃ h, w.handlers = (∅ : Table Handler).insert 0 h
  watchers : w.watchers = ∅
  registrations : w.registrations = ∅
  replaced : w.replaced = []
  idle : ∀ actor ∈ w.actors, actor.script.Idle
  slots : ∀ {slot wait}, w.slots.get? slot = some wait → ∃ i d e fd,
    wait.callback = .ready i d e ∧ σ slot = some fd ∧ w.hub.fdOf? i = some fd

/-- A world in which nothing is left to do. -/
structure Rests (σ : Int → Option Fd) (w : World) : Prop extends Lone σ w where
  reached : ∃ entries log, Config.Reached ⟨w, ⟨.outside, [], entries⟩, []⟩ log

/-- The watcher of a descriptor. -/
def World.index (fd : Fd) (w : World) : Option Nat :=
  (w.handlers.get? 0).bind (·.watchers.get? fd)

namespace Rests
variable {σ : Int → Option Fd} {w : World} {fd : Fd} {i : Nat} {x : Watcher}

theorem index_eq {h : Handler} (hh : w.handlers = (∅ : Table Handler).insert 0 h) (fd : Fd) :
    w.index fd = h.watchers.get? fd := by
  unfold World.index
  rw [hh, Table.get?_insert_self, Option.bind_some]

theorem live_eq (hw : Rests σ w) {h : Handler} (hh : w.handlers = (∅ : Table Handler).insert 0 h) :
    w.live = [h] := by
  unfold World.live
  rw [hh, hw.replaced]
  rfl

theorem getElem?_of_index (hw : Rests σ w) (hk : w.index fd = some i) :
    ∃ x, w.hub.watchers[i]? = some x ∧ x.fd = fd ∧ x.presence.kept = true ∧
      x.presence.uses = 0 ∧ w.hub.strandAlive x.strand = true := by
  obtain ⟨entries, log, hr⟩ := hw.reached
  obtain ⟨h, hh⟩ := hw.handler
  have hmem : h ∈ w.live := by simp [hw.live_eq hh]
  rw [index_eq hh] at hk
  have hlt := Config.lt_of_get? hr hmem hk
  have hx : w.hub.watchers[i]? = some w.hub.watchers[i] := List.getElem?_eq_getElem hlt
  obtain ⟨-, hs, hfd⟩ := (Config.alive_iff_of_rest hr hmem hx rfl).mpr hk
  have hheld := hr.owned.watchers.holds.mem_iff i
  have huses := hr.inUse.watchers i
  obtain ⟨-, hpresence⟩ := Hub.roster_of_getElem? hx
  change _ ↔ w.hub.roster.watchers[i]?.any Presence.kept = true at hheld
  change usesOf w.hub.roster.watchers i = 0 at huses
  rw [hpresence] at hheld
  rw [usesOf, hpresence] at huses
  have hplace : (some (h.strand, fd), i) ∈
      (Config.ledger ⟨w, ⟨.outside, [], entries⟩, []⟩ log).watchers :=
    Config.mem_watchers_of_get? log hmem hk
  refine ⟨_, hx, hfd, hheld.mp ?_, huses, ?_⟩
  · exact Multiset.mem_map_of_mem (·.2) hplace
  · rw [hs]
    exact hr.owned.strandAlive_of_mem (Config.strand_mem_handlers hmem)

theorem index_lt (hw : Rests σ w) (hk : w.index fd = some i) : i < w.hub.watchers.length := by
  obtain ⟨x, hx, -⟩ := hw.getElem?_of_index hk
  exact (List.getElem?_eq_some_iff.mp hx).1

theorem index_of_alive (hw : Rests σ w) (hx : w.hub.watchers[i]? = some x)
    (ha : x.presence.alive = true) : w.index x.fd = some i := by
  obtain ⟨entries, log, hr⟩ := hw.reached
  obtain ⟨h, hh⟩ := hw.handler
  have hmem : h ∈ w.live := by simp [hw.live_eq hh]
  have hlast := Ledger.alive_watcher_iff hr.owned hr.inUse i
  change w.hub.roster.watchers[i]?.any Presence.alive = true ↔ _ at hlast
  rw [(Hub.roster_of_getElem? hx).2, Option.any_some] at hlast
  rcases hlast.mp ha with hheld | ⟨call, hcall, -⟩
  · obtain ⟨⟨place, j⟩, hplace, hj⟩ := Multiset.mem_map.mp hheld
    have hj' : j = i := hj
    subst hj'
    cases place with
    | none =>
      -- no watcher is on its own
      rcases Multiset.mem_add.mp hplace with hplace | hplace
      · obtain ⟨h', -, hplace⟩ := Multiset.mem_bind.mp hplace
        obtain ⟨_, -, heq⟩ := Multiset.mem_map.mp hplace
        cases heq
      · rw [hw.watchers] at hplace
        exact absurd hplace (Multiset.notMem_zero _)
    | some p =>
      obtain ⟨hfd, -⟩ := hr.owned.watchers.placed hplace _ (Hub.roster_of_getElem? hx).1
      obtain ⟨h', hh', -, hget⟩ := Config.exists_of_mem_watchers hplace
      have heq : h' = h := by simpa [hw.live_eq hh] using hh'
      rw [index_eq hh, ← heq, show x.fd = p.2 from hfd]
      exact hget
  · cases hcall

theorem index_iff (hw : Rests σ w) (hx : w.hub.watchers[i]? = some x)
    (ha : x.presence.alive = true) : w.index fd = some i ↔ x.fd = fd := by
  constructor
  · intro hk
    obtain ⟨y, hy, hfd, -⟩ := hw.getElem?_of_index hk
    rw [hx] at hy
    cases hy
    exact hfd
  · rintro rfl
    exact hw.index_of_alive hx ha

/-- Each wait for readiness is one of the watcher of its descriptor. -/
theorem ready (hw : Rests σ w) {y : ReadyWait} (hy : y ∈ w.hub.reactor.ready) : ∃ i e x,
    y.wait.callback = .ready i y.direction e ∧ w.hub.watchers[i]? = some x ∧
      x.registration = y.registration ∧ w.index y.registration.fd = some i := by
  obtain ⟨entries, log, hr⟩ := hw.reached
  have hfits : Fits w.hub.posts ↑w.registrations.values y := hr.waits.ready y hy
  unfold Fits at hfits
  cases hc : y.wait.callback with
  | bare tag =>
    rw [hc, hw.registrations] at hfits
    exact absurd hfits (Multiset.notMem_zero _)
  | beat t generation e =>
    rw [hc] at hfits
    exact hfits.elim
  | ready i d e =>
    rw [hc] at hfits
    obtain ⟨rfl, p, hp, ha, hregistration⟩ := hfits
    rw [Hub.posts, List.getElem?_map] at hp
    obtain ⟨x, hx, rfl⟩ := Option.map_eq_some_iff.mp hp
    refine ⟨i, e, x, rfl, hx, hregistration, ?_⟩
    rw [← hregistration]
    exact hw.index_of_alive hx ha

/-- The waits of a watcher are those of its descriptor. -/
theorem own_iff (hw : Rests σ w) (hk : w.index x.fd = some i) (hx : w.hub.watchers[i]? = some x)
    {y : ReadyWait} (hy : y ∈ w.hub.reactor.ready) :
    y.registration.id = x.registration.id ↔ y.registration.fd = x.fd := by
  obtain ⟨entries, log, hr⟩ := hw.reached
  obtain ⟨j, e, z, -, hz, hregistration, hj⟩ := hw.ready hy
  constructor
  · intro hid
    have hids := Ledger.Waits.ids_nodup hr.owned
    change (w.hub.roster.watched.map (·.1.id)).Nodup at hids
    rw [← Hub.ids_posts, Hub.posts, List.map_map] at hids
    have heq : j = i := by
      refine (List.getElem?_inj ?_ hids).mp ?_
      · rw [List.length_map]
        exact (List.getElem?_eq_some_iff.mp hz).1
      · rw [List.getElem?_map, List.getElem?_map, hz, hx]
        exact congrArg some ((congrArg Registration.id hregistration).trans hid)
    subst heq
    rw [hx] at hz
    cases hz
    rw [← hregistration]
    rfl
  · intro hfd
    rw [hfd, hk, Option.some.injEq] at hj
    subst hj
    rw [hx] at hz
    cases hz
    rw [hregistration]

end Rests

section Settle
variable {σ : Int → Option Fd} {w : World}

/-- Whom a call is told to. A plain engine does not hear of failed waits. -/
def hear (actors : List Actor) (e : Nat) (notice : Notice) : List (Int × Notice) :=
  match actors[e]? with
  | none => []
  | some actor => if actor.plain && notice.isWaitError then [] else [(actor.name, notice)]

/-- What an engine was told of a descriptor. -/
def Record.told? (fd : Fd) : Record → Option (Int × Notice)
  | .call name notice _ => if notice.fd? = some fd then some (name, notice) else none
  | .bare .. => none

private theorem filterMap_told (fd : Fd) (name : Int) (notice : Notice)
    (acted : Option (List Entry)) :
    [Record.call name notice acted].filterMap (Record.told? fd) =
      if notice.fd? = some fd then [(name, notice)] else [] := by
  unfold Record.told?
  by_cases h : notice.fd? = some fd <;> simp [h]

/-- Other scripts by which nothing is done either. -/
structure Recast (actors actors' : List Actor) : Prop where
  cast : actors'.map (fun a => (a.name, a.plain)) = actors.map fun a => (a.name, a.plain)
  idle : ∀ actor ∈ actors', actor.script.Idle

namespace World

/-- Completes a wait, and ends the call that it leads to. -/
def settle (wait : Wait) (o : Outcome) (w : World) : World × List Record :=
  match w.begin wait o with
  | (w, none) => (w, bareRecords wait.callback o)
  | (w, some call) =>
    ((w.cue call).1.finishCall call, (w.cue call).1.callRecords (w.cue call).2 [])

/-- An engine that does nothing in a call is told all the same. -/
theorem cue_idle (hidle : ∀ actor ∈ w.actors, actor.script.Idle) (call : Call) :
    ∃ actors, Recast w.actors actors ∧ (w.cue call).1 = { w with actors := actors } ∧
      (w.cue call).2.call = call ∧ (w.cue call).2.ops.getD [] = [] ∧
      ∀ fd, ((w.cue call).1.callRecords (w.cue call).2 []).filterMap (Record.told? fd) =
        if call.notice.fd? = some fd then hear w.actors call.engine call.notice else [] := by
  cases ha : w.actors[call.engine]? with
  | none =>
    have hcue : w.cue call = (w, ⟨call, false, none⟩) := by simp [cue, ha]
    rw [hcue]
    refine ⟨w.actors, ⟨rfl, hidle⟩, rfl, rfl, rfl, fun fd => ?_⟩
    simp [callRecords, hear, ha]
  | some actor =>
    have hactor := hidle actor (List.mem_of_getElem? ha)
    cases hplain : actor.plain && call.notice.isWaitError with
    | true =>
      have hcue : w.cue call = (w, ⟨call, false, none⟩) := by simp [cue, ha, hplain]
      rw [hcue]
      refine ⟨w.actors, ⟨rfl, hidle⟩, rfl, rfl, rfl, fun fd => ?_⟩
      simp [callRecords, hear, ha, hplain]
    | false =>
      cases htake : actor.script.take call.notice with
      | none =>
        have hcue : w.cue call = (w, ⟨call, true, none⟩) := by simp [cue, ha, hplain, htake]
        rw [hcue]
        refine ⟨w.actors, ⟨rfl, hidle⟩, rfl, rfl, rfl, fun fd => ?_⟩
        simp [callRecords, hear, ha, hplain, filterMap_told]
      | some taken =>
        obtain ⟨ops, script⟩ := taken
        obtain ⟨rfl, hscript⟩ := hactor.take htake
        have hcue : w.cue call =
            ({ w with actors := w.actors.modify call.engine ({ · with script := script }) },
              ⟨call, true, some []⟩) := by
          simp [cue, ha, hplain, htake]
        rw [hcue]
        refine ⟨_, ⟨?_, fun a hmem => ?_⟩, rfl, rfl, rfl, fun fd => ?_⟩
        · exact map_modify_of_eq _ _ _ _ fun _ => rfl
        · obtain ⟨j, hj⟩ := List.mem_iff_getElem?.mp hmem
          rw [List.getElem?_modify] at hj
          obtain ⟨b, hb, rfl⟩ := Option.map_eq_some_iff.mp hj
          split
          · exact hscript
          · exact hidle b (List.mem_of_getElem? hb)
        · simp [callRecords, hear, ha, hplain, filterMap_told]

/-- What is told of a descriptor in a completion. -/
theorem settle_idle (hidle : ∀ actor ∈ w.actors, actor.script.Idle) (wait : Wait) (o : Outcome) :
    ∃ actors, Recast w.actors actors ∧ (w.settle wait o).1 =
        { w with hub := (w.hub.through wait.callback o).1, actors := actors } ∧
      ∀ fd, (w.settle wait o).2.filterMap (Record.told? fd) =
        (w.hub.through wait.callback o).2.toList.flatMap fun call =>
          if call.notice.fd? = some fd then hear w.actors call.engine call.notice else [] := by
  unfold settle begin Hub.through
  cases hbegin : w.hub.begin wait.callback o with
  | mk hub call? =>
    cases call? with
    | none =>
      refine ⟨w.actors, ⟨rfl, hidle⟩, rfl, fun fd => ?_⟩
      dsimp only [bareRecords]
      cases wait.callback <;> rfl
    | some call =>
      obtain ⟨actors, hrecast, hworld, -, -, htold⟩ :=
        cue_idle (w := w.setHub hub) hidle call
      refine ⟨actors, hrecast, ?_, fun fd => ?_⟩
      · dsimp only
        rw [hworld]
        rfl
      · simp only [Option.toList_some, List.flatMap_cons, List.flatMap_nil, List.append_nil]
        exact htold fd

/-- No operations follow from the call that the completion of a wait leads to. -/
def Mute (wait : Wait) (o : Outcome) (w : World) : Prop :=
  ∀ call ∈ (w.begin wait o).2, ((w.begin wait o).1.cue call).2.ops.getD [] = []

theorem mute_of_idle (hidle : ∀ actor ∈ w.actors, actor.script.Idle) (wait : Wait) (o : Outcome) :
    w.Mute wait o := by
  intro call _
  obtain ⟨-, -, -, -, hops, -⟩ := cue_idle (w := (w.begin wait o).1)
    (by rwa [actors_begin]) call
  exact hops

/-- Where to a wait that completes leads, when no operations follow from it. -/
theorem cue_of_mute {wait : Wait} {o : Outcome} (hmute : w.Mute wait o) {v : World} {call : Call}
    (hbegin : w.begin wait o = (v, some call)) :
    (v.cue call).2.call = call ∧ (v.cue call).2.ops.getD [] = [] := by
  have hops := hmute call (by rw [hbegin]; rfl)
  rw [hbegin] at hops
  exact ⟨(cue_fields call v).1, hops⟩

end World

namespace Config

/-- Any number of steps. -/
abbrev Steps : Config → Config → Prop := Relation.ReflTransGen fun c c' => c.step = some c'

theorem Steps.run_eq {c c' : Config} (h : Steps c c') : c.run = c'.run := by
  induction h with
  | refl => rfl
  | tail _ hs ih => exact ih.trans (run_of_step_eq_some hs)

theorem Steps.run {c c' : Config} (h : Steps c c') : ∃ log, Run c c' log := by
  induction h with
  | refl => exact ⟨[], .refl⟩
  | tail _ hs ih =>
    obtain ⟨log, hrun⟩ := ih
    exact ⟨_, hrun.step hs⟩

theorem Steps.reached {c c' : Config} {log : List Event} (h : Steps c c') (hr : Reached c log) :
    ∃ log', Reached c' log' := by
  obtain ⟨log', hrun⟩ := h.run
  exact ⟨_, hr.run hrun⟩

/-- An operation that leads to the completion of a wait. -/
theorem steps_completeWait {w w' : World} {op : Op} {todo : List Op} {entries : List Entry}
    {wait : Wait} {o : Outcome} {reply : Reply} (hmute : w'.Mute wait o)
    (hp : w.perform op = w'.completeWait wait o reply) :
    Steps ⟨w, ⟨.outside, op :: todo, entries⟩, []⟩ ⟨(w'.settle wait o).1,
      ⟨.outside, todo, .mk reply (w'.settle wait o).2 :: entries⟩, []⟩ := by
  unfold World.completeWait at hp
  unfold World.settle
  cases hbegin : w'.begin wait o with
  | mk v call? =>
    rw [hbegin] at hp
    cases call? with
    | none =>
      refine .single ?_
      unfold step
      dsimp only at hp ⊢
      rw [hp]
      rfl
    | some call =>
      obtain ⟨hcall, hops⟩ := World.cue_of_mute hmute hbegin
      refine .head (b := ⟨(v.cue call).1, ⟨.completion (v.cue call).2 reply, [], []⟩,
        [⟨.outside, todo, entries⟩]⟩) ?_ (.single ?_)
      · unfold step
        dsimp only at hp ⊢
        rw [hp]
        dsimp only
        rw [hops]
      · unfold step
        dsimp only
        rw [hcall]
        rfl

end Config
end Settle
end Wakeup.Scenario
