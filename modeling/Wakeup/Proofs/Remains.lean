import Wakeup.Proofs.Lasting
import Wakeup.Proofs.Teardown

/-! What remains of a handler that was dropped: callbacks that do nothing when they are run. -/
namespace Wakeup

namespace Hub
variable {hub hub' : Hub Manual} {s : Nat}

/-- Whether a callback is for a watcher or a heartbeat of a strand. -/
def owns (hub : Hub Manual) (s : Nat) (c : Callback) : Bool :=
  c.part?.bind hub.strandOf? == some s

theorem owns_iff {c : Callback} :
    hub.owns s c = true ↔ ∃ p, c.part? = some p ∧ hub.strandOf? p = some s := by
  unfold owns
  rw [beq_iff_eq, Option.bind_eq_some_iff]

theorem owns_congr (h : hub'.roster = hub.roster) (s : Nat) (c : Callback) :
    hub'.owns s c = hub.owns s c := by
  have hstrand : hub'.strandOf? = hub.strandOf? :=
    funext (strandOf?_congr (congrArg Roster.watched h) (congrArg Roster.timed h))
  unfold owns
  rw [hstrand]

/-- No watcher and no heartbeat of a strand lasts. -/
def Gone (s : Nat) (hub : Hub Manual) : Prop :=
  ∀ p, hub.strandOf? p = some s → hub.lasts p = false

theorem Gone.congr (hg : Gone s hub) (h : hub'.roster = hub.roster) : Gone s hub' := by
  intro p hp
  rw [strandOf?_congr (congrArg Roster.watched h) (congrArg Roster.timed h)] at hp
  rw [lasts_congr h]
  exact hg p hp

/-- A callback for what does not last does nothing. -/
theorem begin_of_not_lasts {c : Callback} {p : Part} (hp : c.part? = some p)
    (hl : hub.lasts p = false) (o : Outcome) : hub.begin c o = (hub, none) := by
  cases c with
  | bare tag => cases hp
  | ready i d e =>
    cases hp
    simp only [begin, beginReady]
    cases hx : hub.watchers[i]? with
    | none => rfl
    | some x =>
      rw [lasts_of_getElem? hx] at hl
      simp [hl]
  | beat t generation e =>
    cases hp
    simp only [begin, beginBeat]
    cases hx : hub.heartbeats[t]? with
    | none => rfl
    | some x =>
      rw [lasts_heartbeat_of_getElem? hx] at hl
      simp [hl]

theorem Gone.begin_eq (hg : Gone s hub) {c : Callback} (hc : hub.owns s c = true) (o : Outcome) :
    hub.begin c o = (hub, none) := by
  obtain ⟨p, hp, hs⟩ := owns_iff.mp hc
  exact begin_of_not_lasts hp (hg p hs) o

end Hub

namespace Scenario

namespace World
variable {w : World} {s : Nat}

/-- How many registrations of a descriptor there are but for those of a handler. -/
def registrationsOfOthers (w : World) (h : Handler) (fd : Fd) : Nat :=
  w.hub.watchers.countP (fun x => x.presence.alive && x.strand != h.strand && x.fd == fd) +
    w.registrations.values.countP (·.fd == fd)

theorem begin_of_gone (hg : Hub.Gone s w.hub) {wait : Wait}
    (hc : w.hub.owns s wait.callback = true) (o : Outcome) : w.begin wait o = (w, none) := by
  unfold World.begin
  rw [hg.begin_eq hc o]
  rfl

private theorem roster_deliverOne (w : World) (wait : Wait) :
    (w.deliverOne wait).hub.roster = w.hub.roster := by
  have hroster := Hub.roster_begin w.hub wait.callback (.error .canceled)
  rw [Hub.begin_canceled] at hroster
  exact hroster

/-- To tell the callbacks of a strand of which nothing lasts makes no difference. -/
theorem foldl_deliverOne (hg : Hub.Gone s w.hub) (waits : List Wait) :
    waits.foldl (fun w wait => w.deliverOne wait) w =
      (waits.filter fun wait => !w.hub.owns s wait.callback).foldl
        (fun w wait => w.deliverOne wait) w := by
  induction waits generalizing w with
  | nil => rfl
  | cons wait waits ih =>
    rw [List.foldl_cons]
    have hroster := w.roster_deliverOne wait
    cases hc : w.hub.owns s wait.callback with
    | true =>
      have hsame : w.deliverOne wait = w := congrArg Prod.fst (begin_of_gone hg hc _)
      rw [hsame, ih hg, List.filter_cons_of_neg (by simp [hc])]
    | false =>
      rw [ih (hg.congr hroster), List.filter_cons_of_pos (by simp [hc]), List.foldl_cons]
      simp only [Hub.owns_congr hroster]

end World

namespace Ledger
variable {L L' : Ledger} {s : Nat}

/-- No part of a handler that was dropped lasts, unless it is being served. -/
theorem Private.gone (h : Private s true L) (ho : Owned L) (hu : InUse L)
    (hcalls : ∀ call ∈ L.calls, call.strand ≠ s) : Hub.Gone s L.hub := by
  intro p hs
  rw [← Bool.not_eq_true]
  intro hlast
  have hcall : ∀ call ∈ L.calls, call.owner.part ≠ p := by
    intro call hcall hpart
    have howner := hu.strandOf?_owner call hcall
    rw [Hub.strandOf?_owner, hpart, hs] at howner
    exact hcalls call hcall (Option.some.inj howner).symm
  cases p with
  | watcher i =>
    rcases (alive_watcher_iff ho hu i).mp hlast with hheld | ⟨call, hmem, ho⟩
    · obtain ⟨e, he, rfl⟩ := Multiset.mem_map.mp hheld
      exact h.strandOf?_ne (Armed.watcher_mem he) hs
    · exact hcall call hmem (Owner.isWatcher_iff.mp ho)
  | heartbeat t =>
    rcases (alive_heartbeat_iff ho hu t).mp hlast with hheld | ⟨call, hmem, ho⟩
    · obtain ⟨e, he, rfl⟩ := Multiset.mem_map.mp hheld
      exact h.strandOf?_ne (Armed.heartbeat_mem he) hs
    · exact hcall call hmem (Owner.isHeartbeat_iff.mp ho)

/-- If nothing of a strand was being served from some point on, nothing of it is. -/
theorem Served.strand_ne {calls : List Call} (h : Served s calls L) (hu : InUse L)
    (hcalls : ∀ call ∈ calls, call.strand ≠ s) : ∀ call ∈ L.calls, call.strand ≠ s := by
  intro call hcall hs
  obtain ⟨rest, hrest, hsuffix, hall⟩ := h
  obtain ⟨call', hmem, hpart⟩ := hall call hcall hs
  have howner := hu.strandOf?_owner call hcall
  have howner' := hu.strandOf?_owner call' (hsuffix.subset hmem)
  rw [Hub.strandOf?_owner] at howner howner'
  rw [hpart, howner] at howner'
  exact hcalls call' (hrest.subset hmem) (hs ▸ (Option.some.inj howner').symm)

end Ledger

namespace Config
open Ledger
variable {c c' c₁ c₂ : Config} {log log₁ log₂ : List Event}

/-- The registrations of a descriptor that a reactor has are those of a handler and all others. -/
theorem live_eq_add (hr : Reached c log) (h : Handler) (fd : Fd) :
    (c.world.hub.reactor.live.get? fd).getD 0 =
      c.world.registrationsOf h fd + c.world.registrationsOfOthers h fd := by
  have hlive := Waiting.live hr.waits fd
  change _ = (c.world.hub.watchers.map Post.ofWatcher).countP _ +
    (c.world.registrations.values : Multiset Registration).countP _ at hlive
  rw [List.countP_map, Multiset.coe_countP] at hlive
  refine hlive.trans ?_
  rw [World.registrationsOf, World.registrationsOfOthers, ← Nat.add_assoc]
  congr 1
  rw [List.countP_eq_countP_filter_add _ _ fun x : Watcher => x.strand == h.strand,
    List.countP_filter, List.countP_filter]
  congr 1
  · refine List.countP_congr fun x _ => ?_
    simp only [Function.comp_apply, Post.ofWatcher, Bool.and_eq_true, beq_iff_eq]
    exact ⟨fun h => ⟨⟨h.1.1, h.2⟩, h.1.2⟩, fun h => ⟨⟨h.1.1, h.2⟩, h.1.2⟩⟩
  · refine List.countP_congr fun x _ => ?_
    simp only [Function.comp_apply, Post.ofWatcher, Bool.and_eq_true, beq_iff_eq, bne]
    exact ⟨fun h => ⟨⟨h.1.1, h.2⟩, h.1.2⟩, fun h => ⟨⟨h.1.1, h.2⟩, h.1.2⟩⟩

/-- From the point on at which no call for a dropped handler is in progress any more, nothing of it
lasts and no call for it is in progress. -/
theorem gone_of_dropped (hr : Reached c log) {h : Handler} (hh : h ∈ c.world.live)
    (hs : c.step = some c') (hgone : ∀ h' ∈ c'.world.live, h'.strand ≠ h.strand)
    (hl : Later c' c₁) (hrest : ∀ call ∈ c₁.calls, call.strand ≠ h.strand) (hl₂ : Later c₁ c₂) :
    ∃ log₂, Reached c₂ log₂ ∧ Hub.Gone h.strand c₂.world.hub ∧
      ∀ call ∈ c₂.calls, call.strand ≠ h.strand := by
  obtain ⟨log₁, hr₁, hprivate, -⟩ := served_of_dropped hr hh hs hgone hl
  obtain ⟨log₂, hrun⟩ := hl₂
  obtain ⟨hu, hprivate₂, hserved⟩ := Run.keeps
    (P := fun L => L.InUse ∧ Private h.strand true L ∧ Served h.strand c₁.calls L) hr₁ hrun
    (fun hm ho h => ⟨.move hm ho h.1, .makes hm.makes ho h.2.1, .move hm ho h.1 h.2.1 h.2.2⟩)
    (fun hc ho h => ⟨h.1.finish hc, .makes (makes_finish _ _ _) ho h.2.1, h.2.2.finish hc⟩)
    ⟨hr₁.inUse, hprivate, c₁.calls, List.suffix_rfl, List.suffix_rfl,
      fun call hcall _ => ⟨call, hcall, rfl⟩⟩
  have hr₂ : Reached c₂ (log₂ ++ log₁) := by
    obtain ⟨ops, hstart⟩ := hr₁
    exact ⟨ops, hstart.trans hrun⟩
  have hcalls := hserved.strand_ne hu hrest
  exact ⟨_, hr₂, hprivate₂.gone hr₂.owned hu hcalls, hcalls⟩

/-- A wait in the lists of the reactor is for what lasts. -/
theorem lasts_of_ready (hr : Reached c log) {r : ReadyWait}
    (hmem : r ∈ c.world.hub.reactor.ready) {p : Part} (hp : r.wait.callback.part? = some p) :
    c.world.hub.lasts p = true := by
  have hf := Waiting.ready hr.waits r hmem
  unfold Fits at hf
  cases hcb : r.wait.callback with
  | bare tag =>
    rw [hcb] at hp
    cases hp
  | beat t generation e =>
    rw [hcb] at hf
    exact hf.elim
  | ready i d e =>
    rw [hcb] at hf hp
    cases hp
    obtain ⟨-, q, hq, ha, -⟩ := hf
    change (c.world.hub.watchers.map Post.ofWatcher)[i]? = some q at hq
    rw [List.getElem?_map] at hq
    obtain ⟨x, hx, rfl⟩ := Option.map_eq_some_iff.mp hq
    rw [Hub.lasts_of_getElem? hx]
    exact ha

private theorem lasts_of_timed (hr : Reached c log) {w : TimedWait}
    (hmem : w ∈ c.world.hub.reactor.timed) {p : Part} (hp : w.wait.callback.part? = some p) :
    c.world.hub.lasts p = true := by
  have htimely := hr.paced.punctual.timed w hmem
  unfold Timely at htimely
  cases hcb : w.wait.callback with
  | bare tag =>
    rw [hcb] at hp
    cases hp
  | ready i d e =>
    rw [hcb] at htimely
    exact htimely.elim
  | beat t generation e =>
    rw [hcb] at hp
    cases hp
    exact hr.lasting w hmem ⟨t, generation, e⟩ (by rw [hcb]; rfl)

private theorem owns_eq_false {s : Nat} (hg : Hub.Gone s c.world.hub) {wait : Wait}
    (hlast : ∀ p, wait.callback.part? = some p → c.world.hub.lasts p = true) :
    c.world.hub.owns s wait.callback = false := by
  rw [← Bool.not_eq_true]
  intro howns
  obtain ⟨p, hp, hstrand⟩ := Hub.owns_iff.mp howns
  have hdead := hg p hstrand
  rw [hlast p hp] at hdead
  cases hdead

theorem alive_of_gone {s : Nat} (hg : Hub.Gone s c.world.hub) {i : Nat} {x : Watcher}
    (hx : c.world.hub.watchers[i]? = some x) (hs : x.strand = s) : x.presence.alive = false := by
  have hdead := hg (.watcher i) (by simp [Hub.strandOf?, hx, hs])
  rwa [Hub.lasts_of_getElem? hx] at hdead

private theorem registrationsOf_of_gone {h : Handler} (hg : Hub.Gone h.strand c.world.hub)
    (fd : Fd) : c.world.registrationsOf h fd = 0 := by
  unfold World.registrationsOf
  rw [List.countP_eq_zero]
  intro x hx hp
  simp only [Bool.and_eq_true, beq_iff_eq] at hp
  obtain ⟨i, hi⟩ := List.getElem?_of_mem hx
  have hdead := alive_of_gone hg hi hp.1.2
  rw [hp.1.1] at hdead
  cases hdead

/-- Teardown leaves nothing behind. A handler is dropped in a step, and later no call for it is in
progress any more; that is so at the latest when the operation at the top level has ended. From
then on none of its waits is in the lists of the reactor, each registration it ever made has ended
once, and the registrations of a descriptor are those of others, while before the drop they were
its own and those of others. Its callbacks that are left do nothing when they are run. -/
theorem nothing_remains (hr : Reached c log) {h : Handler} (hh : h ∈ c.world.live)
    (hs : c.step = some c') (hgone : ∀ h' ∈ c'.world.live, h'.strand ≠ h.strand)
    (hl : Later c' c₁) (hrest : ∀ call ∈ c₁.calls, call.strand ≠ h.strand) (hl₂ : Later c₁ c₂) :
    ((∀ r ∈ c₂.world.hub.reactor.ready, c₂.world.hub.owns h.strand r.wait.callback = false) ∧
      ∀ t ∈ c₂.world.hub.reactor.timed, c₂.world.hub.owns h.strand t.wait.callback = false) ∧
    ((∃ ended, World.Ended {} ended c₂.world ∧
        ∀ x ∈ c₂.world.hub.watchers, x.strand = h.strand → x.registration ∈ ended) ∧
      ∀ fd, (c.world.hub.reactor.live.get? fd).getD 0 =
          c.world.registrationsOf h fd + c.world.registrationsOfOthers h fd ∧
        (c₂.world.hub.reactor.live.get? fd).getD 0 = c₂.world.registrationsOfOthers h fd) ∧
    (∀ wait, c₂.world.hub.owns h.strand wait.callback = true → ∀ o,
      c₂.world.begin wait o = (c₂.world, none) ∧
      ∀ slot, c₂.world.slots.get? slot = some wait → c₂.world.perform (.invoke slot o) =
        ({ c₂.world with slots := c₂.world.slots.erase slot }, .ended (.mk .done []))) ∧
    c₂.world.deliverCanceled.1 =
      (c₂.world.hub.reactor.parked.filter fun wait =>
        !c₂.world.hub.owns h.strand wait.callback).foldl (fun w wait => w.deliverOne wait)
        (c₂.world.modifyReactor fun m => m.takeParked.2) := by
  obtain ⟨log₂, hr₂, hnone, -⟩ := gone_of_dropped hr hh hs hgone hl hrest hl₂
  refine ⟨⟨?_, ?_⟩, ⟨?_, fun fd => ⟨live_eq_add hr h fd, ?_⟩⟩, ?_, ?_⟩
  · exact fun r hmem => owns_eq_false hnone fun p hp => lasts_of_ready hr₂ hmem hp
  · exact fun w hmem => owns_eq_false hnone fun p hp => lasts_of_timed hr₂ hmem hp
  · obtain ⟨ops, hstart⟩ := hr₂
    obtain ⟨ended, hended⟩ := Run.ended ⟨ops, .refl⟩ hstart
    refine ⟨ended, hended, fun x hx hstrand => ?_⟩
    obtain ⟨i, hi⟩ := List.getElem?_of_mem hx
    refine (hended.watchers hi).mpr ⟨alive_of_gone hnone hi hstrand, fun y hy => ?_⟩
    cases hy
  · rw [live_eq_add hr₂ h fd, registrationsOf_of_gone hnone, Nat.zero_add]
  · intro wait howns o
    refine ⟨World.begin_of_gone hnone howns o, fun slot hslot => ?_⟩
    let w : World := { c₂.world with slots := c₂.world.slots.erase slot }
    have hnone' : Hub.Gone h.strand w.hub := hnone
    have hbegin : w.begin wait o = (w, none) := World.begin_of_gone hnone' howns o
    have hrecords : World.bareRecords wait.callback o = [] := by
      obtain ⟨p, hp, -⟩ := Hub.owns_iff.mp howns
      cases hcb : wait.callback with
      | bare tag =>
        rw [hcb] at hp
        cases hp
      | ready => rfl
      | beat => rfl
    have hcomplete : w.completeWait wait o .done = (w, .ended (.mk .done [])) := by
      unfold World.completeWait
      rw [hbegin, hrecords]
    simp only [World.perform, World.invoke, hslot]
    exact hcomplete
  · let w := c₂.world.modifyReactor fun m => m.takeParked.2
    have hnone' : Hub.Gone h.strand w.hub := hnone.congr rfl
    exact World.foldl_deliverOne hnone' c₂.world.hub.reactor.parked

/-- A handler is dropped in one of its callbacks, and another is running. When both have ended, its
only registration has ended once, and a callback that was left does nothing. -/
theorem nothing_remains_dropping :
    (∃ ended, World.Ended {} ended (sample dropping 8).1.world ∧
        ∀ x ∈ (sample dropping 8).1.world.hub.watchers, x.strand = 0 → x.registration ∈ ended) ∧
      (sample dropping 8).1.world.begin ⟨3, .ready 0 .read 0⟩ (.ok ()) =
        ((sample dropping 8).1.world, none) := by
  let h : Handler := ⟨0, some 0, (∅ : Table Nat).insert 5 0⟩
  have hlive : h ∈ (sample dropping 4).1.world.live := List.mem_singleton.mpr rfl
  have hstep : (sample dropping 4).1.step = some (sample dropping 5).1 := rfl
  have hgone : ∀ h' ∈ (sample dropping 5).1.world.live, h'.strand ≠ h.strand := by decide
  have hlater : Later (sample dropping 5).1 (sample dropping 8).1 :=
    (((Later.refl _).step rfl).step rfl).step rfl
  have hrest : ∀ call ∈ (sample dropping 8).1.calls, call.strand ≠ h.strand := by decide
  have hall := nothing_remains (reached_sample dropping 4) hlive hstep hgone hlater hrest (.refl _)
  exact ⟨hall.2.1.1, (hall.2.2.1 ⟨3, .ready 0 .read 0⟩ rfl (.ok ())).1⟩

end Config
end Scenario
end Wakeup
