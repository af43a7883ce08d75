import Wakeup.Proofs.Calls
import Wakeup.Proofs.Outstanding
import Wakeup.Proofs.Private

/-! When a handler was dropped, only what is being served then can still be served or wait again. -/
namespace Wakeup

namespace Owner
variable {o : Owner}

theorem isWatcher_iff {i : Nat} : o.isWatcher i = true ↔ o.part = .watcher i := by
  cases o <;> simp [isWatcher, part]

theorem isHeartbeat_iff {t : Nat} : o.isHeartbeat t = true ↔ o.part = .heartbeat t := by
  cases o <;> simp [isHeartbeat, part]

end Owner

namespace Scenario
namespace Ledger
variable {L L' : Ledger}

namespace Private
variable {s : Nat}

/-- What belongs to a handler that was dropped is reached only if it is being served. -/
theorem reaches_iff (h : Private s true L) (ho : Owned L) (hu : InUse L) {c : Callback} {p : Part}
    (hp : c.part? = some p) (hs : L.hub.strandOf? p = some s) :
    L.hub.reaches c = true ↔ ∃ call ∈ L.calls, call.owner.part = p := by
  have halive : ∀ call ∈ L.calls, call.owner.part = p → L.hub.strandAlive s = true := by
    intro call hcall hpart
    have howner := hu.strandOf?_owner call hcall
    rw [Hub.strandOf?_owner, hpart, hs] at howner
    rw [Option.some.inj howner]
    exact hu.strandAlive_of_mem hcall
  cases c with
  | bare tag => cases hp
  | ready i d e =>
    cases hp
    have hlast := alive_watcher_iff ho hu i
    have hnot : i ∉ L.watchers.map (·.2) := by
      intro hmem
      obtain ⟨e, he, rfl⟩ := Multiset.mem_map.mp hmem
      exact h.strandOf?_ne (Armed.watcher_mem he) hs
    obtain ⟨x, hx, hxs⟩ := Option.map_eq_some_iff.mp hs
    rw [(Hub.roster_of_getElem? hx).2, Option.any_some] at hlast
    simp only [Hub.reaches, hx, Option.any_some, Bool.and_eq_true, hlast, hxs]
    constructor
    · rintro ⟨hheld | ⟨call, hcall, ho⟩, -⟩
      · exact absurd hheld hnot
      · exact ⟨call, hcall, Owner.isWatcher_iff.mp ho⟩
    · rintro ⟨call, hcall, hpart⟩
      exact ⟨Or.inr ⟨call, hcall, Owner.isWatcher_iff.mpr hpart⟩, halive call hcall hpart⟩
  | beat t generation e =>
    cases hp
    have hlast := alive_heartbeat_iff ho hu t
    have hnot : t ∉ L.heartbeats.map (·.2) := by
      intro hmem
      obtain ⟨e, he, rfl⟩ := Multiset.mem_map.mp hmem
      exact h.strandOf?_ne (Armed.heartbeat_mem he) hs
    obtain ⟨x, hx, hxs⟩ := Option.map_eq_some_iff.mp hs
    have hpresence : L.hub.roster.heartbeats[t]? = some x.presence := by
      change (L.hub.heartbeats.map _)[t]? = _
      rw [List.getElem?_map, hx]
      rfl
    rw [hpresence, Option.any_some] at hlast
    simp only [Hub.reaches, hx, Option.any_some, Bool.and_eq_true, hlast, hxs]
    constructor
    · rintro ⟨hheld | ⟨call, hcall, ho⟩, -⟩
      · exact absurd hheld hnot
      · exact ⟨call, hcall, Owner.isHeartbeat_iff.mp ho⟩
    · rintro ⟨call, hcall, hpart⟩
      exact ⟨Or.inr ⟨call, hcall, Owner.isHeartbeat_iff.mpr hpart⟩, halive call hcall hpart⟩

end Private

/-- The calls of a strand are made for parts that were being served from some point on. -/
def Served (s : Nat) (calls : List Call) (L : Ledger) : Prop :=
  ∃ rest, rest <:+ calls ∧ rest <:+ L.calls ∧
    ∀ call ∈ L.calls, call.strand = s → ∃ call' ∈ rest, call'.owner.part = call.owner.part

namespace Served
variable {s : Nat} {calls : List Call}

theorem finish (h : Served s calls L) {call : Call} {cs : List Call}
    (hc : L.calls = call :: cs) : Served s calls (L.finish call cs) := by
  obtain ⟨rest, hcalls, hrest, hall⟩ := h
  rw [hc] at hrest hall
  rcases List.suffix_cons_iff.mp hrest with rfl | hrest
  · exact ⟨cs, (List.suffix_cons _ _).trans hcalls, List.suffix_rfl,
      fun call' hcall _ => ⟨call', hcall, rfl⟩⟩
  · exact ⟨rest, hcalls, hrest, fun call' hcall => hall call' (List.mem_cons_of_mem _ hcall)⟩

theorem move (hm : Move L L') (ho : Owned L) (hu : InUse L) (hp : Private s true L)
    (h : Served s calls L) : Served s calls L' := by
  obtain ⟨rest, hcalls, hrest, hall⟩ := h
  refine ⟨rest, hcalls, hrest.trans hm.calls_suffix, ?_⟩
  cases hm with
  | @complete wait ws o hk =>
    intro call hcall hs
    rcases List.mem_append.mp hcall with hcall | hcall
    · -- the call that begins is for a part that is being served already
      have hbegin := Option.mem_toList.mp hcall
      have howner := Hub.strandOf?_begin hbegin
      rw [Hub.strandOf?_owner, hs] at howner
      have hpart := Hub.part_begin hbegin
      have hreach := L.hub.isSome_begin wait.callback o
      rw [Option.mem_def.mp hbegin, Option.isSome_some] at hreach
      have hr : L.hub.reaches wait.callback = true := by
        simp only [eq_comm (a := true), Bool.and_eq_true] at hreach
        exact hreach.1.1
      obtain ⟨call', hmem, heq⟩ := (hp.reaches_iff ho hu hpart howner).mp hr
      have howner' := hu.strandOf?_owner call' hmem
      rw [Hub.strandOf?_owner, heq, howner] at howner'
      obtain ⟨call'', hmem'', heq''⟩ := hall call' hmem (Option.some.inj howner').symm
      exact ⟨call'', hmem'', heq''.trans heq⟩
    · exact hall call hcall hs
  | _ => exact hall

end Served

/-- No part of a strand has a wait with a ticket from some number on. -/
def Silent (s n : Nat) (L : Ledger) : Prop :=
  ∀ w, L.HasWait w → n ≤ w.ticket → ∀ p ∈ w.callback.part?, L.hub.strandOf? p ≠ some s

theorem Silent.move {s n : Nat} (hm : Move L L') (hp : Private s true L) (h : Silent s n L) :
    Silent s n L' := by
  intro w hw hn p hpart hs
  have hs' := Private.strandOf?_of_makes hm.makes hp hs
  rcases hm.armed.waits w hw with hw | ⟨-, -, hheld⟩
  · exact h w hw hn p hpart hs'
  · exact hp.strandOf?_ne (hheld p hpart) hs'

private theorem Ticketed.silent (h : Ticketed L) (s : Nat) : Silent s L.hub.reactor.tickets L :=
  fun w hw hn => absurd (h w hw) (Nat.not_lt_of_le hn)

end Ledger

/-- All waits that can still be run. -/
def World.waits (w : World) : List Wait := w.hub.reactor.waits ++ w.slots.values

theorem World.mem_waits {w : World} {wait : Wait} {calls : List Call} {inside : List Nat}
    {log : List Event} : wait ∈ w.waits ↔ (w.ledger calls inside log).HasWait wait :=
  List.mem_append

namespace Config
open Ledger
variable {c c' c₁ c₂ : Config} {log : List Event}

theorem Reached.ticketed (h : Reached c log) : (c.ledger log).Ticketed :=
  h.keeps (fun hm _ h => .move hm h) (fun _ _ h => h.finish _ _) .empty

theorem private_of_live (hr : Reached c log) {h : Handler} (hh : h ∈ c.world.live) :
    Private h.strand false (c.ledger log) := by
  have ho := hr.owned
  have hmem : h.strand ∈ (c.ledger log).handlers := strand_mem_handlers hh
  constructor
  · exact ho.strand_lt (Or.inl hmem)
  · exact fun hs => ho.not_mem_handlers hs hmem
  · exact fun hd => absurd hd Bool.false_ne_true
  · rintro ⟨place, i⟩ he (rfl | hd) x hx hs
    · exact ho.watchers.alone he x hx (hs ▸ hmem)
    · cases hd
  · rintro ⟨place, t⟩ he (rfl | hd) x hx hs
    · exact ho.heartbeats.alone he x hx (hs ▸ hmem)
    · cases hd

private theorem private_of_gone (hr : Reached c log) {s : Nat} (h : Private s false (c.ledger log))
    (hgone : ∀ h ∈ c.world.live, h.strand ≠ s) : Private s true (c.ledger log) := by
  have ho := hr.owned
  refine { h with handlers := ?_, watchers := ?_, heartbeats := ?_ }
  · intro _ hmem
    obtain ⟨h', hh', heq⟩ := exists_of_mem_handlers hmem
    exact hgone h' hh' heq
  · rintro ⟨place, i⟩ he - x hx hs
    cases place with
    | none => exact h.watchers _ he (Or.inl rfl) x hx hs
    | some p =>
      obtain ⟨h', hh', hstrand, -⟩ := exists_of_mem_watchers he
      exact hgone h' hh' (hstrand.symm.trans ((ho.watchers.placed he x hx).2.symm.trans hs))
  · rintro ⟨place, t⟩ he - x hx hs
    cases place with
    | none => exact h.heartbeats _ he (Or.inl rfl) x hx hs
    | some p =>
      obtain ⟨h', hh', hstrand⟩ := exists_of_mem_heartbeats he
      exact hgone h' hh' (hstrand.symm.trans ((ho.heartbeats.placed he x hx).symm.trans hs))

/-- From the step on that dropped a handler, only what was being served then is served. -/
theorem served_of_dropped (hr : Reached c log) {h : Handler} (hh : h ∈ c.world.live)
    (hs : c.step = some c') (hgone : ∀ h' ∈ c'.world.live, h'.strand ≠ h.strand)
    (hl : Later c' c₁) : ∃ log', Reached c₁ log' ∧ Private h.strand true (c₁.ledger log') ∧
      Served h.strand c'.calls (c₁.ledger log') := by
  have hr' := hr.step hs
  have hprivate : Private h.strand false (c'.ledger (c.events.reverse ++ log)) := by
    have hrun := Run.keeps (P := Private h.strand false) hr (Run.refl.step hs)
      (fun hm => .makes hm.makes) (fun _ => .makes (makes_finish _ _ _)) (private_of_live hr hh)
    rwa [List.append_nil] at hrun
  obtain ⟨log', hl⟩ := hl
  have hrun := Run.keeps
    (P := fun L => L.InUse ∧ Private h.strand true L ∧ Served h.strand c'.calls L) hr' hl
    (fun hm ho h => ⟨.move hm ho h.1, .makes hm.makes ho h.2.1, .move hm ho h.1 h.2.1 h.2.2⟩)
    (fun hc ho h => ⟨h.1.finish hc, .makes (makes_finish _ _ _) ho h.2.1, h.2.2.finish hc⟩)
    ⟨hr'.inUse, private_of_gone hr' hprivate hgone,
      c'.calls, List.suffix_rfl, List.suffix_rfl, fun call hcall _ => ⟨call, hcall, rfl⟩⟩
  obtain ⟨ops, hstart⟩ := hr'
  exact ⟨_, ⟨ops, hstart.trans hl⟩, hrun.2.1, hrun.2.2⟩

/-- A call begins for a part of a handler that was dropped just when a wait of that part completes
whose engine is alive and still to be told, while a call for the part is in progress. -/
theorem begins_iff (hr : Reached c log) {s : Nat} (hp : Private s true (c.ledger log))
    (hs : c.step = some c') {p : Part} (hstrand : c.world.hub.strandOf? p = some s) :
    (∃ call, c'.calls = call :: c.calls ∧ call.owner.part = p) ↔
      (∃ call ∈ c.calls, call.owner.part = p) ∧ ∃ wait o, .completed wait o true ∈ c.events ∧
        wait.callback.part? = some p ∧ c.world.hub.asks wait.callback o = true := by
  have hreach {w : Wait} (hw : w.callback.part? = some p) :
      c.world.hub.reaches w.callback = true ↔ ∃ call ∈ c.calls, call.owner.part = p :=
    hp.reaches_iff hr.owned hr.inUse hw hstrand
  constructor
  · rintro ⟨call, hcall, rfl⟩
    obtain ⟨wait, o, he, hb⟩ := begins_of_calls hs hcall
    have hsome := hb.isSome_eq
    have hpart := hb.part?_eq call rfl
    simp only [Option.isSome_some, eq_comm (a := true), Bool.and_eq_true] at hsome
    obtain ⟨⟨hreaches, hserves⟩, hasks⟩ := hsome
    refine ⟨(hreach hpart).mp hreaches, wait, o, ?_, hpart, hasks⟩
    rw [he, World.completed, hserves]
    exact List.mem_singleton_self _
  · rintro ⟨hprogress, wait, o, hmem, hpart, hasks⟩
    rcases calls_step hs with ⟨call', -, he⟩ | ⟨wait', o', call?, he, hb, hc⟩ | ⟨-, hcanceled⟩
    · rw [he] at hmem
      exact absurd hmem List.not_mem_nil
    · rw [he, List.mem_singleton] at hmem
      injection hmem with hw ho hserves
      subst hw ho
      have hsome := hb.isSome_eq
      rw [(hreach hpart).mpr hprogress, ← hserves, hasks] at hsome
      obtain ⟨call, rfl⟩ := Option.isSome_iff_exists.mp hsome
      have hcall := hb.part?_eq call rfl
      rw [hpart] at hcall
      exact ⟨call, hc, (Option.some.inj hcall).symm⟩
    · rw [(hcanceled wait o true hmem).1] at hasks
      cases hcb : wait.callback <;> rw [hcb] at hasks <;> cases hasks

/-- A wait is armed for a part of a handler that was dropped just when a call for the part ends
that is followed by another wait. -/
theorem arms_iff (hr : Reached c log) {s : Nat} (hp : Private s true (c.ledger log))
    (hs : c.step = some c') {p : Part} (hstrand : c'.world.hub.strandOf? p = some s) :
    (∃ wait ∈ c'.world.waits, c.world.hub.reactor.tickets ≤ wait.ticket ∧
        wait.callback.part? = some p) ↔
      ∃ call, c.calls = call :: c'.calls ∧ call.owner.part = p ∧
        c.world.hub.rearms call = true := by
  have hticketed := hr.ticketed
  have hadvance := hr.advance hs
  have hmem (wait : Wait) : wait ∈ c'.world.waits ↔
      (c'.ledger (c.events.reverse ++ log)).HasWait wait := World.mem_waits
  simp only [hmem]
  change (c'.ledger (c.events.reverse ++ log)).hub.strandOf? p = some s at hstrand
  change _ ↔ ∃ call, (c.ledger log).calls = call :: (c'.ledger (c.events.reverse ++ log)).calls ∧
    _ ∧ (c.ledger log).hub.rearms call = true
  generalize c'.ledger (c.events.reverse ++ log) = L' at hadvance hstrand
  change (∃ wait, _ ∧ (c.ledger log).hub.reactor.tickets ≤ _ ∧ _) ↔ _
  have hho := hr.owned
  generalize c.ledger log = L at hp hticketed hadvance hho
  cases hadvance with
  | moves hm =>
    constructor
    · rintro ⟨wait, hw, hle, hpart⟩
      have hrun := hm.preserves
        (P := fun L' => L'.Owned ∧ Private s true L' ∧ Silent s L.hub.reactor.tickets L')
        (fun hm h => ⟨.move hm h.1, .makes hm.makes h.1 h.2.1, .move hm h.2.1 h.2.2⟩)
        ⟨hho, hp, hticketed.silent s⟩
      exact absurd hstrand (hrun.2.2 wait hw hle p hpart)
    · rintro ⟨call, hcalls, -⟩
      have hle := hm.calls_suffix.length_le
      rw [hcalls, List.length_cons] at hle
      omega
  | @finish call cs hcalls =>
    rcases L.waits_finish call cs with ⟨-, hwaits, hn⟩ | ⟨hy, c, hpart, -, hwaits⟩
    · constructor
      · rintro ⟨wait, hw, hle, -⟩
        exact absurd (hticketed wait ((hwaits wait).mp hw)) (Nat.not_lt_of_le hle)
      · rintro ⟨call', hcalls', -, hy⟩
        rw [hcalls] at hcalls'
        cases hcalls'
        rw [hn] at hy
        cases hy
    · constructor
      · rintro ⟨wait, hw, hle, hpart'⟩
        rcases (hwaits wait).mp hw with hw | rfl
        · exact absurd (hticketed wait hw) (Nat.not_lt_of_le hle)
        · exact ⟨call, hcalls, Option.some.inj (hpart.symm.trans hpart'), hy⟩
      · rintro ⟨call', hcalls', rfl, -⟩
        rw [hcalls] at hcalls'
        cases hcalls'
        exact ⟨_, (hwaits _).mpr (Or.inr rfl), le_rfl, hpart⟩

private theorem strandOf?_of_step (hr : Reached c log) {s : Nat}
    (hp : Private s true (c.ledger log))
    (hs : c.step = some c') {p : Part} (hstrand : c'.world.hub.strandOf? p = some s) :
    c.world.hub.strandOf? p = some s := by
  have hadvance := hr.advance hs
  have hrun := hadvance.preserves
    (P := fun L => L.Owned ∧ Private s true L ∧
      (L.hub.strandOf? p = some s → c.world.hub.strandOf? p = some s))
    (fun hm h => ⟨.move hm h.1, .makes hm.makes h.1 h.2.1,
      fun hp => h.2.2 (Private.strandOf?_of_makes hm.makes h.2.1 hp)⟩)
    (fun _ h => ⟨h.1.finish _ _, .makes (makes_finish _ _ _) h.1 h.2.1,
      fun hp => h.2.2 (Private.strandOf?_of_makes (makes_finish _ _ _) h.2.1 hp)⟩)
    ⟨hr.owned, hp, id⟩
  exact hrun.2.2 hstrand

/-- What starts after a handler was dropped. From then on, calls are in progress only for parts of
it for which one was in progress then and has not ended since. A call begins for a part just when a
wait of it completes whose engine is alive and still to be told, while a call for the part is in
progress; and a wait is armed for a part just when a call for it ends that is followed by another
wait. -/
theorem starts_after_drop_iff (hr : Reached c log) {h : Handler} (hh : h ∈ c.world.live)
    (hs : c.step = some c') (hgone : ∀ h' ∈ c'.world.live, h'.strand ≠ h.strand)
    (hl : Later c' c₁) :
    (∃ rest, rest <:+ c'.calls ∧ rest <:+ c₁.calls ∧ ∀ call ∈ c₁.calls, call.strand = h.strand →
      ∃ call' ∈ rest, call'.owner.part = call.owner.part) ∧
    ∀ c₂, c₁.step = some c₂ → ∀ p, c₂.world.hub.strandOf? p = some h.strand →
      ((∃ call, c₂.calls = call :: c₁.calls ∧ call.owner.part = p) ↔
        (∃ call ∈ c₁.calls, call.owner.part = p) ∧
          ∃ wait o, .completed wait o true ∈ c₁.events ∧ wait.callback.part? = some p ∧
            c₁.world.hub.asks wait.callback o = true) ∧
      ((∃ wait ∈ c₂.world.waits, c₁.world.hub.reactor.tickets ≤ wait.ticket ∧
          wait.callback.part? = some p) ↔
        ∃ call, c₁.calls = call :: c₂.calls ∧ call.owner.part = p ∧
          c₁.world.hub.rearms call = true) := by
  obtain ⟨log', hr₁, hp, hserved⟩ := served_of_dropped hr hh hs hgone hl
  refine ⟨hserved, fun c₂ hs₂ p hstrand => ⟨?_, arms_iff hr₁ hp hs₂ hstrand⟩⟩
  exact begins_iff hr₁ hp hs₂ (strandOf?_of_step hr₁ hp hs₂ hstrand)

/-- An engine that is told that a descriptor can be read drops its handler, and meanwhile the
descriptor can be written as well. -/
def dropping : List Op :=
  [.newHandler 0, .newEngine 0 { process := [[.dropHandler 0, .complete 5 .write (.ok ())]] } false,
    .monitor 0 0 5 ⟨3⟩, .complete 5 .read (.ok ())]

/-- After the drop, the end of the call for writing arms another wait. -/
theorem starts_after_drop_dropping :
    ∃ wait ∈ (sample dropping 7).1.world.waits,
      (sample dropping 6).1.world.hub.reactor.tickets ≤ wait.ticket ∧
        wait.callback.part? = some (.watcher 0) := by
  let h : Handler := ⟨0, some 0, (∅ : Table Nat).insert 5 0⟩
  have hlive : h ∈ (sample dropping 4).1.world.live := List.mem_singleton.mpr rfl
  have hstep : (sample dropping 4).1.step = some (sample dropping 5).1 := rfl
  have hgone : ∀ h' ∈ (sample dropping 5).1.world.live, h'.strand ≠ h.strand := by decide
  have hlater : Later (sample dropping 5).1 (sample dropping 6).1 := (Later.refl _).step rfl
  have h := starts_after_drop_iff (reached_sample dropping 4) hlive hstep hgone hlater
  exact (h.2 (sample dropping 7).1 rfl (.watcher 0) rfl).2.mpr
    ⟨⟨.watcher 0 .write, 0, 0, .process 5 ⟨2⟩⟩, rfl, rfl, rfl⟩

/-- In the call in which its handler is dropped, an engine is called once more for it, and two waits
are armed when these calls end. -/
theorem starts_after_drop :
    ((sample dropping 4).1.world.live.map (·.strand), (sample dropping 5).1.world.live.map
      (·.strand)) = ([0], []) ∧
      (sample dropping 5).1.calls.map (·.strand) = [0] ∧
      (sample dropping 6).1.calls.map (·.strand) = [0, 0] ∧
      (sample dropping 5).1.world.hub.reactor.tickets = 2 ∧
      (sample dropping 8).1.world.hub.reactor.tickets = 4 ∧
      (sample dropping 8).1.calls = [] := by
  decide

end Config
end Scenario
end Wakeup
