import Wakeup.Proofs.Outstanding

/-! A handler that removes a descriptor ends its registration at once, unless a call of the watcher
is in progress. In that case the registration lasts until the call ends. -/
namespace Wakeup

namespace Hub
variable {hub : Hub Manual} {i : Nat} {x : Watcher}

theorem reactor_retire (hub : Hub Manual) (i : Nat) : (hub.retire i).reactor = hub.reactor := rfl

theorem reactor_dropWatcher (hx : hub.watchers[i]? = some x) :
    (hub.dropWatcher i).reactor =
      if x.presence.inUse then hub.reactor else hub.reactor.release x.registration := by
  have hx' : (hub.modifyWatcher i fun x => { x with presence := x.presence.disown }).watchers[i]? =
      some { x with presence := x.presence.disown } := by
    simp [modifyWatcher, hx]
  unfold dropWatcher reapWatcher
  rw [hx']
  dsimp only
  rw [Presence.alive_disown]
  split <;> rfl

theorem getElem?_retire (hx : hub.watchers[i]? = some x) :
    ∃ y, (hub.retire i).watchers[i]? = some y ∧ y.registration = x.registration ∧
      y.presence = x.presence := by
  simp [retire, Direction.all, modifySide, modifyWatcher, hx]

end Hub

/-- Whether a call is made on behalf of a watcher of a strand for a descriptor. -/
def Call.isFor (hub : Hub Manual) (s : Nat) (fd : Fd) (call : Call) : Bool :=
  match call.owner with
  | .watcher i _ => hub.watchers[i]?.any fun x => x.strand == s && x.fd == fd
  | .heartbeat .. => false

namespace Scenario

namespace Config
variable {c : Config} {log : List Event}

/-- How many watchers of a descriptor a handler has removed while calls of theirs are in
progress. -/
def lingering (c : Config) (h : Handler) (fd : Fd) : Nat :=
  c.world.hub.watchers.zipIdx.countP fun (x, i) =>
    x.strand == h.strand && x.fd == fd && c.calls.any (·.owner.isWatcher i) &&
      h.watchers.get? fd != some i

private theorem registrationsOf_eq_add (hr : Reached c log) {h : Handler} (hh : h ∈ c.world.live)
    (fd : Fd) :
    c.world.registrationsOf h fd = (if h.isWatching fd then 1 else 0) + c.lingering h fd := by
  let p (e : Watcher × Nat) : Bool :=
    e.1.presence.alive && e.1.strand == h.strand && e.1.fd == fd
  let q (e : Watcher × Nat) : Bool := h.watchers.get? fd == some e.2
  have hp : ∀ e ∈ c.world.hub.watchers.zipIdx, p e = true ↔ q e = true ∨
      e.1.strand = h.strand ∧ e.1.fd = fd ∧ c.calls.any (·.owner.isWatcher e.2) = true := by
    intro e he
    simp only [p, q, Bool.and_eq_true, beq_iff_eq, and_assoc]
    exact alive_iff hr hh (List.mem_zipIdx_iff_getElem?.mp he)
  have hcount : c.world.registrationsOf h fd = c.world.hub.watchers.zipIdx.countP p := by
    unfold World.registrationsOf
    conv_lhs => rw [← List.zipIdx_map_fst 0 c.world.hub.watchers, List.countP_map]
    rfl
  rw [hcount, List.countP_eq_countP_filter_add _ p q, List.countP_filter, List.countP_filter]
  congr 1
  · refine countP_eq_of_index ?_ fun i hi => ?_
    · intro i e he
      rw [List.getElem?_zipIdx] at he
      obtain ⟨x, hx, rfl⟩ := Option.map_eq_some_iff.mp he
      have hmem : (x, 0 + i) ∈ c.world.hub.watchers.zipIdx := by
        rw [Nat.zero_add]
        exact List.mem_zipIdx_iff_getElem?.mpr hx
      rw [Bool.and_eq_true, hp _ hmem]
      simp only [q, beq_iff_eq, Nat.zero_add]
      constructor
      · exact fun h => h.2
      · exact fun h => ⟨Or.inl h, h⟩
    · rw [List.length_zipIdx]
      exact lt_of_get? hr hh hi
  · refine List.countP_congr ?_
    intro e he
    rw [Bool.and_eq_true, hp e he]
    simp only [q, beq_iff_eq, Bool.not_eq_true', beq_eq_false_iff_ne, Bool.and_eq_true,
      bne_iff_ne, ne_eq, and_assoc]
    constructor
    · rintro ⟨hget | hcall, hn⟩
      · exact absurd hget hn
      · exact ⟨hcall.1, hcall.2.1, hcall.2.2, hn⟩
    · exact fun ⟨hs, hfd, hcall, hn⟩ => ⟨Or.inr ⟨hs, hfd, hcall⟩, hn⟩

private theorem isFor_iff {hub : Hub Manual} {s : Nat} {fd : Fd} {call : Call} :
    call.isFor hub s fd = true ↔ ∃ i x, hub.watchers[i]? = some x ∧ x.strand = s ∧ x.fd = fd ∧
      call.owner.isWatcher i = true := by
  unfold Call.isFor
  cases ho : call.owner with
  | heartbeat t generation => simp [Owner.isWatcher]
  | watcher i d =>
    dsimp only
    constructor
    · intro hany
      cases hx : hub.watchers[i]? with
      | none =>
        rw [hx] at hany
        cases hany
      | some x =>
        rw [hx, Option.any_some, Bool.and_eq_true, beq_iff_eq, beq_iff_eq] at hany
        exact ⟨i, x, hx, hany.1, hany.2, beq_self_eq_true i⟩
    · rintro ⟨j, x, hx, hs, hfd, hj⟩
      have hij : i = j := beq_iff_eq.mp hj
      rw [hij, hx]
      simp [hs, hfd]

private theorem lingering_eq_zero_iff (c : Config) {h : Handler} {fd : Fd}
    (hn : h.watchers.get? fd = none) :
    c.lingering h fd = 0 ↔ ∀ call ∈ c.calls, call.isFor c.world.hub h.strand fd = false := by
  unfold lingering
  rw [List.countP_eq_zero]
  constructor
  · intro hall call hcall
    by_contra hfor
    obtain ⟨i, x, hx, hs, hfd, ho⟩ := isFor_iff.mp (by simpa using hfor)
    refine hall (x, i) (List.mem_zipIdx_iff_getElem?.mpr hx) ?_
    have hany : c.calls.any (·.owner.isWatcher i) = true := List.any_eq_true.mpr ⟨call, hcall, ho⟩
    simp [hs, hfd, hany, hn]
  · intro hall e he hp
    simp only [Bool.and_eq_true, beq_iff_eq, List.any_eq_true] at hp
    obtain ⟨⟨⟨hs, hfd⟩, call, hcall, ho⟩, -⟩ := hp
    have hfor : call.isFor c.world.hub h.strand fd = true :=
      isFor_iff.mpr ⟨e.2, e.1, List.mem_zipIdx_iff_getElem?.mp he, hs, hfd, ho⟩
    rw [hall call hcall] at hfor
    cases hfor

/-- A handler that holds no registration of a descriptor has no wait for it. -/
theorem waitsOf_eq_zero (hr : Reached c log) {h : Handler} {fd : Fd}
    (hzero : c.world.registrationsOf h fd = 0) (d : Direction) : c.world.waitsOf h fd d = 0 := by
  unfold World.waitsOf
  unfold World.registrationsOf at hzero
  rw [List.countP_eq_zero] at hzero ⊢
  intro r hmem hp
  simp only [Bool.and_eq_true, beq_iff_eq] at hp
  obtain ⟨⟨hfd, -⟩, hb⟩ := hp
  have hf := Waiting.ready hr.waits r hmem
  unfold Fits at hf
  cases hcb : r.wait.callback with
  | beat t generation e =>
    rw [hcb] at hf
    exact hf.elim
  | bare tag =>
    rw [hcb] at hb
    cases hb
  | ready i d' e =>
    rw [hcb] at hf hb
    obtain ⟨rfl, p, hpost, ha, hreg⟩ := hf
    obtain ⟨x, hx, rfl⟩ := Option.map_eq_some_iff.mp
      ((List.getElem?_map ..).symm.trans hpost)
    change c.world.hub.watchers[i]? = some x at hx
    rw [Hub.belongs, hx] at hb
    have hs : x.strand = h.strand := by simpa using hb
    refine hzero x (List.mem_of_getElem? hx) ?_
    have ha' : x.presence.alive = true := ha
    have hfd' : x.fd = fd := by
      rw [← hfd]
      exact congrArg (·.fd) hreg
    simp [ha', hs, hfd']

private theorem isFor_congr {hub hub' : Hub Manual} (h : hub'.roster.watched = hub.roster.watched)
    (s : Nat) (fd : Fd) (call : Call) : call.isFor hub' s fd = call.isFor hub s fd := by
  have htitle (hub : Hub Manual) (i : Nat) :
      (hub.watchers[i]?.any fun x => x.strand == s && x.fd == fd) =
        hub.roster.watched[i]?.any fun t => t.2 == s && t.1.fd == fd := by
    change _ = ((hub.watchers.map _)[i]?.any _)
    rw [List.getElem?_map]
    cases hub.watchers[i]? <;> rfl
  unfold Call.isFor
  split
  · rw [htitle, htitle, h]
  · rfl

/-- The world after a handler removed a descriptor that it watches. -/
theorem monitor_of_isEmpty {w : World} {n e : Int} {fd : Fd} {ev : Events} {engine i : Nat}
    {h : Handler} (he : w.engines.get? e = some engine) (hh : w.handlers.get? n = some h)
    (hi : h.watchers.get? fd = some i) (hev : ev.isEmpty = true) :
    w.monitor n e fd ev =
      ({ w with
        hub := (w.hub.retire i).dropWatcher i
        handlers := w.handlers.insert n { h with watchers := h.watchers.erase fd } }, .done) := by
  simp [World.monitor, he, hh, Handler.monitor, hi, hev]

/-- When a descriptor is removed. At every point of every run, a handler holds a registration of a
descriptor through the watcher with which it watches it, and through each watcher that it has
removed while a call of that was in progress. Removing a descriptor that is watched succeeds. It
ends the registration at once if no call of the watcher is in progress, and leaves the reactor as it
is otherwise. Afterwards the handler has neither a registration nor a wait of the descriptor
exactly if no call is in progress for the descriptor. -/
theorem removal_releases_iff (hr : Reached c log) :
    (∀ h ∈ c.world.live, ∀ fd, c.world.registrationsOf h fd =
      (if h.isWatching fd then 1 else 0) + c.lingering h fd) ∧
    ∀ (n e : Int) (fd : Fd) (ev : Events) (todo : List Op) (engine i : Nat) (h : Handler)
      (x : Watcher), c.frame.todo = .monitor n e fd ev :: todo →
      c.world.engines.get? e = some engine → c.world.handlers.get? n = some h →
      h.watchers.get? fd = some i → c.world.hub.watchers[i]? = some x → ev.isEmpty = true →
      ∃ c', c.step = some c' ∧ c'.frame.entries = .mk .done [] :: c.frame.entries ∧
        c'.world.handlers.get? n = some { h with watchers := h.watchers.erase fd } ∧
        c'.world.hub.reactor = (if c.calls.any (·.owner.isWatcher i) then c.world.hub.reactor
          else c.world.hub.reactor.release x.registration) ∧
        ((c'.world.registrationsOf h fd = 0 ∧ ∀ d, c'.world.waitsOf h fd d = 0) ↔
          ∀ call ∈ c.calls, call.isFor c.world.hub h.strand fd = false) := by
  refine ⟨fun h hh fd => registrationsOf_eq_add hr hh fd, ?_⟩
  intro n e fd ev todo engine i h x ht he hh hi hx hev
  let h' : Handler := { h with watchers := h.watchers.erase fd }
  let hub' := (c.world.hub.retire i).dropWatcher i
  let w' : World := { c.world with hub := hub', handlers := c.world.handlers.insert n h' }
  let c' : Config :=
    ⟨w', { c.frame with todo := todo, entries := .mk .done [] :: c.frame.entries }, c.below⟩
  have hs : c.step = some c' := by
    unfold step
    rw [ht]
    simp only [World.perform, monitor_of_isEmpty he hh hi hev, World.ended]
    rfl
  have hr' := hr.step hs
  have hreactor : hub'.reactor = if c.calls.any (·.owner.isWatcher i) then c.world.hub.reactor
      else c.world.hub.reactor.release x.registration := by
    obtain ⟨y, hy, hreg, hpres⟩ := Hub.getElem?_retire hx
    have huses : usesOf c.world.hub.roster.watchers i =
      c.calls.countP (·.owner.isWatcher i) := hr.inUse.watchers i
    have hinUse : x.presence.inUse = c.calls.any (·.owner.isWatcher i) := by
      rw [usesOf, (Hub.roster_of_getElem? hx).2, Option.elim_some] at huses
      rw [Presence.inUse, huses, Bool.eq_iff_iff, List.any_eq_true, bne_iff_ne,
        ← Nat.pos_iff_ne_zero, List.countP_pos_iff]
    rw [Hub.reactor_dropWatcher hy, hpres, hreg, Hub.reactor_retire, hinUse]
  have hlive : h' ∈ c'.world.live := by
    refine List.mem_append.mpr (Or.inl (Table.mem_values.mpr ⟨n, ?_⟩))
    exact Table.get?_insert_self _ _ _
  have hnone : h'.watchers.get? fd = none := Table.get?_erase_self _ _
  have hzero : c'.world.registrationsOf h fd = 0 ↔
      ∀ call ∈ c.calls, call.isFor c.world.hub h.strand fd = false := by
    have hcount : c'.world.registrationsOf h fd = c'.lingering h' fd := by
      have hadd := registrationsOf_eq_add hr' hlive fd
      rw [Handler.isWatching, Table.contains, hnone, Option.isSome_none,
        if_neg Bool.false_ne_true, Nat.zero_add] at hadd
      exact hadd
    have hwatched : hub'.roster.watched = c.world.hub.roster.watched := by
      rw [Hub.roster_dropWatcher, Hub.roster_retire]
    rw [hcount, lingering_eq_zero_iff c' hnone]
    change (∀ call ∈ c.calls, call.isFor hub' h.strand fd = false) ↔ _
    simp only [isFor_congr hwatched]
  refine ⟨c', hs, rfl, Table.get?_insert_self _ _ _, hreactor, ?_⟩
  rw [← hzero]
  exact ⟨fun hboth => hboth.1, fun hz => ⟨hz, fun d => waitsOf_eq_zero hr' hz d⟩⟩

/-- In the call for a descriptor, its removal leaves the reactor as it is. -/
theorem removal_releases_rewatching :
    ∃ c', (sample rewatching 4).1.step = some c' ∧
      c'.world.hub.reactor = (sample rewatching 4).1.world.hub.reactor := by
  have h := (removal_releases_iff (reached_sample rewatching 4)).2 0 0 5 .none
    [.monitor 0 0 5 .readable, .takeReady 5 .read 1, .discard 1] 0 0
    ⟨0, some 0, (∅ : Table Nat).insert 5 0⟩
    ⟨⟨1, 5⟩, 0, ⟨⟨true, false⟩, ⟨true, true⟩⟩, ⟨true, 1⟩⟩ rfl rfl rfl rfl rfl rfl
  obtain ⟨c', hs, -, -, hreactor, -⟩ := h
  exact ⟨c', hs, hreactor⟩

/-- In the call for a descriptor, its removal succeeds, and the handler still holds a registration
of it and a wait for it. Once the descriptor is watched again, the handler holds two. -/
theorem removal_keeps_registration :
    (sample rewatching 4).1.frame.todo.head? = some (.monitor 0 0 5 .none) ∧
      (∀ h ∈ (sample rewatching 4).1.world.live, h.isWatching 5 = true) ∧
      (sample rewatching 5).1.frame.entries = [.mk .done []] ∧
      (∀ h ∈ (sample rewatching 5).1.world.live, h.isWatching 5 = false ∧
        (sample rewatching 5).1.world.registrationsOf h 5 = 1 ∧
        (sample rewatching 5).1.world.waitsOf h 5 .write = 1) ∧
      (sample rewatching 5).1.world.live.length = 1 ∧
      ∀ h ∈ (sample rewatching 6).1.world.live,
        (sample rewatching 6).1.world.registrationsOf h 5 = 2 := by
  exact ⟨rfl, by decide, rfl, by decide, by decide, by decide⟩

end Config
end Scenario
end Wakeup
