import Wakeup.Proofs.Claims
import Wakeup.Proofs.Uses

/-! At every point of every run, the sides that are pending are those that waits claim, and the
registrations of a reactor are those of watchers that last and those without a watcher. -/
namespace Wakeup

/-- From one hub to the other, watchers and waits for readiness stay as they are. -/
structure Calm (hub hub' : Hub Manual) : Prop where
  watchers : hub'.watchers = hub.watchers
  ready : hub'.reactor.ready = hub.reactor.ready
  live : hub'.reactor.live = hub.reactor.live
  timed : (∀ t ∈ hub.reactor.timed, t.wait.Idle) → ∀ t ∈ hub'.reactor.timed, t.wait.Idle
  parked : (∀ t ∈ hub.reactor.timed, t.wait.Idle) →
    ∀ w ∈ hub'.reactor.parked, w ∈ hub.reactor.parked ∨ w.Idle

namespace Calm
variable {hub hub' hub'' : Hub Manual}

theorem of_waits (hw : hub'.watchers = hub.watchers)
    (hr : hub'.reactor.ready = hub.reactor.ready) (ht : hub'.reactor.timed = hub.reactor.timed)
    (hp : hub'.reactor.parked = hub.reactor.parked) (hl : hub'.reactor.live = hub.reactor.live) :
    Calm hub hub' := by
  constructor
  · exact hw
  · exact hr
  · exact hl
  · rw [ht]
    exact id
  · rw [hp]
    exact fun _ w hw => Or.inl hw

theorem of_eq (hw : hub'.watchers = hub.watchers) (hr : hub'.reactor = hub.reactor) :
    Calm hub hub' := by
  refine of_waits hw ?_ ?_ ?_ ?_ <;> rw [hr]

theorem refl (hub : Hub Manual) : Calm hub hub := of_eq rfl rfl

theorem trans (h : Calm hub hub') (h' : Calm hub' hub'') : Calm hub hub'' where
  watchers := h'.watchers.trans h.watchers
  ready := h'.ready.trans h.ready
  live := h'.live.trans h.live
  timed := fun ht => h'.timed (h.timed ht)
  parked := by
    intro ht w hw
    rcases h'.parked (h.timed ht) w hw with hw | hi
    · exact h.parked ht w hw
    · exact Or.inr hi

theorem modifyHeartbeat (hub : Hub Manual) (t : Nat) (f : Heartbeat → Heartbeat) :
    Calm hub (hub.modifyHeartbeat t f) := of_eq rfl rfl

theorem modifySchedule (hub : Hub Manual) (t : Nat) (f : Schedule → Schedule) :
    Calm hub (hub.modifySchedule t f) := of_eq rfl rfl

theorem cancel (hub : Hub Manual) (timer : Nat) :
    Calm hub { hub with reactor := hub.reactor.cancel timer } where
  watchers := rfl
  ready := rfl
  live := rfl
  timed := fun ht t hmem => ht t (List.mem_of_mem_filter hmem)
  parked := by
    intro ht w hw
    rcases List.mem_append.mp hw with hw | hw
    · exact Or.inl hw
    · obtain ⟨t, hmem, rfl⟩ := List.mem_map.mp hw
      exact Or.inr (ht t (List.mem_of_mem_filter hmem))

theorem schedule (hub : Hub Manual) (timer deadline : Nat) {c : Callback}
    (hc : ∀ i d, c.claims i d = false) :
    Calm hub { hub with reactor := hub.reactor.schedule timer deadline c } where
  watchers := rfl
  ready := rfl
  live := rfl
  timed := by
    intro ht t hmem
    rcases List.mem_append.mp hmem with hmem | hmem
    · exact (cancel hub timer).timed ht t hmem
    · rw [List.mem_singleton.mp hmem]
      exact hc
  parked := (cancel hub timer).parked

theorem armDeadline (hub : Hub Manual) (t deadline e : Nat) :
    Calm hub (hub.armDeadline t deadline e) := by
  unfold Hub.armDeadline
  split
  · exact .refl hub
  · exact .schedule hub _ _ fun _ _ => rfl

theorem setHeartbeat (hub : Hub Manual) (t e : Nat) (interval : Interval) :
    Calm hub (hub.setHeartbeat t e interval) := by
  unfold Hub.setHeartbeat
  split
  · exact .refl hub
  · rename_i x _
    have h₁ : Calm hub (hub.cancelTimer x.timer) := .cancel hub x.timer
    exact h₁.trans ((modifySchedule _ t _).trans (armDeadline _ t _ e))

theorem stopHeartbeat (hub : Hub Manual) (t : Nat) : Calm hub (hub.stopHeartbeat t) := by
  unfold Hub.stopHeartbeat
  split
  · exact .refl hub
  · exact (modifySchedule hub t _).trans (cancel _ _)

theorem nextBeat (hub : Hub Manual) (t generation e : Nat) :
    Calm hub (hub.nextBeat t generation e) := by
  unfold Hub.nextBeat
  split
  · exact .refl hub
  · split
    · split
      · exact (modifySchedule hub t _).trans (armDeadline _ t _ e)
      · exact .refl hub
    · exact .refl hub

theorem reapHeartbeat (hub : Hub Manual) (t : Nat) : Calm hub (hub.reapHeartbeat t) := by
  unfold Hub.reapHeartbeat
  split
  · exact .refl hub
  · split
    · exact .refl hub
    · exact .cancel _ _

theorem releaseHeartbeat (hub : Hub Manual) (t : Nat) : Calm hub (hub.releaseHeartbeat t) :=
  (modifyHeartbeat hub t _).trans (reapHeartbeat _ t)

theorem dropHeartbeat (hub : Hub Manual) (t : Nat) : Calm hub (hub.dropHeartbeat t) :=
  (modifyHeartbeat hub t _).trans (reapHeartbeat _ t)

end Calm

namespace Hub

/-- What waits depend on in the watchers of a hub. -/
def posts (hub : Hub Manual) : List Post := hub.watchers.map .ofWatcher

variable {hub : Hub Manual} {w : Nat} {x : Watcher}

theorem ids_posts (hub : Hub Manual) :
    hub.posts.map (·.registration.id) = hub.roster.watched.map (·.1.id) := by
  simp [posts, roster, Post.ofWatcher]

theorem posts_of_getElem? (hx : hub.watchers[w]? = some x) :
    hub.posts[w]? = some (.ofWatcher x) := by
  rw [posts, List.getElem?_map, hx]
  rfl

theorem alive_of_roster (ha : hub.roster.watchers[w]?.any Presence.alive = true) :
    ∃ x, hub.watchers[w]? = some x ∧ x.presence.alive = true := by
  simp only [roster, List.getElem?_map] at ha
  cases hx : hub.watchers[w]? with
  | none =>
    rw [hx] at ha
    cases ha
  | some x =>
    rw [hx] at ha
    exact ⟨x, rfl, ha⟩

theorem posts_modifyWatcher {f : Watcher → Watcher} {g : Post → Post}
    (h : ∀ x, hub.watchers[w]? = some x → Post.ofWatcher (f x) = g (.ofWatcher x)) :
    (hub.modifyWatcher w f).posts = hub.posts.modify w g := by
  refine List.ext_getElem? fun j => ?_
  simp only [posts, modifyWatcher, List.getElem?_map, List.getElem?_modify]
  by_cases hj : w = j
  · subst hj
    cases hx : hub.watchers[w]? with
    | none => rfl
    | some x => simp [h x hx]
  · simp [hj]

theorem posts_modifyPending (hub : Hub Manual) (w : Nat) (d : Direction) (b : Bool) :
    (hub.modifySide w d ({ · with pending := b })).posts =
      hub.posts.modify w (.setPending d b) := by
  refine posts_modifyWatcher fun x _ => ?_
  simp only [Post.ofWatcher, Post.setPending, Sides.modify, pendingSides_set]

theorem posts_modifyWanted (hub : Hub Manual) (w : Nat) (d : Direction) (b : Bool) :
    (hub.modifySide w d ({ · with wanted := b })).posts = hub.posts := by
  have h : (hub.modifySide w d ({ · with wanted := b })).posts = hub.posts.modify w id := by
    refine posts_modifyWatcher fun x _ => ?_
    simp only [Post.ofWatcher, Sides.modify, pendingSides_set, id]
    congr 1
    refine Sides.ext_get fun d' => ?_
    rw [Sides.get_set, get_pendingSides]
    split_ifs with hd
    · rw [hd]
    · rfl
  rw [h, List.modify_id]

theorem posts_acquireWatcher (ha : hub.roster.watchers[w]?.any Presence.alive = true) :
    (hub.acquireWatcher w).posts = hub.posts := by
  have h : (hub.acquireWatcher w).posts = hub.posts.modify w id := by
    refine posts_modifyWatcher fun y hy => ?_
    obtain ⟨x, hx, halive⟩ := alive_of_roster ha
    rw [hx] at hy
    cases hy
    simp [Post.ofWatcher, halive]
  rw [h, List.modify_id]

end Hub
namespace Scenario

/-- Waiting, for the watchers and the reactor of a hub. -/
def HubWaits (hub : Hub Manual) (bare : Multiset Registration) (kept : Multiset Wait)
    (log : List Event) : Prop :=
  Waiting hub.posts hub.reactor bare kept log

namespace HubWaits
variable {hub hub' : Hub Manual} {bare : Multiset Registration} {kept : Multiset Wait}
  {log : List Event} {w : Nat}

theorem calm (h : HubWaits hub bare kept log) (hc : Calm hub hub') :
    HubWaits hub' bare kept log := by
  have hposts : hub'.posts = hub.posts := by
    unfold Hub.posts
    rw [hc.watchers]
  unfold HubWaits at h ⊢
  rw [hposts]
  refine h.of_claims ?_ ?_ (hc.timed h.timed) (hc.parked h.timed) (hc.live ▸ h.live)
  · intro i d _
    rw [hc.ready]
  · rw [hc.ready]
    exact h.ready

theorem modifyWanted (h : HubWaits hub bare kept log) (w : Nat) (d : Direction) (b : Bool) :
    HubWaits (hub.modifySide w d ({ · with wanted := b })) bare kept log := by
  unfold HubWaits at h ⊢
  rw [Hub.posts_modifyWanted]
  exact h

theorem armSide (h : HubWaits hub bare kept log)
    (ha : hub.roster.watchers[w]?.any Presence.alive = true) (d : Direction) (e : Nat) :
    HubWaits (hub.armSide w d e) bare kept log := by
  obtain ⟨x, hx, halive⟩ := Hub.alive_of_roster ha
  unfold Hub.armSide
  rw [hx]
  dsimp only
  split
  · exact h
  · rename_i hp
    have hpending : (pendingSides x.sides).get d = false := by
      rw [get_pendingSides]
      simpa using hp
    have harm := Waiting.arm h (Hub.posts_of_getElem? hx) halive hpending e
    rw [← Hub.posts_modifyPending] at harm
    exact harm

private theorem setSide (h : HubWaits hub bare kept log)
    (ha : hub.roster.watchers[w]?.any Presence.alive = true) (e : Nat) (d : Direction)
    (wanted : Bool) : HubWaits (hub.setSide w e d wanted) bare kept log := by
  have h₁ := h.modifyWanted w d wanted
  unfold Hub.setSide
  cases wanted with
  | false => exact h₁
  | true => exact h₁.armSide (by rwa [Hub.roster_modifySide]) d e

private theorem setInterest (h : HubWaits hub bare kept log)
    (ha : hub.roster.watchers[w]?.any Presence.alive = true) (e : Nat) (ev : Events) :
    HubWaits (hub.setInterest w e ev) bare kept log := by
  have h₁ := h.setSide ha e .read (ev.wants .read)
  exact h₁.setSide (by rwa [Hub.roster_setSide]) e .write (ev.wants .write)

private theorem retire (h : HubWaits hub bare kept log) (w : Nat) :
    HubWaits (hub.retire w) bare kept log :=
  (h.modifyWanted w .read false).modifyWanted w .write false

/-- The presence of a watcher changes. If it does not last any longer, its registration ends. -/
theorem reap (h : HubWaits hub bare kept log) (hids : (hub.roster.watched.map (·.1.id)).Nodup)
    (ha : hub.roster.watchers[w]?.any Presence.alive = true) (f : Presence → Presence) :
    HubWaits ((hub.modifyWatcher w fun x => { x with presence := f x.presence }).reapWatcher w)
      bare kept log := by
  obtain ⟨x, hx, halive⟩ := Hub.alive_of_roster ha
  have hx' : (hub.modifyWatcher w fun x => { x with presence := f x.presence }).watchers[w]? =
      some { x with presence := f x.presence } := by
    simp [Hub.modifyWatcher, hx]
  rw [← Hub.ids_posts] at hids
  unfold Hub.reapWatcher
  rw [hx']
  dsimp only
  split
  · rename_i halive'
    have hposts : (hub.modifyWatcher w fun x => { x with presence := f x.presence }).posts =
        hub.posts.modify w id := by
      refine Hub.posts_modifyWatcher fun y hy => ?_
      rw [hx] at hy
      cases hy
      simp only [Post.ofWatcher, halive', halive, id]
    rw [List.modify_id] at hposts
    unfold HubWaits at h ⊢
    rw [hposts]
    exact h
  · rename_i hdead
    have hdead' : (f x.presence).alive = false := by simpa using hdead
    have hposts : (hub.modifyWatcher w fun x => { x with presence := f x.presence }).posts =
        hub.posts.modify w .finish := by
      refine Hub.posts_modifyWatcher fun y hy => ?_
      rw [hx] at hy
      cases hy
      simp only [Post.ofWatcher, Post.finish, hdead']
    have hfinish := Waiting.finish h hids (Hub.posts_of_getElem? hx) halive
    rw [← hposts] at hfinish
    exact hfinish

private theorem newWatcher (h : HubWaits hub bare kept log) {s i : Nat} {fd : Fd}
    (hn : hub.newWatcher s fd = (.ok i, hub')) : HubWaits hub' bare kept log := by
  obtain ⟨r, m, hr, -, rfl⟩ := Hub.newWatcher_ok hn
  obtain ⟨rfl, rfl⟩ := Manual.register_ok hr
  unfold HubWaits Hub.posts
  rw [List.map_append]
  exact Waiting.push h rfl rfl rfl rfl rfl rfl

private theorem startCall (h : HubWaits hub bare kept log) {call : Call}
    (ha : ∀ i d, call.owner = .watcher i d →
      hub.roster.watchers[i]?.any Presence.alive = true) :
    HubWaits (hub.startCall call).1 bare kept log := by
  have howner : HubWaits (hub.acquireOwner call.owner) bare kept log := by
    cases ho : call.owner with
    | watcher i d =>
      unfold HubWaits at h ⊢
      rw [← Hub.posts_acquireWatcher (ha i d ho)] at h
      exact h
    | heartbeat t generation => exact h.calm (.modifyHeartbeat hub t _)
  unfold Hub.startCall
  split
  · exact howner.calm (.of_eq rfl rfl)
  · exact h

/-- A wait is completed, up to the call of the engine. -/
theorem begin {wait : Wait} (h : HubWaits hub bare (wait ::ₘ kept) log) (o : Outcome) :
    HubWaits (hub.begin wait.callback o).1 bare kept log := by
  cases hcb : wait.callback with
  | bare tag =>
    refine Waiting.drop h ?_
    intro i d _
    rw [hcb]
    rfl
  | beat t generation e =>
    have hdrop : HubWaits hub bare kept log := by
      refine Waiting.drop h ?_
      intro i d _
      rw [hcb]
      rfl
    have ha (hub : Hub Manual) : ∀ i d, Owner.heartbeat t generation = .watcher i d →
        hub.roster.watchers[i]?.any Presence.alive = true := by
      intro i d heq
      cases heq
    simp only [Hub.begin, Hub.beginBeat]
    split
    · exact hdrop
    · split
      · split
        · split
          · exact hdrop.startCall (ha _)
          · exact hdrop
        · exact hdrop
        · split
          · exact (hdrop.calm (.modifySchedule hub t _)).startCall (ha _)
          · exact hdrop
      · exact hdrop
  | ready i d e =>
    simp only [Hub.begin, Hub.beginReady]
    cases hx : hub.watchers[i]? with
    | none =>
      -- no wait is for a watcher that was never made
      have hle : hub.posts.length ≤ i := by
        rw [Hub.posts, List.length_map]
        exact List.getElem?_eq_none_iff.mp hx
      have hone := Waiting.claims_out h hle d
      rw [claims_cons, hcb, if_pos ((claims_ready e i d i d).mpr ⟨rfl, rfl⟩)] at hone
      omega
    | some x =>
      have hpost := Hub.posts_of_getElem? hx
      dsimp only
      split
      · rename_i halive
        have hclear : HubWaits (hub.modifySide i d ({ · with pending := false })) bare kept
            log := by
          have hc := Waiting.clear h hcb hpost halive
          rw [← Hub.posts_modifyPending] at hc
          exact hc
        have ha : ∀ j d', Owner.watcher i d = .watcher j d' →
            (hub.modifySide i d ({ · with pending := false })).roster.watchers[j]?.any
              Presence.alive = true := by
          intro j d' heq
          cases heq
          rw [Hub.roster_modifySide]
          simp [Hub.roster, hx, halive]
        split
        · split
          · split
            · exact hclear.startCall ha
            · exact hclear
          · exact hclear
          · exact hclear.startCall ha
        · exact hclear
      · rename_i hdead
        refine Waiting.drop h ?_
        intro j d' hall
        by_contra hc
        rw [hcb] at hc
        obtain ⟨rfl, rfl⟩ := (claims_ready e i d j d').mp (by simpa using hc)
        exact hdead (hall _ hpost)

/-- A call of an engine ends. -/
theorem finish (h : HubWaits hub bare kept log) (hids : (hub.roster.watched.map (·.1.id)).Nodup)
    {call : Call} (ha : ∀ i d, call.owner = .watcher i d →
      hub.roster.watchers[i]?.any Presence.alive = true) :
    HubWaits (hub.finish call) bare kept log := by
  have hresume : HubWaits (hub.resume call) bare kept log := by
    unfold Hub.resume
    split
    · rename_i i d _ _ ho _
      split
      · exact h.armSide (ha i d ho) d _
      · exact h
    · exact h.calm (.nextBeat hub _ _ _)
    · exact h
  have hleave : HubWaits (((hub.resume call).modifyEngine call.engine .release).leaveStrand
      call.strand) bare kept log := hresume.calm (.of_eq rfl rfl)
  unfold Hub.finish
  cases ho : call.owner with
  | heartbeat t generation => exact hleave.calm (.releaseHeartbeat _ t)
  | watcher i d =>
    have hw := ha i d ho
    rw [← Hub.roster_resume hub call] at hids hw
    exact hleave.reap hids hw .release

end HubWaits
namespace Ledger
variable {L L' : Ledger}

def Waits (L : Ledger) : Prop := HubWaits L.hub L.registrations L.kept L.log

namespace Waits

/-- What happened does not matter, unless a wait was thrown away. -/
theorem logged (h : Waits L) {ev : Event} (hev : ∀ i d, ev.discards i d = false) :
    Waits { L with log := ev :: L.log } := by
  refine Waiting.of_claims h ?_ h.ready h.timed (fun w hw => Or.inl hw) h.live
  intro i d _
  rw [claims_event, hev]
  rfl

theorem calm (h : Waits L) {hub : Hub Manual} (hc : Calm L.hub hub) :
    Waits { L with hub := hub } :=
  HubWaits.calm h hc

theorem alive_of_mem (ho : Owned L) {place : Option (Nat × Fd)} {i : Nat}
    (h : (place, i) ∈ L.watchers) : L.hub.roster.watchers[i]?.any Presence.alive = true := by
  have hmem : i ∈ L.watchers.map (·.2) := Multiset.mem_map_of_mem _ h
  exact Presence.any_alive_of_kept ((ho.watchers.holds.mem_iff i).mp hmem)

theorem alive_of_call (ho : Owned L) (hu : InUse L) {call : Call} (h : call ∈ L.calls) :
    ∀ i d, call.owner = .watcher i d →
      L.hub.roster.watchers[i]?.any Presence.alive = true := by
  intro i d heq
  rw [alive_watcher_iff ho hu]
  exact Or.inr ⟨call, h, by simp [heq, Owner.isWatcher]⟩

theorem ids_nodup (ho : Owned L) : (L.hub.roster.watched.map (·.1.id)).Nodup := by
  have h := (Multiset.nodup_add.mp ho.ids_nodup).1
  exact Multiset.coe_nodup.mp (Multiset.nodup_add.mp h).1

private theorem release (h : Waits L) (ho : Owned L) {r : Registration} {rs : Multiset Registration}
    (hr : L.registrations = r ::ₘ rs) :
    Waits { L.setReactor (L.hub.reactor.release r) with registrations := rs } := by
  have hwaits : Waiting L.hub.posts L.hub.reactor (r ::ₘ rs) L.kept L.log := hr ▸ h
  refine Waiting.release hwaits ?_
  intro p hp heq
  have hids := (Multiset.nodup_add.mp ho.ids_nodup).1
  have hdisjoint := (Multiset.nodup_add.mp hids).2.2
  have hnot : r.id ∉ L.registrations.map (·.id) := by
    refine Multiset.disjoint_left.mp hdisjoint ?_
    rw [Multiset.mem_coe, ← Hub.ids_posts, List.mem_map]
    exact ⟨p, hp, heq⟩
  rw [hr] at hnot
  exact hnot (Multiset.mem_map_of_mem _ (Multiset.mem_cons_self _ _))

theorem move (hm : Move L L') (ho : Owned L) (h : Waits L) : Waits L' := by
  cases hm with
  | advance => exact h.calm (.of_waits rfl rfl rfl rfl rfl)
  | refuse => exact h.calm (.of_waits rfl rfl rfl rfl rfl)
  | refused hr =>
    rw [Manual.register_error hr]
    exact h.calm (.of_waits rfl rfl rfl rfl rfl)
  | newHandler => exact h
  | dropHandler => exact h
  | newStrand => exact h
  | dropStrand => exact h
  | newEngine => exact h
  | dropEngine => exact h
  | newWatcher hp hf hn => exact HubWaits.newWatcher h hn
  | @setInterest place i e ev hmem =>
    have hw : Waits { L with hub := L.hub.setInterest i e ev } :=
      HubWaits.setInterest h (alive_of_mem ho hmem) e ev
    cases place with
    | none => exact hw
    | some p => exact hw.logged fun _ _ => rfl
  | retire => exact HubWaits.retire h _
  | @dropWatcher place i ws hw =>
    have hmem : (place, i) ∈ L.watchers := hw ▸ Multiset.mem_cons_self _ _
    exact HubWaits.reap h (ids_nodup ho) (alive_of_mem ho hmem) .disown
  | unasked => exact h.logged fun _ _ => rfl
  | newHeartbeat => exact h.calm (.of_waits rfl rfl rfl rfl rfl)
  | @setHeartbeat place t e interval =>
    have hset : Waits { L with hub := L.hub.setHeartbeat t e interval } :=
      h.calm (.setHeartbeat _ _ _ _)
    cases place with
    | none => exact hset
    | some s => exact hset.logged fun _ _ => rfl
  | stopHeartbeat => exact h.calm (.stopHeartbeat _ _)
  | dropHeartbeat => exact h.calm (.dropHeartbeat _ _)
  | enter => exact h
  | leave => exact h
  | takeReady ht => exact Waiting.takeReady h ht
  | takeTimed ht => exact Waiting.takeTimed h ht
  | takeParked => exact Waiting.takeParked h
  | @discard wait ws hk =>
    have hwaits : Waiting L.hub.posts L.hub.reactor L.registrations (wait ::ₘ ws) L.log := hk ▸ h
    exact Waiting.discard hwaits
  | @complete wait ws o hk =>
    have hwaits : HubWaits L.hub L.registrations (wait ::ₘ ws) L.log := hk ▸ h
    have hw : Waits { L with
        hub := (L.hub.begin wait.callback o).1
        kept := ws
        calls := (L.hub.begin wait.callback o).2.toList ++ L.calls } := hwaits.begin o
    exact hw.logged fun _ _ => rfl
  | register hr =>
    obtain ⟨rfl, hm⟩ := Manual.register_ok hr
    subst hm
    exact Waiting.register h rfl rfl rfl rfl
  | armBare d tag hr => exact Waiting.armBare h hr d tag
  | release hr => exact h.release ho hr
  | newTimer => exact h.calm (.of_waits rfl rfl rfl rfl rfl)
  | scheduleBare => exact h.calm (.schedule _ _ _ fun _ _ => rfl)
  | cancelBare => exact h.calm (.cancel _ _)
  | dropTimer => exact h.calm (.cancel _ _)

theorem finish (ho : Owned L) (hu : InUse L) (h : Waits L) {call : Call} {cs : List Call}
    (hc : L.calls = call :: cs) : Waits (L.finish call cs) :=
  HubWaits.finish h (ids_nodup ho) (alive_of_call ho hu (hc ▸ List.mem_cons_self))

theorem empty : Waits (({} : World).ledger [] [] []) where
  claims_eq := nofun
  claims_out := fun _ _ => rfl
  ready := nofun
  timed := nofun
  parked := nofun
  live := fun _ => rfl

end Waits
end Ledger

namespace Config

/-- At every point of every run, waits claim the sides that are pending, once each. -/
theorem Reached.waits {c : Config} {log : List Event} (h : Reached c log) :
    (c.ledger log).Waits := by
  have hboth : (c.ledger log).InUse ∧ (c.ledger log).Waits :=
    h.keeps (P := fun L => L.InUse ∧ L.Waits)
      (fun hm ho h => ⟨.move hm ho h.1, .move hm ho h.2⟩)
      (fun hc ho h => ⟨h.1.finish hc, .finish ho h.1 h.2 hc⟩) ⟨.empty, .empty⟩
  exact hboth.2

end Config
end Scenario
end Wakeup
