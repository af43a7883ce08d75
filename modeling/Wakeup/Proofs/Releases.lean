import Wakeup.Proofs.Calls
import Wakeup.Proofs.Waits

/-! When registrations end. Each that a watcher holds ends once, together with the watcher, and each
without a watcher when it is given up. -/
namespace Wakeup

namespace Hub
variable {hub : Hub Manual} {i : Nat} {x : Watcher}

/-- Whether a watcher or a heartbeat lasts. -/
def lasts (hub : Hub Manual) : Part → Bool
  | .watcher i => hub.roster.watchers[i]?.any Presence.alive
  | .heartbeat t => hub.roster.heartbeats[t]?.any Presence.alive

theorem lasts_watcher (hub : Hub Manual) (i : Nat) :
    hub.lasts (.watcher i) = hub.roster.watchers[i]?.any Presence.alive := rfl

theorem lasts_heartbeat (hub : Hub Manual) (t : Nat) :
    hub.lasts (.heartbeat t) = hub.roster.heartbeats[t]?.any Presence.alive := rfl

theorem lasts_congr {hub' : Hub Manual} (h : hub'.roster = hub.roster) (p : Part) :
    hub'.lasts p = hub.lasts p := by
  unfold lasts
  rw [h]

theorem lasts_of_getElem? (hx : hub.watchers[i]? = some x) :
    hub.lasts (.watcher i) = x.presence.alive := by
  rw [lasts_watcher, (roster_of_getElem? hx).2, Option.any_some]

theorem lasts_modify {hub' : Hub Manual} {f : Presence → Presence} (hx : hub.watchers[i]? = some x)
    (hr : hub'.roster.watchers = hub.roster.watchers.modify i f) (j : Nat) :
    hub'.lasts (.watcher j) =
      if j = i then (f x.presence).alive else hub.lasts (.watcher j) := by
  rw [lasts_watcher, lasts_watcher, hr, List.getElem?_modify]
  by_cases hij : i = j
  · subst hij
    simp [(roster_of_getElem? hx).2]
  · have hji : ¬j = i := fun h => hij h.symm
    simp [hij, hji]

theorem released_armSide (hub : Hub Manual) (i : Nat) (d : Direction) (e : Nat) :
    (hub.armSide i d e).reactor.released = hub.reactor.released := by
  unfold armSide
  split
  · rfl
  · split <;> rfl

theorem released_setSide (hub : Hub Manual) (i e : Nat) (d : Direction) (wanted : Bool) :
    (hub.setSide i e d wanted).reactor.released = hub.reactor.released := by
  unfold setSide
  cases wanted with
  | false => rfl
  | true => exact released_armSide _ i d e

theorem released_setInterest (hub : Hub Manual) (i e : Nat) (ev : Events) :
    (hub.setInterest i e ev).reactor.released = hub.reactor.released :=
  (released_setSide _ i e .write _).trans (released_setSide hub i e .read _)

theorem released_armDeadline (hub : Hub Manual) (t deadline e : Nat) :
    (hub.armDeadline t deadline e).reactor.released = hub.reactor.released := by
  unfold armDeadline
  split <;> rfl

theorem released_setHeartbeat (hub : Hub Manual) (t e : Nat) (interval : Interval) :
    (hub.setHeartbeat t e interval).reactor.released = hub.reactor.released := by
  unfold setHeartbeat
  split
  · rfl
  · exact released_armDeadline _ t _ e

theorem released_stopHeartbeat (hub : Hub Manual) (t : Nat) :
    (hub.stopHeartbeat t).reactor.released = hub.reactor.released := by
  unfold stopHeartbeat
  split <;> rfl

theorem released_nextBeat (hub : Hub Manual) (t generation e : Nat) :
    (hub.nextBeat t generation e).reactor.released = hub.reactor.released := by
  unfold nextBeat
  split
  · rfl
  · split
    · split
      · exact released_armDeadline _ t _ e
      · rfl
    · rfl

theorem released_reapHeartbeat (hub : Hub Manual) (t : Nat) :
    (hub.reapHeartbeat t).reactor.released = hub.reactor.released := by
  unfold reapHeartbeat
  split
  · rfl
  · split <;> rfl

theorem released_resume (hub : Hub Manual) (call : Call) :
    (hub.resume call).reactor.released = hub.reactor.released := by
  unfold resume
  split
  · split
    · exact released_armSide ..
    · rfl
  · exact released_nextBeat ..
  · rfl

/-- A watcher that waits again keeps its registration and its presence. -/
theorem getElem?_of_resume (hx : hub.watchers[i]? = some x) (call : Call) :
    ∃ y, (hub.resume call).watchers[i]? = some y ∧ y.registration = x.registration ∧
      y.presence = x.presence := by
  have hwatched := congrArg (·.watched[i]?) (roster_resume hub call)
  have hwatchers := congrArg (·.watchers[i]?) (roster_resume hub call)
  obtain ⟨htitle, hpresence⟩ := roster_of_getElem? hx
  simp only [htitle, hpresence] at hwatched hwatchers
  have hmap : ((hub.resume call).watchers.map fun x => (x.registration, x.strand))[i]? =
    some (x.registration, x.strand) := hwatched
  rw [List.getElem?_map] at hmap
  obtain ⟨y, hy, heq⟩ := Option.map_eq_some_iff.mp hmap
  rw [(roster_of_getElem? hy).2] at hwatchers
  exact ⟨y, hy, congrArg Prod.fst heq, Option.some.inj hwatchers⟩

theorem lasts_of_reaches {c : Callback} {p : Part} (hp : c.part? = some p)
    (h : hub.reaches c = true) : hub.lasts p = true := by
  cases c with
  | bare tag => cases hp
  | ready i d e =>
    cases hp
    obtain ⟨x, hx, hlast⟩ := (Option.any_eq_true ..).mp h
    rw [lasts_of_getElem? hx]
    exact (Bool.and_eq_true_iff.mp hlast).1
  | beat t generation e =>
    cases hp
    obtain ⟨x, hx, hlast⟩ := (Option.any_eq_true ..).mp h
    change (hub.heartbeats.map (·.presence))[t]?.any _ = true
    rw [List.getElem?_map, hx]
    exact (Bool.and_eq_true_iff.mp hlast).1

/-- To use what lasts once more makes no difference to what lasts. -/
theorem lasts_acquire {hub' : Hub Manual} {call : Call}
    (hr : hub'.roster = hub.roster.modifyCall call .acquire)
    (hlast : hub.lasts call.owner.part = true) (p : Part) : hub'.lasts p = hub.lasts p := by
  have hmodify {l : List Presence} {i : Nat} (h : l[i]?.any Presence.alive = true) (j : Nat) :
      (l.modify i .acquire)[j]?.any Presence.alive = l[j]?.any Presence.alive := by
    rw [List.getElem?_modify]
    by_cases hij : i = j
    · subst hij
      obtain ⟨x, hx, ha⟩ := (Option.any_eq_true ..).mp h
      simp [hx, ha]
    · simp [hij]
  unfold Roster.modifyCall Roster.modifyOwner at hr
  cases howner : call.owner with
  | watcher i d =>
    rw [howner] at hr hlast
    cases p with
    | watcher j => rw [lasts_watcher, hr, lasts_watcher, hmodify hlast]
    | heartbeat t => rw [lasts_heartbeat, hr, lasts_heartbeat]
  | heartbeat t generation =>
    rw [howner] at hr hlast
    cases p with
    | watcher j => rw [lasts_watcher, hr, lasts_watcher]
    | heartbeat t' => rw [lasts_heartbeat, hr, lasts_heartbeat, hmodify hlast]

/-- Nothing begins to last, or ends, because a call begins. -/
theorem lasts_begin (hub : Hub Manual) (c : Callback) (o : Outcome) (p : Part) :
    (hub.begin c o).1.lasts p = hub.lasts p := by
  have hroster := roster_begin hub c o
  cases hcall : (hub.begin c o).2 with
  | none =>
    rw [hcall] at hroster
    exact lasts_congr hroster p
  | some call =>
    rw [hcall] at hroster
    have hsome := isSome_begin hub c o
    rw [hcall, Option.isSome_some, eq_comm, Bool.and_eq_true, Bool.and_eq_true] at hsome
    exact lasts_acquire hroster (lasts_of_reaches (part_begin hcall) hsome.1.1) p

/-- A change of its presence ends a watcher that does not last any longer. -/
theorem released_reapWatcher (hx : hub.watchers[i]? = some x) (f : Presence → Presence) :
    ((hub.modifyWatcher i fun x => { x with presence := f x.presence }).reapWatcher
      i).reactor.released =
      if (f x.presence).alive then hub.reactor.released
      else hub.reactor.released ++ [x.registration.fd] := by
  have hx' : (hub.modifyWatcher i fun x => { x with presence := f x.presence }).watchers[i]? =
      some { x with presence := f x.presence } := by
    simp [modifyWatcher, hx]
  unfold reapWatcher
  rw [hx']
  dsimp only
  split <;> rfl

end Hub

namespace Scenario
namespace Ledger

/-- What becomes of the registrations of a ledger. -/
inductive Tenancy (L L' : Ledger) : Prop
  | same (hw : L'.hub.roster.watched = L.hub.roster.watched)
      (hl : ∀ i, L'.hub.lasts (.watcher i) = L.hub.lasts (.watcher i))
      (hr : L'.hub.reactor.released = L.hub.reactor.released)
      (hb : L'.registrations = L.registrations)
      (hn : L.hub.roster.nextId ≤ L'.hub.roster.nextId)
  /-- A watcher is made. -/
  | makes {r : Registration} {s : Nat} (hid : r.id = L.hub.roster.nextId)
      (hw : L'.hub.roster.watched = L.hub.roster.watched ++ [(r, s)])
      (hl : ∀ i, L'.hub.lasts (.watcher i) =
        if i = L.hub.roster.watched.length then true else L.hub.lasts (.watcher i))
      (hr : L'.hub.reactor.released = L.hub.reactor.released)
      (hb : L'.registrations = L.registrations)
      (hn : L.hub.roster.nextId < L'.hub.roster.nextId)
  /-- A watcher ends. -/
  | ends {i s : Nat} {r : Registration} (hi : L.hub.roster.watched[i]? = some (r, s))
      (hlast : L.hub.lasts (.watcher i) = true) (hw : L'.hub.roster.watched = L.hub.roster.watched)
      (hl : ∀ j, L'.hub.lasts (.watcher j) = if j = i then false else L.hub.lasts (.watcher j))
      (hr : L'.hub.reactor.released = L.hub.reactor.released ++ [r.fd])
      (hb : L'.registrations = L.registrations)
      (hn : L.hub.roster.nextId ≤ L'.hub.roster.nextId)
  /-- A registration is made without a watcher. -/
  | takes {r : Registration} (hid : r.id = L.hub.roster.nextId)
      (hw : L'.hub.roster.watched = L.hub.roster.watched)
      (hl : ∀ i, L'.hub.lasts (.watcher i) = L.hub.lasts (.watcher i))
      (hr : L'.hub.reactor.released = L.hub.reactor.released)
      (hb : L'.registrations = r ::ₘ L.registrations)
      (hn : L.hub.roster.nextId < L'.hub.roster.nextId)
  /-- A registration without a watcher is given up. -/
  | gives {r : Registration} (hb : L.registrations = r ::ₘ L'.registrations)
      (hw : L'.hub.roster.watched = L.hub.roster.watched)
      (hl : ∀ i, L'.hub.lasts (.watcher i) = L.hub.lasts (.watcher i))
      (hr : L'.hub.reactor.released = L.hub.reactor.released ++ [r.fd])
      (hn : L.hub.roster.nextId ≤ L'.hub.roster.nextId)

namespace Tenancy
variable {L L' : Ledger}

private theorem of_roster (hr : L'.hub.roster = L.hub.roster)
    (hreleased : L'.hub.reactor.released = L.hub.reactor.released)
    (hb : L'.registrations = L.registrations) : Tenancy L L' :=
  .same (by rw [hr]) (fun _ => Hub.lasts_congr hr _) hreleased hb (by rw [hr])

/-- The presence of a watcher changes that lasts. -/
theorem of_reap {i : Nat} {x : Watcher} {f : Presence → Presence}
    (hx : L.hub.watchers[i]? = some x) (hlast : x.presence.alive = true)
    (hw : L'.hub.roster.watched = L.hub.roster.watched)
    (hwatchers : L'.hub.roster.watchers = L.hub.roster.watchers.modify i f)
    (hr : L'.hub.reactor.released = if (f x.presence).alive then L.hub.reactor.released
      else L.hub.reactor.released ++ [x.registration.fd])
    (hb : L'.registrations = L.registrations)
    (hn : L.hub.roster.nextId ≤ L'.hub.roster.nextId) : Tenancy L L' := by
  have hl := Hub.lasts_modify hx hwatchers
  have hlast' : L.hub.lasts (.watcher i) = true := (Hub.lasts_of_getElem? hx).trans hlast
  cases ha : (f x.presence).alive with
  | true =>
    rw [ha, if_pos rfl] at hr
    refine .same hw (fun j => ?_) hr hb hn
    rw [hl, ha]
    split
    · rename_i hj
      rw [hj, hlast']
    · rfl
  | false =>
    rw [ha, if_neg Bool.false_ne_true] at hr
    rw [ha] at hl
    exact .ends (Hub.roster_of_getElem? hx).1 hlast' hw hl hr hb hn

end Tenancy

variable {L L' : Ledger}

private theorem Move.tenancy (hm : Move L L') (ho : Owned L) : Tenancy L L' := by
  cases hm with
  | advance => exact .of_roster rfl rfl rfl
  | refuse => exact .of_roster rfl rfl rfl
  | refused hr =>
    rw [Manual.register_error hr]
    exact .of_roster rfl rfl rfl
  | newHandler => exact .same rfl (fun _ => rfl) rfl rfl le_rfl
  | dropHandler => exact .same rfl (fun _ => rfl) rfl rfl le_rfl
  | newStrand => exact .same rfl (fun _ => rfl) rfl rfl le_rfl
  | dropStrand => exact .same rfl (fun _ => rfl) rfl rfl le_rfl
  | newEngine => exact .of_roster rfl rfl rfl
  | dropEngine => exact .of_roster rfl rfl rfl
  | newWatcher _ _ hn =>
    obtain ⟨r, m, hr, -, rfl⟩ := Hub.newWatcher_ok hn
    obtain ⟨rfl, rfl⟩ := Manual.register_ok hr
    refine .makes rfl (List.map_append ..) (fun i => ?_) rfl rfl (Nat.lt_succ_self _)
    change ((L.hub.watchers ++ [_]).map _)[i]?.any _ = _
    rw [List.map_append, List.getElem?_append, List.length_map, Hub.roster, List.length_map]
    split
    · rename_i hlt
      rw [if_neg hlt.ne]
      rfl
    · rename_i hlt
      split
      · rename_i heq
        rw [heq, Nat.sub_self]
        rfl
      · have hnone : L.hub.lasts (.watcher i) = false := by
          rw [Hub.lasts_watcher, Hub.roster]
          rw [List.getElem?_eq_none (by rw [List.length_map]; omega)]
          rfl
        rw [hnone, List.getElem?_eq_none (by simp; omega)]
        rfl
  | setInterest => exact .of_roster (by simp) (Hub.released_setInterest ..) rfl
  | retire => exact .of_roster (by simp) rfl rfl
  | @dropWatcher place i ws hw =>
    have hmem : (place, i) ∈ L.watchers := hw ▸ Multiset.mem_cons_self _ _
    obtain ⟨x, hx, ha⟩ := Hub.alive_of_roster (Waits.alive_of_mem ho hmem)
    have hroster := Hub.roster_dropWatcher L.hub i
    exact .of_reap hx ha (by rw [hroster]) (by rw [hroster]) (Hub.released_reapWatcher hx .disown)
      rfl (by rw [hroster])
  | unasked => exact .of_roster rfl rfl rfl
  | newHeartbeat => exact .same rfl (fun _ => rfl) rfl rfl (Nat.le_succ _)
  | setHeartbeat => exact .of_roster (by simp) (Hub.released_setHeartbeat ..) rfl
  | stopHeartbeat => exact .of_roster (by simp) (Hub.released_stopHeartbeat ..) rfl
  | @dropHeartbeat place t =>
    have hroster := Hub.roster_dropHeartbeat L.hub t
    refine .same (by rw [hroster]) (fun i => ?_) (Hub.released_reapHeartbeat ..) rfl
      (by rw [hroster])
    rw [Hub.lasts_watcher, hroster]
    rfl
  | enter => exact .same rfl (fun _ => rfl) rfl rfl le_rfl
  | leave => exact .same rfl (fun _ => rfl) rfl rfl le_rfl
  | takeReady ht =>
    obtain ⟨-, -, -, -, rfl⟩ := Manual.takeReady_some ht
    exact .of_roster rfl rfl rfl
  | takeTimed ht =>
    obtain ⟨-, -, -, -, rfl⟩ := Manual.takeTimed_some ht
    exact .of_roster rfl rfl rfl
  | takeParked => exact .of_roster rfl rfl rfl
  | discard => exact .of_roster rfl rfl rfl
  | @complete wait ws o =>
    have hreleased := congrArg Manual.released (Hub.reactor_begin L.hub wait.callback o)
    have hroster := Hub.roster_begin L.hub wait.callback o
    cases hcall : (L.hub.begin wait.callback o).2 with
    | none =>
      rw [hcall] at hroster
      exact .of_roster hroster hreleased rfl
    | some call =>
      rw [hcall] at hroster
      have hlasts := Hub.lasts_begin L.hub wait.callback o
      have hfields : (L.hub.roster.modifyCall call .acquire).watched = L.hub.roster.watched ∧
          (L.hub.roster.modifyCall call .acquire).nextId = L.hub.roster.nextId := by
        unfold Roster.modifyCall Roster.modifyOwner
        cases call.owner <;> exact ⟨rfl, rfl⟩
      exact .same (hroster ▸ hfields.1) (fun _ => hlasts _) hreleased rfl (hroster ▸ hfields.2.ge)
  | register hr =>
    obtain ⟨rfl, rfl⟩ := Manual.register_ok hr
    exact .takes rfl rfl (fun _ => rfl) rfl rfl (Nat.lt_succ_self _)
  | armBare => exact .of_roster rfl rfl rfl
  | release hr => exact .gives hr rfl (fun _ => rfl) rfl le_rfl
  | newTimer => exact .same rfl (fun _ => rfl) rfl rfl (Nat.le_succ _)
  | scheduleBare => exact .of_roster rfl rfl rfl
  | cancelBare => exact .of_roster rfl rfl rfl
  | dropTimer => exact .of_roster rfl rfl rfl

private theorem tenancy_finish (ho : Owned L) (hu : InUse L) {call : Call} {cs : List Call}
    (hc : L.calls = call :: cs) : Tenancy L (L.finish call cs) := by
  have hroster := Hub.roster_finish L.hub call
  let hub := ((L.hub.resume call).modifyEngine call.engine .release).leaveStrand call.strand
  have hreleased : hub.reactor.released = L.hub.reactor.released := Hub.released_resume L.hub call
  cases howner : call.owner with
  | heartbeat t generation =>
    rw [Roster.modifyCall, howner] at hroster
    have hfinish : L.hub.finish call = hub.releaseHeartbeat t := by
      unfold Hub.finish
      rw [howner]
      rfl
    refine .same (by rw [finish, hroster]; rfl) (fun i => ?_) ?_ rfl (by rw [finish, hroster]; rfl)
    · rw [Hub.lasts_watcher, finish, hroster]
      rfl
    · rw [finish, hfinish, ← hreleased]
      exact Hub.released_reapHeartbeat _ t
  | watcher i d =>
    rw [Roster.modifyCall, howner] at hroster
    have hfinish : L.hub.finish call = hub.releaseWatcher i := by
      unfold Hub.finish
      rw [howner]
      rfl
    obtain ⟨x, hx, ha⟩ :=
      Hub.alive_of_roster (Waits.alive_of_call ho hu (hc ▸ List.mem_cons_self) i d howner)
    obtain ⟨y, hy, hreg, hpresence⟩ := Hub.getElem?_of_resume hx call
    have hy' : hub.watchers[i]? = some y := hy
    refine .of_reap hx ha (by rw [finish, hroster]; rfl) (by rw [finish, hroster]; rfl) ?_ rfl
      (by rw [finish, hroster]; rfl)
    rw [finish, hfinish, ← hreleased, ← hreg, ← hpresence]
    exact Hub.released_reapWatcher hy' .release

namespace Owned

/-- No two watchers have one registration. -/
theorem watched_inj (ho : Owned L) {i j s s' : Nat} {r : Registration}
    (hi : L.hub.roster.watched[i]? = some (r, s)) (hj : L.hub.roster.watched[j]? = some (r, s')) :
    i = j := by
  obtain ⟨hlt, -⟩ := List.getElem?_eq_some_iff.mp hi
  refine (List.getElem?_inj (by simpa using hlt) (Waits.ids_nodup ho)).mp ?_
  rw [List.getElem?_map, List.getElem?_map, hi, hj]
  rfl

/-- A registration without a watcher is not that of a watcher. -/
theorem registration_ne (ho : Owned L) {r r' : Registration} {s : Nat}
    (hr : r ∈ L.registrations) (hmem : (r', s) ∈ L.hub.roster.watched) : r' ≠ r := by
  rintro rfl
  have hids := (Multiset.nodup_add.mp ho.ids_nodup).1
  refine Multiset.disjoint_left.mp (Multiset.nodup_add.mp hids).2.2 ?_
    (Multiset.mem_map_of_mem _ hr)
  exact Multiset.mem_coe.mpr (List.mem_map_of_mem hmem)

private theorem registrations_nodup (ho : Owned L) : L.registrations.Nodup :=
  ((Multiset.nodup_add.mp (Multiset.nodup_add.mp ho.ids_nodup).1).2.1).of_map

private theorem registration_lt (ho : Owned L) {i s : Nat} {r : Registration}
    (hi : L.hub.roster.watched[i]? = some (r, s)) : r.id < L.hub.roster.nextId := by
  refine ho.ids_lt r.id (Multiset.mem_add.mpr (Or.inl (Multiset.mem_add.mpr (Or.inl ?_))))
  exact Multiset.mem_coe.mpr (List.mem_map_of_mem (List.mem_of_getElem? hi))

private theorem bare_lt (ho : Owned L) {r : Registration} (hr : r ∈ L.registrations) :
    r.id < L.hub.roster.nextId := by
  refine ho.ids_lt r.id (Multiset.mem_add.mpr (Or.inl (Multiset.mem_add.mpr (Or.inr ?_))))
  exact Multiset.mem_map_of_mem _ hr

end Owned

/-- The registrations that ended between two ledgers, in order: those of watchers that do not last
any longer, and some without a watcher that were given up. -/
structure Ended (L₀ : Ledger) (ended : List Registration) (L : Ledger) : Prop where
  released : L.hub.reactor.released = L₀.hub.reactor.released ++ ended.map (·.fd)
  nodup : ended.Nodup
  watched : ∀ {i s : Nat} {r : Registration}, L.hub.roster.watched[i]? = some (r, s) →
    (r ∈ ended ↔ L.hub.lasts (.watcher i) = false ∧
      (i < L₀.hub.roster.watched.length → L₀.hub.lasts (.watcher i) = true))
  bare : ∀ r ∈ ended, (∀ x ∈ L.hub.roster.watched, x.1 ≠ r) →
    r ∈ L₀.registrations ∨ L₀.hub.roster.nextId ≤ r.id
  free : ∀ r ∈ ended, r ∉ L.registrations
  lt : ∀ r ∈ ended, r.id < L.hub.roster.nextId
  made : ∀ r ∈ L.registrations, r ∈ L₀.registrations ∨ L₀.hub.roster.nextId ≤ r.id
  gone : ∀ i < L₀.hub.roster.watched.length,
    L₀.hub.lasts (.watcher i) = false → L.hub.lasts (.watcher i) = false
  length_le : L₀.hub.roster.watched.length ≤ L.hub.roster.watched.length
  nextId_le : L₀.hub.roster.nextId ≤ L.hub.roster.nextId

namespace Ended
variable {L₀ : Ledger} {ended : List Registration}

theorem refl (L : Ledger) : Ended L [] L where
  released := (List.append_nil _).symm
  nodup := List.nodup_nil
  watched := by
    intro i s r hi
    obtain ⟨hlt, -⟩ := List.getElem?_eq_some_iff.mp hi
    simp only [List.not_mem_nil, false_iff, not_and, Classical.not_imp, Bool.not_eq_true]
    exact fun hdead => ⟨hlt, hdead⟩
  bare := nofun
  free := nofun
  lt := nofun
  made := fun _ => Or.inl
  gone := fun _ _ => id
  length_le := le_rfl
  nextId_le := le_rfl

/-- No registration ends. -/
theorem keep (h : Ended L₀ ended L) (hr : L'.hub.reactor.released = L.hub.reactor.released)
    (hw : L.hub.roster.watched <+: L'.hub.roster.watched)
    (hold : ∀ i < L.hub.roster.watched.length,
      L'.hub.lasts (.watcher i) = L.hub.lasts (.watcher i))
    (hnew : ∀ i s r, L.hub.roster.watched.length ≤ i →
      L'.hub.roster.watched[i]? = some (r, s) →
        L.hub.roster.nextId ≤ r.id ∧ L'.hub.lasts (.watcher i) = true)
    (hb : ∀ r ∈ L'.registrations, r ∈ L.registrations ∨ L.hub.roster.nextId ≤ r.id)
    (hn : L.hub.roster.nextId ≤ L'.hub.roster.nextId) : Ended L₀ ended L' where
  released := hr.trans h.released
  nodup := h.nodup
  watched := by
    intro i s r hi
    by_cases hlt : i < L.hub.roster.watched.length
    · have hold' := List.getElem?_eq_getElem hlt
      rw [ getElem?_of_prefix hw hold', Option.some.injEq] at hi
      rw [hi] at hold'
      rw [hold i hlt, h.watched hold']
    · -- the watcher is new, and so is its registration
      obtain ⟨hid, hlast⟩ := hnew i s r (not_lt.mp hlt) hi
      simp only [hlast, Bool.true_eq_false, false_and, iff_false]
      exact fun hmem => absurd (h.lt r hmem) (not_lt.mpr hid)
  bare := fun r hr hne => h.bare r hr fun x hx => hne x (hw.subset hx)
  free := by
    intro r hr hmem
    rcases hb r hmem with hmem | hid
    · exact h.free r hr hmem
    · exact absurd (h.lt r hr) (not_lt.mpr hid)
  lt := fun r hr => (h.lt r hr).trans_le hn
  made := by
    intro r hr
    rcases hb r hr with hr | hid
    · exact h.made r hr
    · exact Or.inr (h.nextId_le.trans hid)
  gone := fun i hi hdead => (hold i (hi.trans_le h.length_le)).trans (h.gone i hi hdead)
  length_le := h.length_le.trans hw.length_le
  nextId_le := h.nextId_le.trans hn

/-- One registration ends. -/
theorem concat (h : Ended L₀ ended L) {r : Registration}
    (hr : L'.hub.reactor.released = L.hub.reactor.released ++ [r.fd])
    (hw : L'.hub.roster.watched = L.hub.roster.watched) (hnew : r ∉ ended)
    (hlasts : ∀ i s r', L.hub.roster.watched[i]? = some (r', s) →
      (r' = r ∧ L'.hub.lasts (.watcher i) = false ∧ L.hub.lasts (.watcher i) = true) ∨
        r' ≠ r ∧ L'.hub.lasts (.watcher i) = L.hub.lasts (.watcher i))
    (hbare : (∀ x ∈ L.hub.roster.watched, x.1 ≠ r) → r ∈ L.registrations)
    (hb : ∀ r' ∈ L'.registrations, r' ∈ L.registrations ∧ r' ≠ r)
    (hlt : r.id < L.hub.roster.nextId) (hn : L.hub.roster.nextId ≤ L'.hub.roster.nextId) :
    Ended L₀ (ended ++ [r]) L' where
  released := by
    rw [hr, h.released, List.map_append, List.append_assoc]
    rfl
  nodup := h.nodup.append (List.nodup_singleton r) (List.disjoint_singleton.mpr hnew)
  watched := by
    intro i s r' hi
    rw [hw] at hi
    rw [List.mem_append, List.mem_singleton]
    rcases hlasts i s r' hi with ⟨rfl, hdead, hlast⟩ | ⟨hne, heq⟩
    · refine ⟨fun _ => ⟨hdead, fun hlt => ?_⟩, fun _ => Or.inr rfl⟩
      by_contra hdead₀
      have hdead' := h.gone i hlt (by simpa using hdead₀)
      rw [hlast] at hdead'
      cases hdead'
    · rw [heq, ← h.watched hi, or_iff_left hne]
  bare := by
    intro r' hr' hne
    rw [hw] at hne
    rcases List.mem_append.mp hr' with hr' | hr'
    · exact h.bare r' hr' hne
    · rw [List.mem_singleton.mp hr'] at hne ⊢
      exact h.made r (hbare hne)
  free := by
    intro r' hr' hmem
    obtain ⟨hmem, hne⟩ := hb r' hmem
    rcases List.mem_append.mp hr' with hr' | hr'
    · exact h.free r' hr' hmem
    · exact hne (List.mem_singleton.mp hr')
  lt := by
    intro r' hr'
    rcases List.mem_append.mp hr' with hr' | hr'
    · exact (h.lt r' hr').trans_le hn
    · rw [List.mem_singleton.mp hr']
      exact hlt.trans_le hn
  made := fun r' hr' => h.made r' (hb r' hr').1
  gone := by
    intro i hi hdead
    have hi' := List.getElem?_eq_getElem (hi.trans_le h.length_le)
    rcases hlasts i _ _ hi' with ⟨-, hdead', -⟩ | ⟨-, heq⟩
    · exact hdead'
    · exact heq.trans (h.gone i hi hdead)
  length_le := hw ▸ h.length_le
  nextId_le := h.nextId_le.trans hn

private theorem step (ht : Tenancy L L') (ho : Owned L) (h : Ended L₀ ended L) :
    ∃ ended', Ended L₀ ended' L' := by
  have hnone {i s : Nat} {r : Registration} (hle : L.hub.roster.watched.length ≤ i) :
      ¬L.hub.roster.watched[i]? = some (r, s) := by
    rw [List.getElem?_eq_none hle]
    exact nofun
  cases ht with
  | same hw hl hr hb hn =>
    refine ⟨ended, h.keep hr (hw ▸ List.prefix_rfl) (fun i _ => hl i) ?_
      (fun r hr => Or.inl (hb ▸ hr)) hn⟩
    exact fun i s r hle hi => absurd (hw ▸ hi) (hnone hle)
  | @makes r s hid hw hl hr hb hn =>
    refine ⟨ended, h.keep hr (hw ▸ List.prefix_append _ _) (fun i hlt => ?_) ?_
      (fun r hr => Or.inl (hb ▸ hr)) hn.le⟩
    · rw [hl, if_neg hlt.ne]
    · intro i s' r' hle hi
      rw [hw, List.getElem?_append_right hle, List.getElem?_singleton] at hi
      split at hi
      · rename_i hzero
        cases hi
        exact ⟨hid.ge, (hl i).trans (if_pos (by omega))⟩
      · cases hi
  | @ends i s r hi hlast hw hl hr hb hn =>
    have hmem := List.mem_of_getElem? hi
    refine ⟨_, h.concat hr hw ?_ ?_ (fun hne => absurd rfl (hne _ hmem)) ?_
      (ho.registration_lt hi) hn⟩
    · intro hended
      have hdead := ((h.watched hi).mp hended).1
      rw [hlast] at hdead
      cases hdead
    · intro j s' r' hj
      by_cases hij : j = i
      · subst hij
        rw [hi] at hj
        cases hj
        exact Or.inl ⟨rfl, (hl j).trans (if_pos rfl), hlast⟩
      · refine Or.inr ⟨?_, (hl j).trans (if_neg hij)⟩
        rintro rfl
        exact hij (ho.watched_inj hj hi)
    · intro r' hr'
      rw [hb] at hr'
      exact ⟨hr', fun heq => ho.registration_ne hr' hmem heq.symm⟩
  | @takes r hid hw hl hr hb hn =>
    refine ⟨ended, h.keep hr (hw ▸ List.prefix_rfl) (fun i _ => hl i) ?_ ?_ hn.le⟩
    · exact fun i s r hle hi => absurd (hw ▸ hi) (hnone hle)
    · intro r' hr'
      rw [hb] at hr'
      rcases Multiset.mem_cons.mp hr' with rfl | hr'
      · exact Or.inr hid.ge
      · exact Or.inl hr'
  | @gives r hb hw hl hr hn =>
    have hmem : r ∈ L.registrations := hb ▸ Multiset.mem_cons_self _ _
    refine ⟨_, h.concat hr hw (fun hr' => h.free r hr' hmem) ?_ (fun _ => hmem) ?_
      (ho.bare_lt hmem) hn⟩
    · exact fun i s r' hi => Or.inr ⟨ho.registration_ne hmem (List.mem_of_getElem? hi), hl i⟩
    · intro r' hr'
      refine ⟨hb ▸ Multiset.mem_cons_of_mem hr', ?_⟩
      rintro rfl
      exact (Multiset.nodup_cons.mp (hb ▸ ho.registrations_nodup)).1 hr'

end Ended
end Ledger

namespace World

/-- The registrations that ended between two worlds, each once and in order: those of the watchers
that ended meanwhile, and some without a watcher that are not held any longer. -/
structure Ended (w : World) (ended : List Registration) (w' : World) : Prop where
  released : w'.hub.reactor.released = w.hub.reactor.released ++ ended.map (·.fd)
  nodup : ended.Nodup
  watchers : ∀ {i : Nat} {x : Watcher}, w'.hub.watchers[i]? = some x →
    (x.registration ∈ ended ↔ x.presence.alive = false ∧
      ∀ y, w.hub.watchers[i]? = some y → y.presence.alive = true)
  bare : ∀ r ∈ ended, (∀ x ∈ w'.hub.watchers, x.registration ≠ r) →
    (r ∈ w.registrations.values ∨ w.hub.reactor.nextId ≤ r.id) ∧ r ∉ w'.registrations.values ∧
      r.id < w'.hub.reactor.nextId

private theorem ended_of_ledger {w w' : World} {calls calls' : List Call}
    {inside inside' : List Nat} {log log' : List Event} {ended : List Registration}
    (h : Ledger.Ended (w.ledger calls inside log) ended (w'.ledger calls' inside' log')) :
    w.Ended ended w' := by
  refine ⟨h.released, h.nodup, ?_, ?_⟩
  · intro i x hx
    have hw := h.watched (Hub.roster_of_getElem? hx).1
    change _ ↔ w'.hub.lasts (.watcher i) = false ∧ (i < (w.hub.watchers.map _).length →
      w.hub.lasts (.watcher i) = true) at hw
    rw [Hub.lasts_of_getElem? hx, List.length_map] at hw
    rw [hw]
    refine and_congr_right fun _ => ⟨fun hlast y hy => ?_, fun hlast hlt => ?_⟩
    · rw [← Hub.lasts_of_getElem? hy]
      exact hlast (List.getElem?_eq_some_iff.mp hy).1
    · have hy := List.getElem?_eq_getElem hlt
      rw [Hub.lasts_of_getElem? hy]
      exact hlast _ hy
  · intro r hr hne
    refine ⟨h.bare r hr ?_, h.free r hr, h.lt r hr⟩
    intro x hx
    obtain ⟨y, hy, rfl⟩ := List.mem_map.mp hx
    exact hne y hy

end World

namespace Config
open Ledger
variable {c c' : Config} {log log' : List Event}

/-- Each registration ends once. In any part of any run, the registrations that end are those of the
watchers that end in it, and some without a watcher that are given up. -/
theorem Run.ended (hr : Reached c log) (h : Run c c' log') :
    ∃ ended, c.world.Ended ended c'.world := by
  have hrun := Run.keeps (P := fun L => L.InUse ∧ ∃ ended, Ledger.Ended (c.ledger log) ended L)
    hr h ?_ ?_ ⟨hr.inUse, [], .refl _⟩
  · obtain ⟨-, ended, hended⟩ := hrun
    exact ⟨ended, World.ended_of_ledger hended⟩
  · rintro L L' hm ho ⟨hu, ended, hended⟩
    exact ⟨.move hm ho hu, hended.step (hm.tenancy ho) ho⟩
  · rintro L call cs hc ho ⟨hu, ended, hended⟩
    exact ⟨hu.finish hc, hended.step (tenancy_finish ho hu hc) ho⟩

end Config
end Scenario
end Wakeup
