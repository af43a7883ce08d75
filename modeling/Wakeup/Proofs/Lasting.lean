import Wakeup.Proofs.Pledges
import Wakeup.Proofs.Releases

/-! The waits that are in the lists of a reactor are for watchers and heartbeats that last. -/
namespace Wakeup

namespace Hub
variable {hub : Hub Manual} {t : Nat} {x : Heartbeat}

theorem lasts_heartbeat_of_getElem? (hx : hub.heartbeats[t]? = some x) :
    hub.lasts (.heartbeat t) = x.presence.alive := by
  change (hub.heartbeats.map (·.presence))[t]?.any _ = _
  rw [List.getElem?_map, hx]
  rfl

theorem lasts_heartbeat_modify {hub' : Hub Manual} {f : Presence → Presence}
    (hx : hub.heartbeats[t]? = some x)
    (hr : hub'.roster.heartbeats = hub.roster.heartbeats.modify t f) (j : Nat) :
    hub'.lasts (.heartbeat j) =
      if j = t then (f x.presence).alive else hub.lasts (.heartbeat j) := by
  rw [lasts_heartbeat, hr, List.getElem?_modify]
  by_cases hj : t = j
  · subst hj
    change ((hub.heartbeats.map (·.presence))[t]?.map _).any _ = _
    simp [List.getElem?_map, hx]
  · have hj' : ¬j = t := fun h => hj h.symm
    simp [hj, hj', lasts_heartbeat]

theorem reactor_dropHeartbeat (hx : hub.heartbeats[t]? = some x) :
    (hub.dropHeartbeat t).reactor =
      if x.presence.disown.alive then hub.reactor else hub.reactor.cancel x.timer := by
  simp only [dropHeartbeat, reapHeartbeat, modifyHeartbeat, List.getElem?_modify_eq, hx,
    Option.map_eq_map, Option.map_some]
  split <;> rfl

theorem timed_setHeartbeat {e : Nat} {interval : Interval} {w : TimedWait}
    (hw : w ∈ (hub.setHeartbeat t e interval).reactor.timed) :
    w ∈ hub.reactor.timed ∨ ∃ b ∈ w.wait.callback.beat?, b.heartbeat = t := by
  cases hx : hub.heartbeats[t]? with
  | none =>
    unfold setHeartbeat at hw
    rw [hx] at hw
    exact Or.inl hw
  | some x =>
    rw [reactor_setHeartbeat hx] at hw
    rcases List.mem_append.mp hw with hw | hw
    · exact Or.inl (List.mem_of_mem_filter (List.mem_of_mem_filter hw))
    · rw [List.mem_singleton.mp hw]
      exact Or.inr ⟨_, rfl, rfl⟩

theorem timed_stopHeartbeat {w : TimedWait} (hw : w ∈ (hub.stopHeartbeat t).reactor.timed) :
    w ∈ hub.reactor.timed := by
  unfold stopHeartbeat at hw
  split at hw
  · exact hw
  · exact List.mem_of_mem_filter hw

theorem timed_reapWatcher (hub : Hub Manual) (i : Nat) :
    (hub.reapWatcher i).reactor.timed = hub.reactor.timed := by
  unfold reapWatcher
  split
  · rfl
  · split <;> rfl

theorem timed_finish_of_watcher {call : Call} {i : Nat} {d : Direction}
    (howner : call.owner = .watcher i d) :
    (hub.finish call).reactor.timed = hub.reactor.timed := by
  have hresume : (hub.resume call).reactor.timed = hub.reactor.timed := by
    rcases hub.resume_of_watcher howner with heq | heq
    · rw [heq]
    · rw [heq]
      exact (timed_armSide hub i d call.engine).1
  rw [← hresume]
  unfold finish
  rw [howner]
  exact timed_reapWatcher _ i

end Hub

namespace Scenario
namespace Ledger
variable {L L' : Ledger}

/-- The waits for deadlines that are in the reactor are for heartbeats that last. -/
def Lasting (L : Ledger) : Prop :=
  ∀ w ∈ L.hub.reactor.timed, ∀ b ∈ w.wait.callback.beat?,
    L.hub.lasts (.heartbeat b.heartbeat) = true

/-- A wait in the reactor for a heartbeat is the wait of its timer. -/
theorem Punctual.timer_eq (h : Punctual L) {w : TimedWait} (hw : w ∈ L.hub.reactor.timed)
    {b : Beat} (hb : b ∈ w.wait.callback.beat?) : L.hub.timer? b.heartbeat = some w.timer := by
  have htimely := h.timed w hw
  unfold Timely at htimely
  split at htimely
  · exact htimely.elim
  · rename_i hcb
    rw [hcb] at hb
    cases hb
  · rename_i hcb
    rw [hcb] at hb
    cases hb
    exact htimely.1

namespace Lasting

theorem of_timed (h : Lasting L) (ht : ∀ w ∈ L'.hub.reactor.timed, w ∈ L.hub.reactor.timed)
    (hl : ∀ t, L.hub.lasts (.heartbeat t) = true → L'.hub.lasts (.heartbeat t) = true) :
    Lasting L' :=
  fun w hw b hb => hl _ (h w (ht w hw) b hb)

theorem same (h : Lasting L) (ht : L'.hub.reactor.timed = L.hub.reactor.timed)
    (hr : L'.hub.roster.heartbeats = L.hub.roster.heartbeats) : Lasting L' := by
  refine h.of_timed (fun w hw => ht ▸ hw) fun t hl => ?_
  rw [Hub.lasts_heartbeat, hr]
  exact hl

/-- What is held lasts. -/
theorem lasts_of_mem (ho : Owned L) {place : Option Nat} {t : Nat}
    (h : (place, t) ∈ L.heartbeats) : L.hub.lasts (.heartbeat t) = true :=
  Presence.any_alive_of_kept ((ho.heartbeats.holds.mem_iff t).mp (Multiset.mem_map_of_mem _ h))

/-- The presence of one heartbeat changes. If it does not last any longer, the wait of its timer is
cancelled. -/
theorem reap (h : Lasting L) (hp : Punctual L) {t : Nat} {x : Heartbeat}
    {f : Presence → Presence} (hx : L.hub.heartbeats[t]? = some x)
    (hr : L'.hub.roster.heartbeats = L.hub.roster.heartbeats.modify t f) {m : Manual}
    (hm : ∀ w ∈ m.timed, w ∈ L.hub.reactor.timed ∨
      w.timer = x.timer ∧ ∃ b ∈ w.wait.callback.beat?, b.heartbeat = t)
    (hreactor : L'.hub.reactor = if (f x.presence).alive then m else m.cancel x.timer) :
    Lasting L' := by
  have htimer := Hub.timer?_of_getElem? hx
  intro w hw b hb
  rw [Hub.lasts_heartbeat_modify hx hr]
  rw [hreactor] at hw
  cases ha : (f x.presence).alive with
  | true =>
    rw [ha, if_pos rfl] at hw
    split
    · rfl
    · rename_i hj
      rcases hm w hw with hold | ⟨-, b', hb', heq⟩
      · exact h w hold b hb
      · cases Option.mem_unique hb hb'
        exact absurd heq hj
  | false =>
    rw [ha, if_neg Bool.false_ne_true] at hw
    obtain ⟨hw, hne⟩ := List.mem_filter.mp hw
    have hne' : w.timer ≠ x.timer := of_decide_eq_true hne
    rcases hm w hw with hold | ⟨heq, -⟩
    · have hj : b.heartbeat ≠ t := by
        rintro rfl
        have heq := hp.timer_eq hold hb
        rw [htimer] at heq
        exact hne' (Option.some.inj heq).symm
      rw [if_neg hj]
      exact h w hold b hb
    · exact absurd heq hne'

private theorem dropHeartbeat (h : Lasting L) (hp : Punctual L) {t : Nat}
    {ts : Multiset (Option Nat × Nat)} :
    Lasting { L with hub := L.hub.dropHeartbeat t, heartbeats := ts } := by
  have hroster := congrArg Roster.heartbeats (Hub.roster_dropHeartbeat L.hub t)
  cases hx : L.hub.heartbeats[t]? with
  | none =>
    have hsame : L.hub.dropHeartbeat t = L.hub := by
      simp [Hub.dropHeartbeat, Hub.reapHeartbeat, Hub.modifyHeartbeat, hx,
        List.modify_eq_self (List.getElem?_eq_none_iff.mp hx)]
    rw [hsame]
    exact h
  | some x =>
    exact h.reap hp hx hroster (fun w hw => Or.inl hw) (Hub.reactor_dropHeartbeat hx)

theorem move (hm : Move L L') (hp : Paced L) (h : Lasting L) : Lasting L' := by
  have ho := hp.owned
  cases hm with
  | advance => exact h.same rfl rfl
  | refuse => exact h.same rfl rfl
  | refused hr =>
    rw [Manual.register_error hr]
    exact h.same rfl rfl
  | newHandler => exact h.same rfl rfl
  | dropHandler => exact h.same rfl rfl
  | newStrand => exact h.same rfl rfl
  | dropStrand => exact h.same rfl rfl
  | newEngine => exact h.same rfl rfl
  | dropEngine => exact h.same rfl rfl
  | newWatcher _ _ hn =>
    obtain ⟨r, m, hr, -, rfl⟩ := Hub.newWatcher_ok hn
    exact h.same (Manual.timed_register hr).1 rfl
  | @setInterest place i e ev =>
    exact h.same (Hub.timed_setInterest L.hub i e ev).1 (by simp)
  | retire => exact h.same rfl rfl
  | @dropWatcher place i ws =>
    exact h.same (Hub.timed_reapWatcher _ i) (by rw [Hub.roster_dropWatcher])
  | unasked => exact h.same rfl rfl
  | @newHeartbeat place s =>
    refine h.of_timed (fun w hw => hw) fun t hl => ?_
    rw [Hub.lasts_heartbeat] at hl ⊢
    obtain ⟨p, hx, ha⟩ := (Option.any_eq_true ..).mp hl
    rw [Hub.roster_newHeartbeat, List.getElem?_append_left (List.getElem?_eq_some_iff.mp hx).1, hx]
    exact ha
  | @setHeartbeat place t e interval hmem =>
    intro w hw b hb
    rw [Hub.lasts_congr (Hub.roster_setHeartbeat ..)]
    rcases Hub.timed_setHeartbeat hw with hw | ⟨b', hb', heq⟩
    · exact h w hw b hb
    · cases Option.mem_unique hb hb'
      rw [heq]
      exact lasts_of_mem ho hmem
  | stopHeartbeat =>
    refine h.of_timed (fun w => Hub.timed_stopHeartbeat) fun t hl => ?_
    rw [Hub.lasts_congr (Hub.roster_stopHeartbeat ..)]
    exact hl
  | dropHeartbeat => exact h.dropHeartbeat hp.punctual
  | enter => exact h.same rfl rfl
  | leave => exact h.same rfl rfl
  | takeReady ht =>
    obtain ⟨-, -, -, -, rfl⟩ := Manual.takeReady_some ht
    exact h.same rfl rfl
  | takeTimed ht =>
    obtain ⟨x, ts, -, hperm, rfl⟩ := Manual.takeTimed_some ht
    exact h.of_timed (fun w hw => hperm.mem_iff.mpr (List.mem_cons_of_mem x hw)) fun _ => id
  | takeParked => exact h.same rfl rfl
  | discard => exact h.same rfl rfl
  | @complete wait ws o =>
    have hreactor := Hub.reactor_begin L.hub wait.callback o
    refine h.of_timed (fun w hw => congrArg Manual.timed hreactor ▸ hw) fun t hl => ?_
    rw [Hub.lasts_begin]
    exact hl
  | register hr =>
    obtain ⟨-, rfl⟩ := Manual.register_ok hr
    exact h.same rfl rfl
  | armBare => exact h.same rfl rfl
  | release => exact h.same rfl rfl
  | newTimer => exact h.same rfl rfl
  | scheduleBare =>
    intro w hw b hb
    rcases List.mem_append.mp hw with hw | hw
    · exact h w (List.mem_of_mem_filter hw) b hb
    · rw [List.mem_singleton.mp hw] at hb
      cases hb
  | cancelBare => exact h.of_timed (fun w hw => List.mem_of_mem_filter hw) fun _ => id
  | dropTimer => exact h.of_timed (fun w hw => List.mem_of_mem_filter hw) fun _ => id

theorem finish (hp : Paced L) {call : Call} {cs : List Call} (hc : L.calls = call :: cs)
    (h : Lasting L) : Lasting (L.finish call cs) := by
  have hroster := Hub.roster_finish L.hub call
  cases howner : call.owner with
  | watcher i d =>
    refine h.same (Hub.timed_finish_of_watcher howner) ?_
    rw [Ledger.finish, hroster, Roster.modifyCall, howner]
    rfl
  | heartbeat t generation =>
    rw [Roster.modifyCall, howner] at hroster
    obtain ⟨x, hx⟩ := hp.inUse.exists_heartbeat hc howner
    obtain ⟨m, hreactor, hm⟩ := Hub.reactor_finish howner hx
    refine h.reap hp.punctual hx (congrArg Roster.heartbeats hroster) ?_ hreactor
    intro w hw
    rcases hm with rfl | ⟨deadline, interval, -, -, -, -, rfl⟩
    · exact Or.inl hw
    · rcases List.mem_append.mp hw with hw | hw
      · exact Or.inl (List.mem_of_mem_filter hw)
      · rw [List.mem_singleton.mp hw]
        exact Or.inr ⟨rfl, _, rfl, rfl⟩

theorem empty : Lasting (({} : World).ledger [] [] []) := nofun

end Lasting
end Ledger

namespace Config
open Ledger

theorem Reached.lasting {c : Config} {log : List Event} (h : Reached c log) :
    (c.ledger log).Lasting := by
  have hboth := h.keeps (P := fun L => L.Paced ∧ L.Lasting)
    (fun hm _ h => ⟨.move hm h.1, .move hm h.1 h.2⟩)
    (fun hc _ h => ⟨h.1.finish hc, .finish h.1 hc h.2⟩) ⟨.empty, .empty⟩
  exact hboth.2

end Config
end Scenario
end Wakeup
