import Wakeup.Proofs.Ownership

/-! Things are in use exactly as often as calls and dispatches in progress use them. -/
namespace Wakeup

theorem getElem?_of_prefix {α : Type} {l l' : List α} (h : l <+: l') {i : Nat} {a : α}
    (ha : l[i]? = some a) : l'[i]? = some a := by
  obtain ⟨r, rfl⟩ := h
  obtain ⟨hi, -⟩ := List.getElem?_eq_some_iff.mp ha
  rw [List.getElem?_append_left hi, ha]

/-- How often a thing is in use. -/
def usesOf (l : List Presence) (i : Nat) : Nat := l[i]?.elim 0 (·.uses)

section Uses
variable {l : List Presence}

theorem usesOf_push (l : List Presence) (i : Nat) :
    usesOf (l ++ [({} : Presence)]) i = usesOf l i := by
  unfold usesOf
  rw [List.getElem?_append]
  split
  · rfl
  · rename_i hi
    rw [List.getElem?_eq_none (not_lt.mp hi)]
    cases i - l.length <;> rfl

theorem usesOf_disown (l : List Presence) (i j : Nat) :
    usesOf (l.modify i .disown) j = usesOf l j := by
  unfold usesOf
  rw [List.getElem?_modify]
  cases l[j]? with
  | none => rfl
  | some p => by_cases hij : i = j <;> simp [hij, Presence.disown]

theorem usesOf_acquire {i : Nat} (hi : i < l.length) (j : Nat) :
    usesOf (l.modify i .acquire) j = usesOf l j + if i = j then 1 else 0 := by
  unfold usesOf
  rw [List.getElem?_modify]
  by_cases hij : i = j
  · subst hij
    rw [List.getElem?_eq_getElem hi]
    simp [Presence.acquire]
  · cases l[j]? <;> simp [hij]

theorem usesOf_release (l : List Presence) (i j : Nat) :
    usesOf (l.modify i .release) j = usesOf l j - if i = j then 1 else 0 := by
  unfold usesOf
  rw [List.getElem?_modify]
  by_cases hij : i = j
  · subst hij
    cases l[i]? <;> simp [Presence.release]
  · cases l[j]? <;> simp [hij]

end Uses

namespace Owner

def isWatcher (i : Nat) : Owner → Bool
  | .watcher w _ => w == i
  | .heartbeat _ _ => false

def isHeartbeat (t : Nat) : Owner → Bool
  | .watcher _ _ => false
  | .heartbeat x _ => x == t

end Owner

/-- The strand to which the owner of a call belongs. -/
def Roster.strandOf? (R : Roster) : Owner → Option Nat
  | .watcher w _ => R.watched[w]?.map (·.2)
  | .heartbeat t _ => R.timed[t]?.map (·.2)

namespace Hub
variable {hub : Hub Manual} {call call' : Call}

theorem startCall_eq_some (h : (hub.startCall call).2 = some call') : call = call' := by
  unfold startCall at h
  split at h
  · exact Option.some.inj h
  · cases h

theorem strandOf?_begin {c : Callback} {o : Outcome} (h : (hub.begin c o).2 = some call) :
    hub.roster.strandOf? call.owner = some call.strand := by
  cases c with
  | bare tag => cases h
  | ready w d e =>
    simp only [begin, beginReady] at h
    split at h
    · cases h
    · rename_i x hx
      have hstrand : hub.roster.watched[w]?.map (·.2) = some x.strand := by simp [roster, hx]
      repeat' split at h
      all_goals first
        | cases h
        | exact startCall_eq_some h ▸ hstrand
  | beat t generation e =>
    simp only [begin, beginBeat] at h
    split at h
    · cases h
    · rename_i x hx
      have hstrand : hub.roster.timed[t]?.map (·.2) = some x.strand := by simp [roster, hx]
      repeat' split at h
      all_goals first
        | cases h
        | exact startCall_eq_some h ▸ hstrand

end Hub

namespace Scenario
open Config

namespace Ledger

structure InUse (L : Ledger) : Prop where
  strands : ∀ s, usesOf L.hub.roster.strands s =
    L.calls.countP (·.strand = s) + L.inside.count s
  watchers : ∀ i, usesOf L.hub.roster.watchers i = L.calls.countP (·.owner.isWatcher i)
  heartbeats : ∀ t, usesOf L.hub.roster.heartbeats t = L.calls.countP (·.owner.isHeartbeat t)
  strandOf?_owner : ∀ call ∈ L.calls, L.hub.roster.strandOf? call.owner = some call.strand

namespace InUse
variable {L L' : Ledger}

/-- What is kept does not matter, nor what is new. -/
theorem of_uses (h : InUse L) (hc : L'.calls = L.calls) (hi : L'.inside = L.inside)
    (hs : ∀ s, usesOf L'.hub.roster.strands s = usesOf L.hub.roster.strands s)
    (hw : ∀ i, usesOf L'.hub.roster.watchers i = usesOf L.hub.roster.watchers i)
    (hb : ∀ t, usesOf L'.hub.roster.heartbeats t = usesOf L.hub.roster.heartbeats t)
    (hwd : L.hub.roster.watched <+: L'.hub.roster.watched)
    (htd : L.hub.roster.timed <+: L'.hub.roster.timed) : InUse L' := by
  constructor
  · intro s
    rw [hs, hc, hi]
    exact h.strands s
  · intro i
    rw [hw, hc]
    exact h.watchers i
  · intro t
    rw [hb, hc]
    exact h.heartbeats t
  · intro call hcall
    rw [hc] at hcall
    have hold := h.strandOf?_owner call hcall
    obtain ⟨owner, s, e, notice⟩ := call
    cases owner with
    | watcher w d =>
      obtain ⟨x, hx, heq⟩ := Option.map_eq_some_iff.mp hold
      exact Option.map_eq_some_iff.mpr ⟨x, getElem?_of_prefix hwd hx, heq⟩
    | heartbeat t generation =>
      obtain ⟨x, hx, heq⟩ := Option.map_eq_some_iff.mp hold
      exact Option.map_eq_some_iff.mpr ⟨x, getElem?_of_prefix htd hx, heq⟩

theorem of_roster (h : InUse L) (hr : L'.hub.roster = L.hub.roster) (hc : L'.calls = L.calls)
    (hi : L'.inside = L.inside) : InUse L' := by
  refine h.of_uses hc hi ?_ ?_ ?_ ?_ ?_ <;> simp [hr]

private theorem enter (h : InUse L) {s : Nat} (hs : s < L.hub.roster.strands.length) :
    InUse { L with hub := L.hub.enterStrand s, inside := s ::ₘ L.inside } := by
  refine { h with strands := ?_ }
  intro s'
  have huses := usesOf_acquire hs s'
  rw [h.strands s'] at huses
  rw [Hub.enterStrand, Hub.roster_modifyStrand, huses, Multiset.count_cons]
  simp only [eq_comm, add_assoc]

private theorem leave (h : InUse L) {s : Nat} {ss : Multiset Nat} (hs : L.inside = s ::ₘ ss) :
    InUse { L with hub := L.hub.leaveStrand s, inside := ss } := by
  refine { h with strands := ?_ }
  intro s'
  have huses := usesOf_release L.hub.roster.strands s s'
  rw [h.strands s', hs, Multiset.count_cons] at huses
  rw [Hub.leaveStrand, Hub.roster_modifyStrand, huses]
  by_cases heq : s = s'
  · simp only [heq, if_true]
    omega
  · have hne : ¬s' = s := fun h' => heq h'.symm
    simp only [heq, hne, if_false]
    omega

private theorem lt_of_strandOf? (ho : Owned L) {call : Call}
    (hs : L.hub.roster.strandOf? call.owner = some call.strand) :
    call.strand < L.hub.roster.strands.length ∧
      match call.owner with
      | .watcher w _ => w < L.hub.roster.watchers.length
      | .heartbeat t _ => t < L.hub.roster.heartbeats.length := by
  obtain ⟨owner, s, e, notice⟩ := call
  cases owner with
  | watcher w d =>
    obtain ⟨x, hx, heq⟩ := Option.map_eq_some_iff.mp hs
    subst heq
    obtain ⟨hlt, -⟩ := List.getElem?_eq_some_iff.mp hx
    exact ⟨ho.watchers.strand_lt x (List.mem_of_getElem? hx), ho.watchers.length_eq ▸ hlt⟩
  | heartbeat t generation =>
    obtain ⟨x, hx, heq⟩ := Option.map_eq_some_iff.mp hs
    subst heq
    obtain ⟨hlt, -⟩ := List.getElem?_eq_some_iff.mp hx
    exact ⟨ho.heartbeats.strand_lt x (List.mem_of_getElem? hx), ho.heartbeats.length_eq ▸ hlt⟩

theorem strandOf?_modifyCall (R : Roster) (call : Call) (f : Presence → Presence) (o : Owner) :
    (R.modifyCall call f).strandOf? o = R.strandOf? o := by
  obtain ⟨owner, s, e, notice⟩ := call
  cases owner <;> cases o <;> rfl

private theorem begin_call (h : InUse L) (ho : Owned L) {call : Call}
    (hs : L.hub.roster.strandOf? call.owner = some call.strand)
    (hr : L'.hub.roster = L.hub.roster.modifyCall call .acquire)
    (hc : L'.calls = call :: L.calls) (hi : L'.inside = L.inside) : InUse L' := by
  obtain ⟨hlt, howner⟩ := lt_of_strandOf? ho hs
  constructor
  · intro s
    have huses := usesOf_acquire hlt s
    rw [h.strands s] at huses
    rw [hr, hc, hi, List.countP_cons, Roster.modifyCall]
    dsimp only
    rw [huses]
    by_cases heq : call.strand = s <;> simp [heq]
    omega
  · intro i
    rw [hr, hc, List.countP_cons]
    obtain ⟨owner, s, e, notice⟩ := call
    cases owner with
    | watcher w d =>
      have huses := usesOf_acquire howner i
      rw [h.watchers i] at huses
      simpa [Roster.modifyCall, Roster.modifyOwner, Owner.isWatcher] using huses
    | heartbeat t generation =>
      simpa [Roster.modifyCall, Roster.modifyOwner, Owner.isWatcher] using h.watchers i
  · intro t
    rw [hr, hc, List.countP_cons]
    obtain ⟨owner, s, e, notice⟩ := call
    cases owner with
    | watcher w d =>
      simpa [Roster.modifyCall, Roster.modifyOwner, Owner.isHeartbeat] using h.heartbeats t
    | heartbeat x generation =>
      have huses := usesOf_acquire howner t
      rw [h.heartbeats t] at huses
      simpa [Roster.modifyCall, Roster.modifyOwner, Owner.isHeartbeat] using huses
  · intro call' hcall
    rw [hr, strandOf?_modifyCall]
    rw [hc] at hcall
    rcases List.mem_cons.mp hcall with rfl | hcall
    · exact hs
    · exact h.strandOf?_owner call' hcall

theorem finish (h : InUse L) {call : Call} {cs : List Call} (hcalls : L.calls = call :: cs) :
    InUse (L.finish call cs) := by
  have hr := Hub.roster_finish L.hub call
  unfold Ledger.finish
  constructor
  · intro s
    have huses := usesOf_release L.hub.roster.strands call.strand s
    rw [h.strands s, hcalls, List.countP_cons] at huses
    rw [hr, Roster.modifyCall]
    dsimp only
    rw [huses]
    by_cases heq : call.strand = s <;> simp [heq]
  · intro i
    have hold := h.watchers i
    rw [hcalls, List.countP_cons] at hold
    rw [hr]
    obtain ⟨owner, s, e, notice⟩ := call
    cases owner with
    | watcher w d =>
      have huses := usesOf_release L.hub.roster.watchers w i
      rw [hold] at huses
      simpa [Roster.modifyCall, Roster.modifyOwner, Owner.isWatcher] using huses
    | heartbeat t generation =>
      simpa [Roster.modifyCall, Roster.modifyOwner, Owner.isWatcher] using hold
  · intro t
    have hold := h.heartbeats t
    rw [hcalls, List.countP_cons] at hold
    rw [hr]
    obtain ⟨owner, s, e, notice⟩ := call
    cases owner with
    | watcher w d =>
      simpa [Roster.modifyCall, Roster.modifyOwner, Owner.isHeartbeat] using hold
    | heartbeat x generation =>
      have huses := usesOf_release L.hub.roster.heartbeats x t
      rw [hold] at huses
      simpa [Roster.modifyCall, Roster.modifyOwner, Owner.isHeartbeat] using huses
  · intro call' hcall
    rw [hr, strandOf?_modifyCall]
    exact h.strandOf?_owner call' (hcalls ▸ List.mem_cons_of_mem call hcall)

private theorem complete (h : InUse L) (ho : Owned L) (wait : Wait) (o : Outcome)
    (ws : Multiset Wait) (log : List Event) :
    InUse { L with
      hub := (L.hub.begin wait.callback o).1
      kept := ws
      calls := (L.hub.begin wait.callback o).2.toList ++ L.calls
      log := log } := by
  have hr := Hub.roster_begin L.hub wait.callback o
  cases hcall : (L.hub.begin wait.callback o).2 with
  | none =>
    rw [hcall] at hr
    exact h.of_roster hr rfl rfl
  | some call =>
    rw [hcall] at hr
    exact h.begin_call ho (Hub.strandOf?_begin hcall) hr rfl rfl

theorem move (hm : Move L L') (ho : Owned L) (h : InUse L) : InUse L' := by
  cases hm with
  | advance => exact h.of_roster rfl rfl rfl
  | refuse => exact h.of_roster rfl rfl rfl
  | refused hr =>
    rw [Manual.register_error hr]
    exact h.of_roster rfl rfl rfl
  | newHandler =>
    exact h.of_uses rfl rfl (usesOf_push _) (fun _ => rfl) (fun _ => rfl) List.prefix_rfl
      List.prefix_rfl
  | dropHandler =>
    exact h.of_uses rfl rfl (usesOf_disown _ _) (fun _ => rfl) (fun _ => rfl) List.prefix_rfl
      List.prefix_rfl
  | newStrand =>
    exact h.of_uses rfl rfl (usesOf_push _) (fun _ => rfl) (fun _ => rfl) List.prefix_rfl
      List.prefix_rfl
  | dropStrand =>
    exact h.of_uses rfl rfl (usesOf_disown _ _) (fun _ => rfl) (fun _ => rfl) List.prefix_rfl
      List.prefix_rfl
  | newEngine => exact h.of_roster rfl rfl rfl
  | dropEngine => exact h.of_roster rfl rfl rfl
  | newWatcher hp hf hn =>
    obtain ⟨-, hr⟩ := Hub.roster_newWatcher hn
    exact h.of_uses rfl rfl (by simp [hr]) (by simp [hr, usesOf_push]) (by simp [hr])
      (by simp [hr]) (by simp [hr])
  | setInterest => exact h.of_roster (by simp) rfl rfl
  | retire => exact h.of_roster (by simp) rfl rfl
  | @dropWatcher place i ws hw =>
    have hr := Hub.roster_dropWatcher L.hub i
    exact h.of_uses rfl rfl (by simp [hr]) (by simp [hr, usesOf_disown]) (by simp [hr])
      (by simp [hr]) (by simp [hr])
  | unasked => exact h.of_roster rfl rfl rfl
  | @newHeartbeat place s hp =>
    have hr := Hub.roster_newHeartbeat L.hub s
    exact h.of_uses rfl rfl (by simp [hr]) (by simp [hr]) (by simp [hr, usesOf_push])
      (by simp [hr]) (by simp [hr])
  | setHeartbeat => exact h.of_roster (by simp) rfl rfl
  | stopHeartbeat => exact h.of_roster (by simp) rfl rfl
  | @dropHeartbeat place t ts hb =>
    have hr := Hub.roster_dropHeartbeat L.hub t
    exact h.of_uses rfl rfl (by simp [hr]) (by simp [hr]) (by simp [hr, usesOf_disown])
      (by simp [hr]) (by simp [hr])
  | enter hs => exact h.enter (ho.strand_lt (Or.inl hs))
  | leave hs => exact h.leave hs
  | takeReady ht =>
    obtain ⟨-, -, -, -, rfl⟩ := Manual.takeReady_some ht
    exact h.of_roster rfl rfl rfl
  | takeTimed ht =>
    obtain ⟨-, -, -, -, rfl⟩ := Manual.takeTimed_some ht
    exact h.of_roster rfl rfl rfl
  | takeParked => exact h.of_roster rfl rfl rfl
  | discard => exact h.of_roster rfl rfl rfl
  | complete o => exact h.complete ho _ o _ _
  | register hr =>
    have hroster := (Manual.register_ok hr).2
    subst hroster
    exact h.of_uses rfl rfl (fun _ => rfl) (fun _ => rfl) (fun _ => rfl) List.prefix_rfl
      List.prefix_rfl
  | armBare => exact h.of_roster rfl rfl rfl
  | release => exact h.of_roster rfl rfl rfl
  | newTimer =>
    exact h.of_uses rfl rfl (fun _ => rfl) (fun _ => rfl) (fun _ => rfl) List.prefix_rfl
      List.prefix_rfl
  | scheduleBare => exact h.of_roster rfl rfl rfl
  | cancelBare => exact h.of_roster rfl rfl rfl
  | dropTimer => exact h.of_roster rfl rfl rfl

/-- A strand lasts while a call is made inside it. -/
theorem strandAlive_of_mem (h : InUse L) {call : Call} (hcall : call ∈ L.calls) :
    L.hub.strandAlive call.strand = true := by
  have huses := h.strands call.strand
  have hpos : 0 < L.calls.countP (·.strand = call.strand) :=
    List.countP_pos_iff.mpr ⟨call, hcall, by simp⟩
  change L.hub.strands[call.strand]?.elim 0 (·.uses) = _ at huses
  unfold Hub.strandAlive
  cases hx : L.hub.strands[call.strand]? with
  | none =>
    rw [hx, Option.elim_none] at huses
    omega
  | some x =>
    rw [hx, Option.elim_some] at huses
    have hne : x.uses ≠ 0 := by omega
    simp [Presence.alive, Presence.inUse, hne]

theorem empty : InUse (({} : World).ledger [] [] []) where
  strands := fun _ => rfl
  watchers := fun _ => rfl
  heartbeats := fun _ => rfl
  strandOf?_owner := fun _ hcall => absurd hcall List.not_mem_nil

end InUse

/-- What is held lasts, and so does what a call uses. -/
theorem alive_iff_of_holds {names : Multiset Nat} {l : List Presence} {i : Nat} {calls : List Call}
    {uses : Call → Bool} (hk : Holds names l) (hu : usesOf l i = calls.countP uses) :
    l[i]?.any Presence.alive = true ↔ i ∈ names ∨ ∃ call ∈ calls, uses call = true := by
  rw [hk.mem_iff, ← List.countP_pos_iff, ← hu, usesOf]
  cases l[i]? with
  | none => simp
  | some p => simp [Presence.alive, Presence.inUse, Nat.pos_iff_ne_zero]

/-- A watcher lasts as long as it is held or a call of its own is in progress. -/
theorem alive_watcher_iff {L : Ledger} (ho : Owned L) (hu : InUse L) (i : Nat) :
    L.hub.roster.watchers[i]?.any Presence.alive = true ↔
      i ∈ L.watchers.map (·.2) ∨ ∃ call ∈ L.calls, call.owner.isWatcher i = true :=
  alive_iff_of_holds ho.watchers.holds (hu.watchers i)

/-- A heartbeat lasts as long as it is held or a call of its own is in progress. -/
theorem alive_heartbeat_iff {L : Ledger} (ho : Owned L) (hu : InUse L) (t : Nat) :
    L.hub.roster.heartbeats[t]?.any Presence.alive = true ↔
      t ∈ L.heartbeats.map (·.2) ∨ ∃ call ∈ L.calls, call.owner.isHeartbeat t = true :=
  alive_iff_of_holds ho.heartbeats.holds (hu.heartbeats t)

end Ledger

namespace Config

/-- At every point of every run, things are in use as often as calls and dispatches use them. -/
theorem Reached.inUse {c : Config} {log : List Event} (h : Reached c log) :
    (c.ledger log).InUse :=
  h.keeps .move (fun hc _ h => h.finish hc) .empty

end Config
end Scenario
end Wakeup
