import Wakeup.Proofs.Private
import Wakeup.Proofs.Wakeups

/-! Only what an engine asked for is wanted. A side of a watcher comes to be wanted when a mask with
its bit is accepted, and a watcher that a handler gave up is not wanted again. -/
namespace Wakeup

namespace Hub
variable {hub hub' : Hub Manual} {s i j : Nat} {fd : Fd} {d : Direction}

theorem wants_congr (h : hub'.side? i d = hub.side? i d) : hub'.wants i d = hub.wants i d := by
  rw [wants_eq, wants_eq, h]

theorem wants_newWatcher (h : hub.newWatcher s fd = (.ok i, hub')) (hw : hub'.wants j d = true) :
    hub.wants j d = true := by
  rw [wants_eq, side?_newWatcher h] at hw
  split at hw
  · cases hw
  · rwa [wants_eq]

theorem wants_setInterest {e : Nat} {ev : Events} (hw : (hub.setInterest i e ev).wants j d = true) :
    i = j ∧ ev.wants d = true ∨ i ≠ j ∧ hub.wants j d = true := by
  rw [wants_eq, side?_setInterest] at hw
  split at hw
  · rename_i hij
    rw [Option.any_map] at hw
    obtain ⟨x, -, hx⟩ := (Option.any_eq_true ..).mp hw
    exact Or.inl ⟨hij, hx⟩
  · rename_i hij
    rw [← wants_eq] at hw
    exact Or.inr ⟨hij, hw⟩

theorem wants_of_retire (hw : (hub.retire i).wants j d = true) : hub.wants j d = true := by
  rw [wants_eq, side?_retire] at hw
  split at hw
  · rw [Option.any_map] at hw
    obtain ⟨x, -, hx⟩ := (Option.any_eq_true ..).mp hw
    cases hx
  · rwa [wants_eq]

theorem wants_begin (hub : Hub Manual) (c : Callback) (o : Outcome) (j : Nat) (d : Direction) :
    (hub.begin c o).1.wants j d = hub.wants j d := by
  rw [wants_eq, wants_eq, side?_begin]
  split
  · rw [Option.any_map]
  · rfl

theorem wants_finish (hub : Hub Manual) (call : Call) (j : Nat) (d : Direction) :
    (hub.finish call).wants j d = hub.wants j d := by
  rw [wants_eq, wants_eq, side?_finish]
  split
  · rw [Option.any_map]
  · rfl

end Hub

namespace Scenario

/-- What a handler accepted that an engine asked of a descriptor. -/
def Event.asked? (s : Nat) (fd : Fd) : Event → Option Events
  | .monitored s' _ fd' mask => if s' = s ∧ fd' = fd then some mask else none
  | _ => none

/-- What a handler last accepted that an engine asked of a descriptor. -/
def lastAsked (s : Nat) (fd : Fd) (log : List Event) : Option Events :=
  log.findSome? (·.asked? s fd)

theorem asked?_of_ne {s s' e : Nat} {fd fd' : Fd} {mask : Events} (h : (s', fd') ≠ (s, fd)) :
    (Event.monitored s' e fd' mask).asked? s fd = none :=
  if_neg fun ⟨hs, hfd⟩ => h (Prod.ext hs hfd)

private theorem lastAsked_cons {s : Nat} {fd : Fd} {ev : Event} (h : ev.asked? s fd = none)
    (log : List Event) : lastAsked s fd (ev :: log) = lastAsked s fd log := by
  unfold lastAsked
  rw [List.findSome?_cons, h]

namespace Ledger
variable {L L' : Ledger} {i s : Nat} {fd : Fd} {d : Direction}

/-- A side that is wanted after a move was wanted before, and what was asked of the watcher is as it
was; or an engine asks for the side. -/
theorem Move.wants (hm : Move L L') (hp : Placed L) (hw : L'.hub.wants i d = true) :
    (L.hub.wants i d = true ∧ ∀ s fd, s ∈ L.handlers → (some (s, fd), i) ∈ L.watchers →
      (some (s, fd), i) ∈ L'.watchers ∧ lastAsked s fd L'.log = lastAsked s fd L.log) ∨
    ∃ place e ev, (place, i) ∈ L.watchers ∧ ev.wants d = true ∧ L'.watchers = L.watchers ∧
      L'.log = asked place e ev ++ L.log := by
  have hsame (hs : L'.hub.side? i d = L.hub.side? i d) : L.hub.wants i d = true :=
    (Hub.wants_congr hs).symm.trans hw
  cases hm with
  | newWatcher _ _ hn =>
    exact Or.inl ⟨Hub.wants_newWatcher hn hw,
      fun _ _ _ hmem => ⟨Multiset.mem_cons_of_mem hmem, rfl⟩⟩
  | @setInterest place j e ev hmem =>
    rcases Hub.wants_setInterest hw with ⟨rfl, hev⟩ | ⟨hne, hw⟩
    · exact Or.inr ⟨place, e, ev, hmem, hev, rfl, rfl⟩
    · refine Or.inl ⟨hw, fun s fd _ hmem' => ⟨hmem', ?_⟩⟩
      cases place with
      | none => rfl
      | some p =>
        refine lastAsked_cons (asked?_of_ne fun heq => ?_) L.log
        have hplace : p = (s, fd) := heq
        exact hne (hp _ j i (hplace ▸ hmem) hmem')
  | retire => exact Or.inl ⟨Hub.wants_of_retire hw, fun _ _ _ hmem => ⟨hmem, rfl⟩⟩
  | @dropWatcher place j ws hws hr =>
    have hw' := hsame (Hub.side?_dropWatcher _ _ _ _)
    refine Or.inl ⟨hw', fun s fd hs hmem => ⟨?_, rfl⟩⟩
    rw [hws] at hmem
    rcases Multiset.mem_cons.mp hmem with heq | hmem
    · -- the handler retired the watcher that it drops
      cases heq
      rw [hr _ rfl hs d] at hw'
      cases hw'
    · exact hmem
  | unasked s e fd hev hf =>
    refine Or.inl ⟨hw, fun s' fd' _ hmem => ⟨hmem, lastAsked_cons (asked?_of_ne ?_) L.log⟩⟩
    intro heq
    cases heq
    exact hf i hmem
  | @setHeartbeat place t e interval =>
    refine Or.inl ⟨hsame (Hub.side?_congr (Calm.setHeartbeat _ _ _ _).watchers _ _), ?_⟩
    intro s fd _ hmem
    cases place <;> exact ⟨hmem, rfl⟩
  | stopHeartbeat =>
    exact Or.inl ⟨hsame (Hub.side?_congr (Calm.stopHeartbeat _ _).watchers _ _),
      fun _ _ _ hmem => ⟨hmem, rfl⟩⟩
  | dropHeartbeat =>
    exact Or.inl ⟨hsame (Hub.side?_congr (Calm.dropHeartbeat _ _).watchers _ _),
      fun _ _ _ hmem => ⟨hmem, rfl⟩⟩
  | complete =>
    exact Or.inl ⟨(Hub.wants_begin _ _ _ _ _).symm.trans hw, fun _ _ _ hmem => ⟨hmem, rfl⟩⟩
  | _ => exact Or.inl ⟨hw, fun _ _ _ hmem => ⟨hmem, rfl⟩⟩

/-- A watcher that there was has the title that it had. -/
theorem title_of_makes (hm : Makes L L') (ho : Owned L) {x : Registration × Nat}
    (hx : L'.hub.roster.watched[i]? = some x)
    (hold : L.hub.wants i d = true ∨ i ∈ L.watchers.map (·.2)) :
    L.hub.roster.watched[i]? = some x := by
  have hlt : i < L.hub.roster.watched.length := by
    rcases hold with hw | hmem
    · obtain ⟨y, hy, -⟩ := (Option.any_eq_true ..).mp hw
      rw [Hub.roster, List.length_map]
      exact (List.getElem?_eq_some_iff.mp hy).1
    · rw [ho.watchers.length_eq]
      exact ho.watchers.holds.lt hmem
  have hy := List.getElem?_eq_getElem hlt
  have hkept := getElem?_of_prefix (watched_of_makes hm) hy
  rw [hy, ← hkept, hx]

/-- Of the watchers of handlers that are alive, only those are wanted that are held, in directions
for which they were last asked. -/
def Granted (L : Ledger) : Prop :=
  ∀ i r s d, L.hub.roster.watched[i]? = some (r, s) → s ∈ L.handlers → L.hub.wants i d = true →
    (some (s, r.fd), i) ∈ L.watchers ∧
      ∃ mask, lastAsked s r.fd L.log = some mask ∧ mask.wants d = true

namespace Granted

theorem move (hm : Move L L') (ho : Owned L) (hp : Placed L) (h : Granted L) : Granted L' := by
  intro i r s d hx hs hw
  have hcases := hm.wants hp hw
  have hx' : L.hub.roster.watched[i]? = some (r, s) := by
    refine title_of_makes hm.makes ho hx (hcases.imp And.left ?_)
    rintro ⟨place, -, -, hmem, -⟩
    exact Multiset.mem_map_of_mem (·.2) hmem
  have hs' : s ∈ L.handlers := by
    refine (handlers_of_makes hm.makes hs).resolve_right fun heq => ?_
    have hlt := ho.watchers.strand_lt _ (List.mem_of_getElem? hx')
    exact hlt.ne heq
  rcases hcases with ⟨hw', hkeep⟩ | ⟨place, e, ev, hmem, hev, hwatchers, hlog⟩
  · obtain ⟨hheld, hlast⟩ := h i r s d hx' hs' hw'
    obtain ⟨hheld', heq⟩ := hkeep s r.fd hs' hheld
    rw [heq]
    exact ⟨hheld', hlast⟩
  · rw [hwatchers, hlog]
    cases place with
    | none => exact absurd hs' (ho.watchers.alone hmem _ hx')
    | some p =>
      obtain ⟨hfd, hs''⟩ := ho.watchers.placed hmem _ hx'
      have hplace : p = (s, r.fd) := Prod.ext hs''.symm hfd.symm
      subst hplace
      refine ⟨hmem, ev, ?_, hev⟩
      simp [lastAsked, asked, Event.asked?]

theorem finish (ho : Owned L) (h : Granted L) (call : Call) (cs : List Call) :
    Granted (L.finish call cs) := by
  intro i r s d hx hs hw
  have hw' : L.hub.wants i d = true := (Hub.wants_finish L.hub call i d).symm.trans hw
  exact h i r s d (title_of_makes (makes_finish L call cs) ho hx (Or.inl hw')) hs hw'

theorem empty : Granted (({} : World).ledger [] [] []) :=
  fun _ _ _ _ _ hs => absurd hs (Multiset.notMem_zero _)

end Granted

/-- A direction of a descriptor is not wanted by any watcher for it of a strand. -/
def Unwanted (s : Nat) (fd : Fd) (d : Direction) (L : Ledger) : Prop :=
  ∀ i r, L.hub.roster.watched[i]? = some (r, s) → r.fd = fd → L.hub.wants i d = false

namespace Unwanted

/-- What is not wanted stays so until the handler is asked for it. -/
theorem move (hm : Move L L') (ho : Owned L) (hp : Placed L) (hs : Private s false L)
    (h : Unwanted s fd d L) :
    Unwanted s fd d L' ∨ ∃ ev, ev.asks s fd d = true ∧ L'.log = ev :: L.log := by
  by_contra hnot
  rw [not_or] at hnot
  obtain ⟨hwanted, hnone⟩ := hnot
  refine hwanted fun i r hx hfd => ?_
  rw [← Bool.not_eq_true]
  intro hw
  rcases hm.wants hp hw with ⟨hw', -⟩ | ⟨place, e, ev, hmem, hev, -, hlog⟩
  · have hfalse := h i r (title_of_makes hm.makes ho hx (Or.inl hw')) hfd
    rw [hw'] at hfalse
    cases hfalse
  · have hx' := title_of_makes (d := d) hm.makes ho hx
      (Or.inr (Multiset.mem_map_of_mem (·.2) hmem))
    cases place with
    | none => exact hs.watchers _ hmem (Or.inl rfl) _ hx' rfl
    | some p =>
      obtain ⟨hfd', hs'⟩ := ho.watchers.placed hmem _ hx'
      refine hnone ⟨_, ?_, hlog⟩
      have hp₁ : p.1 = s := hs'.symm
      have hp₂ : p.2 = fd := hfd'.symm.trans hfd
      simp [Event.asks, hp₁, hp₂, hev]

theorem finish (ho : Owned L) (h : Unwanted s fd d L) (call : Call) (cs : List Call) :
    Unwanted s fd d (L.finish call cs) := by
  intro i r hx hfd
  rw [← Bool.not_eq_true]
  intro hw
  have hw' : L.hub.wants i d = true := (Hub.wants_finish L.hub call i d).symm.trans hw
  have hfalse := h i r (title_of_makes (makes_finish L call cs) ho hx (Or.inl hw')) hfd
  rw [hw'] at hfalse
  cases hfalse

end Unwanted

/-- A watcher that no one holds and that is not wanted. -/
structure Retired (i : Nat) (L : Ledger) : Prop where
  lt : i < L.hub.roster.watched.length
  free : i ∉ L.watchers.map (·.2)
  unwanted : ∀ d, L.hub.wants i d = false

namespace Retired

theorem move (hm : Move L L') (ho : Owned L) (hp : Placed L) (h : Retired i L) : Retired i L' := by
  constructor
  · exact h.lt.trans_le (watched_of_makes hm.makes).length_le
  · intro hmem
    have heq := (watcher_of_makes hm.makes hmem).resolve_left h.free
    have hlt := h.lt
    rw [ho.watchers.length_eq] at hlt
    exact hlt.ne heq
  · intro d
    rw [← Bool.not_eq_true]
    intro hw
    rcases hm.wants hp hw with ⟨hw', -⟩ | ⟨place, e, ev, hmem, -⟩
    · rw [h.unwanted d] at hw'
      cases hw'
    · exact h.free (Multiset.mem_map_of_mem (·.2) hmem)

theorem finish (h : Retired i L) (call : Call) (cs : List Call) : Retired i (L.finish call cs) := by
  constructor
  · exact h.lt.trans_le (watched_of_makes (makes_finish L call cs)).length_le
  · exact h.free
  · exact fun d => (Hub.wants_finish L.hub call i d).trans (h.unwanted d)

/-- The end of a call for a watcher that is retired arms no wait. -/
theorem not_rearms (h : Retired i L) {call : Call} (howner : call.owner.part = .watcher i) :
    L.hub.rearms call = false := by
  obtain ⟨owner, s, e, notice⟩ := call
  cases owner with
  | heartbeat t generation => cases howner
  | watcher j d =>
    cases howner
    have hunwanted := h.unwanted d
    cases notice with
    | heartbeat => rfl
    | waitError => rfl
    | process fd ev =>
      unfold Hub.wants at hunwanted
      change (L.hub.watchers[i]?.any fun x => (x.sides.get d).wanted &&
        !(x.sides.get d).pending) = false
      cases hx : L.hub.watchers[i]? with
      | none => rfl
      | some x =>
        rw [hx, Option.any_some] at hunwanted
        rw [Option.any_some, hunwanted]
        rfl

end Retired

/-- A watcher has no wait with a ticket from some number on. -/
def Unarmed (i n : Nat) (L : Ledger) : Prop :=
  ∀ w, L.HasWait w → n ≤ w.ticket → w.callback.part? ≠ some (.watcher i)

namespace Unarmed
variable {n : Nat}

theorem move (hm : Move L L') (hi : Retired i L) (h : Unarmed i n L) : Unarmed i n L' := by
  intro w hw hn hpart
  rcases hm.armed.waits w hw with hw | ⟨-, -, hheld⟩
  · exact h w hw hn hpart
  · rcases Multiset.mem_add.mp (hheld _ hpart) with hmem | hmem
    · obtain ⟨e, he, heq⟩ := Multiset.mem_map.mp hmem
      cases heq
      exact hi.free (Multiset.mem_map_of_mem (·.2) he)
    · obtain ⟨_, -, heq⟩ := Multiset.mem_map.mp hmem
      cases heq

theorem finish (hi : Retired i L) (h : Unarmed i n L) (call : Call) (cs : List Call) :
    Unarmed i n (L.finish call cs) := by
  intro w hw hn hpart
  rcases L.waits_finish call cs with ⟨-, hwaits, -⟩ | ⟨hy, c, hpart', -, hwaits⟩
  · exact h w ((hwaits w).mp hw) hn hpart
  · rcases (hwaits w).mp hw with hw | rfl
    · exact h w hw hn hpart
    · rw [hi.not_rearms (Option.some.inj (hpart'.symm.trans hpart))] at hy
      cases hy

end Unarmed

end Ledger
end Scenario
end Wakeup
