import Wakeup.Proofs.Engines
import Wakeup.Proofs.Teardown

/-! For whom a wait is armed. An engine that asks for a direction for which no wait is outstanding
is the one for which a wait is armed, and those that follow are armed for it too. -/
namespace Wakeup

/-- Whether a callback is what is armed again after a call. -/
def Call.Repeats (call : Call) (c : Callback) : Prop :=
  match call.owner with
  | .watcher i d => c = .ready i d call.engine
  | .heartbeat t _ => c.part? = some (.heartbeat t)

namespace Hub
open Manual
variable {hub : Hub Manual}

/-- Whether a wait for a direction of a watcher is outstanding. -/
def isPending (hub : Hub Manual) (i : Nat) (d : Direction) : Bool :=
  (hub.side? i d).any (·.pending)

theorem isPending_congr {hub' : Hub Manual} {i : Nat} {d : Direction}
    (h : hub'.side? i d = hub.side? i d) : hub'.isPending i d = hub.isPending i d := by
  unfold isPending
  rw [h]

theorem arms_armSide_ready (hub : Hub Manual) (i : Nat) (d : Direction) (e : Nat) :
    Arms (fun c => c = .ready i d e ∧ hub.isPending i d = false) hub.reactor
      (hub.armSide i d e).reactor := by
  unfold armSide
  split
  · exact .refl _
  · rename_i x hx
    split
    · exact .refl _
    · rename_i hp
      refine (Arms.arm _ _ d (.ready i d e)).mono fun c hc => ⟨hc, ?_⟩
      have hside : hub.side? i d = some (x.sides.get d) := by simp [side?, hx]
      rw [isPending, hside]
      simpa using hp

theorem arms_setSide_ready (hub : Hub Manual) (i e : Nat) (d : Direction) (wanted : Bool) :
    Arms (fun c => c = .ready i d e ∧ wanted = true ∧ hub.isPending i d = false) hub.reactor
      (hub.setSide i e d wanted).reactor := by
  unfold setSide
  cases wanted with
  | false => exact .refl _
  | true =>
    refine (arms_armSide_ready (hub.modifySide i d _) i d e).mono fun c ⟨hc, hp⟩ => ⟨hc, rfl, ?_⟩
    rw [isPending, side?_modifySide, if_pos ⟨rfl, rfl⟩, Option.any_map] at hp
    exact hp

/-- What is armed for an engine that asks for interest: waits for directions that it asks for and
that have none. -/
theorem arms_setInterest_ready (hub : Hub Manual) (i e : Nat) (ev : Events) :
    Arms (fun c => ∃ d, c = .ready i d e ∧ ev.wants d = true ∧ hub.isPending i d = false)
      hub.reactor (hub.setInterest i e ev).reactor := by
  refine .trans ((arms_setSide_ready hub i e .read (ev.wants .read)).mono fun c hc => ⟨.read, hc⟩)
    ((arms_setSide_ready _ i e .write (ev.wants .write)).mono ?_)
  rintro c ⟨hc, hw, hp⟩
  refine ⟨.write, hc, hw, ?_⟩
  rwa [isPending_congr ((side?_setSide hub i e .read _ i .write).trans (if_neg (by simp)))] at hp

theorem arms_resume (hub : Hub Manual) (call : Call) :
    Arms (fun c => hub.rearms call = true ∧ call.Repeats c) hub.reactor
      (hub.resume call).reactor := by
  obtain ⟨owner, s, e, notice⟩ := call
  cases owner with
  | watcher i d =>
    cases notice with
    | heartbeat => exact .refl _
    | waitError => exact .refl _
    | process fd ev =>
      simp only [resume]
      split
      · rename_i hw
        refine (arms_armSide_ready hub i d e).mono fun c h => ?_
        obtain ⟨hc, hp⟩ := h
        refine ⟨?_, hc⟩
        unfold isPending side? at hp
        unfold wants at hw
        unfold rearms
        dsimp only
        cases hx : hub.watchers[i]? with
        | none =>
          rw [hx] at hw
          cases hw
        | some x =>
          rw [hx] at hw hp
          rw [Option.map_some, Option.any_some] at hp
          rw [Option.any_some] at hw ⊢
          rw [hw, hp]
          rfl
      · exact .refl _
  | heartbeat t generation =>
    cases notice with
    | process => exact .refl _
    | waitError => exact .refl _
    | heartbeat =>
      rcases hub.waits_resume ⟨.heartbeat t generation, s, e, .heartbeat⟩ with
        ⟨hr, -⟩ | ⟨hy, c, hc, htickets, hwaits⟩
      · exact .of_eq hr
      · exact (Arms.of_new htickets fun w hw => (hwaits w).mp hw).mono
          fun c' hc' => ⟨hy, hc' ▸ hc⟩

end Hub

namespace Scenario

/-- Whether a wait for a direction of a watcher completed other than ready. -/
def Event.breaks (i : Nat) (d : Direction) : Event → Bool
  | .completed w o _ => w.callback.claims i d && Verdict.of o != .proceed
  | _ => false

namespace Ledger
variable {L L' : Ledger} {i : Nat} {d : Direction}

/-- Of a side of which no wait is accounted for there is none. -/
theorem Waits.not_claims_of (hw : Waits L)
    (hzero : claims L.hub.reactor.ready L.kept L.log i d = 0)
    (halive : ∀ p, L.hub.posts[i]? = some p → p.alive = true) {w : Wait} (h : L.HasWait w) :
    w.callback.claims i d = false := by
  rw [← Bool.not_eq_true]
  intro hc
  have hready : L.hub.reactor.ready.countP (·.wait.callback.claims i d) = 0 := by
    unfold claims at hzero
    omega
  have hkept : L.kept.countP (·.callback.claims i d = true) = 0 := by
    unfold claims at hzero
    omega
  rcases h with h | h
  · rcases Manual.mem_waits.mp h with ⟨r, hr, rfl⟩ | ⟨t, ht, rfl⟩ | hp
    · exact List.countP_eq_zero.mp hready r hr hc
    · have hidle := Waiting.timed hw t ht
      rw [hidle i d] at hc
      cases hc
    · obtain ⟨p, hp, hdead⟩ := Waiting.parked hw w hp i d hc
      rw [halive p hp] at hdead
      cases hdead
  · exact Multiset.countP_eq_zero.mp hkept w h hc

/-- A side that is not pending has no waits. -/
theorem Waits.not_claims (hw : Waits L) (ho : Owned L) {place : Option (Nat × Fd)}
    (hmem : (place, i) ∈ L.watchers) (hp : L.hub.isPending i d = false) {w : Wait}
    (h : L.HasWait w) : w.callback.claims i d = false := by
  obtain ⟨x, hx, halive⟩ := Hub.alive_of_roster (Waits.alive_of_mem ho hmem)
  have hpost := Hub.posts_of_getElem? hx
  refine hw.not_claims_of ?_ (fun p hp' => ?_) h
  · have heq := Waiting.claims_eq hw hpost halive d
    have hpending : (pendingSides x.sides).get d = false := by
      rw [get_pendingSides]
      unfold Hub.isPending Hub.side? at hp
      rw [hx] at hp
      exact hp
    rw [heq]
    exact if_neg (by simp [Post.ofWatcher, hpending])
  · rw [hpost] at hp'
    rw [← Option.some.inj hp']
    exact halive

/-- A watcher that is yet to be made has no waits. -/
theorem Waits.not_claims_of_le (hw : Waits L) (hle : L.hub.watchers.length ≤ i) {w : Wait}
    (h : L.HasWait w) : w.callback.claims i d = false := by
  have hle' : L.hub.posts.length ≤ i := by
    unfold Hub.posts
    rwa [List.length_map]
  refine hw.not_claims_of (Waiting.claims_out hw hle' d) (fun p hp => ?_) h
  rw [List.getElem?_eq_none hle'] at hp
  cases hp

/-- The waits for a direction of a watcher are armed for one engine; and while it is wanted and no
wait is outstanding, that engine is just being told of it, in the innermost of such calls. -/
structure Enlisted (i : Nat) (d : Direction) (e : Nat) (L : Ledger) : Prop where
  bound : ∀ w, L.HasWait w → w.callback.claims i d = true → w.callback = .ready i d e
  told : L.hub.wants i d = true → L.hub.isPending i d = true ∨
    ∃ call, L.calls.find? (·.processes i d) = some call ∧ call.engine = e

namespace Enlisted
variable {e : Nat}

theorem of_arms {P : Callback → Prop} (h : Enlisted i d e L)
    (ha : Manual.Arms P L.hub.reactor L'.hub.reactor)
    (hP : ∀ c, P c → c.claims i d = true → c = .ready i d e)
    (hk : ∀ w ∈ L'.kept, L.HasWait w) (hs : L'.hub.side? i d = L.hub.side? i d)
    (hc : L'.calls = L.calls) : Enlisted i d e L' := by
  constructor
  · rintro w (hw | hw) hclaims
    · rcases ha.waits w hw with hw | ⟨-, -, hw⟩
      · exact h.bound w (Or.inl hw) hclaims
      · exact hP _ hw hclaims
    · exact h.bound w (hk w hw) hclaims
  · rw [Hub.wants_congr hs, Hub.isPending_congr hs, hc]
    exact h.told

theorem of_quiet (h : Enlisted i d e L)
    (ha : Manual.Arms (fun _ => False) L.hub.reactor L'.hub.reactor)
    (hk : ∀ w ∈ L'.kept, L.HasWait w) (hs : L'.hub.side? i d = L.hub.side? i d)
    (hc : L'.calls = L.calls) : Enlisted i d e L' :=
  h.of_arms ha (fun _ => False.elim) hk hs hc

theorem of_reactor (h : Enlisted i d e L) (hr : L'.hub.reactor.waits = L.hub.reactor.waits)
    (ht : L'.hub.reactor.tickets = L.hub.reactor.tickets) (hk : L'.kept = L.kept)
    (hs : L'.hub.side? i d = L.hub.side? i d) (hc : L'.calls = L.calls) : Enlisted i d e L' :=
  h.of_quiet (.of_waits ht fun _ hw => hr ▸ hw) (fun _ hw => Or.inr (hk ▸ hw)) hs hc

private theorem of_take (h : Enlisted i d e L) {m : Manual} {wait : Wait}
    (ht : m.tickets = L.hub.reactor.tickets)
    (hm : ∀ w, w ∈ L.hub.reactor.waits ↔ w = wait ∨ w ∈ m.waits) :
    Enlisted i d e { L.setReactor m with kept := wait ::ₘ L.kept } := by
  refine h.of_quiet (.of_waits ht fun w hw => (hm w).mpr (Or.inr hw)) (fun w hw => ?_) rfl rfl
  rcases Multiset.mem_cons.mp hw with rfl | hw
  · exact Or.inl ((hm w).mpr (Or.inl rfl))
  · exact Or.inr hw

/-- A side that is neither pending nor wanted. -/
theorem of_idle (hnone : ∀ w, L.HasWait w → w.callback.claims i d = false)
    (hwants : L.hub.wants i d = false) : Enlisted i d e L := by
  constructor
  · intro w hw hclaims
    rw [hnone w hw] at hclaims
    cases hclaims
  · intro hw
    rw [hwants] at hw
    cases hw

/-- An engine asks a watcher for interest. If it asks for the direction, either a wait of it was
outstanding, or it is the engine that is enlisted. -/
theorem setInterest {e' : Nat} {ev : Events}
    (hbound : ∀ w, L.HasWait w → w.callback.claims i d = true → w.callback = .ready i d e)
    (hlt : i < L.hub.watchers.length) (hev : ev.wants d = true)
    (hor : L.hub.isPending i d = true ∨ e' = e)
    (hhub : L'.hub = L.hub.setInterest i e' ev) (hk : L'.kept = L.kept) : Enlisted i d e L' := by
  have ha := Hub.arms_setInterest_ready L.hub i e' ev
  rw [← hhub] at ha
  constructor
  · rintro w (hw | hw) hclaims
    · rcases ha.waits w hw with hw | ⟨-, -, d', hw, -, hp⟩
      · exact hbound w (Or.inl hw) hclaims
      · rw [hw] at hclaims ⊢
        obtain ⟨-, rfl⟩ := (claims_ready e' i d' i d).mp hclaims
        rcases hor with hor | rfl
        · rw [hp] at hor
          cases hor
        · rfl
    · exact hbound w (Or.inr (hk ▸ hw)) hclaims
  · intro _
    left
    have hside : L.hub.side? i d = some (L.hub.watchers[i].sides.get d) := by
      simp [Hub.side?, hlt]
    rw [hhub, Hub.isPending, Hub.side?_setInterest, if_pos rfl, hside]
    simp [hev]

/-- Interest is asked for, but not in this direction. -/
theorem unwanted (h : Enlisted i d e L) {j e' : Nat} {ev : Events} {log : List Event}
    (hne : i = j → ev.wants d = false) :
    Enlisted i d e { L with hub := L.hub.setInterest j e' ev, log := log } := by
  have ha := Hub.arms_setInterest_ready L.hub j e' ev
  constructor
  · rintro w (hw | hw) hclaims
    · rcases ha.waits w hw with hw | ⟨-, -, d', hw, hev, -⟩
      · exact h.bound w (Or.inl hw) hclaims
      · rw [hw] at hclaims
        obtain ⟨rfl, rfl⟩ := (claims_ready e' j d' i d).mp hclaims
        rw [hne rfl] at hev
        cases hev
    · exact h.bound w (Or.inr hw) hclaims
  · intro hwants
    have hcases := Hub.wants_setInterest (e := e') hwants
    rcases hcases with ⟨rfl, hev⟩ | ⟨hij, hwants⟩
    · rw [hne rfl] at hev
      cases hev
    · have hside : (L.hub.setInterest j e' ev).side? i d = L.hub.side? i d :=
        (Hub.side?_setInterest ..).trans (if_neg hij)
      rcases h.told hwants with hp | hcall
      · exact Or.inl ((Hub.isPending_congr hside).trans hp)
      · exact Or.inr hcall

private theorem retire (h : Enlisted i d e L) (j : Nat) :
    Enlisted i d e { L with hub := L.hub.retire j } := by
  refine ⟨h.bound, fun hwants => ?_⟩
  change (L.hub.retire j).wants i d = true at hwants
  by_cases hij : j = i
  · rw [hij, Hub.wants_retire] at hwants
    cases hwants
  · have hside : (L.hub.retire j).side? i d = L.hub.side? i d :=
      (Hub.side?_retire ..).trans (if_neg hij)
    rw [Hub.wants_congr hside] at hwants
    rcases h.told hwants with hp | hcall
    · exact Or.inl ((Hub.isPending_congr hside).trans hp)
    · exact Or.inr hcall

/-- A wait completes. If it is one for the direction, it is one for the engine, which is told of it
if the direction is wanted. -/
theorem complete (h : Enlisted i d e L) (ho : Owned L) {s : Nat} {fd : Fd}
    (hmem : (some (s, fd), i) ∈ L.watchers) (hs : s ∈ L.handlers)
    (he : L.hub.engineAlive e = true) {wait : Wait} {ws : Multiset Wait} (o : Outcome)
    (hk : L.kept = wait ::ₘ ws)
    (hok : wait.callback.claims i d = true → Verdict.of o = .proceed) :
    Enlisted i d e { L with
      hub := (L.hub.begin wait.callback o).1
      kept := ws
      calls := (L.hub.begin wait.callback o).2.toList ++ L.calls
      log := .completed wait o (serves L.hub wait.callback) :: L.log } := by
  have hwait : L.HasWait wait := Or.inr (hk ▸ Multiset.mem_cons_self wait ws)
  constructor
  · rintro w (hw | hw) hclaims
    · refine h.bound w (Or.inl ?_) hclaims
      change w ∈ (L.hub.begin wait.callback o).1.reactor.waits at hw
      rwa [Hub.reactor_begin] at hw
    · exact h.bound w (Or.inr (hk ▸ Multiset.mem_cons_of_mem hw)) hclaims
  · intro hwants
    have hwants' : L.hub.wants i d = true := (Hub.wants_begin ..).symm.trans hwants
    by_cases hclaims : wait.callback.claims i d = true
    · right
      have hcb := h.bound wait hwait hclaims
      have hfails : (Event.completed wait o (serves L.hub wait.callback)).fails i d = false := by
        have hserves : serves L.hub wait.callback = true := by
          rw [hcb]
          exact he
        simp [Event.fails, hok hclaims, hserves]
      obtain ⟨x, hx⟩ : ∃ x, L.hub.side? i d = some x := by
        rw [Hub.wants_eq] at hwants'
        obtain ⟨x, hx, -⟩ := (Option.any_eq_true ..).mp hwants'
        exact ⟨x, hx⟩
      have hwanted : x.wanted = true := by
        rw [Hub.wants_eq, hx] at hwants'
        exact hwants'
      rcases Awake.complete_claimed ho hmem hs hx hwanted wait o hclaims with
        ⟨call, hcall, hprocesses⟩ | hf
      · refine ⟨call, ?_, ?_⟩
        · rw [Option.mem_def.mp hcall, Option.toList_some, List.singleton_append,
            List.find?_cons_of_pos hprocesses]
        · rcases Hub.call_of_begin (Option.mem_def.mp hcall) with
            ⟨j, d', y, -, hcb', -⟩ | ⟨t, y, -, hcb', -⟩
          · rw [hcb] at hcb'
            injection hcb' with _ _ heq
            exact heq.symm
          · rw [hcb] at hcb'
            cases hcb'
      · rw [hfails] at hf
        cases hf
    · have hside : (L.hub.begin wait.callback o).1.side? i d = L.hub.side? i d :=
        (Hub.side?_begin ..).trans (if_neg fun hc => hclaims hc.1)
      rcases h.told hwants' with hp | ⟨call, hcall, hengine⟩
      · exact Or.inl ((Hub.isPending_congr hside).trans hp)
      · refine Or.inr ⟨call, ?_, hengine⟩
        rw [List.find?_append, List.find?_eq_none.mpr, Option.none_or, hcall]
        intro call' hmem' hprocesses
        -- a call for the direction begins for a wait for the direction
        have hpart := Hub.call_of_begin (Option.mem_toList.mp hmem')
        obtain ⟨howner, -⟩ := Call.processes_iff.mp hprocesses
        rcases hpart with ⟨j, d', y, -, hcb, howner', -⟩ | ⟨t, y, -, -, howner', -⟩
        · rw [howner] at howner'
          cases howner'
          exact hclaims (hcb ▸ (claims_ready call'.engine i d i d).mpr ⟨rfl, rfl⟩)
        · rw [howner] at howner'
          cases howner'

/-- A call ends. If it told of the direction, a wait is armed again for the engine. -/
theorem finish (h : Enlisted i d e L) {call : Call} {cs : List Call} (hc : L.calls = call :: cs) :
    Enlisted i d e (L.finish call cs) := by
  have hwaits : ∀ w, (L.finish call cs).HasWait w →
      L.HasWait w ∨ L.hub.rearms call = true ∧ call.Repeats w.callback := by
    rintro w (hw | hw)
    · have hw' : w ∈ (L.hub.resume call).reactor.waits := by
        change w ∈ (L.hub.finish call).reactor.waits at hw
        unfold Hub.finish at hw
        rwa [Hub.mem_waits_releaseOwner] at hw
      rcases (Hub.arms_resume L.hub call).waits w hw' with hw' | ⟨-, -, hrearms⟩
      · exact Or.inl (Or.inl hw')
      · exact Or.inr hrearms
    · exact Or.inl (Or.inr hw)
  constructor
  · intro w hw hclaims
    rcases hwaits w hw with hw | ⟨hrearms, hrepeats⟩
    · exact h.bound w hw hclaims
    · obtain ⟨owner, s, e', notice⟩ := call
      cases owner with
      | heartbeat t generation =>
        cases hcb : w.callback with
        | ready j d' e'' =>
          rw [hcb] at hrepeats
          cases hrepeats
        | beat =>
          rw [hcb] at hclaims
          cases hclaims
        | bare =>
          rw [hcb] at hclaims
          cases hclaims
      | watcher j d' =>
        have hcb : w.callback = .ready j d' e' := hrepeats
        rw [hcb] at hclaims
        obtain ⟨rfl, rfl⟩ := (claims_ready e' j d' i d).mp hclaims
        cases notice with
        | heartbeat => cases hrearms
        | waitError => cases hrearms
        | process fd ev =>
          change (L.hub.watchers[j]?.any fun x => (x.sides.get d').wanted &&
            !(x.sides.get d').pending) = true at hrearms
          obtain ⟨x, hx, hsides⟩ := (Option.any_eq_true ..).mp hrearms
          rw [Bool.and_eq_true, Bool.not_eq_true'] at hsides
          have hside : L.hub.side? j d' = some (x.sides.get d') := by simp [Hub.side?, hx]
          have hwants : L.hub.wants j d' = true := by
            rw [Hub.wants_eq, hside]
            exact hsides.1
          rcases h.told hwants with hp | ⟨call, hcall, hengine⟩
          · rw [Hub.isPending, hside, Option.any_some, hsides.2] at hp
            cases hp
          · rw [hc, List.find?_cons_of_pos (by simp [Call.processes])] at hcall
            rw [hcb, ← hengine, ← Option.some.inj hcall]
  · intro hwants
    have hwants' : L.hub.wants i d = true := (Hub.wants_finish ..).symm.trans hwants
    have hside := Hub.side?_finish L.hub call i d
    by_cases hprocesses : call.processes i d = true
    · left
      rw [if_pos hprocesses] at hside
      rw [Hub.wants_eq] at hwants'
      obtain ⟨x, hx, hwanted⟩ := (Option.any_eq_true ..).mp hwants'
      change (L.hub.finish call).isPending i d = true
      rw [Hub.isPending, hside, hx]
      simp [hwanted]
    · rw [if_neg hprocesses] at hside
      rcases h.told hwants' with hp | ⟨call', hcall, hengine⟩
      · exact Or.inl ((Hub.isPending_congr hside).trans hp)
      · refine Or.inr ⟨call', ?_, hengine⟩
        rwa [hc, List.find?_cons_of_neg hprocesses] at hcall

end Enlisted

/-- While an engine, a handler and a watcher that it holds last, the engine is enlisted. -/
structure Serving (s : Nat) (fd : Fd) (i : Nat) (d : Direction) (e : Nat) (L : Ledger) : Prop where
  lt : e < L.hub.engines.length
  enlisted : L.hub.engineAlive e = true → s ∈ L.handlers → (some (s, fd), i) ∈ L.watchers →
    Enlisted i d e L

namespace Serving
variable {s e : Nat} {fd : Fd}

theorem keep (hm : Move L L') (h : Serving s fd i d e L) (hh : L'.handlers ⊆ L.handlers)
    (hw : L'.watchers ⊆ L.watchers)
    (henlisted : L.hub.engineAlive e = true → s ∈ L.handlers → (some (s, fd), i) ∈ L.watchers →
      Enlisted i d e L → Enlisted i d e L') : Serving s fd i d e L' := by
  refine ⟨h.lt.trans_le hm.wanes.length_le, fun ha hs hmem => ?_⟩
  have ha' : L.hub.engineAlive e = true := hm.wanes.alive e h.lt ha
  exact henlisted ha' (hh hs) (hw hmem) (h.enlisted ha' (hh hs) (hw hmem))

/-- A handler that is new has no watchers yet. -/
theorem newHandler (ho : Owned L) (h : Serving s fd i d e L) :
    Serving s fd i d e
      { L with hub := L.hub.newStrand.2, handlers := L.hub.newStrand.1 ::ₘ L.handlers } := by
  refine ⟨h.lt, fun ha hs hmem => ?_⟩
  have hlt := ho.watchers.holds.lt (Multiset.mem_map_of_mem (·.2) hmem)
  rw [← ho.watchers.length_eq] at hlt
  have hx := List.getElem?_eq_getElem hlt
  have hstrand := (ho.watchers.placed hmem _ hx).2
  have hlt' := ho.watchers.strand_lt _ (List.mem_of_getElem? hx)
  have hs' : s ∈ L.handlers := by
    refine (Multiset.mem_cons.mp hs).resolve_left fun heq => ?_
    rw [hstrand, heq] at hlt'
    exact lt_irrefl _ hlt'
  exact (h.enlisted ha hs' hmem).of_reactor rfl rfl rfl rfl rfl

private theorem newWatcher {place : Option (Nat × Fd)} {j : Nat} {hub : Hub Manual}
    (hm : Move L { L with hub := hub, watchers := (place, j) ::ₘ L.watchers }) (ho : Owned L)
    (hwaits : Waits { L with hub := hub, watchers := (place, j) ::ₘ L.watchers })
    (h : Serving s fd i d e L) {s' : Nat} {fd' : Fd}
    (hn : L.hub.newWatcher s' fd' = (.ok j, hub)) :
    Serving s fd i d e { L with hub := hub, watchers := (place, j) ::ₘ L.watchers } := by
  have hside := Hub.side?_newWatcher hn i d
  refine ⟨h.lt.trans_le hm.wanes.length_le, fun ha hs hmem => ?_⟩
  by_cases hij : i = j
  · -- a watcher that is new is asked for nothing yet
    rw [if_pos hij] at hside
    have hpending : hub.isPending i d = false := by
      rw [Hub.isPending, hside]
      rfl
    refine .of_idle (fun w hw => hwaits.not_claims (.move hm ho) hmem hpending hw) ?_
    change hub.wants i d = false
    rw [Hub.wants_eq, hside]
    rfl
  · rw [if_neg hij] at hside
    have hmem' : (some (s, fd), i) ∈ L.watchers := by
      refine (Multiset.mem_cons.mp hmem).resolve_left fun heq => hij ?_
      exact (Prod.mk.inj heq).2
    have ha' := hm.wanes.alive e h.lt ha
    obtain ⟨r, m, hr, -, rfl⟩ := Hub.newWatcher_ok hn
    obtain ⟨-, rfl⟩ := Manual.register_ok hr
    exact (h.enlisted ha' hs hmem').of_reactor rfl rfl rfl hside rfl

/-- Interest is asked for in another direction, or of another watcher. -/
theorem setInterest {place : Option (Nat × Fd)} {j : Nat} (ho : Owned L)
    (h : Serving s fd i d e L) (e' : Nat) (ev : Events) (hj : (place, j) ∈ L.watchers)
    (hasks : ¬ (place = some (s, fd) ∧ ev.wants d = true)) :
    Serving s fd i d e
      { L with hub := L.hub.setInterest j e' ev, log := asked place e' ev ++ L.log } := by
  have sub {α : Type} (m : Multiset α) : m ⊆ m := Multiset.Subset.refl m
  refine h.keep (.setInterest e' ev hj) (sub _) (sub _) fun _ _ hmem h => h.unwanted ?_
  rintro rfl
  rw [← Bool.not_eq_true]
  have hnodup := ho.watchers.holds.nodup
  have heq := Multiset.inj_on_of_nodup_map hnodup _ hmem _ hj rfl
  exact fun hev => hasks ⟨(congrArg Prod.fst heq).symm, hev⟩

/-- An engine stays enlisted until the handler is asked for the direction again, or a wait for it
completes other than ready. -/
theorem move (hm : Move L L') (ho : Owned L) (hwaits : Waits L') (h : Serving s fd i d e L) :
    Serving s fd i d e L' ∨
      ∃ ev, (ev.asks s fd d = true ∨ ev.breaks i d = true) ∧ L'.log = ev :: L.log := by
  have same {L' : Ledger} (hm : Move L L') (hr : L'.hub.reactor.waits = L.hub.reactor.waits)
      (ht : L'.hub.reactor.tickets = L.hub.reactor.tickets) (hk : L'.kept = L.kept)
      (hs : L'.hub.side? i d = L.hub.side? i d) (hc : L'.calls = L.calls)
      (hh : L'.handlers ⊆ L.handlers) (hw : L'.watchers ⊆ L.watchers) :
      Serving s fd i d e L' :=
    h.keep hm hh hw fun _ _ _ h => h.of_reactor hr ht hk hs hc
  have sub {α : Type} (m : Multiset α) : m ⊆ m := Multiset.Subset.refl m
  cases hm with
  | advance => exact Or.inl (same (.advance _) rfl rfl rfl rfl rfl (sub _) (sub _))
  | refuse => exact Or.inl (same (.refuse _) rfl rfl rfl rfl rfl (sub _) (sub _))
  | refused hr =>
    refine Or.inl (same (.refused hr) ?_ ?_ rfl rfl rfl (sub _) (sub _))
    · rw [Manual.register_error hr]
      rfl
    · rw [Manual.register_error hr]
      rfl
  | newHandler => exact Or.inl (h.newHandler ho)
  | dropHandler hh =>
    refine Or.inl (same (.dropHandler hh) rfl rfl rfl rfl rfl ?_ (sub _))
    exact hh ▸ Multiset.subset_cons _ _
  | newStrand => exact Or.inl (same .newStrand rfl rfl rfl rfl rfl (sub _) (sub _))
  | dropStrand hs => exact Or.inl (same (.dropStrand hs) rfl rfl rfl rfl rfl (sub _) (sub _))
  | newEngine => exact Or.inl (same .newEngine rfl rfl rfl rfl rfl (sub _) (sub _))
  | dropEngine e => exact Or.inl (same (.dropEngine e) rfl rfl rfl rfl rfl (sub _) (sub _))
  | newWatcher hp hf hn => exact Or.inl (h.newWatcher (.newWatcher hp hf hn) ho hwaits hn)
  | @setInterest place j e' ev hj =>
    by_cases hasks : place = some (s, fd) ∧ ev.wants d = true
    · right
      refine ⟨.monitored s e' fd ev, Or.inl (by simp [Event.asks, hasks.2]), ?_⟩
      rw [hasks.1]
      rfl
    · exact Or.inl (h.setInterest ho e' ev hj hasks)
  | retire hj =>
    exact Or.inl (h.keep (.retire hj) (sub _) (sub _) fun _ _ _ h => h.retire _)
  | dropWatcher hj hr =>
    left
    refine h.keep (.dropWatcher hj hr) (sub _) (hj ▸ Multiset.subset_cons _ _) fun _ _ _ h => ?_
    exact h.of_quiet (Hub.arms_dropWatcher _ _) (fun _ => Or.inr) (Hub.side?_dropWatcher ..) rfl
  | unasked s' e' fd' hev hf =>
    exact Or.inl (same (.unasked s' e' fd' hev hf) rfl rfl rfl rfl rfl (sub _) (sub _))
  | newHeartbeat hp hf =>
    exact Or.inl (same (.newHeartbeat hp hf) rfl rfl rfl rfl rfl (sub _) (sub _))
  | setHeartbeat e' interval hj hp =>
    left
    refine h.keep (.setHeartbeat e' interval hj hp) (sub _) (sub _) fun _ _ _ h => ?_
    refine h.of_arms (Hub.arms_setHeartbeat _ _ e' interval) (fun c hc hclaims => ?_)
      (fun _ => Or.inr) (Hub.side?_congr (Calm.setHeartbeat _ _ _ _).watchers i d) rfl
    cases c with
    | ready => cases hc
    | beat => cases hclaims
    | bare => cases hclaims
  | stopHeartbeat hj =>
    left
    refine h.keep (.stopHeartbeat hj) (sub _) (sub _) fun _ _ _ h => ?_
    exact h.of_quiet (Hub.arms_stopHeartbeat _ _) (fun _ => Or.inr)
      (Hub.side?_congr (Calm.stopHeartbeat _ _).watchers i d) rfl
  | dropHeartbeat hj hr =>
    left
    refine h.keep (.dropHeartbeat hj hr) (sub _) (sub _) fun _ _ _ h => ?_
    exact h.of_quiet (Hub.arms_dropHeartbeat _ _) (fun _ => Or.inr)
      (Hub.side?_congr (Calm.dropHeartbeat _ _).watchers i d) rfl
  | enter hs => exact Or.inl (same (.enter hs) rfl rfl rfl rfl rfl (sub _) (sub _))
  | leave hs => exact Or.inl (same (.leave hs) rfl rfl rfl rfl rfl (sub _) (sub _))
  | takeReady ht =>
    obtain ⟨htickets, hmem⟩ := Manual.mem_waits_takeReady ht
    exact Or.inl (h.keep (.takeReady ht) (sub _) (sub _) fun _ _ _ h =>
      h.of_take htickets hmem)
  | takeTimed ht =>
    obtain ⟨htickets, hmem⟩ := Manual.mem_waits_takeTimed ht
    exact Or.inl (h.keep (.takeTimed ht) (sub _) (sub _) fun _ _ _ h =>
      h.of_take htickets hmem)
  | takeParked =>
    left
    refine h.keep .takeParked (sub _) (sub _) fun _ _ _ h => ?_
    refine h.of_quiet (.of_waits rfl fun w hw => ?_) (fun w hw => ?_) rfl rfl
    · exact Manual.mem_waits_takeParked.mpr (Or.inr hw)
    · rcases Multiset.mem_add.mp hw with hw | hw
      · exact Or.inl (Manual.mem_waits_takeParked.mpr (Or.inl hw))
      · exact Or.inr hw
  | discard hk =>
    left
    refine h.keep (.discard hk) (sub _) (sub _) fun _ _ _ h => ?_
    refine h.of_quiet (.refl _) (fun w hw => Or.inr ?_) rfl rfl
    rw [hk]
    exact Multiset.mem_cons_of_mem hw
  | @complete wait ws o hk =>
    by_cases hok : wait.callback.claims i d = true → Verdict.of o = .proceed
    · left
      exact h.keep (.complete o hk) (sub _) (sub _) fun ha hs hmem h =>
        h.complete ho hmem hs ha o hk hok
    · right
      refine ⟨_, Or.inr ?_, rfl⟩
      rw [Classical.not_imp] at hok
      simp [Event.breaks, hok]
  | register hr =>
    obtain ⟨-, hm⟩ := Manual.register_ok hr
    refine Or.inl (same (.register hr) ?_ ?_ rfl rfl rfl (sub _) (sub _))
    · rw [hm]
      rfl
    · rw [hm]
      rfl
  | armBare d' tag hr =>
    left
    refine h.keep (.armBare d' tag hr) (sub _) (sub _) fun _ _ _ h => ?_
    refine h.of_arms (.arm _ _ d' _) (fun c hc hclaims => ?_) (fun _ => Or.inr) rfl rfl
    rw [hc] at hclaims
    cases hclaims
  | release hr =>
    left
    refine h.keep (.release hr) (sub _) (sub _) fun _ _ _ h => ?_
    exact h.of_quiet (.release _ _) (fun _ => Or.inr) rfl rfl
  | newTimer => exact Or.inl (same .newTimer rfl rfl rfl rfl rfl (sub _) (sub _))
  | scheduleBare deadline tag ht =>
    left
    refine h.keep (.scheduleBare deadline tag ht) (sub _) (sub _) fun _ _ _ h => ?_
    refine h.of_arms (.schedule _ _ deadline _) (fun c hc hclaims => ?_) (fun _ => Or.inr) rfl rfl
    rw [hc] at hclaims
    cases hclaims
  | cancelBare ht =>
    left
    refine h.keep (.cancelBare ht) (sub _) (sub _) fun _ _ _ h => ?_
    exact h.of_quiet (.cancel _ _) (fun _ => Or.inr) rfl rfl
  | dropTimer ht =>
    left
    refine h.keep (.dropTimer ht) (sub _) (sub _) fun _ _ _ h => ?_
    exact h.of_quiet (.cancel _ _) (fun _ => Or.inr) rfl rfl

theorem finish (h : Serving s fd i d e L) {call : Call} {cs : List Call}
    (hc : L.calls = call :: cs) : Serving s fd i d e (L.finish call cs) := by
  have hwanes := wanes_finish L call cs
  refine ⟨h.lt.trans_le hwanes.length_le, fun ha hs hmem => ?_⟩
  exact (h.enlisted (hwanes.alive e h.lt ha) hs hmem).finish hc

end Serving
end Ledger
end Scenario
end Wakeup
