import Wakeup.Proofs.Ledger
import Wakeup.Proofs.Table

/-! Every step of the machine is a sequence of moves of its ledger. -/
namespace Wakeup

theorem perm_cons_eraseP {α : Type} {p : α → Bool} {l : List α} {a : α}
    (h : l.find? p = some a) : l.Perm (a :: l.eraseP p) := by
  induction l with
  | nil => cases h
  | cons b l ih =>
    by_cases hb : p b = true
    · rw [List.find?_cons_of_pos hb] at h
      cases h
      rw [List.eraseP_cons_of_pos hb]
    · rw [List.find?_cons_of_neg hb] at h
      rw [List.eraseP_cons_of_neg hb]
      exact ((ih h).cons b).trans (List.Perm.swap a b _)

namespace Manual

variable {fd : Fd} {m m' : Manual}

theorem reactor_register (fd : Fd) (m : Manual) : Reactor.register fd m = m.register fd := rfl

theorem register_error {err : Error} (h : m.register fd = (.error err, m')) :
    m' = { m with refused := m.refused.filter (· ≠ fd) } := by
  unfold register at h
  split at h
  · cases h
    rfl
  · cases h

theorem register_ok {r : Registration} (h : m.register fd = (.ok r, m')) :
    r = ⟨m.nextId, fd⟩ ∧ m' = { m with
      nextId := m.nextId + 1
      live := m.live.insert fd ((m.live.get? fd).getD 0 + 1) } := by
  unfold register at h
  split at h
  · cases h
  · cases h
    exact ⟨rfl, rfl⟩

theorem takeReady_some {d : Direction} {wait : Wait} (h : m.takeReady fd d = some (wait, m')) :
    ∃ x rs, wait = x.wait ∧ m.ready.Perm (x :: rs) ∧ m' = { m with ready := rs } := by
  unfold takeReady at h
  obtain ⟨x, hx, heq⟩ := Option.map_eq_some_iff.mp h
  cases heq
  exact ⟨x, _, rfl, perm_cons_eraseP hx, rfl⟩

theorem takeTimed_some {deadline : Nat} {wait : Wait}
    (h : m.takeTimed deadline = some (wait, m')) :
    ∃ x ts, wait = x.wait ∧ m.timed.Perm (x :: ts) ∧ m' = { m with timed := ts } := by
  unfold takeTimed at h
  obtain ⟨x, hx, heq⟩ := Option.map_eq_some_iff.mp h
  cases heq
  exact ⟨x, _, rfl, perm_cons_eraseP hx, rfl⟩

end Manual

namespace Hub
variable {hub hub' : Hub Manual} {s i : Nat} {fd : Fd} {err : Error}

theorem newWatcher_error (h : hub.newWatcher s fd = (.error err, hub')) :
    ∃ m, hub.reactor.register fd = (.error err, m) ∧ hub' = { hub with reactor := m } := by
  simp only [newWatcher, Manual.reactor_register] at h
  split at h
  · rename_i e m hr
    cases h
    exact ⟨m, hr, rfl⟩
  · cases h

theorem newWatcher_ok (h : hub.newWatcher s fd = (.ok i, hub')) :
    ∃ r m, hub.reactor.register fd = (.ok r, m) ∧ i = hub.watchers.length ∧
      hub' = { hub with reactor := m, watchers := hub.watchers ++ [⟨r, s, .both {}, {}⟩] } := by
  simp only [newWatcher, Manual.reactor_register] at h
  split at h
  · cases h
  · rename_i r m hr
    cases h
    exact ⟨r, m, hr, rfl, rfl⟩

theorem begin_canceled (c : Callback) (hub : Hub Manual) :
    (hub.begin c (.error .canceled)).2 = none := by
  unfold begin
  cases c with
  | ready w d e =>
    simp only [beginReady, Verdict.of_canceled]
    repeat' split
    all_goals rfl
  | beat t generation e =>
    simp only [beginBeat, Verdict.of_canceled]
    repeat' split
    all_goals rfl
  | bare => rfl

theorem engines_begin_canceled (c : Callback) (hub : Hub Manual) :
    (hub.begin c (.error .canceled)).1.engines = hub.engines := by
  unfold begin
  cases c with
  | ready w d e =>
    simp only [beginReady, Verdict.of_canceled]
    repeat' split
    all_goals rfl
  | beat t generation e =>
    simp only [beginBeat, Verdict.of_canceled]
    repeat' split
    all_goals rfl
  | bare => rfl

theorem wants_retire (hub : Hub Manual) (i : Nat) (d : Direction) :
    (hub.retire i).wants i d = false := by
  simp only [retire, wants, Direction.all, List.foldl_cons, List.foldl_nil, modifySide,
    modifyWatcher, List.getElem?_modify_eq]
  cases hub.watchers[i]? with
  | none => rfl
  | some x => cases d <;> rfl

theorem deadline_stopHeartbeat (hub : Hub Manual) {t : Nat} {x : Heartbeat}
    (hx : (hub.stopHeartbeat t).heartbeats[t]? = some x) : x.schedule.deadline = none := by
  unfold stopHeartbeat at hx
  cases hy : hub.heartbeats[t]? with
  | none =>
    simp only [hy] at hx
    cases hx
  | some y =>
    simp only [hy, cancelTimer, modifySchedule, modifyHeartbeat, List.getElem?_modify_eq] at hx
    cases hx
    rfl

theorem dropWatcher_dropStrand (hub : Hub Manual) (s i : Nat) :
    (hub.dropStrand s).dropWatcher i = (hub.dropWatcher i).dropStrand s := by
  unfold dropWatcher reapWatcher
  dsimp only [modifyWatcher, dropStrand, modifyStrand]
  split
  · rfl
  · split <;> rfl

theorem dropHeartbeat_dropStrand (hub : Hub Manual) (s t : Nat) :
    (hub.dropStrand s).dropHeartbeat t = (hub.dropHeartbeat t).dropStrand s := by
  unfold dropHeartbeat reapHeartbeat
  dsimp only [modifyHeartbeat, dropStrand, modifyStrand]
  split
  · rfl
  · split <;> rfl

theorem dropWatchers_dropStrand (hub : Hub Manual) (s : Nat) (l : List Nat) :
    l.foldl (fun hub i => hub.dropWatcher i) (hub.dropStrand s) =
      (l.foldl (fun hub i => hub.dropWatcher i) hub).dropStrand s := by
  induction l generalizing hub with
  | nil => rfl
  | cons i l ih => rw [List.foldl_cons, List.foldl_cons, dropWatcher_dropStrand, ih]

end Hub

namespace Scenario
open Ledger

section Handlers
variable {L : Ledger} {h h' : Handler} {e : Nat} {fd : Fd} {ev : Events} {hub : Hub Manual}
  {ws : Multiset (Option (Nat × Fd) × Nat)} {ts : Multiset (Option Nat × Nat)}

private theorem places_insert (h : Handler) (fd : Fd) (i : Nat) :
    places { h with watchers := h.watchers.insert fd i } =
      (some (h.strand, fd), i) ::ₘ places { h with watchers := h.watchers.erase fd } := by
  unfold places
  rw [Table.coe_toList_insert, Multiset.map_cons]

private theorem places_of_get? {i : Nat} (hi : h.watchers.get? fd = some i) :
    places h = (some (h.strand, fd), i) ::ₘ places { h with watchers := h.watchers.erase fd } := by
  unfold places
  rw [Table.coe_toList_of_get? hi, Multiset.map_cons]

theorem mem_places {s i : Nat} :
    (some (s, fd), i) ∈ places h ↔ s = h.strand ∧ h.watchers.get? fd = some i := by
  unfold places
  rw [Multiset.mem_map]
  constructor
  · rintro ⟨⟨fd', i'⟩, hm, heq⟩
    cases heq
    exact ⟨rfl, Table.mem_toList_iff.mp hm⟩
  · rintro ⟨rfl, hi⟩
    exact ⟨(fd, i), Table.mem_toList_iff.mpr hi, rfl⟩

theorem mem_beats {s t : Nat} : (some s, t) ∈ beats h ↔ s = h.strand ∧ h.heartbeat = some t := by
  unfold beats
  cases h.heartbeat with
  | none => simp
  | some t' => simp [eq_comm]

theorem monitor_fields {b : Hub Manual} (hm : h.monitor e fd ev b = (.ok h', hub)) :
    h'.strand = h.strand ∧ h'.heartbeat = h.heartbeat := by
  unfold Handler.monitor at hm
  repeat' split at hm
  all_goals cases hm
  all_goals exact ⟨rfl, rfl⟩

theorem moves_monitor (hh : h.strand ∈ L.handlers) (hw : L.watchers = places h + ws)
    (hws : ∀ i, (some (h.strand, fd), i) ∉ ws) (hm : h.monitor e fd ev L.hub = (.ok h', hub)) :
    Moves L { L with
      hub := hub
      watchers := places h' + ws
      log := .monitored h.strand e fd ev :: L.log } := by
  have hfree (hi : h.watchers.get? fd = none) : ∀ j, (some (h.strand, fd), j) ∉ L.watchers := by
    intro j hmem
    rw [hw] at hmem
    rcases Multiset.mem_add.mp hmem with hmem | hmem
    · rw [(mem_places.mp hmem).2] at hi
      cases hi
    · exact hws j hmem
  unfold Handler.monitor at hm
  split at hm
  · rename_i hi
    split at hm
    · rename_i hev
      cases hm
      rw [← hw]
      exact .single (.unasked h.strand e fd hev (hfree hi))
    · split at hm
      · cases hm
      · rename_i i hub' hn
        cases hm
        -- the descriptor is registered first, and then asked for
        let L' : Ledger := { L with
          hub := hub', watchers := (some (h.strand, fd), i) ::ₘ L.watchers }
        have h₁ : Move L L' := .newWatcher (Or.inl ⟨rfl, hh⟩) (fun _ => hfree hi) hn
        have h₂ := Move.setInterest (L := L') e ev (Multiset.mem_cons_self _ _)
        have hp : places { h with watchers := h.watchers.insert fd i } + ws =
            (some (h.strand, fd), i) ::ₘ L.watchers := by
          rw [places_insert, Table.erase_of_get?_eq_none hi, Multiset.cons_add, hw]
        rw [hp]
        exact (Relation.ReflTransGen.single h₁).tail h₂
  · rename_i i hi
    have hmem : (some (h.strand, fd), i) ∈ L.watchers := by
      rw [hw, Multiset.mem_add]
      exact Or.inl (mem_places.mpr ⟨rfl, hi⟩)
    split at hm
    · rename_i hev
      cases hm
      let L₁ : Ledger := { L with hub := L.hub.retire i }
      have h₁ : Move L L₁ := .retire hmem
      have hw' : L₁.watchers = (some (h.strand, fd), i) ::ₘ
          (places { h with watchers := h.watchers.erase fd } + ws) := by
        change L.watchers = _
        rw [hw, places_of_get? hi, Multiset.cons_add]
      have h₂ := Move.dropWatcher hw' fun _ _ _ => Hub.wants_retire L.hub i
      have hgone : ∀ j, (some (h.strand, fd), j) ∉
          places { h with watchers := h.watchers.erase fd } + ws := by
        intro j hmem
        rcases Multiset.mem_add.mp hmem with hmem | hmem
        · have hget := (mem_places.mp hmem).2
          rw [Table.get?_erase_self] at hget
          cases hget
        · exact hws j hmem
      exact ((Relation.ReflTransGen.single h₁).tail h₂).tail
        (.unasked h.strand e fd hev hgone)
    · cases hm
      rw [← hw]
      exact .single (.setInterest e ev hmem)

theorem moves_monitor_error {err : Error} (hm : h.monitor e fd ev L.hub = (.error err, hub)) :
    Moves L { L with hub := hub } := by
  unfold Handler.monitor at hm
  split at hm
  · split at hm
    · cases hm
    · split at hm
      · rename_i err' hub' hn
        cases hm
        obtain ⟨m, hr, rfl⟩ := Hub.newWatcher_error hn
        exact .single (.refused hr)
      · cases hm
  · split at hm <;> cases hm

theorem moves_negotiate {seconds accepted : Nat} (hh : h.strand ∈ L.handlers)
    (hb : L.heartbeats = beats h + ts) (hts : ∀ t, (some h.strand, t) ∉ ts)
    (hm : h.negotiate e seconds L.hub = (accepted, h', hub)) :
    h'.strand = h.strand ∧ h'.watchers = h.watchers ∧
      Moves L { L with
        hub := hub
        heartbeats := beats h' + ts
        log := (Interval.ofSeconds? seconds).toList.map (.negotiated h.strand e) ++ L.log } := by
  have hheld : ∀ s, some h.strand = some s → s ∈ L.handlers := by
    rintro s ⟨⟩
    exact hh
  unfold Handler.negotiate at hm
  split at hm
  · rename_i hn
    cases hm
    rw [hn, ← hb]
    exact ⟨rfl, rfl, .refl⟩
  · rename_i interval hi
    rw [hi]
    split at hm
    · rename_i t ht
      cases hm
      rw [← hb]
      have hmem : (some h.strand, t) ∈ L.heartbeats := by
        rw [hb, Multiset.mem_add]
        exact Or.inl (mem_beats.mpr ⟨rfl, ht⟩)
      exact ⟨rfl, rfl, .single (.setHeartbeat e interval hmem hheld)⟩
    · rename_i ht
      cases hm
      let L' : Ledger := { L with
        hub := (L.hub.newHeartbeat h.strand).2
        heartbeats := (some h.strand, (L.hub.newHeartbeat h.strand).1) ::ₘ L.heartbeats }
      have hfree : ∀ t, (some h.strand, t) ∉ L.heartbeats := by
        intro t hmem
        rw [hb] at hmem
        rcases Multiset.mem_add.mp hmem with hmem | hmem
        · rw [(mem_beats.mp hmem).2] at ht
          cases ht
        · exact hts t hmem
      have h₁ : Move L L' := .newHeartbeat (Or.inl ⟨rfl, hh⟩) fun _ => hfree
      have h₂ := Move.setHeartbeat (L := L') e interval (Multiset.mem_cons_self _ _) hheld
      have hp : (some h.strand, (L.hub.newHeartbeat h.strand).1) ::ₘ L.heartbeats =
          beats { h with heartbeat := some (L.hub.newHeartbeat h.strand).1 } + ts := by
        rw [hb]
        simp [beats, ht]
      have h₃ := (Relation.ReflTransGen.single h₁).tail h₂
      simp only [L', hp] at h₃
      exact ⟨rfl, rfl, h₃⟩

theorem moves_close (hb : L.heartbeats = beats h + ts) (hm : h.close L.hub = (h', hub)) :
    h'.strand = h.strand ∧ h'.watchers = h.watchers ∧
      Moves L { L with hub := hub, heartbeats := beats h' + ts } := by
  unfold Handler.close at hm
  split at hm
  · cases hm
    rw [← hb]
    exact ⟨rfl, rfl, .refl⟩
  · rename_i t ht
    cases hm
    have hb' : L.heartbeats = (some h.strand, t) ::ₘ ts := by
      rw [hb]
      simp [beats, ht]
    have hmem : (some h.strand, t) ∈ L.heartbeats := by
      rw [hb']
      exact Multiset.mem_cons_self _ _
    let L' : Ledger := { L with hub := L.hub.stopHeartbeat t }
    have h₁ : Move L L' := .stopHeartbeat hmem
    have h₂ := Move.dropHeartbeat (L := L') hb' fun _ _ _ _ => L.hub.deadline_stopHeartbeat
    have hp : beats { h with heartbeat := none } + ts = ts := by simp [beats]
    refine ⟨rfl, rfl, ?_⟩
    rw [hp]
    exact (Relation.ReflTransGen.single h₁).tail h₂

private theorem moves_dropWatchers {s : Nat} (hs : s ∉ L.handlers) (l : List (Int × Nat))
    (hw : L.watchers = (l : Multiset (Int × Nat)).map (fun (fd, i) => (some (s, fd), i)) + ws) :
    Moves L { L with
      hub := (l.map (·.2)).foldl (fun hub i => hub.dropWatcher i) L.hub
      watchers := ws } := by
  induction l generalizing L with
  | nil =>
    have hw' : L.watchers = ws := by simpa using hw
    rw [← hw']
    exact .refl
  | cons entry l ih =>
    obtain ⟨fd, i⟩ := entry
    have hw' : L.watchers = (some (s, fd), i) ::ₘ
        ((l : Multiset (Int × Nat)).map (fun (fd, i) => (some (s, fd), i)) + ws) := by
      rw [hw, ← Multiset.cons_coe, Multiset.map_cons, Multiset.cons_add]
    have hgone : ∀ p, some (s, fd) = some p → p.1 ∈ L.handlers →
        ∀ d, L.hub.wants i d = false := by
      rintro p ⟨⟩ hmem
      exact absurd hmem hs
    exact Relation.ReflTransGen.head (.dropWatcher hw' hgone)
      (ih (L := { L with hub := L.hub.dropWatcher i, watchers := _ }) hs rfl)

/-- It does not matter that a handler drops its strand last. What it holds is not that of a handler
that is alive any more when it is dropped. -/
theorem moves_drop {hs : Multiset Nat} (hh : L.handlers = h.strand ::ₘ hs) (hs' : h.strand ∉ hs)
    (hw : L.watchers = places h + ws) (hb : L.heartbeats = beats h + ts) :
    Moves L { L with
      hub := h.drop L.hub, handlers := hs, watchers := ws, heartbeats := ts } := by
  let L₁ : Ledger := { L with hub := L.hub.dropStrand h.strand, handlers := hs }
  have h₁ : Move L L₁ := .dropHandler hh
  have h₂ := Relation.ReflTransGen.head h₁
    (moves_dropWatchers (L := L₁) hs' h.watchers.toList hw)
  simp only [L₁, Hub.dropWatchers_dropStrand] at h₂
  unfold Handler.drop
  cases ht : h.heartbeat with
  | none =>
    have hb' : L.heartbeats = ts := by simpa [beats, ht] using hb
    rw [← hb']
    exact h₂
  | some t =>
    have hb' : L.heartbeats = (some h.strand, t) ::ₘ ts := by simpa [beats, ht] using hb
    have hgone : ∀ s, some h.strand = some s → s ∉ hs := by
      rintro s ⟨⟩
      exact hs'
    have h₃ := h₂.tail (.dropHeartbeat hb' fun s heq hmem => absurd hmem (hgone s heq))
    simp only [Hub.dropHeartbeat_dropStrand] at h₃
    exact h₃

theorem moves_create (hf : ∀ t, (some L.hub.newStrand.1, t) ∉ L.heartbeats) :
    Moves L { L with
      hub := (Handler.create L.hub).2
      handlers := (Handler.create L.hub).1.strand ::ₘ L.handlers
      heartbeats := beats (Handler.create L.hub).1 + L.heartbeats } := by
  have h₁ := Move.newHandler (L := L)
  have h₂ := Move.newHeartbeat
    (L := { L with hub := L.hub.newStrand.2, handlers := L.hub.newStrand.1 ::ₘ L.handlers })
    (Or.inl ⟨rfl, Multiset.mem_cons_self _ _⟩) fun _ => hf
  have h₃ := (Relation.ReflTransGen.single h₁).tail h₂
  simpa [Handler.create, beats, Multiset.singleton_add] using h₃

theorem places_create (hub : Hub Manual) : places (Handler.create hub).1 = 0 := rfl

end Handlers
end Scenario
end Wakeup
