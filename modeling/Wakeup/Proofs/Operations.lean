import Wakeup.Proofs.Bookkeeping

/-! The moves of each operation of a scenario. -/
namespace Wakeup.Scenario
open Ledger

namespace World
variable {w : World} {name : Int} {h h' : Handler}

/-- The handlers that are alive, without the one of a name. -/
def others (w : World) (name : Int) : Multiset Handler :=
  ↑(w.handlers.erase name).values + ↑w.replaced

theorem held_of_get? (hg : w.handlers.get? name = some h) : w.held = h ::ₘ w.others name := by
  unfold held others
  rw [Table.coe_values_of_get? hg, Multiset.cons_add]

private theorem others_of_get?_eq_none (hg : w.handlers.get? name = none) :
    w.others name = w.held := by
  unfold held others
  rw [Table.erase_of_get?_eq_none hg]

theorem mem_held : h ∈ w.held ↔ h ∈ w.live := by
  unfold held live
  rw [Multiset.mem_add, Multiset.mem_coe, Multiset.mem_coe, List.mem_append]

theorem ledger_insert (w : World) (name : Int) (h : Handler) (hub : Hub Manual)
    (calls : List Call) (inside : List Nat) (log : List Event) :
    ({ w with hub := hub, handlers := w.handlers.insert name h } : World).ledger calls inside log =
      w.ledgerOf hub (h ::ₘ w.others name) calls inside log := by
  have hheld : ({ w with hub := hub, handlers := w.handlers.insert name h } : World).held =
      h ::ₘ w.others name := by
    unfold held others
    rw [Table.coe_values_insert, Multiset.cons_add]
  unfold ledger
  rw [hheld]
  rfl

end World

section Held
variable {w : World} {hub hub' : Hub Manual} {h h' : Handler} {hs : Multiset Handler}
  {calls : List Call} {inside : List Nat} {log : List Event}

theorem ledgerOf_cons : w.ledgerOf hub (h ::ₘ hs) calls inside log =
    { w.ledgerOf hub hs calls inside log with
      handlers := h.strand ::ₘ (w.ledgerOf hub hs calls inside log).handlers
      watchers := places h + (w.ledgerOf hub hs calls inside log).watchers
      heartbeats := beats h + (w.ledgerOf hub hs calls inside log).heartbeats } := by
  unfold World.ledgerOf
  rw [Multiset.map_cons, Multiset.cons_bind, Multiset.cons_bind, add_assoc, add_assoc]

theorem not_mem_heartbeats {s : Nat} (hd : ∀ h' ∈ hs, h'.strand ≠ s) (t : Nat) :
    (some s, t) ∉ (w.ledgerOf hub hs calls inside log).heartbeats := by
  intro hmem
  rcases Multiset.mem_add.mp hmem with hmem | hmem
  · obtain ⟨h', hh', hbeat⟩ := Multiset.mem_bind.mp hmem
    exact hd h' hh' (mem_beats.mp hbeat).1.symm
  · obtain ⟨_, -, heq⟩ := Multiset.mem_map.mp hmem
    cases heq

theorem strand_ne {s : Nat} (hs' : s ∉ hs.map (·.strand)) : ∀ h' ∈ hs, h'.strand ≠ s :=
  fun _ hh' heq => hs' (heq ▸ Multiset.mem_map_of_mem (·.strand) hh')

theorem moves_dropHandler (hd : h.strand ∉ hs.map (·.strand)) :
    Moves (w.ledgerOf hub (h ::ₘ hs) calls inside log)
      (w.ledgerOf (h.drop hub) hs calls inside log) := by
  rw [ledgerOf_cons]
  exact moves_drop (L := { w.ledgerOf hub hs calls inside log with
    handlers := _, watchers := _, heartbeats := _ }) rfl hd rfl rfl

private theorem moves_createHandler (hd : hub.newStrand.1 ∉ hs.map (·.strand)) :
    Moves (w.ledgerOf hub hs calls inside log)
      (w.ledgerOf (Handler.create hub).2 ((Handler.create hub).1 ::ₘ hs) calls inside log) := by
  rw [ledgerOf_cons, places_create, zero_add]
  exact moves_create (not_mem_heartbeats (strand_ne hd))

private theorem not_mem_watchers {hs : Multiset Handler} (hd : ∀ h' ∈ hs, h'.strand ≠ h.strand)
    (fd : Fd)
    (i : Nat) : (some (h.strand, fd), i) ∉ (w.ledgerOf hub hs calls inside log).watchers := by
  intro hmem
  rcases Multiset.mem_add.mp hmem with hmem | hmem
  · obtain ⟨h', hh', hplace⟩ := Multiset.mem_bind.mp hmem
    exact hd h' hh' (mem_places.mp hplace).1.symm
  · obtain ⟨_, -, heq⟩ := Multiset.mem_map.mp hmem
    cases heq

private theorem moves_monitorHeld {e : Nat} {fd : Fd} {ev : Events}
    (hd : ∀ h' ∈ hs, h'.strand ≠ h.strand) (hm : h.monitor e fd ev hub = (.ok h', hub')) :
    Moves (w.ledgerOf hub (h ::ₘ hs) calls inside log)
      (w.ledgerOf hub' (h' ::ₘ hs) calls inside (.monitored h.strand e fd ev :: log)) := by
  obtain ⟨hs', hb⟩ := monitor_fields hm
  have hbeats : beats h' = beats h := by
    unfold beats
    rw [hs', hb]
  have hmem : h.strand ∈ (w.ledgerOf hub (h ::ₘ hs) calls inside log).handlers := by
    rw [ledgerOf_cons]
    exact Multiset.mem_cons_self _ _
  have hw : (w.ledgerOf hub (h ::ₘ hs) calls inside log).watchers =
      places h + (w.ledgerOf hub hs calls inside log).watchers := by
    rw [ledgerOf_cons]
  have hmoves := moves_monitor hmem hw (not_mem_watchers hd fd) hm
  rw [ledgerOf_cons] at hmoves ⊢
  rw [ledgerOf_cons, hs', hbeats]
  exact hmoves

theorem moves_heartbeatHeld {log' : List Event} (hs' : h'.strand = h.strand)
    (hw : h'.watchers = h.watchers)
    (hm : Moves (w.ledgerOf hub (h ::ₘ hs) calls inside log)
      { w.ledgerOf hub (h ::ₘ hs) calls inside log with
        hub := hub'
        heartbeats := beats h' + (w.ledgerOf hub hs calls inside log).heartbeats
        log := log' }) :
    Moves (w.ledgerOf hub (h ::ₘ hs) calls inside log)
      (w.ledgerOf hub' (h' ::ₘ hs) calls inside log') := by
  have hplaces : places h' = places h := by
    unfold places
    rw [hs', hw]
  rw [ledgerOf_cons] at hm ⊢
  rw [ledgerOf_cons, hs', hplaces]
  exact hm

private theorem moves_negotiateHeld {e seconds accepted : Nat} (hd : h.strand ∉ hs.map (·.strand))
    (hm : h.negotiate e seconds hub = (accepted, h', hub')) :
    Moves (w.ledgerOf hub (h ::ₘ hs) calls inside log)
      (w.ledgerOf hub' (h' ::ₘ hs) calls inside
        ((Interval.ofSeconds? seconds).toList.map (.negotiated h.strand e) ++ log)) := by
  have hmem : h.strand ∈ (w.ledgerOf hub (h ::ₘ hs) calls inside log).handlers := by
    rw [ledgerOf_cons]
    exact Multiset.mem_cons_self _ _
  have hb : (w.ledgerOf hub (h ::ₘ hs) calls inside log).heartbeats =
      beats h + (w.ledgerOf hub hs calls inside log).heartbeats := by
    rw [ledgerOf_cons]
  have hfree : ∀ t, (some h.strand, t) ∉ (w.ledgerOf hub hs calls inside log).heartbeats :=
    not_mem_heartbeats (strand_ne hd)
  obtain ⟨hs', hw, hmoves⟩ := moves_negotiate hmem hb hfree hm
  exact moves_heartbeatHeld hs' hw hmoves

private theorem moves_closeHeld (hm : h.close hub = (h', hub')) :
    Moves (w.ledgerOf hub (h ::ₘ hs) calls inside log)
      (w.ledgerOf hub' (h' ::ₘ hs) calls inside log) := by
  have hb : (w.ledgerOf hub (h ::ₘ hs) calls inside log).heartbeats =
      beats h + (w.ledgerOf hub hs calls inside log).heartbeats := by
    rw [ledgerOf_cons]
  obtain ⟨hs', hw, hmoves⟩ := moves_close hb hm
  exact moves_heartbeatHeld hs' hw hmoves

end Held

section Operations
variable (w : World) (calls : List Call) (inside : List Nat) (log : List Event)

theorem ledger_of_get? {w : World} {name : Int} {h : Handler}
    (hg : w.handlers.get? name = some h) :
    w.ledger calls inside log = w.ledgerOf w.hub (h ::ₘ w.others name) calls inside log := by
  unfold World.ledger
  rw [World.held_of_get? hg]

theorem moves_newHandler (name : Int)
    (hn : (w.hub.newStrand.1 ::ₘ (w.ledger calls inside log).handlers).Nodup) :
    Moves (w.ledger calls inside log) ((w.newHandler name).ledger calls inside log) := by
  have hcreate : Moves (w.ledgerOf w.hub w.held calls inside log)
      (w.ledgerOf (Handler.create w.hub).2 ((Handler.create w.hub).1 ::ₘ w.held) calls inside
        log) := moves_createHandler (Multiset.nodup_cons.mp hn).1
  unfold World.newHandler
  dsimp only
  split
  · rename_i hg
    have heq := w.ledger_insert name (Handler.create w.hub).1 (Handler.create w.hub).2 calls
      inside log
    rw [World.others_of_get?_eq_none hg] at heq
    exact heq ▸ hcreate
  · rename_i old hg
    rw [World.held_of_get? hg, Multiset.cons_swap] at hcreate
    rw [ledger_of_get? calls inside log hg]
    unfold World.replaceHandler
    split
    · -- the old handler stays alive, among those that are replaced
      have hheld : World.held { w with
          hub := (Handler.create w.hub).2
          handlers := w.handlers.insert name (Handler.create w.hub).1
          replaced := old :: w.replaced } =
          old ::ₘ (Handler.create w.hub).1 ::ₘ w.others name := by
        unfold World.held World.others
        rw [Table.coe_values_insert, ← Multiset.cons_coe, Multiset.cons_add, Multiset.add_cons,
          Multiset.cons_swap]
      change Moves _ (World.ledgerOf w (Handler.create w.hub).2 (World.held { w with
        hub := (Handler.create w.hub).2
        handlers := w.handlers.insert name (Handler.create w.hub).1
        replaced := old :: w.replaced }) calls inside log)
      rw [hheld]
      exact hcreate
    · have heq := w.ledger_insert name (Handler.create w.hub).1
        (old.drop (Handler.create w.hub).2) calls inside log
      have hold : old.strand ∉
          ((Handler.create w.hub).1 ::ₘ w.others name).map (·.strand) := by
        change (w.hub.newStrand.1 ::ₘ w.held.map (·.strand)).Nodup at hn
        rw [World.held_of_get? hg, Multiset.map_cons, Multiset.cons_swap] at hn
        rw [Multiset.map_cons]
        exact (Multiset.nodup_cons.mp hn).1
      exact heq ▸ hcreate.trans (moves_dropHandler hold)

theorem not_mem_others {w : World} {name : Int} {h : Handler}
    (hn : (w.ledger calls inside log).handlers.Nodup) (hg : w.handlers.get? name = some h) :
    h.strand ∉ (w.others name).map (·.strand) := by
  rw [ledger_of_get? calls inside log hg, ledgerOf_cons] at hn
  exact (Multiset.nodup_cons.mp hn).1

theorem moves_dropHandlerOp (name : Int) (hn : (w.ledger calls inside log).handlers.Nodup) :
    Moves (w.ledger calls inside log) ((w.dropHandler name).1.ledger calls inside log) := by
  unfold World.dropHandler
  split
  · exact .refl
  · rename_i h hg
    have hd := not_mem_others calls inside log hn hg
    rw [ledger_of_get? calls inside log hg]
    exact moves_dropHandler hd

theorem moves_monitorOp (h e : Int) (fd : Fd) (ev : Events)
    (hn : (w.ledger calls inside log).handlers.Nodup) :
    Moves (w.ledger calls inside log)
      ((w.monitor h e fd ev).1.ledger calls inside
        ((w.events (.monitor h e fd ev)).reverse ++ log)) := by
  cases he : w.engines.get? e with
  | none =>
    have h₁ : w.monitor h e fd ev = (w, .missing) := by simp [World.monitor, he]
    have h₂ : w.events (.monitor h e fd ev) = [] := by simp [World.events, he]
    rw [h₁, h₂]
    exact .refl
  | some engine =>
    cases hg : w.handlers.get? h with
    | none =>
      have h₁ : w.monitor h e fd ev = (w, .missing) := by simp [World.monitor, he, hg]
      have h₂ : w.events (.monitor h e fd ev) = [] := by simp [World.events, he, hg]
      rw [h₁, h₂]
      exact .refl
    | some handler =>
      cases hm : handler.monitor engine fd ev w.hub with
      | mk result hub =>
        cases result with
        | error err =>
          have h₁ : (w.monitor h e fd ev).1 = w.setHub hub := by
            simp [World.monitor, he, hg, hm]
          have h₂ : w.events (.monitor h e fd ev) = [] := by simp [World.events, he, hg, hm]
          rw [h₁, h₂]
          exact moves_monitor_error (L := w.ledger calls inside log) hm
        | ok handler' =>
          have h₁ : (w.monitor h e fd ev).1 =
              { w with hub := hub, handlers := w.handlers.insert h handler' } := by
            simp [World.monitor, he, hg, hm]
          have h₂ : w.events (.monitor h e fd ev) =
              [.monitored handler.strand engine fd ev] := by simp [World.events, he, hg, hm]
          rw [h₁, h₂, World.ledger_insert, ledger_of_get? calls inside log hg]
          exact moves_monitorHeld (strand_ne (not_mem_others calls inside log hn hg)) hm

theorem moves_negotiateOp (h e : Int) (seconds : Nat)
    (hn : (w.ledger calls inside log).handlers.Nodup) :
    Moves (w.ledger calls inside log) ((w.negotiate h e seconds).1.ledger calls inside
      ((w.events (.negotiate h e seconds)).reverse ++ log)) := by
  cases he : w.engines.get? e with
  | none =>
    have h₁ : w.negotiate h e seconds = (w, .missing) := by simp [World.negotiate, he]
    have h₂ : w.events (.negotiate h e seconds) = [] := by simp [World.events, he]
    rw [h₁, h₂]
    exact .refl
  | some engine =>
    cases hg : w.handlers.get? h with
    | none =>
      have h₁ : w.negotiate h e seconds = (w, .missing) := by simp [World.negotiate, he, hg]
      have h₂ : w.events (.negotiate h e seconds) = [] := by simp [World.events, he, hg]
      rw [h₁, h₂]
      exact .refl
    | some handler =>
      have h₂ : (w.events (.negotiate h e seconds)).reverse =
          (Interval.ofSeconds? seconds).toList.map (.negotiated handler.strand engine) := by
        simp only [World.events, he, hg]
        cases Interval.ofSeconds? seconds <;> rfl
      have hd := not_mem_others calls inside log hn hg
      simp only [World.negotiate, he, hg]
      rw [h₂, World.ledger_insert, ledger_of_get? calls inside log hg]
      exact moves_negotiateHeld hd rfl

theorem moves_closeOp (h e : Int) :
    Moves (w.ledger calls inside log) ((w.close h e).1.ledger calls inside log) := by
  unfold World.close
  split
  · rename_i engine handler he hg
    cases hc : handler.close w.hub with
    | mk handler' hub =>
      dsimp only
      rw [World.ledger_insert, ledger_of_get? calls inside log hg]
      exact moves_closeHeld hc
  · exact .refl

theorem moves_enterDispatch {h : Handler} (hh : h ∈ w.held) :
    Moves (w.ledger calls inside log)
      ((w.enterDispatch h.strand).ledger calls (h.strand :: inside) log) :=
  .single (.enter (Multiset.mem_map_of_mem _ hh))

/-- Handlers of other strands than that of one among them, if the strands differ. -/
theorem filter_strand_ne {l : List Handler} {old : Handler} (hold : old ∈ l)
    (hl : (l.map (·.strand)).Nodup) :
    (l : Multiset Handler) = old ::ₘ ↑(l.filter (·.strand ≠ old.strand)) := by
  induction l with
  | nil => simp at hold
  | cons h l ih =>
    rw [List.map_cons, List.nodup_cons] at hl
    obtain ⟨hnew, hl⟩ := hl
    by_cases heq : h.strand = old.strand
    · have hne : ∀ x ∈ l, x.strand ≠ old.strand := by
        intro x hx hs
        apply hnew
        rw [heq, ← hs]
        exact List.mem_map_of_mem hx
      have hh : h = old := by
        rcases List.mem_cons.mp hold with rfl | hx
        · rfl
        · exact absurd rfl (hne old hx)
      rw [List.filter_cons_of_neg (by simpa using heq),
        List.filter_eq_self.mpr (by simpa using hne),
        ← hh, Multiset.cons_coe]
    · have hx : old ∈ l := by
        rcases List.mem_cons.mp hold with rfl | hx
        · exact absurd rfl heq
        · exact hx
      rw [List.filter_cons_of_pos (by simpa using heq), ← Multiset.cons_coe, ← Multiset.cons_coe,
        ih hx hl, Multiset.cons_swap]

theorem moves_leaveDispatch (s : Nat) (hn : (w.ledger calls (s :: inside) log).handlers.Nodup) :
    Moves (w.ledger calls (s :: inside) log) ((w.leaveDispatch s).ledger calls inside log) := by
  have h₁ : Moves (w.ledger calls (s :: inside) log)
      (w.ledgerOf (w.hub.leaveStrand s) w.held calls inside log) := .single (.leave rfl)
  unfold World.leaveDispatch
  dsimp only
  split
  · exact h₁
  · split
    · exact h₁
    · rename_i old hf
      have hs : old.strand = s := by simpa using List.find?_some hf
      have hr : (w.replaced.map (·.strand)).Nodup := by
        have hle : (w.replaced : Multiset Handler) ≤ w.held := Multiset.le_add_left _ _
        exact Multiset.coe_nodup.mp (Multiset.nodup_of_le (Multiset.map_le_map hle) hn)
      have hmem : old ∈ w.replaced := List.mem_of_find?_eq_some hf
      have hsplit := filter_strand_ne hmem hr
      rw [hs] at hsplit
      have hheld : w.held = old ::ₘ
          (↑w.handlers.values + ↑(w.replaced.filter (·.strand ≠ s))) := by
        unfold World.held
        rw [hsplit, Multiset.add_cons]
      have hgone : old.strand ∉ (↑w.handlers.values +
          ↑(w.replaced.filter (·.strand ≠ s)) : Multiset Handler).map (·.strand) := by
        change (w.held.map (·.strand)).Nodup at hn
        rw [hheld, Multiset.map_cons] at hn
        exact (Multiset.nodup_cons.mp hn).1
      rw [hheld] at h₁
      exact h₁.trans (moves_dropHandler hgone)

theorem moves_newEngine (name : Int) (script : Script Op) (plain : Bool) :
    Moves (w.ledger calls inside log)
      ((w.newEngine name script plain).ledger calls inside log) := by
  have h₁ : Moves (w.ledger calls inside log)
      { w.ledger calls inside log with hub := w.hub.newEngine.2 } := .single .newEngine
  unfold World.newEngine
  dsimp only
  split
  · exact h₁
  · rename_i old _
    exact h₁.tail (.dropEngine old)

theorem moves_dropEngineOp (name : Int) :
    Moves (w.ledger calls inside log) ((w.dropEngine name).1.ledger calls inside log) := by
  unfold World.dropEngine
  split
  · exact .refl
  · rename_i e _
    exact .single (.dropEngine e)

theorem moves_extendScript (name : Int) (script : Script Op) :
    Moves (w.ledger calls inside log) ((w.extendScript name script).1.ledger calls inside log) := by
  unfold World.extendScript
  split <;> exact .refl

theorem moves_ask (h : Int) (f : Handler → Reply) :
    Moves (w.ledger calls inside log) ((w.ask h f).1.ledger calls inside log) := by
  unfold World.ask
  split <;> exact .refl

theorem moves_newStrand (name : Int) :
    Moves (w.ledger calls inside log) ((w.newStrand name).ledger calls inside log) := by
  have h₁ : Moves (w.ledger calls inside log) { w.ledger calls inside log with
      hub := w.hub.newStrand.2, strands := w.hub.newStrand.1 ::ₘ ↑w.strands.values } :=
    .single .newStrand
  unfold World.newStrand
  dsimp only
  change Moves _ { w.ledger calls inside log with
    hub := _, strands := ↑(w.strands.insert name w.hub.newStrand.1).values }
  rw [Table.coe_values_insert]
  split
  · rename_i hg
    rw [Table.erase_of_get?_eq_none hg]
    exact h₁
  · rename_i old hg
    rw [Table.coe_values_of_get? hg, Multiset.cons_swap] at h₁
    exact h₁.tail (.dropStrand rfl)

theorem moves_dropStrandOp (name : Int) :
    Moves (w.ledger calls inside log) ((w.dropStrand name).1.ledger calls inside log) := by
  unfold World.dropStrand
  split
  · exact .refl
  · rename_i s hg
    exact .single (.dropStrand (Table.coe_values_of_get? hg))

theorem moves_strandBusy (name : Int) :
    Moves (w.ledger calls inside log) ((w.strandBusy name).1.ledger calls inside log) := by
  unfold World.strandBusy
  split <;> exact .refl

theorem mem_strands {name : Int} {s : Nat} (hg : w.strands.get? name = some s) :
    s ∈ (w.ledger calls inside log).strands :=
  Table.mem_values.mpr ⟨name, hg⟩

/-- The watchers of handlers, and those on their own. -/
theorem watchers_ledger : (w.ledger calls inside log).watchers =
    w.held.bind places + (w.watchers.values : Multiset Nat).map (none, ·) := rfl

theorem watchers_of_get? {w : World} {name : Int} {i : Nat}
    (hg : w.watchers.get? name = some i) :
    (w.ledger calls inside log).watchers = (none, i) ::ₘ
      (w.held.bind places + ((w.watchers.erase name).values : Multiset Nat).map (none, ·)) := by
  rw [watchers_ledger, Table.coe_values_of_get? hg, Multiset.map_cons, Multiset.add_cons]

theorem mem_watchers {w : World} {name : Int} {i : Nat} (hg : w.watchers.get? name = some i) :
    (none, i) ∈ (w.ledger calls inside log).watchers := by
  rw [watchers_of_get? calls inside log hg]
  exact Multiset.mem_cons_self _ _

theorem moves_newWatcher (name s : Int) (fd : Fd) :
    Moves (w.ledger calls inside log) ((w.newWatcher name s fd).1.ledger calls inside log) := by
  unfold World.newWatcher
  split
  · exact .refl
  · rename_i strand hs
    split
    · rename_i err hub hn
      obtain ⟨m, hr, rfl⟩ := Hub.newWatcher_error hn
      exact .single (.refused hr)
    · rename_i i hub hn
      have hmem := mem_strands w calls inside log hs
      have h₁ : Moves (w.ledger calls inside log) { w.ledger calls inside log with
          hub := hub, watchers := (none, i) ::ₘ (w.ledger calls inside log).watchers } :=
        .single (.newWatcher (Or.inr ⟨rfl, hmem⟩) nofun hn)
      dsimp only
      change Moves _ { w.ledger calls inside log with
        hub := _
        watchers := w.held.bind places +
          ((w.watchers.insert name i).values : Multiset Nat).map (none, ·) }
      rw [Table.coe_values_insert, Multiset.map_cons, Multiset.add_cons]
      split
      · rename_i hg
        rw [Table.erase_of_get?_eq_none hg]
        exact h₁
      · rename_i old hg
        rw [watchers_of_get? calls inside log hg, Multiset.cons_swap] at h₁
        exact h₁.tail (.dropWatcher rfl nofun)

theorem moves_setWatcher (name e : Int) (ev : Events) :
    Moves (w.ledger calls inside log) ((w.setWatcher name e ev).1.ledger calls inside log) := by
  unfold World.setWatcher
  split
  · rename_i engine i he hg
    exact .single (.setInterest engine ev (mem_watchers calls inside log hg))
  · exact .refl

theorem moves_retireWatcher (name : Int) :
    Moves (w.ledger calls inside log) ((w.retireWatcher name).1.ledger calls inside log) := by
  unfold World.retireWatcher
  split
  · exact .refl
  · rename_i i hg
    exact .single (.retire (mem_watchers calls inside log hg))

theorem moves_viewWatcher (name : Int) :
    Moves (w.ledger calls inside log) ((w.viewWatcher name).1.ledger calls inside log) := by
  unfold World.viewWatcher
  split
  · exact .refl
  · split <;> exact .refl

theorem moves_dropWatcherOp (name : Int) :
    Moves (w.ledger calls inside log) ((w.dropWatcher name).1.ledger calls inside log) := by
  unfold World.dropWatcher
  split
  · exact .refl
  · rename_i i hg
    exact .single (.dropWatcher (watchers_of_get? calls inside log hg) nofun)

theorem heartbeats_of_get? {w : World} {name : Int} {t : Nat}
    (hg : w.heartbeats.get? name = some t) :
    (w.ledger calls inside log).heartbeats = (none, t) ::ₘ
      (w.held.bind beats + ((w.heartbeats.erase name).values : Multiset Nat).map (none, ·)) := by
  change w.held.bind beats + (w.heartbeats.values : Multiset Nat).map (none, ·) = _
  rw [Table.coe_values_of_get? hg, Multiset.map_cons, Multiset.add_cons]

theorem mem_heartbeats {w : World} {name : Int} {t : Nat}
    (hg : w.heartbeats.get? name = some t) :
    (none, t) ∈ (w.ledger calls inside log).heartbeats := by
  rw [heartbeats_of_get? calls inside log hg]
  exact Multiset.mem_cons_self _ _

theorem moves_newHeartbeat (name s : Int) :
    Moves (w.ledger calls inside log) ((w.newHeartbeat name s).1.ledger calls inside log) := by
  unfold World.newHeartbeat
  split
  · exact .refl
  · rename_i strand hs
    have hmem := mem_strands w calls inside log hs
    have h₁ : Moves (w.ledger calls inside log) { w.ledger calls inside log with
        hub := (w.hub.newHeartbeat strand).2
        heartbeats := (none, (w.hub.newHeartbeat strand).1) ::ₘ
          (w.ledger calls inside log).heartbeats } :=
      .single (.newHeartbeat (Or.inr ⟨rfl, hmem⟩) nofun)
    dsimp only
    change Moves _ { w.ledger calls inside log with
      hub := _
      heartbeats := w.held.bind beats +
        ((w.heartbeats.insert name (w.hub.newHeartbeat strand).1).values : Multiset Nat).map
          (none, ·) }
    rw [Table.coe_values_insert, Multiset.map_cons, Multiset.add_cons]
    split
    · rename_i hg
      rw [Table.erase_of_get?_eq_none hg]
      exact h₁
    · rename_i old hg
      rw [heartbeats_of_get? calls inside log hg, Multiset.cons_swap] at h₁
      exact h₁.tail (.dropHeartbeat rfl nofun)

theorem moves_setHeartbeat (name e : Int) (seconds : Nat) :
    Moves (w.ledger calls inside log)
      ((w.setHeartbeat name e seconds).1.ledger calls inside log) := by
  unfold World.setHeartbeat
  split
  · rename_i engine t interval he hg hi
    exact .single (.setHeartbeat engine interval (mem_heartbeats calls inside log hg) nofun)
  · exact .refl

theorem moves_stopHeartbeat (name : Int) :
    Moves (w.ledger calls inside log) ((w.stopHeartbeat name).1.ledger calls inside log) := by
  unfold World.stopHeartbeat
  split
  · exact .refl
  · rename_i t hg
    exact .single (.stopHeartbeat (mem_heartbeats calls inside log hg))

theorem moves_viewHeartbeat (name : Int) :
    Moves (w.ledger calls inside log) ((w.viewHeartbeat name).1.ledger calls inside log) := by
  unfold World.viewHeartbeat
  split <;> exact .refl

theorem moves_dropHeartbeatOp (name : Int) :
    Moves (w.ledger calls inside log) ((w.dropHeartbeat name).1.ledger calls inside log) := by
  unfold World.dropHeartbeat
  split
  · exact .refl
  · rename_i t hg
    exact .single (.dropHeartbeat (heartbeats_of_get? calls inside log hg) nofun)

end Operations
end Wakeup.Scenario
