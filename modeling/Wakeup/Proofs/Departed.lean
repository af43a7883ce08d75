import Wakeup.Proofs.Engines

/-! Engines that are gone. An engine that is dropped while it is not being called is gone at once:
it has no name by which anything could be asked for it, and it is not called again. -/
namespace Wakeup.Scenario

/-- The operations by which the engine of a name is given up. -/
inductive Op.Drops (n : Int) : Op → Prop
  | dropped : Drops n (.dropEngine n)
  | replaced (script : Script Op) (plain : Bool) : Drops n (.newEngine n script plain)

namespace Ledger
variable {L L' : Ledger}

/-- Engines are in use exactly as often as they are being called. -/
def Engaged (L : Ledger) : Prop :=
  ∀ e, usesOf L.hub.engines e = L.calls.countP (·.engine == e)

namespace Engaged

theorem move (hm : Move L L') (h : Engaged L) : Engaged L' := by
  intro e
  cases hm.enlists with
  | rests he hc => rw [he, hc, h e]
  | made he hc => rw [he, hc, usesOf_push, h e]
  | dropped e' he hc => rw [he, hc, usesOf_disown, h e]
  | called call ha he hc =>
    have hlt : call.engine < L.hub.engines.length := by
      by_contra hle
      unfold Hub.engineAlive at ha
      rw [List.getElem?_eq_none (not_lt.mp hle)] at ha
      cases ha
    rw [he, hc, usesOf_acquire hlt, List.countP_cons, h e]
    simp only [beq_iff_eq]

theorem finish (h : Engaged L) {call : Call} {cs : List Call} (hc : L.calls = call :: cs) :
    Engaged (L.finish call cs) := by
  intro e
  have he := h e
  rw [hc, List.countP_cons] at he
  have hengines : (L.finish call cs).hub.engines = L.hub.engines.modify call.engine .release :=
    Hub.engines_finish L.hub call
  have hcalls : (L.finish call cs).calls = cs := rfl
  rw [hengines, hcalls, usesOf_release, he]
  simp only [beq_iff_eq]
  omega

end Engaged
end Ledger

namespace Config
open Ledger
variable {c c' : Config} {log log' : List Event} {e : Nat}

theorem Reached.engaged (hr : Reached c log) : Engaged (c.ledger log) :=
  hr.keeps (fun hm _ h => h.move hm) (fun hc _ h => h.finish hc) fun _ => rfl

/-- An engine that is gone: it does not last, and no name is left for it. -/
structure Departed (e : Nat) (c : Config) : Prop where
  lt : e < c.world.hub.engines.length
  dead : c.world.hub.engineAlive e = false
  nameless : ∀ n, c.world.engines.get? n ≠ some e

namespace Departed

private theorem step (hr : Reached c log) (h : Departed e c) (hs : c.step = some c') :
    Departed e c' := by
  have hw := Run.wanes hr (Run.refl.step hs)
  refine ⟨h.lt.trans_le hw.length_le, ?_, fun n hn => ?_⟩
  · rw [← Bool.not_eq_true]
    intro ha
    have halive : c.world.hub.engineAlive e = true := hw.alive e h.lt ha
    rw [h.dead] at halive
    cases halive
  · cases renames_step hs with
    | same heq => exact h.nameless n (heq ▸ hn)
    | given m heq =>
      rw [heq, Table.get?_insert] at hn
      split at hn
      · exact h.lt.ne (Option.some.inj hn).symm
      · exact h.nameless n hn
    | taken m heq =>
      rw [heq, Table.get?_erase] at hn
      split at hn
      · cases hn
      · exact h.nameless n hn

theorem run (hr : Reached c log) (h : Departed e c) (hrun : Run c c' log') : Departed e c' := by
  induction hrun with
  | refl => exact h
  | step hrun hs ih => exact ih.step (hr.run hrun) hs
  | more ops _ _ ih => exact ⟨ih.lt, ih.dead, ih.nameless⟩

/-- An engine that is gone is not being called. -/
theorem engine_ne (hr : Reached c log) (h : Departed e c) {call : Call} (hc : call ∈ c.calls) :
    call.engine ≠ e := by
  intro heq
  have huses := hr.engaged e
  have hdead : (c.world.hub.engines[e]?).any Presence.alive = false := h.dead
  have hpos : 0 < c.calls.countP (·.engine == e) :=
    List.countP_pos_iff.mpr ⟨call, hc, beq_iff_eq.mpr heq⟩
  change usesOf c.world.hub.engines e = c.calls.countP (·.engine == e) at huses
  rw [List.getElem?_eq_getElem h.lt, Option.any_some, Presence.alive, Bool.or_eq_false_iff,
    Presence.inUse, bne_eq_false_iff_eq] at hdead
  rw [usesOf, List.getElem?_eq_getElem h.lt, Option.elim_some, hdead.2] at huses
  omega

end Departed

/-- An engine that is dropped while it is not being called is gone. -/
theorem departed_of_drops (hr : Reached c log) {op : Op} {todo : List Op} {n : Int}
    (ht : c.frame.todo = op :: todo) (hop : op.Drops n) (hn : c.world.engines.get? n = some e)
    (hidle : ∀ call ∈ c.calls, call.engine ≠ e) (hs : c.step = some c') : Departed e c' := by
  have hlt := hr.engine_lt hn
  have huses : usesOf c.world.hub.engines e = 0 := by
    refine (hr.engaged e).trans (List.countP_eq_zero.mpr fun call hc => ?_)
    exact fun heq => hidle call hc (beq_iff_eq.mp heq)
  have hdead : ∀ l : List Presence, l[e]? = c.world.hub.engines[e]? →
      ((l.modify e .disown)[e]?).any Presence.alive = false := by
    intro l hl
    rw [List.getElem?_modify_eq, hl, List.getElem?_eq_getElem hlt, Option.map_eq_map,
      Option.map_some, Option.any_some, Presence.alive_disown, Presence.inUse, bne_eq_false_iff_eq]
    rwa [usesOf, List.getElem?_eq_getElem hlt, Option.elim_some] at huses
  have hothers : ∀ m, m ≠ n → c.world.engines.get? m ≠ some e :=
    fun m hne hm => hne (hr.named.inj hm hn)
  cases hop with
  | dropped =>
    have hdrop : c.world.dropEngine n =
        ({ c.world with hub := c.world.hub.dropEngine e, engines := c.world.engines.erase n },
          .done) := by
      rw [World.dropEngine, hn]
    cases hs.symm.trans (step_of_ended ht (congrArg World.ended hdrop))
    refine ⟨?_, hdead _ rfl, fun m hm => ?_⟩
    · exact hlt.trans_le (Wanes.disown _ _).length_le
    · rw [Table.get?_erase] at hm
      by_cases hmn : m = n
      · rw [if_pos hmn] at hm
        cases hm
      · rw [if_neg hmn] at hm
        exact hothers m hmn hm
  | replaced script plain =>
    let hub := c.world.hub.newEngine.2.dropEngine e
    have hnew : c.world.newEngine n script plain =
        { c.world with
          hub := hub
          actors := c.world.actors ++ [⟨n, plain, script⟩]
          engines := c.world.engines.insert n c.world.hub.engines.length } := by
      rw [World.newEngine, hn]
      rfl
    have hend : c.world.perform (.newEngine n script plain) =
        World.ended (c.world.newEngine n script plain, .done) := rfl
    rw [hnew] at hend
    cases hs.symm.trans (step_of_ended ht hend)
    have hold : c.world.hub.newEngine.2.engines[e]? = c.world.hub.engines[e]? :=
      List.getElem?_append_left hlt
    refine ⟨?_, hdead _ hold, fun m hm => ?_⟩
    · refine (hlt.trans_le ?_).trans_le (Wanes.disown _ e).length_le
      exact (Wanes.push _).length_le
    · rw [Table.get?_insert] at hm
      by_cases hmn : m = n
      · rw [if_pos hmn] at hm
        exact hlt.ne (Option.some.inj hm).symm
      · rw [if_neg hmn] at hm
        exact hothers m hmn hm

end Config
end Wakeup.Scenario
