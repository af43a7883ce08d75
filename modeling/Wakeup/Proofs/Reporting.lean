import Wakeup.Proofs.OneSchedule

/-! What a handler tells of its heartbeats: the interval that was last negotiated while a current
wait is outstanding, but also after such a wait was given up. -/
namespace Wakeup

theorem Handler.heartbeatInterval_eq (h : Handler) (hub : Hub Manual) :
    h.heartbeatInterval hub = h.heartbeat.bind fun t => (hub.schedule? t).bind fun x =>
      if x.deadline.isSome then x.interval else none := by
  unfold heartbeatInterval Hub.schedule?
  cases h.heartbeat with
  | none => rfl
  | some t =>
    simp only [Option.bind_some]
    cases hub.heartbeats[t]? <;> rfl

namespace Scenario

/-- How many current beats of a strand were given up without an end of their schedule: the callback
was thrown away, or told that its wait was cancelled, or run when the engine had been dropped. -/
def forgoneBeats (hub : Hub Manual) (s : Nat) (log : List Event) : Nat :=
  log.countP (·.beat?.any (Beat.isOf hub s))

namespace Config
open Ledger
variable {c : Config} {log : List Event}

/-- When no engine is being called, a beat is expected of a wait that can still be run or because it
was given up. -/
theorem outstandingBeats_add_forgoneBeats (hrest : c.calls = []) (s : Nat) :
    c.world.outstandingBeats s + forgoneBeats c.world.hub s log =
      (c.ledger log).expected (Beat.isOf c.world.hub s) := by
  have hreactor := Manual.beats_eq (Beat.isOf c.world.hub s) c.world.hub.reactor
  have hcalls : (c.ledger log).calls = [] := hrest
  have hkept := countP_kept c log (Beat.isOf c.world.hub s)
  unfold World.outstandingBeats World.waits expected
  rw [List.countP_append, hkept, hcalls, ← hreactor]
  rfl

/-- A handler tells an interval just when a current beat is outstanding or was given up, and it is
the one that was last negotiated. -/
theorem heartbeatInterval_of_rest (hr : Reached c log) (hrest : c.calls = []) {h : Handler}
    (hh : h ∈ c.world.live) :
    c.world.outstandingBeats h.strand + forgoneBeats c.world.hub h.strand log =
        (if (h.heartbeatInterval c.world.hub).isSome then 1 else 0) ∧
      ∀ interval, h.heartbeatInterval c.world.hub = some interval →
        (lastNegotiated h.strand log).map (·.2) = some interval := by
  have hpaced := hr.paced
  rw [outstandingBeats_add_forgoneBeats hrest, expected_isOf hr hh, h.heartbeatInterval_eq]
  cases hheld : h.heartbeat with
  | none => exact ⟨rfl, nofun⟩
  | some t =>
    have hmem := (mem_heartbeats_iff hr hh).mpr hheld
    have hs : h.strand ∈ (c.ledger log).handlers := strand_mem_handlers hh
    obtain ⟨x, hx⟩ := schedule?_of_held hr.owned (Multiset.mem_map_of_mem (·.2) hmem)
    obtain ⟨hdue, hset⟩ := hpaced.balanced h.strand t x hmem hs hx
    change c.world.hub.schedule? t = some x at hx
    rw [Option.elim_some, hdue, Option.bind_some, hx, Option.bind_some]
    cases hdeadline : x.deadline with
    | none => exact ⟨rfl, nofun⟩
    | some deadline =>
      obtain ⟨interval, hi⟩ := Option.isSome_iff_exists.mp (hset (by rw [hdeadline]; rfl))
      obtain ⟨e, hlast, -⟩ := hpaced.pledged h.strand t x interval hmem hs hx hi
      change lastNegotiated h.strand log = _ at hlast
      refine ⟨by simp [hi], fun interval' heq => ?_⟩
      rw [hlast, Option.map_some, ← hi]
      exact heq

/-- What a handler tells of its heartbeats, when no engine is being called. It tells an interval
just when that was the last to be negotiated, and either exactly one current beat of its heartbeat
is outstanding or a current beat was given up. It tells none just when neither is the case. -/
theorem heartbeatInterval_iff (hr : Reached c log) (hrest : c.calls = []) {h : Handler}
    (hh : h ∈ c.world.live) :
    (∀ interval, h.heartbeatInterval c.world.hub = some interval ↔
      (lastNegotiated h.strand log).map (·.2) = some interval ∧
        (c.world.outstandingBeats h.strand = 1 ∨ 0 < forgoneBeats c.world.hub h.strand log)) ∧
    (h.heartbeatInterval c.world.hub = none ↔
      c.world.outstandingBeats h.strand = 0 ∧ forgoneBeats c.world.hub h.strand log = 0) := by
  obtain ⟨hcount, hlast⟩ := heartbeatInterval_of_rest hr hrest hh
  cases htold : h.heartbeatInterval c.world.hub with
  | none =>
    rw [htold, Option.isSome_none, if_neg Bool.false_ne_true] at hcount
    refine ⟨fun interval => ⟨nofun, fun hor => ?_⟩, ⟨fun _ => by omega, fun _ => rfl⟩⟩
    omega
  | some interval =>
    have hinterval := hlast interval htold
    rw [htold, Option.isSome_some, if_pos rfl] at hcount
    refine ⟨fun interval' => ?_, ⟨nofun, fun hboth => by omega⟩⟩
    rw [hinterval]
    constructor
    · exact fun heq => ⟨heq, by omega⟩
    · exact fun hor => hor.1

/-- An engine is dropped, and then its heartbeat is due. -/
def orphaning : List Op :=
  [.newHandler 0, .newEngine 0 {} false, .negotiate 0 0 5, .dropEngine 0, .advance 5000,
    .fireTimers]

/-- While the wait is in the reactor, the interval is told. -/
theorem heartbeatInterval_iff_orphaning :
    ((⟨0, some 0, ∅⟩ : Handler).heartbeatInterval
      (sample orphaning 3).1.world.hub).map (·.seconds) = some 5 := by
  let h : Handler := ⟨0, some 0, ∅⟩
  have hlive : h ∈ (sample orphaning 3).1.world.live := List.mem_singleton.mpr rfl
  have hiff := (heartbeatInterval_iff (reached_sample orphaning 3) rfl hlive).1 ⟨5, by decide⟩
  rw [hiff.mpr ⟨rfl, Or.inl (by decide)⟩]
  rfl

/-- Once the wait was run, no wait is outstanding, and the interval is still told. No wait was told
that it was cancelled, and none was thrown away. -/
theorem heartbeatInterval_orphaned :
    (sample orphaning 8).1.calls = [] ∧ (sample orphaning 8).1.step = none ∧
      (sample orphaning 8).1.world.live.length = 1 ∧
      (∀ h ∈ (sample orphaning 8).1.world.live,
        (h.heartbeatInterval (sample orphaning 8).1.world.hub).map (·.seconds) = some 5) ∧
      (sample orphaning 8).1.world.waits = [] ∧
      (sample orphaning 8).2 =
        [.completed ⟨0, .beat 0 1 0⟩ (.ok ()) false, .negotiated 0 0 ⟨5, by decide⟩] := by
  exact ⟨rfl, rfl, by decide, by decide, by decide, by decide⟩

end Config
end Scenario
end Wakeup
