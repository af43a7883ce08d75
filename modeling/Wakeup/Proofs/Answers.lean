import Wakeup.Scenario.Machine

/-! The answers of two runs, of which one tells parked waits more often. They are the same, but for
answers of deliveries in between, at any depth. -/
namespace Wakeup.Scenario

/-- What telling waits that they were cancelled answers. Only bare callbacks are reported. -/
def Entry.told (waits : List Wait) : Entry :=
  .mk (.number waits.length)
    (waits.flatMap fun wait => World.bareRecords wait.callback (.error .canceled))

mutual

/-- Answers, and the same ones with answers of deliveries in between. -/
inductive Entry.Interspersed : List Entry → List Entry → Prop
  | nil : Entry.Interspersed [] []
  | told (waits : List Wait) {es es' : List Entry} (h : Entry.Interspersed es es') :
    Entry.Interspersed es (Entry.told waits :: es')
  | cons (reply : Reply) {rs rs' : List Record} {es es' : List Entry}
    (hr : Record.Interspersed rs rs') (h : Entry.Interspersed es es') :
    Entry.Interspersed (.mk reply rs :: es) (.mk reply rs' :: es')
  | inside {inner inner' es es' : List Entry} (hi : Entry.Interspersed inner inner')
    (h : Entry.Interspersed es es') :
    Entry.Interspersed (.mk (.entries inner) [] :: es) (.mk (.entries inner') [] :: es')

/-- Callbacks, and the same ones with answers of deliveries between those that engines got in
them. -/
inductive Record.Interspersed : List Record → List Record → Prop
  | nil : Record.Interspersed [] []
  | same (r : Record) {rs rs' : List Record} (h : Record.Interspersed rs rs') :
    Record.Interspersed (r :: rs) (r :: rs')
  | call (engine : Int) (notice : Notice) {es es' : List Entry} {rs rs' : List Record}
    (he : Entry.Interspersed es es') (h : Record.Interspersed rs rs') :
    Record.Interspersed (.call engine notice (some es) :: rs)
      (.call engine notice (some es') :: rs')

end

namespace Record.Interspersed

theorem refl (rs : List Record) : Record.Interspersed rs rs := by
  induction rs with
  | nil => exact .nil
  | cons r rs ih => exact .same r ih

theorem append {rs rs' ss ss' : List Record} :
    Record.Interspersed rs rs' → Record.Interspersed ss ss' →
      Record.Interspersed (rs ++ ss) (rs' ++ ss')
  | .nil, hs => hs
  | .same r h, hs => .same r (h.append hs)
  | .call engine notice he h, hs => .call engine notice he (h.append hs)

theorem reverse {rs rs' : List Record} :
    Record.Interspersed rs rs' → Record.Interspersed rs.reverse rs'.reverse
  | .nil => .nil
  | .same r h => by
    rw [List.reverse_cons, List.reverse_cons]
    exact h.reverse.append (.same r .nil)
  | .call engine notice he h => by
    rw [List.reverse_cons, List.reverse_cons]
    exact h.reverse.append (.call engine notice he .nil)

end Record.Interspersed

namespace Entry.Interspersed

theorem append {es es' fs fs' : List Entry} :
    Entry.Interspersed es es' → Entry.Interspersed fs fs' →
      Entry.Interspersed (es ++ fs) (es' ++ fs')
  | .nil, hf => hf
  | .told waits h, hf => .told waits (h.append hf)
  | .cons reply hr h, hf => .cons reply hr (h.append hf)
  | .inside hi h, hf => .inside hi (h.append hf)

theorem reverse {es es' : List Entry} :
    Entry.Interspersed es es' → Entry.Interspersed es.reverse es'.reverse
  | .nil => .nil
  | .told waits h => by
    rw [List.reverse_cons, ← List.append_nil es.reverse]
    exact h.reverse.append (.told waits .nil)
  | .cons reply hr h => by
    rw [List.reverse_cons, List.reverse_cons]
    exact h.reverse.append (.cons reply hr .nil)
  | .inside hi h => by
    rw [List.reverse_cons, List.reverse_cons]
    exact h.reverse.append (.inside hi .nil)

theorem refl (es : List Entry) : Entry.Interspersed es es := by
  induction es with
  | nil => exact .nil
  | cons e es ih =>
    cases e with
    | mk reply rs => exact .cons reply (.refl rs) ih

/-- A call that both ran is reported with what each answered in it. -/
theorem callRecords {es es' : List Entry} (h : Entry.Interspersed es es') (cue : Cue) (w : World) :
    Record.Interspersed (w.callRecords cue es) (w.callRecords cue es') := by
  unfold World.callRecords
  split
  · exact .nil
  · split
    · cases cue.ops with
      | none => exact .refl _
      | some ops => exact .call _ _ h.reverse .nil
    · exact .nil

end Entry.Interspersed

/-- Activities that are the same but for what engines got as answers in calls that ended. -/
inductive Activity.Interspersed : Activity → Activity → Prop
  | outside : Activity.Interspersed .outside .outside
  | inside (strand : Nat) : Activity.Interspersed (.inside strand) (.inside strand)
  | completion (cue : Cue) (reply : Reply) :
    Activity.Interspersed (.completion cue reply) (.completion cue reply)
  | firing (count : Nat) (current : Option Cue) {rs rs' : List Record}
    (h : Record.Interspersed rs rs') :
    Activity.Interspersed (.firing count rs current) (.firing count rs' current)

theorem Activity.Interspersed.refl (a : Activity) : Activity.Interspersed a a := by
  cases a with
  | outside => exact .outside
  | inside s => exact .inside s
  | completion cue reply => exact .completion cue reply
  | firing count rs current => exact .firing count current (.refl rs)

/-- Frames with the same operations to come, of which the second got answers of deliveries in
between. -/
structure Frame.Interspersed (f g : Frame) : Prop where
  activity : Activity.Interspersed f.activity g.activity
  todo : g.todo = f.todo
  entries : Entry.Interspersed f.entries g.entries

namespace Frame.Interspersed
variable {f g : Frame}

theorem refl (f : Frame) : f.Interspersed f := ⟨.refl f.activity, rfl, .refl f.entries⟩

theorem push {e e' : Entry} (he : Entry.Interspersed [e] [e']) (h : Frame.Interspersed f g) :
    Frame.Interspersed (f.push e) (g.push e') :=
  ⟨h.activity, h.todo, he.append h.entries⟩

theorem pushTold (waits : List Wait) (h : Frame.Interspersed f g) :
    Frame.Interspersed f (g.push (.told waits)) :=
  ⟨h.activity, h.todo, .told waits h.entries⟩

end Frame.Interspersed
end Wakeup.Scenario
