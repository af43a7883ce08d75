import Wakeup.Proofs.Private
import Wakeup.Proofs.Views

/-! Strands as critical sections. A strand is busy exactly while something runs inside it. Entries
nest: what enters a strand, busy or not, runs at once and to its end, before what it interrupted goes
on. -/
namespace Wakeup.Scenario

/-- The strand inside which a frame is open. -/
def Activity.strand? : Activity → Option Nat
  | .inside s => some s
  | .completion cue _ => some cue.call.strand
  | .firing _ _ (some cue) => some cue.call.strand
  | _ => none

namespace Config
variable {c c' : Config} {log : List Event} {s : Nat}

/-- The strands inside which something runs, once for each entry, innermost first. -/
def occupied (c : Config) : List Nat :=
  (c.frame :: c.below).filterMap fun f => f.activity.strand?

section Busy

theorem countP_strands (fs : List Frame) (s : Nat) :
    (fs.filterMap fun f => f.activity.strand?).count s =
      (fs.filterMap fun f => f.activity.call?).countP (·.strand = s) +
        (fs.filterMap fun f => f.activity.inside?).count s := by
  induction fs with
  | nil => rfl
  | cons f fs ih =>
    obtain ⟨activity, todo, entries⟩ := f
    cases activity with
    | outside => exact ih
    | inside s' =>
      change (s' :: fs.filterMap _).count s = _ + (s' :: fs.filterMap _).count s
      rw [List.count_cons, List.count_cons, ih]
      exact add_assoc ..
    | completion cue reply =>
      change (cue.call.strand :: fs.filterMap _).count s = (cue.call :: fs.filterMap _).countP _ +
        (fs.filterMap fun f => f.activity.inside?).count s
      rw [List.count_cons, List.countP_cons, ih]
      simp only [beq_iff_eq, decide_eq_true_eq]
      omega
    | firing count records current =>
      cases current with
      | none => exact ih
      | some cue =>
        change (cue.call.strand :: fs.filterMap _).count s =
          (cue.call :: fs.filterMap _).countP _ +
            (fs.filterMap fun f => f.activity.inside?).count s
        rw [List.count_cons, List.countP_cons, ih]
        simp only [beq_iff_eq, decide_eq_true_eq]
        omega

/-- A strand is in use once for each entry. -/
theorem usesOf_eq_count (hr : Reached c log) (s : Nat) :
    usesOf c.world.hub.strands s = c.occupied.count s := by
  have h := hr.inUse.strands s
  change _ = _ + Multiset.count s ↑c.insides at h
  rw [Multiset.coe_count] at h
  rw [occupied, countP_strands]
  exact h

theorem strandBusy_iff (hr : Reached c log) (s : Nat) :
    c.world.hub.strandBusy s = true ↔ s ∈ c.occupied := by
  rw [← List.count_pos_iff, ← usesOf_eq_count hr, usesOf, Hub.strandBusy]
  cases c.world.hub.strands[s]? with
  | none => simp
  | some p => simp [Presence.inUse, Nat.pos_iff_ne_zero]

private theorem mem_occupied_iff :
    s ∈ c.occupied ↔ (∃ call ∈ c.calls, call.strand = s) ∨ s ∈ c.insides := by
  have hcount := countP_strands (c.frame :: c.below) s
  change c.occupied.count s = c.calls.countP _ + c.insides.count s at hcount
  rw [← List.count_pos_iff, hcount, Nat.add_pos_iff_pos_or_pos, List.countP_pos_iff,
    List.count_pos_iff]
  simp only [decide_eq_true_eq]

/-- Outside of all callbacks and dispatches no strand is entered. -/
theorem occupied_eq_nil (hg : Grounded (c.frame :: c.below)) (hb : c.below = []) :
    c.occupied = [] := by
  rw [hb] at hg
  unfold occupied
  rw [hb]
  have hactivity : c.frame.activity.strand? = none := by
    cases hc : c.frame.activity with
    | outside => rfl
    | _ => simp [Grounded, hc, Activity.nested] at hg
  exact List.filterMap_cons_none hactivity

end Busy

section Frames

/-- What an activity can be with which a frame is opened. -/
inductive Activity.Opening : Activity → Prop
  | inside (s : Nat) : Opening (.inside s)
  | completion (cue : Cue) (reply : Reply) : Opening (.completion cue reply)
  | firing : Opening (.firing 0 [] none)

private theorem opening_perform {w w' : World} {op : Op} {activity : Activity} {ops : List Op}
    (h : w.perform op = (w', .opened activity ops)) : Activity.Opening activity := by
  have hc (wait : Wait) (o : Outcome) (reply : Reply) (w : World)
      (h : w.completeWait wait o reply = (w', .opened activity ops)) :
      Activity.Opening activity := by
    unfold World.completeWait at h
    split at h <;> cases h
    exact .completion _ reply
  cases op with
  | dispatch =>
    simp only [World.perform, World.dispatch] at h
    split at h <;> cases h
    exact .inside _
  | complete =>
    simp only [World.perform, World.complete] at h
    split at h
    · cases h
    · exact hc _ _ _ _ h
  | invoke =>
    simp only [World.perform, World.invoke] at h
    split at h
    · cases h
    · exact hc _ _ _ _ h
  | fireTimers =>
    cases h
    exact .firing
  | _ => cases h

/-- What a step does to the frames. -/
inductive Shift (c : Config) : Config → Prop
  | ended {op : Op} {todo : List Op} (w : World) (entry : Entry) (ht : c.frame.todo = op :: todo) :
      Shift c ⟨w, ⟨c.frame.activity, todo, entry :: c.frame.entries⟩, c.below⟩
  | opened {op : Op} {todo : List Op} (w : World) (activity : Activity) (ops : List Op)
      (ht : c.frame.todo = op :: todo) (ho : Activity.Opening activity) :
      Shift c ⟨w, ⟨activity, ops, []⟩, ⟨c.frame.activity, todo, c.frame.entries⟩ :: c.below⟩
  | closed {f : Frame} {fs : List Frame} (w : World) (entry : Entry) (ht : c.frame.todo = [])
      (hb : c.below = f :: fs) : Shift c ⟨w, f.push entry, fs⟩
  | called {count : Nat} {records : List Record} (w : World) (cue : Cue) (ops : List Op)
      (ht : c.frame.todo = []) (ha : c.frame.activity = .firing count records none) :
      Shift c ⟨w, ⟨.firing count records (some cue), ops, []⟩, c.below⟩
  | fired {count : Nat} {records : List Record} {current : Option Cue} (w : World)
      (records' : List Record) (ht : c.frame.todo = [])
      (ha : c.frame.activity = .firing count records current) :
      Shift c ⟨w, ⟨.firing (count + 1) records' none, [], []⟩, c.below⟩

private theorem shift_close {w : World} {entry : Entry} (ht : c.frame.todo = [])
    (h : close w entry c.below = some c') : Shift c c' := by
  unfold close at h
  split at h
  · cases h
  · rename_i hb
    cases h
    exact .closed w entry ht hb

theorem shift_step (h : c.step = some c') : Shift c c' := by
  obtain ⟨w, ⟨activity, todo, entries⟩, below⟩ := c
  unfold step at h
  cases todo with
  | cons op todo =>
    dsimp only at h
    split at h
    · cases h
      exact .ended _ _ rfl
    · rename_i hp
      cases h
      exact .opened _ _ _ rfl (opening_perform hp)
  | nil =>
    cases activity with
    | outside => cases h
    | inside s => exact shift_close rfl h
    | completion cue reply => exact shift_close rfl h
    | firing count records current =>
      cases current with
      | some cue =>
        cases h
        exact .fired _ _ rfl rfl
      | none =>
        dsimp only at h
        unfold fire at h
        split at h
        · exact shift_close rfl h
        · split at h
          · cases h
            exact .fired _ _ rfl rfl
          · cases h
            exact .called _ _ _ rfl rfl

/-- Steps that are taken in configurations of a kind. -/
abbrev StepsIn (p : Config → Prop) : Config → Config → Prop :=
  Relation.ReflTransGen fun a b => p a ∧ a.step = some b

theorem StepsIn.mono {p q : Config → Prop} (hpq : ∀ a, p a → q a) (h : StepsIn p c c') :
    StepsIn q c c' :=
  Relation.ReflTransGen.mono (fun a _ h => ⟨hpq a h.1, h.2⟩) _ _ h

theorem StepsIn.steps {p : Config → Prop} (h : StepsIn p c c') : Steps c c' :=
  Relation.ReflTransGen.mono (fun _ _ h => h.2) _ _ h

private theorem Steps.grounded (h : Steps c c') (hg : Grounded (c.frame :: c.below)) :
    Grounded (c'.frame :: c'.below) := by
  induction h with
  | refl => exact hg
  | tail _ hs ih => exact grounded_step ih hs

/-- The last frame is never left without a step as long as others are open above it. -/
theorem exists_step (hg : Grounded (c.frame :: c.below)) {f : Frame} {fs : List Frame}
    (hb : c.below = f :: fs) : ∃ c', c.step = some c' := by
  obtain ⟨w, ⟨activity, todo, entries⟩, below⟩ := c
  subst hb
  unfold step
  cases todo with
  | cons op todo =>
    dsimp only
    split <;> exact ⟨_, rfl⟩
  | nil =>
    cases activity with
    | outside => cases hg.1
    | inside s => exact ⟨_, rfl⟩
    | completion cue reply => exact ⟨_, rfl⟩
    | firing count records current =>
      cases current with
      | some cue => exact ⟨_, rfl⟩
      | none =>
        dsimp only
        unfold fire
        split
        · exact ⟨_, rfl⟩
        · split <;> exact ⟨_, rfl⟩

/-- Frames that wait go on where they were, once what was opened above them has been closed. -/
theorem exists_return (hg : Grounded (c.frame :: c.below)) {f : Frame} {fs : List Frame}
    (hb : f :: fs <:+ c.below) :
    ∃ c' entry, StepsIn (fun a => f :: fs <:+ a.below) c c' ∧ c'.frame = f.push entry ∧
      c'.below = fs := by
  induction c using before_wellFounded.induction with
  | _ c ih =>
    have hne : ∃ g gs, c.below = g :: gs := by
      obtain ⟨gs, hgs⟩ := hb
      cases gs with
      | nil => exact ⟨f, fs, hgs.symm⟩
      | cons g gs => exact ⟨g, _, hgs.symm⟩
    obtain ⟨g, gs, hgs⟩ := hne
    obtain ⟨c₁, hs⟩ := exists_step hg hgs
    have hstill (hb₁ : f :: fs <:+ c₁.below) :
        ∃ c' entry, StepsIn (fun a => f :: fs <:+ a.below) c c' ∧ c'.frame = f.push entry ∧
          c'.below = fs := by
      obtain ⟨c', entry, hsteps, hclosed⟩ := ih c₁ (before_of_step hs) (grounded_step hg hs) hb₁
      exact ⟨c', entry, .head ⟨hb, hs⟩ hsteps, hclosed⟩
    cases shift_step hs with
    | ended => exact hstill hb
    | opened => exact hstill (hb.trans (List.suffix_cons _ _))
    | called => exact hstill hb
    | fired => exact hstill hb
    | closed w entry ht hb' =>
      rw [hb'] at hb
      rcases List.suffix_cons_iff.mp hb with heq | hb₁
      · cases heq
        exact ⟨_, entry, .single ⟨hb' ▸ List.suffix_rfl, hs⟩, rfl, rfl⟩
      · exact hstill hb₁

end Frames

section Entries

/-- All that is left to do inside a strand is done in it. -/
theorem exists_done (hg : Grounded (c.frame :: c.below)) :
    ∃ c', StepsIn (fun a => c.occupied <:+ a.occupied) c c' ∧ c'.frame.todo = [] ∧
      c'.frame.activity = c.frame.activity ∧ c'.below = c.below := by
  induction c using before_wellFounded.transGen.induction with
  | _ c ih =>
    have hself : c.occupied <:+ c.occupied := List.suffix_rfl
    -- a configuration in which the same is occupied, and less is left to do
    have hrest {c₁ : Config} (hsteps : StepsIn (fun a => c.occupied <:+ a.occupied) c c₁)
        (hbefore : Relation.TransGen Before c₁ c) (ha : c₁.frame.activity = c.frame.activity)
        (hb : c₁.below = c.below) :
        ∃ c', StepsIn (fun a => c.occupied <:+ a.occupied) c c' ∧ c'.frame.todo = [] ∧
          c'.frame.activity = c.frame.activity ∧ c'.below = c.below := by
      have heq : c₁.occupied = c.occupied := by
        simp only [occupied, List.filterMap_cons, ha, hb]
      obtain ⟨c', hsteps', htodo, ha', hb'⟩ :=
        ih c₁ hbefore (hsteps.steps.grounded hg)
      rw [heq] at hsteps'
      exact ⟨c', hsteps.trans hsteps', htodo, ha'.trans ha, hb'.trans hb⟩
    cases ht : c.frame.todo with
    | nil => exact ⟨c, .refl, ht, rfl, rfl⟩
    | cons op todo =>
      have hstep : ∃ c₁, c.step = some c₁ := by
        unfold step
        rw [ht]
        dsimp only
        split <;> exact ⟨_, rfl⟩
      obtain ⟨c₁, hs⟩ := hstep
      have hbefore := before_of_step hs
      have hg₁ := grounded_step hg hs
      cases shift_step hs with
      | ended => exact hrest (.single ⟨hself, hs⟩) (.single hbefore) rfl rfl
      | closed w entry ht' => cases ht.symm.trans ht'
      | called w cue ops ht' => cases ht.symm.trans ht'
      | fired w records ht' => cases ht.symm.trans ht'
      | opened w activity ops ht' =>
        obtain ⟨c₂, entry, hsteps, hframe, hb⟩ := exists_return hg₁ List.suffix_rfl
        refine @hrest c₂ (.head ⟨hself, hs⟩ (hsteps.mono fun a ha => ?_)) ?_ ?_ hb
        · exact (ha.filterMap fun f => f.activity.strand?).trans
            ((List.suffix_cons a.frame a.below).filterMap fun f => f.activity.strand?)
        · refine .trans_right ?_ (.single hbefore)
          exact Relation.ReflTransGen.mono (fun _ _ h => before_of_step h) _ _ hsteps.steps.swap
        · rw [hframe]
          rfl

/-- What is entered is busy. -/
theorem StepsIn.busy {c' : Config} {es : List Nat}
    (h : StepsIn (fun a => es <:+ a.occupied) c c') (hr : Reached c log) :
    StepsIn (fun a => es <:+ a.occupied ∧ ∀ s ∈ es, a.world.hub.strandBusy s = true) c c' := by
  induction h with
  | refl => exact .refl
  | @tail a b hsteps hs ih =>
    obtain ⟨log', hr'⟩ := ih.steps.reached hr
    exact ih.tail ⟨⟨hs.1, fun s hmem => (strandBusy_iff hr' s).mpr (hs.1.mem hmem)⟩, hs.2⟩

/-- What entered a strand runs to its end, while all that was entered stays so, and then what it
interrupted goes on. -/
theorem exists_exit (hg : Grounded (c.frame :: c.below)) (hs : c.step = some c')
    (he : c'.occupied = s :: c.occupied) :
    ∃ c'', StepsIn (fun a => s :: c.occupied <:+ a.occupied) c' c'' ∧
      c''.occupied = c.occupied ∧ c''.below = c.below ∧
      c''.frame.todo = c.frame.todo.tail := by
  have hg' := grounded_step hg hs
  obtain ⟨c₁, hsteps, htodo, ha, hb⟩ := exists_done hg'
  have heq : c₁.occupied = c'.occupied := by simp only [occupied, List.filterMap_cons, ha, hb]
  have hlast {c'' : Config} (hs₁ : c₁.step = some c'') :
      StepsIn (fun a => s :: c.occupied <:+ a.occupied) c' c'' := by
    rw [he] at hsteps heq
    exact hsteps.tail ⟨heq ▸ List.suffix_rfl, hs₁⟩
  have hnot (h : c'.occupied <:+ c.occupied) : False := by
    have hle := h.length_le
    rw [he, List.length_cons] at hle
    omega
  have hbelow : (c.below.filterMap fun f => f.activity.strand?) <:+ c.occupied :=
    (List.suffix_cons c.frame c.below).filterMap _
  obtain ⟨w₁, ⟨activity₁, todo₁, entries₁⟩, below₁⟩ := c₁
  dsimp only at htodo ha hb
  subst htodo ha hb
  cases shift_step hs with
  | ended => exact (hnot List.suffix_rfl).elim
  | closed w entry ht hb' =>
    rw [hb'] at hbelow
    exact (hnot hbelow).elim
  | opened w activity ops ht ho =>
    cases ho with
    | inside s' => exact ⟨_, hlast rfl, rfl, rfl, by rw [ht]; rfl⟩
    | completion cue reply => exact ⟨_, hlast rfl, rfl, rfl, by rw [ht]; rfl⟩
    | firing => exact (hnot List.suffix_rfl).elim
  | called w cue ops ht ha' =>
    refine ⟨_, hlast rfl, ?_, rfl, by rw [ht]; rfl⟩
    simp only [occupied, List.filterMap_cons, ha']
    rfl
  | fired => exact (hnot hbelow).elim

/-- A call that begins enters its strand. -/
theorem occupied_of_calls (hs : c.step = some c') {call : Call} (hc : c'.calls = call :: c.calls) :
    c'.occupied = call.strand :: c.occupied := by
  have hnot (h : c'.calls <:+ c.calls) : False := by
    have hle := h.length_le
    rw [hc, List.length_cons] at hle
    omega
  have hbelow : (c.below.filterMap fun f => f.activity.call?) <:+ c.calls :=
    (List.suffix_cons c.frame c.below).filterMap _
  cases shift_step hs with
  | ended => exact (hnot List.suffix_rfl).elim
  | closed w entry ht hb =>
    rw [hb] at hbelow
    exact (hnot hbelow).elim
  | opened w activity ops ht ho =>
    cases ho with
    | inside s => exact (hnot List.suffix_rfl).elim
    | completion cue reply =>
      have hcall : cue.call = call := (List.cons.inj hc).1
      rw [← hcall]
      rfl
    | firing => exact (hnot List.suffix_rfl).elim
  | called w cue ops ht ha =>
    have hcalls : cue.call :: c.calls = call :: c.calls := by
      refine Eq.trans ?_ hc
      simp only [calls, List.filterMap_cons, ha]
      rfl
    rw [← (List.cons.inj hcalls).1]
    simp only [occupied, List.filterMap_cons, ha]
    rfl
  | fired => exact (hnot hbelow).elim

/-- Whoever is to be told of a completion is told at once, inside the strand, busy or not. -/
theorem calls_of_asked (hs : c.step = some c') {wait : Wait} {o : Outcome}
    (he : c.world.completed wait o ∈ c.events)
    (hreaches : c.world.hub.reaches wait.callback = true)
    (hserves : serves c.world.hub wait.callback = true)
    (hasks : c.world.hub.asks wait.callback o = true) :
    ∃ call, wait.callback.part? = some call.owner.part ∧ c'.calls = call :: c.calls := by
  rcases calls_step hs with ⟨call, -, hnone⟩ | ⟨wait', o', call?, hone, hbegins, hc⟩ | ⟨-, honly⟩
  · rw [hnone] at he
    cases he
  · rw [hone, List.mem_singleton] at he
    cases he
    have hsome := hbegins.isSome_eq
    rw [hreaches, hserves, hasks] at hsome
    obtain ⟨call, rfl⟩ := Option.isSome_iff_exists.mp hsome
    exact ⟨call, hbegins.part?_eq call rfl, hc⟩
  · -- nobody is to be told of a wait that was cancelled
    obtain ⟨rfl, -⟩ := honly wait o _ he
    unfold Hub.asks at hasks
    rw [Verdict.of_canceled] at hasks
    revert hasks
    cases wait.callback <;> exact (absurd · Bool.false_ne_true)

/-- What a handler is asked to run inside its strand runs at once, busy or not. -/
theorem occupied_of_dispatch {n : Int} {ops todo : List Op} {h : Handler}
    (ht : c.frame.todo = .dispatch n ops :: todo) (hh : c.world.handlers.get? n = some h) :
    ∃ c', c.step = some c' ∧ c'.frame.todo = ops ∧ c'.occupied = h.strand :: c.occupied := by
  have hp : c.world.perform (.dispatch n ops) =
      (c.world.enterDispatch h.strand, .opened (.inside h.strand) ops) := by
    simp only [World.perform, World.dispatch, hh]
  refine ⟨⟨c.world.enterDispatch h.strand, ⟨.inside h.strand, ops, []⟩,
    { c.frame with todo := todo } :: c.below⟩, ?_, rfl, rfl⟩
  unfold step
  rw [ht]
  dsimp only
  rw [hp]

end Entries

/-- Every callback runs inside the strand of the watcher or the heartbeat that it is made for, and a
strand is busy exactly while a callback or a dispatch inside it is in progress. Entries nest: a
dispatch, or a completion of which an engine is to be told, enters its strand at once, busy or not,
and runs to its end before what it interrupted goes on, and meanwhile all strands that were entered
are busy, whatever is done in them. When no operation is in progress, no strand is busy. -/
theorem callbacks_inside_strand (hr : Reached c log) :
    (∀ call ∈ c.calls, c.world.hub.strandOf? call.owner.part = some call.strand) ∧
    (∀ s, c.world.hub.strandBusy s = true ↔
      (∃ call ∈ c.calls, call.strand = s) ∨ s ∈ c.insides) ∧
    (∀ n ops todo h, c.frame.todo = .dispatch n ops :: todo → c.world.handlers.get? n = some h →
      ∃ c', c.step = some c' ∧ c'.frame.todo = ops ∧ c'.occupied = h.strand :: c.occupied) ∧
    (∀ c' wait o, c.step = some c' → c.world.completed wait o ∈ c.events →
      c.world.hub.reaches wait.callback = true → serves c.world.hub wait.callback = true →
      c.world.hub.asks wait.callback o = true →
      ∃ call, wait.callback.part? = some call.owner.part ∧ c'.calls = call :: c.calls ∧
        c'.occupied = call.strand :: c.occupied) ∧
    (∀ c' s, c.step = some c' → c'.occupied = s :: c.occupied →
      ∃ c'', StepsIn (fun a => s :: c.occupied <:+ a.occupied ∧
          ∀ s' ∈ s :: c.occupied, a.world.hub.strandBusy s' = true) c' c'' ∧
        c''.occupied = c.occupied ∧ c''.below = c.below ∧
        c''.frame.todo = c.frame.todo.tail) ∧
    (c.below = [] → ∀ s, c.world.hub.strandBusy s = false) := by
  refine ⟨?_, ?_, ?_, ?_, ?_, ?_⟩
  · intro call hcall
    rw [← Hub.strandOf?_owner]
    exact hr.inUse.strandOf?_owner call hcall
  · intro s
    rw [strandBusy_iff hr, mem_occupied_iff]
  · intro n ops todo h ht hh
    exact occupied_of_dispatch ht hh
  · intro c' wait o hs he hreaches hserves hasks
    obtain ⟨call, hpart, hc⟩ := calls_of_asked hs he hreaches hserves hasks
    exact ⟨call, hpart, hc, occupied_of_calls hs hc⟩
  · intro c' s hs he
    obtain ⟨c'', hsteps, hrest⟩ := exists_exit hr.grounded hs he
    exact ⟨c'', hsteps.busy (hr.step hs), hrest⟩
  · intro hb s
    have hnot := (strandBusy_iff hr s).not
    rw [occupied_eq_nil hr.grounded hb, Bool.not_eq_true] at hnot
    exact hnot.mpr List.not_mem_nil

/-- An engine that is told that a descriptor can be read asks its handler to run something inside
the strand, which drops the handler. -/
def nesting : List Op :=
  [.newHandler 0, .newEngine 0 { process := [[.dispatch 0 [.dropHandler 0, .complete 5 .write
    (.ok ())]]] } false, .monitor 0 0 5 ⟨3⟩, .complete 5 .read (.ok ())]

/-- The strand is busy after the drop, and also in the callback that is made inside of it then. When
all is done, it is not. -/
theorem callbacks_inside_strand_nesting :
    (sample nesting 6).1.world.live.map (·.strand) = [] ∧
      (sample nesting 6).1.world.hub.strandBusy 0 = true ∧
      (sample nesting 7).1.occupied = [0, 0, 0] ∧
      (sample nesting 7).1.world.hub.strandBusy 0 = true ∧
      (sample nesting 10).1.world.hub.strandBusy 0 = false := by
  refine ⟨by decide, ?_, by decide, ?_, ?_⟩
  · exact ((callbacks_inside_strand (reached_sample nesting 6)).2.1 0).mpr (Or.inr (by decide))
  · exact ((callbacks_inside_strand (reached_sample nesting 7)).2.1 0).mpr (Or.inr (by decide))
  · have h := callbacks_inside_strand (reached_sample nesting 10)
    exact h.2.2.2.2.2 (by decide) 0

end Config
end Wakeup.Scenario
