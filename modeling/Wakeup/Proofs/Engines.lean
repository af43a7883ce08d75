import Wakeup.Proofs.Calls
import Wakeup.Proofs.Frames
import Wakeup.Proofs.Private

/-! Engines, strands and heartbeats that are gone do not come back, and the engines that a scenario
names were made. -/
namespace Wakeup

/-- From one list of things to the other, some are new and none came back. -/
structure Wanes (l l' : List Presence) : Prop where
  length_le : l.length ≤ l'.length
  alive : ∀ e < l.length, l'[e]?.any Presence.alive = true → l[e]?.any Presence.alive = true

namespace Wanes
variable {l l' l'' : List Presence}

theorem refl (l : List Presence) : Wanes l l := ⟨le_refl _, fun _ _ => id⟩

theorem of_eq (h : l' = l) : Wanes l l' := h ▸ refl l

theorem trans (h : Wanes l l') (h' : Wanes l' l'') : Wanes l l'' where
  length_le := h.length_le.trans h'.length_le
  alive := fun e he ha => h.alive e he (h'.alive e (he.trans_le h.length_le) ha)

theorem push (l : List Presence) : Wanes l (l ++ [({} : Presence)]) where
  length_le := by simp
  alive := by
    intro e he ha
    rwa [List.getElem?_append_left he] at ha

/-- A use that ends, or an owner that gives up, brings nothing back. -/
theorem modify {f : Presence → Presence} (hf : ∀ p, (f p).alive = true → p.alive = true)
    (l : List Presence) (i : Nat) : Wanes l (l.modify i f) where
  length_le := (List.length_modify ..).ge
  alive := by
    intro e _ ha
    rw [List.getElem?_modify] at ha
    cases hp : l[e]? with
    | none =>
      rw [hp] at ha
      cases ha
    | some p =>
      rw [hp, Option.map_eq_map, Option.map_some, Option.any_some] at ha
      split at ha
      · exact hf p ha
      · exact ha

theorem disown (l : List Presence) (i : Nat) : Wanes l (l.modify i .disown) :=
  modify (fun p h => by
    rw [Presence.alive_disown] at h
    simp [Presence.alive, h]) l i

theorem release (l : List Presence) (i : Nat) : Wanes l (l.modify i .release) := by
  refine modify (fun p h => ?_) l i
  simp only [Presence.alive, Presence.release, Presence.inUse, Bool.or_eq_true, bne_iff_ne] at h ⊢
  refine h.imp id fun huses hzero => huses ?_
  rw [hzero]

/-- Only what is alive is taken into use. -/
theorem acquire {i : Nat} (hi : l[i]?.any Presence.alive = true) :
    Wanes l (l.modify i .acquire) where
  length_le := (List.length_modify ..).ge
  alive := by
    intro e _ ha
    by_cases hie : i = e
    · rwa [← hie]
    · rw [List.getElem?_modify] at ha
      simpa [hie] using ha

end Wanes

namespace Hub
variable {hub hub' : Hub Manual}

theorem engines_armSide (hub : Hub Manual) (i : Nat) (d : Direction) (e : Nat) :
    (hub.armSide i d e).engines = hub.engines := by
  unfold armSide
  split
  · rfl
  · split <;> rfl

theorem engines_setSide (hub : Hub Manual) (i e : Nat) (d : Direction) (wanted : Bool) :
    (hub.setSide i e d wanted).engines = hub.engines := by
  unfold setSide
  cases wanted with
  | false => rfl
  | true => exact engines_armSide (hub.modifySide i d _) i d e

theorem engines_setInterest (hub : Hub Manual) (i e : Nat) (ev : Events) :
    (hub.setInterest i e ev).engines = hub.engines :=
  (engines_setSide _ i e .write _).trans (engines_setSide hub i e .read _)

theorem engines_reapWatcher (hub : Hub Manual) (i : Nat) :
    (hub.reapWatcher i).engines = hub.engines := by
  unfold reapWatcher
  split
  · rfl
  · split <;> rfl

theorem engines_dropWatcher (hub : Hub Manual) (i : Nat) :
    (hub.dropWatcher i).engines = hub.engines :=
  engines_reapWatcher (hub.modifyWatcher i _) i

theorem engines_newWatcher {s i : Nat} {fd : Fd} (h : hub.newWatcher s fd = (.ok i, hub')) :
    hub'.engines = hub.engines := by
  obtain ⟨r, m, -, -, rfl⟩ := newWatcher_ok h
  rfl

theorem engines_armDeadline (hub : Hub Manual) (t deadline e : Nat) :
    (hub.armDeadline t deadline e).engines = hub.engines := by
  unfold armDeadline
  split <;> rfl

theorem engines_setHeartbeat (hub : Hub Manual) (t e : Nat) (interval : Interval) :
    (hub.setHeartbeat t e interval).engines = hub.engines := by
  unfold setHeartbeat
  split
  · rfl
  · rename_i x _
    exact engines_armDeadline ((hub.cancelTimer x.timer).modifySchedule t _) t _ e

theorem engines_stopHeartbeat (hub : Hub Manual) (t : Nat) :
    (hub.stopHeartbeat t).engines = hub.engines := by
  unfold stopHeartbeat
  split <;> rfl

theorem engines_nextBeat (hub : Hub Manual) (t generation e : Nat) :
    (hub.nextBeat t generation e).engines = hub.engines := by
  unfold nextBeat
  split
  · rfl
  · split
    · split
      · exact engines_armDeadline (hub.modifySchedule t _) t _ e
      · rfl
    · rfl

theorem engines_reapHeartbeat (hub : Hub Manual) (t : Nat) :
    (hub.reapHeartbeat t).engines = hub.engines := by
  unfold reapHeartbeat
  split
  · rfl
  · split <;> rfl

theorem engines_dropHeartbeat (hub : Hub Manual) (t : Nat) :
    (hub.dropHeartbeat t).engines = hub.engines :=
  engines_reapHeartbeat (hub.modifyHeartbeat t _) t

theorem engines_acquireOwner (hub : Hub Manual) (o : Owner) :
    (hub.acquireOwner o).engines = hub.engines := by
  cases o <;> rfl

theorem engines_releaseOwner (hub : Hub Manual) (o : Owner) :
    (hub.releaseOwner o).engines = hub.engines := by
  cases o with
  | watcher i d => exact engines_reapWatcher (hub.modifyWatcher i _) i
  | heartbeat t generation => exact engines_reapHeartbeat (hub.modifyHeartbeat t _) t

theorem engines_resume (hub : Hub Manual) (call : Call) :
    (hub.resume call).engines = hub.engines := by
  unfold resume
  split
  · split
    · exact engines_armSide _ _ _ _
    · rfl
  · exact engines_nextBeat _ _ _ _
  · rfl

theorem engines_finish (hub : Hub Manual) (call : Call) :
    (hub.finish call).engines = hub.engines.modify call.engine .release := by
  unfold finish
  rw [engines_releaseOwner]
  exact congrArg (List.modify · call.engine .release) (engines_resume hub call)

theorem engines_startCall (hub : Hub Manual) (call : Call) : (hub.startCall call).1.engines =
    (hub.startCall call).2.elim hub.engines fun call => hub.engines.modify call.engine .acquire := by
  unfold startCall
  split
  · exact congrArg (List.modify · call.engine .acquire) (engines_acquireOwner hub call.owner)
  · rfl

/-- An engine that is called is taken into use. -/
theorem engines_begin (hub : Hub Manual) (c : Callback) (o : Outcome) :
    (hub.begin c o).1.engines =
      (hub.begin c o).2.elim hub.engines fun call => hub.engines.modify call.engine .acquire := by
  cases c with
  | bare tag => rfl
  | ready i d e =>
    have hcall := engines_startCall (hub.modifySide i d ({ · with pending := false }))
    simp only [begin, beginReady]
    repeat' split
    all_goals first
      | rfl
      | exact hcall _
  | beat t generation e =>
    have hcall := engines_startCall hub
    have hfail := engines_startCall (hub.modifySchedule t ({ · with deadline := none }))
    simp only [begin, beginBeat]
    repeat' split
    all_goals first
      | rfl
      | exact hcall _
      | exact hfail _

/-- Only an engine that is alive is called. -/
theorem engineAlive_of_begin {c : Callback} {o : Outcome} {call : Call}
    (h : (hub.begin c o).2 = some call) : hub.engineAlive call.engine = true := by
  have hsome := isSome_begin hub c o
  rw [h, Option.isSome_some, eq_comm, Bool.and_eq_true, Bool.and_eq_true] at hsome
  have hserves := hsome.1.2
  rcases call_of_begin h with ⟨i, d, x, -, hc, -⟩ | ⟨t, x, -, hc, -⟩
  · rw [hc] at hserves
    exact hserves
  · rw [hc] at hserves
    exact hserves

/-- Only what a callback reaches is taken into use. -/
theorem wanes_roster_begin (hub : Hub Manual) (c : Callback) (o : Outcome) :
    Wanes hub.roster.strands (hub.begin c o).1.roster.strands ∧
      Wanes hub.roster.heartbeats (hub.begin c o).1.roster.heartbeats := by
  have hroster := roster_begin hub c o
  have hsome := isSome_begin hub c o
  cases hb : (hub.begin c o).2 with
  | none =>
    rw [hb] at hroster
    rw [hroster]
    exact ⟨.refl _, .refl _⟩
  | some call =>
    rw [hb, Option.isSome_some, eq_comm, Bool.and_eq_true, Bool.and_eq_true] at hsome
    have hreaches := hsome.1.1
    rw [hb] at hroster
    rw [hroster]
    dsimp only
    rcases call_of_begin hb with ⟨i, d, x, hx, hc, howner, hstrand, -⟩ |
        ⟨t, x, hx, hc, howner, hstrand, -⟩
    · rw [hc, reaches, hx, Option.any_some, Bool.and_eq_true] at hreaches
      rw [Roster.modifyCall, howner, hstrand]
      exact ⟨.acquire hreaches.2, .refl _⟩
    · rw [hc, reaches, hx, Option.any_some, Bool.and_eq_true] at hreaches
      have halive : hub.roster.heartbeats[t]?.any Presence.alive = true := by
        change (hub.heartbeats.map (·.presence))[t]?.any _ = true
        rw [List.getElem?_map, hx]
        exact hreaches.1
      rw [Roster.modifyCall, howner, hstrand]
      exact ⟨.acquire hreaches.2, .acquire halive⟩

theorem reaches_beat (hub : Hub Manual) (t generation e : Nat) :
    hub.reaches (.beat t generation e) = (hub.roster.heartbeats[t]?.any Presence.alive &&
      hub.roster.timed[t]?.any fun x => hub.roster.strands[x.2]?.any Presence.alive) := by
  change _ = ((hub.heartbeats.map (·.presence))[t]?.any Presence.alive &&
    (hub.heartbeats.map fun x => (x.timer, x.strand))[t]?.any fun x => hub.strandAlive x.2)
  rw [List.getElem?_map, List.getElem?_map]
  cases hx : hub.heartbeats[t]? <;> simp [reaches, hx]

end Hub

namespace Scenario
namespace Ledger
variable {L L' : Ledger}

/-- How a move changes engines: one is made, dropped, or taken into use for a call. -/
inductive Enlists (L L' : Ledger) : Prop
  | rests (he : L'.hub.engines = L.hub.engines) (hc : L'.calls = L.calls)
  | made (he : L'.hub.engines = L.hub.engines ++ [({} : Presence)]) (hc : L'.calls = L.calls)
  | dropped (e : Nat) (he : L'.hub.engines = L.hub.engines.modify e .disown)
      (hc : L'.calls = L.calls)
  | called (call : Call) (ha : L.hub.engineAlive call.engine = true)
      (he : L'.hub.engines = L.hub.engines.modify call.engine .acquire)
      (hc : L'.calls = call :: L.calls)

theorem Move.enlists (hm : Move L L') : Enlists L L' := by
  cases hm with
  | newEngine => exact .made rfl rfl
  | dropEngine e => exact .dropped e rfl rfl
  | newWatcher _ _ hn => exact .rests (Hub.engines_newWatcher hn) rfl
  | setInterest e ev => exact .rests (Hub.engines_setInterest _ _ e ev) rfl
  | dropWatcher => exact .rests (Hub.engines_dropWatcher _ _) rfl
  | setHeartbeat e interval => exact .rests (Hub.engines_setHeartbeat _ _ e interval) rfl
  | stopHeartbeat => exact .rests (Hub.engines_stopHeartbeat _ _) rfl
  | dropHeartbeat => exact .rests (Hub.engines_dropHeartbeat _ _) rfl
  | @complete wait ws o =>
    have hengines := Hub.engines_begin L.hub wait.callback o
    cases hb : (L.hub.begin wait.callback o).2 with
    | none =>
      rw [hb] at hengines
      exact .rests hengines rfl
    | some call =>
      rw [hb] at hengines
      exact .called call (Hub.engineAlive_of_begin hb) hengines rfl
  | _ => exact .rests rfl rfl

theorem Move.wanes (hm : Move L L') : Wanes L.hub.engines L'.hub.engines := by
  cases hm.enlists with
  | rests he => exact .of_eq he
  | made he => exact (Wanes.push _).trans (.of_eq he)
  | dropped e he => exact (Wanes.disown _ e).trans (.of_eq he)
  | called call ha he => exact (Wanes.acquire ha).trans (.of_eq he)

theorem wanes_finish (L : Ledger) (call : Call) (cs : List Call) :
    Wanes L.hub.engines (L.finish call cs).hub.engines := by
  refine (Wanes.release L.hub.engines call.engine).trans (.of_eq ?_)
  exact Hub.engines_finish L.hub call

theorem Move.wanes_roster (hm : Move L L') (ho : Owned L) :
    Wanes L.hub.roster.strands L'.hub.roster.strands ∧
      Wanes L.hub.roster.heartbeats L'.hub.roster.heartbeats := by
  have hsame (h : L'.hub.roster = L.hub.roster) :
      Wanes L.hub.roster.strands L'.hub.roster.strands ∧
        Wanes L.hub.roster.heartbeats L'.hub.roster.heartbeats :=
    ⟨.of_eq (congrArg Roster.strands h), .of_eq (congrArg Roster.heartbeats h)⟩
  cases hm with
  | newHandler => exact ⟨.push _, .refl _⟩
  | dropHandler => exact ⟨.disown _ _, .refl _⟩
  | newStrand => exact ⟨.push _, .refl _⟩
  | dropStrand => exact ⟨.disown _ _, .refl _⟩
  | newWatcher _ _ hn =>
    rw [(Hub.roster_newWatcher hn).2]
    exact ⟨.refl _, .refl _⟩
  | setInterest e ev => exact hsame (Hub.roster_setInterest L.hub _ e ev)
  | retire => exact hsame (Hub.roster_retire L.hub _)
  | dropWatcher =>
    rw [Hub.roster_dropWatcher]
    exact ⟨.refl _, .refl _⟩
  | newHeartbeat =>
    rw [Hub.roster_newHeartbeat]
    exact ⟨.refl _, .push _⟩
  | setHeartbeat e interval => exact hsame (Hub.roster_setHeartbeat L.hub _ e interval)
  | stopHeartbeat => exact hsame (Hub.roster_stopHeartbeat L.hub _)
  | dropHeartbeat =>
    rw [Hub.roster_dropHeartbeat]
    exact ⟨.refl _, .disown _ _⟩
  | enter hs => exact ⟨.acquire (ho.strandAlive_of_mem hs), .refl _⟩
  | leave => exact ⟨.release _ _, .refl _⟩
  | complete o => exact Hub.wanes_roster_begin _ _ o
  | _ => exact ⟨.refl _, .refl _⟩

theorem wanes_roster_finish (L : Ledger) (call : Call) (cs : List Call) :
    Wanes L.hub.roster.strands (L.finish call cs).hub.roster.strands ∧
      Wanes L.hub.roster.heartbeats (L.finish call cs).hub.roster.heartbeats := by
  have hroster := Hub.roster_finish L.hub call
  rw [finish, hroster, Roster.modifyCall]
  cases call.owner with
  | watcher i d => exact ⟨.release _ _, .refl _⟩
  | heartbeat t generation => exact ⟨.release _ _, .release _ _⟩

/-- A callback reaches a heartbeat only if it did before. -/
theorem reaches_of_wanes (ho : Owned L) (hm : Makes L L')
    (hw : Wanes L.hub.roster.strands L'.hub.roster.strands ∧
      Wanes L.hub.roster.heartbeats L'.hub.roster.heartbeats) {t generation e : Nat}
    (ht : t < L.hub.heartbeats.length) (h : L'.hub.reaches (.beat t generation e) = true) :
    L.hub.reaches (.beat t generation e) = true := by
  rw [Hub.reaches_beat, Bool.and_eq_true] at h ⊢
  have hlt : t < L.hub.roster.heartbeats.length := by
    change t < (L.hub.heartbeats.map _).length
    rwa [List.length_map]
  have hlt' : t < L.hub.roster.timed.length := by
    rwa [ho.heartbeats.length_eq]
  have htimed := List.getElem?_eq_getElem hlt'
  have htimed' := getElem?_of_prefix (timed_of_makes hm) htimed
  have hstrand := ho.heartbeats.strand_lt _ (List.getElem_mem hlt')
  rw [htimed', Option.any_some] at h
  rw [htimed, Option.any_some]
  exact ⟨hw.2.alive t hlt h.1, hw.1.alive _ hstrand h.2⟩

end Ledger

namespace World

theorem engines_completeWait (w : World) (wait : Wait) (o : Outcome) (reply : Reply) :
    (w.completeWait wait o reply).1.engines = w.engines := by
  unfold completeWait
  cases hb : w.begin wait o with
  | mk w' call =>
    have hw : w'.engines = w.engines := congrArg (·.1.engines) hb.symm
    cases call with
    | none => exact hw
    | some call =>
      refine Eq.trans ?_ hw
      simp only [cue]
      repeat' split
      all_goals rfl

private theorem engines_deliver (waits : List Wait) (w : World) :
    (waits.foldl (fun w wait => w.deliverOne wait) w).engines = w.engines := by
  induction waits generalizing w with
  | nil => rfl
  | cons wait waits ih => exact ih (w.deliverOne wait)

private theorem engines_leaveDispatch (w : World) (s : Nat) :
    (w.leaveDispatch s).engines = w.engines := by
  simp only [leaveDispatch]
  repeat' split
  all_goals rfl

/-- How the names of engines change: one may be given to an engine that is made, or taken away. -/
inductive Renames (w w' : World) : Prop
  | same (h : w'.engines = w.engines)
  | given (n : Int) (h : w'.engines = w.engines.insert n w.hub.engines.length)
      (hlt : w.hub.engines.length < w'.hub.engines.length)
  | taken (n : Int) (h : w'.engines = w.engines.erase n)

private theorem renames_perform (w : World) (op : Op) : Renames w (w.perform op).1 := by
  cases op with
  | newEngine name script plain =>
    have hlt : w.hub.engines.length < w.hub.newEngine.2.engines.length := by
      simp [Hub.newEngine]
    refine .given name rfl ?_
    simp only [perform, ended, newEngine]
    split
    · exact hlt
    · exact hlt.trans_le (Wanes.disown _ _).length_le
  | dropEngine name =>
    simp only [perform, ended, dropEngine]
    split
    · exact .same rfl
    · exact .taken name rfl
  | complete fd d o =>
    refine .same ?_
    simp only [perform, complete]
    split
    · rfl
    · exact engines_completeWait _ _ _ _
  | invoke slot o =>
    refine .same ?_
    simp only [perform, invoke]
    split
    · rfl
    · exact engines_completeWait _ _ _ _
  | deliverCanceled => exact .same (engines_deliver _ _)
  | _ =>
    refine .same ?_
    simp only [perform, ended, newHandler, replaceHandler, dropHandler, monitor, negotiate, close,
      ask, dispatch, extendScript, takeReady, takeTimed, discard, register, armRegistration,
      dropRegistration, newTimer, armTimer, cancelTimer, dropTimer, newStrand, dropStrand,
      strandBusy, newWatcher, setWatcher, retireWatcher, viewWatcher, dropWatcher, newHeartbeat,
      setHeartbeat, stopHeartbeat, viewHeartbeat, dropHeartbeat]
    repeat' split
    all_goals rfl

end World

namespace Config
variable {c c' : Config} {log log' : List Event}

theorem Run.wanes (hr : Reached c log) (h : Run c c' log') :
    Wanes c.world.hub.engines c'.world.hub.engines :=
  Run.keeps (P := fun L => Wanes c.world.hub.engines L.hub.engines) hr h
    (fun hm _ h => h.trans hm.wanes) (fun _ _ h => h.trans (Ledger.wanes_finish _ _ _)) (.refl _)

theorem renames_step (hs : c.step = some c') : World.Renames c.world c'.world := by
  obtain ⟨w, ⟨activity, todo, entries⟩, below⟩ := c
  unfold step at hs
  cases todo with
  | cons op todo =>
    have hperform := w.renames_perform op
    dsimp only at hs
    cases hp : w.perform op with
    | mk w' effect =>
      rw [hp] at hs hperform
      cases effect with
      | ended entry =>
        cases hs
        exact hperform
      | opened activity' ops =>
        cases hs
        exact hperform
  | nil =>
    refine .same ?_
    cases activity with
    | outside => cases hs
    | inside s => rw [close_world hs, World.engines_leaveDispatch]
    | completion cue reply =>
      rw [close_world hs]
      rfl
    | firing count records current =>
      cases current with
      | some cue =>
        cases hs
        rfl
      | none =>
        dsimp only at hs
        unfold fire at hs
        cases ht : w.hub.reactor.takeDue with
        | none =>
          rw [ht] at hs
          rw [close_world hs]
        | some taken =>
          obtain ⟨wait, m⟩ := taken
          have hcomplete :=
            World.engines_completeWait (w.modifyReactor fun _ => m) wait (.ok ()) .done
          unfold World.completeWait at hcomplete
          rw [ht] at hs
          dsimp only at hs
          cases hb : (w.modifyReactor fun _ => m).begin wait (.ok ()) with
          | mk w' call =>
            rw [hb] at hs hcomplete
            cases call with
            | none =>
              cases hs
              exact hcomplete
            | some call =>
              cases hs
              exact hcomplete

/-- The engines that a scenario names were made, and no two names are for the same engine. -/
structure Named (c : Config) : Prop where
  lt : ∀ {n e}, c.world.engines.get? n = some e → e < c.world.hub.engines.length
  inj : ∀ {n m e}, c.world.engines.get? n = some e → c.world.engines.get? m = some e → n = m

private theorem Named.step (hr : Reached c log) (h : c.Named) (hs : c.step = some c') :
    c'.Named := by
  have hle := (Run.wanes hr (Run.refl.step hs)).length_le
  cases renames_step hs with
  | same heq =>
    constructor
    · intro n e he
      exact (h.lt (heq ▸ he)).trans_le hle
    · rw [heq]
      exact h.inj
  | given n heq hlt =>
    constructor
    · intro m e he
      rw [heq, Table.get?_insert] at he
      split at he
      · exact Option.some.inj he ▸ hlt
      · exact (h.lt he).trans_le hle
    · intro m m' e he he'
      rw [heq, Table.get?_insert] at he he'
      by_cases hm : m = n
      · rw [if_pos hm] at he
        by_cases hm' : m' = n
        · rw [hm, hm']
        · rw [if_neg hm', ← Option.some.inj he] at he'
          exact absurd (h.lt he') (lt_irrefl _)
      · rw [if_neg hm] at he
        by_cases hm' : m' = n
        · rw [if_pos hm'] at he'
          rw [← Option.some.inj he'] at he
          exact absurd (h.lt he) (lt_irrefl _)
        · rw [if_neg hm'] at he'
          exact h.inj he he'
  | taken n heq =>
    have hold {m : Int} {e : Nat} (he : c'.world.engines.get? m = some e) :
        c.world.engines.get? m = some e := by
      rw [heq, Table.get?_erase] at he
      split at he
      · cases he
      · exact he
    exact ⟨fun he => (h.lt (hold he)).trans_le hle, fun he he' => h.inj (hold he) (hold he')⟩

theorem Reached.named (hr : Reached c log) : c.Named := by
  obtain ⟨ops, hrun⟩ := hr
  induction hrun with
  | refl =>
    constructor
    · intro n e he
      cases he
    · intro n m e he
      cases he
  | step hrun hs ih => exact ih.step ⟨ops, hrun⟩ hs
  | more _ _ _ ih => exact ⟨ih.lt, ih.inj⟩

theorem Reached.engine_lt (hr : Reached c log) {n : Int} {e : Nat}
    (he : c.world.engines.get? n = some e) : e < c.world.hub.engines.length := hr.named.lt he

end Config
end Scenario
end Wakeup
