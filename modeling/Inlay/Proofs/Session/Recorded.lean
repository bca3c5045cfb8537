import Inlay.Proofs.Session.Blocks
import Inlay.Proofs.Session.Failure
import Inlay.Proofs.Session.Progress

/-!
What is recorded is what a surface took last. A desk starts without records. From then on, whatever
is asked of it and however overlapping steps are scheduled, it records for each document the
decorations that a watcher of the events has seen a surface take last.
-/

namespace Inlay.Session

/-- One way to perform a session, each group of overlapping steps in one of its schedules: the desk
that it leaves and the events that it shows. -/
inductive Performed : Desk → List Action → Desk → List Event → Prop
  | nil (desk : Desk) : Performed desk [] desk []
  | single {desk last : Desk} {s : Step} {actions : List Action} {events : List Event} :
      Performed (desk.run s).desk actions last events →
      Performed desk (.single s :: actions) last ((desk.run s).events ++ events)
  | overlapping {desk last : Desk} {steps : List Step} {o : Overlap} {actions : List Action}
      {events : List Event} : Complete desk steps o → Performed o.desk actions last events →
      Performed desk (.overlapping steps :: actions) last (o.trace.map Prod.snd ++ events)

/-- The step is a pass over a document, and the surface takes the decorations. -/
def Takes (desk : Desk) (s : Step) (doc : Document) : Prop :=
  s = .decorate doc none ∧ ∃ d, desk.slot = some d ∧ d.accepts doc = true

/-- While steps overlap the watcher knows what the desk records, and the document of the pass that
has the lock. -/
structure Watched (w : Watcher) (o : Overlap) : Prop where
  taken : (w.watch (o.trace.map Prod.snd)).taken = o.desk.sets
  document : ∀ h, o.holder = some h →
    (w.watch (o.trace.map Prod.snd)).document = some h.document.uri

variable {desk mid : Desk} {steps : List Step} {n i : Nat} {o : Overlap} {s : Step} {w : Watcher}
  {uri : String} {doc : Document}

/-! ### What one move preserves -/

lemma watch_emit (w : Watcher) (o : Overlap) (i : Nat) (events : List Event) :
    w.watch ((o.emit i events).trace.map Prod.snd) =
      (w.watch (o.trace.map Prod.snd)).watch events := by
  have htagged : (events.map (i, ·)).map Prod.snd = events := by
    rw [List.map_map]
    exact List.map_id _
  rw [Overlap.emit, List.map_append, htagged, Watcher.watch_append]

lemma watch_settle (w : Watcher) (o : Overlap) (i : Nat) (ran : Ran) :
    w.watch ((o.settle i ran).trace.map Prod.snd) =
      (w.watch (o.trace.map Prod.snd)).watch ran.events := by
  refine (watch_emit w o i _).trans ?_
  rw [Watcher.watch_append]
  exact quiet_done i _

namespace Watched

lemma settle {ran : Ran} (hfree : o.holder = none)
    (htaken : ((w.watch (o.trace.map Prod.snd)).watch ran.events).taken = ran.desk.sets) :
    Watched w (o.settle i ran) := by
  refine ⟨?_, fun h hh => ?_⟩
  · rw [watch_settle]
    exact htaken
  · cases hfree.symm.trans hh

/-- A pass begins; it comes to its end at once, or has the lock from now on. -/
lemma enterPass {d : Decorator} (h : Watched w o) (hfree : o.holder = none)
    (hslot : o.desk.slot = some d) (i : Nat) (doc : Document) (failure : Option SurfaceError) :
    Watched w (o.enterPass i d doc failure) := by
  unfold Overlap.enterPass
  simp only
  rcases hask : ask (d.inquiry doc) (o.desk.used d.service.name) []
    (Scan.positions doc.text) with ⟨⟨used, hints⟩ | waiting, queries⟩
  all_goals
    have hqueries : ∀ e ∈ queries, Quiet e := fun e he =>
      quiet_of_mem_ask (by rw [hask]; exact he)
    have hwatch := watch_emit w o i (.log (.decorating doc.uri) :: queries)
    rw [Watcher.watch_cons, watch_of_quiet hqueries] at hwatch
  · refine .settle hfree ?_
    rw [hwatch]
    exact taken_watch_close (w := (w.watch (o.trace.map Prod.snd)).see (.log (.decorating doc.uri)))
      hslot rfl h.taken _ _ _
  · refine ⟨(congrArg Watcher.taken hwatch).trans h.taken, fun a ha => ?_⟩
    cases ha
    exact congrArg Watcher.document hwatch

/-- A step gets the lock, or does not need it and finds it free. -/
lemma enter (h : Watched w o) (hfree : o.holder = none) (i : Nat) (s : Step) :
    Watched w (o.enter i s) := by
  have hrun : Watched w (o.settle i (o.desk.run s)) := .settle hfree (taken_watch_run h.taken s)
  unfold Overlap.enter
  split
  · next d doc failure hslot =>
    split
    · exact h.enterPass hfree hslot i doc failure
    · exact hrun
  · exact hrun

/-- A step that needs no lock runs beside the pass that has it. -/
lemma aside {d : Decorator} (h : Watched w o) (hslot : o.desk.slot = some d)
    (hno : Overlap.needsLock o.desk s = false) : Watched w (o.enter i s) := by
  rw [Overlap.enter_of_not_needsLock hno, run_of_not_needsLock hslot hno]
  refine ⟨?_, fun a ha => ?_⟩
  · rw [watch_settle]
    exact h.taken
  · rw [watch_settle]
    exact h.document a ha

lemma wait {a : Holder} {v : Waiting} {events : List Event} (h : Watched w o)
    (ha : o.holder = some a)
    (hresume : a.waiting.resume (a.decorator.inquiry a.document) = (.waiting v, events)) :
    Watched w { (o.emit a.index events) with holder := some { a with waiting := v } } := by
  have hquiet : ∀ e ∈ events, Quiet e := fun e he =>
    quiet_of_mem_resume (by rw [hresume]; exact he)
  have hwatch := watch_emit w o a.index events
  rw [watch_of_quiet hquiet] at hwatch
  refine ⟨(congrArg Watcher.taken hwatch).trans h.taken, fun b hb => ?_⟩
  cases hb
  exact (congrArg Watcher.document hwatch).trans (h.document a ha)

lemma finish {a : Holder} {used : Nat} {hints : List Hint} {events : List Event}
    (h : Watched w o) (ha : o.holder = some a) (hslot : o.desk.slot = some a.decorator)
    (hresume : a.waiting.resume (a.decorator.inquiry a.document) =
      (.finished used hints, events)) :
    Watched w ({ (o.emit a.index events) with holder := none }.settle a.index
      (o.desk.close a.decorator a.document a.failure a.sites used hints)) := by
  have hquiet : ∀ e ∈ events, Quiet e := fun e he =>
    quiet_of_mem_resume (by rw [hresume]; exact he)
  have hwatch := watch_emit w o a.index events
  rw [watch_of_quiet hquiet] at hwatch
  refine .settle rfl ?_
  simp only [hwatch]
  exact taken_watch_close hslot (h.document a ha) h.taken _ _ _

end Watched

/-! ### What whole runs preserve -/

/-- However steps are scheduled, the watcher knows at any moment what is recorded. -/
theorem Reached.watched (h : Reached desk steps n o) (hw : w.taken = desk.sets) :
    Watched w o := by
  induction h with
  | init => exact ⟨hw, fun _ ha => nomatch ha⟩
  | @run n o s h hs hgo ih =>
    cases hneeds : Overlap.needsLock o.desk s with
    | true => exact ih.enter (hgo hneeds).1 n s
    | false =>
      cases hholder : o.holder with
      | none => exact ih.enter hholder n s
      | some a => exact ih.aside (h.found hholder).2 hneeds
  | queue _ _ _ _ ih => exact ⟨ih.taken, ih.document⟩
  | wait _ ha hresume ih => exact ih.wait ha hresume
  | finish h ha hresume ih => exact ih.finish ha (h.found ha).2 hresume
  | @grant n o i s rest _ hfree _ ih =>
    exact Watched.enter (o := { o with queue := rest }) ⟨ih.taken, ih.document⟩ hfree i s

lemma Performed.taken {actions : List Action} {last : Desk} {events : List Event}
    (h : Performed desk actions last events) (hw : w.taken = desk.sets) :
    (w.watch events).taken = last.sets := by
  induction h generalizing w with
  | nil => exact hw
  | single _ ih =>
    rw [Watcher.watch_append]
    exact ih (taken_watch_run hw _)
  | overlapping hcomplete _ ih =>
    rw [Watcher.watch_append]
    exact ih (hcomplete.reached.watched hw).taken

/-- The session of the library is one way to perform the actions. -/
lemma performed_runAll (desk : Desk) (actions : List Action) :
    Performed desk actions (desk.runAll actions).1
      ((desk.runAll actions).2.flatMap Prod.snd) := by
  induction actions generalizing desk with
  | nil => exact .nil desk
  | cons a actions ih =>
    cases a with
    | single s => exact .single (ih _)
    | overlapping steps => exact .overlapping (complete_overlap desk steps) (ih _)

/-! ### In the order of the lock -/

lemma sets_run_of_not_needsLock (h : Overlap.needsLock desk s = false) :
    (desk.run s).desk.sets = desk.sets := by
  cases does_run desk s with
  | creates hslot _ hrun =>
    rw [hrun, Desk.sets, Desk.sets, hslot]
    rfl
  | @rebinds d _ _ hslot _ hrun =>
    rw [hrun, sets_of_slot hslot]
    rfl
  | passes hslot hs haccepts _ =>
    rw [hs, Overlap.needsLock, hslot] at h
    exact absurd haccepts (Bool.eq_false_iff.mp h)
  | looks hrun => rw [hrun]

/-- What a step finds recorded is what the steps have shown that had the lock before it. -/
lemma taken_watch_blocks (hw : w.taken = mid.sets) (i : Nat) :
    (w.watch ((takers mid steps 0 i).flatMap (block mid steps))).taken =
      (before mid steps i).sets := by
  induction i with
  | zero => exact hw
  | succ i ih =>
    rw [takers_append (Nat.zero_le i) (Nat.le_succ i), takers_one, List.flatMap_append,
      Watcher.watch_append]
    cases hs : steps[i]? with
    | none =>
      have htakes : takesTurn mid steps i = false := by rw [takesTurn, hs, Option.any_none]
      rw [htakes, before_succ_of_none hs]
      exact ih
    | some s =>
      rw [takesTurn_eq hs, before_succ hs]
      cases hneeds : Overlap.needsLock (before mid steps i) s with
      | false =>
        rw [sets_run_of_not_needsLock hneeds]
        exact ih
      | true =>
        rw [if_pos rfl, List.flatMap_singleton, block, turn_eq hs, Option.map_some,
          Option.getD_some, Watcher.watch_append]
        exact taken_watch_run ih s

lemma outcome_current (desk : Desk) (uri : String) :
    (desk.run (.current uri)).outcome =
      if desk.slot.isSome then .current (desk.recorded? uri) else .unbound := by
  cases hslot : desk.slot with
  | none =>
    unfold Desk.run
    rw [hslot]
    rfl
  | some d =>
    unfold Desk.run
    rw [hslot, Desk.recorded?, sets_of_slot hslot]
    rfl

lemma Reached.outcome_eq {outcome : Outcome} (h : Reached desk steps n o)
    (hs : steps[i]? = some s) (hout : Table.lookup i o.outcomes = some outcome) :
    outcome = ((before desk steps i).run s).outcome := by
  obtain ⟨k, horderly⟩ := h.orderly
  obtain ⟨shown, hledger⟩ := horderly.ledger
  obtain ⟨-, hturn⟩ := hledger.tally.of_noted hout
  rw [turn_eq hs] at hturn
  exact (Option.some.inj hturn).symm

/-! ### What one step changes -/

lemma recorded_of_not_takes (h : ∀ doc, ¬Takes desk s doc) (uri : String) :
    (desk.run s).desk.recorded? uri = desk.recorded? uri := by
  cases does_run desk s with
  | creates hslot _ hrun =>
    rw [hrun, Desk.recorded?, Desk.recorded?, Desk.sets, Desk.sets, hslot]
    rfl
  | @rebinds d _ _ hslot _ hrun =>
    rw [hrun, Desk.recorded?, Desk.recorded?, sets_of_slot hslot]
    rfl
  | @passes d doc failure hslot hs haccepts hrun =>
    cases failure with
    | none => exact absurd ⟨hs, d, hslot, haccepts⟩ (h doc)
    | some e =>
      rw [hrun]
      rfl
  | looks hrun => rw [hrun]

lemma Takes.recorded (h : Takes desk s doc) :
    ∃ type set, .surface type set ∈ (desk.run s).events ∧
      (desk.run s).outcome = .applied set.length ∧
      ∀ uri, (desk.run s).desk.recorded? uri =
        if uri = doc.uri then some set else desk.recorded? uri := by
  obtain ⟨rfl, d, hslot, haccepts⟩ := h
  rw [run_decorate hslot haccepts]
  refine ⟨d.type, ((d.inquiry doc).fetchAll (desk.used d.service.name)
    (Scan.positions doc.text)).1.map Hint.decoration, ?_, rfl, fun uri => ?_⟩
  · exact List.mem_append_right _ List.mem_cons_self
  · rw [Desk.recorded?, Desk.recorded?, sets_of_slot hslot]
    exact Table.find?_insert _ _ _ _

lemma slot_run_failed (desk : Desk) (doc : Document) (e : SurfaceError) :
    (desk.run (.decorate doc (some e))).desk.slot = desk.slot := by
  cases hslot : desk.slot with
  | none =>
    unfold Desk.run
    rw [hslot]
    exact hslot
  | some d =>
    cases haccepts : d.accepts doc with
    | false =>
      rw [run_skipped hslot haccepts]
      exact hslot
    | true =>
      rw [run_decorate hslot haccepts]
      exact hslot

/-- **A desk records what a surface took last.** Perform any session on a desk without records, and
then any number of overlapping steps up to any moment of any schedule. For each document the desk
records the decorations that, by the events, a surface has taken last, or none if none were taken;
and a look at the records tells what the steps have shown that had the lock before it. Only a pass
whose decorations the surface takes changes a record, and only that of its document. A failed pass
leaves the decorator as it was: it keeps no later step from running to its end, and no later step
but a look at its own record could tell it from a pass that succeeds. -/
theorem recorded_eq_lastTaken (settings : Config.Settings) :
    (∀ actions, Performed (.new settings) actions ((Desk.new settings).runAll actions).1
      (((Desk.new settings).runAll actions).2.flatMap Prod.snd)) ∧
    (∀ actions mid shown, Performed (.new settings) actions mid shown →
      (∀ uri, (mid.run (.current uri)).outcome =
        if mid.slot.isSome then .current (lastTaken uri shown) else .unbound) ∧
      ∀ steps n o, Reached mid steps n o →
        (∀ uri, o.desk.recorded? uri = lastTaken uri (shown ++ o.trace.map Prod.snd)) ∧
        (∀ i uri outcome, steps[i]? = some (.current uri) →
          Table.lookup i o.outcomes = some outcome →
          outcome = if (before mid steps i).slot.isSome then
            .current (lastTaken uri (shown ++ (takers mid steps 0 i).flatMap (block mid steps)))
            else .unbound) ∧
        ∃ o', Complete mid steps o' ∧ o.trace <+: o'.trace) ∧
    (∀ desk s, ((∀ doc, ¬Takes desk s doc) → ∀ uri,
        (desk.run s).desk.recorded? uri = desk.recorded? uri) ∧
      (∀ doc, Takes desk s doc → ∃ type set, .surface type set ∈ (desk.run s).events ∧
        (desk.run s).outcome = .applied set.length ∧
        ∀ uri, (desk.run s).desk.recorded? uri =
          if uri = doc.uri then some set else desk.recorded? uri) ∧
      ∀ doc e, s = .decorate doc (some e) → (desk.run s).desk.slot = desk.slot) ∧
    ∀ desk steps i j doc e, steps[i]? = some (.decorate doc (some e)) → i < j →
      (turn desk (steps.set i (.decorate doc none)) j).map Ran.events =
          (turn desk steps j).map Ran.events ∧
        (steps[j]? ≠ some (.current doc.uri) →
          (turn desk (steps.set i (.decorate doc none)) j).map Ran.outcome =
            (turn desk steps j).map Ran.outcome) := by
  refine ⟨fun actions => performed_runAll _ actions, fun actions mid shown hperformed => ?_,
    fun desk s => ?_, fun desk steps i j doc e hi hij => turn_after_failed hi hij⟩
  · have hshown : ((Watcher.new ∅).watch shown).taken = mid.sets := hperformed.taken rfl
    refine ⟨fun uri => ?_, fun steps n o h => ⟨fun uri => ?_, fun i uri outcome hs hout => ?_,
      h.completes⟩⟩
    · rw [outcome_current, Desk.recorded?, lastTaken, hshown]
    · rw [Desk.recorded?, lastTaken, Watcher.watch_append, (h.watched hshown).taken]
    · rw [h.outcome_eq hs hout, outcome_current, Desk.recorded?, lastTaken,
        Watcher.watch_append, taken_watch_blocks hshown]
  · refine ⟨fun hno => recorded_of_not_takes hno, fun doc h => h.recorded, fun doc e hs => ?_⟩
    rw [hs]
    exact slot_run_failed desk doc e

/-- A pass that the surface takes, one that it refuses, a look at what is recorded, and a pass over
another document. -/
def refusedSteps : List Step :=
  [.decorate ⟨"file:///main.rs", "rust", "let x = 1;"⟩ none,
    .decorate ⟨"file:///main.rs", "rust", "let y = 2;"⟩ (some (.rejected "gone")),
    .current "file:///main.rs", .decorate ⟨"file:///lib.rs", "rust", "let z = 3;"⟩ none]

/-- The look in `refusedSteps` finds what the first pass has put down, the last pass cannot tell
that the second was refused, and binding a service changes no record. -/
theorem recorded_eq_lastTaken_refused :
    Performed (.new {}) [.single (.bind (slowService "old"))] busyDesk
      [.log (.decoratorCreated "rust")] ∧
    (∃ o outcome, Complete busyDesk refusedSteps o ∧
      o.desk.recorded? "file:///main.rs" = lastTaken "file:///main.rs"
        ([.log (.decoratorCreated "rust")] ++ o.trace.map Prod.snd) ∧
      Table.lookup 2 o.outcomes = some outcome ∧
      outcome = .current (lastTaken "file:///main.rs" ([.log (.decoratorCreated "rust")] ++
        (takers busyDesk refusedSteps 0 2).flatMap (block busyDesk refusedSteps)))) ∧
    (∃ set, (busyDesk.run (.decorate ⟨"file:///main.rs", "rust", "let x = 1;"⟩ none)).outcome =
      .applied set) ∧
    (busyDesk.run (.bind (slowService "new"))).desk.recorded? "file:///main.rs" =
      busyDesk.recorded? "file:///main.rs" ∧
    (turn busyDesk (refusedSteps.set 1
        (.decorate ⟨"file:///main.rs", "rust", "let y = 2;"⟩ none)) 3).map Ran.outcome =
      (turn busyDesk refusedSteps 3).map Ran.outcome := by
  have hperformed : Performed (.new {}) [.single (.bind (slowService "old"))] busyDesk
      [.log (.decoratorCreated "rust")] := .single (.nil busyDesk)
  have hcomplete := complete_overlap busyDesk refusedSteps
  obtain ⟨-, hsessions, hsteps, hlater⟩ := recorded_eq_lastTaken {}
  obtain ⟨hrecorded, hlook, -⟩ := (hsessions _ _ _ hperformed).2 _ _ _ hcomplete.reached
  have hover := hcomplete.ledger.tally.outcome 2
  obtain ⟨-, set, -, hset, -⟩ := (hsteps busyDesk
    (.decorate ⟨"file:///main.rs", "rust", "let x = 1;"⟩ none)).2.1 _ ⟨rfl, _, rfl, by decide⟩
  refine ⟨hperformed, ⟨_, _, hcomplete, hrecorded _, hover, ?_⟩, ⟨_, hset⟩, ?_, ?_⟩
  · exact hlook 2 _ _ rfl hover
  · exact (hsteps busyDesk (.bind (slowService "new"))).1 (fun _ h => nomatch h.1) _
  · exact (hlater busyDesk refusedSteps 1 3 _ _ rfl (by decide)).2 (by simp [refusedSteps])

end Inlay.Session
