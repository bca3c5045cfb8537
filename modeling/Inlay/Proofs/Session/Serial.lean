import Mathlib.Data.List.Basic
import Inlay.Hover.Script
import Inlay.Proofs.Session.Order

/-!
Overlapping steps against the same steps one after the other. Which moves happen when is left to
the schedule; the answers and the desk at the end are not.
-/

namespace Inlay.Session

variable {desk : Desk} {steps : List Step} {o : Overlap}

/-- When all steps have run to their ends, each has the outcome of its turn. -/
lemma Complete.results (h : Complete desk steps o) :
    o.results steps.length =
      (List.range steps.length).filterMap fun i => (turn desk steps i).map Ran.outcome := by
  refine List.filterMap_congr fun i hi => ?_
  have hlt : i < steps.length := List.mem_range.mp hi
  have hs : steps[i]? = some steps[i] := List.getElem?_eq_getElem hlt
  rw [h.outcome hs, turn_eq hs]
  rfl

lemma Complete.desk_eq (h : Complete desk steps o) :
    o.desk = (desk.runAll (steps.map .single)).1 := by
  rw [h.ledger.found, before_length]

lemma Complete.results_eq (h : Complete desk steps o) :
    (o.results steps.length).map Answer.single =
      (desk.runAll (steps.map .single)).2.map Prod.fst := by
  rw [outcomes_runAll, h.results]

/-- **Overlapping changes nothing.** Whatever the desk and the steps, and however the steps are
scheduled, they leave the desk and give the answers that they leave and give when they run one
after the other in the order in which they start. The overlap of the library does so too. -/
theorem overlap_eq_sequential (desk : Desk) (steps : List Step) :
    ((desk.overlap steps).1 = (desk.runAll (steps.map .single)).1 ∧
      (desk.overlap steps).2.1.map Answer.single =
        (desk.runAll (steps.map .single)).2.map Prod.fst) ∧
    ∀ o, Complete desk steps o →
      o.desk = (desk.runAll (steps.map .single)).1 ∧
      (o.results steps.length).map Answer.single =
        (desk.runAll (steps.map .single)).2.map Prod.fst := by
  have hoverlap : Complete desk steps ((Overlap.new desk).startAll 0 steps).drain :=
    complete_overlap desk steps
  refine ⟨⟨?_, ?_⟩, fun o h => ⟨h.desk_eq, h.results_eq⟩⟩
  · exact hoverlap.desk_eq
  · exact hoverlap.results_eq

/-- A service that names itself in its answers and lets each of them be waited for. -/
def slowService (name : String) : Hover.Service :=
  Hover.Script.service ⟨[], .echo, 1⟩ name

def busyDesk : Desk := ⟨{}, some (.new {} (slowService "old")), ∅⟩

def busySteps : List Step :=
  [.decorate ⟨"file:///main.rs", "rust", "let x = 1;"⟩ none, .bind (slowService "new"),
    .decorate ⟨"file:///main.rs", "rust", "let y = 2;"⟩ none, .get]

/-- The second pass of `busySteps` finds the new service, as it does when the steps run one after
the other. -/
theorem overlap_eq_sequential_busy :
    Complete busyDesk busySteps ((Overlap.new busyDesk).startAll 0 busySteps).drain ∧
      ((Overlap.new busyDesk).startAll 0 busySteps).drain.desk =
        (busyDesk.runAll (busySteps.map .single)).1 ∧
      (((Overlap.new busyDesk).startAll 0 busySteps).drain.results 4).map Answer.single =
        (busyDesk.runAll (busySteps.map .single)).2.map Prod.fst :=
  ⟨complete_overlap _ _, (overlap_eq_sequential busyDesk busySteps).2 _ (complete_overlap _ _)⟩

end Inlay.Session
