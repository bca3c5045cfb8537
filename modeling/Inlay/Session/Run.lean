import Inlay.Session.Overlap

/-!
Sessions: single steps and groups of overlapping steps, one after the other, on one desk.
-/

namespace Inlay.Session

/-- What a session consists of. -/
inductive Action
  | single (step : Step)
  | overlapping (steps : List Step)

inductive Answer
  | single (outcome : Outcome)
  | overlapping (outcomes : List Outcome)
  deriving DecidableEq

def Desk.act (desk : Desk) : Action → Desk × Answer × List Event
  | .single step =>
    let ran := desk.run step
    (ran.desk, .single ran.outcome, ran.events)
  | .overlapping steps =>
    let (desk, outcomes, events) := desk.overlap steps
    (desk, .overlapping outcomes, events)

/-- Runs actions in turn: the final desk, and the answer and the events of each. -/
def Desk.runAll (desk : Desk) : List Action → Desk × List (Answer × List Event)
  | [] => (desk, [])
  | a :: as =>
    let (next, answer, events) := desk.act a
    let (last, rest) := next.runAll as
    (last, (answer, events) :: rest)

@[simp] theorem runAll_nil (desk : Desk) : desk.runAll [] = (desk, []) := rfl

theorem runAll_cons (desk : Desk) (a : Action) (as : List Action) :
    desk.runAll (a :: as) =
      (((desk.act a).1.runAll as).1, (desk.act a).2 :: ((desk.act a).1.runAll as).2) := rfl

theorem runAll_append (desk : Desk) (a b : List Action) :
    desk.runAll (a ++ b) =
      (((desk.runAll a).1.runAll b).1, (desk.runAll a).2 ++ ((desk.runAll a).1.runAll b).2) := by
  induction a generalizing desk with
  | nil => simp
  | cons x xs ih => simp [runAll_cons, ih]

end Inlay.Session
