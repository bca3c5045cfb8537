import Inlay.Session.Desk
import Inlay.Session.Pass

/-!
Steps that overlap. The decorator has a lock, which is given out in the order of asking. All steps
are started in turn before any that waits goes on; a step that finds the lock taken queues up.
After that only the holder can move, so it runs to its end, and then each of the queue in turn.
-/

namespace Inlay.Session

/-- A pass that waits for a reply and holds the lock. -/
structure Holder where
  index : Nat
  decorator : Decorator
  document : Document
  failure : Option SurfaceError
  sites : Nat
  waiting : Waiting

/-- Overlapping steps under way. Each event is kept with the index of its step. -/
structure Overlap where
  desk : Desk
  holder : Option Holder
  queue : List (Nat × Step)
  outcomes : List (Nat × Outcome)
  trace : List (Nat × Event)

namespace Overlap

def new (desk : Desk) : Overlap := ⟨desk, none, [], [], []⟩

def emit (o : Overlap) (i : Nat) (events : List Event) : Overlap :=
  { o with trace := o.trace ++ events.map (i, ·) }

/-- The end of a step, which thereby lets go of the lock. -/
def settle (o : Overlap) (i : Nat) (ran : Ran) : Overlap :=
  { (o.emit i (ran.events ++ [.done i])) with
    desk := ran.desk
    outcomes := o.outcomes ++ [(i, ran.outcome)] }

/-- Does the step have to wait for the lock of the decorator? -/
def needsLock (desk : Desk) (step : Step) : Bool :=
  match desk.slot with
  | none => false
  | some d =>
    match step with
    | .get | .decorationType => false
    | .bind _ | .replaceService _ | .service | .current _ => true
    | .decorate doc _ => d.accepts doc

/-- Starts a pass that has the lock; it keeps the lock if it has to wait. -/
def enterPass (o : Overlap) (i : Nat) (d : Decorator) (doc : Document)
    (failure : Option SurfaceError) : Overlap :=
  let ps := Scan.positions doc.text
  let (progress, queries) := ask (d.inquiry doc) (o.desk.used d.service.name) [] ps
  let o := o.emit i (.log (.decorating doc.uri) :: queries)
  match progress with
  | .finished used hints => o.settle i (o.desk.close d doc failure ps.length used hints)
  | .waiting w => { o with holder := some ⟨i, d, doc, failure, ps.length, w⟩ }

def enter (o : Overlap) (i : Nat) (step : Step) : Overlap :=
  match o.desk.slot, step with
  | some d, .decorate doc failure =>
    if d.accepts doc then o.enterPass i d doc failure else o.settle i (o.desk.run step)
  | _, _ => o.settle i (o.desk.run step)

/-- Starts a step: it runs at once unless it needs the lock and another step has it. -/
def start (o : Overlap) (i : Nat) (step : Step) : Overlap :=
  if needsLock o.desk step && o.holder.isSome then { o with queue := o.queue ++ [(i, step)] }
  else o.enter i step

def startAll (o : Overlap) (i : Nat) : List Step → Overlap
  | [] => o
  | s :: ss => (o.start i s).startAll (i + 1) ss

/-- Lets the holder of the lock, if there is one, run to its end. -/
def release (o : Overlap) : Overlap :=
  match o.holder with
  | none => o
  | some h =>
    let (used, hints, events) := h.waiting.finish (h.decorator.inquiry h.document)
    let o := { (o.emit h.index events) with holder := none }
    o.settle h.index (o.desk.close h.decorator h.document h.failure h.sites used hints)

/-- Gives the lock to steps in turn, each of which runs to its end. -/
def serve (o : Overlap) : List (Nat × Step) → Overlap
  | [] => o
  | (i, s) :: rest => (o.enter i s).release.serve rest

def drain (o : Overlap) : Overlap :=
  ({ o.release with queue := [] }).serve o.queue

end Overlap

/-- The desk, the outcomes in the order of the steps, and the events of overlapping steps. -/
def Desk.overlap (desk : Desk) (steps : List Step) : Desk × List Outcome × List Event :=
  let o := ((Overlap.new desk).startAll 0 steps).drain
  (o.desk, (List.range steps.length).filterMap (Table.lookup · o.outcomes), o.trace.map Prod.snd)

end Inlay.Session
