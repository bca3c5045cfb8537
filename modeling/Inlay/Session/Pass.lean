import Inlay.Inquiry

/-!
The queries of a pass that waits. Each query takes as many rounds of waiting as its service says;
between two rounds the pass stands still and can be resumed.
-/

namespace Inlay.Session

structure Waiting where
  /-- The number of that query. -/
  call : Nat
  position : Position
  /-- Rounds until the reply comes. -/
  rounds : Nat
  /-- The hints got so far. -/
  hints : List Hint
  /-- The positions still to ask about. -/
  todo : List Position

/-- How far the queries of a pass have come. -/
inductive Progress
  /-- All replies are there; `used` is the number of the last query. -/
  | finished (used : Nat) (hints : List Hint)
  | waiting (w : Waiting)

/-- Asks about positions in turn until the replies are there or one has to be waited for. -/
def ask (q : Inquiry) (used : Nat) (hints : List Hint) : List Position → Progress × List Event
  | [] => (.finished used hints, [])
  | p :: ps =>
    if q.service.rounds = 0 then
      let (progress, events) := ask q (used + 1) (hints ++ (q.hint? (used + 1) p).toList) ps
      (progress, q.asked (used + 1) p :: q.received (used + 1) p ++ events)
    else
      (.waiting ⟨used + 1, p, q.service.rounds, hints, ps⟩, [q.asked (used + 1) p])

/-- Lets one round go by. -/
def Waiting.resume (q : Inquiry) (w : Waiting) : Progress × List Event :=
  if 1 < w.rounds then (.waiting { w with rounds := w.rounds - 1 }, [])
  else
    let (progress, events) :=
      ask q w.call (w.hints ++ (q.hint? w.call w.position).toList) w.todo
    (progress, q.received w.call w.position ++ events)

/-- Rounds that the pass can still wait, at most. -/
def Waiting.left (q : Inquiry) (w : Waiting) : Nat :=
  w.rounds + w.todo.length * (q.service.rounds + 1)

theorem left_of_ask {q : Inquiry} {used : Nat} {hints : List Hint} {ps : List Position}
    {w : Waiting} (h : (ask q used hints ps).1 = .waiting w) :
    w.left q < ps.length * (q.service.rounds + 1) := by
  induction ps generalizing used hints with
  | nil => simp [ask] at h
  | cons p ps ih =>
    unfold ask at h
    rw [List.length_cons, Nat.succ_mul]
    split at h
    · have := ih h
      omega
    · simp only [Progress.waiting.injEq] at h
      subst h
      simp only [Waiting.left]
      omega

theorem left_of_resume {q : Inquiry} {w v : Waiting} (h : (w.resume q).1 = .waiting v) :
    v.left q < w.left q := by
  unfold Waiting.resume at h
  split at h
  · simp only [Progress.waiting.injEq] at h
    subst h
    simp only [Waiting.left]
    omega
  · have := left_of_ask h
    unfold Waiting.left at this ⊢
    omega

/-- Waits for all replies. Gives the number of the last query, the hints and the events. -/
def Waiting.finish (q : Inquiry) (w : Waiting) : Nat × List Hint × List Event :=
  match _h : w.resume q with
  | (.finished used hints, events) => (used, hints, events)
  | (.waiting v, events) =>
    let (used, hints, later) := v.finish q
    (used, hints, events ++ later)
termination_by w.left q
decreasing_by exact left_of_resume (congrArg Prod.fst _h)

end Inlay.Session
