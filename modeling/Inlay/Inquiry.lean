import Inlay.Event

/-!
Asking a service for the labels of hint positions, one query after the other. A query that fails
or finds nothing costs its own hint only.
-/

namespace Inlay

open Hover

/-- What the queries of one pass have in common. -/
structure Inquiry where
  service : Service
  uri : String
  labelPrefix : String

namespace Inquiry

/-- The place asked about for a hint: one column to the left, which is inside the name. -/
def probe (p : Position) : Position :=
  ⟨p.line, p.character - 1⟩

def asked (q : Inquiry) (call : Nat) (p : Position) : Event :=
  .hover q.service.name call q.uri (probe p)

def reply (q : Inquiry) (call : Nat) (p : Position) : Reply :=
  q.service.answer call (probe p)

def text? : Reply → Option String
  | .ok (some contents) => contents.firstText?
  | _ => none

/-- The record of a reply without a text. -/
def notice? (p : Position) : Reply → Option Notice
  | .ok (some contents) =>
    match contents.firstText? with
    | some _ => none
    | none => some (.replyEmpty p)
  | .ok none => some (.replyMissing p)
  | .error e => some (.queryFailed p e)

def hint? (q : Inquiry) (call : Nat) (p : Position) : Option Hint :=
  (text? (q.reply call p)).map fun t => ⟨p, q.labelPrefix ++ t⟩

def received (q : Inquiry) (call : Nat) (p : Position) : List Event :=
  ((notice? p (q.reply call p)).map Event.log).toList

def fetch (q : Inquiry) (call : Nat) (p : Position) : Option Hint × List Event :=
  (q.hint? call p, q.asked call p :: q.received call p)

/-- Asks for the labels of positions in turn, after `used` earlier queries. -/
def fetchAll (q : Inquiry) (used : Nat) : List Position → List Hint × List Event
  | [] => ([], [])
  | p :: ps =>
    let (hint?, events) := q.fetch (used + 1) p
    let (hints, later) := q.fetchAll (used + 1) ps
    (hint?.toList ++ hints, events ++ later)

@[simp] theorem fetchAll_nil (q : Inquiry) (used : Nat) : q.fetchAll used [] = ([], []) := rfl

theorem fetchAll_cons (q : Inquiry) (used : Nat) (p : Position) (ps : List Position) :
    q.fetchAll used (p :: ps) =
      ((q.hint? (used + 1) p).toList ++ (q.fetchAll (used + 1) ps).1,
        q.asked (used + 1) p :: q.received (used + 1) p ++ (q.fetchAll (used + 1) ps).2) := rfl

end Inquiry

end Inlay
