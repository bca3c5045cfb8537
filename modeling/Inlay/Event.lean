import Inlay.Decoration
import Inlay.Hover.Service

/-!
What a decorator does that others can see: queries to the service, calls of the surface and
records in the log.
-/

namespace Inlay

inductive Level
  | debug
  | info
  | warn
  deriving DecidableEq

def Level.name : Level → String
  | debug => "debug"
  | info => "info"
  | warn => "warn"

inductive Notice
  | decoratorCreated (languageId : String)
  | serviceReplaced
  | decorating (uri : String)
  | replyEmpty (position : Position)
  | replyMissing (position : Position)
  | queryFailed (position : Position) (error : Hover.QueryError)
  | passDone (count sites : Nat)
  | passFailed (uri : String) (error : SurfaceError)
  | fileIgnored (path : String)
  deriving DecidableEq

namespace Notice

def level : Notice → Level
  | decoratorCreated _ | decorating _ | passDone _ _ => .info
  | serviceReplaced | replyEmpty _ | replyMissing _ | queryFailed _ _ => .debug
  | passFailed _ _ | fileIgnored _ => .warn

def message : Notice → String
  | decoratorCreated languageId => s!"creating decorator for '{languageId}' documents"
  | serviceReplaced => "analysis service replaced"
  | decorating uri => s!"decorating {uri}"
  | replyEmpty _ => "hover reply had no content"
  | replyMissing _ => "no hover reply"
  | queryFailed _ error => s!"hover query failed: {error.message}"
  | passDone count sites => s!"done: {count} decorations provided ({sites} binding sites)"
  | passFailed uri error => s!"decoration pass for {uri} failed: {error.message}"
  | fileIgnored path => s!"ignoring {path}"

/-- The hint position that the record is about, for records on single hints. -/
def position? : Notice → Option Position
  | replyEmpty p | replyMissing p | queryFailed p _ => some p
  | _ => none

end Notice

/-- Something that others can see. -/
inductive Event
  /-- Query number `call` of a service, on a place of a document. -/
  | hover (service : String) (call : Nat) (uri : String) (place : Position)
  /-- A call of the surface, whether it succeeds or not. -/
  | surface (type : DecorationType) (decorations : List Decoration)
  | log (notice : Notice)
  /-- The end of an overlapping step, by its index. -/
  | done (index : Nat)
  deriving DecidableEq

end Inlay
