import Inlay.Hover.Contents
import Inlay.Position

/-!
Analysis services: what they answer to hover queries, and how a query may fail.
-/

namespace Inlay.Hover

inductive QueryError
  | timeout
  | service (code : Int) (message : String)
  | malformed (message : String)
  | disconnected
  deriving DecidableEq

def QueryError.message : QueryError → String
  | timeout => "query timed out"
  | service code message => s!"service error (code {code}): {message}"
  | malformed message => s!"malformed reply: {message}"
  | disconnected => "service disconnected"

/-- The answer to one query: an error, no reply, or contents. -/
abbrev Reply := Except QueryError (Option Contents)

/-- A service counts its queries from one. Its answer may depend on the number of the query and
on the place asked about, and may take some rounds of waiting. -/
structure Service where
  name : String
  rounds : Nat
  answer : Nat → Position → Reply

end Inlay.Hover
