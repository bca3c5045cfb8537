/-!
The contents of a hover reply and the one entry of them that serves as a label.
-/

namespace Inlay.Hover

inductive Entry
  | plain (text : String)
  | code (language value : String)
  deriving DecidableEq

/-- The text of an entry; the language of a code entry is left out. -/
def Entry.text : Entry → String
  | plain text => text
  | code _ value => value

inductive MarkupKind
  | plaintext
  | markdown
  deriving DecidableEq

/-- What a service tells about a place. -/
inductive Contents
  | scalar (entry : Entry)
  | array (entries : List Entry)
  | markup (kind : MarkupKind) (value : String)

/-- The text of the first entry, if there is one. Empty markup has none, while an empty entry
counts. -/
def Contents.firstText? : Contents → Option String
  | scalar e => some e.text
  | array es => es.head?.map Entry.text
  | markup _ value => if value = "" then none else some value

end Inlay.Hover
