import Inlay.Config.Settings
import Inlay.Position

/-!
Decorations as an editor surface takes them.
-/

namespace Inlay

/-- What the decorations of one decorator have in common. -/
structure DecorationType where
  key : String
  style : Config.Style
  deriving DecidableEq

def DecorationType.ofSettings (s : Config.Settings) : DecorationType :=
  ⟨s.decorationKey, s.decoration⟩

structure Range where
  start : Position
  stop : Position
  deriving DecidableEq

/-- A text shown after a range. -/
structure Decoration where
  range : Range
  afterText : String
  deriving DecidableEq

/-- A label for a position. -/
structure Hint where
  position : Position
  label : String
  deriving DecidableEq

/-- The decoration that shows a hint: its range is empty. -/
def Hint.decoration (h : Hint) : Decoration :=
  ⟨⟨h.position, h.position⟩, h.label⟩

inductive SurfaceError
  | rejected (message : String)
  | documentClosed (message : String)
  deriving DecidableEq

def SurfaceError.message : SurfaceError → String
  | rejected message => s!"editor surface rejected decorations: {message}"
  | documentClosed message => s!"document closed: {message}"

/-- A document as an editor shows it. -/
structure Document where
  uri : String
  languageId : String
  text : String

end Inlay
