/-!
What to decorate and how hints look.
-/

namespace Inlay.Config

/-- Theme colour keys of the hint text. -/
structure Style where
  color : String := "rust.typeHintColor"
  backgroundColor : String := "rust.typeHintBackgroundColor"
  deriving DecidableEq

/-- The settings of a decorator; the field values given here are the built-in ones. -/
structure Settings where
  /-- Documents in other languages are left alone. -/
  languageId : String := "rust"
  /-- Stands in front of the type in each hint. -/
  labelPrefix : String := ": "
  /-- Tells the decorations of this program from those of others. -/
  decorationKey : String := "bindhints.typeHint"
  decoration : Style := {}
  deriving DecidableEq

end Inlay.Config
