import Inlay.Config.Settings

/-!
What one configuration file says: each key may be missing. Files are laid over one another key by
key, and over the built-in settings in the end. The language in which files are written is left
open here.
-/

namespace Inlay.Config

/-- The settings that one file defines. -/
structure Layer where
  languageId : Option String := none
  labelPrefix : Option String := none
  decorationKey : Option String := none
  decoration : Option Style := none
  deriving DecidableEq

def Settings.over (s : Settings) (l : Layer) : Settings where
  languageId := l.languageId.getD s.languageId
  labelPrefix := l.labelPrefix.getD s.labelPrefix
  decorationKey := l.decorationKey.getD s.decorationKey
  decoration := l.decoration.getD s.decoration

@[simp] theorem Settings.over_empty (s : Settings) : s.over {} = s := rfl

/-- A language for configuration files. Printing and parsing may both fail, with a text that tells
the reason; nothing else is asked of them. -/
structure Format where
  print : Settings → Except String String
  parse : String → Except String Layer

end Inlay.Config
