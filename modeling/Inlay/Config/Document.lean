import Inlay.Config.File
import Inlay.Config.Save
import Inlay.Yaml.Number
import Inlay.Yaml.Print
import Inlay.Yaml.Tree

/-!
Configuration files in YAML: a mapping with the four keys, of which the last is a mapping with the
two colours. This is the format that the program runs with. What is proved of loading and saving
does not rest on it; that it reads back what it prints is a result of its own.
-/

namespace Inlay.Config

open Yaml

/-! ### Reading -/

def text? (root : Node) (n : Node) : Option String :=
  match n.follow root with
  | some (.scalar _ _ _ text) => some (String.ofList text)
  | _ => none

def nullTag : List Char := "tag:yaml.org,2002:null".toList

/-- Whether a node stands for a missing value. Nothing else may bear the tag of nothing. -/
def isAbsent? : Node → Option Bool
  | .scalar _ tag true text =>
    match tag with
    | some t => if t = nullTag then (if isNullWord text then some true else none) else some false
    | none => some (text.isEmpty || isNullWord text)
  | _ => some false

def optional? {α : Type} (root : Node) (read : Node → Option α) (n : Node) : Option (Option α) := do
  let n ← n.follow root
  if ← isAbsent? n then pure none else (read n).map some

/-- The values of known keys, each of which may occur once; entries with other keys are passed
over. -/
def fields? {α : Type} (root : Node) (known : List String) (read : String → Node → Option α) :
    List (Node × Node) → Option (Table String α)
  | [] => some ∅
  | (k, v) :: es => do
    let key ← text? root k
    let later ← fields? root known read es
    if known.contains key then
      if (later.find? key).isSome then none
      else pure (later.insert key (← read key v))
    else pure later

/-- The style that a mapping describes; both colours must be there. -/
def style? (root : Node) : Node → Option Style
  | .mapping _ es => do
    let t ← fields? root ["color", "background_color"] (fun _ => text? root) es
    pure ⟨← t.find? "color", ← t.find? "background_color"⟩
  | _ => none

inductive Value
  | text (s : Option String)
  | style (s : Option Style)

def Value.text? : Value → Option String
  | text s => s
  | style _ => none

def Value.style? : Value → Option Style
  | text _ => none
  | style s => s

def value? (root : Node) (key : String) (n : Node) : Option Value :=
  if key = "decoration" then (optional? root (style? root) n).map .style
  else (optional? root (text? root) n).map .text

/-- The layer that a document describes. An empty document defines nothing. -/
def Layer.ofDocument? : Option Node → Option Layer
  | none => some {}
  | some (.scalar _ _ true []) => some {}
  | some (.mapping a es) => do
    let root := Node.mapping a es
    let t ← fields? root ["language_id", "label_prefix", "decoration_key", "decoration"]
      (value? root) es
    pure
      { languageId := (t.find? "language_id").bind Value.text?
        labelPrefix := (t.find? "label_prefix").bind Value.text?
        decorationKey := (t.find? "decoration_key").bind Value.text?
        decoration := (t.find? "decoration").bind Value.style? }
  | _ => none

def Layer.parse? (text : String) : Option Layer :=
  (document? text.toList).bind ofDocument?

/-! ### Writing -/

/-- A line with a key and the value after it, indented by `n`; further lines of the value are
indented by one more step. -/
def printField (n : Nat) (key value : String) : List Char :=
  indentation n ++ key.toList ++ [':', ' '] ++ printScalar (n + indentStep) value.toList

def Settings.print (s : Settings) : String :=
  String.ofList
    (printField 0 "language_id" s.languageId ++ printField 0 "label_prefix" s.labelPrefix ++
      printField 0 "decoration_key" s.decorationKey ++ "decoration:\n".toList ++
      printField indentStep "color" s.decoration.color ++
      printField indentStep "background_color" s.decoration.backgroundColor)

/-! ### The format -/

/-- YAML as a format of configuration files. Printing never fails. -/
def yaml : Format where
  print s := .ok s.print
  parse text :=
    match Layer.parse? text with
    | some layer => .ok layer
    | none => .error "not a mapping with settings"

theorem yaml_parse_eq_ok_iff {text : String} {l : Layer} :
    yaml.parse text = .ok l ↔ Layer.parse? text = some l := by
  cases h : Layer.parse? text <;> simp [yaml, h]

theorem yaml_parse_fails_iff {text : String} :
    (∃ cause, yaml.parse text = .error cause) ↔ Layer.parse? text = none := by
  cases h : Layer.parse? text <;> simp [yaml, h]

def loadFrom (read : Reader) (path : String) : Settings × List Event :=
  yaml.loadFrom read path

def load (read : Reader) (home : Option String) : Settings × List Event :=
  yaml.load read home

def save (t : FileTree) (path : String) (s : Settings) : FileTree × Option SaveError :=
  yaml.save t path s

end Inlay.Config
