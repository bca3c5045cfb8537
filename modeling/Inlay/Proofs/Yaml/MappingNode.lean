import Mathlib.Tactic.Lemma
import Inlay.Yaml.Tree

/-!
The node of a block mapping. Inside a mapping a field adds one entry, and a mapping that stands as a
value becomes the value of its key when it ends.
-/

namespace Inlay.Yaml

def Node.ofText (plain : Bool) (text : List Char) : Node := .scalar none none plain text

namespace Builder

/-- Inside a block mapping with some entries, and before or in another one. -/
def within (b : Builder) (es : List (Node × Node)) (slot : Slot) (fs : List Frame) : Builder :=
  b.goto (.inside (.blockMapping none es slot :: fs))

variable {b : Builder} {es : List (Node × Node)} {fs : List Frame} {k : Node} {plain : Bool}
  {text : List Char}

/-! ### Single tokens -/

lemma feed?_within (b : Builder) (es : List (Node × Node)) (slot : Slot) (fs : List Frame)
    (t : Token) : (b.within es slot fs).feed? t =
      (b.within es slot fs).inside? (.blockMapping none es slot :: fs) t := rfl

lemma feed?_key : (b.within es .idle fs).feed? .key = some (b.within es .key fs) := by
  rw [feed?_within, inside?.eq_def]
  rfl

lemma feed?_keyText : (b.within es .key fs).feed? (.scalar plain text) =
    some (b.within es (.keyed (.ofText plain text)) fs) := by
  rw [feed?_within, inside?.eq_def]
  rfl

lemma feed?_colon : (b.within es (.keyed k) fs).feed? .value =
    some (b.within es (.value k) fs) := by
  rw [feed?_within, inside?.eq_def]
  rfl

lemma feed?_text : (b.within es (.value k) fs).feed? (.scalar plain text) =
    some (b.within (es ++ [(k, .ofText plain text)]) .idle fs) := by
  rw [feed?_within, inside?.eq_def]
  rfl

lemma feed?_start : (b.within es (.value k) fs).feed? .blockMappingStart =
    some (b.within [] .idle (.blockMapping none es (.value k) :: fs)) := by
  rw [feed?_within, inside?.eq_def]
  rfl

lemma feed?_end {inner : List (Node × Node)} :
    (b.within inner .idle (.blockMapping none es (.value k) :: fs)).feed? .blockEnd =
      some (b.within (es ++ [(k, .mapping none inner)]) .idle fs) := by
  rw [feed?_within, inside?.eq_def]
  rfl

lemma feed?_new : new.feed? .blockMappingStart = some (new.within [] .idle [.root false]) := by
  have hfirst : new.feed? .blockMappingStart = new.inside? [.root false] .blockMappingStart := rfl
  rw [hfirst, inside?.eq_def]
  rfl

lemma feed?_last : (b.within es .idle [.root false]).feed? .blockEnd =
    some (b.goto (.after (.mapping none es))) := by
  rw [feed?_within, inside?.eq_def]
  rfl

/-! ### Fields -/

def feedAll? (b : Builder) (ts : List Token) : Option Builder := ts.foldlM feed? b

lemma feedAll?_cons {c : Builder} {t : Token} (h : b.feed? t = some c) (ts : List Token) :
    b.feedAll? (t :: ts) = c.feedAll? ts := by
  rw [feedAll?, List.foldlM_cons, h]
  rfl

lemma feedAll?_key (b : Builder) (es : List (Node × Node)) (fs : List Frame) (key : List Char)
    (ts : List Token) :
    (b.within es .idle fs).feedAll? (.key :: .scalar true key :: .value :: ts) =
      (b.within es (.value (.ofText true key)) fs).feedAll? ts := by
  rw [feedAll?_cons feed?_key, feedAll?_cons feed?_keyText, feedAll?_cons feed?_colon]

lemma feedAll?_field (b : Builder) (es : List (Node × Node)) (fs : List Frame)
    (key : List Char) (plain : Bool) (text : List Char) (ts : List Token) :
    (b.within es .idle fs).feedAll?
        (.key :: .scalar true key :: .value :: .scalar plain text :: ts) =
      (b.within (es ++ [(.ofText true key, .ofText plain text)]) .idle fs).feedAll? ts := by
  rw [feedAll?_key, feedAll?_cons feed?_text]

end Builder

end Inlay.Yaml
