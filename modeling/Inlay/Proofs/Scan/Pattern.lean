import Mathlib.Computability.Language
import Mathlib.Order.CompletePartialOrder
import Mathlib.Tactic.Lemma
import Inlay.Scan.Word

/-!
Patterns as sets of texts: a character of a class, a fixed text, what may be left out and what may
be repeated. They say what a shape looks like without saying how it is found.
-/

namespace Inlay.Scan.Pattern

open Inlay.Unicode Inlay.Text
open scoped Computability

/-- One character of a class. -/
def char (p : Char → Bool) : Language Char :=
  {t | ∃ c, p c = true ∧ t = [c]}

def text (t : List Char) : Language Char :=
  {t}

def optional (l : Language Char) : Language Char :=
  1 + l

/-- What stands once or several times in a row. -/
def repeated (l : Language Char) : Language Char :=
  l * l∗

/-- A run of blanks, perhaps empty. -/
def padding : Language Char :=
  (char isBlank)∗

/-- A run of blanks that is not empty. -/
def gap : Language Char :=
  repeated (char isBlank)

/-- A run of word characters that is not empty. -/
def word : Language Char :=
  repeated (char isWord)

/-- A keyword that a name or a group may follow. -/
def keyword : Language Char :=
  text ['l', 'e', 't'] + text ['f', 'o', 'r']

variable {l : Language Char} {p : Char → Bool} {t : List Char}

lemma mem_optional : t ∈ optional l ↔ t = [] ∨ t ∈ l := by
  rw [optional, Language.mem_add, Language.mem_one]

lemma mem_repeated : t ∈ repeated l ↔ ∃ a ∈ l, ∃ b ∈ l∗, a ++ b = t :=
  Language.mem_mul

lemma one_le_optional : 1 ≤ optional l :=
  le_add_right le_rfl

lemma le_optional : l ≤ optional l :=
  le_add_left le_rfl

lemma repeated_le_kstar : repeated l ≤ l∗ :=
  mul_kstar_le_kstar

/-- Repeating a character of a class gives the texts that are made of the class. -/
lemma mem_kstar_char : t ∈ (char p)∗ ↔ ∀ c ∈ t, p c = true := by
  rw [Language.mem_kstar]
  constructor
  · rintro ⟨parts, rfl, hparts⟩ c hc
    obtain ⟨part, hpart, hc⟩ := List.mem_flatten.mp hc
    obtain ⟨d, hd, rfl⟩ := hparts part hpart
    rw [List.mem_singleton.mp hc, hd]
  · intro h
    refine ⟨t.map fun c => [c], by rw [← List.flatMap_def, List.flatMap_singleton'],
      fun part hpart => ?_⟩
    obtain ⟨c, hc, rfl⟩ := List.mem_map.mp hpart
    exact ⟨c, h c hc, rfl⟩

lemma mem_repeated_char : t ∈ repeated (char p) ↔ t ≠ [] ∧ ∀ c ∈ t, p c = true := by
  rw [mem_repeated]
  constructor
  · rintro ⟨a, ⟨c, hc, rfl⟩, b, hb, rfl⟩
    refine ⟨by simp, fun d hd => ?_⟩
    rcases List.mem_cons.mp hd with rfl | hd
    · exact hc
    · exact mem_kstar_char.mp hb d hd
  · rintro ⟨hne, hall⟩
    obtain ⟨c, t, rfl⟩ := List.exists_cons_of_ne_nil hne
    exact ⟨[c], ⟨c, hall c List.mem_cons_self, rfl⟩, t,
      mem_kstar_char.mpr fun d hd => hall d (List.mem_cons_of_mem c hd), rfl⟩

lemma mem_gap : t ∈ gap ↔ t ≠ [] ∧ ∀ c ∈ t, isBlank c = true :=
  mem_repeated_char

lemma mem_word : t ∈ word ↔ t ≠ [] ∧ ∀ c ∈ t, isWord c = true :=
  mem_repeated_char

lemma mem_keyword : t ∈ keyword ↔ t = ['l', 'e', 't'] ∨ t = ['f', 'o', 'r'] :=
  Language.mem_add _ _ _

lemma length_of_mem_keyword (h : t ∈ keyword) : t.length = 3 := by
  rcases mem_keyword.mp h with rfl | rfl <;> rfl

lemma utf8Len_of_mem_keyword (h : t ∈ keyword) : utf8Len t = 3 := by
  rcases mem_keyword.mp h with rfl | rfl <;> decide

lemma qualifier_mem_word : qualifier ∈ word :=
  mem_word.mpr ⟨by decide, List.all_eq_true.mp (by decide +kernel)⟩

end Inlay.Scan.Pattern
