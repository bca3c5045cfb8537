import Inlay.Proofs.Scan.ClosureGrammar
import Inlay.Proofs.Scan.DeclarationGrammar
import Inlay.Proofs.Scan.MatchArmGrammar

/-!
Where the shapes occur and what an occurrence looks like. Whichever shape is found, its anchors
ascend, there is at least one, and each is just past a name of the text.
-/

namespace Inlay.Scan

open Inlay.Unicode Inlay.Text

/-! ### Single names -/

lemma isWord_of_afterKeyword? {cs : List Char} (h : afterKeyword? cs ≠ none) :
    ∃ c, cs.head? = some c ∧ isWord c = true := by
  unfold afterKeyword? at h
  split at h
  · exact ⟨'l', rfl, by decide +kernel⟩
  · exact ⟨'f', rfl, by decide +kernel⟩
  · contradiction

lemma SpacedWord.nameEnd {cs gap word rest : List Char} (h : SpacedWord cs gap word rest) :
    NameEnd (gap ++ word) rest :=
  (h.word.nameEnd h.word_ne_nil).append_left gap

lemma Declares.nameEnd {b : Option Char} {cs head : List Char} (h : Declares b cs head) :
    ∃ rest, cs = head ++ rest ∧ NameEnd head rest := by
  obtain ⟨k, -, tail, head, rfl, rfl, hname⟩ := h.name
  rcases hname with ⟨gap, tail', gap', name, rest, hw, hv, -, rfl⟩ |
    ⟨-, gap, name, rest, hw, -, rfl⟩
  · refine ⟨rest, by rw [hw.split, hv.split]; simp, ?_⟩
    exact ((hv.nameEnd.append_left qualifier).append_left gap).append_left k
  · exact ⟨rest, by rw [hw.split]; simp, hw.nameEnd.append_left k⟩

lemma nameEnd_of_declarationAt {b : Option Char} {cs : List Char} {n : Nat}
    (h : declarationAt b cs = some n) : ∃ p q, cs = p ++ q ∧ utf8Len p = n ∧ NameEnd p q := by
  obtain ⟨head, hdeclares, rfl⟩ := declarationAt_eq_some_iff.mp h
  obtain ⟨rest, hcs, hend⟩ := hdeclares.nameEnd
  exact ⟨head, rest, hcs, rfl, hend⟩

/-! ### Groups -/

/-- A group stands `lead` bytes into the text, closed by a character that no name holds. -/
structure Encloses (cs : List Char) (lead : Nat) (t : List Char) : Prop where
  split : ∃ p c q, cs = p ++ (t ++ c :: q) ∧ utf8Len p = lead ∧ isWord c = false
  group : Group.accepts t = true

lemma Encloses.nameEnd {cs t : List Char} {offset lead a : Nat} (h : Encloses cs lead t)
    (ha : a ∈ bindings (offset + lead) t) :
    ∃ p q, cs = p ++ q ∧ a = offset + utf8Len p ∧ NameEnd p q := by
  obtain ⟨p, c, q, rfl, rfl, hc⟩ := h.split
  obtain ⟨r, s, rfl, rfl, hend⟩ := nameEnd_of_mem_bindings ha
  refine ⟨p ++ r, s ++ c :: q, by simp, by rw [utf8Len_append]; omega, ?_⟩
  refine (hend.append_left p).append_right ?_
  intro d hd
  cases hd
  exact hc

lemma Opens.encloses {heads : Language Char} {cs head t : List Char} (h : Opens heads cs head t) :
    Encloses cs (utf8Len head + 1) t := by
  obtain ⟨rest, hcs⟩ := h.split
  have hparen : ('(' : Char).utf8Size = 1 := by decide
  refine ⟨⟨head ++ ['('], ')', rest, by simp [hcs], ?_, by decide +kernel⟩,
    Group.mem_language_iff.mp h.group⟩
  rw [utf8Len_append, utf8Len_cons, utf8Len_nil, hparen]

lemma encloses_of_closureAt {cs t : List Char} {lead : Nat}
    (h : closureAt cs = some (lead, t)) : Encloses cs lead t := by
  obtain ⟨⟨⟨-, rest, rfl⟩, ht⟩, rfl⟩ := closureAt_eq_some_iff.mp h
  exact ⟨⟨['|'], '|', rest, rfl, by decide, by decide +kernel⟩, Group.mem_language_iff.mp ht⟩

lemma encloses_of_matchArmAt {cs t : List Char} {lead : Nat}
    (h : matchArmAt cs = some (lead, t)) : Encloses cs lead t := by
  obtain ⟨⟨ht, e, he, rest, rfl⟩, rfl⟩ := matchArmAt_eq_some_iff.mp h
  obtain ⟨z, -, rfl⟩ := mem_armEnd.mp he
  exact ⟨⟨['('], ')', z ++ arrow ++ rest, rfl, by decide, by decide +kernel⟩,
    Group.mem_language_iff.mp ht⟩

lemma encloses_of_tupleAt {cs t : List Char} {lead : Nat}
    (h : tupleAt cs = some (lead, t)) : Encloses cs lead t := by
  obtain ⟨head, hopens | hlast, rfl⟩ := tupleAt_eq_some_iff.mp h
  · exact hopens.encloses
  · exact hlast.opens.encloses

end Inlay.Scan
