import Mathlib.Data.List.DropRight
import Inlay.Proofs.Scan.Positions

/-!
Names as stretches of columns. A name of a line is a run of word characters that goes on neither to
the left nor to the right, and it takes up the columns from its start to its stop. Every position
of a document is the stop of one.
-/

namespace Inlay.Scan

open Inlay.Unicode Inlay.Text

/-- The columns of the line from `start` on and before `stop` hold a whole name: word characters, at
least one, with none before them and none after them. -/
def NameAt (line : List Char) (start stop : Nat) : Prop :=
  ∃ a name b, line = a ++ (name ++ b) ∧ name ≠ [] ∧ (∀ c ∈ name, isWord c = true) ∧
    (∀ c, a.getLast? = some c → isWord c = false) ∧
    (∀ c, b.head? = some c → isWord c = false) ∧
    utf16Len a = start ∧ utf16Len (a ++ name) = stop

lemma NameAt.lt {line : List Char} {start stop : Nat} (h : NameAt line start stop) :
    start < stop := by
  obtain ⟨a, name, b, -, hne, -, -, -, rfl, rfl⟩ := h
  cases name with
  | nil => exact absurd rfl hne
  | cons c name =>
    have hpos := utf16Size_pos c
    rw [utf16Len_append, utf16Len_cons]
    omega

/-- The name that a text ends in starts where its last run of word characters does. -/
lemma NameEnd.nameAt {p q : List Char} (h : NameEnd p q) :
    ∃ start, NameAt (p ++ q) start (utf16Len p) := by
  obtain ⟨⟨last, hlast, hword⟩, hstop⟩ := h
  have hsplit : p.rdropWhile isWord ++ p.rtakeWhile isWord = p := List.rdropWhile_append_rtakeWhile
  refine ⟨utf16Len (p.rdropWhile isWord), p.rdropWhile isWord, p.rtakeWhile isWord, q, ?_, ?_,
    fun c hc => List.mem_rtakeWhile_imp hc, fun c hc => ?_, hstop, rfl, by rw [hsplit]⟩
  · rw [← List.append_assoc, hsplit]
  · intro hnil
    obtain ⟨hne, rfl⟩ := List.mem_getLast?_eq_getLast hlast
    exact List.rtakeWhile_eq_nil_iff.mp hnil hne hword
  · obtain ⟨hne, rfl⟩ := List.mem_getLast?_eq_getLast hc
    exact Bool.eq_false_iff.mpr (List.rdropWhile_last_not isWord p hne)

/-- Every position of a document is the stop of a name on its line. -/
theorem exists_nameAt_of_mem_positions {text : String} {x : Position} (h : x ∈ positions text) :
    ∃ line start, (split '\n' text.toList)[x.line]? = some line ∧
      NameAt line start x.character := by
  obtain ⟨s, hs, rfl⟩ := List.mem_map.mp h
  obtain ⟨i, line, hline, hs⟩ := exists_of_mem_linesSites hs
  obtain ⟨p, q, hcode, hcolumn, hend⟩ :=
    endsName_of_mem_codeSites (mem_codeSites_of_mem_lineSites hs)
  obtain ⟨comment, hcomment, hover⟩ := exists_append_stripComment line
  have hwhole : line = p ++ (q ++ comment) := by rw [← List.append_assoc, ← hcode, ← hcomment]
  obtain ⟨start, hname⟩ := (hend.append_right hover).nameAt
  refine ⟨line, start, ?_, ?_⟩
  · rw [line_of_mem_lineSites hs, Nat.zero_add, hline]
  · rw [hcolumn, Nat.zero_add, hwhole]
    exact hname

end Inlay.Scan
