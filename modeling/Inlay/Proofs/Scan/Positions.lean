import Inlay.Proofs.Scan.Rounds
import Inlay.Scan.Document

/-!
The positions of a document. They come in document order without repetition, and each is the end
of a name that stands in the code of its line and cannot be read any longer.
-/

namespace Inlay.Scan

open Inlay.Unicode Inlay.Text

lemma utf16Len_lt {p q r s : List Char} (h : p ++ q = r ++ s) (hlt : utf8Len p < utf8Len r) :
    utf16Len p < utf16Len r := by
  rcases List.append_eq_append_iff.mp h with ⟨a, rfl, -⟩ | ⟨a, rfl, -⟩
  · cases a with
    | nil =>
      rw [List.append_nil] at hlt
      omega
    | cons c cs =>
      have := utf16Size_pos c
      rw [utf16Len_append, utf16Len_cons]
      omega
  · rw [utf8Len_append] at hlt
    omega

/-- The site is the end of a name of the line, which starts at column `column`. -/
def Site.EndsName (line : List Char) (column : Nat) (x : Site) : Prop :=
  ∃ p q, line = p ++ q ∧ x.position.character = column + utf16Len p ∧ NameEnd p q

/-- The site stands before the other one. -/
abbrev Site.Before (x y : Site) : Prop := x.position.Before y.position

/-! ### One line -/

lemma line_of_mem_codeSites {number column : Nat} {cs : List Char} {x : Site}
    (h : x ∈ codeSites number column cs) : x.position.line = number := by
  induction cs using rounds_induction generalizing column with
  | stop cs hnone =>
    rw [codeSites_none hnone] at h
    contradiction
  | round p q r hround ih =>
    rw [hround.codeSites_eq] at h
    rcases List.mem_append.mp h with h | h
    · obtain ⟨a, -, rfl⟩ := List.mem_map.mp h
      rfl
    · exact ih h

lemma endsName_of_mem_codeSites {number column : Nat} {cs : List Char} {x : Site}
    (h : x ∈ codeSites number column cs) : x.EndsName cs column := by
  induction cs using rounds_induction generalizing column with
  | stop cs hnone =>
    rw [codeSites_none hnone] at h
    contradiction
  | round p q r hround ih =>
    rw [hround.codeSites_eq] at h
    rcases List.mem_append.mp h with h | h
    · obtain ⟨a, ha, rfl⟩ := List.mem_map.mp h
      obtain ⟨u, v, huv, rfl, hend⟩ := (anchorsOf_of_resolve? hround.found).nameEnd a ha
      refine ⟨u, v, huv, ?_, hend⟩
      rw [huv, takeBytes_utf8Len_append]
    · obtain ⟨u, v, rfl, hcol, hend⟩ := ih h
      refine ⟨p ++ u, v, by simp, ?_, hend.append_left p⟩
      rw [hcol, utf16Len_append]
      omega

lemma pairwise_columns {cs : List Char} {as : List Nat} (h : AnchorsOf cs as) :
    as.Pairwise fun a b => utf16Len (takeBytes a cs) < utf16Len (takeBytes b cs) := by
  refine h.ascending.imp_of_mem fun {a b} ha hb hab => ?_
  obtain ⟨p, q, hpq, rfl, -⟩ := h.nameEnd a ha
  obtain ⟨r, s, hrs, rfl, -⟩ := h.nameEnd b hb
  have hp : takeBytes (utf8Len p) cs = p := by rw [hpq, takeBytes_utf8Len_append]
  have hr : takeBytes (utf8Len r) cs = r := by rw [hrs, takeBytes_utf8Len_append]
  rw [hp, hr]
  exact utf16Len_lt (hpq.symm.trans hrs) hab

/-- The sites of code come from left to right. -/
theorem pairwise_codeSites (number column : Nat) (cs : List Char) :
    (codeSites number column cs).Pairwise Site.Before := by
  induction cs using rounds_induction generalizing column with
  | stop cs hnone =>
    rw [codeSites_none hnone]
    exact List.Pairwise.nil
  | round p q r hround ih =>
    have hanchors := anchorsOf_of_resolve? hround.found
    rw [hround.codeSites_eq, List.pairwise_append]
    refine ⟨?_, ih _, fun x hx y hy => ?_⟩
    · rw [List.pairwise_map]
      refine (pairwise_columns hanchors).imp fun hab => Or.inr ⟨rfl, ?_⟩
      simp only
      omega
    -- a later round begins at the last anchor, and its names are not empty
    · obtain ⟨a, ha, rfl⟩ := List.mem_map.mp hx
      obtain ⟨u, v, rfl, hcol, hend⟩ := endsName_of_mem_codeSites hy
      refine Or.inr ⟨(line_of_mem_codeSites hy).symm, ?_⟩
      obtain ⟨p', q', hpq, rfl, -⟩ := hanchors.nameEnd a ha
      have hle : utf8Len p' ≤ utf8Len p := hround.le_last _ ha
      have hpos := hend.utf8Len_pos
      have hlt : utf16Len p' < utf16Len (p ++ u) := by
        refine utf16Len_lt (q := q') (s := v) ?_ ?_
        · rw [← hpq, List.append_assoc]
        · rw [utf8Len_append]
          omega
      rw [utf16Len_append] at hlt
      simp only [hcol, hpq, takeBytes_utf8Len_append]
      omega

/-! ### Comments -/

lemma exists_append_beforeSlashes (line : List Char) :
    ∃ q, line = beforeSlashes line ++ q ∧ ∀ c, q.head? = some c → c = '/' := by
  induction line with
  | nil => exact ⟨[], rfl, by simp⟩
  | cons c cs ih =>
    unfold beforeSlashes
    split
    · next rest he =>
      cases he
      exact ⟨'/' :: '/' :: rest, rfl, fun d hd => by cases hd; rfl⟩
    · next he =>
      cases he
      obtain ⟨q, hq, hhead⟩ := ih
      exact ⟨q, by rw [List.cons_append, ← hq], hhead⟩
    · contradiction

/-- A comment does not start with a word character. -/
lemma exists_append_stripComment (line : List Char) :
    ∃ q, line = stripComment line ++ q ∧ ∀ c, q.head? = some c → isWord c = false := by
  obtain ⟨q, hq, hhead⟩ := exists_append_beforeSlashes line
  have hcode : beforeSlashes line =
      stripComment line ++ (beforeSlashes line).dropWhile (· != '#') :=
    (List.takeWhile_append_dropWhile).symm
  refine ⟨(beforeSlashes line).dropWhile (· != '#') ++ q, ?_, fun c hc => ?_⟩
  · rw [← List.append_assoc, ← hcode, ← hq]
  · cases hd : (beforeSlashes line).dropWhile (· != '#') with
    | nil =>
      rw [hd, List.nil_append] at hc
      rw [hhead c hc]
      decide +kernel
    | cons d ds =>
      rw [hd] at hc
      cases hc
      have := List.head?_dropWhile_not (· != '#') (beforeSlashes line)
      rw [hd] at this
      have hhash : c = '#' := by simpa using this
      rw [hhash]
      decide +kernel

lemma mem_codeSites_of_mem_lineSites {number : Nat} {line : List Char} {x : Site}
    (h : x ∈ lineSites number line) : x ∈ codeSites number 0 (stripComment line) := by
  simp only [lineSites] at h
  split at h
  · contradiction
  · exact h

lemma pairwise_lineSites (number : Nat) (line : List Char) :
    (lineSites number line).Pairwise Site.Before := by
  simp only [lineSites]
  split
  · exact List.Pairwise.nil
  · exact pairwise_codeSites number 0 _

/-! ### Documents -/

lemma exists_of_mem_linesSites {n : Nat} {lines : List (List Char)} {x : Site}
    (h : x ∈ linesSites n lines) :
    ∃ i line, lines[i]? = some line ∧ x ∈ lineSites (n + i) line := by
  induction lines generalizing n with
  | nil => simp at h
  | cons line lines ih =>
    rw [linesSites_cons] at h
    rcases List.mem_append.mp h with h | h
    · exact ⟨0, line, rfl, h⟩
    · obtain ⟨i, l, hl, hx⟩ := ih h
      refine ⟨i + 1, l, hl, ?_⟩
      rwa [Nat.add_right_comm] at hx

lemma line_of_mem_lineSites {number : Nat} {line : List Char} {x : Site}
    (h : x ∈ lineSites number line) : x.position.line = number :=
  line_of_mem_codeSites (mem_codeSites_of_mem_lineSites h)

theorem pairwise_linesSites (n : Nat) (lines : List (List Char)) :
    (linesSites n lines).Pairwise Site.Before := by
  induction lines generalizing n with
  | nil => exact List.Pairwise.nil
  | cons line lines ih =>
    rw [linesSites_cons, List.pairwise_append]
    refine ⟨pairwise_lineSites n line, ih _, fun x hx y hy => ?_⟩
    obtain ⟨i, l, -, hy⟩ := exists_of_mem_linesSites hy
    have hxl := line_of_mem_lineSites hx
    have hyl := line_of_mem_lineSites hy
    exact Or.inl (by omega)

/-- **Positions are sorted and sound.** The positions of a document strictly increase, and each
is the end of a maximal name of the code of its line. -/
theorem positions_sorted_and_sound (text : String) :
    (positions text).Pairwise Position.Before ∧
    (positions text).Nodup ∧
    ∀ x ∈ positions text, ∃ line p q,
      (split '\n' text.toList)[x.line]? = some line ∧
      line = p ++ q ∧
      p ≠ [] ∧
      p <+: stripComment line ∧
      utf16Len p = x.character ∧
      (∃ c, p.getLast? = some c ∧ isWord c = true) ∧
      ∀ c, q.head? = some c → isWord c = false := by
  have hsorted : (positions text).Pairwise Position.Before := by
    rw [positions, List.pairwise_map]
    exact pairwise_linesSites 0 _
  refine ⟨hsorted, hsorted.imp Position.Before.ne, fun x hx => ?_⟩
  obtain ⟨s, hs, rfl⟩ := List.mem_map.mp hx
  obtain ⟨i, line, hline, hs⟩ := exists_of_mem_linesSites hs
  have hcode := mem_codeSites_of_mem_lineSites hs
  obtain ⟨p, q, hpq, hcol, hend⟩ := endsName_of_mem_codeSites hcode
  obtain ⟨r, hr, hover⟩ := exists_append_stripComment line
  refine ⟨line, p, q ++ r, ?_, ?_, hend.ne_nil, ⟨q, hpq.symm⟩, ?_, hend.word, ?_⟩
  · rw [line_of_mem_lineSites hs, Nat.zero_add, hline]
  · rw [← List.append_assoc, ← hpq, ← hr]
  · rw [hcol, Nat.zero_add]
  · exact (hend.append_right hover).stop

/-- The second name of a group on the second line, before a comment. -/
theorem positions_sorted_and_sound_second_line :
    (⟨1, 9⟩ : Position) ∈ positions "use v;\nfor (é, x) in v // let y" ∧
    ∃ line p q,
      (split '\n' "use v;\nfor (é, x) in v // let y".toList)[1]? = some line ∧
      line = p ++ q ∧
      p ≠ [] ∧
      p <+: stripComment line ∧
      utf16Len p = 9 ∧
      (∃ c, p.getLast? = some c ∧ isWord c = true) ∧
      ∀ c, q.head? = some c → isWord c = false := by
  have hlines : split '\n' "use v;\nfor (é, x) in v // let y".toList =
      ["use v;".toList, "for (é, x) in v // let y".toList] := by decide +kernel
  have hcode : stripComment "for (é, x) in v // let y".toList = "for (é, x) in v ".toList := by
    decide +kernel
  have hheader : isImplHeader "for (é, x) in v ".toList = false := by decide +kernel
  have hfound : resolve? "for (é, x) in v ".toList = some ⟨.tuple, [7, 10]⟩ := by
    decide +kernel
  have hsite : ⟨⟨1, 9⟩, .tuple⟩ ∈ codeSites 1 0 "for (é, x) in v ".toList :=
    mem_codeSites_of_resolve? hfound (List.mem_cons_of_mem 7 List.mem_cons_self)
  have hmem : (⟨1, 9⟩ : Position) ∈ positions "use v;\nfor (é, x) in v // let y" := by
    refine List.mem_map.mpr ⟨⟨⟨1, 9⟩, .tuple⟩, ?_, rfl⟩
    rw [sites, hlines, linesSites_cons, linesSites_cons, List.mem_append, List.mem_append]
    simp only [lineSites, hcode, hheader]
    exact Or.inr (Or.inl hsite)
  exact ⟨hmem, (positions_sorted_and_sound _).2.2 _ hmem⟩

end Inlay.Scan
