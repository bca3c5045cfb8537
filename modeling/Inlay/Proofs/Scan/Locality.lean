import Inlay.Proofs.Scan.Positions

/-!
Lines by themselves. The sites of a document are those of its lines, each line scanned as if there
were no other; only its number tells where it stands. So texts that are put together line by line
have their sites put together, and what a line holds is seen in the sites of that line alone.
-/

namespace Inlay.Scan

open Inlay.Text

/-! ### Lines in another place -/

lemma lineSites_add (number lines : Nat) (line : List Char) :
    lineSites (number + lines) line = (lineSites number line).map (Site.move lines 0) := by
  simp only [lineSites]
  split
  · rfl
  · exact codeSites_add number lines 0 0 _

lemma linesSites_add (n lines : Nat) (ls : List (List Char)) :
    linesSites (n + lines) ls = (linesSites n ls).map (Site.move lines 0) := by
  induction ls generalizing n with
  | nil => rfl
  | cons line ls ih =>
    have hnext : n + lines + 1 = n + 1 + lines := by omega
    rw [linesSites_cons, linesSites_cons, hnext, ih, lineSites_add, List.map_append]

lemma linesSites_eq_flatMap (n : Nat) (ls : List (List Char)) :
    linesSites n ls = (ls.zipIdx n).flatMap fun x => lineSites x.2 x.1 := by
  induction ls generalizing n with
  | nil => rfl
  | cons line ls ih => rw [linesSites_cons, List.zipIdx_cons, List.flatMap_cons, ih]

lemma toList_append_line (a b : String) :
    (a ++ "\n" ++ b).toList = a.toList ++ '\n' :: b.toList := by
  simp [String.toList_append]

lemma sites_append (a b : String) :
    sites (a ++ "\n" ++ b) =
      sites a ++ (sites b).map (Site.move (1 + a.toList.count '\n') 0) := by
  have hlines : 0 + (split '\n' a.toList).length = 0 + (1 + a.toList.count '\n') := by
    rw [length_split]
    omega
  calc sites (a ++ "\n" ++ b)
      = linesSites 0 (split '\n' a.toList ++ split '\n' b.toList) := by
        rw [sites, toList_append_line, split_append]
    _ = sites a ++ linesSites (0 + (1 + a.toList.count '\n')) (split '\n' b.toList) := by
        rw [linesSites_append, hlines]
        rfl
    _ = _ := by
        rw [linesSites_add]
        rfl

/-! ### One line among others -/

lemma le_line_of_mem_linesSites {n : Nat} {ls : List (List Char)} {x : Site}
    (h : x ∈ linesSites n ls) : n ≤ x.position.line := by
  obtain ⟨i, line, -, hx⟩ := exists_of_mem_linesSites h
  rw [line_of_mem_lineSites hx]
  omega

/-- All sites of a line are kept or none, if all depends on their line. -/
lemma filter_lineSites (keep : Nat → Bool) (number : Nat) (line : List Char) :
    (lineSites number line).filter (fun x => keep x.position.line) =
      if keep number then lineSites number line else [] := by
  have hline : ∀ x ∈ lineSites number line, keep x.position.line = keep number := by
    intro x hx
    rw [line_of_mem_lineSites hx]
  rw [List.filter_congr hline]
  split
  · next h => simp [h]
  · next h => simp [h]

/-- The sites on one line are those that the line has by itself. -/
lemma filter_line_eq (n i : Nat) (ls : List (List Char)) :
    (linesSites n ls).filter (fun x => decide (x.position.line = n + i)) =
      ls[i]?.elim [] (lineSites (n + i)) := by
  induction ls generalizing n i with
  | nil => rfl
  | cons line ls ih =>
    rw [linesSites_cons, List.filter_append, filter_lineSites fun m => decide (m = n + i)]
    cases i with
    | zero =>
      have hlater : (linesSites (n + 1) ls).filter
          (fun x => decide (x.position.line = n + 0)) = [] := by
        rw [List.filter_eq_nil_iff]
        intro x hx
        have hle := le_line_of_mem_linesSites hx
        rw [decide_eq_true_eq]
        omega
      rw [hlater]
      simp
    | succ i =>
      have hline : n + (i + 1) = n + 1 + i := by omega
      have hother : n ≠ n + 1 + i := by omega
      rw [hline, ih]
      simp [hother]

/-- A line whose sites are left out may as well be another. -/
lemma filter_set (keep : Nat → Bool) {n i : Nat} (h : keep (n + i) = false)
    (ls : List (List Char)) (line : List Char) :
    (linesSites n (ls.set i line)).filter (fun x => keep x.position.line) =
      (linesSites n ls).filter fun x => keep x.position.line := by
  induction ls generalizing n i with
  | nil => rfl
  | cons l ls ih =>
    cases i with
    | zero =>
      rw [Nat.add_zero] at h
      rw [List.set_cons_zero, linesSites_cons, linesSites_cons, List.filter_append,
        List.filter_append, filter_lineSites, filter_lineSites, h]
      rfl
    | succ i =>
      have hline : n + (i + 1) = n + 1 + i := by omega
      rw [List.set_cons_succ, linesSites_cons, linesSites_cons, List.filter_append,
        List.filter_append, ih (hline ▸ h)]

/-- **A document is scanned line by line.** Of two texts joined by a line feed, the first keeps its
sites and the second has its own, further down by the lines of the first; positions are those of
the sites, for documents as for lines. The sites on one line are those of that line by itself, so a
line put in the place of another changes no site on any other line. -/
theorem sites_line_by_line :
    (∀ a b : String,
      sites (a ++ "\n" ++ b) =
        sites a ++ (sites b).map (Site.move (1 + a.toList.count '\n') 0) ∧
      positions (a ++ "\n" ++ b) = positions a ++
        (positions b).map fun p => ⟨p.line + (1 + a.toList.count '\n'), p.character⟩) ∧
    (∀ text : String,
      sites text = (split '\n' text.toList).zipIdx.flatMap (fun x => lineSites x.2 x.1) ∧
      positions text = (sites text).map Site.position ∧
      positions text = (split '\n' text.toList).zipIdx.flatMap fun x => linePositions x.2 x.1) ∧
    (∀ (text : String) (i : Nat),
      (sites text).filter (fun x => decide (x.position.line = i)) =
        (split '\n' text.toList)[i]?.elim [] (lineSites i)) ∧
    ∀ (a b : String) (i : Nat) (line : List Char),
      split '\n' b.toList = (split '\n' a.toList).set i line →
      (sites b).filter (fun x => decide (x.position.line ≠ i)) =
        (sites a).filter fun x => decide (x.position.line ≠ i) := by
  have hsites : ∀ text : String,
      sites text = (split '\n' text.toList).zipIdx.flatMap fun x => lineSites x.2 x.1 :=
    fun text => linesSites_eq_flatMap 0 _
  refine ⟨fun a b => ⟨sites_append a b, ?_⟩, fun text => ⟨hsites text, rfl, ?_⟩,
    fun text i => ?_, fun a b i line hlines => ?_⟩
  · rw [positions, sites_append, List.map_append, List.map_map, positions, positions, List.map_map]
    rfl
  · rw [positions, hsites, List.map_flatMap]
    rfl
  · have hline := filter_line_eq 0 i (split '\n' text.toList)
    rw [Nat.zero_add] at hline
    exact hline
  · have hleft : decide (0 + i ≠ i) = false := by simp
    rw [sites, sites, hlines]
    exact filter_set (fun m => decide (m ≠ i)) hleft _ line

/-- An implementation header gives way to a group and a parameter list that are not closed; the
declaration above and the match arm below stay. -/
theorem sites_line_by_line_unclosed :
    split '\n' "let x = 1\nlet (a, |b\n(c, d) => c".toList =
      (split '\n' "let x = 1\nimpl A for B where\n(c, d) => c".toList).set 1 "let (a, |b".toList ∧
    (sites "let x = 1\nlet (a, |b\n(c, d) => c").filter (fun x => decide (x.position.line ≠ 1)) =
      [⟨⟨0, 5⟩, .declaration⟩, ⟨⟨2, 2⟩, .matchArm⟩, ⟨⟨2, 5⟩, .matchArm⟩] := by
  have hlines : split '\n' "let x = 1\nlet (a, |b\n(c, d) => c".toList =
      (split '\n' "let x = 1\nimpl A for B where\n(c, d) => c".toList).set 1
        "let (a, |b".toList := by
    decide +kernel
  have hsites : sites "let x = 1\nimpl A for B where\n(c, d) => c" =
      [⟨⟨0, 5⟩, .declaration⟩, ⟨⟨2, 2⟩, .matchArm⟩, ⟨⟨2, 5⟩, .matchArm⟩] := by decide +kernel
  refine ⟨hlines, ?_⟩
  rw [sites_line_by_line.2.2.2 _ _ 1 _ hlines, hsites]
  decide

end Inlay.Scan
