import Inlay.Proofs.Scan.WholeScan

/-!
The order of the shapes on a line. A shape that occurs nowhere in what is left of the code does not
come up again after a cut, so the scan goes through the shapes in their order of trial and never
back to an earlier one.
-/

namespace Inlay.Scan

open Inlay.Unicode Inlay.Text

/-- The order of trial is the order of ranks. -/
lemma Shape.pairwise_all : Shape.all.Pairwise fun s t => s.rank < t.rank := by
  decide

/-- What is resolved is a shape that occurs, and no shape tried before it does. -/
lemma anchors?_of_resolve? {cs : List Char} {r : Resolution} (h : resolve? cs = some r) :
    r.shape.anchors? cs = some r.anchors ∧
      ∀ s : Shape, s.rank < r.shape.rank → s.anchors? cs = none := by
  rw [resolve?_eq] at h
  obtain ⟨before, s, after, hall, hs, hbefore⟩ := List.findSome?_eq_some_iff.mp h
  obtain ⟨as, has, rfl⟩ := Option.map_eq_some_iff.mp hs
  refine ⟨has, fun t ht => ?_⟩
  have hsorted := Shape.pairwise_all
  rw [hall, List.pairwise_append, List.pairwise_cons] at hsorted
  have hmem : t ∈ before ++ s :: after := hall ▸ t.mem_all
  rcases List.mem_append.mp hmem with hmem | hmem
  · exact Option.map_eq_none_iff.mp (hbefore t hmem)
  · rcases List.mem_cons.mp hmem with rfl | hmem
    · exact absurd ht (Nat.lt_irrefl _)
    · exact absurd ht (Nat.lt_asymm (hsorted.2.1.1 t hmem))

/-! ### After a cut -/

/-- A shape that does not occur in a text does not occur past a clean cut of it. -/
lemma CleanCut.anchors?_eq_none {p q : List Char} (h : CleanCut p q) {s : Shape}
    (hs : s.anchors? (p ++ q) = none) : s.anchors? q = none := by
  rw [anchors?_eq, Option.map_eq_none_iff, leftmost_eq_none_iff] at hs ⊢
  intro p' q' hpq
  have hread := hs (p ++ p') q' (by rw [hpq, List.append_assoc])
  rw [Option.or_none] at hread ⊢
  cases p' with
  -- right at the cut the character before it makes no difference
  | nil =>
    rw [List.append_nil] at hread
    rw [List.nil_append] at hpq
    rw [← hread, ← hpq]
    exact (h.anchorsAt? s).symm
  | cons c p' =>
    rw [List.getLast?_append, List.getLast?_cons, Option.some_or] at hread
    rwa [List.getLast?_cons]

lemma Round.anchors?_eq_none {p q : List Char} {r : Resolution} (h : Round p q r) {s : Shape}
    (hs : s.anchors? (p ++ q) = none) : s.anchors? q = none :=
  h.nameEnd.cleanCut.anchors?_eq_none hs

/-- A shape that is missing at one cursor is missing at all later ones. -/
lemma Cursor.Later.anchors?_eq_none {c d : Cursor} (h : c.Later d) {s : Shape}
    (hs : s.anchors? c.rest = none) : s.anchors? d.rest = none := by
  induction h with
  | refl => exact hs
  | @tail d e _ hnext ih =>
    obtain ⟨column, rest⟩ := d
    cases hr : resolve? rest with
    | none =>
      rw [next?_eq_none hr] at hnext
      contradiction
    | some r =>
      obtain ⟨p, q, rfl, hround⟩ := exists_round hr
      rw [hround.next?_eq] at hnext
      cases hnext
      exact hround.anchors?_eq_none ih

/-! ### Sites -/

/-- If all shapes up to some rank are missing from code, its sites are of later shapes. -/
lemma le_rank_of_mem_codeSites {number column n : Nat} {cs : List Char} {x : Site}
    (hmissing : ∀ s : Shape, s.rank < n → s.anchors? cs = none)
    (hx : x ∈ codeSites number column cs) : n ≤ x.shape.rank := by
  induction cs using rounds_induction generalizing column with
  | stop cs hnone =>
    rw [codeSites_none hnone] at hx
    contradiction
  | round p q r hround ih =>
    rw [hround.codeSites_eq] at hx
    rcases List.mem_append.mp hx with hx | hx
    · obtain ⟨a, -, rfl⟩ := List.mem_map.mp hx
      by_contra hlt
      have hfound := (anchors?_of_resolve? hround.found).1
      rw [hmissing r.shape (Nat.lt_of_not_le hlt)] at hfound
      contradiction
    · exact ih (fun s hs => hround.anchors?_eq_none (hmissing s hs)) hx

/-- The shapes of the sites of code come in their order of trial. -/
theorem pairwise_rank_codeSites (number column : Nat) (cs : List Char) :
    (codeSites number column cs).Pairwise fun x y => x.shape.rank ≤ y.shape.rank := by
  induction cs using rounds_induction generalizing column with
  | stop cs hnone =>
    rw [codeSites_none hnone]
    exact List.Pairwise.nil
  | round p q r hround ih =>
    rw [hround.codeSites_eq, List.pairwise_append]
    refine ⟨?_, ih _, fun x hx y hy => ?_⟩
    · rw [List.pairwise_map]
      exact List.pairwise_of_forall fun _ _ => Nat.le_refl _
    -- the shapes before that of the round are missing from what it leaves
    · obtain ⟨a, -, rfl⟩ := List.mem_map.mp hx
      have hearlier := (anchors?_of_resolve? hround.found).2
      exact le_rank_of_mem_codeSites (fun s hs => hround.anchors?_eq_none (hearlier s hs)) hy

/-- No site is of a shape that comes before those of all sites. -/
lemma filter_shape_eq_nil {n : Nat} {xs : List Site} (h : ∀ x ∈ xs, n ≤ x.shape.rank) {s : Shape}
    (hs : s.rank < n) : (xs.filter fun x => decide (x.shape = s)) = [] := by
  rw [List.filter_eq_nil_iff]
  intro x hx he
  have hle := h x hx
  rw [of_decide_eq_true he] at hle
  omega

/-- Sites whose shapes come in order are those of the first shape, then those of the next, and so
on. -/
lemma eq_flatMap_filter {xs : List Site}
    (h : xs.Pairwise fun x y => x.shape.rank ≤ y.shape.rank) :
    xs = Shape.all.flatMap fun s => xs.filter fun x => decide (x.shape = s) := by
  induction xs with
  | nil => rfl
  | cons x xs ih =>
    rw [List.pairwise_cons] at h
    -- the new site goes in front of those of its shape, and there is none of a shape before that
    obtain ⟨before, after, hall⟩ := List.append_of_mem x.shape.mem_all
    have hsorted := Shape.pairwise_all
    rw [hall, List.pairwise_append, List.pairwise_cons] at hsorted
    obtain ⟨-, ⟨hafter, -⟩, hbefore⟩ := hsorted
    have hnone : ∀ ys : List Site, (∀ y ∈ ys, x.shape.rank ≤ y.shape.rank) →
        (before.flatMap fun s => ys.filter fun y => decide (y.shape = s)) = [] := by
      intro ys hys
      rw [List.flatMap_eq_nil_iff]
      intro s hs
      exact filter_shape_eq_nil hys (hbefore s hs x.shape List.mem_cons_self)
    have hlater : ∀ s ∈ after, ((x :: xs).filter fun y => decide (y.shape = s)) =
        xs.filter fun y => decide (y.shape = s) := by
      intro s hs
      have hne : x.shape ≠ s := by
        rintro rfl
        exact Nat.lt_irrefl _ (hafter _ hs)
      rw [List.filter_cons_of_neg (by simp [hne])]
    have hxs : ∀ y ∈ x :: xs, x.shape.rank ≤ y.shape.rank := by
      simpa using h.1
    have ih' := ih h.2
    rw [hall, List.flatMap_append, List.flatMap_cons, hnone xs h.1] at ih'
    rw [hall, List.flatMap_append, List.flatMap_cons, hnone _ hxs,
      List.filter_cons_of_pos (by simp), List.flatMap_congr hlater]
    exact congrArg (x :: ·) ih'

/-- **Shapes come in order of trial.** The sites of a line are those of the shape tried first, then
those of the one tried next, and so on; for a shape that is missing at a cursor of the scan is
missing at every cursor after it. -/
theorem lineSites_in_order_of_trial (number : Nat) (line : List Char) :
    ((lineSites number line).map fun x => x.shape.rank).Pairwise (· ≤ ·) ∧
    lineSites number line =
      (Shape.all.flatMap fun s => (lineSites number line).filter fun x => decide (x.shape = s)) ∧
    ∀ c d : Cursor, c.Reached (stripComment line) → c.Later d →
      ∀ s : Shape, s.anchors? c.rest = none → s.anchors? d.rest = none := by
  have hsorted : (lineSites number line).Pairwise fun x y => x.shape.rank ≤ y.shape.rank := by
    simp only [lineSites]
    split
    · exact List.Pairwise.nil
    · exact pairwise_rank_codeSites number 0 _
  refine ⟨?_, eq_flatMap_filter hsorted, fun c d _ hlater s hs => hlater.anchors?_eq_none hs⟩
  rw [List.pairwise_map]
  exact hsorted

/-- A name, then a list of parameters, then a group before an arrow; there is no tuple. -/
theorem lineSites_in_order_of_trial_mixed :
    ((lineSites 0 "let f = |x| (a, b) => x".toList).map fun x => x.shape.rank).Pairwise (· ≤ ·) ∧
    (lineSites 0 "let f = |x| (a, b) => x".toList).map (fun x => x.shape.rank) = [0, 1, 3, 3] ∧
    Shape.tuple.anchors? " = |x| (a, b) => x".toList = none := by
  obtain ⟨hranks, -, hmissing⟩ :=
    lineSites_in_order_of_trial 0 "let f = |x| (a, b) => x".toList
  refine ⟨hranks, by decide +kernel, ?_⟩
  exact hmissing ⟨0, "let f = |x| (a, b) => x".toList⟩ ⟨5, " = |x| (a, b) => x".toList⟩
    .start (.single rfl) .tuple (by decide +kernel)

end Inlay.Scan
