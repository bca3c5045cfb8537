import Inlay.Proofs.Scan.Trailing

/-!
Comments. The code of a line ends at the first place where a pair of slashes or a hash stands,
whichever of the two is looked for first. What follows that place has no influence on the sites,
even if the first slash of the pair belongs to the code and is cut off with the comment.
-/

namespace Inlay.Scan

open Inlay.Unicode Inlay.Text

/-- A comment starts in front: a pair of slashes or a hash. -/
def StartsComment (cs : List Char) : Prop :=
  ['/', '/'] <+: cs ∨ ['#'] <+: cs

/-- The first place of a text where a comment starts, or its end. -/
structure IsCut (cs : List Char) (cut : Nat) : Prop where
  le : cut ≤ cs.length
  clean : ∀ i < cut, ¬StartsComment (cs.drop i)
  start : cut < cs.length → StartsComment (cs.drop cut)

lemma startsComment_cons {c : Char} {cs : List Char} :
    StartsComment (c :: cs) ↔ c = '/' ∧ cs.head? = some '/' ∨ c = '#' := by
  unfold StartsComment
  cases cs with
  | nil => simp [eq_comm]
  | cons d cs => simp [eq_comm]

lemma beforeSlashes_cons (c : Char) (cs : List Char) :
    beforeSlashes (c :: cs) =
      if c = '/' ∧ cs.head? = some '/' then [] else c :: beforeSlashes cs := by
  rw [beforeSlashes.eq_def]
  split
  · next h =>
    cases h
    rfl
  · next hno h =>
    cases h
    rw [if_neg]
    rintro ⟨rfl, hhead⟩
    obtain ⟨rest, rfl⟩ := List.head?_eq_some_iff.mp hhead
    exact hno rest rfl rfl
  · contradiction

/-! ### Where the code ends -/

lemma stripComment_of_startsComment {c : Char} {cs : List Char} (h : StartsComment (c :: cs)) :
    stripComment (c :: cs) = [] := by
  rw [stripComment, beforeSlashes_cons]
  rcases startsComment_cons.mp h with h | rfl
  · rw [if_pos h]
    rfl
  · rfl

lemma stripComment_cons {c : Char} {cs : List Char} (h : ¬StartsComment (c :: cs)) :
    stripComment (c :: cs) = c :: stripComment cs := by
  rw [startsComment_cons, not_or] at h
  rw [stripComment, beforeSlashes_cons, if_neg h.1, List.takeWhile_cons,
    if_pos (by simpa using h.2)]
  rfl

lemma stripComment_isPrefix (cs : List Char) : stripComment cs <+: cs := by
  induction cs with
  | nil => exact List.nil_prefix
  | cons c cs ih =>
    by_cases h : StartsComment (c :: cs)
    · rw [stripComment_of_startsComment h]
      exact List.nil_prefix
    · rw [stripComment_cons h]
      exact (List.prefix_cons_inj c).mpr ih

lemma isCut_stripComment (cs : List Char) : IsCut cs (stripComment cs).length := by
  induction cs with
  | nil => exact ⟨Nat.le_refl 0, fun i hi => absurd hi (Nat.not_lt_zero i), fun h => nomatch h⟩
  | cons c cs ih =>
    by_cases h : StartsComment (c :: cs)
    · rw [stripComment_of_startsComment h]
      exact ⟨Nat.zero_le _, fun i hi => absurd hi (Nat.not_lt_zero i), fun _ => h⟩
    · rw [stripComment_cons h]
      refine ⟨Nat.succ_le_succ ih.le, fun i hi => ?_,
        fun hlt => ih.start (Nat.lt_of_succ_lt_succ hlt)⟩
      cases i with
      | zero => exact h
      | succ i => exact ih.clean i (Nat.lt_of_succ_lt_succ hi)

/-- The two markers may be looked for in either order. -/
lemma beforeSlashes_takeWhile (cs : List Char) :
    beforeSlashes (cs.takeWhile (· != '#')) = stripComment cs := by
  induction cs with
  | nil => rfl
  | cons c cs ih =>
    by_cases hc : c = '#'
    · subst hc
      rw [stripComment_of_startsComment (startsComment_cons.mpr (Or.inr rfl))]
      rfl
    · have htake : (c :: cs).takeWhile (· != '#') = c :: cs.takeWhile (· != '#') := by
        rw [List.takeWhile_cons, if_pos (by simpa using hc)]
      -- a slash that follows is no hash, so it is still there
      have hhead : (cs.takeWhile (· != '#')).head? = some '/' ↔ cs.head? = some '/' := by
        rw [List.head?_takeWhile, Option.filter_eq_some_iff]
        simp
      simp only [htake, beforeSlashes_cons, hhead]
      by_cases hslash : c = '/' ∧ cs.head? = some '/'
      · rw [if_pos hslash, stripComment_of_startsComment (startsComment_cons.mpr (Or.inl hslash))]
      · rw [if_neg hslash, ih, stripComment_cons]
        rw [startsComment_cons, not_or]
        exact ⟨hslash, hc⟩

/-! ### What follows a comment marker -/

lemma stripComment_append_hash (a b : List Char) :
    stripComment (a ++ '#' :: b) = stripComment a := by
  induction a with
  | nil => exact stripComment_of_startsComment (startsComment_cons.mpr (Or.inr rfl))
  | cons c a ih =>
    have hstart : StartsComment (c :: (a ++ '#' :: b)) ↔ StartsComment (c :: a) := by
      rw [startsComment_cons, startsComment_cons]
      cases a with
      | nil => simp
      | cons d a => simp
    rw [List.cons_append]
    by_cases h : StartsComment (c :: a)
    · rw [stripComment_of_startsComment h, stripComment_of_startsComment (hstart.mpr h)]
    · rw [stripComment_cons h, stripComment_cons (mt hstart.mp h), ih]

/-- Only a slash at the end of the code can be lost to the comment. -/
lemma stripComment_append_slashes (a b : List Char) :
    stripComment a = stripComment (a ++ '/' :: '/' :: b) ∨
      stripComment a = stripComment (a ++ '/' :: '/' :: b) ++ ['/'] := by
  induction a with
  | nil =>
    refine Or.inl (stripComment_of_startsComment ?_).symm
    exact startsComment_cons.mpr (Or.inl ⟨rfl, rfl⟩)
  | cons c a ih =>
    rw [List.cons_append]
    by_cases h : StartsComment (c :: a)
    · have hstart : StartsComment (c :: (a ++ '/' :: '/' :: b)) := by
        rw [startsComment_cons] at h ⊢
        cases a with
        | nil => exact Or.inr (by simpa using h)
        | cons d a => exact h
      rw [stripComment_of_startsComment h, stripComment_of_startsComment hstart]
      exact Or.inl rfl
    · by_cases hstart : StartsComment (c :: (a ++ '/' :: '/' :: b))
      -- the comment starts with the last slash of `a`
      · obtain ⟨rfl, rfl⟩ : c = '/' ∧ a = [] := by
          rw [startsComment_cons] at h hstart
          cases a with
          | nil =>
            rw [not_or] at h
            exact ⟨(hstart.resolve_right h.2).1, rfl⟩
          | cons d a => exact absurd hstart h
        exact Or.inr rfl
      · rw [stripComment_cons h, stripComment_cons hstart]
        rcases ih with ih | ih
        · exact Or.inl (congrArg (c :: ·) ih)
        · exact Or.inr (congrArg (c :: ·) ih)

/-- **Comments have no influence.** The sites of a line are those of what stands before any of its
comment markers. The code is what precedes the first place where a comment starts, whichever of the
two markers is cut at first. -/
theorem lineSites_of_commented (number : Nat) (a b line : List Char) :
    lineSites number (a ++ '/' :: '/' :: b) = lineSites number a ∧
    lineSites number (a ++ '#' :: b) = lineSites number a ∧
    (stripComment line <+: line ∧ IsCut line (stripComment line).length) ∧
    beforeSlashes (line.takeWhile (· != '#')) = stripComment line := by
  refine ⟨?_, ?_, ⟨stripComment_isPrefix line, isCut_stripComment line⟩,
    beforeSlashes_takeWhile line⟩
  · exact (lineSites_eq_of_stripComment idle_slash number (stripComment_append_slashes a b)).symm
  · exact lineSites_eq_of_stripComment idle_slash number (Or.inl (stripComment_append_hash a b))

end Inlay.Scan
