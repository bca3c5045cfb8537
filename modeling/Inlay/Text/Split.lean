/-!
Splitting a text at a separator. There is always at least one part, no part holds the
separator, and joining the parts with it gives the text back.
-/

namespace Inlay.Text

/-- The parts between the occurrences of `sep`. -/
def split (sep : Char) : List Char → List (List Char)
  | [] => [[]]
  | c :: cs =>
    if c = sep then [] :: split sep cs
    else
      match split sep cs with
      | [] => [[c]]
      | p :: ps => (c :: p) :: ps

def join (sep : Char) : List (List Char) → List Char
  | [] => []
  | [p] => p
  | p :: q :: ps => p ++ sep :: join sep (q :: ps)

@[simp] theorem split_nil (sep : Char) : split sep [] = [[]] := rfl

@[simp] theorem split_ne_nil (sep : Char) (cs : List Char) : split sep cs ≠ [] := by
  cases cs with
  | nil => simp
  | cons c cs =>
    unfold split
    split
    · simp
    · split <;> simp

@[simp] theorem split_cons_self (sep : Char) (cs : List Char) :
    split sep (sep :: cs) = [] :: split sep cs := by
  simp [split]

/-- A separator divides the parts into those of the text before it and those of the text after
it. -/
theorem split_append (sep : Char) (a b : List Char) :
    split sep (a ++ sep :: b) = split sep a ++ split sep b := by
  induction a with
  | nil => simp
  | cons c cs ih =>
    by_cases hc : c = sep
    · subst hc
      simp [ih]
    · cases hs : split sep cs with
      | nil => exact absurd hs (split_ne_nil sep cs)
      | cons p ps =>
        rw [hs] at ih
        simp [split, hc, hs, ih]

theorem length_split (sep : Char) (cs : List Char) :
    (split sep cs).length = cs.count sep + 1 := by
  induction cs with
  | nil => rfl
  | cons c cs ih =>
    by_cases hc : c = sep
    · subst hc
      simp [ih]
    · cases hs : split sep cs with
      | nil => exact absurd hs (split_ne_nil sep cs)
      | cons p ps =>
        rw [hs] at ih
        simpa [split, hc, hs] using ih

theorem split_of_not_mem {sep : Char} {a : List Char} (h : sep ∉ a) : split sep a = [a] := by
  induction a with
  | nil => rfl
  | cons c cs ih =>
    simp only [List.mem_cons, not_or] at h
    simp [split, Ne.symm h.1, ih h.2]

theorem not_mem_of_mem_split {sep : Char} {cs p : List Char} (h : p ∈ split sep cs) :
    sep ∉ p := by
  induction cs generalizing p with
  | nil =>
    rw [split_nil, List.mem_singleton] at h
    simp [h]
  | cons c cs ih =>
    by_cases hc : c = sep
    · subst hc
      rw [split_cons_self] at h
      rcases List.mem_cons.mp h with rfl | h
      · simp
      · exact ih h
    · cases hs : split sep cs with
      | nil => exact absurd hs (split_ne_nil sep cs)
      | cons q qs =>
        simp only [split, hc, if_false, hs, List.mem_cons] at h
        rcases h with rfl | h
        · have hq := ih (p := q) (by simp [hs])
          simp [hq, Ne.symm hc]
        · exact ih (by simp [hs, h])

theorem join_split (sep : Char) (cs : List Char) : join sep (split sep cs) = cs := by
  induction cs with
  | nil => rfl
  | cons c cs ih =>
    cases hs : split sep cs with
    | nil => exact absurd hs (split_ne_nil sep cs)
    | cons p ps =>
      rw [hs] at ih
      by_cases h : c = sep
      · simp [split, h, hs, join, ih]
      · simp only [split, h, if_false, hs]
        cases ps with
        | nil => simpa [join] using ih
        | cons q qs => simpa [join] using ih

theorem join_cons {sep : Char} {p : List Char} {ps : List (List Char)} (h : ps ≠ []) :
    join sep (p :: ps) = p ++ sep :: join sep ps := by
  cases ps with
  | nil => exact absurd rfl h
  | cons q ps => rfl

theorem join_append {sep : Char} {ps qs : List (List Char)} (hps : ps ≠ []) (hqs : qs ≠ []) :
    join sep (ps ++ qs) = join sep ps ++ sep :: join sep qs := by
  induction ps with
  | nil => exact absurd rfl hps
  | cons p ps ih =>
    by_cases hrest : ps = []
    · subst hrest
      exact join_cons hqs
    · rw [List.cons_append, join_cons (List.append_ne_nil_of_left_ne_nil hrest qs), ih hrest,
        join_cons hrest, List.append_assoc, List.cons_append]

theorem join_append_cons (sep : Char) (before : List (List Char)) (p : List Char)
    (after : List (List Char)) :
    join sep (before ++ p :: after) =
      before.flatMap (· ++ [sep]) ++ join sep (p :: after) := by
  induction before with
  | nil => rfl
  | cons q before ih =>
    rw [List.cons_append, join_cons (by simp), ih, List.flatMap_cons]
    simp

/-- Parts with a separator behind each are the parts joined, and one more separator. -/
theorem flatMap_eq_join {sep : Char} {ps : List (List Char)} (h : ps ≠ []) :
    ps.flatMap (· ++ [sep]) = join sep ps ++ [sep] := by
  have hlast : ps.flatMap (· ++ [sep]) = join sep (ps ++ [[]]) := by
    rw [join_append_cons, join, List.append_nil]
  rw [hlast, join_append h (List.cons_ne_nil [] []), join]

theorem isPrefix_join (sep : Char) (p : List Char) (ps : List (List Char)) :
    p <+: join sep (p :: ps) := by
  cases ps with
  | nil => exact List.prefix_rfl
  | cons q ps => exact List.prefix_append _ _

/-- Parts without the separator are told apart again once they are joined. -/
theorem split_join {sep : Char} {ps : List (List Char)} (hne : ps ≠ []) (h : ∀ p ∈ ps, sep ∉ p) :
    split sep (join sep ps) = ps := by
  induction ps with
  | nil => exact absurd rfl hne
  | cons p ps ih =>
    have hp : split sep p = [p] := split_of_not_mem (h p List.mem_cons_self)
    by_cases hrest : ps = []
    · subst hrest
      exact hp
    · rw [join_cons hrest, split_append, hp, ih hrest fun q hq => h q (List.mem_cons_of_mem p hq)]
      rfl

end Inlay.Text
