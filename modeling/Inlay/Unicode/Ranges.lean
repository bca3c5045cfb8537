/-!
Sets of code points as ascending lists of closed ranges. Look-up stops at the first range that
ends at or after the code point, which is exact when the ranges ascend.
-/

namespace Inlay.Unicode

def inRanges (n : Nat) : List (Nat × Nat) → Bool
  | [] => false
  | r :: rs => if n ≤ r.2 then decide (r.1 ≤ n) else inRanges n rs

/-- Each range is not empty and ends before the next one starts. -/
def ascending : List (Nat × Nat) → Bool
  | [] => true
  | [r] => decide (r.1 ≤ r.2)
  | r :: s :: rs => decide (r.1 ≤ r.2) && decide (r.2 < s.1) && ascending (s :: rs)

@[simp] theorem inRanges_nil (n : Nat) : inRanges n [] = false := rfl

theorem ascending_tail {r : Nat × Nat} {rs : List (Nat × Nat)} (h : ascending (r :: rs) = true) :
    ascending rs = true := by
  cases rs with
  | nil => rfl
  | cons s rs => simp only [ascending, Bool.and_eq_true] at h; exact h.2

theorem lt_of_ascending {r : Nat × Nat} {rs : List (Nat × Nat)} (h : ascending (r :: rs) = true) :
    ∀ s ∈ rs, r.2 < s.1 := by
  induction rs generalizing r with
  | nil => simp
  | cons t rs ih =>
    have h' := ascending_tail h
    simp only [ascending, Bool.and_eq_true, decide_eq_true_eq] at h
    have ht : t.1 ≤ t.2 := by
      cases rs with
      | nil => simpa [ascending] using h'
      | cons u rs => simp only [ascending, Bool.and_eq_true, decide_eq_true_eq] at h'; exact h'.1.1
    intro s hs
    rcases List.mem_cons.mp hs with rfl | hs
    · exact h.1.2
    · have := ih h' s hs
      omega

/-- On ascending ranges look-up is membership. -/
theorem inRanges_iff {n : Nat} {rs : List (Nat × Nat)} (h : ascending rs = true) :
    inRanges n rs = true ↔ ∃ r ∈ rs, r.1 ≤ n ∧ n ≤ r.2 := by
  induction rs with
  | nil => simp
  | cons r rs ih =>
    have hlt := lt_of_ascending h
    unfold inRanges
    split
    · next hn =>
      constructor
      · intro hr
        exact ⟨r, List.mem_cons_self, by simpa using hr, hn⟩
      · rintro ⟨s, hs, hsn⟩
        rcases List.mem_cons.mp hs with rfl | hs
        · simpa using hsn.1
        · have := hlt s hs
          omega
    · next hn =>
      rw [ih (ascending_tail h)]
      constructor
      · rintro ⟨s, hs, hsn⟩
        exact ⟨s, List.mem_cons_of_mem _ hs, hsn⟩
      · rintro ⟨s, hs, hsn⟩
        rcases List.mem_cons.mp hs with rfl | hs
        · omega
        · exact ⟨s, hs, hsn⟩

end Inlay.Unicode
