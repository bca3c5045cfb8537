import Inlay.Proofs.Scan.GroupLanguage
import Inlay.Proofs.Scan.Leftmost
import Inlay.Scan.Resolve

/-!
Parameter lists as a grammar. Every bar may open a list and only the next bar can close it, so a bar
that closes one candidate opens another. The first group between two consecutive bars is the list.
-/

namespace Inlay.Scan

open Inlay.Unicode Inlay.Text

/-! ### Groups between bars -/

/-- A bar stands in front, and `t` is what there is between it and the next bar. -/
structure Bars (cs t : List Char) : Prop where
  inside : '|' ∉ t
  split : ∃ rest, cs = '|' :: (t ++ '|' :: rest)

/-- A bar stands in front, and there is a group between it and the next bar. -/
def IsClosure (cs : List Char) : Prop :=
  ∃ t ∈ Group.language, Bars cs t

lemma isMember_bar : Group.isMember '|' = false := by
  decide +kernel

lemma bar_not_mem {t : List Char} (h : t ∈ Group.language) : '|' ∉ t :=
  not_mem_of_class isMember_bar (Group.isMember_of_mem_language h)

/-- The reader of parameter lists reads what the grammar says. -/
lemma closureAt_eq_some_iff {cs t : List Char} {lead : Nat} :
    closureAt cs = some (lead, t) ↔ (Bars cs t ∧ t ∈ Group.language) ∧ lead = 1 := by
  unfold closureAt
  split
  · next cs =>
    simp only [Option.map_eq_some_iff, Prod.exists, Group.before?_eq_some_iff isMember_bar,
      Prod.mk.injEq]
    constructor
    · rintro ⟨t, rest, ⟨rfl, ht⟩, rfl, rfl⟩
      exact ⟨⟨⟨bar_not_mem ht, rest, rfl⟩, ht⟩, rfl⟩
    · rintro ⟨⟨⟨-, rest, hcs⟩, ht⟩, rfl⟩
      cases hcs
      exact ⟨t, rest, ⟨rfl, ht⟩, rfl, rfl⟩
  · next hne =>
    refine ⟨nofun, ?_⟩
    rintro ⟨⟨⟨-, rest, rfl⟩, -⟩, -⟩
    exact absurd rfl (hne _)

lemma closureAt_eq_none_iff (cs : List Char) : closureAt cs = none ↔ ¬IsClosure cs := by
  have hnone : closureAt cs = none ↔ ¬∃ t, Bars cs t ∧ t ∈ Group.language :=
    bracketed_eq_none_iff closureAt_eq_some_iff cs
  simpa only [IsClosure, and_comm] using hnone

/-! ### Candidates that fail -/

/-- The first character between the bars is neither another bar nor a blank. -/
lemma IsClosure.head {c : Char} {cs : List Char} (h : IsClosure ('|' :: c :: cs)) :
    c ≠ '|' ∧ isBlank c = false := by
  obtain ⟨t, ht, hbars⟩ := h
  obtain ⟨rest, hcs⟩ := hbars.split
  obtain ⟨d, t, rfl, hd⟩ := Group.head_of_mem_language ht
  cases hcs
  refine ⟨?_, hd⟩
  rintro rfl
  exact hbars.inside List.mem_cons_self

lemma not_isClosure_of_not_mem {cs : List Char} (h : '|' ∉ cs) : ¬IsClosure ('|' :: cs) := by
  rintro ⟨t, -, -, rest, hcs⟩
  cases hcs
  simp at h

/-- What stands between a bar of a text and the next one is a part of the text between bars. -/
lemma mem_split_of_bars {p cs t : List Char} (h : Bars ('|' :: (p ++ '|' :: cs)) t) :
    t ∈ split '|' p := by
  obtain ⟨rest, hcs⟩ := h.split
  have hsplit := congrArg (split '|') (List.cons.inj hcs).2
  rw [split_append, split_append, split_of_not_mem h.inside] at hsplit
  cases hp : split '|' p with
  | nil => exact absurd hp (split_ne_nil _ _)
  | cons u us =>
    rw [hp, List.cons_append, List.singleton_append] at hsplit
    rw [(List.cons.inj hsplit).1]
    exact List.mem_cons_self

/-- A text is passed over if none of its parts behind a bar is a group. -/
lemma firstPlace_of_failed {p t : List Char} (ht : t ∈ Group.language)
    (hfailed : ∀ u ∈ (split '|' p).tail, u ∉ Group.language) (rest : List Char) :
    FirstPlace (fun _ => IsClosure) p ('|' :: (t ++ '|' :: rest)) := by
  refine ⟨⟨t, ht, bar_not_mem ht, rest, rfl⟩, fun p' q' hpq hlt => ?_⟩
  rintro ⟨u, hu, hbars⟩
  obtain ⟨r, rfl, -⟩ | ⟨r, rfl, rfl⟩ := List.append_eq_append_iff.mp hpq
  · rw [List.length_append] at hlt
    omega
  obtain ⟨rest', hcs⟩ := hbars.split
  cases r with
  | nil => simp at hlt
  | cons c r =>
    obtain ⟨rfl, -⟩ := List.cons.inj hcs
    have hmem : u ∈ (split '|' (p' ++ '|' :: r)).tail := by
      rw [split_append, List.tail_append_of_ne_nil (split_ne_nil _ _)]
      exact List.mem_append_right _ (mem_split_of_bars hbars)
    exact hfailed u hmem hu

/-! ### The parameter list that is found -/

/-- **Parameter lists are found by their grammar.** The anchors are those of the first group between
two consecutive bars, and the closing bar adds none to them; nothing is found if there is no such
group. Two bars in a row, a blank behind the opening bar and a bar that is never closed make no
list. A bar that closes a candidate which is no group opens the next candidate. -/
theorem closure_anchors_of_grammar :
    (∀ cs as, Shape.closure.anchors? cs = some as ↔
      ∃ p q t, cs = p ++ q ∧ FirstPlace (fun _ => IsClosure) p q ∧ Bars q t ∧
        t ∈ Group.language ∧ as = bindings (utf8Len p + 1) t) ∧
    (∀ cs, Shape.closure.anchors? cs = none ↔ ∀ p q, cs = p ++ q → ¬IsClosure q) ∧
    (∀ o t, bindings o (t ++ ['|']) = bindings o t) ∧
    (∀ cs, ¬IsClosure ('|' :: '|' :: cs)) ∧
    (∀ c cs, isBlank c = true → ¬IsClosure ('|' :: c :: cs)) ∧
    (∀ cs, '|' ∉ cs → ¬IsClosure ('|' :: cs)) ∧
    ∀ p t rest, t ∈ Group.language → (∀ u ∈ (split '|' p).tail, u ∉ Group.language) →
      Shape.closure.anchors? (p ++ '|' :: (t ++ '|' :: rest)) =
        some (bindings (utf8Len p + 1) t) := by
  have hfound : ∀ cs as, Shape.closure.anchors? cs = some as ↔
      ∃ p q t, cs = p ++ q ∧ FirstPlace (fun _ => IsClosure) p q ∧ Bars q t ∧
        t ∈ Group.language ∧ as = bindings (utf8Len p + 1) t := by
    intro cs as
    have hbracketed : Shape.closure.anchors? cs = some as ↔
        ∃ p q t, cs = p ++ q ∧ FirstPlace (fun _ => IsClosure) p q ∧
          (Bars q t ∧ t ∈ Group.language) ∧ as = bindings (utf8Len p + 1) t :=
      bracketedAnchors?_eq_some_iff closureAt_eq_none_iff closureAt_eq_some_iff
    simpa only [and_assoc] using hbracketed
  refine ⟨hfound, fun cs => groupAnchors?_eq_none_iff closureAt_eq_none_iff, fun o t => ?_,
    fun cs h => ?_, fun c cs hc h => ?_, fun cs => not_isClosure_of_not_mem,
    fun p t rest ht hfailed => ?_⟩
  · exact bindings_append_singleton (by decide +kernel) (by decide) o t
  · exact h.head.1 rfl
  · rw [h.head.2] at hc
    contradiction
  · exact (hfound _ _).mpr ⟨p, _, t, rfl, firstPlace_of_failed ht hfailed rest,
      ⟨bar_not_mem ht, rest, rfl⟩, ht, rfl⟩

/-- Three candidates fail, for want of a name, for a blank in front and for a colon without a name,
and the bar that closes the last of them opens the list. -/
theorem closure_anchors_of_grammar_reopened :
    "&é, mut d: T,".toList ∈ Group.language ∧
      (∀ u ∈ (split '|' "a || b| :c".toList).tail, u ∉ Group.language) ∧
      Shape.closure.anchors? ("a || b| :c".toList ++ '|' :: ("&é, mut d: T,".toList ++ ['|'])) =
        some [14, 21] :=
  have hlist : "&é, mut d: T,".toList ∈ Group.language := by decide +kernel
  have hfailed : ∀ u ∈ (split '|' "a || b| :c".toList).tail, u ∉ Group.language := by
    decide +kernel
  ⟨hlist, hfailed, (closure_anchors_of_grammar.2.2.2.2.2.2 _ _ [] hlist hfailed).trans
    (by decide +kernel)⟩

end Inlay.Scan
