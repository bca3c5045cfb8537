import Inlay.Proofs.Scan.TupleGrammar

/-!
Match arms as a grammar. A group in parentheses is followed by an arrow, with nothing but closing
parentheses and blanks in between, so that of several parentheses in front of an arrow the first one
with a group counts. Looking for an arrow before anything else changes nothing.
-/

namespace Inlay.Scan

open Inlay.Unicode Inlay.Text Pattern
open scoped Computability

/-! ### Groups in front of an arrow -/

/-- What points from a pattern to its arm. -/
def arrow : List Char := ['=', '>']

/-- A character that may stand between a group in parentheses and the arrow. -/
def isCloser (c : Char) : Bool :=
  c == ')' || isBlank c

/-- The closing parenthesis of a group and all that follows it up to the end of the arrow. -/
def armEnd : Language Char :=
  text [')'] * (char isCloser)∗ * text arrow

/-- The group `t` stands in parentheses in front, and an arrow after it. -/
structure Arm (cs t : List Char) : Prop where
  group : t ∈ Group.language
  split : ∃ e ∈ armEnd, ∃ rest, cs = '(' :: (t ++ (e ++ rest))

def IsArm (cs : List Char) : Prop :=
  ∃ t, Arm cs t

lemma mem_armEnd {e : List Char} :
    e ∈ armEnd ↔ ∃ z, (∀ c ∈ z, isCloser c = true) ∧ e = ')' :: (z ++ arrow) := by
  constructor
  · rintro ⟨_, ⟨_, rfl, z, hz, rfl⟩, _, rfl, rfl⟩
    exact ⟨z, mem_kstar_char.mp hz, rfl⟩
  · rintro ⟨z, hz, rfl⟩
    have hclose : [')'] ∈ text [')'] := rfl
    have harrow : arrow ∈ text arrow := rfl
    exact Language.append_mem_mul (Language.append_mem_mul hclose (mem_kstar_char.mpr hz)) harrow

/-- Nothing behind the group can belong to a name. -/
lemma idle_of_mem_armEnd {e : List Char} (h : e ∈ armEnd) :
    ∀ c ∈ e, isWord c = false ∧ c ≠ ',' := by
  have hcloser : ∀ c, isCloser c = true → isWord c = false ∧ c ≠ ',' := by
    intro c hc
    rcases Bool.or_eq_true_iff.mp hc with hc | hc
    · rw [beq_iff_eq.mp hc]
      decide +kernel
    · refine ⟨isWord_of_isBlank hc, ?_⟩
      rintro rfl
      revert hc
      decide +kernel
  have harrow : ∀ c ∈ arrow, isWord c = false ∧ c ≠ ',' := by
    intro c hc
    rcases List.mem_pair.mp hc with rfl | rfl <;> decide +kernel
  obtain ⟨z, hz, rfl⟩ := mem_armEnd.mp h
  rw [List.forall_mem_cons, List.forall_mem_append]
  exact ⟨hcloser ')' (by decide +kernel), fun c hc => hcloser c (hz c hc), harrow⟩

/-- The reader of match arms reads what the grammar says. -/
lemma matchArmAt_eq_some_iff {cs t : List Char} {lead : Nat} :
    matchArmAt cs = some (lead, t) ↔ Arm cs t ∧ lead = 1 := by
  simp only [matchArmAt, Option.bind_eq_bind, Option.bind_eq_some_iff, Prod.exists,
    parenGroup?_eq_some_iff]
  constructor
  · rintro ⟨t, rest, ⟨rfl, ht⟩, h⟩
    split at h
    · next rest' hdrop =>
      cases h
      have hrest : rest = rest.takeWhile isCloser ++ (arrow ++ rest') := by
        conv_lhs => rw [← List.takeWhile_append_dropWhile (p := isCloser) (l := rest)]
        exact congrArg _ hdrop
      refine ⟨⟨ht, ')' :: (rest.takeWhile isCloser ++ arrow), ?_, rest', ?_⟩, rfl⟩
      · exact mem_armEnd.mpr ⟨_, (isRun_takeWhile isCloser rest).all, rfl⟩
      · rw [List.cons_append, List.append_assoc, ← hrest]
    · contradiction
  · rintro ⟨⟨ht, e, he, rest, rfl⟩, rfl⟩
    obtain ⟨z, hz, rfl⟩ := mem_armEnd.mp he
    have hrun : IsRun isCloser z (arrow ++ rest) := by
      refine ⟨hz, ?_⟩
      rintro c ⟨⟩
      decide +kernel
    refine ⟨t, z ++ (arrow ++ rest), ⟨by rw [List.cons_append, List.append_assoc], ht⟩, ?_⟩
    have hdrop : (z ++ (arrow ++ rest)).dropWhile (fun c => c == ')' || isBlank c) =
        '=' :: '>' :: rest := hrun.dropWhile_eq
    rw [hdrop]
    rfl

lemma matchArmAt_eq_none_iff (cs : List Char) : matchArmAt cs = none ↔ ¬IsArm cs :=
  bracketed_eq_none_iff matchArmAt_eq_some_iff cs

/-! ### The arrow -/

lemma hasArrow_iff {cs : List Char} : hasArrow cs = true ↔ arrow <:+: cs := by
  induction cs with
  | nil => simp [hasArrow, arrow]
  | cons c cs ih =>
    unfold hasArrow
    split
    · next rest heq => exact iff_of_true rfl ⟨[], rest, heq.symm⟩
    · next hne heq =>
      cases heq
      rw [ih, List.infix_cons_iff]
      refine ⟨Or.inr, Or.rec ?_ id⟩
      rintro ⟨rest, hprefix⟩
      cases hprefix
      exact (hne rest rfl rfl).elim
    · contradiction

lemma Arm.arrow_infix {cs t : List Char} (h : Arm cs t) : arrow <:+: cs := by
  obtain ⟨e, he, rest, rfl⟩ := h.split
  obtain ⟨z, -, rfl⟩ := mem_armEnd.mp he
  exact ⟨'(' :: (t ++ ')' :: z), rest, by simp⟩

/-- Without an arrow there is nothing to find. -/
lemma matchArm_anchors?_eq (cs : List Char) :
    Shape.matchArm.anchors? cs = groupAnchors? matchArmAt cs := by
  unfold Shape.anchors?
  simp only
  split
  · rfl
  · next harrow =>
    symm
    rw [groupAnchors?_eq_none_iff matchArmAt_eq_none_iff]
    rintro p q rfl ⟨t, harm⟩
    exact harrow (hasArrow_iff.mpr (harm.arrow_infix.trans (List.suffix_append p q).isInfix))

/-! ### The match arm that is found -/

/-- **Match arms are found by their grammar.** The anchors are those of the first group in
parentheses with an arrow after it, and nothing is found if there is no such group. The closing
parentheses, blanks and arrow behind the group add no anchor to them, and asking for an arrow in
advance never changes what is found. -/
theorem matchArm_anchors_of_grammar :
    (∀ cs as, Shape.matchArm.anchors? cs = some as ↔
      ∃ p q t, cs = p ++ q ∧ FirstPlace (fun _ => IsArm) p q ∧ Arm q t ∧
        as = bindings (utf8Len p + 1) t) ∧
    (∀ cs, Shape.matchArm.anchors? cs = none ↔ ∀ p q, cs = p ++ q → ¬IsArm q) ∧
    (∀ o t, ∀ e ∈ armEnd, bindings o (t ++ e) = bindings o t) ∧
    ∀ cs, Shape.matchArm.anchors? cs = groupAnchors? matchArmAt cs := by
  refine ⟨fun cs as => ?_, fun cs => ?_, fun o t e he => ?_, matchArm_anchors?_eq⟩
  · rw [matchArm_anchors?_eq]
    exact bracketedAnchors?_eq_some_iff matchArmAt_eq_none_iff matchArmAt_eq_some_iff
  · rw [matchArm_anchors?_eq, groupAnchors?_eq_none_iff matchArmAt_eq_none_iff]
  · exact bindings_append (idle_of_mem_armEnd he) o t

/-- The first parenthesis holds no group, no arrow follows the second, and two parentheses and a
blank stand between the third and its arrow. -/
theorem matchArm_anchors_of_grammar_nested :
    ∃ p q t, "f((a), Some((é, mut b: T)) ) => g(c) =>".toList = p ++ q ∧
      FirstPlace (fun _ => IsArm) p q ∧ Arm q t ∧ [15, 22] = bindings (utf8Len p + 1) t :=
  (matchArm_anchors_of_grammar.1 _ [15, 22]).mp (by decide +kernel)

end Inlay.Scan
