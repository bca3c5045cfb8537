import Inlay.Proofs.Scan.GroupLanguage
import Inlay.Proofs.Scan.Leftmost
import Inlay.Scan.Resolve

/-!
Tuples as a grammar. A group in parentheses stands right behind a keyword and blanks, or anywhere
between a conditional head and the next equals sign. A conditional head reaches as far as it can, so
of several groups behind it the last one is taken.
-/

namespace Inlay.Scan

open Inlay.Unicode Inlay.Text Pattern
open scoped Computability

/-! ### Groups behind heads -/

/-- Behind a head of the kind stands a group in parentheses, and then whatever there is. -/
structure Opens (heads : Language Char) (cs head t : List Char) : Prop where
  kind : head ∈ heads
  group : t ∈ Group.language
  split : ∃ rest, cs = head ++ '(' :: (t ++ ')' :: rest)

/-- Of all groups behind a head of the kind this is the last one. -/
structure OpensLast (heads : Language Char) (cs head t : List Char) : Prop where
  opens : Opens heads cs head t
  last : ∀ h u, Opens heads cs h u → h.length ≤ head.length

def spacedHead : Language Char :=
  keyword * gap

/-- A character that a conditional head may reach across. -/
def isUnequal (c : Char) : Bool :=
  c != '='

def conditional : List Char := ['i', 'f', ' ', 'l', 'e', 't']

/-- A text without an equals sign. -/
def beforeEquals : Language Char :=
  (char isUnequal)∗

/-- A conditional and a text without an equals sign that is not empty. -/
def conditionalHead : Language Char :=
  text conditional * (char isUnequal * beforeEquals)

/-- A binding head stands in front, and the group that it takes in its parentheses is `t`. -/
def Takes (cs head t : List Char) : Prop :=
  Opens spacedHead cs head t ∨ OpensLast conditionalHead cs head t

/-- A binding head stands in front with a group behind it. -/
def IsTuple (cs : List Char) : Prop :=
  ∃ head t, Opens spacedHead cs head t ∨ Opens conditionalHead cs head t

lemma parenGroup?_eq_some_iff {cs t rest : List Char} :
    parenGroup? cs = some (t, rest) ↔ cs = '(' :: (t ++ ')' :: rest) ∧ t ∈ Group.language := by
  have hclose : Group.isMember ')' = false := by decide +kernel
  unfold parenGroup?
  split
  · rw [Group.before?_eq_some_iff hclose, List.cons.injEq, eq_self, true_and]
  · next hne =>
    refine ⟨nofun, ?_⟩
    rintro ⟨rfl, -⟩
    exact absurd rfl (hne _)

lemma opens_one_iff {cs head t : List Char} :
    Opens 1 cs head t ↔ head = [] ∧ ∃ rest, parenGroup? cs = some (t, rest) := by
  simp only [parenGroup?_eq_some_iff]
  constructor
  · rintro ⟨rfl, ht, rest, rfl⟩
    exact ⟨rfl, rest, rfl, ht⟩
  · rintro ⟨rfl, rest, rfl, ht⟩
    exact ⟨rfl, ht, rest, rfl⟩

/-- A head of two parts stands in front if the second part stands behind the first. -/
lemma opens_mul_iff {l m : Language Char} {cs head t : List Char} :
    Opens (l * m) cs head t ↔
      ∃ k ∈ l, ∃ tail h, cs = k ++ tail ∧ head = k ++ h ∧ Opens m tail h t := by
  constructor
  · rintro ⟨⟨k, hk, h, hh, rfl⟩, ht, rest, rfl⟩
    exact ⟨k, hk, h ++ '(' :: (t ++ ')' :: rest), h, by simp, rfl, hh, ht, rest, rfl⟩
  · rintro ⟨k, hk, _, h, rfl, rfl, hh, ht, rest, rfl⟩
    exact ⟨Language.append_mem_mul hk hh, ht, rest, by simp⟩

lemma opens_add_iff {l m : Language Char} {cs head t : List Char} :
    Opens (l + m) cs head t ↔ Opens l cs head t ∨ Opens m cs head t := by
  constructor
  · rintro ⟨hhead | hhead, ht, hcs⟩
    · exact Or.inl ⟨hhead, ht, hcs⟩
    · exact Or.inr ⟨hhead, ht, hcs⟩
  · rintro (⟨hhead, ht, hcs⟩ | ⟨hhead, ht, hcs⟩)
    · exact ⟨Or.inl hhead, ht, hcs⟩
    · exact ⟨Or.inr hhead, ht, hcs⟩

lemma opens_char_mul_iff {p : Char → Bool} {m : Language Char} {c : Char} {cs head t : List Char} :
    Opens (char p * m) (c :: cs) head t ↔ p c = true ∧ ∃ h, head = c :: h ∧ Opens m cs h t := by
  rw [opens_mul_iff]
  constructor
  · rintro ⟨_, ⟨c, hc, rfl⟩, tail, h, hcs, rfl, hopens⟩
    cases hcs
    exact ⟨hc, h, rfl, hopens⟩
  · rintro ⟨hc, h, rfl, hopens⟩
    exact ⟨[c], ⟨c, hc, rfl⟩, cs, h, rfl, rfl, hopens⟩

lemma opens_text_mul_iff {k cs head t : List Char} {m : Language Char} :
    Opens (text k * m) cs head t ↔
      ∃ tail h, cs = k ++ tail ∧ head = k ++ h ∧ Opens m tail h t := by
  rw [opens_mul_iff]
  constructor
  · rintro ⟨_, rfl, hopens⟩
    exact hopens
  · intro hopens
    exact ⟨k, rfl, hopens⟩

/-! ### The last group before an equals sign -/

lemma not_opens_nil {l : Language Char} {head t : List Char} : ¬Opens l [] head t := by
  rintro ⟨-, -, rest, hnil⟩
  simp at hnil

lemma not_opens_equals {cs head t : List Char} : ¬Opens beforeEquals ('=' :: cs) head t := by
  rintro ⟨hhead, -, rest, hcs⟩
  cases head with
  | nil =>
    rw [List.nil_append] at hcs
    cases hcs
  | cons d head =>
    cases hcs
    exact absurd (mem_kstar_char.mp hhead '=' List.mem_cons_self) (by decide)

/-- A group before the equals sign stands right here or behind one more character. -/
lemma opens_beforeEquals_cons_iff {c : Char} {cs head t : List Char} (hc : c ≠ '=') :
    Opens beforeEquals (c :: cs) head t ↔
      (head = [] ∧ ∃ rest, parenGroup? (c :: cs) = some (t, rest)) ∨
        ∃ h, head = c :: h ∧ Opens beforeEquals cs h t := by
  have hunequal : isUnequal c = true := bne_iff_ne.mpr hc
  have hsplit : beforeEquals = 1 + char isUnequal * beforeEquals :=
    (Language.one_add_self_mul_kstar_eq_kstar _).symm
  conv_lhs => rw [hsplit]
  rw [opens_add_iff, opens_one_iff, opens_char_mul_iff, hunequal, eq_self, true_and]

lemma not_opens_beforeEquals_cons_iff {c : Char} {cs : List Char} (hc : c ≠ '=') :
    (∀ h t, ¬Opens beforeEquals (c :: cs) h t) ↔
      parenGroup? (c :: cs) = none ∧ ∀ h t, ¬Opens beforeEquals cs h t := by
  simp only [opens_beforeEquals_cons_iff hc, Option.eq_none_iff_forall_ne_some, Prod.forall]
  constructor
  · intro h
    exact ⟨fun t rest hparen => h [] t (Or.inl ⟨rfl, rest, hparen⟩),
      fun head t hopens => h (c :: head) t (Or.inr ⟨head, rfl, hopens⟩)⟩
  · rintro ⟨hparen, hnone⟩ head t (⟨-, rest, ht⟩ | ⟨h, -, hopens⟩)
    · exact hparen t rest ht
    · exact hnone h t hopens

lemma opensLast_beforeEquals_cons_iff {c : Char} {cs head t : List Char} (hc : c ≠ '=') :
    OpensLast beforeEquals (c :: cs) head t ↔
      (∃ h, head = c :: h ∧ OpensLast beforeEquals cs h t) ∨
        head = [] ∧ (∃ rest, parenGroup? (c :: cs) = some (t, rest)) ∧
          ∀ h u, ¬Opens beforeEquals cs h u := by
  have hlater : ∀ {h u}, Opens beforeEquals cs h u → Opens beforeEquals (c :: cs) (c :: h) u :=
    fun hopens => (opens_beforeEquals_cons_iff hc).mpr (Or.inr ⟨_, rfl, hopens⟩)
  constructor
  · rintro ⟨hopens, hlast⟩
    rcases (opens_beforeEquals_cons_iff hc).mp hopens with ⟨rfl, hparen⟩ | ⟨h, rfl, hbehind⟩
    · refine Or.inr ⟨rfl, hparen, fun h u hu => ?_⟩
      exact absurd (hlast _ u (hlater hu)) (Nat.not_succ_le_zero _)
    · refine Or.inl ⟨h, rfl, hbehind, fun h' u hu => ?_⟩
      exact Nat.le_of_succ_le_succ (hlast _ u (hlater hu))
  · rintro (⟨h, rfl, hopens, hlast⟩ | ⟨rfl, hparen, hnone⟩)
    · refine ⟨hlater hopens, fun h' u hu => ?_⟩
      rcases (opens_beforeEquals_cons_iff hc).mp hu with ⟨rfl, -⟩ | ⟨h', rfl, hbehind⟩
      · exact Nat.zero_le _
      · exact Nat.succ_le_succ (hlast h' u hbehind)
    · refine ⟨(opens_beforeEquals_cons_iff hc).mpr (Or.inl ⟨rfl, hparen⟩), fun h' u hu => ?_⟩
      rcases (opens_beforeEquals_cons_iff hc).mp hu with ⟨rfl, -⟩ | ⟨h', rfl, hbehind⟩
      · exact Nat.le_refl _
      · exact absurd hbehind (hnone h' u)

/-- The search comes back with the last group before the equals sign, or else with what it had. -/
lemma lastGroup_eq_some_iff {o lead : Nat} {best : Option (Nat × List Char)} {cs t : List Char} :
    lastGroup o best cs = some (lead, t) ↔
      (∃ head, OpensLast beforeEquals cs head t ∧ lead = o + utf8Len head + 1) ∨
        best = some (lead, t) ∧ ∀ h u, ¬Opens beforeEquals cs h u := by
  induction cs generalizing o best with
  | nil =>
    constructor
    · intro h
      exact Or.inr ⟨h, fun _ _ => not_opens_nil⟩
    · rintro (⟨head, hlast, -⟩ | ⟨hbest, -⟩)
      · exact absurd hlast.opens not_opens_nil
      · exact hbest
  | cons c cs ih =>
    unfold lastGroup
    split
    · next hc =>
      subst hc
      constructor
      · intro h
        exact Or.inr ⟨h, fun _ _ => not_opens_equals⟩
      · rintro (⟨head, hlast, -⟩ | ⟨hbest, -⟩)
        · exact absurd hlast.opens not_opens_equals
        · exact hbest
    · next hc =>
      simp only [ih, Option.or_eq_some_iff, Option.map_eq_some_iff, Option.map_eq_none_iff,
        opensLast_beforeEquals_cons_iff hc, not_opens_beforeEquals_cons_iff hc]
      constructor
      · rintro (⟨h, hlast, rfl⟩ | ⟨⟨⟨u, rest⟩, hparen, he⟩ | ⟨hparen, hbest⟩, hnone⟩)
        · refine Or.inl ⟨c :: h, Or.inl ⟨h, rfl, hlast⟩, ?_⟩
          rw [utf8Len_cons]
          omega
        · cases he
          exact Or.inl ⟨[], Or.inr ⟨rfl, ⟨rest, hparen⟩, hnone⟩, rfl⟩
        · exact Or.inr ⟨hbest, hparen, hnone⟩
      · rintro (⟨_, ⟨h, rfl, hlast⟩ | ⟨rfl, ⟨rest, hparen⟩, hnone⟩, rfl⟩ | ⟨hbest, hparen, hnone⟩)
        · refine Or.inl ⟨h, hlast, ?_⟩
          rw [utf8Len_cons]
          omega
        · exact Or.inr ⟨Or.inl ⟨(t, rest), hparen, rfl⟩, hnone⟩
        · exact Or.inr ⟨Or.inr ⟨hparen, hbest⟩, hnone⟩

/-- The search comes back with nothing only if there is no group before the equals sign. -/
lemma lastGroup_eq_none_iff {o : Nat} {best : Option (Nat × List Char)} {cs : List Char} :
    lastGroup o best cs = none ↔ best = none ∧ ∀ h t, ¬Opens beforeEquals cs h t := by
  induction cs generalizing o best with
  | nil => simp [lastGroup, not_opens_nil]
  | cons c cs ih =>
    unfold lastGroup
    split
    · next hc =>
      subst hc
      simp [not_opens_equals]
    · next hc =>
      rw [ih, not_opens_beforeEquals_cons_iff hc, Option.or_eq_none_iff, Option.map_eq_none_iff]
      tauto

/-! ### Reading a tuple -/

lemma spacedGroup_eq_some_iff {o lead : Nat} {cs t : List Char} :
    spacedGroup o cs = some (lead, t) ↔ ∃ h, Opens gap cs h t ∧ lead = o + utf8Len h + 1 := by
  simp only [spacedGroup, Option.ite_none_left_eq_some, Option.map_eq_some_iff, Prod.exists,
    Prod.mk.injEq]
  constructor
  · rintro ⟨hgap, t, rest, hparen, rfl, rfl⟩
    obtain ⟨hdrop, ht⟩ := parenGroup?_eq_some_iff.mp hparen
    refine ⟨cs.takeWhile isBlank, ⟨?_, ht, rest, ?_⟩, rfl⟩
    · exact mem_gap.mpr ⟨hgap, (isRun_takeWhile isBlank cs).all⟩
    · rw [← hdrop, List.takeWhile_append_dropWhile]
  · rintro ⟨h, ⟨hgap, ht, rest, rfl⟩, rfl⟩
    obtain ⟨hne, hblank⟩ := mem_gap.mp hgap
    have hrun : IsRun isBlank h ('(' :: (t ++ ')' :: rest)) := by
      refine ⟨hblank, ?_⟩
      rintro c ⟨⟩
      decide +kernel
    rw [hrun.takeWhile_eq, hrun.dropWhile_eq]
    exact ⟨hne, t, rest, parenGroup?_eq_some_iff.mpr ⟨rfl, ht⟩, rfl, rfl⟩

lemma tupleAt_keyword {k : List Char} (hk : k ∈ keyword) (tail : List Char) :
    tupleAt (k ++ tail) = spacedGroup 3 tail := by
  rcases mem_keyword.mp hk with rfl | rfl <;> rfl

lemma tupleAt_conditional {c : Char} (hc : c ≠ '=') (tail : List Char) :
    tupleAt (conditional ++ c :: tail) = lastGroup (6 + c.utf8Size) none tail :=
  if_neg hc

lemma utf8Len_conditional : utf8Len conditional = 6 := by
  decide

lemma opens_conditionalHead_iff {c : Char} (hc : c ≠ '=') {tail head t : List Char} :
    Opens conditionalHead (conditional ++ c :: tail) head t ↔
      ∃ h, head = conditional ++ c :: h ∧ Opens beforeEquals tail h t := by
  have hunequal : isUnequal c = true := bne_iff_ne.mpr hc
  rw [conditionalHead, opens_text_mul_iff]
  constructor
  · rintro ⟨_, _, hcs, rfl, hopens⟩
    rw [← List.append_cancel_left hcs, opens_char_mul_iff] at hopens
    obtain ⟨-, h, rfl, hopens⟩ := hopens
    exact ⟨h, rfl, hopens⟩
  · rintro ⟨h, rfl, hopens⟩
    exact ⟨c :: tail, c :: h, rfl, rfl, opens_char_mul_iff.mpr ⟨hunequal, h, rfl, hopens⟩⟩

lemma opensLast_conditionalHead_iff {c : Char} (hc : c ≠ '=') {tail head t : List Char} :
    OpensLast conditionalHead (conditional ++ c :: tail) head t ↔
      ∃ h, head = conditional ++ c :: h ∧ OpensLast beforeEquals tail h t := by
  constructor
  · rintro ⟨hopens, hlast⟩
    obtain ⟨h, rfl, hbehind⟩ := (opens_conditionalHead_iff hc).mp hopens
    refine ⟨h, rfl, hbehind, fun h' u hu => ?_⟩
    have hle := hlast _ u ((opens_conditionalHead_iff hc).mpr ⟨h', rfl, hu⟩)
    simpa using hle
  · rintro ⟨h, rfl, hbehind, hlast⟩
    refine ⟨(opens_conditionalHead_iff hc).mpr ⟨h, rfl, hbehind⟩, fun h' u hu => ?_⟩
    obtain ⟨h', rfl, hu'⟩ := (opens_conditionalHead_iff hc).mp hu
    simpa using hlast h' u hu'

/-- A conditional head reaches across one character at least. -/
lemma exists_of_opens_conditionalHead {cs head t : List Char}
    (h : Opens conditionalHead cs head t) :
    ∃ c tail, cs = conditional ++ c :: tail ∧ c ≠ '=' := by
  obtain ⟨tail, h, rfl, -, hopens⟩ := opens_text_mul_iff.mp h
  cases tail with
  | nil => exact absurd hopens not_opens_nil
  | cons c tail => exact ⟨c, tail, rfl, bne_iff_ne.mp (opens_char_mul_iff.mp hopens).1⟩

lemma exists_takes_of_spacedGroup {k tail t : List Char} {lead : Nat} (hk : k ∈ keyword)
    (hgroup : spacedGroup 3 tail = some (lead, t)) :
    ∃ head, Takes (k ++ tail) head t ∧ lead = utf8Len head + 1 := by
  obtain ⟨h, hopens, rfl⟩ := spacedGroup_eq_some_iff.mp hgroup
  refine ⟨k ++ h, Or.inl (opens_mul_iff.mpr ⟨k, hk, tail, h, rfl, rfl, hopens⟩), ?_⟩
  rw [utf8Len_append, utf8Len_of_mem_keyword hk]

lemma exists_takes_of_lastGroup {c : Char} {tail t : List Char} {lead : Nat} (hc : c ≠ '=')
    (hgroup : lastGroup (6 + c.utf8Size) none tail = some (lead, t)) :
    ∃ head, Takes (conditional ++ c :: tail) head t ∧ lead = utf8Len head + 1 := by
  rcases lastGroup_eq_some_iff.mp hgroup with ⟨h, hlast, rfl⟩ | ⟨hbest, -⟩
  · refine ⟨conditional ++ c :: h,
      Or.inr ((opensLast_conditionalHead_iff hc).mpr ⟨h, rfl, hlast⟩), ?_⟩
    rw [utf8Len_append, utf8Len_conditional, utf8Len_cons]
    omega
  · contradiction

/-- The reader of tuples reads what the grammar says. -/
lemma tupleAt_eq_some_iff {cs t : List Char} {lead : Nat} :
    tupleAt cs = some (lead, t) ↔ ∃ head, Takes cs head t ∧ lead = utf8Len head + 1 := by
  constructor
  · intro hread
    unfold tupleAt at hread
    split at hread
    · exact exists_takes_of_spacedGroup (mem_keyword.mpr (Or.inl rfl)) hread
    · exact exists_takes_of_spacedGroup (mem_keyword.mpr (Or.inr rfl)) hread
    · split at hread
      · contradiction
      · next hc => exact exists_takes_of_lastGroup hc hread
    · contradiction
  · rintro ⟨head, hopens | hlast, rfl⟩
    · obtain ⟨k, hk, tail, h, rfl, rfl, hbehind⟩ := opens_mul_iff.mp hopens
      rw [tupleAt_keyword hk, spacedGroup_eq_some_iff]
      exact ⟨h, hbehind, by rw [utf8Len_append, utf8Len_of_mem_keyword hk]⟩
    · obtain ⟨c, tail, rfl, hc⟩ := exists_of_opens_conditionalHead hlast.opens
      obtain ⟨h, rfl, hbehind⟩ := (opensLast_conditionalHead_iff hc).mp hlast
      rw [tupleAt_conditional hc, lastGroup_eq_some_iff]
      refine Or.inl ⟨h, hbehind, ?_⟩
      rw [utf8Len_append, utf8Len_conditional, utf8Len_cons]
      omega

lemma tupleAt_eq_none_iff (cs : List Char) : tupleAt cs = none ↔ ¬IsTuple cs := by
  constructor
  · rintro hnone ⟨head, t, hopens | hopens⟩
    · have hsome := tupleAt_eq_some_iff.mpr ⟨head, Or.inl hopens, rfl⟩
      rw [hnone] at hsome
      contradiction
    · obtain ⟨c, tail, rfl, hc⟩ := exists_of_opens_conditionalHead hopens
      obtain ⟨h, -, hbehind⟩ := (opens_conditionalHead_iff hc).mp hopens
      rw [tupleAt_conditional hc, lastGroup_eq_none_iff] at hnone
      exact hnone.2 h t hbehind
  · intro hnone
    rw [Option.eq_none_iff_forall_ne_some]
    rintro ⟨lead, t⟩ hsome
    obtain ⟨head, hopens | hlast, -⟩ := tupleAt_eq_some_iff.mp hsome
    · exact hnone ⟨head, t, Or.inl hopens⟩
    · exact hnone ⟨head, t, Or.inr hlast.opens⟩

/-! ### The tuple that is found -/

/-- **Tuples are found by their grammar.** The first place is taken where a binding head stands with
a group behind it, and nothing is found if there is no such place. The anchors are those of the
names in the group: the one right behind a keyword and blanks, or the last one behind a conditional
that no equals sign parts from it. The closing parenthesis counts as text of the group. -/
theorem tuple_anchors_of_grammar (cs : List Char) :
    (∀ as, Shape.tuple.anchors? cs = some as ↔
      ∃ p q head t, cs = p ++ q ∧ FirstPlace (fun _ => IsTuple) p q ∧ Takes q head t ∧
        as = bindings (utf8Len (p ++ head) + 1) (t ++ [')'])) ∧
    (Shape.tuple.anchors? cs = none ↔ ∀ p q, cs = p ++ q → ¬IsTuple q) := by
  have hnone : ∀ (b : Option Char) (cs : List Char), tupleAt cs = none ↔ ¬IsTuple cs :=
    fun _ => tupleAt_eq_none_iff
  have hclose : ∀ o t, bindings o (t ++ [')']) = bindings o t :=
    bindings_append_singleton (by decide +kernel) (by decide)
  simp only [Shape.anchors?, groupAnchors?, Option.map_eq_some_iff, Option.map_eq_none_iff, hclose]
  refine ⟨fun as => ⟨?_, ?_⟩, leftmost_eq_none_iff_forall hnone⟩
  · rintro ⟨⟨start, lead, t⟩, hfound, rfl⟩
    obtain ⟨p, q, hcs, hfirst, rfl, hread⟩ := (leftmost_eq_some_iff_firstPlace hnone).mp hfound
    obtain ⟨head, htakes, rfl⟩ := tupleAt_eq_some_iff.mp hread
    exact ⟨p, q, head, t, hcs, hfirst, htakes, by rw [utf8Len_append, Nat.add_assoc]⟩
  · rintro ⟨p, q, head, t, hcs, hfirst, htakes, rfl⟩
    refine ⟨(utf8Len p, utf8Len head + 1, t), ?_, by rw [utf8Len_append, Nat.add_assoc]⟩
    exact (leftmost_eq_some_iff_firstPlace hnone).mpr
      ⟨p, q, hcs, hfirst, rfl, tupleAt_eq_some_iff.mpr ⟨head, htakes, rfl⟩⟩

/-- A keyword with no group behind it is passed over, and of three parentheses before the equals
sign the first holds no group and the last one is taken. -/
theorem tuple_anchors_of_grammar_nested :
    ∃ p q head t, "for x in if let ((é), (a, mut b: T)) = (c)".toList = p ++ q ∧
      FirstPlace (fun _ => IsTuple) p q ∧ Takes q head t ∧
      [25, 32] = bindings (utf8Len (p ++ head) + 1) (t ++ [')']) :=
  ((tuple_anchors_of_grammar _).1 [25, 32]).mp (by decide +kernel)

end Inlay.Scan
