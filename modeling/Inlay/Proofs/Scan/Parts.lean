import Inlay.Proofs.Scan.Anchors

/-!
The parts of a group. A comma of a group stands behind a word, so every part in front of a comma
lists a name, and the part behind the last comma lists one or is blank. Each part that lists a name
has one anchor, behind its first word and in front of its colon.
-/

namespace Inlay.Scan

open Inlay.Unicode Inlay.Text

/-! ### The name that a part lists -/

/-- The first word of a part, and what stands before and after it. -/
structure FirstWord (part lead first rest : List Char) : Prop where
  split : part = lead ++ (first ++ rest)
  lead : ∀ c ∈ lead, isWord c = false
  ne_nil : first ≠ []
  run : IsRun isWord first rest

/-- The end of `head` is inside of the part, behind its first word and in front of any colon. -/
structure Inside (part head : List Char) : Prop where
  start : head <+: part
  word : ∃ lead first rest, FirstWord part lead first rest ∧ lead ++ first <+: head
  untyped : ':' ∉ head

lemma exists_firstWord {part : List Char} (h : ∃ c ∈ part, isWord c = true) :
    ∃ lead first rest, FirstWord part lead first rest := by
  induction part with
  | nil =>
    obtain ⟨c, hc, -⟩ := h
    contradiction
  | cons d part ih =>
    by_cases hd : isWord d = true
    · have hrun : IsRun isWord (d :: part.takeWhile isWord) (part.dropWhile isWord) := by
        have hrest := isRun_takeWhile isWord part
        exact ⟨List.forall_mem_cons.mpr ⟨hd, hrest.all⟩, hrest.stop⟩
      refine ⟨[], _, _, ?_, nofun, List.cons_ne_nil _ _, hrun⟩
      rw [List.nil_append, List.cons_append, List.takeWhile_append_dropWhile]
    · obtain ⟨c, hc, hw⟩ := h
      have hrest : ∃ c ∈ part, isWord c = true := by
        rcases List.mem_cons.mp hc with rfl | hc
        · exact absurd hw hd
        · exact ⟨c, hc, hw⟩
      obtain ⟨lead, first, rest, hfirst⟩ := ih hrest
      refine ⟨d :: lead, first, rest, by rw [hfirst.split, List.cons_append], ?_, hfirst.ne_nil,
        hfirst.run⟩
      exact List.forall_mem_cons.mpr ⟨Bool.eq_false_iff.mpr hd, hfirst.lead⟩

lemma nameEnd?_eq_none {part : List Char} (h : ∀ c ∈ part, isWord c = false) :
    nameEnd? part = none := by
  have hdrop : (part.dropWhile fun c => !isWord c) = [] := by
    rw [List.dropWhile_eq_nil_iff]
    intro c hc
    rw [h c hc]
    rfl
  unfold nameEnd?
  rw [hdrop]
  rfl

def hasWord (part : List Char) : Bool :=
  part.any isWord

/-- The parts that list a name are those with a word. -/
lemma isSome_nameEnd? (part : List Char) : (nameEnd? part).isSome = hasWord part := by
  rw [Bool.eq_iff_iff, Option.isSome_iff_ne_none, hasWord, List.any_eq_true]
  constructor
  · intro hsome
    by_contra hnone
    refine hsome (nameEnd?_eq_none fun c hc => ?_)
    exact Bool.eq_false_iff.mpr fun hw => hnone ⟨c, hc, hw⟩
  · rintro ⟨c, hc, hw⟩
    exact nameEnd?_ne_none hc hw

/-- What stands before the first word goes no further to the right. -/
lemma FirstWord.lead_run {part lead first rest : List Char} (h : FirstWord part lead first rest) :
    IsRun (fun c => !isWord c) lead (first ++ rest) := by
  refine ⟨fun c hc => by rw [h.lead c hc]; rfl, fun c hc => ?_⟩
  obtain ⟨d, first', rfl⟩ := List.exists_cons_of_ne_nil h.ne_nil
  cases hc
  rw [h.run.all _ List.mem_cons_self]
  rfl

/-- The name is the word behind the qualifier if there is one, or else the first word. -/
lemma FirstWord.nameEnd?_eq {part lead first rest : List Char}
    (h : FirstWord part lead first rest) :
    (∃ gap name rest', first = qualifier ∧ SpacedWord rest gap name rest' ∧
        nameEnd? part = some (utf8Len (lead ++ (first ++ (gap ++ name))))) ∨
      (first = qualifier → ∀ gap name rest', ¬SpacedWord rest gap name rest') ∧
        nameEnd? part = some (utf8Len (lead ++ first)) := by
  have hrun := h.lead_run
  unfold nameEnd?
  simp only [h.split, hrun.takeWhile_eq, hrun.dropWhile_eq, h.run.takeWhile_eq,
    h.run.dropWhile_eq, if_neg h.ne_nil, utf8Len_append]
  cases hnext : Word.next? rest with
  | none =>
    refine Or.inr ⟨fun _ gap name rest' hw => ?_, rfl⟩
    have hsome : Word.next? rest = some ⟨gap, name, rest'⟩ := next?_eq_some_iff.mpr hw
    rw [hnext] at hsome
    contradiction
  | some w =>
    by_cases hq : first = qualifier
    · refine Or.inl ⟨w.gap, w.text, w.rest, hq, next?_eq_some_iff.mp hnext, ?_⟩
      simp only [if_pos hq, Word.size, Nat.add_assoc]
    · exact Or.inr ⟨fun hq' => absurd hq' hq, if_neg hq⟩

/-- With no colon in front of its first word, a part has its anchor inside. -/
lemma FirstWord.exists_inside {part lead first rest : List Char}
    (h : FirstWord part lead first rest) (hcolon : ':' ∉ lead) :
    ∃ head, nameEnd? part = some (utf8Len head) ∧ Inside part head := by
  have hword : ∀ {t : List Char}, (∀ c ∈ t, isWord c = true) → ':' ∉ t :=
    not_mem_of_class (by decide +kernel)
  have hfirst := hword h.run.all
  rcases h.nameEnd?_eq with ⟨gap, name, rest', -, hw, hend⟩ | ⟨-, hend⟩
  · have hgap : ':' ∉ gap := not_mem_of_class (by decide +kernel) hw.gap.all
    have hname := hword hw.word.all
    refine ⟨_, hend, ?_, ⟨lead, first, rest, h, ?_⟩, by simp [hcolon, hfirst, hgap, hname]⟩
    · exact ⟨rest', by rw [h.split, hw.split]; simp⟩
    · exact ⟨gap ++ name, by simp⟩
  · refine ⟨_, hend, ?_, ⟨lead, first, rest, h, List.prefix_rfl⟩, by simp [hcolon, hfirst]⟩
    exact ⟨rest, by rw [h.split, List.append_assoc]⟩

/-! ### What the automaton does with a part -/

namespace Group

/-- No colon is read before there is a word. -/
lemma colon_not_mem_of_run {q r : State} {lead rest : List Char}
    (h : run q (lead ++ rest) = some r) (hlead : ∀ c ∈ lead, isWord c = false)
    (hq : ¬q.Worded) : ':' ∉ lead := by
  induction lead generalizing q with
  | nil => exact List.not_mem_nil
  | cons c lead ih =>
    obtain ⟨s, hs, hrun⟩ := Option.bind_eq_some_iff.mp h
    obtain ⟨hc, hbehind⟩ := List.forall_mem_cons.mp hlead
    rw [List.mem_cons, not_or]
    rcases step_wordless hs hc hq with ⟨hblank, rfl⟩ | ⟨rfl, rfl⟩
    · refine ⟨?_, ih hrun hbehind hq⟩
      rintro rfl
      revert hblank
      decide +kernel
    · exact ⟨by decide, ih hrun hbehind nofun⟩

lemma run_comma {q r : State} {t : List Char} (h : run q (',' :: t) = some r) :
    q.Worded ∧ run .comma t = some r := by
  obtain ⟨s, hs, hrun⟩ := Option.bind_eq_some_iff.mp h
  have hnotWord : isWord ',' = false := by decide +kernel
  have hnotBlank : isBlank ',' = false := by decide +kernel
  rcases step_cases hs with ⟨hw, -⟩ | ⟨hblank, -⟩ | ⟨hc, -⟩ | ⟨-, rfl, hword⟩ | ⟨hc, -⟩
  · rw [hnotWord] at hw
    contradiction
  · rw [hnotBlank] at hblank
    contradiction
  · cases hc
  · exact ⟨hword, hrun⟩
  · cases hc

/-- The automaton comes to a part at the start or behind a comma, and goes on from it behind a
word. -/
lemma exists_run_of_part {q r : State} {before after : List (List Char)} {part : List Char}
    (h : run q (join ',' (before ++ part :: after)) = some r) :
    ∃ q' s, (before = [] ∧ q' = q ∨ before ≠ [] ∧ q' = .comma) ∧ run q' part = some s ∧
      (after = [] ∧ s = r ∨ after ≠ [] ∧ s.Worded) := by
  induction before generalizing q with
  | nil =>
    rw [List.nil_append] at h
    by_cases hafter : after = []
    · subst hafter
      exact ⟨q, r, Or.inl ⟨rfl, rfl⟩, h, Or.inl ⟨rfl, rfl⟩⟩
    · rw [join_cons hafter, run_append] at h
      obtain ⟨s, hs, hrun⟩ := Option.bind_eq_some_iff.mp h
      exact ⟨q, s, Or.inl ⟨rfl, rfl⟩, hs, Or.inr ⟨hafter, (run_comma hrun).1⟩⟩
  | cons p before ih =>
    rw [List.cons_append, join_cons (by simp), run_append] at h
    obtain ⟨s, -, hrun⟩ := Option.bind_eq_some_iff.mp h
    obtain ⟨q', s', hq', hpart⟩ := ih (run_comma hrun).2
    refine ⟨q', s', Or.inr ⟨List.cons_ne_nil _ _, ?_⟩, hpart⟩
    rcases hq' with ⟨-, hq'⟩ | ⟨-, hq'⟩ <;> exact hq'

end Group

/-- A part of a group lists a name, or it is blank and stands behind the last comma. -/
lemma exists_inside_or_blank {t part : List Char} {before after : List (List Char)}
    (ht : Group.accepts t = true) (h : split ',' t = before ++ part :: after) :
    (∃ head, nameEnd? part = some (utf8Len head) ∧ Inside part head) ∨
      before ≠ [] ∧ after = [] ∧ ∀ c ∈ part, isBlank c = true := by
  obtain ⟨r, hr, hfinal⟩ := (Option.any_eq_true _ _).mp ht
  rw [← join_split ',' t, h] at hr
  obtain ⟨q, s, hq, hrun, hs⟩ := Group.exists_run_of_part hr
  have hworded : ¬q.Worded := by
    rcases hq with ⟨-, rfl⟩ | ⟨-, rfl⟩ <;> exact nofun
  have hstop : s.isFinal = true := by
    rcases hs with ⟨-, rfl⟩ | ⟨-, hs⟩
    · exact hfinal
    · exact hs.isFinal
  by_cases hword : ∃ c ∈ part, isWord c = true
  · obtain ⟨lead, first, rest, hfirst⟩ := exists_firstWord hword
    rw [hfirst.split] at hrun
    exact Or.inl (hfirst.exists_inside (Group.colon_not_mem_of_run hrun hfirst.lead hworded))
  · have hwordless : ∀ c ∈ part, isWord c = false := fun c hc =>
      Bool.eq_false_iff.mpr fun hw => hword ⟨c, hc, hw⟩
    obtain ⟨rfl, rfl, hblank⟩ := Group.blank_of_run hrun hwordless hworded hstop
    refine Or.inr ⟨?_, ?_, hblank⟩
    · rcases hq with ⟨-, hq⟩ | ⟨hbefore, -⟩
      · cases hq
      · exact hbefore
    · rcases hs with ⟨hafter, -⟩ | ⟨-, b, hb⟩
      · exact hafter
      · cases hb

/-! ### The parts that list a name -/

def endsInComma (t : List Char) : Bool :=
  (t.reverse.dropWhile isBlank).head? == some ','

/-- The parts of a group between its commas, without the part behind a comma at the end. -/
def listed (t : List Char) : List (List Char) :=
  if endsInComma t then (split ',' t).dropLast else split ',' t

lemma endsInComma_iff {t : List Char} :
    endsInComma t = true ↔ ∃ u b, t = u ++ ',' :: b ∧ ∀ c ∈ b, isBlank c = true := by
  unfold endsInComma
  rw [beq_iff_eq]
  constructor
  · intro h
    obtain ⟨v, hv⟩ := List.head?_eq_some_iff.mp h
    refine ⟨v.reverse, (t.reverse.takeWhile isBlank).reverse, ?_, fun c hc => ?_⟩
    · have hsplit : t.reverse = t.reverse.takeWhile isBlank ++ ',' :: v := by
        rw [← hv, List.takeWhile_append_dropWhile]
      refine (List.reverse_eq_iff.mp hsplit).trans ?_
      simp
    · exact List.mem_takeWhile_imp (List.mem_reverse.mp hc)
  · rintro ⟨u, b, rfl, hb⟩
    have hrun : IsRun isBlank b.reverse (',' :: u.reverse) := by
      refine ⟨fun c hc => hb c (List.mem_reverse.mp hc), ?_⟩
      rintro c ⟨⟩
      decide +kernel
    have hreverse : (u ++ ',' :: b).reverse = b.reverse ++ ',' :: u.reverse := by simp
    rw [hreverse, hrun.dropWhile_eq]
    rfl

/-- A comma at the end is followed by one more part, and that part is blank. -/
lemma split_of_endsInComma {t : List Char} (h : endsInComma t = true) :
    ∃ b, split ',' t = listed t ++ [b] ∧ ∀ c ∈ b, isBlank c = true := by
  obtain ⟨u, b, ht, hb⟩ := endsInComma_iff.mp h
  refine ⟨b, ?_, hb⟩
  have hsplit : split ',' t = split ',' u ++ [b] := by
    rw [ht, split_append, split_of_not_mem (not_mem_of_class (by decide +kernel) hb)]
  rw [listed, if_pos h, hsplit, List.dropLast_concat]

/-- Every listed part of a group has its anchor inside. -/
lemma exists_inside_of_listed {t part : List Char} {before after : List (List Char)}
    (ht : Group.accepts t = true) (h : listed t = before ++ part :: after) :
    ∃ head, nameEnd? part = some (utf8Len head) ∧ Inside part head := by
  by_cases hcomma : endsInComma t = true
  · obtain ⟨b, hsplit, -⟩ := split_of_endsInComma hcomma
    rw [h, List.append_assoc, List.cons_append] at hsplit
    refine (exists_inside_or_blank ht hsplit).resolve_right ?_
    rintro ⟨-, hafter, -⟩
    simp at hafter
  · rw [listed, if_neg hcomma] at h
    refine (exists_inside_or_blank ht h).resolve_right ?_
    rintro ⟨hbefore, rfl, hblank⟩
    refine hcomma (endsInComma_iff.mpr ⟨join ',' before, part, ?_, hblank⟩)
    have hjoin : join ',' (before ++ [part]) = join ',' before ++ ',' :: part :=
      join_append hbefore (List.cons_ne_nil part [])
    rw [← hjoin, ← h, join_split]

/-! ### Anchors part by part -/

/-- The anchors of some parts come before those of the parts that follow. -/
lemma partAnchors_append (o : Nat) (before after : List (List Char)) :
    partAnchors o (before ++ after) =
      partAnchors o before ++ partAnchors (o + utf8Len (before.flatMap (· ++ [',']))) after := by
  induction before generalizing o with
  | nil => rfl
  | cons part before ih =>
    have hcomma : (',' : Char).utf8Size = 1 := by decide
    have hoffset : o + utf8Len ((part :: before).flatMap (· ++ [','])) =
        o + utf8Len part + 1 + utf8Len (before.flatMap (· ++ [','])) := by
      simp only [List.flatMap_cons, utf8Len_append, utf8Len_cons, utf8Len_nil, hcomma]
      omega
    rw [List.cons_append, partAnchors_cons, partAnchors_cons, ih, hoffset, List.append_assoc]

/-- There is one anchor for each part with a word. -/
lemma length_partAnchors_eq_countP (o : Nat) (parts : List (List Char)) :
    (partAnchors o parts).length = parts.countP hasWord := by
  induction parts generalizing o with
  | nil => rfl
  | cons part parts ih =>
    rw [partAnchors_cons, List.length_append, ih, List.countP_cons, ← isSome_nameEnd?]
    cases nameEnd? part with
    | none => exact Nat.zero_add _
    | some n => exact Nat.add_comm _ _

lemma countP_hasWord {parts : List (List Char)} (h : ∀ part ∈ parts, nameEnd? part ≠ none) :
    parts.countP hasWord = parts.length := by
  rw [List.countP_eq_length]
  intro part hpart
  rw [← isSome_nameEnd?, Option.isSome_iff_ne_none]
  exact h part hpart

lemma length_partAnchors {parts : List (List Char)} (h : ∀ part ∈ parts, nameEnd? part ≠ none)
    (o : Nat) : (partAnchors o parts).length = parts.length := by
  rw [length_partAnchors_eq_countP, countP_hasWord h]

/-- The anchor of a part comes behind those of the parts with a word that stand before it. -/
lemma getElem?_partAnchors_countP {part : List Char} {n : Nat} (hpart : nameEnd? part = some n)
    (o : Nat) (before after : List (List Char)) :
    (partAnchors o (before ++ part :: after))[before.countP hasWord]? =
      some (o + utf8Len (before.flatMap (· ++ [','])) + n) := by
  have hlength := length_partAnchors_eq_countP o before
  rw [partAnchors_append, List.getElem?_append_right (Nat.le_of_eq hlength), hlength, Nat.sub_self,
    partAnchors_cons, hpart]
  rfl

lemma getElem?_partAnchors {before after : List (List Char)} {part : List Char} {n : Nat}
    (hbefore : ∀ p ∈ before, nameEnd? p ≠ none) (hpart : nameEnd? part = some n) (o : Nat) :
    (partAnchors o (before ++ part :: after))[before.length]? =
      some (o + utf8Len (before.flatMap (· ++ [','])) + n) := by
  rw [← countP_hasWord hbefore]
  exact getElem?_partAnchors_countP hpart o before after

/-- The part behind a comma at the end has no anchor. -/
lemma bindings_eq_listed (o : Nat) (t : List Char) : bindings o t = partAnchors o (listed t) := by
  by_cases hcomma : endsInComma t = true
  · obtain ⟨b, hsplit, hb⟩ := split_of_endsInComma hcomma
    have hnone : nameEnd? b = none := nameEnd?_eq_none fun c hc => isWord_of_isBlank (hb c hc)
    rw [bindings, hsplit, partAnchors_append, partAnchors_cons, hnone]
    simp
  · rw [bindings, listed, if_neg hcomma]

/-! ### The group of a shape -/

/-- The group that a shape holds in its brackets, where it starts in front. -/
def Shape.groupAt? : Shape → List Char → Option (Nat × List Char)
  | .declaration, _ => none
  | .closure, cs => closureAt cs
  | .tuple, cs => tupleAt cs
  | .matchArm, cs => matchArmAt cs

/-- The group of the leftmost occurrence of a shape, with the number of bytes in front of it. -/
def Shape.group? (s : Shape) (cs : List Char) : Option (Nat × List Char) :=
  (leftmost (fun _ => s.groupAt?) none 0 cs).map fun (start, lead, t) => (start + lead, t)

lemma anchors?_eq_group? {s : Shape} (hs : s ≠ .declaration) (cs : List Char) :
    s.anchors? cs = (s.group? cs).map fun g => bindings g.1 g.2 := by
  unfold Shape.group?
  rw [Option.map_map]
  cases s with
  | declaration => exact absurd rfl hs
  | closure => rfl
  | tuple => rfl
  | matchArm => exact matchArm_anchors?_eq cs

lemma encloses_of_group? {s : Shape} {cs t : List Char} {o : Nat} (h : s.group? cs = some (o, t)) :
    Encloses cs o t := by
  obtain ⟨⟨start, lead, t⟩, hfound, he⟩ := Option.map_eq_some_iff.mp h
  cases he
  obtain ⟨p, q, rfl, rfl, hread⟩ := eq_append_of_leftmost hfound
  have hq : Encloses q lead t := by
    cases s with
    | declaration => cases hread
    | closure => exact encloses_of_closureAt hread
    | tuple => exact encloses_of_tupleAt hread
    | matchArm => exact encloses_of_matchArmAt hread
  obtain ⟨p', c, q', rfl, rfl, hc⟩ := hq.split
  refine ⟨⟨p ++ p', c, q', by rw [List.append_assoc], ?_, hc⟩, hq.group⟩
  rw [utf8Len_append, Nat.zero_add]

/-- **Every listed name has its anchor.** Whichever shape holds a group, there is one anchor for
each part of the group between its commas but for the part behind a comma at the end. The anchor is
inside of its part, behind the first word and in front of any colon. -/
theorem group_anchors_part_by_part {s : Shape} {cs : List Char} {as : List Nat}
    (hs : s ≠ .declaration) (h : s.anchors? cs = some as) :
    ∃ p t rest, cs = p ++ (t ++ rest) ∧ t ∈ Group.language ∧
      s.group? cs = some (utf8Len p, t) ∧ as.length = (listed t).length ∧
      ∀ before part after, listed t = before ++ part :: after →
        ∃ head, Inside part head ∧
          as[before.length]? = some (utf8Len (p ++ (before.flatMap (· ++ [',']) ++ head))) := by
  rw [anchors?_eq_group? hs] at h
  obtain ⟨⟨o, t⟩, hgroup, rfl⟩ := Option.map_eq_some_iff.mp h
  obtain ⟨⟨p, c, rest, hcs, rfl, -⟩, ht⟩ := encloses_of_group? hgroup
  have hlisted : ∀ {before part after}, listed t = before ++ part :: after →
      ∃ head, nameEnd? part = some (utf8Len head) ∧ Inside part head := exists_inside_of_listed ht
  have hall : ∀ part ∈ listed t, nameEnd? part ≠ none := by
    intro part hpart
    obtain ⟨before, after, hsplit⟩ := List.append_of_mem hpart
    obtain ⟨head, hend, -⟩ := hlisted hsplit
    rw [hend]
    exact Option.some_ne_none _
  refine ⟨p, t, c :: rest, hcs, Group.mem_language_iff.mpr ht, hgroup, ?_,
    fun before part after hsplit => ?_⟩
  · rw [bindings_eq_listed, length_partAnchors hall]
  · obtain ⟨head, hend, hinside⟩ := hlisted hsplit
    have hbefore : ∀ q ∈ before, nameEnd? q ≠ none := fun q hq =>
      hall q (hsplit ▸ List.mem_append_left _ hq)
    refine ⟨head, hinside, ?_⟩
    rw [bindings_eq_listed, hsplit, getElem?_partAnchors hbefore hend, utf8Len_append,
      utf8Len_append, Nat.add_assoc]

/-- Three names with types, one of them qualified and one followed by another word, and a comma at
the end. -/
theorem group_anchors_part_by_part_typed :
    Shape.tuple.anchors? "for (é: T, mut b :x, &c &d:U , ) = ".toList = some [7, 17, 24] ∧
      ∃ p t rest, "for (é: T, mut b :x, &c &d:U , ) = ".toList = p ++ (t ++ rest) ∧
        t ∈ Group.language ∧
        Shape.tuple.group? "for (é: T, mut b :x, &c &d:U , ) = ".toList = some (utf8Len p, t) ∧
        [7, 17, 24].length = (listed t).length ∧
        ∀ before part after, listed t = before ++ part :: after →
          ∃ head, Inside part head ∧
            [7, 17, 24][before.length]? =
              some (utf8Len (p ++ (before.flatMap (· ++ [',']) ++ head))) :=
  have hfound : Shape.tuple.anchors? "for (é: T, mut b :x, &c &d:U , ) = ".toList =
      some [7, 17, 24] := by decide +kernel
  ⟨hfound, group_anchors_part_by_part nofun hfound⟩

end Inlay.Scan
