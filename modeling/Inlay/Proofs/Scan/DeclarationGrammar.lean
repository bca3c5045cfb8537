import Inlay.Proofs.Scan.Leftmost
import Inlay.Proofs.Scan.NameEnd
import Inlay.Proofs.Scan.Pattern
import Inlay.Scan.Resolve

/-!
Declarations as a grammar. A keyword that starts a word is followed by blanks and a name, and a
delimiter follows the name; the qualifier may stand before the name, and where no name follows it
the qualifier is the name. The reader of the scanner finds the first place where the grammar holds,
and what it reads there is the longest text of the declaration pattern.
-/

namespace Inlay.Scan

open Inlay.Unicode Inlay.Text

/-! ### Words after blanks -/

/-- A run of blanks and then a word, neither of which goes any further. -/
structure SpacedWord (cs gap word rest : List Char) : Prop where
  split : cs = gap ++ (word ++ rest)
  gap_ne_nil : gap ≠ []
  word_ne_nil : word ≠ []
  gap : IsRun isBlank gap (word ++ rest)
  word : IsRun isWord word rest

lemma next?_eq_some_iff {cs : List Char} {w : Word} :
    Word.next? cs = some w ↔ SpacedWord cs w.gap w.text w.rest := by
  constructor
  · intro h
    have hsplit := Word.eq_of_next? h
    simp only [Word.next?, Option.ite_none_left_eq_some, Option.some.injEq, not_or] at h
    obtain ⟨⟨hgap, htext⟩, rfl⟩ := h
    refine ⟨hsplit, hgap, htext, ?_, isRun_takeWhile _ _⟩
    simp only [List.takeWhile_append_dropWhile]
    exact isRun_takeWhile _ _
  · intro h
    have htake := h.gap.takeWhile_eq
    have hdrop := h.gap.dropWhile_eq
    rw [← h.split] at htake hdrop
    simp only [Word.next?, htake, hdrop, h.word.takeWhile_eq, h.word.dropWhile_eq,
      h.gap_ne_nil, h.word_ne_nil, or_self, if_false]

/-- A character that may end a declared name. -/
def isDelimiter (c : Char) : Bool :=
  c == ' ' || c == ':' || c == '='

lemma isWord_of_isDelimiter {c : Char} (h : isDelimiter c = true) : isWord c = false := by
  simp only [isDelimiter, Bool.or_eq_true, beq_iff_eq] at h
  rcases h with (rfl | rfl) | rfl <;> decide +kernel

/-- A delimiter comes next. -/
def Delimited (rest : List Char) : Prop :=
  ∃ d rest', rest = d :: rest' ∧ isDelimiter d = true

lemma isDelimited_iff {rest : List Char} : isDelimited rest = true ↔ Delimited rest := by
  cases rest with
  | nil => simp [isDelimited, Delimited]
  | cons c rest => simp [isDelimited, Delimited, isDelimiter]

lemma afterKeyword?_eq_some_iff {cs tail : List Char} :
    afterKeyword? cs = some tail ↔ ∃ k ∈ Pattern.keyword, cs = k ++ tail := by
  constructor
  · intro h
    unfold afterKeyword? at h
    split at h
    · cases h
      exact ⟨['l', 'e', 't'], Pattern.mem_keyword.mpr (Or.inl rfl), rfl⟩
    · cases h
      exact ⟨['f', 'o', 'r'], Pattern.mem_keyword.mpr (Or.inr rfl), rfl⟩
    · contradiction
  · rintro ⟨k, hk, rfl⟩
    rcases Pattern.mem_keyword.mp hk with rfl | rfl <;> rfl

/-! ### The grammar -/

/-- The qualifier, and then a name with a delimiter after it; `head` goes up to the end of the
name. -/
def QualifiedName (cs head : List Char) : Prop :=
  ∃ gap tail gap' name rest, SpacedWord cs gap qualifier tail ∧ SpacedWord tail gap' name rest ∧
    Delimited rest ∧ head = gap ++ (qualifier ++ (gap' ++ name))

/-- A name with a delimiter after it; `head` goes up to the end of the name. -/
def PlainName (cs head : List Char) : Prop :=
  ∃ gap name rest, SpacedWord cs gap name rest ∧ Delimited rest ∧ head = gap ++ name

/-- A declaration stands in front, after the character `before`; `head` goes up to the end of the
declared name. The name is the one after the qualifier if there is such a name. -/
structure Declares (before : Option Char) (cs head : List Char) : Prop where
  boundary : ∀ c, before = some c → isWord c = false
  name : ∃ k ∈ Pattern.keyword, ∃ tail h, cs = k ++ tail ∧ head = k ++ h ∧
    (QualifiedName tail h ∨ (¬∃ h', QualifiedName tail h') ∧ PlainName tail h)

def qualifiedHead? (cs : List Char) : Option (List Char) := do
  let w ← Word.next? cs
  if w.text = qualifier then
    let v ← Word.next? w.rest
    if isDelimited v.rest = true then some (w.gap ++ (w.text ++ (v.gap ++ v.text))) else none
  else none

def plainHead? (cs : List Char) : Option (List Char) := do
  let w ← Word.next? cs
  if isDelimited w.rest = true then some (w.gap ++ w.text) else none

lemma qualifiedHead?_eq_some_iff {cs head : List Char} :
    qualifiedHead? cs = some head ↔ QualifiedName cs head := by
  simp only [qualifiedHead?, Option.bind_eq_bind, Option.bind_eq_some_iff,
    Option.ite_none_right_eq_some, next?_eq_some_iff, isDelimited_iff]
  constructor
  · rintro ⟨⟨gap, text, tail⟩, hw, rfl, ⟨gap', name, rest⟩, hv, hrest, he⟩
    exact ⟨gap, tail, gap', name, rest, hw, hv, hrest, (Option.some.inj he).symm⟩
  · rintro ⟨gap, tail, gap', name, rest, hw, hv, hrest, rfl⟩
    exact ⟨⟨gap, qualifier, tail⟩, hw, rfl, ⟨gap', name, rest⟩, hv, hrest, rfl⟩

lemma plainHead?_eq_some_iff {cs head : List Char} :
    plainHead? cs = some head ↔ PlainName cs head := by
  simp only [plainHead?, Option.bind_eq_bind, Option.bind_eq_some_iff,
    Option.ite_none_right_eq_some, next?_eq_some_iff, isDelimited_iff]
  constructor
  · rintro ⟨⟨gap, name, rest⟩, hw, hrest, he⟩
    exact ⟨gap, name, rest, hw, hrest, (Option.some.inj he).symm⟩
  · rintro ⟨gap, name, rest, hw, hrest, rfl⟩
    exact ⟨⟨gap, name, rest⟩, hw, hrest, rfl⟩

lemma or_plainHead?_eq_some_iff {cs head : List Char} :
    (qualifiedHead? cs).or (plainHead? cs) = some head ↔
      QualifiedName cs head ∨ (¬∃ h, QualifiedName cs h) ∧ PlainName cs head := by
  rw [Option.or_eq_some_iff, plainHead?_eq_some_iff, Option.eq_none_iff_forall_ne_some]
  simp only [ne_eq, qualifiedHead?_eq_some_iff, not_exists]

lemma declarationAt_eq (b : Option Char) (cs : List Char) :
    declarationAt b cs =
      if insideWord b = true then none
      else (afterKeyword? cs).bind fun tail =>
        ((qualifiedHead? tail).or (plainHead? tail)).map fun h => 3 + utf8Len h := by
  unfold declarationAt qualifiedHead? plainHead?
  split
  · rfl
  cases afterKeyword? cs with
  | none => rfl
  | some tail =>
    simp only [Option.bind_eq_bind, Option.bind_some]
    cases Word.next? tail with
    | none => rfl
    | some w =>
      simp only [Option.bind_some]
      split
      · cases Word.next? w.rest with
        | none =>
          simp only [Option.bind_none, Option.none_or]
          split <;> simp [Word.size]
        | some v =>
          simp only [Option.bind_some]
          split <;> split <;> simp [Word.size, Nat.add_assoc]
      · rw [Option.none_or]
        split <;> simp [Word.size]

/-- The reader of declarations reads what the grammar says. -/
lemma declarationAt_eq_some_iff {b : Option Char} {cs : List Char} {n : Nat} :
    declarationAt b cs = some n ↔ ∃ head, Declares b cs head ∧ n = utf8Len head := by
  have hboundary : ¬insideWord b = true ↔ ∀ c, b = some c → isWord c = false := by
    cases b <;> simp [insideWord]
  rw [declarationAt_eq, Option.ite_none_left_eq_some, hboundary]
  simp only [Option.bind_eq_some_iff, Option.map_eq_some_iff, afterKeyword?_eq_some_iff,
    or_plainHead?_eq_some_iff]
  constructor
  · rintro ⟨hb, tail, ⟨k, hk, rfl⟩, h, hname, rfl⟩
    refine ⟨k ++ h, ⟨hb, k, hk, tail, h, rfl, rfl, hname⟩, ?_⟩
    rw [utf8Len_append, Pattern.utf8Len_of_mem_keyword hk]
  · rintro ⟨head, ⟨hb, k, hk, tail, h, rfl, rfl, hname⟩, rfl⟩
    refine ⟨hb, tail, ⟨k, hk, rfl⟩, h, hname, ?_⟩
    rw [utf8Len_append, Pattern.utf8Len_of_mem_keyword hk]

/-! ### The grammar as a pattern -/

open Pattern in
/-- A keyword, perhaps the qualifier, a name and a delimiter. -/
def declaration : Language Char :=
  keyword * optional (gap * text qualifier) * gap * word * char isDelimiter

/-- Blanks and a word cannot be read any further if no word character follows. -/
lemma spacedWord_of_mem {gap word rest : List Char} (hgap : gap ∈ Pattern.gap)
    (hword : word ∈ Pattern.word) (hrest : ∀ c, rest.head? = some c → isWord c = false) :
    SpacedWord (gap ++ (word ++ rest)) gap word rest := by
  obtain ⟨hgap, hblank⟩ := Pattern.mem_gap.mp hgap
  obtain ⟨hword, hall⟩ := Pattern.mem_word.mp hword
  refine ⟨rfl, hgap, hword, ⟨hblank, fun c hc => ?_⟩, ⟨hall, hrest⟩⟩
  obtain ⟨d, word, rfl⟩ := List.exists_cons_of_ne_nil hword
  cases hc
  exact isBlank_of_isWord (hall _ List.mem_cons_self)

/-- The qualifier in front of blanks is all of a word. -/
lemma isRun_qualifier {gap : List Char} (hgap : gap ∈ Pattern.gap) (rest : List Char) :
    IsRun isWord qualifier (gap ++ rest) := by
  obtain ⟨hne, hblank⟩ := Pattern.mem_gap.mp hgap
  refine ⟨(Pattern.mem_word.mp Pattern.qualifier_mem_word).2, fun c hc => ?_⟩
  obtain ⟨b, gap, rfl⟩ := List.exists_cons_of_ne_nil hne
  cases hc
  exact isWord_of_isBlank (hblank _ List.mem_cons_self)

lemma SpacedWord.mem {cs gap word rest : List Char} (h : SpacedWord cs gap word rest) :
    gap ∈ Pattern.gap ∧ word ∈ Pattern.word :=
  ⟨Pattern.mem_gap.mpr ⟨h.gap_ne_nil, h.gap.all⟩, Pattern.mem_word.mpr ⟨h.word_ne_nil, h.word.all⟩⟩

/-- A text of the pattern is a keyword and a name, with or without the qualifier. -/
lemma exists_name_of_mem_declaration {m : List Char} (h : m ∈ declaration) (rest : List Char) :
    ∃ k ∈ Pattern.keyword, ∃ head d, m = k ++ (head ++ [d]) ∧ isDelimiter d = true ∧
      (QualifiedName (head ++ d :: rest) head ∨ PlainName (head ++ d :: rest) head) := by
  obtain ⟨_, ⟨_, ⟨_, ⟨k, hk, o, ho, rfl⟩, gap, hgap, rfl⟩, word, hword, rfl⟩, _, ⟨d, hd, rfl⟩,
    rfl⟩ := h
  have hstop : ∀ c, (d :: rest).head? = some c → isWord c = false := by
    rintro c ⟨⟩
    exact isWord_of_isDelimiter hd
  have hrest : Delimited (d :: rest) := ⟨d, rest, rfl, hd⟩
  have hname := spacedWord_of_mem hgap hword hstop
  refine ⟨k, hk, o ++ (gap ++ word), d, by simp, hd, ?_⟩
  rcases Pattern.mem_optional.mp ho with rfl | ⟨gap', hgap', _, rfl, rfl⟩
  · refine Or.inr ⟨gap, word, d :: rest, ?_, hrest, rfl⟩
    rwa [List.nil_append, List.append_assoc]
  · refine Or.inl ⟨gap', gap ++ (word ++ d :: rest), gap, word, d :: rest, ?_, hname, hrest,
      by simp⟩
    have hqualifier : SpacedWord (gap' ++ (qualifier ++ (gap ++ (word ++ d :: rest)))) gap'
        qualifier (gap ++ (word ++ d :: rest)) :=
      spacedWord_of_mem hgap' Pattern.qualifier_mem_word (isRun_qualifier hgap _).stop
    simpa using hqualifier

/-- A keyword and a name, with or without the qualifier, are a text of the pattern. -/
lemma mem_declaration_of_name {k tail head : List Char} (hk : k ∈ Pattern.keyword)
    (h : QualifiedName tail head ∨ PlainName tail head) :
    ∃ d rest, tail = head ++ d :: rest ∧ k ++ head ++ [d] ∈ declaration := by
  have hpattern : ∀ {o gap word : List Char} {d : Char},
      o ∈ Pattern.optional (Pattern.gap * Pattern.text qualifier) → gap ∈ Pattern.gap →
      word ∈ Pattern.word → isDelimiter d = true →
      k ++ o ++ gap ++ word ++ [d] ∈ declaration := by
    intro o gap word d ho hgap hword hd
    unfold declaration
    refine Language.append_mem_mul (Language.append_mem_mul (Language.append_mem_mul
      (Language.append_mem_mul hk ho) hgap) hword) ⟨d, hd, rfl⟩
  rcases h with ⟨gap', tail', gap, word, rest, hw, hv, hrest, rfl⟩ |
    ⟨gap, word, rest, hw, hrest, rfl⟩
  · obtain ⟨d, rest, rfl, hd⟩ := hrest
    refine ⟨d, rest, by rw [hw.split, hv.split]; simp, ?_⟩
    have hqualifier : gap' ++ qualifier ∈
        Pattern.optional (Pattern.gap * Pattern.text qualifier) :=
      Pattern.mem_optional.mpr (Or.inr (Language.append_mem_mul hw.mem.1 rfl))
    simpa using hpattern hqualifier hv.mem.1 hv.mem.2 hd
  · obtain ⟨d, rest, rfl, hd⟩ := hrest
    refine ⟨d, rest, by rw [hw.split]; simp, ?_⟩
    simpa using hpattern (Pattern.mem_optional.mpr (Or.inl rfl)) hw.mem.1 hw.mem.2 hd

/-! ### The longest reading -/

lemma SpacedWord.unique {cs gap word rest gap' word' rest' : List Char}
    (h : SpacedWord cs gap word rest) (h' : SpacedWord cs gap' word' rest') :
    gap = gap' ∧ word = word' ∧ rest = rest' := by
  have hnext : Word.next? cs = some ⟨gap, word, rest⟩ := next?_eq_some_iff.mpr h
  have hnext' : Word.next? cs = some ⟨gap', word', rest'⟩ := next?_eq_some_iff.mpr h'
  cases hnext.symm.trans hnext'
  exact ⟨rfl, rfl, rfl⟩

lemma QualifiedName.unique {cs head head' : List Char} (h : QualifiedName cs head)
    (h' : QualifiedName cs head') : head = head' := by
  rw [← qualifiedHead?_eq_some_iff] at h h'
  exact Option.some.inj (h.symm.trans h')

lemma PlainName.unique {cs head head' : List Char} (h : PlainName cs head)
    (h' : PlainName cs head') : head = head' := by
  rw [← plainHead?_eq_some_iff] at h h'
  exact Option.some.inj (h.symm.trans h')

/-- The name after the qualifier ends further right than the qualifier. -/
lemma PlainName.length_lt {cs head head' : List Char} (h : PlainName cs head)
    (h' : QualifiedName cs head') : head.length < head'.length := by
  obtain ⟨gap, name, rest, hw, -, rfl⟩ := h
  obtain ⟨gap', tail, gap'', name', rest', hw', hv, -, rfl⟩ := h'
  obtain ⟨rfl, rfl, rfl⟩ := hw.unique hw'
  have hpos := List.length_pos_iff.mpr hv.gap_ne_nil
  simp only [List.length_append]
  omega

/-- The name after the qualifier is the longer one, if there are both. -/
lemma name_iff_longest {cs head : List Char} :
    (QualifiedName cs head ∨ (¬∃ h, QualifiedName cs h) ∧ PlainName cs head) ↔
      (QualifiedName cs head ∨ PlainName cs head) ∧
        ∀ h, QualifiedName cs h ∨ PlainName cs h → h.length ≤ head.length := by
  constructor
  · rintro (hq | ⟨hnone, hp⟩)
    · refine ⟨Or.inl hq, ?_⟩
      rintro h (hq' | hp')
      · rw [hq'.unique hq]
      · exact Nat.le_of_lt (hp'.length_lt hq)
    · refine ⟨Or.inr hp, ?_⟩
      rintro h (hq' | hp')
      · exact absurd ⟨h, hq'⟩ hnone
      · rw [hp'.unique hp]
  · rintro ⟨hq | hp, hlongest⟩
    · exact Or.inl hq
    · refine Or.inr ⟨fun ⟨h, hq⟩ => ?_, hp⟩
      exact absurd (hlongest h (Or.inl hq)) (Nat.not_le_of_lt (hp.length_lt hq))

/-- A text of the pattern stands in front; `head` is all of it but the delimiter. -/
def Matches (cs head : List Char) : Prop :=
  ∃ d, head ++ [d] <+: cs ∧ head ++ [d] ∈ declaration

lemma matches_iff {cs head : List Char} :
    Matches cs head ↔ ∃ k ∈ Pattern.keyword, ∃ tail h, cs = k ++ tail ∧ head = k ++ h ∧
      (QualifiedName tail h ∨ PlainName tail h) := by
  constructor
  · rintro ⟨d, ⟨rest, rfl⟩, hmem⟩
    obtain ⟨k, hk, h, d', hm, -, hname⟩ := exists_name_of_mem_declaration hmem rest
    rw [← List.append_assoc] at hm
    obtain ⟨rfl, hd⟩ := List.append_inj' hm rfl
    cases hd
    exact ⟨k, hk, h ++ d :: rest, h, by simp, rfl, hname⟩
  · rintro ⟨k, hk, tail, h, rfl, rfl, hname⟩
    obtain ⟨d, rest, rfl, hmem⟩ := mem_declaration_of_name hk hname
    exact ⟨d, ⟨rest, by simp⟩, hmem⟩

/-- All keywords are of one length, so what follows one is determined. -/
lemma eq_of_append_keyword {k k' tail tail' : List Char} (hk : k ∈ Pattern.keyword)
    (hk' : k' ∈ Pattern.keyword) (h : k ++ tail = k' ++ tail') : k = k' ∧ tail = tail' := by
  exact List.append_inj h ((Pattern.length_of_mem_keyword hk).trans
    (Pattern.length_of_mem_keyword hk').symm)

/-- A declaration goes as far as the pattern can be read. -/
lemma declares_iff_longest {b : Option Char} {cs head : List Char} :
    Declares b cs head ↔ (∀ c, b = some c → isWord c = false) ∧
      Matches cs head ∧ ∀ h, Matches cs h → h.length ≤ head.length := by
  simp only [matches_iff]
  constructor
  · rintro ⟨hb, k, hk, tail, h, rfl, rfl, hname⟩
    obtain ⟨hname, hlongest⟩ := name_iff_longest.mp hname
    refine ⟨hb, ⟨k, hk, tail, h, rfl, rfl, hname⟩, ?_⟩
    rintro _ ⟨k', hk', tail', h', hcs, rfl, hname'⟩
    obtain ⟨rfl, rfl⟩ := eq_of_append_keyword hk hk' hcs
    have hle := hlongest h' hname'
    simp only [List.length_append]
    omega
  · rintro ⟨hb, ⟨k, hk, tail, h, rfl, rfl, hname⟩, hlongest⟩
    refine ⟨hb, k, hk, tail, h, rfl, rfl, name_iff_longest.mpr ⟨hname, fun h' hname' => ?_⟩⟩
    have hle := hlongest (k ++ h') ⟨k, hk, tail, h', rfl, rfl, hname'⟩
    simp only [List.length_append] at hle
    omega

/-! ### The declaration that is found -/

/-- A declaration stands in front, after the character `before`. -/
def IsDeclaration (before : Option Char) (cs : List Char) : Prop :=
  ∃ head, Declares before cs head

lemma declarationAt_eq_none_iff (b : Option Char) (cs : List Char) :
    declarationAt b cs = none ↔ ¬IsDeclaration b cs := by
  rw [Option.eq_none_iff_forall_ne_some]
  simp only [ne_eq, declarationAt_eq_some_iff, IsDeclaration]
  constructor
  · rintro h ⟨head, hd⟩
    exact h (utf8Len head) ⟨head, hd, rfl⟩
  · rintro h n ⟨head, hd, -⟩
    exact h ⟨head, hd⟩

/-- **Declarations are found by their grammar.** The anchor is the end of the name that is declared
at the first place where a declaration stands; places without one are passed over, and nothing is
found if there is no such place. A declaration stands wherever no word goes on and the pattern can
be read, and its name ends right before the delimiter of the longest text of the pattern. -/
theorem declaration_anchors_of_grammar (cs : List Char) :
    (∀ as, Shape.declaration.anchors? cs = some as ↔
      ∃ p q head, cs = p ++ q ∧ FirstPlace IsDeclaration p q ∧ Declares p.getLast? q head ∧
        as = [utf8Len (p ++ head)]) ∧
    (Shape.declaration.anchors? cs = none ↔ ∀ p q, cs = p ++ q → ¬IsDeclaration p.getLast? q) ∧
    ∀ b q head, Declares b q head ↔ (∀ c, b = some c → isWord c = false) ∧
      Matches q head ∧ ∀ h, Matches q h → h.length ≤ head.length := by
  refine ⟨fun as => ?_, ?_, fun b q head => declares_iff_longest⟩
  · simp only [Shape.anchors?, Option.map_eq_some_iff]
    constructor
    · rintro ⟨⟨start, n⟩, hfound, rfl⟩
      obtain ⟨p, q, hcs, hfirst, rfl, hread⟩ :=
        (leftmost_eq_some_iff_firstPlace declarationAt_eq_none_iff).mp hfound
      obtain ⟨head, hhead, rfl⟩ := declarationAt_eq_some_iff.mp hread
      exact ⟨p, q, head, hcs, hfirst, hhead, by rw [utf8Len_append]⟩
    · rintro ⟨p, q, head, hcs, hfirst, hhead, rfl⟩
      refine ⟨(utf8Len p, utf8Len head), ?_, by rw [utf8Len_append]⟩
      exact (leftmost_eq_some_iff_firstPlace declarationAt_eq_none_iff).mpr
        ⟨p, q, hcs, hfirst, rfl, declarationAt_eq_some_iff.mpr ⟨head, hhead, rfl⟩⟩
  · simp only [Shape.anchors?, Option.map_eq_none_iff]
    exact leftmost_eq_none_iff_forall declarationAt_eq_none_iff

/-- The end of a word is no keyword, a name without a delimiter is not declared, and the qualifier
in front of such a name is a name itself. -/
theorem declaration_anchors_of_grammar_passed_over :
    ∃ p q head, "outlet é = 1; for é; let mut ü;".toList = p ++ q ∧
      FirstPlace IsDeclaration p q ∧ Declares p.getLast? q head ∧ [30] = [utf8Len (p ++ head)] :=
  ((declaration_anchors_of_grammar _).1 [30]).mp (by decide +kernel)

end Inlay.Scan
