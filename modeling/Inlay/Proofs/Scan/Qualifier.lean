import Inlay.Proofs.Scan.Occurrence

/-!
The qualifier between a keyword and a name. A declaration read from its right end gives back the
place where it starts, so two declarations with one anchor are the same. Where the qualifier and a
name stand behind a keyword, the delimiter after the name decides which of the two is taken for
what is declared.
-/

namespace Inlay.Scan

open Inlay.Unicode Inlay.Text

/-! ### Reading from the right -/

/-- A run at the end of a text is determined if it goes no further to the left. -/
lemma eq_of_append_run {p : Char → Bool} {x x' r r' : List Char} (hr : ∀ c ∈ r, p c = true)
    (hr' : ∀ c ∈ r', p c = true) (hx : ∀ c, x.getLast? = some c → p c = false)
    (hx' : ∀ c, x'.getLast? = some c → p c = false) (h : x ++ r = x' ++ r') :
    x = x' ∧ r = r' := by
  have hrun : ∀ {x r : List Char}, (∀ c ∈ r, p c = true) →
      (∀ c, x.getLast? = some c → p c = false) → IsRun p r.reverse x.reverse :=
    fun hr hx => ⟨fun c hc => hr c (List.mem_reverse.mp hc),
      fun c hc => hx c (List.head?_reverse ▸ hc)⟩
  have hreverse : r.reverse ++ x.reverse = r'.reverse ++ x'.reverse := by
    rw [← List.reverse_append, h, List.reverse_append]
  obtain ⟨hr, hx⟩ := (hrun hr hx).unique (hrun hr' hx') hreverse
  exact ⟨List.reverse_injective hx, List.reverse_injective hr⟩

/-- Blanks at the end of a text go back to the word before them. -/
lemma eq_of_append_gap {x x' g g' : List Char} (hg : g ∈ Pattern.gap) (hg' : g' ∈ Pattern.gap)
    (hx : NameEnd x []) (hx' : NameEnd x' []) (h : x ++ g = x' ++ g') : x = x' ∧ g = g' := by
  have hstop : ∀ {x : List Char}, NameEnd x [] →
      ∀ c, x.getLast? = some c → isBlank c = false := by
    intro x hx c hc
    obtain ⟨d, hd, hword⟩ := hx.word
    cases hd.symm.trans hc
    exact isBlank_of_isWord hword
  exact eq_of_append_run (Pattern.mem_gap.mp hg).2 (Pattern.mem_gap.mp hg').2 (hstop hx)
    (hstop hx') h

/-- A word at the end of a text goes back to the blanks before it. -/
lemma eq_of_append_word {x x' g g' w w' : List Char} (hg : g ∈ Pattern.gap)
    (hg' : g' ∈ Pattern.gap) (hw : w ∈ Pattern.word) (hw' : w' ∈ Pattern.word)
    (h : x ++ g ++ w = x' ++ g' ++ w') : x ++ g = x' ++ g' := by
  have hstop : ∀ {x g : List Char}, g ∈ Pattern.gap →
      ∀ c, (x ++ g).getLast? = some c → isWord c = false := by
    intro x g hg c hc
    obtain ⟨hne, hblank⟩ := Pattern.mem_gap.mp hg
    rw [List.getLast?_append_of_ne_nil _ hne] at hc
    exact isWord_of_isBlank (hblank c (List.mem_of_getLast? hc))
  exact (eq_of_append_run (Pattern.mem_word.mp hw).2 (Pattern.mem_word.mp hw').2 (hstop hg)
    (hstop hg') h).1

/-! ### Declarations from their end -/

open Pattern in
/-- What stands in front of the blanks and the name of a declaration. -/
def declarationLead : Language Char :=
  keyword * optional (gap * text qualifier)

lemma mem_declarationLead {x : List Char} :
    x ∈ declarationLead ↔ x ∈ Pattern.keyword ∨
      ∃ k ∈ Pattern.keyword, ∃ g ∈ Pattern.gap, x = k ++ g ++ qualifier := by
  rw [declarationLead, Language.mem_mul]
  constructor
  · rintro ⟨k, hk, o, ho, rfl⟩
    rcases Pattern.mem_optional.mp ho with rfl | ⟨g, hg, _, rfl, rfl⟩
    · exact Or.inl (by rwa [List.append_nil])
    · exact Or.inr ⟨k, hk, g, hg, by simp⟩
  · rintro (hx | ⟨k, hk, g, hg, rfl⟩)
    · exact ⟨x, hx, [], Pattern.mem_optional.mpr (Or.inl rfl), List.append_nil x⟩
    · refine ⟨k, hk, g ++ qualifier, ?_, by simp⟩
      exact Pattern.mem_optional.mpr (Or.inr (Language.append_mem_mul hg rfl))

lemma nameEnd_of_mem_keyword {k : List Char} (hk : k ∈ Pattern.keyword) : NameEnd k [] := by
  refine ⟨?_, by simp⟩
  rcases Pattern.mem_keyword.mp hk with rfl | rfl
  · exact ⟨'t', rfl, by decide +kernel⟩
  · exact ⟨'r', rfl, by decide +kernel⟩

lemma nameEnd_of_mem_declarationLead {x : List Char} (hx : x ∈ declarationLead) :
    NameEnd x [] := by
  rcases mem_declarationLead.mp hx with hk | ⟨k, -, g, -, rfl⟩
  · exact nameEnd_of_mem_keyword hk
  · have hqualifier : NameEnd qualifier [] := ⟨⟨'t', rfl, by decide +kernel⟩, by simp⟩
    exact hqualifier.append_left (k ++ g)

/-- The qualifier is as long as a keyword, but it is none. -/
lemma append_qualifier_ne {x x' k : List Char} (hk : k ∈ Pattern.keyword) :
    x ++ k ≠ x' ++ qualifier := by
  intro h
  obtain ⟨-, rfl⟩ := List.append_inj' h (Pattern.length_of_mem_keyword hk)
  rcases Pattern.mem_keyword.mp hk with h | h <;> exact absurd h (by decide)

lemma eq_of_append_keyword_right {p p' k k' : List Char} (hk : k ∈ Pattern.keyword)
    (hk' : k' ∈ Pattern.keyword) (h : p ++ k = p' ++ k') : p = p' :=
  (List.append_inj' h ((Pattern.length_of_mem_keyword hk).trans
    (Pattern.length_of_mem_keyword hk').symm)).1

lemma eq_of_append_declarationLead {p p' x x' : List Char} (hx : x ∈ declarationLead)
    (hx' : x' ∈ declarationLead) (h : p ++ x = p' ++ x') : p = p' := by
  -- either both hold the qualifier or none does, as they end in different words otherwise
  rcases mem_declarationLead.mp hx with hk | ⟨k, hk, g, hg, rfl⟩ <;>
    rcases mem_declarationLead.mp hx' with hk' | ⟨k', hk', g', hg', rfl⟩
  · exact eq_of_append_keyword_right hk hk' h
  · rw [← List.append_assoc] at h
    exact absurd h (append_qualifier_ne hk)
  · rw [← List.append_assoc] at h
    exact absurd h.symm (append_qualifier_ne hk')
  · simp only [← List.append_assoc] at h
    have hgap := List.append_cancel_right h
    have hkeyword := eq_of_append_gap hg hg' ((nameEnd_of_mem_keyword hk).append_left p)
      ((nameEnd_of_mem_keyword hk').append_left p') hgap
    exact eq_of_append_keyword_right hk hk' hkeyword.1

open Pattern in
/-- A declaration without the delimiter after it. -/
def declarationHead : Language Char :=
  declarationLead * gap * word

/-- A declaration starts where reading it from its end says it does. -/
lemma eq_of_append_declarationHead {p p' head head' : List Char} (h : head ∈ declarationHead)
    (h' : head' ∈ declarationHead) (he : p ++ head = p' ++ head') : p = p' := by
  obtain ⟨_, ⟨x, hx, g, hg, rfl⟩, w, hw, rfl⟩ := h
  obtain ⟨_, ⟨x', hx', g', hg', rfl⟩, w', hw', rfl⟩ := h'
  simp only [← List.append_assoc] at he
  have hgap := eq_of_append_word hg hg' hw hw' he
  have hlead := eq_of_append_gap hg hg' ((nameEnd_of_mem_declarationLead hx).append_left p)
    ((nameEnd_of_mem_declarationLead hx').append_left p') hgap
  exact eq_of_append_declarationLead hx hx' hlead.1

lemma SpacedWord.mem_declarationHead {x cs gap word rest : List Char}
    (h : SpacedWord cs gap word rest) (hx : x ∈ declarationLead) :
    x ++ (gap ++ word) ∈ declarationHead := by
  rw [← List.append_assoc]
  exact Language.append_mem_mul (Language.append_mem_mul hx h.mem.1) h.mem.2

lemma Declares.mem_declarationHead {b : Option Char} {cs head : List Char}
    (h : Declares b cs head) : head ∈ declarationHead := by
  obtain ⟨-, ⟨d, -, _, hmem, _, ⟨d', -, rfl⟩, he⟩, -⟩ := declares_iff_longest.mp h
  obtain ⟨rfl, -⟩ := List.append_inj' he rfl
  exact hmem

/-- The anchor alone tells which declaration is the one that is found. -/
lemma declaration_anchors?_eq_some_iff {p q head rest : List Char} (hq : q = head ++ rest)
    (hhead : head ∈ declarationHead) :
    Shape.declaration.anchors? (p ++ q) = some [utf8Len (p ++ head)] ↔
      FirstPlace IsDeclaration p q ∧ Declares p.getLast? q head := by
  simp only [Shape.anchors?, Option.map_eq_some_iff]
  constructor
  · rintro ⟨⟨start, n⟩, hfound, he⟩
    obtain ⟨p', q', hcs, hfirst, rfl, hread⟩ :=
      (leftmost_eq_some_iff_firstPlace declarationAt_eq_none_iff).mp hfound
    obtain ⟨head', hdeclares, rfl⟩ := declarationAt_eq_some_iff.mp hread
    obtain ⟨rest', hq', -⟩ := hdeclares.nameEnd
    -- both heads end at the anchor
    have hend : p ++ head = p' ++ head' := by
      have hlen : utf8Len (p ++ head) = utf8Len (p' ++ head') := by
        rw [utf8Len_append p']
        exact (List.singleton_inj.mp he).symm
      rw [hq, hq', ← List.append_assoc, ← List.append_assoc] at hcs
      rw [← takeBytes_utf8Len_append (p ++ head) rest, hcs, hlen, takeBytes_utf8Len_append]
    obtain rfl := eq_of_append_declarationHead hhead hdeclares.mem_declarationHead hend
    obtain rfl := List.append_cancel_left hend
    obtain rfl := List.append_cancel_left hcs
    exact ⟨hfirst, hdeclares⟩
  · rintro ⟨hfirst, hdeclares⟩
    refine ⟨(utf8Len p, utf8Len head), ?_, by rw [utf8Len_append]⟩
    exact (leftmost_eq_some_iff_firstPlace declarationAt_eq_none_iff).mpr
      ⟨p, q, rfl, hfirst, rfl, declarationAt_eq_some_iff.mpr ⟨head, hdeclares, rfl⟩⟩

/-! ### The qualifier and the name after it -/

section Qualifier

variable {b : Option Char} {p k cs gap tail gap' name rest h : List Char}

lemma SpacedWord.plainName_iff (hw : SpacedWord cs gap name rest) :
    PlainName cs h ↔ Delimited rest ∧ h = gap ++ name := by
  constructor
  · rintro ⟨_, _, _, hw', hrest, rfl⟩
    obtain ⟨rfl, rfl, rfl⟩ := hw.unique hw'
    exact ⟨hrest, rfl⟩
  · rintro ⟨hrest, rfl⟩
    exact ⟨gap, name, rest, hw, hrest, rfl⟩

lemma SpacedWord.qualifiedName_iff (hw : SpacedWord cs gap qualifier tail) :
    QualifiedName cs h ↔ ∃ gap' name rest, SpacedWord tail gap' name rest ∧ Delimited rest ∧
      h = gap ++ (qualifier ++ (gap' ++ name)) := by
  constructor
  · rintro ⟨_, _, gap', name, rest, hw', hv, hrest, rfl⟩
    obtain ⟨rfl, -, rfl⟩ := hw.unique hw'
    exact ⟨gap', name, rest, hv, hrest, rfl⟩
  · rintro ⟨gap', name, rest, hv, hrest, rfl⟩
    exact ⟨gap, tail, gap', name, rest, hw, hv, hrest, rfl⟩

lemma declares_append_iff (hk : k ∈ Pattern.keyword) :
    Declares b (k ++ cs) (k ++ h) ↔ (∀ c, b = some c → isWord c = false) ∧
      (QualifiedName cs h ∨ (¬∃ h', QualifiedName cs h') ∧ PlainName cs h) := by
  constructor
  · rintro ⟨hb, k', hk', tail, h', hcs, hhead, hname⟩
    obtain ⟨rfl, rfl⟩ := eq_of_append_keyword hk hk' hcs
    obtain rfl := List.append_cancel_left hhead
    exact ⟨hb, hname⟩
  · rintro ⟨hb, hname⟩
    exact ⟨hb, k, hk, cs, h, rfl, rfl, hname⟩

/-- Where a declaration is found, the qualifier is what is declared unless a name that a delimiter
follows comes after it. -/
lemma declares_qualifier_iff (hk : k ∈ Pattern.keyword) (hw : SpacedWord cs gap qualifier tail)
    (hdecl : IsDeclaration b (k ++ cs)) :
    Declares b (k ++ cs) (k ++ (gap ++ qualifier)) ↔
      ∀ gap' name rest, SpacedWord tail gap' name rest → ¬Delimited rest := by
  have hnone : (¬∃ h', QualifiedName cs h') ↔
      ∀ gap' name rest, SpacedWord tail gap' name rest → ¬Delimited rest := by
    simp only [hw.qualifiedName_iff, not_exists, not_and]
    exact ⟨fun h gap' name rest hv hrest => h _ gap' name rest hv hrest rfl,
      fun h _ gap' name rest hv hrest _ => h gap' name rest hv hrest⟩
  rw [← hnone, declares_append_iff hk]
  constructor
  · rintro ⟨-, hname⟩
    refine (hname.resolve_left fun hq => ?_).1
    obtain ⟨gap', name, rest, hv, -, he⟩ := hw.qualifiedName_iff.mp hq
    have hnil : gap' ++ name = [] := by simpa using he
    exact hv.gap_ne_nil (List.append_eq_nil_iff.mp hnil).1
  · intro hnone
    obtain ⟨_, hb, k', hk', tail', h', hcs, rfl, hname⟩ := hdecl
    obtain ⟨rfl, rfl⟩ := eq_of_append_keyword hk hk' hcs
    obtain ⟨-, hp⟩ := hname.resolve_left fun hq => hnone ⟨h', hq⟩
    obtain ⟨hrest, rfl⟩ := hw.plainName_iff.mp hp
    exact ⟨hb, Or.inr ⟨hnone, hw.plainName_iff.mpr ⟨hrest, rfl⟩⟩⟩

lemma declares_qualified_iff (hk : k ∈ Pattern.keyword) (hw : SpacedWord cs gap qualifier tail)
    (hv : SpacedWord tail gap' name rest) (hb : ∀ c, b = some c → isWord c = false) :
    Declares b (k ++ cs) (k ++ (gap ++ (qualifier ++ (gap' ++ name)))) ↔ Delimited rest := by
  rw [declares_append_iff hk]
  constructor
  · rintro ⟨-, hq | ⟨-, hp⟩⟩
    · obtain ⟨gap'', name', rest', hv', hrest, -⟩ := hw.qualifiedName_iff.mp hq
      obtain ⟨-, -, rfl⟩ := hv.unique hv'
      exact hrest
    · obtain ⟨-, he⟩ := hw.plainName_iff.mp hp
      have hnil : gap' ++ name = [] := by simpa using he
      exact absurd (List.append_eq_nil_iff.mp hnil).1 hv.gap_ne_nil
  · intro hrest
    exact ⟨hb, Or.inl (hw.qualifiedName_iff.mpr ⟨gap', name, rest, hv, hrest, rfl⟩)⟩

end Qualifier

/-- **The delimiter decides between the qualifier and the name after it.** Where a keyword and the
qualifier stand, the anchor is at the end of the qualifier exactly if the first declaration starts
there and no name that a delimiter follows comes after the qualifier. The anchor is at the end of a
name after the qualifier exactly if the first declaration starts there and a delimiter follows that
name. -/
theorem qualifier_anchored_iff {p k cs gap tail : List Char} (hk : k ∈ Pattern.keyword)
    (hw : SpacedWord cs gap qualifier tail) :
    (Shape.declaration.anchors? (p ++ (k ++ cs)) =
        some [utf8Len (p ++ (k ++ (gap ++ qualifier)))] ↔
      FirstPlace IsDeclaration p (k ++ cs) ∧
        ∀ gap' name rest, SpacedWord tail gap' name rest → ¬Delimited rest) ∧
    ∀ gap' name rest, SpacedWord tail gap' name rest →
      (Shape.declaration.anchors? (p ++ (k ++ cs)) =
          some [utf8Len (p ++ (k ++ (gap ++ (qualifier ++ (gap' ++ name)))))] ↔
        FirstPlace IsDeclaration p (k ++ cs) ∧ Delimited rest) := by
  have hlead : k ∈ declarationLead := mem_declarationLead.mpr (Or.inl hk)
  constructor
  · have hsplit : k ++ cs = k ++ (gap ++ qualifier) ++ tail := by rw [hw.split]; simp
    have hhead : k ++ (gap ++ qualifier) ∈ declarationHead := hw.mem_declarationHead hlead
    rw [declaration_anchors?_eq_some_iff hsplit hhead]
    exact and_congr_right fun hfirst => declares_qualifier_iff hk hw hfirst.holds
  · intro gap' name rest hv
    have hqualified : k ++ gap ++ qualifier ∈ declarationLead :=
      mem_declarationLead.mpr (Or.inr ⟨k, hk, gap, hw.mem.1, rfl⟩)
    have hsplit : k ++ cs = k ++ (gap ++ (qualifier ++ (gap' ++ name))) ++ rest := by
      rw [hw.split, hv.split]
      simp
    have hhead : k ++ (gap ++ (qualifier ++ (gap' ++ name))) ∈ declarationHead := by
      simpa using hv.mem_declarationHead hqualified
    rw [declaration_anchors?_eq_some_iff hsplit hhead]
    refine and_congr_right fun hfirst => ?_
    obtain ⟨head, hdecl⟩ := hfirst.holds
    exact declares_qualified_iff hk hw hv hdecl.boundary

/-- A name with no delimiter after it leaves the anchor to the qualifier, and one with a delimiter
takes it. -/
theorem qualifier_anchored_iff_either_way :
    (FirstPlace IsDeclaration "outlet é; ".toList ("let".toList ++ " mut ü;".toList) ∧
      ∀ gap' name rest, SpacedWord " ü;".toList gap' name rest → ¬Delimited rest) ∧
    FirstPlace IsDeclaration "outlet é; ".toList ("for".toList ++ "\tmut\tü =".toList) ∧
      Delimited " =".toList := by
  have hlet : SpacedWord " mut ü;".toList " ".toList qualifier " ü;".toList :=
    next?_eq_some_iff (w := ⟨_, _, _⟩).mp (by rfl)
  have hfor : SpacedWord "\tmut\tü =".toList "\t".toList qualifier "\tü =".toList :=
    next?_eq_some_iff (w := ⟨_, _, _⟩).mp (by rfl)
  have hname : SpacedWord "\tü =".toList "\t".toList "ü".toList " =".toList :=
    next?_eq_some_iff (w := ⟨_, _, _⟩).mp (by rfl)
  constructor
  · exact (qualifier_anchored_iff (Pattern.mem_keyword.mpr (Or.inl rfl)) hlet).1.mp
      (by decide +kernel)
  · exact ((qualifier_anchored_iff (Pattern.mem_keyword.mpr (Or.inr rfl)) hfor).2 _ _ _ hname).mp
      (by decide +kernel)

/-- An anchored qualifier need not be the last word: a name may come after it. -/
theorem qualifier_anchored_before_name :
    ¬∀ p k cs gap tail, k ∈ Pattern.keyword → SpacedWord cs gap qualifier tail →
      Shape.declaration.anchors? (p ++ (k ++ cs)) =
        some [utf8Len (p ++ (k ++ (gap ++ qualifier)))] →
      ¬∃ gap' name rest, SpacedWord tail gap' name rest := by
  intro h
  have hlet : SpacedWord " mut x;".toList " ".toList qualifier " x;".toList :=
    next?_eq_some_iff (w := ⟨_, _, _⟩).mp (by rfl)
  have hname : SpacedWord " x;".toList " ".toList "x".toList ";".toList :=
    next?_eq_some_iff (w := ⟨_, _, _⟩).mp (by rfl)
  refine h [] "let".toList _ _ _ (Pattern.mem_keyword.mpr (Or.inl rfl)) hlet ?_ ⟨_, _, _, hname⟩
  decide +kernel

end Inlay.Scan
