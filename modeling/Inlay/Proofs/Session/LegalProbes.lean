import Inlay.Proofs.Session.Probes

/-!
Probes and characters. A probe is one column to the left of the end of a name. If the last character
of the name takes up one column, that is where the character starts; if it takes up two, the probe
falls between its halves, which is no place of the text.
-/

namespace Inlay

open Text

/-- The position is a place of the text: its line is there, and the column is the start of the line
or the end of one of its characters. -/
def Position.IsPlace (text : String) (x : Position) : Prop :=
  ∃ line p, (split '\n' text.toList)[x.line]? = some line ∧ p <+: line ∧ utf16Len p = x.character

/-- The position is just past the character `c`, which is a word character with none after it;
`before` is what precedes it on its line. -/
structure Position.EndsAt (text : String) (x : Position) (before : List Char) (c : Char) :
    Prop where
  line : ∃ after, (split '\n' text.toList)[x.line]? = some (before ++ c :: after) ∧
    ∀ d, after.head? = some d → Unicode.isWord d = false
  word : Unicode.isWord c = true
  column : x.character = utf16Len before + utf16Size c

namespace Scan

open Unicode

variable {text : String} {x : Position} {before p q : List Char} {c : Char} {n : Nat}

/-! ### Places of a line -/

lemma utf16Len_le_of_prefix (h : p <+: q) : utf16Len p ≤ utf16Len q := by
  obtain ⟨r, rfl⟩ := h
  rw [utf16Len_append]
  omega

/-- No beginning of a line ends inside of a character. -/
lemma utf16Len_ne_of_inside (h : p <+: before ++ c :: q) (hlow : utf16Len before < n)
    (hhigh : n < utf16Len before + utf16Size c) : utf16Len p ≠ n := by
  have hchar : before ++ [c] <+: before ++ c :: q := ⟨q, by simp⟩
  have hbefore : before <+: before ++ c :: q := ⟨c :: q, rfl⟩
  intro hlen
  rcases List.prefix_or_prefix_of_prefix h hchar with hp | hp
  · rcases List.prefix_concat_iff.mp hp with rfl | hp
    · rw [utf16Len_append, utf16Len_cons, utf16Len_nil] at hlen
      omega
    · have hle := utf16Len_le_of_prefix hp
      omega
  · have hle := utf16Len_le_of_prefix hp
    rw [utf16Len_append, utf16Len_cons, utf16Len_nil] at hle
    omega

lemma utf16Size_eq_one_iff : utf16Size c = 1 ↔ c.toNat < 0x10000 := by
  unfold utf16Size
  split <;> simp_all

lemma utf16Size_le (c : Char) : utf16Size c ≤ 2 := by
  unfold utf16Size
  split <;> decide

/-- A probe is a place of the text if the name ends in a character of one column. -/
lemma isPlace_probe_iff (h : x.EndsAt text before c) :
    (Inquiry.probe x).IsPlace text ↔ c.toNat < 0x10000 := by
  obtain ⟨after, hline, -⟩ := h.line
  have hcolumn := h.column
  have hsize := utf16Size_le c
  rw [← utf16Size_eq_one_iff]
  constructor
  · rintro ⟨line, p, hline', hp, hlen⟩
    cases hline.symm.trans hline'
    by_contra hne
    have hpos := utf16Size_pos c
    exact utf16Len_ne_of_inside hp (by omega) (by omega) (hlen.trans (congrArg (· - 1) hcolumn))
  · intro hone
    refine ⟨_, before, hline, ⟨c :: after, rfl⟩, ?_⟩
    rw [Inquiry.probe, hcolumn, hone, Nat.add_sub_cancel]

/-- Every position of a document is just past a character. -/
lemma exists_endsAt_of_mem_positions (h : x ∈ positions text) :
    ∃ before c, x.EndsAt text before c := by
  obtain ⟨s, hs, rfl⟩ := List.mem_map.mp h
  obtain ⟨i, line, hline, hs⟩ := exists_of_mem_linesSites hs
  obtain ⟨p, q, hcode, hcolumn, hend⟩ :=
    endsName_of_mem_codeSites (mem_codeSites_of_mem_lineSites hs)
  obtain ⟨comment, hcomment, hover⟩ := exists_append_stripComment line
  obtain ⟨⟨c, hc, hword⟩, hstop⟩ := hend.append_right hover
  obtain ⟨before, rfl⟩ := List.getLast?_eq_some_iff.mp hc
  have hwhole : line = before ++ c :: (q ++ comment) := by
    rw [hcomment, hcode]
    simp
  refine ⟨before, c, ⟨q ++ comment, ?_, hstop⟩, hword, ?_⟩
  · rw [line_of_mem_lineSites hs, Nat.zero_add, hline, hwhole]
  · rw [hcolumn, Nat.zero_add, utf16Len_append, utf16Len_cons, utf16Len_nil, Nat.add_zero]

end Scan

namespace Session

variable {doc : Document} {failure : Option SurfaceError} {d : Decorator} {used : Nat}
  {events : List Event} {outcome : Outcome}

/-- A pass probes for each position of its document. -/
lemma places_of_passed (h : Passed doc failure d used events outcome) :
    (events.filterMap Event.query?).map Query.place =
      (Scan.positions doc.text).map Inquiry.probe := by
  obtain ⟨desk, ends, -, -, rfl, hends⟩ := h.exists_pass
  have hquiet : ends.filterMap Event.query? = [] := by
    rw [List.filterMap_eq_nil_iff]
    intro e he
    obtain ⟨i, rfl⟩ := hends e he
    rfl
  have hprobe : (Query.place ∘ fun x : Position × Nat =>
      ⟨d.service.name, x.2, doc.uri, Inquiry.probe x.1⟩) = Inquiry.probe ∘ Prod.fst := rfl
  rw [List.filterMap_append, query?_pass, hquiet, List.append_nil, List.map_map, hprobe,
    ← List.map_map, List.zipIdx_map_fst]

/-- **A probe is a place of the text if its name ends in the basic plane.** Each query of a pass is
about the last character of a name of the document, and it is about a place of the text exactly if
that character takes up one column; if it takes up two, the query is about what is between its
halves. So all queries of a pass are about places exactly if no such name ends outside the basic
plane. -/
theorem probes_are_places_iff (h : Passed doc failure d used events outcome) :
    (∀ y ∈ events.filterMap Event.query?, ∃ x ∈ Scan.positions doc.text, ∃ before c,
      x.EndsAt doc.text before c ∧ y.place.line = x.line ∧
      y.place.character = utf16Len before + (utf16Size c - 1) ∧
      (y.place.IsPlace doc.text ↔ c.toNat < 0x10000)) ∧
    ((∀ y ∈ events.filterMap Event.query?, y.place.IsPlace doc.text) ↔
      ∀ x ∈ Scan.positions doc.text, ∀ before c, x.EndsAt doc.text before c →
        c.toNat < 0x10000) := by
  have hplaces := places_of_passed h
  constructor
  · intro y hy
    have hplace : y.place ∈ (Scan.positions doc.text).map Inquiry.probe :=
      hplaces ▸ List.mem_map_of_mem hy
    obtain ⟨x, hx, hprobe⟩ := List.mem_map.mp hplace
    obtain ⟨before, c, hend⟩ := Scan.exists_endsAt_of_mem_positions hx
    have hcolumn := hend.column
    have hpos := utf16Size_pos c
    refine ⟨x, hx, before, c, hend, by rw [← hprobe]; rfl, ?_, ?_⟩
    · rw [← hprobe, Inquiry.probe, hcolumn]
      simp only
      omega
    · rw [← hprobe]
      exact Scan.isPlace_probe_iff hend
  · have hall : (∀ y ∈ events.filterMap Event.query?, y.place.IsPlace doc.text) ↔
        ∀ x ∈ Scan.positions doc.text, (Inquiry.probe x).IsPlace doc.text := by
      rw [← List.forall_mem_map, hplaces, List.forall_mem_map]
    rw [hall]
    constructor
    · intro hlegal x hx before c hend
      exact (Scan.isPlace_probe_iff hend).mp (hlegal x hx)
    · intro hbasic x hx
      obtain ⟨before, c, hend⟩ := Scan.exists_endsAt_of_mem_positions hx
      exact (Scan.isPlace_probe_iff hend).mpr (hbasic x hx before c hend)

/-- A document with a letter of two columns at the end of one name and in front of another. -/
def mixedDocument : Document :=
  ⟨"file:///main.rs", "rust", "let x𝑥 = |𝑥x| 1;"⟩

/-- Of the two queries one is about a place and one is not. -/
theorem probes_are_places_iff_mixed :
    Passed mixedDocument none (.new {} (slowService "old")) 0
        (busyDesk.run (.decorate mixedDocument none)).events
        (busyDesk.run (.decorate mixedDocument none)).outcome ∧
      ((busyDesk.run (.decorate mixedDocument none)).events.filterMap Event.query?).map
        Query.place = [⟨0, 6⟩, ⟨0, 13⟩] ∧
      Position.IsPlace mixedDocument.text ⟨0, 13⟩ ∧
      ¬∀ y ∈ (busyDesk.run (.decorate mixedDocument none)).events.filterMap Event.query?,
        y.place.IsPlace mixedDocument.text := by
  have hpassed : Passed mixedDocument none (.new {} (slowService "old")) 0
      (busyDesk.run (.decorate mixedDocument none)).events
      (busyDesk.run (.decorate mixedDocument none)).outcome :=
    @Passed.alone _ _ busyDesk _ rfl rfl
  have hpositions : Scan.positions mixedDocument.text = [⟨0, 7⟩, ⟨0, 14⟩] := by decide +kernel
  refine ⟨hpassed, ?_, ⟨_, "let x𝑥 = |𝑥".toList, rfl, by decide, rfl⟩, ?_⟩
  · rw [places_of_passed hpassed, hpositions]
    rfl
  · rw [(probes_are_places_iff hpassed).2]
    intro hbasic
    have hend : Position.EndsAt mixedDocument.text ⟨0, 7⟩ "let x".toList '𝑥' :=
      ⟨⟨" = |𝑥x| 1;".toList, rfl, by rintro d ⟨⟩; decide +kernel⟩, by decide +kernel, rfl⟩
    exact absurd (hbasic _ (by rw [hpositions]; decide) _ _ hend) (by decide)

/-- A query about the column between the halves of a letter, which is no place of the text. -/
theorem probe_between_halves :
    ∃ events outcome, Passed ⟨"file:///main.rs", "rust", "let 𝑥 = 1;"⟩ none
        (.new {} (slowService "old")) 0 events outcome ∧
      ⟨"old", 1, "file:///main.rs", ⟨0, 5⟩⟩ ∈ events.filterMap Event.query? ∧
      ¬Position.IsPlace "let 𝑥 = 1;" ⟨0, 5⟩ := by
  refine ⟨_, _, @Passed.alone _ _ busyDesk _ rfl rfl, ?_, ?_⟩
  · decide +kernel
  · rintro ⟨line, p, hline, hp, hlen⟩
    cases hline
    have hprefix : p <+: "let ".toList ++ '𝑥' :: " = 1;".toList := hp
    exact Scan.utf16Len_ne_of_inside hprefix (by decide) (by decide) hlen

end Session

end Inlay
