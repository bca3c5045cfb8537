import Inlay.Proofs.Scan.Positions
import Inlay.Proofs.Scan.Precedence

/-!
Where the occurrences begin that sites are owed to. The keyword of a single name is a whole word of
the line, however the line has been cut before it. The head of a tuple need not be: the end of a
longer word will do.
-/

namespace Inlay.Scan

open Inlay.Unicode Inlay.Text Pattern

/-- The shape occurs in front of a text, after the character `before`. -/
def Shape.Occurs (s : Shape) (before : Option Char) (cs : List Char) : Prop :=
  s.anchorsAt? before cs ≠ none

/-- The occurrence that a site of code is owed to begins between `a` and `q`: the scan comes to a
cursor before it, what is left there resolves to the shape of the site, this is the first place of
the shape in it, and the site is one of the anchors. -/
inductive Begins (number : Nat) (code : List Char) (x : Site) (a q : List Char) : Prop
  | intro {c : Cursor} {before p : List Char} {anchors : List Nat} {n : Nat}
      (hreached : c.Reached code) (hcode : code = before ++ c.rest) (ha : a = before ++ p)
      (hrest : c.rest = p ++ q) (hfound : resolve? c.rest = some ⟨x.shape, anchors⟩)
      (hfirst : FirstPlace x.shape.Occurs p q) (hn : n ∈ anchors)
      (hposition : x.position = ⟨number, c.column + utf16Len (takeBytes n c.rest)⟩)

variable {number : Nat} {code a p q before : List Char} {x : Site} {s : Shape} {b : Option Char}

/-! ### Occurrences -/

lemma anchorsAt?_eq_none_iff (s : Shape) (b : Option Char) (cs : List Char) :
    s.anchorsAt? b cs = none ↔ ¬s.Occurs b cs := not_not.symm

lemma occurs_declaration_iff (b : Option Char) (cs : List Char) :
    Shape.declaration.Occurs b cs ↔ IsDeclaration b cs := by
  rw [← not_iff_not, ← anchorsAt?_eq_none_iff, ← declarationAt_eq_none_iff b]
  exact Option.map_eq_none_iff

lemma occurs_tuple_iff (b : Option Char) (cs : List Char) :
    Shape.tuple.Occurs b cs ↔ IsTuple cs := by
  rw [← not_iff_not, ← anchorsAt?_eq_none_iff, ← tupleAt_eq_none_iff]
  exact Option.map_eq_none_iff

lemma firstPlace_occurs_tuple_iff :
    FirstPlace Shape.tuple.Occurs p q ↔ FirstPlace (fun _ => IsTuple) p q := by
  have hoccurs : Shape.tuple.Occurs = fun _ => IsTuple :=
    funext fun b => funext fun cs => propext (occurs_tuple_iff b cs)
  rw [hoccurs]

/-- A shape with anchors has a first place. -/
lemma exists_firstPlace {cs : List Char} {as : List Nat} (h : s.anchors? cs = some as) :
    ∃ p q, cs = p ++ q ∧ FirstPlace s.Occurs p q := by
  rw [anchors?_eq] at h
  obtain ⟨⟨start, _⟩, hleftmost, -⟩ := Option.map_eq_some_iff.mp h
  obtain ⟨p, q, hcs, hfirst, -⟩ :=
    (leftmost_eq_some_iff_firstPlace (anchorsAt?_eq_none_iff s)).mp hleftmost
  exact ⟨p, q, hcs, hfirst⟩

lemma firstPlace_of_leftmost {as : List Nat}
    (h : leftmost s.anchorsAt? none 0 (p ++ q) = some (utf8Len p, as)) :
    FirstPlace s.Occurs p q := by
  obtain ⟨p', q', hsplit, hfirst, hlen, -⟩ :=
    (leftmost_eq_some_iff_firstPlace (anchorsAt?_eq_none_iff s)).mp h
  have hp : p = p' := by
    rw [← takeBytes_utf8Len_append p q, hsplit, hlen, takeBytes_utf8Len_append]
  subst hp
  rwa [List.append_cancel_left hsplit]

/-! ### Heads -/

lemma IsDeclaration.keyword {cs : List Char} (h : IsDeclaration b cs) :
    (∃ k ∈ keyword, ∃ tail, cs = k ++ tail) ∧ insideWord b = false := by
  obtain ⟨head, hboundary, k, hk, tail, -, hcs, -⟩ := h
  refine ⟨⟨k, hk, tail, hcs⟩, ?_⟩
  cases b with
  | none => rfl
  | some c => exact hboundary c rfl

lemma IsTuple.head {cs : List Char} (h : IsTuple cs) :
    ∃ k, (k ∈ keyword ∨ k = conditional) ∧ ∃ tail, cs = k ++ tail := by
  obtain ⟨head, t, hopens | hopens⟩ := h
  · obtain ⟨k, hk, tail, -, hcs, -⟩ := opens_mul_iff.mp hopens
    exact ⟨k, Or.inl hk, tail, hcs⟩
  · obtain ⟨c, tail, hcs, -⟩ := exists_of_opens_conditionalHead hopens
    exact ⟨conditional, Or.inr rfl, c :: tail, hcs⟩

/-- Keywords and conditionals start with a word character. -/
lemma exists_word_of_head {k : List Char} (hk : k ∈ keyword ∨ k = conditional)
    (tail : List Char) : ∃ c, (k ++ tail).head? = some c ∧ isWord c = true := by
  rcases hk with hk | rfl
  · rcases mem_keyword.mp hk with rfl | rfl
    · exact ⟨'l', rfl, by decide +kernel⟩
    · exact ⟨'f', rfl, by decide +kernel⟩
  · exact ⟨'i', rfl, by decide +kernel⟩

/-- Where a word starts, what is before a cursor does not matter. -/
lemma Cursor.Reached.insideWord_append {c : Cursor} (h : c.Reached code)
    (hcode : code = before ++ c.rest) (hrest : c.rest = p ++ q)
    (hq : ∃ c, q.head? = some c ∧ isWord c = true) :
    insideWord (before ++ p).getLast? = insideWord p.getLast? := by
  obtain ⟨before', hcode', -, hcut⟩ := h.cut
  obtain rfl := List.append_cancel_right (hcode.symm.trans hcode')
  rw [hrest] at hcut
  cases p with
  | nil =>
    obtain ⟨c, hc, hword⟩ := hq
    rw [List.append_nil]
    refine Bool.eq_false_iff.mpr fun hinside => ?_
    rw [hcut hinside c hc] at hword
    contradiction
  | cons d p => rw [List.getLast?_append, List.getLast?_cons, Option.some_or]

/-! ### Beginnings -/

/-- What is found from a cursor on is found from the start. -/
lemma Cursor.Reached.mem_codeSites {c : Cursor} (h : c.Reached code)
    (hx : x ∈ codeSites number c.column c.rest) : x ∈ codeSites number 0 code := by
  induction h with
  | start => exact hx
  | @next c d _ hnext ih =>
    obtain ⟨column, rest⟩ := c
    cases hr : resolve? rest with
    | none =>
      rw [next?_eq_none hr] at hnext
      contradiction
    | some r =>
      obtain ⟨p, q, rfl, hround⟩ := exists_round hr
      rw [hround.next?_eq] at hnext
      cases hnext
      refine ih ?_
      rw [hround.codeSites_eq]
      exact List.mem_append_right _ hx

lemma Begins.mem_codeSites (h : Begins number code x a q) : x ∈ codeSites number 0 code := by
  obtain ⟨hreached, -, -, -, hfound, -, hn, hposition⟩ := h
  refine hreached.mem_codeSites ?_
  obtain ⟨position, shape⟩ := x
  cases hposition
  exact mem_codeSites_of_resolve? hfound hn

/-- Wherever a cursor stands, the sites found from it on have beginnings. -/
lemma exists_begins_of_reached {column : Nat} {cs : List Char}
    (hreached : Cursor.Reached code ⟨column, cs⟩) (hx : x ∈ codeSites number column cs) :
    ∃ a q, Begins number code x a q := by
  induction cs using rounds_induction generalizing column with
  | stop cs hnone =>
    rw [codeSites_none hnone] at hx
    contradiction
  | round p q r hround ih =>
    have hnext := hreached.next (hround.next?_eq column)
    rw [hround.codeSites_eq] at hx
    rcases List.mem_append.mp hx with hx | hx
    · obtain ⟨n, hn, rfl⟩ := List.mem_map.mp hx
      obtain ⟨before, hcode, -⟩ := hreached.cut
      obtain ⟨p', q', hsplit, hfirst⟩ := exists_firstPlace (anchors?_of_resolve? hround.found).1
      exact ⟨before ++ p', q', .intro hreached hcode rfl hsplit hround.found hfirst hn rfl⟩
    · exact ih hnext hx

lemma exists_begins_iff : (∃ a q, Begins number code x a q) ↔ x ∈ codeSites number 0 code :=
  ⟨fun ⟨_, _, h⟩ => h.mem_codeSites, exists_begins_of_reached .start⟩

/-- A keyword that begins a declaration starts a word of the whole code. -/
lemma Begins.declaration (h : Begins number code x a q) (hx : x.shape = .declaration) :
    (∃ k ∈ keyword, ∃ tail, q = k ++ tail) ∧ insideWord a.getLast? = false := by
  obtain ⟨hreached, hcode, rfl, hrest, -, hfirst, -, -⟩ := h
  rw [hx] at hfirst
  obtain ⟨⟨k, hk, tail, rfl⟩, hinside⟩ := ((occurs_declaration_iff _ _).mp hfirst.holds).keyword
  refine ⟨⟨k, hk, tail, rfl⟩, ?_⟩
  rw [hreached.insideWord_append hcode hrest (exists_word_of_head (Or.inl hk) tail), hinside]

lemma Begins.tuple (h : Begins number code x a q) (hx : x.shape = .tuple) :
    ∃ k, (k ∈ keyword ∨ k = conditional) ∧ ∃ tail, q = k ++ tail := by
  obtain ⟨-, -, -, -, -, hfirst, -, -⟩ := h
  rw [hx] at hfirst
  exact ((occurs_tuple_iff _ _).mp hfirst.holds).head

/-- Wherever what is left of the code resolves to a tuple, the first head with a group behind it
starts a word. -/
def TuplesStartWords (code : List Char) : Prop :=
  ∀ (c : Cursor) (anchors : List Nat) (p q : List Char), c.Reached code →
    resolve? c.rest = some ⟨.tuple, anchors⟩ → c.rest = p ++ q →
    FirstPlace (fun _ => IsTuple) p q → insideWord p.getLast? = false

lemma tuplesStartWords_iff (number : Nat) (code : List Char) : TuplesStartWords code ↔
    ∀ x a q, Begins number code x a q → x.shape = .tuple → insideWord a.getLast? = false := by
  constructor
  · rintro h x _ q ⟨hreached, hcode, rfl, hrest, hfound, hfirst, -, -⟩ hx
    rw [hx] at hfound hfirst
    obtain ⟨k, hk, tail, rfl⟩ := ((occurs_tuple_iff _ _).mp hfirst.holds).head
    rw [hreached.insideWord_append hcode hrest (exists_word_of_head hk tail)]
    exact h _ _ _ _ hreached hfound hrest (firstPlace_occurs_tuple_iff.mp hfirst)
  · intro h c anchors p q hreached hfound hrest hfirst
    obtain ⟨n, hn⟩ := List.exists_mem_of_ne_nil _ (anchorsOf_of_resolve? hfound).ne_nil
    obtain ⟨before, hcode, -⟩ := hreached.cut
    obtain ⟨k, hk, tail, rfl⟩ := IsTuple.head hfirst.holds
    have hbegins : Begins number code
        ⟨⟨number, c.column + utf16Len (takeBytes n c.rest)⟩, .tuple⟩ (before ++ p) (k ++ tail) :=
      .intro hreached hcode rfl hrest hfound (firstPlace_occurs_tuple_iff.mpr hfirst) hn rfl
    rw [← hreached.insideWord_append hcode hrest (exists_word_of_head hk tail)]
    exact h _ _ _ hbegins rfl

/-- **Where keywords are whole words.** The sites of a line that is no implementation header are
those that have a beginning in its code. A single name is always declared by a keyword that no word
character of the line precedes, also right behind a cut. A tuple begins with a keyword or a
conditional too, but with one that may be the end of a longer word: all keywords of the sites of the
line are whole words exactly if, wherever what is left resolves to a tuple, the first head with a
group behind it starts a word. -/
theorem keywords_start_words_iff (number : Nat) (line : List Char) :
    (∀ x, x ∈ lineSites number line ↔ isImplHeader (stripComment line) = false ∧
      ∃ a q, Begins number (stripComment line) x a q) ∧
    (∀ x a q, Begins number (stripComment line) x a q → x.shape = .declaration →
      (∃ k ∈ keyword, ∃ tail, q = k ++ tail) ∧ insideWord a.getLast? = false) ∧
    (∀ x a q, Begins number (stripComment line) x a q → x.shape = .tuple →
      ∃ k, (k ∈ keyword ∨ k = conditional) ∧ ∃ tail, q = k ++ tail) ∧
    ((∀ x a q, x ∈ lineSites number line → Begins number (stripComment line) x a q →
        x.shape = .declaration ∨ x.shape = .tuple → insideWord a.getLast? = false) ↔
      isImplHeader (stripComment line) = true ∨ TuplesStartWords (stripComment line)) := by
  have hsites : ∀ x, x ∈ lineSites number line ↔ isImplHeader (stripComment line) = false ∧
      ∃ a q, Begins number (stripComment line) x a q := by
    intro x
    rw [exists_begins_iff]
    simp only [lineSites]
    cases isImplHeader (stripComment line) <;> simp
  refine ⟨hsites, fun x a q h hx => h.declaration hx, fun x a q h hx => h.tuple hx, ?_⟩
  constructor
  · intro h
    cases hheader : isImplHeader (stripComment line) with
    | true => exact Or.inl rfl
    | false =>
      refine Or.inr ((tuplesStartWords_iff number _).mpr fun x a q hbegins hx => ?_)
      exact h x a q ((hsites x).mpr ⟨hheader, a, q, hbegins⟩) hbegins (Or.inr hx)
  · rintro (hheader | hstart) x a q hmem hbegins (hx | hx)
    · exact (hbegins.declaration hx).2
    · rw [((hsites x).mp hmem).1] at hheader
      contradiction
    · exact (hbegins.declaration hx).2
    · exact (tuplesStartWords_iff number _).mp hstart x a q hbegins hx

/-- The single name behind `outlet (a, b);` is declared by a whole word. Without it, the end of
`outlet` is the head of a tuple. -/
theorem keywords_start_words_iff_outlet :
    (∃ a q, Begins 0 (stripComment "outlet (a, b); let x = 1".toList)
        ⟨⟨0, 20⟩, .declaration⟩ a q ∧
      (∃ k ∈ keyword, ∃ tail, q = k ++ tail) ∧ insideWord a.getLast? = false) ∧
    ∃ a q, Begins 0 (stripComment "outlet (a, b)".toList) ⟨⟨0, 9⟩, .tuple⟩ a q ∧
      ∃ k, (k ∈ keyword ∨ k = conditional) ∧ ∃ tail, q = k ++ tail := by
  obtain ⟨hsites, hdeclaration, -, -⟩ :=
    keywords_start_words_iff 0 "outlet (a, b); let x = 1".toList
  obtain ⟨hsites', -, htuple, -⟩ := keywords_start_words_iff 0 "outlet (a, b)".toList
  obtain ⟨-, a, q, hbegins⟩ := (hsites ⟨⟨0, 20⟩, .declaration⟩).mp (by decide +kernel)
  obtain ⟨-, a', q', hbegins'⟩ := (hsites' ⟨⟨0, 9⟩, .tuple⟩).mp (by decide +kernel)
  exact ⟨⟨a, q, hbegins, hdeclaration _ a q hbegins rfl⟩,
    a', q', hbegins', htuple _ a' q' hbegins' rfl⟩

/-- A keyword need not be a whole word: `let` at the end of `outlet` is the head of a tuple. -/
theorem tuple_begins_inside_word :
    ¬∀ (number : Nat) (line : List Char) x a q, x ∈ lineSites number line →
      Begins number (stripComment line) x a q → x.shape = .declaration ∨ x.shape = .tuple →
      insideWord a.getLast? = false := by
  intro h
  have hcode : stripComment "outlet (a, b)".toList = "out".toList ++ "let (a, b)".toList := by
    decide +kernel
  have hfound : resolve? ("out".toList ++ "let (a, b)".toList) = some ⟨.tuple, [9, 12]⟩ := by
    decide +kernel
  have hleftmost : leftmost Shape.tuple.anchorsAt? none 0
      ("out".toList ++ "let (a, b)".toList) = some (utf8Len "out".toList, [6, 9]) := by
    decide +kernel
  have hbegins : Begins 0 (stripComment "outlet (a, b)".toList) ⟨⟨0, 9⟩, .tuple⟩ "out".toList
      "let (a, b)".toList := by
    rw [hcode]
    exact .intro .start (List.nil_append _).symm rfl rfl hfound (firstPlace_of_leftmost hleftmost)
      List.mem_cons_self rfl
  have hwhole := h 0 "outlet (a, b)".toList _ _ _ (by decide +kernel) hbegins (Or.inr rfl)
  exact absurd hwhole (by decide +kernel)

end Inlay.Scan
