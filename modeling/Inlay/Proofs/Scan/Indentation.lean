import Inlay.Proofs.Scan.Comments
import Inlay.Proofs.Scan.WholeScan

/-!
Indentation. Blanks in front of a line move its sites to the right by their width and change
nothing else. No shape starts with a blank, so the leftmost occurrence of each stays the leftmost,
and to the keyword that may follow them blanks are what the start of the line is.
-/

namespace Inlay.Scan

open Inlay.Unicode Inlay.Text

/-- The characters that shapes start with. -/
def openers : List Char := ['l', 'f', 'i', '|', '(']

lemma isBlank_of_mem_openers {c : Char} (h : c ∈ openers) : isBlank c = false := by
  have hall : (openers.all fun c => !isBlank c) = true := by decide +kernel
  simpa using List.all_eq_true.mp hall c h

variable {w : List Char}

/-! ### Blanks in front of a shape -/

/-- Whatever shape occurs in front, it starts with one of its openers. -/
lemma head_of_anchorsAt? {s : Shape} {b : Option Char} {c : Char} {cs : List Char} {as : List Nat}
    (h : s.anchorsAt? b (c :: cs) = some as) : c ∈ openers := by
  have hkeyword : ∀ {k tail : List Char}, k ∈ Pattern.keyword → c :: cs = k ++ tail →
      c ∈ openers := by
    intro k tail hk hcs
    rcases Pattern.mem_keyword.mp hk with rfl | rfl <;> cases hcs <;> simp [openers]
  cases s with
  | declaration =>
    obtain ⟨n, hn, -⟩ := Option.map_eq_some_iff.mp h
    obtain ⟨head, hdeclares, -⟩ := declarationAt_eq_some_iff.mp hn
    obtain ⟨k, hk, tail, -, hcs, -⟩ := hdeclares.name
    exact hkeyword hk hcs
  | closure =>
    obtain ⟨⟨lead, t⟩, hg, -⟩ := Option.map_eq_some_iff.mp h
    obtain ⟨⟨⟨-, rest, hcs⟩, -⟩, -⟩ := closureAt_eq_some_iff.mp hg
    cases hcs
    simp [openers]
  | tuple =>
    obtain ⟨⟨lead, t⟩, hg, -⟩ := Option.map_eq_some_iff.mp h
    obtain ⟨head, hopens | hlast, -⟩ := tupleAt_eq_some_iff.mp hg
    · obtain ⟨k, hk, tail, -, hcs, -⟩ := opens_mul_iff.mp hopens
      exact hkeyword hk hcs
    · obtain ⟨d, tail, hcs, -⟩ := exists_of_opens_conditionalHead hlast.opens
      cases hcs
      simp [openers]
  | matchArm =>
    obtain ⟨⟨lead, t⟩, hg, -⟩ := Option.map_eq_some_iff.mp h
    obtain ⟨⟨-, e, -, rest, hcs⟩, -⟩ := matchArmAt_eq_some_iff.mp hg
    cases hcs
    simp [openers]

lemma anchorsAt?_of_isBlank {c : Char} (hc : isBlank c = true) (s : Shape) (b : Option Char)
    (cs : List Char) : s.anchorsAt? b (c :: cs) = none := by
  by_contra hne
  obtain ⟨as, has⟩ := Option.ne_none_iff_exists'.mp hne
  have hblank := isBlank_of_mem_openers (head_of_anchorsAt? has)
  rw [hc] at hblank
  contradiction

/-- Characters at which nothing can be read are passed over. -/
lemma leftmost_append {α : Type} {read : Option Char → List Char → Option α}
    (h : ∀ c ∈ w, ∀ b cs, read b (c :: cs) = none) (b : Option Char) (o : Nat) (cs : List Char) :
    leftmost read b o (w ++ cs) = leftmost read (w.getLast?.or b) (o + utf8Len w) cs := by
  refine leftmost_skip o fun p q hpq hlt => ?_
  rcases List.append_eq_append_iff.mp hpq with ⟨r, rfl, -⟩ | ⟨r, rfl, rfl⟩
  · rw [List.length_append] at hlt
    omega
  · cases r with
    | nil =>
      rw [List.append_nil] at hlt
      exact absurd hlt (Nat.lt_irrefl _)
    | cons c r => exact h c (List.mem_append_right p List.mem_cons_self) _ _

/-- After a blank a word starts anew. -/
lemma cleanCut_of_blanks (hw : ∀ c ∈ w, isBlank c = true) (cs : List Char) : CleanCut w cs := by
  intro hinside
  obtain ⟨c, hc, hword⟩ := (Option.any_eq_true _ _).mp hinside
  have hblank := hw c (List.mem_of_getLast? hc)
  rw [isWord_of_isBlank hblank] at hword
  contradiction

/-! ### Shapes and rounds -/

lemma anchors?_indented (hw : ∀ c ∈ w, isBlank c = true) (s : Shape) (cs : List Char) :
    s.anchors? (w ++ cs) = (s.anchors? cs).map fun as => as.map (utf8Len w + ·) := by
  have hskip : leftmost s.anchorsAt? none 0 (w ++ cs) =
      (leftmost s.anchorsAt? none 0 cs).map fun x => (x.1 + utf8Len w, x.2) := by
    calc leftmost s.anchorsAt? none 0 (w ++ cs)
        = leftmost s.anchorsAt? (w.getLast?.or none) (0 + utf8Len w) cs :=
          leftmost_append (fun c hc => anchorsAt?_of_isBlank (hw c hc) s) none 0 cs
      _ = leftmost s.anchorsAt? none (0 + utf8Len w) cs := by
          rw [Option.or_none]
          exact leftmost_before _ ((cleanCut_of_blanks hw cs).anchorsAt? s)
      _ = _ := leftmost_add none 0 (utf8Len w) cs
  rw [anchors?_eq, anchors?_eq, hskip, Option.map_map, Option.map_map]
  congr 1
  funext x
  simp only [Function.comp_apply, List.map_map]
  congr 1
  funext a
  simp only [Function.comp_apply]
  omega

lemma resolve?_indented (hw : ∀ c ∈ w, isBlank c = true) (cs : List Char) :
    resolve? (w ++ cs) =
      (resolve? cs).map fun r => ⟨r.shape, r.anchors.map (utf8Len w + ·)⟩ := by
  rw [resolve?_eq, resolve?_eq]
  exact findSome?_shape_map (fun s => anchors?_indented hw s cs) Shape.all

/-- The first round reads the blanks along with its names. -/
lemma Round.indented {p q : List Char} {r : Resolution} (h : Round p q r)
    (hw : ∀ c ∈ w, isBlank c = true) :
    Round (w ++ p) q ⟨r.shape, r.anchors.map (utf8Len w + ·)⟩ := by
  refine ⟨?_, ?_, h.nameEnd.append_left w⟩
  · rw [List.append_assoc, resolve?_indented hw, h.found, Option.map_some]
  · rw [List.getLast?_map, h.last, Option.map_some, utf8Len_append]

/-- Blanks in front of code are as good as a later column to start in. -/
lemma codeSites_indented (hw : ∀ c ∈ w, isBlank c = true) (number column : Nat)
    (cs : List Char) :
    codeSites number column (w ++ cs) = codeSites number (column + utf16Len w) cs := by
  cases hr : resolve? cs with
  | none =>
    have hnone : resolve? (w ++ cs) = none := by rw [resolve?_indented hw, hr, Option.map_none]
    rw [codeSites_none hr, codeSites_none hnone]
  | some r =>
    obtain ⟨p, q, rfl, hround⟩ := exists_round hr
    have hcolumn : column + utf16Len (w ++ p) = column + utf16Len w + utf16Len p := by
      rw [utf16Len_append]
      omega
    have htake : ∀ a, column + utf16Len (takeBytes (utf8Len w + a) (w ++ (p ++ q))) =
        column + utf16Len w + utf16Len (takeBytes a (p ++ q)) := by
      intro a
      rw [takeBytes_add_append, utf16Len_append]
      omega
    have hindented := (hround.indented hw).codeSites_eq number column
    rw [List.append_assoc] at hindented
    rw [hindented, hround.codeSites_eq, hcolumn, List.map_map]
    simp only [Function.comp_def, htake]

/-! ### Lines -/

lemma stripComment_indented (hw : ∀ c ∈ w, isBlank c = true) (line : List Char) :
    stripComment (w ++ line) = w ++ stripComment line := by
  induction w with
  | nil => rfl
  | cons c w ih =>
    have hc := hw c List.mem_cons_self
    have hstart : ¬StartsComment (c :: (w ++ line)) := by
      rw [startsComment_cons]
      rintro (⟨rfl, -⟩ | rfl) <;> revert hc <;> decide +kernel
    rw [List.cons_append, stripComment_cons hstart, ih fun d hd => hw d (List.mem_cons_of_mem c hd),
      List.cons_append]

lemma isImplHeader_indented (hw : ∀ c ∈ w, isBlank c = true) (code : List Char) :
    isImplHeader (w ++ code) = isImplHeader code := by
  unfold isImplHeader
  rw [List.dropWhile_append_of_pos hw]

/-- **Indentation moves sites and does nothing else.** With blanks in front a line has the sites
that it has without them, each further right by the width of the blanks and of the same shape. In
particular it is passed over as an implementation header exactly if it was before, and each shape
has its anchors where it had them, past the blanks. -/
theorem lineSites_of_indented (hw : ∀ c ∈ w, isBlank c = true) (number : Nat)
    (line : List Char) :
    lineSites number (w ++ line) = (lineSites number line).map (Site.move 0 (utf16Len w)) ∧
    isImplHeader (stripComment (w ++ line)) = isImplHeader (stripComment line) ∧
    ∀ s : Shape, s.anchors? (w ++ line) =
      (s.anchors? line).map fun as => as.map (utf8Len w + ·) := by
  have hcode : stripComment (w ++ line) = w ++ stripComment line := stripComment_indented hw line
  have hheader : isImplHeader (w ++ stripComment line) = isImplHeader (stripComment line) :=
    isImplHeader_indented hw _
  refine ⟨?_, by rw [hcode, hheader], fun s => anchors?_indented hw s line⟩
  simp only [lineSites, hcode, hheader]
  split
  · rfl
  · calc codeSites number 0 (w ++ stripComment line)
        = codeSites (number + 0) (0 + utf16Len w) (stripComment line) :=
          codeSites_indented hw number 0 _
      _ = _ := codeSites_add number 0 0 (utf16Len w) _

/-- A tab, a wide space and a space before a declaration and a parameter list. -/
theorem lineSites_of_indented_wide :
    (∀ c ∈ ['\t', '\u3000', ' '], isBlank c = true) ∧
    lineSites 0 "let f = |é, mut y| y // |z|".toList =
      [⟨⟨0, 5⟩, .declaration⟩, ⟨⟨0, 10⟩, .closure⟩, ⟨⟨0, 17⟩, .closure⟩] ∧
    lineSites 0 "\t\u3000 let f = |é, mut y| y // |z|".toList =
      [⟨⟨0, 8⟩, .declaration⟩, ⟨⟨0, 13⟩, .closure⟩, ⟨⟨0, 20⟩, .closure⟩] := by
  have hw : ∀ c ∈ ['\t', '\u3000', ' '], isBlank c = true :=
    List.all_eq_true.mp (by decide +kernel)
  have hline : lineSites 0 "let f = |é, mut y| y // |z|".toList =
      [⟨⟨0, 5⟩, .declaration⟩, ⟨⟨0, 10⟩, .closure⟩, ⟨⟨0, 17⟩, .closure⟩] := by
    decide +kernel
  have hindented : "\t\u3000 let f = |é, mut y| y // |z|".toList =
      ['\t', '\u3000', ' '] ++ "let f = |é, mut y| y // |z|".toList := by decide +kernel
  have hmoved := (lineSites_of_indented hw 0 "let f = |é, mut y| y // |z|".toList).1
  refine ⟨hw, hline, ?_⟩
  rw [hindented, hmoved, hline]
  decide

end Inlay.Scan
