import Inlay.Proofs.Yaml.PlainScalar
import Inlay.Yaml.Block

/-!
Literal blocks read back. A text is cut into lines, each with the break that ends it. The lines are
written one by one and come back as the pieces of the block; the sign in the header says how much of
the last break belongs to the text.
-/

namespace Inlay.Yaml

def Piece.whole (p : Piece) : List Char := p.text ++ p.stop.toList

/-- A line as it is written: indented unless it is empty. -/
def Piece.print (n : Nat) (p : Piece) : List Char :=
  (if p.text = [] then [] else indentation n) ++ p.whole

/-- A line that has an end, and only one. -/
structure Piece.Full (p : Piece) : Prop where
  line : ∀ c ∈ p.text, isBreak c = false
  stop : ∃ b, p.stop = some b ∧ isBreak b = true

def Chomp.ofMark : List Char → Chomp
  | ['-'] => .strip
  | ['+'] => .keep
  | _ => .clip

variable {c b : Char} {cs line next rest : List Char} {n k : Nat} {p : Piece} {ps : List Piece}

/-! ### Lines of a stream -/

lemma linesOf_break (hb : isBreak b = true) (cs : List Char) :
    linesOf (b :: cs) = ⟨[], some b, b :: cs⟩ :: linesOf cs := by
  rw [linesOf, if_pos hb]

/-- There is a first line, and it starts where the stream does. -/
lemma exists_linesOf (cs : List Char) : ∃ t stop ls, linesOf cs = ⟨t, stop, cs⟩ :: ls := by
  induction cs with
  | nil => exact ⟨[], none, [], rfl⟩
  | cons c cs ih =>
    rw [linesOf]
    split
    · exact ⟨[], some c, linesOf cs, rfl⟩
    · obtain ⟨t, stop, ls, hls⟩ := ih
      rw [hls]
      exact ⟨c :: t, stop, ls, rfl⟩

/-- Text without breaks in front belongs to the first line. -/
lemma linesOf_append {t : List Char} {stop : Option Char} {ls : List Line}
    (hline : ∀ c ∈ line, isBreak c = false) (h : linesOf cs = ⟨t, stop, cs⟩ :: ls) :
    linesOf (line ++ cs) = ⟨line ++ t, stop, line ++ cs⟩ :: ls := by
  induction line with
  | nil => exact h
  | cons c line ih =>
    have hrest := ih fun d hd => hline d (List.mem_cons_of_mem c hd)
    have hc : isBreak c = false := hline c List.mem_cons_self
    rw [List.cons_append, linesOf, if_neg (Bool.eq_false_iff.mp hc), hrest]
    rfl

lemma indentation_no_break (n : Nat) : ∀ c ∈ indentation n, isBreak c = false := by
  intro c hc
  rw [(List.mem_replicate.mp hc).2]
  rfl

/-- The first line of a stream that starts with an indentation. -/
lemma exists_linesOf_indented (hc : isBreak c = false) (n : Nat) (cs : List Char) :
    ∃ t stop ls, linesOf (indentation n ++ c :: cs) =
      ⟨indentation n ++ c :: t, stop, indentation n ++ c :: cs⟩ :: ls := by
  obtain ⟨t, stop, ls, hls⟩ := exists_linesOf cs
  have hfirst : linesOf ([c] ++ cs) = ⟨[c] ++ t, stop, [c] ++ cs⟩ :: ls :=
    linesOf_append (by simpa using hc) hls
  exact ⟨t, stop, ls, linesOf_append (indentation_no_break n) hfirst⟩

lemma leadingSpaces_indentation (n : Nat) (cs : List Char) :
    leadingSpaces (indentation n ++ cs) = n + leadingSpaces cs := by
  induction n with
  | zero => exact (Nat.zero_add _).symm
  | succ n ih =>
    have hspace : leadingSpaces (' ' :: (indentation n ++ cs)) =
        leadingSpaces (indentation n ++ cs) + 1 := rfl
    rw [indentation_succ, List.cons_append, hspace, ih]
    omega

lemma leadingSpaces_of_ne (hc : c ≠ ' ') (cs : List Char) : leadingSpaces (c :: cs) = 0 := by
  rw [leadingSpaces, List.takeWhile_cons_of_neg (by simpa using hc)]
  rfl

lemma drop_indentation (n : Nat) (cs : List Char) : (indentation n ++ cs).drop n = cs := by
  rw [List.drop_append_of_le_length (by simp [indentation])]
  simp [indentation]

/-! ### Lines of a text -/

/-- A text is a number of lines with ends, and what follows the last of them. -/
lemma exists_lines (cs : List Char) : ∃ (ps : List Piece) (line : List Char),
    cs = ps.flatMap Piece.whole ++ line ∧ (∀ p ∈ ps, p.Full) ∧ ∀ c ∈ line, isBreak c = false := by
  induction cs with
  | nil => exact ⟨[], [], rfl, nofun, nofun⟩
  | cons c cs ih =>
    obtain ⟨ps, line, rfl, hps, hline⟩ := ih
    by_cases hc : isBreak c = true
    · exact ⟨⟨[], some c⟩ :: ps, line, rfl, List.forall_mem_cons.mpr ⟨⟨nofun, c, rfl, hc⟩, hps⟩,
        hline⟩
    · have hc : isBreak c = false := Bool.eq_false_iff.mpr hc
      cases ps with
      | nil => exact ⟨[], c :: line, rfl, nofun, List.forall_mem_cons.mpr ⟨hc, hline⟩⟩
      | cons p ps =>
        obtain ⟨hp, hps⟩ := List.forall_mem_cons.mp hps
        have hfull : Piece.Full ⟨c :: p.text, p.stop⟩ :=
          ⟨List.forall_mem_cons.mpr ⟨hc, hp.line⟩, hp.stop⟩
        exact ⟨⟨c :: p.text, p.stop⟩ :: ps, line, rfl, List.forall_mem_cons.mpr ⟨hfull, hps⟩, hline⟩

lemma printLines_break (hb : isBreak b = true) (n : Nat) (fresh : Bool) (cs : List Char) :
    printLines n fresh (b :: cs) = b :: printLines n true cs := by
  rw [printLines, if_pos hb]

lemma printLines_inside (hline : ∀ c ∈ line, isBreak c = false) (n : Nat) (cs : List Char) :
    printLines n false (line ++ cs) = line ++ printLines n false cs := by
  induction line with
  | nil => rfl
  | cons c line ih =>
    have hc : isBreak c = false := hline c List.mem_cons_self
    rw [List.cons_append, printLines, if_neg (Bool.eq_false_iff.mp hc),
      ih fun d hd => hline d (List.mem_cons_of_mem c hd)]
    rfl

lemma printLines_fresh (hline : ∀ c ∈ line, isBreak c = false) (hne : line ≠ []) (n : Nat)
    (cs : List Char) :
    printLines n true (line ++ cs) = indentation n ++ (line ++ printLines n false cs) := by
  cases line with
  | nil => exact absurd rfl hne
  | cons c line =>
    have hc : isBreak c = false := hline c List.mem_cons_self
    rw [List.cons_append, printLines, if_neg (Bool.eq_false_iff.mp hc),
      printLines_inside fun d hd => hline d (List.mem_cons_of_mem c hd)]
    rfl

lemma printLines_piece (h : p.Full) (n : Nat) (cs : List Char) :
    printLines n true (p.whole ++ cs) = p.print n ++ printLines n true cs := by
  obtain ⟨b, hstop, hb⟩ := h.stop
  rw [Piece.print, Piece.whole, hstop, Option.toList_some, List.append_assoc,
    List.singleton_append]
  split
  · next hempty => simp [hempty, printLines_break hb]
  · next hne => simp [printLines_fresh h.line hne, printLines_break hb]

lemma printLines_pieces (h : ∀ p ∈ ps, p.Full) (n : Nat) (cs : List Char) :
    printLines n true (ps.flatMap Piece.whole ++ cs) =
      ps.flatMap (Piece.print n) ++ printLines n true cs := by
  induction ps with
  | nil => rfl
  | cons p ps ih =>
    rw [List.flatMap_cons, List.flatMap_cons, List.append_assoc, List.append_assoc,
      printLines_piece (h p List.mem_cons_self), ih fun q hq => h q (List.mem_cons_of_mem p hq)]

/-! ### Scanning the lines -/

lemma scanPieces_piece (h : p.Full) (n m : Nat) (cs : List Char) :
    scanPieces n m (linesOf (p.print n ++ cs)) =
      (scanPieces n (m + 1) (linesOf cs)).map fun (qs, rest) => (p :: qs, rest) := by
  obtain ⟨text, stop⟩ := p
  obtain ⟨b, rfl, hb⟩ := h.stop
  cases text with
  | nil =>
    have hprint : Piece.print n ⟨[], some b⟩ = [b] := rfl
    rw [hprint, List.singleton_append, linesOf_break hb]
    simp [scanPieces]
  | cons c t =>
    have hprint : Piece.print n ⟨c :: t, some b⟩ ++ cs =
        indentation n ++ (c :: t ++ b :: cs) := by
      simp [Piece.print, Piece.whole]
    have hlines := linesOf_append (indentation_no_break n)
      (linesOf_append h.line (linesOf_break hb cs))
    have hmin : min n (n + leadingSpaces (c :: t ++ [])) = n :=
      Nat.min_eq_left (Nat.le_add_right _ _)
    rw [hprint, hlines, scanPieces]
    simp only [leadingSpaces_indentation, hmin, drop_indentation]
    simp

/-- A block ends before a line that is not indented enough. -/
lemma scanPieces_end (hk : k < n) (hnext : WordNext next) (m : Nat) :
    scanPieces n m (linesOf (indentation k ++ next)) = some ([], ⟨m, k⟩, next) := by
  cases next with
  | nil =>
    have hlines : linesOf (indentation k ++ []) =
        [⟨indentation k ++ [], none, indentation k ++ []⟩] :=
      linesOf_append (indentation_no_break k) rfl
    have hspaces : leadingSpaces (indentation k ++ []) = k := leadingSpaces_indentation k []
    rw [hlines, scanPieces]
    simp only [hspaces, Nat.min_eq_right (Nat.le_of_lt hk), drop_indentation]
  | cons c cs =>
    have hname : isNameChar c = true := isNameChar_of_wordNext hnext
    have hc : c ≠ ' ' := ne_of_isNameChar hname rfl
    have htab : c ≠ '\t' := ne_of_isNameChar hname rfl
    have hbreak : isBreak c = false := (isGap_eq_false.mp (isGap_of_isNameChar hname)).2.2
    obtain ⟨t, stop, ls, hlines⟩ := exists_linesOf_indented hbreak k cs
    rw [hlines, scanPieces]
    simp only [leadingSpaces_indentation, leadingSpaces_of_ne hc, Nat.add_zero,
      Nat.min_eq_right (Nat.le_of_lt hk), drop_indentation, if_pos hk, if_neg htab]

lemma scanPieces_pieces (h : ∀ p ∈ ps, p.Full) (hk : k < n) (hnext : WordNext next) (m : Nat) :
    scanPieces n m (linesOf (ps.flatMap (Piece.print n) ++ (indentation k ++ next))) =
      some (ps, ⟨m + ps.length, k⟩, next) := by
  induction ps generalizing m with
  | nil => exact scanPieces_end hk hnext m
  | cons p ps ih =>
    rw [List.flatMap_cons, List.append_assoc, scanPieces_piece (h p List.mem_cons_self),
      ih fun q hq => h q (List.mem_cons_of_mem p hq)]
    simp [Nat.add_assoc, Nat.add_comm 1]

/-- The first line tells the indentation unless it starts with a blank. -/
lemma detectIndent_indentation (hspace : c ≠ ' ') (htab : c ≠ '\t') (hbreak : isBreak c = false)
    (n : Nat) (cs : List Char) : detectIndent 0 (linesOf (indentation n ++ c :: cs)) = some n := by
  obtain ⟨t, stop, ls, hlines⟩ := exists_linesOf_indented hbreak n cs
  rw [hlines, detectIndent]
  simp only [leadingSpaces_indentation, leadingSpaces_of_ne hspace, Nat.add_zero,
    drop_indentation, if_neg htab, Nat.zero_max]

/-! ### Putting the lines together -/

/-- In a literal block nothing is lost. -/
lemma joinPieces_text (last : Option Char) (blank : Bool) (breaks : List Char)
    (ps : List Piece) :
    (joinPieces false last blank breaks ps).1 ++
        ((joinPieces false last blank breaks ps).2.1 ++
          (joinPieces false last blank breaks ps).2.2) =
      last.toList ++ breaks ++ ps.flatMap Piece.whole := by
  induction ps generalizing last blank breaks with
  | nil => simp [joinPieces]
  | cons p ps ih =>
    rw [joinPieces]
    split
    · next hempty =>
      rw [ih, List.flatMap_cons, Piece.whole, hempty]
      simp
    · next c t htext =>
      have hrest := ih p.stop (isSpace c) []
      simp only [Bool.false_and, Bool.false_eq_true, if_false, List.append_assoc, hrest]
      simp [Piece.whole, htext]

/-- A last line that is not empty decides what ends the text. -/
lemma joinPieces_last (last : Option Char) (blank : Bool) (breaks : List Char)
    (ps : List Piece) (c : Char) (t : List Char) (stop : Option Char) :
    (joinPieces false last blank breaks (ps ++ [⟨c :: t, stop⟩])).2 = (stop.toList, []) := by
  induction ps generalizing last blank breaks with
  | nil => simp [joinPieces]
  | cons p ps ih =>
    rw [List.cons_append, joinPieces]
    split
    · exact ih _ _ _
    · exact ih _ _ _

lemma blockText_keep (ps : List Piece) :
    blockText false .keep ps = ps.flatMap Piece.whole := by
  have htext := joinPieces_text none false [] ps
  rw [Option.toList_none, List.append_nil, List.nil_append] at htext
  rw [← htext, ← List.append_assoc]
  rfl

lemma blockText_clip (hline : line ≠ []) (ps : List Piece) (stop : Option Char) :
    blockText false .clip (ps ++ [⟨line, stop⟩]) =
      (ps ++ [Piece.mk line stop]).flatMap Piece.whole := by
  obtain ⟨c, t, rfl⟩ := List.exists_cons_of_ne_nil hline
  have htext := joinPieces_text none false [] (ps ++ [⟨c :: t, stop⟩])
  have hlast := joinPieces_last none false [] ps c t stop
  rw [Option.toList_none, List.append_nil, List.nil_append, hlast, List.append_nil] at htext
  rw [← htext, blockText]
  simp only [hlast]

lemma blockText_strip (hline : line ≠ []) (ps : List Piece) (stop : Option Char) :
    blockText false .strip (ps ++ [⟨line, stop⟩]) = ps.flatMap Piece.whole ++ line := by
  obtain ⟨c, t, rfl⟩ := List.exists_cons_of_ne_nil hline
  have htext := joinPieces_text none false [] (ps ++ [⟨c :: t, stop⟩])
  have hlast := joinPieces_last none false [] ps c t stop
  rw [Option.toList_none, List.append_nil, List.nil_append, hlast, List.append_nil,
    List.flatMap_append, List.flatMap_singleton, Piece.whole, ← List.append_assoc] at htext
  exact List.append_cancel_right htext

/-! ### The header -/

lemma chompMark_cases (cs : List Char) :
    chompMark cs = ['-'] ∨ chompMark cs = ['+'] ∨ chompMark cs = [] := by
  unfold chompMark
  split
  · exact Or.inl rfl
  · split
    · exact Or.inl rfl
    · split
      · exact Or.inr (Or.inl rfl)
      · split
        · exact Or.inr (Or.inl rfl)
        · exact Or.inr (Or.inr rfl)

lemma blockHeader_break (l : List Char) : blockHeader ('\n' :: l) = (⟨.clip, none⟩, '\n' :: l) := by
  cases l <;> rfl

/-- The header of a block that has been written says how it was written. -/
lemma blockHeader_marks (cs l : List Char) :
    blockHeader (indentMark cs ++ chompMark cs ++ '\n' :: l) =
      (⟨.ofMark (chompMark cs), if indentMark cs = [] then none else some 2⟩, '\n' :: l) := by
  have hindent : indentMark cs = ['2'] ∨ indentMark cs = [] := by
    unfold indentMark
    split
    · exact Or.inl rfl
    · exact Or.inr rfl
  rcases hindent with hindent | hindent <;>
    rcases chompMark_cases cs with hchomp | hchomp | hchomp <;> rw [hindent, hchomp]
  case inr.inr.inr => exact blockHeader_break l
  all_goals rfl

lemma linesBelow?_break (l : List Char) : linesBelow? ('\n' :: l) = some (linesOf l) := rfl

/-- A text with a sign that keeps or clips its last break. -/
lemma chompMark_of_break (hps : ∀ p ∈ ps, p.Full) (hline : ∀ c ∈ line, isBreak c = false)
    (hb : isBreak b = true) :
    chompMark (ps.flatMap Piece.whole ++ line ++ [b]) = if line = [] then ['+'] else [] := by
  rcases List.eq_nil_or_concat line with rfl | ⟨front, d, rfl⟩
  · rcases List.eq_nil_or_concat ps with rfl | ⟨qs, p, rfl⟩
    · simp [chompMark, hb]
    · obtain ⟨e, hstop, he⟩ := (hps p (by simp)).stop
      simp [chompMark, Piece.whole, hstop, hb, he]
  · have hd : isBreak d = false := hline d (by simp)
    simp [chompMark, hb, hd]

/-- Lines with ends leave nothing after the last break. -/
lemma line_ne_nil (hps : ∀ p ∈ ps, p.Full) (hc : isBreak c = false)
    (h : cs ++ [c] = ps.flatMap Piece.whole ++ line) : line ≠ [] := by
  rintro rfl
  rcases List.eq_nil_or_concat ps with rfl | ⟨qs, p, rfl⟩
  · simp at h
  · obtain ⟨b, hstop, hb⟩ := (hps p (by simp)).stop
    have hlast : c = b := by
      have hends := congrArg List.getLast? h
      simpa [Piece.whole, hstop] using hends
    rw [hlast, hb] at hc
    contradiction

lemma printLines_append_break (n : Nat) (fresh : Bool) (cs : List Char) :
    printLines n fresh (cs ++ ['\n']) = printLines n fresh cs ++ ['\n'] := by
  induction cs generalizing fresh with
  | nil => rfl
  | cons c cs ih =>
    rw [List.cons_append, printLines, printLines]
    split
    · rw [ih, List.cons_append]
    · rw [ih, List.append_assoc, List.cons_append]

/-- The lines of a text that is not empty are written one by one, and the sign in the header says
how they make up the text. -/
lemma exists_pieces (hcs : cs ≠ []) (n : Nat) : ∃ ps : List Piece, (∀ p ∈ ps, p.Full) ∧
    printLines n true cs ++ (if cs.getLast?.any isBreak then [] else ['\n']) =
      ps.flatMap (Piece.print n) ∧
    blockText false (.ofMark (chompMark cs)) ps = cs := by
  obtain ⟨front, b, rfl⟩ := (List.eq_nil_or_concat cs).resolve_left hcs
  have hfull : ∀ {ps : List Piece} {line : List Char} {e : Char}, (∀ p ∈ ps, p.Full) →
      (∀ c ∈ line, isBreak c = false) → isBreak e = true →
      ∀ p ∈ ps ++ [Piece.mk line (some e)], p.Full := by
    intro ps line e hps hline he p hp
    rcases List.mem_append.mp hp with hp | hp
    · exact hps p hp
    · rw [List.mem_singleton.mp hp]
      exact ⟨hline, e, rfl, he⟩
  cases hb : isBreak b with
  | true =>
    obtain ⟨ps, line, rfl, hps, hline⟩ := exists_lines front
    have hwhole : ps.flatMap Piece.whole ++ line ++ [b] =
        (ps ++ [Piece.mk line (some b)]).flatMap Piece.whole := by simp [Piece.whole]
    refine ⟨ps ++ [Piece.mk line (some b)], hfull hps hline hb, ?_, ?_⟩
    · have hprint := printLines_pieces (hfull hps hline hb) n []
      rw [List.append_nil, ← hwhole, printLines, List.append_nil] at hprint
      rw [List.concat_eq_append, hprint]
      simp [hb]
    · rw [List.concat_eq_append, chompMark_of_break hps hline hb, hwhole]
      split
      · exact blockText_keep _
      · next hne => exact blockText_clip hne ps (some b)
  | false =>
    obtain ⟨ps, line, hlines, hps, hline⟩ := exists_lines (front ++ [b])
    have hne : line ≠ [] := line_ne_nil hps hb hlines
    have hwhole : front ++ [b] ++ ['\n'] =
        (ps ++ [Piece.mk line (some '\n')]).flatMap Piece.whole := by
      rw [hlines]
      simp [Piece.whole]
    refine ⟨ps ++ [Piece.mk line (some '\n')], hfull hps hline rfl, ?_, ?_⟩
    · have hprint := printLines_pieces (hfull hps hline (e := '\n') rfl) n []
      rw [List.append_nil, ← hwhole, printLines_append_break, printLines, List.append_nil] at hprint
      rw [List.concat_eq_append, ← hprint]
      simp [hb]
    · have hmark : chompMark (front ++ [b]) = ['-'] := by simp [chompMark, hb]
      rw [List.concat_eq_append, hmark]
      exact (blockText_strip hne ps (some '\n')).trans hlines.symm

/-- **A text that was written as a literal block is read back**, up to the next line that is not
indented enough. -/
theorem scanBlock_text {floor : Nat} (hcs : LiteralText cs) (hfloor : 0 < floor) (hk : k ≤ floor)
    (hnext : WordNext next) (m : Mark) : ∃ line, scanBlock false floor m
      (indentMark cs ++ chompMark cs ++ '\n' :: (printLines (floor + 1) true cs ++
        ((if cs.getLast?.any isBreak then [] else ['\n']) ++ (indentation k ++ next)))) =
      some ⟨cs, ⟨line, k⟩, next⟩ := by
  have hne : cs ≠ [] := List.ne_nil_of_mem hcs.line
  obtain ⟨ps, hps, hprint, htext⟩ := exists_pieces hne (floor + 1)
  have hindent : (if indentMark cs = [] then
      (detectIndent 0 (linesOf (printLines (floor + 1) true cs ++
        ((if cs.getLast?.any isBreak then [] else ['\n']) ++ (indentation k ++ next))))).map
          fun n => max n (max floor 1)
      else some (floor - 1 + 2)) = some (floor + 1) := by
    split
    · next hmark =>
      obtain ⟨c, cs, rfl⟩ := List.exists_cons_of_ne_nil hne
      have hhead : c ≠ ' ' ∧ isBreak c = false := by
        simpa [indentMark] using hmark
      have htab : c ≠ '\t' := ne_of_isSpecial (writable_cons.mp hcs.writable).1 rfl
      rw [printLines, if_neg (Bool.eq_false_iff.mp hhead.2), if_pos rfl, List.append_assoc,
        List.cons_append, detectIndent_indentation hhead.1 htab hhead.2, Option.map_some]
      exact congrArg some (by omega)
    · exact congrArg some (by omega)
  have hscan : scanPieces (floor + 1) (m.line + 1) (linesOf (printLines (floor + 1) true cs ++
      ((if cs.getLast?.any isBreak then [] else ['\n']) ++ (indentation k ++ next)))) =
      some (ps, ⟨m.line + 1 + ps.length, k⟩, next) := by
    rw [← List.append_assoc, hprint]
    exact scanPieces_pieces hps (Nat.lt_succ_of_le hk) hnext _
  refine ⟨m.line + 1 + ps.length, ?_⟩
  rw [scanBlock, blockHeader_marks]
  simp only [linesBelow?_break, bind, Option.bind_some, pure]
  by_cases hmark : indentMark cs = []
  · rw [if_pos hmark] at hindent ⊢
    simp only [hindent, Option.bind_some, hscan, htext]
  · rw [if_neg hmark] at hindent ⊢
    simp only [Option.some.inj hindent, hscan, Option.bind_some, htext]

end Inlay.Yaml
