import Inlay.Proofs.Yaml.Printed
import Inlay.Yaml.Plain

/-!
Plain scalars read back: a key up to its colon, and a text that was written plain up to the next
line that is not indented enough to go on with it.
-/

namespace Inlay.Yaml

/-- A small letter comes next, or the stream ends. -/
def WordNext (cs : List Char) : Prop := ∀ c ∈ cs.head?, 'a' ≤ c ∧ c ≤ 'z'

/-- A key that needs no quotes. -/
structure KeyText (key : List Char) : Prop where
  nonempty : key ≠ []
  word : WordNext key
  name : ∀ c ∈ key, isNameChar c = true
  short : key.length ≤ 1024

variable {ctx : PlainContext} {m : Mark} {c : Char} {cs next : List Char} {k : Nat}

/-! ### Single characters -/

lemma isGap_eq_false : isGap c = false ↔ c ≠ ' ' ∧ c ≠ '\t' ∧ isBreak c = false := by
  simp [isGap, isSpace, and_assoc]

lemma isBreak_eq_false : isBreak c = false ↔ c ≠ '\n' ∧ c ≠ '\u2028' ∧ c ≠ '\u2029' := by
  simp [isBreak, and_assoc]

lemma isBreak_of_endsLine (h : endsLine c = false) : isBreak c = false := by
  simp only [endsLine, Bool.or_eq_false_iff] at h
  exact h.1.1

lemma ne_of_isNameChar {d : Char} (h : isNameChar c = true) (hd : isNameChar d = false) :
    c ≠ d := by
  rintro rfl
  rw [hd] at h
  contradiction

lemma isGap_of_isNameChar (h : isNameChar c = true) : isGap c = false :=
  isGap_eq_false.mpr ⟨ne_of_isNameChar h rfl, ne_of_isNameChar h rfl, isBreak_eq_false.mpr
    ⟨ne_of_isNameChar h rfl, ne_of_isNameChar h rfl, ne_of_isNameChar h rfl⟩⟩

lemma isNameChar_of_wordNext (h : WordNext (c :: cs)) : isNameChar c = true := by
  obtain ⟨hlow, hhigh⟩ := h c rfl
  simp [isNameChar, hlow, hhigh]

lemma next_of_not_isBreak (h : isBreak c = false) (m : Mark) :
    m.next c = ⟨m.line, m.column + 1⟩ := by
  rw [Mark.next, if_neg (Bool.eq_false_iff.mp h)]

lemma indentation_succ (n : Nat) : indentation (n + 1) = ' ' :: indentation n := rfl

/-! ### The end of a line -/

lemma scanPlain_indentation (first : Option Char) (more : List Char) (m : Mark) (k : Nat) :
    scanPlain ctx m (.broken first more) (indentation k ++ cs) =
      scanPlain ctx ⟨m.line, m.column + k⟩ (.broken first more) cs := by
  induction k generalizing m with
  | zero => rfl
  | succ k ih =>
    have hmark : m.next ' ' = ⟨m.line, m.column + 1⟩ := rfl
    rw [indentation_succ, List.cons_append, scanPlain, if_pos (by decide), if_neg (by simp), hmark]
    refine (ih _).trans ?_
    rw [Nat.add_assoc, Nat.add_comm 1 k]

/-- A plain scalar ends before a line that is not indented enough. -/
lemma scanPlain_lineEnd (hflow : ctx.flow = false) (hk : k < ctx.floor) (hnext : WordNext next)
    (m : Mark) : scanPlain ctx m .none ('\n' :: (indentation k ++ next)) =
      some (⟨[], ⟨m.line + 1, k⟩, next⟩, true) := by
  have hgap : Gap.extend .none '\n' = .broken (some '\n') [] := rfl
  have hmark : m.next '\n' = ⟨m.line + 1, 0⟩ := rfl
  rw [scanPlain, if_pos (by decide), if_neg (by simp [Gap.none, Gap.isBroken]), hgap, hmark,
    scanPlain_indentation, Nat.zero_add]
  cases next with
  | nil => rfl
  | cons c cs =>
    have hname : isNameChar c = true := isNameChar_of_wordNext hnext
    have hends : plainEnds ctx ⟨m.line + 1, k⟩ (.broken (some '\n') []) (c :: cs) = true := by
      simp [plainEnds, Gap.isEmpty, hflow, hk]
    rw [scanPlain, if_neg (by simp [isGap_of_isNameChar hname]), if_pos hends]
    rfl

/-! ### Keys -/

/-- A key ends before its colon. -/
lemma scanPlain_key {key rest : List Char} (hflow : ctx.flow = false)
    (hkey : ∀ c ∈ key, isNameChar c = true) (hgap : gapNext rest = true) (m : Mark) :
    scanPlain ctx m .none (key ++ ':' :: rest) =
      some (⟨key, ⟨m.line, m.column + key.length⟩, ':' :: rest⟩, false) := by
  induction key generalizing m with
  | nil =>
    have hends : plainEnds ctx m .none (':' :: rest) = true := by simp [plainEnds, hgap]
    rw [List.nil_append, scanPlain, if_neg (by decide), if_pos hends]
    rfl
  | cons c key ih =>
    have hname : isNameChar c = true := hkey c List.mem_cons_self
    have hcolon : c ≠ ':' := ne_of_isNameChar hname rfl
    have hends : plainEnds ctx m .none (c :: (key ++ ':' :: rest)) = false := by
      simp [plainEnds, hflow, hcolon, Gap.none, Gap.isEmpty]
    have hclash : plainClash ctx (c :: (key ++ ':' :: rest)) = false := by
      unfold plainClash
      split
      · next heq => exact absurd (List.cons.inj heq).1 hcolon
      · rfl
    have hrest := ih (fun d hd => hkey d (List.mem_cons_of_mem c hd)) (m.next c)
    rw [next_of_not_isBreak (isGap_eq_false.mp (isGap_of_isNameChar hname)).2.2] at hrest
    rw [List.cons_append, scanPlain, if_neg (by simp [isGap_of_isNameChar hname]),
      if_neg (by simp [hends]), if_neg (by simp [hclash]),
      next_of_not_isBreak (isGap_eq_false.mp (isGap_of_isNameChar hname)).2.2, hrest,
      List.length_cons]
    simp only [Option.map_some, Scanned.push, Gap.text_none, List.nil_append]
    rw [List.singleton_append, Nat.add_assoc, Nat.add_comm 1]

/-! ### Texts -/

lemma blankNext_of_gapNext {rest : List Char} (h : gapNext (cs ++ rest) = true) :
    blankNext cs = true := by
  cases cs with
  | nil => rfl
  | cons d ds =>
    have hd : isSpace d = true ∨ isBreak d = true := by simpa [gapNext, isGap] using h
    rcases hd with hd | hd <;> simp [blankNext, endsLine, hd]

/-- A plain scalar goes on with a character that may be written in it. -/
lemma plainEnds_eq_false {before : Char} {blanks l : List Char} (hflow : ctx.flow = false)
    (hcolumn : ctx.floor ≤ m.column) (hpos : 0 < m.column)
    (hindicator : holdsIndicator before (c :: cs) = false)
    (hblanks : blanks ≠ [] → before = ' ') :
    plainEnds ctx m (.inline blanks) (c :: (cs ++ l)) = false := by
  simp only [holdsIndicator, Bool.or_eq_false_iff, Bool.and_eq_false_iff] at hindicator
  obtain ⟨⟨hcolon, hhash⟩, -⟩ := hindicator
  have hcolon' : (c == ':' && gapNext (cs ++ l)) = false := by
    rw [Bool.and_eq_false_iff]
    refine hcolon.imp_right fun hblank => Bool.eq_false_iff.mpr fun hgap => ?_
    rw [blankNext_of_gapNext hgap] at hblank
    contradiction
  have hhash' : blanks ≠ [] → (c == '#') = false := by
    intro hne
    refine hhash.resolve_right ?_
    rw [hblanks hne]
    decide
  have hfloor : decide (m.column < ctx.floor) = false := decide_eq_false (Nat.not_lt.mpr hcolumn)
  have hzero : (m.column == 0) = false := beq_eq_false_iff_ne.mpr (Nat.ne_of_gt hpos)
  simp only [plainEnds, hcolon', hflow, hfloor, hzero, Bool.false_and, Bool.and_false,
    Bool.false_or, Bool.not_false]
  cases blanks with
  | nil => rfl
  | cons b bs => simpa [Gap.isEmpty] using hhash' (List.cons_ne_nil b bs)

lemma plainClash_eq_false (hflow : ctx.flow = false) (cs : List Char) :
    plainClash ctx cs = false := by
  unfold plainClash
  split
  · rw [hflow, Bool.false_and]
  · rfl

/-- **A text that was written plain is read back**, up to the start of the next line. -/
theorem scanPlain_text {before : Char} {blanks : List Char} (hflow : ctx.flow = false)
    (hk : k < ctx.floor) (hnext : WordNext next) (hcolumn : ctx.floor ≤ m.column)
    (hwritable : Writable cs) (hline : ∀ c ∈ cs, endsLine c = false)
    (hindicator : holdsIndicator before cs = false) (hback : cs.getLast? ≠ some ' ')
    (hblanks : blanks ≠ [] → before = ' ') (hnil : cs = [] → blanks = []) :
    scanPlain ctx m (.inline blanks) (cs ++ '\n' :: (indentation k ++ next)) =
      some (⟨blanks ++ cs, ⟨m.line + 1, k⟩, next⟩, true) := by
  induction cs generalizing m before blanks with
  | nil =>
    rw [hnil rfl]
    exact scanPlain_lineEnd hflow hk hnext m
  | cons c cs ih =>
    have hbreak : isBreak c = false := isBreak_of_endsLine (hline c List.mem_cons_self)
    have htab : c ≠ '\t' := ne_of_isSpecial (hwritable c List.mem_cons_self) rfl
    have hwritable' : Writable cs := (writable_cons.mp hwritable).2
    have hline' : ∀ d ∈ cs, endsLine d = false := fun d hd => hline d (List.mem_cons_of_mem c hd)
    have hindicator' : holdsIndicator c cs = false := by
      simp only [holdsIndicator, Bool.or_eq_false_iff] at hindicator
      exact hindicator.2
    have hback' : cs.getLast? ≠ some ' ' := by
      cases cs with
      | nil => simp
      | cons d ds => rwa [List.getLast?_cons_cons] at hback
    have hmark := next_of_not_isBreak hbreak m
    have hcolumn' : ctx.floor ≤ (m.next c).column := by
      rw [hmark]
      exact Nat.le_succ_of_le hcolumn
    by_cases hspace : c = ' '
    · subst hspace
      have hne : cs ≠ [] := by
        rintro rfl
        exact hback rfl
      have hrest : scanPlain ctx (m.next ' ') (.inline (blanks ++ [' ']))
          (cs ++ '\n' :: (indentation k ++ next)) =
          some (⟨blanks ++ [' '] ++ cs, ⟨(m.next ' ').line + 1, k⟩, next⟩, true) :=
        ih hcolumn' hwritable' hline' hindicator' hback' (fun _ => rfl) fun hcs => absurd hcs hne
      rw [List.cons_append, scanPlain, if_pos (by decide), if_neg (by simp [Gap.isBroken])]
      refine hrest.trans ?_
      rw [List.append_assoc, List.singleton_append, hmark]
    · have hgap : isGap c = false := isGap_eq_false.mpr ⟨hspace, htab, hbreak⟩
      have hends := plainEnds_eq_false (l := '\n' :: (indentation k ++ next)) hflow hcolumn
        (by omega) hindicator hblanks
      have hrest : scanPlain ctx (m.next c) .none (cs ++ '\n' :: (indentation k ++ next)) =
          some (⟨cs, ⟨(m.next c).line + 1, k⟩, next⟩, true) :=
        ih hcolumn' hwritable' hline' hindicator' hback' (fun h => absurd rfl h) fun _ => rfl
      rw [List.cons_append, scanPlain, if_neg (Bool.eq_false_iff.mp hgap),
        if_neg (Bool.eq_false_iff.mp hends),
        if_neg (Bool.eq_false_iff.mp (plainClash_eq_false hflow _))]
      refine (congrArg _ hrest).trans ?_
      simp [Scanned.push, Gap.text, hmark]

end Inlay.Yaml
