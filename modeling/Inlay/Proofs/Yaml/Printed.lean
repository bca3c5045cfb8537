import Mathlib.Data.List.Basic
import Inlay.Yaml.Lexer
import Inlay.Yaml.Print

/-!
The characters of a text that has been written as a scalar. All of them may occur in a stream, and
none of those that end a line needs to be unified with the others.
-/

namespace Inlay.Yaml

/-- No character needs an escape. -/
def Writable (cs : List Char) : Prop := ∀ c ∈ cs, isSpecial c = false

/-- What is known of a text that is written plain. -/
structure PlainText (cs : List Char) : Prop where
  clear : isAmbiguous cs = false
  writable : Writable cs
  marker : startsAsMarker cs = false
  start : startsAsIndicator cs = false
  indicator : holdsIndicator 'x' cs = false
  line : ∀ c ∈ cs, endsLine c = false
  front : cs.head? ≠ some ' '
  back : cs.getLast? ≠ some ' '

/-- What is known of a text that is written in single quotes. -/
structure SingleText (cs : List Char) : Prop where
  line : '\n' ∉ cs
  writable : Writable cs
  before : spaceThenBreak cs = false
  after : breakThenSpace cs = false

/-- What is known of a text that is written as a literal block. -/
structure LiteralText (cs : List Char) : Prop where
  line : '\n' ∈ cs
  writable : Writable cs

variable {c : Char} {cs : List Char}

/-! ### Streams of such characters -/

lemma toNat_of_not_isSpecial (h : isSpecial c = false) :
    c.toNat = 0x0A ∨ (0x20 ≤ c.toNat ∧ c.toNat ≤ 0x7E) ∨
      (0xA0 ≤ c.toNat ∧ c.toNat ≠ 0xFEFF ∧ c.toNat ≠ 0xFFFE ∧ c.toNat ≠ 0xFFFF) := by
  simp only [isSpecial, Bool.not_eq_false', Bool.or_eq_true, Bool.and_eq_true, beq_iff_eq,
    decide_eq_true_eq] at h
  omega

lemma ne_of_isSpecial {d : Char} (h : isSpecial c = false) (hd : isSpecial d = true) : c ≠ d := by
  rintro rfl
  rw [h] at hd
  contradiction

lemma isAllowed_of_not_isSpecial (h : isSpecial c = false) : isAllowed c = true := by
  have hvalid : c.toNat < 0xD800 ∨ 0xDFFF < c.toNat ∧ c.toNat < 0x110000 := c.valid
  have hnat := toNat_of_not_isSpecial h
  simp only [isAllowed, Bool.or_eq_true, Bool.and_eq_true, beq_iff_eq, decide_eq_true_eq]
  omega

lemma unifyBreaks_of_writable (h : Writable cs) : unifyBreaks cs = cs := by
  induction cs with
  | nil => rfl
  | cons c cs ih =>
    have hc : isSpecial c = false := h c List.mem_cons_self
    have hreturn : c ≠ '\r' := ne_of_isSpecial hc (by decide)
    have hnext : c ≠ '\u0085' := ne_of_isSpecial hc (by decide)
    have hrest := ih fun d hd => h d (List.mem_cons_of_mem c hd)
    unfold unifyBreaks
    split
    · contradiction
    · next heq => exact absurd (List.cons.inj heq).1 hreturn
    · next d ds _ heq =>
      obtain ⟨rfl, rfl⟩ := List.cons.inj heq
      rw [if_neg (not_or.mpr ⟨hreturn, hnext⟩), hrest]

/-- Nothing is refused or changed before such a stream is cut into tokens. -/
lemma tokens?_of_writable (h : Writable cs) : tokens? cs = (Lexer.new cs).run? := by
  have hall : cs.all isAllowed = true :=
    List.all_eq_true.mpr fun c hc => isAllowed_of_not_isSpecial (h c hc)
  rw [tokens?, if_pos hall, unifyBreaks_of_writable h]

/-! ### Texts by the way in which they are written -/

lemma writable_iff (cs : List Char) : Writable cs ↔ cs.any isSpecial = false := by
  simp [Writable]

/-- Read off the Boolean test, and not by a search for a character. -/
instance (cs : List Char) : Decidable (Writable cs) := decidable_of_iff' _ (writable_iff cs)

lemma plainText_of_styleOf (h : styleOf cs = .plain) : PlainText cs := by
  unfold styleOf at h
  split at h
  · split at h <;> contradiction
  · split at h
    · next hplain =>
      simp only [plainAllowed, Bool.and_eq_true, Bool.not_eq_true', Bool.or_eq_false_iff,
        beq_eq_false_iff_ne] at hplain
      obtain ⟨hclear, ⟨⟨⟨⟨⟨⟨hmarker, hstart⟩, hindicator⟩, hspecial⟩, hline⟩, hfront⟩, hback⟩⟩ :=
        hplain
      exact ⟨hclear, (writable_iff _).mpr hspecial, hmarker, hstart, hindicator,
        fun c hc => Bool.eq_false_iff.mpr (List.any_eq_false.mp hline c hc), hfront, hback⟩
    · split at h <;> contradiction

lemma singleText_of_styleOf (h : styleOf cs = .single) : SingleText cs := by
  unfold styleOf at h
  split at h
  · split at h <;> contradiction
  · next hline =>
    split at h
    · contradiction
    · split at h
      · next hsingle =>
        simp only [singleAllowed, Bool.not_eq_true', Bool.or_eq_false_iff] at hsingle
        obtain ⟨⟨hspecial, hbefore⟩, hafter⟩ := hsingle
        exact ⟨by simpa using hline, (writable_iff _).mpr hspecial, hbefore, hafter⟩
      · contradiction

lemma literalText_of_styleOf (h : styleOf cs = .literal) : LiteralText cs := by
  unfold styleOf at h
  split at h
  · next hline =>
    split at h
    · next hliteral =>
      simp only [literalAllowed, Bool.not_eq_true', Bool.or_eq_false_iff] at hliteral
      exact ⟨by simpa using hline, (writable_iff _).mpr hliteral.1.1⟩
    · contradiction
  · split at h
    · contradiction
    · split at h <;> contradiction

/-! ### What is written -/

lemma writable_nil : Writable [] := fun _ h => nomatch h

lemma writable_cons : Writable (c :: cs) ↔ isSpecial c = false ∧ Writable cs := by
  simp [Writable]

lemma writable_append {a b : List Char} : Writable (a ++ b) ↔ Writable a ∧ Writable b := by
  simp only [Writable, List.mem_append, or_imp, forall_and]

lemma writable_indentation (n : Nat) : Writable (indentation n) := by
  intro c hc
  rw [(List.mem_replicate.mp hc).2]
  rfl

/-- A line is indented at its first character. -/
lemma writable_front (n : Nat) (fresh : Bool) :
    Writable (if fresh then indentation n else []) := by
  split
  · exact writable_indentation n
  · exact writable_nil

lemma writable_printSingle (h : Writable cs) (n : Nat) (fresh : Bool) :
    Writable (printSingle n fresh cs) := by
  induction cs generalizing fresh with
  | nil => exact writable_front n fresh
  | cons c cs ih =>
    rw [writable_cons] at h
    rw [printSingle]
    split
    · exact writable_cons.mpr ⟨h.1, ih h.2 true⟩
    · refine writable_append.mpr ⟨writable_append.mpr ⟨writable_front n fresh, ?_⟩, ih h.2 false⟩
      split
      · decide
      · exact writable_cons.mpr ⟨h.1, writable_nil⟩

lemma writable_printLines (h : Writable cs) (n : Nat) (fresh : Bool) :
    Writable (printLines n fresh cs) := by
  induction cs generalizing fresh with
  | nil => exact writable_nil
  | cons c cs ih =>
    rw [writable_cons] at h
    rw [printLines]
    split
    · exact writable_cons.mpr ⟨h.1, ih h.2 true⟩
    · exact writable_append.mpr ⟨writable_front n fresh, writable_cons.mpr ⟨h.1, ih h.2 false⟩⟩

lemma hexDigit_not_isSpecial {n : Nat} (h : n < 16) : isSpecial (hexDigit n) = false := by
  revert n
  decide

lemma writable_hexDigits (width n : Nat) : Writable (hexDigits width n) := by
  induction width generalizing n with
  | zero => exact writable_nil
  | succ width ih =>
    refine writable_append.mpr ⟨ih _, writable_cons.mpr ⟨?_, writable_nil⟩⟩
    exact hexDigit_not_isSpecial (Nat.mod_lt n (by decide))

lemma escapeLetter_not_isSpecial {l : Char} (h : escapeLetter? c = some l) :
    isSpecial l = false := by
  unfold escapeLetter? at h
  split at h <;> first | (cases h; rfl) | contradiction

lemma writable_escapeDouble (c : Char) : Writable (escapeDouble c) := by
  unfold escapeDouble
  split
  · split
    · next l hl =>
      have hletter : Writable [l] := writable_cons.mpr ⟨escapeLetter_not_isSpecial hl, writable_nil⟩
      exact writable_cons.mpr ⟨rfl, hletter⟩
    · have hcode : ∀ x width, isSpecial x = false →
          Writable ('\\' :: x :: hexDigits width c.toNat) := fun x width hx =>
        writable_cons.mpr ⟨rfl, writable_cons.mpr ⟨hx, writable_hexDigits width _⟩⟩
      split
      · exact hcode 'x' 2 rfl
      · split
        · exact hcode 'u' 4 rfl
        · exact hcode 'U' 8 rfl
  · next h =>
    rw [Bool.or_eq_true, Bool.or_eq_true, Bool.or_eq_true] at h
    have hc : isSpecial c = false :=
      Bool.eq_false_iff.mpr fun hs => h (Or.inl (Or.inl (Or.inl hs)))
    exact writable_cons.mpr ⟨hc, writable_nil⟩

lemma writable_indentMark (cs : List Char) : Writable (indentMark cs) := by
  unfold indentMark
  split <;> decide

lemma writable_chompMark (cs : List Char) : Writable (chompMark cs) := by
  unfold chompMark
  split
  · decide
  · split
    · decide
    · split
      · decide
      · split <;> decide

/-- Whatever the text is, it is written with characters that need no escape. -/
theorem writable_printScalar (n : Nat) (cs : List Char) : Writable (printScalar n cs) := by
  unfold printScalar
  split
  · next hstyle =>
    exact writable_append.mpr ⟨(plainText_of_styleOf hstyle).writable, by decide⟩
  · next hstyle =>
    have hbody := writable_printSingle (singleText_of_styleOf hstyle).writable n false
    exact writable_append.mpr ⟨writable_cons.mpr ⟨rfl, hbody⟩, by decide⟩
  · have hbody : Writable (cs.flatMap escapeDouble) := by
      intro c hc
      obtain ⟨d, -, hd⟩ := List.mem_flatMap.mp hc
      exact writable_escapeDouble d c hd
    exact writable_append.mpr ⟨writable_cons.mpr ⟨rfl, hbody⟩, by decide⟩
  · next hstyle =>
    have hhead : Writable ('|' :: indentMark cs ++ chompMark cs) := writable_append.mpr
      ⟨writable_cons.mpr ⟨rfl, writable_indentMark cs⟩, writable_chompMark cs⟩
    have hbody := writable_printLines (literalText_of_styleOf hstyle).writable n true
    refine writable_append.mpr
      ⟨writable_append.mpr ⟨hhead, writable_cons.mpr ⟨rfl, hbody⟩⟩, ?_⟩
    split <;> decide

end Inlay.Yaml
