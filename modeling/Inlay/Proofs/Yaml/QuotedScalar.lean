import Mathlib.Tactic.Ring
import Inlay.Proofs.Yaml.PlainScalar
import Inlay.Yaml.Quoted

/-!
Quoted scalars read back. Between single quotes a line break stands for itself if no blank is next
to it, since blanks there belong to the layout. Between double quotes all characters but blanks and
those that need no escape come as escapes, one after the other.
-/

namespace Inlay.Yaml

variable {m : Mark} {gap : Gap} {c : Char} {cs rest : List Char} {n : Nat} {fresh : Bool}

lemma Scanned.push_push (a b : List Char) (s : Scanned) : (s.push b).push a = s.push (a ++ b) := by
  simp [Scanned.push]

lemma column_next_pos (h : isBreak c = false) (m : Mark) : 0 < (m.next c).column := by
  rw [next_of_not_isBreak h]
  exact Nat.succ_pos _

lemma quotedClash_eq_false (hpos : 0 < m.column) (cs : List Char) : quotedClash m cs = false := by
  rw [quotedClash, beq_eq_false_iff_ne.mpr (Nat.ne_of_gt hpos), Bool.false_and]

/-! ### Single quotes -/

/-- The gap that has been read before the rest of a text, which can be told from the layout. -/
inductive Follows (cs : List Char) : Bool → Gap → Prop
  | inline {blanks : List Char} (hhead : blanks ≠ [] → ∀ c ∈ cs.head?, isBreak c = false) :
      Follows cs false (.inline blanks)
  | broken {b : Char} {more : List Char} (hb : b ≠ '\n') (hhead : cs.head? ≠ some ' ') :
      Follows cs true (.broken (some b) more)

lemma follows_none (cs : List Char) : Follows cs false .none :=
  .inline fun h => absurd rfl h

lemma SingleText.tail (h : SingleText (c :: cs)) : SingleText cs where
  line hmem := h.line (List.mem_cons_of_mem c hmem)
  writable := (writable_cons.mp h.writable).2
  before := by
    have hbefore := h.before
    cases cs with
    | nil => rfl
    | cons d ds =>
      rw [spaceThenBreak, Bool.or_eq_false_iff] at hbefore
      exact hbefore.2
  after := by
    have hafter := h.after
    cases cs with
    | nil => rfl
    | cons d ds =>
      rw [breakThenSpace, Bool.or_eq_false_iff] at hafter
      exact hafter.2

/-- A space stands before no line break. -/
lemma SingleText.head_after_space (h : SingleText (' ' :: cs)) :
    ∀ c ∈ cs.head?, isBreak c = false := by
  have hbefore := h.before
  cases cs with
  | nil => exact nofun
  | cons d ds =>
    rw [spaceThenBreak, Bool.or_eq_false_iff, Bool.and_eq_false_iff] at hbefore
    rintro c ⟨⟩
    exact isBreak_of_endsLine (hbefore.1.resolve_left (by decide))

/-- No space stands after a line break. -/
lemma SingleText.head_after_break (h : SingleText (c :: cs)) (hbreak : isBreak c = true) :
    cs.head? ≠ some ' ' := by
  have hafter := h.after
  cases cs with
  | nil => exact nofun
  | cons d ds =>
    rw [breakThenSpace, Bool.or_eq_false_iff, Bool.and_eq_false_iff] at hafter
    have hends : endsLine c = true := by simp [endsLine, hbreak]
    rintro ⟨⟩
    rw [hends] at hafter
    simp at hafter

lemma Follows.extend_space (h : Follows (' ' :: cs) fresh gap) (hcs : SingleText (' ' :: cs)) :
    fresh = false ∧ Follows cs false (gap.extend ' ') ∧
      (gap.extend ' ').text = gap.text ++ [' '] := by
  cases h with
  | inline _ => exact ⟨rfl, .inline fun _ => hcs.head_after_space, rfl⟩
  | broken _ hhead => exact absurd rfl hhead

lemma Follows.extend_break (h : Follows (c :: cs) fresh gap) (hcs : SingleText (c :: cs))
    (hbreak : isBreak c = true) :
    Follows cs true (gap.extend c) ∧ (gap.extend c).text = gap.text ++ [c] := by
  have hline : c ≠ '\n' := fun heq => hcs.line (heq ▸ List.mem_cons_self)
  cases h with
  | @inline blanks hhead =>
    have hblanks : blanks = [] := by
      by_contra hne
      rw [hhead hne c rfl] at hbreak
      contradiction
    subst hblanks
    have hextend : Gap.extend (.inline []) c = .broken (some c) [] := if_pos hbreak
    rw [hextend]
    exact ⟨.broken hline (hcs.head_after_break hbreak), by simp [Gap.text, hline]⟩
  | @broken b more hb _ =>
    have hextend : Gap.extend (.broken (some b) more) c = .broken (some b) (more ++ [c]) := by
      simp [Gap.extend, hbreak]
    rw [hextend]
    exact ⟨.broken hb (hcs.head_after_break hbreak), by simp [Gap.text, hb]⟩

lemma scanSingle_gap (hquote : c ≠ '\'') (hgap : isGap c = true) :
    scanSingle m gap (c :: cs) = scanSingle (m.next c) (gap.extend c) cs := by
  simp [scanSingle, hquote, hgap]

lemma scanSingle_char (hquote : c ≠ '\'') (hgap : isGap c = false) (hpos : 0 < m.column) :
    scanSingle m gap (c :: cs) =
      (scanSingle (m.next c) .none cs).map (·.push (gap.text ++ [c])) := by
  simp [scanSingle, hquote, hgap, quotedClash_eq_false hpos]

lemma scanSingle_stop (hrest : rest.head? ≠ some '\'') :
    scanSingle m gap ('\'' :: rest) = some ⟨gap.text, m.next '\'', rest⟩ := by
  cases rest with
  | nil => rfl
  | cons d ds =>
    have hd : d ≠ '\'' := fun heq => hrest (heq ▸ rfl)
    simp [scanSingle, hd]

/-- The indentation of a line is no part of the text. -/
lemma scanSingle_indentation (hgap : gap.isBroken = true) (m : Mark) (n : Nat) :
    scanSingle m gap (indentation n ++ cs) = scanSingle ⟨m.line, m.column + n⟩ gap cs := by
  induction n generalizing m with
  | zero => rfl
  | succ n ih =>
    have hextend : gap.extend ' ' = gap := by
      cases gap with
      | inline _ => contradiction
      | broken first more => rfl
    rw [indentation_succ, List.cons_append, scanSingle_gap (by decide) rfl, hextend, ih]
    have hmark : m.next ' ' = ⟨m.line, m.column + 1⟩ := rfl
    rw [hmark, Nat.add_assoc, Nat.add_comm 1 n]

/-- What is written before a character that starts a line is passed over. -/
lemma scanSingle_front (hn : 0 < n) (hgap : Follows cs fresh gap)
    (hpos : fresh = false → 0 < m.column) : ∃ v : Mark, 0 < v.column ∧ ∀ l,
      scanSingle m gap ((if fresh then indentation n else []) ++ l) = scanSingle v gap l := by
  cases hgap with
  | inline _ => exact ⟨m, hpos rfl, fun l => rfl⟩
  | broken _ _ =>
    exact ⟨⟨m.line, m.column + n⟩, Nat.lt_add_left _ hn, fun l => scanSingle_indentation rfl m n⟩

/-- **A text that was written in single quotes is read back.** -/
theorem scanSingle_text (hn : 0 < n) (hcs : SingleText cs) (hgap : Follows cs fresh gap)
    (hpos : fresh = false → 0 < m.column) (hrest : rest.head? ≠ some '\'') :
    ∃ v, scanSingle m gap (printSingle n fresh cs ++ '\'' :: rest) =
      some ⟨gap.text ++ cs, v, rest⟩ := by
  induction cs generalizing m gap fresh with
  | nil =>
    obtain ⟨v, -, hv⟩ := scanSingle_front hn hgap hpos
    refine ⟨v.next '\'', ?_⟩
    rw [printSingle, hv, scanSingle_stop hrest, List.append_nil]
  | cons c cs ih =>
    rw [printSingle]
    split
    · next hbreak =>
      obtain ⟨hfollows, htext⟩ := hgap.extend_break hcs hbreak
      have hquote : c ≠ '\'' := by
        rintro rfl
        contradiction
      obtain ⟨v, hv⟩ := ih hcs.tail hfollows (m := m.next c) fun h => absurd h (by decide)
      refine ⟨v, ?_⟩
      rw [List.cons_append, scanSingle_gap hquote (by simp [isGap, hbreak]), hv, htext]
      simp
    · next hbreak =>
      have hbreak : isBreak c = false := Bool.eq_false_iff.mpr hbreak
      obtain ⟨v, hv, hfront⟩ := scanSingle_front hn hgap hpos
      rw [List.append_assoc, List.append_assoc, hfront]
      by_cases hspace : c = ' '
      · subst hspace
        obtain ⟨rfl, hfollows, htext⟩ := hgap.extend_space hcs
        obtain ⟨w, hw⟩ := ih hcs.tail hfollows (m := v.next ' ') fun _ => column_next_pos rfl v
        refine ⟨w, ?_⟩
        rw [if_neg (by decide), List.singleton_append, scanSingle_gap (by decide) rfl, hw, htext]
        simp
      · by_cases hquote : c = '\''
        · subst hquote
          obtain ⟨w, hw⟩ := ih hcs.tail (follows_none cs) (m := (v.next '\'').next '\'')
            fun _ => column_next_pos rfl _
          refine ⟨w, ?_⟩
          rw [if_pos rfl]
          refine (congrArg _ hw).trans ?_
          simp [Scanned.push]
        · have htab : c ≠ '\t' := ne_of_isSpecial (writable_cons.mp hcs.writable).1 rfl
          obtain ⟨w, hw⟩ := ih hcs.tail (follows_none cs) (m := v.next c)
            fun _ => column_next_pos hbreak v
          refine ⟨w, ?_⟩
          rw [if_neg hquote, List.singleton_append,
            scanSingle_char hquote (isGap_eq_false.mpr ⟨hspace, htab, hbreak⟩) hv, hw]
          simp [Scanned.push]

/-! ### Double quotes -/

lemma hexValue?_hexDigit {d : Nat} (h : d < 16) : hexValue? (hexDigit d) = some d := by
  revert d
  decide

lemma isBreak_hexDigit {d : Nat} (h : d < 16) : isBreak (hexDigit d) = false := by
  revert d
  decide

/-- The digit in front comes first. -/
lemma hexDigits_succ (width n : Nat) :
    hexDigits (width + 1) n = hexDigit (n / 16 ^ width % 16) :: hexDigits width n := by
  induction width generalizing n with
  | zero => simp [hexDigits]
  | succ width ih =>
    have hdiv : n / 16 / 16 ^ width = n / 16 ^ (width + 1) := by
      rw [Nat.div_div_eq_div_mul, Nat.pow_succ, Nat.mul_comm]
    rw [hexDigits, ih, List.cons_append, hdiv]
    rfl

lemma charOfCode?_toNat (c : Char) : charOfCode? c.toNat = some c := by
  have hvalid : c.toNat.isValidChar := c.valid
  rw [charOfCode?, if_pos hvalid, Char.ofNat_toNat]

/-- The digits of a code are read until all of them are there. -/
lemma scanDouble_code (width value n : Nat) (m : Mark) : ∃ v : Mark, 0 < v.column ∧ ∀ l,
    scanDouble m .none (.code (width + 1) value) (hexDigits (width + 1) n ++ l) =
      (charOfCode? (value * 16 ^ (width + 1) + n % 16 ^ (width + 1))).bind fun e =>
        (scanDouble v .none .off l).map (·.push [e]) := by
  induction width generalizing value m with
  | zero =>
    have hdigit : n % 16 < 16 := Nat.mod_lt n (by decide)
    refine ⟨m.next (hexDigit (n % 16)), column_next_pos (isBreak_hexDigit hdigit) m, fun l => ?_⟩
    rw [hexDigits_succ]
    simp [scanDouble, hexDigits, hexValue?_hexDigit hdigit]
  | succ width ih =>
    have hdigit : n / 16 ^ (width + 1) % 16 < 16 := Nat.mod_lt _ (by decide)
    obtain ⟨v, hv, hrest⟩ := ih (value * 16 + n / 16 ^ (width + 1) % 16)
      (m.next (hexDigit (n / 16 ^ (width + 1) % 16)))
    refine ⟨v, hv, fun l => ?_⟩
    have hvalue : (value * 16 + n / 16 ^ (width + 1) % 16) * 16 ^ (width + 1) +
        n % 16 ^ (width + 1) = value * 16 ^ (width + 2) + n % 16 ^ (width + 2) := by
      have hmod : n % 16 ^ (width + 2) =
          n % 16 ^ (width + 1) + 16 ^ (width + 1) * (n / 16 ^ (width + 1) % 16) :=
        Nat.mod_pow_succ
      rw [hmod]
      ring
    rw [hvalue] at hrest
    rw [hexDigits_succ, ← hrest l, List.cons_append, scanDouble]
    simp [hexValue?_hexDigit hdigit]

/-- What the letter of a short escape stands for. -/
lemma escapeChar?_of_escapeLetter? {l : Char} (h : escapeLetter? c = some l) :
    isBreak l = false ∧ codeLength? l = none ∧ escapeChar? l = some c := by
  unfold escapeLetter? at h
  split at h <;> first | (cases h; exact ⟨rfl, rfl, rfl⟩) | contradiction

/-- A backslash starts an escape. -/
lemma scanDouble_backslash (hpos : 0 < m.column) (l : List Char) :
    scanDouble m gap .off ('\\' :: l) =
      (scanDouble (m.next '\\') .none .begun l).map (·.push gap.text) := by
  have hgap : isGap '\\' = false := rfl
  simp [scanDouble, hgap, quotedClash_eq_false hpos]

lemma scanDouble_codeEscape {x : Char} {width : Nat} (hx : codeLength? x = some (width + 1))
    (hbreak : isBreak x = false) (hc : c.toNat < 16 ^ (width + 1)) (hpos : 0 < m.column) :
    ∃ v : Mark, 0 < v.column ∧ ∀ l,
      scanDouble m gap .off ('\\' :: x :: hexDigits (width + 1) c.toNat ++ l) =
        (scanDouble v .none .off l).map (·.push (gap.text ++ [c])) := by
  obtain ⟨v, hv, hcode⟩ := scanDouble_code width 0 c.toNat ((m.next '\\').next x)
  refine ⟨v, hv, fun l => ?_⟩
  rw [Nat.zero_mul, Nat.zero_add, Nat.mod_eq_of_lt hc, charOfCode?_toNat] at hcode
  rw [List.cons_append, List.cons_append, scanDouble_backslash hpos, scanDouble]
  simp only [hbreak, hx, Bool.false_eq_true, if_false, hcode, Option.bind_some, Option.map_map]
  refine congrArg (Option.map · _) (funext fun s => Scanned.push_push _ _ _)

/-- **A character between double quotes is read back**, whether it is escaped or not. -/
theorem scanDouble_escapeDouble (hspace : c ≠ ' ') (hpos : 0 < m.column) :
    ∃ v : Mark, 0 < v.column ∧ ∀ l, scanDouble m gap .off (escapeDouble c ++ l) =
      (scanDouble v .none .off l).map (·.push (gap.text ++ [c])) := by
  have hmax : c.toNat < 0x110000 := by
    have hvalid : c.toNat < 0xD800 ∨ 0xDFFF < c.toNat ∧ c.toNat < 0x110000 := c.valid
    omega
  unfold escapeDouble
  split
  · split
    · next letter hletter =>
      obtain ⟨hbreak, hcode, hchar⟩ := escapeChar?_of_escapeLetter? hletter
      refine ⟨(m.next '\\').next letter, column_next_pos hbreak _, fun l => ?_⟩
      rw [List.cons_append, List.singleton_append, scanDouble_backslash hpos, scanDouble]
      simp only [hbreak, hcode, hchar, Bool.false_eq_true, if_false, Option.bind_some,
        Option.map_map]
      exact congrArg (Option.map · _) (funext fun s => Scanned.push_push _ _ _)
    · split
      · next hlow => exact scanDouble_codeEscape (x := 'x') rfl rfl (by omega) hpos
      · split
        · next hmid => exact scanDouble_codeEscape (x := 'u') rfl rfl (by omega) hpos
        · exact scanDouble_codeEscape (x := 'U') rfl rfl (by omega) hpos
  · next hplain =>
    simp only [Bool.or_eq_true, not_or, Bool.not_eq_true, beq_iff_eq] at hplain
    obtain ⟨⟨⟨hspecial, hline⟩, hquote⟩, hslash⟩ := hplain
    have hbreak : isBreak c = false := isBreak_of_endsLine hline
    have hgap : isGap c = false :=
      isGap_eq_false.mpr ⟨hspace, ne_of_isSpecial hspecial rfl, hbreak⟩
    refine ⟨m.next c, column_next_pos hbreak m, fun l => ?_⟩
    simp [scanDouble, hgap, hquote, hslash, quotedClash_eq_false hpos]

/-- **A text that was written in double quotes is read back.** -/
theorem scanDouble_text {blanks : List Char} (hpos : 0 < m.column) : ∃ v,
    scanDouble m (.inline blanks) .off (cs.flatMap escapeDouble ++ '"' :: rest) =
      some ⟨blanks ++ cs, v, rest⟩ := by
  induction cs generalizing m blanks with
  | nil =>
    refine ⟨m.next '"', ?_⟩
    have hgap : isGap '"' = false := rfl
    simp [scanDouble, hgap, Gap.text]
  | cons c cs ih =>
    rw [List.flatMap_cons, List.append_assoc]
    by_cases hspace : c = ' '
    · subst hspace
      obtain ⟨v, hv⟩ : ∃ v, scanDouble (m.next ' ') (.inline (blanks ++ [' '])) .off
          (cs.flatMap escapeDouble ++ '"' :: rest) = some ⟨blanks ++ [' '] ++ cs, v, rest⟩ :=
        ih (column_next_pos rfl m)
      refine ⟨v, ?_⟩
      have hescape : escapeDouble ' ' = [' '] := rfl
      rw [hescape, List.singleton_append, scanDouble, if_pos (by decide)]
      refine hv.trans ?_
      rw [List.append_assoc, List.singleton_append]
    · obtain ⟨v, hv, hchar⟩ : ∃ v : Mark, 0 < v.column ∧ ∀ l,
          scanDouble m (.inline blanks) .off (escapeDouble c ++ l) =
            (scanDouble v .none .off l).map (·.push (blanks ++ [c])) :=
        scanDouble_escapeDouble hspace hpos
      obtain ⟨w, hw⟩ : ∃ w, scanDouble v (.inline []) .off
          (cs.flatMap escapeDouble ++ '"' :: rest) = some ⟨[] ++ cs, w, rest⟩ := ih hv
      refine ⟨w, ?_⟩
      rw [hchar]
      refine (congrArg _ hw).trans ?_
      simp [Scanned.push]

end Inlay.Yaml
