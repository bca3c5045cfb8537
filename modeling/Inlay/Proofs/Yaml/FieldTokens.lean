import Mathlib.Data.List.TakeWhile
import Inlay.Proofs.Yaml.LiteralScalar
import Inlay.Proofs.Yaml.QuotedScalar

/-!
The tokens of a field: a key, a colon and a text as its value. The lexer arrives at the key with
nothing pending, recognises it when the colon comes, and reads the value in whatever way it was
written; then it arrives at the next line. The first field of a mapping opens the mapping.
-/

namespace Inlay.Yaml

/-- The least column of what belongs to the innermost of the collections with these columns. -/
def floorOf : List Nat → Nat
  | [] => 0
  | i :: _ => i + 1

/-- The columns of the open collections after a key at column `n`. -/
def opened (n : Nat) (indents : List Nat) : List Nat :=
  if n < floorOf indents then indents else n :: indents

def keyTokens (n : Nat) (indents : List Nat) (key : List Char) : List Token :=
  (if n < floorOf indents then [] else [.blockMappingStart]) ++ [.key, .scalar true key, .value]

def isPlain (cs : List Char) : Bool := decide (styleOf cs = .plain)

namespace Lexer

/-- Between two tokens of a block, with nothing pending. -/
def block (rest : List Char) (mark : Mark) (indents : List Nat) (keyAllowed : Bool)
    (tokens : List Token) : Lexer := ⟨rest, mark, indents, keyAllowed, none, [], tokens⟩

/-- The next token stands at column `k`, where a key may start. -/
def Arrives (l : Lexer) (rest : List Char) (k : Nat) (indents : List Nat) (tokens : List Token) :
    Prop :=
  ∃ line, l.advance? = some (block rest ⟨line, k⟩ indents true tokens)

variable {l a next : Lexer} {c : Char} {cs key rest tail : List Char} {m : Mark} {n k : Nat}
  {indents : List Nat} {tokens : List Token} {keyAllowed : Bool}

/-! ### What stands between tokens -/

lemma skipGap_char (hgap : isGap c = false) (hhash : c ≠ '#')
    (hmark : c ≠ byteOrderMark ∨ m.column ≠ 0) (flow : Bool) (cs : List Char) :
    skipGap flow m keyAllowed false (c :: cs) = (m, keyAllowed, c :: cs) := by
  obtain ⟨hspace, htab, hbreak⟩ := isGap_eq_false.mp hgap
  have horder : (c == byteOrderMark && m.column == 0) = false := by
    simpa using hmark.resolve_left ∘ not_not_intro
  simp [skipGap, hbreak, hspace, htab, hhash, horder]

lemma skipGap_word (hrest : WordNext rest) (flow : Bool) (m : Mark) :
    skipGap flow m keyAllowed false rest = (m, keyAllowed, rest) := by
  cases rest with
  | nil => rfl
  | cons c cs =>
    have hname : isNameChar c = true := isNameChar_of_wordNext hrest
    exact skipGap_char (isGap_of_isNameChar hname) (ne_of_isNameChar hname rfl)
      (Or.inl (ne_of_isNameChar hname rfl)) flow cs

lemma skipGap_indentation (flow : Bool) (m : Mark) (k : Nat) (cs : List Char) :
    skipGap flow m keyAllowed false (indentation k ++ cs) =
      skipGap flow ⟨m.line, m.column + k⟩ keyAllowed false cs := by
  induction k generalizing m with
  | zero => rfl
  | succ k ih =>
    have hspace : skipGap flow m keyAllowed false (' ' :: (indentation k ++ cs)) =
        skipGap flow ⟨m.line, m.column + 1⟩ keyAllowed false (indentation k ++ cs) := rfl
    rw [indentation_succ, List.cons_append, hspace, ih, Nat.add_assoc, Nat.add_comm 1 k]

/-- After a line break a key may start. -/
lemma skipGap_lineEnd (hrest : WordNext rest) (m : Mark) (k : Nat) :
    skipGap false m keyAllowed false ('\n' :: (indentation k ++ rest)) =
      (⟨m.line + 1, k⟩, true, rest) := by
  have hbreak : skipGap false m keyAllowed false ('\n' :: (indentation k ++ rest)) =
      skipGap false ⟨m.line + 1, 0⟩ (keyAllowed || true) false (indentation k ++ rest) := rfl
  rw [hbreak, skipGap_indentation, skipGap_word hrest, Bool.or_true, Nat.zero_add]

lemma length_skipGap (flow : Bool) (m : Mark) (keyAllowed comment : Bool) (cs : List Char) :
    (skipGap flow m keyAllowed comment cs).2.2.length ≤ cs.length := by
  induction cs generalizing m keyAllowed comment with
  | nil => exact Nat.le_refl _
  | cons c cs ih =>
    rw [skipGap]
    split
    · exact Nat.le_succ_of_le (ih _ _ _)
    · split
      · exact Nat.le_succ_of_le (ih _ _ _)
      · split
        · exact Nat.le_succ_of_le (ih _ _ _)
        · exact Nat.le_refl _

lemma advance?_block (indents : List Nat) (tokens : List Token) :
    (block rest m indents keyAllowed tokens).advance? =
      some (block (skipGap false m keyAllowed false rest).2.2
        (skipGap false m keyAllowed false rest).1 indents
        (skipGap false m keyAllowed false rest).2.1 tokens) := rfl

lemma arrives_lineEnd (hrest : WordNext rest) (m : Mark) (k : Nat) (indents : List Nat)
    (tokens : List Token) :
    Arrives (block ('\n' :: (indentation k ++ rest)) m indents keyAllowed tokens) rest k indents
      tokens := by
  refine ⟨m.line + 1, ?_⟩
  rw [advance?_block, skipGap_lineEnd hrest]

lemma arrives_word (hrest : WordNext rest) (line k : Nat) (indents : List Nat)
    (tokens : List Token) :
    Arrives (block rest ⟨line, k⟩ indents true tokens) rest k indents tokens := by
  refine ⟨line, ?_⟩
  rw [advance?_block, skipGap_word hrest]

lemma length_advance? (h : l.advance? = some a) : a.rest.length ≤ l.rest.length := by
  have hskip := length_skipGap l.inFlow l.mark l.keyAllowed false l.rest
  unfold advance? at h
  simp only [bind, Option.bind_eq_some_iff, pure, Option.some.injEq] at h
  obtain ⟨_, -, _, -, rfl⟩ := h
  exact hskip

/-! ### One token -/

/-- No block collection ends before a token that is indented enough. -/
lemma closeFrom_eq_self (h : floorOf l.indents ≤ k) : l.closeFrom k = l := by
  obtain ⟨rest, mark, indents, keyAllowed, key, outer, tokens⟩ := l
  unfold closeFrom
  split
  · rfl
  · cases indents with
    | nil => simp
    | cons i is =>
      have hi : ¬k ≤ i := Nat.not_le.mpr h
      simp [hi]

/-- A token is read and the lexer goes on. -/
lemma run?_token (ha : l.advance? = some a) (hfloor : floorOf a.indents ≤ a.mark.column + 1)
    (hrest : a.rest ≠ []) (ht : a.token? = some next)
    (hlt : next.rest.length < a.rest.length) : l.run? = next.run? := by
  have hlength : next.rest.length < l.rest.length := Nat.lt_of_lt_of_le hlt (length_advance? ha)
  rw [run?, ha]
  simp only [closeFrom_eq_self hfloor, if_neg hrest, ht, if_pos hlength]

lemma isPlainBar_of_isIndicator (h : isIndicator c = true) : isPlainBar c = true := by
  have hsame : ",[]\x7b\x7d#&*!|>'\"%@\x60".toList.all isPlainBar = true := by decide
  exact List.all_eq_true.mp hsame c (List.contains_iff_mem.mp h)

lemma ne_of_isIndicator {d : Char} (h : isIndicator c = false) (hd : isIndicator d = true) :
    c ≠ d := by
  rintro rfl
  rw [h] at hd
  contradiction

/-- What can start a plain scalar does. -/
lemma token?_plain (hrest : l.rest = c :: cs) (hflow : l.outer = [])
    (hstarts : plainStarts false (c :: cs) = true)
    (hmarker : l.mark.column = 0 → markerNext (c :: cs) = false) : l.token? = l.plain? := by
  have hin : l.inFlow = false := by rw [inFlow, hflow]; rfl
  have hindicator : isIndicator c = false := by
    by_contra h
    simp [plainStarts, h] at hstarts
  have hdash : ¬(c = '-' ∧ gapNext cs = true) := by
    rintro ⟨rfl, h⟩
    simp [plainStarts, h, isGap, isSpace, isBreak] at hstarts
  have hsigns : ∀ d, d = '?' ∨ d = ':' → ¬(c = d ∧ (l.inFlow || gapNext cs) = true) := by
    rintro d hd ⟨rfl, h⟩
    rw [hin, Bool.false_or] at h
    rcases hd with rfl | rfl <;> simp [plainStarts, h] at hstarts
  have hmark : ¬(l.mark.column = 0 ∧ markerNext (c :: cs) = true) := by
    rintro ⟨hzero, h⟩
    rw [hmarker hzero] at h
    contradiction
  have hne : ∀ d, isIndicator d = true → c ≠ d := fun d hd => ne_of_isIndicator hindicator hd
  unfold token?
  rw [hrest]
  simp only [hne '%' rfl, hmark, hne '[' rfl, hne '{' rfl, hne ']' rfl, hne '}' rfl, hne ',' rfl,
    hdash, hsigns '?' (Or.inl rfl), hsigns ':' (Or.inr rfl), hne '*' rfl, hne '&' rfl, hne '!' rfl,
    hne '|' rfl, hne '>' rfl, hne '\'' rfl, hne '"' rfl, and_false, false_and, if_false]
  rw [hin, if_pos hstarts]

/-! ### A key and its colon -/

/-- After a key, which has started at `k`. -/
def keyed (rest : List Char) (m k : Mark) (required : Bool) (indents : List Nat)
    (tokens : List Token) (key : List Char) : Lexer :=
  { block rest m indents false (tokens ++ [.scalar true key]) with
    key := some ⟨tokens.length, k, required⟩ }

lemma floor_eq (l : Lexer) : l.floor = floorOf l.indents := by
  cases hl : l.indents <;> simp [floor, floorOf, hl]

lemma plainStarts_key (hkey : KeyText key) (cs : List Char) :
    ∃ c t, key = c :: t ∧ plainStarts false (c :: (t ++ cs)) = true ∧
      markerNext (c :: (t ++ cs)) = false := by
  obtain ⟨c, t, rfl⟩ := List.exists_cons_of_ne_nil hkey.nonempty
  have hword : ∀ d, ¬('a' ≤ d ∧ d ≤ 'z') → c ≠ d := fun d hd heq => hd (heq ▸ hkey.word c rfl)
  have hgap : isGap c = false := isGap_of_isNameChar (isNameChar_of_wordNext hkey.word)
  have hindicator : isIndicator c = false := by
    rw [Bool.eq_false_iff]
    intro h
    have hnone : (",[]\x7b\x7d#&*!|>'\"%@\x60".toList.all fun d => !decide ('a' ≤ d ∧ d ≤ 'z')) =
        true := by decide
    have hc := List.all_eq_true.mp hnone c (List.contains_iff_mem.mp h)
    rw [decide_eq_true (hkey.word c rfl)] at hc
    contradiction
  refine ⟨c, t, rfl, ?_, ?_⟩
  · simp [plainStarts, hgap, hindicator, hword '-' (by decide), hword '?' (by decide),
      hword ':' (by decide)]
  · unfold markerNext
    split
    · next heq => exact absurd (List.cons.inj heq).1 (hword '-' (by decide))
    · next heq => exact absurd (List.cons.inj heq).1 (hword '.' (by decide))
    · rfl

/-- A key is read as a plain scalar, and its place is remembered. -/
lemma token?_key (hkey : KeyText key) (hgap : gapNext rest = true) (m : Mark)
    (indents : List Nat) (tokens : List Token) : ∃ required,
    (block (key ++ ':' :: rest) m indents true tokens).token? =
      some (keyed (':' :: rest) ⟨m.line, m.column + key.length⟩ m required indents tokens key) := by
  obtain ⟨c, t, rfl, hstarts, hmarker⟩ := plainStarts_key hkey (':' :: rest)
  have hscan : scanPlain ⟨false, floorOf indents⟩ m .none (c :: t ++ ':' :: rest) =
      some (⟨c :: t, ⟨m.line, m.column + (c :: t).length⟩, ':' :: rest⟩, false) :=
    scanPlain_key rfl hkey.name hgap m
  have hplain : (block (c :: t ++ ':' :: rest) m indents true tokens).token? =
      (block (c :: t ++ ':' :: rest) m indents true tokens).plain? :=
    token?_plain rfl rfl hstarts fun _ => hmarker
  refine ⟨floorOf indents == m.column + 1, ?_⟩
  rw [hplain]
  have hsaved : (block (c :: t ++ ':' :: rest) m indents true tokens).saveKey? =
      some { block (c :: t ++ ':' :: rest) m indents true tokens with
        key := some ⟨tokens.length, m, floorOf indents == m.column + 1⟩ } := by
    simp [saveKey?, dropKey?, block, floor_eq, inFlow]
  simp only [plain?, hsaved, bind, Option.bind_some, floor_eq]
  simp only [block, inFlow, List.isEmpty_nil, Bool.not_true, hscan, Option.bind_some, pure]
  rfl

lemma advance?_keyed (hshort : key.length ≤ 1024) (m : Mark) (required : Bool) :
    (keyed (':' :: rest) ⟨m.line, m.column + key.length⟩ m required indents tokens key).advance? =
      some (keyed (':' :: rest) ⟨m.line, m.column + key.length⟩ m required indents tokens key) := by
  have hskip : skipGap false ⟨m.line, m.column + key.length⟩ false false (':' :: rest) =
      (⟨m.line, m.column + key.length⟩, false, ':' :: rest) :=
    skipGap_char rfl (by decide) (Or.inl (by decide)) false rest
  have hfresh : KeyStart.isStale ⟨m.line, m.column + key.length⟩
      ⟨tokens.length, m, required⟩ = false := by
    simp [KeyStart.isStale, hshort]
  simp [advance?, keyed, block, inFlow, hskip, expire?, hfresh]

/-- The colon shows that the scalar before it is a key, with which a mapping may start. -/
lemma token?_colon (hgap : gapNext rest = true) (hpos : 0 < m.column) (v : Mark) (required : Bool)
    (indents : List Nat) (tokens : List Token) (key : List Char) :
    (keyed (':' :: rest) m v required indents tokens key).token? =
      some (block rest (m.next ':') (opened v.column indents) false
        (tokens ++ keyTokens v.column indents key)) := by
  have hzero : m.column ≠ 0 := Nat.ne_of_gt hpos
  have hvalue : (keyed (':' :: rest) m v required indents tokens key).token? =
      (keyed (':' :: rest) m v required indents tokens key).value? := by
    simp [token?, keyed, block, inFlow, hzero, hgap]
  rw [hvalue]
  by_cases hfloor : v.column < floorOf indents <;>
    simp [value?, keyed, block, openAt, floor_eq, inFlow, take, opened, keyTokens, hfloor]

/-- A key and its colon are read; the mapping that they belong to is open from then on. -/
lemma run?_key (ha : Arrives l (key ++ ':' :: rest) n indents tokens) (hkey : KeyText key)
    (hgap : gapNext rest = true) (hfloor : floorOf indents ≤ n + 1) :
    ∃ m : Mark, n < m.column ∧ l.run? =
      (block rest m (opened n indents) false (tokens ++ keyTokens n indents key)).run? := by
  obtain ⟨line, ha⟩ := ha
  obtain ⟨required, htoken⟩ := token?_key hkey hgap ⟨line, n⟩ indents tokens
  have hpos : 0 < key.length := List.length_pos_iff.mpr hkey.nonempty
  have hne : key ++ ':' :: rest ≠ [] := List.append_ne_nil_of_left_ne_nil hkey.nonempty _
  have hcolon := token?_colon (m := ⟨line, n + key.length⟩) hgap (Nat.lt_add_left n hpos) ⟨line, n⟩
    required indents tokens key
  refine ⟨Mark.next ⟨line, n + key.length⟩ ':', Nat.lt_succ_of_le (Nat.le_add_right n _), ?_⟩
  rw [run?_token ha hfloor hne htoken (by simp [keyed, block, hpos])]
  exact run?_token (advance?_keyed hkey.short ⟨line, n⟩ required)
    (Nat.le_trans hfloor (Nat.succ_le_succ (Nat.le_add_right n _))) (List.cons_ne_nil _ _) hcolon
    (Nat.lt_succ_self _)

/-! ### A text as a value -/

/-- The value of a key stands behind a space. -/
lemma advance?_value (hgap : isGap c = false) (hhash : c ≠ '#') (m : Mark) (cs : List Char)
    (indents : List Nat) (tokens : List Token) :
    (block (' ' :: c :: cs) m indents false tokens).advance? =
      some (block (c :: cs) ⟨m.line, m.column + 1⟩ indents false tokens) := by
  have hspace : skipGap false m false false (' ' :: c :: cs) =
      skipGap false ⟨m.line, m.column + 1⟩ false false (c :: cs) := rfl
  have hskip : skipGap false ⟨m.line, m.column + 1⟩ false false (c :: cs) =
      (⟨m.line, m.column + 1⟩, false, c :: cs) :=
    skipGap_char hgap hhash (Or.inr (Nat.succ_ne_zero _)) false cs
  rw [advance?_block, hspace, hskip]

/-- One token is read, and with it all that stands before the next line. -/
def ReadsTo (l : Lexer) (rest : List Char) (k : Nat) (t : Token) : Prop :=
  ∃ next, l.token? = some next ∧ next.rest.length < l.rest.length ∧
    Arrives next rest k l.indents (l.tokens ++ [t])

lemma plainStarts_text (hcs : PlainText cs) (rest : List Char) : ∃ c t, cs = c :: t ∧
    isGap c = false ∧ c ≠ '#' ∧ plainStarts false (c :: (t ++ rest)) = true := by
  have hne : cs ≠ [] := by
    rintro rfl
    cases hcs.clear
  obtain ⟨c, t, rfl⟩ := List.exists_cons_of_ne_nil hne
  have hstart := hcs.start
  simp only [startsAsIndicator, Bool.or_eq_false_iff] at hstart
  obtain ⟨hbar, hsign⟩ := hstart
  have hindicator : isIndicator c = false := by
    rw [Bool.eq_false_iff] at hbar ⊢
    exact fun h => hbar (isPlainBar_of_isIndicator h)
  have hgap : isGap c = false := isGap_eq_false.mpr ⟨fun heq => hcs.front (heq ▸ rfl),
    ne_of_isSpecial (writable_cons.mp hcs.writable).1 rfl,
    isBreak_of_endsLine (hcs.line c List.mem_cons_self)⟩
  have hnext : c = '-' ∨ c = '?' ∨ c = ':' → gapNext (t ++ rest) = false := by
    intro hc
    have hblank : blankNext t = false := by
      rw [Bool.and_eq_false_iff] at hsign
      refine hsign.resolve_left ?_
      rcases hc with rfl | rfl | rfl <;> decide
    exact Bool.eq_false_iff.mpr fun h => Bool.eq_false_iff.mp hblank (blankNext_of_gapNext h)
  refine ⟨c, t, rfl, hgap, ne_of_isIndicator hindicator rfl, ?_⟩
  rw [plainStarts, if_neg (by simp [hgap, hindicator])]
  split
  · next hdash => rw [hnext (Or.inl (beq_iff_eq.mp hdash))]; rfl
  · split
    · next hmark =>
      rw [Bool.or_eq_true, beq_iff_eq, beq_iff_eq] at hmark
      rw [hnext (Or.inr hmark)]
      rfl
    · rfl

lemma readsTo_plain (hcs : PlainText cs) (hindent : floorOf indents = n + 1) (hk : k ≤ n)
    (hrest : WordNext rest) (hm : n < m.column) :
    ReadsTo (block (cs ++ '\n' :: (indentation k ++ rest)) m indents false tokens) rest k
      (.scalar true cs) := by
  obtain ⟨c, t, rfl, -, -, hstarts⟩ := plainStarts_text hcs ('\n' :: (indentation k ++ rest))
  have hscan : scanPlain ⟨false, floorOf indents⟩ m .none
      (c :: t ++ '\n' :: (indentation k ++ rest)) =
      some (⟨c :: t, ⟨m.line + 1, k⟩, rest⟩, true) :=
    scanPlain_text rfl (Nat.lt_of_lt_of_eq (Nat.lt_succ_of_le hk) hindent.symm) hrest
      (hindent.trans_le hm) hcs.writable hcs.line hcs.indicator hcs.back
      (fun h => absurd rfl h) fun _ => rfl
  refine ⟨block rest ⟨m.line + 1, k⟩ indents true (tokens ++ [.scalar true (c :: t)]), ?_, ?_,
    arrives_word hrest _ _ _ _⟩
  · have hplain : (block (c :: t ++ '\n' :: (indentation k ++ rest)) m indents false
        tokens).token? =
        (block (c :: t ++ '\n' :: (indentation k ++ rest)) m indents false tokens).plain? :=
      token?_plain rfl rfl hstarts fun hzero => absurd hzero (Nat.ne_of_gt (Nat.zero_lt_of_lt hm))
    rw [hplain]
    simp only [plain?, saveKey?, block, Bool.false_eq_true, if_false, bind, Option.bind_some,
      floor_eq, inFlow, List.isEmpty_nil, Bool.not_true, hscan, pure]
    rfl
  · simp [block]
    omega

/-- A quoted scalar, however its quotes are read. -/
lemma readsTo_quoted {quote : Char} {body : List Char} {v : Mark}
    (scan : Mark → List Char → Option Scanned)
    (htoken : (block (quote :: body) m indents false tokens).token? =
      (block (quote :: body) m indents false tokens).named? (.scalar false) scan)
    (hscan : scan (m.next quote) body = some ⟨cs, v, '\n' :: (indentation k ++ rest)⟩)
    (hlength : (indentation k ++ rest).length < body.length) (hrest : WordNext rest) :
    ReadsTo (block (quote :: body) m indents false tokens) rest k (.scalar false cs) := by
  refine ⟨block ('\n' :: (indentation k ++ rest)) v indents false (tokens ++ [.scalar false cs]),
    ?_, ?_, arrives_lineEnd hrest _ _ _ _⟩
  · rw [htoken]
    simp only [named?, saveKey?, block, Bool.false_eq_true, if_false, bind, Option.bind_some,
      hscan, pure]
    rfl
  · simp only [block, List.length_cons]
    omega

lemma readsTo_single (hcs : SingleText cs) (hn : 0 < n) (hrest : WordNext rest)
    (hm : 0 < m.column) :
    ReadsTo (block ('\'' :: (printSingle n false cs ++ '\'' :: '\n' :: (indentation k ++ rest))) m
      indents false tokens) rest k (.scalar false cs) := by
  obtain ⟨v, hv⟩ : ∃ v, scanSingle (m.next '\'') .none
      (printSingle n false cs ++ '\'' :: '\n' :: (indentation k ++ rest)) =
      some ⟨cs, v, '\n' :: (indentation k ++ rest)⟩ :=
    scanSingle_text hn hcs (follows_none cs) (fun _ => column_next_pos rfl m) nofun
  refine readsTo_quoted (fun m cs => scanSingle m .none cs) ?_ hv ?_ hrest
  · simp [token?, block, inFlow, Nat.ne_of_gt hm]
  · simp
    omega

lemma readsTo_double (hrest : WordNext rest) (hm : 0 < m.column) (cs : List Char) :
    ReadsTo (block ('"' :: (cs.flatMap escapeDouble ++ '"' :: '\n' :: (indentation k ++ rest))) m
      indents false tokens) rest k (.scalar false cs) := by
  obtain ⟨v, hv⟩ : ∃ v, scanDouble (m.next '"') .none .off
      (cs.flatMap escapeDouble ++ '"' :: '\n' :: (indentation k ++ rest)) =
      some ⟨cs, v, '\n' :: (indentation k ++ rest)⟩ := scanDouble_text (column_next_pos rfl m)
  refine readsTo_quoted (fun m cs => scanDouble m .none .off cs) ?_ hv ?_ hrest
  · simp [token?, block, inFlow, Nat.ne_of_gt hm]
  · simp
    omega

lemma readsTo_literal (hcs : LiteralText cs) (hindent : floorOf indents = n + 1) (hk : k ≤ n)
    (hrest : WordNext rest) (hm : 0 < m.column) :
    ReadsTo (block ('|' :: (indentMark cs ++ chompMark cs ++ '\n' ::
      (printLines (n + 2) true cs ++ ((if cs.getLast?.any isBreak then [] else ['\n']) ++
        (indentation k ++ rest))))) m indents false tokens) rest k (.scalar false cs) := by
  have hpos : 0 < n + 1 := Nat.succ_pos n
  obtain ⟨line, hline⟩ := scanBlock_text hcs hpos (Nat.le_succ_of_le hk) hrest m
  refine ⟨block rest ⟨line, k⟩ indents true (tokens ++ [.scalar false cs]), ?_, ?_,
    arrives_word hrest _ _ _ _⟩
  · have htoken : ∀ body, (block ('|' :: body) m indents false tokens).token? =
        (block ('|' :: body) m indents false tokens).block? false := by
      intro body
      simp [token?, block, inFlow, Nat.ne_of_gt hm]
    rw [htoken, block?]
    simp only [dropKey?, block, floor_eq, hindent, List.drop_succ_cons, List.drop_zero,
      Option.any_none, Bool.false_eq_true, if_false, bind, Option.bind_some, hline, pure]
    rfl
  · simp [block]
    omega

/-- **A text is read back as it was written**, in whatever way that was. -/
theorem readsTo_scalar (hindent : floorOf indents = n + 1) (hk : k ≤ n) (hrest : WordNext rest)
    (hm : n < m.column) (cs : List Char) :
    ReadsTo (block (printScalar (n + 2) cs ++ (indentation k ++ rest)) m indents false tokens) rest
      k (.scalar (isPlain cs) cs) := by
  have hpos : 0 < m.column := Nat.zero_lt_of_lt hm
  cases hstyle : styleOf cs with
  | plain =>
    simp only [printScalar, isPlain, hstyle, decide_true, List.append_assoc, List.singleton_append]
    exact readsTo_plain (plainText_of_styleOf hstyle) hindent hk hrest hm
  | single =>
    simp only [printScalar, isPlain, hstyle, reduceCtorEq, decide_false, List.append_assoc,
      List.cons_append, List.nil_append]
    exact readsTo_single (singleText_of_styleOf hstyle) (Nat.succ_pos _) hrest hpos
  | double =>
    simp only [printScalar, isPlain, hstyle, reduceCtorEq, decide_false, List.append_assoc,
      List.cons_append, List.nil_append]
    exact readsTo_double hrest hpos cs
  | literal =>
    simp only [printScalar, isPlain, hstyle, reduceCtorEq, decide_false, List.append_assoc,
      List.cons_append]
    rw [← List.append_assoc (indentMark cs)]
    exact readsTo_literal (literalText_of_styleOf hstyle) hindent hk hrest hpos

lemma exists_head_printScalar (n : Nat) (cs : List Char) :
    ∃ c t, printScalar n cs = c :: t ∧ isGap c = false ∧ c ≠ '#' := by
  cases hstyle : styleOf cs with
  | plain =>
    obtain ⟨c, t, rfl, hgap, hhash, -⟩ := plainStarts_text (plainText_of_styleOf hstyle) []
    exact ⟨c, t ++ ['\n'], by simp [printScalar, hstyle], hgap, hhash⟩
  | single => exact ⟨'\'', _, by simp only [printScalar, hstyle]; rfl, rfl, by decide⟩
  | double => exact ⟨'"', _, by simp only [printScalar, hstyle]; rfl, rfl, by decide⟩
  | literal => exact ⟨'|', _, by simp only [printScalar, hstyle]; rfl, rfl, by decide⟩

/-! ### Fields -/

lemma floorOf_opened (h : floorOf indents ≤ n + 1) : floorOf (opened n indents) = n + 1 := by
  unfold opened
  split
  · omega
  · rfl

/-- **A field is read**: its key, its colon and its value, up to the next line. -/
theorem run?_field (ha : Arrives l (key ++ ':' :: ' ' :: (printScalar (n + 2) cs ++
      (indentation k ++ rest))) n indents tokens) (hkey : KeyText key)
    (hfloor : floorOf indents ≤ n + 1) (hk : k ≤ n) (hrest : WordNext rest) :
    ∃ next, l.run? = next.run? ∧ Arrives next rest k (opened n indents)
      (tokens ++ keyTokens n indents key ++ [.scalar (isPlain cs) cs]) := by
  obtain ⟨m, hm, hrun⟩ := run?_key ha hkey rfl hfloor
  have hopened : floorOf (opened n indents) = n + 1 := floorOf_opened hfloor
  obtain ⟨next, htoken, hlength, harrives⟩ : ReadsTo (block (printScalar (n + 2) cs ++
      (indentation k ++ rest)) ⟨m.line, m.column + 1⟩ (opened n indents) false
      (tokens ++ keyTokens n indents key)) rest k (.scalar (isPlain cs) cs) :=
    readsTo_scalar hopened hk hrest (Nat.lt_succ_of_lt hm) cs
  obtain ⟨c, t, hhead, hgap, hhash⟩ := exists_head_printScalar (n + 2) cs
  refine ⟨next, hrun.trans ?_, harrives⟩
  rw [hhead, List.cons_append] at htoken hlength ⊢
  refine run?_token (advance?_value hgap hhash m _ _ _) ?_ (List.cons_ne_nil _ _) htoken hlength
  exact hopened.trans_le (by simp only [block]; omega)

/-- The end of the stream ends all collections. -/
lemma run?_end (ha : Arrives l [] k indents tokens) :
    l.run? = some (tokens ++ indents.map (fun _ => .blockEnd) ++ [.streamEnd]) := by
  obtain ⟨line, ha⟩ := ha
  have hends : ∀ p : Nat → Bool, (indents.takeWhile p).map (fun _ => Token.blockEnd) ++
      (indents.dropWhile p).map (fun _ => Token.blockEnd) =
      indents.map fun _ => Token.blockEnd := by
    intro p
    rw [← List.map_append, List.takeWhile_append_dropWhile]
  have hall : ∀ is : List Nat, is.takeWhile (fun i => decide (0 ≤ i)) = is := by
    intro is
    exact List.takeWhile_eq_self_iff.mpr fun i _ => decide_eq_true (Nat.zero_le i)
  rw [run?, ha]
  simp only [closeFrom, block, inFlow, List.isEmpty_nil, Bool.not_true, Bool.false_eq_true,
    if_false, if_true, finish?, dropKey?, Option.any_none, Option.map_some, hall, List.append_assoc]
  rw [← List.append_assoc (List.map _ _), hends]

end Lexer

end Inlay.Yaml
