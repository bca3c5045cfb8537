import Inlay.Proofs.Scan.Pattern
import Inlay.Proofs.Scan.NameEnd

/-!
Binding groups as a pattern. A group is a run of items; in an item all but the name may be left out,
so a text can be parted into items in many ways. The automaton of the scanner, which parts nothing,
accepts the same texts.
-/

namespace Inlay.Scan.Group

open Inlay.Unicode Pattern
open scoped Computability

/-- A name with an ampersand and a qualifier before it, both optional. -/
def named : Language Char :=
  optional (text ['&']) * optional (text qualifier * gap) * word

/-- The type of a name: one word after a colon. -/
def typed : Language Char :=
  padding * text [':'] * padding * word

/-- A name, its type if it has one, and a comma if there is one. -/
def item : Language Char :=
  named * optional typed * padding * optional (text [',']) * padding

/-- One item or several. -/
def language : Language Char :=
  repeated item

/-! ### What the automaton does with the texts of a pattern -/

/-- The texts of the pattern take the automaton from states of the one kind to states of the
other. -/
def Reads (l : Language Char) (P Q : State → Prop) : Prop :=
  ∀ t ∈ l, ∀ q, P q → ∃ r, run q t = some r ∧ Q r

namespace Reads

variable {l m : Language Char} {P Q R : State → Prop}

lemma char {p : Char → Bool} (h : ∀ q c, p c = true → P q → ∃ r, step q c = some r ∧ Q r) :
    Reads (Pattern.char p) P Q := by
  rintro t ⟨c, hc, rfl⟩ q hq
  obtain ⟨r, hr, hQ⟩ := h q c hc hq
  exact ⟨r, by rw [run_cons, hr]; rfl, hQ⟩

lemma mul (hl : Reads l P Q) (hm : Reads m Q R) : Reads (l * m) P R := by
  intro t ht q hq
  obtain ⟨a, ha, b, hb, rfl⟩ := Language.mem_mul.mp ht
  obtain ⟨r, hr, hQ⟩ := hl a ha q hq
  obtain ⟨s, hs, hR⟩ := hm b hb r hQ
  exact ⟨s, by rw [run_append, hr, Option.bind_some, hs], hR⟩

lemma optional (h : Reads l P Q) (hPQ : ∀ q, P q → Q q) : Reads (optional l) P Q := by
  intro t ht q hq
  rcases mem_optional.mp ht with rfl | ht
  · exact ⟨q, rfl, hPQ q hq⟩
  · exact h t ht q hq

lemma kstar (h : Reads l P P) : Reads l∗ P P := by
  intro t ht q hq
  obtain ⟨parts, rfl, hparts⟩ := Language.mem_kstar.mp ht
  clear ht
  induction parts generalizing q with
  | nil => exact ⟨q, rfl, hq⟩
  | cons part parts ih =>
    obtain ⟨r, hr, hP⟩ := h part (hparts part List.mem_cons_self) q hq
    obtain ⟨s, hs, hP'⟩ := ih r hP fun x hx => hparts x (List.mem_cons_of_mem part hx)
    exact ⟨s, by rw [List.flatten_cons, run_append, hr, Option.bind_some, hs], hP'⟩

lemma repeated (h : Reads l P Q) (h' : Reads l Q Q) : Reads (repeated l) P Q :=
  h.mul h'.kstar

lemma of_le (hm : Reads m P Q) (hlm : l ≤ m) : Reads l P Q :=
  fun t ht => hm t (hlm ht)

lemma mono {P' Q' : State → Prop} (h : Reads l P Q) (hP : ∀ q, P' q → P q)
    (hQ : ∀ q, Q q → Q' q) : Reads l P' Q' := by
  intro t ht q hq
  obtain ⟨r, hr, hr'⟩ := h t ht q (hP q hq)
  exact ⟨r, hr, hQ r hr'⟩

end Reads

lemma step_of_isWord {c : Char} (h : isWord c = true) (q : State) :
    step q c = some (.word (q != .colon)) := by
  unfold step
  rw [if_pos h]

lemma step_of_isBlank {c : Char} (h : isBlank c = true) {q : State} (hstart : q ≠ .start)
    (hampersand : q ≠ .ampersand) : step q c = some q := by
  unfold step
  rw [if_neg (by rw [isWord_of_isBlank h]; decide), if_pos h]
  cases q with
  | start => exact absurd rfl hstart
  | ampersand => exact absurd rfl hampersand
  | _ => rfl

lemma step_ampersand {q : State} (hampersand : q ≠ .ampersand) (hcolon : q ≠ .colon) :
    step q '&' = some .ampersand := by
  cases q with
  | ampersand => exact absurd rfl hampersand
  | colon => exact absurd rfl hcolon
  | word b => cases b <;> decide +kernel
  | _ => decide +kernel

lemma step_comma (b : Bool) : step (.word b) ',' = some .comma := by
  cases b <;> decide +kernel

lemma step_colon : step (.word true) ':' = some .colon := by
  decide +kernel

/-! ### Every group is accepted -/

/-- A name may start here, with an ampersand or without. -/
def State.Ready (q : State) : Prop :=
  q = .start ∨ q.isFinal = true

/-- A word may start here, and a colon may follow it. -/
def State.Nameable (q : State) : Prop :=
  q ≠ .colon

/-- A word has been read. -/
def State.Worded (q : State) : Prop :=
  ∃ b, q = .word b

lemma State.Worded.isFinal {q : State} (h : q.Worded) : q.isFinal = true := by
  obtain ⟨b, rfl⟩ := h
  rfl

lemma reads_padding {P : State → Prop} (h : ∀ q, P q → q ≠ .start ∧ q ≠ .ampersand) :
    Reads padding P P := by
  refine .kstar (.char fun q c hc hq => ⟨q, ?_, hq⟩)
  exact step_of_isBlank hc (h q hq).1 (h q hq).2

/-- A word that can be given a type. -/
lemma reads_word : Reads word State.Nameable (· = .word true) := by
  refine .repeated (.char fun q c hc hq => ⟨_, step_of_isWord hc q, ?_⟩)
    (.char fun q c hc hq => ⟨_, step_of_isWord hc q, ?_⟩)
  · rw [bne_iff_ne.mpr hq]
  · rw [hq]
    rfl

/-- The word of a type. -/
lemma reads_typeWord : Reads word (· = .colon) State.Worded :=
  .repeated (.char fun q _ hc _ => ⟨_, step_of_isWord hc q, _, rfl⟩)
    (.char fun q _ hc _ => ⟨_, step_of_isWord hc q, _, rfl⟩)

lemma reads_named : Reads named State.Ready (· = .word true) := by
  have hampersand : Reads (text ['&']) State.Ready State.Nameable := by
    rintro t rfl q hq
    have hstep : step q '&' = some .ampersand := by
      rcases hq with rfl | hq
      · exact step_ampersand nofun nofun
      · exact step_ampersand (by rintro rfl; cases hq) (by rintro rfl; cases hq)
    exact ⟨.ampersand, by rw [run_cons, hstep]; rfl, nofun⟩
  have hqualifier : Reads (text qualifier * gap) State.Nameable State.Nameable := by
    have hword : Reads (text qualifier) State.Nameable (· = .word true) := by
      refine reads_word.of_le ?_
      rintro t rfl
      exact qualifier_mem_word
    have hgap : Reads gap (· = .word true) (· = .word true) :=
      .of_le (reads_padding (by rintro q rfl; exact ⟨nofun, nofun⟩)) repeated_le_kstar
    exact hword.mul (hgap.mono (fun _ => id) (by rintro q rfl; exact nofun))
  have hready : ∀ q, State.Ready q → State.Nameable q := by
    rintro q (rfl | hq)
    · exact nofun
    · rintro rfl
      cases hq
  exact ((hampersand.optional hready).mul (hqualifier.optional fun _ => id)).mul reads_word

lemma reads_typed : Reads typed (· = .word true) State.Worded := by
  have hword : Reads padding (· = .word true) (· = .word true) :=
    reads_padding (by rintro q rfl; exact ⟨nofun, nofun⟩)
  have hcolon : Reads (text [':']) (· = .word true) (· = .colon) := by
    rintro t rfl q rfl
    exact ⟨.colon, by rw [run_cons, step_colon]; rfl, rfl⟩
  have hpadding : Reads padding (· = .colon) (· = .colon) :=
    reads_padding (by rintro q rfl; exact ⟨nofun, nofun⟩)
  exact ((hword.mul hcolon).mul hpadding).mul reads_typeWord

lemma reads_item : Reads item State.Ready (·.isFinal = true) := by
  have htyped : Reads (optional typed) (· = .word true) State.Worded :=
    reads_typed.optional (by rintro q rfl; exact ⟨true, rfl⟩)
  have hword : Reads padding State.Worded State.Worded :=
    reads_padding (by rintro q ⟨b, rfl⟩; exact ⟨nofun, nofun⟩)
  have hcomma : Reads (text [',']) State.Worded (·.isFinal = true) := by
    rintro t rfl q ⟨b, rfl⟩
    exact ⟨.comma, by rw [run_cons, step_comma]; rfl, rfl⟩
  have hfinal : Reads padding (·.isFinal = true) (·.isFinal = true) := by
    refine reads_padding fun q hq => ⟨?_, ?_⟩ <;> rintro rfl <;> cases hq
  have hend : Reads (optional (text [','])) State.Worded (·.isFinal = true) :=
    hcomma.optional fun _ => State.Worded.isFinal
  exact (((reads_named.mul htyped).mul hword).mul hend).mul hfinal

lemma accepts_of_mem_language {t : List Char} (h : t ∈ language) : accepts t = true := by
  have hreads : Reads language State.Ready (·.isFinal = true) :=
    reads_item.repeated (reads_item.mono (fun _ => Or.inr) fun _ => id)
  obtain ⟨r, hr, hfinal⟩ := hreads t h .start (Or.inl rfl)
  rw [accepts, hr]
  exact hfinal

/-! ### Everything accepted is a group -/

lemma text_le_char {p : Char → Bool} {c : Char} (h : p c = true) : text [c] ≤ char p := by
  rintro t rfl
  exact ⟨c, h, rfl⟩

lemma text_le_word {c : Char} (h : isWord c = true) : text [c] ≤ word := by
  rintro t rfl
  exact mem_word.mpr ⟨List.cons_ne_nil c [], by simpa using h⟩

/-- Of what may be left out in front of a name, nothing or the ampersand is there. -/
lemma le_named {l : Language Char} (hl : l ≤ optional (text ['&'])) :
    l * word ≤ named * padding := by
  calc l * word = l * 1 * word * 1 := by simp only [mul_one]
    _ ≤ named * padding := by
      unfold named
      gcongr
      · exact one_le_optional
      · exact one_le_kstar

/-- Of what may be left out after a name, some is there. -/
lemma le_item {l m : Language Char} (hl : l ≤ optional typed) (hm : m ≤ optional (text [','])) :
    named * l * padding * m ≤ item := by
  calc named * l * padding * m = named * l * padding * m * 1 := by rw [mul_one]
    _ ≤ item := by
      unfold item
      gcongr
      exact one_le_kstar

lemma padding_mul_blank_le {c : Char} (h : isBlank c = true) : padding * text [c] ≤ padding :=
  (mul_le_mul_right (text_le_char h) padding).trans kstar_mul_le_kstar

/-- What has been read when the automaton is in a state: whole items, and then the beginning of
another. -/
def State.read : State → Language Char
  | .start => 1
  | .ampersand => item∗ * text ['&']
  | .word true => item∗ * (named * padding)
  | .word false => item∗ * (named * typed * padding)
  | .comma => item∗ * item
  | .colon => item∗ * (named * (padding * text [':'] * padding))

/-- Where the automaton may stop, the last item may end. -/
lemma exists_read_eq_of_isFinal {q : State} (h : q.isFinal = true) :
    ∃ l ≤ item, q.read = item∗ * l := by
  cases q with
  | word b =>
    cases b with
    | true =>
      refine ⟨_, ?_, rfl⟩
      simpa only [mul_one] using le_item one_le_optional one_le_optional
    | false =>
      refine ⟨_, ?_, rfl⟩
      simpa only [mul_one] using le_item le_optional one_le_optional
  | comma => exact ⟨item, le_rfl, rfl⟩
  | _ => cases h

/-- Where another item may start, nothing but whole items has been read. -/
lemma State.Ready.read_le {q : State} (h : q.Ready) : q.read ≤ item∗ := by
  rcases h with rfl | h
  · exact one_le_kstar
  · obtain ⟨l, hl, hread⟩ := exists_read_eq_of_isFinal h
    rw [hread]
    exact (mul_le_mul_right hl _).trans kstar_mul_le_kstar

/-- Where the automaton may stop it has read a group. -/
lemma read_le_language {q : State} (h : q.isFinal = true) : q.read ≤ language := by
  obtain ⟨l, hl, hread⟩ := exists_read_eq_of_isFinal h
  rw [hread, language, repeated, ← Language.mul_self_kstar_comm]
  exact mul_le_mul_right hl _

/-- A word character starts another item or goes on with the one at hand. -/
lemma read_mul_word_le {c : Char} (hc : isWord c = true) (q : State) :
    q.read * text [c] ≤ (State.word (q != .colon)).read := by
  have hword : text [c] ≤ named * padding := by
    calc text [c] = 1 * text [c] := (one_mul _).symm
      _ ≤ 1 * word := mul_le_mul_right (text_le_word hc) 1
      _ ≤ named * padding := le_named one_le_optional
  have hready : q.Ready → q.read * text [c] ≤ item∗ * (named * padding) := fun hq =>
    mul_le_mul' hq.read_le hword
  cases q with
  | start => exact hready (Or.inl rfl)
  | word b => exact hready (Or.inr rfl)
  | comma => exact hready (Or.inr rfl)
  | ampersand =>
    calc item∗ * text ['&'] * text [c] = item∗ * (text ['&'] * text [c]) := mul_assoc _ _ _
      _ ≤ item∗ * (text ['&'] * word) := by
        gcongr
        exact text_le_word hc
      _ ≤ item∗ * (named * padding) := mul_le_mul_right (le_named le_optional) _
  | colon =>
    calc item∗ * (named * (padding * text [':'] * padding)) * text [c]
        = item∗ * (named * (padding * text [':'] * padding * text [c]) * 1) := by
          simp only [mul_assoc, mul_one]
      _ ≤ item∗ * (named * (padding * text [':'] * padding * word) * padding) := by
        gcongr
        · exact text_le_word hc
        · exact one_le_kstar

/-- What may be followed by a blank ends in padding. -/
lemma read_mul_blank_le {c : Char} (hc : isBlank c = true) {q : State} (hstart : q ≠ .start)
    (hampersand : q ≠ .ampersand) : q.read * text [c] ≤ q.read := by
  have hpadding : padding * text [c] ≤ padding := padding_mul_blank_le hc
  cases q with
  | start => exact absurd rfl hstart
  | ampersand => exact absurd rfl hampersand
  | word b =>
    cases b with
    | true =>
      calc item∗ * (named * padding) * text [c] = item∗ * (named * (padding * text [c])) := by
            simp only [mul_assoc]
        _ ≤ item∗ * (named * padding) := by gcongr
    | false =>
      calc item∗ * (named * typed * padding) * text [c]
          = item∗ * (named * typed * (padding * text [c])) := by simp only [mul_assoc]
        _ ≤ item∗ * (named * typed * padding) := by gcongr
  | comma =>
    have hitem : item * text [c] ≤ item := by
      unfold item
      rw [mul_assoc]
      gcongr
    calc item∗ * item * text [c] = item∗ * (item * text [c]) := mul_assoc _ _ _
      _ ≤ item∗ * item := mul_le_mul_right hitem _
  | colon =>
    calc item∗ * (named * (padding * text [':'] * padding)) * text [c]
        = item∗ * (named * (padding * text [':'] * (padding * text [c]))) := by
          simp only [mul_assoc]
      _ ≤ item∗ * (named * (padding * text [':'] * padding)) := by gcongr

/-- One more character goes on with what has been read. -/
lemma read_mul_text_le {q r : State} {c : Char} (h : step q c = some r) :
    q.read * text [c] ≤ r.read := by
  rcases step_cases h with ⟨hc, rfl⟩ | ⟨hc, rfl, hstart, hampersand⟩ |
    ⟨rfl, rfl, hampersand, hcolon⟩ | ⟨rfl, rfl, b, rfl⟩ | ⟨rfl, rfl, rfl⟩
  · exact read_mul_word_le hc q
  · exact read_mul_blank_le hc hstart hampersand
  · have hready : q.Ready := by
      cases q with
      | start => exact Or.inl rfl
      | ampersand => exact absurd rfl hampersand
      | colon => exact absurd rfl hcolon
      | _ => exact Or.inr rfl
    exact mul_le_mul_left hready.read_le _
  · cases b with
    | true =>
      calc item∗ * (named * padding) * text [','] = item∗ * (named * 1 * padding * text [',']) := by
            simp only [mul_assoc, one_mul]
        _ ≤ item∗ * item := mul_le_mul_right (le_item one_le_optional le_optional) _
    | false =>
      calc item∗ * (named * typed * padding) * text [',']
          = item∗ * (named * typed * padding * text [',']) := mul_assoc _ _ _
        _ ≤ item∗ * item := mul_le_mul_right (le_item le_optional le_optional) _
  · calc item∗ * (named * padding) * text [':']
        = item∗ * (named * (padding * text [':'] * 1)) := by simp only [mul_assoc, mul_one]
      _ ≤ item∗ * (named * (padding * text [':'] * padding)) := by
          gcongr
          exact one_le_kstar

lemma mem_read_of_run {q r : State} {s t : List Char} (hs : s ∈ q.read) (h : run q t = some r) :
    s ++ t ∈ r.read := by
  induction t generalizing q s with
  | nil =>
    cases h
    rwa [List.append_nil]
  | cons c t ih =>
    obtain ⟨q', hstep, hrun⟩ := Option.bind_eq_some_iff.mp h
    rw [List.append_cons]
    exact ih (read_mul_text_le hstep (Language.append_mem_mul hs rfl)) hrun

/-- **The automaton accepts groups and nothing else.** -/
theorem mem_language_iff {t : List Char} : t ∈ language ↔ accepts t = true := by
  refine ⟨accepts_of_mem_language, fun h => ?_⟩
  obtain ⟨r, hr, hfinal⟩ := (Option.any_eq_true _ _).mp h
  have hstart : [] ∈ State.start.read := Language.nil_mem_one
  exact read_le_language hfinal (mem_read_of_run hstart hr)

instance (t : List Char) : Decidable (t ∈ language) :=
  decidable_of_iff _ mem_language_iff.symm

lemma isMember_of_mem_language {t : List Char} (h : t ∈ language) :
    ∀ c ∈ t, isMember c = true := by
  obtain ⟨r, hr, -⟩ := (Option.any_eq_true _ _).mp (mem_language_iff.mp h)
  exact isMember_of_run hr

/-- A group starts at once, with no blank before it. -/
lemma head_of_mem_language {t : List Char} (h : t ∈ language) :
    ∃ c cs, t = c :: cs ∧ isBlank c = false := by
  rw [mem_language_iff] at h
  cases t with
  | nil => cases h
  | cons c cs =>
    refine ⟨c, cs, rfl, Bool.eq_false_iff.mpr fun hc => ?_⟩
    have hstep : step .start c = none := by
      unfold step
      rw [if_neg (by rw [isWord_of_isBlank hc]; decide), if_pos hc]
    rw [accepts, run_cons, hstep] at h
    cases h

/-- A group is read up to the character that closes it. -/
lemma before?_eq_some_iff {close : Char} (hclose : isMember close = false)
    {cs t rest : List Char} :
    before? close cs = some (t, rest) ↔ cs = t ++ close :: rest ∧ t ∈ language := by
  constructor
  · intro h
    obtain ⟨hcs, haccepts⟩ := eq_append_of_before? h
    exact ⟨hcs, mem_language_iff.mpr haccepts⟩
  · rintro ⟨rfl, ht⟩
    have haccepts := mem_language_iff.mp ht
    have hmembers : IsRun isMember t (close :: rest) := by
      refine ⟨isMember_of_mem_language ht, ?_⟩
      rintro c ⟨⟩
      exact hclose
    unfold before?
    simp [hmembers.takeWhile_eq, hmembers.dropWhile_eq, haccepts]

/-! ### Texts without a word -/

lemma step_wordless {q s : State} {c : Char} (h : step q c = some s) (hc : isWord c = false)
    (hq : ¬q.Worded) : isBlank c = true ∧ s = q ∨ c = '&' ∧ s = .ampersand := by
  rcases step_cases h with ⟨hw, -⟩ | ⟨hblank, hs, -⟩ | ⟨hampersand, hs, -⟩ | ⟨-, -, hword⟩ |
    ⟨-, -, rfl⟩
  · rw [hc] at hw
    contradiction
  · exact Or.inl ⟨hblank, hs⟩
  · exact Or.inr ⟨hampersand, hs⟩
  · exact absurd hword hq
  · exact absurd ⟨true, rfl⟩ hq

/-- Without a word the automaton may stop only behind a comma and blanks. -/
lemma blank_of_run {q r : State} {t : List Char} (h : run q t = some r)
    (ht : ∀ c ∈ t, isWord c = false) (hq : ¬q.Worded) (hr : r.isFinal = true) :
    q = .comma ∧ r = .comma ∧ ∀ c ∈ t, isBlank c = true := by
  induction t generalizing q with
  | nil =>
    cases h
    cases r with
    | word b => exact absurd ⟨b, rfl⟩ hq
    | comma => exact ⟨rfl, rfl, nofun⟩
    | _ => cases hr
  | cons c t ih =>
    obtain ⟨s, hs, hrun⟩ := Option.bind_eq_some_iff.mp h
    obtain ⟨hc, hbehind⟩ := List.forall_mem_cons.mp ht
    rcases step_wordless hs hc hq with ⟨hblank, rfl⟩ | ⟨rfl, rfl⟩
    · obtain ⟨hq', hr', hblanks⟩ := ih hrun hbehind hq
      exact ⟨hq', hr', List.forall_mem_cons.mpr ⟨hblank, hblanks⟩⟩
    · obtain ⟨hq', -⟩ := ih hrun hbehind nofun
      cases hq'

lemma exists_word_of_accepts {t : List Char} (h : accepts t = true) :
    ∃ c ∈ t, isWord c = true := by
  by_contra hnone
  obtain ⟨r, hr, hfinal⟩ := (Option.any_eq_true _ _).mp h
  have hwordless : ∀ c ∈ t, isWord c = false := fun c hc =>
    Bool.eq_false_iff.mpr fun hw => hnone ⟨c, hc, hw⟩
  obtain ⟨hstart, -⟩ := blank_of_run hr hwordless nofun hfinal
  cases hstart

end Inlay.Scan.Group
