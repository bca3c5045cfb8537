import Inlay.Proofs.Scan.GroupLanguage

/-!
Binding groups told by neighbourhoods. Whether a text is a group does not depend on how it is
parted into items: it is enough to look at each separator, at the characters next to it that are
not blanks, and at the stretch between one colon and the next.
-/

namespace Inlay.Scan.Group

open Inlay.Unicode

def firstSolid? (t : List Char) : Option Char :=
  t.find? fun c => !isBlank c

def lastSolid? (t : List Char) : Option Char :=
  firstSolid? t.reverse

/-- Every separator of the text stands where a group may have it. -/
structure WellSeparated (t : List Char) : Prop where
  /-- There are word characters, blanks and separators only. -/
  members : ∀ c ∈ t, isWord c = true ∨ isBlank c = true ∨ c = '&' ∨ c = ':' ∨ c = ','
  head : ∃ c, t.head? = some c ∧ (isWord c = true ∨ c = '&')
  ampersand : ∀ a b, t = a ++ '&' :: b → ∃ c, b.head? = some c ∧ isWord c = true
  comma : ∀ a b, t = a ++ ',' :: b → ∃ c, lastSolid? a = some c ∧ isWord c = true
  colon : ∀ a b, t = a ++ ':' :: b →
    (∃ c, lastSolid? a = some c ∧ isWord c = true) ∧
    ∃ c, firstSolid? b = some c ∧ isWord c = true
  /-- The type of one name and the next name are two words. -/
  apart : ∀ a m b, t = a ++ ':' :: (m ++ ':' :: b) → ':' ∉ m → 2 ≤ m.countP isWord

/-- Behind the last colon, if there is one, stand at least `n` word characters. -/
def AfterColon (n : Nat) (t : List Char) : Prop :=
  ∀ a m, t = a ++ ':' :: m → ':' ∉ m → n ≤ m.countP isWord

/-- What a state tells of the text that has been read. -/
def State.Fits (t : List Char) : State → Prop
  | .start => t = []
  | .ampersand => (∃ a, t = a ++ ['&']) ∧ AfterColon 1 t
  | .word typable =>
    (∃ c, lastSolid? t = some c ∧ isWord c = true) ∧ AfterColon 1 t ∧
      (typable = true ↔ AfterColon 2 t)
  | .comma => lastSolid? t = some ',' ∧ AfterColon 1 t
  | .colon => ∃ a m, t = a ++ ':' :: m ∧ ∀ c ∈ m, isBlank c = true

variable {t a b : List Char} {c : Char} {q r s : State}

/-! ### One more character -/

lemma firstSolid?_append (ha : ∀ c ∈ a, isBlank c = true) (b : List Char) :
    firstSolid? (a ++ b) = firstSolid? b := by
  have hnone : a.find? (fun c => !isBlank c) = none :=
    List.find?_eq_none.mpr fun c hc => by simp [ha c hc]
  rw [firstSolid?, List.find?_append, hnone, Option.none_or]
  rfl

lemma firstSolid?_cons (hc : isBlank c = false) (t : List Char) :
    firstSolid? (c :: t) = some c := by
  simp [firstSolid?, hc]

lemma lastSolid?_append_singleton (hc : isBlank c = false) (t : List Char) :
    lastSolid? (t ++ [c]) = some c := by
  rw [lastSolid?, List.reverse_append]
  exact firstSolid?_cons hc _

lemma lastSolid?_append_blanks (hb : ∀ c ∈ b, isBlank c = true) (a : List Char) :
    lastSolid? (a ++ b) = lastSolid? a := by
  rw [lastSolid?, List.reverse_append]
  exact firstSolid?_append (fun c hc => hb c (List.mem_reverse.mp hc)) _

lemma afterColon_zero (t : List Char) : AfterColon 0 t :=
  fun _ _ _ _ => Nat.zero_le _

lemma afterColon_nil (n : Nat) : AfterColon n [] := by
  intro a m h
  simp at h

/-- A character other than a colon counts for what stands behind the last colon. -/
lemma afterColon_append_singleton (hc : c ≠ ':') (n : Nat) (t : List Char) :
    AfterColon n (t ++ [c]) ↔ AfterColon (n - [c].countP isWord) t := by
  constructor
  · rintro h a m rfl hm
    have hcount := h a (m ++ [c]) (by simp) (by simp [hm, hc.symm])
    rw [List.countP_append] at hcount
    omega
  · intro h a m ht hm
    rcases List.eq_nil_or_concat' m with rfl | ⟨m, d, rfl⟩
    · have hlast := (List.append_inj' ht rfl).2
      exact absurd (List.head_eq_of_cons_eq hlast) hc
    · rw [← List.cons_append, ← List.append_assoc] at ht
      obtain ⟨rfl, hlast⟩ := List.append_inj' ht rfl
      cases hlast
      have hcount := h a m rfl fun hmem => hm (List.mem_append_left _ hmem)
      rw [List.countP_append]
      omega

lemma afterColon_append_word (hc : isWord c = true) (n : Nat) (t : List Char) :
    AfterColon (n + 1) (t ++ [c]) ↔ AfterColon n t := by
  have hcolon : c ≠ ':' := by
    rintro rfl
    revert hc
    decide +kernel
  rw [afterColon_append_singleton hcolon, List.countP_singleton, if_pos hc, Nat.add_sub_cancel]

lemma afterColon_append_other (hcolon : c ≠ ':') (hc : isWord c = false) (n : Nat)
    (t : List Char) : AfterColon n (t ++ [c]) ↔ AfterColon n t := by
  rw [afterColon_append_singleton hcolon, List.countP_singleton, hc]
  rfl

/-- Only blanks behind the last colon are no word. -/
lemma not_afterColon (hb : ∀ c ∈ b, isBlank c = true) (a : List Char) :
    ¬AfterColon 1 (a ++ ':' :: b) := by
  intro h
  have hcount := h a b rfl (not_mem_of_class (by decide +kernel) hb)
  have hzero : b.countP isWord = 0 :=
    List.countP_eq_zero.mpr fun c hc => by simp [isWord_of_isBlank (hb c hc)]
  omega

/-! ### What a state tells -/

lemma State.Fits.step (hq : q.Fits t) (h : Group.step q c = some r) : r.Fits (t ++ [c]) := by
  have hampersand : isWord '&' = false := by decide +kernel
  have hcomma : isWord ',' = false := by decide +kernel
  rcases step_cases h with ⟨hc, rfl⟩ | ⟨hc, rfl, hstart, hne⟩ | ⟨rfl, rfl, hne, hcolon⟩ |
    ⟨rfl, rfl, b, rfl⟩ | ⟨rfl, rfl, rfl⟩
  · refine ⟨⟨c, lastSolid?_append_singleton (isBlank_of_isWord hc) t, hc⟩,
      (afterColon_append_word hc 0 t).mpr (afterColon_zero t), ?_⟩
    rw [afterColon_append_word hc 1, bne_iff_ne]
    cases q with
    | start =>
      cases hq
      exact ⟨fun _ => afterColon_nil 1, fun _ => nofun⟩
    | ampersand => exact ⟨fun _ => hq.2, fun _ => nofun⟩
    | word b => exact ⟨fun _ => hq.2.1, fun _ => nofun⟩
    | comma => exact ⟨fun _ => hq.2, fun _ => nofun⟩
    | colon =>
      obtain ⟨a, m, rfl, hm⟩ := hq
      exact ⟨fun hne => absurd rfl hne, fun hafter => absurd hafter (not_afterColon hm a)⟩
  · have hcolon : c ≠ ':' := by
      rintro rfl
      revert hc
      decide +kernel
    have hafter : ∀ n, AfterColon n (t ++ [c]) ↔ AfterColon n t := fun n =>
      afterColon_append_other hcolon (isWord_of_isBlank hc) n t
    have hlast : lastSolid? (t ++ [c]) = lastSolid? t :=
      lastSolid?_append_blanks (by simpa using hc) t
    cases r with
    | start => exact absurd rfl hstart
    | ampersand => exact absurd rfl hne
    | word b => exact ⟨hlast ▸ hq.1, (hafter 1).mpr hq.2.1, hq.2.2.trans (hafter 2).symm⟩
    | comma => exact ⟨hlast.trans hq.1, (hafter 1).mpr hq.2⟩
    | colon =>
      obtain ⟨a, m, rfl, hm⟩ := hq
      refine ⟨a, m ++ [c], by simp, fun d hd => ?_⟩
      rcases List.mem_append.mp hd with hd | hd
      · exact hm d hd
      · rwa [List.mem_singleton.mp hd]
  · refine ⟨⟨t, rfl⟩, (afterColon_append_other (by decide) hampersand 1 t).mpr ?_⟩
    cases q with
    | start =>
      cases hq
      exact afterColon_nil 1
    | ampersand => exact absurd rfl hne
    | word b => exact hq.2.1
    | comma => exact hq.2
    | colon => exact absurd rfl hcolon
  · exact ⟨lastSolid?_append_singleton (by decide +kernel) t,
      (afterColon_append_other (by decide) hcomma 1 t).mpr hq.2.1⟩
  · exact ⟨t, [], rfl, nofun⟩

lemma fits_of_run (h : run .start t = some q) : q.Fits t := by
  induction t using List.reverseRecOn generalizing q with
  | nil =>
    cases h
    rfl
  | append_singleton t c ih =>
    rw [run_append, Option.bind_eq_some_iff] at h
    obtain ⟨r, hr, hstep⟩ := h
    rw [run_cons, Option.bind_eq_some_iff] at hstep
    obtain ⟨s, hs, hlast⟩ := hstep
    cases hlast
    exact (ih hr).step hs

/-! ### Groups are well separated -/

/-- The states before and after a character of a text that is read. -/
lemma exists_step_of_run (h : run q (a ++ c :: b) = some r) :
    ∃ s s', run q a = some s ∧ step s c = some s' ∧ run s' b = some r := by
  rw [run_append, Option.bind_eq_some_iff] at h
  obtain ⟨s, hs, hrest⟩ := h
  rw [run_cons, Option.bind_eq_some_iff] at hrest
  obtain ⟨s', hs', hb⟩ := hrest
  exact ⟨s, s', hs, hs', hb⟩

lemma separator_class (hc : c ∈ ['&', ',', ':']) : isWord c = false ∧ isBlank c = false := by
  have hall : ['&', ',', ':'].all (fun c => !isWord c && !isBlank c) = true := by decide +kernel
  simpa using List.all_eq_true.mp hall c hc

/-- All that a separator can do. -/
lemma step_separator (hc : c ∈ ['&', ',', ':']) (h : step q c = some s) :
    c = '&' ∧ s = .ampersand ∨ c = ',' ∧ (∃ b, q = .word b) ∨
      c = ':' ∧ s = .colon ∧ q = .word true := by
  obtain ⟨hword, hblank⟩ := separator_class hc
  rcases step_cases h with ⟨hw, -⟩ | ⟨hb, -⟩ | ⟨hc, hs, -⟩ | ⟨hc, -, hq⟩ | hcolon
  · rw [hword] at hw
    contradiction
  · rw [hblank] at hb
    contradiction
  · exact Or.inl ⟨hc, hs⟩
  · exact Or.inr (Or.inl ⟨hc, hq⟩)
  · exact Or.inr (Or.inr hcolon)

lemma eq_of_step_ampersand (h : step q '&' = some s) : s = .ampersand := by
  rcases step_separator (by decide) h with ⟨-, hs⟩ | ⟨hc, -⟩ | ⟨hc, -⟩
  · exact hs
  · cases hc
  · cases hc

lemma worded_of_step_comma (h : step q ',' = some s) : ∃ b, q = .word b := by
  rcases step_separator (by decide) h with ⟨hc, -⟩ | ⟨-, hq⟩ | ⟨hc, -⟩
  · cases hc
  · exact hq
  · cases hc

lemma eq_of_step_colon (h : step q ':' = some s) : q = .word true ∧ s = .colon := by
  rcases step_separator (by decide) h with ⟨hc, -⟩ | ⟨hc, -⟩ | ⟨-, hs, hq⟩
  · cases hc
  · cases hc
  · exact ⟨hq, hs⟩

/-- A word follows an ampersand at once. -/
lemma head_of_run_ampersand (h : run .ampersand t = some r) (hr : r.isFinal = true) :
    ∃ c, t.head? = some c ∧ isWord c = true := by
  cases t with
  | nil =>
    cases h
    cases hr
  | cons c t =>
    obtain ⟨s, hs, -⟩ := Option.bind_eq_some_iff.mp h
    refine ⟨c, rfl, ?_⟩
    rcases step_cases hs with ⟨hc, -⟩ | ⟨-, -, -, hne⟩ | ⟨-, -, hne, -⟩ | ⟨-, -, b, hq⟩ | ⟨-, -, hq⟩
    · exact hc
    · exact absurd rfl hne
    · exact absurd rfl hne
    · cases hq
    · cases hq

/-- A word follows a colon, perhaps behind blanks. -/
lemma firstSolid?_of_run_colon (h : run .colon t = some r) (hr : r.isFinal = true) :
    ∃ c, firstSolid? t = some c ∧ isWord c = true := by
  induction t with
  | nil =>
    cases h
    cases hr
  | cons c t ih =>
    obtain ⟨s, hs, hrun⟩ := Option.bind_eq_some_iff.mp h
    rcases step_cases hs with ⟨hc, -⟩ | ⟨hc, rfl, -⟩ | ⟨-, -, -, hne⟩ | ⟨-, -, b, hq⟩ | ⟨-, -, hq⟩
    · exact ⟨c, firstSolid?_cons (isBlank_of_isWord hc) t, hc⟩
    · have hskip : firstSolid? ([c] ++ t) = firstSolid? t :=
        firstSolid?_append (by simpa using hc) t
      rw [← List.singleton_append, hskip]
      exact ih hrun
    · exact absurd rfl hne
    · cases hq
    · cases hq

lemma head_of_run_start (h : run .start t = some r) (hr : r.isFinal = true) :
    ∃ c, t.head? = some c ∧ (isWord c = true ∨ c = '&') := by
  cases t with
  | nil =>
    cases h
    cases hr
  | cons c t =>
    obtain ⟨s, hs, -⟩ := Option.bind_eq_some_iff.mp h
    refine ⟨c, rfl, ?_⟩
    rcases step_cases hs with ⟨hc, -⟩ | ⟨-, -, hne, -⟩ | ⟨hc, -⟩ | ⟨-, -, b, hq⟩ | ⟨-, -, hq⟩
    · exact Or.inl hc
    · exact absurd rfl hne
    · exact Or.inr hc
    · cases hq
    · cases hq

lemma wellSeparated_of_run (h : run .start t = some r) (hr : r.isFinal = true) :
    WellSeparated t where
  members := by
    intro c hc
    have hmember := isMember_of_run h c hc
    simp only [isMember, Bool.or_eq_true, beq_iff_eq] at hmember
    tauto
  head := head_of_run_start h hr
  ampersand := by
    rintro a b rfl
    obtain ⟨s, s', -, hstep, hb⟩ := exists_step_of_run h
    rw [eq_of_step_ampersand hstep] at hb
    exact head_of_run_ampersand hb hr
  comma := by
    rintro a b rfl
    obtain ⟨s, s', ha, hstep, -⟩ := exists_step_of_run h
    obtain ⟨typable, rfl⟩ := worded_of_step_comma hstep
    exact (fits_of_run ha).1
  colon := by
    rintro a b rfl
    obtain ⟨s, s', ha, hstep, hb⟩ := exists_step_of_run h
    obtain ⟨rfl, rfl⟩ := eq_of_step_colon hstep
    exact ⟨(fits_of_run ha).1, firstSolid?_of_run_colon hb hr⟩
  apart := by
    intro a m b ht hm
    rw [← List.cons_append, ← List.append_assoc] at ht
    rw [ht] at h
    obtain ⟨s, s', ha, hstep, -⟩ := exists_step_of_run h
    obtain ⟨rfl, -⟩ := eq_of_step_colon hstep
    exact (fits_of_run ha).2.2.mp rfl a m rfl hm

/-! ### Well separated texts are groups -/

lemma worded_of_fits (hq : q.Fits t) (hlast : lastSolid? t = some c) (hc : isWord c = true) :
    ∃ typable, q = .word typable := by
  have hnot : ∀ d, isWord d = false → lastSolid? t ≠ some d := by
    rintro d hd heq
    rw [hlast] at heq
    cases heq
    rw [hc] at hd
    contradiction
  cases q with
  | start =>
    cases hq
    cases hlast
  | ampersand =>
    obtain ⟨⟨a, rfl⟩, -⟩ := hq
    exact absurd (lastSolid?_append_singleton (by decide +kernel) a) (hnot _ (by decide +kernel))
  | word typable => exact ⟨typable, rfl⟩
  | comma => exact absurd hq.1 (hnot _ (by decide +kernel))
  | colon =>
    obtain ⟨a, m, rfl, hm⟩ := hq
    rw [List.append_cons, lastSolid?_append_blanks hm] at hnot
    exact absurd (lastSolid?_append_singleton (by decide +kernel) a) (hnot _ (by decide +kernel))

namespace WellSeparated

/-- Behind an ampersand the next character is a word character. -/
lemma word_of_ampersand (h : WellSeparated (a ++ b)) (ha : State.Fits a .ampersand) :
    ∃ c, b.head? = some c ∧ isWord c = true := by
  obtain ⟨⟨p, rfl⟩, -⟩ := ha
  exact h.ampersand p b (by simp)

/-- Behind a colon and blanks the next character that is not a blank is a word character. -/
lemma word_of_colon (h : WellSeparated (a ++ b)) (ha : State.Fits a .colon) :
    ∃ c, firstSolid? b = some c ∧ isWord c = true := by
  obtain ⟨p, m, rfl, hm⟩ := ha
  rw [← firstSolid?_append hm b]
  exact (h.colon p (m ++ b) (by simp)).2

/-- In a text that is well separated the automaton always goes on. -/
lemma exists_step (h : WellSeparated (a ++ c :: b)) (hq : q.Fits a) : ∃ r, step q c = some r := by
  rcases h.members c (by simp) with hc | hc | rfl | rfl | rfl
  · exact ⟨_, step_of_isWord hc q⟩
  · have hword : isWord c = false := isWord_of_isBlank hc
    refine ⟨q, step_of_isBlank hc ?_ ?_⟩
    · rintro rfl
      cases hq
      obtain ⟨d, hd, hdw⟩ := h.head
      cases hd
      rcases hdw with hdw | rfl
      · rw [hword] at hdw
        contradiction
      · revert hc
        decide +kernel
    · rintro rfl
      obtain ⟨d, hd, hdw⟩ := h.word_of_ampersand hq
      cases hd
      rw [hword] at hdw
      contradiction
  · obtain ⟨hword, hblank⟩ := separator_class (c := '&') (by decide)
    refine ⟨.ampersand, step_ampersand ?_ ?_⟩
    · rintro rfl
      obtain ⟨d, hd, hdw⟩ := h.word_of_ampersand hq
      cases hd
      rw [hword] at hdw
      contradiction
    · rintro rfl
      obtain ⟨d, hd, hdw⟩ := h.word_of_colon hq
      rw [firstSolid?_cons hblank] at hd
      cases hd
      rw [hword] at hdw
      contradiction
  · obtain ⟨⟨d, hd, hdw⟩, -⟩ := h.colon a b rfl
    obtain ⟨typable, rfl⟩ := worded_of_fits hq hd hdw
    have htypable : typable = true := hq.2.2.mpr fun p m ha hm =>
      h.apart p m b (by rw [ha]; simp) hm
    exact ⟨.colon, htypable ▸ step_colon⟩
  · obtain ⟨d, hd, hdw⟩ := h.comma a b rfl
    obtain ⟨typable, rfl⟩ := worded_of_fits hq hd hdw
    exact ⟨.comma, step_comma typable⟩

lemma exists_run (h : WellSeparated t) (hab : t = a ++ b) : ∃ q, run .start a = some q := by
  induction a using List.reverseRecOn generalizing b with
  | nil => exact ⟨.start, rfl⟩
  | append_singleton a c ih =>
    rw [List.append_assoc, List.singleton_append] at hab
    obtain ⟨q, hq⟩ := ih hab
    obtain ⟨r, hr⟩ := (hab ▸ h).exists_step (fits_of_run hq)
    exact ⟨r, by rw [run_append, hq, Option.bind_some, run_cons, hr]; rfl⟩

/-- At the end of the text no separator is left open. -/
lemma isFinal (h : WellSeparated t) (hq : q.Fits t) : q.isFinal = true := by
  rw [← List.append_nil t] at h
  cases q with
  | start =>
    cases hq
    obtain ⟨c, hc, -⟩ := h.head
    cases hc
  | ampersand =>
    obtain ⟨c, hc, -⟩ := h.word_of_ampersand hq
    cases hc
  | word typable => rfl
  | comma => rfl
  | colon =>
    obtain ⟨c, hc, -⟩ := h.word_of_colon hq
    cases hc

end WellSeparated

/-- **Groups are the texts that are well separated**: which texts the pattern of a group matches as
a whole can be told from the neighbours of each separator, with no parting into items. -/
theorem mem_language_iff_wellSeparated (t : List Char) : t ∈ language ↔ WellSeparated t := by
  rw [mem_language_iff, accepts, Option.any_eq_true]
  constructor
  · rintro ⟨q, hq, hfinal⟩
    exact wellSeparated_of_run hq hfinal
  · intro h
    obtain ⟨q, hq⟩ := h.exists_run (List.append_nil t).symm
    exact ⟨q, hq, h.isFinal (fits_of_run hq)⟩

-- a name may be cut in two, so that the second half can be given a type of its own
example : "a:bc:d".toList ∈ language ∧ "a:b:c".toList ∉ language := by decide +kernel

end Inlay.Scan.Group
