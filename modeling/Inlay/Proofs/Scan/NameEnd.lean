import Mathlib.Data.List.TakeWhile
import Mathlib.Tactic.Lemma
import Inlay.Scan.Binding
import Inlay.Scan.Group

/-!
Places just past a name. A word character stands right before such a place and none right after
it, so the name cannot be read any longer. Every anchor of a binding group is one.
-/

namespace Inlay.Scan

open Inlay.Unicode Inlay.Text

/-- A run of characters of a class that goes no further to the right. -/
structure IsRun (p : Char → Bool) (run rest : List Char) : Prop where
  all : ∀ c ∈ run, p c = true
  stop : ∀ c, rest.head? = some c → p c = false

namespace IsRun

variable {p : Char → Bool} {run rest : List Char}

lemma takeWhile_eq (h : IsRun p run rest) : (run ++ rest).takeWhile p = run := by
  rw [List.takeWhile_append_of_pos h.all]
  cases rest with
  | nil => simp
  | cons c rest => simp [h.stop c rfl]

lemma dropWhile_eq (h : IsRun p run rest) : (run ++ rest).dropWhile p = rest := by
  rw [List.dropWhile_append_of_pos h.all]
  cases rest with
  | nil => rfl
  | cons c rest => simp [h.stop c rfl]

/-- The end of a run is a run. -/
lemma of_append {front : List Char} (h : IsRun p (front ++ run) rest) : IsRun p run rest :=
  ⟨fun c hc => h.all c (List.mem_append_right front hc), h.stop⟩

lemma unique {run' rest' : List Char} (h : IsRun p run rest) (h' : IsRun p run' rest')
    (he : run ++ rest = run' ++ rest') : run = run' ∧ rest = rest' := by
  have htake := h.takeWhile_eq
  rw [he, h'.takeWhile_eq] at htake
  subst htake
  exact ⟨rfl, List.append_cancel_left he⟩

end IsRun

lemma isRun_takeWhile (p : Char → Bool) (cs : List Char) :
    IsRun p (cs.takeWhile p) (cs.dropWhile p) := by
  refine ⟨fun c hc => List.mem_takeWhile_imp hc, fun c hc => ?_⟩
  have hstop := List.head?_dropWhile_not p cs
  rwa [hc] at hstop

/-- What is not of a class stands in no text of the class. -/
lemma not_mem_of_class {p : Char → Bool} {c : Char} {t : List Char} (hc : p c = false)
    (ht : ∀ d ∈ t, p d = true) : c ∉ t := by
  intro hmem
  rw [ht c hmem] at hc
  contradiction

/-- A text ends in a name, and what follows does not go on with it. -/
structure NameEnd (before after : List Char) : Prop where
  word : ∃ c, before.getLast? = some c ∧ isWord c = true
  stop : ∀ c, after.head? = some c → isWord c = false

namespace NameEnd

variable {p q : List Char}

lemma ne_nil (h : NameEnd p q) : p ≠ [] := by
  obtain ⟨c, hc, -⟩ := h.word
  rintro rfl
  simp at hc

lemma utf8Len_pos (h : NameEnd p q) : 0 < utf8Len p := by
  cases p with
  | nil => exact absurd rfl h.ne_nil
  | cons c cs =>
    have := c.utf8Size_pos
    rw [utf8Len_cons]
    omega

lemma append_left (a : List Char) (h : NameEnd p q) : NameEnd (a ++ p) q := by
  obtain ⟨c, hc, hw⟩ := h.word
  exact ⟨⟨c, by rw [List.getLast?_append, hc, Option.some_or], hw⟩, h.stop⟩

/-- More text may follow, unless it would go on with the name. -/
lemma append_right {b : List Char} (hb : ∀ c, b.head? = some c → isWord c = false)
    (h : NameEnd p q) : NameEnd p (q ++ b) := by
  refine ⟨h.word, fun c hc => ?_⟩
  cases q with
  | nil => exact hb c hc
  | cons d q => exact h.stop c hc

end NameEnd

/-- A word that goes no further to the right ends just past a name. -/
lemma IsRun.nameEnd {run rest : List Char} (h : IsRun isWord run rest) (hne : run ≠ []) :
    NameEnd run rest :=
  ⟨⟨_, List.getLast?_eq_some_getLast hne, h.all _ (List.getLast_mem hne)⟩, h.stop⟩

lemma Word.nameEnd_of_next? {cs : List Char} {w : Word} (h : Word.next? cs = some w) :
    NameEnd (w.gap ++ w.text) w.rest := by
  simp only [Word.next?, Option.ite_none_left_eq_some, Option.some.injEq, not_or] at h
  obtain ⟨⟨-, htext⟩, rfl⟩ := h
  exact ((isRun_takeWhile isWord _).nameEnd htext).append_left _

lemma nameEnd_of_nameEnd? {part : List Char} {n : Nat} (h : nameEnd? part = some n) :
    ∃ p q, part = p ++ q ∧ utf8Len p = n ∧ NameEnd p q := by
  set lead := part.takeWhile fun c => !isWord c with hlead
  set tail := part.dropWhile fun c => !isWord c with htail
  have hpart : part = lead ++ tail := (List.takeWhile_append_dropWhile).symm
  have hsplit : tail = tail.takeWhile isWord ++ tail.dropWhile isWord :=
    (List.takeWhile_append_dropWhile).symm
  unfold nameEnd? at h
  simp only [← hlead, ← htail] at h
  by_cases hfirst : tail.takeWhile isWord = []
  · simp [hfirst] at h
  rw [if_neg hfirst] at h
  -- without a qualifier the first word of the part is the name
  have hname : ∃ p q, part = p ++ q ∧
      utf8Len p = utf8Len lead + utf8Len (tail.takeWhile isWord) ∧ NameEnd p q := by
    refine ⟨lead ++ tail.takeWhile isWord, tail.dropWhile isWord, ?_, by simp, ?_⟩
    · rw [List.append_assoc, ← hsplit, ← hpart]
    · exact ((isRun_takeWhile isWord _).nameEnd hfirst).append_left lead
  cases hnext : Word.next? (tail.dropWhile isWord) with
  | none =>
    rw [hnext] at h
    cases h
    exact hname
  | some w =>
    rw [hnext] at h
    simp only at h
    split at h
    · cases h
      refine ⟨lead ++ tail.takeWhile isWord ++ (w.gap ++ w.text), w.rest, ?_, ?_, ?_⟩
      · have hw := Word.eq_of_next? hnext
        rw [List.append_assoc, List.append_assoc, List.append_assoc, ← hw, ← hsplit, ← hpart]
      · simp [Word.size, Nat.add_assoc]
      · exact (Word.nameEnd_of_next? hnext).append_left _
    · cases h
      exact hname

lemma nameEnd?_ne_none {part : List Char} {c : Char} (hc : c ∈ part) (hw : isWord c = true) :
    nameEnd? part ≠ none := by
  have hfirst : (part.dropWhile fun c => !isWord c).takeWhile isWord ≠ [] := by
    cases hd : part.dropWhile fun c => !isWord c with
    | nil =>
      have := List.dropWhile_eq_nil_iff.mp hd c hc
      simp [hw] at this
    | cons d ds =>
      have := List.head?_dropWhile_not (fun c => !isWord c) part
      simp only [hd, List.head?_cons, Bool.not_eq_false'] at this
      simp [this]
  unfold nameEnd?
  simp only [if_neg hfirst]
  split
  · split <;> simp
  · simp

/-! ### The names of a group -/

lemma mem_of_mem_join {sep c : Char} {parts : List (List Char)} (h : c ∈ join sep parts) :
    c = sep ∨ ∃ part ∈ parts, c ∈ part := by
  induction parts with
  | nil => simp [join] at h
  | cons p ps ih =>
    cases ps with
    | nil => exact Or.inr ⟨p, List.mem_cons_self, h⟩
    | cons q qs =>
      rw [join, List.mem_append, List.mem_cons] at h
      rcases h with h | h | h
      · exact Or.inr ⟨p, List.mem_cons_self, h⟩
      · exact Or.inl h
      · rcases ih h with hs | ⟨part, hpart, hc⟩
        · exact Or.inl hs
        · exact Or.inr ⟨part, List.mem_cons_of_mem _ hpart, hc⟩

lemma nameEnd_of_mem_partAnchors {offset a : Nat} {parts : List (List Char)}
    (h : a ∈ partAnchors offset parts) :
    ∃ p q, join ',' parts = p ++ q ∧ a = offset + utf8Len p ∧ NameEnd p q := by
  induction parts generalizing offset with
  | nil => simp at h
  | cons part parts ih =>
    rw [partAnchors_cons, List.mem_append] at h
    rcases h with h | h
    · obtain ⟨n, hn, rfl⟩ : ∃ n, nameEnd? part = some n ∧ offset + n = a := by
        simpa using h
      obtain ⟨p, q, rfl, rfl, hpq⟩ := nameEnd_of_nameEnd? hn
      cases parts with
      | nil => exact ⟨p, q, rfl, rfl, hpq⟩
      | cons r rs =>
        refine ⟨p, q ++ ',' :: join ',' (r :: rs), by simp [join], rfl, hpq.append_right ?_⟩
        intro c hc
        cases hc
        decide +kernel
    · obtain ⟨p, q, hpq, rfl, hend⟩ := ih h
      cases parts with
      | nil => simp at h
      | cons r rs =>
        refine ⟨part ++ ',' :: p, q, by simp [join, hpq], ?_, ?_⟩
        · have hcomma : (',' : Char).utf8Size = 1 := by decide
          rw [utf8Len_append, utf8Len_cons, hcomma]
          omega
        · rw [List.append_cons]
          exact hend.append_left _

lemma lt_of_mem_partAnchors {offset a : Nat} {parts : List (List Char)}
    (h : a ∈ partAnchors offset parts) : offset < a := by
  obtain ⟨p, q, -, rfl, hpq⟩ := nameEnd_of_mem_partAnchors h
  have := hpq.utf8Len_pos
  omega

lemma pairwise_partAnchors (offset : Nat) (parts : List (List Char)) :
    (partAnchors offset parts).Pairwise (· < ·) := by
  induction parts generalizing offset with
  | nil => simp
  | cons part parts ih =>
    rw [partAnchors_cons, List.pairwise_append]
    refine ⟨?_, ih _, fun a ha b hb => ?_⟩
    · cases nameEnd? part <;> simp
    · obtain ⟨n, hn, rfl⟩ : ∃ n, nameEnd? part = some n ∧ offset + n = a := by
        simpa using ha
      obtain ⟨p, q, rfl, rfl, -⟩ := nameEnd_of_nameEnd? hn
      have hlt := lt_of_mem_partAnchors hb
      rw [utf8Len_append] at hlt
      omega

lemma partAnchors_add (offset d : Nat) (parts : List (List Char)) :
    partAnchors (offset + d) parts = (partAnchors offset parts).map (· + d) := by
  induction parts generalizing offset with
  | nil => simp
  | cons part parts ih =>
    have hnext : offset + d + utf8Len part + 1 = offset + utf8Len part + 1 + d := by omega
    rw [partAnchors_cons, partAnchors_cons, hnext, ih, List.map_append]
    congr 1
    cases nameEnd? part with
    | none => simp
    | some n => simp; omega

lemma nameEnd_of_mem_bindings {offset a : Nat} {t : List Char} (h : a ∈ bindings offset t) :
    ∃ p q, t = p ++ q ∧ a = offset + utf8Len p ∧ NameEnd p q := by
  obtain ⟨p, q, ht, ha, hpq⟩ := nameEnd_of_mem_partAnchors h
  exact ⟨p, q, by rw [← ht, join_split], ha, hpq⟩

lemma pairwise_bindings (offset : Nat) (t : List Char) :
    (bindings offset t).Pairwise (· < ·) :=
  pairwise_partAnchors offset _

lemma bindings_add (offset d : Nat) (t : List Char) :
    bindings (offset + d) t = (bindings offset t).map (· + d) :=
  partAnchors_add offset d _

lemma bindings_ne_nil {offset : Nat} {t : List Char} {c : Char} (hc : c ∈ t)
    (hw : isWord c = true) : bindings offset t ≠ [] := by
  have hcomma : c ≠ ',' := by
    rintro rfl
    revert hw
    decide +kernel
  rw [← join_split ',' t] at hc
  obtain ⟨part, hpart, hcp⟩ := (mem_of_mem_join hc).resolve_left hcomma
  unfold bindings
  generalize split ',' t = parts at hpart
  induction parts generalizing offset with
  | nil => simp at hpart
  | cons r rs ih =>
    rw [partAnchors_cons]
    rcases List.mem_cons.mp hpart with rfl | hpart
    · cases hn : nameEnd? part with
      | none => exact absurd hn (nameEnd?_ne_none hcp hw)
      | some n => simp
    · simp [ih hpart]

/-! ### One more character at the end -/

section Appended

variable {z : Char}

lemma takeWhile_append_singleton {p : Char → Bool} (h : p z = false) (cs : List Char) :
    (cs ++ [z]).takeWhile p = cs.takeWhile p := by
  induction cs with
  | nil => simp [h]
  | cons c cs ih => simp [List.takeWhile_cons, ih]

lemma dropWhile_append_singleton {p : Char → Bool} (h : p z = false) (cs : List Char) :
    (cs ++ [z]).dropWhile p = cs.dropWhile p ++ [z] := by
  induction cs with
  | nil => simp [h]
  | cons c cs ih =>
    rw [List.cons_append, List.dropWhile_cons, List.dropWhile_cons, ih]
    split <;> rfl

/-- What is dropped in front stays the same if something else follows it; otherwise no more than
the new character is left. -/
lemma dropWhile_append_singleton_cases (p : Char → Bool) (cs : List Char) :
    (∃ c rest, cs.dropWhile p = c :: rest ∧ (cs ++ [z]).dropWhile p = c :: (rest ++ [z]) ∧
      (cs ++ [z]).takeWhile p = cs.takeWhile p) ∨
    (cs.dropWhile p = [] ∧
      ((cs ++ [z]).dropWhile p = [] ∨ (cs ++ [z]).dropWhile p = [z])) := by
  induction cs with
  | nil =>
    refine Or.inr ⟨rfl, ?_⟩
    cases h : p z <;> simp [h]
  | cons c cs ih =>
    cases hc : p c with
    | true => simpa [hc] using ih
    | false => exact Or.inl ⟨c, cs, by simp [hc], by simp [hc], by simp [hc]⟩

lemma next?_append_singleton (hz : isWord z = false) (cs : List Char) :
    Word.next? (cs ++ [z]) = (Word.next? cs).map fun w => ⟨w.gap, w.text, w.rest ++ [z]⟩ := by
  unfold Word.next?
  simp only
  rcases dropWhile_append_singleton_cases (z := z) isBlank cs with
    ⟨c, rest, hdrop, hdrop', htake⟩ | ⟨hdrop, hdrop'⟩
  · rw [hdrop, hdrop', htake, ← List.cons_append, takeWhile_append_singleton hz,
      dropWhile_append_singleton hz]
    split <;> rfl
  · have hword : ((cs ++ [z]).dropWhile isBlank).takeWhile isWord = [] := by
      rcases hdrop' with h | h <;> simp [h, hz]
    simp [hdrop, hword]

/-- A character that is no separator goes to the last part. -/
lemma exists_split_append_singleton {sep z : Char} (hz : z ≠ sep) (cs : List Char) :
    ∃ parts last, split sep cs = parts ++ [last] ∧
      split sep (cs ++ [z]) = parts ++ [last ++ [z]] := by
  induction cs with
  | nil => exact ⟨[], [], rfl, by simp [split, hz]⟩
  | cons c cs ih =>
    obtain ⟨parts, last, hsplit, hsplit'⟩ := ih
    by_cases hc : c = sep
    · subst hc
      exact ⟨[] :: parts, last, by simp [hsplit], by simp [hsplit']⟩
    · cases parts with
      | nil => exact ⟨[], c :: last, by simp [split, hc, hsplit], by simp [split, hc, hsplit']⟩
      | cons part parts =>
        exact ⟨(c :: part) :: parts, last, by simp [split, hc, hsplit],
          by simp [split, hc, hsplit']⟩

lemma nameEnd?_append_singleton {z : Char} (hz : isWord z = false) (part : List Char) :
    nameEnd? (part ++ [z]) = nameEnd? part := by
  unfold nameEnd?
  simp only
  rcases dropWhile_append_singleton_cases (z := z) (fun c => !isWord c) part with
    ⟨c, rest, hdrop, hdrop', htake⟩ | ⟨hdrop, hdrop'⟩
  · rw [hdrop, hdrop', htake, ← List.cons_append, takeWhile_append_singleton hz,
      dropWhile_append_singleton hz, next?_append_singleton hz]
    cases Word.next? ((c :: rest).dropWhile isWord) <;> rfl
  · have hnoword : ((part ++ [z]).dropWhile fun c => !isWord c).takeWhile isWord = [] := by
      rcases hdrop' with h | h <;> simp [h, hz]
    rw [hdrop, hnoword]
    rfl

lemma partAnchors_append_singleton {a b : List Char} (h : nameEnd? a = nameEnd? b) (o : Nat)
    (parts : List (List Char)) : partAnchors o (parts ++ [a]) = partAnchors o (parts ++ [b]) := by
  induction parts generalizing o with
  | nil => simp [h]
  | cons part parts ih => simp [ih]

/-- A character that is neither a comma nor part of a word binds no name. -/
lemma bindings_append_singleton {z : Char} (hz : isWord z = false) (hcomma : z ≠ ',') (o : Nat)
    (t : List Char) : bindings o (t ++ [z]) = bindings o t := by
  obtain ⟨parts, last, hsplit, hsplit'⟩ := exists_split_append_singleton hcomma t
  rw [bindings, bindings, hsplit, hsplit']
  exact partAnchors_append_singleton (nameEnd?_append_singleton hz last) o parts

end Appended

lemma bindings_append {z : List Char} (hz : ∀ c ∈ z, isWord c = false ∧ c ≠ ',') (o : Nat)
    (t : List Char) : bindings o (t ++ z) = bindings o t := by
  induction z generalizing t with
  | nil => rw [List.append_nil]
  | cons c z ih =>
    obtain ⟨⟨hword, hcomma⟩, hz⟩ := List.forall_mem_cons.mp hz
    rw [List.append_cons, ih hz, bindings_append_singleton hword hcomma]

namespace Group

/-- All that one more character can do. -/
lemma step_cases {q s : State} {c : Char} (h : step q c = some s) :
    isWord c = true ∧ s = .word (q != .colon) ∨
    isBlank c = true ∧ s = q ∧ q ≠ .start ∧ q ≠ .ampersand ∨
    c = '&' ∧ s = .ampersand ∧ q ≠ .ampersand ∧ q ≠ .colon ∨
    c = ',' ∧ s = .comma ∧ (∃ b, q = .word b) ∨
    c = ':' ∧ s = .colon ∧ q = .word true := by
  unfold step at h
  split at h
  · next hw => exact Or.inl ⟨hw, (Option.some.inj h).symm⟩
  split at h
  · next hb =>
    refine Or.inr (Or.inl ⟨hb, ?_⟩)
    cases q <;> cases h <;> simp
  split at h
  · next ha =>
    refine Or.inr (Or.inr (Or.inl ⟨ha, ?_⟩))
    cases q <;> cases h <;> simp
  split at h
  · next hk =>
    refine Or.inr (Or.inr (Or.inr (Or.inl ⟨hk, ?_⟩)))
    cases q <;> cases h
    simp
  split at h
  · next hl =>
    refine Or.inr (Or.inr (Or.inr (Or.inr ⟨hl, ?_⟩)))
    cases q with
    | word b =>
      cases b <;> cases h
      simp
    | _ => cases h
  · contradiction

end Group

end Inlay.Scan
