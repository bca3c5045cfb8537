import Inlay.Proofs.Scan.Rounds

/-!
Characters that may stand at the end of code without any effect. A shape ends in a delimiter, in
the bracket that closes a group or in an arrow; a character that is none of these and goes on with
no word can be put at the end or taken away, and the sites stay the same.
-/

namespace Inlay.Scan

open Inlay.Unicode Inlay.Text

/-- A character that no shape ends in and that goes on with no word. -/
structure Idle (z : Char) : Prop where
  word : isWord z = false
  alphanumeric : isAlphanumeric z = false
  ends : z ∉ [' ', ':', '=', '|', ')', '>']

lemma idle_slash : Idle '/' := ⟨by decide +kernel, by decide +kernel, by decide⟩

/-- A carriage return is idle although it is a blank. -/
lemma idle_carriageReturn : Idle '\r' := ⟨by decide +kernel, by decide +kernel, by decide⟩

variable {z : Char}

/-- No idle character stands in the fixed part of a shape. -/
lemma Idle.not_mem (hz : Idle z) {k : List Char}
    (hk : (k.all fun c => isWord c || c == ' ') = true) : z ∉ k := by
  intro h
  have hor := List.all_eq_true.mp hk z h
  rw [Bool.or_eq_true, beq_iff_eq] at hor
  rcases hor with hw | rfl
  · rw [hz.word] at hw
    contradiction
  · exact hz.ends List.mem_cons_self

/-- A fixed text in front that does not hold the new character has been there before. -/
lemma exists_of_append_singleton {cs k l : List Char} (hk : z ∉ k)
    (h : cs ++ [z] = k ++ l) : ∃ r, l = r ++ [z] ∧ cs = k ++ r := by
  rcases List.append_eq_append_iff.mp h with ⟨r, rfl, hr⟩ | ⟨r, rfl, rfl⟩
  · cases r with
    | nil => exact ⟨[], hr.symm, by simp⟩
    | cons d r =>
      have hd : z = d := (List.cons.inj hr).1
      subst hd
      exact absurd (List.mem_append_right cs List.mem_cons_self) hk
  · exact ⟨r, rfl, rfl⟩

/-! ### Single names -/

lemma isDelimited_append_idle (hz : Idle z) (cs : List Char) :
    isDelimited (cs ++ [z]) = isDelimited cs := by
  cases cs with
  | nil =>
    have hends := hz.ends
    simp only [List.mem_cons, not_or] at hends
    simp [isDelimited, hends]
  | cons c cs => rfl

lemma afterKeyword?_append_idle (hz : Idle z) (cs : List Char) :
    afterKeyword? (cs ++ [z]) = (afterKeyword? cs).map (· ++ [z]) := by
  have hlet : z ∉ ['l', 'e', 't'] := hz.not_mem (by decide +kernel)
  have hfor : z ∉ ['f', 'o', 'r'] := hz.not_mem (by decide +kernel)
  unfold afterKeyword?
  split
  · next rest h =>
    obtain ⟨r, rfl, rfl⟩ := exists_of_append_singleton hlet h
    rfl
  · next rest h =>
    obtain ⟨r, rfl, rfl⟩ := exists_of_append_singleton hfor h
    rfl
  · next hnolet hnofor =>
    split
    · exact absurd rfl (hnolet _)
    · exact absurd rfl (hnofor _)
    · rfl

lemma declarationAt_append_idle (hz : Idle z) (b : Option Char) (cs : List Char) :
    declarationAt b (cs ++ [z]) = declarationAt b cs := by
  unfold declarationAt
  split
  · rfl
  rw [afterKeyword?_append_idle hz]
  cases afterKeyword? cs with
  | none => rfl
  | some rest =>
    simp only [Option.map_some, Option.bind_eq_bind, Option.bind_some,
      next?_append_singleton hz.word]
    cases Word.next? rest with
    | none => rfl
    | some w =>
      simp only [Option.map_some, Option.bind_some, isDelimited_append_idle hz,
        next?_append_singleton hz.word]
      cases Word.next? w.rest with
      | none => rfl
      | some v => simp only [Option.map_some, isDelimited_append_idle hz]; rfl

/-! ### Groups -/

lemma before?_append_singleton {close : Char} (hz : z ≠ close) (cs : List Char) :
    Group.before? close (cs ++ [z]) =
      (Group.before? close cs).map fun g => (g.1, g.2 ++ [z]) := by
  unfold Group.before?
  rcases dropWhile_append_singleton_cases (z := z) Group.isMember cs with
    ⟨c, rest, hdrop, hdrop', htake⟩ | ⟨hdrop, hdrop' | hdrop'⟩
  · rw [hdrop, hdrop', htake]
    simp only
    split <;> rfl
  · rw [hdrop, hdrop']
    rfl
  · rw [hdrop, hdrop']
    simp [hz]

lemma parenGroup?_append_idle (hz : Idle z) (cs : List Char) :
    parenGroup? (cs ++ [z]) = (parenGroup? cs).map fun g => (g.1, g.2 ++ [z]) := by
  have hclose : z ≠ ')' := by
    rintro rfl
    exact hz.ends (by decide)
  unfold parenGroup?
  split
  · next rest h =>
    cases cs with
    | nil =>
      cases h
      rfl
    | cons c cs =>
      cases h
      exact before?_append_singleton hclose cs
  · next h =>
    split
    · exact absurd rfl (h _)
    · rfl

lemma closureAt_append_idle (hz : Idle z) (cs : List Char) :
    closureAt (cs ++ [z]) = closureAt cs := by
  have hclose : z ≠ '|' := by
    rintro rfl
    exact hz.ends (by decide)
  unfold closureAt
  split
  · next rest h =>
    obtain ⟨r, rfl, rfl⟩ := exists_of_append_singleton (k := ['|']) (by simpa using hclose) h
    simp only [before?_append_singleton hclose, Option.map_map]
    rfl
  · next h =>
    split
    · exact absurd rfl (h _)
    · rfl

lemma matchArmAt_append_idle (hz : Idle z) (cs : List Char) :
    matchArmAt (cs ++ [z]) = matchArmAt cs := by
  have harrow : z ≠ '>' := by
    rintro rfl
    exact hz.ends (by decide)
  unfold matchArmAt
  rw [parenGroup?_append_idle hz]
  cases parenGroup? cs with
  | none => rfl
  | some g =>
    simp only [Option.map_some, Option.bind_eq_bind, Option.bind_some]
    rcases dropWhile_append_singleton_cases (z := z) (fun c => c == ')' || isBlank c) g.2 with
      ⟨c, rest, hdrop, hdrop', -⟩ | ⟨hdrop, hdrop' | hdrop'⟩
    · rw [hdrop, hdrop']
      cases rest with
      | nil => simp [harrow]
      | cons d rest =>
        simp only [List.cons_append]
        split <;> split <;> simp_all
    · rw [hdrop, hdrop']
    · rw [hdrop, hdrop']
      simp

lemma lastGroup_append_idle (hz : Idle z) (offset : Nat) (best : Option (Nat × List Char))
    (cs : List Char) : lastGroup offset best (cs ++ [z]) = lastGroup offset best cs := by
  induction cs generalizing offset best with
  | nil =>
    have hnone : parenGroup? [z] = none := parenGroup?_append_idle hz []
    rw [List.nil_append]
    simp [lastGroup, hnone]
  | cons c cs ih =>
    have hgroup := parenGroup?_append_idle hz (c :: cs)
    rw [List.cons_append] at hgroup ⊢
    rw [lastGroup, lastGroup, hgroup, ih, Option.map_map]
    rfl

lemma spacedGroup_append_idle (hz : Idle z) (offset : Nat) (cs : List Char) :
    spacedGroup offset (cs ++ [z]) = spacedGroup offset cs := by
  unfold spacedGroup
  rcases dropWhile_append_singleton_cases (z := z) isBlank cs with
    ⟨c, rest, hdrop, hdrop', htake⟩ | ⟨hdrop, hdrop'⟩
  · rw [hdrop, hdrop', htake, ← List.cons_append, parenGroup?_append_idle hz]
    simp only [Option.map_map]
    rfl
  · have hnone : parenGroup? ((cs ++ [z]).dropWhile isBlank) = none := by
      rcases hdrop' with h | h
      · rw [h]
        rfl
      · rw [h]
        exact parenGroup?_append_idle hz []
    have hnil : parenGroup? [] = none := rfl
    simp only [hdrop, hnone, hnil, Option.map_none, ite_self]

lemma tupleAt_append_idle (hz : Idle z) (cs : List Char) :
    tupleAt (cs ++ [z]) = tupleAt cs := by
  have hlet : z ∉ ['l', 'e', 't'] := hz.not_mem (by decide +kernel)
  have hfor : z ∉ ['f', 'o', 'r'] := hz.not_mem (by decide +kernel)
  have hif : z ∉ ['i', 'f', ' ', 'l', 'e', 't'] := hz.not_mem (by decide +kernel)
  have hnot : z ≠ '=' := by
    rintro rfl
    exact hz.ends (by decide)
  unfold tupleAt
  split
  · next rest h =>
    obtain ⟨r, rfl, rfl⟩ := exists_of_append_singleton hlet h
    exact spacedGroup_append_idle hz 3 r
  · next rest h =>
    obtain ⟨r, rfl, rfl⟩ := exists_of_append_singleton hfor h
    exact spacedGroup_append_idle hz 3 r
  · next c rest h =>
    obtain ⟨r, hr, rfl⟩ := exists_of_append_singleton (l := c :: rest) hif h
    cases r with
    -- the character after the head is the new one, and no parenthesis follows it
    | nil =>
      cases hr
      simp [hnot, lastGroup]
    | cons d r =>
      cases hr
      exact congrArg (fun g => if c = '=' then none else g)
        (lastGroup_append_idle hz (6 + c.utf8Size) none r)
  · next hnolet hnofor hnoif =>
    split
    · exact absurd rfl (hnolet _)
    · exact absurd rfl (hnofor _)
    · exact absurd rfl (hnoif _ _)
    · rfl

/-! ### Shapes and sites -/

lemma anchorsAt?_append_idle (hz : Idle z) (s : Shape) (b : Option Char) (cs : List Char) :
    s.anchorsAt? b (cs ++ [z]) = s.anchorsAt? b cs := by
  cases s with
  | declaration => simp only [Shape.anchorsAt?, declarationAt_append_idle hz]
  | closure => simp only [Shape.anchorsAt?, closureAt_append_idle hz]
  | tuple => simp only [Shape.anchorsAt?, tupleAt_append_idle hz]
  | matchArm => simp only [Shape.anchorsAt?, matchArmAt_append_idle hz]

/-- Nothing binds a name at the end of a text. -/
lemma anchorsAt?_nil (s : Shape) (b : Option Char) : s.anchorsAt? b [] = none := by
  by_contra h
  obtain ⟨as, has⟩ := Option.ne_none_iff_exists'.mp h
  have hanchors := anchorsOf_of_anchorsAt? has
  obtain ⟨a, as, rfl⟩ := List.exists_cons_of_ne_nil hanchors.ne_nil
  obtain ⟨p, q, hpq, -, hend⟩ := hanchors.nameEnd a List.mem_cons_self
  exact hend.ne_nil (List.append_eq_nil_iff.mp hpq.symm).1

lemma leftmost_append_singleton {α : Type} {read : Option Char → List Char → Option α}
    (hnil : ∀ b, read b [] = none) (hread : ∀ b cs, read b (cs ++ [z]) = read b cs)
    (b : Option Char) (o : Nat) (cs : List Char) :
    leftmost read b o (cs ++ [z]) = leftmost read b o cs := by
  induction cs generalizing b o with
  | nil =>
    have hz : read b [z] = none := (hread b []).trans (hnil b)
    rw [List.nil_append, leftmost_cons, hz, leftmost_nil, leftmost_nil, hnil, hnil]
    rfl
  | cons c cs ih =>
    have hc := hread b (c :: cs)
    rw [List.cons_append] at hc ⊢
    rw [leftmost_cons, leftmost_cons, hc, ih]

lemma anchors?_append_idle (hz : Idle z) (s : Shape) (cs : List Char) :
    s.anchors? (cs ++ [z]) = s.anchors? cs := by
  rw [anchors?_eq, anchors?_eq,
    leftmost_append_singleton (anchorsAt?_nil s) (anchorsAt?_append_idle hz s)]

lemma resolve?_append_idle (hz : Idle z) (cs : List Char) :
    resolve? (cs ++ [z]) = resolve? cs := by
  simp only [resolve?_eq, anchors?_append_idle hz]

/-- A round goes on as before if an idle character is put at the end of what it leaves. -/
lemma Round.append_idle {p q : List Char} {r : Resolution} (h : Round p q r) (hz : Idle z) :
    Round p (q ++ [z]) r := by
  refine ⟨?_, h.last, h.nameEnd.append_right ?_⟩
  · rw [← List.append_assoc, resolve?_append_idle hz, h.found]
  · intro c hc
    cases hc
    exact hz.word

lemma takeBytes_append {n : Nat} {a : List Char} (h : n ≤ utf8Len a) (b : List Char) :
    takeBytes n (a ++ b) = takeBytes n a := by
  induction a generalizing n with
  | nil =>
    obtain rfl : n = 0 := Nat.le_zero.mp h
    simp
  | cons c cs ih =>
    rw [utf8Len_cons] at h
    rw [List.cons_append, takeBytes, takeBytes]
    split
    · rw [ih (by omega)]
    · rfl

/-- **An idle character at the end** of code changes no site. -/
theorem codeSites_append_idle (hz : Idle z) (number column : Nat) (cs : List Char) :
    codeSites number column (cs ++ [z]) = codeSites number column cs := by
  induction cs using rounds_induction generalizing column with
  | stop cs hnone =>
    rw [codeSites_none hnone, codeSites_none ((resolve?_append_idle hz cs).trans hnone)]
  | round p q r hround ih =>
    rw [List.append_assoc, (hround.append_idle hz).codeSites_eq, hround.codeSites_eq, ih]
    congr 1
    refine List.map_congr_left fun a ha => ?_
    have hle : a ≤ utf8Len p := hround.le_last a ha
    rw [takeBytes_append hle, takeBytes_append hle]

lemma isImplHeader_append_idle (hz : Idle z) (cs : List Char) :
    isImplHeader (cs ++ [z]) = isImplHeader cs := by
  have himpl : z ∉ ['i', 'm', 'p', 'l'] := hz.not_mem (by decide +kernel)
  have hunder : (z == '_') = false := by
    rw [beq_eq_false_iff_ne]
    rintro rfl
    have hw := hz.word
    revert hw
    decide +kernel
  unfold isImplHeader
  rcases dropWhile_append_singleton_cases (z := z) isBlank cs with
    ⟨c, rest, hdrop, hdrop', -⟩ | ⟨hdrop, hdrop'⟩
  · rw [hdrop, hdrop', ← List.cons_append]
    split
    · next t h =>
      obtain ⟨r, rfl, hr⟩ := exists_of_append_singleton himpl h
      rw [hr]
      cases r with
      | nil => simp [hz.alphanumeric, hunder]
      | cons d r => rfl
    · next h =>
      split
      · next t ht =>
        refine absurd ?_ (h (t ++ [z]))
        rw [ht]
        rfl
      · rfl
  · rcases hdrop' with h | h
    · rw [hdrop, h]
    · rw [hdrop, h]
      simp

/-- Lines whose code is the same but for an idle character at the end have the same sites. -/
theorem lineSites_eq_of_stripComment (hz : Idle z) (number : Nat) {a b : List Char}
    (h : stripComment b = stripComment a ∨ stripComment b = stripComment a ++ [z]) :
    lineSites number b = lineSites number a := by
  unfold lineSites
  rcases h with h | h
  · rw [h]
  · simp only [h, isImplHeader_append_idle hz, codeSites_append_idle hz]

end Inlay.Scan
