import Mathlib.Tactic.ByContra
import Mathlib.Tactic.Lemma
import Inlay.Scan.Resolve

/-!
The search for the leftmost place where something can be read: what it finds stands in the text, and
nothing can be read at a place further left.
-/

namespace Inlay.Scan

open Inlay.Text

variable {α : Type} {read : Option Char → List Char → Option α}

/-- The last character of a text or else the one before it, seen from one character later. -/
lemma getLast?_cons_or (c : Char) (p : List Char) (b : Option Char) :
    (c :: p).getLast?.or b = p.getLast?.or (some c) := by
  rw [List.getLast?_cons]
  cases p.getLast? <;> rfl

/-- Nothing is found if nothing can be read at any place. -/
lemma leftmost_eq_none_iff {b : Option Char} {o : Nat} {cs : List Char} :
    leftmost read b o cs = none ↔ ∀ p q, cs = p ++ q → read (p.getLast?.or b) q = none := by
  induction cs generalizing b o with
  | nil =>
    rw [leftmost_nil, Option.map_eq_none_iff]
    refine ⟨fun h p q hpq => ?_, fun h => h [] [] rfl⟩
    obtain ⟨rfl, rfl⟩ := List.append_eq_nil_iff.mp hpq.symm
    exact h
  | cons c cs ih =>
    rw [leftmost_cons]
    cases hr : read b (c :: cs) with
    | some a =>
      constructor
      · intro h
        contradiction
      · intro h
        have hnone : read b (c :: cs) = none := h [] (c :: cs) rfl
        rw [hr] at hnone
        contradiction
    | none =>
      refine ih.trans ⟨fun h p q hpq => ?_, fun h p q hpq => ?_⟩
      · cases p with
        | nil => cases hpq; exact hr
        | cons d p => cases hpq; rw [getLast?_cons_or]; exact h p q rfl
      · have hnext := h (c :: p) q (by rw [hpq, List.cons_append])
        rwa [getLast?_cons_or] at hnext

lemma leftmost_of_read {b : Option Char} {cs : List Char} {a : α} (h : read b cs = some a)
    (o : Nat) : leftmost read b o cs = some (o, a) := by
  unfold leftmost
  rw [h]

/-- Where nothing can be read, the search goes on. -/
lemma leftmost_skip {b : Option Char} {p q : List Char} (o : Nat)
    (h : ∀ p' q', p ++ q = p' ++ q' → p'.length < p.length → read (p'.getLast?.or b) q' = none) :
    leftmost read b o (p ++ q) = leftmost read (p.getLast?.or b) (o + utf8Len p) q := by
  induction p generalizing b o with
  | nil => rfl
  | cons c p ih =>
    have hhere : read b (c :: (p ++ q)) = none := h [] (c :: (p ++ q)) rfl (Nat.succ_pos _)
    have hlen : o + utf8Len (c :: p) = o + c.utf8Size + utf8Len p := by
      rw [utf8Len_cons]
      omega
    rw [List.cons_append, leftmost_cons, hhere, getLast?_cons_or, hlen]
    refine ih _ fun p' q' hpq hlt => ?_
    have hlater := h (c :: p') q' (by rw [List.cons_append, hpq, List.cons_append])
      (Nat.succ_lt_succ hlt)
    rwa [getLast?_cons_or] at hlater

/-- What is found stands in the text, with its offset and the character before it, and nothing can
be read at a place further left. -/
lemma leftmost_eq_some_iff {b : Option Char} {o start : Nat} {cs : List Char} {a : α} :
    leftmost read b o cs = some (start, a) ↔
      ∃ p q, cs = p ++ q ∧ start = o + utf8Len p ∧ read (p.getLast?.or b) q = some a ∧
        ∀ p' q', cs = p' ++ q' → p'.length < p.length → read (p'.getLast?.or b) q' = none := by
  constructor
  · intro h
    induction cs generalizing b o with
    | nil =>
      rw [leftmost_nil] at h
      obtain ⟨x, hx, he⟩ := Option.map_eq_some_iff.mp h
      cases he
      exact ⟨[], [], rfl, rfl, hx, fun p' _ _ hlt => absurd hlt (Nat.not_lt_zero _)⟩
    | cons c cs ih =>
      cases hr : read b (c :: cs) with
      | some x =>
        rw [leftmost_of_read hr] at h
        cases h
        exact ⟨[], c :: cs, rfl, rfl, hr, fun p' _ _ hlt => absurd hlt (Nat.not_lt_zero _)⟩
      | none =>
        rw [leftmost_cons, hr] at h
        obtain ⟨p, q, rfl, rfl, hread, hfirst⟩ := ih h
        refine ⟨c :: p, q, rfl, by rw [utf8Len_cons]; omega, by rwa [getLast?_cons_or], ?_⟩
        intro p' q' hpq hlt
        cases p' with
        | nil => cases hpq; exact hr
        | cons d p' =>
          obtain ⟨rfl, htail⟩ := List.cons.inj hpq
          rw [getLast?_cons_or]
          exact hfirst p' q' htail (Nat.lt_of_succ_lt_succ hlt)
  · rintro ⟨p, q, rfl, rfl, hread, hfirst⟩
    rw [leftmost_skip o hfirst, leftmost_of_read hread]

lemma eq_append_of_leftmost {b : Option Char} {o start : Nat} {cs : List Char} {a : α}
    (h : leftmost read b o cs = some (start, a)) :
    ∃ p q, cs = p ++ q ∧ start = o + utf8Len p ∧ read (p.getLast?.or b) q = some a := by
  obtain ⟨p, q, hcs, hstart, hread, -⟩ := leftmost_eq_some_iff.mp h
  exact ⟨p, q, hcs, hstart, hread⟩

/-- The place between `p` and `q` is the first one of the text where something holds of the
character before it and of what follows it. -/
structure FirstPlace (P : Option Char → List Char → Prop) (p q : List Char) : Prop where
  holds : P p.getLast? q
  first : ∀ p' q', p ++ q = p' ++ q' → p'.length < p.length → ¬P p'.getLast? q'

/-- There is only one first place. -/
lemma FirstPlace.unique {P : Option Char → List Char → Prop} {p q p' q' : List Char}
    (h : FirstPlace P p q) (h' : FirstPlace P p' q') (hsplit : p ++ q = p' ++ q') :
    p = p' ∧ q = q' := by
  have hle : p.length ≤ p'.length :=
    Nat.le_of_not_lt fun hlt => h.first p' q' hsplit hlt h'.holds
  have hge : p'.length ≤ p.length :=
    Nat.le_of_not_lt fun hlt => h'.first p q hsplit.symm hlt h.holds
  exact List.append_inj hsplit (Nat.le_antisymm hle hge)

/-- Where something holds at a place, the first such place is no further right. -/
lemma exists_firstPlace_le {P : Option Char → List Char → Prop} {p q : List Char}
    (h : P p.getLast? q) :
    ∃ p' q', p ++ q = p' ++ q' ∧ FirstPlace P p' q' ∧ p'.length ≤ p.length := by
  induction hn : p.length using Nat.strongRecOn generalizing p q with
  | ind n ih =>
    by_cases hfirst : ∀ p' q', p ++ q = p' ++ q' → p'.length < p.length → ¬P p'.getLast? q'
    · exact ⟨p, q, rfl, ⟨h, hfirst⟩, Nat.le_of_eq hn⟩
    · simp only [not_forall, not_not] at hfirst
      obtain ⟨p', q', hsplit, hlt, hP⟩ := hfirst
      obtain ⟨p'', q'', hsplit', hplace, hle⟩ := ih p'.length (hn ▸ hlt) hP rfl
      exact ⟨p'', q'', hsplit.trans hsplit', hplace, by omega⟩

/-- If something can be read exactly where `P` holds, the first such place is found. -/
lemma leftmost_eq_some_iff_firstPlace {P : Option Char → List Char → Prop}
    (hP : ∀ b cs, read b cs = none ↔ ¬P b cs) {start : Nat} {cs : List Char} {a : α} :
    leftmost read none 0 cs = some (start, a) ↔
      ∃ p q, cs = p ++ q ∧ FirstPlace P p q ∧ start = utf8Len p ∧
        read p.getLast? q = some a := by
  simp only [leftmost_eq_some_iff, Option.or_none, Nat.zero_add, hP]
  constructor
  · rintro ⟨p, q, rfl, rfl, hread, hfirst⟩
    refine ⟨p, q, rfl, ⟨?_, hfirst⟩, rfl, hread⟩
    by_contra hne
    rw [(hP _ _).mpr hne] at hread
    contradiction
  · rintro ⟨p, q, rfl, hplace, rfl, hread⟩
    exact ⟨p, q, rfl, rfl, hread, hplace.first⟩

lemma leftmost_eq_none_iff_forall {P : Option Char → List Char → Prop}
    (hP : ∀ b cs, read b cs = none ↔ ¬P b cs) {cs : List Char} :
    leftmost read none 0 cs = none ↔ ∀ p q, cs = p ++ q → ¬P p.getLast? q := by
  simp only [leftmost_eq_none_iff, Option.or_none, hP]

lemma leftmost_add (b : Option Char) (o d : Nat) (cs : List Char) :
    leftmost read b (o + d) cs = (leftmost read b o cs).map fun x => (x.1 + d, x.2) := by
  induction cs generalizing b o with
  | nil => rw [leftmost_nil, leftmost_nil, Option.map_map]; rfl
  | cons c cs ih =>
    rw [leftmost_cons, leftmost_cons]
    cases read b (c :: cs) with
    | some a => rfl
    | none =>
      have hnext : o + d + c.utf8Size = o + c.utf8Size + d := by omega
      simp only [hnext, ih]

/-- The character before the text matters only to what starts right there. -/
lemma leftmost_before {b b' : Option Char} {cs : List Char} (o : Nat)
    (h : read b cs = read b' cs) : leftmost read b o cs = leftmost read b' o cs := by
  cases cs with
  | nil => rw [leftmost_nil, leftmost_nil, h]
  | cons c cs => rw [leftmost_cons, leftmost_cons, h]

/-- What is made of the finds of a reader may as well be made by the reader. -/
lemma leftmost_map {β : Type} (f : α → β) (b : Option Char) (o : Nat) (cs : List Char) :
    leftmost (fun b cs => (read b cs).map f) b o cs =
      (leftmost read b o cs).map fun x => (x.1, f x.2) := by
  induction cs generalizing b o with
  | nil => rw [leftmost_nil, leftmost_nil]; cases read b [] <;> rfl
  | cons c cs ih =>
    rw [leftmost_cons, leftmost_cons]
    cases read b (c :: cs) with
    | some a => rfl
    | none => exact ih _ _

/-! ### The first group -/

section Groups

variable {P : List Char → Prop} {read : List Char → Option (Nat × List Char)}

/-- The anchors are those of the group at the first place where one can be read. -/
lemma groupAnchors?_eq_some_iff (hP : ∀ cs, read cs = none ↔ ¬P cs) {cs : List Char}
    {as : List Nat} :
    groupAnchors? read cs = some as ↔
      ∃ p q lead t, cs = p ++ q ∧ FirstPlace (fun _ => P) p q ∧ read q = some (lead, t) ∧
        as = bindings (utf8Len p + lead) t := by
  rw [groupAnchors?, Option.map_eq_some_iff]
  constructor
  · rintro ⟨⟨start, lead, t⟩, hfound, rfl⟩
    obtain ⟨p, q, hcs, hfirst, rfl, hread⟩ :=
      (leftmost_eq_some_iff_firstPlace fun _ => hP).mp hfound
    exact ⟨p, q, lead, t, hcs, hfirst, hread, rfl⟩
  · rintro ⟨p, q, lead, t, hcs, hfirst, hread, rfl⟩
    refine ⟨(utf8Len p, lead, t), ?_, rfl⟩
    exact (leftmost_eq_some_iff_firstPlace fun _ => hP).mpr ⟨p, q, hcs, hfirst, rfl, hread⟩

lemma groupAnchors?_eq_none_iff (hP : ∀ cs, read cs = none ↔ ¬P cs) {cs : List Char} :
    groupAnchors? read cs = none ↔ ∀ p q, cs = p ++ q → ¬P q := by
  rw [groupAnchors?, Option.map_eq_none_iff]
  exact leftmost_eq_none_iff_forall fun _ => hP

/-! ### Groups right behind a bracket -/

variable {Q : List Char → List Char → Prop}

lemma bracketed_eq_none_iff (hQ : ∀ {cs lead t}, read cs = some (lead, t) ↔ Q cs t ∧ lead = 1)
    (cs : List Char) : read cs = none ↔ ¬∃ t, Q cs t := by
  rw [Option.eq_none_iff_forall_ne_some, Prod.forall]
  simp only [ne_eq, hQ]
  constructor
  · rintro h ⟨t, ht⟩
    exact h 1 t ⟨ht, rfl⟩
  · rintro h lead t ⟨ht, -⟩
    exact h ⟨t, ht⟩

/-- A group right behind a bracket has its anchors counted from behind the bracket. -/
lemma bracketedAnchors?_eq_some_iff (hP : ∀ cs, read cs = none ↔ ¬P cs)
    (hQ : ∀ {cs lead t}, read cs = some (lead, t) ↔ Q cs t ∧ lead = 1) {cs : List Char}
    {as : List Nat} :
    groupAnchors? read cs = some as ↔
      ∃ p q t, cs = p ++ q ∧ FirstPlace (fun _ => P) p q ∧ Q q t ∧
        as = bindings (utf8Len p + 1) t := by
  rw [groupAnchors?_eq_some_iff hP]
  simp only [hQ]
  constructor
  · rintro ⟨p, q, lead, t, hcs, hfirst, ⟨ht, rfl⟩, rfl⟩
    exact ⟨p, q, t, hcs, hfirst, ht, rfl⟩
  · rintro ⟨p, q, t, hcs, hfirst, ht, rfl⟩
    exact ⟨p, q, 1, t, hcs, hfirst, ⟨ht, rfl⟩, rfl⟩

end Groups

end Inlay.Scan
