import Mathlib.Data.List.Forall2
import Inlay.Proofs.Scan.Comments
import Inlay.Scan.Document

/-!
Line endings. Lines end with line feeds; a carriage return before one of them, or at the end of
the text, stays in its line as a blank that no site depends on.
-/

namespace Inlay.Scan

open Inlay.Unicode Inlay.Text

/-- The second text is the first one with a carriage return put in before some of its line feeds,
and perhaps one at its end. -/
inductive Returned : List Char → List Char → Prop
  | nil : Returned [] []
  | last : Returned [] ['\r']
  | feed {a b : List Char} : Returned a b → Returned ('\n' :: a) ('\r' :: '\n' :: b)
  | cons {a b : List Char} (c : Char) : Returned a b → Returned (c :: a) (c :: b)

/-- The second line is the first one, perhaps with a carriage return at its end. -/
def SameLine (a b : List Char) : Prop :=
  b = a ∨ b = a ++ ['\r']

lemma SameLine.cons {a b : List Char} (c : Char) (h : SameLine a b) :
    SameLine (c :: a) (c :: b) :=
  h.imp (congrArg (c :: ·)) (congrArg (c :: ·))

lemma split_cons_of_ne {sep c : Char} {cs p : List Char} {ps : List (List Char)} (hc : c ≠ sep)
    (h : split sep cs = p :: ps) : split sep (c :: cs) = (c :: p) :: ps := by
  rw [split, if_neg hc, h]

lemma Returned.split {a b : List Char} (h : Returned a b) :
    List.Forall₂ SameLine (Text.split '\n' a) (Text.split '\n' b) := by
  induction h with
  | nil => exact .cons (Or.inl rfl) .nil
  | last => exact .cons (Or.inr rfl) .nil
  | feed _ ih =>
    rw [split_cons_self, split_cons_of_ne (by decide) (split_cons_self _ _)]
    exact .cons (Or.inr rfl) ih
  | @cons a b c _ ih =>
    by_cases hc : c = '\n'
    · subst hc
      rw [split_cons_self, split_cons_self]
      exact .cons (Or.inl rfl) ih
    · cases ha : Text.split '\n' a with
      | nil => exact absurd ha (split_ne_nil _ _)
      | cons p ps =>
        cases hb : Text.split '\n' b with
        | nil => exact absurd hb (split_ne_nil _ _)
        | cons q qs =>
          rw [ha, hb, List.forall₂_cons] at ih
          rw [split_cons_of_ne hc ha, split_cons_of_ne hc hb]
          exact .cons (ih.1.cons c) ih.2

/-- A character that belongs to no comment marker stays at the end of the code or goes with the
comment. -/
lemma stripComment_append_singleton {z : Char} (hslash : z ≠ '/') (hhash : z ≠ '#')
    (cs : List Char) :
    stripComment (cs ++ [z]) = stripComment cs ∨
      stripComment (cs ++ [z]) = stripComment cs ++ [z] := by
  induction cs with
  | nil =>
    refine Or.inr (stripComment_cons ?_)
    rw [startsComment_cons]
    simp [hhash]
  | cons c cs ih =>
    have hstart : StartsComment (c :: (cs ++ [z])) ↔ StartsComment (c :: cs) := by
      rw [startsComment_cons, startsComment_cons]
      cases cs with
      | nil => simp [hslash]
      | cons d cs => rfl
    rw [List.cons_append]
    by_cases h : StartsComment (c :: cs)
    · rw [stripComment_of_startsComment h, stripComment_of_startsComment (hstart.mpr h)]
      exact Or.inl rfl
    · rw [stripComment_cons h, stripComment_cons (mt hstart.mp h)]
      exact ih.imp (congrArg (c :: ·)) (congrArg (c :: ·))

lemma SameLine.lineSites {a b : List Char} (h : SameLine a b) (number : Nat) :
    lineSites number b = lineSites number a := by
  rcases h with rfl | rfl
  · rfl
  · exact lineSites_eq_of_stripComment idle_carriageReturn number
      (stripComment_append_singleton (by decide) (by decide) a)

lemma linesSites_of_sameLine {a b : List (List Char)} (h : List.Forall₂ SameLine a b) (n : Nat) :
    linesSites n b = linesSites n a := by
  induction h generalizing n with
  | nil => rfl
  | cons hline _ ih => rw [linesSites_cons, linesSites_cons, hline.lineSites, ih]

/-- **Line endings make no difference.** A text has the same sites with carriage returns before
any of its line feeds and at its end. A carriage return at the end of code is a blank, yet it
neither brings about a match of any shape nor prevents or changes one, nor does it matter for
implementation headers. -/
theorem sites_of_returned :
    (∀ a b : String, Returned a.toList b.toList → sites b = sites a) ∧
    isBlank '\r' = true ∧
    (∀ (s : Shape) (code : List Char), s.anchors? (code ++ ['\r']) = s.anchors? code) ∧
    ∀ code : List Char, isImplHeader (code ++ ['\r']) = isImplHeader code := by
  refine ⟨fun a b h => ?_, by decide, fun s code => ?_, fun code => ?_⟩
  · exact linesSites_of_sameLine h.split 0
  · exact anchors?_append_idle idle_carriageReturn s code
  · exact isImplHeader_append_idle idle_carriageReturn code

/-- With a blank after its name the first declaration would be found; with a carriage return it is
not. -/
theorem sites_of_returned_unfinished_line :
    Returned "let x\nlet y = 1\n".toList "let x\r\nlet y = 1\n\r".toList ∧
      sites "let x\r\nlet y = 1\n\r" = sites "let x\nlet y = 1\n" := by
  have h : Returned "let x\nlet y = 1\n".toList "let x\r\nlet y = 1\n\r".toList :=
    .cons 'l' (.cons 'e' (.cons 't' (.cons ' ' (.cons 'x' (.feed (.cons 'l' (.cons 'e' (.cons 't'
      (.cons ' ' (.cons 'y' (.cons ' ' (.cons '=' (.cons ' ' (.cons '1' (.cons '\n'
        .last)))))))))))))))
  exact ⟨h, sites_of_returned.1 _ _ h⟩

end Inlay.Scan
