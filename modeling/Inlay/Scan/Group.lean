import Inlay.Unicode.Class

/-!
Binding groups: one or more items, each a name with an optional ampersand and an optional
qualifier before it, an optional type of one word after a colon, and an optional comma.

Every separator is optional and a word may be cut between two items, so the language is read
without backtracking: what may come next depends only on the last character that is not a blank
and on whether the word being read may still take a type.
-/

namespace Inlay.Scan.Group

open Inlay.Unicode

/-- What has been read last. -/
inductive State
  /-- Nothing yet. -/
  | start
  /-- An ampersand; a word must follow at once. -/
  | ampersand
  /-- A word and perhaps blanks; the flag says whether a colon may come next. -/
  | word (typable : Bool)
  /-- A comma and perhaps blanks. -/
  | comma
  /-- A colon and perhaps blanks. -/
  | colon
  deriving DecidableEq

def isMember (c : Char) : Bool :=
  isWord c || isBlank c || c == '&' || c == ':' || c == ','

/-- The state after one more character, if it may come next. -/
def step (q : State) (c : Char) : Option State :=
  if isWord c then
    some (.word (q != .colon))
  else if isBlank c then
    match q with
    | .start | .ampersand => none
    | _ => some q
  else if c = '&' then
    match q with
    | .ampersand | .colon => none
    | _ => some .ampersand
  else if c = ',' then
    match q with
    | .word _ => some .comma
    | _ => none
  else if c = ':' then
    match q with
    | .word true => some .colon
    | _ => none
  else none

def run (q : State) : List Char → Option State
  | [] => some q
  | c :: cs => (step q c).bind (run · cs)

def State.isFinal : State → Bool
  | .word _ | .comma => true
  | _ => false

def accepts (t : List Char) : Bool :=
  (run .start t).any State.isFinal

/-- A group that ends right before the character `close`, and what follows that character. -/
def before? (close : Char) (cs : List Char) : Option (List Char × List Char) :=
  match cs.dropWhile isMember with
  | c :: rest =>
    let t := cs.takeWhile isMember
    if c = close ∧ accepts t = true then some (t, rest) else none
  | [] => none

@[simp] theorem run_nil (q : State) : run q [] = some q := rfl

@[simp] theorem run_cons (q : State) (c : Char) (cs : List Char) :
    run q (c :: cs) = (step q c).bind (run · cs) := rfl

theorem run_append (q : State) (a b : List Char) :
    run q (a ++ b) = (run q a).bind (run · b) := by
  induction a generalizing q with
  | nil => simp
  | cons c cs ih => cases h : step q c <;> simp [h, ih]

theorem isMember_of_step {q r : State} {c : Char} (h : step q c = some r) : isMember c = true := by
  unfold step at h
  unfold isMember
  split at h
  · simp_all
  split at h
  · simp_all
  split at h
  · simp_all
  split at h
  · simp_all
  split at h
  · simp_all
  · contradiction

/-- A group is made of members only. -/
theorem isMember_of_run {q r : State} {t : List Char} (h : run q t = some r) :
    ∀ c ∈ t, isMember c = true := by
  induction t generalizing q with
  | nil => simp
  | cons c cs ih =>
    obtain ⟨s, hs, hr⟩ := Option.bind_eq_some_iff.mp h
    intro x hx
    rcases List.mem_cons.mp hx with rfl | hx
    · exact isMember_of_step hs
    · exact ih hr x hx

theorem eq_append_of_before? {close : Char} {cs t rest : List Char}
    (h : before? close cs = some (t, rest)) :
    cs = t ++ close :: rest ∧ accepts t = true := by
  unfold before? at h
  split at h
  · next c r hr =>
    simp only [Option.ite_none_right_eq_some, Option.some.injEq, Prod.mk.injEq] at h
    obtain ⟨⟨rfl, ha⟩, rfl, rfl⟩ := h
    exact ⟨by rw [← hr, List.takeWhile_append_dropWhile], ha⟩
  · contradiction

end Inlay.Scan.Group
