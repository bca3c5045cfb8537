import Mathlib.Logic.Relation
import Inlay.Proofs.Scan.Anchors
import Inlay.Scan.Line

/-!
The rounds in which the code of a line is read. A round resolves what is left and cuts it just
past a name, so at least one character goes and the rounds come to an end.
-/

namespace Inlay.Scan

open Inlay.Unicode Inlay.Text

/-- A round reads `p` and leaves `q`. -/
structure Round (p q : List Char) (r : Resolution) : Prop where
  found : resolve? (p ++ q) = some r
  last : r.anchors.getLast? = some (utf8Len p)
  nameEnd : NameEnd p q

lemma exists_round {cs : List Char} {r : Resolution} (h : resolve? cs = some r) :
    ∃ p q, cs = p ++ q ∧ Round p q r := by
  have hanchors := anchorsOf_of_resolve? h
  have hlast := List.getLast?_eq_some_getLast hanchors.ne_nil
  obtain ⟨p, q, hcs, hp, hend⟩ := hanchors.nameEnd _ (List.getLast_mem hanchors.ne_nil)
  refine ⟨p, q, hcs, ⟨by rw [← hcs, h], by rw [hlast, hp], hend⟩⟩

namespace Round

variable {p q : List Char} {r : Resolution}

lemma le_last (h : Round p q r) : ∀ a ∈ r.anchors, a ≤ utf8Len p := by
  have hanchors := anchorsOf_of_resolve? h.found
  obtain ⟨as, has⟩ := List.getLast?_eq_some_iff.mp h.last
  have hasc := hanchors.ascending
  rw [has] at hasc ⊢
  intro a ha
  rcases List.mem_append.mp ha with ha | ha
  · exact Nat.le_of_lt ((List.pairwise_append.mp hasc).2.2 a ha _ (List.mem_singleton_self _))
  · exact Nat.le_of_eq (List.mem_singleton.mp ha)

/-- The sites of the code are those of its first round, then those of what is left. -/
lemma codeSites_eq (h : Round p q r) (number column : Nat) :
    codeSites number column (p ++ q) =
      (r.anchors.map fun a => ⟨⟨number, column + utf16Len (takeBytes a (p ++ q))⟩, r.shape⟩) ++
        codeSites number (column + utf16Len p) q := by
  have hshorter : q.length < (p ++ q).length := by
    have := List.length_pos_iff.mpr h.nameEnd.ne_nil
    rw [List.length_append]
    omega
  rw [codeSites, h.found]
  simp only [h.last, takeBytes_utf8Len_append, dropBytes_utf8Len_append, if_pos hshorter]

end Round

lemma codeSites_none {number column : Nat} {cs : List Char} (h : resolve? cs = none) :
    codeSites number column cs = [] := by
  rw [codeSites, h]

lemma mem_codeSites_of_resolve? {number column a : Nat} {cs : List Char} {r : Resolution}
    (h : resolve? cs = some r) (ha : a ∈ r.anchors) :
    ⟨⟨number, column + utf16Len (takeBytes a cs)⟩, r.shape⟩ ∈ codeSites number column cs := by
  obtain ⟨p, q, rfl, hround⟩ := exists_round h
  rw [hround.codeSites_eq]
  exact List.mem_append_left _ (List.mem_map_of_mem ha)

/-- What holds where nothing is found, and before a round if it holds after it, holds of all
code. -/
@[elab_as_elim]
theorem rounds_induction {motive : List Char → Prop} (cs : List Char)
    (stop : ∀ cs, resolve? cs = none → motive cs)
    (round : ∀ p q r, Round p q r → motive q → motive (p ++ q)) : motive cs := by
  induction hn : cs.length using Nat.strongRecOn generalizing cs with
  | ind n ih =>
    cases hr : resolve? cs with
    | none => exact stop cs hr
    | some r =>
      obtain ⟨p, q, rfl, hround⟩ := exists_round hr
      have hpos := List.length_pos_iff.mpr hround.nameEnd.ne_nil
      rw [List.length_append] at hn
      exact round p q r hround (ih q.length (by omega) q rfl)

/-! ### Code in another place -/

/-- The site, some lines further down and some columns further right. -/
def Site.move (lines columns : Nat) (x : Site) : Site :=
  ⟨⟨x.position.line + lines, x.position.character + columns⟩, x.shape⟩

/-- Where code stands makes no difference to what is found in it. -/
lemma codeSites_add (number lines column columns : Nat) (cs : List Char) :
    codeSites (number + lines) (column + columns) cs =
      (codeSites number column cs).map (Site.move lines columns) := by
  induction cs using rounds_induction generalizing column with
  | stop cs hnone => simp [codeSites_none hnone]
  | round p q r hround ih =>
    have hcolumn : column + columns + utf16Len p = column + utf16Len p + columns := by omega
    have hfound : ∀ a, (⟨⟨number + lines, column + columns + utf16Len (takeBytes a (p ++ q))⟩,
        r.shape⟩ : Site) = Site.move lines columns
          ⟨⟨number, column + utf16Len (takeBytes a (p ++ q))⟩, r.shape⟩ := by
      intro a
      simp only [Site.move, Nat.add_right_comm]
    rw [hround.codeSites_eq, hround.codeSites_eq, hcolumn, ih, List.map_append, List.map_map]
    simp only [hfound]
    rfl

/-! ### Cursors -/

/-- How far the scan has come: the column, and what is left of the code. -/
structure Cursor where
  column : Nat
  rest : List Char

/-- The cursor after one more round, if there is one. -/
def Cursor.next? (c : Cursor) : Option Cursor := do
  let r ← resolve? c.rest
  let last ← r.anchors.getLast?
  return ⟨c.column + utf16Len (takeBytes last c.rest), dropBytes last c.rest⟩

/-- The cursors that the scan of the code comes to. -/
inductive Cursor.Reached (code : List Char) : Cursor → Prop
  | start : Reached code ⟨0, code⟩
  | next {c d : Cursor} : Reached code c → c.next? = some d → Reached code d

/-- One cursor comes after the other, perhaps some rounds later. -/
def Cursor.Later : Cursor → Cursor → Prop :=
  Relation.ReflTransGen fun c d => c.next? = some d

lemma Round.next?_eq {p q : List Char} {r : Resolution} (h : Round p q r) (column : Nat) :
    (⟨column, p ++ q⟩ : Cursor).next? = some ⟨column + utf16Len p, q⟩ := by
  simp [Cursor.next?, h.found, h.last, takeBytes_utf8Len_append, dropBytes_utf8Len_append]

lemma next?_eq_none {c : Cursor} (h : resolve? c.rest = none) : c.next? = none := by
  simp [Cursor.next?, h]

/-- The scan goes on from a cursor exactly if a shape occurs in what is left. -/
lemma next?_eq_none_iff {c : Cursor} :
    c.next? = none ↔ ∀ s : Shape, s.anchors? c.rest = none := by
  rw [← resolve?_eq_none_iff]
  refine ⟨fun h => ?_, next?_eq_none⟩
  by_contra hne
  obtain ⟨r, hr⟩ := Option.ne_none_iff_exists'.mp hne
  obtain ⟨column, rest⟩ := c
  obtain ⟨p, q, rfl, hround⟩ := exists_round hr
  rw [hround.next?_eq] at h
  contradiction

/-- The cursors that a scan comes to are those after its first one. -/
lemma Cursor.reached_iff {code : List Char} {c : Cursor} :
    c.Reached code ↔ Cursor.Later ⟨0, code⟩ c := by
  constructor
  · intro h
    induction h with
    | start => exact .refl
    | next _ hnext ih => exact .tail ih hnext
  · intro h
    induction h with
    | refl => exact .start
    | tail _ hnext ih => exact .next ih hnext

/-- From every cursor the scan comes to one from which it does not go on. -/
lemma Cursor.exists_later (c : Cursor) : ∃ e, c.Later e ∧ e.next? = none := by
  obtain ⟨column, rest⟩ := c
  induction rest using rounds_induction generalizing column with
  | stop cs hnone => exact ⟨⟨column, cs⟩, .refl, next?_eq_none hnone⟩
  | round p q r hround ih =>
    obtain ⟨e, hlater, hend⟩ := ih (column + utf16Len p)
    exact ⟨e, .head (hround.next?_eq column) hlater, hend⟩

/-- Of two cursors after the same one, the one is after the other. -/
lemma Cursor.Later.total {c d e : Cursor} (hd : c.Later d) (he : c.Later e) :
    d.Later e ∨ e.Later d :=
  Relation.ReflTransGen.total_of_right_unique
    (fun _ _ _ h h' => Option.some.inj (h.symm.trans h')) hd he

/-- Nothing comes after a cursor from which the scan does not go on. -/
lemma Cursor.Later.eq_of_next?_eq_none {c d : Cursor} (h : c.Later d) (hc : c.next? = none) :
    d = c := by
  rcases Relation.ReflTransGen.cases_head h with rfl | ⟨e, he, -⟩
  · rfl
  · rw [hc] at he
    contradiction

/-- What a round appends are the positions of what is left, counted from the cursor's column. -/
theorem positions_codeSites (number : Nat) (c : Cursor) :
    (codeSites number c.column c.rest).map Site.position =
      resolvePositions number c.rest c.column ++
        c.next?.elim [] fun d => (codeSites number d.column d.rest).map Site.position := by
  cases hr : resolve? c.rest with
  | none => rw [codeSites_none hr, next?_eq_none hr, resolvePositions, hr]; rfl
  | some r =>
    obtain ⟨column, rest⟩ := c
    obtain ⟨p, q, rfl, hround⟩ := exists_round hr
    rw [hround.codeSites_eq, hround.next?_eq, resolvePositions, hr, List.map_append, List.map_map]
    rfl

end Inlay.Scan
