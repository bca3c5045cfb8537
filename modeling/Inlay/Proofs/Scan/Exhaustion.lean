import Inlay.Proofs.Scan.Rounds

/-!
How the scan of code comes to its end. An anchor is a place between two characters, so a text can be
cut there; a round cuts off at least one character; and the scan stops at one cursor only, where no
shape occurs in what is left.
-/

namespace Inlay.Scan

open Inlay.Text

/-! ### Boundaries -/

/-- The byte offset is a place of the text: its start, its end or between two characters. -/
def IsBoundary (cs : List Char) (a : Nat) : Prop :=
  (⟨a⟩ : String.Pos.Raw).IsValid (String.ofList cs)

lemma utf8ByteSize_ofList (cs : List Char) : (String.ofList cs).utf8ByteSize = utf8Len cs := by
  induction cs with
  | nil => rfl
  | cons c cs ih =>
    have hsplit : String.ofList (c :: cs) = String.singleton c ++ String.ofList cs := by
      rw [String.singleton_eq_ofList, ← String.ofList_append, List.singleton_append]
    rw [hsplit, String.utf8ByteSize_append, String.utf8ByteSize_singleton, ih, utf8Len_cons]

/-- The places of a text are the lengths of its beginnings. -/
lemma isBoundary_iff {cs : List Char} {a : Nat} :
    IsBoundary cs a ↔ ∃ p q, cs = p ++ q ∧ utf8Len p = a := by
  rw [IsBoundary, String.Pos.Raw.isValid_iff_exists_append]
  constructor
  · rintro ⟨s, t, hst, ha⟩
    refine ⟨s.toList, t.toList, ?_, ?_⟩
    · rw [← String.toList_append, ← hst, String.toList_ofList]
    · rw [← utf8ByteSize_ofList, String.ofList_toList, ← String.byteIdx_rawEndPos, ← ha]
  · rintro ⟨p, q, rfl, rfl⟩
    refine ⟨String.ofList p, String.ofList q, String.ofList_append, ?_⟩
    rw [← utf8ByteSize_ofList]
    rfl

/-- A cut at a place of the text leaves exactly that many bytes before it. -/
lemma IsBoundary.utf8Len_takeBytes {cs : List Char} {a : Nat} (h : IsBoundary cs a) :
    utf8Len (takeBytes a cs) = a := by
  obtain ⟨p, q, rfl, rfl⟩ := isBoundary_iff.mp h
  rw [takeBytes_utf8Len_append]

lemma AnchorsOf.isBoundary {cs : List Char} {as : List Nat} (h : AnchorsOf cs as) :
    ∀ a ∈ as, 1 ≤ a ∧ a ≤ utf8Len cs ∧ IsBoundary cs a := by
  intro a ha
  obtain ⟨p, q, rfl, rfl, hend⟩ := h.nameEnd a ha
  refine ⟨hend.utf8Len_pos, ?_, isBoundary_iff.mpr ⟨p, q, rfl, rfl⟩⟩
  rw [utf8Len_append]
  omega

/-! ### The end of the scan -/

/-- Whatever is resolved has a last anchor, past which less is left. -/
lemma exists_last_of_resolve? {cs : List Char} {r : Resolution} (h : resolve? cs = some r) :
    ∃ last, r.anchors.getLast? = some last ∧ last ≠ 0 ∧
      (dropBytes last cs).length < cs.length ∧
      ∀ number column, codeSites number column cs =
        (r.anchors.map fun a => ⟨⟨number, column + utf16Len (takeBytes a cs)⟩, r.shape⟩) ++
          codeSites number (column + utf16Len (takeBytes last cs)) (dropBytes last cs) := by
  obtain ⟨p, q, rfl, hround⟩ := exists_round h
  refine ⟨utf8Len p, hround.last, Nat.ne_of_gt hround.nameEnd.utf8Len_pos, ?_,
    fun number column => ?_⟩
  · have hpos := List.length_pos_iff.mpr hround.nameEnd.ne_nil
    rw [dropBytes_utf8Len_append, List.length_append]
    omega
  · rw [takeBytes_utf8Len_append, dropBytes_utf8Len_append]
    exact hround.codeSites_eq number column

/-- **The scan stops where no shape occurs.** A shape that occurs in a text has anchors; they
ascend, none is at the start, and each is a place of the text. So a round of the scan can cut the
text at any of its anchors, there is a last one, and past it less is left. The scan of a line comes
to one cursor from which it does not go on, and to no other; no shape occurs in what is left
there. -/
theorem rounds_end_unmatched :
    (∀ (s : Shape) (cs : List Char) (as : List Nat), s.anchors? cs = some as →
      as ≠ [] ∧ as.Pairwise (· < ·) ∧ ∀ a ∈ as, 1 ≤ a ∧ a ≤ utf8Len cs ∧ IsBoundary cs a) ∧
    (∀ (cs : List Char) (r : Resolution), resolve? cs = some r →
      (∀ a ∈ r.anchors, IsBoundary cs a ∧ utf8Len (takeBytes a cs) = a) ∧
      ∃ last, r.anchors.getLast? = some last ∧ last ≠ 0 ∧
        (dropBytes last cs).length < cs.length ∧
        ∀ number column, codeSites number column cs =
          (r.anchors.map fun a => ⟨⟨number, column + utf16Len (takeBytes a cs)⟩, r.shape⟩) ++
            codeSites number (column + utf16Len (takeBytes last cs)) (dropBytes last cs)) ∧
    ∀ line : List Char, ∃ e : Cursor, e.Reached (stripComment line) ∧
      (∀ s : Shape, s.anchors? e.rest = none) ∧
      ∀ c : Cursor, c.Reached (stripComment line) →
        (c = e ↔ ∀ s : Shape, s.anchors? c.rest = none) ∧ (c = e ↔ c.next? = none) := by
  refine ⟨fun s cs as h => ?_, fun cs r h => ⟨fun a ha => ?_, exists_last_of_resolve? h⟩,
    fun line => ?_⟩
  · have hanchors := anchorsOf_of_anchors? h
    exact ⟨hanchors.ne_nil, hanchors.ascending, hanchors.isBoundary⟩
  · have hboundary := ((anchorsOf_of_resolve? h).isBoundary a ha).2.2
    exact ⟨hboundary, hboundary.utf8Len_takeBytes⟩
  · obtain ⟨e, hlater, hend⟩ := Cursor.exists_later ⟨0, stripComment line⟩
    refine ⟨e, Cursor.reached_iff.mpr hlater, next?_eq_none_iff.mp hend, fun c hc => ?_⟩
    -- of two cursors from which the scan does not go on, neither is after the other
    have honly : c = e ↔ c.next? = none := by
      refine ⟨fun h => h ▸ hend, fun hnone => ?_⟩
      rcases hlater.total (Cursor.reached_iff.mp hc) with h | h
      · exact h.eq_of_next?_eq_none hend
      · exact (h.eq_of_next?_eq_none hnone).symm
    exact ⟨honly.trans next?_eq_none_iff, honly⟩

/-- Letters of two bytes in and before the names. -/
theorem rounds_end_unmatched_wide :
    (∀ a ∈ [12, 19], 1 ≤ a ∧ a ≤ utf8Len "let é = |ü, mut y|".toList ∧
      IsBoundary "let é = |ü, mut y|".toList a) ∧
    IsBoundary "let é = |ü, mut y|".toList 6 ∧
    ∃ e : Cursor, e.Reached (stripComment "let é = |ü, mut y|".toList) ∧
      (∀ s : Shape, s.anchors? e.rest = none) ∧ e ≠ ⟨0, "let é = |ü, mut y|".toList⟩ := by
  obtain ⟨hanchors, hresolve, hend⟩ := rounds_end_unmatched
  obtain ⟨-, -, hclosure⟩ :=
    hanchors .closure "let é = |ü, mut y|".toList [12, 19] (by decide +kernel)
  obtain ⟨hcut, -⟩ := hresolve "let é = |ü, mut y|".toList ⟨.declaration, [6]⟩ (by decide +kernel)
  obtain ⟨e, hreached, hnone, -⟩ := hend "let é = |ü, mut y|".toList
  refine ⟨hclosure, (hcut 6 List.mem_cons_self).1, e, hreached, hnone, ?_⟩
  rintro rfl
  exact absurd (hnone .closure) (by decide +kernel)

end Inlay.Scan
