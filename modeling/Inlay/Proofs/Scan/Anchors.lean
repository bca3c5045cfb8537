import Inlay.Proofs.Scan.Occurrence

/-!
The anchors of a shape, for all shapes alike: what one occurrence gives, seen from the place where
it starts, and what the leftmost occurrence in a text gives.
-/

namespace Inlay.Scan

open Inlay.Unicode Inlay.Text

/-- Ascending places of a text, at least one of them, and each just past a name. -/
structure AnchorsOf (cs : List Char) (as : List Nat) : Prop where
  ne_nil : as ≠ []
  ascending : as.Pairwise (· < ·)
  nameEnd : ∀ a ∈ as, ∃ p q, cs = p ++ q ∧ utf8Len p = a ∧ NameEnd p q

lemma AnchorsOf.append_left {cs : List Char} {as : List Nat} (p : List Char)
    (h : AnchorsOf cs as) : AnchorsOf (p ++ cs) (as.map (utf8Len p + ·)) := by
  refine ⟨by simpa using h.ne_nil, ?_, fun a ha => ?_⟩
  · rw [List.pairwise_map]
    exact h.ascending.imp fun hab => by omega
  · obtain ⟨b, hb, rfl⟩ := List.mem_map.mp ha
    obtain ⟨r, q, rfl, rfl, hq⟩ := h.nameEnd b hb
    exact ⟨p ++ r, q, by simp, by simp, hq.append_left p⟩

/-- The anchors of an occurrence that starts in front, after the character `before`. -/
def Shape.anchorsAt? : Shape → Option Char → List Char → Option (List Nat)
  | .declaration, before, cs => (declarationAt before cs).map fun n => [n]
  | .closure, _, cs => (closureAt cs).map fun g => bindings g.1 g.2
  | .tuple, _, cs => (tupleAt cs).map fun g => bindings g.1 g.2
  | .matchArm, _, cs => (matchArmAt cs).map fun g => bindings g.1 g.2

lemma Encloses.anchorsOf {cs t : List Char} {lead : Nat} (h : Encloses cs lead t) :
    AnchorsOf cs (bindings lead t) := by
  obtain ⟨c, hc, hw⟩ := Group.exists_word_of_accepts h.group
  refine ⟨bindings_ne_nil hc hw, pairwise_bindings lead t, fun a ha => ?_⟩
  rw [← Nat.zero_add lead] at ha
  obtain ⟨p, q, hcs, rfl, hend⟩ := h.nameEnd ha
  exact ⟨p, q, hcs, (Nat.zero_add _).symm, hend⟩

/-- One occurrence gives proper anchors. -/
lemma anchorsOf_of_anchorsAt? {s : Shape} {b : Option Char} {cs : List Char} {as : List Nat}
    (h : s.anchorsAt? b cs = some as) : AnchorsOf cs as := by
  cases s with
  | declaration =>
    obtain ⟨n, hn, rfl⟩ := Option.map_eq_some_iff.mp h
    refine ⟨by simp, List.pairwise_singleton _ _, fun a ha => ?_⟩
    cases List.mem_singleton.mp ha
    exact nameEnd_of_declarationAt hn
  | closure =>
    obtain ⟨g, hg, rfl⟩ := Option.map_eq_some_iff.mp h
    exact (encloses_of_closureAt hg).anchorsOf
  | tuple =>
    obtain ⟨g, hg, rfl⟩ := Option.map_eq_some_iff.mp h
    exact (encloses_of_tupleAt hg).anchorsOf
  | matchArm =>
    obtain ⟨g, hg, rfl⟩ := Option.map_eq_some_iff.mp h
    exact (encloses_of_matchArmAt hg).anchorsOf

/-! ### The leftmost occurrence -/

lemma groupAnchors?_eq (read : List Char → Option (Nat × List Char)) (cs : List Char) :
    groupAnchors? read cs =
      (leftmost (fun _ cs => (read cs).map fun g => bindings g.1 g.2) none 0 cs).map
        fun x => x.2.map (x.1 + ·) := by
  have hread : leftmost (fun _ cs => (read cs).map fun g => bindings g.1 g.2) none 0 cs =
      (leftmost (fun _ => read) none 0 cs).map fun x => (x.1, bindings x.2.1 x.2.2) :=
    leftmost_map (fun g : Nat × List Char => bindings g.1 g.2) none 0 cs
  rw [groupAnchors?, hread, Option.map_map]
  congr 1
  funext x
  obtain ⟨start, lead, t⟩ := x
  calc bindings (start + lead) t = bindings (lead + start) t := by rw [Nat.add_comm]
    _ = (bindings lead t).map (· + start) := bindings_add lead start t
    _ = (bindings lead t).map (start + ·) := by simp only [Nat.add_comm]

/-- **Anchors of a shape** are those of its leftmost occurrence, counted from the start of the
text. -/
theorem anchors?_eq (s : Shape) (cs : List Char) :
    s.anchors? cs = (leftmost s.anchorsAt? none 0 cs).map fun x => x.2.map (x.1 + ·) := by
  cases s with
  | declaration =>
    have hread : leftmost Shape.declaration.anchorsAt? none 0 cs =
        (leftmost declarationAt none 0 cs).map fun x => (x.1, [x.2]) :=
      leftmost_map (fun n => [n]) none 0 cs
    rw [hread, Option.map_map]
    rfl
  | closure => exact groupAnchors?_eq closureAt cs
  | tuple => exact groupAnchors?_eq tupleAt cs
  | matchArm =>
    rw [matchArm_anchors?_eq]
    exact groupAnchors?_eq matchArmAt cs

theorem anchorsOf_of_anchors? {s : Shape} {cs : List Char} {as : List Nat}
    (h : s.anchors? cs = some as) : AnchorsOf cs as := by
  rw [anchors?_eq] at h
  obtain ⟨⟨start, bs⟩, hleft, rfl⟩ := Option.map_eq_some_iff.mp h
  obtain ⟨p, q, rfl, rfl, hq⟩ := eq_append_of_leftmost hleft
  simpa using (anchorsOf_of_anchorsAt? hq).append_left p

/-! ### Resolutions -/

/-- Having an anchor is no condition on a shape that occurs. -/
lemma resolve?_eq (cs : List Char) :
    resolve? cs = Shape.all.findSome? fun s => (s.anchors? cs).map (⟨s, ·⟩) := by
  unfold resolve?
  congr 1
  funext s
  cases h : s.anchors? cs with
  | none => rfl
  | some as =>
    cases as with
    | nil => exact absurd rfl (anchorsOf_of_anchors? h).ne_nil
    | cons a as => rfl

/-- Nothing is resolved where no shape occurs. -/
lemma resolve?_eq_none_iff {cs : List Char} :
    resolve? cs = none ↔ ∀ s : Shape, s.anchors? cs = none := by
  rw [resolve?_eq, List.findSome?_eq_none_iff]
  simp only [Shape.mem_all, forall_const, Option.map_eq_none_iff]

/-- The first shape that occurs stays the same if the anchors of all shapes change alike. -/
lemma findSome?_shape_map {find find' : Shape → Option (List Nat)} {f : List Nat → List Nat}
    (h : ∀ s, find' s = (find s).map f) (shapes : List Shape) :
    (shapes.findSome? fun s => (find' s).map fun as => (⟨s, as⟩ : Resolution)) =
      (shapes.findSome? fun s => (find s).map fun as => (⟨s, as⟩ : Resolution)).map
        fun r => ⟨r.shape, f r.anchors⟩ := by
  induction shapes with
  | nil => rfl
  | cons s shapes ih =>
    rw [List.findSome?_cons, List.findSome?_cons, h s]
    cases find s with
    | some as => rfl
    | none => exact ih

lemma anchorsOf_of_resolve? {cs : List Char} {r : Resolution} (h : resolve? cs = some r) :
    AnchorsOf cs r.anchors := by
  rw [resolve?_eq] at h
  obtain ⟨s, -, hs⟩ := List.exists_of_findSome?_eq_some h
  obtain ⟨as, has, rfl⟩ := Option.map_eq_some_iff.mp hs
  exact anchorsOf_of_anchors? has

end Inlay.Scan
