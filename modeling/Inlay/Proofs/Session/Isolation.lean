import Inlay.Proofs.Session.Probes
import Inlay.Proofs.Session.Provided

/-!
What a single reply decides. Put two services beside each other that answer alike but to one query
of a run. Both are asked the same, and both tell the same hints before that position and behind it;
only its own hint may differ, or be missing.
-/

namespace Inlay.Session

open Hover

/-- The hint that a position gets from a reply: the text of the first entry behind the prefix. -/
def labelled (labelPrefix : String) (p : Position) (r : Reply) : Option Hint :=
  (Reply.entries r).head?.map fun e => ⟨p, labelPrefix ++ e.text⟩

/-- The hints that a service tells for positions, after `used` earlier queries. -/
def told (service : Service) (labelPrefix : String) (used : Nat) (ps : List Position) :
    List Hint :=
  (ps.zipIdx (used + 1)).filterMap fun x =>
    labelled labelPrefix x.1 (service.answer x.2 (Inquiry.probe x.1))

/-- The queries for positions come to some hints, whether they are waited for or not, and they are
one query for each position, in the order of the positions. -/
structure Fetches (q : Inquiry) (used : Nat) (ps : List Position) (hints : List Hint) : Prop where
  alone : (q.fetchAll used ps).1 = hints
  waiting : completed q (ask q used [] ps) = (used + ps.length, hints, (q.fetchAll used ps).2)
  queries : (q.fetchAll used ps).2.filterMap Event.query? =
    (ps.zipIdx (used + 1)).map fun x => ⟨q.service.name, x.2, q.uri, Inquiry.probe x.1⟩

variable {s t : Service} {labelPrefix : String} {used i : Nat} {ps : List Position}

/-! ### One run -/

lemma fetches_told (s : Service) (uri labelPrefix : String) (used : Nat) (ps : List Position) :
    Fetches ⟨s, uri, labelPrefix⟩ used ps (told s labelPrefix used ps) := by
  have hhints : ((⟨s, uri, labelPrefix⟩ : Inquiry).fetchAll used ps).1 =
      told s labelPrefix used ps := by
    rw [fetchAll_hints, told]
    congr 1
    funext x
    rw [Inquiry.hint?, text?_eq, Option.map_map]
    rfl
  refine ⟨hhints, ?_, query?_fetchAll _ _ _⟩
  rw [completed_ask, asked, List.nil_append, hhints]

lemma told_append (s : Service) (labelPrefix : String) (used : Nat) (a b : List Position) :
    told s labelPrefix used (a ++ b) =
      told s labelPrefix used a ++ told s labelPrefix (used + a.length) b := by
  have hstart : used + 1 + a.length = used + a.length + 1 := by omega
  rw [told, told, told, List.zipIdx_append, List.filterMap_append, hstart]

lemma told_cons (s : Service) (labelPrefix : String) (used : Nat) (p : Position)
    (ps : List Position) :
    told s labelPrefix used (p :: ps) =
      (labelled labelPrefix p (s.answer (used + 1) (Inquiry.probe p))).toList ++
        told s labelPrefix (used + 1) ps := by
  rw [told, List.zipIdx_cons, List.filterMap_cons]
  cases labelled labelPrefix p (s.answer (used + 1) (Inquiry.probe p)) <;> rfl

lemma position_of_labelled {p : Position} {r : Reply} {h : Hint}
    (hh : labelled labelPrefix p r = some h) : h.position = p := by
  obtain ⟨e, -, rfl⟩ := Option.map_eq_some_iff.mp hh
  rfl

/-- Each position has at most one hint, and the hints keep the order of the positions. -/
lemma positions_told (s : Service) (labelPrefix : String) (used : Nat) (ps : List Position) :
    ((told s labelPrefix used ps).map Hint.position).Sublist ps := by
  induction ps generalizing used with
  | nil => exact List.Sublist.refl _
  | cons p ps ih =>
    rw [told_cons]
    cases hp : labelled labelPrefix p (s.answer (used + 1) (Inquiry.probe p)) with
    | none => exact (ih (used + 1)).cons p
    | some h =>
      rw [Option.toList_some, List.singleton_append, List.map_cons, position_of_labelled hp]
      exact (ih (used + 1)).cons_cons p

/-! ### Two runs -/

/-- What is told depends on the replies to the queries alone. -/
lemma told_congr (h : ∀ j p, ps[j]? = some p →
    s.answer (used + 1 + j) (Inquiry.probe p) = t.answer (used + 1 + j) (Inquiry.probe p)) :
    told s labelPrefix used ps = told t labelPrefix used ps := by
  refine List.filterMap_congr fun x hx => ?_
  obtain ⟨hle, hp⟩ := List.mk_mem_zipIdx_iff_le_and_getElem?_sub.mp hx
  have hcall : used + 1 + (x.2 - (used + 1)) = x.2 := by omega
  have hsame := h _ _ hp
  rw [hcall] at hsame
  rw [hsame]

/-- The hints before a position, its own and those behind it. -/
lemma told_split (s : Service) (labelPrefix : String) (used i : Nat) (ps : List Position) :
    told s labelPrefix used ps =
      told s labelPrefix used (ps.take i) ++
        (ps[i]?.bind fun p =>
          labelled labelPrefix p (s.answer (used + 1 + i) (Inquiry.probe p))).toList ++
        told s labelPrefix (used + (i + 1)) (ps.drop (i + 1)) := by
  cases hp : ps[i]? with
  | none =>
    have hlength : ps.length ≤ i := List.getElem?_eq_none_iff.mp hp
    rw [List.take_of_length_le hlength, List.drop_of_length_le (Nat.le_succ_of_le hlength)]
    simp [told]
  | some p =>
    have hi : i < ps.length := (List.getElem?_eq_some_iff.mp hp).1
    have hbefore : (ps.take i).length = i := List.length_take_of_le (Nat.le_of_lt hi)
    have hupto : (ps.take (i + 1)).length = i + 1 := List.length_take_of_le hi
    have hown : told s labelPrefix (used + i) [p] =
        (labelled labelPrefix p (s.answer (used + 1 + i) (Inquiry.probe p))).toList := by
      have hcall : used + i + 1 = used + 1 + i := by omega
      rw [told_cons, hcall]
      exact List.append_nil _
    calc told s labelPrefix used ps
        = told s labelPrefix used (ps.take (i + 1) ++ ps.drop (i + 1)) := by
          rw [List.take_append_drop]
      _ = told s labelPrefix used (ps.take i ++ [p]) ++
            told s labelPrefix (used + (i + 1)) (ps.drop (i + 1)) := by
          rw [told_append, hupto, List.take_add_one, hp, Option.toList_some]
      _ = _ := by
          rw [told_append, hbefore, hown]
          rfl

/-- **A reply decides about its own hint only.** Take any positions and two services that answer
alike but to the query for position `i`; what they answer to queries that are not made does not
matter. The queries to the one come to `a ++ x.toList ++ b` and those to the other to
`a ++ y.toList ++ b`: `a` is told for the positions before `i`, `b` for those behind it, each hint
with its own position and in their order, and `x` and `y` are the hints of position `i`, one at
most. So it is with and without waiting, and both services are asked about every position once, in
order, whatever they reply. -/
theorem fetches_isolated {s t : Service} (uri labelPrefix : String) {used i : Nat}
    {ps : List Position} (h : ∀ j p, ps[j]? = some p → j ≠ i →
      s.answer (used + 1 + j) (Inquiry.probe p) = t.answer (used + 1 + j) (Inquiry.probe p)) :
    ∃ (a b : List Hint) (x y : Option Hint),
      Fetches ⟨s, uri, labelPrefix⟩ used ps (a ++ x.toList ++ b) ∧
      Fetches ⟨t, uri, labelPrefix⟩ used ps (a ++ y.toList ++ b) ∧
      a = told s labelPrefix used (ps.take i) ∧
      (a.map Hint.position).Sublist (ps.take i) ∧
      b = told s labelPrefix (used + (i + 1)) (ps.drop (i + 1)) ∧
      (b.map Hint.position).Sublist (ps.drop (i + 1)) ∧
      (x = ps[i]?.bind fun p =>
        labelled labelPrefix p (s.answer (used + 1 + i) (Inquiry.probe p))) ∧
      (y = ps[i]?.bind fun p =>
        labelled labelPrefix p (t.answer (used + 1 + i) (Inquiry.probe p))) ∧
      ∀ hint, hint ∈ x ∨ hint ∈ y → ps[i]? = some hint.position := by
  have hbefore : told s labelPrefix used (ps.take i) = told t labelPrefix used (ps.take i) := by
    refine told_congr fun j p hp => ?_
    rw [List.getElem?_take] at hp
    split at hp
    · next hj => exact h j p hp (Nat.ne_of_lt hj)
    · contradiction
  have hbehind : told s labelPrefix (used + (i + 1)) (ps.drop (i + 1)) =
      told t labelPrefix (used + (i + 1)) (ps.drop (i + 1)) := by
    refine told_congr fun j p hp => ?_
    rw [List.getElem?_drop] at hp
    have hcall : used + (i + 1) + 1 + j = used + 1 + (i + 1 + j) := by omega
    rw [hcall]
    exact h _ p hp (by omega)
  have hs := fetches_told s uri labelPrefix used ps
  have ht := fetches_told t uri labelPrefix used ps
  rw [told_split s labelPrefix used i] at hs
  rw [told_split t labelPrefix used i, ← hbefore, ← hbehind] at ht
  refine ⟨_, _, _, _, hs, ht, rfl, positions_told _ _ _ _, rfl, positions_told _ _ _ _, rfl, rfl,
    ?_⟩
  rintro hint (hx | hy)
  · obtain ⟨p, hp, hhint⟩ := Option.bind_eq_some_iff.mp hx
    rw [hp, position_of_labelled hhint]
  · obtain ⟨p, hp, hhint⟩ := Option.bind_eq_some_iff.mp hy
    rw [hp, position_of_labelled hhint]

/-- The moody service under another name, without waiting and without its failure. -/
def calmService : Service where
  name := "calm"
  rounds := 0
  answer call place :=
    if call = 2 then .ok (some (.markup .markdown "String")) else moodyService.answer call place

/-- Among five positions the failure of the moody service costs the hint of the second one. -/
theorem fetches_isolated_moody :
    ∃ (a b : List Hint) (x y : Option Hint),
      Fetches ⟨moodyService, "file:///main.rs", ": "⟩ 0
        [⟨0, 5⟩, ⟨1, 6⟩, ⟨1, 9⟩, ⟨2, 2⟩, ⟨2, 5⟩] (a ++ x.toList ++ b) ∧
      Fetches ⟨calmService, "file:///main.rs", ": "⟩ 0
        [⟨0, 5⟩, ⟨1, 6⟩, ⟨1, 9⟩, ⟨2, 2⟩, ⟨2, 5⟩] (a ++ y.toList ++ b) ∧
      a = [⟨⟨0, 5⟩, ": i32"⟩] ∧ b = [⟨⟨2, 5⟩, ": "⟩] ∧ x = none ∧
      y = some ⟨⟨1, 6⟩, ": String"⟩ := by
  have hothers : ∀ j p,
      ([⟨0, 5⟩, ⟨1, 6⟩, ⟨1, 9⟩, ⟨2, 2⟩, ⟨2, 5⟩] : List Position)[j]? = some p → j ≠ 1 →
      moodyService.answer (0 + 1 + j) (Inquiry.probe p) =
        calmService.answer (0 + 1 + j) (Inquiry.probe p) := by
    intro j p _ hj
    have hcall : ¬0 + 1 + j = 2 := by omega
    exact (if_neg hcall).symm
  obtain ⟨a, b, x, y, hmoody, hcalm, ha, -, hb, -, hx, hy, -⟩ :=
    fetches_isolated "file:///main.rs" ": " hothers
  exact ⟨a, b, x, y, hmoody, hcalm, ha, hb, hx, hy⟩

end Inlay.Session
