import Inlay.Proofs.Session.Order

/-!
Passes that have come to their end, by themselves or among overlapping steps. However a pass has
gone, it has shown what it shows by itself on the desk that the steps before it leave, and it has
come to the same outcome.
-/

namespace Inlay.Session

/-- A pass over a document has come to its end; `failure` is what the surface has answered, if not
success. Given are the decorator, the number of queries that its service had answered before, what
the pass has shown and its outcome. -/
inductive Passed (doc : Document) (failure : Option SurfaceError) :
    Decorator → Nat → List Event → Outcome → Prop
  /-- The pass has run by itself. -/
  | alone {desk : Desk} {d : Decorator} (hslot : desk.slot = some d)
      (haccepts : d.accepts doc = true) :
      Passed doc failure d (desk.used d.service.name) (desk.run (.decorate doc failure)).events
        (desk.run (.decorate doc failure)).outcome
  /-- The pass is one of overlapping steps, and its outcome has been noted. -/
  | overlapping {desk : Desk} {steps : List Step} {n i : Nat} {o : Overlap} {d : Decorator}
      {outcome : Outcome} (hreached : Reached desk steps n o)
      (hs : steps[i]? = some (.decorate doc failure))
      (hslot : (before desk steps i).slot = some d) (haccepts : d.accepts doc = true)
      (hnoted : Table.lookup i o.outcomes = some outcome) :
      Passed doc failure d ((before desk steps i).used d.service.name)
        ((o.trace.filter (·.1 == i)).map Prod.snd) outcome

variable {desk : Desk} {steps : List Step} {o : Overlap} {k n i : Nat} {shown : List Event}
  {doc : Document} {failure : Option SurfaceError} {d : Decorator} {used : Nat}
  {events : List Event} {outcome : Outcome}

/-! ### What one step has shown -/

lemma filter_markedBlocks {l : List Nat} (h : i ∉ l) :
    (l.flatMap fun j => marked j (block desk steps j)).filter (·.1 == i) = [] := by
  rw [List.filter_flatMap, List.flatMap_eq_nil_iff]
  intro j hj
  have hji : (j == i) = false := by
    rw [beq_eq_false_iff_ne]
    rintro rfl
    exact h hj
  rw [filter_marked (· == i), hji]
  rfl

/-- A turn that is over has left its block in the trace, and nothing else under its index. -/
lemma Ledger.filter_trace (h : Ledger desk steps k n shown o) (hi : i < k)
    (ht : takesTurn desk steps i = true) :
    o.trace.filter (·.1 == i) = marked i (block desk steps i) := by
  have htaker : ∀ x : Nat × Event, (x.1 == i && takesTurn desk steps x.1) = (x.1 == i) := by
    intro x
    cases hx : x.1 == i with
    | false => rfl
    | true => rw [beq_iff_eq.mp hx, ht, Bool.and_self]
  have hearlier : i ∉ takers desk steps 0 i := fun hmem => by
    have := (mem_takers.mp hmem).2.1
    omega
  have hlater : i ∉ takers desk steps (i + 1) k := fun hmem => by
    have := (mem_takers.mp hmem).1
    omega
  have hother : (k == i) = false := beq_eq_false_iff_ne.mpr (by omega)
  have htakers : takers desk steps 0 k =
      takers desk steps 0 i ++ ([i] ++ takers desk steps (i + 1) k) := by
    rw [takers_append (Nat.zero_le i) (Nat.le_of_lt hi), takers_append (Nat.le_succ i) hi,
      takers_one, if_pos ht]
  calc o.trace.filter (·.1 == i)
      = (o.trace.filter (takesTurn desk steps ·.1)).filter (·.1 == i) := by
        rw [List.filter_filter]
        simp only [htaker]
    _ = ([i].flatMap fun j => marked j (block desk steps j)).filter (·.1 == i) := by
        rw [h.trace, htakers, List.flatMap_append, List.flatMap_append, List.filter_append,
          List.filter_append, List.filter_append, filter_markedBlocks hearlier,
          filter_markedBlocks hlater, filter_marked (· == i), hother]
        simp
    _ = marked i (block desk steps i) := by
        rw [List.flatMap_singleton, filter_marked (· == i), if_pos (beq_self_eq_true i)]

/-- However a pass has gone, it is a pass by itself on some desk with its decorator. -/
theorem Passed.exists_pass (h : Passed doc failure d used events outcome) :
    ∃ (desk : Desk) (ends : List Event), used = desk.used d.service.name ∧
      outcome = (desk.pass d doc failure).outcome ∧
      events = (desk.pass d doc failure).events ++ ends ∧ ∀ e ∈ ends, ∃ i, e = .done i := by
  cases h with
  | @alone desk _ hslot haccepts =>
    refine ⟨desk, [], rfl, ?_, ?_, fun e he => nomatch he⟩
    · rw [run_decorate hslot haccepts]
    · rw [run_decorate hslot haccepts, List.append_nil]
  | @overlapping desk steps n i o _ _ hreached hs hslot haccepts hnoted =>
    have hneeds : Overlap.needsLock (before desk steps i) (.decorate doc failure) = true := by
      unfold Overlap.needsLock
      rw [hslot]
      exact haccepts
    have htakes : takesTurn desk steps i = true := (takesTurn_eq hs).trans hneeds
    have hturn : turn desk steps i = some ((before desk steps i).pass d doc failure) := by
      rw [turn_eq hs, run_decorate hslot haccepts]
    obtain ⟨k, horderly⟩ := hreached.orderly
    obtain ⟨shown, hledger⟩ := horderly.ledger
    -- an outcome has been noted, so the turn is over
    obtain ⟨hended, houtcome⟩ := hledger.tally.of_noted hnoted
    rw [hturn] at houtcome
    have hi : i < k := by
      rcases (ended_eq_true.mp hended).2 with hlt | hno
      · exact hlt
      · rw [htakes] at hno
        contradiction
    have hblock : block desk steps i =
        ((before desk steps i).pass d doc failure).events ++ [.done i] := by
      rw [block, hturn]
      rfl
    refine ⟨before desk steps i, [.done i], rfl, (Option.some.inj houtcome).symm, ?_, ?_⟩
    · rw [hledger.filter_trace hi htakes, hblock, marked, List.map_map]
      exact List.map_id _
    · intro e he
      exact ⟨i, List.mem_singleton.mp he⟩

/-- When all overlapping steps have run to their ends, each pass among them has come to its. -/
theorem Complete.passed (h : Complete desk steps o)
    (hs : steps[i]? = some (.decorate doc failure))
    (hslot : (before desk steps i).slot = some d) (haccepts : d.accepts doc = true) :
    ∃ outcome, Passed doc failure d ((before desk steps i).used d.service.name)
      ((o.trace.filter (·.1 == i)).map Prod.snd) outcome :=
  ⟨_, .overlapping h.reached hs hslot haccepts (h.outcome hs)⟩

end Inlay.Session
