import Inlay.Proofs.Session.Schedule

/-!
Overlapping steps never get stuck. Whatever the schedule has come to, there is a way to go on until
all steps have run to their ends: let the holder of the lock run to its end, serve the queue, then
start the steps that are left. What has been seen so far stays seen.
-/

namespace Inlay.Session

variable {desk : Desk} {steps : List Step} {n : Nat} {o : Overlap}

lemma Reached.le_length (h : Reached desk steps n o) : n ≤ steps.length := by
  induction h with
  | init => exact Nat.zero_le _
  | run _ hs _ _ => exact (List.getElem?_eq_some_iff.mp hs).1
  | queue _ hs _ _ _ => exact (List.getElem?_eq_some_iff.mp hs).1
  | wait _ _ _ ih | finish _ _ _ ih | grant _ _ _ ih => exact ih

/-! ### What has been seen stays seen -/

namespace Overlap

lemma trace_emit (o : Overlap) (i : Nat) (events : List Event) :
    o.trace <+: (o.emit i events).trace := List.prefix_append _ _

lemma trace_settle (o : Overlap) (i : Nat) (ran : Ran) : o.trace <+: (o.settle i ran).trace :=
  o.trace_emit i _

lemma trace_enter (o : Overlap) (i : Nat) (s : Step) : o.trace <+: (o.enter i s).trace := by
  unfold enter
  split
  · split
    · unfold enterPass
      simp only
      split
      · exact (o.trace_emit i _).trans (trace_settle _ i _)
      · exact o.trace_emit i _
    · exact o.trace_settle i _
  · exact o.trace_settle i _

lemma trace_release (o : Overlap) : o.trace <+: o.release.trace := by
  unfold release
  split
  · exact List.prefix_rfl
  · next h _ => exact (o.trace_emit h.index _).trans (trace_settle _ h.index _)

lemma trace_serve (o : Overlap) (l : List (Nat × Step)) : o.trace <+: (o.serve l).trace := by
  induction l generalizing o with
  | nil => exact List.prefix_rfl
  | cons x l ih => exact ((o.trace_enter x.1 x.2).trans (trace_release _)).trans (ih _)

lemma trace_drain (o : Overlap) : o.trace <+: o.drain.trace :=
  o.trace_release.trans (trace_serve { o.release with queue := [] } o.queue)

lemma trace_start (o : Overlap) (i : Nat) (s : Step) : o.trace <+: (o.start i s).trace := by
  unfold start
  split
  · exact List.prefix_rfl
  · exact o.trace_enter i s

lemma trace_startAll (o : Overlap) (i : Nat) (ss : List Step) :
    o.trace <+: (o.startAll i ss).trace := by
  induction ss generalizing o i with
  | nil => exact List.prefix_rfl
  | cons s ss ih => exact (o.trace_start i s).trans (ih _ _)

end Overlap

/-! ### Going on -/

/-- **Nothing gets stuck**: from all that a schedule comes to, all steps can run to their ends. -/
theorem Reached.completes (h : Reached desk steps n o) :
    ∃ o', Complete desk steps o' ∧ o.trace <+: o'.trace := by
  have hstarted : Reached desk steps (n + (steps.drop n).length)
      (o.drain.startAll n (steps.drop n)) :=
    h.drain.startAll (fun _ => o.queue_drain) rfl
  have hall : n + (steps.drop n).length = steps.length := by
    have hle := h.le_length
    rw [List.length_drop]
    omega
  rw [hall] at hstarted
  refine ⟨(o.drain.startAll n (steps.drop n)).drain,
    ⟨hstarted.drain, Overlap.holder_drain _, Overlap.queue_drain _⟩, ?_⟩
  exact (o.trace_drain.trans (Overlap.trace_startAll _ _ _)).trans (Overlap.trace_drain _)

end Inlay.Session
