import Inlay.Proofs.Session.Queries
import Inlay.Session.Run

/-!
All ways in which overlapping steps may be scheduled. Steps start in order; between two starts the
pass that holds the lock may wait another round or come to its end, and a lock that is free goes
to the step that has queued longest. The overlap of the library, which lets the holder go on only
after all steps have started, is one of these ways.
-/

namespace Inlay.Session

/-- What overlapping steps can come to when the first `n` of them have started. -/
inductive Reached (desk : Desk) (steps : List Step) : Nat → Overlap → Prop
  | init : Reached desk steps 0 (.new desk)
  /-- A step starts that needs no lock, or finds it free and nobody in the queue. -/
  | run {n : Nat} {o : Overlap} {s : Step} : Reached desk steps n o → steps[n]? = some s →
      (Overlap.needsLock o.desk s = true → o.holder = none ∧ o.queue = []) →
      Reached desk steps (n + 1) (o.enter n s)
  /-- A step starts that has to queue for the lock. -/
  | queue {n : Nat} {o : Overlap} {s : Step} : Reached desk steps n o → steps[n]? = some s →
      Overlap.needsLock o.desk s = true → (o.holder ≠ none ∨ o.queue ≠ []) →
      Reached desk steps (n + 1) { o with queue := o.queue ++ [(n, s)] }
  /-- The holder goes on and has to wait again. -/
  | wait {n : Nat} {o : Overlap} {h : Holder} {v : Waiting} {events : List Event} :
      Reached desk steps n o → o.holder = some h →
      h.waiting.resume (h.decorator.inquiry h.document) = (.waiting v, events) →
      Reached desk steps n { (o.emit h.index events) with holder := some { h with waiting := v } }
  /-- The holder gets its last reply, comes to its end and lets go of the lock. -/
  | finish {n : Nat} {o : Overlap} {h : Holder} {used : Nat} {hints : List Hint}
      {events : List Event} : Reached desk steps n o → o.holder = some h →
      h.waiting.resume (h.decorator.inquiry h.document) = (.finished used hints, events) →
      Reached desk steps n ({ (o.emit h.index events) with holder := none }.settle h.index
        (o.desk.close h.decorator h.document h.failure h.sites used hints))
  /-- The free lock goes to the first of the queue. -/
  | grant {n : Nat} {o : Overlap} {i : Nat} {s : Step} {rest : List (Nat × Step)} :
      Reached desk steps n o → o.holder = none → o.queue = (i, s) :: rest →
      Reached desk steps n ({ o with queue := rest }.enter i s)

/-- All steps have run to their ends. -/
structure Complete (desk : Desk) (steps : List Step) (o : Overlap) : Prop where
  reached : Reached desk steps steps.length o
  free : o.holder = none
  served : o.queue = []

/-- The outcomes of the first `n` steps, in the order of the steps. -/
def Overlap.results (o : Overlap) (n : Nat) : List Outcome :=
  (List.range n).filterMap (Table.lookup · o.outcomes)

namespace Overlap

/-- A step that does not need the lock runs by itself. -/
lemma enter_of_not_needsLock {o : Overlap} {i : Nat} {s : Step}
    (h : needsLock o.desk s = false) : o.enter i s = o.settle i (o.desk.run s) := by
  unfold enter
  split
  · next d doc failure hslot =>
    have hno : d.accepts doc = false := by simpa [needsLock, hslot] using h
    rw [if_neg (by simp [hno])]
  · rfl

lemma enter_queue (o : Overlap) (i : Nat) (s : Step) (l : List (Nat × Step)) :
    { o with queue := l }.enter i s = { (o.enter i s) with queue := l } := by
  unfold enter
  simp only
  split
  · split
    · unfold enterPass
      simp only
      split <;> rfl
    · rfl
  · rfl

@[simp] lemma queue_enter (o : Overlap) (i : Nat) (s : Step) : (o.enter i s).queue = o.queue := by
  have h := congrArg Overlap.queue (enter_queue o i s o.queue)
  exact h

lemma release_queue (o : Overlap) (l : List (Nat × Step)) :
    { o with queue := l }.release = { o.release with queue := l } := by
  unfold release
  simp only
  split <;> rfl

@[simp] lemma queue_release (o : Overlap) : o.release.queue = o.queue := by
  have h := congrArg Overlap.queue (release_queue o o.queue)
  exact h

@[simp] lemma holder_release (o : Overlap) : o.release.holder = none := by
  unfold release
  split
  · assumption
  · rfl

lemma emit_append (o : Overlap) (i : Nat) (a b : List Event) :
    (o.emit i a).emit i b = o.emit i (a ++ b) := by
  simp [emit]

end Overlap

variable {desk : Desk} {steps : List Step} {n : Nat} {o : Overlap}

/-- To let the holder run to its end is to let it go on as often as it takes. -/
lemma Reached.release (h : Reached desk steps n o) : Reached desk steps n o.release := by
  cases hh : o.holder with
  | none =>
    rw [Overlap.release, hh]
    exact h
  | some holder =>
    -- by induction on the rounds that the holder can still wait
    induction hm : holder.waiting.left (holder.decorator.inquiry holder.document) using
      Nat.strongRecOn generalizing o holder with
    | ind m ih =>
      have hfinish :=
        finish_eq_completed (holder.decorator.inquiry holder.document) holder.waiting
      rcases hr : holder.waiting.resume (holder.decorator.inquiry holder.document) with
        ⟨⟨used, hints⟩ | v, events⟩
      · rw [hr] at hfinish
        have hreached := h.finish hh hr
        rw [Overlap.release, hh]
        simp only [hfinish, completed]
        exact hreached
      · rw [hr] at hfinish
        have hleft := left_of_resume (congrArg Prod.fst hr)
        have hreached := ih _ (hm ▸ hleft) (h.wait hh hr) { holder with waiting := v } rfl rfl
        rw [Overlap.release, hh]
        simp only [hfinish, completed, ← Overlap.emit_append]
        exact hreached

/-- Starting all remaining steps without letting the holder go on. -/
lemma Reached.startAll {ss : List Step} (h : Reached desk steps n o)
    (hfree : o.holder = none → o.queue = []) (hss : steps.drop n = ss) :
    Reached desk steps (n + ss.length) (o.startAll n ss) := by
  induction ss generalizing n o with
  | nil => exact h
  | cons s ss ih =>
    have hs : steps[n]? = some s := by
      rw [← Nat.add_zero n, ← List.getElem?_drop, hss]
      rfl
    have hrest : steps.drop (n + 1) = ss := by
      rw [← List.drop_drop, hss]
      rfl
    rw [Overlap.startAll, List.length_cons, Nat.add_comm ss.length, ← Nat.add_assoc]
    unfold Overlap.start
    split
    · next hwait =>
      rw [Bool.and_eq_true, Option.isSome_iff_ne_none] at hwait
      exact ih (h.queue hs hwait.1 (Or.inl hwait.2)) (fun hn => absurd hn hwait.2) hrest
    · next hgo =>
      rw [Bool.and_eq_true, not_and, Option.not_isSome_iff_eq_none] at hgo
      refine ih (h.run hs fun hn => ⟨hgo hn, hfree (hgo hn)⟩) (fun hn => ?_) hrest
      rw [Overlap.queue_enter]
      by_cases hl : Overlap.needsLock o.desk s = true
      · exact hfree (hgo hl)
      · rw [Overlap.enter_of_not_needsLock (by simpa using hl)] at hn
        exact hfree hn

/-- To serve the queue is to let each of it come to its end before the next. -/
lemma Reached.serve {l : List (Nat × Step)} (h : Reached desk steps n { o with queue := l })
    (hfree : o.holder = none) : Reached desk steps n ({ o with queue := [] }.serve l) := by
  induction l generalizing o with
  | nil => exact h
  | cons x l ih =>
    obtain ⟨i, s⟩ := x
    have hgrant : Reached desk steps n ({ o with queue := l }.enter i s) := h.grant hfree rfl
    have hreleased : Reached desk steps n { (o.enter i s).release with queue := l } := by
      rw [← Overlap.release_queue, ← Overlap.enter_queue]
      exact hgrant.release
    rw [Overlap.serve, Overlap.enter_queue, Overlap.release_queue]
    exact ih hreleased (Overlap.holder_release _)

namespace Overlap

lemma holder_serve {l : List (Nat × Step)} (h : o.holder = none) : (o.serve l).holder = none := by
  induction l generalizing o with
  | nil => exact h
  | cons x l ih => exact ih (holder_release _)

lemma queue_serve {l : List (Nat × Step)} : (o.serve l).queue = o.queue := by
  induction l generalizing o with
  | nil => rfl
  | cons x l ih =>
    rw [serve, ih, queue_release, queue_enter]

@[simp] lemma queue_drain (o : Overlap) : o.drain.queue = [] := queue_serve

@[simp] lemma holder_drain (o : Overlap) : o.drain.holder = none := holder_serve (holder_release o)

end Overlap

/-- To let the holder run to its end and to serve the queue. -/
lemma Reached.drain (h : Reached desk steps n o) : Reached desk steps n o.drain := by
  refine Reached.serve (o := o.release) ?_ (Overlap.holder_release _)
  rw [← Overlap.release_queue]
  exact h.release

/-- **The overlap of the library is one of the schedules**: to start all steps, then to let the
holder run to its end and after it each of the queue. -/
theorem complete_overlap (desk : Desk) (steps : List Step) :
    Complete desk steps (((Overlap.new desk).startAll 0 steps).drain) := by
  refine ⟨?_, Overlap.holder_drain _, Overlap.queue_drain _⟩
  have hstarted : Reached desk steps (0 + steps.length) ((Overlap.new desk).startAll 0 steps) :=
    Reached.init.startAll (fun _ => rfl) rfl
  rw [Nat.zero_add] at hstarted
  exact hstarted.drain

end Inlay.Session
