import Inlay.Proofs.Session.Ledger
import Inlay.Proofs.Session.Schedule

/-!
The order of turns. However steps are scheduled, the lock is free and the queue holds the steps
that take it and are still to run, or it belongs to the first of them, and that one will come to
what it comes to by itself.
-/

namespace Inlay.Session

/-- What a pass comes to that has shown some events and whose queries come to `c`. -/
def ending (desk : Desk) (d : Decorator) (doc : Document) (failure : Option SurfaceError)
    (sites : Nat) (shown : List Event) (c : Nat × List Hint × List Event) : Ran :=
  let closed := desk.close d doc failure sites c.1 c.2.1
  { closed with events := shown ++ (c.2.2 ++ closed.events) }

/-- The queue holds the steps from `k` on and before `n` that take the lock, in their order. -/
structure Queued (desk : Desk) (steps : List Step) (k n : Nat) (queue : List (Nat × Step)) :
    Prop where
  takers : queue.map Prod.fst = takers desk steps k n
  steps : ∀ x ∈ queue, steps[x.1]? = some x.2

/-- The turns before `k` are over and those from `k` on are to come, or `k` is going on. -/
inductive Orderly (desk : Desk) (steps : List Step) (k n : Nat) (o : Overlap) : Prop
  | free (ledger : Ledger desk steps k n [] o) (hfree : o.holder = none)
      (hqueue : Queued desk steps k n o.queue)
  | held {h : Holder} {shown : List Event} (ledger : Ledger desk steps k n shown o)
      (hholder : o.holder = some h) (hindex : h.index = k) (hlt : k < n)
      (htakes : takesTurn desk steps k = true)
      (hslot : (before desk steps k).slot = some h.decorator)
      (hturn : turn desk steps k = some (ending (before desk steps k) h.decorator h.document
        h.failure h.sites shown (h.waiting.finish (h.decorator.inquiry h.document))))
      (hqueue : Queued desk steps (k + 1) n o.queue)

variable {desk : Desk} {steps : List Step} {o : Overlap} {k n i : Nat} {s : Step}

/-! ### A pass and what is left of it -/

lemma pass_eq_ending (d : Decorator) (doc : Document) (failure : Option SurfaceError) :
    desk.pass d doc failure = ending desk d doc failure (Scan.positions doc.text).length
      [.log (.decorating doc.uri)]
      (asked (d.inquiry doc) (desk.used d.service.name) [] (Scan.positions doc.text)) := rfl

/-- A pass that has to wait has shown more, and the rest of its turn lies before it. -/
lemma Ledger.waiting {d : Decorator} {doc : Document} {failure : Option SurfaceError}
    {sites : Nat} {shown events : List Event} {w : Waiting} (h : Ledger desk steps k n shown o)
    (ht : takesTurn desk steps k = true)
    (hturn : turn desk steps k = some (ending (before desk steps k) d doc failure sites shown
      (completed (d.inquiry doc) (.waiting w, events)))) :
    Ledger desk steps k n (shown ++ events) (o.emit k events) ∧
      turn desk steps k = some (ending (before desk steps k) d doc failure sites
        (shown ++ events) (w.finish (d.inquiry doc))) := by
  have hrest : turn desk steps k = some (ending (before desk steps k) d doc failure sites
      (shown ++ events) (w.finish (d.inquiry doc))) := by
    rw [hturn, completed]
    simp only [ending, List.append_assoc]
  refine ⟨h.emit ht fun i hmem => ?_, hrest⟩
  exact done_not_mem_turn hrest i (List.mem_append_left _ (List.mem_append_right shown hmem))

/-- A pass that has all its replies comes to the end of its turn. -/
lemma Ledger.finished {d : Decorator} {doc : Document} {failure : Option SurfaceError}
    {sites used : Nat} {shown events : List Event} {hints : List Hint}
    (h : Ledger desk steps k n shown o) (hk : k < n) (ht : takesTurn desk steps k = true)
    (hturn : turn desk steps k = some (ending (before desk steps k) d doc failure sites shown
      (completed (d.inquiry doc) (.finished used hints, events)))) :
    Ledger desk steps (k + 1) n []
      ((o.emit k events).settle k (o.desk.close d doc failure sites used hints)) := by
  have hclose : turn desk steps k = some { o.desk.close d doc failure sites used hints with
      events := (shown ++ events) ++ (o.desk.close d doc failure sites used hints).events } := by
    rw [hturn, completed, h.found]
    simp only [ending, List.append_assoc]
  have hshown : Ledger desk steps k n (shown ++ events) (o.emit k events) := by
    refine h.emit ht fun i hmem => ?_
    exact done_not_mem_turn hclose i (List.mem_append_left _ (List.mem_append_right shown hmem))
  exact hshown.settle hk ht hclose

/-! ### The queue -/

namespace Queued

lemma nil : Queued desk steps n n [] := ⟨(takers_self n).symm, fun _ h => nomatch h⟩

lemma takers_eq_nil (h : Queued desk steps k n []) : Session.takers desk steps k n = [] :=
  h.takers.symm

lemma skip {l : List (Nat × Step)} (h : Queued desk steps k n l) (hk : k ≤ n)
    (ht : takesTurn desk steps n = false) : Queued desk steps k (n + 1) l := by
  refine ⟨?_, h.steps⟩
  rw [takers_append hk (Nat.le_succ n), takers_one, ht, if_neg Bool.false_ne_true,
    List.append_nil, h.takers]

lemma push {l : List (Nat × Step)} (h : Queued desk steps k n l) (hk : k ≤ n)
    (ht : takesTurn desk steps n = true) (hs : steps[n]? = some s) :
    Queued desk steps k (n + 1) (l ++ [(n, s)]) := by
  constructor
  · rw [takers_append hk (Nat.le_succ n), takers_one, if_pos ht, List.map_append, h.takers]
    rfl
  · intro x hx
    rcases List.mem_append.mp hx with hx | hx
    · exact h.steps x hx
    · rw [List.mem_singleton.mp hx]
      exact hs

end Queued

/-! ### A step gets the lock -/

/-- With the lock a step comes to the end of its turn, or keeps the lock with the rest of its
turn before it. -/
lemma Ledger.enter (h : Ledger desk steps i n [] o) (hi : i < n) (hs : steps[i]? = some s)
    (ht : takesTurn desk steps i = true) (hfree : o.holder = none)
    (hq : Queued desk steps (i + 1) n o.queue) : ∃ k, Orderly desk steps k n (o.enter i s) := by
  have hturn : turn desk steps i = some (o.desk.run s) := by rw [turn_eq hs, h.found]
  have hsettle : ∃ k, Orderly desk steps k n (o.settle i (o.desk.run s)) :=
    ⟨i + 1, .free (h.settle hi ht hturn) hfree hq⟩
  unfold Overlap.enter
  split
  · next d doc failure hslot =>
    split
    · next haccepts =>
      have hdecorating : Ledger desk steps i n [.log (.decorating doc.uri)]
          (o.emit i [.log (.decorating doc.uri)]) :=
        h.emit ht fun j hmem => nomatch List.mem_singleton.mp hmem
      rw [run_decorate hslot haccepts, pass_eq_ending, ← completed_ask, h.found] at hturn
      unfold Overlap.enterPass
      simp only [h.found]
      rcases hask : ask (d.inquiry doc) ((before desk steps i).used d.service.name) []
        (Scan.positions doc.text) with ⟨⟨used, hints⟩ | w, queries⟩
      · rw [hask] at hturn
        have hended := hdecorating.finished hi ht hturn
        rw [Overlap.emit_append] at hended
        exact ⟨i + 1, .free hended hfree hq⟩
      · rw [hask] at hturn
        obtain ⟨hwaiting, hrest⟩ := hdecorating.waiting ht hturn
        rw [Overlap.emit_append] at hwaiting
        exact ⟨i, .held (hwaiting.congr rfl rfl rfl) rfl rfl hi ht (h.found ▸ hslot) hrest hq⟩
    · exact hsettle
  · exact hsettle

/-! ### What one move preserves -/

namespace Orderly

lemma init (desk : Desk) (steps : List Step) : Orderly desk steps 0 0 (.new desk) :=
  .free (Ledger.init desk steps) rfl Queued.nil

lemma of_free (h : Orderly desk steps k n o) (hfree : o.holder = none) :
    Ledger desk steps k n [] o ∧ Queued desk steps k n o.queue := by
  cases h with
  | free ledger _ hqueue => exact ⟨ledger, hqueue⟩
  | held _ hholder _ _ _ _ _ _ =>
    rw [hfree] at hholder
    contradiction

lemma of_held (h : Orderly desk steps k n o) {a : Holder} (ha : o.holder = some a) :
    (a.index = k ∧ k < n ∧ takesTurn desk steps k = true) ∧
      (before desk steps k).slot = some a.decorator ∧
      Queued desk steps (k + 1) n o.queue ∧
      ∃ shown, Ledger desk steps k n shown o ∧
        turn desk steps k = some (ending (before desk steps k) a.decorator a.document a.failure
          a.sites shown (a.waiting.finish (a.decorator.inquiry a.document))) := by
  cases h with
  | free _ hfree _ =>
    rw [hfree] at ha
    contradiction
  | held ledger hholder hindex hlt htakes hslot hturn hqueue =>
    obtain rfl : _ = a := Option.some.inj (hholder.symm.trans ha)
    exact ⟨⟨hindex, hlt, htakes⟩, hslot, hqueue, _, ledger, hturn⟩

lemma ledger (h : Orderly desk steps k n o) : ∃ shown, Ledger desk steps k n shown o := by
  cases h with
  | free ledger _ _ => exact ⟨_, ledger⟩
  | held ledger _ _ _ _ _ _ _ => exact ⟨_, ledger⟩

/-- Nobody has the lock and nobody waits for it, so all turns so far are over. -/
lemma idle (h : Orderly desk steps k n o) (hfree : o.holder = none) (hqueue : o.queue = []) :
    Ledger desk steps n n [] o := by
  obtain ⟨ledger, hq⟩ := h.of_free hfree
  rw [hqueue] at hq
  exact ledger.advance ledger.le (Nat.le_refl n) hq.takers_eq_nil

/-- The free lock is given to a step whose turn it is. -/
lemma next (h : Orderly desk steps k n o) (hfree : o.holder = none)
    {rest : List (Nat × Step)} (hqueue : o.queue = (i, s) :: rest) :
    Ledger desk steps i n [] o ∧ i < n ∧ takesTurn desk steps i = true ∧ steps[i]? = some s ∧
      Queued desk steps (i + 1) n rest := by
  obtain ⟨ledger, hq⟩ := h.of_free hfree
  rw [hqueue] at hq
  obtain ⟨⟨hi, hn, ht⟩, hno, hrest⟩ := takers_cons hq.takers.symm
  refine ⟨ledger.advance hi (Nat.le_of_lt hn) hno, hn, ht, hq.steps _ List.mem_cons_self,
    hrest, fun x hx => hq.steps x (List.mem_cons_of_mem _ hx)⟩

lemma run_locked (h : Orderly desk steps k n o) (hs : steps[n]? = some s)
    (hneeds : Overlap.needsLock o.desk s = true) (hfree : o.holder = none)
    (hqueue : o.queue = []) : ∃ k, Orderly desk steps k (n + 1) (o.enter n s) := by
  have hidle : Ledger desk steps n n [] o := h.idle hfree hqueue
  have ht : takesTurn desk steps n = true := (hidle.takesTurn_eq hs).trans hneeds
  refine (hidle.register ht).enter (Nat.lt_succ_self n) hs ht hfree ?_
  rw [hqueue]
  exact Queued.nil

lemma run_aside (h : Orderly desk steps k n o) (hs : steps[n]? = some s)
    (hno : Overlap.needsLock o.desk s = false) :
    ∃ k, Orderly desk steps k (n + 1) (o.enter n s) := by
  rw [Overlap.enter_of_not_needsLock hno]
  cases h with
  | free ledger hfree hq =>
    have ht : takesTurn desk steps n = false := (ledger.takesTurn_eq hs).trans hno
    rcases Nat.eq_or_lt_of_le ledger.le with rfl | hlt
    · refine ⟨k + 1, .free (ledger.last hs hno) hfree ⟨?_, fun x hx => ?_⟩⟩
      · rw [takers_self]
        exact hq.takers.trans (takers_self k)
      · exact hq.steps x hx
    · exact ⟨k, .free (ledger.aside hlt hs hno) hfree (hq.skip ledger.le ht)⟩
  | held ledger hholder hindex hlt htakes hslot hturn hq =>
    have ht : takesTurn desk steps n = false := (ledger.takesTurn_eq hs).trans hno
    exact ⟨k, .held (ledger.aside hlt hs hno) hholder hindex (Nat.lt_succ_of_lt hlt) htakes hslot
      hturn (hq.skip hlt ht)⟩

lemma queue (h : Orderly desk steps k n o) (hs : steps[n]? = some s)
    (hneeds : Overlap.needsLock o.desk s = true) :
    Orderly desk steps k (n + 1) { o with queue := o.queue ++ [(n, s)] } := by
  cases h with
  | free ledger hfree hq =>
    have ht : takesTurn desk steps n = true := (ledger.takesTurn_eq hs).trans hneeds
    exact .free ((ledger.register ht).congr rfl rfl rfl) hfree (hq.push ledger.le ht hs)
  | held ledger hholder hindex hlt htakes hslot hturn hq =>
    have ht : takesTurn desk steps n = true := (ledger.takesTurn_eq hs).trans hneeds
    exact .held ((ledger.register ht).congr rfl rfl rfl) hholder hindex (Nat.lt_succ_of_lt hlt)
      htakes hslot hturn (hq.push hlt ht hs)

lemma wait (h : Orderly desk steps k n o) {a : Holder} {v : Waiting} {events : List Event}
    (ha : o.holder = some a)
    (hresume : a.waiting.resume (a.decorator.inquiry a.document) = (.waiting v, events)) :
    Orderly desk steps k n
      { (o.emit a.index events) with holder := some { a with waiting := v } } := by
  obtain ⟨⟨hindex, hlt, htakes⟩, hslot, hq, shown, ledger, hturn⟩ := h.of_held ha
  rw [finish_eq_completed, hresume] at hturn
  obtain ⟨hwaiting, hrest⟩ := ledger.waiting htakes hturn
  rw [hindex]
  exact .held (hwaiting.congr rfl rfl rfl) rfl rfl hlt htakes hslot hrest hq

lemma finish (h : Orderly desk steps k n o) {a : Holder} {used : Nat} {hints : List Hint}
    {events : List Event} (ha : o.holder = some a)
    (hresume : a.waiting.resume (a.decorator.inquiry a.document) =
      (.finished used hints, events)) :
    Orderly desk steps (k + 1) n ({ (o.emit a.index events) with holder := none }.settle a.index
      (o.desk.close a.decorator a.document a.failure a.sites used hints)) := by
  obtain ⟨⟨hindex, hlt, htakes⟩, -, hq, shown, ledger, hturn⟩ := h.of_held ha
  rw [finish_eq_completed, hresume] at hturn
  rw [hindex]
  exact .free ((ledger.finished hlt htakes hturn).congr rfl rfl rfl) rfl hq

lemma grant (h : Orderly desk steps k n o) (hfree : o.holder = none)
    {rest : List (Nat × Step)} (hqueue : o.queue = (i, s) :: rest) :
    ∃ k, Orderly desk steps k n ({ o with queue := rest }.enter i s) := by
  obtain ⟨hledger, hi, ht, hs, hrest⟩ := h.next hfree hqueue
  have hsame : Ledger desk steps i n [] { o with queue := rest } := hledger.congr rfl rfl rfl
  exact hsame.enter hi hs ht hfree hrest

end Orderly

/-! ### What a whole schedule preserves -/

/-- However steps are scheduled, their turns keep their order. -/
theorem Reached.orderly (h : Reached desk steps n o) : ∃ k, Orderly desk steps k n o := by
  induction h with
  | init => exact ⟨0, Orderly.init desk steps⟩
  | @run n o s _ hs hgo ih =>
    obtain ⟨k, ih⟩ := ih
    cases hneeds : Overlap.needsLock o.desk s with
    | true =>
      obtain ⟨hfree, hqueue⟩ := hgo hneeds
      exact ih.run_locked hs hneeds hfree hqueue
    | false => exact ih.run_aside hs hneeds
  | queue _ hs hneeds _ ih =>
    obtain ⟨k, ih⟩ := ih
    exact ⟨k, ih.queue hs hneeds⟩
  | wait _ ha hresume ih =>
    obtain ⟨k, ih⟩ := ih
    exact ⟨k, ih.wait ha hresume⟩
  | finish _ ha hresume ih =>
    obtain ⟨k, ih⟩ := ih
    exact ⟨k + 1, ih.finish ha hresume⟩
  | grant _ hfree hqueue ih =>
    obtain ⟨k, ih⟩ := ih
    exact ih.grant hfree hqueue

theorem Complete.ledger (h : Complete desk steps o) :
    Ledger desk steps steps.length steps.length [] o := by
  obtain ⟨k, horderly⟩ := h.reached.orderly
  exact horderly.idle h.free h.served

/-- When all steps have run to their ends, the outcome of each has been noted. -/
lemma Complete.outcome (h : Complete desk steps o) (hs : steps[i]? = some s) :
    Table.lookup i o.outcomes = some ((before desk steps i).run s).outcome := by
  have hi : i < steps.length := (List.getElem?_eq_some_iff.mp hs).1
  have hended : ended desk steps steps.length steps.length i = true :=
    ended_eq_true.mpr ⟨hi, Or.inl hi⟩
  rw [h.ledger.tally.outcome i, if_pos hended, turn_eq hs]
  rfl

end Inlay.Session
