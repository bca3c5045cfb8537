import Inlay.Proofs.Session.Recorded

/-!
What service a desk has. Bindings and replacements put services in, one after the other in the
order of the lock, so the service of a desk is always the one put in last. Every service put in is
recorded, the first as the making of the decorator.
-/

namespace Inlay

def creation (settings : Config.Settings) : Event :=
  .log (.decoratorCreated settings.languageId)

def Event.places : Event → Bool
  | .log (.decoratorCreated _) | .log .serviceReplaced => true
  | _ => false

namespace Session

open Hover

/-- The steps of an action, in the order in which they start. -/
def Action.steps : Action → List Step
  | .single s => [s]
  | .overlapping steps => steps

def Desk.service? (desk : Desk) : Option Service := desk.slot.map Decorator.service

/-- The service after the step, given the one before. A replacement needs one to replace. -/
def Step.install (held : Option Service) : Step → Option Service
  | .bind fresh => some fresh
  | .replaceService fresh => held.map fun _ => fresh
  | _ => held

/-- The service put in last by steps, one after the other, if one was held before them. -/
def latest (held : Option Service) (steps : List Step) : Option Service :=
  steps.foldl Step.install held

def Outcome.places : Outcome → Bool
  | .bound _ | .replaced => true
  | _ => false

/-- All that a step can do about the service of a desk. -/
inductive Installs (desk : Desk) (s : Step) : Prop
  /-- It puts one in, and records the making of the decorator if there was none. -/
  | puts {fresh : Service} (hinstall : s.install desk.service? = some fresh)
      (hservice : (desk.run s).desk.service? = some fresh)
      (hevents : (desk.run s).events =
        [if desk.slot.isSome then .log .serviceReplaced else creation desk.settings])
      (houtcome : (desk.run s).outcome.places = true)
  /-- It leaves the service as it is. -/
  | keeps (hinstall : s.install desk.service? = desk.service?)
      (hservice : (desk.run s).desk.service? = desk.service?)
      (hevents : ∀ e ∈ (desk.run s).events, e.places = false)
      (houtcome : (desk.run s).outcome.places = false)

/-- The steps that have put a service in so far, in the order in which they did. -/
def Overlap.placed (o : Overlap) : List Nat :=
  (o.trace.filter (·.2.places)).map Prod.fst

/-- What overlapping steps have put in so far: they did it in their order, each that has ended by
putting a service in did it once, and the service of the desk is the last of these. -/
structure Placed (desk : Desk) (steps : List Step) (o : Overlap) : Prop where
  ordered : o.placed.Pairwise (· < ·)
  noted : ∀ i, i ∈ o.placed ↔
    ∃ outcome, Table.lookup i o.outcomes = some outcome ∧ outcome.places = true
  service : o.desk.service? = latest desk.service? (o.placed.filterMap (steps[·]?))

variable {desk last : Desk} {d : Decorator} {steps : List Step} {actions : List Action}
  {shown : List Event} {o : Overlap} {k n i : Nat} {s : Step} {ran : Ran}

/-! ### Events that put nothing in -/

lemma places_of_mem_received {q : Inquiry} {call : Nat} {p : Position} {e : Event}
    (h : e ∈ q.received call p) : e.places = false := by
  obtain ⟨n, rfl, hn⟩ := position?_of_mem_received h
  cases n <;> first | rfl | cases hn

lemma places_of_mem_ask {q : Inquiry} {used : Nat} {hints : List Hint} {ps : List Position}
    {e : Event} (h : e ∈ (ask q used hints ps).2) : e.places = false :=
  forall_mem_ask (fun _ _ => rfl) (fun _ _ _ => places_of_mem_received) _ _ _ e h

lemma places_of_mem_resume {q : Inquiry} {w : Waiting} {e : Event} (h : e ∈ (w.resume q).2) :
    e.places = false :=
  forall_mem_resume (fun _ _ => rfl) (fun _ _ _ => places_of_mem_received) w e h

lemma places_of_mem_close {doc : Document} {failure : Option SurfaceError} {sites used : Nat}
    {hints : List Hint} {e : Event}
    (h : e ∈ (desk.close d doc failure sites used hints).events) : e.places = false := by
  cases failure with
  | none => rcases List.mem_pair.mp h with rfl | rfl <;> rfl
  | some _ => rcases List.mem_pair.mp h with rfl | rfl <;> rfl

lemma places_of_mem_pass {doc : Document} {failure : Option SurfaceError} {e : Event}
    (h : e ∈ (desk.pass d doc failure).events) : e.places = false := by
  rcases List.mem_append.mp h with h | h
  · rcases List.mem_cons.mp h with rfl | h
    · rfl
    · exact forall_mem_fetchAll (fun _ _ => rfl) (fun _ _ _ => places_of_mem_received) _ _ e h
  · exact places_of_mem_close h

/-! ### One step -/

@[simp] lemma latest_singleton (held : Option Service) (s : Step) :
    latest held [s] = s.install held := rfl

lemma latest_append (held : Option Service) (a b : List Step) :
    latest held (a ++ b) = latest (latest held a) b := List.foldl_append

lemma service?_of_slot (h : desk.slot = some d) : desk.service? = some d.service := by
  rw [Desk.service?, h]
  rfl

lemma isSome_service? (desk : Desk) : desk.service?.isSome = desk.slot.isSome :=
  Option.isSome_map

lemma service?_close (hslot : desk.slot = some d) (doc : Document)
    (failure : Option SurfaceError) (sites used : Nat) (hints : List Hint) :
    (desk.close d doc failure sites used hints).desk.service? = desk.service? := by
  rw [service?_of_slot hslot]
  cases failure with
  | none => rfl
  | some _ => exact service?_of_slot hslot

lemma places_outcome_close (doc : Document) (failure : Option SurfaceError) (sites used : Nat)
    (hints : List Hint) :
    (desk.close d doc failure sites used hints).outcome.places = false := by
  cases failure <;> rfl

lemma Installs.of_look {outcome : Outcome} (hrun : desk.run s = ⟨desk, outcome, []⟩)
    (hinstall : s.install desk.service? = desk.service?) (houtcome : outcome.places = false) :
    Installs desk s := by
  refine .keeps hinstall ?_ ?_ ?_
  · rw [hrun]
  · rw [hrun]
    exact fun _ he => nomatch he
  · rw [hrun]
    exact houtcome

lemma installs_of_unbound (hslot : desk.slot = none) (s : Step) : Installs desk s := by
  have hheld : desk.service? = none := by rw [Desk.service?, hslot, Option.map_none]
  cases s with
  | bind fresh =>
    have hrun : desk.run (.bind fresh) =
        ⟨{ desk with slot := some (.new desk.settings fresh) }, .bound false,
          [creation desk.settings]⟩ := by
      unfold Desk.run
      rw [hslot]
      rfl
    refine .puts (rfl : Step.install desk.service? (.bind fresh) = some fresh) ?_ ?_ ?_
    · rw [hrun]
      rfl
    · rw [hrun, hslot]
      rfl
    · rw [hrun]
      rfl
  | replaceService fresh =>
    have hnone : Step.install desk.service? (.replaceService fresh) = desk.service? := by
      rw [hheld]
      rfl
    exact .of_look (by unfold Desk.run; rw [hslot]) hnone rfl
  | get => exact .of_look (by unfold Desk.run; rw [hslot]) rfl rfl
  | _ => exact .of_look (by unfold Desk.run; rw [hslot]) rfl rfl

lemma installs_of_bound (hslot : desk.slot = some d) (s : Step) : Installs desk s := by
  have hrebind : ∀ (s : Step) (fresh : Service) (outcome : Outcome),
      s.install desk.service? = some fresh → outcome.places = true →
      desk.run s = ⟨desk.rebind d fresh, outcome, [.log .serviceReplaced]⟩ →
      Installs desk s := by
    intro s fresh outcome hinstall houtcome hrun
    refine .puts hinstall ?_ ?_ ?_
    · rw [hrun]
      rfl
    · rw [hrun, hslot]
      rfl
    · rw [hrun]
      exact houtcome
  cases s with
  | bind fresh => exact hrebind _ fresh (.bound true) rfl rfl (by unfold Desk.run; rw [hslot])
  | replaceService fresh =>
    have hinstall : Step.install desk.service? (.replaceService fresh) = some fresh := by
      rw [service?_of_slot hslot]
      rfl
    exact hrebind _ fresh .replaced hinstall rfl (by unfold Desk.run; rw [hslot])
  | decorate doc failure =>
    cases haccepts : d.accepts doc with
    | true =>
      have hrun := run_decorate hslot haccepts failure
      refine .keeps rfl ?_ ?_ ?_
      · rw [hrun]
        exact service?_close hslot doc failure _ _ _
      · rw [hrun]
        exact fun e he => places_of_mem_pass he
      · rw [hrun]
        exact places_outcome_close doc failure _ _ _
    | false => exact .of_look (run_skipped hslot haccepts failure) rfl rfl
  | _ => exact .of_look (by unfold Desk.run; rw [hslot]) rfl rfl

lemma installs_run (desk : Desk) (s : Step) : Installs desk s := by
  cases hslot : desk.slot with
  | none => exact installs_of_unbound hslot s
  | some d => exact installs_of_bound hslot s

lemma service?_run (desk : Desk) (s : Step) :
    (desk.run s).desk.service? = s.install desk.service? := by
  cases installs_run desk s with
  | puts hinstall hservice _ _ => rw [hservice, hinstall]
  | keeps hinstall hservice _ _ => rw [hservice, hinstall]

/-! ### A step gets the lock -/

lemma settle_emit (o : Overlap) (i : Nat) (events : List Event) (ran : Ran) :
    (o.emit i events).settle i ran = o.settle i { ran with events := events ++ ran.events } := by
  simp [Overlap.settle, Overlap.emit]

lemma enterPass_of_finished {doc : Document} {failure : Option SurfaceError} {used : Nat}
    {hints : List Hint} {queries : List Event}
    (hask : ask (d.inquiry doc) (o.desk.used d.service.name) [] (Scan.positions doc.text) =
      (.finished used hints, queries)) (i : Nat) :
    o.enterPass i d doc failure = o.settle i (o.desk.pass d doc failure) := by
  have hdone := completed_ask (d.inquiry doc) (o.desk.used d.service.name) []
    (Scan.positions doc.text)
  rw [hask, completed, asked, List.nil_append] at hdone
  obtain ⟨hused, hdone⟩ := Prod.mk.inj hdone
  obtain ⟨hhints, hqueries⟩ := Prod.mk.inj hdone
  unfold Overlap.enterPass
  simp only [hask]
  rw [settle_emit, hused, hhints, hqueries]
  rfl

/-- A step that gets the lock comes to its end as it does by itself, or it is a pass that begins
and has to wait. -/
lemma enter_cases (o : Overlap) (i : Nat) (s : Step) :
    o.enter i s = o.settle i (o.desk.run s) ∨
      ∃ h events, o.enter i s = { (o.emit i events) with holder := some h } ∧
        ∀ e ∈ events, e.places = false := by
  unfold Overlap.enter
  split
  · next d doc failure hslot =>
    split
    · next haccepts =>
      rw [run_decorate hslot haccepts]
      rcases hask : ask (d.inquiry doc) (o.desk.used d.service.name) []
        (Scan.positions doc.text) with ⟨⟨used, hints⟩ | w, queries⟩
      · exact Or.inl (enterPass_of_finished hask i)
      · refine Or.inr ⟨⟨i, d, doc, failure, (Scan.positions doc.text).length, w⟩,
          .log (.decorating doc.uri) :: queries, ?_, fun e he => ?_⟩
        · unfold Overlap.enterPass
          simp only [hask]
        · rcases List.mem_cons.mp he with rfl | he
          · rfl
          · exact places_of_mem_ask (by rw [hask]; exact he)
    · exact Or.inl rfl
  · exact Or.inl rfl

/-! ### What is put in -/

lemma placed_emit (o : Overlap) (i : Nat) (events : List Event) :
    (o.emit i events).placed = o.placed ++ (events.filter Event.places).map fun _ => i := by
  simp [Overlap.placed, Overlap.emit, List.filter_map, Function.comp_def]

lemma placed_settle (o : Overlap) (i : Nat) (ran : Ran) :
    (o.settle i ran).placed = o.placed ++ (ran.events.filter Event.places).map fun _ => i := by
  have hdone : [Event.done i].filter Event.places = [] := rfl
  refine (placed_emit o i (ran.events ++ [.done i])).trans ?_
  rw [List.filter_append, hdone, List.append_nil]

lemma filter_places_eq_nil {events : List Event} (h : ∀ e ∈ events, e.places = false) :
    events.filter Event.places = [] :=
  List.filter_eq_nil_iff.mpr fun e he => by rw [h e he]; exact Bool.false_ne_true

namespace Placed

lemma init (desk : Desk) (steps : List Step) : Placed desk steps (.new desk) where
  ordered := List.Pairwise.nil
  noted i := by simp [Overlap.placed, Overlap.new, Table.lookup]
  service := rfl

/-- Only the desk, the outcomes and the trace count. -/
lemma congr {o' : Overlap} (h : Placed desk steps o) (hdesk : o'.desk = o.desk)
    (houtcomes : o'.outcomes = o.outcomes) (hplaced : o'.placed = o.placed) :
    Placed desk steps o' := by
  refine ⟨?_, fun i => ?_, ?_⟩
  · rw [hplaced]
    exact h.ordered
  · rw [hplaced, houtcomes]
    exact h.noted i
  · rw [hdesk, hplaced]
    exact h.service

lemma emit {events : List Event} (h : Placed desk steps o) (i : Nat)
    (hevents : ∀ e ∈ events, e.places = false) : Placed desk steps (o.emit i events) := by
  refine h.congr rfl rfl ?_
  rw [placed_emit, filter_places_eq_nil hevents]
  exact List.append_nil _

lemma lookup_settle (o : Overlap) (i j : Nat) (ran : Ran) :
    Table.lookup j (o.settle i ran).outcomes =
      (Table.lookup j o.outcomes).or (if i = j then some ran.outcome else none) :=
  lookup_append_singleton i j ran.outcome o.outcomes

/-- A step comes to its end that puts nothing in. -/
lemma settle (h : Placed desk steps o) (i : Nat) (hevents : ∀ e ∈ ran.events, e.places = false)
    (houtcome : ran.outcome.places = false) (hservice : ran.desk.service? = o.desk.service?) :
    Placed desk steps (o.settle i ran) := by
  have hplaced : (o.settle i ran).placed = o.placed := by
    rw [placed_settle, filter_places_eq_nil hevents]
    exact List.append_nil _
  refine ⟨?_, fun j => ?_, ?_⟩
  · rw [hplaced]
    exact h.ordered
  · rw [hplaced, h.noted, lookup_settle]
    cases Table.lookup j o.outcomes with
    | some outcome => exact Iff.rfl
    | none =>
      by_cases hij : i = j
      · simp [hij, houtcome]
      · simp [hij]
  · rw [hplaced]
    exact hservice.trans h.service

/-- A step comes to its end that puts a service in. -/
lemma puts {e : Event} (h : Placed desk steps o) (hs : steps[i]? = some s)
    (hevents : ran.events = [e]) (he : e.places = true) (houtcome : ran.outcome.places = true)
    (hservice : ran.desk.service? = s.install o.desk.service?) (hlt : ∀ j ∈ o.placed, j < i)
    (hfresh : Table.lookup i o.outcomes = none) : Placed desk steps (o.settle i ran) := by
  have hplaced : (o.settle i ran).placed = o.placed ++ [i] := by
    rw [placed_settle, hevents, List.filter_cons_of_pos he]
    rfl
  refine ⟨?_, fun j => ?_, ?_⟩
  · rw [hplaced, List.pairwise_append]
    refine ⟨h.ordered, List.pairwise_singleton _ _, fun a ha b hb => ?_⟩
    rw [List.mem_singleton.mp hb]
    exact hlt a ha
  · rw [hplaced, List.mem_append, List.mem_singleton, h.noted, lookup_settle]
    by_cases hij : i = j
    · subst hij
      simp [hfresh, houtcome]
    · simp [hij, Ne.symm hij]
  · rw [hplaced, List.filterMap_append, latest_append, ← h.service,
      List.filterMap_cons_some hs, List.filterMap_nil, latest_singleton]
    exact hservice

/-- A step gets the lock, or does not need it. -/
lemma enter (h : Placed desk steps o) (hs : steps[i]? = some s) (hlt : ∀ j ∈ o.placed, j < i)
    (hfresh : Table.lookup i o.outcomes = none) : Placed desk steps (o.enter i s) := by
  rcases enter_cases o i s with henter | ⟨a, events, henter, hevents⟩
  · rw [henter]
    cases installs_run o.desk s with
    | puts _ _ hone houtcome =>
      refine h.puts hs hone ?_ houtcome (service?_run _ s) hlt hfresh
      cases o.desk.slot <;> rfl
    | keeps _ hservice hevents houtcome => exact h.settle i hevents houtcome hservice
  · rw [henter]
    exact (h.emit i hevents).congr rfl rfl rfl

/-- What is put in while the turn of `k` is to come was put in by steps before it. -/
lemma lt_of_mem (h : Placed desk steps o) (hledger : Ledger desk steps k n shown o)
    (ht : takesTurn desk steps k = true) {j : Nat} (hj : j ∈ o.placed) : j < k := by
  obtain ⟨outcome, hnoted, hplaces⟩ := (h.noted j).mp hj
  obtain ⟨hended, hturn⟩ := hledger.tally.of_noted hnoted
  rcases (ended_eq_true.mp hended).2 with hlt | hfree
  · exact hlt
  · -- a later step that takes no lock finds the decorator and puts nothing in
    by_contra hge
    obtain ⟨d, hd⟩ := slot_of_takesTurn ht
    obtain ⟨e, he, -⟩ := slot_before (Nat.le_of_not_lt hge) hd
    obtain ⟨s, hs, rfl⟩ : ∃ s, steps[j]? = some s ∧
        ((before desk steps j).run s).outcome = outcome := by
      simpa [turn] using hturn
    rw [takesTurn_eq hs] at hfree
    rw [run_of_not_needsLock he hfree] at hplaces
    cases s <;> cases hplaces

end Placed

/-- However steps are scheduled, they put their services in one after the other. -/
theorem Reached.placed (h : Reached desk steps n o) : Placed desk steps o := by
  induction h with
  | init => exact .init desk steps
  | @run n o s h hs _ ih =>
    obtain ⟨k, horderly⟩ := h.orderly
    obtain ⟨shown, hledger⟩ := horderly.ledger
    refine ih.enter hs (fun j hj => ?_) ?_
    · obtain ⟨outcome, hnoted, -⟩ := (ih.noted j).mp hj
      exact (ended_eq_true.mp (hledger.tally.of_noted hnoted).1).1
    · rw [hledger.tally.outcome]
      simp [ended]
  | queue _ _ _ _ ih => exact ih.congr rfl rfl rfl
  | @wait n o a v events _ _ hresume ih =>
    have hevents : ∀ e ∈ events, e.places = false := fun e he =>
      places_of_mem_resume (by rw [hresume]; exact he)
    exact (ih.emit a.index hevents).congr rfl rfl rfl
  | @finish n o a used hints events h ha hresume ih =>
    have hevents : ∀ e ∈ events, e.places = false := fun e he =>
      places_of_mem_resume (by rw [hresume]; exact he)
    have hemit : Placed desk steps { (o.emit a.index events) with holder := none } :=
      (ih.emit a.index hevents).congr rfl rfl rfl
    exact hemit.settle a.index (fun e he => places_of_mem_close he)
      (places_outcome_close a.document a.failure _ _ _)
      (service?_close (h.found ha).2 a.document a.failure _ _ _)
  | @grant n o i s rest h hfree hqueue ih =>
    obtain ⟨k, horderly⟩ := h.orderly
    obtain ⟨hledger, -, ht, hs, -⟩ := horderly.next hfree hqueue
    have hsame : Placed desk steps { o with queue := rest } := ih.congr rfl rfl rfl
    refine hsame.enter hs (fun j hj => ih.lt_of_mem hledger ht hj) ?_
    have hnone : Table.lookup i o.outcomes = none := by
      rw [hledger.tally.outcome]
      simp [ended, ht]
    exact hnone

/-! ### In turn -/

/-- One after the other, steps put their services in. -/
lemma service?_before (desk : Desk) (steps : List Step) (i : Nat) :
    (before desk steps i).service? = latest desk.service? (steps.take i) := by
  induction i with
  | zero => rfl
  | succ i ih =>
    cases hs : steps[i]? with
    | none =>
      rw [before_succ_of_none hs, ih, List.take_add_one, hs, Option.toList_none, List.append_nil]
    | some s =>
      rw [before_succ hs, service?_run, ih, List.take_add_one, hs, Option.toList_some,
        latest_append, latest_singleton]

lemma Performed.service? (h : Performed desk actions last shown) :
    last.service? = latest desk.service? (actions.flatMap Action.steps) := by
  induction h with
  | nil => rfl
  | single _ ih =>
    rw [ih, service?_run, List.flatMap_cons, latest_append]
    rfl
  | overlapping hcomplete _ ih =>
    rw [ih, hcomplete.ledger.found, service?_before, List.take_length, List.flatMap_cons,
      latest_append]
    rfl

/-- When all steps have run to their ends, every binding among them has put its service in. -/
lemma Complete.mem_placed {fresh : Service} (h : Complete desk steps o)
    (hs : steps[i]? = some (.bind fresh)) : i ∈ o.placed := by
  refine (h.reached.placed.noted i).mpr ⟨_, h.outcome hs, ?_⟩
  unfold Desk.run
  cases (before desk steps i).slot <;> rfl

end Session

end Inlay
