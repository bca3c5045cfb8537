import Inlay.Proofs.Session.Provided
import Inlay.Proofs.Session.Services

/-!
One decorator for good. The first binding makes the decorator of a desk; every later binding and
every replacement puts another service into it, one after the other in the order of the lock, and
leaves all else as it is.
-/

namespace Inlay

def Event.creates : Event → Bool
  | .log (.decoratorCreated _) => true
  | _ => false

namespace Session

open Hover

namespace Step

def binds : Step → Bool
  | .bind _ => true
  | _ => false

/-- The answer to a step on the decorator itself, given its settings and its service. -/
def answer? (settings : Config.Settings) (held : Option Service) : Step → Option Outcome
  | .bind _ => some (.bound held.isSome)
  | .get => some (.held held.isSome)
  | .replaceService _ => some (if held.isSome then .replaced else .unbound)
  | .service => some (held.elim .unbound fun service => .service service.name)
  | .decorationType =>
    some (if held.isSome then .decorationType (.ofSettings settings) else .unbound)
  | .current _ | .decorate _ _ => none

end Step

/-- What overlapping steps have made so far: only the first binding makes a decorator, if there is
none before. -/
structure Made (settings : Config.Settings) (desk : Desk) (steps : List Step) (n : Nat)
    (o : Overlap) : Prop where
  bound : o.desk.slot.isSome = (desk.slot.isSome || (steps.take n).any Step.binds)
  made : o.trace.filter (·.2.creates) = if desk.slot.isSome then [] else
    ((steps.take n).findIdx? Step.binds).toList.map (·, creation settings)

variable {desk last : Desk} {d : Decorator} {settings : Config.Settings} {steps : List Step}
  {actions : List Action} {shown : List Event} {o : Overlap} {n i : Nat} {s : Step} {ran : Ran}

/-! ### One step -/

lemma creates_of_not_places {e : Event} (h : e.places = false) : e.creates = false := by
  unfold Event.places at h
  unfold Event.creates
  split at h <;> simp_all

lemma filter_creates_eq_nil {events : List Event} (h : ∀ e ∈ events, e.places = false) :
    events.filter Event.creates = [] :=
  List.filter_eq_nil_iff.mpr fun e he => by
    rw [creates_of_not_places (h e he)]
    exact Bool.false_ne_true

/-- The decorator is made by a binding that finds none. -/
lemma creates_run (desk : Desk) (s : Step) :
    (desk.run s).events.filter Event.creates =
      if !desk.slot.isSome && s.binds then [creation desk.settings] else [] := by
  cases installs_run desk s with
  | puts hinstall _ hevents _ =>
    rw [hevents]
    cases hslot : desk.slot with
    | none =>
      rw [Desk.service?, hslot] at hinstall
      cases s <;> first | rfl | cases hinstall
    | some d => rfl
  | keeps hinstall _ hevents _ =>
    rw [filter_creates_eq_nil hevents]
    cases hslot : desk.slot with
    | none =>
      rw [Desk.service?, hslot] at hinstall
      cases s <;> first | rfl | cases hinstall
    | some d => rfl

lemma isSome_slot_run (desk : Desk) (s : Step) :
    (desk.run s).desk.slot.isSome = (desk.slot.isSome || s.binds) := by
  rw [← isSome_service?, service?_run, ← isSome_service? desk]
  cases s <;> cases desk.service? <;> rfl

/-- A step on the decorator itself is answered by its settings and its service. -/
lemma outcome_run (hk : Kept settings desk) {outcome : Outcome}
    (h : s.answer? settings desk.service? = some outcome) : (desk.run s).outcome = outcome := by
  cases hslot : desk.slot with
  | none =>
    rw [Desk.service?, hslot] at h
    unfold Desk.run
    rw [hslot]
    cases s <;> first | exact Option.some.inj h | cases h
  | some d =>
    rw [service?_of_slot hslot, ← hk.decorator_settings d hslot] at h
    unfold Desk.run
    rw [hslot]
    cases s <;> first | exact Option.some.inj h | cases h

/-- Binding another service leaves all else of the decorator as it is. -/
lemma slot_bind (hslot : desk.slot = some d) (fresh : Service) :
    (desk.run (.bind fresh)).desk.slot = some { d with service := fresh } := by
  unfold Desk.run
  rw [hslot]
  rfl

/-! ### What is made -/

lemma filter_creates_emit (o : Overlap) (i : Nat) (events : List Event) :
    (o.emit i events).trace.filter (·.2.creates) =
      o.trace.filter (·.2.creates) ++ (events.filter Event.creates).map (i, ·) := by
  simp [Overlap.emit, List.filter_map, Function.comp_def]

lemma filter_creates_settle (o : Overlap) (i : Nat) (ran : Ran) :
    (o.settle i ran).trace.filter (·.2.creates) =
      o.trace.filter (·.2.creates) ++ (ran.events.filter Event.creates).map (i, ·) := by
  have hdone : [Event.done i].filter Event.creates = [] := rfl
  refine (filter_creates_emit o i (ran.events ++ [.done i])).trans ?_
  rw [List.filter_append, hdone, List.append_nil]

/-- The first binding among the steps so far stays the first; else it is the next step, or none. -/
lemma findIdx?_take_succ (hs : steps[n]? = some s) :
    (steps.take (n + 1)).findIdx? Step.binds =
      ((steps.take n).findIdx? Step.binds).or (if s.binds then some n else none) := by
  have hlength : (steps.take n).length = n :=
    List.length_take_of_le (Nat.le_of_lt (List.getElem?_eq_some_iff.mp hs).1)
  rw [List.take_add_one, hs, Option.toList_some, List.findIdx?_append, hlength,
    List.findIdx?_singleton]
  cases s.binds with
  | true => simp
  | false => rfl

namespace Made

lemma init (settings : Config.Settings) (desk : Desk) (steps : List Step) :
    Made settings desk steps 0 (.new desk) where
  bound := by simp [Overlap.new]
  made := by simp [Overlap.new]

lemma congr {o' : Overlap} (h : Made settings desk steps n o)
    (hslot : o'.desk.slot.isSome = o.desk.slot.isSome)
    (htrace : o'.trace.filter (·.2.creates) = o.trace.filter (·.2.creates)) :
    Made settings desk steps n o' :=
  ⟨hslot.trans h.bound, htrace.trans h.made⟩

/-- Nothing is made while there is a decorator. -/
lemma enter (h : Made settings desk steps n o) (hslot : o.desk.slot.isSome = true) (i : Nat)
    (s : Step) : Made settings desk steps n (o.enter i s) := by
  rcases enter_cases o i s with henter | ⟨a, events, henter, hevents⟩
  · rw [henter]
    refine h.congr ?_ ?_
    · exact (isSome_slot_run o.desk s).trans (by rw [hslot, Bool.true_or])
    · rw [filter_creates_settle, creates_run, hslot]
      exact List.append_nil _
  · rw [henter]
    refine h.congr rfl ((filter_creates_emit o i events).trans ?_)
    rw [filter_creates_eq_nil hevents]
    exact List.append_nil _

/-- With a decorator, a step that starts is not the first binding. -/
lemma started (h : Made settings desk steps n o) (hslot : o.desk.slot.isSome = true)
    (hs : steps[n]? = some s) : Made settings desk steps (n + 1) o := by
  have hbound : (desk.slot.isSome || (steps.take n).any Step.binds) = true :=
    h.bound.symm.trans hslot
  constructor
  · rw [List.take_add_one, List.any_append, ← Bool.or_assoc, hbound, hslot, Bool.true_or]
  · rw [h.made, findIdx?_take_succ hs]
    cases hdesk : desk.slot.isSome with
    | true => rfl
    | false =>
      rw [hdesk, Bool.false_or, ← List.findIdx?_isSome] at hbound
      obtain ⟨j, hj⟩ := Option.isSome_iff_exists.mp hbound
      rw [hj, Option.some_or]

/-- Without a decorator, a step that starts is the first binding, or no binding. -/
lemma first (h : Made settings desk steps n o) (hslot : o.desk.slot = none)
    (hsettings : o.desk.settings = settings) (hs : steps[n]? = some s) :
    Made settings desk steps (n + 1) (o.settle n (o.desk.run s)) := by
  have hunbound : (desk.slot.isSome || (steps.take n).any Step.binds) = false := by
    rw [← h.bound, hslot]
    rfl
  obtain ⟨hdesk, hany⟩ := Bool.or_eq_false_iff.mp hunbound
  have hnone : (steps.take n).findIdx? Step.binds = none := by
    rw [← Option.not_isSome_iff_eq_none, List.findIdx?_isSome, hany]
    exact Bool.false_ne_true
  constructor
  · refine (isSome_slot_run o.desk s).trans ?_
    rw [List.take_add_one, hs, List.any_append, hslot, hdesk, hany]
    simp
  · rw [filter_creates_settle, creates_run, h.made, findIdx?_take_succ hs, hnone, hslot, hdesk,
      hsettings]
    cases s <;> rfl

end Made

/-- However steps are scheduled, only the first binding makes a decorator. -/
theorem Reached.made (h : Reached desk steps n o) (hk : Kept settings desk) :
    Made settings desk steps n o := by
  induction h with
  | init => exact .init settings desk steps
  | @run n o s h hs _ ih =>
    cases hslot : o.desk.slot with
    | none =>
      have hno : Overlap.needsLock o.desk s = false := by
        unfold Overlap.needsLock
        rw [hslot]
      rw [Overlap.enter_of_not_needsLock hno]
      exact ih.first hslot (h.kept hk).desk_settings hs
    | some d =>
      have hsome : o.desk.slot.isSome = true := Option.isSome_of_eq_some hslot
      exact (ih.started hsome hs).enter hsome n s
  | @queue n o s h hs hneeds _ ih =>
    have hsome : o.desk.slot.isSome = true := by
      unfold Overlap.needsLock at hneeds
      split at hneeds
      · contradiction
      · next hslot => exact Option.isSome_of_eq_some hslot
    exact (ih.started hsome hs).congr rfl rfl
  | @wait n o a v events _ _ hresume ih =>
    refine ih.congr rfl ((filter_creates_emit o a.index events).trans ?_)
    rw [filter_creates_eq_nil fun e he => places_of_mem_resume (by rw [hresume]; exact he)]
    exact List.append_nil _
  | @finish n o a used hints events h ha hresume ih =>
    have hemit : Made settings desk steps n { (o.emit a.index events) with holder := none } := by
      refine ih.congr rfl ((filter_creates_emit o a.index events).trans ?_)
      rw [filter_creates_eq_nil fun e he => places_of_mem_resume (by rw [hresume]; exact he)]
      exact List.append_nil _
    refine hemit.congr ?_ ?_
    · rw [← isSome_service?, ← isSome_service?]
      exact congrArg Option.isSome
        (service?_close (h.found ha).2 a.document a.failure _ _ _)
    · rw [filter_creates_settle, filter_creates_eq_nil fun e he => places_of_mem_close he]
      exact List.append_nil _
  | @grant n o i s rest h hfree hqueue ih =>
    obtain ⟨k, horderly⟩ := h.orderly
    obtain ⟨hledger, -, ht, -, -⟩ := horderly.next hfree hqueue
    obtain ⟨d, hd⟩ := slot_of_takesTurn ht
    have hsame : Made settings desk steps n { o with queue := rest } := ih.congr rfl rfl
    refine hsame.enter ?_ i s
    exact Option.isSome_of_eq_some ((congrArg Desk.slot hledger.found).trans hd)

/-! ### Whole sessions -/

lemma Performed.isSome_slot (h : Performed desk actions last shown) (hk : Kept settings desk) :
    last.slot.isSome = (desk.slot.isSome || (actions.flatMap Action.steps).any Step.binds) := by
  induction h with
  | nil => simp
  | single _ ih =>
    rw [ih (hk.run _), isSome_slot_run, List.flatMap_cons, List.any_append, Bool.or_assoc]
    simp [Action.steps]
  | overlapping hcomplete _ ih =>
    have hbound := (hcomplete.reached.made hk).bound
    rw [List.take_length] at hbound
    rw [ih (hcomplete.reached.kept hk), hbound, List.flatMap_cons, List.any_append, Bool.or_assoc]
    rfl

/-- In a whole session the decorator is made once, if ever. -/
lemma Performed.made (h : Performed desk actions last shown) (hk : Kept settings desk) :
    shown.filter Event.creates =
      if !desk.slot.isSome && (actions.flatMap Action.steps).any Step.binds then
        [creation settings] else [] := by
  induction h with
  | nil => simp
  | @single desk last s actions events _ ih =>
    rw [List.filter_append, creates_run, ih (hk.run s), isSome_slot_run, hk.desk_settings,
      List.flatMap_cons, List.any_append]
    cases desk.slot.isSome <;> cases hbinds : s.binds <;> simp [Action.steps, hbinds]
  | @overlapping desk last steps o actions events hcomplete _ ih =>
    have hmade := hcomplete.reached.made hk
    have htrace : (o.trace.map Prod.snd).filter Event.creates =
        if !desk.slot.isSome && steps.any Step.binds then [creation settings] else [] := by
      have hindexed : o.trace.filter (Event.creates ∘ Prod.snd) = _ := hmade.made
      rw [List.filter_map, hindexed, List.take_length, ← List.findIdx?_isSome]
      cases desk.slot.isSome <;> cases steps.findIdx? Step.binds <;> rfl
    have hbound := hmade.bound
    rw [List.take_length] at hbound
    rw [List.filter_append, htrace, ih (hcomplete.reached.kept hk), hbound, List.flatMap_cons,
      List.any_append]
    cases desk.slot.isSome <;> cases hany : steps.any Step.binds <;> simp [Action.steps, hany]

/-- **There is one decorator for good, and no binding is lost.** Perform any session on an empty
desk, and then any number of overlapping steps up to any moment of any schedule.

The decorator is made and recorded once, by the first binding of all, and at any time it has the
settings of the desk: its type, its language and its prefix. A later binding alters its service and
nothing else. Bindings and looks tell truly whether a decorator was there; a step that asks for the
service is told the one put in last before it, and so is every step that runs at the moment.

Services are put in by steps in their order, which is the order of the lock: every step that has
ended with putting one in has done so once, the desk holds the last of them, and in the end no
binding is missing. -/
theorem one_decorator {settings : Config.Settings} {actions : List Action} {mid : Desk}
    {shown : List Event} {steps : List Step} {n : Nat} {o : Overlap}
    (hperformed : Performed (.new settings) actions mid shown) (hreached : Reached mid steps n o) :
    (shown.filter Event.creates =
        (if (actions.flatMap Action.steps).any Step.binds then [creation settings] else []) ∧
      o.trace.filter (·.2.creates) =
        (if (actions.flatMap Action.steps).any Step.binds then [] else
          ((steps.take n).findIdx? Step.binds).toList.map (·, creation settings))) ∧
    ((∀ d, o.desk.slot = some d → d.settings = settings ∧ d.type = .ofSettings settings ∧
        ∀ doc, d.accepts doc = (doc.languageId == settings.languageId) ∧
          (d.inquiry doc).labelPrefix = settings.labelPrefix) ∧
      ∀ i d fresh, steps[i]? = some (.bind fresh) → (before mid steps i).slot = some d →
        (before mid steps (i + 1)).slot = some { d with service := fresh }) ∧
    ((∀ i s outcome expected, steps[i]? = some s → Table.lookup i o.outcomes = some outcome →
        s.answer? settings (latest none (actions.flatMap Action.steps ++ steps.take i)) =
          some expected →
        outcome = expected) ∧
      ∀ s expected, s.answer? settings (latest none
          (actions.flatMap Action.steps ++ o.placed.filterMap (steps[·]?))) = some expected →
        (o.desk.run s).outcome = expected) ∧
    o.placed.Pairwise (· < ·) ∧
    (∀ i, i ∈ o.placed ↔
      ∃ outcome, Table.lookup i o.outcomes = some outcome ∧ outcome.places = true) ∧
    o.desk.service? = latest none
      (actions.flatMap Action.steps ++ o.placed.filterMap (steps[·]?)) ∧
    (Complete mid steps o → ∀ i fresh, steps[i]? = some (.bind fresh) → i ∈ o.placed) := by
  have hkept : Kept settings mid := hperformed.kept (.new settings)
  have hservice : mid.service? = latest none (actions.flatMap Action.steps) :=
    hperformed.service?
  have hslot : mid.slot.isSome = (actions.flatMap Action.steps).any Step.binds :=
    hperformed.isSome_slot (.new settings)
  have hplaced := hreached.placed
  have hlast : o.desk.service? = latest none
      (actions.flatMap Action.steps ++ o.placed.filterMap (steps[·]?)) := by
    rw [hplaced.service, hservice, latest_append]
  refine ⟨⟨hperformed.made (.new settings), ?_⟩, ⟨fun d hd => ?_, fun i d fresh hs hd => ?_⟩,
    ⟨fun i s outcome expected hs hnoted hanswer => ?_, fun s expected hanswer => ?_⟩,
    hplaced.ordered, hplaced.noted, hlast, fun hcomplete i fresh hs => hcomplete.mem_placed hs⟩
  · rw [(hreached.made hkept).made, hslot]
  · obtain rfl := (hreached.kept hkept).decorator_settings d hd
    exact ⟨rfl, rfl, fun doc => ⟨rfl, rfl⟩⟩
  · rw [before_succ hs]
    exact slot_bind hd fresh
  · rw [hreached.outcome_eq hs hnoted]
    refine outcome_run (hkept.before steps i) ?_
    rw [service?_before, hservice, ← latest_append]
    exact hanswer
  · refine outcome_run (hreached.kept hkept) ?_
    rw [hlast]
    exact hanswer

/-- A replacement that comes too early, the first binding, a pass, and another binding before
someone asks for the service. -/
def bindingSteps : List Step :=
  [.replaceService (slowService "early"), .bind (slowService "old"),
    .decorate ⟨"file:///main.rs", "rust", "let x = 1;"⟩ none, .bind (slowService "new"), .service]

/-- In `bindingSteps` the second step makes the decorator, and the service asked for is the one that
was bound while the pass had the lock. -/
theorem one_decorator_binding :
    ∃ o, Complete (.new {}) bindingSteps o ∧ o.trace.filter (·.2.creates) = [(1, creation {})] ∧
      Table.lookup 0 o.outcomes = some .unbound ∧ Table.lookup 1 o.outcomes = some (.bound false) ∧
      Table.lookup 3 o.outcomes = some (.bound true) ∧
      Table.lookup 4 o.outcomes = some (.service "new") ∧
      o.placed.Pairwise (· < ·) ∧ 1 ∈ o.placed ∧ 3 ∈ o.placed := by
  have hcomplete := complete_overlap (.new {}) bindingSteps
  have hperformed : Performed (.new {}) [.single .get] (.new {}) [] := .single (.nil _)
  obtain ⟨⟨-, hmade⟩, -, ⟨hanswers, -⟩, hordered, -, -, hall⟩ :=
    one_decorator hperformed hcomplete.reached
  have hanswered : ∀ i s expected, bindingSteps[i]? = some s →
      s.answer? {} (latest none (([.single .get] : List Action).flatMap Action.steps ++
        bindingSteps.take i)) = some expected →
      Table.lookup i ((Overlap.new (.new {})).startAll 0 bindingSteps).drain.outcomes =
        some expected := by
    intro i s expected hs hanswer
    rw [hcomplete.outcome hs]
    exact congrArg some (hanswers i s _ expected hs (hcomplete.outcome hs) hanswer)
  exact ⟨_, hcomplete, hmade, hanswered 0 _ _ rfl rfl, hanswered 1 _ _ rfl rfl,
    hanswered 3 _ _ rfl rfl, hanswered 4 _ _ rfl rfl, hordered,
    hall hcomplete 1 _ rfl, hall hcomplete 3 _ rfl⟩

end Session

end Inlay
