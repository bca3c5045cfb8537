import Inlay.Proofs.Session.Watcher

/-!
What a failed pass costs. Put two sessions beside each other that differ in one pass only, which a
surface refuses in the one and takes in the other. Their desks stay alike: they differ in the
decorations recorded for the document of that pass, and nothing but a look at these can tell.
-/

namespace Inlay.Session

/-- The desk with other decorations recorded. -/
def Desk.recording (desk : Desk) (sets : Table String (List Decoration)) : Desk :=
  { desk with slot := desk.slot.map fun d => { d with applied := sets } }

/-- Two desks differ at most in what is recorded for one document. -/
def Alike (uri : String) (a b : Desk) : Prop :=
  ∃ sets : Table String (List Decoration), b = a.recording sets ∧
    ∀ other, other ≠ uri → sets.find? other = a.recorded? other

variable {desk a b : Desk} {d : Decorator} {uri : String} {s : Step} {steps : List Step}
  {doc : Document}

lemma recording_of_slot (h : desk.slot = some d) (sets : Table String (List Decoration)) :
    desk.recording sets = { desk with slot := some { d with applied := sets } } := by
  rw [Desk.recording, h]
  rfl

lemma recording_of_unbound (h : desk.slot = none) (sets : Table String (List Decoration)) :
    desk.recording sets = desk := by
  obtain ⟨settings, slot, calls⟩ := desk
  cases h
  rfl

lemma recording_sets (desk : Desk) : desk.recording desk.sets = desk := by
  obtain ⟨settings, slot, calls⟩ := desk
  cases slot <;> rfl

lemma Alike.refl (uri : String) (desk : Desk) : Alike uri desk desk :=
  ⟨desk.sets, (recording_sets desk).symm, fun _ _ => rfl⟩

/-! ### One step on desks that are alike -/

/-- Hidden differences in the records change nothing about a pass but the records. -/
lemma pass_recording (hslot : a.slot = some d) (sets : Table String (List Decoration))
    (doc : Document) (failure : Option SurfaceError)
    (hsets : ∀ other, other ≠ uri → sets.find? other = a.recorded? other) :
    ((a.recording sets).pass { d with applied := sets } doc failure).outcome =
        (a.pass d doc failure).outcome ∧
      ((a.recording sets).pass { d with applied := sets } doc failure).events =
        (a.pass d doc failure).events ∧
      Alike uri (a.pass d doc failure).desk
        ((a.recording sets).pass { d with applied := sets } doc failure).desk := by
  cases failure with
  | some e => exact ⟨rfl, rfl, sets, rfl, hsets⟩
  | none =>
    refine ⟨rfl, rfl, sets.insert doc.uri
      (((d.inquiry doc).fetchAll (a.used d.service.name) (Scan.positions doc.text)).1.map
        Hint.decoration), rfl, fun other hother => ?_⟩
    have hbefore := hsets other hother
    rw [Desk.recorded?, sets_of_slot hslot] at hbefore
    rw [Table.find?_insert, hbefore, ← Table.find?_insert]
    rfl

/-- Only a look at the records of the document can tell the desks apart. -/
lemma Alike.run (h : Alike uri a b) (s : Step) :
    (s ≠ .current uri → (b.run s).outcome = (a.run s).outcome) ∧
      (b.run s).events = (a.run s).events ∧ Alike uri (a.run s).desk (b.run s).desk := by
  obtain ⟨sets, rfl, hsets⟩ := h
  cases hslot : a.slot with
  | none =>
    rw [recording_of_unbound hslot]
    exact ⟨fun _ => rfl, rfl, Alike.refl uri _⟩
  | some d =>
    have hother : (a.recording sets).slot = some { d with applied := sets } := by
      rw [recording_of_slot hslot]
    have hkept : ∀ other, other ≠ uri → sets.find? other = d.applied.find? other := by
      intro other hne
      rw [hsets other hne, Desk.recorded?, sets_of_slot hslot]
    have hsame : Alike uri a (a.recording sets) := ⟨sets, rfl, hsets⟩
    cases s with
    | bind service | replaceService service =>
      unfold Desk.run
      rw [hslot, hother]
      refine ⟨fun _ => rfl, rfl, sets, ?_, hkept⟩
      rw [recording_of_slot hslot]
      rfl
    | get | service | decorationType =>
      unfold Desk.run
      rw [hslot, hother]
      exact ⟨fun _ => rfl, rfl, hsame⟩
    | current other =>
      unfold Desk.run
      rw [hslot, hother]
      refine ⟨fun hne => ?_, rfl, hsame⟩
      exact congrArg Outcome.current (hkept other fun heq => hne (heq ▸ rfl))
    | decorate doc failure =>
      cases haccepts : d.accepts doc with
      | true =>
        rw [run_decorate hslot haccepts, run_decorate hother haccepts]
        obtain ⟨hout, hevents, halike⟩ := pass_recording hslot sets doc failure hsets
        exact ⟨fun _ => hout, hevents, halike⟩
      | false =>
        rw [run_skipped hslot haccepts, run_skipped hother haccepts]
        exact ⟨fun _ => rfl, rfl, hsame⟩

/-- Had the surface taken the decorations, only the record of the document would be another. -/
lemma alike_run_failed (desk : Desk) (doc : Document) (e : SurfaceError) :
    Alike doc.uri (desk.run (.decorate doc (some e))).desk
      (desk.run (.decorate doc none)).desk := by
  cases hslot : desk.slot with
  | none =>
    unfold Desk.run
    rw [hslot]
    exact Alike.refl _ _
  | some d =>
    cases haccepts : d.accepts doc with
    | false =>
      rw [run_skipped hslot haccepts, run_skipped hslot haccepts]
      exact Alike.refl _ _
    | true =>
      rw [run_decorate hslot haccepts, run_decorate hslot haccepts]
      refine ⟨d.applied.insert doc.uri (((d.inquiry doc).fetchAll (desk.used d.service.name)
        (Scan.positions doc.text)).1.map Hint.decoration), ?_, fun other hne => ?_⟩
      · rw [Desk.recording]
        simp only [Desk.pass, Desk.close, hslot]
        rfl
      · rw [Table.find?_insert, if_neg hne, Desk.recorded?]
        simp only [Desk.pass, Desk.close, Desk.sets, hslot]
        rfl

/-! ### All later steps -/

lemma before_set_of_le {i j : Nat} (hij : j ≤ i) (x : Step) :
    before desk (steps.set i x) j = before desk steps j := by
  rw [before, List.take_set_of_le hij, before]

/-- After a failed pass the desk stays like that of the session in which it succeeds. -/
lemma alike_before {i j : Nat} {e : SurfaceError} (hi : steps[i]? = some (.decorate doc (some e)))
    (hij : i < j) :
    Alike doc.uri (before desk steps j) (before desk (steps.set i (.decorate doc none)) j) := by
  have hlt : i < steps.length := (List.getElem?_eq_some_iff.mp hi).1
  induction j, hij using Nat.le_induction with
  | base =>
    rw [before_succ hi, before_succ (List.getElem?_set_self hlt), before_set_of_le (Nat.le_refl i)]
    exact alike_run_failed _ doc e
  | succ j hij ih =>
    have hne : i ≠ j := Nat.ne_of_lt hij
    cases hs : steps[j]? with
    | none =>
      rw [before_succ_of_none hs, before_succ_of_none ((List.getElem?_set_ne hne).trans hs)]
      exact ih
    | some s =>
      rw [before_succ hs, before_succ ((List.getElem?_set_ne hne).trans hs)]
      exact (ih.run s).2.2

/-- **A failed pass alters no later step**: had the surface taken its decorations, every step after
it would show the same events and, but for a look at the records of its document, give the same
answer. -/
theorem turn_after_failed {i j : Nat} {e : SurfaceError}
    (hi : steps[i]? = some (.decorate doc (some e))) (hij : i < j) :
    (turn desk (steps.set i (.decorate doc none)) j).map Ran.events =
        (turn desk steps j).map Ran.events ∧
      (steps[j]? ≠ some (.current doc.uri) →
        (turn desk (steps.set i (.decorate doc none)) j).map Ran.outcome =
          (turn desk steps j).map Ran.outcome) := by
  have halike : Alike doc.uri (before desk steps j)
      (before desk (steps.set i (.decorate doc none)) j) := alike_before hi hij
  rw [turn, turn, List.getElem?_set_ne (Nat.ne_of_lt hij)]
  cases steps[j]? with
  | none => exact ⟨rfl, fun _ => rfl⟩
  | some s =>
    obtain ⟨hout, hevents, -⟩ := halike.run s
    refine ⟨congrArg some hevents, fun hne => congrArg some (hout fun heq => hne ?_)⟩
    rw [heq]

end Inlay.Session
