import Inlay.Proofs.Scan.Names
import Inlay.Proofs.Session.Passes
import Inlay.Proofs.Session.Serial

/-!
What a pass asks about. A pass makes one query for each position of its document, in their order,
each about the place one column to the left; there the name that ends at the position still stands.
-/

namespace Inlay

/-- What a query asks. -/
structure Query where
  service : String
  call : Nat
  uri : String
  place : Position
  deriving DecidableEq

def Event.query? : Event → Option Query
  | .hover service call uri place => some ⟨service, call, uri, place⟩
  | _ => none

namespace Session

variable {desk : Desk} {doc : Document} {failure : Option SurfaceError} {d : Decorator}
  {used : Nat} {events : List Event} {outcome : Outcome}

/-! ### The queries among the events -/

lemma query?_received (q : Inquiry) (call : Nat) (p : Position) :
    (q.received call p).filterMap Event.query? = [] := by
  rw [List.filterMap_eq_nil_iff]
  intro e he
  obtain ⟨n, rfl, -⟩ := debug_of_mem_received he
  rfl

lemma query?_fetchAll (q : Inquiry) (used : Nat) (ps : List Position) :
    (q.fetchAll used ps).2.filterMap Event.query? =
      (ps.zipIdx (used + 1)).map fun x => ⟨q.service.name, x.2, q.uri, Inquiry.probe x.1⟩ := by
  induction ps generalizing used with
  | nil => rfl
  | cons p ps ih =>
    have hasked : (q.asked (used + 1) p).query? =
        some ⟨q.service.name, used + 1, q.uri, Inquiry.probe p⟩ := rfl
    rw [Inquiry.fetchAll_cons, List.cons_append, List.filterMap_cons_some hasked,
      List.filterMap_append, query?_received, List.nil_append, ih, List.zipIdx_cons, List.map_cons]

lemma query?_close (sites : Nat) (hints : List Hint) :
    (desk.close d doc failure sites used hints).events.filterMap Event.query? = [] := by
  cases failure <;> rfl

lemma query?_pass (desk : Desk) (d : Decorator) (doc : Document)
    (failure : Option SurfaceError) :
    (desk.pass d doc failure).events.filterMap Event.query? =
      ((Scan.positions doc.text).zipIdx (desk.used d.service.name + 1)).map
        fun x => ⟨d.service.name, x.2, doc.uri, Inquiry.probe x.1⟩ := by
  have hstart : (Event.log (.decorating doc.uri)).query? = none := rfl
  simp only [Desk.pass]
  rw [List.cons_append, List.filterMap_cons_none hstart, List.filterMap_append, query?_fetchAll,
    query?_close, List.append_nil]
  rfl

/-- **The service is asked about the names themselves.** A pass over a document in the language of
its decorator makes exactly one query for each position of the document, in their order and
whatever the replies are: to the service that the decorator had when the pass began, on the
document, about the place one column to the left of the position. There is such a column, and the
name that ends at the position covers it. -/
theorem queries_of_passed (h : Passed doc failure d used events outcome) :
    events.filterMap Event.query? =
      ((Scan.positions doc.text).zipIdx (used + 1)).map
        (fun x => ⟨d.service.name, x.2, doc.uri, ⟨x.1.line, x.1.character - 1⟩⟩) ∧
    ∀ x ∈ Scan.positions doc.text, 1 ≤ x.character ∧
      (∃ line start, (Text.split '\n' doc.text.toList)[x.line]? = some line ∧
        Scan.NameAt line start x.character) ∧
      ∀ line start, (Text.split '\n' doc.text.toList)[x.line]? = some line →
        Scan.NameAt line start x.character →
        start ≤ x.character - 1 ∧ x.character - 1 < x.character := by
  constructor
  · obtain ⟨desk, ends, rfl, -, rfl, hends⟩ := h.exists_pass
    have hquiet : ends.filterMap Event.query? = [] := by
      rw [List.filterMap_eq_nil_iff]
      intro e he
      obtain ⟨i, rfl⟩ := hends e he
      rfl
    rw [List.filterMap_append, query?_pass, hquiet, List.append_nil]
    rfl
  · intro x hx
    obtain ⟨line, start, hline, hname⟩ := Scan.exists_nameAt_of_mem_positions hx
    have hlt := hname.lt
    refine ⟨by omega, ⟨line, start, hline, hname⟩, fun line start _ hname => ?_⟩
    have hlt := hname.lt
    omega

/-- A pass whose names lie outside the basic plane, and another service put in meanwhile. -/
def wideSteps : List Step :=
  [.decorate ⟨"file:///main.rs", "rust", "let 𝑥 = |é, 𝑦𝑧| é;"⟩ none, .bind (slowService "new")]

/-- The first pass of `wideSteps` asks the old service about three places, each in its name. -/
theorem queries_of_passed_wide :
    ∃ o outcome, Complete busyDesk wideSteps o ∧
      Passed ⟨"file:///main.rs", "rust", "let 𝑥 = |é, 𝑦𝑧| é;"⟩ none
        (.new {} (slowService "old")) 0 ((o.trace.filter (·.1 == 0)).map Prod.snd) outcome ∧
      ((o.trace.filter (·.1 == 0)).map Prod.snd).filterMap Event.query? =
        [⟨"old", 1, "file:///main.rs", ⟨0, 5⟩⟩, ⟨"old", 2, "file:///main.rs", ⟨0, 10⟩⟩,
          ⟨"old", 3, "file:///main.rs", ⟨0, 16⟩⟩] := by
  have hcomplete := complete_overlap busyDesk wideSteps
  have hfirst : wideSteps[0]? =
      some (.decorate ⟨"file:///main.rs", "rust", "let 𝑥 = |é, 𝑦𝑧| é;"⟩ none) := rfl
  have hslot : (before busyDesk wideSteps 0).slot = some (.new {} (slowService "old")) := rfl
  obtain ⟨outcome, hpassed⟩ := hcomplete.passed hfirst hslot (by decide)
  have hpositions : Scan.positions "let 𝑥 = |é, 𝑦𝑧| é;" = [⟨0, 6⟩, ⟨0, 11⟩, ⟨0, 17⟩] := by
    decide +kernel
  refine ⟨_, _, hcomplete, hpassed, ?_⟩
  rw [(queries_of_passed hpassed).1, hpositions]
  rfl

end Session

end Inlay
