import Inlay.Proofs.Scan.Positions
import Inlay.Proofs.Session.Passes
import Inlay.Proofs.Session.Recorded

/-!
What a pass provides. A pass hands to the surface one decoration for each position whose reply has
an entry, and reports how many these are. A desk records nothing else, so that whatever it records
is in document order, takes up no room in the text and shows the prefix first.
-/

namespace Inlay

namespace Hover

/-- The entries of contents. Marked-up text is a single entry, unless it is empty. -/
def Contents.entries : Contents → List Entry
  | scalar e => [e]
  | array es => es
  | markup _ value => if value = "" then [] else [.plain value]

/-- The entries of a reply. A query that fails or finds nothing has none. -/
def Reply.entries : Reply → List Entry
  | .ok (some contents) => contents.entries
  | _ => []

lemma Contents.firstText?_eq (c : Contents) :
    c.firstText? = c.entries.head?.map Entry.text := by
  cases c with
  | scalar e => rfl
  | array es => rfl
  | markup kind value =>
    by_cases hempty : value = ""
    · simp [firstText?, entries, hempty]
    · simp [firstText?, entries, hempty, Entry.text]

end Hover

open Hover

namespace Session

/-- What a pass over a text provides if its service has answered `used` queries before: for each
position whose reply has an entry, in their order, an empty range at the position and the text of
the first entry behind the prefix. -/
def provided (settings : Config.Settings) (service : Service) (used : Nat) (text : String) :
    List Decoration :=
  ((Scan.positions text).zipIdx (used + 1)).filterMap fun x =>
    (Reply.entries (service.answer x.2 ⟨x.1.line, x.1.character - 1⟩)).head?.map fun e =>
      ⟨⟨x.1, x.1⟩, settings.labelPrefix ++ e.text⟩

/-- What holds of a desk with certain settings at any time: its decorator has these settings, and
what it records for a document is what a pass has provided. -/
structure Kept (settings : Config.Settings) (desk : Desk) : Prop where
  desk_settings : desk.settings = settings
  decorator_settings : ∀ d, desk.slot = some d → d.settings = settings
  record : ∀ uri set, desk.recorded? uri = some set →
    ∃ service used text, set = provided settings service used text

variable {desk mid : Desk} {d : Decorator} {doc : Document} {failure : Option SurfaceError}
  {settings : Config.Settings} {service : Service} {used n : Nat} {text : String}
  {events : List Event} {outcome : Outcome} {steps : List Step} {o : Overlap}

/-! ### What is provided -/

lemma text?_eq (r : Reply) : Inquiry.text? r = (Reply.entries r).head?.map Entry.text := by
  match r with
  | .error _ => rfl
  | .ok none => rfl
  | .ok (some contents) => exact contents.firstText?_eq

lemma decorations_fetchAll (d : Decorator) (doc : Document) (used : Nat) :
    ((d.inquiry doc).fetchAll used (Scan.positions doc.text)).1.map Hint.decoration =
      provided d.settings d.service used doc.text := by
  rw [fetchAll_hints, List.map_filterMap, provided]
  congr 1
  funext x
  rw [Inquiry.hint?, text?_eq, Option.map_map, Option.map_map]
  rfl

/-- A pass that succeeds puts down what it has provided, for its document and no other. -/
lemma recorded_pass (hslot : desk.slot = some d) (doc : Document) (uri : String) :
    (desk.pass d doc none).desk.recorded? uri =
      if uri = doc.uri then
        some (provided d.settings d.service (desk.used d.service.name) doc.text)
      else desk.recorded? uri := by
  rw [← decorations_fetchAll d doc, Desk.recorded?, Desk.recorded?, sets_of_slot hslot]
  exact Table.find?_insert _ _ _ _

/-! ### What steps preserve -/

namespace Kept

lemma new (settings : Config.Settings) : Kept settings (.new settings) :=
  ⟨rfl, fun _ hd => (nomatch hd), fun _ _ hset => nomatch hset⟩

lemma pass (h : Kept settings desk) (hslot : desk.slot = some d) (doc : Document)
    (failure : Option SurfaceError) : Kept settings (desk.pass d doc failure).desk := by
  have hd := h.decorator_settings d hslot
  cases failure with
  | some e => exact ⟨h.desk_settings, h.decorator_settings, h.record⟩
  | none =>
    refine ⟨h.desk_settings, fun x hx => ?_, fun uri set hset => ?_⟩
    · cases hx
      exact hd
    · rw [recorded_pass hslot, hd] at hset
      split at hset
      · exact ⟨d.service, desk.used d.service.name, doc.text, (Option.some.inj hset).symm⟩
      · exact h.record uri set hset

lemma run (h : Kept settings desk) (s : Step) : Kept settings (desk.run s).desk := by
  cases does_run desk s with
  | creates hslot _ hrun =>
    rw [hrun]
    refine ⟨h.desk_settings, fun x hx => ?_, fun _ _ hset => nomatch hset⟩
    cases hx
    exact h.desk_settings
  | @rebinds d service outcome hslot _ hrun =>
    rw [hrun]
    refine ⟨h.desk_settings, fun x hx => ?_, fun uri set hset => ?_⟩
    · cases hx
      exact h.decorator_settings d hslot
    · refine h.record uri set ?_
      rw [Desk.recorded?, sets_of_slot hslot]
      exact hset
  | passes hslot _ _ hrun =>
    rw [hrun]
    exact h.pass hslot _ _
  | looks hrun =>
    rw [hrun]
    exact h

lemma before (h : Kept settings desk) (steps : List Step) (i : Nat) :
    Kept settings (Session.before desk steps i) := by
  induction i with
  | zero => exact h
  | succ i ih =>
    cases hs : steps[i]? with
    | none =>
      rw [before_succ_of_none hs]
      exact ih
    | some s =>
      rw [before_succ hs]
      exact ih.run s

end Kept

lemma Reached.kept (h : Reached desk steps n o) (hk : Kept settings desk) :
    Kept settings o.desk := by
  obtain ⟨k, horderly⟩ := h.orderly
  obtain ⟨shown, hledger⟩ := horderly.ledger
  rw [hledger.found]
  exact hk.before steps k

lemma Performed.kept {actions : List Action} {last : Desk} {shown : List Event}
    (h : Performed desk actions last shown) (hk : Kept settings desk) : Kept settings last := by
  induction h with
  | nil => exact hk
  | single _ ih => exact ih (hk.run _)
  | overlapping hcomplete _ ih => exact ih (hcomplete.reached.kept hk)

/-- A service that has two entries to tell at first, then fails, finds nothing, has only empty
marked-up text, and from then on an empty entry. -/
def moodyService : Service where
  name := "moody"
  rounds := 1
  answer call _ :=
    match call with
    | 1 => .ok (some (.array [.code "rust" "i32", .plain "An integer."]))
    | 2 => .error .timeout
    | 3 => .ok none
    | 4 => .ok (some (.markup .markdown ""))
    | _ => .ok (some (.scalar (.plain "")))

end Session

end Inlay
