import Inlay.Inquiry
import Inlay.Scan.Document
import Inlay.Table

/-!
A desk holds at most one decorator, made when the first service is bound and kept from then on.
A decorator remembers for each document the decorations of its last pass that succeeded.
-/

namespace Inlay.Session

open Hover

/-- Decorates documents of one language with the help of a service. -/
structure Decorator where
  settings : Config.Settings
  service : Service
  /-- By document, the decorations last taken by a surface. -/
  applied : Table String (List Decoration)

/-- The place of the decorator, with the number of queries made to each service so far. -/
structure Desk where
  settings : Config.Settings
  slot : Option Decorator
  calls : Table String Nat

def Desk.new (settings : Config.Settings) : Desk := ⟨settings, none, ∅⟩

/-- Queries made so far to the service of a name. -/
def Desk.used (desk : Desk) (service : String) : Nat := (desk.calls.find? service).getD 0

namespace Decorator

def new (settings : Config.Settings) (service : Service) : Decorator := ⟨settings, service, ∅⟩

def type (d : Decorator) : DecorationType := .ofSettings d.settings

def accepts (d : Decorator) (doc : Document) : Bool := doc.languageId == d.settings.languageId

def inquiry (d : Decorator) (doc : Document) : Inquiry :=
  ⟨d.service, doc.uri, d.settings.labelPrefix⟩

end Decorator

inductive Step
  | bind (service : Service)
  | get
  | replaceService (service : Service)
  | service
  | decorationType
  | current (uri : String)
  /-- A pass over a document; `failure` is what the surface answers to it, if not success. -/
  | decorate (document : Document) (failure : Option SurfaceError)

inductive Outcome
  /-- Whether the decorator was there before. -/
  | bound (reused : Bool)
  | held (bound : Bool)
  | replaced
  | service (name : String)
  | decorationType (type : DecorationType)
  | current (decorations : Option (List Decoration))
  /-- The document is in another language. -/
  | skipped
  | applied (count : Nat)
  | failed
  /-- The step needs a decorator and there is none. -/
  | unbound
  deriving DecidableEq

/-- A step that has run: what it leaves, answers and shows. -/
structure Ran where
  desk : Desk
  outcome : Outcome
  events : List Event

def Desk.rebind (desk : Desk) (d : Decorator) (service : Service) : Desk :=
  { desk with slot := some { d with service := service } }

/-- The end of a pass: hands the decorations to the surface and records them if it takes them. -/
def Desk.close (desk : Desk) (d : Decorator) (doc : Document) (failure : Option SurfaceError)
    (sites used : Nat) (hints : List Hint) : Ran :=
  let set := hints.map Hint.decoration
  let calls := desk.calls.insert d.service.name used
  match failure with
  | none =>
    { desk := { desk with
        slot := some { d with applied := d.applied.insert doc.uri set }
        calls := calls }
      outcome := .applied set.length
      events := [.surface d.type set, .log (.passDone set.length sites)] }
  | some e =>
    { desk := { desk with calls := calls }
      outcome := .failed
      events := [.surface d.type set, .log (.passFailed doc.uri e)] }

/-- A pass over a document of the decorator's language, from beginning to end. -/
def Desk.pass (desk : Desk) (d : Decorator) (doc : Document) (failure : Option SurfaceError) :
    Ran :=
  let ps := Scan.positions doc.text
  let used := desk.used d.service.name
  let (hints, queries) := (d.inquiry doc).fetchAll used ps
  let closed := desk.close d doc failure ps.length (used + ps.length) hints
  { closed with events := .log (.decorating doc.uri) :: queries ++ closed.events }

def Desk.run (desk : Desk) (step : Step) : Ran :=
  match desk.slot with
  | none =>
    match step with
    | .bind service =>
      { desk := { desk with slot := some (.new desk.settings service) }
        outcome := .bound false
        events := [.log (.decoratorCreated desk.settings.languageId)] }
    | .get => ⟨desk, .held false, []⟩
    | _ => ⟨desk, .unbound, []⟩
  | some d =>
    match step with
    | .bind service => ⟨desk.rebind d service, .bound true, [.log .serviceReplaced]⟩
    | .get => ⟨desk, .held true, []⟩
    | .replaceService service => ⟨desk.rebind d service, .replaced, [.log .serviceReplaced]⟩
    | .service => ⟨desk, .service d.service.name, []⟩
    | .decorationType => ⟨desk, .decorationType d.type, []⟩
    | .current uri => ⟨desk, .current (d.applied.find? uri), []⟩
    | .decorate doc failure =>
      if d.accepts doc then desk.pass d doc failure else ⟨desk, .skipped, []⟩

end Inlay.Session
