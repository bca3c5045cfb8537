import Inlay.Proofs.Session.Turns

/-!
Watching the events. Who sees the events of passes, one pass after the other, knows which
decorations a surface took last for each document: a pass is announced with its document, hands
its decorations to the surface, and tells of its end only if they were taken. The desk records the
same, whatever a step comes to.
-/

namespace Inlay.Session

/-- What a watcher of the events knows. -/
structure Watcher where
  /-- The document of the pass announced last. -/
  document : Option String
  /-- The decorations handed to the surface last. -/
  handed : List Decoration
  /-- By document, the decorations that a surface took last. -/
  taken : Table String (List Decoration)

namespace Watcher

def new (taken : Table String (List Decoration)) : Watcher := ⟨none, [], taken⟩

def see (w : Watcher) : Event → Watcher
  | .log (.decorating uri) => { w with document := some uri }
  | .surface _ set => { w with handed := set }
  | .log (.passDone _ _) =>
    match w.document with
    | some uri => { w with taken := w.taken.insert uri w.handed }
    | none => w
  | _ => w

def watch (w : Watcher) (events : List Event) : Watcher := events.foldl see w

@[simp] lemma watch_nil (w : Watcher) : w.watch [] = w := rfl

@[simp] lemma watch_cons (w : Watcher) (e : Event) (es : List Event) :
    w.watch (e :: es) = (w.see e).watch es := rfl

lemma watch_append (w : Watcher) (a b : List Event) : w.watch (a ++ b) = (w.watch a).watch b := by
  simp [watch]

end Watcher

/-- The decorations that a surface took last for a document, as far as events show. -/
def lastTaken (uri : String) (events : List Event) : Option (List Decoration) :=
  ((Watcher.new ∅).watch events).taken.find? uri

/-- By document, the decorations recorded at a desk; there are none without a decorator. -/
def Desk.sets (desk : Desk) : Table String (List Decoration) :=
  (desk.slot.map Decorator.applied).getD ∅

def Desk.recorded? (desk : Desk) (uri : String) : Option (List Decoration) := desk.sets.find? uri

variable {desk : Desk} {d : Decorator} {doc : Document} {failure : Option SurfaceError}
  {w : Watcher}

lemma sets_of_slot (h : desk.slot = some d) : desk.sets = d.applied := by
  rw [Desk.sets, h]
  rfl

/-! ### Events that say nothing about what was taken -/

/-- An event that tells a watcher nothing. -/
def Quiet (e : Event) : Prop := ∀ w : Watcher, w.see e = w

lemma quiet_hover (service : String) (call : Nat) (uri : String) (place : Position) :
    Quiet (.hover service call uri place) := fun _ => rfl

lemma quiet_done (i : Nat) : Quiet (.done i) := fun _ => rfl

lemma quiet_of_debug {n : Notice} (h : n.level = .debug) : Quiet (.log n) := by
  intro w
  cases n <;> first | rfl | cases h

lemma quiet_of_mem_received {q : Inquiry} {call : Nat} {p : Position} {e : Event}
    (h : e ∈ q.received call p) : Quiet e := by
  obtain ⟨n, rfl, hn⟩ := debug_of_mem_received h
  exact quiet_of_debug hn

lemma quiet_of_mem_fetchAll {q : Inquiry} {used : Nat} {ps : List Position} {e : Event}
    (h : e ∈ (q.fetchAll used ps).2) : Quiet e :=
  forall_mem_fetchAll (fun _ _ => quiet_hover _ _ _ _) (fun _ _ _ => quiet_of_mem_received) _ _ e h

lemma quiet_of_mem_ask {q : Inquiry} {used : Nat} {hints : List Hint} {ps : List Position}
    {e : Event} (h : e ∈ (ask q used hints ps).2) : Quiet e :=
  forall_mem_ask (fun _ _ => quiet_hover _ _ _ _) (fun _ _ _ => quiet_of_mem_received) _ _ _ e h

lemma quiet_of_mem_resume {q : Inquiry} {v : Waiting} {e : Event} (h : e ∈ (v.resume q).2) :
    Quiet e :=
  forall_mem_resume (fun _ _ => quiet_hover _ _ _ _) (fun _ _ _ => quiet_of_mem_received) v e h

lemma watch_of_quiet {events : List Event} (h : ∀ e ∈ events, Quiet e) (w : Watcher) :
    w.watch events = w := by
  induction events with
  | nil => rfl
  | cons e es ih =>
    rw [Watcher.watch_cons, h e List.mem_cons_self w]
    exact ih fun x hx => h x (List.mem_cons_of_mem e hx)

/-! ### One step -/

/-- A step with a document in another language does nothing. -/
lemma run_skipped (hslot : desk.slot = some d) (hno : d.accepts doc = false)
    (failure : Option SurfaceError) :
    desk.run (.decorate doc failure) = ⟨desk, .skipped, []⟩ := by
  unfold Desk.run
  rw [hslot]
  simp only [hno]
  rfl

/-- All that a step can do to a desk. -/
inductive Does (desk : Desk) (s : Step) : Prop
  /-- The first service is bound. -/
  | creates {service : Hover.Service} (hslot : desk.slot = none) (hs : s = .bind service)
      (hrun : desk.run s = ⟨{ desk with slot := some (.new desk.settings service) }, .bound false,
        [.log (.decoratorCreated desk.settings.languageId)]⟩)
  | rebinds {d : Decorator} {service : Hover.Service} {outcome : Outcome}
      (hslot : desk.slot = some d) (hs : s = .bind service ∨ s = .replaceService service)
      (hrun : desk.run s = ⟨desk.rebind d service, outcome, [.log .serviceReplaced]⟩)
  | passes {d : Decorator} {doc : Document} {failure : Option SurfaceError}
      (hslot : desk.slot = some d) (hs : s = .decorate doc failure)
      (haccepts : d.accepts doc = true) (hrun : desk.run s = desk.pass d doc failure)
  /-- The step reads something, finds no decorator, or is passed over for its language. -/
  | looks {outcome : Outcome} (hrun : desk.run s = ⟨desk, outcome, []⟩)

lemma does_run (desk : Desk) (s : Step) : Does desk s := by
  cases hslot : desk.slot with
  | none =>
    cases s with
    | bind service => exact .creates hslot rfl (by simp only [Desk.run, hslot])
    | _ => exact .looks (by simp only [Desk.run, hslot]; rfl)
  | some d =>
    cases s with
    | bind service => exact .rebinds hslot (Or.inl rfl) (by simp only [Desk.run, hslot]; rfl)
    | replaceService service =>
      exact .rebinds hslot (Or.inr rfl) (by simp only [Desk.run, hslot]; rfl)
    | decorate doc failure =>
      cases haccepts : d.accepts doc with
      | true => exact .passes hslot rfl haccepts (run_decorate hslot haccepts failure)
      | false => exact .looks (run_skipped hslot haccepts failure)
    | _ => exact .looks (by simp only [Desk.run, hslot]; rfl)

/-- At the end of a pass the watcher and the desk put down the same. -/
lemma taken_watch_close (hslot : desk.slot = some d) (hdoc : w.document = some doc.uri)
    (htaken : w.taken = desk.sets) (sites used : Nat) (hints : List Hint) :
    (w.watch (desk.close d doc failure sites used hints).events).taken =
      (desk.close d doc failure sites used hints).desk.sets := by
  rw [sets_of_slot hslot] at htaken
  cases failure with
  | none =>
    simp only [Desk.close, Watcher.watch_cons, Watcher.watch_nil, Watcher.see, hdoc, htaken]
    rfl
  | some e =>
    simp only [Desk.close, Watcher.watch_cons, Watcher.watch_nil, Watcher.see, htaken]
    exact (sets_of_slot hslot).symm

lemma taken_watch_pass (hslot : desk.slot = some d) (htaken : w.taken = desk.sets)
    (doc : Document) (failure : Option SurfaceError) :
    (w.watch (desk.pass d doc failure).events).taken = (desk.pass d doc failure).desk.sets := by
  have hquiet : (w.see (.log (.decorating doc.uri))).watch
      ((d.inquiry doc).fetchAll (desk.used d.service.name) (Scan.positions doc.text)).2 =
      w.see (.log (.decorating doc.uri)) :=
    watch_of_quiet (fun _ he => quiet_of_mem_fetchAll he) _
  simp only [Desk.pass, Watcher.watch_append, Watcher.watch_cons, List.cons_append, hquiet]
  exact taken_watch_close (w := w.see (.log (.decorating doc.uri))) hslot rfl htaken _ _ _

/-- Whatever a step comes to, the watcher goes on to know what the desk records. -/
theorem taken_watch_run (htaken : w.taken = desk.sets) (s : Step) :
    (w.watch (desk.run s).events).taken = (desk.run s).desk.sets := by
  cases does_run desk s with
  | creates hslot _ hrun =>
    have hempty : w.taken = ∅ := by
      rw [htaken, Desk.sets, hslot]
      rfl
    rw [hrun]
    exact hempty
  | @rebinds d service outcome hslot _ hrun =>
    have hkept : w.taken = d.applied := htaken.trans (sets_of_slot hslot)
    rw [hrun]
    exact hkept
  | passes hslot _ _ hrun =>
    rw [hrun]
    exact taken_watch_pass hslot htaken _ _
  | looks hrun =>
    rw [hrun]
    exact htaken

end Inlay.Session
