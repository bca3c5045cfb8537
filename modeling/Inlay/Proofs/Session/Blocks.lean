import Inlay.Proofs.Session.Serial

/-!
What others see of overlapping steps. The steps that take the lock show their events in blocks,
one after the other in the order of the steps; only steps without the lock may show theirs in
between.
-/

namespace Inlay.Session

/-- A query and what is recorded of its reply. -/
def Exchange (query : Event) (events : List Event) : Prop :=
  ∃ records, events = query :: records ∧ ∀ e ∈ records, ∃ n : Notice, e = .log n ∧ n.level = .debug

def Verdict (doc : Document) : Option SurfaceError → Notice → Prop
  | none, n => ∃ count, n = .passDone count (Scan.positions doc.text).length
  | some e, n => n = .passFailed doc.uri e

/-- What a pass shows whose service has answered `used` queries before: its start, one exchange
for each position, one call of the surface and a verdict. All queries are on its document, are put
to the service of the decorator and are numbered in turn. -/
def PassEvents (d : Decorator) (doc : Document) (failure : Option SurfaceError) (used : Nat)
    (events : List Event) : Prop :=
  ∃ (exchanges : List (List Event)) (set : List Decoration) (verdict : Notice),
    events = .log (.decorating doc.uri) :: exchanges.flatten ++
      [.surface d.type set, .log verdict] ∧
    exchanges.length = (Scan.positions doc.text).length ∧
    (∀ j p, (Scan.positions doc.text)[j]? = some p → ∃ l, exchanges[j]? = some l ∧
      Exchange (.hover d.service.name (used + 1 + j) doc.uri (Inquiry.probe p)) l) ∧
    Verdict doc failure verdict

/-- The lock goes to a step: it starts and finds the lock free, or it is the first in the queue. -/
inductive Gets (steps : List Step) (n : Nat) (o : Overlap) : Nat → Step → Prop
  | starting {s : Step} : steps[n]? = some s → Overlap.needsLock o.desk s = true →
      o.holder = none → o.queue = [] → Gets steps n o n s
  | queued {i : Nat} {s : Step} {rest : List (Nat × Step)} : o.holder = none →
      o.queue = (i, s) :: rest → Gets steps n o i s

variable {desk : Desk} {steps : List Step} {o : Overlap} {n i : Nat} {s : Step}

/-! ### One block -/

lemma exchange_fetch (q : Inquiry) (call : Nat) (p : Position) :
    Exchange (q.asked call p) (q.fetch call p).2 :=
  ⟨q.received call p, rfl, fun _ he => debug_of_mem_received he⟩

lemma passEvents_pass (d : Decorator) (doc : Document) (failure : Option SurfaceError) :
    PassEvents d doc failure (desk.used d.service.name) (desk.pass d doc failure).events := by
  set ps := Scan.positions doc.text with hps
  set used := desk.used d.service.name with hused
  have hqueries := fetchAll_events (d.inquiry doc) used ps
  obtain ⟨set, verdict, hclose, hverdict⟩ : ∃ set verdict,
      (desk.close d doc failure ps.length (used + ps.length)
        ((d.inquiry doc).fetchAll used ps).1).events = [.surface d.type set, .log verdict] ∧
      Verdict doc failure verdict := by
    cases failure with
    | none => exact ⟨_, _, rfl, _, rfl⟩
    | some e => exact ⟨_, _, rfl, rfl⟩
  refine ⟨(ps.zipIdx (used + 1)).map fun x => ((d.inquiry doc).fetch x.2 x.1).2, set, verdict,
    ?_, by rw [List.length_map, List.length_zipIdx], fun j p hp => ?_, hverdict⟩
  · calc (desk.pass d doc failure).events
        = .log (.decorating doc.uri) :: ((d.inquiry doc).fetchAll used ps).2 ++
            (desk.close d doc failure ps.length (used + ps.length)
              ((d.inquiry doc).fetchAll used ps).1).events := rfl
      _ = _ := by rw [hclose, hqueries, List.flatMap_def]
  · refine ⟨((d.inquiry doc).fetch (used + 1 + j) p).2, ?_, exchange_fetch _ _ _⟩
    rw [List.getElem?_map, List.getElem?_zipIdx, hp]
    rfl

lemma block_decorate {d : Decorator} {doc : Document} {failure : Option SurfaceError}
    (hs : steps[i]? = some (.decorate doc failure))
    (hslot : (before desk steps i).slot = some d) (haccepts : d.accepts doc = true) :
    ∃ events, block desk steps i = events ++ [.done i] ∧
      PassEvents d doc failure ((before desk steps i).used d.service.name) events := by
  refine ⟨_, ?_, passEvents_pass d doc failure⟩
  rw [block, turn_eq hs, run_decorate hslot haccepts]
  rfl

/-! ### Who gets the lock -/

/-- A step that gets the lock finds the desk as the steps before it leave it. -/
lemma Gets.found (hgets : Gets steps n o i s) (h : Reached desk steps n o) :
    o.desk = before desk steps i := by
  obtain ⟨k, horderly⟩ := h.orderly
  cases hgets with
  | starting _ _ hfree hqueue => exact (horderly.idle hfree hqueue).found
  | queued hfree hqueue => exact (horderly.next hfree hqueue).1.found

/-- While a pass waits, the desk is as the pass has found it. -/
lemma Reached.found (h : Reached desk steps n o) {a : Holder} (ha : o.holder = some a) :
    o.desk = before desk steps a.index ∧ o.desk.slot = some a.decorator := by
  obtain ⟨k, horderly⟩ := h.orderly
  obtain ⟨⟨hindex, -, -⟩, hslot, -, shown, ledger, -⟩ := horderly.of_held ha
  rw [ledger.found, hindex]
  exact ⟨rfl, hslot⟩

lemma Reached.needsLock (h : Reached desk steps n o) (hs : steps[n]? = some s) :
    Overlap.needsLock o.desk s = takesTurn desk steps n := by
  obtain ⟨k, horderly⟩ := h.orderly
  obtain ⟨shown, hledger⟩ := horderly.ledger
  exact (hledger.takesTurn_eq hs).symm

/-! ### The whole trace -/

lemma Complete.count_done (h : Complete desk steps o) (i : Nat) :
    (o.trace.map Prod.snd).count (.done i) = if i < steps.length then 1 else 0 := by
  have hended : ended desk steps steps.length steps.length i = decide (i < steps.length) := by
    rw [Bool.eq_iff_iff, ended_eq_true, decide_eq_true_iff]
    exact ⟨fun hi => hi.1, fun hi => ⟨hi, Or.inl hi⟩⟩
  rw [h.ledger.tally.done i, hended]
  simp only [decide_eq_true_iff]

lemma Complete.filter_trace (h : Complete desk steps o) :
    o.trace.filter (takesTurn desk steps ·.1) =
      (takers desk steps 0 steps.length).flatMap fun i => marked i (block desk steps i) := by
  rw [h.ledger.trace, marked_nil, List.append_nil]

/-- **Passes never interleave.** However overlapping steps are scheduled, what is left of the trace
without the steps that take no lock is one block for each of the others, in the order of the steps,
and every step shows its end once. The block of a pass holds its start, its queries, one call of
the surface and its verdict; all queries go to the service that the pass has found when it got the
lock. The overlap of the library shows such a trace. -/
theorem passes_never_interleave (desk : Desk) (steps : List Step) :
    (∃ o, Complete desk steps o ∧ (desk.overlap steps).2.2 = o.trace.map Prod.snd) ∧
    (∀ o, Complete desk steps o →
      o.trace.filter (takesTurn desk steps ·.1) =
        ((takers desk steps 0 steps.length).flatMap fun i => marked i (block desk steps i)) ∧
      ∀ i, (o.trace.map Prod.snd).count (.done i) = if i < steps.length then 1 else 0) ∧
    (∀ i doc failure d, steps[i]? = some (.decorate doc failure) →
      (before desk steps i).slot = some d → d.accepts doc = true →
      ∃ events, block desk steps i = events ++ [.done i] ∧
        PassEvents d doc failure ((before desk steps i).used d.service.name) events) ∧
    ∀ n o, Reached desk steps n o →
      (∀ s, steps[n]? = some s → Overlap.needsLock o.desk s = takesTurn desk steps n) ∧
      (∀ i s, Gets steps n o i s → o.desk = before desk steps i) ∧
      ∀ a, o.holder = some a →
        o.desk = before desk steps a.index ∧ o.desk.slot = some a.decorator := by
  refine ⟨?_, fun o h => ?_, fun i doc failure d hs hslot haccepts => ?_, fun n o h => ?_⟩
  · exact ⟨((Overlap.new desk).startAll 0 steps).drain, complete_overlap desk steps, rfl⟩
  · exact ⟨h.filter_trace, h.count_done⟩
  · exact block_decorate hs hslot haccepts
  · exact ⟨fun s hs => h.needsLock hs, fun i s hgets => hgets.found h, fun a ha => h.found ha⟩

/-- The first pass of `busySteps` gets the lock at once; it, the binding and the second pass show
their blocks in this order. -/
theorem passes_never_interleave_busy :
    (takers busyDesk busySteps 0 busySteps.length = [0, 1, 2] ∧
      ((Overlap.new busyDesk).startAll 0 busySteps).drain.trace.filter
        (takesTurn busyDesk busySteps ·.1) =
        ((takers busyDesk busySteps 0 busySteps.length).flatMap fun i =>
          marked i (block busyDesk busySteps i))) ∧
    (∃ events, block busyDesk busySteps 0 = events ++ [.done 0] ∧
      PassEvents (.new {} (slowService "old")) ⟨"file:///main.rs", "rust", "let x = 1;"⟩ none
        ((before busyDesk busySteps 0).used "old") events) ∧
    Gets busySteps 0 (.new busyDesk) 0
      (.decorate ⟨"file:///main.rs", "rust", "let x = 1;"⟩ none) ∧
    (Overlap.new busyDesk).desk = before busyDesk busySteps 0 := by
  have hgets : Gets busySteps 0 (.new busyDesk) 0
      (.decorate ⟨"file:///main.rs", "rust", "let x = 1;"⟩ none) :=
    .starting rfl (by decide) rfl rfl
  obtain ⟨-, htrace, hblock, hreached⟩ := passes_never_interleave busyDesk busySteps
  refine ⟨⟨by decide, (htrace _ (complete_overlap _ _)).1⟩, ?_, hgets, ?_⟩
  · exact hblock 0 _ none _ rfl rfl (by decide)
  · exact (hreached 0 _ .init).2.1 0 _ hgets

end Inlay.Session
