import Inlay.Proofs.Session.Turns

/-!
The books of overlapping steps. While steps overlap, some turns are over, perhaps one is going on,
and the others are still to come. The ledger says what can be read off the desk, the outcomes and
the trace meanwhile: exactly what the turns that are over have come to, and what the one that is
going on has shown.
-/

namespace Inlay.Session

/-- What step `i` shows in its turn, its end included. -/
def block (desk : Desk) (steps : List Step) (i : Nat) : List Event :=
  ((turn desk steps i).map Ran.events).getD [] ++ [.done i]

def marked (i : Nat) (events : List Event) : List (Nat × Event) :=
  events.map (i, ·)

/-- Is step `i` over when `n` steps have started and the turns before `k` are over? -/
def ended (desk : Desk) (steps : List Step) (k n i : Nat) : Bool :=
  decide (i < n) && (decide (i < k) || !takesTurn desk steps i)

/-- The outcomes and the ends that have been noted are those of certain steps. -/
structure Tally (desk : Desk) (steps : List Step) (p : Nat → Bool) (o : Overlap) : Prop where
  outcome : ∀ i, Table.lookup i o.outcomes =
    if p i then (turn desk steps i).map Ran.outcome else none
  done : ∀ i, (o.trace.map Prod.snd).count (.done i) = if p i then 1 else 0

/-- The turns before `k` are over, and the turn of `k` has shown some events so far. -/
structure Ledger (desk : Desk) (steps : List Step) (k n : Nat) (shown : List Event)
    (o : Overlap) : Prop where
  le : k ≤ n
  bound : k < n → ∃ d, (before desk steps k).slot = some d
  found : o.desk = before desk steps k
  tally : Tally desk steps (ended desk steps k n) o
  trace : o.trace.filter (takesTurn desk steps ·.1) =
    ((takers desk steps 0 k).flatMap fun i => marked i (block desk steps i)) ++ marked k shown

variable {desk : Desk} {steps : List Step} {o o' : Overlap} {k n i : Nat} {s : Step}
  {shown events : List Event} {ran : Ran}

/-! ### Ends -/

lemma done_not_mem_close (d : Decorator) (doc : Document) (failure : Option SurfaceError)
    (sites used : Nat) (hints : List Hint) (i : Nat) :
    Event.done i ∉ (desk.close d doc failure sites used hints).events := by
  cases failure <;> simp [Desk.close]

lemma done_not_mem_pass (d : Decorator) (doc : Document) (failure : Option SurfaceError)
    (i : Nat) : Event.done i ∉ (desk.pass d doc failure).events := by
  intro h
  rcases List.mem_append.mp h with h | h
  · rcases List.mem_cons.mp h with h | h
    · contradiction
    · exact done_not_mem_fetchAll _ _ _ i h
  · exact done_not_mem_close _ _ _ _ _ _ i h

/-- No step shows an end while it runs by itself. -/
lemma done_not_mem_run (desk : Desk) (s : Step) (i : Nat) : Event.done i ∉ (desk.run s).events := by
  cases hslot : desk.slot with
  | none => cases s <;> simp [Desk.run, hslot]
  | some d =>
    cases s with
    | decorate doc failure =>
      cases haccepts : d.accepts doc with
      | true =>
        rw [run_decorate hslot haccepts]
        exact done_not_mem_pass d doc failure i
      | false => simp [Desk.run, hslot, haccepts]
    | _ => simp [Desk.run, hslot]

lemma done_not_mem_turn (h : turn desk steps k = some ran) (i : Nat) : .done i ∉ ran.events := by
  obtain ⟨s, -, rfl⟩ := Option.map_eq_some_iff.mp h
  exact done_not_mem_run _ s i

/-! ### Outcomes and ends -/

lemma lookup_append_singleton (i j : Nat) (v : Outcome) (es : List (Nat × Outcome)) :
    Table.lookup j (es ++ [(i, v)]) =
      (Table.lookup j es).or (if i = j then some v else none) := by
  induction es with
  | nil => simp [Table.lookup]
  | cons e es ih =>
    by_cases he : e.1 = j
    · simp [Table.lookup, he]
    · simp [Table.lookup, he, ih]

lemma count_emit (h : Event.done i ∉ events) :
    ((o.emit k events).trace.map Prod.snd).count (.done i) =
      (o.trace.map Prod.snd).count (.done i) := by
  have htagged : (events.map (k, ·)).map Prod.snd = events := by
    rw [List.map_map]
    exact List.map_id _
  rw [Overlap.emit, List.map_append, List.count_append, htagged, List.count_eq_zero.mpr h,
    Nat.add_zero]

lemma Tally.emit {p : Nat → Bool} (h : Tally desk steps p o) (hd : ∀ i, .done i ∉ events) :
    Tally desk steps p (o.emit k events) :=
  ⟨h.outcome, fun i => (count_emit (hd i)).trans (h.done i)⟩

lemma Tally.settle {p q : Nat → Bool} (h : Tally desk steps p o) (hnew : p k = false)
    (hout : (turn desk steps k).map Ran.outcome = some ran.outcome)
    (hd : ∀ i, .done i ∉ ran.events) (hq : ∀ i, q i = (p i || decide (i = k))) :
    Tally desk steps q (o.settle k ran) := by
  constructor
  · intro i
    have hlookup : Table.lookup i (o.settle k ran).outcomes =
        (Table.lookup i o.outcomes).or (if k = i then some ran.outcome else none) :=
      lookup_append_singleton k i ran.outcome o.outcomes
    rw [hlookup, h.outcome i, hq i]
    by_cases hik : k = i
    · subst hik
      simp [hnew, hout]
    · simp [hik, Ne.symm hik]
  · intro i
    have hcount : ((o.settle k ran).trace.map Prod.snd).count (.done i) =
        (o.trace.map Prod.snd).count (.done i) + if k = i then 1 else 0 := by
      have htrace : (o.settle k ran).trace = (o.emit k ran.events).trace ++ [(k, .done k)] := by
        simp [Overlap.settle, Overlap.emit]
      rw [htrace, List.map_append, List.count_append, count_emit (hd i)]
      simp [List.count_singleton]
    rw [hcount, h.done i, hq i]
    by_cases hik : k = i
    · subst hik
      simp [hnew]
    · simp [hik, Ne.symm hik]

/-- What has been noted of a step is the outcome of its turn. -/
lemma Tally.of_noted {p : Nat → Bool} {outcome : Outcome} (h : Tally desk steps p o)
    (hnoted : Table.lookup i o.outcomes = some outcome) :
    p i = true ∧ (turn desk steps i).map Ran.outcome = some outcome := by
  have houtcome := h.outcome i
  rw [hnoted] at houtcome
  split at houtcome
  · next hp => exact ⟨hp, houtcome.symm⟩
  · contradiction

lemma Tally.congr {p q : Nat → Bool} (h : Tally desk steps p o) (hq : ∀ i, q i = p i)
    (hout : o'.outcomes = o.outcomes) (htrace : o'.trace = o.trace) : Tally desk steps q o' := by
  refine ⟨fun i => ?_, fun i => ?_⟩
  · rw [hout, hq, h.outcome]
  · rw [htrace, hq, h.done]

/-! ### Marks -/

@[simp] lemma marked_nil (i : Nat) : marked i [] = [] := rfl

lemma marked_append (i : Nat) (a b : List Event) :
    marked i (a ++ b) = marked i a ++ marked i b :=
  List.map_append

lemma filter_marked (p : Nat → Bool) (i : Nat) (events : List Event) :
    (marked i events).filter (p ·.1) = if p i then marked i events else [] := by
  have hsame : ∀ x ∈ marked i events, p x.1 = p i := by
    intro x hx
    obtain ⟨e, -, rfl⟩ := List.mem_map.mp hx
    rfl
  split
  · next hp => exact List.filter_eq_self.mpr fun x hx => (hsame x hx).trans hp
  · next hp =>
    refine List.filter_eq_nil_iff.mpr fun x hx => ?_
    rwa [hsame x hx]

/-! ### Steps that are over -/

lemma ended_eq_true :
    ended desk steps k n i = true ↔ i < n ∧ (i < k ∨ takesTurn desk steps i = false) := by
  simp [ended]

lemma ended_start (ht : takesTurn desk steps n = true) (hk : k ≤ n) (i : Nat) :
    ended desk steps k (n + 1) i = ended desk steps k n i := by
  rw [Bool.eq_iff_iff, ended_eq_true, ended_eq_true]
  constructor
  · rintro ⟨hi, hor⟩
    have hin : i ≠ n := by
      rintro rfl
      rcases hor with hlt | hfree
      · omega
      · rw [ht] at hfree
        contradiction
    exact ⟨by omega, hor⟩
  · rintro ⟨hi, hor⟩
    exact ⟨by omega, hor⟩

lemma ended_aside (ht : takesTurn desk steps n = false) (i : Nat) :
    ended desk steps k (n + 1) i = (ended desk steps k n i || decide (i = n)) := by
  rw [Bool.eq_iff_iff, Bool.or_eq_true, ended_eq_true, ended_eq_true, decide_eq_true_iff]
  constructor
  · rintro ⟨hi, hor⟩
    rcases Nat.lt_succ_iff_lt_or_eq.mp hi with hin | hin
    · exact Or.inl ⟨hin, hor⟩
    · exact Or.inr hin
  · rintro (⟨hi, hor⟩ | rfl)
    · exact ⟨by omega, hor⟩
    · exact ⟨Nat.lt_succ_self _, Or.inr ht⟩

lemma ended_settle (hk : k < n) (i : Nat) :
    ended desk steps (k + 1) n i = (ended desk steps k n i || decide (i = k)) := by
  rw [Bool.eq_iff_iff, Bool.or_eq_true, ended_eq_true, ended_eq_true, decide_eq_true_iff]
  constructor
  · rintro ⟨hi, hlt | hfree⟩
    · rcases Nat.lt_succ_iff_lt_or_eq.mp hlt with hik | hik
      · exact Or.inl ⟨hi, Or.inl hik⟩
      · exact Or.inr hik
    · exact Or.inl ⟨hi, Or.inr hfree⟩
  · rintro (⟨hi, hlt | hfree⟩ | rfl)
    · exact ⟨hi, Or.inl (by omega)⟩
    · exact ⟨hi, Or.inr hfree⟩
    · exact ⟨hk, Or.inl (Nat.lt_succ_self _)⟩

/-- Steps without the lock are over, whether their turns are counted or not. -/
lemma ended_advance (hki : k ≤ i) (hnone : ∀ j, k ≤ j → j < i → takesTurn desk steps j = false)
    (j : Nat) : ended desk steps i n j = ended desk steps k n j := by
  rw [Bool.eq_iff_iff, ended_eq_true, ended_eq_true]
  constructor
  · rintro ⟨hj, hji | hfree⟩
    · rcases Nat.lt_or_ge j k with hjk | hjk
      · exact ⟨hj, Or.inl hjk⟩
      · exact ⟨hj, Or.inr (hnone j hjk hji)⟩
    · exact ⟨hj, Or.inr hfree⟩
  · rintro ⟨hj, hjk | hfree⟩
    · exact ⟨hj, Or.inl (by omega)⟩
    · exact ⟨hj, Or.inr hfree⟩

/-! ### What can happen to the books -/

namespace Ledger

lemma init (desk : Desk) (steps : List Step) : Ledger desk steps 0 0 [] (.new desk) where
  le := Nat.le_refl 0
  bound h := absurd h (Nat.lt_irrefl 0)
  found := rfl
  tally := by
    refine ⟨fun i => ?_, fun i => ?_⟩ <;> simp [ended, Overlap.new, Table.lookup]
  trace := by simp [Overlap.new, marked]

/-- The books say nothing about the holder and the queue. -/
lemma congr (h : Ledger desk steps k n shown o) (hdesk : o'.desk = o.desk)
    (hout : o'.outcomes = o.outcomes) (htrace : o'.trace = o.trace) :
    Ledger desk steps k n shown o' where
  le := h.le
  bound := h.bound
  found := hdesk.trans h.found
  tally := h.tally.congr (fun _ => rfl) hout htrace
  trace := by rw [htrace, h.trace]

lemma takesTurn_eq (h : Ledger desk steps k n shown o) (hs : steps[n]? = some s) :
    takesTurn desk steps n = Overlap.needsLock o.desk s := by
  rw [Session.takesTurn_eq hs, h.found]
  rcases Nat.lt_or_ge k n with hlt | hge
  · obtain ⟨d, hd⟩ := h.bound hlt
    obtain ⟨e, he, hsame⟩ := slot_before h.le hd
    exact needsLock_congr hd he hsame s
  · rw [Nat.le_antisymm h.le hge]

lemma register (h : Ledger desk steps k n shown o) (ht : takesTurn desk steps n = true) :
    Ledger desk steps k (n + 1) shown o where
  le := Nat.le_succ_of_le h.le
  bound hk := by
    rcases Nat.lt_or_ge k n with hlt | hge
    · exact h.bound hlt
    · rw [Nat.le_antisymm h.le hge]
      exact slot_of_takesTurn ht
  found := h.found
  tally := h.tally.congr (ended_start ht h.le) rfl rfl
  trace := h.trace

/-- Steps without the lock may be passed, as their turns change nothing. -/
lemma advance (h : Ledger desk steps k n [] o) (hi : k ≤ i) (hin : i ≤ n)
    (hno : takers desk steps k i = []) : Ledger desk steps i n [] o := by
  have hnone : ∀ j, k ≤ j → j < i → takesTurn desk steps j = false := by
    intro j hj hji
    refine Bool.eq_false_iff.mpr fun ht => ?_
    have hmem : j ∈ takers desk steps k i := mem_takers.mpr ⟨hj, hji, ht⟩
    rw [hno] at hmem
    contradiction
  rcases Nat.eq_or_lt_of_le hi with rfl | hlt
  · exact h
  obtain ⟨d, hd⟩ := h.bound (by omega)
  have hsame : before desk steps i = before desk steps k := before_eq_of_no_turn hi hd hnone
  refine ⟨hin, fun _ => ⟨d, hsame ▸ hd⟩, h.found.trans hsame.symm,
    h.tally.congr (ended_advance hi hnone) rfl rfl, ?_⟩
  rw [h.trace, takers_append (Nat.zero_le k) hi, hno, List.append_nil]
  rfl

lemma emit (h : Ledger desk steps k n shown o) (ht : takesTurn desk steps k = true)
    (hd : ∀ i, .done i ∉ events) : Ledger desk steps k n (shown ++ events) (o.emit k events) where
  le := h.le
  bound := h.bound
  found := h.found
  tally := h.tally.emit hd
  trace := by
    have htrace : (o.emit k events).trace = o.trace ++ marked k events := rfl
    rw [htrace, List.filter_append, filter_marked, if_pos ht, h.trace, marked_append,
      List.append_assoc]

lemma settle (h : Ledger desk steps k n shown o) (hk : k < n)
    (ht : takesTurn desk steps k = true)
    (hturn : turn desk steps k = some { ran with events := shown ++ ran.events }) :
    Ledger desk steps (k + 1) n [] (o.settle k ran) := by
  have hd : ∀ i, .done i ∉ ran.events := fun i hmem =>
    done_not_mem_turn hturn i (List.mem_append_right shown hmem)
  obtain ⟨s, hs, hrun⟩ := Option.map_eq_some_iff.mp hturn
  have hnext : before desk steps (k + 1) = ran.desk := by
    rw [before_succ hs, hrun]
  refine ⟨hk, fun _ => ?_, hnext.symm, h.tally.settle ?_ ?_ hd (ended_settle hk), ?_⟩
  · obtain ⟨d, hslot⟩ := h.bound hk
    obtain ⟨e, he, -⟩ := slot_before (Nat.le_succ k) hslot
    exact ⟨e, he⟩
  · simp [ended, ht]
  · rw [hturn]
    rfl
  · -- what the turn has shown and shows now is its block
    have htrace : (o.settle k ran).trace = o.trace ++ marked k (ran.events ++ [.done k]) := rfl
    have hblock : marked k (block desk steps k) =
        marked k shown ++ marked k (ran.events ++ [.done k]) := by
      rw [block, hturn, Option.map_some, Option.getD_some, List.append_assoc, marked_append]
    rw [htrace, List.filter_append, filter_marked, if_pos ht, h.trace,
      takers_append (Nat.zero_le k) (Nat.le_succ k), takers_one, if_pos ht, List.flatMap_append,
      List.flatMap_singleton, hblock, marked_nil, List.append_nil, List.append_assoc]

/-- A step without the lock runs while a turn is still to end. -/
lemma aside (h : Ledger desk steps k n shown o) (hk : k < n) (hs : steps[n]? = some s)
    (hno : Overlap.needsLock o.desk s = false) :
    Ledger desk steps k (n + 1) shown (o.settle n (o.desk.run s)) := by
  have ht : takesTurn desk steps n = false := (h.takesTurn_eq hs).trans hno
  obtain ⟨d, hd⟩ := h.bound hk
  obtain ⟨e, he, hsame⟩ := slot_before h.le hd
  have hrun : o.desk.run s = ⟨o.desk, s.aside d.settings, []⟩ :=
    run_of_not_needsLock (h.found ▸ hd) hno
  have hturn : (turn desk steps n).map Ran.outcome = some (o.desk.run s).outcome := by
    rw [Session.takesTurn_eq hs] at ht
    rw [turn_eq hs, Option.map_some, hrun, run_of_not_needsLock he ht, hsame]
  refine ⟨Nat.le_succ_of_le h.le, fun _ => ⟨d, hd⟩, ?_, h.tally.settle ?_ hturn ?_ ?_, ?_⟩
  · rw [← h.found]
    exact congrArg Ran.desk hrun
  · simp [ended]
  · exact done_not_mem_run _ s
  · exact ended_aside ht
  · have htrace : (o.settle n (o.desk.run s)).trace =
        o.trace ++ marked n ((o.desk.run s).events ++ [.done n]) := rfl
    rw [htrace, List.filter_append, filter_marked, ht, if_neg Bool.false_ne_true,
      List.append_nil, h.trace]

/-- A step without the lock runs when no turn is still to end. -/
lemma last (h : Ledger desk steps n n [] o) (hs : steps[n]? = some s)
    (hno : Overlap.needsLock o.desk s = false) :
    Ledger desk steps (n + 1) (n + 1) [] (o.settle n (o.desk.run s)) := by
  have ht : takesTurn desk steps n = false := (h.takesTurn_eq hs).trans hno
  refine ⟨Nat.le_refl _, fun hlt => absurd hlt (Nat.lt_irrefl _), ?_,
    h.tally.settle ?_ ?_ (done_not_mem_run _ s) fun i => ?_, ?_⟩
  · rw [before_succ hs, ← h.found]
    rfl
  · simp [ended]
  · rw [turn_eq hs, ← h.found]
    rfl
  · have hcounted : ended desk steps (n + 1) (n + 1) i = ended desk steps n (n + 1) i := by
      refine ended_advance (Nat.le_succ n) (fun j hj hjn => ?_) i
      rwa [Nat.le_antisymm (Nat.le_of_lt_succ hjn) hj]
    rw [hcounted, ended_aside ht]
  · have htrace : (o.settle n (o.desk.run s)).trace =
        o.trace ++ marked n ((o.desk.run s).events ++ [.done n]) := rfl
    rw [htrace, List.filter_append, filter_marked, ht, if_neg Bool.false_ne_true, h.trace,
      takers_append (Nat.zero_le n) (Nat.le_succ n), takers_one, ht, if_neg Bool.false_ne_true,
      List.append_nil, List.append_nil]
    rfl

end Ledger

end Inlay.Session
