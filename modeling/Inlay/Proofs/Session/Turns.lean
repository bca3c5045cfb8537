import Mathlib.Data.Nat.Init
import Inlay.Proofs.Session.Queries
import Inlay.Session.Run

/-!
Steps in turn. When steps run one after the other, each finds the desk as the steps before it
leave it. That desk says what the step comes to, and whether it takes the lock. Once there is a
decorator, a step that takes no lock changes nothing and sees nothing that could change.
-/

namespace Inlay.Session

/-- The desk that the first `n` steps leave, run one after the other. -/
def before (desk : Desk) (steps : List Step) (n : Nat) : Desk :=
  (desk.runAll ((steps.take n).map .single)).1

/-- What step `i` comes to in its turn. -/
def turn (desk : Desk) (steps : List Step) (i : Nat) : Option Ran :=
  steps[i]?.map (before desk steps i).run

/-- Does step `i` take the lock in its turn? -/
def takesTurn (desk : Desk) (steps : List Step) (i : Nat) : Bool :=
  steps[i]?.any (Overlap.needsLock (before desk steps i))

/-- The steps from `k` on and before `n` that take the lock. -/
def takers (desk : Desk) (steps : List Step) (k n : Nat) : List Nat :=
  (List.range' k (n - k)).filter (takesTurn desk steps)

variable {desk : Desk} {steps : List Step}

/-! ### One step after the other -/

lemma runAll_take_succ {n : Nat} {s : Step} (hs : steps[n]? = some s) :
    desk.runAll ((steps.take (n + 1)).map .single) =
      (((before desk steps n).run s).desk,
        (desk.runAll ((steps.take n).map .single)).2 ++
          [(.single ((before desk steps n).run s).outcome,
            ((before desk steps n).run s).events)]) := by
  rw [List.take_add_one, hs, Option.toList_some, List.map_append, runAll_append]
  rfl

lemma before_succ {n : Nat} {s : Step} (hs : steps[n]? = some s) :
    before desk steps (n + 1) = ((before desk steps n).run s).desk := by
  rw [before, runAll_take_succ hs]

lemma before_succ_of_none {n : Nat} (hs : steps[n]? = none) :
    before desk steps (n + 1) = before desk steps n := by
  rw [before, List.take_add_one, hs, Option.toList_none, List.append_nil, before]

lemma before_length :
    before desk steps steps.length = (desk.runAll (steps.map .single)).1 := by
  rw [before, List.take_length]

/-- One after the other, the steps give the outcomes of their turns. -/
lemma outcomes_runAll :
    (desk.runAll (steps.map .single)).2.map Prod.fst =
      ((List.range steps.length).filterMap fun i => (turn desk steps i).map Ran.outcome).map
        Answer.single := by
  suffices h : ∀ n ≤ steps.length,
      (desk.runAll ((steps.take n).map .single)).2.map Prod.fst =
        ((List.range n).filterMap fun i => (turn desk steps i).map Ran.outcome).map
          Answer.single by
    have hall := h steps.length (Nat.le_refl _)
    rwa [List.take_length] at hall
  intro n hn
  induction n with
  | zero => rfl
  | succ n ih =>
    have hs : steps[n]? = some steps[n] := List.getElem?_eq_getElem hn
    rw [runAll_take_succ hs, List.map_append, ih (by omega), List.range_succ,
      List.filterMap_append, List.map_append]
    simp [turn, hs]

lemma turn_eq {i : Nat} {s : Step} (hs : steps[i]? = some s) :
    turn desk steps i = some ((before desk steps i).run s) := by
  rw [turn, hs, Option.map_some]

lemma takesTurn_eq {i : Nat} {s : Step} (hs : steps[i]? = some s) :
    takesTurn desk steps i = Overlap.needsLock (before desk steps i) s := by
  rw [takesTurn, hs, Option.any_some]

/-! ### The decorator stays -/

/-- Once there is a decorator, there is one after every step, with the same settings. -/
lemma slot_run {d : Decorator} (hslot : desk.slot = some d) (s : Step) :
    ∃ e, (desk.run s).desk.slot = some e ∧ e.settings = d.settings := by
  unfold Desk.run
  rw [hslot]
  cases s with
  | bind service | replaceService service => exact ⟨_, rfl, rfl⟩
  | get | service | decorationType | current => exact ⟨d, hslot, rfl⟩
  | decorate doc failure =>
    simp only
    split
    · cases failure with
      | none => exact ⟨_, rfl, rfl⟩
      | some e => exact ⟨d, hslot, rfl⟩
    · exact ⟨d, hslot, rfl⟩

lemma slot_before {k n : Nat} {d : Decorator} (hk : k ≤ n)
    (hslot : (before desk steps k).slot = some d) :
    ∃ e, (before desk steps n).slot = some e ∧ e.settings = d.settings := by
  induction n, hk using Nat.le_induction with
  | base => exact ⟨d, hslot, rfl⟩
  | succ n hk ih =>
    obtain ⟨e, he, hsettings⟩ := ih
    cases hs : steps[n]? with
    | none => exact ⟨e, by rw [before_succ_of_none hs, he], hsettings⟩
    | some s =>
      obtain ⟨f, hf, hsame⟩ := slot_run he s
      exact ⟨f, by rw [before_succ hs, hf], hsame.trans hsettings⟩

lemma slot_of_takesTurn {i : Nat} (h : takesTurn desk steps i = true) :
    ∃ d, (before desk steps i).slot = some d := by
  rw [takesTurn, Option.any_eq_true] at h
  obtain ⟨s, -, hneeds⟩ := h
  unfold Overlap.needsLock at hneeds
  split at hneeds
  · contradiction
  · next d hslot => exact ⟨d, hslot⟩

/-- Whether a step needs the lock depends on the settings only. -/
lemma needsLock_congr {a b : Desk} {d e : Decorator} (ha : a.slot = some d)
    (hb : b.slot = some e) (h : e.settings = d.settings) (s : Step) :
    Overlap.needsLock b s = Overlap.needsLock a s := by
  unfold Overlap.needsLock
  rw [ha, hb]
  cases s <;> simp [Decorator.accepts, h]

/-- A step with a document in the right language is a pass. -/
lemma run_decorate {d : Decorator} {doc : Document} (hslot : desk.slot = some d)
    (haccepts : d.accepts doc = true) (failure : Option SurfaceError) :
    desk.run (.decorate doc failure) = desk.pass d doc failure := by
  unfold Desk.run
  rw [hslot]
  exact if_pos haccepts

/-! ### Steps without the lock -/

/-- What a step that takes no lock answers, once there is a decorator. -/
def Step.aside (settings : Config.Settings) : Step → Outcome
  | .get => .held true
  | .decorationType => .decorationType (.ofSettings settings)
  | _ => .skipped

lemma run_of_not_needsLock {d : Decorator} {s : Step} (hslot : desk.slot = some d)
    (h : Overlap.needsLock desk s = false) : desk.run s = ⟨desk, s.aside d.settings, []⟩ := by
  unfold Overlap.needsLock at h
  unfold Desk.run
  rw [hslot] at h ⊢
  cases s with
  | bind | replaceService | service | current => contradiction
  | get | decorationType => rfl
  | decorate doc failure =>
    have hno : d.accepts doc = false := h
    simp only [hno]
    rfl

/-- As long as no step takes the lock, the desk stays as it is. -/
lemma before_eq_of_no_turn {k n : Nat} {d : Decorator} (hk : k ≤ n)
    (hslot : (before desk steps k).slot = some d)
    (h : ∀ i, k ≤ i → i < n → takesTurn desk steps i = false) :
    before desk steps n = before desk steps k := by
  induction n, hk using Nat.le_induction with
  | base => rfl
  | succ n hk ih =>
    have hsame := ih fun i hi hin => h i hi (by omega)
    cases hs : steps[n]? with
    | none => rw [before_succ_of_none hs, hsame]
    | some s =>
      have hno : Overlap.needsLock (before desk steps k) s = false := by
        rw [← hsame, ← takesTurn_eq hs]
        exact h n hk (by omega)
      rw [before_succ hs, hsame, run_of_not_needsLock hslot hno]

/-! ### The turns -/

@[simp] lemma takers_self (n : Nat) : takers desk steps n n = [] := by
  simp [takers]

lemma mem_takers {k n i : Nat} :
    i ∈ takers desk steps k n ↔ k ≤ i ∧ i < n ∧ takesTurn desk steps i = true := by
  rw [takers, List.mem_filter, List.mem_range'_1, and_assoc]
  constructor
  · rintro ⟨hk, hn, ht⟩
    exact ⟨hk, by omega, ht⟩
  · rintro ⟨hk, hn, ht⟩
    exact ⟨hk, by omega, ht⟩

lemma takers_append {k m n : Nat} (hk : k ≤ m) (hm : m ≤ n) :
    takers desk steps k n = takers desk steps k m ++ takers desk steps m n := by
  have hsplit : List.range' k (n - k) = List.range' k (m - k) ++ List.range' m (n - m) := by
    have hlength : n - k = (m - k) + (n - m) := by omega
    have hstart : m = k + 1 * (m - k) := by omega
    rw [hlength, ← List.range'_append, ← hstart]
  rw [takers, hsplit, List.filter_append]
  rfl

lemma takers_one (n : Nat) :
    takers desk steps n (n + 1) = if takesTurn desk steps n then [n] else [] := by
  have hrange : List.range' n (n + 1 - n) = [n] := by
    rw [Nat.add_sub_cancel_left]
    rfl
  rw [takers, hrange, List.filter_cons, List.filter_nil]

/-- The next step that takes the lock stands before all others. -/
lemma takers_cons {k n i : Nat} {l : List Nat} (h : takers desk steps k n = i :: l) :
    (k ≤ i ∧ i < n ∧ takesTurn desk steps i = true) ∧ takers desk steps k i = [] ∧
      l = takers desk steps (i + 1) n := by
  have hi : k ≤ i ∧ i < n ∧ takesTurn desk steps i = true := by
    rw [← mem_takers, h]
    exact List.mem_cons_self
  have hsplit : takers desk steps k n =
      takers desk steps k i ++ i :: takers desk steps (i + 1) n := by
    rw [takers_append hi.1 (Nat.le_of_lt hi.2.1), takers_append (Nat.le_succ i) hi.2.1,
      takers_one, if_pos hi.2.2]
    rfl
  refine ⟨hi, ?_⟩
  rw [h] at hsplit
  cases hbefore : takers desk steps k i with
  | nil =>
    rw [hbefore] at hsplit
    exact ⟨rfl, (List.cons.inj hsplit).2⟩
  | cons j m =>
    -- the first of the steps before `i` would be `i` itself
    have hj : j ∈ takers desk steps k i := hbefore ▸ List.mem_cons_self
    rw [hbefore] at hsplit
    have hij : i = j := (List.cons.inj hsplit).1
    have hlt := (mem_takers.mp hj).2.1
    omega

end Inlay.Session
