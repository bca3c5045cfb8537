import Mathlib.Tactic.Lemma
import Inlay.Session.Pass

/-!
The queries of a pass, however often it waits. In the end they come to what asking without any
wait comes to, and what is seen of them are exchanges: a query with the records of its reply.
-/

namespace Inlay.Session

/-- What queries come to in the end: the number of the last one, the hints and the events. -/
def completed (q : Inquiry) : Progress × List Event → Nat × List Hint × List Event
  | (.finished used hints, events) => (used, hints, events)
  | (.waiting w, events) =>
    ((w.finish q).1, (w.finish q).2.1, events ++ (w.finish q).2.2)

/-- What asking about positions in turn comes to, without any wait. -/
def asked (q : Inquiry) (used : Nat) (hints : List Hint) (ps : List Position) :
    Nat × List Hint × List Event :=
  (used + ps.length, hints ++ (q.fetchAll used ps).1, (q.fetchAll used ps).2)

lemma finish_eq_completed (q : Inquiry) (w : Waiting) : w.finish q = completed q (w.resume q) := by
  rw [Waiting.finish]
  split
  · next hr => rw [hr]; rfl
  · next hr => rw [hr]; rfl

lemma completed_append (q : Inquiry) (a : List Event) (r : Progress × List Event) :
    completed q (r.1, a ++ r.2) =
      ((completed q r).1, (completed q r).2.1, a ++ (completed q r).2.2) := by
  obtain ⟨p, b⟩ := r
  cases p with
  | finished used hints => rfl
  | waiting w => simp [completed]

/-- What the query under way and those after it come to. -/
def rest (q : Inquiry) (w : Waiting) : Nat × List Hint × List Event :=
  (w.call + w.todo.length,
    w.hints ++ (q.hint? w.call w.position).toList ++ (q.fetchAll w.call w.todo).1,
    q.received w.call w.position ++ (q.fetchAll w.call w.todo).2)

lemma finish_of_last_round {q : Inquiry} {w : Waiting} (hlast : ¬1 < w.rounds)
    (h : ∀ used hints, completed q (ask q used hints w.todo) = asked q used hints w.todo) :
    w.finish q = rest q w := by
  have hresume : w.resume q =
      ((ask q w.call (w.hints ++ (q.hint? w.call w.position).toList) w.todo).1,
        q.received w.call w.position ++
          (ask q w.call (w.hints ++ (q.hint? w.call w.position).toList) w.todo).2) := by
    rw [Waiting.resume, if_neg hlast]
  rw [finish_eq_completed, hresume, completed_append, h]
  rfl

/-- The rounds before the last one change nothing. -/
lemma finish_of_completed_ask {q : Inquiry} {w : Waiting}
    (h : ∀ used hints, completed q (ask q used hints w.todo) = asked q used hints w.todo) :
    w.finish q = rest q w := by
  induction hn : w.rounds generalizing w with
  | zero => exact finish_of_last_round (by omega) h
  | succ n ih =>
    by_cases hone : 1 < w.rounds
    · have hresume : w.resume q = (.waiting { w with rounds := w.rounds - 1 }, []) := by
        rw [Waiting.resume, if_pos hone]
      have hrounds : w.rounds - 1 = n := by omega
      rw [finish_eq_completed, hresume]
      exact ih (w := { w with rounds := w.rounds - 1 }) h hrounds
    · exact finish_of_last_round hone h

/-- **Waiting changes nothing** about what the queries come to. -/
theorem completed_ask (q : Inquiry) (used : Nat) (hints : List Hint) (ps : List Position) :
    completed q (ask q used hints ps) = asked q used hints ps := by
  induction ps generalizing used hints with
  | nil => simp [ask, completed, asked]
  | cons p ps ih =>
    have hlength : used + 1 + ps.length = used + (p :: ps).length := by
      rw [List.length_cons]
      omega
    by_cases hrounds : q.service.rounds = 0
    · have hask : ask q used hints (p :: ps) =
          ((ask q (used + 1) (hints ++ (q.hint? (used + 1) p).toList) ps).1,
            (q.asked (used + 1) p :: q.received (used + 1) p) ++
              (ask q (used + 1) (hints ++ (q.hint? (used + 1) p).toList) ps).2) := by
        rw [ask, if_pos hrounds]
      rw [hask, completed_append, ih]
      simp [asked, Inquiry.fetchAll_cons, hlength]
    · have hask : ask q used hints (p :: ps) =
          (.waiting ⟨used + 1, p, q.service.rounds, hints, ps⟩, [q.asked (used + 1) p]) := by
        rw [ask, if_neg hrounds]
      have hfinish := finish_of_completed_ask (w := ⟨used + 1, p, q.service.rounds, hints, ps⟩) ih
      rw [hask, completed, hfinish]
      simp [rest, asked, Inquiry.fetchAll_cons, hlength]

/-! ### Exchanges -/

/-- Queries show one exchange for each position, numbered in turn. -/
lemma fetchAll_events (q : Inquiry) (used : Nat) (ps : List Position) :
    (q.fetchAll used ps).2 = (ps.zipIdx (used + 1)).flatMap fun x => (q.fetch x.2 x.1).2 := by
  induction ps generalizing used with
  | nil => rfl
  | cons p ps ih =>
    rw [Inquiry.fetchAll_cons, ih, List.zipIdx_cons, List.flatMap_cons]
    rfl

/-- Queries give the hints of the positions whose replies have a text, in their order. -/
lemma fetchAll_hints (q : Inquiry) (used : Nat) (ps : List Position) :
    (q.fetchAll used ps).1 = (ps.zipIdx (used + 1)).filterMap fun x => q.hint? x.2 x.1 := by
  induction ps generalizing used with
  | nil => rfl
  | cons p ps ih =>
    rw [Inquiry.fetchAll_cons, ih, List.zipIdx_cons, List.filterMap_cons]
    cases q.hint? (used + 1) p <;> rfl

/-- What holds of every query and of every record of a reply holds of all that asking shows. -/
lemma forall_mem_ask {q : Inquiry} {P : Event → Prop} (hasked : ∀ call p, P (q.asked call p))
    (hreceived : ∀ call p, ∀ e ∈ q.received call p, P e) (used : Nat) (hints : List Hint)
    (ps : List Position) : ∀ e ∈ (ask q used hints ps).2, P e := by
  induction ps generalizing used hints with
  | nil => exact fun e he => nomatch he
  | cons p ps ih =>
    intro e he
    unfold ask at he
    split at he
    · rcases List.mem_append.mp he with he | he
      · rcases List.mem_cons.mp he with rfl | he
        · exact hasked _ _
        · exact hreceived _ _ e he
      · exact ih _ _ e he
    · cases List.mem_singleton.mp he
      exact hasked _ _

lemma forall_mem_resume {q : Inquiry} {P : Event → Prop} (hasked : ∀ call p, P (q.asked call p))
    (hreceived : ∀ call p, ∀ e ∈ q.received call p, P e) (w : Waiting) :
    ∀ e ∈ (w.resume q).2, P e := by
  intro e he
  unfold Waiting.resume at he
  split at he
  · contradiction
  · rcases List.mem_append.mp he with he | he
    · exact hreceived _ _ e he
    · exact forall_mem_ask hasked hreceived _ _ _ e he

lemma forall_mem_fetchAll {q : Inquiry} {P : Event → Prop} (hasked : ∀ call p, P (q.asked call p))
    (hreceived : ∀ call p, ∀ e ∈ q.received call p, P e) (used : Nat) (ps : List Position) :
    ∀ e ∈ (q.fetchAll used ps).2, P e := by
  intro e he
  rw [fetchAll_events] at he
  obtain ⟨⟨p, call⟩, -, he⟩ := List.mem_flatMap.mp he
  rcases List.mem_cons.mp he with rfl | he
  · exact hasked call p
  · exact hreceived call p e he

/-- The records of a reply are about the hint that was asked for. -/
lemma position?_of_mem_received {q : Inquiry} {call : Nat} {p : Position} {e : Event}
    (h : e ∈ q.received call p) : ∃ n : Notice, e = .log n ∧ n.position? = some p := by
  obtain ⟨n, hn, rfl⟩ : ∃ n, Inquiry.notice? p (q.reply call p) = some n ∧ Event.log n = e := by
    simpa [Inquiry.received] using h
  refine ⟨n, rfl, ?_⟩
  unfold Inquiry.notice? at hn
  split at hn
  · split at hn
    · contradiction
    · cases hn; rfl
  · cases hn; rfl
  · cases hn; rfl

lemma debug_of_mem_received {q : Inquiry} {call : Nat} {p : Position} {e : Event}
    (h : e ∈ q.received call p) : ∃ n : Notice, e = .log n ∧ n.level = .debug := by
  obtain ⟨n, rfl, hn⟩ := position?_of_mem_received h
  refine ⟨n, rfl, ?_⟩
  cases n <;> first | rfl | cases hn

/-- Queries show nothing but themselves and what is recorded of their replies. -/
lemma hover_or_debug_of_mem_fetchAll {q : Inquiry} {used : Nat} {ps : List Position} {e : Event}
    (h : e ∈ (q.fetchAll used ps).2) :
    (∃ call p, e = q.asked call p) ∨ ∃ n : Notice, e = .log n ∧ n.level = .debug := by
  refine forall_mem_fetchAll (P := fun e => (∃ call p, e = q.asked call p) ∨
    ∃ n : Notice, e = .log n ∧ n.level = .debug) (fun call p => ?_) (fun call p e he => ?_)
    used ps e h
  · exact Or.inl ⟨call, p, rfl⟩
  · exact Or.inr (debug_of_mem_received he)

lemma done_not_mem_fetchAll (q : Inquiry) (used : Nat) (ps : List Position) (i : Nat) :
    Event.done i ∉ (q.fetchAll used ps).2 := by
  intro h
  rcases hover_or_debug_of_mem_fetchAll h with ⟨call, p, he⟩ | ⟨n, he, -⟩
  · cases he
  · cases he

end Inlay.Session
