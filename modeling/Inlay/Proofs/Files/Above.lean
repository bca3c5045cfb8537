import Mathlib.Data.List.Basic
import Mathlib.Data.List.Induction
import Mathlib.Tactic.SplitIfs
import Mathlib.Tactic.Lemma
import Inlay.FilePath

/-!
The directories above a path. Dots aside, each is the path without its last name, and it starts
where the path starts; so the names of every directory above a path begin the names of the path.
-/

namespace Inlay.FilePath

open Text

variable {ps qs : List (List Char)} {p : List Char} {path dir : String}

/-- The names that some parts stand for, without the dots, which lead nowhere. -/
def steps (ps : List (List Char)) : List String :=
  ((ps.filter fun p => !p.isEmpty).map String.ofList).filter (· ≠ ".")

lemma steps_append : steps (ps ++ qs) = steps ps ++ steps qs := by
  simp only [steps, List.filter_append, List.map_append]

lemma steps_eq_nil (h : ∀ p ∈ ps, p = [] ∨ p = ['.']) : steps ps = [] := by
  rw [steps, List.filter_eq_nil_iff]
  intro n hn
  obtain ⟨p, hp, rfl⟩ := List.mem_map.mp hn
  rw [List.mem_filter] at hp
  rcases h p hp.1 with rfl | rfl
  · simp at hp
  · simp

lemma steps_singleton (hp : p ≠ []) (hdot : p ≠ ['.']) : steps [p] = [String.ofList p] := by
  have hname : String.ofList p ≠ "." := fun h => hdot (String.ofList_injective h)
  simp [steps, hp, hname]

/-- One part is one name at most. -/
lemma dropLast_steps_singleton (p : List Char) : (steps [p]).dropLast = [] := by
  by_cases hstill : p = [] ∨ p = ['.']
  · rw [steps_eq_nil (by simpa using hstill), List.dropLast_nil]
  · rw [not_or] at hstill
    rw [steps_singleton hstill.1 hstill.2, List.dropLast_singleton]

/-! ### The parts that count -/

lemma prefixes_append_singleton (before ps : List (List Char)) (p : List Char) :
    prefixes before (ps ++ [p]) =
      if p = [] ∨ (p = ['.'] ∧ ps.reverse ++ before ≠ []) then prefixes before ps
      else (p :: (ps.reverse ++ before)) :: prefixes before ps := by
  induction ps generalizing before with
  | nil => rfl
  | cons q ps ih =>
    simp only [List.cons_append, prefixes, ih, List.reverse_cons, List.append_assoc,
      List.nil_append]
    split_ifs <;> rfl

/-- Either no part counts, or the last that counts is followed by such as do not, and then those
before it are left. -/
lemma prefixes_cases (ps : List (List Char)) :
    (prefixes [] ps = [] ∧ ∀ p ∈ ps, p = [] ∨ p = ['.']) ∨
      ∃ before p after, ps = before ++ p :: after ∧ p ≠ [] ∧ (p = ['.'] → before = []) ∧
        (∀ q ∈ after, q = [] ∨ q = ['.']) ∧
        prefixes [] ps = (p :: before.reverse) :: prefixes [] before := by
  induction ps using List.reverseRecOn with
  | nil => exact .inl ⟨rfl, by simp⟩
  | append_singleton ps p ih =>
    rw [prefixes_append_singleton, List.append_nil]
    by_cases hskip : p = [] ∨ (p = ['.'] ∧ ps.reverse ≠ [])
    · have hstill : p = [] ∨ p = ['.'] := hskip.imp_right And.left
      rw [if_pos hskip]
      rcases ih with ⟨hnil, hall⟩ | ⟨before, q, after, rfl, hq, hdot, hafter, hprefixes⟩
      · refine .inl ⟨hnil, fun r hr => ?_⟩
        rcases List.mem_append.mp hr with hr | hr
        · exact hall r hr
        · exact List.mem_singleton.mp hr ▸ hstill
      · refine .inr ⟨before, q, after ++ [p], by simp, hq, hdot, fun r hr => ?_, hprefixes⟩
        rcases List.mem_append.mp hr with hr | hr
        · exact hafter r hr
        · exact List.mem_singleton.mp hr ▸ hstill
    · rw [if_neg hskip]
      rw [not_or, not_and_not_right] at hskip
      exact .inr ⟨ps, p, [], rfl, hskip.1, fun h => List.reverse_eq_nil_iff.mp (hskip.2 h),
        by simp, rfl⟩

/-! ### Directories -/

/-- What the directory that a path is in has to do with the path. -/
structure Contains (dir path : String) : Prop where
  steps_eq : steps (parts dir) = (steps (parts path)).dropLast
  isAbsolute_eq : dir ≠ "" → isAbsolute dir = isAbsolute path
  /-- A dot at the end stands for the directory where the path starts. -/
  steps_of_dot : (names dir).getLast? = some "." → steps (parts dir) = []

lemma contains_start (h : (steps (parts path)).dropLast = []) :
    Contains (if isAbsolute path then "/" else "") path := by
  split
  · next habs => exact ⟨by rw [h]; rfl, fun _ => by rw [habs]; rfl, nofun⟩
  · exact ⟨by rw [h]; rfl, fun hne => absurd rfl hne, nofun⟩

def ofParts (ps : List (List Char)) : String := String.ofList (join '/' ps)

section Beginning

variable {before rest : List (List Char)} (hparts : parts path = (before ++ [p]) ++ rest)
include hparts

lemma parts_beginning : parts (ofParts (before ++ [p])) = before ++ [p] := by
  rw [parts, ofParts, String.toList_ofList]
  refine split_join (List.append_ne_nil_of_right_ne_nil before (List.cons_ne_nil p [])) ?_
  intro q hq
  have hmem : q ∈ parts path := by
    rw [hparts]
    exact List.mem_append_left rest hq
  exact not_mem_of_mem_split hmem

variable (hrest : rest ≠ []) (hp : p ≠ [])
include hrest hp

lemma isAbsolute_beginning : isAbsolute (ofParts (before ++ [p])) = isAbsolute path := by
  have hne : join '/' (before ++ [p]) ≠ [] := by
    intro hnil
    have hlast := congrArg List.getLast? (parts_beginning hparts)
    rw [parts, ofParts, String.toList_ofList, hnil, split_nil, List.getLast?_concat] at hlast
    exact hp (Option.some.inj hlast).symm
  have htext : path.toList = join '/' (before ++ [p]) ++ '/' :: join '/' rest := by
    rw [← join_append (List.append_ne_nil_of_right_ne_nil before (List.cons_ne_nil p [])) hrest,
      ← hparts, parts, join_split]
  rw [isAbsolute, isAbsolute, ofParts, String.toList_ofList, htext,
    List.head?_append_of_ne_nil _ hne]

variable (hdot : p = ['.'] → before = [])
include hdot

lemma above_beginning : above (ofParts (before ++ [p])) =
    (prefixes [] before).map (fun q => String.ofList (join '/' q.reverse)) ++
      [if isAbsolute path then "/" else ""] := by
  have hcounts : ¬(p = [] ∨ (p = ['.'] ∧ before.reverse ++ [] ≠ [])) := by
    rw [not_or, not_and_not_right, List.append_nil, List.reverse_eq_nil_iff]
    exact ⟨hp, hdot⟩
  rw [above, parts_beginning hparts, prefixes_append_singleton, if_neg hcounts,
    isAbsolute_beginning hparts hrest hp]

lemma contains_beginning (hsteps : (steps (parts path)).dropLast = steps (before ++ [p])) :
    Contains (ofParts (before ++ [p])) path where
  steps_eq := by rw [hsteps, parts_beginning hparts]
  isAbsolute_eq _ := isAbsolute_beginning hparts hrest hp
  steps_of_dot := by
    rw [names, parts_beginning hparts]
    intro hlast
    have hname : String.ofList p = "." := by simpa [hp] using hlast
    obtain rfl : p = ['.'] := String.ofList_injective hname
    rw [hdot rfl]
    rfl

end Beginning

/-- What is above a path is the directory that it is in and what is above that. -/
lemma above_cases (path : String) :
    (above path = [] ∧ steps (parts path) = []) ∨
      ∃ dir, above path = dir :: above dir ∧ Contains dir path := by
  rcases prefixes_cases (parts path) with
    ⟨hnil, hall⟩ | ⟨before, p, after, hparts, hp, hdot, hafter, hprefixes⟩
  · exact .inl ⟨by rw [above, hnil], steps_eq_nil hall⟩
  · right
    have hsteps : steps (parts path) = steps before ++ steps [p] := by
      have hcons : before ++ p :: after = before ++ ([p] ++ after) := rfl
      rw [hparts, hcons, steps_append, steps_append, steps_eq_nil hafter, List.append_nil]
    rcases prefixes_cases before with
      ⟨hbefore, hall⟩ | ⟨before', q, after', rfl, hq, hqdot, hafter', hbefore⟩
    · refine ⟨if isAbsolute path then "/" else "", ?_, contains_start ?_⟩
      · rw [above, hprefixes, hbefore]
        cases isAbsolute path <;> rfl
      · rw [hsteps, steps_eq_nil hall, List.nil_append, dropLast_steps_singleton]
    · have hwhole : parts path = (before' ++ [q]) ++ (after' ++ p :: after) := by simp [hparts]
      have hrest : after' ++ p :: after ≠ [] :=
        List.append_ne_nil_of_right_ne_nil after' (List.cons_ne_nil p after)
      have hpdot : p ≠ ['.'] := fun h => List.append_ne_nil_of_right_ne_nil before'
        (List.cons_ne_nil q after') (hdot h)
      refine ⟨ofParts (before' ++ [q]), ?_, contains_beginning hwhole hrest hq hqdot ?_⟩
      · rw [above_beginning hwhole hrest hq hqdot, above, hprefixes, hbefore]
        simp [ofParts]
      · have hcons : before' ++ q :: after' = before' ++ [q] ++ after' := by simp
        rw [hsteps, steps_singleton hp hpdot, List.dropLast_concat, hcons, steps_append,
          steps_eq_nil hafter', List.append_nil]

lemma above_eq_nil (h : above path = []) : steps (parts path) = [] := by
  rcases above_cases path with ⟨-, hsteps⟩ | ⟨dir, habove, -⟩
  · exact hsteps
  · rw [habove] at h
    contradiction

lemma above_eq_cons {dirs : List String} (h : above path = dir :: dirs) :
    above dir = dirs ∧ Contains dir path := by
  rcases above_cases path with ⟨hnil, -⟩ | ⟨dir', habove, hcontains⟩
  · rw [hnil] at h
    contradiction
  · obtain ⟨rfl, hdirs⟩ := List.cons_eq_cons.mp (habove.symm.trans h)
    exact ⟨hdirs, hcontains⟩

/-- Every directory above a path is on the way. -/
lemma mem_above (h : dir ∈ above path) :
    steps (parts dir) <+: (steps (parts path)).dropLast ∧
      (dir ≠ "" → isAbsolute dir = isAbsolute path) := by
  induction habove : above path generalizing path with
  | nil =>
    rw [habove] at h
    contradiction
  | cons d ds ih =>
    obtain ⟨rfl, hcontains⟩ := above_eq_cons habove
    rw [habove] at h
    rcases List.mem_cons.mp h with rfl | h
    · exact ⟨hcontains.steps_eq ▸ List.prefix_refl _, hcontains.isAbsolute_eq⟩
    · obtain ⟨hsteps, habs⟩ := ih h rfl
      have hne : d ≠ "" := by
        rintro rfl
        have hnone : above "" = [] := rfl
        rw [hnone] at h
        contradiction
      refine ⟨hsteps.trans ?_, fun hdir => (habs hdir).trans (hcontains.isAbsolute_eq hne)⟩
      rw [hcontains.steps_eq]
      exact List.dropLast_prefix _

/-! ### Names and steps -/

/-- Without a dot at the end the last name is a step. -/
lemma filter_dropLast (h : (names path).getLast? = some "." → steps (parts path) = []) :
    (names path).dropLast.filter (· ≠ ".") = (steps (parts path)).dropLast := by
  have hsteps : steps (parts path) = (names path).filter (· ≠ ".") := rfl
  rw [hsteps] at h ⊢
  rcases List.eq_nil_or_concat' (names path) with hnil | ⟨front, n, hfront⟩
  · rw [hnil]
    rfl
  · rw [hfront] at h ⊢
    rw [List.dropLast_concat, List.filter_append]
    by_cases hn : n = "."
    · subst hn
      have hall := h List.getLast?_concat
      rw [List.filter_append, List.append_eq_nil_iff] at hall
      rw [hall.1, hall.2]
      rfl
    · have hlast : [n].filter (· ≠ ".") = [n] := by simp [hn]
      rw [hlast, List.dropLast_concat]

lemma steps_ne_nil {n : String} (hn : (names path).getLast? = some n) (hdot : n ≠ ".") :
    steps (parts path) ≠ [] :=
  List.ne_nil_of_mem (List.mem_filter.mpr ⟨List.mem_of_getLast? hn, by simpa using hdot⟩)

/-- The steps to a directory on the way, seen from the names of the path. -/
lemma exists_names_append (h : steps (parts dir) <+: (steps (parts path)).dropLast)
    (hne : steps (parts dir) ≠ []) :
    ∃ a b, names path = a ++ b ∧ b ≠ [] ∧ a.filter (· ≠ ".") = steps (parts dir) := by
  obtain ⟨c, hc⟩ := h
  have hpath : steps (parts path) ≠ [] := by
    intro hnil
    rw [hnil, List.dropLast_nil, List.append_eq_nil_iff] at hc
    exact hne hc.1
  have hall : (names path).filter (· ≠ ".") =
      steps (parts dir) ++ (c ++ [(steps (parts path)).getLast hpath]) := by
    rw [← List.append_assoc, hc, List.dropLast_append_getLast]
    rfl
  obtain ⟨a, b, hnames, ha, hb⟩ := List.filter_eq_append_iff.mp hall
  refine ⟨a, b, hnames, ?_, ha⟩
  rintro rfl
  simp at hb

end Inlay.FilePath
