import Inlay.Proofs.Scan.Rounds

/-!
The scan of a line without cutting it. All occurrences are looked for in the whole code, at or
after the byte that the scan has come to, with the character that really stands before them; the
scan of the library, which resolves what is left and forgets the rest, finds the same sites.

What makes the two agree is that a cut is always made just past a name: the character after the
cut is no word character, so nothing that needs a word to start there can start there.
-/

namespace Inlay.Scan

open Inlay.Unicode Inlay.Text

/-- A place of a text: its byte offset, the character before it and what follows it. -/
structure Place where
  offset : Nat
  before : Option Char
  rest : List Char

/-- The places of a text that starts at byte `offset`, after the character `before`. -/
def places (before : Option Char) (offset : Nat) : List Char → List Place
  | [] => [⟨offset, before, []⟩]
  | c :: cs => ⟨offset, before, c :: cs⟩ :: places (some c) (offset + c.utf8Size) cs

/-- The anchors of the first occurrence of a shape at or after byte `k`, as offsets into the whole
code. -/
def Shape.anchorsFrom? (s : Shape) (code : List Char) (k : Nat) : Option (List Nat) :=
  ((places none 0 code).filter fun p => decide (k ≤ p.offset)).findSome? fun p =>
    (s.anchorsAt? p.before p.rest).map fun as => as.map (p.offset + ·)

/-- The first shape in order of trial that occurs at or after byte `k`. -/
def resolveFrom? (code : List Char) (k : Nat) : Option Resolution :=
  Shape.all.findSome? fun s => (s.anchorsFrom? code k).map (⟨s, ·⟩)

lemma exists_of_mem_places {b : Option Char} {o : Nat} {cs : List Char} {x : Place}
    (h : x ∈ places b o cs) : ∃ p, cs = p ++ x.rest ∧ x.offset = o + utf8Len p := by
  induction cs generalizing b o with
  | nil =>
    cases List.mem_singleton.mp h
    exact ⟨[], rfl, rfl⟩
  | cons c cs ih =>
    rcases List.mem_cons.mp h with rfl | h
    · exact ⟨[], rfl, rfl⟩
    · obtain ⟨p, hp, ho⟩ := ih h
      exact ⟨c :: p, by rw [hp]; rfl, by rw [ho, utf8Len_cons]; omega⟩

lemma bounds_of_resolveFrom? {code : List Char} {k : Nat} {r : Resolution}
    (h : resolveFrom? code k = some r) :
    r.anchors ≠ [] ∧ ∀ a ∈ r.anchors, k < a ∧ a ≤ utf8Len code := by
  obtain ⟨s, -, hs⟩ := List.exists_of_findSome?_eq_some h
  obtain ⟨as, has, rfl⟩ := Option.map_eq_some_iff.mp hs
  obtain ⟨x, hx, hxs⟩ := List.exists_of_findSome?_eq_some has
  obtain ⟨bs, hbs, rfl⟩ := Option.map_eq_some_iff.mp hxs
  obtain ⟨hmem, hk⟩ := List.mem_filter.mp hx
  obtain ⟨p, rfl, hoff⟩ := exists_of_mem_places hmem
  have hanchors := anchorsOf_of_anchorsAt? hbs
  refine ⟨by simpa using hanchors.ne_nil, fun a ha => ?_⟩
  obtain ⟨b, hb, rfl⟩ := List.mem_map.mp ha
  obtain ⟨q, t, hq, rfl, hend⟩ := hanchors.nameEnd b hb
  have hpos := hend.utf8Len_pos
  have hle : k ≤ x.offset := of_decide_eq_true hk
  rw [utf8Len_append, hq, utf8Len_append]
  omega

/-- The sites of the code from byte `k` on. -/
def sitesFrom (number : Nat) (code : List Char) (k : Nat) : List Site :=
  match _h : resolveFrom? code k with
  | none => []
  | some r =>
    (r.anchors.map fun a => ⟨⟨number, utf16Len (takeBytes a code)⟩, r.shape⟩) ++
      sitesFrom number code (r.anchors.getLastD k)
termination_by utf8Len code - k
decreasing_by
  obtain ⟨hne, hbounds⟩ := bounds_of_resolveFrom? _h
  obtain ⟨last, hlast⟩ := List.getLast?_isSome.mpr hne |> Option.isSome_iff_exists.mp
  have := hbounds last (List.mem_of_getLast? hlast)
  rw [List.getLastD_eq_getLast?, hlast, Option.getD_some]
  omega

/-- The sites of a line, looked for in the whole of its code. -/
def wholeSites (number : Nat) (line : List Char) : List Site :=
  let code := stripComment line
  if isImplHeader code then [] else sitesFrom number code 0

lemma sitesFrom_none {number k : Nat} {code : List Char} (h : resolveFrom? code k = none) :
    sitesFrom number code k = [] := by
  rw [sitesFrom]
  split
  · rfl
  · next hr => rw [h] at hr; contradiction

lemma sitesFrom_some {number k : Nat} {code : List Char} {r : Resolution}
    (h : resolveFrom? code k = some r) :
    sitesFrom number code k =
      (r.anchors.map fun a => ⟨⟨number, utf16Len (takeBytes a code)⟩, r.shape⟩) ++
        sitesFrom number code (r.anchors.getLastD k) := by
  rw [sitesFrom]
  split
  · next hr => rw [h] at hr; contradiction
  · next hr => rw [h] at hr; cases hr; rfl

/-! ### Cuts -/

/-- No word goes on from the one text into the other. -/
def CleanCut (before after : List Char) : Prop :=
  insideWord before.getLast? = true → ∀ c, after.head? = some c → isWord c = false

lemma cleanCut_nil (after : List Char) : CleanCut [] after := by
  intro h
  cases h

lemma NameEnd.cleanCut {before after : List Char} (h : NameEnd before after) :
    CleanCut before after :=
  fun _ => h.stop

/-- No binding keyword starts at a cut that the text before it goes up to. -/
lemma CleanCut.afterKeyword?_eq_none {before after : List Char} (h : CleanCut before after)
    (hb : insideWord before.getLast? = true) : afterKeyword? after = none := by
  by_contra hne
  obtain ⟨c, hc, hw⟩ := isWord_of_afterKeyword? hne
  rw [h hb c hc] at hw
  contradiction

/-- At a clean cut it makes no difference to forget what is before. -/
lemma CleanCut.anchorsAt? {before after : List Char} (h : CleanCut before after) (s : Shape) :
    s.anchorsAt? before.getLast? after = s.anchorsAt? none after := by
  cases s with
  | declaration =>
    have hdecl : declarationAt before.getLast? after = declarationAt none after := by
      by_cases hb : insideWord before.getLast? = true
      · unfold declarationAt
        rw [h.afterKeyword?_eq_none hb, if_pos hb]
        rfl
      · unfold declarationAt
        rw [if_neg hb]
        rfl
    exact congrArg (Option.map fun n => [n]) hdecl
  | closure => rfl
  | tuple => rfl
  | matchArm => rfl

lemma le_offset_of_mem_places {b : Option Char} {o : Nat} {cs : List Char} {x : Place}
    (h : x ∈ places b o cs) : o ≤ x.offset := by
  obtain ⟨p, -, ho⟩ := exists_of_mem_places h
  omega

lemma filter_places (b : Option Char) (o : Nat) (p q : List Char) :
    ((places b o (p ++ q)).filter fun x => decide (o + utf8Len p ≤ x.offset)) =
      places (p.getLast?.or b) (o + utf8Len p) q := by
  induction p generalizing b o with
  | nil =>
    refine List.filter_eq_self.mpr fun x hx => ?_
    exact decide_eq_true (le_offset_of_mem_places hx)
  | cons c p ih =>
    have hpos := c.utf8Size_pos
    have hlen : o + utf8Len (c :: p) = o + c.utf8Size + utf8Len p := by
      rw [utf8Len_cons]
      omega
    rw [hlen, getLast?_cons_or, ← ih, List.cons_append, places, List.filter_cons_of_neg]
    simp only [decide_eq_true_eq]
    omega

lemma findSome?_places {α β : Type} (read : Option Char → List Char → Option α) (f : Nat → α → β)
    (b : Option Char) (o : Nat) (cs : List Char) :
    ((places b o cs).findSome? fun p => (read p.before p.rest).map (f p.offset)) =
      (leftmost read b o cs).map fun x => f x.1 x.2 := by
  induction cs generalizing b o with
  | nil =>
    rw [leftmost_nil]
    cases h : read b [] <;> simp [places, h]
  | cons c cs ih =>
    rw [leftmost_cons, places, List.findSome?_cons]
    cases read b (c :: cs) with
    | some a => rfl
    | none => exact ih _ _

lemma CleanCut.anchorsFrom? {before after : List Char} (h : CleanCut before after) (s : Shape) :
    s.anchorsFrom? (before ++ after) (utf8Len before) =
      (s.anchors? after).map fun as => as.map (utf8Len before + ·) := by
  have hplaces : ((places none 0 (before ++ after)).filter
        fun x => decide (utf8Len before ≤ x.offset)) =
      places before.getLast? (utf8Len before) after := by
    have := filter_places none 0 before after
    simpa only [Nat.zero_add, Option.or_none] using this
  calc s.anchorsFrom? (before ++ after) (utf8Len before)
      = (leftmost s.anchorsAt? before.getLast? (0 + utf8Len before) after).map
          fun x => x.2.map (x.1 + ·) := by
        rw [Shape.anchorsFrom?, hplaces, Nat.zero_add]
        exact findSome?_places s.anchorsAt? (fun o as => as.map (o + ·)) _ _ _
    _ = (leftmost s.anchorsAt? none 0 after).map
          fun x => x.2.map (x.1 + utf8Len before + ·) := by
        rw [leftmost_before _ (h.anchorsAt? s), leftmost_add, Option.map_map]
        rfl
    _ = (s.anchors? after).map fun as => as.map (utf8Len before + ·) := by
        rw [anchors?_eq, Option.map_map]
        congr 1
        funext x
        simp only [Function.comp_apply, List.map_map]
        congr 1
        funext a
        simp only [Function.comp_apply]
        omega

lemma CleanCut.resolveFrom? {before after : List Char} (h : CleanCut before after) :
    resolveFrom? (before ++ after) (utf8Len before) =
      (resolve? after).map fun r => ⟨r.shape, r.anchors.map (utf8Len before + ·)⟩ := by
  rw [resolve?_eq]
  exact findSome?_shape_map h.anchorsFrom? Shape.all

/-! ### The two scans -/

/-- From a clean cut on, the two scans find the same sites. -/
theorem codeSites_eq_sitesFrom (number : Nat) {before after : List Char}
    (h : CleanCut before after) :
    codeSites number (utf16Len before) after =
      sitesFrom number (before ++ after) (utf8Len before) := by
  induction after using rounds_induction generalizing before with
  | stop cs hnone =>
    have hfrom := h.resolveFrom?
    rw [hnone, Option.map_none] at hfrom
    rw [codeSites_none hnone, sitesFrom_none hfrom]
  | round p q r hround ih =>
    have hfrom := h.resolveFrom?
    rw [hround.found, Option.map_some] at hfrom
    have hlast : (r.anchors.map (utf8Len before + ·)).getLastD (utf8Len before) =
        utf8Len (before ++ p) := by
      rw [List.getLastD_eq_getLast?, List.getLast?_map, hround.last]
      simp
    have hcolumn : utf16Len before + utf16Len p = utf16Len (before ++ p) := by simp
    rw [hround.codeSites_eq, sitesFrom_some hfrom, hlast, hcolumn,
      ih (hround.nameEnd.append_left before).cleanCut, List.append_assoc, List.map_map]
    congr 1
    refine List.map_congr_left fun a ha => ?_
    have htake : takeBytes (utf8Len before + a) (before ++ (p ++ q)) =
        before ++ takeBytes a (p ++ q) := takeBytes_add_append before a (p ++ q)
    simp only [Function.comp_apply, htake, utf16Len_append]

/-- A cursor stands at a clean cut of the code, and its column is what has been read. -/
lemma Cursor.Reached.cut {code : List Char} {c : Cursor} (h : c.Reached code) :
    ∃ before, code = before ++ c.rest ∧ c.column = utf16Len before ∧ CleanCut before c.rest := by
  induction h with
  | start => exact ⟨[], rfl, rfl, cleanCut_nil code⟩
  | @next c d _ hnext ih =>
    obtain ⟨before, hcode, hcolumn, -⟩ := ih
    cases hr : resolve? c.rest with
    | none => rw [next?_eq_none hr] at hnext; contradiction
    | some r =>
      obtain ⟨column, rest⟩ := c
      obtain ⟨p, q, rfl, hround⟩ := exists_round hr
      rw [hround.next?_eq] at hnext
      cases hnext
      refine ⟨before ++ p, ?_, ?_, (hround.nameEnd.append_left before).cleanCut⟩
      · rw [hcode, List.append_assoc]
      · simp only at hcolumn ⊢
        rw [hcolumn, utf16Len_append]

/-- **Cutting the code loses nothing.** The sites of a line are those of the scan of its whole
code. At each cursor that the scan comes to, no keyword starts right after a word character, the
column is that of what has been read, and the round appends the positions of what is left. -/
theorem lineSites_eq_wholeSites (number : Nat) (line : List Char) :
    lineSites number line = wholeSites number line ∧
    ∀ c : Cursor, c.Reached (stripComment line) → ∃ before,
      stripComment line = before ++ c.rest ∧
      c.column = utf16Len before ∧
      (insideWord before.getLast? = true → afterKeyword? c.rest = none) ∧
      (codeSites number c.column c.rest).map Site.position =
        resolvePositions number c.rest (utf16Len before) ++
          c.next?.elim [] fun d => (codeSites number d.column d.rest).map Site.position := by
  constructor
  · simp only [lineSites, wholeSites]
    split
    · rfl
    · exact codeSites_eq_sitesFrom number (cleanCut_nil (stripComment line))
  · intro c hc
    obtain ⟨before, hcode, hcolumn, hcut⟩ := hc.cut
    refine ⟨before, hcode, hcolumn, hcut.afterKeyword?_eq_none, ?_⟩
    rw [← hcolumn]
    exact positions_codeSites number c

/-- The cut after the first of two declarations. -/
theorem lineSites_eq_wholeSites_second_round :
    Cursor.Reached (stripComment "let x let y = 1 // z".toList) ⟨5, " let y = 1 ".toList⟩ ∧
    ∃ before,
      stripComment "let x let y = 1 // z".toList = before ++ " let y = 1 ".toList ∧
      5 = utf16Len before ∧
      (insideWord before.getLast? = true → afterKeyword? " let y = 1 ".toList = none) ∧
      (codeSites 0 5 " let y = 1 ".toList).map Site.position =
        resolvePositions 0 " let y = 1 ".toList (utf16Len before) ++
          (Cursor.next? ⟨5, " let y = 1 ".toList⟩).elim [] fun d =>
            (codeSites 0 d.column d.rest).map Site.position := by
  have hreached : Cursor.Reached (stripComment "let x let y = 1 // z".toList)
      ⟨5, " let y = 1 ".toList⟩ := .next .start rfl
  exact ⟨hreached, (lineSites_eq_wholeSites 0 _).2 _ hreached⟩

end Inlay.Scan
