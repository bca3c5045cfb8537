import Mathlib.Data.List.Nodup
import Mathlib.Tactic.Lemma
import Inlay.Config.Document

/-!
What can be wrong with a configuration file in YAML. A fault anywhere, at whatever depth and after
however many entries that are in order, makes the whole file define nothing; and nothing else does.
-/

namespace Inlay.Config

open Yaml

variable {α : Type} {root k v : Node} {known : List String} {read : String → Node → Option α}
  {es : List (Node × Node)} {t : Table String α} {key text : String}

def knownKeys (root : Node) (known : List String) (es : List (Node × Node)) : List String :=
  ((es.map Prod.fst).filterMap (text? root)).filter fun key => known.contains key

/-- What can be wrong with entries of which some keys are known. -/
inductive EntryFault (root : Node) (known : List String) (read : String → Node → Option α)
    (es : List (Node × Node)) : Prop
  /-- A key is not a text. -/
  | key {k v : Node} (hmem : (k, v) ∈ es) (htext : text? root k = none)
  /-- The value of a known key is not what it should be. -/
  | value {k v : Node} {key : String} (hmem : (k, v) ∈ es) (htext : text? root k = some key)
      (hknown : key ∈ known) (hread : read key v = none)
  /-- A known key occurs twice. -/
  | twice (h : ¬(knownKeys root known es).Nodup)

inductive Fault (text : String) : Prop
  /-- It is not YAML, or not a single document. -/
  | yaml (h : document? text.toList = none)
  /-- There is something in it, but not a mapping. -/
  | kind {n : Node} (h : document? text.toList = some (some n))
      (hmapping : ∀ anchor es, n ≠ .mapping anchor es)
      (hempty : ∀ anchor tag, n ≠ .scalar anchor tag true [])
  | entry {anchor : Option Nat} {es : List (Node × Node)}
      (h : document? text.toList = some (some (.mapping anchor es)))
      (hentry : EntryFault (.mapping anchor es)
        ["language_id", "label_prefix", "decoration_key", "decoration"]
        (value? (.mapping anchor es)) es)

/-! ### Entries -/

lemma knownKeys_of_text (h : text? root k = some key) (v : Node) (known : List String)
    (es : List (Node × Node)) :
    knownKeys root known ((k, v) :: es) =
      if key ∈ known then key :: knownKeys root known es else knownKeys root known es := by
  rw [knownKeys, List.map_cons, List.filterMap_cons_some h, List.filter_cons]
  simp only [List.contains_iff_mem]
  rfl

lemma knownKeys_of_no_text (h : text? root k = none) (v : Node) (known : List String)
    (es : List (Node × Node)) :
    knownKeys root known ((k, v) :: es) = knownKeys root known es := by
  rw [knownKeys, List.map_cons, List.filterMap_cons_none h]
  rfl

/-- A fault of entries is one of the first entry, or of the others. -/
lemma entryFault_cons_iff : EntryFault root known read ((k, v) :: es) ↔
    EntryFault root known read es ∨ text? root k = none ∨
      ∃ key ∈ known, text? root k = some key ∧
        (read key v = none ∨ key ∈ knownKeys root known es) := by
  constructor
  · rintro (⟨hmem, htext⟩ | ⟨hmem, htext, hknown, hread⟩ | htwice)
    · rcases List.mem_cons.mp hmem with heq | hmem
      · cases heq
        exact Or.inr (Or.inl htext)
      · exact Or.inl (.key hmem htext)
    · rcases List.mem_cons.mp hmem with heq | hmem
      · cases heq
        exact Or.inr (Or.inr ⟨_, hknown, htext, Or.inl hread⟩)
      · exact Or.inl (.value hmem htext hknown hread)
    · cases htext : text? root k with
      | none => exact Or.inr (Or.inl rfl)
      | some key =>
        rw [knownKeys_of_text htext] at htwice
        split at htwice
        · next hknown =>
          by_cases hmem : key ∈ knownKeys root known es
          · exact Or.inr (Or.inr ⟨key, hknown, rfl, Or.inr hmem⟩)
          · exact Or.inl (.twice fun h => htwice (List.nodup_cons.mpr ⟨hmem, h⟩))
        · exact Or.inl (.twice htwice)
  · rintro ((⟨hmem, htext⟩ | ⟨hmem, htext, hknown, hread⟩ | htwice) | htext |
      ⟨key, hknown, htext, hread | hmem⟩)
    · exact .key (List.mem_cons_of_mem _ hmem) htext
    · exact .value (List.mem_cons_of_mem _ hmem) htext hknown hread
    · refine .twice fun h => htwice ?_
      cases htext : text? root k with
      | none => rwa [knownKeys_of_no_text htext] at h
      | some key =>
        rw [knownKeys_of_text htext] at h
        split at h
        · exact (List.nodup_cons.mp h).2
        · exact h
    · exact .key List.mem_cons_self htext
    · exact .value List.mem_cons_self htext hknown hread
    · refine .twice fun h => ?_
      rw [knownKeys_of_text htext, if_pos hknown] at h
      exact (List.nodup_cons.mp h).1 hmem

/-- Reading entries goes from the last to the first. -/
lemma fields?_cons_eq : fields? root known read ((k, v) :: es) =
    (text? root k).bind fun key => (fields? root known read es).bind fun later =>
      if key ∈ known then
        if (later.find? key).isSome then none else (read key v).map (later.insert key ·)
      else some later := by
  rw [fields?]
  simp only [bind, pure, List.contains_iff_mem]
  cases text? root k with
  | none => rfl
  | some key =>
    cases fields? root known read es with
    | none => rfl
    | some later =>
      simp only [Option.bind_some]
      split
      · split
        · rfl
        · cases read key v <;> rfl
      · rfl

/-- What has been read has a value for each known key that occurs. -/
lemma isSome_find?_of_fields? (h : fields? root known read es = some t) (key : String) :
    (t.find? key).isSome = true ↔ key ∈ knownKeys root known es := by
  induction es generalizing t with
  | nil =>
    cases h
    simp [knownKeys]
  | cons e es ih =>
    obtain ⟨k, v⟩ := e
    rw [fields?_cons_eq] at h
    obtain ⟨first, htext, h⟩ := Option.bind_eq_some_iff.mp h
    obtain ⟨later, hlater, h⟩ := Option.bind_eq_some_iff.mp h
    rw [knownKeys_of_text htext]
    split at h
    · next hknown =>
      rw [if_pos hknown, List.mem_cons, ← ih hlater]
      split at h
      · contradiction
      · obtain ⟨x, -, rfl⟩ := Option.map_eq_some_iff.mp h
        rw [Table.find?_insert]
        by_cases hkey : key = first <;> simp [hkey]
    · next hknown =>
      cases h
      rw [if_neg hknown]
      exact ih hlater

/-- Entries can be read if and only if nothing is wrong with them. -/
theorem fields?_eq_none_iff :
    fields? root known read es = none ↔ EntryFault root known read es := by
  induction es with
  | nil =>
    refine ⟨nofun, fun h => ?_⟩
    cases h with
    | key hmem _ | value hmem _ _ _ => exact nomatch hmem
    | twice h => exact absurd List.nodup_nil h
  | cons e es ih =>
    obtain ⟨k, v⟩ := e
    rw [fields?_cons_eq, entryFault_cons_iff, ← ih]
    cases htext : text? root k with
    | none => simp
    | some key =>
      cases hlater : fields? root known read es with
      | none => simp
      | some later =>
        have hfind := isSome_find?_of_fields? hlater key
        by_cases hknown : key ∈ known
        · by_cases hmem : key ∈ knownKeys root known es
          · simp [hknown, hmem, hfind.mpr hmem]
          · have hfresh : (later.find? key).isSome = false :=
              Bool.eq_false_iff.mpr fun h => hmem (hfind.mp h)
            simp [hknown, hmem, hfresh]
        · simp [hknown]

/-! ### Whole files -/

/-- **A file is refused as a whole if anything is wrong with it**, and only then. -/
theorem yaml_refuses_iff (text : String) :
    (∃ cause, yaml.parse text = .error cause) ↔ Fault text := by
  have hmapping : ∀ anchor es, Layer.ofDocument? (some (.mapping anchor es)) = none ↔
      EntryFault (.mapping anchor es)
        ["language_id", "label_prefix", "decoration_key", "decoration"]
        (value? (.mapping anchor es)) es := by
    intro anchor es
    rw [← fields?_eq_none_iff, Layer.ofDocument?]
    cases fields? (.mapping anchor es)
      ["language_id", "label_prefix", "decoration_key", "decoration"]
      (value? (.mapping anchor es)) es with
    | none => exact ⟨fun _ => rfl, fun _ => rfl⟩
    | some t => exact ⟨nofun, nofun⟩
  rw [yaml_parse_fails_iff, Layer.parse?]
  constructor
  · intro h
    cases hdocument : document? text.toList with
    | none => exact .yaml hdocument
    | some document =>
      rw [hdocument, Option.bind_some] at h
      match document, h with
      | some (.mapping anchor es), h => exact .entry hdocument ((hmapping anchor es).mp h)
      | some (.sequence _ _), _ =>
        exact .kind hdocument (fun _ _ => nofun) fun _ _ => nofun
      | some (.reference _), _ =>
        exact .kind hdocument (fun _ _ => nofun) fun _ _ => nofun
      | some (.scalar _ _ false _), _ =>
        exact .kind hdocument (fun _ _ => nofun) fun _ _ => nofun
      | some (.scalar _ _ true (_ :: _)), _ =>
        exact .kind hdocument (fun _ _ => nofun) fun _ _ => nofun
  · rintro (hdocument | ⟨hdocument, hno, hempty⟩ | ⟨hdocument, hentry⟩)
    · rw [hdocument]
      rfl
    · rw [hdocument, Option.bind_some]
      unfold Layer.ofDocument?
      split
      · contradiction
      · next heq =>
        cases heq
        exact absurd rfl (hempty _ _)
      · next heq =>
        cases heq
        exact absurd rfl (hno _ _)
      · rfl
    · rw [hdocument, Option.bind_some]
      exact (hmapping _ _).mpr hentry

end Inlay.Config
