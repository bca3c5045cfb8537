import Inlay.Proofs.Scan.Parts

/-!
The names listed in any text, be it a group or not. Each part between commas that holds a word lists
one name, and a part without a word lists none. The name that a part lists is the first text of a
pattern: perhaps an ampersand, perhaps blanks, perhaps the qualifier, and a word.
-/

namespace Inlay.Scan

open Inlay.Unicode Inlay.Text Pattern
open scoped Computability

/-- The part lists a name, and `head` goes up to the end of it. -/
inductive Lists (part : List Char) : List Char → Prop
  /-- The first word is the qualifier, and the name follows it behind blanks. -/
  | qualified {lead tail gap name rest : List Char} (hfirst : FirstWord part lead qualifier tail)
      (hname : SpacedWord tail gap name rest) : Lists part (lead ++ (qualifier ++ (gap ++ name)))
  /-- The first word is the name. -/
  | plain {lead first rest : List Char} (hfirst : FirstWord part lead first rest)
      (hplain : first = qualifier → ∀ gap name rest', ¬SpacedWord rest gap name rest') :
      Lists part (lead ++ first)

variable {l : Language Char} {cs part head head' lead first rest m m' x y t : List Char}
  {n o : Nat}

/-! ### The name of a part -/

lemma nameEnd?_eq_some_iff :
    nameEnd? part = some n ↔ ∃ head, Lists part head ∧ n = utf8Len head := by
  constructor
  · intro h
    have hword : ∃ c ∈ part, isWord c = true := by
      rw [← List.any_eq_true]
      exact (isSome_nameEnd? part).symm.trans (Option.isSome_of_eq_some h)
    obtain ⟨lead, first, rest, hfirst⟩ := exists_firstWord hword
    rcases hfirst.nameEnd?_eq with ⟨gap, name, rest', rfl, hname, hend⟩ | ⟨hplain, hend⟩
    · exact ⟨_, .qualified hfirst hname, Option.some.inj (h.symm.trans hend)⟩
    · exact ⟨_, .plain hfirst hplain, Option.some.inj (h.symm.trans hend)⟩
  · rintro ⟨head, hlists, rfl⟩
    cases hlists with
    | qualified hfirst hname =>
      rcases hfirst.nameEnd?_eq with ⟨gap, name, rest, -, hname', hend⟩ | ⟨hplain, -⟩
      · obtain ⟨rfl, rfl, rfl⟩ := hname.unique hname'
        exact hend
      · exact absurd hname (hplain rfl _ _ _)
    | plain hfirst hplain =>
      rcases hfirst.nameEnd?_eq with ⟨gap, name, rest, hq, hname, -⟩ | ⟨-, hend⟩
      · exact absurd hname (hplain hq _ _ _)
      · exact hend

lemma hasWord_iff_exists_lists : hasWord part = true ↔ ∃ head, Lists part head := by
  rw [← isSome_nameEnd?, Option.isSome_iff_exists]
  simp only [nameEnd?_eq_some_iff]
  constructor
  · rintro ⟨n, head, hlists, -⟩
    exact ⟨head, hlists⟩
  · rintro ⟨head, hlists⟩
    exact ⟨utf8Len head, head, hlists, rfl⟩

lemma Lists.isPrefix (h : Lists part head) : head <+: part := by
  cases h with
  | @qualified lead tail gap name rest hfirst hname =>
    exact ⟨rest, by rw [hfirst.split, hname.split]; simp⟩
  | @plain lead first rest hfirst hplain =>
    exact ⟨rest, by rw [hfirst.split, List.append_assoc]⟩

/-! ### The pattern of a name -/

/-- What may stand right before a name: perhaps an ampersand, and blanks. -/
def nameLead : Language Char :=
  optional (text ['&']) * padding

/-- A word, perhaps with the qualifier before it. -/
def qualifiedWord : Language Char :=
  optional (text qualifier * gap) * word

/-- A name in a part, with all that belongs to it. -/
def partName : Language Char :=
  nameLead * qualifiedWord

/-- A text of the language stands in front. -/
structure Fronts (l : Language Char) (cs m : List Char) : Prop where
  mem : m ∈ l
  front : m <+: cs

/-- A text of the language stands in front, and no longer one does. -/
structure FrontsLongest (l : Language Char) (cs m : List Char) : Prop where
  fronts : Fronts l cs m
  longest : ∀ m', Fronts l cs m' → m'.length ≤ m.length

/-- The first text of the language ends where `head` does: it stands at the first place where there
is one, and it is the longest one there. -/
inductive Finds (l : Language Char) (cs head : List Char) : Prop
  | intro {p q m : List Char} (hsplit : cs = p ++ q)
      (hplace : FirstPlace (fun _ tail => ∃ m, Fronts l tail m) p q)
      (hlongest : FrontsLongest l q m) (hhead : head = p ++ m)

lemma FrontsLongest.unique (h : FrontsLongest l cs m) (h' : FrontsLongest l cs m') : m = m' := by
  have hlen : m.length = m'.length :=
    Nat.le_antisymm (h'.longest m h.fronts) (h.longest m' h'.fronts)
  exact (List.prefix_of_prefix_length_le h.fronts.front h'.fronts.front hlen.le).eq_of_length hlen

lemma Finds.unique (h : Finds l cs head) (h' : Finds l cs head') : head = head' := by
  obtain ⟨rfl, hplace, hlongest, rfl⟩ := h
  obtain ⟨hsplit, hplace', hlongest', rfl⟩ := h'
  obtain ⟨rfl, rfl⟩ := hplace.unique hplace' hsplit
  rw [hlongest.unique hlongest']

lemma isWord_of_mem_nameLead (h : x ∈ nameLead) : ∀ c ∈ x, isWord c = false := by
  obtain ⟨a, ha, b, hb, rfl⟩ := Language.mem_mul.mp h
  intro c hc
  rcases List.mem_append.mp hc with hc | hc
  · rcases mem_optional.mp ha with rfl | rfl
    · contradiction
    · rw [List.mem_singleton.mp hc]
      decide +kernel
  · exact isWord_of_isBlank (mem_kstar_char.mp hb c hc)

lemma head_of_mem_qualifiedWord (h : y ∈ qualifiedWord) :
    ∃ c y', y = c :: y' ∧ isWord c = true := by
  obtain ⟨a, ha, w, hw, rfl⟩ := Language.mem_mul.mp h
  rcases mem_optional.mp ha with rfl | ⟨_, rfl, b, -, rfl⟩
  · obtain ⟨hne, hall⟩ := mem_word.mp hw
    obtain ⟨c, w, rfl⟩ := List.exists_cons_of_ne_nil hne
    exact ⟨c, w, rfl, hall c List.mem_cons_self⟩
  · exact ⟨'m', _, rfl, by decide +kernel⟩

/-- The first word of a part can be read as a name. -/
lemma FirstWord.fronts (h : FirstWord part lead first rest) :
    Fronts qualifiedWord (first ++ rest) first :=
  ⟨Language.append_mem_mul (mem_optional.mpr (Or.inl rfl)) (mem_word.mpr ⟨h.ne_nil, h.run.all⟩),
    rest, rfl⟩

/-- What is read of a name before its first word character goes up to that character. -/
lemma fronts_partName_iff (h : IsRun (fun c => !isWord c) x t) :
    Fronts partName (x ++ t) m ↔ x ∈ nameLead ∧ ∃ y, Fronts qualifiedWord t y ∧ m = x ++ y := by
  constructor
  · rintro ⟨hmem, r, hr⟩
    obtain ⟨x', hx, y, hy, rfl⟩ := Language.mem_mul.mp hmem
    have hrun : IsRun (fun c => !isWord c) x' (y ++ r) := by
      refine ⟨fun c hc => by rw [isWord_of_mem_nameLead hx c hc]; rfl, fun c hc => ?_⟩
      obtain ⟨d, y', rfl, hd⟩ := head_of_mem_qualifiedWord hy
      cases hc
      rw [hd]
      rfl
    rw [List.append_assoc] at hr
    obtain ⟨rfl, rfl⟩ := hrun.unique h hr
    exact ⟨hx, y, ⟨hy, r, rfl⟩, rfl⟩
  · rintro ⟨hx, y, ⟨hy, hfront⟩, rfl⟩
    exact ⟨Language.append_mem_mul hx hy, (List.prefix_append_right_inj x).mpr hfront⟩

/-- A name that is read from the first word on goes no further than that word, or than the word
behind it if the first one is the qualifier. -/
lemma prefix_of_fronts_qualifiedWord (h : IsRun isWord first rest)
    (hy : Fronts qualifiedWord (first ++ rest) y) :
    y <+: first ∨ ∃ gap name rest', first = qualifier ∧ SpacedWord rest gap name rest' ∧
      y <+: first ++ (gap ++ name) := by
  obtain ⟨hmem, r, hr⟩ := hy
  obtain ⟨a, ha, w, hw, rfl⟩ := Language.mem_mul.mp hmem
  obtain ⟨-, hall⟩ := mem_word.mp hw
  rcases mem_optional.mp ha with rfl | ⟨_, rfl, gap, hgap, rfl⟩
  · refine Or.inl ⟨r.takeWhile isWord, ?_⟩
    rw [List.nil_append] at hr ⊢
    rw [← h.takeWhile_eq, ← hr, List.takeWhile_append_of_pos hall]
  · -- the word that has been read behind the qualifier may be the beginning of a longer one
    simp only [List.append_assoc] at hr
    obtain ⟨rfl, rfl⟩ := (isRun_qualifier hgap (w ++ r)).unique h hr
    have hname : w ++ r.takeWhile isWord ∈ word := by
      refine mem_word.mpr ⟨by simp [(mem_word.mp hw).1], fun c hc => ?_⟩
      rcases List.mem_append.mp hc with hc | hc
      · exact hall c hc
      · exact List.mem_takeWhile_imp hc
    have hspaced := spacedWord_of_mem hgap hname (isRun_takeWhile isWord r).stop
    rw [List.append_assoc, List.takeWhile_append_dropWhile] at hspaced
    exact Or.inr ⟨gap, _, _, rfl, hspaced, r.takeWhile isWord, by simp⟩

/-- From the first word of its part on, a name goes as far as a word with its qualifier can be
read. -/
lemma Lists.exists_frontsLongest (h : Lists part head) :
    ∃ lead first rest y, FirstWord part lead first rest ∧ head = lead ++ y ∧
      FrontsLongest qualifiedWord (first ++ rest) y := by
  cases h with
  | @qualified lead tail gap name rest hfirst hname =>
    obtain ⟨hgap, hword⟩ := hname.mem
    have hmem : qualifier ++ gap ++ name ∈ qualifiedWord :=
      Language.append_mem_mul (mem_optional.mpr (Or.inr (Language.append_mem_mul rfl hgap))) hword
    rw [List.append_assoc] at hmem
    refine ⟨lead, qualifier, tail, _, hfirst, rfl, ⟨hmem, rest, ?_⟩, fun y hy => ?_⟩
    · rw [hname.split]
      simp
    · rcases prefix_of_fronts_qualifiedWord hfirst.run hy with
        hle | ⟨gap', name', rest', -, hname', hle⟩
      · exact (hle.trans (List.prefix_append _ _)).length_le
      · obtain ⟨rfl, rfl, rfl⟩ := hname.unique hname'
        exact hle.length_le
  | @plain lead first rest hfirst hplain =>
    refine ⟨lead, first, rest, first, hfirst, rfl, hfirst.fronts, fun y hy => ?_⟩
    rcases prefix_of_fronts_qualifiedWord hfirst.run hy with hle | ⟨_, _, _, hq, hname, -⟩
    · exact hle.length_le
    · exact absurd hname (hplain hq _ _ _)

/-- The first name in a part has the first word in it, and perhaps something right before that. -/
lemma FirstWord.exists_firstPlace (h : FirstWord part lead first rest) :
    ∃ p x, lead = p ++ x ∧ x ∈ nameLead ∧
      FirstPlace (fun _ tail => ∃ m, Fronts partName tail m) p (x ++ (first ++ rest)) := by
  have hnil : ([] : List Char) ∈ nameLead :=
    Language.append_mem_mul (mem_optional.mpr (Or.inl rfl)) (mem_kstar_char.mpr nofun)
  have hword : Fronts partName (first ++ rest) first :=
    ⟨Language.append_mem_mul hnil h.fronts.mem, h.fronts.front⟩
  obtain ⟨p, q, hsplit, hplace, hle⟩ : ∃ p q, lead ++ (first ++ rest) = p ++ q ∧
      FirstPlace (fun _ tail => ∃ m, Fronts partName tail m) p q ∧ p.length ≤ lead.length :=
    exists_firstPlace_le ⟨first, hword⟩
  obtain ⟨x, rfl⟩ : p <+: lead :=
    List.prefix_of_prefix_length_le ⟨q, hsplit.symm⟩ (List.prefix_append lead _) hle
  rw [List.append_assoc] at hsplit
  obtain rfl := List.append_cancel_left hsplit
  obtain ⟨m, hm⟩ := hplace.holds
  exact ⟨p, x, rfl, ((fronts_partName_iff h.lead_run.of_append).mp hm).1, hplace⟩

lemma Lists.finds (h : Lists part head) : Finds partName part head := by
  obtain ⟨lead, first, rest, y, hfirst, rfl, hy⟩ := h.exists_frontsLongest
  obtain ⟨p, x, rfl, hx, hplace⟩ := hfirst.exists_firstPlace
  have hrun : IsRun (fun c => !isWord c) x (first ++ rest) := hfirst.lead_run.of_append
  refine .intro (by rw [hfirst.split, List.append_assoc]) hplace ⟨?_, fun m hm => ?_⟩
    (List.append_assoc p x y)
  · exact (fronts_partName_iff hrun).mpr ⟨hx, y, hy.fronts, rfl⟩
  · obtain ⟨-, y', hy', rfl⟩ := (fronts_partName_iff hrun).mp hm
    rw [List.length_append, List.length_append]
    exact Nat.add_le_add_left (hy.longest y' hy') _

lemma Finds.hasWord (h : Finds partName part head) : hasWord part = true := by
  obtain ⟨rfl, -, ⟨⟨hmem, r, rfl⟩, -⟩, -⟩ := h
  obtain ⟨x, -, y, hy, rfl⟩ := Language.mem_mul.mp hmem
  obtain ⟨c, y', rfl, hc⟩ := head_of_mem_qualifiedWord hy
  exact List.any_eq_true.mpr ⟨c, by simp, hc⟩

/-- The name that a part lists is what the pattern finds first. -/
lemma lists_iff_finds : Lists part head ↔ Finds partName part head := by
  refine ⟨Lists.finds, fun h => ?_⟩
  -- what is found holds a word, so the part lists a name, and no other text can be found first
  obtain ⟨head', hlists⟩ := hasWord_iff_exists_lists.mp h.hasWord
  rw [h.unique hlists.finds]
  exact hlists

/-! ### All names of a text -/

/-- The places in `as` are the ends of the names that the parts of a text list, if the text stands
`o` bytes into its line. -/
structure NamesPartByPart (o : Nat) (t : List Char) (as : List Nat) : Prop where
  /-- Each part with a word has one place. -/
  length : as.length = (split ',' t).countP hasWord
  /-- The places come in the order of the parts. -/
  place : ∀ before part after head, split ',' t = before ++ part :: after → Lists part head →
    before.flatMap (· ++ [',']) ++ head <+: t ∧
      as[before.countP hasWord]? = some (o + utf8Len (before.flatMap (· ++ [',']) ++ head))

lemma namesPartByPart (o : Nat) (t : List Char) : NamesPartByPart o t (bindings o t) := by
  refine ⟨length_partAnchors_eq_countP o _, fun before part after head hsplit hlists => ⟨?_, ?_⟩⟩
  · have ht : t = before.flatMap (· ++ [',']) ++ join ',' (part :: after) := by
      rw [← join_append_cons, ← hsplit, join_split]
    rw [ht, List.prefix_append_right_inj]
    exact hlists.isPrefix.trans (isPrefix_join ',' part after)
  · have hend : nameEnd? part = some (utf8Len head) := nameEnd?_eq_some_iff.mpr ⟨head, hlists, rfl⟩
    rw [bindings, hsplit, getElem?_partAnchors_countP hend, utf8Len_append, Nat.add_assoc]

lemma bounds_of_mem_bindings {a : Nat} (h : a ∈ bindings o t) : o < a ∧ a ≤ o + utf8Len t := by
  obtain ⟨p, q, rfl, rfl, hend⟩ := nameEnd_of_mem_bindings h
  have hpos := hend.utf8Len_pos
  rw [utf8Len_append]
  omega

/-- A comma leaves the names before it alone, and those behind it are counted from it on. -/
lemma bindings_append_comma (o : Nat) (t u : List Char) :
    bindings o (t ++ ',' :: u) = bindings o t ++ bindings (o + utf8Len t + 1) u := by
  have hfront : utf8Len ((split ',' t).flatMap (· ++ [','])) = utf8Len t + 1 := by
    rw [flatMap_eq_join (split_ne_nil ',' t), join_split, utf8Len_append]
    rfl
  rw [bindings, split_append, partAnchors_append, hfront, ← Nat.add_assoc]
  rfl

/-- **The names of any text are found part by part.** Each part between commas that holds a word has
one anchor, at the end of the name that the pattern finds first in it. So the anchors ascend and
stay inside the text, they move with it, and a comma parts them as it parts the text. -/
theorem bindings_of_any_text (o : Nat) (t : List Char) :
    NamesPartByPart o t (bindings o t) ∧
    (∀ part, hasWord part = true ↔ ∃ head, Lists part head) ∧
    (∀ part head, Lists part head ↔ Finds partName part head) ∧
    (bindings o t).Pairwise (· < ·) ∧
    (∀ a ∈ bindings o t, o < a ∧ a ≤ o + utf8Len t) ∧
    (∀ d, bindings (o + d) t = (bindings o t).map (· + d)) ∧
    ∀ u, bindings o (t ++ ',' :: u) = bindings o t ++ bindings (o + utf8Len t + 1) u :=
  ⟨namesPartByPart o t, fun _ => hasWord_iff_exists_lists, fun _ _ => lists_iff_finds,
    pairwise_bindings o t, fun _ => bounds_of_mem_bindings, fun d => bindings_add o d t,
    bindings_append_comma o t⟩

/-- A name with a type, nothing at all, an ampersand and blanks before the qualifier, the qualifier
as a name, and a name behind what no name may start with. -/
theorem bindings_of_any_text_scattered :
    bindings 7 "é: T,, &  mut ß=1,(mut,)&mut\tü".toList = [9, 24, 31, 40] ∧
      split ',' "é: T,, &  mut ß=1,(mut,)&mut\tü".toList =
        ["é: T".toList, []] ++ " &  mut ß=1".toList :: ["(mut".toList, ")&mut\tü".toList] ∧
      ∃ head, Lists " &  mut ß=1".toList head ∧ Finds partName " &  mut ß=1".toList head ∧
        [9, 24, 31, 40][1]? = some (7 + utf8Len ("é: T,,".toList ++ head)) := by
  have hplaces : bindings 7 "é: T,, &  mut ß=1,(mut,)&mut\tü".toList = [9, 24, 31, 40] := by
    decide +kernel
  have hsplit : split ',' "é: T,, &  mut ß=1,(mut,)&mut\tü".toList =
      ["é: T".toList, []] ++ " &  mut ß=1".toList :: ["(mut".toList, ")&mut\tü".toList] := by
    decide +kernel
  obtain ⟨hnames, hword, hfinds, -⟩ :=
    bindings_of_any_text 7 "é: T,, &  mut ß=1,(mut,)&mut\tü".toList
  obtain ⟨head, hlists⟩ := (hword " &  mut ß=1".toList).mp (by decide +kernel)
  obtain ⟨-, hplace⟩ := hnames.place _ _ _ head hsplit hlists
  rw [hplaces] at hplace
  exact ⟨hplaces, hsplit, head, hlists, (hfinds _ head).mp hlists, hplace⟩

end Inlay.Scan
