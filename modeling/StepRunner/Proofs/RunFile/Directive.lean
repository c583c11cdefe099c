import Mathlib.Computability.Language
import StepRunner.Proofs.Text.Double
import StepRunner.Proofs.Text.Trim
import StepRunner.RunFile.Line

/-!
# Include directives

A line that starts with `;` is a directive just if it is a `Heading` and a rest without newlines.
Its target is then what stands before the first `::` of the rest; every other such line is a comment
(`classify_eq_inclusion_iff`, `classify_eq_comment_iff`). The directives are what the pattern
`^;\s*INCLUDE\s*::(.*)$` matches, upper and lower case being the same (`captures_iff_directive`).

A target that is written in a directive is read back (`Writing.reads_back_iff`), but for two ways of
writing it: with a newline behind the first `::`, which `.` does not match, and with a second `::`
right behind a `:` that ends the target, when the first two of the three `:` end it
(`target_not_read_back`).
-/

namespace StepRunner.RunFile.Line

open scoped Computability

/-! ### What a directive is -/

/-- What stands before the rest of a directive: `;`, the word in any case and `::`, with blanks on
both sides of the word. -/
structure Heading where
  lead : List Char
  word : List Char
  gap : List Char
  lead_blank : ∀ c ∈ lead, Text.isBlank c
  word_eq : word.map Char.toUpper = "INCLUDE".toList
  gap_blank : ∀ c ∈ gap, Text.isBlank c

def Heading.chars (h : Heading) : List Char :=
  ';' :: (h.lead ++ (h.word ++ (h.gap ++ [':', ':'])))

theorem Heading.chars_append (h : Heading) (rest : List Char) :
    h.chars ++ rest = ';' :: (h.lead ++ (h.word ++ (h.gap ++ ':' :: ':' :: rest))) := by
  simp only [chars, List.append_assoc, List.cons_append, List.nil_append]

/-- The text is a heading and this rest, in which there is no newline. -/
def Directive (text rest : List Char) : Prop :=
  (∃ h : Heading, text = h.chars ++ rest) ∧ '\n' ∉ rest

/-! ### The pattern -/

/-- The texts of one character of a class. -/
def oneOf (p : Char → Prop) : Language Char := {cs | ∃ c, p c ∧ cs = [c]}

def blanks : Language Char := (oneOf fun c => Text.isBlank c)∗

/-- A word of capitals in any case. Some capitals have more than two forms (the Kelvin sign is a
`K`, `ſ` is an `S`), but none of those of a directive. -/
def anyCase (word : List Char) : Language Char :=
  (word.map fun u => oneOf fun c => c = u ∨ c = u.toLower).prod

/-- The pattern up to its group, `^;\s*INCLUDE\s*::`. -/
def headingPattern : Language Char :=
  {[';']} * blanks * anyCase "INCLUDE".toList * blanks * {[':', ':']}

/-- The group, `.*`; the text ends with it. -/
def restPattern : Language Char := (oneOf fun c => c ≠ '\n')∗

/-- The pattern matches the text, and its group is this rest. -/
def Captures (text rest : List Char) : Prop :=
  ∃ front ∈ headingPattern, front ++ rest = text ∧ rest ∈ restPattern

variable {cs t word : List Char}

theorem mem_kstar_oneOf {p : Char → Prop} : cs ∈ (oneOf p)∗ ↔ ∀ c ∈ cs, p c := by
  rw [Language.mem_kstar]
  constructor
  · rintro ⟨pieces, rfl, hpieces⟩ c hc
    obtain ⟨piece, hpiece, hc⟩ := List.mem_flatten.mp hc
    obtain ⟨d, hd, rfl⟩ := hpieces piece hpiece
    rwa [List.mem_singleton.mp hc]
  · intro h
    refine ⟨cs.map ([·]), by rw [← List.flatMap_def, List.flatMap_singleton'],
      fun piece hpiece => ?_⟩
    obtain ⟨c, hc, rfl⟩ := List.mem_map.mp hpiece
    exact ⟨c, h c hc, rfl⟩

theorem toUpper_eq_iff {u c : Char} (h : u.isUpper) : c.toUpper = u ↔ c = u ∨ c = u.toLower := by
  have hu : u.val ≥ 'A'.val ∧ u.val ≤ 'Z'.val := of_decide_eq_true h
  have hlower : u.toLower.val = u.val + ('a'.val - 'A'.val) := congrArg Char.val (dif_pos hu)
  rw [Char.ext_iff, Char.ext_iff, Char.ext_iff, hlower]
  by_cases hc : 'a'.val ≤ c.val ∧ c.val ≤ 'z'.val
  · have hupper : c.toUpper = ⟨c.val + ('A'.val - 'a'.val), _⟩ := dif_pos hc
    rw [hupper]
    grind
  · have hupper : c.toUpper = c := dif_neg hc
    rw [hupper]
    grind

theorem mem_anyCase (h : ∀ u ∈ word, u.isUpper) :
    cs ∈ anyCase word ↔ cs.map Char.toUpper = word := by
  induction word generalizing cs with
  | nil => rw [anyCase, List.map_nil, List.prod_nil, Language.mem_one, List.map_eq_nil_iff]
  | cons u word ih =>
    obtain ⟨hu, hword⟩ := List.forall_mem_cons.mp h
    rw [anyCase, List.map_cons, List.prod_cons, ← anyCase, Language.mem_mul, List.map_eq_cons_iff]
    constructor
    · rintro ⟨_, ⟨c, hc, rfl⟩, r, hr, rfl⟩
      exact ⟨c, r, rfl, (toUpper_eq_iff hu).mpr hc, (ih hword).mp hr⟩
    · rintro ⟨c, r, rfl, hc, hr⟩
      exact ⟨[c], ⟨c, (toUpper_eq_iff hu).mp hc, rfl⟩, r, (ih hword).mpr hr, rfl⟩

theorem mem_headingPattern : cs ∈ headingPattern ↔ ∃ h : Heading, cs = h.chars := by
  have hcapitals : ∀ u ∈ "INCLUDE".toList, u.isUpper := List.all_eq_true.mp (by decide)
  -- The product of the five parts is bracketed to the left.
  constructor
  · rintro ⟨_, ⟨_, ⟨_, ⟨_, rfl, lead, hlead, rfl⟩, word, hword, rfl⟩, gap, hgap, rfl⟩, _, rfl, rfl⟩
    refine ⟨⟨lead, word, gap, mem_kstar_oneOf.mp hlead, (mem_anyCase hcapitals).mp hword,
      mem_kstar_oneOf.mp hgap⟩, ?_⟩
    simp only [Heading.chars, List.append_assoc, List.cons_append, List.nil_append]
  · rintro ⟨⟨lead, word, gap, hlead, hword, hgap⟩, rfl⟩
    refine ⟨_, ⟨_, ⟨_, ⟨_, rfl, lead, mem_kstar_oneOf.mpr hlead, rfl⟩, word,
      (mem_anyCase hcapitals).mpr hword, rfl⟩, gap, mem_kstar_oneOf.mpr hgap, rfl⟩, _, rfl, ?_⟩
    simp only [Heading.chars, List.append_assoc, List.cons_append, List.nil_append]

theorem captures_iff_directive {text rest : List Char} :
    Captures text rest ↔ Directive text rest := by
  have hrest : rest ∈ restPattern ↔ '\n' ∉ rest := by
    rw [restPattern, mem_kstar_oneOf]
    exact ⟨fun h hmem => h _ hmem rfl, fun h c hc hnl => h (hnl ▸ hc)⟩
  constructor
  · rintro ⟨front, hfront, rfl, hmem⟩
    obtain ⟨h, rfl⟩ := mem_headingPattern.mp hfront
    exact ⟨⟨h, rfl⟩, hrest.mp hmem⟩
  · rintro ⟨⟨h, rfl⟩, hmem⟩
    exact ⟨h.chars, mem_headingPattern.mpr ⟨h, rfl⟩, rfl, hrest.mpr hmem⟩

/-! ### What is read -/

theorem dropWord?_eq_some_iff {r : List Char} :
    dropWord? word cs = some r ↔ ∃ w, w.map Char.toUpper = word ∧ cs = w ++ r := by
  induction word generalizing cs with
  | nil =>
    simp only [dropWord?, Option.some.injEq, List.map_eq_nil_iff, exists_eq_left, List.nil_append]
  | cons u word ih =>
    simp only [List.map_eq_cons_iff]
    cases cs with
    | nil =>
      refine iff_of_false nofun ?_
      rintro ⟨_, ⟨c, w, rfl, -⟩, hcs⟩
      cases hcs
    | cons c cs =>
      by_cases hc : c.toUpper = u
      · rw [dropWord?, if_pos hc, ih]
        constructor
        · rintro ⟨w, hw, rfl⟩
          exact ⟨c :: w, ⟨c, w, rfl, hc, hw⟩, rfl⟩
        · rintro ⟨_, ⟨d, w, rfl, -, hw⟩, hcs⟩
          exact ⟨w, hw, (List.cons.inj hcs).2⟩
      · rw [dropWord?, if_neg hc]
        refine iff_of_false nofun ?_
        rintro ⟨_, ⟨d, w, rfl, hd, -⟩, hcs⟩
        exact hc ((List.cons.inj hcs).1 ▸ hd)

theorem Heading.not_isBlank_head (h : Heading) (r : List Char) :
    ∀ c, (h.word ++ r).head? = some c → Text.isBlank c = false := by
  obtain ⟨c, w, hw, hc, -⟩ := List.map_eq_cons_iff.mp h.word_eq
  intro d hd
  rw [hw, List.cons_append, List.head?_cons, Option.some.injEq] at hd
  rcases (toUpper_eq_iff (by decide)).mp hc with rfl | rfl <;> exact hd ▸ by decide

theorem Heading.directiveTarget?_eq (h : Heading) (rest : List Char) :
    directiveTarget? (h.chars ++ rest).tail =
      if '\n' ∈ rest then none else some (Text.trim (Text.beforeDouble ':' rest)) := by
  have hword : dropWord? "INCLUDE".toList (Text.trimStart (h.chars ++ rest).tail) =
      some (h.gap ++ ':' :: ':' :: rest) := by
    rw [h.chars_append, List.tail_cons, Text.trimStart_blanks_append h.lead_blank,
      Text.trimStart_eq_self (h.not_isBlank_head _)]
    exact dropWord?_eq_some_iff.mpr ⟨h.word, h.word_eq, rfl⟩
  have hmark : Text.trimStart (h.gap ++ ':' :: ':' :: rest) = ':' :: ':' :: rest := by
    rw [Text.trimStart_blanks_append h.gap_blank]
    rfl
  unfold directiveTarget?
  rw [hword]
  dsimp only [bind, Option.bind]
  rw [hmark]
  rfl

theorem classify_of_semicolon {line : String} {r : List Char} (h : line.toList = ';' :: r) :
    classify line =
      ((directiveTarget? r).map fun t => inclusion (String.ofList t)).getD comment := by
  simp only [classify, h]

theorem Heading.classify_eq (h : Heading) (rest : List Char) :
    classify (String.ofList (h.chars ++ rest)) =
      if '\n' ∈ rest then comment
      else inclusion (String.ofList (Text.trim (Text.beforeDouble ':' rest))) := by
  have hread := h.directiveTarget?_eq rest
  rw [h.chars_append, List.tail_cons] at hread
  rw [classify_of_semicolon (String.toList_ofList.trans (h.chars_append rest)), hread]
  split <;> rfl

theorem exists_heading (h : directiveTarget? cs = some t) :
    ∃ (hd : Heading) (rest : List Char), ';' :: cs = hd.chars ++ rest := by
  unfold directiveTarget? at h
  obtain ⟨r, hr, h⟩ := Option.bind_eq_some_iff.mp h
  obtain ⟨word, hword, hcs⟩ := dropWord?_eq_some_iff.mp hr
  obtain ⟨lead, hlead, hlead'⟩ := Text.exists_blanks_trimStart cs
  obtain ⟨gap, hgap, hgap'⟩ := Text.exists_blanks_trimStart r
  split at h
  · next rest hrest =>
    exact ⟨⟨lead, word, gap, hlead, hword, hgap⟩, rest,
      by rw [Heading.chars_append, hlead', hcs, hgap', hrest]⟩
  · cases h

theorem directiveTarget?_eq_some_iff : directiveTarget? cs = some t ↔
    ∃ rest, Directive (';' :: cs) rest ∧ t = Text.trim (Text.beforeDouble ':' rest) := by
  constructor
  · intro h
    obtain ⟨hd, rest, heq⟩ := exists_heading h
    have htarget := hd.directiveTarget?_eq rest
    rw [← heq, List.tail_cons, h] at htarget
    split at htarget
    · cases htarget
    · next hline => exact ⟨rest, ⟨⟨hd, heq⟩, hline⟩, Option.some.inj htarget⟩
  · rintro ⟨rest, ⟨⟨hd, heq⟩, hline⟩, rfl⟩
    have htarget := hd.directiveTarget?_eq rest
    rwa [← heq, List.tail_cons, if_neg hline] at htarget

section

variable {line : String}

theorem classify_eq_inclusion_iff (h : line.toList.head? = some ';') (target : String) :
    classify line = inclusion target ↔ ∃ rest before behind, Directive line.toList rest ∧
      Text.CutAtDoubles ':' rest (before :: behind) ∧ target.toList = Text.trim before := by
  obtain ⟨r, hr⟩ := List.head?_eq_some_iff.mp h
  have hclassify : classify line = inclusion target ↔
      directiveTarget? r = some target.toList := by
    rw [classify_of_semicolon hr]
    cases directiveTarget? r with
    | none => exact iff_of_false nofun nofun
    | some t =>
      simp only [Option.map_some, Option.getD_some, inclusion.injEq, Option.some.injEq]
      rw [← String.toList_inj, String.toList_ofList]
  rw [hclassify, directiveTarget?_eq_some_iff, ← hr]
  constructor
  · rintro ⟨rest, hrest, htarget⟩
    obtain ⟨behind, hcut⟩ := Text.beforeDouble_eq_iff.mp rfl
    exact ⟨rest, _, behind, hrest, hcut, htarget⟩
  · rintro ⟨rest, before, behind, hrest, hcut, htarget⟩
    exact ⟨rest, hrest, htarget.trans (by rw [Text.beforeDouble_eq_iff.mpr ⟨behind, hcut⟩])⟩

theorem classify_eq_comment_iff (h : line.toList.head? = some ';') :
    classify line = comment ↔ ¬ ∃ rest, Directive line.toList rest := by
  obtain ⟨r, hr⟩ := List.head?_eq_some_iff.mp h
  have hnone : classify line = comment ↔ directiveTarget? r = none := by
    rw [classify_of_semicolon hr]
    cases directiveTarget? r with
    | none => exact iff_of_true rfl rfl
    | some t => exact iff_of_false nofun nofun
  rw [hnone, Option.eq_none_iff_forall_ne_some, hr]
  constructor
  · rintro hno ⟨rest, hrest⟩
    exact hno _ (directiveTarget?_eq_some_iff.mpr ⟨rest, hrest, rfl⟩)
  · intro hno t ht
    obtain ⟨rest, hrest, -⟩ := directiveTarget?_eq_some_iff.mp ht
    exact hno ⟨rest, hrest⟩

end

/-! ### What is written -/

/-- How a target is written in a directive: the heading, blanks on both sides of the target, and
what stands behind a second `::`, if there is one. -/
structure Writing where
  heading : Heading
  front : List Char
  back : List Char
  note : Option (List Char)
  front_blank : ∀ c ∈ front, Text.isBlank c
  back_blank : ∀ c ∈ back, Text.isBlank c

namespace Writing

variable {w : Writing} {target : List Char}

/-- The second `::` and all behind it. -/
def tail (w : Writing) : List Char := w.note.elim [] fun note => ':' :: ':' :: note

/-- What stands behind the first `::`. -/
def rest (w : Writing) (target : List Char) : List Char :=
  w.front ++ target ++ w.back ++ w.tail

def line (w : Writing) (target : String) : String :=
  String.ofList (w.heading.chars ++ w.rest target.toList)

/-- No newline is written behind the first `::`. -/
def OneLine (w : Writing) : Prop := '\n' ∉ w.front ∧ '\n' ∉ w.back ∧ '\n' ∉ w.tail

/-- The second `::` stands right behind a `:` that ends the target. -/
def Abuts (w : Writing) (target : List Char) : Prop :=
  w.note ≠ none ∧ w.back = [] ∧ target.getLast? = some ':'

theorem classify_line (w : Writing) (target : String) :
    classify (w.line target) = if '\n' ∈ w.rest target.toList then comment
      else inclusion (String.ofList (Text.trim (Text.beforeDouble ':' (w.rest target.toList)))) :=
  w.heading.classify_eq _

theorem newline_mem_rest_iff (h : '\n' ∉ target) : '\n' ∈ w.rest target ↔ ¬ w.OneLine := by
  unfold rest OneLine
  simp only [List.mem_append, h, or_false, or_assoc, not_and_or, not_not]

theorem colon_not_mem_front (w : Writing) : ':' ∉ w.front := fun h =>
  absurd (w.front_blank _ h) (by decide)

theorem colon_not_mem_back (w : Writing) : ':' ∉ w.back := fun h =>
  absurd (w.back_blank _ h) (by decide)

theorem single_spaced (h : Text.Single ':' target) :
    Text.Single ':' (w.front ++ target ++ w.back) := by
  rwa [Text.single_append_right w.colon_not_mem_back, Text.single_append_left w.colon_not_mem_front]

/-- The only `:` that a target between its blanks can end in is its own. -/
theorem getLast?_spaced (h : (w.front ++ target ++ w.back).getLast? = some ':') :
    w.back = [] ∧ target.getLast? = some ':' := by
  rw [List.getLast?_append, List.getLast?_append, Option.or_eq_some_iff,
    Option.or_eq_some_iff] at h
  rcases h with hback | ⟨hback, htarget | ⟨-, hfront⟩⟩
  · exact absurd (List.mem_of_getLast? hback) w.colon_not_mem_back
  · exact ⟨List.getLast?_eq_none_iff.mp hback, htarget⟩
  · exact absurd (List.mem_of_getLast? hfront) w.colon_not_mem_front

theorem beforeDouble_rest (h : Text.Single ':' target) (happart : ¬ w.Abuts target) :
    Text.beforeDouble ':' (w.rest target) = w.front ++ target ++ w.back := by
  unfold rest tail
  cases hnote : w.note with
  | none => exact (List.append_nil _).symm ▸ Text.beforeDouble_of_single (single_spaced h)
  | some note =>
    refine Text.beforeDouble_append (single_spaced h) (fun hlast => happart ?_) note
    exact ⟨hnote ▸ Option.some_ne_none note, getLast?_spaced hlast⟩

/-- The `:` at the end of the target is read as the start of the `::` behind it. -/
theorem beforeDouble_rest_of_abuts (h : Text.Single ':' target) (habuts : w.Abuts target) :
    Text.beforeDouble ':' (w.rest target) = w.front ++ target.dropLast := by
  obtain ⟨hnote, hback, hlast⟩ := habuts
  obtain ⟨note, hnote⟩ := Option.ne_none_iff_exists'.mp hnote
  obtain ⟨q, rfl⟩ := List.getLast?_eq_some_iff.mp hlast
  obtain ⟨hsingle, hend⟩ := Text.single_of_append_singleton h
  have hrest : w.rest (q ++ [':']) = w.front ++ q ++ ':' :: ':' :: (':' :: note) := by
    simp only [rest, tail, hnote, hback, Option.elim_some, List.append_assoc, List.append_nil,
      List.singleton_append]
  rw [hrest, List.dropLast_concat]
  refine Text.beforeDouble_append ?_ (fun hfront => ?_) _
  · rwa [Text.single_append_left w.colon_not_mem_front]
  · rw [List.getLast?_append, Option.or_eq_some_iff] at hfront
    rcases hfront with hq | ⟨-, hfront⟩
    · exact hend hq
    · exact w.colon_not_mem_front (List.mem_of_getLast? hfront)

theorem trim_rest_eq_iff (htrimmed : Text.Trimmed target) (h : Text.Single ':' target) :
    Text.trim (Text.beforeDouble ':' (w.rest target)) = target ↔ ¬ w.Abuts target := by
  constructor
  · intro htrim habuts
    rw [beforeDouble_rest_of_abuts h habuts, Text.trim_blanks_append w.front_blank] at htrim
    have hle := Text.length_trim_le target.dropLast
    have hpos := List.length_pos_of_mem (List.mem_of_getLast? habuts.2.2)
    rw [htrim, List.length_dropLast] at hle
    omega
  · intro hapart
    rw [beforeDouble_rest h hapart]
    exact Text.trim_of_spaced htrimmed ⟨w.front, w.back, w.front_blank, w.back_blank, rfl⟩

theorem reads_back_iff {target : String} (htrimmed : Text.Trimmed target.toList)
    (hsingle : Text.Single ':' target.toList) (hline : '\n' ∉ target.toList) (w : Writing) :
    classify (w.line target) = inclusion target ↔ w.OneLine ∧ ¬ w.Abuts target.toList := by
  rw [classify_line, ← trim_rest_eq_iff htrimmed hsingle]
  split
  · next hnl => exact iff_of_false nofun fun h => (newline_mem_rest_iff hline).mp hnl h.1
  · next hnl =>
    rw [newline_mem_rest_iff hline, not_not] at hnl
    rw [inclusion.injEq, ← String.toList_inj, String.toList_ofList]
    exact (and_iff_right hnl).symm

end Writing

/-- A line that starts with `;` names a target just if it is a directive, namely what stands before
the first `::` of its rest; all other such lines are comments. The directives and their rests are
what the pattern captures. A target that is written in a directive is read back just if no newline
is written behind the first `::`, and no second `::` right behind a `:` that ends the target. -/
theorem directives_recognised_exactly :
    (∀ line : String, line.toList.head? = some ';' →
      (∀ target, classify line = inclusion target ↔ ∃ rest before behind,
        Directive line.toList rest ∧ Text.CutAtDoubles ':' rest (before :: behind) ∧
          target.toList = Text.trim before) ∧
      (classify line = comment ↔ ¬ ∃ rest, Directive line.toList rest) ∧
      ∀ rest, Directive line.toList rest ↔ Captures line.toList rest) ∧
    ∀ (target : String) (w : Writing), Text.Trimmed target.toList →
      Text.Single ':' target.toList → '\n' ∉ target.toList →
        (classify (w.line target) = inclusion target ↔ w.OneLine ∧ ¬ w.Abuts target.toList) :=
  ⟨fun _ h => ⟨classify_eq_inclusion_iff h, classify_eq_comment_iff h,
    fun _ => captures_iff_directive.symm⟩,
    fun _ w htrimmed hsingle hline => w.reads_back_iff htrimmed hsingle hline⟩

/-- A directive with a newline and wide blanks in it, and a target that starts with a `:`. -/
theorem directives_recognised_exactly_spaced :
    let line := ";\u3000InClUdE\n::\u2003:a:b.run\t::x::y"
    let target := ":a:b.run"
    (line.toList.head? = some ';' ∧ classify line = inclusion target ∧
      ∃ rest before behind, Directive line.toList rest ∧
        Text.CutAtDoubles ':' rest (before :: behind) ∧ target.toList = Text.trim before) ∧
    Text.Trimmed target.toList ∧ Text.Single ':' target.toList ∧ '\n' ∉ target.toList ∧
      ∃ w : Writing, w.line target = line ∧ w.OneLine ∧ ¬ w.Abuts target.toList := by
  intro line target
  obtain ⟨hrecognised, hread⟩ := directives_recognised_exactly
  let h : Heading :=
    { lead := ['\u3000']
      word := "InClUdE".toList
      gap := ['\n']
      lead_blank := List.forall_mem_singleton.mpr rfl
      word_eq := by decide
      gap_blank := List.forall_mem_singleton.mpr rfl }
  let w : Writing :=
    { heading := h
      front := ['\u2003']
      back := ['\t']
      note := some "x::y".toList
      front_blank := List.forall_mem_singleton.mpr rfl
      back_blank := List.forall_mem_singleton.mpr rfl }
  have hhead : line.toList.head? = some ';' := by decide
  have hw : w.line target = line := by decide
  have hone : w.OneLine := ⟨by decide, by decide, by decide⟩
  have hapart : ¬ w.Abuts target.toList := fun h => absurd h.2.1 (by decide)
  have htrimmed : Text.Trimmed target.toList := by
    have htrim : Text.trim target.toList = target.toList := by decide
    exact htrim ▸ Text.trim_trimmed _
  have hsingle : Text.Single ':' target.toList := by decide
  have hline : '\n' ∉ target.toList := by decide
  have hclassify : classify line = inclusion target :=
    hw ▸ (hread target w htrimmed hsingle hline).mpr ⟨hone, hapart⟩
  exact ⟨⟨hhead, hclassify, ((hrecognised line hhead).1 target).mp hclassify⟩, htrimmed, hsingle,
    hline, w, hw, hone, hapart⟩

/-- Three ways of writing a target that is not read back: with a second `::` right behind the `:`
that ends it, with a newline behind the second `::`, and with a newline before the target. -/
theorem target_not_read_back :
    (Text.Trimmed "a:".toList ∧ Text.Single ':' "a:".toList ∧ '\n' ∉ "a:".toList) ∧
    (Text.Trimmed "a".toList ∧ Text.Single ':' "a".toList ∧ '\n' ∉ "a".toList) ∧
    (∃ w : Writing, w.line "a:" = ";INCLUDE::a:::x" ∧ classify (w.line "a:") = inclusion "a") ∧
    (∃ w : Writing, w.line "a" = ";INCLUDE::a::x\ny" ∧ classify (w.line "a") = comment) ∧
    ∃ w : Writing, w.line "a" = ";INCLUDE::\na" ∧ classify (w.line "a") = comment := by
  let h : Heading := ⟨[], "INCLUDE".toList, [], nofun, rfl, nofun⟩
  have hcolon : Text.trim "a:".toList = "a:".toList := by decide
  have hletter : Text.trim "a".toList = "a".toList := by decide
  refine ⟨⟨hcolon ▸ Text.trim_trimmed _, by decide, by decide⟩,
    ⟨hletter ▸ Text.trim_trimmed _, by decide, by decide⟩,
    ⟨⟨h, [], [], some ['x'], nofun, nofun⟩, by decide, by decide⟩,
    ⟨⟨h, [], [], some "x\ny".toList, nofun, nofun⟩, by decide, by decide⟩,
    ⟨⟨h, ['\n'], [], none, List.forall_mem_singleton.mpr rfl, nofun⟩, by decide, by decide⟩⟩

end StepRunner.RunFile.Line
