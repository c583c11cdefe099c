import StepRunner.Proofs.Text.Split
import StepRunner.Source
import StepRunner.Text.Octets
import Mathlib.Data.List.TakeWhile

/-!
# Lines of a text

`LineOf cs` is a line of the text `cs` taken apart: what stands before it, its body with the blanks
around, and what stands behind it. What is left of a piece between newlines when it is trimmed is the
body of such a line (`exists_lineOf`). `Source.Shows` lists what a reader of a span relies on; the
span of a line shows its body (`Text.LineOf.shows`).
-/

namespace StepRunner

namespace Text

/-! ### Trimming -/

theorem trimEnd_append (cs : List Char) :
    trimEnd cs ++ (cs.reverse.takeWhile isBlank).reverse = cs := by
  unfold trimEnd
  rw [← List.reverse_append, List.takeWhile_append_dropWhile, List.reverse_reverse]

/-- Trimming takes blanks away at both ends. -/
theorem takeWhile_trim_append (cs : List Char) :
    cs.takeWhile isBlank ++ trim cs ++ ((trimStart cs).reverse.takeWhile isBlank).reverse = cs := by
  unfold trim
  rw [List.append_assoc, trimEnd_append, trimStart, List.takeWhile_append_dropWhile]

theorem not_isBlank_of_head?_dropWhile {cs : List Char} {c : Char}
    (h : (cs.dropWhile isBlank).head? = some c) : isBlank c = false := by
  have hhead := List.head?_dropWhile_not isBlank cs
  rw [h] at hhead
  exact hhead

theorem not_isBlank_of_head?_trim {cs : List Char} {c : Char} (h : (trim cs).head? = some c) :
    isBlank c = false := by
  have hfront : trim cs ++ ((trimStart cs).reverse.takeWhile isBlank).reverse = trimStart cs :=
    trimEnd_append _
  have hhead : (cs.dropWhile isBlank).head? = some c := by
    rw [← trimStart, ← hfront, List.head?_append, h, Option.some_or]
  exact not_isBlank_of_head?_dropWhile hhead

theorem not_isBlank_of_getLast?_trim {cs : List Char} {c : Char}
    (h : (trim cs).getLast? = some c) : isBlank c = false := by
  unfold trim trimEnd at h
  rw [List.getLast?_reverse] at h
  exact not_isBlank_of_head?_dropWhile h

/-! ### Bytes -/

theorem utf8ByteSize_ofList (cs : List Char) : (String.ofList cs).utf8ByteSize = byteLength cs := by
  induction cs with
  | nil => rfl
  | cons c r ih =>
    rw [String.ofList_cons, String.utf8ByteSize_append, String.utf8ByteSize_singleton, ih,
      byteLength_cons]

theorem utf8ByteSize_eq (s : String) : s.utf8ByteSize = byteLength s.toList := by
  rw [← utf8ByteSize_ofList, String.ofList_toList]

theorem encode_append (as bs : List Char) : encode (as ++ bs) = encode as ++ encode bs :=
  List.flatMap_append

theorem length_encode (cs : List Char) : (encode cs).length = byteLength cs := by
  induction cs with
  | nil => rfl
  | cons c r ih =>
    rw [encode, List.flatMap_cons, List.length_append, String.length_utf8EncodeChar,
      byteLength_cons, ← ih, encode]

theorem newline_ne_ofNat {n : Nat} (h : n < 256) (hn : n ≠ 10) :
    (0x0A : UInt8) ≠ UInt8.ofNat n := by
  intro he
  have hnat := congrArg UInt8.toNat he
  rw [UInt8.toNat_ofNat_of_lt' h] at hnat
  exact hn hnat.symm

/-- The byte of a newline is part of no other character. -/
theorem count_newline_utf8EncodeChar (c : Char) :
    (String.utf8EncodeChar c).count 0x0A = if c = '\n' then 1 else 0 := by
  by_cases hc : c = '\n'
  · subst hc
    decide
  have hne : c.val.toNat ≠ 10 := fun he => hc (Char.ext (UInt32.toNat_inj.mp he))
  rw [if_neg hc, List.count_eq_zero]
  unfold String.utf8EncodeChar
  intro hmem
  dsimp only at hmem
  -- A character of one byte is that byte; in longer ones all bytes are above 127.
  split at hmem
  · exact newline_ne_ofNat (by omega) hne (List.mem_singleton.mp hmem)
  · repeat' split at hmem
    all_goals
      simp only [List.mem_cons, List.not_mem_nil, or_false] at hmem
      repeat' rcases hmem with hmem | hmem
      all_goals exact newline_ne_ofNat (by omega) (by omega) hmem

theorem count_newline_encode (cs : List Char) : (encode cs).count 0x0A = cs.count '\n' := by
  induction cs with
  | nil => rfl
  | cons c r ih =>
    rw [encode, List.flatMap_cons, List.count_append, count_newline_utf8EncodeChar, ← encode, ih,
      List.count_cons, Nat.add_comm]
    simp only [beq_iff_eq]

/-! ### Pieces between newlines -/

section

variable {sep : Char} {cs p : List Char} {front back : List (List Char)}

theorem flatMap_splitAt (sep : Char) (cs : List Char) :
    (splitAt sep cs).flatMap (sep :: ·) = sep :: cs := by
  induction cs with
  | nil => rfl
  | cons c r ih =>
    by_cases hc : c = sep
    · rw [splitAt, if_pos hc, List.flatMap_cons, ih, hc]
      rfl
    · obtain ⟨q, qs, hr, hcons⟩ := splitAt_cons_of_ne hc r
      rw [hr, List.flatMap_cons, List.cons_append] at ih
      have hrest : q ++ qs.flatMap (sep :: ·) = r := (List.cons.inj ih).2
      rw [hcons, List.flatMap_cons, List.cons_append, List.cons_append, hrest]

theorem flatMap_append_singleton (sep : Char) (ps : List (List Char)) :
    ps.flatMap (sep :: ·) ++ [sep] = sep :: ps.flatMap (· ++ [sep]) := by
  induction ps with
  | nil => rfl
  | cons q qs ih =>
    rw [List.flatMap_cons, List.flatMap_cons, List.append_assoc, ih, List.cons_append,
      List.append_assoc, List.singleton_append]

/-- A text is what stands before one of its pieces, the piece, and what stands behind it. -/
theorem eq_append_of_splitAt (h : splitAt sep cs = front ++ p :: back) :
    cs = front.flatMap (· ++ [sep]) ++ p ++ back.flatMap (sep :: ·) := by
  have hall := flatMap_splitAt sep cs
  rw [h, List.flatMap_append, List.flatMap_cons, List.cons_append, ← List.singleton_append,
    ← List.append_assoc, flatMap_append_singleton, List.cons_append] at hall
  rw [← (List.cons.inj hall).2, List.append_assoc]

theorem getLast?_flatMap_append_singleton (sep : Char) (ps : List (List Char)) :
    ps.flatMap (· ++ [sep]) = [] ∨ (ps.flatMap (· ++ [sep])).getLast? = some sep := by
  induction ps with
  | nil => exact .inl rfl
  | cons q qs ih =>
    right
    rw [List.flatMap_cons, List.append_assoc, List.getLast?_append]
    rcases ih with hnil | hlast
    · rw [hnil, List.append_nil]
      rfl
    · rw [List.getLast?_append, hlast]
      rfl

theorem count_flatMap_append_singleton (h : ∀ q ∈ front, sep ∉ q) :
    (front.flatMap (· ++ [sep])).count sep = front.length := by
  induction front with
  | nil => rfl
  | cons q qs ih =>
    have hq : q.count sep = 0 := List.count_eq_zero.mpr (h q List.mem_cons_self)
    rw [List.flatMap_cons, List.count_append, List.count_append, hq,
      ih fun q hq => h q (List.mem_cons_of_mem _ hq), List.count_singleton_self, List.length_cons]
    omega

end

/-! ### Lines -/

/-- A line of a text that is not blank, taken apart. -/
structure LineOf (cs : List Char) where
  before : List Char
  lead : List Char
  body : List Char
  trail : List Char
  behind : List Char
  eq : cs = before ++ (lead ++ body ++ trail) ++ behind
  /-- It starts the text or stands behind a newline. -/
  starts : before = [] ∨ before.getLast? = some '\n'
  /-- It ends the text or stands before a newline. -/
  ends : behind = [] ∨ behind.head? = some '\n'
  single : '\n' ∉ lead ++ body ++ trail
  blank : ∀ c ∈ lead ++ trail, isBlank c = true
  body_ne_nil : body ≠ []
  not_isBlank_head : ∀ c, body.head? = some c → isBlank c = false
  not_isBlank_getLast : ∀ c, body.getLast? = some c → isBlank c = false

namespace LineOf

variable {cs : List Char}

/-- The bytes of the body. -/
def span (l : LineOf cs) : Span :=
  ⟨byteLength (l.before ++ l.lead), byteLength (l.before ++ l.lead ++ l.body)⟩

/-- Counted from 1. -/
def number (l : LineOf cs) : Nat := l.before.count '\n' + 1

theorem eq_body_append (l : LineOf cs) :
    cs = (l.before ++ l.lead) ++ (l.body ++ (l.trail ++ l.behind)) :=
  l.eq.trans (by simp only [List.append_assoc])

/-- The newlines before a line are counted in bytes. -/
theorem count_newline (l : LineOf cs) :
    l.number = 1 + ((encode cs).take l.span.start).count 0x0A := by
  have hlead : '\n' ∉ l.lead := fun hmem =>
    l.single (List.mem_append_left _ (List.mem_append_left _ hmem))
  have htake : (encode cs).take l.span.start = encode (l.before ++ l.lead) := by
    have hlen : (encode (l.before ++ l.lead)).length = l.span.start := length_encode _
    have hall := (congrArg encode l.eq_body_append).trans (encode_append _ _)
    rw [hall, List.take_left' hlen]
  rw [htake, count_newline_encode, List.count_append, List.count_eq_zero.mpr hlead, number]
  omega

end LineOf

theorem exists_lineOf {cs p : List Char} {front back : List (List Char)}
    (h : splitAt '\n' cs = front ++ p :: back) (hp : trim p ≠ []) :
    ∃ l : LineOf cs, l.body = trim p ∧ l.number = front.length + 1 ∧
      l.span.start = byteLength (front.flatMap (· ++ ['\n'])) +
        byteLength (p.takeWhile isBlank) ∧
      l.span.stop = l.span.start + byteLength (trim p) := by
  have hpieces : ∀ q ∈ front ++ p :: back, '\n' ∉ q := fun q hq =>
    not_mem_of_mem_splitAt (h ▸ hq)
  have hline := takeWhile_trim_append p
  refine ⟨{
    before := front.flatMap (· ++ ['\n'])
    lead := p.takeWhile isBlank
    body := trim p
    trail := ((trimStart p).reverse.takeWhile isBlank).reverse
    behind := back.flatMap ('\n' :: ·)
    eq := by rw [hline]; exact eq_append_of_splitAt h
    starts := getLast?_flatMap_append_singleton '\n' front
    ends := by
      cases back with
      | nil => exact .inl rfl
      | cons => exact .inr rfl
    single := by rw [hline]; exact hpieces p (by simp)
    blank := fun c hc => by
      rw [List.mem_append, List.mem_reverse] at hc
      rcases hc with hc | hc <;> exact List.mem_takeWhile_imp hc
    body_ne_nil := hp
    not_isBlank_head := fun c hc => not_isBlank_of_head?_trim hc
    not_isBlank_getLast := fun c hc => not_isBlank_of_getLast?_trim hc }, rfl, ?_, ?_, ?_⟩
  · have hfront : ∀ q ∈ front, '\n' ∉ q := fun q hq => hpieces q (List.mem_append_left _ hq)
    rw [LineOf.number, count_flatMap_append_singleton hfront]
  · exact byteLength_append _ _
  · exact byteLength_append _ _

end Text

/-! ### What a span shows -/

/-- Under the span stands one whole line of the source, but for the blanks around it. -/
structure Source.Shows (s : Source) (sp : Span) (line : String) : Prop where
  start_lt_stop : sp.start < sp.stop
  stop_le : sp.stop ≤ s.text.utf8ByteSize
  /-- Both ends stand between two characters. -/
  start_isValid : (⟨sp.start⟩ : String.Pos.Raw).IsValid s.text
  stop_isValid : (⟨sp.stop⟩ : String.Pos.Raw).IsValid s.text
  slice : s.slice? sp = some line
  ne_empty : line ≠ ""
  not_isBlank_head : ∀ c, line.toList.head? = some c → Text.isBlank c = false
  not_isBlank_getLast : ∀ c, line.toList.getLast? = some c → Text.isBlank c = false
  whole : ∃ l : Text.LineOf s.text.toList, l.span = sp ∧ l.body = line.toList

theorem isValid_of_append {s : String} {as bs : List Char} (h : s.toList = as ++ bs) :
    (⟨Text.byteLength as⟩ : String.Pos.Raw).IsValid s := by
  rw [String.Pos.Raw.isValid_iff_exists_append]
  refine ⟨String.ofList as, String.ofList bs, ?_, ?_⟩
  · rw [← String.ofList_append, ← h, String.ofList_toList]
  · rw [String.rawEndPos, Text.utf8ByteSize_ofList]

theorem Source.slice?_of_append {s : Source} {as bs cs : List Char}
    (h : s.text.toList = as ++ (bs ++ cs)) :
    s.slice? ⟨Text.byteLength as, Text.byteLength (as ++ bs)⟩ = some (String.ofList bs) := by
  have hle : Text.byteLength as ≤ Text.byteLength (as ++ bs) := by
    rw [Text.byteLength_append]
    omega
  have hlen : Text.byteLength (as ++ bs) - Text.byteLength as = Text.byteLength bs := by
    rw [Text.byteLength_append]
    omega
  unfold slice?
  rw [if_pos hle, h, Text.takeBytes?_append, hlen]
  dsimp only [bind, Option.bind]
  rw [Text.takeBytes?_append]
  rfl

theorem Text.LineOf.shows {s : Source} (l : LineOf s.text.toList) :
    s.Shows l.span (String.ofList l.body) := by
  have heq := l.eq_body_append
  have heq' : s.text.toList = (l.before ++ l.lead ++ l.body) ++ (l.trail ++ l.behind) :=
    heq.trans (List.append_assoc _ _ _).symm
  have hpos : 0 < byteLength l.body := by
    obtain ⟨c, r, hbody⟩ := List.exists_cons_of_ne_nil l.body_ne_nil
    have hc := c.utf8Size_pos
    rw [hbody, byteLength_cons]
    omega
  have hsize : s.text.utf8ByteSize =
      byteLength ((l.before ++ l.lead) ++ (l.body ++ (l.trail ++ l.behind))) :=
    (utf8ByteSize_eq _).trans (congrArg byteLength heq)
  refine {
    start_lt_stop := ?_
    stop_le := ?_
    start_isValid := isValid_of_append heq
    stop_isValid := isValid_of_append heq'
    slice := Source.slice?_of_append heq
    ne_empty := ?_
    not_isBlank_head := ?_
    not_isBlank_getLast := ?_
    whole := ⟨l, rfl, String.toList_ofList.symm⟩ }
  · unfold span
    simp only [byteLength_append]
    omega
  · rw [hsize]
    unfold span
    simp only [byteLength_append]
    omega
  · rw [ne_eq, ← String.toList_inj, String.toList_ofList]
    exact l.body_ne_nil
  · rw [String.toList_ofList]
    exact l.not_isBlank_head
  · rw [String.toList_ofList]
    exact l.not_isBlank_getLast

end StepRunner
