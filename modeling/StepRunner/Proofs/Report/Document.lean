import Mathlib.Data.List.Basic
import StepRunner.Proofs.Text.Split
import StepRunner.Report.Json

/-!
# Reading a document

A reader for as much of JSON as reports are written in: no numbers but natural ones, and no escapes
for halves of characters. It takes blanks between the parts of a document as they come, and a
document that is rendered reads back as it was (`read?_render`).
-/

namespace StepRunner.Report.Document

/-! ### The reader -/

def isBlank (c : Char) : Bool := c = ' ' || c = '\n' || c = '\r' || c = '\t'

/-- The characters behind the blanks at the beginning. -/
def skipBlanks (cs : List Char) : List Char := cs.dropWhile isBlank

def hexValue? (c : Char) : Option Nat :=
  if '0' ≤ c ∧ c ≤ '9' then some (c.toNat - 48)
  else if 'a' ≤ c ∧ c ≤ 'f' then some (c.toNat - 87)
  else if 'A' ≤ c ∧ c ≤ 'F' then some (c.toNat - 55)
  else none

/-- The character that stands behind a backslash. -/
def unescape? : Char → Option Char
  | '"' => some '"'
  | '\\' => some '\\'
  | '/' => some '/'
  | 'n' => some '\n'
  | 'r' => some '\r'
  | 't' => some '\t'
  | 'b' => some '\x08'
  | 'f' => some '\x0c'
  | _ => none

/-- The text up to the closing quote and what stands behind that. -/
def quoted? : List Char → Option (List Char × List Char)
  | [] => none
  | '"' :: r => some ([], r)
  | '\\' :: 'u' :: a :: b :: c :: d :: r => do
    let high := 16 * (← hexValue? a) + (← hexValue? b)
    let code := 256 * high + 16 * (← hexValue? c) + (← hexValue? d)
    if code.isValidChar then (quoted? r).map fun p => (Char.ofNat code :: p.1, p.2) else none
  | '\\' :: c :: r => do
    let c ← unescape? c
    (quoted? r).map fun p => (c :: p.1, p.2)
  | c :: r => if c.toNat < 32 then none else (quoted? r).map fun p => (c :: p.1, p.2)

/-- The key of a field, with the colon. -/
def key? (cs : List Char) : Option (String × List Char) :=
  match skipBlanks cs with
  | '"' :: r => do
    let (key, r) ← quoted? r
    match skipBlanks r with
    | ':' :: r => some (String.ofList key, r)
    | _ => none
  | _ => none

/-- A word or a number. -/
def atom? : List Char → Option (Document × List Char)
  | 'n' :: 'u' :: 'l' :: 'l' :: r => some (.null, r)
  | 't' :: 'r' :: 'u' :: 'e' :: r => some (.bool true, r)
  | 'f' :: 'a' :: 'l' :: 's' :: 'e' :: r => some (.bool false, r)
  | cs =>
    let digits := cs.takeWhile Char.isDigit
    if digits = [] then none
    else some (.number (Nat.ofDigitChars 10 digits 0), cs.dropWhile Char.isDigit)

mutual

/-- The document at the beginning and what stands behind it, read in at most so many steps. -/
def value? : Nat → List Char → Option (Document × List Char)
  | 0, _ => none
  | n + 1, cs =>
    match skipBlanks cs with
    | '"' :: r => (quoted? r).map fun p => (.text (String.ofList p.1), p.2)
    | '[' :: r =>
      match skipBlanks r with
      | ']' :: r => some (.array [], r)
      | _ => (items? n r).map fun p => (.array p.1, p.2)
    | '\x7b' :: r =>
      match skipBlanks r with
      | '\x7d' :: r => some (.object [], r)
      | _ => (fields? n r).map fun p => (.object p.1, p.2)
    | r => atom? r

/-- The items up to a closing bracket, one at least. -/
def items? : Nat → List Char → Option (List Document × List Char)
  | 0, _ => none
  | n + 1, cs => do
    let (d, r) ← value? n cs
    match skipBlanks r with
    | ',' :: r => (items? n r).map fun p => (d :: p.1, p.2)
    | ']' :: r => some ([d], r)
    | _ => none

/-- The fields up to a closing brace, one at least. -/
def fields? : Nat → List Char → Option (List (String × Document) × List Char)
  | 0, _ => none
  | n + 1, cs => do
    let (key, r) ← key? cs
    let (d, r) ← value? n r
    match skipBlanks r with
    | ',' :: r => (fields? n r).map fun p => ((key, d) :: p.1, p.2)
    | '\x7d' :: r => some ([(key, d)], r)
    | _ => none

end

/-- The document a text holds. No step reads less than a character. -/
def read? (s : String) : Option Document :=
  match value? s.toList.length s.toList with
  | some (d, r) => if skipBlanks r = [] then some d else none
  | none => none

/-! ### Texts -/

theorem hexValue?_hexDigit : ∀ n < 16, hexValue? (hexDigit n) = some n := by decide

theorem quoted?_control {c : Char} (hc : c.toNat < 32) (r : List Char) :
    quoted? ('\\' :: 'u' :: '0' :: '0' :: hexDigit (c.toNat / 16) :: hexDigit (c.toNat % 16) :: r) =
      (quoted? r).map fun p => (c :: p.1, p.2) := by
  have hhigh := hexValue?_hexDigit (c.toNat / 16) (by omega)
  have hlow := hexValue?_hexDigit (c.toNat % 16) (by omega)
  have hzero : hexValue? '0' = some 0 := by decide
  have hcode : 256 * (16 * 0 + 0) + 16 * (c.toNat / 16) + c.toNat % 16 = c.toNat := by omega
  rw [quoted?]
  simp only [hhigh, hlow, hzero, Option.bind_eq_bind, Option.bind_some, hcode]
  have hvalid : c.toNat.isValidChar := c.valid
  rw [if_pos hvalid, Char.ofNat_toNat]

theorem quoted?_escape (c : Char) (r : List Char) :
    quoted? (escape c ++ r) = (quoted? r).map fun p => (c :: p.1, p.2) := by
  unfold escape
  split
  · rfl
  · rfl
  · rfl
  · rfl
  · rfl
  · rfl
  · rfl
  · next hquote hslash _ _ _ _ _ =>
    split
    · next hc => exact quoted?_control hc r
    · next hc =>
      rw [List.singleton_append, quoted?, if_neg hc]
      · exact hquote
      · exact fun _ _ _ _ _ h => (hslash h).elim
      · exact fun _ _ h => (hslash h).elim

theorem quoted?_flatMap_escape (cs r : List Char) :
    quoted? (cs.flatMap escape ++ '"' :: r) = some (cs, r) := by
  induction cs with
  | nil => rfl
  | cons c cs ih => rw [List.flatMap_cons, List.append_assoc, quoted?_escape, ih, Option.map_some]

theorem toList_quote (s : String) :
    (quote s).toList = '"' :: (s.toList.flatMap escape ++ ['"']) := by
  rw [quote, String.toList_ofList, List.cons_append]

/-! ### Numbers -/

/-- No number goes on in these characters. -/
def EndsNumber (cs : List Char) : Prop := ∀ c ∈ cs.head?, c.isDigit = false

theorem EndsNumber.span {digits cs : List Char} (hcs : EndsNumber cs)
    (hdigits : ∀ c ∈ digits, c.isDigit = true) :
    (digits ++ cs).takeWhile Char.isDigit = digits ∧
      (digits ++ cs).dropWhile Char.isDigit = cs := by
  rw [List.takeWhile_append_of_pos hdigits, List.dropWhile_append_of_pos hdigits]
  cases cs with
  | nil => simp
  | cons c cs =>
    have hc : c.isDigit = false := hcs c rfl
    simp [hc]

theorem atom?_number (n : Nat) {cs : List Char} (hcs : EndsNumber cs) :
    atom? ((toString n).toList ++ cs) = some (.number n, cs) := by
  rw [Nat.toString_eq_ofList_toDigits, String.toList_ofList]
  have hdigits : ∀ c ∈ Nat.toDigits 10 n, c.isDigit = true := fun c hc =>
    Nat.isDigit_of_mem_toDigits (by omega) (by omega) hc
  obtain ⟨htake, hdrop⟩ := hcs.span hdigits
  have hne : Nat.toDigits 10 n ≠ [] := Nat.toDigits_ne_nil
  have hletter : ∀ {c r}, Nat.toDigits 10 n ++ cs = c :: r → c.isDigit = true := by
    intro c r h
    obtain ⟨d, ds, hd⟩ := List.exists_cons_of_ne_nil hne
    rw [hd, List.cons_append] at h
    obtain ⟨rfl, -⟩ := List.cons.inj h
    exact hdigits d (by rw [hd]; exact List.mem_cons_self)
  unfold atom?
  split
  · next h => exact absurd (hletter h) (by decide)
  · next h => exact absurd (hletter h) (by decide)
  · next h => exact absurd (hletter h) (by decide)
  · dsimp only
    rw [htake, hdrop, Nat.ofDigitChars_ten_toDigits, if_neg hne]

/-! ### Layout -/

/-- A new line with this many indentations. -/
def margin (depth : Nat) : List Char := ("\n" ++ "".pushn ' ' (2 * depth)).toList

theorem margin_eq (depth : Nat) : margin depth = '\n' :: List.replicate (2 * depth) ' ' := by
  have hpush : ∀ n, ("".pushn ' ' n).toList = List.replicate n ' ' := fun n => by
    rw [String.pushn_eq_repeat_push]
    induction n with
    | zero => rfl
    | succ n ih => rw [Nat.repeat, String.toList_push, ih, List.replicate_succ']
  rw [margin, String.toList_append, hpush]
  rfl

theorem length_margin (depth : Nat) : (margin depth).length = 2 * depth + 1 := by
  rw [margin_eq, List.length_cons, List.length_replicate]

theorem skipBlanks_margin (depth : Nat) (cs : List Char) :
    skipBlanks (margin depth ++ cs) = skipBlanks cs := by
  rw [margin_eq]
  refine List.dropWhile_append_of_pos fun c hc => ?_
  rcases List.mem_cons.mp hc with rfl | hc
  · rfl
  · rw [List.eq_of_mem_replicate hc]
    rfl

/-- What stands behind the first item of a bracket: the others and the closing one. -/
def moreText (closing : List Char) (depth : Nat) : List (List Char) → List Char
  | [] => margin depth ++ closing
  | cs :: more => ',' :: (margin (depth + 1) ++ (cs ++ moreText closing depth more))

theorem endsNumber_moreText (closing : List Char) (depth : Nat) (items : List (List Char))
    (cs : List Char) : EndsNumber (moreText closing depth items ++ cs) := by
  cases items with
  | nil =>
    rw [moreText, margin_eq]
    rintro c ⟨⟩
    rfl
  | cons =>
    rintro c ⟨⟩
    rfl

theorem intercalate_append (closing : List Char) (depth : Nat) (cs : List Char)
    (more : List (List Char)) :
    [','].intercalate ((cs :: more).map (margin (depth + 1) ++ ·)) ++ (margin depth ++ closing) =
      margin (depth + 1) ++ (cs ++ moreText closing depth more) := by
  induction more generalizing cs with
  | nil => rw [List.map_singleton, List.intercalate_singleton, moreText, List.append_assoc]
  | cons cs' more ih =>
    rw [List.map_cons, List.map_cons, List.intercalate_cons_cons, moreText, ← ih, List.map_cons]
    simp only [List.append_assoc, List.cons_append, List.nil_append]

theorem toList_bracket_nil (opening closing : String) (depth : Nat) :
    (bracket opening closing depth []).toList = opening.toList ++ closing.toList := by
  rw [bracket, List.isEmpty_nil, if_pos rfl, String.toList_append]

theorem toList_bracket_cons (opening closing : String) (depth : Nat) (item : String)
    (items : List String) : (bracket opening closing depth (item :: items)).toList =
      opening.toList ++ (margin (depth + 1) ++
        (item.toList ++ moreText closing.toList depth (items.map String.toList))) := by
  have hmap :
      ((item :: items).map ("\n" ++ "".pushn ' ' (2 * (depth + 1)) ++ ·)).map String.toList =
        ((item :: items).map String.toList).map (margin (depth + 1) ++ ·) := by
    rw [List.map_map, List.map_map]
    exact List.map_congr_left fun s _ => String.toList_append
  rw [bracket, List.isEmpty_cons, if_neg Bool.false_ne_true]
  dsimp only
  rw [String.toList_append, String.toList_append, String.toList_append, String.toList_intercalate,
    hmap, List.append_assoc, List.append_assoc]
  exact congrArg _ (intercalate_append closing.toList depth item.toList (items.map String.toList))

/-! ### Rendered documents -/

open render (renderItems renderFields)

theorem skipBlanks_cons {c : Char} (h : isBlank c = false) (cs : List Char) :
    skipBlanks (c :: cs) = c :: cs :=
  List.dropWhile_cons_of_neg (by simp [h])

theorem value?_of_skipBlanks {cs cs' : List Char} (h : skipBlanks cs = skipBlanks cs') (n : Nat) :
    value? n cs = value? n cs' := by
  cases n with
  | zero => simp only [value?]
  | succ n => simp only [value?, h]

theorem isBlank_of_isAlphanum {c : Char} (hc : c.isAlphanum = true) : isBlank c = false :=
  Bool.eq_false_iff.mpr fun hblank => by
    simp only [isBlank, Bool.or_eq_true, decide_eq_true_eq] at hblank
    rcases hblank with ((rfl | rfl) | rfl) | rfl <;> exact absurd hc (by decide)

theorem value?_atom {n : Nat} {c : Char} {cs : List Char} {x : Document × List Char}
    (hc : c.isAlphanum = true) (h : atom? (c :: cs) = some x) :
    value? (n + 1) (c :: cs) = some x := by
  rw [value?, skipBlanks_cons (isBlank_of_isAlphanum hc)]
  split
  · next heq => exact absurd ((List.cons.inj heq).1 ▸ hc) (by decide)
  · next heq => exact absurd ((List.cons.inj heq).1 ▸ hc) (by decide)
  · next heq => exact absurd ((List.cons.inj heq).1 ▸ hc) (by decide)
  · exact h

theorem toList_render_array_nil (depth : Nat) :
    (render depth (.array [])).toList = ['[', ']'] := by
  rw [render, renderItems, toList_bracket_nil]
  rfl

theorem toList_render_object_nil (depth : Nat) :
    (render depth (.object [])).toList = ['\x7b', '\x7d'] := by
  rw [render, renderFields, toList_bracket_nil]
  rfl

theorem toList_render_items (depth : Nat) (d : Document) (ds : List Document) :
    (render depth (.array (d :: ds))).toList = '[' :: (margin (depth + 1) ++
      ((render (depth + 1) d).toList ++
        moreText [']'] depth ((renderItems (depth + 1) ds).map String.toList))) := by
  rw [render, renderItems, toList_bracket_cons]
  rfl

/-- A field with its key. -/
def fieldText (depth : Nat) (key : String) (d : Document) : List Char :=
  '"' :: (key.toList.flatMap escape ++ '"' :: ':' :: ' ' :: (d.render depth).toList)

theorem toList_field (depth : Nat) (key : String) (d : Document) :
    (quote key ++ ": " ++ render depth d).toList = fieldText depth key d := by
  rw [fieldText, String.toList_append, String.toList_append, toList_quote]
  simp

theorem toList_render_fields (depth : Nat) (key : String) (d : Document)
    (fields : List (String × Document)) :
    (render depth (.object ((key, d) :: fields))).toList = '\x7b' :: (margin (depth + 1) ++
      (fieldText (depth + 1) key d ++
        moreText ['\x7d'] depth ((renderFields (depth + 1) fields).map String.toList))) := by
  rw [render, renderFields, toList_bracket_cons, toList_field]
  rfl

theorem toString_cons (k : Nat) : ∃ c cs, (toString k).toList = c :: cs ∧ c.isDigit = true := by
  rw [Nat.toString_eq_ofList_toDigits, String.toList_ofList]
  obtain ⟨c, cs, h⟩ := List.exists_cons_of_ne_nil (Nat.toDigits_ne_nil : Nat.toDigits 10 k ≠ [])
  have hmem : c ∈ Nat.toDigits 10 k := h ▸ List.mem_cons_self
  exact ⟨c, cs, h, Nat.isDigit_of_mem_toDigits (by decide) (by decide) hmem⟩

/-- No document begins with a blank or a closing bracket. -/
theorem render_cons (d : Document) (depth : Nat) :
    ∃ c cs, (d.render depth).toList = c :: cs ∧ isBlank c = false ∧ c ≠ ']' := by
  match d with
  | .null => exact ⟨_, _, by rw [render]; rfl, rfl, by decide⟩
  | .bool true => exact ⟨_, _, by rw [render]; rfl, rfl, by decide⟩
  | .bool false => exact ⟨_, _, by rw [render]; rfl, rfl, by decide⟩
  | .number k =>
    obtain ⟨c, cs, hcons, hdigit⟩ := toString_cons k
    have hrender : (render depth (.number k)).toList = c :: cs := by rw [render, hcons]
    have hc : c.isAlphanum = true := Bool.or_eq_true_iff.mpr (.inr hdigit)
    have hclosing : c ≠ ']' := by
      rintro rfl
      exact absurd hc (by decide)
    exact ⟨c, cs, hrender, isBlank_of_isAlphanum hc, hclosing⟩
  | .text s => exact ⟨_, _, by rw [render, toList_quote], rfl, by decide⟩
  | .array [] => exact ⟨_, _, toList_render_array_nil depth, rfl, by decide⟩
  | .array (d :: ds) => exact ⟨_, _, toList_render_items depth d ds, rfl, by decide⟩
  | .object [] => exact ⟨_, _, toList_render_object_nil depth, rfl, by decide⟩
  | .object ((key, d) :: fields) =>
    exact ⟨_, _, toList_render_fields depth key d fields, rfl, by decide⟩

theorem value?_quote (n : Nat) (cs : List Char) : value? (n + 1) ('"' :: cs) =
    (quoted? cs).map fun p => (.text (String.ofList p.1), p.2) := by
  rw [value?, skipBlanks_cons rfl]
  rfl

theorem value?_bracket (n : Nat) (cs : List Char) : value? (n + 1) ('[' :: cs) =
    match skipBlanks cs with
    | ']' :: r => some (.array [], r)
    | _ => (items? n cs).map fun p => (.array p.1, p.2) := by
  rw [value?, skipBlanks_cons rfl]
  rfl

theorem value?_brace (n : Nat) (cs : List Char) : value? (n + 1) ('\x7b' :: cs) =
    match skipBlanks cs with
    | '\x7d' :: r => some (.object [], r)
    | _ => (fields? n cs).map fun p => (.object p.1, p.2) := by
  rw [value?, skipBlanks_cons rfl]
  rfl

/-- Items that do not begin with the closing bracket. -/
theorem value?_items {n depth : Nat} {c : Char} {cs : List Char} (hblank : isBlank c = false)
    (hclosing : c ≠ ']') : value? (n + 1) ('[' :: (margin depth ++ c :: cs)) =
      (items? n (margin depth ++ c :: cs)).map fun p => (.array p.1, p.2) := by
  rw [value?_bracket, skipBlanks_margin, skipBlanks_cons hblank]
  split
  · next heq => exact absurd (List.cons.inj heq).1 hclosing
  · rfl

theorem value?_fields (n depth : Nat) (cs : List Char) :
    value? (n + 1) ('\x7b' :: (margin depth ++ '"' :: cs)) =
      (fields? n (margin depth ++ '"' :: cs)).map fun p => (.object p.1, p.2) := by
  rw [value?_brace, skipBlanks_margin, skipBlanks_cons rfl]
  rfl

theorem items?_of_value {n : Nat} {cs r : List Char} {d : Document}
    (h : value? n cs = some (d, r)) : items? (n + 1) cs =
      match skipBlanks r with
      | ',' :: r => (items? n r).map fun p => (d :: p.1, p.2)
      | ']' :: r => some ([d], r)
      | _ => none := by
  rw [items?, h]
  rfl

theorem key?_margin (depth : Nat) (key : String) (cs r : List Char) :
    key? (margin depth ++ ('"' :: (key.toList.flatMap escape ++ '"' :: ':' :: cs) ++ r)) =
      some (key, cs ++ r) := by
  have hquoted : quoted? (key.toList.flatMap escape ++ '"' :: ':' :: cs ++ r) =
      some (key.toList, ':' :: (cs ++ r)) := by
    rw [List.append_assoc]
    exact quoted?_flatMap_escape _ _
  rw [key?, skipBlanks_margin, List.cons_append, skipBlanks_cons rfl]
  show (quoted? _).bind _ = _
  rw [hquoted, Option.bind_some]
  show (match skipBlanks (':' :: (cs ++ r)) with
    | ':' :: r => some (String.ofList key.toList, r)
    | _ => none) = _
  rw [skipBlanks_cons rfl, String.ofList_toList]
  rfl

theorem fields?_of_value {n margins depth : Nat} {d : Document} {r : List Char} (key : String)
    (h : value? n ((render depth d).toList ++ r) = some (d, r)) :
    fields? (n + 1) (margin margins ++ (fieldText depth key d ++ r)) =
      match skipBlanks r with
      | ',' :: r => (fields? n r).map fun p => ((key, d) :: p.1, p.2)
      | '\x7d' :: r => some ([(key, d)], r)
      | _ => none := by
  have hvalue : value? n (' ' :: ((render depth d).toList ++ r)) = some (d, r) :=
    (value?_of_skipBlanks (List.dropWhile_cons_of_pos rfl) n).trans h
  rw [fields?, fieldText, key?_margin, Option.bind_eq_bind, Option.bind_some, List.cons_append]
  dsimp only
  rw [hvalue]
  rfl

theorem skipBlanks_closing (depth : Nat) {c : Char} (h : isBlank c = false) (cs : List Char) :
    skipBlanks (moreText [c] depth [] ++ cs) = c :: cs := by
  rw [moreText, List.append_assoc, skipBlanks_margin, List.singleton_append, skipBlanks_cons h]

/-- So many steps are enough to read back all that is rendered in so many characters. -/
structure ReadsBack (n : Nat) : Prop where
  value : ∀ d depth cs, (render depth d).toList.length ≤ n → EndsNumber cs →
    value? n ((render depth d).toList ++ cs) = some (d, cs)
  items : ∀ d ds depth cs, (render (depth + 1) d).toList.length +
      (moreText [']'] depth ((renderItems (depth + 1) ds).map String.toList)).length < n →
    items? n (margin (depth + 1) ++ ((render (depth + 1) d).toList ++
      (moreText [']'] depth ((renderItems (depth + 1) ds).map String.toList) ++ cs))) =
        some (d :: ds, cs)
  fields : ∀ key d fields depth cs, (fieldText (depth + 1) key d).length +
      (moreText ['\x7d'] depth ((renderFields (depth + 1) fields).map String.toList)).length < n →
    fields? n (margin (depth + 1) ++ (fieldText (depth + 1) key d ++
      (moreText ['\x7d'] depth ((renderFields (depth + 1) fields).map String.toList) ++ cs))) =
        some ((key, d) :: fields, cs)

namespace ReadsBack

variable {n depth : Nat} {cs : List Char}

theorem value_succ (h : ReadsBack n) {d : Document}
    (hn : (d.render depth).toList.length ≤ n + 1) (hcs : EndsNumber cs) :
    value? (n + 1) ((d.render depth).toList ++ cs) = some (d, cs) := by
  cases d with
  | null =>
    rw [render]
    exact value?_atom rfl rfl
  | bool b =>
    rw [render]
    cases b <;> exact value?_atom rfl rfl
  | number k =>
    obtain ⟨c, cs', hcons, hdigit⟩ := toString_cons k
    have hatom := atom?_number k hcs
    rw [hcons] at hatom
    rw [render, hcons]
    exact value?_atom (Bool.or_eq_true_iff.mpr (.inr hdigit)) hatom
  | text s =>
    rw [render, toList_quote, List.cons_append, List.append_assoc, value?_quote,
      List.singleton_append, quoted?_flatMap_escape, Option.map_some, String.ofList_toList]
  | array items =>
    cases items with
    | nil =>
      rw [toList_render_array_nil, List.cons_append, value?_bracket, List.singleton_append,
        skipBlanks_cons rfl]
      rfl
    | cons d ds =>
      obtain ⟨c, cs', hcons, hblank, hclosing⟩ := d.render_cons (depth + 1)
      rw [toList_render_items] at hn ⊢
      simp only [List.length_cons, List.length_append, length_margin] at hn
      have hitems := h.items d ds depth cs (by omega)
      rw [hcons] at hitems ⊢
      simp only [List.cons_append, List.append_assoc] at hitems ⊢
      rw [value?_items hblank hclosing, hitems]
      rfl
  | object fields =>
    match fields with
    | [] =>
      rw [toList_render_object_nil, List.cons_append, value?_brace, List.singleton_append,
        skipBlanks_cons rfl]
      rfl
    | (key, d) :: fields =>
      rw [toList_render_fields] at hn ⊢
      simp only [List.length_cons, List.length_append, length_margin] at hn
      have hfields := h.fields key d fields depth cs (by omega)
      rw [fieldText] at hfields ⊢
      simp only [List.cons_append, List.append_assoc] at hfields ⊢
      rw [value?_fields, hfields]
      rfl

theorem items_succ (h : ReadsBack n) (d : Document) (ds : List Document)
    (hn : (render (depth + 1) d).toList.length +
      (moreText [']'] depth ((renderItems (depth + 1) ds).map String.toList)).length < n + 1) :
    items? (n + 1) (margin (depth + 1) ++ ((render (depth + 1) d).toList ++
      (moreText [']'] depth ((renderItems (depth + 1) ds).map String.toList) ++ cs))) =
        some (d :: ds, cs) := by
  have hd := h.value d (depth + 1) _ (by omega) (endsNumber_moreText [']'] depth
    ((renderItems (depth + 1) ds).map String.toList) cs)
  rw [← value?_of_skipBlanks (skipBlanks_margin (depth + 1) _)] at hd
  rw [items?_of_value hd]
  match ds with
  | [] =>
    rw [renderItems, List.map_nil, skipBlanks_closing depth rfl]
    rfl
  | d' :: ds =>
    rw [renderItems, List.map_cons, moreText] at hn ⊢
    simp only [List.length_cons, List.length_append, length_margin] at hn
    have hitems := h.items d' ds depth cs (by omega)
    simp only [List.cons_append, List.append_assoc] at hitems ⊢
    rw [skipBlanks_cons rfl]
    show (items? n _).map _ = _
    rw [hitems]
    rfl

theorem fields_succ (h : ReadsBack n) (key : String) (d : Document)
    (fields : List (String × Document))
    (hn : (fieldText (depth + 1) key d).length + (moreText ['\x7d'] depth
      ((renderFields (depth + 1) fields).map String.toList)).length < n + 1) :
    fields? (n + 1) (margin (depth + 1) ++ (fieldText (depth + 1) key d ++
      (moreText ['\x7d'] depth ((renderFields (depth + 1) fields).map String.toList) ++ cs))) =
        some ((key, d) :: fields, cs) := by
  have hshort : (render (depth + 1) d).toList.length ≤ (fieldText (depth + 1) key d).length := by
    simp only [fieldText, List.length_cons, List.length_append]
    omega
  have hd := h.value d (depth + 1) _ (by omega) (endsNumber_moreText ['\x7d'] depth
    ((renderFields (depth + 1) fields).map String.toList) cs)
  rw [fields?_of_value key hd]
  match fields with
  | [] =>
    rw [renderFields, List.map_nil, skipBlanks_closing depth rfl]
    rfl
  | (key', d') :: fields =>
    rw [renderFields, List.map_cons, moreText, toList_field] at hn ⊢
    simp only [List.length_cons, List.length_append, length_margin] at hn
    have hfields := h.fields key' d' fields depth cs (by omega)
    simp only [List.cons_append, List.append_assoc] at hfields ⊢
    rw [skipBlanks_cons rfl]
    show (fields? n _).map _ = _
    rw [hfields]
    rfl

end ReadsBack

/-- Every step reads one character at least, so no more steps are needed than there are. -/
theorem readsBack (n : Nat) : ReadsBack n := by
  induction n with
  | zero =>
    refine ⟨fun d depth cs hn _ => ?_, fun _ _ _ _ hn => absurd hn (Nat.not_lt_zero _),
      fun _ _ _ _ _ hn => absurd hn (Nat.not_lt_zero _)⟩
    obtain ⟨c, cs', hcons, -⟩ := d.render_cons depth
    rw [hcons] at hn
    exact absurd hn (Nat.not_succ_le_zero _)
  | succ n ih =>
    exact ⟨fun _ _ _ hn hcs => ih.value_succ hn hcs, fun d ds _ _ hn => ih.items_succ d ds hn,
      fun key d fields _ _ hn => ih.fields_succ key d fields hn⟩

/-- A rendered document reads back as it was. -/
theorem read?_render (d : Document) : read? (d.render 0) = some d := by
  have hread := (readsBack _).value d 0 [] (Nat.le_refl _) nofun
  rw [List.append_nil] at hread
  rw [read?, hread]
  rfl

end StepRunner.Report.Document
