import Mathlib.Data.List.Forall2
import StepRunner.Proofs.RunFile.Forest
import StepRunner.Proofs.Text.Double
import StepRunner.Proofs.Text.Numeral
import StepRunner.Proofs.Text.Trim
import StepRunner.Step.Compile

/-!
# What a step line says

`Says` relates the fields of a line to the step they describe, and `Refuses` to the reason why they
describe none; compiling finds the one or the other (`compile_eq_ok_iff`, `compile_eq_error_iff`).
A `Wording` is a step as it is written down; a legible one is read back (`Legible.exists_compile`).
-/

namespace StepRunner.Step

open RunFile (Instruction bind_eq_ok_iff bind_eq_error_iff)
open Text (CutAt CutAtDoubles)

variable {files : FileTree} {root : Path} {i : Instruction} {fields : List (List Char)} {s : Step}

/-- A field of a line, without the blanks around it; one that is left out is empty. -/
def field (fields : List (List Char)) (n : Nat) : List Char := Text.trim (fields.getD n [])

theorem Fields.ofText_eq {text : String} (h : CutAt ',' text.toList fields) :
    Fields.ofText text = ⟨field fields 0, field fields 1, field fields 2⟩ := by
  have hfield : ∀ n, (fields.map Text.trim).getD n [] = field fields n := fun n => by
    rw [field, List.getD_eq_getElem?_getD, List.getD_eq_getElem?_getD, List.getElem?_map]
    cases fields[n]? with
    | none => rfl
    | some f => rfl
  rw [Fields.ofText, Text.splitAt_eq_iff.mpr h]
  simp only [hfield]

/-! ### Repeat counts -/

/-- The repeat count that a field says. -/
inductive Repeats (raw : List Char) (r : UInt32) : Prop where
  | empty (h : raw = []) (hr : r = 0)
  | numeral (h : Text.IsNumeral raw) (hr : r.toNat = Text.numeralValue raw)

theorem readRepeats_of_ne_nil {raw : List Char} (h : raw ≠ []) :
    readRepeats raw = (Text.readNumeral UInt32.size raw).map Nat.toUInt32 := if_neg h

theorem readRepeats_eq_ok_iff {raw : List Char} {r : UInt32} :
    readRepeats raw = .ok r ↔ Repeats raw r := by
  constructor
  · intro h
    by_cases hraw : raw = []
    · rw [hraw] at h
      cases h
      exact .empty hraw rfl
    · rw [readRepeats_of_ne_nil hraw] at h
      cases hn : Text.readNumeral UInt32.size raw with
      | error e => rw [hn] at h; cases h
      | ok n =>
        rw [hn] at h
        cases h
        obtain ⟨hnumeral, hvalue, hlt⟩ := (Text.readNumeral_eq_ok_iff (by decide)).mp hn
        exact .numeral hnumeral (by rw [hvalue]; exact UInt32.toNat_ofNat_of_lt' hlt)
  · rintro (⟨rfl, rfl⟩ | ⟨hnumeral, hr⟩)
    · rfl
    · have hne : raw ≠ [] := by rintro rfl; exact hnumeral.1 rfl
      have hlt : r.toNat < UInt32.size := r.toNat_lt_size
      rw [readRepeats_of_ne_nil hne,
        (Text.readNumeral_eq_ok_iff (by decide)).mpr ⟨hnumeral, hr.symm, hlt⟩]
      exact congrArg Except.ok UInt32.ofNat_toNat

/-- No count is a field that is written and is no numeral, or one of a number beyond 32 bits. -/
theorem exists_readRepeats_eq_error_iff {raw : List Char} :
    (∃ cause, readRepeats raw = .error cause) ↔
      raw ≠ [] ∧ ¬ (Text.IsNumeral raw ∧ Text.numeralValue raw < UInt32.size) := by
  have hok : (∃ r, Repeats raw r) ↔
      raw = [] ∨ Text.IsNumeral raw ∧ Text.numeralValue raw < UInt32.size := by
    constructor
    · rintro ⟨r, h | ⟨h, hr⟩⟩
      · exact .inl h
      · exact .inr ⟨h, hr ▸ r.toNat_lt_size⟩
    · rintro (h | ⟨h, hlt⟩)
      · exact ⟨0, .empty h rfl⟩
      · exact ⟨UInt32.ofNat _, .numeral h (UInt32.toNat_ofNat_of_lt' hlt)⟩
  rw [← not_or, ← hok]
  cases h : readRepeats raw with
  | error cause =>
    refine ⟨fun _ hr => ?_, fun _ => ⟨cause, rfl⟩⟩
    obtain ⟨r, hr⟩ := hr
    rw [readRepeats_eq_ok_iff.mpr hr] at h
    cases h
  | ok r => exact ⟨nofun, fun hnone => absurd ⟨r, readRepeats_eq_ok_iff.mp h⟩ hnone⟩

/-! ### Configuration files -/

/-- The configuration file that a field names: the field itself, or the field in the directory of
the step. -/
inductive Configures (files : FileTree) (root : Path) (name config : String) :
    Option ConfigFile → Prop where
  | written (hne : config ≠ "") (h : files.isFile ⟨config⟩) :
      Configures files root name config (some (.path ⟨config⟩))
  | beside (hne : config ≠ "") (hwritten : ¬ files.isFile ⟨config⟩)
      (h : files.isFile ((root.join name).join config)) :
      Configures files root name config (some (.path ((root.join name).join config)))
  | none (h : config ≠ "" →
        ¬ files.isFile ⟨config⟩ ∧ ¬ files.isFile ((root.join name).join config)) :
      Configures files root name config .none

theorem findConfig_eq_iff {name config : String} {file : Option ConfigFile} :
    (findConfig files root name config).map .path = file ↔
      Configures files root name config file := by
  unfold findConfig
  by_cases hempty : config = ""
  · rw [if_pos hempty]
    constructor
    · rintro rfl
      exact .none fun hne => absurd hempty hne
    · rintro (⟨hne, -⟩ | ⟨hne, -, -⟩ | -)
      · exact absurd hempty hne
      · exact absurd hempty hne
      · rfl
  · rw [if_neg hempty, List.find?_cons]
    cases hwritten : files.isFile ⟨config⟩ with
    | true =>
      constructor
      · rintro rfl
        exact .written hempty hwritten
      · rintro (⟨-, -⟩ | ⟨-, hno, -⟩ | h)
        · rfl
        · exact absurd hwritten hno
        · exact absurd hwritten (h hempty).1
    | false =>
      have hno : ¬ files.isFile ⟨config⟩ := by rw [hwritten]; exact Bool.false_ne_true
      dsimp only
      rw [List.find?_singleton]
      constructor
      · rintro rfl
        by_cases h : files.isFile ((root.join name).join config)
        · rw [if_pos h]
          exact .beside hempty hno h
        · rw [if_neg h]
          exact .none fun _ => ⟨hno, h⟩
      · rintro (⟨-, h⟩ | ⟨-, -, h⟩ | h)
        · exact absurd h hno
        · rw [if_pos h]; rfl
        · rw [if_neg (h hempty).2]; rfl

/-! ### Lines -/

/-- The step that a line with these fields describes. -/
structure Says (files : FileTree) (root : Path) (fields : List (List Char)) (s : Step) : Prop where
  name : s.name.toList = field fields 0
  parts : ∃ id, CutAtDoubles '_' s.name.toList
    [id, s.className.toList, s.interfaceName.toList, s.functionName.toList]
  configFile : Configures files root s.name (String.ofList (field fields 1)) s.configFile
  repeats : Repeats (field fields 2) s.repeats
  passed : s.passed = false
  elapsed : s.elapsed = .zero
  attempts : s.attempts = 0

/-- Why a line with these fields describes no step. -/
inductive Refuses (i : Instruction) (fields : List (List Char)) : CompileError → Prop where
  | name {parts : List (List Char)} (h : CutAtDoubles '_' (field fields 0) parts)
      (hfour : parts.length ≠ 4) :
      Refuses i fields (.badName i (String.ofList (field fields 0)) parts.length)
  | repeats {parts : List (List Char)} {cause : Text.NumeralError}
      (h : CutAtDoubles '_' (field fields 0) parts) (hfour : parts.length = 4)
      (hcause : readRepeats (field fields 2) = .error cause) :
      Refuses i fields (.badRepeat i (String.ofList (field fields 2)) cause)

theorem compile_eq_ok_iff (h : CutAt ',' i.text.toList fields) :
    compile files root i = .ok s ↔ Says files root fields s := by
  unfold compile
  rw [Fields.ofText_eq h]
  dsimp only
  constructor
  · intro hs
    split at hs
    · next id cls iface function hparts =>
      split at hs
      · next repeats hrepeats =>
        cases hs
        refine ⟨String.toList_ofList, ⟨id, ?_⟩, findConfig_eq_iff.mp rfl,
          readRepeats_eq_ok_iff.mp hrepeats, rfl, rfl, rfl⟩
        simp only [String.toList_ofList]
        exact Text.splitDouble_eq_iff.mp hparts
      · cases hs
    · cases hs
  · rintro ⟨hname, ⟨id, hparts⟩, hconfig, hrepeats, hpassed, helapsed, hattempts⟩
    have hname' : String.ofList (field fields 0) = s.name := by rw [← hname, String.ofList_toList]
    rw [hname] at hparts
    rw [hname', Text.splitDouble_eq_iff.mpr hparts, readRepeats_eq_ok_iff.mpr hrepeats,
      findConfig_eq_iff.mpr hconfig]
    simp only [String.ofList_toList, ← hpassed, ← helapsed, ← hattempts]

theorem says_of_compile (h : compile files root i = .ok s) :
    Says files root (Text.splitAt ',' i.text.toList) s :=
  (compile_eq_ok_iff (Text.splitAt_eq_iff.mp rfl)).mp h

theorem compile_eq_error_iff {e : CompileError} (h : CutAt ',' i.text.toList fields) :
    compile files root i = .error e ↔ Refuses i fields e := by
  unfold compile
  rw [Fields.ofText_eq h]
  dsimp only
  constructor
  · intro he
    split at he
    · next hparts =>
      split at he
      · cases he
      · next cause hcause =>
        cases he
        exact .repeats (Text.splitDouble_eq_iff.mp hparts) rfl hcause
    · next hfour =>
      cases he
      refine .name (Text.splitDouble_eq_iff.mp rfl) fun hlen => ?_
      obtain ⟨a, b, c, d, hparts⟩ := List.length_eq_four.mp hlen
      exact hfour a b c d hparts
  · rintro (⟨hcut, hfour⟩ | ⟨hcut, hfour, hcause⟩)
    · rw [Text.splitDouble_eq_iff.mpr hcut]
      split
      · exact absurd rfl hfour
      · rfl
    · obtain ⟨a, b, c, d, rfl⟩ := List.length_eq_four.mp hfour
      rw [Text.splitDouble_eq_iff.mpr hcut, hcause]

theorem exists_refuses_iff : (∃ e, Refuses i fields e) ↔
    (¬ ∃ a b c d, CutAtDoubles '_' (field fields 0) [a, b, c, d]) ∨ field fields 2 ≠ [] ∧
      ¬ (Text.IsNumeral (field fields 2) ∧ Text.numeralValue (field fields 2) < UInt32.size) := by
  rw [← exists_readRepeats_eq_error_iff]
  constructor
  · rintro ⟨e, ⟨hcut, hfour⟩ | ⟨-, -, hcause⟩⟩
    · refine .inl fun ⟨a, b, c, d, hparts⟩ => hfour ?_
      rw [← hcut.splitDouble_eq, hparts.splitDouble_eq]
      rfl
    · exact .inr ⟨_, hcause⟩
  · intro h
    have hcut := Text.cutAtDoubles_splitDouble '_' (field fields 0)
    by_cases hfour : (Text.splitDouble '_' (field fields 0)).length = 4
    · rcases h with hname | ⟨cause, hcause⟩
      · obtain ⟨a, b, c, d, hparts⟩ := List.length_eq_four.mp hfour
        exact absurd ⟨a, b, c, d, hparts ▸ hcut⟩ hname
      · exact ⟨_, .repeats hcut hfour hcause⟩
    · exact ⟨_, .name hcut hfour⟩

/-! ### Run-files -/

theorem compileAll_eq_ok_iff {is : List Instruction} {steps : List Step} :
    compileAll files root is = .ok steps ↔
      List.Forall₂ (fun i s => compile files root i = .ok s) is steps := by
  unfold compileAll
  induction is generalizing steps with
  | nil =>
    rw [List.forall₂_nil_left_iff]
    exact ⟨fun h => by cases h; rfl, fun h => by rw [h]; rfl⟩
  | cons i r ih =>
    rw [List.mapM_cons, bind_eq_ok_iff, List.forall₂_cons_left_iff]
    constructor
    · rintro ⟨s, hs, h⟩
      obtain ⟨rest, hrest, ⟨⟩⟩ := bind_eq_ok_iff.mp h
      exact ⟨s, rest, hs, ih.mp hrest, rfl⟩
    · rintro ⟨s, rest, hs, hrest, rfl⟩
      exact ⟨s, hs, bind_eq_ok_iff.mpr ⟨rest, ih.mpr hrest, rfl⟩⟩

theorem exists_compile_of_mem {is : List Instruction} {steps : List Step}
    (h : compileAll files root is = .ok steps) (hs : s ∈ steps) :
    ∃ i ∈ is, compile files root i = .ok s := by
  have hall := compileAll_eq_ok_iff.mp h
  clear h
  induction hall with
  | nil => exact absurd hs List.not_mem_nil
  | cons hi _ ih =>
    rcases List.mem_cons.mp hs with rfl | hs
    · exact ⟨_, List.mem_cons_self, hi⟩
    · obtain ⟨j, hj, hcompile⟩ := ih hs
      exact ⟨j, List.mem_cons_of_mem _ hj, hcompile⟩

theorem compileAll_eq_error_iff {is : List Instruction} {e : CompileError} :
    compileAll files root is = .error e ↔ ∃ front i back, is = front ++ i :: back ∧
      (∀ j ∈ front, ∃ s, compile files root j = .ok s) ∧ compile files root i = .error e := by
  unfold compileAll
  induction is with
  | nil =>
    refine ⟨nofun, ?_⟩
    rintro ⟨front, i, back, h, -⟩
    exact absurd h.symm (List.append_ne_nil_of_right_ne_nil front (List.cons_ne_nil i back))
  | cons i r ih =>
    rw [List.mapM_cons, bind_eq_error_iff]
    constructor
    · rintro (hi | ⟨s, hs, h⟩)
      · exact ⟨[], i, r, rfl, nofun, hi⟩
      · rcases bind_eq_error_iff.mp h with hrest | ⟨_, -, ⟨⟩⟩
        obtain ⟨front, j, back, rfl, hfront, hj⟩ := ih.mp hrest
        exact ⟨i :: front, j, back, rfl, List.forall_mem_cons.mpr ⟨⟨s, hs⟩, hfront⟩, hj⟩
    · rintro ⟨front, j, back, his, hfront, hj⟩
      cases front with
      | nil =>
        cases his
        exact .inl hj
      | cons k front =>
        cases his
        obtain ⟨⟨s, hs⟩, hfront⟩ := List.forall_mem_cons.mp hfront
        exact .inr ⟨s, hs, bind_eq_error_iff.mpr (.inl (ih.mpr ⟨front, j, back, rfl, hfront, hj⟩))⟩

/-! ### Steps as they are written -/

/-- What is written of a step. -/
structure Wording where
  id : String
  className : String
  interfaceName : String
  functionName : String
  config : String
  repeats : UInt32

namespace Wording

variable {w : Wording}

def parts (w : Wording) : List (List Char) :=
  [w.id.toList, w.className.toList, w.interfaceName.toList, w.functionName.toList]

def name (w : Wording) : List Char := ['_', '_'].intercalate w.parts

/-- A wording that can be read: the marks between the fields and between the parts of the name do
not stand in them, and the ends of what is trimmed can be seen. -/
structure Legible (w : Wording) : Prop where
  single : ∀ p ∈ w.parts, Text.Single '_' p
  ends : ∀ p ∈ w.parts.dropLast, p.getLast? ≠ some '_'
  plain : ∀ p ∈ w.parts, ',' ∉ p
  name : Text.Trimmed w.name
  config : Text.Trimmed w.config.toList
  configPlain : ',' ∉ w.config.toList

/-- A text that is the wording, with any blanks around its fields. -/
def IsWritten (w : Wording) (text : String) : Prop :=
  ∃ name config repeats, Text.Spaced w.name name ∧ Text.Spaced w.config.toList config ∧
    Text.Spaced (toString w.repeats.toNat).toList repeats ∧
      text.toList = [','].intercalate [name, config, repeats]

/-- The step that is written down. -/
structure Describes (w : Wording) (files : FileTree) (root : Path) (s : Step) : Prop where
  name : s.name.toList = w.name
  className : s.className = w.className
  interfaceName : s.interfaceName = w.interfaceName
  functionName : s.functionName = w.functionName
  configFile : Configures files root s.name w.config s.configFile
  repeats : s.repeats = w.repeats
  passed : s.passed = false
  elapsed : s.elapsed = .zero
  attempts : s.attempts = 0

theorem trimmed_repeats (w : Wording) : Text.Trimmed (toString w.repeats.toNat).toList := by
  have hdigit : ∀ c ∈ (toString w.repeats.toNat).toList, Text.isBlank c = false := fun c hc =>
    Text.isBlank_eq_false_of_isDigit (Text.isDigit_of_mem_toString hc)
  exact ⟨fun c hc => hdigit c (List.mem_of_head? hc),
    fun c hc => hdigit c (List.mem_of_getLast? hc)⟩

theorem comma_not_mem_repeats (w : Wording) : ',' ∉ (toString w.repeats.toNat).toList := fun hc =>
  absurd (Text.isDigit_of_mem_toString hc) (by decide)

/-- The commas that are written are those between the fields, and a field is what was meant by
it. -/
theorem Legible.exists_fields {text : String} (h : w.Legible) (hw : w.IsWritten text) :
    ∃ fields, CutAt ',' text.toList fields ∧ field fields 0 = w.name ∧
      field fields 1 = w.config.toList ∧ field fields 2 = (toString w.repeats.toNat).toList := by
  obtain ⟨name, config, repeats, hname, hconfig, hrepeats, htext⟩ := hw
  have hcomma : Text.isBlank ',' = false := by decide
  refine ⟨[name, config, repeats], ⟨List.cons_ne_nil _ _, htext.symm, ?_⟩,
    Text.trim_of_spaced h.name hname, Text.trim_of_spaced h.config hconfig,
    Text.trim_of_spaced w.trimmed_repeats hrepeats⟩
  rw [List.forall_mem_cons, List.forall_mem_cons, List.forall_mem_singleton]
  exact ⟨Text.not_mem_of_spaced hcomma (Text.not_mem_intercalate (by decide) h.plain) hname,
    Text.not_mem_of_spaced hcomma h.configPlain hconfig,
    Text.not_mem_of_spaced hcomma w.comma_not_mem_repeats hrepeats⟩

theorem Legible.exists_compile (h : w.Legible) (hw : w.IsWritten i.text) (files : FileTree)
    (root : Path) : ∃ s, compile files root i = .ok s ∧ w.Describes files root s := by
  obtain ⟨fields, hcut, hname, hconfig, hrepeats⟩ := h.exists_fields hw
  let s : Step := {
    name := String.ofList w.name
    className := w.className
    interfaceName := w.interfaceName
    functionName := w.functionName
    configFile := (findConfig files root (String.ofList w.name) w.config).map .path
    repeats := w.repeats
    passed := false
    elapsed := .zero
    attempts := 0 }
  have hs : s.name.toList = w.name := String.toList_ofList
  have hconfigures : Configures files root s.name w.config s.configFile := findConfig_eq_iff.mp rfl
  refine ⟨s, (compile_eq_ok_iff hcut).mpr ?_, hs, rfl, rfl, rfl, hconfigures, rfl, rfl, rfl, rfl⟩
  refine ⟨hs.trans hname.symm, ⟨w.id.toList, ?_⟩, ?_, ?_, rfl, rfl, rfl⟩
  · rw [hs]
    exact ⟨List.cons_ne_nil _ _, rfl, h.single, h.ends⟩
  · rwa [hconfig, String.ofList_toList]
  · rw [hrepeats]
    exact .numeral (Text.isNumeral_toString _) (Text.numeralValue_toString _).symm

end Wording

/-- A legible step is read back as it was written. What is compiled is the step that the fields of
the line describe, and nothing is only if the name has not four parts or the count is none. The
steps of a run-file are those of its lines, and the first line that is none refuses them all. -/
theorem compile_inverts_writing (files : FileTree) (root : Path) :
    (∀ (w : Wording) (i : Instruction), w.Legible → w.IsWritten i.text →
      ∃ s, compile files root i = .ok s ∧ w.Describes files root s) ∧
    (∀ (i : Instruction) fields, CutAt ',' i.text.toList fields →
      (∀ s, compile files root i = .ok s ↔ Says files root fields s) ∧
      (∀ e, compile files root i = .error e ↔ Refuses i fields e) ∧
      ((∃ e, compile files root i = .error e) ↔
        (¬ ∃ a b c d, CutAtDoubles '_' (field fields 0) [a, b, c, d]) ∨ field fields 2 ≠ [] ∧
          ¬ (Text.IsNumeral (field fields 2) ∧ Text.numeralValue (field fields 2) < UInt32.size))) ∧
    (∀ is steps, compileAll files root is = .ok steps ↔
      List.Forall₂ (fun i s => compile files root i = .ok s) is steps) ∧
    ∀ is e, compileAll files root is = .error e ↔ ∃ front i back, is = front ++ i :: back ∧
      (∀ j ∈ front, ∃ s, compile files root j = .ok s) ∧ compile files root i = .error e := by
  refine ⟨fun w i h hw => h.exists_compile hw files root, fun i fields h => ⟨fun s =>
    compile_eq_ok_iff h, fun e => compile_eq_error_iff h, ?_⟩, fun is steps => compileAll_eq_ok_iff,
    fun is e => compileAll_eq_error_iff⟩
  simp only [compile_eq_error_iff h, exists_refuses_iff]

/-- A name with an empty part and with parts that start or end in the mark, between blanks, and the
largest count. A line whose count is one more describes no step. -/
theorem compile_inverts_writing_of_marks :
    let files : FileTree := ⟨[(["w", "c.xml"], .file (.text ""))], ["w"]⟩
    let w : Wording := ⟨"7", "_CMV", "", "_f_", "c.xml", 4294967295⟩
    let line (text : String) : Instruction := ⟨text, ⟨"a.run"⟩, 1, ⟨0, 0⟩, ⟨"a.run", text⟩⟩
    let written := line "7___CMV_____f_ ,\tc.xml, 4294967295"
    let beyond := line "7__A__B__f,,4294967296"
    (w.Legible ∧ w.IsWritten written.text ∧
      ∃ s, compile files ⟨"r"⟩ written = .ok s ∧ w.Describes files ⟨"r"⟩ s) ∧
    CutAt ',' beyond.text.toList ["7__A__B__f".toList, [], "4294967296".toList] ∧
      ∃ e, compile files ⟨"r"⟩ beyond = .error e := by
  intro files w line written beyond
  obtain ⟨hwriting, hreading, -⟩ := compile_inverts_writing files ⟨"r"⟩
  have hname : Text.trim w.name = w.name := by decide
  have hconfig : Text.trim w.config.toList = w.config.toList := by decide
  have hlegible : w.Legible := ⟨by decide, by decide, by decide, hname ▸ Text.trim_trimmed _,
    hconfig ▸ Text.trim_trimmed _, by decide⟩
  have hspace : ∀ c ∈ [' '], Text.isBlank c := List.forall_mem_singleton.mpr (by decide)
  have htab : ∀ c ∈ ['\t'], Text.isBlank c := List.forall_mem_singleton.mpr (by decide)
  have hwritten : w.IsWritten written.text :=
    ⟨w.name ++ [' '], ['\t'] ++ w.config.toList, [' '] ++ "4294967295".toList,
      ⟨[], [' '], nofun, hspace, rfl⟩, ⟨['\t'], [], htab, nofun, by decide⟩,
      ⟨[' '], [], hspace, nofun, by decide⟩, by decide⟩
  have hcut : CutAt ',' beyond.text.toList ["7__A__B__f".toList, [], "4294967296".toList] :=
    ⟨by decide, by decide, by decide⟩
  exact ⟨⟨hlegible, hwritten, hwriting w written hlegible hwritten⟩, hcut,
    (hreading beyond _ hcut).2.2.mpr (.inr (by decide))⟩

end StepRunner.Step
