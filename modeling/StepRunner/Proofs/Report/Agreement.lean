import Mathlib.Data.List.Forall2
import StepRunner.Proofs.FileTree.Writing
import StepRunner.Proofs.Report.Document
import StepRunner.Report.Text

/-!
# Two reports of one run

The text report and the JSON report tell the same of a run, the text report in lines that stand in
their order and the JSON report in fields that have names (`Agrees`). The file that the JSON report
leaves is read back as a document before the two are compared (`json_agrees`).
-/

namespace StepRunner.Report

/-! ### Writing the text report -/

theorem render_ne_empty (summary : Summary) (steps : List Step) : render summary steps ≠ "" := by
  have hnewline : '\n' ∈ (render summary steps).toList := by
    rw [render, String.toList_join]
    simp [lines, headerLines]
  intro h
  rw [h] at hnewline
  exact absurd hnewline (by decide)

theorem write_of_writable {files : FileTree} {p : Path} (h : files.Writable p) (summary : Summary)
    (steps : List Step) : ∃ files', write files p summary steps = .ok files' ∧
      (files.isDevice p = false → files'.readText p = .ok (render summary steps)) := by
  obtain ⟨files', hwrite⟩ := h (render summary steps)
  refine ⟨files', ?_, fun hdevice => FileTree.readText_of_writeText hdevice hwrite⟩
  rw [write, hwrite]
  rfl

theorem writable_of_write {files files' : FileTree} {p : Path} {summary : Summary}
    {steps : List Step} (h : write files p summary steps = .ok files') :
    files.writeText p (render summary steps) = .ok files' ∧ files.Writable p := by
  cases hwrite : files.writeText p (render summary steps) with
  | error e =>
    rw [write, hwrite] at h
    cases h
  | ok files'' =>
    rw [write, hwrite] at h
    cases h
    exact ⟨rfl, FileTree.writable_of_writeText (render_ne_empty _ _) hwrite⟩

theorem write_of_not_writable {files : FileTree} {p : Path} (h : ¬ files.Writable p)
    (summary : Summary) (steps : List Step) : ∃ f, write files p summary steps = .error f := by
  cases hwrite : write files p summary steps with
  | ok files' => exact absurd (writable_of_write hwrite).2 h
  | error f => exact ⟨f, rfl⟩

/-! ### What the JSON report tells -/

/-- The value of the field with this key. -/
def Document.field? (d : Document) (key : String) : Option Document :=
  match d with
  | .object fields => fields.lookup key
  | _ => none

/-- An item of the JSON report tells of a step what its lines in the text report tell. A time of
more milliseconds than 64 bits can count is told as the most they can. -/
structure StepAgrees (s : Step) (item : Document) : Prop where
  name : ∃ name, (stepLines s)[0]? = some name ∧ item.field? "name" = some (.text name)
  /-- There is no configuration file just if there is `null`; its line is empty then. -/
  config : ∃ config, (stepLines s)[1]? = some config ∧ (s.configFile = none → config = "") ∧
    item.field? "config_file" = some (if s.configFile = none then .null else .text config)
  passed : ∃ passed, (stepLines s)[2]? = some (if passed then "1" else "0") ∧
    item.field? "passed" = some (.bool passed)
  elapsed : ∃ millis, (stepLines s)[3]? = some (toString millis) ∧
    item.field? "elapsed" = some (.number (min millis (UInt64.size - 1)))

/-- A JSON report tells what a text report tells. -/
structure Agrees (summary : Summary) (steps : List Step) (d : Document) : Prop where
  passes : ∃ n, (headerLines summary)[1]? = some ("passes:" ++ toString n) ∧
    d.field? "passes" = some (.number n)
  failures : ∃ n, (headerLines summary)[2]? = some ("failures:" ++ toString n) ∧
    d.field? "failures" = some (.number n)
  untested : ∃ n, (headerLines summary)[3]? = some ("untested:" ++ toString n) ∧
    d.field? "untested" = some (.number n)
  steps : ∃ items, d.field? "steps" = some (.array items) ∧ List.Forall₂ StepAgrees steps items

theorem configDocument_eq {s : Step} (h : ∀ bytes, s.configFile ≠ some (.octets bytes)) :
    configDocument s.configFile =
      some (if s.configFile = none then .null else .text s.configArg) := by
  match hfile : s.configFile with
  | none => rfl
  | some (.path p) =>
    rw [if_neg nofun, Step.configArg, hfile]
    rfl
  | some (.octets bytes) => exact absurd hfile (h bytes)

theorem exists_stepDocument {s : Step} (h : ∀ bytes, s.configFile ≠ some (.octets bytes)) :
    ∃ item, stepDocument s = some item ∧ StepAgrees s item := by
  refine ⟨_, by rw [stepDocument, configDocument_eq h]; rfl, ?_⟩
  exact {
    name := ⟨s.name, rfl, rfl⟩
    config := ⟨s.configArg, rfl, fun hnone => by rw [Step.configArg, hnone]; rfl, rfl⟩
    passed := ⟨s.passed, rfl, rfl⟩
    elapsed := ⟨s.elapsed.millis, rfl, rfl⟩ }

theorem exists_items {steps : List Step}
    (h : ∀ s ∈ steps, ∀ bytes, s.configFile ≠ some (.octets bytes)) :
    ∃ items, steps.mapM stepDocument = some items ∧ List.Forall₂ StepAgrees steps items := by
  induction steps with
  | nil => exact ⟨[], rfl, .nil⟩
  | cons s steps ih =>
    obtain ⟨item, hitem, hagrees⟩ := exists_stepDocument (h s List.mem_cons_self)
    obtain ⟨items, hitems, hall⟩ := ih fun t ht => h t (List.mem_cons_of_mem _ ht)
    refine ⟨item :: items, ?_, .cons hagrees hall⟩
    rw [List.mapM_cons, hitem, hitems]
    rfl

theorem exists_document (summary : Summary) {steps : List Step}
    (h : ∀ s ∈ steps, ∀ bytes, s.configFile ≠ some (.octets bytes)) :
    ∃ d, document summary steps = some d ∧ Agrees summary steps d := by
  obtain ⟨items, hitems, hall⟩ := exists_items h
  refine ⟨_, by rw [document, hitems]; rfl, ?_⟩
  exact {
    passes := ⟨summary.passed, rfl, rfl⟩
    failures := ⟨summary.failed, rfl, rfl⟩
    untested := ⟨summary.skipped, rfl, rfl⟩
    steps := ⟨items, rfl, hall⟩ }

/-- If the names of all configuration files are text, the JSON report can be written wherever the
text report can, and what is read there tells what the text report tells. -/
theorem json_agrees (summary : Summary) (steps : List Step)
    (htext : ∀ s ∈ steps, ∀ bytes, s.configFile ≠ some (.octets bytes)) :
    ∃ json d, Document.read? json = some d ∧ Agrees summary steps d ∧
      ∀ files p files', write files p summary steps = .ok files' →
        ∃ files'', writeJson files p summary steps = .ok files'' ∧
          (files.isDevice p = false → files'.readText p = .ok (render summary steps) ∧
            files''.readText p = .ok json) := by
  obtain ⟨d, hd, hagrees⟩ := exists_document summary htext
  refine ⟨d.render 0, d, d.read?_render, hagrees, fun files p files' hwrite => ?_⟩
  obtain ⟨hwritten, hwritable⟩ := writable_of_write hwrite
  obtain ⟨files'', hjson⟩ := hwritable (d.render 0)
  refine ⟨files'', by rw [writeJson, hd]; dsimp only; rw [hjson]; rfl, fun hdevice => ?_⟩
  exact ⟨FileTree.readText_of_writeText hdevice hwritten,
    FileTree.readText_of_writeText hdevice hjson⟩

/-- In an empty directory there is room for a report. -/
theorem locate_free :
    (⟨[], ["w"]⟩ : FileTree).locate .file ⟨"r"⟩ = .ok (.free ["w", "r"]) := by
  rw [FileTree.locate_of_segments .file ["w"] ["r"] (by decide +kernel), FileTree.walk]
  decide +kernel

/-- A configuration file whose name holds a quote, and a step without one. -/
theorem json_agrees_quoted :
    let summary : Summary := ⟨⟨1773480413, 0, 3600⟩, 3, 1, 1⟩
    let steps : List Step :=
      [⟨"1__A__I__f", "A", "I", "f", some (.path ⟨"r\"s/ü.xml"⟩), 0, true, ⟨1500000⟩, 1⟩,
        ⟨"2__A__I__f", "A", "I", "f", none, 2, false, ⟨0⟩, 1⟩]
    let files : FileTree := ⟨[], ["w"]⟩
    (∀ s ∈ steps, ∀ bytes, s.configFile ≠ some (.octets bytes)) ∧
      ∃ json d files' files'', Document.read? json = some d ∧ Agrees summary steps d ∧
        write files ⟨"r"⟩ summary steps = .ok files' ∧
        writeJson files ⟨"r"⟩ summary steps = .ok files'' ∧
        files'.readText ⟨"r"⟩ = .ok (render summary steps) ∧
        files''.readText ⟨"r"⟩ = .ok json := by
  intro summary steps files
  have htext : ∀ s ∈ steps, ∀ bytes, s.configFile ≠ some (.octets bytes) := by
    simp [steps]
  have hdevice : files.isDevice ⟨"r"⟩ = false := FileTree.isDevice_of_free locate_free
  obtain ⟨files', hwrite, -⟩ :=
    write_of_writable (FileTree.writable_of_free locate_free) summary steps
  obtain ⟨json, d, hread, hagrees, hjson⟩ := json_agrees summary steps htext
  obtain ⟨files'', hwritten, hcontent⟩ := hjson files ⟨"r"⟩ files' hwrite
  obtain ⟨htold, hdocument⟩ := hcontent hdevice
  exact ⟨htext, json, d, files', files'', hread, hagrees, hwrite, hwritten, htold, hdocument⟩

/-- A time that 64 bits cannot count is told differently, and so is an empty name of a configuration
file. A name that is no text is told by the text report alone. -/
theorem told_differently :
    let step : Step :=
      ⟨"1__A__I__f", "A", "I", "f", some (.path ⟨""⟩), 0, true, .ofMillis 18446744073709551616, 1⟩
    let unnamed : Step := { step with configFile := some (.octets [255]) }
    let summary : Summary := ⟨⟨0, 0, 0⟩, 1, 1, 0⟩
    let files : FileTree := ⟨[], ["w"]⟩
    (∃ item, stepDocument step = some item ∧
        (stepLines step)[1]? = some "" ∧ item.field? "config_file" = some (.text "") ∧
        (stepLines step)[3]? = some "18446744073709551616" ∧
        item.field? "elapsed" = some (.number 18446744073709551615)) ∧
      files.Writable ⟨"r"⟩ ∧ (∃ files', write files ⟨"r"⟩ summary [unnamed] = .ok files') ∧
      writeJson files ⟨"r"⟩ summary [unnamed] = .error notSerializable := by
  intro step unnamed summary files
  have hwritable : files.Writable ⟨"r"⟩ := FileTree.writable_of_free locate_free
  obtain ⟨files', hwrite, -⟩ := write_of_writable hwritable summary [unnamed]
  have hmillis : min step.elapsed.millis (UInt64.size - 1) = 18446744073709551615 := by
    decide +kernel
  exact ⟨⟨_, rfl, rfl, rfl, by decide +kernel, congrArg (some ∘ Document.number) hmillis⟩,
    hwritable, ⟨files', hwrite⟩, rfl⟩

end StepRunner.Report
