import StepRunner.Config.Basic
import StepRunner.FileTree.Basic
import StepRunner.Yaml.Node

/-!
# Configurations in YAML

A configuration is written as a mapping from the names of fields to their values. Each field may
be left out, none may stand twice, and no other name is known.
-/

namespace StepRunner

/-- Why a document is no configuration. -/
inductive Misfit where
  | notMapping
  | unknownField (name : String)
  | repeatedField
  | fieldName
  | value (field : String)
  deriving DecidableEq, Repr

def Misfit.message : Misfit → String
  | notMapping => "expected a mapping of fields"
  | unknownField name => s!"unknown field '{name}'"
  | repeatedField => "duplicate field"
  | fieldName => "invalid type of a field name"
  | value field => s!"{field}: invalid value"

inductive ConfigReadError where
  | malformed (p : Yaml.Problem)
  | misfit (m : Misfit)
  | rejected (e : ConfigError)
  deriving DecidableEq, Repr

def ConfigReadError.fault : ConfigReadError → Fault
  | malformed p =>
    { kind := .config, message := "Invalid configuration: " ++ p.message, caused := true }
  | misfit m =>
    { kind := .config, message := "Invalid configuration: " ++ m.message, caused := true }
  | rejected e => e.fault

inductive ConfigFileError where
  | unreadable (path : Path) (e : FileError)
  | invalid (path : Path) (e : ConfigReadError)

def ConfigFileError.fault : ConfigFileError → Fault
  | unreadable path e => .io "read" path.text e.message
  | invalid path e => { kind := .config, message := s!"{path.text}: {e.fault.message}" }

namespace Config

open Yaml

/-! ### Values of fields -/

def nulls : List String := ["~", "null", "Null", "NULL"]

/-- The value of digits in a base up to 16, if they are digits and there is one. -/
def digitsIn (base : Nat) (cs : List Char) : Option Nat := do
  let digits ← cs.mapM hexValue?
  if digits.isEmpty || !digits.all (· < base) then none
  else some (digits.foldl (fun n d => base * n + d) 0)

/-- An unsigned number: decimal with no leading zero, or behind `0x`, `0o` or `0b`. -/
def number? (text : String) : Option Nat :=
  let digits := match text.toList with
    | '+' :: r => r
    | cs => cs
  let n := match digits with
    | '0' :: 'x' :: r => digitsIn 16 r
    | '0' :: 'o' :: r => digitsIn 8 r
    | '0' :: 'b' :: r => digitsIn 2 r
    | '0' :: _ :: _ => none
    | cs => digitsIn 10 cs
  n.filter (· < UInt64.size)

def standardTag (name : String) : Tag := .ofText ("tag:yaml.org,2002:" ++ name)

/-- A number is plain, or a literal block tagged as one. -/
def natValue : Yaml.Node → Option Nat
  | .scalar tag style text =>
    if style = .plain || (style = .literal && tag = some (standardTag "int")) then number? text
    else none
  | _ => none

def textValue : Yaml.Node → Option String
  | .scalar _ _ text => some text
  | _ => none

/-- A plain scalar that is empty or null says that there is no text; a tag decides otherwise. -/
def optionalText : Yaml.Node → Option (Option String)
  | .scalar tag style text =>
    if style ≠ .plain then some (some text)
    else match tag with
      | none => some (if text.isEmpty || nulls.contains text then none else some text)
      | some tag =>
        if tag ≠ standardTag "null" then some (some text)
        else if nulls.contains text then some none
        else none
  | _ => none

/-- Nothing at all is an empty list. -/
def textList (d : Document) : Yaml.Node → Option (List String)
  | .sequence _ items => items.mapM fun n => textValue (d.resolve n)
  | .scalar _ style text => if style = .plain && text.isEmpty then some [] else none
  | _ => none

def policyNamed : String → Option FaultPolicy
  | "tolerate" => some .tolerate
  | "abort" => some .abort
  | _ => none

/-- A policy is named by a scalar, or by the tag of an empty one. -/
def policyValue : Yaml.Node → Option FaultPolicy
  | .scalar tag style text =>
    match tag.bind Tag.localName? with
    | some name =>
      if style = .plain && (text.isEmpty || nulls.contains text) then policyNamed name else none
    | none => policyNamed text
  | _ => none

/-! ### Documents -/

def fieldNames : List String := ["resources_root", "debug_dir", "log_file", "timeout_secs",
  "poll_interval_ms", "repeat_pause_ms", "long_running_markers", "fault_policy"]

/-- The fields that a document gives, with their values. -/
def fields (d : Document) : Except Misfit (List (String × Yaml.Node)) := do
  match d.root.map d.resolve with
  | none => return []
  | some (.mapping _ entries) =>
    let named ← entries.mapM fun (k, v) =>
      match textValue (d.resolve k) with
      | some name => .ok (name, d.resolve v)
      | none => .error Misfit.fieldName
    if let some (name, _) := named.find? fun f => !fieldNames.contains f.1 then
      throw (.unknownField name)
    if !(named.map (·.1)).Nodup then throw .repeatedField
    return named
  | some (.scalar _ style text) =>
    if style = .plain && text.isEmpty then return [] else throw .notMapping
  | some _ => throw .notMapping

/-- The value of a field, or its default. -/
def field {α : Type} (named : List (String × Yaml.Node)) (name : String)
    (read : Yaml.Node → Option α) (standard : α) : Except Misfit α :=
  match named.lookup name with
  | none => .ok standard
  | some n =>
    match read n with
    | some v => .ok v
    | none => .error (.value name)

def ofDocument (d : Document) : Except Misfit Config := do
  let named ← fields d
  let c : Config := {}
  return {
    resourcesRoot := ⟨← field named "resources_root" textValue c.resourcesRoot.text⟩
    debugDir := ⟨← field named "debug_dir" textValue c.debugDir.text⟩
    logFile := ← field named "log_file" optionalText c.logFile
    timeoutSeconds := ← field named "timeout_secs" natValue c.timeoutSeconds
    pollIntervalMillis := ← field named "poll_interval_ms" natValue c.pollIntervalMillis
    repeatPauseMillis := ← field named "repeat_pause_ms" natValue c.repeatPauseMillis
    longRunningMarkers :=
      ← field named "long_running_markers" (textList d) c.longRunningMarkers
    faultPolicy := ← field named "fault_policy" policyValue c.faultPolicy }

/-- The valid configuration that a text holds. -/
def ofYaml (text : String) : Except ConfigReadError Config := do
  let d ← (Document.parse text).mapError .malformed
  let c ← (ofDocument d).mapError .misfit
  c.validate.mapError .rejected
  return c

/-- The valid configuration in a file. -/
def ofFile (files : FileTree) (p : Path) : Except ConfigFileError Config := do
  let text ← (files.readText p).mapError (.unreadable p)
  (ofYaml text).mapError (.invalid p)

/-- Settings that are read have passed `validate`. -/
theorem validate_of_ofYaml {text : String} {c : Config} (h : ofYaml text = .ok c) :
    c.validate = .ok () := by
  simp only [ofYaml, bind, Except.bind] at h
  split at h
  · cases h
  · split at h
    · cases h
    · next d _ =>
      cases hv : d.validate with
      | error e =>
        rw [hv] at h
        cases h
      | ok =>
        rw [hv] at h
        cases h
        exact hv

end Config

end StepRunner
