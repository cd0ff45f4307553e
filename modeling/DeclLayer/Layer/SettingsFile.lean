import DeclLayer.Layer.Generate
import DeclLayer.Toml.Document
import DeclLayer.Toml.Render

/-!
# Settings in a file

`Settings.parse?` reads settings from a TOML document in which everything may be left out, and
`Settings.toToml` writes them out in full. The document has five sections and no other keys; inside
a section keys without a meaning are ignored.
-/

namespace DeclLayer.Settings

open Toml

/-! ## Reading -/

/-- The entries of a table. A moment counts as a table without any. -/
def table? : Value → Option Entries
  | .table _ entries => some entries
  | .moment => some []
  | _ => none

/-- The fields of a section: the entries of a table. An array gives the fields their values in
order; it may be shorter than the fields only if the section fills up what is missing. -/
def fields? (names : List String) (fillsUp : Bool) : Value → Option Entries
  | .array elements =>
    if fillsUp || names.length ≤ elements.length then some (names.zip elements) else none
  | v => table? v

/-- Reads a field that may be missing. -/
def field {α : Type} (read : Value → Option α) (default : α) (entries : Entries) (key : String) :
    Option α :=
  match entries.lookup key with
  | some v => read v
  | none => some default

/-- Reads a field that has to be there. -/
def required {α : Type} (read : Value → Option α) (entries : Entries) (key : String) :
    Option α := do
  read (← entries.lookup key)

/-- Reads a section that may be missing. -/
def section? (root : Entries) (name : String) (fields : List String) (fillsUp : Bool) :
    Option Entries :=
  field (fields? fields fillsUp) [] root name

/-- The path that a string names. -/
def path? (v : Value) : Option Path := v.string?.map Path.mk

/-- The line end that a value chooses. -/
def lineEnd? (v : Value) : Option LineEnd := do
  match ← v.choice? with
  | "lf" => return .lf
  | "crlf" => return .crlf
  | _ => none

/-- Reads a site of a rule. -/
def site? (v : Value) : Option Site := do
  match v with
  | .array [kind, place] => ofFields (← kind.string?) (some place) (some place)
  | .table _ entries =>
    let kind ← required Value.string? entries "kind"
    ofFields kind (entries.lookup "index") (entries.lookup "name")
  | _ => none
where
  /-- The site of a kind, with the values that its index and its name would have. -/
  ofFields (kind : String) (index name : Option Value) : Option Site :=
    match kind with
    | "index_signature" => (index.bind Value.natural?).map .indexSignature
    | "property" => (name.bind Value.string?).map .property
    | _ => none

/-- Reads a rule. -/
def rule? (v : Value) : Option Rule := do
  let names := ["interface", "names", "site"]
  if (v.elements?.map List.length).any (names.length < ·) then none
  let entries ← fields? names false v
  return {
    interface := ← required Value.string? entries "interface"
    names := ← required Value.strings? entries "names"
    site := ← required site? entries "site" }

/-- Reads rules. -/
def rules? (v : Value) : Option (List Rule) := do
  (← v.elements?).mapM rule?

/-- The helper of the runtime module, from its settings. -/
def helperOf (objectAssign : Bool) (name module : Option String) : Option AssignHelper :=
  if objectAssign then none
  else RuntimeModule.standard.helper.map fun helper =>
    ⟨name.getD helper.name, module.getD helper.module⟩

/-- Reads a text that may be missing. -/
def optionalString (entries : Entries) (key : String) : Option (Option String) :=
  field (fun v => v.string?.map some) none entries key

/-- Reads the settings of the runtime module. -/
def runtime? (root : Entries) : Option RuntimeModule := do
  let d := RuntimeModule.standard
  let entries ← section? root "runtime"
    ["module", "alias", "assign_helper", "assign_helper_module", "object_assign"] false
  let helper ← optionalString entries "assign_helper"
  let helperModule ← optionalString entries "assign_helper_module"
  let objectAssign ← field Value.boolean? false entries "object_assign"
  return {
    module := ← field Value.string? d.module entries "module"
    localName := ← field Value.string? d.localName entries "alias"
    helper := helperOf objectAssign helper helperModule }

/-- Reads the settings of the brand. -/
def brand? (root : Entries) : Option Brand := do
  let d := Brand.standard
  let entries ← section? root "brand" ["interface", "property", "type", "docs"] true
  return {
    interface := ← field Value.string? d.interface entries "interface"
    property := ← field Value.string? d.property entries "property"
    type := ← field Value.string? d.type entries "type"
    docs := ← field Value.strings? d.docs entries "docs" }

/-- Reads the policy from its section. -/
def policy? (entries : Entries) : Option Policy := do
  let d := Policy.compilerApi
  return {
    enums := ← field Value.strings? d.enums entries "enums"
    interfaces := ← field Value.strings? d.interfaces entries "interfaces"
    aliases := ← field Value.strings? d.aliases entries "type_aliases"
    rules := ← field rules? d.rules entries "rewrites" }

/-- The names of the sections. -/
def sectionNames : List String := ["source", "output", "runtime", "brand", "separate"]

/-- Reads the settings from a root table. -/
def ofEntries? (root : Entries) : Option Settings := do
  if root.any fun entry => !sectionNames.contains entry.1 then none
  let d := Settings.standard
  let source ← section? root "source" ["declaration_file", "namespace"] false
  let output ← section? root "output" ["path", "newline", "indent_size", "use_tabs"] false
  let separate ← field table? [] root "separate"
  return {
    declarationFile := ← field path? d.declarationFile source "declaration_file"
    namespaceName := ← field Value.string? d.namespaceName source "namespace"
    output := ← field path? d.output output "path"
    lineEnd := ← field lineEnd? d.lineEnd output "newline"
    style := {
      indentSize := ← field Value.natural? d.style.indentSize output "indent_size"
      useTabs := ← field Value.boolean? d.style.useTabs output "use_tabs" }
    runtime := ← runtime? root
    brand := ← brand? root
    policy := ← policy? separate
    strict := ← field Value.boolean? d.strict separate "strict_references" }

/-- Reads settings. What is left out has its standard value. -/
def parse? (text : String) : Option Settings := do
  ofEntries? (← Toml.parse? text)

/-! ## Writing -/

/-- The name of a line end. -/
def lineEndName : LineEnd → String
  | .lf => "lf"
  | .crlf => "crlf"

/-- The section of a rule. -/
def ruleText (rule : Rule) : String :=
  "\n[[separate.rewrites]]\n" ++ entryLine "interface" (stringText rule.interface) ++
    entryLine "names" (stringsText rule.names) ++ "\n[separate.rewrites.site]\n" ++
    match rule.site with
    | .indexSignature index =>
      entryLine "kind" (stringText "index_signature") ++ entryLine "index" (toString index)
    | .property name =>
      entryLine "kind" (stringText "property") ++ entryLine "name" (stringText name)

/-- The lines for the helper of the runtime module. -/
def helperText : Option AssignHelper → String
  | some helper =>
    entryLine "assign_helper" (stringText helper.name) ++
      entryLine "assign_helper_module" (stringText helper.module) ++
      entryLine "object_assign" (booleanText false)
  | none => entryLine "object_assign" (booleanText true)

/-- Settings in full, as a TOML document. -/
def toToml (s : Settings) : String :=
  "[source]\n" ++ entryLine "declaration_file" (stringText s.declarationFile.text) ++
    entryLine "namespace" (stringText s.namespaceName) ++
    "\n[output]\n" ++ entryLine "path" (stringText s.output.text) ++
    entryLine "newline" (stringText (lineEndName s.lineEnd)) ++
    entryLine "indent_size" (toString s.style.indentSize) ++
    entryLine "use_tabs" (booleanText s.style.useTabs) ++
    "\n[runtime]\n" ++ entryLine "module" (stringText s.runtime.module) ++
    entryLine "alias" (stringText s.runtime.localName) ++ helperText s.runtime.helper ++
    "\n[brand]\n" ++ entryLine "interface" (stringText s.brand.interface) ++
    entryLine "property" (stringText s.brand.property) ++
    entryLine "type" (stringText s.brand.type) ++ entryLine "docs" (stringsText s.brand.docs) ++
    "\n[separate]\n" ++ entryLine "enums" (stringsText s.policy.enums) ++
    entryLine "interfaces" (stringsText s.policy.interfaces) ++
    entryLine "type_aliases" (stringsText s.policy.aliases) ++
    (if s.policy.rules.isEmpty then entryLine "rewrites" "[]" else "") ++
    entryLine "strict_references" (booleanText s.strict) ++
    String.join (s.policy.rules.map ruleText)

end DeclLayer.Settings
