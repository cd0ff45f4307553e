import DeclLayer.Layer.Brand
import DeclLayer.Layer.Bridge
import DeclLayer.Layer.Qualification
import DeclLayer.Layer.RuntimeModule
import DeclLayer.Layer.Separation
import DeclLayer.Store.Document
import DeclLayer.Text.LineEnd

/-!
# Generating a layer

A run reads the declaration file, gathers every block of the namespace, and makes one module of it:
the header and the imports, the separated declarations, the consolidated namespace with its brand
and the statement that overwrites it, and the bridge for the enums.

`Layer.plan` does the part that depends on the declarations alone, `Layer.build` turns it into the
text of a file, and `Layer.generate` writes that file unless it is there already. Every generated
file begins with the same comment, by which it can be recognised (`Header.isHeaded`).
-/

namespace DeclLayer

/-! ## Settings -/

/-- The settings of a run. -/
structure Settings where
  /-- The file to read. -/
  declarationFile : Path
  /-- The namespace to consolidate. -/
  namespaceName : String
  /-- The file to write. -/
  output : Path
  lineEnd : LineEnd
  style : Style
  runtime : RuntimeModule
  brand : Brand
  policy : Policy
  /-- Unresolved references are an error. -/
  strict : Bool
  deriving DecidableEq, Repr

/-- The settings for the compiler's own declaration file. -/
def Settings.standard : Settings where
  declarationFile := ⟨"node_modules/typescript/lib/typescript.d.ts"⟩
  namespaceName := "ts"
  output := ⟨"src/typescript/typescript.ts"⟩
  lineEnd := .crlf
  style := .standard
  runtime := .standard
  brand := .standard
  policy := .compilerApi
  strict := false

/-! ## The header of a generated file -/

namespace Header

/-- The lines of the header. -/
def headerLines : List String :=
  ["/* tslint:disable */",
   "/*",
   " * TypeScript Compiler Declaration File",
   " * ====================================",
   " * DO NOT EDIT - This file is automatically generated by apilayer",
   " *",
   " * This file contains the TypeScript compiler declarations slightly modified.",
   " * Note: The TypeScript compiler is licensed under the Apache 2.0 license.",
   " */"]

/-- The text of the header. -/
def text : String := Text.joinWith "\n" headerLines

/-- Whether a text begins with the header, whatever its line ends. -/
def isHeaded (s : String) : Bool :=
  headerLines.isPrefixOf (Text.lines s)

end Header

/-! ## Runs -/

/-- What a layer is made of. -/
structure Layer where
  outer : Separation
  consolidated : Namespace
  /-- References that cannot be reached from module scope. -/
  unresolved : List UnresolvedReference

/-- The result of a run. -/
structure Output where
  path : Path
  text : String
  /-- What the file held before the run. -/
  previous : Option String
  unresolved : List UnresolvedReference
  deriving DecidableEq, Repr

/-- Whether the file holds the generated text already. -/
def Output.isUpToDate (o : Output) : Bool :=
  o.previous == some o.text

namespace Layer

/-- The parts of a layer, from the statements of a declaration file. -/
def plan (settings : Settings) (declarations : List Item) : Except LayerError Layer := do
  let name := settings.namespaceName
  let p := settings.policy
  let index ← Index.build name declarations
  p.validate index name
  let separated := Separation.split index p
  let (interfaces, qualified) := Rule.applyAll name p.rules separated.interfaces
  let _ ← qualified
  let outer := { separated with interfaces := interfaces }
  let unresolved := findUnresolved index p outer.items
  if settings.strict && !unresolved.isEmpty then .error (.unresolved unresolved)
  else
    let consolidated ← settings.brand.inject (consolidate index p name)
    return ⟨outer, settings.runtime.addOverwrite consolidated, unresolved⟩

/-- The statements of a layer, without the header and with import types. -/
def statements (settings : Settings) (layer : Layer) : List Item :=
  settings.runtime.imports.map .imports ++ layer.outer.items ++ [.space layer.consolidated] ++
    (Bridge.ofEnums settings.runtime.localName layer.outer.enums).statements

/-- The document of a layer, given an empty one for its file. -/
def document (settings : Settings) (layer : Layer) (file : Document) : Document :=
  ((file.add (layer.statements settings)).stripImportTypes.1).insertText 0 Header.text

variable {σ : Type} [Store σ]

/-- Generates a layer without writing it. -/
def build (settings : Settings) (s : σ) : Except LayerError Output := do
  let declarations ← Store.document s settings.declarationFile
  let layer ← plan settings declarations.statements
  let previous ← Store.readFile s settings.output
  let file ← Store.outputDocument s settings.output
  let text := settings.lineEnd.normalize ((layer.document settings file).text settings.style)
  return ⟨file.path, text, previous, layer.unresolved⟩

/-- Generates a layer and writes it. A file that holds it already is left alone. -/
def generate (settings : Settings) (s : σ) : Except LayerError Output × σ :=
  match build settings s with
  | .error e => (.error e, s)
  | .ok output =>
    if output.isUpToDate then (.ok output, s)
    else
      let (result, s) := Store.save s output.path output.text
      (result.map fun () => output, s)

end Layer

end DeclLayer
