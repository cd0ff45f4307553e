import DeclLayer.Layer.Index

/-!
# Separation

A policy has to fit the namespace it is used on (`Policy.validate`): what it moves and qualifies has
to exist, and it must not qualify what it moves. It puts the declarations of the namespace in two
parts: those that move to module scope (`Separation.split`), and the consolidated namespace with the
others (`consolidate`). Only the modifiers of the declarations change.
-/

namespace DeclLayer

/-! ## Checking a policy -/

namespace Policy

/-- The names of the policy that the namespace does not declare: first those listed by kind, then,
rule by rule, the interface, which also has to be listed, and the names. Each is given once. -/
def unknownNames (p : Policy) (index : Index) : List String :=
  let listed := [DeclKind.enum, .interface, .typeAlias].flatMap fun kind =>
    (p.listed kind).filter fun name => !index.has kind name
  let ruled := p.rules.flatMap fun rule =>
    (if p.hoists .interface rule.interface && index.has .interface rule.interface then []
      else [rule.interface]) ++
      rule.names.filter fun name => !index.contains name
  (listed ++ ruled).eraseDups

/-- The first rule with names that the policy moves, and those names. -/
def hoistedNames? (p : Policy) : List Rule → Option (String × List String)
  | [] => none
  | rule :: rules =>
    match rule.names.filter p.hoistsName with
    | [] => p.hoistedNames? rules
    | names => some (rule.interface, names)

/-- Checks a policy against the index of the namespace. All unknown names are reported together. -/
def validate (p : Policy) (index : Index) (namespaceName : String) : Except LayerError Unit :=
  match p.unknownNames index with
  | [] =>
    match p.hoistedNames? p.rules with
    | some (interface, names) => .error (.hoistedNames interface names)
    | none => .ok ()
  | names => .error (.unknownNames namespaceName names)

end Policy

/-! ## The two parts -/

/-- The declarations that move to module scope, each kind in the order of the source. -/
structure Separation where
  enums : List EnumDecl
  interfaces : List InterfaceDecl
  aliases : List AliasDecl

namespace Separation

/-- Takes the separated declarations out of an index. The enums are only declared, because their
values come from elsewhere; the others are exported. -/
def split (index : Index) (p : Policy) : Separation where
  enums := (index.enums.filter fun d => p.hoists .enum d.name).map fun d =>
    { d with modifiers := .ambient false }
  interfaces := (index.interfaces.filter fun d => p.hoists .interface d.name).map fun d =>
    { d with modifiers := .exportedOnly }
  aliases := (index.aliases.filter fun d => p.hoists .typeAlias d.name).map fun d =>
    { d with modifiers := .exportedOnly }

/-- The separated declarations as statements: enums, interfaces, aliases. -/
def items (s : Separation) : List Item :=
  s.enums.map .enum ++ s.interfaces.map .interface ++ s.aliases.map .typeAlias

end Separation

/-- The exported namespace with everything that does not move: namespaces, interfaces, enums,
aliases, classes, functions, variables. What has a value is declared as well. -/
def consolidate (index : Index) (p : Policy) (name : String) : Namespace where
  docs := []
  modifiers := .exportedOnly
  name := name
  items :=
    (index.namespaces.map fun b => .space { b with modifiers := .ambient true }) ++
    ((index.interfaces.filter fun d => !p.hoists .interface d.name).map fun d =>
      .interface { d with modifiers := .exportedOnly }) ++
    ((index.enums.filter fun d => !p.hoists .enum d.name).map fun d =>
      .enum { d with modifiers := .exportedOnly }) ++
    ((index.aliases.filter fun d => !p.hoists .typeAlias d.name).map fun d =>
      .typeAlias { d with modifiers := .exportedOnly }) ++
    (index.classes.map fun d => .cls { d with modifiers := .ambient true }) ++
    (index.functions.map fun d => .function { d with modifiers := .ambient true }) ++
    (index.vars.map fun d => .var { d with modifiers := .ambient true })

end DeclLayer
