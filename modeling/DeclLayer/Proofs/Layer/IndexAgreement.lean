import DeclLayer.Proofs.Layer.Partition

/-!
# The table and the lists of an index

An index holds its declarations twice: as seven lists, one for each kind, and as a table of names
with their kinds. The check of a policy and the check of the references ask the table, while the
separation, the consolidated namespace and the bridge go through the lists. `Index.Agrees` says that
both tell of the same declarations, the table in the order of first appearance and the lists in the
order of the source. `Index.agrees_build` says that the index of every namespace does, and that each
statement of its blocks is in one list, unless it is of a form that declares nothing there
(`Item.IsOther`).
-/

namespace DeclLayer

/-- A statement that declares nothing in its namespace. -/
inductive Item.IsOther : Item → Prop
  | ambient (b : Namespace) : IsOther (.ambient b)
  | exports (e : Export) : IsOther (.exports e)
  | imports (i : Import) : IsOther (.imports i)
  | verbatim (text : String) : IsOther (.verbatim text)

/-- The statements that are no declarations are those without a kind. -/
theorem Item.isOther_iff {item : Item} : item.IsOther ↔ item.kind? = none := by
  constructor
  · rintro ⟨⟩ <;> rfl
  · intro h
    cases item with
    | ambient b => exact .ambient b
    | exports e => exact .exports e
    | imports i => exact .imports i
    | verbatim text => exact .verbatim text
    | function | interface | typeAlias | cls | var | enum | space => cases h

/-- Every kind of declaration is among all of them. -/
theorem DeclKind.mem_all (kind : DeclKind) : kind ∈ all := by
  cases kind <;> decide

namespace Index

/-- The list of a kind has a declaration of a name. -/
def Declares (index : Index) (kind : DeclKind) (name : String) : Prop :=
  ∃ item ∈ index.listed kind, item.name? = some name

instance (index : Index) (kind : DeclKind) (name : String) : Decidable (index.Declares kind name) :=
  inferInstanceAs (Decidable (∃ item ∈ index.listed kind, _))

/-- The table and the lists of an index tell of the given declarations. -/
structure Agrees (index : Index) (declared : List Item) : Prop where
  /-- A kind is entered under a name if the list of the kind has a declaration of the name. -/
  has_iff (kind : DeclKind) (name : String) :
    index.has kind name = true ↔ index.Declares kind name
  /-- A name is entered if some kind is entered under it. -/
  contains_iff (name : String) :
    index.contains name = true ↔ ∃ kind, index.has kind name = true
  /-- Every declared name is there once, in the order of first appearance. -/
  names : FirstAppearances (namesOf declared) index.names
  /-- So is every kind of a name. -/
  kinds (name : String) :
    FirstAppearances ((declared.filter fun d => d.name? = some name).filterMap Item.kind?)
      (index.kindsOf name)
  /-- A list has the declarations of its kind, in their order. -/
  listed (kind : DeclKind) : index.listed kind = declared.filter fun d => d.kind? = some kind
  /-- The lists together have each declaration as often as it was declared. -/
  perm : (DeclKind.all.flatMap index.listed).Perm declared

section

variable {items : List Item} {kind : DeclKind} {name : String}

/-- The index knows a name as a kind if such a declaration was inserted. -/
theorem has_ofItems_iff : (ofItems items).has kind name = true ↔
    ∃ item ∈ items, item.kind? = some kind ∧ item.name? = some name := by
  rw [has, List.contains_iff_mem, mem_kindsOf_ofItems]

/-- The lists of the index hold a name as a kind if such a declaration was inserted. -/
theorem declares_ofItems_iff : (ofItems items).Declares kind name ↔
    ∃ item ∈ items, item.kind? = some kind ∧ item.name? = some name := by
  simp only [Declares, listed_ofItems, List.mem_filter, decide_eq_true_eq, and_assoc]

/-- The index contains a name if it knows it as some kind. -/
theorem contains_ofItems_iff :
    (ofItems items).contains name = true ↔ ∃ kind, (ofItems items).has kind name = true := by
  simp only [contains_iff, mem_names_ofItems, has_ofItems_iff, Option.isSome_iff_exists]
  constructor
  · rintro ⟨item, hitem, ⟨kind, hkind⟩, hname⟩
    exact ⟨kind, item, hitem, hkind, hname⟩
  · rintro ⟨kind, item, hitem, hkind, hname⟩
    exact ⟨item, hitem, ⟨kind, hkind⟩, hname⟩

/-- A statement is in the list of its kind and in no other. -/
theorem existsUnique_listed_iff {item : Item} (hitem : item ∈ items) :
    (∃! kind, item ∈ (ofItems items).listed kind) ↔ ¬ item.IsOther := by
  simp only [listed_ofItems, List.mem_filter, hitem, true_and, decide_eq_true_eq, Item.isOther_iff]
  cases item.kind? with
  | none => simp [ExistsUnique]
  | some kind => simp

end

/-- The index of some statements agrees with the declarations among them. -/
theorem agrees_ofItems (items : List Item) :
    (ofItems items).Agrees (items.filter fun d => d.kind?.isSome) where
  has_iff kind name := has_ofItems_iff.trans declares_ofItems_iff.symm
  contains_iff name := contains_ofItems_iff
  names := names_ofItems items ▸ firstAppearances_eraseDups _
  kinds name := by
    have hkinds : ((items.filter fun d => d.kind?.isSome).filter fun d =>
        d.name? = some name).filterMap Item.kind? =
          (items.filter fun d => d.name? = some name).filterMap Item.kind? := by
      rw [List.filter_filter, List.filterMap_filter, List.filterMap_filter]
      refine List.filterMap_congr fun d _ => ?_
      cases hkind : d.kind? <;> simp
    rw [hkinds, kindsOf_ofItems]
    exact firstAppearances_eraseDups _
  listed kind := by
    rw [listed_ofItems, List.filter_filter]
    refine List.filter_congr fun d _ => ?_
    cases hkind : d.kind? <;> simp
  perm := by
    have hlisted : (ofItems items).listed = fun kind =>
        items.filter fun d => d.kind? = some kind := funext (listed_ofItems items)
    rw [hlisted]
    refine (flatMap_filter_kind_perm items (by decide : DeclKind.all.Nodup)).trans (.of_eq ?_)
    refine List.filter_congr fun d _ => ?_
    cases hkind : d.kind? with
    | none => simp
    | some kind => simpa using kind.mem_all

/-- In the index of a namespace the table and the lists tell of the declarations in all its blocks,
and every statement of the blocks is in one list exactly, unless it is a quoted module, an export,
an import or verbatim text. -/
theorem agrees_build {name : String} {statements : List Item} {index : Index}
    (h : build name statements = .ok index) :
    index.Agrees (declaredIn name statements) ∧
      ∀ item ∈ (namespacesOf name statements).flatMap Block.items,
        (∃! kind, item ∈ index.listed kind) ↔ ¬ item.IsOther := by
  obtain ⟨-, rfl⟩ := build_ok.1 h
  exact ⟨agrees_ofItems _, fun item => existsUnique_listed_iff⟩

/-- A file with a namespace in two blocks, where both names are declared under two kinds, and with
statements that declare nothing in it. -/
def mixedSource : String :=
  "declare namespace ts { function f(); enum A {} export = A; } " ++
    "declare namespace ts \x7b interface f {} declare module \"m\" {} " ++
      "function f(): A; namespace A {} \x7d"

/-- The second declaration of the function `f` adds no kind to the name, and the export and the
quoted module are in no list. -/
theorem agrees_build_mixed :
    ∃ statements index, parseItems mixedSource = .ok statements ∧
      build "ts" statements = .ok index ∧
      index.names = ["f", "A"] ∧
      index.kindsOf "f" = [.function, .interface] ∧
      index.kindsOf "A" = [.enum, .space] ∧
      (declaredIn "ts" statements).length = 5 ∧
      index.Agrees (declaredIn "ts" statements) := by
  obtain ⟨statements, index, hparse, hindex, hnames, hf, ha, hlength⟩ :
      ∃ statements index, parseItems mixedSource = .ok statements ∧
        build "ts" statements = .ok index ∧ index.names = ["f", "A"] ∧
        index.kindsOf "f" = [.function, .interface] ∧
        index.kindsOf "A" = [.enum, .space] ∧ (declaredIn "ts" statements).length = 5 :=
    exists_index_of_source (by decide +kernel)
  exact ⟨statements, index, hparse, hindex, hnames, hf, ha, hlength, (agrees_build hindex).1⟩

end Index

end DeclLayer
