import DeclLayer.Layer.Index
import DeclLayer.Proofs.Layer.FirstAppearance

/-!
# What an index holds

`Index.listed` gives the seven lists of an index as one function of the kind. Entering a statement
appends it to the list of its kind, and enters its name and its kind in the table, where a new name
goes to the end and a new kind to the end of the kinds of its name (`Index.listed_insert`,
`NameTable.names_insert`, `NameTable.lookup_insert`). Hence the index of some statements lists, for
each kind, the statements of that kind in their order (`Index.listed_ofItems`); its names are those
of the statements, and the kinds of a name those of the statements of that name, each once and in
the order of their first appearance (`Index.names_ofItems`, `Index.kindsOf_ofItems`).
-/

namespace DeclLayer

/-! ## The lists -/

namespace Index

/-- The declarations of a kind, as statements. -/
def listed (index : Index) : DeclKind → List Item
  | .enum => index.enums.map .enum
  | .interface => index.interfaces.map .interface
  | .typeAlias => index.aliases.map .typeAlias
  | .cls => index.classes.map .cls
  | .function => index.functions.map .function
  | .var => index.vars.map .var
  | .space => index.namespaces.map .space

/-- Inserting a declaration appends it to the list of its kind and to no other. -/
theorem listed_insert (index : Index) (item : Item) (kind : DeclKind) :
    (index.insert item).listed kind =
      index.listed kind ++ [item].filter fun item => item.kind? = some kind := by
  cases item <;> cases kind <;> simp [insert, enter, listed, Item.kind?]

/-- Inserting declarations appends those of a kind to its list, in order. -/
theorem listed_foldl (items : List Item) (index : Index) (kind : DeclKind) :
    (items.foldl insert index).listed kind =
      index.listed kind ++ items.filter fun item => item.kind? = some kind := by
  induction items generalizing index with
  | nil => simp
  | cons item items ih =>
    rw [List.foldl_cons, ih, listed_insert, List.append_assoc, ← List.filter_append]
    rfl

/-- The index of some statements lists the statements of each kind in their order. -/
theorem listed_ofItems (items : List Item) (kind : DeclKind) :
    (ofItems items).listed kind = items.filter fun item => item.kind? = some kind := by
  rw [ofItems, listed_foldl]
  cases kind <;> rfl

end Index

/-! ## The names -/

namespace NameTable

/-- Looking up a name in a table looks at its first entry and then at the others. -/
theorem lookup_cons (name n : String) (kinds : List DeclKind) (table : NameTable) :
    List.lookup name ((n, kinds) :: table) =
      if name = n then some kinds else List.lookup name table := by
  rw [List.lookup_cons]
  by_cases h : name = n
  · rw [if_pos h, beq_iff_eq.2 h]
  · rw [if_neg h, beq_false_of_ne h]

/-- Entering a name under a kind adds the kind to the kinds of that name. -/
theorem lookup_insert {name n : String} {kind : DeclKind} {table : NameTable} :
    (table.insert n kind).lookup name =
      if name = n then
        let kinds := (table.lookup n).getD []
        some (if kind ∈ kinds then kinds else kinds ++ [kind])
      else table.lookup name := by
  induction table with
  | nil => by_cases h : name = n <;> simp [insert, lookup_cons, h]
  | cons entry table ih =>
    obtain ⟨n', kinds⟩ := entry
    rw [insert]
    by_cases hn : n' = n
    · subst hn
      by_cases h : name = n' <;> simp [lookup_cons, h]
    · rw [if_neg hn, lookup_cons, lookup_cons, lookup_cons, if_neg (Ne.symm hn), ih]
      by_cases h : name = n' <;> simp [h, hn]

/-- Entering a name puts it behind the other names, if it is new. -/
theorem names_insert {n : String} {kind : DeclKind} {table : NameTable} :
    (table.insert n kind).map Prod.fst =
      if n ∈ table.map Prod.fst then table.map Prod.fst else table.map Prod.fst ++ [n] := by
  induction table with
  | nil => simp [insert]
  | cons entry table ih =>
    obtain ⟨n', kinds⟩ := entry
    rw [insert]
    by_cases hn : n' = n
    · simp [hn]
    · rw [if_neg hn, List.map_cons, ih, List.map_cons]
      by_cases h : n ∈ table.map Prod.fst <;> simp [h, Ne.symm hn]

end NameTable

/-- A statement declares nothing, or has a kind and a name. -/
theorem Item.declares_cases (item : Item) :
    item.kind? = none ∨ ∃ kind name, item.kind? = some kind ∧ item.name? = some name := by
  cases item <;> simp [kind?, name?]

namespace Index

section

variable {index : Index} {item : Item} {items : List Item} {kind : DeclKind} {name : String}

/-- A statement that is no declaration is passed over. -/
theorem insert_other (hkind : item.kind? = none) : index.insert item = index := by
  cases item <;> first | rfl | cases hkind

/-- What a statement enters into the table of names. -/
theorem table_insert (hkind : item.kind? = some kind) (hname : item.name? = some name) :
    (index.insert item).table = index.table.insert name kind := by
  cases item <;> cases hkind <;> cases hname <;> rfl

/-- The index of some statements is built from the left, one statement after the other. -/
theorem ofItems_concat : ofItems (items ++ [item]) = (ofItems items).insert item :=
  List.foldl_concat ..

/-- The names of an index are those that its statements declare, in the order of their first
appearance. -/
theorem names_ofItems (items : List Item) :
    (ofItems items).names =
      ((items.filter fun d => d.kind?.isSome).filterMap Item.name?).eraseDups := by
  induction items using List.reverseRecOn with
  | nil => rfl
  | append_singleton items item ih =>
    rw [ofItems_concat, List.filter_append, List.filterMap_append]
    obtain hkind | ⟨kind, name, hkind, hname⟩ := item.declares_cases
    · simpa [insert_other hkind, hkind] using ih
    · have hone : ([item].filter fun d => d.kind?.isSome).filterMap Item.name? = [name] := by
        simp [hkind, hname]
      rw [hone, eraseDups_concat, ← ih, names, table_insert hkind hname, NameTable.names_insert,
        ← names]
      exact if_congr (by rw [ih, List.mem_eraseDups]) rfl rfl

/-- The kinds of a name are those of the statements that declare it, in the order of their first
appearance. -/
theorem kindsOf_ofItems (items : List Item) (name : String) :
    (ofItems items).kindsOf name =
      ((items.filter fun d => d.name? = some name).filterMap Item.kind?).eraseDups := by
  induction items using List.reverseRecOn with
  | nil => rfl
  | append_singleton items item ih =>
    rw [ofItems_concat, List.filter_append, List.filterMap_append]
    obtain hkind | ⟨kind, n, hkind, hname⟩ := item.declares_cases
    · have hnone : ([item].filter fun d => d.name? = some name).filterMap Item.kind? = [] := by
        by_cases h : item.name? = some name <;> simp [h, hkind]
      rw [insert_other hkind, hnone, List.append_nil, ih]
    · rw [kindsOf, table_insert hkind hname, NameTable.lookup_insert]
      by_cases h : name = n
      · subst h
        have hone : ([item].filter fun d => d.name? = some name).filterMap Item.kind? = [kind] := by
          simp [hkind, hname]
        rw [hone, eraseDups_concat, ← ih, if_pos rfl]
        exact if_congr (by rw [← kindsOf, ih, List.mem_eraseDups]) rfl rfl
      · have hnone : ([item].filter fun d => d.name? = some name).filterMap Item.kind? = [] := by
          simp [hname, Ne.symm h]
        rw [hnone, List.append_nil, if_neg h, ← kindsOf, ih]

/-- The kinds of a name are those of the statements that declare it. -/
theorem mem_kindsOf_ofItems : kind ∈ (ofItems items).kindsOf name ↔
    ∃ item ∈ items, item.kind? = some kind ∧ item.name? = some name := by
  simp only [kindsOf_ofItems, List.mem_eraseDups, List.mem_filterMap, List.mem_filter,
    decide_eq_true_eq, and_assoc, and_comm (a := Item.name? _ = _)]

/-- The names of an index are those that its statements declare. -/
theorem mem_names_ofItems : name ∈ (ofItems items).names ↔
    ∃ item ∈ items, item.kind?.isSome ∧ item.name? = some name := by
  simp only [names_ofItems, List.mem_eraseDups, List.mem_filterMap, List.mem_filter, and_assoc]

/-- A name has an entry in the table if it is one of the names. -/
theorem contains_iff : index.contains name = true ↔ name ∈ index.names := by
  simp [contains, names, List.lookup_isSome_iff]

/-- A name of an index has a kind. -/
theorem exists_mem_kindsOf (h : name ∈ (ofItems items).names) :
    ∃ kind, kind ∈ (ofItems items).kindsOf name := by
  obtain ⟨item, hitem, hkind, hname⟩ := mem_names_ofItems.1 h
  obtain ⟨kind, hkind⟩ := Option.isSome_iff_exists.1 hkind
  exact ⟨kind, mem_kindsOf_ofItems.2 ⟨item, hitem, hkind, hname⟩⟩

end

/-- The index of a namespace is that of the statements in its blocks, of which there has to be
one. -/
theorem build_ok {name : String} {statements : List Item} {index : Index} :
    build name statements = .ok index ↔ namespacesOf name statements ≠ [] ∧
      index = ofItems ((namespacesOf name statements).flatMap Block.items) := by
  rw [build]
  cases namespacesOf name statements with
  | nil => exact ⟨nofun, fun h => absurd rfl h.1⟩
  | cons b blocks =>
    exact ⟨fun h => ⟨List.cons_ne_nil _ _, (Except.ok.inj h).symm⟩, fun h => congrArg _ h.2.symm⟩

end Index

end DeclLayer
