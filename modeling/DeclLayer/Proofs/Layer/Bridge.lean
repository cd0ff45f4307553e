import DeclLayer.Layer.Generate
import DeclLayer.Proofs.Layer.Partition

/-!
# What the bridge covers

Three parts of a layer have to agree on the separated enums: the ambient declarations, the bindings
of their values, and the list of exports. The first are taken from the index, with the policy as a
filter; the other two go through the names of the bridge. `Bridge.Covers` says what it means that
they agree with the policy and with each other, and `Bridge.covers_ofEnums` that they do, for every
policy that fits the index.

The names are those of the separated enums without repetitions, and stand in the order in which the
index has them first (`pairwise_eraseDups_filter`).
-/

namespace DeclLayer

namespace Index

/-- The enums of the index of some statements are the enums among them. -/
theorem mem_enums_ofItems {items : List Item} {d : EnumDecl} :
    d ∈ (ofItems items).enums ↔ .enum d ∈ items := by
  have hlisted := listed_ofItems items .enum
  have hmem : Item.enum d ∈ (ofItems items).listed .enum ↔ d ∈ (ofItems items).enums := by
    simp [listed]
  rw [← hmem, hlisted, List.mem_filter]
  exact and_iff_left rfl

/-- A name that is declared as an enum has an enum. -/
theorem exists_enum_of_kindsOf {items : List Item} {name : String}
    (h : .enum ∈ (ofItems items).kindsOf name) : ∃ d ∈ (ofItems items).enums, d.name = name := by
  obtain ⟨item, hitem, hkind, hname⟩ := mem_kindsOf_ofItems.1 h
  cases item with
  | enum d => exact ⟨d, mem_enums_ofItems.2 hitem, Option.some.inj hname⟩
  | _ => cases hkind

end Index

namespace Separation

variable {index : Index} {p : Policy} {d : EnumDecl}

/-- The separated enums are those of the index that the policy lists, only declared. -/
theorem mem_split_enums :
    d ∈ (split index p).enums ↔
      ∃ e ∈ index.enums, e.name ∈ p.enums ∧ d = { e with modifiers := .ambient false } := by
  simp only [split, List.mem_map, List.mem_filter, Policy.hoists, Policy.listed,
    List.contains_iff_mem, and_assoc, eq_comm (a := d)]

/-- The names of the separated enums. -/
theorem names_split_enums :
    (split index p).enums.map EnumDecl.name =
      (index.enums.map EnumDecl.name).filter p.enums.contains := by
  rw [split, List.map_map, List.filter_map]
  rfl

/-- An enum in the consolidated namespace is not listed by the policy. -/
theorem not_mem_enums_of_consolidate {name : String}
    (h : .enum d ∈ (consolidate index p name).items) : d.name ∉ p.enums := by
  simp only [consolidate, List.mem_append, List.mem_map, List.mem_filter, reduceCtorEq, and_false,
    exists_false, false_or, or_false, Item.enum.injEq] at h
  obtain ⟨e, ⟨-, hkept⟩, rfl⟩ := h
  simpa [Policy.hoists, Policy.listed] using hkept

end Separation

namespace Bridge

/-- A bridge agrees with the enums that a policy lists, and with their declarations. -/
structure Covers (b : Bridge) (index : Index) (p : Policy) (localName namespaceName : String) :
    Prop where
  /-- Each name is there once. -/
  nodup : b.names.Nodup
  /-- The names stand in the order in which the index has them first. -/
  order : b.names.Pairwise fun m n =>
    (index.enums.map EnumDecl.name).idxOf m < (index.enums.map EnumDecl.name).idxOf n
  /-- The names are those that the policy lists. -/
  mem_names (name : String) : name ∈ b.names ↔ name ∈ p.enums
  /-- Behind the preamble there is one line for each name. -/
  bindings : b.bindingStatements = Text.joinWith "\n" (preamble ++ b.names.map fun name =>
    "tempThis[\"" ++ name ++ "\"] = " ++ (localName ++ "." ++ name) ++ ";")
  /-- The same names are exported, under no other names. -/
  exports : b.exported = .named (b.names.map fun name => (name, none))
  /-- Each name has a separated enum. -/
  declared (name : String) (h : name ∈ b.names) :
    ∃ d ∈ (Separation.split index p).enums, d.name = name
  /-- The separated enums are declared and not exported. -/
  ambient (d : EnumDecl) (h : d ∈ (Separation.split index p).enums) :
    d.modifiers.declared = true ∧ d.modifiers.exported = false
  /-- No enum of such a name stays in the namespace. -/
  moved (name : String) (h : name ∈ b.names) (d : EnumDecl)
    (hd : .enum d ∈ (consolidate index p namespaceName).items) : d.name ≠ name
  /-- The bindings and right behind them the exports are added to a file, if there are names. -/
  added (file : Document) (h : p.enums ≠ []) : (file.add b.statements).statements =
    file.statements ++ [.verbatim b.bindingStatements, .exports b.exported]
  /-- Nothing is added exactly if there are no names. -/
  unchanged (file : Document) :
    (file.add b.statements).statements = file.statements ↔ p.enums = []

section

variable {statements : List Item} {index : Index} {p : Policy} {namespaceName : String}
  (hindex : Index.build namespaceName statements = .ok index)
  (hvalid : p.validate index namespaceName = .ok ())
include hindex hvalid

/-- What a policy that fits the index lists as an enum has a separated enum. -/
theorem exists_split_enum {name : String} (h : name ∈ p.enums) :
    ∃ d ∈ (Separation.split index p).enums, d.name = name := by
  have hhoists : p.hoists .enum name = true := List.contains_iff_mem.2 h
  have hkinds := Policy.mem_kindsOf_of_hoists hvalid hhoists
  obtain ⟨-, rfl⟩ := Index.build_ok.1 hindex
  obtain ⟨d, hd, rfl⟩ := Index.exists_enum_of_kindsOf hkinds
  exact ⟨_, Separation.mem_split_enums.2 ⟨d, hd, h, rfl⟩, rfl⟩

/-- The names of the bridge are those of the policy. -/
theorem mem_names_ofEnums {localName name : String} :
    name ∈ (ofEnums localName (Separation.split index p).enums).names ↔ name ∈ p.enums := by
  rw [ofEnums, List.mem_eraseDups, List.mem_map]
  refine ⟨fun ⟨d, hd, hname⟩ => ?_, exists_split_enum hindex hvalid⟩
  obtain ⟨e, -, hlisted, rfl⟩ := Separation.mem_split_enums.1 hd
  exact hname ▸ hlisted

/-- The bridge for the separated enums covers them, if the policy fits the index. -/
theorem covers_ofEnums (localName : String) :
    (ofEnums localName (Separation.split index p).enums).Covers index p localName
      namespaceName := by
  have horder := pairwise_eraseDups_filter (index.enums.map EnumDecl.name) p.enums.contains
  rw [← Separation.names_split_enums] at horder
  have hnames (name : String) :
      name ∈ (ofEnums localName (Separation.split index p).enums).names ↔ name ∈ p.enums :=
    mem_names_ofEnums hindex hvalid
  have hempty : (ofEnums localName (Separation.split index p).enums).names = [] ↔ p.enums = [] := by
    simp only [List.eq_nil_iff_forall_not_mem, hnames]
  refine {
    nodup := horder.imp (S := (· ≠ ·)) fun h heq => Nat.lt_irrefl _ (heq ▸ h)
    order := horder
    mem_names := hnames
    bindings := by rw [bindingStatements, Bridge.bindings, List.map_map]; rfl
    exports := rfl
    declared := fun name h => exists_split_enum hindex hvalid ((hnames name).1 h)
    ambient := fun d hd => ?_
    moved := fun name h d hd heq => ?_
    added := fun file h => ?_
    unchanged := fun file => ?_ }
  · obtain ⟨e, -, -, rfl⟩ := Separation.mem_split_enums.1 hd
    exact ⟨rfl, rfl⟩
  · exact Separation.not_mem_enums_of_consolidate hd (heq ▸ (hnames name).1 h)
  · rw [Document.add, Bridge.statements, if_neg]
    rwa [List.isEmpty_iff, hempty]
  · rw [Document.add, List.append_right_eq_self, Bridge.statements, ← hempty]
    cases (ofEnums localName (Separation.split index p).enums).names <;> simp

end

/-- A file with a namespace that declares the enum `A` in two blocks, and also as an interface. -/
def repeatedSource : String :=
  "declare namespace ts { enum A {} interface A {} enum B {} } " ++
    "declare namespace ts { enum A { X } enum C {} }"

/-- A policy that lists an enum twice. -/
def repeatedPolicy : Policy := { Policy.empty with enums := ["C", "A", "C"] }

/-- An enum that is declared twice is in the bridge once, where it appears first. -/
theorem covers_ofEnums_repeated :
    ∃ statements index, parseItems repeatedSource = .ok statements ∧
      Index.build "ts" statements = .ok index ∧
      (ofEnums "compiler" (Separation.split index repeatedPolicy).enums).names = ["A", "C"] ∧
      (ofEnums "compiler" (Separation.split index repeatedPolicy).enums).Covers index repeatedPolicy
        "compiler" "ts" := by
  obtain ⟨statements, index, hparse, hindex, hvalid, hnames⟩ :
      ∃ statements index, parseItems repeatedSource = .ok statements ∧
        Index.build "ts" statements = .ok index ∧
        repeatedPolicy.validate index "ts" = .ok () ∧
        (ofEnums "compiler" (Separation.split index repeatedPolicy).enums).names = ["A", "C"] :=
    exists_index_of_source (by decide +kernel)
  exact ⟨statements, index, hparse, hindex, hnames, covers_ofEnums hindex hvalid "compiler"⟩

end Bridge

end DeclLayer
