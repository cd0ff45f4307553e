import DeclLayer.Proofs.Layer.Index
import DeclLayer.Proofs.Layer.Rerun
import Mathlib.Logic.Relation

/-!
# How a namespace is cut into blocks

Of the statements of a file, an index and hence a layer depend on nothing but the statements in the
blocks of the namespace, read in their order (`SameContents`, `Index.build_eq_of_sameContents`,
`Layer.plan_merged`). Two stores that differ in the declaration file only (`DifferOnlyAt`), and
there only in how those statements are cut into blocks and in what stands around the blocks,
therefore give the same layer and the same text (`Layer.build_merged`).

`Regroups` lists the two ways to change a file that matter here: a block is cut in two, and a
statement that is no block of the namespace is put anywhere. Any number of such changes and of their
inverses keeps the contents (`SameContents.of_regroups`), so other statements may also move. Blocks
are told apart by their whole names: one with a dotted name that goes on from that of the namespace
is another statement, too (`Index.build_dotted`).
-/

namespace DeclLayer

/-! ## Blocks -/

/-- The blocks of a name in two lists of statements are those of the first and those of the second.
-/
theorem namespacesOf_append (name : String) (xs ys : List Item) :
    namespacesOf name (xs ++ ys) = namespacesOf name xs ++ namespacesOf name ys :=
  List.filterMap_append

/-- A block in front is the first of the blocks of its name. -/
theorem namespacesOf_block (b : Namespace) (xs : List Item) :
    namespacesOf b.name (.space b :: xs) = b :: namespacesOf b.name xs :=
  List.filterMap_cons_some (if_pos rfl)

/-- A statement that is no block of a namespace is passed over. -/
theorem namespacesOf_other {name : String} {item : Item} (h : namespacesOf name [item] = [])
    (before after : List Item) :
    namespacesOf name (before ++ item :: after) = namespacesOf name (before ++ after) := by
  rw [← List.singleton_append, namespacesOf_append, namespacesOf_append, h, List.nil_append,
    namespacesOf_append]

/-- Two files with blocks of a namespace, and the same statements in them. -/
structure SameContents (name : String) (xs ys : List Item) : Prop where
  left : namespacesOf name xs ≠ []
  right : namespacesOf name ys ≠ []
  items : (namespacesOf name xs).flatMap Block.items = (namespacesOf name ys).flatMap Block.items

/-- A change of a file that keeps what a namespace holds. -/
inductive Regroups (name : String) : List Item → List Item → Prop where
  /-- A block is cut in two. The parts may have comments and modifiers of their own. -/
  | split (before after : List Item) (docs docs₁ docs₂ : Docs) (m m₁ m₂ : Modifiers)
    (xs ys : List Item) :
    Regroups name (before ++ .space ⟨docs, m, name, xs ++ ys⟩ :: after)
      (before ++ .space ⟨docs₁, m₁, name, xs⟩ :: .space ⟨docs₂, m₂, name, ys⟩ :: after)
  /-- Another statement is put somewhere. -/
  | other (before after : List Item) {item : Item} (h : namespacesOf name [item] = []) :
    Regroups name (before ++ after) (before ++ item :: after)

namespace SameContents

variable {name : String} {xs ys : List Item}

/-- One change keeps the contents, and leaves a block. -/
theorem of_step (h : Regroups name xs ys) :
    (namespacesOf name xs).flatMap Block.items = (namespacesOf name ys).flatMap Block.items ∧
      (namespacesOf name xs = [] ↔ namespacesOf name ys = []) := by
  cases h with
  | split before after docs docs₁ docs₂ m m₁ m₂ xs ys =>
    have hone := namespacesOf_block ⟨docs, m, name, xs ++ ys⟩ after
    have htwo := namespacesOf_block ⟨docs₁, m₁, name, xs⟩ (.space ⟨docs₂, m₂, name, ys⟩ :: after)
    have hrest := namespacesOf_block ⟨docs₂, m₂, name, ys⟩ after
    dsimp only at hone htwo hrest
    rw [namespacesOf_append, namespacesOf_append, hone, htwo, hrest]
    simp only [List.flatMap_append, List.flatMap_cons, List.append_assoc, List.append_eq_nil_iff,
      reduceCtorEq, and_false, and_self]
  | other before after h =>
    rw [namespacesOf_other h]
    exact ⟨rfl, Iff.rfl⟩

/-- Any number of changes keeps the contents of a namespace that has a block. -/
theorem of_regroups (h : Relation.EqvGen (Regroups name) xs ys)
    (hblock : namespacesOf name xs ≠ []) : SameContents name xs ys := by
  have hkept : (namespacesOf name xs).flatMap Block.items =
      (namespacesOf name ys).flatMap Block.items ∧
        (namespacesOf name xs = [] ↔ namespacesOf name ys = []) := by
    clear hblock
    induction h with
    | rel _ _ h => exact of_step h
    | refl => exact ⟨rfl, Iff.rfl⟩
    | symm _ _ _ ih => exact ⟨ih.1.symm, ih.2.symm⟩
    | trans _ _ _ _ _ ih ih' => exact ⟨ih.1.trans ih'.1, ih.2.trans ih'.2⟩
  exact ⟨hblock, fun h => hblock (hkept.2.2 h), hkept.1⟩

end SameContents

/-- Files with the same contents have the same index. -/
theorem Index.build_eq_of_sameContents {name : String} {xs ys : List Item}
    (h : SameContents name xs ys) :
    ∃ index, build name xs = .ok index ∧ build name ys = .ok index :=
  ⟨_, build_ok.2 ⟨h.left, rfl⟩, build_ok.2 ⟨h.right, congrArg ofItems h.items⟩⟩

/-! ## Dotted names -/

/-- A block with a longer name is no block of the namespace. -/
theorem namespacesOf_dotted (name rest : String) (docs : Docs) (m : Modifiers)
    (items : List Item) :
    namespacesOf name [.space ⟨docs, m, name ++ "." ++ rest, items⟩] = [] := by
  refine List.filterMap_cons_none (if_neg fun h => ?_)
  have hlength := congrArg String.length h
  simp only [String.length_append] at hlength
  have hdot : ".".length = 1 := rfl
  omega

/-- A block whose dotted name goes on from that of the namespace is no block of the namespace: the
index and the layer are those of the other statements. The same block nested in one of the namespace
is entered with its name, so the two spellings never have the same index. -/
theorem Index.build_dotted (settings : Settings) (rest : String) (docs outerDocs : Docs)
    (m outerModifiers : Modifiers) (items before after : List Item) :
    let name := settings.namespaceName
    let dotted := before ++ .space ⟨docs, m, name ++ "." ++ rest, items⟩ :: after
    let nested := before ++ .space ⟨outerDocs, outerModifiers, name,
      [.space ⟨docs, m, rest, items⟩]⟩ :: after
    build name dotted = build name (before ++ after) ∧
      Layer.plan settings dotted = Layer.plan settings (before ++ after) ∧
      (∃ index, build name nested = .ok index ∧ .space ∈ index.kindsOf rest ∧
        .space ⟨docs, m, rest, items⟩ ∈ index.listed .space) ∧
      build name dotted ≠ build name nested := by
  intro name dotted nested
  have hdotted : build name dotted = build name (before ++ after) := by
    rw [build, build, namespacesOf_other (namespacesOf_dotted name rest docs m items)]
  have hblocks : namespacesOf name nested = namespacesOf name before ++
      ⟨outerDocs, outerModifiers, name, [.space ⟨docs, m, rest, items⟩]⟩ ::
        namespacesOf name after := by
    rw [namespacesOf_append, namespacesOf_block ⟨outerDocs, outerModifiers, name, _⟩]
  have hnested :
      build name nested = .ok (ofItems ((namespacesOf name nested).flatMap Block.items)) :=
    build_ok.2 ⟨by rw [hblocks]; exact List.append_ne_nil_of_right_ne_nil _ (List.cons_ne_nil _ _),
      rfl⟩
  have hmem : .space ⟨docs, m, rest, items⟩ ∈ (namespacesOf name nested).flatMap Block.items := by
    rw [hblocks, List.flatMap_append, List.flatMap_cons]
    exact List.mem_append_right _ (List.mem_cons_self ..)
  refine ⟨hdotted, ?_, ⟨_, hnested, mem_kindsOf_ofItems.2 ⟨_, hmem, rfl, rfl⟩, ?_⟩, fun heq => ?_⟩
  · rw [Layer.plan, Layer.plan, hdotted]
  · rw [listed_ofItems]
    exact List.mem_filter.2 ⟨hmem, rfl⟩
  · -- The nested spelling lists one namespace more.
    obtain ⟨-, hindex⟩ := build_ok.1 (hdotted.symm.trans (heq.trans hnested))
    have hlisted := congrArg (fun index => (index.listed .space).length) hindex
    simp only [listed_ofItems, hblocks, namespacesOf_append, List.flatMap_append,
      List.flatMap_cons, List.filter_append, List.length_append] at hlisted
    have hone : ([.space ⟨docs, m, rest, items⟩].filter
        fun item : Item => item.kind? = some .space).length = 1 := rfl
    omega

example : ((parseItems
      "declare namespace ts { enum A {} } declare namespace ts.server { enum B {} }").toOption.bind
    fun statements => (Index.build "ts" statements).toOption.map Index.names) = some ["A"] := by
  decide +kernel

/-! ## Stores -/

/-- Two stores that differ in one file only, which both read under every path of it. -/
structure DifferOnlyAt {σ : Type} [Store σ] (file : Path) (s t : σ) : Prop where
  other : ∀ path, file.same path = false → Store.read s path = Store.read t path
  own : ∀ path, file.same path = true →
    Store.read s path = Store.read s file ∧ Store.read t path = Store.read t file

/-- Writing one file in two ways makes stores that differ in this file only. -/
theorem DifferOnlyAt.of_write {σ : Type} [Store σ] [LawfulStore σ] {r s t : σ} {file : Path}
    {text text' : String} (hs : Store.write r file text = (.ok (), s))
    (ht : Store.write r file text' = (.ok (), t)) : DifferOnlyAt file s t where
  other path hpath := by
    rw [LawfulStore.read_write hs, LawfulStore.read_write ht, hpath, if_neg Bool.false_ne_true,
      if_neg Bool.false_ne_true]
  own path hpath := by
    rw [LawfulStore.read_write hs, LawfulStore.read_write hs, LawfulStore.read_write ht,
      LawfulStore.read_write ht, hpath, Path.same_refl]
    exact ⟨rfl, rfl⟩

/-- A declaration file that parses can be read. -/
theorem Store.read_of_document {σ : Type} [Store σ] {s : σ} {path : Path} {d : Document}
    (h : Store.document s path = .ok d) : ∃ text, Store.read s path = .ok (some text) := by
  rw [Store.document, Store.document?, Store.readFile] at h
  cases hread : Store.read s path with
  | error reason =>
    rw [hread] at h
    cases h
  | ok content =>
    cases content with
    | none =>
      rw [hread] at h
      cases h
    | some text => exact ⟨text, rfl⟩

namespace Layer

/-- Files with the same contents have the same layer, or fail alike. -/
theorem plan_merged {settings : Settings} {xs ys : List Item}
    (h : SameContents settings.namespaceName xs ys) : plan settings xs = plan settings ys := by
  obtain ⟨index, hxs, hys⟩ := Index.build_eq_of_sameContents h
  rw [plan, plan, hxs, hys]

/-- How a namespace is cut into blocks cannot be seen. Two stores that differ in the declaration
file only, and there only in ways that keep the contents of the namespace, give the same index, and
a run gives the same text and unresolved references or the same error on both. Unless it overwrites
the declaration file, it gives the same altogether. The contents are kept by cutting a block in two
and by putting any other statement anywhere, by the inverses, and by any number of these. -/
theorem build_merged {σ : Type} [Store σ] (settings : Settings) :
    (∀ (s t : σ) (xs ys : Document), DifferOnlyAt settings.declarationFile s t →
      Store.document s settings.declarationFile = .ok xs →
      Store.document t settings.declarationFile = .ok ys →
      SameContents settings.namespaceName xs.statements ys.statements →
      (∃ index, Index.build settings.namespaceName xs.statements = .ok index ∧
        Index.build settings.namespaceName ys.statements = .ok index) ∧
      (build settings s).map (fun output => (output.text, output.unresolved)) =
        (build settings t).map (fun output => (output.text, output.unresolved)) ∧
      (settings.declarationFile.same settings.output = false →
        build settings s = build settings t)) ∧
    ∀ xs ys : List Item, Relation.EqvGen (Regroups settings.namespaceName) xs ys →
      namespacesOf settings.namespaceName xs ≠ [] →
      SameContents settings.namespaceName xs ys := by
  refine ⟨fun s t xs ys hstores hxs hys hsame => ?_, fun xs ys h hblock => .of_regroups h hblock⟩
  have hlayer : ofStore settings s = ofStore settings t := by
    rw [ofStore, ofStore, hxs, hys]
    exact plan_merged hsame
  refine ⟨Index.build_eq_of_sameContents hsame, ?_⟩
  cases hpath : settings.declarationFile.same settings.output with
  | false =>
    have hbuild : build settings s = build settings t := by
      rw [build_eq, build_eq, hlayer, Store.readFile, hstores.other _ hpath, Store.readFile]
    exact ⟨congrArg _ hbuild, fun _ => hbuild⟩
  | true =>
    -- The output file is the declaration file, which both stores can read.
    obtain ⟨text, hs⟩ := Store.read_of_document hxs
    obtain ⟨text', ht⟩ := Store.read_of_document hys
    obtain ⟨hs', ht'⟩ := hstores.own _ hpath
    have hreadS : Store.readFile s settings.output = .ok (some text) := by
      rw [Store.readFile, hs', hs]
    have hreadT : Store.readFile t settings.output = .ok (some text') := by
      rw [Store.readFile, ht', ht]
    rw [build_content hreadS, build_content hreadT, hlayer]
    exact ⟨rfl, fun h => by cases h⟩

/-- A store with a namespace in one block. -/
def wholeStore : MemoryStore :=
  MemoryStore.empty.insert smallSettings.declarationFile
    "declare namespace ts { enum A {} interface Node {} }"

/-- A store with the same namespace in two blocks, and something else between them. -/
def cutStore : MemoryStore :=
  MemoryStore.empty.insert smallSettings.declarationFile
    "namespace ts { enum A {} } export = ts; namespace ts { interface Node {} }"

/-- A namespace in one block and the same namespace in two blocks give the same output. -/
theorem build_merged_two_blocks :
    (build smallSettings wholeStore).toBool = true ∧
      build smallSettings wholeStore = build smallSettings cutStore := by
  have hwhole : Store.document wholeStore smallSettings.declarationFile =
      .ok ⟨smallSettings.declarationFile, [.space ⟨[], .ambient false, "ts",
        [.enum ⟨[], .plain, false, "A", []⟩, .interface ⟨[], .plain, "Node", [], [], []⟩]⟩],
        none⟩ := by
    with_unfolding_all rfl
  have hcut : Store.document cutStore smallSettings.declarationFile =
      .ok ⟨smallSettings.declarationFile, [.space ⟨[], .plain, "ts",
        [.enum ⟨[], .plain, false, "A", []⟩]⟩, .exports (.equals "ts"), .space ⟨[], .plain, "ts",
        [.interface ⟨[], .plain, "Node", [], [], []⟩]⟩], none⟩ := by
    with_unfolding_all rfl
  have hstores : DifferOnlyAt smallSettings.declarationFile wholeStore cutStore :=
    .of_write rfl rfl
  refine ⟨by decide +kernel, ?_⟩
  refine ((build_merged smallSettings).1 _ _ _ _ hstores hwhole hcut ⟨?_, ?_, rfl⟩).2.2 ?_
  · exact List.cons_ne_nil _ _
  · exact List.cons_ne_nil _ _
  · decide +kernel

end Layer

end DeclLayer
