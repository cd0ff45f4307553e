import DeclLayer.Proofs.Parse.ItemProgress
import DeclLayer.Proofs.Parse.TypeNames

/-!
# The names in statements that were read

The pieces of the grammar of statements, as in the module on types: all types in a statement that is
read are sound (`Item.Sound`). So the names in all types of a source are dotted names, or come from
a dangling dot in it (`parseItems_sound`).
-/

namespace DeclLayer

open Token

/-- All nodes of a statement are sound. -/
def Item.Sound (ks : List Kind) (item : Item) : Prop :=
  ∀ node ∈ item.nodes, node.Sound ks

/-- A statement is sound if the types in it are and the statements nested in it are. -/
theorem Item.sound_iff {ks : List Kind} {item : Item} :
    item.Sound ks ↔ Part.Sound ks item.parts ∧ ∀ inner ∈ item.nested, inner.Sound ks := by
  constructor
  · exact fun h => ⟨fun part hpart node hnode => h node (mem_nodes_of_part hpart hnode),
      fun inner hinner node hnode => h node (mem_nodes_of_nested hinner hnode)⟩
  · rintro ⟨hparts, hnested⟩ node hnode
    rw [Item.nodes_eq] at hnode
    rcases List.mem_cons.1 hnode with rfl | hnode
    · trivial
    · rcases List.mem_append.1 hnode with hnode | hnode
      · obtain ⟨part, hpart, hnode⟩ := List.mem_flatMap.1 hnode
        exact hparts part hpart node hnode
      · obtain ⟨inner, hinner, hnode⟩ := mem_nodesList.1 hnode
        exact hnested inner hinner node hnode

/-- A statement without statements in it. -/
theorem Item.sound_of_parts {ks : List Kind} {item : Item} (hnested : item.nested = [])
    (h : Part.Sound ks item.parts) : item.Sound ks :=
  Item.sound_iff.2 ⟨h, hnested ▸ nofun⟩

namespace Parser.Yields

variable {ks : List Kind} {docs : Docs} {modifiers : Modifiers}

section

variable (hwords : WordsOnly ks)

include hwords

/-! ## Classes -/

omit hwords in
/-- The semicolon behind a class member answers no name. -/
theorem skipSemicolon : Yields ks skipSemicolon Anything := .forward fun _ => .skipSemicolon

/-- The types in a class member with a name are sound. -/
theorem namedClassMember {w : MemberModifiers} : Yields ks (namedClassMember docs w)
    fun ms => ∀ m ∈ ms, Part.Sound ks m.parts := by
  refine .bind (.forward fun _ => .accessorKind) fun kind _ =>
    .bind (.attempt (.forward fun _ => (Agrees.propertyName).weaken)) fun name _ => ?_
  cases name with
  | none => exact .bind .skip fun _ _ => .pure nofun
  | some name =>
    refine .bind (.accept _) fun _ _ =>
      .bind (.look (Agrees.looks_continuesAsMethod _)) fun _ _ => .ite ?_ ?_
    · refine .bind (signature (.type hwords) hwords) fun _ hsignature =>
        .bind (annotatedReturn (.type hwords) hwords) fun _ hreturns =>
        .bind .skipSemicolon fun _ _ => .pure (List.forall_mem_singleton.2 ?_)
      simpa [ClassMember.parts] using ⟨hsignature, hreturns⟩
    · refine .bind (.after (.type hwords)) fun _ htype => .bind .skipSemicolon fun _ _ =>
        .pure (List.forall_mem_singleton.2 ?_)
      simpa [ClassMember.parts] using htype

/-- The types in a class member, read after its modifiers, are sound. -/
theorem classMemberAfter {w : MemberModifiers} : Yields ks (classMemberAfter docs w)
    fun ms => ∀ m ∈ ms, Part.Sound ks m.parts := by
  refine .bind (.look (Agrees.looks_check _)) fun _ _ =>
    .bind (.look (Agrees.looks_peekAt 1)) fun _ _ => .ite ?_ ?_
  · refine .bind .skip fun _ _ => .bind (params (.type hwords) hwords) fun _ hparams =>
      .bind .skipSemicolon fun _ _ => .pure (List.forall_mem_singleton.2 ?_)
    simpa [ClassMember.parts] using hparams.2
  refine .bind (.look Agrees.looks_atIndexSignature) fun _ _ => .ite ?_ (namedClassMember hwords)
  exact .bind (indexSignature (.type hwords) hwords) fun _ hi =>
    .pure (List.forall_mem_singleton.2 hi)

/-- The types in a class member are sound. -/
theorem classMember : Yields ks classMember fun ms => ∀ m ∈ ms, Part.Sound ks m.parts :=
  .bind (.look Agrees.looks_docs) fun _ _ =>
    .loop (fun t => .memberModifiersFor (Nat.le_refl t) (Nat.le_refl t)) fun _ =>
      classMemberAfter hwords

/-- The types behind `extends` or `implements` are sound. -/
theorem typesAfter {word : Keyword} :
    Yields ks (typesAfter word) fun tys => ∀ t ∈ tys, t.Sound ks := by
  refine .bind (.after (.separated (.type hwords))) fun found hfound => .pure ?_
  cases found with
  | none => exact nofun
  | some tys => exact hfound tys rfl

/-- The types in a class are sound. -/
theorem classDecl {isAbstract : Bool} : Yields ks (classDecl docs modifiers isAbstract)
    fun d => (Item.cls d).Sound ks := by
  refine .bind (.expect _) fun _ _ => .bind (.identifier hwords) fun _ _ =>
    .bind (typeParams (.type hwords) hwords) fun _ htypeParams =>
    .bind (.after (.type hwords)) fun _ hbase => .bind (typesAfter hwords) fun _ hinterfaces =>
    .bind (.expect _) fun _ _ =>
    .bind (.many (Agrees.testsEnd_atEnd _) (classMember hwords)) fun _ hmembers =>
    .bind (.expect _) fun _ _ => .pure (Item.sound_of_parts rfl ?_)
  simpa [Item.parts] using ⟨htypeParams, hbase, hinterfaces, hmembers⟩

/-! ## Other declarations -/

/-- The types in a function are sound. -/
theorem functionDecl :
    Yields ks (functionDecl docs modifiers) fun d => (Item.function d).Sound ks := by
  refine .bind (.expect _) fun _ _ => .bind (.identifier hwords) fun _ _ =>
    .bind (signature (.type hwords) hwords) fun _ hsignature =>
    .bind (annotatedReturn (.type hwords) hwords) fun _ hreturns =>
    .bind .skipSemicolon fun _ _ => .pure (Item.sound_of_parts rfl ?_)
  simpa [Item.parts] using ⟨hsignature, hreturns⟩

/-- The types in an interface are sound. -/
theorem interfaceDecl :
    Yields ks (interfaceDecl docs modifiers) fun d => (Item.interface d).Sound ks := by
  refine .bind (.expect _) fun _ _ => .bind (.identifier hwords) fun _ _ =>
    .bind (typeParams (.type hwords) hwords) fun _ htypeParams =>
    .bind (typesAfter hwords) fun _ hbases =>
    .bind (members (.type hwords) hwords) fun _ hmembers => .pure (Item.sound_of_parts rfl ?_)
  simpa [Item.parts] using ⟨htypeParams, hbases, hmembers⟩

/-- The types in a type alias are sound. -/
theorem aliasDecl : Yields ks (aliasDecl docs modifiers) fun d => (Item.typeAlias d).Sound ks := by
  refine .bind (.expect _) fun _ _ => .bind (.identifier hwords) fun _ _ =>
    .bind (typeParams (.type hwords) hwords) fun _ htypeParams => .bind (.expect _) fun _ _ =>
    .bind (.type hwords) fun _ htype => .bind .skipSemicolon fun _ _ =>
    .pure (Item.sound_of_parts rfl ?_)
  simpa [Item.parts] using ⟨htypeParams, htype⟩

omit hwords in
/-- An initializer is text, in which no name is looked for. -/
theorem optionalInitializer : Yields ks optionalInitializer Anything :=
  .forward fun _ => .optionalInitializer

/-- The type of a variable is sound. -/
theorem variableDecl {kind : VariableKind} :
    Yields ks (variableDecl modifiers kind) fun d => (Item.var d).Sound ks := by
  refine .bind (.forward fun _ => (Agrees.propertyName).weaken) fun _ _ =>
    .bind (.after (.type hwords)) fun _ htype => .bind .optionalInitializer fun _ _ =>
    .pure (Item.sound_of_parts rfl ?_)
  simpa [Item.parts] using htype

omit hwords in
/-- Documentation changes no types. -/
theorem documentFirst_sound {vars : List VariableDecl} (h : ∀ d ∈ vars, (Item.var d).Sound ks) :
    ∀ d ∈ documentFirst docs vars, (Item.var d).Sound ks := by
  cases vars with
  | nil => exact nofun
  | cons d ds =>
    obtain ⟨hd, hds⟩ := List.forall_mem_cons.1 h
    exact List.forall_mem_cons.2 ⟨Item.sound_of_parts rfl (Item.sound_iff.1 hd).1, hds⟩

/-- The types of the variables of a statement are sound. -/
theorem variableDecls {kind : VariableKind} : Yields ks (variableDecls docs modifiers kind)
    fun ds => ∀ d ∈ ds, (Item.var d).Sound ks :=
  .bind .skip fun _ _ => .bind (.separated (variableDecl hwords)) fun _ hvars =>
    .bind .skipSemicolon fun _ _ => .pure (documentFirst_sound hvars)

omit hwords in
/-- There are no types in an enum. -/
theorem enumDecl {isConst : Bool} :
    Yields ks (do return [Item.enum (← enumDecl docs modifiers isConst)])
      fun found => ∀ item ∈ found, item.Sound ks :=
  .bind (.forward fun _ => (Agrees.enumDecl).weaken) fun _ _ =>
    .pure (List.forall_mem_singleton.2 (Item.sound_of_parts rfl Part.sound_nil))

omit hwords in
/-- There are no types in an export statement. -/
theorem plainExport : Yields ks plainExport
    fun found => ∀ items, found = some items → ∀ item ∈ items, item.Sound ks := by
  have hexports (e : Export) : ∀ items, some [Item.exports e] = some items →
      ∀ item ∈ items, item.Sound ks := by
    rintro _ ⟨⟩
    exact List.forall_mem_singleton.2 (Item.sound_of_parts rfl Part.sound_nil)
  have hname : Yields ks Parser.identifier Anything :=
    .forward fun _ => (Agrees.identifier).weaken
  refine .bind (.accept _) fun _ _ => .ite ?_ ?_
  · exact .bind hname fun _ _ => .bind .skipSemicolon fun _ _ => .pure (hexports _)
  refine .bind (.look (Agrees.looks_check _)) fun _ _ =>
    .bind (.look (Agrees.looks_peekAt 1)) fun _ _ => .ite ?_ ?_
  · exact .bind .skip fun _ _ => .bind hname fun _ _ => .bind .skipSemicolon fun _ _ =>
      .pure (hexports _)
  refine .bind (.look (Agrees.looks_check _)) fun _ _ => .ite ?_ (.pure nofun)
  refine .bind (.forward fun _ => .skipStatement (Nat.zero_le 1)) fun _ _ => .pure ?_
  rintro _ ⟨⟩
  exact nofun

/-! ## Statements -/

section

variable {items : Parser (List Item)}
  (h : Yields ks items fun found => ∀ item ∈ found, item.Sound ks)

include h

omit hwords in
/-- The statements in a body are sound. -/
theorem body : Yields ks (body items) fun found => ∀ item ∈ found, item.Sound ks :=
  .bind (.many (Agrees.testsEnd_atEnd _) h) fun _ hfound => .bind (.expect _) fun _ _ =>
    .pure hfound

/-- The statements in a namespace are sound. -/
theorem namespaceBlock : Yields ks (namespaceBlock items docs modifiers)
    fun b => ∀ item ∈ b.items, item.Sound ks :=
  .bind (.separated (.identifier hwords)) fun _ _ => .bind (.expect _) fun _ _ =>
    .bind (body h) fun _ hfound => .pure hfound

omit hwords in
/-- The statements in an ambient module are sound. -/
theorem ambientBlock {name : String} : Yields ks (ambientBlock items docs modifiers name)
    fun b => ∀ item ∈ b.items, item.Sound ks :=
  .bind .skip fun _ _ => .bind (.accept _) fun _ _ => .ite
    (.bind (body h) fun _ hfound => .pure hfound) (.bind .skipSemicolon fun _ _ => .pure nofun)

/-- A declaration is sound. -/
theorem declaration : Yields ks (declaration items docs modifiers)
    fun found => ∀ item ∈ found, item.Sound ks := by
  have hspace : Yields ks (do return [Item.space (← Parser.namespaceBlock items docs modifiers)])
      fun found => ∀ item ∈ found, item.Sound ks :=
    .bind (namespaceBlock hwords h) fun b hb =>
      .pure (List.forall_mem_singleton.2 (Item.sound_iff.2 ⟨Part.sound_nil, hb⟩))
  have hvars {kind : VariableKind} :
      Yields ks (do return (← Parser.variableDecls docs modifiers kind).map Item.var)
        fun found => ∀ item ∈ found, item.Sound ks :=
    .bind (variableDecls hwords) fun ds hds => .pure (List.forall_mem_map.2 hds)
  have hskip : Yields ks (do Parser.skip; return ([] : List Item))
      fun found => ∀ item ∈ found, item.Sound ks :=
    .bind .skip fun _ _ => .pure nofun
  refine .bind .peek fun kind _ => ?_
  split
  · exact .bind (functionDecl hwords) fun _ hd => .pure (List.forall_mem_singleton.2 hd)
  · exact .bind (interfaceDecl hwords) fun _ hd => .pure (List.forall_mem_singleton.2 hd)
  · exact .bind (classDecl hwords) fun _ hd => .pure (List.forall_mem_singleton.2 hd)
  · exact .bind .skip fun _ _ => .bind (.look (Agrees.looks_check _)) fun _ _ => .ite
      (.bind (classDecl hwords) fun _ hd => .pure (List.forall_mem_singleton.2 hd)) (.pure nofun)
  · exact .enumDecl
  · exact .bind (.look (Agrees.looks_peekAt 1)) fun _ _ => .ite (.bind .skip fun _ _ => .enumDecl)
      hvars
  · exact hvars
  · exact hvars
  · exact .bind (aliasDecl hwords) fun _ hd => .pure (List.forall_mem_singleton.2 hd)
  · exact .bind .skip fun _ _ => hspace
  · refine .bind .skip fun _ _ => .bind .peek fun _ _ => ?_
    split
    · exact .bind (ambientBlock h) fun b hb =>
        .pure (List.forall_mem_singleton.2 (Item.sound_iff.2 ⟨Part.sound_nil, hb⟩))
    · exact hspace
  · exact .bind (.forward fun _ => .skipStatement (Nat.zero_le 1)) fun _ _ => .pure nofun
  · exact .bind (.look (Agrees.looks_peekAt 1)) fun _ _ => .ite hspace hskip
  · refine .ite (.bind (.forward fun _ => (Agrees.exportedNames).weaken) fun _ _ => .pure ?_) hskip
    exact List.forall_mem_singleton.2 (Item.sound_of_parts rfl Part.sound_nil)
  · exact hskip

/-- A statement is sound if the statements nested in it are read as sound ones. -/
theorem itemsWith : Yields ks (itemsWith items) fun found => ∀ item ∈ found, item.Sound ks := by
  refine .bind (.look Agrees.looks_docs) fun docs _ =>
    .loop (fun t => .modifiersFor (Nat.le_refl t) (Nat.le_refl t)) fun modifiers => ?_
  refine .ite (.bind .plainExport fun found hfound => ?_) (declaration hwords h)
  cases found with
  | none => exact declaration hwords h
  | some found => exact .pure (hfound found rfl)

end

/-- Statements are read as sound ones at every bound on their nesting. -/
theorem itemsAt (n : Nat) : Yields ks (itemsAt n) fun found => ∀ item ∈ found, item.Sound ks := by
  induction n with
  | zero => exact .fail
  | succ n ih => exact itemsWith hwords ih

/-- A statement of a file is sound, and a directive is none. -/
theorem fileItems : Yields ks fileItems fun found => ∀ item ∈ found, item.Sound ks := by
  refine .bind .peek fun kind _ => ?_
  split
  · exact .bind .skip fun _ _ => .pure nofun
  · exact .bind .turns fun n _ => itemsAt hwords n

/-- The statements of a file are sound. -/
theorem file : Yields ks file fun found => ∀ item ∈ found, item.Sound ks :=
  .many Agrees.testsEnd_eof (fileItems hwords)

end

end Parser.Yields

/-- All that is read of a source is sound. -/
theorem parseItems_sound {source : String} {items : List Item} (h : parseItems source = .ok items) :
    ∀ item ∈ items, item.Sound ((scan source).map Token.kind) := by
  rw [parseItems] at h
  cases hfile : Parser.file.run (.start source) with
  | error e =>
    rw [hfile] at h
    cases h
  | ok r =>
    rw [hfile] at h
    cases h
    exact (Parser.Yields.file (wordsOnly_scan source) _ (.start source) r.1 r.2 hfile).2

end DeclLayer
