import DeclLayer.Proofs.Parse.ClassMembers
import DeclLayer.Proofs.Parse.TypeProgress

/-!
# Statements are read forward

The pieces of the grammar of statements, as in the module on types. A token that begins no statement
is passed, and so is a token that begins no member of a class. At the end of the source there is no
such token. A piece that is read in this way passes `m` tokens if `m` tokens are ahead, where `m` is
one or none.

The bound on the nesting of statements does not matter if it is more than the number of tokens ahead
(`Agrees.itemsAt`), and statements are read as if there was no bound (`Parser.item_eq`).
-/

namespace DeclLayer.Parser

/-- Reads one statement. -/
def item : Parser (List Item) := do
  itemsAt (← turns)

namespace Agrees

variable {l n N m t t' : Nat}

/-! ## Classes -/

/-- The modifiers of a class member are the same for all bounds on their number that are more than
the number of tokens ahead. -/
theorem memberModifiersFor {w : MemberModifiers} (ht : N ≤ t) (ht' : N ≤ t') :
    Agrees l N 0 (memberModifiersFor w t) (Parser.memberModifiersFor w t') := by
  induction N generalizing l t t' w with
  | zero => exact .nowhere rfl
  | succ N ih =>
    refine .of_turns ht ht' fun i i' _ _ hi hi' => .peek fun kind l' _ hl => ?_
    split
    · next hadd =>
      have hkind : kind ≠ .eof := by
        rintro rfl
        cases hadd
      refine .look looks_isModifier fun _ => .ite ?_ .pure
      exact weaken (.step (.skip (hl hkind)) fun _ => ih (by omega) (by omega))
    · exact .pure

/-- The semicolon behind a class member may be missing. -/
theorem skipSemicolon : Agrees l n 0 skipSemicolon Parser.skipSemicolon :=
  .discard_acceptMark _

variable {docs : Docs} {modifiers : Modifiers}

/-- A class member with a name passes a token, unless none is ahead: a token that begins no name is
passed over. -/
theorem namedClassMember {w : MemberModifiers} (hm : m ≤ 1) :
    Agrees m n m (namedClassMember docs w) (Parser.namedClassMember docs w) := by
  refine less (.carry .accessorKind fun _ i hi => .bind_attempt .propertyName (fun _ => ?_) ?_
    (Nat.le_trans hi hm))
  · refine .bind (.acceptMark _) fun _ => .look (looks_continuesAsMethod _) fun _ => .ite ?_ ?_
    · exact .bind (signature .type).less fun _ => .bind (.annotatedReturn .type) fun _ =>
        .bind .skipSemicolon fun _ => .pure
    · exact .bind (.after (by simp) .type) fun _ => .bind .skipSemicolon fun _ => .pure
  · exact .pass (.skip_any (Nat.le_trans hi hm)) fun _ => .pure

/-- What stands behind the modifiers of a class member passes a token, unless none is ahead. -/
theorem classMemberAfter {w : MemberModifiers} (hm : m ≤ 1) :
    Agrees m n m (classMemberAfter docs w) (Parser.classMemberAfter docs w) := by
  refine .look (looks_check _) fun _ => .look (looks_peekAt 1) fun _ => .ite ?_ ?_
  · exact .bind .skip_maybe fun _ => .pass ((params .type).less.atLeast hm) fun _ =>
      .bind .skipSemicolon fun _ => .pure
  refine .look looks_atIndexSignature fun _ => .ite ?_ (.namedClassMember hm)
  exact .pass ((indexSignature .type).less.atLeast hm) fun _ => .pure

/-- A class member passes a token, unless none is ahead. -/
theorem classMember (hm : m ≤ 1) : Agrees m n m classMember Parser.classMember :=
  .look looks_docs fun _ => .carry_loop
    (fun t _ => .memberModifiersFor (Nat.le_refl t) (Nat.le_refl t))
    fun _ _ hi => .classMemberAfter (Nat.le_trans hi hm)

/-- The types behind `extends` or `implements` may be missing. -/
theorem typesAfter {word : Keyword} : Agrees l n 0 (typesAfter word) (Parser.typesAfter word) :=
  .bind (.after (by simp) (.separated .type)) fun _ => .pure

/-- A class passes a token. -/
theorem classDecl {isAbstract : Bool} : Agrees l n 1 (classDecl docs modifiers isAbstract)
    (Parser.classDecl docs modifiers isAbstract) :=
  .pass (.expectKeyword _) fun _ => .bind .identifier fun _ =>
    .bind (typeParams .type).less fun _ => .bind (.after (by simp) .type) fun _ =>
    .bind .typesAfter fun _ => .bind (.expectMark _) fun _ =>
    .bind (.many (testsEnd_atEnd _) (.classMember (Nat.le_refl 1))) fun _ =>
    .bind (.expectMark _) fun _ => .pure

/-! ## Other declarations -/

/-- A function passes a token. -/
theorem functionDecl :
    Agrees l n 1 (functionDecl docs modifiers) (Parser.functionDecl docs modifiers) :=
  .pass (.expectKeyword _) fun _ => .bind .identifier fun _ => .bind (signature .type).less fun _ =>
    .bind (.annotatedReturn .type) fun _ => .bind .skipSemicolon fun _ => .pure

/-- An interface passes a token. -/
theorem interfaceDecl :
    Agrees l n 1 (interfaceDecl docs modifiers) (Parser.interfaceDecl docs modifiers) :=
  .pass (.expectKeyword _) fun _ => .bind .identifier fun _ =>
    .bind (typeParams .type).less fun _ => .bind .typesAfter fun _ =>
    .bind (members .type).less fun _ => .pure

/-- A type alias passes a token. -/
theorem aliasDecl : Agrees l n 1 (aliasDecl docs modifiers) (Parser.aliasDecl docs modifiers) :=
  .pass (.expectKeyword _) fun _ => .bind .identifier fun _ =>
    .bind (typeParams .type).less fun _ => .bind (.expectMark _) fun _ => .bind .type fun _ =>
    .bind .skipSemicolon fun _ => .pure

/-- The initializer of a variable may be missing. -/
theorem optionalInitializer : Agrees l n 0 optionalInitializer Parser.optionalInitializer :=
  .after (by simp) .initializer

/-- A variable passes its name. -/
theorem variableDecl {kind : VariableKind} :
    Agrees l n 1 (variableDecl modifiers kind) (Parser.variableDecl modifiers kind) :=
  .pass .propertyName fun _ => .bind (.after (by simp) .type) fun _ =>
    .bind .optionalInitializer fun _ => .pure

/-- The name of a variable is passed even if the word in front of it is not there. -/
theorem variableDecls {kind : VariableKind} :
    Agrees l n 1 (variableDecls docs modifiers kind) (Parser.variableDecls docs modifiers kind) :=
  .bind .skip_maybe fun _ => .pass (.separated .variableDecl) fun _ =>
    .bind .skipSemicolon fun _ => .pure

/-- An enum member passes its name. -/
theorem enumMember : Agrees l n 1 enumMember Parser.enumMember :=
  .look looks_docs fun _ => .pass .propertyName fun _ => .bind .optionalInitializer fun _ => .pure

/-- An enum passes a token. -/
theorem enumDecl {isConst : Bool} :
    Agrees l n 1 (enumDecl docs modifiers isConst) (Parser.enumDecl docs modifiers isConst) :=
  .pass (.expectKeyword _) fun _ => .bind .identifier fun _ => .bind (.expectMark _) fun _ =>
    .bind (.list (weaken .enumMember)) fun _ => .bind (.expectMark _) fun _ => .pure

/-- A name in an export list passes a token. -/
theorem exportedName : Agrees l n 1 exportedName Parser.exportedName :=
  .pass .identifier fun _ => .bind (.after (by simp) .identifier) fun _ => .pure

/-- The names of an export list pass its braces. -/
theorem exportedNames : Agrees l n 1 exportedNames Parser.exportedNames :=
  .pass (.expectMark _) fun _ => .bind (.list (weaken .exportedName)) fun _ =>
    .bind (.expectMark _) fun _ => .bind .skipSemicolon fun _ => .pure

/-! ## Statements -/

/-- The modifiers of a declaration are the same for all bounds on their number that are more than
the number of tokens ahead. -/
theorem modifiersFor (ht : N ≤ t) (ht' : N ≤ t') :
    Agrees l N 0 (modifiersFor modifiers t) (Parser.modifiersFor modifiers t') := by
  induction N generalizing l t t' modifiers with
  | zero => exact .nowhere rfl
  | succ N ih =>
    refine .of_turns ht ht' fun i i' _ _ hi hi' => .peek fun kind l' _ hl => ?_
    have hrest {modifiers : Modifiers} :
        Agrees 0 N 0 (Parser.modifiersFor modifiers i) (Parser.modifiersFor modifiers i') :=
      ih (by omega) (by omega)
    revert hl
    split
    · exact fun hl => weaken (.step (.skip (hl (by simp))) fun _ => hrest)
    · exact fun hl => weaken (.step (.skip (hl (by simp))) fun _ => hrest)
    · exact fun _ => .pure

/-- What is read of an export statement that is no declaration passes a token. -/
theorem plainExport_bind {β : Type} {f g : Option (List Item) → Parser β} (hm : m ≤ 1)
    (hsome : ∀ found, Agrees 0 n 0 (f (some found)) (g (some found)))
    (hnone : Agrees m n m (f none) (g none)) :
    Agrees m n m (plainExport >>= f) (plainExport >>= g) := by
  simp only [plainExport, bind_assoc, pure_bind, apply_ite (· >>= f), apply_ite (· >>= g)]
  refine .bind_accept (by simp) ?_ ?_
  · rw [Nat.sub_eq_zero_of_le hm]
    exact .bind .identifier fun _ => .bind .skipSemicolon fun _ =>
      (hsome _).mono (Nat.le_refl 0) (Nat.sub_le n 1)
  refine .look (looks_check _) fun _ => .look (looks_peekAt 1) fun _ => .ite ?_ ?_
  · exact .bind .skip_maybe fun _ => .pass (atLeast .identifier hm) fun _ =>
      .bind .skipSemicolon fun _ => hsome _
  · exact .look (looks_check _) fun _ => .ite (.pass (.skipStatement hm) fun _ => hsome _) hnone

/-- The rest of an export statement passes nothing if it is a declaration. -/
theorem plainExport : Agrees l n 0 plainExport Parser.plainExport := by
  have h : Agrees 0 n 0 (Parser.plainExport >>= Pure.pure) (Parser.plainExport >>= Pure.pure) :=
    plainExport_bind (Nat.zero_le 1) (fun _ => .pure) .pure
  rw [bind_pure] at h
  exact h.anywhere

section

variable {items items' : Parser (List Item)} (h : Agrees 1 n 1 items items')

include h

/-- A body passes its braces. -/
theorem body : Agrees l n 1 (body items) (Parser.body items') :=
  .bind (.many (testsEnd_atEnd _) h) fun _ => .pass (.expectMark _) fun _ => .pure

/-- A namespace passes its name before its first statement, so one token more may be ahead of it
than of the statements in it. -/
theorem namespaceBlock : Agrees l (n + 1) 1 (namespaceBlock items docs modifiers)
    (Parser.namespaceBlock items' docs modifiers) :=
  .step (.separated .identifier) fun _ => .bind (.expectMark _) fun _ =>
    .bind (body h) fun _ => .pure

/-- An ambient module may have no body, and the end of the source may stand for its name. -/
theorem ambientBlock {name : String} : Agrees l n 0 (ambientBlock items docs modifiers name)
    (Parser.ambientBlock items' docs modifiers name) := by
  refine .bind .skip_maybe fun _ => .bind_accept (by simp) ?_ (.bind .skipSemicolon fun _ => .pure)
  exact .bind ((body h).mono (Nat.le_refl 0) (Nat.sub_le n 1)) fun _ => .pure

/-- A declaration passes a token before the statements nested in it, unless none is ahead: a token
that begins no statement is passed over. -/
theorem declaration (hm : m ≤ 1) : Agrees m (n + 1) m (declaration items docs modifiers)
    (Parser.declaration items' docs modifiers) := by
  refine .peek fun kind i hi hahead => ?_
  have hspace {l : Nat} : Agrees l (n + 1) 1
      (do return [Item.space (← Parser.namespaceBlock items docs modifiers)])
      (do return [Item.space (← Parser.namespaceBlock items' docs modifiers)]) :=
    .pass (namespaceBlock h) fun _ => .pure
  have hskip : Agrees i (n + 1) m (do Parser.skip; return ([] : List Item))
      (do Parser.skip; return []) :=
    .pass ((skip_any hm).mono hi (Nat.le_refl _)) fun _ => .pure
  have hvariables {kind : VariableKind} : Agrees i (n + 1) m
      (do return (← Parser.variableDecls docs modifiers kind).map .var)
      (do return (← Parser.variableDecls docs modifiers kind).map Item.var) :=
    .pass (atLeast .variableDecls hm) fun _ => .pure
  have henum {isConst : Bool} : Agrees i (n + 1) m
      (do return [Item.enum (← Parser.enumDecl docs modifiers isConst)])
      (do return [Item.enum (← Parser.enumDecl docs modifiers isConst)]) :=
    .pass (atLeast .enumDecl hm) fun _ => .pure
  revert hahead
  split <;> intro hahead
  · exact .pass (atLeast .functionDecl hm) fun _ => .pure
  · exact .pass (atLeast .interfaceDecl hm) fun _ => .pure
  · exact .pass (atLeast .classDecl hm) fun _ => .pure
  · exact atLeast (.pass (.skip (hahead (by simp))) fun _ => .look (looks_check _) fun _ =>
      .ite (.bind .classDecl fun _ => .pure) .pure) hm
  · exact henum
  · refine .look (looks_peekAt 1) fun _ => .ite ?_ hvariables
    exact .bind .skip_maybe fun _ => .pass (atLeast .enumDecl hm) fun _ => .pure
  · exact hvariables
  · exact hvariables
  · exact .pass (atLeast .aliasDecl hm) fun _ => .pure
  · exact atLeast (.pass (.skip (hahead (by simp))) fun _ => hspace.weaken) hm
  · refine atLeast (.step (.skip (hahead (by simp))) fun _ => .peek fun _ _ _ _ => ?_) hm
    split
    · exact .bind (ambientBlock h) fun _ => .pure
    · exact hspace.less.weaken
  · exact .pass ((skipStatement hm).mono hi (Nat.le_refl _)) fun _ => .pure
  · exact .look (looks_peekAt 1) fun _ => .ite (hspace.atLeast hm) hskip
  · exact .ite (.pass (atLeast .exportedNames hm) fun _ => .pure) hskip
  · exact hskip

/-- A statement passes a token before the statements nested in it, unless none is ahead. This is the
step of the induction on the bound. -/
theorem itemsWith (hm : m ≤ 1) :
    Agrees m (n + 1) m (itemsWith items) (Parser.itemsWith items') := by
  refine .look looks_docs fun docs => .carry_loop
    (fun t _ => .modifiersFor (Nat.le_refl t) (Nat.le_refl t)) fun modifiers i hi => ?_
  have hdeclaration : Agrees i (n + 1) i (Parser.declaration items docs modifiers)
      (Parser.declaration items' docs modifiers) := declaration h (Nat.le_trans hi hm)
  exact .ite (.plainExport_bind (Nat.le_trans hi hm) (fun _ => .pure) hdeclaration) hdeclaration

end

/-- How many levels of nesting a statement may have does not matter, if it is more than there are
tokens ahead. -/
theorem itemsAt (hm : m ≤ 1) (ht : N ≤ t) (ht' : N ≤ t') :
    Agrees m N m (itemsAt t) (Parser.itemsAt t') := by
  induction N generalizing m t t' with
  | zero => exact .nowhere rfl
  | succ N ih =>
    exact .of_turns ht ht' fun i i' _ _ hi hi' =>
      .itemsWith (ih (Nat.le_refl 1) (by omega) (by omega)) hm

/-- A bound on the nesting of blocks that is more than the number of tokens ahead is as good as
none. -/
theorem itemsAt_item (hm : m ≤ 1) (ht : N ≤ t) : Agrees m N m (Parser.itemsAt t) Parser.item := by
  intro c hc hl hn
  exact itemsAt hm (Nat.le_trans hn ht) (Nat.le_refl _) c hc hl (Nat.lt_succ_self _)

/-- A statement passes a token, unless none is ahead. -/
theorem item (hm : m ≤ 1) : Agrees m n m item Parser.item :=
  .turns fun t _ => .itemsAt hm (Nat.le_refl t) (Nat.le_refl t)

/-- A statement of a file or a directive passes a token, unless none is ahead. -/
theorem fileItems (hm : m ≤ 1) : Agrees m n m fileItems Parser.fileItems := by
  refine .peek fun kind i hi hahead => ?_
  revert hahead
  split
  · exact fun hahead => atLeast (.pass (.skip (hahead (by simp))) fun _ => .pure) hm
  · exact fun _ => (item hm).mono hi (Nat.le_refl n)

/-- A file is read forward from its first token. -/
theorem file : Agrees l n 0 file Parser.file :=
  .many testsEnd_eof (.fileItems (Nat.le_refl 1))

end Agrees

/-- A statement is read by the grammar with the parser for statements in it, without any bound. -/
theorem item_eq {c : Cursor} (hc : c.last.kind = .eof) : item c = itemsWith item c := by
  have h : Agrees 0 (c.rest.length + 1) 0 (itemsWith (itemsAt c.rest.length)) (itemsWith item) :=
    .itemsWith (.itemsAt_item (Nat.le_refl 1) (Nat.le_refl _)) (Nat.zero_le 1)
  exact (h c hc (Nat.zero_le _) (Nat.lt_succ_self _)).1

end DeclLayer.Parser
