import DeclLayer.Proofs.Parse.TypeProgress
import DeclLayer.Proofs.Parse.Yields
import DeclLayer.Proofs.Tree.Parts

/-!
# The names in types that were read

A reference and the operand of `typeof` are dotted names. The qualifier of an import type is a
dotted name or empty, and it is empty only where the brackets of the import are followed by a dot
and the dot by no word (`Token.DanglingDot`). A type is *sound* if this holds everywhere in it
(`Ty.Sound`). Each piece of the grammar of types answers something sound if the parser for nested
types does (`Yields.typeWith`), and so types are read as sound ones (`Yields.type`).
-/

namespace DeclLayer

open Token

/-! ## Soundness -/

/-- An import with a dot behind its brackets, and no word behind the dot. -/
def Token.DanglingDot (ks : List Kind) : Prop :=
  ∃ front module next back, next.word? = none ∧
    ks = front ++ .keyword .importKw :: .punct .lparen :: .string module :: .punct .rparen ::
      .punct .dot :: next :: back

/-- The dangling dot of an import that begins at a place. -/
theorem Cursor.Within.danglingDot {ks : List Kind} {c : Cursor} {module : String} (h : c.Within ks)
    (himport : c.kindAt 0 = .keyword .importKw) (hopen : c.next.kindAt 0 = .punct .lparen)
    (hmodule : c.next.next.kindAt 0 = .string module)
    (hclose : c.next.next.next.kindAt 0 = .punct .rparen)
    (hdot : c.next.next.next.next.kindAt 0 = .punct .dot)
    (hword : (c.next.next.next.next.next.kindAt 0).word? = none) : DanglingDot ks := by
  obtain ⟨front, hfront⟩ := h.suffix
  obtain ⟨back, hback⟩ := h.next.next.next.next.next.exists_kinds_eq
  refine ⟨front, module, _, back, hword, ?_⟩
  rw [← hfront, h.kinds_eq himport nofun, h.next.kinds_eq hopen nofun,
    h.next.next.kinds_eq hmodule nofun, h.next.next.next.kinds_eq hclose nofun,
    h.next.next.next.next.kinds_eq hdot nofun]
  simp only [List.cons_append, hback]

/-- The names of a node are dotted names, an empty qualifier of an import apart, which stands for a
dangling dot among the tokens. -/
def Node.Sound (ks : List Kind) : Node → Prop
  | .type (.named name _) => isDotted name = true
  | .type (.typeOf name) => isDotted name = true
  | .type (.imported _ (some qualifier) _ _) =>
    isDotted qualifier = true ∨ qualifier = "" ∧ DanglingDot ks
  | _ => True

/-- All nodes of some parts are sound. -/
def Part.Sound (ks : List Kind) (parts : List Part) : Prop :=
  ∀ part ∈ parts, ∀ node ∈ part.nodes, node.Sound ks

/-- All nodes of a type are sound. -/
def Ty.Sound (ks : List Kind) (ty : Ty) : Prop :=
  ∀ node ∈ ty.nodes, node.Sound ks

namespace Part

variable {ks : List Kind}

@[simp] theorem sound_nil : Sound ks [] := nofun

@[simp] theorem sound_cons_param {name : String} {parts : List Part} :
    Sound ks (.param name :: parts) ↔ Sound ks parts := by
  simp [Sound, Node.Sound]

@[simp] theorem sound_cons_type {ty : Ty} {parts : List Part} :
    Sound ks (.type ty :: parts) ↔ ty.Sound ks ∧ Sound ks parts := by
  simp [Sound, Ty.Sound]

@[simp] theorem sound_append {parts parts' : List Part} :
    Sound ks (parts ++ parts') ↔ Sound ks parts ∧ Sound ks parts' := by
  simp [Sound, or_imp, forall_and]

@[simp] theorem sound_flatMap {α : Type} {l : List α} {g : α → List Part} :
    Sound ks (l.flatMap g) ↔ ∀ a ∈ l, Sound ks (g a) := by
  simp only [Sound, List.mem_flatMap]
  exact ⟨fun h a ha part hpart => h part ⟨a, ha, hpart⟩,
    fun h part ⟨a, ha, hpart⟩ => h a ha part hpart⟩

@[simp] theorem sound_map {α : Type} {l : List α} {g : α → Ty} :
    Sound ks (l.map fun a => .type (g a)) ↔ ∀ a ∈ l, (g a).Sound ks := by
  simp [Sound, Ty.Sound]

@[simp] theorem sound_types {tys : List Ty} :
    Sound ks (tys.map .type) ↔ ∀ ty ∈ tys, ty.Sound ks :=
  sound_map

@[simp] theorem sound_option {ty : Option Ty} :
    Sound ks (Ty.optionParts ty) ↔ ∀ t, ty = some t → t.Sound ks := by
  cases ty <;> simp [Ty.optionParts]

end Part

/-- A type is sound if its root and all its parts are. -/
theorem Ty.sound_iff {ks : List Kind} {ty : Ty} :
    ty.Sound ks ↔ (Node.type ty).Sound ks ∧ Part.Sound ks ty.parts := by
  rw [Ty.Sound, Ty.nodes_eq, List.forall_mem_cons]
  simp only [Part.Sound, List.mem_flatMap]
  exact and_congr_right fun _ => ⟨fun h part hpart node hnode => h node ⟨part, hpart, hnode⟩,
    fun h node ⟨part, hpart, hnode⟩ => h part hpart node hnode⟩

/-- The parts of a parameter, or the declared type of `this`, are sound. -/
def Parser.ParamEntry.Sound (ks : List Kind) : ParamEntry → Prop
  | .this type => type.Sound ks
  | .param p => Part.Sound ks p.parts

namespace Parser.Yields

variable {ks : List Kind} {ty : Parser Ty}

section

variable (h : Yields ks ty (Ty.Sound ks)) (hwords : WordsOnly ks)

/-! ## Pieces that hold types -/

include h hwords

/-- The bounds and defaults in a type parameter are sound. -/
theorem typeParam : Yields ks (typeParam ty) fun p => Part.Sound ks p.parts :=
  .loop (fun t => .skipVariance (Nat.le_refl t) (Nat.le_refl t)) fun _ =>
    .bind (.identifier hwords) fun _ _ => .bind (.after h) fun _ hconstraint =>
    .bind (.after h) fun _ hdefault =>
      .pure (by simpa [TypeParam.parts] using ⟨hconstraint, hdefault⟩)

/-- The bounds and defaults in the type parameters after `<` are sound, by induction on the bound on
their number. -/
theorem typeParamsFor (n : Nat) :
    Yields ks (typeParamsFor ty n) fun ps => ∀ p ∈ ps, Part.Sound ks p.parts := by
  induction n with
  | zero => exact .fail
  | succ n ih =>
    refine .bind (typeParam h hwords) fun first hfirst => ?_
    have hone : ∀ p ∈ [first], Part.Sound ks p.parts := List.forall_mem_singleton.2 hfirst
    refine .bind (.accept _) fun _ _ => .ite ?_ (.pure hone)
    refine .bind (.look (Agrees.looks_check _)) fun _ _ => .ite (.pure hone) ?_
    exact .bind ih fun others hothers => .pure (List.forall_mem_cons.2 ⟨hfirst, hothers⟩)

/-- The bounds and defaults in a list of type parameters are sound. -/
theorem typeParams : Yields ks (typeParams ty) fun ps => ∀ p ∈ ps, Part.Sound ks p.parts :=
  .bind (.accept _) fun _ _ => .ite
    (.bind .turns fun n _ => .bind (typeParamsFor h hwords n) fun _ hparams =>
      .bind (.expect _) fun _ _ => .pure hparams)
    (.pure nofun)

omit hwords in
/-- The type arguments behind a name are sound. -/
theorem optionalTypeArgs : Yields ks (optionalTypeArgs ty) fun tys => ∀ t ∈ tys, t.Sound ks :=
  .bind (.look (Agrees.looks_check _)) fun _ _ => .ite
    (.bind (.expect _) fun _ _ => .bind (.separated h) fun _ hargs =>
      .bind (.expect _) fun _ _ => .pure hargs)
    (.pure nofun)

/-- An entry of a parameter list has a sound type. -/
theorem paramEntry : Yields ks (paramEntry ty) (ParamEntry.Sound ks) := by
  have hend (name : String) (rest : Bool) : Yields ks (do
      let optional ← acceptMark .question
      let type ← Parser.after (.punct .colon) ty
      return ParamEntry.param ⟨name, type, optional, rest⟩) (ParamEntry.Sound ks) :=
    .bind (.accept _) fun _ _ => .bind (.after h) fun _ htype =>
      .pure (by simpa [ParamEntry.Sound, Param.parts] using htype)
  refine .bind (.look (Agrees.looks_check _)) fun _ _ =>
    .bind (.look (Agrees.looks_peekAt 1)) fun _ _ => .ite ?_ ?_
  · exact .bind .skip fun _ _ => .bind .skip fun _ _ => .bind h fun _ htype => .pure htype
  refine .loop (fun t => .skipParamModifiers (Nat.le_refl t) (Nat.le_refl t)) fun _ => ?_
  refine .bind (.accept _) fun _ _ => .bind (.look (Agrees.looks_check _)) fun _ _ =>
    .bind (.look (Agrees.looks_check _)) fun _ _ => .ite ?_ ?_
  · exact .bind (.forward fun _ => .balanced (Nat.zero_le 1)) fun _ _ => hend _ _
  · exact .bind (.identifier hwords) fun _ _ => hend _ _

/-- The parameters among sound entries, and the declared type of `this`. -/
theorem params : Yields ks (params ty) fun (thisType, params) =>
    (∀ t, thisType = some t → t.Sound ks) ∧ ∀ p ∈ params, Part.Sound ks p.parts := by
  refine .bind (.expect _) fun _ _ => .bind (.list (paramEntry h hwords)) fun entries hentries =>
    .bind (.expect _) fun _ _ => .pure ⟨fun t ht => ?_, fun p hp => ?_⟩
  · obtain ⟨entry, hentry, hthis⟩ := List.mem_filterMap.1 (List.mem_of_getLast? ht)
    have hsound := hentries entry hentry
    cases entry with
    | this type => exact Option.some.inj hthis ▸ hsound
    | param p => cases hthis
  · obtain ⟨entry, hentry, hparam⟩ := List.mem_filterMap.1 hp
    have hsound := hentries entry hentry
    cases entry with
    | this type => cases hparam
    | param p => exact Option.some.inj hparam ▸ hsound

/-- The types in a signature are sound. -/
theorem signature : Yields ks (signature ty) fun s => Part.Sound ks s.parts :=
  .bind (typeParams h hwords) fun _ htypeParams => .bind (params h hwords) fun _ hparams =>
    .pure (by simpa [Signature.parts] using ⟨htypeParams, hparams⟩)

/-- A return type is sound, and so is the type of a predicate. -/
theorem returnType : Yields ks (returnType ty) (Ty.Sound ks) := by
  refine .bind .peek fun _ _ => .bind (.look (Agrees.looks_peekAt 1)) fun _ _ => .ite ?_ (.ite ?_ h)
  · refine .bind .skip fun _ _ => .bind (.predicateParam hwords) fun _ _ =>
      .bind (.after h) fun _ htype => .pure (Ty.sound_iff.2 ⟨trivial, ?_⟩)
    simpa [Ty.parts] using htype
  · refine .bind (.predicateParam hwords) fun _ _ => .bind (.expect _) fun _ _ =>
      .bind h fun _ htype => .pure (Ty.sound_iff.2 ⟨trivial, ?_⟩)
    simpa [Ty.parts] using htype

/-- A return type that was written is sound. -/
theorem annotatedReturn :
    Yields ks (annotatedReturn ty) fun returns => ∀ t, returns = some t → t.Sound ks :=
  .after (returnType h hwords)

/-! ## Members -/

omit h hwords in
/-- The end of a member answers no name. -/
theorem skipMemberEnd : Yields ks skipMemberEnd Anything := .forward fun _ => .skipMemberEnd

/-- The key type and the value type of an index signature are sound. -/
theorem indexSignature {docs : Docs} {readonly : Bool} :
    Yields ks (indexSignature ty docs readonly) fun i => Part.Sound ks i.parts :=
  .bind (.expect _) fun _ _ => .bind (.identifier hwords) fun _ _ => .bind (.expect _) fun _ _ =>
    .bind h fun _ hkey => .bind (.expect _) fun _ _ => .bind (.expect _) fun _ _ =>
    .bind h fun _ hvalue => .bind .skipMemberEnd fun _ _ =>
      .pure (by simpa [IndexSignature.parts] using ⟨hkey, hvalue⟩)

/-- The types in a call or construct signature and its return type are sound. -/
theorem callable {docs : Docs} : Yields ks (callable ty docs) fun c =>
    Part.Sound ks c.signature.parts ∧ ∀ t, c.returns = some t → t.Sound ks :=
  .bind (signature h hwords) fun _ hsignature => .bind (annotatedReturn h hwords) fun _ hreturns =>
    .bind .skipMemberEnd fun _ _ => .pure ⟨hsignature, hreturns⟩

/-- The types in a member with a name are sound. -/
theorem namedMember {docs : Docs} {readonly : Bool} : Yields ks (namedMember ty docs readonly)
    fun ms => ∀ m ∈ ms, Part.Sound ks m.parts := by
  refine .bind (.forward fun _ => .accessorKind) fun kind _ =>
    .bind (.attempt (.forward fun _ => (Agrees.propertyName).weaken)) fun name _ => ?_
  cases name with
  | none => exact .bind .skip fun _ _ => .pure nofun
  | some name =>
    refine .bind (.accept _) fun _ _ =>
      .bind (.look (Agrees.looks_continuesAsMethod _)) fun _ _ => .ite ?_ ?_
    · refine .bind (callable h hwords) fun _ hcallable => .pure (List.forall_mem_singleton.2 ?_)
      simpa [Member.parts] using hcallable
    · refine .bind (.after h) fun type htype => .bind .skipMemberEnd fun _ _ =>
        .pure (List.forall_mem_singleton.2 ?_)
      have hany : Ty.Sound ks (.primitive .any) := Ty.sound_iff.2 ⟨trivial, Part.sound_nil⟩
      cases type with
      | none => simpa [Member.parts] using hany
      | some type => simpa [Member.parts] using htype type rfl

/-- The types in a member, read after its modifiers, are sound. -/
theorem memberAfter {docs : Docs} {readonly : Bool} : Yields ks (memberAfter ty docs readonly)
    fun ms => ∀ m ∈ ms, Part.Sound ks m.parts := by
  refine .bind (.look Agrees.looks_atIndexSignature) fun _ _ => .ite ?_ ?_
  · exact .bind (indexSignature h hwords) fun _ hi => .pure (List.forall_mem_singleton.2 hi)
  refine .bind (.look (Agrees.looks_check _)) fun _ _ =>
    .bind (.look (Agrees.looks_check _)) fun _ _ => .ite ?_ ?_
  · refine .bind (callable h hwords) fun c hc => .pure (List.forall_mem_singleton.2 ?_)
    simpa [Member.parts, Callable.parts] using hc
  refine .bind (.look (Agrees.looks_check _)) fun _ _ =>
    .bind (.look (Agrees.looks_peekAt 1)) fun _ _ =>
    .bind (.look (Agrees.looks_peekAt 1)) fun _ _ => .ite ?_ (namedMember h hwords)
  refine .bind .skip fun _ _ => .bind (callable h hwords) fun c hc =>
    .pure (List.forall_mem_singleton.2 ?_)
  simp only [Signature.parts, Part.sound_append, Part.sound_flatMap] at hc
  simpa [Member.parts, Callable.parts, Signature.parts] using ⟨hc.1.1.1, hc.1.2, hc.2⟩

/-- The types in a member are sound. -/
theorem member : Yields ks (member ty) fun ms => ∀ m ∈ ms, Part.Sound ks m.parts := by
  refine .bind (.look Agrees.looks_docs) fun docs _ =>
    .bind (.look (Agrees.looks_check _)) fun _ _ =>
    .bind (.look Agrees.looks_isModifier) fun _ _ => .ite ?_ (memberAfter h hwords)
  exact .bind .skip fun _ _ => memberAfter h hwords

/-- The types in a list of members are sound. -/
theorem members : Yields ks (members ty) fun ms => ∀ m ∈ ms, Part.Sound ks m.parts :=
  .bind (.expect _) fun _ _ =>
    .bind (.many (Agrees.testsEnd_atEnd _) (member h hwords)) fun _ hmembers =>
    .bind (.expect _) fun _ _ => .pure hmembers

/-! ## Primary types -/

/-- The qualifier is what stands behind the dot. If there is nothing, the dot dangles. -/
theorem importedType {isTypeof : Bool} : Yields ks (importedType ty isTypeof) (Ty.Sound ks) := by
  have hend (module : String) (qualifier : Option String)
      (hqualifier : ∀ q, qualifier = some q → isDotted q = true ∨ q = "" ∧ DanglingDot ks) :
      Yields ks (do
        let args ← Parser.optionalTypeArgs ty
        return Ty.imported module qualifier args isTypeof) (Ty.Sound ks) := by
    refine .bind (optionalTypeArgs h) fun args hargs => .pure (Ty.sound_iff.2 ⟨?_, ?_⟩)
    · cases qualifier with
      | none => trivial
      | some q => exact hqualifier q rfl
    · simpa [Ty.parts] using hargs
  intro c hc
  refine .bind (.expect fun himport => .bind (.expect fun hopen => .bind (.step rfl ?_)))
  split
  · next module hstring =>
    refine .bind (.step rfl (.bind (.expect fun hclose => .bind (.step rfl ?_))))
    have hdotted := hc.next.next.next.next
    split
    · next hdot =>
      have hdot : c.next.next.next.next.kindAt 0 = .punct .dot := beq_iff_eq.1 hdot
      obtain ⟨hend', htail⟩ := Yields.qualifiedTail hwords _ hdotted _ _ rfl
      refine .bind (.step rfl (hend _ _ (fun q hq => ?_) _ hend'))
      obtain rfl := Option.some.inj hq
      refine htail.isDotted_drop.imp_right fun hempty => ⟨by rw [hempty]; rfl, ?_⟩
      exact hc.danglingDot himport hopen hstring hclose hdot
        (word?_of_dottedTail hdotted.last hdot hempty)
    · refine hend _ none (fun q hq => ?_) _ hdotted
      cases hq
  · exact .refused rfl

/-- The operand of `typeof` is a dotted name or a sound import type. -/
theorem typeOfType : Yields ks (typeOfType ty) (Ty.Sound ks) := by
  refine .bind (.look (Agrees.looks_check _)) fun _ _ => .ite (importedType h hwords) ?_
  refine .bind (.predicateParam hwords) fun _ hhead => .bind (.qualifiedTail hwords) fun _ htail =>
    .pure ?_
  exact Ty.sound_iff.2 ⟨htail.isDotted hhead, Part.sound_nil⟩

/-- The signature and the return type of a function type are sound. -/
theorem functionType : Yields ks (functionType ty) fun (signature, returns) =>
    Part.Sound ks signature.parts ∧ returns.Sound ks :=
  .bind (signature h hwords) fun _ hsignature => .bind (.expect _) fun _ _ =>
    .bind (returnType h hwords) fun _ hreturns => .pure ⟨hsignature, hreturns⟩

/-- The parameters in front of an arrow are sound. -/
theorem arrowParams : Yields ks (arrowParams ty) fun found => ∀ thisType params,
    found = some (thisType, params) →
    (∀ t, thisType = some t → t.Sound ks) ∧ ∀ p ∈ params, Part.Sound ks p.parts := by
  refine .bind (.attempt (params h hwords)) fun found hfound => ?_
  cases found with
  | none => exact .pure nofun
  | some found =>
    refine .bind (.accept _) fun _ _ => .ite (.pure ?_) (.pure nofun)
    rintro _ _ ⟨⟩
    exact hfound _ rfl

/-- The second try goes back to where the first one began. -/
theorem bracketType : Yields ks (bracketType ty) (Ty.Sound ks) := by
  have hparen : Yields ks (do
      expectMark .lparen
      let inner ← ty
      expectMark .rparen
      return Ty.paren inner) (Ty.Sound ks) := by
    refine .bind (.expect _) fun _ _ => .bind h fun _ hinner => .bind (.expect _) fun _ _ =>
      .pure (Ty.sound_iff.2 ⟨trivial, ?_⟩)
    simpa [Ty.parts] using hinner
  intro c hc
  refine .bind (.step rfl (.bind ((arrowParams h hwords c hc).mono fun found c' hfound => ?_)))
  cases found with
  | none => exact .bind (.step rfl (hparen c hc))
  | some found =>
    obtain ⟨hthis, hparams⟩ := hfound.2 _ _ rfl
    refine .bind ((returnType h hwords c' hfound.1).mono fun returns c'' hreturns =>
      .pure ⟨hreturns.1, Ty.sound_iff.2 ⟨trivial, ?_⟩⟩)
    simpa [Ty.parts, Signature.parts] using ⟨hthis, hparams, hreturns.2⟩

omit h hwords in
/-- The modifier of a mapped type holds no name. -/
theorem mappedModifier {word : Kind} : Yields ks (mappedModifier word) Anything :=
  .bind (.accept _) fun _ _ => .ite (.pure trivial)
    (.bind (.accept _) fun _ _ => .ite (.bind (.expect _) fun _ _ => .pure trivial)
      (.bind (.accept _) fun _ _ => .ite (.bind (.expect _) fun _ _ => .pure trivial)
        (.pure trivial)))

/-- A mapped type is sound. -/
theorem mappedType : Yields ks (mappedType ty) (Ty.Sound ks) := by
  refine .bind (.expect _) fun _ _ => .bind .mappedModifier fun _ _ => .bind (.expect _) fun _ _ =>
    .bind (.identifier hwords) fun _ _ => .bind (.expect _) fun _ _ => .bind h fun _ hkeys =>
    .bind (.after h) fun _ hname => .bind (.expect _) fun _ _ => .bind .mappedModifier fun _ _ =>
    .bind (.expect _) fun _ _ => .bind h fun _ hvalue =>
    .bind (.forward fun _ => .discard_acceptMark _) fun _ _ => .bind (.expect _) fun _ _ =>
    .pure (Ty.sound_iff.2 ⟨trivial, ?_⟩)
  simpa [Ty.parts] using ⟨hkeys, hname, hvalue⟩

/-- A type in braces is sound. -/
theorem braceType : Yields ks (braceType ty) (Ty.Sound ks) := by
  refine .bind (.look Agrees.looks_atMappedType) fun _ _ => .ite (mappedType h hwords) ?_
  refine .bind (members h hwords) fun _ hmembers => .pure (Ty.sound_iff.2 ⟨trivial, ?_⟩)
  simpa [Ty.parts] using hmembers

/-- The type of a tuple element is sound. -/
theorem tupleElement : Yields ks (tupleElement ty) fun e => e.type.Sound ks := by
  refine .bind (.accept _) fun _ _ => .bind (.look Agrees.looks_atElementName) fun _ _ => .ite ?_ ?_
  · exact .bind (.identifier hwords) fun _ _ => .bind (.accept _) fun _ _ =>
      .bind (.expect _) fun _ _ => .bind h fun _ htype => .pure htype
  · exact .bind h fun _ htype => .bind (.accept _) fun _ _ => .pure htype

/-- A tuple is sound. -/
theorem tupleType : Yields ks (tupleType ty) (Ty.Sound ks) := by
  refine .bind (.expect _) fun _ _ => .bind (.list (tupleElement h hwords)) fun _ helements =>
    .bind (.expect _) fun _ _ => .pure (Ty.sound_iff.2 ⟨trivial, ?_⟩)
  simpa [Ty.parts] using helements

/-- A reference is a dotted name with sound type arguments. -/
theorem referenceType : Yields ks (referenceType ty) (Ty.Sound ks) := by
  refine .bind (.identifier hwords) fun _ hhead => .bind (.qualifiedTail hwords) fun _ htail =>
    .bind (optionalTypeArgs h) fun _ hargs => .pure (Ty.sound_iff.2 ⟨htail.isDotted hhead, ?_⟩)
  simpa [Ty.parts] using hargs

omit h hwords in
/-- A type without names and parts, after its token. -/
theorem literal {t : Ty} (hnode : (Node.type t).Sound ks) (hparts : t.parts = []) :
    Yields ks (do Parser.skip; return t) (Ty.Sound ks) :=
  .bind .skip fun _ _ => .pure (Ty.sound_iff.2 ⟨hnode, hparts ▸ Part.sound_nil⟩)

omit h hwords in
/-- A number behind a minus sign is sound: it holds no name. -/
theorem negativeNumber : Yields ks negativeNumber (Ty.Sound ks) := by
  refine .bind .peek fun _ _ => ?_
  split
  · exact literal trivial rfl
  · exact .fail

/-- A type that starts with a keyword is sound. -/
theorem keywordType (word : Keyword) : Yields ks (keywordType ty word) (Ty.Sound ks) := by
  have hconstruct (isAbstract : Bool) : Yields ks (do
      let (signature, returns) ← Parser.functionType ty
      return Ty.construct isAbstract signature returns) (Ty.Sound ks) := by
    refine .bind (functionType h hwords) fun _ hfunction => .pure (Ty.sound_iff.2 ⟨trivial, ?_⟩)
    simpa [Ty.parts] using hfunction
  unfold Parser.keywordType
  split
  · exact literal trivial rfl
  · exact literal trivial rfl
  · exact .bind .skip fun _ _ => typeOfType h hwords
  · exact importedType h hwords
  · exact literal trivial rfl
  · exact .bind .skip fun _ _ => hconstruct false
  · split
    · exact literal trivial rfl
    · refine .bind (.look (Agrees.looks_peekAt 1)) fun _ _ =>
        .ite ?_ (.ite (referenceType h hwords) .fail)
      exact .bind .skip fun _ _ => .bind .skip fun _ _ => hconstruct true

/-- A primary type is sound. -/
theorem primaryType : Yields ks (primaryType ty) (Ty.Sound ks) := by
  refine .bind .peek fun kind _ => ?_
  split
  · exact keywordType h hwords _
  · exact referenceType h hwords
  · exact literal trivial rfl
  · exact literal trivial rfl
  · exact literal trivial rfl
  · exact .bind .skip fun _ _ => .negativeNumber
  · exact bracketType h hwords
  · exact braceType h hwords
  · exact tupleType h hwords
  · refine .bind (functionType h hwords) fun _ hfunction => .pure (Ty.sound_iff.2 ⟨trivial, ?_⟩)
    simpa [Ty.parts] using hfunction
  · exact .fail

/-! ## Levels of binding -/

omit hwords in
/-- The brackets behind a sound type leave it sound, by induction on the bound on their number. -/
theorem suffixes {head : Ty} (hhead : head.Sound ks) (n : Nat) :
    Yields ks (suffixes ty head n) (Ty.Sound ks) := by
  induction n generalizing head with
  | zero => exact .fail
  | succ n ih =>
    refine .bind (.accept _) fun _ _ => .ite (.bind (.accept _) fun _ _ => .ite ?_ ?_) (.pure hhead)
    · exact ih (Ty.sound_iff.2 ⟨trivial, by simpa [Ty.parts] using hhead⟩)
    · refine .bind h fun key hkey => .bind (.expect _) fun _ _ => ih (Ty.sound_iff.2 ⟨trivial, ?_⟩)
      simpa [Ty.parts] using ⟨hhead, hkey⟩

/-- A primary type with its brackets is sound. -/
theorem suffixedType : Yields ks (suffixedType ty) (Ty.Sound ks) :=
  .bind (primaryType h hwords) fun _ hhead => .bind .turns fun n _ => suffixes h hhead n

/-- A type behind its operators is sound, by induction on the bound on their number. -/
theorem operatorTypeFor (n : Nat) : Yields ks (operatorTypeFor ty n) (Ty.Sound ks) := by
  induction n with
  | zero => exact .fail
  | succ n ih =>
    refine .bind .peek fun kind _ => ?_
    split
    · exact .bind .skip fun _ _ => .bind ih fun _ htype =>
        .pure (Ty.sound_iff.2 ⟨trivial, by simpa [Ty.parts] using htype⟩)
    · exact .bind .skip fun _ _ => .bind ih fun _ htype =>
        .pure (Ty.sound_iff.2 ⟨trivial, by simpa [Ty.parts] using htype⟩)
    · exact .bind .skip fun _ _ => .bind (.identifier hwords) fun _ _ =>
        .pure (Ty.sound_iff.2 ⟨trivial, Part.sound_nil⟩)
    · refine .bind (.look (Agrees.looks_peekAt 1)) fun _ _ => .ite ?_ (suffixedType h hwords)
      exact .bind .skip fun _ _ => literal trivial rfl
    · exact suffixedType h hwords

omit h hwords in
/-- One part stands for itself. -/
theorem combined_sound {combine : List Ty → Ty} {tys : List Ty} (htys : ∀ t ∈ tys, t.Sound ks)
    (hcombine : (combine tys).Sound ks) : (combined combine tys).Sound ks := by
  unfold combined
  split
  · exact htys _ (List.mem_singleton.2 rfl)
  · exact hcombine

/-- An intersection is sound. -/
theorem intersectionType : Yields ks (intersectionType ty) (Ty.Sound ks) := by
  refine .bind (.forward fun _ => .discard_acceptMark _) fun _ _ =>
    .bind (.separated (.bind .turns fun n _ => operatorTypeFor h hwords n)) fun tys htys =>
    .pure (combined_sound htys (Ty.sound_iff.2 ⟨trivial, ?_⟩))
  simpa [Ty.parts] using htys

/-- A union is sound. -/
theorem unionType : Yields ks (unionType ty) (Ty.Sound ks) := by
  refine .bind (.forward fun _ => .discard_acceptMark _) fun _ _ =>
    .bind (.separated (intersectionType h hwords)) fun tys htys =>
    .pure (combined_sound htys (Ty.sound_iff.2 ⟨trivial, ?_⟩))
  simpa [Ty.parts] using htys

/-- A type is sound if the types nested in it are read as sound ones. -/
theorem typeWith : Yields ks (typeWith ty) (Ty.Sound ks) := by
  refine .bind (unionType h hwords) fun _ hcheck => .bind (.accept _) fun _ _ =>
    .ite ?_ (.pure hcheck)
  refine .bind (unionType h hwords) fun _ hbound => .bind (.expect _) fun _ _ =>
    .bind h fun _ htrue => .bind (.expect _) fun _ _ => .bind h fun _ hfalse =>
    .pure (Ty.sound_iff.2 ⟨trivial, ?_⟩)
  simpa [Ty.parts] using ⟨hcheck, hbound, htrue, hfalse⟩

end

/-- Types are read as sound ones at every bound on their nesting, if the words among the tokens are
words. -/
theorem typeAt (hwords : WordsOnly ks) (n : Nat) : Yields ks (typeAt n) (Ty.Sound ks) := by
  induction n with
  | zero => exact .fail
  | succ n ih => exact typeWith ih hwords

/-- Types are read as sound ones. -/
theorem type (hwords : WordsOnly ks) : Yields ks Parser.type (Ty.Sound ks) :=
  .bind .turns fun n _ => typeAt hwords n

end Parser.Yields

end DeclLayer
