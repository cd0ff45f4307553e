import DeclLayer.Proofs.Tree.Subtree

/-!
# Nothing is left out of a listing

The frame of a subtree is what is left of it without its children: the constructor, the names, the
texts and marks, which optional types are there, and how long the lists of members and parameters
are. No type, no type parameter and no statement is in a frame, which its type says, so whatever is
not among the children is in no other place either. A subtree is therefore known from its frame and
its children (`Subtree.eq_of_frame`), and a whole tree from the frames at its addresses
(`Subtree.eq_of_frames`). A child that was left out could be exchanged for another one without any
trace in the frames.
-/

namespace DeclLayer

/-! ## Frames -/

/-- A type parameter in a frame: nothing of it but that it is there. -/
def TypeParam.hollow : TypeParam Unit := ⟨"", none, none⟩

/-- That a type is there, or that it is missing. -/
def Ty.presence (ty : Option Ty) : Option Unit :=
  ty.map fun _ => ()

/-- A parameter without its type. -/
def Param.frame (p : Param Ty) : Param Unit :=
  { p with type := Ty.presence p.type }

/-- A signature without the types in it. What is left of it is which of them are there. -/
def Signature.frame (s : Signature Ty) : Signature Unit :=
  ⟨s.typeParams.map fun _ => .hollow, Ty.presence s.thisType, s.params.map Param.frame⟩

/-- An index signature without its two types. -/
def IndexSignature.frame (i : IndexSignature Ty) : IndexSignature Unit :=
  { i with keyType := (), value := () }

/-- A call signature without the types in it. -/
def Callable.frame (c : Callable Ty) : Callable Unit :=
  { c with signature := c.signature.frame, returns := Ty.presence c.returns }

/-- A member without the types in it. -/
def Member.frame : Member Ty → Member Unit
  | .property p => .property { p with type := () }
  | .method d => .method { d with signature := d.signature.frame, returns := Ty.presence d.returns }
  | .call c => .call c.frame
  | .construct c => .construct c.frame
  | .index i => .index i.frame

/-- A tuple element without its type. -/
def TupleElement.frame (e : TupleElement Ty) : TupleElement Unit :=
  { e with type := () }

/-- A type without what it holds. -/
inductive Ty.Frame where
  | named (name : String)
  | primitive (p : Primitive)
  | string (value : String)
  | number (text : String)
  | boolean (value : Bool)
  | union
  | intersection
  | function (signature : Signature Unit)
  | construct (isAbstract : Bool) (signature : Signature Unit)
  | object (members : List (Member Unit))
  | array
  | tuple (elements : List (TupleElement Unit))
  | typeOf (name : String)
  | keyOf
  | readonly
  | uniqueSymbol
  | index
  | conditional
  | mapped (key : String) (nameType : Option Unit) (readonly optional : Option MappedModifier)
  | infer (name : String)
  | template (raw : String)
  | imported (module : String) (qualifier : Option String) (isTypeof : Bool)
  | predicate (asserts : Bool) (param : String) (type : Option Unit)
  | paren
  | this

/-- What is left of a type without the types in it. -/
def Ty.frame : Ty → Ty.Frame
  | .named name _ => .named name
  | .primitive p => .primitive p
  | .string value => .string value
  | .number text => .number text
  | .boolean value => .boolean value
  | .union _ => .union
  | .intersection _ => .intersection
  | .function signature _ => .function signature.frame
  | .construct isAbstract signature _ => .construct isAbstract signature.frame
  | .object members => .object (members.map Member.frame)
  | .array _ => .array
  | .tuple elements => .tuple (elements.map TupleElement.frame)
  | .typeOf name => .typeOf name
  | .keyOf _ => .keyOf
  | .readonly _ => .readonly
  | .uniqueSymbol => .uniqueSymbol
  | .index _ _ => .index
  | .conditional _ _ _ _ => .conditional
  | .mapped key _ nameType _ readonlyMod optionalMod =>
    .mapped key (Ty.presence nameType) readonlyMod optionalMod
  | .infer name => .infer name
  | .template raw => .template raw
  | .imported module qualifier _ isTypeof => .imported module qualifier isTypeof
  | .predicate asserts param type => .predicate asserts param (Ty.presence type)
  | .paren _ => .paren
  | .this => .this

/-- A class member without what it holds. -/
inductive ClassMember.Frame where
  | property (docs : Docs) (name : String) (type : Option Unit)
      (optional readonly isStatic isAbstract : Bool) (visibility : Visibility)
  | method (docs : Docs) (name : String) (kind : MethodKind) (signature : Signature Unit)
      (returns : Option Unit) (optional isStatic isAbstract : Bool) (visibility : Visibility)
  | constructor (docs : Docs) (visibility : Visibility) (params : List (Param Unit))
  | index (i : IndexSignature Unit)

/-- What is left of a class member without the types in it. -/
def ClassMember.frame : ClassMember → ClassMember.Frame
  | .property ⟨docs, name, type, optional, readonly, isStatic, isAbstract, visibility⟩ =>
    .property docs name (Ty.presence type) optional readonly isStatic isAbstract visibility
  | .method ⟨docs, name, kind, signature, returns, optional, isStatic, isAbstract, visibility⟩ =>
    .method docs name kind signature.frame (Ty.presence returns) optional isStatic isAbstract
      visibility
  | .constructor ⟨docs, visibility, params⟩ =>
    .constructor docs visibility (params.map Param.frame)
  | .index i => .index i.frame

/-- A statement without what it holds. -/
inductive Item.Frame where
  | function (docs : Docs) (modifiers : Modifiers) (name : String) (signature : Signature Unit)
      (returns : Option Unit)
  | interface (docs : Docs) (modifiers : Modifiers) (name : String)
      (typeParams : List (TypeParam Unit)) (bases : List Unit) (members : List (Member Unit))
  | typeAlias (docs : Docs) (modifiers : Modifiers) (name : String)
      (typeParams : List (TypeParam Unit))
  | cls (docs : Docs) (modifiers : Modifiers) (isAbstract : Bool) (name : String)
      (typeParams : List (TypeParam Unit)) (base : Option Unit) (interfaces : List Unit)
      (members : List ClassMember.Frame)
  | var (docs : Docs) (modifiers : Modifiers) (kind : VariableKind) (name : String)
      (type : Option Unit) (initializer : Option String)
  | enum (d : EnumDecl)
  | space (docs : Docs) (modifiers : Modifiers) (name : String)
  | ambient (docs : Docs) (modifiers : Modifiers) (name : String)
  | exports (e : Export)
  | imports (i : Import)
  | verbatim (text : String)

/-- What is left of a statement without the types and statements in it. -/
def Item.frame : Item → Item.Frame
  | .function ⟨docs, modifiers, name, signature, returns⟩ =>
    .function docs modifiers name signature.frame (Ty.presence returns)
  | .interface ⟨docs, modifiers, name, typeParams, bases, members⟩ =>
    .interface docs modifiers name (typeParams.map fun _ => .hollow) (bases.map fun _ => ())
      (members.map Member.frame)
  | .typeAlias ⟨docs, modifiers, name, typeParams, _⟩ =>
    .typeAlias docs modifiers name (typeParams.map fun _ => .hollow)
  | .cls ⟨docs, modifiers, isAbstract, name, typeParams, base, interfaces, members⟩ =>
    .cls docs modifiers isAbstract name (typeParams.map fun _ => .hollow) (Ty.presence base)
      (interfaces.map fun _ => ()) (members.map ClassMember.frame)
  | .var ⟨docs, modifiers, kind, name, type, initializer⟩ =>
    .var docs modifiers kind name (Ty.presence type) initializer
  | .enum d => .enum d
  | .space b => .space b.docs b.modifiers b.name
  | .ambient b => .ambient b.docs b.modifiers b.name
  | .exports e => .exports e
  | .imports i => .imports i
  | .verbatim text => .verbatim text

/-- A subtree without its children. -/
inductive Subtree.Frame where
  | item (frame : Item.Frame)
  | param (name : String) (constraint default : Option Unit)
  | type (frame : Ty.Frame)

/-- What is left of a subtree without its children. -/
def Subtree.frame : Subtree → Subtree.Frame
  | .item i => .item i.frame
  | .held (.param p) => .param p.name (Ty.presence p.constraint) (Ty.presence p.default)
  | .held (.type ty) => .type ty.frame

/-! ## One level is known from its frame and what it holds -/

/-- With what follows it, a list of what is held belongs to one value with a given frame only. -/
def Determines {α φ : Type} (frame : α → φ) (held : α → List Held) : Prop :=
  ∀ ⦃a b⦄ ⦃as bs⦄, frame a = frame b → held a ++ as = held b ++ bs → a = b ∧ as = bs

/-- A list is known from the frames of its elements and what they hold, since each element takes its
own off the front. -/
theorem Determines.list {α φ : Type} {frame : α → φ} {held : α → List Held}
    (h : Determines frame held) : Determines (List.map frame) (List.flatMap held) := by
  intro xs
  induction xs with
  | nil =>
    intro ys as bs hframe hheld
    obtain rfl := List.map_eq_nil_iff.1 hframe.symm
    exact ⟨rfl, hheld⟩
  | cons x xs ih =>
    intro ys as bs hframe hheld
    obtain ⟨y, ys, rfl, hx, hxs⟩ := List.map_eq_cons_iff.1 hframe.symm
    rw [List.flatMap_cons, List.flatMap_cons, List.append_assoc, List.append_assoc] at hheld
    obtain ⟨rfl, htail⟩ := h hx.symm hheld
    obtain ⟨rfl, hrest⟩ := ih hxs.symm htail
    exact ⟨rfl, hrest⟩

/-- A type is known from itself. -/
theorem Ty.determines_type : Determines (fun _ : Ty => ()) fun ty => [.type ty] := by
  rintro t u as bs - hheld
  obtain ⟨hhead, htail⟩ := List.cons.inj hheld
  exact ⟨Held.type.inj hhead, htail⟩

/-- A type parameter is known from itself. -/
theorem TypeParam.determines_param :
    Determines (fun _ : TypeParam Ty => TypeParam.hollow) fun p => [.param p] := by
  rintro p q as bs - hheld
  obtain ⟨hhead, htail⟩ := List.cons.inj hheld
  exact ⟨Held.param.inj hhead, htail⟩

/-- A list of types, or of type parameters. -/
theorem Determines.map {α φ : Type} {frame : α → φ} {f : α → Held}
    (h : Determines frame fun a => [f a]) : Determines (List.map frame) (List.map f) := by
  have hmap : List.map f = List.flatMap fun a => [f a] := funext fun _ => List.map_eq_flatMap
  rw [hmap]
  exact h.list

/-- An optional type is known from whether it is there and what it holds. -/
theorem Ty.determines_optionHeld : Determines Ty.presence Ty.optionHeld := by
  intro t u as bs hframe hheld
  cases t <;> cases u <;> cases hframe
  · exact ⟨rfl, hheld⟩
  · obtain ⟨rfl, htail⟩ := Ty.determines_type rfl hheld
    exact ⟨rfl, htail⟩

/-- A parameter is known from its frame and the type it holds. -/
theorem Param.determines : Determines Param.frame Param.held := by
  rintro ⟨name, type, optional, rest⟩ ⟨name', type', optional', rest'⟩ as bs hframe hheld
  obtain ⟨rfl, htype, rfl, rfl⟩ := Param.mk.inj hframe
  obtain ⟨rfl, htail⟩ := Ty.determines_optionHeld htype hheld
  exact ⟨rfl, htail⟩

/-- A signature is known from its frame and what it holds. -/
theorem Signature.determines : Determines Signature.frame Signature.held := by
  rintro ⟨typeParams, thisType, params⟩ ⟨typeParams', thisType', params'⟩ as bs hframe hheld
  obtain ⟨htypeParams, hthis, hparams⟩ := Signature.mk.inj hframe
  simp only [Signature.held, List.append_assoc] at hheld
  obtain ⟨rfl, h₁⟩ := TypeParam.determines_param.map htypeParams hheld
  obtain ⟨rfl, h₂⟩ := Ty.determines_optionHeld hthis h₁
  obtain ⟨rfl, h₃⟩ := Param.determines.list hparams h₂
  exact ⟨rfl, h₃⟩

/-- A signature and an optional type behind it, as methods and callables have them, are known from
their frames and what they hold together. -/
theorem Signature.determines_with {s s' : Signature Ty} {r r' : Option Ty} (as bs : List Held)
    (hs : s.frame = s'.frame) (hr : Ty.presence r = Ty.presence r')
    (hheld : s.heldWith r ++ as = s'.heldWith r' ++ bs) : s = s' ∧ r = r' ∧ as = bs := by
  simp only [Signature.heldWith, List.append_assoc] at hheld
  obtain ⟨rfl, h₁⟩ := Signature.determines hs hheld
  obtain ⟨rfl, h₂⟩ := Ty.determines_optionHeld hr h₁
  exact ⟨rfl, rfl, h₂⟩

/-- An index signature is known from its frame and the types it holds. -/
theorem IndexSignature.determines : Determines IndexSignature.frame IndexSignature.held := by
  rintro ⟨docs, key, keyType, value, ro⟩ ⟨docs', key', keyType', value', ro'⟩ as bs hframe hheld
  obtain ⟨rfl, rfl, -, -, rfl⟩ := IndexSignature.mk.inj hframe
  obtain ⟨hkey, hrest⟩ := List.cons.inj hheld
  obtain ⟨hvalue, htail⟩ := List.cons.inj hrest
  obtain rfl := Held.type.inj hkey
  obtain rfl := Held.type.inj hvalue
  exact ⟨rfl, htail⟩

/-- A callable is known from its frame and what it holds. -/
theorem Callable.determines :
    Determines Callable.frame fun c => c.signature.heldWith c.returns := by
  rintro ⟨docs, s, r⟩ ⟨docs', s', r'⟩ as bs hframe hheld
  obtain ⟨rfl, hs, hr⟩ := Callable.mk.inj hframe
  obtain ⟨rfl, rfl, htail⟩ := Signature.determines_with _ _ hs hr hheld
  exact ⟨rfl, htail⟩

/-- A member is known from its frame and what it holds. -/
theorem Member.determines : Determines Member.frame Member.held := by
  intro m n as bs hframe hheld
  cases m <;> cases n <;> simp only [Member.frame, reduceCtorEq] at hframe
  case property.property p q =>
    obtain ⟨docs, name, type, optional, ro⟩ := p
    obtain ⟨docs', name', type', optional', ro'⟩ := q
    obtain ⟨rfl, rfl, -, rfl, rfl⟩ := Property.mk.inj (Member.property.inj hframe)
    obtain ⟨rfl, htail⟩ := Ty.determines_type rfl hheld
    exact ⟨rfl, htail⟩
  case method.method d e =>
    obtain ⟨docs, name, kind, s, r, optional⟩ := d
    obtain ⟨docs', name', kind', s', r', optional'⟩ := e
    obtain ⟨rfl, rfl, rfl, hs, hr, rfl⟩ := Method.mk.inj (Member.method.inj hframe)
    obtain ⟨rfl, rfl, htail⟩ := Signature.determines_with _ _ hs hr hheld
    exact ⟨rfl, htail⟩
  case call.call c d =>
    obtain ⟨rfl, htail⟩ := Callable.determines (Member.call.inj hframe) hheld
    exact ⟨rfl, htail⟩
  case construct.construct c d =>
    obtain ⟨rfl, htail⟩ := Callable.determines (Member.construct.inj hframe) hheld
    exact ⟨rfl, htail⟩
  case index.index i j =>
    obtain ⟨rfl, htail⟩ := IndexSignature.determines (Member.index.inj hframe) hheld
    exact ⟨rfl, htail⟩

/-- An element of a tuple is known from its frame and its type. -/
theorem TupleElement.determines :
    Determines TupleElement.frame fun e => [.type e.type] := by
  rintro ⟨type, name, optional, rest⟩ ⟨type', name', optional', rest'⟩ as bs hframe hheld
  obtain ⟨-, rfl, rfl, rfl⟩ := TupleElement.mk.inj hframe
  obtain ⟨rfl, htail⟩ := Ty.determines_type rfl hheld
  exact ⟨rfl, htail⟩

/-- The case in which nothing follows what is held. -/
theorem Determines.eq {α φ : Type} {frame : α → φ} {held : α → List Held}
    (h : Determines frame held) {a b : α} (hframe : frame a = frame b)
    (hheld : held a = held b) : a = b :=
  (h hframe (congrArg (· ++ []) hheld)).1

/-- Types are known from the list of what is held. -/
theorem Ty.map_type_inj {ts us : List Ty} (h : ts.map Held.type = us.map Held.type) : ts = us :=
  (List.map_inj_right fun _ _ => Held.type.inj).1 h

/-- A type is known from what is held if that is one type. -/
theorem Ty.type_inj {t u : Ty} (h : [Held.type t] = [Held.type u]) : t = u :=
  Held.type.inj (List.cons.inj h).1

/-- A signature and a result that has a type, as function types have it. -/
theorem Signature.eq_of_frame_result {s s' : Signature Ty} {r r' : Ty} (hs : s.frame = s'.frame)
    (hheld : s.heldWith (some r) = s'.heldWith (some r')) : s = s' ∧ r = r' := by
  have hr : Ty.presence (some r) = Ty.presence (some r') := rfl
  obtain ⟨hsignature, hreturns, -⟩ :=
    Signature.determines_with [] [] hs hr (congrArg (· ++ []) hheld)
  exact ⟨hsignature, Option.some.inj hreturns⟩

/-- A type is known from its frame and what it holds. -/
theorem Ty.eq_of_frame {t u : Ty} (hframe : t.frame = u.frame) (hheld : t.held = u.held) :
    t = u := by
  cases t <;> cases u <;> simp only [Ty.frame, reduceCtorEq] at hframe
  case named.named =>
    rw [Ty.Frame.named.inj hframe, Ty.map_type_inj hheld]
  case primitive.primitive => rw [Ty.Frame.primitive.inj hframe]
  case string.string => rw [Ty.Frame.string.inj hframe]
  case number.number => rw [Ty.Frame.number.inj hframe]
  case boolean.boolean => rw [Ty.Frame.boolean.inj hframe]
  case union.union => rw [Ty.map_type_inj hheld]
  case intersection.intersection => rw [Ty.map_type_inj hheld]
  case function.function =>
    obtain ⟨rfl, hreturns⟩ := Signature.eq_of_frame_result (Ty.Frame.function.inj hframe) hheld
    rw [hreturns]
  case construct.construct =>
    obtain ⟨rfl, hsignature⟩ := Ty.Frame.construct.inj hframe
    obtain ⟨rfl, hreturns⟩ := Signature.eq_of_frame_result hsignature hheld
    rw [hreturns]
  case object.object => rw [Member.determines.list.eq (Ty.Frame.object.inj hframe) hheld]
  case tuple.tuple => rw [TupleElement.determines.map.eq (Ty.Frame.tuple.inj hframe) hheld]
  case typeOf.typeOf => rw [Ty.Frame.typeOf.inj hframe]
  case array.array => rw [Ty.type_inj hheld]
  case keyOf.keyOf => rw [Ty.type_inj hheld]
  case readonly.readonly => rw [Ty.type_inj hheld]
  case paren.paren => rw [Ty.type_inj hheld]
  case index.index =>
    obtain ⟨htarget, hkey⟩ := List.cons.inj hheld
    rw [Held.type.inj htarget, Ty.type_inj hkey]
  case conditional.conditional =>
    obtain ⟨hcheck, hrest⟩ := List.cons.inj hheld
    obtain ⟨hbound, hrest⟩ := List.cons.inj hrest
    obtain ⟨htrue, hfalse⟩ := List.cons.inj hrest
    rw [Held.type.inj hcheck, Held.type.inj hbound, Held.type.inj htrue, Ty.type_inj hfalse]
  case mapped.mapped =>
    obtain ⟨rfl, hname, rfl, rfl⟩ := Ty.Frame.mapped.inj hframe
    obtain ⟨hkeys, hrest⟩ := List.cons.inj hheld
    obtain ⟨rfl, hvalue⟩ := Ty.determines_optionHeld hname hrest
    rw [Held.type.inj hkeys, Ty.type_inj hvalue]
  case infer.infer => rw [Ty.Frame.infer.inj hframe]
  case template.template => rw [Ty.Frame.template.inj hframe]
  case imported.imported =>
    obtain ⟨rfl, rfl, rfl⟩ := Ty.Frame.imported.inj hframe
    rw [Ty.map_type_inj hheld]
  case predicate.predicate =>
    obtain ⟨rfl, rfl, htype⟩ := Ty.Frame.predicate.inj hframe
    rw [Ty.determines_optionHeld.eq htype hheld]
  case uniqueSymbol.uniqueSymbol | this.this => rfl

/-- A class member is known from its frame and what it holds, with what follows it. -/
theorem ClassMember.determines : Determines ClassMember.frame ClassMember.held := by
  intro m n as bs hframe hheld
  cases m <;> cases n <;> simp only [ClassMember.frame, reduceCtorEq] at hframe
  case property.property p q =>
    obtain ⟨docs, name, type, optional, ro, st, ab, visibility⟩ := p
    obtain ⟨docs', name', type', optional', ro', st', ab', visibility'⟩ := q
    obtain ⟨rfl, rfl, htype, rfl, rfl, rfl, rfl, rfl⟩ := ClassMember.Frame.property.inj hframe
    obtain ⟨rfl, htail⟩ := Ty.determines_optionHeld htype hheld
    exact ⟨rfl, htail⟩
  case method.method d e =>
    obtain ⟨docs, name, kind, s, r, optional, st, ab, visibility⟩ := d
    obtain ⟨docs', name', kind', s', r', optional', st', ab', visibility'⟩ := e
    obtain ⟨rfl, rfl, rfl, hs, hr, rfl, rfl, rfl, rfl⟩ := ClassMember.Frame.method.inj hframe
    obtain ⟨rfl, rfl, htail⟩ := Signature.determines_with _ _ hs hr hheld
    exact ⟨rfl, htail⟩
  case constructor.constructor c d =>
    obtain ⟨docs, visibility, params⟩ := c
    obtain ⟨docs', visibility', params'⟩ := d
    obtain ⟨rfl, rfl, hparams⟩ := ClassMember.Frame.constructor.inj hframe
    obtain ⟨rfl, htail⟩ := Param.determines.list hparams hheld
    exact ⟨rfl, htail⟩
  case index.index i j =>
    have hindex := ClassMember.Frame.index.inj hframe
    obtain ⟨rfl, htail⟩ := IndexSignature.determines hindex hheld
    exact ⟨rfl, htail⟩

/-- A statement is known from its frame, what it holds and the statements in it. -/
theorem Item.eq_of_frame {item other : Item} (hframe : item.frame = other.frame)
    (hheld : item.held = other.held) (hnested : item.nested = other.nested) : item = other := by
  cases item <;> cases other <;> simp only [Item.frame, reduceCtorEq] at hframe
  case function.function d e =>
    obtain ⟨docs, modifiers, name, s, r⟩ := d
    obtain ⟨docs', modifiers', name', s', r'⟩ := e
    obtain ⟨rfl, rfl, rfl, hs, hr⟩ := Item.Frame.function.inj hframe
    obtain ⟨rfl, rfl, -⟩ := Signature.determines_with [] [] hs hr
      (congrArg (· ++ []) hheld)
    rfl
  case interface.interface d e =>
    obtain ⟨docs, modifiers, name, typeParams, bases, members⟩ := d
    obtain ⟨docs', modifiers', name', typeParams', bases', members'⟩ := e
    obtain ⟨rfl, rfl, rfl, htypeParams, hbases, hmembers⟩ := Item.Frame.interface.inj hframe
    simp only [Item.held, List.append_assoc] at hheld
    obtain ⟨rfl, h₁⟩ := TypeParam.determines_param.map htypeParams hheld
    obtain ⟨rfl, h₂⟩ := Ty.determines_type.map hbases h₁
    obtain rfl : members = members' := Member.determines.list.eq hmembers h₂
    rfl
  case typeAlias.typeAlias d e =>
    obtain ⟨docs, modifiers, name, typeParams, type⟩ := d
    obtain ⟨docs', modifiers', name', typeParams', type'⟩ := e
    obtain ⟨rfl, rfl, rfl, htypeParams⟩ := Item.Frame.typeAlias.inj hframe
    obtain ⟨rfl, h₁⟩ := TypeParam.determines_param.map htypeParams hheld
    obtain rfl : type = type' := Ty.type_inj h₁
    rfl
  case cls.cls d e =>
    obtain ⟨docs, modifiers, ab, name, typeParams, base, interfaces, members⟩ := d
    obtain ⟨docs', modifiers', ab', name', typeParams', base', interfaces', members'⟩ := e
    obtain ⟨rfl, rfl, rfl, rfl, htypeParams, hbase, hinterfaces, hmembers⟩ :=
      Item.Frame.cls.inj hframe
    simp only [Item.held, List.append_assoc] at hheld
    obtain ⟨rfl, h₁⟩ := TypeParam.determines_param.map htypeParams hheld
    obtain ⟨rfl, h₂⟩ := Ty.determines_optionHeld hbase h₁
    obtain ⟨rfl, h₃⟩ := Ty.determines_type.map hinterfaces h₂
    obtain rfl : members = members' := ClassMember.determines.list.eq hmembers h₃
    rfl
  case var.var d e =>
    obtain ⟨docs, modifiers, kind, name, type, initializer⟩ := d
    obtain ⟨docs', modifiers', kind', name', type', initializer'⟩ := e
    obtain ⟨rfl, rfl, rfl, rfl, htype, rfl⟩ := Item.Frame.var.inj hframe
    obtain rfl : type = type' := Ty.determines_optionHeld.eq htype hheld
    rfl
  case enum.enum => rw [Item.Frame.enum.inj hframe]
  case space.space b c =>
    obtain ⟨docs, modifiers, name, items⟩ := b
    obtain ⟨docs', modifiers', name', items'⟩ := c
    obtain ⟨rfl, rfl, rfl⟩ := Item.Frame.space.inj hframe
    obtain rfl : items = items' := hnested
    rfl
  case ambient.ambient b c =>
    obtain ⟨docs, modifiers, name, items⟩ := b
    obtain ⟨docs', modifiers', name', items'⟩ := c
    obtain ⟨rfl, rfl, rfl⟩ := Item.Frame.ambient.inj hframe
    obtain rfl : items = items' := hnested
    rfl
  case exports.exports => rw [Item.Frame.exports.inj hframe]
  case imports.imports => rw [Item.Frame.imports.inj hframe]
  case verbatim.verbatim => rw [Item.Frame.verbatim.inj hframe]

namespace Subtree

/-! ## Trees are known from their frames -/

/-- What is held is known from the subtrees it makes. -/
theorem map_held_inj {hs ks : List Held} (h : hs.map Subtree.held = ks.map Subtree.held) :
    hs = ks :=
  (List.map_inj_right fun _ _ => Subtree.held.inj).1 h

/-- Types and type parameters are told from statements. -/
theorem append_inj {hs ks : List Held} {items others : List Item}
    (h : hs.map Subtree.held ++ items.map .item = ks.map Subtree.held ++ others.map .item) :
    hs = ks ∧ items = others := by
  induction hs generalizing ks with
  | nil =>
    cases ks with
    | nil => exact ⟨rfl, (List.map_inj_right fun _ _ => Subtree.item.inj).1 h⟩
    | cons k ks => cases items <;> cases h
  | cons x hs ih =>
    cases ks with
    | nil => cases others <;> cases h
    | cons k ks =>
      obtain ⟨hhead, htail⟩ := List.cons.inj h
      obtain ⟨rfl, hitems⟩ := ih htail
      exact ⟨congrArg (· :: hs) (Subtree.held.inj hhead), hitems⟩

/-- A subtree is known from its frame and its children. -/
theorem eq_of_frame {s t : Subtree} (hframe : s.frame = t.frame)
    (hchildren : s.children = t.children) : s = t := by
  match s, t with
  | .item i, .item j =>
    obtain ⟨hheld, hnested⟩ := append_inj hchildren
    rw [Item.eq_of_frame (Frame.item.inj hframe) hheld hnested]
  | .held (.param ⟨name, constraint, default⟩), .held (.param ⟨name', constraint', default'⟩) =>
    obtain ⟨rfl, hconstraint, hdefault⟩ := Frame.param.inj hframe
    obtain ⟨rfl, h₁⟩ := Ty.determines_optionHeld hconstraint (map_held_inj hchildren)
    obtain rfl : default = default' := Ty.determines_optionHeld.eq hdefault h₁
    rfl
  | .held (.type ty), .held (.type ty') =>
    rw [Ty.eq_of_frame (Frame.type.inj hframe) (map_held_inj hchildren)]

/-- A tree is known from the frames at its addresses. -/
theorem eq_of_frames {s t : Subtree}
    (h : ∀ address, (s.at? address).map frame = (t.at? address).map frame) : s = t := by
  induction s using induction generalizing t with
  | step s ih =>
    refine eq_of_frame (Option.some.inj (h [])) (List.ext_getElem? fun i => ?_)
    have hchild (address : List Nat) :
        (s.children[i]?.bind (at? address)).map frame =
          (t.children[i]?.bind (at? address)).map frame := h (i :: address)
    cases hs : s.children[i]? with
    | none =>
      cases ht : t.children[i]? with
      | none => rfl
      | some d =>
        have hroot := hchild []
        rw [hs, ht] at hroot
        cases hroot
    | some c =>
      cases ht : t.children[i]? with
      | none =>
        have hroot := hchild []
        rw [hs, ht] at hroot
        cases hroot
      | some d =>
        rw [hs, ht] at hchild
        rw [ih c (List.mem_of_getElem? hs) hchild]

end Subtree

end DeclLayer
