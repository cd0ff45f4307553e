import DeclLayer.Proofs.Parse.SourceText
import DeclLayer.Proofs.Render.TypePieces
import DeclLayer.Proofs.Token.DocComment
import DeclLayer.Parse.Type

/-!
# Types that are written so that they can be read

No brackets are added when a type is written, so a type can be read back only if it holds the
brackets that the levels of binding ask for. `Ty.rank` is the level at which a type is read, from
the loosest on: a type in return position, any type, a union, an intersection, an operator, and what
binds tightest. `Ty.opens` says that a type ends with a part that would take in whatever follows.

`Ty.Fits` is what is asked of a type, given that the same holds of its parts, and `Ty.Canonical`
asks it of every type inside a type.
-/

namespace DeclLayer

open Token DeclLayer.Parser Literal

/-! ## Levels of binding -/

/-- The level at which a type is read. -/
def Ty.rank : Ty → Nat
  | .predicate .. => 0
  | .conditional .. => 1
  | .union _ => 2
  | .intersection _ => 3
  | .keyOf _ | .readonly _ | .uniqueSymbol | .infer _ => 4
  | _ => 5

mutual

/-- Whether a type ends with a part that takes in any operator after it. -/
def Ty.opens : Ty → Bool
  | .function .. | .construct .. | .conditional .. | .predicate .. => true
  | .union types => Ty.lastOpens types
  | .intersection types => Ty.lastOpens types
  | .keyOf type => type.opens
  | .readonly type => type.opens
  | _ => false

/-- Whether the last of some types ends with a part that takes in any operator after it. -/
def Ty.lastOpens : List Ty → Bool
  | [] => false
  | [type] => type.opens
  | _ :: types => Ty.lastOpens types

end

/-! ## Names -/

/-- A text that is read back as an identifier. -/
def Token.isIdent (s : String) : Bool :=
  isWord s && (wordKind s).isIdentLike

/-- A word that a reference can begin with: no primitive type and no operator. -/
def Token.isReferenceHead (w : String) : Bool :=
  match wordKind w with
  | .ident _ => true
  | .keyword k => k.contextual && (primitiveOf? k).isNone && k != .keyof && k != .readonly &&
      k != .infer
  | _ => false

/-- The first word of a reference is read as an identifier, and as no operator of a type. -/
theorem Token.wordKind_of_isReferenceHead {w : String} (h : isReferenceHead w = true) :
    (wordKind w).isIdentLike = true ∧ wordKind w ≠ .keyword .keyof ∧
      wordKind w ≠ .keyword .readonly ∧ wordKind w ≠ .keyword .infer := by
  unfold isReferenceHead at h
  split at h
  · next heq =>
    rw [heq]
    exact ⟨rfl, nofun, nofun, nofun⟩
  · next k heq =>
    simp only [Bool.and_eq_true, bne_iff_ne] at h
    obtain ⟨⟨⟨⟨hcontextual, -⟩, hkeyof⟩, hreadonly⟩, hinfer⟩ := h
    rw [heq]
    exact ⟨hcontextual, mt Kind.keyword.inj hkeyof, mt Kind.keyword.inj hreadonly,
      mt Kind.keyword.inj hinfer⟩
  · cases h

/-- A dotted name whose first word satisfies a condition. -/
def Token.IsDottedName (first : String → Prop) (name : String) : Prop :=
  isDotted name = true ∧ ∀ w ∈ (nameWords name).head?, first w

/-- A text that is read back as a number type. -/
inductive Token.IsNumberType (text : String) : Prop where
  | plain (h : isNumber text = true)
  | negative (digits : String) (h : text = "-" ++ digits) (hdigits : isNumber digits = true)

/-- The pieces of a number with or without a sign. -/
theorem Token.IsNumberType.pieces_eq {text : String} (h : IsNumberType text) :
    (isNumber text = true ∧ numberPieces text = [.token (.number text)]) ∨
      ∃ digits, text = "-" ++ digits ∧ isNumber digits = true ∧
        numberPieces text = [mark .minus, .token (.number digits)] := by
  cases h with
  | plain h =>
    refine .inl ⟨h, ?_⟩
    unfold numberPieces
    split
    · next digits htext =>
      rw [isNumber, htext] at h
      cases h
    · rfl
  | negative digits h hdigits =>
    refine .inr ⟨digits, h, hdigits, ?_⟩
    have htext : text.toList = '-' :: digits.toList := by
      rw [h, String.toList_append]
      rfl
    unfold numberPieces
    rw [htext]
    show [mark .minus, .token (.number (String.ofList digits.toList))] = _
    rw [String.ofList_toList]

/-- A text that is read back in place of the name of a parameter. -/
inductive Token.IsParamName (text : String) : Prop where
  | ident (h : isIdent text = true)
  | pattern (ls : List Lexeme) (cuts : Cuts tight text ls) (solid : Solid text)
    (closes : closesAt 0 (textKinds text) = true)
    (first : (textKinds text).head? = some (.punct .lbracket) ∨
      (textKinds text).head? = some (.punct .lbrace))

/-- A text that is read back as the inside of a template. -/
def Token.IsTemplate (raw : String) : Prop :=
  ∀ r, template 0 (raw.toList ++ '\x60' :: r) = (raw.toList.length, true)

/-! ## Types -/

/-- What is asked of a type parameter. -/
structure TypeParam.Fits (p : TypeParam Ty) : Prop where
  name : isIdent p.name = true
  constraint : ∀ t ∈ p.constraint, 1 ≤ t.rank
  default : ∀ t ∈ p.default, 1 ≤ t.rank

/-- What is asked of a parameter. -/
structure Param.Fits (p : Param Ty) : Prop where
  name : IsParamName p.name
  type : ∀ t ∈ p.type, 1 ≤ t.rank

/-- What is asked of a signature. -/
structure Signature.Fits (s : Signature Ty) : Prop where
  typeParams : ∀ p ∈ s.typeParams, p.Fits
  thisType : ∀ t ∈ s.thisType, 1 ≤ t.rank
  params : ∀ p ∈ s.params, p.Fits

/-- What is asked of a type in return position: unless it is a predicate, it must not look like one.
-/
def Ty.FitsReturn (t : Ty) : Prop :=
  1 ≤ t.rank → kindAt t.pieces 1 ≠ .keyword .is

/-- What is asked of a tuple element. -/
structure TupleElement.Fits (e : TupleElement Ty) : Prop where
  name : ∀ name ∈ e.name, isIdent name = true
  type : 1 ≤ e.type.rank

/-- What is asked of a call or construct signature. -/
structure Callable.Fits (c : Callable Ty) : Prop where
  docs : ∀ doc ∈ c.docs, Comment.IsDoc doc
  signature : c.signature.Fits
  returns : ∀ t ∈ c.returns, t.FitsReturn

/-- What is asked of an index signature. -/
structure IndexSignature.Fits (i : IndexSignature Ty) : Prop where
  docs : ∀ doc ∈ i.docs, Comment.IsDoc doc
  key : isIdent i.key = true
  keyType : 1 ≤ i.keyType.rank
  value : 1 ≤ i.value.rank

/-- A property name that does not look like an index signature. -/
structure Token.IsMemberName (name : String) : Prop where
  property : IsPropertyName name
  noIndex : ¬∃ kind rest, textKinds name = .punct .lbracket :: kind :: .punct .colon :: rest ∧
    kind.isIdentLike = true

/-- What is asked of a member. -/
inductive Member.Fits : Member Ty → Prop where
  | property {p : Property Ty} (docs : ∀ doc ∈ p.docs, Comment.IsDoc doc)
    (name : IsMemberName p.name) (type : 1 ≤ p.type.rank) : Fits (.property p)
  /-- A method with the name `new` would be a construct signature. -/
  | method {m : Method Ty} (name : IsMemberName m.name)
    (callable : Callable.Fits ⟨m.docs, m.signature, m.returns⟩)
    (new : m.name = "new" → m.kind = .method → m.optional = true) : Fits (.method m)
  | call {c : Callable Ty} (callable : c.Fits) : Fits (.call c)
  | construct {c : Callable Ty} (callable : c.Fits) (thisType : c.signature.thisType = none) :
    Fits (.construct c)
  | index {i : IndexSignature Ty} (index : i.Fits) : Fits (.index i)

/-- How many tokens, given by their numbers, could be the modifier in front of a mapped type. -/
def Token.mappedOffset (ahead : Nat → Kind) : Nat :=
  match ahead 1 with
  | .keyword .readonly => 1
  | .punct .plus | .punct .minus => if ahead 2 == .keyword .readonly then 2 else 0
  | _ => 0

/-- Whether tokens, given by their numbers, begin like a mapped type. -/
def Token.mappedHead (ahead : Nat → Kind) : Bool :=
  ahead (1 + mappedOffset ahead) == .punct .lbracket &&
    (ahead (2 + mappedOffset ahead)).isIdentLike &&
    ahead (3 + mappedOffset ahead) == .keyword .inKw

/-- What is asked of a type, next to what is asked of its parts. -/
inductive Ty.Fits : Ty → Prop where
  | named {name : String} {args : List Ty} (h : IsDottedName (isReferenceHead · = true) name)
    (hargs : ∀ t ∈ args, 1 ≤ t.rank) : Fits (.named name args)
  | primitive (p : Primitive) : Fits (.primitive p)
  | string (value : String) : Fits (.string value)
  | number {text : String} (h : IsNumberType text) : Fits (.number text)
  | boolean (value : Bool) : Fits (.boolean value)
  | union {types : List Ty} (hlength : 2 ≤ types.length) (hrank : ∀ t ∈ types, 3 ≤ t.rank)
    (hopens : ∀ t ∈ types.dropLast, t.opens = false) : Fits (.union types)
  | intersection {types : List Ty} (hlength : 2 ≤ types.length) (hrank : ∀ t ∈ types, 4 ≤ t.rank)
    (hopens : ∀ t ∈ types.dropLast, t.opens = false) : Fits (.intersection types)
  | function {signature : Signature Ty} {returns : Ty} (hsignature : signature.Fits)
    (hreturns : returns.FitsReturn) : Fits (.function signature returns)
  | construct {isAbstract : Bool} {signature : Signature Ty} {returns : Ty}
    (hsignature : signature.Fits) (hreturns : returns.FitsReturn) :
    Fits (.construct isAbstract signature returns)
  | object {members : List (Member Ty)} (hmembers : ∀ m ∈ members, m.Fits)
    (hhead : mappedHead (kindAt (Ty.object members).pieces) = false) : Fits (.object members)
  | array {element : Ty} (hrank : 5 ≤ element.rank) (hopens : element.opens = false) :
    Fits (.array element)
  | tuple {elements : List (TupleElement Ty)} (h : ∀ e ∈ elements, e.Fits) : Fits (.tuple elements)
  | typeOf {name : String}
    (h : IsDottedName (fun w => isPredicateParam (wordKind w) = true) name) : Fits (.typeOf name)
  | keyOf {type : Ty} (hrank : 4 ≤ type.rank) : Fits (.keyOf type)
  | readonly {type : Ty} (hrank : 4 ≤ type.rank) : Fits (.readonly type)
  | uniqueSymbol : Fits .uniqueSymbol
  | index {target key : Ty} (hrank : 5 ≤ target.rank) (hopens : target.opens = false)
    (hkey : 1 ≤ key.rank) : Fits (.index target key)
  | conditional {check bound whenTrue whenFalse : Ty} (hcheck : 2 ≤ check.rank)
    (hopens : check.opens = false) (hbound : 2 ≤ bound.rank) (htrue : 1 ≤ whenTrue.rank)
    (hfalse : 1 ≤ whenFalse.rank) : Fits (.conditional check bound whenTrue whenFalse)
  | mapped {key : String} {keys : Ty} {nameType : Option Ty} {value : Ty}
    {readonlyMod optionalMod : Option MappedModifier} (hkey : isIdent key = true)
    (hkeys : 1 ≤ keys.rank) (hopens : nameType.isSome = true → keys.opens = false)
    (hname : ∀ t ∈ nameType, 1 ≤ t.rank) (hvalue : 1 ≤ value.rank) :
    Fits (.mapped key keys nameType value readonlyMod optionalMod)
  | infer {name : String} (h : isIdent name = true) : Fits (.infer name)
  | template {raw : String} (h : IsTemplate raw) : Fits (.template raw)
  | imported {module : String} {qualifier : Option String} {args : List Ty} {isTypeof : Bool}
    (hqualifier : ∀ q ∈ qualifier, isDotted q = true) (hargs : ∀ t ∈ args, 1 ≤ t.rank) :
    Fits (.imported module qualifier args isTypeof)
  | predicate {asserts : Bool} {param : String} {type : Option Ty} (hword : isWord param = true)
    (hparam : isPredicateParam (wordKind param) = true)
    (htype : asserts = false → type.isSome = true ∧ param ≠ "asserts")
    (hrank : ∀ t ∈ type, 1 ≤ t.rank) : Fits (.predicate asserts param type)
  | paren {type : Ty} (h : 1 ≤ type.rank) : Fits (.paren type)
  | this : Fits .this

/-- A type is written so that it can be read, down to its last part. -/
def Ty.Canonical (t : Ty) : Prop :=
  ∀ u, .type u ∈ t.nodes → u.Fits

namespace Ty.Canonical

/-- A canonical type fits. -/
theorem fits {t : Ty} (h : t.Canonical) : t.Fits := by
  refine h t ?_
  rw [Ty.nodes_eq]
  exact List.mem_cons_self ..

/-- The parts of a canonical type are canonical. -/
theorem part {t u : Ty} (h : t.Canonical) (hu : .type u ∈ t.parts) : u.Canonical := by
  intro v hv
  refine h v ?_
  rw [Ty.nodes_eq]
  exact List.mem_cons_of_mem _ (List.mem_flatMap.2 ⟨.type u, hu, hv⟩)

/-- A type that fits and has canonical parts is canonical. -/
theorem of_parts {t : Ty} (h : t.Fits) (hparts : ∀ u, .type u ∈ t.parts → u.Canonical) :
    t.Canonical := by
  intro u hu
  rw [Ty.nodes_eq] at hu
  rcases List.mem_cons.1 hu with heq | hu
  · cases heq
    exact h
  · obtain ⟨part, hpart, hu⟩ := List.mem_flatMap.1 hu
    cases part with
    | param name => cases List.mem_singleton.1 hu
    | type v => exact hparts v hpart u hu

end Ty.Canonical

end DeclLayer
