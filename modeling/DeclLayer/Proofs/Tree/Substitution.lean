import DeclLayer.Proofs.Tree.Walk
import DeclLayer.Tree.Substitution

/-!
# What a substitution does

The answer of a substitution depends on its state, because the number of replacements is limited; so
it is no revision. What holds of it is an invariant of the state. A stateful program *maintains* a
property of states (`Maintains`) if it leads from states with the property to such states only, and
an edit maintains whatever the three actions of its editor maintain, however deep it goes
(`Item.editList_maintains`).

So the record of a substitution can be trusted: it counts the replacements it lists, there are never
more of them than the limit allows, and each of them is of a text that is listed
(`Substitution.apply_recorded`). A substitution that lists nothing leaves the statements as they are
and records every statement and every type parameter in order (`Substitution.apply_of_none`).
-/

namespace DeclLayer

/-! ## Properties that an edit maintains -/

section

variable {σ α β : Type} {I : σ → Prop}

/-- From a state with the property the program leads to a state with the property. -/
def Maintains (I : σ → Prop) (x : StateM σ α) : Prop :=
  ∀ s, I s → I (x.run s).2

namespace Maintains

/-- An answer without an action leaves the state as it is. -/
theorem pure (a : α) : Maintains I (pure a) := fun _ hs => hs

/-- Two programs in a row maintain what both of them maintain. -/
theorem bind {x : StateM σ α} {f : α → StateM σ β} (hx : Maintains I x)
    (hf : ∀ a, Maintains I (f a)) : Maintains I (x >>= f) := by
  intro s hs
  rw [StateT.run_bind]
  exact hf _ _ (hx s hs)

/-- What is made of the answer afterwards does not matter to the state. -/
theorem map {x : StateM σ α} {f : α → β} (hx : Maintains I x) :
    Maintains I (do return f (← x)) :=
  hx.bind fun a => .pure (f a)

/-- A program for each element of a list, one after the other. -/
theorem mapM {f : α → StateM σ β} {l : List α} (hf : ∀ a, Maintains I (f a)) :
    Maintains I (l.mapM f) := by
  induction l with
  | nil => exact .pure []
  | cons a l ih =>
    rw [List.mapM_cons]
    exact (hf a).bind fun _ => ih.map

end Maintains

/-- An editor maintains a property if each of its actions does. -/
structure Editor.Maintains (e : Editor σ) (I : σ → Prop) : Prop where
  item : ∀ name, DeclLayer.Maintains I (e.item name)
  param : ∀ name, DeclLayer.Maintains I (e.param name)
  type : ∀ ty, DeclLayer.Maintains I (e.type ty)

section

variable {rename : String → StateM σ String} {f : Ty → StateM σ Ty}
  (hrename : ∀ name, Maintains I (rename name)) (hf : ∀ ty, Maintains I (f ty))

include hf

/-- Acting on a type that may be missing. -/
theorem Ty.onOption_maintains (ty : Option Ty) : Maintains I (Ty.onOption f ty) := by
  cases ty with
  | none => exact .pure none
  | some ty => exact (hf ty).map

/-- Acting on the type of a parameter. -/
theorem Param.onParts_maintains (p : Param Ty) : Maintains I (p.onParts f) :=
  (Ty.onOption_maintains hf p.type).map

/-- Acting on the types of an index signature. -/
theorem IndexSignature.onParts_maintains (i : IndexSignature Ty) : Maintains I (i.onParts f) :=
  (hf i.keyType).bind fun _ => (hf i.value).map

include hrename

/-- Acting on a type parameter. -/
theorem TypeParam.onParts_maintains (p : TypeParam Ty) : Maintains I (p.onParts rename f) :=
  (hrename p.name).bind fun _ => (Ty.onOption_maintains hf p.constraint).bind fun _ =>
    (Ty.onOption_maintains hf p.default).map

/-- Acting on the parts of a signature. -/
theorem Signature.onParts_maintains (s : Signature Ty) : Maintains I (s.onParts rename f) :=
  (Maintains.mapM (TypeParam.onParts_maintains hrename hf)).bind fun _ =>
    (Ty.onOption_maintains hf s.thisType).bind fun _ =>
      (Maintains.mapM (Param.onParts_maintains hf)).map

/-- Acting on a signature and then on an optional type, as functions, methods and callables do. -/
theorem Signature.returns_maintains (s : Signature Ty) (returns : Option Ty)
    (g : Signature Ty → Option Ty → α) :
    Maintains I (do
      let signature ← s.onParts rename f
      let returns ← Ty.onOption f returns
      return g signature returns) :=
  (s.onParts_maintains hrename hf).bind fun _ => (Ty.onOption_maintains hf returns).map

/-- Acting on the parts of a member. -/
theorem Member.onParts_maintains (m : Member Ty) : Maintains I (m.onParts rename f) := by
  cases m with
  | property p => exact (hf p.type).map
  | method d => exact d.signature.returns_maintains hrename hf d.returns _
  | call c | construct c => exact (c.signature.returns_maintains hrename hf c.returns _).map
  | index i => exact (i.onParts_maintains hf).map

/-- Acting on the parts of a class member. -/
theorem ClassMember.onParts_maintains (m : ClassMember) : Maintains I (m.onParts rename f) := by
  cases m with
  | property p => exact (Ty.onOption_maintains hf p.type).map
  | method d => exact d.signature.returns_maintains hrename hf d.returns _
  | constructor c => exact (Maintains.mapM (Param.onParts_maintains hf)).map
  | index i => exact (i.onParts_maintains hf).map

/-- Acting on the parts of a type. -/
theorem Ty.onParts_maintains (ty : Ty) : Maintains I (ty.onParts rename f) := by
  cases ty with
  | named | union | intersection | imported => exact (Maintains.mapM hf).map
  | function signature returns | construct _ signature returns =>
    exact (signature.onParts_maintains hrename hf).bind fun _ => (hf returns).map
  | object => exact (Maintains.mapM (Member.onParts_maintains hrename hf)).map
  | array type | keyOf type | readonly type | paren type => exact (hf type).map
  | tuple => exact (Maintains.mapM fun e : TupleElement Ty => (hf e.type).map).map
  | index target key => exact (hf target).bind fun _ => (hf key).map
  | conditional check bound whenTrue whenFalse =>
    exact (hf check).bind fun _ => (hf bound).bind fun _ => (hf whenTrue).bind fun _ =>
      (hf whenFalse).map
  | mapped key keys nameType value =>
    exact (hf keys).bind fun _ => (Ty.onOption_maintains hf nameType).bind fun _ =>
      (hf value).map
  | predicate asserts param type => exact (Ty.onOption_maintains hf type).map
  | primitive | string | number | boolean | typeOf | uniqueSymbol | infer | template | this =>
    exact .pure _

end

section

variable {e : Editor σ}

/-- Editing a type maintains what the editor maintains, by induction on the levels. -/
theorem Ty.edit_maintains (he : e.Maintains I) (levels : Nat) (ty : Ty) :
    Maintains I (Ty.edit e levels ty) := by
  induction levels generalizing ty with
  | zero => exact .pure ty
  | succ levels ih => exact (he.type ty).bind (Ty.onParts_maintains he.param ih)

mutual

/-- Editing a statement maintains what the editor maintains. -/
theorem Item.edit_maintains (he : e.Maintains I) (levels : Nat) : ∀ item : Item,
    Maintains I (item.edit e levels)
  | .function d => by
    rw [Item.edit]
    exact (he.item _).bind fun _ =>
      d.signature.returns_maintains he.param (Ty.edit_maintains he levels) d.returns _
  | .interface d => by
    have hty := Ty.edit_maintains he levels
    rw [Item.edit]
    exact (he.item _).bind fun _ =>
      (Maintains.mapM (TypeParam.onParts_maintains he.param hty)).bind fun _ =>
        (Maintains.mapM hty).bind fun _ =>
          (Maintains.mapM (Member.onParts_maintains he.param hty)).map
  | .typeAlias d => by
    have hty := Ty.edit_maintains he levels
    rw [Item.edit]
    exact (he.item _).bind fun _ =>
      (Maintains.mapM (TypeParam.onParts_maintains he.param hty)).bind fun _ => (hty d.type).map
  | .cls d => by
    have hty := Ty.edit_maintains he levels
    rw [Item.edit]
    exact (he.item _).bind fun _ =>
      (Maintains.mapM (TypeParam.onParts_maintains he.param hty)).bind fun _ =>
        (Ty.onOption_maintains hty d.base).bind fun _ => (Maintains.mapM hty).bind fun _ =>
          (Maintains.mapM (ClassMember.onParts_maintains he.param hty)).map
  | .var d => by
    rw [Item.edit]
    exact (he.item _).bind fun _ =>
      (Ty.onOption_maintains (Ty.edit_maintains he levels) d.type).map
  | .space ⟨_, _, _, items⟩ | .ambient ⟨_, _, _, items⟩ => by
    rw [Item.edit]
    exact (he.item _).bind fun _ => (Item.editList_maintains he levels items).map
  | .enum _ | .exports _ | .imports _ | .verbatim _ => by
    rw [Item.edit]
    exact (he.item _).bind fun _ => .pure _

/-- Editing statements maintains what the editor maintains. -/
theorem Item.editList_maintains (he : e.Maintains I) (levels : Nat) : ∀ items : List Item,
    Maintains I (Item.editList e levels items)
  | [] => .pure []
  | item :: items =>
    (Item.edit_maintains he levels item).bind fun _ =>
      (Item.editList_maintains he levels items).map

end

end

end

/-! ## The record of a substitution -/

namespace Substitution

variable {s : Substitution} {p : Progress}

/-- Whether an event is a replacement. -/
def Event.isReplaced : Event → Bool
  | .replaced _ => true
  | .item _ | .param _ => false

/-- The record of a substitution is right: the replacements are counted, are within the limit, and
are of texts that are listed. -/
structure Recorded (s : Substitution) (p : Progress) : Prop where
  count : p.count = p.events.countP Event.isReplaced
  limit : p.count ≤ s.limit
  listed : ∀ text, .replaced text ∈ p.events → (s.types.lookup text).isSome

/-- Nothing was met and nothing was replaced. -/
theorem recorded_start : s.Recorded .start :=
  ⟨rfl, Nat.zero_le _, nofun⟩

/-- A statement or a type parameter is recorded and not counted. -/
theorem maintains_record {event : Event} (h : event.isReplaced = false) :
    Maintains s.Recorded (record event) := by
  rintro p ⟨hcount, hlimit, hlisted⟩
  refine ⟨?_, hlimit, fun text htext => ?_⟩
  · show p.count = (p.events ++ [event]).countP Event.isReplaced
    rw [List.countP_append, List.countP_singleton, h, if_neg Bool.false_ne_true]
    exact hcount
  · rcases List.mem_append.1 htext with htext | htext
    · exact hlisted text htext
    · cases List.mem_singleton.1 htext
      cases h

/-- A type is replaced, counted and recorded, or nothing happens. It is replaced only if its text is
listed and the limit is not reached. -/
theorem replace_cases (s : Substitution) (ty : Ty) (p : Progress) :
    ((s.replace ty).run p).2 = p ∨
      (s.types.lookup ty.text).isSome ∧ p.count < s.limit ∧
        ((s.replace ty).run p).2 = ⟨p.events ++ [.replaced ty.text], p.count + 1⟩ := by
  rw [replace]
  cases s.types.lookup ty.text with
  | none => exact .inl rfl
  | some replacement =>
    by_cases hlt : p.count < s.limit
    · refine .inr ⟨rfl, hlt, ?_⟩
      simp only [StateT.run_bind, StateT.run_get, pure_bind, if_pos hlt]
      rfl
    · refine .inl ?_
      simp only [StateT.run_bind, StateT.run_get, pure_bind, if_neg hlt]
      rfl

/-- A replacement is counted and recorded together, and only as long as the limit is not reached. -/
theorem maintains_replace (ty : Ty) : Maintains s.Recorded (s.replace ty) := by
  rintro p ⟨hcount, hlimit, hlisted⟩
  rcases s.replace_cases ty p with hstate | ⟨hlookup, hlt, hstate⟩
  · rw [hstate]
    exact ⟨hcount, hlimit, hlisted⟩
  · rw [hstate]
    refine ⟨?_, hlt, fun text htext => ?_⟩
    · rw [List.countP_append, ← hcount]
      rfl
    · rcases List.mem_append.1 htext with htext | htext
      · exact hlisted text htext
      · obtain rfl := Event.replaced.inj (List.mem_singleton.1 htext)
        exact hlookup

/-- The editor of a substitution keeps its record right. -/
theorem editor_maintains : s.editor.Maintains s.Recorded where
  item _ := maintains_record rfl
  param _ := (maintains_record rfl).map
  type := maintains_replace

/-- The record of a substitution is right: it counts the replacements that it lists, which are not
more than the limit allows, and of texts that are listed. -/
theorem apply_recorded (s : Substitution) (items : List Item) : s.Recorded (s.apply items).2 :=
  Item.editList_maintains editor_maintains (s.levels items) items .start recorded_start

/-! ## A substitution that lists nothing -/

/-- What is recorded of a node where nothing is replaced. -/
def Event.ofNode? : Node → Option Event
  | .item name => some (.item name)
  | .param name => some (.param name)
  | .type _ => none

/-- Without entries a type stays as it is, and nothing is recorded of it. -/
theorem replace_of_none (htypes : s.types = []) (ty : Ty) (p : Progress) :
    (s.replace ty).run p = (ty, p) := by
  rw [replace, htypes]
  rfl

/-- Without entries the editor answers names and types as they are. -/
theorem keeps_of_none (htypes : s.types = []) (hparams : s.params = []) : s.editor.Keeps where
  param name p := by
    show (s.params.lookup name).getD name = name
    rw [hparams]
    rfl
  type ty p := congrArg Prod.fst (replace_of_none htypes ty p)

/-- Without entries a node is met by recording what it is. -/
theorem see_of_none (htypes : s.types = []) (nodes : List Node) (p : Progress) :
    nodes.foldl s.editor.see p = ⟨p.events ++ nodes.filterMap Event.ofNode?, p.count⟩ := by
  have htype (ty : Ty) (p : Progress) : s.editor.see p (.type ty) = p :=
    congrArg Prod.snd (replace_of_none htypes ty p)
  induction nodes generalizing p with
  | nil => rw [List.foldl_nil, List.filterMap_nil, List.append_nil]
  | cons node nodes ih =>
    rw [List.foldl_cons, ih]
    cases node with
    | item name | param name =>
      show Progress.mk (p.events ++ [_] ++ _) _ = _
      rw [List.append_assoc]
      rfl
    | type ty =>
      rw [htype]
      rfl

/-- A substitution that lists nothing leaves the statements as they are, and records every
statement and every type parameter in the order in which the walk lists them. -/
theorem apply_of_none (htypes : s.types = []) (hparams : s.params = []) (items : List Item) :
    s.apply items = (items, ⟨(Item.nodesList items).filterMap Event.ofNode?, 0⟩) := by
  have hlevels : ∀ item ∈ items, item.nodes.length ≤ s.levels items := fun item hitem =>
    Nat.le_add_right_of_le (Item.nodes_length_le hitem)
  have hkeep : Revision.keep.ty (s.levels items) = id :=
    funext fun ty => Revision.ty_keep _ ty
  have hitems : Item.mapPartsList id id items = items := by
    rw [Item.mapPartsList_eq, funext Item.mapParts_id]
    exact List.map_id' items
  have hevents : Revision.keep.itemsEvents (s.levels items) items = Item.nodesList items := by
    rw [Revision.itemsEvents_eq, Item.nodesList_eq]
    exact List.flatMap_congr fun item hitem => Revision.itemEvents_keep (hlevels item hitem)
  have hacts := Item.editList_acts (keeps_of_none htypes hparams).carriesOut (s.levels items) items
    .start
  rw [hkeep, hevents, see_of_none htypes] at hacts
  exact hacts.trans (congrArg (·, _) hitems)

end Substitution

end DeclLayer
