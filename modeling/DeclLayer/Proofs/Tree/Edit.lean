import DeclLayer.Proofs.Tree.Parts
import DeclLayer.Tree.Edit

/-!
# What an editor does to a tree

An action on a state is *even* (`Acts`) if its answer does not depend on the state and if it takes
the state through a fixed list of events. Acting evenly on the parts of a type is an even action on
the type: the answer is the type with its parts replaced (`Ty.mapParts`), and the events are those
of the parts in the order of `Ty.parts` (`Ty.onParts_acts`). The parts of the answer are the
replaced parts (`Ty.parts_mapParts`), and nothing else of the type changes.
-/

namespace DeclLayer

/-! ## Even actions -/

section

variable {σ ε α β : Type} {φ : σ → ε → σ}

/-- The action answers `a` in every state and takes the state through the events. -/
def Acts (φ : σ → ε → σ) (x : StateM σ α) (a : α) (events : List ε) : Prop :=
  ∀ s, x.run s = (a, events.foldl φ s)

/-- An answer without an action has no events. -/
theorem Acts.pure (a : α) : Acts φ (pure a) a [] := fun _ => rfl

/-- Even actions in a row are an even action, with the events of both. -/
theorem Acts.bind {x : StateM σ α} {f : α → StateM σ β} {a : α} {b : β} {es es' : List ε}
    (hx : Acts φ x a es) (hf : Acts φ (f a) b es') : Acts φ (x >>= f) b (es ++ es') := by
  intro s
  rw [StateT.run_bind, hx s, List.foldl_append]
  exact hf _

/-- An even action keeps its meaning when answer and events are written in another way. -/
theorem Acts.of_eq {x : StateM σ α} {a b : α} {es es' : List ε} (h : Acts φ x a es)
    (hab : a = b) (hes : es = es') : Acts φ x b es' :=
  hab ▸ hes ▸ h

/-- An action that goes on to put its answer into something larger. -/
theorem Acts.map {x : StateM σ α} {f : α → β} {a : α} {es : List ε} (hx : Acts φ x a es) :
    Acts φ (do return f (← x)) (f a) es := by
  have := hx.bind (f := fun a => Pure.pure (f a)) (.pure (f a))
  rwa [List.append_nil] at this

/-- Even actions on the elements of a list are an even action on the list, with the events of all
elements in order. -/
theorem Acts.mapM {g : α → StateM σ β} {h : α → Id β} {E : α → List ε} {l : List α}
    (H : ∀ a ∈ l, Acts φ (g a) (h a).run (E a)) :
    Acts φ (l.mapM g) (l.mapM h).run (l.flatMap E) := by
  induction l with
  | nil => exact .pure []
  | cons a l ih =>
    rw [List.mapM_cons, List.mapM_cons, List.flatMap_cons]
    have ha := H a (by simp)
    have hl := ih fun b hb => H b (by simp [hb])
    exact ha.bind hl.map

end

/-! ## Acting on the parts -/

section

variable {σ ε : Type} {φ : σ → ε → σ} {rename : String → StateM σ String} {f : Ty → StateM σ Ty}
  {R : String → Id String} {F : Ty → Id Ty} {E : Part → List ε}

/-- The actions on some parts are even: `rename` and `f` answer what `R` and `F` answer, and the
events are those of `E`. -/
def ActsOn (φ : σ → ε → σ) (rename : String → StateM σ String) (f : Ty → StateM σ Ty)
    (R : String → Id String) (F : Ty → Id Ty) (E : Part → List ε) (parts : List Part) : Prop :=
  ∀ part ∈ parts, match part with
    | .param name => Acts φ (rename name) (R name).run (E (.param name))
    | .type ty => Acts φ (f ty) (F ty).run (E (.type ty))

/-- Even actions on some parts are even actions on the first one and on the others. -/
theorem actsOn_cons {part : Part} {parts : List Part} :
    ActsOn φ rename f R F E (part :: parts) ↔
      ActsOn φ rename f R F E [part] ∧ ActsOn φ rename f R F E parts := by
  simp [ActsOn]

/-- Even actions on two lists of parts are even actions on each of them. -/
theorem actsOn_append {parts parts' : List Part} :
    ActsOn φ rename f R F E (parts ++ parts') ↔
      ActsOn φ rename f R F E parts ∧ ActsOn φ rename f R F E parts' := by
  simp only [ActsOn, List.forall_mem_append]

/-- Even actions on the parts of all elements are even actions on those of each element. -/
theorem actsOn_flatMap {α : Type} {l : List α} {g : α → List Part} :
    ActsOn φ rename f R F E (l.flatMap g) ↔ ∀ a ∈ l, ActsOn φ rename f R F E (g a) := by
  simp only [ActsOn, List.forall_mem_flatMap]

/-- The action on the name of a type parameter. -/
theorem ActsOn.param {name : String} (h : ActsOn φ rename f R F E [.param name]) :
    Acts φ (rename name) (R name).run (E (.param name)) :=
  h _ (List.mem_singleton.2 rfl)

/-- The action on a type. -/
theorem ActsOn.type {ty : Ty} (h : ActsOn φ rename f R F E [.type ty]) :
    Acts φ (f ty) (F ty).run (E (.type ty)) :=
  h _ (List.mem_singleton.2 rfl)

/-- The actions on the types that elements have. -/
theorem ActsOn.types {α : Type} {l : List α} {g : α → Ty}
    (h : ActsOn φ rename f R F E (l.map fun a => .type (g a))) :
    ∀ a ∈ l, Acts φ (f (g a)) (F (g a)).run (E (.type (g a))) :=
  fun _ ha => h _ (List.mem_map_of_mem ha)

/-- Acting on an optional type is even if acting on the type is. -/
theorem Ty.onOption_acts {ty : Option Ty} (h : ActsOn φ rename f R F E (Ty.optionParts ty)) :
    Acts φ (Ty.onOption f ty) (Ty.onOption F ty).run ((Ty.optionParts ty).flatMap E) := by
  cases ty with
  | none => exact .pure none
  | some ty =>
    rw [Ty.optionParts, Option.toList_some, List.map_singleton, List.flatMap_singleton]
    exact h.type.map

/-- Acting on a type parameter is even if acting on its parts is. -/
theorem TypeParam.onParts_acts {p : TypeParam Ty} (h : ActsOn φ rename f R F E p.parts) :
    Acts φ (p.onParts rename f) (p.onParts R F).run (p.parts.flatMap E) := by
  obtain ⟨hname, h⟩ := actsOn_cons.1 h
  obtain ⟨hconstraint, hdefault⟩ := actsOn_append.1 h
  rw [TypeParam.parts, List.flatMap_cons, List.flatMap_append]
  exact hname.param.bind
    ((Ty.onOption_acts hconstraint).bind (Ty.onOption_acts hdefault).map)

/-- Acting on type parameters is even if acting on their parts is. -/
theorem TypeParam.mapM_acts {ps : List (TypeParam Ty)}
    (h : ActsOn φ rename f R F E (ps.flatMap TypeParam.parts)) :
    Acts φ (ps.mapM (TypeParam.onParts rename f)) (ps.mapM (TypeParam.onParts R F)).run
      ((ps.flatMap TypeParam.parts).flatMap E) := by
  rw [List.flatMap_assoc]
  exact .mapM fun p hp => TypeParam.onParts_acts (actsOn_flatMap.1 h p hp)

/-- Acting on parameters is even if acting on their types is. -/
theorem Param.mapM_acts {ps : List (Param Ty)}
    (h : ActsOn φ rename f R F E (ps.flatMap Param.parts)) :
    Acts φ (ps.mapM (Param.onParts f)) (ps.mapM (Param.onParts F)).run
      ((ps.flatMap Param.parts).flatMap E) := by
  rw [List.flatMap_assoc]
  exact .mapM fun p hp => (Ty.onOption_acts (actsOn_flatMap.1 h p hp)).map

/-- Acting on a signature is even if acting on its parts is. -/
theorem Signature.onParts_acts {s : Signature Ty} (h : ActsOn φ rename f R F E s.parts) :
    Acts φ (s.onParts rename f) (s.onParts R F).run (s.parts.flatMap E) := by
  obtain ⟨h, hparams⟩ := actsOn_append.1 h
  obtain ⟨htypeParams, hthis⟩ := actsOn_append.1 h
  rw [Signature.parts, List.flatMap_append, List.flatMap_append, List.append_assoc]
  exact (TypeParam.mapM_acts htypeParams).bind
    ((Ty.onOption_acts hthis).bind (Param.mapM_acts hparams).map)

/-- Acting on an index signature is even if acting on its types is. -/
theorem IndexSignature.onParts_acts {i : IndexSignature Ty}
    (h : ActsOn φ rename f R F E i.parts) :
    Acts φ (i.onParts f) (i.onParts F).run (i.parts.flatMap E) := by
  obtain ⟨hkey, hvalue⟩ := actsOn_cons.1 h
  rw [IndexSignature.parts, List.flatMap_cons, List.flatMap_singleton]
  exact hkey.type.bind hvalue.type.map

/-- Acting on a signature and then on an optional type, as methods and callables do. -/
theorem Signature.returns_acts {α : Type} {s : Signature Ty} {returns : Option Ty}
    {g : Signature Ty → Option Ty → α}
    (h : ActsOn φ rename f R F E (s.parts ++ Ty.optionParts returns)) :
    Acts φ (do
        let signature ← s.onParts rename f
        let returns ← Ty.onOption f returns
        return g signature returns)
      (g (s.onParts R F).run (Ty.onOption F returns).run)
      ((s.parts ++ Ty.optionParts returns).flatMap E) := by
  obtain ⟨hs, hreturns⟩ := actsOn_append.1 h
  rw [List.flatMap_append]
  exact (Signature.onParts_acts hs).bind (Ty.onOption_acts hreturns).map

/-- Acting on a member is even if acting on its parts is. -/
theorem Member.onParts_acts {m : Member Ty} (h : ActsOn φ rename f R F E m.parts) :
    Acts φ (m.onParts rename f) (m.onParts R F).run (m.parts.flatMap E) := by
  cases m with
  | property p =>
    rw [Member.parts, List.flatMap_singleton]
    exact h.type.map
  | method d => exact Signature.returns_acts h
  | call c => exact (Signature.returns_acts (s := c.signature) h).map
  | construct c => exact (Signature.returns_acts (s := c.signature) h).map
  | index i => exact (IndexSignature.onParts_acts h).map

/-- Acting on members is even if acting on their parts is. -/
theorem Member.mapM_acts {ms : List (Member Ty)}
    (h : ActsOn φ rename f R F E (ms.flatMap Member.parts)) :
    Acts φ (ms.mapM (Member.onParts rename f)) (ms.mapM (Member.onParts R F)).run
      ((ms.flatMap Member.parts).flatMap E) := by
  rw [List.flatMap_assoc]
  exact .mapM fun m hm => Member.onParts_acts (actsOn_flatMap.1 h m hm)

/-- Acting on some types one after the other. -/
theorem Ty.mapM_acts {tys : List Ty} (h : ActsOn φ rename f R F E (tys.map Part.type)) :
    Acts φ (tys.mapM f) (tys.mapM F).run ((tys.map Part.type).flatMap E) := by
  rw [List.flatMap_map]
  exact .mapM h.types

/-- Acting on a signature and then on a type, as function types do. -/
theorem Signature.result_acts {α : Type} {s : Signature Ty} {returns : Ty}
    {g : Signature Ty → Ty → α} (h : ActsOn φ rename f R F E (s.parts ++ [.type returns])) :
    Acts φ (do
        let signature ← s.onParts rename f
        return g signature (← f returns))
      (g (s.onParts R F).run (F returns).run) ((s.parts ++ [Part.type returns]).flatMap E) := by
  obtain ⟨hs, hreturns⟩ := actsOn_append.1 h
  rw [List.flatMap_append, List.flatMap_singleton]
  exact (Signature.onParts_acts hs).bind hreturns.type.map

/-- Acting evenly on the parts of a type is an even action on the type. -/
theorem Ty.onParts_acts {ty : Ty} (h : ActsOn φ rename f R F E ty.parts) :
    Acts φ (ty.onParts rename f) (ty.onParts R F).run (ty.parts.flatMap E) := by
  cases ty with
  | named | union | intersection | imported => exact (Ty.mapM_acts h).map
  | function | construct => exact Signature.result_acts h
  | object => exact (Member.mapM_acts h).map
  | array | keyOf | readonly | paren =>
    rw [Ty.parts, List.flatMap_singleton]
    exact h.type.map
  | tuple elements =>
    have helement : ∀ e ∈ elements, Acts φ (do return { e with type := ← f e.type })
        { e with type := (F e.type).run } (E (.type e.type)) :=
      fun e he => (h.types e he).map
    rw [Ty.parts, List.flatMap_map]
    exact (Acts.mapM helement).map
  | index target key =>
    obtain ⟨htarget, hkey⟩ := actsOn_cons.1 h
    rw [Ty.parts, List.flatMap_cons, List.flatMap_singleton]
    exact htarget.type.bind hkey.type.map
  | conditional check bound whenTrue whenFalse =>
    obtain ⟨hcheck, h⟩ := actsOn_cons.1 h
    obtain ⟨hbound, h⟩ := actsOn_cons.1 h
    obtain ⟨htrue, hfalse⟩ := actsOn_cons.1 h
    rw [Ty.parts, List.flatMap_cons, List.flatMap_cons, List.flatMap_cons, List.flatMap_singleton]
    exact hcheck.type.bind (hbound.type.bind (htrue.type.bind hfalse.type.map))
  | mapped key keys nameType value =>
    obtain ⟨hkeys, h⟩ := actsOn_cons.1 h
    obtain ⟨hname, hvalue⟩ := actsOn_append.1 h
    rw [Ty.parts, List.flatMap_cons, List.flatMap_append, List.flatMap_singleton]
    exact hkeys.type.bind ((Ty.onOption_acts hname).bind hvalue.type.map)
  | predicate => exact (Ty.onOption_acts h).map
  | primitive | string | number | boolean | typeOf | uniqueSymbol | infer | template | this =>
    exact .pure _

/-- Acting on a class member is even if acting on its parts is. -/
theorem ClassMember.onParts_acts {m : ClassMember} (h : ActsOn φ rename f R F E m.parts) :
    Acts φ (m.onParts rename f) (m.onParts R F).run (m.parts.flatMap E) := by
  cases m with
  | property p => exact (Ty.onOption_acts h).map
  | method d => exact Signature.returns_acts h
  | constructor c => exact (Param.mapM_acts h).map
  | index i => exact (IndexSignature.onParts_acts h).map

/-- Acting on class members is even if acting on their parts is. -/
theorem ClassMember.mapM_acts {ms : List ClassMember}
    (h : ActsOn φ rename f R F E (ms.flatMap ClassMember.parts)) :
    Acts φ (ms.mapM (ClassMember.onParts rename f)) (ms.mapM (ClassMember.onParts R F)).run
      ((ms.flatMap ClassMember.parts).flatMap E) := by
  rw [List.flatMap_assoc]
  exact .mapM fun m hm => ClassMember.onParts_acts (actsOn_flatMap.1 h m hm)

end

/-! ## Replacing the parts -/

/-- A part with its name or its type replaced. -/
def Part.map (rename : String → String) (f : Ty → Ty) : Part → Part
  | .param name => .param (rename name)
  | .type ty => .type (f ty)

section

variable (rename : String → String) (f : Ty → Ty)

@[simp] theorem Part.map_param (name : String) :
    (Part.param name).map rename f = .param (rename name) := rfl

@[simp] theorem Part.map_type (ty : Ty) : (Part.type ty).map rename f = .type (f ty) := rfl

/-- A type parameter with its parts replaced. -/
def TypeParam.mapParts (p : TypeParam Ty) : TypeParam Ty :=
  (p.onParts (m := Id) (fun name => pure (rename name)) (fun t => pure (f t))).run

/-- A signature with its parts replaced. -/
def Signature.mapParts (s : Signature Ty) : Signature Ty :=
  (s.onParts (m := Id) (fun name => pure (rename name)) (fun t => pure (f t))).run

/-- A member with its parts replaced. -/
def Member.mapParts (m : Member Ty) : Member Ty :=
  (m.onParts (m := Id) (fun name => pure (rename name)) (fun t => pure (f t))).run

/-- A type with its parts replaced. -/
def Ty.mapParts (ty : Ty) : Ty :=
  (ty.onParts (m := Id) (fun name => pure (rename name)) (fun t => pure (f t))).run

/-- A class member with its parts replaced. -/
def ClassMember.mapParts (m : ClassMember) : ClassMember :=
  (m.onParts (m := Id) (fun name => pure (rename name)) (fun t => pure (f t))).run

/-- Acting on an optional type without a state replaces the type. -/
theorem Ty.onOption_run (ty : Option Ty) :
    (Ty.onOption (m := Id) (fun t => pure (f t)) ty).run = ty.map f := by
  cases ty <;> rfl

/-- The parts of a replaced optional type are the replaced parts. -/
theorem Ty.optionParts_map (ty : Option Ty) :
    Ty.optionParts (ty.map f) = (Ty.optionParts ty).map (Part.map rename f) := by
  cases ty <;> rfl

/-- The parts of a type parameter with its parts replaced are the replaced parts. -/
theorem TypeParam.parts_mapParts (p : TypeParam Ty) :
    (p.mapParts rename f).parts = p.parts.map (Part.map rename f) := by
  simp [TypeParam.mapParts, TypeParam.onParts, TypeParam.parts, Ty.onOption_run,
    Ty.optionParts_map rename]

/-- The parts of a parameter with its type replaced are the replaced parts. -/
theorem Param.parts_onParts (p : Param Ty) :
    (p.onParts (m := Id) (fun t => pure (f t))).run.parts = p.parts.map (Part.map rename f) := by
  simp [Param.onParts, Param.parts, Ty.onOption_run, Ty.optionParts_map rename]

/-- The parts of a signature with its parts replaced are the replaced parts. -/
theorem Signature.parts_mapParts (s : Signature Ty) :
    (s.mapParts rename f).parts = s.parts.map (Part.map rename f) := by
  have htypeParams := TypeParam.parts_mapParts rename f
  simp only [TypeParam.mapParts] at htypeParams
  simp [Signature.mapParts, Signature.onParts, Signature.parts, List.flatMap_map,
    List.map_flatMap, htypeParams, Param.parts_onParts rename, Ty.onOption_run,
    Ty.optionParts_map rename]

/-- The parts of a member with its parts replaced are the replaced parts. -/
theorem Member.parts_mapParts (m : Member Ty) :
    (m.mapParts rename f).parts = m.parts.map (Part.map rename f) := by
  have hsignature := Signature.parts_mapParts rename f
  simp only [Signature.mapParts] at hsignature
  cases m <;>
    simp [Member.mapParts, Member.onParts, Member.parts, Callable.onParts, Callable.parts,
      IndexSignature.onParts, IndexSignature.parts, hsignature, Ty.onOption_run,
      Ty.optionParts_map rename]

/-- The parts of a type with its parts replaced are the replaced parts. -/
theorem Ty.parts_mapParts (ty : Ty) :
    (ty.mapParts rename f).parts = ty.parts.map (Part.map rename f) := by
  have hsignature := Signature.parts_mapParts rename f
  have hmember := Member.parts_mapParts rename f
  simp only [Signature.mapParts] at hsignature
  simp only [Member.mapParts] at hmember
  cases ty <;>
    simp [Ty.mapParts, Ty.onParts, Ty.parts, List.flatMap_map, List.map_flatMap,
      Function.comp_def, hsignature, hmember, Ty.onOption_run, Ty.optionParts_map rename]

/-- The parts of a class member with its parts replaced are the replaced parts. -/
theorem ClassMember.parts_mapParts (m : ClassMember) :
    (m.mapParts rename f).parts = m.parts.map (Part.map rename f) := by
  have hsignature := Signature.parts_mapParts rename f
  simp only [Signature.mapParts] at hsignature
  cases m <;>
    simp [ClassMember.mapParts, ClassMember.onParts, ClassMember.parts, List.flatMap_map,
      List.map_flatMap, IndexSignature.onParts, IndexSignature.parts, hsignature,
      Param.parts_onParts rename, Ty.onOption_run, Ty.optionParts_map rename]

end

/-! ## Replacing the parts alike -/

section

variable {rename : String → String} {f g : Ty → Ty}

/-- An action that is even in two ways has one answer. -/
theorem Acts.unique {α : Type} {φ : Unit → Unit → Unit} {x : StateM Unit α} {a b : α}
    {es es' : List Unit} (h : Acts φ x a es) (h' : Acts φ x b es') : a = b :=
  congrArg Prod.fst ((h ()).symm.trans (h' ()))

/-- Replacing parts by `f` is an even action with the answers of `g`, where the two agree on the
parts. -/
theorem actsOn_of_eq {parts : List Part} (h : ∀ t, .type t ∈ parts → f t = g t) :
    ActsOn (fun (s : Unit) (_ : Unit) => s) (fun name => pure (rename name)) (fun t => pure (f t))
      (fun name => pure (rename name)) (fun t => pure (g t)) (fun _ => []) parts := by
  intro part hpart
  cases part with
  | param name => exact .pure _
  | type t =>
    show Acts _ (pure (f t)) (g t) []
    rw [h t hpart]
    exact .pure _

/-- Replacing the parts of a type parameter only looks at its parts. -/
theorem TypeParam.mapParts_congr {p : TypeParam Ty} (h : ∀ t, .type t ∈ p.parts → f t = g t) :
    p.mapParts rename f = p.mapParts rename g :=
  (onParts_acts (actsOn_of_eq fun _ _ => rfl)).unique (onParts_acts (actsOn_of_eq h))

/-- Replacing the parts of a signature only looks at its parts. -/
theorem Signature.mapParts_congr {s : Signature Ty} (h : ∀ t, .type t ∈ s.parts → f t = g t) :
    s.mapParts rename f = s.mapParts rename g :=
  (onParts_acts (actsOn_of_eq fun _ _ => rfl)).unique (onParts_acts (actsOn_of_eq h))

/-- Replacing the parts of a member only looks at its parts. -/
theorem Member.mapParts_congr {m : Member Ty} (h : ∀ t, .type t ∈ m.parts → f t = g t) :
    m.mapParts rename f = m.mapParts rename g :=
  (onParts_acts (actsOn_of_eq fun _ _ => rfl)).unique (onParts_acts (actsOn_of_eq h))

/-- Replacing the parts of a type only looks at its parts. -/
theorem Ty.mapParts_congr {ty : Ty} (h : ∀ t, .type t ∈ ty.parts → f t = g t) :
    ty.mapParts rename f = ty.mapParts rename g :=
  (onParts_acts (actsOn_of_eq fun _ _ => rfl)).unique (onParts_acts (actsOn_of_eq h))

/-- Replacing the parts of a class member only looks at its parts. -/
theorem ClassMember.mapParts_congr {m : ClassMember} (h : ∀ t, .type t ∈ m.parts → f t = g t) :
    m.mapParts rename f = m.mapParts rename g :=
  (onParts_acts (actsOn_of_eq fun _ _ => rfl)).unique (onParts_acts (actsOn_of_eq h))

end

end DeclLayer
