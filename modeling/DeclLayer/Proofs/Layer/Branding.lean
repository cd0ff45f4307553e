import DeclLayer.Layer.Brand
import Mathlib.Data.List.Basic

/-!
# Branding a namespace

A brand is injected or it is not, and what decides is stated of the namespace: whether it has an
interface of the brand's name (`Namespace.HasInterface`), and whether some interface of this name
has a property or method of the name of the brand's property (`Namespace.HasMember`).
`Brand.injectInPlace_cases` lists the four outcomes, three of which leave the namespace as it was.
In the one that succeeds it gets one member (`Namespace.Extends`), so from then on it has the
member, whatever else is injected (`Namespace.HasMember.extends`), and an injection of the same
property fails. `Brand.attempts_exact` says this of brands that are injected one after another.
-/

namespace DeclLayer

/-! ## Members of merged interfaces -/

namespace Namespace

/-- An interface of the name is directly inside the namespace. -/
def HasInterface (ns : Namespace) (name : String) : Prop :=
  ∃ d, .interface d ∈ ns.items ∧ d.name = name

/-- Some interface of the name, directly inside the namespace, has a property or method of the name
`member`. -/
def HasMember (ns : Namespace) (name member : String) : Prop :=
  ∃ d, .interface d ∈ ns.items ∧ d.name = name ∧ ∃ m ∈ d.members, m.name? = some member

/-- A namespace with a member of an interface has the interface. -/
theorem HasMember.hasInterface {ns : Namespace} {name member : String}
    (h : ns.HasMember name member) : ns.HasInterface name :=
  h.imp fun _ ⟨hd, hname, _⟩ => ⟨hd, hname⟩

/-- A namespace gets one member more, behind those of its first interface of the name. -/
inductive Extends (name : String) (m : Member Ty) : Namespace → Namespace → Prop
  | first {docs : Docs} {modifiers : Modifiers} {own : String} {before after : List Item}
    {d : InterfaceDecl} (hd : d.name = name)
    (hbefore : ∀ other, .interface other ∈ before → other.name ≠ name) :
    Extends name m ⟨docs, modifiers, own, before ++ .interface d :: after⟩
      ⟨docs, modifiers, own,
        before ++ .interface { d with members := d.members ++ [m] } :: after⟩

variable {ns ns' : Namespace} {name other member : String} {m : Member Ty}

/-- The new member is there. -/
theorem Extends.hasMember (h : Extends name m ns ns') (hm : m.name? = some member) :
    ns'.HasMember name member := by
  cases h with
  | first hd hbefore =>
    exact ⟨_, List.mem_append_right _ List.mem_cons_self, hd, m,
      List.mem_append_right _ List.mem_cons_self, hm⟩

/-- The members that were there stay. -/
theorem HasMember.extends (hmember : ns.HasMember other member) (h : Extends name m ns ns') :
    ns'.HasMember other member := by
  cases h with
  | first hd hbefore =>
    obtain ⟨e, he, hname, x, hx, hxname⟩ := hmember
    rcases List.mem_append.1 he with he | he
    · exact ⟨e, List.mem_append_left _ he, hname, x, hx, hxname⟩
    · rcases List.mem_cons.1 he with he | he
      · cases he
        exact ⟨_, List.mem_append_right _ List.mem_cons_self, hname, x,
          List.mem_append_left _ hx, hxname⟩
      · exact ⟨e, List.mem_append_right _ (List.mem_cons_of_mem _ he), hname, x, hx, hxname⟩

end Namespace

/-! ## One brand -/

namespace Brand

/-- The property of a brand whose type was read. -/
def stamp (b : Brand) (ty : Ty) : Member Ty :=
  .property
    { docs := if b.docs.isEmpty then [] else [Text.joinWith "\n" b.docs]
      name := b.property
      type := ty
      optional := false
      readonly := false }

variable {b : Brand} {ns : Namespace}

/-- The member that a brand adds, or the error if its type cannot be read. -/
theorem member_eq : b.member =
    match Ty.parse b.type with
    | .error e => .error (.invalidBrandType b.type e)
    | .ok ty => .ok (b.stamp ty) := rfl

/-- What a brand goes to is an interface of its name. -/
theorem target?_eq_some {item : Item} {members : List (Member Ty)} :
    b.target? item = some members ↔
      ∃ d, item = .interface d ∧ d.name = b.interface ∧ d.members = members := by
  cases item <;> simp [target?]

/-- The targets of a brand are the members of the interfaces with its name. -/
theorem mem_targets {items : List Item} {members : List (Member Ty)} :
    members ∈ items.filterMap b.target? ↔
      ∃ d, .interface d ∈ items ∧ d.name = b.interface ∧ d.members = members := by
  simp only [List.mem_filterMap, target?_eq_some]
  exact ⟨fun ⟨_, hitem, d, h, hd⟩ => ⟨d, h ▸ hitem, hd⟩,
    fun ⟨d, hitem, hd⟩ => ⟨_, hitem, d, rfl, hd⟩⟩

/-- A brand has no target if there is no interface of its name. -/
theorem targets_eq_nil : ns.items.filterMap b.target? = [] ↔ ¬ns.HasInterface b.interface := by
  rw [List.eq_nil_iff_forall_not_mem]
  simp only [mem_targets, not_exists, not_and, Namespace.HasInterface]
  exact ⟨fun h d hd hname => h _ d hd hname rfl, fun h members d hd hname _ => h d hd hname⟩

/-- Some target has the property already if an interface of the name has such a member. -/
theorem any_targets : (ns.items.filterMap b.target?).any (fun members =>
      members.any fun m => m.name? == some b.property) = true ↔
    ns.HasMember b.interface b.property := by
  simp only [List.any_eq_true, mem_targets, beq_iff_eq, Namespace.HasMember]
  constructor
  · rintro ⟨_, ⟨d, hd, hname, rfl⟩, hmember⟩
    exact ⟨d, hd, hname, hmember⟩
  · rintro ⟨d, hd, hname, hmember⟩
    exact ⟨_, ⟨d, hd, hname, rfl⟩, hmember⟩

/-- A statement that is no target stays in front. -/
theorem append_other {m : Member Ty} {item : Item} {items : List Item}
    (h : b.target? item = none) : b.append m (item :: items) = item :: b.append m items := by
  cases item with
  | interface d =>
    have hname : d.name ≠ b.interface := fun hname => by simp [target?, hname] at h
    exact if_neg hname
  | _ => rfl

/-- A member is appended to the first interface of the name. -/
theorem append_eq {m : Member Ty} {items : List Item}
    (h : ∃ d, .interface d ∈ items ∧ d.name = b.interface) :
    ∃ before d after, items = before ++ .interface d :: after ∧ d.name = b.interface ∧
      (∀ other, .interface other ∈ before → other.name ≠ b.interface) ∧
      b.append m items =
        before ++ .interface { d with members := d.members ++ [m] } :: after := by
  induction items with
  | nil =>
    obtain ⟨d, hd, -⟩ := h
    cases hd
  | cons item items ih =>
    cases htarget : b.target? item with
    | some members =>
      obtain ⟨d, rfl, hname, -⟩ := target?_eq_some.1 htarget
      exact ⟨[], d, items, rfl, hname, nofun, if_pos hname⟩
    | none =>
      have hother (d : InterfaceDecl) (hd : .interface d = item) : d.name ≠ b.interface := by
        rintro hname
        rw [← hd, target?, if_pos hname] at htarget
        cases htarget
      obtain ⟨d, hd, hname⟩ := h
      have hrest : .interface d ∈ items :=
        (List.mem_cons.1 hd).resolve_left fun hd => hother d hd hname
      obtain ⟨before, first, after, rfl, hfirst, hbefore, happend⟩ := ih ⟨d, hrest, hname⟩
      refine ⟨item :: before, first, after, rfl, hfirst, fun other h => ?_, ?_⟩
      · exact (List.mem_cons.1 h).elim (hother other) (hbefore other)
      · rw [append_other htarget, happend, List.cons_append]

/-- If there is an interface of the name, the first one gets the member, behind its own. -/
theorem extends_append {m : Member Ty} (h : ns.HasInterface b.interface) :
    Namespace.Extends b.interface m ns { ns with items := b.append m ns.items } := by
  obtain ⟨docs, modifiers, own, items⟩ := ns
  obtain ⟨before, d, after, rfl, hd, hbefore, happend⟩ := append_eq (m := m) h
  dsimp only
  rw [happend]
  exact .first hd hbefore

/-- The outcomes of an injection, each with the namespace after it: the type cannot be read, there
is no such interface, the property is there already, or it is appended. -/
theorem injectInPlace_cases (b : Brand) (ns : Namespace) :
    (∃ e, Ty.parse b.type = .error e ∧
      b.injectInPlace.run.run ns = (.error (.invalidBrandType b.type e), ns)) ∨
    ∃ ty, Ty.parse b.type = .ok ty ∧
      (¬ns.HasInterface b.interface ∧
          b.injectInPlace.run.run ns = (.error (.missingBrandTarget b.interface), ns) ∨
        ns.HasInterface b.interface ∧ ns.HasMember b.interface b.property ∧
          b.injectInPlace.run.run ns = (.error (.duplicateBrand b.interface b.property), ns) ∨
        ns.HasInterface b.interface ∧ ¬ns.HasMember b.interface b.property ∧
          ∃ ns', b.injectInPlace.run.run ns = (.ok (), ns') ∧
            Namespace.Extends b.interface (b.stamp ty) ns ns') := by
  have hget : (get : ExceptT LayerError (StateM Namespace) Namespace).run.run ns =
      pure (.ok ns, ns) := rfl
  rw [injectInPlace, member_eq]
  cases Ty.parse b.type with
  | error e => exact .inl ⟨e, rfl, rfl⟩
  | ok ty =>
    refine .inr ⟨ty, rfl, ?_⟩
    simp only [MonadExcept.ofExcept, pure_bind, ExceptT.run_bind, StateT.run_bind, hget]
    split
    · next hnone => exact .inl ⟨targets_eq_nil.1 hnone, rfl⟩
    · next hsome =>
      have hinterface : ns.HasInterface b.interface :=
        not_not.1 fun h => hsome (targets_eq_nil.2 h)
      split
      · next hany => exact .inr (.inl ⟨hinterface, any_targets.1 hany, rfl⟩)
      · next hany =>
        exact .inr (.inr ⟨hinterface, fun h => hany (any_targets.2 h), _, rfl,
          extends_append hinterface⟩)

/-! ## Brands one after another -/

/-- An attempt to inject a brand, with the namespace before it and after it. -/
structure Attempt where
  brand : Brand
  before : Namespace
  result : Except LayerError Unit
  after : Namespace

/-- The attempt to inject a brand. -/
def attempt (b : Brand) (ns : Namespace) : Attempt :=
  let (result, after) := b.injectInPlace.run.run ns
  ⟨b, ns, result, after⟩

/-- The attempts to inject brands, one after another. -/
def attempts : List Brand → Namespace → List Attempt
  | [], _ => []
  | b :: brands, ns => b.attempt ns :: attempts brands (b.attempt ns).after

namespace Attempt

/-- An attempt succeeds and appends the property to the first interface of the brand's name, or it
fails and changes nothing. Which of these it is, and with which error, can be told from the brand
and the namespace before it. -/
structure Exact (a : Attempt) : Prop where
  outcome :
    (a.result = .ok () ∧ ∃ ty, Ty.parse a.brand.type = .ok ty ∧
      Namespace.Extends a.brand.interface (a.brand.stamp ty) a.before a.after) ∨
    (∃ e, a.result = .error e) ∧ a.after = a.before
  ok_iff : a.result = .ok () ↔ (∃ ty, Ty.parse a.brand.type = .ok ty) ∧
    a.before.HasInterface a.brand.interface ∧
    ¬a.before.HasMember a.brand.interface a.brand.property
  error_iff (e : LayerError) : a.result = .error e ↔
    (∃ reason, Ty.parse a.brand.type = .error reason ∧
      e = .invalidBrandType a.brand.type reason) ∨
    (∃ ty, Ty.parse a.brand.type = .ok ty) ∧
      (¬a.before.HasInterface a.brand.interface ∧ e = .missingBrandTarget a.brand.interface ∨
        a.before.HasMember a.brand.interface a.brand.property ∧
          e = .duplicateBrand a.brand.interface a.brand.property)

/-- An attempt of one property succeeded. -/
def Adds (interface property : String) (a : Attempt) : Bool :=
  a.result.isOk && a.brand.interface = interface && a.brand.property = property

/-- When an attempt counts as adding a property. -/
theorem adds_iff {a : Attempt} {interface property : String} :
    a.Adds interface property = true ↔
      a.result = .ok () ∧ a.brand.interface = interface ∧ a.brand.property = property := by
  obtain ⟨brand, before, ⟨e⟩ | ⟨⟩, after⟩ := a <;> simp [Adds, Except.isOk, Except.toBool]

end Attempt

/-- An attempt keeps the namespace before and after it with the result. -/
theorem attempt_eq {result : Except LayerError Unit} {ns' : Namespace}
    (h : b.injectInPlace.run.run ns = (result, ns')) : b.attempt ns = ⟨b, ns, result, ns'⟩ := by
  rw [attempt, h]

/-- Every single attempt is exact. -/
theorem exact_attempt (b : Brand) (ns : Namespace) : (b.attempt ns).Exact := by
  rcases b.injectInPlace_cases ns with ⟨reason, hparse, hrun⟩ | ⟨ty, hparse, ⟨hnone, hrun⟩ |
    ⟨hsome, hmember, hrun⟩ | ⟨hsome, hmember, ns', hrun, hextends⟩⟩
  · rw [attempt_eq hrun]
    exact ⟨.inr ⟨⟨_, rfl⟩, rfl⟩, by simp [hparse], by simp [hparse, eq_comm]⟩
  · have hmember : ¬ns.HasMember b.interface b.property := fun h => hnone h.hasInterface
    rw [attempt_eq hrun]
    exact ⟨.inr ⟨⟨_, rfl⟩, rfl⟩, by simp [hnone], by simp [hparse, hnone, hmember, eq_comm]⟩
  · rw [attempt_eq hrun]
    exact ⟨.inr ⟨⟨_, rfl⟩, rfl⟩, by simp [hmember], by simp [hparse, hsome, hmember, eq_comm]⟩
  · rw [attempt_eq hrun]
    exact ⟨.inl ⟨rfl, ty, hparse, hextends⟩, by simp [hparse, hsome, hmember],
      by simp [hparse, hsome, hmember]⟩

/-- What an attempt adds is there after it. -/
theorem hasMember_of_adds {interface property : String}
    (h : (b.attempt ns).Adds interface property = true) :
    (b.attempt ns).after.HasMember interface property := by
  obtain ⟨hok, rfl, rfl⟩ := Attempt.adds_iff.1 h
  rcases (exact_attempt b ns).outcome with ⟨-, ty, -, hextends⟩ | ⟨⟨e, he⟩, -⟩
  · exact hextends.hasMember rfl
  · cases he.symm.trans hok

/-- What is there stays there. -/
theorem hasMember_after {interface property : String} (h : ns.HasMember interface property) :
    (b.attempt ns).after.HasMember interface property := by
  rcases (exact_attempt b ns).outcome with ⟨-, ty, -, hextends⟩ | ⟨-, hafter⟩
  · exact h.extends hextends
  · rw [hafter]
    exact h

/-- What is there is not added. -/
theorem adds_eq_false {interface property : String} (h : ns.HasMember interface property) :
    (b.attempt ns).Adds interface property = false := by
  refine Bool.eq_false_iff.2 fun hadds => ?_
  obtain ⟨hok, rfl, rfl⟩ := Attempt.adds_iff.1 hadds
  exact ((exact_attempt b ns).ok_iff.1 hok).2.2 h

/-- What is there is added by no brand of a sequence. -/
theorem countP_adds_eq_zero {interface property : String} {brands : List Brand}
    (h : ns.HasMember interface property) :
    (attempts brands ns).countP (Attempt.Adds interface property) = 0 := by
  induction brands generalizing ns with
  | nil => rfl
  | cons b brands ih =>
    rw [attempts, List.countP_cons, ih (hasMember_after h), adds_eq_false h]
    rfl

/-- Every attempt of a sequence is exact, whatever the attempts before it did. -/
theorem exact_of_mem_attempts {a : Attempt} {brands : List Brand} (h : a ∈ attempts brands ns) :
    a.Exact := by
  induction brands generalizing ns with
  | nil => cases h
  | cons b brands ih =>
    rcases List.mem_cons.1 h with rfl | h
    · exact exact_attempt b ns
    · exact ih h

/-- Of the brands of a sequence, one at most adds a property to the interfaces of a name. -/
theorem countP_adds_le_one (interface property : String) (brands : List Brand) (ns : Namespace) :
    (attempts brands ns).countP (Attempt.Adds interface property) ≤ 1 := by
  induction brands generalizing ns with
  | nil => exact Nat.zero_le 1
  | cons b brands ih =>
    rw [attempts, List.countP_cons]
    cases hadds : (b.attempt ns).Adds interface property with
    | false => exact ih (b.attempt ns).after
    | true =>
      rw [countP_adds_eq_zero (hasMember_of_adds hadds)]
      exact Nat.le_refl 1

/-- Of brands that are injected one after another, each one is added, as the last member of the
first interface of its name, or fails and changes nothing. It is added exactly if its type can be
read, there is such an interface, and no interface of this name has a property or method of its
name. So of all the brands that give the interfaces of a name the same property, one is added at
most. -/
theorem attempts_exact (brands : List Brand) (ns : Namespace) :
    (∀ a ∈ attempts brands ns, a.Exact) ∧
      ∀ interface property,
        (attempts brands ns).countP (Attempt.Adds interface property) ≤ 1 :=
  ⟨fun _ h => exact_of_mem_attempts h, fun interface property =>
    countP_adds_le_one interface property brands ns⟩

/-- A namespace with an interface in two declarations, the second of which has a method `mark`. -/
def markedNodes : Namespace :=
  ⟨[], .exportedOnly, "ts",
    [.interface ⟨[], .plain, "Node", [], [], []⟩, .interface ⟨[], .plain, "Token", [], [], []⟩,
      .interface ⟨[], .plain, "Node", [], [],
        [.method ⟨[], "mark", .method, ⟨[], none, []⟩, none, false⟩]⟩]⟩

/-- Brands for the interface `Node` and others. -/
def nodeBrands : List Brand :=
  [⟨"Node", "brand", "never", []⟩, ⟨"Node", "brand", "string", []⟩, ⟨"Node", "mark", "never", []⟩,
    ⟨"Item", "brand", "never", []⟩, ⟨"Token", "brand", "{ x: }", []⟩]

/-- The first brand is added and the others fail, for the four reasons that there are: the property
is there by an earlier brand, it is there as a method of the other declaration, there is no such
interface, and the type cannot be read. -/
theorem attempts_exact_marked :
    (attempts nodeBrands markedNodes).map Attempt.result =
        [.ok (), .error (.duplicateBrand "Node" "brand"), .error (.duplicateBrand "Node" "mark"),
          .error (.missingBrandTarget "Item"),
          .error (.invalidBrandType "{ x: }" ⟨.unexpectedInType (.punct .rbrace), 5⟩)] ∧
      (∀ a ∈ attempts nodeBrands markedNodes, a.Exact) ∧
      (attempts nodeBrands markedNodes).countP (Attempt.Adds "Node" "brand") ≤ 1 := by
  obtain ⟨hexact, hcount⟩ := attempts_exact nodeBrands markedNodes
  exact ⟨by decide +kernel, hexact, hcount "Node" "brand"⟩

end Brand

end DeclLayer
