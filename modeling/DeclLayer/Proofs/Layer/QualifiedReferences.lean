import Mathlib.Data.List.Forall2
import DeclLayer.Layer.Separation
import DeclLayer.Proofs.Layer.Qualifying
import DeclLayer.Proofs.Layer.Scoping

/-!
# References behind rules

The rules of a policy change references of the separated interfaces and nothing that binds a name.
Each reference is kept, or it was listed by a rule of its interface and now begins with the name of
the namespace (`Rule.Requalifies`). The nodes of an interface before and after the rules correspond
one by one in that way (`Node.Alike`), so if the namespace's own name is declared nowhere in it, the
rules make no reference unresolved, and resolve only references that they list
(`findUnresolved_requalified`).
-/

namespace DeclLayer

/-! ## The first word of a qualified name -/

/-- Qualifying a name puts the first word of the namespace in front. -/
theorem headWord_qualified (namespaceName name : String) :
    headWord (qualified namespaceName name) = headWord namespaceName := by
  have hdot (front : List Char) : (front ++ '.' :: name.toList).takeWhile (· != '.') =
      front.takeWhile (· != '.') := by
    induction front with
    | nil => rfl
    | cons c front ih => rw [List.cons_append, List.takeWhile_cons, List.takeWhile_cons, ih]
  have htext : (qualified namespaceName name).toList =
      namespaceName.toList ++ '.' :: name.toList := by
    simp [qualified]
  rw [headWord, headWord, htext, hdot]

namespace Rule

/-- What the rules may make of a reference in an interface: it is kept, or some rule of the
interface lists it and it begins with the name of the namespace. -/
def Requalifies (namespaceName : String) (rules : List Rule) (interface old new : String) : Prop :=
  new = old ∨ headWord new = headWord namespaceName ∧
    ∃ rule ∈ rules, rule.interface = interface ∧ old ∈ rule.names

variable {namespaceName : String} {rule : Rule} {rules : List Rule} {interface old new n : String}

/-- What some rules may make of a reference, one rule more may make too. -/
theorem Requalifies.cons (h : Requalifies namespaceName rules interface old new) :
    Requalifies namespaceName (rule :: rules) interface old new :=
  h.imp_right fun ⟨hhead, other, hother, hlists⟩ =>
    ⟨hhead, other, List.mem_cons_of_mem _ hother, hlists⟩

/-- The rules in order, on one name. A name that one rule wrote begins with the name of the
namespace, also where a later rule qualifies it again. -/
theorem requalifies_follow {site : Site} :
    Requalifies namespaceName rules interface n (follow namespaceName rules interface site n) := by
  induction rules generalizing n with
  | nil => exact .inl rfl
  | cons rule rules ih =>
    rw [follow]
    split
    · next hn =>
      obtain ⟨⟨hinterface, -⟩, hn⟩ := hn
      have hlists : ∃ other ∈ rule :: rules, other.interface = interface ∧ n ∈ other.names :=
        ⟨rule, List.mem_cons_self, hinterface.symm, hn⟩
      refine .inr ⟨?_, hlists⟩
      rcases ih (n := qualified namespaceName n) with hkept | ⟨hhead, -⟩
      · rw [hkept, headWord_qualified]
      · exact hhead
    · exact ih.cons

end Rule

/-! ## Nodes that correspond -/

/-- Two nodes bind the same name, and refer to names that `R` relates, if to any. -/
structure Node.Alike (R : String → String → Prop) (old new : Node) : Prop where
  bound : old.bound? = new.bound?
  reference : Option.Rel R old.reference? new.reference?

section

variable {R : String → String → Prop} {f : String → String}

/-- Nodes are like themselves if every name is related to itself. -/
theorem Node.alike_self (hrefl : ∀ n, R n n) (nodes : List Node) :
    List.Forall₂ (Node.Alike R) nodes nodes :=
  List.forall₂_same.2 fun node _ => ⟨rfl, by
    cases node.reference? with
    | none => exact .none
    | some n => exact .some (hrefl n)⟩

/-- Corresponding nodes bind the same names. -/
theorem Node.bound_of_alike {old new : List Node} (h : List.Forall₂ (Node.Alike R) old new) :
    new.filterMap Node.bound? = old.filterMap Node.bound? := by
  induction h with
  | nil => rfl
  | cons hnode _ ih => rw [List.filterMap_cons, List.filterMap_cons, ih, hnode.bound]

/-- The references of corresponding nodes correspond. -/
theorem Node.references_of_alike {old new : List Node} (h : List.Forall₂ (Node.Alike R) old new) :
    List.Forall₂ R (old.filterMap Node.reference?) (new.filterMap Node.reference?) :=
  List.rel_filterMap (fun _ _ hnode => hnode.reference) h

/-- A reference with a related name is like the one before. -/
theorem Ty.alike_rename (hrefl : ∀ n, R n n) (hf : ∀ n, R n (f n)) (ty : Ty) :
    List.Forall₂ (Node.Alike R) ty.nodes (ty.rename f).nodes := by
  cases ty with
  | named name args => exact .cons ⟨rfl, .some (hf name)⟩ (Node.alike_self hrefl _)
  | _ => exact Node.alike_self hrefl _

/-- A type with related names at its site is like the one before. -/
theorem Ty.alike_renameSite (hrefl : ∀ n, R n n) (hf : ∀ n, R n (f n)) (ty : Ty) :
    List.Forall₂ (Node.Alike R) ty.nodes (ty.renameSite f).nodes := by
  cases ty with
  | union types =>
    refine .cons ⟨rfl, .none⟩ ?_
    induction types with
    | nil => exact .nil
    | cons ty types ih => exact List.rel_append (Ty.alike_rename hrefl hf ty) ih
  | named name args => exact Ty.alike_rename hrefl hf (.named name args)
  | _ => exact Node.alike_self hrefl _

/-- A member with related names at its site is like the one before. -/
theorem Member.alike_rename (hrefl : ∀ n, R n n) (hf : ∀ n, R n (f n)) (m : Member Ty) :
    List.Forall₂ (Node.Alike R) (m.parts.flatMap Part.nodes)
      ((m.rename f).parts.flatMap Part.nodes) := by
  cases m with
  | property p =>
    simpa [parts, rename] using Ty.alike_renameSite hrefl hf p.type
  | index i =>
    simpa [parts, rename, IndexSignature.parts] using
      List.rel_append (Node.alike_self hrefl _) (Ty.alike_renameSite hrefl hf i.value)
  | _ => exact Node.alike_self hrefl _

/-- Members with related names at their sites are like the ones before. -/
theorem Member.alike_renameSites {f : Site → String → String} (hrefl : ∀ n, R n n)
    (hf : ∀ site n, R n (f site n)) (keys : List SiteKey) (ms : List (Member Ty)) :
    List.Forall₂ (Node.Alike R) (Ty.nodesMembers ms) (Ty.nodesMembers (renameSites f keys ms)) := by
  rw [Ty.nodesMembers_eq, Ty.nodesMembers_eq]
  induction ms generalizing keys with
  | nil => exact .nil
  | cons m ms ih =>
    have hm : ∀ n, R n ((m.key?.bind (SiteKey.site? keys)).elim id f n) := by
      cases m.key?.bind (SiteKey.site? keys) with
      | none => exact hrefl
      | some site => exact hf site
    rw [renameSites_cons, List.flatMap_cons, List.flatMap_cons, List.flatMap_append,
      List.flatMap_append]
    exact List.rel_append (Member.alike_rename hrefl hm m) (ih _)

end

/-! ## Statements that correspond -/

/-- A statement of the same name, with what the rules may make of its references. -/
structure Item.Requalified (namespaceName : String) (rules : List Rule) (old new : Item) :
    Prop where
  name : new.name? = old.name?
  nodes : ∀ d, old.name? = some d →
    List.Forall₂ (Node.Alike (Rule.Requalifies namespaceName rules d)) old.nodes new.nodes

section

variable {namespaceName : String} {rules : List Rule}

/-- Statements that no rule touches correspond to themselves. -/
theorem Item.requalified_self (items : List Item) :
    List.Forall₂ (Item.Requalified namespaceName rules) items items :=
  List.forall₂_same.2 fun _ _ => ⟨rfl, fun _ _ => Node.alike_self (fun _ => .inl rfl) _⟩

/-- Interfaces correspond to what the rules make of them. -/
theorem InterfaceDecl.requalified_follow (interfaces : List InterfaceDecl)
    (before : String → List SiteKey) :
    List.Forall₂ (Item.Requalified namespaceName rules) (interfaces.map .interface)
      ((renameSites (Rule.follow namespaceName rules) interfaces before).map .interface) := by
  induction interfaces generalizing before with
  | nil => exact .nil
  | cons d ds ih =>
    refine .cons ⟨rfl, ?_⟩ (ih _)
    rintro _ ⟨rfl⟩
    have hmembers := Member.alike_renameSites
      (f := Rule.follow namespaceName rules d.name)
      (R := Rule.Requalifies namespaceName rules d.name) (fun _ => .inl rfl)
      (fun _ _ => Rule.requalifies_follow) (before d.name) d.members
    rw [Item.nodes, Item.nodes]
    exact .cons ⟨rfl, .none⟩ (List.rel_append (Node.alike_self (fun _ => .inl rfl) _) hmembers)

/-- Separated declarations correspond to what the rules make of them. -/
theorem Separation.requalified {s : Separation} {interfaces : List InterfaceDecl} {count : Nat}
    (h : Rule.applyAll namespaceName rules s.interfaces = (interfaces, .ok count)) :
    List.Forall₂ (Item.Requalified namespaceName rules) s.items
      { s with interfaces := interfaces }.items := by
  have hsites := Rule.hasSite_of_applyAll (congrArg Prod.snd h)
  obtain ⟨rfl, -⟩ := Prod.mk.inj (h.symm.trans (Rule.applyAll_eq hsites))
  exact List.rel_append
    (List.rel_append (Item.requalified_self _) (InterfaceDecl.requalified_follow _ _))
    (Item.requalified_self _)

/-! ## What stays unresolved -/

/-- What is reported of the statements at module scope, statement by statement. -/
theorem mem_findUnresolved {index : Index} {p : Policy} {outer : List Item} {d r : String} :
    ⟨d, r⟩ ∈ findUnresolved index p outer ↔ ∃ item ∈ outer, item.name? = some d ∧
      r ∈ item.references ∧ isUnresolved index p item.boundNames r = true := by
  rw [findUnresolved, List.mem_flatMap]
  simp only [Item.mem_unresolved]

/-- Something that one list holds has a partner in the other. -/
theorem exists_of_mem_left {α : Type} {R : α → α → Prop} {as bs : List α}
    (h : List.Forall₂ R as bs) {a : α} (ha : a ∈ as) : ∃ b ∈ bs, R a b := by
  induction h with
  | nil => cases ha
  | cons hab _ ih =>
    rcases List.mem_cons.1 ha with rfl | ha
    · exact ⟨_, List.mem_cons_self, hab⟩
    · obtain ⟨b, hb, hab⟩ := ih ha
      exact ⟨b, List.mem_cons_of_mem _ hb, hab⟩

end

/-- The rules make no reference unresolved, and resolve references that they list only. -/
theorem findUnresolved_requalified (index : Index) (p : Policy) (namespaceName : String)
    (s : Separation) (interfaces : List InterfaceDecl) (count : Nat)
    (hfresh : index.contains (headWord namespaceName) = false)
    (hrun : Rule.applyAll namespaceName p.rules s.interfaces = (interfaces, .ok count)) :
    findUnresolved index p { s with interfaces := interfaces }.items ⊆
        findUnresolved index p s.items ∧
      ∀ d r, ⟨d, r⟩ ∈ findUnresolved index p s.items →
        ⟨d, r⟩ ∉ findUnresolved index p { s with interfaces := interfaces }.items →
        ∃ rule ∈ p.rules, rule.interface = d ∧ r ∈ rule.names := by
  have hitems := Separation.requalified hrun
  constructor
  · rintro ⟨d, r⟩ hnew
    obtain ⟨new, hmem, hname, href, hunresolved⟩ := mem_findUnresolved.1 hnew
    obtain ⟨old, hold, hrel⟩ := exists_of_mem_left hitems.flip hmem
    have hname := hrel.name.symm.trans hname
    have hnodes := hrel.nodes d hname
    have hreferences := Node.references_of_alike hnodes
    obtain ⟨n, hn, hkept | ⟨hhead, -⟩⟩ := exists_of_mem_left hreferences.flip href
    · subst hkept
      rw [Item.boundNames, Node.bound_of_alike hnodes] at hunresolved
      exact mem_findUnresolved.2 ⟨old, hold, hname, hn, hunresolved⟩
    · -- what a rule wrote begins with a name that is declared nowhere
      rw [isUnresolved, hhead, hfresh, Bool.and_false] at hunresolved
      cases hunresolved
  · intro d r hold hgone
    obtain ⟨old, hmem, hname, href, hunresolved⟩ := mem_findUnresolved.1 hold
    obtain ⟨new, hnew, hrel⟩ := exists_of_mem_left hitems hmem
    have hnodes := hrel.nodes d hname
    have hreferences := Node.references_of_alike hnodes
    obtain ⟨n, hn, hkept | ⟨-, hlists⟩⟩ := exists_of_mem_left hreferences href
    · subst hkept
      rw [Item.boundNames, ← Node.bound_of_alike hnodes] at hunresolved
      exact absurd (mem_findUnresolved.2 ⟨new, hnew, hrel.name.trans hname, hn, hunresolved⟩) hgone
    · exact hlists

/-- The index of a namespace that declares `Source` and `Json`. -/
def sourceIndex : Index :=
  .ofItems
    [.interface ⟨[], .plain, "Source", [], [], []⟩, .interface ⟨[], .plain, "Json", [], [], []⟩]

/-- `Options` and `Lists` move to module scope. -/
def optionPolicy : Policy :=
  { Policy.empty with interfaces := ["Options", "Lists"], rules := optionRules }

/-- What is reported of two interfaces that moved to module scope. -/
def optionReport (interfaces : List InterfaceDecl) : List UnresolvedReference :=
  findUnresolved sourceIndex optionPolicy (Separation.items ⟨[], interfaces, []⟩)

/-- Both names are listed, and both are qualified. `Source` also stands at a site of no rule and is
still reported; `Json` is not. -/
theorem findUnresolved_splitOptions :
    sourceIndex.contains (headWord "ts") = false ∧
      Rule.applyAll "ts" optionPolicy.rules (splitOptions "Source" "Json") =
        (splitOptions "ts.Source" "ts.Json", .ok 2) ∧
      optionReport (splitOptions "ts.Source" "ts.Json") ⊆
        optionReport (splitOptions "Source" "Json") ∧
      ⟨"Options", "Source"⟩ ∈ optionReport (splitOptions "ts.Source" "ts.Json") ∧
      ⟨"Options", "Json"⟩ ∈ optionReport (splitOptions "Source" "Json") ∧
      ⟨"Options", "Json"⟩ ∉ optionReport (splitOptions "ts.Source" "ts.Json") ∧
      ∃ rule ∈ optionPolicy.rules, rule.interface = "Options" ∧ "Json" ∈ rule.names := by
  have hfresh : sourceIndex.contains (headWord "ts") = false := by decide
  have hrun : Rule.applyAll "ts" optionPolicy.rules (splitOptions "Source" "Json") =
      (splitOptions "ts.Source" "ts.Json", .ok 2) := rfl
  have hkept : ⟨"Options", "Source"⟩ ∈ optionReport (splitOptions "ts.Source" "ts.Json") := by
    decide
  have hbefore : ⟨"Options", "Json"⟩ ∈ optionReport (splitOptions "Source" "Json") := by decide
  have hafter : ⟨"Options", "Json"⟩ ∉ optionReport (splitOptions "ts.Source" "ts.Json") := by decide
  obtain ⟨hsubset, hresolved⟩ := findUnresolved_requalified sourceIndex optionPolicy "ts"
    ⟨[], splitOptions "Source" "Json", []⟩ _ 2 hfresh hrun
  exact ⟨hfresh, hrun, hsubset, hkept, hbefore, hafter, hresolved _ _ hbefore hafter⟩

end DeclLayer
