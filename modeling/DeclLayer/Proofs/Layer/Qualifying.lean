import DeclLayer.Proofs.Layer.Site

/-!
# The order of rules

A rule renames at its site and nowhere else (`Rule.apply_eq`), so rules followed one after another
rename at their sites (`Rule.applyAll_eq`). They fail exactly if one of the sites is missing, for no
rule moves a site.

A later rule at the same site sees the names that an earlier one wrote. As long as no rule names
what another one writes (`Rule.Apart`), a name is qualified once at most, so neither the order of
the rules nor following them twice makes a difference (`Rule.applyAll_sites`).
-/

namespace DeclLayer

/-- What following a rule does to a name that it lists. -/
def qualified (namespaceName name : String) : String :=
  namespaceName ++ "." ++ name

/-- What following a rule does to one type: a listed name is qualified and counted. -/
theorem Ty.qualifyName_eq (namespaceName : String) (names : List String) (ty : Ty) :
    ty.qualifyName namespaceName names =
      (ty.rename fun n => if n ∈ names then qualified namespaceName n else n,
        ty.name?.toList.countP names.contains) := by
  cases ty with
  | named name args =>
    by_cases h : name ∈ names <;> simp [qualifyName, rename, name?, qualified, h]
  | _ => rfl

/-- What following a rule does to the members of a union: the listed names are qualified and
counted. -/
theorem Ty.qualifyNames_eq (namespaceName : String) (names : List String) (tys : List Ty) :
    Ty.qualifyNames namespaceName names tys =
      (tys.map (Ty.rename fun n => if n ∈ names then qualified namespaceName n else n),
        (tys.filterMap Ty.name?).countP names.contains) := by
  induction tys with
  | nil => rfl
  | cons ty tys ih =>
    rw [qualifyNames, Ty.qualifyName_eq, ih, List.filterMap_cons]
    cases hname : ty.name? with
    | none => simp
    | some name => simp [List.countP_cons, Nat.add_comm]

/-- Names at a site are qualified one by one. -/
theorem Ty.qualify_eq (namespaceName : String) (names : List String) (ty : Ty) :
    ty.qualify namespaceName names =
      (ty.renameSite fun n => if n ∈ names then qualified namespaceName n else n,
        ty.siteNames.countP names.contains) := by
  cases ty with
  | union types => rw [qualify, Ty.qualifyNames_eq]; rfl
  | named name args => exact Ty.qualifyName_eq namespaceName names (.named name args)
  | _ => rfl

/-- Counting apart and counting together. -/
theorem countP_add_countP {α : Type} {p q : α → Bool} {l : List α} (h : ∀ a, p a → q a = false) :
    l.countP p + l.countP q = l.countP fun a => p a || q a := by
  induction l with
  | nil => rfl
  | cons a l ih =>
    rw [List.countP_cons, List.countP_cons, List.countP_cons, ← ih]
    cases hp : p a with
    | false => simp only [Bool.false_or, Bool.false_eq_true, if_false]; omega
    | true => simp only [h a hp, Bool.true_or, Bool.false_eq_true, if_true, if_false]; omega

namespace Rule

/-- The interfaces have the site of the rule. -/
def HasSite (rule : Rule) (interfaces : List InterfaceDecl) : Prop :=
  rule.site.In (InterfaceDecl.keysOf rule.interface interfaces)

instance (rule : Rule) (interfaces : List InterfaceDecl) : Decidable (rule.HasSite interfaces) :=
  inferInstanceAs (Decidable (rule.site.In _))

/-- A rule is about the site of the interfaces of a name. -/
def IsAt (rule : Rule) (name : String) (site : Site) : Prop :=
  name = rule.interface ∧ site = rule.site

instance (rule : Rule) (name : String) (site : Site) : Decidable (rule.IsAt name site) :=
  inferInstanceAs (Decidable (_ ∧ _))

/-- A rule qualifies a name at a site. -/
def Qualifies (rule : Rule) (name : String) (site : Site) (n : String) : Prop :=
  rule.IsAt name site ∧ n ∈ rule.names

instance (rule : Rule) (name : String) (site : Site) (n : String) :
    Decidable (rule.Qualifies name site n) :=
  inferInstanceAs (Decidable (_ ∧ _))

/-- What a name at a site becomes by some rules in order. -/
def follow (namespaceName : String) : List Rule → String → Site → String → String
  | [], _, _, n => n
  | rule :: rules, name, site, n =>
    follow namespaceName rules name site
      (if rule.Qualifies name site n then qualified namespaceName n else n)

/-- How often some rules in order qualify the names at sites. -/
def hits (namespaceName : String) : List Rule → List InterfaceDecl → Nat
  | [], _ => 0
  | rule :: rules, interfaces =>
    (InterfaceDecl.siteNames interfaces).countP (fun (name, site, n) =>
      rule.Qualifies name site n) +
    hits namespaceName rules
      (InterfaceDecl.renameSites (follow namespaceName [rule]) interfaces)

section

variable {namespaceName : String} {rule : Rule} {rules : List Rule}
  {interfaces : List InterfaceDecl}

/-- A rule renames at its site, if it is there. -/
theorem apply_eq : rule.apply namespaceName interfaces =
    if rule.HasSite interfaces then
      .found (InterfaceDecl.renameSites (follow namespaceName [rule]) interfaces)
        ((InterfaceDecl.siteNames interfaces).countP fun (name, site, n) =>
          rule.Qualifies name site n)
    else .missing (rule.site.behind (InterfaceDecl.keysOf rule.interface interfaces)) := by
  have hbehind : rule.site.behind [] = rule.site := by cases rule.site <;> rfl
  have hsearch := @InterfaceDecl.inList_atSite _ _ _ rule.site (fun _ => []) rule.interface
    interfaces (Ty.qualify_eq namespaceName rule.names) Site.not_in_nil
  rw [hbehind] at hsearch
  have hfollow : follow namespaceName [rule] = fun name site =>
      if name = rule.interface ∧ site = rule.site then
        fun n => if n ∈ rule.names then qualified namespaceName n else n
      else id := by
    funext name site n
    by_cases h : name = rule.interface ∧ site = rule.site <;> simp [follow, Qualifies, IsAt, h]
  have hhits : (fun (name, site, n) => decide (rule.Qualifies name site n)) = fun (name, site, n) =>
      (name = rule.interface && site = rule.site) && rule.names.contains n := by
    funext ⟨name, site, n⟩
    rw [Bool.eq_iff_iff]
    simp [Qualifies, IsAt, and_assoc]
  rw [apply, hsearch, hfollow, hhits]
  rfl

/-- Changing names keeps all sites. -/
theorem hasSite_renameSites {f : String → Site → String → String} (rule : Rule) :
    rule.HasSite (InterfaceDecl.renameSites f interfaces) ↔ rule.HasSite interfaces := by
  rw [HasSite, InterfaceDecl.keysOf_renameSites, HasSite]

/-- Without rules a name stays as it is. -/
theorem follow_nil : follow namespaceName [] = fun _ _ => id := rfl

/-- Rules that are not about a site change no name there. -/
theorem follow_of_not_isAt {name : String} {site : Site}
    (h : ∀ rule ∈ rules, ¬rule.IsAt name site) : follow namespaceName rules name site = id := by
  induction rules with
  | nil => rfl
  | cons rule rules ih =>
    obtain ⟨hrule, hrules⟩ := List.forall_mem_cons.1 h
    funext n
    rw [follow, if_neg fun hn => hrule hn.1, ih hrules]

/-- Rules are followed if all their sites are there. -/
theorem applyAll_eq (h : ∀ rule ∈ rules, rule.HasSite interfaces) :
    applyAll namespaceName rules interfaces =
      (InterfaceDecl.renameSites (follow namespaceName rules) interfaces,
        .ok (hits namespaceName rules interfaces)) := by
  induction rules generalizing interfaces with
  | nil => rw [follow_nil, InterfaceDecl.renameSites_id]; rfl
  | cons rule rules ih =>
    obtain ⟨hrule, hrules⟩ := List.forall_mem_cons.1 h
    have hrenamed (other : Rule) (hother : other ∈ rules) :
        other.HasSite (InterfaceDecl.renameSites (follow namespaceName [rule]) interfaces) :=
      (hasSite_renameSites other).2 (hrules other hother)
    rw [applyAll, apply_eq, if_pos hrule]
    simp only [ih hrenamed, InterfaceDecl.renameSites_comp]
    rfl

/-- Rules that are followed have all their sites. -/
theorem hasSite_of_applyAll {count : Nat}
    (h : (applyAll namespaceName rules interfaces).2 = .ok count) :
    ∀ rule ∈ rules, rule.HasSite interfaces := by
  induction rules generalizing interfaces count with
  | nil => exact nofun
  | cons rule rules ih =>
    rw [applyAll, apply_eq] at h
    by_cases hrule : rule.HasSite interfaces
    · rw [if_pos hrule] at h
      cases hrest : (applyAll namespaceName rules
          (InterfaceDecl.renameSites (follow namespaceName [rule]) interfaces)).2 with
      | error e => simp [hrest, Except.map] at h
      | ok n =>
        exact List.forall_mem_cons.2
          ⟨hrule, fun other hother => (hasSite_renameSites other).1 (ih hrest other hother)⟩
    · rw [if_neg hrule] at h
      cases h

/-- Rules that are not all followed end at the first one whose site is missing. -/
theorem missingSite_of_applyAll {e : LayerError}
    (h : (applyAll namespaceName rules interfaces).2 = .error e) :
    ∃ before rule after, rules = before ++ rule :: after ∧
      (∀ other ∈ before, other.HasSite interfaces) ∧ ¬rule.HasSite interfaces ∧
      e = .missingSite rule.interface rule.site := by
  induction rules generalizing interfaces with
  | nil => cases h
  | cons rule rules ih =>
    rw [applyAll, apply_eq] at h
    by_cases hrule : rule.HasSite interfaces
    · rw [if_pos hrule] at h
      cases hrest : (applyAll namespaceName rules
          (InterfaceDecl.renameSites (follow namespaceName [rule]) interfaces)).2 with
      | ok n => simp [hrest, Except.map] at h
      | error e' =>
        simp only [hrest, Except.map, Except.error.injEq] at h
        subst h
        obtain ⟨before, missing, after, rfl, hbefore, hmissing, he⟩ := ih hrest
        simp only [hasSite_renameSites] at hbefore hmissing
        exact ⟨rule :: before, missing, after, rfl, List.forall_mem_cons.2 ⟨hrule, hbefore⟩,
          hmissing, he⟩
    · rw [if_neg hrule] at h
      exact ⟨[], rule, rules, rfl, nofun, hrule, (Except.error.inj h).symm⟩

end

/-! ## Rules that stand apart -/

/-- No rule names what another one, or itself, writes. -/
def Apart (namespaceName : String) (rules : List Rule) : Prop :=
  ∀ rule ∈ rules, ∀ n ∈ rule.names, ∀ other ∈ rules, qualified namespaceName n ∉ other.names

instance (namespaceName : String) (rules : List Rule) : Decidable (Apart namespaceName rules) :=
  inferInstanceAs (Decidable (∀ rule ∈ rules, ∀ n ∈ rule.names, ∀ other ∈ rules, _))

/-- Some rule qualifies a name at a site. -/
def AnyQualifies (rules : List Rule) (name : String) (site : Site) (n : String) : Prop :=
  ∃ rule ∈ rules, rule.Qualifies name site n

instance (rules : List Rule) (name : String) (site : Site) (n : String) :
    Decidable (AnyQualifies rules name site n) :=
  inferInstanceAs (Decidable (∃ rule ∈ rules, rule.Qualifies name site n))

/-- Names that some rule qualifies, qualified. -/
def followOnce (namespaceName : String) (rules : List Rule) (name : String) (site : Site)
    (n : String) : String :=
  if AnyQualifies rules name site n then qualified namespaceName n else n

section

variable {namespaceName : String} {rule : Rule} {rules : List Rule}
  {interfaces : List InterfaceDecl} {name : String} {site : Site} {n : String}

/-- A name is qualified by the first of some rules or by one of the others. -/
theorem anyQualifies_cons : AnyQualifies (rule :: rules) name site n ↔
    rule.Qualifies name site n ∨ AnyQualifies rules name site n := by
  simp [AnyQualifies]

/-- Rules that stand apart do so without the first of them. -/
theorem Apart.tail (h : Apart namespaceName (rule :: rules)) : Apart namespaceName rules :=
  fun r hr n hn other hother =>
    h r (List.mem_cons_of_mem _ hr) n hn other (List.mem_cons_of_mem _ hother)

/-- What a rule wrote is qualified no more. -/
theorem Apart.not_anyQualifies (h : Apart namespaceName rules)
    (hn : AnyQualifies rules name site n) :
    ¬AnyQualifies rules name site (qualified namespaceName n) := by
  obtain ⟨rule, hrule, -, hn⟩ := hn
  rintro ⟨other, hother, -, hwritten⟩
  exact h rule hrule n hn other hother hwritten

/-- A qualified name is another name than before: it is longer. -/
theorem qualified_ne : qualified namespaceName n ≠ n := by
  intro h
  have hlength := congrArg String.length h
  rw [qualified, String.length_append, String.length_append] at hlength
  have : ".".length = 1 := rfl
  omega

/-- Rules that stand apart qualify a name once. -/
theorem Apart.follow_eq (h : Apart namespaceName rules) :
    follow namespaceName rules name site n = followOnce namespaceName rules name site n := by
  induction rules generalizing n with
  | nil =>
    have hnone : ¬AnyQualifies [] name site n := by simp [AnyQualifies]
    rw [followOnce, if_neg hnone]
    rfl
  | cons rule rules ih =>
    by_cases hn : rule.Qualifies name site n
    · have hany : AnyQualifies (rule :: rules) name site n := anyQualifies_cons.2 (.inl hn)
      have hnot : ¬AnyQualifies rules name site (qualified namespaceName n) := fun hrest =>
        h.not_anyQualifies hany (anyQualifies_cons.2 (.inr hrest))
      rw [follow, if_pos hn, ih h.tail, followOnce, if_neg hnot, followOnce, if_pos hany]
    · rw [follow, if_neg hn, ih h.tail, followOnce, followOnce]
      simp only [anyQualifies_cons, hn, false_or]

/-- Rules that stand apart qualify each name of theirs once. -/
theorem Apart.hits_eq (h : Apart namespaceName rules) :
    hits namespaceName rules interfaces =
      (InterfaceDecl.siteNames interfaces).countP fun (name, site, n) =>
        AnyQualifies rules name site n := by
  induction rules generalizing interfaces with
  | nil => simp [hits, AnyQualifies]
  | cons rule rules ih =>
    rw [hits, ih h.tail, InterfaceDecl.siteNames_renameSites, List.countP_map, countP_add_countP]
    · congr 1
      funext ⟨name, site, n⟩
      by_cases hn : rule.Qualifies name site n <;> simp [follow, anyQualifies_cons, hn]
    · rintro ⟨name, site, n⟩ hn
      have hn : rule.Qualifies name site n := of_decide_eq_true hn
      have hnot := h.not_anyQualifies (anyQualifies_cons.2 (.inl hn))
      have hrest : ¬AnyQualifies rules name site (qualified namespaceName n) := fun hrest =>
        hnot (anyQualifies_cons.2 (.inr hrest))
      simp [follow, hn, hrest]

/-- Rules that stand apart, as one change of the interfaces. -/
theorem Apart.applyAll_eq (h : Apart namespaceName rules)
    (hsites : ∀ rule ∈ rules, rule.HasSite interfaces) :
    applyAll namespaceName rules interfaces =
      (InterfaceDecl.renameSites (followOnce namespaceName rules) interfaces,
        .ok ((InterfaceDecl.siteNames interfaces).countP fun (name, site, n) =>
          AnyQualifies rules name site n)) := by
  have hfollow : follow namespaceName rules = followOnce namespaceName rules := by
    funext name site n
    exact h.follow_eq
  rw [Rule.applyAll_eq hsites, hfollow, h.hits_eq]

/-- What some rules that stand apart leave, none of them qualifies. -/
theorem Apart.not_anyQualifies_followOnce (h : Apart namespaceName rules) :
    ¬AnyQualifies rules name site (followOnce namespaceName rules name site n) := by
  rw [followOnce]
  split
  · next hn => exact h.not_anyQualifies hn
  · next hn => exact hn

/-- A name is changed exactly if some rule qualifies it. -/
theorem followOnce_ne : followOnce namespaceName rules name site n ≠ n ↔
    AnyQualifies rules name site n := by
  rw [followOnce]
  split
  · next hn => exact iff_of_true qualified_ne hn
  · next hn => exact iff_of_false (fun h => h rfl) hn

/-- Rules that stand apart do so in any order. -/
theorem Apart.perm {others : List Rule} (h : Apart namespaceName rules)
    (hperm : others.Perm rules) : Apart namespaceName others :=
  fun rule hrule n hn other hother =>
    h rule (hperm.mem_iff.1 hrule) n hn other (hperm.mem_iff.1 hother)

/-- Whether some rule qualifies a name does not depend on their order. -/
theorem anyQualifies_perm {others : List Rule} (hperm : others.Perm rules) :
    AnyQualifies others name site n ↔ AnyQualifies rules name site n := by
  simp only [AnyQualifies, hperm.mem_iff]

/-- Rules that stand apart may be followed in any order. -/
theorem Apart.applyAll_perm {others : List Rule} (h : Apart namespaceName rules)
    (hsites : ∀ rule ∈ rules, rule.HasSite interfaces) (hperm : others.Perm rules) :
    applyAll namespaceName others interfaces = applyAll namespaceName rules interfaces := by
  have hothers : ∀ rule ∈ others, rule.HasSite interfaces := fun rule hrule =>
    hsites rule (hperm.mem_iff.1 hrule)
  have honce : followOnce namespaceName others = followOnce namespaceName rules := by
    funext name site n
    simp only [followOnce, anyQualifies_perm hperm]
  rw [h.applyAll_eq hsites, (h.perm hperm).applyAll_eq hothers, honce]
  simp only [anyQualifies_perm hperm]

/-- Rules that stand apart find nothing to do behind themselves. -/
theorem Apart.applyAll_again {result : List InterfaceDecl} {count : Nat}
    (h : Apart namespaceName rules) (hsites : ∀ rule ∈ rules, rule.HasSite interfaces)
    (hresult : applyAll namespaceName rules interfaces = (result, .ok count)) :
    applyAll namespaceName rules result = (result, .ok 0) := by
  rw [h.applyAll_eq hsites] at hresult
  obtain ⟨rfl, -⟩ := Prod.mk.inj hresult
  have hagain (rule : Rule) (hrule : rule ∈ rules) :
      rule.HasSite (InterfaceDecl.renameSites (followOnce namespaceName rules) interfaces) :=
    (hasSite_renameSites rule).2 (hsites rule hrule)
  have htwice : (fun name site => followOnce namespaceName rules name site ∘
      followOnce namespaceName rules name site) = followOnce namespaceName rules := by
    funext name site n
    exact if_neg h.not_anyQualifies_followOnce
  rw [h.applyAll_eq hagain, InterfaceDecl.renameSites_comp, htwice,
    InterfaceDecl.siteNames_renameSites, List.countP_map, List.countP_eq_zero.2]
  rintro ⟨name, site, n⟩ -
  simp [h.not_anyQualifies_followOnce]

end

end Rule

namespace InterfaceDecl

/-- The number of names at sites that differ. -/
def changes (before after : List InterfaceDecl) : Nat :=
  ((siteNames before).zip (siteNames after)).countP fun (old, new) => old ≠ new

/-- The names at sites that differ after a change are those that the change does not fix. -/
theorem changes_renameSites {f : String → Site → String → String}
    {interfaces : List InterfaceDecl} : changes interfaces (renameSites f interfaces) =
      (siteNames interfaces).countP fun (name, site, n) => f name site n ≠ n := by
  rw [changes, siteNames_renameSites]
  induction siteNames interfaces with
  | nil => rfl
  | cons x xs ih =>
    obtain ⟨name, site, n⟩ := x
    rw [List.map_cons, List.zip_cons_cons, List.countP_cons, List.countP_cons, ih]
    by_cases hn : f name site n = n
    · simp [hn]
    · have hne : n ≠ f name site n := fun h => hn h.symm
      simp [hn, hne]

end InterfaceDecl

/-- Rules are followed exactly if all their sites are there, and change names at their sites only.
Rules that stand apart qualify each name of theirs once, in any order, and following them again
changes nothing. -/
theorem Rule.applyAll_sites (namespaceName : String) (rules : List Rule)
    (interfaces : List InterfaceDecl) :
    ((∃ result count, applyAll namespaceName rules interfaces = (result, .ok count)) ↔
      ∀ rule ∈ rules, rule.HasSite interfaces) ∧
    ∀ result count, applyAll namespaceName rules interfaces = (result, .ok count) →
      (∃ f : String → Site → String → String,
        (∀ name site, (∀ rule ∈ rules, ¬rule.IsAt name site) → f name site = id) ∧
          result = InterfaceDecl.renameSites f interfaces) ∧
      (Apart namespaceName rules →
        result = InterfaceDecl.renameSites
          (fun name site n =>
            if ∃ rule ∈ rules, rule.IsAt name site ∧ n ∈ rule.names then namespaceName ++ "." ++ n
            else n) interfaces ∧
        count = InterfaceDecl.changes interfaces result ∧
        (∀ rules' : List Rule, rules'.Perm rules →
          applyAll namespaceName rules' interfaces = (result, .ok count)) ∧
        applyAll namespaceName rules result = (result, .ok 0)) := by
  have hsites : (∃ result count, applyAll namespaceName rules interfaces = (result, .ok count)) ↔
      ∀ rule ∈ rules, rule.HasSite interfaces := by
    constructor
    · rintro ⟨result, count, h⟩
      exact hasSite_of_applyAll (congrArg Prod.snd h)
    · exact fun h => ⟨_, _, applyAll_eq h⟩
  refine ⟨hsites, fun result count hresult => ?_⟩
  have hall := hsites.1 ⟨result, count, hresult⟩
  refine ⟨⟨follow namespaceName rules, fun name site => follow_of_not_isAt, ?_⟩, fun hapart => ?_⟩
  · exact (Prod.mk.inj (hresult.symm.trans (applyAll_eq hall))).1
  · have hequal := hresult.symm.trans (hapart.applyAll_eq hall)
    obtain ⟨rfl, hcount⟩ := Prod.mk.inj hequal
    refine ⟨rfl, ?_, fun rules' hperm => ?_, hapart.applyAll_again hall hresult⟩
    · rw [InterfaceDecl.changes_renameSites, Except.ok.inj hcount]
      simp only [followOnce_ne]
    · exact (hapart.applyAll_perm hall hperm).trans hresult

/-- `Options` in two declarations with another interface between them; `source` and `json` are the
references in the union that its second index signature holds. -/
def splitOptions (source json : String) : List InterfaceDecl :=
  [⟨[], .plain, "Options", [], [],
      [.index ⟨[], "flag", .primitive .number, .named "Source" [], false⟩]⟩,
    ⟨[], .plain, "Lists", [], [],
      [.index ⟨[], "key", .primitive .string, .named "Source" [], false⟩]⟩,
    ⟨[], .plain, "Options", [], [],
      [.index ⟨[], "option", .primitive .string,
        .union [.primitive .string, .named source [], .named json [], .array (.named "Source" [])],
        false⟩]⟩]

/-- Two rules at one site that list a name both. -/
def optionRules : List Rule :=
  [⟨"Options", ["Source"], .indexSignature 1⟩, ⟨"Options", ["Json", "Source"], .indexSignature 1⟩]

/-- Two rules at a site of the later declaration: both orders qualify the same two references. -/
theorem Rule.applyAll_splitOptions :
    Apart "ts" optionRules ∧
      applyAll "ts" optionRules (splitOptions "Source" "Json") =
        (splitOptions "ts.Source" "ts.Json", .ok 2) ∧
      applyAll "ts" optionRules.reverse (splitOptions "Source" "Json") =
        (splitOptions "ts.Source" "ts.Json", .ok 2) ∧
      applyAll "ts" optionRules (splitOptions "ts.Source" "ts.Json") =
        (splitOptions "ts.Source" "ts.Json", .ok 0) := by
  have hapart : Apart "ts" optionRules := by decide
  have hrun : applyAll "ts" optionRules (splitOptions "Source" "Json") =
      (splitOptions "ts.Source" "ts.Json", .ok 2) := rfl
  obtain ⟨-, hfollowed⟩ := applyAll_sites "ts" optionRules (splitOptions "Source" "Json")
  obtain ⟨-, -, -, horder, hagain⟩ := (hfollowed _ _ hrun).imp_right fun h => h hapart
  exact ⟨hapart, hrun, horder _ (List.reverse_perm _), hagain⟩

end DeclLayer
