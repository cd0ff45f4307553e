import DeclLayer.Proofs.Layer.Qualifying
import Mathlib.Logic.Relation

/-!
# Rules and the cutting of interfaces

An interface may be declared in several pieces, with other interfaces between them. The sites of a
name are counted over the members of all its pieces in order: following a rule, and the number of
references that it qualifies, can be told from the merged members of each name
(`InterfaceDecl.membersOf_renameSites`, `InterfaceDecl.siteNamesOf_eq`). Two lists of interfaces
with the same merged members (`InterfaceDecl.SameMembers`) therefore behave alike under a rule
(`Rule.apply_sameMembers`) and under any number of rules (`Rule.applyAll_merged`), whether the rules
are followed to the end or not.

`InterfaceDecl.Recuts` lists the ways to change a list of interfaces that keep the merged members: a
declaration is cut in two, and two declarations of different names change places.
-/

namespace DeclLayer

/-! ## Members in pieces -/

namespace Member

section

variable {f : Site → String → String} {before : List SiteKey} {ms ns : List (Member Ty)}

/-- The sites of the later members go on from those of the earlier ones. -/
theorem sited_append : sited before (ms ++ ns) =
    sited before ms ++ sited (before ++ keys ms) ns := by
  induction ms generalizing before with
  | nil => simp [sited, keys]
  | cons m ms ih => simp [sited, ih]

/-- The sites of two lists of members are changed one list after the other, the second behind the
keys of the first. -/
theorem renameSites_append : renameSites f before (ms ++ ns) =
    renameSites f before ms ++ renameSites f (before ++ keys ms) ns := by
  rw [renameSites, sited_append, List.map_append]
  rfl

/-- The names at the sites of two lists of members are those of the first and those of the second
behind its keys. -/
theorem siteNames_append : siteNames before (ms ++ ns) =
    siteNames before ms ++ siteNames (before ++ keys ms) ns := by
  rw [siteNames, sited_append, List.flatMap_append]
  rfl

end

end Member

namespace InterfaceDecl

section

variable {f : String → Site → String → String} {before : String → List SiteKey}
  {d : InterfaceDecl} {ds : List InterfaceDecl} {name : String}

/-- The merged members of a name are those of the first interface, if it has the name, and those of
the others. -/
theorem membersOf_cons : membersOf name (d :: ds) =
    if d.name = name then d.members ++ membersOf name ds else membersOf name ds := by
  by_cases h : d.name = name <;> simp [membersOf, h]

/-- The merged members of two lists of interfaces are those of the first and those of the second. -/
theorem membersOf_append (ds es : List InterfaceDecl) :
    membersOf name (ds ++ es) = membersOf name ds ++ membersOf name es := by
  simp [membersOf]

/-- Changing names at sites changes them at the sites of the merged members. -/
theorem membersOf_renameSites : membersOf name (renameSites f ds before) =
    Member.renameSites (f name) (before name) (membersOf name ds) := by
  induction ds generalizing before with
  | nil => rfl
  | cons d ds ih =>
    rw [renameSites_cons, membersOf_cons, membersOf_cons, ih, keysOf_singleton]
    by_cases h : d.name = name
    · subst h
      simp [Member.renameSites_append]
    · simp [h]

/-- The names at the sites of one interface name. -/
def siteNamesOf (name : String) (ds : List InterfaceDecl)
    (before : String → List SiteKey := fun _ => []) : List (Site × String) :=
  ((siteNames ds before).filter fun x => x.1 = name).map Prod.snd

/-- They are the names at the sites of the merged members. -/
theorem siteNamesOf_eq : siteNamesOf name ds before =
    Member.siteNames (before name) (membersOf name ds) := by
  induction ds generalizing before with
  | nil => rfl
  | cons d ds ih =>
    rw [siteNamesOf, siteNames_cons, List.filter_append, List.map_append, ← siteNamesOf, ih,
      membersOf_cons, keysOf_singleton]
    by_cases h : d.name = name
    · subst h
      simp [Member.siteNames_append, List.filter_map, Function.comp_def]
    · simp [h, List.filter_map, Function.comp_def]

end

/-- Two lists of interfaces have the same members under every name. -/
def SameMembers (xs ys : List InterfaceDecl) : Prop :=
  ∀ name, membersOf name xs = membersOf name ys

/-- A change of a list of interfaces that keeps the merged members. -/
inductive Recuts : List InterfaceDecl → List InterfaceDecl → Prop
  /-- A declaration is cut in two. All but the name may be different in the new one. -/
  | cut (before after : List InterfaceDecl) (d e : InterfaceDecl) (ms ns : List (Member Ty))
    (h : e.name = d.name) :
    Recuts (before ++ { d with members := ms ++ ns } :: after)
      (before ++ { d with members := ms } :: { e with members := ns } :: after)
  /-- Two neighbours of different names change places. -/
  | swap (before after : List InterfaceDecl) (d e : InterfaceDecl) (h : d.name ≠ e.name) :
    Recuts (before ++ d :: e :: after) (before ++ e :: d :: after)

/-- A declaration is joined to an earlier one of its name, past one of another name. -/
theorem Recuts.join (before after : List InterfaceDecl) {x y z : InterfaceDecl}
    (hz : z.name = x.name) (hy : y.name ≠ x.name) :
    Relation.EqvGen Recuts (before ++ x :: y :: z :: after)
      (before ++ { x with members := x.members ++ z.members } :: y :: after) := by
  have hswap : Recuts (before ++ x :: y :: z :: after) (before ++ x :: z :: y :: after) := by
    have h := swap (before ++ [x]) after y z fun h => hy (h.trans hz)
    simpa using h
  have hcut := cut before (y :: after) x z x.members z.members hz
  exact .trans _ _ _ (.rel _ _ hswap) (.symm _ _ (.rel _ _ hcut))

namespace SameMembers

variable {xs ys : List InterfaceDecl}

/-- One recut keeps the merged members of every name. -/
theorem of_step (h : Recuts xs ys) : SameMembers xs ys := by
  intro name
  cases h with
  | cut before after d e ms ns h =>
    simp only [membersOf_append, membersOf_cons, h]
    split <;> simp
  | swap before after d e h =>
    simp only [membersOf_append, membersOf_cons]
    by_cases hd : d.name = name
    · have he : e.name ≠ name := fun he => h (hd.trans he.symm)
      simp [hd, he]
    · simp [hd]

/-- Any number of changes keeps the merged members. -/
theorem of_recuts (h : Relation.EqvGen Recuts xs ys) : SameMembers xs ys := by
  induction h with
  | rel _ _ h => exact of_step h
  | refl => exact fun _ => rfl
  | symm _ _ _ ih => exact fun name => (ih name).symm
  | trans _ _ _ _ _ ih ih' => exact fun name => (ih name).trans (ih' name)

end SameMembers

end InterfaceDecl

/-! ## Rules -/

open InterfaceDecl (SameMembers Recuts membersOf)

/-- Two searches find a site, with the same number of references and the same merged members, or
they miss the same site. -/
inductive SameSearch : SiteSearch (List InterfaceDecl) → SiteSearch (List InterfaceDecl) → Prop
  | found {xs ys : List InterfaceDecl} (h : SameMembers xs ys) (count : Nat) :
    SameSearch (.found xs count) (.found ys count)
  | missing (site : Site) : SameSearch (.missing site) (.missing site)

namespace Rule

section

variable {namespaceName : String} {rule : Rule} {interfaces xs ys : List InterfaceDecl}

/-- The interfaces have the site of a rule if one of the merged members is that site. -/
theorem hasSite_iff : rule.HasSite interfaces ↔
    ∃ x ∈ Member.sited [] (membersOf rule.interface interfaces), x.1 = some rule.site := by
  rw [HasSite, InterfaceDecl.keysOf, ← List.nil_append (Member.keys _), Member.in_append_keys,
    or_iff_right Site.not_in_nil]

/-- The references that a rule qualifies are among the names at the sites of its interface. -/
theorem countP_qualifies : (InterfaceDecl.siteNames interfaces).countP (fun (name, site, n) =>
      rule.Qualifies name site n) =
    (Member.siteNames [] (membersOf rule.interface interfaces)).countP fun (site, n) =>
      site = rule.site ∧ n ∈ rule.names := by
  have hnames : InterfaceDecl.siteNamesOf rule.interface interfaces =
      Member.siteNames [] (membersOf rule.interface interfaces) := InterfaceDecl.siteNamesOf_eq
  rw [← hnames, InterfaceDecl.siteNamesOf, List.countP_map, List.countP_filter]
  congr 1
  funext ⟨name, site, n⟩
  rw [Bool.eq_iff_iff, Bool.and_eq_true]
  simp only [Function.comp_apply, decide_eq_true_iff]
  rw [Qualifies, IsAt, and_assoc, and_comm]

/-- A rule does the same to the merged members, however these are cut. -/
theorem apply_sameMembers (h : SameMembers xs ys) :
    SameSearch (rule.apply namespaceName xs) (rule.apply namespaceName ys) := by
  have hsite : rule.HasSite xs ↔ rule.HasSite ys := by rw [hasSite_iff, hasSite_iff, h]
  rw [apply_eq, apply_eq, countP_qualifies, countP_qualifies, InterfaceDecl.keysOf, h,
    ← InterfaceDecl.keysOf]
  by_cases hx : rule.HasSite xs
  · rw [if_pos hx, if_pos (hsite.1 hx)]
    refine .found (fun name => ?_) _
    rw [InterfaceDecl.membersOf_renameSites, InterfaceDecl.membersOf_renameSites, h]
  · rw [if_neg hx, if_neg fun hy => hx (hsite.2 hy)]
    exact .missing _

/-- A rule that is followed renames at its site among the merged members. -/
theorem membersOf_apply {result : List InterfaceDecl} {count : Nat}
    (h : rule.apply namespaceName interfaces = .found result count) (name : String) :
    membersOf name result = (Member.sited [] (membersOf name interfaces)).map fun (site, m) =>
      if name = rule.interface ∧ site = some rule.site then
        m.rename fun n => if n ∈ rule.names then namespaceName ++ "." ++ n else n
      else m := by
  rw [apply_eq] at h
  split at h
  · cases h
    rw [InterfaceDecl.membersOf_renameSites, Member.renameSites]
    refine List.map_congr_left fun (site, m) _ => ?_
    cases site with
    | none => simp
    | some site =>
      by_cases hat : name = rule.interface ∧ site = rule.site
      · simp [follow, Qualifies, IsAt, qualified, hat]
      · have hkept : follow namespaceName [rule] name site = id := by
          funext n
          simp [follow, Qualifies, IsAt, hat]
        simp [hkept, hat]
  · cases h

/-- Any number of rules do the same to the merged members, however these are cut. -/
theorem applyAll_sameMembers {rules : List Rule} (h : SameMembers xs ys) :
    (applyAll namespaceName rules xs).2 = (applyAll namespaceName rules ys).2 ∧
      SameMembers (applyAll namespaceName rules xs).1 (applyAll namespaceName rules ys).1 := by
  induction rules generalizing xs ys with
  | nil => exact ⟨rfl, h⟩
  | cons rule rules ih =>
    have hsearch : SameSearch (rule.apply namespaceName xs) (rule.apply namespaceName ys) :=
      apply_sameMembers h
    rw [applyAll, applyAll]
    generalize rule.apply namespaceName xs = searchx, rule.apply namespaceName ys = searchy
      at hsearch
    cases hsearch with
    | found h count =>
      obtain ⟨houtcome, hmembers⟩ := ih h
      exact ⟨congrArg (Except.map (count + ·)) houtcome, hmembers⟩
    | missing => exact ⟨rfl, h⟩

end

end Rule

/-- Rules do the same to two lists of interfaces with the same merged members: all of them are
followed on both, with one count, or the same site is missing on both, and the merged members are
the same afterwards. Lists that differ in where declarations are cut, and in the order of different
names, have the same merged members. The site of a rule is that of the merged members, and the names
there are all that changes. -/
theorem Rule.applyAll_merged (namespaceName : String) :
    (∀ (rules : List Rule) (xs ys : List InterfaceDecl), SameMembers xs ys →
      ((∃ count, (applyAll namespaceName rules xs).2 = .ok count ∧
          (applyAll namespaceName rules ys).2 = .ok count) ∨
        ∃ rule ∈ rules,
          (applyAll namespaceName rules xs).2 =
            .error (.missingSite rule.interface rule.site) ∧
          (applyAll namespaceName rules ys).2 =
            .error (.missingSite rule.interface rule.site)) ∧
      SameMembers (applyAll namespaceName rules xs).1 (applyAll namespaceName rules ys).1) ∧
    (∀ xs ys : List InterfaceDecl, Relation.EqvGen Recuts xs ys → SameMembers xs ys) ∧
    ∀ (rule : Rule) (interfaces : List InterfaceDecl),
      ((∃ result count, rule.apply namespaceName interfaces = .found result count) ↔
        ∃ x ∈ Member.sited [] (membersOf rule.interface interfaces), x.1 = some rule.site) ∧
      ∀ result count, rule.apply namespaceName interfaces = .found result count → ∀ name,
        membersOf name result = (Member.sited [] (membersOf name interfaces)).map fun (site, m) =>
          if name = rule.interface ∧ site = some rule.site then
            m.rename fun n => if n ∈ rule.names then namespaceName ++ "." ++ n else n
          else m := by
  refine ⟨fun rules xs ys h => ?_, fun _ _ => SameMembers.of_recuts, fun rule interfaces =>
    ⟨?_, fun result count => membersOf_apply⟩⟩
  · have houtcome : (applyAll namespaceName rules xs).2 = (applyAll namespaceName rules ys).2 :=
      (applyAll_sameMembers h).1
    refine ⟨?_, (applyAll_sameMembers h).2⟩
    rw [← houtcome]
    cases hx : (applyAll namespaceName rules xs).2 with
    | ok count => exact .inl ⟨count, rfl, rfl⟩
    | error e =>
      obtain ⟨before, rule, after, rfl, -, -, rfl⟩ := missingSite_of_applyAll hx
      exact .inr ⟨rule, by simp, rfl, rfl⟩
  · rw [← hasSite_iff, apply_eq]
    by_cases h : rule.HasSite interfaces <;> simp [h]

/-- `splitOptions` before it is cut: `Options` in one declaration, with `Lists` behind it. -/
def wholeOptions (source json : String) : List InterfaceDecl :=
  [⟨[], .plain, "Options", [], [],
      [.index ⟨[], "flag", .primitive .number, .named "Source" [], false⟩,
        .index ⟨[], "option", .primitive .string,
          .union [.primitive .string, .named source [], .named json [],
            .array (.named "Source" [])],
          false⟩]⟩,
    ⟨[], .plain, "Lists", [], [],
      [.index ⟨[], "key", .primitive .string, .named "Source" [], false⟩]⟩]

/-- The second index signature of `Options` is in one declaration with the first one, or in another
one. There is no third. -/
theorem Rule.applyAll_wholeOptions :
    Relation.EqvGen Recuts (splitOptions "Source" "Json") (wholeOptions "Source" "Json") ∧
      SameMembers (splitOptions "Source" "Json") (wholeOptions "Source" "Json") ∧
      (applyAll "ts" optionRules (wholeOptions "Source" "Json")).2 = .ok 2 ∧
      (applyAll "ts" optionRules (splitOptions "Source" "Json")).2 = .ok 2 ∧
      (applyAll "ts" (optionRules ++ [⟨"Options", [], .indexSignature 2⟩])
        (splitOptions "Source" "Json")).2 = .error (.missingSite "Options" (.indexSignature 2)) ∧
      apply ⟨"Options", ["Source"], .indexSignature 1⟩ "ts" (splitOptions "Source" "Json") =
        .found (splitOptions "ts.Source" "Json") 1 ∧
      membersOf "Options" (splitOptions "ts.Source" "Json") =
        membersOf "Options" (wholeOptions "ts.Source" "Json") := by
  obtain ⟨hrules, hrecuts, hsites⟩ := applyAll_merged "ts"
  have hjoin : Relation.EqvGen Recuts (splitOptions "Source" "Json")
      (wholeOptions "Source" "Json") := Recuts.join [] [] rfl (by decide)
  have hsame := hrecuts _ _ hjoin
  have hwhole : (applyAll "ts" optionRules (wholeOptions "Source" "Json")).2 = .ok 2 := rfl
  have hmissing : (applyAll "ts" (optionRules ++ [⟨"Options", [], .indexSignature 2⟩])
      (wholeOptions "Source" "Json")).2 = .error (.missingSite "Options" (.indexSignature 2)) := rfl
  have hfound : apply ⟨"Options", ["Source"], .indexSignature 1⟩ "ts"
      (splitOptions "Source" "Json") = .found (splitOptions "ts.Source" "Json") 1 := rfl
  refine ⟨hjoin, hsame, hwhole, ?_, ?_, hfound, (hsites _ _).2 _ _ hfound "Options"⟩
  · obtain ⟨⟨count, hsplit, hy⟩ | ⟨rule, -, -, hy⟩, -⟩ := hrules optionRules _ _ hsame
    · rw [hsplit, ← hy, hwhole]
    · cases hwhole.symm.trans hy
  · obtain ⟨⟨count, -, hy⟩ | ⟨rule, -, hsplit, hy⟩, -⟩ :=
      hrules (optionRules ++ [⟨"Options", [], .indexSignature 2⟩]) _ _ hsame
    · cases hmissing.symm.trans hy
    · rw [hsplit, ← hy, hmissing]

end DeclLayer
