import DeclLayer.Proofs.Parse.Reads
import DeclLayer.Proofs.Text.Cutting
import DeclLayer.Proofs.Token.Spelling

/-!
# Names

How names are written and read back: identifiers, dotted names, property names, and source text
that is kept as written.

A name is kept as its text. A word is one token; a dotted name is words with dots between them
(`Token.dotted`); a property name that is no word, and a pattern in place of a parameter, stands for
all its tokens (`Token.name`).
-/

namespace DeclLayer

namespace Token

open Literal Text

/-! ## Names as pieces -/

/-- The words of a dotted name. -/
def nameWords (name : String) : List String :=
  (splitAt '.' name.toList).map String.ofList

/-- The words of a dotted name after its first one, each with the dot before it. -/
def dottedRest (ws : List String) : List Piece :=
  ws.flatMap fun w => [.token (.punct .dot), .token (wordKind w)]

/-- A dotted name: words with dots between them. -/
def dotted (name : String) : List Piece :=
  separatedBy .dot ((nameWords name).map fun w => [.token (wordKind w)])

/-- A name that is not dotted. One that is no word stands for all its tokens. -/
def name (text : String) : Piece :=
  if isWord text then .token (wordKind text) else .verbatim text

@[simp] theorem docsAfter_name (text : String) (docs : Docs) (ps : List Piece) :
    docsAfter docs (name text :: ps) = docsAfter [] ps := by
  rw [name]
  split <;> rfl

/-- A text that is words with dots between them. -/
def isDotted (name : String) : Bool :=
  (nameWords name).all isWord

/-- The words of a name make up the name. -/
theorem joinWith_nameWords (name : String) : joinWith "." (nameWords name) = name := by
  rw [← String.toList_inj, joinWith, String.toList_intercalate, nameWords, List.map_map]
  have hid : String.toList ∘ String.ofList = id := funext fun cs => String.toList_ofList
  rw [hid, List.map_id]
  exact intercalate_splitAt '.' name.toList

/-- Every name has at least one word. -/
theorem nameWords_ne_nil (name : String) : nameWords name ≠ [] := by
  rw [nameWords, Ne, List.map_eq_nil_iff]
  exact splitAt_ne_nil '.' name.toList

/-- A word is not empty, and has no dot in it. -/
theorem dot_not_mem {w : String} (h : isWord w = true) : w.toList ≠ [] ∧ '.' ∉ w.toList := by
  rw [isWord] at h
  split at h
  · cases h
  · next c cs htext =>
    simp only [Bool.and_eq_true, Bool.or_eq_true, beq_iff_eq, List.all_eq_true] at h
    obtain ⟨hhead, hall⟩ := h
    rw [htext, List.mem_cons, not_or]
    refine ⟨List.cons_ne_nil _ _, ?_, ?_⟩
    · rintro rfl
      rcases hhead with hhead | ⟨hhead, -⟩
      · exact absurd hhead (by decide)
      · exact absurd hhead (by decide)
    · intro hmem
      exact absurd (hall '.' hmem) (by decide)

/-- The words of a name made of words are those words. -/
theorem nameWords_joinWith {ws : List String} (hne : ws ≠ []) (h : ∀ w ∈ ws, isWord w = true) :
    nameWords (joinWith "." ws) = ws := by
  have hdots : ∀ piece ∈ ws.map String.toList, '.' ∉ piece := by
    intro piece hpiece
    obtain ⟨w, hw, rfl⟩ := List.mem_map.1 hpiece
    exact (dot_not_mem (h w hw)).2
  have hwords : ws.map String.toList ≠ [] := by
    rwa [Ne, List.map_eq_nil_iff]
  have hcut := splitAt_intercalate '.' hwords hdots
  rw [nameWords, joinWith, String.toList_intercalate]
  have hdot : ".".toList = ['.'] := rfl
  have hid : String.ofList ∘ String.toList = id := funext fun w => String.ofList_toList
  rw [hdot, hcut, List.map_map, hid, List.map_id]

/-- Words with dots between them are a dotted name. -/
theorem isDotted_joinWith {ws : List String} (hne : ws ≠ []) (h : ∀ w ∈ ws, isWord w = true) :
    isDotted (joinWith "." ws) = true := by
  rw [isDotted, nameWords_joinWith hne h, List.all_eq_true]
  exact h

/-- Words with dots between them are the first word and the others, each with the dot before it. -/
theorem joinWith_cons (w : String) (ws : List String) :
    joinWith "." (w :: ws) = w ++ String.join (ws.map ("." ++ ·)) := by
  induction ws generalizing w with
  | nil =>
    rw [joinWith, String.intercalate_singleton, List.map_nil, String.join_nil, String.append_empty]
  | cons v ws ih =>
    rw [joinWith, String.intercalate_cons_cons, List.map_cons, String.join_cons, ← joinWith, ih,
      String.append_assoc, String.append_assoc]

/-- A joined text begins with the first of its parts. -/
theorem exists_joinWith_cons (sep v : String) (ws : List String) :
    ∃ rest, joinWith sep (v :: ws) = v ++ rest := by
  cases ws with
  | nil => exact ⟨"", by rw [joinWith, String.intercalate_singleton, String.append_empty]⟩
  | cons u us =>
    exact ⟨_, by rw [joinWith, String.intercalate_cons_cons, String.append_assoc]⟩

/-- A dot is a token of its own in front of anything that does not begin with a dot. -/
theorem Writes.dot {β : Char → Bool} {text : String} {ps : List Piece} {c : Char} {cs : List Char}
    (h : Writes β text ps) (htext : text.toList = c :: cs) (hc : c ≠ '.') :
    Writes β ("." ++ text) (.token (.punct .dot) :: ps) := by
  intro r qs hr hqs
  have hlexeme : lexeme '.' ([] ++ (text.toList ++ r)) = (.token (.punct .dot), 0) := by
    rw [List.nil_append, htext, List.cons_append]
    show dots (c :: (cs ++ r)) = _
    unfold dots
    split
    · next hdots => exact absurd (List.cons.inj hdots).1 hc
    · next hdots => exact absurd (List.cons.inj hdots).1 hc
    · rfl
  rw [String.toList_append, List.append_assoc]
  exact lexemes_cons_append hlexeme ▸ .token (h r qs hr hqs)

/-- The text of words with dots between them. -/
theorem Writes.words : ∀ ws : List String, (∀ w ∈ ws, isWord w = true) →
    Writes notWord (joinWith "." ws) (separatedBy .dot (ws.map fun w => [.token (wordKind w)]))
  | [], _ => .empty
  | [w], h => by
    have hw := Writes.word (h w (List.mem_singleton.2 rfl))
    rw [joinWith, String.intercalate_singleton]
    exact hw
  | w :: v :: ws, h => by
    obtain ⟨hw, hrest⟩ := List.forall_mem_cons.1 h
    have hwords := Writes.words (v :: ws) hrest
    obtain ⟨hne, hdot⟩ := dot_not_mem (hrest v (List.mem_cons_self ..))
    obtain ⟨c, cs, hv⟩ := List.exists_cons_of_ne_nil hne
    obtain ⟨rest, hjoin⟩ := exists_joinWith_cons "." v ws
    have htext : (joinWith "." (v :: ws)).toList = c :: (cs ++ rest.toList) := by
      rw [hjoin, String.toList_append, hv, List.cons_append]
    have hc : c ≠ '.' := by
      rintro rfl
      exact hdot (hv ▸ List.mem_cons_self ..)
    have hmeets : Meets notWord ("." ++ joinWith "." (v :: ws)) notWord :=
      .of_head (String.toList_append ..) (by decide)
    have hall := (Writes.word hw).append (hwords.dot htext hc) hmeets
    rw [joinWith, String.intercalate_cons_cons, String.append_assoc]
    exact hall

/-- A dotted name. -/
theorem Writes.dotted {name : String} (h : isDotted name = true) :
    Writes notWord name (dotted name) := by
  have hwords := Writes.words (nameWords name) (List.all_eq_true.1 h)
  rwa [joinWith_nameWords] at hwords

end Token

namespace Parser

open Token Literal

variable {docs : Docs} {k : List Piece}

/-! ## Reading names -/

/-- An identifier is read back. -/
theorem Reads.identifier {w : String} (h : (wordKind w).isIdentLike = true) :
    Reads docs Parser.identifier [.token (wordKind w)] w k := by
  refine bind_nil peek ?_
  rw [List.singleton_append, kindAt_token_zero]
  rcases wordKind_cases w with hw | ⟨kw, hw, htext⟩
  · rw [hw]
    exact skip.bind (pure w)
  · rw [hw] at h ⊢
    have hcontextual : kw.contextual = true := h
    simp only [hcontextual]
    rw [← htext]
    exact skip.bind (pure kw.text)

/-- The words after the first one of a dotted name are read up to the first token that is no dot. -/
theorem dottedTail_spells {ws : List String} (hk : kindAt k 0 ≠ .punct .dot) {c : Cursor}
    (hc : c.Spells docs (dottedRest ws ++ k)) :
    ∃ rest, dottedTail c.rest = (String.join (ws.map ("." ++ ·)), rest) ∧
      { c with rest := rest }.Spells (docsAfter docs (dottedRest ws)) k := by
  induction ws generalizing docs c with
  | nil =>
    refine ⟨c.rest, ?_, hc⟩
    have hkind := hc.kindAt_eq 0
    unfold dottedTail
    split
    · next dot word ts hrest =>
      have hdot : dot.kind ≠ .punct .dot := by
        rw [Cursor.kindAt, hrest] at hkind
        exact fun h => hk (hkind.symm.trans h)
      rw [if_neg hdot, ← hrest]
      rfl
    · rfl
  | cons w ws ih =>
    obtain ⟨hkinds, -⟩ := hc.map_kind
    obtain ⟨rest, hrest, hspells⟩ := ih (c := c.next.next) hc.token.2.token.2
    refine ⟨rest, ?_, hspells⟩
    change _ = .punct .dot :: wordKind w :: kinds (dottedRest ws ++ k) at hkinds
    obtain ⟨dot, ts, hts, hdot, hkinds⟩ := List.map_eq_cons_iff.1 hkinds
    obtain ⟨word, ts', rfl, hword, -⟩ := List.map_eq_cons_iff.1 hkinds
    have htail : dottedTail ts' = (String.join (ws.map ("." ++ ·)), rest) := by
      rw [← hrest, Cursor.next, Cursor.next, hts]
      rfl
    have hjoin : String.join ((w :: ws).map ("." ++ ·)) =
        "." ++ w ++ String.join (ws.map ("." ++ ·)) := by
      rw [List.map_cons, String.join_cons]
    rw [hts, dottedTail, if_pos hdot, htail, hword, hjoin]
    rcases wordKind_cases w with hw | ⟨kw, hw, htext⟩
    · rw [hw]
    · rw [hw, ← htext]

/-- The words after the first one of a dotted name are read back where no dot follows. -/
theorem Reads.qualifiedTail {ws : List String} (hk : kindAt k 0 ≠ .punct .dot) :
    Reads docs Parser.qualifiedTail (dottedRest ws) (String.join (ws.map ("." ++ ·))) k := by
  intro c hc
  obtain ⟨rest, htail, hspells⟩ := dottedTail_spells hk hc
  refine ⟨{ c with rest := rest }, ?_, hspells⟩
  show Except.ok ((dottedTail c.rest).1, { c with rest := (dottedTail c.rest).2 }) = _
  rw [htail]

/-- A dotted name is its first word and its tail. -/
theorem dotted_eq {name w : String} {ws : List String} (h : nameWords name = w :: ws) :
    dotted name = .token (wordKind w) :: dottedRest ws ∧
      name = w ++ String.join (ws.map ("." ++ ·)) := by
  constructor
  · rw [dotted, h, List.map_cons, separatedBy, List.flatMap_map]
    rfl
  · rw [← joinWith_nameWords name, h, joinWith_cons]

end Parser

end DeclLayer
