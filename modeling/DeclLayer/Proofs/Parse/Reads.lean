import DeclLayer.Proofs.Parse.Spells

/-!
# What parsers read

`Parser.Reads` says that a parser reads some pieces as a value, in front of certain other pieces.
It follows the structure of the parsers: a chain of parsers reads what its steps read one after the
other (`Reads.bind`), and each of the single steps and loops has a rule of its own.

A parser can look further ahead than it reads, so the pieces that come after belong to the
statement.
-/

namespace DeclLayer.Parser

open Token

variable {α β : Type} {docs : Docs} {p : Parser α} {f : α → Parser β} {ps qs k : List Piece}
  {a : α} {b : β} {kind : Kind}

/-- With comments waiting, a parser reads some pieces as a value if other pieces follow them. -/
def Reads (docs : Docs) (p : Parser α) (ps : List Piece) (a : α) (k : List Piece) : Prop :=
  ∀ c : Cursor, c.Spells docs (ps ++ k) →
    ∃ c', p c = .ok (a, c') ∧ c'.Spells (docsAfter docs ps) k

namespace Reads

/-! ## Chains -/

/-- An answer without reading. -/
theorem pure (a : α) : Reads docs (Pure.pure a) [] a k :=
  fun c hc => ⟨c, rfl, hc⟩

/-- A chain reads what its steps read, one after the other. -/
theorem bind (hp : Reads docs p ps a (qs ++ k)) (hf : Reads (docsAfter docs ps) (f a) qs b k) :
    Reads docs (p >>= f) (ps ++ qs) b k := by
  intro c hc
  rw [List.append_assoc] at hc
  obtain ⟨c₁, h₁, hc₁⟩ := hp c hc
  obtain ⟨c₂, h₂, hc₂⟩ := hf c₁ hc₁
  refine ⟨c₂, ?_, docsAfter_append ▸ hc₂⟩
  show (p c >>= fun x => f x.1 x.2) = _
  rw [h₁]
  exact h₂

/-- A step that reads nothing. -/
theorem bind_nil (hp : Reads docs p [] a (ps ++ k)) (hf : Reads docs (f a) ps b k) :
    Reads docs (p >>= f) ps b k :=
  hp.bind hf

/-- A step that reads one token. -/
theorem bind_token (hp : Reads docs p [.token kind] a (ps ++ k)) (hf : Reads [] (f a) ps b k) :
    Reads docs (p >>= f) (.token kind :: ps) b k :=
  hp.bind hf

/-- A last step that reads nothing. -/
theorem bind_end (hp : Reads docs p ps a k) (hf : Reads (docsAfter docs ps) (f a) [] b k) :
    Reads docs (p >>= f) ps b k := by
  have h : Reads docs (p >>= f) (ps ++ []) b k := hp.bind hf
  rwa [List.append_nil] at h

/-- A chain that ends with a value made from what was read. -/
theorem map {g : α → β} (hp : Reads docs p ps a k) :
    Reads docs (p >>= fun x => Pure.pure (g x)) ps (g a) k :=
  hp.bind_end (pure (g a))

/-- A chain that ends with a value, however that is made from what was read. -/
theorem bind_pure (hp : Reads docs p ps a k) (hf : f a = Pure.pure b) :
    Reads docs (p >>= f) ps b k :=
  hp.bind_end (hf ▸ pure b)

/-- Comments in front wait for the first token. -/
theorem docs_append {more : Docs} (h : Reads (docs ++ more) p ps a k) :
    Reads docs p (more.map .doc ++ ps) a k := by
  intro c hc
  rw [List.append_assoc] at hc
  rw [docsAfter_append, docsAfter_docs]
  exact h c hc.docs_append

/-! ## Single tokens -/

/-- The current kind is that of the first token that follows. -/
theorem peek : Reads docs Parser.peek [] (kindAt k 0) k := by
  intro c hc
  exact ⟨c, congrArg (fun kind => Except.ok (kind, c)) (hc.kindAt_eq 0), hc⟩

/-- The kind ahead is that of a token that follows. -/
theorem peekAt (n : Nat) : Reads docs (Parser.peekAt n) [] (kindAt k n) k := by
  intro c hc
  exact ⟨c, congrArg (fun kind => Except.ok (kind, c)) (hc.kindAt_eq n), hc⟩

/-- There is one turn more than tokens that follow. -/
theorem turns : Reads docs Parser.turns [] ((kinds k).length + 1) k := by
  intro c hc
  exact ⟨c, congrArg (fun n => Except.ok (n + 1, c)) hc.length_rest, hc⟩

/-- Whether the current token is of a kind is told by the first one that follows. -/
theorem check (kind : Kind) : Reads docs (Parser.check kind) [] (kindAt k 0 == kind) k :=
  bind_nil peek (pure _)

/-- A token of another kind follows. -/
theorem check_other (h : kindAt k 0 ≠ kind) : Reads docs (Parser.check kind) [] false k :=
  beq_eq_false_iff_ne.2 h ▸ check kind

/-- Whether a list is over is told by the first token that follows. -/
theorem atEnd (close : Punct) : Reads docs (Parser.atEnd close) []
    (kindAt k 0 == .punct close || kindAt k 0 == .eof) k :=
  bind_nil peek (pure _)

/-- The comments that wait are those of the next token, or of the end. -/
theorem docs_token : Reads docs Parser.docs [] docs (.token kind :: k) := by
  intro c hc
  exact ⟨c, congrArg (fun d => Except.ok (d, c)) hc.token.1, hc⟩

/-- Passing a token reads it. -/
theorem skip : Reads docs Parser.skip [.token kind] () k :=
  fun c hc => ⟨c.next, rfl, hc.token.2⟩

/-- A token of the kind is passed. -/
theorem accept : Reads docs (Parser.accept kind) [.token kind] true k := by
  refine bind_nil (check kind) ?_
  rw [List.singleton_append, kindAt_token_zero, beq_self_eq_true]
  exact skip.bind (pure true)

/-- A token of another kind stays ahead. -/
theorem accept_other (h : kindAt k 0 ≠ kind) : Reads docs (Parser.accept kind) [] false k := by
  refine bind_nil (check kind) ?_
  rw [List.nil_append, beq_eq_false_iff_ne.2 h]
  exact pure false

/-- An expected token is passed. -/
theorem expect : Reads docs (Parser.expect kind) [.token kind] () k := by
  refine bind_nil peek ?_
  rw [List.singleton_append, kindAt_token_zero, beq_self_eq_true]
  exact skip

/-! ## Choices -/

/-- An attempt reads what its parser reads. -/
theorem attempt (h : Reads docs p ps a k) : Reads docs (Parser.attempt p) ps (some a) k := by
  intro c hc
  obtain ⟨c', hp, hc'⟩ := h c hc
  refine ⟨c', ?_, hc'⟩
  rw [Parser.attempt, hp]

/-- A token and what follows it are read. -/
theorem after (h : Reads [] p ps a k) :
    Reads docs (Parser.after kind p) (.token kind :: ps) (some a) k :=
  bind_token accept h.map

/-- Without the token nothing is read. -/
theorem after_other (h : kindAt k 0 ≠ kind) : Reads docs (Parser.after kind p) [] none k :=
  bind_nil (accept_other h) (pure none)

/-- A piece that may be missing, after its token. -/
theorem after_option {x : Option α} {pieces : α → List Piece}
    (hsome : ∀ a, x = some a → Reads [] p (pieces a) a k) (hnone : x = none → kindAt k 0 ≠ kind) :
    Reads docs (Parser.after kind p) ((x.map fun a => .token kind :: pieces a).getD []) x k := by
  cases x with
  | none => exact after_other (hnone rfl)
  | some a => exact after (hsome a rfl)

/-- A mark that may be missing. -/
theorem accept_if {present : Bool} (h : present = false → kindAt k 0 ≠ kind) :
    Reads docs (Parser.accept kind) (if present then [.token kind] else []) present k := by
  cases present with
  | true => exact accept
  | false => exact accept_other (h rfl)

/-! ## Loops -/

/-- The turns of a loop over pieces that hold a token each are enough. -/
theorem length_lt_turns {xs : List α} {pieces : α → List Piece}
    (h : ∀ x ∈ xs, kinds (pieces x) ≠ []) :
    xs.length < (kinds (xs.flatMap pieces ++ k)).length + 1 := by
  induction xs with
  | nil => exact Nat.succ_pos _
  | cons x xs ih =>
    obtain ⟨hx, hxs⟩ := List.forall_mem_cons.1 h
    have hpos := List.length_pos_iff.2 hx
    have hih := ih hxs
    simp only [List.flatMap_cons, kinds_append, List.length_append, List.length_cons] at hih ⊢
    omega

/-- With separators between them, there are at most as many elements as tokens, and one more. -/
theorem length_le_separatedBy (separator : Punct) (pieces : α → List Piece) (xs : List α) :
    xs.length ≤ (kinds (separatedBy separator (xs.map pieces))).length + 1 := by
  cases xs with
  | nil => exact Nat.zero_le _
  | cons x xs =>
    have hlength : xs.length <
        (kinds ((xs.flatMap fun x => .token (.punct separator) :: pieces x) ++ [])).length + 1 :=
      length_lt_turns fun x _ => List.cons_ne_nil _ _
    rw [List.map_cons, separatedBy, List.flatMap_map]
    simp only [kinds_append, List.length_append, List.length_cons, kinds_nil, List.length_nil]
      at hlength ⊢
    omega

/-- A loop over pieces that are read one by one. `C` is what a piece asks of the pieces after it. -/
theorem manyFor {isOver : Parser Bool} {piece : Parser (List α)} {pieces : α → List Piece}
    {C : List Piece → Prop} (hover : Reads [] isOver [] true k) (hk : C k) :
    ∀ (xs : List α) (n : Nat), xs.length < n →
      (∀ x ∈ xs, ∀ k, C k → Reads [] isOver [] false (pieces x ++ k) ∧
        Reads [] piece (pieces x) [x] k ∧ docsAfter [] (pieces x) = [] ∧ C (pieces x ++ k)) →
      Reads [] (Parser.manyFor isOver piece n) (xs.flatMap pieces) xs k ∧
        C (xs.flatMap pieces ++ k) := by
  intro xs
  induction xs with
  | nil =>
    intro n hn _
    obtain ⟨n, rfl⟩ := Nat.exists_eq_succ_of_ne_zero (Nat.ne_of_gt hn)
    exact ⟨bind_nil hover (pure []), hk⟩
  | cons x xs ih =>
    intro n hn h
    obtain ⟨n, rfl⟩ := Nat.exists_eq_succ_of_ne_zero (Nat.ne_of_gt (Nat.zero_lt_of_lt hn))
    obtain ⟨hx, hxs⟩ := List.forall_mem_cons.1 h
    obtain ⟨hothers, hrest⟩ := ih n (Nat.lt_of_succ_lt_succ hn) hxs
    obtain ⟨hmore, hpiece, hdocs, hall⟩ := hx _ hrest
    rw [List.flatMap_cons, List.append_assoc]
    refine ⟨?_, hall⟩
    refine bind_nil (List.append_assoc _ _ _ ▸ hmore) ?_
    refine bind hpiece ?_
    rw [hdocs]
    exact hothers.map

/-- Pieces are read until the list is over, as long as each of them shows that it is not. The
condition on what follows is carried from the last piece to the first. -/
theorem many {isOver : Parser Bool} {piece : Parser (List α)} {pieces : α → List Piece}
    {C : List Piece → Prop} {xs : List α} (hover : Reads [] isOver [] true k) (hk : C k)
    (hpos : ∀ x ∈ xs, kinds (pieces x) ≠ [])
    (h : ∀ x ∈ xs, ∀ k, C k → Reads [] isOver [] false (pieces x ++ k) ∧
      Reads [] piece (pieces x) [x] k ∧ docsAfter [] (pieces x) = [] ∧ C (pieces x ++ k)) :
    Reads [] (Parser.many isOver piece) (xs.flatMap pieces) xs k :=
  bind_nil turns (manyFor hover hk xs _ (length_lt_turns hpos) h).1

/-- A loop up to a closing mark, over pieces that begin neither with the mark nor with the end. -/
theorem manyUntil {close : Punct} {piece : Parser (List α)} {pieces : α → List Piece}
    {C : List Piece → Prop} {xs : List α} (hk : C (.token (.punct close) :: k))
    (hstart : ∀ x ∈ xs, ∀ k,
      kindAt (pieces x ++ k) 0 ≠ .punct close ∧ kindAt (pieces x ++ k) 0 ≠ .eof)
    (h : ∀ x ∈ xs, ∀ k, C k →
      Reads [] piece (pieces x) [x] k ∧ docsAfter [] (pieces x) = [] ∧ C (pieces x ++ k)) :
    Reads [] (Parser.many (Parser.atEnd close) piece) (xs.flatMap pieces) xs
      (.token (.punct close) :: k) := by
  have hover : Reads [] (Parser.atEnd close) [] true (.token (.punct close) :: k) := by
    have hend := (atEnd close : Reads [] _ _ _ (.token (.punct close) :: k))
    rwa [kindAt_token_zero, beq_self_eq_true, Bool.true_or] at hend
  refine many hover hk (fun x hx hnil => ?_) fun x hx k hk => ⟨?_, h x hx k hk⟩
  · have hne := (hstart x hx []).2
    rw [List.append_nil, kindAt, hnil] at hne
    exact hne rfl
  · have hmore := (atEnd close : Reads [] _ _ _ (pieces x ++ k))
    rwa [beq_eq_false_iff_ne.2 (hstart x hx k).1, beq_eq_false_iff_ne.2 (hstart x hx k).2,
      Bool.or_false] at hmore

/-- Further elements with separators in front of them, for any number of turns above their number.
-/
theorem moreFor {separator : Punct} {element : Parser α} {pieces : α → List Piece}
    (hk : kindAt k 0 ≠ .punct separator) :
    ∀ (xs : List α) (n : Nat) (docs : Docs), xs.length < n →
      (∀ x ∈ xs.dropLast, ∀ docs k,
        Reads docs element (pieces x) x (.token (.punct separator) :: k)) →
      (∀ x ∈ xs.getLast?, ∀ docs, Reads docs element (pieces x) x k) →
      Reads docs (Parser.moreFor separator element n)
        (xs.flatMap fun x => .token (.punct separator) :: pieces x) xs k := by
  intro xs
  induction xs with
  | nil =>
    intro n docs hn _ _
    obtain ⟨n, rfl⟩ := Nat.exists_eq_succ_of_ne_zero (Nat.ne_of_gt hn)
    exact bind_nil (accept_other hk) (pure [])
  | cons x xs ih =>
    intro n docs hn hinit hlast
    obtain ⟨n, rfl⟩ := Nat.exists_eq_succ_of_ne_zero (Nat.ne_of_gt (Nat.zero_lt_of_lt hn))
    have hn' := Nat.lt_of_succ_lt_succ hn
    refine bind_token accept ?_
    cases xs with
    | nil => exact bind (hlast x rfl []) (ih n _ hn' nofun nofun).map
    | cons y ys =>
      obtain ⟨hx, hxs⟩ := List.forall_mem_cons.1 hinit
      exact bind (hx [] _) (ih n _ hn' hxs hlast).map

/-- Further elements with separators in front of them. -/
theorem more {separator : Punct} {element : Parser α} {pieces : α → List Piece} {xs : List α}
    (hk : kindAt k 0 ≠ .punct separator)
    (hinit : ∀ x ∈ xs.dropLast, ∀ docs k,
      Reads docs element (pieces x) x (.token (.punct separator) :: k))
    (hlast : ∀ x ∈ xs.getLast?, ∀ docs, Reads docs element (pieces x) x k) :
    Reads docs (Parser.more separator element)
      (xs.flatMap fun x => .token (.punct separator) :: pieces x) xs k := by
  have hturns : xs.length <
      (kinds ((xs.flatMap fun x => .token (.punct separator) :: pieces x) ++ k)).length + 1 :=
    length_lt_turns fun x _ => List.cons_ne_nil _ _
  exact bind_nil turns (moreFor hk xs _ docs hturns hinit hlast)

/-- One or more elements with separators between them. All but the last one are read in front of a
separator. -/
theorem separated {separator : Punct} {element : Parser α} {pieces : α → List Piece} {xs : List α}
    (hne : xs ≠ []) (hk : kindAt k 0 ≠ .punct separator)
    (hinit : ∀ x ∈ xs.dropLast, ∀ docs k,
      Reads docs element (pieces x) x (.token (.punct separator) :: k))
    (hlast : ∀ x ∈ xs.getLast?, ∀ docs, Reads docs element (pieces x) x k) :
    Reads docs (Parser.separated separator element) (separatedBy separator (xs.map pieces))
      xs k := by
  obtain ⟨x, xs, rfl⟩ := List.exists_cons_of_ne_nil hne
  rw [List.map_cons, separatedBy, List.flatMap_map]
  cases xs with
  | nil => exact bind (hlast x rfl docs) (more hk nofun nofun).map
  | cons y ys =>
    obtain ⟨hx, hxs⟩ := List.forall_mem_cons.1 hinit
    exact bind (hx docs _) (more hk hxs hlast).map

/-- Elements with commas between them, up to a closing mark. -/
theorem listFor {close : Punct} (hclose : close ≠ .comma) {element : Parser α}
    {pieces : α → List Piece} {k : List Piece} :
    ∀ (xs : List α) (n : Nat), xs.length < n →
      (∀ x ∈ xs, ∀ k, (kindAt k 0 = .punct .comma ∨ kindAt k 0 = .punct close) →
        Reads [] element (pieces x) x k) →
      (∀ x ∈ xs, ∀ k, kindAt (pieces x ++ k) 0 ≠ .punct close ∧ kindAt (pieces x ++ k) 0 ≠ .eof) →
      Reads [] (Parser.listFor close element n) (separatedBy .comma (xs.map pieces)) xs
        (.token (.punct close) :: k) := by
  intro xs
  induction xs with
  | nil =>
    intro n hn _ _
    obtain ⟨n, rfl⟩ := Nat.exists_eq_succ_of_ne_zero (Nat.ne_of_gt hn)
    refine bind_nil (atEnd close) ?_
    rw [List.map_nil, separatedBy, List.nil_append, kindAt_token_zero, beq_self_eq_true]
    exact pure []
  | cons x xs ih =>
    intro n hn h hstart
    obtain ⟨n, rfl⟩ := Nat.exists_eq_succ_of_ne_zero (Nat.ne_of_gt (Nat.zero_lt_of_lt hn))
    obtain ⟨hx, hxs⟩ := List.forall_mem_cons.1 h
    obtain ⟨hstartx, hstartxs⟩ := List.forall_mem_cons.1 hstart
    refine bind_nil (atEnd close) ?_
    have hgo : (kindAt (separatedBy .comma ((x :: xs).map pieces) ++
        .token (.punct close) :: k) 0 == .punct close ||
        kindAt (separatedBy .comma ((x :: xs).map pieces) ++
        .token (.punct close) :: k) 0 == .eof) = false := by
      rw [List.map_cons, separatedBy, List.append_assoc, Bool.or_eq_false_iff]
      exact ⟨beq_eq_false_iff_ne.2 (hstartx _).1, beq_eq_false_iff_ne.2 (hstartx _).2⟩
    rw [hgo]
    cases xs with
    | nil =>
      have hlast := hx (.token (.punct close) :: k) (.inr rfl)
      have hcomma : kindAt (.token (.punct close) :: k) 0 ≠ .punct .comma := by
        rw [kindAt_token_zero]
        exact fun h => hclose (Kind.punct.inj h)
      have hend := bind (f := fun first => acceptMark .comma >>= fun more =>
        if more = true then Parser.listFor close element n >>= fun others =>
          Pure.pure (first :: others)
        else Pure.pure [first]) hlast (bind_nil (accept_other hcomma) (pure [x]))
      exact hend
    | cons y ys =>
      rw [List.map_cons, separatedBy]
      refine bind (hx _ (.inl rfl)) ?_
      refine bind_token accept ?_
      exact (ih n (Nat.lt_of_succ_lt_succ hn) hxs hstartxs).map

/-- Elements with commas between them up to the closing mark. None of them begins with the mark. -/
theorem list (close : Punct) (hclose : close ≠ .comma) {element : Parser α}
    {pieces : α → List Piece} {k : List Piece} {xs : List α}
    (h : ∀ x ∈ xs, ∀ k, (kindAt k 0 = .punct .comma ∨ kindAt k 0 = .punct close) →
      Reads [] element (pieces x) x k)
    (hstart : ∀ x ∈ xs, ∀ k,
      kindAt (pieces x ++ k) 0 ≠ .punct close ∧ kindAt (pieces x ++ k) 0 ≠ .eof) :
    Reads [] (Parser.list close element) (separatedBy .comma (xs.map pieces)) xs
      (.token (.punct close) :: k) := by
  refine bind_nil turns (listFor hclose xs _ ?_ h hstart)
  have hlength := length_le_separatedBy .comma pieces xs
  simp only [kinds_append, List.length_append, kinds_token, List.length_cons]
  omega

end Reads

end DeclLayer.Parser
