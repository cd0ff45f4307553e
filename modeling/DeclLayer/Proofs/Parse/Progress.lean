import DeclLayer.Parse.Item
import DeclLayer.Proofs.Parse.Spells

/-!
# Parsers move forward

A parser answers a place that is not before the one it began at (`Cursor.Passes`), and it does not
run out of turns. Both are said together by `Parser.Agrees`, and of two parsers at once: from all
places with few enough tokens ahead they give the same result, which is a later place or an error
other than `tooDeep`. Said of a parser and itself this is about one parser. Said of two parsers that
differ in the number of turns they are allowed, it says that the number does not matter.

The statement follows the structure of the parsers. In a chain, each step begins with the tokens
that are left by the steps before it (`Agrees.bind_exact`), so fewer tokens are ahead once a step
has passed one (`Agrees.step`). A loop with one turn more than there are tokens ahead therefore
comes to its end (`Agrees.manyFor`, `Agrees.listFor`, `Agrees.moreFor`).
-/

namespace DeclLayer

/-- A place in the same tokens, at least `k` tokens later. -/
structure Cursor.Passes (c : Cursor) (k : Nat) (c' : Cursor) : Prop where
  source_eq : c'.source = c.source
  last_eq : c'.last = c.last
  suffix : c'.rest <:+ c.rest
  length_le : c'.rest.length + k ≤ c.rest.length

namespace Cursor

variable {c c₁ c₂ : Cursor} {j k : Nat}

/-- A place passes no token to come to itself. -/
theorem Passes.refl (c : Cursor) : c.Passes 0 c :=
  ⟨rfl, rfl, List.suffix_rfl, Nat.le_refl _⟩

/-- Passing tokens in two steps. -/
theorem Passes.trans (h₁ : c.Passes j c₁) (h₂ : c₁.Passes k c₂) : c.Passes (j + k) c₂ where
  source_eq := h₂.source_eq.trans h₁.source_eq
  last_eq := h₂.last_eq.trans h₁.last_eq
  suffix := h₂.suffix.trans h₁.suffix
  length_le := by
    have h₁ := h₁.length_le
    have h₂ := h₂.length_le
    omega

/-- Passing some tokens is passing fewer. -/
theorem Passes.mono (h : c.Passes k c₁) (hjk : j ≤ k) : c.Passes j c₁ :=
  ⟨h.source_eq, h.last_eq, h.suffix, by have := h.length_le; omega⟩

/-- The next place. -/
theorem passes_next (hk : k ≤ c.rest.length) (h : k ≤ 1) : c.Passes k c.next :=
  ⟨rfl, rfl, List.tail_suffix _, by rw [next, List.length_tail]; omega⟩

/-- Tokens are ahead if the current one is not that of the end. -/
theorem length_pos_of_kindAt (hc : c.last.kind = .eof) (h : c.kindAt 0 ≠ .eof) :
    1 ≤ c.rest.length := by
  rw [kindAt] at h
  cases hrest : c.rest with
  | nil => rw [hrest] at h; exact absurd hc h
  | cons t ts => exact Nat.succ_le_succ (Nat.zero_le _)

/-- The first place of a source has the token of the end behind its tokens. -/
theorem start_last (source : String) : (Cursor.start source).last.kind = .eof := by
  have hkinds := Token.map_kind_locate 0 [] (Token.lexemes source.toList)
  have hlast := congrArg List.getLast? hkinds
  rw [List.getLast?_map, List.getLast?_concat] at hlast
  rw [start, Token.scan]
  cases h : (Token.locate 0 [] (Token.lexemes source.toList)).getLast? with
  | none => rw [h] at hlast; cases hlast
  | some token => rw [h] at hlast; exact Option.some.inj hlast

end Cursor

namespace Parser

variable {α β : Type} {l n N m k t t' : Nat} {p q : Parser α} {f g : α → Parser β} {kind : Kind}

/-- What a parser gives from a place: a place at least `m` tokens later, or an error that is not
about the number of turns. -/
def Reaches (c : Cursor) (m : Nat) : Except SyntaxError (α × Cursor) → Prop
  | .ok (_, c') => c.Passes m c'
  | .error e => e.cause ≠ .tooDeep

/-- From every place with at least `l` and fewer than `n` tokens ahead, two parsers give the same,
and pass at least `m` tokens. -/
def Agrees (l n m : Nat) (p q : Parser α) : Prop :=
  ∀ c : Cursor, c.last.kind = .eof → l ≤ c.rest.length → c.rest.length < n →
    p c = q c ∧ Reaches c m (p c)

/-- What is reached after some tokens is reached after fewer. -/
theorem Reaches.mono {c : Cursor} {r : Except SyntaxError (α × Cursor)} (h : Reaches c m r)
    (hk : k ≤ m) : Reaches c k r := by
  cases r with
  | error e => exact h
  | ok r => exact Cursor.Passes.mono h hk

/-- What is reached from a later place. -/
theorem Reaches.from_later {c c' : Cursor} {j : Nat} {r : Except SyntaxError (α × Cursor)}
    (h : Reaches c' k r) (hc : c.Passes j c') (hm : m ≤ j + k) : Reaches c m r := by
  cases r with
  | error e => exact h
  | ok r => exact (hc.trans h).mono hm

namespace Agrees

/-! ## Chains -/

/-- Fewer places to begin at. -/
theorem mono (h : Agrees k n m p q) (hl : k ≤ l) (hN : N ≤ n) : Agrees l N m p q :=
  fun c hc hl' hn => h c hc (Nat.le_trans hl hl') (Nat.lt_of_lt_of_le hn hN)

/-- With one token less ahead, the same still holds. -/
theorem less (h : Agrees l (n + 1) m p q) : Agrees l n m p q :=
  h.mono (Nat.le_refl l) (Nat.le_succ n)

/-- Without a condition on the tokens ahead, any condition on them may be asked. -/
theorem anywhere (h : Agrees 0 n m p q) : Agrees l n m p q :=
  h.mono (Nat.zero_le l) (Nat.le_refl n)

/-- Passing some tokens is passing at least fewer. -/
theorem atLeast (h : Agrees l n m p q) (hk : k ≤ m) : Agrees l n k p q :=
  fun c hc hl hn => ⟨(h c hc hl hn).1, (h c hc hl hn).2.mono hk⟩

/-- Passing some tokens is passing none at least. -/
theorem weaken (h : Agrees l n m p q) : Agrees l n 0 p q :=
  h.atLeast (Nat.zero_le m)

/-- There is no place with fewer than no tokens ahead. -/
theorem nowhere (hn : n = 0) : Agrees l n m p q :=
  fun _ _ _ h => absurd h (by omega)

/-- An answer without reading passes nothing. -/
theorem pure {a : α} : Agrees l n 0 (Pure.pure a) (Pure.pure a) :=
  fun c _ _ _ => ⟨rfl, Cursor.Passes.refl c⟩

/-- A failure passes whatever is asked, as long as it is not about the number of turns. -/
theorem fail {cause : SyntaxCause} (h : cause ≠ .tooDeep) :
    Agrees l n m (fail (α := α) cause) (Parser.fail cause) :=
  fun _ _ _ _ => ⟨rfl, h⟩

/-- A step that passes `k` tokens or more, and then a step from the tokens that are left. -/
theorem bind_exact (hp : Agrees l n k p q)
    (hf : ∀ a j, k ≤ j → Agrees (l - j) (n - j) (m - j) (f a) (g a)) :
    Agrees l n m (p >>= f) (q >>= g) := by
  intro c hc hl hn
  obtain ⟨heq, hreaches⟩ := hp c hc hl hn
  show (p c >>= fun x => f x.1 x.2) = (q c >>= fun x => g x.1 x.2) ∧
    Reaches c m (p c >>= fun x => f x.1 x.2)
  rw [← heq]
  cases hpc : p c with
  | error e =>
    rw [hpc] at hreaches
    exact ⟨rfl, hreaches⟩
  | ok r =>
    obtain ⟨a, c'⟩ := r
    rw [hpc] at hreaches
    have hpasses : c.Passes k c' := hreaches
    have hlength := hpasses.length_le
    have hexact : c.Passes (c.rest.length - c'.rest.length) c' :=
      ⟨hpasses.source_eq, hpasses.last_eq, hpasses.suffix, by omega⟩
    obtain ⟨heq', hreaches'⟩ := hf a (c.rest.length - c'.rest.length) (by omega) c'
      (hpasses.last_eq ▸ hc) (by omega) (by omega)
    refine ⟨heq', ?_⟩
    show Reaches c m (f a c')
    exact hreaches'.from_later hexact (by omega)

/-- A chain in which the second step has to pass the tokens. -/
theorem bind (hp : Agrees l n k p q) (hf : ∀ a, Agrees 0 n m (f a) (g a)) :
    Agrees l n m (p >>= f) (q >>= g) :=
  hp.bind_exact fun a j _ => fun c hc _ hn =>
    have h := hf a c hc (Nat.zero_le _) (Nat.lt_of_lt_of_le hn (Nat.sub_le n j))
    ⟨h.1, h.2.mono (Nat.sub_le m j)⟩

/-- A chain in which the first step passes the tokens. -/
theorem pass (hp : Agrees l n m p q) (hf : ∀ a, Agrees 0 n 0 (f a) (g a)) :
    Agrees l n m (p >>= f) (q >>= g) :=
  hp.bind_exact fun a j hj => by
    rw [Nat.sub_eq_zero_of_le hj]
    exact (hf a).mono (Nat.zero_le _) (Nat.sub_le n j)

/-- A chain in which the first step passes a token, and the second step has fewer ahead. -/
theorem step (hp : Agrees l (n + 1) 1 p q) (hf : ∀ a, Agrees 0 n 0 (f a) (g a)) :
    Agrees l (n + 1) 1 (p >>= f) (q >>= g) :=
  hp.bind_exact fun a j hj => by
    rw [Nat.sub_eq_zero_of_le hj]
    exact (hf a).mono (Nat.zero_le _) (by omega)

/-- A chain in which either step may pass the tokens, of which there are enough. -/
theorem carry (hp : Agrees m n k p q) (hf : ∀ a i, i ≤ m → Agrees i n i (f a) (g a)) :
    Agrees m n m (p >>= f) (q >>= g) :=
  hp.bind_exact fun a j _ => (hf a (m - j) (Nat.sub_le m j)).mono (Nat.le_refl _) (Nat.sub_le n j)

/-- The answer of a parser may be dropped. -/
theorem discard (h : Agrees l n m p q) : Agrees l n m (discard p) (Functor.discard q) :=
  h.pass fun _ => .pure

/-- A choice between parsers, each of which may use what the choice was made by. -/
theorem choice {P : Prop} [Decidable P] {p' q' : Parser α} (h : P → Agrees l n m p q)
    (h' : ¬P → Agrees l n m p' q') : Agrees l n m (if P then p else p') (if P then q else q') := by
  split
  · next hP => exact h hP
  · next hP => exact h' hP

/-- A choice between parsers. -/
theorem ite {P : Prop} [Decidable P] {p' q' : Parser α} (h : Agrees l n m p q)
    (h' : Agrees l n m p' q') : Agrees l n m (if P then p else p') (if P then q else q') :=
  .choice (fun _ => h) fun _ => h'

/-! ## Steps that pass nothing -/

/-- A parser that only looks at what is ahead. -/
def Looks (p : Parser α) : Prop := ∀ c, ∃ a, p c = .ok (a, c)

/-- Looking ahead does not move the place. -/
theorem looks_peekAt (i : Nat) : Looks (peekAt i) := fun c => ⟨c.kindAt i, rfl⟩

/-- Checking the token ahead does not move the place. -/
theorem looks_check (kind : Kind) : Looks (check kind) := fun c => ⟨c.kindAt 0 == kind, rfl⟩

/-- Taking the comments ahead does not move the place. -/
theorem looks_docs : Looks Parser.docs := fun c => ⟨c.current.docs, rfl⟩

/-- An answer without reading does not move the place. -/
theorem looks_pure (a : α) : Looks (Pure.pure a : Parser α) := fun _ => ⟨a, rfl⟩

/-- Looking twice does not move the place. -/
theorem looks_bind (hp : Looks p) (hf : ∀ a, Looks (f a)) : Looks (p >>= f) := by
  intro c
  obtain ⟨a, ha⟩ := hp c
  obtain ⟨b, hb⟩ := hf a c
  refine ⟨b, ?_⟩
  show (p c >>= fun x => f x.1 x.2) = _
  rw [ha]
  exact hb

/-- A choice between two looks does not move the place. -/
theorem looks_ite {P : Prop} [Decidable P] (hp : Looks p) (hq : Looks q) :
    Looks (if P then p else q) := by
  split
  · exact hp
  · exact hq

/-- After a look the rest of a chain begins at the same place. -/
theorem look (hp : Looks p) (hf : ∀ a, Agrees l n m (f a) (g a)) :
    Agrees l n m (p >>= f) (p >>= g) := by
  intro c hc hl hn
  obtain ⟨a, ha⟩ := hp c
  show (p c >>= fun x => f x.1 x.2) = (p c >>= fun x => g x.1 x.2) ∧
    Reaches c m (p c >>= fun x => f x.1 x.2)
  rw [ha]
  exact hf a c hc hl hn

/-- After a look at the current token, tokens are ahead unless it is the end. -/
theorem peek {f g : Kind → Parser β}
    (hf : ∀ kind i, l ≤ i → (kind ≠ .eof → 1 ≤ i) → Agrees i n m (f kind) (g kind)) :
    Agrees l n m (Parser.peek >>= f) (Parser.peek >>= g) := by
  intro c hc hl hn
  exact hf (c.kindAt 0) c.rest.length hl (Cursor.length_pos_of_kindAt hc) c hc (Nat.le_refl _) hn

/-- Tokens are ahead if the current one is found to be of a kind. -/
theorem checked {f g : Bool → Parser β} (hkind : kind ≠ .eof)
    (hf : ∀ b i, l ≤ i → (b = true → 1 ≤ i) → Agrees i n m (f b) (g b)) :
    Agrees l n m (check kind >>= f) (check kind >>= g) := by
  intro c hc hl hn
  refine hf (c.kindAt 0 == kind) c.rest.length hl (fun h => ?_) c hc (Nat.le_refl _) hn
  exact Cursor.length_pos_of_kindAt hc (beq_iff_eq.1 h ▸ hkind)

/-- The number of turns is one more than there are tokens ahead. -/
theorem turns {f g : Nat → Parser β} (hf : ∀ t, t ≤ n → Agrees l t m (f t) (g t)) :
    Agrees l n m (Parser.turns >>= f) (Parser.turns >>= g) := by
  intro c hc hl hn
  exact hf (c.rest.length + 1) hn c hc hl (Nat.lt_succ_self _)

/-- A chain that begins with a loop. -/
theorem loop {P Q : Nat → Parser α} (hp : ∀ t, t ≤ n → Agrees l t k (P t) (Q t))
    (hf : ∀ a, Agrees 0 n m (f a) (g a)) :
    Agrees l n m (Parser.turns >>= fun t => P t >>= f) (Parser.turns >>= fun t => Q t >>= g) :=
  .turns fun t ht => .bind (hp t ht) fun a => (hf a).mono (Nat.le_refl 0) ht

/-- A loop whose turns are counted from the tokens ahead, with a chain behind it that begins where
the loop ends. -/
theorem carry_loop {P Q : Nat → Parser α} (hp : ∀ t, t ≤ n → Agrees m t k (P t) (Q t))
    (hf : ∀ a i, i ≤ m → Agrees i n i (f a) (g a)) :
    Agrees m n m (Parser.turns >>= fun t => P t >>= f) (Parser.turns >>= fun t => Q t >>= g) :=
  .turns fun t ht => .carry (hp t ht) fun a i hi => (hf a i hi).mono (Nat.le_refl i) ht

/-! ## Single tokens -/

/-- Skipping a token that is there passes it. -/
theorem skip (hl : 1 ≤ l) : Agrees l n 1 Parser.skip Parser.skip :=
  fun _ _ hl' _ => ⟨rfl, Cursor.passes_next (Nat.le_trans hl hl') (Nat.le_refl 1)⟩

/-- At the end nothing is passed. -/
theorem skip_any (hm : m ≤ 1) : Agrees m n m Parser.skip Parser.skip :=
  fun _ _ hl _ => ⟨rfl, Cursor.passes_next hl hm⟩

/-- Skipping passes nothing if it is done at the end. -/
theorem skip_maybe : Agrees l n 0 Parser.skip Parser.skip :=
  (skip_any (Nat.zero_le 1)).anywhere

/-- Reading a token that has to be there passes it. -/
theorem expect (hkind : kind ≠ .eof) : Agrees l n 1 (expect kind) (Parser.expect kind) := by
  refine .peek fun found i _ hi => ?_
  by_cases h : (found == kind) = true
  · rw [if_pos h]
    exact .skip (hi (beq_iff_eq.1 h ▸ hkind))
  · rw [if_neg h]
    exact .fail (by simp)

/-- Reading a mark that has to be there passes it. -/
theorem expectMark (mark : Punct) : Agrees l n 1 (expectMark mark) (Parser.expectMark mark) :=
  .expect (by simp)

/-- Reading a keyword that has to be there passes it. -/
theorem expectKeyword (word : Keyword) :
    Agrees l n 1 (expectKeyword word) (Parser.expectKeyword word) :=
  .expect (by simp)

/-- What accepting a token answers, and where it goes on: past the token if it is the one asked for.
-/
theorem accept_eq (kind : Kind) (c : Cursor) :
    accept kind c = .ok (c.kindAt 0 == kind, if c.kindAt 0 == kind then c.next else c) := by
  show (if (c.kindAt 0 == kind) = true then _ else _ : Parser Bool) c = _
  cases c.kindAt 0 == kind <;> rfl

/-- A token of a kind is passed, or nothing. -/
theorem bind_accept {f g : Bool → Parser β} (hkind : kind ≠ .eof)
    (htrue : Agrees 0 (n - 1) (m - 1) (f true) (g true))
    (hfalse : Agrees l n m (f false) (g false)) :
    Agrees l n m (accept kind >>= f) (accept kind >>= g) := by
  intro c hc hl hn
  show (accept kind c >>= fun x => f x.1 x.2) = (accept kind c >>= fun x => g x.1 x.2) ∧
    Reaches c m (accept kind c >>= fun x => f x.1 x.2)
  rw [accept_eq]
  cases hfound : c.kindAt 0 == kind with
  | false => exact hfalse c hc hl hn
  | true =>
    have hlength := Cursor.length_pos_of_kindAt hc (beq_iff_eq.1 hfound ▸ hkind)
    have hnext : c.next.rest.length = c.rest.length - 1 := List.length_tail
    obtain ⟨heq, hreaches⟩ := htrue c.next hc (Nat.zero_le _) (by omega)
    refine ⟨heq, ?_⟩
    show Reaches c m (f true c.next)
    exact hreaches.from_later (Cursor.passes_next hlength (Nat.le_refl 1)) (by omega)

/-- A choice by whether a token of a kind is passed. -/
theorem accept_if {p' q' : Parser α} (hkind : kind ≠ .eof) (h : Agrees 0 n 0 p q)
    (h' : Agrees l (n + 1) 0 p' q') :
    Agrees l (n + 1) 0 (accept kind >>= fun b => if b = true then p else p')
      (accept kind >>= fun b => if b = true then q else q') :=
  .bind_accept hkind h h'

/-- Accepting a mark passes nothing if the mark is not there. -/
theorem acceptMark (mark : Punct) : Agrees l n 0 (acceptMark mark) (Parser.acceptMark mark) := by
  rw [← bind_pure (Parser.acceptMark mark)]
  exact bind_accept (by simp) .pure .pure

/-- Accepting a mark whether or not it is there. -/
theorem discard_acceptMark (mark : Punct) :
    Agrees l n 0 (Functor.discard (Parser.acceptMark mark))
      (Functor.discard (Parser.acceptMark mark)) :=
  (acceptMark mark).discard

/-! ## Choices and loops -/

/-- An attempt that fails leaves the place as it was. -/
theorem attempt_error {f : Option α → Parser β} {c : Cursor} {e : SyntaxError}
    (h : p c = .error e) : (attempt p >>= f) c = f none c := by
  show (attempt p c >>= fun x => f x.1 x.2) = _
  rw [attempt, h]
  rfl

/-- An attempt that succeeds goes on where it ended. -/
theorem attempt_ok {f : Option α → Parser β} {c c' : Cursor} {a : α} (h : p c = .ok (a, c')) :
    (attempt p >>= f) c = f (some a) c' := by
  show (attempt p c >>= fun x => f x.1 x.2) = _
  rw [attempt, h]
  rfl

/-- A value and then a step with fewer tokens ahead, or a step from the same place. -/
theorem bind_attempt {f g : Option α → Parser β} (hp : Agrees l (n + 1) 1 p q)
    (hsome : ∀ a, Agrees 0 n 0 (f (some a)) (g (some a)))
    (hnone : Agrees l (n + 1) m (f none) (g none)) (hm : m ≤ 1) :
    Agrees l (n + 1) m (attempt p >>= f) (attempt q >>= g) := by
  intro c hc hl hn
  have heq := (hp c hc hl hn).1
  cases hpc : p c with
  | error e =>
    rw [attempt_error hpc, attempt_error (heq ▸ hpc)]
    exact hnone c hc hl hn
  | ok r =>
    have hvalue : Agrees l (n + 1) 1 (p >>= fun a => f (some a)) (q >>= fun a => g (some a)) :=
      hp.step hsome
    have hbind (h : α → Parser β) (p : Parser α) (hpc : p c = .ok r) :
        (p >>= h) c = h r.1 r.2 := by
      show (p c >>= fun x => h x.1 x.2) = _
      rw [hpc]
      rfl
    have hresult := hvalue c hc hl hn
    rw [hbind _ p hpc, hbind _ q (heq ▸ hpc)] at hresult
    rw [attempt_ok hpc, attempt_ok (heq ▸ hpc)]
    exact ⟨hresult.1, hresult.2.mono hm⟩

/-- What may come after a token is read by two parsers alike if they agree behind the token. -/
theorem after (hkind : kind ≠ .eof) (h : Agrees 0 n k p q) :
    Agrees l n 0 (after kind p) (Parser.after kind q) :=
  less (.accept_if hkind (.bind h fun _ => .pure) .pure)

/-- A test for the end of a list, which says so at the end of the tokens. -/
def TestsEnd (isOver : Parser Bool) : Prop :=
  ∀ c : Cursor, c.last.kind = .eof → ∃ b, isOver c = .ok (b, c) ∧ (b = false → 1 ≤ c.rest.length)

/-- The test for the end of a list is over at the end of the tokens. -/
theorem testsEnd_atEnd (close : Punct) : TestsEnd (atEnd close) := by
  refine fun c hc => ⟨_, rfl, fun h => Cursor.length_pos_of_kindAt hc fun heq => ?_⟩
  rw [heq] at h
  cases (Bool.or_eq_false_iff.1 h).2

/-- The test for the end of the tokens is over there. -/
theorem testsEnd_eof : TestsEnd (check .eof) := by
  refine fun c hc => ⟨_, rfl, fun h => Cursor.length_pos_of_kindAt hc fun heq => ?_⟩
  rw [heq] at h
  cases h

/-- Unless a list is over, tokens are ahead. -/
theorem test_if {isOver : Parser Bool} {p' q' : Parser α} (htest : TestsEnd isOver)
    (h : Agrees l n m p q) (h' : Agrees 1 n m p' q') :
    Agrees l n m (isOver >>= fun b => if b = true then p else p')
      (isOver >>= fun b => if b = true then q else q') := by
  intro c hc hl hn
  obtain ⟨b, hb, hlength⟩ := htest c hc
  show (isOver c >>= fun x => (if x.1 = true then p else p') x.2) =
      (isOver c >>= fun x => (if x.1 = true then q else q') x.2) ∧
    Reaches c m (isOver c >>= fun x => (if x.1 = true then p else p') x.2)
  rw [hb]
  cases b with
  | true => exact h c hc hl hn
  | false => exact h' c hc (hlength rfl) hn

/-- A statement about loops with a number of turns need only be shown where both loops have one
turn at least. -/
theorem of_turns {P Q : Nat → Parser α} (ht : n ≤ t) (ht' : n ≤ t')
    (h : ∀ i i' j, n = j + 1 → t = i + 1 → t' = i' + 1 → Agrees l n m (P (i + 1)) (Q (i' + 1))) :
    Agrees l n m (P t) (Q t') := by
  cases n with
  | zero => exact .nowhere rfl
  | succ j =>
    obtain ⟨i, rfl⟩ : ∃ i, t = i + 1 := ⟨t - 1, by omega⟩
    obtain ⟨i', rfl⟩ : ∃ i', t' = i' + 1 := ⟨t' - 1, by omega⟩
    exact h i i' j rfl rfl rfl

/-- A loop whose pieces pass a token each comes to an end, however many turns it is allowed. -/
theorem manyFor {isOver : Parser Bool} {p q : Parser (List α)} (htest : TestsEnd isOver)
    (h : Agrees 1 n 1 p q) (hN : N ≤ n) (ht : N ≤ t) (ht' : N ≤ t') :
    Agrees l N 0 (manyFor isOver p t) (Parser.manyFor isOver q t') := by
  induction N generalizing l t t' with
  | zero => exact .nowhere rfl
  | succ N ih =>
    refine .of_turns ht ht' fun i i' _ _ hi hi' => ?_
    refine .test_if htest .pure (weaken (.step (h.mono (Nat.le_refl 1) hN) fun _ => ?_))
    exact .bind (ih (by omega) (by omega) (by omega)) fun _ => .pure

/-- A loop until a test says that it is over comes to its end, since every turn passes a token. -/
theorem many {isOver : Parser Bool} {p q : Parser (List α)} (htest : TestsEnd isOver)
    (h : Agrees 1 n 1 p q) : Agrees l n 0 (many isOver p) (Parser.many isOver q) :=
  fun c hc hl hn => manyFor htest h hn (Nat.le_refl _) (Nat.le_refl _) c hc hl (Nat.lt_succ_self _)

/-- A loop goes on after a comma only. -/
theorem listFor {close : Punct} (h : Agrees 1 n 0 p q) (hN : N ≤ n) (ht : N ≤ t) (ht' : N ≤ t') :
    Agrees l N 0 (listFor close p t) (Parser.listFor close q t') := by
  induction N generalizing l t t' with
  | zero => exact .nowhere rfl
  | succ N ih =>
    refine .of_turns ht ht' fun i i' _ _ hi hi' => ?_
    refine .test_if (testsEnd_atEnd close) .pure (.bind (h.mono (Nat.le_refl 1) hN) fun _ => ?_)
    refine .accept_if (by simp) ?_ .pure
    exact .bind (ih (by omega) (by omega) (by omega)) fun _ => .pure

/-- A list up to its closing mark comes to its end, since a turn that is not the last one passes a
comma. -/
theorem list {close : Punct} (h : Agrees 1 n 0 p q) :
    Agrees l n 0 (list close p) (Parser.list close q) :=
  fun c hc hl hn => listFor h hn (Nat.le_refl _) (Nat.le_refl _) c hc hl (Nat.lt_succ_self _)

/-- A loop goes on after a separator only. -/
theorem moreFor {separator : Punct} (h : Agrees 0 n 0 p q) (hN : N ≤ n + 1) (ht : N ≤ t)
    (ht' : N ≤ t') : Agrees l N 0 (moreFor separator p t) (Parser.moreFor separator q t') := by
  induction N generalizing l t t' with
  | zero => exact .nowhere rfl
  | succ N ih =>
    refine .of_turns ht ht' fun i i' _ _ hi hi' => ?_
    refine .accept_if (by simp) ?_ .pure
    refine .bind (h.mono (Nat.le_refl 0) (Nat.le_of_succ_le_succ hN)) fun _ => ?_
    exact .bind (ih (by omega) (by omega) (by omega)) fun _ => .pure

/-- Elements behind separators come to their end, since each of them stands behind a separator. -/
theorem more {separator : Punct} (h : Agrees 0 n 0 p q) :
    Agrees l (n + 1) 0 (more separator p) (Parser.more separator q) :=
  fun c hc hl hn => moreFor h hn (Nat.le_refl _) (Nat.le_refl _) c hc hl (Nat.lt_succ_self _)

/-- Elements with separators between them come to their end. -/
theorem separated {separator : Punct} (h : Agrees 0 n m p q) :
    Agrees l n m (separated separator p) (Parser.separated separator q) :=
  .pass h.anywhere fun _ => .bind (more h.weaken).less fun _ => .pure

/-! ## Source text -/

/-- Passing tokens with a function that drops some of them at the front. -/
theorem sourceText {pass : Nat → List Token → Nat × List Token}
    (hpass : ∀ start ts, (pass start ts).2 <:+ ts)
    (hm : ∀ start ts, m ≤ ts.length → (pass start ts).2.length + m ≤ ts.length) :
    Agrees m n m (sourceText pass) (Parser.sourceText pass) :=
  fun _ _ hl _ => ⟨rfl, rfl, rfl, hpass _ _, hm _ _ hl⟩

/-- What is left behind balanced brackets is what the tokens end with. -/
theorem passBalanced_suffix (depth stop : Nat) (ts : List Token) :
    (passBalanced depth stop ts).2 <:+ ts := by
  induction ts generalizing depth stop with
  | nil => exact List.suffix_rfl
  | cons t ts ih =>
    rw [passBalanced]
    split
    · exact List.suffix_cons t ts
    · exact (ih _ _).trans (List.suffix_cons t ts)

/-- Passing balanced brackets passes the token it begins with. -/
theorem length_passBalanced (depth stop : Nat) {ts : List Token} (hm : m ≤ ts.length) (h : m ≤ 1) :
    (passBalanced depth stop ts).2.length + m ≤ ts.length := by
  cases ts with
  | nil => exact (Nat.zero_add m).symm ▸ hm
  | cons t ts =>
    have hrest := (passBalanced_suffix (bracketDepth depth t.kind) t.stop ts).length_le
    rw [passBalanced, List.length_cons]
    split
    · exact Nat.add_le_add_left h _
    · exact Nat.add_le_add hrest h

/-- What is left behind an initializer is what the tokens end with. -/
theorem passInitializer_suffix (depth stop : Nat) (ts : List Token) :
    (passInitializer depth stop ts).2 <:+ ts := by
  induction ts generalizing depth stop with
  | nil => exact List.suffix_rfl
  | cons t ts ih =>
    rw [passInitializer]
    split
    · exact List.suffix_rfl
    · exact (ih _ _).trans (List.suffix_cons t ts)

/-- Reading a bracketed text passes the token it begins with. -/
theorem balanced (hm : m ≤ 1) : Agrees m n m balanced Parser.balanced :=
  sourceText (passBalanced_suffix 0) fun start _ hts => length_passBalanced 0 start hts hm

/-- Reading an initializer passes nothing if none is there. -/
theorem initializer : Agrees l n 0 initializer Parser.initializer :=
  have h : Agrees 0 n 0 (Parser.sourceText (passInitializer 0)) _ :=
    sourceText (passInitializer_suffix 0) fun start ts _ =>
      (passInitializer_suffix 0 start ts).length_le
  .bind h.anywhere fun _ => .pure

/-- Either the semicolon is passed, or all tokens are. -/
theorem skipStatement (hm : m ≤ 1) : Agrees m n m skipStatement Parser.skipStatement := by
  intro c hc hl _
  let d : Cursor := { c with rest := c.rest.dropWhile (·.kind != .punct .semicolon) }
  have hd : c.Passes 0 d :=
    ⟨rfl, rfl, List.dropWhile_suffix _, (List.dropWhile_suffix _).length_le⟩
  refine ⟨rfl, ?_⟩
  show Reaches c m (Parser.accept (.punct .semicolon) d >>= fun x => Except.ok ((), x.2))
  rw [accept_eq]
  show c.Passes m (if d.kindAt 0 == .punct .semicolon then d.next else d)
  by_cases hfound : (d.kindAt 0 == .punct .semicolon) = true
  · have hahead : 1 ≤ d.rest.length :=
      Cursor.length_pos_of_kindAt hc (beq_iff_eq.1 hfound ▸ Kind.noConfusion)
    rw [if_pos hfound]
    exact (hd.trans (Cursor.passes_next hahead (Nat.le_refl 1))).mono hm
  · have hnil : d.rest = [] := by
      have hstop := List.head?_dropWhile_not (fun t : Token => t.kind != .punct .semicolon) c.rest
      cases hrest : d.rest with
      | nil => rfl
      | cons t ts =>
        rw [show (c.rest.dropWhile _).head? = some t from congrArg List.head? hrest] at hstop
        refine absurd ?_ hfound
        rw [Cursor.kindAt, hrest]
        exact bne_eq_false_iff_eq.1 hstop ▸ beq_self_eq_true _
    rw [if_neg hfound]
    exact ⟨rfl, rfl, hd.suffix, by rw [hnil, List.length_nil, Nat.zero_add]; exact hl⟩

/-! ## Names -/

/-- Reading an identifier passes it. -/
theorem identifier : Agrees l n 1 identifier Parser.identifier := by
  refine .peek fun kind i _ hi => ?_
  revert hi
  split
  · exact fun hi => .pass (.skip (hi (by simp))) fun _ => .pure
  · exact fun hi => .ite (.pass (.skip (hi (by simp))) fun _ => .pure) (.fail (by simp))
  · exact fun _ => .fail (by simp)

/-- Reading the name of a property passes it. -/
theorem propertyName : Agrees l n 1 propertyName Parser.propertyName := by
  refine .peek fun kind i _ hi => ?_
  have hskip {name : String} (h : kind ≠ .eof) :
      Agrees i n 1 (do Parser.skip; return name) (do Parser.skip; return name) :=
    .pass (.skip (hi h)) fun _ => .pure
  split
  · exact hskip (by simp)
  · exact hskip (by simp)
  · exact hskip (by simp)
  · exact (balanced (Nat.le_refl 1)).mono (hi (by simp)) (Nat.le_refl n)
  · exact hskip (by simp)
  · exact .fail (by simp)

/-- What is left behind a dotted name is what the tokens end with. -/
theorem dottedTail_suffix (ts : List Token) : (dottedTail ts).2 <:+ ts := by
  fun_induction dottedTail ts with
  | case1 dot word ts _ _ _ _ _ heq ih | case2 dot word ts _ _ _ _ _ heq ih =>
    rw [heq] at ih
    exact ih.trans ((List.suffix_cons word ts).trans (List.suffix_cons dot _))
  | case3 | case4 | case5 => exact List.suffix_rfl

/-- Reading the rest of a dotted name passes nothing if no dot follows. -/
theorem qualifiedTail : Agrees l n 0 qualifiedTail Parser.qualifiedTail :=
  fun _ _ _ _ => ⟨rfl, rfl, rfl, dottedTail_suffix _, (dottedTail_suffix _).length_le⟩

end Agrees

end Parser

end DeclLayer
