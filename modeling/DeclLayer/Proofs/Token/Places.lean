import DeclLayer.Proofs.Token.Laid

/-!
# The places of tokens

`Token.locate` adds up the sizes of the lexemes. A text in front moves the tokens by its size
(`Token.locate_shift`, `Token.scan_append`), the slice of the source between the two ends of a token
is the text of its lexeme (`Token.exists_located`), each token ends before the next one begins
(`Token.pairwise_locate`), and none begins inside a character (`Token.isBoundary_start`). What a
reader sees besides the places are the kinds with their documentation comments, and
`Token.SameFaces` says that lexemes agree in these.
-/

namespace DeclLayer

/-! ## Slices and boundaries -/

namespace Text

/-- Dropping the bytes of the front leaves the back. -/
theorem dropBytes_append (as bs : List Char) : dropBytes (utf8Size as) (as ++ bs) = bs := by
  induction as with
  | nil => cases bs <;> simp [dropBytes]
  | cons c as ih =>
    have hpos := c.utf8Size_pos
    rw [List.cons_append, dropBytes, utf8Size_cons, if_neg (by omega), Nat.add_sub_cancel_left, ih]

/-- Taking the bytes of the front gives the front. -/
theorem takeBytes_append (as bs : List Char) : takeBytes (utf8Size as) (as ++ bs) = as := by
  induction as with
  | nil => cases bs <;> simp [takeBytes]
  | cons c as ih =>
    have hpos := c.utf8Size_pos
    rw [List.cons_append, takeBytes, utf8Size_cons, if_neg (by omega), Nat.add_sub_cancel_left, ih]

/-- The slice between two places of a text. -/
theorem slice_append (as bs cs : List Char) :
    slice (as ++ (bs ++ cs)) (utf8Size as) (utf8Size as + utf8Size bs) = bs := by
  rw [slice, dropBytes_append, Nat.add_sub_cancel_left, takeBytes_append]

/-- The bytes of a text are those of its characters. -/
theorem utf8Size_toList (s : String) : utf8Size s.toList = s.utf8ByteSize := by
  have hchars (cs : List Char) : (String.ofList cs).utf8ByteSize = utf8Size cs := by
    induction cs with
    | nil => rfl
    | cons c cs ih =>
      rw [String.ofList_cons, String.utf8ByteSize_append, String.utf8ByteSize_singleton, ih,
        utf8Size_cons]
  rw [← hchars, String.ofList_toList]

/-- A byte offset at which no character is cut. -/
def IsBoundary (s : String) (pos : Nat) : Prop :=
  String.Pos.Raw.IsValid s ⟨pos⟩

/-- The offset between two pieces of a text. -/
theorem isBoundary_of_append {s : String} {before after : List Char}
    (h : s.toList = before ++ after) : IsBoundary s (utf8Size before) := by
  have hs : s = String.ofList before ++ String.ofList after := by
    rw [← String.ofList_append, ← h, String.ofList_toList]
  have hsize : utf8Size before = (String.ofList before).utf8ByteSize := by
    rw [← utf8Size_toList, String.toList_ofList]
  exact String.Pos.Raw.isValid_iff_exists_append.2
    ⟨_, _, hs, String.Pos.Raw.ext hsize⟩

/-- There are two pieces at each offset that cuts no character. -/
theorem IsBoundary.exists_append {s : String} {pos : Nat} (h : IsBoundary s pos) :
    ∃ before after, s.toList = before ++ after ∧ utf8Size before = pos := by
  obtain ⟨front, back, rfl, hpos⟩ := String.Pos.Raw.isValid_iff_exists_append.1 h
  refine ⟨front.toList, back.toList, String.toList_append, ?_⟩
  rw [utf8Size_toList]
  exact (congrArg String.Pos.Raw.byteIdx hpos).symm

/-- A boundary lies in the text or at its end. -/
theorem IsBoundary.le {s : String} {pos : Nat} (h : IsBoundary s pos) : pos ≤ s.utf8ByteSize := by
  obtain ⟨before, after, hs, rfl⟩ := h.exists_append
  rw [← utf8Size_toList, hs, utf8Size_append]
  exact Nat.le_add_right _ _

/-- A range of bytes that can be cut out of a text. -/
structure ValidRange (text : String) (start stop : Nat) : Prop where
  start_le : start ≤ stop
  stop_le : stop ≤ text.utf8ByteSize
  boundary_start : IsBoundary text start
  boundary_stop : IsBoundary text stop

/-- A range of bytes at which a source has a text. -/
structure StandsAt (source : String) (start stop : Nat) (text : List Char) : Prop
    extends ValidRange source start stop where
  slice_eq : slice source.toList start stop = text

/-- A text between two others stands where the first one ends. -/
theorem standsAt_of_append {source : String} {before text behind : List Char}
    (h : source.toList = before ++ (text ++ behind)) :
    StandsAt source (utf8Size before) (utf8Size before + utf8Size text) text := by
  have hstop : IsBoundary source (utf8Size before + utf8Size text) := by
    rw [← utf8Size_append]
    exact isBoundary_of_append (h.trans (List.append_assoc _ _ _).symm)
  exact {
    start_le := Nat.le_add_right _ _
    stop_le := hstop.le
    boundary_start := isBoundary_of_append h
    boundary_stop := hstop
    slice_eq := h ▸ slice_append before text behind }

end Text

namespace Token

open Text

/-! ## Places of lexemes -/

/-- The text of some lexemes. -/
def rawText (ls : List Lexeme) : List Char :=
  ls.flatMap Lexeme.raw

@[simp] theorem rawText_cons (l : Lexeme) (ls : List Lexeme) :
    rawText (l :: ls) = l.raw ++ rawText ls := rfl

@[simp] theorem rawText_append (ls ms : List Lexeme) :
    rawText (ls ++ ms) = rawText ls ++ rawText ms := List.flatMap_append

/-- The kind of a lexeme that is a token. -/
def Lexeme.kind? (l : Lexeme) : Option Kind :=
  match l.content with
  | .token kind => some kind
  | _ => none

/-- A gap moves the tokens after it. -/
theorem locate_gap {gap : List Lexeme} (h : ∀ l ∈ gap, l.content = .skipped) (pos : Nat)
    (docs : List String) (ls : List Lexeme) :
    locate pos docs (gap ++ ls) = locate (pos + utf8Size (rawText gap)) docs ls := by
  induction gap generalizing pos with
  | nil => rfl
  | cons l gap ih =>
    obtain ⟨hl, hgap⟩ := List.forall_mem_cons.1 h
    rw [List.cons_append, locate]
    simp only [hl]
    rw [ih hgap, rawText_cons, utf8Size_append, Nat.add_assoc]

/-- The last token is the end. -/
theorem locate_ne_nil (pos : Nat) (docs : List String) (ls : List Lexeme) :
    locate pos docs ls ≠ [] := by
  induction ls generalizing pos docs with
  | nil => exact List.cons_ne_nil _ _
  | cons l ls ih =>
    rw [locate]
    split
    · exact List.cons_ne_nil _ _
    · exact ih _ _
    · exact ih _ _

/-- The kinds of tokens do not depend on where they stand, and the last one is the end. -/
theorem map_kind_locate (pos : Nat) (docs : List String) (ls : List Lexeme) :
    (locate pos docs ls).map Token.kind = ls.filterMap Lexeme.kind? ++ [.eof] := by
  induction ls generalizing pos docs with
  | nil => rfl
  | cons l ls ih =>
    obtain ⟨raw, content⟩ := l
    cases content with
    | token kind => exact congrArg (kind :: ·) (ih _ _)
    | doc text => exact ih _ _
    | skipped => exact ih _ _

/-- The tokens of some lexemes come before those of the lexemes after them. -/
theorem locate_append (pos : Nat) (docs : List String) (ls : List Lexeme) :
    ∃ ts waiting, ts.map Token.kind = ls.filterMap Lexeme.kind? ∧
      ∀ ms, locate pos docs (ls ++ ms) = ts ++ locate (pos + utf8Size (rawText ls)) waiting ms := by
  induction ls generalizing pos docs with
  | nil => exact ⟨[], docs, rfl, fun ms => rfl⟩
  | cons l ls ih =>
    obtain ⟨raw, content⟩ := l
    have hpos : pos + utf8Size (rawText (⟨raw, content⟩ :: ls)) =
        pos + utf8Size raw + utf8Size (rawText ls) := by
      rw [rawText_cons, utf8Size_append, Nat.add_assoc]
    rw [hpos]
    cases content with
    | token kind =>
      obtain ⟨ts, waiting, hkinds, hts⟩ := ih (pos + utf8Size raw) []
      refine ⟨⟨kind, pos, pos + utf8Size raw, docs⟩ :: ts, waiting, ?_, fun ms => ?_⟩
      · exact congrArg (kind :: ·) hkinds
      · rw [List.cons_append, List.cons_append, locate, hts]
    | doc text =>
      obtain ⟨ts, waiting, hkinds, hts⟩ := ih (pos + utf8Size raw) (docs ++ [text])
      exact ⟨ts, waiting, hkinds, fun ms => hts ms⟩
    | skipped =>
      obtain ⟨ts, waiting, hkinds, hts⟩ := ih (pos + utf8Size raw) docs
      exact ⟨ts, waiting, hkinds, fun ms => hts ms⟩

/-- A token is cut out of the source as the text of its lexeme. -/
theorem exists_located {l : Lexeme} {kind : Kind} (hkind : l.content = .token kind)
    {ls : List Lexeme} (hl : l ∈ ls) (before : List Char) (docs : List String) :
    ∃ t ∈ locate (utf8Size before) docs ls,
      t.kind = kind ∧ slice (before ++ rawText ls) t.start t.stop = l.raw := by
  induction ls generalizing before docs with
  | nil => cases hl
  | cons m ls ih =>
    have hrest (hl : l ∈ ls) (docs : List String) :
        ∃ t ∈ locate (utf8Size before + utf8Size m.raw) docs ls,
          t.kind = kind ∧ slice (before ++ rawText (m :: ls)) t.start t.stop = l.raw := by
      rw [← utf8Size_append, rawText_cons, ← List.append_assoc]
      exact ih hl (before ++ m.raw) docs
    rcases List.mem_cons.1 hl with rfl | hl
    · rw [locate, hkind]
      exact ⟨_, List.mem_cons_self, rfl, slice_append before l.raw (rawText ls)⟩
    · rw [locate]
      split
      · obtain ⟨t, ht, hslice⟩ := hrest hl []
        exact ⟨t, List.mem_cons_of_mem _ ht, hslice⟩
      · exact hrest hl _
      · exact hrest hl docs

/-- A token is a lexeme at its place, or the end of the text. -/
theorem mem_locate_cases {t : Token} {pos : Nat} {docs : List String} {ls : List Lexeme}
    (h : t ∈ locate pos docs ls) :
    (∃ ms l after, ls = ms ++ l :: after ∧ l.content = .token t.kind ∧
      t.start = pos + utf8Size (rawText ms) ∧ t.stop = t.start + utf8Size l.raw) ∨
    (t.kind = .eof ∧ t.start = pos + utf8Size (rawText ls) ∧ t.stop = t.start) := by
  induction ls generalizing pos docs with
  | nil =>
    rw [locate, List.mem_singleton] at h
    subst h
    exact .inr ⟨rfl, rfl, rfl⟩
  | cons l ls ih =>
    have hrest {docs : List String} (h : t ∈ locate (pos + utf8Size l.raw) docs ls) :
        (∃ ms m after, l :: ls = ms ++ m :: after ∧ m.content = .token t.kind ∧
          t.start = pos + utf8Size (rawText ms) ∧ t.stop = t.start + utf8Size m.raw) ∨
        (t.kind = .eof ∧ t.start = pos + utf8Size (rawText (l :: ls)) ∧ t.stop = t.start) := by
      rcases ih h with ⟨ms, m, after, rfl, hcontent, hstart, hstop⟩ | ⟨hkind, hstart, hstop⟩
      · refine .inl ⟨l :: ms, m, after, rfl, hcontent, ?_, hstop⟩
        rw [hstart, rawText_cons, utf8Size_append, Nat.add_assoc]
      · refine .inr ⟨hkind, ?_, hstop⟩
        rw [hstart, rawText_cons, utf8Size_append, Nat.add_assoc]
    rw [locate] at h
    split at h
    · next kind hkind =>
      rcases List.mem_cons.1 h with rfl | h
      · exact .inl ⟨[], l, ls, rfl, hkind, rfl, rfl⟩
      · exact hrest h
    · exact hrest h
    · exact hrest h

/-- Each token ends before the next one begins. -/
theorem pairwise_locate (pos : Nat) (docs : List String) (ls : List Lexeme) :
    (locate pos docs ls).Pairwise fun t u => t.stop ≤ u.start := by
  have hle {pos : Nat} {docs : List String} {ls : List Lexeme} :
      ∀ u ∈ locate pos docs ls, pos ≤ u.start := by
    intro u hu
    rcases mem_locate_cases hu with ⟨ms, l, after, -, -, hstart, -⟩ | ⟨-, hstart, -⟩ <;> omega
  induction ls generalizing pos docs with
  | nil => exact List.pairwise_singleton _ _
  | cons l ls ih =>
    rw [locate]
    split
    · exact List.pairwise_cons.2 ⟨hle, ih _ _⟩
    · exact ih _ _
    · exact ih _ _

/-- No token begins inside a character. -/
theorem isBoundary_start {source : String} {t : Token} (h : t ∈ scan source) :
    IsBoundary source t.start := by
  have hplace {ms behind : List Lexeme} (hls : lexemes source.toList = ms ++ behind)
      (hstart : t.start = 0 + utf8Size (rawText ms)) : IsBoundary source t.start := by
    have hsource : source.toList = rawText ms ++ rawText behind := by
      rw [← rawText_append, ← hls]
      exact (flatMap_raw_lexemes _).symm
    rw [hstart, Nat.zero_add]
    exact isBoundary_of_append hsource
  rcases mem_locate_cases h with ⟨ms, l, behind, hls, -, hstart, -⟩ | ⟨-, hstart, -⟩
  · exact hplace hls hstart
  · exact hplace (List.append_nil _).symm hstart

/-! ## Moved tokens -/

/-- A token that stands some bytes further back. -/
def shift (n : Nat) (t : Token) : Token :=
  { t with start := t.start + n, stop := t.stop + n }

/-- Lexemes that stand further back give the same tokens, moved. -/
theorem locate_shift (n pos : Nat) (docs : List String) (ls : List Lexeme) :
    locate (pos + n) docs ls = (locate pos docs ls).map (shift n) := by
  induction ls generalizing pos docs with
  | nil => rfl
  | cons l ls ih =>
    obtain ⟨raw, content⟩ := l
    have hstop : pos + n + utf8Size raw = pos + utf8Size raw + n := by omega
    rw [locate, locate, hstop]
    cases content with
    | token kind => exact congrArg (_ :: ·) (ih _ [])
    | doc text => exact ih _ _
    | skipped => exact ih _ docs

/-- A text that is one token, whatever follows it, moves the tokens of what follows. -/
theorem scan_append {text rest : String} {kind : Kind}
    (h : lexemes (text.toList ++ rest.toList) =
      ⟨text.toList, .token kind⟩ :: lexemes rest.toList) :
    scan (text ++ rest) = ⟨kind, 0, utf8Size text.toList, []⟩ ::
      (scan rest).map (shift (utf8Size text.toList)) := by
  have hrest := locate_shift (utf8Size text.toList) 0 [] (lexemes rest.toList)
  rw [Nat.zero_add] at hrest
  rw [scan, String.toList_append, h, locate, Nat.zero_add, hrest, scan]

/-! ## Tokens without their places -/

/-- What a reader sees of a token besides its place. -/
def face (t : Token) : Kind × List String :=
  (t.kind, t.docs)

/-- Lexemes that give the same tokens with the same documentation comments. The places may
differ. -/
def SameFaces (ls ms : List Lexeme) : Prop :=
  ∀ pos pos' docs, (locate pos docs ls).map face = (locate pos' docs ms).map face

namespace SameFaces

variable {ls ms : List Lexeme}

/-- No lexemes have no faces. -/
theorem nil : SameFaces [] [] := fun _ _ _ => rfl

/-- Lexemes that contribute the same, followed by lexemes that give the same tokens. -/
theorem cons {l m : Lexeme} (hcontent : l.content = m.content) (h : SameFaces ls ms) :
    SameFaces (l :: ls) (m :: ms) := by
  intro pos pos' docs
  rw [locate, locate, ← hcontent]
  split
  · exact congrArg (_ :: ·) (h _ _ [])
  · exact h _ _ _
  · exact h _ _ docs

/-- Gaps do not count. -/
theorem gaps {gap gap' : List Lexeme} (hgap : ∀ l ∈ gap, l.content = .skipped)
    (hgap' : ∀ l ∈ gap', l.content = .skipped) (h : SameFaces ls ms) :
    SameFaces (gap ++ ls) (gap' ++ ms) := by
  intro pos pos' docs
  rw [locate_gap hgap, locate_gap hgap']
  exact h _ _ docs

end SameFaces

end Token

end DeclLayer
