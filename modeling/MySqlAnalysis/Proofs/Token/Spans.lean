import MySqlAnalysis.Proofs.Text.Bytes
import MySqlAnalysis.Proofs.Token.Listing

/-!
# Spans of significant tokens

A span is what a token says about the text at its place: its kind, its text and its
offsets. The spans of a text can be read off at any offset, from the kind of the
last significant token on (`Token.spansFrom`); shifting the text shifts its spans
(`Token.spansFrom_shift`), and only whether the last token was a name matters
(`Token.spansFrom_last`).
-/

set_option autoImplicit false

namespace MySqlAnalysis

open Text

namespace Token

/-- What a token says about the text at its place. -/
structure Span where
  kind : TokenKind
  text : String
  start : Nat
  stop : Nat
  deriving DecidableEq

/-- The same in a text that starts `n` bytes later. -/
def Span.shift (n : Nat) (s : Span) : Span :=
  { s with start := s.start + n, stop := s.stop + n }

/-- The span of a token. -/
def span (t : Token) : Span :=
  ⟨t.kind, t.text, t.start, t.stop⟩

/-- The spans of the significant tokens of a text, without the end of the input. -/
def spans (d : Dialect) (text : String) : List Span :=
  ((significant (tokenize d text)).filter fun t => !t.isEof).map span

/-- The span of a text of a kind at an offset, when it is significant. -/
def spanAt? (kind : Option TokenKind) (text : List Char) (offset : Nat) : Option Span :=
  match kind with
  | some kind =>
    if kind.channel == .default then
      some ⟨kind, String.ofList text, offset, offset + byteLength text - 1⟩
    else none
  | none => none

/-- The span of a lexeme. -/
def lexemeSpan? (l : Lexeme) : Option Span :=
  spanAt? l.kind l.text l.position.offset

/-- The spans of a text at an offset, after a significant token of the kind `last`
and outside of a version comment. -/
def spansFrom (d : Dialect) (last : Option TokenKind) (offset : Nat) (cs : List Char) :
    List Span :=
  (lexemesFrom d 0 ⟨⟨offset, 1, 0⟩, false, last⟩ cs).filterMap lexemeSpan?

variable {d : Dialect} {last : Option TokenKind}

/-! ### The spans of a text -/

theorem filter_ofLexemes (stop : Position) (ls : List Lexeme)
    (hls : ∀ l ∈ ls, l.kind ≠ some .eof) :
    ∀ index, ((significant (ofLexemes stop index ls)).filter fun t => !t.isEof).map span =
      ls.filterMap lexemeSpan? := by
  induction ls with
  | nil => exact fun index => rfl
  | cons l ls ih =>
      intro index
      have hrest := ih fun l hl => hls l (List.mem_cons_of_mem _ hl)
      rw [ofLexemes, List.filterMap_cons]
      cases hkind : l.kind with
      | none => simpa [lexemeSpan?, spanAt?, hkind] using hrest index
      | some kind =>
          have hne : kind ≠ .eof := fun he => hls l List.mem_cons_self (he ▸ hkind)
          have heof : (ofLexeme l kind index).isEof = false := beq_eq_false_iff_ne.2 hne
          have htail := hrest (index + 1)
          -- a token of another channel is on neither side
          by_cases hchannel : kind.channel = .default
          · have hsig : (ofLexeme l kind index).isSignificant = true := beq_iff_eq.2 hchannel
            have hspan : lexemeSpan? l = some (ofLexeme l kind index).span := by
              simp [lexemeSpan?, spanAt?, hkind, hchannel, span, ofLexeme]
            rw [hspan]
            dsimp only
            rw [significant, List.filter_cons_of_pos hsig, List.filter_cons_of_pos (by simp [heof]),
              List.map_cons]
            exact congrArg _ htail
          · have hsig : ¬ (ofLexeme l kind index).isSignificant = true :=
              fun h => hchannel (beq_iff_eq.1 h)
            have hspan : lexemeSpan? l = none := by
              simp [lexemeSpan?, spanAt?, hkind, hchannel]
            rw [hspan]
            dsimp only
            rw [significant, List.filter_cons_of_neg hsig]
            exact htail

theorem spans_eq_spansFrom (d : Dialect) (text : String) :
    spans d text = spansFrom d none 0 text.toList :=
  filter_ofLexemes _ _ (lexemesFrom_kind_ne_eof 0 .start text.toList) 0

/-! ### Shifting -/

/-- Of the position of a scan only the offset matters, and all spans follow it. -/
theorem filterMap_lexemesFrom_shift (pending : Nat) (s : ScanState) (cs : List Char) (n : Nat) :
    ∀ p : Position, p.offset = s.position.offset + n →
      (lexemesFrom d pending { s with position := p } cs).filterMap lexemeSpan? =
        ((lexemesFrom d pending s cs).filterMap lexemeSpan?).map (Span.shift n) := by
  fun_induction lexemesFrom d pending s cs with
  | case1 => exact fun p hp => by simp [lexemesFrom]
  | case2 pending s c rest ih => exact fun p hp => by simpa [lexemesFrom] using ih p hp
  | case3 s c rest r text ih =>
      intro p hp
      have hstep := ih (p.after text) (by
        rw [Position.offset_after, ScanState.after, Position.offset_after, hp]
        omega)
      have hpos : 0 < byteLength text := byteLength_pos (List.cons_ne_nil _ _)
      -- the span of this lexeme moves with its offset, which is not behind its end
      have hlex : lexemeSpan? ⟨r.kind, text, p⟩ =
          (lexemeSpan? ⟨r.kind, text, s.position⟩).map (Span.shift n) := by
        cases hkind : r.kind with
        | none => rfl
        | some kind =>
            by_cases hchannel : kind.channel = .default
            · simp only [lexemeSpan?, spanAt?, hchannel, hp, beq_self_eq_true, if_true,
                Option.map_some, Span.shift, Option.some.injEq, Span.mk.injEq, true_and]
              omega
            · simp [lexemeSpan?, spanAt?, hchannel]
      have hunroll : lexemesFrom d 0 { s with position := p } (c :: rest) =
          ⟨r.kind, text, p⟩ ::
            lexemesFrom d r.extra { s.after r text with position := p.after text } rest := by
        rw [lexemesFrom]
        rfl
      rw [hunroll, List.filterMap_cons, List.filterMap_cons, hlex]
      cases lexemeSpan? ⟨r.kind, text, s.position⟩ with
      | none => exact hstep
      | some x => exact congrArg _ hstep

/-- Shifting a text shifts its spans. -/
theorem spansFrom_shift (last : Option TokenKind) (n : Nat) (cs : List Char) :
    spansFrom d last n cs = (spansFrom d last 0 cs).map (Span.shift n) :=
  filterMap_lexemesFrom_shift 0 ⟨⟨0, 1, 0⟩, false, last⟩ cs n ⟨n, 1, 0⟩ (Nat.zero_add n).symm

/-! ### Going through a text -/

@[simp]
theorem spansFrom_nil (last : Option TokenKind) (offset : Nat) :
    spansFrom d last offset [] = [] := by
  simp [spansFrom, lexemesFrom]

/-- What is recognised outside of a version comment, after a token of the kind `last`. -/
def scan (d : Dialect) (last : Option TokenKind) (c : Char) (rest : List Char) : Recognition :=
  recognize d ⟨.start, false, last⟩ c rest

/-- The last significant kind after a text of the given kind. -/
def lastAfter (last kind : Option TokenKind) : Option TokenKind :=
  match kind with
  | some kind => if kind.channel == .default then some kind else last
  | none => last

theorem lexemesFrom_pending (pending : Nat) (s : ScanState) (cs : List Char) :
    lexemesFrom d pending s cs = lexemesFrom d 0 s (cs.drop pending) := by
  induction pending generalizing cs with
  | zero => rfl
  | succ pending ih =>
      cases cs with
      | nil => simp [lexemesFrom]
      | cons c rest =>
          rw [lexemesFrom, ih]
          rfl

/-- What is recognised does not depend on the place. -/
theorem recognize_place (p : Position) (inComment : Bool) (last : Option TokenKind) (c : Char)
    (rest : List Char) :
    recognize d ⟨p, inComment, last⟩ c rest = recognize d ⟨.start, inComment, last⟩ c rest := rfl

/-- The span of the first lexeme and those after it, inside or outside of a version comment. -/
theorem filterMap_lexemesFrom_cons {inComment inComment' : Bool} {kind : Option TokenKind}
    {n : Nat} {c : Char} {rest : List Char}
    (h : recognize d ⟨.start, inComment, last⟩ c rest = ⟨kind, n, inComment'⟩) (p : Position) :
    (lexemesFrom d 0 ⟨p, inComment, last⟩ (c :: rest)).filterMap lexemeSpan? =
      (spanAt? kind (c :: rest.take n) p.offset).toList ++
        (lexemesFrom d 0 ⟨p.after (c :: rest.take n), inComment', lastAfter last kind⟩
          (rest.drop n)).filterMap lexemeSpan? := by
  have hunroll : lexemesFrom d 0 ⟨p, inComment, last⟩ (c :: rest) =
      ⟨kind, c :: rest.take n, p⟩ ::
        lexemesFrom d n ⟨p.after (c :: rest.take n), inComment', lastAfter last kind⟩ rest := by
    rw [lexemesFrom, recognize_place, h]
    rfl
  have hfirst : lexemeSpan? ⟨kind, c :: rest.take n, p⟩ =
      spanAt? kind (c :: rest.take n) p.offset := rfl
  rw [hunroll, lexemesFrom_pending, List.filterMap_cons, hfirst]
  cases spanAt? kind (c :: rest.take n) p.offset <;> rfl

/-- The first span of a text and those after it. -/
theorem spansFrom_cons {offset : Nat} {c : Char} {rest : List Char}
    (hversion : (scan d last c rest).versionComment = false) :
    spansFrom d last offset (c :: rest) =
      (spanAt? (scan d last c rest).kind (c :: rest.take (scan d last c rest).extra)
          offset).toList ++
        spansFrom d (lastAfter last (scan d last c rest).kind)
          (offset + byteLength (c :: rest.take (scan d last c rest).extra))
          (rest.drop (scan d last c rest).extra) := by
  have hfirst : scan d last c rest =
      ⟨(scan d last c rest).kind, (scan d last c rest).extra, false⟩ := by
    rw [← hversion]
  -- lines and columns have no influence on spans
  have hrest := filterMap_lexemesFrom_shift (d := d) 0
    ⟨⟨offset + byteLength (c :: rest.take (scan d last c rest).extra), 1, 0⟩, false,
      lastAfter last (scan d last c rest).kind⟩ (rest.drop (scan d last c rest).extra) 0
    (Position.after ⟨offset, 1, 0⟩ (c :: rest.take (scan d last c rest).extra)) (by simp)
  have hid : Span.shift 0 = id := rfl
  rw [hid, List.map_id] at hrest
  rw [spansFrom, filterMap_lexemesFrom_cons hfirst, hrest, spansFrom]

/-- Whether a point after a token of this kind separates names. -/
def endsName (last : Option TokenKind) : Bool :=
  last == some .identifier || last == some .quotedIdentifier

/-- Of the last kind it only matters whether it was a name. -/
theorem recognize_last (s : ScanState) {last' : Option TokenKind}
    (h : endsName s.last = endsName last') (c : Char) (rest : List Char) :
    recognize d { s with last := last' } c rest = recognize d s c rest := by
  have hname : ∀ l : Option TokenKind, (l != some .identifier && l != some .quotedIdentifier) =
      !endsName l := by
    intro l
    simp [endsName, bne]
  have hfraction : startsFraction last' rest = startsFraction s.last rest := by
    rw [startsFraction, startsFraction, Bool.and_assoc, Bool.and_assoc, hname, hname, h]
  unfold recognize
  dsimp only
  rw [hfraction]

theorem filterMap_lexemesFrom_last (pending : Nat) (s : ScanState) (cs : List Char) :
    ∀ last' : Option TokenKind, endsName s.last = endsName last' →
      (lexemesFrom d pending { s with last := last' } cs).filterMap lexemeSpan? =
        (lexemesFrom d pending s cs).filterMap lexemeSpan? := by
  fun_induction lexemesFrom d pending s cs with
  | case1 => exact fun last' h => by simp [lexemesFrom]
  | case2 pending s c rest ih => exact fun last' h => by simpa [lexemesFrom] using ih last' h
  | case3 s c rest r text ih =>
      intro last' h
      have hunroll : lexemesFrom d 0 { s with last := last' } (c :: rest) =
          ⟨r.kind, text, s.position⟩ ::
            lexemesFrom d r.extra { s.after r text with last := lastAfter last' r.kind } rest := by
        rw [lexemesFrom, recognize_last s h]
        rfl
      -- a significant token makes both kinds equal, any other one leaves both alone
      have hafter : endsName (s.after r text).last = endsName (lastAfter last' r.kind) := by
        cases hkind : r.kind with
        | none => simpa [ScanState.after, lastAfter, hkind] using h
        | some kind =>
            by_cases hchannel : kind.channel = .default
            · simp [ScanState.after, lastAfter, hkind, hchannel]
            · simpa [ScanState.after, lastAfter, hkind, hchannel] using h
      rw [hunroll, List.filterMap_cons, List.filterMap_cons, ih _ hafter]

theorem spansFrom_last {last' : Option TokenKind} (h : endsName last = endsName last')
    (offset : Nat) (cs : List Char) :
    spansFrom d last offset cs = spansFrom d last' offset cs :=
  (filterMap_lexemesFrom_last 0 ⟨⟨offset, 1, 0⟩, false, last⟩ cs last' h).symm

end Token

end MySqlAnalysis
