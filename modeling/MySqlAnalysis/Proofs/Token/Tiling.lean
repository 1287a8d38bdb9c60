import MySqlAnalysis.Proofs.Text.Bytes
import MySqlAnalysis.Proofs.Token.Listing

/-!
# Tokens and unreadable stretches tile the text

Every round of the tokenizer uses up at least one character and produces one
token or one event (`Token.Product`). In the order of the rounds the texts of
the products make up the text, each token lies where its offsets say, and every
byte of the text belongs to exactly one product (`tokenize_tiles`).
-/

set_option autoImplicit false

namespace MySqlAnalysis

open Text

/-! ### Lexemes -/

namespace Token

variable {d : Dialect}

theorem lexemesFrom_text_ne_nil (pending : Nat) (s : ScanState) (cs : List Char) :
    ∀ l ∈ lexemesFrom d pending s cs, l.text ≠ [] := by
  fun_induction lexemesFrom d pending s cs with
  | case1 => exact fun l hl => absurd hl List.not_mem_nil
  | case2 pending s c rest ih => exact ih
  | case3 s c rest r text ih =>
      intro l hl
      rcases List.mem_cons.1 hl with rfl | hl
      · exact List.cons_ne_nil _ _
      · exact ih l hl

/-- The texts of the lexemes make up the text that was not used up before. -/
theorem flatMap_text_lexemesFrom (pending : Nat) (s : ScanState) (cs : List Char) :
    (lexemesFrom d pending s cs).flatMap Lexeme.text = cs.drop pending := by
  fun_induction lexemesFrom d pending s cs with
  | case1 pending s => simp
  | case2 pending s c rest ih => simpa using ih
  | case3 s c rest r text ih =>
      rw [List.flatMap_cons, ih, List.drop_zero]
      exact congrArg (c :: ·) (List.take_append_drop r.extra rest)

theorem ScanState.offset_after (s : ScanState) (r : Recognition) (text : List Char) :
    (s.after r text).position.offset = s.position.offset + byteLength text := by
  simp [ScanState.after]

/-- A lexeme is a part of the text, and its position is the one behind the text before it. -/
theorem lexemesFrom_position (pending : Nat) (s : ScanState) (cs : List Char) :
    ∀ l ∈ lexemesFrom d pending s cs, ∃ before after,
      cs.drop pending = before ++ l.text ++ after ∧
        l.position = s.position.after before := by
  fun_induction lexemesFrom d pending s cs with
  | case1 => exact fun l hl => absurd hl List.not_mem_nil
  | case2 pending s c rest ih => simpa using ih
  | case3 s c rest r text ih =>
      intro l hl
      have hsplit : c :: rest = text ++ rest.drop r.extra := by simp [text]
      rcases List.mem_cons.1 hl with rfl | hl
      · exact ⟨[], rest.drop r.extra, by simpa using hsplit, rfl⟩
      · obtain ⟨before, after, hrest, hposition⟩ := ih l hl
        refine ⟨text ++ before, after, ?_, ?_⟩
        · rw [List.drop_zero, hsplit, hrest]
          simp
        · rw [hposition, Position.after_append]
          rfl

/-- Every lexeme lies where its position says. -/
theorem lexemesFrom_placed (pending : Nat) (s : ScanState) (cs : List Char) :
    ∀ l ∈ lexemesFrom d pending s cs, ∃ before after,
      cs.drop pending = before ++ l.text ++ after ∧
        l.position.offset = s.position.offset + byteLength before := by
  intro l hl
  obtain ⟨before, after, hsplit, hposition⟩ := lexemesFrom_position pending s cs l hl
  exact ⟨before, after, hsplit, by rw [hposition, Position.offset_after]⟩

end Token

/-! ### Products -/

/-- What one round of the tokenizer produces. -/
inductive Token.Product where
  | token (t : Token)
  | event (e : SyntaxEvent)

/-- The text that an event is about, if it comes from the tokenizer. -/
def SyntaxEvent.span? (e : SyntaxEvent) : Option (String × Nat) :=
  match e.origin with
  | .lexer text offset => some (text, offset)
  | .grammar _ _ _ => none

/-- Whether a byte offset lies on a lexeme. -/
def Lexeme.covers (l : Lexeme) (offset : Nat) : Bool :=
  l.position.offset ≤ offset && offset < l.position.offset + byteLength l.text

/-- Whether a byte offset lies on the unreadable text of an event. -/
def SyntaxEvent.covers (e : SyntaxEvent) (offset : Nat) : Bool :=
  e.span?.any fun (text, stop) =>
    stop - byteLength text.toList ≤ offset && offset < stop

namespace Token.Product

def token? : Product → Option Token
  | token t => some t
  | event _ => none

def event? : Product → Option SyntaxEvent
  | token _ => none
  | event e => some e

/-- The characters that were used up. -/
def text : Product → List Char
  | token t => t.text.toList
  | event e => (e.span?.map fun span => span.1.toList).getD []

end Token.Product

namespace Token

/-- The products of lexemes, one each; the tokens are numbered from `index`. -/
def productsOf : (index : Nat) → List Lexeme → List Product
  | _, [] => []
  | index, l :: ls =>
    match l.kind with
    | some kind => .token (ofLexeme l kind index) :: productsOf (index + 1) ls
    | none => .event (.unreadable (String.ofList l.text) l.position) :: productsOf index ls

/-- The products of the rounds of the tokenizer on a text. -/
def products (d : Dialect) (text : String) : List Product :=
  productsOf 0 (lexemes d text.toList)

variable (index : Nat) (ls : List Lexeme)

theorem length_productsOf : (productsOf index ls).length = ls.length := by
  fun_induction productsOf index ls with
  | case1 => rfl
  | case2 index l ls kind h ih => rw [List.length_cons, ih, List.length_cons]
  | case3 index l ls h ih => rw [List.length_cons, ih, List.length_cons]

theorem map_text_productsOf :
    (productsOf index ls).map Product.text = ls.map Lexeme.text := by
  fun_induction productsOf index ls with
  | case1 => rfl
  | case2 index l ls kind h ih =>
      rw [List.map_cons, ih, List.map_cons]
      simp [Product.text, ofLexeme]
  | case3 index l ls h ih =>
      rw [List.map_cons, ih, List.map_cons]
      simp [Product.text, SyntaxEvent.span?, SyntaxEvent.unreadable]

/-- The tokens of a text are those of its products and the end of the input. -/
theorem ofLexemes_eq_products (stop : Position) :
    ∃ last, ofLexemes stop index ls =
      (productsOf index ls).filterMap Product.token? ++ [ending stop last] := by
  fun_induction productsOf index ls with
  | case1 index => exact ⟨index, rfl⟩
  | case2 index l ls kind h ih =>
      obtain ⟨last, ih⟩ := ih
      refine ⟨last, ?_⟩
      simp only [ofLexemes, h]
      rw [ih, List.filterMap_cons]
      rfl
  | case3 index l ls h ih =>
      obtain ⟨last, ih⟩ := ih
      refine ⟨last, ?_⟩
      simp only [ofLexemes, h]
      rw [ih, List.filterMap_cons]
      rfl

theorem filterMap_event?_productsOf :
    (productsOf index ls).filterMap Product.event? = ls.filterMap eventOfLexeme? := by
  fun_induction productsOf index ls with
  | case1 => rfl
  | case2 index l ls kind h ih =>
      rw [List.filterMap_cons, List.filterMap_cons, ← ih]
      simp only [eventOfLexeme?, h]
      rfl
  | case3 index l ls h ih =>
      rw [List.filterMap_cons, List.filterMap_cons, ← ih]
      simp only [eventOfLexeme?, h]
      rfl

/-! ### Every byte has its product -/

/-- Exactly one lexeme covers a byte from the start of the scan to the end of the text. -/
theorem countP_covers_lexemesFrom (d : Dialect) (pending : Nat) (s : ScanState)
    (cs : List Char) (offset : Nat) :
    (lexemesFrom d pending s cs).countP (·.covers offset) =
      if s.position.offset ≤ offset ∧
        offset < s.position.offset + byteLength (cs.drop pending) then 1 else 0 := by
  fun_induction lexemesFrom d pending s cs with
  | case1 pending s => simp
  | case2 pending s c rest ih => simpa using ih
  | case3 s c rest r text ih =>
      have htext : byteLength text + byteLength (rest.drop r.extra) = byteLength (c :: rest) := by
        rw [← byteLength_append]
        simp [text]
      rw [List.countP_cons, ih, ScanState.offset_after, List.drop_zero, ← htext]
      simp only [Lexeme.covers, Bool.and_eq_true, decide_eq_true_eq]
      -- the first lexeme covers what the later ones do not
      split_ifs <;> omega

/-- A byte is covered by the tokens and events of lexemes as often as by the lexemes. -/
theorem countP_covers_productsOf (offset : Nat) (hread : ∀ l ∈ ls, l.kind ≠ some .eof)
    (htext : ∀ l ∈ ls, l.text ≠ []) :
    ((productsOf index ls).filterMap Product.token?).countP
          (fun t => !t.isEof && t.contains offset) +
        ((productsOf index ls).filterMap Product.event?).countP (·.covers offset) =
      ls.countP (·.covers offset) := by
  fun_induction productsOf index ls with
  | case1 => rfl
  | case2 index l ls kind h ih =>
      have hrest := ih (fun l hl => hread l (List.mem_cons_of_mem _ hl))
        (fun l hl => htext l (List.mem_cons_of_mem _ hl))
      have hpos := byteLength_pos (htext l List.mem_cons_self)
      have hkind : kind ≠ .eof := fun he => hread l List.mem_cons_self (he ▸ h)
      -- the last byte of a token is the one in front of its end
      have hcovers : (!(ofLexeme l kind index).isEof &&
          (ofLexeme l kind index).contains offset) = l.covers offset := by
        have heof : (ofLexeme l kind index).isEof = false := beq_eq_false_iff_ne.2 hkind
        rw [heof, Bool.not_false, Bool.true_and, contains, Lexeme.covers, ofLexeme]
        dsimp only
        congr 1
        rw [decide_eq_decide]
        omega
      simp only [Product.token?, Product.event?, List.filterMap_cons, List.countP_cons, hcovers]
      omega
  | case3 index l ls h ih =>
      have hrest := ih (fun l hl => hread l (List.mem_cons_of_mem _ hl))
        (fun l hl => htext l (List.mem_cons_of_mem _ hl))
      have hcovers : (SyntaxEvent.unreadable (String.ofList l.text) l.position).covers offset =
          l.covers offset := by
        simp [SyntaxEvent.covers, SyntaxEvent.span?, SyntaxEvent.unreadable, Lexeme.covers]
      simp only [Product.token?, Product.event?, List.filterMap_cons, List.countP_cons, hcovers]
      omega

end Token

/-! ### The tiling -/

/-- The rounds of a tokenizer on a text, given by their products, and what comes
out of them. -/
structure Tiles (text : String) (rounds : List Token.Product) (tokens : List Token)
    (events : List SyntaxEvent) : Prop where
  /-- Every round uses up a character. -/
  progress : ∀ round ∈ rounds, round.text ≠ []
  /-- No character is lost, used twice or moved. -/
  whole : rounds.flatMap Token.Product.text = text.toList
  /-- The tokens are those of the rounds, and one more that ends the input. -/
  emitted : ∃ last, tokens = rounds.filterMap Token.Product.token? ++ [last] ∧
    last.isEof = true ∧ last.start = byteLength text.toList ∧ last.stop = byteLength text.toList
  /-- The events are those of the rounds. -/
  reported : events = rounds.filterMap Token.Product.event?
  /-- No token of a round ends the input. -/
  inner : ∀ t ∈ rounds.filterMap Token.Product.token?, t.isEof = false
  /-- The text of a token is what stands at its offsets. -/
  placed : ∀ t ∈ tokens, t.isEof = false →
    slice? text.toList t.start (t.stop + 1) = some t.text.toList
  numbered : tokens.map Token.index = List.range tokens.length
  channels : ∀ t ∈ tokens, t.channel = .hidden ↔ t.kind = .whitespace ∨ t.kind = .comment
  /-- Every byte belongs to one token or to one event, and to no other. -/
  covered : ∀ offset < byteLength text.toList,
    tokens.countP (fun t => !t.isEof && t.contains offset) +
      events.countP (·.covers offset) = 1

namespace Token

theorem hidden_iff (kind : TokenKind) :
    kind.channel = .hidden ↔ kind = .whitespace ∨ kind = .comment := by
  cases kind <;> simp [TokenKind.channel]

/-- A token of a product comes from a readable lexeme. -/
theorem mem_filterMap_token? {index : Nat} {ls : List Lexeme} {t : Token}
    (ht : t ∈ (productsOf index ls).filterMap Product.token?) :
    ∃ l ∈ ls, ∃ kind i, l.kind = some kind ∧ t = ofLexeme l kind i := by
  fun_induction productsOf index ls with
  | case1 => cases ht
  | case2 index l ls kind h ih =>
      rw [List.filterMap_cons] at ht
      rcases List.mem_cons.1 ht with rfl | ht
      · exact ⟨l, List.mem_cons_self, kind, index, h, rfl⟩
      · obtain ⟨l', hl', hrest⟩ := ih ht
        exact ⟨l', List.mem_cons_of_mem _ hl', hrest⟩
  | case3 index l ls h ih =>
      rw [List.filterMap_cons] at ht
      obtain ⟨l', hl', hrest⟩ := ih ht
      exact ⟨l', List.mem_cons_of_mem _ hl', hrest⟩

/-! ### The products of a text -/

section Products

variable {d : Dialect} {text : String}

theorem flatMap_text_products (d : Dialect) (text : String) :
    (products d text).flatMap Product.text = text.toList := by
  rw [List.flatMap_def, products, map_text_productsOf, ← List.flatMap_def]
  exact flatMap_text_lexemesFrom 0 .start text.toList

theorem text_ne_nil_of_mem_products {round : Product} (h : round ∈ products d text) :
    round.text ≠ [] := by
  intro hnil
  have hmem : round.text ∈ (lexemes d text.toList).map Lexeme.text := by
    rw [← map_text_productsOf 0]
    exact List.mem_map_of_mem h
  obtain ⟨l, hl, heq⟩ := List.mem_map.1 hmem
  exact lexemesFrom_text_ne_nil 0 .start text.toList l hl (heq.trans hnil)

theorem isEof_of_mem_products {t : Token}
    (ht : t ∈ (products d text).filterMap Product.token?) : t.isEof = false := by
  obtain ⟨l, hl, kind, i, hkind, rfl⟩ := mem_filterMap_token? ht
  apply beq_eq_false_iff_ne.2
  intro he
  exact lexemesFrom_kind_ne_eof 0 .start text.toList l hl (hkind.trans (congrArg some he))

/-- The text of a token is what stands at its offsets. -/
theorem slice?_of_mem_products {t : Token}
    (ht : t ∈ (products d text).filterMap Product.token?) :
    slice? text.toList t.start (t.stop + 1) = some t.text.toList := by
  obtain ⟨l, hl, kind, i, -, rfl⟩ := mem_filterMap_token? ht
  obtain ⟨before, after, hsplit, hoffset⟩ := lexemesFrom_placed 0 .start text.toList l hl
  have hpos := byteLength_pos (lexemesFrom_text_ne_nil 0 .start text.toList l hl)
  have hstart : l.position.offset = byteLength before := by
    simpa [ScanState.start, Position.start] using hoffset
  have hstop : l.position.offset + byteLength l.text - 1 + 1 =
      byteLength before + byteLength l.text := by omega
  rw [List.drop_zero] at hsplit
  simp only [ofLexeme, String.toList_ofList]
  rw [hstop, hstart, hsplit]
  exact slice?_append before l.text after

/-- Every byte of a text is covered once, by a token or by an event. -/
theorem countP_covers_products {offset : Nat} (h : offset < byteLength text.toList) :
    ((products d text).filterMap Product.token?).countP
          (fun t => !t.isEof && t.contains offset) +
        ((products d text).filterMap Product.event?).countP (·.covers offset) = 1 := by
  have hcount := countP_covers_productsOf 0 _ offset
    (lexemesFrom_kind_ne_eof (d := d) 0 .start text.toList)
    (lexemesFrom_text_ne_nil (d := d) 0 .start text.toList)
  rw [countP_covers_lexemesFrom, List.drop_zero, if_pos] at hcount
  · exact hcount
  · simpa [ScanState.start, Position.start] using h

end Products

end Token

/-- The tokenizer tiles every text in every dialect. -/
theorem tokenize_tiles (d : Dialect) (text : String) :
    (Token.products d text).length = (Token.lexemes d text.toList).length ∧
      Tiles text (Token.products d text) (tokenize d text) (tokenEvents d text) := by
  obtain ⟨last, hlast⟩ := Token.ofLexemes_eq_products 0 (Token.lexemes d text.toList)
    (Position.start.after text.toList)
  have htokens : tokenize d text =
      (Token.products d text).filterMap Token.Product.token? ++
        [Token.ending (Position.start.after text.toList) last] := hlast
  have hevents : tokenEvents d text = (Token.products d text).filterMap Token.Product.event? :=
    (Token.filterMap_event?_productsOf 0 _).symm
  refine ⟨Token.length_productsOf 0 _, ?_⟩
  constructor
  case progress => exact fun round hround => Token.text_ne_nil_of_mem_products hround
  case whole => exact Token.flatMap_text_products d text
  case emitted =>
    refine ⟨_, htokens, rfl, ?_, ?_⟩ <;> simp [Token.ending, Position.start]
  case reported => exact hevents
  case inner => exact fun t ht => Token.isEof_of_mem_products ht
  case placed =>
    intro t ht heof
    rw [htokens] at ht
    rcases List.mem_append.1 ht with ht | ht
    · exact Token.slice?_of_mem_products ht
    · rw [List.mem_singleton.1 ht] at heof
      cases heof
  case numbered => exact (tokenize_listed d text).numbered
  case channels =>
    intro t ht
    rw [htokens] at ht
    rcases List.mem_append.1 ht with ht | ht
    · obtain ⟨l, -, kind, i, -, rfl⟩ := Token.mem_filterMap_token? ht
      exact Token.hidden_iff kind
    · rw [List.mem_singleton.1 ht]
      simp [Token.ending]
  case covered =>
    intro offset hoffset
    -- the token that ends the input covers no byte
    rw [hevents, htokens, List.countP_append]
    exact Token.countP_covers_products hoffset

end MySqlAnalysis
