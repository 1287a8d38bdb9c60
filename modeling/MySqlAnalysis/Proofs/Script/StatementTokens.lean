import MySqlAnalysis.Config.Basic
import MySqlAnalysis.Proofs.Script.Elements

/-!
# Tokens of statements

The tokens of a regular text, cut at the semicolons, are the tokens of the statements
of its script, each at its place. The sections of a script are followed from one
semicolon to the next one (`Script.exists_firstSection`): the first section is the text
up to the first semicolon that is a token.
-/

set_option autoImplicit false

namespace MySqlAnalysis.Script

open Text Token

variable {d : Dialect} {last : Option TokenKind}

/-! ### The spans of a section -/

/-- The spans of a statement at its place in the script. -/
def statementSpans (d : Dialect) (s : Statement) : List Span :=
  (spans d s.text).map (Span.shift s.start)

/-- The spans of a section, after a token of the kind `last`. -/
def sectionSpans (d : Dialect) (last : Option TokenKind) (ps : List Piece) : List Span :=
  match ps.dropWhile fun p => p.role != .content with
  | [] => []
  | p :: ps => spansFrom d last p.start ((p :: ps).flatMap Piece.text)

theorem ofRegion?_spans (hd : d.mode.has .noBackslashEscapes = false) {region : List Char}
    (h : Regular region) (offset : Nat) :
    ((Statement.ofRegion? offset region).map (statementSpans d)).getD [] =
      spansFrom d none offset region := by
  rw [← spansFrom_trim hd h, Statement.ofRegion?]
  split
  case isTrue hempty => rw [List.isEmpty_iff.1 hempty, spansFrom_nil]; rfl
  case isFalse =>
    rw [Option.map_some, Option.getD_some, statementSpans, spans_eq_spansFrom,
      String.toList_ofList, ← spansFrom_shift]

theorem statement?_spans (hd : d.mode.has .noBackslashEscapes = false) {ps : List Piece}
    (h : Regular (ps.flatMap Piece.text)) :
    ((statement? ps).map (statementSpans d)).getD [] = sectionSpans d none ps := by
  have hsuffix := List.dropWhile_suffix (l := ps) fun p => p.role != .content
  rw [statement?, sectionSpans]
  cases hdrop : ps.dropWhile fun p => p.role != .content with
  | nil => rfl
  | cons p qs =>
      rw [hdrop] at hsuffix
      obtain ⟨front, rfl⟩ := hsuffix
      rw [List.flatMap_append] at h
      exact ofRegion?_spans hd h.of_append_right p.start

theorem sectionSpans_last {last' : Option TokenKind} (h : endsName last = endsName last')
    (ps : List Piece) : sectionSpans d last ps = sectionSpans d last' ps := by
  rw [sectionSpans, sectionSpans]
  split
  · rfl
  · exact spansFrom_last h _ _

theorem sectionSpans_append_silent {qs : List Piece} (hqs : ∀ q ∈ qs, q.role ≠ .content)
    (ps : List Piece) : sectionSpans d last (qs ++ ps) = sectionSpans d last ps := by
  have hdrop : ∀ q ∈ qs, (q.role != .content) = true := fun q hq => bne_iff_ne.2 (hqs q hq)
  rw [sectionSpans, sectionSpans, List.dropWhile_append_of_pos hdrop]

theorem sectionSpans_cons_content {p : Piece} (hp : p.role = .content) (ps : List Piece) :
    sectionSpans d last (p :: ps) =
      spansFrom d last p.start ((p :: ps).flatMap Piece.text) := by
  have hdrop : ((p :: ps).dropWhile fun p => p.role != .content) = p :: ps := by
    simp [hp]
  rw [sectionSpans, hdrop]

/-! ### The first section -/

/-- What follows the first section of a script, whose pieces are `ps` and whose text is
`head`: nothing, or a semicolon and the sections and tokens of the rest. -/
inductive Follows (d : Dialect) (last : Option TokenKind) (previous : Option Char) (offset : Nat)
    (cs : List Char) (ps : List Piece) (head : List Char) : Prop
  | nothing (text : cs = head)
      (pieces : sections (piecesFrom plainSeparators 0 previous offset cs) = [ps])
  | semicolon (previous' : Option Char) {rest : List Char} {s : Span}
      (text : cs = head ++ ';' :: rest)
      (pieces : sections (piecesFrom plainSeparators 0 previous offset cs) =
        ps :: sections (piecesFrom plainSeparators 0 previous'
          (offset + byteLength (head ++ [';'])) rest))
      (kind : s.kind = .semicolon)
      (tokens : spansFrom d last offset cs = spansFrom d last offset head ++
        s :: spansFrom d (some .semicolon) (offset + byteLength (head ++ [';'])) rest)

/-- The first section of a script has the tokens up to the first semicolon. -/
structure FirstSection (d : Dialect) (last : Option TokenKind) (previous : Option Char)
    (offset : Nat) (cs : List Char) (ps : List Piece) (head : List Char) : Prop where
  text : ps.flatMap Piece.text = head
  spans : sectionSpans d last ps = spansFrom d last offset head
  kinds : ∀ s ∈ spansFrom d last offset head, s.kind ≠ .semicolon
  follows : Follows d last previous offset cs ps head

theorem FirstSection.nil (last : Option TokenKind) (previous : Option Char) (offset : Nat) :
    FirstSection d last previous offset [] [] [] where
  text := rfl
  spans := by rw [spansFrom_nil]; rfl
  kinds := by simp
  follows := .nothing rfl (by rw [piecesFrom]; rfl)

/-- A section ends at a semicolon at once. -/
theorem FirstSection.of_semicolon {rest : List Char} (h : Regular (';' :: rest))
    (helement : Element d last (some .semicolon) [';'] rest) (previous : Option Char)
    (offset : Nat) : FirstSection d last previous offset (';' :: rest) [] [] where
  text := rfl
  spans := by rw [spansFrom_nil]; rfl
  kinds := by simp
  follows := by
    obtain ⟨previous', hpieces⟩ := piecesFrom_of_cut (cut_semicolon h previous) offset
    have htokens := helement.reads offset (List.append_nil rest).symm .nil
    refine .semicolon previous' rfl ?_ rfl htokens
    rw [hpieces, sections_cons_of_ends rfl]
    rfl

theorem Follows.exists_breaks {previous : Option Char} {offset : Nat} {cs : List Char}
    {ps : List Piece} {head : List Char} (h : Follows d last previous offset cs ps head) :
    ∃ w, cs = head ++ w ∧ Breaks w := by
  cases h with
  | nothing htext => exact ⟨[], by simp [htext], .nil⟩
  | semicolon _ htext => exact ⟨_, htext, .cons rfl _⟩

theorem kind_of_spanAt? {kind : Option TokenKind} {text : List Char} {offset : Nat} {s : Span}
    (h : s ∈ spanAt? kind text offset) : kind = some s.kind := by
  cases kind with
  | none => cases h
  | some k =>
      rw [spanAt?] at h
      split at h
      · cases h
        rfl
      · cases h

/-- The pieces of an element: without content, or with content from its start on. -/
structure Pieces (kind : Option TokenKind) (offset : Nat) (u : List Char) (qs : List Piece) :
    Prop where
  text : qs.flatMap Piece.text = u
  ends : ∀ q ∈ qs, q.role.endsStatement = false
  role : Silent kind ∧ (∀ q ∈ qs, q.role ≠ .content) ∨
    ∃ q qs', qs = q :: qs' ∧ q.role = .content ∧ q.start = offset

/-- An element in front of the first section belongs to it. -/
theorem FirstSection.append {kind : Option TokenKind} {u t : List Char} {qs ps : List Piece}
    {head : List Char} {previous previous' : Option Char} {offset : Nat}
    (helement : Element d last kind u t) (hkind : kind ≠ some .semicolon)
    (hqs : Pieces kind offset u qs)
    (hpieces : piecesFrom plainSeparators 0 previous offset (u ++ t) =
      qs ++ piecesFrom plainSeparators 0 previous' (offset + byteLength u) t)
    (hfirst : FirstSection d (lastAfter last kind) previous' (offset + byteLength u) t ps head) :
    FirstSection d last previous offset (u ++ t) (qs ++ ps) (u ++ head) := by
  obtain ⟨w, ht, hw⟩ := hfirst.follows.exists_breaks
  have hread := helement.reads offset ht hw
  have htext : (qs ++ ps).flatMap Piece.text = u ++ head := by
    rw [List.flatMap_append, hqs.text, hfirst.text]
  refine ⟨htext, ?_, ?_, ?_⟩
  · rcases hqs.role with ⟨hsilent, hrole⟩ | ⟨q, qs', rfl, hrole, hstart⟩
    · -- in front of the content, or of nothing, the element is dropped and has no token
      have hspans := hfirst.spans
      rw [hsilent.lastAfter] at hspans hread
      rw [sectionSpans_append_silent hrole, hspans, hread, hsilent.spanAt?]
      rfl
    · -- from here on everything up to the semicolon belongs to the statement
      rw [List.cons_append] at htext ⊢
      rw [sectionSpans_cons_content hrole, htext, hstart]
  · intro s hs
    rw [hread, List.mem_append, Option.mem_toList] at hs
    rcases hs with hs | hs
    · intro hsemicolon
      exact hkind (hsemicolon ▸ kind_of_spanAt? hs)
    · exact hfirst.kinds s hs
  · cases hfirst.follows with
    | nothing htail hsections =>
        refine .nothing (by rw [htail]) ?_
        rw [hpieces, sections_append hqs.ends hsections]
    | semicolon previous'' htail hsections hs htokens =>
        have hoffset : offset + byteLength u + byteLength (head ++ [';']) =
            offset + byteLength (u ++ head ++ [';']) := by
          simp [Nat.add_assoc]
        rw [hoffset] at hsections htokens
        refine .semicolon previous'' (by rw [htail, List.append_assoc]) ?_ hs ?_
        · rw [hpieces, sections_append hqs.ends hsections]
        · rw [helement.reads offset (List.append_nil t).symm .nil, htokens, hread]
          exact (List.append_assoc _ _ _).symm

/-- The pieces of an element that is no semicolon. -/
theorem exists_pieces {kind : Option TokenKind} {u t : List Char} (hu : u ≠ [])
    (hplays : Silent kind ∧ Idle u t ∨ Live u t) (previous : Option Char) (offset : Nat) :
    ∃ previous' qs, Pieces kind offset u qs ∧
      piecesFrom plainSeparators 0 previous offset (u ++ t) =
        qs ++ piecesFrom plainSeparators 0 previous' (offset + byteLength u) t := by
  rcases hplays with ⟨hsilent, hidle⟩ | hlive
  · obtain ⟨previous', role, hrole, hpieces⟩ := hidle previous offset
    refine ⟨previous', [⟨role, offset, u⟩], ⟨by simp, ?_, .inl ⟨hsilent, ?_⟩⟩, hpieces⟩
    · rcases hrole with rfl | rfl <;> simp [Role.endsStatement]
    · rcases hrole with rfl | rfl <;> simp
  · obtain ⟨previous', qs, htext, hrole, hpieces⟩ := hlive previous offset
    refine ⟨previous', qs, ⟨htext, ?_, .inr ?_⟩, hpieces⟩
    · intro q hq
      rw [hrole q hq]
      rfl
    · cases qs with
      | nil => exact absurd htext.symm hu
      | cons q qs =>
          exact ⟨q, qs, rfl, hrole q List.mem_cons_self, start_of_piecesFrom hpieces⟩

theorem exists_firstSection (hd : d.mode.has .noBackslashEscapes = false) {cs : List Char}
    (h : Regular cs) (last : Option TokenKind) (previous : Option Char) (offset : Nat) :
    ∃ ps head, FirstSection d last previous offset cs ps head := by
  -- over the elements in front of the first semicolon
  induction hlength : cs.length using Nat.strong_induction_on
    generalizing cs last previous offset with
  | _ length ih =>
    subst hlength
    cases cs with
    | nil => exact ⟨[], [], .nil last previous offset⟩
    | cons c rest =>
        obtain ⟨kind, u, t, hsplit, hu, helement, hplays⟩ := exists_element hd last h
        rw [hsplit] at h ih ⊢
        rcases hplays with ⟨rfl, rfl⟩ | ⟨hkind, hplays⟩
        · exact ⟨[], [], .of_semicolon h helement previous offset⟩
        · obtain ⟨previous', qs, hqs, hpieces⟩ := exists_pieces hu hplays previous offset
          have hshorter : t.length < (u ++ t).length := by
            have hpos := List.length_pos_iff.2 hu
            rw [List.length_append]
            omega
          obtain ⟨ps, head, hfirst⟩ := ih t.length hshorter h.of_append_right (lastAfter last kind)
            previous' (offset + byteLength u) rfl
          exact ⟨_, _, hfirst.append helement hkind hqs hpieces⟩

/-! ### All sections -/

theorem sections_spans (hd : d.mode.has .noBackslashEscapes = false) {cs : List Char}
    (h : Regular cs) (hlast : endsName last = false) (previous : Option Char) (offset : Nat) :
    (sections (piecesFrom plainSeparators 0 previous offset cs)).map
        (fun ps => ((statement? ps).map (statementSpans d)).getD []) =
      (spansFrom d last offset cs).splitOnP (·.kind == .semicolon) := by
  induction hlength : cs.length using Nat.strong_induction_on
    generalizing cs last previous offset with
  | _ length ih =>
    subst hlength
    obtain ⟨ps, head, hfirst⟩ := exists_firstSection hd h last previous offset
    have hhead : Regular head := by
      obtain ⟨w, rfl, -⟩ := hfirst.follows.exists_breaks
      exact h.of_append_left
    have hspans : ((statement? ps).map (statementSpans d)).getD [] =
        spansFrom d last offset head := by
      rw [statement?_spans hd (hfirst.text ▸ hhead), ← hfirst.spans]
      have hname : endsName none = endsName last := hlast.symm
      exact sectionSpans_last hname ps
    -- the tokens of the head are one group
    have hsingle : (spansFrom d last offset head).splitOnP (·.kind == .semicolon) =
        [spansFrom d last offset head] :=
      List.splitOnP_eq_singleton fun s hs => beq_eq_false_iff_ne.2 (hfirst.kinds s hs)
    cases hfirst.follows with
    | nothing htext hsections =>
        rw [hsections, htext, hsingle, List.map_singleton, hspans]
    | semicolon previous' htext hsections hs htokens =>
        rw [hsections, htokens, List.splitOnP_append_cons _ _ (by rw [hs]; rfl), hsingle,
          List.map_cons, hspans]
        subst htext
        -- a semicolon is no name, so the rest is read as at the start of a text
        have hname : endsName (some .semicolon) = false := rfl
        rw [ih _ (by simp; omega) h.of_append_right.of_cons hname _ _ rfl]
        rfl

theorem filter_map_filterMap {α β γ : Type} (f : α → Option β) (g : β → List γ) (l : List α) :
    ((l.filterMap f).map g).filter (!·.isEmpty) =
      (l.map fun a => ((f a).map g).getD []).filter (!·.isEmpty) := by
  induction l with
  | nil => rfl
  | cons a l ih =>
      cases hf : f a with
      | none => simpa [hf] using ih
      | some b => simp [hf, List.filter_cons, ih]

/-- The statements of a regular script have the tokens of the script, cut at the semicolons. -/
theorem spans_of_statements (text : String) (h : Regular text.toList) :
    ((spans Config.standard.dialect text).splitOnP (·.kind == .semicolon)).filter
        (!·.isEmpty) =
      ((statements (.ofTexts "\n" ";") text).map
        (statementSpans Config.standard.dialect)).filter (!·.isEmpty) := by
  have hd : Config.standard.dialect.mode.has .noBackslashEscapes = false := by decide
  have hname : endsName none = false := rfl
  rw [ofTexts_eq_plainSeparators, statements, filter_map_filterMap, pieces,
    sections_spans hd h hname, spans_eq_spansFrom]

/-- Semicolons in strings and comments, and a doubled quote. -/
theorem spans_of_statements_quoted :
    Regular "SELECT 'a;''b' -- ;\n ; /* ; */ SET @x = 1e-3;".toList ∧
      ((spans Config.standard.dialect "SELECT 'a;''b' -- ;\n ; /* ; */ SET @x = 1e-3;").splitOnP
          (·.kind == .semicolon)).filter (!·.isEmpty) =
        ((statements (.ofTexts "\n" ";") "SELECT 'a;''b' -- ;\n ; /* ; */ SET @x = 1e-3;").map
          (statementSpans Config.standard.dialect)).filter (!·.isEmpty) :=
  have h : Regular "SELECT 'a;''b' -- ;\n ; /* ; */ SET @x = 1e-3;".toList := by decide +kernel
  ⟨h, spans_of_statements _ h⟩

end MySqlAnalysis.Script
