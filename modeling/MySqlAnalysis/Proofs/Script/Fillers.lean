import MySqlAnalysis.Proofs.Script.StatementSpans
import MySqlAnalysis.Proofs.Script.Stretches

/-!
# White space and comments in front of a script

A text of white space and comments adds nothing to the statements behind it, with one
exception: white space that is no blank of a script (`Filler.isOdd`) starts a statement,
so that a comment behind it becomes the text of a statement. The statements behind such a
text are those of the script alone exactly if no comment stands behind odd white space
(`Script.statements_fillers_iff`).
-/

set_option autoImplicit false

namespace MySqlAnalysis.Script

open Text

/-- A white-space character, or a comment that is closed. -/
inductive Filler where
  | space (c : Char) (h : isWhiteSpace c = true)
  | hash (body : List Char) (h : '\n' ∉ body)
  | dashes (body : List Char) (h : '\n' ∉ body)
  | block (body : List Char) (h : ¬ ['*', '/'] <:+: body) (hplain : body.head? ≠ some '!')

namespace Filler

def text : Filler → List Char
  | space c _ => [c]
  | hash body _ => '#' :: (body ++ ['\n'])
  | dashes body _ => '-' :: '-' :: ' ' :: (body ++ ['\n'])
  | block body _ _ => '/' :: '*' :: (body ++ ['*', '/'])

def isComment : Filler → Bool
  | space _ _ => false
  | _ => true

/-- White space that gives a statement content. -/
def isOdd : Filler → Bool
  | space c _ => !isPlainBlank c
  | _ => false

/-- What the filler is for as a piece of a script. -/
def role (f : Filler) : Role :=
  if f.isComment then .comment else if f.isOdd then .content else .blank

/-- The pieces that fillers make up from an offset on. -/
def row : (offset : Nat) → List Filler → List Piece
  | _, [] => []
  | offset, f :: fs => ⟨f.role, offset, f.text⟩ :: row (offset + byteLength f.text) fs

theorem endsStatement_role (f : Filler) : f.role.endsStatement = false := by
  unfold role
  split
  · rfl
  · split <;> rfl

theorem role_eq_content_iff (f : Filler) : f.role = .content ↔ f.isOdd = true := by
  cases f <;> simp [role, isComment, isOdd]

end Filler

/-! ### The pieces of fillers -/

theorem cut_filler (f : Filler) (t : List Char) :
    ∃ c u, f.text = c :: u ∧
      ∀ previous, cut plainSeparators previous c (u ++ t) = ⟨f.role, u.length⟩ := by
  cases f with
  | space c hc =>
      have hd : ¬ plainSeparators.delimiter <+: c :: t := by
        intro hprefix
        obtain ⟨rfl, -⟩ := List.cons_prefix_cons.1 hprefix
        cases hc
      refine ⟨c, [], rfl, fun previous => ?_⟩
      rw [List.nil_append, cut_whiteSpace hc hd]
      cases hblank : isPlainBlank c <;> simp [Filler.role, Filler.isComment, Filler.isOdd, hblank]
  | hash body h =>
      refine ⟨'#', body ++ ['\n'], rfl, fun previous => ?_⟩
      have hcut : cut plainSeparators previous '#' (body ++ '\n' :: t) =
          ⟨.comment, lineLength ['\n'] ('#' :: (body ++ '\n' :: t)) - 1⟩ := rfl
      rw [List.append_assoc, List.singleton_append, hcut, lineLength_comment (by decide) h]
      simp [Filler.role, Filler.isComment]
  | dashes body h =>
      refine ⟨'-', '-' :: ' ' :: (body ++ ['\n']), rfl, fun previous => ?_⟩
      have hcut : cut plainSeparators previous '-' ('-' :: ' ' :: body ++ '\n' :: t) =
          ⟨.comment, lineLength ['\n'] ('-' :: ('-' :: ' ' :: body ++ '\n' :: t)) - 1⟩ := rfl
      have hline : '\n' ∉ '-' :: ' ' :: body := by simp [h]
      rw [← List.cons_append, ← List.cons_append, List.append_assoc, List.singleton_append, hcut,
        lineLength_comment (by decide) hline]
      simp [Filler.role, Filler.isComment]
  | block body h hplain =>
      refine ⟨'/', '*' :: (body ++ ['*', '/']), rfl, fun previous => ?_⟩
      have hbody : (body ++ '*' :: '/' :: t).head? ≠ some '!' := by
        cases body <;> simp_all
      rw [List.cons_append, List.append_assoc, List.cons_append, List.cons_append, List.nil_append,
        cut_blockComment hbody, blockCommentExtra, List.tail_cons, Token.find?_closing h]
      simp [Filler.role, Filler.isComment]

theorem piecesFrom_filler (f : Filler) (t : List Char) (previous : Option Char) (offset : Nat) :
    ∃ previous', piecesFrom plainSeparators 0 previous offset (f.text ++ t) =
      ⟨f.role, offset, f.text⟩ ::
        piecesFrom plainSeparators 0 previous' (offset + byteLength f.text) t := by
  obtain ⟨c, u, htext, hcut⟩ := cut_filler f t
  obtain ⟨previous', hpieces⟩ := piecesFrom_of_cut (hcut previous) offset
  have hsame : plainSeparators.after f.role = plainSeparators := by
    cases hrole : f.role with
    | directive d => cases hrole ▸ f.endsStatement_role
    | _ => rfl
  rw [hsame, List.take_left, List.drop_left] at hpieces
  refine ⟨previous', ?_⟩
  rw [htext]
  exact hpieces

/-- Fillers in front of a script are a row of pieces. -/
theorem piecesFrom_fillers (fs : List Filler) (t : List Char) (previous : Option Char)
    (offset : Nat) :
    ∃ previous', piecesFrom plainSeparators 0 previous offset (fs.flatMap Filler.text ++ t) =
      Filler.row offset fs ++
        piecesFrom plainSeparators 0 previous' (offset + byteLength (fs.flatMap Filler.text)) t := by
  induction fs generalizing previous offset with
  | nil => exact ⟨previous, rfl⟩
  | cons f fs ih =>
      obtain ⟨previous₁, hfirst⟩ :=
        piecesFrom_filler f (fs.flatMap Filler.text ++ t) previous offset
      obtain ⟨previous₂, hrest⟩ := ih previous₁ (offset + byteLength f.text)
      refine ⟨previous₂, ?_⟩
      rw [List.flatMap_cons, List.append_assoc, hfirst, hrest, byteLength_append, Nat.add_assoc]
      rfl

/-! ### White space in front of a statement -/

/-- A statement starts at the first character that is no white space. -/
theorem ofRegion?_of_not_white {w : List Char} {c : Char} (hc : c ∈ w)
    (hspace : isWhiteSpace c = false) (offset : Nat) (region : List Char) :
    ∃ s, Statement.ofRegion? offset (w ++ region) = some s ∧ s.start < offset + byteLength w := by
  have hsplit : w.takeWhile isWhiteSpace ++ w.dropWhile isWhiteSpace = w :=
    List.takeWhile_append_dropWhile
  have hleading : ∀ e ∈ w.takeWhile isWhiteSpace, isWhiteSpace e = true := fun _ =>
    List.mem_takeWhile_imp
  obtain ⟨d, more, hdrop⟩ : ∃ d more, w.dropWhile isWhiteSpace = d :: more := by
    refine List.exists_cons_of_ne_nil fun hnil => ?_
    rw [List.dropWhile_eq_nil_iff.1 hnil c hc] at hspace
    cases hspace
  have hd : isWhiteSpace d = false := head?_dropWhile_isWhiteSpace w d (by rw [hdrop]; rfl)
  rw [hdrop] at hsplit
  rw [← hsplit, List.append_assoc, ofRegion?_white hleading, Statement.ofRegion?, if_neg]
  · refine ⟨_, rfl, ?_⟩
    have hbytes := byteLength_pos (List.cons_ne_nil d more)
    simp only [List.cons_append, List.takeWhile_cons, hd, byteLength_append]
    simpa using hbytes
  · rw [List.isEmpty_iff]
    intro hnil
    rw [trim_eq_nil_iff.1 hnil d List.mem_cons_self] at hd
    cases hd

/-! ### Fillers in front of pieces -/

theorem sections_head {ps s : List Piece} {ss : List (List Piece)} (h : sections ps = s :: ss) :
    s <+: ps ∧ ∀ p ∈ s, p.role.endsStatement = false := by
  rcases sections_cases ps with ⟨hps, hsections⟩ | ⟨front, p, rest, rfl, hfront, -, hsections⟩
  · obtain ⟨rfl, -⟩ := List.cons.inj (hsections.symm.trans h)
    exact ⟨List.prefix_rfl, hps⟩
  · obtain ⟨rfl, -⟩ := List.cons.inj (hsections.symm.trans h)
    exact ⟨List.prefix_append front (p :: rest), hfront⟩

namespace Filler

theorem flatMap_text_row (offset : Nat) (fs : List Filler) :
    (row offset fs).flatMap Piece.text = fs.flatMap text := by
  induction fs generalizing offset with
  | nil => rfl
  | cons f fs ih => rw [row, List.flatMap_cons, List.flatMap_cons, ih]

theorem endsStatement_row {offset : Nat} {fs : List Filler} :
    ∀ p ∈ row offset fs, p.role.endsStatement = false := by
  induction fs generalizing offset with
  | nil => simp [row]
  | cons f fs ih => exact List.forall_mem_cons.2 ⟨f.endsStatement_role, ih⟩

theorem isWhiteSpace_of_mem_text {f : Filler} (hf : f.isComment = false) :
    ∀ c ∈ f.text, isWhiteSpace c = true := by
  cases f with
  | space c hc => exact List.forall_mem_singleton.2 hc
  | _ => cases hf

theorem exists_mem_text {f : Filler} (hf : f.isComment = true) :
    ∃ c ∈ f.text, isWhiteSpace c = false := by
  cases f with
  | space => cases hf
  | hash => exact ⟨'#', List.mem_cons_self, rfl⟩
  | dashes => exact ⟨'-', List.mem_cons_self, rfl⟩
  | block => exact ⟨'/', List.mem_cons_self, rfl⟩

end Filler

section Pieces

variable {f : Filler} {fs : List Filler} {offset : Nat} {ps : List Piece} {cs : List Char}

/-- The statement that odd white space starts takes the fillers behind it and goes on to the end
of the first section. -/
theorem statementsOf_odd (hf : f.isOdd = true) {s : List Piece} {ss : List (List Piece)}
    (hps : sections ps = s :: ss) :
    statementsOf (Filler.row offset (f :: fs) ++ ps) =
      (Statement.ofRegion? offset ((f :: fs).flatMap Filler.text ++ s.flatMap Piece.text)).toList ++
        ss.filterMap statement? := by
  have hregion : statement? (Filler.row offset (f :: fs) ++ s) =
      Statement.ofRegion? offset ((f :: fs).flatMap Filler.text ++ s.flatMap Piece.text) := by
    rw [Filler.row, List.cons_append, statement?_cons (f.role_eq_content_iff.2 hf),
      ← List.cons_append, List.flatMap_append, ← Filler.row, Filler.flatMap_text_row]
  rw [statementsOf, sections_append Filler.endsStatement_row hps, List.filterMap_cons, hregion]
  cases Statement.ofRegion? offset _ <;> rfl

/-- Where the pieces start with content, so does their first section. -/
theorem statement?_section (hrow : Row offset ps cs)
    (hhead : ∀ p ∈ ps.head?, p.role = .content ∨ p.role.endsStatement = true) {s : List Piece}
    {ss : List (List Piece)} (hps : sections ps = s :: ss) :
    statement? s = Statement.ofRegion? offset (s.flatMap Piece.text) := by
  cases s with
  | nil => rfl
  | cons p s =>
      obtain ⟨⟨rest, rfl⟩, hs⟩ := sections_head hps
      have hp := (hhead p rfl).resolve_right (by simp [hs p List.mem_cons_self])
      rw [statement?_cons hp, hrow.start_eq]

/-- Odd white space starts a statement, which is trimmed unless a comment follows. -/
theorem statementsOf_odd_iff (hf : f.isOdd = true)
    (hrow : Row (offset + byteLength ((f :: fs).flatMap Filler.text)) ps cs)
    (hhead : ∀ p ∈ ps.head?, p.role = .content ∨ p.role.endsStatement = true) :
    statementsOf (Filler.row offset (f :: fs) ++ ps) = statementsOf ps ↔
      ∀ g ∈ fs, g.isComment = false := by
  obtain ⟨s, ss, hps⟩ := List.exists_cons_of_ne_nil (sections_ne_nil ps)
  rw [statementsOf_odd hf hps]
  constructor
  · intro heq g hg
    by_contra hcomment
    obtain ⟨c, hc, hspace⟩ := Filler.exists_mem_text (Bool.not_eq_false _ ▸ hcomment)
    have hmem : c ∈ (f :: fs).flatMap Filler.text :=
      List.mem_flatMap.2 ⟨g, List.mem_cons_of_mem f hg, hc⟩
    -- the statement starts among the fillers, the others behind them
    obtain ⟨t, ht, hstart⟩ := ofRegion?_of_not_white hmem hspace offset (s.flatMap Piece.text)
    rw [ht] at heq
    have hlies := (statementsOf_lie hrow).1 t (by rw [← heq]; exact List.mem_cons_self)
    exact absurd hlies.bounds.1 (Nat.not_le.2 hstart)
  · intro hspaces
    have hwhite : ∀ c ∈ (f :: fs).flatMap Filler.text, isWhiteSpace c = true := by
      intro c hc
      obtain ⟨g, hg, hc⟩ := List.mem_flatMap.1 hc
      refine Filler.isWhiteSpace_of_mem_text ?_ c hc
      rcases List.mem_cons.1 hg with rfl | hg
      · cases g <;> first | rfl | cases hf
      · exact hspaces g hg
    rw [ofRegion?_white hwhite, ← statement?_section hrow hhead hps, statementsOf, hps,
      List.filterMap_cons]
    cases statement? s <;> rfl

/-- Fillers add nothing exactly if no comment stands behind odd white space. -/
theorem statementsOf_row_iff
    (hrow : Row (offset + byteLength (fs.flatMap Filler.text)) ps cs)
    (hhead : ∀ p ∈ ps.head?, p.role = .content ∨ p.role.endsStatement = true) :
    statementsOf (Filler.row offset fs ++ ps) = statementsOf ps ↔
      fs.Pairwise fun f g => f.isOdd = true → g.isComment = false := by
  induction fs generalizing offset with
  | nil => simp [Filler.row]
  | cons f fs ih =>
      by_cases hf : f.isOdd = true
      · rw [statementsOf_odd_iff hf hrow hhead, List.pairwise_cons]
        simp only [hf, true_imp_iff]
        refine ⟨fun h => ⟨h, ?_⟩, And.left⟩
        exact List.pairwise_of_forall_mem_list fun g _ g' hg' _ => h g' hg'
      · have hidle : statementsOf (Filler.row offset (f :: fs) ++ ps) =
            statementsOf (Filler.row (offset + byteLength f.text) fs ++ ps) := by
          refine statementsOf_idle (List.forall_mem_singleton.2 f.endsStatement_role)
            (List.forall_mem_singleton.2 ?_) _
          exact fun hrole => hf (f.role_eq_content_iff.1 hrole)
        rw [List.flatMap_cons, byteLength_append, ← Nat.add_assoc] at hrow
        rw [hidle, ih hrow, List.pairwise_cons]
        simp [hf]

end Pieces

/-! ### Fillers in front of a script -/

/-- A script that starts with neither white space nor a comment nor a directive. -/
structure Opens (cs : List Char) : Prop where
  space : ∀ c ∈ cs.head?, isWhiteSpace c = false
  hash : cs.head? ≠ some '#'
  dashes : ∀ rest, cs = '-' :: '-' :: rest → dashesStartComment ['\n'] rest = false
  block : ∀ rest, cs = '/' :: '*' :: rest → rest.head? = some '!'
  directive : ¬ directiveWord <+: upper cs

theorem Opens.cut_role {c : Char} {rest : List Char} (h : Opens (c :: rest))
    (previous : Option Char) :
    (cut plainSeparators previous c rest).role = .content ∨
      (cut plainSeparators previous c rest).role.endsStatement = true := by
  have hcomment : (c == '-' && rest.head? == some '-' && dashesStartComment ['\n'] rest.tail) =
      false := by
    rw [Bool.eq_false_iff]
    intro hdashes
    rw [Bool.and_eq_true, Bool.and_eq_true, beq_iff_eq, beq_iff_eq] at hdashes
    obtain ⟨⟨rfl, hhead⟩, hstart⟩ := hdashes
    obtain ⟨more, rfl⟩ := List.head?_eq_some_iff.1 hhead
    rw [List.tail_cons, h.dashes more rfl] at hstart
    cases hstart
  have hblank : isPlainBlank c = false := by
    rw [Bool.eq_false_iff]
    intro hc
    have hspace := h.space c rfl
    rw [isWhiteSpace_of_isPlainBlank hc] at hspace
    cases hspace
  -- what is neither blank nor a comment is content or ends the statement
  unfold cut
  split
  case isTrue hslash =>
    rw [Bool.and_eq_true, beq_iff_eq, beq_iff_eq] at hslash
    obtain ⟨rfl, more, rfl⟩ := hslash.imp_right List.head?_eq_some_iff.1
    simp [h.block more rfl]
  case isFalse =>
    rw [show plainSeparators.lineBreak = ['\n'] from rfl, hcomment, if_neg Bool.false_ne_true,
      if_neg (by simpa using h.hash), hblank]
    split
    · exact .inl rfl
    · rw [startsDirective_of_not_word h.directive, if_neg Bool.false_ne_true]
      split
      · exact .inr rfl
      · exact .inl rfl

theorem Opens.head_role {cs : List Char} (h : Opens cs) (previous : Option Char) (offset : Nat) :
    ∀ p ∈ (piecesFrom plainSeparators 0 previous offset cs).head?,
      p.role = .content ∨ p.role.endsStatement = true := by
  cases cs with
  | nil => simp [piecesFrom]
  | cons c rest =>
      rw [piecesFrom]
      rintro p ⟨⟩
      exact h.cut_role previous

/-- A text of white space and comments adds nothing to the statements of the script behind it
exactly if none of the comments stands behind white space that is no blank. -/
theorem statements_fillers_iff (fs : List Filler) (text : String) (h : Opens text.toList) :
    statements (.ofTexts "\n" ";") (String.ofList (fs.flatMap Filler.text) ++ text) =
        (statements (.ofTexts "\n" ";") text).map
          (Statement.shift (byteLength (fs.flatMap Filler.text))) ↔
      fs.Pairwise fun f g => f.isOdd = true → g.isComment = false := by
  obtain ⟨previous, hpieces⟩ := piecesFrom_fillers fs text.toList none 0
  have hsame : startsDirective previous text.toList = startsDirective none text.toList := by
    rw [startsDirective_of_not_word h.directive,
      startsDirective_of_not_word h.directive]
  rw [ofTexts_eq_plainSeparators, statements_eq, statements_eq, ← statementsOf_shift, pieces, pieces,
    ← piecesFrom_shift, String.toList_append, String.toList_ofList, hpieces,
    piecesFrom_previous hsame]
  exact statementsOf_row_iff (piecesFrom_row _ _ _ _) (h.head_role _ _)

/-- Comments in front of odd white space are left out. -/
theorem statements_fillers_before :
    statements (.ofTexts "\n" ";")
        (String.ofList ([.hash " x".toList (by decide), .space '\t' rfl,
          .block " c ".toList (by decide) (by decide), .space '\x0b' rfl,
          .space '\u00a0' rfl].flatMap Filler.text) ++ "a;b") =
      [⟨"a", 15, 16⟩, ⟨"b", 17, 18⟩] := by
  rw [(statements_fillers_iff _ "a;b" ⟨by simp; decide, by decide, by simp, by simp, by decide⟩).2
    (by decide)]
  decide +kernel

/-- A comment behind a vertical tab is the text of a statement. -/
theorem statements_fillers_behind :
    statements (.ofTexts "\n" ";") (String.ofList ([.space '\x0b' rfl,
      .block " c ".toList (by decide) (by decide)].flatMap Filler.text)) = [⟨"/* c */", 1, 8⟩] := by
  decide +kernel

end MySqlAnalysis.Script
