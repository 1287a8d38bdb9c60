import Mathlib.Data.List.Infix
import MySqlAnalysis.Proofs.Text.Searching
import MySqlAnalysis.Script.Statement

/-!
# Rows of pieces

The pieces of a script lie side by side and make up its text (`Script.piecesFrom_row`).
Where a script is read from matters in two ways only: the offset shifts its pieces
(`Script.piecesFrom_shift`), and the character in front of it decides whether a
directive can start there (`Script.piecesFrom_previous`). The statements of a row of
pieces are those in front of a piece that ends a statement and those behind it
(`Script.statementsOf_append`).
-/

set_option autoImplicit false

namespace MySqlAnalysis

open Text

/-- The same statement in a script that starts `n` bytes later. -/
def Statement.shift (n : Nat) (s : Statement) : Statement :=
  { s with start := s.start + n, stop := s.stop + n }

theorem Statement.ofRegion?_shift (offset n : Nat) (region : List Char) :
    Statement.ofRegion? (offset + n) region =
      (Statement.ofRegion? offset region).map (Statement.shift n) := by
  simp only [Statement.ofRegion?]
  split
  · rfl
  · simp only [Option.map_some, Statement.shift, Nat.add_right_comm]

namespace Script

/-- The same piece in a script that starts `n` bytes later. -/
def Piece.shift (n : Nat) (p : Piece) : Piece :=
  { p with start := p.start + n }

/-! ### The first piece -/

section Cut

variable {s : Separators} {previous : Option Char} {c : Char} {rest : List Char}

theorem startsDirective_eq (previous : Option Char) (text : List Char) :
    startsDirective previous text =
      (!previous.any isIdentifierPart && directiveWord.isPrefixOf (upper text)) := by
  have hword : (upper (text.take directiveWord.length) == directiveWord) =
      directiveWord.isPrefixOf (upper text) := by
    rw [Bool.eq_iff_iff, beq_iff_eq, List.isPrefixOf_iff_prefix, List.prefix_iff_eq_take, upper,
      upper, ← List.map_take, eq_comm]
  rw [startsDirective, hword]

theorem startsDirective_of_not_word {text : List Char}
    (h : ¬ directiveWord <+: upper text) (previous : Option Char) :
    startsDirective previous text = false := by
  rw [startsDirective_eq, Bool.and_eq_false_iff]
  right
  rwa [Bool.eq_false_iff, Ne, List.isPrefixOf_iff_prefix]

/-- A character that starts neither a comment nor a quote nor a directive starts a delimiter,
or it is a piece of its own. -/
theorem cut_of_plain (hblock : ¬ ['/', '*'] <+: c :: rest) (hdashes : ¬ ['-', '-'] <+: c :: rest)
    (hhash : c ≠ '#') (hquote : isQuote c = false)
    (hword : ¬ directiveWord <+: upper (c :: rest)) :
    cut s previous c rest =
      if s.delimiter.isPrefixOf (c :: rest) then ⟨.terminator, s.delimiter.length - 1⟩
      else ⟨if isPlainBlank c then .blank else .content, 0⟩ := by
  unfold cut
  rw [pair_eq_false hblock, pair_eq_false hdashes, hquote, startsDirective_of_not_word hword,
    beq_eq_false_iff_ne.2 hhash]
  rfl

theorem toUpper_of_isWhiteSpace (hc : isWhiteSpace c = true) : c.toUpper = c := by
  unfold Char.toUpper
  refine dif_neg fun hlower => ?_
  have hlow : 97 ≤ c.toNat := UInt32.le_iff_toNat_le.1 hlower.1
  have hhigh : c.toNat ≤ 122 := UInt32.le_iff_toNat_le.1 hlower.2
  simp only [isWhiteSpace, Bool.or_eq_true, Bool.and_eq_true, beq_iff_eq, decide_eq_true_eq] at hc
  omega

theorem isWhiteSpace_of_isPlainBlank (hc : isPlainBlank c = true) : isWhiteSpace c = true := by
  simp only [isPlainBlank, Bool.or_eq_true, beq_iff_eq] at hc
  rcases hc with (((rfl | rfl) | rfl) | rfl) | rfl <;> rfl

/-- White space is a piece of its own, unless a delimiter starts with it. -/
theorem cut_whiteSpace (hc : isWhiteSpace c = true) (hd : ¬ s.delimiter <+: c :: rest) :
    cut s previous c rest = ⟨if isPlainBlank c then .blank else .content, 0⟩ := by
  have hne : ∀ {a : Char}, isWhiteSpace a = false → c ≠ a := by
    rintro a ha rfl
    rw [hc] at ha
    cases ha
  have hfirst : ∀ {a : Char} {more : List Char}, isWhiteSpace a = false →
      ¬ a :: more <+: c :: rest := fun ha h => hne ha (List.cons_prefix_cons.1 h).1.symm
  have hquote : isQuote c = false := by
    simp only [isQuote, Bool.or_eq_false_iff, beq_eq_false_iff_ne]
    exact ⟨⟨hne rfl, hne rfl⟩, hne rfl⟩
  have hword : ¬ directiveWord <+: upper (c :: rest) := by
    intro h
    have hd : 'D' = c.toUpper := (List.cons_prefix_cons.1 h).1
    rw [toUpper_of_isWhiteSpace hc] at hd
    exact hne rfl hd.symm
  rw [cut_of_plain (hfirst rfl) (hfirst rfl) (hne rfl) hquote hword]
  refine if_neg ?_
  rwa [List.isPrefixOf_iff_prefix]

end Cut

/-! ### Going through a script -/

/-- The characters that belong to the piece before are passed over. -/
theorem piecesFrom_drop (s : Separators) (pending : Nat) (previous : Option Char) (offset : Nat)
    (cs : List Char) :
    piecesFrom s pending previous offset cs =
      piecesFrom s 0 ((cs.take pending).getLast?.or previous)
        (offset + byteLength (cs.take pending)) (cs.drop pending) := by
  induction pending generalizing previous offset cs with
  | zero => simp
  | succ pending ih =>
      cases cs with
      | nil => simp [piecesFrom]
      | cons c rest =>
          rw [piecesFrom, ih]
          cases hlast : (rest.take pending).getLast? <;>
            simp [List.getLast?_cons, hlast, Nat.add_assoc]

/-- The first piece of a script and the rest of it. -/
theorem piecesFrom_of_cut_eq {s : Separators} {previous : Option Char} {c : Char}
    {rest : List Char} {role : Role} {n : Nat} (hcut : cut s previous c rest = ⟨role, n⟩)
    (offset : Nat) :
    piecesFrom s 0 previous offset (c :: rest) =
      ⟨role, offset, c :: rest.take n⟩ ::
        piecesFrom (s.after role) 0 (c :: rest.take n).getLast?
          (offset + byteLength (c :: rest.take n)) (rest.drop n) := by
  have hlast : (rest.take n).getLast?.or (some c) = (c :: rest.take n).getLast? := by
    cases hrest : (rest.take n).getLast? <;> simp [List.getLast?_cons, hrest]
  rw [piecesFrom, hcut]
  dsimp only
  rw [piecesFrom_drop, hlast, byteLength_cons, Nat.add_assoc]

theorem piecesFrom_of_cut {s : Separators} {previous : Option Char} {c : Char} {rest : List Char}
    {role : Role} {n : Nat} (hcut : cut s previous c rest = ⟨role, n⟩) (offset : Nat) :
    ∃ previous', piecesFrom s 0 previous offset (c :: rest) =
      ⟨role, offset, c :: rest.take n⟩ ::
        piecesFrom (s.after role) 0 previous' (offset + byteLength (c :: rest.take n))
          (rest.drop n) :=
  ⟨_, piecesFrom_of_cut_eq hcut offset⟩

theorem start_of_piecesFrom {s : Separators} {previous : Option Char} {offset : Nat}
    {cs : List Char} {p : Piece} {ps : List Piece}
    (h : piecesFrom s 0 previous offset cs = p :: ps) : p.start = offset := by
  cases cs with
  | nil => simp [piecesFrom] at h
  | cons c cs =>
      rw [piecesFrom] at h
      rw [← (List.cons.inj h).1]

/-- The character in front of a script only decides whether it starts with a directive. -/
theorem piecesFrom_previous {s : Separators} {previous previous' : Option Char} {cs : List Char}
    (h : startsDirective previous cs = startsDirective previous' cs) (offset : Nat) :
    piecesFrom s 0 previous offset cs = piecesFrom s 0 previous' offset cs := by
  cases cs with
  | nil => rfl
  | cons c rest =>
      have hcut : cut s previous c rest = cut s previous' c rest := by
        unfold cut
        rw [h]
      rw [piecesFrom, piecesFrom, hcut]

/-- A script that starts later has the same pieces, each as much later. -/
theorem piecesFrom_shift (s : Separators) (pending : Nat) (previous : Option Char) (offset : Nat)
    (cs : List Char) (n : Nat) :
    piecesFrom s pending previous (offset + n) cs =
      (piecesFrom s pending previous offset cs).map (Piece.shift n) := by
  fun_induction piecesFrom s pending previous offset cs with
  | case1 => simp [piecesFrom]
  | case2 s pending previous offset c rest ih =>
      rw [piecesFrom, Nat.add_right_comm]
      exact ih
  | case3 s previous offset c rest found ih =>
      rw [piecesFrom, List.map_cons, Nat.add_right_comm]
      exact congrArg _ ih

/-! ### Pieces side by side -/

/-- The pieces lie side by side from an offset on and make up a text. -/
inductive Row : (offset : Nat) → List Piece → List Char → Prop
  | nil (offset : Nat) : Row offset [] []
  | cons {p : Piece} {ps : List Piece} {rest : List Char} :
      p.text ≠ [] → Row (p.start + byteLength p.text) ps rest →
        Row p.start (p :: ps) (p.text ++ rest)

/-- The pieces of a script make up its text. -/
theorem piecesFrom_row (s : Separators) (previous : Option Char) (offset : Nat)
    (cs : List Char) : Row offset (piecesFrom s 0 previous offset cs) cs := by
  -- every piece has a character, so the rest behind it is shorter
  induction hlength : cs.length using Nat.strong_induction_on generalizing s previous offset cs with
  | _ length ih =>
    subst hlength
    cases cs with
    | nil =>
        rw [piecesFrom]
        exact .nil offset
    | cons c rest =>
        obtain ⟨role, n, hcut⟩ : ∃ role n, cut s previous c rest = ⟨role, n⟩ := ⟨_, _, rfl⟩
        have hshorter : (rest.drop n).length < (c :: rest).length := by
          rw [List.length_drop, List.length_cons]
          omega
        have hrest := ih _ hshorter (s.after role) (c :: rest.take n).getLast?
          (offset + byteLength (c :: rest.take n)) (rest.drop n) rfl
        have hrow : Row offset _ (c :: rest.take n ++ rest.drop n) :=
          .cons (p := ⟨role, offset, c :: rest.take n⟩) (List.cons_ne_nil _ _) hrest
        rwa [List.cons_append, List.take_append_drop, ← piecesFrom_of_cut_eq hcut] at hrow

namespace Row

variable {offset : Nat} {p : Piece} {ps qs : List Piece} {cs : List Char}

theorem flatMap_text (h : Row offset ps cs) : ps.flatMap Piece.text = cs := by
  induction h with
  | nil => rfl
  | cons _ _ ih => rw [List.flatMap_cons, ih]

/-- A row is cut between two pieces. -/
theorem exists_append (h : Row offset (ps ++ qs) cs) :
    ∃ a b, cs = a ++ b ∧ Row offset ps a ∧ Row (offset + byteLength a) qs b := by
  induction ps generalizing offset cs with
  | nil => exact ⟨[], cs, rfl, .nil offset, h⟩
  | cons p ps ih =>
      cases h with
      | cons hp h =>
          obtain ⟨a, b, rfl, ha, hb⟩ := ih h
          refine ⟨p.text ++ a, b, (List.append_assoc _ _ _).symm, .cons hp ha, ?_⟩
          rwa [byteLength_append, ← Nat.add_assoc]

theorem start_eq (h : Row offset (p :: ps) cs) : p.start = offset := by
  cases h
  rfl

/-- A row is cut behind its first piece. -/
theorem exists_cons (h : Row offset (p :: ps) cs) :
    p.text ≠ [] ∧ ∃ rest, cs = p.text ++ rest ∧ Row (offset + byteLength p.text) ps rest := by
  cases h with
  | cons hp h => exact ⟨hp, _, rfl, h⟩

end Row

/-! ### Sections -/

theorem sections_ne_nil (ps : List Piece) : sections ps ≠ [] := by
  cases ps with
  | nil => simp [sections]
  | cons p ps =>
      rw [sections]
      split
      · simp
      · split <;> simp

theorem sections_cons_of_ends {p : Piece} (hp : p.role.endsStatement = true) (ps : List Piece) :
    sections (p :: ps) = [] :: sections ps := by
  obtain ⟨s, ss, hps⟩ := List.exists_cons_of_ne_nil (sections_ne_nil ps)
  rw [sections, hps]
  dsimp only
  rw [if_pos hp]

theorem sections_append {qs ps s : List Piece} {ss : List (List Piece)}
    (hqs : ∀ q ∈ qs, q.role.endsStatement = false) (hps : sections ps = s :: ss) :
    sections (qs ++ ps) = (qs ++ s) :: ss := by
  induction qs with
  | nil => exact hps
  | cons q qs ih =>
      rw [List.forall_mem_cons] at hqs
      rw [List.cons_append, sections, ih hqs.2]
      dsimp only
      rw [hqs.1, if_neg Bool.false_ne_true]
      rfl

/-- The sections in front of an end and behind it. -/
theorem sections_append_cons {p : Piece} (hp : p.role.endsStatement = true)
    (ps qs : List Piece) : sections (ps ++ p :: qs) = sections ps ++ sections qs := by
  induction ps with
  | nil => exact sections_cons_of_ends hp qs
  | cons q ps ih =>
      by_cases hq : q.role.endsStatement = true
      · rw [List.cons_append, sections_cons_of_ends hq, sections_cons_of_ends hq, ih]
        rfl
      · -- the piece joins the first section, whatever follows
        have hfirst : ∀ r ∈ [q], r.role.endsStatement = false :=
          List.forall_mem_singleton.2 (Bool.eq_false_iff.2 hq)
        obtain ⟨s, ss, hps⟩ := List.exists_cons_of_ne_nil (sections_ne_nil ps)
        rw [hps] at ih
        have hall : sections (q :: (ps ++ p :: qs)) = (q :: s) :: (ss ++ sections qs) :=
          sections_append hfirst ih
        have hpart : sections (q :: ps) = (q :: s) :: ss := sections_append hfirst hps
        rw [List.cons_append, hall, hpart]
        rfl

/-- The first section is everything, or it ends at the first piece that ends a statement. -/
theorem sections_cases (ps : List Piece) :
    (∀ p ∈ ps, p.role.endsStatement = false) ∧ sections ps = [ps] ∨
      ∃ front p rest, ps = front ++ p :: rest ∧ (∀ q ∈ front, q.role.endsStatement = false) ∧
        p.role.endsStatement = true ∧ sections ps = front :: sections rest := by
  induction ps with
  | nil => exact .inl ⟨by simp, rfl⟩
  | cons p ps ih =>
      by_cases hp : p.role.endsStatement = true
      · exact .inr ⟨[], p, ps, rfl, by simp, hp, sections_cons_of_ends hp ps⟩
      rw [Bool.not_eq_true] at hp
      have hfirst : ∀ q ∈ [p], q.role.endsStatement = false := List.forall_mem_singleton.2 hp
      rcases ih with ⟨hps, hsections⟩ | ⟨front, e, rest, rfl, hfront, he, hsections⟩
      · exact .inl ⟨List.forall_mem_cons.2 ⟨hp, hps⟩, sections_append hfirst hsections⟩
      · exact .inr ⟨p :: front, e, rest, rfl, List.forall_mem_cons.2 ⟨hp, hfront⟩, he,
          sections_append hfirst hsections⟩

/-! ### Statements of a row -/

/-- The statements that pieces make up. -/
def statementsOf (ps : List Piece) : List Statement :=
  (sections ps).filterMap statement?

theorem statements_eq (s : Separators) (text : String) :
    statements s text = statementsOf (pieces s text.toList) := rfl

/-- White space in front of a region is trimmed. -/
theorem ofRegion?_white {w : List Char} (hw : ∀ c ∈ w, isWhiteSpace c = true) (offset : Nat)
    (region : List Char) :
    Statement.ofRegion? offset (w ++ region) =
      Statement.ofRegion? (offset + byteLength w) region := by
  have htrim : trim (w ++ region) = trim region := by
    rw [trim, trimStart, List.dropWhile_append_of_pos hw]
    rfl
  rw [Statement.ofRegion?, Statement.ofRegion?, htrim, List.takeWhile_append_of_pos hw,
    byteLength_append, ← Nat.add_assoc]

theorem statement?_cons {p : Piece} (hp : p.role = .content) (ps : List Piece) :
    statement? (p :: ps) = Statement.ofRegion? p.start ((p :: ps).flatMap Piece.text) := by
  rw [statement?, List.dropWhile_cons_of_neg (by simp [hp])]

/-- The statements in front of an end and behind it. -/
theorem statementsOf_append {p : Piece} (hp : p.role.endsStatement = true) (ps qs : List Piece) :
    statementsOf (ps ++ p :: qs) = statementsOf ps ++ statementsOf qs := by
  rw [statementsOf, sections_append_cons hp, List.filterMap_append]
  rfl

theorem sections_shift (n : Nat) (ps : List Piece) :
    sections (ps.map (Piece.shift n)) = (sections ps).map (List.map (Piece.shift n)) := by
  induction ps with
  | nil => rfl
  | cons p ps ih =>
      obtain ⟨s, ss, hps⟩ := List.exists_cons_of_ne_nil (sections_ne_nil ps)
      rw [List.map_cons, sections, ih, sections, hps]
      dsimp only [List.map_cons]
      rw [apply_ite (List.map (List.map (Piece.shift n)))]
      rfl

theorem statement?_shift (n : Nat) (ps : List Piece) :
    statement? (ps.map (Piece.shift n)) = (statement? ps).map (Statement.shift n) := by
  have hdrop : (ps.map (Piece.shift n)).dropWhile (fun p => p.role != .content) =
      (ps.dropWhile fun p => p.role != .content).map (Piece.shift n) := by
    rw [List.dropWhile_map]
    rfl
  have htext : ∀ ps : List Piece,
      (ps.map (Piece.shift n)).flatMap Piece.text = ps.flatMap Piece.text := fun ps => by
    rw [List.flatMap_map]
    rfl
  rw [statement?, statement?, hdrop]
  cases ps.dropWhile fun p => p.role != .content with
  | nil => rfl
  | cons p qs =>
      have hregion := congrArg (Statement.ofRegion? (p.start + n)) (htext (p :: qs))
      exact hregion.trans (Statement.ofRegion?_shift p.start n _)

/-- Pieces that lie later make up statements that lie as much later. -/
theorem statementsOf_shift (n : Nat) (ps : List Piece) :
    statementsOf (ps.map (Piece.shift n)) = (statementsOf ps).map (Statement.shift n) := by
  rw [statementsOf, sections_shift, statementsOf, List.filterMap_map, List.map_filterMap]
  exact List.filterMap_congr fun ps _ => statement?_shift n ps

/-- Pieces without content in front of the others make no difference. -/
theorem statementsOf_idle {qs : List Piece}
    (hends : ∀ q ∈ qs, q.role.endsStatement = false) (hcontent : ∀ q ∈ qs, q.role ≠ .content)
    (ps : List Piece) : statementsOf (qs ++ ps) = statementsOf ps := by
  obtain ⟨s, ss, hps⟩ := List.exists_cons_of_ne_nil (sections_ne_nil ps)
  have hdrop : ∀ q ∈ qs, (q.role != .content) = true := fun q hq => bne_iff_ne.2 (hcontent q hq)
  have hfirst : statement? (qs ++ s) = statement? s := by
    rw [statement?, statement?, List.dropWhile_append_of_pos hdrop]
  rw [statementsOf, statementsOf, sections_append hends hps, hps, List.filterMap_cons,
    List.filterMap_cons, hfirst]

/-- A blank in front of a script makes no difference, unless a delimiter starts with it. -/
theorem statementsOf_blank {s : Separators} {c : Char} {rest : List Char}
    (hc : isPlainBlank c = true) (hd : ¬ s.delimiter <+: c :: rest) (previous : Option Char)
    (offset : Nat) :
    statementsOf (piecesFrom s 0 previous offset (c :: rest)) =
      statementsOf (piecesFrom s 0 (some c) (offset + byteLength [c]) rest) := by
  have hcut : cut s previous c rest = ⟨.blank, 0⟩ := by
    rw [cut_whiteSpace (isWhiteSpace_of_isPlainBlank hc) hd, if_pos hc]
  rw [piecesFrom_of_cut_eq hcut, ← List.singleton_append,
    statementsOf_idle (by simp [Role.endsStatement]) (by simp)]
  rfl

end Script

end MySqlAnalysis
