import MySqlAnalysis.Proofs.Grammar.Completion
import MySqlAnalysis.Proofs.Grammar.Lookahead

/-!
# Two inputs that differ in their spacing

Two token lists that hold the same kinds and texts on the channel that the grammar
sees are told apart by nothing but the numbers and the offsets of their tokens.
Runs over them stand at the same place of the two lists all the time, so a token is
identified by its place among the significant ones (`Paired`, `Aligned`).

The numbers are increasing on both sides and are only ever compared (`Twins.aligned_le_iff`).
The offsets matter to one look, which asks whether two tokens are adjacent. The grammar
asks it in front of the arguments of a function only, and there the mode that ignores
spaces overrules it (`Look.guarded`). So if that mode is set, or if the same tokens are
adjacent on both sides, all looks have one answer (`Twins.holds_eq`).
-/

set_option autoImplicit false

namespace MySqlAnalysis

/-- What a token says apart from where it stands. -/
def Token.content (t : Token) : TokenKind × String := (t.kind, t.text)

/-- Which tokens are followed by the next one without a byte between them. -/
def adjacencies (tokens : List Token) : List Bool :=
  List.zipWith (fun t u => t.stop + 1 == u.start) tokens tokens.tail

/-- Two tokens at the same place of two lists. -/
def Paired (ts ts' : List Token) (t t' : Token) : Prop :=
  ∃ k : Nat, ts[k]? = some t ∧ ts'[k]? = some t'

/-- The numbers of two tokens at the same place of two lists. -/
def Aligned (ts ts' : List Token) (i j : Nat) : Prop :=
  ∃ t t', Paired ts ts' t t' ∧ t.index = i ∧ t'.index = j

namespace Paired

variable {ts ts' : List Token} {t t' : Token}

theorem content_eq (h : Paired ts ts' t t')
    (hcontent : ts.map Token.content = ts'.map Token.content) : t.content = t'.content := by
  obtain ⟨k, ht, ht'⟩ := h
  have hk := congrArg (fun l : List (TokenKind × String) => l[k]?) hcontent
  simpa [ht, ht'] using hk

theorem aligned (h : Paired ts ts' t t') : Aligned ts ts' t.index t'.index :=
  ⟨t, t', h, rfl, rfl⟩

end Paired

/-- Increasing numbers grow with the places. -/
theorem le_iff_of_pairwise_index {ts : List Token}
    (h : (ts.map Token.index).Pairwise (· < ·)) {k l : Nat} {t u : Token}
    (hk : ts[k]? = some t) (hl : ts[l]? = some u) : t.index ≤ u.index ↔ k ≤ l := by
  obtain ⟨hk', rfl⟩ := List.getElem?_eq_some_iff.1 hk
  obtain ⟨hl', rfl⟩ := List.getElem?_eq_some_iff.1 hl
  rw [List.pairwise_map, List.pairwise_iff_getElem] at h
  constructor
  · intro hle
    by_contra hlt
    have hgt := h l k hl' hk' (Nat.lt_of_not_le hlt)
    omega
  · intro hle
    rcases Nat.eq_or_lt_of_le hle with rfl | hlt
    · exact le_rfl
    · exact le_of_lt (h k l hk' hl' hlt)

namespace Grammar

/-- Two inputs with the same significant tokens up to where they stand, in the contexts
of the runs over them. -/
structure Twins (c c' : Context) (ts ts' : List Token) : Prop where
  like : c.Like c'
  content : ts.map Token.content = ts'.map Token.content
  increasing : (ts.map Token.index).Pairwise (· < ·)
  increasing' : (ts'.map Token.index).Pairwise (· < ·)
  ending : ts.getLast? = some c.ending
  ending' : ts'.getLast? = some c'.ending
  spaced : c.mode.has .ignoreSpace = true ∨
    ∀ n, Look.adjacent.holds c (ts.drop n) = Look.adjacent.holds c' (ts'.drop n)

/-! ### Places -/

namespace Twins

variable {c c' : Context} {ts ts' : List Token}

theorem length_eq (h : Twins c c' ts ts') : ts.length = ts'.length := by
  have hlen := congrArg List.length h.content
  rwa [List.length_map, List.length_map] at hlen

/-- The tokens that two runs see at the same distance from the same place. -/
theorem peek (h : Twins c c' ts ts') (n k : Nat) :
    Paired ts ts' (c.peek (ts.drop n) k) (c'.peek (ts'.drop n) k) := by
  have hlen := h.length_eq
  simp only [Context.peek, List.getElem?_drop]
  by_cases hlt : n + k < ts.length
  · refine ⟨n + k, ?_, ?_⟩
    · rw [List.getElem?_eq_getElem hlt, Option.getD_some]
    · rw [List.getElem?_eq_getElem (hlen ▸ hlt), Option.getD_some]
  · -- past the last token both runs see that token, which ends the input
    have hnone : ts[n + k]? = none := List.getElem?_eq_none (Nat.le_of_not_lt hlt)
    have hnone' : ts'[n + k]? = none := List.getElem?_eq_none (hlen ▸ Nat.le_of_not_lt hlt)
    rw [hnone, hnone', Option.getD_none, Option.getD_none]
    refine ⟨ts.length - 1, ?_, ?_⟩
    · rw [← List.getLast?_eq_getElem?, h.ending]
    · rw [hlen, ← List.getLast?_eq_getElem?, h.ending']

theorem peek_content (h : Twins c c' ts ts') (n k : Nat) :
    (c.peek (ts.drop n) k).content = (c'.peek (ts'.drop n) k).content :=
  (h.peek n k).content_eq h.content

theorem kindAt_eq (h : Twins c c' ts ts') (n k : Nat) :
    c.kindAt (ts.drop n) k = c'.kindAt (ts'.drop n) k :=
  congrArg Prod.fst (h.peek_content n k)

theorem upperText_eq (h : Twins c c' ts ts') (n k : Nat) :
    (c.peek (ts.drop n) k).upperText = (c'.peek (ts'.drop n) k).upperText := by
  have htext : (c.peek (ts.drop n) k).text = (c'.peek (ts'.drop n) k).text :=
    congrArg Prod.snd (h.peek_content n k)
  rw [Token.upperText, Token.upperText, htext]

theorem map_kind_drop (h : Twins c c' ts ts') (n : Nat) :
    (ts.drop n).map Token.kind = (ts'.drop n).map Token.kind := by
  have hkind := congrArg (List.map Prod.fst) h.content
  rw [List.map_map, List.map_map] at hkind
  rw [List.map_drop, List.map_drop]
  exact congrArg (List.drop n) hkind

theorem aligned_le_iff (h : Twins c c' ts ts') {i j k l : Nat} (hij : Aligned ts ts' i j)
    (hkl : Aligned ts ts' k l) : i ≤ k ↔ j ≤ l := by
  obtain ⟨t, t', ⟨m, ht, ht'⟩, rfl, rfl⟩ := hij
  obtain ⟨u, u', ⟨n, hu, hu'⟩, rfl, rfl⟩ := hkl
  rw [le_iff_of_pairwise_index h.increasing ht hu,
    le_iff_of_pairwise_index h.increasing' ht' hu']

end Twins

/-! ### Looks -/

section Searches

variable {ts ts' : List Token}

/-- The searches ahead only see kinds. -/
theorem kindAfterGroup_congr (h : ts.map Token.kind = ts'.map Token.kind) (depth : Nat) :
    kindAfterGroup depth ts = kindAfterGroup depth ts' := by
  induction ts generalizing ts' depth with
  | nil =>
      cases ts' with
      | nil => rfl
      | cons t' ts' => cases h
  | cons t ts ih =>
      cases ts' with
      | nil => cases h
      | cons t' ts' =>
          rw [List.map_cons, List.map_cons, List.cons.injEq] at h
          have hhead : (ts.head?).map (·.kind) = (ts'.head?).map (·.kind) := by
            rw [← List.head?_map, ← List.head?_map]
            exact congrArg List.head? h.2
          simp only [kindAfterGroup, h.1, hhead, ih h.2]

theorem kindBeyond_congr (h : ts.map Token.kind = ts'.map Token.kind)
    (passed : List TokenKind) : kindBeyond passed ts = kindBeyond passed ts' := by
  induction ts generalizing ts' with
  | nil =>
      cases ts' with
      | nil => rfl
      | cons t' ts' => cases h
  | cons t ts ih =>
      cases ts' with
      | nil => cases h
      | cons t' ts' =>
          rw [List.map_cons, List.map_cons, List.cons.injEq] at h
          rw [kindBeyond, kindBeyond, h.1, ih h.2]

theorem occursInStatement_congr (h : ts.map Token.kind = ts'.map Token.kind) (k : Keyword) :
    occursInStatement k ts = occursInStatement k ts' := by
  induction ts generalizing ts' with
  | nil =>
      cases ts' with
      | nil => rfl
      | cons t' ts' => cases h
  | cons t ts ih =>
      cases ts' with
      | nil => cases h
      | cons t' ts' =>
          rw [List.map_cons, List.map_cons, List.cons.injEq] at h
          rw [occursInStatement, occursInStatement, h.1, ih h.2]

end Searches

/-- Whether a look asks for adjacent tokens only where the mode that ignores spaces
answers for them. -/
def Look.guarded : Look → Bool
  | .adjacent => false
  | .either .adjacent (.mode .ignoreSpace) => true
  | .both a b => a.guarded && b.guarded
  | .either a b => a.guarded && b.guarded
  | .not a => a.guarded
  | _ => true

/-- Whether all looks of a test are guarded. -/
def Test.guarded : Test → Bool
  | .look l => l.guarded
  | .both a b => a.guarded && b.guarded
  | .either a b => a.guarded && b.guarded
  | .not a => a.guarded
  | _ => true

namespace Twins

variable {c c' : Context} {ts ts' : List Token}

/-- A guarded look has one answer at the same place of two inputs. -/
theorem holds_eq (h : Twins c c' ts ts') (n : Nat) (l : Look) (hl : l.guarded = true) :
    l.holds c (ts.drop n) = l.holds c' (ts'.drop n) := by
  have hfamily : c'.family = c.family := congrArg ServerVersion.grammarFamily h.like.version
  induction l with
  | among k kinds => simp only [Look.holds, h.kindAt_eq]
  | keyword k => simp only [Look.holds, h.kindAt_eq]
  | name k => simp only [Look.holds, h.kindAt_eq, hfamily]
  | spelled ws => simp only [Look.holds, h.upperText_eq]
  | adjacent => cases hl
  | mode flag => simp only [Look.holds, h.like.mode]
  | speculates => simp only [Look.holds, h.like.prediction]
  | since version => simp only [Look.holds, h.like.version]
  | afterGroup kinds => simp only [Look.holds, kindAfterGroup_congr (h.map_kind_drop n)]
  | beyond k passed kinds =>
      simp only [Look.holds, List.drop_drop, kindBeyond_congr (h.map_kind_drop _)]
  | inStatement k => simp only [Look.holds, occursInStatement_congr (h.map_kind_drop n)]
  | both a b iha ihb =>
      rw [Look.guarded, Bool.and_eq_true] at hl
      rw [Look.holds, Look.holds, iha hl.1, ihb hl.2]
  | either a b iha ihb =>
      unfold Look.guarded at hl
      split at hl
      case h_1 => cases hl
      case h_2 heq =>
        -- the mode answers, or the same tokens are adjacent
        cases heq
        simp only [Look.holds, h.like.mode]
        rcases h.spaced with hmode | hadjacent
        · rw [hmode, Bool.or_true, Bool.or_true]
        · exact congrArg (· || c.mode.has .ignoreSpace) (hadjacent n)
      case h_4 heq =>
        cases heq
        rw [Bool.and_eq_true] at hl
        rw [Look.holds, Look.holds, iha hl.1, ihb hl.2]
      all_goals grind
  | not a ih => rw [Look.holds, Look.holds, ih hl]

/-- A guarded test has one answer at the same place of two inputs. -/
theorem eval_eq (h : Twins c c' ts ts') (n : Nat) (t : Test) (ht : t.guarded = true) :
    ∀ expected, t.eval c (ts.drop n) expected = t.eval c' (ts'.drop n) expected := by
  have hfamily : c'.family = c.family := congrArg ServerVersion.grammarFamily h.like.version
  induction t with
  | look l => exact fun expected => by rw [Test.eval, Test.eval, h.holds_eq n l ht]
  | next kinds => exact fun expected => by rw [Test.eval, Test.eval, h.kindAt_eq]
  | nextName => exact fun expected => by rw [Test.eval, Test.eval, h.kindAt_eq, hfamily]
  | nextText => exact fun expected => by rw [Test.eval, Test.eval, h.kindAt_eq]
  | both a b iha ihb =>
      intro expected
      rw [Test.guarded, Bool.and_eq_true] at ht
      simp only [Test.eval, iha ht.1, ihb ht.2]
  | either a b iha ihb =>
      intro expected
      rw [Test.guarded, Bool.and_eq_true] at ht
      simp only [Test.eval, iha ht.1, ihb ht.2]
  | not a ih =>
      intro expected
      simp only [Test.eval, ih ht]

end Twins

/-! ### Inputs from texts -/

/-- The tokens of a text end with the one that ends the input, which has no bytes. -/
theorem tokenize_ending (d : Dialect) (text : String) :
    (significant (tokenize d text)).getLast? = some (endingOf (tokenize d text)) ∧
      (endingOf (tokenize d text)).stop = (endingOf (tokenize d text)).start := by
  obtain ⟨read, last, heq, -⟩ :=
    Token.ofLexemes_eq_append (Text.Position.start.after text.toList)
      (Token.lexemes d text.toList) (Token.lexemesFrom_kind_ne_eof 0 .start text.toList) 0
  have htokens : tokenize d text = read ++ [.ending (.after .start text.toList) last] := heq
  have hending : endingOf (tokenize d text) = .ending (.after .start text.toList) last := by
    rw [htokens, endingOf, List.reverse_append]
    rfl
  rw [hending, htokens, significant, List.filter_append]
  exact ⟨List.getLast?_concat, rfl⟩

/-- Two tokens of an input are adjacent when their place in `adjacencies` says so. -/
theorem adjacent_holds_eq {c : Context} {ts : List Token} (hlast : ts.getLast? = some c.ending)
    (hpoint : c.ending.stop = c.ending.start) (n : Nat) :
    Look.adjacent.holds c (ts.drop n) = ((adjacencies ts)[n]?).getD false := by
  simp only [Look.holds, Context.peek, List.getElem?_drop, Nat.add_zero, adjacencies,
    List.getElem?_zipWith, List.getElem?_tail]
  cases hnext : ts[n + 1]? with
  | some u =>
      have hlt : n < ts.length := by
        have := (List.getElem?_eq_some_iff.1 hnext).1
        omega
      rw [List.getElem?_eq_getElem hlt]
      rfl
  | none =>
      -- at and past the last token only the end of the input is seen
      have hending : (ts[n]?).getD c.ending = c.ending := by
        have hle : ts.length ≤ n + 1 := List.getElem?_eq_none_iff.1 hnext
        rcases Nat.eq_or_lt_of_le hle with heq | hlt
        · rw [List.getLast?_eq_getElem?, heq, Nat.add_sub_cancel] at hlast
          rw [hlast]
          rfl
        · rw [List.getElem?_eq_none (Nat.le_of_lt_succ hlt)]
          rfl
      rw [hending, Option.getD_none, hpoint]
      cases ts[n]? <;> simp

/-- Two texts with the same significant tokens up to where they stand. -/
theorem twins_of_tokenize {o : Options} {d d' : Dialect} {text text' : String}
    (hcontent : (significant (tokenize d text)).map Token.content =
      (significant (tokenize d' text')).map Token.content)
    (hspaced : o.mode.has .ignoreSpace = true ∨
      adjacencies (significant (tokenize d text)) =
        adjacencies (significant (tokenize d' text'))) :
    Twins (contextOf o (tokenize d text)) (contextOf o (tokenize d' text'))
      (significant (tokenize d text)) (significant (tokenize d' text')) where
  like := ⟨rfl, rfl, rfl, beq_iff_eq.1 (endingOf_isEof _)⟩
  content := hcontent
  increasing := (tokenize_listed d text).pairwise_index
  increasing' := (tokenize_listed d' text').pairwise_index
  ending := (tokenize_ending d text).1
  ending' := (tokenize_ending d' text').1
  spaced := by
    refine hspaced.imp id fun heq n => ?_
    obtain ⟨hlast, hpoint⟩ := tokenize_ending d text
    obtain ⟨hlast', hpoint'⟩ := tokenize_ending d' text'
    rw [adjacent_holds_eq (c := contextOf o (tokenize d text)) hlast hpoint, heq,
      adjacent_holds_eq (c := contextOf o (tokenize d' text')) hlast' hpoint']

end Grammar

end MySqlAnalysis
