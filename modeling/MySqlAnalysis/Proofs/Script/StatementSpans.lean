import MySqlAnalysis.Proofs.Script.Rows
import MySqlAnalysis.Proofs.Text.Trimming

/-!
# Spans of statements

The statements of a script are trimmed parts of its text, each at its offsets, and there
is at least one byte between two of them (`Script.statements_apart`). A statement lies
in its section (`Script.statement?_lies`); the piece that ends a section lies between
its statement and the next one. An offset is therefore on one statement at most, and
`Script.statementAt?` finds it.
-/

set_option autoImplicit false

namespace MySqlAnalysis

open Text

/-! ### Statements in a text -/

/-- A statement is a trimmed part of a text that starts at an offset. -/
structure Statement.Lies (s : Statement) (offset : Nat) (cs : List Char) : Prop where
  ne_nil : s.text.toList ≠ []
  trimmed : trim s.text.toList = s.text.toList
  place : ∃ before after, cs = before ++ s.text.toList ++ after ∧
    s.start = offset + byteLength before ∧ s.stop = s.start + byteLength s.text.toList

namespace Statement.Lies

variable {s : Statement} {offset : Nat} {a b : List Char}

theorem append_right (h : s.Lies offset a) (b : List Char) : s.Lies offset (a ++ b) := by
  obtain ⟨before, after, rfl, hstart, hstop⟩ := h.place
  exact ⟨h.ne_nil, h.trimmed, before, after ++ b, by simp, hstart, hstop⟩

theorem append_left (h : s.Lies (offset + byteLength a) b) : s.Lies offset (a ++ b) := by
  obtain ⟨before, after, rfl, hstart, hstop⟩ := h.place
  refine ⟨h.ne_nil, h.trimmed, a ++ before, after, by simp, ?_, hstop⟩
  rw [hstart, byteLength_append, Nat.add_assoc]

theorem bounds (h : s.Lies offset a) :
    offset ≤ s.start ∧ s.start < s.stop ∧ s.stop ≤ offset + byteLength a := by
  obtain ⟨before, after, rfl, hstart, hstop⟩ := h.place
  have hpos := byteLength_pos h.ne_nil
  simp only [byteLength_append]
  omega

theorem slice (h : s.Lies 0 a) : slice? a s.start s.stop = some s.text.toList := by
  obtain ⟨before, after, rfl, hstart, hstop⟩ := h.place
  rw [hstop, hstart, Nat.zero_add]
  exact slice?_append before _ after

end Statement.Lies

theorem Statement.ofRegion?_lies {offset : Nat} {region : List Char} {s : Statement}
    (h : ofRegion? offset region = some s) : s.Lies offset region := by
  rw [ofRegion?] at h
  split at h
  case isTrue => cases h
  case isFalse hne =>
    cases h
    obtain ⟨after, hafter⟩ := exists_trim region
    refine ⟨?_, ?_, region.takeWhile isWhiteSpace, after, ?_, rfl, ?_⟩
    · simpa using hne
    · rw [String.toList_ofList, trim_trim]
    · rwa [String.toList_ofList]
    · rw [String.toList_ofList]

namespace Script

/-- The statement of a section lies in its text. -/
theorem statement?_lies {offset : Nat} {ps : List Piece} {cs : List Char} {s : Statement}
    (hrow : Row offset ps cs) (h : statement? ps = some s) : s.Lies offset cs := by
  rw [statement?] at h
  split at h
  case h_1 => cases h
  case h_2 p qs hdrop =>
    obtain ⟨front, hfront⟩ := List.dropWhile_suffix (l := ps) fun p => p.role != .content
    rw [hdrop] at hfront
    rw [← hfront] at hrow
    obtain ⟨a, b, rfl, -, hb⟩ := hrow.exists_append
    rw [hb.start_eq, hb.flatMap_text] at h
    exact (Statement.ofRegion?_lies h).append_left

/-- The statements of a row of pieces lie in its text, with a gap between any two. -/
theorem statementsOf_lie {offset : Nat} {ps : List Piece} {cs : List Char}
    (hrow : Row offset ps cs) :
    (∀ s ∈ statementsOf ps, s.Lies offset cs) ∧
      (statementsOf ps).Pairwise fun s t => s.stop < t.start := by
  -- section by section
  induction hlength : ps.length using Nat.strong_induction_on generalizing offset ps cs with
  | _ length ih =>
    subst hlength
    rcases sections_cases ps with ⟨-, hsections⟩ | ⟨front, p, rest, rfl, -, -, hsections⟩
    · have hone : statementsOf ps = (statement? ps).toList := by
        rw [statementsOf, hsections]
        cases hs : statement? ps <;> simp [hs]
      rw [hone]
      constructor
      · intro s hs
        exact statement?_lies hrow (Option.mem_toList.1 hs)
      · cases statement? ps <;> simp
    · have hall : statementsOf (front ++ p :: rest) =
          (statement? front).toList ++ statementsOf rest := by
        rw [statementsOf, hsections, List.filterMap_cons, ← statementsOf]
        cases statement? front <;> rfl
      obtain ⟨a, b, rfl, ha, hb⟩ := hrow.exists_append
      obtain ⟨hp, c, rfl, hrest⟩ := hb.exists_cons
      obtain ⟨hlies, hapart⟩ := ih rest.length (by simp; omega) hrest rfl
      have hfirst : ∀ s ∈ (statement? front).toList, s.Lies offset a := fun s hs =>
        statement?_lies ha (Option.mem_toList.1 hs)
      rw [hall]
      constructor
      · intro s hs
        rcases List.mem_append.1 hs with hs | hs
        · exact (hfirst s hs).append_right _
        · exact (hlies s hs).append_left.append_left
      · rw [List.pairwise_append]
        refine ⟨by cases statement? front <;> simp, hapart, fun s hs t ht => ?_⟩
        -- the piece that ends the section has a byte at least
        have hbefore := (hfirst s hs).bounds
        have hbehind := (hlies t ht).bounds
        have hgap := byteLength_pos hp
        omega

/-! ### The statement at an offset -/

theorem find?_eq_some_iff_of_pairwise {α : Type} {p : α → Bool} {l : List α}
    (h : l.Pairwise fun a b => p a = true → p b = false) {a : α} :
    l.find? p = some a ↔ a ∈ l ∧ p a = true := by
  constructor
  · exact fun hfind => ⟨List.mem_of_find?_eq_some hfind, List.find?_some hfind⟩
  · rintro ⟨hmem, ha⟩
    obtain ⟨before, after, rfl⟩ := List.append_of_mem hmem
    rw [List.find?_eq_some_iff_append]
    refine ⟨ha, before, after, rfl, fun b hb => ?_⟩
    rw [List.pairwise_append] at h
    by_contra hpb
    have hpb' : p b = true := by simpa using hpb
    have hno := h.2.2 b hb a List.mem_cons_self hpb'
    rw [ha] at hno
    cases hno

/-- The statements of a script are trimmed parts of its text, with a gap between any two, so
that an offset lies on one of them at most, which is the one that is found. -/
theorem statements_apart (lineBreak delimiter text : String) :
    (∀ s ∈ statements (.ofTexts lineBreak delimiter) text,
      s.text.toList ≠ [] ∧ trim s.text.toList = s.text.toList ∧
        slice? text.toList s.start s.stop = some s.text.toList ∧
        s.stop ≤ byteLength text.toList) ∧
    (statements (.ofTexts lineBreak delimiter) text).Pairwise (fun s t => s.stop < t.start) ∧
    ∀ offset s, statementAt? (statements (.ofTexts lineBreak delimiter) text) offset = some s ↔
      s ∈ statements (.ofTexts lineBreak delimiter) text ∧ s.contains offset = true := by
  obtain ⟨hlies, hapart⟩ :=
    statementsOf_lie (piecesFrom_row (.ofTexts lineBreak delimiter) none 0 text.toList)
  refine ⟨fun s hs => ?_, hapart, fun offset s => ?_⟩
  · have h := hlies s hs
    have hbounds := h.bounds
    exact ⟨h.ne_nil, h.trimmed, h.slice, by omega⟩
  · refine find?_eq_some_iff_of_pairwise (hapart.imp fun hlt hs => ?_)
    simp only [Statement.contains, Bool.and_eq_true, decide_eq_true_eq, Bool.and_eq_false_iff,
      decide_eq_false_iff_not] at hs ⊢
    omega

end Script

end MySqlAnalysis
