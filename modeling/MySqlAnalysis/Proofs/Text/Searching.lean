import MySqlAnalysis.Proofs.Text.Bytes
import MySqlAnalysis.Text.Search

/-!
# Searching a text and cutting it

The search for a word finds its leftmost occurrence (`Text.find?_eq_some_iff`,
`Text.find?_eq_none_iff`). A text is cut at the occurrences of a word that do not overlap,
each the leftmost one behind the cut before it (`Text.parts`). The parts with the word
between them make up the text (`Text.intercalate_parts`), every part lies at its offset
(`Text.exists_of_mem_parts`), and no part contains the word (`Text.not_infix_of_mem_parts`).
-/

set_option autoImplicit false

namespace MySqlAnalysis.Text

variable {word cs : List Char} {n : Nat}

/-! ### The leftmost occurrence -/

theorem find?_eq_some_iff :
    find? word cs = some n ↔ word <+: cs.drop n ∧ ∀ m < n, ¬ word <+: cs.drop m := by
  induction cs generalizing n with
  | nil =>
      simp only [find?, List.isEmpty_iff, Option.ite_none_right_eq_some, Option.some.injEq,
        List.drop_nil, List.prefix_nil]
      constructor
      · rintro ⟨rfl, rfl⟩
        exact ⟨rfl, fun m hm => absurd hm (Nat.not_lt_zero m)⟩
      · rintro ⟨rfl, hfirst⟩
        exact ⟨rfl, (Nat.eq_zero_of_not_pos fun hpos => hfirst 0 hpos rfl).symm⟩
  | cons c cs ih =>
      rw [find?]
      by_cases hword : word <+: c :: cs
      · rw [if_pos (List.isPrefixOf_iff_prefix.2 hword), Option.some.injEq]
        constructor
        · rintro rfl
          exact ⟨hword, fun m hm => absurd hm (Nat.not_lt_zero m)⟩
        · rintro ⟨-, hfirst⟩
          exact (Nat.eq_zero_of_not_pos fun hpos => hfirst 0 hpos hword).symm
      · -- the word is not at the head, so it is found one character further
        rw [if_neg (mt List.isPrefixOf_iff_prefix.1 hword), Option.map_eq_some_iff]
        constructor
        · rintro ⟨m, hm, rfl⟩
          obtain ⟨hthere, hfirst⟩ := ih.1 hm
          refine ⟨hthere, fun k hk => ?_⟩
          cases k with
          | zero => exact hword
          | succ k => exact hfirst k (Nat.lt_of_succ_lt_succ hk)
        · rintro ⟨hthere, hfirst⟩
          cases n with
          | zero => exact absurd hthere hword
          | succ n =>
              exact ⟨n, ih.2 ⟨hthere, fun m hm => hfirst (m + 1) (Nat.succ_lt_succ hm)⟩, rfl⟩

theorem find?_eq_none_iff : find? word cs = none ↔ ¬ word <:+: cs := by
  induction cs with
  | nil => simp [find?]
  | cons c cs ih =>
      rw [find?, List.infix_cons_iff, not_or, ← ih, ← List.isPrefixOf_iff_prefix]
      split <;> simp_all

/-- The text in front of the leftmost occurrence, the occurrence and the text behind it. -/
theorem append_of_find? (h : find? word cs = some n) :
    cs = cs.take n ++ (word ++ cs.drop (n + word.length)) := by
  obtain ⟨rest, hrest⟩ := (find?_eq_some_iff.1 h).1
  have hbehind : cs.drop (n + word.length) = rest := by
    rw [← List.drop_drop, ← hrest, List.drop_left]
  rw [hbehind, hrest, List.take_append_drop]

theorem find?_le (h : find? word cs = some n) : n + word.length ≤ cs.length := by
  induction cs generalizing n with
  | nil =>
      have hempty : word = [] ∧ 0 = n := by simpa [find?] using h
      simp [hempty.1, ← hempty.2]
  | cons c cs ih =>
      rw [find?] at h
      split at h
      case isTrue hword =>
        cases h
        rw [Nat.zero_add]
        exact (List.isPrefixOf_iff_prefix.1 hword).length_le
      case isFalse =>
        obtain ⟨m, hm, rfl⟩ := Option.map_eq_some_iff.1 h
        have hle := ih hm
        rw [List.length_cons]
        omega

theorem find?_eq_some (h : find? word cs = some n) :
    ∃ a b, cs = a ++ word ++ b ∧ a.length = n := by
  have hle := find?_le h
  refine ⟨cs.take n, cs.drop (n + word.length), ?_, List.length_take_of_le (by omega)⟩
  rw [List.append_assoc]
  exact append_of_find? h

/-- The first occurrence of a word in a part of a text is the first one in the text. -/
theorem find?_append_iff (hn : n + word.length ≤ cs.length) (w : List Char) :
    find? word (cs ++ w) = some n ↔ find? word cs = some n := by
  -- the word is seen in front of `w`
  have hseen : ∀ m ≤ n, word <+: (cs ++ w).drop m ↔ word <+: cs.drop m := by
    intro m hm
    have hlength : word.length ≤ (cs.drop m).length := by
      rw [List.length_drop]
      omega
    rw [List.drop_append_of_le_length (by omega)]
    refine ⟨fun h => ?_, fun h => h.trans (List.prefix_append _ w)⟩
    exact List.prefix_of_prefix_length_le h (List.prefix_append _ w) hlength
  rw [find?_eq_some_iff, find?_eq_some_iff, hseen n (Nat.le_refl n)]
  refine and_congr_right fun _ => forall₂_congr fun m hm => ?_
  rw [hseen m (Nat.le_of_lt hm)]

/-- In front of the leftmost occurrence there is no other one. -/
theorem not_infix_take_of_find? (hword : word ≠ []) (h : find? word cs = some n) :
    ¬ word <:+: cs.take n := by
  rintro ⟨before, after, htake⟩
  have hlength := congrArg List.length htake
  have hpos := List.length_pos_iff.2 hword
  have hle := List.length_take_le n cs
  rw [List.length_append, List.length_append] at hlength
  refine (find?_eq_some_iff.1 h).2 before.length (by omega) ?_
  rw [← List.take_append_drop n cs, ← htake, List.append_assoc, List.append_assoc, List.drop_left]
  exact List.prefix_append _ _

/-! ### Pairs of characters -/

section Pair

variable {a b c : Char} {x y : List Char}

theorem pair_prefix_iff : [a, b] <+: c :: x ↔ (c == a && x.head? == some b) = true := by
  rw [Bool.and_eq_true, beq_iff_eq, beq_iff_eq, List.cons_prefix_cons, List.head?_eq_some_iff,
    eq_comm]
  refine and_congr_right fun _ => ?_
  constructor
  · rintro ⟨more, rfl⟩
    exact ⟨more, rfl⟩
  · rintro ⟨more, rfl⟩
    exact List.prefix_append [b] more

theorem pair_eq_false (h : ¬ [a, b] <+: c :: x) : (c == a && x.head? == some b) = false := by
  rwa [pair_prefix_iff, Bool.not_eq_true] at h

/-- A pair that is not in a text is not there either behind a text without its first
character. -/
theorem not_infix_append (ha : a ∉ x) (hy : ¬ [a, b] <:+: y) : ¬ [a, b] <:+: x ++ y := by
  induction x with
  | nil => exact hy
  | cons c x ih =>
      rw [List.mem_cons, not_or] at ha
      rw [List.cons_append, List.infix_cons_iff, not_or]
      exact ⟨fun hpair => ha.1 (List.cons_prefix_cons.1 hpair).1, ih ha.2⟩

/-- It is not there either in front of another character than its last one. -/
theorem not_infix_concat (hc : c ≠ b) (hx : ¬ [a, b] <:+: x) : ¬ [a, b] <:+: x ++ [c] := by
  rw [List.infix_concat_iff, not_or]
  refine ⟨fun hpair => hc ?_, hx⟩
  obtain ⟨before, hbefore⟩ := hpair
  have hlast : (before ++ [a] ++ [b]).getLast? = (x ++ [c]).getLast? := by
    rw [← hbefore, List.append_assoc]
    rfl
  rw [List.getLast?_concat, List.getLast?_concat, Option.some.injEq] at hlast
  exact hlast.symm

end Pair

/-! ### Parts -/

/-- A part of a text and the offset of its first byte. -/
structure Part where
  start : Nat
  text : List Char
  deriving DecidableEq

/-- The parts of a text from an offset on, cut at the leftmost occurrence of a word and then
at the leftmost one in the text behind it, until there is none. -/
def parts (word : List Char) (hword : word ≠ []) (offset : Nat) (cs : List Char) : List Part :=
  match _h : find? word cs with
  | none => [⟨offset, cs⟩]
  | some n =>
    ⟨offset, cs.take n⟩ ::
      parts word hword (offset + byteLength (cs.take n ++ word)) (cs.drop (n + word.length))
termination_by cs.length
decreasing_by
  have hle := find?_le ‹_›
  have hpos := List.length_pos_iff.2 hword
  rw [List.length_drop]
  omega

variable {hword : word ≠ []} {offset : Nat}

theorem parts_ne_nil : parts word hword offset cs ≠ [] := by
  rw [parts.eq_def]
  split <;> exact List.cons_ne_nil _ _

/-- The parts with the word between them make up the text. -/
theorem intercalate_parts :
    word.intercalate ((parts word hword offset cs).map Part.text) = cs := by
  fun_induction parts word hword offset cs with
  | case1 offset cs h => simp
  | case2 offset cs n h ih =>
      rw [List.map_cons, List.intercalate_cons_of_ne_nil (mt List.map_eq_nil_iff.1 parts_ne_nil),
        ih, List.append_assoc, ← append_of_find? h]

/-- No part contains the word. -/
theorem not_infix_of_mem_parts : ∀ p ∈ parts word hword offset cs, ¬ word <:+: p.text := by
  fun_induction parts word hword offset cs with
  | case1 offset cs h => exact List.forall_mem_singleton.2 (find?_eq_none_iff.1 h)
  | case2 offset cs n h ih => exact List.forall_mem_cons.2 ⟨not_infix_take_of_find? hword h, ih⟩

/-- Every part lies at its offset. -/
theorem exists_of_mem_parts : ∀ p ∈ parts word hword offset cs,
    ∃ before after, cs = before ++ p.text ++ after ∧ p.start = offset + byteLength before := by
  fun_induction parts word hword offset cs with
  | case1 offset cs h => exact List.forall_mem_singleton.2 ⟨[], [], by simp, rfl⟩
  | case2 offset cs n h ih =>
      have hsplit := append_of_find? h
      refine List.forall_mem_cons.2 ⟨⟨[], _, hsplit, rfl⟩, fun p hp => ?_⟩
      obtain ⟨before, after, hrest, hstart⟩ := ih p hp
      refine ⟨cs.take n ++ word ++ before, after, ?_, ?_⟩
      · rw [hrest] at hsplit
        simpa using hsplit
      · rw [hstart, byteLength_append _ before, Nat.add_assoc]

end MySqlAnalysis.Text
