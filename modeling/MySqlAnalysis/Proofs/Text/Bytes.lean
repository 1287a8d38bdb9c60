import Mathlib.Data.List.Basic
import MySqlAnalysis.Text.Offset

/-!
# Byte lengths and byte offsets

How the byte length of a text, the bytes between two offsets and the place after
a text behave under concatenation.
-/

set_option autoImplicit false

namespace MySqlAnalysis.Text

@[simp] theorem byteLength_nil : byteLength [] = 0 := rfl

@[simp] theorem byteLength_cons (c : Char) (cs : List Char) :
    byteLength (c :: cs) = c.utf8Size + byteLength cs := rfl

@[simp] theorem byteLength_append (a b : List Char) :
    byteLength (a ++ b) = byteLength a + byteLength b := by
  induction a with
  | nil => simp
  | cons c a ih => simp [ih, Nat.add_assoc]

theorem byteLength_pos {cs : List Char} (h : cs ≠ []) : 0 < byteLength cs := by
  obtain ⟨c, rest, rfl⟩ := List.exists_cons_of_ne_nil h
  have hc := c.utf8Size_pos
  rw [byteLength_cons]
  omega

theorem dropBytes_append (a b : List Char) : dropBytes (byteLength a) (a ++ b) = some b := by
  induction a with
  | nil => cases b <;> rfl
  | cons c a ih =>
      have hc := c.utf8Size_pos
      obtain ⟨n, hn⟩ : ∃ n, byteLength (c :: a) = n + 1 := Nat.exists_eq_succ_of_ne_zero (by
        rw [byteLength_cons]
        omega)
      rw [byteLength_cons] at hn
      rw [byteLength_cons, hn, List.cons_append, dropBytes, if_pos (by omega), ← hn,
        Nat.add_sub_cancel_left]
      exact ih

theorem takeBytes_append (a b : List Char) : takeBytes (byteLength a) (a ++ b) = some a := by
  induction a with
  | nil => cases b <;> rfl
  | cons c a ih =>
      have hc := c.utf8Size_pos
      obtain ⟨n, hn⟩ : ∃ n, byteLength (c :: a) = n + 1 := Nat.exists_eq_succ_of_ne_zero (by
        rw [byteLength_cons]
        omega)
      rw [byteLength_cons] at hn
      rw [byteLength_cons, hn, List.cons_append, takeBytes, if_pos (by omega), ← hn,
        Nat.add_sub_cancel_left, ih]
      rfl

/-- The bytes between two parts of a text are the part between them. -/
theorem slice?_append (a b c : List Char) :
    slice? (a ++ b ++ c) (byteLength a) (byteLength a + byteLength b) = some b := by
  rw [slice?, if_pos (Nat.le_add_right _ _), List.append_assoc, dropBytes_append,
    Option.bind_some, Nat.add_sub_cancel_left, takeBytes_append]

theorem Position.after_append (p : Position) (a b : List Char) :
    p.after (a ++ b) = (p.after a).after b :=
  List.foldl_append

theorem Position.offset_next (p : Position) (c : Char) :
    (p.next c).offset = p.offset + c.utf8Size := by
  unfold next
  split <;> rfl

@[simp] theorem Position.offset_after (p : Position) (cs : List Char) :
    (p.after cs).offset = p.offset + byteLength cs := by
  induction cs generalizing p with
  | nil => rfl
  | cons c cs ih =>
      have hcons : p.after (c :: cs) = (p.next c).after cs := rfl
      rw [hcons, ih, offset_next, byteLength_cons, Nat.add_assoc]

end MySqlAnalysis.Text
