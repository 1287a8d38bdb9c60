import Mathlib.Data.List.TakeWhile
import MySqlAnalysis.Token.Stream

/-!
# What a cursor hands out

A call of a cursor is a search, round by round. The call returns what the search ends
with (`TokenStream.nextOf_eq_some_iff`), and it does not return exactly when the search
is still on after any number of rounds (`TokenStream.nextOf_eq_none_iff`).

Call by call a cursor hands out the significant tokens in front of the first end of the
input (`leading`). The call after the last of them returns if that end is on the default
channel or missing (`Closed`), and else it does not (`TokenStream.nextOf_of_leading_nil`).
-/

set_option autoImplicit false

namespace MySqlAnalysis

/-- The significant tokens in front of the first end of the input. -/
def leading (tokens : List Token) : List Token :=
  significant (tokens.takeWhile fun t => !t.isEof)

/-- The first end of the input, if there is one, is not hidden. -/
def Closed (tokens : List Token) : Prop :=
  ∀ t ∈ tokens.find? Token.isEof, t.isSignificant = true

instance (tokens : List Token) : Decidable (Closed tokens) :=
  inferInstanceAs (Decidable (∀ t ∈ tokens.find? Token.isEof, t.isSignificant = true))

section Leading

variable {t : Token} {a b ts : List Token}

theorem leading_cons_of_eof (he : t.isEof = true) : leading (t :: ts) = [] := by
  simp [leading, significant, he]

theorem leading_cons_of_hidden (h : t.isSignificant = false) (he : t.isEof = false) :
    leading (t :: ts) = leading ts := by
  simp [leading, significant, h, he]

theorem leading_cons (h : t.isSignificant = true) (he : t.isEof = false) :
    leading (t :: ts) = t :: leading ts := by
  simp [leading, significant, h, he]

theorem closed_nil : Closed [] := by simp [Closed]

theorem closed_cons_of_eof (he : t.isEof = true) :
    Closed (t :: ts) ↔ t.isSignificant = true := by
  simp [Closed, he]

theorem closed_cons (he : t.isEof = false) : Closed (t :: ts) ↔ Closed ts := by
  simp [Closed, he]

/-- A list in which no end of the input is hidden is closed. -/
theorem closed_of_shown (h : ∀ t ∈ ts, t.isEof = true → t.isSignificant = true) : Closed ts :=
  fun _ ht => h _ (List.mem_of_find?_eq_some ht) (List.find?_some ht)

/-- Where no end of the input is hidden, it does not matter what is left out first. -/
theorem leading_eq_takeWhile (h : ∀ t ∈ ts, t.isEof = true → t.isSignificant = true) :
    leading ts = (significant ts).takeWhile fun t => !t.isEof := by
  induction ts with
  | nil => rfl
  | cons t ts ih =>
      have hrest := ih fun u hu => h u (List.mem_cons_of_mem _ hu)
      cases he : t.isEof with
      | true => simp [leading_cons_of_eof he, significant, h t List.mem_cons_self he, he]
      | false =>
          cases hsig : t.isSignificant with
          | true =>
              rw [leading_cons hsig he, hrest]
              simp [significant, hsig, he]
          | false =>
              rw [leading_cons_of_hidden hsig he, hrest]
              simp [significant, hsig]

end Leading

/-! ### A call that returns and one that does not -/

namespace TokenStream

variable {t : Token} {ts us : List Token}

theorem nextOf_of_hidden (h : t.isSignificant = false) (he : t.isEof = false) :
    nextOf (t :: ts) = nextOf ts := by
  simp [nextOf, h, he]

/-- In front of the end the first significant token is handed out and used up. -/
theorem nextOf_of_leading (h : leading ts = t :: us) :
    t.isEof = false ∧ ∃ rest, nextOf ts = some (some t, rest) ∧ leading rest = us ∧
      (Closed rest ↔ Closed ts) ∧ rest.length < ts.length := by
  induction ts with
  | nil => cases h
  | cons u rest ih =>
      cases hue : u.isEof with
      | true =>
          rw [leading_cons_of_eof hue] at h
          cases h
      | false =>
          cases hu : u.isSignificant with
          | false =>
              rw [leading_cons_of_hidden hu hue] at h
              obtain ⟨ht, left, hnext, hleading, hclosed, hlength⟩ := ih h
              rw [nextOf_of_hidden hu hue, closed_cons hue]
              exact ⟨ht, left, hnext, hleading, hclosed, Nat.lt_succ_of_lt hlength⟩
          | true =>
              rw [leading_cons hu hue] at h
              cases h
              exact ⟨hue, rest, by simp [nextOf, hu, hue], rfl, (closed_cons hue).symm,
                Nat.lt_succ_self _⟩

/-- At the end a call hands out nothing but the end, or it does not return. -/
theorem nextOf_of_leading_nil (h : leading ts = []) :
    (Closed ts ∧ ∃ answer rest, nextOf ts = some (answer, rest) ∧
        ∀ t ∈ answer, t.isEof = true) ∨
      (¬ Closed ts ∧ nextOf ts = none) := by
  induction ts with
  | nil => exact .inl ⟨closed_nil, none, [], rfl, by simp⟩
  | cons u rest ih =>
      cases hue : u.isEof with
      | true =>
          rw [closed_cons_of_eof hue]
          cases hu : u.isSignificant with
          | true => exact .inl ⟨rfl, some u, u :: rest, by simp [nextOf, hu, hue], by simpa using hue⟩
          | false => exact .inr ⟨by simp, by simp [nextOf, hu, hue]⟩
      | false =>
          cases hu : u.isSignificant with
          | false =>
              rw [leading_cons_of_hidden hu hue] at h
              rw [nextOf_of_hidden hu hue, closed_cons hue]
              exact ih h
          | true =>
              rw [leading_cons hu hue] at h
              cases h

end TokenStream

end MySqlAnalysis
