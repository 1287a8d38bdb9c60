import MySqlAnalysis.QueryType.Classify

/-!
# The order in which the classifier reads

The classifier asks for one step after the other, and only while it is undecided. So a
decision that it comes to in front of the place where the steps are stuck is its decision
for every other way to go on, and steps that are not stuck lead to a decision
(`QueryType.ReadsInOrder`). A decision that takes one step and goes on with one that reads
in order reads in order itself (`QueryType.ReadsInOrder.of_steps`), and the classifier is
made up of such decisions (`QueryType.ofSteps_readsInOrder`).
-/

set_option autoImplicit false

namespace MySqlAnalysis

namespace Step

/-- The first steps are the second ones, or they are up to a place where they are stuck. -/
inductive BreaksOff : List Step → List Step → Prop where
  | nil : BreaksOff [] []
  | stuck (a b : List Step) : BreaksOff (stuck :: a) b
  | cons (s : Step) {a b : List Step} (h : BreaksOff a b) : BreaksOff (s :: a) (s :: b)

theorem BreaksOff.append (read a b : List Step) : BreaksOff (read ++ .stuck :: a) (read ++ b) := by
  induction read with
  | nil => exact .stuck a b
  | cons s read ih => exact .cons s ih

theorem BreaksOff.refl (a : List Step) : BreaksOff a a := by
  induction a with
  | nil => exact .nil
  | cons s a ih => exact .cons s ih

end Step

namespace QueryType

open Step

/-- A decision that asks for steps in order, and for no more of them than it needs. -/
structure ReadsInOrder (decide : List Step → Option QueryType) : Prop where
  /-- What is decided in front of the place where the steps are stuck stays decided. -/
  decided : ∀ {a b : List Step}, BreaksOff a b → ∀ {type}, decide a = some type →
    decide b = some type
  /-- Steps that are not stuck lead to a decision. -/
  returns : ∀ {a : List Step}, .stuck ∉ a → ∃ type, decide a = some type

namespace ReadsInOrder

/-- A decision that asks for nothing. -/
theorem const {decide : List Step → Option QueryType}
    (h : ∃ type, ∀ rest, decide rest = some type) : ReadsInOrder decide := by
  obtain ⟨type, h⟩ := h
  exact ⟨fun _ _ ht => by rw [h] at ht ⊢; exact ht, fun _ => ⟨type, h _⟩⟩

/-- Decisions that take one step after the other: each step leads to another one of them,
or to a decision about the rest that reads in order. -/
theorem of_steps {S : Type} {f : S → List Step → Option QueryType}
    (hend : ∀ i, ∃ type, f i [] = some type)
    (hstuck : ∀ i rest, f i (.stuck :: rest) = none)
    (hstep : ∀ i s, s ≠ .stuck → (∃ j, ∀ rest, f i (s :: rest) = f j rest) ∨
      ReadsInOrder fun rest => f i (s :: rest)) (i : S) : ReadsInOrder (f i) := by
  constructor
  · intro a b hbreak type htype
    induction hbreak generalizing i with
    | nil => exact htype
    | stuck =>
        rw [hstuck] at htype
        cases htype
    | cons s hrest ih =>
        by_cases hs : s = .stuck
        · rw [hs, hstuck] at htype
          cases htype
        · rcases hstep i s hs with ⟨j, hj⟩ | hnext
          · rw [hj] at htype ⊢
            exact ih j htype
          · exact hnext.decided hrest htype
  · intro a ha
    induction a generalizing i with
    | nil => exact hend i
    | cons s rest ih =>
        rw [List.mem_cons, not_or] at ha
        rcases hstep i s (Ne.symm ha.1) with ⟨j, hj⟩ | hnext
        · rw [hj]
          exact ih j ha.2
        · exact hnext.returns ha.2

/-- A decision that takes one step and goes on. -/
theorem of_step {decide : List Step → Option QueryType} (hend : ∃ type, decide [] = some type)
    (hstuck : ∀ rest, decide (.stuck :: rest) = none)
    (hword : ∀ text isKeyword, ReadsInOrder fun rest => decide (.word text isKeyword :: rest))
    (hsymbol : ∀ kind, ReadsInOrder fun rest => decide (.symbol kind :: rest)) :
    ReadsInOrder decide := by
  refine of_steps (S := Unit) (fun _ => hend) (fun _ => hstuck) (fun _ s hs => .inr ?_) ()
  cases s with
  | word text isKeyword => exact hword text isKeyword
  | symbol kind => exact hsymbol kind
  | stuck => exact absurd rfl hs

theorem afterWord {decide : String → List Step → Option QueryType}
    (h : ∀ word, ReadsInOrder (decide word)) : ReadsInOrder (afterWord · decide) :=
  of_step ⟨_, rfl⟩ (fun _ => rfl) (fun text _ => h text) fun _ => const ⟨_, fun _ => rfl⟩

/-- A decision by the next word alone. -/
theorem word (decide : String → Option QueryType)
    (h : ∀ word, ∃ type, decide word = some type) :
    ReadsInOrder (QueryType.afterWord · fun word _ => decide word) :=
  afterWord fun word => const ((h word).imp fun _ h _ => h)

theorem afterOptionalWord {decide : Option String → List Step → Option QueryType}
    (h : ∀ word, ReadsInOrder (decide word)) : ReadsInOrder (afterOptionalWord · decide) :=
  of_step ((h none).returns List.not_mem_nil) (fun _ => rfl) (fun text _ => h (some text))
    fun _ => h none

theorem afterDefiner {decide : String → List Step → Option QueryType}
    (h : ∀ word, ReadsInOrder (decide word)) : ReadsInOrder (afterDefiner · decide) := by
  refine of_steps (S := Unit) (f := fun _ => (QueryType.afterDefiner · decide))
    (fun _ => ⟨_, rfl⟩) (fun _ _ => rfl) ?_ ()
  rintro - (⟨text, isKeyword⟩ | kind | -) hs
  · by_cases hdefined : isDefined text = true
    · right
      simp only [QueryType.afterDefiner, if_pos hdefined]
      exact h text
    · exact .inl ⟨(), fun rest => if_neg hdefined⟩
  · exact .inl ⟨(), fun _ => rfl⟩
  · exact absurd rfl hs

theorem afterObjectWord {decide : String → List Step → Option QueryType}
    (h : ∀ word, ReadsInOrder (decide word)) : ReadsInOrder (afterObjectWord · decide) := by
  refine afterWord fun word => ?_
  by_cases hdefiner : (word == "DEFINER") = true
  · simp only [if_pos hdefiner]
    exact afterDefiner h
  · simp only [if_neg hdefiner]
    exact h word

end ReadsInOrder

/-! ### The decisions -/

theorem ofParenthesised_readsInOrder : ReadsInOrder ofParenthesised := by
  refine .of_steps (S := Unit) (f := fun _ => ofParenthesised) (fun _ => ⟨_, rfl⟩)
    (fun _ _ => rfl) ?_ ()
  rintro - (⟨text, isKeyword⟩ | kind | -) hs
  · right
    by_cases hquery : text = "SELECT" ∨ text = "WITH"
    · rcases hquery with rfl | rfl <;> exact .const ⟨_, fun _ => rfl⟩
    · rw [not_or] at hquery
      exact .const ⟨partition, fun _ => by rw [ofParenthesised] <;> simp [hquery]⟩
  · by_cases hopen : kind = .openParen
    · subst hopen
      exact .inl ⟨(), fun _ => rfl⟩
    · exact .inr (.const ⟨partition, fun _ => by rw [ofParenthesised] <;> simp [hopen]⟩)
  · exact absurd rfl hs

theorem ofAlter_readsInOrder : ReadsInOrder ofAlter :=
  .afterObjectWord fun word => .const (by split <;> exact ⟨_, fun _ => rfl⟩)

theorem ofCreateFunction_readsInOrder : ReadsInOrder ofCreateFunction := by
  have hnext : ReadsInOrder fun rest => afterOptionalWord rest fun word _ =>
      if word == some "RETURNS" then createUdf else createFunction :=
    .afterOptionalWord fun word => .const (by split <;> exact ⟨_, fun _ => rfl⟩)
  exact .of_step ⟨_, rfl⟩ (fun _ => rfl) (fun _ _ => hnext) fun _ => hnext

theorem ofCreate_readsInOrder : ReadsInOrder ofCreate := by
  refine .afterObjectWord fun word => ?_
  split <;> first | exact ofCreateFunction_readsInOrder | exact .const ⟨_, fun _ => rfl⟩

theorem ofDrop_readsInOrder : ReadsInOrder ofDrop :=
  .afterWord fun word => .const (by split <;> exact ⟨_, fun _ => rfl⟩)

theorem ofWith_readsInOrder (depth : Nat) : ReadsInOrder (ofWith depth) := by
  refine .of_steps (f := ofWith) (fun _ => ⟨_, rfl⟩) (fun _ _ => rfl) ?_ depth
  rintro depth (⟨text, isKeyword⟩ | kind | -) hs
  · by_cases hdepth : depth = 0
    · subst hdepth
      by_cases hverb : text = "SELECT" ∨ text = "UPDATE" ∨ text = "DELETE"
      · right
        rcases hverb with rfl | rfl | rfl <;> exact .const ⟨_, fun _ => rfl⟩
      · simp only [not_or] at hverb
        refine .inl ⟨0, fun rest => ?_⟩
        rw [ofWith] <;> simp [hverb]
    · exact .inl ⟨depth, fun _ => by simp [ofWith, hdepth]⟩
  · cases kind <;> exact .inl ⟨_, fun _ => rfl⟩
  · exact absurd rfl hs

theorem ofLoad_readsInOrder : ReadsInOrder ofLoad := by
  refine .afterWord fun word => ?_
  split
  · exact .afterOptionalWord fun word => .const (by split <;> exact ⟨_, fun _ => rfl⟩)
  all_goals exact .const ⟨_, fun _ => rfl⟩

theorem ofRollback_readsInOrder : ReadsInOrder ofRollback := by
  refine .afterOptionalWord fun word => ?_
  split
  · exact .afterOptionalWord fun _ => .const ⟨_, fun _ => rfl⟩
  · exact .const ⟨_, fun _ => rfl⟩

theorem ofSetSystem_readsInOrder : ReadsInOrder ofSetSystem := by
  refine .afterWord fun name => ?_
  split
  case isTrue =>
    refine .of_step ⟨_, rfl⟩ (fun _ => rfl) (fun _ _ => .const ⟨_, fun _ => rfl⟩) fun kind => ?_
    by_cases hdot : kind = .dot
    · subst hdot
      exact .afterWord fun _ => .const ⟨_, fun _ => rfl⟩
    · exact .const ⟨setVariable, fun _ => by cases kind <;> first | rfl | exact absurd rfl hdot⟩
  case isFalse => exact .const ⟨_, fun _ => rfl⟩

theorem ofSet_readsInOrder : ReadsInOrder ofSet := by
  refine .of_step ⟨_, rfl⟩ (fun _ => rfl) (fun text _ => ?_) fun kind => ?_
  · have hscope : ReadsInOrder fun rest => afterWord rest fun word _ =>
        if word == "TRANSACTION" then setTransaction else ofSystemVariable word :=
      .afterWord fun word => .const (by split <;> exact ⟨_, fun _ => rfl⟩)
    simp only [ofSet]
    split
    case h_4 =>
      split
      · exact hscope
      · exact .const ⟨_, fun _ => rfl⟩
    all_goals exact .const ⟨_, fun _ => rfl⟩
  · by_cases hat : kind = .atAt
    · subst hat
      exact ofSetSystem_readsInOrder
    · exact .const ⟨setVariable, fun _ => by rw [ofSet]; simp [hat]⟩

theorem ofReset_readsInOrder : ReadsInOrder ofReset :=
  .afterWord fun word => .const (by split <;> exact ⟨_, fun _ => rfl⟩)

theorem ofPrivilege_readsInOrder (plain proxy : QueryType) :
    ReadsInOrder (ofPrivilege plain proxy) :=
  .afterWord fun word => .const (by split <;> exact ⟨_, fun _ => rfl⟩)

theorem ofShowCount_readsInOrder (expected : List TokenKind) :
    ReadsInOrder (ofShowCount · expected) := by
  induction expected with
  | nil =>
      simp only [ofShowCount]
      exact .afterWord fun word => .const (by split <;> exact ⟨_, fun _ => rfl⟩)
  | cons kind more ih =>
      refine .of_step ⟨_, rfl⟩ (fun _ => rfl) (fun _ _ => .const ⟨_, fun _ => rfl⟩) fun found => ?_
      by_cases hfound : found = kind
      · subst hfound
        simpa [ofShowCount] using ih
      · exact .const ⟨unknown, fun _ => by simp [ofShowCount, hfound]⟩

theorem ofShowCreate_readsInOrder : ReadsInOrder ofShowCreate :=
  .afterWord fun word => .const (by split <;> exact ⟨_, fun _ => rfl⟩)

theorem ofShowWord_readsInOrder (word : String) : ReadsInOrder (ofShowWord word) := by
  unfold ofShowWord
  split
  all_goals first
    | exact .const ⟨_, fun _ => rfl⟩
    | exact ofShowCount_readsInOrder _
    | exact ofShowCreate_readsInOrder
    | exact .word _ fun word => by split <;> exact ⟨_, rfl⟩

theorem ofShow_readsInOrder : ReadsInOrder ofShow := by
  refine .afterWord fun word => ?_
  split
  · exact .afterWord ofShowWord_readsInOrder
  · exact ofShowWord_readsInOrder word

theorem ofExplainMore_readsInOrder : ReadsInOrder ofExplainMore := by
  refine .of_step ⟨_, rfl⟩ (fun _ => rfl) (fun text _ => .const ?_) fun kind => .const ?_
  · simp only [ofExplainMore]
    split <;> exact ⟨_, fun _ => rfl⟩
  · cases kind <;> exact ⟨_, fun _ => rfl⟩

theorem ofExplain_readsInOrder : ReadsInOrder ofExplain := by
  refine .of_step ⟨_, rfl⟩ (fun _ => rfl) (fun text isKeyword => ?_) fun kind => .const ?_
  · cases isKeyword with
    | false => exact .const ⟨_, fun _ => rfl⟩
    | true =>
        simp only [ofExplain]
        split
        all_goals first
          | exact ofExplainMore_readsInOrder
          | exact .const (by split <;> exact ⟨_, fun _ => rfl⟩)
          | exact .const ⟨_, fun _ => rfl⟩
  · cases kind <;> exact ⟨_, fun _ => rfl⟩

theorem ofBegin_readsInOrder : ReadsInOrder ofBegin := by
  refine .of_step ⟨_, rfl⟩ (fun _ => rfl) (fun text _ => .const ?_) fun kind => .const ?_
  · by_cases hwork : text = "WORK"
    · subst hwork
      exact ⟨_, fun _ => rfl⟩
    · exact ⟨unknown, fun _ => by rw [ofBegin] <;> simp [hwork]⟩
  · cases kind <;> exact ⟨_, fun _ => rfl⟩

theorem ofVerb_readsInOrder (verb : String) : ReadsInOrder (ofVerb verb) := by
  unfold ofVerb
  split
  all_goals first
    | exact .const ⟨_, fun _ => rfl⟩
    | exact ofAlter_readsInOrder
    | exact ofCreate_readsInOrder
    | exact ofDrop_readsInOrder
    | exact ofWith_readsInOrder 0
    | exact ofLoad_readsInOrder
    | exact ofBegin_readsInOrder
    | exact ofRollback_readsInOrder
    | exact ofSet_readsInOrder
    | exact ofReset_readsInOrder
    | exact ofPrivilege_readsInOrder _ _
    | exact ofShow_readsInOrder
    | exact ofExplain_readsInOrder
    | exact .word _ fun word => by split <;> exact ⟨_, rfl⟩

theorem ofSteps_readsInOrder : ReadsInOrder ofSteps := by
  refine .of_step ⟨_, rfl⟩ (fun _ => rfl) (fun text _ => ofVerb_readsInOrder text) fun kind => ?_
  by_cases hopen : kind = .openParen
  · subst hopen
    exact ofParenthesised_readsInOrder
  · exact .const ⟨unknown, fun _ => by rw [ofSteps]; simp [hopen]⟩

end QueryType

end MySqlAnalysis
