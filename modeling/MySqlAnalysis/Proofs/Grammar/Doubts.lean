import MySqlAnalysis.Proofs.Grammar.Evaluation

/-!
# Doubts about expected kinds

A test notes the kinds that it asks for, and a report lists what was noted since the last
token was read. A kind that was noted is in doubt as long as the next token may have it: after
a test that holds, and after one that asked for more than the kind and failed on that.
`Test.doubts` lists the doubts that a test leaves behind (`Test.noted`), and `Look.answer?`
says what a later look has to answer where a doubt stands (`Doubt.Stands.holds_eq`), so that
another answer removes the doubt.
-/

set_option autoImplicit false

namespace MySqlAnalysis.Grammar

deriving instance DecidableEq for Look

variable {c : Context} {ahead : List Token}

/-! ### Noting -/

theorem mem_noteKind {expected : List TokenKind} {kind noted : TokenKind} :
    kind ∈ noteKind expected noted ↔ kind ∈ expected ∨ kind = noted := by
  rw [noteKind]
  split
  case isTrue hmem =>
    refine ⟨.inl, fun h => h.elim id ?_⟩
    rintro rfl
    exact List.contains_iff_mem.1 hmem
  case isFalse => simp

theorem nodup_noteKind {expected : List TokenKind} (h : expected.Nodup) (noted : TokenKind) :
    (noteKind expected noted).Nodup := by
  rw [noteKind]
  split
  case isTrue => exact h
  case isFalse hmem =>
    rw [List.contains_iff_mem] at hmem
    have hsingle : [noted].Nodup := List.pairwise_singleton _ _
    refine List.nodup_append.2 ⟨h, hsingle, fun kind hkind other hother => ?_⟩
    rw [List.mem_singleton.1 hother]
    exact ne_of_mem_of_not_mem hkind hmem

theorem mem_noteKinds {kinds : List TokenKind} {kind : TokenKind} :
    ∀ {expected : List TokenKind},
      kind ∈ noteKinds expected kinds ↔ kind ∈ expected ∨ kind ∈ kinds := by
  induction kinds with
  | nil => simp [noteKinds]
  | cons noted kinds ih =>
      intro expected
      rw [noteKinds, List.foldl_cons, ← noteKinds, ih, mem_noteKind, List.mem_cons, or_assoc]

theorem nodup_noteKinds {kinds : List TokenKind} :
    ∀ {expected : List TokenKind}, expected.Nodup → (noteKinds expected kinds).Nodup := by
  induction kinds with
  | nil => exact id
  | cons noted kinds ih => exact fun h => ih (nodup_noteKind h noted)

theorem Test.nodup_eval (t : Test) :
    ∀ {expected : List TokenKind}, expected.Nodup → (t.eval c ahead expected).2.Nodup := by
  induction t with
  | look l => exact id
  | next kinds => exact nodup_noteKinds
  | nextName => exact fun h => nodup_noteKind h _
  | nextText => exact fun h => nodup_noteKind h _
  | both a b iha ihb =>
      intro expected h
      have ha := iha h
      rw [eval]
      rcases heval : a.eval c ahead expected with ⟨_ | _, between⟩ <;> rw [heval] at ha
      · exact ha
      · exact ihb ha
  | either a b iha ihb =>
      intro expected h
      have ha := iha h
      rw [eval]
      rcases heval : a.eval c ahead expected with ⟨_ | _, between⟩ <;> rw [heval] at ha
      · exact ihb ha
      · exact ha
  | not a ih => exact ih

/-! ### What a test asks -/

/-- The question of a test, without the trace that it leaves. -/
def Test.question : Test → Look
  | .look l => l
  | .next kinds => .among 0 kinds
  | .nextName => .name 0
  | .nextText => .among 0 [.singleQuoted, .doubleQuoted]
  | .both a b => .both a.question b.question
  | .either a b => .either a.question b.question
  | .not a => .not a.question

theorem Test.question_holds (t : Test) :
    ∀ expected, t.question.holds c ahead = (t.eval c ahead expected).1 := by
  induction t with
  | look l => exact fun _ => rfl
  | next kinds => exact fun _ => rfl
  | nextName => exact fun _ => rfl
  | nextText => exact fun _ => by simp [question, Look.holds, eval, beq_eq_decide]
  | both a b iha ihb =>
      intro expected
      rw [question, Look.holds, iha expected, eval]
      rcases a.eval c ahead expected with ⟨_ | _, between⟩
      · rfl
      · exact ihb between
  | either a b iha ihb =>
      intro expected
      rw [question, Look.holds, iha expected, eval]
      rcases a.eval c ahead expected with ⟨_ | _, between⟩
      · exact ihb between
      · rfl
  | not a ih =>
      intro expected
      rw [question, Look.holds, ih expected, eval]

/-! ### Doubts -/

/-- A kind that was noted and that the next token may have; the look, if there is one, fails
where the token has it. -/
structure Doubt where
  kind : TokenKind
  failed : Option Look
  deriving DecidableEq

namespace Doubt

/-- A doubt with nothing else known. -/
def plain (kind : TokenKind) : Doubt := ⟨kind, none⟩

/-- The doubt where another look fails too. The first one is kept. -/
def failing (d : Doubt) (l : Look) : Doubt := { d with failed := d.failed.or (some l) }

/-- The next token has the kind in doubt. -/
structure Stands (c : Context) (ahead : List Token) (d : Doubt) : Prop where
  kind : c.kindAt ahead 0 = d.kind
  failed : ∀ l ∈ d.failed, l.holds c ahead = false

theorem stands_plain {kind : TokenKind} (h : c.kindAt ahead 0 = kind) :
    (plain kind).Stands c ahead :=
  ⟨h, fun _ hl => nomatch hl⟩

theorem Stands.failing {d : Doubt} (h : d.Stands c ahead) {l : Look}
    (hl : l.holds c ahead = false) : (d.failing l).Stands c ahead where
  kind := h.kind
  failed l' hl' := by
    obtain ⟨kind, failed⟩ := d
    cases failed with
    | none =>
        cases hl'
        exact hl
    | some first => exact h.failed l' hl'

end Doubt

/-- Whether a token of the kind is a name, if that is the same in all families. -/
def isName? : TokenKind → Option Bool
  | .keyword _ => none
  | kind => some (kind == .identifier || kind == .quotedIdentifier)

theorem isName_of_isName? {kind : TokenKind} {answer : Bool} (h : isName? kind = some answer)
    (f : Family) : kind.isName f = answer := by
  cases kind with
  | keyword k => cases h
  | _ => exact Option.some.inj h

/-- The answer to a look where a doubt stands, if the doubt tells it. -/
def Look.answer? (d : Doubt) : Look → Option Bool
  | .among 0 kinds => some (kinds.contains d.kind)
  | .keyword 0 => some d.kind.keyword?.isSome
  | .name 0 => isName? d.kind
  | .both a b =>
    match a.answer? d, b.answer? d with
    | some false, _ => some false
    | _, some false => some false
    | some true, some true => some true
    | _, _ => none
  | .either a b =>
    match a.answer? d, b.answer? d with
    | some true, _ => some true
    | _, some true => some true
    | some false, some false => some false
    | _, _ => none
  | .not a => (a.answer? d).map (!·)
  | l => if d.failed = some (.not l) then some true else none

theorem Doubt.Stands.holds_of_failed {d : Doubt} (h : d.Stands c ahead) {l : Look} {answer : Bool}
    (hl : (if d.failed = some (.not l) then some true else none) = some answer) :
    l.holds c ahead = answer := by
  split at hl
  case isTrue hfailed =>
    have hnot := h.failed _ hfailed
    rw [Look.holds, Bool.not_eq_false'] at hnot
    rw [hnot]
    exact Option.some.inj hl
  case isFalse => cases hl

theorem Doubt.Stands.holds_eq {d : Doubt} (h : d.Stands c ahead) (l : Look) :
    ∀ {answer : Bool}, l.answer? d = some answer → l.holds c ahead = answer := by
  induction l with
  | among n kinds =>
      intro answer hl
      cases n with
      | zero => rw [Look.holds, h.kind]; exact Option.some.inj hl
      | succ n => exact h.holds_of_failed hl
  | keyword n =>
      intro answer hl
      cases n with
      | zero => rw [Look.holds, h.kind]; exact Option.some.inj hl
      | succ n => exact h.holds_of_failed hl
  | name n =>
      intro answer hl
      cases n with
      | zero => rw [Look.holds, h.kind]; exact isName_of_isName? hl _
      | succ n => exact h.holds_of_failed hl
  | both a b iha ihb =>
      intro answer hl
      rw [Look.holds]
      rw [Look.answer?] at hl
      split at hl
      -- one side that fails decides, whatever the other one tells
      case h_1 ha => rw [iha ha]; exact Option.some.inj hl
      case h_2 hb _ => rw [ihb hb, Bool.and_false]; exact Option.some.inj hl
      case h_3 ha hb => rw [iha ha, ihb hb]; exact Option.some.inj hl
      case h_4 => cases hl
  | either a b iha ihb =>
      intro answer hl
      rw [Look.holds]
      rw [Look.answer?] at hl
      split at hl
      -- one side that holds decides, whatever the other one tells
      case h_1 ha => rw [iha ha]; exact Option.some.inj hl
      case h_2 hb _ => rw [ihb hb, Bool.or_true]; exact Option.some.inj hl
      case h_3 ha hb => rw [iha ha, ihb hb]; exact Option.some.inj hl
      case h_4 => cases hl
  | not a ih =>
      intro answer hl
      obtain ⟨inner, ha, rfl⟩ := Option.map_eq_some_iff.1 hl
      rw [Look.holds, ih ha]
  | _ => exact fun hl => h.holds_of_failed hl

/-- The doubts that a test leaves behind when it has the answer. -/
def Test.doubts : Test → Bool → List Doubt
  | .next kinds, true => kinds.map .plain
  | .nextName, true => [.plain .identifier]
  | .nextText, true => [.plain .singleQuoted]
  | .both a b, true => a.doubts true ++ b.doubts true
  | .both a b, false =>
    a.doubts false ++ (a.doubts true).map (·.failing b.question) ++ b.doubts false
  | .either a b, true => a.doubts true ++ a.doubts false ++ b.doubts true
  | .either a b, false => a.doubts false ++ b.doubts false
  | .not a, answer => a.doubts (!answer)
  | _, _ => []

/-- A kind that is noted by a test was noted before or is in doubt afterwards, if it is the
kind of the next token. -/
theorem Test.noted (t : Test) : ∀ {expected answer expected'},
    t.eval c ahead expected = (answer, expected') → c.kindAt ahead 0 ∈ expected' →
      c.kindAt ahead 0 ∈ expected ∨ ∃ d ∈ t.doubts answer, d.Stands c ahead := by
  induction t with
  | look l =>
      rintro expected answer expected' ⟨⟩ hmem
      exact .inl hmem
  | next kinds =>
      rintro expected answer expected' ⟨⟩ hmem
      refine (mem_noteKinds.1 hmem).imp_right fun hkind => ?_
      rw [List.contains_iff_mem.2 hkind]
      exact ⟨_, List.mem_map_of_mem hkind, Doubt.stands_plain rfl⟩
  | nextName =>
      rintro expected answer expected' ⟨⟩ hmem
      refine (mem_noteKind.1 hmem).imp_right fun hkind => ?_
      rw [hkind]
      exact ⟨_, List.mem_singleton_self _, Doubt.stands_plain hkind⟩
  | nextText =>
      rintro expected answer expected' ⟨⟩ hmem
      refine (mem_noteKind.1 hmem).imp_right fun hkind => ?_
      rw [hkind]
      exact ⟨_, List.mem_singleton_self _, Doubt.stands_plain hkind⟩
  | both a b iha ihb =>
      intro expected answer expected' heval hmem
      rw [eval] at heval
      split at heval
      case h_1 between ha =>
        have hfirst := iha ha
        rcases ihb heval hmem with hbetween | ⟨d, hd, hstands⟩
        · rcases hfirst hbetween with hbefore | ⟨d, hd, hstands⟩
          · exact .inl hbefore
          · right
            cases answer with
            | true => exact ⟨d, List.mem_append_left _ hd, hstands⟩
            | false =>
                -- the second part is what failed
                have hb : b.question.holds c ahead = false := by
                  rw [b.question_holds between, heval]
                exact ⟨_, List.mem_append_left _ (List.mem_append_right _
                  (List.mem_map_of_mem hd)), hstands.failing hb⟩
        · right
          cases answer with
          | true => exact ⟨d, List.mem_append_right _ hd, hstands⟩
          | false => exact ⟨d, List.mem_append_right _ hd, hstands⟩
      case h_2 between ha =>
        cases heval
        refine (iha ha hmem).imp_right ?_
        rintro ⟨d, hd, hstands⟩
        exact ⟨d, List.mem_append_left _ (List.mem_append_left _ hd), hstands⟩
  | either a b iha ihb =>
      intro expected answer expected' heval hmem
      rw [eval] at heval
      split at heval
      case h_1 between ha =>
        cases heval
        refine (iha ha hmem).imp_right ?_
        rintro ⟨d, hd, hstands⟩
        exact ⟨d, List.mem_append_left _ (List.mem_append_left _ hd), hstands⟩
      case h_2 between ha =>
        rcases ihb heval hmem with hbetween | ⟨d, hd, hstands⟩
        · refine (iha ha hbetween).imp_right ?_
          rintro ⟨d, hd, hstands⟩
          cases answer with
          | true => exact ⟨d, List.mem_append_left _ (List.mem_append_right _ hd), hstands⟩
          | false => exact ⟨d, List.mem_append_left _ hd, hstands⟩
        · right
          cases answer with
          | true => exact ⟨d, List.mem_append_right _ hd, hstands⟩
          | false => exact ⟨d, List.mem_append_right _ hd, hstands⟩
  | not a ih =>
      intro expected answer expected' heval hmem
      cases heval
      simpa [doubts] using ih rfl hmem

end MySqlAnalysis.Grammar
