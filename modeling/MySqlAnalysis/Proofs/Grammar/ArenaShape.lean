import MySqlAnalysis.Proofs.Grammar.Building
import MySqlAnalysis.Proofs.Tree.ArenaWalk

/-!
# The arena of a run

Whatever tokens are read, from whatever start rule and with whatever options,
and whether or not the run is cancelled, the nodes that it built are those of one
tree, and a walk over them visits that tree.
-/

set_option autoImplicit false

namespace MySqlAnalysis.Grammar

/-- The arena of every run is a tree, and every walk over it ends and visits the
whole tree, with any table of tokens. -/
theorem arenaOf_isTree_and_walks (o : Options) (rule : StartRule) (tokens : List Token) :
    (arenaOf o rule tokens).IsTree ∧
      ∀ table : Array Token, ∃ visits,
        (arenaOf o rule tokens).walk table = some visits ∧
          (arenaOf o rule tokens).Walks table visits := by
  obtain ⟨t, -, hrooted⟩ := outcomeOf_root o rule tokens
  exact ⟨hrooted.isTree, hrooted.walk⟩

end MySqlAnalysis.Grammar
