import RoleLint.Tree

/- Comments are found by the cursor between tokens, outside the grammar. Once the
   tree is built each one is put into the innermost node whose span holds it,
   between the children it stands between.

   Correspondence: `extras` of `tree_sitter_javascript` in the finished tree. -/
namespace RoleLint.Tree

/-- Whether the span of `t` holds that of `c`. -/
def encloses (t c : Tree) : Bool :=
  t.start ≤ c.start && c.stop ≤ t.stop

mutual

/-- The tree `t` with the comment `c` in the innermost node that encloses it. -/
def attach (c : Tree) : Tree → Tree
  | node k f n s e b cs => node k f n s e b (attachAmong c cs)

/-- The comment `c` in or between the nodes of a list. -/
def attachAmong (c : Tree) : List Tree → List Tree
  | [] => [c]
  | t :: ts =>
    if t.encloses c then attach c t :: ts
    else if c.start < t.start then c :: t :: ts
    else t :: attachAmong c ts

end

/-- The tree with all of `comments` attached. -/
def attachAll (t : Tree) (comments : List Tree) : Tree :=
  comments.foldr attach t

end RoleLint.Tree
