import StaticAssert.Proofs.Expr.Tree

/-!
# Expressions moved in a source

An expression can stand at other places. Its form, how many operators wait in it and its
value are those of its kinds of tokens, so that they move with it.
-/

set_option autoImplicit false

namespace StaticAssert

namespace Token

def moved (f : Site → Site) (t : Token) : Token := (f t.site).token t.kind

end Token

namespace Tree

variable {f : Site → Site} {e : Tree}

def moved (f : Site → Site) : Tree → Tree
  | .literal n p => .literal n (f p)
  | .unary op p x => .unary op (f p) (x.moved f)
  | .binary op p x y => .binary op (f p) (x.moved f) (y.moved f)

theorem tokens_moved (f : Site → Site) (e : Tree) :
    (e.moved f).tokens = e.tokens.map (Token.moved f) := by
  induction e with
  | literal n p => rfl
  | unary op p x ih =>
    rw [moved, tokens, tokens, ih]
    rfl
  | binary op p x y ihx ihy =>
    rw [moved, tokens, tokens, ihx, ihy, List.map_append]
    rfl

theorem InStratum.moved {k : Nat} (h : e.InStratum k) : (e.moved f).InStratum k := by
  induction h with
  | number n p => exact .number n (f p)
  | prefixed op p _ ih => exact .prefixed op (f p) ih
  | looser _ ih => exact .looser ih
  | joined op p hk _ _ ihx ihy => exact .joined op (f p) hk ihx ihy

theorem Shallow.moved {waiting : Nat} (h : e.Shallow waiting) : (e.moved f).Shallow waiting := by
  induction e generalizing waiting with
  | literal n p => trivial
  | unary op p x ih => exact ⟨h.1, ih h.2⟩
  | binary op p x y ihx ihy => exact ⟨ihx h.1, ihy h.2⟩

theorem value_moved (f : Site → Site) (e : Tree) : (e.moved f).value = e.value := by
  unfold value
  induction e with
  | literal n p => rfl
  | unary op p x ih => rw [Tree.moved, eval, eval, ih]
  | binary op p x y ihx ihy => rw [Tree.moved, eval, eval, ihx, ihy]

end Tree
end StaticAssert
