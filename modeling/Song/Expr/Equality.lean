import Song.Expr

/-!
# Equality of expressions

Two notions. Identity of expressions is decidable equality; two closures that
are one object in memory are found identical without a walk through what they
captured. Structural equality is the language's own: numbers are compared by
value, so not-a-number differs from itself, everything else by its parts. A
closure is always equal to itself.
-/
namespace Song.Expr

/-- Decides a conjunction from decisions of its parts, the second only if needed. -/
@[macro_inline] def decideBoth {p q : Prop} (hp : Decidable p) (hq : Decidable q) :
    Decidable (p ∧ q) :=
  match hp with
  | isTrue h => decidable_of_iff q (by simp [h])
  | isFalse h => isFalse fun both => h both.1

mutual
def decideEq (a b : Expr) : Decidable (a = b) := by
  cases a <;> cases b <;> try exact isFalse Expr.noConfusion
  case bool.bool x y => exact decidable_of_iff (x = y) (by simp)
  case number.number x y => exact decidable_of_iff (x = y) (by simp)
  case char.char x y => exact decidable_of_iff (x = y) (by simp)
  case list.list xs ys => exact @decidable_of_iff _ (xs = ys) (by simp) (decideEqItems xs ys)
  case cons.cons xs t ys u =>
    exact @decidable_of_iff _ (xs = ys ∧ t = u) (by simp)
      (decideBoth (decideEqItems xs ys) (decideEq t u))
  case wildcard.wildcard => exact isTrue rfl
  case name.name x y => exact decidable_of_iff (x = y) (by simp)
  case function.function c d => exact @decidable_of_iff _ (c = d) (by simp) (decideEqClause c d)
  case assign.assign t x u y =>
    exact @decidable_of_iff _ (t = u ∧ x = y) (by simp) (decideBoth (decideEq t u) (decideEq x y))
  case closure.closure c d =>
    exact @decidable_of_iff _ (c = d) (by simp) (withPtrEqDecEq c d fun _ => decideEqClosure c d)
  case block.block xs ys => exact @decidable_of_iff _ (xs = ys) (by simp) (decideEqItems xs ys)
  case call.call f xs g ys =>
    exact @decidable_of_iff _ (f = g ∧ xs = ys) (by simp)
      (decideBoth (inferInstanceAs (Decidable (f = g))) (decideEqItems xs ys))
  case apply.apply t xs u ys =>
    exact @decidable_of_iff _ (t = u ∧ xs = ys) (by simp)
      (decideBoth (decideEq t u) (decideEqItems xs ys))
  case deferred.deferred t xs u ys =>
    exact @decidable_of_iff _ (t = u ∧ xs = ys) (by simp)
      (decideBoth (decideEq t u) (decideEqItems xs ys))
  case builtIn.builtIn x y => exact decidable_of_iff (x = y) (by simp)
termination_by structural a

def decideEqItems (xs ys : List Expr) : Decidable (xs = ys) :=
  match xs, ys with
  | [], [] => isTrue rfl
  | x :: xs, y :: ys =>
    @decidable_of_iff _ (x = y ∧ xs = ys) (by simp)
      (decideBoth (decideEq x y) (decideEqItems xs ys))
  | [], _ :: _ => isFalse nofun
  | _ :: _, [] => isFalse nofun
termination_by structural xs

def decideEqClause (c d : Clause Expr) : Decidable (c = d) :=
  match c, d with
  | ⟨n, ps, g, b⟩, ⟨m, qs, h, e⟩ =>
    @decidable_of_iff _ (n = m ∧ ps = qs ∧ g = h ∧ b = e) (by simp)
      (decideBoth (inferInstanceAs (Decidable (n = m)))
        (decideBoth (decideEqItems ps qs) (decideBoth (decideEq g h) (decideEq b e))))
termination_by structural c

def decideEqClauses (cs ds : List (Clause Expr)) : Decidable (cs = ds) :=
  match cs, ds with
  | [], [] => isTrue rfl
  | c :: cs, d :: ds =>
    @decidable_of_iff _ (c = d ∧ cs = ds) (by simp)
      (decideBoth (decideEqClause c d) (decideEqClauses cs ds))
  | [], _ :: _ => isFalse nofun
  | _ :: _, [] => isFalse nofun
termination_by structural cs

def decideEqClosure (c d : Closure Expr) : Decidable (c = d) :=
  match c, d with
  | ⟨n, cs, a⟩, ⟨m, ds, b⟩ =>
    @decidable_of_iff _ (n = m ∧ cs = ds ∧ a = b) (by simp)
      (decideBoth (inferInstanceAs (Decidable (n = m)))
        (decideBoth (decideEqClauses cs ds) (decideEqContext a b)))
termination_by structural c

def decideEqContext (a b : Context Expr) : Decidable (a = b) :=
  match a, b with
  | ⟨xs⟩, ⟨ys⟩ => @decidable_of_iff _ (xs = ys) (by simp) (decideEqBindings xs ys)
termination_by structural a

def decideEqBindings (xs ys : List (String × Expr)) : Decidable (xs = ys) :=
  match xs, ys with
  | [], [] => isTrue rfl
  | (k, x) :: xs, (l, y) :: ys =>
    @decidable_of_iff _ (k = l ∧ x = y ∧ xs = ys) (by simp [and_assoc])
      (decideBoth (inferInstanceAs (Decidable (k = l)))
        (decideBoth (decideEq x y) (decideEqBindings xs ys)))
  | [], _ :: _ => isFalse nofun
  | _ :: _, [] => isFalse nofun
termination_by structural xs
end

instance : DecidableEq Expr := decideEq

instance : DecidableEq (Closure Expr) := fun c d => withPtrEqDecEq c d fun _ => decideEqClosure c d

mutual
/-- Structural equality. Values in memory that are found equal if they share one allocation would
differ from this where not-a-number is inside: a list that shares it equals itself then, and here it
does not; closures that were made apart and captured it are unequal then, and here they are equal
if they are identical. -/
def same (a b : Expr) : Bool :=
  match a, b with
  | bool x, bool y => x == y
  | number x, number y => x.same y
  | char x, char y => x == y
  | list xs, list ys => sameItems xs ys
  | cons xs t, cons ys u => sameItems xs ys && same t u
  | wildcard, wildcard => true
  | name x, name y => x == y
  | function c, function d => sameClause c d
  | assign t x, assign u y => same t u && same x y
  | closure c, closure d => decide (c = d) || sameClosure c d
  | block xs, block ys => sameItems xs ys
  | call f xs, call g ys => f == g && sameItems xs ys
  | apply t xs, apply u ys => same t u && sameItems xs ys
  | deferred t xs, deferred u ys => same t u && sameItems xs ys
  | builtIn x, builtIn y => x == y
  | _, _ => false
termination_by structural a

def sameItems (xs ys : List Expr) : Bool :=
  match xs, ys with
  | [], [] => true
  | x :: xs, y :: ys => same x y && sameItems xs ys
  | _, _ => false
termination_by structural xs

def sameClause (c d : Clause Expr) : Bool :=
  match c, d with
  | ⟨n, ps, g, b⟩, ⟨m, qs, h, e⟩ => n == m && sameItems ps qs && same g h && same b e
termination_by structural c

def sameClauses (cs ds : List (Clause Expr)) : Bool :=
  match cs, ds with
  | [], [] => true
  | c :: cs, d :: ds => sameClause c d && sameClauses cs ds
  | _, _ => false
termination_by structural cs

def sameClosure (c d : Closure Expr) : Bool :=
  match c, d with
  | ⟨n, cs, a⟩, ⟨m, ds, b⟩ => n == m && sameClauses cs ds && sameContext a b
termination_by structural c

def sameContext (a b : Context Expr) : Bool :=
  match a, b with
  | ⟨xs⟩, ⟨ys⟩ => sameBindings xs ys
termination_by structural a

def sameBindings (xs ys : List (String × Expr)) : Bool :=
  match xs, ys with
  | [], [] => true
  | (k, x) :: xs, (l, y) :: ys => k == l && same x y && sameBindings xs ys
  | _, _ => false
termination_by structural xs
end

end Song.Expr
