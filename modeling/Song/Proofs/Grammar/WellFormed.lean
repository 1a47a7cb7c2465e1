import Mathlib.Algebra.Group.Int.Defs
import Song.Proofs.Expr.Everywhere
import Song.Proofs.Expr.Pattern
import Song.Proofs.Grammar.Soundness
import Song.Proofs.Token.LongestMatch

/-!
# Parsed programs are well formed

What evaluation relies on, said of each expression inside a parsed statement by
itself: closures, built-in functions and deferred calls do not occur, declarations
stand directly in blocks only, targets and parameters are patterns, lists are
constructed with at least one head, names are words that are not reserved, and
integers have a negative of their own. A minus sign before a numeral can therefore
belong to the numeral.
-/
namespace Song

def IsFreeWord (name : String) : Prop :=
  name.toList ∈ Pattern.identifier ∧ name ∉ Pattern.reservedWords.map Prod.fst

theorem IsIdentifier.isFreeWord {name : String} (h : IsIdentifier name) : IsFreeWord name := by
  obtain ⟨hword, c, rest, hname, hc, hrest⟩ := h
  rcases Lexeme.ofWord_cases name with hreserved | ⟨-, hfree⟩
  · -- no reserved word stands for an identifier
    have hall : ∀ pair ∈ Pattern.reservedWords, ∀ n, pair.2 ≠ .identifier n := by
      simp [Pattern.reservedWords]
    exact absurd hword (hall _ hreserved name)
  · refine ⟨?_, hfree⟩
    rw [Pattern.mem_identifier]
    refine ⟨c, rest, hname, hc, hrest, ?_⟩
    intro hunderscore
    have hreserved : "_" ∈ Pattern.reservedWords.map Prod.fst := by decide
    exact hfree (String.toList_inj.1 (hunderscore.trans rfl : _ = "_".toList) ▸ hreserved)

def IsFreeCallee (name : String) : Prop :=
  IsFreeWord name ∨ name ∈ Operator.all.map Operator.symbol

theorem IsCallee.isFreeCallee {name : String} (h : IsCallee name) : IsFreeCallee name := by
  apply h.imp IsIdentifier.isFreeWord
  rintro ⟨o, rfl⟩
  exact List.mem_map_of_mem (by cases o <;> decide)

namespace Expr

/-- What a parsed expression is like, apart from what stands inside it. -/
def IsShaped : Expr → Prop
  | number (.int i) => -(2 ^ 63 - 1) ≤ i.toInt ∧ i.toInt ≤ 2 ^ 63 - 1
  | cons heads _ => heads ≠ []
  | name n => IsFreeWord n
  | function clause =>
    (∀ n ∈ clause.name, IsFreeCallee n) ∧ ∀ p ∈ clause.patterns, p.IsPattern
  | assign target _ => target.isTarget = true ∧ target.IsPattern
  | call callee _ => IsFreeCallee callee
  | closure _ | builtIn _ | deferred .. => False
  | bool _ | number (.float _) | char _ | list _ | wildcard | block _ | apply .. => True

/-- Declarations stand directly inside only if it is a block. -/
def DeclaresOnlyInBlock : Expr → Prop
  | block _ => True
  | e => ∀ part ∈ e.parts, part.isDeclaration = false

/-- The expression and all that is inside it have the shape of parsed text. -/
def IsWellFormed (e : Expr) : Prop :=
  e.Everywhere fun part => part.IsShaped ∧ part.DeclaresOnlyInBlock

end Expr

theorem toInt_bounds {i : Int64} (h : i ≠ Int64.minValue) :
    -(2 ^ 63 - 1) ≤ i.toInt ∧ i.toInt ≤ 2 ^ 63 - 1 := by
  have hleast : i.toInt ≠ -2 ^ 63 := fun heq => h (Int64.toInt_inj.1 (heq.trans (by decide)))
  have hlower := i.le_toInt
  have hupper := i.toInt_lt
  omega

/-- Changing the sign of a numeral does not overflow. -/
theorem toInt_neg_of_lexical {i : Int64} (h : (Token.int i).Lexical) :
    (-i).toInt = -i.toInt := by
  have hlower : 0 ≤ i.toInt := h
  have hupper := i.toInt_lt
  rw [Int64.toInt_neg]
  exact Int.bmod_eq_of_le (by omega) (by omega)

namespace Grammatical

theorem isDeclaration_eq_false {e : Expr} (h : Grammatical .expression e) :
    e.isDeclaration = false := by
  cases h <;> rfl

/-- Around expressions only the shape counts. -/
private theorem isWellFormed_of_parts {e : Expr} (hs : e.IsShaped)
    (h : ∀ part ∈ e.parts, Grammatical .expression part ∧ part.IsWellFormed) :
    e.IsWellFormed := by
  have hdeclares : e.DeclaresOnlyInBlock := by
    rw [Expr.DeclaresOnlyInBlock.eq_def]
    split
    · trivial
    · intro part hpart
      exact (h part hpart).1.isDeclaration_eq_false
  exact .intro ⟨hs, hdeclares⟩ fun part hpart => (h part hpart).2

private theorem isWellFormed_of_clause {clause : Clause Expr}
    (hn : ∀ n ∈ clause.name, IsCallee n) (hp : ∀ p ∈ clause.patterns, Grammatical .expression p)
    (hpattern : Expr.nonPatternAmong? clause.patterns = none)
    (hg : Grammatical .expression clause.guard) (hb : Grammatical .expression clause.body)
    (ihp : ∀ p ∈ clause.patterns, p.IsWellFormed) (ihg : clause.guard.IsWellFormed)
    (ihb : clause.body.IsWellFormed) : (Expr.function clause).IsWellFormed := by
  refine isWellFormed_of_parts ⟨fun n hmem => (hn n hmem).isFreeCallee,
    Expr.isPattern_of_nonPatternAmong? _ hpattern⟩ ?_
  refine List.forall_mem_append.2 ⟨fun p hmem => ⟨hp p hmem, ihp p hmem⟩, ?_⟩
  simpa using ⟨⟨hg, ihg⟩, ⟨hb, ihb⟩⟩

theorem isWellFormed {role : Role} {e : Expr} (h : Grammatical role e) : e.IsWellFormed := by
  induction h with
  | bool b => exact isWellFormed_of_parts trivial (List.forall_mem_nil _)
  | int h => exact isWellFormed_of_parts (toInt_bounds h) (List.forall_mem_nil _)
  | float x => exact isWellFormed_of_parts trivial (List.forall_mem_nil _)
  | char c => exact isWellFormed_of_parts trivial (List.forall_mem_nil _)
  | wildcard => exact isWellFormed_of_parts trivial (List.forall_mem_nil _)
  | name h => exact isWellFormed_of_parts h.isFreeWord (List.forall_mem_nil _)
  | list h ih => exact isWellFormed_of_parts trivial fun e he => ⟨h e he, ih e he⟩
  | cons hne hh ht ihh iht =>
    refine isWellFormed_of_parts hne (List.forall_mem_append.2 ⟨?_, ?_⟩)
    · intro e he
      exact ⟨hh e he, ihh e he⟩
    · simpa using ⟨ht, iht⟩
  | lambda hp hpattern hg hb ihp ihg ihb =>
    exact isWellFormed_of_clause nofun hp hpattern hg hb ihp ihg ihb
  | block _ ih => exact .intro ⟨trivial, trivial⟩ ih
  | call hc h ih => exact isWellFormed_of_parts hc.isFreeCallee fun e he => ⟨h e he, ih e he⟩
  | apply ht h iht ih =>
    exact isWellFormed_of_parts trivial
      (List.forall_mem_cons.2 ⟨⟨ht, iht⟩, fun e he => ⟨h e he, ih e he⟩⟩)
  | expression _ ih => exact ih
  | assign hshape ht hpattern hv iht ihv =>
    refine isWellFormed_of_parts ⟨hshape, Expr.isPattern_of_nonPattern? _ hpattern⟩ ?_
    exact List.forall_mem_cons.2 ⟨⟨ht, iht⟩, List.forall_mem_singleton.2 ⟨hv, ihv⟩⟩
  | function hn hp hpattern hg hb ihp ihg ihb =>
    refine isWellFormed_of_clause ?_ hp hpattern hg hb ihp ihg ihb
    intro n hmem
    cases hmem
    exact hn

end Grammatical

/-- Every statement of a parsed program is well formed, and a minus sign before any numeral of the
text changes its sign without an overflow. -/
theorem parseProgram_isWellFormed (source : String) :
    (∀ program, parseProgram source = .ok program → ∀ s ∈ program, s.IsWellFormed) ∧
    ∀ tokens, tokenize source.toList = .ok tokens → ∀ t ∈ tokens, ∀ i, t.token = .int i →
      (-i).toInt = -i.toInt := by
  refine ⟨fun program h s hs => (parseProgram_grammatical h s hs).isWellFormed, ?_⟩
  intro tokens h t ht i hi
  have hlexical := tokenize_lexical h t ht
  rw [hi] at hlexical
  exact toInt_neg_of_lexical hlexical

/-- The clause `f([x | _], -7) When x > 1 = Do y = Fn(z) = z.g, [y] End`. -/
def destructuringClause : Expr :=
  .function ⟨some "f", [.cons [.name "x"] .wildcard, .int (-7)], .call ">" [.name "x", .int 1],
    .block [.assign (.name "y")
      (.function ⟨none, [.name "z"], .bool true, .call "g" [.name "z"]⟩), .list [.name "y"]]⟩

theorem parseProgram_isWellFormed_destructuringClause :
    (∃ source, parseProgram source = .ok [destructuringClause] ∧ destructuringClause.IsWellFormed) ∧
      tokenize ['-', '7'] = .ok [⟨.operator .minus, ⟨0, 1⟩⟩, ⟨.int 7, ⟨1, 2⟩⟩] ∧
      (-7 : Int64).toInt = -(7 : Int64).toInt := by
  have hparse : parseProgram "f([x | _], -7) When x > 1 = Do y = Fn(z) = z.g, [y] End" =
      .ok [destructuringClause] := parseProgram_of_toOption (by decide +kernel)
  have htokens : tokenize ['-', '7'] = .ok [⟨.operator .minus, ⟨0, 1⟩⟩, ⟨.int 7, ⟨1, 2⟩⟩] := rfl
  have hwellFormed := (parseProgram_isWellFormed _).1 _ hparse _ (List.mem_singleton_self _)
  have hnegative := (parseProgram_isWellFormed "-7").2 _ htokens ⟨.int 7, ⟨1, 2⟩⟩ (by simp) 7 rfl
  exact ⟨⟨_, hparse, hwellFormed⟩, htokens, hnegative⟩

end Song
